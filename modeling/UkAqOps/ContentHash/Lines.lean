import UkAqOps.ContentHash.Rows
import UkAqOps.Js.Parse
import UkAqOps.Js.Split
import UkAqOps.Lib.Framing

/-!
# The line of a row

A canonical row passes its own normaliser unchanged, and its line determines it: no column holds a
comma, the text of an id determines its number, and the hexadecimal digits determine the bits of the
value. No line holds a line break.
-/

namespace UkAqOps.ContentHash

open Prune (isCanonicalPollutantCode jsonNullable)

/-! ## Canonical rows are accepted as they are -/

section Accepted

variable {dateParse : String → Option ℤ}

theorem withoutNegativeZero_eq_self {value : Binary64} (h : isCanonicalValue value = true) :
    withoutNegativeZero value = value := by
  rw [isCanonicalValue, Bool.and_eq_true, decide_eq_true_iff] at h
  rw [withoutNegativeZero, if_neg h.2]

theorem canonicalValue_number (value : {value : Binary64 // isCanonicalValue value = true}) :
    canonicalValue (.number value) = .ok value := by
  have hfinite : value.val.isFinite = true := by
    have h := value.property
    rw [isCanonicalValue, Bool.and_eq_true] at h
    exact h.1
  rw [canonicalValue, dif_pos hfinite]
  exact congrArg Except.ok (Subtype.ext (withoutNegativeZero_eq_self value.property))

theorem positiveInteger_number (fieldName : String) (id : PositiveInteger) :
    positiveInteger fieldName (.number id) = .ok id := by
  rw [positiveInteger, dif_pos id.property]

theorem canonicalStationId_elim (id : Option PositiveInteger) :
    canonicalStationId (id.elim .null fun id ↦ .number id) = .ok id := by
  rcases id with _ | id
  · rfl
  · rw [Option.elim_some, canonicalStationId, positiveInteger_number]
    · rfl
    · exact Field.noConfusion
    · exact Field.noConfusion

theorem requireCanonicalVerificationStatus_elim (status : Option VerificationStatus) :
    requireCanonicalVerificationStatus (status.elim .null fun status ↦ .text status.text) =
      .ok status := by
  rcases status with _ | (_ | _)
  · rfl
  · rfl
  · rfl

/-- The normaliser of the columns reads a canonical row back, whatever else the object holds. -/
theorem normalizeMeasurementColumns_eq_ok {row : MeasurementRow dateParse} {read : String → Field}
    (h : ∀ column ∈ observationMeasurementContentHashColumns, read column = row.read column) :
    normalizeMeasurementColumns dateParse read = .ok row := by
  have hcode : canonicalPollutantCode (.text row.pollutantCode) = .ok row.pollutantCode := by
    rw [canonicalPollutantCode, dif_pos row.pollutantCode.property]
  have hobserved :
      canonicalObservedAt dateParse (.text row.observedAtUtc) = .ok row.observedAtUtc := by
    rw [canonicalObservedAt, dif_pos row.observedAtUtc.property]
  rw [normalizeMeasurementColumns, h _ (by decide), h _ (by decide), h _ (by decide),
    h _ (by decide), h _ (by decide), h _ (by decide)]
  simp only [MeasurementRow.read, String.reduceEq, if_true, if_false]
  rw [hcode, hobserved, canonicalValue_number, positiveInteger_number, canonicalStationId_elim,
    positiveInteger_number]
  rfl

theorem normalizeCanonicalObservationMeasurementRow_toRow (row : MeasurementRow dateParse) :
    normalizeCanonicalObservationMeasurementRow dateParse row.toRow = .ok row :=
  normalizeMeasurementColumns_eq_ok fun _ _ ↦ rfl

theorem normalizeCanonicalObservationRow_toRow (row : ObservationRow dateParse) :
    normalizeCanonicalObservationRow dateParse row.toRow = .ok row := by
  have hmeasurement : normalizeMeasurementColumns dateParse row.read = .ok row.toMeasurementRow := by
    refine normalizeMeasurementColumns_eq_ok fun column hcolumn ↦ ?_
    rw [ObservationRow.read, if_neg fun heq ↦ absurd (heq ▸ hcolumn) (by decide)]
  have hselect : selectObservationVerificationStatusColumn observationContentHashColumns =
      .ok (some "verification_status") := by
    rfl
  rw [ObservationRow.toRow, normalizeCanonicalObservationRow, hselect, Except.ok_bind,
    if_neg (by decide), hmeasurement, Except.ok_bind, ObservationRow.read, if_pos rfl,
    requireCanonicalVerificationStatus_elim]
  rfl

/-- The hexadecimal digits of the value of a canonical row. -/
def MeasurementRow.valueHex (row : MeasurementRow dateParse) : String :=
  String.ofList (row.value.val.bytes.flatMap byteHex)

def MeasurementRow.line (row : MeasurementRow dateParse) : String :=
  jsonArray (row.columns row.valueHex)

def ObservationRow.line (row : ObservationRow dateParse) : String :=
  jsonArray (row.columns row.valueHex ++ [jsonNullable jsonStatus row.verificationStatus])

theorem float64BigEndianHex_value (row : MeasurementRow dateParse) :
    float64BigEndianHex row.value = .ok row.valueHex := by
  have h := row.value.property
  rw [float64BigEndianHex, withoutNegativeZero_eq_self h, if_pos]
  · rfl
  · rw [isCanonicalValue, Bool.and_eq_true] at h
    exact h.1

theorem encodeCanonicalObservationMeasurementRow_toRow (row : MeasurementRow dateParse) :
    encodeCanonicalObservationMeasurementRow dateParse row.toRow = .ok row.line := by
  rw [encodeCanonicalObservationMeasurementRow, normalizeCanonicalObservationMeasurementRow_toRow,
    Except.ok_bind, float64BigEndianHex_value]
  rfl

theorem encodeCanonicalObservationRow_toRow (row : ObservationRow dateParse) :
    encodeCanonicalObservationRow dateParse row.toRow = .ok row.line := by
  rw [encodeCanonicalObservationRow, normalizeCanonicalObservationRow_toRow, Except.ok_bind,
    float64BigEndianHex_value]
  rfl

end Accepted

/-! ## What stands in a column -/

/-- The characters of codes, timestamps and hexadecimal digits, none of which JSON escapes. -/
def isPlain (c : Char) : Bool := c.isAlphanum || c = '_' || c = '-' || c = ':' || c = '.'

theorem jsonEscape_of_isPlain {c : Char} (h : isPlain c = true) : jsonEscape c = String.ofList [c] := by
  have hrange : 0x20 ≤ c.toNat := by
    have hcontrol : ∀ n < 0x20, isPlain (Char.ofNat n) = false := by decide
    by_contra hlt
    have hplain := hcontrol c.toNat (not_le.mp hlt)
    rw [Char.ofNat_toNat, h] at hplain
    exact absurd hplain (by decide)
  have hquote : c ≠ '"' := fun heq ↦ absurd (heq ▸ h) (by decide)
  have hslash : c ≠ '\\' := fun heq ↦ absurd (heq ▸ h) (by decide)
  have hval : ∀ n : UInt32, n.toNat < 0x20 → c.val ≠ n := by
    intro n hn heq
    rw [← heq] at hn
    exact absurd hrange (not_le.mpr hn)
  have hcontrol : ¬c.val < 0x20 := by
    rw [UInt32.lt_iff_toNat_lt]
    exact not_lt.mpr hrange
  rw [jsonEscape, if_neg hquote, if_neg hslash, if_neg (hval _ (by decide)),
    if_neg (hval _ (by decide)), if_neg (hval _ (by decide)), if_neg (hval _ (by decide)),
    if_neg (hval _ (by decide)), if_neg hcontrol]

/-- A text of plain characters only gets its quotation marks. -/
theorem toList_jsonQuote_of_isPlain {s : String} (h : ∀ c ∈ s.toList, isPlain c = true) :
    (jsonQuote s).toList = '"' :: s.toList ++ ['"'] := by
  have hchars : (s.toList.flatMap fun c ↦ (jsonEscape c).toList) = s.toList := by
    have hpointwise : ∀ c ∈ s.toList, (jsonEscape c).toList = [c] := fun c hc ↦ by
      rw [jsonEscape_of_isPlain (h c hc), String.toList_ofList]
    rw [List.flatMap_congr hpointwise]
    exact List.flatMap_singleton' s.toList
  rw [JsonText.toList_jsonQuote, hchars]

theorem jsonQuote_injOn {s t : String} (hs : ∀ c ∈ s.toList, isPlain c = true)
    (ht : ∀ c ∈ t.toList, isPlain c = true) (h : jsonQuote s = jsonQuote t) : s = t := by
  have hlist := congrArg String.toList h
  rw [toList_jsonQuote_of_isPlain hs, toList_jsonQuote_of_isPlain ht, List.cons_append,
    List.cons_append] at hlist
  exact String.toList_inj.mp (List.append_cancel_right (List.cons.inj hlist).2)

theorem isPlain_of_isCanonicalPollutantCode {code : String} (h : isCanonicalPollutantCode code = true) :
    ∀ c ∈ code.toList, isPlain c = true := by
  intro c hc
  rw [isCanonicalPollutantCode, Bool.and_eq_true] at h
  have hchar := List.all_eq_true.mp h.2 c hc
  simp only [Bool.or_eq_true, decide_eq_true_iff] at hchar
  simp only [isPlain, Char.isAlphanum, isAlpha_eq, Bool.or_eq_true, decide_eq_true_iff]
  rcases hchar with (hlower | hdigit) | hscore
  · exact Or.inl (Or.inl (Or.inl (Or.inl (Or.inl (Or.inr hlower)))))
  · exact Or.inl (Or.inl (Or.inl (Or.inl (Or.inr hdigit))))
  · exact Or.inl (Or.inl (Or.inl (Or.inr hscore)))

theorem isPlain_of_hasTimestampShape {text : String} (h : hasTimestampShape text = true) :
    ∀ c ∈ text.toList, isPlain c = true := by
  intro c hc
  rw [hasTimestampShape, Bool.and_eq_true, decide_eq_true_iff] at h
  obtain ⟨hlength, hall⟩ := h
  rw [← List.map_snd_zip hlength.le, List.mem_map] at hc
  obtain ⟨⟨s, d⟩, hmem, rfl⟩ := hc
  have hchar := List.all_eq_true.mp hall _ hmem
  have hshape : s ∈ "dddd-dd-ddTdd:dd:dd.dddZ".toList := (List.of_mem_zip hmem).1
  have hmarks : ∀ s ∈ "dddd-dd-ddTdd:dd:dd.dddZ".toList, isPlain s = true :=
    List.all_iff_forall_prop.mp (by decide)
  dsimp only at hchar ⊢
  by_cases hdigit : s = 'd'
  · rw [if_pos hdigit] at hchar
    simp only [isPlain, Char.isAlphanum, hchar, Bool.or_true, Bool.true_or]
  · rw [if_neg hdigit, decide_eq_true_iff] at hchar
    rw [hchar]
    exact hmarks s hshape

theorem isPlain_of_mem_byteHex {byte : ℕ} (hbyte : byte < 256) {c : Char} (hc : c ∈ byteHex byte) :
    isPlain c = true := by
  have hdigit : ∀ n < 16, isPlain (Nat.digitChar n) = true := by decide
  rcases List.mem_cons.mp hc with rfl | hc
  · exact hdigit _ (by omega)
  · rw [List.mem_singleton.mp hc]
    exact hdigit _ (by omega)

theorem byteHex_injective {a b : ℕ} (ha : a < 256) (hb : b < 256) (h : byteHex a = byteHex b) :
    a = b := by
  have hdigit : ∀ m < 16, ∀ n < 16, Nat.digitChar m = Nat.digitChar n → m = n := by decide
  obtain ⟨hhigh, hlow⟩ := List.cons.inj h
  have hdiv := hdigit _ (by omega) _ (by omega) hhigh
  have hmod := hdigit _ (by omega) _ (by omega) (List.singleton_inj.mp hlow)
  omega

/-- Two digits a byte: the bytes can be read back. -/
theorem flatMap_byteHex_injective {bytes bytes' : List ℕ} (h : ∀ byte ∈ bytes, byte < 256)
    (h' : ∀ byte ∈ bytes', byte < 256) (heq : bytes.flatMap byteHex = bytes'.flatMap byteHex) :
    bytes = bytes' := by
  induction bytes generalizing bytes' with
  | nil =>
    rcases bytes' with _ | ⟨b, bytes'⟩
    · rfl
    · exact absurd heq (List.cons_ne_nil _ _).symm
  | cons a bytes ih =>
    rcases bytes' with _ | ⟨b, bytes'⟩
    · exact absurd heq (List.cons_ne_nil _ _)
    · rw [List.flatMap_cons, List.flatMap_cons] at heq
      obtain ⟨hhead, htail⟩ := List.append_inj heq rfl
      rw [byteHex_injective (h a List.mem_cons_self) (h' b List.mem_cons_self) hhead,
        ih (fun c hc ↦ h c (List.mem_cons_of_mem a hc)) (fun c hc ↦ h' c (List.mem_cons_of_mem b hc))
          htail]

/-! ## Ids -/

/-- The text of an id is the decimal text of the integer that it is. -/
theorem toList_jsonId (id : PositiveInteger) :
    ∃ n : ℕ, 0 < n ∧ id.val.toInt? = some (n : ℤ) ∧ (jsonId id).toList = Nat.toDigits 10 n := by
  obtain ⟨n, hn, hsafe⟩ := (Option.any_eq_true _ _).mp id.property
  rw [isPositiveSafeInteger, Bool.and_eq_true, decide_eq_true_iff] at hsafe
  obtain ⟨m, rfl⟩ := Int.eq_ofNat_of_zero_le hsafe.1.le
  refine ⟨m, by exact_mod_cast hsafe.1, hn, ?_⟩
  rw [jsonId, hn, Option.getD_some, Prune.jsonInt]
  exact Nat.toList_repr

theorem jsonId_injective : Function.Injective jsonId := by
  intro a b h
  obtain ⟨m, hm, ha, htextA⟩ := toList_jsonId a
  obtain ⟨n, -, hb, htextB⟩ := toList_jsonId b
  have hdigits : Nat.toDigits 10 m = Nat.toDigits 10 n := by
    rw [← htextA, ← htextB, h]
  have hsame : m = n := by
    rw [← Nat.ofDigitChars_ten_toDigits (n := m), hdigits, Nat.ofDigitChars_ten_toDigits]
  rw [← hsame] at hb
  exact Subtype.ext (Binary64.eq_of_toInt?_eq ha hb (by exact_mod_cast hm))

theorem isPlain_of_mem_jsonId {id : PositiveInteger} {c : Char} (hc : c ∈ (jsonId id).toList) :
    isPlain c = true := by
  obtain ⟨n, -, -, htext⟩ := toList_jsonId id
  rw [htext] at hc
  simp only [isPlain, Char.isAlphanum, JsonText.isDigit_of_mem_toDigits hc, Bool.or_true,
    Bool.true_or]

theorem jsonId_ne_null (id : PositiveInteger) : jsonId id ≠ "null" := by
  obtain ⟨n, -, -, htext⟩ := toList_jsonId id
  intro h
  rw [h] at htext
  have hdigit : 'n' ∈ Nat.toDigits 10 n := htext ▸ by decide
  exact absurd (JsonText.isDigit_of_mem_toDigits hdigit) (by decide)

theorem jsonStatus_injective : Function.Injective jsonStatus := by
  rintro (_ | _) (_ | _) h
  · rfl
  · exact absurd h (by decide)
  · exact absurd h (by decide)
  · rfl

theorem jsonStatus_ne_null (status : VerificationStatus) : jsonStatus status ≠ "null" := by
  rcases status with _ | _ <;> decide

/-- `null` is the text of nothing else. -/
theorem jsonNullable_injective {α : Type} {json : α → String} (hjson : Function.Injective json)
    (hnull : ∀ a, json a ≠ "null") : Function.Injective (jsonNullable json) := by
  rintro (_ | a) (_ | b) h
  · rfl
  · exact absurd h.symm (hnull b)
  · exact absurd h (hnull a)
  · exact congrArg some (hjson h)

/-! ## Lines -/

/-- The characters of a column: no comma, no bracket and no line break. -/
def isColumnChar (c : Char) : Bool := isPlain c || c = '"'

theorem isColumnChar_of_isPlain {c : Char} (h : isPlain c = true) : isColumnChar c = true := by
  rw [isColumnChar, h, Bool.true_or]

theorem isColumnChar_of_mem_jsonQuote {s : String} (h : ∀ c ∈ s.toList, isPlain c = true) :
    ∀ c ∈ (jsonQuote s).toList, isColumnChar c = true := by
  intro c hc
  rw [toList_jsonQuote_of_isPlain h, List.cons_append, List.mem_cons, List.mem_append,
    List.mem_singleton] at hc
  rcases hc with rfl | hplain | rfl
  · decide
  · exact isColumnChar_of_isPlain (h c hplain)
  · decide

theorem isColumnChar_of_mem_jsonNullable {α : Type} {json : α → String}
    (h : ∀ a, ∀ c ∈ (json a).toList, isColumnChar c = true) (value : Option α) :
    ∀ c ∈ (jsonNullable json value).toList, isColumnChar c = true := by
  rcases value with _ | a
  · exact fun c hc ↦ List.all_eq_true.mp (by decide : "null".toList.all isColumnChar = true) c hc
  · exact h a

/-- **The columns of an array** can be read back from its text. -/
theorem jsonArray_injOn {items items' : List String} (hne : items ≠ []) (hne' : items' ≠ [])
    (hitems : ∀ item ∈ items, ∀ c ∈ item.toList, isColumnChar c = true)
    (hitems' : ∀ item ∈ items', ∀ c ∈ item.toList, isColumnChar c = true)
    (h : jsonArray items = jsonArray items') : items = items' := by
  have hpieces : ∀ {items : List String},
      (∀ item ∈ items, ∀ c ∈ item.toList, isColumnChar c = true) →
        ∀ piece ∈ items.map String.toList, ∀ d ∈ piece, decide (d = ',') = false := by
    intro items hitems piece hpiece d hd
    obtain ⟨item, hitem, rfl⟩ := List.mem_map.mp hpiece
    rw [decide_eq_false_iff_not]
    rintro rfl
    exact absurd (hitems item hitem _ hd) (by decide)
  have hlist := congrArg String.toList h
  rw [jsonArray, jsonArray, String.toList_append, String.toList_append, String.toList_append,
    String.toList_append, String.toList_intercalate, String.toList_intercalate] at hlist
  have hbody := List.append_cancel_left (List.append_cancel_right hlist)
  have hsplit := congrArg (splitChars (· = ',')) hbody
  have hcomma : ",".toList = [','] := by decide
  rw [hcomma, splitChars_intercalate (by decide) (mt List.map_eq_nil_iff.mp hne) (hpieces hitems),
    splitChars_intercalate (by decide) (mt List.map_eq_nil_iff.mp hne') (hpieces hitems')] at hsplit
  exact List.map_injective_iff.mpr (fun _ _ ↦ String.toList_inj.mp) hsplit

/-- No line holds a line break. -/
theorem newline_notMem_jsonArray {items : List String}
    (hitems : ∀ item ∈ items, ∀ c ∈ item.toList, isColumnChar c = true) :
    '\n' ∉ (jsonArray items).toList := by
  intro hmem
  rw [jsonArray, String.toList_append, String.toList_append, String.toList_intercalate] at hmem
  rcases List.mem_append.mp hmem with hmem | hclosing
  · rcases List.mem_append.mp hmem with hopening | hbody
    · exact absurd hopening (by decide)
    · rcases Framing.mem_or_exists_of_mem_intercalate hbody with hcomma | ⟨piece, hpiece, hmem⟩
      · exact absurd hcomma (by decide)
      · obtain ⟨item, hitem, rfl⟩ := List.mem_map.mp hpiece
        exact absurd (hitems item hitem _ hmem) (by decide)
  · exact absurd hclosing (by decide)

section Lines

variable {dateParse : String → Option ℤ}

theorem isPlain_code (row : MeasurementRow dateParse) :
    ∀ c ∈ row.pollutantCode.val.toList, isPlain c = true :=
  isPlain_of_isCanonicalPollutantCode row.pollutantCode.property

theorem isPlain_observedAt (row : MeasurementRow dateParse) :
    ∀ c ∈ row.observedAtUtc.val.toList, isPlain c = true := by
  have h := row.observedAtUtc.property
  rw [isExactUtcTimestamp, Bool.and_eq_true] at h
  exact isPlain_of_hasTimestampShape h.1

theorem isPlain_valueHex (row : MeasurementRow dateParse) :
    ∀ c ∈ row.valueHex.toList, isPlain c = true := by
  intro c hc
  rw [MeasurementRow.valueHex, String.toList_ofList] at hc
  obtain ⟨byte, hbyte, hmem⟩ := List.mem_flatMap.mp hc
  exact isPlain_of_mem_byteHex (Binary64.lt_of_mem_bytesBigEndian hbyte) hmem

theorem isColumnChar_columns (row : MeasurementRow dateParse) :
    ∀ item ∈ row.columns row.valueHex, ∀ c ∈ item.toList, isColumnChar c = true := by
  have hid : ∀ id : PositiveInteger, ∀ c ∈ (jsonId id).toList, isColumnChar c = true :=
    fun id c hc ↦ isColumnChar_of_isPlain (isPlain_of_mem_jsonId hc)
  intro item hitem
  simp only [MeasurementRow.columns, List.mem_cons, List.not_mem_nil, or_false] at hitem
  rcases hitem with rfl | rfl | rfl | rfl | rfl | rfl
  · exact hid row.connectorId
  · exact isColumnChar_of_mem_jsonNullable hid row.stationId
  · exact hid row.timeseriesId
  · exact isColumnChar_of_mem_jsonQuote (isPlain_code row)
  · exact isColumnChar_of_mem_jsonQuote (isPlain_observedAt row)
  · exact isColumnChar_of_mem_jsonQuote (isPlain_valueHex row)

theorem isColumnChar_status (row : ObservationRow dateParse) :
    ∀ item ∈ row.columns row.valueHex ++ [jsonNullable jsonStatus row.verificationStatus],
      ∀ c ∈ item.toList, isColumnChar c = true := by
  intro item hitem
  rcases List.mem_append.mp hitem with hcolumn | hstatus
  · exact isColumnChar_columns row.toMeasurementRow item hcolumn
  · rw [List.mem_singleton.mp hstatus]
    refine isColumnChar_of_mem_jsonNullable (fun status ↦ ?_) row.verificationStatus
    rcases status with _ | _ <;> exact fun c hc ↦ List.all_eq_true.mp (by decide) c hc

/-- The texts of the columns determine the columns. -/
theorem eq_of_columns_eq {row row' : MeasurementRow dateParse}
    (h : row.columns row.valueHex = row'.columns row'.valueHex) : row = row' := by
  simp only [MeasurementRow.columns, List.cons.injEq, and_true] at h
  obtain ⟨hconnector, hstation, htimeseries, hcode, hobserved, hvalue⟩ := h
  have hhex := jsonQuote_injOn (isPlain_valueHex row) (isPlain_valueHex row') hvalue
  have hbytes := flatMap_byteHex_injective
    (fun byte hbyte ↦ Binary64.lt_of_mem_bytesBigEndian hbyte)
    (fun byte hbyte ↦ Binary64.lt_of_mem_bytesBigEndian hbyte) (String.ofList_injective hhex)
  exact MeasurementRow.ext (jsonId_injective hconnector)
    (jsonNullable_injective jsonId_injective jsonId_ne_null hstation) (jsonId_injective htimeseries)
    (Subtype.ext (jsonQuote_injOn (isPlain_code row) (isPlain_code row') hcode))
    (Subtype.ext (jsonQuote_injOn (isPlain_observedAt row) (isPlain_observedAt row') hobserved))
    (Subtype.ext (Binary64.bytes_injective hbytes))

/-- **The line of a measurement determines it.** -/
theorem MeasurementRow.line_injective :
    Function.Injective (@MeasurementRow.line dateParse) := by
  intro row row' h
  exact eq_of_columns_eq (jsonArray_injOn (List.cons_ne_nil _ _) (List.cons_ne_nil _ _)
    (isColumnChar_columns row) (isColumnChar_columns row') h)

theorem ObservationRow.ext_of_measurement {row row' : ObservationRow dateParse}
    (hmeasurement : row.toMeasurementRow = row'.toMeasurementRow)
    (hstatus : row.verificationStatus = row'.verificationStatus) : row = row' := by
  obtain ⟨measurement, status⟩ := row
  obtain ⟨measurement', status'⟩ := row'
  dsimp only at hmeasurement hstatus
  rw [hmeasurement, hstatus]

/-- **The line of a row determines it.** -/
theorem ObservationRow.line_injective :
    Function.Injective (@ObservationRow.line dateParse) := by
  intro row row' h
  have hne : ∀ row : ObservationRow dateParse,
      row.columns row.valueHex ++ [jsonNullable jsonStatus row.verificationStatus] ≠ [] :=
    fun _ ↦ List.append_ne_nil_of_right_ne_nil _ (List.cons_ne_nil _ _)
  have hitems := jsonArray_injOn (hne row) (hne row') (isColumnChar_status row)
    (isColumnChar_status row') h
  obtain ⟨hcolumns, hstatus⟩ := List.append_inj' hitems rfl
  refine ObservationRow.ext_of_measurement (eq_of_columns_eq hcolumns) ?_
  exact jsonNullable_injective jsonStatus_injective jsonStatus_ne_null
    (List.singleton_inj.mp hstatus)

theorem MeasurementRow.newline_notMem_line (row : MeasurementRow dateParse) :
    '\n' ∉ row.line.toList :=
  newline_notMem_jsonArray (isColumnChar_columns row)

theorem ObservationRow.newline_notMem_line (row : ObservationRow dateParse) :
    '\n' ∉ row.line.toList :=
  newline_notMem_jsonArray (isColumnChar_status row)

end Lines

end UkAqOps.ContentHash

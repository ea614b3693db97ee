import Std.Data.String.ToInt
import UkAqOps.ContinuityFamilies.Families

/-!
# Normalised rows

What normalising guarantees of a row and of an authoritative binding. The key of a row determines its
connector, its reference and its pollutant, since a pollutant code has no colon.
-/

namespace UkAqOps.ContinuityFamilies

open PruneAudit (DayUtc)

/-! ## Values -/

theorem truthyId_pos {raw : Option ℚ} {id : ℤ} (h : truthyId raw = some id) : 0 < id := by
  obtain ⟨hid, hne⟩ := Option.filter_eq_some_iff.mp h
  obtain ⟨value, -, hvalue⟩ := Option.bind_eq_some_iff.mp hid
  split at hvalue
  · cases hvalue
  · rename_i hpos
    have hfloor : 0 ≤ ⌊value⌋ := Int.floor_nonneg.mpr (not_le.mp hpos).le
    rw [← Option.some.inj hvalue] at hne ⊢
    exact lt_of_le_of_ne hfloor (Ne.symm (of_decide_eq_true hne))

/-- An identifier is read back. -/
theorem truthyId_intCast {id : ℤ} (h : 0 < id) : truthyId (some (id : ℚ)) = some id := by
  have hpos : ¬(id : ℚ) ≤ 0 := not_le.mpr (Int.cast_pos.mpr h)
  rw [truthyId, parsePositiveId, Option.bind_some, if_neg hpos, Int.floor_intCast,
    Option.filter_some, if_pos (decide_eq_true (by omega))]

theorem normalizeObservationPropertyCode_eq_some {host : WebHost} {raw code : String}
    (h : normalizeObservationPropertyCode host raw = some code) : isPropertyCode code = true := by
  rw [normalizeObservationPropertyCode] at h
  split at h
  · rename_i hcode
    rw [← Option.some.inj h]
    exact hcode
  · cases h

/-- The characters of a pollutant code. -/
theorem of_mem_propertyCode {code : String} (h : isPropertyCode code = true) {c : Char}
    (hc : c ∈ code.toList) : (('a' ≤ c ∧ c ≤ 'z') ∨ c.isDigit = true) ∨ c = '_' := by
  rw [isPropertyCode, Bool.and_eq_true, List.all_eq_true] at h
  simpa using h.2 c hc

theorem colon_notMem_propertyCode {code : String} (h : isPropertyCode code = true) :
    ':' ∉ code.toList := by
  intro hmem
  rcases of_mem_propertyCode h hmem with (hrange | hdigit) | heq
  · exact absurd hrange.1 (by decide)
  · exact absurd hdigit (by decide)
  · exact absurd heq (by decide)

theorem trimText_propertyCode {code : String} (h : isPropertyCode code = true) :
    trimText code = code := by
  refine trimText_of_forall fun c hc ↦ ?_
  rw [isJsWhitespace, decide_eq_false_iff_not]
  intro hmem
  have hspaces : ∀ v ∈ ([0x9, 0xA, 0xB, 0xC, 0xD, 0x20, 0xA0, 0x1680, 0x2000, 0x2001, 0x2002, 0x2003,
      0x2004, 0x2005, 0x2006, 0x2007, 0x2008, 0x2009, 0x200A, 0x2028, 0x2029, 0x202F, 0x205F, 0x3000,
      0xFEFF] : List UInt32), ¬(('a'.val ≤ v ∧ v ≤ 'z'.val) ∨ v = '_'.val) :=
    List.all_iff_forall_prop.mp (by decide)
  rcases of_mem_propertyCode h hc with (hrange | hdigit) | heq
  · exact hspaces _ hmem (Or.inl hrange)
  · exact absurd (isJsWhitespace_of_isDigit hdigit) (by
      rw [isJsWhitespace, decide_eq_false_iff_not, not_not]
      exact hmem)
  · exact hspaces _ hmem (Or.inr (by rw [heq]))

theorem stableRef_eq_some {raw value : String} (h : stableRef raw = some value) :
    trimText value = value ∧ value ≠ "" := by
  rw [stableRef] at h
  split at h
  · cases h
  · rename_i hne
    rw [← Option.some.inj h]
    exact ⟨trimText_trimText raw, hne⟩

/-- What a stable reference gives is given again. -/
theorem stableRef_of_trimText {value : String} (h : trimText value = value) (hne : value ≠ "") :
    stableRef value = some value := by
  rw [stableRef, h, if_neg hne]

theorem upperRef_eq_some {host : WebHost} {raw value : String} (h : upperRef host raw = some value) :
    value ≠ "" ∧ ∃ text, trimText text = text ∧ value = host.toUpperCase text := by
  obtain ⟨hvalue, hne⟩ := Option.filter_eq_some_iff.mp h
  obtain ⟨text, htext, rfl⟩ := Option.map_eq_some_iff.mp hvalue
  exact ⟨of_decide_eq_true hne, text, (stableRef_eq_some htext).1, rfl⟩

/-! ## Keys -/

/-- A text up to a colon and a text after it. -/
theorem colon_inj {a b s t : List Char} (ha : ':' ∉ a) (hb : ':' ∉ b)
    (h : a ++ ':' :: s = b ++ ':' :: t) : a = b ∧ s = t := by
  have htake : ∀ {l r : List Char}, ':' ∉ l → (l ++ ':' :: r).takeWhile (· ≠ ':') = l := by
    intro l r hl
    rw [List.takeWhile_append_of_pos, List.takeWhile_cons_of_neg (by simp), List.append_nil]
    exact fun c hc ↦ decide_eq_true fun heq ↦ hl (heq ▸ hc)
  obtain rfl : a = b := by rw [← htake ha, h, htake hb]
  exact ⟨rfl, (List.cons.inj (List.append_cancel_left h)).2⟩

theorem colon_notMem_toString (id : ℤ) : ':' ∉ (toString id).toList := by
  have hnat : ∀ n : ℕ, ':' ∉ n.repr.toList := by
    intro n hmem
    rw [Nat.toList_repr] at hmem
    exact absurd (Nat.isDigit_of_mem_toDigits (by decide) (by decide) hmem) (by decide)
  rcases id with n | n
  · exact hnat n
  · intro hmem
    have hchars : toString (Int.negSucc n) = "-" ++ (n.succ).repr := rfl
    rw [hchars, String.toList_append, List.mem_append] at hmem
    exact hmem.elim (by decide) (hnat _)

/-- **The key of a family determines what it is a key of.** -/
theorem continuityKey_inj {connectorId otherId : ℤ} {ukAirRef otherRef code otherCode : String}
    (hcode : isPropertyCode code = true) (hother : isPropertyCode otherCode = true)
    (h : s!"{connectorId}:{ukAirRef}:{code}" = s!"{otherId}:{otherRef}:{otherCode}") :
    connectorId = otherId ∧ ukAirRef = otherRef ∧ code = otherCode := by
  have hchars : ∀ (id : ℤ) (ref code : String), (s!"{id}:{ref}:{code}").toList =
      (toString id).toList ++ ':' :: (ref.toList ++ ':' :: code.toList) := by
    intro id ref code
    simp [toString]
  have hlists := congrArg String.toList h
  rw [hchars, hchars] at hlists
  obtain ⟨hid, hrest⟩ := colon_inj (colon_notMem_toString _) (colon_notMem_toString _) hlists
  have hreverse := congrArg List.reverse hrest
  simp only [List.reverse_append, List.reverse_cons, List.append_assoc, List.singleton_append]
    at hreverse
  obtain ⟨hcodes, hrefs⟩ := colon_inj
    (fun hmem ↦ colon_notMem_propertyCode hcode (List.mem_reverse.mp hmem))
    (fun hmem ↦ colon_notMem_propertyCode hother (List.mem_reverse.mp hmem)) hreverse
  refine ⟨?_, String.toList_inj.mp (List.reverse_injective hrefs),
    String.toList_inj.mp (List.reverse_injective hcodes)⟩
  exact Int.repr_injective (String.toList_inj.mp hid)

/-! ## Rows -/

/-- What normalising guarantees of a row. -/
structure ContinuityRow.Normal (host : WebHost) (row : ContinuityRow) : Prop where
  connectorId : 0 < row.connectorId
  stationId : 0 < row.stationId
  timeseriesId : 0 < row.timeseriesId
  pollutantCode : isPropertyCode row.pollutantCode = true
  continuityKey : row.continuityKey = s!"{row.connectorId}:{row.ukAirRef}:{row.pollutantCode}"
  trimmedKey : trimText row.continuityKey = row.continuityKey
  ukAirRef : ∃ text, trimText text = text ∧ row.ukAirRef = host.toUpperCase text
  siteRef : row.siteRef ≠ "" ∧ ∃ text, trimText text = text ∧ row.siteRef = host.toUpperCase text
  stationRef : ∀ ref ∈ row.stationRef, trimText ref = ref ∧ ref ≠ ""
  timeseriesRef : ∀ ref ∈ row.timeseriesRef, trimText ref = ref ∧ ref ≠ ""

theorem normal_of_normalizeContinuityRow {host : WebHost} {raw : Option RawContinuityRow}
    {row : ContinuityRow} (h : normalizeContinuityRow host raw = some row) : row.Normal host := by
  rw [normalizeContinuityRow] at h
  obtain ⟨raw, -, h⟩ := Option.bind_eq_some_iff.mp h
  obtain ⟨connectorId, hconnector, h⟩ := Option.bind_eq_some_iff.mp h
  obtain ⟨stationId, hstation, h⟩ := Option.bind_eq_some_iff.mp h
  obtain ⟨timeseriesId, htimeseries, h⟩ := Option.bind_eq_some_iff.mp h
  obtain ⟨pollutantCode, hpollutant, h⟩ := Option.bind_eq_some_iff.mp h
  obtain ⟨ukAirRef, huk, h⟩ := Option.bind_eq_some_iff.mp h
  obtain ⟨siteRef, hsite, h⟩ := Option.bind_eq_some_iff.mp h
  obtain ⟨validFromDayUtc, -, h⟩ := Option.bind_eq_some_iff.mp h
  dsimp only at h
  split at h
  · split at h
    · cases h
    · rename_i hkey
      have hkey := stableRef_eq_some (not_not.mp hkey)
      rw [← Option.some.inj h]
      exact ⟨truthyId_pos hconnector, truthyId_pos hstation, truthyId_pos htimeseries,
        normalizeObservationPropertyCode_eq_some hpollutant, rfl, hkey.1,
        (upperRef_eq_some huk).2, upperRef_eq_some hsite,
        fun ref href ↦ stableRef_eq_some href, fun ref href ↦ stableRef_eq_some href⟩
  · cases h

/-- Rows of one family have one connector, one reference and one pollutant. -/
theorem ContinuityRow.Normal.eq_of_key {host : WebHost} {row other : ContinuityRow}
    (hrow : row.Normal host) (hother : other.Normal host)
    (h : row.continuityKey = other.continuityKey) : row.connectorId = other.connectorId ∧
      row.ukAirRef = other.ukAirRef ∧ row.pollutantCode = other.pollutantCode :=
  continuityKey_inj hrow.pollutantCode hother.pollutantCode
    (hrow.continuityKey.symm.trans (h.trans hother.continuityKey))

/-! ## Authoritative bindings -/

theorem normal_of_normalizeBinding {host : WebHost} {raw : Option RawAuthoritativeBinding}
    {binding : AuthoritativeBinding}
    (h : normalizeAuthoritativeTimeseriesBinding host raw = some binding) : binding.Normal := by
  rw [normalizeAuthoritativeTimeseriesBinding] at h
  obtain ⟨raw, -, h⟩ := Option.bind_eq_some_iff.mp h
  obtain ⟨timeseriesId, htimeseries, h⟩ := Option.bind_eq_some_iff.mp h
  obtain ⟨connectorId, hconnector, h⟩ := Option.bind_eq_some_iff.mp h
  obtain ⟨pollutantCode, hpollutant, h⟩ := Option.bind_eq_some_iff.mp h
  rw [← Option.some.inj h]
  exact ⟨truthyId_pos htimeseries, truthyId_pos hconnector,
    normalizeObservationPropertyCode_eq_some hpollutant, fun id hid ↦ truthyId_pos hid,
    fun id hid ↦ truthyId_pos hid, fun id hid ↦ truthyId_pos hid⟩

end UkAqOps.ContinuityFamilies

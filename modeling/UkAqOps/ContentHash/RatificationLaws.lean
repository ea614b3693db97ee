import UkAqOps.ContentHash.Ratification

/-!
# What preserving a ratification changes

The text of an identity stands for six columns: two rows have one text exactly if they agree in
these. So a row is ratified exactly if a persisted row with its identity is, and nothing else of it
changes. Where the row has its status under `verification_status`, the result is a row of the same
shape; where it has it under `status`, the result has both columns, and whoever reads it next
refuses it.
-/

namespace UkAqOps

/-- The text of a value that reads back determines the value. -/
theorem JsValue.eq_of_stringify_eq {double : String → String} {v w : JsValue}
    (hv : v.Readable double) (hw : w.Readable double) (h : v.stringify = w.stringify) : v = w := by
  have hparse : ∀ {v : JsValue}, v.Readable double →
      JsonText.parse double v.stringify = some v := by
    intro v hv
    have hread := @JsonText.parse_of_readable double 0 v hv [] (by simp)
    rw [List.append_nil] at hread
    exact hread
  exact Option.some.inj ((hparse hv).symm.trans ((congrArg _ h).trans (hparse hw)))

namespace ContentHash

/-! ## Identities -/

/-- What identifies a row besides its connector. The two ids are as JSON shows them. -/
@[ext] structure Identity where
  stationId : JsValue
  timeseriesId : JsValue
  pollutantCode : String
  instant : TimeValue
  value : {value : Binary64 // isCanonicalValue value = true}

section Laws

variable (host : RowHost)

/-- The identity of a row, if its date is valid and its value is finite. -/
def identityOf (row : RowObject) : Option Identity := do
  let instant ← host.timeValue (orElse (row.read "observed_at_utc") (row.read "observed_at"))
  if h : (host.number (row.read "value")).isFinite = true then
    some {
      stationId := (orNull (row.read "station_id")).jsonForm
      timeseriesId := (row.read "timeseries_id").jsonForm
      pollutantCode := host.toLowerCase (row.read "pollutant_code").orBlank
      instant
      value := ⟨withoutNegativeZero (host.number (row.read "value")),
        isCanonicalValue_withoutNegativeZero h⟩ }
  else none

/-- The hexadecimal digits of a finite value. -/
def hexOf (value : {value : Binary64 // isCanonicalValue value = true}) : String :=
  String.ofList (value.val.bytes.flatMap byteHex)

theorem hexOf_injective : Function.Injective hexOf := by
  intro a b h
  have hbytes := flatMap_byteHex_injective (fun _ ↦ Binary64.lt_of_mem_bytesBigEndian)
    (fun _ ↦ Binary64.lt_of_mem_bytesBigEndian) (String.ofList_injective h)
  exact Subtype.ext (Binary64.bytes_injective hbytes)

/-- The array whose text identifies a row. -/
def Identity.array (connectorId : ℤ) (identity : Identity) : JsValue :=
  .arr [.int connectorId, identity.stationId, identity.timeseriesId, .str identity.pollutantCode,
    .str (toISOString identity.instant), .str (hexOf identity.value)]

/-- The text of a row's identity is that of its array. -/
theorem rowIdentity_eq {connectorId : ℤ} {row : RowObject} {identity : Identity}
    (h : identityOf host row = some identity) :
    rowIdentity host connectorId row = .ok (identity.array connectorId).stringify := by
  obtain ⟨instant, hinstant, hrest⟩ := Option.bind_eq_some_iff.mp h
  split at hrest
  · rename_i hfinite
    have hvalue : float64BigEndianHex (host.number (row.read "value")) =
        .ok (hexOf ⟨_, isCanonicalValue_withoutNegativeZero hfinite⟩) := if_pos hfinite
    rw [← Option.some.inj hrest, rowIdentity, hinstant, hvalue]
    simp only [Identity.array, JsValue.stringify, JsValue.chars, JsValue.itemChars,
      JsValue.chars_jsonForm]
    rfl
  · cases hrest

/-! ## Rows -/

/-- A value that is no array and no other object. -/
def IsScalar : JsValue → Prop
  | .arr _ => False
  | .obj _ => False
  | _ => True

theorem readable_jsonForm_of_isScalar {double : String → String} {v : JsValue}
    (hscalar : IsScalar v) (h : v.IsValue double) : v.jsonForm.Readable double := by
  have hsame : v.canonicalize = v := by
    rcases v with _ | _ | _ | _ | _ | _ | _
    all_goals first
      | rfl
      | exact False.elim hscalar
  rw [← hsame]
  exact JsValue.readable_jsonForm v h

/-- A row with a status in either of the columns, scalar ids, a valid date and a finite value. -/
structure IsRow (double : String → String) (row : RowObject) : Prop where
  status : ∃ status, resolveLegacyVerificationStatus host row true = .ok status
  ids : ∀ column ∈ ["station_id", "timeseries_id"],
    IsScalar (row.read column) ∧ (row.read column).IsValue double
  identity : ∃ identity, identityOf host row = some identity

variable {host}

theorem read_ratify (row : RowObject) (column : String) :
    (ratify row).read column =
      if column = "verification_status" then .str "R" else row.read column := by
  rw [RowObject.read, ratify, OrderedMap.get?_set]
  split <;> rfl

theorem readable_array {double : String → String} {row : RowObject} (hrow : IsRow host double row)
    {identity : Identity} (h : identityOf host row = some identity) :
    (identity.array 1).Readable double := by
  obtain ⟨hstation, hvalue⟩ := hrow.ids "station_id" (by decide)
  obtain ⟨hseries, hvalue'⟩ := hrow.ids "timeseries_id" (by decide)
  have hstationId : (orNull (row.read "station_id")).jsonForm.Readable double := by
    refine readable_jsonForm_of_isScalar ?_ ?_
    · rcases hread : row.read "station_id" <;> rw [hread] at hstation <;> exact hstation
    · rcases hread : row.read "station_id" <;> rw [hread] at hvalue <;> exact hvalue
  obtain ⟨instant, -, hrest⟩ := Option.bind_eq_some_iff.mp h
  split at hrest
  · rw [← Option.some.inj hrest]
    exact ⟨(JsonText.readable_of_plain double (.int 1) ⟨1, rfl, by decide⟩), hstationId,
      readable_jsonForm_of_isScalar hseries hvalue', trivial, trivial, trivial, trivial⟩
  · cases hrest

/-- **Two rows have one text exactly if they have one identity.** -/
theorem rowIdentity_eq_iff {double : String → String} {row row' : RowObject}
    (hrow : IsRow host double row) (hrow' : IsRow host double row') :
    rowIdentity host 1 row = rowIdentity host 1 row' ↔ identityOf host row = identityOf host row' := by
  obtain ⟨identity, hidentity⟩ := hrow.identity
  obtain ⟨identity', hidentity'⟩ := hrow'.identity
  rw [rowIdentity_eq host hidentity, rowIdentity_eq host hidentity', hidentity, hidentity',
    Except.ok.injEq, Option.some.injEq]
  refine ⟨fun h ↦ ?_, fun h ↦ by rw [h]⟩
  have harray := JsValue.eq_of_stringify_eq (readable_array hrow hidentity)
    (readable_array hrow' hidentity') h
  simp only [Identity.array, JsValue.arr.injEq, List.cons.injEq, JsValue.str.injEq, and_true,
    true_and] at harray
  obtain ⟨hstation, hseries, hcode, hinstant, hvalue⟩ := harray
  exact Identity.ext hstation hseries hcode
    (Subtype.ext (toISOString_injOn identity.instant.property identity'.instant.property hinstant))
    (hexOf_injective hvalue)

/-! ## The status -/

theorem isRatified_eq (hhost : host.Lawful) {row : RowObject} {status : Option VerificationStatus}
    (h : resolveLegacyVerificationStatus host row true = .ok status) :
    isRatified host row = .ok (decide (status = some .R)) := by
  have hblank : host.toLowerCase "" = "" := hhost "" (by simp)
  have hP : host.toLowerCase "P" = "p" := hhost "P" (List.all_iff_forall_prop.mp (by decide))
  have hR : host.toLowerCase "R" = "r" := hhost "R" (List.all_iff_forall_prop.mp (by decide))
  have htrim : trimText "" = "" ∧ trimText "P" = "P" ∧ trimText "R" = "R" := by decide
  rw [isRatified, h, Except.ok_bind]
  rcases status with _ | (_ | _)
  · simp only [Option.elim, normalizeUkAirVerificationStatus, JsValue.textOrEmpty, htrim.1, hblank]
    rfl
  · simp only [Option.elim, normalizeUkAirVerificationStatus, VerificationStatus.text,
      JsValue.textOrEmpty, JsValue.text, htrim.2.1, hP]
    rfl
  · simp only [Option.elim, normalizeUkAirVerificationStatus, VerificationStatus.text,
      JsValue.textOrEmpty, JsValue.text, htrim.2.2, hR]
    rfl

/-- A persisted row has the identity of the row and is ratified. -/
def PersistedRatified (host : RowHost) (existingRows : List RowObject) (row : RowObject) : Prop :=
  ∃ existing ∈ existingRows, identityOf host existing = identityOf host row ∧
    resolveLegacyVerificationStatus host existing true = .ok (some .R)

/-- The texts that are looked up are those of the ratified persisted rows. -/
theorem exists_persistedRatified (hhost : host.Lawful) {double : String → String}
    {existingRows : List RowObject} (hrows : ∀ row ∈ existingRows, IsRow host double row) :
    ∃ persisted, persistedRatified host 1 existingRows = .ok persisted ∧
      ∀ text, text ∈ persisted ↔ ∃ row ∈ existingRows,
        resolveLegacyVerificationStatus host row true = .ok (some .R) ∧
          rowIdentity host 1 row = .ok text := by
  have hmark : ∀ row ∈ existingRows, ∃ marked,
      (row, ·) <$> isRatified host row = .ok marked := by
    intro row hrow
    obtain ⟨status, hstatus⟩ := (hrows row hrow).status
    exact ⟨_, by rw [isRatified_eq hhost hstatus]; rfl⟩
  obtain ⟨marked, hmarked⟩ := (Except.exists_mapM_eq_ok_iff _ _).mpr hmark
  have hmem : ∀ row, row ∈ (marked.filter (·.2)).map (·.1) ↔ row ∈ existingRows ∧
      resolveLegacyVerificationStatus host row true = .ok (some .R) := by
    intro row
    have hpair : row ∈ (marked.filter (·.2)).map (·.1) ↔ (row, true) ∈ marked := by simp
    rw [hpair, Except.mem_iff_of_mapM hmarked]
    constructor
    · rintro ⟨existing, hexisting, hmap⟩
      obtain ⟨b, hb, heq⟩ := Except.map_eq_ok_iff.mp hmap
      obtain ⟨rfl, rfl⟩ := Prod.mk.inj heq
      obtain ⟨status, hstatus⟩ := (hrows existing hexisting).status
      rw [isRatified_eq hhost hstatus, Except.ok.injEq, decide_eq_true_iff] at hb
      exact ⟨hexisting, hb ▸ hstatus⟩
    · rintro ⟨hrow, hstatus⟩
      exact ⟨row, hrow, by rw [isRatified_eq hhost hstatus]; rfl⟩
  have hidentity : ∀ row ∈ (marked.filter (·.2)).map (·.1), ∃ text,
      rowIdentity host 1 row = .ok text := by
    intro row hrow
    obtain ⟨identity, hidentity⟩ := (hrows row ((hmem row).mp hrow).1).identity
    exact ⟨_, rowIdentity_eq host hidentity⟩
  obtain ⟨persisted, hpersisted⟩ := (Except.exists_mapM_eq_ok_iff _ _).mpr hidentity
  refine ⟨persisted, ?_, fun text ↦ ?_⟩
  · rw [persistedRatified, hmarked, Except.ok_bind]
    exact hpersisted
  · rw [Except.mem_iff_of_mapM hpersisted]
    simp only [hmem, and_assoc]

/-! ## Preserving -/

/-- What becomes of a row. -/
noncomputable def preserved (host : RowHost) (existingRows : List RowObject) (row : RowObject) :
    RowObject :=
  open Classical in
  if PersistedRatified host existingRows row ∧
      resolveLegacyVerificationStatus host row true ≠ .ok (some .R) then ratify row
  else row

theorem preservePersistedRatifiedStatus_eq (hhost : host.Lawful) {double : String → String}
    {replacementRows existingRows : List RowObject}
    (hreplacement : ∀ row ∈ replacementRows, IsRow host double row)
    (hexisting : ∀ row ∈ existingRows, IsRow host double row) :
    preservePersistedRatifiedStatus host replacementRows existingRows =
      .ok (replacementRows.map (preserved host existingRows)) := by
  obtain ⟨persisted, hpersisted, hmem⟩ := exists_persistedRatified hhost hexisting
  have hrow : ∀ row ∈ replacementRows, preserveRow host 1 persisted row =
      .ok (preserved host existingRows row) := by
    intro row hrow
    obtain ⟨identity, hidentity⟩ := (hreplacement row hrow).identity
    obtain ⟨status, hstatus⟩ := (hreplacement row hrow).status
    have htext := @rowIdentity_eq host 1 _ _ hidentity
    have hlookup : (identity.array 1).stringify ∈ persisted ↔
        PersistedRatified host existingRows row := by
      rw [hmem]
      refine exists_congr fun existing ↦ and_congr_right fun hin ↦ ?_
      rw [← htext, rowIdentity_eq_iff (hexisting existing hin) (hreplacement row hrow), and_comm]
    rw [preserveRow, htext, Except.ok_bind, preserved, hstatus, isRatified_eq hhost hstatus]
    by_cases hpersisted : PersistedRatified host existingRows row
    · rw [if_neg (not_not.mpr (hlookup.mpr hpersisted)), Except.ok_bind]
      by_cases hR : status = some .R
      · simp only [hR, ne_eq, not_true_eq_false, and_false, if_false]
        rfl
      · simp only [hR, hpersisted, ne_eq, Except.ok.injEq, not_false_eq_true, and_self, if_true]
        rfl
    · rw [if_pos (mt hlookup.mp hpersisted), if_neg fun h ↦ hpersisted h.1]
      rfl
  rw [preservePersistedRatifiedStatus, if_neg (not_not.mpr rfl), hpersisted, Except.ok_bind,
    Except.mapM_eq_ok_iff, List.forall₂_map_right_iff, List.forall₂_same]
  exact hrow

/-! ## The row that was ratified -/

/-- A status column alone is what a reader of the status takes. -/
theorem select_ratify {row : RowObject} (h : "status" ∉ row.keys) :
    selectObservationVerificationStatusColumn (ratify row).keys =
      .ok (some "verification_status") := by
  have hnew : "verification_status" ∈ (ratify row).keys :=
    OrderedMap.mem_keys_set.mpr (Or.inl rfl)
  have hold : "status" ∉ (ratify row).keys := fun hmem ↦
    (OrderedMap.mem_keys_set.mp hmem).elim (by decide) h
  simp only [selectObservationVerificationStatusColumn, List.filter_cons, hnew, hold,
    decide_true, decide_false, if_true, Bool.false_eq_true, if_false, List.filter_nil]
  rfl

/-- With the legacy column there, nobody takes the status any more. -/
theorem select_ratify_of_mem {row : RowObject} (h : "status" ∈ row.keys) :
    selectObservationVerificationStatusColumn (ratify row).keys =
      .error "Competing observation status fields: verification_status,status" := by
  have hnew : "verification_status" ∈ (ratify row).keys :=
    OrderedMap.mem_keys_set.mpr (Or.inl rfl)
  have hold : "status" ∈ (ratify row).keys := OrderedMap.mem_keys_set.mpr (Or.inr h)
  simp only [selectObservationVerificationStatusColumn, List.filter_cons, hnew, hold,
    decide_true, if_true, List.filter_nil]
  decide

theorem status_ratify {row : RowObject} (h : "status" ∉ row.keys) :
    resolveLegacyVerificationStatus host (ratify row) true = .ok (some .R) := by
  rw [resolveLegacyVerificationStatus, select_ratify h, Except.ok_bind, if_pos rfl, read_ratify,
    if_pos rfl]
  rfl

theorem identityOf_ratify (row : RowObject) : identityOf host (ratify row) = identityOf host row := by
  simp only [identityOf, read_ratify, String.reduceEq, if_false]

theorem isRow_ratify {double : String → String} {row : RowObject} (hrow : IsRow host double row)
    (h : "status" ∉ row.keys) : IsRow host double (ratify row) where
  status := ⟨_, status_ratify h⟩
  ids := by
    intro column hcolumn
    rw [read_ratify, if_neg fun heq ↦ absurd (heq ▸ hcolumn) (by decide)]
    exact hrow.ids column hcolumn
  identity := by
    rw [identityOf_ratify]
    exact hrow.identity

/-- A row that can be read has its status in one column. -/
theorem IsRow.select {double : String → String} {row : RowObject} (hrow : IsRow host double row) :
    ∃ column, selectObservationVerificationStatusColumn row.keys = .ok column := by
  obtain ⟨status, hstatus⟩ := hrow.status
  obtain ⟨column, hcolumn, -⟩ := Except.bind_eq_ok_iff.mp hstatus
  exact ⟨column, hcolumn⟩

/-! ## The laws -/

/-- A status is not lowered: it stays, or it becomes ratified. -/
def StatusLe (host : RowHost) (row row' : RowObject) : Prop :=
  ∃ status status', resolveLegacyVerificationStatus host row true = .ok status ∧
    resolveLegacyVerificationStatus host row' true = .ok status' ∧
      (status' = status ∨ status' = some .R)

/-- A row differs at most in its status, which is raised exactly if it is persisted as ratified. -/
structure OnlyRaised (host : RowHost) (existingRows : List RowObject) (row row' : RowObject) :
    Prop where
  raised : PersistedRatified host existingRows row →
    resolveLegacyVerificationStatus host row' true = .ok (some .R)
  unchanged : (PersistedRatified host existingRows row →
    resolveLegacyVerificationStatus host row true = .ok (some .R)) → row' = row
  others : ∀ column, column ≠ "verification_status" → column ≠ "status" →
    row'.get? column = row.get? column

/-- The rows that come out: raised where they are persisted as ratified and nowhere else, with no
status lowered, no less raised with more rows persisted, the same when it is done again, and each
with its status in one column. -/
def KeepsRatification (host : RowHost) (replacementRows existingRows : List RowObject) : Prop :=
  ∃ rows, preservePersistedRatifiedStatus host replacementRows existingRows = .ok rows ∧
    List.Forall₂ (OnlyRaised host existingRows) replacementRows rows ∧
    List.Forall₂ (StatusLe host) replacementRows rows ∧
    (∀ fewer ⊆ existingRows, ∃ rows',
      preservePersistedRatifiedStatus host replacementRows fewer = .ok rows' ∧
        List.Forall₂ (StatusLe host) rows' rows) ∧
    preservePersistedRatifiedStatus host rows existingRows = .ok rows ∧
    ∀ row ∈ rows, ∃ column, selectObservationVerificationStatusColumn row.keys = .ok column

theorem preserved_cases (existingRows : List RowObject) (row : RowObject) :
    (preserved host existingRows row = ratify row ∧ PersistedRatified host existingRows row ∧
        resolveLegacyVerificationStatus host row true ≠ .ok (some .R)) ∨
      (preserved host existingRows row = row ∧ (PersistedRatified host existingRows row →
        resolveLegacyVerificationStatus host row true = .ok (some .R))) := by
  rw [preserved]
  split
  · rename_i h
    exact Or.inl ⟨rfl, h⟩
  · rename_i h
    exact Or.inr ⟨rfl, fun hpersisted ↦ by_contra fun hR ↦ h ⟨hpersisted, hR⟩⟩

/-- No row that is raised has its status in the legacy column. -/
def RaisesCanonicalRows (host : RowHost) (replacementRows existingRows : List RowObject) : Prop :=
  ∀ row ∈ replacementRows, PersistedRatified host existingRows row →
    resolveLegacyVerificationStatus host row true ≠ .ok (some .R) → "status" ∉ row.keys

section Good

variable {double : String → String} {existingRows : List RowObject} {row : RowObject}

theorem isRow_preserved (hrow : IsRow host double row)
    (hgood : RaisesCanonicalRows host [row] existingRows) :
    IsRow host double (preserved host existingRows row) := by
  rcases preserved_cases existingRows row with ⟨heq, hpersisted, hR⟩ | ⟨heq, -⟩
  · rw [heq]
    exact isRow_ratify hrow (hgood row List.mem_cons_self hpersisted hR)
  · rw [heq]
    exact hrow

theorem onlyRaised_preserved (hgood : RaisesCanonicalRows host [row] existingRows) :
    OnlyRaised host existingRows row (preserved host existingRows row) := by
  rcases preserved_cases existingRows row with ⟨heq, hpersisted, hR⟩ | ⟨heq, hsame⟩
  · rw [heq]
    refine ⟨fun _ ↦ status_ratify (hgood row List.mem_cons_self hpersisted hR),
      fun h ↦ absurd (h hpersisted) hR, fun column hne _ ↦ ?_⟩
    exact OrderedMap.get?_set_of_ne row _ hne
  · rw [heq]
    exact ⟨hsame, fun _ ↦ rfl, fun _ _ _ ↦ rfl⟩

theorem statusLe_preserved (hrow : IsRow host double row)
    (hgood : RaisesCanonicalRows host [row] existingRows) :
    StatusLe host row (preserved host existingRows row) := by
  obtain ⟨status, hstatus⟩ := hrow.status
  rcases preserved_cases existingRows row with ⟨heq, hpersisted, hR⟩ | ⟨heq, -⟩
  · rw [heq]
    exact ⟨status, some .R, hstatus,
      status_ratify (hgood row List.mem_cons_self hpersisted hR), Or.inr rfl⟩
  · rw [heq]
    exact ⟨status, status, hstatus, hstatus, Or.inl rfl⟩

/-- What fewer persisted rows raise, more of them raise as well. -/
theorem statusLe_preserved_of_subset (hrow : IsRow host double row) {fewer : List RowObject}
    (hfewer : fewer ⊆ existingRows) (hgood : RaisesCanonicalRows host [row] existingRows) :
    StatusLe host (preserved host fewer row) (preserved host existingRows row) := by
  have hmono : PersistedRatified host fewer row → PersistedRatified host existingRows row := by
    rintro ⟨existing, hin, h⟩
    exact ⟨existing, hfewer hin, h⟩
  rcases preserved_cases fewer row with ⟨heq, hpersisted, hR⟩ | ⟨heq, -⟩
  · have hkey := hgood row List.mem_cons_self (hmono hpersisted) hR
    have hraised := (onlyRaised_preserved hgood).raised (hmono hpersisted)
    rw [heq]
    exact ⟨some .R, some .R, status_ratify hkey, hraised, Or.inr rfl⟩
  · rw [heq]
    exact statusLe_preserved hrow hgood

/-- A second time, nothing is left to raise. -/
theorem preserved_preserved (hgood : RaisesCanonicalRows host [row] existingRows) :
    preserved host existingRows (preserved host existingRows row) =
      preserved host existingRows row := by
  rcases preserved_cases existingRows row with ⟨heq, hpersisted, hR⟩ | ⟨heq, -⟩
  · rw [heq, preserved, if_neg fun h ↦
      h.2 (status_ratify (hgood row List.mem_cons_self hpersisted hR))]
  · rw [heq, heq]

end Good

/-- A row that is raised over its legacy column is one that nobody reads again. -/
theorem raisesCanonicalRows_of_keepsRatification (hhost : host.Lawful) {double : String → String}
    {replacementRows existingRows : List RowObject}
    (hreplacement : ∀ row ∈ replacementRows, IsRow host double row)
    (hexisting : ∀ row ∈ existingRows, IsRow host double row)
    (h : KeepsRatification host replacementRows existingRows) :
    RaisesCanonicalRows host replacementRows existingRows := by
  obtain ⟨rows, heq, -, -, -, -, hselect⟩ := h
  intro row hrow hpersisted hR hlegacy
  have hrows := preservePersistedRatifiedStatus_eq hhost hreplacement hexisting
  have hraised : preserved host existingRows row = ratify row := if_pos ⟨hpersisted, hR⟩
  have hmem : ratify row ∈ rows := by
    rw [← Except.ok.inj (hrows.symm.trans heq), ← hraised]
    exact List.mem_map_of_mem hrow
  obtain ⟨column, hcolumn⟩ := hselect _ hmem
  rw [select_ratify_of_mem hlegacy] at hcolumn
  cases hcolumn

/-- **The laws hold exactly if no row that is raised has the legacy status column.** -/
theorem keepsRatification_iff (hhost : host.Lawful) {double : String → String}
    {replacementRows existingRows : List RowObject}
    (hreplacement : ∀ row ∈ replacementRows, IsRow host double row)
    (hexisting : ∀ row ∈ existingRows, IsRow host double row) :
    KeepsRatification host replacementRows existingRows ↔
      RaisesCanonicalRows host replacementRows existingRows := by
  have hrows := preservePersistedRatifiedStatus_eq hhost hreplacement hexisting
  constructor
  · exact raisesCanonicalRows_of_keepsRatification hhost hreplacement hexisting
  · intro hgood
    have hone : ∀ row ∈ replacementRows, RaisesCanonicalRows host [row] existingRows := by
      intro row hrow row' hrow'
      rw [List.mem_singleton.mp hrow']
      exact hgood row hrow
    have hout : ∀ row ∈ replacementRows.map (preserved host existingRows),
        IsRow host double row := by
      intro row hrow
      obtain ⟨row', hrow', rfl⟩ := List.mem_map.mp hrow
      exact isRow_preserved (hreplacement row' hrow') (hone row' hrow')
    refine ⟨_, hrows, ?_, ?_, fun fewer hfewer ↦ ?_, ?_, fun row hrow ↦ (hout row hrow).select⟩
    · rw [List.forall₂_map_right_iff, List.forall₂_same]
      exact fun row hrow ↦ onlyRaised_preserved (hone row hrow)
    · rw [List.forall₂_map_right_iff, List.forall₂_same]
      exact fun row hrow ↦ statusLe_preserved (hreplacement row hrow) (hone row hrow)
    · refine ⟨_, preservePersistedRatifiedStatus_eq hhost hreplacement
        fun row hrow ↦ hexisting row (hfewer hrow), ?_⟩
      rw [List.forall₂_map_left_iff, List.forall₂_map_right_iff, List.forall₂_same]
      exact fun row hrow ↦
        statusLe_preserved_of_subset (hreplacement row hrow) hfewer (hone row hrow)
    · rw [preservePersistedRatifiedStatus_eq hhost hout hexisting, List.map_map]
      exact congrArg Except.ok (List.map_congr_left fun row hrow ↦
        preserved_preserved (hone row hrow))

end Laws

/-! ## One measurement in both shapes -/

/-- A host that knows one date and one value. -/
def sampleHost : RowHost where
  toLowerCase text := String.ofList (text.toList.map Char.toLower)
  timeValue
    | .str "2026-01-05T10:00:00.000Z" => some ⟨1767607200000, by decide, by decide⟩
    | _ => none
  number
    | .num "12.5" => ⟨0x4029000000000000⟩
    | _ => ⟨0x7ff8000000000000⟩

def sampleMeasurement : RowObject where
  entries := [("station_id", .int 7), ("timeseries_id", .int 31), ("pollutant_code", .str "no2"),
    ("observed_at_utc", .str "2026-01-05T10:00:00.000Z"), ("value", .num "12.5")]
  nodup_keys := by decide

/-- The measurement with its status in a column. -/
def sampleObject (column status : String) : RowObject := sampleMeasurement.set column (.str status)

theorem sampleHost_lawful : sampleHost.Lawful := fun _ _ ↦ rfl

theorem isRow_sampleObject {column status : String}
    (hcolumn : column = "verification_status" ∨ column = "status")
    (hstatus : status = "P" ∨ status = "R") : IsRow sampleHost id (sampleObject column status) := by
  have hread : ∀ c, c ≠ "verification_status" → c ≠ "status" →
      (sampleObject column status).read c = sampleMeasurement.read c := by
    intro c hc hc'
    rw [RowObject.read, sampleObject, OrderedMap.get?_set_of_ne]
    · rfl
    · rcases hcolumn with rfl | rfl
      · exact hc
      · exact hc'
  refine ⟨?_, fun c hc ↦ ?_, ?_⟩
  · rcases hcolumn with rfl | rfl <;> rcases hstatus with rfl | rfl
    all_goals exact ⟨_, rfl⟩
  · rcases List.mem_cons.mp hc with rfl | hc
    · rw [hread _ (by decide) (by decide)]
      exact ⟨trivial, JsValue.isValue_int id (by decide)⟩
    · rw [List.mem_singleton.mp hc, hread _ (by decide) (by decide)]
      exact ⟨trivial, JsValue.isValue_int id (by decide)⟩
  · rcases hcolumn with rfl | rfl <;> rcases hstatus with rfl | rfl
    all_goals exact Option.isSome_iff_exists.mp (by decide +kernel)

/-- A row of the new shape is raised and the rest of the laws hold. -/
theorem keepsRatification_sample :
    KeepsRatification sampleHost
      [sampleObject "verification_status" "P", sampleObject "status" "R"] [sampleObject "status" "R"] := by
  have hrow : ∀ column ∈ ["verification_status", "status"], ∀ status ∈ ["P", "R"],
      IsRow sampleHost id (sampleObject column status) := by
    intro column hcolumn status hstatus
    exact isRow_sampleObject (by simpa using hcolumn) (by simpa using hstatus)
  refine (@keepsRatification_iff _ sampleHost_lawful id _ _ ?_ ?_).mpr ?_
  · simp only [List.forall_mem_cons, List.not_mem_nil, false_implies, implies_true, and_true]
    exact ⟨hrow _ (by decide) _ (by decide), hrow _ (by decide) _ (by decide)⟩
  · simp only [List.forall_mem_cons, List.not_mem_nil, false_implies, implies_true, and_true]
    exact hrow _ (by decide) _ (by decide)
  · intro row hrow _ hR
    rcases List.mem_cons.mp hrow with rfl | hrow
    · decide
    · rw [List.mem_singleton.mp hrow] at hR
      exact absurd rfl hR

/-- **A row of the old shape gets a second status column**, and is refused when it is read. -/
theorem not_keepsRatification_of_legacy_column :
    ¬KeepsRatification sampleHost [sampleObject "status" "P"]
      [sampleObject "verification_status" "R"] := by
  intro h
  have hgood := raisesCanonicalRows_of_keepsRatification sampleHost_lawful
    (List.forall_mem_singleton.mpr (isRow_sampleObject (Or.inr rfl) (Or.inl rfl)))
    (List.forall_mem_singleton.mpr (isRow_sampleObject (Or.inl rfl) (Or.inr rfl))) h
  exact hgood _ List.mem_cons_self ⟨_, List.mem_cons_self, rfl, rfl⟩ (by decide +kernel)
    (by decide)

end ContentHash

end UkAqOps

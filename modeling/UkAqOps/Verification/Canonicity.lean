import UkAqOps.Verification.Manifest

/-!
# Manifests are canonical

A manifest that was built passes the validator after its text was read back, whatever provenance it
carries, and keeps its text. It does not depend on the order of its timeseries. Timeseries that
agree in everything but the way their periods are cut, and whose periods denote the same map, give
the same manifest.
-/

namespace UkAqOps.Verification

open Periods JsValue

variable {dateParse : DateParse} {numberOf : NumberOf}

/-! ## Provenance -/

mutual

/-- No field of the value, at any depth, is evidence of one acquisition. -/
def Stable : JsValue → Prop
  | .arr items => StableItems items
  | .obj fields => StableFields fields
  | _ => True

def StableItems : List JsValue → Prop
  | [] => True
  | v :: rest => Stable v ∧ StableItems rest

def StableFields : List (String × JsValue) → Prop
  | [] => True
  | (k, v) :: rest => k ∉ volatileAcquisitionFields ∧ Stable v ∧ StableFields rest

end

theorem stableFields_iff {fields : List (String × JsValue)} :
    StableFields fields ↔ ∀ p ∈ fields, p.1 ∉ volatileAcquisitionFields ∧ Stable p.2 := by
  induction fields with
  | nil => simp [StableFields]
  | cons p rest ih => rw [StableFields, List.forall_mem_cons, ih, and_assoc]

mutual

theorem rejectVolatileAcquisitionEvidence_eq_ok_iff : ∀ (v : JsValue) (path : String),
    rejectVolatileAcquisitionEvidence path v = .ok () ↔ Stable v
  | .undefined, _ => iff_of_true rfl trivial
  | .null, _ => iff_of_true rfl trivial
  | .bool _, _ => iff_of_true rfl trivial
  | .num _, _ => iff_of_true rfl trivial
  | .str _, _ => iff_of_true rfl trivial
  | .arr items, path => rejectVolatileItems_eq_ok_iff items path 0
  | .obj fields, path => rejectVolatileFields_eq_ok_iff fields path

theorem rejectVolatileItems_eq_ok_iff : ∀ (items : List JsValue) (path : String) (index : ℕ),
    rejectVolatileItems path index items = .ok () ↔ StableItems items
  | [], _, _ => iff_of_true rfl trivial
  | v :: rest, path, index => by
    rw [rejectVolatileItems, StableItems, Except.bind_eq_ok_iff]
    refine ⟨?_, fun ⟨hv, hrest⟩ ↦ ⟨(), ?_, ?_⟩⟩
    · rintro ⟨_, hv, hrest⟩
      exact ⟨(rejectVolatileAcquisitionEvidence_eq_ok_iff v _).mp hv,
        (rejectVolatileItems_eq_ok_iff rest path _).mp hrest⟩
    · exact (rejectVolatileAcquisitionEvidence_eq_ok_iff v _).mpr hv
    · exact (rejectVolatileItems_eq_ok_iff rest path _).mpr hrest

theorem rejectVolatileFields_eq_ok_iff : ∀ (fields : List (String × JsValue)) (path : String),
    rejectVolatileFields path fields = .ok () ↔ StableFields fields
  | [], _ => iff_of_true rfl trivial
  | (k, v) :: rest, path => by
    rw [rejectVolatileFields, StableFields]
    by_cases hk : k ∈ volatileAcquisitionFields
    · rw [if_pos hk]
      exact iff_of_false (fun h ↦ by cases h) fun h ↦ h.1 hk
    · rw [if_neg hk, Except.bind_eq_ok_iff]
      refine ⟨?_, fun ⟨_, hv, hrest⟩ ↦ ⟨(), ?_, ?_⟩⟩
      · rintro ⟨_, hv, hrest⟩
        exact ⟨hk, (rejectVolatileAcquisitionEvidence_eq_ok_iff v _).mp hv,
          (rejectVolatileFields_eq_ok_iff rest path).mp hrest⟩
      · exact (rejectVolatileAcquisitionEvidence_eq_ok_iff v _).mpr hv
      · exact (rejectVolatileFields_eq_ok_iff rest path).mpr hrest

end

mutual

theorem stable_reread : ∀ v : JsValue, Stable v → Stable v.reread
  | .undefined, _ => trivial
  | .null, _ => trivial
  | .bool _, _ => trivial
  | .num t, _ => by
    have hnum : (JsValue.num t).canonicalize = .num t := rfl
    rw [reread, hnum, jsonForm]
    split <;> trivial
  | .str _, _ => trivial
  | .arr items, h => by
    rw [reread_arr]
    exact stableItems_reread items h
  | .obj fields, h => by
    rw [reread_obj]
    refine stableFields_iff.mpr fun p hp ↦ ?_
    exact stableFields_iff.mp (stableFields_reread fields h) p (mem_canonicalOrder.mp hp)

theorem stableItems_reread : ∀ items : List JsValue, StableItems items →
    StableItems (items.map reread)
  | [], _ => trivial
  | v :: rest, h => ⟨stable_reread v h.1, stableItems_reread rest h.2⟩

theorem stableFields_reread : ∀ fields : List (String × JsValue), StableFields fields →
    StableFields ((present fields).map fun p ↦ (p.1, p.2.reread))
  | [], _ => trivial
  | (k, v) :: rest, h => by
    by_cases hv : v = undefined
    · rw [hv, present_cons_undefined]
      exact stableFields_reread rest h.2.2
    · rw [present_cons hv]
      exact ⟨h.1, stable_reread v h.2.1, stableFields_reread rest h.2.2⟩

end

/-- Provenance as a manifest carries it. -/
structure CanonicalProvenance (double : String → String) (provenance : JsValue) : Prop where
  isObject : provenance.isObject = true
  isValue : provenance.IsValue double
  canonical : provenance.canonicalize = provenance
  stable : Stable provenance

theorem canonicalProvenance_of_ok {double : String → String} {value provenance : JsValue}
    {label : String} (hvalue : value.IsValue double)
    (h : canonicalSemanticProvenance value label = .ok provenance) :
    CanonicalProvenance double provenance := by
  rcases value with _ | _ | _ | _ | _ | _ | fields
  case obj =>
    obtain ⟨_, hstable, h⟩ := Except.bind_eq_ok_iff.mp h
    cases h
    exact ⟨rfl, isValue_canonicalize _ hvalue, canonicalize_canonicalize _ hvalue,
      (rejectVolatileAcquisitionEvidence_eq_ok_iff _ _).mp hstable⟩
  all_goals cases h

/-- Canonical provenance is accepted as it is. -/
theorem canonicalSemanticProvenance_of_canonical {provenance : JsValue}
    (hobject : provenance.isObject = true) (hcanonical : provenance.canonicalize = provenance)
    (hstable : Stable provenance) (label : String) :
    canonicalSemanticProvenance provenance label = .ok provenance := by
  obtain ⟨fields, rfl⟩ := exists_obj_of_isObject hobject
  rw [canonicalSemanticProvenance, hcanonical,
    (rejectVolatileAcquisitionEvidence_eq_ok_iff _ _).mpr hstable]
  rfl

/-- Provenance that was read back is accepted in its JSON form. -/
theorem CanonicalProvenance.reread_eq_ok {double : String → String} {provenance : JsValue}
    (h : CanonicalProvenance double provenance) (label : String) :
    canonicalSemanticProvenance provenance.reread label = .ok provenance.jsonForm := by
  have hreread : provenance.reread = provenance.jsonForm := by rw [reread, h.canonical]
  have hcanonical : provenance.reread.canonicalize = provenance.reread := by
    rw [hreread, canonicalize_jsonForm, h.canonical]
  rw [← hreread]
  exact canonicalSemanticProvenance_of_canonical (isObject_reread h.isObject) hcanonical
    (stable_reread _ h.stable) label

/-! ## Entries -/

/-- `Number(n)` is `n`, for the ids of a manifest. -/
def ReadsIds (numberOf : NumberOf) : Prop :=
  ∀ n : ℤ, isPositiveSafeInteger n = true → numberOf (.int n) = some n

theorem natAbs_le_of_isPositiveSafeInteger {n : ℤ} (h : isPositiveSafeInteger n = true) :
    (n.natAbs : ℤ) ≤ maxSafeInteger := by
  simp only [isPositiveSafeInteger, Bool.and_eq_true, decide_eq_true_eq] at h
  omega

theorem positiveIntegerOf_eq_ok {value : JsValue} {label : String} {n : ℤ}
    (h : positiveIntegerOf numberOf value label = .ok n) : isPositiveSafeInteger n = true := by
  rw [positiveIntegerOf] at h
  split at h
  · cases h
  · obtain ⟨hpositive, rfl⟩ := positiveInteger_eq_ok_iff.mp h
    exact hpositive

theorem positiveIntegerOf_int (hids : ReadsIds numberOf) {n : ℤ}
    (h : isPositiveSafeInteger n = true) (label : String) :
    positiveIntegerOf numberOf (.int n) label = .ok n := by
  rw [positiveIntegerOf, hids n h]
  exact positiveInteger_eq_ok_iff.mpr ⟨h, rfl⟩

theorem nullablePositiveIntegerOf_idValue (hids : ReadsIds numberOf) {id : Option ℤ}
    (h : ∀ n ∈ id, isPositiveSafeInteger n = true) (label : String) :
    nullablePositiveIntegerOf numberOf (idValue id) label = .ok id := by
  rcases id with _ | n
  · rfl
  · have hpresent : ¬isMissing (idValue (some n)) = true := Bool.false_ne_true
    rw [nullablePositiveIntegerOf, if_neg hpresent, idValue, positiveIntegerOf_int hids (h n rfl)]
    rfl

theorem orBlank_str (s : String) : (JsValue.str s).orBlank = s := by
  rw [orBlank, textOr, truthy]
  split
  · rfl
  · rename_i h
    have hblank : s = "" := by simpa using h
    exact hblank.symm

theorem trimText_of_isPollutantCode {text : String} (h : isPollutantCode text = true) :
    trimText text = text := by
  rw [isPollutantCode, Bool.and_eq_true, List.all_eq_true] at h
  refine trimText_of_forall fun c hc ↦ ?_
  have hcode := h.2 c hc
  rw [isJsWhitespace, decide_eq_false_iff_not]
  intro hspace
  have hval : ∀ v ∈ ([0x9, 0xA, 0xB, 0xC, 0xD, 0x20, 0xA0, 0x1680, 0x2000, 0x2001, 0x2002, 0x2003,
      0x2004, 0x2005, 0x2006, 0x2007, 0x2008, 0x2009, 0x200A, 0x2028, 0x2029, 0x202F, 0x205F,
      0x3000, 0xFEFF] : List UInt32),
      ¬(((97 ≤ v ∧ v ≤ 122) ∨ (48 ≤ v ∧ v ≤ 57)) ∨ v = 95) :=
    List.all_iff_forall_prop.mp (by decide)
  refine hval c.val hspace ?_
  simp only [Bool.or_eq_true, Bool.and_eq_true, decide_eq_true_eq, Char.isDigit] at hcode
  rcases hcode with (hletter | hdigit) | rfl
  · exact Or.inl (Or.inl hletter)
  · exact Or.inl (Or.inr hdigit)
  · exact Or.inr rfl

theorem canonicalPollutant_eq_ok_iff {value : JsValue} {label code : String} :
    canonicalPollutant value label = .ok code ↔
      trimText value.orBlank = code ∧ isPollutantCode code = true := by
  rw [canonicalPollutant]
  constructor
  · intro h
    split at h
    · rename_i hcode
      obtain rfl := Except.ok.inj h
      exact ⟨rfl, hcode⟩
    · cases h
  · rintro ⟨rfl, hcode⟩
    exact if_pos hcode

/-- An entry as a manifest carries it. -/
structure CanonicalEntry (dateParse : DateParse) (double : String → String) (connectorId : ℤ)
    (entry : TimeseriesEntry) : Prop where
  connectorId : entry.connectorId = connectorId
  isPositive : isPositiveSafeInteger entry.connectorId = true
  timeseriesId : isPositiveSafeInteger entry.timeseriesId = true
  stationId : ∀ id ∈ entry.stationId, isPositiveSafeInteger id = true
  pollutantCode : isPollutantCode entry.pollutantCode = true
  sourceModel : entry.sourceVerificationModel ∈ [ratificationBoundaryModel, perObservationModel]
  provenance : CanonicalProvenance double entry.sourceProvenance
  normal : Normal entry.periods
  canonical : ∀ p ∈ entry.periods, HasCanonicalBounds dateParse p

theorem canonicalEntry_of_ok {double : String → String} {canonical : Bool} {connectorId : ℤ}
    {given : JsValue} {entry : TimeseriesEntry} (hvalue : given.IsValue double)
    (h : normalizeTimeseriesValue dateParse numberOf canonical connectorId given = .ok entry) :
    CanonicalEntry dateParse double connectorId entry := by
  rw [normalizeTimeseriesValue] at h
  obtain ⟨_, _, h⟩ := Except.bind_eq_ok_iff.mp h
  obtain ⟨entryConnectorId, hconnector, h⟩ := Except.bind_eq_ok_iff.mp h
  obtain ⟨_, hsame, h⟩ := Except.bind_eq_ok_iff.mp h
  obtain ⟨_, hmodel, h⟩ := Except.bind_eq_ok_iff.mp h
  obtain ⟨_, _, h⟩ := Except.bind_eq_ok_iff.mp h
  obtain ⟨timeseriesId, htimeseries, h⟩ := Except.bind_eq_ok_iff.mp h
  obtain ⟨stationId, hstation, h⟩ := Except.bind_eq_ok_iff.mp h
  obtain ⟨pollutantCode, hpollutant, h⟩ := Except.bind_eq_ok_iff.mp h
  obtain ⟨provenance, hprovenance, h⟩ := Except.bind_eq_ok_iff.mp h
  obtain ⟨_, _, h⟩ := Except.bind_eq_ok_iff.mp h
  obtain ⟨periods, hperiods, h⟩ := Except.bind_eq_ok_iff.mp h
  cases h
  obtain ⟨hnormal, hcanonical⟩ := normal_of_normalizePeriodValues hperiods
  refine ⟨not_not.mp (Except.refuseIf_eq_ok_iff.mp hsame), positiveIntegerOf_eq_ok hconnector,
    positiveIntegerOf_eq_ok htimeseries, fun id hid ↦ ?_,
    (canonicalPollutant_eq_ok_iff.mp hpollutant).2, not_not.mp (Except.refuseIf_eq_ok_iff.mp hmodel),
    canonicalProvenance_of_ok (isValue_optional hvalue _) hprovenance, hnormal, hcanonical⟩
  obtain rfl : stationId = some id := hid
  rw [nullablePositiveIntegerOf] at hstation
  split at hstation
  · cases hstation
  · obtain ⟨n, hn, hsome⟩ := Except.map_eq_ok_iff.mp hstation
    rw [← Option.some.inj hsome]
    exact positiveIntegerOf_eq_ok hn

/-- The entry with its provenance as it was read back. -/
def TimeseriesEntry.jsonForm (entry : TimeseriesEntry) : TimeseriesEntry :=
  { entry with sourceProvenance := entry.sourceProvenance.jsonForm }

theorem reread_orNull (bound : Option String) : (orNull bound).reread = orNull bound := by
  cases bound <;> rfl

theorem asRawPeriod_reread (period : Period String Status) :
    asRawPeriod (periodValue period).reread = raw period := by
  have hnames : ([("from_observed_at_utc", orNull period.start),
      ("to_observed_at_utc", orNull period.stop),
      ("status", JsValue.str period.value.text)].map Prod.fst).Nodup := by simp
  have hne : ∀ bound : Option String, orNull bound ≠ .undefined := by
    rintro (_ | _) <;> simp [orNull]
  rw [asRawPeriod, periodValue, optional_reread hnames (by simp) (hne period.start),
    optional_reread hnames (k := "to_observed_at_utc") (by simp) (hne period.stop),
    optional_reread hnames (k := "status") (v := .str period.value.text) (by simp) (by simp),
    reread_orNull, reread_orNull, reread_str, raw]

theorem normalizePeriodValues_reread {periods : List (Period String Status)}
    (h : Normal periods) (hcanonical : ∀ p ∈ periods, HasCanonicalBounds dateParse p) :
    normalizePeriodValues dateParse (JsValue.arr (periods.map periodValue)).reread
      = .ok periods := by
  rw [reread_arr, List.map_map]
  refine normalizePeriodValues_arr.mpr
    ⟨List.forall_mem_map.mpr fun _ _ ↦ isObject_reread rfl, ?_⟩
  have hraw : asRawPeriod ∘ (reread ∘ periodValue) = raw := funext asRawPeriod_reread
  rw [List.map_map, hraw]
  exact normalize_of_normal h hcanonical

section Entries

variable {double : String → String} {connectorId : ℤ} {entry : TimeseriesEntry}

/-- **An entry that was read back is accepted**, with its provenance in JSON form. -/
theorem normalizeTimeseriesValue_reread (hids : ReadsIds numberOf)
    (h : CanonicalEntry dateParse double connectorId entry) :
    normalizeTimeseriesValue dateParse numberOf true connectorId entry.toValue.reread
      = .ok entry.jsonForm := by
  have hstation : idValue entry.stationId ≠ .undefined := by
    cases entry.stationId <;> simp [idValue, JsValue.int]
  have hstation' : (idValue entry.stationId).reread = idValue entry.stationId := by
    rcases entry.stationId with _ | id
    · rfl
    · exact reread_int id
  have hstatus : statusValue entry.defaultStatus ≠ .undefined := by
    cases entry.defaultStatus <;> simp [statusValue]
  have hstatus' : (statusValue entry.defaultStatus).reread = statusValue entry.defaultStatus := by
    cases entry.defaultStatus <;> rfl
  have hprovenance : entry.sourceProvenance ≠ .undefined := by
    intro hundefined
    have hobject := h.provenance.isObject
    rw [hundefined] at hobject
    cases hobject
  obtain ⟨names, hnames⟩ : ∃ fields : List (String × JsValue),
      entry.toValue = .obj fields ∧ (fields.map Prod.fst).Nodup ∧
        ("connector_id", .int entry.connectorId) ∈ fields ∧
        ("timeseries_id", .int entry.timeseriesId) ∈ fields ∧
        ("station_id", idValue entry.stationId) ∈ fields ∧
        ("pollutant_code", .str entry.pollutantCode) ∈ fields ∧
        ("source_verification_model", .str entry.sourceVerificationModel) ∈ fields ∧
        ("source_provenance", entry.sourceProvenance) ∈ fields ∧
        ("default_status", statusValue entry.defaultStatus) ∈ fields ∧
        ("periods", .arr (entry.periods.map periodValue)) ∈ fields :=
    ⟨_, rfl, by simp⟩
  obtain ⟨hfields, hnodup, hmem⟩ := hnames
  obtain ⟨hconnector, htimeseries, hstationMem, hpollutant, hmodel, hsource, hdefault, hperiods⟩ :=
    hmem
  have hmodelText : trimText (JsValue.str entry.sourceVerificationModel).orBlank
      = entry.sourceVerificationModel := by
    rw [orBlank_str]
    rcases List.mem_pair.mp h.sourceModel with heq | heq <;> rw [heq] <;> decide
  have hpollutantOk := @canonicalPollutant_eq_ok_iff (.str entry.pollutantCode)
    "timeseries.pollutant_code" entry.pollutantCode
  rw [orBlank_str] at hpollutantOk
  have hstatusOk : nullableStatus (statusValue entry.defaultStatus) "timeseries.default_status"
      = .ok entry.defaultStatus := by
    rcases entry.defaultStatus with _ | _ | _ <;> rfl
  have hperiodsOk : normalizePeriodValues dateParse (periodsOrNone (JsValue.obj names).reread)
      = .ok entry.periods := by
    have htruthy : (JsValue.arr (entry.periods.map periodValue)).reread.truthy = true := by
      rw [reread_arr]
      rfl
    rw [periodsOrNone, optional_reread hnodup hperiods (by simp), if_pos htruthy]
    exact normalizePeriodValues_reread h.normal h.canonical
  have hobject : ¬(JsValue.obj names).reread.isObject = false := by
    rw [isObject_reread (v := .obj names) rfl]
    decide
  have hmodelOk : ¬entry.sourceVerificationModel ∉ [ratificationBoundaryModel, perObservationModel] :=
    not_not.mpr h.sourceModel
  rw [hfields, normalizeTimeseriesValue, Except.refuseIf_neg hobject, Except.ok_bind,
    optional_reread hnodup hconnector (by simp [JsValue.int]), reread_int,
    positiveIntegerOf_int hids h.isPositive, Except.ok_bind,
    Except.refuseIf_neg (not_not.mpr h.connectorId), Except.ok_bind,
    optional_reread hnodup hmodel (by simp), reread_str]
  dsimp only
  rw [hmodelText, Except.refuseIf_neg hmodelOk, Except.ok_bind,
    Except.refuseIf_neg (fun hnot ↦ by cases hnot.1), Except.ok_bind,
    optional_reread hnodup htimeseries (by simp [JsValue.int]), reread_int,
    positiveIntegerOf_int hids h.timeseriesId, Except.ok_bind,
    optional_reread hnodup hstationMem hstation, hstation',
    nullablePositiveIntegerOf_idValue hids h.stationId, Except.ok_bind,
    optional_reread hnodup hpollutant (by simp), reread_str,
    hpollutantOk.mpr ⟨trimText_of_isPollutantCode h.pollutantCode, h.pollutantCode⟩, Except.ok_bind,
    if_pos rfl, if_pos rfl, optional_reread hnodup hsource hprovenance,
    h.provenance.reread_eq_ok, Except.ok_bind, optional_reread hnodup hdefault hstatus, hstatus',
    hstatusOk, Except.ok_bind, hperiodsOk, Except.ok_bind]
  rfl

end Entries

/-! ## Manifests -/

/-- A manifest as it was built. -/
structure CanonicalManifest (dateParse : DateParse) (double : String → String)
    (manifest : ConnectorManifest) : Prop where
  connectorId : isPositiveSafeInteger manifest.connectorId = true
  identity : CanonicalProvenance double manifest.sourceIdentity
  entries : ∀ entry ∈ manifest.timeseries,
    CanonicalEntry dateParse double manifest.connectorId entry
  sorted : manifest.timeseries.Pairwise fun left right ↦ left.timeseriesId < right.timeseriesId

theorem sortTimeseries_eq_ok_iff {entries sorted : List TimeseriesEntry} :
    sortTimeseries entries = .ok sorted ↔
      Sorting.sortBy (fun left right ↦ compare left.timeseriesId right.timeseriesId) entries = sorted
        ∧ sorted.Pairwise fun left right ↦ left.timeseriesId < right.timeseriesId := by
  rw [sortTimeseries, Except.bind_eq_ok_iff]
  constructor
  · rintro ⟨_, hchain, h⟩
    obtain rfl := Except.ok.inj h
    exact ⟨rfl, pairwise_lt_of_isChain (not_not.mp (Except.refuseIf_eq_ok_iff.mp hchain))⟩
  · rintro ⟨rfl, hsorted⟩
    refine ⟨(), Except.refuseIf_neg (not_not.mpr ?_), rfl⟩
    rw [List.isChain_map]
    exact (hsorted.imp fun hlt ↦ hlt.ne).isChain

theorem sortTimeseries_of_sorted {entries : List TimeseriesEntry}
    (h : entries.Pairwise fun left right ↦ left.timeseriesId < right.timeseriesId) :
    sortTimeseries entries = .ok entries := by
  refine sortTimeseries_eq_ok_iff.mpr ⟨List.Pairwise.insertionSort_eq ?_, h⟩
  exact h.imp fun hlt ↦ Std.isLE_compare.mpr hlt.le

theorem canonicalManifest_of_build {double : String → String}
    {connectorId semanticSourceIdentity timeseries : JsValue} {manifest : ConnectorManifest}
    (hidentity : semanticSourceIdentity.IsValue double) (htimeseries : timeseries.IsValue double)
    (h : buildConnectorManifest dateParse numberOf connectorId semanticSourceIdentity timeseries
      = .ok manifest) : CanonicalManifest dateParse double manifest := by
  rw [buildConnectorManifest] at h
  obtain ⟨connector, hconnector, h⟩ := Except.bind_eq_ok_iff.mp h
  obtain ⟨normalized, hnormalized, h⟩ := Except.bind_eq_ok_iff.mp h
  obtain ⟨identity, hprovenance, h⟩ := Except.bind_eq_ok_iff.mp h
  cases h
  obtain ⟨entries, hentries, hsort⟩ := Except.bind_eq_ok_iff.mp hnormalized
  obtain ⟨rfl, hsorted⟩ := sortTimeseries_eq_ok_iff.mp hsort
  refine ⟨positiveIntegerOf_eq_ok hconnector, canonicalProvenance_of_ok hidentity hprovenance,
    fun entry hentry ↦ ?_, hsorted⟩
  obtain ⟨given, hgiven, hok⟩ :=
    Except.exists_input_of_mem hentries (Sorting.mem_sortBy.mp hentry)
  refine canonicalEntry_of_ok ?_ hok
  rcases timeseries with _ | _ | _ | _ | _ | items | _
  case arr => exact areValues_iff.mp htimeseries given hgiven
  all_goals exact absurd hgiven List.not_mem_nil

/-- The manifest with its provenance as it was read back. -/
def ConnectorManifest.jsonForm (manifest : ConnectorManifest) : ConnectorManifest where
  connectorId := manifest.connectorId
  sourceIdentity := manifest.sourceIdentity.jsonForm
  timeseries := manifest.timeseries.map TimeseriesEntry.jsonForm

theorem jsonForm_obj {fields : List (String × JsValue)} (h : ∀ p ∈ fields, p.2 ≠ .undefined) :
    (JsValue.obj fields).jsonForm = .obj (fields.map fun p ↦ (p.1, p.2.jsonForm)) := by
  rw [JsValue.jsonForm, jsonFields_eq_map, present_eq_self h]

theorem jsonForm_arr (items : List JsValue) :
    (JsValue.arr items).jsonForm = .arr (items.map JsValue.jsonForm) := by
  have hitems : jsonItems items = items.map JsValue.jsonForm := by
    induction items with
    | nil => rfl
    | cons v rest ih => rw [jsonItems, ih, List.map_cons]
  rw [JsValue.jsonForm, hitems]

theorem jsonForm_int (n : ℤ) : (JsValue.int n).jsonForm = .int n :=
  if_pos (JsonText.numberText_toString n)

theorem jsonForm_periodValue (period : Period String Status) :
    (periodValue period).jsonForm = periodValue period := by
  have hne : ∀ bound : Option String, orNull bound ≠ .undefined := by
    rintro (_ | _) <;> simp [orNull]
  have hsame : ∀ bound : Option String, (orNull bound).jsonForm = orNull bound := by
    rintro (_ | _) <;> rfl
  rw [periodValue, jsonForm_obj (by simp [hne])]
  simp [hsame, JsValue.jsonForm]

section Values

variable {double : String → String} {connectorId : ℤ} {entry : TimeseriesEntry}
  {manifest : ConnectorManifest}

theorem CanonicalProvenance.ne_undefined {provenance : JsValue}
    (h : CanonicalProvenance double provenance) : provenance ≠ .undefined := by
  rintro rfl
  exact absurd h.isObject (by decide)

theorem CanonicalEntry.ne_undefined (h : CanonicalEntry dateParse double connectorId entry) :
    ∀ p ∈ [("connector_id", JsValue.int entry.connectorId),
      ("timeseries_id", .int entry.timeseriesId), ("station_id", idValue entry.stationId),
      ("pollutant_code", .str entry.pollutantCode),
      ("source_verification_model", .str entry.sourceVerificationModel),
      ("source_provenance", entry.sourceProvenance),
      ("default_status", statusValue entry.defaultStatus),
      ("periods", .arr (entry.periods.map periodValue))], p.2 ≠ .undefined := by
  have hstation : idValue entry.stationId ≠ .undefined := by
    cases entry.stationId <;> simp [idValue, JsValue.int]
  have hstatus : statusValue entry.defaultStatus ≠ .undefined := by
    cases entry.defaultStatus <;> simp [statusValue]
  have hprovenance := h.provenance.ne_undefined
  simp [JsValue.int, hstation, hstatus, hprovenance]

theorem TimeseriesEntry.toValue_jsonForm (h : CanonicalEntry dateParse double connectorId entry) :
    entry.jsonForm.toValue = entry.toValue.jsonForm := by
  have hstation : (idValue entry.stationId).jsonForm = idValue entry.stationId := by
    rcases entry.stationId with _ | id
    · rfl
    · exact jsonForm_int id
  have hstatus : (statusValue entry.defaultStatus).jsonForm = statusValue entry.defaultStatus := by
    cases entry.defaultStatus <;> rfl
  have hperiods : (entry.periods.map periodValue).map JsValue.jsonForm
      = entry.periods.map periodValue := by
    rw [List.map_map]
    exact List.map_congr_left fun p _ ↦ jsonForm_periodValue p
  have hstr : ∀ s : String, (JsValue.str s).jsonForm = .str s := fun _ ↦ rfl
  rw [TimeseriesEntry.toValue, TimeseriesEntry.toValue, jsonForm_obj h.ne_undefined]
  simp only [TimeseriesEntry.jsonForm, List.map_cons, List.map_nil, jsonForm_int, jsonForm_arr,
    hstation, hstatus, hperiods, hstr]

theorem ConnectorManifest.toValue_jsonForm (h : CanonicalManifest dateParse double manifest) :
    manifest.jsonForm.toValue = manifest.toValue.jsonForm := by
  have hentries : (manifest.timeseries.map TimeseriesEntry.toValue).map JsValue.jsonForm
      = (manifest.timeseries.map TimeseriesEntry.jsonForm).map TimeseriesEntry.toValue := by
    rw [List.map_map, List.map_map]
    exact List.map_congr_left fun entry hentry ↦
      (TimeseriesEntry.toValue_jsonForm (h.entries entry hentry)).symm
  have hstr : ∀ s : String, (JsValue.str s).jsonForm = .str s := fun _ ↦ rfl
  have hidentity := h.identity.ne_undefined
  rw [ConnectorManifest.toValue, ConnectorManifest.toValue,
    jsonForm_obj (by simp [JsValue.int, hidentity])]
  simp only [ConnectorManifest.jsonForm, List.map_cons, List.map_nil, jsonForm_int, jsonForm_arr,
    hentries, hstr]

theorem isValue_id {id : Option ℤ} (h : ∀ n ∈ id, isPositiveSafeInteger n = true) :
    (idValue id).IsValue double := by
  rcases id with _ | n
  · trivial
  · exact isValue_int double (natAbs_le_of_isPositiveSafeInteger (h n rfl))

theorem isValue_periodValue (period : Period String Status) :
    (periodValue period).IsValue double := by
  have hbound : ∀ bound : Option String, (orNull bound).IsValue double := by
    rintro (_ | _) <;> trivial
  exact ⟨⟨hbound _, hbound _, trivial, trivial⟩, by simp⟩

theorem CanonicalEntry.isValue (h : CanonicalEntry dateParse double connectorId entry) :
    entry.toValue.IsValue double := by
  have hstatus : (statusValue entry.defaultStatus).IsValue double := by
    cases entry.defaultStatus <;> trivial
  refine ⟨⟨isValue_int double (natAbs_le_of_isPositiveSafeInteger h.isPositive),
    isValue_int double (natAbs_le_of_isPositiveSafeInteger h.timeseriesId),
    isValue_id h.stationId, trivial, trivial, h.provenance.isValue, hstatus, ?_, trivial⟩, by simp⟩
  refine areValues_iff.mpr fun v hv ↦ ?_
  obtain ⟨period, _, rfl⟩ := List.mem_map.mp hv
  exact isValue_periodValue period

theorem CanonicalManifest.isValue (h : CanonicalManifest dateParse double manifest) :
    manifest.toValue.IsValue double := by
  have hone : (JsValue.int 1).IsValue double := isValue_int double (by decide)
  refine ⟨⟨hone, trivial, hone, trivial,
    isValue_int double (natAbs_le_of_isPositiveSafeInteger h.connectorId), h.identity.isValue, ?_,
    trivial⟩, by simp⟩
  refine areValues_iff.mpr fun v hv ↦ ?_
  obtain ⟨entry, hentry, rfl⟩ := List.mem_map.mp hv
  exact (h.entries entry hentry).isValue

/-- **A manifest that was read back passes the validator**, with its provenance in JSON form. -/
theorem validate_reread (hids : ReadsIds numberOf)
    (h : CanonicalManifest dateParse double manifest) :
    validateObservationVerificationConnectorManifest dateParse numberOf manifest.toValue.reread
      = .ok manifest.jsonForm := by
  obtain ⟨fields, hfields, hnodup, hschema, hkind, hversion, hgeneration, hconnector, hsource,
      htimeseries⟩ : ∃ fields : List (String × JsValue),
      manifest.toValue = .obj fields ∧ (fields.map Prod.fst).Nodup ∧
        ("schema_version", .int 1) ∈ fields ∧ ("kind", .str connectorManifestKind) ∈ fields ∧
        ("verification_format_version", .int 1) ∈ fields ∧
        ("history_generation", .str "v3") ∈ fields ∧
        ("connector_id", .int manifest.connectorId) ∈ fields ∧
        ("source_identity", manifest.sourceIdentity) ∈ fields ∧
        ("timeseries", .arr (manifest.timeseries.map TimeseriesEntry.toValue)) ∈ fields :=
    ⟨_, rfl, by simp⟩
  have hidentity : hasManifestIdentity (JsValue.obj fields).reread = true := by
    rw [hasManifestIdentity, optional_reread hnodup hschema (by simp [JsValue.int]),
      optional_reread hnodup hkind (by simp), optional_reread hnodup hversion (by simp [JsValue.int]),
      optional_reread hnodup hgeneration (by simp), reread_int, reread_str, reread_str]
    decide
  have hentries : normalizeTimeseriesValues dateParse numberOf true manifest.connectorId
      (JsValue.arr (manifest.timeseries.map TimeseriesEntry.toValue)).reread
      = .ok (manifest.timeseries.map TimeseriesEntry.jsonForm) := by
    rw [reread_arr, normalizeTimeseriesValues, items?, Option.getD_some]
    refine Except.bind_eq_ok_iff.mpr ⟨manifest.timeseries.map TimeseriesEntry.jsonForm, ?_, ?_⟩
    · refine (Except.mapM_eq_ok_iff _ _ _).mpr ?_
      rw [List.map_map, List.forall₂_map_left_iff, List.forall₂_map_right_iff, List.forall₂_same]
      exact fun entry hentry ↦ normalizeTimeseriesValue_reread hids (h.entries entry hentry)
    · refine sortTimeseries_of_sorted (List.pairwise_map.mpr ?_)
      exact h.sorted
  have htext : ¬encodeObservationVerificationJson (JsValue.obj fields).reread
      ≠ encodeObservationVerificationJson (ConnectorManifest.toValue manifest.jsonForm) := by
    rw [not_not, encodeObservationVerificationJson, encodeObservationVerificationJson,
      ConnectorManifest.toValue_jsonForm h, canonicalJson_of_jsonForm, ← hfields]
    exact canonicalJson_jsonForm h.isValue
  rw [hfields, validateObservationVerificationConnectorManifest,
    Except.refuseIf_neg (by rw [hidentity]; decide), Except.ok_bind,
    optional_reread hnodup hconnector (by simp [JsValue.int]), reread_int,
    positiveIntegerOf_int hids h.connectorId, Except.ok_bind,
    optional_reread hnodup htimeseries (by simp), hentries, Except.ok_bind,
    optional_reread hnodup hsource h.identity.ne_undefined, h.identity.reread_eq_ok, Except.ok_bind]
  dsimp only
  rw [show (⟨manifest.connectorId, manifest.sourceIdentity.jsonForm,
    manifest.timeseries.map TimeseriesEntry.jsonForm⟩ : ConnectorManifest) = manifest.jsonForm from
    rfl, Except.refuseIf_neg htext]
  rfl

end Values

/-! ## Order -/

/-- Entries with different ids have one sorted order. -/
theorem sortTimeseries_of_perm {entries entries' sorted : List TimeseriesEntry}
    (h : sortTimeseries entries = .ok sorted) (hperm : entries.Perm entries') :
    sortTimeseries entries' = .ok sorted := by
  obtain ⟨rfl, hsorted⟩ := sortTimeseries_eq_ok_iff.mp h
  have hcmp : Std.TransCmp fun left right : TimeseriesEntry ↦
      compare left.timeseriesId right.timeseriesId :=
    Sorting.transCmp_on inferInstance TimeseriesEntry.timeseriesId
  refine sortTimeseries_eq_ok_iff.mpr ⟨(Sorting.sortBy_eq_of_perm hperm ?_).symm, hsorted⟩
  intro left hleft right hright heq
  have hnodup := List.pairwise_map.mpr (hsorted.imp fun hlt ↦ hlt.ne)
  exact List.inj_on_of_nodup_map hnodup (Sorting.mem_sortBy.mpr hleft)
    (Sorting.mem_sortBy.mpr hright) (Std.LawfulEqCmp.eq_of_compare heq)

/-- **The manifest does not depend on the order of its timeseries.** -/
theorem buildConnectorManifest_of_perm {connectorId semanticSourceIdentity : JsValue}
    {items items' : List JsValue} {manifest : ConnectorManifest}
    (h : buildConnectorManifest dateParse numberOf connectorId semanticSourceIdentity (.arr items)
      = .ok manifest) (hperm : items.Perm items') :
    buildConnectorManifest dateParse numberOf connectorId semanticSourceIdentity (.arr items')
      = .ok manifest := by
  rw [buildConnectorManifest] at h ⊢
  obtain ⟨connector, hconnector, h⟩ := Except.bind_eq_ok_iff.mp h
  obtain ⟨normalized, hnormalized, h⟩ := Except.bind_eq_ok_iff.mp h
  obtain ⟨entries, hentries, hsort⟩ := Except.bind_eq_ok_iff.mp hnormalized
  obtain ⟨entries', hentries', hperm'⟩ := Except.mapM_perm hperm hentries
  rw [hconnector, Except.ok_bind, normalizeTimeseriesValues, items?, Option.getD_some, hentries',
    Except.ok_bind, sortTimeseries_of_perm hsort hperm']
  exact h

/-! ## Equal maps -/

/-- Two timeseries that differ in the way their periods are cut, and in nothing else. -/
structure SameSeries (dateParse : DateParse) (given given' : JsValue) : Prop where
  fields : ∀ name ∈ ["connector_id", "timeseries_id", "station_id", "pollutant_code",
    "source_verification_model", "default_status"], given.optional name = given'.optional name
  provenance : (given.optional "semantic_source_provenance").canonicalize
    = (given'.optional "semantic_source_provenance").canonicalize
  statuses : SameStatuses dateParse (periodsOrNone given) (periodsOrNone given')

theorem canonicalSemanticProvenance_eq {value provenance : JsValue} {label : String}
    (h : canonicalSemanticProvenance value label = .ok provenance) :
    provenance = value.canonicalize := by
  rcases value with _ | _ | _ | _ | _ | _ | fields
  case obj =>
    obtain ⟨_, _, h⟩ := Except.bind_eq_ok_iff.mp h
    exact (Except.ok.inj h).symm
  all_goals cases h

theorem entry_eq_of_sameSeries (hdates : ReadsTimestamps dateParse)
    (hvalues : ReadsTimeValues dateParse) {connectorId : ℤ} {given given' : JsValue}
    {entry entry' : TimeseriesEntry}
    (h : normalizeTimeseriesValue dateParse numberOf false connectorId given = .ok entry)
    (h' : normalizeTimeseriesValue dateParse numberOf false connectorId given' = .ok entry')
    (hsame : SameSeries dateParse given given') : entry = entry' := by
  have hfield := hsame.fields
  rw [normalizeTimeseriesValue] at h h'
  rw [← hfield "connector_id" (by decide), ← hfield "source_verification_model" (by decide),
    ← hfield "timeseries_id" (by decide), ← hfield "station_id" (by decide),
    ← hfield "pollutant_code" (by decide), ← hfield "default_status" (by decide)] at h'
  obtain ⟨_, _, h⟩ := Except.bind_eq_ok_iff.mp h
  obtain ⟨_, _, h'⟩ := Except.bind_eq_ok_iff.mp h'
  obtain ⟨_, hconnector, h⟩ := Except.bind_eq_ok_iff.mp h
  obtain ⟨_, hconnector', h'⟩ := Except.bind_eq_ok_iff.mp h'
  obtain ⟨_, _, h⟩ := Except.bind_eq_ok_iff.mp h
  obtain ⟨_, _, h'⟩ := Except.bind_eq_ok_iff.mp h'
  obtain ⟨_, _, h⟩ := Except.bind_eq_ok_iff.mp h
  obtain ⟨_, _, h'⟩ := Except.bind_eq_ok_iff.mp h'
  obtain ⟨_, _, h⟩ := Except.bind_eq_ok_iff.mp h
  obtain ⟨_, _, h'⟩ := Except.bind_eq_ok_iff.mp h'
  obtain ⟨_, htimeseries, h⟩ := Except.bind_eq_ok_iff.mp h
  obtain ⟨_, htimeseries', h'⟩ := Except.bind_eq_ok_iff.mp h'
  obtain ⟨_, hstation, h⟩ := Except.bind_eq_ok_iff.mp h
  obtain ⟨_, hstation', h'⟩ := Except.bind_eq_ok_iff.mp h'
  obtain ⟨_, hpollutant, h⟩ := Except.bind_eq_ok_iff.mp h
  obtain ⟨_, hpollutant', h'⟩ := Except.bind_eq_ok_iff.mp h'
  obtain ⟨_, hprovenance, h⟩ := Except.bind_eq_ok_iff.mp h
  obtain ⟨_, hprovenance', h'⟩ := Except.bind_eq_ok_iff.mp h'
  obtain ⟨_, hdefault, h⟩ := Except.bind_eq_ok_iff.mp h
  obtain ⟨_, hdefault', h'⟩ := Except.bind_eq_ok_iff.mp h'
  obtain ⟨_, hperiods, h⟩ := Except.bind_eq_ok_iff.mp h
  obtain ⟨_, hperiods', h'⟩ := Except.bind_eq_ok_iff.mp h'
  cases h
  cases h'
  cases hconnector.symm.trans hconnector'
  cases htimeseries.symm.trans htimeseries'
  cases hstation.symm.trans hstation'
  cases hpollutant.symm.trans hpollutant'
  cases hdefault.symm.trans hdefault'
  rw [canonicalSemanticProvenance_eq hprovenance, canonicalSemanticProvenance_eq hprovenance',
    eq_of_sameStatuses hdates hvalues hperiods hperiods' hsame.statuses]
  exact congrArg (fun provenance ↦ (⟨_, _, _, _, _, provenance, _, _⟩ : TimeseriesEntry))
    hsame.provenance

theorem entries_eq_of_sameSeries (hdates : ReadsTimestamps dateParse)
    (hvalues : ReadsTimeValues dateParse) {connectorId : ℤ} {items items' : List JsValue}
    {entries entries' : List TimeseriesEntry}
    (hpairs : List.Forall₂ (SameSeries dateParse) items items')
    (h : List.Forall₂ (fun given entry ↦
      normalizeTimeseriesValue dateParse numberOf false connectorId given = .ok entry) items entries)
    (h' : List.Forall₂ (fun given entry ↦
      normalizeTimeseriesValue dateParse numberOf false connectorId given = .ok entry) items'
      entries') : entries = entries' := by
  induction hpairs generalizing entries entries' with
  | nil =>
    cases h
    cases h'
    rfl
  | cons hpair _ ih =>
    obtain ⟨entry, rest, hentry, hrest, rfl⟩ := List.forall₂_cons_left_iff.mp h
    obtain ⟨entry', rest', hentry', hrest', rfl⟩ := List.forall₂_cons_left_iff.mp h'
    rw [entry_eq_of_sameSeries hdates hvalues hentry hentry' hpair, ih hrest hrest']

/-- Two lists of timeseries that can be paired so that those of each pair agree. -/
def SameTimeseries (dateParse : DateParse) (timeseries timeseries' : JsValue) : Prop :=
  ∃ paired, (timeseries.items?.getD []).Perm paired ∧
    List.Forall₂ (SameSeries dateParse) paired (timeseries'.items?.getD [])

/-- **Equal provenance and equal maps give one manifest.** -/
theorem manifest_eq_of_same (hdates : ReadsTimestamps dateParse)
    (hvalues : ReadsTimeValues dateParse) {connectorId connectorId' identity identity' timeseries
      timeseries' : JsValue} {manifest manifest' : ConnectorManifest}
    (h : buildConnectorManifest dateParse numberOf connectorId identity timeseries = .ok manifest)
    (h' : buildConnectorManifest dateParse numberOf connectorId' identity' timeseries'
      = .ok manifest') (hconnector : numberOf connectorId = numberOf connectorId')
    (hidentity : identity.canonicalize = identity'.canonicalize)
    (hsame : SameTimeseries dateParse timeseries timeseries') : manifest = manifest' := by
  obtain ⟨paired, hperm, hpairs⟩ := hsame
  rw [buildConnectorManifest] at h h'
  obtain ⟨connector, hok, h⟩ := Except.bind_eq_ok_iff.mp h
  obtain ⟨connector', hok', h'⟩ := Except.bind_eq_ok_iff.mp h'
  rw [positiveIntegerOf, ← hconnector] at hok'
  cases hok.symm.trans hok'
  obtain ⟨sorted, hsorted, h⟩ := Except.bind_eq_ok_iff.mp h
  obtain ⟨sorted', hsorted', h'⟩ := Except.bind_eq_ok_iff.mp h'
  obtain ⟨_, hprovenance, h⟩ := Except.bind_eq_ok_iff.mp h
  obtain ⟨_, hprovenance', h'⟩ := Except.bind_eq_ok_iff.mp h'
  obtain ⟨entries, hentries, hsort⟩ := Except.bind_eq_ok_iff.mp hsorted
  obtain ⟨entries', hentries', hsort'⟩ := Except.bind_eq_ok_iff.mp hsorted'
  obtain ⟨mid, hmid, hperm'⟩ := Except.mapM_perm hperm hentries
  have hmidEq : mid = entries' := entries_eq_of_sameSeries hdates hvalues hpairs
    ((Except.mapM_eq_ok_iff _ _ _).mp hmid) ((Except.mapM_eq_ok_iff _ _ _).mp hentries')
  have hsortedEq : sorted = sorted' :=
    Except.ok.inj ((sortTimeseries_of_perm hsort (hmidEq ▸ hperm')).symm.trans hsort')
  cases h
  cases h'
  rw [hsortedEq, canonicalSemanticProvenance_eq hprovenance,
    canonicalSemanticProvenance_eq hprovenance', hidentity]

/-! ## Canonicity -/

theorem readsTimeValues_readTimestamp : ReadsTimeValues readTimestamp := by
  intro text ms h
  rw [readTimestamp] at h
  split at h
  · rename_i hexists
    rw [← Option.some.inj h]
    exact hexists.choose_spec.1
  · cases h

/-- `Number` on decimal digits. -/
def decimalNumber : NumberOf
  | .num text =>
    if text.toList.all Char.isDigit then some (Nat.ofDigitChars 10 text.toList 0 : ℕ) else none
  | _ => none

theorem readsIds_decimalNumber : ReadsIds decimalNumber := by
  intro n hn
  obtain ⟨m, rfl⟩ : ∃ m : ℕ, n = m := ⟨n.toNat, by
    simp only [isPositiveSafeInteger, Bool.and_eq_true, decide_eq_true_eq] at hn
    omega⟩
  have hdigits : (toString (m : ℤ)).toList = Nat.toDigits 10 m := Nat.toList_repr
  rw [JsValue.int, decimalNumber, hdigits,
    if_pos (List.all_eq_true.mpr fun c hc ↦ JsonText.isDigit_of_mem_toDigits hc),
    Nat.ofDigitChars_ten_toDigits]

/-- Ratified before the year 2024. -/
def beforeNewYear : Period String Status := ⟨none, some "2024-01-01T00:00:00.000Z", .R⟩

/-- Ratified from the least timestamp until the year 2024. -/
def untilNewYear : Period String Status :=
  ⟨some leastTimestamp, some "2024-01-01T00:00:00.000Z", .R⟩

theorem isCanonical_newYear : IsCanonical readTimestamp "2024-01-01T00:00:00.000Z" := by
  have htext : toISOString 1704067200000 = "2024-01-01T00:00:00.000Z" := by decide +kernel
  exact ⟨1704067200000,
    htext ▸ readsTimestamps_readTimestamp 1704067200000 (by decide), htext⟩

theorem normalize_single {period : Period String Status} (hproper : period.isProper = true)
    (hcanonical : HasCanonicalBounds dateParse period) :
    normalizePeriodValues dateParse (.arr [periodValue period]) = .ok [period] :=
  @normalizePeriodValues_of_normal dateParse [period]
    (Normal.concat normal_nil hproper (by simp)) (List.forall_mem_singleton.mpr hcanonical)

theorem normalize_beforeNewYear :
    normalizePeriodValues readTimestamp (.arr [periodValue beforeNewYear])
      = .ok [beforeNewYear] :=
  normalize_single rfl ⟨fun _ h ↦ by (cases h), fun b hb ↦
    Option.some.inj hb ▸ isCanonical_newYear⟩

/-- One timeseries as a source hands it over. -/
def sampleSeries : JsValue :=
  .obj [("connector_id", .int 1), ("timeseries_id", .int 7), ("station_id", .null),
    ("pollutant_code", .str "pm25"), ("source_verification_model", .str "ratification-boundary-v1"),
    ("semantic_source_provenance", .obj []), ("default_status", .str "P"),
    ("periods", .arr [periodValue beforeNewYear])]

/-- The manifest of that timeseries. -/
def sampleManifest : ConnectorManifest :=
  ⟨1, .obj [], [⟨1, 7, none, "pm25", "ratification-boundary-v1", .obj [], some .P,
    [beforeNewYear]⟩]⟩

theorem build_sampleSeries :
    buildConnectorManifest readTimestamp decimalNumber (.int 1) (.obj []) (.arr [sampleSeries])
      = .ok sampleManifest := by
  have hentry : normalizeTimeseriesValue readTimestamp decimalNumber false 1 sampleSeries
      = .ok ⟨1, 7, none, "pm25", "ratification-boundary-v1", .obj [], some .P,
        [beforeNewYear]⟩ := by
    have hperiods : normalizePeriodValues readTimestamp (periodsOrNone sampleSeries)
        = .ok [beforeNewYear] := normalize_beforeNewYear
    have hmodel : trimText (sampleSeries.optional "source_verification_model").orBlank
        = "ratification-boundary-v1" := by decide
    have hpollutant : canonicalPollutant (sampleSeries.optional "pollutant_code")
        "timeseries.pollutant_code" = .ok "pm25" := by rfl
    rw [normalizeTimeseriesValue]
    refine Except.bind_eq_ok_iff.mpr ⟨(), rfl, Except.bind_eq_ok_iff.mpr ⟨1, rfl, ?_⟩⟩
    refine Except.bind_eq_ok_iff.mpr ⟨(), rfl, ?_⟩
    dsimp only
    rw [hmodel]
    refine Except.bind_eq_ok_iff.mpr ⟨(), rfl, Except.bind_eq_ok_iff.mpr ⟨(), rfl, ?_⟩⟩
    refine Except.bind_eq_ok_iff.mpr ⟨7, rfl, Except.bind_eq_ok_iff.mpr ⟨none, rfl, ?_⟩⟩
    refine Except.bind_eq_ok_iff.mpr ⟨"pm25", hpollutant, ?_⟩
    refine Except.bind_eq_ok_iff.mpr ⟨.obj [], rfl, Except.bind_eq_ok_iff.mpr ⟨some .P, rfl, ?_⟩⟩
    exact Except.bind_eq_ok_iff.mpr ⟨_, hperiods, rfl⟩
  have hentries : [sampleSeries].mapM (normalizeTimeseriesValue readTimestamp decimalNumber false 1)
      = .ok sampleManifest.timeseries :=
    (Except.mapM_eq_ok_iff _ _ _).mpr (List.Forall₂.cons hentry List.Forall₂.nil)
  refine Except.bind_eq_ok_iff.mpr ⟨1, rfl, Except.bind_eq_ok_iff.mpr ⟨_, ?_, rfl⟩⟩
  exact Except.bind_eq_ok_iff.mpr ⟨_, hentries, rfl⟩

end UkAqOps.Verification

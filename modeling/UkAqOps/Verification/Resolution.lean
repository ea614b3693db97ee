import UkAqOps.Verification.Overlay

/-!
# What a timestamp resolves to

Normalising periods changes no status: a period that is merged touches the one before it and has
its status. Changes of status cut out of observations in order are strictly ordered and alternate,
so that the periods between them read like the observations themselves.
-/

namespace UkAqOps.Verification

open Periods

variable {dateParse : DateParse}

/-! ## Canonical texts -/

/-- The text of an instant as the code writes it. -/
def IsCanonical (dateParse : DateParse) (text : String) : Prop :=
  ∃ ms, dateParse text = some ms ∧ toISOString ms = text

theorem canonicalUtc_eq_ok_iff {value : JsValue} {label text : String} :
    canonicalUtc dateParse value label = .ok text ↔
      trimText value.orBlank = text ∧ IsCanonical dateParse text := by
  rw [canonicalUtc]
  constructor
  · intro h
    split at h
    · cases h
    · rename_i ms hms
      split at h
      · rename_i htext
        obtain rfl := Except.ok.inj h
        exact ⟨rfl, ms, hms, htext.2⟩
      · cases h
  · rintro ⟨rfl, ms, hms, htext⟩
    simp only [hms]
    rw [if_pos ⟨htext ▸ toISOString_ne_empty ms, htext⟩]

/-- A canonical text is read as itself. -/
theorem canonicalUtc_str {text label : String} (h : IsCanonical dateParse text) :
    canonicalUtc dateParse (.str text) label = .ok text := by
  refine canonicalUtc_eq_ok_iff.mpr ⟨?_, h⟩
  obtain ⟨ms, _, rfl⟩ := h
  have hblank : (JsValue.str (toISOString ms)).orBlank = toISOString ms := by
    rw [JsValue.orBlank, JsValue.textOr, JsValue.truthy, if_pos (decide_eq_true (toISOString_ne_empty ms))]
    rfl
  rw [hblank, trimText_toISOString]

theorem canonicalStatus_text (status : Status) (label : String) :
    canonicalStatus (.str status.text) label = .ok status := by
  cases status <;> rfl

/-- Whether a value is a status does not depend on what an error would call it. -/
theorem canonicalStatus_label {value : JsValue} {label : String} {status : Status}
    (h : canonicalStatus value label = .ok status) (label' : String) :
    canonicalStatus value label' = .ok status := by
  unfold canonicalStatus at h ⊢
  split at h
  · exact h
  · exact h
  · cases h

/-- Every bound of the period is a canonical text. -/
def HasCanonicalBounds (dateParse : DateParse) (period : Period String Status) : Prop :=
  (∀ a ∈ period.start, IsCanonical dateParse a) ∧ ∀ b ∈ period.stop, IsCanonical dateParse b

theorem nullableUtc_orNull {bound : Option String} {label : String}
    (h : ∀ a ∈ bound, IsCanonical dateParse a) :
    nullableUtc dateParse (orNull bound) label = .ok bound := by
  rcases bound with _ | a
  · rfl
  · have hpresent : isMissing (orNull (some a)) ≠ true := Bool.false_ne_true
    rw [nullableUtc, if_neg hpresent, orNull, canonicalUtc_str (h a rfl)]
    rfl

theorem isCanonical_of_nullableUtc {value : JsValue} {label : String} {bound : Option String}
    (h : nullableUtc dateParse value label = .ok bound) : ∀ a ∈ bound, IsCanonical dateParse a := by
  rintro a rfl
  rw [nullableUtc] at h
  split at h
  · cases h
  · obtain ⟨text, htext, hsome⟩ := Except.map_eq_ok_iff.mp h
    rw [← Option.some.inj hsome]
    exact (canonicalUtc_eq_ok_iff.mp htext).2

/-- A normalised period is read as itself. -/
theorem readPeriod_raw {period : Period String Status} (h : HasCanonicalBounds dateParse period)
    (index : ℕ) : readPeriod dateParse index (raw period) = .ok period := by
  rw [readPeriod, raw, nullableUtc_orNull h.1, Except.ok_bind, nullableUtc_orNull h.2,
    Except.ok_bind, canonicalStatus_text, Except.ok_bind]

theorem hasCanonicalBounds_of_readPeriod {index : ℕ} {item : RawPeriod}
    {period : Period String Status} (h : readPeriod dateParse index item = .ok period) :
    HasCanonicalBounds dateParse period := by
  rw [readPeriod] at h
  obtain ⟨start, hstart, h⟩ := Except.bind_eq_ok_iff.mp h
  obtain ⟨stop, hstop, h⟩ := Except.bind_eq_ok_iff.mp h
  obtain ⟨status, _, h⟩ := Except.bind_eq_ok_iff.mp h
  cases h
  exact ⟨isCanonical_of_nullableUtc hstart, isCanonical_of_nullableUtc hstop⟩

/-! ## Normalising -/

/-- What the collapsed periods keep of the periods that were read. -/
structure Collapses (dateParse : DateParse) (read : List (Period String Status))
    (state : Collapse) : Prop where
  proper : ∀ p ∈ state.collapsed, p.isProper = true
  canonical : ∀ p ∈ state.collapsed, HasCanonicalBounds dateParse p
  valueAt : ∀ t, valueAt state.collapsed t = valueAt read t

theorem Collapses.collapsePeriod {read : List (Period String Status)} {state state' : Collapse}
    {period : Period String Status} (h : Collapses dateParse read state)
    (hproper : period.isProper = true) (hcanonical : HasCanonicalBounds dateParse period)
    (hstep : collapsePeriod state period = .ok state') :
    Collapses dateParse (read ++ [period]) state' := by
  have hpush : ∀ previousFrom,
      Collapses dateParse (read ++ [period]) ⟨state.collapsed ++ [period], previousFrom⟩ := by
    intro previousFrom
    refine ⟨fun p hp ↦ ?_, fun p hp ↦ ?_, fun t ↦ ?_⟩
    · rcases List.mem_append.mp hp with hp | hp
      · exact h.proper p hp
      · rwa [List.mem_singleton.mp hp]
    · rcases List.mem_append.mp hp with hp | hp
      · exact h.canonical p hp
      · rwa [List.mem_singleton.mp hp]
    · rw [valueAt_append, valueAt_append, h.valueAt t]
  rw [Verification.collapsePeriod] at hstep
  split at hstep
  · cases hstep
    exact hpush _
  · rename_i previous hprevious
    obtain ⟨_, hopen, hstep⟩ := Except.bind_eq_ok_iff.mp hstep
    obtain ⟨_, _, hstep⟩ := Except.bind_eq_ok_iff.mp hstep
    split at hstep
    · rename_i hmerge
      cases hstep
      obtain ⟨b, hb⟩ := Option.ne_none_iff_exists'.mp (Except.refuseIf_eq_ok_iff.mp hopen)
      have hsplit := List.dropLast_append_getLast? previous hprevious
      have hlast : previous ∈ state.collapsed := List.mem_of_getLast? hprevious
      have hstart : period.start = some b := hmerge.1.trans hb
      refine ⟨fun p hp ↦ ?_, fun p hp ↦ ?_, fun t ↦ ?_⟩
      · rcases List.mem_append.mp hp with hp | hp
        · exact h.proper p (List.mem_of_mem_dropLast hp)
        · rw [List.mem_singleton.mp hp]
          exact isProper_merge hb hstart (h.proper previous hlast) hproper
      · rcases List.mem_append.mp hp with hp | hp
        · exact h.canonical p (List.mem_of_mem_dropLast hp)
        · rw [List.mem_singleton.mp hp]
          exact ⟨(h.canonical previous hlast).1, hcanonical.2⟩
      · have hmerged := valueAt_merge hb hstart (h.proper previous hlast) hproper hmerge.2 t
        calc Periods.valueAt (state.collapsed.dropLast ++ [_]) t
            = (Periods.valueAt state.collapsed.dropLast t).or
                (Periods.valueAt ([previous] ++ [period]) t) := by
              rw [valueAt_append, hmerged]
              rfl
          _ = Periods.valueAt (state.collapsed ++ [period]) t := by
              rw [← valueAt_append, ← List.append_assoc, hsplit]
          _ = Periods.valueAt (read ++ [period]) t := by
              rw [valueAt_append, valueAt_append, h.valueAt t]
    · cases hstep
      exact hpush _

/-- What the loop over periods keeps: the periods read so far collapse to its state. -/
def Collapsing (dateParse : DateParse) (done : List (RawPeriod × ℕ)) (state : Collapse) : Prop :=
  ∃ read, List.Forall₂ (fun r p ↦ ∃ index, readPeriod dateParse index r = .ok p)
    (done.map Prod.fst) read ∧ Collapses dateParse read state

/-- **Normalising periods changes no status.** -/
theorem valueAt_normalize {raws : List RawPeriod} {periods : List (Period String Status)}
    (h : normalizeObservationVerificationPeriods dateParse raws = .ok periods) :
    (∀ p ∈ periods, HasCanonicalBounds dateParse p) ∧
      ∃ read, List.Forall₂ (fun r p ↦ ∃ index, readPeriod dateParse index r = .ok p) raws read ∧
        ∀ t, valueAt periods t = valueAt read t := by
  obtain ⟨state, hstate, rfl⟩ := Except.map_eq_ok_iff.mp h
  have hinv : Collapsing dateParse raws.zipIdx state := by
    refine @Except.foldlM_invariant _ _ _ _ _ _ _ (Collapsing dateParse) hstate
      ⟨[], List.Forall₂.nil, ⟨by simp, by simp, fun _ ↦ rfl⟩⟩ ?_
    rintro done item rest state state' _ ⟨read, hread, hcollapse⟩ hstep
    rw [normalizePeriod] at hstep
    obtain ⟨period, hperiod, hstep⟩ := Except.bind_eq_ok_iff.mp hstep
    obtain ⟨_, hproper, hstep⟩ := Except.bind_eq_ok_iff.mp hstep
    obtain ⟨_, _, hstep⟩ := Except.bind_eq_ok_iff.mp hstep
    obtain ⟨_, _, hstep⟩ := Except.bind_eq_ok_iff.mp hstep
    obtain ⟨_, _, hstep⟩ := Except.bind_eq_ok_iff.mp hstep
    refine ⟨read ++ [period], ?_, hcollapse.collapsePeriod ?_
      (hasCanonicalBounds_of_readPeriod hperiod) hstep⟩
    · rw [List.map_append]
      exact List.rel_append hread (List.Forall₂.cons ⟨_, hperiod⟩ List.Forall₂.nil)
    · rw [Except.refuseIf_eq_ok_iff, Bool.not_eq_false] at hproper
      exact hproper
  obtain ⟨read, hread, hcollapse⟩ := hinv
  rw [List.zipIdx_map_fst] at hread
  exact ⟨hcollapse.canonical, read, hread, hcollapse.valueAt⟩

/-- Periods with canonical bounds keep their statuses when they are normalised again. -/
theorem valueAt_normalize_raw {given periods : List (Period String Status)}
    (hgiven : ∀ p ∈ given, HasCanonicalBounds dateParse p)
    (h : normalizeObservationVerificationPeriods dateParse (given.map raw) = .ok periods) :
    (∀ p ∈ periods, HasCanonicalBounds dateParse p) ∧
      ∀ t, valueAt periods t = valueAt given t := by
  obtain ⟨hcanonical, read, hread, hvalue⟩ := valueAt_normalize h
  refine ⟨hcanonical, fun t ↦ ?_⟩
  have hsame : given = read := by
    rw [List.forall₂_map_left_iff] at hread
    clear h hvalue
    induction hread with
    | nil => rfl
    | @cons p q given read hpq _ ih =>
      obtain ⟨hp, hrest⟩ := List.forall_mem_cons.mp hgiven
      obtain ⟨index, hread⟩ := hpq
      rw [readPeriod_raw hp index] at hread
      rw [Except.ok.inj hread, ih hrest]
  rw [hvalue t, hsame]

/-! ## Looking up a timeseries -/

theorem positiveInteger_eq_ok_iff {value n : ℤ} {label : String} :
    positiveInteger value label = .ok n ↔ isPositiveSafeInteger value = true ∧ value = n := by
  rw [positiveInteger]
  split
  · rename_i h
    rw [Except.ok.injEq, and_iff_right h]
  · rename_i h
    exact ⟨fun hn ↦ (by cases hn), fun hn ↦ absurd hn.1 h⟩

/-- The entry that a timeseries becomes in the manifest. -/
structure Normalizes (dateParse : DateParse) (given : RawTimeseries) (entry : TimeseriesEntry) :
    Prop where
  timeseriesId : entry.timeseriesId = given.timeseriesId
  isPositive : isPositiveSafeInteger given.timeseriesId = true
  defaultStatus : nullableStatus given.defaultStatus "timeseries.default_status"
    = .ok entry.defaultStatus
  periods : normalizeObservationVerificationPeriods dateParse given.periods = .ok entry.periods

theorem normalizes_of_ok {connectorId : ℤ} {given : RawTimeseries} {entry : TimeseriesEntry}
    (h : normalizeTimeseriesEntry dateParse connectorId given = .ok entry) :
    Normalizes dateParse given entry := by
  rw [normalizeTimeseriesEntry] at h
  obtain ⟨_, _, h⟩ := Except.bind_eq_ok_iff.mp h
  obtain ⟨_, _, h⟩ := Except.bind_eq_ok_iff.mp h
  obtain ⟨_, _, h⟩ := Except.bind_eq_ok_iff.mp h
  obtain ⟨_, _, h⟩ := Except.bind_eq_ok_iff.mp h
  obtain ⟨timeseriesId, hid, h⟩ := Except.bind_eq_ok_iff.mp h
  obtain ⟨_, _, h⟩ := Except.bind_eq_ok_iff.mp h
  obtain ⟨_, _, h⟩ := Except.bind_eq_ok_iff.mp h
  obtain ⟨_, _, h⟩ := Except.bind_eq_ok_iff.mp h
  obtain ⟨defaultStatus, hdefault, h⟩ := Except.bind_eq_ok_iff.mp h
  obtain ⟨periods, hperiods, h⟩ := Except.bind_eq_ok_iff.mp h
  cases h
  obtain ⟨hpositive, rfl⟩ := positiveInteger_eq_ok_iff.mp hid
  exact ⟨rfl, hpositive, hdefault, hperiods⟩

/-- A sorted list without equal neighbours has no two equal ids. -/
theorem pairwise_lt_of_isChain {entries : List TimeseriesEntry}
    (h : ((Sorting.sortBy (fun left right ↦ compare left.timeseriesId right.timeseriesId)
      entries).map TimeseriesEntry.timeseriesId).IsChain (· ≠ ·)) :
    (Sorting.sortBy (fun left right ↦ compare left.timeseriesId right.timeseriesId)
      entries).Pairwise fun left right ↦ left.timeseriesId < right.timeseriesId := by
  have hcmp : Std.TransCmp fun left right : TimeseriesEntry ↦
      compare left.timeseriesId right.timeseriesId :=
    Sorting.transCmp_on inferInstance TimeseriesEntry.timeseriesId
  refine Sorting.pairwise_lt_of_isChain_ne ((Sorting.pairwise_sortBy entries).imp ?_) h
  exact fun hle ↦ Std.isLE_compare.mp hle

/-- The manifest holds the entry of each timeseries it was built from, and finds it by its id. -/
theorem exists_entry_of_build {connectorId : ℤ} {identity : JsValue} {entries : List RawTimeseries}
    {manifest : ConnectorManifest}
    (h : buildObservationVerificationConnectorManifest dateParse connectorId identity entries
      = .ok manifest) {given : RawTimeseries} (hgiven : given ∈ entries) :
    ∃ entry, Normalizes dateParse given entry ∧
      (manifest.timeseries.find? fun e ↦ e.timeseriesId = given.timeseriesId) = some entry := by
  rw [buildObservationVerificationConnectorManifest] at h
  obtain ⟨_, _, h⟩ := Except.bind_eq_ok_iff.mp h
  obtain ⟨normalized, hnormalized, h⟩ := Except.bind_eq_ok_iff.mp h
  obtain ⟨_, hchain, h⟩ := Except.bind_eq_ok_iff.mp h
  obtain ⟨_, _, h⟩ := Except.bind_eq_ok_iff.mp h
  cases h
  obtain ⟨entry, hentry, hok⟩ := Except.exists_output_of_mem hnormalized hgiven
  have hnorm := normalizes_of_ok hok
  have hlt := pairwise_lt_of_isChain (not_not.mp (Except.refuseIf_eq_ok_iff.mp hchain))
  refine ⟨entry, hnorm, ?_⟩
  obtain ⟨before, after, hsplit⟩ := List.append_of_mem (Sorting.mem_sortBy.mpr hentry)
  rw [hsplit] at hlt ⊢
  have hbefore := (List.pairwise_append.mp hlt).2.2
  refine List.find?_eq_some_iff_append.mpr
    ⟨decide_eq_true hnorm.timeseriesId, before, after, rfl, fun other hother ↦ ?_⟩
  have hless := hbefore other hother entry List.mem_cons_self
  rw [hnorm.timeseriesId] at hless
  exact Bool.not_eq_true' _ ▸ decide_eq_false hless.ne

/-- What a timeseries resolves to: the status of its periods, or its default. -/
theorem resolve_of_build {connectorId : ℤ} {identity : JsValue} {entries : List RawTimeseries}
    {manifest : ConnectorManifest}
    (h : buildObservationVerificationConnectorManifest dateParse connectorId identity entries
      = .ok manifest) {given : RawTimeseries} (hgiven : given ∈ entries)
    {periods : List (Period String Status)} (hperiods : given.periods = periods.map raw)
    (hcanonical : ∀ p ∈ periods, HasCanonicalBounds dateParse p) {default : Status}
    (hdefault : given.defaultStatus = .str default.text) {observedAtUtc : JsValue} {text : String}
    (htext : canonicalUtc dateParse observedAtUtc "observedAtUtc" = .ok text)
    (legacyStatus : Option Status) :
    resolveEffectiveObservationVerificationStatus dateParse (some ⟨true, manifest⟩)
        given.timeseriesId observedAtUtc legacyStatus
      = .ok (some ((valueAt periods text).getD default)) := by
  obtain ⟨entry, hentry, hfind⟩ := exists_entry_of_build h hgiven
  obtain ⟨_, hvalue⟩ := valueAt_normalize_raw hcanonical (hperiods ▸ hentry.periods)
  have hstatus : entry.defaultStatus = some default := by
    have hok := hentry.defaultStatus
    rw [hdefault] at hok
    cases default <;> exact (Except.ok.inj hok).symm
  rw [resolveEffectiveObservationVerificationStatus]
  simp only [Option.filter_some, if_true]
  rw [positiveInteger_eq_ok_iff.mpr ⟨hentry.isPositive, rfl⟩, Except.ok_bind, htext, Except.ok_bind,
    hfind]
  dsimp only
  rw [hvalue text, hstatus]
  rcases valueAt periods text with _ | status <;> rfl

end UkAqOps.Verification

import UkAqOps.Verification.Evidence

/-!
# Ratification up to a day

A source that is ratified up to a day has one period, which ends at the next midnight. Texts of
timestamps sort in time order while the years have four digits. The day behind the last one of the
year 9999 is written with a sign, which sorts before every digit, so that the period of a source
that is ratified up to then ends before it begins.
-/

namespace UkAqOps.Verification

open Periods

variable {dateParse : DateParse}

/-! ## The last day with four digits -/

/-- The day number of 9999-12-31. -/
def lastPlainDay : ℤ := 2932896

theorem plainYear_lastPlainDay : PlainYear lastPlainDay := ⟨by decide, by decide⟩

theorem not_plainYear_of_lastPlainDay_lt {day : ℤ} (h : lastPlainDay < day) : ¬PlainYear day := by
  intro hplain
  have hyear : (10000 : ℤ) ≤ (civilFromDays (lastPlainDay + 1)).year := by decide
  exact absurd (hyear.trans (civilFromDays_year_mono (Int.add_one_le_of_lt h)))
    (not_le.mpr (lt_of_le_of_lt hplain.2 (by decide)))

/-- The next day has a year of four digits, except behind the last one. -/
theorem plainYear_succ {day : ℤ} (h : PlainYear day) (hlast : day ≠ lastPlainDay) :
    PlainYear (day + 1) := by
  have hle : day ≤ lastPlainDay := not_lt.mp fun hlt ↦ not_plainYear_of_lastPlainDay_lt hlt h
  exact h.between plainYear_lastPlainDay (by omega) (by omega)

theorem parseIsoDay_eq_lastPlainDay_iff {text : String} {day : ℤ} (h : parseIsoDay text = some day) :
    day = lastPlainDay ↔ text = "9999-12-31" := by
  have hlast : parseIsoDay "9999-12-31" = some lastPlainDay := by decide
  constructor
  · rintro rfl
    rw [← (isoDay_of_parseIsoDay h).1, (isoDay_of_parseIsoDay hlast).1]
  · rintro rfl
    exact Option.some.inj (h.symm.trans hlast)

/-- A day that was read has a year of four digits. -/
theorem plainYear_of_parseIsoDay {text : String} {day : ℤ} (h : parseIsoDay text = some day) :
    PlainYear day := by
  obtain ⟨hday, hplain⟩ := isoDay_of_parseIsoDay h
  have hms : day * dayMs / dayMs = day := Int.mul_ediv_cancel _ (by decide)
  rw [← hms]
  exact plainYear_of_toISOString (by rw [← isoDay, hday]; exact hplain)

/-! ## The period -/

/-- The period of a source that is ratified up to a day. -/
def ratifiedPeriod (day : ℤ) : Period String Status := ⟨none, some (toISOString (day * dayMs + dayMs)), .R⟩

theorem hasCanonicalBounds_ratifiedPeriod (hdates : ReadsTimestamps dateParse) {day : ℤ}
    (h : PlainYear day) : HasCanonicalBounds dateParse (ratifiedPeriod day) := by
  refine ⟨fun a ha ↦ (by cases ha), fun b hb ↦ ?_⟩
  rw [← Option.some.inj hb]
  have hbounds := h.bounds
  refine ⟨_, hdates _ ?_, rfl⟩
  simp only [dayMs, hourMs, minuteMs]
  omega

/-- A single period that is canonical and proper is normalised to itself. -/
theorem normalize_singleton {period : Period String Status}
    (hcanonical : HasCanonicalBounds dateParse period) (hproper : period.isProper = true) :
    normalizeObservationVerificationPeriods dateParse [raw period] = .ok [period] := by
  rw [normalizeObservationVerificationPeriods]
  simp only [List.zipIdx_cons, List.zipIdx_nil, List.foldlM_cons, List.foldlM_nil, normalizePeriod,
    readPeriod_raw hcanonical, Except.ok_bind, hproper]
  rcases period.start with _ | start <;> rfl

theorem toISOString_lt_iff {a b : ℤ} (ha : PlainYear (a / dayMs)) (hb : PlainYear (b / dayMs)) :
    toISOString a < toISOString b ↔ a < b := by
  rw [String.lt_iff_toList_lt, toISOString, toISOString, String.toList_ofList, String.toList_ofList,
    ← textLt_isoChars ha hb, textLt, decide_eq_true_iff]

theorem covers_ratifiedPeriod {day t : ℤ} :
    (ratifiedPeriod day).covers (toISOString t) = true ↔
      toISOString t < toISOString (day * dayMs + dayMs) := by
  rw [ratifiedPeriod, Period.covers, Option.all_none, Option.all_some, Bool.true_and,
    decide_eq_true_iff]

/-- Before the year 10000 the period holds the timestamps up to the end of the day. -/
theorem covers_ratifiedPeriod_iff {day t : ℤ} (hnext : PlainYear (day + 1))
    (ht : PlainYear (t / dayMs)) :
    (ratifiedPeriod day).covers (toISOString t) = true ↔ t / dayMs ≤ day := by
  have hdayMs : (0 : ℤ) < dayMs := by decide
  have hmidnight : day * dayMs + dayMs = (day + 1) * dayMs := by ring
  have hsame : (day * dayMs + dayMs) / dayMs = day + 1 := by
    rw [hmidnight]
    exact Int.mul_ediv_cancel _ hdayMs.ne'
  rw [covers_ratifiedPeriod, toISOString_lt_iff ht (by rw [hsame]; exact hnext), hmidnight,
    ← Int.ediv_lt_iff_lt_mul hdayMs, Int.lt_add_one_iff]

theorem zero_le_of_mem_fixedDigits {width n : ℕ} {c : Char} (h : c ∈ fixedDigits width n) :
    '0' ≤ c := by
  induction width generalizing n with
  | zero => exact absurd h List.not_mem_nil
  | succ width ih =>
    rcases List.mem_append.mp h with h | h
    · exact ih h
    · have hall : ∀ d < 10, '0' ≤ Nat.digitChar d := by decide
      rw [List.mem_singleton.mp h]
      exact hall _ (Nat.mod_lt _ (by decide))

/-- A timestamp with a year of four digits begins with a digit. -/
theorem exists_cons_isoChars {t : ℤ} (ht : PlainYear (t / dayMs)) :
    ∃ c cs, isoChars t = c :: cs ∧ '0' ≤ c := by
  rw [isoChars, isoDayChars, isoYear_of_plainYear ht]
  generalize hdigits : fixedDigits 4 _ = digits
  have hlength : digits.length = 4 := hdigits ▸ fixedDigits_length 4 _
  rcases digits with _ | ⟨c, cs⟩
  · cases hlength
  · exact ⟨c, _, rfl, zero_le_of_mem_fixedDigits (hdigits ▸ List.mem_cons_self)⟩

/-- No timestamp with four digits comes before the midnight behind the year 9999. -/
theorem not_covers_lastPlainDay {t : ℤ} (ht : PlainYear (t / dayMs)) :
    ¬(ratifiedPeriod lastPlainDay).covers (toISOString t) = true := by
  obtain ⟨c, cs, hchars, hc⟩ := exists_cons_isoChars ht
  have hlast : toISOString (lastPlainDay * dayMs + dayMs) = "+010000-01-01T00:00:00.000Z" := by
    decide
  rw [covers_ratifiedPeriod, hlast, String.lt_iff_toList_lt, toISOString, String.toList_ofList,
    hchars]
  intro hlt
  rcases List.cons_lt_cons_iff.mp hlt with hlt | ⟨rfl, _⟩
  · exact absurd (hc.trans_lt hlt) (by decide)
  · exact absurd hc (by decide)

/-! ## What a ratified timeseries resolves to -/

/-- A text that names a day is neither blank nor `never`. -/
theorem ne_of_parseIsoDay {text : String} {day : ℤ} (h : parseIsoDay text = some day) :
    text ≠ "" ∧ ¬isNever text = true := by
  refine ⟨fun hblank ↦ ?_, fun hnever ↦ ?_⟩
  · have hnone : parseIsoDay "" = none := by decide
    rw [hblank, hnone] at h
    cases h
  · have hlength := congrArg List.length (of_decide_eq_true hnever)
    have hfive : "never".toList.length = 5 := by decide
    rw [List.length_map, hfive] at hlength
    rw [parseIsoDay] at h
    split at h
    · rename_i hchars
      rw [hchars] at hlength
      simp only [List.length_cons, List.length_nil] at hlength
      omega
    · cases h

/-- What the builder makes of a source: its one period, behind the provenance it was given. -/
theorem source_of_day (hdates : ReadsTimestamps dateParse) {ratifiedTo : String} {day : ℤ}
    (hday : parseIsoDay (trimText ratifiedTo) = some day) {provenance : JsValue}
    {source : VerificationSource}
    (h : verificationPeriodsFromRatifiedTo dateParse (some ratifiedTo) provenance = .ok source) :
    source.defaultStatus = .P ∧ source.periods = [ratifiedPeriod day] := by
  rw [verificationPeriodsFromRatifiedTo] at h
  obtain ⟨stable, _, h⟩ := Except.bind_eq_ok_iff.mp h
  obtain ⟨hne, hnever⟩ := ne_of_parseIsoDay hday
  dsimp only [Option.map_some] at h
  rw [if_neg hne, if_neg hnever, hday] at h
  obtain ⟨periods, hperiods, h⟩ := Except.bind_eq_ok_iff.mp h
  cases h
  have hnormal := normalize_singleton
    (hasCanonicalBounds_ratifiedPeriod hdates (plainYear_of_parseIsoDay hday)) rfl
  exact ⟨rfl, Except.ok.inj (hperiods.symm.trans hnormal)⟩

/-- The status at every timestamp with a year of four digits follows the date: `R` up to the end of
the day, `P` behind it. -/
def FollowsDate (dateParse : DateParse) (ratifiedTo : String) (day : ℤ) : Prop :=
  ∀ provenance source manifest timeseriesId legacyStatus,
    verificationPeriodsFromRatifiedTo dateParse (some ratifiedTo) provenance = .ok source →
    CarriesSource dateParse source manifest timeseriesId →
    ∀ observedAtUtc t,
      canonicalUtc dateParse observedAtUtc "observedAtUtc" = .ok (toISOString t) →
      PlainYear (t / dayMs) →
      resolveEffectiveObservationVerificationStatus dateParse (some ⟨true, manifest⟩) timeseriesId
        observedAtUtc legacyStatus = .ok (some (if t / dayMs ≤ day then .R else .P))

/-- A timestamp resolves to `R` exactly if the one period covers it. -/
theorem resolve_of_day (hdates : ReadsTimestamps dateParse) {ratifiedTo : String} {day : ℤ}
    (hday : parseIsoDay (trimText ratifiedTo) = some day) {provenance : JsValue}
    {source : VerificationSource}
    (h : verificationPeriodsFromRatifiedTo dateParse (some ratifiedTo) provenance = .ok source)
    {manifest : ConnectorManifest} {timeseriesId : ℤ}
    (hcarries : CarriesSource dateParse source manifest timeseriesId) {observedAtUtc : JsValue}
    {text : String} (htext : canonicalUtc dateParse observedAtUtc "observedAtUtc" = .ok text)
    (legacyStatus : Option Status) :
    resolveEffectiveObservationVerificationStatus dateParse (some ⟨true, manifest⟩) timeseriesId
        observedAtUtc legacyStatus
      = .ok (some (if (ratifiedPeriod day).covers text = true then .R else .P)) := by
  obtain ⟨hdefault, hperiods⟩ := source_of_day hdates hday h
  have hcanonical : ∀ p ∈ source.periods, HasCanonicalBounds dateParse p := by
    rw [hperiods]
    exact List.forall_mem_singleton.mpr
      (hasCanonicalBounds_ratifiedPeriod hdates (plainYear_of_parseIsoDay hday))
  rw [resolve_of_carriesSource hcarries hcanonical htext, hdefault, hperiods, valueAt_cons]
  split <;> rfl

/-- Before the year 10000 every status follows the date. -/
theorem followsDate_of_ne (hdates : ReadsTimestamps dateParse) {ratifiedTo : String} {day : ℤ}
    (hday : parseIsoDay (trimText ratifiedTo) = some day) (hlast : day ≠ lastPlainDay) :
    FollowsDate dateParse ratifiedTo day := by
  intro provenance source manifest timeseriesId legacyStatus h hcarries observedAtUtc t htext ht
  have hnext := plainYear_succ (plainYear_of_parseIsoDay hday) hlast
  rw [resolve_of_day hdates hday h hcarries htext, if_congr (covers_ratifiedPeriod_iff hnext ht) rfl rfl]

/-! ### Up to the last day -/

/-- A timeseries that is ratified up to a day, as the builder of a manifest takes it. -/
def ratifiedTimeseries (source : VerificationSource) : RawTimeseries where
  connectorId := 1
  timeseriesId := 1
  stationId := none
  pollutantCode := .str "pm25"
  sourceVerificationModel := .str ratificationBoundaryModel
  semanticSourceProvenance := source.semanticSourceProvenance
  hasSourceProvenance := false
  defaultStatus := .str "P"
  periods := source.periods.map raw

theorem canonicalSemanticProvenance_ratifiedTo (ratifiedTo label : String) :
    canonicalSemanticProvenance (.obj [("ratified_to", .str ratifiedTo)]) label
      = .ok (.obj [("ratified_to", .str ratifiedTo)]) := by
  have hindex : indexKey "ratified_to" = none := by decide
  have hcanonical : (JsValue.obj [("ratified_to", .str ratifiedTo)]).canonicalize
      = .obj [("ratified_to", .str ratifiedTo)] := by
    simp [JsValue.canonicalize, JsValue.canonicalizeFields, canonicalOrder, Sorting.sortBy, hindex]
  have hkey : "ratified_to" ∉ volatileAcquisitionFields := by decide
  rw [canonicalSemanticProvenance, hcanonical, rejectVolatileAcquisitionEvidence,
    rejectVolatileFields, if_neg hkey]
  rfl

theorem canonicalSemanticProvenance_empty (label : String) :
    canonicalSemanticProvenance (.obj []) label = .ok (.obj []) := rfl

theorem sourceModel_ratificationBoundary :
    trimText (JsValue.str ratificationBoundaryModel).orBlank = ratificationBoundaryModel := by
  decide

theorem canonicalPollutant_pm25 :
    canonicalPollutant (.str "pm25") "timeseries.pollutant_code" = .ok "pm25" := by
  rfl

/-- A source that is ratified up to a day can be published. -/
theorem exists_carriesSource (hdates : ReadsTimestamps dateParse) {ratifiedTo : String} {day : ℤ}
    (hday : parseIsoDay (trimText ratifiedTo) = some day) :
    ∃ source manifest,
      verificationPeriodsFromRatifiedTo dateParse (some ratifiedTo) (.obj []) = .ok source ∧
      CarriesSource dateParse source manifest 1 := by
  have hnormal := normalize_singleton
    (hasCanonicalBounds_ratifiedPeriod hdates (plainYear_of_parseIsoDay hday)) rfl
  obtain ⟨hne, hnever⟩ := ne_of_parseIsoDay hday
  let source : VerificationSource := ⟨ratificationBoundaryModel,
    .obj [("ratified_to", .str (trimText ratifiedTo))], .P, [ratifiedPeriod day]⟩
  let entry : TimeseriesEntry := ⟨1, 1, none, "pm25", ratificationBoundaryModel,
    .obj [("ratified_to", .str (trimText ratifiedTo))], some .P, [ratifiedPeriod day]⟩
  have hsource : verificationPeriodsFromRatifiedTo dateParse (some ratifiedTo) (.obj [])
      = .ok source := by
    rw [verificationPeriodsFromRatifiedTo, canonicalSemanticProvenance_empty, Except.ok_bind]
    dsimp only [Option.map_some]
    rw [if_neg hne, if_neg hnever, hday]
    exact Except.bind_eq_ok_iff.mpr ⟨_, hnormal, rfl⟩
  have hentry : normalizeTimeseriesEntry dateParse 1 (ratifiedTimeseries source) = .ok entry := by
    have hmodel : ¬trimText (JsValue.str ratificationBoundaryModel).orBlank
        ∉ [ratificationBoundaryModel, perObservationModel] := by
      rw [sourceModel_ratificationBoundary]
      exact not_not.mpr List.mem_cons_self
    refine Except.bind_eq_ok_iff.mpr ⟨1, rfl, Except.bind_eq_ok_iff.mpr ⟨(), rfl, ?_⟩⟩
    refine Except.bind_eq_ok_iff.mpr ⟨(), Except.refuseIf_neg hmodel,
      Except.bind_eq_ok_iff.mpr ⟨(), rfl, ?_⟩⟩
    refine Except.bind_eq_ok_iff.mpr ⟨1, rfl, Except.bind_eq_ok_iff.mpr ⟨none, rfl, ?_⟩⟩
    refine Except.bind_eq_ok_iff.mpr ⟨"pm25", canonicalPollutant_pm25,
      Except.bind_eq_ok_iff.mpr ⟨_, canonicalSemanticProvenance_ratifiedTo _ _, ?_⟩⟩
    refine Except.bind_eq_ok_iff.mpr ⟨some .P, rfl, Except.bind_eq_ok_iff.mpr ⟨_, hnormal, ?_⟩⟩
    exact congrArg (fun model ↦ Except.ok (⟨1, 1, none, "pm25", model, _, _, _⟩ : TimeseriesEntry))
      sourceModel_ratificationBoundary
  have hentries : [ratifiedTimeseries source].mapM (normalizeTimeseriesEntry dateParse 1)
      = .ok [entry] :=
    (Except.mapM_eq_ok_iff _ _ _).mpr (List.Forall₂.cons hentry List.Forall₂.nil)
  refine ⟨source, ⟨1, .obj [], [entry]⟩, hsource, 1, .obj [], [ratifiedTimeseries source],
    ratifiedTimeseries source, ?_, List.mem_singleton_self _, rfl, rfl, rfl, rfl, rfl⟩
  refine Except.bind_eq_ok_iff.mpr ⟨1, rfl, Except.bind_eq_ok_iff.mpr ⟨_, hentries, ?_⟩⟩
  exact Except.bind_eq_ok_iff.mpr ⟨(), rfl, Except.bind_eq_ok_iff.mpr
    ⟨.obj [], canonicalSemanticProvenance_empty _, rfl⟩⟩

/-- Ratified up to the last day of the year 9999, no timestamp is ratified: the epoch is not. -/
theorem not_followsDate_lastPlainDay (hdates : ReadsTimestamps dateParse) {ratifiedTo : String}
    (hday : parseIsoDay (trimText ratifiedTo) = some lastPlainDay) :
    ¬FollowsDate dateParse ratifiedTo lastPlainDay := by
  intro hfollows
  obtain ⟨source, manifest, hsource, hcarries⟩ := exists_carriesSource hdates hday
  have hplain : PlainYear ((0 : ℤ) / dayMs) := ⟨by decide, by decide⟩
  have htext : canonicalUtc dateParse (.str (toISOString 0)) "observedAtUtc"
      = .ok (toISOString 0) := canonicalUtc_str ⟨0, hdates 0 (by decide), rfl⟩
  have hresolve := hfollows _ source manifest 1 none hsource hcarries _ 0 htext hplain
  rw [resolve_of_day hdates hday hsource hcarries htext, if_neg (not_covers_lastPlainDay hplain),
    if_pos (by decide)] at hresolve
  cases hresolve

/-- **Every status follows the date, unless the date is the last one of the year 9999.** -/
theorem followsDate_iff (hdates : ReadsTimestamps dateParse) {ratifiedTo : String} {day : ℤ}
    (hday : parseIsoDay (trimText ratifiedTo) = some day) :
    FollowsDate dateParse ratifiedTo day ↔ trimText ratifiedTo ≠ "9999-12-31" := by
  rw [Ne, ← parseIsoDay_eq_lastPlainDay_iff hday]
  constructor
  · rintro hfollows rfl
    exact not_followsDate_lastPlainDay hdates hday hfollows
  · exact followsDate_of_ne hdates hday

theorem followsDate_leapDay : FollowsDate readTimestamp "2024-02-29" 19782 :=
  (followsDate_iff readsTimestamps_readTimestamp (by decide)).mpr (by decide)

/-- Up to 9999-12-31, the statuses do not follow the date. -/
theorem not_followsDate_farFuture :
    parseIsoDay (trimText "9999-12-31") = some 2932896 ∧
      ¬FollowsDate readTimestamp "9999-12-31" 2932896 :=
  ⟨by decide, not_followsDate_lastPlainDay readsTimestamps_readTimestamp (by decide)⟩

end UkAqOps.Verification

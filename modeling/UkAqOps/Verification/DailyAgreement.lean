import UkAqOps.Verification.Canonicity
import UkAqOps.Verification.DailyStatus

/-!
# The first and the last timestamp against all rows

The two ways to the status of a day see different things: between the first and the last row a
provisional period may hold no row, and a row may lie outside every period. They agree exactly when
neither of these decides the status.
-/

namespace UkAqOps.Verification

open Periods

variable {dateParse : DateParse} {numberOf : NumberOf}

/-! ## The status of an instant -/

/-- The status that a timeseries has at an instant, if it has one. -/
def statusAt (timeseries : TimeseriesEntry) (observedAt : String) : Option Status :=
  (valueAt timeseries.periods observedAt).or timeseries.defaultStatus

/-- What a validated manifest guarantees of an entry. -/
structure TimeseriesEntry.Validated (entry : TimeseriesEntry) : Prop where
  timeseriesId : isPositiveSafeInteger entry.timeseriesId = true
  periods : Normal entry.periods

theorem validated_of_normalizeTimeseriesValue {canonical : Bool} {connectorId : ℤ} {raw : JsValue}
    {entry : TimeseriesEntry}
    (h : normalizeTimeseriesValue dateParse numberOf canonical connectorId raw = .ok entry) :
    entry.Validated := by
  rw [normalizeTimeseriesValue] at h
  obtain ⟨_, -, h⟩ := Except.bind_eq_ok_iff.mp h
  obtain ⟨_, -, h⟩ := Except.bind_eq_ok_iff.mp h
  obtain ⟨_, -, h⟩ := Except.bind_eq_ok_iff.mp h
  obtain ⟨_, -, h⟩ := Except.bind_eq_ok_iff.mp h
  obtain ⟨_, -, h⟩ := Except.bind_eq_ok_iff.mp h
  obtain ⟨timeseriesId, hid, h⟩ := Except.bind_eq_ok_iff.mp h
  obtain ⟨_, -, h⟩ := Except.bind_eq_ok_iff.mp h
  obtain ⟨_, -, h⟩ := Except.bind_eq_ok_iff.mp h
  obtain ⟨_, -, h⟩ := Except.bind_eq_ok_iff.mp h
  obtain ⟨_, -, h⟩ := Except.bind_eq_ok_iff.mp h
  obtain ⟨periods, hperiods, h⟩ := Except.bind_eq_ok_iff.mp h
  cases h
  refine ⟨?_, (normal_of_normalizePeriodValues hperiods).1⟩
  rw [positiveIntegerOf] at hid
  split at hid
  · cases hid
  · obtain ⟨hpositive, rfl⟩ := positiveInteger_eq_ok_iff.mp hid
    exact hpositive

theorem validated_of_manifest {raw : JsValue} {manifest : ConnectorManifest}
    (h : validateObservationVerificationConnectorManifest dateParse numberOf raw = .ok manifest) :
    ∀ entry ∈ manifest.timeseries, entry.Validated := by
  rw [validateObservationVerificationConnectorManifest] at h
  obtain ⟨_, -, h⟩ := Except.bind_eq_ok_iff.mp h
  obtain ⟨_, -, h⟩ := Except.bind_eq_ok_iff.mp h
  obtain ⟨normalized, hnormalized, h⟩ := Except.bind_eq_ok_iff.mp h
  obtain ⟨_, -, h⟩ := Except.bind_eq_ok_iff.mp h
  obtain ⟨_, -, h⟩ := Except.bind_eq_ok_iff.mp h
  cases h
  intro entry hentry
  rw [normalizeTimeseriesValues] at hnormalized
  obtain ⟨entries, hentries, hsorted⟩ := Except.bind_eq_ok_iff.mp hnormalized
  rw [sortTimeseries] at hsorted
  obtain ⟨_, -, hsorted⟩ := Except.bind_eq_ok_iff.mp hsorted
  cases hsorted
  obtain ⟨given, -, hgiven⟩ :=
    Except.exists_input_of_mem hentries (Sorting.mem_sortBy.mp hentry)
  exact validated_of_normalizeTimeseriesValue hgiven

section Lookup

variable {authority : Option Authority} {timeseriesId : ℤ} {timeseries : TimeseriesEntry}

/-- The entry of an authority that may be asked. -/
theorem exists_of_aurnVerificationTimeseries
    (h : aurnVerificationTimeseries authority timeseriesId = .ok timeseries) :
    ∃ given, authority = some given ∧ given.overlayAuthoritative = true ∧
      (given.manifest.timeseries.find? fun entry ↦ entry.timeseriesId = timeseriesId)
        = some timeseries := by
  rw [aurnVerificationTimeseries] at h
  split at h
  · cases h
  · rename_i given hgiven
    obtain ⟨hauthority, hoverlay⟩ := Option.filter_eq_some_iff.mp hgiven
    rw [Bool.and_eq_true] at hoverlay
    split at h
    · cases h
    · rename_i entry hentry
      split at h
      · cases h
      · rw [← Except.ok.inj h]
        exact ⟨given, hauthority, hoverlay.1, hentry⟩

/-- A canonical timestamp has the status of its entry. -/
theorem resolve_eq_statusAt (h : aurnVerificationTimeseries authority timeseriesId = .ok timeseries)
    (hvalidated : timeseries.Validated) {observedAt : String}
    (hcanonical : IsCanonical dateParse observedAt) :
    resolveEffectiveObservationVerificationStatus dateParse authority timeseriesId (.str observedAt)
      none = .ok (statusAt timeseries observedAt) := by
  obtain ⟨given, rfl, hoverlay, hfind⟩ := exists_of_aurnVerificationTimeseries h
  have hid : timeseries.timeseriesId = timeseriesId := by simpa using List.find?_some hfind
  have hpositive := hvalidated.timeseriesId
  rw [hid] at hpositive
  rw [resolveEffectiveObservationVerificationStatus, Option.filter_some, if_pos hoverlay]
  dsimp only
  rw [positiveInteger_eq_ok_iff.mpr ⟨hpositive, rfl⟩, Except.ok_bind, canonicalUtc_str hcanonical,
    Except.ok_bind, hfind]
  rfl

/-! ## The loop over the rows -/

variable (h : aurnVerificationTimeseries authority timeseriesId = .ok timeseries)
variable (hvalidated : timeseries.Validated) {rows : List String}

include h hvalidated in
theorem classifyRows_cons {row : String} {rest : List JsValue} {sawRatified : Bool}
    (hcanonical : IsCanonical dateParse row) :
    classifyRows dateParse authority timeseriesId sawRatified (.str row :: rest) =
      match statusAt timeseries row with
      | some .P => .ok (some .P)
      | some .R => classifyRows dateParse authority timeseriesId true rest
      | none => .error "verification overlay cannot classify a boundary-day observation" := by
  have hresolve := resolve_eq_statusAt h hvalidated hcanonical
  rcases hstatus : statusAt timeseries row with _ | _ | _ <;>
    simp only [classifyRows, hresolve, hstatus, Except.ok_bind]

include h hvalidated in
/-- The rows are ratified when each of them is. -/
theorem classifyRows_ratified_iff (hrows : ∀ row ∈ rows, IsCanonical dateParse row)
    {sawRatified : Bool} (hsaw : sawRatified = true ∨ rows ≠ []) :
    classifyRows dateParse authority timeseriesId sawRatified (rows.map .str) = .ok (some .R) ↔
      ∀ row ∈ rows, statusAt timeseries row = some .R := by
  induction rows generalizing sawRatified with
  | nil =>
    obtain rfl : sawRatified = true := hsaw.resolve_right fun hne ↦ hne rfl
    exact ⟨fun _ row hrow ↦ absurd hrow List.not_mem_nil, fun _ ↦ rfl⟩
  | cons row rest ih =>
    obtain ⟨hrow, hrest⟩ := List.forall_mem_cons.mp hrows
    rw [List.map_cons, classifyRows_cons h hvalidated hrow, List.forall_mem_cons]
    rcases hstatus : statusAt timeseries row with _ | _ | _
    · exact ⟨fun hok ↦ (nomatch hok), fun hall ↦ (nomatch hall.1)⟩
    · exact ⟨fun hok ↦ (nomatch hok), fun hall ↦ (nomatch hall.1)⟩
    · rw [and_iff_right rfl]
      exact ih hrest (Or.inl rfl)

/-- A row is provisional, and every row before it is ratified. -/
def FirstDoubtProvisional (timeseries : TimeseriesEntry) (rows : List String) : Prop :=
  ∃ before row after, rows = before ++ row :: after ∧
    (∀ other ∈ before, statusAt timeseries other = some .R) ∧ statusAt timeseries row = some .P

theorem firstDoubtProvisional_cons {row : String} {rest : List String} :
    FirstDoubtProvisional timeseries (row :: rest) ↔ statusAt timeseries row = some .P ∨
      statusAt timeseries row = some .R ∧ FirstDoubtProvisional timeseries rest := by
  constructor
  · rintro ⟨_ | ⟨first, before⟩, other, after, heq, hbefore, hother⟩
    · obtain ⟨rfl, -⟩ := List.cons.inj heq
      exact Or.inl hother
    · obtain ⟨rfl, hrest⟩ := List.cons.inj heq
      obtain ⟨hfirst, hbefore⟩ := List.forall_mem_cons.mp hbefore
      exact Or.inr ⟨hfirst, before, other, after, hrest, hbefore, hother⟩
  · rintro (hrow | ⟨hrow, before, other, after, rfl, hbefore, hother⟩)
    · exact ⟨[], row, rest, rfl, fun other hmem ↦ absurd hmem List.not_mem_nil, hrow⟩
    · exact ⟨row :: before, other, after, rfl, List.forall_mem_cons.mpr ⟨hrow, hbefore⟩, hother⟩

include h hvalidated in
theorem classifyRows_provisional_iff (hrows : ∀ row ∈ rows, IsCanonical dateParse row)
    {sawRatified : Bool} :
    classifyRows dateParse authority timeseriesId sawRatified (rows.map .str) = .ok (some .P) ↔
      FirstDoubtProvisional timeseries rows := by
  induction rows generalizing sawRatified with
  | nil =>
    constructor
    · intro hok
      rcases sawRatified <;> cases hok
    · rintro ⟨before, row, after, heq, -⟩
      simp at heq
  | cons row rest ih =>
    obtain ⟨hrow, hrest⟩ := List.forall_mem_cons.mp hrows
    rw [List.map_cons, classifyRows_cons h hvalidated hrow, firstDoubtProvisional_cons]
    rcases hstatus : statusAt timeseries row with _ | _ | _
    · exact ⟨fun hok ↦ (nomatch hok), fun hor ↦ hor.elim (fun hp ↦ nomatch hp)
        fun hr ↦ nomatch hr.1⟩
    · exact ⟨fun _ ↦ Or.inl rfl, fun _ ↦ rfl⟩
    · refine (ih hrest).trans ⟨fun hlater ↦ Or.inr ⟨rfl, hlater⟩, fun hor ↦ ?_⟩
      exact hor.elim (fun hp ↦ nomatch hp) And.right

end Lookup

/-! ## The two ends -/

/-- The first row has a status, and this decides for all rows: if it is provisional, at once. If it
is ratified and a provisional period starts up to the last row, some row is provisional before any
row is without a status. And if no such period starts, no row lies outside the periods, unless the
default is ratified. -/
def EndpointsSuffice (timeseries : TimeseriesEntry) (rows : List String) (first last : String) :
    Prop :=
  statusAt timeseries first = some .P ∨
    statusAt timeseries first = some .R ∧
      if startsProvisional timeseries first last = true then FirstDoubtProvisional timeseries rows
      else ∀ row ∈ rows, (∃ period ∈ timeseries.periods, period.covers row = true) ∨
        timeseries.defaultStatus = some .R

/-- Where the first row is ratified and no provisional period starts up to the last row, a row is
ratified exactly if it lies in a period or the default is ratified. -/
theorem statusAt_eq_ratified_iff {timeseries : TimeseriesEntry} (hperiods : Normal timeseries.periods)
    {first last row : String} (hfirst : statusAt timeseries first = some .R)
    (hstarts : ¬startsProvisional timeseries first last = true) (hle : first ≤ row)
    (hlast : row ≤ last) : statusAt timeseries row = some .R ↔
      (∃ period ∈ timeseries.periods, period.covers row = true) ∨
        timeseries.defaultStatus = some .R := by
  by_cases hcovered : ∃ period ∈ timeseries.periods, period.covers row = true
  · refine ⟨fun _ ↦ Or.inl hcovered, fun _ ↦ ?_⟩
    obtain ⟨period, hperiod, hcovers⟩ := hcovered
    rw [statusAt, hperiods.valueAt_of_covers hperiod hcovers, Option.some_or]
    by_contra hvalue
    have hprovisional : period.value = .P := by
      rcases hstatus : period.value with _ | _
      · rfl
      · rw [hstatus] at hvalue
        exact absurd rfl hvalue
    -- A provisional period that covers the row but not the first one starts between the two.
    by_cases hboth : period.covers first = true
    · rw [statusAt, hperiods.valueAt_of_covers hperiod hboth, Option.some_or, hprovisional] at hfirst
      cases hfirst
    · rw [Bool.not_eq_true] at hboth
      obtain ⟨start, hstart, hlt, hstartLe⟩ := Period.exists_start hle hboth hcovers
      refine hstarts (List.any_eq_true.mpr ⟨period, hperiod, ?_⟩)
      rw [hprovisional, hstart, Option.any_some, decide_eq_true hlt,
        decide_eq_true (hstartLe.trans hlast)]
      rfl
  · rw [or_iff_right hcovered, statusAt, valueAt_eq_none, Option.none_or]
    exact fun period hperiod ↦ Bool.not_eq_true _ ▸ fun hcovers ↦ hcovered ⟨period, hperiod, hcovers⟩

/-- Timestamps of one day are in the order of their texts. -/
theorem toISOString_le_of_le {day a b : ℤ} (ha : a / dayMs = day) (hb : b / dayMs = day)
    (h : a ≤ b) : toISOString a ≤ toISOString b := by
  rcases h.eq_or_lt with rfl | hlt
  · exact le_rfl
  · have hdayMs : (0 : ℤ) < dayMs := by decide
    have hea := Int.emod_add_mul_ediv a dayMs
    have heb := Int.emod_add_mul_ediv b dayMs
    rw [ha] at hea
    rw [hb] at heb
    refine le_of_lt (String.lt_iff_toList_lt.mpr ?_)
    rw [toISOString, toISOString, String.toList_ofList, String.toList_ofList, isoChars, isoChars,
      ha, hb]
    exact List.append_left_lt (isoTimeChars_lt (Int.emod_nonneg _ hdayMs.ne')
      (Int.emod_lt_of_pos _ hdayMs) (by omega))

theorem isCanonical_toISOString (hdates : ReadsTimestamps dateParse) (t : TimeValue) :
    IsCanonical dateParse (toISOString t) := ⟨t, hdates t t.property, rfl⟩

theorem isoOrNull_toISOString (hdates : ReadsTimestamps dateParse) (t : TimeValue) :
    isoOrNull dateParse (toISOString t) = some (toISOString t) := by
  rw [isoOrNull, trimText_toISOString, if_neg (toISOString_ne_empty _), hdates t t.property,
    Option.map_some]

section Endpoints

variable {authority : Option Authority} {timeseriesId : ℤ} {timeseries : TimeseriesEntry}

/-- The status of a day from its ends. -/
theorem derive_daily_eq (hdates : ReadsTimestamps dateParse)
    (h : aurnVerificationTimeseries authority timeseriesId = .ok timeseries)
    (hvalidated : timeseries.Validated) {first last : TimeValue}
    (hle : toISOString first ≤ toISOString last) :
    deriveAurnDailyValidationStatus dateParse authority timeseriesId (toISOString first)
        (toISOString last) =
      match statusAt timeseries (toISOString first) with
      | some .P => .ok (some .P)
      | some .R => .ok (some
          (if startsProvisional timeseries (toISOString first) (toISOString last) then .P else .R))
      | none => .error "verification overlay cannot classify the first daily observation" := by
  rw [deriveAurnDailyValidationStatus, h, Except.ok_bind, isoOrNull_toISOString hdates,
    isoOrNull_toISOString hdates]
  have hresolve := resolve_eq_statusAt h hvalidated (isCanonical_toISOString hdates first)
  rcases hstatus : statusAt timeseries (toISOString first) with _ | _ | _ <;>
    simp only [if_neg (not_lt.mpr hle), hresolve, hstatus, Except.ok_bind]

/-- What the ends give is what the loop over the rows gives exactly when the ends suffice. -/
theorem ends_eq_classifyRows_iff
    (h : aurnVerificationTimeseries authority timeseriesId = .ok timeseries)
    (hvalidated : timeseries.Validated) {first last : String} {rest : List String}
    (hcanonical : ∀ row ∈ first :: rest, IsCanonical dateParse row)
    (hbetween : ∀ row ∈ first :: rest, first ≤ row ∧ row ≤ last) :
    (match statusAt timeseries first with
      | some .P => .ok (some .P)
      | some .R => .ok (some (if startsProvisional timeseries first last then .P else .R))
      | none => .error "verification overlay cannot classify the first daily observation") =
        classifyRows dateParse authority timeseriesId false ((first :: rest).map .str) ↔
      EndpointsSuffice timeseries (first :: rest) first last := by
  rw [EndpointsSuffice]
  rcases hstatus : statusAt timeseries first with _ | _ | _
  · rw [List.map_cons, classifyRows_cons h hvalidated (hcanonical first List.mem_cons_self), hstatus]
    simp
  · rw [List.map_cons, classifyRows_cons h hvalidated (hcanonical first List.mem_cons_self), hstatus]
    simp
  · rw [or_iff_right (by simp), and_iff_right rfl]
    by_cases hstarts : startsProvisional timeseries first last = true
    · rw [if_pos hstarts, if_pos hstarts, ← classifyRows_provisional_iff h hvalidated hcanonical]
      exact eq_comm
    · rw [if_neg hstarts, if_neg hstarts]
      refine eq_comm.trans ((classifyRows_ratified_iff h hvalidated hcanonical
        (Or.inr (List.cons_ne_nil _ _))).trans ?_)
      refine forall₂_congr fun row hrow ↦ ?_
      exact statusAt_eq_ratified_iff hvalidated.periods hstatus hstarts (hbetween row hrow).1
        (hbetween row hrow).2

theorem daily_eq_partial_of_entry_iff (hdates : ReadsTimestamps dateParse)
    (h : aurnVerificationTimeseries authority timeseriesId = .ok timeseries)
    (hvalidated : timeseries.Validated) {day : ℤ} {first : TimeValue} {rest : List TimeValue}
    (hday : ∀ row ∈ first :: rest, row.val / dayMs = day)
    (hsorted : (first :: rest).Pairwise (· ≤ ·)) :
    deriveAurnDailyValidationStatus dateParse authority timeseriesId (toISOString first.val)
          (toISOString ((first :: rest).getLast (List.cons_ne_nil _ _)).val) =
        deriveAurnPartialDayValidationStatus dateParse authority timeseriesId
          ((first :: rest).map fun row ↦ .str (toISOString row.val)) ↔
      EndpointsSuffice timeseries ((first :: rest).map fun row ↦ toISOString row.val)
        (toISOString first.val)
        (toISOString ((first :: rest).getLast (List.cons_ne_nil _ _)).val) := by
  have hcanonical : ∀ text ∈ (first :: rest).map fun row ↦ toISOString row.val,
      IsCanonical dateParse text := by
    intro text htext
    obtain ⟨row, -, rfl⟩ := List.mem_map.mp htext
    exact isCanonical_toISOString hdates row
  have hbetween : ∀ text ∈ (first :: rest).map fun row ↦ toISOString row.val,
      toISOString first.val ≤ text ∧
        text ≤ toISOString ((first :: rest).getLast (List.cons_ne_nil _ _)).val := by
    intro text htext
    obtain ⟨row, hrow, rfl⟩ := List.mem_map.mp htext
    exact ⟨toISOString_le_of_le (hday _ List.mem_cons_self) (hday row hrow)
        (hsorted.rel_head hrow),
      toISOString_le_of_le (hday row hrow) (hday _ (List.getLast_mem _))
        (hsorted.rel_getLast hrow)⟩
  have hloop : deriveAurnPartialDayValidationStatus dateParse authority
      timeseriesId ((first :: rest).map fun row ↦ .str (toISOString row.val)) =
      classifyRows dateParse authority timeseriesId false
        (((first :: rest).map fun row ↦ toISOString row.val).map .str) := by
    rw [deriveAurnPartialDayValidationStatus, h, Except.ok_bind, List.map_map]
    rfl
  rw [hloop, derive_daily_eq hdates h hvalidated (hbetween _ List.mem_cons_self).2]
  exact ends_eq_classifyRows_iff h hvalidated hcanonical hbetween

/-- **The first and the last timestamp of a day give the status, or the error, that all its rows give
exactly when they suffice.** -/
theorem daily_eq_partial_iff (hdates : ReadsTimestamps dateParse) {raw : JsValue}
    {manifest : ConnectorManifest}
    (hmanifest : validateObservationVerificationConnectorManifest dateParse numberOf raw
      = .ok manifest) (timeseriesId : ℤ) {day : ℤ} {rows : List TimeValue} (hne : rows ≠ [])
    (hday : ∀ row ∈ rows, row.val / dayMs = day) (hsorted : rows.Pairwise (· ≤ ·)) :
    deriveAurnDailyValidationStatus dateParse (some ⟨true, manifest⟩) timeseriesId
          (toISOString (rows.head hne).val) (toISOString (rows.getLast hne).val) =
        deriveAurnPartialDayValidationStatus dateParse (some ⟨true, manifest⟩) timeseriesId
          (rows.map fun row ↦ .str (toISOString row.val)) ↔
      ∀ timeseries, aurnVerificationTimeseries (some ⟨true, manifest⟩) timeseriesId
          = .ok timeseries →
        EndpointsSuffice timeseries (rows.map fun row ↦ toISOString row.val)
          (toISOString (rows.head hne).val) (toISOString (rows.getLast hne).val) := by
  rcases haurn : aurnVerificationTimeseries (some ⟨true, manifest⟩) timeseriesId with e | timeseries
  · refine ⟨fun _ timeseries h ↦ (nomatch h), fun _ ↦ ?_⟩
    rw [deriveAurnDailyValidationStatus, deriveAurnPartialDayValidationStatus, haurn]
    exact Eq.trans (b := .error e) rfl rfl
  obtain ⟨given, hgiven, -, hfind⟩ := exists_of_aurnVerificationTimeseries haurn
  obtain rfl := Option.some.inj hgiven
  have hvalidated := validated_of_manifest hmanifest timeseries (List.mem_of_find?_eq_some hfind)
  obtain ⟨first, rest, rfl⟩ := List.exists_cons_of_ne_nil hne
  refine (daily_eq_partial_of_entry_iff hdates haurn hvalidated hday hsorted).trans
    ⟨fun hsuffice timeseries' heq ↦ ?_, fun hall ↦ hall timeseries rfl⟩
  rw [← Except.ok.inj heq]
  exact hsuffice

end Endpoints

/-! ## A day that is ratified up to noon -/

/-- Ratified before noon, and provisional where there is no period. -/
def noonSeries : TimeseriesEntry :=
  ⟨1, 7, none, "pm25", perObservationModel, .obj [], some .P,
    [⟨none, some "2024-01-01T12:00:00.000Z", .R⟩]⟩

def noonManifest : ConnectorManifest := ⟨1, .obj [], [noonSeries]⟩

theorem isCanonical_noon : IsCanonical readTimestamp "2024-01-01T12:00:00.000Z" := by
  have htext : toISOString 1704110400000 = "2024-01-01T12:00:00.000Z" := by decide +kernel
  exact ⟨1704110400000,
    htext ▸ readsTimestamps_readTimestamp 1704110400000 (by decide), htext⟩

theorem validate_noonManifest : validateObservationVerificationConnectorManifest readTimestamp
    decimalNumber noonManifest.toValue.reread = .ok noonManifest := by
  have hprovenance : CanonicalProvenance id (.obj []) :=
    ⟨rfl, ⟨trivial, by simp⟩, rfl, trivial⟩
  have hentry : CanonicalEntry readTimestamp id 1 noonSeries := by
    refine ⟨rfl, by decide, by decide, fun id hid ↦ (by cases hid), by decide, by decide,
      hprovenance, Normal.concat normal_nil rfl (by simp), ?_⟩
    refine List.forall_mem_singleton.mpr ⟨fun a ha ↦ (by cases ha), fun b hb ↦ ?_⟩
    exact Option.some.inj hb ▸ isCanonical_noon
  exact @validate_reread readTimestamp decimalNumber id noonManifest readsIds_decimalNumber
    ⟨by decide, hprovenance, List.forall_mem_singleton.mpr hentry, List.pairwise_singleton _ _⟩

/-- A time of the day in hours. -/
def hourOfNewYear (hour : ℕ) (h : hour < 24) : TimeValue :=
  ⟨1704067200000 + hour * hourMs, by
    simp only [IsTimeValue, hourMs, minuteMs]
    omega⟩

/-- In the morning both ways give ratified. -/
theorem daily_eq_partial_sample :
    deriveAurnDailyValidationStatus readTimestamp (some ⟨true, noonManifest⟩) 7
        (toISOString (hourOfNewYear 6 (by decide)).val)
        (toISOString (hourOfNewYear 7 (by decide)).val) =
      deriveAurnPartialDayValidationStatus readTimestamp (some ⟨true, noonManifest⟩) 7
        ([hourOfNewYear 6 (by decide), hourOfNewYear 7 (by decide)].map fun row ↦
          .str (toISOString row.val)) := by
  refine (@daily_eq_partial_iff readTimestamp decimalNumber readsTimestamps_readTimestamp _ _
    validate_noonManifest 7 19723 [hourOfNewYear 6 (by decide), hourOfNewYear 7 (by decide)]
    (by simp) (by decide) (by decide)).mpr fun timeseries h ↦ ?_
  have hseries : timeseries = noonSeries := by
    have hfound : aurnVerificationTimeseries (some ⟨true, noonManifest⟩) 7 = .ok noonSeries := rfl
    exact (Except.ok.inj (hfound.symm.trans h)).symm
  rw [hseries]
  refine Or.inr ⟨by decide +kernel, ?_⟩
  rw [if_neg (by decide +kernel)]
  exact fun row hrow ↦ Or.inl ⟨_, List.mem_cons_self, by
    revert row
    decide +kernel⟩

/-- On both sides of noon the ends give ratified and the rows give provisional. -/
theorem daily_ne_partial_of_gap :
    ¬∀ (dateParse : DateParse) (numberOf : NumberOf) (raw : JsValue) (manifest : ConnectorManifest)
      (timeseriesId day : ℤ) (rows : List TimeValue) (hne : rows ≠ []), ReadsTimestamps dateParse →
      validateObservationVerificationConnectorManifest dateParse numberOf raw = .ok manifest →
      (∀ row ∈ rows, row.val / dayMs = day) → rows.Pairwise (· ≤ ·) →
      deriveAurnDailyValidationStatus dateParse (some ⟨true, manifest⟩) timeseriesId
          (toISOString (rows.head hne)) (toISOString (rows.getLast hne)) =
        deriveAurnPartialDayValidationStatus dateParse (some ⟨true, manifest⟩) timeseriesId
          (rows.map fun row ↦ .str (toISOString row.val)) := by
  intro hall
  have hsame := hall readTimestamp decimalNumber noonManifest.toValue.reread noonManifest 7 19723
    [hourOfNewYear 6 (by decide), hourOfNewYear 18 (by decide)] (by simp)
    readsTimestamps_readTimestamp validate_noonManifest (by decide) (by decide)
  have hvalidated := validated_of_manifest validate_noonManifest noonSeries List.mem_cons_self
  have hfound : aurnVerificationTimeseries (some ⟨true, noonManifest⟩) 7 = .ok noonSeries := rfl
  have hsuffice := (@daily_eq_partial_of_entry_iff readTimestamp _ 7 _
    readsTimestamps_readTimestamp hfound hvalidated 19723 (hourOfNewYear 6 (by decide))
    [hourOfNewYear 18 (by decide)] (by decide) (by decide)).mp hsame
  rcases hsuffice with hfirst | ⟨-, hrest⟩
  · exact absurd hfirst (by decide +kernel)
  · rw [if_neg (by decide +kernel)] at hrest
    have hlast := hrest (toISOString (hourOfNewYear 18 (by decide)).val) (by simp)
    exact absurd hlast (by decide +kernel)

end UkAqOps.Verification

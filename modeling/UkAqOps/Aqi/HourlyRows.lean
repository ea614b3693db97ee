import UkAqOps.Aqi.TextOrder
import Mathlib.Data.Rat.Defs
import Mathlib.Algebra.Order.Ring.Rat
import Mathlib.Algebra.Order.BigOperators.Group.List

/-!
# The rows that observations yield

What the rows of a list of observations should be is said over the observations themselves: the means
of the observed hours of a timeseries, and for particulates the means of those in a window of 24
hours. The values are exact. The rows are that if and only if the observed hours of every particulate
timeseries sort in time order.
-/

namespace UkAqOps.Aqi

open Sorting

variable {ν : Type} [Numeric ν] {host : Host} {rows : List (SourceRow ν)}

/-! ## The observed hours -/

/-- The observations that count: of those of one timeseries and instant the last one. -/
def winningObservations (host : Host) (rows : List (SourceRow ν)) : List (Observation ν) :=
  (keptObservations host rows).pwFilter fun o o' ↦ o.key ≠ o'.key

/-- The observations of an hour of a timeseries. -/
def hourObservations (host : Host) (rows : List (SourceRow ν)) (timeseriesId hour : ℤ) :
    List (Observation ν) :=
  (winningObservations host rows).filter fun o ↦ o.hourKey = (timeseriesId, hour)

/-- The hours of a timeseries with an observation. -/
def observedHours (host : Host) (rows : List (SourceRow ν)) (timeseriesId : ℤ) : Finset ℤ :=
  (((keptObservations host rows).filter fun o ↦ o.timeseriesId = timeseriesId).map
    fun o ↦ hourOf o.observedAt).toFinset

def IsParticulate (host : Host) (rows : List (SourceRow ν)) (timeseriesId : ℤ) : Prop :=
  ∃ o ∈ keptObservations host rows, o.timeseriesId = timeseriesId ∧ o.pollutantCode ≠ .no2

/-- An hour between the observed ones that is not observed, but 18 of the 24 that end with it are. -/
def IsFilledHour (hours : Finset ℤ) (hour : ℤ) : Prop :=
  hour % hourMs = 0 ∧ hour ∉ hours ∧ (∃ before ∈ hours, before < hour) ∧
    (∃ after ∈ hours, hour < after) ∧ 18 ≤ (windowHours hours hour).card

omit [Numeric ν] in
theorem mem_pwFilter_key {l : List (Observation ν)} {o : Observation ν} :
    o ∈ l.pwFilter (fun o o' ↦ o.key ≠ o'.key) ↔
      (l.filter fun o' ↦ o'.key = o.key).getLast? = some o := by
  induction l with
  | nil => simp
  | cons x l ih =>
    have hforall := List.forall_mem_pwFilter (R := fun o o' : Observation ν ↦ o.key ≠ o'.key)
      (fun {x y z} hxz ↦ by
        by_contra hnone
        push Not at hnone
        exact hxz (hnone.1.trans hnone.2)) x l
    by_cases hx : ∀ b ∈ l, x.key ≠ b.key
    · rw [List.pwFilter_cons_of_pos (hforall.mpr hx), List.mem_cons, ih, List.filter_cons]
      by_cases hkey : x.key = o.key
      · have hnil : l.filter (fun o' ↦ o'.key = o.key) = [] :=
          List.filter_eq_nil_iff.mpr fun b hb ↦ by
            rw [decide_eq_true_iff, ← hkey]
            exact fun heq ↦ hx b hb heq.symm
        rw [hnil, if_pos (decide_eq_true hkey)]
        simp [eq_comm]
      · rw [if_neg (by simpa using hkey)]
        refine ⟨fun h ↦ h.resolve_left ?_, Or.inr⟩
        rintro rfl
        exact hkey rfl
    · rw [List.pwFilter_cons_of_neg (fun h ↦ hx (hforall.mp h)), ih, List.filter_cons]
      push Not at hx
      obtain ⟨b, hb, hxb⟩ := hx
      by_cases hkey : x.key = o.key
      · have hne : l.filter (fun o' ↦ o'.key = o.key) ≠ [] := List.ne_nil_of_mem
          (List.mem_filter.mpr ⟨hb, decide_eq_true (hxb.symm.trans hkey)⟩)
        rw [if_pos (decide_eq_true hkey), List.getLast?_cons_of_ne_nil hne]
      · rw [if_neg (by simpa using hkey)]

/-- The observations of an hour are those that are added up, in some order. -/
theorem perm_hourCell (k hour : ℤ) :
    (hourCell host rows (k, hour)).Perm (hourObservations host rows k hour) := by
  rw [hourCell, hourObservations]
  refine List.Perm.filter _ ?_
  have hdedupe : (dedupeSourceObservationRows host rows).Pairwise fun o o' ↦ o.key ≠ o'.key :=
    (OrderedMap.pairwise_values_collect Observation.key (fun _ row ↦ row) Observation.key
      (fun _ _ _ ↦ rfl) (keptObservations host rows)).perm (sortBy_perm _).symm fun h ↦ h.symm
  have hne : ∀ {o o' : Observation ν}, o.key ≠ o'.key → o ≠ o' := fun h heq ↦ h (by rw [heq])
  refine (List.perm_ext_iff_of_nodup (hdedupe.imp hne) ?_).mpr fun o ↦ ?_
  · exact (List.pairwise_pwFilter _).imp hne
  · rw [mem_dedupe, winningObservations, mem_pwFilter_key]

theorem mem_observedHours {k hour : ℤ} : hour ∈ observedHours host rows k ↔
    ∃ r ∈ seriesRows host rows k, r.timestampHourUtc = hour := by
  rw [exists_mem_seriesRows_iff (fun h ↦ h = hour), observedHours, List.mem_toFinset, List.mem_map]
  simp only [List.mem_filter, decide_eq_true_iff, and_assoc]

/-! ## The mean of an hour -/

section Means

variable {rows : List (SourceRow ℚ)}

/-- The mean of the observations of an hour. -/
def hourMean (host : Host) (rows : List (SourceRow ℚ)) (timeseriesId hour : ℤ) : ℚ :=
  ((hourObservations host rows timeseriesId hour).map Observation.value).sum /
    (hourObservations host rows timeseriesId hour).length

/-- The mean of the means of the observed hours of a window. -/
def windowMean (host : Host) (rows : List (SourceRow ℚ)) (timeseriesId hour : ℤ) : ℚ :=
  let window := windowHours (observedHours host rows timeseriesId) hour
  (∑ h ∈ window, hourMean host rows timeseriesId h) / window.card

theorem cellTotal_totals {cell : List (Observation ℚ)} {total : HourTotal ℚ}
    (h : cellTotal cell = some total) :
    total.sum = (cell.map Observation.value).sum ∧ total.count = cell.length := by
  induction cell using List.reverseRecOn generalizing total with
  | nil => cases h
  | append_singleton cell o ih =>
    rw [cellTotal, List.foldl_append, List.foldl_cons, List.foldl_nil, ← cellTotal] at h
    rw [← Option.some.inj h, List.map_append, List.sum_append, List.length_append]
    rcases hcell : cellTotal cell with _ | previous
    · have hnil : cell = [] := by
        by_contra hne
        exact absurd (cellTotal_isSome.mpr hne) (by rw [hcell]; exact Bool.false_ne_true)
      rw [hnil]
      exact ⟨by simp [HourTotal.add, HourTotal.open, Numeric.add, Numeric.zero], rfl⟩
    · obtain ⟨hsum, hcount⟩ := ih hcell
      refine ⟨?_, ?_⟩
      · rw [← hsum]
        simp [HourTotal.add, Numeric.add]
      · rw [← hcount]
        rfl

/-- **An observed hour** has the mean and the number of its observations. -/
theorem observedRow_mean {k hour : ℤ} {r : HelperRow ℚ}
    (h : observedRow host rows (k, hour) = some r) :
    meanOf r.pollutantCode r = some (hourMean host rows k hour) ∧
      r.hourlySampleCount = some (hourObservations host rows k hour).length := by
  obtain ⟨total, htotal, rfl⟩ := Option.map_eq_some_iff.mp h
  obtain ⟨hsum, hcount⟩ := cellTotal_totals htotal
  have hperm : (hourCell host rows (k, hour)).Perm _ := perm_hourCell k hour
  have hmean : total.narrowRow.hourlyMean = some (hourMean host rows k hour) := by
    rw [hourMean, ← (hperm.map _).sum_eq, ← hperm.length_eq, ← hsum, ← hcount]
    rfl
  have hsamples : total.narrowRow.sampleCount = some (hourObservations host rows k hour).length := by
    rw [← hperm.length_eq, ← hcount]
    rfl
  have hcode : (HelperRow.open total.narrowRow).pollutantCode = total.narrowRow.pollutantCode := rfl
  have hcolumns := (HelperRow.write_columns (.open total.narrowRow) total.narrowRow).2.2.2.2.2
  rw [hcolumns, hcode, HelperRow.write, hmean, hsamples]
  rcases total.narrowRow.pollutantCode
  all_goals exact ⟨rfl, rfl⟩

theorem value_nonneg {o : Observation ℚ} (h : o ∈ keptObservations host rows) : 0 ≤ o.value := by
  obtain ⟨row, -, hrow⟩ := List.mem_filterMap.mp h
  simp only [SourceRow.observation, Option.bind_eq_bind, Option.bind_eq_some_iff] at hrow
  obtain ⟨_, -, _, -, _, -, _, -, value, -, hrow⟩ := hrow
  by_cases hneg : Numeric.lt value Numeric.zero = true
  · rw [if_pos hneg] at hrow
    cases hrow
  · rw [if_neg hneg] at hrow
    rw [← Option.some.inj hrow]
    exact not_lt.mp fun hlt ↦ hneg (decide_eq_true hlt)

theorem hourMean_nonneg (k hour : ℤ) : 0 ≤ hourMean host rows k hour := by
  refine div_nonneg (List.sum_nonneg fun v hv ↦ ?_) (Nat.cast_nonneg _)
  obtain ⟨o, ho, rfl⟩ := List.mem_map.mp hv
  exact value_nonneg ((List.pwFilter_sublist _).subset (List.mem_of_mem_filter ho))

/-! ## The columns of a row -/

/-- A value that is a number is that number. -/
theorem toNumberOrNull_eq (value : Option ℚ) : toNumberOrNull value = value := by
  rcases value with _ | v <;> rfl

/-- The breakpoints of a particulate. -/
def daqiBreakpoints (pollutantCode : Pollutant) : List Breakpoint :=
  match pollutantCode with
  | .no2 => daqiNo2Breakpoints
  | .pm25 => daqiPm25Rolling24hBreakpoints
  | .pm10 => daqiPm10Rolling24hBreakpoints

/-- A mean of nonnegative values has a level. -/
theorem isSome_lookupAqiIndexLevel {value : ℚ} (h : 0 ≤ value) (pollutantCode : Pollutant) :
    (lookupAqiIndexLevel (some value) (daqiBreakpoints pollutantCode)).isSome = true := by
  obtain ⟨first, hfirst, hlow, last, hlast, hopen⟩ : ∃ first,
      (daqiBreakpoints pollutantCode).head? = some first ∧ first.low = 0 ∧
        ∃ last ∈ daqiBreakpoints pollutantCode, last.high = none := by
    rcases pollutantCode
    all_goals exact ⟨_, rfl, rfl, ⟨_, none, _⟩, List.getLast_mem (by decide), rfl⟩
  have hfind : ((daqiBreakpoints pollutantCode).find? fun b ↦ b.holds value).isSome = true := by
    rw [List.find?_isSome]
    exact ⟨last, hlast, by rw [Breakpoint.holds, hopen]⟩
  obtain ⟨found, hfound⟩ := Option.isSome_iff_exists.mp hfind
  have hnotLow : ¬Numeric.lt value (Numeric.ofNat first.low : ℚ) = true := by
    rw [hlow]
    show ¬decide (value < ((0 : ℕ) : ℚ)) = true
    rw [decide_eq_true_iff, Nat.cast_zero]
    exact not_lt.mpr h
  simp only [lookupAqiIndexLevel, toNumberOrNull_eq, hfirst, hfound, Option.bind_eq_bind,
    Option.bind_some, if_neg hnotLow, Option.isSome_some]

/-- **The index of a particulate** over the means of a window. -/
theorem indexColumns_rolling {values : List ℚ} (hpos : ∀ v ∈ values, 0 ≤ v)
    (pollutantCode : Pollutant) :
    let columns := indexColumns (average values) .rolling24hMean (countOrNull values)
      daqiPmRolling24hRequiredHours (daqiBreakpoints pollutantCode)
    (columns.calculationStatus = .ok ↔ 18 ≤ values.length) ∧
      (columns.calculationStatus = .insufficientSamples ↔
        1 ≤ values.length ∧ values.length ≤ 17) := by
  intro columns
  rcases hlength : values.length with _ | n
  · have hnil := List.length_eq_zero_iff.mp hlength
    have hmissing : columns.calculationStatus = .missingInput := by
      simp only [columns, hnil]
      rfl
    rw [hmissing]
    simp
  · have hne : values ≠ [] := fun hnil ↦ by
      rw [hnil] at hlength
      cases hlength
    have hmean : average values = some (values.sum / (n + 1 : ℕ)) := by
      rw [average, if_neg hne, hlength, List.sum_eq_foldl]
      rfl
    have hnonneg : 0 ≤ values.sum / (n + 1 : ℕ) :=
      div_nonneg (List.sum_nonneg hpos) (Nat.cast_nonneg _)
    obtain ⟨level, hlevel⟩ := Option.isSome_iff_exists.mp
      (isSome_lookupAqiIndexLevel hnonneg pollutantCode)
    generalize values.sum / ((n + 1 : ℕ) : ℚ) = mean at hmean hlevel
    have hcount : countOrNull values = some (n + 1) := by
      rw [countOrNull, hlength]
      rfl
    have hstatus : columns.calculationStatus = if n + 1 < 18 then .insufficientSamples else .ok := by
      simp only [columns, indexColumns, hmean, hcount, calculationStatus, toNumberOrNull_eq,
        daqiPmRolling24hRequiredHours]
      by_cases hfew : n + 1 < 18
      · simp [hfew]
      · simp [hfew, hlevel]
    rw [hstatus]
    by_cases hfew : n + 1 < 18
    · rw [if_pos hfew]
      exact ⟨⟨fun h ↦ (by cases h), fun h ↦ absurd hfew (by omega)⟩, fun _ ↦ (by omega), fun _ ↦ rfl⟩
    · rw [if_neg hfew]
      exact ⟨⟨fun _ ↦ (by omega), fun _ ↦ rfl⟩, fun h ↦ (by cases h), fun h ↦ absurd h (by omega)⟩

end Means

/-! ## What a row looks back on -/

section LookBack

variable {rows : List (SourceRow ℚ)} {k : ℤ} {r e : HelperRow ℚ} {pre post : List (HelperRow ℚ)}

/-- The observed hours among the rows that a row looks back on. -/
def lookBackHours (row : HelperRow ν) (before : List (HelperRow ν)) : List ℤ :=
  (row.lookBack before).filterMap fun e ↦ if e.syntheticHour then none else some e.timestampHourUtc

omit [Numeric ν] in
theorem meanOf_gap (pollutantCode : Pollutant) (template : HelperRow ν) (hour : ℤ) :
    meanOf pollutantCode (template.gap hour) = none := by
  rcases pollutantCode <;> rfl

theorem meanOf_of_mem_seriesRows (h : e ∈ seriesRows host rows k) :
    meanOf e.pollutantCode e = some (hourMean host rows k e.timestampHourUtc) ∧
      e.hourlySampleCount
        = some (hourObservations host rows k e.timestampHourUtc).length := by
  obtain ⟨hk, hobserved⟩ := mem_seriesRows.mp h
  rw [HelperRow.key, hk] at hobserved
  exact observedRow_mean hobserved

variable (hdated : DatedRows host rows) (huniform : UniformSeries host rows)
include hdated huniform

theorem isGridRow_of_mem_gridOf (h : e ∈ gridOf host rows k) :
    IsGridRow (seriesRows host rows k) e :=
  (spec_of_mem_expandSeries (isDatedSeries_seriesRows hdated huniform k)
    ((mem_gridOf hdated huniform).mp h)).2.2.2

/-- A row of the grid is synthetic if it is not an observed one. -/
theorem syntheticHour_eq_false_iff (h : e ∈ gridOf host rows k) :
    e.syntheticHour = false ↔ e ∈ seriesRows host rows k := by
  constructor
  · intro hobserved
    rcases isGridRow_of_mem_gridOf hdated huniform h with hmem | ⟨-, -, template, -, heq⟩
    · exact hmem
    · rw [heq] at hobserved
      cases hobserved
  · exact (isDatedSeries_seriesRows hdated huniform k).observed e

theorem mem_lookBackHours (hsplit : gridOf host rows k = pre ++ r :: post) {hour : ℤ} :
    hour ∈ lookBackHours r (r :: pre.reverse) ↔
      ∃ e ∈ seriesRows host rows k, e ∈ r.lookBack (r :: pre.reverse) ∧
        e.timestampHourUtc = hour := by
  rw [lookBackHours, List.mem_filterMap]
  constructor
  · rintro ⟨e, he, hsome⟩
    by_cases hsynthetic : e.syntheticHour = true
    · rw [if_pos hsynthetic] at hsome
      cases hsome
    · rw [if_neg hsynthetic] at hsome
      have hgrid := ((mem_lookBack hdated huniform hsplit).mp he).1
      exact ⟨e, (syntheticHour_eq_false_iff hdated huniform hgrid).mp
        (Bool.eq_false_iff.mpr hsynthetic), he, Option.some.inj hsome⟩
  · rintro ⟨e, hobserved, he, rfl⟩
    have hreal := (isDatedSeries_seriesRows hdated huniform k).observed e hobserved
    exact ⟨e, he, by rw [hreal]; rfl⟩

theorem nodup_lookBackHours (hsplit : gridOf host rows k = pre ++ r :: post) :
    (lookBackHours r (r :: pre.reverse)).Nodup := by
  have hsorted := pairwise_gridOf hdated huniform k
  rw [hsplit, List.pairwise_append] at hsorted
  have hback : (r :: pre.reverse).Pairwise
      fun e e' ↦ TextBefore e'.timestampHourUtc e.timestampHourUtc := by
    rw [List.pairwise_cons]
    exact ⟨fun e he ↦ hsorted.2.2 e (List.mem_reverse.mp he) r List.mem_cons_self,
      List.pairwise_reverse.mpr hsorted.1⟩
  refine (hback.sublist (List.takeWhile_sublist _)).filterMap _ fun e e' hlt h hh h' hh' ↦ ?_
  by_cases hsynthetic : e.syntheticHour = true
  · rw [if_pos hsynthetic] at hh
    cases hh
  by_cases hsynthetic' : e'.syntheticHour = true
  · rw [if_pos hsynthetic'] at hh'
    cases hh'
  rw [if_neg hsynthetic] at hh
  rw [if_neg hsynthetic'] at hh'
  rintro rfl
  rw [Option.some.inj hh, Option.some.inj hh'] at hlt
  exact not_textBefore_self _ hlt

/-- The values that a row looks back on are the means of the observed hours. -/
theorem filterMap_lookBack (hsplit : gridOf host rows k = pre ++ r :: post) {code : Pollutant}
    (hcode : ∀ e ∈ seriesRows host rows k, e.pollutantCode = code) :
    (r.lookBack (r :: pre.reverse)).filterMap (meanOf code)
      = (lookBackHours r (r :: pre.reverse)).map (hourMean host rows k) := by
  rw [lookBackHours, List.map_filterMap]
  refine List.filterMap_congr fun e he ↦ ?_
  have hgrid := ((mem_lookBack hdated huniform hsplit).mp he).1
  rcases isGridRow_of_mem_gridOf hdated huniform hgrid with hmem | ⟨-, -, template, -, heq⟩
  · rw [(isDatedSeries_seriesRows hdated huniform k).observed e hmem, ← hcode e hmem]
    exact (meanOf_of_mem_seriesRows hmem).1
  · rw [heq, meanOf_gap]
    rfl

/-- **A row looks back on its window** if the observed hours sort in time order, but for a synthetic
one whose window does not suffice, which may find nothing. -/
theorem lookBackHours_cases (hsorts : SortsInTime (observedHours host rows k))
    (hsplit : gridOf host rows k = pre ++ r :: post) {first last : ℤ}
    (hfirst : first ∈ observedHours host rows k) (hlast : last ∈ observedHours host rows k)
    (hspan : ∀ e ∈ gridOf host rows k, first ≤ e.timestampHourUtc ∧ e.timestampHourUtc ≤ last)
    (hall : ∀ e ∈ seriesRows host rows k, e ∈ gridOf host rows k) :
    (lookBackHours r (r :: pre.reverse)).toFinset
        = windowHours (observedHours host rows k) r.timestampHourUtc ∨
      r.syntheticHour = true ∧ lookBackHours r (r :: pre.reverse) = [] ∧
        (windowHours (observedHours host rows k) r.timestampHourUtc).card < 18 := by
  have hspec := fun {e} (he : e ∈ gridOf host rows k) ↦ spec_of_mem_expandSeries
    (isDatedSeries_seriesRows hdated huniform k) ((mem_gridOf hdated huniform).mp he)
  have hr : r ∈ gridOf host rows k := by
    rw [hsplit]
    simp
  have hobserved : ∀ e ∈ seriesRows host rows k,
      e.timestampHourUtc ∈ observedHours host rows k := fun e he ↦ mem_observedHours.mpr ⟨e, he, rfl⟩
  -- the rows of the grid are told apart by their hours
  have hsame : ∀ e ∈ gridOf host rows k, e.timestampHourUtc = r.timestampHourUtc → e = r := by
    intro e he hhour
    have hnodup : ((gridOf host rows k).map HelperRow.timestampHourUtc).Nodup := by
      rw [List.Nodup, List.pairwise_map]
      refine (pairwise_gridOf hdated huniform k).imp fun {a b} hlt heq ↦ ?_
      rw [heq] at hlt
      exact not_textBefore_self _ hlt
    exact List.inj_on_of_nodup_map hnodup he hr hhour
  rcases hsorts.lookBack_cases (hspec hr).2.2.1 (hspec hr).2.1 hfirst hlast (hspan r hr).1
    (hspan r hr).2 with hgood | ⟨hunobserved, hnone, hcount⟩
  · left
    ext hour
    rw [List.mem_toFinset, mem_lookBackHours hdated huniform hsplit, windowHours, Finset.mem_filter,
      mem_observedHours]
    constructor
    · rintro ⟨e, he, hback, rfl⟩
      obtain ⟨-, hbefore, hwithin, -⟩ := (mem_lookBack hdated huniform hsplit).mp hback
      refine ⟨⟨e, he, rfl⟩, by omega, ?_⟩
      rcases hbefore with rfl | hbefore
      · exact le_rfl
      · exact hsorts.le_of_textBefore (hobserved e he) (hspec hr).2.2.1 hfirst hlast
          (hspan r hr).1 (hspan r hr).2 hbefore
    · rintro ⟨⟨e, he, rfl⟩, hafter, hbefore⟩
      obtain ⟨htext, hbetween⟩ := hgood _ (hobserved e he) hafter hbefore
      refine ⟨e, he, (mem_lookBack hdated huniform hsplit).mpr
        ⟨hall e he, htext.imp_left (hsame e (hall e he)), by omega, fun g hg hgr heg ↦ ?_⟩, rfl⟩
      exact hbetween _ (hspec hg).2.2.1 (hspan g hg).1 (hspan g hg).2
        (hgr.imp_left fun h ↦ by rw [h]) heg
  · right
    refine ⟨?_, ?_, hcount⟩
    · rw [← Bool.not_eq_false, syntheticHour_eq_false_iff hdated huniform hr]
      exact fun hmem ↦ hunobserved (hobserved r hmem)
    · refine List.eq_nil_iff_forall_not_mem.mpr fun hour hhour ↦ ?_
      obtain ⟨e, he, hback, -⟩ := (mem_lookBackHours hdated huniform hsplit).mp hhour
      refine hnone _ (hobserved e he) ?_
      exact ((mem_lookBack hdated huniform hsplit).mp hback).2.1.imp (fun h ↦ by rw [h]) id

end LookBack

end UkAqOps.Aqi

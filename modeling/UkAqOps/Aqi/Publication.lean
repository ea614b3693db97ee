import UkAqOps.Aqi.Grid

/-!
# What a build publishes

The means of a row look back along the grid, but the gaps of the grid hold no values, so they are
means over the observed hours of the last 24. A day publishes the rows of its hours that pass. What
it publishes is characterised by membership, and its order by being strictly sorted.
-/

namespace UkAqOps.Aqi

open Sorting

variable {ν : Type} [Numeric ν] {host : Host} {rows : List (SourceRow ν)}

/-! ## The 24-hour means -/

section Rolling

/-- The rows of a series keep their order and their columns. -/
theorem map_rollSeries {β : Type} (g : HelperRow ν → β)
    (hg : ∀ (r : HelperRow ν) before, g (r.rolled before) = g r) (l before : List (HelperRow ν)) :
    (rollSeries before l).map g = l.map g := by
  induction l generalizing before with
  | nil => rfl
  | cons r rest ih => rw [rollSeries, List.map_cons, List.map_cons, hg, ih]

theorem mem_rollSeries {l before : List (HelperRow ν)} {r' : HelperRow ν} :
    r' ∈ rollSeries before l ↔
      ∃ pre r post, l = pre ++ r :: post ∧ r' = r.rolled (r :: (pre.reverse ++ before)) := by
  induction l generalizing before with
  | nil => simp [rollSeries]
  | cons r rest ih =>
    rw [rollSeries, List.mem_cons, ih]
    constructor
    · rintro (rfl | ⟨pre, q, post, rfl, rfl⟩)
      · exact ⟨[], r, rest, rfl, rfl⟩
      · exact ⟨r :: pre, q, post, rfl, by simp⟩
    · rintro ⟨pre, q, post, hsplit, rfl⟩
      rcases pre with _ | ⟨p, pre⟩
      · obtain ⟨rfl, rfl⟩ := List.cons.inj hsplit
        exact Or.inl rfl
      · obtain ⟨rfl, rfl⟩ := List.cons.inj hsplit
        exact Or.inr ⟨pre, q, post, rfl, by simp⟩

/-- The values of a column over the rows of the last 24 hours, nearest first. -/
def lastValues (field : HelperRow ν → Option ν) (rowAt : ℤ → Option (HelperRow ν)) (hour : ℤ) :
    List ν :=
  (List.range 24).filterMap fun k : ℕ ↦ (rowAt (hour - k * hourMs)).bind field

omit [Numeric ν] in
/-- **Looking back along the grid of a series reads its rows of the last 24 hours.** -/
theorem filterMap_takeWhile {series : List (HelperRow ν)} {k : ℤ} (hseries : IsSeries k series)
    {rowAt : ℤ → Option (HelperRow ν)}
    (hat : ∀ hour r, rowAt hour = some r ↔ r ∈ series ∧ r.timestampHourUtc = hour)
    (field : HelperRow ν → Option ν)
    (hgap : ∀ (template : HelperRow ν) hour, field (template.gap hour) = none)
    {pre post : List (HelperRow ν)} {r : HelperRow ν}
    (hsplit : expandSeries series = pre ++ r :: post) :
    ((r :: pre.reverse).takeWhile fun previous ↦
        (r.timestampHourUtc - previous.timestampHourUtc).tdiv hourMs < 24).filterMap field
      = lastValues field rowAt r.timestampHourUtc := by
  have hsorted := pairwise_expandSeries hseries
  have hmem : ∀ e, e ∈ pre ++ r :: post ↔ OnGrid series e := fun e ↦ by
    rw [← hsplit, mem_expandSeries hseries]
  rw [hsplit] at hsorted
  obtain ⟨hpre, hrest, hcross⟩ := List.pairwise_append.mp hsorted
  have hback : (r :: pre.reverse).Pairwise
      fun e e' ↦ e'.timestampHourUtc < e.timestampHourUtc := by
    rw [List.pairwise_cons]
    exact ⟨fun e he ↦ hcross e (List.mem_reverse.mp he) r List.mem_cons_self,
      List.pairwise_reverse.mpr hpre⟩
  have hr : r.timeseriesId = k ∧ r.timestampHourUtc % hourMs = 0 ∧ _ :=
    ((hmem r).mp (by simp)).spec hseries
  have hbackLe : ∀ e ∈ r :: pre.reverse, e.timestampHourUtc ≤ r.timestampHourUtc := by
    intro e he
    rcases List.mem_cons.mp he with rfl | he
    · exact le_rfl
    · exact (hcross e (List.mem_reverse.mp he) r List.mem_cons_self).le
  have hin : ∀ e ∈ r :: pre.reverse,
      ((r.timestampHourUtc - e.timestampHourUtc).tdiv hourMs < 24 ↔
        r.timestampHourUtc - e.timestampHourUtc < 24 * hourMs) := by
    intro e he
    have hle := hbackLe e he
    rw [Int.tdiv_eq_ediv_of_nonneg (by omega)]
    simp only [hourMs, minuteMs]
    omega
  -- the values with their hours: both lists go back in time through the same entries
  have hpairs : (((r :: pre.reverse).takeWhile fun previous ↦
        (r.timestampHourUtc - previous.timestampHourUtc).tdiv hourMs < 24).filterMap fun e ↦
          (field e).map fun v ↦ (e.timestampHourUtc, v))
      = (List.range 24).filterMap fun i : ℕ ↦
        ((rowAt (r.timestampHourUtc - i * hourMs)).bind field).map fun v ↦
          (r.timestampHourUtc - i * hourMs, v) := by
    rw [takeWhile_eq_filter (hback.imp_of_mem fun {e e'} he he' hlt hwindow ↦ by
      rw [decide_eq_true_iff, hin _ he'] at hwindow
      rw [decide_eq_true_iff, hin _ he]
      omega)]
    refine eq_of_mem_iff (r := fun a b : ℤ × ν ↦ b.1 < a.1) (fun _ _ h h' ↦ lt_asymm h h')
      ?_ ?_ ?_
    · refine (hback.filter _).filterMap _ fun e e' hlt b hb b' hb' ↦ ?_
      obtain ⟨v, -, rfl⟩ := Option.map_eq_some_iff.mp hb
      obtain ⟨v', -, rfl⟩ := Option.map_eq_some_iff.mp hb'
      exact hlt
    · refine List.pairwise_lt_range.filterMap _ fun i j hij b hb b' hb' ↦ ?_
      obtain ⟨v, -, rfl⟩ := Option.map_eq_some_iff.mp hb
      obtain ⟨v', -, rfl⟩ := Option.map_eq_some_iff.mp hb'
      simp only [hourMs, minuteMs]
      omega
    · rintro ⟨x, v⟩
      rw [List.mem_filterMap, List.mem_filterMap]
      constructor
      · rintro ⟨e, he, hv⟩
        rw [List.mem_filter, decide_eq_true_iff] at he
        obtain ⟨hmemBack, hwindow⟩ := he
        obtain ⟨w, hw, hpair⟩ := Option.map_eq_some_iff.mp hv
        obtain ⟨rfl, rfl⟩ := Prod.mk.inj hpair
        have hgrid : OnGrid series e := (hmem e).mp (by
          rw [List.mem_append, List.mem_cons]
          rcases List.mem_cons.mp hmemBack with rfl | hpre'
          · exact Or.inr (Or.inl rfl)
          · exact Or.inl (List.mem_reverse.mp hpre'))
        obtain hobserved | ⟨-, -, -, -, -, -, -, hrow⟩ := hgrid
        · have hle := hbackLe e hmemBack
          have haligned := hseries.aligned e hobserved
          have hlt := (hin e hmemBack).mp hwindow
          have hr₂ := hr.2.1
          refine ⟨((r.timestampHourUtc - e.timestampHourUtc) / hourMs).toNat, ?_, ?_⟩
          · rw [List.mem_range]
            simp only [hourMs, minuteMs] at *
            omega
          · have hhour : r.timestampHourUtc -
                ((r.timestampHourUtc - e.timestampHourUtc) / hourMs).toNat * hourMs
                  = e.timestampHourUtc := by
              simp only [hourMs, minuteMs] at *
              omega
            rw [hhour, (hat _ e).mpr ⟨hobserved, rfl⟩, Option.bind_some, hw]
            rfl
        · rw [hrow, hgap] at hw
          cases hw
      · rintro ⟨i, hi, hv⟩
        obtain ⟨w, hw, hpair⟩ := Option.map_eq_some_iff.mp hv
        obtain ⟨rfl, rfl⟩ := Prod.mk.inj hpair
        obtain ⟨e, hobs, hfield⟩ := Option.bind_eq_some_iff.mp hw
        obtain ⟨hobserved, hehour⟩ := (hat _ e).mp hobs
        rw [List.mem_range] at hi
        have hmemBack : e ∈ r :: pre.reverse := by
          have hall := (hmem e).mpr (.observed hobserved)
          rw [List.mem_append, List.mem_cons] at hall
          rcases hall with hpre' | rfl | hpost
          · exact List.mem_cons_of_mem _ (List.mem_reverse.mpr hpre')
          · exact List.mem_cons_self
          · have hlt := List.rel_of_pairwise_cons hrest hpost
            simp only [hourMs, minuteMs] at *
            omega
        refine ⟨e, ?_, ?_⟩
        · rw [List.mem_filter, decide_eq_true_iff, hin e hmemBack, hehour]
          refine ⟨hmemBack, ?_⟩
          simp only [hourMs, minuteMs]
          omega
        · rw [hfield, hehour]
          rfl
  have hvalues := congrArg (List.map Prod.snd) hpairs
  rw [List.map_filterMap, List.map_filterMap] at hvalues
  rw [lastValues]
  refine Eq.trans ?_ (hvalues.trans ?_)
  · refine List.filterMap_congr fun e _ ↦ ?_
    rw [Option.map_map]
    exact Option.map_id'.symm
  · refine List.filterMap_congr fun i _ ↦ ?_
    rw [Option.map_map]
    exact Option.map_id'

/-- The values of a column over the observed hours of the last 24, nearest first. -/
def windowValues (field : HelperRow ν → Option ν) (host : Host) (rows : List (SourceRow ν))
    (key : ℤ × ℤ) : List ν :=
  (List.range 24).filterMap fun k : ℕ ↦
    (observedRow host rows (key.1, key.2 - k * hourMs)).bind field

/-- The row with the means over the observed hours of the last 24. -/
def HelperRow.averaged (r : HelperRow ν) (host : Host) (rows : List (SourceRow ν)) : HelperRow ν :=
  { r with
    pm25Rolling24hMean := average (windowValues HelperRow.pm25HourlyMean host rows r.key)
    pm10Rolling24hMean := average (windowValues HelperRow.pm10HourlyMean host rows r.key)
    pm25Rolling24hSampleCount :=
      countOrNull (windowValues HelperRow.pm25HourlyMean host rows r.key)
    pm10Rolling24hSampleCount :=
      countOrNull (windowValues HelperRow.pm10HourlyMean host rows r.key) }

variable (hplain : PlainYears host rows) (huniform : UniformSeries host rows)
include hplain huniform

/-- The observed hours of a timeseries are the rows of its series. -/
theorem filterMap_window (field : HelperRow ν → Option ν)
    (hgap : ∀ (template : HelperRow ν) hour, field (template.gap hour) = none) {k : ℤ}
    {pre post : List (HelperRow ν)} {r : HelperRow ν}
    (hsplit : expandSeries (seriesRows host rows k) = pre ++ r :: post) :
    ((r :: pre.reverse).takeWhile fun previous ↦
        (r.timestampHourUtc - previous.timestampHourUtc).tdiv hourMs < 24).filterMap field
      = windowValues field host rows r.key := by
  have hseries := isSeries_seriesRows hplain huniform k
  have hk : r.timeseriesId = k :=
    (((mem_expandSeries hseries).mp (by rw [hsplit]; simp)).spec hseries).1
  have hat : ∀ hour e, observedRow host rows (k, hour) = some e ↔
      e ∈ seriesRows host rows k ∧ e.timestampHourUtc = hour := by
    intro hour e
    rw [mem_seriesRows]
    constructor
    · intro hobs
      have hkey := (observedRow_spec hobs).1
      exact ⟨⟨congrArg Prod.fst hkey, by rw [HelperRow.key, hkey]; exact hobs⟩,
        congrArg Prod.snd hkey⟩
    · rintro ⟨⟨hid, hobs⟩, rfl⟩
      rw [← hid]
      exact hobs
  rw [filterMap_takeWhile hseries hat field hgap hsplit, windowValues, HelperRow.key, hk]
  rfl

theorem rolled_eq_averaged {k : ℤ} {pre post : List (HelperRow ν)} {r : HelperRow ν}
    (hsplit : expandSeries (seriesRows host rows k) = pre ++ r :: post) :
    r.rolled (r :: pre.reverse) = r.averaged host rows := by
  have hpm25 := filterMap_window hplain huniform HelperRow.pm25HourlyMean (fun _ _ ↦ rfl) hsplit
  have hpm10 := filterMap_window hplain huniform HelperRow.pm10HourlyMean (fun _ _ ↦ rfl) hsplit
  rw [HelperRow.rolled, hpm25, hpm10]
  rfl

/-- **The helper rows of a build**: the rows of its grid, averaged over the observed hours. -/
theorem mem_pivot {r : HelperRow ν} :
    r ∈ pivotNarrowRowsToHelperRows (sourceObservationsToNarrowRows host rows) ↔
      ∃ e, OnGrid (seriesRows host rows e.timeseriesId) e ∧ r = e.averaged host rows := by
  rw [pivot_eq, computeRolling24h, mem_sortHelperRows, mem_flatMap_groups rfl]
  constructor
  · rintro ⟨k, hr⟩
    rw [sortHelperRows_filter_grid hplain huniform] at hr
    obtain ⟨pre, e, post, hsplit, rfl⟩ := mem_rollSeries.mp hr
    have hgrid : OnGrid (seriesRows host rows k) e :=
      (mem_expandSeries_seriesRows hplain huniform).mp (by rw [hsplit]; simp)
    refine ⟨e, ?_, ?_⟩
    · rw [(hgrid.spec (isSeries_seriesRows hplain huniform k)).1]
      exact hgrid
    · rw [List.append_nil]
      exact rolled_eq_averaged hplain huniform hsplit
  · rintro ⟨e, hgrid, rfl⟩
    obtain ⟨pre, post, hsplit⟩ := List.append_of_mem
      ((mem_expandSeries_seriesRows hplain huniform).mpr hgrid)
    refine ⟨e.timeseriesId, ?_⟩
    rw [sortHelperRows_filter_grid hplain huniform]
    refine mem_rollSeries.mpr ⟨pre, e, post, hsplit, ?_⟩
    rw [List.append_nil]
    exact (rolled_eq_averaged hplain huniform hsplit).symm

theorem pairwise_pivot :
    (pivotNarrowRowsToHelperRows (sourceObservationsToNarrowRows host rows)).Pairwise
      fun r r' ↦ r.key ≠ r'.key := by
  rw [pivot_eq, computeRolling24h]
  refine (pairwise_flatMap_groups (fun k r hr ↦ ?_) fun k ↦ ?_).perm (sortBy_perm _).symm
    fun h ↦ h.symm
  · rw [sortHelperRows_filter_grid hplain huniform] at hr
    obtain ⟨pre, e, post, hsplit, rfl⟩ := mem_rollSeries.mp hr
    have hgrid : OnGrid (seriesRows host rows k) e :=
      (mem_expandSeries_seriesRows hplain huniform).mp (by rw [hsplit]; simp)
    exact (hgrid.spec (isSeries_seriesRows hplain huniform k)).1
  · rw [sortHelperRows_filter_grid hplain huniform]
    have hsorted := pairwise_expandSeries (isSeries_seriesRows hplain huniform k)
    rw [← List.pairwise_map (R := (· < ·)), map_rollSeries _ fun _ _ ↦ rfl, List.pairwise_map]
    exact hsorted

end Rolling

/-! ## One timeseries -/

section OneSeries

variable {series : List (HelperRow ν)} {timeseriesId : ℤ} {r : HelperRow ν}

omit [Numeric ν] in
theorem filter_of_series (h : ∀ r ∈ series, r.timeseriesId = timeseriesId) (k : ℤ) :
    series.filter (fun r ↦ r.timeseriesId = k) = if k = timeseriesId then series else [] := by
  by_cases hk : k = timeseriesId
  · rw [if_pos hk, hk]
    exact List.filter_eq_self.mpr fun r hr ↦ decide_eq_true (h r hr)
  · rw [if_neg hk]
    refine List.filter_eq_nil_iff.mpr fun r hr ↦ ?_
    rw [decide_eq_true_iff, h r hr]
    exact fun heq ↦ hk heq.symm

omit [Numeric ν] in
/-- The groups of rows of one timeseries are the rows themselves. -/
theorem mem_flatMap_groups_of_series {f : List (HelperRow ν) → List (HelperRow ν)} (hf : f [] = [])
    (h : ∀ r ∈ series, r.timeseriesId = timeseriesId) :
    r ∈ (groupByTimeseries series).values.flatMap f ↔ r ∈ f series := by
  rw [mem_flatMap_groups hf]
  constructor
  · rintro ⟨k, hk⟩
    rw [filter_of_series h] at hk
    by_cases hsame : k = timeseriesId
    · rw [if_pos hsame] at hk
      exact hk
    · rw [if_neg hsame, hf] at hk
      exact absurd hk List.not_mem_nil
  · exact fun hr ↦ ⟨timeseriesId, by rw [filter_of_series h, if_pos rfl]; exact hr⟩

omit [Numeric ν] in
/-- What each of the groups gives has distinct keys, if what the rows give has distinct hours. -/
theorem pairwise_flatMap_groups_of_series {f : List (HelperRow ν) → List (HelperRow ν)}
    (hf : f [] = []) (h : ∀ r ∈ series, r.timeseriesId = timeseriesId)
    (hids : ∀ r ∈ f series, r.timeseriesId = timeseriesId)
    (hsorted : (f series).Pairwise fun r r' ↦ r.timestampHourUtc < r'.timestampHourUtc) :
    ((groupByTimeseries series).values.flatMap f).Pairwise fun r r' ↦ r.key ≠ r'.key := by
  refine pairwise_flatMap_groups (fun k r hr ↦ ?_) fun k ↦ ?_
  · rw [filter_of_series h] at hr
    by_cases hk : k = timeseriesId
    · rw [if_pos hk] at hr
      rw [hids r hr, hk]
    · rw [if_neg hk, hf] at hr
      exact absurd hr List.not_mem_nil
  · rw [filter_of_series h]
    by_cases hk : k = timeseriesId
    · rw [if_pos hk]
      exact hsorted
    · rw [if_neg hk, hf]
      exact List.Pairwise.nil

omit [Numeric ν] in
/-- The grid of one timeseries, sorted again. -/
theorem sortHelperRows_expandPm (h : IsSeries timeseriesId series) :
    sortHelperRows (expandPmHelperRowsToHourlyGrid series) = expandSeries series := by
  have hspec : ∀ r ∈ expandSeries series, r.timeseriesId = timeseriesId ∧
      r.timestampHourUtc % hourMs = 0 ∧ PlainYear (r.timestampHourUtc / dayMs) := fun r hr ↦
    ((mem_expandSeries h).mp hr).spec h
  have hmem : ∀ r, r ∈ expandPmHelperRowsToHourlyGrid series ↔ r ∈ expandSeries series := fun r ↦ by
    rw [expandPmHelperRowsToHourlyGrid, mem_sortHelperRows,
      mem_flatMap_groups_of_series rfl h.series]
  have hkeys : (expandPmHelperRowsToHourlyGrid series).Pairwise fun r r' ↦ r.key ≠ r'.key :=
    (pairwise_flatMap_groups_of_series rfl h.series (fun r hr ↦ (hspec r hr).1)
      (pairwise_expandSeries h)).perm (sortBy_perm _).symm fun h ↦ h.symm
  refine sortBy_eq_of_mem_iff ?_ ?_ hmem
  · refine hkeys.imp_of_mem fun {r r'} hr hr' hne ↦ ?_
    exact ne_eq_of_key_ne (hspec r ((hmem r).mp hr)).2.2 (hspec r' ((hmem r').mp hr')).2.2 hne
  · refine (pairwise_expandSeries h).imp_of_mem fun {r r'} hr hr' hlt ↦ ?_
    rw [compareHelperRows, (compareTimestamps_eq_lt (hspec r hr).2.2 (hspec r' hr').2.2).mpr hlt]
    rfl

/-- **The rows of one timeseries with their means**: those of its grid, each looking back along it. -/
theorem mem_computeRolling24h_of_series (h : IsSeries timeseriesId series) :
    r ∈ computeRolling24h (expandPmHelperRowsToHourlyGrid series) ↔
      ∃ pre e post, expandSeries series = pre ++ e :: post ∧ r = e.rolled (e :: pre.reverse) := by
  have hids : ∀ r ∈ expandPmHelperRowsToHourlyGrid series, r.timeseriesId = timeseriesId := by
    intro r hr
    rw [← mem_sortHelperRows, sortHelperRows_expandPm h] at hr
    exact (((mem_expandSeries h).mp hr).spec h).1
  rw [computeRolling24h, mem_sortHelperRows, mem_flatMap_groups_of_series rfl hids,
    sortHelperRows_expandPm h, mem_rollSeries]
  simp only [List.append_nil]

theorem pairwise_computeRolling24h_of_series (h : IsSeries timeseriesId series) :
    (computeRolling24h (expandPmHelperRowsToHourlyGrid series)).Pairwise
      fun r r' ↦ r.key ≠ r'.key := by
  have hspec : ∀ r ∈ expandSeries series, r.timeseriesId = timeseriesId := fun r hr ↦
    (((mem_expandSeries h).mp hr).spec h).1
  have hids : ∀ r ∈ expandPmHelperRowsToHourlyGrid series, r.timeseriesId = timeseriesId := by
    intro r hr
    rw [← mem_sortHelperRows, sortHelperRows_expandPm h] at hr
    exact hspec r hr
  rw [computeRolling24h]
  refine (pairwise_flatMap_groups_of_series rfl hids (fun r hr ↦ ?_) ?_).perm
    (sortBy_perm _).symm fun h ↦ h.symm
  · rw [sortHelperRows_expandPm h] at hr
    obtain ⟨pre, e, post, hsplit, rfl⟩ := mem_rollSeries.mp hr
    exact hspec e (by rw [hsplit]; simp)
  · rw [sortHelperRows_expandPm h, ← List.pairwise_map (R := (· < ·)),
      map_rollSeries _ fun _ _ ↦ rfl, List.pairwise_map]
    exact pairwise_expandSeries h

end OneSeries

/-! ## The rows of a day -/

section Day

variable {day : ℤ} {computedAtUtc : Option String}

theorem mem_narrowRowsToDayRange {l : List (HelperRow ν)} {r : HelperRow ν}
    (hday : PlainYear day) (hnext : PlainYear (day + 1))
    (hr : PlainYear (r.timestampHourUtc / dayMs)) :
    r ∈ narrowRowsToDayRange l day ↔
      r ∈ l ∧ day * dayMs ≤ r.timestampHourUtc ∧ r.timestampHourUtc < (day + 1) * dayMs := by
  have hstart : PlainYear (day * dayMs / dayMs) := by
    rw [Int.mul_ediv_cancel _ (by decide)]
    exact hday
  have hend : PlainYear ((day + 1) * dayMs / dayMs) := by
    rw [Int.mul_ediv_cancel _ (by decide)]
    exact hnext
  rw [narrowRowsToDayRange, mem_sortHelperRows, List.mem_filter, Bool.and_eq_true, utcDayStartIso,
    isoChars_midnight, utcDayEndIso, textLt_isoChars hr hend, Bool.not_eq_true',
    ← Bool.not_eq_true, textLt_isoChars hr hstart, not_lt]

/-- The row is published, as `row`. -/
def PublishedAs (host : Host) (computedAtUtc : Option String) (helperRow : HelperRow ν)
    (row : AqiRow ν) : Prop :=
  helperRowToNormalizedAqiV1Row host computedAtUtc helperRow = row ∧
    isPublished helperRow row = true

theorem mem_helperRowsToNormalizedAqiV1Rows {l : List (HelperRow ν)} {row : AqiRow ν} :
    row ∈ helperRowsToNormalizedAqiV1Rows host l computedAtUtc ↔
      ∃ r ∈ l, PublishedAs host computedAtUtc r row := by
  rw [helperRowsToNormalizedAqiV1Rows, mem_sortBy, List.mem_map]
  constructor
  · rintro ⟨⟨r, row'⟩, hpair, rfl⟩
    obtain ⟨hmem, hpublished⟩ := List.mem_filter.mp hpair
    obtain ⟨q, hq, heq⟩ := List.mem_map.mp hmem
    obtain ⟨rfl, rfl⟩ := Prod.mk.inj heq
    exact ⟨q, hq, rfl, hpublished⟩
  · rintro ⟨r, hr, rfl, hpublished⟩
    exact ⟨(r, _), List.mem_filter.mpr ⟨List.mem_map.mpr ⟨r, hr, rfl⟩, hpublished⟩, rfl⟩

/-- A published row has the key of its helper row. -/
theorem PublishedAs.key {r : HelperRow ν} {row : AqiRow ν}
    (h : PublishedAs host computedAtUtc r row) (haligned : r.timestampHourUtc % hourMs = 0) :
    row.timeseriesId = some r.timeseriesId ∧ row.timestampHourUtc = r.timestampHourUtc := by
  obtain ⟨rfl, hpublished⟩ := h
  refine ⟨?_, hourOf_of_emod haligned⟩
  simp only [isPublished, Bool.and_eq_true] at hpublished
  obtain ⟨⟨-, hid⟩, -⟩ := hpublished
  simp only [helperRowToNormalizedAqiV1Row, toPositiveIntOrNull, Option.filter_some] at hid ⊢
  by_cases hpos : 0 < r.timeseriesId
  · simp [hpos]
  · simp [hpos] at hid

theorem pairwise_narrowRowsToDayRange {l : List (HelperRow ν)}
    (h : l.Pairwise fun r r' ↦ r.key ≠ r'.key) :
    (narrowRowsToDayRange l day).Pairwise fun r r' ↦ r.key ≠ r'.key :=
  (h.sublist List.filter_sublist).perm (sortBy_perm _).symm fun h ↦ h.symm

theorem mem_of_mem_narrowRowsToDayRange {l : List (HelperRow ν)} {r : HelperRow ν}
    (h : r ∈ narrowRowsToDayRange l day) : r ∈ l := by
  rw [narrowRowsToDayRange, mem_sortHelperRows] at h
  exact List.mem_of_mem_filter h

/-- Rows with distinct keys are published in a strict order. -/
theorem pairwise_helperRowsToNormalizedAqiV1Rows {l : List (HelperRow ν)}
    (hkeys : l.Pairwise fun r r' ↦ r.key ≠ r'.key)
    (hspec : ∀ r ∈ l, r.timestampHourUtc % hourMs = 0 ∧ PlainYear (r.timestampHourUtc / dayMs)) :
    (helperRowsToNormalizedAqiV1Rows host l computedAtUtc).Pairwise
      fun row row' ↦ compareAqiRows host row row' = .lt := by
  refine pairwise_lt_sortBy ?_
  rw [List.pairwise_map, List.pairwise_filter, List.pairwise_map]
  refine hkeys.imp_of_mem fun {r r'} hr hr' hne hpublished hpublished' heq ↦ hne ?_
  obtain ⟨hid, hhour⟩ := PublishedAs.key ⟨rfl, hpublished⟩ (hspec r hr).1
  obtain ⟨hid', hhour'⟩ := PublishedAs.key ⟨rfl, hpublished'⟩ (hspec r' hr').1
  obtain ⟨hseries, htime⟩ := Ordering.then_eq_eq.mp heq
  rw [hid, hid'] at hseries
  rw [hhour, hhour'] at htime
  refine Prod.ext (Option.some.inj (Std.LawfulEqOrd.eq_of_compare hseries)) ?_
  exact host.eq_of_compare _ _ (hspec r hr).2 (hspec r' hr').2 htime

/-- The rows that a build publishes for a day. -/
def publishedRows (host : Host) (rows : List (SourceRow ν)) (day : ℤ)
    (computedAtUtc : Option String) : List (AqiRow ν) :=
  helperRowsToNormalizedAqiV1Rows host (narrowRowsToDayRange
    (pivotNarrowRowsToHelperRows (sourceObservationsToNarrowRows host rows)) day) computedAtUtc

variable (hplain : PlainYears host rows) (huniform : UniformSeries host rows)
include hplain huniform

/-- **What a day publishes**: the rows of the grid in its hours that pass. -/
theorem mem_publishedRows (hday : PlainYear day) (hnext : PlainYear (day + 1))
    {row : AqiRow ν} : row ∈ publishedRows host rows day computedAtUtc ↔
    ∃ e, OnGrid (seriesRows host rows e.timeseriesId) e ∧
      day * dayMs ≤ e.timestampHourUtc ∧ e.timestampHourUtc < (day + 1) * dayMs ∧
      PublishedAs host computedAtUtc (e.averaged host rows) row := by
  rw [publishedRows, mem_helperRowsToNormalizedAqiV1Rows]
  constructor
  · rintro ⟨r, hr, hpublished⟩
    obtain ⟨e, hgrid, rfl⟩ :=
      (mem_pivot hplain huniform).mp (mem_of_mem_narrowRowsToDayRange hr)
    obtain ⟨-, -, hyear⟩ := hgrid.spec (isSeries_seriesRows hplain huniform _)
    obtain ⟨-, hlower, hupper⟩ :=
      (mem_narrowRowsToDayRange (r := e.averaged host rows) hday hnext hyear).mp hr
    exact ⟨e, hgrid, hlower, hupper, hpublished⟩
  · rintro ⟨e, hgrid, hlower, hupper, hpublished⟩
    obtain ⟨-, -, hyear⟩ := hgrid.spec (isSeries_seriesRows hplain huniform _)
    refine ⟨e.averaged host rows, ?_, hpublished⟩
    rw [mem_narrowRowsToDayRange (r := e.averaged host rows) hday hnext hyear]
    exact ⟨(mem_pivot hplain huniform).mpr ⟨e, hgrid, rfl⟩, hlower, hupper⟩

theorem pairwise_publishedRows : (publishedRows host rows day computedAtUtc).Pairwise
    fun row row' ↦ compareAqiRows host row row' = .lt := by
  refine pairwise_helperRowsToNormalizedAqiV1Rows
    (pairwise_narrowRowsToDayRange (pairwise_pivot hplain huniform)) fun r hr ↦ ?_
  obtain ⟨e, hgrid, rfl⟩ :=
    (mem_pivot hplain huniform).mp (mem_of_mem_narrowRowsToDayRange hr)
  exact (hgrid.spec (isSeries_seriesRows hplain huniform _)).2

end Day

end UkAqOps.Aqi

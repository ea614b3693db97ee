import Mathlib.Data.Int.ConditionallyCompleteOrder
import UkAqOps.StationHistory.Store
import Mathlib.Algebra.BigOperators.Group.Finset.Basic
import Mathlib.Order.Interval.Finset.Defs
import Mathlib.Data.Int.Interval

/-!
# The hours of a series

The mean of an hour is a sum over the instants after the previous clock hour up to its own. A build
over rows that hold a series averages the same instants, and looks back over the same hours.
-/

namespace UkAqOps.StationHistory

open Aqi Sorting

/-! ## Means of a series -/

section Means

variable (series : ℤ → Option ℚ) (hour : ℤ)

/-- The instants of an hour that have a value. -/
noncomputable def hourInstants : Finset ℤ := (Finset.Ioc (hour - hourMs) hour).filter fun t ↦ (series t).isSome

noncomputable def hourCount : ℕ := (hourInstants series hour).card

noncomputable def hourSum : ℚ := ∑ t ∈ hourInstants series hour, (series t).getD 0

noncomputable def hourMean : Option ℚ :=
  if hourCount series hour = 0 then none else some (hourSum series hour / hourCount series hour)

/-- The means of the last 24 hours that have one, nearest first. -/
noncomputable def lastMeans : List ℚ := (List.range 24).filterMap fun k : ℕ ↦ hourMean series (hour - k * hourMs)

variable {series hour}

theorem mem_hourInstants {t : ℤ} :
    t ∈ hourInstants series hour ↔ (hour - hourMs < t ∧ t ≤ hour) ∧ (series t).isSome := by
  rw [hourInstants, Finset.mem_filter, Finset.mem_Ioc]

/-- Two series that agree in an hour have the same mean there. -/
theorem hourInstants_congr {series' : ℤ → Option ℚ}
    (h : ∀ t, hour - hourMs < t → t ≤ hour → series t = series' t) :
    hourCount series hour = hourCount series' hour ∧
      hourMean series hour = hourMean series' hour := by
  have hset : hourInstants series hour = hourInstants series' hour := by
    refine Finset.filter_congr fun t ht ↦ ?_
    rw [Finset.mem_Ioc] at ht
    rw [h t ht.1 ht.2]
  have hcount : hourCount series hour = hourCount series' hour := by
    rw [hourCount, hourCount, hset]
  have hsum : hourSum series hour = hourSum series' hour := by
    rw [hourSum, hourSum, hset]
    refine Finset.sum_congr rfl fun t ht ↦ ?_
    rw [h t (mem_hourInstants.mp ht).1.1 (mem_hourInstants.mp ht).1.2]
  exact ⟨hcount, by rw [hourMean, hourMean, hcount, hsum]⟩

end Means

/-! ## Clock hours -/

theorem hourEndingEndpoint_eq_iff {t hour : ℤ} :
    hourEndingEndpoint t = hour ↔ hour % hourMs = 0 ∧ hour - hourMs < t ∧ t ≤ hour := by
  simp only [hourEndingEndpoint, hourMs, minuteMs]
  omega

theorem mem_hourEndpoints {startMs endMs hour : ℤ} :
    hour ∈ hourEndpoints startMs endMs ↔ hour % hourMs = 0 ∧ startMs < hour ∧ hour ≤ endMs := by
  rw [hourEndpoints, mem_hourCursors]
  simp only [hourMs, minuteMs]
  omega

/-! ## The rows of an hour -/

section Cells

variable {series : ℤ → Option ℚ} {rows : List (ObservationRow ℚ)} {hour : ℤ}

/-- The rows that are averaged in an hour. -/
def cell (rows : List (ObservationRow ℚ)) (hour : ℤ) : List (ObservationRow ℚ) :=
  rows.filter fun row ↦ hourEndingEndpoint row.observedAt = hour

theorem toFinset_cell (h : HoldsSeries series rows) (hhour : hour % hourMs = 0) :
    ((cell rows hour).map ObservationRow.observedAt).toFinset = hourInstants series hour := by
  ext t
  rw [List.mem_toFinset, List.mem_map, mem_hourInstants]
  constructor
  · rintro ⟨row, hrow, rfl⟩
    obtain ⟨hmem, hcell⟩ := List.mem_filter.mp hrow
    rw [decide_eq_true_iff, hourEndingEndpoint_eq_iff] at hcell
    exact ⟨hcell.2, by rw [h.value row hmem]; rfl⟩
  · rintro ⟨ht, hsome⟩
    obtain ⟨value, hvalue⟩ := Option.isSome_iff_exists.mp hsome
    obtain ⟨row, hmem, rfl⟩ := h.exists_row t value hvalue
    refine ⟨row, List.mem_filter.mpr ⟨hmem, ?_⟩, rfl⟩
    rw [decide_eq_true_iff, hourEndingEndpoint_eq_iff]
    exact ⟨hhour, ht⟩

theorem nodup_cell (h : HoldsSeries series rows) :
    ((cell rows hour).map ObservationRow.observedAt).Nodup :=
  h.nodup.sublist (List.filter_sublist.map _)

theorem length_cell (h : HoldsSeries series rows) (hhour : hour % hourMs = 0) :
    (cell rows hour).length = hourCount series hour := by
  rw [hourCount, ← toFinset_cell h hhour, List.toFinset_card_of_nodup (nodup_cell h),
    List.length_map]

theorem sum_cell (h : HoldsSeries series rows) (hhour : hour % hourMs = 0) :
    ((cell rows hour).map ObservationRow.value).sum = hourSum series hour := by
  have hvalues : (cell rows hour).map ObservationRow.value
      = ((cell rows hour).map ObservationRow.observedAt).map fun t ↦ (series t).getD 0 := by
    rw [List.map_map]
    refine List.map_congr_left fun row hrow ↦ ?_
    rw [Function.comp_apply, h.value row (List.mem_of_mem_filter hrow)]
    rfl
  rw [hvalues, hourSum, ← toFinset_cell h hhour, List.sum_toFinset _ (nodup_cell h)]

/-- The total of an hour of a series. -/
noncomputable def seriesTotal (series : ℤ → Option ℚ) (request : HistoryRequest) (hour : ℤ) : HourTotal ℚ :=
  { (openTotal request hour : HourTotal ℚ) with
    sum := hourSum series hour
    count := hourCount series hour }

theorem foldl_addValue (request : HistoryRequest) (l : List (ObservationRow ℚ))
    (h : ∀ row ∈ l, hourEndingEndpoint row.observedAt = hour) :
    l.foldl (fun current row ↦ some (addValue (current.getD
        (openTotal request (hourEndingEndpoint row.observedAt))) row.value)) none
      = if l = [] then none else some { (openTotal request hour : HourTotal ℚ) with
          sum := (l.map ObservationRow.value).sum
          count := l.length } := by
  induction l using List.reverseRecOn with
  | nil => rfl
  | append_singleton l row ih =>
    rw [List.foldl_append, ih fun r hr ↦ h r (List.mem_append_left _ hr), List.foldl_cons,
      List.foldl_nil, if_neg (List.append_ne_nil_of_right_ne_nil _ (List.cons_ne_nil _ _)),
      h row (by simp)]
    by_cases hl : l = []
    · rw [if_pos hl, hl]
      simp [addValue, openTotal, Numeric.zero, Numeric.add]
    · rw [if_neg hl]
      simp [addValue, Numeric.add]

theorem get?_groupByHour (h : HoldsSeries series rows) (request : HistoryRequest)
    (outputEndMs : ℤ) (hhour : hour % hourMs = 0) :
    (groupByHour request outputEndMs rows).get? hour
      = if hour ≤ outputEndMs ∧ hourCount series hour ≠ 0 then
          some (seriesTotal series request hour) else none := by
  have hcell : (rows.filter fun row ↦ hourEndingEndpoint row.observedAt ≤ outputEndMs).filter
      (fun row ↦ hourEndingEndpoint row.observedAt = hour)
        = if hour ≤ outputEndMs then cell rows hour else [] := by
    rw [List.filter_filter]
    by_cases hle : hour ≤ outputEndMs
    · rw [if_pos hle]
      refine List.filter_congr fun row _ ↦ ?_
      by_cases heq : hourEndingEndpoint row.observedAt = hour <;> simp [heq, hle]
    · rw [if_neg hle, List.filter_eq_nil_iff]
      rintro row _ hrow
      simp only [Bool.and_eq_true, decide_eq_true_iff] at hrow
      exact hle (hrow.1 ▸ hrow.2)
  have hnil : cell rows hour = [] ↔ hourCount series hour = 0 := by
    rw [← length_cell h hhour, List.length_eq_zero_iff]
  rw [groupByHour, OrderedMap.get?_collect, hcell]
  by_cases hle : hour ≤ outputEndMs
  · rw [if_pos hle, foldl_addValue request (cell rows hour) fun row hrow ↦
      of_decide_eq_true (List.mem_filter.mp hrow).2, sum_cell h hhour, length_cell h hhour]
    by_cases hzero : hourCount series hour = 0
    · rw [if_pos (hnil.mpr hzero), if_neg fun hboth ↦ hboth.2 hzero]
    · rw [if_neg fun hcells ↦ hzero (hnil.mp hcells), if_pos ⟨hle, hzero⟩]
      rfl
  · rw [if_neg hle, if_neg fun hboth ↦ hle hboth.1]
    rfl

theorem get?_foldl_expectStep (request : HistoryRequest) (expected : List ℤ)
    (grouped : OrderedMap ℤ (HourTotal ℚ)) :
    (expected.foldl (expectStep request) grouped).get? hour
      = (grouped.get? hour).or
          (if hour ∈ expected then some (openTotal request hour) else none) := by
  induction expected generalizing grouped with
  | nil => simp
  | cons endpoint rest ih =>
    rw [List.foldl_cons, ih, expectStep]
    by_cases hopen : (grouped.get? endpoint).isSome = true
    · rw [if_pos hopen]
      by_cases hsame : hour = endpoint
      · obtain ⟨total, htotal⟩ := Option.isSome_iff_exists.mp hopen
        rw [hsame, htotal]
        rfl
      · simp [hsame]
    · rw [if_neg hopen, OrderedMap.get?_set]
      by_cases hsame : hour = endpoint
      · rw [Option.not_isSome_iff_eq_none] at hopen
        rw [if_pos hsame, hsame, hopen]
        simp
      · rw [if_neg hsame]
        simp [hsame]

end Cells

/-! ## The grid of a build -/

section Grid

variable {series : ℤ → Option ℚ} {rows : List (ObservationRow ℚ)} {call : HistoryCall} {hour : ℤ}
variable {host : Host}

/-- The hours that a build has rows for: the expected ones, and those observed up to its end. -/
def HasRow (series : ℤ → Option ℚ) (call : HistoryCall) (hour : ℤ) : Prop :=
  hour % hourMs = 0 ∧ hour ≤ call.outputEndMs ∧
    (hourCount series hour ≠ 0 ∨ call.outputStartMs < hour)

/-- The grouped totals of a build. -/
def buildTotals (call : HistoryCall) (rows : List (ObservationRow ℚ)) :
    OrderedMap ℤ (HourTotal ℚ) :=
  (hourEndpoints call.outputStartMs call.outputEndMs).foldl (expectStep call.request)
    (groupByHour call.request call.outputEndMs rows)

open Classical in
theorem get?_buildTotals (h : HoldsSeries series rows) :
    (buildTotals call rows).get? hour
      = if HasRow series call hour then some (seriesTotal series call.request hour) else none := by
  rw [buildTotals, get?_foldl_expectStep]
  by_cases hhour : hour % hourMs = 0
  · rw [get?_groupByHour h _ _ hhour]
    by_cases hcount : hourCount series hour = 0
    · -- an hour without values is there when it is expected
      have hsum : hourSum series hour = 0 := by
        rw [hourSum, Finset.card_eq_zero.mp hcount, Finset.sum_empty]
      rw [if_neg fun hboth ↦ hboth.2 hcount, Option.none_or]
      by_cases hexpected : hour ∈ hourEndpoints call.outputStartMs call.outputEndMs
      · obtain ⟨-, hstart, hend⟩ := mem_hourEndpoints.mp hexpected
        rw [if_pos hexpected, if_pos ⟨hhour, hend, Or.inr hstart⟩, seriesTotal, hsum, hcount]
        rfl
      · rw [if_neg hexpected, if_neg]
        rintro ⟨-, hend, hobserved | hstart⟩
        · exact hobserved hcount
        · exact hexpected (mem_hourEndpoints.mpr ⟨hhour, hstart, hend⟩)
    · by_cases hend : hour ≤ call.outputEndMs
      · rw [if_pos ⟨hend, hcount⟩, Option.some_or, if_pos ⟨hhour, hend, Or.inl hcount⟩]
      · rw [if_neg fun hboth ↦ hend hboth.1, Option.none_or,
          if_neg fun hexpected ↦ hend (mem_hourEndpoints.mp hexpected).2.2,
          if_neg fun hrow ↦ hend hrow.2.1]
  · have hnone : (groupByHour call.request call.outputEndMs rows).get? hour = none := by
      have hcell : (rows.filter fun row ↦ hourEndingEndpoint row.observedAt ≤
          call.outputEndMs).filter (fun row ↦ hourEndingEndpoint row.observedAt = hour) = [] := by
        rw [List.filter_eq_nil_iff]
        intro row _ hrow
        rw [decide_eq_true_iff, hourEndingEndpoint_eq_iff] at hrow
        exact hhour hrow.1
      rw [groupByHour, OrderedMap.get?_collect, hcell]
      rfl
    rw [hnone, Option.none_or, if_neg fun hexpected ↦ hhour (mem_hourEndpoints.mp hexpected).1,
      if_neg fun hrow ↦ hhour hrow.1]

theorem mem_values_buildTotals (h : HoldsSeries series rows) {total : HourTotal ℚ} :
    total ∈ (buildTotals call rows).values ↔
      ∃ hour, HasRow series call hour ∧ total = seriesTotal series call.request hour := by
  rw [OrderedMap.mem_values]
  constructor
  · rintro ⟨hour, hentry⟩
    rw [← OrderedMap.get?_eq_some_iff, get?_buildTotals h,
      Option.ite_none_right_eq_some] at hentry
    exact ⟨hour, hentry.1, (Option.some.inj hentry.2).symm⟩
  · rintro ⟨hour, hrow, rfl⟩
    exact ⟨hour, by rw [← OrderedMap.get?_eq_some_iff, get?_buildTotals h, if_pos hrow]⟩

/-- The narrow rows of a build. -/
def narrowRows (host : Host) (call : HistoryCall) (rows : List (ObservationRow ℚ)) :
    List (NarrowRow ℚ) :=
  sourceObservationsToHourEndingNarrowRows host rows call.request call.outputEndMs
    (hourEndpoints call.outputStartMs call.outputEndMs)

theorem mem_narrowRows_iff (h : HoldsSeries series rows) {row : NarrowRow ℚ} :
    row ∈ narrowRows host call rows ↔
      ∃ hour, HasRow series call hour ∧ row = hourRow (seriesTotal series call.request hour) := by
  rw [narrowRows, sourceObservationsToHourEndingNarrowRows, mem_sortBy, List.mem_map]
  constructor
  · rintro ⟨total, htotal, rfl⟩
    obtain ⟨hour, hrow, rfl⟩ := (mem_values_buildTotals h).mp htotal
    exact ⟨hour, hrow, rfl⟩
  · rintro ⟨hour, hrow, rfl⟩
    exact ⟨_, (mem_values_buildTotals h).mpr ⟨hour, hrow, rfl⟩, rfl⟩

theorem nodup_narrowRows_keys (h : HoldsSeries series rows) :
    ((narrowRows host call rows).map fun row ↦ (row.timeseriesId, row.timestampHourUtc)).Nodup := by
  have hhours : ((buildTotals call rows).values.map HourTotal.timestampHourUtc)
      = (buildTotals call rows).keys := by
    rw [OrderedMap.values, OrderedMap.keys, List.map_map]
    refine List.map_congr_left fun entry hentry ↦ ?_
    obtain ⟨hour, total⟩ := entry
    rw [← OrderedMap.get?_eq_some_iff, get?_buildTotals h, Option.ite_none_right_eq_some] at hentry
    rw [Function.comp_apply, ← Option.some.inj hentry.2]
    rfl
  rw [narrowRows, sourceObservationsToHourEndingNarrowRows,
    List.Perm.nodup_iff ((sortBy_perm _).map _), List.map_map]
  refine List.Nodup.of_map Prod.snd ?_
  rw [List.map_map]
  have hnodup := (buildTotals call rows).nodup_keys
  rw [← OrderedMap.keys, ← hhours] at hnodup
  exact hnodup

/-- The helper row of an hour. -/
noncomputable def hourHelper (series : ℤ → Option ℚ) (request : HistoryRequest) (hour : ℤ) : HelperRow ℚ :=
  (HelperRow.open (hourRow (seriesTotal series request hour))).write
    (hourRow (seriesTotal series request hour))

/-- The helper rows that the grid is laid on. -/
def helperRows (host : Host) (call : HistoryCall) (rows : List (ObservationRow ℚ)) :
    List (HelperRow ℚ) :=
  sortHelperRows (OrderedMap.collect
    (fun row : NarrowRow ℚ ↦ (row.timeseriesId, row.timestampHourUtc))
    (fun current row ↦ (current.getD (.open row)).write row) (narrowRows host call rows)).values

theorem hourHelper_columns (series : ℤ → Option ℚ) (request : HistoryRequest) (hour : ℤ) :
    (hourHelper series request hour).timeseriesId = request.timeseriesId ∧
      (hourHelper series request hour).timestampHourUtc = hour ∧
      (hourHelper series request hour).syntheticHour = false ∧
      (hourHelper series request hour).stationId = request.stationId ∧
      (hourHelper series request hour).connectorId = some request.connectorId ∧
      (hourHelper series request hour).pollutantCode = request.pollutant :=
  HelperRow.write_columns _ _

theorem mem_helperRows_iff (h : HoldsSeries series rows) {row : HelperRow ℚ} :
    row ∈ helperRows host call rows ↔
      ∃ hour, HasRow series call hour ∧ row = hourHelper series call.request hour := by
  rw [helperRows, mem_sortHelperRows,
    OrderedMap.values_collect_of_nodup _ (nodup_narrowRows_keys h), List.mem_map]
  constructor
  · rintro ⟨narrow, hnarrow, rfl⟩
    obtain ⟨hour, hrow, rfl⟩ := (mem_narrowRows_iff h).mp hnarrow
    exact ⟨hour, hrow, rfl⟩
  · rintro ⟨hour, hrow, rfl⟩
    exact ⟨_, (mem_narrowRows_iff h).mpr ⟨hour, hrow, rfl⟩, rfl⟩

/-- The hours of a build have years of four digits. -/
def PlainHours (series : ℤ → Option ℚ) (call : HistoryCall) : Prop :=
  ∀ hour, HasRow series call hour → PlainYear (hour / dayMs)

/-- The rows are of the timeseries of the request, at the hours of the build. -/
theorem columns_of_mem_helperRows (h : HoldsSeries series rows) {row : HelperRow ℚ}
    (hrow : row ∈ helperRows host call rows) :
    row.timeseriesId = call.request.timeseriesId ∧ row.stationId = call.request.stationId ∧
      row.connectorId = some call.request.connectorId ∧
      row.pollutantCode = call.request.pollutant ∧ row.syntheticHour = false ∧
      HasRow series call row.timestampHourUtc := by
  obtain ⟨hour, hhour, rfl⟩ := (mem_helperRows_iff h).mp hrow
  obtain ⟨hid, htime, hsynthetic, hstation, hconnector, hpollutant⟩ :=
    hourHelper_columns series call.request hour
  rw [htime]
  exact ⟨hid, hstation, hconnector, hpollutant, hsynthetic, hhour⟩

theorem uniform_helperRows (h : HoldsSeries series rows) {r r' : HelperRow ℚ}
    (hr : r ∈ helperRows host call rows) (hr' : r' ∈ helperRows host call rows) :
    r.stationId = r'.stationId ∧ r.connectorId = r'.connectorId ∧
      r.pollutantCode = r'.pollutantCode := by
  obtain ⟨-, hstation, hconnector, hpollutant, -⟩ := columns_of_mem_helperRows h hr
  obtain ⟨-, hstation', hconnector', hpollutant', -⟩ := columns_of_mem_helperRows h hr'
  exact ⟨hstation.trans hstation'.symm, hconnector.trans hconnector'.symm,
    hpollutant.trans hpollutant'.symm⟩

theorem nodup_helperRows_hours (h : HoldsSeries series rows) :
    ((helperRows host call rows).map HelperRow.timestampHourUtc).Nodup := by
  have hkeys : ∀ n : NarrowRow ℚ,
      (((none : Option (HelperRow ℚ)).getD (.open n)).write n).key
        = (n.timeseriesId, n.timestampHourUtc) := by
    intro n
    obtain ⟨hid, hhour, -⟩ := HelperRow.write_columns (.open n) n
    exact Prod.ext hid hhour
  have hmap : ((helperRows host call rows).map HelperRow.key).Nodup := by
    rw [helperRows, sortHelperRows, List.Perm.nodup_iff ((sortBy_perm _).map _),
      OrderedMap.values_collect_of_nodup _ (nodup_narrowRows_keys h), List.map_map]
    rw [show HelperRow.key ∘ (fun n : NarrowRow ℚ ↦
      ((none : Option (HelperRow ℚ)).getD (.open n)).write n)
        = fun n ↦ (n.timeseriesId, n.timestampHourUtc) from funext hkeys]
    exact nodup_narrowRows_keys h
  rw [List.Nodup, List.pairwise_map]
  refine (List.pairwise_map.mp hmap).imp_of_mem fun {r r'} hr hr' hne hhour ↦ hne ?_
  exact Prod.ext ((columns_of_mem_helperRows h hr).1.trans (columns_of_mem_helperRows h hr').1.symm)
    hhour

theorem isSeries_helperRows (h : HoldsSeries series rows) (hplain : PlainHours series call) :
    IsSeries call.request.timeseriesId (helperRows host call rows) where
  series _ hr := (columns_of_mem_helperRows h hr).1
  uniform _ hr _ hr' := uniform_helperRows h hr hr'
  observed _ hr := (columns_of_mem_helperRows h hr).2.2.2.2.1
  aligned _ hr := (columns_of_mem_helperRows h hr).2.2.2.2.2.1
  plain r hr := hplain r.timestampHourUtc (columns_of_mem_helperRows h hr).2.2.2.2.2
  nodup := nodup_helperRows_hours h

end Grid

end UkAqOps.StationHistory

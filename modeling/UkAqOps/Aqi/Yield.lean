import UkAqOps.Aqi.HourlyRows

/-!
# What a list of observations yields

A list of observations should yield a row for every observed hour and for every hour that is filled,
and no others. It does if the observed hours of every particulate timeseries sort in time order as
texts, and only then: else an observed hour lies outside the grid, or a filled one looks back on
nothing.
-/

namespace UkAqOps.Aqi

open Sorting

variable {host : Host} {rows : List (SourceRow ℚ)} {computedAtUtc : Option String} {k : ℤ}

/-! ## What is yielded -/

/-- The rows of an hour of a timeseries. -/
def rowsAt (published : List (AqiRow ℚ)) (timeseriesId hour : ℤ) : List (AqiRow ℚ) :=
  published.filter fun row ↦ row.timeseriesId = some timeseriesId ∧ row.timestampHourUtc = hour

/-- **One row for every hour**: the observed ones with their means, and for particulates the filled
ones; the index of a particulate is taken over the observed hours of the window. -/
structure Yields (host : Host) (rows : List (SourceRow ℚ)) (published : List (AqiRow ℚ)) : Prop where
  observed : ∀ k, ∀ hour ∈ observedHours host rows k, ∃ row, rowsAt published k hour = [row] ∧
    row.hourlyMean = some (hourMean host rows k hour) ∧
    row.hourlySampleCount = some (hourObservations host rows k hour).length
  filled : ∀ k, IsParticulate host rows k → ∀ hour, IsFilledHour (observedHours host rows k) hour →
    ∃ row, rowsAt published k hour = [row]
  only : ∀ row ∈ published, ∃ k, row.timeseriesId = some k ∧
    (row.timestampHourUtc ∈ observedHours host rows k ∨
      IsParticulate host rows k ∧ IsFilledHour (observedHours host rows k) row.timestampHourUtc)
  index : ∀ row ∈ published, ∀ k, row.timeseriesId = some k → IsParticulate host rows k →
    let count := (windowHours (observedHours host rows k) row.timestampHourUtc).card
    row.daqi.inputValue = some (windowMean host rows k row.timestampHourUtc) ∧
      row.daqi.sourceObservationCount = some count ∧
      (row.daqi.calculationStatus = .ok ↔ 18 ≤ count) ∧
      (row.daqi.calculationStatus = .insufficientSamples ↔ 1 ≤ count ∧ count ≤ 17)

/-! ## The rows of a timeseries -/

theorem ids_of_kept {o : Observation ℚ} (h : o ∈ keptObservations host rows) :
    0 < o.timeseriesId ∧ 0 < o.stationId ∧ ∀ c, o.connectorId = some c → 0 < c := by
  obtain ⟨row, -, hrow⟩ := List.mem_filterMap.mp h
  simp only [SourceRow.observation, Option.bind_eq_bind, Option.bind_eq_some_iff] at hrow
  obtain ⟨timeseriesId, hseries, stationId, hstation, _, -, _, -, value, -, hrow⟩ := hrow
  by_cases hneg : Numeric.lt value Numeric.zero = true
  · rw [if_pos hneg] at hrow
    cases hrow
  · rw [if_neg hneg] at hrow
    rw [← Option.some.inj hrow]
    refine ⟨of_decide_eq_true (Option.filter_eq_some_iff.mp hseries).2,
      of_decide_eq_true (Option.filter_eq_some_iff.mp hstation).2, fun c hc ↦ ?_⟩
    exact of_decide_eq_true (Option.filter_eq_some_iff.mp hc).2

theorem datedRows_of_host
    (hhost : ∀ text t, host.dateParse text = some t → IsTimeValue t) : DatedRows host rows := by
  intro o ho
  obtain ⟨row, -, hrow⟩ := List.mem_filterMap.mp ho
  have hinstant := instant_of_observation hrow
  have hread : ∀ raw, normalizeIsoTimestamp host raw = some o.observedAt →
      IsTimeValue o.observedAt := by
    intro raw hraw
    simp only [normalizeIsoTimestamp] at hraw
    split at hraw
    · cases hraw
    · exact hhost _ _ hraw
  rw [SourceRow.instant] at hinstant
  rcases hfirst : normalizeIsoTimestamp host row.observedAt with _ | t
  · rw [hfirst, Option.none_or] at hinstant
    exact hread _ hinstant
  · rw [hfirst, Option.some_or] at hinstant
    exact hread _ (hfirst.trans hinstant)

section Rows

variable (hdated : DatedRows host rows) (huniform : UniformSeries host rows)
include hdated huniform

/-- A timeseries that is no particulate has no rows but the observed ones. -/
theorem mem_gridOf_of_not_particulate (hk : ¬IsParticulate host rows k) {r : HelperRow ℚ} :
    r ∈ gridOf host rows k ↔ r ∈ seriesRows host rows k := by
  rw [mem_gridOf hdated huniform]
  rcases mem_expandSeries_texts (isDatedSeries_seriesRows hdated huniform k) with
    ⟨hnil, heq⟩ | ⟨-, -, -, hmem⟩ | ⟨first, hfirst, -, -, hpm, -⟩
  · rw [heq, hnil]
  · exact hmem r
  · obtain ⟨o, ho, hseries, -, -, -, hcode⟩ := exists_observation_of_mem_seriesRows hfirst
    exact absurd ⟨o, ho, hseries, hcode ▸ hpm⟩ hk

/-- **The rows of a particulate timeseries**: those of the hours from the one whose text sorts first
to the one whose text sorts last. -/
theorem mem_gridOf_of_particulate (hk : IsParticulate host rows k) :
    ∃ code, code ≠ .no2 ∧ (∀ e ∈ seriesRows host rows k, e.pollutantCode = code) ∧
    ∃ first ∈ observedHours host rows k, ∃ last ∈ observedHours host rows k,
      (∀ h ∈ observedHours host rows k,
        (h = first ∨ TextBefore first h) ∧ (h = last ∨ TextBefore h last)) ∧
      ∀ r, r ∈ gridOf host rows k ↔ first ≤ r.timestampHourUtc ∧ r.timestampHourUtc ≤ last ∧
        IsGridRow (seriesRows host rows k) r := by
  have hseries := isDatedSeries_seriesRows hdated huniform k
  have huniformCode : ∀ first ∈ seriesRows host rows k, ∀ e ∈ seriesRows host rows k,
      e.pollutantCode = first.pollutantCode := fun first hfirst e he ↦
    (hseries.uniform e he first hfirst).2.2
  obtain ⟨o, ho, hid, hcode⟩ := hk
  obtain ⟨c, hc, -⟩ := (exists_mem_seriesRows_iff fun _ ↦ True).mpr ⟨o, ho, hid, trivial⟩
  obtain ⟨o', ho', hid', -, -, -, hcode'⟩ := exists_observation_of_mem_seriesRows hc
  have hpm : c.pollutantCode ≠ .no2 := by
    rw [hcode', ← (huniform o ho o' ho' (hid.trans hid'.symm)).2.2]
    exact hcode
  rcases mem_expandSeries_texts hseries with
    ⟨hnil, -⟩ | ⟨first, hfirst, hno2, -⟩ | ⟨first, hfirst, last, hlast, -, hbounds, hmem⟩
  · rw [hnil] at hc
    exact absurd hc List.not_mem_nil
  · exact absurd ((huniformCode first hfirst c hc).trans hno2) hpm
  · refine ⟨c.pollutantCode, hpm, huniformCode c hc, first.timestampHourUtc,
      mem_observedHours.mpr ⟨first, hfirst, rfl⟩, last.timestampHourUtc,
      mem_observedHours.mpr ⟨last, hlast, rfl⟩, ?_, fun r ↦ ?_⟩
    · intro h hh
      obtain ⟨e, he, rfl⟩ := mem_observedHours.mp hh
      exact ⟨(hbounds e he).1.imp_left fun heq ↦ by rw [heq],
        (hbounds e he).2.imp_left fun heq ↦ by rw [heq]⟩
    · rw [mem_gridOf hdated huniform]
      exact hmem r

/-- The ids of a row of the grid, and the pollutant. -/
theorem columns_of_mem_gridOf (hconnector : ∀ o ∈ keptObservations host rows, o.connectorId.isSome)
    {r : HelperRow ℚ} (hr : r ∈ gridOf host rows k) :
    0 < k ∧ r.timeseriesId = k ∧ 0 < r.stationId ∧ (∃ c, r.connectorId = some c ∧ 0 < c) ∧
      ∃ e ∈ seriesRows host rows k, r.pollutantCode = e.pollutantCode := by
  have hobserved : ∀ e ∈ seriesRows host rows k, 0 < k ∧ e.timeseriesId = k ∧ 0 < e.stationId ∧
      ∃ c, e.connectorId = some c ∧ 0 < c := by
    intro e he
    obtain ⟨o, ho, hid, -, hstation, hconnectorId, -⟩ := exists_observation_of_mem_seriesRows he
    obtain ⟨hpos, hpos', hpos''⟩ := ids_of_kept ho
    obtain ⟨c, hc⟩ := Option.isSome_iff_exists.mp (hconnector o ho)
    exact ⟨hid ▸ hpos, (mem_seriesRows.mp he).1, hstation ▸ hpos', c, hconnectorId.trans hc,
      hpos'' c hc⟩
  rcases isGridRow_of_mem_gridOf hdated huniform hr with hmem | ⟨-, -, template, hmem, heq⟩
  · obtain ⟨hk, hid, hstation, hc⟩ := hobserved r hmem
    exact ⟨hk, hid, hstation, hc, r, hmem, rfl⟩
  · obtain ⟨hk, hid, hstation, hc⟩ := hobserved template hmem
    rw [heq]
    exact ⟨hk, hid, hstation, hc, template, hmem, rfl⟩

end Rows

/-! ## The published form of a row -/

theorem toPositiveIntOrNull_of_pos {id : ℤ} (h : 0 < id) : toPositiveIntOrNull (some id) = some id := by
  rw [toPositiveIntOrNull, Option.filter_some, if_pos (decide_eq_true h)]

/-- The index of a row of a particulate, over the values that it looks back on. -/
theorem daqi_rolled {r : HelperRow ℚ} {before : List (HelperRow ℚ)} (h : r.pollutantCode ≠ .no2) :
    (helperRowToNormalizedAqiV1Row host computedAtUtc (r.rolled before)).daqi
      = indexColumns (average ((r.lookBack before).filterMap (meanOf r.pollutantCode)))
        .rolling24hMean (countOrNull ((r.lookBack before).filterMap (meanOf r.pollutantCode)))
        daqiPmRolling24hRequiredHours (daqiBreakpoints r.pollutantCode) := by
  rcases hcode : r.pollutantCode
  · exact absurd hcode h
  all_goals
    simp only [helperRowToNormalizedAqiV1Row, HelperRow.rolled, hcode, toNumberOrNull_eq]
    rfl

section Published

/-- The rows that the observations yield. -/
def yieldedRows (host : Host) (rows : List (SourceRow ℚ)) (computedAtUtc : Option String) :
    List (AqiRow ℚ) :=
  helperRowsToNormalizedAqiV1Rows host
    (pivotNarrowRowsToHelperRows (sourceObservationsToNarrowRows host rows)) computedAtUtc

variable (hdated : DatedRows host rows) (huniform : UniformSeries host rows)
  (hconnector : ∀ o ∈ keptObservations host rows, o.connectorId.isSome)
include hdated huniform hconnector

/-- **The published form of a row of the grid.** -/
theorem published_columns {r : HelperRow ℚ} (hr : r ∈ gridOf host rows k)
    (before : List (HelperRow ℚ)) (computedAtUtc : Option String) :
    let row := helperRowToNormalizedAqiV1Row host computedAtUtc (r.rolled before)
    row.timeseriesId = some k ∧ row.timestampHourUtc = r.timestampHourUtc ∧
      row.hourlyMean = meanOf r.pollutantCode r ∧ row.hourlySampleCount = r.hourlySampleCount ∧
      (isPublished (r.rolled before) row = true ↔
        r.syntheticHour = false ∨ row.daqi.calculationStatus = .ok) := by
  intro row
  obtain ⟨hk, hid, hstation, ⟨c, hc, hpos⟩, -⟩ :=
    columns_of_mem_gridOf hdated huniform hconnector hr
  have haligned := (spec_of_mem_expandSeries (isDatedSeries_seriesRows hdated huniform k)
    ((mem_gridOf hdated huniform).mp hr)).2.1
  have hseriesRow : row.timeseriesId = some k := by
    rw [← hid]
    exact toPositiveIntOrNull_of_pos (hid ▸ hk)
  have hstationRow : row.stationId = some r.stationId := toPositiveIntOrNull_of_pos hstation
  have hconnectorRow : row.connectorId = some c := by
    rw [← toPositiveIntOrNull_of_pos hpos, ← hc]
    rfl
  refine ⟨hseriesRow, hourOf_of_emod haligned, ?_, rfl, ?_⟩
  · show toNumberOrNull _ = _
    rw [toNumberOrNull_eq]
    simp only [HelperRow.rolled]
    rcases r.pollutantCode
    all_goals rfl
  · have hsynthetic : (r.rolled before).syntheticHour = r.syntheticHour := rfl
    rw [isPublished, hseriesRow, hstationRow, hconnectorRow, hsynthetic]
    simp only [Option.isSome_some, Bool.true_and, Bool.or_eq_true, Bool.not_eq_true',
      decide_eq_true_iff]

/-- A yielded row is the published form of a row of the grid of its timeseries. -/
theorem mem_yieldedRows {row : AqiRow ℚ} : row ∈ yieldedRows host rows computedAtUtc ↔
    ∃ k pre r post, gridOf host rows k = pre ++ r :: post ∧
      row = helperRowToNormalizedAqiV1Row host computedAtUtc (r.rolled (r :: pre.reverse)) ∧
      (r.syntheticHour = false ∨ row.daqi.calculationStatus = .ok) := by
  rw [yieldedRows, mem_helperRowsToNormalizedAqiV1Rows]
  constructor
  · rintro ⟨r', hr', hrow, hpublished⟩
    obtain ⟨k, pre, r, post, hsplit, rfl⟩ := mem_pivot_iff_gridOf.mp hr'
    have hr : r ∈ gridOf host rows k := by simp [hsplit]
    have hiff := (published_columns hdated huniform hconnector hr (r :: pre.reverse)
      computedAtUtc).2.2.2.2
    rw [hrow] at hiff
    exact ⟨k, pre, r, post, hsplit, hrow.symm, hiff.mp hpublished⟩
  · rintro ⟨k, pre, r, post, hsplit, rfl, hpublished⟩
    have hr : r ∈ gridOf host rows k := by simp [hsplit]
    have hiff := (published_columns hdated huniform hconnector hr (r :: pre.reverse)
      computedAtUtc).2.2.2.2
    exact ⟨_, mem_pivot_iff_gridOf.mpr ⟨k, pre, r, post, hsplit, rfl⟩, rfl, hiff.mpr hpublished⟩

/-- No hour of a timeseries has two rows. -/
theorem rowsAt_eq_singleton {row : AqiRow ℚ} {hour : ℤ}
    (hrow : row ∈ yieldedRows host rows computedAtUtc) (hid : row.timeseriesId = some k)
    (hhour : row.timestampHourUtc = hour) :
    rowsAt (yieldedRows host rows computedAtUtc) k hour = [row] := by
  have hkeys : (yieldedRows host rows computedAtUtc).Pairwise fun row row' ↦
      (row.timeseriesId, row.timestampHourUtc) ≠ (row'.timeseriesId, row'.timestampHourUtc) := by
    refine List.Pairwise.perm ?_ (sortBy_perm _).symm fun h ↦ h.symm
    rw [List.pairwise_map, List.pairwise_filter, List.pairwise_map]
    refine (pairwise_key_pivot hdated huniform).imp_of_mem ?_
    rintro r r' hr hr' hne - - heq
    obtain ⟨k, pre, e, post, hsplit, rfl⟩ := mem_pivot_iff_gridOf.mp hr
    obtain ⟨k', pre', e', post', hsplit', rfl⟩ := mem_pivot_iff_gridOf.mp hr'
    have he : e ∈ gridOf host rows k := by simp [hsplit]
    have he' : e' ∈ gridOf host rows k' := by simp [hsplit']
    obtain ⟨hseries, hhour, -⟩ := published_columns hdated huniform hconnector he
      (e :: pre.reverse) computedAtUtc
    obtain ⟨hseries', hhour', -⟩ := published_columns hdated huniform hconnector he'
      (e' :: pre'.reverse) computedAtUtc
    obtain ⟨hsame, hsame'⟩ := Prod.mk.inj heq
    have hkey : ∀ (r : HelperRow ℚ) before, (r.rolled before).key
        = (r.timeseriesId, r.timestampHourUtc) := fun _ _ ↦ rfl
    rw [hkey, hkey] at hne
    rw [hhour, hhour'] at hsame'
    have hk := (columns_of_mem_gridOf hdated huniform hconnector he).2.1
    have hk' := (columns_of_mem_gridOf hdated huniform hconnector he').2.1
    have hids := Option.some.inj (hseries.symm.trans (hsame.trans hseries'))
    exact hne (Prod.ext (hk.trans (hids.trans hk'.symm)) hsame')
  refine filter_eq_singleton hkeys hrow fun row' ↦ ?_
  rw [decide_eq_true_iff, Prod.mk.injEq, hid, hhour]

omit hconnector in
/-- **The index of a row** over the observed hours that it looks back on. -/
theorem daqi_of_lookBack {code : Pollutant} (hcode : code ≠ .no2)
    (hall : ∀ e ∈ seriesRows host rows k, e.pollutantCode = code) {r : HelperRow ℚ}
    {pre post : List (HelperRow ℚ)} (hsplit : gridOf host rows k = pre ++ r :: post)
    (hr : r.pollutantCode = code) (computedAtUtc : Option String) :
    let daqi := (helperRowToNormalizedAqiV1Row host computedAtUtc (r.rolled (r :: pre.reverse))).daqi
    let hours := lookBackHours r (r :: pre.reverse)
    (daqi.calculationStatus = .ok ↔ 18 ≤ hours.length) ∧
      (daqi.calculationStatus = .insufficientSamples ↔ 1 ≤ hours.length ∧ hours.length ≤ 17) ∧
      (hours ≠ [] →
        daqi.inputValue = some ((hours.map (hourMean host rows k)).sum / hours.length) ∧
          daqi.sourceObservationCount = some hours.length) := by
  intro daqi hours
  have hvalues : (r.lookBack (r :: pre.reverse)).filterMap (meanOf code)
      = hours.map (hourMean host rows k) := filterMap_lookBack hdated huniform hsplit hall
  have hdaqi : daqi = indexColumns (average (hours.map (hourMean host rows k))) .rolling24hMean
      (countOrNull (hours.map (hourMean host rows k))) daqiPmRolling24hRequiredHours
        (daqiBreakpoints code) := by
    rw [← hvalues, ← hr]
    exact daqi_rolled (hr ▸ hcode)
  have hpos : ∀ v ∈ hours.map (hourMean host rows k), 0 ≤ v := fun v hv ↦ by
    obtain ⟨h, -, rfl⟩ := List.mem_map.mp hv
    exact hourMean_nonneg k h
  have hstatus := indexColumns_rolling hpos code
  rw [List.length_map] at hstatus
  rw [hdaqi]
  refine ⟨hstatus.1, hstatus.2, fun hne ↦ ⟨?_, ?_⟩⟩
  · have hmap : hours.map (hourMean host rows k) ≠ [] := fun hnil ↦ hne (List.map_eq_nil_iff.mp hnil)
    show average _ = _
    rw [average, if_neg hmap, List.length_map, List.sum_eq_foldl]
    rfl
  · show countOrNull _ = _
    rw [countOrNull, List.length_map, if_neg fun hzero ↦ hne (List.length_eq_zero_iff.mp hzero)]

/-! ## When the rows are right -/

omit hconnector in
/-- **The rows of a particulate timeseries whose hours sort in time order**: they are on the grid from
the first to the last, and each looks back on its window or is not published. -/
theorem rows_of_sortsInTime (hk : IsParticulate host rows k)
    (hsorts : SortsInTime (observedHours host rows k)) :
    (∀ e ∈ seriesRows host rows k, e ∈ gridOf host rows k) ∧
    (∀ hour, IsFilledHour (observedHours host rows k) hour →
      ∃ r ∈ gridOf host rows k, r.timestampHourUtc = hour) ∧
    ∀ pre r post, gridOf host rows k = pre ++ r :: post → ∀ computedAtUtc,
      let row := helperRowToNormalizedAqiV1Row host computedAtUtc (r.rolled (r :: pre.reverse))
      let window := windowHours (observedHours host rows k) r.timestampHourUtc
      (r.syntheticHour = true → row.daqi.calculationStatus = .ok →
        IsFilledHour (observedHours host rows k) r.timestampHourUtc) ∧
      (r.syntheticHour = false ∨ 18 ≤ window.card →
        row.daqi.inputValue = some (windowMean host rows k r.timestampHourUtc) ∧
          row.daqi.sourceObservationCount = some window.card ∧
          (row.daqi.calculationStatus = .ok ↔ 18 ≤ window.card) ∧
          (row.daqi.calculationStatus = .insufficientSamples ↔
            1 ≤ window.card ∧ window.card ≤ 17)) := by
  have hseries := isDatedSeries_seriesRows hdated huniform k
  have hobservedHour : ∀ e ∈ seriesRows host rows k,
      e.timestampHourUtc ∈ observedHours host rows k := fun e he ↦
    mem_observedHours.mpr ⟨e, he, rfl⟩
  obtain ⟨code, hcode, hall, first, hfirst, last, hlast, hbounds, hmem⟩ :=
    mem_gridOf_of_particulate hdated huniform hk
  have hvalue : ∀ h ∈ observedHours host rows k, IsTimeValue h := by
    intro h hh
    obtain ⟨e, he, rfl⟩ := mem_observedHours.mp hh
    exact hseries.dated e he
  have hspan : ∀ h ∈ observedHours host rows k, first ≤ h ∧ h ≤ last := by
    intro h hh
    obtain ⟨hlower, hupper⟩ := hbounds h hh
    constructor
    · rcases hlower with rfl | hlt
      · exact le_rfl
      · exact (hsorts.lt_of_textBefore hfirst hh (hvalue h hh) hlt).le
    · rcases hupper with rfl | hlt
      · exact le_rfl
      · exact (hsorts.lt_of_textBefore hh hlast (hvalue last hlast) hlt).le
  have hon : ∀ e ∈ seriesRows host rows k, e ∈ gridOf host rows k := fun e he ↦
    (hmem e).mpr ⟨(hspan _ (hobservedHour e he)).1, (hspan _ (hobservedHour e he)).2, Or.inl he⟩
  refine ⟨hon, ?_, ?_⟩
  · rintro hour ⟨haligned, hunobserved, ⟨before, hbefore, hlt⟩, ⟨after, hafter, hgt⟩, -⟩
    obtain ⟨template, htemplate, -⟩ := mem_observedHours.mp hbefore
    refine ⟨template.gap hour, (hmem _).mpr ⟨(hspan before hbefore).1.trans hlt.le,
      hgt.le.trans (hspan after hafter).2, Or.inr ⟨haligned, fun c hc heq ↦ ?_, template, htemplate,
        rfl⟩⟩, rfl⟩
    exact hunobserved (mem_observedHours.mpr ⟨c, hc, heq⟩)
  · intro pre r post hsplit computedAtUtc row window
    have hr : r ∈ gridOf host rows k := by simp [hsplit]
    have hrcode : r.pollutantCode = code := by
      rcases isGridRow_of_mem_gridOf hdated huniform hr with hin | ⟨-, -, template, hin, heq⟩
      · exact hall r hin
      · rw [heq]
        exact hall template hin
    obtain ⟨hok, hfew, hinput⟩ :=
      daqi_of_lookBack hdated huniform hcode hall hsplit hrcode computedAtUtc
    have hnodup := nodup_lookBackHours hdated huniform hsplit
    rcases lookBackHours_cases hdated huniform hsorts hsplit hfirst hlast
      (fun e he ↦ ⟨((hmem e).mp he).1, ((hmem e).mp he).2.1⟩) hon with
        hwindow | ⟨hsynthetic, hnil, hcount⟩
    · have hcard : (lookBackHours r (r :: pre.reverse)).length = window.card := by
        rw [← List.toFinset_card_of_nodup hnodup, hwindow]
      rw [hcard] at hok hfew hinput
      refine ⟨fun hsynthetic hstatus ↦ ?_, fun hpublished ↦ ?_⟩
      · obtain ⟨hlower, hupper, hrow⟩ := (hmem r).mp hr
        have hunobserved : r.timestampHourUtc ∉ observedHours host rows k := by
          intro hh
          obtain ⟨c, hc, hhour⟩ := mem_observedHours.mp hh
          rcases hrow with hin | ⟨-, hnone, -⟩
          · rw [hseries.observed r hin] at hsynthetic
            cases hsynthetic
          · exact hnone c hc hhour
        refine ⟨(spec_of_mem_expandSeries hseries ((mem_gridOf hdated huniform).mp hr)).2.1,
          hunobserved, ⟨first, hfirst, lt_of_le_of_ne hlower fun heq ↦ hunobserved (heq ▸ hfirst)⟩,
          ⟨last, hlast, lt_of_le_of_ne hupper fun heq ↦ hunobserved (heq ▸ hlast)⟩, hok.mp hstatus⟩
      · have hpos : 0 < window.card := by
          rcases hpublished with hobserved | hmany
          · refine Finset.card_pos.mpr ⟨r.timestampHourUtc, Finset.mem_filter.mpr ⟨?_, ?_, le_rfl⟩⟩
            · exact hobservedHour r ((syntheticHour_eq_false_iff hdated huniform hr).mp hobserved)
            · simp only [hourMs, minuteMs]
              omega
          · omega
        have hne : lookBackHours r (r :: pre.reverse) ≠ [] := fun hnil ↦ by
          rw [hnil, List.length_nil] at hcard
          omega
        obtain ⟨hvalue, hcount⟩ := hinput hne
        refine ⟨?_, hcount, hok, hfew⟩
        rw [hvalue, windowMean, ← hwindow, List.sum_toFinset _ hnodup, hwindow]
    · rw [hnil, List.length_nil] at hok hfew
      refine ⟨fun _ hstatus ↦ absurd (hok.mp hstatus) (by omega), fun hpublished ↦ ?_⟩
      rcases hpublished with hobserved | hmany
      · rw [hsynthetic] at hobserved
        cases hobserved
      · exact absurd hcount (not_lt.mpr hmany)

/-- A row of the grid that passes is yielded, alone for its hour. -/
theorem rowsAt_of_split {pre post : List (HelperRow ℚ)} {r : HelperRow ℚ}
    (hsplit : gridOf host rows k = pre ++ r :: post)
    (hpublished : r.syntheticHour = false ∨ (helperRowToNormalizedAqiV1Row host computedAtUtc
      (r.rolled (r :: pre.reverse))).daqi.calculationStatus = .ok) :
    rowsAt (yieldedRows host rows computedAtUtc) k r.timestampHourUtc
      = [helperRowToNormalizedAqiV1Row host computedAtUtc (r.rolled (r :: pre.reverse))] := by
  have hr : r ∈ gridOf host rows k := by simp [hsplit]
  obtain ⟨hid, hhour, -⟩ := published_columns hdated huniform hconnector hr (r :: pre.reverse)
    computedAtUtc
  refine rowsAt_eq_singleton hdated huniform hconnector ?_ hid hhour
  exact (mem_yieldedRows hdated huniform hconnector).mpr ⟨k, pre, r, post, hsplit, rfl, hpublished⟩

/-- An observed hour on the grid has its row. -/
theorem exists_rowsAt_of_observed {e : HelperRow ℚ} (he : e ∈ seriesRows host rows k)
    (hgrid : e ∈ gridOf host rows k) (computedAtUtc : Option String) :
    ∃ row, rowsAt (yieldedRows host rows computedAtUtc) k e.timestampHourUtc = [row] ∧
      row.hourlyMean = some (hourMean host rows k e.timestampHourUtc) ∧
      row.hourlySampleCount
        = some (hourObservations host rows k e.timestampHourUtc).length := by
  obtain ⟨pre, post, hsplit⟩ := List.append_of_mem hgrid
  obtain ⟨-, -, hmean, hcount, -⟩ := published_columns hdated huniform hconnector hgrid
    (e :: pre.reverse) computedAtUtc
  obtain ⟨hmeanOf, hcountOf⟩ := meanOf_of_mem_seriesRows he
  refine ⟨_, rowsAt_of_split hdated huniform hconnector hsplit (Or.inl ?_), hmean.trans hmeanOf,
    hcount.trans hcountOf⟩
  exact (isDatedSeries_seriesRows hdated huniform k).observed e he

theorem yields_of_sortsInTime (h : ∀ k, IsParticulate host rows k →
    SortsInTime (observedHours host rows k)) (computedAtUtc : Option String) :
    Yields host rows (yieldedRows host rows computedAtUtc) where
  observed k hour hhour := by
    obtain ⟨e, he, rfl⟩ := mem_observedHours.mp hhour
    refine exists_rowsAt_of_observed hdated huniform hconnector he ?_ computedAtUtc
    by_cases hk : IsParticulate host rows k
    · exact (rows_of_sortsInTime hdated huniform hk (h k hk)).1 e he
    · exact (mem_gridOf_of_not_particulate hdated huniform hk).mpr he
  filled k hk hour hfilled := by
    obtain ⟨-, hgrid, hrows⟩ := rows_of_sortsInTime hdated huniform hk (h k hk)
    obtain ⟨r, hr, rfl⟩ := hgrid hour hfilled
    obtain ⟨pre, post, hsplit⟩ := List.append_of_mem hr
    obtain ⟨-, hindex⟩ := hrows pre r post hsplit computedAtUtc
    have hmany := hfilled.2.2.2.2
    exact ⟨_, rowsAt_of_split hdated huniform hconnector hsplit
      (Or.inr ((hindex (Or.inr hmany)).2.2.1.mpr hmany))⟩
  only row hrow := by
    obtain ⟨k, pre, r, post, hsplit, rfl, hpublished⟩ :=
      (mem_yieldedRows hdated huniform hconnector).mp hrow
    have hr : r ∈ gridOf host rows k := by simp [hsplit]
    obtain ⟨hid, hhour, -⟩ := published_columns hdated huniform hconnector hr (r :: pre.reverse)
      computedAtUtc
    refine ⟨k, hid, ?_⟩
    rw [hhour]
    by_cases hobserved : r.syntheticHour = false
    · exact Or.inl (mem_observedHours.mpr
        ⟨r, (syntheticHour_eq_false_iff hdated huniform hr).mp hobserved, rfl⟩)
    · have hk : IsParticulate host rows k := by
        by_contra hk
        exact hobserved ((syntheticHour_eq_false_iff hdated huniform hr).mpr
          ((mem_gridOf_of_not_particulate hdated huniform hk).mp hr))
      obtain ⟨-, -, hrows⟩ := rows_of_sortsInTime hdated huniform hk (h k hk)
      exact Or.inr ⟨hk, (hrows pre r post hsplit computedAtUtc).1
        (Bool.eq_true_of_not_eq_false hobserved) (hpublished.resolve_left hobserved)⟩
  index row hrow k hid hk := by
    obtain ⟨k', pre, r, post, hsplit, rfl, hpublished⟩ :=
      (mem_yieldedRows hdated huniform hconnector).mp hrow
    have hr : r ∈ gridOf host rows k' := by simp [hsplit]
    obtain ⟨hid', hhour, -⟩ := published_columns hdated huniform hconnector hr (r :: pre.reverse)
      computedAtUtc
    obtain rfl : k' = k := Option.some.inj (hid'.symm.trans hid)
    obtain ⟨-, -, hrows⟩ := rows_of_sortsInTime hdated huniform hk (h k' hk)
    obtain ⟨hfilled, hindex⟩ := hrows pre r post hsplit computedAtUtc
    rw [hhour]
    refine hindex ?_
    by_cases hobserved : r.syntheticHour = false
    · exact Or.inl hobserved
    · exact Or.inr (hfilled (Bool.eq_true_of_not_eq_false hobserved)
        (hpublished.resolve_left hobserved)).2.2.2.2

theorem sortsInTime_of_yields (h : Yields host rows (yieldedRows host rows computedAtUtc))
    (hk : IsParticulate host rows k) : SortsInTime (observedHours host rows k) := by
  by_contra hnot
  obtain ⟨code, hcode, hall, first, hfirst, last, hlast, hbounds, hmem⟩ :=
    mem_gridOf_of_particulate hdated huniform hk
  have hvalue : ∀ h ∈ observedHours host rows k, IsTimeValue h := by
    intro h hh
    obtain ⟨e, he, rfl⟩ := mem_observedHours.mp hh
    exact (isDatedSeries_seriesRows hdated huniform k).dated e he
  -- the only row of an hour comes from a row of the grid
  have hrow : ∀ hour row, rowsAt (yieldedRows host rows computedAtUtc) k hour = [row] →
      ∃ pre r post, gridOf host rows k = pre ++ r :: post ∧ r.timestampHourUtc = hour ∧
        row = helperRowToNormalizedAqiV1Row host computedAtUtc (r.rolled (r :: pre.reverse)) ∧
        (r.syntheticHour = false ∨ row.daqi.calculationStatus = .ok) := by
    intro hour row hsingle
    have hin : row ∈ rowsAt (yieldedRows host rows computedAtUtc) k hour := by simp [hsingle]
    obtain ⟨hyielded, hat⟩ := List.mem_filter.mp hin
    obtain ⟨hid, hhour⟩ := of_decide_eq_true hat
    obtain ⟨k', pre, r, post, hsplit, rfl, hpublished⟩ :=
      (mem_yieldedRows hdated huniform hconnector).mp hyielded
    have hr : r ∈ gridOf host rows k' := by simp [hsplit]
    obtain ⟨hid', hhour', -⟩ := published_columns hdated huniform hconnector hr (r :: pre.reverse)
      computedAtUtc
    obtain rfl : k' = k := Option.some.inj (hid'.symm.trans hid)
    exact ⟨pre, r, post, hsplit, hhour'.symm.trans hhour, rfl, hpublished⟩
  rcases exists_of_not_sortsInTime hvalue hfirst hlast (fun h hh ↦ (hbounds h hh).1) hnot with
    ⟨a, ha, hout⟩ | ⟨hour, haligned, hbefore, hafter, hmany, hnone⟩
  · obtain ⟨row, hsingle, -⟩ := h.observed k a ha
    obtain ⟨pre, r, post, hsplit, rfl, -⟩ := hrow a row hsingle
    obtain ⟨hlower, hupper, -⟩ := (hmem r).mp (by simp [hsplit])
    omega
  · have hunobserved : hour ∉ observedHours host rows k := fun hh ↦ hnone hour hh (Or.inl rfl)
    obtain ⟨row, hsingle⟩ := h.filled k hk hour
      ⟨haligned, hunobserved, ⟨first, hfirst, hbefore⟩, ⟨last, hlast, hafter⟩, hmany⟩
    obtain ⟨pre, r, post, hsplit, rfl, rfl, hpublished⟩ := hrow hour row hsingle
    have hr : r ∈ gridOf host rows k := by simp [hsplit]
    have hrcode : r.pollutantCode = code := by
      rcases isGridRow_of_mem_gridOf hdated huniform hr with hin | ⟨-, -, template, hin, heq⟩
      · exact hall r hin
      · rw [heq]
        exact hall template hin
    have hnil : lookBackHours r (r :: pre.reverse) = [] := by
      refine List.eq_nil_iff_forall_not_mem.mpr fun hour hhour ↦ ?_
      obtain ⟨e, he, hback, -⟩ := (mem_lookBackHours hdated huniform hsplit).mp hhour
      refine hnone _ (mem_observedHours.mpr ⟨e, he, rfl⟩) ?_
      exact ((mem_lookBack hdated huniform hsplit).mp hback).2.1.imp (fun h ↦ by rw [h]) id
    have hok := (daqi_of_lookBack hdated huniform hcode hall hsplit hrcode computedAtUtc).1
    rw [hnil, List.length_nil] at hok
    rcases hpublished with hobserved | hstatus
    · exact hunobserved (mem_observedHours.mpr
        ⟨r, (syntheticHour_eq_false_iff hdated huniform hr).mp hobserved, rfl⟩)
    · exact absurd (hok.mp hstatus) (by decide)

end Published

/-- **The rows are right if and only if the observed hours of every particulate timeseries sort in
time order**, when `Date.parse` gives instants that a date can hold, each timeseries has one station,
connector and pollutant, and no observation is without its connector. -/
theorem yields_iff (computedAtUtc : Option String)
    (hhost : ∀ text t, host.dateParse text = some t → IsTimeValue t)
    (huniform : UniformSeries host rows)
    (hconnector : ∀ o ∈ keptObservations host rows, o.connectorId.isSome) :
    Yields host rows (helperRowsToNormalizedAqiV1Rows host
      (pivotNarrowRowsToHelperRows (sourceObservationsToNarrowRows host rows)) computedAtUtc) ↔
    ∀ k, IsParticulate host rows k → SortsInTime (observedHours host rows k) := by
  have hdated : DatedRows host rows := datedRows_of_host hhost
  exact ⟨fun h _ hk ↦ sortsInTime_of_yields hdated huniform hconnector h hk,
    fun h ↦ yields_of_sortsInTime hdated huniform hconnector h computedAtUtc⟩

/-! ## Two timeseries -/

/-- Hours with four-digit years sort in time order. -/
theorem sortsInTime_of_plain {hours : Finset ℤ}
    (h : ∀ hour ∈ hours, 0 ≤ yearOf hour ∧ yearOf hour ≤ 9999) : SortsInTime hours := by
  refine Or.inr ⟨fun a ha ↦ (h a ha).2, fun a ha b _ hneg ↦ ?_, fun a ha b _ _ hour _ hlt hneg ↦ ?_⟩
  · exact absurd (h a ha).1 (not_le.mpr hneg)
  · exact absurd (h a ha).1 (not_le.mpr (hlt.trans hneg))

/-- The host whose `Date.parse` refuses what no date can hold. -/
def datedHost : Host :=
  { isoHost with dateParse := fun text ↦ (parseTimestamp text).filter fun t ↦ IsTimeValue t }

theorem isTimeValue_datedHost (text : String) (t : ℤ) (h : datedHost.dateParse text = some t) :
    IsTimeValue t :=
  of_decide_eq_true (Option.filter_eq_some_iff.mp h).2

/-- One series of 19 observed hours, with a filled one before the last. -/
theorem yields_gapHours : Yields datedHost (pm25Rows gapHours)
    (helperRowsToNormalizedAqiV1Rows datedHost (pivotNarrowRowsToHelperRows
      (sourceObservationsToNarrowRows datedHost (pm25Rows gapHours))) none) := by
  have huniform : UniformSeries datedHost (pm25Rows gapHours) := by
    show ∀ o ∈ _, ∀ o' ∈ _, _ → _
    decide +kernel
  have hconnector : ∀ o ∈ keptObservations datedHost (pm25Rows gapHours), o.connectorId.isSome := by
    decide +kernel
  have hplain : ∀ o ∈ keptObservations datedHost (pm25Rows gapHours),
      0 ≤ yearOf (hourOf o.observedAt) ∧ yearOf (hourOf o.observedAt) ≤ 9999 := by
    decide +kernel
  refine (yields_iff none isTimeValue_datedHost huniform hconnector).mpr fun k _ ↦ ?_
  refine sortsInTime_of_plain fun hour hhour ↦ ?_
  obtain ⟨o, ho, rfl⟩ := List.mem_map.mp (List.mem_toFinset.mp hhour)
  exact hplain o (List.mem_of_mem_filter ho)

/-- An observation in the year 10000 takes its timeseries off the grid: the observed hour of the
other one has no row. -/
theorem not_yields_farHours : UniformSeries datedHost (pm25Rows farHours) ∧
    (∀ o ∈ keptObservations datedHost (pm25Rows farHours), o.connectorId.isSome) ∧
    ¬Yields datedHost (pm25Rows farHours) (helperRowsToNormalizedAqiV1Rows datedHost
      (pivotNarrowRowsToHelperRows (sourceObservationsToNarrowRows datedHost (pm25Rows farHours)))
      none) := by
  have huniform : UniformSeries datedHost (pm25Rows farHours) := by
    show ∀ o ∈ _, ∀ o' ∈ _, _ → _
    decide +kernel
  refine ⟨huniform, by decide +kernel, fun h ↦ ?_⟩
  obtain ⟨row, hrow, -⟩ := h.observed 7 1704067200000 (by decide +kernel)
  have hnone : (rowsAt (helperRowsToNormalizedAqiV1Rows datedHost (pivotNarrowRowsToHelperRows
      (sourceObservationsToNarrowRows datedHost (pm25Rows farHours))) none) 7 1704067200000).length
        = 0 := by decide +kernel
  rw [hrow] at hnone
  cases hnone

end UkAqOps.Aqi

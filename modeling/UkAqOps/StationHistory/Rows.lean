import UkAqOps.StationHistory.Hours

/-!
# The air quality row of an hour

Every hour of the output is expected, so it has a row whether it was observed or not. Its row holds
the mean of the hour and of the last 24, computed from the series that the build has read, under the
identity of the member that is valid at the hour.
-/

namespace UkAqOps.StationHistory

open Aqi Sorting

/-! ## The row of a series -/

/-- A row with the means of a series in the columns of its pollutant. -/
noncomputable def meansRow (series : ℤ → Option ℚ) (identity : Identity) (hour : ℤ) : HelperRow ℚ :=
  let mean (pollutant : Pollutant) :=
    if identity.pollutant = pollutant then hourMean series hour else none
  let last (pollutant : Pollutant) :=
    if identity.pollutant = pollutant then lastMeans series hour else []
  { timeseriesId := identity.timeseriesId
    stationId := identity.stationId
    connectorId := some identity.connectorId
    pollutantCode := identity.pollutant
    timestampHourUtc := hour
    no2HourlyMean := mean .no2
    pm25HourlyMean := mean .pm25
    pm10HourlyMean := mean .pm10
    pm25Rolling24hMean := average (last .pm25)
    pm10Rolling24hMean := average (last .pm10)
    pm25Rolling24hSampleCount := countOrNull (last .pm25)
    pm10Rolling24hSampleCount := countOrNull (last .pm10)
    hourlySampleCount := if hourCount series hour = 0 then none else some (hourCount series hour) }

def Member.identity (member : Member) : Identity :=
  { timeseriesId := member.timeseriesId
    stationId := member.stationId
    connectorId := member.connectorId
    pollutant := member.pollutant }

/-- The published row of the hour of a series, under a member. -/
noncomputable def rowOf (host : Host) (series : ℤ → Option ℚ) (member : Member) (hour : ℤ) : CalculatedRow ℚ :=
  calculatedRow (helperRowToNormalizedAqiV1Row host none (meansRow series member.identity hour))
    member

def HistoryRequest.identity (request : HistoryRequest) : Identity :=
  { timeseriesId := request.timeseriesId
    stationId := request.stationId
    connectorId := request.connectorId
    pollutant := request.pollutant }

/-- The ids of the request are overwritten. -/
theorem calculatedRow_meansRow {host : Host} {series : ℤ → Option ℚ} {identity : Identity}
    {member : Member} {hour : ℤ} (h : identity.pollutant = member.pollutant) :
    calculatedRow (helperRowToNormalizedAqiV1Row host none (meansRow series identity hour)) member
      = rowOf host series member hour := by
  rw [rowOf]
  have hsame : member.identity.pollutant = identity.pollutant := h.symm
  simp only [calculatedRow, helperRowToNormalizedAqiV1Row, meansRow, hsame]

section Build

variable {series : ℤ → Option ℚ} {rows : List (ObservationRow ℚ)} {call : HistoryCall} {hour : ℤ}
variable {host : Host}

theorem hourMean_eq_hourRow (request : HistoryRequest) :
    (hourRow (seriesTotal series request hour)).hourlyMean = hourMean series hour := rfl

/-- The mean of an hour stands in the column of the pollutant. -/
theorem hourHelper_means (series : ℤ → Option ℚ) (request : HistoryRequest) (hour : ℤ) :
    (hourHelper series request hour).no2HourlyMean
        = (if request.pollutant = .no2 then hourMean series hour else none) ∧
      (hourHelper series request hour).pm25HourlyMean
        = (if request.pollutant = .pm25 then hourMean series hour else none) ∧
      (hourHelper series request hour).pm10HourlyMean
        = (if request.pollutant = .pm10 then hourMean series hour else none) ∧
      (hourHelper series request hour).hourlySampleCount
        = if hourCount series hour = 0 then none else some (hourCount series hour) := by
  have hnumber : ∀ value : Option ℚ, toNumberOrNull value = value := by
    intro value
    rcases value with _ | v <;> rfl
  have hcode : (hourRow (seriesTotal series request hour)).pollutantCode = request.pollutant := rfl
  rw [hourHelper, HelperRow.write]
  rcases hpollutant : request.pollutant
  all_goals
    rw [hpollutant] at hcode
    simp only [hcode, hnumber, hourMean_eq_hourRow]
    exact ⟨rfl, rfl, rfl, rfl⟩

/-- The row of an hour, if the build has one. -/
noncomputable def rowAt (series : ℤ → Option ℚ) (call : HistoryCall) (hour : ℤ) :
    Option (HelperRow ℚ) :=
  open Classical in
  if HasRow series call hour then some (hourHelper series call.request hour) else none

theorem rowAt_eq_some_iff (h : HoldsSeries series rows) {row : HelperRow ℚ} :
    rowAt series call hour = some row ↔
      row ∈ helperRows host call rows ∧ row.timestampHourUtc = hour := by
  rw [rowAt, Option.ite_none_right_eq_some, mem_helperRows_iff h]
  constructor
  · rintro ⟨hrow, heq⟩
    rw [← Option.some.inj heq]
    exact ⟨⟨hour, hrow, rfl⟩, (hourHelper_columns series call.request hour).2.1⟩
  · rintro ⟨⟨hour', hrow, rfl⟩, hhour⟩
    rw [(hourHelper_columns series call.request hour').2.1] at hhour
    rw [← hhour]
    exact ⟨hrow, rfl⟩

/-- Looking back from an hour of the output reads the means of its last 24 hours: an hour without a
row has no values. -/
theorem lastValues_rowAt {field : HelperRow ℚ → Option ℚ} {pollutant : Pollutant}
    (hfield : ∀ hour, field (hourHelper series call.request hour)
      = if call.request.pollutant = pollutant then hourMean series hour else none)
    (hhour : hour % hourMs = 0) (hend : hour ≤ call.outputEndMs) :
    lastValues field (rowAt series call) hour
      = if call.request.pollutant = pollutant then lastMeans series hour else [] := by
  have hvalue : ∀ k : ℕ, (rowAt series call (hour - k * hourMs)).bind field
      = if call.request.pollutant = pollutant then hourMean series (hour - k * hourMs) else none := by
    intro k
    have halignedK : (hour - k * hourMs) % hourMs = 0 := by
      simp only [hourMs, minuteMs] at *
      omega
    have hendK : hour - k * hourMs ≤ call.outputEndMs := by
      simp only [hourMs, minuteMs] at *
      omega
    rw [rowAt]
    split
    · rw [Option.bind_some, hfield]
    · rename_i hrow
      have hcount : hourCount series (hour - k * hourMs) = 0 := by
        by_contra hne
        exact hrow ⟨halignedK, hendK, Or.inl hne⟩
      rw [Option.bind_none, hourMean, if_pos hcount, ite_self]
  rw [lastValues]
  simp only [hvalue]
  by_cases hpollutant : call.request.pollutant = pollutant
  · simp only [if_pos hpollutant]
    rfl
  · simp only [if_neg hpollutant]
    exact List.filterMap_eq_nil_iff.mpr fun _ _ ↦ rfl

variable (h : HoldsSeries series rows) (hplain : PlainHours series call)
include h hplain

/-- The hours of the grid have their means. -/
theorem rolled_hourHelper {pre post : List (HelperRow ℚ)}
    (hsplit : expandSeries (helperRows host call rows)
      = pre ++ hourHelper series call.request hour :: post)
    (hhour : hour % hourMs = 0) (hend : hour ≤ call.outputEndMs) :
    (hourHelper series call.request hour).rolled (hourHelper series call.request hour :: pre.reverse)
      = meansRow series call.request.identity hour := by
  have hseries : IsSeries call.request.timeseriesId (helperRows host call rows) :=
    isSeries_helperRows h hplain
  obtain ⟨hid, htime, hsynthetic, hstation, hconnector, hpollutant⟩ :=
    hourHelper_columns series call.request hour
  obtain ⟨hno2, hpm25, hpm10, hcount⟩ := hourHelper_means series call.request hour
  have hwindow25 := filterMap_takeWhile hseries (fun _ _ ↦ rowAt_eq_some_iff h)
    HelperRow.pm25HourlyMean (fun _ _ ↦ rfl) hsplit
  have hwindow10 := filterMap_takeWhile hseries (fun _ _ ↦ rowAt_eq_some_iff h)
    HelperRow.pm10HourlyMean (fun _ _ ↦ rfl) hsplit
  rw [htime, lastValues_rowAt (fun hour ↦ (hourHelper_means series call.request hour).2.1)
    hhour hend] at hwindow25
  rw [htime, lastValues_rowAt (fun hour ↦ (hourHelper_means series call.request hour).2.2.1)
    hhour hend] at hwindow10
  rw [HelperRow.rolled]
  simp only [htime, hwindow25, hwindow10]
  clear hsplit hwindow25 hwindow10
  generalize hourHelper series call.request hour = row at *
  obtain ⟨timeseriesId, stationId, connectorId, pollutantCode, timestampHourUtc, _, _, _, _, _, _, _,
    sampleCount, synthetic⟩ := row
  dsimp only at hid htime hsynthetic hstation hconnector hpollutant hno2 hpm25 hpm10 hcount
  subst hid htime hsynthetic hstation hconnector hpollutant hno2 hpm25 hpm10 hcount
  rfl

/-- The published rows of a build, before they are identified. -/
def aqiRows (host : Host) (call : HistoryCall) (rows : List (ObservationRow ℚ)) :
    List (AqiRow ℚ) :=
  helperRowsToNormalizedAqiV1Rows host (pivotNarrowRowsToHelperRows (narrowRows host call rows)) none

omit h hplain in
theorem mem_pivot_iff {row : HelperRow ℚ} (hseries : IsSeries call.request.timeseriesId
    (helperRows host call rows)) :
    row ∈ pivotNarrowRowsToHelperRows (narrowRows host call rows) ↔
      ∃ pre e post, expandSeries (helperRows host call rows) = pre ++ e :: post ∧
        row = e.rolled (e :: pre.reverse) :=
  mem_computeRolling24h_of_series hseries

/-- The hours of the grid are hours of the output or before it. -/
theorem mem_pivot_spec {row : HelperRow ℚ}
    (hrow : row ∈ pivotNarrowRowsToHelperRows (narrowRows host call rows)) :
    row.timeseriesId = call.request.timeseriesId ∧ row.timestampHourUtc % hourMs = 0 ∧
      PlainYear (row.timestampHourUtc / dayMs) := by
  have hseries : IsSeries call.request.timeseriesId (helperRows host call rows) :=
    isSeries_helperRows h hplain
  obtain ⟨pre, e, post, hsplit, rfl⟩ := (mem_pivot_iff hseries).mp hrow
  have hgrid : OnGrid (helperRows host call rows) e :=
    (mem_expandSeries hseries).mp (by rw [hsplit]; simp)
  have hspec := hgrid.spec hseries
  exact hspec

theorem meansRow_mem_pivot (hhour : hour % hourMs = 0) (hstart : call.outputStartMs < hour)
    (hend : hour ≤ call.outputEndMs) : meansRow series call.request.identity hour ∈
      pivotNarrowRowsToHelperRows (narrowRows host call rows) := by
  have hseries : IsSeries call.request.timeseriesId (helperRows host call rows) :=
    isSeries_helperRows h hplain
  have hmem : hourHelper series call.request hour ∈ helperRows host call rows :=
    (mem_helperRows_iff h).mpr ⟨hour, ⟨hhour, hend, Or.inr hstart⟩, rfl⟩
  obtain ⟨pre, post, hsplit⟩ :=
    List.append_of_mem ((mem_expandSeries hseries).mpr (.observed hmem))
  exact (mem_pivot_iff hseries).mpr
    ⟨pre, _, post, hsplit, (rolled_hourHelper h hplain hsplit hhour hend).symm⟩

omit h hplain in
/-- The row of an expected hour passes the filters of the published rows. -/
theorem isPublished_meansRow {identity : Identity} (htimeseries : 0 < identity.timeseriesId)
    (hstation : 0 < identity.stationId) (hconnector : 0 < identity.connectorId) :
    isPublished (meansRow series identity hour)
      (helperRowToNormalizedAqiV1Row host none (meansRow series identity hour)) = true := by
  simp [isPublished, helperRowToNormalizedAqiV1Row, meansRow, toPositiveIntOrNull, htimeseries,
    hstation, hconnector]

/-- **An hour of the output has one published row.** -/
theorem filter_aqiRows (htimeseries : 0 < call.request.timeseriesId)
    (hstation : 0 < call.request.stationId) (hconnector : 0 < call.request.connectorId)
    (hhour : hour % hourMs = 0) (hstart : call.outputStartMs < hour)
    (hend : hour ≤ call.outputEndMs) :
    (aqiRows host call rows).filter (fun row ↦ row.timestampHourUtc = hour)
      = [helperRowToNormalizedAqiV1Row host none (meansRow series call.request.identity hour)] := by
  have hseries : IsSeries call.request.timeseriesId (helperRows host call rows) :=
    isSeries_helperRows h hplain
  have hkeys : (pivotNarrowRowsToHelperRows (narrowRows host call rows)).Pairwise
      fun r r' ↦ r.key ≠ r'.key := pairwise_computeRolling24h_of_series hseries
  have hmeans : meansRow series call.request.identity hour ∈
      pivotNarrowRowsToHelperRows (narrowRows host call rows) :=
    meansRow_mem_pivot h hplain hhour hstart hend
  have hsorted : (aqiRows host call rows).Pairwise
      fun row row' ↦ compareAqiRows host row row' = .lt :=
    pairwise_helperRowsToNormalizedAqiV1Rows hkeys fun r hr ↦ (mem_pivot_spec h hplain hr).2
  have hnodup : (aqiRows host call rows).Nodup := by
    refine hsorted.imp fun {row row'} hlt heq ↦ ?_
    have hself : compareAqiRows host row' row' = .eq := Std.ReflCmp.compare_self
    rw [heq, hself] at hlt
    cases hlt
  refine List.perm_singleton.mp ((List.perm_ext_iff_of_nodup (hnodup.filter _)
    (List.nodup_singleton _)).mpr fun row ↦ ?_)
  rw [List.mem_filter, decide_eq_true_iff, List.mem_singleton, aqiRows,
    mem_helperRowsToNormalizedAqiV1Rows]
  constructor
  · rintro ⟨⟨r, hr, hpublished⟩, htime⟩
    -- two rows of the grid at one hour are one row
    obtain ⟨hid, haligned, -⟩ := mem_pivot_spec h hplain hr
    have hsame : r = meansRow series call.request.identity hour := by
      by_contra hne
      have hhours : r.timestampHourUtc = hour := (hpublished.key haligned).2.symm.trans htime
      have hsymm : Std.Symm fun r r' : HelperRow ℚ ↦ r.key ≠ r'.key := ⟨fun _ _ hab ↦ hab.symm⟩
      exact hkeys.forall hr hmeans hne (Prod.ext hid hhours)
    rw [← hpublished.1, hsame]
  · rintro rfl
    exact ⟨⟨_, hmeans, rfl, isPublished_meansRow htimeseries hstation hconnector⟩,
      hourOf_of_emod hhour⟩

end Build

end UkAqOps.StationHistory

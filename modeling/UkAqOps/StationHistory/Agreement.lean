import UkAqOps.StationHistory.Windows

/-!
# Requests that show the same hour

Two requests of one continuity show the same row for an hour, the one that all observations give it,
exactly when neither of them cuts the first hour that the row reads and every hour of their outputs
has a member.
-/

namespace UkAqOps.StationHistory

open Aqi Sorting

section Calls

variable {host : WebHost} {call : HistoryCall}

theorem callSpec_historyCall {policy : Policy} {bound : Continuity × Identity}
    {includeObservations includeAqi : Bool} {outputStartMs outputEndMs : ℤ}
    (h : bound.1.Valid ∧ bound.2.Valid ∧ bound.1.pollutant = bound.2.pollutant) :
    CallSpec (historyCall policy bound includeObservations includeAqi outputStartMs
      outputEndMs) := by
  obtain ⟨hvalid, hidentity, hpollutant⟩ := h
  by_cases henabled : policy.continuityEnabled = true
  · have hcontinuity : (historyCall policy bound includeObservations includeAqi outputStartMs
        outputEndMs).continuity = bound.1 := if_pos henabled
    refine ⟨?_, hidentity.timeseriesId, hidentity.stationId, hidentity.connectorId, ?_⟩
    · rw [hcontinuity]
      exact hvalid
    · rw [hcontinuity]
      exact hpollutant.symm
  · have hcontinuity : (historyCall policy bound includeObservations includeAqi outputStartMs
        outputEndMs).continuity = exactContinuity bound.2 := if_neg henabled
    refine ⟨?_, hidentity.timeseriesId, hidentity.stationId, hidentity.connectorId, ?_⟩
    · rw [hcontinuity]
      exact exactContinuity_valid hidentity
    · rw [hcontinuity]
      rfl

/-- An accepted request has a validated binding. -/
theorem IsAqiCall.spec (h : IsAqiCall host call) : CallSpec call := by
  obtain ⟨-, policy, binding, searchParams, hseries | hchunk⟩ := h
  · rw [seriesCall] at hseries
    rcases hparsed : resolveStationSeriesRequest host searchParams with _ | parsed
    · rw [hparsed] at hseries
      cases hseries
    rw [hparsed] at hseries
    obtain ⟨bound, hbound, hseries⟩ := Except.bind_eq_ok_iff.mp hseries
    rw [← Except.pure_eq_ok_iff.mp hseries]
    exact callSpec_historyCall (valid_of_validateTimeseriesBinding hbound)
  · obtain ⟨parsed, -, hchunk⟩ := Except.bind_eq_ok_iff.mp hchunk
    obtain ⟨bound, hbound, hchunk⟩ := Except.bind_eq_ok_iff.mp hchunk
    rw [← Except.pure_eq_ok_iff.mp hchunk]
    exact callSpec_historyCall (valid_of_validateTimeseriesBinding hbound)

/-- What one build gives an hour is what all observations give it. -/
theorem returns_reference_iff {continuity : Continuity} {store : Store}
    (source : CompleteSource continuity store) (h : IsAqiCall host call)
    (hcontinuity : call.continuity = continuity) (hplain : PlainCall call) {hour : ℤ}
    (hvisible : Visible call hour) {row : CalculatedRow ℚ}
    (hrow : referenceRow host.toHost continuity store hour = some row) :
    Returns host.toHost source call hour row ↔ Covered call ∧ Uncut call hour store := by
  have hspec := h.spec
  obtain ⟨member, hmember, rfl⟩ := Option.map_eq_some_iff.mp hrow
  rw [← hcontinuity] at hmember
  have hpollutant : call.request.pollutant = member.pollutant := by
    obtain ⟨hmem, -⟩ := (memberOn_eq_some_iff hspec.valid).mp hmember
    exact hspec.pollutant.trans (hspec.valid.pollutant member hmem).symm
  rw [returns_iff source hcontinuity hspec h.1 hplain hvisible, hmember, Option.map_some,
    Option.some.injEq, ← hcontinuity, rowOf_readSeries_iff h.1 hvisible hpollutant]

end Calls

/-- **Two accepted requests of one continuity give an hour the same row, the one that all
observations give it, if and only if** each of their hours has a member and neither leaves out, of
the first hour that the row reads, an observation that changes its mean. -/
theorem aqiRow_independent_of_window (host : WebHost) {continuity : Continuity} {store : Store}
    (source₁ source₂ : CompleteSource continuity store) {call₁ call₂ : HistoryCall}
    (h₁ : IsAqiCall host call₁) (h₂ : IsAqiCall host call₂)
    (hcontinuity₁ : call₁.continuity = continuity) (hcontinuity₂ : call₂.continuity = continuity)
    (hplain₁ : PlainCall call₁) (hplain₂ : PlainCall call₂) {hour : ℤ}
    (hvisible₁ : Visible call₁ hour) (hvisible₂ : Visible call₂ hour) :
    (∃ row, Returns host.toHost source₁ call₁ hour row ∧ Returns host.toHost source₂ call₂ hour row ∧
        referenceRow host.toHost continuity store hour = some row) ↔
      (Covered call₁ ∧ Uncut call₁ hour store) ∧ Covered call₂ ∧ Uncut call₂ hour store := by
  constructor
  · rintro ⟨row, hfirst, hsecond, hrow⟩
    exact ⟨(returns_reference_iff source₁ h₁ hcontinuity₁ hplain₁ hvisible₁ hrow).mp hfirst,
      (returns_reference_iff source₂ h₂ hcontinuity₂ hplain₂ hvisible₂ hrow).mp hsecond⟩
  · rintro ⟨hfirst, hsecond⟩
    obtain ⟨member, hmember⟩ := Option.isSome_iff_exists.mp (hfirst.1 hour hvisible₁)
    have hrow : referenceRow host.toHost continuity store hour
        = some (rowOf host.toHost (logicalSeries continuity store) member hour) := by
      rw [referenceRow, ← hcontinuity₁, hmember]
      rfl
    exact ⟨_, (returns_reference_iff source₁ h₁ hcontinuity₁ hplain₁ hvisible₁ hrow).mpr hfirst,
      (returns_reference_iff source₂ h₂ hcontinuity₂ hplain₂ hvisible₂ hrow).mpr hsecond, hrow⟩

/-! ## A window that starts inside an hour -/

/-- A host that reads decimal numbers. -/
def isoWebHost : WebHost :=
  { isoHost with
    number := fun text ↦
      if text.toList ≠ [] ∧ text.toList.all Char.isDigit then some (decimalOf text.toList) else none
    toUpperCase := String.toUpper
    toLowerCase := String.toLower }

def openPolicy : Policy :=
  { stableAqiHeadMaxHours := 168
    observationChunkMaxHours := 168
    continuityEnabled := true
    calculatedHistoryAqiEnabled := true }

/-- The binding of a timeseries of nitrogen dioxide alone. -/
def no2Binding : Binding :=
  { schemaVersion := some 1
    historyVersion := "v2"
    indexKind := "timeseries_binding"
    timeseriesId := some 7
    connectorId := some 1
    stationId := some 3
    pollutantCode := "no2"
    continuity := none }

def no2Identity : Identity :=
  { timeseriesId := 7, stationId := 3, connectorId := 1, pollutant := .no2 }

/-- A series request from a start to 02:00 on 2024-01-01. -/
def seriesParams (start : String) : SearchParams := fun name ↦
  if name = "timeseries_id" then some "7"
  else if name = "pollutant" then some "no2"
  else if name = "start_utc" then some start
  else if name = "end_utc" then some "2024-01-01T02:00:00.000Z"
  else none

/-- The call that such a request makes. -/
def no2Call (outputStartMs : ℤ) : HistoryCall :=
  { request := {
      timeseriesId := 7, stationId := 3, connectorId := 1, pollutant := .no2
      includeObservations := true, includeAqi := true }
    continuity := exactContinuity no2Identity
    outputStartMs
    outputEndMs := 1704074400000 }

/-- 10 µg/m³ at 00:10 and 20 µg/m³ at 00:50. -/
def no2Store : Store := fun timeseriesId timestampMs ↦
  if timeseriesId = 7 ∧ timestampMs = 1704067800000 then some 10
  else if timeseriesId = 7 ∧ timestampMs = 1704070200000 then some 20
  else none

def no2Row (identity : Identity) (timestampMs : ℤ) (value : ℚ) : ObservationRow ℚ :=
  { connectorId := identity.connectorId
    stationId := identity.stationId
    timeseriesId := identity.timeseriesId
    pollutantCode := identity.pollutant
    observedAt := timestampMs
    value
    source := "r2" }

/-- The rows of the store in a range. -/
def no2Rows (identity : Identity) (startMs endMs : ℤ) : List (ObservationRow ℚ) :=
  [1704067800000, 1704070200000].filterMap fun timestampMs ↦
    if startMs ≤ timestampMs ∧ timestampMs < endMs then
      (no2Store identity.timeseriesId timestampMs).map (no2Row identity timestampMs)
    else none

def no2Source : CompleteSource (exactContinuity no2Identity) no2Store where
  mode := .whole
  reader identity startMs endMs := { rows := no2Rows identity startMs endMs }
  ingest := {}
  complete identity startMs endMs timestampMs value hstart hend hvalue _ := by
    have htime : timestampMs ∈ [1704067800000, 1704070200000] := by
      simp only [no2Store] at hvalue
      split at hvalue
      · rename_i h
        simp [h.2]
      · split at hvalue
        · rename_i h
          simp [h.2]
        · cases hvalue
    refine ⟨no2Row identity timestampMs value,
      List.mem_filterMap.mpr ⟨timestampMs, htime, ?_⟩, rfl, rfl⟩
    rw [if_pos ⟨hstart, hend⟩, hvalue]
    rfl
  sound identity startMs endMs row hrow := by
    obtain ⟨timestampMs, -, hrow⟩ := List.mem_filterMap.mp hrow
    rw [Option.ite_none_right_eq_some] at hrow
    obtain ⟨hrange, hrow⟩ := hrow
    obtain ⟨value, hvalue, rfl⟩ := Option.map_eq_some_iff.mp hrow
    exact ⟨hrange.1, hrange.2, rfl, rfl, rfl, rfl, hvalue⟩
  whole _ _ _ := rfl
  ingested row hrow := absurd hrow List.not_mem_nil
  recovered _ row hrow := absurd hrow List.not_mem_nil

/-- **A start inside an hour changes its row.** Both requests show 01:00; the one from 00:30 leaves
out the observation at 00:10. -/
theorem aqiRow_depends_on_window :
    IsAqiCall isoWebHost (no2Call 1704069000000) ∧ IsAqiCall isoWebHost (no2Call 1704067200000) ∧
      Visible (no2Call 1704069000000) 1704070800000 ∧
      Visible (no2Call 1704067200000) 1704070800000 ∧
      ¬∃ row, Returns isoWebHost.toHost no2Source (no2Call 1704069000000) 1704070800000 row ∧
        Returns isoWebHost.toHost no2Source (no2Call 1704067200000) 1704070800000 row := by
  refine ⟨⟨rfl, openPolicy, no2Binding, seriesParams "2024-01-01T00:30:00.000Z",
      Or.inl (by decide +kernel)⟩,
    ⟨rfl, openPolicy, no2Binding, seriesParams "2024-01-01T00:00:00.000Z",
      Or.inl (by decide +kernel)⟩, ⟨by decide, by decide, by decide⟩,
    ⟨by decide, by decide, by decide⟩, ?_⟩
  rintro ⟨row, ⟨history, hbuild, hrow⟩, history', hbuild', hrow'⟩
  have hmeans : (buildCalculatedHistory isoWebHost.toHost .whole no2Source.reader {}
      (no2Call 1704069000000)).map (fun history ↦ (history.aqi.rows.filter fun row ↦
        row.row.timestampHourUtc = 1704070800000).map fun row ↦ row.row.hourlyMean)
          = .ok [some 20] := by
    decide +kernel
  have hmeans' : (buildCalculatedHistory isoWebHost.toHost .whole no2Source.reader {}
      (no2Call 1704067200000)).map (fun history ↦ (history.aqi.rows.filter fun row ↦
        row.row.timestampHourUtc = 1704070800000).map fun row ↦ row.row.hourlyMean)
          = .ok [some 15] := by
    decide +kernel
  rw [show buildCalculatedHistory _ .whole no2Source.reader {} _ = .ok history from hbuild,
    Except.map, hrow] at hmeans
  rw [show buildCalculatedHistory _ .whole no2Source.reader {} _ = .ok history' from hbuild',
    Except.map, hrow'] at hmeans'
  have hsame := (Except.ok.inj hmeans).symm.trans (Except.ok.inj hmeans')
  exact absurd hsame (by decide)

/-- The next hour is the same in both. -/
theorem aqiRow_independent_of_window_next : ∃ row,
    Returns isoWebHost.toHost no2Source (no2Call 1704069000000) 1704074400000 row ∧
      Returns isoWebHost.toHost no2Source (no2Call 1704067200000) 1704074400000 row ∧
      referenceRow isoWebHost.toHost (exactContinuity no2Identity) no2Store 1704074400000
        = some row := by
  have hseries : ∀ start outputStartMs,
      seriesCall isoWebHost openPolicy no2Binding (seriesParams start) = .ok (no2Call outputStartMs) →
      IsAqiCall isoWebHost (no2Call outputStartMs) := fun start _ h ↦
    ⟨rfl, openPolicy, no2Binding, seriesParams start, Or.inl h⟩
  have huncut : ∀ outputStartMs, outputStartMs ≤ 1704070800000 →
      Uncut (no2Call outputStartMs) 1704074400000 no2Store := by
    intro outputStartMs hle
    refine Or.inl fun t hlower hupper ↦ ?_
    have hfirst : firstHour (no2Call outputStartMs) 1704074400000 = 1704074400000 := rfl
    have hrequired : requiredStartMs (no2Call outputStartMs) = outputStartMs - 0 * hourMs := rfl
    rw [hfirst] at hlower
    rw [hrequired] at hupper
    simp only [hourMs, minuteMs] at hlower hupper
    omega
  exact (aqiRow_independent_of_window isoWebHost no2Source no2Source
    (hseries "2024-01-01T00:30:00.000Z" 1704069000000 (by decide +kernel))
    (hseries "2024-01-01T00:00:00.000Z" 1704067200000 (by decide +kernel)) rfl rfl
    ⟨⟨by decide, by decide⟩, by decide, by decide⟩ ⟨⟨by decide, by decide⟩, by decide, by decide⟩
    ⟨by decide, by decide, by decide⟩ ⟨by decide, by decide, by decide⟩).mpr
    ⟨⟨fun _ _ ↦ rfl, huncut _ (by decide)⟩, fun _ _ ↦ rfl, huncut _ (by decide)⟩

end UkAqOps.StationHistory

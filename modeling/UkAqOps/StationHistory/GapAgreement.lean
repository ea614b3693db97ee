import UkAqOps.StationHistory.Agreement
import UkAqOps.StationHistory.GapRows

/-!
# Histories that know their gaps

A history with air quality rows should answer whatever the gaps of its continuity are: the selected
segments and the reported gaps cut the output up, a gap makes both parts incomplete, and no row
stands where no member is valid. A build gives every hour of its output a row, and has none to give
in a gap.
-/

namespace UkAqOps.StationHistory

open Aqi Sorting Holes

/-! ## What a history says of its gaps -/

section Statement

variable (call : HistoryCall)

/-- The segments and gaps of the output alone. -/
def HistoryCall.visibleSelection : Selection :=
  selectContinuitySegments call.continuity call.outputStartMs (call.outputEndMs + 1)

/-- The member is that of a row: its ids stand in it, and it is valid at its hour. -/
def IsAttributed (row : CalculatedRow ℚ) (member : Member) : Prop :=
  member ∈ call.continuity.members ∧ member.covers row.row.timestampHourUtc = true ∧
    row.row.timeseriesId = some member.timeseriesId ∧ row.row.stationId = some member.stationId ∧
    row.row.connectorId = some member.connectorId

/-- A history that accounts for the gaps of the continuity in its output. -/
structure KnowsGaps (history : CalculatedHistory ℚ) : Prop where
  tile : Tile (call.visibleSelection.segments.map Segment.bounds ++ history.aqi.gapRanges)
    call.outputStartMs (call.outputEndMs + 1)
  observed : call.request.includeObservations = true →
    ∀ gap ∈ history.aqi.gapRanges, gap ∈ history.observations.gapRanges
  incomplete : history.aqi.gapRanges ≠ [] →
    history.observations.responseComplete = false ∧ history.aqi.responseComplete = false
  attributed : ∀ row ∈ history.aqi.rows, ∃ member, IsAttributed call row member

/-- The instants that a build writes out are those of dates. -/
def DatedCall : Prop :=
  IsTimeValue (requiredStartMs call) ∧ IsTimeValue (call.outputEndMs + hourMs)

instance : Decidable (DatedCall call) := inferInstanceAs (Decidable (_ ∧ _))

/-- The call for observations and indices in the range, by a validated binding. -/
def aqiCall (bound : Continuity × Identity) (includeObservations : Bool)
    (outputStartMs outputEndMs : ℤ) : HistoryCall :=
  { request := {
      timeseriesId := bound.2.timeseriesId
      stationId := bound.2.stationId
      connectorId := bound.2.connectorId
      pollutant := bound.2.pollutant
      includeObservations
      includeAqi := true }
    continuity := bound.1
    outputStartMs
    outputEndMs }

end Statement

/-! ## The steps of a build -/

section Build

variable {call : HistoryCall} {store : Store} {host : Host} {hour : ℤ}

theorem checkedTime_ok_iff {ms : ℤ} : (∃ t, checkedTime ms = .ok t) ↔ IsTimeValue ms := by
  have hchecked : (∃ t, checkedTime ms = .ok t) ↔
      ¬(ms < -8640000000000000 ∨ 8640000000000000 < ms) := by
    constructor
    · rintro ⟨t, ht⟩
      obtain ⟨_, hrange, -⟩ := Except.bind_eq_ok_iff.mp ht
      exact Except.refuseIf_eq_ok_iff.mp hrange
    · exact fun hrange ↦
        ⟨ms, Except.bind_eq_ok_iff.mpr ⟨(), Except.refuseIf_eq_ok_iff.mpr hrange, rfl⟩⟩
  rw [hchecked, IsTimeValue]
  omega

theorem calculateLogicalAqi_ok_iff {rows : List (ObservationRow ℚ)} {aqi : List (CalculatedRow ℚ)} :
    calculateLogicalAqi host rows call.request call.selection.segments call.outputStartMs
        call.outputEndMs (hourEndpoints call.outputStartMs call.outputEndMs) = .ok aqi ↔
      IsTimeValue (call.outputStartMs + hourMs) ∧ IsTimeValue (call.outputEndMs + hourMs) ∧
        ((aqiRows host call rows).filter fun row ↦ call.outputStartMs < row.timestampHourUtc &&
          row.timestampHourUtc ≤ call.outputEndMs).mapM (identifyRow call.selection.segments)
            = .ok aqi := by
  rw [← checkedTime_ok_iff, ← checkedTime_ok_iff, calculateLogicalAqi, Except.bind_eq_ok_iff]
  simp only [Except.bind_eq_ok_iff]
  constructor
  · rintro ⟨t, hstart, t', hend, hrows⟩
    exact ⟨⟨t, hstart⟩, ⟨t', hend⟩, hrows⟩
  · rintro ⟨⟨t, hstart⟩, ⟨t', hend⟩, hrows⟩
    exact ⟨t, hstart, t', hend, hrows⟩

/-- The gaps and the flags of an answer. -/
theorem gaps_of_buildCalculatedHistory {mode : ReadMode} {reader : Reader ℚ} {ingest : Ingest ℚ}
    (haqi : call.request.includeAqi = true) {history : CalculatedHistory ℚ}
    (hbuild : buildCalculatedHistory host mode reader ingest call = .ok history) :
    history.aqi.gapRanges = call.visibleSelection.gaps ++ missingRanges
        (hourEndpoints call.outputStartMs call.outputEndMs)
        (history.aqi.rows.map fun row ↦ row.row.timestampHourUtc) ∧
      (call.request.includeObservations = true →
        ∀ gap ∈ call.visibleSelection.gaps, gap ∈ history.observations.gapRanges) ∧
      (call.visibleSelection.gaps ≠ [] → history.observations.responseComplete = false) ∧
      (call.selection.gaps ≠ [] → history.aqi.responseComplete = false) := by
  rw [buildCalculatedHistory] at hbuild
  obtain ⟨_, -, hbuild⟩ := Except.bind_eq_ok_iff.mp hbuild
  obtain ⟨rows, -, hbuild⟩ := Except.bind_eq_ok_iff.mp hbuild
  rw [if_pos haqi] at hbuild
  obtain ⟨aqi, -, hbuild⟩ := Except.bind_eq_ok_iff.mp hbuild
  obtain ⟨t, -, hbuild⟩ := Except.bind_eq_ok_iff.mp hbuild
  rw [← Except.pure_eq_ok_iff.mp hbuild]
  refine ⟨if_pos haqi, fun hobservations gap hgap ↦ ?_, fun hgaps ↦ ?_, fun hgaps ↦ ?_⟩
  · simp only [if_pos hobservations]
    exact List.mem_append_left _ hgap
  · have hfalse : decide (call.visibleSelection.gaps = []) = false := decide_eq_false hgaps
    exact (congrArg _ hfalse).trans (Bool.and_false _)
  · simp only [decide_eq_false hgaps, Bool.false_and, Bool.and_false]

theorem missingRanges_eq_nil_iff {expected present : List ℤ} :
    missingRanges expected present = [] ↔ ∀ timestamp ∈ expected, timestamp ∈ present := by
  rw [missingRanges, List.map_eq_nil_iff, List.filter_eq_nil_iff]
  simp only [decide_eq_true_iff, not_not]

/-- A start and an end of dates leave room for the hour after the start. -/
theorem DatedCall.start (h : DatedCall call) (hle : call.outputStartMs ≤ call.outputEndMs) :
    IsTimeValue (call.outputStartMs + hourMs) := by
  have hrequired := requiredStartMs_le call
  obtain ⟨⟨hlower, -⟩, -, hupper⟩ := h
  rw [IsTimeValue]
  simp only [hourMs, minuteMs] at *
  omega

theorem DatedCall.datedHours (h : DatedCall call) : DatedHours (readSeries call store) call := by
  intro hour hrow
  obtain ⟨hlower, hupper⟩ := bounds_of_hasRow hrow
  obtain ⟨⟨hstart, -⟩, -, hend⟩ := h
  rw [IsTimeValue]
  simp only [hourMs, minuteMs] at *
  omega

section Rows

variable {rows : List (ObservationRow ℚ)} {aqi : List (CalculatedRow ℚ)}
variable (hspec : CallSpec call) (h : HoldsSeries (readSeries call store) rows)
variable (hdated : DatedHours (readSeries call store) call)
include hspec h hdated

/-- The identified rows stand at hours of the output, under the members that are valid there. -/
theorem attributed_of_mem (hidentified : ((aqiRows host call rows).filter fun row ↦
      call.outputStartMs < row.timestampHourUtc && row.timestampHourUtc ≤ call.outputEndMs).mapM
        (identifyRow call.selection.segments) = .ok aqi) {out : CalculatedRow ℚ}
    (hout : out ∈ aqi) :
    Visible call out.row.timestampHourUtc ∧
      (∃ e ∈ expandSeries (helperRows host call rows),
        e.timestampHourUtc = out.row.timestampHourUtc) ∧
      ∃ member, IsAttributed call out member := by
  obtain ⟨row, hrow, hid⟩ := Except.exists_input_of_mem hidentified hout
  obtain ⟨hmem, hwindow⟩ := List.mem_filter.mp hrow
  simp only [Bool.and_eq_true, decide_eq_true_iff] at hwindow
  obtain ⟨hvisible, hgrid⟩ := visible_of_mem_aqiRows h hdated hmem hwindow.1 hwindow.2
  obtain ⟨member, hmember, rfl⟩ := (identifyRow_ok_iff hspec hvisible).mp hid
  obtain ⟨hmemMember, hcovers⟩ := (memberOn_eq_some_iff hspec.valid).mp hmember
  exact ⟨hvisible, hgrid, member, hmemMember, hcovers, rfl, rfl, rfl⟩

variable (host) in
/-- The rows are identified when the hours of the output have members. -/
theorem exists_identified (hcovered : Covered call) : ∃ aqi,
    ((aqiRows host call rows).filter fun row ↦ call.outputStartMs < row.timestampHourUtc &&
      row.timestampHourUtc ≤ call.outputEndMs).mapM (identifyRow call.selection.segments)
        = .ok aqi := by
  refine (Except.exists_mapM_eq_ok_iff _ _).mpr fun row hrow ↦ ?_
  obtain ⟨hmem, hwindow⟩ := List.mem_filter.mp hrow
  simp only [Bool.and_eq_true, decide_eq_true_iff] at hwindow
  obtain ⟨hvisible, -⟩ := visible_of_mem_aqiRows h hdated hmem hwindow.1 hwindow.2
  obtain ⟨member, hmember⟩ := Option.isSome_iff_exists.mp (hcovered _ hvisible)
  exact ⟨_, (identifyRow_ok_iff hspec hvisible).mpr ⟨member, hmember, rfl⟩⟩

/-- **Every hour of the output has an identified row exactly when the grid reaches it.** -/
theorem exists_row_iff (hidentified : ((aqiRows host call rows).filter fun row ↦
      call.outputStartMs < row.timestampHourUtc && row.timestampHourUtc ≤ call.outputEndMs).mapM
        (identifyRow call.selection.segments) = .ok aqi) :
    (∀ hour, Visible call hour → ∃ out ∈ aqi, out.row.timestampHourUtc = hour) ↔
      SpansTexts (readSeries call store) call := by
  rw [← reaches_iff host h hdated]
  refine forall_congr' fun hour ↦ forall_congr' fun hvisible ↦ ⟨?_, ?_⟩
  · rintro ⟨out, hout, rfl⟩
    exact (attributed_of_mem hspec h hdated hidentified hout).2.1
  · rintro ⟨e, he, hhour⟩
    obtain ⟨row, hrow, htime⟩ := exists_mem_aqiRows h hdated hspec.timeseriesId hspec.stationId
      hspec.connectorId hvisible he hhour
    have hwindow : row ∈ (aqiRows host call rows).filter fun row ↦
        call.outputStartMs < row.timestampHourUtc && row.timestampHourUtc ≤ call.outputEndMs := by
      refine List.mem_filter.mpr ⟨hrow, ?_⟩
      rw [htime, Bool.and_eq_true, decide_eq_true_iff, decide_eq_true_iff]
      exact hvisible.2
    obtain ⟨out, hout, hid⟩ := Except.exists_output_of_mem hidentified hwindow
    refine ⟨out, hout, ?_⟩
    rw [← htime] at hvisible
    obtain ⟨member, -, rfl⟩ := (identifyRow_ok_iff hspec hvisible).mp hid
    exact htime

end Rows

/-- **A build knows its gaps exactly when** it writes out instants of dates, every hour of its
output has a member, and its grid reaches these hours. -/
theorem knowsGaps_iff {continuity : Continuity} (source : CompleteSource continuity store)
    (hcontinuity : call.continuity = continuity) (hspec : CallSpec call)
    (haqi : call.request.includeAqi = true) (hle : call.outputStartMs ≤ call.outputEndMs)
    (hcontext : call.selection.segments ≠ []) :
    (∃ history, buildCalculatedHistory host source.mode source.reader source.ingest call
        = .ok history ∧ KnowsGaps call history) ↔
      DatedCall call ∧ Covered call ∧ SpansTexts (readSeries call store) call := by
  obtain ⟨rows, hmerge, hrows⟩ :=
    @reads_spec call store host continuity source hcontinuity (hcontinuity ▸ hspec.valid)
  have htile : Tile (call.visibleSelection.segments.map Segment.bounds ++
      call.visibleSelection.gaps) call.outputStartMs (call.outputEndMs + 1) :=
    tile_selection hspec.valid (by omega)
  have hexpected : ∀ (aqi : List (CalculatedRow ℚ)), missingRanges
      (hourEndpoints call.outputStartMs call.outputEndMs)
      (aqi.map fun row ↦ row.row.timestampHourUtc) = [] ↔
        ∀ hour, Visible call hour → ∃ out ∈ aqi, out.row.timestampHourUtc = hour := by
    intro aqi
    simp only [missingRanges_eq_nil_iff, mem_hourEndpoints, List.mem_map]
    exact Iff.rfl
  constructor
  · rintro ⟨history, hbuild, hknows⟩
    obtain ⟨-, rows', hmerge', hcalc, hrequired⟩ :=
      (buildCalculatedHistory_ok_iff haqi).mp ⟨history, hbuild, rfl⟩
    rw [hmerge] at hmerge'
    rw [← Except.ok.inj hmerge', calculateLogicalAqi_ok_iff] at hcalc
    obtain ⟨-, hend, hidentified⟩ := hcalc
    have hdatedCall : DatedCall call := ⟨checkedTime_ok_iff.mp hrequired, hend⟩
    have hdated : DatedHours (readSeries call store) call := hdatedCall.datedHours
    have hmissing : missingRanges (hourEndpoints call.outputStartMs call.outputEndMs)
        (history.aqi.rows.map fun row ↦ row.row.timestampHourUtc) = [] := by
      refine Tile.eq_nil_of_append htile ?_
      have htiled := hknows.tile
      rw [(gaps_of_buildCalculatedHistory haqi hbuild).1, ← List.append_assoc] at htiled
      exact htiled
    have hall := (hexpected history.aqi.rows).mp hmissing
    refine ⟨hdatedCall, fun hour hvisible ↦ ?_,
      (exists_row_iff hspec hrows hdated hidentified).mp hall⟩
    obtain ⟨out, hout, rfl⟩ := hall hour hvisible
    obtain ⟨member, hmem, hcovers, -⟩ := hknows.attributed out hout
    exact Option.isSome_iff_exists.mpr
      ⟨member, (memberOn_eq_some_iff hspec.valid).mpr ⟨hmem, hcovers⟩⟩
  · rintro ⟨hdatedCall, hcovered, hspans⟩
    have hdated : DatedHours (readSeries call store) call := hdatedCall.datedHours
    obtain ⟨aqi, hidentified⟩ := exists_identified host hspec hrows hdated hcovered
    obtain ⟨history, hbuild, rfl⟩ := (buildCalculatedHistory_ok_iff haqi).mpr
      ⟨hcontext, rows, hmerge, calculateLogicalAqi_ok_iff.mpr
        ⟨hdatedCall.start hle, hdatedCall.2, hidentified⟩, checkedTime_ok_iff.mpr hdatedCall.1⟩
    obtain ⟨hgaps, hobserved, hobservations, hair⟩ := gaps_of_buildCalculatedHistory haqi hbuild
    have hall := (exists_row_iff hspec hrows hdated hidentified).mpr hspans
    rw [(hexpected history.aqi.rows).mpr hall, List.append_nil] at hgaps
    refine ⟨history, hbuild, ?_, ?_, ?_, fun row hrow ↦
      (attributed_of_mem hspec hrows hdated hidentified hrow).2.2⟩
    · rw [hgaps]
      exact htile
    · rw [hgaps]
      exact hobserved
    · rw [hgaps]
      intro hne
      exact ⟨hobservations hne, hair (gaps_ne_nil_of_le hspec.valid (requiredStartMs_le call)
        (by omega) hne)⟩

end Build

/-! ## Validated bindings -/

/-- **For every validated binding and every range whose context meets a member, a build knows its
gaps if and only if** the instants that it writes out are those of dates, a member is valid at every
clock hour after the start up to the end, and, for a particulate, these hours lie between the hour
whose text sorts first and the one whose text sorts last. -/
theorem history_knowsGaps_iff (host : WebHost) {binding : Binding} {lookup : Lookup}
    {bound : Continuity × Identity}
    (hbound : validateTimeseriesBinding host binding lookup = .ok bound) {store : Store}
    (source : CompleteSource bound.1 store) (includeObservations : Bool)
    {outputStartMs outputEndMs : ℤ} (hle : outputStartMs ≤ outputEndMs)
    (hcontext : (aqiCall bound includeObservations outputStartMs outputEndMs).selection.segments
      ≠ []) :
    (∃ history, buildCalculatedHistory host.toHost source.mode source.reader source.ingest
        (aqiCall bound includeObservations outputStartMs outputEndMs) = .ok history ∧
      KnowsGaps (aqiCall bound includeObservations outputStartMs outputEndMs) history) ↔
      DatedCall (aqiCall bound includeObservations outputStartMs outputEndMs) ∧
        Covered (aqiCall bound includeObservations outputStartMs outputEndMs) ∧
        SpansTexts (readSeries (aqiCall bound includeObservations outputStartMs outputEndMs) store)
          (aqiCall bound includeObservations outputStartMs outputEndMs) := by
  obtain ⟨hvalid, hidentity, hpollutant⟩ := valid_of_validateTimeseriesBinding hbound
  exact knowsGaps_iff source rfl ⟨hvalid, hidentity.timeseriesId, hidentity.stationId,
    hidentity.connectorId, hpollutant.symm⟩ rfl hle hcontext

/-! ## A day without a member -/

def rawMember (timeseriesId : ℤ) (validFromDayUtc : String) (validToDayUtc : Option String) :
    RawMember :=
  { stationId := some 3, timeseriesId := some timeseriesId, validFromDayUtc, validToDayUtc }

/-- A binding whose first member ends with 2024-01-01 and whose second starts on 2024-01-03. -/
def gapBinding : Binding :=
  { no2Binding with
    schemaVersion := some 2
    continuity := some {
      schemaVersion := some 1
      source := "sos_station_timeseries_site_refs"
      pollutantCode := "no2"
      continuityKey := "1:UKA00001:no2"
      siteRef := "MY1"
      ukAirRef := "UKA00001"
      members := [rawMember 7 "2024-01-01" (some "2024-01-01"), rawMember 8 "2024-01-03" none] } }

def gapMember (timeseriesId validFromDayUtc : ℤ) (validToDayUtc : Option ℤ) : Member :=
  { stationId := 3, timeseriesId, connectorId := 1, pollutant := .no2
    validFromDayUtc := some validFromDayUtc, validToDayUtc }

def gapContinuity : Continuity :=
  { enabled := true
    pollutant := .no2
    members := [gapMember 7 19723 (some 19723), gapMember 8 19725 none] }

theorem validate_gapBinding : validateTimeseriesBinding isoWebHost gapBinding
    ⟨some 7, some 1, some .no2⟩ = .ok (gapContinuity, no2Identity) := by
  decide +kernel

/-- A store without observations, read without error. -/
def emptySource (continuity : Continuity) : CompleteSource continuity fun _ _ ↦ none where
  mode := .whole
  reader _ _ _ := { rows := [] }
  ingest := {}
  complete _ _ _ _ _ _ _ hvalue := by cases hvalue
  sound _ _ _ row hrow := absurd hrow List.not_mem_nil
  whole _ _ _ := rfl
  ingested row hrow := absurd hrow List.not_mem_nil
  recovered _ row hrow := absurd hrow List.not_mem_nil

/-- **A gap between two members stops a build.** From 2024-01-01T12:00 to 2024-01-03T12:00 the hour
2024-01-02T00:00 has no member. -/
theorem not_knowsGaps_of_gap :
    validateTimeseriesBinding isoWebHost gapBinding ⟨some 7, some 1, some .no2⟩
        = .ok (gapContinuity, no2Identity) ∧
      (aqiCall (gapContinuity, no2Identity) true 1704110400000 1704283200000).selection.segments
        ≠ [] ∧
      (buildCalculatedHistory isoWebHost.toHost .whole (emptySource gapContinuity).reader {}
        (aqiCall (gapContinuity, no2Identity) true 1704110400000 1704283200000)).map (fun _ ↦ ())
          = .error aqiIdentityMissing ∧
      ¬∃ history, buildCalculatedHistory isoWebHost.toHost .whole
          (emptySource gapContinuity).reader {}
          (aqiCall (gapContinuity, no2Identity) true 1704110400000 1704283200000) = .ok history ∧
        KnowsGaps (aqiCall (gapContinuity, no2Identity) true 1704110400000 1704283200000)
          history := by
  have herror : (buildCalculatedHistory isoWebHost.toHost .whole
      (emptySource gapContinuity).reader {}
      (aqiCall (gapContinuity, no2Identity) true 1704110400000 1704283200000)).map (fun _ ↦ ())
        = .error aqiIdentityMissing := by
    decide +kernel
  refine ⟨validate_gapBinding, ?_, herror, ?_⟩
  · intro hnil
    have hlength : (aqiCall (gapContinuity, no2Identity) true 1704110400000
        1704283200000).selection.segments.length = 2 := by
      decide +kernel
    rw [hnil] at hlength
    cases hlength
  · rintro ⟨history, hbuild, -⟩
    rw [hbuild] at herror
    cases herror

/-- From 2024-01-02T23:30 to 2024-01-03T02:00 the gap has no clock hour, and a build reports it. -/
theorem history_knowsGaps_of_halfHour : ∃ history,
    buildCalculatedHistory isoWebHost.toHost .whole (emptySource gapContinuity).reader {}
        (aqiCall (gapContinuity, no2Identity) true 1704238200000 1704247200000) = .ok history ∧
      KnowsGaps (aqiCall (gapContinuity, no2Identity) true 1704238200000 1704247200000)
        history := by
  refine (history_knowsGaps_iff isoWebHost validate_gapBinding (emptySource gapContinuity) true
    (by decide) ?_).mpr ⟨by decide, ?_, fun hne ↦ absurd rfl hne⟩
  · intro hnil
    have hlength : (aqiCall (gapContinuity, no2Identity) true 1704238200000
        1704247200000).selection.segments.length = 1 := by
      decide +kernel
    rw [hnil] at hlength
    cases hlength
  · rintro hour ⟨haligned, hstart, hend⟩
    have hmember : gapMember 8 19725 none ∈ gapContinuity.members := by decide
    refine Option.isSome_iff_exists.mpr ⟨_, (memberOn_eq_some_iff
      (valid_of_validateTimeseriesBinding validate_gapBinding).1).mpr
        ⟨hmember, Member.covers_iff.mpr ⟨?_, ?_⟩⟩⟩
    · rintro s hs
      obtain rfl : 19725 * dayMs = s := Option.some.inj hs
      simp only [aqiCall, dayMs, hourMs, minuteMs] at *
      omega
    · rintro e he
      cases he

end UkAqOps.StationHistory

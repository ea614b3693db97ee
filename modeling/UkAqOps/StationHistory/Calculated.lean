import UkAqOps.StationHistory.Requests

/-!
# The calculated history of a station

`src/workers/uk_aq_station_history/src/calculated_history.mjs`: the observations of the members of a
continuity are read for the range of a request and, for particulates, the 23 hours before it. They
are merged into one logical series, averaged over the hours that end at a clock hour, and laid on the
grid of the shared levels.
-/

namespace UkAqOps.StationHistory

open Aqi Sorting

variable {ν : Type} [Numeric ν] [DecidableEq ν]

/-! ## Hours -/

/-- The clock hour that ends the hour of an instant. -/
def hourEndingEndpoint (timestampMs : ℤ) : ℤ := (timestampMs + hourMs - 1) / hourMs * hourMs

/-- The clock hours after the start, up to the end. -/
def hourEndpoints (startMs endMs : ℤ) : List ℤ :=
  hourCursors (startMs / hourMs * hourMs + hourMs) (endMs + 1)

/-- `new Date(ms).toISOString()` of an instant that a date can hold. -/
def checkedTime (ms : ℤ) : Except String ℤ := do
  Except.refuseIf (ms < -8640000000000000 ∨ 8640000000000000 < ms) "Invalid time value"
  return ms

/-! ## Observations -/

/-- An observation as the readers return it. -/
structure ObservationRow (ν : Type) where
  connectorId : ℤ
  stationId : ℤ
  timeseriesId : ℤ
  pollutantCode : Pollutant
  observedAt : ℤ
  value : ν
  source : String
deriving DecidableEq

def ObservationRow.key (row : ObservationRow ν) : ℤ × ℤ := (row.timeseriesId, row.observedAt)

def observationConflict : String := "station_history_continuity_observation_conflict"

/-- The checks that pass a row over. -/
def isSkipped (requiredStartMs requiredEndExclusiveMs : ℤ) (row : ObservationRow ν) : Bool :=
  !Numeric.isFinite row.value || Numeric.lt row.value Numeric.zero ||
    row.observedAt < requiredStartMs || requiredEndExclusiveMs ≤ row.observedAt

/-- One turn of the loop of `prepare`: the values seen, and the rows prepared. -/
def prepareStep (segments : List Segment) (requiredStartMs requiredEndExclusiveMs : ℤ)
    (state : OrderedMap (ℤ × ℤ) ν × List (ObservationRow ν)) (row : ObservationRow ν) :
    Except String (OrderedMap (ℤ × ℤ) ν × List (ObservationRow ν)) :=
  if isSkipped requiredStartMs requiredEndExclusiveMs row then .ok state
  else match memberAt row.observedAt segments with
    | none => .ok state
    | some member => do
      Except.refuseIf (row.timeseriesId ≠ member.timeseriesId ∨ row.stationId ≠ member.stationId ∨
        row.connectorId ≠ member.connectorId ∨ row.pollutantCode ≠ member.pollutant)
        observationConflict
      Except.refuseIf ((state.1.get? row.key).any (· ≠ row.value)) observationConflict
      return (state.1.set row.key row.value, state.2 ++ [row])

def prepare (segments : List Segment) (requiredStartMs requiredEndExclusiveMs : ℤ)
    (source : List (ObservationRow ν)) : Except String (List (ObservationRow ν)) :=
  Prod.snd <$> source.foldlM (prepareStep segments requiredStartMs requiredEndExclusiveMs)
    (OrderedMap.empty, [])

/-- The text of `canonicalObservationKey`. -/
def observationKeyChars (row : ObservationRow ν) : List Char :=
  (toString row.timeseriesId).toList ++ '|' :: isoChars row.observedAt

def mergeObservationRowsPreferR2 (host : Host) (r2Rows ingestRows : List (ObservationRow ν)) :
    List (ObservationRow ν) :=
  sortBy (fun left right ↦ host.localeCompare (observationKeyChars left) (observationKeyChars right))
    (OrderedMap.collect ObservationRow.key (fun _ row ↦ row) (ingestRows ++ r2Rows)).values

def compareByTime (host : Host) (left right : ObservationRow ν) : Ordering :=
  (host.localeCompare (isoChars left.observedAt) (isoChars right.observedAt)).then
    (compare left.timeseriesId right.timeseriesId)

def mergePhysicalObservations (host : Host) (r2Rows ingestRows : List (ObservationRow ν))
    (segments : List Segment) (requiredStartMs requiredEndExclusiveMs : ℤ) :
    Except String (List (ObservationRow ν)) := do
  let r2 ← prepare segments requiredStartMs requiredEndExclusiveMs r2Rows
  let ingest ← prepare segments requiredStartMs requiredEndExclusiveMs ingestRows
  let merged := mergeObservationRowsPreferR2 host r2 ingest
  Except.refuseIf (¬merged.Pairwise fun row row' ↦
    row.observedAt = row'.observedAt → row.timeseriesId = row'.timeseriesId) observationConflict
  return sortBy (compareByTime host) merged

/-! ## Hourly means -/

/-- The total of an hour without observations. -/
def openTotal (request : HistoryRequest) (endpointMs : ℤ) : HourTotal ν :=
  { timeseriesId := request.timeseriesId
    stationId := request.stationId
    connectorId := some request.connectorId
    pollutantCode := request.pollutant
    timestampHourUtc := endpointMs
    sum := Numeric.zero
    count := 0 }

def addValue (total : HourTotal ν) (value : ν) : HourTotal ν :=
  { total with sum := Numeric.add total.sum value, count := total.count + 1 }

/-- The totals of the hours that end by the end of the output. -/
def groupByHour (request : HistoryRequest) (outputEndMs : ℤ) (rows : List (ObservationRow ν)) :
    OrderedMap ℤ (HourTotal ν) :=
  .collect (fun row ↦ hourEndingEndpoint row.observedAt)
    (fun current row ↦ addValue
      (current.getD (openTotal request (hourEndingEndpoint row.observedAt))) row.value)
    (rows.filter fun row ↦ hourEndingEndpoint row.observedAt ≤ outputEndMs)

/-- Open an expected hour that has no total. -/
def expectStep (request : HistoryRequest) (grouped : OrderedMap ℤ (HourTotal ν)) (endpointMs : ℤ) :
    OrderedMap ℤ (HourTotal ν) :=
  if (grouped.get? endpointMs).isSome then grouped
  else grouped.set endpointMs (openTotal request endpointMs)

/-- An hour without observations has neither a mean nor a count. -/
def hourRow (total : HourTotal ν) : NarrowRow ν :=
  { timeseriesId := total.timeseriesId
    stationId := total.stationId
    connectorId := total.connectorId
    pollutantCode := total.pollutantCode
    timestampHourUtc := total.timestampHourUtc
    hourlyMean :=
      if total.count = 0 then none else some (Numeric.div total.sum (Numeric.ofNat total.count))
    sampleCount := if total.count = 0 then none else some total.count }

def sourceObservationsToHourEndingNarrowRows (host : Host) (rows : List (ObservationRow ν))
    (request : HistoryRequest) (outputEndMs : ℤ) (expectedEndpoints : List ℤ) :
    List (NarrowRow ν) :=
  let grouped := expectedEndpoints.foldl (expectStep request) (groupByHour request outputEndMs rows)
  sortBy (fun left right ↦
      host.localeCompare (isoChars left.timestampHourUtc) (isoChars right.timestampHourUtc))
    (grouped.values.map hourRow)

/-! ## Air quality rows -/

/-- A published row with the identity of the member that is valid at its hour. -/
structure CalculatedRow (ν : Type) where
  row : AqiRow ν
  periodStartUtc : ℤ
  periodEndUtc : ℤ
  source : String

def calculatedFromObservations : String := "calculated_from_observations"

def aqiIdentityMissing : String := "station_history_continuity_aqi_identity_missing"

/-- The row under the identity of a member. -/
def calculatedRow (row : AqiRow ν) (physical : Member) : CalculatedRow ν :=
  { row := { row with
      connectorId := some physical.connectorId
      stationId := some physical.stationId
      timeseriesId := some physical.timeseriesId }
    periodStartUtc := row.timestampHourUtc - hourMs
    periodEndUtc := row.timestampHourUtc
    source := calculatedFromObservations }

def identifyRow (segments : List Segment) (row : AqiRow ν) : Except String (CalculatedRow ν) :=
  match memberAt row.timestampHourUtc segments with
  | none => .error aqiIdentityMissing
  | some physical => .ok (calculatedRow row physical.toMember)

def calculateLogicalAqi (host : Host) (observationRows : List (ObservationRow ν))
    (request : HistoryRequest) (segments : List Segment) (outputStartMs outputEndMs : ℤ)
    (expectedEndpoints : List ℤ) : Except String (List (CalculatedRow ν)) := do
  let _ ← checkedTime (outputStartMs + hourMs)
  let _ ← checkedTime (outputEndMs + hourMs)
  let rows := helperRowsToNormalizedAqiV1Rows host (pivotNarrowRowsToHelperRows
    (sourceObservationsToHourEndingNarrowRows host observationRows request outputEndMs
      expectedEndpoints)) none
  (rows.filter fun row ↦ outputStartMs < row.timestampHourUtc &&
    row.timestampHourUtc ≤ outputEndMs).mapM (identifyRow segments)

/-! ## Reading -/

/-- What reading the observations of a segment gives. -/
structure ReadResult (ν : Type) where
  rows : List (ObservationRow ν)
  responseComplete : Bool := true
  hasGap : Bool := false
  contextComplete : Bool := true
  partialReasons : List String := []

abbrev Reader (ν : Type) := Identity → ℤ → ℤ → ReadResult ν

/-- The source of a build: a provider, physical pages that share a budget, or whole reads. -/
inductive ReadMode where
  | provider
  | pages
  | whole
deriving DecidableEq

def readBudgetReasons : List String :=
  ["observation_history_physical_page_budget_exceeded", "observation_history_row_budget_exceeded"]

def Segment.identity (segment : Segment) : Identity :=
  { timeseriesId := segment.timeseriesId
    stationId := segment.stationId
    connectorId := segment.connectorId
    pollutant := segment.pollutant }

/-- Read the segments one after the other; reading pages stops when the budget is spent. -/
def readSegments (mode : ReadMode) (reader : Reader ν) :
    List Segment → List (Segment × ReadResult ν)
  | [] => []
  | segment :: rest =>
    let result := reader segment.identity segment.startMs segment.endMs
    if mode = .pages ∧ result.partialReasons.any (· ∈ readBudgetReasons) then [(segment, result)]
    else (segment, result) :: readSegments mode reader rest

/-- The rows of the ingest database: those passed in, and those that a recovery adds for the reads. -/
structure Ingest (ν : Type) where
  rows : List (ObservationRow ν) := []
  fetchCount : ℕ := 0
  complete : Bool := false
  recover : List (Segment × ReadResult ν) → List (ObservationRow ν) × Bool := fun _ ↦ ([], true)

/-! ## The history -/

/-- A part of the response. -/
structure Part (α : Type) where
  rows : List α
  responseComplete : Bool
  gapRanges : List (ℤ × ℤ)
  partialReasons : List String

structure CalculatedHistory (ν : Type) where
  observations : Part (ObservationRow ν)
  aqi : Part (CalculatedRow ν)

def missingRanges (expected present : List ℤ) : List (ℤ × ℤ) :=
  (expected.filter fun timestamp ↦ timestamp ∉ present).map fun timestamp ↦
    (timestamp - hourMs, timestamp)

/-- An index that was evaluated, with or without a level. -/
def isEvaluated (columns : IndexColumns ν) : Bool :=
  columns.calculationStatus = .ok ||
    (columns.calculationStatus = .insufficientSamples &&
      columns.missingReason = some "insufficient_rolling_24h_hours") ||
    (columns.calculationStatus = .missingInput && columns.missingReason = some "no_input_value")

def reasonIf (p : Bool) (reason : String) : List String := if p then [reason] else []

def memberMissing : String := "station_history_continuity_member_missing"

/-- `requiredStartMs`: the output and the hours that its means look back. -/
def requiredStartMs (call : HistoryCall) : ℤ :=
  call.outputStartMs - contextHoursOf call.request.includeAqi call.request.pollutant * hourMs

/-- The segments of the output and its context. -/
def HistoryCall.selection (call : HistoryCall) : Selection :=
  selectContinuitySegments call.continuity (requiredStartMs call) (call.outputEndMs + 1)

def buildCalculatedHistory (host : Host) (mode : ReadMode) (reader : Reader ν) (ingest : Ingest ν)
    (call : HistoryCall) : Except String (CalculatedHistory ν) := do
  let request := call.request
  let selection := call.selection
  let visibleSelection :=
    selectContinuitySegments call.continuity call.outputStartMs (call.outputEndMs + 1)
  Except.refuseIf (selection.segments = []) memberMissing
  let reads := readSegments mode reader selection.segments
  let recovery := ingest.recover reads
  let rows ← mergePhysicalObservations host (reads.flatMap fun entry ↦ entry.2.rows)
    (ingest.rows ++ recovery.1) selection.segments (requiredStartMs call) (call.outputEndMs + 1)
  let visibleRows := rows.filter fun row ↦
    call.outputStartMs ≤ row.observedAt && row.observedAt ≤ call.outputEndMs
  let expected := hourEndpoints call.outputStartMs call.outputEndMs
  let aqiRows ← if request.includeAqi then
      calculateLogicalAqi host rows request selection.segments call.outputStartMs call.outputEndMs
        expected
    else pure []
  let _ ← checkedTime (requiredStartMs call)
  let observationGaps := if request.includeObservations then
      visibleSelection.gaps ++ missingRanges expected
        (visibleRows.map fun row ↦ hourEndingEndpoint row.observedAt)
    else []
  let aqiPresent := aqiRows.map fun row ↦ row.row.timestampHourUtc
  let aqiGaps := if request.includeAqi then
      visibleSelection.gaps ++ missingRanges expected aqiPresent
    else []
  let r2PartialReasons := (reads.flatMap fun entry ↦ entry.2.partialReasons).eraseDups
  let r2Complete := reads.length = selection.segments.length && reads.all fun entry ↦
    entry.2.responseComplete && !entry.2.hasGap && entry.2.partialReasons = []
  let ingestComplete := (ingest.fetchCount = 0 || ingest.complete) && recovery.2
  let sourceComplete := !r2PartialReasons.any (· ∈ readBudgetReasons) && r2Complete && ingestComplete
  let observationsComplete :=
    request.includeObservations && sourceComplete && visibleSelection.gaps = []
  let aqiStatusesComplete := !request.includeAqi ||
    aqiRows.all fun row ↦ isEvaluated row.row.daqi && isEvaluated row.row.eaqi
  let aqiContextComplete := selection.gaps = [] &&
    (mode ≠ .provider || reads.all fun entry ↦ entry.2.contextComplete)
  let aqiComplete := request.includeAqi && sourceComplete && aqiContextComplete &&
    aqiPresent.eraseDups.length = expected.length && aqiStatusesComplete
  let sourceReasons := r2PartialReasons ++
    reasonIf (!sourceComplete) "required_observation_source_incomplete"
  return {
    observations := {
      rows := if request.includeObservations then visibleRows else []
      responseComplete := observationsComplete
      gapRanges := observationGaps
      partialReasons := if observationsComplete || !request.includeObservations then [] else
        (sourceReasons ++
          reasonIf (observationGaps ≠ []) "missing_visible_observation_hours").eraseDups }
    aqi := {
      rows := aqiRows
      responseComplete := aqiComplete
      gapRanges := aqiGaps
      partialReasons := if aqiComplete || !request.includeAqi then [] else
        (sourceReasons ++ reasonIf (!aqiContextComplete) "required_aqi_context_incomplete" ++
          reasonIf (aqiGaps ≠ []) "missing_visible_aqi_hours" ++
          reasonIf (!aqiStatusesComplete) "calculated_aqi_status_incomplete").eraseDups } }

end UkAqOps.StationHistory

import UkAqOps.StationHistory.Continuity

/-!
# Requests for a station's history

`src/workers/uk_aq_station_history/src/index.mjs` and `history_chunks.mjs`: a request names a
timeseries and a range of time, as a series whose older part is left to chunks, or as one chunk. Its
bounds are instants, not hours.
-/

namespace UkAqOps.StationHistory

open Aqi

/-- `url.searchParams.get`. -/
abbrev SearchParams := String → Option String

/-- `resolveStationHistoryPolicy(env)`, as far as the calculated history reads it. -/
structure Policy where
  stableAqiHeadMaxHours : ℤ
  observationChunkMaxHours : ℤ
  continuityEnabled : Bool
  calculatedHistoryAqiEnabled : Bool

/-! ## Parameters -/

def positiveInt (host : WebHost) (value : Option String) : Option ℤ :=
  toPositiveIntOrNull (host.number (trimText (value.getD "")))

/-- A part of the response is included unless a parameter says no. -/
def responsePartFlag (host : WebHost) (searchParams : SearchParams) (name : String) : Option Bool :=
  match searchParams name with
  | none => some true
  | some raw =>
    let value := host.toLowerCase (trimText raw)
    if value ∈ ["1", "true", "yes", "on"] then some true
    else if value ∈ ["0", "false", "no", "off"] then some false
    else none

/-- `searchParams.get(first) || searchParams.get(second)`. -/
def eitherParam (searchParams : SearchParams) (first second : String) : Option String :=
  ((searchParams first).filter (· ≠ "")).or (searchParams second)

def isoMs (host : WebHost) (value : Option String) : Option ℤ := host.dateParse (value.getD "")

/-! ## Series -/

structure SeriesRequest where
  timeseriesId : ℤ
  connectorId : Option ℤ
  pollutant : Pollutant
  startMs : ℤ
  endMs : ℤ
  contextHours : ℤ
  contextStartMs : ℤ
  includeObservations : Bool
  includeAqi : Bool
  window : Option String

/-- Particulates look back 23 hours. -/
def contextHoursOf (includeAqi : Bool) (pollutant : Pollutant) : ℤ :=
  if includeAqi && pollutant ≠ .no2 then 23 else 0

def resolveStationSeriesRequest (host : WebHost) (searchParams : SearchParams) :
    Option SeriesRequest := do
  let timeseriesId ← positiveInt host (searchParams "timeseries_id")
  let connectorText := trimText ((searchParams "connector_id").getD "")
  let connectorId := if connectorText = "" then none else positiveInt host (some connectorText)
  let pollutant ← normalizePollutantCode ((searchParams "pollutant").getD "")
  let startMs ← isoMs host (searchParams "start_utc")
  let endMs ← isoMs host (searchParams "end_utc")
  let observationsEnabled ← responsePartFlag host searchParams "include_observations"
  let aqiEnabled ← responsePartFlag host searchParams "include_aqi"
  let window := trimText ((searchParams "window").getD "")
  if (connectorText ≠ "" ∧ connectorId = none) ∨ endMs ≤ startMs ∨
      (observationsEnabled = false ∧ aqiEnabled = false) then none
  else some {
    timeseriesId, connectorId, pollutant, startMs, endMs
    contextHours := contextHoursOf aqiEnabled pollutant
    contextStartMs := startMs - contextHoursOf aqiEnabled pollutant * hourMs
    includeObservations := observationsEnabled
    includeAqi := aqiEnabled
    window := if window = "" then none else some window }

/-! ## Chunks -/

def observationChunkMaxRows : ℤ := 5000

structure ChunkRequest where
  timeseriesId : ℤ
  connectorId : ℤ
  pollutant : Pollutant
  startMs : ℤ
  endMs : ℤ
  stableHeadStartMs : ℤ
  format : String
  limit : ℤ
  maxHours : ℤ
  includeObservations : Bool
  includeAqi : Bool
  retryKey : String

def chunkInvalid (code : String) : IdentityError := ⟨400, code⟩

/-- `parseHistoryChunkRequest(url, "observations", policy)`; an overlap is answered with 409. -/
def parseHistoryChunkRequest (host : WebHost) (policy : Policy) (searchParams : SearchParams) :
    Except IdentityError ChunkRequest := do
  let maxHours := policy.observationChunkMaxHours
  let requestedLimit := positiveInt host (eitherParam searchParams "limit" "row_limit")
  let some timeseriesId := positiveInt host (searchParams "timeseries_id")
    | throw (chunkInvalid "history_chunk_request_invalid")
  let some connectorId := positiveInt host (searchParams "connector_id")
    | throw (chunkInvalid "history_chunk_request_invalid")
  let some pollutant := normalizePollutantCode ((searchParams "pollutant").getD "")
    | throw (chunkInvalid "history_chunk_request_invalid")
  let some startMs := isoMs host (eitherParam searchParams "start_utc" "from_utc")
    | throw (chunkInvalid "history_chunk_request_invalid")
  let some endMs := isoMs host (eitherParam searchParams "end_utc" "to_utc")
    | throw (chunkInvalid "history_chunk_request_invalid")
  let some stableHeadStartMs := isoMs host (searchParams "stable_head_start_utc")
    | throw (chunkInvalid "history_chunk_request_invalid")
  let some includeObservations := responsePartFlag host searchParams "include_observations"
    | throw (chunkInvalid "history_chunk_response_parts_invalid")
  let some includeAqi := responsePartFlag host searchParams "include_aqi"
    | throw (chunkInvalid "history_chunk_response_parts_invalid")
  Except.refuseIf (includeObservations = false ∧ includeAqi = false)
    (chunkInvalid "history_chunk_response_parts_invalid")
  Except.refuseIf (endMs ≤ startMs ∨ maxHours * hourMs < endMs - startMs)
    (chunkInvalid "history_chunk_bounds_invalid")
  Except.refuseIf (stableHeadStartMs < endMs) ⟨409, "history_chunk_overlaps_stable_head"⟩
  Except.refuseIf (requestedLimit.any (observationChunkMaxRows < ·))
    (chunkInvalid "observation_chunk_row_limit_exceeded")
  let limit := min (requestedLimit.getD observationChunkMaxRows) observationChunkMaxRows
  return {
    timeseriesId, connectorId, pollutant, startMs, endMs, stableHeadStartMs, limit, maxHours
    includeObservations, includeAqi
    format := "objects"
    retryKey := s!"v2|observations|{timeseriesId}|{connectorId}|{pollutantText pollutant}|" ++
      s!"{toISOString startMs}|{toISOString endMs}|objects|{limit}|" ++
      s!"obs:{includeObservations}|aqi:{includeAqi}" }

/-! ## What is calculated for a request -/

structure HistoryRequest where
  timeseriesId : ℤ
  stationId : ℤ
  connectorId : ℤ
  pollutant : Pollutant
  includeObservations : Bool
  includeAqi : Bool
deriving DecidableEq

/-- The arguments of `buildCalculatedHistory` that a request determines. -/
structure HistoryCall where
  request : HistoryRequest
  continuity : Continuity
  outputStartMs : ℤ
  outputEndMs : ℤ
deriving DecidableEq

/-- The request with the identity of its binding, over the range of instants. -/
def historyCall (policy : Policy) (bound : Continuity × Identity) (includeObservations includeAqi : Bool)
    (outputStartMs outputEndMs : ℤ) : HistoryCall :=
  { request := {
      timeseriesId := bound.2.timeseriesId
      stationId := bound.2.stationId
      connectorId := bound.2.connectorId
      pollutant := bound.2.pollutant
      includeObservations
      includeAqi := includeAqi && policy.calculatedHistoryAqiEnabled }
    continuity := if policy.continuityEnabled then bound.1 else exactContinuity bound.2
    outputStartMs
    outputEndMs }

/-- `resolveStableHeadBounds(request, maxHours).headStartMs`. -/
def headStartMs (startMs endMs maxHours : ℤ) : ℤ := max startMs (endMs - maxHours * hourMs)

/-- The later of the boundaries of the parts that are included. -/
def seriesOutputStartMs (policy : Policy) (parsed : SeriesRequest) : ℤ :=
  let observationHead := headStartMs parsed.startMs parsed.endMs policy.observationChunkMaxHours
  let aqiHead := headStartMs parsed.startMs parsed.endMs policy.stableAqiHeadMaxHours
  match parsed.includeObservations, parsed.includeAqi with
  | true, true => max observationHead aqiHead
  | true, false => observationHead
  | false, _ => aqiHead

/-- `buildFeatureStationSeries`, up to its call of `buildCalculatedHistory`. -/
def seriesCall (host : WebHost) (policy : Policy) (binding : Binding) (searchParams : SearchParams) :
    Except IdentityError HistoryCall := do
  let some parsed := resolveStationSeriesRequest host searchParams
    | throw ⟨400, "station_series_request_invalid"⟩
  let bound ← validateTimeseriesBinding host binding
    ⟨some parsed.timeseriesId, parsed.connectorId, some parsed.pollutant⟩
  return historyCall policy bound parsed.includeObservations parsed.includeAqi
    (seriesOutputStartMs policy parsed) parsed.endMs

/-- `handleObservationHistoryChunk`, up to its call of `buildCalculatedHistory`. -/
def chunkCall (host : WebHost) (policy : Policy) (binding : Binding) (searchParams : SearchParams) :
    Except IdentityError HistoryCall := do
  let parsed ← parseHistoryChunkRequest host policy searchParams
  let bound ← validateTimeseriesBinding host binding
    ⟨some parsed.timeseriesId, some parsed.connectorId, some parsed.pollutant⟩
  return historyCall policy bound parsed.includeObservations parsed.includeAqi parsed.startMs
    parsed.endMs

/-- The call answers a series or chunk request for air quality indices. -/
def IsAqiCall (host : WebHost) (call : HistoryCall) : Prop :=
  call.request.includeAqi = true ∧ ∃ policy binding searchParams,
    seriesCall host policy binding searchParams = .ok call ∨
      chunkCall host policy binding searchParams = .ok call

end UkAqOps.StationHistory

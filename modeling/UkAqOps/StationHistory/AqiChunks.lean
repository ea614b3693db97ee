import UkAqOps.StationHistory.Requests
import UkAqOps.Js.Stringify
import UkAqOps.Lib.OrderedMap

/-!
# Chunks of air quality history

`src/workers/uk_aq_cache_proxy/src/station_history/cache_keys.mjs` and
`src/workers/uk_aq_station_history/src/history_chunks.mjs`, `stable_head.mjs`: a page of air quality
history starts with a stable head and is extended backwards by chunks. The proxy rounds the bounds of
a long request down to the hour before it passes it on; the chunk keeps the hours from its start on
and before its end.
-/

namespace UkAqOps.StationHistory

open Aqi Sorting

/-! ## The stable head -/

/-- The clock hours from the start on, before the end. -/
def canonicalAqiHourStarts (startMs endMs : ℤ) : List ℤ :=
  if endMs ≤ startMs then []
  else hourCursors ((startMs + hourMs - 1) / hourMs * hourMs) endMs

structure HeadBounds where
  headStartMs : ℤ
  headEndMs : ℤ

def resolveStableHeadBounds (startMs endMs maxHours : ℤ) : HeadBounds :=
  ⟨headStartMs startMs endMs maxHours, endMs⟩

/-! ## The proxy -/

def aqiHistoryCanonicalizeMinWindowMs : ℤ := 3 * 24 * hourMs

def aqiHistoryStartKeys : List String := ["from_utc", "start_utc", "from", "start"]

def aqiHistoryEndKeys : List String := ["to_utc", "end_utc", "to", "end"]

def aqiHistoryProxyContractParam : String := "__uk_aq_aqi_history_contract"

/-- `searchParams.set(name, value)`. -/
def SearchParams.set (searchParams : SearchParams) (name value : String) : SearchParams :=
  fun key ↦ if key = name then some value else searchParams key

/-- Set each of the parameters that is there. -/
def SearchParams.setPresent (searchParams : SearchParams) (names : List String) (value : String) :
    SearchParams :=
  fun key ↦ if key ∈ names ∧ (searchParams key).isSome = true then some value else searchParams key

def parseIsoMsOrNull (host : WebHost) (value : Option String) : Option ℤ :=
  let text := trimText (value.getD "")
  if text = "" then none else host.dateParse text

/-- The first of the parameters that is not blank. -/
def getFirstSearchParam (searchParams : SearchParams) (names : List String) : Option String :=
  names.findSome? fun name ↦ (searchParams name).filter fun value ↦ trimText value ≠ ""

/-- The whole hours that the bounds of a long request are rounded down to. -/
def canonicalBounds (host : WebHost) (searchParams : SearchParams) : Option (ℤ × ℤ) := do
  let startMs ← parseIsoMsOrNull host (getFirstSearchParam searchParams aqiHistoryStartKeys)
  let endMs ← parseIsoMsOrNull host (getFirstSearchParam searchParams aqiHistoryEndKeys)
  let canonicalStartMs := startMs / hourMs * hourMs
  let canonicalEndMs := endMs / hourMs * hourMs
  if endMs ≤ startMs ∨ endMs - startMs < aqiHistoryCanonicalizeMinWindowMs ∨
      canonicalEndMs ≤ canonicalStartMs then none
  else some (canonicalStartMs, canonicalEndMs)

def canonicalizeAqiHistoryRequestUrl (host : WebHost) (searchParams : SearchParams)
    (upstreamFunction aqiHistoryUpstream : String) : SearchParams :=
  if upstreamFunction ≠ aqiHistoryUpstream then searchParams
  else
    let marked := searchParams.set aqiHistoryProxyContractParam "aqi_hour_interval_v2"
    let requestedFormat := host.toLowerCase (trimText ((marked "format").getD ""))
    let normalized := marked.set "format" (if requestedFormat = "tsv" then "tsv"
      else if requestedFormat = "objects" then "objects" else "compact")
    match canonicalBounds host normalized with
    | none => normalized
    | some (startMs, endMs) =>
      (normalized.setPresent aqiHistoryStartKeys (toISOString startMs)).setPresent aqiHistoryEndKeys
        (toISOString endMs)

/-! ## Requests -/

def formatName (host : WebHost) (value : String) : Option String :=
  let normalized := host.toLowerCase (trimText value)
  if normalized ∈ ["objects", "compact", "json", "tsv"] then some normalized else none

/-- `limits.aqiChunkMaxHours || AQI_CHUNK_MAX_HOURS`. -/
def aqiChunkHours (aqiChunkMaxHours : ℤ) : ℤ :=
  if aqiChunkMaxHours = 0 then 31 * 24 else aqiChunkMaxHours

/-- `parseHistoryChunkRequest(url, "aqi", limits)`. -/
def parseAqiHistoryChunkRequest (host : WebHost) (aqiChunkMaxHours : ℤ)
    (searchParams : SearchParams) : Except IdentityError ChunkRequest := do
  let maxHours := aqiChunkHours aqiChunkMaxHours
  let requestedLimit := positiveInt host (eitherParam searchParams "limit" "row_limit")
  let some timeseriesId := positiveInt host (searchParams "timeseries_id")
    | throw (chunkInvalid "history_chunk_request_invalid")
  let some connectorId := positiveInt host (searchParams "connector_id")
    | throw (chunkInvalid "history_chunk_request_invalid")
  let some pollutant := normalizePollutantCode ((searchParams "pollutant").getD "")
    | throw (chunkInvalid "history_chunk_request_invalid")
  let some startMs := isoMs host (eitherParam searchParams "start_utc" "from_utc")
    | throw (chunkInvalid "history_chunk_request_invalid")
  let some endMs := isoMs host (eitherParam searchParams "end_utc" "to_utc")
    | throw (chunkInvalid "history_chunk_request_invalid")
  let some stableHeadStartMs := isoMs host (searchParams "stable_head_start_utc")
    | throw (chunkInvalid "history_chunk_request_invalid")
  let some format := formatName host (((searchParams "format").filter (· ≠ "")).getD "compact")
    | throw (chunkInvalid "history_chunk_request_invalid")
  Except.refuseIf (endMs ≤ startMs ∨ maxHours * hourMs < endMs - startMs)
    (chunkInvalid "history_chunk_bounds_invalid")
  Except.refuseIf (stableHeadStartMs < endMs) ⟨409, "history_chunk_overlaps_stable_head"⟩
  let limit := min (requestedLimit.getD maxHours) maxHours
  return {
    timeseriesId, connectorId, pollutant, startMs, endMs, stableHeadStartMs, format, limit, maxHours
    includeObservations := false
    includeAqi := true
    retryKey := s!"v2|aqi|{timeseriesId}|{connectorId}|{pollutantText pollutant}|" ++
      s!"{toISOString startMs}|{toISOString endMs}|{format}|{limit}|obs:false|aqi:true" }

/-! ## Building a chunk -/

/-- `a || b || c`. -/
def firstTruthy : List JsValue → JsValue
  | [] => .undefined
  | [value] => value
  | value :: rest => if value.truthy then value else firstTruthy rest

/-- The hour that a row says it ends with, as an instant; its text is `toISOString` of it. -/
def aqiHour (host : WebHost) (row : JsValue) : Option ℤ :=
  (host.dateParse (firstTruthy [row.optional "period_end_utc", row.optional "timestamp_hour_utc",
    row.optional "period_start_utc"]).textOrEmpty).map fun parsed ↦ parsed / hourMs * hourMs

def positiveIntOf (host : WebHost) (value : JsValue) : Option ℤ :=
  positiveInt host (some value.textOrEmpty)

/-- The key of a row; `Number(value)` of an identifier that is a positive integer is that integer. -/
def aqiKey (host : WebHost) (row : JsValue) : Option (ℤ × ℤ × Pollutant × ℤ) := do
  let hour ← aqiHour host row
  let timeseriesId ← positiveIntOf host (row.optional "timeseries_id")
  let connectorId ← positiveIntOf host (row.optional "connector_id")
  let pollutant ← normalizePollutantCode (row.optional "pollutant_code").orBlank
  pure (timeseriesId, connectorId, pollutant, hour)

/-- `String(aqiHour(row) || "")`. -/
def aqiHourText (host : WebHost) (row : JsValue) : String :=
  ((aqiHour host row).map toISOString).getD ""

def compareSourceRows (host : WebHost) (left right : JsValue) : Ordering :=
  (host.localeCompare (aqiHourText host left).toList (aqiHourText host right).toList).then
    (host.localeCompare left.stringify.toList right.stringify.toList)

/-- A row with its hour under all its names. -/
def chunkRow (row : JsValue) (hour : String) : JsValue :=
  let periodStart := row.optional "period_start_utc"
  match row with
  | .obj fields =>
    .obj (OrderedMap.setEntries (OrderedMap.setEntries (OrderedMap.setEntries (OrderedMap.setEntries
      fields "timestamp_hour_utc" (.str hour)) "period_end_utc" (.str hour)) "period_start_utc"
        (if periodStart.truthy then periodStart else .str hour)) "source" (.str "r2"))
  | value => value

/-- The key of a row that belongs to the chunk. -/
def chunkKey (host : WebHost) (chunk : ChunkRequest) (row : JsValue) :
    Option (ℤ × ℤ × Pollutant × ℤ) :=
  if (row.optional "source").isText "r2" = false then none
  else (aqiKey host row).filter fun (timeseriesId, connectorId, pollutant, hour) ↦
    timeseriesId = chunk.timeseriesId ∧ connectorId = chunk.connectorId ∧
      pollutant = chunk.pollutant ∧ chunk.startMs ≤ hour ∧ hour < chunk.endMs

/-- The rows by key, the first of each, and how many rows differ from the first of their key. -/
abbrev ChunkRows := OrderedMap (ℤ × ℤ × Pollutant × ℤ) JsValue × ℕ

def addChunkRow (host : WebHost) (chunk : ChunkRequest) (rows : ChunkRows) (sourceRow : JsValue) :
    ChunkRows :=
  match chunkKey host chunk sourceRow with
  | none => rows
  | some key =>
    let row := chunkRow sourceRow (toISOString key.2.2.2)
    match rows.1.get? key with
    | none => (rows.1.set key row, rows.2)
    | some previous =>
      (rows.1, if previous.stringify = row.stringify then rows.2 else rows.2 + 1)

structure AqiHistoryChunk where
  /-- Each row with the hour it is kept for. -/
  points : List (ℤ × JsValue)
  expectedHours : List ℤ
  responseComplete : Bool
  startUtc : String
  endUtc : String
  nextOlderChunkEndUtc : String
  partialReasons : List String

/-- `value !== false`. -/
def isNotFalse : JsValue → Bool
  | .bool false => false
  | _ => true

def buildAqiHistoryChunk (host : WebHost) (chunk : ChunkRequest) (payload : JsValue) :
    AqiHistoryChunk :=
  let sourceRows := ((payload.optional "points").items?).getD []
  let (rowsByKey, conflictingDuplicateCount) := (sortBy (compareSourceRows host) sourceRows).foldl
    (addChunkRow host chunk) (OrderedMap.empty, 0)
  let rows := sortBy (fun left right ↦ host.localeCompare
      (left.2.optional "period_start_utc").text.toList
      (right.2.optional "period_start_utc").text.toList)
    (rowsByKey.entries.map fun entry ↦ (entry.1.2.2.2, entry.2))
  let expectedHours := canonicalAqiHourStarts chunk.startMs chunk.endMs
  let upstreamComplete := isNotFalse (payload.optional "response_complete") &&
    isNotFalse ((payload.optional "meta").optional "response_complete")
  let complete := upstreamComplete && conflictingDuplicateCount = 0 &&
    rows.length = expectedHours.length
  { points := rows
    expectedHours
    responseComplete := complete
    startUtc := toISOString chunk.startMs
    endUtc := toISOString chunk.endMs
    nextOlderChunkEndUtc := toISOString chunk.startMs
    partialReasons := if complete then [] else
      ((((payload.optional "partial_reasons").items?).getD []).map JsValue.text ++
        (if upstreamComplete then [] else ["upstream_incomplete"]) ++
        (if rows.length = expectedHours.length then [] else ["missing_expected_aqi_hours"]) ++
        (if conflictingDuplicateCount = 0 then [] else ["conflicting_duplicate_rows"])).eraseDups }

/-- The hours that a chunk has rows for, and those that it expects rows for. -/
def AqiHistoryChunk.hours (chunk : AqiHistoryChunk) : Set ℤ :=
  {hour | hour ∈ chunk.points.map Prod.fst ∨ hour ∈ chunk.expectedHours}

end UkAqOps.StationHistory

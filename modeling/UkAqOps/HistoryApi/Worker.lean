import Mathlib.Data.Rat.Defs
import UkAqOps.Js.DateText
import UkAqOps.Lib.Chunks
import UkAqOps.Lib.OrderedMap
import UkAqOps.Lib.Sort

/-!
# The worker that reads the stored observations

`src/workers/uk_aq_observs_history_r2_api_worker/worker.mjs`, version 2 of the history: the files of a
day are named by the index of its pollutant, and their rows are collected by the text of their
instant. A file gives its timestamps as dates, which the worker turns into texts before it reads them.
-/

namespace UkAqOps.HistoryApi

open Sorting

variable (dateParse : String → Option ℤ)

/-! ## What is stored -/

/-- A number of a file, which may be missing. -/
inductive Cell where
  | missing
  | nonFinite
  | finite (value : ℚ)
deriving DecidableEq

structure ParquetRow where
  timeseriesId : ℤ
  /-- The date of the timestamp, to the millisecond. -/
  observedAt : ℤ
  value : Cell
  verificationStatus : Option String
deriving DecidableEq

/-- A row group with the statistics of its identifiers, if it has them. -/
structure RowGroup where
  minTimeseriesId : Option ℤ
  maxTimeseriesId : Option ℤ
  rows : List ParquetRow

/-- A file of an index, with what `Number` and `??` make of its bounds. -/
structure IndexEntry where
  key : String
  minTimeseriesId : Option ℤ
  maxTimeseriesId : Option ℤ
  minObservedAtUtc : Option String
  maxObservedAtUtc : Option String

/-- The objects of the history: the indexes and the files by their keys. -/
structure History where
  index : String → Option (List IndexEntry)
  file : String → Option (List RowGroup)

structure Env where
  timeseriesIndexEnabled : Bool
  parquetRowChunkSize : ℕ
  chunkSize_bounds : 500 ≤ parquetRowChunkSize ∧ parquetRowChunkSize ≤ 50000

/-- What a request is about. -/
structure Series where
  indexPrefix : String
  connectorId : ℤ
  pollutantKey : String
  timeseriesId : ℤ

/-! ## Times -/

def toIsoOrNull (raw : String) : Option String :=
  let text := trimText raw
  if text = "" then none else (dateParse text).map toISOString

/-- `parseMsOrNaN`. -/
def parseMs (raw : Option String) : Option ℤ :=
  raw.bind fun raw ↦ if trimText raw = "" then none else dateParse (trimText raw)

def utcMidnightMs (isoDay : String) : Option ℤ := dateParse (isoDay ++ "T00:00:00.000Z")

def toUtcDayFromMs (ms : ℤ) : String := takeText (toISOString ms) 10

/-- The loop of `listUtcDays`, for so many turns at most. -/
def utcDaysFrom (endMs : ℤ) : ℕ → String → List String
  | 0, _ => []
  | turns + 1, day =>
    match utcMidnightMs dateParse day with
    | none => []
    | some midnight =>
      if midnight < endMs then
        day :: utcDaysFrom endMs turns (toUtcDayFromMs (midnight + dayMs))
      else []

def listUtcDays (startMs endMs : ℤ) : List String :=
  if endMs ≤ startMs then []
  else utcDaysFrom dateParse endMs ((endMs - startMs) / dayMs + 2).toNat (toUtcDayFromMs startMs)

/-! ## Indexes -/

def buildTimeseriesPollutantIndexKey (series : Series) (dayUtc : String) : String :=
  s!"{series.indexPrefix}/day_utc={dayUtc}/connector_id={series.connectorId}/pollutant_code={
    series.pollutantKey}/manifest.json"

/-- The range of identifiers of a file, if the index has one. -/
def IndexEntry.range (entry : IndexEntry) : Option (ℤ × ℤ) := do
  let minId ← entry.minTimeseriesId
  let maxId ← entry.maxTimeseriesId
  if 0 < minId ∧ 0 < maxId ∧ minId ≤ maxId then return (minId, maxId) else none

/-- The range of instants of a file, if the index has one. -/
def IndexEntry.timeRange (entry : IndexEntry) : Option (ℤ × ℤ) := do
  let minMs ← parseMs dateParse entry.minObservedAtUtc
  let maxMs ← parseMs dateParse entry.maxObservedAtUtc
  if minMs ≤ maxMs then return (minMs, maxMs) else none

/-- Whether a file is read: a file without a range of identifiers always is. -/
def IndexEntry.selected (entry : IndexEntry) (timeseriesId effectiveStartMs endMs : ℤ) : Bool :=
  trimText entry.key ≠ "" && match entry.range with
    | none => true
    | some (minId, maxId) =>
      (match entry.timeRange dateParse with
        | none => true
        | some (minMs, maxMs) => decide (effectiveStartMs ≤ maxMs ∧ minMs < endMs)) &&
          decide (minId ≤ timeseriesId ∧ timeseriesId ≤ maxId)

/-- The keys that `extractParquetKeysFromTimeseriesIndex` returns. -/
def extractParquetKeys (entries : List IndexEntry) (timeseriesId effectiveStartMs endMs : ℤ) :
    List String :=
  ((entries.filter (·.selected dateParse timeseriesId effectiveStartMs endMs)).map
    fun entry ↦ trimText entry.key).eraseDups

/-! ## Files -/

/-- The rows of a series in a row group, looked for in chunks. -/
def matchedRows (env : Env) (timeseriesId : ℤ) (group : RowGroup) : List ParquetRow :=
  if ∃ minId ∈ group.minTimeseriesId, ∃ maxId ∈ group.maxTimeseriesId,
      timeseriesId < minId ∨ maxId < timeseriesId then []
  else (Cutting.chunks env.parquetRowChunkSize group.rows).flatMap fun chunk ↦
    chunk.filter (·.timeseriesId = timeseriesId)

def fetchFilteredParquetRows (env : Env) (groups : List RowGroup) (timeseriesId : ℤ) :
    List ParquetRow := groups.flatMap (matchedRows env timeseriesId)

/-! ## Rows -/

structure ApiRow where
  observedAt : String
  value : Option ℚ
  verificationStatus : Option String
deriving DecidableEq

def normalizeValue : Cell → Option ℚ
  | .finite value => some value
  | _ => none

/-- What becomes of a row: its text, unless it is out of the window. -/
def filteredRow (startMs endMs : ℤ) (sinceMs : Option ℤ) (row : ParquetRow) :
    Option (String × ApiRow) := do
  let observedAt ← toIsoOrNull dateParse (dateText row.observedAt)
  let observedMs ← dateParse observedAt
  if observedMs < startMs ∨ endMs ≤ observedMs ∨ ∃ since ∈ sinceMs, observedMs ≤ since then none
  else return (observedAt,
    { observedAt
      value := normalizeValue row.value
      verificationStatus := row.verificationStatus.filter fun status ↦ status = "R" ∨ status = "P" })

def appendFilteredRows (startMs endMs : ℤ) (sinceMs : Option ℤ)
    (outByObservedAt : OrderedMap String ApiRow) (rows : List ParquetRow) :
    OrderedMap String ApiRow :=
  (rows.filterMap (filteredRow dateParse startMs endMs sinceMs)).foldl
    (fun out row ↦ out.set row.1 row.2) outByObservedAt

/-- `Date.parse(String(observed_at)) || 0`. -/
def sortMs (observedAt : String) : ℤ := (dateParse observedAt).getD 0

def normalizeAndSortRows (rowsByObservedAt : OrderedMap String ApiRow) (limit : ℕ) : List ApiRow :=
  (sortBy (fun left right : ApiRow ↦
    compare (sortMs dateParse left.observedAt) (sortMs dateParse right.observedAt))
    rowsByObservedAt.values).take limit

/-- The files of a day, unless its index is missing. -/
def dayKeys (history : History) (series : Series) (effectiveStartMs endMs : ℤ) (dayUtc : String) :
    List String :=
  match history.index (buildTimeseriesPollutantIndexKey series dayUtc) with
  | none => []
  | some entries => extractParquetKeys dateParse entries series.timeseriesId effectiveStartMs endMs

/-- The rows of `readHistoryRows` for version 2. -/
def readHistoryRows (env : Env) (history : History) (series : Series) (startMs endMs : ℤ)
    (sinceMs : Option ℤ) (limit : ℕ) : List ApiRow :=
  let effectiveStartMs := (sinceMs.map fun since ↦ max startMs (since + 1)).getD startMs
  let keys := if env.timeseriesIndexEnabled then
    (listUtcDays dateParse startMs endMs).flatMap (dayKeys dateParse history series effectiveStartMs
      endMs) else []
  let rowsByObservedAt := keys.foldl (fun out key ↦
    match history.file key with
    | none => out
    | some groups => appendFilteredRows dateParse startMs endMs sinceMs out
        (fetchFilteredParquetRows env groups series.timeseriesId)) OrderedMap.empty
  normalizeAndSortRows dateParse rowsByObservedAt limit

/-! ## Requests -/

def maxLimit : ℕ := 20000

/-- The parameters of a request, as texts. -/
structure PageParams where
  startUtc : String
  endUtc : String
  sinceUtc : Option String
  limitRows : ℕ

structure Payload where
  rowCount : Option ℕ
  rows : List ApiRow

/-- The answer of the worker, unless it rejects the request. -/
def answerObservations (env : Env) (history : History) (series : Series) (params : PageParams) :
    Option Payload := do
  let startIso ← toIsoOrNull dateParse params.startUtc
  let endIso ← toIsoOrNull dateParse params.endUtc
  let startMs ← dateParse startIso
  let endMs ← dateParse endIso
  if endMs ≤ startMs then none
  else
    let sinceMs ← match params.sinceUtc with
      | none => some none
      | some sinceUtc => (toIsoOrNull dateParse sinceUtc).map dateParse
    if 1 ≤ params.limitRows ∧ params.limitRows ≤ maxLimit then
      let rows := readHistoryRows dateParse env history series startMs endMs sinceMs params.limitRows
      return { rowCount := some rows.length, rows }
    else none

end UkAqOps.HistoryApi

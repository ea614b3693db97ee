import UkAqOps.StationHistory.PhysicalPages

/-!
# Chunks of calculated history

`src/workers/uk_aq_station_history/src/index.mjs` and `historical_ingest_recovery.mjs`: an older part
of a history is answered in chunks that are calculated from the canonical files. Rows of the ingest
database stand in for a day that is not published yet; no cache may keep a chunk with such rows, so a
chunk calls itself complete only without them.
-/

namespace UkAqOps.StationHistory

open Aqi

variable {ν : Type} [Numeric ν] [DecidableEq ν]

/-! ## Recovery -/

/-- `LOOKBACK_MS`: within the 30 days that the ingest database answers for. -/
def lookbackMs : ℤ := 29 * dayMs

def maxReads : ℕ := 8

def unpublishedScopeReasons : List String :=
  ["missing_day_manifest", "required_physical_leaf_scope_missing"]

/-- A read that is incomplete for no other reason than that something is not published. -/
def unpublishedScopeOnly (result : ReadResult ν) : Bool :=
  !result.responseComplete && result.hasGap && result.partialReasons ≠ [] &&
    result.partialReasons.all (· ∈ unpublishedScopeReasons)

/-- What a read of the ingest database gives. -/
structure IngestAnswer (ν : Type) where
  rows : List (ObservationRow ν)
  responseComplete : Bool
  fetchCount : ℕ

/-- The reads of the ingest database, `none` where one fails. -/
abbrev IngestService (ν : Type) := Identity → ℤ → ℤ → Option (IngestAnswer ν)

def IngestAnswer.empty : IngestAnswer ν := ⟨[], true, 0⟩

structure PendingRead where
  segment : Segment
  startMs : ℤ
  endMs : ℤ

/-- The parts of the reads that the ingest database may have. -/
def pendingReads (nowMs : ℤ) (reads : List (Segment × ReadResult ν)) : List PendingRead :=
  ((reads.filter fun entry ↦ unpublishedScopeOnly entry.2).map fun entry ↦
    ⟨entry.1, max entry.1.startMs (nowMs - lookbackMs), min entry.1.endMs nowMs⟩).filter
      fun pending ↦ pending.startMs < pending.endMs

/-- A read that fails gives no rows, and leaves the answer incomplete. -/
def recoverRead (service : IngestService ν) (pending : PendingRead) : IngestAnswer ν :=
  (service pending.segment.identity pending.startMs pending.endMs).getD ⟨[], false, 1⟩

def readHistoricalIngestRecovery (service : IngestService ν) (nowMs : ℤ)
    (reads : List (Segment × ReadResult ν)) : IngestAnswer ν :=
  if reads.any fun entry ↦ entry.2.partialReasons.any (· ∈ readBudgetReasons) then .empty
  else
    let pending := pendingReads nowMs reads
    if pending.length = 0 then .empty
    else if maxReads < pending.length then ⟨[], false, 0⟩
    else
      let outcomes := pending.map (recoverRead service)
      { rows := outcomes.flatMap IngestAnswer.rows
        responseComplete := outcomes.all IngestAnswer.responseComplete
        fetchCount := (outcomes.map IngestAnswer.fetchCount).sum }

/-- The recovery as the only source of ingested rows. -/
def recoveryIngest (service : IngestService ν) (nowMs : ℤ) : Ingest ν :=
  { recover := fun reads ↦
      let recovery := readHistoricalIngestRecovery service nowMs reads
      (recovery.rows, recovery.responseComplete) }

/-! ## Reads that may fail -/

/-- A read in which a budget has run out. -/
def ReadResult.RanOut (result : ReadResult ν) : Prop :=
  ∃ reason ∈ result.partialReasons, reason ∈ readBudgetReasons

/-- The answer of a paged read. -/
def ReadAnswer.toResult (answer : ReadAnswer ν) : ReadResult ν :=
  { rows := answer.rows
    responseComplete := answer.responseComplete
    hasGap := answer.hasGap
    partialReasons := answer.partialReasons }

/-- The reads of the canonical files, each with its outcome. -/
abbrev Outcomes (ν : Type) := Identity → ℤ → ℤ → Except String (ReadResult ν)

/-- The result of a read, where it does not fail. -/
def Outcomes.reader (outcomes : Outcomes ν) : Reader ν := fun identity startMs endMs ↦
  match outcomes identity startMs endMs with
  | .ok result => result
  | .error _ => { rows := [], responseComplete := false }

/-- The reads end with the first that fails; reading pages ends with the first that spends the
budget. -/
def checkReads (mode : ReadMode) (outcomes : Outcomes ν) : List Segment → Except String Unit
  | [] => .ok ()
  | segment :: rest => do
    let result ← outcomes segment.identity segment.startMs segment.endMs
    if mode = .pages ∧ result.partialReasons.any (· ∈ readBudgetReasons) then .ok ()
    else checkReads mode outcomes rest

/-- `buildCalculatedHistory` over reads that may fail. -/
def buildFromOutcomes (host : Host) (mode : ReadMode) (outcomes : Outcomes ν) (ingest : Ingest ν)
    (call : HistoryCall) : Except String (CalculatedHistory ν) := do
  Except.refuseIf (call.selection.segments = []) memberMissing
  checkReads mode outcomes call.selection.segments
  buildCalculatedHistory host mode outcomes.reader ingest call

/-- The rows of the visible range, also where their part is left out. -/
def visibleRows (host : Host) (mode : ReadMode) (reader : Reader ν) (ingest : Ingest ν)
    (call : HistoryCall) : Except String (List (ObservationRow ν)) := do
  let reads := readSegments mode reader call.selection.segments
  let rows ← mergePhysicalObservations host (reads.flatMap fun entry ↦ entry.2.rows)
    (ingest.rows ++ (ingest.recover reads).1) call.selection.segments (requiredStartMs call)
    (call.outputEndMs + 1)
  return rows.filter fun row ↦
    call.outputStartMs ≤ row.observedAt && row.observedAt ≤ call.outputEndMs

/-! ## The chunk -/

inductive CacheClass where
  | immutable
  | mutable
deriving DecidableEq

structure HistoryChunk (ν : Type) where
  combined : CalculatedHistory ν
  rows : List (ObservationRow ν)
  rowCount : ℕ
  responseComplete : Bool
  hasGap : Bool
  coverageState : String
  partialReasons : List String
  startUtc : String
  endUtc : String
  stableHeadStartUtc : String
  nextOlderChunkEndUtc : String
  cacheClass : CacheClass
  retryKey : String

/-- The `Cache-Control` of `chunkHeaders`. -/
def HistoryChunk.cacheControl (chunk : HistoryChunk ν) : String :=
  if chunk.responseComplete then
    match chunk.cacheClass with
    | .immutable => "public, max-age=86400, s-maxage=86400"
    | .mutable => "public, max-age=300, s-maxage=300"
  else "no-store"

/-- The body of a chunk. -/
def historyChunk (policy : Policy) (parsed : ChunkRequest) (nowMs : ℤ)
    (combined : CalculatedHistory ν) (ingestCount : ℕ) : HistoryChunk ν :=
  let provisionalIngest : Bool := 0 < ingestCount
  let observationsOff := !parsed.includeObservations || combined.observations.responseComplete
  let aqiOff := !parsed.includeAqi || combined.aqi.responseComplete
  let complete := !provisionalIngest && observationsOff && aqiOff
  { combined
    rows := if parsed.includeObservations then combined.observations.rows else []
    rowCount := if parsed.includeObservations then combined.observations.rows.length else 0
    responseComplete := complete
    hasGap := !complete
    coverageState := if complete then "complete" else "partial"
    partialReasons := if complete then [] else
      ((if observationsOff then [] else combined.observations.partialReasons) ++
        (if aqiOff then [] else combined.aqi.partialReasons) ++
        reasonIf (!observationsOff) "observations_incomplete" ++
        reasonIf (!aqiOff) (if policy.calculatedHistoryAqiEnabled then "calculated_aqi_incomplete"
          else "calculated_aqi_disabled") ++
        reasonIf provisionalIngest "unpublished_ingest_history").eraseDups
    startUtc := toISOString parsed.startMs
    endUtc := toISOString parsed.endMs
    stableHeadStartUtc := toISOString parsed.stableHeadStartMs
    nextOlderChunkEndUtc := toISOString parsed.startMs
    cacheClass :=
      if !provisionalIngest && parsed.endMs ≤ nowMs - 120 * hourMs then .immutable else .mutable
    retryKey := "v2|combined|" ++ parsed.retryKey }

/-- An error that is not one of the identity is answered with 502. -/
def badGateway (message : String) : IdentityError := ⟨502, message⟩

/-- A chunk of calculated history with rows from an ingest database. -/
def answerChunk (host : WebHost) (policy : Policy) (mode : ReadMode) (outcomes : Outcomes ν)
    (ingest : Ingest ν) (nowMs : ℤ) (binding : Binding) (searchParams : SearchParams) :
    Except IdentityError (HistoryChunk ν) := do
  let parsed ← parseHistoryChunkRequest host policy searchParams
  let bound ← validateTimeseriesBinding host binding
    ⟨some parsed.timeseriesId, some parsed.connectorId, some parsed.pollutant⟩
  let call := historyCall policy bound parsed.includeObservations parsed.includeAqi parsed.startMs
    parsed.endMs
  let combined ← (buildFromOutcomes host.toHost mode outcomes ingest call).mapError badGateway
  let visible ← (visibleRows host.toHost mode outcomes.reader ingest call).mapError badGateway
  return historyChunk policy parsed nowMs combined
    (visible.countP fun row ↦ row.source = "ingest")

/-- `handleObservationHistoryChunk`, for a policy with continuity or calculated indices. The two
instants are those at which the recovery and the class of the chunk read the clock. -/
def handleObservationHistoryChunk (host : WebHost) (policy : Policy) (mode : ReadMode)
    (outcomes : Outcomes ν) (service : IngestService ν) (recoveryMs nowMs : ℤ) (binding : Binding)
    (searchParams : SearchParams) : Except IdentityError (HistoryChunk ν) :=
  answerChunk host policy mode outcomes (recoveryIngest service recoveryMs) nowMs binding searchParams

end UkAqOps.StationHistory

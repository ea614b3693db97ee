import UkAqOps.Lib.Effects
import UkAqOps.Prune.Evidence

/-!
# The deletion of a connector-day

`runPruneConnectorDayDeletionTransaction` as a program whose calls are its queries. The transaction
reads the evidence and the rows, compares them, deletes hour by hour in batches, checks that nothing
is left, consumes the evidence and commits; every check that fails ends in a rollback, or in a commit
that only invalidates the evidence.

The session keeps the committed database apart from the one the transaction works on. A query may
fail at any point and leave the transaction in any state, and a commit whose reply is lost may have
taken effect; nothing but a commit changes the committed database.
-/

namespace UkAqOps.Prune

open Effects

/-! ## The database -/

/-- A raw observation. -/
structure RawRow where
  connectorId : ℤ
  timeseriesId : ℤ
  observedAt : ℤ
  value : Option String := none
  status : Option String := none
deriving DecidableEq

structure Database where
  observations : List RawRow
  candidates : List CandidateRow
  gates : List GateRow

/-- `uk_aq_phase_b_history_rows_v2`: the canonical rows of a connector in a window, computed from the
raw observations. All that is known of it is that it stays inside the connector and the window. -/
structure CanonicalView where
  rows : List RawRow → (connectorId windowStart windowEnd : ℤ) → List CanonicalRow
  inScope : ∀ observations connectorId windowStart windowEnd,
    ∀ row ∈ rows observations connectorId windowStart windowEnd,
      row.connectorId = connectorId ∧ windowStart ≤ row.observedAt ∧ row.observedAt < windowEnd

def CandidateRow.isOf (row : CandidateRow) (pair : Pair) : Bool :=
  row.dayUtc = pair.dayUtc && row.connectorId = pair.connectorId

def GateRow.isOf (row : GateRow) (pair : Pair) : Bool :=
  row.dayUtc = pair.dayUtc && row.connectorId = pair.connectorId

def RawRow.isIn (row : RawRow) (connectorId windowStart windowEnd : ℤ) : Bool :=
  row.connectorId = connectorId && windowStart ≤ row.observedAt && row.observedAt < windowEnd

/-- The raw row is the one that the canonical row was made of. -/
def RawRow.isSourceOf (row : RawRow) (canonical : CanonicalRow) : Bool :=
  row.connectorId = canonical.connectorId && row.timeseriesId = canonical.timeseriesId &&
    row.observedAt = canonical.observedAt

/-- The raw rows of the target of a delete statement. -/
def RawRow.isTarget (row : RawRow) (target : List CanonicalRow) : Bool := target.any row.isSourceOf

/-! ## The changes to the evidence -/

/-- `invalidateConnectorDayEvidence`, on the candidate and on the gate. -/
def CandidateRow.invalidated (row : CandidateRow) (failureReason : String) : CandidateRow :=
  { row with
    status := "pending"
    runId := none
    lastError := some failureReason
    manifestKey := none
    historyRowCount := none
    historyFileCount := none
    historyTotalBytes := none
    historyCompletedAt := none
    identity := {}
    resumeLastTimeseriesId := none
    resumeLastObservedAt := none
    resumePartIndex := 0
    resumeExportedRowCount := 0
    resumePartsJson := "[]" }

def GateRow.invalidated (row : GateRow) : GateRow :=
  { row with
    historyDone := false
    historyRunId := none
    historyManifestKey := none
    historyManifestHash := none
    historyRowCount := none
    historyFileCount := none
    historyTotalBytes := none
    historyCompletedAt := none
    identity := {}
    completionSource := none }

/-- The `where` clauses of `consumeFirstDeletionAuthority`. -/
def CandidateRow.isReady (row : CandidateRow) (pair : Pair) (runId : Option String) : Bool :=
  row.isOf pair && row.status = "complete" && row.lastError = some firstDeleteReady &&
    runId.isSome && row.runId = runId

def GateRow.isOpen (row : GateRow) (pair : Pair) (runId manifestHash : Option String) : Bool :=
  row.isOf pair && row.historyDone && runId.isSome && row.historyRunId = runId &&
    manifestHash.isSome && row.historyManifestHash = manifestHash

def updateWhere {α : Type} (p : α → Bool) (f : α → α) (rows : List α) : List α :=
  rows.map fun row ↦ if p row then f row else row

def Database.updateCandidates (db : Database) (p : CandidateRow → Bool)
    (f : CandidateRow → CandidateRow) : Database :=
  { db with candidates := updateWhere p f db.candidates }

def Database.updateGates (db : Database) (p : GateRow → Bool) (f : GateRow → GateRow) : Database :=
  { db with gates := updateWhere p f db.gates }

/-! ## Queries -/

inductive Query where
  | begin
  | commit
  | rollback
  | selectCandidate (pair : Pair)
  | selectGate (pair : Pair)
  | canonicalRows (connectorId windowStart windowEnd : ℤ)
  | canonicalCount (connectorId windowStart windowEnd : ℤ)
  | rawCount (connectorId windowStart windowEnd : ℤ)
  | deleteBatch (connectorId hourStart limit : ℤ)
  | invalidateCandidate (pair : Pair) (failureReason : String)
  | invalidateGate (pair : Pair)
  | consumeCandidate (pair : Pair) (marker : String) (runId : Option String)
  | consumeGate (pair : Pair) (runId manifestHash : Option String)

/-- A count query answers its count, an update and a delete the number of rows they changed. -/
abbrev Query.Answer : Query → Type
  | .selectCandidate _ => Option CandidateRow
  | .selectGate _ => Option GateRow
  | .canonicalRows .. => List CanonicalRow
  | .canonicalCount .. => ℕ
  | .rawCount .. => ℕ
  | .deleteBatch .. => ℕ
  | .consumeCandidate .. => ℕ
  | .consumeGate .. => ℕ
  | _ => Unit

/-- An error: the `code` of the database, if it has one, and the message. -/
structure Failure where
  code : String := ""
  message : String

abbrev Script (α : Type) := Prog Query.Answer Failure α

abbrev query (q : Query) : Script q.Answer := Prog.await q

/-- A synchronous step of the source that may throw. -/
def lift {α : Type} (x : Except String α) : Script α :=
  Prog.ofExcept (x.mapError fun message ↦ { message })

/-! ## The plan -/

/-- How many rows each hour holds, in the order in which the hours first occur. -/
def currentHourCounts (rows : List CanonicalRow) : OrderedMap ℤ ℤ :=
  rows.foldl (fun counts row ↦
    let hourStart := row.observedAt / hourMs * hourMs
    counts.set hourStart ((counts.get? hourStart).getD 0 + 1)) .empty

structure Coverage where
  exactCoverage : Bool
  currentBucketCount : ℕ
  eligibleBucketCount : ℕ
  buckets : List Bucket

/-- The buckets by hour, the last one of an hour winning. -/
def plannedByHour (buckets : List Bucket) : OrderedMap ℤ Bucket :=
  .ofList (buckets.map fun bucket ↦ (bucket.hourStart, bucket))

def coverageOf (buckets : List Bucket) (currentRows : List CanonicalRow) : Coverage :=
  let planned := plannedByHour buckets
  let currentByHour := currentHourCounts currentRows
  let duplicateHour := ¬(buckets.map Bucket.hourStart).Nodup
  { exactCoverage := ¬duplicateHour && planned.size = currentByHour.size &&
      currentByHour.entries.all fun entry ↦
        (planned.get? entry.1).map Bucket.observationCount = some entry.2
    currentBucketCount := currentByHour.size
    eligibleBucketCount := planned.size
    buckets := planned.values.mergeSort fun left right ↦ left.hourStart ≤ right.hourStart }

def deletionPlanCoversCurrentConnectorDay (host : Host) (pair : Pair) (buckets : List Bucket)
    (currentRows : List CanonicalRow) : Except String Coverage := do
  let normalized ← buckets.mapM fun bucket ↦ normalizeBucket host pair bucket.input
  pure (coverageOf normalized currentRows)

/-! ## The transaction -/

/-- Why a connector-day was not deleted, and for which buckets. -/
structure Blocked where
  pair : Pair
  buckets : List Bucket
  failureReason : String
  invalidated : Bool := false
  rolledBack : Bool := false

structure BucketResult where
  connectorId : ℤ
  hourStart : ℤ
  deletedRows : ℕ
  batchesRun : ℤ
  remainingSnapshotRows : ℕ
  maxBatchesReachedWithRemainingRows : Bool

inductive Outcome where
  | deleted (pair : Pair) (bucketResults : List BucketResult) (identity : SourceIdentity)
      (committedDeletedRows : ℕ)
  | blocked (blocked : Blocked)

/-- The arguments of the transaction. -/
structure Request where
  pair : Pair
  buckets : List Bucket
  deleteBatchSize : ℤ
  maxDeleteBatchesPerHour : ℤ
  pollutantCodes : Option (List String)

/-- Roll back and report the reason. -/
def rollBackBlocked (request : Request) (failureReason : String) : Script Outcome := do
  query .rollback
  pure (.blocked
    { pair := request.pair, buckets := request.buckets, failureReason, rolledBack := true })

/-- Invalidate both rows of evidence, commit and report the reason. -/
def invalidateBlocked (request : Request) (failureReason : String) : Script Outcome := do
  query (.invalidateCandidate request.pair failureReason)
  query (.invalidateGate request.pair)
  query .commit
  pure (.blocked
    { pair := request.pair, buckets := request.buckets, failureReason, invalidated := true })

/-- The batches of an hour, until one deletes nothing or the cap is reached. -/
def deleteBatches (request : Request) (bucket : Bucket) : ℕ → ℤ → ℕ → Script (ℤ × ℕ)
  | 0, batchesRun, totalDeleted => pure (batchesRun, totalDeleted)
  | left + 1, batchesRun, totalDeleted => do
    let deletedCount ← query
      (.deleteBatch request.pair.connectorId bucket.hourStart request.deleteBatchSize)
    if deletedCount = 0 then pure (batchesRun + 1, totalDeleted)
    else deleteBatches request bucket left (batchesRun + 1) (totalDeleted + deletedCount)

def deleteOneHour (request : Request) (bucket : Bucket) : Script BucketResult := do
  let (batchesRun, totalDeleted) ←
    deleteBatches request bucket request.maxDeleteBatchesPerHour.toNat 0 0
  let remainingRows ← query
    (.canonicalCount request.pair.connectorId bucket.hourStart (bucket.hourStart + hourMs))
  pure {
    connectorId := bucket.connectorId
    hourStart := bucket.hourStart
    deletedRows := totalDeleted
    batchesRun
    remainingSnapshotRows := remainingRows
    maxBatchesReachedWithRemainingRows :=
      request.maxDeleteBatchesPerHour ≤ batchesRun && 0 < remainingRows }

/-- The loop over the hours: the results, or `none` when the cap of an hour was reached with rows
left in it. -/
def deleteHours (request : Request) :
    List Bucket → List BucketResult → Script (Option (List BucketResult))
  | [], results => pure (some results)
  | bucket :: rest, results => do
    let result ← deleteOneHour request bucket
    if result.maxBatchesReachedWithRemainingRows then pure none
    else deleteHours request rest (results ++ [result])

/-- `String(value)` of a nullable text. -/
def nullableText (value : Option String) : String := value.getD "null"

/-- The marker that replaces the marker of a first deletion. -/
def consumedMarker (candidate : CandidateRow) (gate : GateRow) (deletedRows : ℕ) : String :=
  let previousAuthority :=
    nullableText gate.historyManifestKey ++ "#" ++ nullableText gate.historyManifestHash
  firstDeleteConsumed ++ "\x7b" ++ ",".intercalate [
    "\"previous_authority\":" ++ jsonQuote previousAuthority,
    "\"original_run_id\":" ++ jsonNullable jsonQuote candidate.runId,
    "\"deleted_row_count\":" ++ jsonQuote (toString deletedRows),
    "\"reason\":" ++ jsonQuote ("Original complete connector-day source was fully drained by a " ++
      "committed atomic deletion; later historical rows require separate authorisation"),
    "\"next_action\":" ++
      jsonQuote "review_reappeared_historical_rows_before_authorising_deletion"] ++ "\x7d"

def consumeFirstDeletionAuthority (pair : Pair) (candidate : CandidateRow) (gate : GateRow)
    (deletedRows : ℕ) : Script Unit := do
  let candidates ← query
    (.consumeCandidate pair (consumedMarker candidate gate deletedRows) candidate.runId)
  if candidates ≠ 1 then
    throw { message := "Original Prune first-deletion marker could not be consumed" }
  let gates ← query (.consumeGate pair candidate.runId gate.historyManifestHash)
  if gates ≠ 1 then throw { message := "Original Prune deletion gate could not be consumed" }

/-- The identity of the rows, or the reason why it is not the one of the candidate. -/
def checkCurrentIdentity (host : Host) (currentRows : List CanonicalRow)
    (candidateIdentity : SourceIdentity) : Except String SourceIdentity :=
  match computePruneConnectorSourceIdentity host currentRows with
  | .error message => .error (pruneConnectorSourceIdentityFailureReason message)
  | .ok currentIdentity =>
    match comparePruneConnectorSourceIdentities currentIdentity candidateIdentity with
    | .error message => .error (pruneConnectorSourceIdentityFailureReason message)
    | .ok (some failureReason) => .error failureReason
    | .ok none => .ok currentIdentity

/-- What is left once every hour was gone through: nothing may remain, and the counts must agree. -/
def finishDeletion (request : Request) (candidate : CandidateRow) (gate : GateRow)
    (identities : List SourceIdentity) (currentIdentity : SourceIdentity) (plan : List Bucket)
    (results : List BucketResult) : Script Outcome := do
  let pair := request.pair
  let remainingSnapshotRows ← query (.canonicalCount pair.connectorId pair.dayStart pair.dayEnd)
  if remainingSnapshotRows ≠ 0 then rollBackBlocked request "connector_day_not_fully_drained" else
  let remainingRawSnapshotRows ← query (.rawCount pair.connectorId pair.dayStart pair.dayEnd)
  if remainingRawSnapshotRows ≠ 0 then rollBackBlocked request "connector_day_scope_mismatch" else
  let transactionDeletedRows := (results.map BucketResult.deletedRows).sum
  let validatedPlanRows := (plan.map Bucket.observationCount).sum
  if ¬(identities.all fun identity ↦ identity.rowCount = (transactionDeletedRows : ℤ)) ∨
      validatedPlanRows ≠ (transactionDeletedRows : ℤ) then
    rollBackBlocked request "connector_day_deleted_row_count_mismatch" else
  consumeFirstDeletionAuthority pair candidate gate transactionDeletedRows
  query .commit
  pure (.deleted pair results currentIdentity transactionDeletedRows)

/-- The transaction after `begin`. -/
def transactionBody (host : Host) (request : Request) : Script Outcome := do
  let pair := request.pair
  let candidate ← query (.selectCandidate pair)
  let gate ← query (.selectGate pair)
  let classified ← lift (classifyLockedEvidence host candidate gate pair)
  match classified, candidate, gate with
  | .failed failureReason true, _, _ => rollBackBlocked request failureReason
  | .failed failureReason false, _, _ => invalidateBlocked request failureReason
  | .proven candidateIdentity gateIdentity, some candidate, some gate => do
    let currentRows ← query (.canonicalRows pair.connectorId pair.dayStart pair.dayEnd)
    let rawSnapshotRows ← query (.rawCount pair.connectorId pair.dayStart pair.dayEnd)
    if currentRows.length = 0 ∧ 0 < rawSnapshotRows then
      rollBackBlocked request "connector_day_scope_mismatch" else
    match checkCurrentIdentity host currentRows candidateIdentity with
    | .error failureReason => invalidateBlocked request failureReason
    | .ok currentIdentity => do
      if rawSnapshotRows ≠ currentRows.length then
        rollBackBlocked request "connector_day_scope_mismatch" else
      let coverage ← lift
        (deletionPlanCoversCurrentConnectorDay host pair request.buckets currentRows)
      if (request.pollutantCodes.getD []).length ≠ 0 then
        rollBackBlocked request "connector_day_scope_mismatch" else
      if ¬coverage.exactCoverage then
        rollBackBlocked request "connector_day_not_fully_eligible" else
      let results ← deleteHours request coverage.buckets []
      match results with
      | none => rollBackBlocked request "connector_day_delete_cap_reached"
      | some results =>
        finishDeletion request candidate gate [currentIdentity, candidateIdentity, gateIdentity]
          currentIdentity coverage.buckets results
  | .proven _ _, _, _ => throw { message := "evidence is proven without its rows" }

/-- Roll back if anything throws after `begin`; a failing rollback does not hide the error. -/
def rollingBack (body : Script Outcome) : Script Outcome :=
  tryCatch body fun failure ↦ do
    tryCatch (query .rollback) fun _ ↦ pure ()
    throw failure

/-- `TRANSACTION_CONFLICT_CODES`. -/
def isTransactionConflict (failure : Failure) : Bool :=
  failure.code = "40001" || failure.code = "40P01"

/-- The arguments as they are passed in. -/
structure Arguments where
  dayUtc : String
  connectorId : Option ℤ
  buckets : List BucketInput
  deleteBatchSize : ℤ
  maxDeleteBatchesPerHour : ℤ
  pollutantCodes : Option (List String) := none

def readRequest (host : Host) (arguments : Arguments) : Except String Request := do
  let pair ← normalizePair arguments.dayUtc arguments.connectorId
  let buckets ← arguments.buckets.mapM (normalizeBucket host pair)
  pure ⟨pair, buckets, arguments.deleteBatchSize, arguments.maxDeleteBatchesPerHour,
    arguments.pollutantCodes⟩

def runPruneConnectorDayDeletionTransaction (host : Host) (arguments : Arguments) :
    Script Outcome := do
  let request ← lift (readRequest host arguments)
  tryCatch (do
    query .begin
    rollingBack (transactionBody host request))
    fun failure ↦
      if isTransactionConflict failure then pure (.blocked
        { pair := request.pair, buckets := request.buckets,
          failureReason := "source_identity_transaction_conflict", rolledBack := true })
      else throw failure

/-! ## How the database answers -/

/-- The committed database, and the one the open transaction works on. -/
structure Session where
  committed : Database
  working : Option Database := none

/-- A statement of the open transaction on the database it sees. A batch deletes the raw rows of any
choice of canonical rows within its limit. -/
def Statement (view : CanonicalView) (db : Database) : (q : Query) → q.Answer → Database → Prop
  | .selectCandidate pair, answer, db' =>
    answer = (db.candidates.find? fun row ↦ row.isOf pair) ∧ db' = db
  | .selectGate pair, answer, db' => answer = (db.gates.find? fun row ↦ row.isOf pair) ∧ db' = db
  | .canonicalRows connectorId windowStart windowEnd, answer, db' =>
    answer = view.rows db.observations connectorId windowStart windowEnd ∧ db' = db
  | .canonicalCount connectorId windowStart windowEnd, answer, db' =>
    answer = (view.rows db.observations connectorId windowStart windowEnd).length ∧ db' = db
  | .rawCount connectorId windowStart windowEnd, answer, db' =>
    answer = db.observations.countP (fun row ↦ row.isIn connectorId windowStart windowEnd) ∧ db' = db
  | .deleteBatch connectorId hourStart limit, answer, db' =>
    ∃ target, target ⊆ view.rows db.observations connectorId hourStart (hourStart + hourMs) ∧
      (target.length : ℤ) ≤ limit ∧
      answer = db.observations.countP (fun row ↦ row.isTarget target) ∧
      db' = { db with observations := db.observations.filter fun row ↦ !row.isTarget target }
  | .invalidateCandidate pair failureReason, _, db' =>
    db' = db.updateCandidates (fun row ↦ row.isOf pair) fun row ↦ row.invalidated failureReason
  | .invalidateGate pair, _, db' =>
    db' = db.updateGates (fun row ↦ row.isOf pair) GateRow.invalidated
  | .consumeCandidate pair marker runId, answer, db' =>
    answer = db.candidates.countP (fun row ↦ row.isReady pair runId) ∧
    db' = db.updateCandidates (fun row ↦ row.isReady pair runId)
      fun row ↦ { row with lastError := some marker }
  | .consumeGate pair runId manifestHash, answer, db' =>
    answer = db.gates.countP (fun row ↦ row.isOpen pair runId manifestHash) ∧
    db' = db.updateGates (fun row ↦ row.isOpen pair runId manifestHash)
      fun row ↦ { row with historyDone := false }
  | .begin, _, _ => False
  | .commit, _, _ => False
  | .rollback, _, _ => False

/-- How the session answers a query. A failed query leaves the committed database alone, unless it is
a commit whose reply was lost. -/
def Answers (view : CanonicalView) (s : Session) (q : Query) :
    Except Failure q.Answer → Session → Prop
  | .error _, s' => s'.committed = s.committed ∨
      (q = .commit ∧ ∃ db, s.working = some db ∧ s'.committed = db)
  | .ok answer, s' =>
    (q = .begin ∧ s' = ⟨s.committed, some s.committed⟩) ∨
    (q = .rollback ∧ s' = ⟨s.committed, none⟩) ∨
    (q = .commit ∧ ∃ db, s.working = some db ∧ s' = ⟨db, none⟩) ∨
    ∃ db db', s.working = some db ∧ Statement view db q answer db' ∧ s' = ⟨s.committed, some db'⟩

/-- The environment of the transaction. -/
def databaseEnv (view : CanonicalView) : Env Query.Answer Failure Session where
  permits _ _ := True
  answers := Answers view

end UkAqOps.Prune

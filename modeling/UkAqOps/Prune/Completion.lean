import Mathlib.Logic.Function.Basic
import UkAqOps.Js.Stringify
import UkAqOps.Lib.Except
import UkAqOps.Prune.Evidence

/-!
# Completing a candidate with its gate

`workers/uk_aq_prune_daily/phase_b_history_r2.mjs`: once the history of a run is final, every
candidate that was published is completed in a transaction of its own, which also opens the gate of
its connector-day. The two rows together are the authority to delete.

The transaction is answered from outside: any of its queries can fail, and its `COMMIT` can take
effect without being acknowledged. The optional evidence for the outbox is left out but for an error
that ends the transaction; it reads and writes neither of the two rows.
-/

namespace UkAqOps.Prune

/-! ## Tables -/

/-- The primary key of both tables. -/
abbrev PairKey := String × ℤ

/-- A row of `history_candidates` with the number of source rows that was counted for it. -/
structure StoredCandidate extends CandidateRow where
  expectedRowCount : ℤ

structure Tables where
  candidates : PairKey → Option StoredCandidate
  gates : PairKey → Option GateRow

def Tables.setCandidate (t : Tables) (key : PairKey) (row : StoredCandidate) : Tables :=
  { t with candidates := Function.update t.candidates key (some row) }

def Tables.setGate (t : Tables) (key : PairKey) (row : GateRow) : Tables :=
  { t with gates := Function.update t.gates key (some row) }

/-- A candidate whose history was published and verified, waiting for its completion. -/
structure Publication where
  dayUtc : String
  connectorId : ℤ
  historyManifestKey : String
  historyManifestHash : String
  historyRowCount : ℤ
  historyFileCount : ℤ
  historyTotalBytes : ℤ
  sourceIdentity : SourceIdentity
  writtenRowCount : ℤ
  totalBytes : ℤ

def Publication.key (p : Publication) : PairKey := (p.dayUtc, p.connectorId)

/-! ## The transaction -/

/-- How a `COMMIT` is answered: acknowledged, acknowledged as another command, or not at all. -/
inductive CommitAnswer where
  | committed
  | otherCommand
  | lost (applied : Bool) (message : String)

/-- The answers to the queries of one transaction: the error of each one, if it fails, and the time
that `now()` gives. -/
structure CompletionAnswers where
  now : String
  beginError : Option String
  candidateError : Option String
  gateError : Option String
  outboxError : Option String
  commit : CommitAnswer
  rollbackError : Option String

/-- The row that the update gives, when its `where` clause finds one. -/
def markCandidateComplete (row : StoredCandidate) (p : Publication) (runId now : String) :
    Option StoredCandidate :=
  if row.runId = some runId ∧ row.status = "in_progress" ∧
      row.expectedRowCount = p.historyRowCount ∧ row.lastError = none then
    some { row with
      status := "complete"
      lastError := some firstDeleteReady
      manifestKey := some p.historyManifestKey
      historyRowCount := some p.historyRowCount
      historyFileCount := some p.historyFileCount
      historyTotalBytes := some p.historyTotalBytes
      historyCompletedAt := some now
      identity := p.sourceIdentity.stored
      resumeLastTimeseriesId := none
      resumeLastObservedAt := none
      resumePartIndex := 0
      resumeExportedRowCount := 0
      resumePartsJson := "[]" }
  else none

/-- `normalizeConnectorGateCompletionEvidence`, with the row that the upsert writes. -/
def setConnectorDayGateComplete (host : Host) (p : Publication) (runId now : String) :
    Except String GateRow := do
  let pair ← normalizeConnectorDayPair p.dayUtc p.connectorId
  let manifestKey := trimText p.historyManifestKey
  let expectedKey ← canonicalObservationConnectorManifestKey host pair.1 pair.2
  if manifestKey ≠ expectedKey then
    .error ("Connector gate manifest key is not canonical: " ++
      (if manifestKey = "" then "(missing)" else manifestKey)) else
  let manifestHash := trimText p.historyManifestHash
  if ¬ isSha256Hex manifestHash then
    .error "Connector gate manifest hash must be a lowercase SHA-256 hex digest" else
  let historyRowCount ← normalizeNonNegativeInteger (some p.historyRowCount) "history_row_count"
  let historyFileCount ← normalizeNonNegativeInteger (some p.historyFileCount) "history_file_count"
  let historyTotalBytes ←
    normalizeNonNegativeInteger (some p.historyTotalBytes) "history_total_bytes"
  let identity ← normalizePruneConnectorSourceIdentity p.sourceIdentity.stored
  if (historyRowCount = 0 ∧ (historyFileCount ≠ 0 ∨ historyTotalBytes ≠ 0)) ∨
      (historyRowCount > 0 ∧ (historyFileCount = 0 ∨ historyTotalBytes = 0)) then
    .error "Connector gate row, file and byte counts are internally inconsistent"
  else if identity.rowCount ≠ historyRowCount then
    .error "Connector gate source identity row count must equal history_row_count"
  else .ok {
    dayUtc := pair.1
    connectorId := pair.2
    historyDone := true
    historyRunId := if trimText runId = "" then none else some (trimText runId)
    historyManifestKey := some manifestKey
    historyManifestHash := some manifestHash
    historyRowCount := some historyRowCount
    historyFileCount := some historyFileCount
    historyTotalBytes := some historyTotalBytes
    historyCompletedAt := some now
    completionSource := some "prune_daily_phase_b"
    identity := identity.stored }

/-- `assertOriginalCandidateGateCompletion`: both rows say what was meant to be written. -/
def agreesAsIntended (candidate : StoredCandidate) (gate : GateRow) (p : Publication)
    (runId : String) : Bool :=
  candidate.dayUtc = p.dayUtc && gate.dayUtc = p.dayUtc &&
  candidate.connectorId = p.connectorId && gate.connectorId = p.connectorId &&
  candidate.status = "complete" && candidate.lastError = some firstDeleteReady &&
  candidate.runId = some runId && gate.historyRunId = some runId &&
  gate.historyDone && gate.completionSource = some "prune_daily_phase_b" &&
  candidate.manifestKey = some p.historyManifestKey &&
  gate.historyManifestKey = some p.historyManifestKey &&
  gate.historyManifestHash = some p.historyManifestHash &&
  candidate.expectedRowCount = p.historyRowCount &&
  candidate.historyRowCount = some p.historyRowCount &&
  gate.historyRowCount = some p.historyRowCount &&
  candidate.historyFileCount = some p.historyFileCount &&
  gate.historyFileCount = some p.historyFileCount &&
  candidate.historyTotalBytes = some p.historyTotalBytes &&
  gate.historyTotalBytes = some p.historyTotalBytes &&
  candidate.identity.contentHash = some p.sourceIdentity.contentHash &&
  gate.identity.contentHash = some p.sourceIdentity.contentHash &&
  candidate.identity.contractVersion = some p.sourceIdentity.contractVersion &&
  gate.identity.contractVersion = some p.sourceIdentity.contractVersion &&
  candidate.identity.rowCount = some p.sourceIdentity.rowCount &&
  gate.identity.rowCount = some p.sourceIdentity.rowCount &&
  candidate.historyCompletedAt.getD "" ≠ "" &&
  candidate.historyCompletedAt = gate.historyCompletedAt

/-- A query that fails throws its error. -/
def failing : Option String → Except String Unit
  | some message => .error message
  | none => .ok ()

/-- What the transaction has written before its `COMMIT`. -/
def stagedRows (host : Host) (t : Tables) (p : Publication) (runId : String)
    (answers : CompletionAnswers) : Except String (StoredCandidate × GateRow) := do
  failing answers.candidateError
  match (t.candidates p.key).bind fun row ↦ markCandidateComplete row p runId answers.now with
  | none =>
    .error ("Original Prune candidate completion did not update exactly one intended " ++
      "in-progress row")
  | some candidate =>
    let gate ← setConnectorDayGateComplete host p runId answers.now
    failing answers.gateError
    if ¬ agreesAsIntended candidate gate p runId then
      .error "Original Prune candidate and database-returned connector gate disagree" else
    failing answers.outboxError
    .ok (candidate, gate)

/-- The error of a failed rollback takes the place of the error that led to it. -/
def markCandidateAndConnectorGateComplete (host : Host) (t : Tables) (p : Publication)
    (runId : String) (answers : CompletionAnswers) : Except String Unit × Tables :=
  match answers.beginError with
  | some message => (.error message, t)
  | none =>
    match stagedRows host t p runId answers with
    | .error message => (.error (answers.rollbackError.getD message), t)
    | .ok (candidate, gate) =>
      let applied := (t.setCandidate p.key candidate).setGate p.key gate
      match answers.commit with
      | .committed => (.ok (), applied)
      | .otherCommand =>
        (.error (answers.rollbackError.getD "Original Prune gate COMMIT not acknowledged"), t)
      | .lost true message => (.error (answers.rollbackError.getD message), applied)
      | .lost false message => (.error (answers.rollbackError.getD message), t)

/-! ## Marking -/

/-- How a query outside of a transaction is answered; an error can follow an update that took
effect. -/
inductive QueryAnswer where
  | done
  | failed (applied : Bool) (message : String)

/-- `left(text, 4000)`. -/
def errorColumn (text : String) : Option String := some (takeText text 4000)

def StoredCandidate.failed (row : StoredCandidate) (runId errorText : String) : StoredCandidate :=
  { row with
    status := "failed"
    runId := some runId
    lastError := errorColumn errorText
    identity := {} }

/-- `markCandidateStoppedForBudget` with its checkpoint cleared. -/
def StoredCandidate.stoppedForBudget (row : StoredCandidate) (runId errorText : String) :
    StoredCandidate :=
  { row with
    status := "pending"
    runId := some runId
    lastError := errorColumn errorText
    identity := {}
    resumeLastTimeseriesId := none
    resumeLastObservedAt := none
    resumePartIndex := 0
    resumeExportedRowCount := 0
    resumePartsJson := "[]" }

/-- An update of the row of a key, with what the table holds afterwards. -/
def updateCandidate (t : Tables) (key : PairKey) (f : StoredCandidate → StoredCandidate)
    (answer : QueryAnswer) : Except String (Option StoredCandidate) × Tables :=
  let applied := match t.candidates key with
    | some row => t.setCandidate key (f row)
    | none => t
  match answer with
  | .done => (.ok (t.candidates key), applied)
  | .failed true message => (.error message, applied)
  | .failed false message => (.error message, t)

/-- A row that is not there is an error. -/
def markCandidateFailed (t : Tables) (p : Publication) (runId errorText : String)
    (answer : QueryAnswer) : Except String Unit × Tables :=
  match updateCandidate t p.key (fun row ↦ row.failed runId errorText) answer with
  | (.ok (some _), t) => (.ok (), t)
  | (.ok none, t) =>
    (.error ("Phase B candidate failure evidence could not be retained for day=" ++ p.dayUtc ++
      " connector=" ++ toString p.connectorId), t)
  | (.error message, t) => (.error message, t)

def markCandidateStoppedForBudget (t : Tables) (p : Publication) (runId errorText : String)
    (answer : QueryAnswer) : Except String Unit × Tables :=
  match updateCandidate t p.key (fun row ↦ row.stoppedForBudget runId errorText) answer with
  | (.ok _, t) => (.ok (), t)
  | (.error message, t) => (.error message, t)

/-! ## What the two rows are to say -/

/-- The candidate is complete and not yet consumed, for the same publication as the gate. -/
structure Matches (candidate : StoredCandidate) (gate : GateRow) : Prop where
  status : candidate.status = "complete"
  marker : candidate.lastError = some firstDeleteReady
  runId : candidate.runId = gate.historyRunId
  manifestKey : candidate.manifestKey = gate.historyManifestKey
  identity : candidate.identity = gate.identity

/-- The gate of a key is done exactly when its candidate matches it. -/
def Agrees (t : Tables) (key : PairKey) : Prop :=
  (∃ gate, t.gates key = some gate ∧ gate.historyDone = true) ↔
    ∃ candidate gate, t.candidates key = some candidate ∧ t.gates key = some gate ∧
      Matches candidate gate

/-- What publishing leaves behind: the candidate is in progress and its gate is closed. -/
structure AwaitsCompletion (t : Tables) (p : Publication) (runId : String) : Prop where
  candidate : ∃ row, t.candidates p.key = some row ∧ row.status = "in_progress" ∧
    row.runId = some runId ∧ row.lastError = none
  gate : ∃ gate, t.gates p.key = some gate ∧ gate.historyDone = false

/-! ## What a transaction does -/

variable {host : Host} {t : Tables} {p : Publication} {runId : String}
variable {answers : CompletionAnswers}

def CommitAnswer.applied : CommitAnswer → Bool
  | committed => true
  | otherCommand => false
  | lost applied _ => applied

/-- The completion of the candidate took effect. -/
def Commits (host : Host) (t : Tables) (p : Publication) (runId : String)
    (answers : CompletionAnswers) : Prop :=
  answers.beginError = none ∧ (∃ rows, stagedRows host t p runId answers = .ok rows) ∧
    answers.commit.applied = true

/-- The completion took effect, and that was acknowledged. -/
def Acknowledged (host : Host) (t : Tables) (p : Publication) (runId : String)
    (answers : CompletionAnswers) : Prop :=
  Commits host t p runId answers ∧ answers.commit = .committed

/-- The assertion before the `COMMIT` is what makes the two rows match. -/
theorem matches_of_agreesAsIntended {candidate : StoredCandidate} {gate : GateRow}
    (h : agreesAsIntended candidate gate p runId = true) :
    Matches candidate gate ∧ gate.historyDone = true := by
  simp only [agreesAsIntended, Bool.and_eq_true, decide_eq_true_eq] at h
  obtain ⟨⟨⟨⟨⟨⟨⟨⟨⟨⟨⟨⟨⟨⟨⟨⟨⟨⟨⟨⟨⟨⟨⟨⟨⟨⟨⟨-, -⟩, -⟩, -⟩, hstatus⟩, hmarker⟩, hrun⟩, hgateRun⟩, hdone⟩, -⟩,
    hkey⟩, hgateKey⟩, -⟩, -⟩, -⟩, -⟩, -⟩, -⟩, -⟩, -⟩, hhash⟩, hgateHash⟩, hversion⟩, hgateVersion⟩,
    hrows⟩, hgateRows⟩, -⟩, -⟩ := h
  refine ⟨⟨hstatus, hmarker, hrun.trans hgateRun.symm, hkey.trans hgateKey.symm, ?_⟩, hdone⟩
  rcases hc : candidate.identity with ⟨contentHash, contractVersion, rowCount⟩
  rcases hg : gate.identity with ⟨gateHash, gateVersion, gateRows⟩
  rw [hc] at hhash hversion hrows
  rw [hg] at hgateHash hgateVersion hgateRows
  rw [StoredIdentity.mk.injEq]
  exact ⟨hhash.trans hgateHash.symm, hversion.trans hgateVersion.symm, hrows.trans hgateRows.symm⟩

theorem matches_of_stagedRows {candidate : StoredCandidate} {gate : GateRow}
    (h : stagedRows host t p runId answers = .ok (candidate, gate)) :
    Matches candidate gate ∧ gate.historyDone = true := by
  rw [stagedRows, Except.bind_eq_ok_iff] at h
  obtain ⟨-, -, h⟩ := h
  split at h
  · exact nomatch h
  · obtain ⟨gate', -, h⟩ := Except.bind_eq_ok_iff.1 h
    obtain ⟨-, -, h⟩ := Except.bind_eq_ok_iff.1 h
    split at h
    · exact nomatch h
    · rename_i hagrees
      obtain ⟨-, -, h⟩ := Except.bind_eq_ok_iff.1 h
      rw [Except.ok.injEq, Prod.mk.injEq] at h
      obtain ⟨rfl, rfl⟩ := h
      exact matches_of_agreesAsIntended (not_not.1 hagrees)

/-- Only the rows of its own key decide what a transaction writes. -/
theorem stagedRows_congr {t' : Tables} (h : t.candidates p.key = t'.candidates p.key) :
    stagedRows host t p runId answers = stagedRows host t' p runId answers := by
  rw [stagedRows, stagedRows, h]

theorem complete_ok_iff :
    (markCandidateAndConnectorGateComplete host t p runId answers).1 = .ok () ↔
      Acknowledged host t p runId answers := by
  rw [markCandidateAndConnectorGateComplete, Acknowledged, Commits]
  rcases answers.beginError with _ | message
  · rcases stagedRows host t p runId answers with message | ⟨candidate, gate⟩
    · simp
    · rcases hcommit : answers.commit with _ | _ | ⟨_ | _, message⟩
      all_goals simp [CommitAnswer.applied]
  · simp

/-- The rows of the key are replaced when the completion takes effect, and nothing else is. -/
theorem complete_tables :
    (∃ candidate gate, stagedRows host t p runId answers = .ok (candidate, gate) ∧
      Commits host t p runId answers ∧
      (markCandidateAndConnectorGateComplete host t p runId answers).2 =
        (t.setCandidate p.key candidate).setGate p.key gate) ∨
    (¬ Commits host t p runId answers ∧
      (markCandidateAndConnectorGateComplete host t p runId answers).2 = t) := by
  rw [markCandidateAndConnectorGateComplete, Commits]
  rcases answers.beginError with _ | message
  · rcases stagedRows host t p runId answers with message | ⟨candidate, gate⟩
    · simp
    · rcases hcommit : answers.commit with _ | _ | ⟨_ | _, message⟩
      all_goals simp [CommitAnswer.applied]
  · simp

end UkAqOps.Prune

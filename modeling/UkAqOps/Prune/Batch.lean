import UkAqOps.Prune.Completion

/-!
# Recording a batch of published candidates

`finalizeAndRecordPublishedPhaseBBatch`: the run is made final, each candidate of the batch is
completed with its gate, the ones that failed are marked, the day gates are brought up to date, and
an error in any of this marks the whole batch.

`BatchAnswers` lists how the run finalizer, the transactions, the marking queries and the day-gate
adapters are answered, by the position of the candidate or of the day. The log lines, the counts
about the optional evidence and the results by day are left out.
-/

namespace UkAqOps.Prune

/-! ## What a batch is given -/

/-- An error that reaches the batch: `budget` for the one that says that the time is used up. -/
structure BatchError where
  message : String
  budget : Bool
  operation : Option String

structure BatchAnswers where
  /-- The budget check, the run finalizer and the check of its result: the affected days. -/
  finalizer : Except BatchError (List String)
  completion : ℕ → CompletionAnswers
  markFailed : ℕ → QueryAnswer
  finalizeDayGate : ℕ → Except BatchError Unit
  blockDayGate : ℕ → QueryAnswer
  /-- The marks and blocks of the handler at the end. -/
  remark : ℕ → QueryAnswer
  reblock : ℕ → QueryAnswer

structure BatchFailure where
  key : PairKey
  error : String
  nextAction : String

structure PhaseBSummary where
  completedCandidates : List PairKey
  failures : List BatchFailure
  aggregateDayFailures : List (List String × String)
  stoppedForBudget : Option String

structure BatchReport where
  attempted : Bool
  canContinue : Bool
  completedWrittenRows : ℤ
  completedWrittenBytes : ℤ

/-! ## The steps -/

/-- Each value once, in ascending order. -/
def uniqueSorted (values : List String) : List String := values.eraseDups.mergeSort bytewiseLe

/-- What `finalizePublishedPhaseBConnectors` returns, the failures with their positions. -/
structure Finalized where
  completed : List Publication
  gateFailures : List (ℕ × Publication × String)

def unprovenGateRecovery : String := "PRUNE_GATE_ONLY_RECOVERY_UNPROVEN:"

/-- The error that a candidate keeps when its transaction failed. -/
def gateFailureText (p : Publication) (runId message : String) : String :=
  unprovenGateRecovery ++ (JsValue.obj [
    ("original_run_id", .str runId),
    ("previous_authority", .str (p.historyManifestKey ++ "#" ++ p.historyManifestHash)),
    ("original_source_identity", .obj [
      ("source_content_hash", .str p.sourceIdentity.contentHash),
      ("source_content_hash_contract_version", .int p.sourceIdentity.contractVersion),
      ("source_content_hash_row_count", .int p.sourceIdentity.rowCount)]),
    ("reason", .str ("Final R2 authority completed but PostgreSQL gate transaction failed: " ++
      takeText message 800)),
    ("next_action", .str "review_original_publication_evidence_before_gate_only_recovery")]
    ).stringify

/-- The candidates are completed one after the other; an error is kept and the next one follows. -/
def completeAll (host : Host) (runId : String) (answers : BatchAnswers) :
    (position : ℕ) → List Publication → Tables → Finalized × Tables
  | _, [], t => (⟨[], []⟩, t)
  | position, p :: ps, t =>
    match markCandidateAndConnectorGateComplete host t p runId (answers.completion position) with
    | (.ok (), t) =>
      let rest := completeAll host runId answers (position + 1) ps t
      ({ rest.1 with completed := p :: rest.1.completed }, rest.2)
    | (.error message, t) =>
      let rest := completeAll host runId answers (position + 1) ps t
      ({ rest.1 with gateFailures := (position, p, message) :: rest.1.gateFailures }, rest.2)

def recordGateFailures (runId : String) (answers : BatchAnswers) :
    List (ℕ × Publication × String) → Tables → PhaseBSummary →
      Except BatchError Unit × Tables × PhaseBSummary
  | [], t, summary => (.ok (), t, summary)
  | (position, p, message) :: rest, t, summary =>
    match markCandidateFailed t p runId (gateFailureText p runId message)
        (answers.markFailed position) with
    | (.error e, t) => (.error ⟨e, false, none⟩, t, summary)
    | (.ok (), t) =>
      recordGateFailures runId answers rest t { summary with
        failures := summary.failures ++ [⟨p.key, message,
          "review_original_publication_evidence_before_gate_only_recovery"⟩] }

/-- A day whose finalization fails is blocked; a budget error ends the loop there. -/
def finalizeDays (answers : BatchAnswers) :
    (position : ℕ) → List String → PhaseBSummary → Except BatchError Unit × PhaseBSummary
  | _, [], summary => (.ok (), summary)
  | position, dayUtc :: days, summary =>
    match answers.finalizeDayGate position with
    | .ok () => finalizeDays answers (position + 1) days summary
    | .error e =>
      match answers.blockDayGate position with
      | .failed _ message => (.error ⟨message, false, none⟩, summary)
      | .done =>
        if e.budget then
          (.ok (), { summary with
            stoppedForBudget := some (e.operation.getD "day_finalization") })
        else finalizeDays answers (position + 1) days { summary with
          aggregateDayFailures := summary.aggregateDayFailures ++ [([dayUtc], e.message)] }

/-- One turn of the handler's loop marks the candidate, whatever it has come to. -/
def remark (runId : String) (e : BatchError) (p : Publication) (answer : QueryAnswer)
    (t : Tables) : Except String Unit × Tables :=
  if e.budget then markCandidateStoppedForBudget t p runId e.message answer
  else markCandidateFailed t p runId e.message answer

def remarkBatch (runId : String) (answers : BatchAnswers) (e : BatchError) :
    (position : ℕ) → List Publication → Tables → PhaseBSummary →
      Except BatchError Unit × Tables × PhaseBSummary
  | _, [], t, summary => (.ok (), t, summary)
  | position, p :: ps, t, summary =>
    match remark runId e p (answers.remark position) t with
    | (.error message, t) => (.error ⟨message, false, none⟩, t, summary)
    | (.ok (), t) =>
      let summary := if e.budget then summary else { summary with
        failures := summary.failures ++ [⟨p.key, e.message, "retry_run_finalization"⟩] }
      match answers.reblock position with
      | .failed _ message => (.error ⟨message, false, none⟩, t, summary)
      | .done => remarkBatch runId answers e (position + 1) ps t summary

/-! ## The batch -/

/-- The body of the `try` block. -/
def finalizeBatch (host : Host) (runId : String) (answers : BatchAnswers)
    (batch : List Publication) (t : Tables) (summary : PhaseBSummary) :
    Except BatchError BatchReport × Tables × PhaseBSummary :=
  match answers.finalizer with
  | .error e => (.error e, t, summary)
  | .ok days =>
    let finalized := completeAll host runId answers 0 batch t
    let summary := { summary with
      completedCandidates := summary.completedCandidates ++
        finalized.1.completed.map Publication.key }
    match recordGateFailures runId answers finalized.1.gateFailures finalized.2 summary with
    | (.error e, t, summary) => (.error e, t, summary)
    | (.ok (), t, summary) =>
      match finalizeDays answers 0 days summary with
      | (.error e, summary) => (.error e, t, summary)
      | (.ok (), summary) =>
        (.ok {
          attempted := true
          canContinue := summary.stoppedForBudget.isNone
          completedWrittenRows := (finalized.1.completed.map Publication.writtenRowCount).sum
          completedWrittenBytes := (finalized.1.completed.map Publication.totalBytes).sum },
        t, summary)

structure BatchOutcome where
  tables : Tables
  summary : PhaseBSummary
  result : Except BatchError BatchReport

def finalizeAndRecordPublishedPhaseBBatch (host : Host) (runId : String) (answers : BatchAnswers)
    (batch : List Publication) (t : Tables) (summary : PhaseBSummary) : BatchOutcome :=
  if batch = [] then ⟨t, summary, .ok ⟨false, true, 0, 0⟩⟩
  else match finalizeBatch host runId answers batch t summary with
    | (.ok report, t, summary) => ⟨t, summary, .ok report⟩
    | (.error e, t, summary) =>
      match remarkBatch runId answers e 0 batch t summary with
      | (.error e', t, summary) => ⟨t, summary, .error e'⟩
      | (.ok (), t, summary) =>
        let summary := if e.budget then { summary with
            stoppedForBudget := some (e.operation.getD "observation_run_finalization") }
          else { summary with
            aggregateDayFailures := summary.aggregateDayFailures ++
              [(uniqueSorted (batch.map Publication.dayUtc), e.message)] }
        ⟨t, summary, .ok ⟨true, false, 0, 0⟩⟩

end UkAqOps.Prune

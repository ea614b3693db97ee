import UkAqOps.Lib.Effects
import UkAqOps.Lib.OrderedMap
import UkAqOps.Scheduler.Job

/-!
# The scheduler

`runScheduler` claims the minute slot of its invocation, lists the enabled jobs, claims each job
that is due in the slot and dispatches the claims it wins. It is written as a program whose calls
are the D1 statements of the store, the clock and the target of a dispatch, so that every `await`
of the source that touches something shared is one call, and any number of invocations can be
interleaved on one database.

The two unique keys of the database are the key types of its tables. A statement that fails does so
before or after its effect.
-/

namespace UkAqOps.Scheduler

open Effects

/-! ## The tables -/

/-- The counters of one evaluation. -/
structure Summary where
  jobsChecked : ℕ := 0
  jobsDue : ℕ := 0
  jobsClaimed : ℕ := 0
  jobsDispatched : ℕ := 0
  jobsFailed : ℕ := 0

/-- The columns of `scheduler_runs` that an invocation writes; the scheduler name and the minute
slot are the key of the row. -/
structure RunRow where
  triggerSource : String
  startedAt : IsoTime
  finishedAt : Option IsoTime := none
  status : String
  previousRunStartedAt : Option IsoTime
  evaluationWindowStart : IsoTime
  evaluationWindowEnd : IsoTime
  summary : Summary
  errorMessage : Option String

/-- The columns of `scheduler_dispatches`; the job key and the due minute are the key of the row. -/
structure DispatchRow where
  claimedAt : IsoTime
  targetType : String
  dryRun : ℤ
  dispatchedAt : Option IsoTime := none
  dispatchStatus : String := "claimed"
  reason : Option String := none
  responseStatus : Option ℕ := none
  responsePreview : Option String := none

/-- `(scheduler_name, minute_slot)` and `(job_key, due_at)`. -/
abbrev SlotKey := String × IsoTime
abbrev DueKey := String × IsoTime

/-- The two tables with the row ids, and the last id each has given out. -/
structure Database where
  runs : OrderedMap SlotKey (ℕ × RunRow) := .empty
  dispatches : OrderedMap DueKey (ℕ × DispatchRow) := .empty
  lastRunId : ℕ := 0
  lastDispatchId : ℕ := 0

/-! ## Calls -/

/-- What D1 reports of a write. -/
structure RunMeta where
  changes : ℕ
  lastRowId : ℕ

structure DispatchPatch where
  dispatchedAt : IsoTime
  dispatchStatus : String
  reason : Option String
  responseStatus : Option ℕ
  responsePreview : Option String

structure RunPatch where
  status : String
  finishedAt : IsoTime
  previousRunStartedAt : Option IsoTime
  evaluationWindowStart : IsoTime
  evaluationWindowEnd : IsoTime
  summary : Summary
  errorMessage : Option String

structure DispatchResult where
  ok : Bool
  responseStatus : ℕ
  responsePreview : Option String
  reason : Option String := none

/-- A D1 statement, a reading of the clock, or the dispatch of a job. The due minute of a dispatch
is not sent to the target: it records which claim the dispatch is for. -/
inductive Call where
  | insertRun (key : SlotKey) (row : RunRow)
  | selectRun (key : SlotKey)
  | listEnabledJobs
  | insertDispatch (key : DueKey) (row : DispatchRow)
  | updateDispatch (id : ℕ) (patch : DispatchPatch)
  | finishRun (id : ℕ) (patch : RunPatch)
  | now
  | dispatchTarget (job : Job) (dueAt : IsoTime)

abbrev Call.Answer : Call → Type
  | .insertRun _ _ => RunMeta
  | .selectRun _ => Option (ℕ × RunRow)
  | .listEnabledJobs => List JobRow
  | .insertDispatch _ _ => RunMeta
  | .updateDispatch _ _ => Unit
  | .finishRun _ _ => Unit
  | .now => IsoTime
  | .dispatchTarget _ _ => DispatchResult

abbrev Script (α : Type) := Prog Call.Answer String α

/-- Make one call. -/
abbrev await (c : Call) : Script c.Answer := Prog.await c

/-! ## The store -/

/-- What the claim of a minute reports: whether it was won, and by whom the minute is held. -/
structure MinuteClaim where
  claimed : Bool
  schedulerRunId : Option ℕ
  runStatus : String
  triggerSource : Option String

/-- `Number(id) || null`. -/
def rowIdOf (id : ℕ) : Option ℕ := if id = 0 then none else some id

/-- The text, or `none` if it is blank. -/
def nonBlank (text : String) : Option String := if text = "" then none else some text

def claimMinute (key : SlotKey) (row : RunRow) : Script MinuteClaim := do
  let result ← await (.insertRun key row)
  if 0 < result.changes then
    pure ⟨true, rowIdOf result.lastRowId, "started", some row.triggerSource⟩
  else
    let existing ← await (.selectRun key)
    match existing with
    | none => throw "Scheduler minute claim was not recorded"
    | some (id, existing) =>
      pure ⟨false, rowIdOf id, (nonBlank (boundedText (.str existing.status) 64)).getD "unknown",
        nonBlank (boundedText (.str existing.triggerSource) 64)⟩

/-- The id of the row that an insert made, or `none` if there was such a row already. -/
def insertedId (result : RunMeta) : Option ℕ :=
  if 0 < result.changes then rowIdOf result.lastRowId else none

def claimDispatch (key : DueKey) (row : DispatchRow) : Script (Option ℕ) := do
  let result ← await (.insertDispatch key row)
  pure (insertedId result)

/-! ## Dispatching -/

/-- The `try` block of a won claim and its handler. -/
def dispatchClaimed (job : Job) (dueAt : IsoTime) (dispatchId : ℕ) (summary : Summary) :
    Script Summary :=
  tryCatch (do
    let result ← await (.dispatchTarget job dueAt)
    let dispatchedAt ← await .now
    await (.updateDispatch dispatchId {
      dispatchedAt
      dispatchStatus := if result.ok then "dispatched" else "failed"
      reason := if result.ok then none else result.reason
      responseStatus := some result.responseStatus
      responsePreview := result.responsePreview })
    pure (if result.ok then { summary with jobsDispatched := summary.jobsDispatched + 1 }
      else { summary with jobsFailed := summary.jobsFailed + 1 }))
    fun message ↦ do
      let dispatchedAt ← await .now
      await (.updateDispatch dispatchId {
        dispatchedAt
        dispatchStatus := "failed"
        reason := some message
        responseStatus := none
        responsePreview := none })
      pure { summary with jobsFailed := summary.jobsFailed + 1 }

/-- What follows a claim: a claim that was lost is skipped, a dry run is only recorded, and any other
claim is dispatched. -/
def useClaim (job : Job) (dueAt : IsoTime) (summary : Summary) : Option ℕ → Script Summary
  | none => pure summary
  | some dispatchId => do
    let claimed := { summary with jobsClaimed := summary.jobsClaimed + 1 }
    if job.dryRun = 1 then
      let dispatchedAt ← await .now
      await (.updateDispatch dispatchId {
        dispatchedAt
        dispatchStatus := "dry_run"
        reason := some "dry_run_enabled"
        responseStatus := none
        responsePreview := none })
      pure claimed
    else
      dispatchClaimed job dueAt dispatchId claimed

/-- The loop over the due minutes of a job. -/
def dispatchDueTimes (job : Job) : List IsoTime → Summary → Script Summary
  | [], summary => pure summary
  | dueAt :: rest, summary => do
    let claimedAt ← await .now
    let dispatchId ← claimDispatch (job.jobKey, dueAt)
      { claimedAt, targetType := job.target.type, dryRun := job.dryRun }
    let used ← useClaim job dueAt summary dispatchId
    dispatchDueTimes job rest used

/-- The loop over the listed rows: a row that cannot be read counts as failed. -/
def dispatchDueJobsForWindow (host : Host) (windowStartMs windowEndMs : ℤ) :
    List JobRow → Summary → Script Summary
  | [], summary => pure summary
  | rawJob :: rest, summary => do
    let checked := { summary with jobsChecked := summary.jobsChecked + 1 }
    let failed := { checked with jobsFailed := checked.jobsFailed + 1 }
    match parseSchedulerJobRow host rawJob with
    | .error _ => dispatchDueJobsForWindow host windowStartMs windowEndMs rest failed
    | .ok job =>
      match dueSlotsForJob host job windowStartMs windowEndMs with
      | .error _ => dispatchDueJobsForWindow host windowStartMs windowEndMs rest failed
      | .ok dueTimes =>
        let due := { checked with jobsDue := checked.jobsDue + dueTimes.length }
        let dispatched ← dispatchDueTimes job dueTimes due
        dispatchDueJobsForWindow host windowStartMs windowEndMs rest dispatched

/-! ## One invocation -/

/-- The arguments of `runScheduler`; `nowMs` is `none` for a number that is not finite. -/
structure Invocation where
  nowMs : Option ℤ
  schedulerName : String := "uk-aq-cron-scheduler-ops"
  triggerSource : String := "cloudflare_cron"

/-- What an invocation returns. -/
inductive Outcome where
  | alreadyClaimed (schedulerRunId : Option ℕ) (schedulerName : String) (minuteSlot : IsoTime)
      (triggerSource : String) (claimedTriggerSource : Option String) (runStatus : String)
  | triggered (schedulerRunId : ℕ) (schedulerName : String) (startedAt minuteSlot : IsoTime)
      (triggerSource : String) (previousRunStartedAt : Option IsoTime)
      (evaluationWindowStart evaluationWindowEnd : IsoTime) (summary : Summary)

def normalizeTriggerSource (value : String) : Except String String :=
  let source := boundedText (.str value) 64
  if source = "cloudflare_cron" ∨ source = "external_watchdog" then .ok source
  else .error "Invalid scheduler trigger source"

/-- `truncatePreview(text, RESPONSE_PREVIEW_LIMIT)`. -/
def truncatePreview (text : String) : Option String :=
  let raw := trimText text
  if raw = "" then none
  else if utf16Length raw ≤ 1000 then some raw
  else some (takeText raw 997 ++ "...")

/-- The times of an invocation, before anything is claimed. -/
structure Timing where
  startedAt : IsoTime
  minuteSlot : IsoTime
  window : EvaluationWindow
  triggerSource : String

def timingOf (invocation : Invocation) : Except String Timing :=
  match invocation.nowMs with
  | none => .error "Invalid scheduler invocation time"
  | some startedAtMs => do
    let startedAt ← nowIso startedAtMs
    let minuteSlot ← canonicalMinuteSlot startedAtMs
    let window ← currentMinuteEvaluationWindow minuteSlot
    let triggerSource ← normalizeTriggerSource invocation.triggerSource
    pure ⟨startedAt, minuteSlot, window, triggerSource⟩

/-- The `try` block of a won minute: list, dispatch, record the end of the run. -/
def evaluateSlot (host : Host) (schedulerName : String) (timing : Timing) (runId : ℕ) :
    Script Outcome := do
  let jobs ← await .listEnabledJobs
  let summary ← dispatchDueJobsForWindow host timing.window.startMs timing.window.endMs jobs {}
  let finishedAt ← await .now
  await (.finishRun runId {
    status := "finished"
    finishedAt
    previousRunStartedAt := none
    evaluationWindowStart := timing.window.start
    evaluationWindowEnd := timing.minuteSlot
    summary
    errorMessage := none })
  pure (.triggered runId schedulerName timing.startedAt timing.minuteSlot timing.triggerSource none
    timing.window.start timing.minuteSlot summary)

/-- The handler of that block: record the failure if the store still answers, and throw again. -/
def recordFailure (timing : Timing) (runId : ℕ) (message : String) : Script Outcome := do
  tryCatch (do
    let finishedAt ← await .now
    await (.finishRun runId {
      status := "failed"
      finishedAt
      previousRunStartedAt := none
      evaluationWindowStart := timing.window.start
      evaluationWindowEnd := timing.minuteSlot
      summary := {}
      errorMessage := truncatePreview message }))
    fun _ ↦ pure ()
  throw message

def runScheduler (host : Host) (invocation : Invocation) : Script Outcome := do
  let timing ← Prog.ofExcept (timingOf invocation)
  let minuteClaim ← claimMinute (invocation.schedulerName, timing.minuteSlot) {
    triggerSource := timing.triggerSource
    startedAt := timing.startedAt
    status := "started"
    previousRunStartedAt := none
    evaluationWindowStart := timing.window.start
    evaluationWindowEnd := timing.minuteSlot
    summary := {}
    errorMessage := none }
  if minuteClaim.claimed then
    match minuteClaim.schedulerRunId with
    | none => throw "Failed to claim scheduler minute"
    | some runId =>
      tryCatch (evaluateSlot host invocation.schedulerName timing runId)
        (recordFailure timing runId)
  else
    pure (.alreadyClaimed minuteClaim.schedulerRunId invocation.schedulerName timing.minuteSlot
      timing.triggerSource minuteClaim.triggerSource minuteClaim.runStatus)

/-! ## How the database answers -/

/-- `insert or ignore into scheduler_runs`. -/
def Database.insertRun (db : Database) (key : SlotKey) (row : RunRow) : RunMeta × Database :=
  match db.runs.get? key with
  | some _ => (⟨0, db.lastRunId⟩, db)
  | none => (⟨1, db.lastRunId + 1⟩,
    { db with runs := db.runs.set key (db.lastRunId + 1, row), lastRunId := db.lastRunId + 1 })

/-- `insert or ignore into scheduler_dispatches`. -/
def Database.insertDispatch (db : Database) (key : DueKey) (row : DispatchRow) :
    RunMeta × Database :=
  match db.dispatches.get? key with
  | some _ => (⟨0, db.lastDispatchId⟩, db)
  | none => (⟨1, db.lastDispatchId + 1⟩,
    { db with
      dispatches := db.dispatches.set key (db.lastDispatchId + 1, row)
      lastDispatchId := db.lastDispatchId + 1 })

def Database.updateDispatch (db : Database) (id : ℕ) (patch : DispatchPatch) : Database :=
  { db with dispatches := db.dispatches.mapValues fun row ↦ if row.1 = id then
      (row.1, { row.2 with
        dispatchedAt := some patch.dispatchedAt
        dispatchStatus := patch.dispatchStatus
        reason := patch.reason
        responseStatus := patch.responseStatus
        responsePreview := patch.responsePreview }) else row }

def Database.finishRun (db : Database) (id : ℕ) (patch : RunPatch) : Database :=
  { db with runs := db.runs.mapValues fun row ↦ if row.1 = id then
      (row.1, { row.2 with
        status := patch.status
        finishedAt := some patch.finishedAt
        previousRunStartedAt := patch.previousRunStartedAt
        evaluationWindowStart := patch.evaluationWindowStart
        evaluationWindowEnd := patch.evaluationWindowEnd
        summary := patch.summary
        errorMessage := patch.errorMessage }) else row }

/-- The answer of a call that succeeds, with its effect on the database. The jobs table may be edited
at any time and the target may answer anything; the database and the clock do as they are asked. -/
def Succeeds (db : Database) : (c : Call) → c.Answer → Database → Prop
  | .insertRun key row, answer, db' => db.insertRun key row = (answer, db')
  | .selectRun key, answer, db' => answer = db.runs.get? key ∧ db' = db
  | .listEnabledJobs, _, db' => db' = db
  | .insertDispatch key row, answer, db' => db.insertDispatch key row = (answer, db')
  | .updateDispatch id patch, _, db' => db' = db.updateDispatch id patch
  | .finishRun id patch, _, db' => db' = db.finishRun id patch
  | .now, _, db' => db' = db
  | .dispatchTarget _ _, _, db' => db' = db

/-- A call may also fail, before its effect or after it; reading the clock does not fail. -/
def Answers (db : Database) (c : Call) : Except String c.Answer → Database → Prop
  | .ok answer, db' => Succeeds db c answer db'
  | .error _, db' => c ≠ .now ∧ (db' = db ∨ ∃ answer, Succeeds db c answer db')

end UkAqOps.Scheduler

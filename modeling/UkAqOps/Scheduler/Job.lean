import UkAqOps.Scheduler.Cron

/-!
# Scheduler jobs

A row of `scheduler_jobs`, and the job that the scheduler reads from it. A row whose flags, target
or cron expression cannot be read is rejected with the reason; a row that is read keeps only the
fields of its own target.
-/

namespace UkAqOps.Scheduler

/-- `String(value ?? "").trim()`. -/
def textOf : JsValue → String
  | .undefined => ""
  | .null => ""
  | v => trimText v.text

/-- The text, unless it is blank or longer than `maxLength`. -/
def boundedText (value : JsValue) (maxLength : ℕ) : String :=
  let text := textOf value
  if utf16Length text ≤ maxLength then text else ""

/-- The columns that `listEnabledJobs` selects. -/
structure JobRow where
  jobKey : JsValue
  enabled : JsValue
  targetType : JsValue
  cronExpr : JsValue
  timezone : JsValue
  githubRepo : JsValue := .null
  githubWorkflowFile : JsValue := .null
  githubRef : JsValue := .null
  githubInputsJson : JsValue := .null
  cloudRunUrl : JsValue := .null
  cloudRunMethod : JsValue := .null
  cloudRunHeadersJson : JsValue := .null
  cloudRunBodyJson : JsValue := .null
  workerHttpUrl : JsValue := .null
  workerHttpSecretBinding : JsValue := .null
  workerHttpBodyJson : JsValue := .null
  dryRun : JsValue
  notes : JsValue := .null

/-- Where a job is dispatched to. -/
inductive Target where
  | githubWorkflow (repo workflowFile ref : String) (inputs : JsValue)
  | cloudRun (url method : String) (headers body : JsValue)
  | workerHttp (url secretBinding : String) (body : JsValue)

/-- `target_type`. -/
def Target.type : Target → String
  | .githubWorkflow .. => "github_workflow"
  | .cloudRun .. => "cloud_run"
  | .workerHttp .. => "worker_http"

structure Job where
  jobKey : String
  enabled : ℤ
  cronExpr : String
  timezone : String
  dryRun : ℤ
  notes : Option String
  target : Target

def parseInteger (host : Host) (value : JsValue) (fieldName : String) : Except String ℤ :=
  match host.integerOf (textOf value) with
  | some parsed => .ok parsed
  | none => .error s!"Invalid {fieldName}: expected an integer"

def parseBinaryFlag (host : Host) (value : JsValue) (fieldName : String) : Except String ℤ := do
  let parsed ← parseInteger host value fieldName
  if parsed ≠ 0 ∧ parsed ≠ 1 then .error s!"Invalid {fieldName}: expected 0 or 1" else
  pure parsed

/-- `parseJsonValue` with `allowEmptyObject`, as both of its callers use it. -/
def parseJsonValue (host : Host) (value : JsValue) (fieldName : String) : Except String JsValue :=
  let raw := textOf value
  if raw = "" then .ok (.obj [])
  else match host.parseJson raw with
    | .ok parsed => .ok parsed
    | .error message => .error s!"Invalid JSON in {fieldName}: {message}"

def parseJsonObject (host : Host) (value : JsValue) (fieldName : String) :
    Except String JsValue := do
  let parsed ← parseJsonValue host value fieldName
  match parsed with
  | .obj fields => pure (.obj fields)
  | _ => .error s!"Invalid JSON in {fieldName}: expected a JSON object"

def parseJsonBody (host : Host) (value : JsValue) (fieldName : String) :
    Except String JsValue := do
  let parsed ← parseJsonValue host value fieldName
  match parsed with
  | .null => pure (.obj [])
  | body => pure body

def normalizeTimezone (value : JsValue) : Except String String :=
  let normalized := textOf value
  if normalized = "" then .ok "UTC"
  else if normalized = "UTC" ∨ normalized = "Etc/UTC" then .ok normalized
  else .error s!"Unsupported timezone {jsonQuote normalized}; expected UTC"

def normalizeWorkerHttpUrl (host : Host) (value : JsValue) (jobKey : String) :
    Except String String :=
  let normalized := textOf value
  let invalid := s!"Invalid scheduler job {jobKey}: worker_http_url must be an absolute HTTPS URL"
  match host.parseUrl normalized with
  | none => .error invalid
  | some (protocol, hostname) =>
    if protocol ≠ "https:" ∨ hostname = "" then .error invalid else .ok normalized

/-- `/^UK_AQ_[A-Z0-9_]*WORKER_HTTP_SECRET$/`: the two ends do not overlap. -/
def isWorkerHttpSecretBinding (binding : String) : Bool :=
  startsWithText binding "UK_AQ_" && endsWithText binding "WORKER_HTTP_SECRET" &&
    decide ("UK_AQ_WORKER_HTTP_SECRET".toList.length ≤ binding.toList.length) &&
    binding.toList.all fun c ↦ c.isUpper || c.isDigit || c = '_'

def normalizeWorkerHttpSecretBinding (value : JsValue) (jobKey : String) : Except String String :=
  let binding := textOf value
  if isWorkerHttpSecretBinding binding then .ok binding
  else .error (s!"Invalid scheduler job {jobKey}: worker_http_secret_binding must match " ++
    "/^UK_AQ_[A-Z0-9_]*WORKER_HTTP_SECRET$/")

/-- The fields of the target that the row names. -/
def parseTarget (host : Host) (row : JobRow) (jobKey targetType : String) :
    Except String Target := do
  if targetType = "github_workflow" then
    let repo := textOf row.githubRepo
    let workflowFile := textOf row.githubWorkflowFile
    let ref := if textOf row.githubRef = "" then "main" else textOf row.githubRef
    if repo = "" ∨ workflowFile = "" then
      .error (s!"Invalid scheduler job {jobKey}: github_workflow requires github_repo, " ++
        "github_workflow_file, and github_ref") else
    let inputs ← parseJsonObject host row.githubInputsJson
      s!"scheduler_jobs.github_inputs_json for {jobKey}"
    pure (.githubWorkflow repo workflowFile ref inputs)
  else if targetType = "cloud_run" then
    let url := textOf row.cloudRunUrl
    if url = "" then .error s!"Invalid scheduler job {jobKey}: cloud_run requires cloud_run_url" else
    let method := if textOf row.cloudRunMethod = "" then "POST" else textOf row.cloudRunMethod
    let headers ← parseJsonObject host row.cloudRunHeadersJson
      s!"scheduler_jobs.cloud_run_headers_json for {jobKey}"
    let body ← parseJsonBody host row.cloudRunBodyJson
      s!"scheduler_jobs.cloud_run_body_json for {jobKey}"
    pure (.cloudRun url method headers body)
  else
    let url ← normalizeWorkerHttpUrl host row.workerHttpUrl jobKey
    let binding ← normalizeWorkerHttpSecretBinding row.workerHttpSecretBinding jobKey
    let body ← parseJsonObject host row.workerHttpBodyJson
      s!"scheduler_jobs.worker_http_body_json for {jobKey}"
    pure (.workerHttp url binding body)

def parseSchedulerJobRow (host : Host) (row : JobRow) : Except String Job := do
  let jobKey := textOf row.jobKey
  if jobKey = "" then .error "Invalid scheduler job: missing job_key" else
  let enabled ← parseBinaryFlag host row.enabled s!"scheduler_jobs.enabled for {jobKey}"
  let targetType := textOf row.targetType
  if targetType ≠ "github_workflow" ∧ targetType ≠ "cloud_run" ∧ targetType ≠ "worker_http" then
    .error s!"Invalid scheduler job {jobKey}: unsupported target_type {jsonQuote targetType}" else
  let cronExpr := textOf row.cronExpr
  if cronExpr = "" then .error s!"Invalid scheduler job {jobKey}: missing cron_expr" else
  let timezone ← normalizeTimezone row.timezone
  let dryRun ← parseBinaryFlag host row.dryRun s!"scheduler_jobs.dry_run for {jobKey}"
  let notes := if textOf row.notes = "" then none else some (textOf row.notes)
  let target ← parseTarget host row jobKey targetType
  pure ⟨jobKey, enabled, cronExpr, timezone, dryRun, notes, target⟩

/-- The minutes of the window for which the job is due. -/
def dueSlotsForJob (host : Host) (job : Job) (windowStartMs windowEndMs : ℤ) :
    Except String (List IsoTime) :=
  cronDueTimes host job.cronExpr (windowStartMs + dispatchLeadMs) (windowEndMs + dispatchLeadMs)

/-- The job's cron expression can be read and matches the minute. -/
def CronMatches (host : Host) (job : Job) (ms : ℤ) : Prop :=
  ∃ cron, parseCronExpression host job.cronExpr = .ok cron ∧ cronMatchesDate cron ms = true

/-- Over the window of a slot, a job is due at the slot or not at all. -/
theorem mem_dueSlotsForJob {host : Host} {job : Job} {nowMs : ℤ} {slot : IsoTime}
    (hslot : canonicalMinuteSlot nowMs = .ok slot) {times : List IsoTime}
    (h : dueSlotsForJob host job (slot.ms - minuteMs) slot.ms = .ok times) :
    (times = [slot] ∧ CronMatches host job slot.ms) ∨
      (times = [] ∧ ¬CronMatches host job slot.ms) := by
  rw [dueSlotsForJob, cronDueTimes_slot host job.cronExpr hslot, Except.map_eq_ok_iff] at h
  obtain ⟨cron, hcron, rfl⟩ := h
  by_cases hmatch : cronMatchesDate cron slot.ms
  · rw [if_pos hmatch]
    exact Or.inl ⟨rfl, cron, hcron, hmatch⟩
  · rw [if_neg hmatch]
    refine Or.inr ⟨rfl, ?_⟩
    rintro ⟨cron', hcron', hmatch'⟩
    rw [hcron, Except.ok.injEq] at hcron'
    rw [← hcron'] at hmatch'
    exact hmatch hmatch'

/-- If the due minutes cannot be computed, the cron expression cannot be read. -/
theorem not_cronMatches_of_error {host : Host} {job : Job} {nowMs : ℤ} {slot : IsoTime}
    (hslot : canonicalMinuteSlot nowMs = .ok slot) {message : String}
    (h : dueSlotsForJob host job (slot.ms - minuteMs) slot.ms = .error message) :
    ¬CronMatches host job slot.ms := by
  rw [dueSlotsForJob, cronDueTimes_slot host job.cronExpr hslot] at h
  rintro ⟨cron, hcron, -⟩
  rw [hcron] at h
  cases h

end UkAqOps.Scheduler

import UkAqOps.Maintenance.Answers

/-!
# A run of the partition maintenance

`runObservsPartitionMaintenance`: partitions are made and indexed, the default partition is looked
at, and then every partition beyond the retention is dropped whose day is confirmed in the history
or has no rows.

`RunInputs` lists the answers that a run can receive: those of the calls before the candidate loop,
and for each candidate, by its position, those of the calls that its turn can make. A run is then a
function of its inputs, and it records what each turn exchanged. The preview lists and the counts of
the returned summary are left out.
-/

namespace UkAqOps.Maintenance

/-! ## What a run is given -/

structure Config where
  dropDryRun : Bool
  r2 : R2Config

/-- What the turn of one candidate meets: the answers of its calls, those of repeated calls by their
attempt, and the number of rows its partition holds, which the code never sees. -/
structure Circumstances where
  partitionRows : ℕ
  head : HttpOutcome
  get : HttpOutcome
  dayHasRows : RpcOutcome
  fingerprint : RpcOutcome
  drop : ℕ → RpcOutcome
  dayCountDelete : ℕ → RpcOutcome
  upload : Except String Bool

structure RunInputs where
  ensure : ℕ → RpcOutcome
  enforce : ℕ → RpcOutcome
  diagnostics : RpcOutcome
  dropCandidates : RpcOutcome
  meets : ℕ → Circumstances

/-! ## The turn of a candidate -/

structure DropCandidate where
  partitionName : String
  partitionDayUtc : String
  partitionStartUtc : String
  partitionEndUtc : String

/-- A row that is `null` is thrown on. -/
def normalizeDropCandidate (row : JsValue) : Except String DropCandidate := do
  return {
    partitionName := trimText (← row.property "partition_name").orBlank
    partitionDayUtc := takeText (← row.property "partition_day_utc").orBlank 10
    partitionStartUtc := (← row.property "partition_start_utc").orBlank
    partitionEndUtc := (← row.property "partition_end_utc").orBlank }

/-- What a turn comes to. A partition that was dropped carries the method of its check, the rows of
its day count that were deleted, and the error of that deletion. -/
inductive Handling where
  | ignored
  | dropped (historyManifestMethod : String) (dayCountDeletedRows : ℚ)
      (dayCountDeleteError : Option String)
  | skipped (reason : String)

/-- A candidate that was looked at, the calls of its turn, and what it came to. -/
structure CandidateRecord where
  candidate : DropCandidate
  exchanges : List Exchange
  outcome : Except String Handling

/-- The drop call with its attempts. -/
def dropPartition (host : Host) (m : Circumstances) (partitionName errorLabel : String) :
    Except String JsValue × List Exchange :=
  let attempts := callRpcWithRetry host m.drop errorLabel defaultRpcRetryAttempts 0
  (attempts.1, (List.range attempts.2).map fun k ↦ .dropPartition partitionName (m.drop k))

/-- `Boolean(rows?.[0]?.dropped)`. -/
def didDrop (rows : JsValue) : Bool := ((firstRow rows).optional "dropped").truthy

/-- A failure is returned, never thrown. -/
def deleteCurrentDayCountRow (host : Host) (m : Circumstances) (dataset dayUtc : String) :
    (ℚ × Option String) × List Exchange :=
  let attempts := callRpcWithRetry host m.dayCountDelete
    ("delete " ++ dataset ++ " day-count row " ++ dayUtc) defaultRpcRetryAttempts 0
  let exchanges := (List.range attempts.2).map fun k ↦
    .dayCountDelete dataset dayUtc (m.dayCountDelete k)
  match attempts.1 with
  | .ok rows =>
    let deletedRows := (numberOrZero host ((firstRow rows).optional "deleted_rows")).getD 0
    ((max 0 deletedRows, none), exchanges)
  | .error message => ((0, some message), exchanges)

/-- After a drop that was applied: the day count goes as well. -/
def recordDrop (host : Host) (m : Circumstances) (candidate : DropCandidate) (method : String)
    (exchanges : List Exchange) : CandidateRecord :=
  let dayCountDelete := deleteCurrentDayCountRow host m "observs" candidate.partitionDayUtc
  ⟨candidate, exchanges ++ dayCountDelete.2,
    .ok (.dropped method dayCountDelete.1.1 dayCountDelete.1.2)⟩

/-- The drop is skipped, and that is written to the log; a failure of the upload is caught. -/
def skipDrop (m : Circumstances) (candidate : DropCandidate) (exchanges : List Exchange) :
    CandidateRecord :=
  ⟨candidate, exchanges ++ [.uploadLog "observs_partition_skip_drop" m.upload],
    .ok (.skipped "history_manifest_not_confirmed")⟩

/-- The label of the drop call on the strength of a manifest. -/
def confirmedLabel (candidate : DropCandidate) : String :=
  "drop observs partition " ++ candidate.partitionName

/-- The label of the drop call on the strength of the has-rows check. -/
def emptyLabel (candidate : DropCandidate) : String :=
  "drop empty observs partition " ++ candidate.partitionName

/-- One turn of the candidate loop. -/
def handleCandidate (host : Host) (config : Config) (m : Circumstances)
    (candidate : DropCandidate) : CandidateRecord :=
  if candidate.partitionName = "" ∨ candidate.partitionDayUtc = "" then
    ⟨candidate, [], .ok .ignored⟩
  else if config.dropDryRun then ⟨candidate, [], .ok (.skipped "drop_dry_run")⟩
  else
    match historyManifestExists host config.r2 m.head m.get candidate.partitionDayUtc with
    | (.ok _, exchanges) =>
      match dropPartition host m candidate.partitionName (confirmedLabel candidate) with
      | (.error message, drops) => ⟨candidate, exchanges ++ drops, .error message⟩
      | (.ok rows, drops) =>
        if didDrop rows then
          recordDrop host m candidate "head_get_validate_manifest_hash" (exchanges ++ drops)
        else ⟨candidate, exchanges ++ drops, .ok (.skipped "drop_rpc_returned_false")⟩
    | (.error _, exchanges) =>
      match checkDayHasRows host m.dayHasRows m.fingerprint candidate.partitionDayUtc with
      | (.error message, checks) => ⟨candidate, exchanges ++ checks, .error message⟩
      | (.ok (.checked false _), checks) =>
        match dropPartition host m candidate.partitionName (emptyLabel candidate) with
        | (.error message, drops) => ⟨candidate, exchanges ++ checks ++ drops, .error message⟩
        | (.ok rows, drops) =>
          if didDrop rows then
            recordDrop host m candidate "no_manifest_day_has_rows_false"
              (exchanges ++ checks ++ drops)
          else skipDrop m candidate (exchanges ++ checks ++ drops)
      | (.ok _, checks) => skipDrop m candidate (exchanges ++ checks)

/-! ## The run -/

/-- The candidate loop from a position on: an error that a turn throws ends it. -/
def candidateLoop (host : Host) (config : Config) (meets : ℕ → Circumstances) :
    (position : ℕ) → List DropCandidate → List CandidateRecord × Except String Unit
  | _, [] => ([], .ok ())
  | position, candidate :: candidates =>
    let record := handleCandidate host config (meets position) candidate
    match record.outcome with
    | .error message => ([record], .error message)
    | .ok _ =>
      let rest := candidateLoop host config meets (position + 1) candidates
      (record :: rest.1, rest.2)

/-- What is known before the candidate loop. -/
structure Prepared where
  ensured : JsValue
  enforceResults : JsValue
  defaultRowCount : ℚ
  dropCandidates : List DropCandidate

/-- The calls before the candidate loop; the alert about the default partition never throws. -/
def prepare (host : Host) (inputs : RunInputs) : Except String Prepared := do
  let ensured ← (callRpcWithRetry host inputs.ensure "observs ensure daily partitions"
    defaultRpcRetryAttempts 0).1
  let enforceResults ← (callRpcWithRetry host inputs.enforce "observs enforce hot/cold indexes"
    defaultRpcRetryAttempts 0).1
  let diagnosticsRows ← callRpc inputs.diagnostics "observs default partition diagnostics"
  let defaultRowCount :=
    (numberOrZero host ((firstRow diagnosticsRows).optional "default_row_count")).getD 0
  let dropCandidates ←
    match ← callRpc inputs.dropCandidates "observs drop candidates" with
    | .arr rows => rows.mapM normalizeDropCandidate
    | _ => .error "(intermediate value).map is not a function"
  return { ensured, enforceResults, defaultRowCount, dropCandidates }

/-- The candidates a run set out to handle, the turns it took, and how it ended. -/
structure MaintenanceRun where
  dropCandidates : List DropCandidate
  records : List CandidateRecord
  result : Except String Unit

/-- The summary counts the partitions that were made and indexed, so these have to be arrays. -/
def summarize (prepared : Prepared) : Except String Unit :=
  match prepared.ensured, prepared.enforceResults with
  | .arr _, .arr _ => .ok ()
  | _, _ => .error "results.filter is not a function"

def runObservsPartitionMaintenance (host : Host) (config : Config) (inputs : RunInputs) :
    MaintenanceRun :=
  match prepare host inputs with
  | .error message => ⟨[], [], .error message⟩
  | .ok prepared =>
    match candidateLoop host config inputs.meets 0 prepared.dropCandidates with
    | (records, .error message) => ⟨prepared.dropCandidates, records, .error message⟩
    | (records, .ok ()) => ⟨prepared.dropCandidates, records, summarize prepared⟩

end UkAqOps.Maintenance

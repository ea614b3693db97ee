import UkAqOps.Js.Date
import UkAqOps.Js.Value
import UkAqOps.Lib.OrderedMap

/-!
# The observations outbox flush

`workers/uk_aq_observs_outbox_flush_service/server.mjs`: claim a batch of outbox entries, write
their payload rows to the observations database, write receipts, and resolve the entries.

Every remote call is answered from outside. `FlushInputs` lists the answers: the claim, receipt
and resolve answer of each batch, and the answer of each upsert call within a batch. A run is then
a function of its inputs, and it records what it submitted (`BatchRecord`) next to what it
returned. Waiting between attempts has no effect on either and is left out.
-/

namespace UkAqOps.Outbox

/-! ## What the run is given -/

/-- The built-in functions whose result on arbitrary text is the host's. -/
structure Host where
  /-- `Date.parse(text)`, with `none` for `NaN`. -/
  dateParse : String → Option ℤ
  /-- `text.toLowerCase()`. -/
  toLowerCase : String → String

/-- What an RPC promise gives back: data, an error object, or a rejection. -/
inductive RpcOutcome (α : Type) where
  | data (value : α)
  | error (message : String)
  | rejected (message : String)

/-- The row count an RPC result carries, as `toIntField` sees it: absent, a finite non-negative
number (kept as its integer part), or anything else. -/
inductive Reported where
  | absent
  | count (n : ℕ)
  | malformed (text : String)

/-- A claimed outbox entry. -/
structure Entry where
  id : JsValue
  payload : JsValue

/-- The answers a run receives. Batches and upsert calls are counted from `0`. -/
structure FlushInputs where
  claim : (batchLimit batch : ℕ) → RpcOutcome (List Entry)
  upsert : (batch call : ℕ) → RpcOutcome Reported
  receipts : (batch : ℕ) → RpcOutcome Reported
  resolve : (batch : ℕ) → RpcOutcome Reported

/-! ## Rows -/

/-- The value column of a row: a decoded `float8` bit pattern, or the JSON value as it came. -/
inductive RowValue where
  | float8 (bits : ℕ)
  | json (value : JsValue)

structure ObservsRow where
  connectorId : String
  timeseriesId : String
  observedAt : String
  value : RowValue
  status : JsValue

structure ReceiptRow where
  connectorId : String
  timeseriesId : String
  observedDay : String

def toIso (host : Host) (value : JsValue) (fieldName : String) : Except String String :=
  match host.dateParse value.text with
  | none => .error ("Invalid timestamp for " ++ fieldName ++ ": " ++ value.text)
  | some ms => .ok (toISOString ms)

/-- `value === null || value === undefined || value === ""`. -/
def isMissing : JsValue → Bool
  | .undefined => true
  | .null => true
  | .str s => s = ""
  | _ => false

def toBigIntString (value : JsValue) (fieldName : String) : Except String String :=
  if isMissing value then .error ("Missing bigint for " ++ fieldName)
  else match parseBigInt value.text with
    | none => .error ("Invalid bigint for " ++ fieldName ++ ": " ++ value.text)
    | some n => .ok (toString n)

/-- The bits of a big-endian `float8` written as sixteen hex digits, when they denote a finite
number: all exponent bits set is an infinity or a `NaN`. -/
def parseFloat8Hex (host : Host) (value : JsValue) : Option ℕ :=
  match value with
  | .undefined => none
  | .null => none
  | v =>
    let hex := (host.toLowerCase (trimText v.text)).toList
    if hex.length = 16 ∧ hex.all (fun c ↦ c.isDigit || ('a' ≤ c && c ≤ 'f')) then
      (parseDigits 16 hex).filter fun bits ↦ bits / 2 ^ 52 % 2 ^ 11 ≠ 2 ^ 11 - 1
    else none

def toObservedDay (observedAtIso : String) : String := takeText observedAtIso 10

/-- One turn of the loop of `normalizeObservsRows`. -/
def normalizeObservsRow (host : Host) (row : JsValue) : Except String ObservsRow := do
  let connectorId ← toBigIntString (← row.property "connector_id") "observs_row.connector_id"
  let timeseriesId ← toBigIntString (← row.property "timeseries_id") "observs_row.timeseries_id"
  let observedAt ← toIso host (← row.property "observed_at") "observs_row.observed_at"
  let valueFromHex := parseFloat8Hex host (← row.property "value_float8_hex")
  let rawValue ← row.property "value"
  let rawStatus ← row.property "status"
  let orNull : JsValue → JsValue
    | .undefined => .null
    | v => v
  return {
    connectorId, timeseriesId, observedAt
    value := match valueFromHex with
      | some bits => .float8 bits
      | none => .json (orNull rawValue)
    status := orNull rawStatus }

def ObservsRow.key (row : ObservsRow) : String :=
  row.connectorId ++ "|" ++ row.timeseriesId ++ "|" ++ row.observedAt

/-- Normalise every row, then keep the last row of each key in the place of the first. -/
def normalizeObservsRows (host : Host) (inputRows : List JsValue) :
    Except String (List ObservsRow) := do
  let rows ← inputRows.mapM (normalizeObservsRow host)
  return (OrderedMap.ofList (rows.map fun row ↦ (row.key, row))).values

def buildReceiptRows (observsRows : List ObservsRow) : List ReceiptRow :=
  (OrderedMap.ofList (observsRows.map fun row ↦
    (row.connectorId ++ "|" ++ row.timeseriesId ++ "|" ++ toObservedDay row.observedAt,
      (⟨row.connectorId, row.timeseriesId, toObservedDay row.observedAt⟩ : ReceiptRow)))).values

/-! ## The upsert with its retries and splits -/

def observsUpsertRpcRetries : ℕ := 3
def observsUpsertTimeoutSplitMinRows : ℕ := 32
def observsUpsertTimeoutSplitMaxDepth : ℕ := 4

/-- An upsert call that was made, and whether it was accepted. -/
structure UpsertCall where
  rows : List ObservsRow
  accepted : Bool

def toIntField (reported : Reported) (fallback : ℕ) (fieldName : String) : Except String ℕ :=
  match reported with
  | .absent => .ok fallback
  | .count n => .ok n
  | .malformed text => .error ("Invalid integer for " ++ fieldName ++ ": " ++ text)

def observsUpsertErrorMessage (message : String) : String :=
  if message.length > 400 then takeText message 397 ++ "..." else message

def isObservsStatementTimeoutError (host : Host) (message : String) : Bool :=
  let text := host.toLowerCase message
  includesText text "statement timeout" ||
    includesText text "canceling statement due to statement timeout"

def isRetryableObservsUpsertError (host : Host) (message : String) : Bool :=
  let normalized := host.toLowerCase message
  isObservsStatementTimeoutError host normalized ||
    ["deadlock detected", "could not serialize access due to", "connection terminated",
      "connection reset", "http 429", "http 500", "http 502", "http 503",
      "http 504"].any (includesText normalized)

def upsertObservsRowsChunk (outcome : RpcOutcome Reported) (rows : List ObservsRow) :
    Except String ℕ :=
  match outcome with
  | .rejected message => .error message
  | .error message =>
    .error (if message = "" then "unknown_observs_upsert_error" else message)
  | .data reported => toIntField reported rows.length "observations_upserted"

/-- The attempt loop: a retryable failure is tried again while attempts are left. -/
def upsertAttempts (host : Host) (outcome : ℕ → RpcOutcome Reported) (rows : List ObservsRow) :
    (attemptsLeft : ℕ) → List UpsertCall → Except String ℕ × List UpsertCall
  | 0, calls => (.error "unknown_observs_upsert_error", calls)
  | left + 1, calls =>
    match upsertObservsRowsChunk (outcome calls.length) rows with
    | .ok n => (.ok n, calls ++ [⟨rows, true⟩])
    | .error raw =>
      let message := observsUpsertErrorMessage raw
      if left ≠ 0 ∧ isRetryableObservsUpsertError host message then
        upsertAttempts host outcome rows left (calls ++ [⟨rows, false⟩])
      else (.error message, calls ++ [⟨rows, false⟩])

/-- `depthLeft` counts down from the maximal split depth, so the source's `splitDepth` is
`observsUpsertTimeoutSplitMaxDepth - depthLeft`. -/
def upsertObservsRowsWithFallback (host : Host) (outcome : ℕ → RpcOutcome Reported) :
    (depthLeft : ℕ) → List ObservsRow → List UpsertCall → Except String ℕ × List UpsertCall
  | depthLeft, rows, calls =>
    match upsertAttempts host outcome rows observsUpsertRpcRetries calls with
    | (.ok n, calls) => (.ok n, calls)
    | (.error lastMessage, calls) =>
      match depthLeft with
      | 0 => (.error ("observs upsert failed: " ++ lastMessage), calls)
      | depthLeft + 1 =>
        if isObservsStatementTimeoutError host lastMessage ∧
            observsUpsertTimeoutSplitMinRows * 2 ≤ rows.length then
          let midpoint := rows.length / 2
          let leftRows := rows.take midpoint
          let rightRows := rows.drop midpoint
          if leftRows = [] ∨ rightRows = [] then
            (.error ("observs upsert failed: " ++ lastMessage), calls)
          else
            match upsertObservsRowsWithFallback host outcome depthLeft leftRows calls with
            | (.error message, calls) => (.error message, calls)
            | (.ok leftUpserted, calls) =>
              match upsertObservsRowsWithFallback host outcome depthLeft rightRows calls with
              | (.error message, calls) => (.error message, calls)
              | (.ok rightUpserted, calls) => (.ok (leftUpserted + rightUpserted), calls)
        else (.error ("observs upsert failed: " ++ lastMessage), calls)

/-! ## One batch -/

structure Resolution where
  id : JsValue
  ok : Bool
  error : Option String

/-- What a batch submitted. `resolutions` is `none` when the resolve RPC was never called. -/
structure BatchRecord where
  entries : List Entry
  upserts : List UpsertCall
  receipts : Option (List ReceiptRow × RpcOutcome Reported)
  resolutions : Option (List Resolution)

structure FlushSummary where
  batchesRun : ℕ := 0
  claimedEntries : ℕ := 0
  deliveredRows : ℕ := 0
  failedEntries : ℕ := 0
  receiptsUpserted : ℕ := 0
  rowsResolved : ℕ := 0
  drained : Bool := false

/-- `Array.isArray(entry.payload) ? entry.payload : []`. -/
def Entry.payloadRows (entry : Entry) : List JsValue :=
  match entry.payload with
  | .arr items => items
  | _ => []

/-- The rows of a batch, in claim order. -/
def batchRows (entries : List Entry) : List JsValue := entries.flatMap Entry.payloadRows

/-- What the `try` block of a batch leaves behind: its calls, the counts it added, and the message
it threw. -/
structure Delivery where
  upserts : List UpsertCall
  receipts : Option (List ReceiptRow × RpcOutcome Reported)
  deliveredRows : ℕ
  receiptsUpserted : ℕ
  failure : Option String

/-- The `try` block: upsert the rows, then write their receipts. -/
def deliver (host : Host) (upsert : ℕ → RpcOutcome Reported) (receipts : RpcOutcome Reported)
    (observsRows : List ObservsRow) : Delivery :=
  match upsertObservsRowsWithFallback host upsert observsUpsertTimeoutSplitMaxDepth observsRows []
    with
  | (.error message, calls) => ⟨calls, none, 0, 0, some message⟩
  | (.ok upserted, calls) =>
    let receiptRows := buildReceiptRows observsRows
    if receiptRows = [] then ⟨calls, none, upserted, 0, none⟩
    else match receipts with
      | .rejected message => ⟨calls, some (receiptRows, receipts), upserted, 0, some message⟩
      | .error message =>
        ⟨calls, some (receiptRows, receipts), upserted, 0,
          some ("observs receipts upsert failed: " ++ message)⟩
      | .data reported =>
        match toIntField reported receiptRows.length "rows_upserted" with
        | .error message => ⟨calls, some (receiptRows, receipts), upserted, 0, some message⟩
        | .ok n => ⟨calls, some (receiptRows, receipts), upserted, n, none⟩

/-- The resolutions of a batch: all entries share the verdict of its delivery. -/
def resolutionsFor (entries : List Entry) (failure : Option String) : List Resolution :=
  entries.map fun entry ↦ ⟨entry.id, failure.isNone, failure⟩

/-- Submit the resolutions and read the count back. -/
def resolveBatch (outcome : RpcOutcome Reported) (resolutions : List Resolution) :
    Except String ℕ :=
  match outcome with
  | .rejected message => .error message
  | .error message => .error ("outbox resolve RPC failed: " ++ message)
  | .data reported => toIntField reported resolutions.length "rows_resolved"

/-- The body of the batch loop after a claim that gave `entries`. -/
def flushBatch (host : Host) (inputs : FlushInputs) (batch : ℕ) (entries : List Entry)
    (summary : FlushSummary) : BatchRecord × Except String FlushSummary :=
  let summary := { summary with
    batchesRun := batch + 1
    claimedEntries := summary.claimedEntries + entries.length }
  -- the rows are normalised before the `try` block is entered
  match normalizeObservsRows host (batchRows entries) with
  | .error message => (⟨entries, [], none, none⟩, .error message)
  | .ok observsRows =>
    let delivery : Delivery :=
      if observsRows = [] then ⟨[], none, 0, 0, none⟩
      else deliver host (inputs.upsert batch) (inputs.receipts batch) observsRows
    let summary := { summary with
      deliveredRows := summary.deliveredRows + delivery.deliveredRows
      receiptsUpserted := summary.receiptsUpserted + delivery.receiptsUpserted
      failedEntries := summary.failedEntries +
        (if delivery.failure.isSome then entries.length else 0) }
    let resolutions := resolutionsFor entries delivery.failure
    let record : BatchRecord :=
      ⟨entries, delivery.upserts, delivery.receipts, some resolutions⟩
    match resolveBatch (inputs.resolve batch) resolutions with
    | .error message => (record, .error message)
    | .ok n => (record, .ok { summary with rowsResolved := summary.rowsResolved + n })

/-! ## The run -/

/-- The batches a run worked on, in order, and what it returned. -/
structure FlushRun where
  batches : List BatchRecord
  result : Except String FlushSummary

/-- The batch loop, with `left` batches allowed and `batch` batches behind it. -/
def flushLoop (host : Host) (inputs : FlushInputs) (claimBatchLimit : ℕ) :
    (left batch : ℕ) → FlushSummary → FlushRun
  | 0, _, summary => ⟨[], .ok summary⟩
  | left + 1, batch, summary =>
    match inputs.claim claimBatchLimit batch with
    | .rejected message => ⟨[], .error message⟩
    | .error message => ⟨[], .error ("outbox claim RPC failed: " ++ message)⟩
    | .data [] => ⟨[], .ok { summary with drained := true }⟩
    | .data (entry :: entries) =>
      match flushBatch host inputs batch (entry :: entries) summary with
      | (record, .error message) => ⟨[record], .error message⟩
      | (record, .ok summary) =>
        let rest := flushLoop host inputs claimBatchLimit left (batch + 1) summary
        ⟨record :: rest.batches, rest.result⟩

def flushObservsOutbox (host : Host) (inputs : FlushInputs)
    (claimBatchLimit maxFlushBatches : ℕ) : FlushRun :=
  flushLoop host inputs claimBatchLimit maxFlushBatches 0 {}

/-- The alert of the returned summary: some entry failed, or the outbox was not drained. -/
def FlushSummary.alertCondition (summary : FlushSummary) : Bool :=
  decide (summary.failedEntries > 0) || !summary.drained

end UkAqOps.Outbox

import Mathlib.Data.Rat.Defs
import UkAqOps.Js.Date
import UkAqOps.Js.Stringify

/-!
# What the partition maintenance reads into its answers

`workers/uk_aq_observs_partition_maintenance_service/server.mjs`: the RPC calls with their retries,
the check of a day's history manifest, and the reading of the has-rows answer. Each of these parsers
has a default for what it does not recognise.

Waiting between attempts and the log lines are left out.
-/

namespace UkAqOps.Maintenance

/-- The built-in functions whose result on arbitrary text is the host's. -/
structure Host where
  sha256Hex : String → String
  toLowerCase : String → String
  parseJson : String → Option JsValue
  /-- `Number(value)`, with `none` where it is not finite. -/
  number : JsValue → Option ℚ

/-- What an RPC promise gives back: data, an error object, or a rejection. -/
inductive RpcOutcome where
  | data (value : JsValue)
  | error (message : String)
  | rejected (message : String)

/-- What a `fetch` gives back; `body` is `none` when reading it fails. -/
inductive HttpOutcome where
  | rejected (message : String)
  | response (status : ℕ) (body : Option String)

/-- A remote call that was made, with its answer. -/
inductive Exchange where
  | headManifest (key : String) (answer : HttpOutcome)
  | getManifest (key : String) (answer : HttpOutcome)
  | dayHasRows (dayUtc : String) (answer : RpcOutcome)
  | hourlyFingerprint (windowStart windowEnd : String) (answer : RpcOutcome)
  | dropPartition (partitionName : String) (answer : RpcOutcome)
  | dayCountDelete (dataset dayUtc : String) (answer : RpcOutcome)
  | uploadLog (eventType : String) (answer : Except String Bool)

/-! ## Numbers and dates -/

/-- `Math.trunc(value)`. -/
def truncate (value : ℚ) : ℤ := value.num.tdiv value.den

/-- `Number(value ?? 0)`. -/
def numberOrZero (host : Host) : JsValue → Option ℚ
  | .undefined => some 0
  | .null => some 0
  | v => host.number v

/-- `Number.isFinite(count) ? Math.max(0, Math.trunc(count)) : 0`, of a field of a manifest. -/
def countField (host : Host) (value : JsValue) : ℤ :=
  match numberOrZero host value with
  | some count => max 0 (truncate count)
  | none => 0

/-- The largest time value a `Date` can hold. -/
def maxDateMs : ℤ := 8640000000000000

/-- The day number of `Date.UTC(year, month - 1, day)`, when that is a time value. -/
def utcDay (year month day : ℚ) : Option ℤ :=
  let year := if 0 ≤ truncate year ∧ truncate year ≤ 99 then 1900 + truncate year
    else truncate year
  let month := truncate (month - 1)
  let dayNumber := daysFromCivil ⟨year + month / 12, month % 12 + 1, 1⟩ + truncate day - 1
  if (dayNumber * dayMs).natAbs ≤ maxDateMs then some dayNumber else none

/-- The day number of the first three parts of a date text. -/
def utcMidnightFromIsoDate (host : Host) (isoDate : String) : Option ℤ :=
  match splitText isoDate '-' with
  | year :: month :: day :: _ => do
    utcDay (← host.number (.str year)) (← host.number (.str month)) (← host.number (.str day))
  | _ => none

/-- `none` where `toISOString` throws a `RangeError`. -/
def shiftIsoDate (host : Host) (isoDate : String) (dayDelta : ℤ) : Option String :=
  match utcMidnightFromIsoDate host isoDate with
  | some day =>
    if ((day + dayDelta) * dayMs).natAbs ≤ maxDateMs then some (isoDay (day + dayDelta)) else none
  | none => none

/-! ## RPC calls -/

/-- An error is thrown on, and data that is falsy is replaced by an empty array. -/
def callRpc (answer : RpcOutcome) (errorLabel : String) : Except String JsValue :=
  match answer with
  | .rejected message => .error message
  | .error message => .error (errorLabel ++ " failed: " ++ message)
  | .data value => .ok (if value.truthy then value else .arr [])

def isRetryableRpcError (host : Host) (message : String) : Bool :=
  ["lock timeout", "deadlock detected", "could not serialize access due to",
    "canceling statement due to statement timeout"].any
    (includesText (host.toLowerCase message))

def defaultRpcRetryAttempts : ℕ := 3

/-- The result of the attempts, and the number of the attempt after the last one made. -/
def callRpcWithRetry (host : Host) (answer : ℕ → RpcOutcome) (errorLabel : String) :
    (attemptsLeft attempt : ℕ) → Except String JsValue × ℕ
  | 0, attempt => (.ok (.arr []), attempt)
  | left + 1, attempt =>
    match callRpc (answer attempt) errorLabel with
    | .ok data => (.ok data, attempt + 1)
    | .error message =>
      if left ≠ 0 ∧ isRetryableRpcError host message then
        callRpcWithRetry host answer errorLabel left (attempt + 1)
      else (.error message, attempt + 1)

/-- `rows?.[0]`: an object can have a property `0`, and a text has a first character. -/
def firstRow : JsValue → JsValue
  | .arr (row :: _) => row
  | .obj fields => (JsValue.obj fields).optional "0"
  | .str s => (s.toList.head?.map fun c ↦ JsValue.str (String.singleton c)).getD .undefined
  | _ => .undefined

/-! ## The history manifest of a day -/

/-- `typeof value === "string" ? value.trim() : ""`. -/
def trimmedText : JsValue → String
  | .str s => trimText s
  | _ => ""

structure ManifestSummary where
  dayUtc : String
  sourceRowCount : ℤ
  fileCount : ℤ
  manifestHash : String

/-- The hash of a manifest without its own hash. -/
def recomputedManifestHash (host : Host) (fields : List (String × JsValue)) : String :=
  host.sha256Hex (JsValue.obj (fields.filter fun p ↦ p.1 ≠ "manifest_hash")).stringify

def validateManifestHash (host : Host) (dayUtc : String) (manifest : JsValue) :
    Except String ManifestSummary :=
  match manifest with
  | .obj fields =>
    let manifestDayUtc := trimmedText (manifest.optional "day_utc")
    let storedManifestHash := trimmedText (manifest.optional "manifest_hash")
    if manifestDayUtc ≠ dayUtc then .error "manifest_day_mismatch"
    else if storedManifestHash = "" then .error "manifest_hash_missing"
    else if recomputedManifestHash host fields ≠ storedManifestHash then
      .error "manifest_hash_mismatch"
    else .ok {
      dayUtc := manifestDayUtc
      sourceRowCount := countField host (manifest.optional "source_row_count")
      fileCount := countField host (manifest.optional "file_count")
      manifestHash := storedManifestHash }
  | _ => .error "manifest_not_object"

structure R2Config where
  endpoint : String
  bucket : String
  accessKeyId : String
  secretAccessKey : String
  region : String
  observationsPrefix : String

def hasRequiredR2Config (r2 : R2Config) : Bool :=
  r2.endpoint ≠ "" && r2.bucket ≠ "" && r2.accessKeyId ≠ "" && r2.secretAccessKey ≠ "" &&
    r2.region ≠ ""

def dayManifestKey (r2 : R2Config) (dayUtc : String) : String :=
  r2.observationsPrefix ++ "/day_utc=" ++ dayUtc ++ "/manifest.json"

/-- Why a manifest is not confirmed: the reason of the check and that of its detail. -/
structure Unconfirmed where
  reason : String
  detail : String

/-- The check of a `HEAD` answer: any answer but a 200 is read to its end. -/
def r2HeadDayManifest (answer : HttpOutcome) : Except Unconfirmed Unit :=
  match answer with
  | .rejected message => .error ⟨"history_manifest_check_error", message⟩
  | .response status body =>
    if status = 200 then .ok ()
    else match body with
      | none => .error ⟨"history_manifest_check_error", "body"⟩
      | some _ => .error ⟨"history_manifest_not_confirmed", "head_day_manifest"⟩

def r2GetManifestJson (host : Host) (answer : HttpOutcome) : Except Unconfirmed JsValue :=
  match answer with
  | .rejected message => .error ⟨"history_manifest_check_error", message⟩
  | .response status body =>
    if status = 200 then
      match body with
      | none => .error ⟨"history_manifest_not_confirmed", "manifest_read_error"⟩
      | some text =>
        match host.parseJson text with
        | none => .error ⟨"history_manifest_not_confirmed", "manifest_invalid_json"⟩
        | some manifest => .ok manifest
    else match body with
      | none => .error ⟨"history_manifest_check_error", "body"⟩
      | some _ => .error ⟨"history_manifest_not_confirmed", "get_day_manifest"⟩

/-- The manifest is looked up by `HEAD`, read by `GET` and checked against its own hash. -/
def historyManifestExists (host : Host) (r2 : R2Config) (head get : HttpOutcome) (dayUtc : String) :
    Except Unconfirmed ManifestSummary × List Exchange :=
  if hasRequiredR2Config r2 = false then (.error ⟨"missing_r2_configuration", ""⟩, [])
  else
    let key := dayManifestKey r2 dayUtc
    match r2HeadDayManifest head with
    | .error e => (.error e, [.headManifest key head])
    | .ok () =>
      let exchanges := [.headManifest key head, .getManifest key get]
      match r2GetManifestJson host get with
      | .error e => (.error e, exchanges)
      | .ok manifest =>
        match validateManifestHash host dayUtc manifest with
        | .error reason => (.error ⟨"history_manifest_not_confirmed", reason⟩, exchanges)
        | .ok summary => (.ok summary, exchanges)

/-! ## Whether a day has rows -/

/-- What is no boolean, text or number, a text that is not on the list and a number that is not
positive all read as "no rows". -/
def parseDayHasRowsRow (host : Host) (row : JsValue) : Bool :=
  match row.optional "has_rows" with
  | .bool b => b
  | .str s => ["true", "t", "1", "yes", "y"].contains (host.toLowerCase (trimText s))
  | .num t =>
    match host.number (.num t) with
    | some n => 0 < n
    | none => false
  | _ => false

def isMissingDayHasRowsFunctionError (host : Host) (message : String) : Bool :=
  includesText (host.toLowerCase message) "uk_aq_rpc_observs_day_has_rows" &&
    includesText (host.toLowerCase message) "schema cache"

inductive HasRowsCheck where
  | checked (hasRows : Bool) (method : String)
  | unchecked (method error : String)

/-- When the function is missing, the day's hourly fingerprint is asked for instead. The text of the
next day is made outside of the `try`, so a day that has none is thrown on. -/
def checkDayHasRows (host : Host) (dayHasRows fingerprint : RpcOutcome) (dayUtc : String) :
    Except String HasRowsCheck × List Exchange :=
  match callRpc dayHasRows ("observs day has rows " ++ dayUtc) with
  | .ok rows =>
    (.ok (.checked (parseDayHasRowsRow host (firstRow rows)) "day_has_rows_rpc"),
      [.dayHasRows dayUtc dayHasRows])
  | .error message =>
    if isMissingDayHasRowsFunctionError host message = false then
      (.ok (.unchecked "day_has_rows_rpc" message), [.dayHasRows dayUtc dayHasRows])
    else match shiftIsoDate host dayUtc 1 with
      | none => (.error "Invalid time value", [.dayHasRows dayUtc dayHasRows])
      | some nextDay =>
        let exchanges := [.dayHasRows dayUtc dayHasRows,
          .hourlyFingerprint (dayUtc ++ "T00:00:00.000Z") (nextDay ++ "T00:00:00.000Z") fingerprint]
        match callRpc fingerprint
            ("observs day has rows fallback via hourly fingerprint " ++ dayUtc) with
        | .ok rows =>
          (.ok (.checked (0 < (rows.items?.getD []).length) "hourly_fingerprint_fallback"), exchanges)
        | .error fallbackMessage =>
          (.ok (.unchecked "hourly_fingerprint_fallback"
            (message ++ "; fallback_failed: " ++ fallbackMessage)), exchanges)

end UkAqOps.Maintenance

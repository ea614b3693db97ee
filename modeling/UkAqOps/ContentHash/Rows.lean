import UkAqOps.Js.Utf16
import UkAqOps.Lib.Binary64
import UkAqOps.Prune.Identity

/-!
# Canonical observation rows

A row of input is any object. `normalizeCanonicalObservationRow` reads its seven columns and refuses
what is not canonical; what it accepts is one line of JSON, in which the value stands as the bytes
of its binary64 number. The measurement row leaves the verification status out.
-/

namespace UkAqOps.ContentHash

open Prune (isCanonicalPollutantCode jsonNullable)

/-! ## Rows of input -/

/-- A property as a row reads it. `other` is a value that is neither a number nor a string. -/
inductive Field
  | undefined
  | null
  | number (value : Binary64)
  | text (value : String)
  | other
deriving DecidableEq

/-- A row of input: its own keys and what reading a property gives, unless it is no object. -/
inductive Row
  | notObject
  | object (keys : List String) (read : String → Field)

/-! ## Columns -/

/-- `Number.isSafeInteger(value) && value > 0`. -/
def isPositiveSafeNumber (value : Binary64) : Bool := value.toInt?.any isPositiveSafeInteger

/-- A number that can be an id. -/
abbrev PositiveInteger := {value : Binary64 // isPositiveSafeNumber value = true}

def positiveInteger (fieldName : String) : Field → Except String PositiveInteger
  | .number value =>
    if h : isPositiveSafeNumber value = true then .ok ⟨value, h⟩
    else .error (fieldName ++ " must be a positive safe integer")
  | _ => .error (fieldName ++ " must be a positive safe integer")

def canonicalStationId : Field → Except String (Option PositiveInteger)
  | .null => .ok none
  | .undefined => .ok none
  | value => some <$> positiveInteger "station_id" value

inductive VerificationStatus
  | P
  | R
deriving DecidableEq

def VerificationStatus.text : VerificationStatus → String
  | .P => "P"
  | .R => "R"

def requireCanonicalVerificationStatus : Field → Except String (Option VerificationStatus)
  | .null => .ok none
  | .undefined => .ok none
  | .text value =>
    if value = "P" then .ok (some .P)
    else if value = "R" then .ok (some .R)
    else .error "verification_status must be P, R or null"
  | _ => .error "verification_status must be P, R or null"

/-- The columns of the measurement hash, in their order. -/
def observationMeasurementContentHashColumns : List String :=
  ["connector_id", "station_id", "timeseries_id", "pollutant_code", "observed_at_utc", "value"]

def observationContentHashColumns : List String :=
  observationMeasurementContentHashColumns ++ ["verification_status"]

def selectObservationVerificationStatusColumn (columns : List String) :
    Except String (Option String) :=
  let present := ["verification_status", "status"].filter (· ∈ columns)
  if 1 < present.length then
    .error ("Competing observation status fields: " ++ ",".intercalate present)
  else .ok present.head?

/-- `/^\d{4}-\d{2}-\d{2}T\d{2}:\d{2}:\d{2}\.\d{3}Z$/`, where the shape has a `d` for each digit. -/
def hasTimestampShape (text : String) : Bool :=
  let shape := "dddd-dd-ddTdd:dd:dd.dddZ".toList
  text.toList.length = shape.length &&
    (shape.zip text.toList).all fun (s, c) ↦ if s = 'd' then c.isDigit else c = s

/-- An exact UTC timestamp with milliseconds: the form that the date itself prints as. -/
def isExactUtcTimestamp (dateParse : String → Option ℤ) (text : String) : Bool :=
  hasTimestampShape text &&
    match dateParse text with
    | none => false
    | some ms => toISOString ms = text

/-- A finite value; a negative zero is not one. -/
def isCanonicalValue (value : Binary64) : Bool := value.isFinite && value ≠ .negativeZero

/-- The value of a row: `Object.is(value, -0) ? 0 : value`. -/
def withoutNegativeZero (value : Binary64) : Binary64 :=
  if value = .negativeZero then .zero else value

theorem isCanonicalValue_withoutNegativeZero {value : Binary64} (h : value.isFinite = true) :
    isCanonicalValue (withoutNegativeZero value) = true := by
  rw [withoutNegativeZero]
  split
  · decide
  · rename_i hne
    rw [isCanonicalValue, h, Bool.true_and, decide_eq_true_iff]
    exact hne

/-! ## Canonical rows -/

section Canonical

variable (dateParse : String → Option ℤ)

/-- A canonical row without its status: what is in a column has passed the check of that column. -/
@[ext] structure MeasurementRow where
  connectorId : PositiveInteger
  stationId : Option PositiveInteger
  timeseriesId : PositiveInteger
  pollutantCode : {code : String // isCanonicalPollutantCode code = true}
  observedAtUtc : {text : String // isExactUtcTimestamp dateParse text = true}
  value : {value : Binary64 // isCanonicalValue value = true}

/-- A canonical row. -/
@[ext] structure ObservationRow extends MeasurementRow dateParse where
  verificationStatus : Option VerificationStatus

/-- `validated canonical lower-case code`: the pattern has no upper-case letter, so that the
comparison with the lower-case form refuses nothing more. -/
def canonicalPollutantCode :
    Field → Except String {code : String // isCanonicalPollutantCode code = true}
  | .text code =>
    if h : isCanonicalPollutantCode code = true then .ok ⟨code, h⟩
    else .error "pollutant_code must be a validated canonical lower-case code"
  | _ => .error "pollutant_code must be a validated canonical lower-case code"

def canonicalObservedAt :
    Field → Except String {text : String // isExactUtcTimestamp dateParse text = true}
  | .text value =>
    if h : isExactUtcTimestamp dateParse value = true then .ok ⟨value, h⟩
    else .error "observed_at_utc must be an exact UTC ISO timestamp with millisecond precision"
  | _ => .error "observed_at_utc must be an exact UTC ISO timestamp with millisecond precision"

def canonicalValue : Field → Except String {value : Binary64 // isCanonicalValue value = true}
  | .number value =>
    if h : value.isFinite = true then
      .ok ⟨withoutNegativeZero value, isCanonicalValue_withoutNegativeZero h⟩
    else .error "value must be a finite IEEE-754 binary64 number"
  | _ => .error "value must be a finite IEEE-754 binary64 number"

/-- The six columns that both normalisers read, in the order in which they are checked. -/
def normalizeMeasurementColumns (read : String → Field) : Except String (MeasurementRow dateParse) :=
  do
    let pollutantCode ← canonicalPollutantCode (read "pollutant_code")
    let observedAtUtc ← canonicalObservedAt dateParse (read "observed_at_utc")
    let value ← canonicalValue (read "value")
    let connectorId ← positiveInteger "connector_id" (read "connector_id")
    let stationId ← canonicalStationId (read "station_id")
    let timeseriesId ← positiveInteger "timeseries_id" (read "timeseries_id")
    pure ⟨connectorId, stationId, timeseriesId, pollutantCode, observedAtUtc, value⟩

def normalizeCanonicalObservationMeasurementRow : Row → Except String (MeasurementRow dateParse)
  | .notObject => .error "canonical observation measurement row must be an object"
  | .object _ read => normalizeMeasurementColumns dateParse read

def normalizeCanonicalObservationRow : Row → Except String (ObservationRow dateParse)
  | .notObject => .error "canonical observation row must be an object"
  | .object keys read => do
    let physicalStatusField ← selectObservationVerificationStatusColumn keys
    if physicalStatusField.any (· ≠ "verification_status") then
      .error "canonical observation row requires verification_status" else
    let measurement ← normalizeMeasurementColumns dateParse read
    let verificationStatus ← requireCanonicalVerificationStatus (read "verification_status")
    pure { measurement with verificationStatus }

variable {dateParse}

/-- A canonical row as the object that it is: its columns, read by name. -/
def MeasurementRow.read (row : MeasurementRow dateParse) (column : String) : Field :=
  if column = "connector_id" then .number row.connectorId
  else if column = "station_id" then row.stationId.elim .null fun id ↦ .number id
  else if column = "timeseries_id" then .number row.timeseriesId
  else if column = "pollutant_code" then .text row.pollutantCode
  else if column = "observed_at_utc" then .text row.observedAtUtc
  else if column = "value" then .number row.value
  else .undefined

def MeasurementRow.toRow (row : MeasurementRow dateParse) : Row :=
  .object observationMeasurementContentHashColumns row.read

def ObservationRow.read (row : ObservationRow dateParse) (column : String) : Field :=
  if column = "verification_status" then
    row.verificationStatus.elim .null fun status ↦ .text status.text
  else row.toMeasurementRow.read column

def ObservationRow.toRow (row : ObservationRow dateParse) : Row :=
  .object observationContentHashColumns row.read

/-! ## Lines -/

/-- The bytes of a value in the order of the network, two hexadecimal digits each. -/
def byteHex (byte : ℕ) : List Char := [Nat.digitChar (byte / 16), Nat.digitChar (byte % 16)]

def float64BigEndianHex (value : Binary64) : Except String String :=
  if value.isFinite = true then
    .ok (String.ofList ((withoutNegativeZero value).bytes.flatMap byteHex))
  else .error "value must be a finite IEEE-754 binary64 number"

/-- `JSON.stringify` of an id. -/
def jsonId (id : PositiveInteger) : String := Prune.jsonInt (id.val.toInt?.getD 0)

def jsonStatus (status : VerificationStatus) : String := jsonQuote status.text

/-- The texts of the six columns, of which the value is already the text of its bytes. -/
def MeasurementRow.columns (row : MeasurementRow dateParse) (value : String) : List String :=
  [jsonId row.connectorId, jsonNullable jsonId row.stationId, jsonId row.timeseriesId,
    jsonQuote row.pollutantCode, jsonQuote row.observedAtUtc, jsonQuote value]

/-- `JSON.stringify` of an array whose items have these texts. -/
def jsonArray (items : List String) : String := "[" ++ ",".intercalate items ++ "]"

variable (dateParse)

def encodeCanonicalObservationRow (row : Row) : Except String String := do
  let canonical ← normalizeCanonicalObservationRow dateParse row
  let value ← float64BigEndianHex canonical.value
  pure (jsonArray (canonical.columns value ++
    [jsonNullable jsonStatus canonical.verificationStatus]))

def encodeCanonicalObservationMeasurementRow (row : Row) : Except String String := do
  let canonical ← normalizeCanonicalObservationMeasurementRow dateParse row
  let value ← float64BigEndianHex canonical.value
  pure (jsonArray (canonical.columns value))

end Canonical

end UkAqOps.ContentHash

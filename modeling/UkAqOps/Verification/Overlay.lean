import UkAqOps.Js.DateOrder
import UkAqOps.Js.Stringify
import UkAqOps.Lib.Except
import UkAqOps.Lib.OrderedMap
import UkAqOps.Lib.Periods
import Mathlib.Data.String.Basic

/-!
# The verification overlay

A source says when its observations became ratified, either with one date or with a status for each
observation. Both are kept as half-open periods of UTC timestamps, compared as texts, inside the
manifest of a connector, and the status of an observation is looked up there.

The period of the library carries the fields `from_observed_at_utc`, `to_observed_at_utc` and
`status` under the names `start`, `stop` and `value`.
-/

namespace UkAqOps.Verification

open Periods

inductive Status where
  | P
  | R
  deriving DecidableEq

def Status.text : Status → String
  | P => "P"
  | R => "R"

/-- `new Date(text).getTime()`, where the text is a date. -/
abbrev DateParse := String → Option ℤ

variable (dateParse : DateParse)

/-! ## Reading fields -/

def positiveInteger (value : ℤ) (label : String) : Except String ℤ :=
  if isPositiveSafeInteger value then .ok value
  else .error s!"{label} must be a positive safe integer"

def nullablePositiveInteger (value : Option ℤ) (label : String) : Except String (Option ℤ) :=
  match value with
  | none => .ok none
  | some value => some <$> positiveInteger value label

/-- A value that is `null` or `undefined`. -/
def isMissing : JsValue → Bool
  | .undefined => true
  | .null => true
  | _ => false

def canonicalStatus (value : JsValue) (label : String) : Except String Status :=
  match value with
  | .str "P" => .ok .P
  | .str "R" => .ok .R
  | _ => .error s!"{label} must be P or R"

/-- `canonicalStatus` with `nullable: true`. -/
def nullableStatus (value : JsValue) (label : String) : Except String (Option Status) :=
  if isMissing value then .ok none
  else match value with
    | .str "P" => .ok (some .P)
    | .str "R" => .ok (some .R)
    | _ => .error s!"{label} must be P, R or null"

def canonicalUtc (value : JsValue) (label : String) : Except String String :=
  let text := trimText value.orBlank
  match dateParse text with
  | none => .error s!"{label} must be a canonical UTC ISO timestamp"
  | some ms =>
    if text ≠ "" ∧ toISOString ms = text then .ok text
    else .error s!"{label} must be a canonical UTC ISO timestamp"

/-- `canonicalUtc` with `nullable: true`. -/
def nullableUtc (value : JsValue) (label : String) : Except String (Option String) :=
  if isMissing value then .ok none else some <$> canonicalUtc dateParse value label

/-- `/^[a-z0-9_]+$/`. -/
def isPollutantCode (text : String) : Bool :=
  text ≠ "" && text.toList.all fun c ↦ ('a' ≤ c && c ≤ 'z') || c.isDigit || c = '_'

def canonicalPollutant (value : JsValue) (label : String) : Except String String :=
  let text := trimText value.orBlank
  if isPollutantCode text then .ok text
  else .error s!"{label} must be a canonical lower-case pollutant code"

/-! ## Provenance -/

def volatileAcquisitionFields : List String :=
  ["retrieved_at_utc", "downloaded_at_utc", "download_timestamp", "source_file_sha256",
    "downloaded_file_sha256", "source_sha256", "source_byte_size", "response_byte_size", "http_etag",
    "transient_etag", "etag", "http_response_identity", "decoder_execution_metadata",
    "decoder_run_id"]

mutual

def rejectVolatileAcquisitionEvidence (path : String) : JsValue → Except String Unit
  | .arr items => rejectVolatileItems path 0 items
  | .obj fields => rejectVolatileFields path fields
  | _ => .ok ()

def rejectVolatileItems (path : String) (index : ℕ) : List JsValue → Except String Unit
  | [] => .ok ()
  | entry :: rest => do
    rejectVolatileAcquisitionEvidence s!"{path}[{index}]" entry
    rejectVolatileItems path (index + 1) rest

def rejectVolatileFields (path : String) : List (String × JsValue) → Except String Unit
  | [] => .ok ()
  | (key, entry) :: rest =>
    if key ∈ volatileAcquisitionFields then
      .error (s!"{path}.{key} is acquisition audit evidence and must not enter canonical semantic "
        ++ "manifest identity")
    else do
      rejectVolatileAcquisitionEvidence s!"{path}.{key}" entry
      rejectVolatileFields path rest

end

def canonicalSemanticProvenance (value : JsValue) (label : String) : Except String JsValue :=
  match value with
  | .obj fields => do
    let canonical := (JsValue.obj fields).canonicalize
    rejectVolatileAcquisitionEvidence label canonical
    .ok canonical
  | _ => .error s!"{label} must be an object"

/-! ## Periods -/

/-- A period as it was read or is about to be normalised. -/
structure RawPeriod where
  fromObservedAtUtc : JsValue
  toObservedAtUtc : JsValue
  status : JsValue

/-- A missing text is `null`. -/
def orNull : Option String → JsValue
  | none => .null
  | some text => .str text

/-- A normalised period as an object again. -/
def raw (period : Period String Status) : RawPeriod :=
  ⟨orNull period.start, orNull period.stop, .str period.value.text⟩

/-- The periods collapsed so far and the start of the last period that was read. -/
structure Collapse where
  collapsed : List (Period String Status)
  previousFrom : Option String

/-- Both bounds are there, and the first comes before the second. -/
def startsBefore (first second : Option String) : Bool :=
  match first, second with
  | some a, some b => decide (a < b)
  | _, _ => false

/-- Put a period behind the collapsed ones, or into the last of them if it touches it and has its
status. -/
def collapsePeriod (state : Collapse) (period : Period String Status) : Except String Collapse :=
  match state.collapsed.getLast? with
  | none => .ok ⟨state.collapsed ++ [period], period.start⟩
  | some previous => do
    Except.refuseIf (previous.stop = none) "an open-ended verification period must be last"
    Except.refuseIf (period.start = none ∨ startsBefore period.start previous.stop = true)
      "verification periods must not overlap"
    if period.start = previous.stop ∧ period.value = previous.value then
      .ok ⟨state.collapsed.dropLast ++ [⟨previous.start, period.stop, previous.value⟩], period.start⟩
    else .ok ⟨state.collapsed ++ [period], period.start⟩

/-- The fields of one period. -/
def readPeriod (index : ℕ) (raw : RawPeriod) : Except String (Period String Status) := do
  let start ← nullableUtc dateParse raw.fromObservedAtUtc
    s!"verification periods[{index}].from_observed_at_utc"
  let stop ← nullableUtc dateParse raw.toObservedAtUtc
    s!"verification periods[{index}].to_observed_at_utc"
  let status ← canonicalStatus raw.status s!"verification periods[{index}].status"
  .ok ⟨start, stop, status⟩

/-- One turn of the loop over `count` periods. -/
def normalizePeriod (count : ℕ) (state : Collapse) (item : RawPeriod × ℕ) :
    Except String Collapse := do
  let period ← readPeriod dateParse item.2 item.1
  Except.refuseIf (period.isProper = false)
    s!"verification periods[{item.2}] is empty or reversed"
  Except.refuseIf (0 < item.2 ∧ period.start = none)
    "only the first verification period may have an open start"
  Except.refuseIf (item.2 + 1 < count ∧ period.stop = none)
    "only the last verification period may have an open end"
  Except.refuseIf (startsBefore period.start state.previousFrom = true)
    "verification periods must be sorted deterministically"
  collapsePeriod state period

def normalizeObservationVerificationPeriods (periods : List RawPeriod) :
    Except String (List (Period String Status)) :=
  Collapse.collapsed <$>
    periods.zipIdx.foldlM (normalizePeriod dateParse periods.length) ⟨[], none⟩

/-! ## Sources -/

def ratificationBoundaryModel : String := "ratification-boundary-v1"
def perObservationModel : String := "per-observation-status-v1"

/-- What a source says of one timeseries. -/
structure VerificationSource where
  sourceVerificationModel : String
  semanticSourceProvenance : JsValue
  defaultStatus : Status
  periods : List (Period String Status)

/-- `{ ...provenance, ratified_to }`. -/
def withRatifiedTo (provenance : JsValue) (ratifiedTo : JsValue) : JsValue :=
  match provenance with
  | .obj fields => .obj (OrderedMap.setEntries fields "ratified_to" ratifiedTo)
  | _ => provenance

/-- `text.toLowerCase() === "never"`. -/
def isNever (text : String) : Bool := text.toList.map Char.toLower = "never".toList

def verificationPeriodsFromRatifiedTo (ratifiedTo : Option String) (provenance : JsValue) :
    Except String VerificationSource := do
  let stable ← canonicalSemanticProvenance provenance "semanticSourceProvenance"
  match ratifiedTo.map trimText with
  | none => .ok ⟨ratificationBoundaryModel, withRatifiedTo stable .null, .P, []⟩
  | some sourceValue =>
    if sourceValue = "" then
      .ok ⟨ratificationBoundaryModel, withRatifiedTo stable .null, .P, []⟩
    else if isNever sourceValue then
      .ok ⟨ratificationBoundaryModel, withRatifiedTo stable (.str sourceValue), .P, []⟩
    else match parseIsoDay sourceValue with
      | none => .error "ratified_to must be YYYY-MM-DD, Never or a valid missing value"
      | some day => do
        let nextMidnight := toISOString (day * dayMs + dayMs)
        let periods ← normalizeObservationVerificationPeriods dateParse
          [⟨.null, .str nextMidnight, .str "R"⟩]
        .ok ⟨ratificationBoundaryModel, withRatifiedTo stable (.str sourceValue), .P, periods⟩

/-- One observation of the source with its status. -/
structure RawEvidence where
  observedAtUtc : JsValue
  status : JsValue

/-- The changes of status found so far and the timestamp of the last observation that was read. -/
structure Transitions where
  transitions : List (String × Status)
  previousTimestamp : Option String

/-- Take in an observation with its canonical timestamp and status. -/
def addObservation (state : Transitions) (observedAtUtc : String) (status : Status) :
    Except String Transitions := do
  Except.refuseIf (startsBefore (some observedAtUtc) state.previousTimestamp = true)
    "source observation verification evidence must be ordered"
  let previous := state.transitions.getLast?.map Prod.snd
  if state.previousTimestamp = some observedAtUtc then
    Except.refuseIf (previous ≠ some status)
      "source observation verification evidence contradicts at one timestamp"
    .ok state
  else if previous = some status then .ok ⟨state.transitions, some observedAtUtc⟩
  else .ok ⟨state.transitions ++ [(observedAtUtc, status)], some observedAtUtc⟩

/-- One turn of the loop over the evidence. -/
def addEvidence (state : Transitions) (item : RawEvidence × ℕ) : Except String Transitions := do
  let observedAtUtc ← canonicalUtc dateParse item.1.observedAtUtc
    s!"source evidence[{item.2}].observed_at_utc"
  let status ← canonicalStatus item.1.status s!"source evidence[{item.2}].status"
  addObservation state observedAtUtc status

def verificationPeriodsFromObservationEvidence (evidence : List RawEvidence)
    (provenance : JsValue) : Except String VerificationSource := do
  let state ← evidence.zipIdx.foldlM (addEvidence dateParse) ⟨[], none⟩
  let stable ← canonicalSemanticProvenance provenance "semanticSourceProvenance"
  let periods ← normalizeObservationVerificationPeriods dateParse
    ((periodsOf state.transitions).map raw)
  .ok ⟨perObservationModel, stable, .P, periods⟩

/-! ## Connector manifests -/

/-- A timeseries as it is given to the builder of a connector manifest. -/
structure RawTimeseries where
  connectorId : ℤ
  timeseriesId : ℤ
  stationId : Option ℤ
  pollutantCode : JsValue
  sourceVerificationModel : JsValue
  semanticSourceProvenance : JsValue
  hasSourceProvenance : Bool
  defaultStatus : JsValue
  periods : List RawPeriod

structure TimeseriesEntry where
  connectorId : ℤ
  timeseriesId : ℤ
  stationId : Option ℤ
  pollutantCode : String
  sourceVerificationModel : String
  sourceProvenance : JsValue
  defaultStatus : Option Status
  periods : List (Period String Status)

def normalizeTimeseriesEntry (connectorId : ℤ) (raw : RawTimeseries) :
    Except String TimeseriesEntry := do
  let entryConnectorId ← positiveInteger raw.connectorId "timeseries.connector_id"
  Except.refuseIf (entryConnectorId ≠ connectorId)
    "verification timeseries connector_id does not match manifest"
  let sourceModel := trimText raw.sourceVerificationModel.orBlank
  Except.refuseIf (sourceModel ∉ [ratificationBoundaryModel, perObservationModel])
    "timeseries.source_verification_model is unsupported"
  Except.refuseIf (raw.hasSourceProvenance = true)
    ("timeseries builder input must use semantic_source_provenance; acquisition evidence is "
      ++ "separate")
  let timeseriesId ← positiveInteger raw.timeseriesId "timeseries.timeseries_id"
  let stationId ← nullablePositiveInteger raw.stationId "timeseries.station_id"
  let pollutantCode ← canonicalPollutant raw.pollutantCode "timeseries.pollutant_code"
  let sourceProvenance ← canonicalSemanticProvenance raw.semanticSourceProvenance
    "timeseries.semantic_source_provenance"
  let defaultStatus ← nullableStatus raw.defaultStatus "timeseries.default_status"
  let periods ← normalizeObservationVerificationPeriods dateParse raw.periods
  .ok ⟨entryConnectorId, timeseriesId, stationId, pollutantCode, sourceModel, sourceProvenance,
    defaultStatus, periods⟩

structure ConnectorManifest where
  connectorId : ℤ
  sourceIdentity : JsValue
  timeseries : List TimeseriesEntry

def buildObservationVerificationConnectorManifest (connectorId : ℤ)
    (semanticSourceIdentity : JsValue) (timeseries : List RawTimeseries) :
    Except String ConnectorManifest := do
  let connector ← positiveInteger connectorId "connectorId"
  let entries ← timeseries.mapM (normalizeTimeseriesEntry dateParse connector)
  let normalized := Sorting.sortBy (fun left right ↦ compare left.timeseriesId right.timeseriesId)
    entries
  Except.refuseIf (¬(normalized.map TimeseriesEntry.timeseriesId).IsChain (· ≠ ·))
    "verification connector manifest contains duplicate timeseries_id"
  let identity ← canonicalSemanticProvenance semanticSourceIdentity "semanticSourceIdentity"
  .ok ⟨connector, identity, normalized⟩

/-! ## Resolution -/

/-- What a reader knows of a connector: whether the overlay decides, and its manifest. -/
structure Authority where
  overlayAuthoritative : Bool
  manifest : ConnectorManifest

def resolveEffectiveObservationVerificationStatus (authority : Option Authority)
    (timeseriesId : ℤ) (observedAtUtc : JsValue) (legacyStatus : Option Status) :
    Except String (Option Status) :=
  match authority.filter Authority.overlayAuthoritative with
  | none => .ok legacyStatus
  | some authority => do
    let timeseries ← positiveInteger timeseriesId "timeseriesId"
    let observedAt ← canonicalUtc dateParse observedAtUtc "observedAtUtc"
    match authority.manifest.timeseries.find? fun entry ↦ entry.timeseriesId = timeseries with
    | none => .ok none
    | some entry => .ok ((valueAt entry.periods observedAt).or entry.defaultStatus)

end UkAqOps.Verification

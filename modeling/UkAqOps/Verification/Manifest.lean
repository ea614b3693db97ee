import UkAqOps.Js.JsonForm
import UkAqOps.Verification.NormalForm

/-!
# Connector manifests as values

The builder and the validator of connector manifests on untyped values: the builder takes what its
caller hands over, the validator what was parsed from a stored text. Both read each timeseries with
the same function, which looks for the provenance under a name of its own in each of the two.
-/

namespace UkAqOps.Verification

open Periods

/-- `Number(value)`, where it is an integer. -/
abbrev NumberOf := JsValue → Option ℤ

variable (dateParse : DateParse) (numberOf : NumberOf)

/-! ## Reading -/

/-- `positiveInteger(value, label)`. -/
def positiveIntegerOf (value : JsValue) (label : String) : Except String ℤ :=
  match numberOf value with
  | none => .error s!"{label} must be a positive safe integer"
  | some number => positiveInteger number label

def nullablePositiveIntegerOf (value : JsValue) (label : String) : Except String (Option ℤ) :=
  if isMissing value then .ok none else some <$> positiveIntegerOf numberOf value label

/-- `Object.hasOwn(value, name)`. -/
def hasOwn (value : JsValue) (name : String) : Bool :=
  match value with
  | .obj fields => fields.any fun p ↦ p.1 = name
  | _ => false

/-- `raw.periods || []`. -/
def periodsOrNone (raw : JsValue) : JsValue :=
  let periods := raw.optional "periods"
  if periods.truthy then periods else .arr []

/-- `normalizeTimeseriesEntry(raw, connectorId, { canonical })`. -/
def normalizeTimeseriesValue (canonical : Bool) (connectorId : ℤ) (raw : JsValue) :
    Except String TimeseriesEntry := do
  Except.refuseIf (raw.isObject = false) "verification timeseries entry must be an object"
  let entryConnectorId ← positiveIntegerOf numberOf (raw.optional "connector_id")
    "timeseries.connector_id"
  Except.refuseIf (entryConnectorId ≠ connectorId)
    "verification timeseries connector_id does not match manifest"
  let sourceModel := trimText (raw.optional "source_verification_model").orBlank
  Except.refuseIf (sourceModel ∉ [ratificationBoundaryModel, perObservationModel])
    "timeseries.source_verification_model is unsupported"
  let semanticProvenance :=
    raw.optional (if canonical then "source_provenance" else "semantic_source_provenance")
  Except.refuseIf (canonical = false ∧ hasOwn raw "source_provenance" = true)
    ("timeseries builder input must use semantic_source_provenance; acquisition evidence is "
      ++ "separate")
  let timeseriesId ← positiveIntegerOf numberOf (raw.optional "timeseries_id")
    "timeseries.timeseries_id"
  let stationId ← nullablePositiveIntegerOf numberOf (raw.optional "station_id")
    "timeseries.station_id"
  let pollutantCode ← canonicalPollutant (raw.optional "pollutant_code") "timeseries.pollutant_code"
  let sourceProvenance ← canonicalSemanticProvenance semanticProvenance
    (if canonical then "timeseries.source_provenance" else "timeseries.semantic_source_provenance")
  let defaultStatus ← nullableStatus (raw.optional "default_status") "timeseries.default_status"
  let periods ← normalizePeriodValues dateParse (periodsOrNone raw)
  .ok ⟨entryConnectorId, timeseriesId, stationId, pollutantCode, sourceModel, sourceProvenance,
    defaultStatus, periods⟩

/-- Sort the entries by their ids and refuse an id that occurs twice. -/
def sortTimeseries (entries : List TimeseriesEntry) : Except String (List TimeseriesEntry) := do
  let normalized := Sorting.sortBy (fun left right ↦ compare left.timeseriesId right.timeseriesId)
    entries
  Except.refuseIf (¬(normalized.map TimeseriesEntry.timeseriesId).IsChain (· ≠ ·))
    "verification connector manifest contains duplicate timeseries_id"
  .ok normalized

/-- `(Array.isArray(timeseries) ? timeseries : []).map(...).sort(...)`, without duplicates. -/
def normalizeTimeseriesValues (canonical : Bool) (connectorId : ℤ) (timeseries : JsValue) :
    Except String (List TimeseriesEntry) := do
  let entries ← (timeseries.items?.getD []).mapM
    (normalizeTimeseriesValue dateParse numberOf canonical connectorId)
  sortTimeseries entries

/-- `buildObservationVerificationConnectorManifest` on what a caller hands over. -/
def buildConnectorManifest (connectorId semanticSourceIdentity timeseries : JsValue) :
    Except String ConnectorManifest := do
  let connector ← positiveIntegerOf numberOf connectorId "connectorId"
  let normalizedTimeseries ← normalizeTimeseriesValues dateParse numberOf false connector timeseries
  let identity ← canonicalSemanticProvenance semanticSourceIdentity "semanticSourceIdentity"
  .ok ⟨connector, identity, normalizedTimeseries⟩

/-! ## Writing -/

def idValue : Option ℤ → JsValue
  | none => .null
  | some id => .int id

def statusValue : Option Status → JsValue
  | none => .null
  | some status => .str status.text

def TimeseriesEntry.toValue (entry : TimeseriesEntry) : JsValue :=
  .obj [("connector_id", .int entry.connectorId), ("timeseries_id", .int entry.timeseriesId),
    ("station_id", idValue entry.stationId), ("pollutant_code", .str entry.pollutantCode),
    ("source_verification_model", .str entry.sourceVerificationModel),
    ("source_provenance", entry.sourceProvenance),
    ("default_status", statusValue entry.defaultStatus),
    ("periods", .arr (entry.periods.map periodValue))]

/-- `OBSERVATION_VERIFICATION_CONNECTOR_MANIFEST_KIND`. -/
def connectorManifestKind : String := "uk_aq_observation_verification_connector_manifest"

def ConnectorManifest.toValue (manifest : ConnectorManifest) : JsValue :=
  .obj [("schema_version", .int 1), ("kind", .str connectorManifestKind),
    ("verification_format_version", .int 1), ("history_generation", .str "v3"),
    ("connector_id", .int manifest.connectorId), ("source_identity", manifest.sourceIdentity),
    ("timeseries", .arr (manifest.timeseries.map TimeseriesEntry.toValue))]

/-- `encodeObservationVerificationJson(value)`. -/
def encodeObservationVerificationJson (value : JsValue) : String := value.canonicalJson

/-! ## Validating -/

/-- The constant fields of a manifest. -/
def hasManifestIdentity (raw : JsValue) : Bool :=
  (raw.optional "schema_version").isInt 1 && (raw.optional "kind").isText connectorManifestKind &&
    (raw.optional "verification_format_version").isInt 1 &&
    (raw.optional "history_generation").isText "v3"

def validateObservationVerificationConnectorManifest (raw : JsValue) :
    Except String ConnectorManifest := do
  Except.refuseIf (hasManifestIdentity raw = false)
    "verification connector manifest identity is invalid"
  let connector ← positiveIntegerOf numberOf (raw.optional "connector_id") "connector_id"
  let normalizedTimeseries ←
    normalizeTimeseriesValues dateParse numberOf true connector (raw.optional "timeseries")
  let identity ← canonicalSemanticProvenance (raw.optional "source_identity") "source_identity"
  let normalized : ConnectorManifest := ⟨connector, identity, normalizedTimeseries⟩
  Except.refuseIf
    (encodeObservationVerificationJson raw ≠ encodeObservationVerificationJson normalized.toValue)
    "verification connector manifest is not canonical"
  .ok normalized

end UkAqOps.Verification

import UkAqOps.Hierarchy.Aggregate

/-!
# The registry of index scopes

`src/workers/shared/uk_aq_observation_history_exact_leaf_index_v3.mjs`: one object names every scope
(a day, a connector and a pollutant) that the index covers, with the identity of the scope's
manifest. A registry that is read back is rebuilt from its scoped roots and must have the text that
the rebuilt one has.
-/

namespace UkAqOps.Registry

open Hierarchy (Host isPlainPath)

def defaultIndexRoot : String := "history/_index_v3/observations_timeseries"
def defaultLatestKey : String := "history/_index_v3/observations_timeseries_latest.json"

/-! ## Reading fields -/

def normalizePrefix (value : String) (label : String) : Except String String :=
  let basePrefix := stripSlashes (trimText value)
  if isPlainPath basePrefix then .ok basePrefix else .error s!"{label} is invalid"

def normalizeKey (value : JsValue) (label : String) : Except String String :=
  let key := stripLeadingSlashes (trimText value.orBlank)
  if key = "" ∨ endsWithText key "/" then .error s!"{label} is invalid" else .ok key

/-- `integer(value, label)`: a positive one. -/
def integer (host : Host) (value : JsValue) (label : String) : Except String ℤ :=
  match host.safeInteger value with
  | some n => if 0 < n then .ok n else .error s!"{label} must be a positive safe integer"
  | none => .error s!"{label} must be a positive safe integer"

def exactSha256 (value : JsValue) (label : String) : Except String String :=
  let sha256 := trimText value.orBlank
  if isSha256Hex sha256 then .ok sha256 else .error s!"{label} must be lower-case SHA-256"

def canonicalIso (host : Host) (value : JsValue) (label : String) : Except String String :=
  let text := value.orBlank
  match host.dateParse text with
  | some ms =>
    if text ≠ "" ∧ toISOString ms = text then .ok text
    else .error s!"{label} must be a canonical ISO timestamp"
  | none => .error s!"{label} must be a canonical ISO timestamp"

/-- `/^[a-z0-9_]+$/`. -/
def isPollutantCode (code : String) : Bool :=
  code ≠ "" && code.toList.all fun c ↦ ('a' ≤ c && c ≤ 'z') || c.isDigit || c = '_'

/-! ## Scopes -/

structure Scope where
  dayUtc : String
  connectorId : ℤ
  pollutantCode : String
deriving DecidableEq

def normalizeScope (host : Host) (scope : JsValue) : Except String Scope := do
  let dayUtc := (scope.optional "day_utc").orBlank
  let connectorId ← integer host (scope.optional "connector_id") "scope.connector_id"
  let pollutantCode := host.toLowerCase (trimText (scope.optional "pollutant_code").orBlank)
  Except.refuseIf ((parseIsoDay dayUtc).isNone ∨ isPollutantCode pollutantCode = false)
    "exact-leaf scope is invalid"
  pure ⟨dayUtc, connectorId, pollutantCode⟩

def scopePath (scope : Scope) : String :=
  "day_utc=" ++ scope.dayUtc ++ "/connector_id=" ++ toString scope.connectorId
    ++ "/pollutant_code=" ++ scope.pollutantCode

def scopedManifestKey (indexRoot : String) (scope : Scope) : String :=
  indexRoot ++ "/" ++ scopePath scope ++ "/manifest.json"

/-- The identity and coverage of a scope's manifest. -/
structure ScopedRoot extends Scope where
  key : String
  byteSize : ℤ
  sha256 : String
  rowCount : ℤ
  timeseriesCount : ℤ
  childShardCount : ℤ
  physicalLeafCount : ℤ
  physicalFileCount : ℤ
  minObservedAtUtc : String
  maxObservedAtUtc : String
deriving DecidableEq

def ScopedRoot.toValue (root : ScopedRoot) : JsValue :=
  .obj [("day_utc", .str root.dayUtc), ("connector_id", .int root.connectorId),
    ("pollutant_code", .str root.pollutantCode), ("key", .str root.key),
    ("byte_size", .int root.byteSize), ("sha256", .str root.sha256),
    ("row_count", .int root.rowCount), ("timeseries_count", .int root.timeseriesCount),
    ("child_shard_count", .int root.childShardCount),
    ("physical_leaf_count", .int root.physicalLeafCount),
    ("physical_file_count", .int root.physicalFileCount),
    ("min_observed_at_utc", .str root.minObservedAtUtc),
    ("max_observed_at_utc", .str root.maxObservedAtUtc)]

def normalizedRegistryRoot (host : Host) (raw : JsValue) (indexRoot label : String) :
    Except String ScopedRoot := do
  let scope ← normalizeScope host raw
  let count := fun name : String ↦ integer host (raw.optional name) s!"{label}.{name}"
  let key ← normalizeKey (raw.optional "key") s!"{label}.key"
  let byteSize ← count "byte_size"
  let sha256 ← exactSha256 (raw.optional "sha256") s!"{label}.sha256"
  let rowCount ← count "row_count"
  let timeseriesCount ← count "timeseries_count"
  let childShardCount ← count "child_shard_count"
  let physicalLeafCount ← count "physical_leaf_count"
  let physicalFileCount ← count "physical_file_count"
  let minObservedAtUtc ← canonicalIso host (raw.optional "min_observed_at_utc")
    s!"{label}.min_observed_at_utc"
  let maxObservedAtUtc ← canonicalIso host (raw.optional "max_observed_at_utc")
    s!"{label}.max_observed_at_utc"
  Except.refuseIf (key ≠ scopedManifestKey indexRoot scope ∨ childShardCount ≠ timeseriesCount ∨
      physicalLeafCount ≠ timeseriesCount ∨ bytewiseLt maxObservedAtUtc minObservedAtUtc)
    s!"compact latest scoped root is contradictory: {key}"
  pure ⟨scope, key, byteSize, sha256, rowCount, timeseriesCount, childShardCount,
    physicalLeafCount, physicalFileCount, minObservedAtUtc, maxObservedAtUtc⟩

/-! ## The payload -/

/-- The order of scoped roots: by day, connector and pollutant. -/
def compareScopes (a b : ScopedRoot) : Ordering :=
  ((bytewiseCompare a.dayUtc b.dayUtc).then (compare a.connectorId b.connectorId)).then
    (bytewiseCompare a.pollutantCode b.pollutantCode)

def daySummary (host : Host) (dayUtc : String) (scopedRoots : List ScopedRoot) : JsValue :=
  .obj [("day_utc", .str dayUtc),
    ("row_count", .num (host.sumText (scopedRoots.map ScopedRoot.rowCount))),
    ("scoped_root_count", .int scopedRoots.length),
    ("connector_ids", .arr ((Sorting.sortBy compare
      (scopedRoots.map fun root ↦ root.connectorId).eraseDups).map JsValue.int)),
    ("pollutant_codes", .arr ((Sorting.sortBy bytewiseCompare
      (scopedRoots.map fun root ↦ root.pollutantCode).eraseDups).map JsValue.str)),
    ("scoped_roots", .arr (scopedRoots.map ScopedRoot.toValue))]

def latestPayload (host : Host) (roots : List ScopedRoot) (indexRoot latestKey : String) :
    JsValue :=
  let days := Sorting.sortBy bytewiseCompare (roots.map fun root ↦ root.dayUtc).eraseDups
  let sum := fun count : ScopedRoot → ℤ ↦ JsValue.num (host.sumText (roots.map count))
  let day := fun found : Option String ↦ (found.map JsValue.str).getD .undefined
  .obj [("schema_version", .int 3), ("kind", .str "observation_timeseries_latest_global"),
    ("index_generation", .str "v3"), ("history_version", .str "v2"), ("domain", .str "observations"),
    ("history_schema_version", .int 3), ("writer_version", .str "parquet-wasm-zstd-v3"),
    ("physical_layout_version", .str "timeseries-aligned-v2"), ("aligned_row_cap", .int 1024),
    ("exact_leaf_index_version", .str "exact-timeseries-leaf-v1"), ("index_root", .str indexRoot),
    ("min_day_utc", day days.head?), ("max_day_utc", day days.getLast?),
    ("day_count", .int days.length), ("scoped_root_count", .int roots.length),
    ("child_shard_count", sum ScopedRoot.childShardCount),
    ("physical_leaf_count", sum ScopedRoot.physicalLeafCount),
    ("physical_file_reference_count", sum ScopedRoot.physicalFileCount),
    ("total_rows", sum ScopedRoot.rowCount), ("days", .arr (days.map JsValue.str)),
    ("key_layout", .obj [
      ("scoped_manifest_key_template", .str (indexRoot ++ "/day_utc=\x7bday_utc\x7d"
        ++ "/connector_id=\x7bconnector_id\x7d/pollutant_code=\x7bpollutant_code\x7d/manifest.json")),
      ("exact_leaf_key_template", .str (indexRoot ++ "/day_utc=\x7bday_utc\x7d"
        ++ "/connector_id=\x7bconnector_id\x7d/pollutant_code=\x7bpollutant_code\x7d"
        ++ "/timeseries_id=\x7btimeseries_id_9\x7d.json")),
      ("aligned_source_index_root", .str (indexRoot ++ "/_aligned")),
      ("latest_key", .str latestKey)]),
    ("day_summaries", .arr (days.map fun dayUtc ↦
      daySummary host dayUtc (roots.filter fun root ↦ root.dayUtc = dayUtc)))]

/-! ## Validation -/

/-- A stored index object as its reader describes it. -/
structure Artifact where
  kind : String
  publicationStage : String
  key : String
  payload : JsValue
  body : String
  byteSize : ℤ
  sha256 : String

def artifactBodyIsExact (host : Host) (raw : Artifact) (expectedKind expectedStage : String) :
    Except String Artifact := do
  Except.refuseIf (raw.kind ≠ expectedKind ∨ raw.publicationStage ≠ expectedStage)
    s!"unexpected exact-leaf artifact kind/stage: {raw.key}"
  let bytes := utf8 raw.body
  Except.refuseIf (raw.body ≠ raw.payload.canonicalJson ∨ (bytes.length : ℤ) ≠ raw.byteSize ∨
      host.sha256Hex bytes ≠ raw.sha256)
    s!"exact-leaf artifact identity mismatch: {raw.key}"
  pure raw

/-- The scoped roots of one day summary, read after those of the summaries before it. -/
def registryRootsOfDay (host : Host) (indexRoot : String) (roots : List ScopedRoot)
    (entry : JsValue × ℕ) : Except String (List ScopedRoot) := do
  let scopedRoots := (((entry.1.optional "scoped_roots").items?).getD [])
  Except.refuseIf (scopedRoots = []) s!"compact latest day summary is empty: {entry.2}"
  scopedRoots.zipIdx.foldlM (fun roots raw ↦ do
    let root ← normalizedRegistryRoot host raw.1 indexRoot
      s!"day_summaries[{entry.2}].scoped_roots[{raw.2}]"
    Except.refuseIf (root.toScope ∈ roots.map ScopedRoot.toScope ∨
        root.key ∈ roots.map ScopedRoot.key)
      s!"compact latest has a duplicate scoped root: {root.key}"
    pure (roots ++ [root])) roots

/-- The scoped roots of a registry in their order. -/
def validateObservationHistoryExactLeafIndexV3LatestRegistry (host : Host) (raw : Artifact)
    (indexRoot latestKey : String) : Except String (List ScopedRoot) := do
  let root ← normalizePrefix indexRoot "indexRoot"
  let key ← normalizeKey (.str latestKey) "latestKey"
  let value ← artifactBodyIsExact host raw "observation_history_index_v3_latest_global"
    "latest_global"
  match if value.key = key then (value.payload.optional "day_summaries").items? else none with
  | none => throw s!"compact latest registry key or day summaries are invalid: {value.key}"
  | some daySummaries =>
    let roots ← daySummaries.zipIdx.foldlM (registryRootsOfDay host root) []
    Except.refuseIf (roots = []) "compact latest registry has no scoped roots"
    let orderedRoots := Sorting.sortBy compareScopes roots
    Except.refuseIf (value.payload.canonicalJson
        ≠ (latestPayload host orderedRoots root key).canonicalJson)
      "compact latest registry ordering or aggregate fields are contradictory"
    pure orderedRoots

end UkAqOps.Registry

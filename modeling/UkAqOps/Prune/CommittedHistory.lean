import UkAqOps.Prune.Identity
import UkAqOps.Registry.Latest

/-!
# The guard before committed history

`src/workers/uk_aq_prune_daily/committed_history_guard.mjs`: before the frozen rows of a
connector-day replace anything, the guard walks from the root manifest down to the connector and
consults the registry of index scopes. A connector that no authenticated parent lists is admitted as a
first publication. Whatever else is found, or cannot be read, blocks the replacement.
-/

namespace UkAqOps.Prune

open Hierarchy (MonthManifest YearManifest RootManifest AggregateManifest)
open Registry (ScopedRoot)

namespace Guard

/-! ## Reading the store -/

/-- What an error carries: the first of its status fields that is not missing, and its message. -/
structure ReadError where
  status : Option JsValue
  message : String

/-- What the store answers for a key. -/
inductive Answer where
  | found (body : List ℕ)
  /-- The answer says that the object does not exist. -/
  | absent
  | failed (error : ReadError)

/-- `String.toLowerCase` as far as a pattern of ASCII letters can tell. -/
def asciiLower (s : String) : String := String.ofList (s.toList.map Char.toLower)

/-- `/^(?:R2 GET failed \(404\)|NoSuchKey\b)/i`. -/
def isNotFoundMessage (message : String) : Bool :=
  let text := asciiLower message
  startsWithText text "r2 get failed (404)" ||
    (startsWithText text "nosuchkey" &&
      match text.toList[9]? with
      | none => true
      | some c => ¬(c.isAlphanum || c = '_'))

def isNotFound (host : Hierarchy.Host) (error : ReadError) : Bool :=
  match error.status with
  | some status => host.safeInteger status = some 404
  | none => isNotFoundMessage error.message

abbrev Store := String → Answer

/-- `none` where the object is known to be missing. -/
def readOptional (host : Hierarchy.Host) (store : Store) (key : String) :
    Except String (Option (List ℕ)) :=
  match store key with
  | .found body => .ok (some body)
  | .absent => .ok none
  | .failed error => if isNotFound host error then .ok none else .error error.message

/-- An object that must be there. -/
def readRequired (host : Hierarchy.Host) (store : Store) (key missing : String) :
    Except String (List ℕ) := do
  match ← readOptional host store key with
  | some body => pure body
  | none => throw missing

def parse (host : Hierarchy.Host) (body : List ℕ) (key : String) : Except String JsValue :=
  match host.parseJson (host.decodeUtf8 body) with
  | some value => .ok value
  | none => .error s!"Invalid canonical observation manifest JSON: {key}"

/-! ## Aggregate manifests -/

/-- The manifest under a key, which must be of the kind that `ofKind` selects and stored in its
canonical form. -/
def aggregate {α : Type} (host : Hierarchy.Host) (store : Store) (basePrefix key missing
    disagrees : String) (ofKind : AggregateManifest → Option α) : Except String α := do
  let body ← readRequired host store key missing
  let payload ← parse host body key
  let value ← Hierarchy.validateR2HistoryV2ObservationsAggregateManifest host payload basePrefix
  match ofKind value with
  | none => throw disagrees
  | some manifest =>
    let canonical ← Hierarchy.serializeR2HistoryV2ObservationsAggregateManifest host value basePrefix
    Except.refuseIf (body ≠ canonical) disagrees
    pure manifest

def ofMonth : AggregateManifest → Option MonthManifest
  | .month manifest => some manifest
  | _ => none

def ofYear : AggregateManifest → Option YearManifest
  | .year manifest => some manifest
  | _ => none

def ofRoot : AggregateManifest → Option RootManifest
  | .root manifest => some manifest
  | _ => none

def readRoot (host : Hierarchy.Host) (store : Store) (basePrefix key : String) :
    Except String RootManifest :=
  aggregate host store basePrefix key
    s!"Current observations root is missing; absence of committed history is unproven: {key}"
    s!"Committed observation root identity disagrees: {key}" ofRoot

def readAggregate {α : Type} (host : Hierarchy.Host) (store : Store) (basePrefix key : String)
    (ofKind : AggregateManifest → Option α) : Except String α :=
  aggregate host store basePrefix key
    s!"Committed observation hierarchy child is missing: {key}"
    s!"Committed observation hierarchy identity disagrees: {key}" ofKind

/-- The child that satisfies `p`, where at most one does. -/
def oneChild {α : Type} (children : List α) (p : α → Bool) (key : String) :
    Except String (Option α) :=
  match children.filter p with
  | [] => .ok none
  | [child] => .ok (some child)
  | _ => .error s!"Duplicate committed observation hierarchy child: {key}"

/-! ## Day, connector and pollutant manifests -/

/-- `normalizePrefix` of the canonical keys, which refuses nothing. -/
def keyPrefix (basePrefix : String) : String := stripSlashes (trimText basePrefix)

def normalizeDay (value : String) : Except String String :=
  let day := trimText value
  if (parseIsoDay day).isSome then .ok day
  else .error s!"Invalid canonical history UTC day: {value}"

def buildHistoryV2DayManifestKey (basePrefix dayUtc : String) : Except String String := do
  let day ← normalizeDay dayUtc
  pure (keyPrefix basePrefix ++ "/day_utc=" ++ day ++ "/manifest.json")

/-- The key of a connector's manifest without `/manifest.json`. -/
def connectorPath (basePrefix dayUtc : String) (connectorId : ℤ) : Except String String := do
  let day ← normalizeDay dayUtc
  pure (keyPrefix basePrefix ++ "/day_utc=" ++ day ++ "/connector_id=" ++ toString connectorId)

def buildHistoryV2ConnectorManifestKey (basePrefix dayUtc : String) (connectorId : ℤ) :
    Except String String := do
  let path ← connectorPath basePrefix dayUtc connectorId
  pure (path ++ "/manifest.json")

def normalizePollutant (host : Hierarchy.Host) (value : JsValue) : Except String String :=
  let pollutant := host.toLowerCase (trimText value.orBlank)
  if Registry.isPollutantCode pollutant then .ok pollutant
  else .error s!"Invalid pollutant_code for R2 path: {value.orBlank}"

def buildHistoryV2PollutantManifestKey (host : Hierarchy.Host) (basePrefix dayUtc : String)
    (connectorId : ℤ) (pollutantCode : JsValue) : Except String String := do
  let path ← connectorPath basePrefix dayUtc connectorId
  let pollutant ← normalizePollutant host pollutantCode
  pure (path ++ "/pollutant_code=" ++ pollutant ++ "/manifest.json")

def nonNegativeSafeInteger (host : Hierarchy.Host) (value : JsValue) (fieldName : String) :
    Except String ℤ :=
  let invalid := s!"Canonical history manifest {fieldName} is invalid"
  match value with
  | .null | .undefined | .bool _ => .error invalid
  | value =>
    match if value.isBlankText then none else host.safeInteger value with
    | some n => if 0 ≤ n then .ok n else .error invalid
    | none => .error invalid

/-- What a canonical manifest is validated to. -/
structure ManifestSummary where
  manifestHash : String
  sourceRowCount : ℤ
  fileCount : ℤ
  totalBytes : ℤ

/-- `{ manifest_hash: _ignored, ...payload } = manifest`. -/
def withoutHash : JsValue → JsValue
  | .obj fields => .obj (fields.filter fun p ↦ p.1 ≠ "manifest_hash")
  | value => value

def validateCanonicalHistoryV2Manifest (host : Hierarchy.Host) (manifest : JsValue)
    (expected : List (String × JsValue)) : Except String ManifestSummary := do
  Except.refuseIf (manifest.isObject = false) "Canonical history manifest must be an object"
  let manifestHash := trimText (manifest.optional "manifest_hash").orBlank
  Except.refuseIf (isSha256Hex manifestHash = false)
    "Canonical history manifest_hash must be lowercase SHA-256 hex"
  Except.refuseIf (host.sha256Hex (utf8 (withoutHash manifest).stringify) ≠ manifestHash)
    "Canonical history manifest hash verification failed"
  Except.refuseIf ((manifest.optional "history_version").isText "v2" = false)
    "Canonical history manifest must use history_version=v2"
  expected.forM fun field ↦
    Except.refuseIf ((manifest.optional field.1).strictEq field.2 = false)
      s!"Canonical history manifest {field.1} identity mismatch"
  let sourceRows ← nonNegativeSafeInteger host (manifest.optional "source_row_count")
    "source_row_count"
  let rows ← nonNegativeSafeInteger host (manifest.optional "row_count") "row_count"
  let fileCount ← nonNegativeSafeInteger host (manifest.optional "file_count") "file_count"
  let totalBytes ← nonNegativeSafeInteger host (manifest.optional "total_bytes") "total_bytes"
  Except.refuseIf (rows ≠ sourceRows) "Canonical history manifest row counts disagree"
  let files := ((manifest.optional "files").items?).getD []
  Except.refuseIf ((files.length : ℤ) ≠ fileCount)
    "Canonical history manifest file_count disagrees with files"
  let bytes ← files.mapM fun file ↦
    nonNegativeSafeInteger host (file.optional "bytes") "files[].bytes"
  Except.refuseIf (bytes.sum ≠ totalBytes)
    "Canonical history manifest total_bytes disagrees with files"
  pure ⟨manifestHash, sourceRows, fileCount, totalBytes⟩

/-- The identity that every observation manifest of a key must have. -/
def expectedIdentity (key : String) (own : List (String × JsValue)) : List (String × JsValue) :=
  [("history_version", .str "v2"), ("domain", .str "observations"), ("manifest_key", .str key)] ++ own

def manifest (host : Hierarchy.Host) (store : Store) (key : String)
    (expected : List (String × JsValue)) (pinnedHash : JsValue) : Except String JsValue := do
  let body ← readRequired host store key s!"Committed observation manifest is missing: {key}"
  let value ← parse host body key
  let _ ← validateCanonicalHistoryV2Manifest host value (expectedIdentity key expected)
  Except.refuseIf ((value.optional "manifest_hash").strictEq pinnedHash = false)
    s!"Committed observation manifest identity disagrees: {key}"
  pure value

/-- The children of a manifest, which lists them under two names. -/
def matchingReferences (parent : JsValue) (primary secondary field expectedKey : String) :
    Except String (List JsValue) :=
  match (parent.optional primary).items?, (parent.optional secondary).items? with
  | some children, some aliases =>
    if (JsValue.arr children).stringify ≠ (JsValue.arr aliases).stringify then
      .error s!"Committed observation manifest child aliases disagree: {expectedKey}"
    else if children.Pairwise fun a b ↦ (a.optional field).strictEq (b.optional field) = false then
      .ok children
    else .error s!"Duplicate committed observation manifest child: {expectedKey}"
  | _, _ => .error s!"Committed observation manifest child aliases disagree: {expectedKey}"

/-! ## The registry of index scopes -/

def currentIndexAuthority (host : Hierarchy.Host) (store : Store) (dayUtc : String)
    (connectorId : ℤ) : Except String (List ScopedRoot) := do
  let key := Registry.defaultLatestKey
  let body ← readRequired host store key s!"Current index_v3 latest authority is missing: {key}"
  let payload ← parse host body key
  Except.refuseIf (host.decodeUtf8 body ≠ payload.canonicalJson)
    s!"Current index_v3 latest authority is not canonical: {key}"
  let roots ← Registry.validateObservationHistoryExactLeafIndexV3LatestRegistry host
    { kind := "observation_history_index_v3_latest_global"
      publicationStage := "latest_global"
      key, payload
      body := host.decodeUtf8 body
      byteSize := body.length
      sha256 := host.sha256Hex body } Registry.defaultIndexRoot key
  pure (roots.filter fun root ↦ root.dayUtc = dayUtc && root.connectorId = connectorId)

/-- `Number.isSafeInteger(value)`. -/
def isSafeInteger (value : JsValue) : Bool :=
  match value with
  | .num t =>
    match parseBigInt t with
    | some n => toString n = t && -maxSafeInteger ≤ n && n ≤ maxSafeInteger
    | none => false
  | _ => false

def pinnedIndexJson (host : Hierarchy.Host) (store : Store) (reference : JsValue)
    (expectedKey : String) : Except String JsValue := do
  let byteSize := reference.optional "byte_size"
  Except.refuseIf ((reference.optional "key").isText expectedKey = false ∨
      isSafeInteger byteSize = false ∨ isSha256Hex (reference.optional "sha256").orBlank = false)
    s!"Current index_v3 reference is invalid: {expectedKey}"
  let disagrees := s!"Current index_v3 pinned identity disagrees: {expectedKey}"
  let body ← readRequired host store expectedKey disagrees
  Except.refuseIf (byteSize.isInt body.length = false ∨
      (reference.optional "sha256").isText (host.sha256Hex body) = false) disagrees
  let payload ← parse host body expectedKey
  Except.refuseIf (host.decodeUtf8 body ≠ payload.canonicalJson)
    s!"Current index_v3 object is not canonical: {expectedKey}"
  pure payload

/-- The fields that the scoped and the aligned manifest of a scope must have. -/
def isOfScope (value : JsValue) (kind : JsValue) (kindText : String) (root : ScopedRoot) : Bool :=
  kind.isText kindText && (value.optional "index_generation").isText "v3" &&
    (value.optional "history_version").isText "v2" && (value.optional "day_utc").isText root.dayUtc &&
    (value.optional "connector_id").isInt root.connectorId &&
    (value.optional "pollutant_code").isText root.pollutantCode

def verifyCommittedIndexBinding (host : Hierarchy.Host) (store : Store) (root : ScopedRoot)
    (pollutant : JsValue) (pollutantBody : List ℕ) : Except String Unit := do
  let indexRoot := Registry.defaultIndexRoot
  let scope := Registry.scopePath root.toScope
  let scopedManifest ← pinnedIndexJson host store root.toValue
    (indexRoot ++ "/" ++ scope ++ "/manifest.json")
  let scopedKind ← scopedManifest.property "kind"
  Except.refuseIf
    (isOfScope scopedManifest scopedKind "observation_timeseries_physical_leaf_scoped_manifest" root
        = false ∨
      ((scopedManifest.optional "coverage").optional "row_count").isInt root.rowCount = false ∨
      (pollutant.optional "row_count").isInt root.rowCount = false)
    s!"Current index_v3 scoped coverage disagrees: {root.key}"
  let alignedKey := indexRoot ++ "/_aligned/" ++ scope ++ "/manifest.json"
  let aligned ← pinnedIndexJson host store (scopedManifest.optional "source_aligned_scoped_manifest")
    alignedKey
  let canonical ← aligned.property "canonical_source_manifest"
  let same := fun name pollutantName : String ↦
    (canonical.optional name).strictEq (pollutant.optional pollutantName)
  Except.refuseIf
    (isOfScope aligned (aligned.optional "kind") "observation_timeseries_aligned_source_manifest" root
        = false ∨ same "key" "manifest_key" = false ∨
      (canonical.optional "byte_size").isInt pollutantBody.length = false ∨
      (canonical.optional "sha256").isText (host.sha256Hex pollutantBody) = false ∨
      same "manifest_hash" "manifest_hash" = false ∨
      same "observation_content_hash" "observation_content_hash" = false ∨
      same "row_count" "row_count" = false)
    s!"Current index_v3 canonical binding disagrees: {alignedKey}"

/-! ## The hashes of observations -/

def observationContentHashPrefix : String := "uk-aq-observation-content-hash:v1\n"

/-- `computeObservationContentHash(rows).observation_content_hash` of a partition with rows. The
checks of a row are those of `normalizePruneConnectorSourceRow`. -/
def computeObservationContentHash (host : Hierarchy.Host) (rows : List CanonicalRow) :
    Except String String := do
  let canonicalRows ← rows.mapM normalizePruneConnectorSourceRow
  let encodedRows := (canonicalRows.map encodeCanonicalObservationRow).mergeSort bytewiseLe
  pure (host.sha256Hex
    (utf8 (observationContentHashPrefix ++ String.join (encodedRows.map (· ++ "\n")))))

def contentHashColumns (measurementOnly : Bool) : List String :=
  ["connector_id", "station_id", "timeseries_id", "pollutant_code", "observed_at_utc", "value"]
    ++ if measurementOnly then [] else ["verification_status"]

/-- `Object.hasOwn(value, name)`. -/
def hasOwn (value : JsValue) (name : String) : Bool :=
  match value with
  | .obj fields => fields.any fun p ↦ p.1 = name
  | _ => false

/-- A value that is a safe integer and not negative. -/
def countOf (value : JsValue) : Option ℤ :=
  match value with
  | .num t =>
    match parseBigInt t with
    | some n => if isSafeInteger value && 0 ≤ n then some n else none
    | none => none
  | _ => none

def validateVerificationStatusCounts (counts rowCount : JsValue) : Except String Unit := do
  let names := ["P", "R", "null"]
  let size := match counts with
    | .obj fields => fields.length
    | _ => 0
  Except.refuseIf (size ≠ 3 ∨ ¬names.all (hasOwn counts))
    "verification_status_counts keys are invalid"
  match names.mapM fun name ↦ countOf (counts.optional name) with
  | none => throw "verification_status_counts values are invalid"
  | some values =>
    Except.refuseIf (rowCount.isInt values.sum = false)
      "verification_status_counts do not sum to the hash row count"

def validateObservationContentHashMetadata (metadata rowCount : JsValue) : Except String Unit := do
  let hash := metadata.optional "observation_content_hash"
  let version := metadata.optional "observation_content_hash_contract_version"
  let hashRowCount := metadata.optional "observation_content_hash_row_count"
  let columns := metadata.optional "observation_content_hash_columns"
  Except.refuseIf (metadata.isObject = false)
    "observation content hash metadata must be an object"
  Except.refuseIf (hash.isText hash.text = false ∨ isSha256Hex hash.text = false)
    "observation_content_hash must be lower-case SHA-256"
  Except.refuseIf ((metadata.optional "observation_content_hash_algorithm").isText "sha256" = false)
    "unsupported observation content hash algorithm"
  Except.refuseIf (version.isInt 1 = false ∧ version.isInt 2 = false)
    "unsupported observation content hash contract version"
  Except.refuseIf ((countOf hashRowCount).isNone ∨ hashRowCount.strictEq rowCount = false)
    "observation content hash row count is invalid"
  Except.refuseIf (columns.items?.map (fun items ↦ (JsValue.arr items).stringify)
      ≠ some (JsValue.arr ((contentHashColumns (version.isInt 2)).map JsValue.str)).stringify)
    "observation content hash columns are invalid"
  if version.isInt 2 then
    Except.refuseIf (hasOwn metadata "verification_status_counts")
      "measurement content hash metadata must not contain verification status counts"
  else validateVerificationStatusCounts (metadata.optional "verification_status_counts") hashRowCount

/-! ## What the guard throws -/

structure GuardError where
  dayUtc : String
  connectorId : ℤ
  previousAuthority : String
  reason : String
  nextAction : String
  isolatable : Bool
deriving DecidableEq

def GuardError.message (error : GuardError) : String :=
  s!"Prune Daily canonical replacement blocked for connector={error.connectorId} day_utc={
    error.dayUtc}: previous_authority={error.previousAuthority}; reason={error.reason}; next_action={
    error.nextAction}; retain IngestDB rows"

inductive Thrown where
  | guard (error : GuardError)
  | error (message : String)
deriving DecidableEq

def Thrown.message : Thrown → String
  | .guard refusal => refusal.message
  | .error message => message

/-- An ordinary error inside the guard. -/
def plain {α : Type} (x : Except String α) : Except Thrown α := x.mapError Thrown.error

theorem plain_ok {α : Type} (a : α) : plain (.ok a) = .ok a := rfl

@[simp] theorem plain_eq_ok_iff {α : Type} {x : Except String α} {a : α} :
    plain x = .ok a ↔ x = .ok a := by
  cases x <;> simp [plain, Except.mapError]

/-! ## The walk -/

structure Snapshot where
  observationsPrefix : String
  dayUtc : String
  connectorId : ℤ
  rows : List CanonicalRow

/-- An admission, which always is a first publication without previous authority. It tells which
parent vouches for the absence, and of what. -/
structure Admission where
  rootKey : String
  hierarchyKeys : List String
  parentKey : String
  childField : String
  childIdentity : JsValue

/-- The differences between the frozen rows of a pollutant and the committed ones. -/
def partitionDifference (host : Hierarchy.Host) (pollutant : JsValue) (code : String)
    (partition : List CanonicalRow) : Except String (Option String) := do
  let differs := some s!"frozen observations differ from committed pollutant={code}"
  if (pollutant.optional "observation_content_hash_contract_version").isInt 1 = false then
    pure differs
  else
    let hash ← computeObservationContentHash host partition
    pure (if (pollutant.optional "observation_content_hash").isText hash &&
        (pollutant.optional "observation_content_hash_row_count").isInt partition.length then none
      else differs)

/-- One committed pollutant: everything that is recorded of it must agree. The result is how the
frozen rows differ from it. -/
def inspectPollutant (host : Hierarchy.Host) (store : Store) (snapshot : Snapshot)
    (indexRoots : List ScopedRoot) (child : JsValue) : Except String (Option String) := do
  let codeValue ← child.property "pollutant_code"
  let code := codeValue.text
  let childKey ← buildHistoryV2PollutantManifestKey host snapshot.observationsPrefix snapshot.dayUtc
    snapshot.connectorId codeValue
  Except.refuseIf ((child.optional "manifest_key").isText childKey = false)
    s!"Committed pollutant key disagrees for pollutant={code}"
  match indexRoots.find? fun entry ↦ codeValue.isText entry.pollutantCode with
  | none => throw s!"Committed pollutant={code} has no final index_v3 scope"
  | some indexRoot =>
    let body ← readRequired host store childKey s!"Committed pollutant manifest is missing: {childKey}"
    let pollutant ← parse host body childKey
    let _ ← validateCanonicalHistoryV2Manifest host pollutant
      [("history_version", .str "v2"), ("domain", .str "observations"),
        ("manifest_kind", .str "pollutant"), ("day_utc", .str snapshot.dayUtc),
        ("connector_id", .int snapshot.connectorId), ("pollutant_code", codeValue),
        ("manifest_key", .str childKey)]
    Except.refuseIf
      ((pollutant.optional "manifest_hash").strictEq (child.optional "manifest_hash") = false)
      s!"original complete publication identity cannot be proved after same-key child advance: {
        childKey}"
    validateObservationContentHashMetadata pollutant (pollutant.optional "row_count")
    verifyCommittedIndexBinding host store indexRoot pollutant body
    match snapshot.rows.filter fun row ↦ row.pollutantCode = code with
    | [] => pure (some s!"frozen source omits committed pollutant={code}")
    | row :: rest => partitionDifference host pollutant code (row :: rest)

/-- The connector is committed: what the frozen rows differ in, once all that is recorded of it has
been found to agree. -/
def inspectConnector (host : Hierarchy.Host) (store : Store) (snapshot : Snapshot)
    (indexRoots : List ScopedRoot) (connectorKey : String) (connectorRef : JsValue) :
    Except String (List String) := do
  let connector ← manifest host store connectorKey
    [("manifest_kind", .str "connector"), ("day_utc", .str snapshot.dayUtc),
      ("connector_id", .int snapshot.connectorId)] (connectorRef.optional "manifest_hash")
  let children ← matchingReferences connector "pollutant_manifests" "child_manifests"
    "pollutant_code" connectorKey
  Except.refuseIf (indexRoots.length ≠ children.length ∨
      (indexRoots.map fun root ↦ root.pollutantCode).eraseDups.length ≠ children.length)
    "Committed pollutant set and final index_v3 scopes disagree"
  let differences ← children.mapM (inspectPollutant host store snapshot indexRoots)
  let codes := (snapshot.rows.map CanonicalRow.pollutantCode).eraseDups
  let sets := if children.length ≠ codes.length then
    ["frozen pollutant child set differs from committed history"] else []
  pure (sets ++ differences.filterMap id)

def reconcile : String := "authorised_canonical_reconciliation_required"

/-- The refusal of a connector that is committed. -/
def refuseCommitted (host : Hierarchy.Host) (store : Store) (snapshot : Snapshot)
    (indexRoots : List ScopedRoot) (connectorKey : String) (connectorRef : JsValue) : Thrown :=
  let hash := (connectorRef.optional "manifest_hash").text
  let authority := s!"{connectorKey}#{hash}"
  if indexRoots = [] then
    .error ("Committed connector has no final index_v3 scope; "
      ++ "original unfinished attempt identity is unavailable")
  else match inspectConnector host store snapshot indexRoots connectorKey connectorRef with
    | .error message => .error s!"complete replacement authority cannot be authenticated: {message}"
    | .ok [] => .guard ⟨snapshot.dayUtc, snapshot.connectorId, authority,
        "verified already-committed identical history; original Prune attempt and complete source "
          ++ "identity cannot be proved from canonical content alone",
        "review_original_publication_evidence_or_duplicate_historical_rows", true⟩
    | .ok differences => .guard ⟨snapshot.dayUtc, snapshot.connectorId, authority,
        takeText ("; ".intercalate differences) 1800, reconcile, true⟩

/-- `firstPublication(parentKey, childField, childIdentity)`. -/
def firstPublication (snapshot : Snapshot) (indexRoots : List ScopedRoot) (rootKey : String)
    (hierarchyKeys : List String) (parentKey childField : String) (childIdentity : JsValue) :
    Except Thrown Admission := do
  let day := snapshot.dayUtc
  let connector := snapshot.connectorId
  plain (Except.refuseIf (indexRoots ≠ [])
    s!"Current index_v3 authority contradicts absent connector hierarchy: {day}/{connector}")
  pure ⟨rootKey, hierarchyKeys, parentKey, childField, childIdentity⟩

/-- The walk below an authenticated day. -/
def inspectDay (host : Hierarchy.Host) (store : Store) (snapshot : Snapshot)
    (indexRoots : List ScopedRoot) (keys : List String) (rootKey dayKey : String)
    (day : JsValue) : Except Thrown Admission := do
  let connectors ← plain (matchingReferences day "connector_manifests" "child_manifests"
    "connector_id" dayKey)
  match ← plain (oneChild connectors
      (fun child ↦ (child.optional "connector_id").isInt snapshot.connectorId) dayKey) with
  | none =>
    firstPublication snapshot indexRoots rootKey keys dayKey "connector_id"
      (.int snapshot.connectorId)
  | some connectorRef =>
    let connectorKey ← plain (buildHistoryV2ConnectorManifestKey snapshot.observationsPrefix
      snapshot.dayUtc snapshot.connectorId)
    plain (Except.refuseIf ((connectorRef.optional "manifest_key").isText connectorKey = false)
      s!"Committed observation connector key disagrees: {dayKey}")
    throw (refuseCommitted host store snapshot indexRoots connectorKey connectorRef)

/-- The walk below an authenticated month. -/
def inspectMonth (host : Hierarchy.Host) (store : Store) (snapshot : Snapshot)
    (indexRoots : List ScopedRoot) (keys : List String) (rootKey monthKey : String)
    (month : MonthManifest) : Except Thrown Admission := do
  let dayKey ← plain (buildHistoryV2DayManifestKey snapshot.observationsPrefix snapshot.dayUtc)
  match ← plain (oneChild month.children (fun child ↦ child.dayUtc = snapshot.dayUtc) monthKey) with
  | none =>
    firstPublication snapshot indexRoots rootKey keys monthKey "day_utc" (.str snapshot.dayUtc)
  | some dayRef =>
    plain (Except.refuseIf (dayRef.manifestKey ≠ dayKey)
      s!"Committed observation day key disagrees: {monthKey}")
    let day ← plain (manifest host store dayKey
      [("manifest_kind", .str "day"), ("day_utc", .str snapshot.dayUtc)] (.str dayRef.manifestHash))
    inspectDay host store snapshot indexRoots (keys ++ [dayKey]) rootKey dayKey day

/-- The year and the month that the text of the day names. -/
def Snapshot.year (snapshot : Snapshot) : ℤ := Hierarchy.dayYear snapshot.dayUtc
def Snapshot.month (snapshot : Snapshot) : String := Hierarchy.dayMonth snapshot.dayUtc

/-- The walk below an authenticated year. -/
def inspectYear (host : Hierarchy.Host) (store : Store) (snapshot : Snapshot)
    (indexRoots : List ScopedRoot) (keys : List String) (rootKey yearKey : String)
    (year : YearManifest) : Except Thrown Admission := do
  let monthKey ← plain (Hierarchy.buildR2HistoryV2ObservationsMonthManifestKey
    snapshot.observationsPrefix (.int snapshot.year) (.str snapshot.month))
  match ← plain (oneChild year.children (fun child ↦ child.month = snapshot.month) yearKey) with
  | none =>
    firstPublication snapshot indexRoots rootKey keys yearKey "month" (.str snapshot.month)
  | some monthRef =>
    plain (Except.refuseIf (monthRef.manifestKey ≠ monthKey)
      s!"Committed observation month key disagrees: {yearKey}")
    let month ← plain (readAggregate host store snapshot.observationsPrefix monthKey ofMonth)
    plain (Except.refuseIf (month.year ≠ snapshot.year ∨ month.month ≠ snapshot.month ∨
        month.contentHash ≠ monthRef.contentHash)
      s!"Committed observation month identity disagrees: {monthKey}")
    inspectMonth host store snapshot indexRoots (keys ++ [monthKey]) rootKey monthKey month

/-- The walk below the authenticated root. -/
def inspectRoot (host : Hierarchy.Host) (store : Store) (snapshot : Snapshot)
    (indexRoots : List ScopedRoot) (rootKey : String) (root : RootManifest) :
    Except Thrown Admission := do
  let yearKey ← plain (Hierarchy.buildR2HistoryV2ObservationsYearManifestKey
    snapshot.observationsPrefix (.int snapshot.year))
  match ← plain (oneChild root.children (fun child ↦ child.year = snapshot.year) rootKey) with
  | none =>
    firstPublication snapshot indexRoots rootKey [rootKey] rootKey "year" (.int snapshot.year)
  | some yearRef =>
    plain (Except.refuseIf (yearRef.manifestKey ≠ yearKey)
      s!"Committed observation year key disagrees: {rootKey}")
    let year ← plain (readAggregate host store snapshot.observationsPrefix yearKey ofYear)
    plain (Except.refuseIf (year.year ≠ snapshot.year ∨ year.contentHash ≠ yearRef.contentHash)
      s!"Committed observation year identity disagrees: {yearKey}")
    inspectYear host store snapshot indexRoots [rootKey, yearKey] rootKey yearKey year

def inspectPruneFrozenConnectorSnapshot (host : Hierarchy.Host) (store : Store)
    (snapshot : Snapshot) : Except Thrown Admission := do
  let rootKey ← plain
    (Hierarchy.buildR2HistoryV2ObservationsRootManifestKey snapshot.observationsPrefix)
  let root ← plain (readRoot host store snapshot.observationsPrefix rootKey)
  let indexRoots ← plain (currentIndexAuthority host store snapshot.dayUtc snapshot.connectorId)
  inspectRoot host store snapshot indexRoots rootKey root

/-- The `catch` of the guard: whatever is thrown becomes a guard error. Naming the root in it can
itself fail. -/
def asGuardError (snapshot : Snapshot) : Thrown → Except Thrown Admission
  | .guard refusal => .error (.guard refusal)
  | .error message => do
    let rootKey ← plain
      (Hierarchy.buildR2HistoryV2ObservationsRootManifestKey snapshot.observationsPrefix)
    throw (.guard ⟨snapshot.dayUtc, snapshot.connectorId,
      s!"{rootKey} (connector authority unverified)",
      s!"committed hierarchy could not be authenticated: {message}",
      "repair_or_authenticate_canonical_root_and_index_before_prune", false⟩)

def admitPruneFrozenConnectorSnapshot (host : Hierarchy.Host) (store : Store)
    (snapshot : Snapshot) : Except Thrown Admission :=
  tryCatch (inspectPruneFrozenConnectorSnapshot host store snapshot) (asGuardError snapshot)

end Guard

end UkAqOps.Prune

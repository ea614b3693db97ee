import Std.Data.String.ToInt
import UkAqOps.Js.Parse
import UkAqOps.Lib.Framing
import UkAqOps.Registry.Latest

/-!
# Updating the registry

`updateObservationHistoryExactLeafIndexV3Latest` reads the registry that is stored, replaces and
removes scopes, and writes the registry of what is left. A registry is read as what it was built
from, so a run of updates ends with the registry that would be built from the scopes that survive.
-/

namespace UkAqOps.Registry

open Hierarchy (Host)

/-! ## Writing -/

/-- The manifest of a scope as it is stored, with the fields of its payload that the registry
reads. -/
structure ScopedManifest extends Scope, Artifact where
  rowCount : ℤ
  timeseriesCount : ℤ
  physicalLeafCount : ℤ
  physicalFileCount : ℤ
  minObservedAtUtc : String
  maxObservedAtUtc : String
  /-- The fields are those of the payload. -/
  reads_scope : payload.optional "day_utc" = .str dayUtc ∧
    payload.optional "connector_id" = .int connectorId ∧
    payload.optional "pollutant_code" = .str pollutantCode
  reads_coverage : ∀ field ∈ [("row_count", .int rowCount),
      ("timeseries_count", .int timeseriesCount), ("physical_leaf_count", .int physicalLeafCount),
      ("physical_file_count", .int physicalFileCount),
      ("min_observed_at_utc", .str minObservedAtUtc),
      ("max_observed_at_utc", .str maxObservedAtUtc)],
    (payload.optional "coverage").optional field.1 = field.2

/-- A leaf as it is stored, with the series that its payload names. -/
structure ExactLeaf extends Artifact where
  timeseriesId : ℤ
  reads_timeseriesId : payload.optional "timeseries_id" = .int timeseriesId

structure ScopedHierarchy where
  scopedManifest : ScopedManifest
  exactLeaves : Option (List ExactLeaf)
  childShards : Option (List ExactLeaf)

def decodeProfileColumn (physicalType : String) (schemaElement : List (String × JsValue)) :
    JsValue :=
  .obj [("physical_type", .str physicalType), ("codec", .str "ZSTD"),
    ("schema_element", .obj schemaElement)]

/-- `OBSERVATION_HISTORY_EXACT_LEAF_DECODE_PROFILE`. -/
def exactLeafDecodeProfile : JsValue :=
  .obj [("version", .str "hyparquet-direct-column-v1"), ("hyparquet_version", .str "1.25.1"),
    ("page_headers", .str "included_in_column_chunk_ranges"),
    ("root_schema_element", .obj [("repetition_type", .str "REQUIRED"), ("name", .str "schema"),
      ("num_children", .int 7)]),
    ("columns", .obj [
      ("observed_at_utc", decodeProfileColumn "INT64" [("type", .str "INT64"),
        ("repetition_type", .str "OPTIONAL"), ("name", .str "observed_at_utc"),
        ("converted_type", .str "TIMESTAMP_MILLIS"),
        ("logical_type", .obj [("type", .str "TIMESTAMP"), ("isAdjustedToUTC", .bool false),
          ("unit", .str "MILLIS")])]),
      ("value", decodeProfileColumn "DOUBLE" [("type", .str "DOUBLE"),
        ("repetition_type", .str "OPTIONAL"), ("name", .str "value")])])]

def validateObservationHistoryExactLeafArtifactV3 (host : Host) (leaf : ExactLeaf) :
    Except String ExactLeaf := do
  let value ← artifactBodyIsExact host leaf.toArtifact
    "observation_history_index_v3_exact_leaf" "child_shard"
  let field := value.payload.optional
  Except.refuseIf ((field "kind").isText "observation_timeseries_physical_leaf" = false ∨
      (field "physical_layout_version").isText "timeseries-aligned-v2" = false ∨
      (field "aligned_row_cap").isInt 1024 = false ∨
      (field "exact_leaf_index_version").isText "exact-timeseries-leaf-v1" = false ∨
      (field "segments").items?.isNone ∨ (field "files").items?.isNone)
    s!"exact-leaf payload is contradictory: {value.key}"
  pure leaf

/-- The leaves by the texts of their series: of two leaves of one series the later one counts. -/
def leavesByTimeseriesId (leaves : List ExactLeaf) : JsValue :=
  .obj (OrderedMap.ofList ((Sorting.sortBy (fun a b ↦ compare a.timeseriesId b.timeseriesId)
    leaves).map fun leaf ↦ (toString leaf.timeseriesId,
      JsValue.arr [.str leaf.key, .int leaf.byteSize, .str leaf.sha256]))).entries

def validateObservationHistoryExactLeafScopedManifestArtifactV3 (host : Host)
    (manifest : ScopedManifest) (exactLeaves : Option (List ExactLeaf)) :
    Except String ScopedManifest := do
  let value ← artifactBodyIsExact host manifest.toArtifact
    "observation_history_index_v3_exact_leaf_scoped_manifest" "scoped_manifest"
  Except.refuseIf
    ((value.payload.optional "kind").isText
        "observation_timeseries_physical_leaf_scoped_manifest" = false ∨
      (value.payload.optional "decode_profile").canonicalJson
        ≠ exactLeafDecodeProfile.canonicalJson)
    s!"exact-leaf scoped payload is contradictory: {value.key}"
  let leaves ← (exactLeaves.getD []).mapM (validateObservationHistoryExactLeafArtifactV3 host)
  Except.refuseIf ((value.payload.optional "leaves_by_timeseries_id").canonicalJson
      ≠ (leavesByTimeseriesId leaves).canonicalJson)
    s!"exact-leaf scoped membership is incomplete: {value.key}"
  pure manifest

def scopedRootDescriptor (manifest : ScopedManifest) : ScopedRoot where
  toScope := manifest.toScope
  key := manifest.key
  byteSize := manifest.byteSize
  sha256 := manifest.sha256
  rowCount := manifest.rowCount
  timeseriesCount := manifest.timeseriesCount
  childShardCount := manifest.physicalLeafCount
  physicalLeafCount := manifest.physicalLeafCount
  physicalFileCount := manifest.physicalFileCount
  minObservedAtUtc := manifest.minObservedAtUtc
  maxObservedAtUtc := manifest.maxObservedAtUtc

structure Dependency where
  key : String
  byteSize : ℤ
  sha256 : String
  kind : String

/-- `identity(root, "scoped root", "scoped_manifest")`. -/
def identity (host : Host) (root : ScopedRoot) : Except String Dependency := do
  let key ← normalizeKey (.str root.key) "scoped root.key"
  let byteSize ← integer host (.int root.byteSize) "scoped root.byte_size"
  let sha256 ← exactSha256 (.str root.sha256) "scoped root.sha256"
  pure ⟨key, byteSize, sha256, "scoped_manifest"⟩

structure LatestArtifact extends Artifact where
  dependencies : List Dependency

def latestArtifactFromRoots (host : Host) (roots : List ScopedRoot) (indexRoot latestKey : String) :
    Except String LatestArtifact := do
  let payload := latestPayload host roots indexRoot latestKey
  let body := payload.canonicalJson
  let dependencies ← roots.mapM (identity host)
  let key ← normalizeKey (.str latestKey) "observation_history_index_v3_latest_global.key"
  pure {
    kind := "observation_history_index_v3_latest_global"
    publicationStage := "latest_global"
    key := key
    payload := payload
    body := body
    byteSize := (utf8 body).length
    sha256 := host.sha256Hex (utf8 body)
    dependencies := Sorting.sortBy (fun a b ↦ bytewiseCompare a.key b.key) dependencies }

def exactScopedManifest (host : Host) (manifest : ScopedManifest) : Except String ScopedRoot := do
  let _ ← artifactBodyIsExact host manifest.toArtifact
    "observation_history_index_v3_exact_leaf_scoped_manifest" "scoped_manifest"
  pure (scopedRootDescriptor manifest)

/-- The manifest of a hierarchy, once its leaves are known to be those that it lists. -/
def ScopedHierarchy.validated (host : Host) (hierarchy : ScopedHierarchy) :
    Except String ScopedManifest :=
  validateObservationHistoryExactLeafScopedManifestArtifactV3 host hierarchy.scopedManifest
    (hierarchy.exactLeaves.or hierarchy.childShards)

def rootsFromHierarchies (host : Host) (scopedHierarchies : List ScopedHierarchy) :
    Except String (List ScopedRoot) := do
  Except.refuseIf scopedHierarchies.isEmpty "exact-leaf latest requires scoped hierarchies"
  let manifests ← scopedHierarchies.mapM (ScopedHierarchy.validated host)
  pure (Sorting.sortBy compareScopes (manifests.map scopedRootDescriptor))

def buildObservationHistoryExactLeafIndexV3Latest (host : Host)
    (scopedHierarchies : List ScopedHierarchy) (indexRoot latestKey : String) :
    Except String LatestArtifact := do
  let roots ← rootsFromHierarchies host scopedHierarchies
  let root ← normalizePrefix indexRoot "indexRoot"
  let key ← normalizeKey (.str latestKey) "latestKey"
  latestArtifactFromRoots host roots root key

/-- What one update replaces and removes. -/
structure Update where
  replacementScopedManifests : List ScopedManifest
  removedScopes : List JsValue

/-- The loop over the manifests of an update. -/
def replaceRoots (host : Host) (manifests : List ScopedManifest)
    (byScope : OrderedMap Scope ScopedRoot) : Except String (OrderedMap Scope ScopedRoot) :=
  manifests.foldlM (fun byScope manifest ↦ do
    let descriptor ← exactScopedManifest host manifest
    pure (byScope.set descriptor.toScope descriptor)) byScope

/-- The loop over the scopes that an update removes. -/
def removeScopes (host : Host) (scopes : List JsValue) (byScope : OrderedMap Scope ScopedRoot) :
    Except String (OrderedMap Scope ScopedRoot) :=
  scopes.foldlM (fun byScope scope ↦ do
    let removed ← normalizeScope host scope
    pure (byScope.delete removed)) byScope

def updateObservationHistoryExactLeafIndexV3Latest (host : Host) (existingLatest : Artifact)
    (update : Update) (indexRoot latestKey : String) : Except String LatestArtifact := do
  let validatedLatest ←
    validateObservationHistoryExactLeafIndexV3LatestRegistry host existingLatest indexRoot latestKey
  -- a scope that is replaced keeps its place in the map; the order is made anew below
  let replaced ← replaceRoots host update.replacementScopedManifests
    (OrderedMap.ofList (validatedLatest.map fun root ↦ (root.toScope, root)))
  let byScope ← removeScopes host update.removedScopes replaced
  let roots := Sorting.sortBy compareScopes byScope.values
  Except.refuseIf roots.isEmpty "exact-leaf latest update cannot remove every scoped root"
  let root ← normalizePrefix indexRoot "indexRoot"
  let key ← normalizeKey (.str latestKey) "latestKey"
  latestArtifactFromRoots host roots root key

/-! ## The order of scopes -/

instance transCmp_compareScopes : Std.TransCmp compareScopes :=
  Sorting.transCmp_then
    (Sorting.transCmp_then
      (Sorting.transCmp_on (inferInstanceAs (Std.TransCmp bytewiseCompare))
        fun root : ScopedRoot ↦ root.dayUtc)
      (Sorting.transCmp_on (inferInstanceAs (Std.TransCmp (compare : ℤ → ℤ → Ordering)))
        fun root : ScopedRoot ↦ root.connectorId))
    (Sorting.transCmp_on (inferInstanceAs (Std.TransCmp bytewiseCompare))
      fun root : ScopedRoot ↦ root.pollutantCode)

theorem compareScopes_eq_iff {a b : ScopedRoot} :
    compareScopes a b = .eq ↔ a.toScope = b.toScope := by
  rw [compareScopes, Ordering.then_eq_eq, Ordering.then_eq_eq, bytewiseCompare_eq_iff,
    bytewiseCompare_eq_iff, compare_eq_iff_eq]
  constructor
  · rintro ⟨⟨hday, hconnector⟩, hpollutant⟩
    rcases a with ⟨⟨aDay, aConnector, aPollutant⟩, _⟩
    rcases b with ⟨⟨bDay, bConnector, bPollutant⟩, _⟩
    exact Scope.mk.injEq .. ▸ ⟨hday, hconnector, hpollutant⟩
  · intro h
    exact ⟨⟨congrArg Scope.dayUtc h, congrArg Scope.connectorId h⟩,
      congrArg Scope.pollutantCode h⟩

theorem compareScopes_lt_of_day {a b : ScopedRoot} (h : bytewiseCompare a.dayUtc b.dayUtc = .lt) :
    compareScopes a b = .lt := by
  rw [compareScopes, h]
  rfl

/-- No scope occurs twice. -/
def OneEach (roots : List ScopedRoot) : Prop := (roots.map ScopedRoot.toScope).Nodup

theorem OneEach.pairwise_ne {roots : List ScopedRoot} (h : OneEach roots) :
    roots.Pairwise fun a b ↦ compareScopes a b ≠ .eq :=
  (List.pairwise_map.mp h).imp fun hne heq ↦ hne (compareScopes_eq_iff.mp heq)

/-! ## Roots that are read as they are -/

/-- A root that the reader of a registry takes as it is. -/
def Readable (host : Host) (indexRoot : String) (root : ScopedRoot) : Prop :=
  ∀ label, normalizedRegistryRoot host root.toValue indexRoot label = .ok root

theorem slash_notMem_of_parseIsoDay {text : String} (h : (parseIsoDay text).isSome) :
    '/' ∉ text.toList := by
  rw [parseIsoDay] at h
  split at h
  · next y₁ y₂ y₃ y₄ m₁ m₂ d₁ d₂ htext =>
    rw [htext]
    split_ifs at h with hdigits
    · intro hmem
      have hdigit : ∀ c ∈ [y₁, y₂, y₃, y₄, m₁, m₂, d₁, d₂], c ≠ '/' := by
        rintro c hc rfl
        exact absurd (List.all_eq_true.mp hdigits _ hc) (by decide)
      simp only [List.mem_cons, List.not_mem_nil, or_false] at hmem hdigit
      grind
    · cases h
  · cases h

theorem slash_notMem_toString (n : ℤ) : '/' ∉ (toString n).toList := by
  intro hmem
  exact absurd (JsonText.isNumberChar_of_mem_toString hmem) (by decide)

section Labels

variable {host : Host} {value : JsValue} {label label' text : String} {n : ℤ}

theorem normalizeKey_label (h : normalizeKey value label = .ok text) :
    normalizeKey value label' = .ok text := by
  rw [normalizeKey] at h ⊢
  split_ifs at h ⊢
  exact h

theorem integer_label (h : integer host value label = .ok n) :
    integer host value label' = .ok n := by
  rw [integer] at h ⊢
  rcases hread : host.safeInteger value with _ | m
  · rw [hread] at h
    cases h
  · rw [hread] at h
    dsimp only at h ⊢
    split_ifs at h ⊢
    exact h

theorem exactSha256_label (h : exactSha256 value label = .ok text) :
    exactSha256 value label' = .ok text := by
  rw [exactSha256] at h ⊢
  split_ifs at h ⊢
  exact h

theorem canonicalIso_label (h : canonicalIso host value label = .ok text) :
    canonicalIso host value label' = .ok text := by
  rw [canonicalIso] at h ⊢
  rcases hread : host.dateParse value.orBlank with _ | ms
  · rw [hread] at h
    cases h
  · rw [hread] at h
    dsimp only at h ⊢
    split_ifs at h ⊢
    exact h

/-- The label is for the errors. -/
theorem normalizedRegistryRoot_label {raw : JsValue} {indexRoot : String} {root : ScopedRoot}
    (h : normalizedRegistryRoot host raw indexRoot label = .ok root) :
    normalizedRegistryRoot host raw indexRoot label' = .ok root := by
  rw [normalizedRegistryRoot] at h ⊢
  obtain ⟨scope, hscope, h⟩ := Except.bind_eq_ok_iff.mp h
  obtain ⟨key, hkey, h⟩ := Except.bind_eq_ok_iff.mp h
  obtain ⟨byteSize, hbyteSize, h⟩ := Except.bind_eq_ok_iff.mp h
  obtain ⟨sha256, hsha256, h⟩ := Except.bind_eq_ok_iff.mp h
  obtain ⟨rowCount, hrowCount, h⟩ := Except.bind_eq_ok_iff.mp h
  obtain ⟨timeseriesCount, htimeseriesCount, h⟩ := Except.bind_eq_ok_iff.mp h
  obtain ⟨childShardCount, hchildShardCount, h⟩ := Except.bind_eq_ok_iff.mp h
  obtain ⟨physicalLeafCount, hphysicalLeafCount, h⟩ := Except.bind_eq_ok_iff.mp h
  obtain ⟨physicalFileCount, hphysicalFileCount, h⟩ := Except.bind_eq_ok_iff.mp h
  obtain ⟨minObservedAtUtc, hmin, h⟩ := Except.bind_eq_ok_iff.mp h
  obtain ⟨maxObservedAtUtc, hmax, h⟩ := Except.bind_eq_ok_iff.mp h
  obtain ⟨_, hvalid, h⟩ := Except.bind_eq_ok_iff.mp h
  exact Except.bind_eq_ok_iff.mpr ⟨_, hscope, Except.bind_eq_ok_iff.mpr
    ⟨_, normalizeKey_label hkey, Except.bind_eq_ok_iff.mpr ⟨_, integer_label hbyteSize,
    Except.bind_eq_ok_iff.mpr ⟨_, exactSha256_label hsha256, Except.bind_eq_ok_iff.mpr
    ⟨_, integer_label hrowCount, Except.bind_eq_ok_iff.mpr ⟨_, integer_label htimeseriesCount,
    Except.bind_eq_ok_iff.mpr ⟨_, integer_label hchildShardCount, Except.bind_eq_ok_iff.mpr
    ⟨_, integer_label hphysicalLeafCount, Except.bind_eq_ok_iff.mpr
    ⟨_, integer_label hphysicalFileCount, Except.bind_eq_ok_iff.mpr ⟨_, canonicalIso_label hmin,
    Except.bind_eq_ok_iff.mpr ⟨_, canonicalIso_label hmax,
    Except.bind_eq_ok_iff.mpr ⟨_, hvalid, h⟩⟩⟩⟩⟩⟩⟩⟩⟩⟩⟩⟩

end Labels

section Readable

variable {host : Host} {indexRoot : String} {root : ScopedRoot} {roots : List ScopedRoot}

theorem readable_of_read (h : normalizedRegistryRoot host root.toValue indexRoot "" = .ok root) :
    Readable host indexRoot root :=
  fun _ ↦ normalizedRegistryRoot_label h

theorem parseIsoDay_of_normalizeScope {raw : JsValue} {scope : Scope}
    (h : normalizeScope host raw = .ok scope) : (parseIsoDay scope.dayUtc).isSome := by
  rw [normalizeScope] at h
  obtain ⟨connectorId, -, h⟩ := Except.bind_eq_ok_iff.mp h
  obtain ⟨_, hvalid, h⟩ := Except.bind_eq_ok_iff.mp h
  rw [Except.refuseIf_eq_ok_iff, not_or, Bool.not_eq_true, Option.isNone_eq_false_iff] at hvalid
  rw [← Except.pure_eq_ok_iff.mp h]
  exact hvalid.1

theorem Readable.spec (h : Readable host indexRoot root) :
    root.key = scopedManifestKey indexRoot root.toScope ∧ (parseIsoDay root.dayUtc).isSome ∧
      ∃ dependency, identity host root = .ok dependency := by
  have hread := h ""
  rw [normalizedRegistryRoot] at hread
  obtain ⟨scope, hscope, hread⟩ := Except.bind_eq_ok_iff.mp hread
  obtain ⟨key, hkey, hread⟩ := Except.bind_eq_ok_iff.mp hread
  obtain ⟨byteSize, hbyteSize, hread⟩ := Except.bind_eq_ok_iff.mp hread
  obtain ⟨sha256, hsha256, hread⟩ := Except.bind_eq_ok_iff.mp hread
  obtain ⟨rowCount, -, hread⟩ := Except.bind_eq_ok_iff.mp hread
  obtain ⟨timeseriesCount, -, hread⟩ := Except.bind_eq_ok_iff.mp hread
  obtain ⟨childShardCount, -, hread⟩ := Except.bind_eq_ok_iff.mp hread
  obtain ⟨physicalLeafCount, -, hread⟩ := Except.bind_eq_ok_iff.mp hread
  obtain ⟨physicalFileCount, -, hread⟩ := Except.bind_eq_ok_iff.mp hread
  obtain ⟨minObservedAtUtc, -, hread⟩ := Except.bind_eq_ok_iff.mp hread
  obtain ⟨maxObservedAtUtc, -, hread⟩ := Except.bind_eq_ok_iff.mp hread
  obtain ⟨_, hvalid, hread⟩ := Except.bind_eq_ok_iff.mp hread
  rw [Except.refuseIf_eq_ok_iff, not_or, not_not] at hvalid
  have hidentity : identity host root = .ok ⟨key, byteSize, sha256, "scoped_manifest"⟩ :=
    Except.bind_eq_ok_iff.mpr ⟨_, normalizeKey_label hkey, Except.bind_eq_ok_iff.mpr
      ⟨_, integer_label hbyteSize, Except.bind_eq_ok_iff.mpr ⟨_, exactSha256_label hsha256, rfl⟩⟩⟩
  refine ⟨?_, ?_, _, hidentity⟩
  · rw [← Except.pure_eq_ok_iff.mp hread]
    exact hvalid.1
  · rw [← Except.pure_eq_ok_iff.mp hread]
    exact parseIsoDay_of_normalizeScope hscope

theorem scopedManifestKey_inj {scope scope' : Scope} (hday : '/' ∉ scope.dayUtc.toList)
    (hday' : '/' ∉ scope'.dayUtc.toList)
    (h : scopedManifestKey indexRoot scope = scopedManifestKey indexRoot scope') :
    scope = scope' := by
  have hchars : ∀ scope : Scope, (scopedManifestKey indexRoot scope).toList
      = (indexRoot ++ "/day_utc=").toList ++ (scope.dayUtc.toList ++ '/' :: ("connector_id=".toList
        ++ ((toString scope.connectorId).toList ++ '/' :: ("pollutant_code=".toList
          ++ (scope.pollutantCode.toList ++ "/manifest.json".toList))))) := by
    intro scope
    simp only [scopedManifestKey, scopePath, String.toList_append, List.append_assoc]
    rfl
  have hlists := congrArg String.toList h
  rw [hchars, hchars] at hlists
  obtain ⟨hdays, hrest⟩ :=
    Framing.append_cons_inj_of_notMem hday hday' (List.append_cancel_left hlists)
  obtain ⟨hconnectors, hrest⟩ := Framing.append_cons_inj_of_notMem (slash_notMem_toString _)
    (slash_notMem_toString _) (List.append_cancel_left hrest)
  have hpollutants := List.append_cancel_right (List.append_cancel_left hrest)
  rcases scope with ⟨dayUtc, connectorId, pollutantCode⟩
  rcases scope' with ⟨dayUtc', connectorId', pollutantCode'⟩
  rw [Scope.mk.injEq]
  exact ⟨String.toList_inj.mp hdays, Int.repr_injective (String.toList_inj.mp hconnectors),
    String.toList_inj.mp hpollutants⟩

theorem OneEach.nodup_keys (h : OneEach roots)
    (hread : ∀ root ∈ roots, Readable host indexRoot root) :
    (roots.map ScopedRoot.key).Nodup := by
  refine List.Nodup.map_on (fun a ha b hb hkey ↦ ?_) (List.Nodup.of_map _ h)
  obtain ⟨hakey, haday, -⟩ := (hread a ha).spec
  obtain ⟨hbkey, hbday, -⟩ := (hread b hb).spec
  have hkeys : scopedManifestKey indexRoot a.toScope = scopedManifestKey indexRoot b.toScope := by
    rw [← hakey, ← hbkey, hkey]
  exact List.inj_on_of_nodup_map h ha hb (scopedManifestKey_inj (slash_notMem_of_parseIsoDay haday)
    (slash_notMem_of_parseIsoDay hbday) hkeys)

end Readable

/-! ## Reading what was built -/

section Reading

variable {host : Host} {indexRoot : String}

/-- One summary: its roots are read behind those of the summaries before it. -/
theorem registryRootsOfDay_eq {scopedRoots before : List ScopedRoot} (hne : scopedRoots ≠ [])
    (hread : ∀ root ∈ scopedRoots, Readable host indexRoot root)
    (hone : OneEach (before ++ scopedRoots))
    (hkeys : ((before ++ scopedRoots).map ScopedRoot.key).Nodup) (dayUtc : String) (index : ℕ) :
    registryRootsOfDay host indexRoot before (daySummary host dayUtc scopedRoots, index)
      = .ok (before ++ scopedRoots) := by
  have hloop : ∀ (rest before : List ScopedRoot) (k : ℕ),
      (∀ root ∈ rest, Readable host indexRoot root) → OneEach (before ++ rest) →
      ((before ++ rest).map ScopedRoot.key).Nodup →
      ((rest.map ScopedRoot.toValue).zipIdx k).foldlM (fun roots raw ↦ do
        let root ← normalizedRegistryRoot host raw.1 indexRoot
          s!"day_summaries[{index}].scoped_roots[{raw.2}]"
        Except.refuseIf (root.toScope ∈ roots.map ScopedRoot.toScope ∨
            root.key ∈ roots.map ScopedRoot.key)
          s!"compact latest has a duplicate scoped root: {root.key}"
        pure (roots ++ [root])) before = .ok (before ++ rest) := by
    -- on the roots that are left, with those read so far as they come
    intro rest
    induction rest with
    | nil =>
      intro before k _ _ _
      rw [List.append_nil]
      rfl
    | cons root rest ih =>
      intro before k hread hone hkeys
      have hscope : root.toScope ∉ before.map ScopedRoot.toScope := by
        rw [OneEach, List.map_append, List.map_cons] at hone
        exact fun hmem ↦ (List.nodup_append.mp hone).2.2 _ hmem _ List.mem_cons_self rfl
      have hkey : root.key ∉ before.map ScopedRoot.key := by
        rw [List.map_append, List.map_cons] at hkeys
        exact fun hmem ↦ (List.nodup_append.mp hkeys).2.2 _ hmem _ List.mem_cons_self rfl
      rw [List.map_cons, List.zipIdx_cons, List.foldlM_cons]
      refine Except.bind_eq_ok_iff.mpr ⟨before ++ [root], ?_, ?_⟩
      · refine Except.bind_eq_ok_iff.mpr ⟨root, hread root List.mem_cons_self _, ?_⟩
        exact Except.bind_eq_ok_iff.mpr
          ⟨(), Except.refuseIf_eq_ok_iff.mpr (not_or.mpr ⟨hscope, hkey⟩), rfl⟩
      · rw [List.append_cons before root rest] at hone hkeys ⊢
        exact ih _ _ (fun other hother ↦ hread other (List.mem_cons_of_mem root hother)) hone hkeys
  rw [registryRootsOfDay]
  have hroots : ((daySummary host dayUtc scopedRoots).optional "scoped_roots").items?.getD []
      = scopedRoots.map ScopedRoot.toValue := rfl
  rw [hroots]
  refine Except.bind_eq_ok_iff.mpr ⟨(), Except.refuseIf_eq_ok_iff.mpr ?_, ?_⟩
  · exact fun hnil ↦ hne (List.map_eq_nil_iff.mp hnil)
  · exact hloop scopedRoots before 0 hread hone hkeys

/-- All summaries. -/
theorem foldlM_registryRootsOfDay (host : Host) (indexRoot : String)
    (group : String → List ScopedRoot) (days : List String)
    (before : List ScopedRoot) (k : ℕ) (hne : ∀ day ∈ days, group day ≠ [])
    (hread : ∀ day ∈ days, ∀ root ∈ group day, Readable host indexRoot root)
    (hone : OneEach (before ++ days.flatMap group))
    (hkeys : ((before ++ days.flatMap group).map ScopedRoot.key).Nodup) :
    ((days.map fun day ↦ daySummary host day (group day)).zipIdx k).foldlM
      (registryRootsOfDay host indexRoot) before = .ok (before ++ days.flatMap group) := by
  induction days generalizing before k with
  | nil =>
    rw [List.flatMap_nil, List.append_nil]
    rfl
  | cons day days ih =>
    obtain ⟨hday, hdays⟩ := List.forall_mem_cons.mp hne
    obtain ⟨hreadDay, hreadDays⟩ := List.forall_mem_cons.mp hread
    rw [List.flatMap_cons, ← List.append_assoc] at hone hkeys ⊢
    have hpart : (before ++ group day).Sublist (before ++ group day ++ days.flatMap group) :=
      List.sublist_append_left _ _
    rw [List.map_cons, List.zipIdx_cons, List.foldlM_cons]
    exact Except.bind_eq_ok_iff.mpr ⟨before ++ group day,
      registryRootsOfDay_eq hday hreadDay (hone.sublist (hpart.map _)) (hkeys.sublist (hpart.map _))
        day k, ih _ _ hdays hreadDays hone hkeys⟩

variable {roots : List ScopedRoot}

theorem oneEach_of_sorted (hsorted : roots.Pairwise fun a b ↦ compareScopes a b = .lt) :
    OneEach roots := by
  refine List.pairwise_map.mpr (hsorted.imp fun hlt heq ↦ ?_)
  rw [compareScopes_eq_iff.mpr heq] at hlt
  cases hlt

/-- Sorted roots are the roots of their days, one day after another. -/
theorem flatMap_days (hsorted : roots.Pairwise fun a b ↦ compareScopes a b = .lt) :
    (Sorting.sortBy bytewiseCompare (roots.map fun root ↦ root.dayUtc).eraseDups).flatMap
      (fun day ↦ roots.filter fun root ↦ root.dayUtc = day) = roots := by
  refine Sorting.eq_of_mem_iff (r := fun a b ↦ compareScopes a b = .lt)
    (fun _ _ ↦ Std.OrientedCmp.not_lt_of_lt) ?_ hsorted fun root ↦ ?_
  · refine List.pairwise_flatMap.mpr ⟨fun day _ ↦ hsorted.filter _, ?_⟩
    have hdays := Sorting.pairwise_lt_sortBy
      ((Sorting.nodup_eraseDups (roots.map fun root ↦ root.dayUtc)).imp
        fun hne heq ↦ hne (bytewiseCompare_eq_iff.mp heq))
    -- the day is compared first, so the roots of one day stand together
    refine hdays.imp fun hlt a ha b hb ↦ compareScopes_lt_of_day ?_
    rw [of_decide_eq_true (List.mem_filter.mp ha).2, of_decide_eq_true (List.mem_filter.mp hb).2]
    exact hlt
  · rw [List.mem_flatMap]
    constructor
    · rintro ⟨day, -, hmem⟩
      exact (List.mem_filter.mp hmem).1
    · intro hmem
      refine ⟨root.dayUtc, ?_, List.mem_filter.mpr ⟨hmem, decide_eq_true rfl⟩⟩
      rw [Sorting.mem_sortBy, List.mem_eraseDups]
      exact List.mem_map_of_mem hmem

variable {latestKey : String} {latest : LatestArtifact}

/-- A body that was written from its payload. -/
theorem artifactBodyIsExact_of_written {raw : Artifact}
    (hbody : raw.body = raw.payload.canonicalJson)
    (hsize : ((utf8 raw.body).length : ℤ) = raw.byteSize)
    (hsha : host.sha256Hex (utf8 raw.body) = raw.sha256) :
    artifactBodyIsExact host raw raw.kind raw.publicationStage = .ok raw := by
  refine Except.bind_eq_ok_iff.mpr ⟨(), Except.refuseIf_eq_ok_iff.mpr (by simp),
    Except.bind_eq_ok_iff.mpr ⟨(), Except.refuseIf_eq_ok_iff.mpr ?_, rfl⟩⟩
  exact not_or.mpr ⟨not_not.mpr hbody, not_or.mpr ⟨not_not.mpr hsize, not_not.mpr hsha⟩⟩

theorem artifactBodyIsExact_of_built
    (hbuilt : latestArtifactFromRoots host roots indexRoot latestKey = .ok latest) :
    artifactBodyIsExact host latest.toArtifact
      "observation_history_index_v3_latest_global" "latest_global" = .ok latest.toArtifact ∧
    latest.payload = latestPayload host roots indexRoot latestKey ∧
    normalizeKey (.str latestKey) "observation_history_index_v3_latest_global.key"
      = .ok latest.key := by
  rw [latestArtifactFromRoots] at hbuilt
  obtain ⟨dependencies, -, hbuilt⟩ := Except.bind_eq_ok_iff.mp hbuilt
  obtain ⟨key, hkey, hbuilt⟩ := Except.bind_eq_ok_iff.mp hbuilt
  rw [← Except.pure_eq_ok_iff.mp hbuilt]
  exact ⟨artifactBodyIsExact_of_written rfl rfl rfl, rfl, hkey⟩

theorem exists_latestArtifactFromRoots
    (hkey : ∀ label, normalizeKey (.str latestKey) label = .ok latestKey)
    (hread : ∀ root ∈ roots, Readable host indexRoot root) :
    ∃ latest, latestArtifactFromRoots host roots indexRoot latestKey = .ok latest := by
  obtain ⟨dependencies, hdependencies⟩ := (Except.exists_mapM_eq_ok_iff (identity host) roots).mpr
    fun root hmem ↦ (hread root hmem).spec.2.2
  exact ⟨_, Except.bind_eq_ok_iff.mpr ⟨dependencies, hdependencies,
    Except.bind_eq_ok_iff.mpr ⟨latestKey, hkey _, rfl⟩⟩⟩

/-- **A registry is read as what it was built from.** -/
theorem validate_latestArtifactFromRoots
    (hroot : normalizePrefix indexRoot "indexRoot" = .ok indexRoot)
    (hkey : ∀ label, normalizeKey (.str latestKey) label = .ok latestKey) (hne : roots ≠ [])
    (hsorted : roots.Pairwise fun a b ↦ compareScopes a b = .lt)
    (hread : ∀ root ∈ roots, Readable host indexRoot root)
    (hbuilt : latestArtifactFromRoots host roots indexRoot latestKey = .ok latest) :
    validateObservationHistoryExactLeafIndexV3LatestRegistry host latest.toArtifact indexRoot
      latestKey = .ok roots := by
  have hone := oneEach_of_sorted hsorted
  have hdays := flatMap_days hsorted
  have hself : Sorting.sortBy compareScopes roots = roots :=
    Sorting.sortBy_eq_of_mem_iff hone.pairwise_ne hsorted fun _ ↦ Iff.rfl
  have hloop := foldlM_registryRootsOfDay host indexRoot
    (fun day ↦ roots.filter fun root ↦ root.dayUtc = day)
    (Sorting.sortBy bytewiseCompare (roots.map fun root ↦ root.dayUtc).eraseDups) [] 0
    (fun day hday ↦ by
      rw [Sorting.mem_sortBy, List.mem_eraseDups, List.mem_map] at hday
      obtain ⟨root, hmem, rfl⟩ := hday
      exact List.ne_nil_of_mem (List.mem_filter.mpr ⟨hmem, decide_eq_true rfl⟩))
    (fun day _ root hmem ↦ hread root (List.mem_filter.mp hmem).1)
    (by rwa [List.nil_append, hdays]) (by rw [List.nil_append, hdays]; exact hone.nodup_keys hread)
  rw [List.nil_append, hdays] at hloop
  obtain ⟨hexact, hpayload, hlatest⟩ := artifactBodyIsExact_of_built hbuilt
  rw [hkey] at hlatest
  have hsummaries : (if latest.key = latestKey then (latest.payload.optional "day_summaries").items?
      else none) = some ((Sorting.sortBy bytewiseCompare
        (roots.map fun root ↦ root.dayUtc).eraseDups).map fun day ↦
          daySummary host day (roots.filter fun root ↦ root.dayUtc = day)) := by
    rw [if_pos (Except.ok.inj hlatest).symm, hpayload]
    rfl
  rw [validateObservationHistoryExactLeafIndexV3LatestRegistry]
  refine Except.bind_eq_ok_iff.mpr ⟨indexRoot, hroot, Except.bind_eq_ok_iff.mpr
    ⟨latestKey, hkey _, Except.bind_eq_ok_iff.mpr ⟨latest.toArtifact, hexact, ?_⟩⟩⟩
  rw [hsummaries]
  refine Except.bind_eq_ok_iff.mpr ⟨roots, hloop, Except.bind_eq_ok_iff.mpr
    ⟨(), Except.refuseIf_eq_ok_iff.mpr hne, Except.bind_eq_ok_iff.mpr ⟨(), ?_, ?_⟩⟩⟩
  -- sorting sorted roots changes nothing, so the payload is the one that is expected
  · rw [hself, hpayload]
    exact Except.refuseIf_eq_ok_iff.mpr (not_not.mpr rfl)
  · rw [hself]
    rfl

end Reading

/-! ## What survives -/

/-- The last root of a scope. -/
def rootOf (roots : List ScopedRoot) (scope : Scope) : Option ScopedRoot :=
  roots.reverse.find? fun root ↦ root.toScope = scope

def Update.removes (host : Host) (update : Update) (scope : Scope) : Bool :=
  update.removedScopes.any fun raw ↦ (normalizeScope host raw).toOption = some scope

def Update.replacements (update : Update) : List ScopedRoot :=
  update.replacementScopedManifests.map scopedRootDescriptor

/-- What is held of each scope after an update. -/
def overlay (host : Host) (held : Scope → Option ScopedRoot) (update : Update) (scope : Scope) :
    Option ScopedRoot :=
  if update.removes host scope then none else (rootOf update.replacements scope).or (held scope)

/-- The roots are those that are held. -/
def Lists (roots : List ScopedRoot) (held : Scope → Option ScopedRoot) : Prop :=
  ∀ root, root ∈ roots ↔ held root.toScope = some root

section Surviving

variable {host : Host} {roots : List ScopedRoot} {held : Scope → Option ScopedRoot} {scope : Scope}
variable {update : Update} {root : ScopedRoot}

theorem rootOf_eq_some (h : rootOf roots scope = some root) : root ∈ roots ∧ root.toScope = scope :=
  ⟨List.mem_reverse.mp (List.mem_of_find?_eq_some h), of_decide_eq_true (List.find?_some h :)⟩

theorem rootOf_append_singleton (roots : List ScopedRoot) (root : ScopedRoot) (scope : Scope) :
    rootOf (roots ++ [root]) scope
      = if scope = root.toScope then some root else rootOf roots scope := by
  rw [rootOf, List.reverse_append, List.reverse_singleton, List.singleton_append, List.find?_cons]
  by_cases hscope : scope = root.toScope
  · rw [if_pos hscope, decide_eq_true hscope.symm]
  · rw [if_neg hscope, decide_eq_false (Ne.symm hscope)]
    rfl

theorem lists_rootOf (hone : OneEach roots) : Lists roots (rootOf roots) := by
  intro root
  constructor
  · intro hmem
    have hsome : (rootOf roots root.toScope).isSome :=
      List.find?_isSome.mpr ⟨root, List.mem_reverse.mpr hmem, decide_eq_true rfl⟩
    obtain ⟨other, hother⟩ := Option.isSome_iff_exists.mp hsome
    obtain ⟨hothermem, hscope⟩ := rootOf_eq_some hother
    rw [hother, List.inj_on_of_nodup_map hone hothermem hmem hscope]
  · intro h
    exact (rootOf_eq_some h).1

/-- What is held of a scope is a root of the scope. -/
def Keyed (held : Scope → Option ScopedRoot) : Prop :=
  ∀ scope root, held scope = some root → root.toScope = scope

theorem keyed_rootOf (roots : List ScopedRoot) : Keyed (rootOf roots) :=
  fun _ _ h ↦ (rootOf_eq_some h).2

theorem Keyed.overlay (h : Keyed held) (update : Update) : Keyed (overlay host held update) := by
  intro scope root hroot
  rw [Registry.overlay] at hroot
  split_ifs at hroot
  rcases Option.or_eq_some_iff.mp hroot with hroot | ⟨-, hroot⟩
  · exact (rootOf_eq_some hroot).2
  · exact h scope root hroot

theorem Lists.rootOf_eq (h : Lists roots held) (hone : OneEach roots) (hkeyed : Keyed held) :
    rootOf roots = held := by
  funext scope
  ext root
  constructor
  · intro hroot
    obtain ⟨hmem, rfl⟩ := rootOf_eq_some hroot
    exact (h root).mp hmem
  · intro hroot
    obtain rfl := hkeyed scope root hroot
    exact (lists_rootOf hone root).mp ((h root).mpr hroot)

end Surviving

/-! ## One update -/

section Update

variable {host : Host} {indexRoot latestKey : String} {existing : Artifact}
variable {latest : LatestArtifact} {roots : List ScopedRoot} {update : Update}
variable {byScope byScope' : OrderedMap Scope ScopedRoot}

theorem get?_ofList_roots (roots : List ScopedRoot) (scope : Scope) :
    (OrderedMap.ofList (roots.map fun root ↦ (root.toScope, root))).get? scope
      = rootOf roots scope := by
  rw [OrderedMap.get?_ofList, ← List.map_reverse, List.find?_map, Option.map_map, rootOf]
  exact Option.map_id'

theorem exactScopedManifest_eq {manifest : ScopedManifest} {descriptor : ScopedRoot}
    (h : exactScopedManifest host manifest = .ok descriptor) :
    scopedRootDescriptor manifest = descriptor := by
  rw [exactScopedManifest] at h
  obtain ⟨_, -, h⟩ := Except.bind_eq_ok_iff.mp h
  exact Except.pure_eq_ok_iff.mp h

theorem get?_replaceRoots {manifests : List ScopedManifest}
    (h : replaceRoots host manifests byScope = .ok byScope') (scope : Scope) :
    byScope'.get? scope
      = (rootOf (manifests.map scopedRootDescriptor) scope).or (byScope.get? scope) := by
  -- what is read of a scope, once a part of the replacements is set
  refine @Except.foldlM_invariant _ _ _ _ _ _ _ (fun done (map : OrderedMap Scope ScopedRoot) ↦
    map.get? scope
      = (rootOf (done.map scopedRootDescriptor) scope).or (byScope.get? scope)) h rfl ?_
  intro done manifest _ map map' _ hmap hstep
  obtain ⟨descriptor, hexact, hstep⟩ := Except.bind_eq_ok_iff.mp hstep
  rw [← Except.pure_eq_ok_iff.mp hstep, ← exactScopedManifest_eq hexact, OrderedMap.get?_set, hmap,
    List.map_append, List.map_singleton, rootOf_append_singleton]
  by_cases hscope : scope = (scopedRootDescriptor manifest).toScope
  · rw [if_pos hscope, if_pos hscope, Option.some_or]
  · rw [if_neg hscope, if_neg hscope]

theorem get?_removeScopes {scopes : List JsValue}
    (h : removeScopes host scopes byScope = .ok byScope') (scope : Scope) :
    byScope'.get? scope
      = if scopes.any fun raw ↦ (normalizeScope host raw).toOption = some scope then none
        else byScope.get? scope := by
  refine @Except.foldlM_invariant _ _ _ _ _ _ _ (fun done (map : OrderedMap Scope ScopedRoot) ↦
    map.get? scope = if done.any fun raw ↦ (normalizeScope host raw).toOption = some scope then none
      else byScope.get? scope) h rfl ?_
  intro done raw _ map map' _ hmap hstep
  obtain ⟨removed, hnormal, hstep⟩ := Except.bind_eq_ok_iff.mp hstep
  rw [← Except.pure_eq_ok_iff.mp hstep, OrderedMap.get?_delete, hmap, List.any_append,
    List.any_cons, List.any_nil, Bool.or_false, hnormal]
  by_cases hscope : scope = removed
  · rw [if_pos hscope, hscope]
    simp [Except.toOption]
  · rw [if_neg hscope]
    have hne : decide ((Except.ok removed : Except String Scope).toOption = some scope) = false :=
      decide_eq_false fun heq ↦ hscope (Option.some.inj heq).symm
    rw [hne, Bool.or_false]

/-- Both loops, from the roots that were read. -/
theorem get?_of_loops
    (hreplaced : replaceRoots host update.replacementScopedManifests
      (OrderedMap.ofList (roots.map fun root ↦ (root.toScope, root))) = .ok byScope)
    (hremoved : removeScopes host update.removedScopes byScope = .ok byScope') :
    byScope'.get? = overlay host (rootOf roots) update := by
  funext scope
  rw [get?_removeScopes hremoved, get?_replaceRoots hreplaced, get?_ofList_roots]
  rfl

/-- **An update writes the registry of what it leaves.** -/
theorem roots_of_update (hroot : normalizePrefix indexRoot "indexRoot" = .ok indexRoot)
    (hkey : ∀ label, normalizeKey (.str latestKey) label = .ok latestKey)
    (hvalid : validateObservationHistoryExactLeafIndexV3LatestRegistry host existing indexRoot
      latestKey = .ok roots)
    (hupdate : updateObservationHistoryExactLeafIndexV3Latest host existing update indexRoot
      latestKey = .ok latest) :
    ∃ survivors, survivors ≠ [] ∧ (survivors.Pairwise fun a b ↦ compareScopes a b = .lt) ∧
      Lists survivors (overlay host (rootOf roots) update) ∧
      latestArtifactFromRoots host survivors indexRoot latestKey = .ok latest := by
  rw [updateObservationHistoryExactLeafIndexV3Latest, hvalid] at hupdate
  obtain ⟨_, hok, hupdate⟩ := Except.bind_eq_ok_iff.mp hupdate
  obtain rfl := Except.ok.inj hok
  obtain ⟨replaced, hreplaced, hupdate⟩ := Except.bind_eq_ok_iff.mp hupdate
  obtain ⟨byScope, hremoved, hupdate⟩ := Except.bind_eq_ok_iff.mp hupdate
  obtain ⟨_, hsome, hupdate⟩ := Except.bind_eq_ok_iff.mp hupdate
  rw [Except.refuseIf_eq_ok_iff, List.isEmpty_iff] at hsome
  obtain ⟨root, hroot', hupdate⟩ := Except.bind_eq_ok_iff.mp hupdate
  obtain ⟨key, hkey', hupdate⟩ := Except.bind_eq_ok_iff.mp hupdate
  rw [hroot] at hroot'
  rw [hkey] at hkey'
  obtain rfl := Except.ok.inj hroot'
  obtain rfl := Except.ok.inj hkey'
  have hget := get?_of_loops hreplaced hremoved
  have hkeyed : Keyed byScope.get? := hget ▸ (keyed_rootOf roots).overlay update
  have hscopes : byScope.values.map ScopedRoot.toScope = byScope.keys := by
    rw [OrderedMap.values, OrderedMap.keys, List.map_map]
    exact List.map_congr_left fun p hp ↦ hkeyed p.1 p.2 (byScope.get?_eq_some_iff.mpr hp)
  -- the map has one entry for a scope
  have hone : OneEach byScope.values := by
    rw [OneEach, hscopes]
    exact byScope.nodup_keys
  refine ⟨_, hsome, Sorting.pairwise_lt_sortBy hone.pairwise_ne, fun root ↦ ?_, hupdate⟩
  rw [Sorting.mem_sortBy, OrderedMap.mem_values, ← hget]
  constructor
  · rintro ⟨scope, hmem⟩
    have hheld := byScope.get?_eq_some_iff.mpr hmem
    rwa [hkeyed scope root hheld]
  · intro hheld
    exact ⟨_, byScope.get?_eq_some_iff.mp hheld⟩

end Update

/-! ## Runs of updates -/

/-- A manifest as the index builder stores it: its bytes are its own, and the registry's reader
takes its descriptor as it is. -/
structure ScopedManifest.Stored (host : Host) (indexRoot : String) (manifest : ScopedManifest) :
    Prop where
  exact : exactScopedManifest host manifest = .ok (scopedRootDescriptor manifest)
  readable : Readable host indexRoot (scopedRootDescriptor manifest)

def ScopedHierarchy.root (hierarchy : ScopedHierarchy) : ScopedRoot :=
  scopedRootDescriptor hierarchy.scopedManifest

/-- What is held of each scope after some updates of what was built. -/
def surviving (host : Host) (initial : List ScopedHierarchy) (updates : List Update) :
    Scope → Option ScopedRoot :=
  updates.foldl (overlay host) (rootOf (initial.map ScopedHierarchy.root))

def runUpdates (host : Host) (indexRoot latestKey : String) (latest : LatestArtifact)
    (updates : List Update) : Except String LatestArtifact :=
  updates.foldlM (fun latest update ↦ updateObservationHistoryExactLeafIndexV3Latest host
    latest.toArtifact update indexRoot latestKey) latest

/-- The scopes that an update writes. -/
def Update.touches (host : Host) (update : Update) (scope : Scope) : Prop :=
  update.removes host scope = true ∨ (rootOf update.replacements scope).isSome

def Update.Apart (host : Host) (update update' : Update) : Prop :=
  ∀ scope, ¬(update.touches host scope ∧ update'.touches host scope)

section Run

variable {host : Host} {indexRoot latestKey : String}
variable {initial kept : List ScopedHierarchy} {updates updates' : List Update}
variable {latest latest' : LatestArtifact} {roots : List ScopedRoot}
variable {held : Scope → Option ScopedRoot}

theorem overlay_of_not_touches {update : Update} {scope : Scope} (h : ¬update.touches host scope) :
    overlay host held update scope = held scope := by
  rw [Update.touches, not_or, Option.not_isSome_iff_eq_none] at h
  rw [overlay, if_neg h.1, h.2, Option.none_or]

theorem overlay_congr {held' : Scope → Option ScopedRoot} {update : Update} {scope : Scope}
    (h : held scope = held' scope) :
    overlay host held update scope = overlay host held' update scope := by
  rw [overlay, overlay, h]

/-- Updates that write different scopes can change places. -/
theorem overlay_comm {update update' : Update} (h : update.Apart host update')
    (held : Scope → Option ScopedRoot) :
    overlay host (overlay host held update) update'
      = overlay host (overlay host held update') update := by
  funext scope
  -- one of the two leaves the scope alone
  by_cases htouches : update.touches host scope
  · have hfree : ¬update'.touches host scope := fun htouches' ↦ h scope ⟨htouches, htouches'⟩
    rw [overlay_of_not_touches hfree, overlay_congr (overlay_of_not_touches hfree)]
  · rw [overlay_of_not_touches htouches, overlay_congr (overlay_of_not_touches htouches)]

instance symm_apart (host : Host) : Std.Symm (Update.Apart host) :=
  ⟨fun _ _ h scope hboth ↦ h scope hboth.symm⟩

theorem surviving_perm (hperm : updates.Perm updates')
    (hapart : updates.Pairwise (Update.Apart host)) :
    surviving host initial updates = surviving host initial updates' := by
  refine hperm.foldl_eq' (fun update hmem update' hmem' held ↦ ?_) _
  by_cases heq : update = update'
  · rw [heq]
  · exact overlay_comm (hapart.forall hmem hmem' heq) held

theorem keyed_surviving (initial : List ScopedHierarchy) (updates : List Update) :
    Keyed (surviving host initial updates) := by
  induction updates using List.reverseRecOn with
  | nil => exact keyed_rootOf _
  | append_singleton updates update ih =>
    rw [surviving, List.foldl_append]
    exact ih.overlay update

/-- A registry that was built from sorted roots, all of them readable. -/
structure Holds (host : Host) (indexRoot latestKey : String) (held : Scope → Option ScopedRoot)
    (latest : LatestArtifact) (roots : List ScopedRoot) : Prop where
  ne_nil : roots ≠ []
  sorted : roots.Pairwise fun a b ↦ compareScopes a b = .lt
  lists : Lists roots held
  readable : ∀ root ∈ roots, Readable host indexRoot root
  built : latestArtifactFromRoots host roots indexRoot latestKey = .ok latest

/-- A hierarchy whose leaves are those that its manifest lists. -/
def ScopedHierarchy.Complete (host : Host) (hierarchy : ScopedHierarchy) : Prop :=
  hierarchy.validated host = .ok hierarchy.scopedManifest

theorem complete_of_validated {hierarchy : ScopedHierarchy} {manifest : ScopedManifest}
    (h : hierarchy.validated host = .ok manifest) : hierarchy.Complete host := by
  rw [ScopedHierarchy.Complete, h]
  rw [ScopedHierarchy.validated, validateObservationHistoryExactLeafScopedManifestArtifactV3] at h
  obtain ⟨_, -, h⟩ := Except.bind_eq_ok_iff.mp h
  obtain ⟨_, -, h⟩ := Except.bind_eq_ok_iff.mp h
  obtain ⟨_, -, h⟩ := Except.bind_eq_ok_iff.mp h
  obtain ⟨_, -, h⟩ := Except.bind_eq_ok_iff.mp h
  rw [Except.pure_eq_ok_iff.mp h]

/-- The registry that is built from hierarchies. -/
theorem build_eq (hroot : normalizePrefix indexRoot "indexRoot" = .ok indexRoot)
    (hkey : ∀ label, normalizeKey (.str latestKey) label = .ok latestKey) (hne : kept ≠ [])
    (hkept : ∀ hierarchy ∈ kept, hierarchy.Complete host) :
    buildObservationHistoryExactLeafIndexV3Latest host kept indexRoot latestKey
      = latestArtifactFromRoots host
        (Sorting.sortBy compareScopes (kept.map ScopedHierarchy.root)) indexRoot latestKey := by
  have hmapM : kept.mapM (ScopedHierarchy.validated host)
      = .ok (kept.map ScopedHierarchy.scopedManifest) := by
    refine (Except.mapM_eq_ok_iff _ _ _).mpr (List.forall₂_map_right_iff.mpr ?_)
    exact List.forall₂_same.mpr hkept
  have hroots : rootsFromHierarchies host kept
      = .ok (Sorting.sortBy compareScopes (kept.map ScopedHierarchy.root)) := by
    rw [rootsFromHierarchies, Except.refuseIf_neg (by rwa [List.isEmpty_iff]), hmapM]
    refine congrArg (fun roots ↦ Except.ok (Sorting.sortBy compareScopes roots)) ?_
    rw [List.map_map]
    rfl
  rw [buildObservationHistoryExactLeafIndexV3Latest, hroots, hroot, hkey]
  rfl

theorem complete_of_build
    (hbuild : buildObservationHistoryExactLeafIndexV3Latest host initial indexRoot latestKey
      = .ok latest) :
    initial ≠ [] ∧ ∀ hierarchy ∈ initial, hierarchy.Complete host := by
  rw [buildObservationHistoryExactLeafIndexV3Latest, rootsFromHierarchies] at hbuild
  obtain ⟨_, hroots, -⟩ := Except.bind_eq_ok_iff.mp hbuild
  obtain ⟨_, hsome, hroots⟩ := Except.bind_eq_ok_iff.mp hroots
  obtain ⟨manifests, hmapM, -⟩ := Except.bind_eq_ok_iff.mp hroots
  rw [Except.refuseIf_eq_ok_iff, List.isEmpty_iff] at hsome
  refine ⟨hsome, fun hierarchy hmem ↦ ?_⟩
  obtain ⟨manifest, hmanifest⟩ :=
    (Except.exists_mapM_eq_ok_iff _ initial).mp ⟨manifests, hmapM⟩ hierarchy hmem
  exact complete_of_validated hmanifest

theorem Holds.readable_of_overlay (h : Holds host indexRoot latestKey held latest roots)
    {update : Update} {scope : Scope} {root : ScopedRoot}
    (hstored : ∀ manifest ∈ update.replacementScopedManifests, manifest.Stored host indexRoot)
    (hkeyed : Keyed held) (hheld : overlay host held update scope = some root) :
    Readable host indexRoot root := by
  rw [overlay] at hheld
  split_ifs at hheld
  rcases Option.or_eq_some_iff.mp hheld with hreplaced | ⟨-, hbefore⟩
  · obtain ⟨manifest, hmanifest, rfl⟩ := List.mem_map.mp (rootOf_eq_some hreplaced).1
    exact (hstored manifest hmanifest).readable
  · obtain rfl := hkeyed scope root hbefore
    exact h.readable root ((h.lists root).mpr hbefore)

/-- An update that leaves something succeeds. -/
theorem Holds.exists_update (hroot : normalizePrefix indexRoot "indexRoot" = .ok indexRoot)
    (hkey : ∀ label, normalizeKey (.str latestKey) label = .ok latestKey)
    (h : Holds host indexRoot latestKey held latest roots) (hkeyed : Keyed held) {update : Update}
    (hstored : ∀ manifest ∈ update.replacementScopedManifests, manifest.Stored host indexRoot)
    (hnormal : ∀ raw ∈ update.removedScopes, ∃ scope, normalizeScope host raw = .ok scope)
    {scope : Scope} {root : ScopedRoot} (hsome : overlay host held update scope = some root) :
    ∃ latest', updateObservationHistoryExactLeafIndexV3Latest host latest.toArtifact update
      indexRoot latestKey = .ok latest' := by
  have hvalid :=
    validate_latestArtifactFromRoots hroot hkey h.ne_nil h.sorted h.readable h.built
  -- neither loop fails
  rcases hreplaced : replaceRoots host update.replacementScopedManifests
      (OrderedMap.ofList (roots.map fun root ↦ (root.toScope, root))) with _ | replaced
  · obtain ⟨_, manifest, hmem, herror⟩ := Except.exists_error_of_foldlM hreplaced
    rw [(hstored manifest hmem).exact] at herror
    cases herror
  rcases hremoved : removeScopes host update.removedScopes replaced with _ | byScope
  · obtain ⟨_, raw, hmem, herror⟩ := Except.exists_error_of_foldlM hremoved
    obtain ⟨removed, hraw⟩ := hnormal raw hmem
    rw [hraw] at herror
    cases herror
  have hget := get?_of_loops hreplaced hremoved
  rw [h.lists.rootOf_eq (oneEach_of_sorted h.sorted) hkeyed] at hget
  have hmem : root ∈ Sorting.sortBy compareScopes byScope.values := by
    rw [Sorting.mem_sortBy, OrderedMap.mem_values]
    exact ⟨scope, byScope.get?_eq_some_iff.mp (hget ▸ hsome)⟩
  have hread : ∀ other ∈ Sorting.sortBy compareScopes byScope.values,
      Readable host indexRoot other := by
    intro other hother
    obtain ⟨place, hplace⟩ := OrderedMap.mem_values.mp (Sorting.mem_sortBy.mp hother)
    exact h.readable_of_overlay hstored hkeyed (hget ▸ byScope.get?_eq_some_iff.mpr hplace)
  obtain ⟨latest', hlatest⟩ := exists_latestArtifactFromRoots hkey hread
  refine ⟨latest', Except.bind_eq_ok_iff.mpr ⟨roots, hvalid, Except.bind_eq_ok_iff.mpr
    ⟨replaced, hreplaced, Except.bind_eq_ok_iff.mpr ⟨byScope, hremoved, Except.bind_eq_ok_iff.mpr
    ⟨(), Except.refuseIf_eq_ok_iff.mpr fun hempty ↦ ?_, Except.bind_eq_ok_iff.mpr ⟨_, hroot,
    Except.bind_eq_ok_iff.mpr ⟨_, hkey _, hlatest⟩⟩⟩⟩⟩⟩⟩
  rw [List.isEmpty_iff.mp hempty] at hmem
  exact List.not_mem_nil hmem

/-- One step of a run. -/
theorem Holds.update (hroot : normalizePrefix indexRoot "indexRoot" = .ok indexRoot)
    (hkey : ∀ label, normalizeKey (.str latestKey) label = .ok latestKey)
    (h : Holds host indexRoot latestKey held latest roots) (hkeyed : Keyed held) {update : Update}
    (hstored : ∀ manifest ∈ update.replacementScopedManifests, manifest.Stored host indexRoot)
    (hupdate : updateObservationHistoryExactLeafIndexV3Latest host latest.toArtifact update
      indexRoot latestKey = .ok latest') :
    ∃ survivors, Holds host indexRoot latestKey (overlay host held update) latest' survivors := by
  have hvalid :=
    validate_latestArtifactFromRoots hroot hkey h.ne_nil h.sorted h.readable h.built
  obtain ⟨survivors, hne, hsorted, hlists, hbuilt⟩ := roots_of_update hroot hkey hvalid hupdate
  rw [h.lists.rootOf_eq (oneEach_of_sorted h.sorted) hkeyed] at hlists
  exact ⟨survivors, hne, hsorted, hlists,
    fun root hmem ↦ h.readable_of_overlay hstored hkeyed ((hlists root).mp hmem), hbuilt⟩

/-- **A run ends with a registry of what survives.** -/
theorem holds_of_run (hroot : normalizePrefix indexRoot "indexRoot" = .ok indexRoot)
    (hkey : ∀ label, normalizeKey (.str latestKey) label = .ok latestKey)
    (hinitial : ∀ hierarchy ∈ initial, Readable host indexRoot hierarchy.root)
    (hone : OneEach (initial.map ScopedHierarchy.root))
    (hbuild : buildObservationHistoryExactLeafIndexV3Latest host initial indexRoot latestKey
      = .ok latest)
    (hstored : ∀ update ∈ updates, ∀ manifest ∈ update.replacementScopedManifests,
      manifest.Stored host indexRoot)
    (hrun : runUpdates host indexRoot latestKey latest updates = .ok latest') :
    ∃ roots, Holds host indexRoot latestKey (surviving host initial updates) latest' roots := by
  obtain ⟨hne, hcomplete⟩ := complete_of_build hbuild
  rw [build_eq hroot hkey hne hcomplete] at hbuild
  have hfirst : Holds host indexRoot latestKey (surviving host initial []) latest
      (Sorting.sortBy compareScopes (initial.map ScopedHierarchy.root)) :=
    { ne_nil := fun hnil ↦ hne (List.map_eq_nil_iff.mp (List.perm_nil.mp
        ((Sorting.sortBy_perm _).symm.trans (.of_eq hnil))))
      sorted := Sorting.pairwise_lt_sortBy hone.pairwise_ne
      lists := fun root ↦ Sorting.mem_sortBy.trans (lists_rootOf hone root)
      readable := fun root hmem ↦ by
        obtain ⟨hierarchy, hhierarchy, rfl⟩ := List.mem_map.mp (Sorting.mem_sortBy.mp hmem)
        exact hinitial hierarchy hhierarchy
      built := hbuild }
  refine @Except.foldlM_invariant _ _ _ _ _ _ _ (fun done latest ↦ ∃ roots,
    Holds host indexRoot latestKey (surviving host initial done) latest roots) hrun
    ⟨_, hfirst⟩ ?_
  rintro done update rest before after rfl ⟨roots, hholds⟩ hupdate
  rw [surviving, List.foldl_append]
  exact hholds.update hroot hkey (keyed_surviving initial done)
    (hstored update (List.mem_append_right _ List.mem_cons_self)) hupdate

end Run

/-! ### A scope that is written again -/

theorem length_utf8_ofList (cs : List Char) :
    (utf8 (String.ofList cs)).length = (cs.map Char.utf8Size).sum := by
  rw [utf8, List.length_map, String.toByteArray_ofList, List.utf8Encode, List.data_toByteArray,
    List.toList_toArray, List.length_flatMap]
  refine congrArg List.sum (List.map_congr_left fun c _ ↦ ?_)
  exact String.length_utf8EncodeChar c

theorem length_utf8_canonicalJson (value : JsValue) :
    (utf8 value.canonicalJson).length
      = ((value.canonicalize.chars 2 0 ++ ['\n']).map Char.utf8Size).sum :=
  length_utf8_ofList _

def sampleSha256 : String := "dddddddddddddddddddddddddddddddddddddddddddddddddddddddddddddddd"

/-- The built-in operations on the values at hand. -/
def sampleHost : Host where
  sha256Hex _ := sampleSha256
  toLowerCase s := String.ofList (s.toList.map Char.toLower)
  decodeUtf8 _ := ""
  parseJson _ := none
  safeInteger value :=
    match value with
    | .num t => (parseDigits 10 t.toList).map Int.ofNat
    | _ => none
  sumText counts := toString counts.sum
  dateParse text := if text = "2023-03-04T00:00:00.000Z" then some 1677888000000 else none

def sampleLeaf : ExactLeaf :=
  let payload : JsValue := .obj [("kind", .str "observation_timeseries_physical_leaf"),
    ("physical_layout_version", .str "timeseries-aligned-v2"), ("aligned_row_cap", .int 1024),
    ("exact_leaf_index_version", .str "exact-timeseries-leaf-v1"), ("timeseries_id", .int 12),
    ("segments", .arr []), ("files", .arr [])]
  { kind := "observation_history_index_v3_exact_leaf"
    publicationStage := "child_shard"
    key := defaultIndexRoot ++ "/day_utc=2023-03-04/connector_id=7/pollutant_code=no2/"
      ++ "timeseries_id=000000012.json"
    payload := payload
    body := payload.canonicalJson
    byteSize := 248
    sha256 := sampleSha256
    timeseriesId := 12
    reads_timeseriesId := rfl }

def sampleManifest : ScopedManifest :=
  let payload : JsValue := .obj [
    ("kind", .str "observation_timeseries_physical_leaf_scoped_manifest"),
    ("day_utc", .str "2023-03-04"), ("connector_id", .int 7), ("pollutant_code", .str "no2"),
    ("decode_profile", exactLeafDecodeProfile),
    ("leaves_by_timeseries_id", leavesByTimeseriesId [sampleLeaf]),
    ("coverage", .obj [("row_count", .int 24), ("timeseries_count", .int 1),
      ("physical_leaf_count", .int 1), ("physical_file_count", .int 1),
      ("min_observed_at_utc", .str "2023-03-04T00:00:00.000Z"),
      ("max_observed_at_utc", .str "2023-03-04T00:00:00.000Z")])]
  { toScope := ⟨"2023-03-04", 7, "no2"⟩
    kind := "observation_history_index_v3_exact_leaf_scoped_manifest"
    publicationStage := "scoped_manifest"
    key := scopedManifestKey defaultIndexRoot ⟨"2023-03-04", 7, "no2"⟩
    payload := payload
    body := payload.canonicalJson
    byteSize := 1603
    sha256 := sampleSha256
    rowCount := 24
    timeseriesCount := 1
    physicalLeafCount := 1
    physicalFileCount := 1
    minObservedAtUtc := "2023-03-04T00:00:00.000Z"
    maxObservedAtUtc := "2023-03-04T00:00:00.000Z"
    reads_scope := ⟨rfl, rfl, rfl⟩
    reads_coverage := by
      simp only [List.forall_mem_cons]
      exact ⟨rfl, rfl, rfl, rfl, rfl, rfl, List.forall_mem_nil _⟩ }

def sampleHierarchy : ScopedHierarchy := ⟨sampleManifest, some [sampleLeaf], none⟩

theorem validate_sampleLeaf :
    validateObservationHistoryExactLeafArtifactV3 sampleHost sampleLeaf = .ok sampleLeaf :=
  Except.bind_eq_ok_iff.mpr ⟨sampleLeaf.toArtifact,
    artifactBodyIsExact_of_written rfl
      (congrArg Nat.cast ((length_utf8_canonicalJson _).trans (by decide +kernel))) rfl,
    Except.bind_eq_ok_iff.mpr ⟨(), Except.refuseIf_eq_ok_iff.mpr (by decide +kernel), rfl⟩⟩

theorem artifactBodyIsExact_sampleManifest :
    artifactBodyIsExact sampleHost sampleManifest.toArtifact
      "observation_history_index_v3_exact_leaf_scoped_manifest" "scoped_manifest"
        = .ok sampleManifest.toArtifact := by
  have hsize : ((sampleManifest.payload.canonicalize.chars 2 0 ++ ['\n']).map
      Char.utf8Size).sum = 1603 := by
    decide +kernel
  exact artifactBodyIsExact_of_written rfl
    (congrArg Nat.cast ((length_utf8_canonicalJson _).trans hsize)) rfl

theorem stored_sampleManifest : sampleManifest.Stored sampleHost defaultIndexRoot := by
  have hread : (normalizedRegistryRoot sampleHost (scopedRootDescriptor sampleManifest).toValue
      defaultIndexRoot "").toOption = some (scopedRootDescriptor sampleManifest) := by
    decide +kernel
  exact ⟨Except.bind_eq_ok_iff.mpr ⟨_, artifactBodyIsExact_sampleManifest, rfl⟩,
    readable_of_read (Except.toOption_eq_some_iff.mp hread)⟩

theorem complete_sampleHierarchy : sampleHierarchy.Complete sampleHost :=
  Except.bind_eq_ok_iff.mpr ⟨_, artifactBodyIsExact_sampleManifest,
    Except.bind_eq_ok_iff.mpr ⟨(), Except.refuseIf_eq_ok_iff.mpr
      (not_or.mpr ⟨by decide, not_not.mpr rfl⟩), Except.bind_eq_ok_iff.mpr ⟨[sampleLeaf],
      (Except.mapM_eq_ok_iff _ _ _).mpr (.cons validate_sampleLeaf .nil),
    Except.bind_eq_ok_iff.mpr ⟨(), Except.refuseIf_eq_ok_iff.mpr (not_not.mpr rfl), rfl⟩⟩⟩⟩

end UkAqOps.Registry

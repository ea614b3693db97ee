import UkAqOps.BindingSource.Manifests
import UkAqOps.Lib.OrderedMap
import UkAqOps.Lib.Stateful

/-!
# The inventory of the timeseries bindings

A run writes one shard for each range of the source and a root over the shards, and returns a
reference to the root for the next run. A normal run reads the manifests of the source. It returns
the previous reference when the root of the source is the one that reference was made from, and
takes over what the previous reference lists of a range that has not changed. A full scan reads
every binding file and must agree with the manifests.

A run is a computation over the files of the inventory that may throw: what was written before it
throws stays written.
-/

namespace UkAqOps.Backup

open Sorting BindingSource

/-! ## What a run reads -/

/-- An entry of `rclone lsjson`. -/
structure ListedFile where
  path : String
  md5 : Option String
  modTime : Option String

/-- The source as a run finds it: its manifests by key, the listing of a directory, the text of a
file, and the path that messages name a file by. -/
structure BindingFiles where
  rootManifest : String → Option SourceRootManifest
  rangeManifest : String → Option SourceRangeManifest
  listing : String → List ListedFile
  text : String → Option String
  joinTargetPath : String → String

/-- The texts of the inventory files, by key. -/
abbrev InventoryFiles := String → Option String

abbrev InventoryRun := ExceptT String (StateM InventoryFiles)

section Inventory

variable (sha256Hex : String → String)

/-- Write a document unless the file already has its text, and return the hash of the text. -/
def writeRemoteJson (dryRun : Bool) (relativePath : String) (payload : JsValue) :
    InventoryRun String := do
  let text := payload.canonicalJson
  let files ← get
  let changed := files relativePath ≠ some text
  if changed ∧ dryRun = false then
    set (Function.update files relativePath (some text))
  return sha256Hex text

/-! ## Shards and the root -/

def timeseriesBindingRangeKey (rangeStart rangeEnd : ℕ) : Except String String := do
  normalizeRangeBounds rangeStart rangeEnd
  return rangeName rangeStart rangeEnd

def timeseriesBindingRangeInventoryShardKey (inventoryRootPrefix : String)
    (rangeStart rangeEnd : ℕ) : Except String String := do
  let basePath ← normalizeRelativePath inventoryRootPrefix "inventory root prefix"
  let rangeKey ← timeseriesBindingRangeKey rangeStart rangeEnd
  return basePath ++ fileSuffix "timeseries_binding" rangeKey

def timeseriesBindingInventoryRootKey (inventoryRootPrefix : String) : Except String String := do
  let basePath ← normalizeRelativePath inventoryRootPrefix "inventory root prefix"
  return basePath ++ fileSuffix "timeseries_binding" "root"

/-- The shard as it is stored. -/
def RangeInventoryShard.toJs (shard : RangeInventoryShard) : JsValue :=
  .obj [("schema_version", .int 1),
    ("kind", .str "uk_aq_r2_history_backup_inventory_timeseries_binding_range"),
    ("backup_version", .str "v2"), ("range_size", .int rangeSize),
    ("range_start", .int shard.rangeStart), ("range_end", .int shard.rangeEnd),
    ("source_prefix", .str shard.sourcePrefix), ("source_range_hash", .str shard.sourceRangeHash),
    ("units", .arr (shard.units.map fun unit ↦ .obj [("timeseries_id", .int unit.key.1),
      ("relative_path", .str unit.relativePath), ("hash", .str unit.hash),
      ("size", sizeJs unit.size), ("r2_md5", textJs unit.r2Md5),
      ("r2_modtime", textJs unit.r2Modtime)]))]

/-- The root over the shards. -/
structure BindingRootInventory where
  sourcePrefix : String
  sourceRootHash : String
  ranges : List RangeReference

/-- The root as it is stored. -/
def BindingRootInventory.toJs (root : BindingRootInventory) : JsValue :=
  .obj [("schema_version", .int 1),
    ("kind", .str "uk_aq_r2_history_backup_inventory_timeseries_binding_root"),
    ("backup_version", .str "v2"), ("range_size", .int rangeSize),
    ("source_prefix", .str root.sourcePrefix), ("source_root_hash", .str root.sourceRootHash),
    ("ranges", .arr (root.ranges.map hashRange))]

def normalizeRange (entry : RangeReference) : Except String RangeReference := do
  let inventoryShardKey ← normalizeRelativePath entry.inventoryShardKey "relative path"
  return { entry with inventoryShardKey }

def buildTimeseriesBindingRootInventory (sourcePrefix : String) (ranges : List RangeReference) :
    Except String BindingRootInventory := do
  let normalizedRanges ← ranges.mapM normalizeRange
  let normalizedRanges := sortRanges normalizedRanges
  let sourcePrefix ← normalizeRelativePath sourcePrefix "timeseries binding prefix"
  return ⟨sourcePrefix, rootSourceHash sha256Hex normalizedRanges, normalizedRanges⟩

/-- What a run returns for the next one. -/
structure BindingRootReference where
  inventoryRootKey : String
  inventoryRootHash : String
  sourceRootHash : String
  sourceManifestRootKey : Option String
  sourceManifestRootHash : Option String
  ranges : List RangeReference

def validateTimeseriesBindingRootReference (reference : BindingRootReference) :
    Except String BindingRootReference := do
  let inventoryRootKey ← normalizeRelativePath reference.inventoryRootKey "relative path"
  let ranges ← reference.ranges.mapM normalizeRange
  let sourceManifestRootKey ← (reference.sourceManifestRootKey.filter (· ≠ "")).mapM
    (normalizeRelativePath · "relative path")
  return { reference with
    inventoryRootKey
    sourceManifestRootKey
    ranges := sortRanges ranges }

/-- Write the root over the ranges and make the reference to it. -/
def publishRoot (dryRun : Bool) (sourcePrefix inventoryRootKey sourceManifestRootKey
    sourceManifestRootHash : String) (ranges : List RangeReference) :
    InventoryRun BindingRootReference := do
  let bindingRoot ← buildTimeseriesBindingRootInventory sha256Hex sourcePrefix ranges
  let inventoryRootHash ← writeRemoteJson sha256Hex dryRun inventoryRootKey bindingRoot.toJs
  return ⟨inventoryRootKey, inventoryRootHash, bindingRoot.sourceRootHash,
    some sourceManifestRootKey, some sourceManifestRootHash, ranges⟩

/-! ## The normal run -/

def sourceUnitsToBackupUnits (units : List SourceUnit) : List (ListedUnit TimeseriesId) :=
  units.map fun entry ↦ ⟨entry.timeseriesId, entry.relativePath, entry.sha256, some entry.size,
    entry.r2Md5, none⟩

def sourceRangeMatchesBackupRange (sourceRangeRef : SourceRangeReference)
    (backupRangeRef : RangeReference) (expectedShardKey : String) : Bool :=
  backupRangeRef.rangeStart = sourceRangeRef.rangeStart ∧
    backupRangeRef.rangeEnd = sourceRangeRef.rangeEnd ∧
    backupRangeRef.sourceRangeHash = sourceRangeRef.sourceRangeHash ∧
    backupRangeRef.unitCount = sourceRangeRef.unitCount ∧
    backupRangeRef.inventoryShardKey = expectedShardKey

/-- What `new Map(ranges)` holds for a range. -/
def previousRange (previousReference : Option BindingRootReference) (rangeStart : ℕ) :
    Option RangeReference :=
  (((previousReference.map BindingRootReference.ranges).getD []).filter fun entry ↦
    entry.rangeStart = rangeStart).getLast?

/-- One turn of the loop over the ranges of the source. -/
def inventoryRange (source : BindingFiles) (sourcePrefix inventoryRootPrefix : String)
    (previousReference : Option BindingRootReference) (dryRun : Bool)
    (sourceRangeRef : SourceRangeReference) : InventoryRun RangeReference := do
  let expectedShardKey ← timeseriesBindingRangeInventoryShardKey inventoryRootPrefix
    sourceRangeRef.rangeStart sourceRangeRef.rangeEnd
  match (previousRange previousReference sourceRangeRef.rangeStart).filter
      (sourceRangeMatchesBackupRange sourceRangeRef · expectedShardKey) with
  | some previousRange => return previousRange
  | none =>
    match source.rangeManifest sourceRangeRef.manifestKey with
    | none => throw s!"Timeseries binding source range missing: {sourceRangeRef.manifestKey}"
    | some sourceRangeRaw =>
      let sourceRange ← validateTimeseriesBindingSourceRangeManifest sha256Hex sourceRangeRaw
      Except.refuseIf (sourceRange.rangeStart ≠ sourceRangeRef.rangeStart ∨
          sourceRange.rangeEnd ≠ sourceRangeRef.rangeEnd ∨
          sourceRange.sourceRangeHash ≠ sourceRangeRef.sourceRangeHash ∨
          lengthOf sourceRange.units ≠ sourceRangeRef.unitCount)
        s!"Timeseries binding source root/range mismatch: {sourceRangeRef.manifestKey}"
      let backupShard ← buildTimeseriesBindingRangeInventoryShard sha256Hex sourcePrefix
        sourceRange.rangeStart sourceRange.rangeEnd (sourceUnitsToBackupUnits sourceRange.units)
      Except.refuseIf (backupShard.sourceRangeHash ≠ sourceRange.sourceRangeHash)
        s!"Timeseries binding source/backup range hash mismatch: {sourceRangeRef.manifestKey}"
      let _ ← writeRemoteJson sha256Hex dryRun expectedShardKey backupShard.toJs
      return ⟨sourceRangeRef.rangeStart, sourceRangeRef.isRange, sourceRange.sourceRangeHash,
        expectedShardKey, lengthOf sourceRange.units⟩

/-- The root of the source is the one that the previous reference was made from. -/
def RootUnchanged (previousReference : BindingRootReference) (sourceManifestRootKey : String)
    (bindingSourceRoot : SourceRootManifest) : Prop :=
  previousReference.sourceManifestRootKey = some sourceManifestRootKey ∧
    previousReference.sourceManifestRootHash = some bindingSourceRoot.sourceRootHash

instance (previousReference : BindingRootReference) (sourceManifestRootKey : String)
    (bindingSourceRoot : SourceRootManifest) :
    Decidable (RootUnchanged previousReference sourceManifestRootKey bindingSourceRoot) :=
  inferInstanceAs (Decidable (_ ∧ _))

def buildNormalInventory (source : BindingFiles) (sourcePrefix inventoryRootPrefix : String)
    (previousReference : Option BindingRootReference) (dryRun : Bool) :
    InventoryRun BindingRootReference := do
  let sourceManifestRootKey := timeseriesBindingSourceRootKey sourcePrefix
  match source.rootManifest sourceManifestRootKey with
  | none =>
    throw (s!"Authoritative timeseries binding source hierarchy is missing: " ++
      s!"{sourceManifestRootKey}. Run " ++
      "scripts/backup_r2/uk_aq_refresh_timeseries_binding_source_hierarchy.mjs " ++
      "before the normal backup inventory.")
  | some sourceRootRaw =>
    let bindingSourceRoot ← validateTimeseriesBindingSourceRootManifest sha256Hex sourceRootRaw
    Except.refuseIf (bindingSourceRoot.sourcePrefix ≠ sourcePrefix)
      "Timeseries binding source hierarchy prefix mismatch"
    let inventoryRootKey ← timeseriesBindingInventoryRootKey inventoryRootPrefix
    match previousReference.filter
        (RootUnchanged · sourceManifestRootKey bindingSourceRoot) with
    | some previousReference => return previousReference
    | none =>
      let ranges ← bindingSourceRoot.ranges.mapM
        (inventoryRange sha256Hex source sourcePrefix inventoryRootPrefix previousReference dryRun)
      publishRoot sha256Hex dryRun sourcePrefix inventoryRootKey sourceManifestRootKey
        bindingSourceRoot.sourceRootHash ranges

/-! ## The full scan -/

def entryRelativePath (entry : ListedFile) : String :=
  stripLeadingSlashes (slashed (trimText entry.path))

/-- The identifier in a name that `/^timeseries_id=([1-9]\d*)\.json$/` matches. -/
def bindingFileId? (relative : String) : Option ℕ :=
  let digits := (relative.toList.drop 14).take (relative.toList.length - 19)
  if startsWithText relative "timeseries_id=" = true ∧ endsWithText relative ".json" = true ∧
      digits ≠ [] ∧ digits.all Char.isDigit = true ∧ digits.head? ≠ some '0' then
    some (Nat.ofDigitChars 10 digits 0)
  else none

/-- A size, if it is a safe integer. -/
def safeSize (n : ℕ) : Option Size := if h : (n : ℤ) ≤ maxSafeInteger then some ⟨n, h⟩ else none

def readBinding (source : BindingFiles) (sourcePrefix : String) (file : ListedFile × ℕ) :
    Except String (ListedUnit ℕ) := do
  let relativePath := sourcePrefix ++ "/" ++ entryRelativePath file.1
  match source.text relativePath with
  | none => throw s!"rclone cat: object not found: {source.joinTargetPath relativePath}"
  | some text =>
    return ⟨file.2, relativePath, sha256Hex text, safeSize text.utf8ByteSize, file.1.md5,
      file.1.modTime⟩

/-- The binding files of a directory, read and hashed. -/
def physicalBindings (source : BindingFiles) (sourcePrefix : String) :
    Except String (List (ListedUnit ℕ)) :=
  ((source.listing sourcePrefix).filterMap fun entry ↦
    (bindingFileId? (entryRelativePath entry)).map (entry, ·)).mapM
      (readBinding sha256Hex source sourcePrefix)

def normalizeTimeseriesId (unit : ListedUnit ℕ) : Except String (ListedUnit TimeseriesId) :=
  if h : 0 < unit.key ∧ (unit.key : ℤ) ≤ maxSafeInteger then .ok { unit with key := ⟨unit.key, h⟩ }
  else .error s!"Invalid timeseries_id: {unit.key}"

/-- What of a unit the full scan compares with the source. -/
def UnitsAgree (sourceUnits : List SourceUnit) (unit : ListedUnit TimeseriesId) : Prop :=
  ∃ sourceUnit ∈ (sourceUnits.filter fun entry ↦ entry.timeseriesId = unit.key).getLast?,
    sourceUnit.sha256 = unit.hash ∧ sourceUnit.relativePath = unit.relativePath ∧
      some sourceUnit.size = unit.size

instance (sourceUnits : List SourceUnit) (unit : ListedUnit TimeseriesId) :
    Decidable (UnitsAgree sourceUnits unit) :=
  inferInstanceAs (Decidable (∃ _ ∈ _, _ ∧ _ ∧ _))

/-- One turn of the loop over the groups of the files. -/
def scanRange (source : BindingFiles) (sourcePrefix inventoryRootPrefix : String)
    (sourceRanges : List SourceRangeReference) (dryRun : Bool)
    (group : ℕ × List (ListedUnit TimeseriesId)) : InventoryRun RangeReference := do
  let rangeStart := group.1
  let rangeEnd := rangeStart + rangeSize - 1
  let shard ← buildTimeseriesBindingRangeInventoryShard sha256Hex sourcePrefix rangeStart rangeEnd
    group.2
  match (sourceRanges.filter fun entry ↦ entry.rangeStart = rangeStart).getLast?.filter
      fun sourceRef ↦ sourceRef.sourceRangeHash = shard.sourceRangeHash ∧
        sourceRef.unitCount = lengthOf shard.units with
  | none => throw s!"Full binding scan disagrees with source range {rangeStart}-{rangeEnd}"
  | some sourceRef =>
    let sourceRange ← ((source.rangeManifest sourceRef.manifestKey).mapM
      (validateTimeseriesBindingSourceRangeManifest sha256Hex) : Except String _)
    match sourceRange.filter fun sourceRange ↦
        sourceRange.sourceRangeHash = shard.sourceRangeHash with
    | none => throw s!"Full binding scan cannot validate source range {sourceRef.manifestKey}"
    | some sourceRange =>
      (shard.units.forM fun unit ↦ Except.refuseIf (¬UnitsAgree sourceRange.units unit)
        s!"Full binding scan disagrees with source unit {unit.key.1}" : Except String Unit)
      let shardKey ← timeseriesBindingRangeInventoryShardKey inventoryRootPrefix rangeStart rangeEnd
      let _ ← writeRemoteJson sha256Hex dryRun shardKey shard.toJs
      return ⟨sourceRef.rangeStart, sourceRef.isRange, shard.sourceRangeHash, shardKey,
        lengthOf shard.units⟩

def buildFullScanInventory (source : BindingFiles) (sourcePrefix inventoryRootPrefix : String)
    (dryRun : Bool) : InventoryRun BindingRootReference := do
  let sourceManifestRootKey := timeseriesBindingSourceRootKey sourcePrefix
  match source.rootManifest sourceManifestRootKey with
  | none =>
    throw s!"Cannot full-scan bindings without authoritative source root: {sourceManifestRootKey}"
  | some sourceRootRaw =>
    let bindingSourceRoot ← validateTimeseriesBindingSourceRootManifest sha256Hex sourceRootRaw
    let units ← physicalBindings sha256Hex source sourcePrefix
    let units ← ((sortBy (fun left right ↦ compare left.key right.key) units).mapM
      normalizeTimeseriesId : Except String _)
    let groups := OrderedMap.groupBy (fun unit ↦ rangeStartOf unit.key) units
    Except.refuseIf (groups.size ≠ bindingSourceRoot.ranges.length)
      "Full binding scan disagrees with source hierarchy range count"
    let ranges ← (sortBy (fun left right ↦ compare left.1 right.1) groups.entries).mapM
      (scanRange sha256Hex source sourcePrefix inventoryRootPrefix bindingSourceRoot.ranges dryRun)
    let inventoryRootKey ← timeseriesBindingInventoryRootKey inventoryRootPrefix
    publishRoot sha256Hex dryRun sourcePrefix inventoryRootKey sourceManifestRootKey
      bindingSourceRoot.sourceRootHash ranges

def buildTimeseriesBindingInventory (source : BindingFiles) (sourcePrefix inventoryRootPrefix : String)
    (previousRootReference : Option BindingRootReference) (fullScan dryRun : Bool) :
    InventoryRun BindingRootReference := do
  let normalizedSourcePrefix ← normalizeRelativePath sourcePrefix "timeseries binding source prefix"
  let previousReference ← (previousRootReference.mapM validateTimeseriesBindingRootReference :
    Except String _)
  if fullScan then
    buildFullScanInventory sha256Hex source normalizedSourcePrefix inventoryRootPrefix dryRun
  else
    buildNormalInventory sha256Hex source normalizedSourcePrefix inventoryRootPrefix
      previousReference dryRun

end Inventory

end UkAqOps.Backup

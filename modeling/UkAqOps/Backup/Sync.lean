import UkAqOps.Backup.Checkpoints

/-!
# The two backup runs

`syncCoreToDropbox` copies the core days, `syncTimeseriesBindingsToDropbox` the timeseries
bindings, range by range. Both skip what a persisted hash says is copied already: a unit whose
recorded hash is the listed one, a whole shard or range whose processed source hash is that of the
inventory, and the bindings altogether when the root hash is.
-/

namespace UkAqOps.Backup

open Effects

variable (sha256Hex : String → String) (options : BackupOptions)

/-! ## Core days -/

abbrev CoreProg (α : Type) : Type := BackupProg CoreInventoryShard String α

structure CoreReport where
  sourceHash : String
  processedSourceHash : Option String
  listed : ℕ
  candidates : ℕ
  copied : ℕ
  dryRun : ℕ
  stateShardsWritten : ℕ
  checkpointFlushCount : ℕ
  complete : Bool

/-- `writeStateJson` of the core shard. -/
def writeCoreState (state : ShardState String) : CoreProg Bool :=
  writeStateJson 0 state

def coreMismatch (day : ListedUnit String) (sourceHash : String) : String :=
  s!"Core source manifest hash mismatch for {day.key}: inventory={day.hash} source={sourceHash}"

/-- The validated shard, if it is the one that the root refers to. -/
def checkCoreInventory (reference : CoreRootReference) (raw : CoreInventoryShard) :
    Except String CoreInventoryShard := do
  let inventory ← validateCoreInventoryShard sha256Hex raw
  Except.refuseIf
    (sha256Hex (JsValue.canonicalJson inventory.toJs) ≠ reference.inventoryShardHash
      ∨ inventory.sourceHash ≠ reference.sourceHash ∨ inventory.days.length ≠ reference.unitCount)
    "Core inventory root/shard mismatch"
  return inventory

def readCoreInventory (reference : Option CoreRootReference) : CoreProg CoreInventoryShard :=
  match reference with
  | none => throw "Hierarchical inventory root is missing core"
  | some reference => do
    let raw ← readInventoryJson reference.inventoryShardKey
    Prog.ofExcept (checkCoreInventory sha256Hex reference raw)

/-- What follows the copies of a core run: the last checkpoint. -/
def finishCore (inventory : CoreInventoryShard) (isNew : Bool) (candidates : ℕ)
    (progress : Progress String) : CoreProg CoreReport := do
  let finished := if !options.dryRun && progress.state.isComplete inventory.days then
    progress.complete { progress.state with processedSourceHash := some inventory.sourceHash }
  else progress
  let (flushed, wrote) ← flush options writeCoreState true finished
  let last ← if !wrote && isNew then writeInitial writeCoreState flushed else pure flushed
  return {
    sourceHash := inventory.sourceHash
    processedSourceHash := last.state.processedSourceHash
    listed := inventory.days.length
    candidates := candidates
    copied := last.copied
    dryRun := last.dryRun
    stateShardsWritten := last.stateShardsWritten
    checkpointFlushCount := last.checkpointFlushCount
    complete := last.state.processedSourceHash = some inventory.sourceHash }

def syncCoreToDropbox (reference : Option CoreRootReference) : CoreProg CoreReport := do
  let inventory ← readCoreInventory sha256Hex reference
  let stateResult ← readStateJsonMaybe 0
  let (state, trimmed) := (stateResult.getD .skeleton).trim inventory.days
  if state.processedSourceHash = some inventory.sourceHash then
    return {
      sourceHash := inventory.sourceHash
      processedSourceHash := state.processedSourceHash
      listed := inventory.days.length
      candidates := 0
      copied := 0
      dryRun := 0
      stateShardsWritten := 0
      checkpointFlushCount := 0
      complete := true }
  let candidates := uncopied state inventory.days
  let time ← now
  let copied ← candidates.foldlM (copyUnit options writeCoreState coreMismatch)
    ⟨state, stateResult.isNone || trimmed, 0, time, 0, 0, 0, 0⟩
  finishCore options inventory stateResult.isNone candidates.length copied

/-! ## Timeseries bindings -/

abbrev BindingProg (α : Type) : Type := BackupProg RangeInventoryShard TimeseriesId α

structure BindingReport where
  sourceRootHash : String
  processedSourceRootHash : Option String
  rangesTotal : ℕ
  rangesSkipped : ℕ
  rangesInspected : ℕ
  filesCandidates : ℕ
  filesCopied : ℕ
  filesDryRun : ℕ
  stateShardsWritten : ℕ
  checkpointFlushCount : ℕ
  incompleteRanges : List String

/-- `writeStateJson` of the shard of a range, followed by the summary of the range. -/
def writeRangeState (rangeStart : ℕ) (state : ShardState TimeseriesId) : BindingProg Bool := do
  let written ← writeStateJson rangeStart state
  upsertRootRangeSummary rangeStart state.processedSourceHash
  return written

def bindingMismatch (unit : ListedUnit TimeseriesId) (sourceHash : String) : String :=
  s!"Timeseries binding source hash mismatch for {unit.key.1}: "
    ++ s!"inventory={unit.hash} source={sourceHash}"

/-- The validated shard, if it is the one that the root lists for the range. -/
def checkRangeInventory (range : RangeReference) (raw : RangeInventoryShard) :
    Except String RangeInventoryShard := do
  let shard ← validateTimeseriesBindingRangeInventoryShard sha256Hex raw
  Except.refuseIf
    (shard.rangeStart ≠ range.rangeStart ∨ shard.rangeEnd ≠ range.rangeEnd
      ∨ shard.sourceRangeHash ≠ range.sourceRangeHash ∨ shard.units.length ≠ range.unitCount.1)
    s!"Timeseries binding inventory range mismatch for {range.rangeStart}-{range.rangeEnd}"
  return shard

def readRangeInventory (range : RangeReference) : BindingProg RangeInventoryShard := do
  let raw ← readInventoryJson range.inventoryShardKey
  Prog.ofExcept (checkRangeInventory sha256Hex range raw)

def planTimeseriesBindingRangeCopies (state : ShardState TimeseriesId)
    (inventory : RangeInventoryShard) : List (ListedUnit TimeseriesId) :=
  if state.processedSourceHash = some inventory.sourceRangeHash then []
  else uncopied state inventory.units

def completeTimeseriesBindingRangeState (state : ShardState TimeseriesId)
    (inventory : RangeInventoryShard) : Except String (ShardState TimeseriesId) := do
  Except.refuseIf (state.isComplete inventory.units = false)
    (s!"Cannot complete timeseries binding range {inventory.rangeStart}-{inventory.rangeEnd}: "
      ++ "one or more binding identities are incomplete")
  return ⟨some inventory.sourceRangeHash,
    state.units.filterKeys fun key ↦ key ∈ inventory.units.map ListedUnit.key⟩

/-- The last checkpoint of a range, and the summary of the range even where nothing was written. -/
def closeRange (inventory : RangeInventoryShard) (isNew : Bool)
    (progress : Progress TimeseriesId) : BindingProg (Progress TimeseriesId) := do
  let (flushed, wrote) ← flush options (writeRangeState inventory.rangeStart) true progress
  if wrote then
    return flushed
  else if isNew then
    writeInitial (writeRangeState inventory.rangeStart) flushed
  else do
    upsertRootRangeSummary inventory.rangeStart flushed.state.processedSourceHash
    return flushed

/-- What follows the copies of a range. -/
def finishRange (inventory : RangeInventoryShard) (isNew : Bool)
    (progress : Progress TimeseriesId) : BindingProg (Progress TimeseriesId) :=
  if !options.dryRun && progress.state.isComplete inventory.units then do
    let state ← Prog.ofExcept (completeTimeseriesBindingRangeState progress.state inventory)
    closeRange options inventory isNew (progress.complete state)
  else closeRange options inventory isNew progress

/-- One round of the loop over the ranges. -/
def syncRange (report : BindingReport) (range : RangeReference) : BindingProg BindingReport := do
  let root ← readRootState
  if root.processedSourceRangeHash range.rangeStart = some range.sourceRangeHash then
    return { report with rangesSkipped := report.rangesSkipped + 1 }
  let inventory ← readRangeInventory sha256Hex range
  let stateResult ← readStateJsonMaybe range.rangeStart
  let (state, trimmed) := (stateResult.getD .skeleton).trim inventory.units
  let time ← now
  let candidates := planTimeseriesBindingRangeCopies state inventory
  let copied ← candidates.foldlM
    (copyUnit options (writeRangeState inventory.rangeStart) bindingMismatch)
    ⟨state, stateResult.isNone || trimmed, 0, time, 0, 0, 0, 0⟩
  let last ← finishRange options inventory stateResult.isNone copied
  return { report with
    rangesInspected := report.rangesInspected + 1
    filesCandidates := report.filesCandidates + candidates.length
    filesCopied := report.filesCopied + last.copied
    filesDryRun := report.filesDryRun + last.dryRun
    stateShardsWritten := report.stateShardsWritten + last.stateShardsWritten
    checkpointFlushCount := report.checkpointFlushCount + last.checkpointFlushCount
    incompleteRanges :=
      if last.state.processedSourceHash ≠ some range.sourceRangeHash then
        report.incompleteRanges ++ [s!"{range.rangeStart}-{range.rangeEnd}"]
      else report.incompleteRanges }

/-- Drop the summaries of ranges that are not listed any more. -/
def enterRoot (inventory : RootReference) : BindingProg RootState := do
  let before ← readRootState
  let rangeStarts := inventory.ranges.map RangeReference.rangeStart
  if before.ranges.keys.any fun rangeStart ↦ rangeStart ∉ rangeStarts then do
    retainRootRanges rangeStarts
    readRootState
  else return before

/-- Set the root hash when every range has its listed summary. -/
def closeRoot (inventory : RootReference) : BindingProg RootState := do
  let root ← readRootState
  if !options.dryRun && root.isComplete inventory then do
    completeRoot (inventory.sourceRootHash sha256Hex)
    readRootState
  else return root

def syncTimeseriesBindingsToDropbox (reference : Option RootReference) :
    BindingProg BindingReport :=
  match reference with
  | none => throw "Hierarchical inventory root is missing timeseries_binding"
  | some inventory => do
    let root ← enterRoot inventory
    let report : BindingReport := {
      sourceRootHash := inventory.sourceRootHash sha256Hex
      processedSourceRootHash := root.processedSourceRootHash
      rangesTotal := inventory.ranges.length
      rangesSkipped := 0
      rangesInspected := 0
      filesCandidates := 0
      filesCopied := 0
      filesDryRun := 0
      stateShardsWritten := 0
      checkpointFlushCount := 0
      incompleteRanges := [] }
    if root.processedSourceRootHash = some (inventory.sourceRootHash sha256Hex) then
      return { report with rangesSkipped := inventory.ranges.length }
    else do
      let report ← (sortRanges inventory.ranges).foldlM (syncRange sha256Hex options) report
      let root ← closeRoot sha256Hex options inventory
      return { report with processedSourceRootHash := root.processedSourceRootHash }

end UkAqOps.Backup

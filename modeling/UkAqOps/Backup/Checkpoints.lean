import UkAqOps.Backup.Inventory
import UkAqOps.Lib.Effects
import UkAqOps.Lib.OrderedMap

/-!
# The copying runs of the hierarchical backup

A run compares the listed units with what a state shard records, copies the others one by one, and
writes the shard at checkpoints on the way. The core metadata has one shard. The timeseries
bindings have a shard for every range, and above them a root state with one summary a range, an
object of the caller that the run changes in place and that the caller stores later.
-/

namespace UkAqOps.Backup

open Effects

/-! ## State shards -/

/-- What a shard records of a copied unit. -/
structure RecordedUnit where
  hash : String
  copiedAt : ℤ

/-- A state shard: the units it records, by key, and the source hash of the inventory that it was
last completed for. -/
structure ShardState (κ : Type) where
  processedSourceHash : Option String
  units : OrderedMap κ RecordedUnit

namespace ShardState

variable {κ : Type}

/-- `emptyCoreState`, `buildTimeseriesBindingRangeStateSkeleton`. -/
def skeleton : ShardState κ := ⟨none, .empty⟩

variable [DecidableEq κ]

/-- The hash recorded for a unit. -/
def hashOf (state : ShardState κ) (key : κ) : Option String :=
  (state.units.get? key).map RecordedUnit.hash

/-- `markTimeseriesBindingCopied`. -/
def markCopied (state : ShardState κ) (unit : ListedUnit κ) (copiedAt : ℤ) : ShardState κ :=
  ⟨none, state.units.set unit.key ⟨unit.hash, copiedAt⟩⟩

/-- Forget the units that are not listed any more, and tell whether there were any. -/
def trim (state : ShardState κ) (units : List (ListedUnit κ)) : ShardState κ × Bool :=
  let kept := state.units.filterKeys fun key ↦ key ∈ units.map ListedUnit.key
  if kept.size ≠ state.units.size then (⟨none, kept⟩, true) else (state, false)

/-- Every listed unit is recorded with its listed hash. -/
def isComplete (state : ShardState κ) (units : List (ListedUnit κ)) : Bool :=
  units.all fun unit ↦ state.hashOf unit.key = some unit.hash

theorem hashOf_markCopied (state : ShardState κ) (unit : ListedUnit κ) (copiedAt : ℤ) (key : κ) :
    (state.markCopied unit copiedAt).hashOf key =
      if key = unit.key then some unit.hash else state.hashOf key := by
  rw [hashOf, markCopied, OrderedMap.get?_set]
  by_cases hkey : key = unit.key
  · rw [if_pos hkey, if_pos hkey]
    rfl
  · rw [if_neg hkey, if_neg hkey]
    rfl

/-- Trimming keeps what is recorded of listed units, and forgets the rest. -/
theorem hashOf_trim (state : ShardState κ) (units : List (ListedUnit κ)) (key : κ) :
    (state.trim units).1.hashOf key =
      if key ∈ units.map ListedUnit.key then state.hashOf key else none := by
  have hfilter : ((⟨none, state.units.filterKeys fun key ↦ key ∈ units.map ListedUnit.key⟩ :
      ShardState κ)).hashOf key =
        if key ∈ units.map ListedUnit.key then state.hashOf key else none := by
    rw [hashOf, OrderedMap.get?_filterKeys]
    by_cases hkey : key ∈ units.map ListedUnit.key
    · rw [if_pos (decide_eq_true hkey), if_pos hkey]
      rfl
    · rw [if_neg (by simpa using hkey), if_neg hkey]
      rfl
  rw [trim]
  split
  · exact hfilter
  · rename_i hsize
    rw [not_ne_iff] at hsize
    rw [OrderedMap.filterKeys_eq_self hsize] at hfilter
    exact hfilter

/-- A shard that still says what it is complete for was not trimmed. -/
theorem trim_eq_of_processed {state : ShardState κ} {units : List (ListedUnit κ)} {hash : String}
    (h : (state.trim units).1.processedSourceHash = some hash) : (state.trim units).1 = state := by
  rw [trim] at h ⊢
  split at h
  · cases h
  · rename_i hsize
    rw [if_neg hsize]

/-- A shard that was trimmed says nothing about what it is complete for. -/
theorem processedSourceHash_of_trimmed {state : ShardState κ} {units : List (ListedUnit κ)}
    (h : (state.trim units).2 = true) : (state.trim units).1.processedSourceHash = none := by
  rw [trim] at h ⊢
  split at h
  · rename_i hsize
    rw [if_pos hsize]
  · cases h

theorem isComplete_iff {state : ShardState κ} {units : List (ListedUnit κ)} :
    state.isComplete units = true ↔ ∀ unit ∈ units, state.hashOf unit.key = some unit.hash := by
  rw [isComplete, List.all_eq_true]
  exact forall₂_congr fun _ _ ↦ decide_eq_true_iff

end ShardState

/-! ## The calls of a run -/

/-- The state that the backup keeps above the shards of the bindings: the root hash it was completed
for, and of each range the source hash that the range was completed for. -/
structure RootState where
  processedSourceRootHash : Option String
  ranges : OrderedMap ℕ (Option String)

namespace RootState

/-- The hash of the range that a summary says is complete. -/
def processedSourceRangeHash (root : RootState) (rangeStart : ℕ) : Option String :=
  (root.ranges.get? rangeStart).join

def upsertRangeSummary (root : RootState) (rangeStart : ℕ) (processed : Option String) : RootState :=
  ⟨none, root.ranges.set rangeStart processed⟩

/-- Keep the summaries of the listed ranges only. -/
def retain (root : RootState) (rangeStarts : List ℕ) : RootState :=
  ⟨none, root.ranges.filterKeys fun rangeStart ↦ rangeStart ∈ rangeStarts⟩

def isComplete (root : RootState) (inventory : RootReference) : Bool :=
  inventory.ranges.all fun range ↦
    root.processedSourceRangeHash range.rangeStart = some range.sourceRangeHash

theorem processedSourceRangeHash_upsert (root : RootState) (rangeStart : ℕ)
    (processed : Option String) (start : ℕ) :
    (root.upsertRangeSummary rangeStart processed).processedSourceRangeHash start =
      if start = rangeStart then processed else root.processedSourceRangeHash start := by
  rw [processedSourceRangeHash, upsertRangeSummary, OrderedMap.get?_set]
  by_cases hstart : start = rangeStart
  · rw [if_pos hstart, if_pos hstart]
    rfl
  · rw [if_neg hstart, if_neg hstart]
    rfl

theorem processedSourceRangeHash_retain {root : RootState} {rangeStarts : List ℕ} {start : ℕ}
    {hash : String}
    (h : (root.retain rangeStarts).processedSourceRangeHash start = some hash) :
    root.processedSourceRangeHash start = some hash := by
  rw [processedSourceRangeHash, retain, OrderedMap.get?_filterKeys] at h
  split at h
  · exact h
  · cases h

end RootState

/-- The calls of a run. The state shards are numbered by the start of their range; the core domain
has the one shard `0`. -/
inductive BackupCall (κ : Type) where
  | readInventoryJson (key : String)
  | readStateJsonMaybe (shard : ℕ)
  | copyAndVerify (unit : ListedUnit κ)
  | writeStateJson (shard : ℕ) (state : ShardState κ)
  | now
  | rootState
  | retainRootRanges (rangeStarts : List ℕ)
  | upsertRootRangeSummary (rangeStart : ℕ) (processedSourceRangeHash : Option String)
  | completeRoot (sourceRootHash : String)

/-- A copy answers with the hash of what it copied, a write tells whether it changed the file. -/
def BackupAnswer (ι κ : Type) : BackupCall κ → Type
  | .readInventoryJson _ => ι
  | .readStateJsonMaybe _ => Option (ShardState κ)
  | .copyAndVerify _ => String
  | .writeStateJson _ _ => Bool
  | .now => ℤ
  | .rootState => RootState
  | .retainRootRanges _ => Unit
  | .upsertRootRangeSummary _ _ => Unit
  | .completeRoot _ => Unit

/-- A run of the backup over inventory shards of type `ι` that list units with keys `κ`. -/
abbrev BackupProg (ι κ α : Type) : Type := Prog (BackupAnswer ι κ) String α

section Calls

variable {ι κ : Type}

def readInventoryJson (key : String) : BackupProg ι κ ι := Prog.await (BackupCall.readInventoryJson key)

def readStateJsonMaybe (shard : ℕ) : BackupProg ι κ (Option (ShardState κ)) :=
  Prog.await (BackupCall.readStateJsonMaybe shard)

def copyAndVerify (unit : ListedUnit κ) : BackupProg ι κ String := Prog.await (BackupCall.copyAndVerify unit)

def writeStateJson (shard : ℕ) (state : ShardState κ) : BackupProg ι κ Bool :=
  Prog.await (BackupCall.writeStateJson shard state)

/-- `Date.now()`. -/
def now : BackupProg ι κ ℤ := Prog.await BackupCall.now

/-- The root state as it is in memory. -/
def readRootState : BackupProg ι κ RootState := Prog.await BackupCall.rootState

def retainRootRanges (rangeStarts : List ℕ) : BackupProg ι κ Unit :=
  Prog.await (BackupCall.retainRootRanges rangeStarts)

def upsertRootRangeSummary (rangeStart : ℕ) (processed : Option String) : BackupProg ι κ Unit :=
  Prog.await (BackupCall.upsertRootRangeSummary rangeStart processed)

def completeRoot (sourceRootHash : String) : BackupProg ι κ Unit :=
  Prog.await (BackupCall.completeRoot sourceRootHash)

end Calls

structure BackupOptions where
  dryRun : Bool
  checkpointBatchUnits : ℕ
  checkpointFlushSeconds : ℤ

/-! ## Checkpoints -/

variable {ι κ : Type} [DecidableEq κ]

/-- What a run keeps in its variables while it copies the units of a shard. -/
structure Progress (κ : Type) where
  state : ShardState κ
  dirty : Bool
  dirtyUnits : ℕ
  lastFlushAt : ℤ
  copied : ℕ
  dryRun : ℕ
  stateShardsWritten : ℕ
  checkpointFlushCount : ℕ

section Checkpoints

variable (options : BackupOptions) (write : ShardState κ → BackupProg ι κ Bool)

/-- A checkpoint is due when it is forced, or after enough units or enough time. -/
def checkpointDue (force : Bool) (progress : Progress κ) : BackupProg ι κ Bool :=
  if force || options.checkpointBatchUnits ≤ progress.dirtyUnits then pure true
  else do
    let time ← now
    return decide (options.checkpointFlushSeconds * 1000 ≤ time - progress.lastFlushAt)

def writeCheckpoint (progress : Progress κ) : BackupProg ι κ (Progress κ) := do
  let written ← write progress.state
  let time ← now
  return { progress with
    dirty := false
    dirtyUnits := 0
    lastFlushAt := time
    stateShardsWritten := progress.stateShardsWritten + if written then 1 else 0
    checkpointFlushCount := progress.checkpointFlushCount + 1 }

/-- Write the shard if something changed and a checkpoint is due, and tell whether it was written. -/
def flush (force : Bool) (progress : Progress κ) : BackupProg ι κ (Progress κ × Bool) :=
  if progress.dirty = false then pure (progress, false)
  else do
    let due ← checkpointDue options force progress
    if due then do
      let next ← writeCheckpoint write progress
      return (next, true)
    else return (progress, false)

/-- What the loop does with an error: save what was recorded so far, then throw it on. -/
def giveUp {α : Type} (progress : Progress κ) (error : String) : BackupProg ι κ α := do
  if !options.dryRun then
    let _ ← flush options write true progress
  throw error

def Progress.markCopied (progress : Progress κ) (unit : ListedUnit κ) (copiedAt : ℤ) : Progress κ :=
  { progress with
    state := progress.state.markCopied unit copiedAt
    dirty := true
    dirtyUnits := progress.dirtyUnits + 1
    copied := progress.copied + 1 }

/-- One round of the copying loop, which is the same for the days of the core metadata and for the
bindings of a range. -/
def copyUnit (mismatch : ListedUnit κ → String → String) (progress : Progress κ)
    (unit : ListedUnit κ) : BackupProg ι κ (Progress κ) := do
  tryCatch (do
      let sourceHash ← copyAndVerify unit
      Prog.ofExcept (Except.refuseIf (sourceHash ≠ unit.hash) (mismatch unit sourceHash)))
    (giveUp options write progress)
  if options.dryRun then
    return { progress with dryRun := progress.dryRun + 1 }
  let copiedAt ← now
  -- a checkpoint that cannot be written is tried once more on the way out
  let marked := progress.markCopied unit copiedAt
  let (flushed, _) ← tryCatch (flush options write false marked) (giveUp options write marked)
  return flushed

/-- The first thing after a complete listing: the shard says which inventory it is complete for. -/
def Progress.complete (progress : Progress κ) (state : ShardState κ) : Progress κ :=
  { progress with state := state, dirty := true, dirtyUnits := progress.dirtyUnits + 1 }

/-- Write the shard once more where nothing was written although there was no shard yet. -/
def writeInitial (progress : Progress κ) : BackupProg ι κ (Progress κ) := do
  let written ← write progress.state
  return { progress with
    stateShardsWritten := progress.stateShardsWritten + if written then 1 else 0
    checkpointFlushCount := progress.checkpointFlushCount + 1 }

end Checkpoints

/-- The units whose listed hash is not the recorded one. -/
def uncopied (state : ShardState κ) (units : List (ListedUnit κ)) : List (ListedUnit κ) :=
  units.filter fun unit ↦ state.hashOf unit.key ≠ some unit.hash

end UkAqOps.Backup

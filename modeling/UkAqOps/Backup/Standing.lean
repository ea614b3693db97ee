import UkAqOps.Backup.Sync
import UkAqOps.Lib.Restart

/-!
# What the destination holds

The world around the backup runs: the destination, the stored state shards, and the root state in
memory and as it was last stored. A copy overwrites the destination before anything is recorded, so
the world also follows what no file says: for each unit whether its last copy was recorded, and for
each root state the ranges it is behind, to which copies went since their summary was made.

Where no unit is lost, what a shard records is what the destination holds, and a root state that is
not behind a range tells the truth about it.
-/

namespace UkAqOps.Backup

open Effects

/-! ## The world -/

/-- What became of the last copy of a unit: it is recorded, it arrived and waits for its record, or
it failed, or its run ended, before it was recorded. -/
inductive Standing where
  | settled
  | landed
  | lost
  deriving DecidableEq

/-- A root state, and the ranges to which copies went since their summary in it was made. -/
structure Root where
  state : RootState
  behind : List ℕ

structure World (κ : Type) where
  /-- The hash of what the destination holds of a unit. -/
  holds : κ → Option String
  shards : ℕ → Option (ShardState κ)
  standing : κ → Standing
  /-- The object that a run changes in place. -/
  root : Root
  rootFile : Root

namespace World

variable {κ : Type} [DecidableEq κ]

/-- Nothing is recorded yet, whatever the destination holds. -/
def initial (holds : κ → Option String) : World κ where
  holds := holds
  shards _ := none
  standing _ := .settled
  root := ⟨⟨none, .empty⟩, []⟩
  rootFile := ⟨⟨none, .empty⟩, []⟩

/-- A run starts with the root state as it is stored, and without anything that waits. -/
def begin (w : World κ) : World κ :=
  { w with
    standing := fun key ↦ if w.standing key = .landed then .lost else w.standing key
    root := w.rootFile }

/-- A copy has gone to a unit. -/
def copied (w : World κ) (home : κ → ℕ) (unit : ListedUnit κ) (held : Option String)
    (standing : Standing) : World κ :=
  { w with
    holds := Function.update w.holds unit.key held
    standing := Function.update w.standing unit.key standing
    root := ⟨w.root.state, home unit.key :: w.root.behind⟩
    rootFile := ⟨w.rootFile.state, home unit.key :: w.rootFile.behind⟩ }

/-- A state shard is stored, and what it records settles. -/
def wrote (w : World κ) (shard : ℕ) (state : ShardState κ) : World κ :=
  { w with
    shards := Function.update w.shards shard (some state)
    standing := fun key ↦
      if w.standing key = .landed ∧ state.hashOf key ≠ none then .settled else w.standing key }

/-- The root state in memory changes. -/
def withRoot (w : World κ) (root : Root) : World κ := { w with root := root }

/-- The caller stores the root state. -/
def storeRoot (w : World κ) : World κ := { w with rootFile := w.root }

section Fields

variable (w : World κ) (home : κ → ℕ) (unit : ListedUnit κ) (held : Option String)
  (standing : Standing) (shard : ℕ) (state : ShardState κ)

@[simp] theorem holds_copied : (w.copied home unit held standing).holds =
    Function.update w.holds unit.key held := rfl

@[simp] theorem standing_copied : (w.copied home unit held standing).standing =
    Function.update w.standing unit.key standing := rfl

@[simp] theorem shards_wrote : (w.wrote shard state).shards =
    Function.update w.shards shard (some state) := rfl

theorem standing_wrote (key : κ) : (w.wrote shard state).standing key =
    if w.standing key = .landed ∧ state.hashOf key ≠ none then .settled else w.standing key := rfl

/-- Writing a shard neither loses a unit nor finds one. -/
theorem standing_wrote_eq_lost_iff {key : κ} :
    (w.wrote shard state).standing key = .lost ↔ w.standing key = .lost := by
  rw [standing_wrote]
  split
  · rename_i h
    rw [h.1]
    exact ⟨fun h ↦ Standing.noConfusion h, fun h ↦ Standing.noConfusion h⟩
  · exact Iff.rfl

/-- At the start of a run everything that waited is lost. -/
theorem standing_begin_ne_landed (key : κ) : w.begin.standing key ≠ .landed := by
  rw [begin]
  dsimp only
  split
  · exact fun h ↦ Standing.noConfusion h
  · assumption

end Fields

end World

/-- A summary is made, so the root is not behind its range any more. -/
def Root.upsertRangeSummary (root : Root) (rangeStart : ℕ) (processed : Option String) : Root :=
  ⟨root.state.upsertRangeSummary rangeStart processed, root.behind.filter (· ≠ rangeStart)⟩

/-! ## How the world answers -/

section Answers

variable {ι κ : Type} [DecidableEq κ]
variable (home : κ → ℕ) (source : String → Option ι) (dryRun : Bool) (faults : Prop)

/-- How a copy ends: verified against the source, or failed with anything at the destination. -/
inductive CopyEnds (unit : ListedUnit κ) :
    Except String String → Option String → Standing → Prop
  | arrived : CopyEnds unit (.ok unit.hash) (some unit.hash) .landed
  | changed (sourceHash : String) (hfaults : faults) (hne : sourceHash ≠ unit.hash) :
      CopyEnds unit (.ok sourceHash) (some sourceHash) .lost
  | failed (error : String) (held : Option String) (hfaults : faults) :
      CopyEnds unit (.error error) held .lost

/-- What a call may answer and how it changes the world. A file of the source that does not exist
cannot be read. Beyond that a read or a copy may fail where there are `faults`, and that failed may
have reached the store or not. A dry run leaves the destination and the shards alone. -/
def answers (w : World κ) : (c : BackupCall κ) → Except String (BackupAnswer ι κ c) → World κ → Prop
  | .readInventoryJson key, r, w' =>
    w' = w ∧ ((∃ raw, r = .ok raw ∧ source key = some raw) ∨
      ((faults ∨ source key = none) ∧ ∃ e, r = .error e))
  | .readStateJsonMaybe shard, r, w' =>
    w' = w ∧ (r = .ok (w.shards shard) ∨ (faults ∧ ∃ e, r = .error e))
  | .copyAndVerify unit, r, w' =>
    if dryRun then w' = w ∧ (r = .ok unit.hash ∨ faults)
    else ∃ held standing, CopyEnds faults unit r held standing ∧ w' = w.copied home unit held standing
  | .writeStateJson shard state, r, w' =>
    if dryRun then w' = w ∧ ((∃ b, r = .ok b) ∨ faults)
    else (w' = w.wrote shard state ∧ ((∃ b, r = .ok b) ∨ faults)) ∨
      (w' = w ∧ faults ∧ ∃ e, r = .error e)
  | .now, r, w' => w' = w ∧ ∃ time : ℤ, r = .ok time
  | .rootState, r, w' => w' = w ∧ r = .ok w.root.state
  | .retainRootRanges rangeStarts, r, w' =>
    r = .ok () ∧ w' = w.withRoot ⟨w.root.state.retain rangeStarts, w.root.behind⟩
  | .upsertRootRangeSummary rangeStart processed, r, w' =>
    r = .ok () ∧ w' = w.withRoot (w.root.upsertRangeSummary rangeStart processed)
  | .completeRoot hash, r, w' =>
    r = .ok () ∧ w' = w.withRoot ⟨⟨some hash, w.root.state.ranges⟩, w.root.behind⟩

/-- The world as an environment in which `Inv` has to hold whenever a call is made. -/
def backupEnv (Inv : World κ → Prop) : Env (BackupAnswer ι κ) String (World κ) where
  permits w _ := Inv w
  answers := answers home source dryRun faults

end Answers

/-! ## A world that answers -/

section Respond

variable {ι κ : Type} [DecidableEq κ] (home : κ → ℕ) (source : String → Option ι)

/-- The answers of a world without faults, except that with `failing` every copy fails and leaves
the given hash behind. -/
def respond (failing : Option (Option String)) (w : World κ) :
    (c : BackupCall κ) → Except String (BackupAnswer ι κ c) × World κ
  | .readInventoryJson key =>
    (match source key with
      | some raw => .ok raw
      | none => .error "not found", w)
  | .readStateJsonMaybe shard => (.ok (w.shards shard), w)
  | .copyAndVerify unit =>
    match failing with
    | none => (.ok unit.hash, w.copied home unit (some unit.hash) .landed)
    | some held => (.error "copy failed", w.copied home unit held .lost)
  | .writeStateJson shard state => (.ok true, w.wrote shard state)
  | .now => (.ok (0 : ℤ), w)
  | .rootState => (.ok w.root.state, w)
  | .retainRootRanges rangeStarts =>
    (.ok (), w.withRoot ⟨w.root.state.retain rangeStarts, w.root.behind⟩)
  | .upsertRootRangeSummary rangeStart processed =>
    (.ok (), w.withRoot (w.root.upsertRangeSummary rangeStart processed))
  | .completeRoot hash => (.ok (), w.withRoot ⟨⟨some hash, w.root.state.ranges⟩, w.root.behind⟩)

theorem answers_respond {faults : Prop} {failing : Option (Option String)}
    (hfailing : failing ≠ none → faults) (w : World κ) (c : BackupCall κ) :
    answers home source false faults w c (respond home source failing w c).1
      (respond home source failing w c).2 := by
  rcases c with key | shard | unit | ⟨shard, state⟩ | _ | _ | _ | _ | _
  · rcases hsource : source key with _ | raw
    · exact ⟨rfl, Or.inr ⟨Or.inr hsource, _, by rw [respond, hsource]⟩⟩
    · exact ⟨rfl, Or.inl ⟨raw, by rw [respond, hsource], hsource⟩⟩
  · exact ⟨rfl, Or.inl rfl⟩
  · rcases failing with _ | held
    · exact ⟨_, _, .arrived, rfl⟩
    · exact ⟨_, _, .failed _ held (hfailing (Option.some_ne_none held)), rfl⟩
  · exact Or.inl ⟨rfl, Or.inl ⟨true, rfl⟩⟩
  · exact ⟨rfl, 0, rfl⟩
  · exact ⟨rfl, rfl⟩
  · exact ⟨rfl, rfl⟩
  · exact ⟨rfl, rfl⟩
  · exact ⟨rfl, rfl⟩

end Respond

end UkAqOps.Backup

import UkAqOps.Backup.Loading

/-!
# Runs over the core days

What a run of `syncCoreToDropbox` is given, which days it skips, and its specification: at every
call the records tell the truth and the skipped days are held, and where nothing fails the shard
ends up complete for the inventory.
-/

namespace UkAqOps.Backup

open Effects

/-- The core domain has the one shard `0`. -/
def coreHome (_ : String) : ℕ := 0

/-- What a run over the core days is given. A directory lists each day once. -/
structure CoreRun where
  options : BackupOptions
  reference : Option CoreRootReference
  source : String → Option CoreInventoryShard
  listedOnce : ∀ key raw, source key = some raw → (raw.days.map ListedUnit.key).Nodup

variable (sha256Hex : String → String)

namespace CoreRun

/-- The inventory that the run works with, if the source has one that passes its checks. -/
def inventory (run : CoreRun) : Option CoreInventoryShard := do
  let reference ← run.reference
  let raw ← run.source reference.inventoryShardKey
  (checkCoreInventory sha256Hex reference raw).toOption

/-- The days that the run does not copy. -/
def skipped (run : CoreRun) (w : World String) : List (ListedUnit String) :=
  match run.inventory sha256Hex with
  | none => []
  | some inventory =>
    skippedUnits ((w.stored 0).trim inventory.days).1 inventory.sourceHash inventory.days

/-- No day is listed with the hash that is recorded for it although a later copy of the day was begun
and never recorded. -/
def NeverLost (run : CoreRun) (w : World String) : Prop :=
  ∀ inventory, run.inventory sha256Hex = some inventory → NoneLost w 0 inventory.days

/-- The run itself. -/
def program (run : CoreRun) : CoreProg CoreReport :=
  syncCoreToDropbox sha256Hex run.options run.reference

end CoreRun

variable {sha256Hex} {faults : Prop} {run : CoreRun} {kept : List (ListedUnit String)}
variable {before w : World String} {inventory : CoreInventoryShard}

theorem CoreRun.inventory_spec (h : run.inventory sha256Hex = some inventory) :
    inventory.sourceHash = coreSourceHash sha256Hex inventory.days ∧
      (inventory.days.map ListedUnit.key).Nodup := by
  obtain ⟨reference, -, h⟩ := Option.bind_eq_some_iff.mp h
  obtain ⟨raw, hraw, h⟩ := Option.bind_eq_some_iff.mp h
  obtain ⟨shard, hshard, h⟩ := Except.bind_eq_ok_iff.mp (Except.toOption_eq_some_iff.mp h)
  obtain ⟨_, -, h⟩ := Except.bind_eq_ok_iff.mp h
  obtain ⟨hhash, hperm⟩ := validateCoreInventoryShard_spec hshard
  rw [← Except.pure_eq_ok_iff.mp h]
  exact ⟨hhash, hperm.nodup_iff.mpr (run.listedOnce _ raw hraw)⟩

/-- The world of a core run. -/
abbrev coreEnv (sha256Hex : String → String) (faults : Prop) (run : CoreRun)
    (kept : List (ListedUnit String)) :
    Env (BackupAnswer CoreInventoryShard String) String (World String) :=
  copyEnv sha256Hex (coreSourceHash sha256Hex) coreHome run.source faults kept

abbrev CoreSteady (sha256Hex : String → String) (kept : List (ListedUnit String))
    (w : World String) : Prop :=
  Steady sha256Hex (coreSourceHash sha256Hex) coreHome kept w

/-- Reading the inventory gives the one of the run, or fails. -/
theorem readCoreInventory_spec (h : CoreSteady sha256Hex kept w) :
    wp (coreEnv sha256Hex faults run kept) (readCoreInventory sha256Hex run.reference)
      (fun w' r ↦ w' = w ∧ EndsWith (faults ∨ run.inventory sha256Hex = none) r fun inventory ↦
        run.inventory sha256Hex = some inventory) w := by
  rw [CoreRun.inventory]
  rcases run.reference with _ | reference
  · exact ⟨rfl, Or.inr ⟨Or.inr rfl, _, rfl⟩⟩
  · rw [readCoreInventory, wp_bind]
    refine wp_readInventoryJson h (fun raw hraw ↦ ?_) fun hfaults e ↦
      ⟨rfl, Or.inr ⟨hfaults.imp_right fun hnone ↦ ?_, e, rfl⟩⟩
    swap
    · simp only [Option.bind_eq_bind, Option.bind_some, hnone, Option.bind_none]
    rw [afterBind_ok, wp_ofExcept]
    simp only [Option.bind_eq_bind, Option.bind_some, hraw]
    rcases checkCoreInventory sha256Hex reference raw with e | inventory
    · exact ⟨trivial, Or.inr ⟨Or.inr rfl, e, rfl⟩⟩
    · exact ⟨trivial, Or.inl ⟨inventory, rfl, rfl⟩⟩

theorem writes_core {units : List (ListedUnit String)} :
    Writes sha256Hex (coreSourceHash sha256Hex) coreHome run.source faults kept units 0 before
      writeCoreState fun _ _ ↦ True := by
  intro w state h _
  refine wp_writeStateJson h.toSteady (fun b ↦ ?_) fun hfaults e ↦ ?_
  · exact ⟨h.wrote, Or.inl ⟨b, rfl, by rw [World.shards_wrote, Function.update_self], trivial⟩⟩
  · exact ⟨⟨h.wrote, Or.inr ⟨hfaults, e, rfl⟩⟩, ⟨h, Or.inr ⟨hfaults, e, rfl⟩⟩⟩

/-- The shard is stored as complete for the inventory, and the report says so. -/
def CoreComplete (inventory : CoreInventoryShard) (w : World String) (report : CoreReport) : Prop :=
  report.processedSourceHash = some inventory.sourceHash ∧ report.complete = true ∧
    (w.stored 0).processedSourceHash = some inventory.sourceHash

/-- After the loop the last checkpoint completes the shard. -/
theorem finishCore_spec (hsha : Function.Injective sha256Hex) (hdry : run.options.dryRun = false)
    (hhash : inventory.sourceHash = coreSourceHash sha256Hex inventory.days)
    {progress : Progress String} (isNew : Bool) (candidates : ℕ)
    (h : Carrying sha256Hex (coreSourceHash sha256Hex) coreHome kept inventory.days 0 before w
      progress.state) (hcomplete : progress.state.isComplete inventory.days = true) :
    wp (coreEnv sha256Hex faults run kept)
      (finishCore run.options inventory isNew candidates progress) (fun w' r ↦
        CoreSteady sha256Hex kept w' ∧ EndsWith faults r fun report ↦
          CoreComplete inventory w' report) w := by
  have hfinished : (!run.options.dryRun && progress.state.isComplete inventory.days) = true := by
    rw [hdry, hcomplete]
    rfl
  rw [finishCore, if_pos hfinished, wp_bind]
  let next : ShardState String :=
    { progress.state with processedSourceHash := some inventory.sourceHash }
  have hnext : Carrying sha256Hex (coreSourceHash sha256Hex) coreHome kept inventory.days 0 before w
      next ∧ SpeaksTruth (coreSourceHash sha256Hex) coreHome 0 w next :=
    h.complete (identifies_coreSourceHash hsha) (fun _ _ hkey ↦ hkey) hcomplete
      (congrArg some hhash)
  have hcarry : Carrying sha256Hex (coreSourceHash sha256Hex) coreHome kept inventory.days 0 before
    w (progress.complete next).state := hnext.1
  refine wp_mono (fun w' r hr ↦ ?_) (flush_spec writes_core true hcarry fun _ ↦ hnext.2)
  obtain ⟨hcarry', ⟨⟨next, wrote⟩, rfl, hstate, -, hwrote, hstored⟩ | ⟨hfaults, e, rfl⟩⟩ := hr
  · have hwrote : wrote = true := hwrote rfl rfl
    dsimp only at hstate
    rw [afterBind_ok]
    simp only [hwrote, Bool.not_true, Bool.false_and, Bool.false_eq_true, if_false]
    refine ⟨hcarry'.toSteady, Or.inl ⟨_, rfl, ?_, ?_, ?_⟩⟩
    · exact congrArg ShardState.processedSourceHash hstate
    · exact decide_eq_true (congrArg ShardState.processedSourceHash hstate)
    · rw [World.stored, (hstored hwrote).1]
      rfl
  · exact ⟨hcarry'.toSteady, Or.inr ⟨hfaults, e, rfl⟩⟩

theorem CoreRun.skipped_eq (run : CoreRun) (sha256Hex : String → String) (w : World String)
    (inventory : CoreInventoryShard) (hinventory : run.inventory sha256Hex = some inventory) :
    run.skipped sha256Hex w = skippedUnits ((w.stored 0).trim inventory.days).1
      inventory.sourceHash inventory.days := by
  rw [CoreRun.skipped, hinventory]

/-- A run that loses nothing begins with the skipped days held. -/
theorem core_steady (hlanded : ∀ key, w.standing key ≠ .landed)
    (hlost : run.NeverLost sha256Hex w)
    (hsound : Sound sha256Hex (coreSourceHash sha256Hex) coreHome w)
    (hroot : TellsTruth sha256Hex (coreSourceHash sha256Hex) coreHome w.holds w.root) :
    CoreSteady sha256Hex (run.skipped sha256Hex w) w := by
  refine ⟨hsound, hroot, fun day hday ↦ ?_⟩
  rcases hinventory : run.inventory sha256Hex with _ | inventory
  · rw [CoreRun.skipped, hinventory] at hday
    exact absurd hday List.not_mem_nil
  · rw [run.skipped_eq sha256Hex w inventory hinventory] at hday
    exact holds_of_skipped hsound (CoreRun.inventory_spec hinventory).1.symm hlanded
      (hlost inventory hinventory) hday

/-- **A core run keeps the records true and the skipped days held**, and where nothing fails it ends
with the shard complete for the inventory. -/
theorem syncCore_spec (hsha : Function.Injective sha256Hex) (hdry : run.options.dryRun = false)
    (hlanded : ∀ key, w.standing key ≠ .landed) (hlost : run.NeverLost sha256Hex w)
    (hsound : Sound sha256Hex (coreSourceHash sha256Hex) coreHome w)
    (hroot : TellsTruth sha256Hex (coreSourceHash sha256Hex) coreHome w.holds w.root) :
    wp (coreEnv sha256Hex faults run (run.skipped sha256Hex w)) (run.program sha256Hex)
      (fun w' r ↦ CoreSteady sha256Hex (run.skipped sha256Hex w) w' ∧
        EndsWith (faults ∨ run.inventory sha256Hex = none) r fun report ↦
          ∃ inventory, run.inventory sha256Hex = some inventory ∧ CoreComplete inventory w' report)
      w := by
  have hskipped := run.skipped_eq sha256Hex w
  have hsteady := core_steady hlanded hlost hsound hroot
  generalize hkept : run.skipped sha256Hex w = kept at hsteady hskipped
  rw [CoreRun.program, syncCoreToDropbox, wp_bind]
  refine wp_mono (fun w₁ r hr ↦ ?_) (readCoreInventory_spec hsteady)
  obtain ⟨rfl, ⟨inventory, rfl, hinventory⟩ | ⟨hfaults, e, rfl⟩⟩ := hr
  swap
  · exact ⟨hsteady, Or.inr ⟨hfaults, e, rfl⟩⟩
  obtain ⟨hhash, hnodup⟩ := CoreRun.inventory_spec hinventory
  rw [afterBind_ok, wp_bind]
  refine wp_readStateJsonMaybe hsteady ?_ fun hfaults e ↦
    ⟨hsteady, Or.inr ⟨Or.inl hfaults, e, rfl⟩⟩
  rw [afterBind_ok]
  have hload : Carrying sha256Hex (coreSourceHash sha256Hex) coreHome kept inventory.days 0 w₁ w₁
      ((w₁.stored 0).trim inventory.days).1 :=
    carrying_load hsteady (elsewhere_refl w₁) (fun key _ ↦ hlanded key)
      (hlost inventory hinventory)
  change wp _ (if ((w₁.stored 0).trim inventory.days).1.processedSourceHash
    = some inventory.sourceHash then _ else _) _ w₁
  by_cases hprocessed : ((w₁.stored 0).trim inventory.days).1.processedSourceHash
      = some inventory.sourceHash
  · rw [if_pos hprocessed]
    refine ⟨hsteady, Or.inl ⟨_, rfl, inventory, hinventory, hprocessed, rfl, ?_⟩⟩
    rw [← ShardState.trim_eq_of_processed hprocessed]
    exact hprocessed
  · rw [if_neg hprocessed, wp_bind]
    refine wp_now hsteady fun time ↦ ?_
    rw [afterBind_ok, wp_bind]
    refine wp_mono (fun w₂ r hr ↦ ?_) (copyUnits_spec writes_core hdry (fun day hday ↦ ?_) hnodup
      (nodup_uncopied hnodup) (copying_start hload))
    · rcases r with e | copied
      · exact ⟨hr.1, Or.inr ⟨Or.inl hr.2, e, rfl⟩⟩
      · refine wp_mono (fun w₃ r hr ↦ ?_)
          (finishCore_spec hsha hdry hhash _ _ hr.carrying (hr.isComplete hnodup))
        obtain ⟨hsteady₃, ⟨report, rfl, hreport⟩ | ⟨hfaults, e, rfl⟩⟩ := hr
        · exact ⟨hsteady₃, Or.inl ⟨report, rfl, inventory, hinventory, hreport⟩⟩
        · exact ⟨hsteady₃, Or.inr ⟨Or.inl hfaults, e, rfl⟩⟩
    · refine candidate_of_uncopied hnodup (fun _ _ ↦ rfl) (fun other hother _ ↦ ?_) hday
      rw [hskipped inventory hinventory] at hother
      exact recorded_of_skipped hhash.symm (complete_trim hsound) hother

end UkAqOps.Backup

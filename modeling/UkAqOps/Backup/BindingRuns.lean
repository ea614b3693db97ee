import UkAqOps.Backup.Loading

/-!
# Runs over the timeseries bindings

What a run of `syncTimeseriesBindingsToDropbox` is given, which bindings it skips, and its
specification. The ranges are disjoint, so a round of the loop over the ranges leaves the shards, the
units and the summaries of all others alone, and what was true of a range when the run began is
still true when its turn comes.
-/

namespace UkAqOps.Backup

open Effects

/-- What a run over the bindings is given. -/
structure BindingRun where
  options : BackupOptions
  reference : Option RootReference
  source : String → Option RangeInventoryShard

variable (sha256Hex : String → String)

namespace BindingRun

/-- The inventory shard of a range, if the source has one that passes the checks. -/
def rangeInventory (run : BindingRun) (range : RangeReference) : Option RangeInventoryShard := do
  let raw ← run.source range.inventoryShardKey
  (checkRangeInventory sha256Hex range raw).toOption

/-- The root state that the run looks at, without the ranges that are not listed any more. -/
def entryRoot (inventory : RootReference) (root : RootState) : RootState :=
  let rangeStarts := inventory.ranges.map RangeReference.rangeStart
  if root.ranges.keys.any fun rangeStart ↦ rangeStart ∉ rangeStarts then root.retain rangeStarts
  else root

/-- The bindings of a range that the run does not copy. -/
def skippedOfRange (run : BindingRun) (inventory : RootReference) (w : World TimeseriesId)
    (range : RangeReference) : List (ListedUnit TimeseriesId) :=
  match run.rangeInventory sha256Hex range with
  | none => []
  | some shard =>
    let root := entryRoot inventory w.root.state
    if root.processedSourceRootHash = some (inventory.sourceRootHash sha256Hex)
        ∨ root.processedSourceRangeHash range.rangeStart = some range.sourceRangeHash then
      shard.units
    else
      skippedUnits ((w.stored range.rangeStart).trim shard.units).1 shard.sourceRangeHash shard.units

/-- The bindings that the run does not copy. -/
def skipped (run : BindingRun) (w : World TimeseriesId) : List (ListedUnit TimeseriesId) :=
  match run.reference with
  | none => []
  | some inventory => inventory.ranges.flatMap (run.skippedOfRange sha256Hex inventory w)

/-- No range is listed with the hash of its stored summary although a later copy to it was begun, and
in the other ranges no binding is listed with the hash that is recorded for it although a later copy
of it was begun and never recorded. -/
def NeverLost (run : BindingRun) (w : World TimeseriesId) : Prop :=
  ∀ inventory, run.reference = some inventory → ∀ range ∈ inventory.ranges,
    if w.root.state.processedSourceRangeHash range.rangeStart = some range.sourceRangeHash then
      range.rangeStart ∉ w.root.behind
    else ∀ shard, run.rangeInventory sha256Hex range = some shard →
      NoneLost w range.rangeStart shard.units

/-- The source has the inventory that the run is to work with. -/
def Readable (run : BindingRun) : Prop :=
  ∃ inventory, run.reference = some inventory ∧
    ∀ range ∈ inventory.ranges, ∃ shard, run.rangeInventory sha256Hex range = some shard

def program (run : BindingRun) : BindingProg BindingReport :=
  syncTimeseriesBindingsToDropbox sha256Hex run.options run.reference

end BindingRun

variable {sha256Hex} {faults : Prop} {run : BindingRun}
variable {kept units : List (ListedUnit TimeseriesId)} {before w : World TimeseriesId}
variable {range : RangeReference} {inventory : RangeInventoryShard}

/-- The world of a run over the bindings. -/
abbrev bindingEnv (sha256Hex : String → String) (faults : Prop) (run : BindingRun)
    (kept : List (ListedUnit TimeseriesId)) :
    Env (BackupAnswer RangeInventoryShard TimeseriesId) String (World TimeseriesId) :=
  copyEnv sha256Hex (rangeSourceHash sha256Hex) rangeStartOf run.source faults kept

abbrev BindingSteady (sha256Hex : String → String) (kept : List (ListedUnit TimeseriesId))
    (w : World TimeseriesId) : Prop :=
  Steady sha256Hex (rangeSourceHash sha256Hex) rangeStartOf kept w

abbrev BindingCarrying (sha256Hex : String → String) (kept units : List (ListedUnit TimeseriesId))
    (shard : ℕ) (before w : World TimeseriesId) (state : ShardState TimeseriesId) : Prop :=
  Carrying sha256Hex (rangeSourceHash sha256Hex) rangeStartOf kept units shard before w state

theorem BindingRun.rangeInventory_spec
    (h : run.rangeInventory sha256Hex range = some inventory) :
    inventory.rangeStart = range.rangeStart ∧
      inventory.sourceRangeHash = range.sourceRangeHash ∧
      inventory.sourceRangeHash = rangeSourceHash sha256Hex inventory.units ∧
      (∀ unit ∈ inventory.units, rangeStartOf unit.key = range.rangeStart) ∧
      (inventory.units.map ListedUnit.key).Nodup := by
  obtain ⟨raw, -, h⟩ := Option.bind_eq_some_iff.mp h
  obtain ⟨shard, hshard, h⟩ := Except.bind_eq_ok_iff.mp (Except.toOption_eq_some_iff.mp h)
  obtain ⟨_, hchecks, h⟩ := Except.bind_eq_ok_iff.mp h
  rw [Except.refuseIf_eq_ok_iff, not_or, not_or, not_or, not_not, not_not, not_not] at hchecks
  obtain ⟨hhash, hunits, hnodup⟩ := validateRangeInventoryShard_spec hshard
  rw [← Except.pure_eq_ok_iff.mp h]
  exact ⟨hchecks.1, hchecks.2.2.1, hhash, fun unit hunit ↦ (hunits unit hunit).trans hchecks.1,
    hnodup⟩

theorem readRangeInventory_spec (h : BindingSteady sha256Hex kept w) (range : RangeReference) :
    wp (bindingEnv sha256Hex faults run kept) (readRangeInventory sha256Hex range)
      (fun w' r ↦ w' = w ∧ EndsWith (faults ∨ run.rangeInventory sha256Hex range = none) r
        fun inventory ↦ run.rangeInventory sha256Hex range = some inventory) w := by
  rw [readRangeInventory, wp_bind, BindingRun.rangeInventory]
  refine wp_readInventoryJson h (fun raw hraw ↦ ?_) fun hfaults e ↦
    ⟨rfl, Or.inr ⟨hfaults.imp_right fun hnone ↦ ?_, e, rfl⟩⟩
  swap
  · simp only [Option.bind_eq_bind, hnone, Option.bind_none]
  rw [afterBind_ok, wp_ofExcept]
  simp only [Option.bind_eq_bind, Option.bind_some, hraw]
  rcases checkRangeInventory sha256Hex range raw with e | inventory
  · exact ⟨trivial, Or.inr ⟨Or.inr rfl, e, rfl⟩⟩
  · exact ⟨trivial, Or.inl ⟨inventory, rfl, rfl⟩⟩

/-- The summary of the range says what the shard says. -/
def Summarised (rangeStart : ℕ) (w : World TimeseriesId) (state : ShardState TimeseriesId) : Prop :=
  w.root.state.processedSourceRangeHash rangeStart = state.processedSourceHash

theorem writes_range (rangeStart : ℕ) :
    Writes sha256Hex (rangeSourceHash sha256Hex) rangeStartOf run.source faults kept units
      rangeStart before (writeRangeState rangeStart) (Summarised rangeStart) := by
  intro w state h hspeaks
  rw [writeRangeState, wp_bind]
  refine wp_writeStateJson h.toSteady (fun b ↦ ?_) fun hfaults e ↦ ?_
  · rw [afterBind_ok, wp_bind]
    refine wp_upsertRootRangeSummary h.wrote.toSteady ?_
    refine ⟨h.wrote.upsert hspeaks, Or.inl ⟨b, rfl, Function.update_self .., ?_⟩⟩
    exact (RootState.processedSourceRangeHash_upsert ..).trans (if_pos rfl)
  · exact ⟨⟨h.wrote, Or.inr ⟨hfaults, e, rfl⟩⟩, ⟨h, Or.inr ⟨hfaults, e, rfl⟩⟩⟩

/-- After the loop the last checkpoint completes the shard and its summary. -/
theorem finishRange_spec (hsha : Function.Injective sha256Hex) (hdry : run.options.dryRun = false)
    (hhash : inventory.sourceRangeHash = rangeSourceHash sha256Hex inventory.units)
    {progress : Progress TimeseriesId} (isNew : Bool)
    (h : BindingCarrying sha256Hex kept inventory.units inventory.rangeStart before w
      progress.state) (hcomplete : progress.state.isComplete inventory.units = true) :
    wp (bindingEnv sha256Hex faults run kept)
      (finishRange run.options inventory isNew progress) (fun w' r ↦
        BindingSteady sha256Hex kept w' ∧
          Elsewhere rangeStartOf inventory.rangeStart before w' ∧
          EndsWith faults r fun _ ↦
            w'.root.state.processedSourceRangeHash inventory.rangeStart
              = some inventory.sourceRangeHash) w := by
  have hfinished : (!run.options.dryRun && progress.state.isComplete inventory.units) = true := by
    rw [hdry, hcomplete]
    rfl
  let next : ShardState TimeseriesId := ⟨some inventory.sourceRangeHash,
    progress.state.units.filterKeys fun key ↦ key ∈ inventory.units.map ListedUnit.key⟩
  have hnextOf : ∀ key, next.hashOf key =
      if key ∈ inventory.units.map ListedUnit.key then progress.state.hashOf key else none := by
    intro key
    rw [ShardState.hashOf, OrderedMap.get?_filterKeys]
    by_cases hkey : key ∈ inventory.units.map ListedUnit.key
    · rw [if_pos (decide_eq_true hkey), if_pos hkey]
      rfl
    · rw [if_neg (by simpa using hkey), if_neg hkey]
      rfl
  have hnext : BindingCarrying sha256Hex kept inventory.units inventory.rangeStart before w next ∧
      SpeaksTruth (rangeSourceHash sha256Hex) rangeStartOf inventory.rangeStart w next := by
    refine h.complete (identifies_rangeSourceHash hsha) (fun key hash hkey ↦ ?_)
      (ShardState.isComplete_iff.mpr fun unit hunit ↦ ?_) (congrArg some hhash)
    · rw [hnextOf] at hkey
      split at hkey
      · exact hkey
      · cases hkey
    · rw [hnextOf, if_pos (List.mem_map_of_mem hunit)]
      exact ShardState.isComplete_iff.mp hcomplete unit hunit
  have hcompleted : completeTimeseriesBindingRangeState progress.state inventory = .ok next := by
    rw [completeTimeseriesBindingRangeState, Except.refuseIf_neg (by rw [hcomplete]; simp)]
    rfl
  have hcarry : BindingCarrying sha256Hex kept inventory.units inventory.rangeStart before w
    (progress.complete next).state := hnext.1
  rw [finishRange, if_pos hfinished, hcompleted, wp_bind, wp_ofExcept, afterBind_ok, closeRange,
    wp_bind]
  refine wp_mono (fun w' r hr ↦ ?_)
    (flush_spec (writes_range inventory.rangeStart) true hcarry fun _ ↦ hnext.2)
  obtain ⟨hcarry', ⟨⟨flushed, wrote⟩, rfl, -, -, hwrote, hstored⟩ | ⟨hfaults, e, rfl⟩⟩ := hr
  · have hwrote : wrote = true := hwrote rfl rfl
    rw [afterBind_ok]
    simp only [hwrote, if_true]
    exact ⟨hcarry'.toSteady, hcarry'.elsewhere, Or.inl ⟨flushed, rfl, (hstored hwrote).2⟩⟩
  · exact ⟨hcarry'.toSteady, hcarry'.elsewhere, Or.inr ⟨hfaults, e, rfl⟩⟩

/-! ## One range -/

/-- What a round relies on: where the summary has the listed hash the range is skipped, and in the
other ranges no recorded binding is lost and the kept bindings are recorded. -/
structure RangeReady (sha256Hex : String → String) (run : BindingRun)
    (kept : List (ListedUnit TimeseriesId)) (range : RangeReference) (w : World TimeseriesId) :
    Prop where
  landed : ∀ key, rangeStartOf key = range.rangeStart → w.standing key ≠ .landed
  noneLost : w.root.state.processedSourceRangeHash range.rangeStart ≠ some range.sourceRangeHash →
    ∀ shard, run.rangeInventory sha256Hex range = some shard →
      NoneLost w range.rangeStart shard.units
  recorded : w.root.state.processedSourceRangeHash range.rangeStart ≠ some range.sourceRangeHash →
    ∀ shard, run.rangeInventory sha256Hex range = some shard →
      ∀ other ∈ kept, rangeStartOf other.key = range.rangeStart → other ∈ shard.units ∧
        ((w.stored range.rangeStart).trim shard.units).1.hashOf other.key = some other.hash

/-- What is planned is what is not recorded with its listed hash. -/
theorem plan_eq_uncopied {state : ShardState TimeseriesId}
    (hhash : inventory.sourceRangeHash = rangeSourceHash sha256Hex inventory.units)
    (hcomplete : ∀ hash, state.processedSourceHash = some hash →
      CompleteFor (rangeSourceHash sha256Hex) state hash) :
    planTimeseriesBindingRangeCopies state inventory = uncopied state inventory.units := by
  rw [planTimeseriesBindingRangeCopies]
  by_cases hprocessed : state.processedSourceHash = some inventory.sourceRangeHash
  · rw [if_pos hprocessed, eq_comm, uncopied, List.filter_eq_nil_iff]
    intro unit hunit hne
    exact of_decide_eq_true hne (hcomplete _ hprocessed inventory.units hhash.symm unit hunit)
  · rw [if_neg hprocessed]

/-- **A round keeps the records true and everything outside its range alone**, and where nothing
fails the summary of the range has the listed hash. -/
theorem syncRange_spec (hsha : Function.Injective sha256Hex) (hdry : run.options.dryRun = false)
    (hsteady : BindingSteady sha256Hex kept w) (hready : RangeReady sha256Hex run kept range w)
    (report : BindingReport) :
    wp (bindingEnv sha256Hex faults run kept) (syncRange sha256Hex run.options report range)
      (fun w' r ↦ BindingSteady sha256Hex kept w' ∧
        (∀ next, r = .ok next → Elsewhere rangeStartOf range.rangeStart w w') ∧
        EndsWith (faults ∨ run.rangeInventory sha256Hex range = none) r fun _ ↦
          w'.root.state.processedSourceRangeHash range.rangeStart
            = some range.sourceRangeHash) w := by
  rw [syncRange, wp_bind]
  refine wp_readRootState hsteady ?_
  rw [afterBind_ok]
  by_cases hsummary : w.root.state.processedSourceRangeHash range.rangeStart
      = some range.sourceRangeHash
  · rw [if_pos hsummary]
    exact ⟨hsteady, fun _ _ ↦ elsewhere_refl w, Or.inl ⟨_, rfl, hsummary⟩⟩
  rw [if_neg hsummary, wp_bind]
  refine wp_mono (fun w₁ r hr ↦ ?_) (readRangeInventory_spec hsteady range)
  obtain ⟨rfl, ⟨inventory, rfl, hinventory⟩ | ⟨hfaults, e, rfl⟩⟩ := hr
  swap
  · exact ⟨hsteady, fun _ h ↦ (nomatch h), Or.inr ⟨hfaults, e, rfl⟩⟩
  obtain ⟨hstart, hlisted, hhash, hhome, hnodup⟩ := BindingRun.rangeInventory_spec hinventory
  have hnone := hready.noneLost hsummary inventory hinventory
  have hrecorded := hready.recorded hsummary inventory hinventory
  have hlanded := hready.landed
  rw [afterBind_ok, wp_bind]
  refine wp_readStateJsonMaybe hsteady ?_ fun hfaults e ↦
    ⟨hsteady, fun _ h ↦ (nomatch h), Or.inr ⟨Or.inl hfaults, e, rfl⟩⟩
  rw [← hstart] at hnone hrecorded hhome hlanded ⊢
  rw [afterBind_ok]
  have hload : BindingCarrying sha256Hex kept inventory.units inventory.rangeStart w₁ w₁
      ((w₁.stored inventory.rangeStart).trim inventory.units).1 :=
    carrying_load hsteady (elsewhere_refl w₁) hlanded hnone
  have hplan : planTimeseriesBindingRangeCopies
      ((w₁.stored inventory.rangeStart).trim inventory.units).1 inventory
        = uncopied ((w₁.stored inventory.rangeStart).trim inventory.units).1 inventory.units :=
    plan_eq_uncopied hhash (complete_trim hsteady.sound)
  change wp _ (now >>= fun time ↦
    (planTimeseriesBindingRangeCopies ((w₁.stored inventory.rangeStart).trim inventory.units).1
      inventory).foldlM _ (startProgress w₁ inventory.rangeStart inventory.units time)
      >>= fun copied ↦ _ >>= _) _ w₁
  rw [hplan, wp_bind]
  refine wp_now hsteady fun time ↦ ?_
  rw [afterBind_ok, wp_bind]
  refine wp_mono (fun w₂ r hr ↦ ?_) (copyUnits_spec (writes_range inventory.rangeStart) hdry
    (fun unit hunit ↦ candidate_of_uncopied hnodup hhome hrecorded hunit) hnodup
    (nodup_uncopied hnodup) (copying_start hload))
  rcases r with e | copied
  · exact ⟨hr.1, fun _ h ↦ (nomatch h), Or.inr ⟨Or.inl hr.2, e, rfl⟩⟩
  · rw [afterBind_ok, wp_bind]
    refine wp_mono (fun w₃ r hr ↦ ?_)
      (finishRange_spec hsha hdry hhash _ hr.carrying (hr.isComplete hnodup))
    obtain ⟨hsteady₃, helsewhere, ⟨last, rfl, hlast⟩ | ⟨hfaults, e, rfl⟩⟩ := hr
    · exact ⟨hsteady₃, fun _ _ ↦ helsewhere, Or.inl ⟨_, rfl, hlisted ▸ hlast⟩⟩
    · exact ⟨hsteady₃, fun _ h ↦ (nomatch h), Or.inr ⟨Or.inl hfaults, e, rfl⟩⟩

/-! ## The root -/

variable {root : RootReference}

theorem entryRoot_summary (hrange : range ∈ root.ranges) (state : RootState) :
    (BindingRun.entryRoot root state).processedSourceRangeHash range.rangeStart
      = state.processedSourceRangeHash range.rangeStart := by
  rw [BindingRun.entryRoot]
  split
  · rw [RootState.processedSourceRangeHash, RootState.retain, OrderedMap.get?_filterKeys,
      if_pos (decide_eq_true (List.mem_map_of_mem hrange))]
    rfl
  · rfl

/-- The world when the summaries of unlisted ranges are dropped. -/
def World.entered (w : World TimeseriesId) (root : RootReference) : World TimeseriesId :=
  w.withRoot ⟨BindingRun.entryRoot root w.root.state, w.root.behind⟩

theorem tellsTruth_entered
    (h : TellsTruth sha256Hex (rangeSourceHash sha256Hex) rangeStartOf w.holds w.root) :
    TellsTruth sha256Hex (rangeSourceHash sha256Hex) rangeStartOf w.holds
      (w.entered root).root := by
  rw [World.entered, World.withRoot, BindingRun.entryRoot]
  dsimp only
  split
  · exact h.retain _
  · exact h

theorem enterRoot_spec (h : BindingSteady sha256Hex kept w) (root : RootReference) :
    wp (bindingEnv sha256Hex faults run kept) (enterRoot root)
      (fun w' r ↦ w' = w.entered root ∧
        r = .ok (BindingRun.entryRoot root w.root.state)) w := by
  rw [enterRoot, wp_bind]
  refine wp_readRootState h ?_
  rw [afterBind_ok, World.entered, BindingRun.entryRoot]
  dsimp only
  split
  · rw [wp_bind]
    refine wp_retainRootRanges h ?_
    have hsteady : BindingSteady sha256Hex kept (w.withRoot
        ⟨w.root.state.retain (root.ranges.map RangeReference.rangeStart), w.root.behind⟩) :=
      ⟨h.sound.withRoot _, h.root.retain _, h.keeps⟩
    rw [afterBind_ok]
    exact wp_readRootState hsteady ⟨rfl, rfl⟩
  · exact ⟨rfl, rfl⟩

theorem closeRoot_spec (hsha : Function.Injective sha256Hex) (hdry : run.options.dryRun = false)
    (h : BindingSteady sha256Hex kept w) (hcomplete : w.root.state.isComplete root = true) :
    wp (bindingEnv sha256Hex faults run kept) (closeRoot sha256Hex run.options root)
      (fun w' r ↦ BindingSteady sha256Hex kept w' ∧ r = .ok w'.root.state ∧
        w'.root.state.processedSourceRootHash = some (root.sourceRootHash sha256Hex)) w := by
  rw [closeRoot, wp_bind]
  refine wp_readRootState h ?_
  have hsteady : BindingSteady sha256Hex kept (w.withRoot
      ⟨⟨some (root.sourceRootHash sha256Hex), w.root.state.ranges⟩, w.root.behind⟩) :=
    ⟨h.sound.withRoot _, h.root.complete hsha hcomplete, h.keeps⟩
  rw [afterBind_ok, if_pos (by rw [hdry, hcomplete]; rfl), wp_bind]
  refine wp_completeRoot h ?_
  rw [afterBind_ok]
  exact wp_readRootState hsteady ⟨hsteady, rfl, rfl⟩

/-! ## What a run skips -/

/-- Where the whole root or the summary of a range matches, the summary does. -/
theorem summary_of_entryRoot
    (h : TellsTruth sha256Hex (rangeSourceHash sha256Hex) rangeStartOf w.holds w.root)
    (hrange : range ∈ root.ranges)
    (hmatch : (BindingRun.entryRoot root w.root.state).processedSourceRootHash
        = some (root.sourceRootHash sha256Hex) ∨
      (BindingRun.entryRoot root w.root.state).processedSourceRangeHash range.rangeStart
        = some range.sourceRangeHash) :
    w.root.state.processedSourceRangeHash range.rangeStart = some range.sourceRangeHash := by
  rw [← entryRoot_summary hrange]
  rcases hmatch with hroot | hsummary
  · have hentered : TellsTruth sha256Hex (rangeSourceHash sha256Hex) rangeStartOf w.holds
        (w.entered root).root := tellsTruth_entered h
    exact hentered.whole root hroot range hrange
  · exact hsummary

/-- What the run skips of a range is held. -/
theorem holds_of_skippedOfRange (hlost : run.NeverLost sha256Hex w)
    (hlanded : ∀ key, w.standing key ≠ .landed)
    (hsound : Sound sha256Hex (rangeSourceHash sha256Hex) rangeStartOf w)
    (hroot : TellsTruth sha256Hex (rangeSourceHash sha256Hex) rangeStartOf w.holds w.root)
    (hreference : run.reference = some root) (hrange : range ∈ root.ranges)
    {unit : ListedUnit TimeseriesId} (hunit : unit ∈ run.skippedOfRange sha256Hex root w range) :
    w.holds unit.key = some unit.hash := by
  have hcondition := hlost root hreference range hrange
  rw [BindingRun.skippedOfRange] at hunit
  rcases hinventory : run.rangeInventory sha256Hex range with _ | shard
  · rw [hinventory] at hunit
    exact absurd hunit List.not_mem_nil
  obtain ⟨-, hlisted, hhash, hhome, -⟩ := BindingRun.rangeInventory_spec hinventory
  rw [hinventory] at hunit
  dsimp only at hunit
  split at hunit
  · rename_i hmatch
    have hsummary := summary_of_entryRoot hroot hrange hmatch
    rw [if_pos hsummary] at hcondition
    exact hroot.ranges range.rangeStart range.sourceRangeHash hsummary hcondition shard.units
      (hhash.symm.trans hlisted) hhome unit hunit
  · rename_i hmatch
    have hsummary : w.root.state.processedSourceRangeHash range.rangeStart
        ≠ some range.sourceRangeHash := fun hsummary ↦
      hmatch (Or.inr ((entryRoot_summary hrange _).trans hsummary))
    rw [if_neg hsummary] at hcondition
    exact holds_of_skipped hsound hhash.symm hlanded (hcondition shard hinventory) hunit

/-- When the run has entered the root, every range is ready for its round. -/
theorem rangeReady_entered (hlost : run.NeverLost sha256Hex w)
    (hlanded : ∀ key, w.standing key ≠ .landed)
    (hsound : Sound sha256Hex (rangeSourceHash sha256Hex) rangeStartOf w)
    (hroot : TellsTruth sha256Hex (rangeSourceHash sha256Hex) rangeStartOf w.holds w.root)
    (hreference : run.reference = some root) (hrange : range ∈ root.ranges) :
    RangeReady sha256Hex run (run.skipped sha256Hex w) range (w.entered root) := by
  have hsame := entryRoot_summary hrange w.root.state
  refine ⟨fun key _ ↦ hlanded key, fun hsummary shard hshard ↦ ?_,
    fun hsummary shard hshard other hother hhome ↦ ?_⟩
  · have hcondition := hlost root hreference range hrange
    rw [if_neg fun heq ↦ hsummary (hsame.trans heq)] at hcondition
    exact hcondition shard hshard
  · rw [BindingRun.skipped, hreference] at hother
    obtain ⟨range', hrange', hother⟩ := List.mem_flatMap.mp hother
    have hskipped := hother
    rw [BindingRun.skippedOfRange] at hskipped
    rcases hinventory : run.rangeInventory sha256Hex range' with _ | shard'
    · rw [hinventory] at hskipped
      exact absurd hskipped List.not_mem_nil
    obtain ⟨-, -, hhash, hhome', -⟩ := BindingRun.rangeInventory_spec hinventory
    rw [hinventory] at hskipped
    dsimp only at hskipped
    have hmem : other ∈ shard'.units := by
      split at hskipped
      · exact hskipped
      · exact (recorded_of_skipped hhash.symm (complete_trim hsound) hskipped).1
    have heq : range' = range := List.inj_on_of_nodup_map root.nodup hrange' hrange
      ((hhome' other hmem).symm.trans hhome)
    subst heq
    rw [hshard] at hinventory
    rw [Option.some.inj hinventory]
    split at hskipped
    · rename_i hmatch
      exact absurd (hsame.trans (summary_of_entryRoot hroot hrange hmatch)) hsummary
    · exact recorded_of_skipped hhash.symm (complete_trim hsound) hskipped

/-! ## The whole run -/

/-- What happens in another range leaves a range as ready as it was. -/
theorem RangeReady.elsewhere {other : ℕ} (h : RangeReady sha256Hex run kept range before)
    (helsewhere : Elsewhere rangeStartOf other before w) (hne : range.rangeStart ≠ other) :
    RangeReady sha256Hex run kept range w := by
  have hstored : w.stored range.rangeStart = before.stored range.rangeStart := by
    rw [World.stored, helsewhere.shards _ hne]
    rfl
  have hsummary := helsewhere.summaries _ hne
  have hstanding : ∀ key, rangeStartOf key = range.rangeStart →
      w.standing key = before.standing key := fun key hkey ↦
    (helsewhere.units key (hkey ▸ hne)).2
  refine ⟨fun key hkey ↦ by rw [hstanding key hkey]; exact h.landed key hkey,
    fun hne shard hshard unit hunit hrecorded ↦ ?_, fun hne shard hshard ↦ ?_⟩
  · obtain ⟨-, -, -, hhome, -⟩ := BindingRun.rangeInventory_spec hshard
    rw [hstanding _ (hhome unit hunit)]
    rw [hstored] at hrecorded
    exact h.noneLost (hsummary ▸ hne) shard hshard unit hunit hrecorded
  · rw [hstored]
    exact h.recorded (hsummary ▸ hne) shard hshard

/-- What holds after the rounds of some ranges. -/
structure Rounds (sha256Hex : String → String) (run : BindingRun)
    (kept : List (ListedUnit TimeseriesId)) (ranges done : List RangeReference)
    (w : World TimeseriesId) : Prop where
  steady : BindingSteady sha256Hex kept w
  ready : ∀ range ∈ ranges, range.rangeStart ∉ done.map RangeReference.rangeStart →
    RangeReady sha256Hex run kept range w
  summarised : ∀ range ∈ done,
    w.root.state.processedSourceRangeHash range.rangeStart = some range.sourceRangeHash

theorem syncRanges_spec (hsha : Function.Injective sha256Hex) (hdry : run.options.dryRun = false)
    {ranges : List RangeReference} (hnodup : (ranges.map RangeReference.rangeStart).Nodup)
    (hreadable : run.Readable sha256Hex →
      ∀ range ∈ ranges, run.rangeInventory sha256Hex range ≠ none)
    (h : Rounds sha256Hex run kept ranges [] w) (report : BindingReport) :
    wp (bindingEnv sha256Hex faults run kept)
      (ranges.foldlM (syncRange sha256Hex run.options) report) (fun w' r ↦
        match r with
        | .ok _ => Rounds sha256Hex run kept ranges ranges w'
        | .error _ => BindingSteady sha256Hex kept w' ∧ (faults ∨ ¬run.Readable sha256Hex)) w := by
  have hloop := @wp_foldlM _ _ _ _ _ _ (bindingEnv sha256Hex faults run kept) w
    (syncRange sha256Hex run.options) ranges report
    (fun done _ w' ↦ Rounds sha256Hex run kept ranges done w')
    (fun _ w' ↦ BindingSteady sha256Hex kept w' ∧ (faults ∨ ¬run.Readable sha256Hex)) h
    fun done range rest report w hsplit hrounds ↦ ?_
  · refine wp_mono (fun w' r hr ↦ ?_) hloop
    rcases r with e | next
    · exact hr
    · exact hr
  · have hmem : range ∈ ranges := by
      rw [hsplit]
      exact List.mem_append_right _ List.mem_cons_self
    have hnew : range.rangeStart ∉ done.map RangeReference.rangeStart := fun hdone ↦ by
      rw [hsplit, List.map_append, List.map_cons] at hnodup
      exact (List.nodup_append.mp hnodup).2.2 _ hdone _ List.mem_cons_self rfl
    refine wp_mono (fun w' r hr ↦ ?_)
      (syncRange_spec hsha hdry hrounds.steady (hrounds.ready range hmem hnew) report)
    obtain ⟨hsteady, helsewhere, ⟨next, rfl, hsummary⟩ | ⟨hfaults, e, rfl⟩⟩ := hr
    · have helsewhere := helsewhere next rfl
      refine ⟨hsteady, fun other hother hleft ↦ ?_, fun other hother ↦ ?_⟩
      · rw [List.map_append, List.mem_append, not_or, List.map_singleton,
          List.mem_singleton] at hleft
        exact (hrounds.ready other hother hleft.1).elsewhere helsewhere hleft.2
      · rcases List.mem_append.mp hother with hdone | hlast
        · rw [helsewhere.summaries _ fun heq ↦ hnew (heq ▸ List.mem_map_of_mem hdone)]
          exact hrounds.summarised other hdone
        · rw [List.mem_singleton.mp hlast]
          exact hsummary
    · exact ⟨hsteady, hfaults.imp_right fun hnone hread ↦ hreadable hread range hmem hnone⟩

/-- The root in memory is complete for the inventory, and the report says so. -/
def BindingComplete (sha256Hex : String → String) (root : RootReference) (w : World TimeseriesId)
    (report : BindingReport) : Prop :=
  report.processedSourceRootHash = some (root.sourceRootHash sha256Hex) ∧
    w.root.state.processedSourceRootHash = some (root.sourceRootHash sha256Hex)

/-- A run that loses nothing begins with the skipped bindings held. -/
theorem binding_steady (hlost : run.NeverLost sha256Hex w)
    (hlanded : ∀ key, w.standing key ≠ .landed)
    (hsound : Sound sha256Hex (rangeSourceHash sha256Hex) rangeStartOf w)
    (hroot : TellsTruth sha256Hex (rangeSourceHash sha256Hex) rangeStartOf w.holds w.root) :
    BindingSteady sha256Hex (run.skipped sha256Hex w) w := by
  refine ⟨hsound, hroot, fun unit hunit ↦ ?_⟩
  rcases hreference : run.reference with _ | root
  · rw [BindingRun.skipped, hreference] at hunit
    exact absurd hunit List.not_mem_nil
  · rw [BindingRun.skipped, hreference] at hunit
    obtain ⟨range, hrange, hunit⟩ := List.mem_flatMap.mp hunit
    exact holds_of_skippedOfRange hlost hlanded hsound hroot hreference hrange hunit

/-- **A run over the bindings keeps the records true and the skipped bindings held**, and where
nothing fails it ends with the root complete for the inventory. -/
theorem syncBindings_spec (hsha : Function.Injective sha256Hex)
    (hdry : run.options.dryRun = false) (hlanded : ∀ key, w.standing key ≠ .landed)
    (hlost : run.NeverLost sha256Hex w)
    (hsound : Sound sha256Hex (rangeSourceHash sha256Hex) rangeStartOf w)
    (hroot : TellsTruth sha256Hex (rangeSourceHash sha256Hex) rangeStartOf w.holds w.root) :
    wp (bindingEnv sha256Hex faults run (run.skipped sha256Hex w)) (run.program sha256Hex)
      (fun w' r ↦ BindingSteady sha256Hex (run.skipped sha256Hex w) w' ∧
        EndsWith (faults ∨ ¬run.Readable sha256Hex) r fun report ↦
          ∃ root, run.reference = some root ∧ BindingComplete sha256Hex root w' report) w := by
  have hsteady := binding_steady hlost hlanded hsound hroot
  rw [BindingRun.program]
  rcases hreference : run.reference with _ | root
  · refine ⟨hsteady, Or.inr ⟨Or.inr ?_, _, rfl⟩⟩
    rintro ⟨root, hsome, -⟩
    rw [hreference] at hsome
    exact nomatch hsome
  have hentered : BindingSteady sha256Hex (run.skipped sha256Hex w) (w.entered root) :=
    ⟨hsound.withRoot _, tellsTruth_entered hroot, hsteady.keeps⟩
  have hready : ∀ range ∈ root.ranges,
      RangeReady sha256Hex run (run.skipped sha256Hex w) range (w.entered root) :=
    fun range hrange ↦ rangeReady_entered hlost hlanded hsound hroot hreference hrange
  generalize run.skipped sha256Hex w = kept at hsteady hentered hready ⊢
  rw [syncTimeseriesBindingsToDropbox, wp_bind]
  refine wp_mono (fun w₁ r hr ↦ ?_) (enterRoot_spec hsteady root)
  obtain ⟨rfl, rfl⟩ := hr
  rw [afterBind_ok]
  by_cases hwhole : (BindingRun.entryRoot root w.root.state).processedSourceRootHash
      = some (root.sourceRootHash sha256Hex)
  · rw [if_pos hwhole]
    exact ⟨hentered, Or.inl ⟨_, rfl, root, rfl, hwhole, hwhole⟩⟩
  rw [if_neg hwhole, wp_bind]
  have hperm : (sortRanges root.ranges).Perm root.ranges := Sorting.sortBy_perm _
  refine wp_mono (fun w₂ r hr ↦ ?_) (syncRanges_spec hsha hdry
    ((hperm.map _).nodup_iff.mpr root.nodup) (fun hread range hrange ↦ ?_)
    ⟨hentered, fun range hrange _ ↦ hready range (hperm.mem_iff.mp hrange),
      fun _ hmem ↦ absurd hmem List.not_mem_nil⟩ _)
  · rcases r with e | report
    · exact ⟨hr.1, Or.inr ⟨hr.2, e, rfl⟩⟩
    · have hcomplete : w₂.root.state.isComplete root = true := by
        refine List.all_eq_true.mpr fun range hrange ↦ decide_eq_true ?_
        exact hr.summarised range (hperm.mem_iff.mpr hrange)
      rw [afterBind_ok, wp_bind]
      refine wp_mono (fun w₃ r hr ↦ ?_) (closeRoot_spec hsha hdry hr.steady hcomplete)
      obtain ⟨hsteady₃, rfl, hprocessed⟩ := hr
      exact ⟨hsteady₃, Or.inl ⟨_, rfl, root, rfl, hprocessed, hprocessed⟩⟩
  · obtain ⟨root', hsome, hshards⟩ := hread
    rw [hreference] at hsome
    obtain ⟨shard, hshard⟩ := hshards range
      (Option.some.inj hsome ▸ hperm.mem_iff.mp hrange)
    rw [hshard]
    exact Option.some_ne_none shard

end UkAqOps.Backup

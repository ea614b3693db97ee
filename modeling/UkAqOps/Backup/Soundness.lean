import UkAqOps.Backup.Standing

/-!
# Records that tell the truth

The invariant of the backup: a unit whose last copy is recorded is held at the recorded hash, and a
summary of the root state that is not behind its range speaks of units that are all held. One lemma
for each way the world changes shows that it is kept.
-/

namespace UkAqOps.Backup

variable {κ : Type} [DecidableEq κ]
variable (sha256Hex : String → String) (hashUnits : List (ListedUnit κ) → String) (home : κ → ℕ)

/-! ## The invariant -/

/-- The state records every unit of an inventory with the hash. -/
def CompleteFor (state : ShardState κ) (hash : String) : Prop :=
  ∀ units, hashUnits units = hash → ∀ unit ∈ units, state.hashOf unit.key = some unit.hash

/-- Every unit of an inventory of the range with the hash is held. -/
def HeldFor (holds : κ → Option String) (range : ℕ) (hash : String) : Prop :=
  ∀ units, hashUnits units = hash → (∀ unit ∈ units, home unit.key = range) →
    ∀ unit ∈ units, holds unit.key = some unit.hash

/-- A summary that is not behind says which units are held, and the root hash speaks of the
summaries. -/
structure TellsTruth (holds : κ → Option String) (root : Root) : Prop where
  ranges : ∀ range hash, root.state.processedSourceRangeHash range = some hash →
    range ∉ root.behind → HeldFor hashUnits home holds range hash
  whole : ∀ inventory : RootReference,
    root.state.processedSourceRootHash = some (inventory.sourceRootHash sha256Hex) →
      ∀ range ∈ inventory.ranges,
        root.state.processedSourceRangeHash range.rangeStart = some range.sourceRangeHash

/-- What is stored tells the truth. -/
structure Sound (w : World κ) : Prop where
  home_eq : ∀ shard state key hash, w.shards shard = some state → state.hashOf key = some hash →
    home key = shard
  settled : ∀ shard state key hash, w.shards shard = some state → state.hashOf key = some hash →
    w.standing key = .settled → w.holds key = some hash
  processed : ∀ shard state hash, w.shards shard = some state →
    state.processedSourceHash = some hash → CompleteFor hashUnits state hash
  rootFile : TellsTruth sha256Hex hashUnits home w.holds w.rootFile

variable {sha256Hex hashUnits home} {w : World κ}

theorem HeldFor.update {holds : κ → Option String} {range : ℕ} {hash : String} {key : κ}
    (h : HeldFor hashUnits home holds range hash) (hne : home key ≠ range) (held : Option String) :
    HeldFor hashUnits home (Function.update holds key held) range hash := by
  intro units hunits hhome unit hunit
  have hkey : unit.key ≠ key := fun heq ↦ hne (heq ▸ hhome unit hunit)
  rw [Function.update_of_ne hkey]
  exact h units hunits hhome unit hunit

/-- A copy leaves a root state behind the range of the unit, and true of the other ranges. -/
theorem TellsTruth.copied {holds : κ → Option String} {root : Root}
    (h : TellsTruth sha256Hex hashUnits home holds root) (key : κ) (held : Option String) :
    TellsTruth sha256Hex hashUnits home (Function.update holds key held)
      ⟨root.state, home key :: root.behind⟩ where
  ranges range hash hprocessed hbehind := by
    rw [List.mem_cons, not_or] at hbehind
    exact (h.ranges range hash hprocessed hbehind.2).update (Ne.symm hbehind.1) held
  whole := h.whole

/-- A summary may be made for a range whose units are held. -/
theorem TellsTruth.upsert {holds : κ → Option String} {root : Root}
    (h : TellsTruth sha256Hex hashUnits home holds root) {range : ℕ} {processed : Option String}
    (hheld : ∀ hash, processed = some hash → HeldFor hashUnits home holds range hash) :
    TellsTruth sha256Hex hashUnits home holds (root.upsertRangeSummary range processed) where
  ranges start hash hprocessed hbehind := by
    simp only [Root.upsertRangeSummary, RootState.processedSourceRangeHash_upsert] at hprocessed
    by_cases hstart : start = range
    · rw [if_pos hstart] at hprocessed
      exact hstart ▸ hheld hash hprocessed
    · rw [if_neg hstart] at hprocessed
      refine h.ranges start hash hprocessed fun hmem ↦ hbehind ?_
      exact List.mem_filter.mpr ⟨hmem, decide_eq_true hstart⟩
  whole inventory hprocessed := nomatch hprocessed

theorem TellsTruth.retain {holds : κ → Option String} {root : Root}
    (h : TellsTruth sha256Hex hashUnits home holds root) (rangeStarts : List ℕ) :
    TellsTruth sha256Hex hashUnits home holds ⟨root.state.retain rangeStarts, root.behind⟩ where
  ranges range hash hprocessed :=
    h.ranges range hash (RootState.processedSourceRangeHash_retain hprocessed)
  whole inventory hprocessed := nomatch hprocessed

/-- The root hash may be set for an inventory whose ranges all have their summaries. -/
theorem TellsTruth.complete (hsha : Function.Injective sha256Hex) {holds : κ → Option String}
    {root : Root} (h : TellsTruth sha256Hex hashUnits home holds root) {inventory : RootReference}
    (hcomplete : root.state.isComplete inventory = true) :
    TellsTruth sha256Hex hashUnits home holds
      ⟨⟨some (inventory.sourceRootHash sha256Hex), root.state.ranges⟩, root.behind⟩ where
  ranges := h.ranges
  whole inventory' hprocessed range hrange := by
    have hmem := (mem_of_rootSourceHash_eq hsha (Option.some.inj hprocessed)
      (range.rangeStart, range.sourceRangeHash)).mpr (List.mem_map_of_mem hrange)
    obtain ⟨listed, hlisted, heq⟩ := List.mem_map.mp hmem
    have hsummary := of_decide_eq_true (List.all_eq_true.mp hcomplete listed hlisted)
    rw [Prod.mk.injEq] at heq
    rw [← heq.1, ← heq.2]
    exact hsummary

/-! ## What keeps it -/

theorem sound_initial (holds : κ → Option String) :
    Sound sha256Hex hashUnits home (World.initial holds) where
  home_eq _ _ _ _ h := nomatch h
  settled _ _ _ _ h := nomatch h
  processed _ _ _ h := nomatch h
  rootFile :=
    { ranges := fun _ _ h ↦ nomatch h
      whole := fun _ h ↦ nomatch h }

theorem Sound.begin (h : Sound sha256Hex hashUnits home w) :
    Sound sha256Hex hashUnits home w.begin where
  home_eq := h.home_eq
  settled shard state key hash hshard hkey hstanding := by
    refine h.settled shard state key hash hshard hkey ?_
    by_cases hlanded : w.standing key = .landed
    · simp [World.begin, hlanded] at hstanding
    · simpa [World.begin, hlanded] using hstanding
  processed := h.processed
  rootFile := h.rootFile

theorem Sound.storeRoot (h : Sound sha256Hex hashUnits home w)
    (hroot : TellsTruth sha256Hex hashUnits home w.holds w.root) :
    Sound sha256Hex hashUnits home w.storeRoot :=
  { h with rootFile := hroot }

theorem Sound.withRoot (h : Sound sha256Hex hashUnits home w) (root : Root) :
    Sound sha256Hex hashUnits home (w.withRoot root) :=
  { h with }

/-- Whatever a copy did, what is recorded of the unit does not count until it is recorded anew. -/
theorem Sound.copied (h : Sound sha256Hex hashUnits home w) (unit : ListedUnit κ)
    (held : Option String) {standing : Standing} (hstanding : standing ≠ .settled) :
    Sound sha256Hex hashUnits home (w.copied home unit held standing) where
  home_eq := h.home_eq
  settled shard state key hash hshard hkey hsettled := by
    by_cases heq : key = unit.key
    · rw [heq, World.standing_copied, Function.update_self] at hsettled
      exact absurd hsettled hstanding
    · rw [World.standing_copied, Function.update_of_ne heq] at hsettled
      rw [World.holds_copied, Function.update_of_ne heq]
      exact h.settled shard state key hash hshard hkey hsettled
  processed := h.processed
  rootFile := h.rootFile.copied unit.key held

/-- A shard may be stored whose records are true of the units that are not lost. -/
theorem Sound.wrote (h : Sound sha256Hex hashUnits home w) {shard : ℕ} {state : ShardState κ}
    (hhome : ∀ key hash, state.hashOf key = some hash → home key = shard)
    (hhonest : ∀ key hash, state.hashOf key = some hash → w.standing key ≠ .lost →
      w.holds key = some hash)
    (hprocessed : ∀ hash, state.processedSourceHash = some hash → CompleteFor hashUnits state hash) :
    Sound sha256Hex hashUnits home (w.wrote shard state) where
  home_eq other stored key hash hstored hkey := by
    by_cases heq : other = shard
    · rw [heq, World.shards_wrote, Function.update_self] at hstored
      rw [heq]
      exact hhome key hash (Option.some.inj hstored ▸ hkey)
    · rw [World.shards_wrote, Function.update_of_ne heq] at hstored
      exact h.home_eq other stored key hash hstored hkey
  settled other stored key hash hstored hkey hsettled := by
    by_cases heq : other = shard
    · rw [heq, World.shards_wrote, Function.update_self] at hstored
      refine hhonest key hash (Option.some.inj hstored ▸ hkey) fun hlost ↦ ?_
      rw [(World.standing_wrote_eq_lost_iff w shard state).mpr hlost] at hsettled
      cases hsettled
    · rw [World.shards_wrote, Function.update_of_ne heq] at hstored
      have hother := h.home_eq other stored key hash hstored hkey
      have hnone : state.hashOf key = none := by
        refine Option.eq_none_iff_forall_ne_some.mpr fun hash' hsome ↦ heq ?_
        rw [← hother, hhome key hash' hsome]
      refine h.settled other stored key hash hstored hkey ?_
      simpa [World.standing_wrote, hnone] using hsettled
  processed other stored hash hstored hkey := by
    by_cases heq : other = shard
    · rw [heq, World.shards_wrote, Function.update_self] at hstored
      rw [← Option.some.inj hstored] at hkey ⊢
      exact hprocessed hash hkey
    · rw [World.shards_wrote, Function.update_of_ne heq] at hstored
      exact h.processed other stored hash hstored hkey
  rootFile := h.rootFile

end UkAqOps.Backup

import UkAqOps.Backup.Soundness

/-!
# The copying loop

What holds while a run copies the units of one shard. The state in memory is honest about every unit
that is not lost, no listed unit that it records with the listed hash is lost, and everything outside
the shard is as it was. Checkpoints keep this, a copy that arrives extends it to its unit, and a copy
that fails loses only a unit that was not recorded with the listed hash.
-/

namespace UkAqOps.Backup

open Effects

variable {ι κ : Type} [DecidableEq κ]
variable (sha256Hex : String → String) (hashUnits : List (ListedUnit κ) → String) (home : κ → ℕ)
variable (source : String → Option ι) (faults : Prop) (kept units : List (ListedUnit κ)) (shard : ℕ)

/-! ## The invariant of the loop -/

/-- The skipped units are held at their listed hashes. -/
def Keeps (w : World κ) : Prop := ∀ unit ∈ kept, w.holds unit.key = some unit.hash

/-- What holds at every call of a run that is not a dry run. -/
structure Steady (w : World κ) : Prop where
  sound : Sound sha256Hex hashUnits home w
  root : TellsTruth sha256Hex hashUnits home w.holds w.root
  keeps : Keeps kept w

/-- Outside the shard nothing has changed. -/
structure Elsewhere (before w : World κ) : Prop where
  units : ∀ key, home key ≠ shard →
    w.holds key = before.holds key ∧ w.standing key = before.standing key
  shards : ∀ other, other ≠ shard → w.shards other = before.shards other
  summaries : ∀ other, other ≠ shard →
    w.root.state.processedSourceRangeHash other = before.root.state.processedSourceRangeHash other
  behind : ∀ other, other ≠ shard → (other ∈ w.root.behind ↔ other ∈ before.root.behind)

/-- What holds while the units of a shard are copied, with the given state in memory. -/
structure Carrying (before w : World κ) (state : ShardState κ) : Prop
    extends Steady sha256Hex hashUnits home kept w where
  home_eq : ∀ key hash, state.hashOf key = some hash → home key = shard
  honest : ∀ key hash, state.hashOf key = some hash → w.standing key ≠ .lost →
    w.holds key = some hash
  found : ∀ unit ∈ units, state.hashOf unit.key = some unit.hash → w.standing unit.key ≠ .lost
  processed : ∀ hash, state.processedSourceHash = some hash → CompleteFor hashUnits state hash
  elsewhere : Elsewhere home shard before w

/-- The world as a run sees it that is not a dry run. -/
abbrev copyEnv : Env (BackupAnswer ι κ) String (World κ) :=
  backupEnv home source false faults (Steady sha256Hex hashUnits home kept)

variable {sha256Hex hashUnits home source faults kept units shard}
variable {before w : World κ} {state : ShardState κ}

theorem elsewhere_refl (w : World κ) : Elsewhere home shard w w :=
  ⟨fun _ _ ↦ ⟨rfl, rfl⟩, fun _ _ ↦ rfl, fun _ _ ↦ rfl, fun _ _ ↦ Iff.rfl⟩

theorem Elsewhere.copied (h : Elsewhere home shard before w) {unit : ListedUnit κ}
    (hunit : home unit.key = shard) (held : Option String) (standing : Standing) :
    Elsewhere home shard before (w.copied home unit held standing) where
  units key hkey := by
    have hne : key ≠ unit.key := fun heq ↦ hkey (heq ▸ hunit)
    rw [World.holds_copied, World.standing_copied, Function.update_of_ne hne,
      Function.update_of_ne hne]
    exact h.units key hkey
  shards := h.shards
  summaries := h.summaries
  behind other hother := by
    rw [← h.behind other hother]
    exact List.mem_cons.trans (or_iff_right fun heq ↦ hother (heq.trans hunit))

theorem Steady.copied (h : Steady sha256Hex hashUnits home kept w) {unit : ListedUnit κ}
    (hkept : unit.key ∉ kept.map ListedUnit.key) (held : Option String) {standing : Standing}
    (hstanding : standing ≠ .settled) :
    Steady sha256Hex hashUnits home kept (w.copied home unit held standing) where
  sound := h.sound.copied unit held hstanding
  root := h.root.copied unit.key held
  keeps other hother := by
    have hne : other.key ≠ unit.key := fun heq ↦ hkept (heq ▸ List.mem_map_of_mem hother)
    rw [World.holds_copied, Function.update_of_ne hne]
    exact h.keeps other hother

/-- A copy that fails loses its unit, which was not recorded with the listed hash. -/
theorem Carrying.copy_lost (h : Carrying sha256Hex hashUnits home kept units shard before w state)
    {unit : ListedUnit κ} (hunit : home unit.key = shard)
    (hkept : unit.key ∉ kept.map ListedUnit.key)
    (hnew : ∀ other ∈ units, other.key = unit.key → state.hashOf other.key ≠ some other.hash)
    (held : Option String) :
    Carrying sha256Hex hashUnits home kept units shard before (w.copied home unit held .lost)
      state where
  toSteady := h.toSteady.copied hkept held fun heq ↦ Standing.noConfusion heq
  home_eq := h.home_eq
  honest key hash hkey hstanding := by
    by_cases heq : key = unit.key
    · rw [heq, World.standing_copied, Function.update_self] at hstanding
      exact absurd rfl hstanding
    · rw [World.standing_copied, Function.update_of_ne heq] at hstanding
      rw [World.holds_copied, Function.update_of_ne heq]
      exact h.honest key hash hkey hstanding
  found other hother hrecorded := by
    have hne : other.key ≠ unit.key := fun heq ↦ hnew other hother heq hrecorded
    rw [World.standing_copied, Function.update_of_ne hne]
    exact h.found other hother hrecorded
  processed := h.processed
  elsewhere := h.elsewhere.copied hunit held .lost

/-- A copy that arrives may be marked. -/
theorem Carrying.copy_landed (h : Carrying sha256Hex hashUnits home kept units shard before w state)
    {unit : ListedUnit κ} (hunit : home unit.key = shard)
    (hkept : unit.key ∉ kept.map ListedUnit.key) (copiedAt : ℤ) :
    Carrying sha256Hex hashUnits home kept units shard before
      (w.copied home unit (some unit.hash) .landed) (state.markCopied unit copiedAt) where
  toSteady := h.toSteady.copied hkept _ fun heq ↦ Standing.noConfusion heq
  home_eq key hash hkey := by
    rw [ShardState.hashOf_markCopied] at hkey
    split at hkey
    · rename_i heq
      rw [heq, hunit]
    · exact h.home_eq key hash hkey
  honest key hash hkey hstanding := by
    rw [ShardState.hashOf_markCopied] at hkey
    split at hkey
    · rename_i heq
      rw [World.holds_copied, heq, Function.update_self]
      exact hkey
    · rename_i heq
      rw [World.standing_copied, Function.update_of_ne heq] at hstanding
      rw [World.holds_copied, Function.update_of_ne heq]
      exact h.honest key hash hkey hstanding
  found other hother hrecorded := by
    by_cases heq : other.key = unit.key
    · rw [World.standing_copied, heq, Function.update_self]
      exact fun heq ↦ Standing.noConfusion heq
    · rw [ShardState.hashOf_markCopied, if_neg heq] at hrecorded
      rw [World.standing_copied, Function.update_of_ne heq]
      exact h.found other hother hrecorded
  processed _ hprocessed := nomatch hprocessed
  elsewhere := h.elsewhere.copied hunit _ _

/-- The state in memory may be stored at any time. -/
theorem Carrying.wrote (h : Carrying sha256Hex hashUnits home kept units shard before w state) :
    Carrying sha256Hex hashUnits home kept units shard before (w.wrote shard state) state where
  sound := h.sound.wrote h.home_eq h.honest h.processed
  root := h.root
  keeps := h.keeps
  home_eq := h.home_eq
  honest key hash hkey hstanding := h.honest key hash hkey fun hlost ↦
    hstanding ((World.standing_wrote_eq_lost_iff w shard state).mpr hlost)
  found unit hunit hrecorded hlost := h.found unit hunit hrecorded
    ((World.standing_wrote_eq_lost_iff w shard state).mp hlost)
  processed := h.processed
  elsewhere :=
    { h.elsewhere with
      units := fun key hkey ↦ by
        have hnone : state.hashOf key = none :=
          Option.eq_none_iff_forall_ne_some.mpr fun hash hsome ↦ hkey (h.home_eq key hash hsome)
        refine ⟨(h.elsewhere.units key hkey).1, ?_⟩
        rw [World.standing_wrote, if_neg fun hand ↦ hand.2 hnone]
        exact (h.elsewhere.units key hkey).2
      shards := fun other hother ↦ by
        rw [World.shards_wrote, Function.update_of_ne hother]
        exact h.elsewhere.shards other hother }

/-- What the state in memory says about the whole inventory is true. -/
def SpeaksTruth (hashUnits : List (ListedUnit κ) → String) (home : κ → ℕ) (shard : ℕ) (w : World κ)
    (state : ShardState κ) : Prop :=
  ∀ hash, state.processedSourceHash = some hash → HeldFor hashUnits home w.holds shard hash

theorem Carrying.upsert (h : Carrying sha256Hex hashUnits home kept units shard before w state)
    (hspeaks : SpeaksTruth hashUnits home shard w state) :
    Carrying sha256Hex hashUnits home kept units shard before
      (w.withRoot (w.root.upsertRangeSummary shard state.processedSourceHash)) state where
  sound := h.sound.withRoot _
  root := h.root.upsert hspeaks
  keeps := h.keeps
  home_eq := h.home_eq
  honest := h.honest
  found := h.found
  processed := h.processed
  elsewhere :=
    { h.elsewhere with
      summaries := fun other hother ↦ by
        rw [← h.elsewhere.summaries other hother]
        exact (RootState.processedSourceRangeHash_upsert ..).trans (if_neg hother)
      behind := fun other hother ↦ by
        rw [← h.elsewhere.behind other hother]
        exact List.mem_filter.trans (and_iff_left (decide_eq_true hother)) }

/-- When every listed unit is recorded with its listed hash, every inventory with the same hash is
recorded and held. -/
theorem Carrying.heldFor (hidentifies : Identifies hashUnits)
    (h : Carrying sha256Hex hashUnits home kept units shard before w state)
    (hcomplete : state.isComplete units = true) :
    CompleteFor hashUnits state (hashUnits units) ∧
      HeldFor hashUnits home w.holds shard (hashUnits units) := by
  have hlisted : ∀ others, hashUnits others = hashUnits units → ∀ unit ∈ others,
      ∃ listed ∈ units, listed.key = unit.key ∧ listed.hash = unit.hash := by
    intro others hothers unit hunit
    have hmem := (hidentifies others units hothers unit.identity).mp (List.mem_map_of_mem hunit)
    obtain ⟨listed, hlisted, heq⟩ := List.mem_map.mp hmem
    exact ⟨listed, hlisted, congrArg Prod.fst heq, congrArg Prod.snd heq⟩
  refine ⟨fun others hothers unit hunit ↦ ?_, fun others hothers _ unit hunit ↦ ?_⟩
  · obtain ⟨listed, hmem, hkey, hhash⟩ := hlisted others hothers unit hunit
    rw [← hkey, ← hhash]
    exact ShardState.isComplete_iff.mp hcomplete listed hmem
  · obtain ⟨listed, hmem, hkey, hhash⟩ := hlisted others hothers unit hunit
    have hrecorded := ShardState.isComplete_iff.mp hcomplete listed hmem
    rw [← hkey, ← hhash]
    exact h.honest _ _ hrecorded (h.found listed hmem hrecorded)

end UkAqOps.Backup

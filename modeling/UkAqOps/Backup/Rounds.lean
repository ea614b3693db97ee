import UkAqOps.Backup.Copying

/-!
# Checkpoints and rounds of the copying loop

Each step of the loop has a specification in the world that may fail: where it returns, the state in
memory has grown by its unit, and where it throws, the world is steady. The loop lemma puts them
together, and says what holds once every candidate was copied.
-/

namespace UkAqOps.Backup

open Effects

variable {ι κ : Type} [DecidableEq κ]
variable {sha256Hex : String → String} {hashUnits : List (ListedUnit κ) → String} {home : κ → ℕ}
variable {source : String → Option ι} {faults : Prop} {kept units : List (ListedUnit κ)} {shard : ℕ}
variable {before w : World κ} {options : BackupOptions}
variable {write : ShardState κ → BackupProg ι κ Bool} {Noted : World κ → ShardState κ → Prop}

/-- How a step ends that goes wrong only where there are faults. -/
def EndsWith {α : Type} (faults : Prop) (r : Except String α) (P : α → Prop) : Prop :=
  (∃ a, r = .ok a ∧ P a) ∨ (faults ∧ ∃ e, r = .error e)

/-- Writing the shard stores the state and notes it. -/
def Writes (sha256Hex : String → String) (hashUnits : List (ListedUnit κ) → String) (home : κ → ℕ)
    (source : String → Option ι) (faults : Prop) (kept units : List (ListedUnit κ)) (shard : ℕ)
    (before : World κ) (write : ShardState κ → BackupProg ι κ Bool)
    (Noted : World κ → ShardState κ → Prop) : Prop :=
  ∀ w state, Carrying sha256Hex hashUnits home kept units shard before w state →
    SpeaksTruth hashUnits home shard w state →
      wp (copyEnv sha256Hex hashUnits home source faults kept) (write state) (fun w' r ↦
        Carrying sha256Hex hashUnits home kept units shard before w' state ∧
          EndsWith faults r fun _ ↦ w'.shards shard = some state ∧ Noted w' state) w

/-! ## Calls -/

section Calls

variable (hw : Steady sha256Hex hashUnits home kept w)

include hw

/-- The clock answers and changes nothing. -/
theorem wp_now {Q : World κ → Except String ℤ → Prop} (h : ∀ time, Q w (.ok time)) :
    wp (copyEnv sha256Hex hashUnits home source faults kept) now Q w := by
  refine wp_await.mpr ⟨hw, ?_⟩
  rintro r w' ⟨rfl, time, rfl⟩
  exact h time

theorem wp_readInventoryJson {key : String} {Q : World κ → Except String ι → Prop}
    (h : ∀ raw, source key = some raw → Q w (.ok raw))
    (herror : faults ∨ source key = none → ∀ e, Q w (.error e)) :
    wp (copyEnv sha256Hex hashUnits home source faults kept) (readInventoryJson key) Q w := by
  refine wp_await.mpr ⟨hw, ?_⟩
  rintro r w' ⟨rfl, ⟨raw, rfl, hraw⟩ | ⟨hfaults, e, rfl⟩⟩
  · exact h raw hraw
  · exact herror hfaults e

theorem wp_readStateJsonMaybe {Q : World κ → Except String (Option (ShardState κ)) → Prop}
    (h : Q w (.ok (w.shards shard))) (herror : faults → ∀ e, Q w (.error e)) :
    wp (copyEnv sha256Hex hashUnits home source faults kept) (readStateJsonMaybe shard) Q w := by
  refine wp_await.mpr ⟨hw, ?_⟩
  rintro r w' ⟨rfl, rfl | ⟨hfaults, e, rfl⟩⟩
  · exact h
  · exact herror hfaults e

/-- A write stores the state, or fails, and even then the state may have been stored. -/
theorem wp_writeStateJson {state : ShardState κ} {Q : World κ → Except String Bool → Prop}
    (h : ∀ b, Q (w.wrote shard state) (.ok b))
    (herror : faults → ∀ e, Q (w.wrote shard state) (.error e) ∧ Q w (.error e)) :
    wp (copyEnv sha256Hex hashUnits home source faults kept) (writeStateJson shard state) Q w := by
  refine wp_await.mpr ⟨hw, ?_⟩
  rintro r w' (⟨rfl, ⟨b, rfl⟩ | hfaults⟩ | ⟨rfl, hfaults, e, rfl⟩)
  · exact h b
  · rcases r with e | b
    · exact (herror hfaults e).1
    · exact h b
  · exact (herror hfaults e).2

theorem wp_readRootState {Q : World κ → Except String RootState → Prop}
    (h : Q w (.ok w.root.state)) :
    wp (copyEnv sha256Hex hashUnits home source faults kept) readRootState Q w := by
  refine wp_await.mpr ⟨hw, ?_⟩
  rintro r w' ⟨rfl, rfl⟩
  exact h

theorem wp_upsertRootRangeSummary {rangeStart : ℕ} {processed : Option String}
    {Q : World κ → Except String Unit → Prop}
    (h : Q (w.withRoot (w.root.upsertRangeSummary rangeStart processed)) (.ok ())) :
    wp (copyEnv sha256Hex hashUnits home source faults kept)
      (upsertRootRangeSummary rangeStart processed) Q w := by
  refine wp_await.mpr ⟨hw, ?_⟩
  rintro r w' ⟨rfl, rfl⟩
  exact h

theorem wp_retainRootRanges {rangeStarts : List ℕ} {Q : World κ → Except String Unit → Prop}
    (h : Q (w.withRoot ⟨w.root.state.retain rangeStarts, w.root.behind⟩) (.ok ())) :
    wp (copyEnv sha256Hex hashUnits home source faults kept)
      (retainRootRanges rangeStarts) Q w := by
  refine wp_await.mpr ⟨hw, ?_⟩
  rintro r w' ⟨rfl, rfl⟩
  exact h

theorem wp_completeRoot {hash : String} {Q : World κ → Except String Unit → Prop}
    (h : Q (w.withRoot ⟨⟨some hash, w.root.state.ranges⟩, w.root.behind⟩) (.ok ())) :
    wp (copyEnv sha256Hex hashUnits home source faults kept) (completeRoot hash) Q w := by
  refine wp_await.mpr ⟨hw, ?_⟩
  rintro r w' ⟨rfl, rfl⟩
  exact h

end Calls

/-! ## Checkpoints -/

theorem checkpointDue_spec (hw : Steady sha256Hex hashUnits home kept w) (force : Bool)
    (progress : Progress κ) :
    wp (copyEnv sha256Hex hashUnits home source faults kept)
      (checkpointDue options force progress : BackupProg ι κ Bool)
      (fun w' r ↦ w' = w ∧ ∃ due, r = .ok due ∧ (force = true → due = true)) w := by
  rw [checkpointDue]
  by_cases hdue : (force || options.checkpointBatchUnits ≤ progress.dirtyUnits) = true
  · rw [if_pos hdue]
    exact ⟨rfl, true, rfl, fun _ ↦ rfl⟩
  · rw [if_neg hdue, wp_bind]
    refine wp_now hw fun time ↦ ⟨rfl, _, rfl, fun hforce ↦ absurd ?_ hdue⟩
    rw [hforce, Bool.true_or]

theorem writeCheckpoint_spec
    (hwrite : Writes sha256Hex hashUnits home source faults kept units shard before write Noted)
    {progress : Progress κ}
    (h : Carrying sha256Hex hashUnits home kept units shard before w progress.state)
    (hspeaks : SpeaksTruth hashUnits home shard w progress.state) :
    wp (copyEnv sha256Hex hashUnits home source faults kept) (writeCheckpoint write progress)
      (fun w' r ↦ Carrying sha256Hex hashUnits home kept units shard before w' progress.state ∧
        EndsWith faults r fun next ↦ next.state = progress.state ∧ next.dirty = false ∧
          w'.shards shard = some progress.state ∧ Noted w' progress.state) w := by
  rw [writeCheckpoint, wp_bind]
  refine wp_mono (fun w' r hr ↦ ?_) (hwrite w progress.state h hspeaks)
  obtain ⟨hcarry, ⟨written, rfl, hstored⟩ | ⟨hfaults, e, rfl⟩⟩ := hr
  · rw [afterBind_ok, wp_bind]
    exact wp_now hcarry.toSteady fun time ↦ ⟨hcarry, Or.inl ⟨_, rfl, rfl, rfl, hstored⟩⟩
  · exact ⟨hcarry, Or.inr ⟨hfaults, e, rfl⟩⟩

theorem flush_spec
    (hwrite : Writes sha256Hex hashUnits home source faults kept units shard before write Noted)
    (force : Bool) {progress : Progress κ}
    (h : Carrying sha256Hex hashUnits home kept units shard before w progress.state)
    (hspeaks : progress.dirty = true → SpeaksTruth hashUnits home shard w progress.state) :
    wp (copyEnv sha256Hex hashUnits home source faults kept) (flush options write force progress)
      (fun w' r ↦ Carrying sha256Hex hashUnits home kept units shard before w' progress.state ∧
        EndsWith faults r fun (next, wrote) ↦ next.state = progress.state ∧
          (next.dirty = true → progress.dirty = true) ∧
          (progress.dirty = true → force = true → wrote = true) ∧
          (wrote = true → w'.shards shard = some progress.state ∧ Noted w' progress.state)) w := by
  rw [flush]
  by_cases hdirty : progress.dirty = false
  · rw [if_pos hdirty]
    exact ⟨h, Or.inl ⟨_, rfl, rfl, fun h ↦ h, fun h ↦ absurd (hdirty.symm.trans h)
      Bool.false_ne_true, fun h ↦ absurd h Bool.false_ne_true⟩⟩
  · rw [if_neg hdirty, wp_bind]
    have hspeaks := hspeaks (Bool.eq_true_of_not_eq_false hdirty)
    refine wp_mono (fun w' r hr ↦ ?_) (checkpointDue_spec h.toSteady force progress)
    obtain ⟨rfl, due, rfl, hdue⟩ := hr
    rw [afterBind_ok]
    by_cases hwrites : due = true
    · rw [if_pos hwrites, wp_bind]
      refine wp_mono (fun w' r hr ↦ ?_) (writeCheckpoint_spec hwrite h hspeaks)
      obtain ⟨hcarry, ⟨next, rfl, hstate, hclean, hstored⟩ | ⟨hfaults, e, rfl⟩⟩ := hr
      · exact ⟨hcarry, Or.inl ⟨_, rfl, hstate, fun h ↦ absurd (hclean.symm.trans h)
          Bool.false_ne_true, fun _ _ ↦ rfl, fun _ ↦ hstored⟩⟩
      · exact ⟨hcarry, Or.inr ⟨hfaults, e, rfl⟩⟩
    · rw [if_neg hwrites]
      exact ⟨h, Or.inl ⟨_, rfl, rfl, fun h ↦ h, fun _ hforce ↦ absurd (hdue hforce) hwrites,
        fun h ↦ absurd h Bool.false_ne_true⟩⟩

/-- Giving up saves what is recorded and throws, in a steady world. -/
theorem giveUp_spec {α : Type}
    (hwrite : Writes sha256Hex hashUnits home source faults kept units shard before write Noted)
    {progress : Progress κ} (hfaults : faults)
    (h : Carrying sha256Hex hashUnits home kept units shard before w progress.state)
    (hspeaks : progress.dirty = true → SpeaksTruth hashUnits home shard w progress.state)
    (e : String) :
    wp (copyEnv sha256Hex hashUnits home source faults kept)
      (giveUp options write progress e : BackupProg ι κ α)
      (fun w' r ↦ Steady sha256Hex hashUnits home kept w' ∧ faults ∧ ∃ e, r = .error e) w := by
  rw [giveUp]
  by_cases hdry : (!options.dryRun) = true
  · rw [if_pos hdry, wp_bind]
    refine wp_mono (fun w' r hr ↦ ?_) (flush_spec hwrite true h hspeaks)
    obtain ⟨hcarry, ⟨_, rfl, -⟩ | ⟨-, e', rfl⟩⟩ := hr
    · exact ⟨hcarry.toSteady, hfaults, e, rfl⟩
    · exact ⟨hcarry.toSteady, hfaults, e', rfl⟩
  · rw [if_neg hdry]
    exact ⟨h.toSteady, hfaults, e, rfl⟩

/-! ## The loop -/

theorem speaksTruth_of_none {state : ShardState κ} (h : state.processedSourceHash = none) :
    SpeaksTruth hashUnits home shard w state := fun _ hash ↦ nomatch h.symm.trans hash

/-- What holds after the units of `done` were copied, where the loop began with `first`. -/
structure Copying (sha256Hex : String → String) (hashUnits : List (ListedUnit κ) → String)
    (home : κ → ℕ) (kept units : List (ListedUnit κ)) (shard : ℕ) (before : World κ)
    (first : ShardState κ) (done : List (ListedUnit κ)) (progress : Progress κ) (w : World κ) :
    Prop where
  carrying : Carrying sha256Hex hashUnits home kept units shard before w progress.state
  unprocessed : progress.dirty = true → progress.state.processedSourceHash = none
  marked : ∀ unit ∈ done, progress.state.hashOf unit.key = some unit.hash
  unmarked : ∀ key, key ∉ done.map ListedUnit.key →
    progress.state.hashOf key = first.hashOf key

/-- What the loop relies on about a unit that it copies. -/
structure Candidate (home : κ → ℕ) (kept units : List (ListedUnit κ)) (shard : ℕ)
    (first : ShardState κ) (unit : ListedUnit κ) : Prop where
  home_eq : home unit.key = shard
  listed : unit ∈ units
  notMem_kept : unit.key ∉ kept.map ListedUnit.key
  ne_recorded : first.hashOf unit.key ≠ some unit.hash

variable {first : ShardState κ} {done : List (ListedUnit κ)} {progress : Progress κ}
variable {unit : ListedUnit κ} {mismatch : ListedUnit κ → String → String}

/-- A copy arrives, or it fails and loses its unit only. -/
theorem copy_spec (hunit : Candidate home kept units shard first unit)
    (hnodup : (units.map ListedUnit.key).Nodup)
    (hnew : progress.state.hashOf unit.key = first.hashOf unit.key)
    (h : Carrying sha256Hex hashUnits home kept units shard before w progress.state) :
    wp (copyEnv sha256Hex hashUnits home source faults kept)
      (do
        let sourceHash ← copyAndVerify unit
        Prog.ofExcept (Except.refuseIf (sourceHash ≠ unit.hash) (mismatch unit sourceHash)) :
        BackupProg ι κ Unit)
      (fun w' r ↦ (r = .ok () ∧ ∀ time, Carrying sha256Hex hashUnits home kept units shard before w'
          (progress.state.markCopied unit time)) ∨
        (faults ∧ (∃ e, r = .error e) ∧
          Carrying sha256Hex hashUnits home kept units shard before w' progress.state)) w := by
  have hlost : ∀ held, Carrying sha256Hex hashUnits home kept units shard before
      (w.copied home unit held .lost) progress.state := by
    refine fun held ↦ h.copy_lost hunit.home_eq hunit.notMem_kept (fun other hother hkey ↦ ?_) held
    rw [List.inj_on_of_nodup_map hnodup hother hunit.listed hkey, hnew]
    exact hunit.ne_recorded
  rw [wp_bind]
  refine wp_await.mpr ⟨h.toSteady, ?_⟩
  rintro r w' ⟨held, standing, hends, rfl⟩
  rcases hends with _ | ⟨sourceHash, hfaults, hne⟩ | ⟨e, held, hfaults⟩
  · rw [afterBind_ok, wp_ofExcept, Except.refuseIf_neg (not_not.mpr rfl)]
    exact Or.inl ⟨rfl, fun time ↦ h.copy_landed hunit.home_eq hunit.notMem_kept time⟩
  · rw [afterBind_ok, wp_ofExcept, Except.refuseIf, if_pos hne]
    exact Or.inr ⟨hfaults, ⟨_, rfl⟩, hlost _⟩
  · exact Or.inr ⟨hfaults, ⟨e, rfl⟩, hlost held⟩

/-- One round of the loop. -/
theorem copyUnit_spec
    (hwrite : Writes sha256Hex hashUnits home source faults kept units shard before write Noted)
    (hdry : options.dryRun = false) (hunit : Candidate home kept units shard first unit)
    (hnodup : (units.map ListedUnit.key).Nodup) (hnew : unit.key ∉ done.map ListedUnit.key)
    (h : Copying sha256Hex hashUnits home kept units shard before first done progress w) :
    wp (copyEnv sha256Hex hashUnits home source faults kept)
      (copyUnit options write mismatch progress unit) (fun w' r ↦
        match r with
        | .ok next => Copying sha256Hex hashUnits home kept units shard before first
            (done ++ [unit]) next w'
        | .error _ => Steady sha256Hex hashUnits home kept w' ∧ faults) w := by
  rw [copyUnit, wp_bind, wp_tryCatch]
  refine wp_mono (fun w₁ r hr ↦ ?_)
    (copy_spec hunit hnodup (h.unmarked unit.key hnew) h.carrying)
  rcases hr with ⟨rfl, hmarked⟩ | ⟨hfaults, ⟨e, rfl⟩, hcarry⟩
  · rw [afterCatch_ok, afterBind_ok, if_neg (by rw [hdry]; exact Bool.false_ne_true), wp_bind]
    refine wp_now (hmarked 0).toSteady fun time ↦ ?_
    have hcopying : ∀ next : Progress κ, next.state = (progress.markCopied unit time).state →
        ∀ w₂, Carrying sha256Hex hashUnits home kept units shard before w₂ next.state →
          Copying sha256Hex hashUnits home kept units shard before first (done ++ [unit]) next w₂ := by
      intro next hstate w₂ hnext
      refine ⟨hnext, fun _ ↦ by rw [hstate]; rfl, fun other hother ↦ ?_, fun key hkey ↦ ?_⟩
      · rw [hstate, Progress.markCopied, ShardState.hashOf_markCopied]
        rcases List.mem_append.mp hother with hdone | hlast
        · have hne : other.key ≠ unit.key := fun heq ↦ hnew (heq ▸ List.mem_map_of_mem hdone)
          rw [if_neg hne, h.marked other hdone]
        · rw [List.mem_singleton.mp hlast, if_pos rfl]
      · rw [List.map_append, List.mem_append, not_or, List.map_singleton,
          List.mem_singleton] at hkey
        rw [hstate, Progress.markCopied, ShardState.hashOf_markCopied, if_neg hkey.2,
          h.unmarked key hkey.1]
    have hspeaks : ∀ w, SpeaksTruth hashUnits home shard w (progress.markCopied unit time).state :=
      fun w ↦ speaksTruth_of_none rfl
    rw [afterBind_ok, wp_bind, wp_tryCatch]
    refine wp_mono (fun w₂ r hr ↦ ?_) (flush_spec hwrite false (hmarked time) fun _ ↦ hspeaks w₁)
    obtain ⟨hcarry, ⟨⟨next, wrote⟩, rfl, hstate, -⟩ | ⟨hfaults, e, rfl⟩⟩ := hr
    · exact hcopying next hstate w₂ (hstate ▸ hcarry)
    · refine wp_mono (fun w₃ r hr ↦ ?_)
        (giveUp_spec hwrite hfaults hcarry (fun _ ↦ hspeaks w₂) e)
      obtain ⟨hsteady, -, e', rfl⟩ := hr
      exact ⟨hsteady, hfaults⟩
  · refine wp_mono (fun w₂ r hr ↦ ?_) (giveUp_spec hwrite hfaults hcarry
      (fun hdirty ↦ speaksTruth_of_none (h.unprocessed hdirty)) e)
    obtain ⟨hsteady, -, e', rfl⟩ := hr
    exact ⟨hsteady, hfaults⟩

/-- The loop over the candidates. -/
theorem copyUnits_spec
    (hwrite : Writes sha256Hex hashUnits home source faults kept units shard before write Noted)
    (hdry : options.dryRun = false) {candidates : List (ListedUnit κ)}
    (hcandidates : ∀ unit ∈ candidates, Candidate home kept units shard first unit)
    (hnodup : (units.map ListedUnit.key).Nodup) (hdistinct : (candidates.map ListedUnit.key).Nodup)
    (h : Copying sha256Hex hashUnits home kept units shard before first [] progress w) :
    wp (copyEnv sha256Hex hashUnits home source faults kept)
      (candidates.foldlM (copyUnit options write mismatch) progress) (fun w' r ↦
        match r with
        | .ok next => Copying sha256Hex hashUnits home kept units shard before first candidates
            next w'
        | .error _ => Steady sha256Hex hashUnits home kept w' ∧ faults) w := by
  have hloop := @wp_foldlM _ _ _ _ _ _ (copyEnv sha256Hex hashUnits home source faults kept) w
    (copyUnit options write mismatch) candidates progress
    (fun done next w' ↦ Copying sha256Hex hashUnits home kept units shard before first done next w')
    (fun _ w' ↦ Steady sha256Hex hashUnits home kept w' ∧ faults) h
    fun done unit rest progress w hsplit hcopying ↦ ?_
  · refine wp_mono (fun w' r hr ↦ ?_) hloop
    rcases r with e | next
    · exact hr
    · exact hr
  · have hmem : unit ∈ candidates := by
      rw [hsplit]
      exact List.mem_append_right _ List.mem_cons_self
    have hnew : unit.key ∉ done.map ListedUnit.key := fun hdone ↦ by
      rw [hsplit, List.map_append, List.map_cons] at hdistinct
      exact (List.nodup_append.mp hdistinct).2.2 _ hdone _ List.mem_cons_self rfl
    refine wp_mono (fun w' r hr ↦ ?_)
      (copyUnit_spec hwrite hdry (hcandidates unit hmem) hnodup hnew hcopying)
    rcases r with e | next
    · exact hr
    · exact hr

end UkAqOps.Backup

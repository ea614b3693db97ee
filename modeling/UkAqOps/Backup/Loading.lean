import UkAqOps.Backup.Rounds

/-!
# Loading a shard and completing it

A run begins with the shard as it is stored. Where no listed unit that the shard records with the
listed hash is lost, the loop may start from it, and what the shard makes the run skip is held. When
every candidate was copied, the state records the whole listing and may say so.
-/

namespace UkAqOps.Backup

open Effects

variable {ι κ : Type} [DecidableEq κ]
variable {sha256Hex : String → String} {hashUnits : List (ListedUnit κ) → String} {home : κ → ℕ}
variable {source : String → Option ι} {faults : Prop} {kept units : List (ListedUnit κ)} {shard : ℕ}
variable {before w : World κ} {options : BackupOptions} {state : ShardState κ}

/-- What is stored of a shard. -/
def World.stored (w : World κ) (shard : ℕ) : ShardState κ := (w.shards shard).getD .skeleton

/-- No unit that is recorded with the hash it is listed with is lost. -/
def NoneLost (w : World κ) (shard : ℕ) (units : List (ListedUnit κ)) : Prop :=
  ∀ unit ∈ units, (w.stored shard).hashOf unit.key = some unit.hash →
    w.standing unit.key ≠ .lost

theorem shards_of_stored {key : κ} {hash : String} (h : (w.stored shard).hashOf key = some hash) :
    w.shards shard = some (w.stored shard) := by
  rw [World.stored] at h ⊢
  rcases hstored : w.shards shard with _ | state
  · rw [hstored] at h
    exact nomatch h
  · rfl

theorem shards_of_processed {hash : String}
    (h : (w.stored shard).processedSourceHash = some hash) :
    w.shards shard = some (w.stored shard) := by
  rw [World.stored] at h ⊢
  rcases hstored : w.shards shard with _ | state
  · rw [hstored] at h
    exact nomatch h
  · rfl

/-- What is recorded and neither waits nor is lost, is held. -/
theorem Sound.holds_of_recorded (h : Sound sha256Hex hashUnits home w) {key : κ} {hash : String}
    (hkey : (w.stored shard).hashOf key = some hash) (hlanded : w.standing key ≠ .landed)
    (hlost : w.standing key ≠ .lost) : w.holds key = some hash := by
  refine h.settled shard _ key hash (shards_of_stored hkey) hkey ?_
  generalize w.standing key = standing at hlanded hlost
  rcases standing with _ | _ | _
  · rfl
  · exact absurd rfl hlanded
  · exact absurd rfl hlost

theorem recorded_of_trim {key : κ} {hash : String}
    (h : (state.trim units).1.hashOf key = some hash) : state.hashOf key = some hash := by
  rw [ShardState.hashOf_trim] at h
  split at h
  · exact h
  · cases h

/-- The loop may start from the stored shard. -/
theorem carrying_load (h : Steady sha256Hex hashUnits home kept w)
    (helsewhere : Elsewhere home shard before w)
    (hlanded : ∀ key, home key = shard → w.standing key ≠ .landed)
    (hnone : NoneLost w shard units) :
    Carrying sha256Hex hashUnits home kept units shard before w
      ((w.stored shard).trim units).1 where
  toSteady := h
  home_eq key hash hkey := by
    have hstored := recorded_of_trim hkey
    exact h.sound.home_eq shard _ key hash (shards_of_stored hstored) hstored
  honest key hash hkey hlost := by
    have hstored := recorded_of_trim hkey
    have hhome := h.sound.home_eq shard _ key hash (shards_of_stored hstored) hstored
    exact h.sound.holds_of_recorded hstored (hlanded key hhome) hlost
  found unit hunit hrecorded := hnone unit hunit (recorded_of_trim hrecorded)
  processed hash hprocessed := by
    have heq := ShardState.trim_eq_of_processed hprocessed
    rw [heq] at hprocessed ⊢
    exact h.sound.processed shard _ hash (shards_of_processed hprocessed) hprocessed
  elsewhere := helsewhere

/-! ## What is skipped -/

/-- The units of a shard that a run does not copy. -/
def skippedUnits (state : ShardState κ) (sourceHash : String) (units : List (ListedUnit κ)) :
    List (ListedUnit κ) :=
  if state.processedSourceHash = some sourceHash then units
  else units.filter fun unit ↦ state.hashOf unit.key = some unit.hash

/-- A skipped unit is recorded with its listed hash. -/
theorem recorded_of_skipped {sourceHash : String} (hhash : hashUnits units = sourceHash)
    (hcomplete : ∀ hash, state.processedSourceHash = some hash → CompleteFor hashUnits state hash)
    {unit : ListedUnit κ} (h : unit ∈ skippedUnits state sourceHash units) :
    unit ∈ units ∧ state.hashOf unit.key = some unit.hash := by
  rw [skippedUnits] at h
  split at h
  · rename_i hprocessed
    exact ⟨h, hcomplete sourceHash hprocessed units hhash unit h⟩
  · obtain ⟨hunit, hrecorded⟩ := List.mem_filter.mp h
    exact ⟨hunit, of_decide_eq_true hrecorded⟩

theorem complete_trim (h : Sound sha256Hex hashUnits home w) (hash : String)
    (hprocessed : ((w.stored shard).trim units).1.processedSourceHash = some hash) :
    CompleteFor hashUnits ((w.stored shard).trim units).1 hash := by
  have heq := ShardState.trim_eq_of_processed hprocessed
  rw [heq] at hprocessed ⊢
  exact h.processed shard _ hash (shards_of_processed hprocessed) hprocessed

/-- Where no recorded unit is lost, what is skipped is held. -/
theorem holds_of_skipped (h : Sound sha256Hex hashUnits home w) {sourceHash : String}
    (hhash : hashUnits units = sourceHash) (hlanded : ∀ key, w.standing key ≠ .landed)
    (hnone : NoneLost w shard units) {unit : ListedUnit κ}
    (hunit : unit ∈ skippedUnits ((w.stored shard).trim units).1 sourceHash units) :
    w.holds unit.key = some unit.hash := by
  obtain ⟨hmem, hrecorded⟩ := recorded_of_skipped hhash (complete_trim h) hunit
  have hstored := recorded_of_trim hrecorded
  exact h.holds_of_recorded hstored (hlanded unit.key) (hnone unit hmem hstored)

/-! ## Starting the loop -/

/-- A shard that has to be written anyway says nothing about what it is complete for. -/
theorem unprocessed_of_dirty
    (h : ((w.shards shard).isNone || ((w.stored shard).trim units).2) = true) :
    ((w.stored shard).trim units).1.processedSourceHash = none := by
  rcases (Bool.or_eq_true _ _).mp h with hnew | htrimmed
  · rw [World.stored, Option.isNone_iff_eq_none.mp hnew]
    rcases hprocessed : ((ShardState.skeleton : ShardState κ).trim units).1.processedSourceHash
      with _ | hash
    · exact hprocessed
    · have heq := ShardState.trim_eq_of_processed hprocessed
      rw [heq] at hprocessed
      exact nomatch hprocessed
  · exact ShardState.processedSourceHash_of_trimmed htrimmed

/-- The variables of the loop before its first round. -/
def startProgress (w : World κ) (shard : ℕ) (units : List (ListedUnit κ)) (time : ℤ) : Progress κ :=
  ⟨((w.stored shard).trim units).1,
    (w.shards shard).isNone || ((w.stored shard).trim units).2, 0, time, 0, 0, 0, 0⟩

theorem copying_start {time : ℤ}
    (h : Carrying sha256Hex hashUnits home kept units shard before w
      ((w.stored shard).trim units).1) :
    Copying sha256Hex hashUnits home kept units shard before ((w.stored shard).trim units).1 []
      (startProgress w shard units time) w where
  carrying := h
  unprocessed := unprocessed_of_dirty
  marked _ hmem := absurd hmem List.not_mem_nil
  unmarked _ _ := rfl

theorem mem_uncopied {unit : ListedUnit κ} :
    unit ∈ uncopied state units ↔ unit ∈ units ∧ state.hashOf unit.key ≠ some unit.hash := by
  rw [uncopied, List.mem_filter, decide_eq_true_iff]

theorem nodup_uncopied (h : (units.map ListedUnit.key).Nodup) :
    ((uncopied state units).map ListedUnit.key).Nodup :=
  h.sublist (List.filter_sublist.map _)

theorem candidate_of_uncopied (hnodup : (units.map ListedUnit.key).Nodup)
    (hhome : ∀ unit ∈ units, home unit.key = shard)
    (hkept : ∀ other ∈ kept, home other.key = shard →
      other ∈ units ∧ state.hashOf other.key = some other.hash)
    {unit : ListedUnit κ} (h : unit ∈ uncopied state units) :
    Candidate home kept units shard state unit := by
  obtain ⟨hunit, hne⟩ := mem_uncopied.mp h
  refine ⟨hhome unit hunit, hunit, fun hmem ↦ ?_, hne⟩
  obtain ⟨other, hother, hkey⟩ := List.mem_map.mp hmem
  obtain ⟨hlisted, hrecorded⟩ := hkept other hother (hkey ▸ hhome unit hunit)
  rw [List.inj_on_of_nodup_map hnodup hlisted hunit hkey] at hrecorded
  exact hne hrecorded

/-! ## Completing -/

/-- After the loop over the units that were not recorded with their listed hashes, all are. -/
theorem Copying.isComplete {progress : Progress κ} (hnodup : (units.map ListedUnit.key).Nodup)
    (h : Copying sha256Hex hashUnits home kept units shard before state (uncopied state units)
      progress w) :
    progress.state.isComplete units = true := by
  refine ShardState.isComplete_iff.mpr fun unit hunit ↦ ?_
  by_cases hrecorded : state.hashOf unit.key = some unit.hash
  · rw [h.unmarked unit.key fun hmem ↦ ?_, hrecorded]
    obtain ⟨other, hother, hkey⟩ := List.mem_map.mp hmem
    obtain ⟨hlisted, hne⟩ := mem_uncopied.mp hother
    rw [List.inj_on_of_nodup_map hnodup hlisted hunit hkey] at hne
    exact hne hrecorded
  · exact h.marked unit (mem_uncopied.mpr ⟨hunit, hrecorded⟩)

/-- A state that records the whole listing, and nothing that was not recorded before, may say
which inventory it is complete for. -/
theorem Carrying.complete (hidentifies : Identifies hashUnits)
    (h : Carrying sha256Hex hashUnits home kept units shard before w state) {next : ShardState κ}
    (hsub : ∀ key hash, next.hashOf key = some hash → state.hashOf key = some hash)
    (hcomplete : next.isComplete units = true)
    (hprocessed : next.processedSourceHash = some (hashUnits units)) :
    Carrying sha256Hex hashUnits home kept units shard before w next ∧
      SpeaksTruth hashUnits home shard w next := by
  have hunprocessed : Carrying sha256Hex hashUnits home kept units shard before w
      ⟨none, next.units⟩ :=
    { h with
      home_eq := fun key hash hkey ↦ h.home_eq key hash (hsub key hash hkey)
      honest := fun key hash hkey ↦ h.honest key hash (hsub key hash hkey)
      found := fun unit hunit hkey ↦ h.found unit hunit (hsub unit.key unit.hash hkey)
      processed := fun _ hash ↦ nomatch hash }
  obtain ⟨hfor, hheld⟩ := hunprocessed.heldFor hidentifies hcomplete
  refine ⟨{ hunprocessed with processed := fun hash hhash ↦ ?_ }, fun hash hhash ↦ ?_⟩
  · rw [← Option.some.inj (hprocessed.symm.trans hhash)]
    exact hfor
  · rw [← Option.some.inj (hprocessed.symm.trans hhash)]
    exact hheld

end UkAqOps.Backup

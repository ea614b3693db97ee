import UkAqOps.CronHealth.Episodes
import Mathlib.Data.List.Perm.Basic

/-!
# Episodes and outages

What `_recompute_outages` makes of the outages that are held already. An outage keeps the slots of the
run that its report was made for, and these stay in one episode whatever is observed later. So every
outage belongs to an episode, no two belong to the same one, and after the loop every episode has its
outage.
-/

namespace UkAqOps.CronHealth

open MaximalRuns Sorting

/-! ## One turn of the loop -/

section Turn

variable (settings : Settings) (stamps : ℕ → Stamp) (workerName : String)
variable (observations : Observations) (anchored : ℕ → Option ℕ)

/-- The outage that is made for an episode. -/
def outageOf (episode : Episode) (episodeIndex : ℕ) : Outage :=
  { newOutage settings (stamps episodeIndex) workerName episode.startSlot episode.endSlot
      episode.count with
    identityStartSlot := episode.identityStartSlot
    identityEndSlot := episode.identityEndSlot }

/-- An outage with the interval of an episode. -/
def Outage.retell (episode : Episode) (outage : Outage) : Outage :=
  { outage with
    startSlot := episode.startSlot
    endSlot := episode.endSlot
    count := episode.count }

/-- Where the outage of an episode comes from. -/
inductive Source (state : Recomputing) (episode : Episode) (episodeIndex : ℕ) : ℕ → Outage → Prop
  | made (hnone : matchingOutage anchored state episodeIndex episode = none) :
    Source state episode episodeIndex state.outages.length
      (outageOf settings stamps workerName episode episodeIndex)
  | found {i : ℕ} {outage : Outage}
    (hsome : matchingOutage anchored state episodeIndex episode = some i)
    (hold : state.outages[i]? = some outage) :
    Source state episode episodeIndex i (outage.retell episode)

/-- What a turn does: the outage of the episode is settled, and nothing else changes. -/
structure Turn (state : Recomputing) (episode : Episode) (episodeIndex : ℕ) (state' : Recomputing)
    (i : ℕ) (outage : Outage) : Prop where
  source : Source settings stamps workerName anchored state episode episodeIndex i outage
  outages : ∀ i', state'.outages[i']? =
    if i' = i then some (outage.settle observations episode) else state.outages[i']?
  length_le : state.outages.length ≤ state'.outages.length
  assigned : state'.assigned = state.assigned ++ [i]
  newlyDetected : state'.newlyDetected =
    if i = state.outages.length then state.newlyDetected ++ [i] else state.newlyDetected
  recoveries : state'.recoveries =
    if episode.recoveryIsConclusive observations && !outage.recoveryLogged then
      state.recoveries ++ [i] else state.recoveries

variable {settings stamps workerName observations anchored}
variable {state : Recomputing} {episode : Episode} {episodeIndex i : ℕ}

theorem lt_of_matchingOutage (h : matchingOutage anchored state episodeIndex episode = some i) :
    i < state.outages.length := by
  rcases Option.or_eq_some_iff.mp h with h | ⟨-, h⟩
  · exact List.mem_range.mp (List.mem_of_find?_eq_some h)
  · exact List.mem_range.mp (List.mem_of_find?_eq_some h)

theorem getElem?_modify_ite {α : Type*} (f : α → α) (l : List α) (i j : ℕ) :
    (l.modify i f)[j]? = if j = i then l[i]?.map f else l[j]? := by
  rw [List.getElem?_modify]
  split_ifs with h h' h'
  · rw [h]
    rfl
  · exact absurd h.symm h'
  · exact absurd h'.symm h
  · exact Option.map_id'

variable (settings stamps workerName observations anchored) in
/-- **Inversion.** -/
theorem exists_turn (state : Recomputing) (episode : Episode) (episodeIndex : ℕ) : ∃ i outage,
    Turn settings stamps workerName observations anchored state episode episodeIndex
      (recomputeEpisode settings stamps workerName observations anchored state
        (episode, episodeIndex)) i outage := by
  rcases hmatching : matchingOutage anchored state episodeIndex episode with _ | i
  · refine ⟨_, _, ⟨.made hmatching, fun i' ↦ ?_, ?_, ?_, ?_, ?_⟩⟩
    · rw [recomputeEpisode, hmatching]
      dsimp only
      rw [getElem?_modify_ite]
      rcases lt_trichotomy i' state.outages.length with hlt | rfl | hgt
      · rw [if_neg hlt.ne, if_neg hlt.ne, List.getElem?_append_left hlt]
      · rw [if_pos rfl, if_pos rfl, List.getElem?_concat_length]
        rfl
      · rw [if_neg hgt.ne', if_neg hgt.ne', List.getElem?_eq_none hgt.le, List.getElem?_eq_none]
        simp only [List.length_append, List.length_singleton]
        omega
    · rw [recomputeEpisode, hmatching]
      simp only [List.length_modify, List.length_append]
      omega
    · rw [recomputeEpisode, hmatching]
    · rw [recomputeEpisode, hmatching, if_pos rfl]
    · rw [recomputeEpisode, hmatching]
      dsimp only
      rw [List.getElem?_concat_length]
      rfl
  · have hlt := lt_of_matchingOutage hmatching
    have hold := List.getElem?_eq_getElem hlt
    refine ⟨i, _, ⟨.found hmatching hold, fun i' ↦ ?_, ?_, ?_, ?_, ?_⟩⟩
    · rw [recomputeEpisode, hmatching]
      dsimp only
      rw [getElem?_modify_ite, getElem?_modify_ite, getElem?_modify_ite, if_pos rfl, hold]
      split_ifs <;> rfl
    · rw [recomputeEpisode, hmatching]
      simp only [List.length_modify, le_refl]
    · rw [recomputeEpisode, hmatching]
    · rw [recomputeEpisode, hmatching, if_neg hlt.ne]
    · rw [recomputeEpisode, hmatching]
      dsimp only
      rw [getElem?_modify_ite, if_pos rfl, hold]
      rfl

end Turn

/-! ## The loop -/

section Loop

/-- What is never changed of an outage. -/
structure SameReport (outage outage' : Outage) : Prop where
  payload : outage'.payload = outage.payload
  identityStartSlot : outage'.identityStartSlot = outage.identityStartSlot
  identityEndSlot : outage'.identityEndSlot = outage.identityEndSlot

/-- The outages stay in their places with their reports. -/
def Keeps (outages outages' : List Outage) : Prop :=
  ∀ i : ℕ, ∀ outage ∈ outages[i]?, ∃ outage' ∈ outages'[i]?, SameReport outage outage'

theorem Keeps.refl (outages : List Outage) : Keeps outages outages :=
  fun _ outage h ↦ ⟨outage, h, rfl, rfl, rfl⟩

theorem Keeps.trans {outages outages' outages'' : List Outage} (h : Keeps outages outages')
    (h' : Keeps outages' outages'') : Keeps outages outages'' := by
  intro i outage hi
  obtain ⟨outage', hi', hsame⟩ := h i outage hi
  obtain ⟨outage'', hi'', hsame'⟩ := h' i outage' hi'
  exact ⟨outage'', hi'', hsame'.payload.trans hsame.payload,
    hsame'.identityStartSlot.trans hsame.identityStartSlot,
    hsame'.identityEndSlot.trans hsame.identityEndSlot⟩

/-- Whether the recovery of an outage has been logged. -/
def recoveryLoggedAt (outages : List Outage) (i : ℕ) : Bool := outages[i]?.any (·.recoveryLogged)

variable {settings : Settings} {stamps : ℕ → Stamp} {workerName : String}
variable {observations : Observations} {anchored : ℕ → Option ℕ}
variable {state state' : Recomputing} {episode : Episode} {episodeIndex i : ℕ} {outage : Outage}

theorem Turn.keeps
    (h : Turn settings stamps workerName observations anchored state episode episodeIndex state' i
      outage) : Keeps state.outages state'.outages := by
  intro i' old hold
  rw [h.outages]
  split_ifs with heq
  · subst heq
    refine ⟨_, rfl, ?_⟩
    rcases h.source with hnone | ⟨hsome, hold'⟩
    · rw [List.getElem?_eq_none le_rfl] at hold
      rcases hold with ⟨⟩
    · obtain rfl := Option.some.inj (hold'.symm.trans hold)
      exact ⟨rfl, rfl, rfl⟩
  · exact ⟨old, hold, rfl, rfl, rfl⟩

/-- A recovery is logged when it has not been logged before. -/
theorem Turn.count_recoveries
    (h : Turn settings stamps workerName observations anchored state episode episodeIndex state' i
      outage) (i' : ℕ) :
    state'.recoveries.count i' + (recoveryLoggedAt state.outages i').toNat
      = state.recoveries.count i' + (recoveryLoggedAt state'.outages i').toNat := by
  rw [h.recoveries, recoveryLoggedAt, recoveryLoggedAt, h.outages]
  by_cases heq : i' = i
  · subst heq
    have hlogged : (state.outages[i']?).any (·.recoveryLogged) = outage.recoveryLogged := by
      rcases h.source with hnone | ⟨hsome, hold⟩
      · rw [List.getElem?_eq_none le_rfl]
        rfl
      · rw [hold]
        rfl
    rw [if_pos rfl, hlogged, Option.any_some, Outage.settle]
    rcases episode.recoveryIsConclusive observations <;> rcases outage.recoveryLogged <;> simp
  · have hcount : [i].count i' = 0 := List.count_eq_zero.mpr (by simpa using heq)
    rw [if_neg heq]
    split_ifs
    · rw [List.count_append, hcount, Nat.add_zero]
    · rfl

theorem Turn.lt_length_iff
    (h : Turn settings stamps workerName observations anchored state episode episodeIndex state' i
      outage) {i' : ℕ} :
    i' < state'.outages.length ↔ i' = i ∨ i' < state.outages.length := by
  rw [← not_iff_not, not_or, not_lt, not_lt, ← List.getElem?_eq_none_iff, h.outages]
  split_ifs with heq
  · exact ⟨by rintro ⟨⟩, fun hne ↦ absurd heq hne.1⟩
  · rw [List.getElem?_eq_none_iff]
    exact ⟨fun hle ↦ ⟨heq, hle⟩, And.right⟩

/-- A new outage is detected once. -/
theorem Turn.count_newlyDetected
    (h : Turn settings stamps workerName observations anchored state episode episodeIndex state' i
      outage) (i' : ℕ) :
    state'.newlyDetected.count i' + (decide (i' < state.outages.length)).toNat
      = state.newlyDetected.count i' + (decide (i' < state'.outages.length)).toNat := by
  have hlt : i ≤ state.outages.length := by
    rcases h.source with hnone | ⟨hsome, hold⟩
    · exact le_rfl
    · exact (lt_of_matchingOutage hsome).le
  have hlength : decide (i' < state'.outages.length)
      = decide (i' = i ∨ i' < state.outages.length) := decide_eq_decide.mpr h.lt_length_iff
  rw [h.newlyDetected, hlength]
  split_ifs with hnew
  · rw [List.count_append, List.count_singleton]
    by_cases heq : i' = i
    · subst heq
      simp [hnew]
    · simp [heq, Ne.symm heq]
  · by_cases heq : i' = i
    · have hold : i' < state.outages.length := heq ▸ lt_of_le_of_ne hlt hnew
      simp [hold]
    · simp [heq]

/-- An invariant of a loop over a list with its places. -/
theorem foldl_zipIdx_invariant {α σ : Type*} (f : σ → α × ℕ → σ) (Inv : List α → σ → Prop) {s : σ}
    (hstart : Inv [] s) (xs : List α)
    (hstep : ∀ before x after s, xs = before ++ x :: after → Inv before s →
      Inv (before ++ [x]) (f s (x, before.length))) : Inv xs (xs.zipIdx.foldl f s) := by
  induction xs using List.reverseRecOn with
  | nil => exact hstart
  | append_singleton xs x ih =>
    rw [List.zipIdx_append, List.foldl_append, Nat.zero_add]
    refine hstep xs x [] _ rfl (ih fun before y after s' hxs hinv ↦ ?_)
    exact hstep before y (after ++ [x]) s' (by rw [hxs, List.append_assoc, List.cons_append]) hinv

variable (settings stamps workerName observations) (existing : List Outage)

/-- The episodes of the outages that are held before the loop, by their places. -/
def anchoredAt (threshold : ℤ) (i : ℕ) : Option ℕ :=
  existing[i]?.bind (anchoredEpisode (qualifyingOutageEpisodes threshold observations))

theorem recomputeOutages_eq :
    recomputeOutages settings stamps workerName observations existing
      = (qualifyingOutageEpisodes settings.outageThresholdSlots observations).zipIdx.foldl
          (recomputeEpisode settings stamps workerName observations
            (anchoredAt observations existing settings.outageThresholdSlots)) ⟨existing, [], [], []⟩ :=
  rfl

/-- **Every outage stays in its place** with its report and its identity. -/
theorem recomputeOutages_keeps :
    Keeps existing (recomputeOutages settings stamps workerName observations existing).outages := by
  rw [recomputeOutages_eq]
  refine foldl_zipIdx_invariant _ (fun _ (state : Recomputing) ↦ Keeps existing state.outages)
    (Keeps.refl existing) _ fun before episode after state _ hkeeps ↦ ?_
  obtain ⟨i, outage, hturn⟩ := exists_turn settings stamps workerName observations _ state episode
    before.length
  exact hkeeps.trans hturn.keeps

/-- **A recovery is logged when it has not been logged before**, and from then on it is. -/
theorem recomputeOutages_count_recoveries (i : ℕ) :
    (recomputeOutages settings stamps workerName observations existing).recoveries.count i
      + (recoveryLoggedAt existing i).toNat
      = (recoveryLoggedAt
          (recomputeOutages settings stamps workerName observations existing).outages i).toNat := by
  rw [recomputeOutages_eq]
  refine foldl_zipIdx_invariant _ (fun _ (state : Recomputing) ↦ state.recoveries.count i
    + (recoveryLoggedAt existing i).toNat = (recoveryLoggedAt state.outages i).toNat)
    (Nat.zero_add _) _ fun before episode after state _ hcount ↦ ?_
  obtain ⟨i', outage, hturn⟩ := exists_turn settings stamps workerName observations
    (anchoredAt observations existing settings.outageThresholdSlots) state episode before.length
  have hstep := hturn.count_recoveries i
  omega

/-- **A new outage is detected once.** -/
theorem recomputeOutages_count_newlyDetected (i : ℕ) :
    (recomputeOutages settings stamps workerName observations existing).newlyDetected.count i
      + (decide (i < existing.length)).toNat
      = (decide (i < (recomputeOutages settings stamps workerName observations
          existing).outages.length)).toNat := by
  rw [recomputeOutages_eq]
  refine foldl_zipIdx_invariant _ (fun _ (state : Recomputing) ↦ state.newlyDetected.count i
    + (decide (i < existing.length)).toNat = (decide (i < state.outages.length)).toNat)
    (Nat.zero_add _) _ fun before episode after state _ hcount ↦ ?_
  obtain ⟨i', outage, hturn⟩ := exists_turn settings stamps workerName observations
    (anchoredAt observations existing settings.outageThresholdSlots) state episode before.length
  have hstep := hturn.count_newlyDetected i
  omega

end Loop

/-! ## Anchors -/

section Anchors

variable {observations : Observations} {threshold : ℤ} {episode episode' : Episode}
variable {outage outage' : Outage}

/-- The slots of the report of an outage were all taken over, and they are enough. -/
structure Identified (observations : Observations) (threshold : ℤ) (outage : Outage) : Prop where
  stretch : Stretch 60 (TakenOver observations) outage.identityStartSlot outage.identityEndSlot
  long : threshold ≤ minutes outage.identityStartSlot outage.identityEndSlot

/-- The slots of the report of an outage lie in an episode. -/
structure Belongs (episode : Episode) (outage : Outage) : Prop where
  start_le : episode.startSlot ≤ outage.identityStartSlot
  le_end : outage.identityEndSlot ≤ episode.endSlot

/-- The Cron has triggered between the slots of two reports. -/
def ReportsApart (observations : Observations) (outage outage' : Outage) : Prop :=
  Apart observations outage.identityStartSlot outage.identityEndSlot outage'.identityStartSlot
    outage'.identityEndSlot

theorem Identified.exists_belongs (haligned : Aligned observations)
    (h : Identified observations threshold outage) :
    ∃ episode ∈ qualifyingOutageEpisodes threshold observations, Belongs episode outage := by
  obtain ⟨start, stop, hrun, hle, hge⟩ := haligned.exists_isRun h.stretch
  have hlong : threshold ≤ minutes start stop := by
    have hidentity := h.long
    rw [minutes] at hidentity ⊢
    omega
  have hgroup : InGroup observations threshold (recoverySlot observations stop) start stop :=
    ⟨hrun, hlong, nextTrigger_recoverySlot observations stop⟩
  obtain ⟨episode, hmem, hnext⟩ := (haligned.mem_episodes _).2.1 _ _ _ hgroup
  rw [← hnext] at hgroup
  obtain ⟨hstart, hstop, -⟩ := ((haligned.mem_episodes _).1 episode hmem).within _ _ hgroup
  exact ⟨episode, hmem, hstart.trans hle, hge.trans hstop⟩

/-- An outage belongs to one episode only. -/
theorem Belongs.recoverySlot_eq (haligned : Aligned observations)
    (he : IsEpisode observations threshold episode) (he' : IsEpisode observations threshold episode')
    (hle : outage.identityStartSlot ≤ outage.identityEndSlot) (h : Belongs episode outage)
    (h' : Belongs episode' outage) : episode.recoverySlot = episode'.recoverySlot :=
  (he.nextTrigger haligned h.start_le (hle.trans h.le_end)).eq
    (he'.nextTrigger haligned h'.start_le (hle.trans h'.le_end))

/-- Only one of two outages belongs to an episode. -/
theorem ReportsApart.not_belongs (haligned : Aligned observations)
    (he : IsEpisode observations threshold episode)
    (hle : outage.identityStartSlot ≤ outage.identityEndSlot)
    (hle' : outage'.identityStartSlot ≤ outage'.identityEndSlot)
    (h : ReportsApart observations outage outage') (hb : Belongs episode outage) :
    ¬Belongs episode outage' := by
  intro hb'
  obtain ⟨c, hc, hbetween⟩ := h
  have hstart := hb.start_le
  have hstart' := hb'.start_le
  have hstop := hb.le_end
  have hstop' := hb'.le_end
  exact he.not_triggered haligned (t := c) (by omega) (by omega) hc

theorem Belongs.reportsApart (haligned : Aligned observations)
    (he : IsEpisode observations threshold episode) (he' : IsEpisode observations threshold episode')
    (hne : episode.recoverySlot ≠ episode'.recoverySlot) (h : Belongs episode outage)
    (h' : Belongs episode' outage') : ReportsApart observations outage outage' := by
  obtain ⟨c, hc, hbetween⟩ := he.apart haligned he' hne
  have hstart := h.start_le
  have hstart' := h'.start_le
  have hstop := h.le_end
  have hstop' := h'.le_end
  exact ⟨c, hc, by omega⟩

/-- **The anchor** of an outage is the place of the episode that it belongs to. -/
theorem Identified.anchoredEpisode_eq_some_iff (haligned : Aligned observations)
    (h : Identified observations threshold outage) {m : ℕ} :
    anchoredEpisode (qualifyingOutageEpisodes threshold observations) outage = some m ↔
      ∃ episode, (qualifyingOutageEpisodes threshold observations)[m]? = some episode ∧
        Belongs episode outage := by
  obtain ⟨hepisodes, -, hdistinct⟩ := haligned.mem_episodes threshold
  have hforward : ∀ m, anchoredEpisode (qualifyingOutageEpisodes threshold observations) outage
      = some m → ∃ episode, (qualifyingOutageEpisodes threshold observations)[m]? = some episode ∧
        Belongs episode outage := by
    intro m hm
    obtain ⟨hlt, hin, -⟩ := List.findIdx?_eq_some_iff_getElem.mp hm
    obtain ⟨hstart, hstop⟩ := of_decide_eq_true hin
    exact ⟨_, List.getElem?_eq_getElem hlt, hstart, hstop⟩
  refine ⟨hforward m, ?_⟩
  rintro ⟨episode, hget, hbelongs⟩
  have hmem := List.mem_of_getElem? hget
  rcases hanchor : anchoredEpisode (qualifyingOutageEpisodes threshold observations) outage with
    _ | m'
  · have hout := List.findIdx?_eq_none_iff.mp hanchor episode hmem
    exact absurd ⟨hbelongs.start_le, hbelongs.le_end⟩ (of_decide_eq_false hout)
  · obtain ⟨episode', hget', hbelongs'⟩ := hforward m' hanchor
    have hnext := hbelongs.recoverySlot_eq haligned (hepisodes _ hmem)
      (hepisodes _ (List.mem_of_getElem? hget')) h.stretch.le hbelongs'
    obtain ⟨hlt, rfl⟩ := List.getElem?_eq_some_iff.mp hget
    obtain ⟨hlt', rfl⟩ := List.getElem?_eq_some_iff.mp hget'
    rw [List.pairwise_iff_getElem] at hdistinct
    rcases lt_trichotomy m m' with hbefore | rfl | hafter
    · exact absurd hnext (hdistinct m m' hlt hlt' hbefore)
    · rfl
    · exact absurd hnext.symm (hdistinct m' m hlt' hlt hafter)

end Anchors

/-! ## All episodes -/

section All

/-- The outages of a worker are long enough, and the Cron has triggered between any two. -/
structure WellHeld (observations : Observations) (threshold : ℤ) (outages : List Outage) : Prop where
  identified : ∀ outage ∈ outages, Identified observations threshold outage
  apart : outages.Pairwise (ReportsApart observations)

/-- What an outage tells. -/
structure View where
  startSlot : ℤ
  endSlot : ℤ
  count : ℤ
  active : Bool
  recoverySlot : Option ℤ
deriving DecidableEq

def Outage.view (outage : Outage) : View :=
  ⟨outage.startSlot, outage.endSlot, outage.count, outage.active, outage.recoverySlot⟩

def Episode.view (observations : Observations) (episode : Episode) : View :=
  let conclusive := episode.recoveryIsConclusive observations
  ⟨episode.startSlot, episode.endSlot, episode.count, !conclusive,
    if conclusive then episode.recoverySlot else none⟩

/-- An outage that tells an episode and belongs to it. -/
structure Tells (observations : Observations) (threshold : ℤ) (outage : Outage) (episode : Episode) :
    Prop where
  view : outage.view = episode.view observations
  belongs : Belongs episode outage
  identified : Identified observations threshold outage

/-- The state after some episodes: these have their outages, and no other outage has been touched. -/
structure Progress (settings : Settings) (observations : Observations) (existing : List Outage)
    (before : List Episode) (state : Recomputing) : Prop where
  keeps : Keeps existing state.outages
  length_le : existing.length ≤ state.outages.length
  nodup : state.assigned.Nodup
  mem_assigned : ∀ i, i ∈ state.assigned ↔
    (∃ m < before.length, anchoredAt observations existing settings.outageThresholdSlots i = some m) ∨
      (existing.length ≤ i ∧ i < state.outages.length)
  told : List.Forall₂ (fun i episode ↦ ∃ outage ∈ state.outages[i]?,
    Tells observations settings.outageThresholdSlots outage episode) state.assigned before

variable {settings : Settings} {stamps : ℕ → Stamp} {workerName : String}
variable {observations : Observations} {threshold : ℤ} {existing : List Outage}
variable {before : List Episode} {state : Recomputing} {episode : Episode} {i m : ℕ}

theorem lt_of_anchoredAt (h : anchoredAt observations existing threshold i = some m) :
    i < existing.length := by
  obtain ⟨outage, hget, -⟩ := Option.bind_eq_some_iff.mp h
  exact (List.getElem?_eq_some_iff.mp hget).1

theorem WellHeld.anchoredAt_eq_some_iff (haligned : Aligned observations)
    (h : WellHeld observations threshold existing) :
    anchoredAt observations existing threshold i = some m ↔ ∃ outage ∈ existing[i]?, ∃ episode,
      (qualifyingOutageEpisodes threshold observations)[m]? = some episode ∧
        Belongs episode outage := by
  rw [anchoredAt, Option.bind_eq_some_iff]
  refine exists_congr fun outage ↦ and_congr_right fun hget ↦ ?_
  exact (h.identified outage (List.mem_of_getElem? hget)).anchoredEpisode_eq_some_iff haligned

/-- No two outages have the same anchor. -/
theorem WellHeld.anchoredAt_inj (haligned : Aligned observations)
    (h : WellHeld observations threshold existing) {i' : ℕ}
    (hi : anchoredAt observations existing threshold i = some m)
    (hi' : anchoredAt observations existing threshold i' = some m) : i = i' := by
  obtain ⟨outage, hget, episode, hepisode, hbelongs⟩ := (h.anchoredAt_eq_some_iff haligned).mp hi
  obtain ⟨outage', hget', episode', hepisode', hbelongs'⟩ :=
    (h.anchoredAt_eq_some_iff haligned).mp hi'
  obtain rfl := Option.some.inj (hepisode.symm.trans hepisode')
  have he := (haligned.mem_episodes _).1 episode (List.mem_of_getElem? hepisode)
  have hle := (h.identified _ (List.mem_of_getElem? hget)).stretch.le
  have hle' := (h.identified _ (List.mem_of_getElem? hget')).stretch.le
  obtain ⟨hlt, rfl⟩ := List.getElem?_eq_some_iff.mp hget
  obtain ⟨hlt', rfl⟩ := List.getElem?_eq_some_iff.mp hget'
  have hapart := List.pairwise_iff_getElem.mp h.apart
  rcases lt_trichotomy i i' with hbefore | rfl | hafter
  · exact absurd hbelongs' ((hapart i i' hlt hlt' hbefore).not_belongs haligned he hle hle' hbelongs)
  · rfl
  · exact absurd hbelongs ((hapart i' i hlt' hlt hafter).not_belongs haligned he hle' hle hbelongs')

/-- **Matching.** Only an outage that is anchored in the episode is found for it. -/
theorem Progress.matchingOutage_eq_some_iff (haligned : Aligned observations)
    (hheld : WellHeld observations settings.outageThresholdSlots existing)
    (h : Progress settings observations existing before state) :
    matchingOutage (anchoredAt observations existing settings.outageThresholdSlots) state before.length
        episode = some i ↔
      anchoredAt observations existing settings.outageThresholdSlots i = some before.length := by
  have hfree : ∀ i, anchoredAt observations existing settings.outageThresholdSlots i
      = some before.length → i < state.outages.length ∧ i ∉ state.assigned := by
    intro i hi
    have hlt := lt_of_anchoredAt hi
    have hle := h.length_le
    refine ⟨by omega, fun hassigned ↦ ?_⟩
    rcases (h.mem_assigned i).mp hassigned with ⟨m, hm, heq⟩ | ⟨hge, -⟩
    · have hsame := Option.some.inj (hi.symm.trans heq)
      omega
    · omega
  constructor
  · intro hfound
    rcases Option.or_eq_some_iff.mp hfound with hfirst | ⟨-, hsecond⟩
    · have hp := List.find?_some hfirst
      exact (of_decide_eq_true hp).2
    · -- an outage without an anchor was made in the loop and has its episode
      have hlt := List.mem_range.mp (List.mem_of_find?_eq_some hsecond)
      have hp := List.find?_some hsecond
      obtain ⟨hfree', hnone, -⟩ := of_decide_eq_true hp
      refine absurd ((h.mem_assigned i).mpr (Or.inr ⟨?_, hlt⟩)) hfree'
      by_contra hold
      have hget := List.getElem?_eq_getElem (not_le.mp hold)
      obtain ⟨e, hmem, hbelongs⟩ :=
        (hheld.identified _ (List.mem_of_getElem? hget)).exists_belongs haligned
      obtain ⟨m, hm⟩ := List.mem_iff_getElem?.mp hmem
      rw [(hheld.anchoredAt_eq_some_iff haligned).mpr ⟨_, hget, e, hm, hbelongs⟩] at hnone
      rcases hnone with ⟨⟩
  · intro hi
    obtain ⟨hlt, hfree'⟩ := hfree i hi
    refine Option.or_eq_some_iff.mpr (Or.inl ?_)
    rw [List.find?_range_eq_some]
    refine ⟨decide_eq_true ⟨hfree', hi⟩, List.mem_range.mpr hlt, fun j hj ↦ ?_⟩
    rw [Bool.not_eq_true', decide_eq_false_iff_not]
    rintro ⟨-, hj'⟩
    exact absurd (hheld.anchoredAt_inj haligned hj' hi) hj.ne

theorem SameReport.belongs {outage outage' : Outage} (h : SameReport outage outage')
    (hb : Belongs episode outage) : Belongs episode outage' :=
  ⟨h.identityStartSlot ▸ hb.start_le, h.identityEndSlot ▸ hb.le_end⟩

theorem SameReport.identified {outage outage' : Outage} (h : SameReport outage outage')
    (hi : Identified observations threshold outage) : Identified observations threshold outage' := by
  constructor
  · rw [h.identityStartSlot, h.identityEndSlot]
    exact hi.stretch
  · rw [h.identityStartSlot, h.identityEndSlot]
    exact hi.long

/-- The outage of an episode tells it. -/
theorem Progress.tells (haligned : Aligned observations)
    (hheld : WellHeld observations settings.outageThresholdSlots existing)
    (hepisode : (qualifyingOutageEpisodes settings.outageThresholdSlots observations)[before.length]?
      = some episode)
    (h : Progress settings observations existing before state) {outage : Outage}
    (hsource : Source settings stamps workerName
      (anchoredAt observations existing settings.outageThresholdSlots) state episode before.length i
      outage) :
    Tells observations settings.outageThresholdSlots (outage.settle observations episode) episode := by
  have he := (haligned.mem_episodes _).1 episode (List.mem_of_getElem? hepisode)
  rcases hsource with hnone | ⟨hsome, hold⟩
  · refine ⟨rfl, ⟨he.start.ge, (he.within _ _ he.identity).2.1⟩, ?_⟩
    exact ⟨he.identity.isRun.stretch, he.identity.long⟩
  · have hanchor := (h.matchingOutage_eq_some_iff haligned hheld).mp hsome
    obtain ⟨outage, hget, episode', hepisode', hbelongs⟩ :=
      (hheld.anchoredAt_eq_some_iff haligned).mp hanchor
    obtain rfl := Option.some.inj (hepisode.symm.trans hepisode')
    obtain ⟨outage', hold', hsame⟩ := h.keeps i outage hget
    obtain rfl := Option.some.inj (hold.symm.trans hold')
    have hsettled : SameReport outage ((Outage.retell episode _).settle observations episode) :=
      ⟨hsame.payload, hsame.identityStartSlot, hsame.identityEndSlot⟩
    exact ⟨rfl, hsettled.belongs hbelongs,
      hsettled.identified (hheld.identified _ (List.mem_of_getElem? hget))⟩

/-- **Step.** -/
theorem Progress.turn (haligned : Aligned observations)
    (hheld : WellHeld observations settings.outageThresholdSlots existing)
    (hepisode : (qualifyingOutageEpisodes settings.outageThresholdSlots observations)[before.length]?
      = some episode)
    (h : Progress settings observations existing before state) {state' : Recomputing}
    {outage : Outage} (hturn : Turn settings stamps workerName observations
      (anchoredAt observations existing settings.outageThresholdSlots) state episode before.length
      state' i outage) :
    Progress settings observations existing (before ++ [episode]) state' := by
  have htells := h.tells haligned hheld hepisode hturn.source
  have hcases : (i = state.outages.length ∧ ∀ i',
      anchoredAt observations existing settings.outageThresholdSlots i' ≠ some before.length) ∨
      (i < existing.length ∧ ∀ i',
        anchoredAt observations existing settings.outageThresholdSlots i' = some before.length ↔
          i' = i) := by
    rcases hturn.source with hnone | ⟨hsome, hold⟩
    · refine Or.inl ⟨rfl, fun i' hi' ↦ ?_⟩
      rw [(h.matchingOutage_eq_some_iff haligned hheld).mpr hi'] at hnone
      rcases hnone with ⟨⟩
    · have hanchor := (h.matchingOutage_eq_some_iff haligned hheld).mp hsome
      refine Or.inr ⟨lt_of_anchoredAt hanchor, fun i' ↦ ⟨fun hi' ↦ ?_, fun hi' ↦ hi' ▸ hanchor⟩⟩
      exact hheld.anchoredAt_inj haligned hi' hanchor
  have hlength := h.length_le
  have hfresh : i ∉ state.assigned := by
    rw [h.mem_assigned]
    rintro (⟨m, hm, heq⟩ | ⟨hge, hlt⟩)
    · rcases hcases with ⟨hi, -⟩ | ⟨-, honly⟩
      · have hold := lt_of_anchoredAt heq
        omega
      · have hsame := Option.some.inj (((honly i).mpr rfl).symm.trans heq)
        omega
    · rcases hcases with ⟨hi, -⟩ | ⟨hi, -⟩ <;> omega
  refine ⟨h.keeps.trans hturn.keeps, hlength.trans hturn.length_le, ?_, fun i' ↦ ?_, ?_⟩
  · rw [hturn.assigned]
    refine List.nodup_append.mpr ⟨h.nodup, List.nodup_singleton i, fun a ha b hb heq ↦ hfresh ?_⟩
    rwa [← List.mem_singleton.mp hb, ← heq]
  · have hupTo : (∃ m < (before ++ [episode]).length,
        anchoredAt observations existing settings.outageThresholdSlots i' = some m) ↔
        (∃ m < before.length,
          anchoredAt observations existing settings.outageThresholdSlots i' = some m) ∨
        anchoredAt observations existing settings.outageThresholdSlots i' = some before.length := by
      rw [List.length_append, List.length_singleton]
      constructor
      · rintro ⟨m, hm, heq⟩
        rcases Nat.lt_succ_iff_lt_or_eq.mp hm with hlt | rfl
        · exact Or.inl ⟨m, hlt, heq⟩
        · exact Or.inr heq
      · rintro (⟨m, hm, heq⟩ | heq)
        · exact ⟨m, Nat.lt_succ_of_lt hm, heq⟩
        · exact ⟨before.length, Nat.lt_succ_self _, heq⟩
    rw [hturn.assigned, List.mem_append, List.mem_singleton, h.mem_assigned, hupTo,
      hturn.lt_length_iff]
    rcases hcases with ⟨hi, hnone⟩ | ⟨hi, honly⟩
    · have hnot := hnone i'
      constructor
      · rintro ((hold | ⟨hge, hlt⟩) | heq)
        · exact Or.inl (Or.inl hold)
        · exact Or.inr ⟨hge, Or.inr hlt⟩
        · exact Or.inr ⟨by omega, Or.inl heq⟩
      · rintro ((hold | heq) | ⟨hge, heq | hlt⟩)
        · exact Or.inl (Or.inl hold)
        · exact absurd heq hnot
        · exact Or.inr heq
        · exact Or.inl (Or.inr ⟨hge, hlt⟩)
    · rw [honly]
      constructor
      · rintro ((hold | ⟨hge, hlt⟩) | heq)
        · exact Or.inl (Or.inl hold)
        · exact Or.inr ⟨hge, Or.inr hlt⟩
        · exact Or.inl (Or.inr heq)
      · rintro ((hold | heq) | ⟨hge, heq | hlt⟩)
        · exact Or.inl (Or.inl hold)
        · exact Or.inr heq
        · exact Or.inr heq
        · exact Or.inl (Or.inr ⟨hge, hlt⟩)
  · rw [hturn.assigned]
    refine List.rel_append ?_ (List.Forall₂.cons ⟨_, ?_, htells⟩ List.Forall₂.nil)
    · have hboth := (List.forall₂_and_left _ _).mpr
        ⟨fun i' hi' ↦ (fun heq ↦ hfresh (heq ▸ hi') : i' ≠ i), h.told⟩
      refine hboth.imp fun i' e ↦ ?_
      rintro ⟨hne, old, hold, htold⟩
      refine ⟨old, ?_, htold⟩
      rwa [hturn.outages, if_neg hne]
    · rw [hturn.outages, if_pos rfl]
      rfl

variable (settings stamps workerName) in
/-- **Run.** -/
theorem recomputeOutages_progress (haligned : Aligned observations)
    (hheld : WellHeld observations settings.outageThresholdSlots existing) :
    Progress settings observations existing
      (qualifyingOutageEpisodes settings.outageThresholdSlots observations)
      (recomputeOutages settings stamps workerName observations existing) := by
  rw [recomputeOutages_eq]
  refine foldl_zipIdx_invariant _ (Progress settings observations existing) ?_ _
    fun before episode after state hsplit hprogress ↦ ?_
  · refine ⟨Keeps.refl existing, le_rfl, List.nodup_nil, fun i ↦ ?_, List.Forall₂.nil⟩
    refine ⟨fun hmem ↦ absurd hmem List.not_mem_nil, ?_⟩
    rintro (⟨m, hm, -⟩ | ⟨hge, hlt⟩)
    · exact absurd hm (Nat.not_lt_zero m)
    · exact absurd hlt (not_lt.mpr hge)
  · obtain ⟨i, outage, hturn⟩ := exists_turn settings stamps workerName observations
      (anchoredAt observations existing settings.outageThresholdSlots) state episode before.length
    refine hprogress.turn haligned hheld ?_ hturn
    rw [hsplit, List.getElem?_append_right le_rfl, Nat.sub_self]
    rfl

theorem filterMap_getElem?_range {α : Type*} (l : List α) :
    (List.range l.length).filterMap (fun i ↦ l[i]?) = l := by
  have hmap : (List.range l.length).map (fun i ↦ l[i]?) = l.map some :=
    List.ext_getElem (by simp) fun i h h' ↦ by simp
  calc (List.range l.length).filterMap (fun i ↦ l[i]?)
      = ((List.range l.length).map (fun i ↦ l[i]?)).filterMap id := by
        rw [List.filterMap_map]
        rfl
    _ = l := by rw [hmap, List.filterMap_map, Function.id_comp, List.filterMap_some]

theorem forall₂_filterMap {α β γ : Type*} {f : α → Option β} {R : β → γ → Prop} {l : List α}
    {l' : List γ} (h : List.Forall₂ (fun a c ↦ ∃ b ∈ f a, R b c) l l') :
    List.Forall₂ R (l.filterMap f) l' := by
  induction h with
  | nil => exact List.Forall₂.nil
  | cons hab hrest ih =>
    obtain ⟨b, hb, hR⟩ := hab
    rw [List.filterMap_cons_some hb]
    exact List.Forall₂.cons hR ih

/-- A relation between the items of one list carries over to the items they stand for. -/
theorem pairwise_of_forall₂ {α β : Type*} {R : α → β → Prop} {S : β → β → Prop} {T : α → α → Prop}
    {l : List α} {l' : List β} (h : List.Forall₂ R l l') (hl' : l'.Pairwise S)
    (himp : ∀ a ∈ l, ∀ b ∈ l', ∀ a' ∈ l, ∀ b' ∈ l', R a b → R a' b' → S b b' → T a a') :
    l.Pairwise T := by
  induction h with
  | nil => exact List.Pairwise.nil
  | @cons a b l l' hab hrest ih =>
    obtain ⟨hhead, htail⟩ := List.pairwise_cons.mp hl'
    refine List.pairwise_cons.mpr ⟨fun a' ha' ↦ ?_, ih htail fun a ha b hb a' ha' b' hb' ↦ ?_⟩
    · obtain ⟨i, hi, rfl⟩ := List.getElem_of_mem ha'
      have hi' : i < l'.length := hrest.length_eq ▸ hi
      exact himp a List.mem_cons_self b List.mem_cons_self _ (List.mem_cons_of_mem _ ha') _
        (List.mem_cons_of_mem _ (List.getElem_mem hi')) hab (hrest.get hi hi')
        (hhead _ (List.getElem_mem hi'))
    · exact himp a (List.mem_cons_of_mem _ ha) b (List.mem_cons_of_mem _ hb) a'
        (List.mem_cons_of_mem _ ha') b' (List.mem_cons_of_mem _ hb')

variable (settings stamps workerName) in
/-- **Every episode has its outage, and every outage its episode.** -/
theorem exists_told (haligned : Aligned observations)
    (hheld : WellHeld observations settings.outageThresholdSlots existing) :
    ∃ held : List Outage,
      held.Perm (recomputeOutages settings stamps workerName observations existing).outages ∧
      List.Forall₂ (Tells observations settings.outageThresholdSlots) held
        (qualifyingOutageEpisodes settings.outageThresholdSlots observations) := by
  have hprogress := recomputeOutages_progress settings stamps workerName haligned hheld
  set state := recomputeOutages settings stamps workerName observations existing
  have hmem : ∀ i, i ∈ state.assigned ↔ i ∈ List.range state.outages.length := by
    intro i
    rw [hprogress.mem_assigned, List.mem_range]
    constructor
    · rintro (⟨m, -, hm⟩ | ⟨-, hlt⟩)
      · exact (lt_of_anchoredAt hm).trans_le hprogress.length_le
      · exact hlt
    · intro hlt
      by_cases hold : i < existing.length
      · have hget := List.getElem?_eq_getElem hold
        obtain ⟨e, hepisode, hbelongs⟩ :=
          (hheld.identified _ (List.mem_of_getElem? hget)).exists_belongs haligned
        obtain ⟨m, hm⟩ := List.mem_iff_getElem?.mp hepisode
        exact Or.inl ⟨m, (List.getElem?_eq_some_iff.mp hm).1,
          (hheld.anchoredAt_eq_some_iff haligned).mpr ⟨_, hget, e, hm, hbelongs⟩⟩
      · exact Or.inr ⟨not_lt.mp hold, hlt⟩
  have hperm := (List.perm_ext_iff_of_nodup hprogress.nodup List.nodup_range).mpr hmem
  refine ⟨_, ?_, forall₂_filterMap hprogress.told⟩
  have hheld' := hperm.filterMap fun i ↦ state.outages[i]?
  rwa [filterMap_getElem?_range] at hheld'

theorem ReportsApart.symm {outage outage' : Outage} (h : ReportsApart observations outage outage') :
    ReportsApart observations outage' outage := Apart.symm h

variable (settings stamps workerName) in
/-- **The outages stay well held.** -/
theorem wellHeld_recomputeOutages (haligned : Aligned observations)
    (hheld : WellHeld observations settings.outageThresholdSlots existing) :
    WellHeld observations settings.outageThresholdSlots
      (recomputeOutages settings stamps workerName observations existing).outages := by
  obtain ⟨held, hperm, htold⟩ := exists_told settings stamps workerName haligned hheld
  obtain ⟨hepisodes, -, hdistinct⟩ :=
    haligned.mem_episodes settings.outageThresholdSlots
  constructor
  · intro outage hmem
    obtain ⟨i, hi, rfl⟩ := List.getElem_of_mem (hperm.mem_iff.mpr hmem)
    exact (htold.get hi (htold.length_eq ▸ hi)).identified
  · refine List.Pairwise.perm ?_ hperm fun h ↦ h.symm
    refine pairwise_of_forall₂ htold hdistinct fun a _ e he a' _ e' he' htells htells' hne ↦ ?_
    exact htells.belongs.reportsApart haligned (hepisodes e he) (hepisodes e' he') hne
      htells'.belongs

end All

end UkAqOps.CronHealth

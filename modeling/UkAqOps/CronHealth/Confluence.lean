import UkAqOps.CronHealth.Matching

/-!
# The order of recording

Minutes are recorded as requests come in, in any order and some of them twice. Within the retention
window the outages that are held in the end are one for each group of runs: they depend on what has
been recorded, not on the order. Whatever is recorded, an outage keeps the report it was made with, and
its detection and its recovery are logged once at most.
-/

namespace UkAqOps.CronHealth

open MaximalRuns Sorting

/-! ## What the episodes depend on -/

section Congruence

variable {observations observations' : Observations}

theorem sortedItems_congr (h : ∀ t, observations.get? t = observations'.get? t) :
    sortedItems observations = sortedItems observations' := by
  have hmem : ∀ p : ℤ × Observation, p ∈ sortedItems observations ↔ p ∈ sortedItems observations' := by
    intro p
    rw [sortedItems, sortedItems, mem_sortBy, mem_sortBy, ← OrderedMap.get?_eq_some_iff,
      ← OrderedMap.get?_eq_some_iff, h]
  have hnodup : ∀ observations : Observations, (sortedItems observations).Nodup := fun observations ↦
    (pairwise_sortedItems observations).imp fun hlt heq ↦ hlt.ne (congrArg Prod.fst heq)
  have hperm := (List.perm_ext_iff_of_nodup (hnodup observations) (hnodup observations')).mpr hmem
  refine hperm.eq_of_pairwise (fun p q _ _ hlt hgt ↦ absurd hlt hgt.not_gt)
    (pairwise_sortedItems observations) (pairwise_sortedItems observations')

theorem recoverySlot_congr (h : ∀ t, observations.get? t = observations'.get? t) :
    recoverySlot observations = recoverySlot observations' := by
  have htriggered : Triggered observations = Triggered observations' := by
    funext t
    rw [Triggered, Triggered, h]
  funext t
  have hnext := nextTrigger_recoverySlot observations' t
  rw [recoverySlot_eq_iff]
  rcases hslot : recoverySlot observations' t with _ | c
  · rw [hslot, NextTrigger, ← htriggered] at hnext
    exact hnext
  · rw [hslot, NextTrigger, ← htriggered] at hnext
    exact hnext

/-- The episodes are a function of what has been observed. -/
theorem qualifyingOutageEpisodes_congr (threshold : ℤ)
    (h : ∀ t, observations.get? t = observations'.get? t) :
    qualifyingOutageEpisodes threshold observations
      = qualifyingOutageEpisodes threshold observations' := by
  have hadd : addRun observations = addRun observations' := by
    funext episode run
    rcases episode with _ | episode
    · rw [addRun, addRun, recoverySlot_congr h]
    · rfl
  rw [qualifyingOutageEpisodes, qualifyingOutageEpisodes, takeoverRuns, takeoverRuns,
    sortedItems_congr h, recoverySlot_congr h, hadd]

theorem view_congr (h : ∀ t, observations.get? t = observations'.get? t) :
    Episode.view observations = Episode.view observations' := by
  funext episode
  rw [Episode.view, Episode.view, Episode.recoveryIsConclusive, Episode.recoveryIsConclusive,
    Episode.unresolvedInternalGaps, Episode.unresolvedInternalGaps]
  simp only [h]

end Congruence

/-! ## What an outage stands for -/

section Groups

variable {observations : Observations} {threshold : ℤ} {next next' : Option ℤ}
variable {outage : Outage} {episode : Episode}

/-- A group of runs has recovered when the Cron has triggered behind it and every minute between its
ends has been observed. -/
def Recovered (observations : Observations) (next : Option ℤ) (start stop : ℤ) : Prop :=
  next.isSome ∧ ∀ t, start ≤ t → t ≤ stop → 60 ∣ t → (observations.get? t).isSome

/-- An outage stands for a group: it tells its ends, its longest run and whether it has recovered, and
the slots of its report lie between the ends. -/
structure StandsFor (observations : Observations) (threshold : ℤ) (next : Option ℤ)
    (outage : Outage) : Prop where
  start : (∃ b, InGroup observations threshold next outage.startSlot b) ∧
    ∀ a b, InGroup observations threshold next a b → outage.startSlot ≤ a
  stop : (∃ a, InGroup observations threshold next a outage.endSlot) ∧
    ∀ a b, InGroup observations threshold next a b → b ≤ outage.endSlot
  count : (∃ a b, InGroup observations threshold next a b ∧ minutes a b = outage.count) ∧
    ∀ a b, InGroup observations threshold next a b → minutes a b ≤ outage.count
  active : outage.active = false ↔
    Recovered observations next outage.startSlot outage.endSlot
  recoverySlot : outage.recoverySlot = if outage.active then none else next
  identified : Identified observations threshold outage
  within : outage.startSlot ≤ outage.identityStartSlot ∧ outage.identityEndSlot ≤ outage.endSlot

theorem mem_minutesOf {start stop t : ℤ} (hstart : (60 : ℤ) ∣ start) (hstop : (60 : ℤ) ∣ stop) :
    t ∈ minutesOf start stop ↔ start ≤ t ∧ t ≤ stop ∧ (60 : ℤ) ∣ t := by
  rw [minutesOf, List.mem_map]
  constructor
  · rintro ⟨i, hi, rfl⟩
    have hlt := List.mem_range.mp hi
    omega
  · rintro ⟨hle, hge, hdvd⟩
    exact ⟨((t - start) / 60).toNat, List.mem_range.mpr (by omega), by omega⟩

theorem IsEpisode.recoveryIsConclusive_iff (haligned : Aligned observations)
    (h : IsEpisode observations threshold episode) :
    episode.recoveryIsConclusive observations = true ↔
      Recovered observations episode.recoverySlot episode.startSlot episode.endSlot := by
  obtain ⟨a, hstop⟩ := h.stop
  have hstart : (60 : ℤ) ∣ episode.startSlot := by
    rw [← h.start]
    exact haligned.dvd_of_takenOver h.identity.isRun.stretch.start_mem
  have hend := haligned.dvd_of_takenOver hstop.isRun.stretch.stop_mem
  rw [Episode.recoveryIsConclusive, Recovered, Bool.and_eq_true, Bool.not_eq_true',
    Episode.unresolvedInternalGaps, List.any_eq_false]
  refine and_congr_right fun _ ↦ ⟨fun hall t hle hge hdvd ↦ ?_, fun hall t ht ↦ ?_⟩
  · have hobserved := hall t ((mem_minutesOf hstart hend).mpr ⟨hle, hge, hdvd⟩)
    rwa [Bool.not_eq_true, Option.isNone_eq_false_iff] at hobserved
  · obtain ⟨hle, hge, hdvd⟩ := (mem_minutesOf hstart hend).mp ht
    rw [Bool.not_eq_true, Option.isNone_eq_false_iff]
    exact hall t hle hge hdvd

theorem Tells.standsFor (haligned : Aligned observations)
    (he : IsEpisode observations threshold episode) (h : Tells observations threshold outage episode) :
    StandsFor observations threshold episode.recoverySlot outage := by
  obtain ⟨hstart, hstop, hcount, hactive, hrecovery⟩ :
      outage.startSlot = episode.startSlot ∧ outage.endSlot = episode.endSlot ∧
        outage.count = episode.count ∧
        outage.active = !episode.recoveryIsConclusive observations ∧
        outage.recoverySlot
          = if episode.recoveryIsConclusive observations then episode.recoverySlot else none := by
    have hview := h.view
    rw [Outage.view, Episode.view, View.mk.injEq] at hview
    exact hview
  have hwithin := he.within
  refine ⟨⟨?_, ?_⟩, ⟨?_, ?_⟩, ⟨?_, ?_⟩, ?_, ?_, h.identified, ?_⟩
  · rw [hstart, ← he.start]
    exact ⟨_, he.identity⟩
  · rw [hstart]
    exact fun a b hab ↦ (hwithin a b hab).1
  · rw [hstop]
    exact he.stop
  · rw [hstop]
    exact fun a b hab ↦ (hwithin a b hab).2.1
  · rw [hcount]
    exact he.count
  · rw [hcount]
    exact fun a b hab ↦ (hwithin a b hab).2.2
  · rw [hstart, hstop, hactive, Bool.not_eq_false', he.recoveryIsConclusive_iff haligned]
  · rw [hrecovery, hactive]
    rcases episode.recoveryIsConclusive observations <;> rfl
  · rw [hstart, hstop]
    exact ⟨h.belongs.start_le, h.belongs.le_end⟩

/-- A run is in one group. -/
theorem InGroup.next_eq {start stop stop' : ℤ}
    (h : InGroup observations threshold next start stop)
    (h' : InGroup observations threshold next' start stop') : next = next' := by
  have hgrid : (60 : ℤ) ∣ start - start := by
    rw [sub_self]
    exact Int.dvd_zero 60
  have hsame := h.isRun.contains (by decide) h'.isRun.stretch hgrid h'.isRun.stretch.le
    h.isRun.stretch.le
  have hsame' := h'.isRun.contains (by decide) h.isRun.stretch hgrid h.isRun.stretch.le
    h'.isRun.stretch.le
  obtain rfl := le_antisymm hsame'.2 hsame.2
  exact h.next.eq h'.next

theorem StandsFor.next_eq (h : StandsFor observations threshold next outage)
    (h' : StandsFor observations threshold next' outage) : next = next' := by
  obtain ⟨b, hb⟩ := h.start.1
  obtain ⟨b', hb'⟩ := h'.start.1
  exact hb.next_eq hb'

end Groups

/-! ## One call -/

section Call

variable {observations observations' : Observations} {threshold : ℤ} {outages : List Outage}

/-- More is observed. -/
def Extends (observations observations' : Observations) : Prop :=
  ∀ t o, observations.get? t = some o → observations'.get? t = some o

theorem WellHeld.mono (hext : Extends observations observations')
    (h : WellHeld observations threshold outages) : WellHeld observations' threshold outages := by
  refine ⟨fun outage hmem ↦ ?_, h.apart.imp fun hapart ↦ ?_⟩
  · have hidentified := h.identified outage hmem
    exact ⟨hidentified.stretch.mono fun t ↦ hext t _, hidentified.long⟩
  · obtain ⟨c, hc, hbetween⟩ := hapart
    exact ⟨c, hext c _ hc, hbetween⟩

/-- Nothing is pruned within the retention window. -/
theorem get?_pruneObservations (hwindow : ∀ t ∈ observations.keys, ∀ t' ∈ observations.keys,
      t' - cronObservationRetentionSlots * 60 ≤ t) (t : ℤ) :
    (pruneObservations observations).get? t = observations.get? t := by
  rw [pruneObservations]
  split
  · rfl
  · rename_i latest hlatest
    rw [OrderedMap.get?_filterKeys]
    split_ifs with hkept
    · rfl
    · symm
      rw [OrderedMap.get?_eq_none_iff]
      intro ht
      exact hkept (decide_eq_true (hwindow t ht latest (List.max?_mem hlatest)))

variable (settings : Settings) (health : Health) (call : Record)

/-- A call that contradicts nothing is recorded. -/
theorem record_eq_recorded
    (h : ∀ o, health.observations.get? call.minuteEpoch = some o → o = call.observation) :
    record settings health call = record.recorded settings health call := by
  rw [record]
  split
  · rename_i existing hexisting
    rw [if_neg (not_not.mpr (h existing hexisting))]
  · rfl

/-- **Frame.** Whatever is recorded, the outages stay in their places with their reports. -/
theorem record_keeps : Keeps health.outages (record settings health call).1.outages := by
  rw [record]
  split
  · split_ifs
    · exact Keeps.refl _
    · exact recomputeOutages_keeps settings call.stamps call.workerName _ health.outages
  · exact recomputeOutages_keeps settings call.stamps call.workerName _ health.outages

end Call

/-! ## Runs -/

section Runs

/-- What the calls say of a worker. -/
def Recorded (calls : List Record) (workerName : String) (t : ℤ) (observation : Observation) : Prop :=
  ∃ call ∈ calls, call.workerName = workerName ∧ call.minuteEpoch = t ∧
    call.observation = observation

/-- The calls for a worker are for whole minutes within the retention window, and they tell one thing
of a minute. -/
structure Consistent (calls : List Record) (workerName : String) : Prop where
  aligned : ∀ t o, Recorded calls workerName t o → (60 : ℤ) ∣ t
  one : ∀ t o o', Recorded calls workerName t o → Recorded calls workerName t o' → o = o'
  window : ∀ t o t' o', Recorded calls workerName t o → Recorded calls workerName t' o' →
    t' - cronObservationRetentionSlots * 60 ≤ t

/-- **Invariant.** What has been recorded of a worker is observed, and every episode has its outage. -/
structure Tracked (settings : Settings) (calls : List Record) (workerName : String)
    (health : Health) : Prop where
  observations : ∀ t o, health.observations.get? t = some o ↔ Recorded calls workerName t o
  wellHeld : WellHeld health.observations settings.outageThresholdSlots health.outages
  told : ∃ held : List Outage, held.Perm health.outages ∧
    List.Forall₂ (Tells health.observations settings.outageThresholdSlots) held
      (qualifyingOutageEpisodes settings.outageThresholdSlots health.observations)

variable {settings : Settings} {calls : List Record} {workerName : String} {tracker : Tracker}
variable {call : Record} {health : Health}

theorem recorded_append {t : ℤ} {o : Observation} : Recorded (calls ++ [call]) workerName t o ↔
    Recorded calls workerName t o ∨
      (call.workerName = workerName ∧ call.minuteEpoch = t ∧ call.observation = o) := by
  rw [Recorded, Recorded]
  constructor
  · rintro ⟨c, hmem, hc⟩
    rcases List.mem_append.mp hmem with hold | hnew
    · exact Or.inl ⟨c, hold, hc⟩
    · rw [List.mem_singleton.mp hnew] at hc
      exact Or.inr hc
  · rintro (⟨c, hmem, hc⟩ | hc)
    · exact ⟨c, List.mem_append_left _ hmem, hc⟩
    · exact ⟨call, by simp, hc⟩

theorem Consistent.of_append {later : List Record} (h : Consistent (calls ++ later) workerName) :
    Consistent calls workerName := by
  have hmono : ∀ t o, Recorded calls workerName t o → Recorded (calls ++ later) workerName t o := by
    rintro t o ⟨c, hmem, hc⟩
    exact ⟨c, List.mem_append_left _ hmem, hc⟩
  exact ⟨fun t o ht ↦ h.aligned t o (hmono t o ht),
    fun t o o' ht ht' ↦ h.one t o o' (hmono t o ht) (hmono t o' ht'),
    fun t o t' o' ht ht' ↦ h.window t o t' o' (hmono t o ht) (hmono t' o' ht')⟩

theorem Tracked.aligned (h : Tracked settings calls workerName health)
    (hconsistent : Consistent calls workerName) : Aligned health.observations := by
  intro t ht
  obtain ⟨o, ho⟩ := Option.isSome_iff_exists.mp ((OrderedMap.get?_isSome_iff _).mpr ht)
  exact hconsistent.aligned t o ((h.observations t o).mp ho)

/-- **Step.** -/
theorem Tracked.record (hconsistent : Consistent (calls ++ [call]) workerName)
    (hworker : call.workerName = workerName) (h : Tracked settings calls workerName health) :
    Tracked settings (calls ++ [call]) workerName (record settings health call).1 := by
  have hrecorded : ∀ o, health.observations.get? call.minuteEpoch = some o →
      o = call.observation := fun o ho ↦
    hconsistent.one call.minuteEpoch o call.observation
      (recorded_append.mpr (Or.inl ((h.observations _ o).mp ho)))
      (recorded_append.mpr (Or.inr ⟨hworker, rfl, rfl⟩))
  rw [record_eq_recorded settings health call hrecorded]
  set added := health.observations.set call.minuteEpoch call.observation with hadded
  have hget : ∀ t o, added.get? t = some o ↔ Recorded (calls ++ [call]) workerName t o := by
    intro t o
    rw [hadded, OrderedMap.get?_set, recorded_append]
    split_ifs with heq
    · rw [Option.some.injEq, ← h.observations]
      refine ⟨fun ho ↦ Or.inr ⟨hworker, heq.symm, ho⟩, ?_⟩
      rintro (hold | ⟨-, -, ho⟩)
      · exact (hrecorded o (heq ▸ hold)).symm
      · exact ho
    · rw [h.observations]
      exact ⟨Or.inl, fun hor ↦ hor.resolve_right fun hnew ↦ heq hnew.2.1.symm⟩
  have hprune : ∀ t, (pruneObservations added).get? t = added.get? t := by
    refine get?_pruneObservations fun t ht t' ht' ↦ ?_
    obtain ⟨o, ho⟩ := Option.isSome_iff_exists.mp ((OrderedMap.get?_isSome_iff _).mpr ht)
    obtain ⟨o', ho'⟩ := Option.isSome_iff_exists.mp ((OrderedMap.get?_isSome_iff _).mpr ht')
    exact hconsistent.window t o t' o' ((hget t o).mp ho) ((hget t' o').mp ho')
  have hobservations : ∀ t o, (pruneObservations added).get? t = some o ↔
      Recorded (calls ++ [call]) workerName t o := by
    intro t o
    rw [hprune, hget]
  have haligned : Aligned (pruneObservations added) := by
    intro t ht
    obtain ⟨o, ho⟩ := Option.isSome_iff_exists.mp ((OrderedMap.get?_isSome_iff _).mpr ht)
    exact hconsistent.aligned t o ((hobservations t o).mp ho)
  have hext : Extends health.observations (pruneObservations added) := fun t o ho ↦
    (hobservations t o).mpr (recorded_append.mpr (Or.inl ((h.observations t o).mp ho)))
  have hheld := h.wellHeld.mono hext
  exact ⟨hobservations,
    wellHeld_recomputeOutages settings call.stamps call.workerName haligned hheld,
    exists_told settings call.stamps call.workerName haligned hheld⟩

/-- A call for another worker changes nothing. -/
theorem Tracked.step (hconsistent : Consistent (calls ++ [call]) workerName)
    (h : Tracked settings calls workerName (tracker.workers workerName)) :
    Tracked settings (calls ++ [call]) workerName
      ((step settings tracker call).workers workerName) := by
  rw [CronHealth.step]
  dsimp only
  by_cases hworker : call.workerName = workerName
  · rw [if_pos hworker.symm, hworker]
    exact h.record hconsistent hworker
  · rw [if_neg (Ne.symm hworker)]
    refine ⟨fun t o ↦ ?_, h.wellHeld, h.told⟩
    rw [h.observations, recorded_append]
    exact ⟨Or.inl, fun hor ↦ hor.resolve_right fun hnew ↦ hworker hnew.1⟩

theorem run_append (settings : Settings) (calls : List Record) (call : Record) :
    run settings (calls ++ [call]) = step settings (run settings calls) call :=
  List.foldl_concat ..

/-- **Run.** -/
theorem tracked_run (hconsistent : Consistent calls workerName) :
    Tracked settings calls workerName ((run settings calls).workers workerName) := by
  induction calls using List.reverseRecOn with
  | nil =>
    refine ⟨fun t o ↦ ⟨by rintro ⟨⟩, ?_⟩, ⟨by rintro _ ⟨⟩, List.Pairwise.nil⟩, [], List.Perm.nil, ?_⟩
    · rintro ⟨c, hmem, -⟩
      exact absurd hmem List.not_mem_nil
    · exact List.Forall₂.nil
  | append_singleton calls call ih =>
    rw [run_append]
    exact (ih hconsistent.of_append).step hconsistent

/-- **Frame.** Whatever is recorded later, the outages stay in their places with their reports. -/
theorem run_keeps (settings : Settings) (calls later : List Record) (workerName : String) :
    Keeps ((run settings calls).workers workerName).outages
      ((run settings (calls ++ later)).workers workerName).outages := by
  induction later using List.reverseRecOn with
  | nil =>
    rw [List.append_nil]
    exact Keeps.refl _
  | append_singleton later call ih =>
    refine ih.trans ?_
    rw [← List.append_assoc, run_append, step]
    dsimp only
    split_ifs with hworker
    · rw [← hworker]
      exact record_keeps settings _ call
    · exact Keeps.refl _

end Runs

/-! ## Logs -/

section Logs

def LogEvent.isDetectionOf (i : ℕ) : LogEvent → Bool
  | .outageDetected outage _ _ _ => outage = i
  | _ => false

def LogEvent.isRecoveryOf (i : ℕ) : LogEvent → Bool
  | .recovered outage _ _ => outage = i
  | _ => false

/-- How often something has been logged of a worker. -/
def Tracker.timesLogged (tracker : Tracker) (workerName : String) (p : LogEvent → Bool) : ℕ :=
  tracker.logs.countP fun log ↦ log.1 = workerName ∧ p log.2

/-- The places that give a log each give one. -/
theorem countP_filterMap_getElem? {outages : List Outage} {log : ℕ → Outage → LogEvent} {i : ℕ}
    (p : LogEvent → Bool) (hp : ∀ j outage, p (log j outage) = decide (j = i)) (places : List ℕ)
    (hplaces : places.count i ≠ 0 → i < outages.length) :
    (places.filterMap fun j ↦ outages[j]?.map (log j)).countP p = places.count i := by
  induction places with
  | nil => rfl
  | cons j places ih =>
    have hrest : places.count i ≠ 0 → i < outages.length := fun hne ↦ hplaces fun hzero ↦ hne <| by
      rw [List.count_cons] at hzero
      omega
    have ih := ih hrest
    by_cases hj : j = i
    · subst hj
      have hlt : j < outages.length := hplaces (by rw [List.count_cons_self]; exact Nat.succ_ne_zero _)
      rw [List.filterMap_cons_some (by rw [List.getElem?_eq_getElem hlt]; rfl), List.countP_cons, ih,
        hp, List.count_cons_self, if_pos (decide_eq_true rfl)]
    · rw [List.count_cons_of_ne hj]
      rcases hget : outages[j]? with _ | outage
      · rw [List.filterMap_cons_none (by rw [hget]; rfl), ih]
      · rw [List.filterMap_cons_some (by rw [hget]; rfl), List.countP_cons, ih, hp,
          decide_eq_false hj, if_neg Bool.false_ne_true, Nat.add_zero]

theorem countP_filterMap_eq_zero {outages : List Outage} {log : ℕ → Outage → LogEvent}
    {p : LogEvent → Bool} (hp : ∀ j outage, p (log j outage) = false) (places : List ℕ) :
    (places.filterMap fun j ↦ outages[j]?.map (log j)).countP p = 0 := by
  rw [List.countP_eq_zero]
  intro event hevent
  obtain ⟨j, -, hj⟩ := List.mem_filterMap.mp hevent
  obtain ⟨outage, -, rfl⟩ := Option.map_eq_some_iff.mp hj
  rw [hp]
  exact Bool.false_ne_true

variable (settings : Settings) (health : Health) (call : Record) (i : ℕ)

/-- **Step.** -/
theorem countP_record :
    (record settings health call).2.countP (·.isDetectionOf i)
        + (decide (i < health.outages.length)).toNat
      = (decide (i < (record settings health call).1.outages.length)).toNat ∧
    (record settings health call).2.countP (·.isRecoveryOf i)
        + (recoveryLoggedAt health.outages i).toNat
      = (recoveryLoggedAt (record settings health call).1.outages i).toNat := by
  have hrecorded : (record.recorded settings health call).2.countP (·.isDetectionOf i)
        + (decide (i < health.outages.length)).toNat
      = (decide (i < (record.recorded settings health call).1.outages.length)).toNat ∧
    (record.recorded settings health call).2.countP (·.isRecoveryOf i)
        + (recoveryLoggedAt health.outages i).toNat
      = (recoveryLoggedAt (record.recorded settings health call).1.outages i).toNat := by
    have hdetected := recomputeOutages_count_newlyDetected settings call.stamps call.workerName
      (pruneObservations (health.observations.set call.minuteEpoch call.observation)) health.outages i
    have hrecovered := recomputeOutages_count_recoveries settings call.stamps call.workerName
      (pruneObservations (health.observations.set call.minuteEpoch call.observation)) health.outages i
    rw [record.recorded, outageLogs]
    dsimp only
    set state := recomputeOutages settings call.stamps call.workerName
      (pruneObservations (health.observations.set call.minuteEpoch call.observation)) health.outages
    have hdetectedLt : state.newlyDetected.count i ≠ 0 → i < state.outages.length := by
      intro hne
      by_contra hout
      rw [decide_eq_false hout, Bool.toNat_false] at hdetected
      omega
    have hrecoveredLt : state.recoveries.count i ≠ 0 → i < state.outages.length := by
      intro hne
      by_contra hout
      have hlogged : recoveryLoggedAt state.outages i = false := by
        rw [recoveryLoggedAt, List.getElem?_eq_none (not_lt.mp hout)]
        rfl
      rw [hlogged, Bool.toNat_false] at hrecovered
      omega
    rw [List.countP_append, List.countP_append,
      countP_filterMap_getElem? (LogEvent.isDetectionOf i) (fun _ _ ↦ rfl) state.newlyDetected
        hdetectedLt,
      countP_filterMap_getElem? (LogEvent.isRecoveryOf i) (fun _ _ ↦ rfl) state.recoveries
        hrecoveredLt,
      countP_filterMap_eq_zero (fun _ _ ↦ rfl), countP_filterMap_eq_zero (fun _ _ ↦ rfl), Nat.zero_add,
      Nat.add_zero]
    exact ⟨hdetected, hrecovered⟩
  rw [record]
  split
  · split_ifs
    · exact ⟨Nat.zero_add _, Nat.zero_add _⟩
    · exact hrecorded
  · exact hrecorded

theorem timesLogged_step (tracker : Tracker) (workerName : String) (p : LogEvent → Bool) :
    (step settings tracker call).timesLogged workerName p = tracker.timesLogged workerName p +
      if call.workerName = workerName then
        (record settings (tracker.workers call.workerName) call).2.countP p else 0 := by
  rw [Tracker.timesLogged, step]
  dsimp only
  rw [List.countP_append, List.countP_map, Tracker.timesLogged]
  refine congrArg _ ?_
  split_ifs with hworker
  · refine List.countP_congr fun event _ ↦ ?_
    simp [hworker]
  · refine List.countP_eq_zero.mpr fun event _ ↦ ?_
    simp [hworker]

/-- **Run.** -/
theorem timesLogged_run (calls : List Record) (workerName : String) :
    (run settings calls).timesLogged workerName (·.isDetectionOf i)
      = (decide (i < ((run settings calls).workers workerName).outages.length)).toNat ∧
    (run settings calls).timesLogged workerName (·.isRecoveryOf i)
      = (recoveryLoggedAt ((run settings calls).workers workerName).outages i).toNat := by
  induction calls using List.reverseRecOn with
  | nil => exact ⟨rfl, rfl⟩
  | append_singleton calls call ih =>
    obtain ⟨hdetected, hrecovered⟩ := ih
    rw [run_append, timesLogged_step, timesLogged_step, hdetected, hrecovered]
    have hworkers : (step settings (run settings calls) call).workers workerName =
        if workerName = call.workerName then
          (record settings ((run settings calls).workers call.workerName) call).1
        else (run settings calls).workers workerName := rfl
    rw [hworkers]
    by_cases hworker : call.workerName = workerName
    · obtain ⟨hdetected', hrecovered'⟩ :=
        countP_record settings ((run settings calls).workers call.workerName) call i
      rw [if_pos hworker, if_pos hworker, if_pos hworker.symm, ← hdetected', ← hrecovered', hworker]
      exact ⟨Nat.add_comm _ _, Nat.add_comm _ _⟩
    · rw [if_neg hworker, if_neg hworker, if_neg (Ne.symm hworker)]
      exact ⟨rfl, rfl⟩

end Logs

/-! ## The outages of a run -/

section Results

/-- **Confluence.** Within the retention window the outages are one for each group of runs, however
the minutes came in. -/
theorem outages_follow_groups (settings : Settings) (calls : List Record) (workerName : String)
    (h : Consistent calls workerName) :
    let health := (run settings calls).workers workerName
    let threshold := settings.outageThresholdSlots
    (∀ t o, health.observations.get? t = some o ↔ Recorded calls workerName t o) ∧
    (∀ outage ∈ health.outages, ∃ next, StandsFor health.observations threshold next outage) ∧
    (∀ next a b, InGroup health.observations threshold next a b →
      ∃ outage ∈ health.outages, StandsFor health.observations threshold next outage) ∧
    (health.outages.Pairwise fun outage outage' ↦ ∀ next,
      StandsFor health.observations threshold next outage →
        ¬StandsFor health.observations threshold next outage') ∧
    (∀ calls', (∀ t o, Recorded calls' workerName t o ↔ Recorded calls workerName t o) →
      (((run settings calls').workers workerName).outages.map Outage.view).Perm
        (health.outages.map Outage.view)) ∧
    (∀ later, Keeps health.outages
      ((run settings (calls ++ later)).workers workerName).outages) ∧
    ∀ i, (run settings calls).timesLogged workerName (·.isRecoveryOf i) ≤ 1 := by
  intro health threshold
  have htracked : Tracked settings calls workerName _ := tracked_run h
  have haligned : Aligned health.observations := htracked.aligned h
  obtain ⟨hepisodes, hall, hdistinct⟩ := haligned.mem_episodes threshold
  obtain ⟨held, hperm, htold⟩ := htracked.told
  have hstands : ∀ outage ∈ held, ∃ episode ∈ qualifyingOutageEpisodes threshold health.observations,
      StandsFor health.observations threshold episode.recoverySlot outage := by
    intro outage hmem
    obtain ⟨i, hi, rfl⟩ := List.getElem_of_mem hmem
    have hi' := htold.length_eq ▸ hi
    exact ⟨_, List.getElem_mem hi',
      (htold.get hi hi').standsFor haligned (hepisodes _ (List.getElem_mem hi'))⟩
  refine ⟨htracked.observations, fun outage hmem ↦ ?_, fun next a b hab ↦ ?_, ?_,
    fun calls' hcalls' ↦ ?_, fun later ↦ run_keeps settings calls later workerName, fun i ↦ ?_⟩
  · obtain ⟨episode, -, hstandsFor⟩ := hstands outage (hperm.mem_iff.mpr hmem)
    exact ⟨_, hstandsFor⟩
  · obtain ⟨episode, hmem, rfl⟩ := hall next a b hab
    obtain ⟨i, hi, rfl⟩ := List.getElem_of_mem hmem
    have hi' : i < held.length := htold.length_eq ▸ hi
    exact ⟨held[i], hperm.mem_iff.mp (List.getElem_mem hi'),
      (htold.get hi' hi).standsFor haligned (hepisodes _ hmem)⟩
  · refine List.Pairwise.perm (l := held) ?_ hperm fun hnot next hnext hnext' ↦
      hnot next hnext' hnext
    refine pairwise_of_forall₂ htold hdistinct fun a _ e he a' _ e' he' hte hte' hne next hs hs' ↦ ?_
    exact hne (((hte.standsFor haligned (hepisodes e he)).next_eq hs).trans
      (hs'.next_eq (hte'.standsFor haligned (hepisodes e' he'))))
  · have hsame : Consistent calls' workerName :=
      ⟨fun t o ht ↦ h.aligned t o ((hcalls' t o).mp ht),
        fun t o o' ht ht' ↦ h.one t o o' ((hcalls' t o).mp ht) ((hcalls' t o').mp ht'),
        fun t o t' o' ht ht' ↦
          h.window t o t' o' ((hcalls' t o).mp ht) ((hcalls' t' o').mp ht')⟩
    have htracked' : Tracked settings calls' workerName _ := tracked_run hsame
    have hget : ∀ t, ((run settings calls').workers workerName).observations.get? t
        = health.observations.get? t := by
      intro t
      ext o
      rw [htracked'.observations, hcalls', ← htracked.observations]
    have hviews : ∀ {observations : Observations} {held : List Outage} {episodes : List Episode},
        List.Forall₂ (Tells observations threshold) held episodes →
          held.map Outage.view = episodes.map (Episode.view observations) := by
      intro observations held episodes htold
      induction htold with
      | nil => rfl
      | cons htells _ ih => rw [List.map_cons, List.map_cons, htells.view, ih]
    obtain ⟨held', hperm', htold'⟩ := htracked'.told
    refine (hperm'.map Outage.view).symm.trans (.trans ?_ (hperm.map Outage.view))
    rw [hviews htold, hviews htold', qualifyingOutageEpisodes_congr _ hget, view_congr hget]
  · rw [(timesLogged_run settings i calls workerName).2]
    exact Bool.toNat_le _

/-- A minute of the Cron, then the four minutes before it without the third. -/
def lateMinutes : List Record :=
  [⟨"ops", 240, "", .cloudflareCron, fun _ ↦ ⟨"", ""⟩⟩,
    ⟨"ops", 60, "", .watchdogTakeover, fun _ ↦ ⟨"", ""⟩⟩,
    ⟨"ops", 0, "", .watchdogTakeover, fun _ ↦ ⟨"", ""⟩⟩,
    ⟨"ops", 180, "", .watchdogTakeover, fun _ ↦ ⟨"", ""⟩⟩]

theorem outages_follow_groups_late :
    (((run ⟨"test", 2⟩ lateMinutes.reverse).workers "ops").outages.map Outage.view).Perm
      (((run ⟨"test", 2⟩ lateMinutes).workers "ops").outages.map Outage.view) := by
  have hconsistent : Consistent lateMinutes "ops" := by
    have hall : ∀ c ∈ lateMinutes, (60 : ℤ) ∣ c.minuteEpoch ∧ 0 ≤ c.minuteEpoch ∧
        c.minuteEpoch ≤ 240 ∧
        ∀ c' ∈ lateMinutes, c'.minuteEpoch = c.minuteEpoch → c'.observation = c.observation := by
      simp [lateMinutes]
    constructor
    · rintro t o ⟨c, hc, -, rfl, rfl⟩
      exact (hall c hc).1
    · rintro t o o' ⟨c, hc, -, rfl, rfl⟩ ⟨c', hc', -, ht, rfl⟩
      exact ((hall c hc).2.2.2 c' hc' ht).symm
    · rintro t o t' o' ⟨c, hc, -, rfl, rfl⟩ ⟨c', hc', -, rfl, rfl⟩
      have hlow := (hall c hc).2.1
      have hhigh := (hall c' hc').2.2.1
      rw [cronObservationRetentionSlots]
      omega
  obtain ⟨-, -, -, -, hsame, -, -⟩ := outages_follow_groups ⟨"test", 2⟩ lateMinutes "ops" hconsistent
  refine hsame lateMinutes.reverse fun t o ↦ ?_
  rw [Recorded, Recorded]
  simp only [List.mem_reverse]

/-- **Once.** In every run, also with minutes that contradict each other or have been pruned, an outage
stays in its place with its report; it is logged once that it was detected, and once that it recovered
when that has happened. -/
theorem outages_logged_once (settings : Settings) (calls later : List Record) (workerName : String) :
    Keeps ((run settings calls).workers workerName).outages
      ((run settings (calls ++ later)).workers workerName).outages ∧
    (∀ i, (run settings calls).timesLogged workerName (·.isDetectionOf i)
      = if i < ((run settings calls).workers workerName).outages.length then 1 else 0) ∧
    ∀ i, (run settings calls).timesLogged workerName (·.isRecoveryOf i)
      = if ∃ outage ∈ ((run settings calls).workers workerName).outages[i]?,
          outage.recoveryLogged = true then 1 else 0 := by
  refine ⟨run_keeps settings calls later workerName, fun i ↦ ?_, fun i ↦ ?_⟩
  · rw [(timesLogged_run settings i calls workerName).1]
    split_ifs with hlt
    · exact Bool.toNat_eq_one.mpr (decide_eq_true hlt)
    · exact Bool.toNat_eq_zero.mpr (decide_eq_false hlt)
  · rw [(timesLogged_run settings i calls workerName).2]
    have hlogged : recoveryLoggedAt ((run settings calls).workers workerName).outages i = true ↔
        ∃ outage ∈ ((run settings calls).workers workerName).outages[i]?,
          outage.recoveryLogged = true := Option.any_eq_true _ _
    split_ifs with hexists
    · exact Bool.toNat_eq_one.mpr (hlogged.mpr hexists)
    · exact Bool.toNat_eq_zero.mpr (Bool.eq_false_iff.mpr fun htrue ↦ hexists (hlogged.mp htrue))

end Results

end UkAqOps.CronHealth

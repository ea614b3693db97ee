import Mathlib.Algebra.BigOperators.Group.List.Basic
import Mathlib.Algebra.Order.BigOperators.Group.List
import UkAqOps.Publication.InFlight

/-!
# Runs of the finaliser

Between two steps the finaliser awaits something that is in flight, or it has settled. Every step
keeps the invariant and this; every step also uses up an answer, an acceptance or the end of the run,
of which a plan has only so many. So no run goes on forever, a run that cannot go on has settled, and
it has resolved with all of the plan unless an adapter failed.
-/

namespace UkAqOps.Publication

open Effects Scheduling

/-! ## What is awaited -/

/-- What holds of a state that has been reached, beside the invariant. -/
def Awaiting (f : Finalizer) (s : State) : Prop :=
  match s.status with
  | .running => 0 < s.active.size
  | .settled (.error failure) => s.active.entries = [] ∧ ∃ p ∈ s.failures, p.2 = failure
  | .settled (.ok result) => s.active.entries = [] ∧ s.failures = [] ∧
      (∀ entry ∈ f.plan.entries, (evidenceAt s entry).isSome) ∧
      result.objects = s.evidenceByPosition.reduceOption

/-- The fields that only an acceptance changes. -/
structure SameOutcomes (s s' : State) : Prop where
  evidence : s'.evidenceByPosition = s.evidenceByPosition
  completedCount : s'.completedCount = s.completedCount
  failures : s'.failures = s.failures
  stopLaunching : s'.stopLaunching = s.stopLaunching
  answers : ∀ key, answersOf key s'.log = answersOf key s.log

section Advance

variable {f : Finalizer} {s : State}

theorem SameOutcomes.refl (s : State) : SameOutcomes s s := ⟨rfl, rfl, rfl, rfl, fun _ ↦ rfl⟩

theorem SameOutcomes.trans {s s' s'' : State} (h : SameOutcomes s s') (h' : SameOutcomes s' s'') :
    SameOutcomes s s'' where
  evidence := h'.evidence.trans h.evidence
  completedCount := h'.completedCount.trans h.completedCount
  failures := h'.failures.trans h.failures
  stopLaunching := h'.stopLaunching.trans h.stopLaunching
  answers key := (h'.answers key).trans (h.answers key)

theorem sameOutcomes_launch (f : Finalizer) (s : State) (entry : PublicationEntry)
    (ready : MinHeap comparePosition) :
    SameOutcomes s (launch f { s with ready := ready } entry) :=
  ⟨rfl, rfl, rfl, rfl, fun key ↦ by
    rw [launch, answersOf_append, answersOf_callNext, List.append_nil]⟩

/-- **Run.** Launching ready entries while there is room keeps the invariant; afterwards there is no
room or nothing is ready. -/
theorem launchReady_spec (hf : WellPlanned f) :
    ∀ (fuel : ℕ) (s : State), Inv f s → s.ready.size ≤ fuel →
      Inv f (launchReady f fuel s) ∧ SameOutcomes s (launchReady f fuel s) ∧
        (launchReady f fuel s).status = s.status ∧
        (f.concurrency ≤ (launchReady f fuel s).active.size ∨
          (launchReady f fuel s).ready.entries = []) := by
  intro fuel
  induction fuel with
  | zero =>
    intro s h hsize
    exact ⟨h, SameOutcomes.refl s, rfl, Or.inr (List.length_eq_zero_iff.mp (by
      rw [MinHeap.size] at hsize
      exact Nat.le_zero.mp hsize))⟩
  | succ fuel ih =>
    intro s h hsize
    rw [launchReady]
    by_cases hroom : s.active.size < f.concurrency
    · rw [if_pos hroom]
      rcases hpop : s.ready.pop with _ | ⟨entry, ready⟩
      · exact ⟨h, SameOutcomes.refl s, rfl, Or.inr (MinHeap.pop_eq_none_iff.mp hpop)⟩
      · have hlength := (MinHeap.pop_spec hpop).1.length_eq
        have hsize' : (launch f { s with ready := ready } entry).ready.size ≤ fuel := by
          rw [List.length_cons] at hlength
          rw [MinHeap.size] at hsize
          change ready.entries.length ≤ fuel
          omega
        obtain ⟨hinv, hsame, hstatus, hend⟩ := ih _ (h.launch hf hpop hroom) hsize'
        exact ⟨hinv, (sameOutcomes_launch f s entry ready).trans hsame, hstatus, hend⟩
    · rw [if_neg hroom]
      exact ⟨h, SameOutcomes.refl s, rfl, Or.inl (by omega)⟩

/-- The status is not part of the invariant. -/
theorem Inv.withStatus (h : Inv f s) (status : Status) : Inv f { s with status := status } :=
  ⟨⟨h.counted.unresolved, h.counted.nodup_ready, h.counted.mem_ready⟩, h.length_evidence,
    h.completedCount, fun key flight hflight ↦ (h.active key flight hflight).mono id rfl
      (fun _ hp ↦ Or.inl hp) rfl, h.launched, h.durable, h.failed, h.stopped, h.concurrency,
    h.quiet, h.once, h.after, h.answered⟩

theorem active_entries_nil (h : s.active.size = 0) : s.active.entries = [] :=
  List.length_eq_zero_iff.mp h

/-- **While something is left to publish, something can be launched or is in flight.** -/
theorem Inv.exists_active (hf : WellPlanned f) (h : Inv f s)
    (hleft : s.completedCount < f.plan.entries.length) (hfailures : s.failures = [])
    (hidle : f.concurrency ≤ s.active.size ∨ s.ready.entries = []) : 0 < s.active.size := by
  by_contra hzero
  have hempty := active_entries_nil (Nat.eq_zero_of_not_pos hzero)
  have hready : s.ready.entries = [] := hidle.resolve_left fun hle ↦ by
    have := hf.concurrency_pos
    omega
  -- the first entry of the plan that is not durable waits for nothing
  obtain ⟨entry, hentry⟩ : ∃ entry,
      f.plan.entries.find? (fun entry ↦ ¬(evidenceAt s entry).isSome) = some entry := by
    rw [← Option.isSome_iff_exists, List.find?_isSome]
    by_contra hall
    push Not at hall
    refine absurd hleft (not_lt_of_ge ?_)
    rw [h.completedCount, completed, List.filter_eq_self.mpr fun entry hentry ↦ by
      simpa [Option.isSome_iff_ne_none] using hall entry hentry]
  obtain ⟨hnone, done, rest, hsplit, hdone⟩ := List.find?_eq_some_iff_append.mp hentry
  have hmem : entry ∈ f.plan.entries := by
    rw [hsplit]
    simp
  have hcount : pendingOf f s entry = 0 := by
    rw [pendingOf_eq_zero_iff hf]
    intro target htarget hneeds
    simpa [Option.isSome_iff_ne_none] using hdone target (hf.before done entry rest hsplit target htarget hneeds)
  have hfresh : ¬Launched s entry.key := fun hlaunched ↦ by
    rcases (h.launched entry hmem hlaunched).2 with hactive | hsome | ⟨p, hp, -⟩
    · rw [OrderedMap.keys, hempty] at hactive
      cases hactive
    · simp [hsome] at hnone
    · rw [hfailures] at hp
      cases hp
  have hin := (h.counted.mem_ready entry).mpr ⟨⟨hmem, hfresh⟩, by exact_mod_cast hcount⟩
  rw [hready] at hin
  cases hin

theorem reportedFailure_spec (failures : List (PublicationEntry × Failure)) :
    (reportedFailure failures = none ↔ failures = []) ∧
      ∀ failure, reportedFailure failures = some failure → ∃ p ∈ failures, p.2 = failure := by
  have hmem : ∀ failure, failure ∈ (Sorting.sortBy
      (fun left right : PublicationEntry × Failure ↦ comparePosition left.1 right.1) failures).map
      Prod.snd → ∃ p ∈ failures, p.2 = failure := by
    intro failure hfailure
    obtain ⟨p, hp, heq⟩ := List.mem_map.mp hfailure
    exact ⟨p, Sorting.mem_sortBy.mp hp, heq⟩
  constructor
  · rw [reportedFailure, Option.or_eq_none_iff, List.head?_eq_none_iff, List.map_eq_nil_iff]
    constructor
    · rintro ⟨-, hnil⟩
      exact ((Sorting.sortBy_perm failures).symm.trans (List.Perm.of_eq hnil)).eq_nil
    · rintro rfl
      exact ⟨rfl, rfl⟩
  · intro failure hfailure
    rw [reportedFailure, Option.or_eq_some_iff] at hfailure
    rcases hfailure with hbudget | ⟨-, hfirst⟩
    · exact hmem failure (List.mem_of_find?_eq_some hbudget)
    · exact hmem failure (List.mem_of_head? hfirst)

/-- With nothing in flight, the finaliser settles: with a failure if there is one, and otherwise
with the evidence of all entries. -/
theorem awaiting_finish (hempty : s.active.entries = [])
    (hall : s.failures = [] → ∀ entry ∈ f.plan.entries, (evidenceAt s entry).isSome) :
    Awaiting f (finish f s) := by
  rw [Awaiting, finish]
  obtain ⟨hnone, hsome⟩ := reportedFailure_spec s.failures
  rcases hreport : reportedFailure s.failures with _ | failure
  · have hfailures := hnone.mp hreport
    exact ⟨hempty, hfailures, hall hfailures, rfl⟩
  · exact ⟨hempty, hsome failure hreport⟩

theorem sameOutcomes_finish (f : Finalizer) (s : State) : SameOutcomes s (finish f s) :=
  ⟨rfl, rfl, rfl, rfl, fun _ ↦ rfl⟩

/-- From the head of the loop the invariant is kept up to the next await. -/
theorem Inv.advance (hf : WellPlanned f) (h : Inv f s) (hrunning : s.status = .running) :
    Inv f (advance f s) ∧ Awaiting f (advance f s) ∧ SameOutcomes s (advance f s) := by
  rw [Publication.advance]
  by_cases hloop : s.completedCount < f.plan.entries.length ∧ ¬s.stopLaunching = true
  · rw [if_pos hloop]
    obtain ⟨hinv, hsame, hstatus, hidle⟩ := launchReady_spec hf s.ready.size s h le_rfl
    have hfailures : s.failures = [] := by
      by_contra hne
      exact hloop.2 (h.stopped.mpr hne)
    have hactive := hinv.exists_active hf (by rw [hsame.completedCount]; exact hloop.1)
      (hsame.failures.trans hfailures) hidle
    dsimp only
    rw [if_neg (by omega)]
    refine ⟨hinv, ?_, hsame⟩
    rw [Awaiting, hstatus, hrunning]
    exact hactive
  · rw [if_neg hloop]
    by_cases hsettling : s.stopLaunching = true ∧ 0 < s.active.size
    · rw [if_pos hsettling]
      refine ⟨h, ?_, SameOutcomes.refl s⟩
      rw [Awaiting, hrunning]
      exact hsettling.2
    · rw [if_neg hsettling]
      have hall : s.failures = [] → ∀ entry ∈ f.plan.entries, (evidenceAt s entry).isSome := by
        intro hfailures
        have hle : f.plan.entries.length ≤ s.completedCount := by
          by_contra hlt
          exact hloop ⟨by omega, fun hstop ↦ h.stopped.mp hstop hfailures⟩
        rw [h.completedCount] at hle
        have heq := (List.filter_sublist (l := f.plan.entries)).eq_of_length_le hle
        intro entry hentry
        rw [← heq] at hentry
        exact (mem_completed.mp hentry).2
      have hempty : s.active.entries = [] := by
        by_cases hstop : s.stopLaunching = true
        · exact active_entries_nil (Nat.eq_zero_of_not_pos fun hpos ↦ hsettling ⟨hstop, hpos⟩)
        · -- everything is durable, so nothing is in flight
          have hfailures : s.failures = [] := by
            by_contra hne
            exact hstop (h.stopped.mpr hne)
          refine List.eq_nil_iff_forall_not_mem.mpr fun p hp ↦ ?_
          have hflying := h.active p.1 p.2 (s.active.get?_eq_some_iff.mpr hp)
          have hsome := hall hfailures p.2.entry hflying.mem
          rw [hflying.evidence] at hsome
          cases hsome
      exact ⟨h.withStatus _, awaiting_finish hempty hall, sameOutcomes_finish f s⟩

end Advance

/-! ## Accepting -/

section Accept

variable {f : Finalizer} {s s' : State} {entry : PublicationEntry}
variable {program : Prog Call.Answer Failure PublishedEntry}
variable {outcome : Except Failure PublishedEntry}

theorem foldl_resolveDependant (dependants : List PublicationEntry) (s : State) :
    dependants.foldl resolveDependant s = { s with
      unresolved := (dependants.foldl resolveDependant s).unresolved
      ready := (dependants.foldl resolveDependant s).ready } := by
  induction dependants generalizing s with
  | nil => rfl
  | cons dependant rest ih =>
    rw [List.foldl_cons, ih]
    rfl

/-- What an acceptance changes beside the counts: the entry is no longer in flight. -/
structure Accepted (s : State) (entry : PublicationEntry) (s' : State) : Prop where
  active : s'.active = s.active.delete entry.key
  log : s'.log = s.log
  status : s'.status = s.status
  failures : ∀ p ∈ s.failures, p ∈ s'.failures
  stopLaunching : s.stopLaunching = true → s'.stopLaunching = true

theorem accepted_acceptOutcome (f : Finalizer) (s : State) (entry : PublicationEntry)
    (outcome : Except Failure PublishedEntry) :
    Accepted s entry (acceptOutcome f s entry outcome) := by
  cases outcome with
  | error reason => exact ⟨rfl, rfl, rfl, fun p hp ↦ List.mem_append_left _ hp, fun _ ↦ rfl⟩
  | ok value =>
    rw [acceptOutcome, foldl_resolveDependant]
    exact ⟨rfl, rfl, rfl, fun p hp ↦ hp, fun h ↦ h⟩

/-! ## What is left to do -/

/-- An entry of which nothing has been accepted. -/
def Open (s : State) (entry : PublicationEntry) : Prop :=
  evidenceAt s entry = none ∧ entry ∉ s.failures.map Prod.fst

instance (s : State) (entry : PublicationEntry) : Decidable (Open s entry) :=
  decidable_of_iff ((evidenceAt s entry).isNone ∧ entry ∉ s.failures.map Prod.fst)
    (and_congr_left fun _ ↦ Option.isNone_iff_eq_none)

/-- The answers and the acceptance that are still to come for an entry. -/
def weight (s : State) (entry : PublicationEntry) : ℕ :=
  (3 - (answersOf entry.key s.log).length) + if Open s entry then 1 else 0

/-- A bound on the steps that are still to come. -/
def remaining (f : Finalizer) (s : State) : ℕ :=
  (f.plan.entries.map (weight s)).sum + match s.status with
    | .running => 1
    | .settled _ => 0

theorem weight_le_of_open (hopen : Open s' entry → Open s entry)
    (hanswers : (answersOf entry.key s.log).length ≤ (answersOf entry.key s'.log).length) :
    weight s' entry ≤ weight s entry := by
  rw [weight, weight]
  by_cases h : Open s' entry
  · rw [if_pos h, if_pos (hopen h)]
    omega
  · rw [if_neg h]
    omega

/-- An acceptance closes its entry and opens none. -/
theorem open_acceptOutcome (hf : WellPlanned f) (h : Inv f s)
    (hactive : s.active.get? entry.key = some ⟨entry, program⟩)
    (houtcome : outcome? program = some outcome) {other : PublicationEntry}
    (hother : other ∈ f.plan.entries) :
    Open (acceptOutcome f s entry outcome) other → Open s other ∧ other ≠ entry := by
  have hflying := h.active _ _ hactive
  cases outcome with
  | error reason =>
    rintro ⟨hevidence, hfailures⟩
    rw [acceptOutcome, List.map_append, List.mem_append, not_or] at hfailures
    exact ⟨⟨hevidence, hfailures.1⟩, fun heq ↦ hfailures.2 (by rw [heq]; simp)⟩
  | ok value =>
    rintro ⟨hevidence, hfailures⟩
    rw [(h.fulfil hf hactive houtcome).2] at hevidence hfailures
    have hvalue : evidenceAt (recordEvidence s entry value) other = none := hevidence
    rw [evidenceAt_recordEvidence hf h value hflying.mem hother] at hvalue
    split at hvalue
    · cases hvalue
    · rename_i hne
      exact ⟨⟨hvalue, hfailures⟩, hne⟩

theorem weight_acceptOutcome (hf : WellPlanned f) (h : Inv f s)
    (hactive : s.active.get? entry.key = some ⟨entry, program⟩)
    (houtcome : outcome? program = some outcome) :
    (∀ other ∈ f.plan.entries, weight (acceptOutcome f s entry outcome) other ≤ weight s other) ∧
      weight (acceptOutcome f s entry outcome) entry < weight s entry := by
  have hlog := (accepted_acceptOutcome f s entry outcome).log
  have hflying := h.active _ _ hactive
  constructor
  · intro other hother
    exact weight_le_of_open (fun hopen ↦ (open_acceptOutcome hf h hactive houtcome hother hopen).1)
      (by rw [hlog])
  · have hclosed : ¬Open (acceptOutcome f s entry outcome) entry := fun hopen ↦
      (open_acceptOutcome hf h hactive houtcome hflying.mem hopen).2 rfl
    have hopen : Open s entry := ⟨hflying.evidence, fun hin ↦ by
      obtain ⟨p, hp, heq⟩ := List.mem_map.mp hin
      exact hflying.failures p hp heq⟩
    rw [weight, weight, if_neg hclosed, if_pos hopen, hlog]
    omega

theorem weight_eq_of_sameOutcomes (h : SameOutcomes s s') (entry : PublicationEntry) :
    weight s' entry = weight s entry := by
  have hopen : Open s' entry ↔ Open s entry := by
    rw [Open, Open, evidenceAt, evidenceAt, h.evidence, h.failures]
  rw [weight, weight, h.answers, if_congr hopen rfl rfl]

/-! ## Settling after a failure -/

/-- **Run.** Accepting all that is in flight leaves nothing in flight. -/
theorem foldl_acceptOutcome (hf : WellPlanned f) :
    ∀ (outcomes : List (PublicationEntry × Except Failure PublishedEntry)) (s : State), Inv f s →
      (outcomes.map fun p ↦ p.1.key).Nodup →
      (∀ p ∈ outcomes, ∃ program, s.active.get? p.1.key = some ⟨p.1, program⟩ ∧
        outcome? program = some p.2) →
      (∀ key ∈ s.active.keys, key ∈ outcomes.map fun p ↦ p.1.key) →
      Inv f (outcomes.foldl (fun s p ↦ acceptOutcome f s p.1 p.2) s) ∧
        (outcomes.foldl (fun s p ↦ acceptOutcome f s p.1 p.2) s).active.entries = [] ∧
        (outcomes.foldl (fun s p ↦ acceptOutcome f s p.1 p.2) s).log = s.log ∧
        (∀ p ∈ s.failures, p ∈ (outcomes.foldl (fun s p ↦ acceptOutcome f s p.1 p.2) s).failures) ∧
        ∀ entry ∈ f.plan.entries,
          weight (outcomes.foldl (fun s p ↦ acceptOutcome f s p.1 p.2) s) entry ≤ weight s entry := by
  intro outcomes
  induction outcomes with
  | nil =>
    intro s h _ _ hkeys
    refine ⟨h, ?_, rfl, fun p hp ↦ hp, fun _ _ ↦ le_rfl⟩
    exact List.eq_nil_iff_forall_not_mem.mpr fun p hp ↦
      absurd (hkeys p.1 (List.mem_map_of_mem hp)) List.not_mem_nil
  | cons first rest ih =>
    intro s h hnodup houtcomes hkeys
    rw [List.map_cons, List.nodup_cons] at hnodup
    obtain ⟨⟨program, hactive, houtcome⟩, hrest⟩ := List.forall_mem_cons.mp houtcomes
    have haccepted := accepted_acceptOutcome f s first.1 first.2
    obtain ⟨hinv, hempty, hlog, hfailures, hweight⟩ := ih (acceptOutcome f s first.1 first.2)
      (h.acceptOutcome hf hactive houtcome) hnodup.2
      (fun p hp ↦ by
        have hne : p.1.key ≠ first.1.key := fun heq ↦ hnodup.1 (by
          rw [← heq]
          exact List.mem_map_of_mem (f := fun p : PublicationEntry × _ ↦ p.1.key) hp)
        rw [haccepted.active, OrderedMap.get?_delete, if_neg hne]
        exact hrest p hp)
      (fun key hkey ↦ by
        rw [haccepted.active, ← OrderedMap.get?_isSome_iff, OrderedMap.get?_delete] at hkey
        split at hkey
        · cases hkey
        · rename_i hne
          have hin := hkeys key (s.active.get?_isSome_iff.mp hkey)
          rw [List.map_cons, List.mem_cons] at hin
          exact hin.resolve_left hne)
    rw [List.foldl_cons]
    refine ⟨hinv, hempty, hlog.trans haccepted.log, fun p hp ↦ hfailures p (haccepted.failures p hp),
      fun entry hentry ↦ (hweight entry hentry).trans ?_⟩
    exact (weight_acceptOutcome hf h hactive houtcome).1 entry hentry

/-- What is in flight, as the settled promises give it. -/
theorem outcomes_of_active (h : Inv f s)
    {outcomes : List (PublicationEntry × Except Failure PublishedEntry)}
    (houtcomes : s.active.values.map (fun flight ↦ (flight.entry, outcome? flight.program))
      = outcomes.map fun p ↦ (p.1, some p.2)) :
    (outcomes.map fun p ↦ p.1.key) = s.active.keys ∧
      ∀ p ∈ outcomes, ∃ program, s.active.get? p.1.key = some ⟨p.1, program⟩ ∧
        outcome? program = some p.2 := by
  have hflight : ∀ p ∈ s.active.entries, p.2.entry.key = p.1 := fun p hp ↦
    (h.active p.1 p.2 (s.active.get?_eq_some_iff.mpr hp)).key_eq
  constructor
  · have hmap := congrArg (List.map fun p : PublicationEntry × _ ↦ p.1.key) houtcomes
    rw [List.map_map, List.map_map] at hmap
    refine hmap.symm.trans ?_
    rw [OrderedMap.values, OrderedMap.keys, List.map_map]
    exact List.map_congr_left fun p hp ↦ hflight p hp
  · intro p hp
    have hmem : (p.1, some p.2) ∈ s.active.values.map
        fun flight ↦ (flight.entry, outcome? flight.program) := by
      rw [houtcomes]
      exact List.mem_map_of_mem (f := fun p : PublicationEntry × _ ↦ (p.1, some p.2)) hp
    obtain ⟨flight, hin, heq⟩ := List.mem_map.mp hmem
    obtain ⟨hentry, hprogram⟩ := Prod.mk.inj heq
    obtain ⟨key, hkey⟩ := OrderedMap.mem_values.mp hin
    refine ⟨flight.program, ?_, hprogram⟩
    rw [s.active.get?_eq_some_iff, ← hentry, hflight _ hkey]
    exact hkey

end Accept

end UkAqOps.Publication

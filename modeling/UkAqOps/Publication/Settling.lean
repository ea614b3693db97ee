import Mathlib.Data.List.ReduceOption
import UkAqOps.Publication.Runs

/-!
# Every publication settles

A step of the finaliser keeps the invariant and leaves less to do; a finaliser that is still running
can take a step, whatever its adapters do. So a run of the finaliser is finite, and where it cannot
go on, it has settled.
-/

namespace UkAqOps.Publication

open Effects Scheduling

/-! ## Less to do -/

section Remaining

variable {f : Finalizer} {s s' : State} {entry : PublicationEntry}

theorem remaining_lt_of_weight (hmem : entry ∈ f.plan.entries) (hrunning : s.status = .running)
    (hle : ∀ other ∈ f.plan.entries, weight s' other ≤ weight s other)
    (hlt : weight s' entry < weight s entry) : remaining f s' < remaining f s := by
  have hsum := List.sum_lt_sum _ _ hle ⟨entry, hmem, hlt⟩
  rw [remaining, remaining, hrunning]
  dsimp only
  split <;> omega

theorem remaining_lt_of_settled {result : Except Failure PublicationResult}
    (hrunning : s.status = .running) (hsettled : s'.status = .settled result)
    (hle : ∀ other ∈ f.plan.entries, weight s' other ≤ weight s other) :
    remaining f s' < remaining f s := by
  have hsum := List.sum_le_sum hle
  rw [remaining, remaining, hrunning, hsettled]
  dsimp only
  omega

end Remaining

/-! ## Steps -/

/-- What holds of every state of a run. -/
structure Reached (f : Finalizer) (s : State) : Prop where
  inv : Inv f s
  awaiting : Awaiting f s

section Steps

variable {f : Finalizer} {s s' : State} {entry : PublicationEntry}

theorem answersOf_answer {c : Call} (r : Except Failure c.Answer)
    (k : Except Failure c.Answer → Prog Call.Answer Failure PublishedEntry) (key : String) :
    answersOf key (answer s entry c r k).log
      = answersOf key s.log ++ if entry.key = key then [⟨c, r⟩] else [] := by
  rw [answer, answersOf_append, answersOf_append, answersOf_callNext, List.append_nil]
  by_cases hkey : entry.key = key
  · rw [if_pos hkey, hkey, answersOf_answered]
  · rw [if_neg hkey, answersOf_answered_of_ne hkey]

/-- An answer is one of the three that an entry may get. -/
theorem weight_answer {c : Call} {r : Except Failure c.Answer}
    {k : Except Failure c.Answer → Prog Call.Answer Failure PublishedEntry} (h : Inv f s)
    (hactive : s.active.get? entry.key = some ⟨entry, .call c k⟩) :
    (∀ other, weight (answer s entry c r k) other ≤ weight s other) ∧
      weight (answer s entry c r k) entry < weight s entry := by
  have hlt : (answersOf entry.key s.log).length < 3 := (h.active _ _ hactive).obeys.1.1
  have hopen : ∀ other, Open (answer s entry c r k) other ↔ Open s other := fun _ ↦ Iff.rfl
  constructor
  · intro other
    refine weight_le_of_open (hopen other).mp ?_
    rw [answersOf_answer, List.length_append]
    omega
  · rw [weight, weight, if_congr (hopen entry) rfl rfl, answersOf_answer, if_pos rfl,
      List.length_append, List.length_singleton]
    omega

theorem Reached.answer {c : Call} {r : Except Failure c.Answer}
    {k : Except Failure c.Answer → Prog Call.Answer Failure PublishedEntry} (h : Reached f s)
    (hrunning : s.status = .running)
    (hactive : s.active.get? entry.key = some ⟨entry, .call c k⟩) :
    Reached f (answer s entry c r k) := by
  refine ⟨h.inv.answer hactive, ?_⟩
  have hsize := h.awaiting
  rw [Awaiting, hrunning] at hsize
  have hkey : entry.key ∈ s.active.keys := by
    rw [← OrderedMap.get?_isSome_iff, hactive]
    rfl
  rw [Awaiting, show (Publication.answer s entry c r k).status = .running from hrunning]
  change 0 < (s.active.set entry.key ⟨entry, k r⟩).size
  rwa [OrderedMap.size_set_of_mem _ hkey]

/-- **Step.** A step keeps what holds of a state that has been reached, and leaves less to do. -/
theorem Reached.step (hf : WellPlanned f) (h : Reached f s) (hstep : Step f s s') :
    Reached f s' ∧ remaining f s' < remaining f s := by
  rcases hstep with ⟨hrunning, hactive, r⟩ | ⟨hrunning, hlaunching, hactive, houtcome⟩ |
    ⟨hrunning, hstopped, houtcomes⟩
  · obtain ⟨hle, hlt⟩ := weight_answer (r := r) h.inv hactive
    exact ⟨h.answer hrunning hactive, remaining_lt_of_weight (h.inv.active _ _ hactive).mem hrunning
      (fun other _ ↦ hle other) hlt⟩
  · rename_i entry program outcome
    have haccepted := accepted_acceptOutcome f s entry outcome
    obtain ⟨hinv, hawaiting, hsame⟩ := (h.inv.acceptOutcome hf hactive houtcome).advance hf
      (haccepted.status.trans hrunning)
    obtain ⟨hle, hlt⟩ := weight_acceptOutcome hf h.inv hactive houtcome
    refine ⟨⟨hinv, hawaiting⟩, remaining_lt_of_weight (h.inv.active _ _ hactive).mem hrunning
      (fun other hother ↦ ?_) ?_⟩
    · rw [weight_eq_of_sameOutcomes hsame]
      exact hle other hother
    · rwa [weight_eq_of_sameOutcomes hsame]
  · rename_i outcomes
    obtain ⟨hkeys, hflights⟩ := outcomes_of_active h.inv houtcomes
    obtain ⟨hinv, hempty, -, hfailures, hle⟩ := foldl_acceptOutcome hf outcomes s h.inv
      (by rw [hkeys]; exact s.active.nodup_keys) hflights (fun key hkey ↦ by rwa [hkeys])
    have hfailed : ∀ p ∈ s.failures, p ∈ (outcomes.foldl (fun s p ↦ acceptOutcome f s p.1 p.2)
      s).failures := hfailures
    refine ⟨⟨hinv.withStatus _, awaiting_finish hempty fun hnone ↦ ?_⟩,
      remaining_lt_of_settled hrunning rfl fun other hother ↦ ?_⟩
    · -- it was a failure that stopped the launching
      obtain ⟨p, hp⟩ := List.exists_mem_of_ne_nil _ (h.inv.stopped.mp hstopped)
      rw [hnone] at hfailed
      exact absurd (hfailed p hp) List.not_mem_nil
    · rw [weight_eq_of_sameOutcomes (sameOutcomes_finish f _)]
      exact hle other hother

/-- **Run.** -/
theorem Reached.reaches (hf : WellPlanned f) (h : Reached f s) (hreaches : Reaches f s s') :
    Reached f s' := by
  induction hreaches with
  | refl => exact h
  | tail _ hstep ih => exact (ih.step hf hstep).1

/-- A run takes at most as many steps as there is to do. -/
theorem Reached.length_le (hf : WellPlanned f) {path : List State} (h : Reached f s)
    (hpath : List.IsChain (Step f) (s :: path)) : path.length ≤ remaining f s := by
  induction path generalizing s with
  | nil => exact Nat.zero_le _
  | cons next path ih =>
    obtain ⟨hstep, hrest⟩ := List.isChain_cons_cons.mp hpath
    obtain ⟨hnext, hlt⟩ := h.step hf hstep
    have := ih hnext hrest
    rw [List.length_cons]
    omega

/-! ### After a failure -/

theorem launched_answer {c : Call} {r : Except Failure c.Answer}
    {k : Except Failure c.Answer → Prog Call.Answer Failure PublishedEntry} (h : Inv f s)
    (hactive : s.active.get? entry.key = some ⟨entry, .call c k⟩) {key : String}
    (hlaunched : Launched (answer s entry c r k) key) : Launched s key := by
  obtain ⟨request, hput⟩ := hlaunched
  rw [answer, List.append_assoc, List.mem_append] at hput
  exact ⟨request, hput.resolve_right (h.not_put_of_answer hactive r key request)⟩

/-- **Step.** Once launching has stopped, nothing is launched any more. -/
theorem Reached.stopped_step (hf : WellPlanned f) (h : Reached f s) (hstopped : s.stopLaunching = true)
    (hstep : Step f s s') :
    s'.stopLaunching = true ∧ ∀ key, Launched s' key → Launched s key := by
  rcases hstep with ⟨hrunning, hactive, r⟩ | ⟨hrunning, hlaunching, hactive, houtcome⟩ |
    ⟨hrunning, -, houtcomes⟩
  · exact ⟨hstopped, fun key ↦ launched_answer h.inv hactive⟩
  · rw [hstopped] at hlaunching
    rcases hlaunching with ⟨⟩
  · rename_i outcomes
    obtain ⟨hkeys, hflights⟩ := outcomes_of_active h.inv houtcomes
    obtain ⟨hinv, -, hlog, hfailures, -⟩ := foldl_acceptOutcome hf outcomes s h.inv
      (by rw [hkeys]; exact s.active.nodup_keys) hflights (fun key hkey ↦ by rwa [hkeys])
    obtain ⟨p, hp⟩ := List.exists_mem_of_ne_nil _ (h.inv.stopped.mp hstopped)
    refine ⟨hinv.stopped.mpr (List.ne_nil_of_mem (hfailures p hp)), ?_⟩
    rintro key ⟨request, hput⟩
    exact ⟨request, by rwa [← hlog]⟩

/-- **Run.** -/
theorem Reached.launched_of_stopped (hf : WellPlanned f) (h : Reached f s)
    (hstopped : s.stopLaunching = true) (hreaches : Reaches f s s') :
    s'.stopLaunching = true ∧ ∀ key, Launched s' key → Launched s key := by
  induction hreaches with
  | refl => exact ⟨hstopped, fun _ h ↦ h⟩
  | tail hrest hstep ih =>
    obtain ⟨hmiddle, hsame⟩ := ih
    obtain ⟨hstopped', hback⟩ := (h.reaches hf hrest).stopped_step hf hmiddle hstep
    exact ⟨hstopped', fun key hkey ↦ hsame key (hback key hkey)⟩

end Steps

/-! ## Progress -/

section Progress

variable {f : Finalizer} {s : State}

theorem exists_outcomes {α β γ : Type} {g : α → β} {o : α → Option γ} {l : List α}
    (h : ∀ a ∈ l, (o a).isSome) :
    ∃ outcomes : List (β × γ), l.map (fun a ↦ (g a, o a)) = outcomes.map fun p ↦ (p.1, some p.2) := by
  induction l with
  | nil => exact ⟨[], rfl⟩
  | cons a rest ih =>
    obtain ⟨hfirst, hrest⟩ := List.forall_mem_cons.mp h
    obtain ⟨outcomes, houtcomes⟩ := ih hrest
    obtain ⟨c, hc⟩ := Option.isSome_iff_exists.mp hfirst
    exact ⟨(g a, c) :: outcomes, by rw [List.map_cons, List.map_cons, houtcomes, hc]⟩

/-- **A finaliser that is running can take a step**: one of its calls can be answered, or an entry
has settled, or all of them have. -/
theorem Reached.exists_step (h : Reached f s) (hrunning : s.status = .running) :
    ∃ s', Step f s s' := by
  have hsize := h.awaiting
  rw [Awaiting, hrunning] at hsize
  have hentry : ∀ p ∈ s.active.entries, s.active.get? p.2.entry.key = some ⟨p.2.entry, p.2.program⟩ := by
    intro p hp
    have hget := s.active.get?_eq_some_iff.mpr hp
    rw [(h.inv.active p.1 p.2 hget).key_eq]
    exact hget
  by_cases hall : ∀ p ∈ s.active.entries, (outcome? p.2.program).isSome
  · by_cases hstopped : s.stopLaunching = true
    · have hvalues : ∀ flight ∈ s.active.values, (outcome? flight.program).isSome := by
        intro flight hflight
        obtain ⟨key, hkey⟩ := OrderedMap.mem_values.mp hflight
        exact hall _ hkey
      obtain ⟨outcomes, houtcomes⟩ :=
        exists_outcomes (g := fun flight : InFlight ↦ flight.entry) hvalues
      exact ⟨_, .settle hrunning hstopped houtcomes⟩
    · obtain ⟨p, hp⟩ := List.exists_mem_of_length_pos (show 0 < s.active.entries.length from hsize)
      obtain ⟨outcome, houtcome⟩ := Option.isSome_iff_exists.mp (hall p hp)
      exact ⟨_, .accept hrunning (Bool.not_eq_true _ ▸ hstopped) (hentry p hp) houtcome⟩
  · obtain ⟨p, hp⟩ := not_forall.mp hall
    obtain ⟨hmem, hnone⟩ := Classical.not_imp.mp hp
    have hget := hentry p hmem
    rcases hprogram : p.2.program with a | e | ⟨c, k⟩
    · exact absurd (by rw [hprogram]; rfl) hnone
    · exact absurd (by rw [hprogram]; rfl) hnone
    · rw [hprogram] at hget
      exact ⟨_, .answer hrunning hget (.error ⟨"", false⟩)⟩

theorem not_step_of_settled {s' : State} {result : Except Failure PublicationResult}
    (h : s.status = .settled result) : ¬Step f s s' := by
  rintro (⟨hrunning, -, -⟩ | ⟨hrunning, -, -, -⟩ | ⟨hrunning, -, -⟩)
  all_goals
    rw [h] at hrunning
    rcases hrunning with ⟨⟩

end Progress

/-! ## Results -/

section Results

variable {f : Finalizer} {s : State}

theorem map_reduceOption {α β γ : Type} {g : α → γ} {k : β → γ} {l : List (Option α)} {l' : List β}
    (hlength : l.length = l'.length)
    (hget : ∀ (i : ℕ) b, l'[i]? = some b → ∃ a, l[i]? = some (some a) ∧ g a = k b) :
    l.reduceOption.map g = l'.map k := by
  induction l' generalizing l with
  | nil => rw [List.length_eq_zero_iff.mp hlength]; rfl
  | cons b rest ih =>
    rcases l with _ | ⟨first, l⟩
    · rcases hlength with ⟨⟩
    · obtain ⟨a, ha, hab⟩ := hget 0 b rfl
      obtain rfl := Option.some.inj ha
      rw [List.reduceOption_cons_of_some, List.map_cons, List.map_cons, hab,
        ih (Nat.succ.inj hlength) fun i c hc ↦ hget (i + 1) c hc]

/-- The evidence of a publication that has resolved is that of the entries of the plan, in order. -/
theorem Reached.keys_of_resolved (hf : WellPlanned f) (h : Reached f s) {result : PublicationResult}
    (hstatus : s.status = .settled (.ok result)) :
    result.objects.map (·.key) = f.plan.entries.map (·.key) := by
  have hawaiting := h.awaiting
  rw [Awaiting, hstatus] at hawaiting
  obtain ⟨-, -, hall, hobjects⟩ := hawaiting
  rw [hobjects]
  refine map_reduceOption h.inv.length_evidence fun i entry hentry ↦ ?_
  have hmem := List.mem_of_getElem? hentry
  obtain ⟨evidence, hevidence⟩ := Option.isSome_iff_exists.mp (hall entry hmem)
  obtain ⟨-, -, putResult, rfl⟩ := h.inv.durable entry hmem evidence hevidence
  refine ⟨publicationEvidence entry putResult, ?_, rfl⟩
  rw [evidenceAt, hf.positions i entry hentry, Nat.add_sub_cancel] at hevidence
  exact Option.join_eq_some_iff.mp hevidence

/-- An entry that was launched was put. -/
theorem putCount_pos {key : String} (h : Launched s key) : 0 < putCount key s.log := by
  obtain ⟨request, hput⟩ := h
  exact List.countP_pos_iff.mpr ⟨_, hput, by simp [isPutOf]⟩

end Results

end UkAqOps.Publication

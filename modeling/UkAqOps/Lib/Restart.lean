import UkAqOps.Lib.Effects

/-!
# Programs that are stopped and started again

A program runs against a store that answers every call by a function, and may be stopped after any
number of calls. What it has written by then stays, and a later run starts from there.

The pattern that survives this is convergence: every key of the store has a goal, a call changes a
key only towards its goal, and from every store in between the program ends in the goal. Then it
does not matter how often and where earlier runs were stopped, and a run that finds the goal reached
changes nothing.
-/

namespace Effects

variable {C : Type} {A : C → Type} {ε α β S κ υ : Type}

/-! ## Stopping a run -/

/-- The store when `p` is stopped after `n` calls, or when it ends before. -/
def Prog.stopAfter (serve : S → (c : C) → Except ε (A c) × S) : ℕ → Prog A ε α → S → S
  | 0, _, s => s
  | _ + 1, .ret _, s => s
  | _ + 1, .throw _, s => s
  | n + 1, .call c k, s => stopAfter serve n (k (serve s c).1) (serve s c).2

/-- The states in which `p` may be stopped, where the answers to its calls are left open. -/
def Prog.MayStopIn (answers : S → (c : C) → Except ε (A c) → S → Prop) :
    Prog A ε α → S → S → Prop
  | .ret _, s, t => t = s
  | .throw _, s, t => t = s
  | .call c k, s, t => t = s ∨ ∃ r s', answers s c r s' ∧ MayStopIn answers (k r) s' t

/-- What holds wherever a call is permitted, and at the end, holds wherever a run is stopped. -/
theorem Prog.MayStopIn.of_wp {E : Env A ε S} {p : Prog A ε α} {Q : S → Except ε α → Prop}
    {Inv : S → Prop} {s t : S} (ht : p.MayStopIn E.answers s t)
    (hpermits : ∀ t c, E.permits t c → Inv t) (hQ : ∀ t r, Q t r → Inv t) (h : wp E p Q s) :
    Inv t := by
  induction p generalizing s with
  | ret a => exact ht ▸ hQ _ _ h
  | throw e => exact ht ▸ hQ _ _ h
  | call c k ih =>
    rcases ht with rfl | ⟨r, s', hanswer, hrest⟩
    · exact hpermits _ _ h.1
    · exact ih r hrest (h.2 r s' hanswer)

/-- What every answer keeps holds wherever a run is stopped. -/
theorem Prog.MayStopIn.of_answers {answers : S → (c : C) → Except ε (A c) → S → Prop}
    {p : Prog A ε α} {Inv : S → Prop} {s t : S} (ht : p.MayStopIn answers s t)
    (hanswers : ∀ s c r s', answers s c r s' → Inv s → Inv s') (hs : Inv s) : Inv t := by
  induction p generalizing s with
  | ret a => exact ht ▸ hs
  | throw e => exact ht ▸ hs
  | call c k ih =>
    rcases ht with rfl | ⟨r, s', hanswer, hrest⟩
    · exact hs
    · exact ih r hrest (hanswers s c r s' hanswer hs)

/-- How `p` may end, where the answers to its calls are left open. -/
def Prog.MayEndIn (answers : S → (c : C) → Except ε (A c) → S → Prop) :
    Prog A ε α → S → Except ε α → S → Prop
  | .ret a, s, r, t => r = .ok a ∧ t = s
  | .throw e, s, r, t => r = .error e ∧ t = s
  | .call c k, s, r, t => ∃ x s', answers s c x s' ∧ MayEndIn answers (k x) s' r t

/-- However a run ends, it ends in what the weakest precondition promises. -/
theorem Prog.MayEndIn.of_wp {E : Env A ε S} {p : Prog A ε α} {Q : S → Except ε α → Prop}
    {s t : S} {r : Except ε α} (ht : p.MayEndIn E.answers s r t) (h : wp E p Q s) : Q t r := by
  induction p generalizing s with
  | ret a =>
    obtain ⟨rfl, rfl⟩ := ht
    exact h
  | throw e =>
    obtain ⟨rfl, rfl⟩ := ht
    exact h
  | call c k ih =>
    obtain ⟨x, s', hanswer, hrest⟩ := ht
    exact ih x hrest (h.2 x s' hanswer)

/-! ### Following a run -/

section Following

variable {answers : S → (c : C) → Except ε (A c) → S → Prop} {p : Prog A ε α}
variable {f : α → Prog A ε β} {s s' t : S}

/-- A run may be stopped before its first call. -/
theorem Prog.MayStopIn.refl (p : Prog A ε α) (s : S) : p.MayStopIn answers s s := by
  rcases p with a | e | ⟨c, k⟩
  · exact rfl
  · exact rfl
  · exact Or.inl rfl

/-- A run may be stopped right after a call was answered. -/
theorem Prog.MayStopIn.await {c : C} {r : Except ε (A c)} (h : answers s c r t) :
    (Prog.await c : Prog A ε (A c)).MayStopIn answers s t :=
  Or.inr ⟨r, t, h, .refl _ _⟩

/-- A call that is answered ends with its answer. -/
theorem Prog.MayEndIn.await {c : C} {a : A c} (h : answers s c (.ok a) t) :
    (Prog.await c : Prog A ε (A c)).MayEndIn answers s (.ok a) t :=
  ⟨.ok a, t, h, rfl, rfl⟩

/-- A run may be stopped where it ends. -/
theorem Prog.MayEndIn.mayStopIn {r : Except ε α} (h : p.MayEndIn answers s r t) :
    p.MayStopIn answers s t := by
  induction p generalizing s with
  | ret a => exact h.2
  | throw e => exact h.2
  | call c k ih =>
    obtain ⟨x, s', hanswer, hrest⟩ := h
    exact Or.inr ⟨x, s', hanswer, ih x hrest⟩

/-- A sequence may be stopped where its first part may. -/
theorem Prog.MayStopIn.bind_left (h : p.MayStopIn answers s t) :
    (p >>= f).MayStopIn answers s t := by
  induction p generalizing s with
  | ret a =>
    have ht : t = s := h
    rw [ht]
    exact .refl _ _
  | throw e => exact h
  | call c k ih =>
    rcases h with rfl | ⟨r, s', hanswer, hrest⟩
    · exact .refl _ _
    · exact Or.inr ⟨r, s', hanswer, ih r hrest⟩

/-- When its first part has ended, a sequence may be stopped where its second part may. -/
theorem Prog.MayStopIn.bind_right {a : α} (h : p.MayEndIn answers s (.ok a) s')
    (hrest : (f a).MayStopIn answers s' t) : (p >>= f).MayStopIn answers s t := by
  induction p generalizing s with
  | ret b =>
    obtain ⟨hb, rfl⟩ := h
    rw [Except.ok.inj hb] at hrest
    exact hrest
  | throw e => exact nomatch h.1
  | call c k ih =>
    obtain ⟨r, u, hanswer, hend⟩ := h
    exact Or.inr ⟨r, u, hanswer, ih r hend⟩

/-- A `try` block may be stopped where its body may. -/
theorem Prog.MayStopIn.tryCatch {g : ε → Prog A ε α} (h : p.MayStopIn answers s t) :
    (tryCatch p g).MayStopIn answers s t := by
  induction p generalizing s with
  | ret a => exact h
  | throw e =>
    have ht : t = s := h
    rw [ht]
    exact .refl _ _
  | call c k ih =>
    rcases h with rfl | ⟨r, s', hanswer, hrest⟩
    · exact .refl _ _
    · exact Or.inr ⟨r, s', hanswer, ih r hrest⟩

end Following

/-- A run against a store that answers by a function ends. -/
theorem Prog.mayEndIn_execute {answers : S → (c : C) → Except ε (A c) → S → Prop}
    {serve : S → (c : C) → Except ε (A c) × S}
    (hserve : ∀ s c, answers s c (serve s c).1 (serve s c).2) (p : Prog A ε α) (s : S) :
    p.MayEndIn answers s (p.execute serve s).1 (p.execute serve s).2.1 := by
  induction p generalizing s with
  | ret a => exact ⟨rfl, rfl⟩
  | throw e => exact ⟨rfl, rfl⟩
  | call c k ih => exact ⟨_, _, hserve s c, ih _ _⟩

/-- A store that answers by a function stops a run where the answers allow it. -/
theorem Prog.mayStopIn_stopAfter {answers : S → (c : C) → Except ε (A c) → S → Prop}
    {serve : S → (c : C) → Except ε (A c) × S}
    (hserve : ∀ s c, answers s c (serve s c).1 (serve s c).2) (n : ℕ) (p : Prog A ε α) (s : S) :
    p.MayStopIn answers s (p.stopAfter serve n s) := by
  induction p generalizing s n with
  | ret a => cases n <;> rfl
  | throw e => cases n <;> rfl
  | call c k ih =>
    cases n with
    | zero => exact Or.inl rfl
    | succ n => exact Or.inr ⟨_, _, hserve s c, ih _ n _⟩

/-- What any number of stopped runs of `p`, one after the other, leave behind. -/
inductive Interrupted (serve : S → (c : C) → Except ε (A c) × S) (p : Prog A ε α) (s : S) :
    S → Prop
  | refl : Interrupted serve p s s
  | stop {t : S} (h : Interrupted serve p s t) (n : ℕ) :
      Interrupted serve p s (p.stopAfter serve n t)

/-- The store as an environment: it answers every call that is permitted. -/
def served (serve : S → (c : C) → Except ε (A c) × S) (permits : S → C → Prop) : Env A ε S where
  permits := permits
  answers s c r s' := r = (serve s c).1 ∧ s' = (serve s c).2

section Served

variable {serve : S → (c : C) → Except ε (A c) × S} {permits permits' : S → C → Prop}
variable {p : Prog A ε α} {Q : S → Except ε α → Prop} {s : S}

theorem wp_call_served {c : C} {k : Except ε (A c) → Prog A ε α} :
    wp (served serve permits) (.call c k) Q s ↔
      permits s c ∧ wp (served serve permits) (k (serve s c).1) Q (serve s c).2 := by
  refine and_congr_right fun _ ↦ ⟨fun h ↦ h _ _ ⟨rfl, rfl⟩, ?_⟩
  rintro h r s' ⟨rfl, rfl⟩
  exact h

@[simp] theorem wp_await_served {c : C} {Q : S → Except ε (A c) → Prop} :
    wp (served serve permits) (Prog.await c) Q s ↔
      permits s c ∧ Q (serve s c).2 (serve s c).1 := by
  refine wp_await.trans (and_congr_right fun _ ↦ ⟨fun h ↦ h _ _ ⟨rfl, rfl⟩, ?_⟩)
  rintro h r s' ⟨rfl, rfl⟩
  exact h

/-- A run ends in what the weakest precondition promises. -/
theorem execute_of_wp (h : wp (served serve permits) p Q s) :
    Q (p.execute serve s).2.1 (p.execute serve s).1 := by
  induction p generalizing s with
  | ret a => exact h
  | throw e => exact h
  | call c k ih => exact ih _ (wp_call_served.mp h).2

/-- Every call of a run was permitted where it was made. -/
theorem exists_permits_of_mem_execute (h : wp (served serve permits) p Q s) {e : Event A ε}
    (he : e ∈ (p.execute serve s).2.2) : ∃ t, permits t e.call := by
  induction p generalizing s with
  | ret a => exact absurd he List.not_mem_nil
  | throw e => exact absurd he List.not_mem_nil
  | call c k ih =>
    obtain ⟨hc, hrest⟩ := wp_call_served.mp h
    rcases List.mem_cons.mp he with rfl | he
    · exact ⟨s, hc⟩
    · exact ih _ hrest he

/-- What holds wherever a call is permitted, and at the end, holds wherever a run is stopped. -/
theorem stopAfter_of_wp {Inv : S → Prop} (hpermits : ∀ t c, permits t c → Inv t)
    (hQ : ∀ t r, Q t r → Inv t) (h : wp (served serve permits) p Q s) (n : ℕ) :
    Inv (p.stopAfter serve n s) := by
  induction p generalizing s n with
  | ret a =>
    cases n <;> exact hQ _ _ h
  | throw e =>
    cases n <;> exact hQ _ _ h
  | call c k ih =>
    obtain ⟨hc, hrest⟩ := wp_call_served.mp h
    cases n with
    | zero => exact hpermits _ _ hc
    | succ n => exact ih _ hrest n

theorem wp_served_mono (hpermits : ∀ t c, permits t c → permits' t c)
    (h : wp (served serve permits) p Q s) : wp (served serve permits') p Q s := by
  induction p generalizing s with
  | ret a => exact h
  | throw e => exact h
  | call c k ih =>
    obtain ⟨hc, hrest⟩ := wp_call_served.mp h
    exact wp_call_served.mpr ⟨hpermits _ _ hc, ih _ hrest⟩

end Served

/-- A sequence of two programs stops with the first one if that one throws. -/
theorem execute_bind_of_error {serve : S → (c : C) → Except ε (A c) × S} {p : Prog A ε α}
    {f : α → Prog A ε β} {s : S} {e : ε} (h : (p.execute serve s).1 = .error e) :
    (p >>= f).execute serve s = (.error e, (p.execute serve s).2) := by
  induction p generalizing s with
  | ret a => cases h
  | throw e' =>
    cases h
    rfl
  | call c k ih =>
    have hrest := ih (serve s c).1 (s := (serve s c).2) h
    change ((((k (serve s c).1) >>= f).execute serve (serve s c).2).1,
      (((k (serve s c).1) >>= f).execute serve (serve s c).2).2.1,
      (⟨c, (serve s c).1⟩ : Event A ε) ::
        (((k (serve s c).1) >>= f).execute serve (serve s c).2).2.2) = _
    rw [hrest]
    rfl

/-! ## Convergence -/

section Convergence

variable (look : S → κ → υ) (start goal : κ → υ)

/-- Every key holds what it held at the start, or what it is to hold in the end. -/
def Between (s : S) : Prop := ∀ k, look s k = start k ∨ look s k = goal k

/-- Every key holds what it is to hold in the end. -/
def AtGoal (s : S) : Prop := ∀ k, look s k = goal k

/-- A call may be made between start and goal, and may write a key only if the key is not there
yet. -/
def towards (writes : C → κ → Prop) (s : S) (c : C) : Prop :=
  Between look start goal s ∧ ∀ k, writes c k → look s k ≠ goal k

/-- From every store in between, the program moves keys towards the goal and ends there. -/
def Converges (serve : S → (c : C) → Except ε (A c) × S) (writes : C → κ → Prop)
    (p : Prog A ε α) : Prop :=
  ∀ s, Between look start goal s → wp (served serve (towards look start goal writes)) p
    (fun s' r ↦ (∃ a, r = .ok a) ∧ AtGoal look goal s') s

variable {look start goal}

theorem between_start {s : S} (h : ∀ k, look s k = start k) : Between look start goal s :=
  fun k ↦ Or.inl (h k)

theorem AtGoal.between {s : S} (h : AtGoal look goal s) : Between look start goal s :=
  fun k ↦ Or.inr (h k)

variable {serve : S → (c : C) → Except ε (A c) × S} {writes : C → κ → Prop} {p : Prog A ε α}
variable {s t : S}

theorem Converges.execute (h : Converges look start goal serve writes p)
    (hs : Between look start goal s) :
    (∃ a, (p.execute serve s).1 = .ok a) ∧ AtGoal look goal (p.execute serve s).2.1 :=
  execute_of_wp (h s hs)

/-- However often earlier runs were stopped, the store is still between start and goal. -/
theorem Converges.between_of_interrupted (h : Converges look start goal serve writes p)
    (hs : Between look start goal s) (ht : Interrupted serve p s t) :
    Between look start goal t := by
  induction ht with
  | refl => exact hs
  | stop _ n ih =>
    exact stopAfter_of_wp (fun _ _ hpermits ↦ hpermits.1) (fun _ _ hend ↦ hend.2.between)
      (h _ ih) n

/-- A run started where earlier runs were stopped ends in the goal as well. -/
theorem Converges.execute_of_interrupted (h : Converges look start goal serve writes p)
    (hs : Between look start goal s) (ht : Interrupted serve p s t) :
    (∃ a, (p.execute serve t).1 = .ok a) ∧ AtGoal look goal (p.execute serve t).2.1 :=
  h.execute (h.between_of_interrupted hs ht)

/-- Where the goal is reached, a run writes nothing. -/
theorem not_writes_of_atGoal {Q : S → Except ε α → Prop}
    (hframe : ∀ s c k, ¬writes c k → look (serve s c).2 k = look s k)
    (h : wp (served serve (towards look start goal writes)) p Q s) (hs : AtGoal look goal s) :
    ∀ e ∈ (p.execute serve s).2.2, ∀ k, ¬writes e.call k := by
  induction p generalizing s with
  | ret a => simp [Prog.execute]
  | throw e => simp [Prog.execute]
  | call c k ih =>
    obtain ⟨hc, hrest⟩ := wp_call_served.mp h
    have hno : ∀ key, ¬writes c key := fun key hw ↦ hc.2 key hw (hs key)
    have hs' : AtGoal look goal (serve s c).2 := fun key ↦ by
      rw [hframe s c key (hno key)]
      exact hs key
    intro e he
    rcases List.mem_cons.mp he with rfl | he
    · exact hno
    · exact ih _ hrest hs' e he

/-- Every key that a converging run writes had to change. -/
theorem start_ne_goal_of_writes {Q : S → Except ε α → Prop}
    (h : wp (served serve (towards look start goal writes)) p Q s) {e : Event A ε}
    (he : e ∈ (p.execute serve s).2.2) {k : κ} (hk : writes e.call k) : start k ≠ goal k := by
  obtain ⟨t, hbetween, hne⟩ := exists_permits_of_mem_execute h he
  rcases hbetween k with hstart | hgoal
  · rw [← hstart]
    exact hne k hk
  · exact absurd hgoal (hne k hk)

end Convergence

end Effects

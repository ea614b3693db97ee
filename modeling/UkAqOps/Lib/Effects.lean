import Mathlib.Algebra.BigOperators.Group.Finset.Piecewise
import Mathlib.Algebra.Order.BigOperators.Group.Finset
import Mathlib.Logic.Relation

/-!
# Programs that make calls

An asynchronous function is a `Prog`: it returns, throws, or makes a call and goes on with the
answer, which may itself be a failure. What answers the call is left open, so that one program can
be run against a store, against a recorded history, or next to other programs on a shared store.

`wp` is the weakest precondition of a program against an environment, with one rule for each way of
building a program. A `World` is a pool of programs on a shared store whose calls interleave
freely. The rule `obeys_of_reachable` carries a fact proved about each program alone, over its own
history of calls, to every state the pool can reach.
-/

namespace Effects

variable {C : Type} {A : C → Type} {ε α β σ : Type}

/-! ## Programs -/

/-- A program with calls `c : C` answered by `A c`, exceptions `ε` and result `α`. -/
inductive Prog (A : C → Type) (ε α : Type) where
  | ret (a : α)
  | throw (e : ε)
  | call (c : C) (k : Except ε (A c) → Prog A ε α)

namespace Prog

/-- Run `p`, then go on with its result. -/
def bind : Prog A ε α → (α → Prog A ε β) → Prog A ε β
  | ret a, f => f a
  | throw e, _ => throw e
  | call c k, f => call c fun r ↦ bind (k r) f

/-- Run `p`, and go on with `f` if it throws. -/
def catchWith : Prog A ε α → (ε → Prog A ε α) → Prog A ε α
  | ret a, _ => ret a
  | throw e, f => f e
  | call c k, f => call c fun r ↦ catchWith (k r) f

instance : Monad (Prog A ε) where
  pure := ret
  bind := bind

instance : MonadExceptOf ε (Prog A ε) where
  throw := throw
  tryCatch := catchWith

instance : LawfulMonad (Prog A ε) := LawfulMonad.mk' _
  (fun p ↦ by
    induction p with
    | ret a => rfl
    | throw e => rfl
    | call c k ih => exact congrArg (call c) (funext ih))
  (fun _ _ ↦ rfl)
  (fun p f g ↦ by
    induction p with
    | ret a => rfl
    | throw e => rfl
    | call c k ih => exact congrArg (call c) (funext ih))

/-- Make the call `c`: its answer is the result, its failure is thrown. -/
def await (c : C) : Prog A ε (A c) :=
  call c fun r ↦ match r with
    | .ok a => ret a
    | .error e => throw e

/-- A synchronous computation that may throw. -/
def ofExcept : Except ε α → Prog A ε α
  | .ok a => ret a
  | .error e => throw e

end Prog

/-! ## Weakest preconditions -/

/-- What a program runs against: the calls it may make in a state, and how they are answered. -/
structure Env (A : C → Type) (ε σ : Type) where
  permits : σ → C → Prop
  answers : σ → (c : C) → Except ε (A c) → σ → Prop

/-- However its calls are answered, `p` makes only permitted calls from `s`, and `Q` holds of the
state and the result it ends with. -/
def wp (E : Env A ε σ) : Prog A ε α → (σ → Except ε α → Prop) → σ → Prop
  | .ret a, Q, s => Q s (.ok a)
  | .throw e, Q, s => Q s (.error e)
  | .call c k, Q, s => E.permits s c ∧ ∀ r s', E.answers s c r s' → wp E (k r) Q s'

section Rules

variable {E : Env A ε σ} {s : σ}

@[simp] theorem wp_pure {a : α} {Q : σ → Except ε α → Prop} :
    wp E (pure a : Prog A ε α) Q s ↔ Q s (.ok a) := Iff.rfl

@[simp] theorem wp_throw {e : ε} {Q : σ → Except ε α → Prop} :
    wp E (throw e : Prog A ε α) Q s ↔ Q s (.error e) := Iff.rfl

@[simp] theorem wp_ofExcept {x : Except ε α} {Q : σ → Except ε α → Prop} :
    wp E (Prog.ofExcept x : Prog A ε α) Q s ↔ Q s x := by
  cases x <;> exact Iff.rfl

theorem wp_mono {p : Prog A ε α} {Q Q' : σ → Except ε α → Prop}
    (h : ∀ s r, Q s r → Q' s r) (hp : wp E p Q s) : wp E p Q' s := by
  induction p generalizing s with
  | ret a => exact h _ _ hp
  | throw e => exact h _ _ hp
  | call c k ih => exact ⟨hp.1, fun r s' hr ↦ ih r (hp.2 r s' hr)⟩

@[simp] theorem wp_await {c : C} {Q : σ → Except ε (A c) → Prop} :
    wp E (Prog.await c : Prog A ε (A c)) Q s ↔
      E.permits s c ∧ ∀ r s', E.answers s c r s' → Q s' r := by
  refine and_congr_right fun _ ↦ forall₃_congr fun r s' _ ↦ ?_
  cases r <;> exact Iff.rfl

/-- What is left to do after a step that ended with the given result. -/
def afterBind (E : Env A ε σ) (f : α → Prog A ε β) (Q : σ → Except ε β → Prop) (s : σ) :
    Except ε α → Prop
  | .ok a => wp E (f a) Q s
  | .error e => Q s (.error e)

@[simp] theorem afterBind_ok {f : α → Prog A ε β} {Q : σ → Except ε β → Prop} {a : α} :
    afterBind E f Q s (.ok a) = wp E (f a) Q s := rfl

@[simp] theorem afterBind_error {f : α → Prog A ε β} {Q : σ → Except ε β → Prop} {e : ε} :
    afterBind E f Q s (.error e) = Q s (.error e) := rfl

@[simp] theorem wp_bind {p : Prog A ε α} {f : α → Prog A ε β} {Q : σ → Except ε β → Prop} :
    wp E (p >>= f) Q s ↔ wp E p (afterBind E f Q) s := by
  induction p generalizing s with
  | ret a => exact Iff.rfl
  | throw e => exact Iff.rfl
  | call c k ih =>
    exact and_congr_right fun _ ↦ forall₃_congr fun r s' _ ↦ ih r

/-- What is left to do after a `try` block that ended with the given result. -/
def afterCatch (E : Env A ε σ) (f : ε → Prog A ε α) (Q : σ → Except ε α → Prop) (s : σ) :
    Except ε α → Prop
  | .ok a => Q s (.ok a)
  | .error e => wp E (f e) Q s

@[simp] theorem afterCatch_ok {f : ε → Prog A ε α} {Q : σ → Except ε α → Prop} {a : α} :
    afterCatch E f Q s (.ok a) = Q s (.ok a) := rfl

@[simp] theorem afterCatch_error {f : ε → Prog A ε α} {Q : σ → Except ε α → Prop} {e : ε} :
    afterCatch E f Q s (.error e) = wp E (f e) Q s := rfl

@[simp] theorem wp_tryCatch {p : Prog A ε α} {f : ε → Prog A ε α} {Q : σ → Except ε α → Prop} :
    wp E (tryCatch p f) Q s ↔ wp E p (afterCatch E f Q) s := by
  induction p generalizing s with
  | ret a => exact Iff.rfl
  | throw e => exact Iff.rfl
  | call c k ih =>
    exact and_congr_right fun _ ↦ forall₃_congr fun r s' _ ↦ ih r

/-- A loop: what holds before each step is kept by the step, or the step throws. -/
theorem wp_foldlM {f : β → α → Prog A ε β} {l : List α} {b : β}
    {Inv : List α → β → σ → Prop} {Err : ε → σ → Prop} (hinit : Inv [] b s)
    (hstep : ∀ done a rest b s, l = done ++ a :: rest → Inv done b s → wp E (f b a) (fun s' r ↦
      match r with
      | .ok b' => Inv (done ++ [a]) b' s'
      | .error e => Err e s') s) :
    wp E (l.foldlM f b) (fun s' r ↦
      match r with
      | .ok b' => Inv l b' s'
      | .error e => Err e s') s := by
  have key : ∀ (rest done : List α) (b : β) (s : σ), l = done ++ rest → Inv done b s →
      wp E (rest.foldlM f b) (fun s' r ↦
        match r with
        | .ok b' => Inv l b' s'
        | .error e => Err e s') s := by
    intro rest
    induction rest with
    | nil =>
      intro done b s hl hinv
      rw [List.append_nil] at hl
      rw [hl]
      exact hinv
    | cons a rest ih =>
      intro done b s hl hinv
      rw [List.foldlM_cons, wp_bind]
      refine wp_mono (fun s' r hr ↦ ?_) (hstep done a rest b s hl hinv)
      cases r with
      | ok b' => exact ih (done ++ [a]) b' s' (by rw [hl, List.append_assoc]; rfl) hr
      | error e => exact hr
  exact key l [] b s rfl hinit

end Rules

/-! ## Histories -/

/-- A call together with its answer. -/
structure Event (A : C → Type) (ε : Type) where
  call : C
  answer : Except ε (A call)

/-- The environment that only records: every answer is possible, and a call may be made when the
history so far allows it. -/
def recorder (allowed : List (Event A ε) → C → Prop) : Env A ε (List (Event A ε)) where
  permits := allowed
  answers h c r h' := h' = h ++ [⟨c, r⟩]

/-- Along every history that `p` can continue, it makes only allowed calls, and ends in `Q`. -/
abbrev Obeys (allowed : List (Event A ε) → C → Prop) (p : Prog A ε α)
    (Q : List (Event A ε) → Except ε α → Prop) (h : List (Event A ε)) : Prop :=
  wp (recorder allowed) p Q h

theorem obeys_await {allowed : List (Event A ε) → C → Prop} {c : C}
    {Q : List (Event A ε) → Except ε (A c) → Prop} {h : List (Event A ε)} :
    Obeys allowed (Prog.await c) Q h ↔ allowed h c ∧ ∀ r, Q (h ++ [⟨c, r⟩]) r := by
  refine wp_await.trans (and_congr_right fun _ ↦ forall_congr' fun r ↦ ?_)
  exact ⟨fun hQ ↦ hQ _ rfl, fun hQ h' hh' ↦ by rw [hh']; exact hQ⟩

/-! ## A pool of programs on a shared store -/

variable {ι S : Type} [DecidableEq ι]

/-- The store, what is left of each program, and the calls made so far with who made them. -/
structure World (A : C → Type) (ε α ι S : Type) where
  store : S
  procs : ι → Prog A ε α
  log : List (ι × Event A ε)

/-- The calls made by `i`. -/
def callsOf (i : ι) (log : List (ι × Event A ε)) : List (Event A ε) :=
  log.filterMap fun entry ↦ if entry.1 = i then some entry.2 else none

theorem callsOf_append (i : ι) (log log' : List (ι × Event A ε)) :
    callsOf i (log ++ log') = callsOf i log ++ callsOf i log' := List.filterMap_append

theorem callsOf_append_self (i : ι) (log : List (ι × Event A ε)) (e : Event A ε) :
    callsOf i (log ++ [(i, e)]) = callsOf i log ++ [e] := by
  rw [callsOf_append]
  simp [callsOf]

theorem callsOf_append_of_ne {i j : ι} (h : j ≠ i) (log : List (ι × Event A ε)) (e : Event A ε) :
    callsOf i (log ++ [(j, e)]) = callsOf i log := by
  rw [callsOf_append]
  simp [callsOf, h]

theorem mem_callsOf {i : ι} {log : List (ι × Event A ε)} {e : Event A ε} :
    e ∈ callsOf i log ↔ (i, e) ∈ log := by
  rw [callsOf, List.mem_filterMap]
  constructor
  · rintro ⟨⟨j, e'⟩, hmem, h⟩
    by_cases hj : j = i
    · rw [if_pos hj] at h
      rw [← hj, ← Option.some.inj h]
      exact hmem
    · rw [if_neg hj] at h
      cases h
  · intro h
    exact ⟨(i, e), h, if_pos rfl⟩

/-- Counting in the log is counting in the history of each program. -/
theorem countP_eq_sum_callsOf (p : Event A ε → Bool) (log : List (ι × Event A ε)) (s : Finset ι)
    (hs : ∀ entry ∈ log, entry.1 ∈ s) :
    log.countP (fun entry ↦ p entry.2) = ∑ i ∈ s, (callsOf i log).countP p := by
  induction log using List.reverseRecOn with
  | nil => simp [callsOf]
  | append_singleton log entry ih =>
    obtain ⟨j, e⟩ := entry
    have hj : j ∈ s := hs (j, e) (by simp)
    have hsplit : ∀ i, (callsOf i (log ++ [(j, e)])).countP p
        = (callsOf i log).countP p + if i = j then [e].countP p else 0 := by
      intro i
      by_cases hi : i = j
      · rw [hi, callsOf_append_self, List.countP_append, if_pos rfl]
      · rw [callsOf_append_of_ne (Ne.symm hi), if_neg hi, Nat.add_zero]
    rw [List.countP_append, ih fun entry hentry ↦ hs entry (List.mem_append_left _ hentry),
      Finset.sum_congr rfl fun i _ ↦ hsplit i, Finset.sum_add_distrib,
      Finset.sum_ite_eq' s j, if_pos hj]
    rfl

/-- If every program makes at most as many calls of one kind as of another, so does the pool. -/
theorem countP_le_of_callsOf {p q : Event A ε → Bool} {log : List (ι × Event A ε)}
    (h : ∀ i, (callsOf i log).countP p ≤ (callsOf i log).countP q) :
    log.countP (fun entry ↦ p entry.2) ≤ log.countP (fun entry ↦ q entry.2) := by
  have hs : ∀ entry ∈ log, entry.1 ∈ (log.map Prod.fst).toFinset := fun entry hentry ↦
    List.mem_toFinset.mpr (List.mem_map_of_mem hentry)
  rw [countP_eq_sum_callsOf p log _ hs, countP_eq_sum_callsOf q log _ hs]
  exact Finset.sum_le_sum fun i _ ↦ h i

/-- The world after `i` was answered `r` on its call `c`. -/
def World.after (w : World A ε α ι S) (i : ι) (c : C) (r : Except ε (A c))
    (k : Except ε (A c) → Prog A ε α) (s : S) : World A ε α ι S :=
  ⟨s, Function.update w.procs i (k r), w.log ++ [(i, ⟨c, r⟩)]⟩

/-- One program makes its next call and the store answers it. -/
inductive Step (answers : S → (c : C) → Except ε (A c) → S → Prop) :
    World A ε α ι S → World A ε α ι S → Prop
  | call {w : World A ε α ι S} {i : ι} {c : C} {k : Except ε (A c) → Prog A ε α}
      {r : Except ε (A c)} {s : S} (hproc : w.procs i = .call c k) (hstore : answers w.store c r s) :
      Step answers w (w.after i c r k s)

/-- What any number of calls of the pool lead to. -/
abbrev Reaches (answers : S → (c : C) → Except ε (A c) → S → Prop) :
    World A ε α ι S → World A ε α ι S → Prop :=
  Relation.ReflTransGen (Step answers)

section Pool

variable {answers : S → (c : C) → Except ε (A c) → S → Prop}
variable {allowed : ι → List (Event A ε) → C → Prop}
variable {Q : ι → List (Event A ε) → Except ε α → Prop} {w w' : World A ε α ι S}

/-- One call of the pool keeps every program on the path that its own history started. -/
theorem Step.obeys (hstep : Step answers w w')
    (h : ∀ i, Obeys (allowed i) (w.procs i) (Q i) (callsOf i w.log)) (i : ι) :
    Obeys (allowed i) (w'.procs i) (Q i) (callsOf i w'.log) := by
  obtain ⟨hproc, hstore⟩ := hstep
  rename_i j c k r s
  by_cases hij : j = i
  · subst hij
    have hj := h j
    rw [hproc] at hj
    simp only [World.after, Function.update_self, callsOf_append_self]
    exact hj.2 r _ rfl
  · simp only [World.after, Function.update_of_ne (Ne.symm hij), callsOf_append_of_ne hij]
    exact h i

/-- Every call in the log was made in some state on the way. -/
theorem exists_step_of_mem_log {i : ι} {e : Event A ε} (hreach : Reaches answers w w')
    (hbefore : (i, e) ∉ w.log) (hafter : (i, e) ∈ w'.log) :
    ∃ v k s, Reaches answers w v ∧ v.procs i = .call e.call k ∧
      answers v.store e.call e.answer s ∧ Reaches answers (v.after i e.call e.answer k s) w' := by
  induction hreach with
  | refl => exact absurd hafter hbefore
  | @tail v v' hv hstep ih =>
    by_cases hmem : (i, e) ∈ v.log
    · obtain ⟨u, k, s, hu, hproc, hstore, hrest⟩ := ih hmem
      exact ⟨u, k, s, hu, hproc, hstore, hrest.tail hstep⟩
    · obtain ⟨hproc, hstore⟩ := hstep
      rename_i j c k r s
      have hlast : (i, e) = (j, ⟨c, r⟩) := by
        rcases List.mem_append.mp hafter with h | h
        · exact absurd h hmem
        · exact List.mem_singleton.mp h
      cases hlast
      exact ⟨v, k, s, hv, hproc, hstore, .refl⟩

/-- A fact about each program alone holds in every state that the pool reaches. -/
theorem obeys_of_reachable
    (hinit : ∀ i, Obeys (allowed i) (w.procs i) (Q i) (callsOf i w.log))
    (hreach : Reaches answers w w') :
    ∀ i, Obeys (allowed i) (w'.procs i) (Q i) (callsOf i w'.log) := by
  induction hreach with
  | refl => exact hinit
  | tail _ hstep ih => exact hstep.obeys ih

/-- An invariant of the pool: it holds at the start, and every allowed call keeps it. -/
theorem invariant_of_reachable {Inv : World A ε α ι S → Prop}
    (hinit : ∀ i, Obeys (allowed i) (w.procs i) (Q i) (callsOf i w.log)) (hw : Inv w)
    (hpreserved : ∀ (w : World A ε α ι S) i c k r s, Inv w → w.procs i = .call c k →
      allowed i (callsOf i w.log) c → answers w.store c r s → Inv (w.after i c r k s))
    (hreach : Reaches answers w w') : Inv w' := by
  induction hreach with
  | refl => exact hw
  | tail hbefore hstep ih =>
    have hobeys := obeys_of_reachable hinit hbefore
    obtain ⟨hproc, hstore⟩ := hstep
    rename_i i c k r s
    have hi := hobeys i
    rw [hproc] at hi
    exact hpreserved _ i c k r s ih hproc hi.1 hstore

/-- Run a program to its end against a store that answers by a function. -/
def Prog.execute (serve : S → (c : C) → Except ε (A c) × S) :
    Prog A ε α → S → Except ε α × S × List (Event A ε)
  | .ret a, s => (.ok a, s, [])
  | .throw e, s => (.error e, s, [])
  | .call c k, s =>
    let (r, s') := serve s c
    let (result, s'', calls) := execute serve (k r) s'
    (result, s'', ⟨c, r⟩ :: calls)

/-- A program of the pool can run to its end while the others wait. -/
theorem exists_reaches_execute {serve : S → (c : C) → Except ε (A c) × S}
    (hserve : ∀ s c, answers s c (serve s c).1 (serve s c).2) (w : World A ε α ι S) (i : ι) :
    ∃ w', Reaches answers w w' ∧ w'.store = ((w.procs i).execute serve w.store).2.1 ∧
      w'.procs i = .ofExcept ((w.procs i).execute serve w.store).1 ∧
      w'.log = w.log ++ ((w.procs i).execute serve w.store).2.2.map fun e ↦ (i, e) := by
  generalize hp : w.procs i = p
  induction p generalizing w with
  | ret a => exact ⟨w, .refl, rfl, hp, by simp [Prog.execute]⟩
  | throw e => exact ⟨w, .refl, rfl, hp, by simp [Prog.execute]⟩
  | call c k ih =>
    have hstep : Step answers w (w.after i c (serve w.store c).1 k (serve w.store c).2) :=
      .call hp (hserve w.store c)
    obtain ⟨w', hreach, hstore, hproc, hlog⟩ := ih (serve w.store c).1
      (w.after i c (serve w.store c).1 k (serve w.store c).2) (Function.update_self ..)
    refine ⟨w', .head hstep hreach, hstore, hproc, ?_⟩
    rw [hlog, World.after, List.append_assoc]
    rfl

end Pool

end Effects

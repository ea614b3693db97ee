import Mathlib.Data.List.Forall2
import Mathlib.Logic.Function.Basic

/-!
# Computations over a state that may throw

`ExceptT ε (StateM σ)` keeps the state that was reached when a computation throws. How a successful
run splits into its steps, and what a loop of such steps does to the state.
-/

namespace Stateful

variable {ε σ α β κ υ : Type}

/-- The outcome of a computation started in `s`, and the state it leaves. -/
def runOn (x : ExceptT ε (StateM σ) α) (s : σ) : Except ε α × σ := StateT.run (ExceptT.run x) s

/-! ## Steps -/

@[simp] theorem runOn_pure (a : α) (s : σ) :
    runOn (pure a : ExceptT ε (StateM σ) α) s = (.ok a, s) := rfl

@[simp] theorem runOn_throw (e : ε) (s : σ) :
    runOn (throw e : ExceptT ε (StateM σ) α) s = (.error e, s) := rfl

@[simp] theorem runOn_lift (x : Except ε α) (s : σ) :
    runOn (liftM x : ExceptT ε (StateM σ) α) s = (x, s) := rfl

theorem runOn_bind_eq_ok_iff {x : ExceptT ε (StateM σ) α} {f : α → ExceptT ε (StateM σ) β} {b : β}
    {s s'' : σ} : runOn (x >>= f) s = (.ok b, s'') ↔
      ∃ a s', runOn x s = (.ok a, s') ∧ runOn (f a) s' = (.ok b, s'') := by
  have hbind : runOn (x >>= f) s = match runOn x s with
      | (.ok a, s') => runOn (f a) s'
      | (.error e, s') => (.error e, s') := by
    change StateT.run (ExceptT.run x >>= ExceptT.bindCont f) s = _
    rw [StateT.run_bind]
    rcases hx : StateT.run (ExceptT.run x) s with ⟨_ | a, s'⟩
    · simp only [runOn, hx]
      rfl
    · simp only [runOn, hx]
      rfl
  rw [hbind]
  rcases runOn x s with ⟨e | a, s'⟩
  · simp
  · simp

theorem runOn_bind {x : ExceptT ε (StateM σ) α} {f : α → ExceptT ε (StateM σ) β} {a : α} {b : β}
    {s s' s'' : σ} (hx : runOn x s = (.ok a, s')) (hf : runOn (f a) s' = (.ok b, s'')) :
    runOn (x >>= f) s = (.ok b, s'') := runOn_bind_eq_ok_iff.mpr ⟨a, s', hx, hf⟩

/-- A lifted step that succeeds goes on in the same state. -/
theorem runOn_lift_bind_eq_ok_iff {x : Except ε α} {f : α → ExceptT ε (StateM σ) β} {b : β}
    {s s' : σ} : runOn ((liftM x : ExceptT ε (StateM σ) α) >>= f) s = (.ok b, s') ↔
      ∃ a, x = .ok a ∧ runOn (f a) s = (.ok b, s') := by
  rw [runOn_bind_eq_ok_iff]
  constructor
  · rintro ⟨a, t, hx, hf⟩
    rw [runOn_lift, Prod.mk.injEq] at hx
    exact ⟨a, hx.1, by rw [hx.2]; exact hf⟩
  · rintro ⟨a, hx, hf⟩
    exact ⟨a, s, by rw [runOn_lift, hx], hf⟩

/-! ## Loops -/

/-- A loop all of whose turns succeed applies their effects in order. -/
theorem runOn_mapM {f : α → ExceptT ε (StateM σ) β} {g : α → β} {effect : σ → α → σ} {l : List α}
    (h : ∀ a ∈ l, ∀ s, runOn (f a) s = (.ok (g a), effect s a)) (s : σ) :
    runOn (l.mapM f) s = (.ok (l.map g), l.foldl effect s) := by
  induction l generalizing s with
  | nil => rfl
  | cons a rest ih =>
    obtain ⟨ha, hrest⟩ := List.forall_mem_cons.mp h
    rw [List.mapM_cons]
    exact runOn_bind (ha s) (runOn_bind (ih hrest _) rfl)

/-- A loop whose turns succeed with a result that does not depend on the state. -/
theorem exists_runOn_mapM {f : α → ExceptT ε (StateM σ) β} {effect : σ → α → σ} {l : List α}
    (h : ∀ a ∈ l, ∃ b, ∀ s, runOn (f a) s = (.ok b, effect s a)) :
    ∃ r, ∀ s, runOn (l.mapM f) s = (.ok r, l.foldl effect s) := by
  induction l with
  | nil => exact ⟨[], fun _ ↦ rfl⟩
  | cons a rest ih =>
    obtain ⟨⟨b, hb⟩, hrest⟩ := List.forall_mem_cons.mp h
    obtain ⟨bs, hbs⟩ := ih hrest
    refine ⟨b :: bs, fun s ↦ ?_⟩
    rw [List.mapM_cons]
    exact runOn_bind (hb s) (runOn_bind (hbs _) rfl)

/-- In a loop that succeeds every turn succeeds. -/
theorem forall₂_of_runOn_mapM {f : α → ExceptT ε (StateM σ) β} {l : List α} {r : List β} {s s' : σ}
    (h : runOn (l.mapM f) s = (.ok r, s')) :
    List.Forall₂ (fun a b ↦ ∃ t t', runOn (f a) t = (.ok b, t')) l r := by
  induction l generalizing s r s' with
  | nil =>
    rw [List.mapM_nil, runOn_pure, Prod.mk.injEq, Except.ok.injEq] at h
    rw [← h.1]
    exact List.Forall₂.nil
  | cons a rest ih =>
    rw [List.mapM_cons] at h
    obtain ⟨b, t, hb, h⟩ := runOn_bind_eq_ok_iff.mp h
    obtain ⟨bs, t', hbs, h⟩ := runOn_bind_eq_ok_iff.mp h
    rw [runOn_pure, Prod.mk.injEq, Except.ok.injEq] at h
    rw [← h.1]
    exact List.Forall₂.cons ⟨s, t, hb⟩ (ih hbs)

/-! ## Writes under distinct keys -/

section Writes

variable [DecidableEq κ] {skip : α → Prop} [DecidablePred skip] {key : α → κ} {value : α → υ}

/-- Write the value of `a` under its key, unless `a` is skipped. -/
def write (skip : α → Prop) [DecidablePred skip] (key : α → κ) (value : α → υ) (s : κ → υ) (a : α) :
    κ → υ :=
  if skip a then s else Function.update s (key a) (value a)

theorem foldl_write_of_notMem {l : List α} {k : κ} (h : k ∉ l.map key) (s : κ → υ) :
    l.foldl (write skip key value) s k = s k := by
  induction l generalizing s with
  | nil => rfl
  | cons a rest ih =>
    rw [List.map_cons, List.mem_cons, not_or] at h
    rw [List.foldl_cons, ih h.2, write]
    split
    · rfl
    · exact Function.update_of_ne h.1 _ _

/-- Under distinct keys every element finds its own value. -/
theorem foldl_write {l : List α} (h : (l.map key).Nodup) {a : α} (ha : a ∈ l) (s : κ → υ) :
    l.foldl (write skip key value) s (key a) = if skip a then s (key a) else value a := by
  induction l generalizing s with
  | nil => cases ha
  | cons b rest ih =>
    rw [List.map_cons, List.nodup_cons] at h
    rw [List.foldl_cons]
    rcases List.mem_cons.mp ha with rfl | ha
    · rw [foldl_write_of_notMem h.1, write]
      split
      · rfl
      · exact Function.update_self _ _ _
    · have hne : key a ≠ key b := fun heq ↦ h.1 (heq ▸ List.mem_map_of_mem ha)
      have hsame : write skip key value s b (key a) = s (key a) := by
        rw [write]
        split
        · rfl
        · exact Function.update_of_ne hne _ _
      rw [ih h.2 ha, hsame]

end Writes

end Stateful

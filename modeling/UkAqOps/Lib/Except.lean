import Mathlib.Data.List.Forall2
import Mathlib.Data.List.Perm.Basic

/-!
# Computations that may throw

How a successful `Except` computation splits into its steps, and how a successful `mapM` relates
its input list to its output list.
-/

namespace Except

variable {ε α β σ : Type}

theorem bind_eq_ok_iff {x : Except ε α} {f : α → Except ε β} {b : β} :
    (x >>= f) = .ok b ↔ ∃ a, x = .ok a ∧ f a = .ok b := by
  cases x <;> simp [bind, Except.bind]

theorem ok_bind (a : α) (f : α → Except ε β) : (Except.ok a >>= f) = f a := rfl

theorem map_eq_ok_iff {x : Except ε α} {f : α → β} {b : β} :
    (f <$> x) = .ok b ↔ ∃ a, x = .ok a ∧ f a = b := by
  cases x <;> simp [Functor.map, Except.map]

theorem mapError_eq_ok_iff {ε' : Type*} {x : Except ε α} {f : ε → ε'} {a : α} :
    x.mapError f = .ok a ↔ x = .ok a := by
  rcases x with e | b <;> simp [Except.mapError]

theorem toOption_eq_some_iff {x : Except ε α} {a : α} : x.toOption = some a ↔ x = .ok a := by
  cases x <;> simp [Except.toOption]

@[simp] theorem pure_eq_ok_iff {a b : α} : (pure a : Except ε α) = .ok b ↔ a = b := by
  simp [pure, Except.pure]

/-- `if (p) throw e`. -/
def refuseIf (p : Prop) [Decidable p] (e : ε) : Except ε Unit := if p then .error e else .ok ()

@[simp] theorem refuseIf_eq_ok_iff {p : Prop} [Decidable p] {e : ε} {u : Unit} :
    refuseIf p e = .ok u ↔ ¬p := by
  rw [refuseIf]
  by_cases hp : p
  · rw [if_pos hp]
    exact ⟨fun h ↦ (nomatch h), fun h ↦ absurd hp h⟩
  · rw [if_neg hp]
    exact ⟨fun _ ↦ hp, fun _ ↦ rfl⟩

theorem refuseIf_neg {p : Prop} [Decidable p] {e : ε} (h : ¬p) : refuseIf p e = .ok () := if_neg h

theorem mapM_eq_ok_iff (f : α → Except ε β) (l : List α) (r : List β) :
    l.mapM f = .ok r ↔ List.Forall₂ (fun a b ↦ f a = .ok b) l r := by
  induction l generalizing r with
  | nil => cases r <;> simp
  | cons a rest ih =>
    rw [List.mapM_cons, bind_eq_ok_iff]
    constructor
    · rintro ⟨b, hb, hrest⟩
      obtain ⟨bs, hbs, hcat⟩ := bind_eq_ok_iff.mp hrest
      rw [← pure_eq_ok_iff.mp hcat]
      exact List.Forall₂.cons hb ((ih bs).mp hbs)
    · rintro (_ | ⟨hb, hbs⟩)
      exact ⟨_, hb, bind_eq_ok_iff.mpr ⟨_, (ih _).mpr hbs, rfl⟩⟩

theorem exists_mapM_eq_ok_iff (f : α → Except ε β) (l : List α) :
    (∃ r, l.mapM f = .ok r) ↔ ∀ a ∈ l, ∃ b, f a = .ok b := by
  induction l with
  | nil => simp
  | cons a rest ih =>
    rw [List.forall_mem_cons, ← ih]
    constructor
    · rintro ⟨r, hr⟩
      rw [List.mapM_cons] at hr
      obtain ⟨b, hb, hrest⟩ := bind_eq_ok_iff.mp hr
      obtain ⟨bs, hbs, -⟩ := bind_eq_ok_iff.mp hrest
      exact ⟨⟨b, hb⟩, ⟨bs, hbs⟩⟩
    · rintro ⟨⟨b, hb⟩, ⟨bs, hbs⟩⟩
      exact ⟨b :: bs, by rw [List.mapM_cons, hb, hbs]; rfl⟩

/-- Every input of a successful `mapM` has its output in the result. -/
theorem exists_output_of_mem {f : α → Except ε β} {l : List α} {r : List β}
    (h : l.mapM f = .ok r) {a : α} (ha : a ∈ l) : ∃ b ∈ r, f a = .ok b := by
  have hrel := (mapM_eq_ok_iff f l r).mp h
  induction hrel with
  | nil => exact absurd ha List.not_mem_nil
  | cons hab hrest ih =>
    rcases List.mem_cons.mp ha with rfl | ha
    · exact ⟨_, List.mem_cons_self, hab⟩
    · obtain ⟨b, hb, hf⟩ := ih ((mapM_eq_ok_iff f _ _).mpr hrest) ha
      exact ⟨b, List.mem_cons_of_mem _ hb, hf⟩

/-- Every output of a successful `mapM` comes from an input. -/
theorem exists_input_of_mem {f : α → Except ε β} {l : List α} {r : List β}
    (h : l.mapM f = .ok r) {b : β} (hb : b ∈ r) : ∃ a ∈ l, f a = .ok b := by
  have hrel := (mapM_eq_ok_iff f l r).mp h
  induction hrel with
  | nil => exact absurd hb List.not_mem_nil
  | cons hab hrest ih =>
    rcases List.mem_cons.mp hb with rfl | hb
    · exact ⟨_, List.mem_cons_self, hab⟩
    · obtain ⟨a, ha, hf⟩ := ih ((mapM_eq_ok_iff f _ _).mpr hrest) hb
      exact ⟨a, List.mem_cons_of_mem _ ha, hf⟩

/-- The outputs are the values at the inputs. -/
theorem mem_iff_of_mapM {f : α → Except ε β} {l : List α} {r : List β} (h : l.mapM f = .ok r)
    {b : β} : b ∈ r ↔ ∃ a ∈ l, f a = .ok b := by
  refine ⟨exists_input_of_mem h, ?_⟩
  rintro ⟨a, ha, hb⟩
  obtain ⟨b', hb', hab⟩ := exists_output_of_mem h ha
  rw [Except.ok.inj (hb.symm.trans hab)]
  exact hb'

/-- Selecting before a successful `mapM` is selecting after it. -/
theorem mapM_filter {f : α → Except ε β} {l : List α} {r : List β} (h : l.mapM f = .ok r)
    {p : α → Bool} {q : β → Bool} (hpq : ∀ a b, f a = .ok b → q b = p a) :
    (l.filter p).mapM f = .ok (r.filter q) := by
  have hrel := (mapM_eq_ok_iff f l r).mp h
  rw [mapM_eq_ok_iff]
  clear h
  induction hrel with
  | nil => exact List.Forall₂.nil
  | @cons a b _ _ hab _ ih =>
    by_cases hp : p a = true
    · rw [List.filter_cons_of_pos hp, List.filter_cons_of_pos ((hpq a b hab).trans hp)]
      exact List.Forall₂.cons hab ih
    · rw [List.filter_cons_of_neg hp, List.filter_cons_of_neg (by rw [hpq a b hab]; exact hp)]
      exact ih

/-- Reordering the inputs of a successful `mapM` reorders its outputs. -/
theorem mapM_perm {f : α → Except ε β} {l l' : List α} {r : List β} (h : l.Perm l')
    (hr : l.mapM f = .ok r) : ∃ r', l'.mapM f = .ok r' ∧ r.Perm r' := by
  obtain ⟨r', hrel, hperm⟩ := List.perm_comp_forall₂ h.symm ((mapM_eq_ok_iff f l r).mp hr)
  exact ⟨r', (mapM_eq_ok_iff f l' r').mpr hrel, hperm.symm⟩

/-! ## Loops whose checks do not read the state -/

/-- The loop succeeds when every check does. -/
theorem foldlM_of_forall_ok {check : α → Except ε β} {value : α → β} (update : σ → α → β → σ)
    {l : List α} (h : ∀ a ∈ l, check a = .ok (value a)) (s : σ) :
    l.foldlM (fun s a ↦ update s a <$> check a) s
      = .ok (l.foldl (fun s a ↦ update s a (value a)) s) := by
  induction l generalizing s with
  | nil => rfl
  | cons a rest ih =>
    obtain ⟨ha, hrest⟩ := List.forall_mem_cons.mp h
    rw [List.foldlM_cons, ha]
    exact ih hrest _

theorem exists_ok_of_foldlM {check : α → Except ε β} {update : σ → α → β → σ} {l : List α}
    {s s' : σ} (h : l.foldlM (fun s a ↦ update s a <$> check a) s = .ok s') :
    ∀ a ∈ l, ∃ b, check a = .ok b := by
  induction l generalizing s with
  | nil => simp
  | cons a rest ih =>
    rw [List.foldlM_cons] at h
    obtain ⟨t, ht, hrest⟩ := bind_eq_ok_iff.mp h
    obtain ⟨b, hb, -⟩ := map_eq_ok_iff.mp ht
    exact List.forall_mem_cons.mpr ⟨⟨b, hb⟩, ih hrest⟩

/-! ## Loops with an invariant -/

/-- What holds before a successful loop and is kept by each turn holds behind the loop. -/
theorem foldlM_invariant {f : σ → α → Except ε σ} {l : List α} {s s' : σ}
    {Inv : List α → σ → Prop} (h : l.foldlM f s = .ok s') (hinit : Inv [] s)
    (hstep : ∀ done a rest s s', l = done ++ a :: rest → Inv done s → f s a = .ok s' →
      Inv (done ++ [a]) s') : Inv l s' := by
  have key : ∀ (rest done : List α) (s : σ), l = done ++ rest → Inv done s →
      rest.foldlM f s = .ok s' → Inv l s' := by
    intro rest
    induction rest with
    | nil =>
      intro done s hl hinv hrest
      rw [hl, List.append_nil]
      cases hrest
      exact hinv
    | cons a rest ih =>
      intro done s hl hinv hrest
      rw [List.foldlM_cons] at hrest
      obtain ⟨t, ht, hrest⟩ := bind_eq_ok_iff.mp hrest
      exact ih (done ++ [a]) t (by rw [hl, List.append_assoc]; rfl) (hstep done a rest s t hl hinv ht)
        hrest
  exact key l [] s rfl hinit h

/-- A failed `mapM` has failed on one of its inputs. -/
theorem exists_error_of_mapM {f : α → Except ε β} {l : List α} {e : ε} (h : l.mapM f = .error e) :
    ∃ a ∈ l, f a = .error e := by
  induction l with
  | nil => cases h
  | cons a rest ih =>
    rw [List.mapM_cons] at h
    rcases hstep : f a with e' | b
    · rw [hstep] at h
      exact ⟨a, List.mem_cons_self, hstep.trans (congrArg Except.error (Except.error.inj h))⟩
    · rw [hstep, ok_bind] at h
      rcases hrest : rest.mapM f with e' | r
      · rw [hrest] at h
        obtain ⟨c, hc, herror⟩ := ih (hrest.trans (congrArg Except.error (Except.error.inj h)))
        exact ⟨c, List.mem_cons_of_mem a hc, herror⟩
      · rw [hrest] at h
        cases h

/-- A loop that fails fails in one of its turns. -/
theorem exists_error_of_foldlM {f : σ → α → Except ε σ} {l : List α} {s : σ} {e : ε}
    (h : l.foldlM f s = .error e) : ∃ s', ∃ a ∈ l, f s' a = .error e := by
  induction l generalizing s with
  | nil => cases h
  | cons a rest ih =>
    rw [List.foldlM_cons] at h
    rcases hstep : f s a with e' | t
    · rw [hstep] at h
      exact ⟨s, a, List.mem_cons_self, hstep.trans h⟩
    · rw [hstep, ok_bind] at h
      obtain ⟨s', b, hb, herror⟩ := ih h
      exact ⟨s', b, List.mem_cons_of_mem a hb, herror⟩

end Except

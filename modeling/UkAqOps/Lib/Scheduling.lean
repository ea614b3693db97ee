import Mathlib.Data.List.Nodup
import Mathlib.Data.Finset.Defs
import Mathlib.Data.Set.Finite.List
import Mathlib.Order.WellFounded
import Mathlib.Data.Fintype.Order
import Mathlib.Order.Compare

/-!
# Greedy topological orders

Nodes wait for the nodes they need. A greedy order takes, at every step, the first by a comparator
of the nodes that may come next. Nothing here says how such an order is computed.

A greedy order that is complete is unique, so every way of computing it from the same nodes gives
the same list. A greedy order that cannot go on is complete exactly if no node needs itself, directly
or through others. If no node needs one of higher rank and the comparator compares ranks first, the
ranks along the order never decrease, although the eligible nodes of two steps are not compared.
-/

namespace Scheduling

variable {α : Type*} {nodes nodes' done order order' : List α} {needs : α → α → Prop}
variable {cmp : α → α → Ordering} {a b : α}

/-! ## Greedy orders -/

/-- `a` is waiting, and what it needs is done. -/
structure Eligible (nodes : List α) (needs : α → α → Prop) (done : List α) (a : α) : Prop where
  mem : a ∈ nodes
  waiting : a ∉ done
  ready : ∀ b ∈ nodes, needs a b → b ∈ done

/-- Every node of the order was eligible in its turn, and a first one of those that were. -/
def Greedy (cmp : α → α → Ordering) (nodes : List α) (needs : α → α → Prop) (order : List α) :
    Prop :=
  ∀ done a rest, order = done ++ a :: rest →
    Eligible nodes needs done a ∧ ∀ b, Eligible nodes needs done b → (cmp a b).isLE

theorem greedy_nil : Greedy cmp nodes needs [] := by
  intro done a rest h
  simp at h

/-- **Step.** A greedy order goes on with a first eligible node. -/
theorem Greedy.snoc (h : Greedy cmp nodes needs order) (ha : Eligible nodes needs order a)
    (hfirst : ∀ b, Eligible nodes needs order b → (cmp a b).isLE) :
    Greedy cmp nodes needs (order ++ [a]) := by
  intro done c rest hsplit
  rcases List.eq_nil_or_concat rest with rfl | ⟨rest', d, rfl⟩
  · obtain ⟨rfl, hc⟩ := List.append_inj' hsplit rfl
    rw [← List.singleton_inj.mp hc]
    exact ⟨ha, hfirst⟩
  · rw [List.concat_eq_append, ← List.cons_append, ← List.append_assoc] at hsplit
    obtain ⟨hsplit, -⟩ := List.append_inj' hsplit rfl
    exact h done c rest' hsplit

theorem Greedy.subset (h : Greedy cmp nodes needs order) (ha : a ∈ order) : a ∈ nodes := by
  obtain ⟨done, rest, hsplit⟩ := List.append_of_mem ha
  exact (h done a rest hsplit).1.mem

theorem Greedy.nodup (h : Greedy cmp nodes needs order) : order.Nodup := by
  refine List.nodup_iff_forall_not_duplicate.mpr fun a hdup ↦ ?_
  obtain ⟨done, rest, hsplit, ha⟩ : ∃ done rest, order = done ++ a :: rest ∧ a ∈ done := by
    clear h
    induction hdup with
    | cons_mem hmem =>
      obtain ⟨l, r, rfl⟩ := List.append_of_mem hmem
      exact ⟨a :: l, r, rfl, List.mem_cons_self⟩
    | cons_duplicate _ ih =>
      obtain ⟨l, r, rfl, hl⟩ := ih
      exact ⟨_ :: l, r, rfl, List.mem_cons_of_mem _ hl⟩
  exact (h done a rest hsplit).1.waiting ha

/-- A complete greedy order permutes the nodes. -/
theorem Greedy.perm (h : Greedy cmp nodes needs order) (hnodes : nodes.Nodup)
    (hall : ∀ a ∈ nodes, a ∈ order) : order.Perm nodes :=
  (List.perm_ext_iff_of_nodup h.nodup hnodes).mpr fun a ↦ ⟨h.subset, hall a⟩

/-! ## Counting down -/

section Counting

variable {σ : Type*} [DecidableEq α] {waiting : α → Prop}
variable {Tracks : σ → (α → ℤ) → Prop} {release : σ → α → σ}

/-- A state tracks counts, and releasing a waiting node takes one off its count. Releasing several
takes one off the count of each. -/
theorem foldl_release
    (hstep : ∀ state count a, Tracks state count → waiting a → 0 < count a →
      Tracks (release state a) fun b ↦ if b = a then count b - 1 else count b) :
    ∀ (released : List α) (state : σ) (count : α → ℤ), Tracks state count → released.Nodup →
      (∀ a ∈ released, waiting a ∧ 0 < count a) →
      Tracks (released.foldl release state) fun b ↦ if b ∈ released then count b - 1 else count b := by
  intro released
  induction released with
  | nil =>
    intro state count h _ _
    simpa using h
  | cons a rest ih =>
    intro state count h hnodup hreleased
    rw [List.nodup_cons] at hnodup
    obtain ⟨⟨hwaiting, hpos⟩, hrest⟩ := List.forall_mem_cons.mp hreleased
    have hfold := ih _ _ (hstep state count a h hwaiting hpos) hnodup.2 fun b hb ↦ by
      have hne : b ≠ a := fun hba ↦ hnodup.1 (hba ▸ hb)
      rw [if_neg hne]
      exact hrest b hb
    rw [List.foldl_cons]
    convert hfold using 2 with b
    by_cases hb : b = a
    · subst hb
      rw [if_pos List.mem_cons_self, if_neg hnodup.1, if_pos rfl]
    · rw [if_neg hb, if_congr (by rw [List.mem_cons, or_iff_right hb]) rfl rfl]

end Counting

/-! ## Uniqueness -/

theorem Eligible.congr (h : ∀ a, a ∈ nodes ↔ a ∈ nodes') (ha : Eligible nodes needs done a) :
    Eligible nodes' needs done a :=
  ⟨(h a).mp ha.mem, ha.waiting, fun b hb hab ↦ ha.ready b ((h b).mpr hb) hab⟩

theorem Greedy.congr (h : ∀ a, a ∈ nodes ↔ a ∈ nodes') (horder : Greedy cmp nodes needs order) :
    Greedy cmp nodes' needs order := fun done a rest hsplit ↦
  have hstep := horder done a rest hsplit
  ⟨hstep.1.congr h, fun b hb ↦ hstep.2 b (hb.congr fun a ↦ (h a).symm)⟩

theorem eq_of_greedy_append
    (hanti : ∀ a ∈ nodes, ∀ b ∈ nodes, (cmp a b).isLE → (cmp b a).isLE → a = b) :
    ∀ (rest rest' done : List α), Greedy cmp nodes needs (done ++ rest) →
      Greedy cmp nodes needs (done ++ rest') → (∀ a ∈ nodes, a ∈ done ++ rest) →
      (∀ a ∈ nodes, a ∈ done ++ rest') → rest = rest' := by
  intro rest
  induction rest with
  | nil =>
    intro rest' done _ h' hall _
    rcases rest' with _ | ⟨b, rest'⟩
    · rfl
    · have hb := (h' done b rest' rfl).1
      exact absurd (List.append_nil done ▸ hall b hb.mem) hb.waiting
  | cons a rest ih =>
    intro rest' done h h' hall hall'
    have ha := h done a rest rfl
    rcases rest' with _ | ⟨b, rest'⟩
    · exact absurd (List.append_nil done ▸ hall' a ha.1.mem) ha.1.waiting
    · -- both orders took a first one of the same eligible nodes
      have hb := h' done b rest' rfl
      have hab := hanti a ha.1.mem b hb.1.mem (ha.2 b hb.1) (hb.2 a ha.1)
      subst hab
      rw [List.append_cons] at h h' hall hall'
      rw [ih rest' (done ++ [a]) h h' hall hall']

/-- **A complete greedy order is unique.** -/
theorem Greedy.eq (h : Greedy cmp nodes needs order) (h' : Greedy cmp nodes needs order')
    (hanti : ∀ a ∈ nodes, ∀ b ∈ nodes, (cmp a b).isLE → (cmp b a).isLE → a = b)
    (hall : ∀ a ∈ nodes, a ∈ order) (hall' : ∀ a ∈ nodes, a ∈ order') : order = order' :=
  eq_of_greedy_append hanti order order' [] h h' hall hall'

/-! ## Completeness -/

/-- `a` needs `b`, and both are nodes. -/
def Edge (nodes : List α) (needs : α → α → Prop) (a b : α) : Prop :=
  a ∈ nodes ∧ b ∈ nodes ∧ needs a b

/-- No node needs itself, directly or through others. -/
def Acyclic (nodes : List α) (needs : α → α → Prop) : Prop :=
  ∀ a, ¬Relation.TransGen (Edge nodes needs) a a

/-- What a node needs, directly or through others, comes before it. -/
theorem Greedy.mem_of_transGen (h : Greedy cmp nodes needs order)
    (hab : Relation.TransGen (Edge nodes needs) a b) {rest : List α}
    (hsplit : order = done ++ a :: rest) : b ∈ done := by
  induction hab with
  | single hab => exact (h done a rest hsplit).1.ready _ hab.2.1 hab.2.2
  | tail _ hbc ih =>
    obtain ⟨l, r, rfl⟩ := List.append_of_mem ih
    rw [List.append_assoc, List.cons_append] at hsplit
    exact List.mem_append_left _ ((h l _ _ hsplit).1.ready _ hbc.2.1 hbc.2.2)

theorem Greedy.acyclic (h : Greedy cmp nodes needs order) (hall : ∀ a ∈ nodes, a ∈ order) :
    Acyclic nodes needs := by
  intro a hcycle
  have ha : a ∈ nodes := by
    obtain ⟨b, hab, -⟩ := Relation.TransGen.head'_iff.mp hcycle
    exact hab.1
  obtain ⟨done, rest, hsplit⟩ := List.append_of_mem (hall a ha)
  exact (h done a rest hsplit).1.waiting (h.mem_of_transGen hcycle hsplit)

/-- Without cycles, an order that cannot go on is complete. -/
theorem mem_of_stuck (hacyclic : Acyclic nodes needs)
    (hstuck : ∀ a, ¬Eligible nodes needs order a) (ha : a ∈ nodes) : a ∈ order := by
  have hfinite : Finite {a // a ∈ nodes} := List.finite_toSet nodes
  let below : {a // a ∈ nodes} → {a // a ∈ nodes} → Prop := fun b a ↦
    Relation.TransGen (Edge nodes needs) a.1 b.1
  have htrans : IsTrans _ below := ⟨fun _ _ _ hab hbc ↦ hbc.trans hab⟩
  have hirrefl : Std.Irrefl below := ⟨fun a ↦ hacyclic a.1⟩
  have hwf : WellFounded below := Finite.wellFounded_of_trans_of_irrefl below
  -- a node that is left has, among those it needs, one that is left as well
  have hall : ∀ a : {a // a ∈ nodes}, a.1 ∈ order := by
    intro a
    induction a using hwf.induction with
    | _ a ih =>
      by_contra hleft
      refine hstuck a.1 ⟨a.2, hleft, fun b hb hab ↦ ?_⟩
      exact ih ⟨b, hb⟩ (Relation.TransGen.single ⟨a.2, hb, hab⟩)
  exact hall ⟨a, ha⟩

/-- **A greedy order that cannot go on is complete exactly if there is no cycle.** -/
theorem Greedy.complete_iff (h : Greedy cmp nodes needs order)
    (hstuck : ∀ a, ¬Eligible nodes needs order a) :
    (∀ a ∈ nodes, a ∈ order) ↔ Acyclic nodes needs :=
  ⟨h.acyclic, fun hacyclic _ ha ↦ mem_of_stuck hacyclic hstuck ha⟩

/-! ## Ranks -/

/-- **Ranks never decrease along a greedy order.** -/
theorem Greedy.rank_le {rank : α → ℕ} (h : Greedy cmp nodes needs order)
    (hcmp : ∀ a b, (cmp a b).isLE → rank a ≤ rank b)
    (hneeds : ∀ a ∈ nodes, ∀ b ∈ nodes, needs a b → rank b ≤ rank a) :
    ∀ (between done rest : List α) (b : α), order = done ++ a :: between ++ b :: rest →
      rank a ≤ rank b := by
  intro between
  -- a lower `b` was not eligible when `a` was taken, so it needs a lower node between the two
  induction hlength : between.length using Nat.strongRecOn generalizing between with
  | ind n ih =>
    intro done rest b hsplit
    by_contra hlt
    have hb := h (done ++ a :: between) b rest hsplit
    have ha := h done a (between ++ b :: rest) (by rw [hsplit]; simp)
    have hwaiting : b ∉ done := fun hbd ↦ hb.1.waiting (List.mem_append_left _ hbd)
    obtain ⟨c, hc, hbc, hcd⟩ : ∃ c ∈ nodes, needs b c ∧ c ∉ done := by
      by_contra hnone
      push Not at hnone
      exact hlt (hcmp a b (ha.2 b ⟨hb.1.mem, hwaiting, hnone⟩))
    have hrank := hneeds b hb.1.mem c hc hbc
    rcases List.mem_append.mp (hb.1.ready c hc hbc) with hcd' | hcd'
    · exact hcd hcd'
    · rcases List.mem_cons.mp hcd' with rfl | hcbetween
      · exact hlt hrank
      · obtain ⟨l, r, rfl⟩ := List.append_of_mem hcbetween
        refine hlt (le_trans (ih l.length ?_ l rfl done (r ++ b :: rest) c ?_) hrank)
        · rw [← hlength, List.length_append, List.length_cons]
          omega
        · rw [hsplit]
          simp

theorem Greedy.pairwise_rank {rank : α → ℕ} (h : Greedy cmp nodes needs order)
    (hcmp : ∀ a b, (cmp a b).isLE → rank a ≤ rank b)
    (hneeds : ∀ a ∈ nodes, ∀ b ∈ nodes, needs a b → rank b ≤ rank a) :
    order.Pairwise fun a b ↦ rank a ≤ rank b := by
  refine List.pairwise_iff_forall_sublist.mpr fun {a b} hsub ↦ ?_
  obtain ⟨done, rest, hsplit, hb⟩ : ∃ done rest, order = done ++ a :: rest ∧ b ∈ rest := by
    have hpair : ([a] ++ [b]).Sublist order := hsub
    obtain ⟨l, r, rfl, hl, hr⟩ := List.append_sublist_iff.mp hpair
    obtain ⟨done, rest, rfl⟩ := List.append_of_mem (List.singleton_sublist.mp hl)
    exact ⟨done, rest ++ r, by simp, List.mem_append_right _ (List.singleton_sublist.mp hr)⟩
  obtain ⟨between, rest', rfl⟩ := List.append_of_mem hb
  exact h.rank_le hcmp hneeds between done rest' b (by rw [hsplit]; simp)

end Scheduling

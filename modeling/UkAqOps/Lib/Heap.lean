import Mathlib.Data.List.Perm.Basic
import Mathlib.Order.Compare

/-!
# Binary heaps

A priority queue in a list: the children of position `i` are at `2 * i + 1` and `2 * i + 2`, and no
entry comes before its parent. Both sifts carry a hole along, the place where the entry `x` that is
being placed would go, and move the entry in their way into it.

What a sift needs of the order is that the pairs off the hole are in order and that `x` fits on the
side it does not move to; a move keeps this, and where the sift stops `x` fits on the other side as
well. `MinHeap` bundles the list with its order.
-/

namespace Heap

variable {α : Type*}

/-! ## The sifts -/

/-- Place `x` at the hole or above it. -/
def siftUp (cmp : α → α → Ordering) (x : α) (l : List α) (hole : ℕ) : List α :=
  if hole = 0 then l.set hole x
  else match l[(hole - 1) / 2]? with
    | none => l.set hole x
    | some parent =>
      if (cmp parent x).isLE then l.set hole x
      else siftUp cmp x (l.set hole parent) ((hole - 1) / 2)
termination_by hole
decreasing_by omega

/-- The child of a position that comes first, with its place. -/
def leastChild (cmp : α → α → Ordering) (l : List α) (i : ℕ) : Option (ℕ × α) :=
  match l[2 * i + 1]? with
  | none => none
  | some left =>
    match l[2 * i + 2]? with
    | none => some (2 * i + 1, left)
    | some right => if cmp right left = .lt then some (2 * i + 2, right) else some (2 * i + 1, left)

theorem leastChild_spec {cmp : α → α → Ordering} {l : List α} {i j : ℕ} {c : α}
    (h : leastChild cmp l i = some (j, c)) :
    (j = 2 * i + 1 ∨ j = 2 * i + 2) ∧ l[j]? = some c := by
  rw [leastChild] at h
  split at h
  · cases h
  · rename_i left hleft
    split at h
    · obtain ⟨rfl, rfl⟩ := Prod.mk.inj (Option.some.inj h)
      exact ⟨Or.inl rfl, hleft⟩
    · rename_i right hright
      split at h
      · obtain ⟨rfl, rfl⟩ := Prod.mk.inj (Option.some.inj h)
        exact ⟨Or.inr rfl, hright⟩
      · obtain ⟨rfl, rfl⟩ := Prod.mk.inj (Option.some.inj h)
        exact ⟨Or.inl rfl, hleft⟩

/-- Place `x` at the hole or below it. -/
def siftDown (cmp : α → α → Ordering) (x : α) (l : List α) (hole : ℕ) : List α :=
  match _h : leastChild cmp l hole with
  | none => l.set hole x
  | some (child, c) =>
    if (cmp x c).isLE then l.set hole x
    else siftDown cmp x (l.set hole c) child
termination_by l.length - hole
decreasing_by
  obtain ⟨hchild, hc⟩ := leastChild_spec _h
  have hlt := (List.getElem?_eq_some_iff.mp hc).1
  rw [List.length_set]
  omega

/-! ## The sifts permute -/

/-- What is left of a list outside a hole does not change when an entry moves into the hole. -/
theorem eraseIdx_set_perm {l : List α} {hole i : ℕ} {c : α} (hhole : hole < l.length)
    (hi : l[i]? = some c) (hne : i ≠ hole) :
    ((l.set hole c).eraseIdx i).Perm (l.eraseIdx hole) := by
  have hset : (l.set hole c)[i]? = some c := by
    rw [List.getElem?_set_ne hne.symm]
    exact hi
  obtain ⟨hlt, hget⟩ := List.getElem?_eq_some_iff.mp hset
  have hcons := List.getElem_cons_eraseIdx_perm hlt
  rw [hget] at hcons
  exact (hcons.trans (List.set_perm_cons_eraseIdx hhole c)).cons_inv

theorem siftUp_perm (cmp : α → α → Ordering) (x : α) {l : List α} {hole : ℕ}
    (h : hole < l.length) : (siftUp cmp x l hole).Perm (x :: l.eraseIdx hole) := by
  induction l, hole using siftUp.induct cmp x with
  | case1 l =>
    rw [siftUp, if_pos rfl]
    exact List.set_perm_cons_eraseIdx h x
  | case2 l hole hne hnone =>
    rw [siftUp, if_neg hne, hnone]
    exact List.set_perm_cons_eraseIdx h x
  | case3 l hole hne parent hparent hle =>
    rw [siftUp, if_neg hne, hparent]
    dsimp only
    rw [if_pos hle]
    exact List.set_perm_cons_eraseIdx h x
  | case4 l hole hne parent hparent hle ih =>
    rw [siftUp, if_neg hne, hparent]
    dsimp only
    rw [if_neg hle]
    refine (ih (by rw [List.length_set]; omega)).trans ?_
    exact (eraseIdx_set_perm h hparent (by omega)).cons x

theorem siftDown_of_stop {cmp : α → α → Ordering} {x : α} {l : List α} {hole : ℕ}
    (h : ∀ j c, leastChild cmp l hole = some (j, c) → (cmp x c).isLE) :
    siftDown cmp x l hole = l.set hole x := by
  rw [siftDown]
  split
  · rfl
  · rename_i child c hchild
    rw [if_pos (h child c hchild)]

theorem siftDown_of_move {cmp : α → α → Ordering} {x : α} {l : List α} {hole child : ℕ} {c : α}
    (hchild : leastChild cmp l hole = some (child, c)) (h : ¬(cmp x c).isLE) :
    siftDown cmp x l hole = siftDown cmp x (l.set hole c) child := by
  rw [siftDown]
  split
  · rename_i hnone
    rw [hchild] at hnone
    cases hnone
  · rename_i child' c' hchild'
    rw [hchild] at hchild'
    obtain ⟨rfl, rfl⟩ := Prod.mk.inj (Option.some.inj hchild')
    rw [if_neg h]

theorem siftDown_perm (cmp : α → α → Ordering) (x : α) {l : List α} {hole : ℕ}
    (h : hole < l.length) : (siftDown cmp x l hole).Perm (x :: l.eraseIdx hole) := by
  induction l, hole using siftDown.induct cmp x with
  | case1 l hole hnone =>
    rw [siftDown_of_stop fun j c hchild ↦ by rw [hnone] at hchild; cases hchild]
    exact List.set_perm_cons_eraseIdx h x
  | case2 l hole child c hchild hle =>
    rw [siftDown_of_stop fun j c' hchild' ↦ by
      rw [hchild] at hchild'
      obtain ⟨rfl, rfl⟩ := Prod.mk.inj (Option.some.inj hchild')
      exact hle]
    exact List.set_perm_cons_eraseIdx h x
  | case3 l hole child c hchild hle ih =>
    obtain ⟨hplace, hc⟩ := leastChild_spec hchild
    have hlt := (List.getElem?_eq_some_iff.mp hc).1
    rw [siftDown_of_move hchild hle]
    refine (ih (by rw [List.length_set]; exact hlt)).trans ?_
    exact (eraseIdx_set_perm h hc (by omega)).cons x

/-! ## Order -/

section Order

variable {cmp : α → α → Ordering}

/-- No entry comes before its parent. -/
def IsHeap (cmp : α → α → Ordering) (l : List α) : Prop :=
  ∀ i a b, 0 < i → l[i]? = some a → l[(i - 1) / 2]? = some b → (cmp b a).isLE

/-- The pairs that do not touch the hole are in order, and so are those around it. -/
structure OrderedOff (cmp : α → α → Ordering) (l : List α) (hole : ℕ) : Prop where
  off : ∀ i a b, 0 < i → i ≠ hole → (i - 1) / 2 ≠ hole → l[i]? = some a →
    l[(i - 1) / 2]? = some b → (cmp b a).isLE
  across : ∀ i a b, 0 < hole → 0 < i → (i - 1) / 2 = hole → l[i]? = some a →
    l[(hole - 1) / 2]? = some b → (cmp b a).isLE

/-- `x` fits under the parent of the hole. -/
def FitsBelow (cmp : α → α → Ordering) (x : α) (l : List α) (hole : ℕ) : Prop :=
  ∀ b, 0 < hole → l[(hole - 1) / 2]? = some b → (cmp b x).isLE

/-- `x` fits over the children of the hole. -/
def FitsAbove (cmp : α → α → Ordering) (x : α) (l : List α) (hole : ℕ) : Prop :=
  ∀ i a, 0 < i → (i - 1) / 2 = hole → l[i]? = some a → (cmp x a).isLE

theorem isHeap_set {x : α} {l : List α} {hole : ℕ} (h : OrderedOff cmp l hole)
    (hbelow : FitsBelow cmp x l hole) (habove : FitsAbove cmp x l hole) :
    IsHeap cmp (l.set hole x) := by
  intro i a b hi ha hb
  by_cases hhole : i = hole
  · subst hhole
    rw [List.getElem?_set_ne (by omega)] at hb
    have hlt : i < l.length := by simpa using (List.getElem?_eq_some_iff.mp ha).1
    rw [List.getElem?_set_self hlt] at ha
    rw [← Option.some.inj ha]
    exact hbelow b hi hb
  · rw [List.getElem?_set_ne (Ne.symm hhole)] at ha
    by_cases hparent : (i - 1) / 2 = hole
    · have hlt : hole < l.length := by
        have := (List.getElem?_eq_some_iff.mp ha).1
        omega
      rw [hparent, List.getElem?_set_self hlt] at hb
      rw [← Option.some.inj hb]
      exact habove i a hi hparent ha
    · rw [List.getElem?_set_ne (Ne.symm hparent)] at hb
      exact h.off i a b hi hhole hparent ha hb

variable [Std.TransCmp cmp]

theorem isLE_of_not_isLE {a b : α} (h : ¬(cmp a b).isLE) : (cmp b a).isLE := by
  rw [← Std.OrientedCmp.isGE_iff_isLE]
  cases hab : cmp a b <;> simp_all

/-- Moving the parent into the hole keeps the order off the hole. -/
theorem OrderedOff.moveUp {x parent : α} {l : List α} {hole : ℕ} (h : OrderedOff cmp l hole)
    (hhole : 0 < hole) (hlt : hole < l.length)
    (hparent : l[(hole - 1) / 2]? = some parent) (hle : ¬(cmp parent x).isLE) :
    OrderedOff cmp (l.set hole parent) ((hole - 1) / 2) ∧
      FitsAbove cmp x (l.set hole parent) ((hole - 1) / 2) := by
  have hx : (cmp x parent).isLE := isLE_of_not_isLE hle
  have hset : ∀ i, i ≠ hole → (l.set hole parent)[i]? = l[i]? := fun i hi ↦
    List.getElem?_set_ne hi.symm
  have hself : (l.set hole parent)[hole]? = some parent := List.getElem?_set_self hlt
  have hgrand : ∀ b, 0 < (hole - 1) / 2 → l[((hole - 1) / 2 - 1) / 2]? = some b →
      (cmp b parent).isLE := fun b hpos hb ↦
    h.off _ parent b hpos (by omega) (by omega) hparent hb
  refine ⟨⟨fun i a b hi hne hne' ha hb ↦ ?_, fun i a b hpos hi hchild ha hb ↦ ?_⟩,
    fun i a hi hchild ha ↦ ?_⟩
  · by_cases hih : i = hole
    · exact absurd (congrArg (fun j ↦ (j - 1) / 2) hih) hne'
    · rw [hset i hih] at ha
      by_cases hph : (i - 1) / 2 = hole
      · rw [hph, hself] at hb
        rw [← Option.some.inj hb]
        exact h.across i a parent hhole hi hph ha hparent
      · rw [hset _ hph] at hb
        exact h.off i a b hi hih hph ha hb
  · rw [hset _ (by omega)] at hb
    by_cases hih : i = hole
    · rw [hih, hself] at ha
      rw [← Option.some.inj ha]
      exact hgrand b hpos hb
    · rw [hset i hih] at ha
      have hsib := h.off i a parent hi hih (by omega) ha (by rw [hchild]; exact hparent)
      exact Std.TransCmp.isLE_trans (hgrand b hpos hb) hsib
  · by_cases hih : i = hole
    · rw [hih, hself] at ha
      rw [← Option.some.inj ha]
      exact hx
    · rw [hset i hih] at ha
      have hsib := h.off i a parent hi hih (by omega) ha (by rw [hchild]; exact hparent)
      exact Std.TransCmp.isLE_trans hx hsib

theorem isHeap_siftUp {x : α} {l : List α} {hole : ℕ} (hlt : hole < l.length)
    (h : OrderedOff cmp l hole) (habove : FitsAbove cmp x l hole) :
    IsHeap cmp (siftUp cmp x l hole) := by
  induction l, hole using siftUp.induct cmp x with
  | case1 l =>
    rw [siftUp, if_pos rfl]
    exact isHeap_set h (fun b hpos ↦ absurd hpos (Nat.lt_irrefl 0)) habove
  | case2 l hole hne hnone =>
    rw [siftUp, if_neg hne, hnone]
    refine isHeap_set h (fun b _ hb ↦ ?_) habove
    rw [hnone] at hb
    cases hb
  | case3 l hole hne parent hparent hle =>
    rw [siftUp, if_neg hne, hparent]
    dsimp only
    rw [if_pos hle]
    refine isHeap_set h (fun b _ hb ↦ ?_) habove
    rw [hparent] at hb
    rw [← Option.some.inj hb]
    exact hle
  | case4 l hole hne parent hparent hle ih =>
    rw [siftUp, if_neg hne, hparent]
    dsimp only
    rw [if_neg hle]
    obtain ⟨hoff, habove'⟩ := h.moveUp (by omega) hlt hparent hle
    exact ih (by rw [List.length_set]; omega) hoff habove'

/-- The least child comes before every child. -/
theorem leastChild_isLE {l : List α} {hole child : ℕ} {c : α}
    (h : leastChild cmp l hole = some (child, c)) {i : ℕ} {a : α} (hi : 0 < i)
    (hparent : (i - 1) / 2 = hole) (ha : l[i]? = some a) : (cmp c a).isLE := by
  have hplace : i = 2 * hole + 1 ∨ i = 2 * hole + 2 := by omega
  have hrefl : (cmp a a).isLE := Std.ReflCmp.isLE_rfl
  rw [leastChild] at h
  rcases hleft : l[2 * hole + 1]? with _ | left
  · rw [hleft] at h
    cases h
  rw [hleft] at h
  dsimp only at h
  rcases hright : l[2 * hole + 2]? with _ | right
  · rw [hright] at h
    obtain ⟨-, rfl⟩ := Prod.mk.inj (Option.some.inj h)
    rcases hplace with rfl | rfl
    · rw [← Option.some.inj (hleft.symm.trans ha)] at hrefl ⊢
      exact hrefl
    · rw [hright] at ha
      cases ha
  · rw [hright] at h
    dsimp only at h
    by_cases hlt : cmp right left = .lt
    · rw [if_pos hlt] at h
      obtain ⟨-, rfl⟩ := Prod.mk.inj (Option.some.inj h)
      rcases hplace with rfl | rfl
      · rw [← Option.some.inj (hleft.symm.trans ha), hlt]
        rfl
      · rw [← Option.some.inj (hright.symm.trans ha)] at hrefl ⊢
        exact hrefl
    · rw [if_neg hlt] at h
      obtain ⟨-, rfl⟩ := Prod.mk.inj (Option.some.inj h)
      rcases hplace with rfl | rfl
      · rw [← Option.some.inj (hleft.symm.trans ha)] at hrefl ⊢
        exact hrefl
      · rw [← Option.some.inj (hright.symm.trans ha), ← Std.OrientedCmp.isGE_iff_isLE]
        cases hcmp : cmp right left
        · exact absurd hcmp hlt
        · rfl
        · rfl

omit [Std.TransCmp cmp] in
theorem leastChild_isSome {l : List α} {hole i : ℕ} {a : α} (hi : 0 < i)
    (hparent : (i - 1) / 2 = hole) (ha : l[i]? = some a) : leastChild cmp l hole ≠ none := by
  have hlt := (List.getElem?_eq_some_iff.mp ha).1
  obtain ⟨left, hleft⟩ : ∃ left, l[2 * hole + 1]? = some left :=
    ⟨_, List.getElem?_eq_getElem (show 2 * hole + 1 < l.length by omega)⟩
  intro hnone
  rw [leastChild, hleft] at hnone
  dsimp only at hnone
  split at hnone
  · cases hnone
  · split at hnone <;> cases hnone

/-- Moving the least child into the hole keeps the order off the hole. -/
theorem OrderedOff.moveDown {x c : α} {l : List α} {hole child : ℕ} (h : OrderedOff cmp l hole)
    (hlt : hole < l.length) (hchild : leastChild cmp l hole = some (child, c))
    (hle : ¬(cmp x c).isLE) :
    OrderedOff cmp (l.set hole c) child ∧ FitsBelow cmp x (l.set hole c) child := by
  obtain ⟨hplace, hc⟩ := leastChild_spec hchild
  have hset : ∀ i, i ≠ hole → (l.set hole c)[i]? = l[i]? := fun i hi ↦
    List.getElem?_set_ne hi.symm
  have hself : (l.set hole c)[hole]? = some c := List.getElem?_set_self hlt
  have hparent : (child - 1) / 2 = hole := by omega
  refine ⟨⟨fun i a b hi hne hne' ha hb ↦ ?_, fun i a b hpos hi hgrand ha hb ↦ ?_⟩,
    fun b hpos hb ↦ ?_⟩
  · by_cases hih : i = hole
    · rw [hih, hself] at ha
      rw [hih, hset _ (by omega)] at hb
      rw [← Option.some.inj ha]
      exact h.across child c b (by omega) (by omega) hparent hc hb
    · rw [hset i hih] at ha
      by_cases hph : (i - 1) / 2 = hole
      · rw [hph, hself] at hb
        rw [← Option.some.inj hb]
        exact leastChild_isLE hchild hi hph ha
      · rw [hset _ hph] at hb
        exact h.off i a b hi hih hph ha hb
  · rw [hset i (by omega)] at ha
    rw [hparent, hself] at hb
    rw [← Option.some.inj hb]
    exact h.off i a c hi (by omega) (by omega) ha (by rw [hgrand]; exact hc)
  · rw [hparent, hself] at hb
    rw [← Option.some.inj hb]
    exact isLE_of_not_isLE hle

theorem isHeap_siftDown {x : α} {l : List α} {hole : ℕ} (hlt : hole < l.length)
    (h : OrderedOff cmp l hole) (hbelow : FitsBelow cmp x l hole) :
    IsHeap cmp (siftDown cmp x l hole) := by
  induction l, hole using siftDown.induct cmp x with
  | case1 l hole hnone =>
    rw [siftDown_of_stop fun j c hchild ↦ by rw [hnone] at hchild; cases hchild]
    exact isHeap_set h hbelow fun i a hi hparent ha ↦
      absurd hnone (leastChild_isSome hi hparent ha)
  | case2 l hole child c hchild hle =>
    rw [siftDown_of_stop fun j c' hchild' ↦ by
      rw [hchild] at hchild'
      obtain ⟨rfl, rfl⟩ := Prod.mk.inj (Option.some.inj hchild')
      exact hle]
    exact isHeap_set h hbelow fun i a hi hparent ha ↦
      Std.TransCmp.isLE_trans hle (leastChild_isLE hchild hi hparent ha)
  | case3 l hole child c hchild hle ih =>
    rw [siftDown_of_move hchild hle]
    obtain ⟨hoff, hbelow'⟩ := h.moveDown hlt hchild hle
    refine ih ?_ hoff hbelow'
    rw [List.length_set]
    exact (List.getElem?_eq_some_iff.mp (leastChild_spec hchild).2).1

/-- The root of a heap comes first. -/
theorem IsHeap.root_isLE {l : List α} (h : IsHeap cmp l) {m : α} (hm : l[0]? = some m) {i : ℕ}
    {a : α} (ha : l[i]? = some a) : (cmp m a).isLE := by
  induction i using Nat.strongRecOn generalizing a with
  | ind i ih =>
    by_cases hi : i = 0
    · subst hi
      rw [← Option.some.inj (hm.symm.trans ha)]
      exact Std.ReflCmp.isLE_rfl
    · have hlt := (List.getElem?_eq_some_iff.mp ha).1
      obtain ⟨b, hb⟩ : ∃ b, l[(i - 1) / 2]? = some b :=
        ⟨_, List.getElem?_eq_getElem (show (i - 1) / 2 < l.length by omega)⟩
      exact Std.TransCmp.isLE_trans (ih _ (by omega) hb) (h i a b (by omega) ha hb)

end Order

end Heap

/-! ## Heaps -/

/-- A list whose entries are in heap order. -/
structure MinHeap {α : Type*} (cmp : α → α → Ordering) where
  entries : List α
  isHeap : Heap.IsHeap cmp entries

namespace MinHeap

open Heap

variable {α : Type*} {cmp : α → α → Ordering}

def empty : MinHeap cmp := ⟨[], fun _ _ _ _ h ↦ by cases h⟩

def size (heap : MinHeap cmp) : ℕ := heap.entries.length

variable [Std.TransCmp cmp]

/-- Append an entry and sift it up. -/
def push (heap : MinHeap cmp) (x : α) : MinHeap cmp where
  entries := siftUp cmp x (heap.entries ++ [x]) heap.entries.length
  isHeap := by
    refine isHeap_siftUp (by simp) ⟨fun i a b hi hne hne' ha hb ↦ ?_, ?_⟩ ?_
    · have hlt := (List.getElem?_eq_some_iff.mp ha).1
      rw [List.length_append, List.length_singleton] at hlt
      rw [List.getElem?_append_left (by omega)] at ha
      rw [List.getElem?_append_left (by omega)] at hb
      exact heap.isHeap i a b hi ha hb
    · intro i a b hpos hi hparent ha
      have hlt := (List.getElem?_eq_some_iff.mp ha).1
      rw [List.length_append, List.length_singleton] at hlt
      omega
    · intro i a hi hparent ha
      have hlt := (List.getElem?_eq_some_iff.mp ha).1
      rw [List.length_append, List.length_singleton] at hlt
      omega

theorem push_perm (heap : MinHeap cmp) (x : α) :
    (heap.push x).entries.Perm (x :: heap.entries) := by
  refine (siftUp_perm cmp x (by simp)).trans ?_
  rw [List.eraseIdx_append_of_length_le (Nat.le_refl _)]
  simp

/-- Take the root; the last entry is sifted down from its place. -/
def pop (heap : MinHeap cmp) : Option (α × MinHeap cmp) :=
  match h : heap.entries with
  | [] => none
  | minimum :: rest =>
    if hrest : rest = [] then some (minimum, empty)
    else some (minimum,
      { entries := siftDown cmp (rest.getLast hrest) (minimum :: rest).dropLast 0
        isHeap := by
          have hlength : 0 < (minimum :: rest).dropLast.length := by
            rw [List.length_dropLast, List.length_cons]
            have := List.length_pos_of_ne_nil hrest
            omega
          have hget : ∀ (i : ℕ) (a : α), (minimum :: rest).dropLast[i]? = some a →
              heap.entries[i]? = some a := by
            intro i a ha
            rw [h]
            have hlt := (List.getElem?_eq_some_iff.mp ha).1
            rw [← ha, List.getElem?_dropLast, if_pos (by simpa using hlt)]
          refine isHeap_siftDown hlength ⟨?_, ?_⟩ ?_
          · intro i a b hi _ _ ha hb
            exact heap.isHeap i a b hi (hget i a ha) (hget _ b hb)
          · intro i a b hpos
            exact absurd hpos (Nat.lt_irrefl 0)
          · intro b hpos
            exact absurd hpos (Nat.lt_irrefl 0) })

/-- The last entry, put in place of the first, stands for the ones behind the first. -/
theorem getLast_cons_eraseIdx_perm {m : α} {rest : List α} (hrest : rest ≠ []) :
    (rest.getLast hrest :: (m :: rest).dropLast.eraseIdx 0).Perm rest := by
  rw [List.dropLast_cons_of_ne_nil hrest, List.eraseIdx_cons_zero]
  have hsplit := List.dropLast_append_getLast hrest
  calc (rest.getLast hrest :: rest.dropLast).Perm (rest.dropLast ++ [rest.getLast hrest]) :=
        (List.perm_append_singleton _ _).symm
    _ = rest := hsplit

/-- **Popping takes a first entry and leaves the others.** -/
theorem pop_spec {heap heap' : MinHeap cmp} {m : α} (h : heap.pop = some (m, heap')) :
    heap.entries.Perm (m :: heap'.entries) ∧ ∀ a ∈ heap.entries, (cmp m a).isLE := by
  rw [pop] at h
  split at h
  · cases h
  · rename_i minimum rest hentries
    have hroot : ∀ a ∈ heap.entries, (cmp minimum a).isLE := by
      intro a ha
      obtain ⟨i, hi⟩ := List.mem_iff_getElem?.mp ha
      exact heap.isHeap.root_isLE (by rw [hentries]; rfl) hi
    split at h
    · rename_i hrest
      obtain ⟨rfl, rfl⟩ := Prod.mk.inj (Option.some.inj h)
      refine ⟨?_, hroot⟩
      rw [hentries, hrest]
      exact List.Perm.refl _
    · rename_i hrest
      obtain ⟨rfl, rfl⟩ := Prod.mk.inj (Option.some.inj h)
      refine ⟨?_, hroot⟩
      have hlength : 0 < (minimum :: rest).dropLast.length := by
        rw [List.length_dropLast, List.length_cons]
        exact List.length_pos_of_ne_nil hrest
      have hrestored := (siftDown_perm cmp (rest.getLast hrest) hlength).trans
        (getLast_cons_eraseIdx_perm hrest)
      exact (List.Perm.of_eq hentries).trans (hrestored.cons minimum).symm

theorem pop_eq_none_iff {heap : MinHeap cmp} : heap.pop = none ↔ heap.entries = [] := by
  constructor
  · intro h
    rw [pop] at h
    split at h
    · assumption
    · split at h <;> cases h
  · intro h
    rw [pop]
    split
    · rfl
    · rename_i minimum rest hentries
      rw [h] at hentries
      cases hentries

end MinHeap

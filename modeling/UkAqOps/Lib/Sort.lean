import Mathlib.Data.List.Chain
import Mathlib.Data.List.Sort
import Mathlib.Order.Compare

/-!
# Sorting by a comparator

`Array.prototype.sort(compare)` is stable, so for a comparator that is a total preorder its result
is the one that insertion sort gives. A list that is strictly sorted is determined by its members.
-/

namespace Sorting

variable {α : Type*} {cmp : α → α → Ordering}

/-! ## Comparators -/

/-- Compare by a key. -/
theorem transCmp_on {β : Type*} {cmp : β → β → Ordering} (h : Std.TransCmp cmp) (f : α → β) :
    Std.TransCmp fun a b ↦ cmp (f a) (f b) where
  eq_swap := h.eq_swap
  isLE_trans := h.isLE_trans

/-- Compare by one comparator, then by another. -/
theorem transCmp_then {cmp cmp' : α → α → Ordering} (h : Std.TransCmp cmp)
    (h' : Std.TransCmp cmp') : Std.TransCmp fun a b ↦ (cmp a b).then (cmp' a b) :=
  inferInstanceAs (Std.TransCmp (compareLex cmp cmp'))

theorem isLE_compare_iff {β : Type*} [LinearOrder β] {a b : β} :
    (compare a b).isLE = true ↔ a ≤ b := by
  rw [← compare_le_iff_le, Ordering.isLE_iff_ne_gt]

/-! ## Sorting -/

/-- The stable sort of a list by a comparator. -/
def sortBy (cmp : α → α → Ordering) (l : List α) : List α := l.insertionSort fun a b ↦ (cmp a b).isLE

theorem sortBy_perm (l : List α) : (sortBy cmp l).Perm l := List.perm_insertionSort _ l

@[simp] theorem mem_sortBy {l : List α} {a : α} : a ∈ sortBy cmp l ↔ a ∈ l :=
  (sortBy_perm l).mem_iff

theorem nodup_sortBy {l : List α} : (sortBy cmp l).Nodup ↔ l.Nodup := (sortBy_perm l).nodup_iff

theorem pairwise_sortBy [Std.TransCmp cmp] (l : List α) :
    (sortBy cmp l).Pairwise fun a b ↦ (cmp a b).isLE := by
  have htotal : Std.Total fun a b ↦ ((cmp a b).isLE = true) := ⟨fun a b ↦ by
    by_cases h : (cmp a b).isLE = true
    · exact Or.inl h
    · exact Or.inr (Std.OrientedCmp.isGE_iff_isLE.mp (by cases hab : cmp a b <;> simp_all))⟩
  have htrans : IsTrans α fun a b ↦ ((cmp a b).isLE = true) := ⟨fun _ _ _ ↦ Std.TransCmp.isLE_trans⟩
  exact List.pairwise_insertionSort _ l

/-- Comparators that agree on the elements sort them alike. -/
theorem sortBy_congr {cmp' : α → α → Ordering} {l : List α}
    (h : ∀ a ∈ l, ∀ b ∈ l, (cmp a b).isLE = (cmp' a b).isLE) : sortBy cmp l = sortBy cmp' l := by
  have hinsert : ∀ (a : α) (l : List α), (∀ b ∈ l, (cmp a b).isLE = (cmp' a b).isLE) →
      l.orderedInsert (fun a b ↦ (cmp a b).isLE) a = l.orderedInsert (fun a b ↦ (cmp' a b).isLE) a := by
    intro a l
    induction l with
    | nil => exact fun _ ↦ rfl
    | cons b l ih =>
      intro hb
      rw [List.orderedInsert_cons, List.orderedInsert_cons, hb b List.mem_cons_self,
        ih fun c hc ↦ hb c (List.mem_cons_of_mem b hc)]
  induction l with
  | nil => rfl
  | cons a l ih =>
    have hrest : sortBy cmp l = sortBy cmp' l := ih fun b hb c hc ↦
      h b (List.mem_cons_of_mem a hb) c (List.mem_cons_of_mem a hc)
    rw [sortBy, sortBy, List.insertionSort_cons, List.insertionSort_cons, ← sortBy, ← sortBy, hrest]
    refine hinsert a _ fun b hb ↦ ?_
    exact h a List.mem_cons_self b (List.mem_cons_of_mem a ((sortBy_perm l).mem_iff.mp hb))

/-- Sorting forgets the order, if only equal elements compare as equal. -/
theorem sortBy_eq_of_perm [Std.TransCmp cmp] {l l' : List α} (h : l.Perm l')
    (heq : ∀ a ∈ l, ∀ b ∈ l, cmp a b = .eq → a = b) : sortBy cmp l = sortBy cmp l' := by
  have hperm : (sortBy cmp l).Perm (sortBy cmp l') :=
    (sortBy_perm l).trans (h.trans (sortBy_perm l').symm)
  refine hperm.eq_of_pairwise (fun a b ha hb hab hba ↦ ?_) (pairwise_sortBy l) (pairwise_sortBy l')
  refine heq a (mem_sortBy.mp ha) b (h.mem_iff.mpr (mem_sortBy.mp hb)) ?_
  exact Std.OrientedCmp.isLE_antisymm hab hba

/-- Sorting looks at what the comparator reads alone. -/
theorem sortBy_map {β : Type*} {cmp' : β → β → Ordering} (f : α → β)
    (h : ∀ a b, cmp' (f a) (f b) = cmp a b) (l : List α) :
    sortBy cmp' (l.map f) = (sortBy cmp l).map f :=
  (List.map_insertionSort (fun a b ↦ (cmp a b).isLE = true) (fun a b ↦ (cmp' a b).isLE = true) f l
    fun a _ b _ ↦ by rw [h a b]).symm

/-- **Sorting keeps the order of what is left**: leaving elements out of a sorted list is sorting the
others. -/
theorem filter_sortBy [Std.TransCmp cmp] (p : α → Bool) (l : List α) :
    (sortBy cmp l).filter p = sortBy cmp (l.filter p) := by
  have hfirst : ∀ (a : α) (l : List α), (∀ b ∈ l, (cmp a b).isLE) →
      l.orderedInsert (fun a b ↦ (cmp a b).isLE) a = a :: l := by
    intro a l h
    rcases l with _ | ⟨b, l⟩
    · rfl
    · rw [List.orderedInsert_cons, if_pos (h b List.mem_cons_self)]
  have hinsert : ∀ (a : α) (l : List α), l.Pairwise (fun a b ↦ (cmp a b).isLE) →
      (l.orderedInsert (fun a b ↦ (cmp a b).isLE) a).filter p
        = if p a then (l.filter p).orderedInsert (fun a b ↦ (cmp a b).isLE) a else l.filter p := by
    intro a l hl
    induction l with
    | nil => rw [List.orderedInsert_nil, List.filter_cons, List.filter_nil, List.orderedInsert_nil]
    | cons b l ih =>
      obtain ⟨hb, hl⟩ := List.pairwise_cons.mp hl
      rw [List.orderedInsert_cons]
      by_cases hle : (cmp a b).isLE
      · rw [if_pos hle, List.filter_cons]
        by_cases hp : p a = true
        · have hall : ∀ c ∈ (b :: l).filter p, (cmp a c).isLE := by
            intro c hc
            rcases List.mem_cons.mp (List.mem_filter.mp hc).1 with rfl | hc
            · exact hle
            · exact Std.TransCmp.isLE_trans hle (hb c hc)
          rw [if_pos hp, if_pos hp, hfirst a _ hall]
        · rw [if_neg hp, if_neg hp]
      · rw [if_neg hle, List.filter_cons, ih hl, List.filter_cons]
        by_cases hp : p a = true
        · by_cases hpb : p b = true
          · rw [if_pos hp, if_pos hp, if_pos hpb, if_pos hpb, List.orderedInsert_cons, if_neg hle]
          · rw [if_pos hp, if_pos hp, if_neg hpb, if_neg hpb]
        · rw [if_neg hp, if_neg hp]
  induction l with
  | nil => rfl
  | cons a l ih =>
    have hcons : ∀ l : List α, sortBy cmp (a :: l)
        = (sortBy cmp l).orderedInsert (fun a b ↦ (cmp a b).isLE) a := fun l ↦ rfl
    rw [hcons, hinsert a _ (pairwise_sortBy l), ih, List.filter_cons]
    split
    · exact (hcons _).symm
    · rfl

/-- Sorting a sorted list changes nothing. -/
theorem sortBy_sortBy [Std.TransCmp cmp] (l : List α) : sortBy cmp (sortBy cmp l) = sortBy cmp l :=
  List.Pairwise.insertionSort_eq (pairwise_sortBy l)

/-- A list in order of a key, no two neighbours of which have one key, is strictly in order. -/
theorem pairwise_lt_of_isChain_ne {β : Type*} [LinearOrder β] {key : α → β} {l : List α}
    (hle : l.Pairwise fun a b ↦ key a ≤ key b) (hne : (l.map key).IsChain (· ≠ ·)) :
    l.Pairwise fun a b ↦ key a < key b := by
  induction l with
  | nil => exact List.Pairwise.nil
  | cons a rest ih =>
    obtain ⟨hfirst, hrest⟩ := List.pairwise_cons.mp hle
    rw [List.map_cons, List.isChain_cons] at hne
    refine List.pairwise_cons.mpr ⟨fun b hb ↦ ?_, ih hrest hne.2⟩
    rcases rest with _ | ⟨c, rest⟩
    · exact absurd hb List.not_mem_nil
    · have hac : key a < key c := lt_of_le_of_ne (hfirst c List.mem_cons_self) (hne.1 (key c) rfl)
      rcases List.mem_cons.mp hb with rfl | hb
      · exact hac
      · exact hac.trans_le ((List.pairwise_cons.mp hrest).1 b hb)

/-- Elements of which no two compare equal are sorted strictly. -/
theorem pairwise_lt_sortBy [Std.TransCmp cmp] {l : List α} (h : l.Pairwise fun a b ↦ cmp a b ≠ .eq) :
    (sortBy cmp l).Pairwise fun a b ↦ cmp a b = .lt := by
  have hne : (sortBy cmp l).Pairwise fun a b ↦ cmp a b ≠ .eq := by
    refine h.perm (sortBy_perm l).symm fun hab hba ↦ hab ?_
    exact Std.OrientedCmp.eq_symm hba
  refine (pairwise_sortBy l).imp₂ (fun a b hle hab ↦ ?_) hne
  cases hcmp : cmp a b
  · rfl
  · exact absurd hcmp hab
  · rw [hcmp] at hle
    cases hle

/-- **A strictly sorted list is determined by its members.** -/
theorem eq_of_mem_iff {r : α → α → Prop} (hr : ∀ a b, r a b → ¬r b a) {l l' : List α}
    (hl : l.Pairwise r) (hl' : l'.Pairwise r) (h : ∀ a, a ∈ l ↔ a ∈ l') : l = l' := by
  have hne : ∀ {a b : α}, r a b → a ≠ b := by
    rintro a b hab rfl
    exact hr a a hab hab
  refine List.Perm.eq_of_pairwise (fun a b _ _ hab hba ↦ absurd hba (hr a b hab)) hl hl' ?_
  exact (List.perm_ext_iff_of_nodup (hl.imp hne) (hl'.imp hne)).mpr h

/-- If what comes before an element that satisfies `p` satisfies it too, the longest such prefix
holds every element that satisfies it. -/
theorem takeWhile_eq_filter {p : α → Bool} {l : List α}
    (h : l.Pairwise fun a b ↦ p b = true → p a = true) : l.takeWhile p = l.filter p := by
  induction l with
  | nil => rfl
  | cons a rest ih =>
    rw [List.pairwise_cons] at h
    by_cases ha : p a = true
    · rw [List.takeWhile_cons_of_pos ha, List.filter_cons_of_pos ha, ih h.2]
    · rw [List.takeWhile_cons_of_neg ha, List.filter_cons_of_neg ha, eq_comm,
        List.filter_eq_nil_iff]
      exact fun b hb hpb ↦ ha (h.1 b hb hpb)

/-- The longest prefix of a strictly sorted list whose elements satisfy `p`. -/
theorem mem_takeWhile_iff {r : α → α → Prop} (hr : ∀ a b, r a b → ¬r b a) {p : α → Bool}
    {l : List α} (hl : l.Pairwise r) {a : α} :
    a ∈ l.takeWhile p ↔ a ∈ l ∧ p a = true ∧ ∀ b ∈ l, r b a → p b = true := by
  induction l with
  | nil => simp
  | cons x rest ih =>
    obtain ⟨hx, hrest⟩ := List.pairwise_cons.mp hl
    by_cases hp : p x = true
    · rw [List.takeWhile_cons_of_pos hp, List.mem_cons, List.mem_cons, ih hrest]
      constructor
      · rintro (rfl | ⟨ha, hpa, hall⟩)
        · refine ⟨Or.inl rfl, hp, fun b hb hba ↦ ?_⟩
          rcases List.mem_cons.mp hb with rfl | hb
          · exact hp
          · exact absurd hba (hr a b (hx b hb))
        · refine ⟨Or.inr ha, hpa, fun b hb hba ↦ ?_⟩
          rcases List.mem_cons.mp hb with rfl | hb
          · exact hp
          · exact hall b hb hba
      · rintro ⟨rfl | ha, hpa, hall⟩
        · exact Or.inl rfl
        · exact Or.inr ⟨ha, hpa, fun b hb ↦ hall b (List.mem_cons_of_mem _ hb)⟩
    · rw [List.takeWhile_cons_of_neg hp]
      refine ⟨fun h ↦ absurd h List.not_mem_nil, ?_⟩
      rintro ⟨ha, hpa, hall⟩
      rcases List.mem_cons.mp ha with rfl | ha
      · exact absurd hpa hp
      · exact absurd (hall x List.mem_cons_self (hx a ha)) hp

/-- Of the elements with distinct keys, one is picked by its key. -/
theorem filter_eq_singleton {β : Type*} {key : α → β} {l : List α} {p : α → Bool} {a : α}
    (hl : l.Pairwise fun b c ↦ key b ≠ key c) (ha : a ∈ l)
    (hp : ∀ b, p b = true ↔ key b = key a) : l.filter p = [a] := by
  induction l with
  | nil => cases ha
  | cons b rest ih =>
    obtain ⟨hb, hrest⟩ := List.pairwise_cons.mp hl
    rcases List.mem_cons.mp ha with rfl | ha
    · rw [List.filter_cons_of_pos ((hp a).mpr rfl), List.filter_eq_nil_iff.mpr]
      exact fun c hc hpc ↦ hb c hc ((hp c).mp hpc).symm
    · rw [List.filter_cons_of_neg, ih hrest ha]
      exact fun hpb ↦ hb a ha ((hp b).mp hpb)

/-- Sorting a list whose elements compare as the members of a strictly sorted list gives that
list. -/
theorem sortBy_eq_of_mem_iff [Std.TransCmp cmp] {l l' : List α}
    (hl : l.Pairwise fun a b ↦ cmp a b ≠ .eq) (hl' : l'.Pairwise fun a b ↦ cmp a b = .lt)
    (h : ∀ a, a ∈ l ↔ a ∈ l') : sortBy cmp l = l' :=
  eq_of_mem_iff (r := fun a b ↦ cmp a b = .lt) (fun _ _ ↦ Std.OrientedCmp.not_lt_of_lt)
    (pairwise_lt_sortBy hl) hl'
    fun a ↦ mem_sortBy.trans (h a)

/-- What is kept of a list without its repetitions has none. -/
theorem nodup_eraseDups [BEq α] [LawfulBEq α] (l : List α) : l.eraseDups.Nodup := by
  induction h : l.length using Nat.strong_induction_on generalizing l with
  | _ n ih =>
    rcases l with _ | ⟨a, rest⟩
    · simp
    · rw [List.eraseDups_cons, List.nodup_cons]
      refine ⟨fun hmem ↦ ?_, ih _ ?_ _ rfl⟩
      · have hne := List.of_mem_filter (List.mem_eraseDups.mp hmem)
        simp at hne
      · rw [← h, List.length_cons]
        exact Nat.lt_succ_of_le (List.length_filter_le _ _)

end Sorting

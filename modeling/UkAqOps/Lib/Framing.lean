import Mathlib.Data.List.Basic
import Mathlib.Data.List.Sort

/-!
# Lines in any order

A collection is written as its lines in sorted order, each with a terminator behind it that no line
holds. The text determines the sorted lines, and these determine the lines up to their order.
-/

namespace Framing

variable {α : Type*}

/-- The lines one after another, each with its terminator. -/
def framed (terminator : α) (lines : List (List α)) : List α :=
  lines.flatMap fun line ↦ line ++ [terminator]

theorem framed_cons (terminator : α) (line : List α) (lines : List (List α)) :
    framed terminator (line :: lines) = line ++ terminator :: framed terminator lines := by
  rw [framed, List.flatMap_cons, List.append_assoc, List.singleton_append]
  rfl

/-- A text has no two readings at its first terminator. -/
theorem append_cons_inj_of_notMem {terminator : α} {x y rest rest' : List α} (hx : terminator ∉ x)
    (hy : terminator ∉ y) (h : x ++ terminator :: rest = y ++ terminator :: rest') :
    x = y ∧ rest = rest' := by
  induction x generalizing y with
  | nil =>
    rcases y with _ | ⟨b, y⟩
    · exact ⟨rfl, (List.cons.inj h).2⟩
    · exact absurd ((List.cons.inj h).1 ▸ List.mem_cons_self) hy
  | cons a x ih =>
    rcases y with _ | ⟨b, y⟩
    · exact absurd ((List.cons.inj h).1 ▸ List.mem_cons_self) hx
    · obtain ⟨hhead, htail⟩ := List.cons.inj h
      obtain ⟨hline, hrest⟩ := ih (fun hmem ↦ hx (List.mem_cons_of_mem a hmem))
        (fun hmem ↦ hy (List.mem_cons_of_mem b hmem)) htail
      exact ⟨by rw [hhead, hline], hrest⟩

/-- **The lines can be read back.** -/
theorem framed_injective {terminator : α} {lines lines' : List (List α)}
    (hlines : ∀ line ∈ lines, terminator ∉ line) (hlines' : ∀ line ∈ lines', terminator ∉ line)
    (h : framed terminator lines = framed terminator lines') : lines = lines' := by
  induction lines generalizing lines' with
  | nil =>
    rcases lines' with _ | ⟨line', lines'⟩
    · rfl
    · rw [framed_cons] at h
      exact absurd h.symm (List.append_ne_nil_of_right_ne_nil _ (List.cons_ne_nil _ _))
  | cons line lines ih =>
    rcases lines' with _ | ⟨line', lines'⟩
    · rw [framed_cons] at h
      exact absurd h (List.append_ne_nil_of_right_ne_nil _ (List.cons_ne_nil _ _))
    · rw [framed_cons, framed_cons] at h
      obtain ⟨hline, hrest⟩ := append_cons_inj_of_notMem (hlines line List.mem_cons_self)
        (hlines' line' List.mem_cons_self) h
      rw [hline, ih (fun l hl ↦ hlines l (List.mem_cons_of_mem line hl))
        (fun l hl ↦ hlines' l (List.mem_cons_of_mem line' hl)) hrest]

/-- What stands between separators is a separator or in a piece. -/
theorem mem_or_exists_of_mem_intercalate {separator : List α} {pieces : List (List α)} {a : α}
    (h : a ∈ List.intercalate separator pieces) :
    a ∈ separator ∨ ∃ piece ∈ pieces, a ∈ piece := by
  induction pieces with
  | nil => exact absurd h (by simp [List.intercalate])
  | cons piece pieces ih =>
    rcases pieces with _ | ⟨piece', pieces⟩
    · exact Or.inr ⟨piece, List.mem_cons_self, by simpa [List.intercalate] using h⟩
    · rw [List.intercalate_cons_cons, List.mem_append, List.mem_append] at h
      rcases h with (hpiece | hseparator) | hrest
      · exact Or.inr ⟨piece, List.mem_cons_self, hpiece⟩
      · exact Or.inl hseparator
      · rcases ih hrest with hseparator | ⟨q, hq, hmem⟩
        · exact Or.inl hseparator
        · exact Or.inr ⟨q, List.mem_cons_of_mem piece hq, hmem⟩

/-! ## Sorting -/

section MergeSort

variable {le : α → α → Bool}

/-- **Sorting forgets the order and nothing else.** -/
theorem mergeSort_eq_iff_perm (htotal : ∀ a b, (le a b || le b a) = true)
    (htrans : ∀ a b c, le a b = true → le b c = true → le a c = true)
    (hantisymm : ∀ a b, le a b = true → le b a = true → a = b) {l l' : List α} :
    l.mergeSort le = l'.mergeSort le ↔ l.Perm l' := by
  constructor
  · intro h
    exact (List.mergeSort_perm l le).symm.trans (h ▸ List.mergeSort_perm l' le)
  · intro h
    have hperm : (l.mergeSort le).Perm (l'.mergeSort le) :=
      (List.mergeSort_perm l le).trans (h.trans (List.mergeSort_perm l' le).symm)
    exact hperm.eq_of_pairwise (fun a b _ _ hab hba ↦ hantisymm a b hab hba)
      (List.pairwise_mergeSort htrans htotal l) (List.pairwise_mergeSort htrans htotal l')

end MergeSort

end Framing

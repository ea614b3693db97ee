import Mathlib.Data.List.Basic
import Mathlib.Data.List.TakeWhile

/-!
# Cutting lists

A list is cut into chunks of a fixed size, of which only the last may be shorter, or into the runs
of neighbours with one key. Both put together give the list again; and chunks are what any cut into
even pieces is, so that the size alone tells where the cuts were.
-/

namespace Cutting

variable {α κ : Type*}

/-! ## Chunks -/

/-- Pieces of `n` entries from the front. -/
def chunks (n : ℕ) (l : List α) : List (List α) :=
  if n = 0 ∨ l = [] then [] else l.take n :: chunks n (l.drop n)
termination_by l.length
decreasing_by
  rename_i h
  have hpos := List.length_pos_iff.mpr (not_or.mp h).2
  rw [List.length_drop]
  omega

theorem chunks_nil (n : ℕ) : chunks n ([] : List α) = [] := by
  rw [chunks, if_pos (Or.inr rfl)]

theorem chunks_of_ne_nil {n : ℕ} (hn : 0 < n) {l : List α} (hl : l ≠ []) :
    chunks n l = l.take n :: chunks n (l.drop n) := by
  rw [chunks, if_neg (not_or.mpr ⟨Nat.pos_iff_ne_zero.mp hn, hl⟩)]

/-- Nothing is lost in the cutting. -/
theorem flatten_chunks {n : ℕ} (hn : 0 < n) (l : List α) : (chunks n l).flatten = l := by
  induction l using chunks.induct n with
  | case1 l h =>
    rw [h.resolve_left (Nat.pos_iff_ne_zero.mp hn), chunks_nil, List.flatten_nil]
  | case2 l h ih =>
    rw [chunks_of_ne_nil hn (not_or.mp h).2, List.flatten_cons, ih, List.take_append_drop]

theorem mem_chunks {n : ℕ} (hn : 0 < n) {l chunk : List α} (h : chunk ∈ chunks n l) :
    chunk ≠ [] ∧ chunk.length ≤ n ∧ ∀ a ∈ chunk, a ∈ l := by
  induction l using chunks.induct n with
  | case1 l hl =>
    rw [hl.resolve_left (Nat.pos_iff_ne_zero.mp hn), chunks_nil] at h
    cases h
  | case2 l hl ih =>
    rw [chunks_of_ne_nil hn (not_or.mp hl).2] at h
    rcases List.mem_cons.mp h with rfl | h
    · have hpos := List.length_pos_iff.mpr (not_or.mp hl).2
      refine ⟨?_, List.length_take_le _ _, fun a ha ↦ List.mem_of_mem_take ha⟩
      rw [← List.length_pos_iff, List.length_take]
      exact Nat.lt_min.mpr ⟨hn, hpos⟩
    · obtain ⟨hne, hle, hmem⟩ := ih h
      exact ⟨hne, hle, fun a ha ↦ List.mem_of_mem_drop (hmem a ha)⟩

/-- A cut into pieces of `n` entries, of which only the last may have fewer. -/
structure Even (n : ℕ) (pieces : List (List α)) : Prop where
  full : ∀ piece ∈ pieces.dropLast, piece.length = n
  le : ∀ piece ∈ pieces, piece.length ≤ n
  ne_nil : ∀ piece ∈ pieces, piece ≠ []

/-- **An even cut is the cut into chunks of its size.** -/
theorem chunks_flatten {n : ℕ} (hn : 0 < n) {pieces : List (List α)} (h : Even n pieces) :
    chunks n pieces.flatten = pieces := by
  induction pieces with
  | nil => exact chunks_nil n
  | cons piece rest ih =>
    have hpiece := h.ne_nil piece List.mem_cons_self
    have hne : (piece :: rest).flatten ≠ [] := by
      rw [List.flatten_cons]
      exact List.append_ne_nil_of_left_ne_nil hpiece _
    rcases rest with _ | ⟨next, rest⟩
    · have hshort := h.le piece List.mem_cons_self
      rw [chunks_of_ne_nil hn hne]
      simp only [List.flatten_cons, List.flatten_nil, List.append_nil]
      rw [List.take_of_length_le hshort, List.drop_of_length_le hshort, chunks_nil]
    · have hfull := h.full piece (by rw [List.dropLast_cons_cons]; exact List.mem_cons_self)
      have hrest : Even n (next :: rest) :=
        { full := fun p hp ↦ h.full p (by rw [List.dropLast_cons_cons]; exact List.mem_cons_of_mem _ hp)
          le := fun p hp ↦ h.le p (List.mem_cons_of_mem _ hp)
          ne_nil := fun p hp ↦ h.ne_nil p (List.mem_cons_of_mem _ hp) }
      rw [chunks_of_ne_nil hn hne, List.flatten_cons, List.take_left' hfull, List.drop_left' hfull,
        ih hrest]

/-! ## Runs -/

/-- The runs of neighbours that have the key of the first of them. -/
def runs [DecidableEq κ] (key : α → κ) : List α → List (List α)
  | [] => []
  | a :: rest => (a :: rest.takeWhile (key · = key a)) :: runs key (rest.dropWhile (key · = key a))
termination_by l => l.length
decreasing_by
  rw [List.length_cons]
  exact Nat.lt_succ_of_le (List.dropWhile_sublist _).length_le

theorem flatten_runs [DecidableEq κ] (key : α → κ) (l : List α) : (runs key l).flatten = l := by
  induction l using runs.induct key with
  | case1 => rw [runs, List.flatten_nil]
  | case2 a rest ih =>
    rw [runs, List.flatten_cons, ih, List.cons_append, List.takeWhile_append_dropWhile]

/-- The entries of a run have one key. -/
theorem key_eq_of_mem_runs [DecidableEq κ] {key : α → κ} {l run : List α} (h : run ∈ runs key l) :
    ∀ a ∈ run, ∀ b ∈ run, key a = key b := by
  induction l using runs.induct key with
  | case1 =>
    rw [runs] at h
    cases h
  | case2 first rest ih =>
    rw [runs] at h
    rcases List.mem_cons.mp h with rfl | h
    · have hfirst : ∀ a ∈ first :: rest.takeWhile (key · = key first), key a = key first := by
        intro a ha
        rcases List.mem_cons.mp ha with rfl | ha
        · rfl
        · exact of_decide_eq_true (List.all_eq_true.mp List.all_takeWhile a ha)
      exact fun a ha b hb ↦ (hfirst a ha).trans (hfirst b hb).symm
    · exact ih h

end Cutting

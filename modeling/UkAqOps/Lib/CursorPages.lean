import Mathlib.Data.List.Basic
import Mathlib.Order.Basic
import Mathlib.Order.Lattice
import Mathlib.Order.Nat

/-!
# Reading in pages behind a cursor

A service holds rows in the strict order of their keys and answers with the first of them behind a
cursor. Asking again behind the last row of each full page gives the first rows of the service, and
all of them once a page is not full.
-/

namespace CursorPages

variable {α κ : Type*} [LinearOrder κ]

/-- The rows behind a cursor. -/
def behind (key : α → κ) (cursor : Option κ) (rows : List α) : List α :=
  rows.filter fun a ↦ ∀ c ∈ cursor, c < key a

/-- Fetch so many pages at most, until one is not full; the flag says that there was such a page. -/
def fetch (page : Option κ → List α) (key : α → κ) (limit : ℕ) : ℕ → Option κ → List α × Bool
  | 0, _ => ([], false)
  | turns + 1, cursor =>
    let rows := page cursor
    match rows.getLast? with
    | none => ([], true)
    | some last =>
      if rows.length < limit then (rows, true)
      else
        let later := fetch page key limit turns (some (key last))
        (rows ++ later.1, later.2)

section Pages

variable {key : α → κ} {rows : List α} {cursor : Option κ} {limit : ℕ}

theorem mem_behind {a : α} : a ∈ behind key cursor rows ↔ a ∈ rows ∧ ∀ c ∈ cursor, c < key a := by
  rw [behind, List.mem_filter, decide_eq_true_iff]

theorem pairwise_behind (h : rows.Pairwise fun a b ↦ key a < key b) :
    (behind key cursor rows).Pairwise fun a b ↦ key a < key b := h.filter _

/-- **Behind the last row of a page** are the rows that the page left out. -/
theorem behind_last (h : rows.Pairwise fun a b ↦ key a < key b) {last : α}
    (hlast : ((behind key cursor rows).take limit).getLast? = some last) :
    behind key (some (key last)) rows = (behind key cursor rows).drop limit := by
  set found := behind key cursor rows with hfound
  have hsorted : found.Pairwise fun a b ↦ key a < key b := pairwise_behind h
  obtain ⟨front, hfront⟩ := List.getLast?_eq_some_iff.mp hlast
  have hmem : last ∈ found := by
    refine List.mem_of_mem_take (?_ : last ∈ found.take limit)
    rw [hfront]
    exact List.mem_append_right _ List.mem_cons_self
  have hagain : behind key (some (key last)) rows = behind key (some (key last)) found := by
    rw [hfound, behind, behind, behind, List.filter_filter]
    refine List.filter_congr fun a _ ↦ ?_
    rw [eq_comm, ← Bool.decide_and, decide_eq_decide]
    simp only [Option.mem_some_iff, forall_eq']
    refine ⟨And.left, fun hlt ↦ ⟨hlt, fun c hc ↦ ((mem_behind.mp hmem).2 c hc).trans hlt⟩⟩
  have hsplit : found = (front ++ [last]) ++ found.drop limit := by
    rw [← hfront, List.take_append_drop]
  rw [hagain]
  conv_lhs => rw [hsplit]
  rw [hsplit, List.pairwise_append] at hsorted
  have hnone : behind key (some (key last)) (front ++ [last]) = [] := by
    refine List.filter_eq_nil_iff.mpr fun a ha ↦ ?_
    rw [decide_eq_true_iff]
    intro hlt
    have hlt := hlt (key last) rfl
    rcases List.mem_append.mp ha with ha | ha
    · exact lt_asymm hlt ((List.pairwise_append.mp hsorted.1).2.2 a ha last List.mem_cons_self)
    · rw [List.mem_singleton.mp ha] at hlt
      exact lt_irrefl _ hlt
  have hall : behind key (some (key last)) (found.drop limit) = found.drop limit := by
    refine List.filter_eq_self.mpr fun a ha ↦ decide_eq_true fun c hc ↦ ?_
    rw [← Option.mem_some_iff.mp hc]
    exact hsorted.2.2 last (List.mem_append_right _ List.mem_cons_self) a ha
  rw [behind, List.filter_append, ← behind, ← behind, hnone, hall, List.nil_append]

/-- **The pages together** are the first rows behind the cursor, and all of them if one was not
full. -/
theorem fetch_spec {page : Option κ → List α} {valid : Option κ → Prop} (hlimit : 0 < limit)
    (hsorted : rows.Pairwise fun a b ↦ key a < key b)
    (hpage : ∀ cursor, valid cursor → page cursor = (behind key cursor rows).take limit)
    (hvalid : ∀ a ∈ rows, valid (some (key a))) (turns : ℕ) (hcursor : valid cursor) :
    (fetch page key limit turns cursor).1 = (behind key cursor rows).take (turns * limit) ∧
      ((fetch page key limit turns cursor).2 = true →
        (fetch page key limit turns cursor).1 = behind key cursor rows) := by
  induction turns generalizing cursor with
  | zero =>
    rw [fetch, Nat.zero_mul, List.take_zero]
    exact ⟨rfl, fun h ↦ absurd h Bool.false_ne_true⟩
  | succ turns ih =>
    have hrows := hpage cursor hcursor
    rw [fetch]
    rcases hlast : (page cursor).getLast? with _ | last
    · have hnil : behind key cursor rows = [] := by
        rw [hrows, List.getLast?_eq_none_iff, List.take_eq_nil_iff] at hlast
        exact hlast.resolve_left hlimit.ne'
      dsimp only
      rw [hnil, List.take_nil]
      exact ⟨rfl, fun _ ↦ rfl⟩
    · dsimp only
      rw [hrows] at hlast
      by_cases hshort : (page cursor).length < limit
      · have hall : page cursor = behind key cursor rows := by
          rw [hrows, List.length_take] at hshort
          rw [hrows, List.take_of_length_le (by omega)]
        rw [if_pos hshort, hall]
        rw [hall] at hshort
        refine ⟨(List.take_of_length_le ?_).symm, fun _ ↦ rfl⟩
        exact hshort.le.trans (Nat.le_mul_of_pos_left limit (Nat.succ_pos turns))
      · have hmem : last ∈ rows := by
          obtain ⟨front, hfront⟩ := List.getLast?_eq_some_iff.mp hlast
          refine (mem_behind.mp (List.mem_of_mem_take (?_ :
            last ∈ (behind key cursor rows).take limit))).1
          rw [hfront]
          exact List.mem_append_right _ List.mem_cons_self
        have hlater := ih (hvalid last hmem)
        have hrest := behind_last hsorted hlast
        rw [hrest] at hlater
        rw [if_neg hshort, hrows]
        refine ⟨?_, fun hdone ↦ ?_⟩
        · dsimp only
          rw [hlater.1, Nat.succ_mul, Nat.add_comm (turns * limit), List.take_add]
        · dsimp only at hdone ⊢
          rw [hlater.2 hdone, List.take_append_drop]

end Pages

end CursorPages

import Mathlib.Algebra.BigOperators.Group.List.Basic
import Mathlib.Algebra.GroupWithZero.Nat
import Mathlib.Data.List.Infix

/-!
# Reading pages under an allowance

Pages are fetched one after the other as long as the allowance has a page and a row left. A fetched
page is kept if all its rows still fit; one that does not fit spends what is left. Reading one list of
pages after another with what the first has left over is reading both at once, and what is kept is
what the lists start with.
-/

namespace Allowance

variable {α : Type*} (size : α → ℕ)

/-- What may still be read: a number of pages and a number of rows. -/
structure Left where
  pages : ℕ
  rows : ℕ
deriving DecidableEq

/-- Nothing more is fetched. -/
def Left.Spent (left : Left) : Prop := left.pages = 0 ∨ left.rows = 0

instance (left : Left) : Decidable left.Spent := inferInstanceAs (Decidable (_ ∨ _))

/-- What a fetched page leaves. -/
def Left.after (left : Left) (page : α) : Left :=
  ⟨left.pages - 1, if size page ≤ left.rows then left.rows - size page else 0⟩

/-- The pages that are fetched. -/
def fetched (left : Left) : List α → List α
  | [] => []
  | page :: rest => if left.Spent then [] else page :: fetched (left.after size page) rest

/-- The pages that are kept. -/
def kept (left : Left) : List α → List α
  | [] => []
  | page :: rest =>
    if left.Spent then []
    else if size page ≤ left.rows then page :: kept (left.after size page) rest else []

/-- What is left in the end. -/
def rest (left : Left) : List α → Left
  | [] => left
  | page :: pages => if left.Spent then left else rest (left.after size page) pages

variable {size} {left : Left} {page : α} {l l' : List α}

theorem fetched_of_spent (h : left.Spent) : fetched size left l = [] := by
  rcases l with _ | ⟨page, rest⟩
  · rfl
  · exact if_pos h

theorem kept_of_spent (h : left.Spent) : kept size left l = [] := by
  rcases l with _ | ⟨page, rest⟩
  · rfl
  · exact if_pos h

theorem rest_of_spent (h : left.Spent) : rest size left l = left := by
  rcases l with _ | ⟨page, rest⟩
  · rfl
  · exact if_pos h

theorem fetched_cons (h : ¬left.Spent) :
    fetched size left (page :: l) = page :: fetched size (left.after size page) l := if_neg h

theorem rest_cons (h : ¬left.Spent) :
    rest size left (page :: l) = rest size (left.after size page) l := if_neg h

theorem kept_cons (h : ¬left.Spent) (hfits : size page ≤ left.rows) :
    kept size left (page :: l) = page :: kept size (left.after size page) l := by
  rw [kept, if_neg h, if_pos hfits]

/-- A page that does not fit is not kept, and nothing after it is fetched. -/
theorem spent_after (hfits : ¬size page ≤ left.rows) : (left.after size page).Spent :=
  Or.inr (if_neg hfits)

theorem kept_cons_of_not_le (hfits : ¬size page ≤ left.rows) :
    kept size left (page :: l) = [] := by
  by_cases hspent : left.Spent
  · exact kept_of_spent hspent
  · rw [kept, if_neg hspent, if_neg hfits]

theorem kept_prefix (left : Left) (l : List α) : kept size left l <+: l := by
  induction l generalizing left with
  | nil => exact List.prefix_rfl
  | cons page l ih =>
    rw [kept]
    split
    · exact List.nil_prefix
    · split
      · exact List.cons_prefix_cons.mpr ⟨rfl, ih _⟩
      · exact List.nil_prefix

theorem kept_prefix_fetched (left : Left) (l : List α) :
    kept size left l <+: fetched size left l := by
  induction l generalizing left with
  | nil => exact List.prefix_rfl
  | cons page l ih =>
    by_cases hspent : left.Spent
    · rw [kept_of_spent hspent]
      exact List.nil_prefix
    · by_cases hfits : size page ≤ left.rows
      · rw [kept_cons hspent hfits, fetched_cons hspent]
        exact List.cons_prefix_cons.mpr ⟨rfl, ih _⟩
      · rw [kept_cons_of_not_le hfits]
        exact List.nil_prefix

/-- **No more pages are fetched than the allowance has.** -/
theorem length_fetched_add_le (left : Left) (l : List α) :
    (fetched size left l).length + (rest size left l).pages ≤ left.pages := by
  induction l generalizing left with
  | nil => exact (Nat.zero_add _).le
  | cons page l ih =>
    by_cases hspent : left.Spent
    · rw [fetched_of_spent hspent, rest_of_spent hspent, List.length_nil, Nat.zero_add]
    · rw [fetched_cons hspent, rest_cons hspent, List.length_cons]
      have hle := ih (left.after size page)
      have hpos : left.pages ≠ 0 := fun h ↦ hspent (Or.inl h)
      rw [Left.after] at hle ⊢
      dsimp only at hle
      omega

/-- **No more rows are kept than the allowance has.** -/
theorem sum_kept_add_le (left : Left) (l : List α) :
    ((kept size left l).map size).sum + (rest size left l).rows ≤ left.rows := by
  induction l generalizing left with
  | nil => exact (Nat.zero_add _).le
  | cons page l ih =>
    by_cases hspent : left.Spent
    · rw [kept_of_spent hspent, rest_of_spent hspent, List.map_nil, List.sum_nil, Nat.zero_add]
    · have hle := ih (left.after size page)
      rw [rest_cons hspent]
      by_cases hfits : size page ≤ left.rows
      · rw [kept_cons hspent hfits, List.map_cons, List.sum_cons]
        have hrows : (left.after size page).rows = left.rows - size page := if_pos hfits
        omega
      · rw [kept_cons_of_not_le hfits, rest_of_spent (spent_after hfits), List.map_nil, List.sum_nil,
          Nat.zero_add, Left.after, if_neg hfits]
        exact Nat.zero_le _

theorem fetched_append : fetched size left (l ++ l')
    = fetched size left l ++ fetched size (rest size left l) l' := by
  induction l generalizing left with
  | nil => rfl
  | cons page l ih =>
    by_cases hspent : left.Spent
    · rw [fetched_of_spent hspent, fetched_of_spent hspent, rest_of_spent hspent,
        fetched_of_spent hspent]
      rfl
    · rw [List.cons_append, fetched_cons hspent, fetched_cons hspent, rest_cons hspent, ih]
      rfl

theorem kept_append : kept size left (l ++ l')
    = kept size left l ++ kept size (rest size left l) l' := by
  induction l generalizing left with
  | nil => rfl
  | cons page l ih =>
    by_cases hspent : left.Spent
    · rw [kept_of_spent hspent, kept_of_spent hspent, rest_of_spent hspent, kept_of_spent hspent]
      rfl
    · rw [List.cons_append, rest_cons hspent]
      by_cases hfits : size page ≤ left.rows
      · rw [kept_cons hspent hfits, kept_cons hspent hfits, ih]
        rfl
      · rw [kept_cons_of_not_le hfits, kept_cons_of_not_le hfits,
          rest_of_spent (spent_after hfits), kept_of_spent (spent_after hfits)]
        rfl

theorem rest_append : rest size left (l ++ l') = rest size (rest size left l) l' := by
  induction l generalizing left with
  | nil => rfl
  | cons page l ih =>
    by_cases hspent : left.Spent
    · rw [rest_of_spent hspent, rest_of_spent hspent, rest_of_spent hspent]
    · rw [List.cons_append, rest_cons hspent, rest_cons hspent, ih]

/-- **A page is fetched when there is a page left for it and the rows before it leave one.** -/
theorem mem_fetched_iff : page ∈ fetched size left l ↔
    ∃ k, l[k]? = some page ∧ k < left.pages ∧ ((l.take k).map size).sum < left.rows := by
  induction l generalizing left with
  | nil => simp [fetched]
  | cons first l ih =>
    by_cases hspent : left.Spent
    · rw [fetched_of_spent hspent]
      refine ⟨fun h ↦ absurd h List.not_mem_nil, ?_⟩
      rintro ⟨k, -, hpages, hrows⟩
      rcases hspent with h | h
      · omega
      · omega
    · have hpages : left.pages ≠ 0 := fun h ↦ hspent (Or.inl h)
      have hrows : left.rows ≠ 0 := fun h ↦ hspent (Or.inr h)
      rw [fetched_cons hspent, List.mem_cons, ih]
      constructor
      · rintro (rfl | ⟨k, hk, hlt, hsum⟩)
        · exact ⟨0, rfl, Nat.pos_of_ne_zero hpages, Nat.pos_of_ne_zero hrows⟩
        · refine ⟨k + 1, hk, ?_, ?_⟩
          · rw [Left.after] at hlt
            dsimp only at hlt
            omega
          · rw [List.take_succ_cons, List.map_cons, List.sum_cons]
            rw [Left.after] at hsum
            dsimp only at hsum
            split at hsum <;> omega
      · rintro ⟨k, hk, hlt, hsum⟩
        rcases k with _ | k
        · exact Or.inl (Option.some.inj hk).symm
        · rw [List.take_succ_cons, List.map_cons, List.sum_cons] at hsum
          refine Or.inr ⟨k, hk, ?_, ?_⟩
          · rw [Left.after]
            dsimp only
            omega
          · rw [Left.after]
            dsimp only
            rw [if_pos (by omega)]
            omega

end Allowance

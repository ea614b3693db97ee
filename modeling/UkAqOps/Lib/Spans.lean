import Mathlib.Data.List.Chain
import Mathlib.Data.Set.Lattice
import Mathlib.Order.CompletePartialOrder
import Mathlib.Order.SetNotation

/-!
# Spans

A span starts at a point and ends with a point or not at all. Spans in the order of their starts do
not meet exactly when each one ends before the next one starts, so it is enough to compare
neighbours.
-/

/-- The points from one on, up to a last one or without end. -/
structure Span (τ : Type*) [LinearOrder τ] where
  first : τ
  last : Option τ
  first_le : ∀ t ∈ last, first ≤ t

namespace Span

variable {τ : Type*} [LinearOrder τ]

/-- The points of a span. -/
def points (s : Span τ) : Set τ := {t | s.first ≤ t ∧ ∀ l ∈ s.last, t ≤ l}

/-- A span ends before another starts. -/
def Before (a b : Span τ) : Prop := ∃ l ∈ a.last, l < b.first

instance (a b : Span τ) : Decidable (a.Before b) :=
  decidable_of_iff (a.last.any (· < b.first) = true) (by
    rw [Option.any_eq_true, Before]
    simp only [decide_eq_true_iff, Option.mem_def])

theorem first_mem_points (s : Span τ) : s.first ∈ s.points := ⟨le_rfl, s.first_le⟩

/-- A span that ends before another starts does not start after it. -/
theorem Before.first_lt {a b : Span τ} (h : a.Before b) : a.first < b.first := by
  obtain ⟨l, hl, hlt⟩ := h
  exact (a.first_le l hl).trans_lt hlt

theorem Before.trans {a b c : Span τ} (hab : a.Before b) (hbc : b.Before c) : a.Before c := by
  obtain ⟨l, hl, hlt⟩ := hab
  exact ⟨l, hl, hlt.trans hbc.first_lt⟩

/-- Of two spans the one that starts first ends before the other starts, unless they meet. -/
theorem disjoint_iff {a b : Span τ} (h : a.first ≤ b.first) :
    Disjoint a.points b.points ↔ a.Before b := by
  rw [Set.disjoint_left]
  constructor
  · intro hdisjoint
    have hout : b.first ∉ a.points := fun hmem ↦ hdisjoint hmem b.first_mem_points
    by_contra hbefore
    refine hout ⟨h, fun l hl ↦ not_lt.mp fun hlt ↦ hbefore ⟨l, hl, hlt⟩⟩
  · rintro ⟨l, hl, hlt⟩ t ⟨-, hlast⟩ ⟨hfirst, -⟩
    exact absurd (hfirst.trans (hlast l hl)) (not_le.mpr hlt)

theorem Before.disjoint {a b : Span τ} (h : a.Before b) : Disjoint a.points b.points :=
  (disjoint_iff h.first_lt.le).mpr h

section Lists

variable {α : Type*} {span : α → Span τ} {l : List α}

/-- Neighbours that follow each other make a list that does. -/
theorem pairwise_before_of_isChain (h : l.IsChain fun a b ↦ (span a).Before (span b)) :
    l.Pairwise fun a b ↦ (span a).Before (span b) := by
  have htrans : IsTrans α fun a b ↦ (span a).Before (span b) := ⟨fun _ _ _ ↦ Before.trans⟩
  exact List.isChain_iff_pairwise.mp h

/-- **In a list in the order of the starts, the spans do not meet exactly when each one ends before
the next one starts.** -/
theorem isChain_before_iff (hsorted : l.Pairwise fun a b ↦ (span a).first ≤ (span b).first) :
    l.IsChain (fun a b ↦ (span a).Before (span b)) ↔
      l.Pairwise fun a b ↦ Disjoint (span a).points (span b).points := by
  constructor
  · exact fun h ↦ (pairwise_before_of_isChain h).imp Before.disjoint
  · intro h
    refine List.Pairwise.isChain ((hsorted.and h).imp ?_)
    rintro a b ⟨hle, hdisjoint⟩
    exact (disjoint_iff hle).mp hdisjoint

/-- Of spans that do not meet, the one without end starts last. -/
theorem first_le_of_endless {a b : Span τ} (h : a = b ∨ Disjoint a.points b.points)
    (hendless : a.last = none) : b.first ≤ a.first := by
  rcases h with rfl | h
  · exact le_rfl
  · by_contra hlt
    obtain ⟨t, ht, -⟩ := (disjoint_iff (not_le.mp hlt).le).mp h
    rw [hendless] at ht
    cases ht

/-- At most one span of a list in which each one ends before the next one starts has no end. -/
theorem countP_endless_le (h : l.Pairwise fun a b ↦ (span a).Before (span b)) :
    (l.countP fun a ↦ (span a).last.isNone) ≤ 1 := by
  induction l with
  | nil => exact Nat.zero_le 1
  | cons a rest ih =>
    obtain ⟨hfirst, hrest⟩ := List.pairwise_cons.mp h
    rcases rest with _ | ⟨b, rest⟩
    · exact List.countP_le_length
    · obtain ⟨t, ht, -⟩ := hfirst b List.mem_cons_self
      rw [List.countP_cons_of_neg (by rw [Option.mem_def.mp ht]; simp)]
      exact ih hrest

end Lists

end Span

import Mathlib.Data.List.Pairwise
import Mathlib.Data.List.Sort
import Mathlib.Order.MinMax

/-!
# Merging half-open intervals

Intervals in the order of their starts are merged from the left: one that starts within the current
interval, or where it stops, is taken into it. The result covers the same points, and its intervals
are apart, so that a point lies in one of them at most.
-/

namespace Intervals

variable {τ ρ : Type*} [LinearOrder τ]

/-- From `start` on and before `stop`, with a label. -/
structure Slice (τ ρ : Type*) where
  start : τ
  stop : τ
  label : ρ

/-- The slice covers the point. -/
def Slice.Covers (slice : Slice τ ρ) (t : τ) : Prop := slice.start ≤ t ∧ t < slice.stop

/-- Some slice of the list covers the point. -/
def Covered (slices : List (Slice τ ρ)) (t : τ) : Prop := ∃ slice ∈ slices, slice.Covers t

theorem covered_cons {slice : Slice τ ρ} {slices : List (Slice τ ρ)} {t : τ} :
    Covered (slice :: slices) t ↔ slice.Covers t ∨ Covered slices t := by
  simp only [Covered, List.exists_mem_cons_iff]

theorem covered_append {slices slices' : List (Slice τ ρ)} {t : τ} :
    Covered (slices ++ slices') t ↔ Covered slices t ∨ Covered slices' t := by
  simp only [Covered, List.mem_append, or_and_right, exists_or]

theorem not_covered_nil {t : τ} : ¬Covered ([] : List (Slice τ ρ)) t := by
  rintro ⟨slice, hslice, -⟩
  cases hslice

/-- Merge the slices, in the order of their starts, into `current` as long as they reach it. -/
def mergeFrom (join : ρ → ρ → ρ) (current : Slice τ ρ) : List (Slice τ ρ) → List (Slice τ ρ)
  | [] => [current]
  | next :: rest =>
    if next.start ≤ current.stop then
      mergeFrom join ⟨current.start, max current.stop next.stop, join current.label next.label⟩ rest
    else current :: mergeFrom join next rest

/-- Slices that are proper and apart from each other, in their order. -/
structure Apart (slices : List (Slice τ ρ)) : Prop where
  proper : ∀ slice ∈ slices, slice.start < slice.stop
  apart : slices.Pairwise fun a b ↦ a.stop < b.start

variable {join : ρ → ρ → ρ}

/-- What merging starts with and how it goes on: every slice starts where the first does or later. -/
theorem start_le_of_mem_mergeFrom {current : Slice τ ρ} {rest : List (Slice τ ρ)}
    (hsorted : (current :: rest).Pairwise fun a b ↦ a.start ≤ b.start) :
    ∀ slice ∈ mergeFrom join current rest, current.start ≤ slice.start := by
  induction rest generalizing current with
  | nil =>
    intro slice hslice
    rw [List.mem_singleton.mp hslice]
  | cons next rest ih =>
    obtain ⟨hfirst, hrest⟩ := List.pairwise_cons.mp hsorted
    rw [mergeFrom]
    split
    · refine ih (List.pairwise_cons.mpr ⟨fun b hb ↦ hfirst b (List.mem_cons_of_mem next hb), ?_⟩)
      exact (List.pairwise_cons.mp hrest).2
    · intro slice hslice
      rcases List.mem_cons.mp hslice with rfl | hslice
      · exact le_rfl
      · exact (hfirst next List.mem_cons_self).trans (ih hrest slice hslice)

/-- **The merged slices are apart.** -/
theorem apart_mergeFrom {current : Slice τ ρ} {rest : List (Slice τ ρ)}
    (hproper : ∀ slice ∈ current :: rest, slice.start < slice.stop)
    (hsorted : (current :: rest).Pairwise fun a b ↦ a.start ≤ b.start) :
    Apart (mergeFrom join current rest) := by
  induction rest generalizing current with
  | nil =>
    refine ⟨fun slice hslice ↦ ?_, List.pairwise_singleton _ _⟩
    exact hproper slice hslice
  | cons next rest ih =>
    obtain ⟨hfirst, hrest⟩ := List.pairwise_cons.mp hsorted
    have hnext := hproper next (List.mem_cons_of_mem _ List.mem_cons_self)
    rw [mergeFrom]
    split
    · refine ih ?_ (List.pairwise_cons.mpr ⟨fun b hb ↦ hfirst b (List.mem_cons_of_mem next hb),
        (List.pairwise_cons.mp hrest).2⟩)
      intro slice hslice
      rcases List.mem_cons.mp hslice with rfl | hslice
      · exact lt_max_of_lt_left (hproper current List.mem_cons_self)
      · exact hproper slice (List.mem_cons_of_mem _ (List.mem_cons_of_mem _ hslice))
    · rename_i hgap
      have hmerged := ih (fun slice hslice ↦ hproper slice (List.mem_cons_of_mem _ hslice)) hrest
      refine ⟨fun slice hslice ↦ ?_, List.pairwise_cons.mpr ⟨fun slice hslice ↦ ?_, hmerged.apart⟩⟩
      · rcases List.mem_cons.mp hslice with rfl | hslice
        · exact hproper slice List.mem_cons_self
        · exact hmerged.proper slice hslice
      · exact (not_le.mp hgap).trans_le (start_le_of_mem_mergeFrom hrest slice hslice)

/-- A slice that reaches another covers with it what both cover. -/
theorem covers_join {a b : Slice τ ρ} (hstart : a.start ≤ b.start) (hreach : b.start ≤ a.stop)
    {label : ρ} {t : τ} :
    (⟨a.start, max a.stop b.stop, label⟩ : Slice τ ρ).Covers t ↔ a.Covers t ∨ b.Covers t := by
  simp only [Slice.Covers, lt_max_iff]
  constructor
  · rintro ⟨hfrom, hto⟩
    rcases lt_or_ge t a.stop with hin | hout
    · exact Or.inl ⟨hfrom, hin⟩
    · exact Or.inr ⟨hreach.trans hout, hto.resolve_left (not_lt.mpr hout)⟩
  · rintro (⟨hfrom, hto⟩ | ⟨hfrom, hto⟩)
    · exact ⟨hfrom, Or.inl hto⟩
    · exact ⟨hstart.trans hfrom, Or.inr hto⟩

/-- **Merging covers the same points.** -/
theorem covered_mergeFrom {current : Slice τ ρ} {rest : List (Slice τ ρ)}
    (hsorted : (current :: rest).Pairwise fun a b ↦ a.start ≤ b.start) {t : τ} :
    Covered (mergeFrom join current rest) t ↔ Covered (current :: rest) t := by
  induction rest generalizing current with
  | nil => rw [mergeFrom]
  | cons next rest ih =>
    obtain ⟨hfirst, hrest⟩ := List.pairwise_cons.mp hsorted
    rw [mergeFrom]
    split
    · rename_i hreach
      have hmerged : (⟨current.start, max current.stop next.stop, join current.label next.label⟩ ::
          rest : List (Slice τ ρ)).Pairwise fun a b ↦ a.start ≤ b.start :=
        List.pairwise_cons.mpr ⟨fun b hb ↦ hfirst b (List.mem_cons_of_mem next hb),
          (List.pairwise_cons.mp hrest).2⟩
      rw [ih hmerged, covered_cons, covered_cons, covered_cons,
        covers_join (hfirst next List.mem_cons_self) hreach, or_assoc]
    · rw [covered_cons, ih hrest, covered_cons, covered_cons, covered_cons]

/-- A point lies in one slice at most of those that are apart. -/
theorem Apart.eq_of_covers {slices : List (Slice τ ρ)} (h : Apart slices) {a b : Slice τ ρ}
    (ha : a ∈ slices) (hb : b ∈ slices) {t : τ} (hat : a.Covers t) (hbt : b.Covers t) : a = b := by
  have hsymm : Std.Symm fun a b : Slice τ ρ ↦ a.stop < b.start ∨ b.stop < a.start :=
    ⟨fun _ _ ↦ Or.symm⟩
  by_contra hne
  rcases (h.apart.imp Or.inl : slices.Pairwise fun a b ↦ a.stop < b.start ∨ b.stop < a.start).forall
    ha hb hne with hlt | hlt
  · exact absurd (hat.2.trans hlt) (not_lt.mpr hbt.1)
  · exact absurd (hbt.2.trans hlt) (not_lt.mpr hat.1)

end Intervals

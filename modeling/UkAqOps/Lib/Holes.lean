import Mathlib.Data.List.Basic
import Mathlib.Data.List.Pairwise
import Mathlib.Order.MinMax

/-!
# The holes between ranges

Half-open ranges that lie apart in a window, in their order, leave holes: before the first of them,
between two neighbours, and after the last. The ranges and the holes cut the window up, so that
every point of it lies in exactly one of them.
-/

namespace Holes

variable {τ : Type*} [LinearOrder τ]

/-- A point of a range, which holds its start and not its end. -/
def Within (range : τ × τ) (t : τ) : Prop := range.1 ≤ t ∧ t < range.2

/-- The ranges cut the window up: none is empty, no two meet, and together they are the window. -/
structure Tile (ranges : List (τ × τ)) (start stop : τ) : Prop where
  proper : ∀ range ∈ ranges, range.1 < range.2
  apart : ranges.Pairwise fun r r' ↦ r.2 ≤ r'.1 ∨ r'.2 ≤ r.1
  within : ∀ t, (∃ range ∈ ranges, Within range t) ↔ start ≤ t ∧ t < stop

/-- The holes from a cursor on, up to the end of the window. -/
def holes (cursor stop : τ) : List (τ × τ) → List (τ × τ)
  | [] => if cursor < stop then [(cursor, stop)] else []
  | range :: rest =>
    if cursor < range.1 then (cursor, range.1) :: holes (max cursor range.2) stop rest
    else holes (max cursor range.2) stop rest

/-- Ranges in their order, apart from each other and within the window. -/
structure Placed (ranges : List (τ × τ)) (start stop : τ) : Prop where
  proper : ∀ range ∈ ranges, range.1 < range.2
  ordered : ranges.Pairwise fun r r' ↦ r.2 ≤ r'.1
  start_le : ∀ range ∈ ranges, start ≤ range.1
  le_stop : ∀ range ∈ ranges, range.2 ≤ stop

section Placed

variable {ranges : List (τ × τ)} {range : τ × τ} {start stop t : τ}

/-- What is left of placed ranges is placed after the first one. -/
theorem Placed.tail (h : Placed (range :: ranges) start stop) : Placed ranges range.2 stop where
  proper r hr := h.proper r (List.mem_cons_of_mem _ hr)
  ordered := h.ordered.of_cons
  start_le _ hr := List.rel_of_pairwise_cons h.ordered hr
  le_stop r hr := h.le_stop r (List.mem_cons_of_mem _ hr)

theorem Placed.max_eq (h : Placed (range :: ranges) start stop) : max start range.2 = range.2 :=
  max_eq_right ((h.start_le range List.mem_cons_self).trans
    (h.proper range List.mem_cons_self).le)

/-- A hole starts where the window does or later, ends by its end, and is not empty. -/
theorem Placed.bounds_of_mem_holes (h : Placed ranges start stop) {hole : τ × τ}
    (hhole : hole ∈ holes start stop ranges) :
    start ≤ hole.1 ∧ hole.1 < hole.2 ∧ hole.2 ≤ stop := by
  induction ranges generalizing start with
  | nil =>
    rw [holes] at hhole
    split at hhole
    · rename_i hlt
      rw [List.mem_singleton.mp hhole]
      exact ⟨le_rfl, hlt, le_rfl⟩
    · exact absurd hhole List.not_mem_nil
  | cons range rest ih =>
    have hstart := h.start_le range List.mem_cons_self
    have hproper := h.proper range List.mem_cons_self
    rw [holes, h.max_eq] at hhole
    have hrest : hole ∈ holes range.2 stop rest → start ≤ hole.1 ∧ hole.1 < hole.2 ∧
        hole.2 ≤ stop := fun hmem ↦ by
      obtain ⟨hlower, hne, hupper⟩ := ih h.tail hmem
      exact ⟨(hstart.trans hproper.le).trans hlower, hne, hupper⟩
    split at hhole
    · rename_i hlt
      rcases List.mem_cons.mp hhole with rfl | hmem
      · exact ⟨le_rfl, hlt, hproper.le.trans (h.le_stop range List.mem_cons_self)⟩
      · exact hrest hmem
    · exact hrest hhole

/-- **The holes hold the points of the window that are in no range.** -/
theorem Placed.mem_holes_iff (h : Placed ranges start stop) (hle : start ≤ stop) :
    (∃ hole ∈ holes start stop ranges, Within hole t) ↔
      (start ≤ t ∧ t < stop) ∧ ∀ range ∈ ranges, ¬Within range t := by
  induction ranges generalizing start with
  | nil =>
    rw [holes]
    split
    · simp [Within]
    · rename_i hlt
      simp only [List.not_mem_nil, false_and, exists_false, false_iff]
      rintro ⟨⟨hlower, hupper⟩, -⟩
      exact hlt (hlower.trans_lt hupper)
  | cons range rest ih =>
    have hstart := h.start_le range List.mem_cons_self
    have hproper := h.proper range List.mem_cons_self
    have hstop := h.le_stop range List.mem_cons_self
    have hafter : ∀ r ∈ rest, range.2 ≤ r.1 := fun r hr ↦ List.rel_of_pairwise_cons h.ordered hr
    have hrest := ih h.tail hstop
    have hsplit : (∃ hole ∈ holes start stop (range :: rest), Within hole t) ↔
        start ≤ t ∧ t < range.1 ∨ ∃ hole ∈ holes range.2 stop rest, Within hole t := by
      rw [holes, h.max_eq]
      split
      · rw [List.exists_mem_cons_iff]
        exact Iff.rfl
      · rename_i hlt
        exact ⟨Or.inr, fun hor ↦ hor.resolve_left fun hbefore ↦ hlt (hbefore.1.trans_lt hbefore.2)⟩
    rw [hsplit, hrest]
    constructor
    · rintro (⟨hlower, hupper⟩ | ⟨⟨hlower, hupper⟩, hout⟩)
      · refine ⟨⟨hlower, hupper.trans (hproper.trans_le hstop)⟩, fun r hr hin ↦ ?_⟩
        rcases List.mem_cons.mp hr with rfl | hr
        · exact absurd hin.1 (not_le.mpr hupper)
        · exact absurd (hproper.le.trans ((hafter r hr).trans hin.1)) (not_le.mpr hupper)
      · refine ⟨⟨(hstart.trans hproper.le).trans hlower, hupper⟩, fun r hr hin ↦ ?_⟩
        rcases List.mem_cons.mp hr with rfl | hr
        · exact absurd hin.2 (not_lt.mpr hlower)
        · exact hout r hr hin
    · rintro ⟨⟨hlower, hupper⟩, hout⟩
      rcases lt_or_ge t range.1 with hlt | hge
      · exact Or.inl ⟨hlower, hlt⟩
      · have hend : range.2 ≤ t := not_lt.mp fun hin ↦ hout range List.mem_cons_self ⟨hge, hin⟩
        exact Or.inr ⟨⟨hend, hupper⟩, fun r hr ↦ hout r (List.mem_cons_of_mem _ hr)⟩

/-- The holes are in their order and apart from each other. -/
theorem Placed.pairwise_holes (h : Placed ranges start stop) :
    (holes start stop ranges).Pairwise fun r r' ↦ r.2 ≤ r'.1 := by
  induction ranges generalizing start with
  | nil =>
    rw [holes]
    split
    · exact List.pairwise_singleton _ _
    · exact List.Pairwise.nil
  | cons range rest ih =>
    rw [holes, h.max_eq]
    split
    · refine List.pairwise_cons.mpr ⟨fun hole hhole ↦ ?_, ih h.tail⟩
      exact (h.proper range List.mem_cons_self).le.trans (h.tail.bounds_of_mem_holes hhole).1
    · exact ih h.tail

/-- Two ranges that are not empty and share no point lie apart. -/
theorem apart_of_disjoint {r r' : τ × τ} (hr : r.1 < r.2) (hr' : r'.1 < r'.2)
    (h : ∀ t, Within r t → ¬Within r' t) : r.2 ≤ r'.1 ∨ r'.2 ≤ r.1 := by
  by_contra hmeet
  obtain ⟨hlower, hupper⟩ := not_or.mp hmeet
  rw [not_le] at hlower hupper
  exact h (max r.1 r'.1) ⟨le_max_left _ _, max_lt hr hlower⟩ ⟨le_max_right _ _, max_lt hupper hr'⟩

/-- **The ranges and their holes cut the window up.** -/
theorem Placed.tile (h : Placed ranges start stop) (hle : start ≤ stop) :
    Tile (ranges ++ holes start stop ranges) start stop where
  proper r hr := by
    rcases List.mem_append.mp hr with hr | hr
    · exact h.proper r hr
    · exact (h.bounds_of_mem_holes hr).2.1
  apart := by
    refine List.pairwise_append.mpr ⟨h.ordered.imp Or.inl, h.pairwise_holes.imp Or.inl, ?_⟩
    intro range hrange hole hhole
    refine apart_of_disjoint (h.proper range hrange) (h.bounds_of_mem_holes hhole).2.1 ?_
    intro t hin hin'
    exact ((h.mem_holes_iff hle).mp ⟨hole, hhole, hin'⟩).2 range hrange hin
  within t := by
    constructor
    · rintro ⟨range, hrange, hin⟩
      rcases List.mem_append.mp hrange with hr | hr
      · exact ⟨(h.start_le range hr).trans hin.1, hin.2.trans_le (h.le_stop range hr)⟩
      · exact ((h.mem_holes_iff hle).mp ⟨range, hr, hin⟩).1
    · intro hwindow
      by_cases hin : ∃ range ∈ ranges, Within range t
      · obtain ⟨range, hrange, hin⟩ := hin
        exact ⟨range, List.mem_append_left _ hrange, hin⟩
      · push Not at hin
        obtain ⟨hole, hhole, hin'⟩ := (h.mem_holes_iff hle).mpr ⟨hwindow, hin⟩
        exact ⟨hole, List.mem_append_right _ hhole, hin'⟩

/-- There is no hole exactly when every point of the window is in a range. -/
theorem Placed.holes_eq_nil_iff (h : Placed ranges start stop) (hle : start ≤ stop) :
    holes start stop ranges = [] ↔
      ∀ t, start ≤ t → t < stop → ∃ range ∈ ranges, Within range t := by
  constructor
  · intro hnil t hlower hupper
    by_contra hout
    push Not at hout
    obtain ⟨hole, hhole, -⟩ := (h.mem_holes_iff hle).mpr ⟨⟨hlower, hupper⟩, hout⟩
    rw [hnil] at hhole
    exact absurd hhole List.not_mem_nil
  · intro hall
    refine List.eq_nil_iff_forall_not_mem.mpr fun hole hhole ↦ ?_
    obtain ⟨hlower, hproper, hupper⟩ := h.bounds_of_mem_holes hhole
    have hpoint : Within hole hole.1 := ⟨le_rfl, hproper⟩
    have hout := ((h.mem_holes_iff hle).mp ⟨hole, hhole, hpoint⟩).2
    obtain ⟨range, hrange, hin⟩ := hall hole.1 hlower (hproper.trans_le hupper)
    exact hout range hrange hin

end Placed

/-- **A window that is cut up has no room** for a further range. -/
theorem Tile.eq_nil_of_append {ranges more : List (τ × τ)} {start stop : τ}
    (h : Tile ranges start stop) (happend : Tile (ranges ++ more) start stop) : more = [] := by
  refine List.eq_nil_iff_forall_not_mem.mpr fun range hrange ↦ ?_
  have hproper := happend.proper range (List.mem_append_right _ hrange)
  have hpoint : Within range range.1 := ⟨le_rfl, hproper⟩
  obtain ⟨other, hother, hin⟩ := (h.within range.1).mpr
    ((happend.within range.1).mp ⟨range, List.mem_append_right _ hrange, hpoint⟩)
  rcases (List.pairwise_append.mp happend.apart).2.2 other hother range hrange with hle | hle
  · exact absurd hin.2 (not_lt.mpr hle)
  · exact absurd (hproper.trans_le (hle.trans hin.1)) (lt_irrefl _)

end Holes

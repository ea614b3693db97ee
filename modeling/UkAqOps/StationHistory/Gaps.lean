import UkAqOps.Lib.Holes
import UkAqOps.StationHistory.Windows

/-!
# The gaps of a continuity

The segments that are selected for a range are apart from each other, and the gaps that are
collected with them are the holes that they leave, so segments and gaps cut the range up. A gap of a
part of the range is one of the range.
-/

namespace UkAqOps.StationHistory

open Aqi Sorting Holes

def Segment.bounds (segment : Segment) : ℤ × ℤ := (segment.startMs, segment.endMs)

section Selection

variable {continuity : Continuity} {startMs endExclusiveMs : ℤ}

/-- The loop collects the holes that the segments leave. -/
theorem gaps_eq (continuity : Continuity) (startMs endExclusiveMs : ℤ) :
    (selectContinuitySegments continuity startMs endExclusiveMs).gaps
      = holes startMs endExclusiveMs ((selectContinuitySegments continuity startMs
          endExclusiveMs).segments.map Segment.bounds) := by
  have hloop : ∀ (segments : List Segment) (cursor : ℤ) (gaps : List (ℤ × ℤ)),
      (if (segments.foldl gapStep (cursor, gaps)).1 < endExclusiveMs then
          (segments.foldl gapStep (cursor, gaps)).2 ++
            [((segments.foldl gapStep (cursor, gaps)).1, endExclusiveMs)]
        else (segments.foldl gapStep (cursor, gaps)).2)
        = gaps ++ holes cursor endExclusiveMs (segments.map Segment.bounds) := by
    intro segments
    induction segments with
    | nil =>
      intro cursor gaps
      rw [List.foldl_nil, List.map_nil, holes]
      split
      · rfl
      · rw [List.append_nil]
    | cons segment rest ih =>
      intro cursor gaps
      rw [List.foldl_cons, List.map_cons, holes]
      refine (ih (max cursor segment.endMs)
        (if cursor < segment.startMs then gaps ++ [(cursor, segment.startMs)] else gaps)).trans ?_
      by_cases hlt : cursor < segment.startMs
      · rw [if_pos hlt, if_pos (show cursor < segment.bounds.1 from hlt), List.append_assoc]
        rfl
      · rw [if_neg hlt, if_neg (show ¬cursor < segment.bounds.1 from hlt)]
        rfl
  exact (hloop _ startMs []).trans (List.nil_append _)

/-- Segments lie in the range that they are selected for, in their order. -/
theorem placed_segments (hvalid : continuity.Valid) :
    Placed ((selectContinuitySegments continuity startMs endExclusiveMs).segments.map
      Segment.bounds) startMs endExclusiveMs := by
  have hspec : ∀ range ∈ (continuity.members.filterMap
      (Member.segment startMs endExclusiveMs)).map Segment.bounds,
      range.1 < range.2 ∧ startMs ≤ range.1 ∧ range.2 ≤ endExclusiveMs := by
    intro range hrange
    obtain ⟨segment, hsegment, rfl⟩ := List.mem_map.mp hrange
    obtain ⟨member, -, hmember⟩ := List.mem_filterMap.mp hsegment
    obtain ⟨-, hstart, hend, hlt⟩ := Member.segment_eq_some_iff.mp hmember
    refine ⟨hlt, ?_, ?_⟩
    · rw [Segment.bounds, hstart]
      rcases member.startMs with _ | s
      · exact le_rfl
      · exact le_max_left _ _
    · rw [Segment.bounds, hend]
      rcases member.endMs with _ | e
      · exact le_rfl
      · exact min_le_left _ _
  rw [segments_eq hvalid]
  exact ⟨fun r hr ↦ (hspec r hr).1, List.pairwise_map.mpr (pairwise_segments hvalid),
    fun r hr ↦ (hspec r hr).2.1, fun r hr ↦ (hspec r hr).2.2⟩

/-- **The segments and the gaps of a selection cut its range up.** -/
theorem tile_selection (hvalid : continuity.Valid) (hle : startMs ≤ endExclusiveMs) :
    Tile ((selectContinuitySegments continuity startMs endExclusiveMs).segments.map
        Segment.bounds ++ (selectContinuitySegments continuity startMs endExclusiveMs).gaps)
      startMs endExclusiveMs := by
  rw [gaps_eq]
  exact (placed_segments hvalid).tile hle

/-- The instants of a segment are those of the range at which a member is valid. -/
theorem exists_within_iff (hvalid : continuity.Valid) {timestampMs : ℤ}
    (hstart : startMs ≤ timestampMs) (hend : timestampMs < endExclusiveMs) :
    (∃ range ∈ (selectContinuitySegments continuity startMs endExclusiveMs).segments.map
        Segment.bounds, Within range timestampMs) ↔
      (continuity.memberOn timestampMs).isSome := by
  rw [segments_eq hvalid, Option.isSome_iff_exists]
  constructor
  · rintro ⟨range, hrange, hin⟩
    obtain ⟨segment, hsegment, rfl⟩ := List.mem_map.mp hrange
    obtain ⟨member, hmember, hsegmentOf⟩ := List.mem_filterMap.mp hsegment
    exact ⟨member, (memberOn_eq_some_iff hvalid).mpr
      ⟨hmember, ((mem_segment_iff hsegmentOf).mp hin).2⟩⟩
  · rintro ⟨member, hmember⟩
    obtain ⟨hmem, hcovers⟩ := (memberOn_eq_some_iff hvalid).mp hmember
    obtain ⟨segment, hsegment⟩ := exists_segment hcovers hstart hend
    exact ⟨segment.bounds, List.mem_map_of_mem (List.mem_filterMap.mpr ⟨member, hmem, hsegment⟩),
      (mem_segment_iff hsegment).mpr ⟨⟨hstart, hend⟩, hcovers⟩⟩

/-- There is no gap exactly when a member is valid at every instant of the range. -/
theorem gaps_eq_nil_iff (hvalid : continuity.Valid) (hle : startMs ≤ endExclusiveMs) :
    (selectContinuitySegments continuity startMs endExclusiveMs).gaps = [] ↔
      ∀ t, startMs ≤ t → t < endExclusiveMs → (continuity.memberOn t).isSome := by
  rw [gaps_eq, (placed_segments hvalid).holes_eq_nil_iff hle]
  refine forall_congr' fun t ↦ forall_congr' fun hstart ↦ forall_congr' fun hend ↦ ?_
  exact exists_within_iff hvalid hstart hend

/-- A gap of the end of a range makes a gap of the range. -/
theorem gaps_ne_nil_of_le (hvalid : continuity.Valid) {laterMs : ℤ} (hstart : startMs ≤ laterMs)
    (hle : laterMs ≤ endExclusiveMs)
    (hgaps : (selectContinuitySegments continuity laterMs endExclusiveMs).gaps ≠ []) :
    (selectContinuitySegments continuity startMs endExclusiveMs).gaps ≠ [] := by
  intro hnil
  refine hgaps ((gaps_eq_nil_iff hvalid hle).mpr fun t hlower hupper ↦ ?_)
  exact (gaps_eq_nil_iff hvalid (hstart.trans hle)).mp hnil t (hstart.trans hlower) hupper

end Selection

end UkAqOps.StationHistory

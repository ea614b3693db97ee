import UkAqOps.Js.Utf16
import UkAqOps.Js.Value
import UkAqOps.Lib.Except
import UkAqOps.Lib.Gathering
import UkAqOps.Lib.Sort

/-!
# Byte ranges read together

The byte ranges that a reader wants of one file are sorted and merged into blocks: a range is taken
into the last block if the gap to it is small enough and the block does not become too long. A range
that is too long on its own is refused.
-/

namespace UkAqOps.RandomAccess

open Gathering Sorting

/-! ## Numbers -/

/-- `value` is what `Number(...)` gives, `none` when that is no integer. -/
def positiveSafeInteger (value : Option ℤ) (fieldName : String) : Except String ℕ :=
  match value with
  | some number =>
    if number ≤ 0 ∨ maxSafeInteger < number then
      .error (fieldName ++ " must be a positive safe integer")
    else .ok number.toNat
  | none => .error (fieldName ++ " must be a positive safe integer")

def nonNegativeSafeInteger (value : Option ℤ) (fieldName : String) : Except String ℕ :=
  match value with
  | some number =>
    if number < 0 ∨ maxSafeInteger < number then
      .error (fieldName ++ " must be a non-negative safe integer")
    else .ok number.toNat
  | none => .error (fieldName ++ " must be a non-negative safe integer")

/-- A number that may be a bound. -/
def IsSafe (least : ℤ) (value : Option ℤ) (n : ℕ) : Prop :=
  value = some (n : ℤ) ∧ least ≤ n ∧ (n : ℤ) ≤ maxSafeInteger

theorem positiveSafeInteger_eq_ok_iff {value : Option ℤ} {fieldName : String} {n : ℕ} :
    positiveSafeInteger value fieldName = .ok n ↔ IsSafe 1 value n := by
  rw [IsSafe]
  rcases value with _ | number
  · rw [positiveSafeInteger]
    simp
  · rw [positiveSafeInteger]
    split
    · simp only [reduceCtorEq, Option.some.injEq, false_iff]
      omega
    · simp only [Except.ok.injEq, Option.some.injEq]
      omega

theorem nonNegativeSafeInteger_eq_ok_iff {value : Option ℤ} {fieldName : String} {n : ℕ} :
    nonNegativeSafeInteger value fieldName = .ok n ↔ IsSafe 0 value n := by
  rw [IsSafe]
  rcases value with _ | number
  · rw [nonNegativeSafeInteger]
    simp
  · rw [nonNegativeSafeInteger]
    split
    · simp only [reduceCtorEq, Option.some.injEq, false_iff]
      omega
    · simp only [Except.ok.injEq, Option.some.injEq]
      omega

/-! ## Ranges -/

/-- A range as it is passed in, the id as a text if there is one. -/
structure RawRange where
  id : Option String
  start : Option ℤ
  stop : Option ℤ

structure ByteRange where
  id : String
  start : ℕ
  stop : ℕ
  proper : start < stop

def normalizeRange (index : ℕ) (range : RawRange) : Except String ByteRange := do
  let start ← nonNegativeSafeInteger range.start s!"ranges[{index}].start"
  let stop ← positiveSafeInteger range.stop s!"ranges[{index}].end"
  if h : start < stop then .ok ⟨range.id.getD (toString index), start, stop, h⟩
  else .error "V3 byte range end must exceed start"

/-- By start, then by end, then by id. -/
def compareRanges (left right : ByteRange) : Ordering :=
  (compare left.start right.start).then
    ((compare left.stop right.stop).then (compare (codeUnits left.id) (codeUnits right.id)))

/-- The bounds of the range are valid, and it is the one that the raw range is read as. -/
def ReadAs (index : ℕ) (raw : RawRange) (range : ByteRange) : Prop :=
  IsSafe 0 raw.start range.start ∧ IsSafe 1 raw.stop range.stop ∧
    range.id = raw.id.getD (toString index)

theorem normalizeRange_eq_ok_iff {index : ℕ} {raw : RawRange} {range : ByteRange} :
    normalizeRange index raw = .ok range ↔ ReadAs index raw range := by
  rw [normalizeRange, ReadAs, Except.bind_eq_ok_iff]
  constructor
  · rintro ⟨start, hstart, hrest⟩
    obtain ⟨stop, hstop, hrest⟩ := Except.bind_eq_ok_iff.mp hrest
    split at hrest
    · rw [← Except.ok.inj hrest]
      exact ⟨nonNegativeSafeInteger_eq_ok_iff.mp hstart, positiveSafeInteger_eq_ok_iff.mp hstop, rfl⟩
    · cases hrest
  · rintro ⟨hstart, hstop, hid⟩
    refine ⟨range.start, nonNegativeSafeInteger_eq_ok_iff.mpr hstart, ?_⟩
    rw [positiveSafeInteger_eq_ok_iff.mpr hstop, Except.ok_bind, dif_pos range.proper, ← hid]

theorem transCmp_compareRanges : Std.TransCmp compareRanges :=
  transCmp_then (transCmp_on inferInstance ByteRange.start)
    (transCmp_then (transCmp_on inferInstance ByteRange.stop)
      (transCmp_on inferInstance fun range : ByteRange ↦ codeUnits range.id))

/-! ## Merging -/

section Merging

variable (maxGap maxMerged : ℕ)

/-- The block takes in the range: the gap is small enough, and the block does not become too long.
The range starts where the block does or later, so that no difference is negative but that of the
gap. -/
def accepts (current : Block ByteRange) (range : ByteRange) : Bool :=
  (range.start : ℤ) - current.stop ≤ maxGap ∧
    (max current.stop range.stop : ℤ) - current.start ≤ maxMerged

/-- The loop over the sorted ranges, of which `current` is the last block. -/
def mergeRanges (current : Block ByteRange) : List ByteRange → Except String (List (Block ByteRange))
  | [] => .ok [current]
  | range :: rest =>
    let candidateEnd := max current.stop range.stop
    if accepts maxGap maxMerged current range then
      mergeRanges ⟨current.start, candidateEnd, current.members ++ [range]⟩ rest
    else if maxMerged < range.stop - range.start then
      .error ("V3 byte range exceeds maximum merged size: " ++ range.id)
    else do
      let blocks ← mergeRanges ⟨range.start, range.stop, [range]⟩ rest
      .ok (current :: blocks)

/-- The blocks of the sorted ranges. -/
def mergeSorted : List ByteRange → Except String (List (Block ByteRange))
  | [] => .ok []
  | range :: rest =>
    if maxMerged < range.stop - range.start then
      .error ("V3 byte range exceeds maximum merged size: " ++ range.id)
    else mergeRanges maxGap maxMerged ⟨range.start, range.stop, [range]⟩ rest

end Merging

def coalesceObservationHistoryV3ByteRanges (ranges : List RawRange)
    (maxGapBytes maxMergedBytes : Option ℤ) : Except String (List (Block ByteRange)) := do
  let maxGap ← nonNegativeSafeInteger maxGapBytes "maxGapBytes"
  let maxMerged ← positiveSafeInteger maxMergedBytes "maxMergedBytes"
  let normalized ← ranges.zipIdx.mapM fun (range, index) ↦ normalizeRange index range
  mergeSorted maxGap maxMerged (sortBy compareRanges normalized)

/-! ## What is refused -/

section Refusal

variable {maxGap maxMerged : ℕ}

/-- No block takes in a range that is too long. -/
theorem not_accepts_of_tooLong {current : Block ByteRange} {range : ByteRange}
    (hstart : current.start ≤ range.start) (hlong : maxMerged < range.stop - range.start) :
    accepts maxGap maxMerged current range = false := by
  refine decide_eq_false fun haccepts ↦ ?_
  have hproper := range.proper
  omega

/-- Ranges that are not too long are gathered. -/
theorem mergeRanges_eq_ok {current : Block ByteRange} {rest : List ByteRange}
    (hshort : ∀ range ∈ rest, range.stop - range.start ≤ maxMerged) :
    mergeRanges maxGap maxMerged current rest =
      .ok (gather ByteRange.start ByteRange.stop (accepts maxGap maxMerged) current rest) := by
  induction rest generalizing current with
  | nil => rfl
  | cons range rest ih =>
    have hrest : ∀ range ∈ rest, range.stop - range.start ≤ maxMerged := fun other hother ↦
      hshort other (List.mem_cons_of_mem range hother)
    rw [mergeRanges, gather]
    split
    · exact ih hrest
    · rw [if_neg (not_lt.mpr (hshort range List.mem_cons_self)), ih hrest, Except.ok_bind]
      rfl

/-- A range that is too long is refused, wherever it stands. -/
theorem exists_error_of_mergeRanges {current : Block ByteRange} {rest : List ByteRange}
    (hfirst : ∀ range ∈ rest, current.start ≤ range.start)
    (hsorted : rest.Pairwise fun a b ↦ a.start ≤ b.start)
    (hlong : ∃ range ∈ rest, maxMerged < range.stop - range.start) :
    ∃ message, mergeRanges maxGap maxMerged current rest = .error message := by
  induction rest generalizing current with
  | nil =>
    obtain ⟨range, hrange, -⟩ := hlong
    cases hrange
  | cons range rest ih =>
    obtain ⟨hnext, hrest⟩ := List.pairwise_cons.mp hsorted
    rw [mergeRanges]
    by_cases hrange : maxMerged < range.stop - range.start
    · rw [not_accepts_of_tooLong (hfirst range List.mem_cons_self) hrange,
        if_neg Bool.false_ne_true, if_pos hrange]
      exact ⟨_, rfl⟩
    · obtain ⟨long, hmem, hlong⟩ := hlong
      have hlater : ∃ range ∈ rest, maxMerged < range.stop - range.start := by
        rcases List.mem_cons.mp hmem with rfl | hmem
        · exact absurd hlong hrange
        · exact ⟨long, hmem, hlong⟩
      split
      · exact ih (fun other hother ↦ hfirst other (List.mem_cons_of_mem range hother)) hrest hlater
      · obtain ⟨message, hmessage⟩ := @ih ⟨range.start, range.stop, [range]⟩ hnext hrest hlater
        rw [hmessage]
        exact ⟨message, rfl⟩

end Refusal

/-! ## Blocks -/

/-- What the blocks of some ranges are: every range is a member of one of them, they are in the order
of their starts, and each reaches exactly as far as its members do, which is not too far. -/
structure Blocks (maxMerged : ℕ) (ranges : List ByteRange) (blocks : List (Block ByteRange)) :
    Prop where
  members : (blocks.flatMap Block.members).Perm ranges
  ordered : blocks.Pairwise fun a b ↦ a.start < b.start
  hull : ∀ block ∈ blocks, block.Hull ByteRange.start ByteRange.stop
  size : ∀ block ∈ blocks, block.stop - block.start ≤ maxMerged

theorem blocks_gather {maxGap maxMerged : ℕ} {range : ByteRange} {rest : List ByteRange}
    (hshort : ∀ a ∈ range :: rest, a.stop - a.start ≤ maxMerged)
    (hsorted : (range :: rest).Pairwise fun a b ↦ a.start ≤ b.start) :
    Blocks maxMerged (range :: rest) (gather ByteRange.start ByteRange.stop
      (accepts maxGap maxMerged) ⟨range.start, range.stop, [range]⟩ rest) := by
  obtain ⟨hfirst, hrest⟩ := List.pairwise_cons.mp hsorted
  -- what one range gives and every further one keeps
  let Fits : Block ByteRange → Prop := fun block ↦
    block.start < block.stop ∧ block.stop - block.start ≤ maxMerged
  have hsingle : ∀ a ∈ range :: rest, Fits (.single ByteRange.start ByteRange.stop a) := fun a ha ↦
    ⟨a.proper, hshort a ha⟩
  have hextend : ∀ block, Fits block → ∀ a ∈ rest, block.start ≤ a.start →
      accepts maxGap maxMerged block a = true → Fits (block.extend ByteRange.stop a) := by
    rintro block ⟨hproper, -⟩ a - hle haccepts
    have hbounds := of_decide_eq_true haccepts
    have haproper := a.proper
    simp only [Fits, Block.extend]
    omega
  have haccept : ∀ block, Fits block → ∀ a ∈ rest, block.start = a.start →
      accepts maxGap maxMerged block a = true := by
    rintro block ⟨hproper, hsize⟩ a ha hstart
    have hashort := hshort a (List.mem_cons_of_mem range ha)
    have haproper := a.proper
    refine decide_eq_true ?_
    omega
  have htail : ∀ a ∈ rest, Fits (.single ByteRange.start ByteRange.stop a) := fun a ha ↦
    hsingle a (List.mem_cons_of_mem range ha)
  refine ⟨?_, ?_, ?_, fun block hblock ↦ ?_⟩
  · rw [members_gather]
    rfl
  · exact pairwise_start_gather (hsingle range List.mem_cons_self) htail hextend haccept hfirst hrest
  · exact hull_gather (Block.hull_single range) hfirst hrest
  · exact (forall_mem_gather (hsingle range List.mem_cons_self) htail hextend hfirst hrest
      block hblock).2

/-- The arguments are valid, and the ranges are read as these. -/
structure Valid (ranges : List RawRange) (maxGapBytes maxMergedBytes : Option ℤ) (maxGap maxMerged : ℕ)
    (normalized : List ByteRange) : Prop where
  maxGap : IsSafe 0 maxGapBytes maxGap
  maxMerged : IsSafe 1 maxMergedBytes maxMerged
  ranges : List.Forall₂ (fun (raw : RawRange × ℕ) range ↦ ReadAs raw.2 raw.1 range) ranges.zipIdx
    normalized

section Coalesce

variable {ranges : List RawRange} {maxGapBytes maxMergedBytes : Option ℤ}

theorem coalesce_eq_of_valid {maxGap maxMerged : ℕ} {normalized : List ByteRange}
    (h : Valid ranges maxGapBytes maxMergedBytes maxGap maxMerged normalized) :
    coalesceObservationHistoryV3ByteRanges ranges maxGapBytes maxMergedBytes =
      mergeSorted maxGap maxMerged (sortBy compareRanges normalized) := by
  have hnormalized : (ranges.zipIdx.mapM fun (range, index) ↦ normalizeRange index range) =
      .ok normalized :=
    (Except.mapM_eq_ok_iff _ _ _).mpr (h.ranges.imp fun _ _ hread ↦
      normalizeRange_eq_ok_iff.mpr hread)
  rw [coalesceObservationHistoryV3ByteRanges, nonNegativeSafeInteger_eq_ok_iff.mpr h.maxGap,
    positiveSafeInteger_eq_ok_iff.mpr h.maxMerged, Except.ok_bind, Except.ok_bind, hnormalized,
    Except.ok_bind]

theorem valid_of_coalesce {blocks : List (Block ByteRange)}
    (h : coalesceObservationHistoryV3ByteRanges ranges maxGapBytes maxMergedBytes = .ok blocks) :
    ∃ maxGap maxMerged normalized,
      Valid ranges maxGapBytes maxMergedBytes maxGap maxMerged normalized := by
  obtain ⟨maxGap, hgap, hrest⟩ := Except.bind_eq_ok_iff.mp h
  obtain ⟨maxMerged, hmerged, hrest⟩ := Except.bind_eq_ok_iff.mp hrest
  obtain ⟨normalized, hnormalized, -⟩ := Except.bind_eq_ok_iff.mp hrest
  exact ⟨maxGap, maxMerged, normalized, nonNegativeSafeInteger_eq_ok_iff.mp hgap,
    positiveSafeInteger_eq_ok_iff.mp hmerged,
    ((Except.mapM_eq_ok_iff _ _ _).mp hnormalized).imp fun _ _ hread ↦
      normalizeRange_eq_ok_iff.mp hread⟩

theorem sorted_starts (normalized : List ByteRange) :
    (sortBy compareRanges normalized).Pairwise fun a b ↦ a.start ≤ b.start := by
  have htrans := transCmp_compareRanges
  refine (pairwise_sortBy normalized).imp fun {a b} hle ↦ ?_
  rw [compareRanges] at hle
  rcases hcompare : compare a.start b.start with _ | _ | _
  · exact (compare_lt_iff_lt.mp hcompare).le
  · exact (compare_eq_iff_eq.mp hcompare).le
  · rw [hcompare] at hle
    cases hle

/-- **Valid ranges are coalesced** unless one of them is too long on its own. -/
theorem coalesce_of_valid {maxGap maxMerged : ℕ} {normalized : List ByteRange}
    (h : Valid ranges maxGapBytes maxMergedBytes maxGap maxMerged normalized) :
    (∀ range ∈ normalized, range.stop - range.start ≤ maxMerged) ∧
        (∃ blocks, coalesceObservationHistoryV3ByteRanges ranges maxGapBytes maxMergedBytes =
          .ok blocks ∧ Blocks maxMerged normalized blocks) ∨
      (∃ range ∈ normalized, maxMerged < range.stop - range.start) ∧
        ∃ message, coalesceObservationHistoryV3ByteRanges ranges maxGapBytes maxMergedBytes =
          .error message := by
  have hperm : (sortBy compareRanges normalized).Perm normalized := sortBy_perm normalized
  have hsorted := sorted_starts normalized
  rw [coalesce_eq_of_valid h]
  by_cases hlong : ∃ range ∈ normalized, maxMerged < range.stop - range.start
  · refine Or.inr ⟨hlong, ?_⟩
    obtain ⟨long, hmem, hlong⟩ := hlong
    rw [← hperm.mem_iff] at hmem
    generalize sortBy compareRanges normalized = sorted at hmem hsorted
    rcases sorted with _ | ⟨range, rest⟩
    · cases hmem
    · rw [mergeSorted]
      split
      · exact ⟨_, rfl⟩
      · rename_i hshort
        obtain ⟨hfirst, hrest⟩ := List.pairwise_cons.mp hsorted
        refine exists_error_of_mergeRanges hfirst hrest ⟨long, ?_, hlong⟩
        rcases List.mem_cons.mp hmem with rfl | hmem
        · exact absurd hlong hshort
        · exact hmem
  · have hshort : ∀ range ∈ normalized, range.stop - range.start ≤ maxMerged := fun range hrange ↦
      not_lt.mp fun hlt ↦ hlong ⟨range, hrange, hlt⟩
    refine Or.inl ⟨hshort, ?_⟩
    have hshort' : ∀ range ∈ sortBy compareRanges normalized,
        range.stop - range.start ≤ maxMerged := fun range hrange ↦
      hshort range (hperm.mem_iff.mp hrange)
    rcases hcases : sortBy compareRanges normalized with _ | ⟨range, rest⟩
    · rw [hcases] at hperm
      obtain rfl := hperm.nil_eq
      exact ⟨[], rfl, List.Perm.refl [], List.Pairwise.nil, nofun, nofun⟩
    · rw [hcases] at hperm hsorted hshort'
      have hblocks := @blocks_gather maxGap maxMerged range rest hshort' hsorted
      refine ⟨_, ?_, hblocks.members.trans hperm, hblocks.ordered, hblocks.hull, hblocks.size⟩
      rw [mergeSorted, if_neg (not_lt.mpr (hshort' range List.mem_cons_self)),
        mergeRanges_eq_ok fun a ha ↦ hshort' a (List.mem_cons_of_mem range ha)]

end Coalesce

end UkAqOps.RandomAccess

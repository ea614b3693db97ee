import UkAqOps.Js.Value
import UkAqOps.Lib.Chunks
import UkAqOps.Lib.Except

/-!
# Row groups and files

The sorted rows of a partition are cut into row groups of one timeseries each, and the groups are
put into files greedily. A Parquet writer cuts a file at a fixed number of rows, so that only the
last group of a file may be shorter than its first.
-/

namespace UkAqOps.TargetWriter

open Cutting

/-! ## Limits -/

/-- The limits as they are given: what `Number` makes of each, none unless a safe integer. -/
structure RawLimits where
  targetRowGroupRows : Option ℤ
  maxRowGroupRows : Option ℤ
  targetFileRows : Option ℤ
  maxFileRows : Option ℤ
  targetFileBytes : Option ℤ
  maxFileBytes : Option ℤ
  maxRowGroupsPerFile : Option ℤ

def observationHistoryAlignedRowCap : ℕ := 1024

/-- Limits that have been validated. -/
structure Limits where
  targetRowGroupRows : ℕ
  maxRowGroupRows : ℕ
  targetFileRows : ℕ
  maxFileRows : ℕ
  targetFileBytes : ℕ
  maxFileBytes : ℕ
  maxRowGroupsPerFile : ℕ
  positive : ∀ limit ∈ [targetRowGroupRows, maxRowGroupRows, targetFileRows, maxFileRows,
    targetFileBytes, maxFileBytes, maxRowGroupsPerFile], 0 < limit
  rowGroupRows_le : targetRowGroupRows ≤ maxRowGroupRows
  fileRows_le : targetFileRows ≤ maxFileRows
  fileBytes_le : targetFileBytes ≤ maxFileBytes
  maxRowGroupRows_le : maxRowGroupRows ≤ observationHistoryAlignedRowCap

def positiveSafeInteger (value : Option ℤ) (fieldName : String) : Except String {n : ℕ // 0 < n} :=
  match value with
  | some number =>
    if h : isPositiveSafeInteger number = true then
      .ok ⟨number.toNat, by
        rw [isPositiveSafeInteger, Bool.and_eq_true, decide_eq_true_iff] at h
        omega⟩
    else .error (fieldName ++ " must be a positive safe integer")
  | none => .error (fieldName ++ " must be a positive safe integer")

def validateLimits (limits : RawLimits) : Except String Limits := do
  let ⟨targetRowGroupRows, h₁⟩ ←
    positiveSafeInteger limits.targetRowGroupRows "target_row_group_rows"
  let ⟨maxRowGroupRows, h₂⟩ ← positiveSafeInteger limits.maxRowGroupRows "max_row_group_rows"
  let ⟨targetFileRows, h₃⟩ ← positiveSafeInteger limits.targetFileRows "target_file_rows"
  let ⟨maxFileRows, h₄⟩ ← positiveSafeInteger limits.maxFileRows "max_file_rows"
  let ⟨targetFileBytes, h₅⟩ ← positiveSafeInteger limits.targetFileBytes "target_file_bytes"
  let ⟨maxFileBytes, h₆⟩ ← positiveSafeInteger limits.maxFileBytes "max_file_bytes"
  let ⟨maxRowGroupsPerFile, h₇⟩ ←
    positiveSafeInteger limits.maxRowGroupsPerFile "max_row_groups_per_file"
  if hgroup : maxRowGroupRows < targetRowGroupRows then
    .error "target_row_group_rows must not exceed max_row_group_rows"
  else if hrows : maxFileRows < targetFileRows then
    .error "target_file_rows must not exceed max_file_rows"
  else if hbytes : maxFileBytes < targetFileBytes then
    .error "target_file_bytes must not exceed max_file_bytes"
  else if hcap : observationHistoryAlignedRowCap < targetRowGroupRows ∨
      observationHistoryAlignedRowCap < maxRowGroupRows then
    .error ("timeseries-aligned-v2 row-group limits must not exceed the " ++
      toString observationHistoryAlignedRowCap ++ "-row segment cap")
  else
    pure
      { targetRowGroupRows, maxRowGroupRows, targetFileRows, maxFileRows, targetFileBytes,
        maxFileBytes, maxRowGroupsPerFile
        positive := by
          simp only [List.forall_mem_cons, List.not_mem_nil, false_implies, implies_true, and_true]
          exact ⟨h₁, h₂, h₃, h₄, h₅, h₆, h₇⟩
        rowGroupRows_le := not_lt.mp hgroup
        fileRows_le := not_lt.mp hrows
        fileBytes_le := not_lt.mp hbytes
        maxRowGroupRows_le := not_lt.mp (not_or.mp hcap).2 }

theorem Limits.maxRowGroupRows_pos (limits : Limits) : 0 < limits.maxRowGroupRows :=
  limits.positive _ (by simp)

theorem Limits.maxRowGroupsPerFile_pos (limits : Limits) : 0 < limits.maxRowGroupsPerFile :=
  limits.positive _ (by simp)

/-! ## Row groups -/

section Packing

variable {ρ : Type} (timeseriesId : ρ → ℤ) (limits : Limits)

/-- A row group, which is never empty. -/
abbrev RowGroup (ρ : Type) := {group : List ρ // group ≠ []}

/-- The runs of one timeseries, each cut at the hard capacity. -/
def packTimeseriesAwareRowGroups (rows : List ρ) : List (RowGroup ρ) :=
  ((runs timeseriesId rows).flatMap (chunks limits.maxRowGroupRows)).attachWith (· ≠ [])
    fun group hgroup ↦ by
      obtain ⟨run, -, hchunk⟩ := List.mem_flatMap.mp hgroup
      exact (mem_chunks limits.maxRowGroupRows_pos hchunk).1

/-- A file before it is serialised: its row groups, of which there is at least one. -/
structure Candidate (ρ : Type) where
  rowGroups : List (RowGroup ρ)
  ne_nil : rowGroups ≠ []

/-- The rows of groups one after another: `groups.flat()`. -/
def flat (groups : List (RowGroup ρ)) : List ρ := (groups.map Subtype.val).flatten

def Candidate.rows (candidate : Candidate ρ) : List ρ := flat candidate.rowGroups

/-- The size at which the writer cuts the rows: that of the first group. -/
def Candidate.rowGroupRows (candidate : Candidate ρ) : ℕ :=
  (candidate.rowGroups.head candidate.ne_nil).val.length

/-! ## Files -/

/-- The files so far and the groups of the one that is being filled. -/
structure Packing (ρ : Type) where
  files : List (Candidate ρ)
  currentGroups : List (RowGroup ρ)
  currentRows : ℕ

def Packing.flush (packing : Packing ρ) : Packing ρ :=
  if h : packing.currentGroups = [] then ⟨packing.files, [], 0⟩
  else ⟨packing.files ++ [⟨packing.currentGroups, h⟩], [], 0⟩

/-- One turn of the loop over the groups. -/
def packGroup (packing : Packing ρ) (group : RowGroup ρ) : Except String (Packing ρ) :=
  if limits.maxFileRows < group.val.length then
    .error "One intended row group exceeds max_file_rows"
  else if h : packing.currentGroups = [] then
    .ok { packing with currentGroups := [group], currentRows := group.val.length }
  else
    let fixedWriterGroupRows := (packing.currentGroups.head h).val.length
    let previousWasShort := (packing.currentGroups.getLast h).val.length < fixedWriterGroupRows
    let nextRows := packing.currentRows + group.val.length
    let compatible := ¬previousWasShort ∧ group.val.length ≤ fixedWriterGroupRows ∧
      packing.currentGroups.length < limits.maxRowGroupsPerFile ∧
      nextRows ≤ limits.targetFileRows ∧ nextRows ≤ limits.maxFileRows
    let packing := if compatible then packing else packing.flush
    .ok { packing with
      currentGroups := packing.currentGroups ++ [group]
      currentRows := packing.currentRows + group.val.length }

def packCompatibleRowGroupsIntoFiles (rowGroups : List (RowGroup ρ)) :
    Except String (List (Candidate ρ)) := do
  let packing ← rowGroups.foldlM (packGroup limits) ⟨[], [], 0⟩
  pure packing.flush.files

/-! ## What the groups are -/

theorem flat_append (groups groups' : List (RowGroup ρ)) :
    flat (groups ++ groups') = flat groups ++ flat groups' := by
  rw [flat, List.map_append, List.flatten_append]
  rfl

theorem flat_singleton (group : RowGroup ρ) : flat [group] = group.val := by
  rw [flat, List.map_singleton, List.flatten_singleton]

/-- The row groups are the rows, cut. -/
theorem flat_packTimeseriesAwareRowGroups (rows : List ρ) :
    flat (packTimeseriesAwareRowGroups timeseriesId limits rows) = rows := by
  have hcut : ((runs timeseriesId rows).flatMap (chunks limits.maxRowGroupRows)).flatten = rows := by
    rw [List.flatMap, List.flatten_flatten, List.map_map]
    have hchunks : (List.flatten ∘ chunks limits.maxRowGroupRows : List ρ → List ρ) = id :=
      funext fun run ↦ flatten_chunks limits.maxRowGroupRows_pos run
    rw [hchunks, List.map_id, flatten_runs]
  rw [flat, packTimeseriesAwareRowGroups, List.attachWith_map_subtype_val, hcut]

/-- A row group has rows of one timeseries, and at most as many as its capacity. -/
structure OneTimeseries (group : RowGroup ρ) : Prop where
  timeseries : ∀ a ∈ group.val, ∀ b ∈ group.val, timeseriesId a = timeseriesId b
  length_le : group.val.length ≤ limits.maxRowGroupRows

theorem oneTimeseries_of_mem {rows : List ρ} {group : RowGroup ρ}
    (h : group ∈ packTimeseriesAwareRowGroups timeseriesId limits rows) :
    OneTimeseries timeseriesId limits group := by
  have hval := List.mem_map_of_mem (f := Subtype.val) h
  rw [packTimeseriesAwareRowGroups, List.attachWith_map_subtype_val] at hval
  obtain ⟨run, hrun, hchunk⟩ := List.mem_flatMap.mp hval
  obtain ⟨-, hle, hmem⟩ := mem_chunks limits.maxRowGroupRows_pos hchunk
  exact ⟨fun a ha b hb ↦ key_eq_of_mem_runs hrun a (hmem a ha) b (hmem b hb), hle⟩

/-! ## What the files are -/

variable {limits}

/-- Row groups that can make up one file: the writer cuts them off again at the size of the first,
and they are within the limits of a file. -/
structure FitsFile (limits : Limits) (groups : List (RowGroup ρ)) : Prop where
  full : ∀ first ∈ groups.head?, ∀ group ∈ groups.dropLast, group.val.length = first.val.length
  le : ∀ first ∈ groups.head?, ∀ group ∈ groups, group.val.length ≤ first.val.length
  rows_le : (flat groups).length ≤ limits.maxFileRows
  groups_le : groups.length ≤ limits.maxRowGroupsPerFile

theorem fitsFile_nil : FitsFile limits ([] : List (RowGroup ρ)) :=
  ⟨nofun, nofun, Nat.zero_le _, Nat.zero_le _⟩

theorem fitsFile_singleton {group : RowGroup ρ} (h : ¬limits.maxFileRows < group.val.length) :
    FitsFile limits [group] := by
  refine ⟨nofun, ?_, ?_, limits.maxRowGroupsPerFile_pos⟩
  · intro first hfirst other hother
    rw [List.mem_singleton.mp hother, Option.some.inj hfirst]
  · rw [flat_singleton]
    exact not_lt.mp h

/-- A compatible group: the groups before it are all full. -/
theorem FitsFile.append {groups : List (RowGroup ρ)} (h : FitsFile limits groups) (hne : groups ≠ [])
    {group : RowGroup ρ}
    (hlast : ¬(groups.getLast hne).val.length < (groups.head hne).val.length)
    (hle : group.val.length ≤ (groups.head hne).val.length)
    (hgroups : groups.length < limits.maxRowGroupsPerFile)
    (hrows : (flat groups).length + group.val.length ≤ limits.maxFileRows) :
    FitsFile limits (groups ++ [group]) := by
  have hhead : groups.head? = some (groups.head hne) := List.head?_eq_some_head hne
  have hfirst : ∀ first ∈ (groups ++ [group]).head?, first = groups.head hne := by
    intro first hmem
    rw [List.head?_append, hhead, Option.some_or] at hmem
    exact (Option.some.inj hmem).symm
  have hold := h.le _ hhead
  have hallFull : ∀ other ∈ groups, other.val.length = (groups.head hne).val.length := by
    intro other hother
    rw [← List.dropLast_append_getLast hne, List.mem_append, List.mem_singleton] at hother
    rcases hother with hdrop | rfl
    · exact h.full _ hhead other hdrop
    · exact le_antisymm (hold _ (List.getLast_mem hne)) (not_lt.mp hlast)
  refine ⟨?_, ?_, ?_, ?_⟩
  · intro first hmem other hother
    rw [List.dropLast_concat] at hother
    rw [hfirst first hmem, hallFull other hother]
  · intro first hmem other hother
    rw [hfirst first hmem]
    rcases List.mem_append.mp hother with hother | hother
    · exact hold other hother
    · rw [List.mem_singleton.mp hother]
      exact hle
  · rw [flat_append, flat_singleton, List.length_append]
    exact hrows
  · rw [List.length_append]
    exact hgroups

/-- What holds between two turns of the loop: the groups so far are in the files and in the one
that is being filled. -/
structure Packed (limits : Limits) (done : List (RowGroup ρ)) (packing : Packing ρ) : Prop where
  groups : packing.files.flatMap Candidate.rowGroups ++ packing.currentGroups = done
  files : ∀ file ∈ packing.files, FitsFile limits file.rowGroups
  current : FitsFile limits packing.currentGroups
  rows : packing.currentRows = (flat packing.currentGroups).length

theorem Packed.flush {done : List (RowGroup ρ)} {packing : Packing ρ} (h : Packed limits done packing) :
    Packed limits done packing.flush ∧ packing.flush.currentGroups = [] := by
  rw [Packing.flush]
  by_cases hne : packing.currentGroups = []
  · rw [dif_pos hne]
    exact ⟨⟨by rw [← h.groups, hne], h.files, fitsFile_nil, rfl⟩, rfl⟩
  · rw [dif_neg hne]
    refine ⟨⟨?_, ?_, fitsFile_nil, rfl⟩, rfl⟩
    · rw [← h.groups, List.append_nil, List.flatMap_append, List.flatMap_singleton]
    · intro file hfile
      rcases List.mem_append.mp hfile with hfile | hfile
      · exact h.files file hfile
      · rw [List.mem_singleton.mp hfile]
        exact h.current

theorem Packed.packGroup {done : List (RowGroup ρ)} {packing packing' : Packing ρ}
    (h : Packed limits done packing) {group : RowGroup ρ}
    (hstep : packGroup limits packing group = .ok packing') :
    Packed limits (done ++ [group]) packing' := by
  rw [TargetWriter.packGroup] at hstep
  by_cases hlarge : limits.maxFileRows < group.val.length
  · rw [if_pos hlarge] at hstep
    cases hstep
  · rw [if_neg hlarge] at hstep
    by_cases hempty : packing.currentGroups = []
    · rw [dif_pos hempty] at hstep
      rw [← Except.ok.inj hstep]
      refine ⟨?_, h.files, fitsFile_singleton hlarge, by rw [flat_singleton]⟩
      rw [← h.groups, hempty, List.append_nil]
    · rw [dif_neg hempty] at hstep
      dsimp only at hstep
      split at hstep
      · rename_i hcompatible
        obtain ⟨hlast, hle, hgroups, -, hrows⟩ := hcompatible
        rw [h.rows] at hrows
        rw [← Except.ok.inj hstep]
        refine ⟨by rw [← h.groups, List.append_assoc], h.files,
          h.current.append hempty hlast hle hgroups hrows, ?_⟩
        rw [flat_append, flat_singleton, List.length_append, h.rows]
      · obtain ⟨hflush, hnone⟩ := h.flush
        rw [← Except.ok.inj hstep]
        refine ⟨by rw [← hflush.groups, List.append_assoc], hflush.files, ?_, ?_⟩
        · rw [hnone]
          exact fitsFile_singleton hlarge
        · rw [flat_append, flat_singleton, List.length_append, hflush.rows]

/-- **The files hold the groups in their order**, and each file is within its limits. -/
theorem packCompatibleRowGroupsIntoFiles_eq_ok {rowGroups : List (RowGroup ρ)}
    {files : List (Candidate ρ)} (h : packCompatibleRowGroupsIntoFiles limits rowGroups = .ok files) :
    files.flatMap Candidate.rowGroups = rowGroups ∧ ∀ file ∈ files, FitsFile limits file.rowGroups := by
  obtain ⟨packing, hfold, h⟩ := Except.bind_eq_ok_iff.mp h
  have hpacked : Packed limits rowGroups packing :=
    Except.foldlM_invariant hfold ⟨rfl, nofun, fitsFile_nil, rfl⟩
      fun done group rest s s' _ hinv hstep ↦ hinv.packGroup hstep
  obtain ⟨hflush, hnone⟩ := hpacked.flush
  have hgroups := hflush.groups
  rw [hnone, List.append_nil] at hgroups
  rw [← Except.ok.inj h]
  exact ⟨hgroups, hflush.files⟩

/-- The packing only fails at a group that is larger than a file may be. -/
theorem packCompatibleRowGroupsIntoFiles_eq_error {rowGroups : List (RowGroup ρ)} {message : String}
    (h : packCompatibleRowGroupsIntoFiles limits rowGroups = .error message) :
    message = "One intended row group exceeds max_file_rows" ∧
      ∃ group ∈ rowGroups, limits.maxFileRows < group.val.length := by
  have hfold : rowGroups.foldlM (packGroup limits) ⟨[], [], 0⟩ = .error message := by
    rw [packCompatibleRowGroupsIntoFiles] at h
    rcases hfold : rowGroups.foldlM (packGroup limits) ⟨[], [], 0⟩ with error | packing
    · rw [hfold] at h
      rw [show error = message from Except.error.inj h]
    · rw [hfold] at h
      cases h
  obtain ⟨packing, group, hgroup, hstep⟩ := Except.exists_error_of_foldlM hfold
  rw [packGroup] at hstep
  by_cases hlarge : limits.maxFileRows < group.val.length
  · rw [if_pos hlarge] at hstep
    exact ⟨(Except.error.inj hstep).symm, group, hgroup, hlarge⟩
  · rw [if_neg hlarge] at hstep
    split at hstep <;> cases hstep

end Packing

end UkAqOps.TargetWriter

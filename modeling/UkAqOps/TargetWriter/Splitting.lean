import Mathlib.Data.Rat.Floor
import UkAqOps.TargetWriter.Packing

/-!
# Splitting files by their size

What a file takes in bytes is only known once it is serialised. A file that is too large is split in
two near its middle, at a change of the timeseries if there is one, else between row groups, and both
parts are packed anew. A split leaves a row on each side, so that the splitting ends.
-/

namespace UkAqOps.TargetWriter

open Cutting

/-! ## Where to split -/

section Split

variable {ρ : Type} (timeseriesId : ρ → ℤ)

/-- The boundary nearest to the midpoint, the smaller one of two that are as near. -/
def nearestBoundary (boundaries : List ℕ) (midpoint : ℚ) : Option ℕ :=
  boundaries.head?.map fun first ↦ boundaries.tail.foldl
    (fun (nearest boundary : ℕ) ↦
      let distance := |(boundary : ℚ) - midpoint|
      let nearestDistance := |(nearest : ℚ) - midpoint|
      if distance < nearestDistance ∨ distance = nearestDistance ∧ boundary < nearest then boundary
      else nearest) first

/-- The positions at which another timeseries begins. -/
def timeseriesBoundaries (rows : List ρ) : List ℕ :=
  (List.range' 1 (rows.length - 1)).filter fun index ↦
    rows[index - 1]?.map timeseriesId ≠ rows[index]?.map timeseriesId

/-- The positions behind groups, `rowCount` rows being in front of the first. -/
def rowGroupBoundaries (rowCount : ℕ) : List (RowGroup ρ) → List ℕ
  | [] => []
  | group :: rest =>
    (rowCount + group.val.length) :: rowGroupBoundaries (rowCount + group.val.length) rest

def deterministicByteSplit (rows : List ρ) (rowGroups : List (RowGroup ρ)) : ℕ :=
  let midpoint : ℚ := rows.length / 2
  match nearestBoundary (timeseriesBoundaries timeseriesId rows) midpoint with
  | some boundary => boundary
  | none =>
    match nearestBoundary (rowGroupBoundaries 0 rowGroups.dropLast) midpoint with
    | some boundary => boundary
    | none => max 1 ⌊midpoint⌋.toNat

/-- The nearest boundary is one of the boundaries. -/
theorem nearestBoundary_mem {boundaries : List ℕ} {midpoint : ℚ} {boundary : ℕ}
    (h : nearestBoundary boundaries midpoint = some boundary) : boundary ∈ boundaries := by
  rcases boundaries with _ | ⟨first, rest⟩
  · cases h
  · rw [nearestBoundary, List.head?_cons, Option.map_some] at h
    rw [← Option.some.inj h, List.tail_cons]
    refine List.foldlRecOn rest _ List.mem_cons_self fun nearest hnearest other hother ↦ ?_
    dsimp only
    split
    · exact List.mem_cons_of_mem _ hother
    · exact hnearest

theorem timeseriesBoundaries_bounds {rows : List ρ} {boundary : ℕ}
    (h : boundary ∈ timeseriesBoundaries timeseriesId rows) :
    0 < boundary ∧ boundary < rows.length := by
  have hrange := List.mem_range'_1.mp (List.mem_filter.mp h).1
  omega

theorem rowGroupBoundaries_bounds {rowCount : ℕ} {groups : List (RowGroup ρ)} {boundary : ℕ}
    (h : boundary ∈ rowGroupBoundaries rowCount groups) :
    rowCount < boundary ∧ boundary ≤ rowCount + (flat groups).length := by
  induction groups generalizing rowCount with
  | nil => cases h
  | cons group rest ih =>
    have hpos := List.length_pos_iff.mpr group.property
    have hflat : (flat (group :: rest)).length = group.val.length + (flat rest).length := by
      rw [flat, List.map_cons, List.flatten_cons, List.length_append]
      rfl
    rw [hflat]
    rcases List.mem_cons.mp h with rfl | h
    · omega
    · have hrest := ih h
      omega

/-- **A split leaves rows on both sides.** -/
theorem deterministicByteSplit_bounds (candidate : Candidate ρ) (hone : candidate.rows.length ≠ 1) :
    0 < deterministicByteSplit timeseriesId candidate.rows candidate.rowGroups ∧
      deterministicByteSplit timeseriesId candidate.rows candidate.rowGroups <
        candidate.rows.length := by
  have hlast := List.length_pos_iff.mpr (candidate.rowGroups.getLast candidate.ne_nil).property
  have hrows : candidate.rows.length = (flat candidate.rowGroups.dropLast).length +
      (candidate.rowGroups.getLast candidate.ne_nil).val.length := by
    have hsplit := List.dropLast_append_getLast candidate.ne_nil
    have hflat := congrArg flat hsplit
    rw [flat_append, flat_singleton] at hflat
    rw [Candidate.rows, ← hflat, List.length_append]
  rw [deterministicByteSplit]
  split
  · rename_i boundary hboundary
    exact timeseriesBoundaries_bounds timeseriesId (nearestBoundary_mem hboundary)
  · split
    · rename_i boundary hboundary
      have hbounds := rowGroupBoundaries_bounds (nearestBoundary_mem hboundary)
      omega
    · have hfloor : ⌊(candidate.rows.length : ℚ) / (2 : ℕ)⌋ = candidate.rows.length / (2 : ℕ) :=
        Rat.floor_natCast_div_natCast candidate.rows.length 2
      rw [Nat.cast_ofNat] at hfloor
      rw [hfloor]
      omega

end Split

/-! ## Serialising -/

/-- The Parquet writer: the bytes of rows that it cuts into row groups of a size. -/
structure Serializer (ρ β : Type) where
  serializeRows : List ρ → ℕ → β
  byteLength : β → ℕ

/-- A file with its bytes. -/
structure File (ρ β : Type) extends Candidate ρ where
  body : β

section Serialize

variable {ρ β : Type} (timeseriesId : ρ → ℤ) (limits : Limits) (serializer : Serializer ρ β)

/-- Serialise a file, and split it if it is larger than its target. The parts have fewer rows than
the file, so that `build` is only asked for shorter lists. -/
def serializeWithinByteBounds (candidate : Candidate ρ)
    (build : (rows : List ρ) → rows.length < candidate.rows.length →
      Except String (List (File ρ β))) : Except String (List (File ρ β)) :=
  let body := serializer.serializeRows candidate.rows candidate.rowGroupRows
  if serializer.byteLength body ≤ limits.targetFileBytes then .ok [{ candidate with body }]
  else if hone : candidate.rows.length = 1 then
    if limits.maxFileBytes < serializer.byteLength body then
      .error ("One canonical observation row serialised to " ++
        toString (serializer.byteLength body) ++ " bytes, exceeding max_file_bytes=" ++
        toString limits.maxFileBytes)
    else .ok [{ candidate with body }]
  else
    let splitAt := deterministicByteSplit timeseriesId candidate.rows candidate.rowGroups
    have hbounds := deterministicByteSplit_bounds timeseriesId candidate hone
    do
      let left ← build (candidate.rows.take splitAt) (by rw [List.length_take]; omega)
      let right ← build (candidate.rows.drop splitAt) (by rw [List.length_drop]; omega)
      pure (left ++ right)

theorem flatMap_rows (files : List (Candidate ρ)) :
    files.flatMap Candidate.rows = flat (files.flatMap Candidate.rowGroups) := by
  induction files with
  | nil => rfl
  | cons file rest ih => rw [List.flatMap_cons, List.flatMap_cons, flat_append, ih, Candidate.rows]

/-- The packed files hold the rows in their order. -/
theorem flatMap_rows_of_packed {rows : List ρ} {candidates : List (Candidate ρ)}
    (h : packCompatibleRowGroupsIntoFiles limits
      (packTimeseriesAwareRowGroups timeseriesId limits rows) = .ok candidates) :
    candidates.flatMap Candidate.rows = rows := by
  rw [flatMap_rows, (packCompatibleRowGroupsIntoFiles_eq_ok h).1, flat_packTimeseriesAwareRowGroups]

theorem rows_length_le {rows : List ρ} {candidates : List (Candidate ρ)}
    (h : packCompatibleRowGroupsIntoFiles limits
      (packTimeseriesAwareRowGroups timeseriesId limits rows) = .ok candidates)
    {candidate : Candidate ρ} (hcandidate : candidate ∈ candidates) :
    candidate.rows.length ≤ rows.length := by
  have hsublist : candidate.rows.Sublist (candidates.flatMap Candidate.rows) := by
    rw [List.flatMap]
    exact List.sublist_flatten_of_mem (List.mem_map_of_mem hcandidate)
  rw [flatMap_rows_of_packed timeseriesId limits h] at hsublist
  exact hsublist.length_le

def buildSerializedCandidates (rows : List ρ) : Except String (List (File ρ β)) :=
  match _hpacked : packCompatibleRowGroupsIntoFiles limits
      (packTimeseriesAwareRowGroups timeseriesId limits rows) with
  | .error message => .error message
  | .ok candidates => List.flatten <$> candidates.attach.mapM fun candidate ↦
      serializeWithinByteBounds timeseriesId limits serializer candidate.val
        fun part _ ↦ buildSerializedCandidates part
termination_by rows.length
decreasing_by
  rename_i hshorter
  exact hshorter.trans_le (rows_length_le timeseriesId limits _hpacked candidate.property)

/-! ## What comes out -/

/-- A file as it should be: row groups of one timeseries that a cut of fixed size gives back, within
the limits on rows, groups and bytes. -/
structure LaidFile (file : File ρ β) : Prop where
  timeseries : ∀ group ∈ file.rowGroups, OneTimeseries timeseriesId limits group
  even : Even file.rowGroupRows (file.rowGroups.map Subtype.val)
  cut : chunks file.rowGroupRows file.rows = file.rowGroups.map Subtype.val
  rows_le : file.rows.length ≤ limits.maxFileRows
  groups_le : file.rowGroups.length ≤ limits.maxRowGroupsPerFile
  body : file.body = serializer.serializeRows file.rows file.rowGroupRows
  bytes_le : serializer.byteLength file.body ≤ limits.maxFileBytes

/-- Files that hold the rows in their order, each as it should be. -/
structure Laid (rows : List ρ) (files : List (File ρ β)) : Prop where
  rows : (files.flatMap fun file ↦ file.rows) = rows
  files : ∀ file ∈ files, LaidFile timeseriesId limits serializer file

/-- The two reasons for which rows are refused. -/
inductive Refused (rows : List ρ) : String → Prop
  | rowGroup (group : RowGroup ρ) (hgroup : OneTimeseries timeseriesId limits group)
      (hrows : ∀ row ∈ group.val, row ∈ rows) (hlarge : limits.maxFileRows < group.val.length) :
      Refused rows "One intended row group exceeds max_file_rows"
  | row (row : ρ) (hrow : row ∈ rows)
      (hlarge : limits.maxFileBytes < serializer.byteLength (serializer.serializeRows [row] 1)) :
      Refused rows ("One canonical observation row serialised to " ++
        toString (serializer.byteLength (serializer.serializeRows [row] 1)) ++
        " bytes, exceeding max_file_bytes=" ++ toString limits.maxFileBytes)

/-- What a build comes to: files that are as they should be, or a refusal. -/
def Outcome (rows : List ρ) (result : Except String (List (File ρ β))) : Prop :=
  match result with
  | .ok files => Laid timeseriesId limits serializer rows files
  | .error message => Refused timeseriesId limits serializer rows message

variable {timeseriesId limits serializer}

theorem Refused.mono {rows rows' : List ρ} {message : String}
    (h : Refused timeseriesId limits serializer rows message) (hrows : ∀ row ∈ rows, row ∈ rows') :
    Refused timeseriesId limits serializer rows' message := by
  rcases h with ⟨group, hgroup, hmem, hlarge⟩ | ⟨row, hrow, hlarge⟩
  · exact .rowGroup group hgroup (fun row hrow ↦ hrows row (hmem row hrow)) hlarge
  · exact .row row (hrows row hrow) hlarge

theorem laid_nil : Laid timeseriesId limits serializer [] [] := ⟨rfl, nofun⟩

theorem Laid.append {rows rows' : List ρ} {files files' : List (File ρ β)}
    (h : Laid timeseriesId limits serializer rows files)
    (h' : Laid timeseriesId limits serializer rows' files') :
    Laid timeseriesId limits serializer (rows ++ rows') (files ++ files') := by
  refine ⟨by rw [List.flatMap_append, h.rows, h'.rows], fun file hfile ↦ ?_⟩
  rcases List.mem_append.mp hfile with hfile | hfile
  · exact h.files file hfile
  · exact h'.files file hfile

/-- Files of consecutive parts are files of the whole. -/
theorem Laid.flatten {α : Type} {part : α → List ρ} {parts : List α}
    {fileLists : List (List (File ρ β))}
    (h : List.Forall₂ (fun a files ↦ Laid timeseriesId limits serializer (part a) files) parts
      fileLists) : Laid timeseriesId limits serializer (parts.flatMap part) fileLists.flatten := by
  induction h with
  | nil => exact laid_nil
  | cons hfirst _ ih =>
    rw [List.flatMap_cons, List.flatten_cons]
    exact hfirst.append ih

theorem Candidate.rowGroupRows_pos (candidate : Candidate ρ) : 0 < candidate.rowGroupRows :=
  List.length_pos_iff.mpr (candidate.rowGroups.head candidate.ne_nil).property

/-- The groups of a file are even pieces of the size of the first. -/
theorem FitsFile.even {candidate : Candidate ρ} (h : FitsFile limits candidate.rowGroups) :
    Even candidate.rowGroupRows (candidate.rowGroups.map Subtype.val) := by
  have hfirst := List.head?_eq_some_head candidate.ne_nil
  refine ⟨?_, ?_, ?_⟩
  · intro piece hpiece
    rw [← List.map_dropLast] at hpiece
    obtain ⟨group, hgroup, rfl⟩ := List.mem_map.mp hpiece
    exact h.full _ hfirst group hgroup
  · intro piece hpiece
    obtain ⟨group, hgroup, rfl⟩ := List.mem_map.mp hpiece
    exact h.le _ hfirst group hgroup
  · intro piece hpiece
    obtain ⟨group, -, rfl⟩ := List.mem_map.mp hpiece
    exact group.property

/-- A candidate whose bytes fit is a file as it should be. -/
theorem laid_singleton {candidate : Candidate ρ}
    (htimeseries : ∀ group ∈ candidate.rowGroups, OneTimeseries timeseriesId limits group)
    (hfits : FitsFile limits candidate.rowGroups)
    (hbytes : serializer.byteLength
      (serializer.serializeRows candidate.rows candidate.rowGroupRows) ≤ limits.maxFileBytes) :
    Laid timeseriesId limits serializer candidate.rows
      [{ candidate with body := serializer.serializeRows candidate.rows candidate.rowGroupRows }] := by
  refine ⟨by rw [List.flatMap_singleton], fun file hfile ↦ ?_⟩
  rw [List.mem_singleton.mp hfile]
  exact ⟨htimeseries, hfits.even, chunks_flatten candidate.rowGroupRows_pos hfits.even,
    hfits.rows_le, hfits.groups_le, rfl, hbytes⟩

/-- The file of one row has one group, and that has one row. -/
theorem Candidate.rowGroupRows_of_length {candidate : Candidate ρ} (h : candidate.rows.length = 1) :
    candidate.rowGroupRows = 1 := by
  have hpos := candidate.rowGroupRows_pos
  have hle : candidate.rowGroupRows ≤ candidate.rows.length := by
    rw [Candidate.rows, ← List.cons_head_tail candidate.ne_nil, flat, List.map_cons,
      List.flatten_cons, List.length_append]
    exact Nat.le_add_right _ _
  omega

/-- **One file**: if the build of shorter lists comes out right, so does the splitting. -/
theorem serializeWithinByteBounds_outcome {candidate : Candidate ρ}
    {build : (rows : List ρ) → rows.length < candidate.rows.length →
      Except String (List (File ρ β))}
    (htimeseries : ∀ group ∈ candidate.rowGroups, OneTimeseries timeseriesId limits group)
    (hfits : FitsFile limits candidate.rowGroups)
    (hbuild : ∀ rows hrows, Outcome timeseriesId limits serializer rows (build rows hrows)) :
    Outcome timeseriesId limits serializer candidate.rows
      (serializeWithinByteBounds timeseriesId limits serializer candidate build) := by
  rw [serializeWithinByteBounds]
  dsimp only
  split
  · rename_i htarget
    exact laid_singleton htimeseries hfits (htarget.trans limits.fileBytes_le)
  · split
    · rename_i hone
      split
      · rename_i hlarge
        obtain ⟨row, hrow⟩ := List.length_eq_one_iff.mp hone
        rw [hrow, Candidate.rowGroupRows_of_length hone] at hlarge ⊢
        exact Refused.row row List.mem_cons_self hlarge
      · rename_i hsmall
        exact laid_singleton htimeseries hfits (not_lt.mp hsmall)
    · rename_i hone
      set splitAt := deterministicByteSplit timeseriesId candidate.rows candidate.rowGroups
      have hbounds := deterministicByteSplit_bounds timeseriesId candidate hone
      have hleft := hbuild (candidate.rows.take splitAt) (by rw [List.length_take]; omega)
      have hright := hbuild (candidate.rows.drop splitAt) (by rw [List.length_drop]; omega)
      rcases hl : build (candidate.rows.take splitAt) (by rw [List.length_take]; omega) with
        message | left
      · rw [hl] at hleft
        exact hleft.mono fun row hrow ↦ List.mem_of_mem_take hrow
      · rcases hr : build (candidate.rows.drop splitAt) (by rw [List.length_drop]; omega) with
          message | right
        · rw [hr] at hright
          exact hright.mono fun row hrow ↦ List.mem_of_mem_drop hrow
        · rw [hl] at hleft
          rw [hr] at hright
          have hlaid := hleft.append hright
          rw [List.take_append_drop] at hlaid
          exact hlaid

variable (timeseriesId limits serializer)

/-- **The files of a partition are as they should be**, or the rows are refused. -/
theorem buildSerializedCandidates_outcome (rows : List ρ) :
    Outcome timeseriesId limits serializer rows
      (buildSerializedCandidates timeseriesId limits serializer rows) := by
  induction hlen : rows.length using Nat.strong_induction_on generalizing rows with
  | _ n ih =>
    rw [buildSerializedCandidates]
    split
    · rename_i message herror
      obtain ⟨rfl, group, hgroup, hlarge⟩ := packCompatibleRowGroupsIntoFiles_eq_error herror
      refine .rowGroup group (oneTimeseries_of_mem timeseriesId limits hgroup) (fun row hrow ↦ ?_)
        hlarge
      rw [← flat_packTimeseriesAwareRowGroups timeseriesId limits rows]
      exact List.mem_flatten.mpr ⟨group.val, List.mem_map_of_mem hgroup, hrow⟩
    · rename_i candidates hpacked
      obtain ⟨hgroups, hfits⟩ := packCompatibleRowGroupsIntoFiles_eq_ok hpacked
      have hrows := flatMap_rows_of_packed timeseriesId limits hpacked
      have hone : ∀ candidate : {candidate // candidate ∈ candidates},
          Outcome timeseriesId limits serializer candidate.val.rows
            (serializeWithinByteBounds timeseriesId limits serializer candidate.val
              fun part _ ↦ buildSerializedCandidates timeseriesId limits serializer part) := by
        rintro ⟨candidate, hcandidate⟩
        refine serializeWithinByteBounds_outcome (fun group hgroup ↦ ?_) (hfits _ hcandidate)
          fun part hpart ↦ ih part.length ?_ part rfl
        · have hmem : group ∈ packTimeseriesAwareRowGroups timeseriesId limits rows := by
            rw [← hgroups]
            exact List.mem_flatMap.mpr ⟨candidate, hcandidate, hgroup⟩
          exact oneTimeseries_of_mem timeseriesId limits hmem
        · exact hlen ▸ hpart.trans_le (rows_length_le timeseriesId limits hpacked hcandidate)
      rcases hmap : candidates.attach.mapM _ with message | fileLists
      · obtain ⟨candidate, -, herror⟩ := Except.exists_error_of_mapM hmap
        have hrefused := hone candidate
        rw [herror] at hrefused
        refine Refused.mono hrefused fun row hrow ↦ ?_
        rw [← hrows]
        exact List.mem_flatMap.mpr ⟨candidate.val, candidate.property, hrow⟩
      · have hlaid : Laid timeseriesId limits serializer
            (candidates.attach.flatMap fun candidate ↦ candidate.val.rows) fileLists.flatten := by
          refine Laid.flatten (((Except.mapM_eq_ok_iff _ _ _).mp hmap).imp fun candidate files hok ↦ ?_)
          have hone := hone candidate
          rw [hok] at hone
          exact hone
        have hattach : (candidates.attach.flatMap fun candidate ↦ candidate.val.rows) = rows := by
          rw [← hrows, ← List.flatMap_map, List.attach_map_subtype_val]
        rw [hattach] at hlaid
        exact hlaid

end Serialize

end UkAqOps.TargetWriter

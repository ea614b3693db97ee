import UkAqOps.WhoDaily.HourEnding

/-!
# What a prepared day consists of

The checks and the reads of the preparation, inverted once: `prepareWhoDailyRowsFromR2_eq_ok_iff`
names the rows that the day is prepared from and its blocks of rows. Stores whose partitions and
boundary rows are related then give related days (`prepare_of_related`).
-/

namespace UkAqOps.WhoDaily

open Sorting

variable {host : Host}

/-! ## Reading -/

theorem forall₂_eq_some_iff {α β : Type*} {f : α → Option β} {l : List α} {r : List β} :
    List.Forall₂ (fun a b ↦ f a = some b) l r ↔ (∀ a ∈ l, (f a).isSome) ∧ r = l.filterMap f := by
  induction l generalizing r with
  | nil =>
    rw [List.forall₂_nil_left_iff, List.filterMap_nil]
    exact (and_iff_right fun _ h ↦ absurd h List.not_mem_nil).symm
  | cons a rest ih =>
    constructor
    · rintro (_ | ⟨ha, hrest⟩)
      obtain ⟨hall, rfl⟩ := ih.mp hrest
      exact ⟨List.forall_mem_cons.mpr ⟨by rw [ha]; rfl, hall⟩, (List.filterMap_cons_some ha).symm⟩
    · rintro ⟨hall, rfl⟩
      obtain ⟨ha, hrest⟩ := List.forall_mem_cons.mp hall
      obtain ⟨b, hb⟩ := Option.isSome_iff_exists.mp ha
      rw [List.filterMap_cons_some hb]
      exact List.Forall₂.cons hb (ih.mpr ⟨hrest, rfl⟩)

theorem readRow_eq_ok_iff {day connectorId : ℤ} {pollutantCode key : String} {entry : StoredRow × ℕ}
    {row : R2ObservationRow} :
    readRow host day connectorId pollutantCode key entry = .ok row ↔
      checkedRow host day connectorId pollutantCode entry.1 = some row := by
  rw [readRow]
  cases checkedRow host day connectorId pollutantCode entry.1 <;> simp

theorem readParquetRows_eq_ok_iff {day connectorId : ℤ} {pollutantCode : String}
    {file : ParquetFile} {rows : List R2ObservationRow} :
    readParquetRows host day connectorId pollutantCode file = .ok rows ↔
      (∀ stored ∈ file.rows, (checkedRow host day connectorId pollutantCode stored).isSome) ∧
        rows = file.rows.filterMap (checkedRow host day connectorId pollutantCode) := by
  rw [readParquetRows, Except.mapM_eq_ok_iff, ← forall₂_eq_some_iff]
  simp only [readRow_eq_ok_iff]
  conv_rhs => rw [← List.zipIdx_map_fst 0 file.rows, List.forall₂_map_left_iff]

/-- The rows that the files of a partition hold, all of which can be read. -/
def StoredRows (files : PartitionFiles) (dayUtc : String) (connectorId : ℤ) (pollutantCode : String)
    (stored : List StoredRow) : Prop :=
  ∃ read : List ParquetFile, files dayUtc connectorId pollutantCode = .ok (read.map Except.ok) ∧
    stored = read.flatMap ParquetFile.rows

theorem readFiles_eq_ok_iff {day connectorId : ℤ} {pollutantCode : String}
    {found : List (Except String ParquetFile)} {blocks : List (List R2ObservationRow)} :
    (found.mapM fun file ↦ do readParquetRows host day connectorId pollutantCode (← file))
        = .ok blocks ↔
      ∃ read : List ParquetFile, found = read.map Except.ok ∧
        (∀ file ∈ read, ∀ stored ∈ file.rows,
          (checkedRow host day connectorId pollutantCode stored).isSome) ∧
        blocks = read.map fun file ↦
          file.rows.filterMap (checkedRow host day connectorId pollutantCode) := by
  rw [Except.mapM_eq_ok_iff]
  constructor
  · intro h
    induction h with
    | nil => exact ⟨[], rfl, fun _ hfile ↦ absurd hfile List.not_mem_nil, rfl⟩
    | cons hfile _ ih =>
      obtain ⟨read, rfl, hchecked, rfl⟩ := ih
      obtain ⟨file, rfl, hrows⟩ := Except.bind_eq_ok_iff.mp hfile
      obtain ⟨hall, rfl⟩ := readParquetRows_eq_ok_iff.mp hrows
      exact ⟨file :: read, rfl, List.forall_mem_cons.mpr ⟨hall, hchecked⟩, rfl⟩
  · rintro ⟨read, rfl, hchecked, rfl⟩
    rw [List.forall₂_map_left_iff, List.forall₂_map_right_iff, List.forall₂_same]
    intro file hfile
    exact readParquetRows_eq_ok_iff.mpr ⟨hchecked file hfile, rfl⟩

/-- The rows of a partition are its stored rows, all of which pass the check. -/
theorem readPartition_eq_ok_iff {files : PartitionFiles} {dayUtc : String} {connectorId : ℤ}
    {pollutantCode : String} {rows : List R2ObservationRow} :
    readValidatedObservationPollutantPartition host files dayUtc connectorId pollutantCode
        = .ok rows ↔
      ∃ day, assertIsoDay dayUtc "dayUtc" = .ok day ∧
        host.toLowerCase (trimText pollutantCode) ∈ ["pm25", "pm10", "no2"] ∧
        ∃ stored, StoredRows files dayUtc connectorId (host.toLowerCase (trimText pollutantCode))
            stored ∧
          (∀ row ∈ stored, (checkedRow host day connectorId
            (host.toLowerCase (trimText pollutantCode)) row).isSome) ∧
          rows = stored.filterMap
            (checkedRow host day connectorId (host.toLowerCase (trimText pollutantCode))) := by
  rw [readValidatedObservationPollutantPartition, Except.bind_eq_ok_iff]
  refine exists_congr fun day ↦ and_congr_right fun _ ↦ ?_
  constructor
  · intro h
    obtain ⟨_, hsupported, h⟩ := Except.bind_eq_ok_iff.mp h
    obtain ⟨found, hfound, h⟩ := Except.bind_eq_ok_iff.mp h
    obtain ⟨blocks, hblocks, h⟩ := Except.bind_eq_ok_iff.mp h
    obtain ⟨read, rfl, hchecked, rfl⟩ := readFiles_eq_ok_iff.mp hblocks
    refine ⟨not_not.mp (Except.refuseIf_eq_ok_iff.mp hsupported), _, ⟨read, hfound, rfl⟩, ?_, ?_⟩
    · intro row hrow
      obtain ⟨file, hfile, hrow⟩ := List.mem_flatMap.mp hrow
      exact hchecked file hfile row hrow
    · rw [← Except.pure_eq_ok_iff.mp h, List.filterMap_flatMap, List.flatMap_def]
  · rintro ⟨hsupported, stored, ⟨read, hfound, rfl⟩, hchecked, rfl⟩
    rw [Except.bind_eq_ok_iff]
    refine ⟨(), Except.refuseIf_eq_ok_iff.mpr (not_not.mpr hsupported), ?_⟩
    rw [hfound, Except.ok_bind, Except.bind_eq_ok_iff]
    refine ⟨_, readFiles_eq_ok_iff.mpr ⟨read, rfl, fun file hfile row hrow ↦
      hchecked row (List.mem_flatMap.mpr ⟨file, hfile, hrow⟩), rfl⟩, ?_⟩
    rw [Except.pure_eq_ok_iff, List.filterMap_flatMap, List.flatMap_def]

/-! ## The checks and the loop -/

/-- A boundary row of the connector at the closing midnight. -/
def IsBoundaryRow (connectorId : ℤ) (boundaryAt : String) (pollutants : List String)
    (row : R2ObservationRow) : Prop :=
  row.connectorId = connectorId ∧ row.observedAtUtc = boundaryAt ∧ row.pollutantCode ∈ pollutants

theorem checkBoundaryRows_eq_ok_iff {connectorId : ℤ} {boundaryAt : String}
    {pollutants identities : List String} {entries : List (R2ObservationRow × ℕ)} :
    checkBoundaryRows connectorId boundaryAt pollutants identities entries = .ok () ↔
      (∀ row ∈ entries.map Prod.fst, IsBoundaryRow connectorId boundaryAt pollutants row) ∧
        ((entries.map Prod.fst).map boundaryIdentity).Nodup ∧
        ∀ row ∈ entries.map Prod.fst, boundaryIdentity row ∉ identities := by
  induction entries generalizing identities with
  | nil => simp [checkBoundaryRows]
  | cons entry rest ih =>
    obtain ⟨row, index⟩ := entry
    rw [checkBoundaryRows, Except.bind_eq_ok_iff]
    constructor
    · rintro ⟨_, hvalid, h⟩
      obtain ⟨_, hnew, h⟩ := Except.bind_eq_ok_iff.mp h
      obtain ⟨hall, hnodup, hold⟩ := ih.mp h
      have hvalid' := Except.refuseIf_eq_ok_iff.mp hvalid
      have hnew' := Except.refuseIf_eq_ok_iff.mp hnew
      push Not at hvalid'
      refine ⟨List.forall_mem_cons.mpr ⟨hvalid', hall⟩, List.nodup_cons.mpr ⟨?_, hnodup⟩,
        List.forall_mem_cons.mpr ⟨hnew', fun other hother ↦ ?_⟩⟩
      · intro hmem
        obtain ⟨other, hother, heq⟩ := List.mem_map.mp hmem
        exact hold other hother (List.mem_cons.mpr (Or.inl heq))
      · exact fun hmem ↦ hold other hother (List.mem_cons_of_mem _ hmem)
    · rintro ⟨hall, hnodup, hold⟩
      obtain ⟨hvalid, hall⟩ := List.forall_mem_cons.mp hall
      obtain ⟨hfresh, hnodup⟩ := List.nodup_cons.mp hnodup
      obtain ⟨hnew, hold⟩ := List.forall_mem_cons.mp hold
      refine ⟨(), Except.refuseIf_eq_ok_iff.mpr ?_, Except.bind_eq_ok_iff.mpr
        ⟨(), Except.refuseIf_eq_ok_iff.mpr hnew, ih.mpr ⟨hall, hnodup, fun other hother hmem ↦ ?_⟩⟩⟩
      · push Not
        exact hvalid
      · rcases List.mem_cons.mp hmem with heq | hmem
        · exact hfresh (heq ▸ List.mem_map_of_mem hother)
        · exact hold other hother hmem

def timeseriesOf (rows : List PreparedDailyRow) : List ℤ := rows.map PreparedDailyRow.timeseriesId

theorem addPreparedRows_eq_ok_iff {state state' : List ℤ × List PreparedDailyRow}
    {rows : List PreparedDailyRow} :
    addPreparedRows state rows = .ok state' ↔
      (timeseriesOf rows).Nodup ∧ (∀ id ∈ timeseriesOf rows, id ∉ state.1) ∧
        state' = ((timeseriesOf rows).reverse ++ state.1, state.2 ++ rows) := by
  induction rows generalizing state with
  | nil => simp [addPreparedRows, timeseriesOf, eq_comm]
  | cons row rest ih =>
    obtain ⟨seenTimeseries, preparedRows⟩ := state
    have htail : ((timeseriesOf rest).reverse ++ row.timeseriesId :: seenTimeseries,
        preparedRows ++ [row] ++ rest)
          = ((timeseriesOf (row :: rest)).reverse ++ seenTimeseries,
              preparedRows ++ row :: rest) := by
      simp [timeseriesOf]
    rw [addPreparedRows, Except.bind_eq_ok_iff]
    constructor
    · rintro ⟨_, hnew, h⟩
      obtain ⟨hnodup, hold, rfl⟩ := ih.mp h
      refine ⟨List.nodup_cons.mpr ⟨fun hmem ↦ hold _ hmem List.mem_cons_self, hnodup⟩,
        List.forall_mem_cons.mpr ⟨Except.refuseIf_eq_ok_iff.mp hnew,
          fun id hid hmem ↦ hold id hid (List.mem_cons_of_mem _ hmem)⟩, htail⟩
    · rintro ⟨hnodup, hold, rfl⟩
      obtain ⟨hfresh, hnodup⟩ := List.nodup_cons.mp hnodup
      obtain ⟨hnew, hold⟩ := List.forall_mem_cons.mp hold
      refine ⟨(), Except.refuseIf_eq_ok_iff.mpr hnew,
        ih.mpr ⟨hnodup, fun id hid hmem ↦ ?_, htail.symm⟩⟩
      rcases List.mem_cons.mp hmem with rfl | hmem
      · exact hfresh hid
      · exact hold id hid hmem

variable {files : PartitionFiles} {args : PrepareArgs} {day : ℤ}

/-- The rows of a pollutant are those of its source. -/
def IsBlock (host : Host) (files : PartitionFiles) (args : PrepareArgs) (day : ℤ)
    (pollutantCode : String) (block : List PreparedDailyRow) : Prop :=
  ∃ rows, sourceRows host files args day pollutantCode = .ok rows ∧
    block = aggregatePollutantRows host (day * dayMs) pollutantCode rows args.minValidHoursPerDay

/-- The step of the loop, run over the pollutants that are left. -/
theorem foldlM_pollutants_eq_ok_iff {pollutants : List String}
    {state state' : List ℤ × List PreparedDailyRow} :
    pollutants.foldlM (fun state pollutantCode ↦ do
        let rows ← sourceRows host files args day pollutantCode
        addPreparedRows state (aggregatePollutantRows host (day * dayMs) pollutantCode rows
          args.minValidHoursPerDay)) state = .ok state' ↔
      ∃ blocks, List.Forall₂ (IsBlock host files args day) pollutants blocks ∧
        (timeseriesOf blocks.flatten).Nodup ∧ (∀ id ∈ timeseriesOf blocks.flatten, id ∉ state.1) ∧
        state' = ((timeseriesOf blocks.flatten).reverse ++ state.1, state.2 ++ blocks.flatten) := by
  induction pollutants generalizing state with
  | nil => simp [timeseriesOf, eq_comm, pure, Except.pure]
  | cons pollutantCode rest ih =>
    have hsplit : ∀ block blocks, timeseriesOf (block :: blocks).flatten
        = timeseriesOf block ++ timeseriesOf blocks.flatten := fun block blocks ↦ by
      rw [List.flatten_cons, timeseriesOf, List.map_append, timeseriesOf, timeseriesOf]
    rw [List.foldlM_cons, Except.bind_eq_ok_iff]
    constructor
    · rintro ⟨middle, hfirst, h⟩
      obtain ⟨rows, hrows, hadd⟩ := Except.bind_eq_ok_iff.mp hfirst
      obtain ⟨hnodup, hold, rfl⟩ := addPreparedRows_eq_ok_iff.mp hadd
      obtain ⟨blocks, hblocks, hnodup', hold', rfl⟩ := ih.mp h
      refine ⟨_ :: blocks, List.Forall₂.cons ⟨rows, hrows, rfl⟩ hblocks, ?_, ?_, ?_⟩
      · rw [hsplit, List.nodup_append']
        refine ⟨hnodup, hnodup', fun id hid hid' ↦ hold' id hid' ?_⟩
        exact List.mem_append_left _ (List.mem_reverse.mpr hid)
      · rw [hsplit]
        intro id hid
        rcases List.mem_append.mp hid with hid | hid
        · exact hold id hid
        · exact fun hmem ↦ hold' id hid (List.mem_append_right _ hmem)
      · rw [hsplit, List.flatten_cons, List.reverse_append, List.append_assoc, List.append_assoc]
    · rintro ⟨_, hall, hnodup, hold, rfl⟩
      rcases hall with _ | ⟨⟨rows, hrows, rfl⟩, hblocks⟩
      rename_i blocks
      rw [hsplit, List.nodup_append'] at hnodup
      rw [hsplit] at hold
      refine ⟨_, Except.bind_eq_ok_iff.mpr ⟨rows, hrows, addPreparedRows_eq_ok_iff.mpr
        ⟨hnodup.1, fun id hid ↦ hold id (List.mem_append_left _ hid), rfl⟩⟩, ?_⟩
      refine ih.mpr ⟨blocks, hblocks, hnodup.2.1, fun id hid hmem ↦ ?_, ?_⟩
      · rcases List.mem_append.mp hmem with hmem | hmem
        · exact hnodup.2.2 (List.mem_reverse.mp hmem) hid
        · exact hold id (List.mem_append_right _ hid) hmem
      · rw [hsplit, List.flatten_cons, List.reverse_append, List.append_assoc, List.append_assoc]

/-! ## The prepared day -/

/-- What the arguments have to be like. -/
structure Accepted (host : Host) (args : PrepareArgs) (day : ℤ) : Prop where
  isDay : assertIsoDay args.dayUtc "dayUtc" = .ok day
  minimum : 1 ≤ args.minValidHoursPerDay ∧ args.minValidHoursPerDay ≤ 24
  pollutants : (normalizedPollutants host args).length = 3 ∧
    ∀ code ∈ ["pm25", "pm10", "no2"], code ∈ normalizedPollutants host args
  boundary : ∀ row ∈ args.boundaryRows.getD [], IsBoundaryRow args.connectorId
    (boundaryDay day ++ "T00:00:00.000Z") (normalizedPollutants host args) row
  boundaryOnce : ((args.boundaryRows.getD []).map boundaryIdentity).Nodup

def preparedDay (dayUtc : String) (rows : List PreparedDailyRow) : R2PreparedDay :=
  let preparedRows := sortBy (fun left right ↦ compare left.timeseriesId right.timeseriesId) rows
  { dayUtc := dayUtc
    preparedRows := preparedRows
    validPreparedRows := preparedRows.countP fun row ↦ row.dailyMeanUgm3.isSome
    insufficientPreparedRows := preparedRows.countP fun row ↦ row.dailyMeanUgm3.isNone }

/-- **The prepared day**: the blocks of the pollutants, no timeseries being in two of them. -/
theorem prepareWhoDailyRowsFromR2_eq_ok_iff {result : R2PreparedDay} :
    prepareWhoDailyRowsFromR2 host files args = .ok result ↔
      ∃ day, Accepted host args day ∧
        ∃ blocks,
          List.Forall₂ (IsBlock host files args day) (normalizedPollutants host args) blocks ∧
          (timeseriesOf blocks.flatten).Nodup ∧ blocks.flatten.length ≤ 2000 ∧
          result = preparedDay args.dayUtc blocks.flatten := by
  have hlength : ∀ rows : List PreparedDailyRow, (sortBy (fun left right : PreparedDailyRow ↦
      compare left.timeseriesId right.timeseriesId) rows).length = rows.length :=
    fun rows ↦ (sortBy_perm rows).length_eq
  rw [prepareWhoDailyRowsFromR2]
  constructor
  · intro h
    obtain ⟨day, hday, h⟩ := Except.bind_eq_ok_iff.mp h
    obtain ⟨_, hmin, h⟩ := Except.bind_eq_ok_iff.mp h
    obtain ⟨_, hpollutants, h⟩ := Except.bind_eq_ok_iff.mp h
    obtain ⟨_, hboundary, h⟩ := Except.bind_eq_ok_iff.mp h
    obtain ⟨state, hloop, h⟩ := Except.bind_eq_ok_iff.mp h
    obtain ⟨_, hsize, h⟩ := Except.bind_eq_ok_iff.mp h
    obtain ⟨blocks, hblocks, hnodup, -, rfl⟩ := foldlM_pollutants_eq_ok_iff.mp hloop
    obtain ⟨hrows, honce, -⟩ := checkBoundaryRows_eq_ok_iff.mp hboundary
    rw [List.zipIdx_map_fst] at hrows honce
    have hmin' := Except.refuseIf_eq_ok_iff.mp hmin
    have hpollutants' := Except.refuseIf_eq_ok_iff.mp hpollutants
    have hsize' := Except.refuseIf_eq_ok_iff.mp hsize
    push Not at hmin' hpollutants' hsize'
    rw [hlength] at hsize'
    exact ⟨day, ⟨hday, hmin', hpollutants', hrows, honce⟩, blocks, hblocks, hnodup, hsize',
      (Except.pure_eq_ok_iff.mp h).symm⟩
  · rintro ⟨day, haccepted, blocks, hblocks, hnodup, hsize, rfl⟩
    refine Except.bind_eq_ok_iff.mpr ⟨day, haccepted.isDay, Except.bind_eq_ok_iff.mpr ⟨(),
      Except.refuseIf_eq_ok_iff.mpr ?_, Except.bind_eq_ok_iff.mpr ⟨(),
      Except.refuseIf_eq_ok_iff.mpr ?_, Except.bind_eq_ok_iff.mpr ⟨(), ?_,
      Except.bind_eq_ok_iff.mpr ⟨_, foldlM_pollutants_eq_ok_iff.mpr ⟨blocks, hblocks, hnodup,
        fun _ _ ↦ List.not_mem_nil, rfl⟩, Except.bind_eq_ok_iff.mpr ⟨(),
      Except.refuseIf_eq_ok_iff.mpr ?_, rfl⟩⟩⟩⟩⟩⟩
    · push Not
      exact haccepted.minimum
    · push Not
      exact haccepted.pollutants
    · rw [checkBoundaryRows_eq_ok_iff, List.zipIdx_map_fst]
      exact ⟨haccepted.boundary, haccepted.boundaryOnce, fun _ _ ↦ List.not_mem_nil⟩
    · push Not
      rw [hlength]
      exact hsize

end UkAqOps.WhoDaily

import UkAqOps.WhoDaily.Preparation

/-!
# Related stores

A store is what the files of the partitions hold together with the boundary rows. Two changes of a
store matter: its rows come in another order, or its valid readings have other values. Either is
carried over to the prepared day by `prepare_of_related`.
-/

namespace UkAqOps.WhoDaily

open Sorting

variable {host : Host}

/-! ## Relations between stores -/

/-- A relation between the stored rows of partitions with the relation between their rows. -/
structure RowRelation (host : Host) where
  stored : List StoredRow → List StoredRow → Prop
  rows : List R2ObservationRow → List R2ObservationRow → Prop
  checked : ∀ {day connectorId : ℤ} {pollutantCode : String} {l l' : List StoredRow}, stored l l' →
    (∀ row ∈ l, (checkedRow host day connectorId pollutantCode row).isSome) →
      (∀ row ∈ l', (checkedRow host day connectorId pollutantCode row).isSome) ∧
        rows (l.filterMap (checkedRow host day connectorId pollutantCode))
          (l'.filterMap (checkedRow host day connectorId pollutantCode))
  append : ∀ {a a' b b'}, rows a a' → rows b b' → rows (a ++ b) (a' ++ b')
  ofPollutant : ∀ {l l'} (pollutantCode : String), rows l l' →
    rows (l.filter fun row ↦ row.pollutantCode = pollutantCode)
      (l'.filter fun row ↦ row.pollutantCode = pollutantCode)
  boundary : ∀ {l l' connectorId boundaryAt pollutants}, rows l l' →
    (∀ row ∈ l, IsBoundaryRow connectorId boundaryAt pollutants row) →
      ∀ row ∈ l', IsBoundaryRow connectorId boundaryAt pollutants row
  boundaryOnce : ∀ {l l'}, rows l l' → (l.map boundaryIdentity).Nodup →
    (l'.map boundaryIdentity).Nodup
  timeseries : ∀ {l l'} (startMs : ℤ) (pollutantCode : String), rows l l' →
    (dayTimeseries host startMs pollutantCode l).Perm (dayTimeseries host startMs pollutantCode l')

/-- The partitions and the boundary rows are related, all else is the same. -/
structure RowRelation.Stores (relation : RowRelation host) (files files' : PartitionFiles)
    (args args' : PrepareArgs) : Prop where
  files : ∀ {dayUtc connectorId pollutantCode stored},
    StoredRows files dayUtc connectorId pollutantCode stored →
      ∃ stored', StoredRows files' dayUtc connectorId pollutantCode stored' ∧
        relation.stored stored stored'
  boundaryRows : Option.Rel relation.rows args.boundaryRows args'.boundaryRows
  args : args' = { args with boundaryRows := args'.boundaryRows }

section Related

variable {relation : RowRelation host} {files files' : PartitionFiles} {args args' : PrepareArgs}

theorem readPartition_of_related (h : relation.Stores files files' args args') {dayUtc : String}
    {connectorId : ℤ} {pollutantCode : String} {rows : List R2ObservationRow}
    (hrows : readValidatedObservationPollutantPartition host files dayUtc connectorId pollutantCode
      = .ok rows) :
    ∃ rows', readValidatedObservationPollutantPartition host files' dayUtc connectorId pollutantCode
      = .ok rows' ∧ relation.rows rows rows' := by
  obtain ⟨day, hday, hsupported, stored, hstored, hchecked, rfl⟩ := readPartition_eq_ok_iff.mp hrows
  obtain ⟨stored', hstored', hrel⟩ := h.files hstored
  obtain ⟨hchecked', hrel'⟩ := relation.checked hrel hchecked
  exact ⟨_, readPartition_eq_ok_iff.mpr
    ⟨day, hday, hsupported, stored', hstored', hchecked', rfl⟩, hrel'⟩

theorem withContext_eq_ok_iff {α : Type} {text : String} {x : Except String α} {a : α} :
    withContext text x = .ok a ↔ x = .ok a := by
  cases x <;> simp [withContext]

theorem sourceRows_eq_ok_iff {files : PartitionFiles} {args : PrepareArgs} {day : ℤ}
    {pollutantCode : String} {rows : List R2ObservationRow} :
    sourceRows host files args day pollutantCode = .ok rows ↔
      ∃ dayRows boundary, readValidatedObservationPollutantPartition host files args.dayUtc
          args.connectorId pollutantCode = .ok dayRows ∧
        boundaryRowsOf host files args day pollutantCode = .ok boundary ∧
        rows = dayRows ++ boundary := by
  rw [sourceRows]
  constructor
  · intro h
    obtain ⟨dayRows, hdayRows, h⟩ := Except.bind_eq_ok_iff.mp h
    obtain ⟨boundary, hboundary, h⟩ := Except.bind_eq_ok_iff.mp h
    exact ⟨dayRows, boundary, withContext_eq_ok_iff.mp hdayRows, hboundary,
      (Except.pure_eq_ok_iff.mp h).symm⟩
  · rintro ⟨dayRows, boundary, hdayRows, hboundary, rfl⟩
    exact Except.bind_eq_ok_iff.mpr ⟨dayRows, withContext_eq_ok_iff.mpr hdayRows,
      Except.bind_eq_ok_iff.mpr ⟨boundary, hboundary, rfl⟩⟩

theorem boundaryRowsOf_of_related (h : relation.Stores files files' args args') {day : ℤ}
    {pollutantCode : String} {rows : List R2ObservationRow}
    (hrows : boundaryRowsOf host files args day pollutantCode = .ok rows) :
    ∃ rows', boundaryRowsOf host files' args' day pollutantCode = .ok rows' ∧
      relation.rows rows rows' := by
  have hconnector : args'.connectorId = args.connectorId := by rw [h.args]
  have hoption := h.boundaryRows
  rw [boundaryRowsOf] at hrows ⊢
  rw [hconnector]
  generalize args.boundaryRows = given at hoption hrows
  generalize args'.boundaryRows = given' at hoption
  rcases hoption with hrel | _
  · exact ⟨_, rfl, Except.ok.inj hrows ▸ relation.ofPollutant pollutantCode hrel⟩
  · obtain ⟨rows', hrows', hrel⟩ := readPartition_of_related h (withContext_eq_ok_iff.mp hrows)
    exact ⟨rows', withContext_eq_ok_iff.mpr hrows', hrel⟩

theorem sourceRows_of_related (h : relation.Stores files files' args args') {day : ℤ}
    {pollutantCode : String} {rows : List R2ObservationRow}
    (hrows : sourceRows host files args day pollutantCode = .ok rows) :
    ∃ rows', sourceRows host files' args' day pollutantCode = .ok rows' ∧
      relation.rows rows rows' := by
  obtain ⟨dayRows, boundary, hdayRows, hboundary, rfl⟩ := sourceRows_eq_ok_iff.mp hrows
  obtain ⟨dayRows', hdayRows', hrelDay⟩ := readPartition_of_related h hdayRows
  obtain ⟨boundary', hboundary', hrelBoundary⟩ := boundaryRowsOf_of_related h hboundary
  refine ⟨_, sourceRows_eq_ok_iff.mpr ⟨dayRows', boundary', ?_, hboundary', rfl⟩,
    relation.append hrelDay hrelBoundary⟩
  rw [h.args]
  exact hdayRows'

theorem boundaryRows_of_related (h : relation.Stores files files' args args') :
    relation.rows (args.boundaryRows.getD []) (args'.boundaryRows.getD []) ∨
      args'.boundaryRows.getD [] = [] := by
  have hoption := h.boundaryRows
  generalize args.boundaryRows = given at hoption
  generalize args'.boundaryRows = given' at hoption
  rcases hoption with hrel | _
  · exact Or.inl hrel
  · exact Or.inr rfl

theorem accepted_of_related (h : relation.Stores files files' args args') {day : ℤ}
    (haccepted : Accepted host args day) : Accepted host args' day := by
  have hpollutants : normalizedPollutants host args' = normalizedPollutants host args := by
    rw [h.args]
    rfl
  have hconnector : args'.connectorId = args.connectorId := by rw [h.args]
  refine ⟨by rw [h.args]; exact haccepted.isDay, by rw [h.args]; exact haccepted.minimum,
    by rw [hpollutants]; exact haccepted.pollutants, ?_, ?_⟩
  · rw [hpollutants, hconnector]
    rcases boundaryRows_of_related h with hrel | hnone
    · exact relation.boundary hrel haccepted.boundary
    · rw [hnone]
      exact fun _ hrow ↦ absurd hrow List.not_mem_nil
  · rcases boundaryRows_of_related h with hrel | hnone
    · exact relation.boundaryOnce hrel haccepted.boundaryOnce
    · rw [hnone]
      exact List.nodup_nil

/-- The blocks of one pollutant in two stores. -/
def RowRelation.Blocks (relation : RowRelation host) (args : PrepareArgs) (day : ℤ)
    (block block' : List PreparedDailyRow) : Prop :=
  ∃ pollutantCode rows rows', relation.rows rows rows' ∧
    block = aggregatePollutantRows host (day * dayMs) pollutantCode rows args.minValidHoursPerDay ∧
    block' = aggregatePollutantRows host (day * dayMs) pollutantCode rows' args.minValidHoursPerDay

theorem timeseriesOf_aggregatePollutantRows (host : Host) (startMs : ℤ) (pollutantCode : String)
    (rows : List R2ObservationRow) (minValidHoursPerDay : ℤ) :
    timeseriesOf (aggregatePollutantRows host startMs pollutantCode rows minValidHoursPerDay)
      = sortBy compare (dayTimeseries host startMs pollutantCode rows) := by
  rw [aggregatePollutantRows_eq, timeseriesOf, List.map_map]
  exact List.map_id' _

theorem RowRelation.Blocks.timeseriesOf_eq {day : ℤ} {block block' : List PreparedDailyRow}
    (h : relation.Blocks args day block block') : timeseriesOf block = timeseriesOf block' := by
  obtain ⟨pollutantCode, rows, rows', hrel, rfl, rfl⟩ := h
  rw [timeseriesOf_aggregatePollutantRows, timeseriesOf_aggregatePollutantRows]
  exact Sorting.sortBy_eq_of_perm (relation.timeseries _ _ hrel) fun _ _ _ _ ↦ compare_eq_iff_eq.mp

theorem timeseriesOf_flatten_of_related {day : ℤ} {blocks blocks' : List (List PreparedDailyRow)}
    (h : List.Forall₂ (relation.Blocks args day) blocks blocks') :
    timeseriesOf blocks.flatten = timeseriesOf blocks'.flatten := by
  induction h with
  | nil => rfl
  | cons hblock _ ih =>
    rw [List.flatten_cons, List.flatten_cons, timeseriesOf, timeseriesOf, List.map_append,
      List.map_append]
    exact congrArg₂ (· ++ ·) hblock.timeseriesOf_eq ih

/-- **A store that is related to a store that can be prepared can be prepared.** -/
theorem prepare_of_related (h : relation.Stores files files' args args') {result : R2PreparedDay}
    (hresult : prepareWhoDailyRowsFromR2 host files args = .ok result) :
    ∃ day blocks blocks', List.Forall₂ (relation.Blocks args day) blocks blocks' ∧
      result = preparedDay args.dayUtc blocks.flatten ∧
      prepareWhoDailyRowsFromR2 host files' args'
        = .ok (preparedDay args.dayUtc blocks'.flatten) := by
  obtain ⟨day, haccepted, blocks, hblocks, hnodup, hsize, rfl⟩ :=
    prepareWhoDailyRowsFromR2_eq_ok_iff.mp hresult
  have hpollutants : normalizedPollutants host args' = normalizedPollutants host args := by
    rw [h.args]
    rfl
  have hminimum : args'.minValidHoursPerDay = args.minValidHoursPerDay := by rw [h.args]
  obtain ⟨blocks', hblocks', hrel⟩ : ∃ blocks', List.Forall₂ (IsBlock host files' args' day)
      (normalizedPollutants host args') blocks' ∧
        List.Forall₂ (relation.Blocks args day) blocks blocks' := by
    rw [hpollutants]
    clear hnodup hsize hresult
    generalize normalizedPollutants host args = pollutants at hblocks ⊢
    induction hblocks with
    | nil => exact ⟨[], List.Forall₂.nil, List.Forall₂.nil⟩
    | cons hblock _ ih =>
      obtain ⟨blocks', hblocks', hrel⟩ := ih
      obtain ⟨rows, hrows, rfl⟩ := hblock
      obtain ⟨rows', hrows', hrelRows⟩ := sourceRows_of_related h hrows
      exact ⟨_ :: blocks', List.Forall₂.cons ⟨rows', hrows', rfl⟩ hblocks',
        List.Forall₂.cons ⟨_, rows, rows', hrelRows, rfl, by rw [hminimum]⟩ hrel⟩
  have htimeseries := timeseriesOf_flatten_of_related hrel
  have hlength : blocks'.flatten.length = blocks.flatten.length := by
    have hlen := congrArg List.length htimeseries
    rw [timeseriesOf, timeseriesOf, List.length_map, List.length_map] at hlen
    exact hlen.symm
  refine ⟨day, blocks, blocks', hrel, rfl, prepareWhoDailyRowsFromR2_eq_ok_iff.mpr
    ⟨day, accepted_of_related h haccepted, blocks', hblocks', ?_, ?_, ?_⟩⟩
  · rw [← htimeseries]
    exact hnodup
  · rw [hlength]
    exact hsize
  · rw [h.args]

end Related

/-! ## Another order -/

variable (host) in
/-- The same rows in another order. -/
def reordered : RowRelation host where
  stored := List.Perm
  rows := List.Perm
  checked h hchecked := ⟨fun row hrow ↦ hchecked row (h.mem_iff.mpr hrow), h.filterMap _⟩
  append := List.Perm.append
  ofPollutant _ h := h.filter _
  boundary h hrows row hrow := hrows row (h.mem_iff.mpr hrow)
  boundaryOnce h honce := (h.map _).nodup_iff.mp honce
  timeseries startMs pollutantCode h := dayTimeseries_perm host startMs pollutantCode h

/-- The prepared day does not depend on the order of the rows. -/
theorem prepare_of_reordered {files files' : PartitionFiles} {args args' : PrepareArgs}
    (h : (reordered host).Stores files files' args args') {result : R2PreparedDay}
    (hresult : prepareWhoDailyRowsFromR2 host files args = .ok result) :
    prepareWhoDailyRowsFromR2 host files' args' = .ok result := by
  obtain ⟨day, blocks, blocks', hblocks, rfl, hresult'⟩ := prepare_of_related h hresult
  have hsame : blocks = blocks' := by
    refine List.forall₂_eq_eq_eq ▸ hblocks.imp fun block block' hblock ↦ ?_
    obtain ⟨pollutantCode, rows, rows', hperm, rfl, rfl⟩ := hblock
    exact aggregatePollutantRows_perm host _ _ hperm _
  rw [hresult', hsame]

/-! ## Other values -/

/-- The value of a row with the number of a valid reading forgotten. -/
def valueLayout (value : Option ℚ) : Option ℚ :=
  (value.filter fun value ↦ decide (0 ≤ value)).map fun _ ↦ 0

def StoredRow.layout (row : StoredRow) : StoredRow := { row with value := valueLayout row.value }

def R2ObservationRow.layout (row : R2ObservationRow) : R2ObservationRow :=
  { row with value := valueLayout row.value }

theorem checkedRow_layout (day connectorId : ℤ) (pollutantCode : String) (row : StoredRow) :
    checkedRow host day connectorId pollutantCode row.layout
      = (checkedRow host day connectorId pollutantCode row).map R2ObservationRow.layout := by
  obtain ⟨rowConnector, station, timeseriesId, rowPollutant, observedAtUtc, value⟩ := row
  rcases timeseriesId with _ | timeseriesId
  · rfl
  rcases observedAtUtc with _ | observedAtUtc
  · rfl
  simp only [checkedRow, StoredRow.layout, Option.bind_eq_bind, Option.bind_some,
    apply_ite (Option.map R2ObservationRow.layout), Option.map_some, Option.map_none,
    R2ObservationRow.layout]
  exact if_congr Iff.rfl rfl rfl

theorem checkedRow_eq_some {day connectorId : ℤ} {pollutantCode : String} {stored : StoredRow}
    {row : R2ObservationRow}
    (h : checkedRow host day connectorId pollutantCode stored = some row) :
    stored.observedAtUtc = some row.observedAtUtc ∧ stored.value = row.value := by
  obtain ⟨rowConnector, station, timeseriesId, rowPollutant, observedAtUtc, value⟩ := stored
  rcases timeseriesId with _ | timeseriesId
  · cases h
  rcases observedAtUtc with _ | observedAtUtc
  · cases h
  simp only [checkedRow, Option.bind_eq_bind, Option.bind_some, Option.ite_none_right_eq_some,
    Option.some.injEq] at h
  obtain ⟨-, rfl⟩ := h
  exact ⟨rfl, rfl⟩

theorem observedInDay_layout (startMs : ℤ) (pollutantCode : String) (row : R2ObservationRow) :
    observedInDay host startMs pollutantCode row.layout
      = observedInDay host startMs pollutantCode row := rfl

theorem mem_dayTimeseries_layout {startMs : ℤ} {pollutantCode : String}
    {rows : List R2ObservationRow} {id : ℤ} :
    id ∈ dayTimeseries host startMs pollutantCode (rows.map R2ObservationRow.layout) ↔
      id ∈ dayTimeseries host startMs pollutantCode rows := by
  rw [dayTimeseries_mem, dayTimeseries_mem]
  constructor
  · rintro ⟨_, hmem, hid, hsome⟩
    obtain ⟨row, hrow, rfl⟩ := List.mem_map.mp hmem
    exact ⟨row, hrow, hid, hsome⟩
  · rintro ⟨row, hrow, hid, hsome⟩
    exact ⟨row.layout, List.mem_map_of_mem hrow, hid, hsome⟩

theorem valueLayout_filter (value : Option ℚ) :
    ((valueLayout value).filter fun value ↦ decide (0 ≤ value)).isSome
      = (value.filter fun value ↦ decide (0 ≤ value)).isSome := by
  rw [valueLayout]
  cases value.filter fun value ↦ decide (0 ≤ value) <;> simp

/-- The instants of the valid readings do not depend on their values. -/
theorem instants_layout (startMs : ℤ) (pollutantCode : String) (timeseriesId : ℤ)
    (rows : List R2ObservationRow) :
    (validReadings host startMs pollutantCode timeseriesId
        (rows.map R2ObservationRow.layout)).map Prod.fst
      = (validReadings host startMs pollutantCode timeseriesId rows).map Prod.fst := by
  rw [validReadings, validReadings, List.filterMap_map, List.map_filterMap, List.map_filterMap]
  refine List.filterMap_congr fun row _ ↦ ?_
  simp only [Function.comp_apply, observedInDay_layout]
  by_cases hid : row.timeseriesId = timeseriesId
  · have hid' : row.layout.timeseriesId = timeseriesId := hid
    rw [if_pos hid, if_pos hid']
    have hvalue := valueLayout_filter row.value
    rcases observedInDay host startMs pollutantCode row with _ | ms
    · rfl
    · simp only [Option.bind_some, Option.map_map, R2ObservationRow.layout]
      rcases hvalid : row.value.filter fun value ↦ decide (0 ≤ value) with _ | value <;>
        rcases hvalid' : (valueLayout row.value).filter fun value ↦ decide (0 ≤ value)
          with _ | value' <;>
        simp_all
  · have hid' : ¬row.layout.timeseriesId = timeseriesId := hid
    rw [if_neg hid, if_neg hid']

variable (host) in
/-- The same rows, only the values of valid readings being others. -/
def sameReadings : RowRelation host where
  stored l l' := l.map StoredRow.layout = l'.map StoredRow.layout
  rows l l' := l.map R2ObservationRow.layout = l'.map R2ObservationRow.layout
  checked {day connectorId pollutantCode l l'} h hchecked := by
    have hfilterMap : ∀ l : List StoredRow,
        (l.filterMap (checkedRow host day connectorId pollutantCode)).map R2ObservationRow.layout
          = (l.map StoredRow.layout).filterMap (checkedRow host day connectorId pollutantCode) := by
      intro l
      rw [List.map_filterMap, List.filterMap_map]
      exact List.filterMap_congr fun row _ ↦ (checkedRow_layout _ _ _ row).symm
    have hsome : ∀ row : StoredRow,
        (checkedRow host day connectorId pollutantCode row.layout).isSome
          = (checkedRow host day connectorId pollutantCode row).isSome := fun row ↦ by
      rw [checkedRow_layout, Option.isSome_map]
    refine ⟨fun row hrow ↦ ?_, by rw [hfilterMap, hfilterMap, h]⟩
    obtain ⟨row', hrow', hlayout⟩ := List.mem_map.mp (h ▸ List.mem_map_of_mem hrow)
    rw [← hsome, ← hlayout, hsome]
    exact hchecked row' hrow'
  append h h' := by rw [List.map_append, List.map_append, h, h']
  ofPollutant {l l'} pollutantCode h := by
    have hfilter : ∀ l : List R2ObservationRow,
        (l.filter fun row ↦ row.pollutantCode = pollutantCode).map R2ObservationRow.layout
          = (l.map R2ObservationRow.layout).filter fun row ↦ row.pollutantCode = pollutantCode := by
      intro l
      rw [List.filter_map]
      rfl
    rw [hfilter, hfilter, h]
  boundary h hrows row hrow := by
    obtain ⟨row', hrow', hlayout⟩ := List.mem_map.mp (h ▸ List.mem_map_of_mem hrow)
    have hvalid : IsBoundaryRow _ _ _ row'.layout := hrows row' hrow'
    rw [hlayout] at hvalid
    exact hvalid
  boundaryOnce {l l'} h honce := by
    have hidentity : ∀ l : List R2ObservationRow, l.map boundaryIdentity
        = (l.map R2ObservationRow.layout).map boundaryIdentity := fun l ↦ by
      rw [List.map_map]
      rfl
    rw [hidentity, ← h, ← hidentity]
    exact honce
  timeseries startMs pollutantCode h := dayTimeseries_perm_of_mem_iff host fun id ↦ by
    rw [← mem_dayTimeseries_layout, h, mem_dayTimeseries_layout]

theorem instants_of_sameReadings {rows rows' : List R2ObservationRow}
    (h : (sameReadings host).rows rows rows') (startMs : ℤ) (pollutantCode : String)
    (timeseriesId : ℤ) :
    (validReadings host startMs pollutantCode timeseriesId rows).map Prod.fst
      = (validReadings host startMs pollutantCode timeseriesId rows').map Prod.fst := by
  rw [← instants_layout, h, instants_layout]

end UkAqOps.WhoDaily

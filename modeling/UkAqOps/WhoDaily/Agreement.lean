import UkAqOps.WhoDaily.Related

/-!
# When a prepared day is the day of the hour-ending hours

`hourEndingDay_iff`: the rows of a store are those of the hour-ending hours, whatever the values of
its valid readings are, exactly when the clock hours and the hour-ending hours of each timeseries
agree on their instants (`HoursAgree`).
-/

namespace UkAqOps.WhoDaily

open Bucketing Sorting

variable {host : Host} {files : PartitionFiles} {args : PrepareArgs}

/-! ## The day of the hour-ending hours -/

/-- The rows of one of the pollutants that the day is prepared from. -/
structure Source (host : Host) (files : PartitionFiles) (args : PrepareArgs) (day : ℤ)
    (pollutantCode : String) (rows : List R2ObservationRow) : Prop where
  isDay : assertIsoDay args.dayUtc "dayUtc" = .ok day
  pollutant : pollutantCode ∈ normalizedPollutants host args
  rows : sourceRows host files args day pollutantCode = .ok rows

/-- The rows are those of the hour-ending hours, whatever the order of the stored rows is. -/
structure HourEndingDay (host : Host) (files : PartitionFiles) (args : PrepareArgs)
    (result : R2PreparedDay) : Prop where
  row : ∀ day pollutantCode rows, Source host files args day pollutantCode rows →
    ∀ row ∈ rows, (observedInDay host (day * dayMs) pollutantCode row).isSome →
      hourEndingRow args.minValidHoursPerDay (day * dayMs) row.timeseriesId
        (validReadings host (day * dayMs) pollutantCode row.timeseriesId rows) ∈ result.preparedRows
  source : ∀ prepared ∈ result.preparedRows, ∃ day pollutantCode rows,
    Source host files args day pollutantCode rows ∧ ∃ row ∈ rows,
      (observedInDay host (day * dayMs) pollutantCode row).isSome ∧
        row.timeseriesId = prepared.timeseriesId
  once : (timeseriesOf result.preparedRows).Nodup
  hours : ∀ prepared ∈ result.preparedRows, prepared.validHourCount ≤ 24
  order : ∀ files' args', (reordered host).Stores files files' args args' →
    prepareWhoDailyRowsFromR2 host files' args' = .ok result

/-- Each row counts the hour-ending hours. -/
def CountsHourEndingHours (host : Host) (files : PartitionFiles) (args : PrepareArgs)
    (result : R2PreparedDay) : Prop :=
  ∀ day pollutantCode rows, Source host files args day pollutantCode rows →
    ∀ row ∈ rows, (observedInDay host (day * dayMs) pollutantCode row).isSome →
      ∃ prepared ∈ result.preparedRows, prepared.timeseriesId = row.timeseriesId ∧
        prepared.validHourCount = (validHours (day * dayMs)
          (validReadings host (day * dayMs) pollutantCode row.timeseriesId rows)).card

/-- A property of the valid readings of each timeseries. -/
def OfReadings (host : Host) (files : PartitionFiles) (args : PrepareArgs)
    (P : ℤ → List (ℤ × ℚ) → Prop) : Prop :=
  ∀ day pollutantCode rows timeseriesId, Source host files args day pollutantCode rows →
    P (day * dayMs) (validReadings host (day * dayMs) pollutantCode timeseriesId rows)

/-! ## The rows of a prepared day -/

theorem mem_flatten_blocks {day : ℤ} {pollutants : List String}
    {blocks : List (List PreparedDailyRow)}
    (h : List.Forall₂ (IsBlock host files args day) pollutants blocks)
    {prepared : PreparedDailyRow} :
    prepared ∈ blocks.flatten ↔ ∃ pollutantCode ∈ pollutants, ∃ rows,
      sourceRows host files args day pollutantCode = .ok rows ∧
        prepared ∈ aggregatePollutantRows host (day * dayMs) pollutantCode rows
          args.minValidHoursPerDay := by
  induction h with
  | nil => simp
  | cons hblock _ ih =>
    obtain ⟨rows, hrows, rfl⟩ := hblock
    rw [List.flatten_cons, List.mem_append, ih, List.exists_mem_cons_iff]
    refine or_congr ⟨fun hmem ↦ ⟨rows, hrows, hmem⟩, ?_⟩ Iff.rfl
    rintro ⟨rows', hrows', hmem⟩
    rw [hrows] at hrows'
    rw [Except.ok.inj hrows']
    exact hmem

theorem mem_preparedRows_iff {result : R2PreparedDay}
    (h : prepareWhoDailyRowsFromR2 host files args = .ok result) {prepared : PreparedDailyRow} :
    prepared ∈ result.preparedRows ↔ ∃ day pollutantCode rows,
      Source host files args day pollutantCode rows ∧ ∃ row ∈ rows,
        (observedInDay host (day * dayMs) pollutantCode row).isSome ∧
          roundedRow (floorTo hourMs) args.minValidHoursPerDay row.timeseriesId
            (validReadings host (day * dayMs) pollutantCode row.timeseriesId rows) = prepared := by
  obtain ⟨day, haccepted, blocks, hblocks, -, -, rfl⟩ := prepareWhoDailyRowsFromR2_eq_ok_iff.mp h
  rw [preparedDay, mem_sortBy, mem_flatten_blocks hblocks]
  constructor
  · rintro ⟨pollutantCode, hpollutant, rows, hrows, hmem⟩
    obtain ⟨timeseriesId, hid, rfl⟩ := (mem_aggregatePollutantRows host).mp hmem
    obtain ⟨row, hrow, rfl, hsome⟩ := (dayTimeseries_mem host).mp hid
    exact ⟨day, pollutantCode, rows, ⟨haccepted.isDay, hpollutant, hrows⟩, row, hrow, hsome, rfl⟩
  · rintro ⟨day', pollutantCode, rows, hsource, row, hrow, hsome, rfl⟩
    obtain rfl : day = day' := Except.ok.inj (haccepted.isDay.symm.trans hsource.isDay)
    exact ⟨pollutantCode, hsource.pollutant, rows, hsource.rows,
      (mem_aggregatePollutantRows host).mpr ⟨row.timeseriesId, (dayTimeseries_mem host).mpr ⟨row, hrow, rfl, hsome⟩, rfl⟩⟩

theorem nodup_timeseriesOf_preparedRows {result : R2PreparedDay}
    (h : prepareWhoDailyRowsFromR2 host files args = .ok result) :
    (timeseriesOf result.preparedRows).Nodup := by
  obtain ⟨day, -, blocks, -, hnodup, -, rfl⟩ := prepareWhoDailyRowsFromR2_eq_ok_iff.mp h
  exact ((sortBy_perm blocks.flatten).map PreparedDailyRow.timeseriesId).nodup_iff.mpr hnodup

theorem eq_of_timeseriesId_eq {result : R2PreparedDay}
    (h : prepareWhoDailyRowsFromR2 host files args = .ok result)
    {prepared prepared' : PreparedDailyRow} (hmem : prepared ∈ result.preparedRows)
    (hmem' : prepared' ∈ result.preparedRows)
    (hid : prepared.timeseriesId = prepared'.timeseriesId) : prepared = prepared' :=
  List.inj_on_of_nodup_map (nodup_timeseriesOf_preparedRows h) hmem hmem' hid

theorem validReadings_eq_nil {startMs : ℤ} {pollutantCode : String} {timeseriesId : ℤ}
    {rows : List R2ObservationRow} (h : ∀ row ∈ rows, row.timeseriesId = timeseriesId →
      ¬(observedInDay host startMs pollutantCode row).isSome) :
    validReadings host startMs pollutantCode timeseriesId rows = [] := by
  refine List.filterMap_eq_nil_iff.mpr fun row hrow ↦ ?_
  by_cases hid : row.timeseriesId = timeseriesId
  · have hnone := Option.not_isSome_iff_eq_none.mp (h row hrow hid)
    rw [if_pos hid, hnone, Option.bind_none]
  · rw [if_neg hid]

/-- What holds of no readings has to be shown of the timeseries of the day alone. -/
theorem ofReadings_iff {P : ℤ → List (ℤ × ℚ) → Prop} (hnil : ∀ startMs, P startMs []) :
    OfReadings host files args P ↔ ∀ day pollutantCode rows,
      Source host files args day pollutantCode rows →
        ∀ row ∈ rows, (observedInDay host (day * dayMs) pollutantCode row).isSome →
          P (day * dayMs)
            (validReadings host (day * dayMs) pollutantCode row.timeseriesId rows) := by
  refine ⟨fun h day pollutantCode rows hsource row _ _ ↦ h day pollutantCode rows _ hsource,
    fun h day pollutantCode rows timeseriesId hsource ↦ ?_⟩
  by_cases hday : ∃ row ∈ rows, row.timeseriesId = timeseriesId ∧
      (observedInDay host (day * dayMs) pollutantCode row).isSome
  · obtain ⟨row, hrow, rfl, hsome⟩ := hday
    exact h day pollutantCode rows hsource row hrow hsome
  · rw [validReadings_eq_nil fun row hrow hid hsome ↦ hday ⟨row, hrow, hid, hsome⟩]
    exact hnil _

/-! ## The count -/

theorem countsHourEndingHours_iff {result : R2PreparedDay}
    (h : prepareWhoDailyRowsFromR2 host files args = .ok result) :
    CountsHourEndingHours host files args result ↔
      OfReadings host files args fun _ readings ↦ Balanced (readings.map Prod.fst) := by
  rw [ofReadings_iff (P := fun _ readings ↦ Balanced (readings.map Prod.fst)) fun _ ↦ rfl]
  refine forall_congr' fun day ↦ forall_congr' fun pollutantCode ↦ forall_congr' fun rows ↦
    forall_congr' fun hsource ↦ forall_congr' fun row ↦ forall_congr' fun hrow ↦
      forall_congr' fun hsome ↦ ?_
  have hday := inDay_validReadings host (day * dayMs) pollutantCode row.timeseriesId rows
  have hcount := validHourCount_eq_iff hday args.minValidHoursPerDay row.timeseriesId
  have hmem := (mem_preparedRows_iff h).mpr
    ⟨day, pollutantCode, rows, hsource, row, hrow, hsome, rfl⟩
  rw [← hcount]
  constructor
  · rintro ⟨prepared, hprepared, hid, heq⟩
    rw [eq_of_timeseriesId_eq h hmem hprepared hid.symm]
    exact heq
  · exact fun heq ↦ ⟨_, hmem, rfl, heq⟩

/-! ## The day -/

theorem source_of_related {relation : RowRelation host} {files' : PartitionFiles}
    {args' : PrepareArgs} (h : relation.Stores files files' args args') {day : ℤ}
    {pollutantCode : String} {rows : List R2ObservationRow}
    (hsource : Source host files args day pollutantCode rows) :
    ∃ rows', Source host files' args' day pollutantCode rows' ∧ relation.rows rows rows' := by
  obtain ⟨rows', hrows', hrel⟩ := sourceRows_of_related h hsource.rows
  refine ⟨rows', ⟨?_, ?_, hrows'⟩, hrel⟩
  · rw [h.args]
    exact hsource.isDay
  · have hpollutants : normalizedPollutants host args' = normalizedPollutants host args := by
      rw [h.args]
      rfl
    rw [hpollutants]
    exact hsource.pollutant

theorem validHours_congr (startMs : ℤ) {readings readings' : List (ℤ × ℚ)}
    (h : readings.map Prod.fst = readings'.map Prod.fst) :
    validHours startMs readings = validHours startMs readings' := by
  have hexists : ∀ (readings : List (ℤ × ℚ)) hour,
      (∃ reading ∈ readings, InHour startMs hour reading.1) ↔
        ∃ ms ∈ readings.map Prod.fst, InHour startMs hour ms := fun readings hour ↦ by
    simp only [List.mem_map, exists_exists_and_eq_and]
  rw [validHours, validHours]
  exact Finset.filter_congr fun hour _ ↦ by rw [hexists, h, ← hexists]

theorem hoursAgree_congr {minValidHoursPerDay startMs : ℤ} {readings readings' : List (ℤ × ℚ)}
    (h : readings.map Prod.fst = readings'.map Prod.fst) :
    HoursAgree minValidHoursPerDay startMs readings ↔
      HoursAgree minValidHoursPerDay startMs readings' := by
  rw [HoursAgree, HoursAgree, h, validHours_congr startMs h]

/-- The day is the day of the hour-ending hours when each row is. -/
theorem hourEndingDay_of_rows {result : R2PreparedDay}
    (h : prepareWhoDailyRowsFromR2 host files args = .ok result)
    (hrow : ∀ day pollutantCode rows, Source host files args day pollutantCode rows →
      ∀ timeseriesId, roundedRow (floorTo hourMs) args.minValidHoursPerDay timeseriesId
          (validReadings host (day * dayMs) pollutantCode timeseriesId rows)
        = hourEndingRow args.minValidHoursPerDay (day * dayMs) timeseriesId
          (validReadings host (day * dayMs) pollutantCode timeseriesId rows)) :
    HourEndingDay host files args result where
  row day pollutantCode rows hsource row hmem hsome := (mem_preparedRows_iff h).mpr
    ⟨day, pollutantCode, rows, hsource, row, hmem, hsome, hrow day pollutantCode rows hsource _⟩
  source prepared hprepared := by
    obtain ⟨day, pollutantCode, rows, hsource, row, hmem, hsome, rfl⟩ :=
      (mem_preparedRows_iff h).mp hprepared
    exact ⟨day, pollutantCode, rows, hsource, row, hmem, hsome, rfl⟩
  once := nodup_timeseriesOf_preparedRows h
  hours prepared hprepared := by
    obtain ⟨day, pollutantCode, rows, hsource, row, hmem, hsome, rfl⟩ :=
      (mem_preparedRows_iff h).mp hprepared
    rw [hrow day pollutantCode rows hsource]
    exact validHours_card_le _ _
  order files' args' hrelated := prepare_of_reordered hrelated h

/-! ## Other values at the same instants -/

/-- A valid reading gets the value of its instant. -/
def revaluedValue (host : Host) (value : ℤ → ℚ) (observedAtUtc : Option String)
    (reading : Option ℚ) : Option ℚ :=
  match reading.filter fun value ↦ decide (0 ≤ value) with
  | none => reading
  | some _ => some (((observedAtUtc.bind host.dateParse).map value).getD 0)

def StoredRow.revalued (host : Host) (value : ℤ → ℚ) (row : StoredRow) : StoredRow :=
  { row with value := revaluedValue host value row.observedAtUtc row.value }

def R2ObservationRow.revalued (host : Host) (value : ℤ → ℚ) (row : R2ObservationRow) :
    R2ObservationRow :=
  { row with value := revaluedValue host value (some row.observedAtUtc) row.value }

def revaluedFiles (host : Host) (value : ℤ → ℚ) (files : PartitionFiles) : PartitionFiles :=
  fun dayUtc connectorId pollutantCode ↦
    (files dayUtc connectorId pollutantCode).map fun found ↦ found.map fun file ↦
      file.map fun file ↦ { file with rows := file.rows.map (StoredRow.revalued host value) }

def revaluedArgs (host : Host) (value : ℤ → ℚ) (args : PrepareArgs) : PrepareArgs :=
  { args with
    boundaryRows := args.boundaryRows.map (List.map (R2ObservationRow.revalued host value)) }

theorem valueLayout_revaluedValue {value : ℤ → ℚ} (hvalue : ∀ ms, 0 ≤ value ms)
    (observedAtUtc : Option String) (reading : Option ℚ) :
    valueLayout (revaluedValue host value observedAtUtc reading) = valueLayout reading := by
  have hnonneg : (0 : ℚ) ≤ ((observedAtUtc.bind host.dateParse).map value).getD 0 := by
    cases observedAtUtc.bind host.dateParse
    · exact le_rfl
    · exact hvalue _
  rw [revaluedValue]
  cases hvalid : reading.filter fun value ↦ decide (0 ≤ value)
  · rfl
  · simp only [valueLayout, hvalid, Option.filter_some, decide_eq_true hnonneg, if_true,
      Option.map_some]

/-- The valid readings have the values of their instants. -/
def ValuedBy (host : Host) (value : ℤ → ℚ) (observedAtUtc : Option String) (reading : Option ℚ) :
    Prop :=
  ∀ ms ∈ observedAtUtc.bind host.dateParse, ∀ number ∈ reading, 0 ≤ number → number = value ms

theorem valuedBy_revaluedValue (value : ℤ → ℚ) (observedAtUtc : Option String)
    (reading : Option ℚ) :
    ValuedBy host value observedAtUtc (revaluedValue host value observedAtUtc reading) := by
  intro ms hms number hnumber hnonneg
  rw [revaluedValue] at hnumber
  cases hvalid : reading.filter fun value ↦ decide (0 ≤ value) with
  | none =>
    rw [hvalid] at hnumber
    have hsome : reading.filter (fun value ↦ decide (0 ≤ value)) = some number :=
      Option.filter_eq_some_iff.mpr ⟨hnumber, decide_eq_true hnonneg⟩
    rw [hvalid] at hsome
    cases hsome
  | some old =>
    rw [hvalid] at hnumber
    rw [Option.mem_def] at hms hnumber
    rw [hms] at hnumber
    exact (Option.some.inj hnumber).symm

variable (host) in
/-- The same rows, the valid readings having the values of their instants. -/
def valuedReadings (value : ℤ → ℚ) : RowRelation host where
  stored l l' := (sameReadings host).stored l l' ∧
    ∀ row ∈ l', ValuedBy host value row.observedAtUtc row.value
  rows l l' := (sameReadings host).rows l l' ∧
    ∀ row ∈ l', ValuedBy host value (some row.observedAtUtc) row.value
  checked {day connectorId pollutantCode l l'} h hchecked := by
    obtain ⟨hall, hrel⟩ := (sameReadings host).checked h.1 hchecked
    refine ⟨hall, hrel, fun row hrow ↦ ?_⟩
    obtain ⟨stored, hstored, hcheck⟩ := List.mem_filterMap.mp hrow
    obtain ⟨hat, hvalue⟩ := checkedRow_eq_some hcheck
    rw [← hat, ← hvalue]
    exact h.2 stored hstored
  append h h' := ⟨(sameReadings host).append h.1 h'.1, fun row hrow ↦ by
    rcases List.mem_append.mp hrow with hrow | hrow
    · exact h.2 row hrow
    · exact h'.2 row hrow⟩
  ofPollutant pollutantCode h := ⟨(sameReadings host).ofPollutant pollutantCode h.1,
    fun row hrow ↦ h.2 row (List.mem_of_mem_filter hrow)⟩
  boundary h := (sameReadings host).boundary h.1
  boundaryOnce h := (sameReadings host).boundaryOnce h.1
  timeseries startMs pollutantCode h := (sameReadings host).timeseries startMs pollutantCode h.1

theorem map_layout_revalued {value : ℤ → ℚ} (hvalue : ∀ ms, 0 ≤ value ms)
    (rows : List R2ObservationRow) :
    (rows.map (R2ObservationRow.revalued host value)).map R2ObservationRow.layout
      = rows.map R2ObservationRow.layout := by
  rw [List.map_map]
  refine List.map_congr_left fun row _ ↦ ?_
  simp only [Function.comp_apply, R2ObservationRow.layout, R2ObservationRow.revalued,
    valueLayout_revaluedValue hvalue]

theorem map_layout_revalued_stored {value : ℤ → ℚ} (hvalue : ∀ ms, 0 ≤ value ms)
    (rows : List StoredRow) :
    (rows.map (StoredRow.revalued host value)).map StoredRow.layout
      = rows.map StoredRow.layout := by
  rw [List.map_map]
  refine List.map_congr_left fun row _ ↦ ?_
  simp only [Function.comp_apply, StoredRow.layout, StoredRow.revalued,
    valueLayout_revaluedValue hvalue]

/-- Giving the valid readings of a store other values changes nothing else. -/
theorem stores_revalued {value : ℤ → ℚ} (hvalue : ∀ ms, 0 ≤ value ms) (files : PartitionFiles)
    (args : PrepareArgs) :
    (valuedReadings host value).Stores files (revaluedFiles host value files) args
      (revaluedArgs host value args) where
  files := by
    rintro dayUtc connectorId pollutantCode _ ⟨read, hread, rfl⟩
    refine ⟨(read.flatMap ParquetFile.rows).map (StoredRow.revalued host value),
      ⟨read.map fun file ↦ { file with rows := file.rows.map (StoredRow.revalued host value) },
        ?_, ?_⟩,
      (map_layout_revalued_stored hvalue _).symm, ?_⟩
    · rw [revaluedFiles, hread]
      simp only [Except.map, List.map_map]
      rfl
    · rw [List.flatMap_map, List.map_flatMap]
    · intro row hrow
      obtain ⟨stored, -, rfl⟩ := List.mem_map.mp hrow
      exact valuedBy_revaluedValue _ _ _
  boundaryRows := by
    rw [revaluedArgs]
    cases args.boundaryRows with
    | none => exact Option.Rel.none
    | some rows =>
      refine Option.Rel.some ⟨(map_layout_revalued hvalue rows).symm, fun row hrow ↦ ?_⟩
      obtain ⟨stored, -, rfl⟩ := List.mem_map.mp hrow
      exact valuedBy_revaluedValue _ _ _
  args := rfl

theorem sameReadings_of_valued {value : ℤ → ℚ} {files' : PartitionFiles} {args' : PrepareArgs}
    (h : (valuedReadings host value).Stores files files' args args') :
    (sameReadings host).Stores files files' args args' where
  files hstored := by
    obtain ⟨stored', hstored', hrel⟩ := h.files hstored
    exact ⟨stored', hstored', hrel.1⟩
  boundaryRows := by
    have hoption := h.boundaryRows
    generalize args.boundaryRows = given at hoption
    generalize args'.boundaryRows = given' at hoption
    rcases hoption with hrel | _
    · exact Option.Rel.some hrel.1
    · exact Option.Rel.none
  args := h.args

/-- The readings of a timeseries with the values of their instants. -/
theorem validReadings_of_valued {value : ℤ → ℚ} {rows rows' : List R2ObservationRow}
    (h : (valuedReadings host value).rows rows rows') (startMs : ℤ) (pollutantCode : String)
    (timeseriesId : ℤ) :
    validReadings host startMs pollutantCode timeseriesId rows'
      = (validReadings host startMs pollutantCode timeseriesId rows).map
          fun reading ↦ (reading.1, value reading.1) := by
  have hvalued : ∀ reading ∈ validReadings host startMs pollutantCode timeseriesId rows',
      (reading.1, value reading.1) = reading := by
    intro reading hreading
    obtain ⟨row, hrow, hsome⟩ := List.mem_filterMap.mp hreading
    by_cases hid : row.timeseriesId = timeseriesId
    · rw [if_pos hid, Option.bind_eq_some_iff] at hsome
      obtain ⟨ms, hms, hvalue⟩ := hsome
      obtain ⟨number, hnumber, rfl⟩ := Option.map_eq_some_iff.mp hvalue
      obtain ⟨hnumber, hnonneg⟩ := Option.filter_eq_some_iff.mp hnumber
      have hparse := (Option.filter_eq_some_iff.mp hms).1
      rw [h.2 row hrow ms hparse number hnumber (of_decide_eq_true hnonneg)]
    · rw [if_neg hid] at hsome
      cases hsome
  calc validReadings host startMs pollutantCode timeseriesId rows'
      = (validReadings host startMs pollutantCode timeseriesId rows').map
          fun reading ↦ (reading.1, value reading.1) :=
        ((List.map_congr_left hvalued).trans (List.map_id' _)).symm
    _ = ((validReadings host startMs pollutantCode timeseriesId rows').map Prod.fst).map
          fun ms ↦ (ms, value ms) := by rw [List.map_map]; rfl
    _ = ((validReadings host startMs pollutantCode timeseriesId rows).map Prod.fst).map
          fun ms ↦ (ms, value ms) := by rw [instants_of_sameReadings h.1]
    _ = (validReadings host startMs pollutantCode timeseriesId rows).map
          fun reading ↦ (reading.1, value reading.1) := by rw [List.map_map]; rfl

theorem hoursAgree_nil (minValidHoursPerDay startMs : ℤ) :
    HoursAgree minValidHoursPerDay startMs [] :=
  Or.inl ⟨Finset.disjoint_empty_left _, Finset.disjoint_empty_left _⟩

/-- Every pollutant of a prepared day has a source. -/
theorem exists_source {result : R2PreparedDay}
    (h : prepareWhoDailyRowsFromR2 host files args = .ok result) {pollutantCode : String}
    (hpollutant : pollutantCode ∈ normalizedPollutants host args) :
    ∃ day rows, Source host files args day pollutantCode rows := by
  obtain ⟨day, haccepted, blocks, hblocks, -⟩ := prepareWhoDailyRowsFromR2_eq_ok_iff.mp h
  have hall : ∀ pollutantCode ∈ normalizedPollutants host args, ∃ rows,
      sourceRows host files args day pollutantCode = .ok rows := by
    generalize normalizedPollutants host args = pollutants at hblocks
    induction hblocks with
    | nil => exact fun _ hmem ↦ absurd hmem List.not_mem_nil
    | cons hblock _ ih =>
      obtain ⟨rows, hrows, -⟩ := hblock
      exact List.forall_mem_cons.mpr ⟨⟨rows, hrows⟩, ih⟩
  obtain ⟨rows, hrows⟩ := hall pollutantCode hpollutant
  exact ⟨day, rows, haccepted.isDay, hpollutant, hrows⟩

/-- The rows of a changed store come from rows of the store. -/
theorem source_of_changed {relation : RowRelation host} {files' : PartitionFiles}
    {args' : PrepareArgs} (hrelated : relation.Stores files files' args args')
    {result : R2PreparedDay} (h : prepareWhoDailyRowsFromR2 host files args = .ok result) {day : ℤ}
    {pollutantCode : String} {rows' : List R2ObservationRow}
    (hsource' : Source host files' args' day pollutantCode rows') :
    ∃ rows, Source host files args day pollutantCode rows ∧ relation.rows rows rows' := by
  have hpollutants : normalizedPollutants host args' = normalizedPollutants host args := by
    rw [hrelated.args]
    rfl
  obtain ⟨day', rows, hsource⟩ := exists_source h (hpollutants ▸ hsource'.pollutant)
  obtain ⟨rows'', hsource'', hrel⟩ := source_of_related hrelated hsource
  obtain rfl : day' = day := Except.ok.inj (hsource''.isDay.symm.trans hsource'.isDay)
  obtain rfl : rows'' = rows' := Except.ok.inj (hsource''.rows.symm.trans hsource'.rows)
  exact ⟨rows, hsource, hrel⟩

/-- Where the hours do not agree, other values give a day with another row. -/
theorem exists_not_hourEndingDay {result : R2PreparedDay}
    (h : prepareWhoDailyRowsFromR2 host files args = .ok result)
    (hagree : ¬OfReadings host files args (HoursAgree args.minValidHoursPerDay)) :
    ∃ files' args' result', (sameReadings host).Stores files files' args args' ∧
      prepareWhoDailyRowsFromR2 host files' args' = .ok result' ∧
        ¬HourEndingDay host files' args' result' := by
  rw [ofReadings_iff (hoursAgree_nil args.minValidHoursPerDay)] at hagree
  push Not at hagree
  obtain ⟨day, pollutantCode, rows, hsource, row, hrow, hsome, hagree⟩ := hagree
  have hday := inDay_validReadings host (day * dayMs) pollutantCode row.timeseriesId rows
  obtain ⟨value, hvalue, hne⟩ := exists_roundedRow_ne hday hagree
  have hstores : (valuedReadings host value).Stores files (revaluedFiles host value files) args
      (revaluedArgs host value args) := stores_revalued hvalue files args
  obtain ⟨_, _, blocks', -, -, hresult'⟩ := prepare_of_related hstores h
  refine ⟨_, _, _, sameReadings_of_valued hstores, hresult', fun hcorrect ↦ hne row.timeseriesId ?_⟩
  obtain ⟨rows', hsource', hrel⟩ := source_of_related hstores hsource
  obtain ⟨row', hrow', hid, hsome'⟩ : ∃ row' ∈ rows', row'.timeseriesId = row.timeseriesId ∧
      (observedInDay host (day * dayMs) pollutantCode row').isSome :=
    (dayTimeseries_mem host).mp (((valuedReadings host value).timeseries _ _ hrel).mem_iff.mp
      ((dayTimeseries_mem host).mpr ⟨row, hrow, rfl, hsome⟩))
  have hending := hcorrect.row day pollutantCode rows' hsource' row' hrow' hsome'
  have hclock := (mem_preparedRows_iff hresult').mpr
    ⟨day, pollutantCode, rows', hsource', row', hrow', hsome', rfl⟩
  rw [hid, validReadings_of_valued hrel] at hending hclock
  exact eq_of_timeseriesId_eq hresult' hclock hending rfl

/-- **The hours of a prepared day**: its counts are right exactly when the hours of each timeseries
are balanced, and its rows are those of the hour-ending hours, whatever the values of the valid
readings are, exactly when they agree. -/
theorem hourEndingDay_iff {result : R2PreparedDay}
    (h : prepareWhoDailyRowsFromR2 host files args = .ok result) :
    (CountsHourEndingHours host files args result ↔
      OfReadings host files args fun _ readings ↦ Balanced (readings.map Prod.fst)) ∧
    ((∀ files' args' result', (sameReadings host).Stores files files' args args' →
        prepareWhoDailyRowsFromR2 host files' args' = .ok result' →
          HourEndingDay host files' args' result') ↔
      OfReadings host files args (HoursAgree args.minValidHoursPerDay)) := by
  refine ⟨countsHourEndingHours_iff h, fun hall ↦ ?_,
    fun hagree files' args' result' hrelated hresult' ↦ ?_⟩
  · by_contra hnot
    obtain ⟨files', args', result', hrelated, hresult', hwrong⟩ := exists_not_hourEndingDay h hnot
    exact hwrong (hall files' args' result' hrelated hresult')
  · refine hourEndingDay_of_rows hresult' fun day pollutantCode rows' hsource' timeseriesId ↦ ?_
    obtain ⟨rows, hsource, hrel⟩ := source_of_changed hrelated h hsource'
    have hminimum : args'.minValidHoursPerDay = args.minValidHoursPerDay := by rw [hrelated.args]
    refine roundedRow_eq_of_hoursAgree (inDay_validReadings host _ _ _ _) ?_ timeseriesId
    rw [hminimum]
    exact (hoursAgree_congr (instants_of_sameReadings hrel _ _ _)).mp
      (hagree day pollutantCode rows timeseriesId hsource)

/-! ## Two stores -/

/-- The instant of a text with whole seconds. -/
def instantOf (text : String) : Option ℤ :=
  match text.toList.drop 10 with
  | ['T', h₁, h₂, ':', m₁, m₂, ':', s₁, s₂, '.', '0', '0', '0', 'Z'] =>
    (parseIsoDay (takeText text 10)).map fun day ↦ day * dayMs + decimalOf [h₁, h₂] * hourMs
      + decimalOf [m₁, m₂] * minuteMs + decimalOf [s₁, s₂] * 1000
  | _ => none

def sampleHost : Host where
  toLowerCase text := String.ofList (text.toList.map Char.toLower)
  dateParse := instantOf

def sampleRow (observedAtUtc : String) (value : ℚ) : StoredRow :=
  ⟨some 1, some (some 5), some 7, "pm25", some observedAtUtc, some value⟩

/-- A store with the rows of one pollutant on one day. -/
def sampleFiles (rows : List StoredRow) : PartitionFiles := fun dayUtc _ pollutantCode ↦
  .ok [.ok ⟨"part-00000.parquet",
    if dayUtc = "2026-01-01" ∧ pollutantCode = "pm25" then rows else []⟩]

def sampleArgs : PrepareArgs where
  dayUtc := "2026-01-01"
  connectorId := 1
  pollutantCodes := ["pm25", "pm10", "no2"]
  minValidHoursPerDay := 2
  boundaryRows := none

def hourlyRows : List StoredRow :=
  [sampleRow "2026-01-01T01:00:00.000Z" 10, sampleRow "2026-01-01T02:00:00.000Z" 20]

def halfHourlyRows : List StoredRow :=
  [sampleRow "2026-01-01T01:00:00.000Z" 10, sampleRow "2026-01-01T01:30:00.000Z" 20]

theorem hourEndingDay_sample :
    (CountsHourEndingHours sampleHost (sampleFiles hourlyRows) sampleArgs
        ⟨"2026-01-01", [⟨7, 2, some 15⟩], 1, 0⟩ ↔
      OfReadings sampleHost (sampleFiles hourlyRows) sampleArgs
        fun _ readings ↦ Balanced (readings.map Prod.fst)) ∧
    ((∀ files' args' result', (sameReadings sampleHost).Stores (sampleFiles hourlyRows) files'
        sampleArgs args' → prepareWhoDailyRowsFromR2 sampleHost files' args' = .ok result' →
          HourEndingDay sampleHost files' args' result') ↔
      OfReadings sampleHost (sampleFiles hourlyRows) sampleArgs (HoursAgree 2)) :=
  hourEndingDay_iff (by decide +kernel)

/-- A reading on the hour and one half an hour later lie in two hours, but are counted as one. -/
theorem not_hourEndingDay_of_halfHourly :
    ¬∀ host files args result, prepareWhoDailyRowsFromR2 host files args = .ok result →
      HourEndingDay host files args result := by
  intro h
  have hresult : prepareWhoDailyRowsFromR2 sampleHost (sampleFiles halfHourlyRows) sampleArgs
      = .ok ⟨"2026-01-01", [⟨7, 1, none⟩], 0, 1⟩ := by decide +kernel
  let onTheHour : R2ObservationRow := ⟨1, some 5, 7, "pm25", "2026-01-01T01:00:00.000Z", some 10⟩
  let later : R2ObservationRow := ⟨1, some 5, 7, "pm25", "2026-01-01T01:30:00.000Z", some 20⟩
  have hsource : Source sampleHost (sampleFiles halfHourlyRows) sampleArgs 20454 "pm25"
      [onTheHour, later] :=
    ⟨by decide +kernel, by decide +kernel, by decide +kernel⟩
  have hmem := (h _ _ _ _ hresult).row 20454 "pm25" _ hsource onTheHour List.mem_cons_self
    (by decide +kernel)
  have hcount := congrArg PreparedDailyRow.validHourCount (List.mem_singleton.mp hmem)
  have htwo : (validHours (20454 * dayMs) (validReadings sampleHost (20454 * dayMs) "pm25" 7
      [onTheHour, later])).card = 2 := by decide +kernel
  exact absurd (htwo.symm.trans hcount) (by decide)

end UkAqOps.WhoDaily

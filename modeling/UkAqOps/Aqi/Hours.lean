import UkAqOps.Aqi.Levels

/-!
# The observed hours of a build

The observed hours form a partial function of the timeseries and the hour: the helper row of an hour
is made of the observations of that hour alone, and of an instant only the last observation counts.
-/

namespace UkAqOps.Aqi

open Sorting

variable {ν : Type} [Numeric ν] {host : Host} {rows : List (SourceRow ν)}

/-! ## Comparators -/

theorem compareTimestamps_eq (a b : ℤ) : compareTimestamps a b
    = compareOfLessAndEq (isoChars a) (isoChars b) := by
  rw [compareTimestamps, textLt, textLt, compareOfLessAndEq]
  by_cases hlt : (isoChars a) < (isoChars b)
  · rw [if_pos (decide_eq_true hlt), if_pos hlt]
  · rw [if_neg (by simpa using hlt), if_neg hlt]
    by_cases heq : (isoChars a) = (isoChars b)
    · rw [if_pos heq, if_neg (by rw [heq]; simp)]
    · have hgt : (isoChars b) < (isoChars a) := by
        by_contra hle
        exact heq (List.le_antisymm (List.not_lt.mp hle) (List.not_lt.mp hlt))
      rw [if_neg heq, if_pos (decide_eq_true hgt)]

theorem transCmp_compareTimestamps : Std.TransCmp compareTimestamps := by
  have h : Std.TransCmp fun x y : List Char ↦ compareOfLessAndEq x y :=
    -- the instances are those of the statement
    @Std.TransOrd.compareOfLessAndEq_of_antisymm_of_trans_of_total_of_not_le _ _
      List.instLE _ inferInstance _ List.le_antisymm List.le_trans List.le_total List.not_le
  have heq : compareTimestamps
      = fun a b ↦ compareOfLessAndEq (isoChars a) (isoChars b) :=
    funext fun a ↦ funext fun b ↦ compareTimestamps_eq a b
  rw [heq]
  exact transCmp_on h isoChars

theorem compareTimestamps_eq_lt {a b : ℤ} (ha : PlainYear (a / dayMs))
    (hb : PlainYear (b / dayMs)) : compareTimestamps a b = .lt ↔ a < b := by
  rw [compareTimestamps, ← textLt_isoChars ha hb]
  by_cases hlt : textLt (isoChars a) (isoChars b) = true
  · simp [hlt]
  · by_cases hgt : textLt (isoChars b) (isoChars a) = true <;> simp [hlt, hgt]

theorem compareTimestamps_eq_eq {a b : ℤ} (ha : PlainYear (a / dayMs))
    (hb : PlainYear (b / dayMs)) (h : compareTimestamps a b = .eq) : a = b := by
  have hab : ¬a < b := fun hlt ↦ by
    rw [(compareTimestamps_eq_lt ha hb).mpr hlt] at h
    cases h
  have hba : ¬b < a := fun hlt ↦ by
    rw [← transCmp_compareTimestamps.eq_comm, (compareTimestamps_eq_lt hb ha).mpr hlt] at h
    cases h
  omega

instance : Std.TransCmp (compareHelperRows (ν := ν)) :=
  transCmp_then (transCmp_on transCmp_compareTimestamps _) (transCmp_on inferInstance _)

instance (host : Host) : Std.TransCmp (compareObservations (ν := ν) host) :=
  transCmp_then (transCmp_on inferInstance _) (transCmp_on host.transCmp _)

instance (host : Host) : Std.TransCmp (compareAqiRows (ν := ν) host) :=
  transCmp_then (transCmp_on inferInstance _) (transCmp_on host.transCmp _)

/-! ## The observations that count -/

/-- The observations that the rows are read as, before any is replaced. -/
def keptObservations (host : Host) (rows : List (SourceRow ν)) : List (Observation ν) :=
  rows.filterMap (SourceRow.observation host)

/-- Every observation falls in a year of four digits. -/
def PlainYears (host : Host) (rows : List (SourceRow ν)) : Prop :=
  ∀ o ∈ keptObservations host rows, PlainYear (o.observedAt / dayMs)

def Observation.key (o : Observation ν) : ℤ × ℤ := (o.timeseriesId, o.observedAt)

theorem foldl_some_eq_getLast? {α : Type} (l : List α) :
    l.foldl (fun _ a ↦ some a) none = l.getLast? := by
  induction l using List.reverseRecOn with
  | nil => rfl
  | append_singleton l a _ =>
    rw [List.foldl_append, List.getLast?_append]
    rfl

/-- The last observation of an instant replaces the ones before it. -/
theorem mem_dedupe {o : Observation ν} : o ∈ dedupeSourceObservationRows host rows ↔
    ((keptObservations host rows).filter fun o' ↦ o'.key = o.key).getLast? = some o := by
  rw [dedupeSourceObservationRows, mem_sortBy, OrderedMap.mem_values_collect]
  constructor
  · rintro ⟨k, hk⟩
    rw [foldl_some_eq_getLast?] at hk
    have hkey : o.key = k := by
      have hmem := List.mem_of_getLast? hk
      exact of_decide_eq_true (List.mem_filter.mp hmem).2
    rw [hkey]
    exact hk
  · intro h
    exact ⟨o.key, by rw [foldl_some_eq_getLast?]; exact h⟩

theorem kept_of_mem_dedupe {o : Observation ν} (h : o ∈ dedupeSourceObservationRows host rows) :
    o ∈ keptObservations host rows :=
  (List.mem_filter.mp (List.mem_of_getLast? (mem_dedupe.mp h))).1

theorem pairwise_dedupe (hplain : PlainYears host rows) :
    (dedupeSourceObservationRows host rows).Pairwise
      fun o o' ↦ compareObservations host o o' = .lt := by
  have hkeys := OrderedMap.pairwise_values_collect Observation.key (fun _ row ↦ row) Observation.key
    (fun _ _ _ ↦ rfl) (keptObservations host rows)
  refine pairwise_lt_sortBy (hkeys.imp_of_mem fun {o o'} ho ho' hne heq ↦ hne ?_)
  have hmem : ∀ {o}, o ∈ (OrderedMap.collect (fun row : Observation ν ↦
      (row.timeseriesId, row.observedAt)) (fun _ row ↦ row)
      (rows.filterMap (SourceRow.observation host))).values → o ∈ keptObservations host rows :=
    fun h ↦ kept_of_mem_dedupe (mem_sortBy.mpr h)
  obtain ⟨hseries, hinstant⟩ := Ordering.then_eq_eq.mp heq
  have hobserved := host.eq_of_compare _ _ (hplain o (hmem ho)) (hplain o' (hmem ho')) hinstant
  exact Prod.ext (Std.LawfulEqOrd.eq_of_compare hseries) hobserved

/-! ## The observed hours -/

theorem hourOf_ediv (instant : ℤ) : hourOf instant / dayMs = instant / dayMs := by
  simp only [hourOf, dayMs, hourMs, minuteMs]
  omega

theorem hourOf_emod (instant : ℤ) : hourOf instant % hourMs = 0 := Int.mul_emod_left _ _

theorem hourOf_of_emod {hour : ℤ} (h : hour % hourMs = 0) : hourOf hour = hour :=
  Int.ediv_mul_cancel (Int.dvd_of_emod_eq_zero h)

def Observation.hourKey (o : Observation ν) : ℤ × ℤ := (o.timeseriesId, hourOf o.observedAt)

/-- The observations of one hour of a timeseries, in the order in which they are added up. -/
def hourCell (host : Host) (rows : List (SourceRow ν)) (key : ℤ × ℤ) : List (Observation ν) :=
  (dedupeSourceObservationRows host rows).filter fun o ↦ o.hourKey = key

/-- The total of an hour. -/
def cellTotal (cell : List (Observation ν)) : Option (HourTotal ν) :=
  cell.foldl (fun current row ↦ some ((current.getD (.open row)).add row)) none

/-- **The observed hour**: the helper row that the observations of an hour give. -/
def observedRow (host : Host) (rows : List (SourceRow ν)) (key : ℤ × ℤ) : Option (HelperRow ν) :=
  (cellTotal (hourCell host rows key)).map fun total ↦
    (HelperRow.open total.narrowRow).write total.narrowRow

def HourTotal.key (total : HourTotal ν) : ℤ × ℤ := (total.timeseriesId, total.timestampHourUtc)

/-- The total of observations that agree is that of any one of them, up to sum and count. -/
theorem cellTotal_spec {cell : List (Observation ν)} {total : HourTotal ν}
    (h : cellTotal cell = some total) : ∃ o ∈ cell, total.timeseriesId = o.timeseriesId ∧
      total.stationId = o.stationId ∧ total.connectorId = o.connectorId ∧
      total.pollutantCode = o.pollutantCode ∧ total.timestampHourUtc = hourOf o.observedAt := by
  induction cell using List.reverseRecOn generalizing total with
  | nil => cases h
  | append_singleton cell o ih =>
    rw [cellTotal, List.foldl_append, List.foldl_cons, List.foldl_nil, ← cellTotal] at h
    rw [← Option.some.inj h]
    rcases hcell : cellTotal cell with _ | previous
    · exact ⟨o, by simp, rfl, rfl, rfl, rfl, rfl⟩
    · obtain ⟨o', ho', hspec⟩ := ih hcell
      exact ⟨o', by simp [ho'], hspec⟩

theorem cellTotal_isSome {cell : List (Observation ν)} :
    (cellTotal cell).isSome ↔ cell ≠ [] := by
  induction cell using List.reverseRecOn with
  | nil => simp [cellTotal]
  | append_singleton cell o _ =>
    rw [cellTotal, List.foldl_append]
    simp

theorem mem_hourCell {key : ℤ × ℤ} {o : Observation ν} : o ∈ hourCell host rows key ↔
    o ∈ dedupeSourceObservationRows host rows ∧ o.hourKey = key := by
  rw [hourCell, List.mem_filter, decide_eq_true_iff]

/-- Writing a mean leaves the other columns. -/
theorem HelperRow.write_columns (current : HelperRow ν) (row : NarrowRow ν) :
    (current.write row).timeseriesId = current.timeseriesId ∧
      (current.write row).timestampHourUtc = current.timestampHourUtc ∧
      (current.write row).syntheticHour = current.syntheticHour ∧
      (current.write row).stationId = current.stationId ∧
      (current.write row).connectorId = current.connectorId ∧
      (current.write row).pollutantCode = current.pollutantCode := by
  rw [HelperRow.write]
  split <;> exact ⟨rfl, rfl, rfl, rfl, rfl, rfl⟩

/-- An observed hour is that of a kept observation, whose columns it has. -/
theorem observedRow_spec {key : ℤ × ℤ} {r : HelperRow ν} (h : observedRow host rows key = some r) :
    (r.timeseriesId, r.timestampHourUtc) = key ∧ r.syntheticHour = false ∧
      ∃ o ∈ keptObservations host rows, o.hourKey = key ∧ r.stationId = o.stationId ∧
        r.connectorId = o.connectorId ∧ r.pollutantCode = o.pollutantCode := by
  obtain ⟨total, htotal, rfl⟩ := Option.map_eq_some_iff.mp h
  obtain ⟨o, ho, hseries, hstation, hconnector, hpollutant, hhour⟩ := cellTotal_spec htotal
  obtain ⟨hdedupe, hkey⟩ := mem_hourCell.mp ho
  obtain ⟨h₁, h₂, h₃, h₄, h₅, h₆⟩ :=
    HelperRow.write_columns (.open total.narrowRow) total.narrowRow
  refine ⟨?_, h₃, o, kept_of_mem_dedupe hdedupe, hkey, h₄.trans hstation, h₅.trans hconnector,
    h₆.trans hpollutant⟩
  rw [h₁, h₂, ← hkey]
  exact Prod.ext hseries hhour

/-- The observed hours of a build, sorted: what the grid is laid on. -/
def observedRows (host : Host) (rows : List (SourceRow ν)) : List (HelperRow ν) :=
  sortHelperRows (OrderedMap.collect
    (fun row : NarrowRow ν ↦ (row.timeseriesId, row.timestampHourUtc))
    (fun current row ↦ (current.getD (.open row)).write row)
    (sourceObservationsToNarrowRows host rows)).values

theorem pivot_eq : pivotNarrowRowsToHelperRows (sourceObservationsToNarrowRows host rows)
    = computeRolling24h (expandPmHelperRowsToHourlyGrid (observedRows host rows)) := rfl

theorem mem_narrowRows {n : NarrowRow ν} : n ∈ sourceObservationsToNarrowRows host rows ↔
    ∃ key total, cellTotal (hourCell host rows key) = some total ∧ total.narrowRow = n := by
  rw [sourceObservationsToNarrowRows, mem_sortBy, List.mem_map]
  constructor
  · rintro ⟨total, htotal, rfl⟩
    obtain ⟨key, hkey⟩ := OrderedMap.mem_values_collect.mp htotal
    exact ⟨key, total, hkey, rfl⟩
  · rintro ⟨key, total, hkey, rfl⟩
    exact ⟨total, OrderedMap.mem_values_collect.mpr ⟨key, hkey⟩, rfl⟩

theorem nodup_narrowRows : ((sourceObservationsToNarrowRows host rows).map
    fun row ↦ (row.timeseriesId, row.timestampHourUtc)).Nodup := by
  have hkeys := OrderedMap.pairwise_values_collect Observation.hourKey
    (fun current row ↦ (current.getD (HourTotal.open row)).add row) HourTotal.key
    (fun acc o h ↦ by
      rcases acc with _ | total
      · rfl
      · exact h total rfl) (dedupeSourceObservationRows host rows)
  rw [sourceObservationsToNarrowRows, List.Perm.nodup_iff ((sortBy_perm _).map _), List.map_map,
    List.Nodup, List.pairwise_map]
  exact hkeys

theorem mem_observedRows {r : HelperRow ν} :
    r ∈ observedRows host rows ↔ ∃ key, observedRow host rows key = some r := by
  rw [observedRows, sortHelperRows, mem_sortBy,
    OrderedMap.values_collect_of_nodup _ nodup_narrowRows, List.mem_map]
  constructor
  · rintro ⟨n, hn, rfl⟩
    obtain ⟨key, total, htotal, rfl⟩ := mem_narrowRows.mp hn
    exact ⟨key, by rw [observedRow, htotal]; rfl⟩
  · rintro ⟨key, hkey⟩
    obtain ⟨total, htotal, rfl⟩ := Option.map_eq_some_iff.mp hkey
    exact ⟨total.narrowRow, mem_narrowRows.mpr ⟨key, total, htotal, rfl⟩, rfl⟩

def HelperRow.key (r : HelperRow ν) : ℤ × ℤ := (r.timeseriesId, r.timestampHourUtc)

theorem mem_observedRows_iff {r : HelperRow ν} :
    r ∈ observedRows host rows ↔ observedRow host rows r.key = some r := by
  rw [mem_observedRows]
  constructor
  · rintro ⟨key, hkey⟩
    rw [HelperRow.key, (observedRow_spec hkey).1]
    exact hkey
  · exact fun h ↦ ⟨_, h⟩

theorem nodup_observedRows : ((observedRows host rows).map HelperRow.key).Nodup := by
  have hopen : ∀ n : NarrowRow ν, ((HelperRow.open n).write n).key
      = (n.timeseriesId, n.timestampHourUtc) := by
    intro n
    obtain ⟨hseries, hhour, -⟩ := HelperRow.write_columns (.open n) n
    exact Prod.ext hseries hhour
  rw [observedRows, sortHelperRows, List.Perm.nodup_iff ((sortBy_perm _).map _),
    OrderedMap.values_collect_of_nodup _ nodup_narrowRows, List.map_map]
  have hkeys : HelperRow.key ∘ (fun n : NarrowRow ν ↦ ((none.getD (HelperRow.open n)).write n))
      = fun n ↦ (n.timeseriesId, n.timestampHourUtc) := funext hopen
  rw [hkeys]
  exact nodup_narrowRows

end UkAqOps.Aqi

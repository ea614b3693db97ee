import UkAqOps.HistoryApi.Worker

/-!
# The rows that a read finds

An index that is truthful about its files names every file that has a row of the window. So a read
finds each stored row of the window, at the second that its date shows: where all rows of a series are
at whole seconds, it finds these rows in the order of time.
-/

namespace UkAqOps.HistoryApi

open Sorting

/-! ## Texts of dates -/

/-- What dates rely on: ISO texts and texts of dates are read back, and so is the first month of the
year 10000, which is the text of the day after the last one with four digits. -/
structure ReadsDates (dateParse : String → Option ℤ) : Prop where
  timestamps : ReadsTimestamps dateParse
  dateTexts : ReadsDateTexts dateParse
  yearAfter : utcMidnightMs dateParse (isoDay 2932897) = some (2932897 * dayMs)

/-! ## Truthful indexes -/

/-- The index of a day. -/
def IndexAt (history : History) (series : Series) (day : ℤ) (entries : List IndexEntry) : Prop :=
  PlainYear day ∧ history.index (buildTimeseriesPollutantIndexKey series (isoDay day)) = some entries

/-- A row of the series in a file of a day. -/
def StoredRow (history : History) (series : Series) (day : ℤ) (entry : IndexEntry)
    (row : ParquetRow) : Prop :=
  ∃ entries, IndexAt history series day entries ∧ entry ∈ entries ∧
    ∃ groups, history.file entry.key = some groups ∧ ∃ group ∈ groups, row ∈ group.rows ∧
      row.timeseriesId = series.timeseriesId

/-- What is stored of the series at an instant. -/
def Stored (history : History) (series : Series) (t : ℤ) (cell : Cell) : Prop :=
  ∃ day entry row, StoredRow history series day entry row ∧ row.observedAt = t ∧ row.value = cell

/-- The indexes are truthful about their files: a file is there, has rows of the day alone, and its
bounds and those of its row groups, where there are any, hold all its rows. -/
structure Truthful (dateParse : String → Option ℤ) (history : History) (series : Series) :
    Prop where
  keys : ∀ day entries, IndexAt history series day entries → ∀ entry ∈ entries,
    entry.key ≠ "" ∧ trimText entry.key = entry.key
  days : ∀ day entry row, StoredRow history series day entry row → row.observedAt / dayMs = day
  ranges : ∀ day entry row, StoredRow history series day entry row → ∀ range ∈ entry.range,
    range.1 ≤ series.timeseriesId ∧ series.timeseriesId ≤ range.2
  times : ∀ day entry row, StoredRow history series day entry row →
    ∀ range ∈ entry.timeRange dateParse, range.1 ≤ row.observedAt ∧ row.observedAt ≤ range.2
  groups : ∀ key groups, history.file key = some groups → ∀ group ∈ groups, ∀ row ∈ group.rows,
    (∀ minId ∈ group.minTimeseriesId, minId ≤ row.timeseriesId) ∧
      ∀ maxId ∈ group.maxTimeseriesId, row.timeseriesId ≤ maxId

/-- There is an index for every day of a window. -/
def IndexedOver (history : History) (series : Series) (startMs endMs : ℤ) : Prop :=
  ∀ day, startMs / dayMs ≤ day → day * dayMs < endMs → ∃ entries, IndexAt history series day entries

/-- A row is in a window, behind a cursor. -/
def InWindow (startMs endMs : ℤ) (sinceMs : Option ℤ) (t : ℤ) : Prop :=
  startMs ≤ t ∧ t < endMs ∧ ∀ since ∈ sinceMs, since < t

/-! ## Days -/

section Days

variable {dateParse : String → Option ℤ} {startMs endMs : ℤ}

theorem isTimeValue_of_plainYear {t : ℤ} (h : PlainYear (t / dayMs)) : IsTimeValue t := by
  have hbounds := h.bounds
  simp only [dayMs, hourMs, minuteMs] at hbounds
  rw [IsTimeValue]
  omega

theorem utcMidnightMs_isoDay (hdates : ReadsDates dateParse) {day : ℤ} (h : PlainYear day) :
    utcMidnightMs dateParse (isoDay day) = some (day * dayMs) := by
  have hday : day * dayMs / dayMs = day := Int.mul_ediv_cancel _ (by decide)
  have htext : isoDay day ++ "T00:00:00.000Z" = toISOString (day * dayMs) := by
    refine String.toList_injective ?_
    rw [String.toList_append, isoDay, takeText_toISOString (by rwa [hday]), hday]
    exact (isoChars_midnight day).trans String.toList_ofList.symm
  rw [utcMidnightMs, htext]
  exact hdates.timestamps _ (isTimeValue_of_plainYear (by rwa [hday]))

/-- The day after a day with a plain year is read, too. -/
theorem utcMidnightMs_succ (hdates : ReadsDates dateParse) {day : ℤ} (h : PlainYear day) :
    utcMidnightMs dateParse (isoDay (day + 1)) = some ((day + 1) * dayMs) := by
  by_cases hnext : PlainYear (day + 1)
  · exact utcMidnightMs_isoDay hdates hnext
  · have hlast : (civilFromDays 2932896).year = 9999 := by decide
    have hfirst : (civilFromDays 2932897).year = 10000 := by decide
    have hmono := civilFromDays_year_mono (show day ≤ day + 1 by omega)
    have hyear : 9999 < (civilFromDays (day + 1)).year := by
      rw [PlainYear] at h hnext
      omega
    have hday : day + 1 = 2932897 := by
      rcases lt_trichotomy (day + 1) 2932897 with hlt | heq | hgt
      · have hle := civilFromDays_year_mono (show day + 1 ≤ 2932896 by omega)
        omega
      · exact heq
      · have hle := civilFromDays_year_mono (show 2932897 ≤ day by omega)
        rw [PlainYear] at h
        omega
    rw [hday]
    exact hdates.yearAfter

/-- **The days of a loop** are those from its first day on that begin before the end. -/
theorem mem_utcDaysFrom (hdates : ReadsDates dateParse) {day : ℤ} {turns : ℕ}
    (hplain : ∀ e, day ≤ e → e * dayMs < endMs → PlainYear e)
    (hmidnight : utcMidnightMs dateParse (isoDay day) = some (day * dayMs))
    (hturns : endMs ≤ (day + turns) * dayMs) {text : String} :
    text ∈ utcDaysFrom dateParse endMs turns (isoDay day) ↔
      ∃ e, day ≤ e ∧ e * dayMs < endMs ∧ text = isoDay e := by
  have hdayMs : (0 : ℤ) < dayMs := by decide
  induction turns generalizing day with
  | zero =>
    refine ⟨fun h ↦ absurd h List.not_mem_nil, ?_⟩
    rintro ⟨e, hle, hlt, -⟩
    have hmul := Int.mul_le_mul_of_nonneg_right hle hdayMs.le
    rw [Nat.cast_zero, Int.add_zero] at hturns
    omega
  | succ turns ih =>
    rw [utcDaysFrom, hmidnight]
    dsimp only
    by_cases hlt : day * dayMs < endMs
    · have hnext : toUtcDayFromMs (day * dayMs + dayMs) = isoDay (day + 1) := by
        rw [toUtcDayFromMs, isoDay, Int.add_mul, Int.one_mul]
      have hlater : endMs ≤ (day + 1 + turns) * dayMs := by
        rw [Nat.cast_succ] at hturns
        rwa [Int.add_assoc, Int.add_comm 1]
      have hrest := @ih (day + 1) (fun e hle ↦ hplain e (by omega))
        (utcMidnightMs_succ hdates (hplain day le_rfl hlt)) hlater
      rw [if_pos hlt, hnext]
      refine (List.mem_cons.trans (or_congr_right hrest)).trans ⟨?_, ?_⟩
      · rintro (rfl | ⟨e, hle, he, rfl⟩)
        · exact ⟨day, le_rfl, hlt, rfl⟩
        · exact ⟨e, by omega, he, rfl⟩
      · rintro ⟨e, hle, he, rfl⟩
        rcases eq_or_lt_of_le hle with rfl | hle
        · exact Or.inl rfl
        · exact Or.inr ⟨e, hle, he, rfl⟩
    · rw [if_neg hlt]
      refine ⟨fun h ↦ absurd h List.not_mem_nil, ?_⟩
      rintro ⟨e, hle, he, -⟩
      have hmul := Int.mul_le_mul_of_nonneg_right hle hdayMs.le
      omega

theorem toUtcDayFromMs_eq {t : ℤ} (h : PlainYear (t / dayMs)) :
    toUtcDayFromMs t = isoDay (t / dayMs) := by
  have hday : t / dayMs * dayMs / dayMs = t / dayMs := Int.mul_ediv_cancel _ (by decide)
  refine String.toList_injective ?_
  rw [toUtcDayFromMs, takeText_toISOString h, isoDay, takeText_toISOString (by rwa [hday]), hday]

theorem mem_listUtcDays (hdates : ReadsDates dateParse)
    (hplain : ∀ e, startMs / dayMs ≤ e → e * dayMs < endMs → PlainYear e) (hlt : startMs < endMs)
    {text : String} :
    text ∈ listUtcDays dateParse startMs endMs ↔
      ∃ e, startMs / dayMs ≤ e ∧ e * dayMs < endMs ∧ text = isoDay e := by
  have hfirst : PlainYear (startMs / dayMs) := by
    refine hplain _ le_rfl (lt_of_le_of_lt ?_ hlt)
    simp only [dayMs, hourMs, minuteMs]
    omega
  rw [listUtcDays, if_neg (not_le.mpr hlt), toUtcDayFromMs_eq hfirst]
  refine mem_utcDaysFrom hdates hplain (utcMidnightMs_isoDay hdates hfirst) ?_
  simp only [dayMs, hourMs, minuteMs]
  omega

end Days

/-! ## The rows that are read -/

/-- The rows of the files that a read looks into. -/
def rowsRead (dateParse : String → Option ℤ) (env : Env) (history : History) (series : Series)
    (startMs endMs : ℤ) (sinceMs : Option ℤ) : List ParquetRow :=
  let effectiveStartMs := (sinceMs.map fun since ↦ max startMs (since + 1)).getD startMs
  let keys := if env.timeseriesIndexEnabled then
    (listUtcDays dateParse startMs endMs).flatMap (dayKeys dateParse history series effectiveStartMs
      endMs) else []
  keys.flatMap fun key ↦ ((history.file key).map fun groups ↦
    fetchFilteredParquetRows env groups series.timeseriesId).getD []

section Rows

variable {dateParse : String → Option ℤ} {env : Env} {history : History} {series : Series}
variable {startMs endMs : ℤ} {sinceMs : Option ℤ} {limit : ℕ} {row : ParquetRow}

theorem readHistoryRows_eq :
    readHistoryRows dateParse env history series startMs endMs sinceMs limit
      = normalizeAndSortRows dateParse
        (((rowsRead dateParse env history series startMs endMs sinceMs).filterMap
          (filteredRow dateParse startMs endMs sinceMs)).foldl
            (fun out row ↦ out.set row.1 row.2) OrderedMap.empty) limit := by
  rw [readHistoryRows, rowsRead]
  refine congrArg (normalizeAndSortRows dateParse · limit) ?_
  rw [List.filterMap_flatMap, List.foldl_flatMap]
  refine congrArg (fun step ↦ List.foldl step OrderedMap.empty _) (funext fun out ↦ funext fun key ↦ ?_)
  rcases history.file key with _ | groups
  · rfl
  · rfl

/-- The row of an answer that a row becomes. -/
def apiRow (row : ParquetRow) : ApiRow where
  observedAt := toISOString (wholeSecond row.observedAt)
  value := normalizeValue row.value
  verificationStatus := row.verificationStatus.filter fun status ↦ status = "R" ∨ status = "P"

theorem toIsoOrNull_dateText (hdates : ReadsDates dateParse) {t : ℤ} (h : IsTimeValue t) :
    toIsoOrNull dateParse (dateText t) = some (toISOString (wholeSecond t)) := by
  have hne : dateText t ≠ "" := by
    intro hempty
    obtain ⟨c, -, hhead⟩ := head?_dateChars t
    have hchars : dateChars t = [] := String.ofList_injective hempty
    rw [hchars] at hhead
    exact nomatch hhead
  rw [toIsoOrNull]
  simp only [trimText_dateText, if_neg hne, hdates.dateTexts t h, Option.map_some]

/-- **A row is kept** where its second is in the window. -/
theorem filteredRow_eq (hdates : ReadsDates dateParse) (h : IsTimeValue row.observedAt)
    [Decidable (InWindow startMs endMs sinceMs (wholeSecond row.observedAt))] :
    filteredRow dateParse startMs endMs sinceMs row
      = if InWindow startMs endMs sinceMs (wholeSecond row.observedAt) then
          some (toISOString (wholeSecond row.observedAt), apiRow row) else none := by
  have hparse := hdates.timestamps _ (isTimeValue_wholeSecond h)
  rw [filteredRow, toIsoOrNull_dateText hdates h]
  simp only [Option.bind_eq_bind, Option.bind_some, hparse]
  by_cases hwindow : InWindow startMs endMs sinceMs (wholeSecond row.observedAt)
  · rw [if_pos hwindow, if_neg]
    · rfl
    · rintro (hstart | hend | ⟨since, hsince, hle⟩)
      · exact not_le.mpr hstart hwindow.1
      · exact not_lt.mpr hend hwindow.2.1
      · exact not_lt.mpr hle (hwindow.2.2 since hsince)
  · rw [if_neg hwindow, if_pos]
    by_contra hnone
    simp only [not_or, not_exists, not_and, not_lt, not_le] at hnone
    exact hwindow ⟨hnone.1, hnone.2.1, hnone.2.2⟩

theorem mem_matchedRows {timeseriesId : ℤ} {group : RowGroup} :
    row ∈ matchedRows env timeseriesId group ↔
      (∀ minId ∈ group.minTimeseriesId, ∀ maxId ∈ group.maxTimeseriesId,
        minId ≤ timeseriesId ∧ timeseriesId ≤ maxId) ∧
        row ∈ group.rows ∧ row.timeseriesId = timeseriesId := by
  have hsize : 0 < env.parquetRowChunkSize := by
    have hbounds := env.chunkSize_bounds
    omega
  have hchunks : row ∈ (Cutting.chunks env.parquetRowChunkSize group.rows).flatMap
        (fun chunk ↦ chunk.filter (·.timeseriesId = timeseriesId)) ↔
      row ∈ group.rows ∧ row.timeseriesId = timeseriesId := by
    conv_rhs => rw [← Cutting.flatten_chunks hsize group.rows]
    simp only [List.mem_flatMap, List.mem_filter, decide_eq_true_eq, List.mem_flatten]
    exact ⟨fun ⟨chunk, hchunk, hrow, hid⟩ ↦ ⟨⟨chunk, hchunk, hrow⟩, hid⟩,
      fun ⟨⟨chunk, hchunk, hrow⟩, hid⟩ ↦ ⟨chunk, hchunk, hrow, hid⟩⟩
  rw [matchedRows]
  split
  · rename_i hout
    refine ⟨fun h ↦ absurd h List.not_mem_nil, fun h ↦ ?_⟩
    obtain ⟨minId, hmin, maxId, hmax, hout⟩ := hout
    have hin := h.1 minId hmin maxId hmax
    omega
  · rename_i hin
    rw [hchunks]
    refine ⟨fun h ↦ ⟨fun minId hmin maxId hmax ↦ ?_, h⟩, And.right⟩
    by_contra hout
    exact hin ⟨minId, hmin, maxId, hmax, by omega⟩

theorem mem_rowsRead_iff : row ∈ rowsRead dateParse env history series startMs endMs sinceMs ↔
    env.timeseriesIndexEnabled = true ∧ ∃ dayUtc ∈ listUtcDays dateParse startMs endMs,
      ∃ key ∈ dayKeys dateParse history series
        ((sinceMs.map fun since ↦ max startMs (since + 1)).getD startMs) endMs dayUtc,
        ∃ groups, history.file key = some groups ∧
          ∃ group ∈ groups, row ∈ matchedRows env series.timeseriesId group := by
  have hfile : ∀ key, row ∈ ((history.file key).map fun groups ↦
      fetchFilteredParquetRows env groups series.timeseriesId).getD [] ↔
        ∃ groups, history.file key = some groups ∧
          ∃ group ∈ groups, row ∈ matchedRows env series.timeseriesId group := by
    intro key
    rcases history.file key with _ | groups
    · simp
    · simp [fetchFilteredParquetRows]
  rw [rowsRead]
  simp only [List.mem_flatMap, hfile]
  by_cases henabled : env.timeseriesIndexEnabled = true
  · rw [if_pos henabled]
    simp only [List.mem_flatMap]
    exact ⟨fun ⟨key, ⟨day, hday, hkey⟩, hrow⟩ ↦ ⟨henabled, day, hday, key, hkey, hrow⟩,
      fun ⟨_, day, hday, key, hkey, hrow⟩ ↦ ⟨key, ⟨day, hday, hkey⟩, hrow⟩⟩
  · rw [if_neg henabled]
    exact ⟨fun ⟨key, hkey, _⟩ ↦ absurd hkey List.not_mem_nil, fun h ↦ absurd h.1 henabled⟩

theorem mem_dayKeys {effectiveStartMs day : ℤ} {entries : List IndexEntry} {key : String}
    (h : IndexAt history series day entries) :
    key ∈ dayKeys dateParse history series effectiveStartMs endMs (isoDay day) ↔
      ∃ entry ∈ entries, entry.selected dateParse series.timeseriesId effectiveStartMs endMs = true ∧
        trimText entry.key = key := by
  rw [dayKeys, h.2]
  simp only [extractParquetKeys, List.mem_eraseDups, List.mem_map, List.mem_filter, and_assoc]

/-- What is read is stored. -/
theorem storedRow_of_mem (hdates : ReadsDates dateParse)
    (htruthful : Truthful dateParse history series) (hlt : startMs < endMs)
    (hindexed : IndexedOver history series startMs endMs)
    (h : row ∈ rowsRead dateParse env history series startMs endMs sinceMs) :
    ∃ day entry, StoredRow history series day entry row := by
  obtain ⟨-, dayUtc, hday, key, hkey, groups, hfile, group, hgroup, hrow⟩ := mem_rowsRead_iff.mp h
  have hplain : ∀ e, startMs / dayMs ≤ e → e * dayMs < endMs → PlainYear e := by
    intro e hle hlt
    obtain ⟨entries, hentries⟩ := hindexed e hle hlt
    exact hentries.1
  obtain ⟨day, hle, hbegin, rfl⟩ := (mem_listUtcDays hdates hplain hlt).mp hday
  obtain ⟨entries, hentries⟩ := hindexed day hle hbegin
  obtain ⟨entry, hentry, -, hname⟩ := (mem_dayKeys hentries).mp hkey
  rw [(htruthful.keys day entries hentries entry hentry).2] at hname
  have hmatched := mem_matchedRows.mp hrow
  exact ⟨day, entry, entries, hentries, hentry, groups, by rw [hname, hfile], group, hgroup,
    hmatched.2.1, hmatched.2.2⟩

/-- A file with a row of the window is selected. -/
theorem selected_of_stored (htruthful : Truthful dateParse history series) {day : ℤ}
    {entry : IndexEntry} (hstored : StoredRow history series day entry row)
    (hwindow : InWindow startMs endMs sinceMs row.observedAt) :
    entry.selected dateParse series.timeseriesId
      ((sinceMs.map fun since ↦ max startMs (since + 1)).getD startMs) endMs = true := by
  have heffective : (sinceMs.map fun since ↦ max startMs (since + 1)).getD startMs
      ≤ row.observedAt := by
    rcases sinceMs with _ | since
    · exact hwindow.1
    · exact max_le hwindow.1 (hwindow.2.2 since rfl)
  have hranges := htruthful.ranges day entry row hstored
  have htimes := htruthful.times day entry row hstored
  obtain ⟨entries, hentries, hentry, -⟩ := hstored
  obtain ⟨hne, htrim⟩ := htruthful.keys day entries hentries entry hentry
  rw [IndexEntry.selected, htrim, Bool.and_eq_true]
  refine ⟨decide_eq_true hne, ?_⟩
  rcases hrange : entry.range with _ | ⟨minId, maxId⟩
  · rfl
  · have hid := hranges _ hrange
    dsimp only
    rw [Bool.and_eq_true]
    refine ⟨?_, decide_eq_true hid⟩
    rcases htime : entry.timeRange dateParse with _ | ⟨minMs, maxMs⟩
    · rfl
    · have hms := htimes _ htime
      exact decide_eq_true ⟨heffective.trans hms.2, hms.1.trans_lt hwindow.2.1⟩

/-- **What is stored in the window is read.** -/
theorem mem_rowsRead (hdates : ReadsDates dateParse) (htruthful : Truthful dateParse history series)
    (henabled : env.timeseriesIndexEnabled = true)
    (hindexed : IndexedOver history series startMs endMs) {day : ℤ} {entry : IndexEntry}
    (hstored : StoredRow history series day entry row)
    (hwindow : InWindow startMs endMs sinceMs row.observedAt) :
    row ∈ rowsRead dateParse env history series startMs endMs sinceMs := by
  have hplain : ∀ e, startMs / dayMs ≤ e → e * dayMs < endMs → PlainYear e := by
    intro e hle hlt
    obtain ⟨entries, hentries⟩ := hindexed e hle hlt
    exact hentries.1
  have hday := htruthful.days day entry row hstored
  have hselected := selected_of_stored htruthful hstored hwindow
  obtain ⟨entries, hentries, hentry, groups, hfile, group, hgroup, hrow, hid⟩ := hstored
  have hname := (htruthful.keys day entries hentries entry hentry).2
  have hbounds : startMs / dayMs ≤ day ∧ day * dayMs < endMs := by
    have hstart := hwindow.1
    have hend := hwindow.2.1
    simp only [dayMs, hourMs, minuteMs] at hday ⊢
    omega
  refine mem_rowsRead_iff.mpr ⟨henabled, isoDay day, ?_, entry.key, ?_, groups, hfile, group, hgroup,
    mem_matchedRows.mpr ⟨fun minId hmin maxId hmax ↦ ?_, hrow, hid⟩⟩
  · exact (mem_listUtcDays hdates hplain (hwindow.1.trans_lt hwindow.2.1)).mpr
      ⟨day, hbounds.1, hbounds.2, rfl⟩
  · exact (mem_dayKeys hentries).mpr ⟨entry, hentry, hselected, hname⟩
  · have hstats := htruthful.groups entry.key groups hfile group hgroup row hrow
    rw [← hid]
    exact ⟨hstats.1 minId hmin, hstats.2 maxId hmax⟩

end Rows

end UkAqOps.HistoryApi

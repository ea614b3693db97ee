import UkAqOps.HistoryApi.Paging

/-!
# What paging returns

The reader of the history gets the stored rows of a window if every stored row is at a whole second
and has a number: a date shows its second alone, and a missing number is read as zero.
-/

namespace UkAqOps.HistoryApi

open Sorting CursorPages

/-! ## Listings -/

/-- The stored rows of a window behind a cursor, in the order of time. -/
structure IsListing (history : History) (series : Series) (startMs endMs : ℤ) (sinceMs : Option ℤ)
    (rows : List (ℤ × Cell)) : Prop where
  sorted : rows.Pairwise fun a b ↦ a.1 < b.1
  mem : ∀ t cell, (t, cell) ∈ rows ↔
    Stored history series t cell ∧ InWindow startMs endMs sinceMs t

/-- No two different values are stored at an instant. -/
def Unambiguous (history : History) (series : Series) : Prop :=
  ∀ t cell cell', Stored history series t cell → Stored history series t cell' → cell = cell'

section Listings

variable {dateParse : String → Option ℤ} {env : Env} {history : History} {series : Series}
variable {startMs endMs : ℤ} {sinceMs : Option ℤ} {limit : ℕ} {row : ParquetRow}
variable {rows : List (ℤ × Cell)}

theorem isTimeValue_of_stored (htruthful : Truthful dateParse history series) {day : ℤ}
    {entry : IndexEntry} (h : StoredRow history series day entry row) :
    IsTimeValue row.observedAt := by
  have hday := htruthful.days day entry row h
  obtain ⟨entries, hentries, -⟩ := h
  exact isTimeValue_of_plainYear (hday ▸ hentries.1)

open Classical in
theorem exists_listing (hdates : ReadsDates dateParse)
    (htruthful : Truthful dateParse history series) (hunique : Unambiguous history series)
    (henabled : env.timeseriesIndexEnabled = true) (hlt : startMs < endMs)
    (hindexed : IndexedOver history series startMs endMs) :
    ∃ rows, IsListing history series startMs endMs sinceMs rows := by
  let found := ((rowsRead dateParse env history series startMs endMs sinceMs).filter fun row ↦
    InWindow startMs endMs sinceMs row.observedAt).map fun row ↦ (row.observedAt, row.value)
  have hfound : ∀ t cell, (t, cell) ∈ found ↔
      Stored history series t cell ∧ InWindow startMs endMs sinceMs t := by
    intro t cell
    simp only [found, List.mem_map, List.mem_filter, decide_eq_true_eq, Prod.mk.injEq]
    constructor
    · rintro ⟨row, ⟨hrow, hwindow⟩, rfl, rfl⟩
      obtain ⟨day, entry, hstored⟩ := storedRow_of_mem hdates htruthful hlt hindexed hrow
      exact ⟨⟨day, entry, row, hstored, rfl, rfl⟩, hwindow⟩
    · rintro ⟨⟨day, entry, row, hstored, rfl, rfl⟩, hwindow⟩
      exact ⟨row, ⟨mem_rowsRead hdates htruthful henabled hindexed hstored hwindow, hwindow⟩, rfl, rfl⟩
  have hcmp : Std.TransCmp fun a b : ℤ × Cell ↦ compare a.1 b.1 := transCmp_on inferInstance _
  refine ⟨sortBy (fun a b ↦ compare a.1 b.1) found.eraseDups, ?_, fun t cell ↦ ?_⟩
  · refine (pairwise_lt_sortBy ?_).imp fun h ↦ compare_lt_iff_lt.mp h
    refine (nodup_eraseDups found).imp_of_mem fun {a b} ha hb hne heq ↦ hne ?_
    have ha' := (hfound a.1 a.2).mp (List.mem_eraseDups.mp ha)
    have hb' := (hfound b.1 b.2).mp (List.mem_eraseDups.mp hb)
    have hinstant := compare_eq_iff_eq.mp heq
    rw [← hinstant] at hb'
    exact Prod.ext hinstant (hunique _ _ _ ha'.1 hb'.1)
  · rw [mem_sortBy, List.mem_eraseDups, hfound]

end Listings

/-! ## The rows of an answer -/

section Answers

variable {dateParse : String → Option ℤ} {env : Env} {history : History} {series : Series}
variable {startMs endMs : ℤ} {sinceMs : Option ℤ} {limit : ℕ} {rows : List (ℤ × Cell)}

/-- The rows of a read before they are sorted. -/
def foundRows (dateParse : String → Option ℤ) (env : Env) (history : History) (series : Series)
    (startMs endMs : ℤ) (sinceMs : Option ℤ) : OrderedMap String ApiRow :=
  OrderedMap.ofList ((rowsRead dateParse env history series startMs endMs sinceMs).filterMap
    (filteredRow dateParse startMs endMs sinceMs))

open Classical in
/-- **Every row of a read** is a stored row at its second. -/
theorem of_mem_foundRows (hdates : ReadsDates dateParse)
    (htruthful : Truthful dateParse history series)
    (hlt : startMs < endMs) (hindexed : IndexedOver history series startMs endMs) {key : String}
    {found : ApiRow} (h : (key, found) ∈
      (foundRows dateParse env history series startMs endMs sinceMs).entries) :
    ∃ row, (∃ day entry, StoredRow history series day entry row) ∧
      InWindow startMs endMs sinceMs (wholeSecond row.observedAt) ∧
      key = toISOString (wholeSecond row.observedAt) ∧ found = apiRow row := by
  rw [← OrderedMap.get?_eq_some_iff, foundRows, OrderedMap.get?_ofList, Option.map_eq_some_iff] at h
  obtain ⟨⟨key', found'⟩, hfind, rfl⟩ := h
  have hkey : key' = key := by simpa using List.find?_some hfind
  have hmem := List.mem_reverse.mp (List.mem_of_find?_eq_some hfind)
  obtain ⟨row, hrow, hkept⟩ := List.mem_filterMap.mp hmem
  obtain ⟨day, entry, hstored⟩ := storedRow_of_mem hdates htruthful hlt hindexed hrow
  rw [filteredRow_eq hdates (isTimeValue_of_stored htruthful hstored)] at hkept
  split at hkept
  · rename_i hwindow
    obtain ⟨rfl, rfl⟩ := Prod.mk.inj (Option.some.inj hkept)
    exact ⟨row, ⟨day, entry, hstored⟩, hwindow, hkey.symm, rfl⟩
  · exact nomatch hkept

open Classical in
/-- **Every stored row** whose second is in the window is read, at its second. -/
theorem mem_keys_foundRows (hdates : ReadsDates dateParse)
    (htruthful : Truthful dateParse history series) (henabled : env.timeseriesIndexEnabled = true)
    (hindexed : IndexedOver history series startMs endMs) {day : ℤ} {entry : IndexEntry}
    {row : ParquetRow} (hstored : StoredRow history series day entry row)
    (hin : InWindow startMs endMs sinceMs row.observedAt)
    (hwindow : InWindow startMs endMs sinceMs (wholeSecond row.observedAt)) :
    toISOString (wholeSecond row.observedAt) ∈
      (foundRows dateParse env history series startMs endMs sinceMs).keys := by
  refine OrderedMap.mem_keys_ofList.mpr (List.mem_map.mpr
    ⟨(toISOString (wholeSecond row.observedAt), apiRow row),
      List.mem_filterMap.mpr ⟨row, ?_, ?_⟩, rfl⟩)
  · exact mem_rowsRead hdates htruthful henabled hindexed hstored hin
  · rw [filteredRow_eq hdates (isTimeValue_of_stored htruthful hstored), if_pos hwindow]

/-- The stored rows that a window may show are at whole seconds and have numbers. -/
def Shown (history : History) (series : Series) (startMs endMs : ℤ) (sinceMs : Option ℤ) : Prop :=
  ∀ t cell, Stored history series t cell →
    InWindow startMs endMs sinceMs t ∨ InWindow startMs endMs sinceMs (wholeSecond t) →
    t % 1000 = 0 ∧ ∃ value, cell = .finite value

/-- **The rows of a read** are the first of its listing. -/
theorem readHistoryRows_listing (limit : ℕ) (hdates : ReadsDates dateParse)
    (htruthful : Truthful dateParse history series) (hunique : Unambiguous history series)
    (henabled : env.timeseriesIndexEnabled = true) (hlt : startMs < endMs)
    (hindexed : IndexedOver history series startMs endMs)
    (hshown : Shown history series startMs endMs sinceMs)
    (hlisting : IsListing history series startMs endMs sinceMs rows) :
    (readHistoryRows dateParse env history series startMs endMs sinceMs limit).map
        (fun row ↦ (row.observedAt, row.value))
      = (rows.take limit).map fun p ↦ (toISOString p.1, normalizeValue p.2) := by
  set found := foundRows dateParse env history series startMs endMs sinceMs with hfound
  set cmp := fun left right : ApiRow ↦
    compare (sortMs dateParse left.observedAt) (sortMs dateParse right.observedAt) with hcmp
  have htrans : Std.TransCmp cmp := transCmp_on inferInstance _
  -- a row of the read is at its own instant
  have hrow : ∀ key row, (key, row) ∈ found.entries → ∃ t cell, Stored history series t cell ∧
      InWindow startMs endMs sinceMs t ∧ key = toISOString t ∧ row.observedAt = toISOString t ∧
      sortMs dateParse row.observedAt = t ∧ row.value = normalizeValue cell := by
    intro key row hmem
    obtain ⟨stored, ⟨day, entry, hstored⟩, hwindow, rfl, rfl⟩ :=
      of_mem_foundRows hdates htruthful hlt hindexed hmem
    have hwhole := wholeSecond_eq_self_iff.mpr
      (hshown _ _ ⟨day, entry, stored, hstored, rfl, rfl⟩ (Or.inr hwindow)).1
    have htime := isTimeValue_of_stored htruthful hstored
    refine ⟨stored.observedAt, stored.value, ⟨day, entry, stored, hstored, rfl, rfl⟩, ?_, ?_, ?_, ?_,
      rfl⟩
    · rwa [hwhole] at hwindow
    · rw [hwhole]
    · rw [apiRow, hwhole]
    · rw [sortMs, apiRow, hwhole, hdates.timestamps _ htime, Option.getD_some]
  have hstrict : (sortBy cmp found.values).Pairwise fun a b ↦ cmp a b = .lt := by
    refine pairwise_lt_sortBy ?_
    rw [OrderedMap.values, List.pairwise_map]
    refine (List.pairwise_map.mp found.nodup_keys).imp_of_mem fun {p q} hp hq hne heq ↦ hne ?_
    obtain ⟨t, -, -, -, hkey, -, hms, -⟩ := hrow p.1 p.2 hp
    obtain ⟨t', -, -, -, hkey', -, hms', -⟩ := hrow q.1 q.2 hq
    have hsame := compare_eq_iff_eq.mp heq
    rw [hkey, hkey', ← hms, ← hms', hsame]
  have hlist : (sortBy cmp found.values).map
      (fun row ↦ (sortMs dateParse row.observedAt, row.value))
        = rows.map fun p ↦ (p.1, normalizeValue p.2) := by
    refine eq_of_mem_iff (r := fun a b : ℤ × Option ℚ ↦ a.1 < b.1) (fun a b ↦ lt_asymm) ?_ ?_ ?_
    · exact List.pairwise_map.mpr (hstrict.imp fun h ↦ compare_lt_iff_lt.mp h)
    · exact List.pairwise_map.mpr hlisting.sorted
    · rintro ⟨t, value⟩
      simp only [List.mem_map, mem_sortBy, OrderedMap.mem_values, Prod.mk.injEq]
      constructor
      · rintro ⟨row, ⟨key, hmem⟩, rfl, rfl⟩
        obtain ⟨t, cell, hstored, hwindow, -, -, hms, hvalue⟩ := hrow key row hmem
        exact ⟨(t, cell), (hlisting.mem t cell).mpr ⟨hstored, hwindow⟩, hms.symm, hvalue.symm⟩
      · rintro ⟨⟨t', cell⟩, hmem, rfl, rfl⟩
        obtain ⟨hstored, hwindow⟩ := (hlisting.mem t' cell).mp hmem
        have hwhole := wholeSecond_eq_self_iff.mpr (hshown _ _ hstored (Or.inl hwindow)).1
        obtain ⟨day, entry, row, hrowStored, rfl, rfl⟩ := hstored
        have hkey := mem_keys_foundRows hdates htruthful henabled hindexed hrowStored hwindow
          (by rwa [hwhole])
        obtain ⟨⟨key, row'⟩, hentry, hkeyEq⟩ := List.mem_map.mp hkey
        obtain ⟨t, cell', hstored', -, hkey', -, hms, hvalue⟩ := hrow key row' hentry
        have htime := isTimeValue_of_stored htruthful hrowStored
        have htime' : IsTimeValue t := by
          obtain ⟨day', entry', row'', hstored'', rfl, -⟩ := hstored'
          exact isTimeValue_of_stored htruthful hstored''
        have hinstant : t = row.observedAt := by
          refine toISOString_injOn htime' htime ?_
          rw [← hkey', ← hwhole]
          exact hkeyEq
        rw [hinstant] at hstored' hms
        rw [hunique _ _ _ hstored' ⟨day, entry, row, hrowStored, rfl, rfl⟩] at hvalue
        exact ⟨row', ⟨key, hentry⟩, hms, hvalue⟩
  have htext : ∀ row ∈ sortBy cmp found.values,
      row.observedAt = toISOString (sortMs dateParse row.observedAt) := by
    intro row hmem
    obtain ⟨key, hentry⟩ := OrderedMap.mem_values.mp (mem_sortBy.mp hmem)
    obtain ⟨t, -, -, -, -, htext, hms, -⟩ := hrow key row hentry
    rw [hms, htext]
  rw [readHistoryRows_eq, normalizeAndSortRows, ← OrderedMap.ofList, ← foundRows, ← hfound, ← hcmp,
    List.map_take, List.map_take]
  refine congrArg (List.take limit) ?_
  have hmapped := congrArg (List.map fun p : ℤ × Option ℚ ↦ (toISOString p.1, p.2)) hlist
  rw [List.map_map, List.map_map] at hmapped
  refine (List.map_congr_left fun row hmem ↦ ?_).trans hmapped
  exact Prod.ext (htext row hmem) rfl

theorem isTimeValue_of_indexedOver (hlt : startMs < endMs)
    (hindexed : IndexedOver history series startMs endMs) :
    IsTimeValue startMs ∧ IsTimeValue endMs := by
  have hplain : ∀ day, startMs / dayMs ≤ day → day * dayMs < endMs → PlainYear day := by
    intro day hle hlt
    obtain ⟨entries, hentries⟩ := hindexed day hle hlt
    exact hentries.1
  have hfirst := (hplain (startMs / dayMs) le_rfl (by
    simp only [dayMs, hourMs, minuteMs]; omega)).bounds
  have hlast := (hplain ((endMs - 1) / dayMs) (by
    simp only [dayMs, hourMs, minuteMs]; omega) (by
    simp only [dayMs, hourMs, minuteMs]; omega)).bounds
  simp only [dayMs, hourMs, minuteMs] at hfirst hlast
  simp only [IsTimeValue]
  omega

theorem toIsoOrNull_toISOString (hdates : ReadsDates dateParse) {t : ℤ} (h : IsTimeValue t) :
    toIsoOrNull dateParse (toISOString t) = some (toISOString t) := by
  rw [toIsoOrNull]
  simp only [trimText_toISOString, if_neg (toISOString_ne_empty t), hdates.timestamps t h,
    Option.map_some]

/-- **An answer** has the rows of a read. -/
theorem answerObservations_eq (hdates : ReadsDates dateParse) (hlt : startMs < endMs)
    (hindexed : IndexedOver history series startMs endMs)
    (hsince : ∀ since ∈ sinceMs, IsTimeValue since) (hlimit : 1 ≤ limit ∧ limit ≤ maxLimit) :
    answerObservations dateParse env history series
        ⟨toISOString startMs, toISOString endMs, sinceMs.map toISOString, limit⟩
      = some ⟨some (readHistoryRows dateParse env history series startMs endMs sinceMs limit).length,
          readHistoryRows dateParse env history series startMs endMs sinceMs limit⟩ := by
  obtain ⟨hstart, hend⟩ := isTimeValue_of_indexedOver hlt hindexed
  rw [answerObservations]
  simp only [toIsoOrNull_toISOString hdates hstart, toIsoOrNull_toISOString hdates hend,
    hdates.timestamps _ hstart, hdates.timestamps _ hend, Option.bind_eq_bind, Option.bind_some,
    if_neg (not_le.mpr hlt), if_pos hlimit]
  rcases sinceMs with _ | since
  · rfl
  · have htime := hsince since rfl
    simp only [Option.map_some, toIsoOrNull_toISOString hdates htime, hdates.timestamps _ htime,
      Option.bind_some]
    rfl

/-- Whatever the cursor, an answer has the rows of some read. -/
theorem exists_since_of_answer (hdates : ReadsDates dateParse) (hlt : startMs < endMs)
    (hindexed : IndexedOver history series startMs endMs) {sinceUtc : Option String}
    {payload : Payload} (h : answerObservations dateParse env history series
      ⟨toISOString startMs, toISOString endMs, sinceUtc, limit⟩ = some payload) :
    ∃ sinceMs, payload.rows
      = readHistoryRows dateParse env history series startMs endMs sinceMs limit := by
  obtain ⟨hstart, hend⟩ := isTimeValue_of_indexedOver hlt hindexed
  rw [answerObservations] at h
  simp only [toIsoOrNull_toISOString hdates hstart, toIsoOrNull_toISOString hdates hend,
    hdates.timestamps _ hstart, hdates.timestamps _ hend, Option.bind_eq_bind, Option.bind_some,
    if_neg (not_le.mpr hlt)] at h
  have hread : ∀ sinceMs : Option ℤ, (if 1 ≤ limit ∧ limit ≤ maxLimit then
      some ({ rowCount := some (readHistoryRows dateParse env history series startMs endMs sinceMs
          limit).length
              rows := readHistoryRows dateParse env history series startMs endMs sinceMs limit } :
        Payload) else none) = some payload →
      payload.rows = readHistoryRows dateParse env history series startMs endMs sinceMs limit := by
    intro sinceMs h
    split at h
    · exact (congrArg Payload.rows (Option.some.inj h)).symm
    · exact nomatch h
  rcases sinceUtc with _ | sinceUtc
  · exact ⟨none, hread none h⟩
  · obtain ⟨sinceMs, -, h⟩ := Option.bind_eq_some_iff.mp h
    exact ⟨sinceMs, hread sinceMs h⟩

/-- **The pages** of the reader behind a cursor. -/
theorem pages_of_listing (hdates : ReadsDates dateParse)
    (htruthful : Truthful dateParse history series) (hunique : Unambiguous history series)
    (henabled : env.timeseriesIndexEnabled = true) (hlt : startMs < endMs)
    (hindexed : IndexedOver history series startMs endMs)
    (hsince : ∀ since ∈ sinceMs, IsTimeValue since) (hlimit : 1 ≤ limit ∧ limit ≤ maxLimit)
    (hshown : Shown history series startMs endMs sinceMs)
    (hlisting : IsListing history series startMs endMs sinceMs rows) :
    ∃ payload, answerObservations dateParse env history series
        ⟨toISOString startMs, toISOString endMs, sinceMs.map toISOString, limit⟩ = some payload ∧
      payload.rowCount = some (rows.take limit).length ∧
      parseTimeseriesRowsFromPayload dateParse payload
        = (rows.take limit).map fun p ↦ observedRow p.1 (normalizeValue p.2) := by
  have hread := readHistoryRows_listing limit hdates htruthful hunique henabled hlt hindexed hshown
    hlisting
  refine ⟨_, answerObservations_eq hdates hlt hindexed hsince hlimit, ?_, ?_⟩
  · have hlength := congrArg List.length hread
    rw [List.length_map, List.length_map] at hlength
    exact congrArg some hlength
  · have htime : ∀ p ∈ rows.take limit, IsTimeValue p.1 := by
      intro p hp
      obtain ⟨⟨day, entry, row, hstored, heq, -⟩, -⟩ :=
        (hlisting.mem p.1 p.2).mp (List.mem_of_mem_take hp)
      exact heq ▸ isTimeValue_of_stored htruthful hstored
    exact filterMap_normalizeObservedRow hdates Prod.fst (fun p ↦ normalizeValue p.2) htime hread

end Answers

end UkAqOps.HistoryApi

import UkAqOps.Aqi.Hours

/-!
# The hourly grid

The grid of a particulate series adds the hours between its first and its last observed one that were
not observed; other series are left as they are. The grid of a build is the grids of its timeseries,
each sorted by hour.
-/

namespace UkAqOps.Aqi

open Sorting

variable {ν : Type} [Numeric ν] {host : Host} {rows : List (SourceRow ν)}

/-! ## The grid of a series -/

/-- The rows of one timeseries: they share their columns, and their hours are distinct. -/
structure IsSeries (timeseriesId : ℤ) (rows : List (HelperRow ν)) : Prop where
  series : ∀ r ∈ rows, r.timeseriesId = timeseriesId
  uniform : ∀ r ∈ rows, ∀ r' ∈ rows, r.stationId = r'.stationId ∧
    r.connectorId = r'.connectorId ∧ r.pollutantCode = r'.pollutantCode
  observed : ∀ r ∈ rows, r.syntheticHour = false
  aligned : ∀ r ∈ rows, r.timestampHourUtc % hourMs = 0
  plain : ∀ r ∈ rows, PlainYear (r.timestampHourUtc / dayMs)
  nodup : (rows.map HelperRow.timestampHourUtc).Nodup

section Grid

omit [Numeric ν]

variable {timeseriesId : ℤ} {series : List (HelperRow ν)} {r : HelperRow ν}

@[simp] theorem mem_sortHelperRows {l : List (HelperRow ν)} : r ∈ sortHelperRows l ↔ r ∈ l :=
  mem_sortBy

/-- Rows with distinct plain hours sort strictly by hour. -/
theorem pairwise_sortHelperRows {l : List (HelperRow ν)}
    (hplain : ∀ r ∈ l, PlainYear (r.timestampHourUtc / dayMs))
    (hseries : ∀ r ∈ l, r.timeseriesId = timeseriesId)
    (hnodup : (l.map HelperRow.timestampHourUtc).Nodup) :
    (sortHelperRows l).Pairwise fun r r' ↦ r.timestampHourUtc < r'.timestampHourUtc := by
  have hne : l.Pairwise fun r r' ↦ compareHelperRows r r' ≠ .eq := by
    refine (List.pairwise_map.mp hnodup).imp_of_mem fun hr hr' hhours heq ↦ hhours ?_
    exact compareTimestamps_eq_eq (hplain _ hr) (hplain _ hr') (Ordering.then_eq_eq.mp heq).1
  refine (pairwise_lt_sortBy hne).imp_of_mem fun {r r'} hr hr' hlt ↦ ?_
  replace hr := mem_sortHelperRows.mp hr
  replace hr' := mem_sortHelperRows.mp hr'
  rcases Ordering.then_eq_lt.mp hlt with hlt | ⟨-, hlt⟩
  · exact (compareTimestamps_eq_lt (hplain _ hr) (hplain _ hr')).mp hlt
  · rw [hseries r hr, hseries r' hr'] at hlt
    exact absurd (Std.ReflCmp.compare_self.symm.trans hlt) (by decide)

theorem mem_hourCursors {start stop hour : ℤ} :
    hour ∈ hourCursors start stop ↔
      start ≤ hour ∧ hour < stop ∧ (hour - start) % hourMs = 0 := by
  rw [hourCursors, List.mem_map]
  simp only [List.mem_range, hourMs, minuteMs]
  constructor
  · rintro ⟨i, hi, rfl⟩
    omega
  · rintro ⟨hstart, hstop, haligned⟩
    exact ⟨((hour - start) / (60 * 60000)).toNat, by omega, by omega⟩

theorem pairwise_hourCursors (start stop : ℤ) : (hourCursors start stop).Pairwise (· < ·) := by
  rw [hourCursors, List.pairwise_map]
  refine List.pairwise_lt_range.imp fun {i j} hij ↦ ?_
  simp only [hourMs, minuteMs]
  omega

/-- A row of the grid of a series: an observed one, or a gap of a particulate series between two
observed ones. -/
inductive OnGrid (series : List (HelperRow ν)) (r : HelperRow ν) : Prop
  | observed (h : r ∈ series)
  | gap {before after : HelperRow ν} (hbefore : before ∈ series) (hafter : after ∈ series)
      (hpollutant : before.pollutantCode ≠ .no2)
      (hlower : before.timestampHourUtc < r.timestampHourUtc)
      (hupper : r.timestampHourUtc < after.timestampHourUtc)
      (haligned : r.timestampHourUtc % hourMs = 0)
      (hnone : ∀ c ∈ series, c.timestampHourUtc ≠ r.timestampHourUtc)
      (hrow : r = before.gap r.timestampHourUtc)

theorem gridRow_cases {rows : List (HelperRow ν)}
    (hnodup : (rows.map HelperRow.timestampHourUtc).Nodup) (template : HelperRow ν) (hour : ℤ) :
    (∃ row ∈ rows, row.timestampHourUtc = hour ∧
      gridRow (.ofList (rows.map fun row ↦ (row.timestampHourUtc, row))) template hour
        = { row with syntheticHour := false }) ∨
    ((∀ row ∈ rows, row.timestampHourUtc ≠ hour) ∧
      gridRow (.ofList (rows.map fun row ↦ (row.timestampHourUtc, row))) template hour
        = template.gap hour) := by
  have hentries : (OrderedMap.ofList (rows.map fun row ↦ (row.timestampHourUtc, row))).entries
      = rows.map fun row ↦ (row.timestampHourUtc, row) := by
    refine OrderedMap.entries_ofList ?_
    rw [List.map_map]
    exact hnodup
  rcases hget : (OrderedMap.ofList (rows.map fun row ↦ (row.timestampHourUtc, row))).get? hour
    with _ | existing
  · refine Or.inr ⟨fun row hrow hhour ↦ ?_, by rw [gridRow, hget]⟩
    rw [OrderedMap.get?_eq_none_iff, OrderedMap.keys, hentries, List.map_map] at hget
    exact hget (List.mem_map.mpr ⟨row, hrow, hhour⟩)
  · refine Or.inl ⟨existing, ?_, ?_, by rw [gridRow, hget]⟩
    all_goals
      rw [OrderedMap.get?_eq_some_iff, hentries, List.mem_map] at hget
      obtain ⟨row, hrow, heq⟩ := hget
      obtain ⟨rfl, rfl⟩ := Prod.mk.inj heq
    · exact hrow
    · rfl

theorem timestampHourUtc_gridRow {rows : List (HelperRow ν)}
    (hnodup : (rows.map HelperRow.timestampHourUtc).Nodup) (template : HelperRow ν) (hour : ℤ) :
    (gridRow (.ofList (rows.map fun row ↦ (row.timestampHourUtc, row))) template
      hour).timestampHourUtc = hour := by
  rcases gridRow_cases hnodup template hour with ⟨row, -, hhour, heq⟩ | ⟨-, heq⟩
  · rw [heq]
    exact hhour
  · rw [heq]
    rfl

/-- What the grid of a series is: nothing, its sorted rows, or a row for each hour from that of the
row that sorts first to that of the row that sorts last. -/
theorem expandSeries_eq {before : ℤ → ℤ → Prop}
    (hsorted : (sortHelperRows series).Pairwise fun r r' ↦
      before r.timestampHourUtc r'.timestampHourUtc) :
    (series = [] ∧ expandSeries series = []) ∨
    (∃ first ∈ series, first.pollutantCode = .no2 ∧ expandSeries series = sortHelperRows series) ∨
    (∃ first ∈ series, ∃ last ∈ series, first.pollutantCode ≠ .no2 ∧
      (∀ row ∈ series,
        (row = first ∨ before first.timestampHourUtc row.timestampHourUtc) ∧
          (row = last ∨ before row.timestampHourUtc last.timestampHourUtc)) ∧
      expandSeries series
        = (hourCursors first.timestampHourUtc (last.timestampHourUtc + hourMs)).map
          (gridRow (.ofList ((sortHelperRows series).map fun row ↦ (row.timestampHourUtc, row)))
            first)) := by
  rw [expandSeries]
  rcases hrows : sortHelperRows series with _ | ⟨first, rest⟩
  · left
    refine ⟨List.eq_nil_iff_forall_not_mem.mpr fun row hrow ↦ ?_, rfl⟩
    rw [← mem_sortHelperRows, hrows] at hrow
    exact List.not_mem_nil hrow
  · right
    have hmem : ∀ row, row ∈ series ↔ row ∈ first :: rest := fun row ↦ by
      rw [← hrows, mem_sortHelperRows]
    have hfirst : first ∈ series := (hmem first).mpr List.mem_cons_self
    dsimp only
    by_cases hno2 : first.pollutantCode = .no2
    · rw [if_pos hno2]
      exact Or.inl ⟨first, hfirst, hno2, rfl⟩
    · rw [if_neg hno2]
      refine Or.inr ⟨first, hfirst, (first :: rest).getLast (List.cons_ne_nil _ _),
        (hmem _).mpr (List.getLast_mem _), hno2, fun row hrow ↦ ?_, rfl⟩
      rw [hrows] at hsorted
      have hrow' := (hmem row).mp hrow
      constructor
      · rcases List.mem_cons.mp hrow' with rfl | hrest
        · exact Or.inl rfl
        · exact Or.inr (List.rel_of_pairwise_cons hsorted hrest)
      · rw [← List.dropLast_append_getLast (List.cons_ne_nil first rest), List.mem_append] at hrow'
        rcases hrow' with hinit | hlast
        · rw [← List.dropLast_append_getLast (List.cons_ne_nil first rest),
            List.pairwise_append] at hsorted
          exact Or.inr (hsorted.2.2 row hinit _ (List.mem_singleton_self _))
        · exact Or.inl (List.mem_singleton.mp hlast)

/-- What the grid of a series with plain years is: nothing, its sorted rows, or a row for each hour
from the first to the last of them. -/
theorem expandSeries_cases (h : IsSeries timeseriesId series) :
    (series = [] ∧ expandSeries series = []) ∨
    (∃ first ∈ series, first.pollutantCode = .no2 ∧ expandSeries series = sortHelperRows series) ∨
    (∃ first ∈ series, ∃ last ∈ series, first.pollutantCode ≠ .no2 ∧
      (∀ row ∈ series, first.timestampHourUtc ≤ row.timestampHourUtc ∧
        row.timestampHourUtc ≤ last.timestampHourUtc) ∧
      expandSeries series
        = (hourCursors first.timestampHourUtc (last.timestampHourUtc + hourMs)).map
          (gridRow (.ofList ((sortHelperRows series).map fun row ↦ (row.timestampHourUtc, row)))
            first)) := by
  rcases expandSeries_eq (pairwise_sortHelperRows h.plain h.series h.nodup) with
    hnil | hno2 | ⟨first, hfirst, last, hlast, hpm, hbounds, heq⟩
  · exact Or.inl hnil
  · exact Or.inr (Or.inl hno2)
  · refine Or.inr (Or.inr ⟨first, hfirst, last, hlast, hpm, fun row hrow ↦ ?_, heq⟩)
    obtain ⟨hlower, hupper⟩ := hbounds row hrow
    constructor
    · rcases hlower with rfl | hlt
      · exact le_rfl
      · exact hlt.le
    · rcases hupper with rfl | hlt
      · exact le_rfl
      · exact hlt.le

/-- Any row of a series is a template for its gaps. -/
theorem gap_eq_of_series (h : IsSeries timeseriesId series) {a b : HelperRow ν} (ha : a ∈ series)
    (hb : b ∈ series) (hour : ℤ) : a.gap hour = b.gap hour := by
  obtain ⟨hstation, hconnector, hpollutant⟩ := h.uniform a ha b hb
  rw [HelperRow.gap, HelperRow.gap, h.series a ha, h.series b hb, hstation, hconnector, hpollutant]

theorem mem_expandSeries (h : IsSeries timeseriesId series) :
    r ∈ expandSeries series ↔ OnGrid series r := by
  have hnodup : ((sortHelperRows series).map HelperRow.timestampHourUtc).Nodup :=
    (((sortBy_perm series).map _).nodup_iff).mpr h.nodup
  rcases expandSeries_cases h with ⟨hnil, heq⟩ | ⟨first, hfirst, hno2, heq⟩ |
    ⟨first, hfirst, last, hlast, hpm, hbounds, heq⟩
  · rw [heq]
    refine ⟨fun hr ↦ absurd hr List.not_mem_nil, fun hr ↦ ?_⟩
    rw [hnil] at hr
    obtain hmem | ⟨hmem, -⟩ := hr
    · exact hmem
    · exact absurd hmem List.not_mem_nil
  · rw [heq, mem_sortHelperRows]
    refine ⟨.observed, fun hr ↦ ?_⟩
    obtain hmem | ⟨hbefore, -, hpollutant, -⟩ := hr
    · exact hmem
    · exact absurd ((h.uniform _ hbefore _ hfirst).2.2.trans hno2) hpollutant
  · rw [heq, List.mem_map]
    constructor
    · rintro ⟨hour, hhour, rfl⟩
      obtain ⟨hlower, hupper, haligned⟩ := mem_hourCursors.mp hhour
      rcases gridRow_cases hnodup first hour with ⟨row, hrow, -, hgrid⟩ | ⟨hnone, hgrid⟩
      · rw [mem_sortHelperRows] at hrow
        rw [hgrid]
        refine .observed ?_
        have hsame : { row with syntheticHour := false } = row := by
          rw [← h.observed row hrow]
        rw [hsame]
        exact hrow
      · rw [hgrid]
        have hfirstHour := hnone first (mem_sortHelperRows.mpr hfirst)
        have hlastHour := hnone last (mem_sortHelperRows.mpr hlast)
        have halignedFirst := h.aligned first hfirst
        have halignedLast := h.aligned last hlast
        refine .gap hfirst hlast hpm ?_ ?_ ?_ (fun c hc ↦ hnone c (mem_sortHelperRows.mpr hc)) rfl
        all_goals simp only [HelperRow.gap, hourMs, minuteMs] at *
        all_goals omega
    · intro hr
      refine ⟨r.timestampHourUtc, mem_hourCursors.mpr ?_, ?_⟩
      · have halignedFirst := h.aligned first hfirst
        obtain hmem | ⟨hbefore, hafter, -, hlower, hupper, haligned, -, -⟩ := hr
        · have hbound := hbounds r hmem
          have haligned := h.aligned r hmem
          simp only [hourMs, minuteMs] at *
          omega
        · have hbound := (hbounds _ hbefore).1
          have hbound' := (hbounds _ hafter).2
          simp only [hourMs, minuteMs] at *
          omega
      · rcases gridRow_cases hnodup first r.timestampHourUtc with
          ⟨row, hrow, hhour, hgrid⟩ | ⟨hnone, hgrid⟩
        · rw [mem_sortHelperRows] at hrow
          obtain hmem | ⟨-, -, -, -, -, -, hnone, -⟩ := hr
          · have hsame : row = r := List.inj_on_of_nodup_map h.nodup hrow hmem hhour
            rw [hgrid, hsame, ← h.observed r hmem]
          · exact absurd hhour (hnone row hrow)
        · rw [hgrid]
          obtain hmem | ⟨hbefore, -, -, -, -, -, -, hrow⟩ := hr
          · exact absurd rfl (hnone r (mem_sortHelperRows.mpr hmem))
          · rw [hrow]
            exact gap_eq_of_series h hfirst hbefore _

/-- The grid is sorted by hour. -/
theorem pairwise_expandSeries (h : IsSeries timeseriesId series) :
    (expandSeries series).Pairwise fun r r' ↦ r.timestampHourUtc < r'.timestampHourUtc := by
  have hsorted := pairwise_sortHelperRows h.plain h.series h.nodup
  have hnodup : ((sortHelperRows series).map HelperRow.timestampHourUtc).Nodup :=
    (((sortBy_perm series).map _).nodup_iff).mpr h.nodup
  rcases expandSeries_cases h with ⟨-, heq⟩ | ⟨-, -, -, heq⟩ | ⟨first, -, last, -, -, -, heq⟩
  · rw [heq]
    exact List.Pairwise.nil
  · rw [heq]
    exact hsorted
  · rw [heq, List.pairwise_map]
    refine (pairwise_hourCursors _ _).imp fun {x y} hxy ↦ ?_
    rw [timestampHourUtc_gridRow hnodup, timestampHourUtc_gridRow hnodup]
    exact hxy

theorem OnGrid.spec (h : IsSeries timeseriesId series) (hr : OnGrid series r) :
    r.timeseriesId = timeseriesId ∧ r.timestampHourUtc % hourMs = 0 ∧
      PlainYear (r.timestampHourUtc / dayMs) := by
  obtain hmem | ⟨hbefore, hafter, -, hlower, hupper, haligned, -, hrow⟩ := hr
  · exact ⟨h.series r hmem, h.aligned r hmem, h.plain r hmem⟩
  · refine ⟨?_, haligned, ?_⟩
    · have hseries := h.series _ hbefore
      rw [hrow]
      exact hseries
    · have hday : (0 : ℤ) < dayMs := by decide
      exact (h.plain _ hbefore).between (h.plain _ hafter) (Int.ediv_le_ediv hday hlower.le)
        (Int.ediv_le_ediv hday hupper.le)

end Grid

/-! ## Groups -/

section Groups

omit [Numeric ν]

variable {l : List (HelperRow ν)} {r : HelperRow ν} {f : List (HelperRow ν) → List (HelperRow ν)}

/-- The group of a timeseries is the sublist of its rows. -/
theorem mem_entries_groupByTimeseries {k : ℤ} {group : List (HelperRow ν)} :
    (k, group) ∈ (groupByTimeseries l).entries ↔
      group ≠ [] ∧ l.filter (fun r ↦ r.timeseriesId = k) = group := by
  rw [← OrderedMap.get?_eq_some_iff, groupByTimeseries, OrderedMap.get?_collect,
    OrderedMap.foldl_append_eq]
  by_cases hnil : l.filter (fun r ↦ r.timeseriesId = k) = []
  · rw [if_pos hnil, hnil]
    refine ⟨fun h ↦ absurd h (by simp), fun h ↦ absurd h.2.symm h.1⟩
  · rw [if_neg hnil, Option.some.injEq]
    refine ⟨fun h ↦ ⟨by rw [← h]; exact hnil, h⟩, fun h ↦ h.2⟩

theorem mem_flatMap_groups (hf : f [] = []) : r ∈ (groupByTimeseries l).values.flatMap f ↔
    ∃ k, r ∈ f (l.filter fun r ↦ r.timeseriesId = k) := by
  rw [List.mem_flatMap]
  constructor
  · rintro ⟨group, hgroup, hr⟩
    obtain ⟨k, hk⟩ := OrderedMap.mem_values.mp hgroup
    rw [← (mem_entries_groupByTimeseries.mp hk).2] at hr
    exact ⟨k, hr⟩
  · rintro ⟨k, hr⟩
    have hne : l.filter (fun r ↦ r.timeseriesId = k) ≠ [] := fun hnil ↦ by
      rw [hnil, hf] at hr
      exact List.not_mem_nil hr
    exact ⟨_, OrderedMap.mem_values.mpr ⟨k, mem_entries_groupByTimeseries.mpr ⟨hne, rfl⟩⟩, hr⟩

/-- If each group gives rows of its timeseries with distinct hours, no key occurs twice. -/
theorem pairwise_flatMap_groups_of_ne
    (hseries : ∀ k, ∀ r ∈ f (l.filter fun r ↦ r.timeseriesId = k), r.timeseriesId = k)
    (hne : ∀ k, (f (l.filter fun r ↦ r.timeseriesId = k)).Pairwise
      fun r r' ↦ r.timestampHourUtc ≠ r'.timestampHourUtc) :
    ((groupByTimeseries l).values.flatMap f).Pairwise fun r r' ↦ r.key ≠ r'.key := by
  rw [List.pairwise_flatMap]
  constructor
  · intro group hgroup
    obtain ⟨k, hk⟩ := OrderedMap.mem_values.mp hgroup
    rw [← (mem_entries_groupByTimeseries.mp hk).2]
    exact (hne k).imp fun hne hkey ↦ hne (congrArg Prod.snd hkey)
  · rw [OrderedMap.values, List.pairwise_map]
    refine (List.pairwise_map.mp (groupByTimeseries l).nodup_keys).imp_of_mem ?_
    rintro ⟨k, group⟩ ⟨k', group'⟩ hk hk' hne r hr r' hr' hkey
    have hr₁ := hseries k r (by rw [(mem_entries_groupByTimeseries.mp hk).2]; exact hr)
    have hr₂ := hseries k' r' (by rw [(mem_entries_groupByTimeseries.mp hk').2]; exact hr')
    have hsame : r.timeseriesId = r'.timeseriesId := congrArg Prod.fst hkey
    exact hne (hr₁.symm.trans (hsame.trans hr₂))

theorem pairwise_flatMap_groups
    (hseries : ∀ k, ∀ r ∈ f (l.filter fun r ↦ r.timeseriesId = k), r.timeseriesId = k)
    (hsorted : ∀ k, (f (l.filter fun r ↦ r.timeseriesId = k)).Pairwise
      fun r r' ↦ r.timestampHourUtc < r'.timestampHourUtc) :
    ((groupByTimeseries l).values.flatMap f).Pairwise fun r r' ↦ r.key ≠ r'.key :=
  pairwise_flatMap_groups_of_ne hseries fun k ↦ (hsorted k).imp fun hlt ↦ hlt.ne

theorem ne_eq_of_key_ne {r r' : HelperRow ν} (hr : PlainYear (r.timestampHourUtc / dayMs))
    (hr' : PlainYear (r'.timestampHourUtc / dayMs)) (h : r.key ≠ r'.key) :
    compareHelperRows r r' ≠ .eq := by
  intro heq
  obtain ⟨hhour, hseries⟩ := Ordering.then_eq_eq.mp heq
  exact h (Prod.ext (Std.LawfulEqOrd.eq_of_compare hseries) (compareTimestamps_eq_eq hr hr' hhour))

end Groups

/-! ## The grid of a build -/

/-- One station, connector and pollutant for each timeseries. -/
def UniformSeries (host : Host) (rows : List (SourceRow ν)) : Prop :=
  ∀ o ∈ keptObservations host rows, ∀ o' ∈ keptObservations host rows,
    o.timeseriesId = o'.timeseriesId → o.stationId = o'.stationId ∧
      o.connectorId = o'.connectorId ∧ o.pollutantCode = o'.pollutantCode

/-- The observed hours of a timeseries. -/
def seriesRows (host : Host) (rows : List (SourceRow ν)) (timeseriesId : ℤ) :
    List (HelperRow ν) :=
  (observedRows host rows).filter fun r ↦ r.timeseriesId = timeseriesId

theorem mem_seriesRows {timeseriesId : ℤ} {r : HelperRow ν} :
    r ∈ seriesRows host rows timeseriesId ↔
      r.timeseriesId = timeseriesId ∧ observedRow host rows r.key = some r := by
  rw [seriesRows, List.mem_filter, decide_eq_true_iff, mem_observedRows_iff, and_comm]

/-- A row of the series of a timeseries is one of its observed hours. -/
theorem exists_observation_of_mem_seriesRows {timeseriesId : ℤ} {r : HelperRow ν}
    (hr : r ∈ seriesRows host rows timeseriesId) : ∃ o ∈ keptObservations host rows,
      o.timeseriesId = timeseriesId ∧ hourOf o.observedAt = r.timestampHourUtc ∧
        r.stationId = o.stationId ∧ r.connectorId = o.connectorId ∧
        r.pollutantCode = o.pollutantCode := by
  obtain ⟨hseries, hobserved⟩ := mem_seriesRows.mp hr
  obtain ⟨-, -, o, ho, hkey, hcolumns⟩ := observedRow_spec hobserved
  exact ⟨o, ho, (congrArg Prod.fst hkey).trans hseries, congrArg Prod.snd hkey, hcolumns⟩

theorem timestampHourUtc_emod_of_mem_seriesRows {timeseriesId : ℤ} {r : HelperRow ν}
    (hr : r ∈ seriesRows host rows timeseriesId) : r.timestampHourUtc % hourMs = 0 := by
  obtain ⟨o, -, -, hhour, -⟩ := exists_observation_of_mem_seriesRows hr
  rw [← hhour]
  exact hourOf_emod _

theorem uniform_seriesRows (huniform : UniformSeries host rows) {timeseriesId : ℤ}
    {r r' : HelperRow ν} (hr : r ∈ seriesRows host rows timeseriesId)
    (hr' : r' ∈ seriesRows host rows timeseriesId) : r.stationId = r'.stationId ∧
      r.connectorId = r'.connectorId ∧ r.pollutantCode = r'.pollutantCode := by
  obtain ⟨o, ho, hseries, -, hstation, hconnector, hpollutant⟩ :=
    exists_observation_of_mem_seriesRows hr
  obtain ⟨o', ho', hseries', -, hstation', hconnector', hpollutant'⟩ :=
    exists_observation_of_mem_seriesRows hr'
  rw [hstation, hstation', hconnector, hconnector', hpollutant, hpollutant']
  exact huniform o ho o' ho' (hseries.trans hseries'.symm)

theorem nodup_seriesRows (timeseriesId : ℤ) :
    ((seriesRows host rows timeseriesId).map HelperRow.timestampHourUtc).Nodup := by
  have hkeys : (seriesRows host rows timeseriesId).Pairwise fun r r' ↦ r.key ≠ r'.key :=
    (List.pairwise_map.mp nodup_observedRows).sublist List.filter_sublist
  rw [List.Nodup, List.pairwise_map]
  refine hkeys.imp_of_mem fun {r r'} hr hr' hne hhour ↦ hne (Prod.ext ?_ hhour)
  exact (mem_seriesRows.mp hr).1.trans (mem_seriesRows.mp hr').1.symm

section Build

variable (hplain : PlainYears host rows) (huniform : UniformSeries host rows)
include hplain huniform

theorem isSeries_seriesRows (timeseriesId : ℤ) :
    IsSeries timeseriesId (seriesRows host rows timeseriesId) where
  series r hr := (mem_seriesRows.mp hr).1
  uniform r hr r' hr' := uniform_seriesRows huniform hr hr'
  observed r hr := (observedRow_spec (mem_seriesRows.mp hr).2).2.1
  aligned r hr := timestampHourUtc_emod_of_mem_seriesRows hr
  plain r hr := by
    obtain ⟨o, ho, -, hhour, -⟩ := exists_observation_of_mem_seriesRows hr
    rw [← hhour, hourOf_ediv]
    exact hplain o ho
  nodup := nodup_seriesRows timeseriesId

theorem mem_expandSeries_seriesRows {timeseriesId : ℤ} {r : HelperRow ν} :
    r ∈ expandSeries (seriesRows host rows timeseriesId) ↔
      OnGrid (seriesRows host rows timeseriesId) r :=
  mem_expandSeries (isSeries_seriesRows hplain huniform timeseriesId)

theorem mem_grid {r : HelperRow ν} :
    r ∈ expandPmHelperRowsToHourlyGrid (observedRows host rows) ↔
      OnGrid (seriesRows host rows r.timeseriesId) r := by
  rw [expandPmHelperRowsToHourlyGrid, mem_sortHelperRows, mem_flatMap_groups rfl]
  constructor
  · rintro ⟨k, hk⟩
    have hgrid := (mem_expandSeries_seriesRows hplain huniform).mp hk
    rw [(hgrid.spec (isSeries_seriesRows hplain huniform k)).1]
    exact hgrid
  · exact fun h ↦ ⟨_, (mem_expandSeries_seriesRows hplain huniform).mpr h⟩

/-- The rows of a timeseries in the grid are those of its own grid. -/
theorem sortHelperRows_filter_grid (k : ℤ) : sortHelperRows
    ((expandPmHelperRowsToHourlyGrid (observedRows host rows)).filter fun r ↦ r.timeseriesId = k)
      = expandSeries (seriesRows host rows k) := by
  have hseries := isSeries_seriesRows hplain huniform
  have hkeys : (expandPmHelperRowsToHourlyGrid (observedRows host rows)).Pairwise
      fun r r' ↦ r.key ≠ r'.key := by
    refine (pairwise_flatMap_groups (fun k r hr ↦ ?_) fun k ↦ ?_).perm (sortBy_perm _).symm
      fun h ↦ h.symm
    · exact (((mem_expandSeries (hseries k)).mp hr).spec (hseries k)).1
    · exact pairwise_expandSeries (hseries k)
  have hspec : ∀ r ∈ expandPmHelperRowsToHourlyGrid (observedRows host rows),
      PlainYear (r.timestampHourUtc / dayMs) := fun r hr ↦
    (((mem_grid hplain huniform).mp hr).spec (hseries _)).2.2
  refine sortBy_eq_of_mem_iff ?_ ?_ fun r ↦ ?_
  · refine (hkeys.sublist List.filter_sublist).imp_of_mem fun hr hr' hne ↦ ?_
    exact ne_eq_of_key_ne (hspec _ (List.mem_of_mem_filter hr))
      (hspec _ (List.mem_of_mem_filter hr')) hne
  · refine (pairwise_expandSeries (hseries k)).imp_of_mem fun {r r'} hr hr' hlt ↦ ?_
    obtain ⟨-, -, hpr⟩ := ((mem_expandSeries (hseries k)).mp hr).spec (hseries k)
    obtain ⟨-, -, hpr'⟩ := ((mem_expandSeries (hseries k)).mp hr').spec (hseries k)
    rw [compareHelperRows, (compareTimestamps_eq_lt hpr hpr').mpr hlt]
    rfl
  · rw [List.mem_filter, decide_eq_true_iff, mem_grid hplain huniform,
      mem_expandSeries_seriesRows hplain huniform]
    constructor
    · rintro ⟨hr, rfl⟩
      exact hr
    · intro hr
      obtain ⟨hk, -⟩ := hr.spec (hseries k)
      rw [hk]
      exact ⟨hr, rfl⟩

end Build

end UkAqOps.Aqi

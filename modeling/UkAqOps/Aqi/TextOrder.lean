import UkAqOps.Aqi.Batching
import UkAqOps.Js.SignedYears
import Mathlib.Algebra.BigOperators.Group.Finset.Basic

/-!
# The grid in the order of its texts

A series is laid out from the hour whose text sorts first to the one whose text sorts last, and a row
looks back along the rows in the order of their texts. When years have signs neither is the order of
time. This module says what the grid and its means are whatever the years.
-/

namespace UkAqOps.Aqi

open Sorting

variable {ν : Type} [Numeric ν] {host : Host} {rows : List (SourceRow ν)}

/-! ## Comparing timestamps -/

theorem compareTimestamps_eq_lt_iff {a b : ℤ} (ha : IsTimeValue a) (hb : IsTimeValue b) :
    compareTimestamps a b = .lt ↔ TextBefore a b := by
  rw [compareTimestamps, ← textLt_iff ha hb]
  by_cases hlt : textLt (isoChars a) (isoChars b) = true
  · simp [hlt]
  · by_cases hgt : textLt (isoChars b) (isoChars a) = true <;> simp [hlt, hgt]

theorem compareTimestamps_ne_eq {a b : ℤ} (ha : IsTimeValue a) (hb : IsTimeValue b) (hne : a ≠ b) :
    compareTimestamps a b ≠ .eq := by
  intro heq
  have hsymm : compareTimestamps b a = .eq := by
    rw [transCmp_compareTimestamps.eq_comm]
    exact heq
  rcases textBefore_trichotomy ha hb with hlt | hsame | hgt
  · rw [(compareTimestamps_eq_lt_iff ha hb).mpr hlt] at heq
    cases heq
  · exact hne hsame
  · rw [(compareTimestamps_eq_lt_iff hb ha).mpr hgt] at hsymm
    cases hsymm

/-! ## The grid of a series -/

/-- The rows of one timeseries: they share their columns, and their hours are distinct and those of
dates. -/
structure IsDatedSeries (timeseriesId : ℤ) (rows : List (HelperRow ν)) : Prop where
  series : ∀ r ∈ rows, r.timeseriesId = timeseriesId
  uniform : ∀ r ∈ rows, ∀ r' ∈ rows, r.stationId = r'.stationId ∧
    r.connectorId = r'.connectorId ∧ r.pollutantCode = r'.pollutantCode
  observed : ∀ r ∈ rows, r.syntheticHour = false
  aligned : ∀ r ∈ rows, r.timestampHourUtc % hourMs = 0
  dated : ∀ r ∈ rows, IsTimeValue r.timestampHourUtc
  nodup : (rows.map HelperRow.timestampHourUtc).Nodup

section Grid

omit [Numeric ν]

variable {timeseriesId : ℤ} {series : List (HelperRow ν)} {r : HelperRow ν}

/-- Rows of a timeseries with distinct hours sort strictly by the texts of these. -/
theorem pairwise_textBefore_sortHelperRows {l : List (HelperRow ν)}
    (hdated : ∀ r ∈ l, IsTimeValue r.timestampHourUtc)
    (hseries : ∀ r ∈ l, r.timeseriesId = timeseriesId)
    (hne : l.Pairwise fun r r' ↦ r.timestampHourUtc ≠ r'.timestampHourUtc) :
    (sortHelperRows l).Pairwise fun r r' ↦ TextBefore r.timestampHourUtc r'.timestampHourUtc := by
  refine (pairwise_lt_sortBy (hne.imp_of_mem fun hr hr' hhours heq ↦ ?_)).imp_of_mem
    fun {r r'} hr hr' hlt ↦ ?_
  · exact compareTimestamps_ne_eq (hdated _ hr) (hdated _ hr') hhours (Ordering.then_eq_eq.mp heq).1
  · replace hr := mem_sortHelperRows.mp hr
    replace hr' := mem_sortHelperRows.mp hr'
    rcases Ordering.then_eq_lt.mp hlt with hlt | ⟨-, hlt⟩
    · exact (compareTimestamps_eq_lt_iff (hdated _ hr) (hdated _ hr')).mp hlt
    · rw [hseries r hr, hseries r' hr'] at hlt
      exact absurd (Std.ReflCmp.compare_self.symm.trans hlt) (by decide)

/-- A row that the grid of a series can have: an observed one, or one for an hour that is not. -/
def IsGridRow (series : List (HelperRow ν)) (r : HelperRow ν) : Prop :=
  r ∈ series ∨ r.timestampHourUtc % hourMs = 0 ∧
    (∀ c ∈ series, c.timestampHourUtc ≠ r.timestampHourUtc) ∧
    ∃ template ∈ series, r = template.gap r.timestampHourUtc

/-- **The grid of a series** holds its rows, and those of a particulate also the rows between the
hour whose text sorts first and the one whose text sorts last, but none outside. -/
theorem mem_expandSeries_texts (h : IsDatedSeries timeseriesId series) :
    (series = [] ∧ expandSeries series = []) ∨
    (∃ first ∈ series, first.pollutantCode = .no2 ∧ ∀ r, r ∈ expandSeries series ↔ r ∈ series) ∨
    (∃ first ∈ series, ∃ last ∈ series, first.pollutantCode ≠ .no2 ∧
      (∀ row ∈ series,
        (row = first ∨ TextBefore first.timestampHourUtc row.timestampHourUtc) ∧
          (row = last ∨ TextBefore row.timestampHourUtc last.timestampHourUtc)) ∧
      ∀ r, r ∈ expandSeries series ↔ first.timestampHourUtc ≤ r.timestampHourUtc ∧
        r.timestampHourUtc ≤ last.timestampHourUtc ∧ IsGridRow series r) := by
  have hnodup : ((sortHelperRows series).map HelperRow.timestampHourUtc).Nodup :=
    (((sortBy_perm series).map _).nodup_iff).mpr h.nodup
  rcases expandSeries_eq (pairwise_textBefore_sortHelperRows h.dated h.series
    (List.pairwise_map.mp h.nodup)) with hnil | ⟨first, hfirst, hno2, heq⟩ |
    ⟨first, hfirst, last, hlast, hpm, hbounds, heq⟩
  · exact Or.inl hnil
  · refine Or.inr (Or.inl ⟨first, hfirst, hno2, fun r ↦ ?_⟩)
    rw [heq, mem_sortHelperRows]
  refine Or.inr (Or.inr ⟨first, hfirst, last, hlast, hpm, hbounds, fun r ↦ ?_⟩)
  have halignedFirst := h.aligned first hfirst
  have halignedLast := h.aligned last hlast
  rw [heq, List.mem_map]
  constructor
  · rintro ⟨hour, hhour, rfl⟩
    obtain ⟨hlower, hupper, haligned⟩ := mem_hourCursors.mp hhour
    have hle : hour ≤ last.timestampHourUtc ∧ hour % hourMs = 0 := by
      simp only [hourMs, minuteMs] at *
      omega
    rw [timestampHourUtc_gridRow hnodup]
    refine ⟨hlower, hle.1, ?_⟩
    rcases gridRow_cases hnodup first hour with ⟨row, hrow, -, hgrid⟩ | ⟨hnone, hgrid⟩
    · rw [mem_sortHelperRows] at hrow
      have hsame : { row with syntheticHour := false } = row := by
        rw [← h.observed row hrow]
      rw [hgrid, hsame]
      exact Or.inl hrow
    · rw [hgrid]
      exact Or.inr ⟨hle.2, fun c hc ↦ hnone c (mem_sortHelperRows.mpr hc), first, hfirst, rfl⟩
  · rintro ⟨hlower, hupper, hrow⟩
    have haligned : r.timestampHourUtc % hourMs = 0 := by
      rcases hrow with hmem | ⟨haligned, -⟩
      · exact h.aligned r hmem
      · exact haligned
    refine ⟨r.timestampHourUtc, mem_hourCursors.mpr ?_, ?_⟩
    · simp only [hourMs, minuteMs] at *
      omega
    · rcases gridRow_cases hnodup first r.timestampHourUtc with
        ⟨row, hmem, hhour, hgrid⟩ | ⟨hnone, hgrid⟩
      · rw [mem_sortHelperRows] at hmem
        rcases hrow with hr | ⟨-, hnone, -⟩
        · have hsame : row = r := List.inj_on_of_nodup_map h.nodup hmem hr hhour
          rw [hgrid, hsame, ← h.observed r hr]
        · exact absurd hhour (hnone row hmem)
      · rw [hgrid]
        rcases hrow with hr | ⟨-, -, template, htemplate, heq⟩
        · exact absurd rfl (hnone r (mem_sortHelperRows.mpr hr))
        · obtain ⟨hstation, hconnector, hpollutant⟩ := h.uniform first hfirst template htemplate
          rw [heq, HelperRow.gap, HelperRow.gap, h.series first hfirst,
            h.series template htemplate, hstation, hconnector, hpollutant]

theorem pairwise_ne_expandSeries (h : IsDatedSeries timeseriesId series) :
    (expandSeries series).Pairwise fun r r' ↦ r.timestampHourUtc ≠ r'.timestampHourUtc := by
  have hne := List.pairwise_map.mp h.nodup
  have hnodup : ((sortHelperRows series).map HelperRow.timestampHourUtc).Nodup :=
    (((sortBy_perm series).map _).nodup_iff).mpr h.nodup
  rcases expandSeries_eq (pairwise_textBefore_sortHelperRows h.dated h.series hne) with
    ⟨-, heq⟩ | ⟨-, -, -, heq⟩ | ⟨first, -, last, -, -, -, heq⟩
  · rw [heq]
    exact List.Pairwise.nil
  · rw [heq]
    exact List.pairwise_map.mp hnodup
  · rw [heq, List.pairwise_map]
    refine (pairwise_hourCursors _ _).imp fun {x y} hxy ↦ ?_
    rw [timestampHourUtc_gridRow hnodup, timestampHourUtc_gridRow hnodup]
    exact hxy.ne

/-- The rows of the grid are of the timeseries, and their hours are those of dates. -/
theorem spec_of_mem_expandSeries (h : IsDatedSeries timeseriesId series)
    (hr : r ∈ expandSeries series) : r.timeseriesId = timeseriesId ∧
      r.timestampHourUtc % hourMs = 0 ∧ IsTimeValue r.timestampHourUtc ∧ IsGridRow series r := by
  have hobserved : ∀ r ∈ series, r.timeseriesId = timeseriesId ∧
      r.timestampHourUtc % hourMs = 0 ∧ IsTimeValue r.timestampHourUtc ∧ IsGridRow series r :=
    fun r hr ↦ ⟨h.series r hr, h.aligned r hr, h.dated r hr, Or.inl hr⟩
  rcases mem_expandSeries_texts h with ⟨-, heq⟩ | ⟨-, -, -, hmem⟩ |
    ⟨first, hfirst, last, hlast, -, -, hmem⟩
  · rw [heq] at hr
    exact absurd hr List.not_mem_nil
  · exact hobserved r ((hmem r).mp hr)
  · obtain ⟨hlower, hupper, hrow⟩ := (hmem r).mp hr
    rcases id hrow with hin | ⟨haligned, -, template, htemplate, heq⟩
    · exact hobserved r hin
    · refine ⟨?_, haligned, ?_, hrow⟩
      · rw [heq]
        exact h.series template htemplate
      · exact ⟨(h.dated first hfirst).1.trans hlower, hupper.trans (h.dated last hlast).2⟩

end Grid

/-! ## The grid of a build -/

/-- The rows of a timeseries on the grid, in the order in which they look back. -/
def gridOf (host : Host) (rows : List (SourceRow ν)) (timeseriesId : ℤ) : List (HelperRow ν) :=
  sortHelperRows ((expandPmHelperRowsToHourlyGrid (observedRows host rows)).filter
    fun r ↦ r.timeseriesId = timeseriesId)

/-- Every observation is at an instant that a date can hold. -/
def DatedRows (host : Host) (rows : List (SourceRow ν)) : Prop :=
  ∀ o ∈ keptObservations host rows, IsTimeValue o.observedAt

section Build

variable (hdated : DatedRows host rows) (huniform : UniformSeries host rows)
include hdated huniform

theorem isDatedSeries_seriesRows (timeseriesId : ℤ) :
    IsDatedSeries timeseriesId (seriesRows host rows timeseriesId) where
  series r hr := (mem_seriesRows.mp hr).1
  uniform r hr r' hr' := uniform_seriesRows huniform hr hr'
  observed r hr := (observedRow_spec (mem_seriesRows.mp hr).2).2.1
  aligned r hr := timestampHourUtc_emod_of_mem_seriesRows hr
  dated r hr := by
    obtain ⟨o, ho, -, hhour, -⟩ := exists_observation_of_mem_seriesRows hr
    obtain ⟨hlower, hupper⟩ := hdated o ho
    rw [← hhour, IsTimeValue]
    simp only [hourOf, hourMs, minuteMs]
    omega
  nodup := nodup_seriesRows timeseriesId

theorem mem_gridOf {k : ℤ} {r : HelperRow ν} :
    r ∈ gridOf host rows k ↔ r ∈ expandSeries (seriesRows host rows k) := by
  rw [gridOf, mem_sortHelperRows, List.mem_filter, decide_eq_true_iff,
    expandPmHelperRowsToHourlyGrid, mem_sortHelperRows, mem_flatMap_groups rfl]
  constructor
  · rintro ⟨⟨k', hr⟩, rfl⟩
    have hk := (spec_of_mem_expandSeries (isDatedSeries_seriesRows hdated huniform k') hr).1
    rw [hk]
    exact hr
  · intro hr
    exact ⟨⟨k, hr⟩, (spec_of_mem_expandSeries (isDatedSeries_seriesRows hdated huniform k) hr).1⟩

theorem pairwise_gridOf (k : ℤ) : (gridOf host rows k).Pairwise
    fun r r' ↦ TextBefore r.timestampHourUtc r'.timestampHourUtc := by
  have hspec := fun {k r} ↦ spec_of_mem_expandSeries (r := r)
    (isDatedSeries_seriesRows hdated huniform k)
  have hkeys : (expandPmHelperRowsToHourlyGrid (observedRows host rows)).Pairwise
      fun r r' ↦ r.key ≠ r'.key :=
    (pairwise_flatMap_groups_of_ne (fun _ _ hr ↦ (hspec hr).1) fun k ↦
      pairwise_ne_expandSeries (isDatedSeries_seriesRows hdated huniform k)).perm
        (sortBy_perm _).symm fun h ↦ h.symm
  have hmem : ∀ r ∈ (expandPmHelperRowsToHourlyGrid (observedRows host rows)).filter
      (fun r ↦ r.timeseriesId = k), r ∈ expandSeries (seriesRows host rows k) := fun r hr ↦
    (mem_gridOf hdated huniform).mp (mem_sortHelperRows.mpr hr)
  refine pairwise_textBefore_sortHelperRows (fun r hr ↦ (hspec (hmem r hr)).2.2.1)
    (fun r hr ↦ (hspec (hmem r hr)).1) ?_
  refine (hkeys.sublist List.filter_sublist).imp_of_mem fun {r r'} hr hr' hne hhour ↦ hne ?_
  exact Prod.ext ((hspec (hmem r hr)).1.trans (hspec (hmem r' hr')).1.symm) hhour

omit hdated huniform in
/-- **The helper rows of a build** are those of the grids of its timeseries, each with the means of
the rows that it looks back on. -/
theorem mem_pivot_iff_gridOf {r' : HelperRow ν} :
    r' ∈ pivotNarrowRowsToHelperRows (sourceObservationsToNarrowRows host rows) ↔
      ∃ k pre r post, gridOf host rows k = pre ++ r :: post ∧ r' = r.rolled (r :: pre.reverse) := by
  rw [pivot_eq, computeRolling24h, mem_sortHelperRows, mem_flatMap_groups rfl]
  simp only [mem_rollSeries, List.append_nil]
  exact Iff.rfl

theorem pairwise_key_pivot :
    (pivotNarrowRowsToHelperRows (sourceObservationsToNarrowRows host rows)).Pairwise
      fun r r' ↦ r.key ≠ r'.key := by
  rw [pivot_eq, computeRolling24h]
  refine (pairwise_flatMap_groups_of_ne (fun k r hr ↦ ?_) fun k ↦ ?_).perm (sortBy_perm _).symm
    fun h ↦ h.symm
  · obtain ⟨pre, e, post, hsplit, rfl⟩ := mem_rollSeries.mp hr
    have hmem : e ∈ gridOf host rows k := by
      rw [gridOf, hsplit]
      simp
    exact (spec_of_mem_expandSeries (isDatedSeries_seriesRows hdated huniform k)
      ((mem_gridOf hdated huniform).mp hmem)).1
  · rw [← List.pairwise_map (R := (· ≠ ·)), map_rollSeries _ fun _ _ ↦ rfl, List.pairwise_map]
    refine (pairwise_gridOf hdated huniform k).imp fun {r r'} hlt heq ↦ ?_
    rw [heq] at hlt
    exact not_textBefore_self _ hlt

end Build

/-! ## Looking back -/

/-- The rows that a row takes its means over; `before` is the row and those before it, nearest
first. -/
def HelperRow.lookBack (row : HelperRow ν) (before : List (HelperRow ν)) : List (HelperRow ν) :=
  before.takeWhile fun previous ↦ (row.timestampHourUtc - previous.timestampHourUtc).tdiv hourMs < 24

theorem tdiv_hourMs_lt_iff (x : ℤ) : x.tdiv hourMs < 24 ↔ x < 24 * hourMs := by
  rcases le_total 0 x with hpos | hneg
  · rw [Int.tdiv_eq_ediv_of_nonneg hpos]
    simp only [hourMs, minuteMs]
    omega
  · have htdiv : x.tdiv hourMs = -(-x / hourMs) := by
      rw [← Int.tdiv_eq_ediv_of_nonneg (neg_nonneg.mpr hneg), Int.neg_tdiv, neg_neg]
    simp only [hourMs, minuteMs] at *
    omega

theorem mem_lookBack (hdated : DatedRows host rows) (huniform : UniformSeries host rows) {k : ℤ}
    {pre post : List (HelperRow ν)} {r e : HelperRow ν}
    (hsplit : gridOf host rows k = pre ++ r :: post) :
    e ∈ r.lookBack (r :: pre.reverse) ↔ e ∈ gridOf host rows k ∧
      (e = r ∨ TextBefore e.timestampHourUtc r.timestampHourUtc) ∧
      r.timestampHourUtc - e.timestampHourUtc < 24 * hourMs ∧
      ∀ g ∈ gridOf host rows k, (g = r ∨ TextBefore g.timestampHourUtc r.timestampHourUtc) →
        TextBefore e.timestampHourUtc g.timestampHourUtc →
          r.timestampHourUtc - g.timestampHourUtc < 24 * hourMs := by
  have hsorted := pairwise_gridOf hdated huniform k
  have hasymm : ∀ a b : ℤ, TextBefore a b → ¬TextBefore b a := fun a b hab hba ↦
    not_textBefore_self a (hab.trans hba)
  have hback : (r :: pre.reverse).Pairwise
      fun e e' ↦ TextBefore e'.timestampHourUtc e.timestampHourUtc := by
    rw [hsplit, List.pairwise_append] at hsorted
    rw [List.pairwise_cons]
    exact ⟨fun e he ↦ hsorted.2.2 e (List.mem_reverse.mp he) r List.mem_cons_self,
      List.pairwise_reverse.mpr hsorted.1⟩
  have hmem : ∀ e, e ∈ r :: pre.reverse ↔ e ∈ gridOf host rows k ∧
      (e = r ∨ TextBefore e.timestampHourUtc r.timestampHourUtc) := by
    intro e
    rw [hsplit, List.pairwise_append, List.pairwise_cons] at hsorted
    rw [hsplit, List.mem_cons, List.mem_reverse, List.mem_append, List.mem_cons]
    constructor
    · rintro (rfl | he)
      · exact ⟨Or.inr (Or.inl rfl), Or.inl rfl⟩
      · exact ⟨Or.inl he, Or.inr (hsorted.2.2 e he r List.mem_cons_self)⟩
    · rintro ⟨he | rfl | he, hbefore⟩
      · exact Or.inr he
      · exact Or.inl rfl
      · rcases hbefore with rfl | hbefore
        · exact Or.inl rfl
        · exact absurd hbefore (hasymm _ _ (hsorted.2.1.1 e he))
  rw [HelperRow.lookBack, mem_takeWhile_iff (fun _ _ hab hba ↦ hasymm _ _ hab hba) hback, hmem]
  simp only [decide_eq_true_iff, tdiv_hourMs_lt_iff, hmem]
  constructor
  · rintro ⟨⟨he, hbefore⟩, hwithin, hall⟩
    exact ⟨he, hbefore, hwithin, fun g hg hgr heg ↦ hall g ⟨hg, hgr⟩ heg⟩
  · rintro ⟨he, hbefore, hwithin, hall⟩
    exact ⟨⟨he, hbefore⟩, hwithin, fun g hg heg ↦ hall g hg.1 hg.2 heg⟩

/-! ## Hours that sort in time order -/

/-- The hours of a set among the 24 that end with an hour. -/
def windowHours (hours : Finset ℤ) (hour : ℤ) : Finset ℤ :=
  hours.filter fun h ↦ hour - 24 * hourMs < h ∧ h ≤ hour

/-- The years of the hours are all from 10000 on, or none is. In the second case no two of them are
negative, and if there is a negative one and a plain one, no hour of a negative year between them has
18 of the hours among its last 24. -/
def SortsInTime (hours : Finset ℤ) : Prop :=
  (∀ h ∈ hours, 9999 < yearOf h) ∨
    (∀ h ∈ hours, yearOf h ≤ 9999) ∧
    (∀ h ∈ hours, ∀ h' ∈ hours, yearOf h < 0 → yearOf h' < 0 → yearOf h = yearOf h') ∧
    ∀ h ∈ hours, ∀ h' ∈ hours, 0 ≤ yearOf h' → ∀ hour, hour % hourMs = 0 →
      yearOf h < yearOf hour → yearOf hour < 0 → (windowHours hours hour).card < 18

section Order

variable {hours : Finset ℤ} {a b e g r first last : ℤ}

theorem lt_of_yearOf_lt (h : yearOf a < yearOf b) : a < b := by
  by_contra hle
  exact absurd (yearOf_mono (not_lt.mp hle)) (not_le.mpr h)

/-- Hours of the set are in the order of their texts. -/
theorem SortsInTime.lt_of_textBefore (h : SortsInTime hours) (ha : a ∈ hours) (hb : b ∈ hours)
    (hb' : IsTimeValue b) (hab : TextBefore a b) : a < b := by
  rcases hab with hrank | ⟨-, hlt⟩
  · refine lt_of_yearOf_lt ?_
    have hya := yearRank_cases (yearOf a)
    have hyb := yearRank_cases (yearOf b)
    have hbound := natAbs_yearOf_lt hb'
    rcases h with hlate | ⟨hearly, hone, -⟩
    · have hla := hlate a ha
      have hlb := hlate b hb
      omega
    · have hea := hearly a ha
      have heb := hearly b hb
      have hsame := hone a ha b hb
      omega
  · exact hlt

/-- In the span of the hours, one that sorts before an instant is before it. -/
theorem SortsInTime.le_of_textBefore (h : SortsInTime hours) (he : e ∈ hours) (hr : IsTimeValue r)
    (hfirst : first ∈ hours) (hlast : last ∈ hours) (hlower : first ≤ r) (hupper : r ≤ last)
    (her : TextBefore e r) : e ≤ r := by
  by_contra hlt
  have hyear := yearOf_mono (not_le.mp hlt).le
  rcases her with hrank | ⟨-, hlt'⟩
  · have hye := yearRank_cases (yearOf e)
    have hyr := yearRank_cases (yearOf r)
    have hbound := natAbs_yearOf_lt hr
    have hyf := yearOf_mono hlower
    have hyl := yearOf_mono hupper
    rcases h with hlate | ⟨hearly, hone, -⟩
    · have hlf := hlate first hfirst
      omega
    · have hel := hearly last hlast
      have hee := hearly e he
      have hsame := hone e he first hfirst
      omega
  · exact hlt hlt'.le

/-- **In the span of the hours, looking back is in time order**, but from the hours of a negative
year that is not that of any of them. These find none of the hours. -/
theorem SortsInTime.lookBack_cases (h : SortsInTime hours) (hr : IsTimeValue r)
    (haligned : r % hourMs = 0) (hfirst : first ∈ hours) (hlast : last ∈ hours)
    (hlower : first ≤ r) (hupper : r ≤ last) :
    (∀ e ∈ hours, r - 24 * hourMs < e → e ≤ r → (e = r ∨ TextBefore e r) ∧
      ∀ g, IsTimeValue g → first ≤ g → g ≤ last → (g = r ∨ TextBefore g r) → TextBefore e g →
        r - g < 24 * hourMs) ∨
    (r ∉ hours ∧ (∀ e ∈ hours, ¬(e = r ∨ TextBefore e r)) ∧ (windowHours hours r).card < 18) := by
  have hyr := yearRank_cases (yearOf r)
  have hyf := yearRank_cases (yearOf first)
  have hbound := natAbs_yearOf_lt hr
  have hlow := yearOf_mono hlower
  have hhigh := yearOf_mono hupper
  by_cases hbad : yearOf r < 0 ∧ yearOf first < yearOf r
  · right
    obtain ⟨hneg, hlater⟩ := hbad
    rcases h with hlate | ⟨hearly, hone, hcount⟩
    · have hlf := hlate first hfirst
      omega
    have hnone : ∀ e ∈ hours, ¬(e = r ∨ TextBefore e r) := by
      rintro e he (rfl | hrank | ⟨hyear, -⟩)
      · have hsame := hone first hfirst e he
        omega
      · have hye := yearRank_cases (yearOf e)
        have hee := hearly e he
        have hsame := hone first hfirst e he
        omega
      · have hsame := hone first hfirst e he
        omega
    refine ⟨fun hmem ↦ hnone r hmem (Or.inl rfl), hnone, ?_⟩
    have hplain : 0 ≤ yearOf last := by
      have hsame := hone first hfirst last hlast
      omega
    exact hcount first hfirst last hlast hplain r haligned hlater hneg
  · left
    intro e he hafter hbefore
    have hnear : yearOf r ≤ yearOf e + 1 := yearOf_le_succ (by simp only [dayMs]; omega)
    have hye := yearRank_cases (yearOf e)
    have hle := yearOf_mono hbefore
    refine ⟨?_, fun g hg hgfirst hglast hgr heg ↦ ?_⟩
    · by_cases heq : e = r
      · exact Or.inl heq
      right
      by_cases hyear : yearOf e = yearOf r
      · exact Or.inr ⟨hyear, lt_of_le_of_ne hbefore heq⟩
      left
      rcases h with hlate | ⟨hearly, hone, -⟩
      · have hle := hlate e he
        omega
      · have hel := hearly last hlast
        have hsame := hone first hfirst e he
        omega
    · have hyg := yearRank_cases (yearOf g)
      have hgbound := natAbs_yearOf_lt hg
      have hgyear := yearOf_mono hgfirst
      have hgyear' := yearOf_mono hglast
      have hge : e ≤ g := by
        rcases heg with hrank | ⟨-, hlt⟩
        · refine (lt_of_yearOf_lt ?_).le
          rcases hgr with rfl | hrank' | ⟨hyear, -⟩
          · omega
          · rcases h with hlate | ⟨hearly, hone, -⟩
            · have hle := hlate e he
              omega
            · have hel := hearly last hlast
              have hsame := hone first hfirst e he
              omega
          · omega
        · exact hlt.le
      omega

/-- **Where the hours do not sort in time order**, one of them lies outside the span of the texts, or
an hour between them has 18 of them in its window and looks back on none. -/
theorem exists_of_not_sortsInTime (hdated : ∀ h ∈ hours, IsTimeValue h) (hfirst : first ∈ hours)
    (hlast : last ∈ hours) (hlower : ∀ h ∈ hours, h = first ∨ TextBefore first h)
    (h : ¬SortsInTime hours) : (∃ a ∈ hours, a < first ∨ last < a) ∨
    ∃ hour, hour % hourMs = 0 ∧ first < hour ∧ hour < last ∧
      18 ≤ (windowHours hours hour).card ∧ ∀ e ∈ hours, ¬(e = hour ∨ TextBefore e hour) := by
  by_contra hnone
  obtain ⟨hspan, hlook⟩ := not_or.mp hnone
  have hbounds : ∀ a ∈ hours, first ≤ a ∧ a ≤ last := fun a ha ↦ by
    by_contra hout
    exact hspan ⟨a, ha, by omega⟩
  have hrank : ∀ a ∈ hours, yearRank (yearOf first) ≤ yearRank (yearOf a) := fun a ha ↦ by
    rcases hlower a ha with rfl | hlt | ⟨heq, -⟩
    · exact le_rfl
    · exact hlt.le
    · rw [heq]
  have hyf := yearRank_cases (yearOf first)
  refine h ?_
  by_cases hlate : ∀ a ∈ hours, 9999 < yearOf a
  · exact Or.inl hlate
  right
  push Not at hlate
  obtain ⟨a₀, ha₀, hyear₀⟩ := hlate
  have hyear₀' := yearOf_mono (hbounds a₀ ha₀).1
  have hearly : ∀ a ∈ hours, yearOf a ≤ 9999 := fun a ha ↦ by
    have hya := yearRank_cases (yearOf a)
    have hle := hrank a ha
    have hbound := natAbs_yearOf_lt (hdated a ha)
    have hbound' := natAbs_yearOf_lt (hdated first hfirst)
    omega
  have hone : ∀ a ∈ hours, yearOf a < 0 → yearOf a = yearOf first := fun a ha hneg ↦ by
    have hya := yearRank_cases (yearOf a)
    have hle := hrank a ha
    have hmono := yearOf_mono (hbounds a ha).1
    have hbound := natAbs_yearOf_lt (hdated a ha)
    omega
  refine ⟨hearly, fun a ha b hb hneg hneg' ↦ (hone a ha hneg).trans (hone b hb hneg').symm,
    fun a ha b hb hplain hour haligned hlater hneg ↦ ?_⟩
  by_contra hcount
  have hya := hone a ha (hlater.trans hneg)
  have hbefore : first < hour := lt_of_yearOf_lt (by omega)
  have hafter : hour < last := (lt_of_yearOf_lt (by omega)).trans_le (hbounds b hb).2
  have hhour : IsTimeValue hour :=
    ⟨(hdated first hfirst).1.trans hbefore.le, hafter.le.trans (hdated last hlast).2⟩
  refine hlook ⟨hour, haligned, hbefore, hafter, not_lt.mp hcount, fun e he hor ↦ ?_⟩
  have hye := hone e he
  have hee := hearly e he
  have hranke := yearRank_cases (yearOf e)
  have hrankh := yearRank_cases (yearOf hour)
  have hbound := natAbs_yearOf_lt hhour
  rcases hor with rfl | hlt | ⟨heq, -⟩
  · omega
  · omega
  · omega

end Order

end UkAqOps.Aqi

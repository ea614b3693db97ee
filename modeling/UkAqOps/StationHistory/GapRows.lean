import UkAqOps.Aqi.TextOrder
import UkAqOps.StationHistory.Gaps

/-!
# The hours that a build publishes

An hour of the output has a row if the grid of the build reaches it. The grid of a particulate runs
from the hour whose text sorts first to the one whose text sorts last, and these are the first and
the last hour as long as years are written alike. Whatever the years, a row of the grid at an hour
of the output is an observed one, so it is published.
-/

namespace UkAqOps.StationHistory

open Aqi Sorting

section Hours

variable (series : ℤ → Option ℚ) (call : HistoryCall)

/-- The hours of a build are those of dates. -/
def DatedHours : Prop := ∀ hour, HasRow series call hour → IsTimeValue hour

/-- The grid reaches every hour of the output: those of a particulate lie between the hour whose
text sorts first and the one whose text sorts last. -/
def SpansTexts : Prop := call.request.pollutant ≠ .no2 → ∀ first last,
  HasRow series call first → HasRow series call last →
    (∀ hour, HasRow series call hour →
      (hour = first ∨ TextBefore first hour) ∧ (hour = last ∨ TextBefore hour last)) →
    ∀ hour, Visible call hour → first ≤ hour ∧ hour ≤ last

end Hours

section Grid

variable {series : ℤ → Option ℚ} {rows : List (ObservationRow ℚ)} {call : HistoryCall} {hour : ℤ}
variable {host : Host}

theorem hasRow_of_visible (h : Visible call hour) : HasRow series call hour :=
  ⟨h.1, h.2.2, Or.inr h.2.1⟩

variable (host) in
theorem isDatedSeries_helperRows (h : HoldsSeries series rows) (hdated : DatedHours series call) :
    IsDatedSeries call.request.timeseriesId (helperRows host call rows) where
  series _ hr := (columns_of_mem_helperRows h hr).1
  uniform _ hr _ hr' := uniform_helperRows h hr hr'
  observed _ hr := (columns_of_mem_helperRows h hr).2.2.2.2.1
  aligned _ hr := (columns_of_mem_helperRows h hr).2.2.2.2.2.1
  dated r hr := hdated r.timestampHourUtc (columns_of_mem_helperRows h hr).2.2.2.2.2
  nodup := nodup_helperRows_hours h

variable (host) in
theorem exists_helperRow (h : HoldsSeries series rows) (hrow : HasRow series call hour) :
    ∃ r ∈ helperRows host call rows, r.timestampHourUtc = hour :=
  ⟨_, (mem_helperRows_iff h).mpr ⟨hour, hrow, rfl⟩,
    (hourHelper_columns series call.request hour).2.1⟩

variable (host) in
/-- **The grid reaches every hour of the output exactly when** these lie in the span of the texts. -/
theorem reaches_iff (h : HoldsSeries series rows) (hdated : DatedHours series call) :
    (∀ hour, Visible call hour →
        ∃ e ∈ expandSeries (helperRows host call rows), e.timestampHourUtc = hour) ↔
      SpansTexts series call := by
  have hpollutant : ∀ r ∈ helperRows host call rows, r.pollutantCode = call.request.pollutant :=
    fun r hr ↦ (columns_of_mem_helperRows h hr).2.2.2.1
  have hrows : ∀ r ∈ helperRows host call rows, HasRow series call r.timestampHourUtc :=
    fun r hr ↦ (columns_of_mem_helperRows h hr).2.2.2.2.2
  rcases mem_expandSeries_texts (isDatedSeries_helperRows host h hdated) with
    ⟨hnil, -⟩ | ⟨first, hfirst, hno2, hmem⟩ | ⟨first, hfirst, last, hlast, hpm, hbounds, hmem⟩
  · -- without rows there are no hours in the output
    have hnone : ∀ hour, ¬Visible call hour := by
      intro hour hvisible
      obtain ⟨r, hr, -⟩ := exists_helperRow host h (hasRow_of_visible hvisible)
      rw [hnil] at hr
      exact absurd hr List.not_mem_nil
    exact ⟨fun _ _ _ _ _ _ _ hour hvisible ↦ absurd hvisible (hnone hour),
      fun _ hour hvisible ↦ absurd hvisible (hnone hour)⟩
  · refine ⟨fun _ hne ↦ absurd ((hpollutant first hfirst).symm.trans hno2) hne,
      fun _ hour hvisible ↦ ?_⟩
    obtain ⟨r, hr, hhour⟩ := exists_helperRow host h (hasRow_of_visible hvisible)
    exact ⟨r, (hmem r).mpr hr, hhour⟩
  · have hdatedRows : ∀ r ∈ helperRows host call rows, IsTimeValue r.timestampHourUtc :=
      fun r hr ↦ hdated _ (hrows r hr)
    constructor
    · rintro hreach - first' last' hfirst' hlast' hbounds' hour hvisible
      obtain ⟨e, he, rfl⟩ := hreach hour hvisible
      obtain ⟨hlower, hupper, -⟩ := (hmem e).mp he
      -- the texts have one first and one last hour
      have hsame : ∀ a b : ℤ, (a = b ∨ TextBefore a b) → (b = a ∨ TextBefore b a) → a = b := by
        rintro a b (rfl | hab) hba
        · rfl
        · rcases hba with rfl | hba
          · rfl
          · exact absurd (hab.trans hba) (not_textBefore_self a)
      obtain ⟨r, hr, hrfirst⟩ := exists_helperRow host h hfirst'
      obtain ⟨r', hr', hrlast⟩ := exists_helperRow host h hlast'
      have hone : first' = first.timestampHourUtc := by
        refine hsame _ _ ((hbounds' _ (hrows first hfirst)).1.imp_left Eq.symm) ?_
        rw [← hrfirst]
        exact (hbounds r hr).1.imp_left fun heq ↦ by rw [heq]
      have htwo : last' = last.timestampHourUtc := by
        refine (hsame _ _ ((hbounds' _ (hrows last hlast)).2) ?_).symm
        rw [← hrlast]
        exact (hbounds r' hr').2.imp_left fun heq ↦ by rw [heq]
      rw [hone, htwo]
      exact ⟨hlower, hupper⟩
    · intro hspans hour hvisible
      obtain ⟨r, hr, rfl⟩ := exists_helperRow host h (hasRow_of_visible hvisible)
      have hne : call.request.pollutant ≠ .no2 := by
        rw [← hpollutant first hfirst]
        exact hpm
      obtain ⟨hlower, hupper⟩ := hspans hne _ _ (hrows first hfirst) (hrows last hlast)
        (fun hour' hrow ↦ by
          obtain ⟨r', hr', rfl⟩ := exists_helperRow host h hrow
          exact ⟨(hbounds r' hr').1.imp_left fun heq ↦ by rw [heq],
            (hbounds r' hr').2.imp_left fun heq ↦ by rw [heq]⟩) _ hvisible
      exact ⟨r, (hmem r).mpr ⟨hlower, hupper, Or.inl hr⟩, rfl⟩

variable (h : HoldsSeries series rows) (hdated : DatedHours series call)
include h hdated

theorem mem_pivot_rolled {row : HelperRow ℚ} :
    row ∈ pivotNarrowRowsToHelperRows (narrowRows host call rows) ↔
      ∃ pre e post, sortHelperRows (expandPmHelperRowsToHourlyGrid (helperRows host call rows))
          = pre ++ e :: post ∧ row = e.rolled (e :: pre.reverse) := by
  have hseries := isDatedSeries_helperRows host h hdated
  have hids : ∀ r ∈ expandPmHelperRowsToHourlyGrid (helperRows host call rows),
      r.timeseriesId = call.request.timeseriesId := by
    intro r hr
    rw [expandPmHelperRowsToHourlyGrid, mem_sortHelperRows,
      mem_flatMap_groups_of_series rfl hseries.series] at hr
    exact (spec_of_mem_expandSeries hseries hr).1
  rw [show pivotNarrowRowsToHelperRows (narrowRows host call rows)
    = computeRolling24h (expandPmHelperRowsToHourlyGrid (helperRows host call rows)) from rfl,
    computeRolling24h, mem_sortHelperRows, mem_flatMap_groups_of_series rfl hids, mem_rollSeries]
  simp only [List.append_nil]

omit hdated in
theorem mem_sorted_grid_iff {e : HelperRow ℚ} :
    e ∈ sortHelperRows (expandPmHelperRowsToHourlyGrid (helperRows host call rows)) ↔
      e ∈ expandSeries (helperRows host call rows) := by
  rw [mem_sortHelperRows, expandPmHelperRowsToHourlyGrid, mem_sortHelperRows,
    mem_flatMap_groups_of_series rfl fun r hr ↦ (columns_of_mem_helperRows h hr).1]

/-- The published rows of the output stand at its hours. -/
theorem visible_of_mem_aqiRows {row : AqiRow ℚ} (hrow : row ∈ aqiRows host call rows)
    (hstart : call.outputStartMs < row.timestampHourUtc)
    (hend : row.timestampHourUtc ≤ call.outputEndMs) : Visible call row.timestampHourUtc ∧
      ∃ e ∈ expandSeries (helperRows host call rows),
        e.timestampHourUtc = row.timestampHourUtc := by
  obtain ⟨r, hr, hpublished⟩ := mem_helperRowsToNormalizedAqiV1Rows.mp hrow
  obtain ⟨pre, e, post, hsplit, rfl⟩ := (mem_pivot_rolled h hdated).mp hr
  have he : e ∈ expandSeries (helperRows host call rows) := by
    rw [← mem_sorted_grid_iff h, hsplit]
    simp
  have haligned := (spec_of_mem_expandSeries (isDatedSeries_helperRows host h hdated) he).2.1
  have htime : row.timestampHourUtc = e.timestampHourUtc := (hpublished.key haligned).2
  exact ⟨⟨by rw [htime]; exact haligned, hstart, hend⟩, e, he, htime.symm⟩

/-- **An hour of the output that the grid reaches has a published row.** -/
theorem exists_mem_aqiRows (htimeseries : 0 < call.request.timeseriesId)
    (hstation : 0 < call.request.stationId) (hconnector : 0 < call.request.connectorId)
    (hvisible : Visible call hour) {e : HelperRow ℚ}
    (he : e ∈ expandSeries (helperRows host call rows)) (hhour : e.timestampHourUtc = hour) :
    ∃ row ∈ aqiRows host call rows, row.timestampHourUtc = hour := by
  have hspec := spec_of_mem_expandSeries (isDatedSeries_helperRows host h hdated) he
  -- the hour has an observed row, so its row of the grid is that one
  have hobserved : e ∈ helperRows host call rows := by
    rcases hspec.2.2.2 with hin | ⟨-, hnone, -⟩
    · exact hin
    · obtain ⟨r, hr, hsame⟩ := exists_helperRow host h (hasRow_of_visible hvisible)
      exact absurd (hsame.trans hhour.symm) (hnone r hr)
  obtain ⟨hid, hstationId, hconnectorId, -, hsynthetic, -⟩ := columns_of_mem_helperRows h hobserved
  obtain ⟨pre, post, hsplit⟩ := List.append_of_mem ((mem_sorted_grid_iff h).mpr he)
  refine ⟨helperRowToNormalizedAqiV1Row host none (e.rolled (e :: pre.reverse)),
    mem_helperRowsToNormalizedAqiV1Rows.mpr ⟨_, (mem_pivot_rolled h hdated).mpr
      ⟨pre, e, post, hsplit, rfl⟩, rfl, ?_⟩, ?_⟩
  · simp [isPublished, helperRowToNormalizedAqiV1Row, HelperRow.rolled, toPositiveIntOrNull, hid,
      hstationId, hconnectorId, hsynthetic, htimeseries, hstation, hconnector]
  · rw [← hhour]
    exact hourOf_of_emod hspec.2.1

end Grid

end UkAqOps.StationHistory

import UkAqOps.Aqi.Publication

/-!
# How the rows of a day depend on the batch

A day can be built alone, from the observations of the day and of the 23 hours before it, or together
with other days from all observations. The observed hours of the window are the same in both builds,
and so are the means of the rows of the day. The grids may differ: a gap of a particulate series that
lies after the last observed hour of the day is only on the grid of the larger build, when the series
goes on after the end of the day.
-/

namespace UkAqOps.Aqi

open Sorting

variable {ν : Type} [Numeric ν] {host : Host} {rows : List (SourceRow ν)} {day : ℤ}

/-! ## The observations of a day -/

/-- The instant of a row. -/
def SourceRow.instant (host : Host) (row : SourceRow ν) : Option ℤ :=
  (normalizeIsoTimestamp host row.observedAt).or (normalizeIsoTimestamp host row.observedAtUtc)

/-- The hour lies in the 23 hours before a day or in the day. -/
def InContext (day hour : ℤ) : Prop := day * dayMs - 23 * hourMs ≤ hour ∧ hour < (day + 1) * dayMs

instance (day hour : ℤ) : Decidable (InContext day hour) := inferInstanceAs (Decidable (_ ∧ _))

/-- The rows whose hour a day is built from. -/
def contextRows (host : Host) (rows : List (SourceRow ν)) (day : ℤ) : List (SourceRow ν) :=
  rows.filter fun row ↦ (row.instant host).any fun instant ↦ InContext day (hourOf instant)

theorem instant_of_observation {row : SourceRow ν} {o : Observation ν}
    (h : row.observation host = some o) : row.instant host = some o.observedAt := by
  simp only [SourceRow.observation, Option.bind_eq_bind, Option.bind_eq_some_iff] at h
  obtain ⟨_, -, _, -, _, -, observedAt, hobserved, value, -, h⟩ := h
  by_cases hneg : Numeric.lt value Numeric.zero = true
  · rw [if_pos hneg] at h
    cases h
  · rw [if_neg hneg] at h
    rw [← Option.some.inj h]
    exact hobserved

theorem keptObservations_contextRows : keptObservations host (contextRows host rows day)
    = (keptObservations host rows).filter fun o ↦ InContext day (hourOf o.observedAt) := by
  rw [keptObservations, keptObservations, contextRows]
  induction rows with
  | nil => rfl
  | cons row rest ih =>
    rcases ho : row.observation host with _ | o
    · rw [List.filterMap_cons_none ho, ← ih, List.filter_cons]
      split
      · rw [List.filterMap_cons_none ho]
      · rfl
    · have hinstant := instant_of_observation ho
      rw [List.filterMap_cons_some ho, List.filter_cons, List.filter_cons, hinstant, ← ih]
      by_cases hcontext : InContext day (hourOf o.observedAt)
      · rw [if_pos (by simpa using hcontext), if_pos (by simpa using hcontext),
          List.filterMap_cons_some ho]
      · rw [if_neg (by simpa using hcontext), if_neg (by simpa using hcontext)]

theorem mem_keptObservations_contextRows {o : Observation ν} :
    o ∈ keptObservations host (contextRows host rows day) ↔
      o ∈ keptObservations host rows ∧ InContext day (hourOf o.observedAt) := by
  rw [keptObservations_contextRows, List.mem_filter, decide_eq_true_iff]

theorem PlainYears.contextRows (h : PlainYears host rows) :
    PlainYears host (contextRows host rows day) :=
  fun o ho ↦ h o (mem_keptObservations_contextRows.mp ho).1

theorem UniformSeries.contextRows (h : UniformSeries host rows) :
    UniformSeries host (contextRows host rows day) :=
  fun o ho o' ho' ↦ h o (mem_keptObservations_contextRows.mp ho).1 o'
    (mem_keptObservations_contextRows.mp ho').1

theorem mem_dedupe_contextRows {o : Observation ν} :
    o ∈ dedupeSourceObservationRows host (contextRows host rows day) ↔
      o ∈ dedupeSourceObservationRows host rows ∧ InContext day (hourOf o.observedAt) := by
  by_cases hcontext : InContext day (hourOf o.observedAt)
  · -- rows of the instant of `o` all lie in the window
    have hsame : ((keptObservations host (contextRows host rows day)).filter
        fun o' ↦ o'.key = o.key) = (keptObservations host rows).filter fun o' ↦ o'.key = o.key := by
      rw [keptObservations_contextRows, List.filter_filter]
      refine List.filter_congr fun o' _ ↦ ?_
      by_cases hkey : o'.key = o.key
      · have hinstant : o'.observedAt = o.observedAt := congrArg Prod.snd hkey
        simp [hkey, hinstant, hcontext]
      · simp [hkey]
    rw [mem_dedupe, mem_dedupe, hsame]
    exact (and_iff_left hcontext).symm
  · refine ⟨fun h ↦ ?_, fun h ↦ absurd h.2 hcontext⟩
    exact absurd (mem_keptObservations_contextRows.mp (kept_of_mem_dedupe h)).2 hcontext

/-! ## The observed hours of a day -/

/-- **The window of a day is observed alike in both builds.** -/
theorem observedRow_contextRows (hplain : PlainYears host rows) (key : ℤ × ℤ) :
    observedRow host (contextRows host rows day) key
      = if InContext day key.2 then observedRow host rows key else none := by
  by_cases hcontext : InContext day key.2
  · have hcell : hourCell host (contextRows host rows day) key = hourCell host rows key := by
      refine eq_of_mem_iff (r := fun o o' ↦ compareObservations host o o' = .lt)
        (fun _ _ ↦ Std.OrientedCmp.not_lt_of_lt)
        ((pairwise_dedupe hplain.contextRows).sublist List.filter_sublist)
        ((pairwise_dedupe hplain).sublist List.filter_sublist) fun o ↦ ?_
      rw [mem_hourCell, mem_hourCell, mem_dedupe_contextRows]
      refine ⟨fun h ↦ ⟨h.1.1, h.2⟩, fun h ↦ ⟨⟨h.1, ?_⟩, h.2⟩⟩
      rw [← show hourOf o.observedAt = key.2 from congrArg Prod.snd h.2] at hcontext
      exact hcontext
    rw [if_pos hcontext, observedRow, observedRow, hcell]
  · rw [if_neg hcontext]
    rcases hrow : observedRow host (contextRows host rows day) key with _ | r
    · rfl
    · obtain ⟨-, -, o, ho, hkey, -⟩ := observedRow_spec hrow
      rw [← show hourOf o.observedAt = key.2 from congrArg Prod.snd hkey] at hcontext
      exact absurd (mem_keptObservations_contextRows.mp ho).2 hcontext

theorem mem_seriesRows_contextRows (hplain : PlainYears host rows) {k : ℤ} {r : HelperRow ν} :
    r ∈ seriesRows host (contextRows host rows day) k ↔
      r ∈ seriesRows host rows k ∧ InContext day r.timestampHourUtc := by
  rw [mem_seriesRows, mem_seriesRows, observedRow_contextRows hplain]
  by_cases hcontext : InContext day r.timestampHourUtc
  · rw [if_pos (show InContext day r.key.2 from hcontext)]
    exact (and_iff_left hcontext).symm
  · rw [if_neg (show ¬InContext day r.key.2 from hcontext)]
    exact ⟨fun h ↦ absurd h.2 (by simp), fun h ↦ absurd h.2 hcontext⟩

/-- The means of a row of the day look back no further than its window. -/
theorem averaged_contextRows (hplain : PlainYears host rows) {r : HelperRow ν}
    (hlower : day * dayMs ≤ r.timestampHourUtc) (hupper : r.timestampHourUtc < (day + 1) * dayMs) :
    r.averaged host (contextRows host rows day) = r.averaged host rows := by
  have hwindow : ∀ field, windowValues field host (contextRows host rows day) r.key
      = windowValues field host rows r.key := by
    intro field
    refine List.filterMap_congr fun i hi ↦ ?_
    rw [List.mem_range] at hi
    rw [observedRow_contextRows hplain, if_pos]
    constructor
    · show day * dayMs - 23 * hourMs ≤ r.timestampHourUtc - i * hourMs
      simp only [hourMs, minuteMs]
      omega
    · show r.timestampHourUtc - i * hourMs < (day + 1) * dayMs
      simp only [hourMs, minuteMs]
      omega
  rw [HelperRow.averaged, HelperRow.averaged, hwindow, hwindow]

/-- Every kept observation makes its hour an observed one. -/
theorem exists_observedRow {o : Observation ν} (h : o ∈ keptObservations host rows) :
    ∃ r, observedRow host rows o.hourKey = some r := by
  have hne : (keptObservations host rows).filter (fun o' ↦ o'.key = o.key) ≠ [] :=
    List.ne_nil_of_mem (List.mem_filter.mpr ⟨h, decide_eq_true rfl⟩)
  have hlast := List.getLast?_eq_getLast_of_ne_nil hne
  generalize ((keptObservations host rows).filter fun o' ↦ o'.key = o.key).getLast hne = l at hlast
  have hkey : l.key = o.key :=
    of_decide_eq_true (List.mem_filter.mp (List.mem_of_getLast? hlast)).2
  have hdedupe : l ∈ dedupeSourceObservationRows host rows := by
    rw [mem_dedupe, hkey]
    exact hlast
  have hcell : l ∈ hourCell host rows o.hourKey := by
    have hseries : l.timeseriesId = o.timeseriesId := congrArg Prod.fst hkey
    have hinstant : l.observedAt = o.observedAt := congrArg Prod.snd hkey
    exact mem_hourCell.mpr ⟨hdedupe, Prod.ext hseries (congrArg hourOf hinstant)⟩
  obtain ⟨total, htotal⟩ := Option.isSome_iff_exists.mp
    (cellTotal_isSome.mpr (List.ne_nil_of_mem hcell))
  exact ⟨_, by rw [observedRow, htotal]; rfl⟩

/-! ## The two builds of a day -/

/-- Some observation of the timeseries falls into the hour of the row or later on its day. -/
def isObservedFrom (host : Host) (rows : List (SourceRow ν)) (day : ℤ) (row : AqiRow ν) : Bool :=
  (keptObservations host rows).any fun o ↦ some o.timeseriesId = row.timeseriesId &&
    row.timestampHourUtc ≤ hourOf o.observedAt && hourOf o.observedAt < (day + 1) * dayMs

theorem isObservedFrom_iff {row : AqiRow ν} : isObservedFrom host rows day row = true ↔
    ∃ o ∈ keptObservations host rows, some o.timeseriesId = row.timeseriesId ∧
      row.timestampHourUtc ≤ hourOf o.observedAt ∧ hourOf o.observedAt < (day + 1) * dayMs := by
  simp only [isObservedFrom, List.any_eq_true, Bool.and_eq_true, decide_eq_true_iff, and_assoc]

/-- An index with a level has the observations that it requires. -/
theorem required_le_of_ok {value : Option ν} {code : AveragingCode} {count : Option ℕ}
    {required : ℕ} {breakpoints : List Breakpoint} (hrequired : 1 < required)
    (h : (indexColumns value code count required breakpoints).calculationStatus = .ok) :
    required ≤ count.getD 0 := by
  by_contra hlt
  have hstatus : (calculationStatus value count required).1 ≠ .ok := by
    rw [calculationStatus]
    split
    · simp
    · rw [if_pos ⟨hrequired, not_le.mp hlt⟩]
      simp
  simp only [indexColumns, if_neg hstatus, Option.isNone_none, Bool.true_and,
    decide_eq_false hstatus] at h
  exact hstatus (by simpa using h)

/-- The column of the mean of a pollutant. -/
def meanOf (pollutantCode : Pollutant) (row : HelperRow ν) : Option ν :=
  match pollutantCode with
  | .no2 => row.no2HourlyMean
  | .pm25 => row.pm25HourlyMean
  | .pm10 => row.pm10HourlyMean

/-- A published gap of a series has a mean over at least 18 observed hours. -/
theorem count_of_published_gap {computedAtUtc : Option String} {template : HelperRow ν} {hour : ℤ}
    {row : AqiRow ν} (hpollutant : template.pollutantCode ≠ .no2)
    (h : PublishedAs host computedAtUtc ((template.gap hour).averaged host rows) row) :
    row.pollutantCode ≠ .no2 ∧ row.hourlyMean = none ∧
      18 ≤ (windowValues (meanOf template.pollutantCode) host rows
        (template.timeseriesId, hour)).length := by
  obtain ⟨rfl, hpublished⟩ := h
  have hok := (Bool.and_eq_true_iff.mp hpublished).2
  rw [Bool.or_eq_true, decide_eq_true_iff] at hok
  replace hok := hok.resolve_left (by simp [HelperRow.averaged, HelperRow.gap])
  have hlength : ∀ values : List ν, 18 ≤ (countOrNull values).getD 0 → 18 ≤ values.length := by
    intro values hvalues
    rw [countOrNull] at hvalues
    by_cases hnil : values.length = 0
    · rw [if_pos hnil] at hvalues
      exact absurd hvalues (by decide)
    · rw [if_neg hnil] at hvalues
      exact hvalues
  refine ⟨hpollutant, ?_, ?_⟩
  · rcases hcode : template.pollutantCode
    all_goals simp [helperRowToNormalizedAqiV1Row, HelperRow.averaged, HelperRow.gap, hcode,
      toNumberOrNull]
  · rcases hcode : template.pollutantCode
    · exact absurd hcode hpollutant
    · simp only [helperRowToNormalizedAqiV1Row, HelperRow.averaged, HelperRow.gap, hcode] at hok
      exact hlength _ (required_le_of_ok (by decide) hok)
    · simp only [helperRowToNormalizedAqiV1Row, HelperRow.averaged, HelperRow.gap, hcode] at hok
      exact hlength _ (required_le_of_ok (by decide) hok)

/-- A value in the window of an hour was observed in one of the last 24 hours. -/
theorem exists_observed_of_windowValues {field : HelperRow ν → Option ν} {k hour : ℤ}
    (h : windowValues field host rows (k, hour) ≠ []) :
    ∃ b ∈ seriesRows host rows k, hour - 23 * hourMs ≤ b.timestampHourUtc ∧
      b.timestampHourUtc ≤ hour := by
  obtain ⟨v, hv⟩ := List.exists_mem_of_ne_nil _ h
  obtain ⟨i, hi, hfield⟩ := List.mem_filterMap.mp hv
  obtain ⟨b, hb, -⟩ := Option.bind_eq_some_iff.mp hfield
  have hkey := (observedRow_spec hb).1
  have hhour : b.timestampHourUtc = hour - i * hourMs := congrArg Prod.snd hkey
  rw [List.mem_range] at hi
  refine ⟨b, mem_seriesRows.mpr ⟨congrArg Prod.fst hkey, ?_⟩, ?_, ?_⟩
  · rw [HelperRow.key, hkey]
    exact hb
  · rw [hhour]
    simp only [hourMs, minuteMs]
    omega
  · rw [hhour]
    simp only [hourMs, minuteMs]
    omega

/-- The hours of a series are the hours of its kept observations. -/
theorem exists_mem_seriesRows_iff (p : ℤ → Prop) {k : ℤ} :
    (∃ c ∈ seriesRows host rows k, p c.timestampHourUtc) ↔
      ∃ o ∈ keptObservations host rows, o.timeseriesId = k ∧ p (hourOf o.observedAt) := by
  constructor
  · rintro ⟨c, hc, hp⟩
    obtain ⟨hk, hobserved⟩ := mem_seriesRows.mp hc
    obtain ⟨-, -, o, ho, hkey, -⟩ := observedRow_spec hobserved
    have hhour : hourOf o.observedAt = c.timestampHourUtc := congrArg Prod.snd hkey
    exact ⟨o, ho, (congrArg Prod.fst hkey).trans hk, by rw [hhour]; exact hp⟩
  · rintro ⟨o, ho, rfl, hp⟩
    obtain ⟨c, hc⟩ := exists_observedRow ho
    have hkey := (observedRow_spec hc).1
    have hhour : c.timestampHourUtc = hourOf o.observedAt := congrArg Prod.snd hkey
    refine ⟨c, mem_seriesRows.mpr ⟨congrArg Prod.fst hkey, ?_⟩, by rw [hhour]; exact hp⟩
    rw [HelperRow.key, hkey]
    exact hc

section Day

variable {k : ℤ} {e : HelperRow ν} (hlower : day * dayMs ≤ e.timestampHourUtc)
variable (hupper : e.timestampHourUtc < (day + 1) * dayMs)
include hlower hupper

/-- The grid of the small build is part of the grid of the large one, before the last observation
of the day. -/
theorem OnGrid.of_contextRows (hplain : PlainYears host rows)
    (h : OnGrid (seriesRows host (contextRows host rows day) k) e) :
    OnGrid (seriesRows host rows k) e ∧ ∃ c ∈ seriesRows host rows k,
      e.timestampHourUtc ≤ c.timestampHourUtc ∧ c.timestampHourUtc < (day + 1) * dayMs := by
  obtain hobserved | ⟨hbefore, hafter, hpollutant, hlt, hgt, haligned, hnone, hrow⟩ := h
  · have hmem := ((mem_seriesRows_contextRows hplain).mp hobserved).1
    exact ⟨.observed hmem, e, hmem, le_rfl, hupper⟩
  · obtain ⟨hbefore', -⟩ := (mem_seriesRows_contextRows hplain).mp hbefore
    obtain ⟨hafter', -, hafterUpper⟩ := (mem_seriesRows_contextRows hplain).mp hafter
    refine ⟨.gap hbefore' hafter' hpollutant hlt hgt haligned ?_ hrow,
      _, hafter', hgt.le, hafterUpper⟩
    intro c hc hhour
    refine hnone c ((mem_seriesRows_contextRows hplain).mpr ⟨hc, ?_⟩) hhour
    rw [hhour]
    constructor
    · simp only [hourMs, minuteMs] at *
      omega
    · exact hupper

/-- A row of the grid of the large build is on the grid of the small one if its series is observed
in the 24 hours up to it, and in its hour or later on the day. -/
theorem OnGrid.contextRows (hplain : PlainYears host rows) (huniform : UniformSeries host rows)
    (h : OnGrid (seriesRows host rows k) e)
    (hback : ∃ b ∈ seriesRows host rows k, e.timestampHourUtc - 23 * hourMs ≤ b.timestampHourUtc ∧
      b.timestampHourUtc ≤ e.timestampHourUtc)
    (hahead : ∃ c ∈ seriesRows host rows k, e.timestampHourUtc ≤ c.timestampHourUtc ∧
      c.timestampHourUtc < (day + 1) * dayMs) :
    OnGrid (seriesRows host (Aqi.contextRows host rows day) k) e := by
  have hseries := isSeries_seriesRows hplain huniform k
  have hcontext : ∀ r ∈ seriesRows host rows k, day * dayMs - 23 * hourMs ≤ r.timestampHourUtc →
      r.timestampHourUtc < (day + 1) * dayMs →
      r ∈ seriesRows host (Aqi.contextRows host rows day) k := fun r hr hl hu ↦
    (mem_seriesRows_contextRows hplain).mpr ⟨hr, hl, hu⟩
  obtain hobserved | ⟨hbefore, -, hpollutant, -, -, haligned, hnone, hrow⟩ := h
  · exact .observed (hcontext e hobserved (by simp only [hourMs, minuteMs]; omega) hupper)
  · obtain ⟨b, hb, hbLower, hbUpper⟩ := hback
    obtain ⟨c, hc, hcLower, hcUpper⟩ := hahead
    refine .gap (hcontext b hb (by omega) (by omega)) (hcontext c hc ?_ hcUpper) ?_
      (lt_of_le_of_ne hbUpper (hnone b hb)) (lt_of_le_of_ne hcLower (hnone c hc).symm) haligned
      (fun r hr ↦ hnone r ((mem_seriesRows_contextRows hplain).mp hr).1) ?_
    · simp only [hourMs, minuteMs]
      omega
    · rw [(hseries.uniform b hb _ hbefore).2.2]
      exact hpollutant
    · rw [gap_eq_of_series hseries hb hbefore]
      exact hrow

end Day

variable {computedAtUtc : Option String}

/-- **A day built alone publishes the rows that a larger build publishes for it, but for the ones
after the last observation of their series on the day.** -/
theorem publishedRows_contextRows (hplain : PlainYears host rows)
    (huniform : UniformSeries host rows) (hday : PlainYear day) (hnext : PlainYear (day + 1)) :
    publishedRows host (contextRows host rows day) day computedAtUtc
      = (publishedRows host rows day computedAtUtc).filter (isObservedFrom host rows day) := by
  refine eq_of_mem_iff (r := fun row row' ↦ compareAqiRows host row row' = .lt)
    (fun _ _ ↦ Std.OrientedCmp.not_lt_of_lt)
    (pairwise_publishedRows hplain.contextRows huniform.contextRows)
    ((pairwise_publishedRows hplain huniform).sublist List.filter_sublist) fun row ↦ ?_
  rw [List.mem_filter, isObservedFrom_iff,
    mem_publishedRows hplain.contextRows huniform.contextRows hday hnext,
    mem_publishedRows hplain huniform hday hnext]
  constructor
  · rintro ⟨e, hgrid, hlower, hupper, hpublished⟩
    rw [averaged_contextRows hplain hlower hupper] at hpublished
    obtain ⟨hgrid', hahead⟩ := hgrid.of_contextRows hlower hupper hplain
    have hspec := hgrid'.spec (isSeries_seriesRows hplain huniform _)
    obtain ⟨hid, hhour⟩ := hpublished.key hspec.2.1
    obtain ⟨o, ho, hk, hfrom, hbefore⟩ := (exists_mem_seriesRows_iff
      fun hour ↦ e.timestampHourUtc ≤ hour ∧ hour < (day + 1) * dayMs).mp hahead
    refine ⟨⟨e, hgrid', hlower, hupper, hpublished⟩, o, ho, ?_, ?_, hbefore⟩
    · rw [hid, hk]
      rfl
    · rw [hhour]
      exact hfrom
  · rintro ⟨⟨e, hgrid, hlower, hupper, hpublished⟩, o, ho, hseries, hfrom, hbefore⟩
    have hspec := hgrid.spec (isSeries_seriesRows hplain huniform _)
    obtain ⟨hid, hhour⟩ := hpublished.key hspec.2.1
    rw [hid] at hseries
    rw [hhour] at hfrom
    have hahead : ∃ c ∈ seriesRows host rows e.timeseriesId,
        e.timestampHourUtc ≤ c.timestampHourUtc ∧ c.timestampHourUtc < (day + 1) * dayMs :=
      (exists_mem_seriesRows_iff fun hour ↦ e.timestampHourUtc ≤ hour ∧
        hour < (day + 1) * dayMs).mpr ⟨o, ho, Option.some.inj hseries, hfrom, hbefore⟩
    have hback : ∃ b ∈ seriesRows host rows e.timeseriesId,
        e.timestampHourUtc - 23 * hourMs ≤ b.timestampHourUtc ∧
          b.timestampHourUtc ≤ e.timestampHourUtc := by
      obtain hobserved | ⟨hb, -, hpollutant, -, -, -, -, hrow⟩ := id hgrid
      · exact ⟨e, hobserved, by simp only [hourMs, minuteMs]; omega, le_rfl⟩
      · rw [hrow] at hpublished
        obtain ⟨-, -, hcount⟩ := count_of_published_gap hpollutant hpublished
        have hsame := (isSeries_seriesRows hplain huniform _).series _ hb
        rw [hsame] at hcount
        exact exists_observed_of_windowValues
          (List.ne_nil_of_length_pos (lt_of_lt_of_le (by decide) hcount))
    refine ⟨e, hgrid.contextRows hlower hupper hplain huniform hback hahead, hlower, hupper, ?_⟩
    rw [averaged_contextRows hplain hlower hupper]
    exact hpublished

/-- **What only the larger build publishes** is a gap of a particulate series that is observed again
after the day, averaged over at least 18 observed hours of the last 24. -/
theorem trailing_of_not_isObservedFrom (hplain : PlainYears host rows)
    (huniform : UniformSeries host rows) (hday : PlainYear day) (hnext : PlainYear (day + 1))
    {row : AqiRow ν} (hrow : row ∈ publishedRows host rows day computedAtUtc)
    (h : isObservedFrom host rows day row = false) :
    row.pollutantCode ≠ .no2 ∧ row.hourlyMean = none ∧
      (∃ o ∈ keptObservations host rows, some o.timeseriesId = row.timeseriesId ∧
        (day + 1) * dayMs ≤ hourOf o.observedAt) ∧
      ∃ k, row.timeseriesId = some k ∧
        18 ≤ (windowValues (meanOf row.pollutantCode) host rows (k, row.timestampHourUtc)).length := by
  obtain ⟨e, hgrid, hlower, hupper, hpublished⟩ :=
    (mem_publishedRows hplain huniform hday hnext).mp hrow
  have hspec := hgrid.spec (isSeries_seriesRows hplain huniform _)
  obtain ⟨hid, hhour⟩ := hpublished.key hspec.2.1
  have hnone : ∀ c ∈ seriesRows host rows e.timeseriesId,
      e.timestampHourUtc ≤ c.timestampHourUtc → (day + 1) * dayMs ≤ c.timestampHourUtc := by
    intro c hc hfrom
    by_contra hbefore
    obtain ⟨o, ho, hk, hofrom, hobefore⟩ := (exists_mem_seriesRows_iff fun hour ↦
      e.timestampHourUtc ≤ hour ∧ hour < (day + 1) * dayMs).mp ⟨c, hc, hfrom, not_le.mp hbefore⟩
    have htrue : isObservedFrom host rows day row = true := isObservedFrom_iff.mpr
      ⟨o, ho, by rw [hid, hk]; rfl, by rw [hhour]; exact hofrom, hobefore⟩
    rw [h] at htrue
    cases htrue
  obtain hobserved | ⟨hbefore, hafter, hpollutant, -, hgt, -, -, hgap⟩ := id hgrid
  · exact absurd (hnone e hobserved le_rfl) (not_le.mpr hupper)
  · have hsame := (isSeries_seriesRows hplain huniform _).series _ hbefore
    rw [hgap] at hpublished
    obtain ⟨hcode, hmean, hcount⟩ := count_of_published_gap hpollutant hpublished
    obtain ⟨o, ho, hk, hlate⟩ := (exists_mem_seriesRows_iff fun hour ↦
      (day + 1) * dayMs ≤ hour).mp ⟨_, hafter, hnone _ hafter hgt.le⟩
    refine ⟨hcode, hmean, ⟨o, ho, by rw [hid, hk]; rfl, hlate⟩, e.timeseriesId, hid, ?_⟩
    rw [hhour, ← hpublished.1]
    rw [hsame] at hcount
    exact hcount

theorem mem_dayCursors {fromDayUtc toDayUtc : ℤ} :
    day ∈ dayCursors fromDayUtc toDayUtc ↔ fromDayUtc ≤ day ∧ day ≤ toDayUtc := by
  rw [dayCursors, List.mem_map]
  simp only [List.mem_range]
  constructor
  · rintro ⟨i, hi, rfl⟩
    omega
  · rintro ⟨hfrom, hto⟩
    exact ⟨(day - fromDayUtc).toNat, by omega, by omega⟩

/-- **The entry of a day in a build of several days is the build of that day alone**, from the
observations whose hours lie in the day or in the 23 hours before it, but for the synthetic hours
after the last observation of a particulate series on the day. Such an hour is in the entry when the
series is observed again after the day and 18 of the last 24 hours were observed. -/
theorem entry_independent_of_batch (fromDayUtc toDayUtc : ℤ) (computedAtUtc : Option String)
    (hplain : PlainYears host rows) (huniform : UniformSeries host rows) (hday : PlainYear day)
    (hnext : PlainYear (day + 1)) (hfrom : fromDayUtc ≤ day) (hto : day ≤ toDayUtc) :
    ∃ published, ((buildAqilevelHistoryRowsByDayFromSourceObservations host rows fromDayUtc toDayUtc
        computedAtUtc).find? fun entry ↦ entry.1 = day) = some (day, published) ∧
      buildAqilevelHistoryRowsForDayFromSourceObservations host (contextRows host rows day) day
        computedAtUtc = published.filter (isObservedFrom host rows day) ∧
      ∀ row ∈ published, isObservedFrom host rows day row = false →
        row.pollutantCode ≠ .no2 ∧ row.hourlyMean = none ∧
        (∃ o ∈ keptObservations host rows, some o.timeseriesId = row.timeseriesId ∧
          (day + 1) * dayMs ≤ hourOf o.observedAt) ∧
        ∃ k, row.timeseriesId = some k ∧ 18 ≤ (windowValues (meanOf row.pollutantCode) host rows
          (k, row.timestampHourUtc)).length := by
  refine ⟨publishedRows host rows day computedAtUtc, ?_,
    publishedRows_contextRows hplain huniform hday hnext,
    fun row hrow h ↦ trailing_of_not_isObservedFrom hplain huniform hday hnext hrow h⟩
  have hcursor : (dayCursors fromDayUtc toDayUtc).find? (fun cursor ↦ cursor = day) = some day := by
    rcases hfind : (dayCursors fromDayUtc toDayUtc).find? fun cursor ↦ cursor = day with _ | cursor
    · exact absurd (List.find?_eq_none.mp hfind day (mem_dayCursors.mpr ⟨hfrom, hto⟩)) (by simp)
    · rw [show cursor = day by simpa using List.find?_some hfind]
  rw [buildAqilevelHistoryRowsByDayFromSourceObservations, List.find?_map]
  exact congrArg (Option.map _) hcursor

/-! ## Two batches that do not agree -/

instance : Numeric ℚ where
  zero := 0
  add := (· + ·)
  div := (· / ·)
  ofNat n := n
  isFinite _ := true
  lt a b := a < b
  le a b := a ≤ b

/-- The instant of an ISO timestamp, whose year may have a sign and six digits. -/
def parseTimestamp (text : String) : Option ℤ :=
  let chars := text.toList
  let signed := chars.head? = some '+' || chars.head? = some '-'
  let year := decimalOf (if signed then (chars.drop 1).take 6 else chars.take 4)
  match chars.drop (if signed then 7 else 4) with
  | ['-', m₁, m₂, '-', d₁, d₂, 'T', h₁, h₂, ':', n₁, n₂, ':', s₁, s₂, '.', f₁, f₂, f₃, 'Z'] =>
    some (daysFromCivil ⟨if chars.head? = some '-' then -year else year, decimalOf [m₁, m₂],
        decimalOf [d₁, d₂]⟩ * dayMs + decimalOf [h₁, h₂] * hourMs + decimalOf [n₁, n₂] * minuteMs +
      decimalOf [s₁, s₂] * 1000 + decimalOf [f₁, f₂, f₃])
  | _ => none

/-- A host whose `localeCompare` goes by code points. -/
def isoHost : Host where
  dateParse := parseTimestamp
  localeCompare := compare
  transCmp := inferInstance
  eq_of_compare a b ha hb h := by
    have htext : isoChars a = isoChars b := Std.LawfulEqOrd.eq_of_compare h
    rcases lt_trichotomy a b with hlt | heq | hgt
    · exact absurd (isoChars_lt ha hb hlt) (by rw [htext]; exact List.lt_irrefl _)
    · exact heq
    · exact absurd (isoChars_lt hb ha hgt) (by rw [htext]; exact List.lt_irrefl _)

/-- Observations of 10 µg/m³ of PM2.5 at the given hours. -/
def pm25Rows (instants : List ℤ) : List (SourceRow ℚ) :=
  instants.map fun instant ↦
    { timeseriesId := some 7
      stationId := some 3
      connectorId := some 1
      pollutantCode := "pm25"
      observedAt := toISOString instant
      value := some 10 }

/-- The hours from 05:00 to 22:00 on 2024-01-01, and the midnight after it. -/
def gapHours : List ℤ :=
  [1704085200000, 1704088800000, 1704092400000, 1704096000000, 1704099600000, 1704103200000,
    1704106800000, 1704110400000, 1704114000000, 1704117600000, 1704121200000, 1704124800000,
    1704128400000, 1704132000000, 1704135600000, 1704139200000, 1704142800000, 1704146400000,
    1704153600000]

/-- The first hour of 2024-01-01 and the first hour of the year 10000. -/
def farHours : List ℤ := [1704067200000, 253402300800000]

/-- **The batch can matter.** With the observation after midnight the larger build also publishes
23:00 of the day; with the one in the year 10000, whose text sorts before the day, it loses the
series. -/
theorem entry_depends_on_batch :
    ((buildAqilevelHistoryRowsByDayFromSourceObservations isoHost (pm25Rows gapHours) 19723 19724
        none).find? fun entry ↦ entry.1 = 19723) ≠
      some (19723, buildAqilevelHistoryRowsForDayFromSourceObservations isoHost
        (contextRows isoHost (pm25Rows gapHours) 19723) 19723 none) ∧
    ((buildAqilevelHistoryRowsByDayFromSourceObservations isoHost (pm25Rows farHours) 19723 19724
        none).find? fun entry ↦ entry.1 = 19723) ≠
      some (19723, buildAqilevelHistoryRowsForDayFromSourceObservations isoHost
        (contextRows isoHost (pm25Rows farHours) 19723) 19723 none) := by
  have hlength : ∀ {x y : Option (ℤ × List (AqiRow ℚ))},
      (x.map fun entry ↦ entry.2.length) ≠ (y.map fun entry ↦ entry.2.length) → x ≠ y :=
    fun h heq ↦ h (by rw [heq])
  exact ⟨hlength (by decide +kernel), hlength (by decide +kernel)⟩

/-- Two observations of one day. -/
theorem entry_independent_of_batch_day :
    ∃ published, ((buildAqilevelHistoryRowsByDayFromSourceObservations isoHost
        (pm25Rows [1704067200000, 1704070800000]) 19723 19724 none).find?
          fun entry ↦ entry.1 = 19723) = some (19723, published) ∧
      buildAqilevelHistoryRowsForDayFromSourceObservations isoHost (contextRows isoHost
        (pm25Rows [1704067200000, 1704070800000]) 19723) 19723 none
          = published.filter
            (isObservedFrom isoHost (pm25Rows [1704067200000, 1704070800000]) 19723) := by
  have hplain : PlainYears isoHost (pm25Rows [1704067200000, 1704070800000]) := by
    show ∀ o ∈ _, _ ∧ _
    decide +kernel
  have huniform : UniformSeries isoHost (pm25Rows [1704067200000, 1704070800000]) := by
    show ∀ o ∈ _, ∀ o' ∈ _, _ → _
    decide +kernel
  have hday : PlainYear 19723 := ⟨by decide, by decide⟩
  have hnext : PlainYear (19723 + 1) := ⟨by decide, by decide⟩
  obtain ⟨published, hentry, hsame, -⟩ := entry_independent_of_batch 19723 19724 none hplain
    huniform hday hnext (by decide) (by decide)
  exact ⟨published, hentry, hsame⟩

end UkAqOps.Aqi

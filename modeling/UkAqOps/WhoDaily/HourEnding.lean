import Mathlib.Data.Int.ConditionallyCompleteOrder
import UkAqOps.Lib.Bucketing
import UkAqOps.WhoDaily.Prepared
import Mathlib.Data.Int.Interval

/-!
# Clock hours and hour-ending hours

A day of the WHO worker consists of the hours `(h - 1, h]`: the midnight that opens it is outside
and the one that closes it is inside. Its readings are put into the clock hour in which they fall,
though, so a reading on the hour shares its bucket with those after it.

`aggregatePollutantRows_eq` says what the aggregation computes, and `clockHourRow_eq_iff` when this
is the row of the hour-ending hours whatever the readings are.
-/

namespace UkAqOps.WhoDaily

open Bucketing Sorting

variable (host : Host)

/-! ## The row of the hour-ending hours -/

/-- The valid readings of a timeseries in the day, with their instants. -/
def validReadings (startMs : ℤ) (pollutantCode : String) (timeseriesId : ℤ)
    (rows : List R2ObservationRow) : List (ℤ × ℚ) :=
  rows.filterMap fun row ↦
    if row.timeseriesId = timeseriesId then
      (observedInDay host startMs pollutantCode row).bind fun observedMs ↦
        (row.value.filter fun value ↦ decide (0 ≤ value)).map fun value ↦ (observedMs, value)
    else none

/-- The instant lies in the hour that ends `hour` hours after the start. -/
def InHour (startMs hour ms : ℤ) : Prop :=
  startMs + (hour - 1) * hourMs < ms ∧ ms ≤ startMs + hour * hourMs

instance (startMs hour ms : ℤ) : Decidable (InHour startMs hour ms) :=
  inferInstanceAs (Decidable (_ ∧ _))

/-- The hours of the day that contain a reading. -/
noncomputable def validHours (startMs : ℤ) (readings : List (ℤ × ℚ)) : Finset ℤ :=
  (Finset.Icc 1 24).filter fun hour ↦ ∃ reading ∈ readings, InHour startMs hour reading.1

def hourlyMean (startMs : ℤ) (readings : List (ℤ × ℚ)) (hour : ℤ) : ℚ :=
  mean ((readings.filter fun reading ↦ InHour startMs hour reading.1).map Prod.snd)

/-- The row that a timeseries has when its hours end at their hour. -/
noncomputable def hourEndingRow (minValidHoursPerDay startMs timeseriesId : ℤ) (readings : List (ℤ × ℚ)) :
    PreparedDailyRow where
  timeseriesId := timeseriesId
  validHourCount := (validHours startMs readings).card
  dailyMeanUgm3 :=
    if minValidHoursPerDay ≤ (validHours startMs readings).card then
      some ((∑ hour ∈ validHours startMs readings, hourlyMean startMs readings hour)
        / (validHours startMs readings).card)
    else none

theorem validHours_card_le (startMs : ℤ) (readings : List (ℤ × ℚ)) :
    (validHours startMs readings).card ≤ 24 := by
  have hhours : (Finset.Icc (1 : ℤ) 24).card = 24 := by rw [Int.card_Icc]; rfl
  rw [← hhours]
  exact Finset.card_filter_le _ _

/-! ## The two roundings -/

/-- The row of a timeseries whose readings are divided by a rounding of their instants. -/
def roundedRow (round : ℤ → ℤ) (minValidHoursPerDay timeseriesId : ℤ) (readings : List (ℤ × ℚ)) :
    PreparedDailyRow where
  timeseriesId := timeseriesId
  validHourCount := (buckets (fun reading ↦ round reading.1) readings).card
  dailyMeanUgm3 :=
    if minValidHoursPerDay ≤ (buckets (fun reading ↦ round reading.1) readings).card then
      some (meanOfMeans (fun reading ↦ round reading.1) Prod.snd readings)
    else none

/-- The readings lie after the start of the day and not after its end. -/
def InDay (startMs : ℤ) (readings : List (ℤ × ℚ)) : Prop :=
  ∀ reading ∈ readings, startMs < reading.1 ∧ reading.1 ≤ startMs + dayMs

theorem inDay_validReadings (startMs : ℤ) (pollutantCode : String) (timeseriesId : ℤ)
    (rows : List R2ObservationRow) :
    InDay startMs (validReadings host startMs pollutantCode timeseriesId rows) := by
  intro reading hreading
  obtain ⟨row, -, hrow⟩ := List.mem_filterMap.mp hreading
  by_cases hid : row.timeseriesId = timeseriesId
  · rw [if_pos hid, Option.bind_eq_some_iff] at hrow
    obtain ⟨ms, hms, hvalue⟩ := hrow
    obtain ⟨value, -, rfl⟩ := Option.map_eq_some_iff.mp hvalue
    have hwindow := (Option.filter_eq_some_iff.mp hms).2
    simp only [Bool.and_eq_true, decide_eq_true_iff] at hwindow
    exact hwindow.1
  · rw [if_neg hid] at hrow
    cases hrow

/-- An instant lies in the hour that ends at the multiple of the hour to which it is rounded up. -/
theorem inHour_iff {day hour ms : ℤ} :
    InHour (day * dayMs) hour ms ↔ ceilTo hourMs ms - day * 24 = hour := by
  rw [InHour, ceilTo]
  simp only [dayMs, hourMs, minuteMs]
  omega

theorem validHours_eq {day : ℤ} {readings : List (ℤ × ℚ)} (h : InDay (day * dayMs) readings) :
    validHours (day * dayMs) readings
      = buckets (fun reading ↦ ceilTo hourMs reading.1 - day * 24) readings := by
  ext hour
  rw [validHours, Finset.mem_filter, mem_buckets, Finset.mem_Icc]
  simp only [inHour_iff]
  refine and_iff_right_of_imp ?_
  rintro ⟨reading, hreading, rfl⟩
  have hday := h reading hreading
  simp only [ceilTo, dayMs, hourMs, minuteMs] at hday ⊢
  omega

theorem sameDivision_sub {ι : Type*} (key : ι → ℤ) (c : ℤ) (l : List ι) :
    SameDivision (fun a ↦ key a - c) key l := fun _ _ _ _ ↦ sub_left_inj

theorem hourEndingRow_eq {day : ℤ} {readings : List (ℤ × ℚ)} (h : InDay (day * dayMs) readings)
    (minValidHoursPerDay timeseriesId : ℤ) :
    hourEndingRow minValidHoursPerDay (day * dayMs) timeseriesId readings
      = roundedRow (ceilTo hourMs) minValidHoursPerDay timeseriesId readings := by
  have hsame := sameDivision_sub (fun reading : ℤ × ℚ ↦ ceilTo hourMs reading.1) (day * 24) readings
  have hmean : (∑ hour ∈ validHours (day * dayMs) readings, hourlyMean (day * dayMs) readings hour)
      / (validHours (day * dayMs) readings).card
        = meanOfMeans (fun reading ↦ ceilTo hourMs reading.1) Prod.snd readings := by
    rw [← meanOfMeans_eq_of_sameDivision hsame, meanOfMeans, ← validHours_eq h]
    simp only [hourlyMean, inHour_iff, bucket]
  rw [hourEndingRow, roundedRow, hmean, validHours_eq h, card_buckets_of_sameDivision hsame]

theorem roundedRow_congr {round round' : ℤ → ℤ} {readings : List (ℤ × ℚ)}
    (h : SameDivision (fun reading : ℤ × ℚ ↦ round reading.1) (fun reading ↦ round' reading.1)
      readings) (minValidHoursPerDay timeseriesId : ℤ) :
    roundedRow round minValidHoursPerDay timeseriesId readings
      = roundedRow round' minValidHoursPerDay timeseriesId readings := by
  rw [roundedRow, roundedRow, card_buckets_of_sameDivision h,
    meanOfMeans_eq_of_sameDivision h Prod.snd]

theorem roundedRow_perm (round : ℤ → ℤ) (minValidHoursPerDay timeseriesId : ℤ)
    {readings readings' : List (ℤ × ℚ)} (h : readings.Perm readings') :
    roundedRow round minValidHoursPerDay timeseriesId readings
      = roundedRow round minValidHoursPerDay timeseriesId readings' := by
  rw [roundedRow, roundedRow, buckets_perm h, meanOfMeans_perm _ _ h]

/-! ## What the aggregation computes -/

/-- The rows of the day: timeseries, instant and value. -/
def observations (startMs : ℤ) (pollutantCode : String) (rows : List R2ObservationRow) :
    List (ℤ × ℤ × Option ℚ) :=
  rows.filterMap fun row ↦
    (observedInDay host startMs pollutantCode row).map fun ms ↦ (row.timeseriesId, ms, row.value)

def tally (bucket : HourBucket) (reading : ℤ × ℚ) : HourBucket :=
  ⟨bucket.sum + reading.2, bucket.count + 1⟩

theorem foldl_tally (readings : List (ℤ × ℚ)) (bucket : HourBucket) :
    readings.foldl tally bucket
      = ⟨bucket.sum + (readings.map Prod.snd).sum, bucket.count + readings.length⟩ := by
  induction readings generalizing bucket with
  | nil => simp
  | cons reading rest ih =>
    rw [List.foldl_cons, ih, tally, List.map_cons, List.sum_cons, List.length_cons, add_assoc,
      add_assoc, Nat.add_comm 1]

/-- The clock hour in which an instant falls. -/
def clockHour (ms : ℤ) : ℤ := ms / hourMs * hourMs

theorem hourlyBuckets_eq (startMs : ℤ) (pollutantCode : String) (rows : List R2ObservationRow) :
    hourlyBuckets host startMs pollutantCode rows
      = groupFold Prod.fst OrderedMap.empty (fun hours row ↦ countReading hours row.2.1 row.2.2)
          (observations host startMs pollutantCode rows) := by
  rw [hourlyBuckets, groupFold, observations, List.foldl_filterMap]
  congr 1
  funext hourly row
  cases observedInDay host startMs pollutantCode row <;> rfl

/-- The readings of a timeseries are counted as if it were alone. -/
theorem foldl_countReading (startMs : ℤ) (pollutantCode : String) (timeseriesId : ℤ)
    (rows : List R2ObservationRow) :
    ((observations host startMs pollutantCode rows).filter fun row ↦ row.1 = timeseriesId).foldl
        (fun hours row ↦ countReading hours row.2.1 row.2.2) OrderedMap.empty
      = groupFold (fun reading ↦ clockHour reading.1) ⟨0, 0⟩ tally
          (validReadings host startMs pollutantCode timeseriesId rows) := by
  have hvalid : validReadings host startMs pollutantCode timeseriesId rows
      = ((observations host startMs pollutantCode rows).filter fun row ↦
          row.1 = timeseriesId).filterMap fun row ↦
            (row.2.2.filter fun value ↦ decide (0 ≤ value)).map fun value ↦ (row.2.1, value) := by
    rw [observations, validReadings, List.filterMap_filter, List.filterMap_filterMap]
    congr 1
    funext row
    cases observedInDay host startMs pollutantCode row
    · simp
    · by_cases hid : row.timeseriesId = timeseriesId <;> simp [hid]
  rw [hvalid, groupFold, List.foldl_filterMap]
  congr 1
  funext hours row
  rw [countReading]
  cases row.2.2.filter fun value ↦ decide (0 ≤ value) <;> rfl

/-- The timeseries with a row of the day. -/
def dayTimeseries (startMs : ℤ) (pollutantCode : String) (rows : List R2ObservationRow) : List ℤ :=
  (hourlyBuckets host startMs pollutantCode rows).keys

theorem preparedDailyRow_groupFold (minValidHoursPerDay timeseriesId : ℤ)
    (readings : List (ℤ × ℚ)) :
    preparedDailyRow minValidHoursPerDay timeseriesId
        (groupFold (fun reading ↦ clockHour reading.1) ⟨0, 0⟩ tally readings)
      = roundedRow clockHour minValidHoursPerDay timeseriesId readings := by
  let hours := groupFold (fun reading : ℤ × ℚ ↦ clockHour reading.1) ⟨0, 0⟩ tally readings
  have hmeans : hours.values.map (fun hour ↦ hour.sum / (hour.count : ℚ))
      = hours.keys.map fun hour ↦ mean ((bucket (fun reading : ℤ × ℚ ↦ clockHour reading.1)
          readings hour).map Prod.snd) := by
    rw [OrderedMap.values, entries_groupFold, List.map_map, List.map_map]
    refine List.map_congr_left fun hour _ ↦ ?_
    simp only [Function.comp_apply, foldl_tally, zero_add, mean, bucket,
      List.length_map]
  have hkeys : hours.keys.toFinset = buckets (fun reading : ℤ × ℚ ↦ clockHour reading.1) readings :=
    toFinset_keys_groupFold _ _ _ _
  have hnodup : hours.keys.Nodup := hours.nodup_keys
  have hlength : hours.keys.length
      = (buckets (fun reading : ℤ × ℚ ↦ clockHour reading.1) readings).card := by
    rw [← hkeys, List.toFinset_card_of_nodup hnodup]
  have hsum : ((hours.keys.map fun hour ↦ mean ((bucket (fun reading : ℤ × ℚ ↦ clockHour reading.1)
      readings hour).map Prod.snd)).foldl (· + ·) 0 : ℚ)
        / (buckets (fun reading : ℤ × ℚ ↦ clockHour reading.1) readings).card
          = meanOfMeans (fun reading : ℤ × ℚ ↦ clockHour reading.1) Prod.snd readings := by
    rw [meanOfMeans, ← hkeys, List.sum_toFinset _ hnodup, ← List.sum_eq_foldl]
  change preparedDailyRow minValidHoursPerDay timeseriesId hours = _
  simp only [preparedDailyRow, roundedRow, hmeans, List.length_map, hsum, hlength]

theorem sameDivision_clockHour (readings : List (ℤ × ℚ)) :
    SameDivision (fun reading : ℤ × ℚ ↦ clockHour reading.1)
      (fun reading ↦ floorTo hourMs reading.1) readings := by
  intro a _ b _
  exact mul_left_inj' (by decide)

theorem dayTimeseries_mem {startMs : ℤ} {pollutantCode : String} {rows : List R2ObservationRow}
    {timeseriesId : ℤ} :
    timeseriesId ∈ dayTimeseries host startMs pollutantCode rows ↔
      ∃ row ∈ rows, row.timeseriesId = timeseriesId ∧
        (observedInDay host startMs pollutantCode row).isSome := by
  rw [dayTimeseries, hourlyBuckets_eq, mem_keys_groupFold, List.mem_map]
  constructor
  · rintro ⟨entry, hentry, rfl⟩
    obtain ⟨row, hrow, hsome⟩ := List.mem_filterMap.mp hentry
    obtain ⟨ms, hms, rfl⟩ := Option.map_eq_some_iff.mp hsome
    exact ⟨row, hrow, rfl, by rw [hms]; rfl⟩
  · rintro ⟨row, hrow, rfl, hsome⟩
    obtain ⟨ms, hms⟩ := Option.isSome_iff_exists.mp hsome
    exact ⟨_, List.mem_filterMap.mpr ⟨row, hrow, by rw [hms]; rfl⟩, rfl⟩

/-- **The aggregation**: a row for each timeseries of the day, its readings divided by the clock
hour in which they fall. -/
theorem aggregatePollutantRows_eq (startMs : ℤ) (pollutantCode : String)
    (rows : List R2ObservationRow) (minValidHoursPerDay : ℤ) :
    aggregatePollutantRows host startMs pollutantCode rows minValidHoursPerDay
      = (sortBy compare (dayTimeseries host startMs pollutantCode rows)).map fun timeseriesId ↦
          roundedRow (floorTo hourMs) minValidHoursPerDay timeseriesId
            (validReadings host startMs pollutantCode timeseriesId rows) := by
  let hoursOf := fun timeseriesId : ℤ ↦ groupFold (fun reading : ℤ × ℚ ↦ clockHour reading.1) ⟨0, 0⟩
    tally (validReadings host startMs pollutantCode timeseriesId rows)
  have hentries : (hourlyBuckets host startMs pollutantCode rows).entries
      = (dayTimeseries host startMs pollutantCode rows).map fun id ↦ (id, hoursOf id) := by
    rw [dayTimeseries, hourlyBuckets_eq, entries_groupFold]
    simp only [foldl_countReading, hoursOf]
  have hsort : sortBy (fun left right ↦ compare left.1 right.1)
      ((dayTimeseries host startMs pollutantCode rows).map fun id ↦ (id, hoursOf id))
        = (sortBy compare (dayTimeseries host startMs pollutantCode rows)).map
            fun id ↦ (id, hoursOf id) :=
    sortBy_map (fun id ↦ (id, hoursOf id)) (fun _ _ ↦ rfl) _
  rw [aggregatePollutantRows, hentries, hsort, List.map_map]
  refine List.map_congr_left fun timeseriesId _ ↦ ?_
  exact (preparedDailyRow_groupFold _ _ _).trans (roundedRow_congr (sameDivision_clockHour _) _ _)

theorem mem_aggregatePollutantRows {startMs : ℤ} {pollutantCode : String}
    {rows : List R2ObservationRow} {minValidHoursPerDay : ℤ} {row : PreparedDailyRow} :
    row ∈ aggregatePollutantRows host startMs pollutantCode rows minValidHoursPerDay ↔
      ∃ timeseriesId ∈ dayTimeseries host startMs pollutantCode rows,
        roundedRow (floorTo hourMs) minValidHoursPerDay timeseriesId
          (validReadings host startMs pollutantCode timeseriesId rows) = row := by
  rw [aggregatePollutantRows_eq, List.mem_map]
  simp only [mem_sortBy]

theorem dayTimeseries_perm_of_mem_iff {startMs : ℤ} {pollutantCode : String}
    {rows rows' : List R2ObservationRow}
    (h : ∀ id, id ∈ dayTimeseries host startMs pollutantCode rows ↔
      id ∈ dayTimeseries host startMs pollutantCode rows') :
    (dayTimeseries host startMs pollutantCode rows).Perm
      (dayTimeseries host startMs pollutantCode rows') :=
  (List.perm_ext_iff_of_nodup (OrderedMap.nodup_keys _) (OrderedMap.nodup_keys _)).mpr h

theorem dayTimeseries_perm (startMs : ℤ) (pollutantCode : String)
    {rows rows' : List R2ObservationRow} (h : rows.Perm rows') :
    (dayTimeseries host startMs pollutantCode rows).Perm
      (dayTimeseries host startMs pollutantCode rows') :=
  dayTimeseries_perm_of_mem_iff host fun id ↦ by
    rw [dayTimeseries_mem, dayTimeseries_mem]
    simp only [h.mem_iff]

theorem aggregatePollutantRows_perm (startMs : ℤ) (pollutantCode : String)
    {rows rows' : List R2ObservationRow} (h : rows.Perm rows') (minValidHoursPerDay : ℤ) :
    aggregatePollutantRows host startMs pollutantCode rows minValidHoursPerDay
      = aggregatePollutantRows host startMs pollutantCode rows' minValidHoursPerDay := by
  have hsort : sortBy compare (dayTimeseries host startMs pollutantCode rows)
      = sortBy compare (dayTimeseries host startMs pollutantCode rows') :=
    Sorting.sortBy_eq_of_perm (dayTimeseries_perm host _ _ h) fun _ _ _ _ ↦ compare_eq_iff_eq.mp
  rw [aggregatePollutantRows_eq, aggregatePollutantRows_eq, hsort]
  exact List.map_congr_left fun id _ ↦ roundedRow_perm _ _ _ (h.filterMap _)

/-! ## When the two rows agree -/

/-- As many hours with a reading on them have one in the hour after as have one in the hour
before. -/
def Balanced (instants : List ℤ) : Prop :=
  (exactly hourMs instants ∩ within hourMs instants).card
    = (exactly hourMs instants ∩ endingIn hourMs instants).card

/-- No reading on the hour has another one less than an hour from it, or the difference neither
shows in the number of the hours nor in a mean, as there are too few of them. -/
def HoursAgree (minValidHoursPerDay startMs : ℤ) (readings : List (ℤ × ℚ)) : Prop :=
  Apart hourMs (readings.map Prod.fst) ∨
    Balanced (readings.map Prod.fst) ∧ (validHours startMs readings).card < minValidHoursPerDay

theorem buckets_fst (round : ℤ → ℤ) (readings : List (ℤ × ℚ)) :
    buckets (fun reading ↦ round reading.1) readings = buckets round (readings.map Prod.fst) := by
  rw [buckets, buckets, List.map_map]
  rfl

theorem hourMs_pos : 0 < hourMs := by decide

theorem validHourCount_eq_iff {day : ℤ} {readings : List (ℤ × ℚ)}
    (h : InDay (day * dayMs) readings) (minValidHoursPerDay timeseriesId : ℤ) :
    (roundedRow (floorTo hourMs) minValidHoursPerDay timeseriesId readings).validHourCount
        = (hourEndingRow minValidHoursPerDay (day * dayMs) timeseriesId readings).validHourCount ↔
      Balanced (readings.map Prod.fst) := by
  rw [hourEndingRow_eq h, roundedRow, roundedRow, buckets_fst, buckets_fst]
  exact card_buckets_eq_iff hourMs_pos

theorem card_validHours {day : ℤ} {readings : List (ℤ × ℚ)} (h : InDay (day * dayMs) readings) :
    (validHours (day * dayMs) readings).card
      = (buckets (ceilTo hourMs) (readings.map Prod.fst)).card := by
  rw [validHours_eq h, card_buckets_of_sameDivision (sameDivision_sub _ _ _), buckets_fst]

theorem roundedRow_eq_of_hoursAgree {day minValidHoursPerDay : ℤ} {readings : List (ℤ × ℚ)}
    (h : InDay (day * dayMs) readings)
    (hagree : HoursAgree minValidHoursPerDay (day * dayMs) readings) (timeseriesId : ℤ) :
    roundedRow (floorTo hourMs) minValidHoursPerDay timeseriesId readings
      = hourEndingRow minValidHoursPerDay (day * dayMs) timeseriesId readings := by
  rw [hourEndingRow_eq h]
  rcases hagree with hapart | ⟨hbalanced, hfew⟩
  · refine roundedRow_congr (fun a ha b hb ↦ ?_) _ _
    exact sameDivision_of_apart hourMs_pos hapart _ (List.mem_map_of_mem ha) _
      (List.mem_map_of_mem hb)
  · have hcard := (card_buckets_eq_iff hourMs_pos).mpr hbalanced
    rw [card_validHours h] at hfew
    rw [roundedRow, roundedRow, buckets_fst, buckets_fst, hcard, if_neg (by omega),
      if_neg (by omega)]

theorem meanOfMeans_instants (round : ℤ → ℤ) (value : ℤ → ℚ) (instants : List ℤ) :
    meanOfMeans (fun reading ↦ round reading.1) Prod.snd (instants.map fun ms ↦ (ms, value ms))
      = meanOfMeans round value instants := by
  have hbucket : ∀ k, (bucket (fun reading : ℤ × ℚ ↦ round reading.1)
      (instants.map fun ms ↦ (ms, value ms)) k).map Prod.snd
        = (bucket round instants k).map value := by
    intro k
    rw [bucket, bucket, List.filter_map, List.map_map]
    rfl
  have hbuckets : buckets (fun reading : ℤ × ℚ ↦ round reading.1)
      (instants.map fun ms ↦ (ms, value ms)) = buckets round instants := by
    rw [buckets, buckets, List.map_map]
    rfl
  rw [meanOfMeans, meanOfMeans, hbuckets]
  simp only [hbucket]

/-- **Readings that show the difference**: unless the hours agree, some values at the same instants
give a row that is not the row of the hour-ending hours. -/
theorem exists_roundedRow_ne {day minValidHoursPerDay : ℤ} {readings : List (ℤ × ℚ)}
    (h : InDay (day * dayMs) readings)
    (hagree : ¬HoursAgree minValidHoursPerDay (day * dayMs) readings) :
    ∃ value : ℤ → ℚ, (∀ ms, 0 ≤ value ms) ∧ ∀ timeseriesId,
      roundedRow (floorTo hourMs) minValidHoursPerDay timeseriesId
          (readings.map fun reading ↦ (reading.1, value reading.1))
        ≠ hourEndingRow minValidHoursPerDay (day * dayMs) timeseriesId
            (readings.map fun reading ↦ (reading.1, value reading.1)) := by
  let instants := readings.map Prod.fst
  have hmap : ∀ value : ℤ → ℚ, (readings.map fun reading ↦ (reading.1, value reading.1))
      = instants.map fun ms ↦ (ms, value ms) := fun value ↦ by
    rw [List.map_map]
    rfl
  have hday : ∀ value : ℤ → ℚ, InDay (day * dayMs) (instants.map fun ms ↦ (ms, value ms)) := by
    intro value reading hreading
    obtain ⟨ms, hms, rfl⟩ := List.mem_map.mp hreading
    obtain ⟨reading', hreading', rfl⟩ := List.mem_map.mp hms
    exact h reading' hreading'
  have hfst : ∀ value : ℤ → ℚ, (instants.map fun ms ↦ (ms, value ms)).map Prod.fst = instants :=
    fun value ↦ by rw [List.map_map]; exact List.map_id' _
  simp only [hmap]
  by_cases hbalanced : Balanced instants
  · have hcard := (card_buckets_eq_iff hourMs_pos).mpr hbalanced
    have hapart : ¬Apart hourMs instants := fun hapart ↦ hagree (Or.inl hapart)
    have hmany : minValidHoursPerDay ≤ (buckets (ceilTo hourMs) instants).card := by
      rw [← card_validHours h]
      exact not_lt.mp fun hfew ↦ hagree (Or.inr ⟨hbalanced, hfew⟩)
    -- Either rounding may be the one with the smaller bucket.
    obtain ⟨value, hnonneg, hne⟩ : ∃ value : ℤ → ℚ, (∀ ms, 0 ≤ value ms) ∧
        meanOfMeans (floorTo hourMs) value instants
          ≠ meanOfMeans (ceilTo hourMs) value instants := by
      have hindicator : ∀ (key : ℤ → ℤ) (k ms : ℤ), (0 : ℚ) ≤ indicator key k ms := by
        intro key k ms
        rw [indicator]
        split <;> norm_num
      rcases hasProperPart_of_not_apart hourMs_pos hapart with
        ⟨k, hk, k', hpart, hproper⟩ | ⟨k, hk, k', hpart, hproper⟩
      · exact ⟨_, hindicator _ k, exists_meanOfMeans_ne hpart hk hproper hcard⟩
      · exact ⟨_, hindicator _ k, (exists_meanOfMeans_ne hpart hk hproper hcard.symm).symm⟩
    refine ⟨value, hnonneg, fun timeseriesId heq ↦ hne ?_⟩
    rw [hourEndingRow_eq (hday value)] at heq
    have hmean := congrArg PreparedDailyRow.dailyMeanUgm3 heq
    simp only [roundedRow, buckets_fst, hfst, hcard, if_pos hmany, meanOfMeans_instants,
      Option.some.injEq] at hmean
    exact hmean
  · refine ⟨fun _ ↦ 0, fun _ ↦ le_rfl, fun timeseriesId heq ↦ hbalanced ?_⟩
    have hcount := congrArg PreparedDailyRow.validHourCount heq
    rw [validHourCount_eq_iff (hday _), hfst] at hcount
    exact hcount

end UkAqOps.WhoDaily

import UkAqOps.Js.Date
import UkAqOps.Lib.Except
import UkAqOps.Lib.OrderedMap
import UkAqOps.Lib.Sort
import Mathlib.Algebra.Order.Ring.Rat

/-!
# The daily rows of the WHO worker

`src/workers/uk_aq_who_2021_daily/r2_observations.ts`: the worker reads the stored partition of a
day and the readings at its closing midnight, averages the readings of each timeseries hour by
hour, and publishes the mean of the hourly means when enough hours have a reading.

What the manifests of a partition lead to, its parquet files with their decoded rows, is a
parameter, as are `toLowerCase` and `Date.parse`.
-/

namespace UkAqOps.WhoDaily

open Sorting

structure Host where
  toLowerCase : String → String
  dateParse : String → Option ℤ

/-! ## Rows -/

/-- The cells of a stored row, each `none` where the source would reject it: an identifier that is
no safe integer, a timestamp without a date, a value that is no finite number. -/
structure StoredRow where
  connectorId : Option ℤ
  /-- `none` for a null cell. -/
  stationId : Option (Option ℤ)
  timeseriesId : Option ℤ
  pollutantCode : String
  observedAtUtc : Option String
  value : Option ℚ

structure R2ObservationRow where
  connectorId : ℤ
  stationId : Option ℤ
  timeseriesId : ℤ
  pollutantCode : String
  observedAtUtc : String
  /-- `none` for null, and for a value that is not finite. -/
  value : Option ℚ
  deriving DecidableEq

structure ParquetFile where
  key : String
  rows : List StoredRow

/-- The files that the validated manifests of a day, a connector and a pollutant lead to, each read
or with the error of reading it. -/
abbrev PartitionFiles := String → ℤ → String → Except String (List (Except String ParquetFile))

structure PreparedDailyRow where
  timeseriesId : ℤ
  validHourCount : ℕ
  dailyMeanUgm3 : Option ℚ
  deriving DecidableEq

structure R2PreparedDay where
  dayUtc : String
  preparedRows : List PreparedDailyRow
  validPreparedRows : ℕ
  insufficientPreparedRows : ℕ
  deriving DecidableEq

/-! ## Reading a partition -/

def isIsoDayText (day : String) : Bool :=
  match day.toList with
  | [y₁, y₂, y₃, y₄, '-', m₁, m₂, '-', d₁, d₂] =>
    [y₁, y₂, y₃, y₄, m₁, m₂, d₁, d₂].all Char.isDigit
  | _ => false

/-- The number of the day that a text names. -/
def assertIsoDay (day label : String) : Except String ℤ := do
  Except.refuseIf (isIsoDayText day = false) (label ++ " must be YYYY-MM-DD")
  match parseIsoDay day with
  | none => .error (label ++ " is not a valid UTC day")
  | some number => .ok number

variable (host : Host)

/-- The identity and the timestamp of a row are those of its partition. -/
def checkedRow (day connectorId : ℤ) (pollutantCode : String) (row : StoredRow) :
    Option R2ObservationRow := do
  let timeseriesId ← row.timeseriesId
  let observedAtUtc ← row.observedAtUtc
  let partitionStart := day * dayMs
  let inPartition := (host.dateParse observedAtUtc).all fun ms ↦
    decide (partitionStart ≤ ms) && decide (ms < partitionStart + dayMs)
  let stationValid := row.stationId.all fun station ↦ station.any fun id ↦ decide (0 < id)
  if row.connectorId = some connectorId ∧ stationValid = true ∧ 0 < timeseriesId ∧
      row.pollutantCode = pollutantCode ∧ inPartition = true then
    some ⟨connectorId, row.stationId.bind id, timeseriesId, pollutantCode, observedAtUtc, row.value⟩
  else none

def readRow (day connectorId : ℤ) (pollutantCode key : String) (entry : StoredRow × ℕ) :
    Except String R2ObservationRow :=
  match checkedRow host day connectorId pollutantCode entry.1 with
  | none => .error (s!"Invalid identity/timestamp in {key} row {entry.2}")
  | some checked => .ok checked

def readParquetRows (day connectorId : ℤ) (pollutantCode : String) (file : ParquetFile) :
    Except String (List R2ObservationRow) :=
  file.rows.zipIdx.mapM (readRow host day connectorId pollutantCode file.key)

def readValidatedObservationPollutantPartition (files : PartitionFiles) (dayUtc : String)
    (connectorId : ℤ) (pollutantCode : String) : Except String (List R2ObservationRow) := do
  let day ← assertIsoDay dayUtc "dayUtc"
  let pollutantCode := host.toLowerCase (trimText pollutantCode)
  Except.refuseIf (pollutantCode ∉ ["pm25", "pm10", "no2"])
    ("Unsupported WHO pollutant: " ++ pollutantCode)
  let files ← files dayUtc connectorId pollutantCode
  let rows ← files.mapM fun file ↦ do
    readParquetRows host day connectorId pollutantCode (← file)
  return rows.flatten

/-! ## Aggregation -/

structure HourBucket where
  sum : ℚ
  count : ℕ

/-- The instant of a row of the pollutant that lies after the start of the day and not after its
end. -/
def observedInDay (startMs : ℤ) (pollutantCode : String) (row : R2ObservationRow) : Option ℤ :=
  (host.dateParse row.observedAtUtc).filter fun observedMs ↦
    decide (startMs < observedMs) && decide (observedMs ≤ startMs + dayMs) &&
      decide (row.pollutantCode = pollutantCode)

/-- Count a value into its hour, unless it is no valid reading. -/
def countReading (hours : OrderedMap ℤ HourBucket) (observedMs : ℤ) (value : Option ℚ) :
    OrderedMap ℤ HourBucket :=
  match value.filter fun value ↦ decide (0 ≤ value) with
  | none => hours
  | some value =>
    let hour := observedMs / hourMs * hourMs
    let bucket := (hours.get? hour).getD ⟨0, 0⟩
    hours.set hour ⟨bucket.sum + value, bucket.count + 1⟩

/-- The readings of each timeseries by hour. -/
def hourlyBuckets (startMs : ℤ) (pollutantCode : String) (rows : List R2ObservationRow) :
    OrderedMap ℤ (OrderedMap ℤ HourBucket) :=
  rows.foldl (fun hourly row ↦
    match observedInDay host startMs pollutantCode row with
    | none => hourly
    | some observedMs =>
      let timeseriesHours := (hourly.get? row.timeseriesId).getD OrderedMap.empty
      hourly.set row.timeseriesId (countReading timeseriesHours observedMs row.value))
    OrderedMap.empty

def preparedDailyRow (minValidHoursPerDay : ℤ) (timeseriesId : ℤ)
    (hours : OrderedMap ℤ HourBucket) : PreparedDailyRow :=
  let hourlyMeans := hours.values.map fun hour ↦ hour.sum / (hour.count : ℚ)
  let validHourCount := hourlyMeans.length
  { timeseriesId := timeseriesId
    validHourCount := validHourCount
    dailyMeanUgm3 :=
      if minValidHoursPerDay ≤ validHourCount then
        some (hourlyMeans.foldl (· + ·) 0 / (validHourCount : ℚ))
      else none }

def aggregatePollutantRows (startMs : ℤ) (pollutantCode : String) (rows : List R2ObservationRow)
    (minValidHoursPerDay : ℤ) : List PreparedDailyRow :=
  (sortBy (fun left right ↦ compare left.1 right.1)
    (hourlyBuckets host startMs pollutantCode rows).entries).map
    fun (timeseriesId, hours) ↦ preparedDailyRow minValidHoursPerDay timeseriesId hours

/-! ## Preparing a day -/

structure PrepareArgs where
  dayUtc : String
  connectorId : ℤ
  pollutantCodes : List String
  minValidHoursPerDay : ℤ
  /-- The rows of the closing midnight, where they do not come from the store. -/
  boundaryRows : Option (List R2ObservationRow)

def normalizedPollutants (args : PrepareArgs) : List String :=
  (args.pollutantCodes.map fun code ↦ host.toLowerCase (trimText code)).eraseDups

/-- The text of the day after a day. -/
def boundaryDay (day : ℤ) : String := isoDay (day + 1)

def boundaryIdentity (row : R2ObservationRow) : String :=
  s!"{row.connectorId}:{row.timeseriesId}:{row.pollutantCode}:{row.observedAtUtc}"

/-- The loop over the boundary rows, with the identities that were seen. -/
def checkBoundaryRows (connectorId : ℤ) (boundaryAt : String) (pollutants : List String) :
    List String → List (R2ObservationRow × ℕ) → Except String Unit
  | _, [] => .ok ()
  | identities, (row, index) :: rest => do
    Except.refuseIf (row.connectorId ≠ connectorId ∨ row.observedAtUtc ≠ boundaryAt ∨
        row.pollutantCode ∉ pollutants)
      (s!"Invalid Obs AQI DB boundary row {index} for {boundaryAt}")
    let identity := boundaryIdentity row
    Except.refuseIf (identity ∈ identities) ("Duplicate Obs AQI DB boundary row: " ++ identity)
    checkBoundaryRows connectorId boundaryAt pollutants (identity :: identities) rest

/-- `throw new Error` with the start of the error that was caught behind a text. -/
def withContext {α : Type} (text : String) : Except String α → Except String α
  | .ok value => .ok value
  | .error message => .error (text ++ takeText message 320)

/-- The rows of a pollutant at the closing midnight and after it. -/
def boundaryRowsOf (files : PartitionFiles) (args : PrepareArgs) (day : ℤ)
    (pollutantCode : String) : Except String (List R2ObservationRow) :=
  match args.boundaryRows with
  | some rows => .ok (rows.filter fun row ↦ decide (row.pollutantCode = pollutantCode))
  | none => withContext
      (s!"WHO D+1 boundary partition {boundaryDay day} missing or incomplete for {pollutantCode}: ")
      (readValidatedObservationPollutantPartition host files (boundaryDay day) args.connectorId
        pollutantCode)

/-- The rows of a pollutant that the day is prepared from. -/
def sourceRows (files : PartitionFiles) (args : PrepareArgs) (day : ℤ) (pollutantCode : String) :
    Except String (List R2ObservationRow) := do
  let dayRows ← withContext
    (s!"WHO source partition {args.dayUtc} missing or incomplete for {pollutantCode}: ")
    (readValidatedObservationPollutantPartition host files args.dayUtc args.connectorId
      pollutantCode)
  let boundaryRows ← boundaryRowsOf host files args day pollutantCode
  return dayRows ++ boundaryRows

/-- The loop that adds the rows of a pollutant, with the timeseries that were seen. -/
def addPreparedRows : List ℤ × List PreparedDailyRow → List PreparedDailyRow →
    Except String (List ℤ × List PreparedDailyRow)
  | state, [] => .ok state
  | (seenTimeseries, preparedRows), row :: rest => do
    Except.refuseIf (row.timeseriesId ∈ seenTimeseries)
      (s!"Contradictory prepared rows for timeseries_id {row.timeseriesId}")
    addPreparedRows (row.timeseriesId :: seenTimeseries, preparedRows ++ [row]) rest

def preparePollutants (files : PartitionFiles) (args : PrepareArgs) (day : ℤ)
    (pollutants : List String) : Except String (List ℤ × List PreparedDailyRow) :=
  pollutants.foldlM (fun state pollutantCode ↦ do
    let rows ← sourceRows host files args day pollutantCode
    addPreparedRows state
      (aggregatePollutantRows host (day * dayMs) pollutantCode rows args.minValidHoursPerDay))
    ([], [])

def prepareWhoDailyRowsFromR2 (files : PartitionFiles) (args : PrepareArgs) :
    Except String R2PreparedDay := do
  let day ← assertIsoDay args.dayUtc "dayUtc"
  Except.refuseIf (args.minValidHoursPerDay < 1 ∨ args.minValidHoursPerDay > 24)
    "minValidHoursPerDay must be between 1 and 24"
  let pollutants := normalizedPollutants host args
  let requiredPollutants := ["pm25", "pm10", "no2"]
  Except.refuseIf (pollutants.length ≠ requiredPollutants.length ∨
      ∃ code ∈ requiredPollutants, code ∉ pollutants)
    "R2 WHO processing requires exactly pm25, pm10 and no2"
  checkBoundaryRows args.connectorId (boundaryDay day ++ "T00:00:00.000Z") pollutants []
    (args.boundaryRows.getD []).zipIdx
  let (_, preparedRows) ← preparePollutants host files args day pollutants
  let preparedRows := sortBy (fun left right ↦ compare left.timeseriesId right.timeseriesId)
    preparedRows
  Except.refuseIf (preparedRows.length > 2000)
    (s!"Prepared row payload has {preparedRows.length} rows; max 2000")
  return {
    dayUtc := args.dayUtc
    preparedRows := preparedRows
    validPreparedRows := preparedRows.countP fun row ↦ row.dailyMeanUgm3.isSome
    insufficientPreparedRows := preparedRows.countP fun row ↦ row.dailyMeanUgm3.isNone }

end UkAqOps.WhoDaily

import UkAqOps.Js.DateOrder
import UkAqOps.Lib.OrderedMap
import UkAqOps.Lib.Sort

/-!
# Air quality levels from observations

`src/lib/aqi/aqi_levels.mjs`: observations are deduplicated, averaged by hour, laid on an hourly
grid, averaged again over 24 hours for particulates, and looked up in the breakpoints of the two
indices. Every sort is by a comparator, every grouping is a map under a key.

Timestamps are instants; they are compared as the ISO texts that the source compares. Ids are what
`Number(...)` gives, `none` when that is no integer, and a value is `none` when it is missing or not
a finite number. The floating-point operations are those of a type of numbers that is left open.
-/

namespace UkAqOps.Aqi

open Sorting

/-- The floating-point numbers, as far as the levels compute with them. -/
class Numeric (ν : Type) where
  zero : ν
  add : ν → ν → ν
  div : ν → ν → ν
  ofNat : ℕ → ν
  isFinite : ν → Bool
  lt : ν → ν → Bool
  le : ν → ν → Bool

/-- `Date.parse`, and `localeCompare` on the characters of two texts, which is a total preorder that
tells timestamps apart. -/
structure Host where
  dateParse : String → Option ℤ
  localeCompare : List Char → List Char → Ordering
  transCmp : Std.TransCmp localeCompare
  eq_of_compare : ∀ a b : ℤ, PlainYear (a / dayMs) → PlainYear (b / dayMs) →
    localeCompare (isoChars a) (isoChars b) = .eq → a = b

variable {ν : Type} [Numeric ν]

/-! ## Normalizing -/

inductive Pollutant where
  | no2
  | pm25
  | pm10
deriving DecidableEq

/-- The lower-case letters and digits of a code. The capital I with a dot and the Kelvin sign are the
characters outside ASCII that lower-case to one. -/
def compactCode (value : String) : String :=
  String.ofList ((value.toList.map fun c ↦
      if c = '\u0130' then 'i' else if c = '\u212a' then 'k' else c.toLower).filter
    fun c ↦ c.isDigit || ('a' ≤ c && c ≤ 'z'))

def normalizePollutantCode (value : String) : Option Pollutant :=
  let compact := compactCode value
  if compact = "ino2" ∨ compact = "no2" then some .no2
  else if compact = "ipm25" ∨ compact = "pm25" ∨ compact = "pm2" then some .pm25
  else if compact = "ipm10" ∨ compact = "pm10" then some .pm10
  else none

def normalizeIsoTimestamp (host : Host) (raw : String) : Option ℤ :=
  let text := trimText raw
  if text = "" then none else host.dateParse text

/-- `parseIsoHour` of an instant. -/
def hourOf (instant : ℤ) : ℤ := instant / hourMs * hourMs

def toPositiveIntOrNull (value : Option ℤ) : Option ℤ := value.filter (0 < ·)

/-- `toNumberOrNull` of a number or null. -/
def toNumberOrNull (value : Option ν) : Option ν := value.filter Numeric.isFinite

/-- `values.reduce((sum, value) => sum + value, 0)`. -/
def sumOf (values : List ν) : ν := values.foldl Numeric.add Numeric.zero

def average (values : List ν) : Option ν :=
  if values = [] then none else some (Numeric.div (sumOf values) (Numeric.ofNat values.length))

/-! ## Observations -/

/-- A row as it is passed in. -/
structure SourceRow (ν : Type) where
  timeseriesId : Option ℤ
  stationId : Option ℤ
  connectorId : Option ℤ := none
  pollutantCode : String
  observedAt : String := ""
  observedAtUtc : String := ""
  value : Option ν
  status : Option String := none

/-- An observation that is kept. -/
structure Observation (ν : Type) where
  timeseriesId : ℤ
  stationId : ℤ
  connectorId : Option ℤ
  pollutantCode : Pollutant
  observedAt : ℤ
  value : ν
  status : Option String

/-- The body of the loop of `dedupeSourceObservationRows`: a row that fails a check is skipped. -/
def SourceRow.observation (host : Host) (row : SourceRow ν) : Option (Observation ν) := do
  let timeseriesId ← toPositiveIntOrNull row.timeseriesId
  let stationId ← toPositiveIntOrNull row.stationId
  let pollutantCode ← normalizePollutantCode row.pollutantCode
  let observedAt ← (normalizeIsoTimestamp host row.observedAt).or
    (normalizeIsoTimestamp host row.observedAtUtc)
  let value ← row.value
  if Numeric.lt value Numeric.zero then none
  else some {
    timeseriesId, stationId, pollutantCode, observedAt, value
    connectorId := toPositiveIntOrNull row.connectorId
    status := row.status }

/-- By timeseries, then by the text of the instant. -/
def compareObservations (host : Host) (left right : Observation ν) : Ordering :=
  (compare left.timeseriesId right.timeseriesId).then
    (host.localeCompare (isoChars left.observedAt) (isoChars right.observedAt))

def dedupeSourceObservationRows (host : Host) (rows : List (SourceRow ν)) : List (Observation ν) :=
  let byKey := OrderedMap.collect (fun row : Observation ν ↦ (row.timeseriesId, row.observedAt))
    (fun _ row ↦ row) (rows.filterMap (SourceRow.observation host))
  sortBy (compareObservations host) byKey.values

/-! ## Hourly means -/

structure NarrowRow (ν : Type) where
  timeseriesId : ℤ
  stationId : ℤ
  connectorId : Option ℤ
  pollutantCode : Pollutant
  timestampHourUtc : ℤ
  hourlyMean : Option ν
  sampleCount : Option ℕ

/-- The running sum and count of an hour. -/
structure HourTotal (ν : Type) where
  timeseriesId : ℤ
  stationId : ℤ
  connectorId : Option ℤ
  pollutantCode : Pollutant
  timestampHourUtc : ℤ
  sum : ν
  count : ℕ

/-- The total that a first observation opens. -/
def HourTotal.open (row : Observation ν) : HourTotal ν :=
  { timeseriesId := row.timeseriesId
    stationId := row.stationId
    connectorId := row.connectorId
    pollutantCode := row.pollutantCode
    timestampHourUtc := hourOf row.observedAt
    sum := Numeric.zero
    count := 0 }

def HourTotal.add (total : HourTotal ν) (row : Observation ν) : HourTotal ν :=
  { total with sum := Numeric.add total.sum row.value, count := total.count + 1 }

def HourTotal.narrowRow (total : HourTotal ν) : NarrowRow ν :=
  { timeseriesId := total.timeseriesId
    stationId := total.stationId
    connectorId := total.connectorId
    pollutantCode := total.pollutantCode
    timestampHourUtc := total.timestampHourUtc
    hourlyMean := some (Numeric.div total.sum (Numeric.ofNat total.count))
    sampleCount := some total.count }

def compareNarrowRows (host : Host) (left right : NarrowRow ν) : Ordering :=
  (host.localeCompare (isoChars left.timestampHourUtc) (isoChars right.timestampHourUtc)).then
    (compare left.timeseriesId right.timeseriesId)

def sourceObservationsToNarrowRows (host : Host) (rows : List (SourceRow ν)) : List (NarrowRow ν) :=
  let grouped := OrderedMap.collect
    (fun row : Observation ν ↦ (row.timeseriesId, hourOf row.observedAt))
    (fun current row ↦ (current.getD (.open row)).add row) (dedupeSourceObservationRows host rows)
  sortBy (compareNarrowRows host) (grouped.values.map HourTotal.narrowRow)

/-! ## Helper rows -/

/-- A row of the hourly grid. -/
structure HelperRow (ν : Type) where
  timeseriesId : ℤ
  stationId : ℤ
  connectorId : Option ℤ
  pollutantCode : Pollutant
  timestampHourUtc : ℤ
  no2HourlyMean : Option ν := none
  pm25HourlyMean : Option ν := none
  pm10HourlyMean : Option ν := none
  pm25Rolling24hMean : Option ν := none
  pm10Rolling24hMean : Option ν := none
  pm25Rolling24hSampleCount : Option ℕ := none
  pm10Rolling24hSampleCount : Option ℕ := none
  hourlySampleCount : Option ℕ := none
  syntheticHour : Bool := false

/-- Two timestamps compared by `<` and `>`. -/
def compareTimestamps (left right : ℤ) : Ordering :=
  if textLt (isoChars left) (isoChars right) then .lt
  else if textLt (isoChars right) (isoChars left) then .gt
  else .eq

/-- The comparator of `sortHelperRows`. -/
def compareHelperRows (left right : HelperRow ν) : Ordering :=
  (compareTimestamps left.timestampHourUtc right.timestampHourUtc).then
    (compare left.timeseriesId right.timeseriesId)

def sortHelperRows (rows : List (HelperRow ν)) : List (HelperRow ν) := sortBy compareHelperRows rows

def groupByTimeseries (rows : List (HelperRow ν)) : OrderedMap ℤ (List (HelperRow ν)) :=
  .collect HelperRow.timeseriesId (fun list row ↦ list.getD [] ++ [row]) rows

/-- The instants of `for (cursor = startMs; cursor < endExclusiveMs; cursor += HOUR_MS)`. -/
def hourCursors (startMs endExclusiveMs : ℤ) : List ℤ :=
  (List.range ((endExclusiveMs - startMs + hourMs - 1) / hourMs).toNat).map
    fun i : ℕ ↦ startMs + i * hourMs

/-- The hour that fills a gap of a series. -/
def HelperRow.gap (template : HelperRow ν) (hour : ℤ) : HelperRow ν :=
  { timeseriesId := template.timeseriesId
    stationId := template.stationId
    connectorId := template.connectorId
    pollutantCode := template.pollutantCode
    timestampHourUtc := hour
    syntheticHour := true }

/-- The observed row of an hour, or a synthetic one. -/
def gridRow (rowsByHour : OrderedMap ℤ (HelperRow ν)) (template : HelperRow ν) (hour : ℤ) :
    HelperRow ν :=
  match rowsByHour.get? hour with
  | some existing => { existing with syntheticHour := false }
  | none => template.gap hour

/-- One series of `expandPmHelperRowsToHourlyGrid`. -/
def expandSeries (rows : List (HelperRow ν)) : List (HelperRow ν) :=
  match sortHelperRows rows with
  | [] => []
  | template :: rest =>
    let rows := template :: rest
    if template.pollutantCode = .no2 then rows
    else
      let rowsByHour := OrderedMap.ofList (rows.map fun row ↦ (row.timestampHourUtc, row))
      let last := rows.getLast (List.cons_ne_nil template rest)
      (hourCursors template.timestampHourUtc (last.timestampHourUtc + hourMs)).map
        (gridRow rowsByHour template)

def expandPmHelperRowsToHourlyGrid (helperRows : List (HelperRow ν)) : List (HelperRow ν) :=
  sortHelperRows ((groupByTimeseries helperRows).values.flatMap expandSeries)

/-- The helper row that a first narrow row opens. -/
def HelperRow.open (row : NarrowRow ν) : HelperRow ν :=
  { timeseriesId := row.timeseriesId
    stationId := row.stationId
    connectorId := row.connectorId
    pollutantCode := row.pollutantCode
    timestampHourUtc := row.timestampHourUtc }

/-- Write the mean of a narrow row in the column of its pollutant. -/
def HelperRow.write (current : HelperRow ν) (row : NarrowRow ν) : HelperRow ν :=
  let hourlyMean := toNumberOrNull row.hourlyMean
  let current := { current with hourlySampleCount := row.sampleCount }
  match row.pollutantCode with
  | .no2 => { current with no2HourlyMean := hourlyMean }
  | .pm25 => { current with pm25HourlyMean := hourlyMean }
  | .pm10 => { current with pm10HourlyMean := hourlyMean }

/-- `values.length || null`. -/
def countOrNull (values : List ν) : Option ℕ := if values.length = 0 then none else some values.length

/-- The 24-hour means of a row; `before` is the row and those before it, nearest first. -/
def HelperRow.rolled (row : HelperRow ν) (before : List (HelperRow ν)) : HelperRow ν :=
  let window := before.takeWhile fun previous ↦
    (row.timestampHourUtc - previous.timestampHourUtc).tdiv hourMs < 24
  let pm25Values := window.filterMap HelperRow.pm25HourlyMean
  let pm10Values := window.filterMap HelperRow.pm10HourlyMean
  { row with
    pm25Rolling24hMean := average pm25Values
    pm10Rolling24hMean := average pm10Values
    pm25Rolling24hSampleCount := countOrNull pm25Values
    pm10Rolling24hSampleCount := countOrNull pm10Values }

/-- The rows of a series, each with its means. -/
def rollSeries (before : List (HelperRow ν)) : List (HelperRow ν) → List (HelperRow ν)
  | [] => []
  | row :: rest => row.rolled (row :: before) :: rollSeries (row :: before) rest

/-- The rows are updated in place in an array that is sorted, so sorting them restores its order. -/
def computeRolling24h (helperRows : List (HelperRow ν)) : List (HelperRow ν) :=
  sortHelperRows ((groupByTimeseries helperRows).values.flatMap fun rows ↦
    rollSeries [] (sortHelperRows rows))

def pivotNarrowRowsToHelperRows (narrowRows : List (NarrowRow ν)) : List (HelperRow ν) :=
  let byKey := OrderedMap.collect (fun row : NarrowRow ν ↦ (row.timeseriesId, row.timestampHourUtc))
    (fun current row ↦ (current.getD (.open row)).write row) narrowRows
  computeRolling24h (expandPmHelperRowsToHourlyGrid (sortHelperRows byKey.values))

/-! ## Days -/

def utcDayStartIso (dayUtc : ℤ) : List Char := isoDayChars dayUtc ++ "T00:00:00.000Z".toList

def utcDayEndIso (dayUtc : ℤ) : List Char := isoChars ((dayUtc + 1) * dayMs)

def narrowRowsToDayRange (helperRows : List (HelperRow ν)) (dayUtc : ℤ) : List (HelperRow ν) :=
  sortHelperRows (helperRows.filter fun row ↦
    !textLt (isoChars row.timestampHourUtc) (utcDayStartIso dayUtc) &&
      textLt (isoChars row.timestampHourUtc) (utcDayEndIso dayUtc))

/-! ## Index levels -/

/-- A range of values, open above when `high` is `none`, and its level. -/
structure Breakpoint where
  low : ℕ
  high : Option ℕ
  level : ℕ

def daqiNo2Breakpoints : List Breakpoint :=
  [⟨0, some 67, 1⟩, ⟨67, some 134, 2⟩, ⟨134, some 200, 3⟩, ⟨200, some 267, 4⟩, ⟨267, some 334, 5⟩,
    ⟨334, some 400, 6⟩, ⟨400, some 467, 7⟩, ⟨467, some 534, 8⟩, ⟨534, some 600, 9⟩, ⟨600, none, 10⟩]

def daqiPm25Rolling24hBreakpoints : List Breakpoint :=
  [⟨0, some 11, 1⟩, ⟨11, some 23, 2⟩, ⟨23, some 35, 3⟩, ⟨35, some 41, 4⟩, ⟨41, some 47, 5⟩,
    ⟨47, some 53, 6⟩, ⟨53, some 58, 7⟩, ⟨58, some 64, 8⟩, ⟨64, some 70, 9⟩, ⟨70, none, 10⟩]

def daqiPm10Rolling24hBreakpoints : List Breakpoint :=
  [⟨0, some 16, 1⟩, ⟨16, some 33, 2⟩, ⟨33, some 50, 3⟩, ⟨50, some 58, 4⟩, ⟨58, some 66, 5⟩,
    ⟨66, some 75, 6⟩, ⟨75, some 83, 7⟩, ⟨83, some 91, 8⟩, ⟨91, some 100, 9⟩, ⟨100, none, 10⟩]

def eaqiNo2Breakpoints : List Breakpoint :=
  [⟨0, some 10, 1⟩, ⟨10, some 25, 2⟩, ⟨25, some 60, 3⟩, ⟨60, some 100, 4⟩, ⟨100, some 150, 5⟩,
    ⟨150, none, 6⟩]

def eaqiPm25Breakpoints : List Breakpoint :=
  [⟨0, some 5, 1⟩, ⟨5, some 15, 2⟩, ⟨15, some 50, 3⟩, ⟨50, some 90, 4⟩, ⟨90, some 140, 5⟩,
    ⟨140, none, 6⟩]

def eaqiPm10Breakpoints : List Breakpoint :=
  [⟨0, some 15, 1⟩, ⟨15, some 45, 2⟩, ⟨45, some 120, 3⟩, ⟨120, some 195, 4⟩, ⟨195, some 270, 5⟩,
    ⟨270, none, 6⟩]

def Breakpoint.holds (breakpoint : Breakpoint) (value : ν) : Bool :=
  match breakpoint.high with
  | none => true
  | some high => Numeric.le value (Numeric.ofNat high)

def lookupAqiIndexLevel (value : Option ν) (breakpoints : List Breakpoint) : Option ℕ := do
  let value ← toNumberOrNull value
  let first ← breakpoints.head?
  if Numeric.lt value (Numeric.ofNat first.low) then none
  else
    let breakpoint ← breakpoints.find? fun breakpoint ↦ breakpoint.holds value
    some breakpoint.level

inductive CalculationStatus where
  | ok
  | insufficientSamples
  | missingInput
deriving DecidableEq

inductive AveragingCode where
  | hourlyMean
  | rolling24hMean
deriving DecidableEq

def daqiPmRolling24hRequiredHours : ℕ := 18

def calculationStatus (inputValue : Option ν) (sourceCount : Option ℕ) (requiredCount : ℕ) :
    CalculationStatus × Option String :=
  if toNumberOrNull inputValue |>.isNone then (.missingInput, some "no_input_value")
  else if 1 < requiredCount ∧ sourceCount.getD 0 < requiredCount then
    (.insufficientSamples, some "insufficient_rolling_24h_hours")
  else (.ok, none)

/-- One of the two indices of a row. -/
structure IndexColumns (ν : Type) where
  inputValue : Option ν
  inputAveragingCode : AveragingCode
  indexLevel : Option ℕ
  sourceObservationCount : Option ℕ
  requiredObservationCount : ℕ
  calculationStatus : CalculationStatus
  missingReason : Option String

/-- The level of a value, and why there is none. -/
def indexColumns (inputValue : Option ν) (averagingCode : AveragingCode) (sourceCount : Option ℕ)
    (requiredCount : ℕ) (breakpoints : List Breakpoint) : IndexColumns ν :=
  let status := calculationStatus inputValue sourceCount requiredCount
  let indexLevel := if status.1 = .ok then lookupAqiIndexLevel inputValue breakpoints else none
  let notFound := indexLevel.isNone && status.1 = .ok
  { inputValue
    inputAveragingCode := averagingCode
    indexLevel
    sourceObservationCount := sourceCount
    requiredObservationCount := requiredCount
    calculationStatus := if notFound then .missingInput else status.1
    missingReason := if notFound then some "breakpoint_not_found" else status.2 }

/-- A published row. -/
structure AqiRow (ν : Type) where
  connectorId : Option ℤ
  stationId : Option ℤ
  timeseriesId : Option ℤ
  pollutantCode : Pollutant
  timestampHourUtc : ℤ
  daqi : IndexColumns ν
  eaqi : IndexColumns ν
  hourlySampleCount : Option ℕ
  algorithmVersion : String
  computedAtUtc : Option ℤ
  hourlyMean : Option ν
  rolling24hMean : Option ν

def aqiAlgorithmVersion : String := "aqilevels_hourly_v2"

def helperRowToNormalizedAqiV1Row (host : Host) (computedAtUtc : Option String)
    (row : HelperRow ν) : AqiRow ν :=
  let hourlyMean := toNumberOrNull (match row.pollutantCode with
    | .no2 => row.no2HourlyMean
    | .pm25 => row.pm25HourlyMean
    | .pm10 => row.pm10HourlyMean)
  let rolling24hMean := toNumberOrNull (match row.pollutantCode with
    | .no2 => none
    | .pm25 => row.pm25Rolling24hMean
    | .pm10 => row.pm10Rolling24hMean)
  let rolling24hCount := match row.pollutantCode with
    | .no2 => none
    | .pm25 => row.pm25Rolling24hSampleCount
    | .pm10 => row.pm10Rolling24hSampleCount
  { connectorId := toPositiveIntOrNull row.connectorId
    stationId := toPositiveIntOrNull (some row.stationId)
    timeseriesId := toPositiveIntOrNull (some row.timeseriesId)
    pollutantCode := row.pollutantCode
    timestampHourUtc := hourOf row.timestampHourUtc
    daqi := match row.pollutantCode with
      | .no2 => indexColumns hourlyMean .hourlyMean row.hourlySampleCount 1 daqiNo2Breakpoints
      | .pm25 => indexColumns rolling24hMean .rolling24hMean rolling24hCount
        daqiPmRolling24hRequiredHours daqiPm25Rolling24hBreakpoints
      | .pm10 => indexColumns rolling24hMean .rolling24hMean rolling24hCount
        daqiPmRolling24hRequiredHours daqiPm10Rolling24hBreakpoints
    eaqi := indexColumns hourlyMean .hourlyMean row.hourlySampleCount 1 (match row.pollutantCode with
      | .no2 => eaqiNo2Breakpoints
      | .pm25 => eaqiPm25Breakpoints
      | .pm10 => eaqiPm10Breakpoints)
    hourlySampleCount := row.hourlySampleCount
    algorithmVersion := aqiAlgorithmVersion
    computedAtUtc := computedAtUtc.bind (normalizeIsoTimestamp host)
    hourlyMean
    rolling24hMean }

/-- A row needs its ids; a synthetic hour is published only with a level. -/
def isPublished (helperRow : HelperRow ν) (row : AqiRow ν) : Bool :=
  row.connectorId.isSome && row.stationId.isSome && row.timeseriesId.isSome &&
    (!helperRow.syntheticHour || row.daqi.calculationStatus = .ok)

def compareAqiRows (host : Host) (left right : AqiRow ν) : Ordering :=
  (compare left.timeseriesId right.timeseriesId).then
    (host.localeCompare (isoChars left.timestampHourUtc) (isoChars right.timestampHourUtc))

def helperRowsToNormalizedAqiV1Rows (host : Host) (helperRows : List (HelperRow ν))
    (computedAtUtc : Option String) : List (AqiRow ν) :=
  let pairs := helperRows.map fun helperRow ↦
    (helperRow, helperRowToNormalizedAqiV1Row host computedAtUtc helperRow)
  sortBy (compareAqiRows host) ((pairs.filter fun pair ↦ isPublished pair.1 pair.2).map Prod.snd)

/-! ## Building days -/

/-- The rows of a day, from observations of the day and of the hours before it. -/
def buildAqilevelHistoryRowsForDayFromSourceObservations (host : Host) (rows : List (SourceRow ν))
    (dayUtc : ℤ) (computedAtUtc : Option String) : List (AqiRow ν) :=
  let helperRows := pivotNarrowRowsToHelperRows (sourceObservationsToNarrowRows host rows)
  helperRowsToNormalizedAqiV1Rows host (narrowRowsToDayRange helperRows dayUtc) computedAtUtc

/-- The cursors of the loop over the days; days with four-digit years sort as their texts do. -/
def dayCursors (fromDayUtc toDayUtc : ℤ) : List ℤ :=
  (List.range (toDayUtc - fromDayUtc + 1).toNat).map fun i : ℕ ↦ fromDayUtc + i

/-- The rows of every day of a range, from one list of observations. -/
def buildAqilevelHistoryRowsByDayFromSourceObservations (host : Host) (rows : List (SourceRow ν))
    (fromDayUtc toDayUtc : ℤ) (computedAtUtc : Option String) : List (ℤ × List (AqiRow ν)) :=
  let helperRows := pivotNarrowRowsToHelperRows (sourceObservationsToNarrowRows host rows)
  (dayCursors fromDayUtc toDayUtc).map fun cursor ↦
    (cursor, helperRowsToNormalizedAqiV1Rows host (narrowRowsToDayRange helperRows cursor)
      computedAtUtc)

end UkAqOps.Aqi

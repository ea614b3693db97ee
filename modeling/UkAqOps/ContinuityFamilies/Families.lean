import Mathlib.Data.Rat.Floor
import UkAqOps.Js.Utf16
import UkAqOps.Lib.Claims
import UkAqOps.Lib.Spans
import UkAqOps.PruneAudit.Store
import UkAqOps.StationHistory.Continuity

/-!
# Families of timeseries that continue each other

`src/workers/shared/uk_aq_r2_history_index.mjs`: the rows of a mapping table say which timeseries
recorded a pollutant at a site from which day to which. `buildHistoryV2TimeseriesContinuityFamilies`
groups them by connector, site reference and pollutant and publishes the groups that hold together,
and the binding of each of their timeseries then names the whole family.
-/

namespace UkAqOps.ContinuityFamilies

open PruneAudit (DayUtc normalizeDayUtc)
open Sorting StationHistory Claims

/-! ## Values

An identifier is read as `Number(raw)`, where that is finite, and a text as `String(raw ?? "")`. -/

def parsePositiveId (raw : Option ℚ) : Option ℤ :=
  raw.bind fun value ↦ if value ≤ 0 then none else some ⌊value⌋

/-- An identifier where zero counts as missing. -/
def truthyId (raw : Option ℚ) : Option ℤ := (parsePositiveId raw).filter (· ≠ 0)

/-- `/^[a-z0-9_]+$/`. -/
def isPropertyCode (value : String) : Bool :=
  value ≠ "" && value.toList.all fun c ↦ ('a' ≤ c && c ≤ 'z') || c.isDigit || c = '_'

def normalizeObservationPropertyCode (host : WebHost) (raw : String) : Option String :=
  let value := host.toLowerCase (trimText raw)
  if isPropertyCode value then some value else none

def normalizeIsoDay (raw : String) : Option DayUtc :=
  let day := trimText raw
  if h : (parseIsoDay day).isSome = true then some ⟨day, h⟩ else none

def stableRef (raw : String) : Option String :=
  let value := trimText raw
  if value = "" then none else some value

/-! ## Authoritative bindings -/

structure RawAuthoritativeBinding where
  timeseriesId : Option ℚ
  connectorId : Option ℚ
  pollutantCode : String
  stationId : Option ℚ
  phenomenonId : Option ℚ
  observedPropertyId : Option ℚ

structure AuthoritativeBinding where
  timeseriesId : ℤ
  connectorId : ℤ
  pollutantCode : String
  stationId : Option ℤ
  phenomenonId : Option ℤ
  observedPropertyId : Option ℤ
deriving DecidableEq

/-- What is not an object is `none`. -/
def normalizeAuthoritativeTimeseriesBinding (host : WebHost)
    (binding : Option RawAuthoritativeBinding) : Option AuthoritativeBinding := do
  let binding ← binding
  let timeseriesId ← truthyId binding.timeseriesId
  let connectorId ← truthyId binding.connectorId
  let pollutantCode ← normalizeObservationPropertyCode host binding.pollutantCode
  return {
    timeseriesId, connectorId, pollutantCode
    stationId := truthyId binding.stationId
    phenomenonId := truthyId binding.phenomenonId
    observedPropertyId := truthyId binding.observedPropertyId }

/-- The binding is one that normalising gives. -/
structure AuthoritativeBinding.Normal (binding : AuthoritativeBinding) : Prop where
  timeseriesId : 0 < binding.timeseriesId
  connectorId : 0 < binding.connectorId
  pollutantCode : isPropertyCode binding.pollutantCode = true
  stationId : ∀ id ∈ binding.stationId, 0 < id
  phenomenonId : ∀ id ∈ binding.phenomenonId, 0 < id
  observedPropertyId : ∀ id ∈ binding.observedPropertyId, 0 < id

/-- The authoritative bindings by their timeseries. -/
structure Authoritative where
  byTimeseriesId : OrderedMap ℤ AuthoritativeBinding
  normal : ∀ {id binding}, byTimeseriesId.get? id = some binding →
    binding.timeseriesId = id ∧ binding.Normal

/-! ## Continuity rows -/

structure RawContinuityRow where
  connectorId : Option ℚ
  continuityKey : String
  siteRef : String
  ukAirRef : String
  pollutantCode : String
  stationId : Option ℚ
  stationRef : String
  timeseriesId : Option ℚ
  timeseriesRef : String
  validFromDayUtc : String
  validToDayUtc : Option String

/-- A timeseries recorded the pollutant of a site from a day on, to a last day or to this day. -/
structure ContinuityRow where
  connectorId : ℤ
  continuityKey : String
  siteRef : String
  ukAirRef : String
  pollutantCode : String
  stationId : ℤ
  stationRef : Option String
  timeseriesId : ℤ
  timeseriesRef : Option String
  validFromDayUtc : DayUtc
  validToDayUtc : Option DayUtc
  validFrom_le : ∀ day ∈ validToDayUtc, validFromDayUtc.number ≤ day.number

/-- The last day as it is read. -/
def readValidTo : Option String → Option DayUtc
  | none => none
  | some raw => if trimText raw = "" then none else normalizeIsoDay raw

/-- `stableRef(raw)?.toUpperCase() || null`. -/
def upperRef (host : WebHost) (raw : String) : Option String :=
  ((stableRef raw).map host.toUpperCase).filter (· ≠ "")

/-- What is not an object is `none`. Days in their notation compare as their texts do. -/
def normalizeContinuityRow (host : WebHost) (raw : Option RawContinuityRow) :
    Option ContinuityRow := do
  let raw ← raw
  let connectorId ← truthyId raw.connectorId
  let stationId ← truthyId raw.stationId
  let timeseriesId ← truthyId raw.timeseriesId
  let pollutantCode ← normalizeObservationPropertyCode host raw.pollutantCode
  let ukAirRef ← upperRef host raw.ukAirRef
  let siteRef ← upperRef host raw.siteRef
  let validFromDayUtc ← normalizeIsoDay raw.validFromDayUtc
  let validToDayUtc := readValidTo raw.validToDayUtc
  if validFrom_le : ∀ day ∈ validToDayUtc, validFromDayUtc.number ≤ day.number then
    let continuityKey := s!"{connectorId}:{ukAirRef}:{pollutantCode}"
    if stableRef raw.continuityKey ≠ some continuityKey then none
    else some {
      connectorId, continuityKey, siteRef, ukAirRef, pollutantCode, stationId, timeseriesId
      stationRef := stableRef raw.stationRef
      timeseriesRef := stableRef raw.timeseriesRef
      validFromDayUtc, validToDayUtc, validFrom_le }
  else none

/-! ## Families -/

structure FamilyMember where
  stationId : ℤ
  stationRef : Option String
  timeseriesId : ℤ
  timeseriesRef : Option String
  validFromDayUtc : DayUtc
  validToDayUtc : Option DayUtc

structure Family where
  schemaVersion : ℤ
  source : String
  continuityKey : String
  siteRef : String
  ukAirRef : String
  pollutantCode : String
  members : List FamilyMember

def ContinuityRow.member (row : ContinuityRow) : FamilyMember :=
  { stationId := row.stationId
    stationRef := row.stationRef
    timeseriesId := row.timeseriesId
    timeseriesRef := row.timeseriesRef
    validFromDayUtc := row.validFromDayUtc
    validToDayUtc := row.validToDayUtc }

/-- The days on which the row is valid. -/
def ContinuityRow.span (row : ContinuityRow) : Span ℤ where
  first := row.validFromDayUtc.number
  last := row.validToDayUtc.map DayUtc.number
  first_le t ht := by
    obtain ⟨day, hday, rfl⟩ := Option.map_eq_some_iff.mp ht
    exact row.validFrom_le day hday

/-- The authoritative binding of the timeseries says what the row says. -/
def Agrees (authoritative : Authoritative) (row : ContinuityRow) : Prop :=
  ∃ core ∈ authoritative.byTimeseriesId.get? row.timeseriesId, core.connectorId = row.connectorId ∧
    core.stationId = some row.stationId ∧ core.pollutantCode = row.pollutantCode

instance (authoritative : Authoritative) (row : ContinuityRow) :
    Decidable (Agrees authoritative row) :=
  decidable_of_iff ((authoritative.byTimeseriesId.get? row.timeseriesId).any (fun core ↦
    core.connectorId = row.connectorId ∧ core.stationId = some row.stationId ∧
      core.pollutantCode = row.pollutantCode) = true) (by
    rw [Option.any_eq_true, Agrees]
    simp only [decide_eq_true_iff, Option.mem_def])

def compareRows (host : WebHost) (left right : ContinuityRow) : Ordering :=
  (host.localeCompare left.validFromDayUtc.val.toList right.validFromDayUtc.val.toList).then
    (compare left.timeseriesId right.timeseriesId)

/-- What the loop over the sorted rows of a family checks. A row that follows a row without a last
day, or does not start after the last day of the row before it, makes the family invalid. -/
def IsValidFamily (authoritative : Authoritative) (rows : List ContinuityRow) : Prop :=
  (rows.map ContinuityRow.siteRef).dedup.length = 1 ∧ (∀ row ∈ rows, Agrees authoritative row) ∧
    (rows.map ContinuityRow.timeseriesId).Nodup ∧
    (rows.IsChain fun previous row ↦ previous.span.Before row.span) ∧
    (rows.countP fun row ↦ row.validToDayUtc.isNone) ≤ 1

instance (authoritative : Authoritative) (rows : List ContinuityRow) :
    Decidable (IsValidFamily authoritative rows) :=
  inferInstanceAs (Decidable (_ ∧ _ ∧ _ ∧ _ ∧ _))

/-- What is published of a family, whose key and references are those of its first row. -/
def continuityOf (familyKey : String) (first : ContinuityRow) (rows : List ContinuityRow) : Family :=
  { schemaVersion := 1
    source := "sos_station_timeseries_site_refs"
    continuityKey := familyKey
    siteRef := first.siteRef
    ukAirRef := first.ukAirRef
    pollutantCode := first.pollutantCode
    members := rows.map ContinuityRow.member }

structure Publication where
  continuityByTimeseriesId : OrderedMap ℤ Family
  singleMemberFamilyCount : ℕ
  invalidFamilyKeys : List String

/-- One turn of the loop over the families. -/
def publishFamily (host : WebHost) (authoritative : Authoritative) (state : Publication)
    (family : String × List ContinuityRow) : Publication :=
  let rows := sortBy (compareRows host) family.2
  if family.1 ∈ state.invalidFamilyKeys ∨ ¬IsValidFamily authoritative rows then
    { state with invalidFamilyKeys := state.invalidFamilyKeys.insert family.1 }
  else
    match rows with
    | first :: _ :: _ =>
      { state with
        continuityByTimeseriesId := rows.foldl
          (fun families row ↦ families.set row.timeseriesId (continuityOf family.1 first rows))
          state.continuityByTimeseriesId }
    | _ => { state with singleMemberFamilyCount := state.singleMemberFamilyCount + 1 }

/-- What the families claim, family by family and row by row. -/
def claimsOf (groups : OrderedMap String (List ContinuityRow)) : List (String × ℤ) :=
  groups.entries.flatMap fun (familyKey, rows) ↦ rows.map fun row ↦ (familyKey, row.timeseriesId)

structure Families where
  continuityByTimeseriesId : OrderedMap ℤ Family
  multiMemberFamilyCount : ℕ
  schemaV2CandidateCount : ℕ
  singleMemberFamilyCount : ℕ
  invalidFamilyCount : ℕ
  invalidFamilyKeys : List String
  invalidRowCount : ℕ
  conflictedTimeseriesCount : ℕ

def buildHistoryV2TimeseriesContinuityFamilies (host : WebHost)
    (continuityRows : List (Option RawContinuityRow)) (authoritative : Authoritative) : Families :=
  let rows := continuityRows.filterMap (normalizeContinuityRow host)
  let groups := OrderedMap.groupBy ContinuityRow.continuityKey rows
  let ledger := ledgerOf (claimsOf groups)
  let published := groups.entries.foldl (publishFamily host authoritative)
    ⟨OrderedMap.empty, 0, ledger.contestants⟩
  { continuityByTimeseriesId := published.continuityByTimeseriesId
    multiMemberFamilyCount :=
      (published.continuityByTimeseriesId.values.map Family.continuityKey).dedup.length
    schemaV2CandidateCount := published.continuityByTimeseriesId.size
    singleMemberFamilyCount := published.singleMemberFamilyCount
    invalidFamilyCount := published.invalidFamilyKeys.length
    invalidFamilyKeys := published.invalidFamilyKeys.mergeSort codeUnitLe
    invalidRowCount := (continuityRows.filter fun raw ↦
      (normalizeContinuityRow host raw).isNone).length
    conflictedTimeseriesCount := ledger.contested.length }

end UkAqOps.ContinuityFamilies

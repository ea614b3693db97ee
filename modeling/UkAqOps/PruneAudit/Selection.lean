import UkAqOps.Js.Json
import UkAqOps.Js.SignedYears
import UkAqOps.Lib.Except
import UkAqOps.Lib.OrderedMap

/-!
# The audit of pruned observation days

The forced recheck of the backup audits a few days in each run.
`selectObservationPruneAuditBatch` takes the eligible days in the order of their last successful
audit, and `recordObservationPruneAuditOutcome` writes a success into the shard of the day's month.
A failure is not recorded.
-/

namespace UkAqOps.PruneAudit

/-- `toLowerCase`, `Date.parse`, and `localeCompare` on the characters of two texts. -/
structure Host where
  toLowerCase : String → String
  dateParse : String → Option TimeValue
  localeCompare : List Char → List Char → Ordering

/-! ## Texts

Every value is read as `String(value || "")`. -/

/-- A date of the calendar, `YYYY-MM-DD`. -/
abbrev DayUtc := {text : String // (parseIsoDay text).isSome = true}

/-- The text of a SHA-256 value. -/
abbrev ManifestHash := {text : String // isSha256Hex text = true}

/-- `/^\d{4}$/`. -/
def isYear (text : String) : Bool := text.toList.length = 4 && text.toList.all Char.isDigit

/-- `/^(0[1-9]|1[0-2])$/`. -/
def isMonth (text : String) : Bool :=
  text ∈ ["01", "02", "03", "04", "05", "06", "07", "08", "09", "10", "11", "12"]

def normalizeYear (value : String) : Except String String :=
  let year := trimText value
  if isYear year then .ok year else .error ("Invalid prune-audit year: " ++ year)

def normalizeMonth (value : String) : Except String String :=
  let month := padZeros (trimText value) 2
  if isMonth month then .ok month else .error ("Invalid prune-audit month: " ++ month)

def normalizeDayUtc (value : String) : Except String DayUtc :=
  let dayUtc := trimText value
  if h : (parseIsoDay dayUtc).isSome = true then .ok ⟨dayUtc, h⟩
  else .error ("Invalid prune-audit day_utc: " ++ dayUtc)

section Normalize

variable (host : Host)

def normalizeManifestHash (value label : String) : Except String ManifestHash :=
  let manifestHash := host.toLowerCase (trimText value)
  if h : isSha256Hex manifestHash = true then .ok ⟨manifestHash, h⟩
  else .error (label ++ " must be a lowercase SHA-256 value")

def normalizeUtcTimestamp (value : String) : Except String TimeValue :=
  let timestamp := trimText value
  match host.dateParse timestamp with
  | some parsed =>
    if endsWithText timestamp "Z" then .ok parsed
    else .error "prune-audit last_successful_audit_at must be a UTC timestamp"
  | none => .error "prune-audit last_successful_audit_at must be a UTC timestamp"

end Normalize

def requirePositiveInteger (value : ℤ) (label : String) : Except String ℕ :=
  if isPositiveSafeInteger value then .ok value.toNat
  else .error (label ++ " must be a positive integer")

/-! ## Days -/

/-- A checkpoint as it is stored. -/
structure StoredAuditDay where
  dayUtc : String
  manifestHash : String
  lastSuccessfulAuditAt : String

structure AuditDay where
  dayUtc : DayUtc
  manifestHash : ManifestHash
  lastSuccessfulAuditAt : TimeValue

def AuditDay.stored (day : AuditDay) : StoredAuditDay where
  dayUtc := day.dayUtc
  manifestHash := day.manifestHash
  lastSuccessfulAuditAt := toISOString day.lastSuccessfulAuditAt

/-- `dayUtc.startsWith(year-month-)`. -/
def inMonth (year month : String) (dayUtc : DayUtc) : Bool :=
  startsWithText dayUtc (year ++ "-" ++ month ++ "-")

/-- A checkpoint is normalised on its own or, from a shard, for a month. -/
def normalizeAuditDay (host : Host) (yearMonth : Option (String × String)) (entry : StoredAuditDay) :
    Except String AuditDay := do
  let dayUtc ← normalizeDayUtc entry.dayUtc
  let outside := yearMonth.any fun (year, month) ↦ !inMonth year month dayUtc
  if outside then
    .error ("Prune-audit day " ++ dayUtc ++ " is outside " ++
      yearMonth.elim "" fun (year, month) ↦ year ++ "-" ++ month)
  else
    let manifestHash ← normalizeManifestHash host entry.manifestHash "prune-audit manifest_hash"
    let lastSuccessfulAuditAt ← normalizeUtcTimestamp host entry.lastSuccessfulAuditAt
    pure ⟨dayUtc, manifestHash, lastSuccessfulAuditAt⟩

section MapUnique

variable {α : Type} (dayUtc : α → DayUtc) (label : String)

/-- One turn of the loop of `mapUniqueByDay`. -/
def addUnique (result : OrderedMap DayUtc α) (entry : α) : Except String (OrderedMap DayUtc α) :=
  if dayUtc entry ∈ result.keys then
    .error (label ++ " contains duplicate " ++ dayUtc entry)
  else .ok (result.set (dayUtc entry) entry)

def mapUniqueByDay (entries : List α) : Except String (OrderedMap DayUtc α) :=
  entries.foldlM (addUnique dayUtc label) OrderedMap.empty

end MapUnique

/-! ## The shard of a month -/

structure MonthState where
  year : String
  month : String
  days : List AuditDay

/-- A shard as it is stored. -/
structure StoredMonthState where
  schemaVersion : ℤ
  kind : String
  backupVersion : String
  domain : String
  year : String
  month : String
  days : List StoredAuditDay

def pruneAuditKind : String := "uk_aq_r2_history_backup_observation_prune_audit_month"

def MonthState.stored (state : MonthState) : StoredMonthState where
  schemaVersion := 1
  kind := pruneAuditKind
  backupVersion := "v2"
  domain := "observation_prune_audit"
  year := state.year
  month := state.month
  days := state.days.map AuditDay.stored

def emptyObservationPruneAuditMonthState (year month : String) : Except String MonthState := do
  let year ← normalizeYear year
  let month ← normalizeMonth month
  pure ⟨year, month, []⟩

section Shards

variable (host : Host)

/-- The order of the days of a shard. -/
def sortDays (days : List AuditDay) : List AuditDay :=
  Sorting.sortBy (fun left right ↦
    host.localeCompare left.dayUtc.val.toList right.dayUtc.val.toList) days

def validateObservationPruneAuditMonthState (state : Option StoredMonthState)
    (year month : String) : Except String MonthState :=
  match state with
  | none => emptyObservationPruneAuditMonthState year month
  | some value =>
    if value.schemaVersion ≠ 1 ∨ value.kind ≠ pruneAuditKind ∨ value.backupVersion ≠ "v2" ∨
        value.domain ≠ "observation_prune_audit" then
      .error "Observation prune-audit month state identity mismatch"
    else do
      let normalizedYear ← normalizeYear year
      let normalizedMonth ← normalizeMonth month
      let valueYear ← normalizeYear value.year
      if valueYear ≠ normalizedYear then
        .error "Observation prune-audit month state path identity mismatch"
      else
        let valueMonth ← normalizeMonth value.month
        if valueMonth ≠ normalizedMonth then
          .error "Observation prune-audit month state path identity mismatch"
        else
          let days ← value.days.mapM
            (normalizeAuditDay host (some (normalizedYear, normalizedMonth)))
          let days := sortDays host days
          let _ ← mapUniqueByDay AuditDay.dayUtc "Observation prune-audit month state" days
          pure ⟨normalizedYear, normalizedMonth, days⟩

/-! ## Selecting a batch -/

/-- A day of the inventory with its other fields. -/
structure InventoryDay (ρ : Type) where
  dayUtc : String
  manifestHash : String
  rest : ρ

structure AcceptedDay where
  dayUtc : String
  manifestHash : String

/-- A day of the inventory after normalisation. -/
structure CurrentDay (ρ : Type) where
  dayUtc : DayUtc
  manifestHash : ManifestHash
  rest : ρ

structure EligibleDay (ρ : Type) extends CurrentDay ρ where
  lastSuccessfulAuditAt : Option TimeValue

structure Selection (ρ : Type) where
  totalCurrentDaysConsidered : ℕ
  eligibleDaysCount : ℕ
  excludedSourceIdentityNotAcceptedCount : ℕ
  neverSuccessfullyAuditedEligibleCount : ℕ
  oldestSuccessfulAuditAt : Option String
  alreadyAuditedThisInvocationExcludedCount : ℕ
  selectedDays : List (EligibleDay ρ)

variable {ρ : Type}

def normalizeInventoryDay (entry : InventoryDay ρ) : Except String (CurrentDay ρ) := do
  let dayUtc ← normalizeDayUtc entry.dayUtc
  let manifestHash ← normalizeManifestHash host entry.manifestHash
    "prune-audit inventory day manifest_hash"
  pure ⟨dayUtc, manifestHash, entry.rest⟩

def normalizeAcceptedDay (entry : AcceptedDay) : Except String (DayUtc × ManifestHash) := do
  let dayUtc ← normalizeDayUtc entry.dayUtc
  let manifestHash ← normalizeManifestHash host entry.manifestHash "accepted copy day manifest_hash"
  pure (dayUtc, manifestHash)

/-- The order in which days are audited. -/
def compareEligible (left right : EligibleDay ρ) : Ordering :=
  match left.lastSuccessfulAuditAt, right.lastSuccessfulAuditAt with
  | none, some _ => .lt
  | some _, none => .gt
  | none, none => host.localeCompare left.dayUtc.val.toList right.dayUtc.val.toList
  | some leftAt, some rightAt =>
    (host.localeCompare (isoChars leftAt) (isoChars rightAt)).then
      (host.localeCompare left.dayUtc.val.toList right.dayUtc.val.toList)

/-- The day was copied as the inventory has it. -/
def isAccepted (acceptedByDay : OrderedMap DayUtc (DayUtc × ManifestHash))
    (current : CurrentDay ρ) : Bool :=
  (acceptedByDay.get? current.dayUtc).map Prod.snd = some current.manifestHash

/-- The last success of a day, if its checkpoint is for the same content. -/
def lastAudit (checkpoint : DayUtc → Option AuditDay) (dayUtc : DayUtc) (manifestHash : ManifestHash) :
    Option TimeValue :=
  ((checkpoint dayUtc).filter (·.manifestHash = manifestHash)).map AuditDay.lastSuccessfulAuditAt

def withCheckpoint (checkpoint : DayUtc → Option AuditDay) (current : CurrentDay ρ) :
    EligibleDay ρ :=
  { current with
    lastSuccessfulAuditAt := lastAudit checkpoint current.dayUtc current.manifestHash }

def selectObservationPruneAuditBatch (inventoryDays : List (InventoryDay ρ))
    (acceptedCopyDays : List AcceptedDay) (auditCheckpoints : List StoredAuditDay)
    (alreadyAuditedThisInvocationDays : List String) (maxDays : ℤ) :
    Except String (Selection ρ) := do
  let limit ← requirePositiveInteger maxDays "force-prune max days per run"
  let currentDays ← inventoryDays.mapM (normalizeInventoryDay host)
  let _ ← mapUniqueByDay CurrentDay.dayUtc "Prune-audit inventory" currentDays
  let acceptedDays ← acceptedCopyDays.mapM (normalizeAcceptedDay host)
  let acceptedByDay ← mapUniqueByDay Prod.fst "Accepted observation copy state" acceptedDays
  let auditDays ← auditCheckpoints.mapM (normalizeAuditDay host none)
  let auditByDay ← mapUniqueByDay AuditDay.dayUtc "Observation prune-audit checkpoints" auditDays
  let alreadyAudited ← alreadyAuditedThisInvocationDays.mapM normalizeDayUtc
  let eligible := Sorting.sortBy (compareEligible host)
    ((currentDays.filter (isAccepted acceptedByDay)).map (withCheckpoint auditByDay.get?))
  let successfulTimestamps := (eligible.filterMap (·.lastSuccessfulAuditAt)).map
    fun timestamp ↦ toISOString timestamp
  pure {
    totalCurrentDaysConsidered := currentDays.length
    eligibleDaysCount := eligible.length
    excludedSourceIdentityNotAcceptedCount := currentDays.length - eligible.length
    neverSuccessfullyAuditedEligibleCount :=
      (eligible.filter (·.lastSuccessfulAuditAt.isNone)).length
    oldestSuccessfulAuditAt :=
      (Sorting.sortBy (fun left right ↦ compare left.toList right.toList)
        successfulTimestamps).head?
    alreadyAuditedThisInvocationExcludedCount :=
      (eligible.filter (·.dayUtc ∈ alreadyAudited)).length
    selectedDays := (eligible.filter (·.dayUtc ∉ alreadyAudited)).take limit }

/-! ## Recording an outcome -/

def recordObservationPruneAuditOutcome (state : Option StoredMonthState)
    (dayUtc manifestHash : String) (successful dryRun : Bool) (auditedAt : String) :
    Except String MonthState := do
  let dayUtc ← normalizeDayUtc dayUtc
  let parts := splitText dayUtc '-'
  let current ← validateObservationPruneAuditMonthState host state (parts.getD 0 "")
    (parts.getD 1 "")
  if !successful || dryRun then pure current
  else
    let dayMap ← mapUniqueByDay AuditDay.dayUtc "Observation prune-audit month state" current.days
    let manifestHash ← normalizeManifestHash host manifestHash "audited day manifest_hash"
    let lastSuccessfulAuditAt ← normalizeUtcTimestamp host auditedAt
    let dayMap := dayMap.set dayUtc ⟨dayUtc, manifestHash, lastSuccessfulAuditAt⟩
    pure { current with days := sortDays host dayMap.values }

end Shards

end UkAqOps.PruneAudit

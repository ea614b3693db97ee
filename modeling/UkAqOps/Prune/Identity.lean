import Mathlib.Data.List.Sort
import UkAqOps.Js.Date
import UkAqOps.Js.Value
import UkAqOps.Lib.Except

/-!
# The source identity of a connector-day

The canonical rows of a connector-day are encoded one line each, sorted and hashed. The hash and the
number of rows are the identity that deletion evidence is checked against; an identity that is stored
in a row is read back with its own checks.
-/

namespace UkAqOps.Prune

/-- The built-in operations the deletion relies on: SHA-256 in hex, and `Date.parse`. The storage
generation is the one that the environment names. -/
structure Host where
  sha256Hex : String → String
  dateParse : String → Option ℤ
  historyVersion : String

/-! ## Canonical rows -/

/-- A row of the canonical view. The value is the hex text of the big-endian bytes of
`Number(value)`, `none` when that is not finite; negative zero is written as zero. -/
structure CanonicalRow where
  connectorId : ℤ
  stationId : Option ℤ
  timeseriesId : ℤ
  pollutantCode : String
  observedAt : ℤ
  value : Option String
  status : Option String

def positiveInteger (value : ℤ) (fieldName : String) : Except String ℤ :=
  if isPositiveSafeInteger value then .ok value
  else .error s!"{fieldName} must be a positive safe integer"

def canonicalStationId : Option ℤ → Except String (Option ℤ)
  | none => .ok none
  | some value => some <$> positiveInteger value "station_id"

/-- `/^[a-z0-9_]+$/`. -/
def isCanonicalPollutantCode (code : String) : Bool :=
  code ≠ "" && code.toList.all fun c ↦ c.isLower || c.isDigit || c = '_'

def requireCanonicalVerificationStatus : Option String → Except String (Option String)
  | none => .ok none
  | some value =>
    if value = "P" ∨ value = "R" then .ok (some value)
    else .error "verification_status must be P, R or null"

/-- The row as `normalizePruneConnectorSourceRow` leaves it: its fields in canonical form. -/
structure SourceRow where
  connectorId : ℤ
  stationId : Option ℤ
  timeseriesId : ℤ
  pollutantCode : String
  observedAtUtc : String
  value : String
  verificationStatus : Option String

def normalizePruneConnectorSourceRow (row : CanonicalRow) : Except String SourceRow := do
  if ¬isCanonicalPollutantCode row.pollutantCode then
    .error "pollutant_code must be a validated canonical lower-case code" else
  let observedAtUtc := toISOString row.observedAt
  if observedAtUtc.toList.length ≠ 24 then
    .error "observed_at_utc must be an exact UTC ISO timestamp with millisecond precision" else
  match row.value with
  | none => .error "value must be a finite IEEE-754 binary64 number"
  | some value => do
    let connectorId ← positiveInteger row.connectorId "connector_id"
    let stationId ← canonicalStationId row.stationId
    let timeseriesId ← positiveInteger row.timeseriesId "timeseries_id"
    let verificationStatus ← requireCanonicalVerificationStatus row.status
    pure ⟨connectorId, stationId, timeseriesId, row.pollutantCode, observedAtUtc, value,
      verificationStatus⟩

/-- `JSON.stringify` of an integer and of a value that may be `null`. -/
def jsonInt (value : ℤ) : String := toString value
def jsonNullable {α : Type} (json : α → String) : Option α → String
  | none => "null"
  | some value => json value

/-- The line of a row: the JSON array of its fields. -/
def encodeCanonicalObservationRow (row : SourceRow) : String :=
  "[" ++ ",".intercalate [jsonInt row.connectorId, jsonNullable jsonInt row.stationId,
    jsonInt row.timeseriesId, jsonQuote row.pollutantCode, jsonQuote row.observedAtUtc,
    jsonQuote row.value, jsonNullable jsonQuote row.verificationStatus] ++ "]"

/-! ## Identities -/

/-- A source identity: the hash of the rows and how many there are. The contract version is one. -/
@[ext] structure SourceIdentity where
  contentHash : String
  contractVersion : ℤ
  rowCount : ℤ
deriving DecidableEq

def contentHashContractVersion : ℤ := 1

def contentHashPrefix : String := "uk-aq-prune-connector-source-content-hash:v1\n"

/-- Lines are ASCII, so that their order by UTF-16 code units is their order by bytes. -/
def computePruneConnectorSourceIdentity (host : Host) (rows : List CanonicalRow) :
    Except String SourceIdentity := do
  if rows = [] then
    .error "Prune deletion evidence requires non-empty canonical connector-day rows" else
  let sourceRows ← rows.mapM normalizePruneConnectorSourceRow
  let encodedRows := (sourceRows.map encodeCanonicalObservationRow).mergeSort bytewiseLe
  pure ⟨host.sha256Hex (contentHashPrefix ++ String.join (encodedRows.map (· ++ "\n"))),
    contentHashContractVersion, encodedRows.length⟩

/-- The identity columns of a row of evidence. -/
structure StoredIdentity where
  contentHash : Option String := none
  contractVersion : Option ℤ := none
  rowCount : Option ℤ := none

/-- A missing count or version reads as zero, which is what `Number(null)` is. -/
def normalizePruneConnectorSourceIdentity (evidence : StoredIdentity) :
    Except String SourceIdentity :=
  let rowCount := evidence.rowCount.getD 0
  let contractVersion := evidence.contractVersion.getD 0
  match evidence.contentHash with
  | none => .error "source_identity_missing"
  | some contentHash =>
    if ¬isSha256Hex contentHash ∨ ¬isPositiveSafeInteger rowCount then
      .error "source_identity_missing"
    else if contractVersion ≠ contentHashContractVersion then
      .error "source_identity_contract_unsupported"
    else .ok ⟨contentHash, contractVersion, rowCount⟩

/-- The columns that store an identity. -/
def SourceIdentity.stored (identity : SourceIdentity) : StoredIdentity :=
  ⟨some identity.contentHash, some identity.contractVersion, some identity.rowCount⟩

/-- The reason why two identities differ, or `none` if they match. -/
def comparePruneConnectorSourceIdentities (left right : SourceIdentity) :
    Except String (Option String) := do
  let left ← normalizePruneConnectorSourceIdentity left.stored
  let right ← normalizePruneConnectorSourceIdentity right.stored
  if left.rowCount ≠ right.rowCount then pure (some "source_identity_row_count_mismatch")
  else if left.contentHash ≠ right.contentHash then pure (some "source_identity_mismatch")
  else pure none

def pruneConnectorSourceIdentityFailureReason (message : String) : String :=
  if message = "source_identity_contract_unsupported" ∨ message = "source_identity_missing" then
    message
  else "source_identity_canonicalisation_failed"

/-- What a stored identity reads back as. -/
theorem normalizePruneConnectorSourceIdentity_eq_ok {evidence : StoredIdentity}
    {identity : SourceIdentity} (h : normalizePruneConnectorSourceIdentity evidence = .ok identity) :
    evidence.contentHash = some identity.contentHash ∧
      evidence.contractVersion.getD 0 = identity.contractVersion ∧
      evidence.rowCount.getD 0 = identity.rowCount ∧
      identity.contractVersion = contentHashContractVersion := by
  rw [normalizePruneConnectorSourceIdentity] at h
  rcases hhash : evidence.contentHash with _ | contentHash
  · rw [hhash] at h
    cases h
  · rw [hhash] at h
    dsimp only at h
    by_cases hmissing : ¬isSha256Hex contentHash ∨
        ¬isPositiveSafeInteger (evidence.rowCount.getD 0)
    · rw [if_pos hmissing] at h
      cases h
    · rw [if_neg hmissing] at h
      by_cases hversion : evidence.contractVersion.getD 0 ≠ contentHashContractVersion
      · rw [if_pos hversion] at h
        cases h
      · rw [if_neg hversion] at h
        rw [← Except.ok.inj h]
        exact ⟨rfl, rfl, rfl, not_not.mp hversion⟩

/-- Two identities that compare without a reason are the same identity. -/
theorem eq_of_compare_none {left right : SourceIdentity}
    (h : comparePruneConnectorSourceIdentities left right = .ok none) : left = right := by
  obtain ⟨left', hleft, h⟩ := Except.bind_eq_ok_iff.mp h
  obtain ⟨right', hright, h⟩ := Except.bind_eq_ok_iff.mp h
  obtain ⟨hlh, hlv, hlc, hlv'⟩ := normalizePruneConnectorSourceIdentity_eq_ok hleft
  obtain ⟨hrh, hrv, hrc, hrv'⟩ := normalizePruneConnectorSourceIdentity_eq_ok hright
  simp only [SourceIdentity.stored, Option.some.injEq, Option.getD_some] at hlh hlv hlc hrh hrv hrc
  by_cases hcount : left'.rowCount ≠ right'.rowCount
  · rw [if_pos hcount] at h
    cases h
  · rw [if_neg hcount] at h
    by_cases hhash : left'.contentHash ≠ right'.contentHash
    · rw [if_pos hhash] at h
      cases h
    · have hsameHash : left.contentHash = right.contentHash := by
        rw [hlh, hrh, not_not.mp hhash]
      have hsameVersion : left.contractVersion = right.contractVersion := by
        rw [hlv, hrv, hlv', hrv']
      have hsameCount : left.rowCount = right.rowCount := by
        rw [hlc, hrc, not_not.mp hcount]
      exact SourceIdentity.ext hsameHash hsameVersion hsameCount

end UkAqOps.Prune

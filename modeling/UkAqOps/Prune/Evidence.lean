import UkAqOps.Lib.OrderedMap
import UkAqOps.Prune.Identity

/-!
# The evidence a deletion needs

A connector-day is deleted on the strength of two rows: the candidate, which carries the marker of a
first deletion, and the gate, which carries the published history. Both hold the source identity of
the rows that were exported. The plan of the deletion is a list of hourly buckets that has to cover
the rows exactly.
-/

namespace UkAqOps.Prune

/-! ## Connector-days and buckets -/

/-- A connector-day, with the instants it runs between. -/
structure Pair where
  dayUtc : String
  connectorId : ℤ
  dayStart : ℤ
  dayEnd : ℤ

/-- `connectorId` is what `Number(...)` gives, `none` when that is no integer. -/
def normalizePair (dayUtcInput : String) (connectorId : Option ℤ) : Except String Pair :=
  let dayUtc := takeText dayUtcInput 10
  match parseIsoDay dayUtc, connectorId with
  | some day, some connectorId =>
    if isPositiveSafeInteger connectorId then
      .ok ⟨dayUtc, connectorId, day * dayMs, day * dayMs + 24 * hourMs⟩
    else .error "Invalid connector-day deletion identity"
  | _, _ => .error "Invalid connector-day deletion identity"

/-- A bucket as it is passed in: `connectorId` is what `Number(...)` gives, `observationCount` what
`BigInt(observation_count ?? -1)` gives, `none` when it throws. -/
structure BucketInput where
  connectorId : Option ℤ
  hourStart : String
  observationCount : Option ℤ

structure Bucket where
  connectorId : ℤ
  hourStart : ℤ
  observationCount : ℤ

def normalizeBucket (host : Host) (pair : Pair) (bucket : BucketInput) : Except String Bucket :=
  match bucket.observationCount, host.dateParse bucket.hourStart with
  | none, _ => .error "Cannot convert observation_count to a BigInt"
  | _, none => .error "Invalid connector-day deletion bucket"
  | some observationCount, some hourStart =>
    if bucket.connectorId ≠ some pair.connectorId ∨
        toISOString hourStart ≠ bucket.hourStart ∨
        takeText (toISOString hourStart) 10 ≠ pair.dayUtc ∨
        hourStart / minuteMs % 60 ≠ 0 ∨ hourStart / 1000 % 60 ≠ 0 ∨ hourStart % 1000 ≠ 0 ∨
        observationCount < 0 then
      .error "Invalid connector-day deletion bucket"
    else .ok ⟨pair.connectorId, hourStart, observationCount⟩

theorem normalizePair_spec {dayUtcInput : String} {connectorId : Option ℤ} {pair : Pair}
    (h : normalizePair dayUtcInput connectorId = .ok pair) :
    ∃ day, parseIsoDay pair.dayUtc = some day ∧ pair.dayStart = day * dayMs ∧
      pair.dayEnd = pair.dayStart + dayMs := by
  simp only [normalizePair] at h
  split at h
  · rename_i _ _ day connector hday
    split at h
    · rw [← Except.ok.inj h]
      exact ⟨day, hday, rfl, rfl⟩
    · cases h
  · cases h

/-- The hour of a bucket lies in the day, and the bucket is counted from there. -/
theorem normalizeBucket_spec {host : Host} {pair : Pair} {input : BucketInput} {bucket : Bucket}
    {day : ℤ} (hday : parseIsoDay pair.dayUtc = some day) (hstart : pair.dayStart = day * dayMs)
    (hend : pair.dayEnd = pair.dayStart + dayMs) (h : normalizeBucket host pair input = .ok bucket) :
    bucket.connectorId = pair.connectorId ∧ pair.dayStart ≤ bucket.hourStart ∧
      bucket.hourStart + hourMs ≤ pair.dayEnd := by
  simp only [normalizeBucket] at h
  split at h
  · cases h
  · cases h
  · rename_i hourStart hparse
    split at h
    · cases h
    · rename_i hok
      simp only [not_or, not_not] at hok
      obtain ⟨-, -, hdate, hminutes, hseconds, hms, -⟩ := hok
      have hsame := day_eq_of_parseIsoDay hday hdate
      rw [← Except.ok.inj h]
      refine ⟨rfl, ?_⟩
      dsimp only
      rw [hend, hstart]
      simp only [dayMs, hourMs, minuteMs] at *
      omega

/-- The bucket as an argument of `normalizeBucket`. -/
def Bucket.input (bucket : Bucket) : BucketInput :=
  ⟨some bucket.connectorId, toISOString bucket.hourStart, some bucket.observationCount⟩

/-- A bucket that was read is written as it was passed in, so it is read again as itself. -/
theorem input_of_normalizeBucket {host : Host} {pair : Pair} {input : BucketInput} {bucket : Bucket}
    (h : normalizeBucket host pair input = .ok bucket) : bucket.input = input := by
  obtain ⟨connectorId, hourStart, observationCount⟩ := input
  simp only [normalizeBucket] at h
  split at h
  · cases h
  · cases h
  · split at h
    · cases h
    · rename_i hok
      simp only [not_or, not_not] at hok
      rw [← Except.ok.inj h, Bucket.input, hok.1, hok.2.1]

/-! ## The two rows of evidence -/

/-- A row of `history_candidates`: the columns that the deletion reads or writes. -/
structure CandidateRow where
  dayUtc : String
  connectorId : ℤ
  status : String
  runId : Option String := none
  lastError : Option String := none
  manifestKey : Option String := none
  historyRowCount : Option ℤ := none
  historyFileCount : Option ℤ := none
  historyTotalBytes : Option ℤ := none
  historyCompletedAt : Option String := none
  identity : StoredIdentity := {}
  resumeLastTimeseriesId : Option ℤ := none
  resumeLastObservedAt : Option String := none
  resumePartIndex : ℤ := 0
  resumeExportedRowCount : ℤ := 0
  resumePartsJson : String := "[]"

/-- A row of `prune_connector_day_gates`. -/
structure GateRow where
  dayUtc : String
  connectorId : ℤ
  historyDone : Bool
  historyRunId : Option String := none
  historyManifestKey : Option String := none
  historyManifestHash : Option String := none
  historyRowCount : Option ℤ := none
  historyFileCount : Option ℤ := none
  historyTotalBytes : Option ℤ := none
  historyCompletedAt : Option String := none
  completionSource : Option String := none
  identity : StoredIdentity := {}

def firstDeleteReady : String := "PRUNE_FIRST_DELETE_READY:v1"
def firstDeleteConsumed : String := "PRUNE_FIRST_DELETE_CONSUMED:"

/-- `normalizeConnectorDayPair` of a row's own columns. -/
def normalizeConnectorDayPair (dayUtc : String) (connectorId : ℤ) : Except String (String × ℤ) :=
  let day := trimText dayUtc
  match parseIsoDay day with
  | none => .error s!"Invalid connector-day UTC date: {dayUtc}"
  | some _ =>
    if isPositiveSafeInteger connectorId then .ok (day, connectorId)
    else .error s!"Invalid connector-day connector_id: {connectorId}"

/-- The key of the manifest of a connector-day in the storage generation of the environment. -/
def canonicalObservationConnectorManifestKey (host : Host) (dayUtc : String) (connectorId : ℤ) :
    Except String String := do
  let pair ← normalizeConnectorDayPair dayUtc connectorId
  if host.historyVersion ≠ "v2" ∧ host.historyVersion ≠ "v3" then
    .error "Observation history generation must be exactly v2 or v3" else
  pure (s!"history/{host.historyVersion}/observations/day_utc={pair.1}" ++
    s!"/connector_id={pair.2}/manifest.json")

def normalizeNonNegativeInteger (value : Option ℤ) (fieldName : String) : Except String ℤ :=
  match value with
  | none => .error s!"Invalid {fieldName}: null"
  | some parsed =>
    if parsed < 0 ∨ maxSafeInteger < parsed then .error s!"Invalid {fieldName}: {parsed}"
    else .ok parsed

/-- The text of a nullable column, trimmed. -/
def columnText (value : Option String) : String := trimText (value.getD "")

/-- The counts and the identity of a gate row, or the first check that they fail. -/
def gateCounts (row : GateRow) : Except String (ℤ × ℤ × ℤ × SourceIdentity) := do
  let historyRowCount ← normalizeNonNegativeInteger row.historyRowCount "history_row_count"
  let historyFileCount ← normalizeNonNegativeInteger row.historyFileCount "history_file_count"
  let historyTotalBytes ← normalizeNonNegativeInteger row.historyTotalBytes "history_total_bytes"
  let identity ← normalizePruneConnectorSourceIdentity row.identity
  pure (historyRowCount, historyFileCount, historyTotalBytes, identity)

def isValidConnectorHistoryGateEvidence (host : Host) (row : GateRow) : Bool :=
  row.historyDone &&
  match canonicalObservationConnectorManifestKey host row.dayUtc row.connectorId, gateCounts row with
  | .ok expectedKey, .ok (rowCount, fileCount, totalBytes, identity) =>
    let completedAt := columnText row.historyCompletedAt
    let countsAreConsistent := if rowCount = 0 then fileCount = 0 && totalBytes = 0
      else 0 < fileCount && 0 < totalBytes
    columnText row.historyManifestKey = expectedKey &&
      isSha256Hex (columnText row.historyManifestHash) &&
      completedAt ≠ "" && (host.dateParse completedAt).isSome &&
      columnText row.completionSource = "prune_daily_phase_b" &&
      countsAreConsistent && identity.rowCount = rowCount
  | _, _ => false

/-- The outcome of `classifyLockedEvidence`: why the evidence fails and whether it is kept, or the two
identities it holds. -/
inductive Classified where
  | failed (failureReason : String) (preserveEvidence : Bool)
  | proven (candidateIdentity gateIdentity : SourceIdentity)

def evidencePairMatches (dayUtc : String) (connectorId : ℤ) (pair : Pair) : Except String Bool := do
  let evidencePair ← normalizeConnectorDayPair dayUtc connectorId
  pure (evidencePair.1 = pair.dayUtc && evidencePair.2 = pair.connectorId)

/-- The checks on a candidate and a gate that are both there, after their keys. -/
def classifyEvidence (host : Host) (candidate : CandidateRow) (gate : GateRow) :
    Except String Classified :=
  let lastError := candidate.lastError.getD ""
  if candidate.status ≠ "complete" then .ok (.failed "candidate_not_complete" false)
  else if startsWithText lastError firstDeleteConsumed then
    .ok (.failed "first_deletion_already_committed" true)
  else if candidate.lastError ≠ some firstDeleteReady then
    .ok (.failed "first_deletion_authority_unproven" true)
  else if candidate.runId.getD "" = "" ∨ candidate.runId ≠ gate.historyRunId ∨
      candidate.manifestKey ≠ gate.historyManifestKey then
    .ok (.failed "candidate_gate_publication_identity_mismatch" false)
  else match normalizePruneConnectorSourceIdentity candidate.identity with
  | .error message => .ok (.failed (pruneConnectorSourceIdentityFailureReason message) false)
  | .ok candidateIdentity =>
    match normalizePruneConnectorSourceIdentity gate.identity with
    | .error message => .ok (.failed (pruneConnectorSourceIdentityFailureReason message) false)
    | .ok gateIdentity =>
      if ¬isValidConnectorHistoryGateEvidence host gate then
        .ok (.failed "gate_evidence_invalid" false)
      else match comparePruneConnectorSourceIdentities candidateIdentity gateIdentity with
      | .ok none => .ok (.proven candidateIdentity gateIdentity)
      | .ok (some failureReason) => .ok (.failed failureReason false)
      | .error message => .error message

def classifyLockedEvidence (host : Host) (candidate : Option CandidateRow) (gate : Option GateRow)
    (pair : Pair) : Except String Classified :=
  match candidate, gate with
  | none, _ => .ok (.failed "candidate_evidence_missing" false)
  | _, none => .ok (.failed "gate_evidence_missing" false)
  | some candidate, some gate =>
    match evidencePairMatches candidate.dayUtc candidate.connectorId pair,
      evidencePairMatches gate.dayUtc gate.connectorId pair with
    | .ok true, .ok true => classifyEvidence host candidate gate
    | .ok true, _ => .ok (.failed "gate_evidence_invalid" true)
    | _, _ => .ok (.failed "candidate_evidence_invalid" true)

/-- **Evidence that proves a deletion**: a complete candidate with the marker of a first deletion,
and a valid gate of the same publication with the same source identity. -/
structure Proven (host : Host) (candidate : CandidateRow) (gate : GateRow)
    (identity : SourceIdentity) : Prop where
  complete : candidate.status = "complete"
  ready : candidate.lastError = some firstDeleteReady
  sameRun : candidate.runId = gate.historyRunId
  sameManifest : candidate.manifestKey = gate.historyManifestKey
  validGate : isValidConnectorHistoryGateEvidence host gate = true
  candidateIdentity : normalizePruneConnectorSourceIdentity candidate.identity = .ok identity
  gateIdentity : normalizePruneConnectorSourceIdentity gate.identity = .ok identity

theorem proven_of_classifyEvidence {host : Host} {candidate : CandidateRow} {gate : GateRow}
    {candidateIdentity gateIdentity : SourceIdentity}
    (h : classifyEvidence host candidate gate = .ok (.proven candidateIdentity gateIdentity)) :
    candidateIdentity = gateIdentity ∧ Proven host candidate gate candidateIdentity := by
  simp only [classifyEvidence] at h
  split at h <;> try cases h
  rename_i hstatus
  split at h <;> try cases h
  split at h <;> try cases h
  rename_i hready
  split at h <;> try cases h
  rename_i hrun
  split at h <;> try cases h
  rename_i identity hidentity
  split at h <;> try cases h
  rename_i identity' hidentity'
  split at h <;> try cases h
  rename_i hvalid
  split at h <;> cases h
  rename_i hcompare
  rw [not_or, not_or, not_not, not_not] at hrun
  have hsame := eq_of_compare_none hcompare
  refine ⟨hsame, not_not.mp hstatus, not_not.mp hready, hrun.2.1, hrun.2.2, by simpa using hvalid,
    hidentity, ?_⟩
  rw [hidentity', hsame]

theorem proven_of_classifyLockedEvidence {host : Host} {candidate : Option CandidateRow}
    {gate : Option GateRow} {pair : Pair} {candidateIdentity gateIdentity : SourceIdentity}
    (h : classifyLockedEvidence host candidate gate pair
      = .ok (.proven candidateIdentity gateIdentity)) :
    ∃ candidateRow gateRow, candidate = some candidateRow ∧ gate = some gateRow ∧
      candidateIdentity = gateIdentity ∧ Proven host candidateRow gateRow candidateIdentity := by
  rw [classifyLockedEvidence.eq_def] at h
  split at h <;> try cases h
  rename_i candidateRow gateRow
  split at h <;> try cases h
  exact ⟨candidateRow, gateRow, rfl, rfl, proven_of_classifyEvidence h⟩

end UkAqOps.Prune

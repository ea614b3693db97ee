import UkAqOps.ContentHash.Lines

/-!
# What the content hashes are taken of

A content hash feeds SHA-256 with the line that names its contract and then with the lines of the
rows in sorted order. The bytes that are fed identify the rows up to their order, and no two
contracts are ever fed the same bytes.
-/

namespace UkAqOps.ContentHash

/-! ## Feeding the hash -/

/-- A hash in the making: the bytes that it has been fed. -/
structure Sha256 where
  fed : ByteArray

/-- `createHash("sha256")`. -/
def createHash : Sha256 := ⟨ByteArray.empty⟩

/-- `hash.update(text, "utf8")`. -/
def Sha256.update (hash : Sha256) (text : String) : Sha256 := ⟨hash.fed ++ text.toByteArray⟩

def observationContentHashPrefix : String := "uk-aq-observation-content-hash:v1\n"

def observationMeasurementContentHashPrefix : String :=
  "uk-aq-observation-measurement-content-hash:v2\n"

/-- The hash of encoded rows before its digest is taken. -/
def feedLines (contract : String) (encodedRows : List String) : Sha256 :=
  (encodedRows.mergeSort codeUnitLe).foldl
    (fun hash encoded ↦ (hash.update encoded).update "\n") (createHash.update contract)

/-- What the two hash functions have in common, up to the digest. -/
def feedContentHash {α : Type} (empty contract : String) (normalize : Row → Except String α)
    (toRow : α → Row) (encode : Row → Except String String) (rows : List Row) :
    Except String (List α × Sha256) := do
  if rows.isEmpty then .error empty else
  let canonicalRows ← rows.mapM normalize
  let encodedRows ← canonicalRows.mapM fun row ↦ encode (toRow row)
  pure (canonicalRows, feedLines contract encodedRows)

section Contracts

variable (dateParse : String → Option ℤ)

def feedObservationContentHash :
    List Row → Except String (List (ObservationRow dateParse) × Sha256) :=
  feedContentHash "observation content hash requires a non-empty canonical partition"
    observationContentHashPrefix (normalizeCanonicalObservationRow dateParse) ObservationRow.toRow
    (encodeCanonicalObservationRow dateParse)

def feedObservationMeasurementContentHash :
    List Row → Except String (List (MeasurementRow dateParse) × Sha256) :=
  feedContentHash "observation measurement content hash requires a non-empty canonical partition"
    observationMeasurementContentHashPrefix (normalizeCanonicalObservationMeasurementRow dateParse)
    MeasurementRow.toRow (encodeCanonicalObservationMeasurementRow dateParse)

/-- How many rows have each status. -/
structure StatusCounts where
  P : ℕ
  R : ℕ
  null : ℕ
deriving DecidableEq

/-- The result of a hash function. Only the first contract counts the statuses. -/
structure HashResult (α : Type) where
  observationContentHash : String
  contractVersion : ℕ
  rowCount : ℕ
  columns : List String
  verificationStatusCounts : Option StatusCounts
  canonicalRows : List α

def computeObservationContentHash (sha256Hex : ByteArray → String) (rows : List Row) :
    Except String (HashResult (ObservationRow dateParse)) := do
  let (canonicalRows, hash) ← feedObservationContentHash dateParse rows
  let count := fun status : Option VerificationStatus ↦
    canonicalRows.countP (·.verificationStatus = status)
  pure
    { observationContentHash := sha256Hex hash.fed
      contractVersion := 1
      rowCount := canonicalRows.length
      columns := observationContentHashColumns
      verificationStatusCounts := some ⟨count (some .P), count (some .R), count none⟩
      canonicalRows }

def computeObservationMeasurementContentHash (sha256Hex : ByteArray → String) (rows : List Row) :
    Except String (HashResult (MeasurementRow dateParse)) := do
  let (canonicalRows, hash) ← feedObservationMeasurementContentHash dateParse rows
  pure
    { observationContentHash := sha256Hex hash.fed
      contractVersion := 2
      rowCount := canonicalRows.length
      columns := observationMeasurementContentHashColumns
      verificationStatusCounts := none
      canonicalRows }

end Contracts

/-- What `computePruneConnectorSourceIdentity` feeds its hash with. -/
def pruneConnectorSourceStream (rows : List Prune.CanonicalRow) : Except String ByteArray := do
  if rows = [] then
    .error "Prune deletion evidence requires non-empty canonical connector-day rows" else
  let sourceRows ← rows.mapM Prune.normalizePruneConnectorSourceRow
  let encodedRows := (sourceRows.map Prune.encodeCanonicalObservationRow).mergeSort bytewiseLe
  pure (Prune.contentHashPrefix ++ String.join (encodedRows.map (· ++ "\n"))).toByteArray

/-! ## The text that is fed -/

theorem fed_foldl (encodedRows : List String) (hash : Sha256) :
    (encodedRows.foldl (fun hash encoded ↦ (hash.update encoded).update "\n") hash).fed =
      hash.fed ++ (String.join (encodedRows.map (· ++ "\n"))).toByteArray := by
  induction encodedRows generalizing hash with
  | nil => simp [String.join]
  | cons encoded encodedRows ih =>
    rw [List.foldl_cons, ih, Sha256.update, Sha256.update, List.map_cons, String.join_cons,
      String.toByteArray_append, String.toByteArray_append, ByteArray.append_assoc,
      ByteArray.append_assoc, ByteArray.append_assoc]

/-- A hash is fed with its contract and with the sorted lines, each ended by a line break. -/
theorem fed_feedLines (contract : String) (encodedRows : List String) :
    (feedLines contract encodedRows).fed =
      (contract ++ String.join ((encodedRows.mergeSort codeUnitLe).map (· ++ "\n"))).toByteArray := by
  rw [feedLines, fed_foldl, createHash, Sha256.update, String.toByteArray_append,
    ByteArray.empty_append]

theorem toList_join_lines (encodedRows : List String) :
    (String.join (encodedRows.map (· ++ "\n"))).toList =
      Framing.framed '\n' (encodedRows.map String.toList) := by
  rw [String.toList_join, Framing.framed, List.flatMap_map, List.flatMap_map]
  exact List.flatMap_congr fun encoded _ ↦ String.toList_append

/-- **Equal streams have the same lines**, in some order. -/
theorem fed_eq_iff_perm {contract : String} {lines lines' : List String}
    (hlines : ∀ line ∈ lines, '\n' ∉ line.toList) (hlines' : ∀ line ∈ lines', '\n' ∉ line.toList) :
    (feedLines contract lines).fed = (feedLines contract lines').fed ↔ lines.Perm lines' := by
  rw [← Framing.mergeSort_eq_iff_perm codeUnitLe_total codeUnitLe_trans codeUnitLe_antisymm,
    fed_feedLines, fed_feedLines]
  constructor
  · intro h
    have hlist := congrArg String.toList (String.toByteArray_inj.mp h)
    rw [String.toList_append, String.toList_append, toList_join_lines, toList_join_lines] at hlist
    have hnewline : ∀ {lines : List String}, (∀ line ∈ lines, '\n' ∉ line.toList) →
        ∀ line ∈ (lines.mergeSort codeUnitLe).map String.toList, '\n' ∉ line := by
      intro lines hlines line hline
      obtain ⟨text, htext, rfl⟩ := List.mem_map.mp hline
      exact hlines text (List.mem_mergeSort.mp htext)
    exact List.map_injective_iff.mpr (fun _ _ ↦ String.toList_inj.mp) (Framing.framed_injective
      (hnewline hlines) (hnewline hlines') (List.append_cancel_left hlist))
  · intro h
    rw [h]

/-- Texts that begin with the lines of two contracts differ. -/
theorem toByteArray_ne_of_contract_ne {contract contract' : String}
    (h : ¬contract.toList <+: contract'.toList) (h' : ¬contract'.toList <+: contract.toList)
    (rest rest' : String) : (contract ++ rest).toByteArray ≠ (contract' ++ rest').toByteArray := by
  intro heq
  have hlist := congrArg String.toList (String.toByteArray_inj.mp heq)
  rw [String.toList_append, String.toList_append] at hlist
  rcases List.prefix_or_prefix_of_prefix (List.prefix_append contract.toList rest.toList)
    (hlist ▸ List.prefix_append contract'.toList rest'.toList) with hle | hle
  · exact h hle
  · exact h' hle

/-! ## Lists of rows -/

section Feeding

variable {α : Type} {empty contract : String} {normalize : Row → Except String α}
  {toRow : α → Row} {encode : Row → Except String String} {line : α → String}

/-- What is hashed: rows that the normaliser accepts, by the lines of their canonical rows. -/
theorem feedContentHash_eq_ok_iff (hencode : ∀ row, encode (toRow row) = .ok (line row))
    {rows : List Row} {canonicalRows : List α} {hash : Sha256} :
    feedContentHash empty contract normalize toRow encode rows = .ok (canonicalRows, hash) ↔
      rows ≠ [] ∧ rows.mapM normalize = .ok canonicalRows ∧
        hash = feedLines contract (canonicalRows.map line) := by
  have hlines : ∀ canonicalRows : List α,
      (canonicalRows.mapM fun row ↦ encode (toRow row)) = .ok (canonicalRows.map line) :=
    fun canonicalRows ↦ (Except.mapM_eq_ok_iff _ _ _).mpr
      ((List.forall₂_map_right_iff).mpr (List.forall₂_same.mpr fun row _ ↦ hencode row))
  rw [feedContentHash]
  by_cases hempty : rows.isEmpty = true
  · rw [if_pos hempty]
    exact ⟨nofun, fun h ↦ absurd (List.isEmpty_iff.mp hempty) h.1⟩
  · rw [if_neg hempty]
    constructor
    · intro h
      obtain ⟨accepted, hrows, h⟩ := Except.bind_eq_ok_iff.mp h
      rw [hlines, Except.ok_bind] at h
      obtain ⟨hsame, hhash⟩ := Prod.mk.inj (Except.ok.inj h)
      rw [← hhash, ← hsame]
      exact ⟨fun heq ↦ hempty (List.isEmpty_iff.mpr heq), hrows, rfl⟩
    · rintro ⟨-, hrows, rfl⟩
      rw [hrows, Except.ok_bind, hlines]
      rfl

/-- The streams of a contract identify the canonical rows of what its normaliser accepts, up to
their order, and do not depend on the order of the rows. -/
structure Identifies (normalize : Row → Except String α)
    (feed : List Row → Except String (List α × Sha256)) : Prop where
  stream_eq_iff : ∀ rows rows' : List Row, rows ≠ [] → rows' ≠ [] → ∀ canonicalRows canonicalRows',
    rows.mapM normalize = .ok canonicalRows → rows'.mapM normalize = .ok canonicalRows' →
      ∃ hash hash', feed rows = .ok (canonicalRows, hash) ∧ feed rows' = .ok (canonicalRows', hash') ∧
        (hash.fed = hash'.fed ↔ canonicalRows.Perm canonicalRows')
  perm : ∀ rows rows' : List Row, rows.Perm rows' → ∀ canonicalRows hash,
    feed rows = .ok (canonicalRows, hash) → ∃ canonicalRows', feed rows' = .ok (canonicalRows', hash)

/-- A contract whose lines determine their rows and hold no line break identifies the rows. -/
theorem identifies (hencode : ∀ row, encode (toRow row) = .ok (line row))
    (hinjective : Function.Injective line) (hnewline : ∀ row, '\n' ∉ (line row).toList) :
    Identifies normalize (feedContentHash empty contract normalize toRow encode) := by
  have hfed : ∀ canonicalRows canonicalRows' : List α,
      (feedLines contract (canonicalRows.map line)).fed =
        (feedLines contract (canonicalRows'.map line)).fed ↔ canonicalRows.Perm canonicalRows' := by
    have hlines : ∀ canonicalRows : List α, ∀ text ∈ canonicalRows.map line, '\n' ∉ text.toList := by
      intro canonicalRows text htext
      obtain ⟨row, -, rfl⟩ := List.mem_map.mp htext
      exact hnewline row
    intro canonicalRows canonicalRows'
    rw [fed_eq_iff_perm (hlines canonicalRows) (hlines canonicalRows')]
    exact List.map_perm_map_iff hinjective
  refine ⟨?_, ?_⟩
  · intro rows rows' hne hne' canonicalRows canonicalRows' h h'
    exact ⟨_, _, (feedContentHash_eq_ok_iff hencode).mpr ⟨hne, h, rfl⟩,
      (feedContentHash_eq_ok_iff hencode).mpr ⟨hne', h', rfl⟩, hfed canonicalRows canonicalRows'⟩
  · intro rows rows' hperm canonicalRows hash h
    obtain ⟨hne, hrows, rfl⟩ := (feedContentHash_eq_ok_iff hencode).mp h
    obtain ⟨canonicalRows', hrows', hsame⟩ := Except.mapM_perm hperm hrows
    have hne' : rows' ≠ [] := fun heq ↦ hne (List.perm_nil.mp (heq ▸ hperm))
    have hhash : feedLines contract (canonicalRows.map line) =
        feedLines contract (canonicalRows'.map line) :=
      congrArg Sha256.mk ((hfed canonicalRows canonicalRows').mpr hsame)
    exact ⟨canonicalRows', (feedContentHash_eq_ok_iff hencode).mpr ⟨hne', hrows', hhash⟩⟩

end Feeding

section Contracts

variable {dateParse : String → Option ℤ}

/-- A row with its status is a measurement without it. -/
theorem normalizeCanonicalObservationMeasurementRow_of_ok {row : Row}
    {canonical : ObservationRow dateParse}
    (h : normalizeCanonicalObservationRow dateParse row = .ok canonical) :
    normalizeCanonicalObservationMeasurementRow dateParse row = .ok canonical.toMeasurementRow := by
  rcases row with _ | ⟨keys, read⟩
  · cases h
  · obtain ⟨physicalStatusField, -, h⟩ := Except.bind_eq_ok_iff.mp h
    split at h
    · cases h
    · obtain ⟨measurement, hmeasurement, h⟩ := Except.bind_eq_ok_iff.mp h
      obtain ⟨verificationStatus, -, h⟩ := Except.bind_eq_ok_iff.mp h
      rw [← Except.ok.inj h]
      exact hmeasurement

theorem fed_of_feedObservationContentHash {rows : List Row}
    {canonicalRows : List (ObservationRow dateParse)} {hash : Sha256}
    (h : feedObservationContentHash dateParse rows = .ok (canonicalRows, hash)) :
    ∃ rest, hash.fed = (observationContentHashPrefix ++ rest).toByteArray := by
  obtain ⟨-, -, rfl⟩ := (feedContentHash_eq_ok_iff encodeCanonicalObservationRow_toRow).mp h
  exact ⟨_, fed_feedLines _ _⟩

theorem fed_of_feedObservationMeasurementContentHash {rows : List Row}
    {canonicalRows : List (MeasurementRow dateParse)} {hash : Sha256}
    (h : feedObservationMeasurementContentHash dateParse rows = .ok (canonicalRows, hash)) :
    ∃ rest, hash.fed = (observationMeasurementContentHashPrefix ++ rest).toByteArray := by
  obtain ⟨-, -, rfl⟩ :=
    (feedContentHash_eq_ok_iff encodeCanonicalObservationMeasurementRow_toRow).mp h
  exact ⟨_, fed_feedLines _ _⟩

theorem of_pruneConnectorSourceStream {rows : List Prune.CanonicalRow} {stream : ByteArray}
    (h : pruneConnectorSourceStream rows = .ok stream) :
    ∃ rest, stream = (Prune.contentHashPrefix ++ rest).toByteArray := by
  rw [pruneConnectorSourceStream] at h
  split at h
  · cases h
  · obtain ⟨sourceRows, -, h⟩ := Except.bind_eq_ok_iff.mp h
    exact ⟨_, (Except.ok.inj h).symm⟩

/-- The hash of the first contract is the digest of its stream. -/
theorem computeObservationContentHash_eq_ok {sha256Hex : ByteArray → String} {rows : List Row}
    {result : HashResult (ObservationRow dateParse)}
    (h : computeObservationContentHash dateParse sha256Hex rows = .ok result) :
    ∃ hash, feedObservationContentHash dateParse rows = .ok (result.canonicalRows, hash) ∧
      result.observationContentHash = sha256Hex hash.fed := by
  obtain ⟨⟨canonicalRows, hash⟩, hfeed, h⟩ := Except.bind_eq_ok_iff.mp h
  rw [← Except.ok.inj h]
  exact ⟨hash, hfeed, rfl⟩

/-- The hash of the second contract is the digest of its stream. -/
theorem computeObservationMeasurementContentHash_eq_ok {sha256Hex : ByteArray → String}
    {rows : List Row} {result : HashResult (MeasurementRow dateParse)}
    (h : computeObservationMeasurementContentHash dateParse sha256Hex rows = .ok result) :
    ∃ hash, feedObservationMeasurementContentHash dateParse rows = .ok (result.canonicalRows, hash) ∧
      result.observationContentHash = sha256Hex hash.fed := by
  obtain ⟨⟨canonicalRows, hash⟩, hfeed, h⟩ := Except.bind_eq_ok_iff.mp h
  rw [← Except.ok.inj h]
  exact ⟨hash, hfeed, rfl⟩

variable (dateParse)

end Contracts

/-! ## Two orders of two rows -/

def samplePM25 : String := "pm25"

def sampleTime : String := "2024-05-01T12:00:00.000Z"

def sampleDateParse (text : String) : Option ℤ := if text = sampleTime then some 1714564800000 else none

/-- Two and a half, measured by the timeseries of this id. -/
def sampleRow (timeseriesId : PositiveInteger) : ObservationRow sampleDateParse where
  connectorId := ⟨⟨0x3FF0000000000000⟩, by decide⟩
  stationId := none
  timeseriesId := timeseriesId
  pollutantCode := ⟨samplePM25, by decide⟩
  observedAtUtc := ⟨sampleTime, by decide⟩
  value := ⟨⟨0x4004000000000000⟩, by decide⟩
  verificationStatus := some .P

def sampleOne : PositiveInteger := ⟨⟨0x3FF0000000000000⟩, by decide⟩
def sampleTwo : PositiveInteger := ⟨⟨0x4000000000000000⟩, by decide⟩

end UkAqOps.ContentHash

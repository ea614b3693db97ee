import UkAqOps.ContentHash.Streams
import UkAqOps.Lib.Sort
import UkAqOps.TargetWriter.Splitting

/-!
# The rows of a partition in their order

The input of the target writer is any list of rows of one connector, pollutant and day. They are put
into the order of their timeseries, time and canonical line, which no two different rows share, and
packed into files.
-/

namespace UkAqOps.TargetWriter

open ContentHash Cutting Sorting

/-- The built-in operations the writer relies on. -/
structure Host where
  sha256Hex : ByteArray → String
  dateParse : String → Option ℤ
  toLowerCase : String → String

/-! ## Partitions -/

/-- A partition as it is given: its texts, and what `Number` makes of the connector, none unless a
safe integer. -/
structure RawScope where
  dayUtc : String
  connectorId : Option ℤ
  pollutantCode : String

structure PartitionScope where
  dayUtc : String
  connectorId : ℤ
  pollutantCode : String
deriving DecidableEq

def normalizePartitionScope (host : Host) : Option RawScope → Except String PartitionScope
  | none => .error "empty target writer input requires an explicit partition scope"
  | some scope =>
    let dayUtc := trimText scope.dayUtc
    let pollutantCode := host.toLowerCase (trimText scope.pollutantCode)
    if parseIsoDay dayUtc = none then .error "partition.day_utc must be a canonical UTC day"
    else match scope.connectorId with
      | none => .error "partition.connector_id must be a positive safe integer"
      | some connectorId =>
        if connectorId ≤ 0 then .error "partition.connector_id must be a positive safe integer"
        else if ¬Prune.isCanonicalPollutantCode pollutantCode then
          .error "partition.pollutant_code is invalid"
        else .ok ⟨dayUtc, connectorId, pollutantCode⟩

/-! ## The order of rows -/

section Rows

variable {dateParse : String → Option ℤ}

/-- The number that an id is. -/
def idValue (id : PositiveInteger) : ℤ := id.val.toInt?.getD 0

/-- `left < right ? -1 : 1` for texts that differ. -/
def compareTexts (left right : String) : Ordering := compare (codeUnits left) (codeUnits right)

/-- A row with the line that decides between rows of one timeseries and time. -/
structure Entry (dateParse : String → Option ℤ) where
  row : ObservationRow dateParse
  tieBreak : String

def compareCanonicalPhysicalRows (left right : Entry dateParse) : Ordering :=
  (compare (idValue left.row.timeseriesId) (idValue right.row.timeseriesId)).then
    ((compareTexts left.row.observedAtUtc right.row.observedAtUtc).then
      (compareTexts left.tieBreak right.tieBreak))

/-- The date of a row. -/
def dayOf (row : ObservationRow dateParse) : String := takeText row.observedAtUtc 10

def checkScope (first row : ObservationRow dateParse) : Except String Unit :=
  if row.connectorId ≠ first.connectorId then
    .error "target writer input must contain one connector_id"
  else if row.pollutantCode ≠ first.pollutantCode then
    .error "target writer input must contain one pollutant_code"
  else if dayOf row ≠ dayOf first then .error "target writer input must contain one UTC day"
  else .ok ()

end Rows

/-! ## Candidates -/

section Build

variable (host : Host)

/-- The rows in their order, the hash of their content without the rows, and their partition. -/
structure PhysicalRows where
  orderedRows : List (ObservationRow host.dateParse)
  contentHash : HashResult (ObservationRow host.dateParse)
  partition : PartitionScope

def computeEmptyObservationContentHash : HashResult (ObservationRow host.dateParse) where
  observationContentHash := host.sha256Hex (createHash.update observationContentHashPrefix).fed
  contractVersion := 1
  rowCount := 0
  columns := observationContentHashColumns
  verificationStatusCounts := some ⟨0, 0, 0⟩
  canonicalRows := []

/-- The partition that is asked for, if one is. -/
def requestedPartitionOf : Option RawScope → Except String (Option PartitionScope)
  | none => .ok none
  | some scope => some <$> normalizePartitionScope host (some scope)

/-- What follows the sorting: the rows have one scope, which is the one that is asked for. -/
def scopePhysicalRows (orderedRows : List (ObservationRow host.dateParse))
    (contentHash : HashResult (ObservationRow host.dateParse)) (explicitPartition : Option RawScope) :
    Except String (PhysicalRows host) := do
  match orderedRows with
  -- the rows are not empty here
  | [] => .error "target writer rows must be an array"
  | first :: _ =>
    let requestedPartition ← requestedPartitionOf host explicitPartition
    let _ ← orderedRows.mapM (checkScope first)
    let scope : PartitionScope := ⟨dayOf first, idValue first.connectorId, first.pollutantCode⟩
    if requestedPartition.any (· ≠ scope) then
      .error "explicit target writer partition disagrees with canonical rows"
    else pure ⟨orderedRows, contentHash, requestedPartition.getD scope⟩

def canonicalPhysicalRows (rows : List Row) (explicitPartition : Option RawScope) :
    Except String (PhysicalRows host) := do
  if rows.isEmpty then
    let scope ← normalizePartitionScope host explicitPartition
    pure ⟨[], computeEmptyObservationContentHash host, scope⟩
  else
    let hashResult ← computeObservationContentHash host.dateParse host.sha256Hex rows
    let entries ← hashResult.canonicalRows.mapM fun row ↦
      Entry.mk row <$> encodeCanonicalObservationRow host.dateParse row.toRow
    let orderedRows := (sortBy compareCanonicalPhysicalRows entries).map Entry.row
    scopePhysicalRows host orderedRows { hashResult with canonicalRows := [] } explicitPartition

variable {β : Type} (serializer : Serializer (ObservationRow host.dateParse) β)

/-- The candidates of `buildCanonicalObservationTimeseriesAlignedFiles`, with the rows they hold. -/
def buildCandidates (rawLimits : RawLimits) (rows : List Row) (explicitPartition : Option RawScope) :
    Except String (PhysicalRows host × List (File (ObservationRow host.dateParse) β)) := do
  let limits ← validateLimits rawLimits
  let physical ← canonicalPhysicalRows host rows explicitPartition
  let candidates ← buildSerializedCandidates (fun row ↦ idValue row.timeseriesId) limits serializer
    physical.orderedRows
  pure (physical, candidates)

end Build

/-! ## One order -/

section Order

variable {dateParse : String → Option ℤ}

theorem transCmp_compareTexts : Std.TransCmp compareTexts := transCmp_on inferInstance codeUnits

theorem eq_of_compareTexts {left right : String} (h : compareTexts left right = .eq) :
    left = right :=
  codeUnits_injective (Std.LawfulEqCmp.eq_of_compare h)

instance : Std.TransCmp (@compareCanonicalPhysicalRows dateParse) :=
  transCmp_then (transCmp_on inferInstance _)
    (transCmp_then (transCmp_on transCmp_compareTexts _) (transCmp_on transCmp_compareTexts _))

/-- A row with its own line. -/
def entryOf (row : ObservationRow dateParse) : Entry dateParse := ⟨row, row.line⟩

/-- Rows that compare as equal have one line, and so are one row. -/
theorem eq_of_compareCanonicalPhysicalRows {a b : ObservationRow dateParse}
    (h : compareCanonicalPhysicalRows (entryOf a) (entryOf b) = .eq) : a = b := by
  rw [compareCanonicalPhysicalRows, Ordering.then_eq_eq, Ordering.then_eq_eq] at h
  exact ObservationRow.line_injective (eq_of_compareTexts h.2.2)

/-- The rows in the order of their entries. -/
def inOrder (rows : List (ObservationRow dateParse)) : List (ObservationRow dateParse) :=
  (sortBy compareCanonicalPhysicalRows (rows.map entryOf)).map Entry.row

theorem inOrder_perm (rows : List (ObservationRow dateParse)) : (inOrder rows).Perm rows := by
  have hsort : (sortBy compareCanonicalPhysicalRows (rows.map entryOf)).Perm (rows.map entryOf) :=
    sortBy_perm _
  have h := hsort.map Entry.row
  rw [List.map_map, show Entry.row ∘ entryOf = (id : ObservationRow dateParse → _) from rfl,
    List.map_id] at h
  exact h

/-- The order of the rows does not depend on the order in which they come. -/
theorem inOrder_eq_of_perm {rows rows' : List (ObservationRow dateParse)} (h : rows.Perm rows') :
    inOrder rows = inOrder rows' := by
  have hsame : sortBy compareCanonicalPhysicalRows (rows.map entryOf) =
      sortBy compareCanonicalPhysicalRows (rows'.map entryOf) := by
    refine Sorting.sortBy_eq_of_perm (h.map entryOf) fun a ha b hb hcmp ↦ ?_
    obtain ⟨row, -, rfl⟩ := List.mem_map.mp ha
    obtain ⟨row', -, rfl⟩ := List.mem_map.mp hb
    exact congrArg entryOf (eq_of_compareCanonicalPhysicalRows hcmp)
  rw [inOrder, inOrder, hsame]

/-- One row is not behind another that comes after it. -/
def NotBehind (a b : ObservationRow dateParse) : Prop :=
  (compareCanonicalPhysicalRows (entryOf a) (entryOf b)).isLE

theorem pairwise_inOrder (rows : List (ObservationRow dateParse)) :
    (inOrder rows).Pairwise NotBehind := by
  rw [inOrder, List.pairwise_map]
  refine (pairwise_sortBy (rows.map entryOf)).imp_of_mem fun {a b} ha hb hle ↦ ?_
  obtain ⟨row, -, rfl⟩ := List.mem_map.mp (mem_sortBy.mp ha)
  obtain ⟨row', -, rfl⟩ := List.mem_map.mp (mem_sortBy.mp hb)
  exact hle

end Order

/-! ## The partition of the rows -/

section Partition

variable {host : Host}

/-- The scoping leaves the rows as they are. -/
theorem orderedRows_of_scopePhysicalRows {orderedRows : List (ObservationRow host.dateParse)}
    {contentHash : HashResult (ObservationRow host.dateParse)} {explicitPartition : Option RawScope}
    {physical : PhysicalRows host}
    (h : scopePhysicalRows host orderedRows contentHash explicitPartition = .ok physical) :
    physical.orderedRows = orderedRows := by
  rcases orderedRows with _ | ⟨first, rest⟩
  · cases h
  · obtain ⟨requestedPartition, -, h⟩ := Except.bind_eq_ok_iff.mp h
    obtain ⟨checks, -, h⟩ := Except.bind_eq_ok_iff.mp h
    dsimp only at h
    split at h
    · cases h
    · rw [← Except.ok.inj h]

/-- Rows that are not empty are hashed, put in order and scoped. -/
theorem canonicalPhysicalRows_of_ne_nil {rows : List Row} (hne : rows ≠ [])
    (explicitPartition : Option RawScope) :
    canonicalPhysicalRows host rows explicitPartition =
      (do
        let hashResult ← computeObservationContentHash host.dateParse host.sha256Hex rows
        scopePhysicalRows host (inOrder hashResult.canonicalRows)
          { hashResult with canonicalRows := [] } explicitPartition) := by
  have hentries : ∀ canonicalRows : List (ObservationRow host.dateParse),
      (canonicalRows.mapM fun row ↦
        Entry.mk row <$> encodeCanonicalObservationRow host.dateParse row.toRow) =
          .ok (canonicalRows.map entryOf) := by
    intro canonicalRows
    refine (Except.mapM_eq_ok_iff _ _ _).mpr (List.forall₂_map_right_iff.mpr ?_)
    refine List.forall₂_same.mpr fun row _ ↦ ?_
    rw [encodeCanonicalObservationRow_toRow]
    rfl
  rw [canonicalPhysicalRows, if_neg fun hempty ↦ hne (List.isEmpty_iff.mp hempty)]
  simp only [hentries, Except.ok_bind]
  rfl

/-- The rows in their order are the canonical rows, sorted. -/
theorem orderedRows_of_canonicalPhysicalRows {rows : List Row} {explicitPartition : Option RawScope}
    {physical : PhysicalRows host}
    (h : canonicalPhysicalRows host rows explicitPartition = .ok physical) :
    ∃ canonicalRows, rows.mapM (normalizeCanonicalObservationRow host.dateParse) = .ok canonicalRows ∧
      physical.orderedRows = inOrder canonicalRows := by
  rcases eq_or_ne rows [] with rfl | hne
  · obtain ⟨scope, -, h⟩ := Except.bind_eq_ok_iff.mp h
    refine ⟨[], rfl, ?_⟩
    rw [← Except.ok.inj h]
    rfl
  · rw [canonicalPhysicalRows_of_ne_nil hne] at h
    obtain ⟨hashResult, hcompute, h⟩ := Except.bind_eq_ok_iff.mp h
    obtain ⟨hash, hfeed, -⟩ := computeObservationContentHash_eq_ok hcompute
    obtain ⟨-, hrows, -⟩ := (feedContentHash_eq_ok_iff encodeCanonicalObservationRow_toRow).mp hfeed
    exact ⟨hashResult.canonicalRows, hrows, orderedRows_of_scopePhysicalRows h⟩

/-- The hash of rows in another order is the same but for the order of the canonical rows. -/
theorem computeObservationContentHash_of_perm {rows rows' : List Row} (hperm : rows.Perm rows')
    {result : HashResult (ObservationRow host.dateParse)}
    (h : computeObservationContentHash host.dateParse host.sha256Hex rows = .ok result) :
    ∃ canonicalRows', result.canonicalRows.Perm canonicalRows' ∧
      computeObservationContentHash host.dateParse host.sha256Hex rows' =
        .ok { result with canonicalRows := canonicalRows' } := by
  obtain ⟨⟨canonicalRows, hash⟩, hfeed, h⟩ := Except.bind_eq_ok_iff.mp h
  have hencode := @encodeCanonicalObservationRow_toRow host.dateParse
  have hidentifies : Identifies (normalizeCanonicalObservationRow host.dateParse)
      (feedObservationContentHash host.dateParse) :=
    identifies hencode ObservationRow.line_injective ObservationRow.newline_notMem_line
  obtain ⟨canonicalRows', hfeed'⟩ := hidentifies.perm rows rows' hperm _ _ hfeed
  obtain ⟨-, hrows, -⟩ := (feedContentHash_eq_ok_iff hencode).mp hfeed
  obtain ⟨-, hrows', -⟩ := (feedContentHash_eq_ok_iff hencode).mp hfeed'
  obtain ⟨canonical, hmapped, hsame⟩ := Except.mapM_perm hperm hrows
  rw [hmapped] at hrows'
  rw [Except.ok.inj hrows'] at hsame
  refine ⟨canonicalRows', ?_, ?_⟩
  · rw [← Except.ok.inj h]
    exact hsame
  · rw [computeObservationContentHash, hfeed', Except.ok_bind, ← Except.ok.inj h]
    simp only [hsame.length_eq, hsame.countP_eq]
    rfl

/-- **The partition does not depend on the order of its rows.** -/
theorem canonicalPhysicalRows_of_perm {rows rows' : List Row} (hperm : rows.Perm rows')
    {explicitPartition : Option RawScope} {physical : PhysicalRows host}
    (h : canonicalPhysicalRows host rows explicitPartition = .ok physical) :
    canonicalPhysicalRows host rows' explicitPartition = .ok physical := by
  rcases eq_or_ne rows [] with rfl | hne
  · rw [List.nil_perm.mp hperm]
    exact h
  · have hne' : rows' ≠ [] := fun hnil ↦ hne (List.perm_nil.mp (hnil ▸ hperm))
    rw [canonicalPhysicalRows_of_ne_nil hne] at h
    obtain ⟨hashResult, hcompute, h⟩ := Except.bind_eq_ok_iff.mp h
    obtain ⟨canonicalRows', hsame, hcompute'⟩ := computeObservationContentHash_of_perm hperm hcompute
    rw [canonicalPhysicalRows_of_ne_nil hne', hcompute', Except.ok_bind, ← inOrder_eq_of_perm hsame]
    exact h

/-- Rows of one connector, pollutant and day. -/
def OneScope (rows : List (ObservationRow host.dateParse)) : Prop :=
  ∀ a ∈ rows, ∀ b ∈ rows, a.connectorId = b.connectorId ∧ a.pollutantCode = b.pollutantCode ∧
    dayOf a = dayOf b

/-- Rows that pass the checks are the rows of their own partition. -/
theorem scopePhysicalRows_eq_ok {first : ObservationRow host.dateParse}
    {rest : List (ObservationRow host.dateParse)}
    {contentHash : HashResult (ObservationRow host.dateParse)}
    (hchecks : ∀ row ∈ first :: rest, checkScope first row = .ok ()) :
    scopePhysicalRows host (first :: rest) contentHash none = .ok ⟨first :: rest, contentHash,
      ⟨dayOf first, idValue first.connectorId, first.pollutantCode⟩⟩ := by
  obtain ⟨checks, hmap⟩ := (Except.exists_mapM_eq_ok_iff (checkScope first) (first :: rest)).mpr
    fun row hrow ↦ ⟨(), hchecks row hrow⟩
  simp only [scopePhysicalRows, requestedPartitionOf, Except.ok_bind, hmap]
  rfl

/-- Canonical rows of one scope are the rows of a partition. -/
theorem exists_canonicalPhysicalRows {canonicalRows : List (ObservationRow host.dateParse)}
    (hne : canonicalRows ≠ []) (hscope : OneScope canonicalRows) :
    ∃ physical,
      canonicalPhysicalRows host (canonicalRows.map ObservationRow.toRow) none = .ok physical := by
  have hrows : (canonicalRows.map ObservationRow.toRow).mapM
      (normalizeCanonicalObservationRow host.dateParse) = .ok canonicalRows :=
    (Except.mapM_eq_ok_iff _ _ _).mpr (List.forall₂_map_left_iff.mpr
      (List.forall₂_same.mpr fun row _ ↦ normalizeCanonicalObservationRow_toRow row))
  have hne' : canonicalRows.map ObservationRow.toRow ≠ [] := mt List.map_eq_nil_iff.mp hne
  have hfeed : feedObservationContentHash host.dateParse (canonicalRows.map ObservationRow.toRow) =
      .ok (canonicalRows,
        feedLines observationContentHashPrefix (canonicalRows.map ObservationRow.line)) :=
    (feedContentHash_eq_ok_iff encodeCanonicalObservationRow_toRow).mpr ⟨hne', hrows, rfl⟩
  obtain ⟨hashResult, hcompute, hsame⟩ : ∃ hashResult,
      computeObservationContentHash host.dateParse host.sha256Hex
        (canonicalRows.map ObservationRow.toRow) = .ok hashResult ∧
      hashResult.canonicalRows = canonicalRows := by
    rw [computeObservationContentHash, hfeed, Except.ok_bind]
    exact ⟨_, rfl, rfl⟩
  rw [canonicalPhysicalRows_of_ne_nil hne', hcompute, Except.ok_bind, hsame]
  have hperm := inOrder_perm canonicalRows
  rcases horder : inOrder canonicalRows with _ | ⟨first, rest⟩
  · rw [horder] at hperm
    exact absurd (List.nil_perm.mp hperm) hne
  · rw [horder] at hperm
    have hchecks : ∀ row ∈ first :: rest, checkScope first row = .ok () := by
      intro row hrow
      obtain ⟨hconnector, hcode, hday⟩ := hscope row (hperm.mem_iff.mp hrow) first
        (hperm.mem_iff.mp List.mem_cons_self)
      rw [checkScope, if_neg (not_not.mpr hconnector), if_neg (not_not.mpr hcode),
        if_neg (not_not.mpr hday)]
    exact ⟨_, scopePhysicalRows_eq_ok hchecks⟩

end Partition

/-! ## The files of a partition -/

section Files

variable (host : Host) {β : Type} (serializer : Serializer (ObservationRow host.dateParse) β)

end Files

/-! ## Two rows of one partition -/

def sampleHost : Host where
  sha256Hex := fun bytes ↦ toString bytes.size
  dateParse := sampleDateParse
  toLowerCase := id

/-- Limits of two rows a group and a file. -/
def sampleLimits : RawLimits := ⟨some 2, some 2, some 2, some 2, some 100, some 100, some 5⟩

/-- A writer of forty bytes a row. -/
def sampleSerializer : Serializer (ObservationRow sampleDateParse) ℕ where
  serializeRows := fun rows _ ↦ 40 * rows.length
  byteLength := id

end UkAqOps.TargetWriter

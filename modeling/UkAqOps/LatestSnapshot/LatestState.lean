import Mathlib.Data.Int.Notation
import Mathlib.Order.Bounds.Basic
import Mathlib.Order.Defs.LinearOrder
import UkAqOps.Lib.OrderedMap

/-!
# The latest state

The latest observation of every timeseries is kept in one map, which two kinds of batches write: the
scheduled ones, whose rows come at least once and in any order, and those of a reconciliation. Both
keep the row that was observed last. On one timestamp a scheduled row wins if it was ingested later,
a row of a reconciliation if its content differs.
-/

namespace UkAqOps.LatestSnapshot

section LatestState

variable {ν : Type} [DecidableEq ν] {dateParse : String → Option ℤ}

/-! ## Rows and entries -/

/-- An observation at a time that `Date.parse` reads. The values are numbers as `Object.is` tells them
apart. -/
structure Row (dateParse : String → Option ℤ) (ν : Type) where
  connectorId : ℤ
  timeseriesId : ℤ
  observedAt : String
  value : ν
  valueFloat8Hex : Option String
  status : Option String
  observedMs : ℤ
  parses : dateParse observedAt = some observedMs

/-- A row of the state, with the time of its ingestion. -/
structure Entry (dateParse : String → Option ℤ) (ν : Type) where
  row : Row dateParse ν
  ingestedAt : Option String

abbrev StateMap (dateParse : String → Option ℤ) (ν : Type) := OrderedMap String (Entry dateParse ν)

def latestStateKey (connectorId timeseriesId : ℤ) : String :=
  toString connectorId ++ ":" ++ toString timeseriesId

def Row.key (row : Row dateParse ν) : String := latestStateKey row.connectorId row.timeseriesId

/-- `ingested_at ? Date.parse(ingested_at) : 0`, where no number stands for `NaN`. -/
def Entry.ingestedMs (entry : Entry dateParse ν) : Option ℤ :=
  match entry.ingestedAt with
  | none => some 0
  | some text => if text = "" then some 0 else dateParse text

/-- The difference that orders two entries, where no number stands for `NaN`. -/
def compareLatestStateRows (a b : Entry dateParse ν) : Option ℤ :=
  let observedAtDifference := a.row.observedMs - b.row.observedMs
  if observedAtDifference ≠ 0 then some observedAtDifference
  else a.ingestedMs.bind fun aIngestedAt ↦ b.ingestedMs.map fun bIngestedAt ↦
    aIngestedAt - bIngestedAt

/-! ## Scheduled batches -/

structure EligibleSummary where
  appliedNew : ℕ
  appliedNewer : ℕ
  skippedOlder : ℕ
  skippedDuplicate : ℕ

def applyEligibleRow (ingestedAt : String) (state : StateMap dateParse ν × EligibleSummary)
    (row : Row dateParse ν) : StateMap dateParse ν × EligibleSummary :=
  let (stateMap, summary) := state
  let next : Entry dateParse ν := ⟨row, some ingestedAt⟩
  match stateMap.get? row.key with
  | none => (stateMap.set row.key next, { summary with appliedNew := summary.appliedNew + 1 })
  | some current =>
    match compareLatestStateRows current next with
    | none => (stateMap, { summary with skippedOlder := summary.skippedOlder + 1 })
    | some comparison =>
      if comparison < 0 then
        (stateMap.set row.key next, { summary with appliedNewer := summary.appliedNewer + 1 })
      else if comparison = 0 then
        (stateMap, { summary with skippedDuplicate := summary.skippedDuplicate + 1 })
      else (stateMap, { summary with skippedOlder := summary.skippedOlder + 1 })

def applyEligibleRowsToLatestState (stateMap : StateMap dateParse ν) (rows : List (Row dateParse ν))
    (ingestedAt : String) : StateMap dateParse ν × EligibleSummary :=
  rows.foldl (applyEligibleRow ingestedAt) (stateMap, ⟨0, 0, 0, 0⟩)

/-! ## Batches of a reconciliation -/

structure IntegritySummary where
  appliedNewCount : ℕ
  appliedNewerCount : ℕ
  appliedSameTimestampCorrectionCount : ℕ
  skippedEqualCount : ℕ
  skippedOlderCount : ℕ

def canonicalContentEqual (row current : Row dateParse ν) : Prop :=
  row.value = current.value ∧ row.valueFloat8Hex = current.valueFloat8Hex ∧
    row.status = current.status

instance (row current : Row dateParse ν) : Decidable (canonicalContentEqual row current) :=
  inferInstanceAs (Decidable (_ ∧ _ ∧ _))

def applyIntegrityCandidate (reconciledAt : String) (state : StateMap dateParse ν × IntegritySummary)
    (row : Row dateParse ν) : StateMap dateParse ν × IntegritySummary :=
  let (stateMap, summary) := state
  let next : Entry dateParse ν := ⟨row, some reconciledAt⟩
  match stateMap.get? row.key with
  | none =>
    (stateMap.set row.key next, { summary with appliedNewCount := summary.appliedNewCount + 1 })
  | some current =>
    let observedDifference := row.observedMs - current.row.observedMs
    if 0 < observedDifference then
      (stateMap.set row.key next,
        { summary with appliedNewerCount := summary.appliedNewerCount + 1 })
    else if observedDifference < 0 then
      (stateMap, { summary with skippedOlderCount := summary.skippedOlderCount + 1 })
    else if canonicalContentEqual row current.row then
      (stateMap, { summary with skippedEqualCount := summary.skippedEqualCount + 1 })
    else
      (stateMap.set row.key next, { summary with
        appliedSameTimestampCorrectionCount := summary.appliedSameTimestampCorrectionCount + 1 })

def applyIntegrityCandidatesToLatestState (stateMap : StateMap dateParse ν)
    (rows : List (Row dateParse ν)) (reconciledAt : String) :
    StateMap dateParse ν × IntegritySummary :=
  rows.foldl (applyIntegrityCandidate reconciledAt) (stateMap, ⟨0, 0, 0, 0, 0⟩)

/-! ## Runs -/

inductive Batch (dateParse : String → Option ℤ) (ν : Type)
  | scheduled (rows : List (Row dateParse ν)) (ingestedAt : String)
  | reconciliation (rows : List (Row dateParse ν)) (reconciledAt : String)

def Batch.rows : Batch dateParse ν → List (Row dateParse ν)
  | .scheduled rows _ => rows
  | .reconciliation rows _ => rows

def applyBatch (stateMap : StateMap dateParse ν) : Batch dateParse ν → StateMap dateParse ν
  | .scheduled rows ingestedAt => (applyEligibleRowsToLatestState stateMap rows ingestedAt).1
  | .reconciliation rows reconciledAt =>
    (applyIntegrityCandidatesToLatestState stateMap rows reconciledAt).1

/-- The state after the batches. -/
def run (initial : StateMap dateParse ν) (batches : List (Batch dateParse ν)) :
    StateMap dateParse ν :=
  batches.foldl applyBatch initial

/-- One row of a batch, as it is delivered. -/
inductive Delivery (dateParse : String → Option ℤ) (ν : Type)
  | scheduled (row : Row dateParse ν) (ingestedAt : String)
  | reconciliation (row : Row dateParse ν) (reconciledAt : String)

def Delivery.row : Delivery dateParse ν → Row dateParse ν
  | .scheduled row _ => row
  | .reconciliation row _ => row

/-- What a delivery writes. -/
def Delivery.entry : Delivery dateParse ν → Entry dateParse ν
  | .scheduled row ingestedAt => ⟨row, some ingestedAt⟩
  | .reconciliation row reconciledAt => ⟨row, some reconciledAt⟩

/-- The delivery takes the place of the entry that is kept under its key. -/
def Delivery.Replaces (current : Entry dateParse ν) : Delivery dateParse ν → Prop
  | .scheduled row ingestedAt =>
    ∃ comparison, compareLatestStateRows current ⟨row, some ingestedAt⟩ = some comparison ∧
      comparison < 0
  | .reconciliation row _ => current.row.observedMs < row.observedMs ∨
      current.row.observedMs = row.observedMs ∧ ¬canonicalContentEqual row current.row

def deliver (stateMap : StateMap dateParse ν) : Delivery dateParse ν → StateMap dateParse ν
  | .scheduled row ingestedAt => (applyEligibleRow ingestedAt (stateMap, ⟨0, 0, 0, 0⟩) row).1
  | .reconciliation row reconciledAt =>
    (applyIntegrityCandidate reconciledAt (stateMap, ⟨0, 0, 0, 0, 0⟩) row).1

/-- The rows of a batch, one after the other. -/
def Batch.deliveries : Batch dateParse ν → List (Delivery dateParse ν)
  | .scheduled rows ingestedAt => rows.map fun row ↦ .scheduled row ingestedAt
  | .reconciliation rows reconciledAt => rows.map fun row ↦ .reconciliation row reconciledAt

/-- **A delivery** writes its entry under its key if there is none or it replaces it, and else leaves
the map alone. -/
theorem deliver_cases (stateMap : StateMap dateParse ν) (delivery : Delivery dateParse ν) :
    (deliver stateMap delivery = stateMap.set delivery.row.key delivery.entry ∧
        ∀ current, stateMap.get? delivery.row.key = some current → delivery.Replaces current) ∨
      deliver stateMap delivery = stateMap ∧
        ∃ current, stateMap.get? delivery.row.key = some current ∧ ¬delivery.Replaces current := by
  rcases delivery with ⟨row, ingestedAt⟩ | ⟨row, reconciledAt⟩
  · rw [deliver, applyEligibleRow, Delivery.row]
    dsimp only
    split
    · rename_i hnone
      refine Or.inl ⟨rfl, fun current hcurrent ↦ ?_⟩
      rw [hnone] at hcurrent
      cases hcurrent
    · rename_i current hcurrent
      split
      · rename_i hnone
        refine Or.inr ⟨rfl, current, hcurrent, ?_⟩
        rintro ⟨comparison, hcomparison, -⟩
        rw [hnone] at hcomparison
        cases hcomparison
      · rename_i comparison hcomparison
        have hreplaces : (Delivery.scheduled row ingestedAt).Replaces current ↔ comparison < 0 := by
          constructor
          · rintro ⟨comparison', hcomparison', hneg⟩
            rwa [Option.some.inj (hcomparison.symm.trans hcomparison')]
          · exact fun hneg ↦ ⟨comparison, hcomparison, hneg⟩
        split
        · rename_i hneg
          refine Or.inl ⟨rfl, fun current' hcurrent' ↦ ?_⟩
          rw [← Option.some.inj (hcurrent.symm.trans hcurrent')]
          exact hreplaces.mpr hneg
        · rename_i hnot
          refine Or.inr ⟨?_, current, hcurrent, fun h ↦ hnot (hreplaces.mp h)⟩
          split <;> rfl
  · rw [deliver, applyIntegrityCandidate, Delivery.row]
    dsimp only
    split
    · rename_i hnone
      refine Or.inl ⟨rfl, fun current hcurrent ↦ ?_⟩
      rw [hnone] at hcurrent
      cases hcurrent
    · rename_i current hcurrent
      have hsame : ∀ current', stateMap.get? row.key = some current' → current' = current :=
        fun current' hcurrent' ↦ Option.some.inj (hcurrent'.symm.trans hcurrent)
      split
      · rename_i hnewer
        refine Or.inl ⟨rfl, fun current' hcurrent' ↦ ?_⟩
        rw [hsame current' hcurrent']
        exact Or.inl (by omega)
      · split
        · refine Or.inr ⟨rfl, current, hcurrent, ?_⟩
          rintro (hnewer | ⟨hequal, -⟩) <;> omega
        · split
          · rename_i hcontent
            refine Or.inr ⟨rfl, current, hcurrent, ?_⟩
            rintro (hnewer | ⟨-, hdiffers⟩)
            · omega
            · exact hdiffers hcontent
          · rename_i hdiffers
            refine Or.inl ⟨rfl, fun current' hcurrent' ↦ ?_⟩
            rw [hsame current' hcurrent']
            exact Or.inr ⟨by omega, hdiffers⟩

/-! ## Batches as deliveries -/

/-- What happens to the map does not depend on the counts. -/
theorem fst_applyEligibleRow (ingestedAt : String) (stateMap : StateMap dateParse ν)
    (summary : EligibleSummary) (row : Row dateParse ν) :
    (applyEligibleRow ingestedAt (stateMap, summary) row).1 =
      deliver stateMap (.scheduled row ingestedAt) := by
  rw [deliver, applyEligibleRow, applyEligibleRow]
  dsimp only
  split
  · rfl
  · split
    · rfl
    · split
      · rfl
      · split <;> rfl

theorem fst_applyIntegrityCandidate (reconciledAt : String) (stateMap : StateMap dateParse ν)
    (summary : IntegritySummary) (row : Row dateParse ν) :
    (applyIntegrityCandidate reconciledAt (stateMap, summary) row).1 =
      deliver stateMap (.reconciliation row reconciledAt) := by
  rw [deliver, applyIntegrityCandidate, applyIntegrityCandidate]
  dsimp only
  split
  · rfl
  · split
    · rfl
    · split
      · rfl
      · split <;> rfl

omit [DecidableEq ν] in
/-- A fold that keeps counts beside a map, without them. -/
theorem fst_foldl {σ : Type} {f : StateMap dateParse ν × σ → Row dateParse ν → StateMap dateParse ν × σ}
    {g : StateMap dateParse ν → Row dateParse ν → StateMap dateParse ν}
    (h : ∀ stateMap summary row, (f (stateMap, summary) row).1 = g stateMap row)
    (rows : List (Row dateParse ν)) (state : StateMap dateParse ν × σ) :
    (rows.foldl f state).1 = rows.foldl g state.1 := by
  induction rows generalizing state with
  | nil => rfl
  | cons row rest ih => rw [List.foldl_cons, List.foldl_cons, ih, ← h state.1 state.2 row]

theorem applyBatch_eq (stateMap : StateMap dateParse ν) (batch : Batch dateParse ν) :
    applyBatch stateMap batch = batch.deliveries.foldl deliver stateMap := by
  rcases batch with ⟨rows, ingestedAt⟩ | ⟨rows, reconciledAt⟩
  · rw [applyBatch, applyEligibleRowsToLatestState, Batch.deliveries, List.foldl_map]
    exact fst_foldl (fst_applyEligibleRow ingestedAt) rows _
  · rw [applyBatch, applyIntegrityCandidatesToLatestState, Batch.deliveries, List.foldl_map]
    exact fst_foldl (fst_applyIntegrityCandidate reconciledAt) rows _

/-- A run is that of its deliveries. -/
theorem run_eq (initial : StateMap dateParse ν) (batches : List (Batch dateParse ν)) :
    run initial batches = (batches.flatMap Batch.deliveries).foldl deliver initial := by
  induction batches generalizing initial with
  | nil => rfl
  | cons batch rest ih =>
    rw [List.flatMap_cons, List.foldl_append, ← applyBatch_eq]
    exact ih (applyBatch initial batch)

omit [DecidableEq ν] in
theorem mem_deliveries_row {batch : Batch dateParse ν} {row : Row dateParse ν} :
    (∃ delivery ∈ batch.deliveries, delivery.row = row) ↔ row ∈ batch.rows := by
  rcases batch with ⟨rows, ingestedAt⟩ | ⟨rows, reconciledAt⟩
  · simp [Batch.deliveries, Batch.rows, Delivery.row]
  · simp [Batch.deliveries, Batch.rows, Delivery.row]

/-! ## The latest row -/

omit [DecidableEq ν] in
theorem le_of_replaces {current : Entry dateParse ν} {delivery : Delivery dateParse ν}
    (h : delivery.Replaces current) : current.row.observedMs ≤ delivery.row.observedMs := by
  rcases delivery with ⟨row, ingestedAt⟩ | ⟨row, reconciledAt⟩
  · obtain ⟨comparison, hcomparison, hneg⟩ := h
    rw [compareLatestStateRows] at hcomparison
    dsimp only at hcomparison
    split at hcomparison
    · have hdifference := Option.some.inj hcomparison
      simp only [Delivery.row]
      omega
    · simp only [Delivery.row]
      omega
  · rcases h with hnewer | ⟨hequal, -⟩
    · exact hnewer.le
    · exact hequal.le

omit [DecidableEq ν] in
theorem le_of_not_replaces {current : Entry dateParse ν} {delivery : Delivery dateParse ν}
    (h : ¬delivery.Replaces current) : delivery.row.observedMs ≤ current.row.observedMs := by
  by_contra hlt
  rw [not_le] at hlt
  refine h ?_
  rcases delivery with ⟨row, ingestedAt⟩ | ⟨row, reconciledAt⟩
  · simp only [Delivery.row] at hlt
    refine ⟨current.row.observedMs - row.observedMs, ?_, by omega⟩
    rw [compareLatestStateRows]
    exact if_pos (show current.row.observedMs - row.observedMs ≠ 0 by omega)
  · exact Or.inl hlt

/-- The rows that have been supplied for a key: the initial one and those that were delivered. -/
def Supplied (initial : StateMap dateParse ν) (deliveries : List (Delivery dateParse ν)) (key : String) :
    Set (Row dateParse ν) :=
  {row | (∃ entry, initial.get? key = some entry ∧ entry.row = row) ∨
    ∃ delivery ∈ deliveries, delivery.row = row ∧ row.key = key}

/-- **The invariant**: under every key stands a supplied row that was observed last, and nothing if
none was supplied. -/
structure KeepsLatest (supplied : String → Set (Row dateParse ν)) (stateMap : StateMap dateParse ν) :
    Prop where
  latest : ∀ key entry, stateMap.get? key = some entry →
    entry.row ∈ supplied key ∧ ∀ row ∈ supplied key, row.observedMs ≤ entry.row.observedMs
  nothing : ∀ key, stateMap.get? key = none → supplied key = ∅

omit [DecidableEq ν] in
theorem mem_supplied_concat {initial : StateMap dateParse ν} {deliveries : List (Delivery dateParse ν)}
    {delivery : Delivery dateParse ν} {key : String} {row : Row dateParse ν} :
    row ∈ Supplied initial (deliveries ++ [delivery]) key ↔
      row ∈ Supplied initial deliveries key ∨ delivery.row = row ∧ row.key = key := by
  simp only [Supplied, Set.mem_ofPred_eq, List.mem_append, List.mem_singleton, or_and_right, exists_or,
    exists_eq_left, or_assoc]

/-- **One delivery** keeps the latest rows. -/
theorem KeepsLatest.deliver {initial : StateMap dateParse ν} {deliveries : List (Delivery dateParse ν)}
    {stateMap : StateMap dateParse ν} (h : KeepsLatest (Supplied initial deliveries) stateMap)
    (delivery : Delivery dateParse ν) :
    KeepsLatest (Supplied initial (deliveries ++ [delivery])) (deliver stateMap delivery) := by
  rcases deliver_cases stateMap delivery with ⟨hset, hreplaces⟩ | ⟨hself, current, hcurrent, hkept⟩
  · rw [hset]
    have hentryRow : delivery.entry.row = delivery.row := by
      rcases delivery with ⟨row, ingestedAt⟩ | ⟨row, reconciledAt⟩ <;> rfl
    refine ⟨fun key entry hentry ↦ ?_, fun key hnone ↦ ?_⟩
    · rw [OrderedMap.get?_set] at hentry
      split at hentry
      · rename_i hkey
        rw [← Option.some.inj hentry, hentryRow]
        refine ⟨mem_supplied_concat.mpr (Or.inr ⟨rfl, hkey.symm⟩), fun row hrow ↦ ?_⟩
        rcases mem_supplied_concat.mp hrow with hrow | ⟨rfl, -⟩
        · rcases hstored : stateMap.get? key with _ | current
          · rw [h.nothing key hstored] at hrow
            exact hrow.elim
          · refine ((h.latest key current hstored).2 row hrow).trans (le_of_replaces ?_)
            exact hreplaces current (hkey ▸ hstored)
        · exact le_rfl
      · rename_i hkey
        obtain ⟨hmem, hlatest⟩ := h.latest key entry hentry
        refine ⟨mem_supplied_concat.mpr (Or.inl hmem), fun row hrow ↦ ?_⟩
        rcases mem_supplied_concat.mp hrow with hrow | ⟨rfl, hrowKey⟩
        · exact hlatest row hrow
        · exact absurd hrowKey.symm hkey
    · rw [OrderedMap.get?_set] at hnone
      split at hnone
      · cases hnone
      · rename_i hkey
        refine Set.eq_empty_of_forall_notMem fun row hrow ↦ ?_
        rcases mem_supplied_concat.mp hrow with hrow | ⟨rfl, hrowKey⟩
        · rw [h.nothing key hnone] at hrow
          exact hrow
        · exact hkey hrowKey.symm
  · rw [hself]
    refine ⟨fun key entry hentry ↦ ?_, fun key hnone ↦ ?_⟩
    · obtain ⟨hmem, hlatest⟩ := h.latest key entry hentry
      refine ⟨mem_supplied_concat.mpr (Or.inl hmem), fun row hrow ↦ ?_⟩
      rcases mem_supplied_concat.mp hrow with hrow | ⟨rfl, hrowKey⟩
      · exact hlatest row hrow
      · rw [hrowKey] at hcurrent
        rw [Option.some.inj (hentry.symm.trans hcurrent)]
        exact le_of_not_replaces hkept
    · refine Set.eq_empty_of_forall_notMem fun row hrow ↦ ?_
      rcases mem_supplied_concat.mp hrow with hrow | ⟨rfl, hrowKey⟩
      · rw [h.nothing key hnone] at hrow
        exact hrow
      · rw [hrowKey, hnone] at hcurrent
        cases hcurrent

/-- **Every run** keeps the latest rows. -/
theorem keepsLatest_deliveries (initial : StateMap dateParse ν)
    (deliveries : List (Delivery dateParse ν)) :
    KeepsLatest (Supplied initial deliveries) (deliveries.foldl deliver initial) := by
  induction deliveries using List.reverseRecOn with
  | nil =>
    refine ⟨fun key entry hentry ↦ ⟨Or.inl ⟨entry, hentry, rfl⟩, ?_⟩, fun key hnone ↦ ?_⟩
    · rintro row (⟨entry', hentry', rfl⟩ | ⟨delivery, hdelivery, -⟩)
      · rw [Option.some.inj (hentry.symm.trans hentry')]
      · cases hdelivery
    · refine Set.eq_empty_of_forall_notMem ?_
      rintro row (⟨entry, hentry, -⟩ | ⟨delivery, hdelivery, -⟩)
      · cases hentry.symm.trans hnone
      · cases hdelivery
  | append_singleton deliveries delivery ih =>
    rw [List.foldl_append, List.foldl_cons, List.foldl_nil]
    exact ih.deliver delivery

/-- The rows that have been supplied for a key by the initial state and the batches. -/
def SuppliedBy (initial : StateMap dateParse ν) (batches : List (Batch dateParse ν)) (key : String) :
    Set (Row dateParse ν) :=
  {row | (∃ entry, initial.get? key = some entry ∧ entry.row = row) ∨
    (∃ batch ∈ batches, row ∈ batch.rows) ∧ row.key = key}

omit [DecidableEq ν] in
theorem supplied_flatMap (initial : StateMap dateParse ν) (batches : List (Batch dateParse ν))
    (key : String) :
    Supplied initial (batches.flatMap Batch.deliveries) key = SuppliedBy initial batches key := by
  ext row
  have hrows : (∃ delivery ∈ batches.flatMap Batch.deliveries, delivery.row = row ∧ row.key = key) ↔
      (∃ batch ∈ batches, row ∈ batch.rows) ∧ row.key = key := by
    simp only [List.mem_flatMap, ← mem_deliveries_row]
    constructor
    · rintro ⟨delivery, ⟨batch, hbatch, hdelivery⟩, hrow, hkey⟩
      exact ⟨⟨batch, hbatch, delivery, hdelivery, hrow⟩, hkey⟩
    · rintro ⟨⟨batch, hbatch, delivery, hdelivery, hrow⟩, hkey⟩
      exact ⟨delivery, ⟨batch, hbatch, hdelivery⟩, hrow, hkey⟩
  exact or_congr_right hrows

theorem keepsLatest_run (initial : StateMap dateParse ν) (batches : List (Batch dateParse ν)) :
    KeepsLatest (SuppliedBy initial batches) (run initial batches) := by
  have h := keepsLatest_deliveries initial (batches.flatMap Batch.deliveries)
  rw [← run_eq] at h
  rwa [funext (supplied_flatMap initial batches)] at h

/-- A further batch does not take the state back. -/
theorem observedMs_le_of_batch {initial : StateMap dateParse ν} {batches : List (Batch dateParse ν)}
    (batch : Batch dateParse ν) {key : String} {entry : Entry dateParse ν}
    (hentry : (run initial batches).get? key = some entry) :
    ∃ entry', (run initial (batches ++ [batch])).get? key = some entry' ∧
      entry.row.observedMs ≤ entry'.row.observedMs := by
  have hmem : entry.row ∈ SuppliedBy initial (batches ++ [batch]) key := by
    rcases ((keepsLatest_run initial batches).latest key entry hentry).1 with
      hinitial | ⟨⟨batch', hbatch', hrow⟩, hkey⟩
    · exact Or.inl hinitial
    · exact Or.inr ⟨⟨batch', List.mem_append_left _ hbatch', hrow⟩, hkey⟩
  have hlater := keepsLatest_run initial (batches ++ [batch])
  rcases hfinal : (run initial (batches ++ [batch])).get? key with _ | entry'
  · rw [hlater.nothing key hfinal] at hmem
    exact hmem.elim
  · exact ⟨entry', rfl, (hlater.latest key entry' hfinal).2 entry.row hmem⟩

/-- **Order, grouping and duplication do not matter** as long as no two rows of a key share a
timestamp. -/
theorem row_eq_of_same_rows {initial : StateMap dateParse ν} {batches batches' : List (Batch dateParse ν)}
    (hsame : ∀ row, (∃ batch ∈ batches, row ∈ batch.rows) ↔ ∃ batch ∈ batches', row ∈ batch.rows)
    {key : String} (hunique : ∀ row ∈ SuppliedBy initial batches key,
      ∀ row' ∈ SuppliedBy initial batches key, row.observedMs = row'.observedMs → row = row') :
    ((run initial batches).get? key).map Entry.row =
      ((run initial batches').get? key).map Entry.row := by
  have hsupplied : SuppliedBy initial batches' key = SuppliedBy initial batches key := by
    ext row
    exact or_congr_right (and_congr_left fun _ ↦ (hsame row).symm)
  have h := keepsLatest_run initial batches
  have h' := keepsLatest_run initial batches'
  rcases hentry : (run initial batches).get? key with _ | entry <;>
    rcases hentry' : (run initial batches').get? key with _ | entry'
  · rfl
  · have hmem := (h'.latest key entry' hentry').1
    rw [hsupplied, h.nothing key hentry] at hmem
    exact hmem.elim
  · have hmem := (h.latest key entry hentry).1
    rw [← hsupplied, h'.nothing key hentry'] at hmem
    exact hmem.elim
  · obtain ⟨hmem, hlatest⟩ := h.latest key entry hentry
    obtain ⟨hmem', hlatest'⟩ := h'.latest key entry' hentry'
    rw [hsupplied] at hmem' hlatest'
    exact congrArg some (hunique _ hmem _ hmem'
      (le_antisymm (hlatest' _ hmem) (hlatest _ hmem')))

/-! ## Corrections -/

/-- The row corrects the one that is kept under its key: it has its timestamp and other content. -/
def Corrects (stateMap : StateMap dateParse ν) (row : Row dateParse ν) : Prop :=
  ∃ current, stateMap.get? row.key = some current ∧ current.row.observedMs = row.observedMs ∧
    ¬canonicalContentEqual row current.row

/-- A scheduled row comes again after a reconciliation has applied a correction of its timestamp, which
is still kept. -/
structure Redelivered (initial : StateMap dateParse ν) (before : List (Delivery dateParse ν))
    (row correction : Row dateParse ν) (current : Entry dateParse ν) : Prop where
  applied : ∃ first middle later firstIngestedAt reconciledAt,
    before = first ++ .scheduled row firstIngestedAt :: middle ++
      .reconciliation correction reconciledAt :: later ∧
      Corrects ((first ++ .scheduled row firstIngestedAt :: middle).foldl deliver initial) correction
  key : correction.key = row.key
  timestamp : correction.observedMs = row.observedMs
  differs : ¬canonicalContentEqual row correction
  kept : (before.foldl deliver initial).get? row.key = some current
  stands : current.row = correction

/-- No redelivery overwrites a correction. -/
def CorrectionsStand (initial : StateMap dateParse ν) (batches : List (Batch dateParse ν)) : Prop :=
  ∀ before row ingestedAt after correction current,
    batches.flatMap Batch.deliveries = before ++ .scheduled row ingestedAt :: after →
      Redelivered initial before row correction current →
        ((deliver (before.foldl deliver initial) (.scheduled row ingestedAt)).get? row.key).map
          Entry.row = some correction

/-- No redelivery comes with an ingest time later than the one that is kept with the correction. -/
def RedeliveriesTimely (initial : StateMap dateParse ν) (batches : List (Batch dateParse ν)) : Prop :=
  ∀ before row ingestedAt after correction current,
    batches.flatMap Batch.deliveries = before ++ .scheduled row ingestedAt :: after →
      Redelivered initial before row correction current →
        ¬∃ kept again, current.ingestedMs = some kept ∧
          (Entry.mk row (some ingestedAt)).ingestedMs = some again ∧ kept < again

/-- One redelivery leaves the correction just if it is not ingested later. -/
theorem redelivery_iff {initial : StateMap dateParse ν} {before : List (Delivery dateParse ν)}
    {row correction : Row dateParse ν} {current : Entry dateParse ν}
    (h : Redelivered initial before row correction current) (ingestedAt : String) :
    ((deliver (before.foldl deliver initial) (.scheduled row ingestedAt)).get? row.key).map
        Entry.row = some correction ↔
      ¬∃ kept again, current.ingestedMs = some kept ∧
        (Entry.mk row (some ingestedAt)).ingestedMs = some again ∧ kept < again := by
  have hsame : current.row.observedMs - row.observedMs = 0 := by
    rw [h.stands, h.timestamp, Int.sub_self]
  have hreplaces : (Delivery.scheduled row ingestedAt).Replaces current ↔
      ∃ kept again, current.ingestedMs = some kept ∧
        (Entry.mk row (some ingestedAt)).ingestedMs = some again ∧ kept < again := by
    have hcompare : compareLatestStateRows current ⟨row, some ingestedAt⟩ =
        current.ingestedMs.bind fun kept ↦
          (Entry.mk row (some ingestedAt)).ingestedMs.map fun again ↦ kept - again := by
      rw [compareLatestStateRows]
      exact if_neg (not_not.mpr hsame)
    rw [Delivery.Replaces, hcompare]
    constructor
    · rintro ⟨comparison, hcomparison, hneg⟩
      obtain ⟨kept, hkept, hrest⟩ := Option.bind_eq_some_iff.mp hcomparison
      obtain ⟨again, hagain, rfl⟩ := Option.map_eq_some_iff.mp hrest
      exact ⟨kept, again, hkept, hagain, by omega⟩
    · rintro ⟨kept, again, hkept, hagain, hlt⟩
      exact ⟨kept - again, by rw [hkept, hagain]; rfl, by omega⟩
  rw [← hreplaces]
  rcases deliver_cases (before.foldl deliver initial) (.scheduled row ingestedAt) with
    ⟨hset, hall⟩ | ⟨hself, current', hcurrent', hnot⟩
  · refine iff_of_false ?_ (not_not.mpr (hall current h.kept))
    rw [hset]
    show ¬((OrderedMap.set _ row.key _).get? row.key).map Entry.row = some correction
    rw [OrderedMap.get?_set_self, Option.map_some]
    intro heq
    refine h.differs ?_
    rw [← Option.some.inj heq]
    exact ⟨rfl, rfl, rfl⟩
  · obtain rfl := Option.some.inj (h.kept.symm.trans hcurrent')
    refine iff_of_true ?_ hnot
    rw [hself, h.kept, Option.map_some, h.stands]

/-- **The latest state**: no observation time goes back, and each ends as the latest that was supplied;
on distinct timestamps nothing depends on the order, the grouping or the repetition of the rows; and the
corrections of a reconciliation stand just if no redelivery is ingested later than they were. -/
theorem latestState_spec (initial : StateMap dateParse ν) :
    (∀ batches batch key entry, (run initial batches).get? key = some entry →
      ∃ entry', (run initial (batches ++ [batch])).get? key = some entry' ∧
        entry.row.observedMs ≤ entry'.row.observedMs) ∧
      (∀ batches key, ((run initial batches).get? key = none →
          SuppliedBy initial batches key = ∅) ∧
        ∀ entry, (run initial batches).get? key = some entry →
          IsGreatest (Set.image Row.observedMs (SuppliedBy initial batches key))
            entry.row.observedMs) ∧
        (∀ batches batches', (∀ row, (∃ batch ∈ batches, row ∈ batch.rows) ↔
            ∃ batch ∈ batches', row ∈ batch.rows) →
          ∀ key, (∀ row ∈ SuppliedBy initial batches key,
              ∀ row' ∈ SuppliedBy initial batches key, row.observedMs = row'.observedMs → row = row') →
            ((run initial batches).get? key).map Entry.row =
              ((run initial batches').get? key).map Entry.row) ∧
          ∀ batches, CorrectionsStand initial batches ↔ RedeliveriesTimely initial batches := by
  refine ⟨fun batches batch key entry ↦ observedMs_le_of_batch batch, fun batches key ↦ ⟨?_, ?_⟩,
    fun batches batches' hsame key ↦ row_eq_of_same_rows hsame, fun batches ↦ ⟨?_, ?_⟩⟩
  · exact (keepsLatest_run initial batches).nothing key
  · intro entry hentry
    obtain ⟨hmem, hlatest⟩ := (keepsLatest_run initial batches).latest key entry hentry
    refine ⟨⟨entry.row, hmem, rfl⟩, ?_⟩
    rintro observedMs ⟨row, hrow, rfl⟩
    exact hlatest row hrow
  · intro h before row ingestedAt after correction current hsplit hredelivered
    rw [← redelivery_iff hredelivered]
    exact h before row ingestedAt after correction current hsplit hredelivered
  · intro h before row ingestedAt after correction current hsplit hredelivered
    rw [redelivery_iff hredelivered]
    exact h before row ingestedAt after correction current hsplit hredelivered

end LatestState

/-! ## A correction that is lost -/

/-- Four times of one day. -/
def sampleDateParse (text : String) : Option ℤ :=
  if text = "2026-07-29T11:00:00.000Z" then some 1785322800000
  else if text = "2026-07-29T11:01:00.000Z" then some 1785322860000
  else if text = "2026-07-29T12:00:00.000Z" then some 1785326400000
  else if text = "2026-07-29T12:05:00.000Z" then some 1785326700000
  else none

/-- The observation of 11:00 with this value. -/
def sampleRow (value : ℤ) : Row sampleDateParse ℤ where
  connectorId := 1
  timeseriesId := 10
  observedAt := "2026-07-29T11:00:00.000Z"
  value := value
  valueFloat8Hex := none
  status := some "P"
  observedMs := 1785322800000
  parses := rfl

/-- The value 11 is scheduled, corrected to 12 an hour later, and comes again after that. -/
def sampleBatches : List (Batch sampleDateParse ℤ) :=
  [.scheduled [sampleRow 11] "2026-07-29T11:01:00.000Z",
    .reconciliation [sampleRow 12] "2026-07-29T12:00:00.000Z",
    .scheduled [sampleRow 11] "2026-07-29T12:05:00.000Z"]

/-- The redelivery overwrites the correction. -/
theorem not_correctionsStand_sampleBatches :
    ¬CorrectionsStand (OrderedMap.empty : StateMap sampleDateParse ℤ) sampleBatches ∧
      ((run (OrderedMap.empty : StateMap sampleDateParse ℤ) sampleBatches).get? "1:10").map
        (fun entry ↦ entry.row.value) = some 11 := by
  refine ⟨fun h ↦ ?_, rfl⟩
  have hlost := h
    [.scheduled (sampleRow 11) "2026-07-29T11:01:00.000Z",
      .reconciliation (sampleRow 12) "2026-07-29T12:00:00.000Z"]
    (sampleRow 11) "2026-07-29T12:05:00.000Z" [] (sampleRow 12)
    ⟨sampleRow 12, some "2026-07-29T12:00:00.000Z"⟩ rfl
    { applied := ⟨[], [], [], "2026-07-29T11:01:00.000Z", "2026-07-29T12:00:00.000Z", rfl,
        ⟨sampleRow 11, some "2026-07-29T11:01:00.000Z"⟩, rfl, rfl, by decide⟩
      key := rfl
      timestamp := rfl
      differs := by decide
      kept := rfl
      stands := rfl }
  have hvalue := congrArg (Option.map Row.value) hlost
  exact absurd hvalue (by decide)

end UkAqOps.LatestSnapshot

import UkAqOps.StationHistory.Calculated

/-!
# Reading observations in physical pages

`src/workers/uk_aq_station_history/src/r2_observations.mjs`: the observation service of index v3
answers for at most a day at a time, in pages that it cuts as its files are cut. A range is split by
day, the pages of each piece are followed by their cursors, and the pages and rows of all reads of a
request count against one budget. Index v2 answers with all rows at once.
-/

namespace UkAqOps.StationHistory

open Aqi

variable {ν : Type} [Numeric ν]

/-! ## Rows -/

/-- A row of a payload. Its value may be `null`. -/
structure RawRow (ν : Type) where
  observedAt : Option String := none
  observedAtUtc : Option String := none
  value : Option ν

/-- `Date.parse(String(raw?.observed_at || raw?.observed_at_utc || ""))`. -/
def RawRow.observedAtMs (host : WebHost) (raw : RawRow ν) : Option ℤ :=
  isoMs host ((raw.observedAt.filter (· ≠ "")).or raw.observedAtUtc)

/-- `Number(raw?.value)`. -/
def RawRow.number (raw : RawRow ν) : ν := raw.value.getD Numeric.zero

/-- A finite value that is not negative. -/
def isAccepted (value : ν) : Bool := Numeric.isFinite value && !Numeric.lt value Numeric.zero

def normalizedRow (identity : Identity) (observedAtMs : ℤ) (value : ν) : ObservationRow ν :=
  { connectorId := identity.connectorId
    stationId := identity.stationId
    timeseriesId := identity.timeseriesId
    pollutantCode := identity.pollutant
    observedAt := observedAtMs
    value
    source := "r2" }

/-! ## Index v2 -/

/-- The payload of index v2, with `Number` of its ids. -/
structure R2Payload (ν : Type) where
  timeseriesId : Option ℤ
  connectorId : Option ℤ
  pollutant : String
  rows : List (RawRow ν)

/-- A row of a v2 payload, unless it is passed over. -/
def normalizeRow (host : WebHost) (identity : Identity) (startMs endMs : ℤ) (raw : RawRow ν) :
    Option (ObservationRow ν) :=
  (raw.observedAtMs host).bind fun observedAtMs ↦
    if observedAtMs < startMs || endMs ≤ observedAtMs || !isAccepted raw.number then none
    else some (normalizedRow identity observedAtMs raw.number)

def normalizeR2ObservationRows (host : WebHost) (payload : R2Payload ν) (identity : Identity)
    (startMs endMs : ℤ) : Except String (List (ObservationRow ν)) := do
  Except.refuseIf (payload.timeseriesId.any (fun id ↦ id ≠ 0 ∧ id ≠ identity.timeseriesId) ∨
    payload.connectorId.any (fun id ↦ id ≠ 0 ∧ id ≠ identity.connectorId) ∨
    (normalizePollutantCode payload.pollutant).any (· ≠ identity.pollutant))
    "station_series_r2_observation_identity_mismatch"
  return payload.rows.filterMap (normalizeRow host identity startMs endMs)

/-! ## Days -/

/-- A part of a range that lies within a UTC day. -/
structure Piece where
  startMs : ℤ
  endMs : ℤ
deriving DecidableEq

/-- The loop over the days from a cursor on. -/
def splitFrom (endMs : ℤ) : ℕ → ℤ → List Piece
  | 0, _ => []
  | fuel + 1, cursor =>
    if cursor < endMs then
      let nextUtcMidnight := (cursor / dayMs + 1) * dayMs
      let pieceEnd := min (min endMs nextUtcMidnight) (cursor + dayMs)
      ⟨cursor, pieceEnd⟩ :: splitFrom endMs fuel pieceEnd
    else []

def splitR2ObservationRangeByUtcDay (startMs endMs : ℤ) : Except String (List Piece) := do
  Except.refuseIf (endMs ≤ startMs) "station_history_r2_observation_range_invalid"
  return splitFrom endMs (endMs / dayMs - startMs / dayMs + 1).toNat startMs

/-! ## Pages -/

def v3PhysicalPageSchemaVersion : ℤ := 2
def v3MaxPhysicalRowsPerPage : ℤ := 1024

structure PhysicalPage where
  schemaVersion : ℤ
  pageNumber : ℤ
  continuationCursorSupplied : Bool
  segmentsDecoded : ℤ
  physicalRowsDecoded : ℤ
  paginationComplete : Bool
  nextCursor : Option String

/-- The payload of a page, with `Number` of its ids. -/
structure PagePayload (ν : Type) where
  ok : Bool
  timeseriesId : Option ℤ
  connectorId : Option ℤ
  pollutant : String
  startUtc : String
  endUtc : String
  physicalPage : PhysicalPage
  responseComplete : Bool
  hasGap : Bool
  coveragePartialReasons : List String
  rows : List (RawRow ν)

/-- What the service is asked for. -/
structure PageRequest where
  identity : Identity
  piece : Piece
  physicalCursor : Option String

/-- The answers of the service, `none` where a fetch fails. -/
abbrev PageService (ν : Type) := PageRequest → Option (PagePayload ν)

def leafRowInvalid : String := "station_history_v3_leaf_row_invalid"

/-- The loop over the rows of a page: the row before, and the rows that are left. -/
def normalizeLeafRows (host : WebHost) (identity : Identity) (piece : Piece) :
    Option ℤ → List (RawRow ν) → Except String (List (ObservationRow ν))
  | _, [] => .ok []
  | previousMs, raw :: rest =>
    match raw.observedAtMs host with
    | none => .error leafRowInvalid
    | some observedAtMs => do
      Except.refuseIf (observedAtMs < piece.startMs ∨ piece.endMs ≤ observedAtMs ∨
        isAccepted raw.number = false ∨ previousMs.any (observedAtMs < ·)) leafRowInvalid
      let rows ← normalizeLeafRows host identity piece (some observedAtMs) rest
      return normalizedRow identity observedAtMs raw.number :: rows

/-- The checks of `normalizeV3PhysicalPage` before the rows are read. -/
def checkV3PhysicalPage (identity : Identity) (piece : Piece) (expectedPage : ℤ)
    (suppliedCursor : Option String) (payload : PagePayload ν) : Except String Unit := do
  Except.refuseIf (payload.ok = false) "station_history_v3_leaf_response_invalid"
  Except.refuseIf (payload.timeseriesId ≠ some identity.timeseriesId ∨
    payload.connectorId ≠ some identity.connectorId ∨
    normalizePollutantCode payload.pollutant ≠ some identity.pollutant ∨
    trimText payload.startUtc ≠ toISOString piece.startMs ∨
    trimText payload.endUtc ≠ toISOString piece.endMs) "station_history_v3_leaf_identity_contradiction"
  let page := payload.physicalPage
  Except.refuseIf (page.schemaVersion ≠ v3PhysicalPageSchemaVersion ∨
    page.pageNumber ≠ expectedPage ∨
    page.continuationCursorSupplied ≠ suppliedCursor.any (· ≠ "") ∨
    page.segmentsDecoded < 0 ∨ 1 < page.segmentsDecoded ∨ page.physicalRowsDecoded < 0 ∨
    v3MaxPhysicalRowsPerPage < page.physicalRowsDecoded) "station_history_v3_leaf_page_contradiction"
  Except.refuseIf (page.paginationComplete ≠ page.nextCursor.isNone)
    "station_history_v3_leaf_page_contradiction"
  Except.refuseIf (page.paginationComplete = false ∧
    (page.nextCursor = some "" ∨ page.nextCursor = suppliedCursor))
    "station_history_v3_leaf_cursor_loop"
  Except.refuseIf (payload.responseComplete = true ∧
    (page.paginationComplete = false ∨ payload.hasGap = true))
    "station_history_v3_leaf_completeness_contradiction"

def normalizeV3PhysicalPage (host : WebHost) (identity : Identity) (piece : Piece)
    (expectedPage : ℤ) (suppliedCursor : Option String) (payload : PagePayload ν) :
    Except String (List (ObservationRow ν)) := do
  checkV3PhysicalPage identity piece expectedPage suppliedCursor payload
  let rows ← normalizeLeafRows host identity piece none payload.rows
  Except.refuseIf (payload.physicalPage.physicalRowsDecoded < rows.length)
    "station_history_v3_leaf_page_contradiction"
  return rows

/-! ## Budgets -/

def stationHistoryV3PhysicalPageBudget : ℕ := 16
def stationHistoryObservationRowLimit : ℕ := 5000

def pageBudgetReason : String := "observation_history_physical_page_budget_exceeded"
def rowBudgetReason : String := "observation_history_row_budget_exceeded"

/-- The budget that the reads of a request share. -/
structure ReadBudget where
  pageLimit : ℕ
  pagesUsed : ℕ := 0
  rowLimit : ℕ
  rowsUsed : ℕ := 0
  rowExhausted : Bool := false
deriving DecidableEq

/-- The checks of `assertStationHistoryV3ReadBudget`. -/
structure ReadBudget.Valid (budget : ReadBudget) : Prop where
  pages_pos : 0 < budget.pageLimit
  pages_le : budget.pageLimit ≤ stationHistoryV3PhysicalPageBudget
  pagesUsed_le : budget.pagesUsed ≤ budget.pageLimit
  rows_pos : 0 < budget.rowLimit
  rows_le : budget.rowLimit ≤ stationHistoryObservationRowLimit
  rowsUsed_le : budget.rowsUsed ≤ budget.rowLimit

instance (budget : ReadBudget) : Decidable budget.Valid :=
  decidable_of_iff (0 < budget.pageLimit ∧ budget.pageLimit ≤ stationHistoryV3PhysicalPageBudget ∧
    budget.pagesUsed ≤ budget.pageLimit ∧ 0 < budget.rowLimit ∧
    budget.rowLimit ≤ stationHistoryObservationRowLimit ∧ budget.rowsUsed ≤ budget.rowLimit)
    ⟨fun ⟨h₁, h₂, h₃, h₄, h₅, h₆⟩ ↦ ⟨h₁, h₂, h₃, h₄, h₅, h₆⟩,
      fun ⟨h₁, h₂, h₃, h₄, h₅, h₆⟩ ↦ ⟨h₁, h₂, h₃, h₄, h₅, h₆⟩⟩

def createStationHistoryV3ReadBudget (pageLimit rowLimit : ℕ) : Except String ReadBudget := do
  Except.refuseIf (pageLimit = 0 ∨ stationHistoryV3PhysicalPageBudget < pageLimit)
    "station_history_v3_page_budget_invalid"
  Except.refuseIf (rowLimit = 0 ∨ stationHistoryObservationRowLimit < rowLimit)
    "station_history_v3_row_budget_invalid"
  return { pageLimit, rowLimit }

/-! ## The loop over the pages -/

/-- The variables of a read, and the answers it has fetched. -/
structure Progress (ν : Type) where
  budget : ReadBudget
  rows : List (ObservationRow ν) := []
  partialReasons : List String := []
  hasGap : Bool := false
  allPiecesComplete : Bool := true
  previousMs : Option ℤ := none
  pageBudgetExceeded : Bool := false
  rowBudgetExceeded : Bool := false
  fetched : List (PagePayload ν) := []

/-- How a turn of the loop ends: with an error, by leaving all loops, at the end of the piece, or
with the cursor of the next page. -/
inductive Turn (ν : Type) where
  | failed (error : String) (progress : Progress ν)
  | left (progress : Progress ν)
  | done (progress : Progress ν)
  | next (cursor : String) (progress : Progress ν)

/-- The row budget ends the read. -/
def Progress.stopRows (progress : Progress ν) : Progress ν :=
  { progress with
    budget := { progress.budget with rowExhausted := true }
    rowBudgetExceeded := true
    allPiecesComplete := false }

def Progress.stopPages (progress : Progress ν) : Progress ν :=
  { progress with pageBudgetExceeded := true, allPiecesComplete := false }

/-- A page is fetched, or the fetch fails. -/
def Progress.spend (progress : Progress ν) (payload : Option (PagePayload ν)) : Progress ν :=
  { progress with
    budget := { progress.budget with pagesUsed := progress.budget.pagesUsed + 1 }
    fetched := progress.fetched ++ payload.toList }

/-- The loop that appends the rows of a page. -/
def appendRows : Option ℤ → List (ObservationRow ν) → Except String (Option ℤ)
  | previousMs, [] => .ok previousMs
  | previousMs, row :: rest => do
    Except.refuseIf (previousMs.any (row.observedAt < ·))
      "station_history_v3_cross_page_row_order_invalid"
    appendRows (some row.observedAt) rest

/-- A turn after its page is accepted. -/
def keepPage (seenCursors : List String) (payload : PagePayload ν) (rows : List (ObservationRow ν))
    (progress : Progress ν) : Turn ν :=
  let budget := progress.budget
  if budget.rowLimit < budget.rowsUsed + rows.length then .left progress.stopRows
  else match appendRows progress.previousMs rows with
    | .error error => .failed error progress
    | .ok previousMs =>
      let progress := { progress with
        rows := progress.rows ++ rows
        previousMs
        budget := { budget with rowsUsed := budget.rowsUsed + rows.length } }
      match payload.physicalPage.nextCursor with
      | none => .done { progress with
          allPiecesComplete := progress.allPiecesComplete && payload.responseComplete }
      | some cursor =>
        if progress.budget.rowLimit ≤ progress.budget.rowsUsed then .left progress.stopRows
        else if cursor ∈ seenCursors then .failed "station_history_v3_leaf_cursor_loop" progress
        else .next cursor progress

/-- What a page says of gaps is noted before its rows are counted. -/
def Progress.note (progress : Progress ν) (payload : PagePayload ν) : Progress ν :=
  { progress with
    hasGap := progress.hasGap || payload.hasGap
    partialReasons := progress.partialReasons ++ payload.coveragePartialReasons }

/-- One turn of the loop over the pages of a piece. -/
def turn (host : WebHost) (service : PageService ν) (identity : Identity) (piece : Piece)
    (cursor : Option String) (expectedPage : ℤ) (seenCursors : List String)
    (progress : Progress ν) : Turn ν :=
  let budget := progress.budget
  if budget.rowExhausted || budget.rowLimit ≤ budget.rowsUsed then .left progress.stopRows
  else if budget.pageLimit ≤ budget.pagesUsed then .left progress.stopPages
  else match checkedTime piece.startMs >>= fun _ ↦ checkedTime piece.endMs with
    | .error error => .failed error progress
    | .ok _ =>
      let answer := service ⟨identity, piece, cursor⟩
      let progress := progress.spend answer
      match answer with
      | none => .failed "station_series_r2_observations_failed" progress
      | some payload =>
        match normalizeV3PhysicalPage host identity piece expectedPage cursor payload with
        | .error error => .failed error progress
        | .ok rows => keepPage seenCursors payload rows (progress.note payload)

/-- How the loops end: with an error, by leaving them, or with everything read. -/
inductive Exit (ν : Type) where
  | failed (error : String) (progress : Progress ν)
  | left (progress : Progress ν)
  | done (progress : Progress ν)

/-- The loop over the pages of a piece. Every turn but the last one fetches a page, so the pages that
the budget has left are enough. -/
def readPiece (host : WebHost) (service : PageService ν) (identity : Identity) (piece : Piece) :
    ℕ → Option String → ℤ → List String → Progress ν → Option (Exit ν)
  | pagesLeft, cursor, expectedPage, seenCursors, progress =>
    match turn host service identity piece cursor expectedPage seenCursors progress with
    | .failed error progress => some (.failed error progress)
    | .left progress => some (.left progress)
    | .done progress => some (.done progress)
    | .next nextCursor progress =>
      match pagesLeft with
      | 0 => none
      | pagesLeft + 1 =>
        readPiece host service identity piece pagesLeft (some nextCursor) (expectedPage + 1)
          (nextCursor :: seenCursors) progress

def readPieces (host : WebHost) (service : PageService ν) (identity : Identity) :
    List Piece → Progress ν → Option (Exit ν)
  | [], progress => some (.done progress)
  | piece :: rest, progress =>
    match readPiece host service identity piece
        (progress.budget.pageLimit - progress.budget.pagesUsed) none 1 [] progress with
    | some (.done progress) => readPieces host service identity rest progress
    | exit => exit

/-! ## A read -/

/-- What a read returns. -/
structure ReadAnswer (ν : Type) where
  rows : List (ObservationRow ν)
  responseComplete : Bool
  hasGap : Bool
  partialReasons : List String
  fetchCount : ℕ

/-- The outcome of a read, the budget as it leaves it, and the answers that it has fetched. -/
structure ReadOutcome (ν : Type) where
  result : Except String (ReadAnswer ν)
  budget : ReadBudget
  fetched : List (PagePayload ν) := []

/-- `uniqueStrings`. -/
def uniqueStrings (values : List String) : List String := (values.filter (· ≠ "")).eraseDups

/-- The end of a read whose loops ended without an error. -/
def readAnswer (startMs endMs : ℤ) (pagesUsed : ℕ) (progress : Progress ν) :
    Except String (ReadAnswer ν) := do
  let responseComplete := progress.allPiecesComplete && !progress.hasGap &&
    !progress.pageBudgetExceeded && !progress.rowBudgetExceeded
  let _ ← checkedTime startMs
  let _ ← checkedTime endMs
  return {
    rows := progress.rows
    responseComplete
    hasGap := progress.hasGap || !responseComplete
    partialReasons := uniqueStrings (progress.partialReasons ++
      reasonIf progress.pageBudgetExceeded pageBudgetReason ++
      reasonIf progress.rowBudgetExceeded rowBudgetReason)
    fetchCount := progress.budget.pagesUsed - pagesUsed }

/-- A read of a range. There is always an outcome: the loops end. -/
def readV3R2Observations (host : WebHost) (service : PageService ν) (identity : Identity)
    (startMs endMs : ℤ) (budget : ReadBudget) : Option (ReadOutcome ν) :=
  if budget.Valid then
    match splitR2ObservationRangeByUtcDay startMs endMs with
    | .error error => some { result := .error error, budget }
    | .ok pieces =>
      (readPieces host service identity pieces { budget }).map fun exit ↦
        match exit with
        | .failed error progress =>
          { result := .error error, budget := progress.budget, fetched := progress.fetched }
        | .left progress | .done progress =>
          { result := readAnswer startMs endMs budget.pagesUsed progress
            budget := progress.budget
            fetched := progress.fetched }
  else some { result := .error "station_history_v3_read_budget_invalid", budget }

/-- Reads one after the other that share a budget. -/
def readRanges (host : WebHost) (service : PageService ν) (identity : Identity) :
    List (ℤ × ℤ) → ReadBudget → Option (List (ReadOutcome ν))
  | [], _ => some []
  | range :: rest, budget => do
    let outcome ← readV3R2Observations host service identity range.1 range.2 budget
    let outcomes ← readRanges host service identity rest outcome.budget
    return outcome :: outcomes

end UkAqOps.StationHistory

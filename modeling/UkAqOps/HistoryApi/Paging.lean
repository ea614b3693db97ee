import UkAqOps.Lib.CursorPages
import UkAqOps.HistoryApi.Reads

/-!
# Reading the stored observations page by page

`src/workers/uk_aq_cache_proxy/src/station_history/observations.mjs`: a reader of the history asks for
pages behind the instant of the last row of the page before. The rows of a page are read from their
texts once more.
-/

namespace UkAqOps.HistoryApi

open Sorting CursorPages

variable (dateParse : String → Option ℤ)

/-! ## Rows of a payload -/

structure ObservedRow where
  observedAt : String
  value : Option ℚ
  source : String
deriving DecidableEq

def parseIsoMsOrNull (value : String) : Option ℤ :=
  let text := trimText value
  if text = "" then none else dateParse text

/-- `Number(value)`, which is zero for `null`. -/
def numberOf (value : Option ℚ) : ℚ := value.getD 0

def normalizeObservedRow (sourceLabel : String) (input : ApiRow) : Option ObservedRow :=
  (parseIsoMsOrNull dateParse (trimText input.observedAt)).map fun observedMs ↦
    { observedAt := toISOString observedMs
      value := some (numberOf input.value)
      source := sourceLabel }

def parseTimeseriesRowsFromPayload (payload : Payload) : List ObservedRow :=
  payload.rows.filterMap (normalizeObservedRow dateParse "r2")

/-! ## Pages -/

/-- The rows of a page by their instants. -/
def datedRows (pageRows : List ObservedRow) : List (String × ObservedRow) :=
  pageRows.filterMap fun row ↦
    let observedAt := trimText row.observedAt
    if observedAt = "" then none else some (observedAt, row)

/-- The loop of `fetchR2ObservationsPaged` for so many pages at most: its rows, whether the window is
exhausted, and the pages that were fetched. -/
def pageLoop (answer : Option String → Option Payload) (pageLimitRows : ℕ) :
    ℕ → OrderedMap String ObservedRow → Option String → ℕ →
      Option (OrderedMap String ObservedRow × Bool × ℕ)
  | 0, rowsByObservedAt, _, pagesFetched => some (rowsByObservedAt, false, pagesFetched)
  | turns + 1, rowsByObservedAt, pageSinceUtc, pagesFetched => do
    let payload ← answer pageSinceUtc
    let pageRows := parseTimeseriesRowsFromPayload dateParse payload
    if pageRows = [] then some (rowsByObservedAt, true, pagesFetched + 1)
    else
      let dated := datedRows pageRows
      let rowsByObservedAt := dated.foldl (fun rows row ↦ rows.set row.1 row.2) rowsByObservedAt
      let reachedPageLimit := match payload.rowCount with
        | some rowCount => decide (pageLimitRows ≤ rowCount)
        | none => decide (pageLimitRows ≤ pageRows.length)
      match dated.getLast? with
      | none => some (rowsByObservedAt, true, pagesFetched + 1)
      | some last =>
        if reachedPageLimit then
          pageLoop answer pageLimitRows turns rowsByObservedAt (some last.1) (pagesFetched + 1)
        else some (rowsByObservedAt, true, pagesFetched + 1)

structure PagedParams where
  startUtc : String
  endUtc : String
  sinceUtc : Option String
  pageLimitRows : ℕ
  maxPages : ℕ

structure PagedResult where
  rows : List ObservedRow
  pagesFetched : ℕ
  hitPageLimit : Bool

def rowMs (row : ObservedRow) : ℤ := (parseIsoMsOrNull dateParse row.observedAt).getD 0

/-- `fetchR2ObservationsPaged` with the answers of the worker. -/
def fetchR2ObservationsPaged (env : Env) (history : History) (series : Series)
    (params : PagedParams) : Option PagedResult := do
  let pageLimitRows := max 1 params.pageLimitRows
  let maxPages := max 1 params.maxPages
  let answer : Option String → Option Payload := fun sinceUtc ↦
    answerObservations dateParse env history series
      ⟨params.startUtc, params.endUtc, sinceUtc, max 1 pageLimitRows⟩
  let (rowsByObservedAt, exhaustedWindow, pagesFetched) ←
    pageLoop dateParse answer pageLimitRows maxPages OrderedMap.empty params.sinceUtc 0
  return {
    rows := sortBy (fun left right ↦ compare (rowMs dateParse left) (rowMs dateParse right))
      rowsByObservedAt.values
    pagesFetched
    hitPageLimit := !exhaustedWindow && decide (maxPages ≤ pagesFetched) }

/-! ## Instants of payloads -/

section Instants

variable {dateParse}

/-- The row that the reader makes of an instant and a number. -/
def observedRow (t : ℤ) (value : Option ℚ) : ObservedRow :=
  ⟨toISOString t, some (numberOf value), "r2"⟩

theorem parseIsoMsOrNull_toISOString (hdates : ReadsDates dateParse) {t : ℤ} (h : IsTimeValue t) :
    parseIsoMsOrNull dateParse (toISOString t) = some t := by
  rw [parseIsoMsOrNull]
  simp only [trimText_toISOString, if_neg (toISOString_ne_empty t)]
  exact hdates.timestamps t h

theorem normalizeObservedRow_eq (hdates : ReadsDates dateParse) {row : ApiRow} {t : ℤ}
    (h : IsTimeValue t) (hrow : row.observedAt = toISOString t) :
    normalizeObservedRow dateParse "r2" row = some (observedRow t row.value) := by
  rw [normalizeObservedRow, hrow, trimText_toISOString, parseIsoMsOrNull_toISOString hdates h]
  rfl

/-- **The rows of a payload** by their instants and numbers. -/
theorem filterMap_normalizeObservedRow (hdates : ReadsDates dateParse) {α : Type} (instant : α → ℤ)
    (value : α → Option ℚ) {found : List ApiRow} {rows : List α}
    (htime : ∀ a ∈ rows, IsTimeValue (instant a))
    (h : found.map (fun row ↦ (row.observedAt, row.value))
      = rows.map fun a ↦ (toISOString (instant a), value a)) :
    found.filterMap (normalizeObservedRow dateParse "r2")
      = rows.map fun a ↦ observedRow (instant a) (value a) := by
  induction rows generalizing found with
  | nil =>
    rw [List.map_nil, List.map_eq_nil_iff] at h
    rw [h]
    rfl
  | cons a rows ih =>
    obtain ⟨row, found, rfl, hrow, hrest⟩ := List.map_eq_cons_iff.mp h
    obtain ⟨htext, hvalue⟩ := Prod.mk.inj hrow
    rw [List.filterMap_cons_some (normalizeObservedRow_eq hdates (htime a List.mem_cons_self) htext),
      ih (fun b hb ↦ htime b (List.mem_cons_of_mem a hb)) hrest, hvalue, List.map_cons]

theorem datedRows_map {α : Type} (instant : α → ℤ) (value : α → Option ℚ) (rows : List α) :
    datedRows (rows.map fun a ↦ observedRow (instant a) (value a))
      = rows.map fun a ↦ (toISOString (instant a), observedRow (instant a) (value a)) := by
  rw [datedRows, List.filterMap_map]
  conv_rhs => rw [← List.filterMap_eq_map]
  refine List.filterMap_congr fun a _ ↦ ?_
  simp only [Function.comp_apply, observedRow, trimText_toISOString,
    if_neg (toISOString_ne_empty _)]

end Instants

/-! ## The loop -/

section Loop

variable {dateParse} {answer : Option String → Option Payload}
variable {α : Type} {page : Option ℤ → List α} {instant : α → ℤ} {value : α → Option ℚ}

/-- What the reader makes of a page. -/
structure Pages (dateParse : String → Option ℤ) (answer : Option String → Option Payload)
    (page : Option ℤ → List α) (instant : α → ℤ) (value : α → Option ℚ) (cursor : Option ℤ)
    (payload : Payload) : Prop where
  answered : answer (cursor.map toISOString) = some payload
  rowCount : payload.rowCount = some (page cursor).length
  rows : parseTimeseriesRowsFromPayload dateParse payload
    = (page cursor).map fun a ↦ observedRow (instant a) (value a)

/-- **The loop** collects the rows of the pages behind cursors. -/
theorem pageLoop_eq (limit : ℕ) {valid : Option ℤ → Prop}
    (hpage : ∀ cursor, valid cursor → ∃ payload, Pages dateParse answer page instant value cursor
      payload)
    (hvalid : ∀ cursor, valid cursor → ∀ a ∈ page cursor, valid (some (instant a))) (turns : ℕ)
    {cursor : Option ℤ} (hcursor : valid cursor) (rowsByObservedAt : OrderedMap String ObservedRow)
    (pagesFetched : ℕ) :
    ∃ pagesFetched', pageLoop dateParse answer limit turns rowsByObservedAt (cursor.map toISOString)
        pagesFetched
      = some (((fetch page instant limit turns cursor).1.map fun a ↦
          (toISOString (instant a), observedRow (instant a) (value a))).foldl
            (fun rows row ↦ rows.set row.1 row.2) rowsByObservedAt,
          (fetch page instant limit turns cursor).2, pagesFetched') ∧
      pagesFetched' ≤ pagesFetched + turns ∧
      ((fetch page instant limit turns cursor).2 = false → pagesFetched' = pagesFetched + turns) := by
  induction turns generalizing cursor rowsByObservedAt pagesFetched with
  | zero => exact ⟨pagesFetched, rfl, le_rfl, fun _ ↦ rfl⟩
  | succ turns ih =>
    obtain ⟨payload, hpayload⟩ := hpage cursor hcursor
    rw [pageLoop, hpayload.answered, fetch]
    simp only [Option.bind_eq_bind, Option.bind_some, hpayload.rows, hpayload.rowCount,
      List.map_eq_nil_iff, datedRows_map, List.getLast?_map]
    rcases hlast : (page cursor).getLast? with _ | last
    · have hnil := List.getLast?_eq_none_iff.mp hlast
      rw [if_pos hnil]
      exact ⟨pagesFetched + 1, rfl, by omega, fun h ↦ absurd h (by simp)⟩
    · have hne : page cursor ≠ [] := by
        intro hnil
        rw [hnil] at hlast
        rcases hlast with ⟨⟩
      rw [if_neg hne]
      simp only [Option.map_some]
      by_cases hshort : (page cursor).length < limit
      · rw [if_neg (by simpa using hshort), if_pos hshort]
        exact ⟨pagesFetched + 1, rfl, by omega, fun h ↦ absurd h (by simp)⟩
      · rw [if_pos (by simpa using hshort), if_neg hshort]
        have hmem : last ∈ page cursor := List.mem_of_getLast? hlast
        obtain ⟨pagesFetched', hloop, hle, hfull⟩ := ih (hvalid cursor hcursor last hmem)
          (((page cursor).map fun a ↦ (toISOString (instant a),
            observedRow (instant a) (value a))).foldl (fun rows row ↦ rows.set row.1 row.2)
              rowsByObservedAt) (pagesFetched + 1)
        refine ⟨pagesFetched', ?_, by omega, fun h ↦ by rw [hfull h]; omega⟩
        rw [List.map_append, List.foldl_append]
        exact hloop

end Loop

end UkAqOps.HistoryApi

import UkAqOps.Lib.Allowance
import UkAqOps.StationHistory.PhysicalPages
import UkAqOps.StationHistory.GapAgreement

/-!
# Reading truthful pages

A truthful service answers for a piece of a day with the stored rows of the piece, in order, cut into
pages in any way. Reading it fetches the pages that the budget allows and keeps those that fit, as
long as no fetched page has a value that is not accepted.
-/

namespace UkAqOps.StationHistory

open Aqi

variable {ν : Type} [Numeric ν]

/-! ## Truthful services -/

/-- A row that the service has stored. -/
structure StoredRow (ν : Type) where
  observedAtMs : ℤ
  value : Option ν
deriving DecidableEq

/-- What a row of a payload says. -/
def RawRow.stored (host : WebHost) (raw : RawRow ν) : Option (StoredRow ν) :=
  (raw.observedAtMs host).map fun observedAtMs ↦ ⟨observedAtMs, raw.value⟩

def Piece.Holds (piece : Piece) (row : StoredRow ν) : Prop :=
  piece.startMs ≤ row.observedAtMs ∧ row.observedAtMs < piece.endMs

instance (piece : Piece) (row : StoredRow ν) : Decidable (piece.Holds row) :=
  inferInstanceAs (Decidable (_ ∧ _))

/-- A page that says of itself what it is. -/
structure IsPage (identity : Identity) (piece : Piece) (number : ℤ) (cursor : Option String)
    (payload : PagePayload ν) : Prop where
  ok : payload.ok = true
  timeseriesId : payload.timeseriesId = some identity.timeseriesId
  connectorId : payload.connectorId = some identity.connectorId
  pollutant : normalizePollutantCode payload.pollutant = some identity.pollutant
  startUtc : trimText payload.startUtc = toISOString piece.startMs
  endUtc : trimText payload.endUtc = toISOString piece.endMs
  schemaVersion : payload.physicalPage.schemaVersion = v3PhysicalPageSchemaVersion
  pageNumber : payload.physicalPage.pageNumber = number
  supplied : payload.physicalPage.continuationCursorSupplied = cursor.isSome
  segments : 0 ≤ payload.physicalPage.segmentsDecoded ∧ payload.physicalPage.segmentsDecoded ≤ 1
  decoded : payload.rows.length ≤ payload.physicalPage.physicalRowsDecoded ∧
    payload.physicalPage.physicalRowsDecoded ≤ v3MaxPhysicalRowsPerPage
  complete : payload.physicalPage.paginationComplete = payload.physicalPage.nextCursor.isNone
  whole : payload.responseComplete = true →
    payload.physicalPage.nextCursor = none ∧ payload.hasGap = false

/-- The service serves these pages of a piece from a cursor on, and each of their cursors is new. -/
inductive Serves (service : PageService ν) (identity : Identity) (piece : Piece) :
    ℤ → Option String → List String → List (PagePayload ν) → Prop
  | last {number : ℤ} {cursor : Option String} {seen : List String} {payload : PagePayload ν}
      (answer : service ⟨identity, piece, cursor⟩ = some payload)
      (page : IsPage identity piece number cursor payload)
      (end_ : payload.physicalPage.nextCursor = none) :
      Serves service identity piece number cursor seen [payload]
  | more {number : ℤ} {cursor : Option String} {seen : List String} {payload : PagePayload ν}
      {next : String} {rest : List (PagePayload ν)}
      (answer : service ⟨identity, piece, cursor⟩ = some payload)
      (page : IsPage identity piece number cursor payload)
      (continues : payload.physicalPage.nextCursor = some next)
      (new : next ≠ "" ∧ next ∉ seen ∧ some next ≠ cursor)
      (serves : Serves service identity piece (number + 1) (some next) (next :: seen) rest) :
      Serves service identity piece number cursor seen (payload :: rest)

/-- The rows of the pages. -/
def pageRows (pages : List (PagePayload ν)) : List (RawRow ν) := pages.flatMap PagePayload.rows

/-- The service serves a piece in these pages, and their rows are the stored rows of the piece. -/
structure Truthful (host : WebHost) (service : PageService ν) (identity : Identity)
    (stored : List (StoredRow ν)) (piece : Piece) (pages : List (PagePayload ν)) : Prop where
  serves : Serves service identity piece 1 none [] pages
  rows : (pageRows pages).map (RawRow.stored host) = (stored.filter fun row ↦ piece.Holds row).map some

/-! ## Rows of a page -/

/-- No value is passed over. -/
def AllAccepted (raws : List (RawRow ν)) : Prop := ∀ raw ∈ raws, isAccepted raw.number = true

instance (raws : List (RawRow ν)) : Decidable (AllAccepted raws) :=
  inferInstanceAs (Decidable (∀ raw ∈ raws, isAccepted raw.number = true))

theorem allAccepted_cons {raw : RawRow ν} {raws : List (RawRow ν)} :
    AllAccepted (raw :: raws) ↔ isAccepted raw.number = true ∧ AllAccepted raws := by
  simp only [AllAccepted, List.forall_mem_cons]

def StoredRow.number (row : StoredRow ν) : ν := row.value.getD Numeric.zero

/-- The observation of a stored row. -/
def StoredRow.observation (identity : Identity) (row : StoredRow ν) : ObservationRow ν :=
  normalizedRow identity row.observedAtMs row.number

/-- The observations of a page. -/
def PagePayload.observations (host : WebHost) (identity : Identity) (payload : PagePayload ν) :
    List (ObservationRow ν) :=
  (payload.rows.filterMap (RawRow.stored host)).map (StoredRow.observation identity)

/-- The stored rows are in the order of time, none at the instant of another. -/
def InOrder (rows : List (StoredRow ν)) : Prop :=
  rows.Pairwise fun row row' ↦ row.observedAtMs < row'.observedAtMs

instance (rows : List (StoredRow ν)) : Decidable (InOrder rows) :=
  inferInstanceAs (Decidable (List.Pairwise _ _))

/-- Every row comes after an instant that was read, or at it. -/
def After (previousMs : Option ℤ) (rows : List (StoredRow ν)) : Prop :=
  ∀ t ∈ previousMs, ∀ row ∈ rows, t ≤ row.observedAtMs

section Rows

variable {host : WebHost} {identity : Identity} {piece : Piece} {raws : List (RawRow ν)}
variable {rows : List (StoredRow ν)} {previousMs : Option ℤ}

omit [Numeric ν] in
theorem stored_eq_some_iff {raw : RawRow ν} {row : StoredRow ν} :
    raw.stored host = some row ↔
      raw.observedAtMs host = some row.observedAtMs ∧ raw.value = row.value := by
  rw [RawRow.stored, Option.map_eq_some_iff]
  constructor
  · rintro ⟨t, ht, rfl⟩
    exact ⟨ht, rfl⟩
  · rintro ⟨ht, hvalue⟩
    exact ⟨row.observedAtMs, ht, by rw [hvalue]⟩

omit [Numeric ν] in
theorem filterMap_stored (h : raws.map (RawRow.stored host) = rows.map some) :
    raws.filterMap (RawRow.stored host) = rows := by
  have hid : (raws.map (RawRow.stored host)).filterMap id = (rows.map some).filterMap id := by rw [h]
  rw [List.filterMap_map, List.filterMap_map, Function.id_comp, Function.id_comp,
    List.filterMap_some] at hid
  exact hid

omit [Numeric ν] in
theorem After.not_any_lt {row : StoredRow ν} (h : After previousMs (row :: rows)) :
    ¬(previousMs.any (row.observedAtMs < ·) = true) := by
  rcases previousMs with _ | t
  · exact Bool.false_ne_true
  · rw [Option.any_some, decide_eq_true_iff, not_lt]
    exact h t rfl row List.mem_cons_self

omit [Numeric ν] in
theorem After.cons_next {row : StoredRow ν} (h : InOrder (row :: rows)) :
    After (some row.observedAtMs) rows := by
  intro t ht row' hrow'
  rw [← Option.some.inj ht]
  exact (List.rel_of_pairwise_cons h hrow').le

/-- The rows of a truthful page pass exactly when each of its values does. -/
theorem normalizeLeafRows_eq (hstored : raws.map (RawRow.stored host) = rows.map some)
    (horder : InOrder rows) (hafter : After previousMs rows) (hpiece : ∀ row ∈ rows, piece.Holds row) :
    normalizeLeafRows host identity piece previousMs raws
      = if AllAccepted raws then .ok (rows.map (StoredRow.observation identity))
        else .error leafRowInvalid := by
  induction raws generalizing rows previousMs with
  | nil =>
    obtain rfl : rows = [] := by
      have hlength := congrArg List.length hstored
      rw [List.length_map, List.length_map] at hlength
      exact List.length_eq_zero_iff.mp hlength.symm
    exact (if_pos fun raw hraw ↦ absurd hraw List.not_mem_nil).symm
  | cons raw raws ih =>
    rcases rows with _ | ⟨row, rows⟩
    · cases hstored
    rw [List.map_cons, List.map_cons, List.cons.injEq, stored_eq_some_iff] at hstored
    obtain ⟨⟨htime, hvalue⟩, hrest⟩ := hstored
    obtain ⟨hlower, hupper⟩ := hpiece row List.mem_cons_self
    have hnumber : raw.number = row.number := by rw [RawRow.number, hvalue, StoredRow.number]
    rw [normalizeLeafRows, htime]
    dsimp only
    by_cases haccepted : isAccepted raw.number = true
    · have hpass : ¬(row.observedAtMs < piece.startMs ∨ piece.endMs ≤ row.observedAtMs ∨
          isAccepted raw.number = false ∨ previousMs.any (row.observedAtMs < ·) = true) := by
        rintro (hout | hout | hout | hout)
        · omega
        · omega
        · rw [haccepted] at hout
          cases hout
        · exact hafter.not_any_lt hout
      rw [Except.refuseIf_neg hpass, Except.ok_bind, ih hrest horder.of_cons
        (After.cons_next horder) fun r hr ↦ hpiece r (List.mem_cons_of_mem _ hr)]
      by_cases hall : AllAccepted raws
      · rw [if_pos hall, if_pos (allAccepted_cons.mpr ⟨haccepted, hall⟩), Except.ok_bind, hnumber]
        rfl
      · rw [if_neg hall, if_neg fun h ↦ hall (allAccepted_cons.mp h).2]
        rfl
    · have hstop : row.observedAtMs < piece.startMs ∨ piece.endMs ≤ row.observedAtMs ∨
          isAccepted raw.number = false ∨ previousMs.any (row.observedAtMs < ·) = true :=
        Or.inr (Or.inr (Or.inl (Bool.eq_false_iff.mpr haccepted)))
      rw [Except.refuseIf, if_pos hstop, if_neg fun h ↦ haccepted (allAccepted_cons.mp h).1]
      rfl

/-- The rows of a page follow those before them. -/
theorem appendRows_ok (horder : InOrder rows) (hafter : After previousMs rows) :
    ∃ lastMs, appendRows previousMs (rows.map (StoredRow.observation identity)) = .ok lastMs ∧
      (lastMs = previousMs ∨ ∃ row ∈ rows, lastMs = some row.observedAtMs) := by
  induction rows generalizing previousMs with
  | nil => exact ⟨previousMs, rfl, Or.inl rfl⟩
  | cons row rows ih =>
    obtain ⟨lastMs, hlast, hfrom⟩ := ih horder.of_cons (After.cons_next horder)
    refine ⟨lastMs, ?_, ?_⟩
    · have hpass : ¬(previousMs.any ((row.observation identity).observedAt < ·) = true) :=
        hafter.not_any_lt
      rw [List.map_cons, appendRows, Except.refuseIf_neg hpass]
      exact hlast
    · rcases hfrom with rfl | ⟨row', hrow', rfl⟩
      · exact Or.inr ⟨row, List.mem_cons_self, rfl⟩
      · exact Or.inr ⟨row', List.mem_cons_of_mem _ hrow', rfl⟩

end Rows

/-! ## Pages under a budget -/

def pageSize (payload : PagePayload ν) : ℕ := payload.rows.length

/-- What a budget has left. -/
def ReadBudget.left (budget : ReadBudget) : Allowance.Left :=
  ⟨budget.pageLimit - budget.pagesUsed,
    if budget.rowExhausted then 0 else budget.rowLimit - budget.rowsUsed⟩

/-- The pages of a list that a budget fetches, and those that it keeps. -/
def fetchedPages (budget : ReadBudget) (pages : List (PagePayload ν)) : List (PagePayload ν) :=
  Allowance.fetched pageSize budget.left pages

def keptPages (budget : ReadBudget) (pages : List (PagePayload ν)) : List (PagePayload ν) :=
  Allowance.kept pageSize budget.left pages

/-- How a read has advanced over pages: it has fetched and kept what the budget allows. -/
structure Advanced (host : WebHost) (identity : Identity) (pages : List (PagePayload ν))
    (progress progress' : Progress ν) : Prop where
  valid : progress'.budget.Valid
  left : progress'.budget.left = Allowance.rest pageSize progress.budget.left pages
  fetched : progress'.fetched = progress.fetched ++ fetchedPages progress.budget pages
  rows : progress'.rows = progress.rows ++
    (keptPages progress.budget pages).flatMap (PagePayload.observations host identity)
  gap : progress'.hasGap
    = (progress.hasGap || (fetchedPages progress.budget pages).any PagePayload.hasGap)
  previous : progress'.previousMs = progress.previousMs ∨
    ∃ raw ∈ pageRows pages, ∃ t, raw.observedAtMs host = some t ∧ progress'.previousMs = some t
  complete : progress'.allPiecesComplete = true →
    progress.allPiecesComplete = true ∧ keptPages progress.budget pages = pages

section Loop

variable {host : WebHost} {service : PageService ν} {identity : Identity} {piece : Piece}
variable {number : ℤ} {cursor : Option String} {seen : List String} {progress : Progress ν}
variable {payload : PagePayload ν} {rows : List (StoredRow ν)}

theorem spent_iff {budget : ReadBudget} : budget.left.Spent ↔
    (budget.rowExhausted || decide (budget.rowLimit ≤ budget.rowsUsed)) = true ∨
      budget.pageLimit ≤ budget.pagesUsed := by
  rw [Allowance.Left.Spent, ReadBudget.left]
  rcases budget.rowExhausted
  · simp only [Bool.false_eq_true, if_false, Bool.false_or, decide_eq_true_iff]
    omega
  · simp

/-- Advancing over pages and then over more is advancing over all of them. -/
theorem Advanced.trans {pages pages' : List (PagePayload ν)} {progress' progress'' : Progress ν}
    (h : Advanced host identity pages progress progress')
    (h' : Advanced host identity pages' progress' progress'') :
    Advanced host identity (pages ++ pages') progress progress'' := by
  have hfetched : fetchedPages progress.budget (pages ++ pages')
      = fetchedPages progress.budget pages ++ fetchedPages progress'.budget pages' := by
    rw [fetchedPages, Allowance.fetched_append, ← h.left]
    rfl
  have hkept : keptPages progress.budget (pages ++ pages')
      = keptPages progress.budget pages ++ keptPages progress'.budget pages' := by
    rw [keptPages, Allowance.kept_append, ← h.left]
    rfl
  refine ⟨h'.valid, ?_, ?_, ?_, ?_, ?_, fun hcomplete ↦ ?_⟩
  · rw [h'.left, h.left, Allowance.rest_append]
  · rw [h'.fetched, h.fetched, hfetched, List.append_assoc]
  · rw [h'.rows, h.rows, hkept, List.flatMap_append, List.append_assoc]
  · rw [h'.gap, h.gap, hfetched, List.any_append, Bool.or_assoc]
  · have happend : pageRows (pages ++ pages') = pageRows pages ++ pageRows pages' :=
      List.flatMap_append
    rcases h'.previous with hsame | ⟨raw, hraw, ht⟩
    · rw [hsame]
      rcases h.previous with hsame' | ⟨raw, hraw, ht⟩
      · exact Or.inl hsame'
      · exact Or.inr ⟨raw, by rw [happend]; exact List.mem_append_left _ hraw, ht⟩
    · exact Or.inr ⟨raw, by rw [happend]; exact List.mem_append_right _ hraw, ht⟩
  · obtain ⟨hcomplete', hall'⟩ := h'.complete hcomplete
    obtain ⟨hcomplete'', hall⟩ := h.complete hcomplete'
    rw [hkept, hall, hall']
    exact ⟨hcomplete'', rfl⟩

/-- A read that has left its loops with nothing to spend has advanced over whatever follows. -/
theorem Advanced.extend {pages : List (PagePayload ν)} {progress' : Progress ν}
    (h : Advanced host identity pages progress progress') (hspent : progress'.budget.left.Spent)
    (hincomplete : progress'.allPiecesComplete = false) (pages' : List (PagePayload ν)) :
    Advanced host identity (pages ++ pages') progress progress' := by
  refine h.trans ⟨h.valid, ?_, ?_, ?_, ?_, Or.inl rfl, fun hcomplete ↦ ?_⟩
  · rw [Allowance.rest_of_spent hspent]
  · rw [fetchedPages, Allowance.fetched_of_spent hspent, List.append_nil]
  · rw [keptPages, Allowance.kept_of_spent hspent, List.flatMap_nil, List.append_nil]
  · rw [fetchedPages, Allowance.fetched_of_spent hspent, List.any_nil, Bool.or_false]
  · rw [hincomplete] at hcomplete
    cases hcomplete

/-- Leaving because of the rows changes nothing that is left. -/
theorem advanced_stopRows (hvalid : progress.budget.Valid)
    (hrows : (progress.budget.rowExhausted ||
      decide (progress.budget.rowLimit ≤ progress.budget.rowsUsed)) = true) :
    progress.stopRows.budget.left.Spent ∧
      Advanced host identity [] progress progress.stopRows := by
  have hleft : progress.stopRows.budget.left = progress.budget.left := by
    have hzero : (if progress.budget.rowExhausted = true then 0
        else progress.budget.rowLimit - progress.budget.rowsUsed) = 0 := by
      rcases hexhausted : progress.budget.rowExhausted
      · rw [hexhausted, Bool.false_or, decide_eq_true_iff] at hrows
        rw [if_neg Bool.false_ne_true]
        omega
      · rfl
    rw [ReadBudget.left, ReadBudget.left, hzero]
    rfl
  refine ⟨Or.inr rfl, ⟨?_, hleft, ?_, ?_, ?_, Or.inl rfl, fun h ↦ nomatch h⟩⟩
  · exact ⟨hvalid.pages_pos, hvalid.pages_le, hvalid.pagesUsed_le, hvalid.rows_pos,
      hvalid.rows_le, hvalid.rowsUsed_le⟩
  · exact (List.append_nil _).symm
  · exact (List.append_nil _).symm
  · exact (Bool.or_false _).symm

theorem advanced_stopPages (hvalid : progress.budget.Valid) :
    Advanced host identity [] progress progress.stopPages :=
  ⟨hvalid, rfl, (List.append_nil _).symm, (List.append_nil _).symm, (Bool.or_false _).symm,
    Or.inl rfl, fun h ↦ nomatch h⟩

/-- A spent budget ends the read without a fetch. -/
theorem turn_of_spent (hvalid : progress.budget.Valid) (hspent : progress.budget.left.Spent)
    (pages : List (PagePayload ν)) :
    ∃ progress', turn host service identity piece cursor number seen progress = .left progress' ∧
      progress'.budget.left.Spent ∧ progress'.allPiecesComplete = false ∧
      Advanced host identity pages progress progress' := by
  rw [turn]
  by_cases hrows : (progress.budget.rowExhausted ||
      decide (progress.budget.rowLimit ≤ progress.budget.rowsUsed)) = true
  · rw [if_pos hrows]
    have hstop : progress.stopRows.budget.left.Spent ∧
        Advanced host identity [] progress progress.stopRows := advanced_stopRows hvalid hrows
    exact ⟨_, rfl, hstop.1, rfl, hstop.2.extend hstop.1 rfl pages⟩
  · rw [if_neg hrows, if_pos ((spent_iff.mp hspent).resolve_left hrows)]
    exact ⟨_, rfl, hspent, rfl, (advanced_stopPages hvalid).extend hspent rfl pages⟩

omit [Numeric ν] in
theorem checkV3PhysicalPage_ok (hpage : IsPage identity piece number cursor payload)
    (hcursor : cursor ≠ some "")
    (hnext : ∀ next, payload.physicalPage.nextCursor = some next → next ≠ "" ∧ some next ≠ cursor) :
    checkV3PhysicalPage identity piece number cursor payload = .ok () := by
  have hsupplied : cursor.any (· ≠ "") = cursor.isSome := by
    rcases cursor with _ | text
    · rfl
    · have hne : text ≠ "" := fun heq ↦ hcursor (by rw [heq])
      simp [hne]
  have hidentity : ¬(payload.timeseriesId ≠ some identity.timeseriesId ∨
      payload.connectorId ≠ some identity.connectorId ∨
      normalizePollutantCode payload.pollutant ≠ some identity.pollutant ∨
      trimText payload.startUtc ≠ toISOString piece.startMs ∨
      trimText payload.endUtc ≠ toISOString piece.endMs) := by
    rw [hpage.timeseriesId, hpage.connectorId, hpage.pollutant, hpage.startUtc, hpage.endUtc]
    simp
  have hphysical : ¬(payload.physicalPage.schemaVersion ≠ v3PhysicalPageSchemaVersion ∨
      payload.physicalPage.pageNumber ≠ number ∨
      payload.physicalPage.continuationCursorSupplied ≠ cursor.any (· ≠ "") ∨
      payload.physicalPage.segmentsDecoded < 0 ∨ 1 < payload.physicalPage.segmentsDecoded ∨
      payload.physicalPage.physicalRowsDecoded < 0 ∨
      v3MaxPhysicalRowsPerPage < payload.physicalPage.physicalRowsDecoded) := by
    obtain ⟨hlower, hupper⟩ := hpage.segments
    obtain ⟨hrows, hdecoded⟩ := hpage.decoded
    rw [hpage.schemaVersion, hpage.pageNumber, hpage.supplied, hsupplied]
    simp only [ne_eq, not_true_eq_false, false_or]
    omega
  have hloop : ¬(payload.physicalPage.paginationComplete = false ∧
      (payload.physicalPage.nextCursor = some "" ∨ payload.physicalPage.nextCursor = cursor)) := by
    rintro ⟨hmore, hcase⟩
    rcases hnextCursor : payload.physicalPage.nextCursor with _ | next
    · rw [hpage.complete, hnextCursor] at hmore
      cases hmore
    · obtain ⟨hne, hother⟩ := hnext next hnextCursor
      rw [hnextCursor] at hcase
      rcases hcase with heq | heq
      · exact hne (Option.some.inj heq)
      · exact hother heq
  have hcontradiction : ¬(payload.responseComplete = true ∧
      (payload.physicalPage.paginationComplete = false ∨ payload.hasGap = true)) := by
    rintro ⟨hwhole, hcase⟩
    obtain ⟨hend, hgap⟩ := hpage.whole hwhole
    rw [hpage.complete, hend, hgap] at hcase
    simp at hcase
  have hok : ¬payload.ok = false := by
    rw [hpage.ok]
    exact Bool.true_eq_false.mp
  refine Except.bind_eq_ok_iff.mpr ⟨(), Except.refuseIf_neg hok, ?_⟩
  refine Except.bind_eq_ok_iff.mpr ⟨(), Except.refuseIf_neg hidentity, ?_⟩
  refine Except.bind_eq_ok_iff.mpr ⟨(), Except.refuseIf_neg hphysical, ?_⟩
  refine Except.bind_eq_ok_iff.mpr ⟨(), Except.refuseIf_neg (not_not.mpr hpage.complete), ?_⟩
  exact Except.bind_eq_ok_iff.mpr ⟨(), Except.refuseIf_neg hloop,
    Except.refuseIf_neg hcontradiction⟩

/-- **A truthful page is read exactly when none of its values is passed over.** -/
theorem normalizeV3PhysicalPage_eq (hpage : IsPage identity piece number cursor payload)
    (hcursor : cursor ≠ some "")
    (hnext : ∀ next, payload.physicalPage.nextCursor = some next → next ≠ "" ∧ some next ≠ cursor)
    (hstored : payload.rows.map (RawRow.stored host) = rows.map some) (horder : InOrder rows)
    (hpiece : ∀ row ∈ rows, piece.Holds row) :
    normalizeV3PhysicalPage host identity piece number cursor payload
      = if AllAccepted payload.rows then .ok (payload.observations host identity)
        else .error leafRowInvalid := by
  have hafter : After none rows := fun t ht ↦ nomatch ht
  rw [normalizeV3PhysicalPage, checkV3PhysicalPage_ok hpage hcursor hnext, Except.ok_bind,
    normalizeLeafRows_eq hstored horder hafter hpiece]
  by_cases haccepted : AllAccepted payload.rows
  · have hdecoded : ¬payload.physicalPage.physicalRowsDecoded
        < (rows.map (StoredRow.observation identity)).length := by
      have hlength := congrArg List.length hstored
      rw [List.length_map, List.length_map] at hlength
      obtain ⟨hrows, -⟩ := hpage.decoded
      rw [List.length_map, ← hlength]
      omega
    rw [if_pos haccepted, if_pos haccepted, Except.ok_bind, Except.refuseIf_neg hdecoded,
      PagePayload.observations, filterMap_stored hstored]
    rfl
  · rw [if_neg haccepted, if_neg haccepted]
    rfl

/-- What a page adds when it is kept. -/
def Progress.keep (progress : Progress ν) (payload : PagePayload ν)
    (rows : List (ObservationRow ν)) (lastMs : Option ℤ) : Progress ν :=
  { (progress.spend (some payload)).note payload with
    rows := progress.rows ++ rows
    previousMs := lastMs
    budget := { progress.budget with
      pagesUsed := progress.budget.pagesUsed + 1
      rowsUsed := progress.budget.rowsUsed + rows.length } }

omit [Numeric ν] in
/-- What is left after a page that fits. -/
theorem left_keep (hspent : ¬progress.budget.left.Spent)
    (hfits : pageSize payload ≤ progress.budget.left.rows)
    {rows : List (ObservationRow ν)} (hlength : rows.length = pageSize payload)
    (lastMs : Option ℤ) : (progress.keep payload rows lastMs).budget.left
      = progress.budget.left.after pageSize payload := by
  have hexhausted : progress.budget.rowExhausted = false := by
    by_contra htrue
    rw [Bool.not_eq_false] at htrue
    exact hspent (spent_iff.mpr (Or.inl (by rw [htrue]; rfl)))
  rw [Allowance.Left.after, if_pos hfits]
  simp only [Progress.keep, ReadBudget.left, Progress.spend, Progress.note, hexhausted, hlength,
    Bool.false_eq_true, if_false, Allowance.Left.mk.injEq]
  omega

/-- A page that fits advances the read by itself. -/
theorem advanced_keep (hvalid : progress.budget.Valid) (hspent : ¬progress.budget.left.Spent)
    (hstored : payload.rows.map (RawRow.stored host) = rows.map some)
    (hfits : pageSize payload ≤ progress.budget.left.rows) {lastMs : Option ℤ}
    (hlast : lastMs = progress.previousMs ∨ ∃ row ∈ rows, lastMs = some row.observedAtMs) :
    Advanced host identity [payload] progress
      (progress.keep payload (payload.observations host identity) lastMs) := by
  have hlength : (payload.observations host identity).length = pageSize payload := by
    have hcount := congrArg List.length hstored
    rw [List.length_map, List.length_map] at hcount
    rw [PagePayload.observations, List.length_map, filterMap_stored hstored, ← hcount, pageSize]
  have hfetched : fetchedPages progress.budget [payload] = [payload] :=
    Allowance.fetched_cons hspent
  have hkept : keptPages progress.budget [payload] = [payload] := Allowance.kept_cons hspent hfits
  refine ⟨?_, ?_, ?_, ?_, ?_, ?_, fun hcomplete ↦ ⟨hcomplete, hkept⟩⟩
  · have hpages : progress.budget.pagesUsed < progress.budget.pageLimit := by
      by_contra hle
      exact hspent (spent_iff.mpr (Or.inr (not_lt.mp hle)))
    have hrows : progress.budget.rowsUsed + (payload.observations host identity).length
        ≤ progress.budget.rowLimit := by
      rw [hlength]
      have hlimit := hvalid.rowsUsed_le
      rw [ReadBudget.left] at hfits
      dsimp only at hfits
      split at hfits <;> omega
    exact ⟨hvalid.pages_pos, hvalid.pages_le, hpages, hvalid.rows_pos, hvalid.rows_le, hrows⟩
  · rw [left_keep hspent hfits hlength, Allowance.rest_cons hspent]
    rfl
  · rw [hfetched]
    rfl
  · rw [hkept, List.flatMap_singleton]
    rfl
  · rw [hfetched, List.any_cons, List.any_nil, Bool.or_false]
    rfl
  · rcases hlast with hsame | ⟨row, hrow, hsome⟩
    · exact Or.inl hsame
    · have hmem : some row ∈ payload.rows.map (RawRow.stored host) := by
        rw [hstored]
        exact List.mem_map_of_mem hrow
      obtain ⟨raw, hraw, heq⟩ := List.mem_map.mp hmem
      exact Or.inr ⟨raw, by rw [pageRows, List.flatMap_singleton]; exact hraw, row.observedAtMs,
        (stored_eq_some_iff.mp heq).1, hsome⟩

/-- A page that does not fit is fetched and leaves nothing. -/
theorem advanced_overflow (hvalid : progress.budget.Valid) (hspent : ¬progress.budget.left.Spent)
    (hfits : ¬pageSize payload ≤ progress.budget.left.rows) :
    ((progress.spend (some payload)).note payload).stopRows.budget.left.Spent ∧
      Advanced host identity [payload] progress
        ((progress.spend (some payload)).note payload).stopRows := by
  have hfetched : fetchedPages progress.budget [payload] = [payload] :=
    Allowance.fetched_cons hspent
  have hkept : keptPages progress.budget [payload] = [] := Allowance.kept_cons_of_not_le hfits
  have hpages : progress.budget.pagesUsed < progress.budget.pageLimit := by
    by_contra hle
    exact hspent (spent_iff.mpr (Or.inr (not_lt.mp hle)))
  refine ⟨Or.inr rfl, ⟨⟨hvalid.pages_pos, hvalid.pages_le, hpages, hvalid.rows_pos, hvalid.rows_le,
    hvalid.rowsUsed_le⟩, ?_, ?_, ?_, ?_, Or.inl rfl, fun hcomplete ↦ nomatch hcomplete⟩⟩
  · rw [Allowance.rest_cons hspent, Allowance.rest, Allowance.Left.after, if_neg hfits]
    rfl
  · rw [hfetched]
    rfl
  · rw [hkept, List.flatMap_nil, List.append_nil]
    rfl
  · rw [hfetched, List.any_cons, List.any_nil, Bool.or_false]
    rfl

/-- A turn with something to spend reads a page that the service serves. -/
theorem turn_of_page (hspent : ¬progress.budget.left.Spent)
    (hstart : IsTimeValue piece.startMs) (hend : IsTimeValue piece.endMs)
    (hanswer : service ⟨identity, piece, cursor⟩ = some payload)
    (hpage : IsPage identity piece number cursor payload) (hcursor : cursor ≠ some "")
    (hnext : ∀ next, payload.physicalPage.nextCursor = some next → next ≠ "" ∧ some next ≠ cursor)
    (hstored : payload.rows.map (RawRow.stored host) = rows.map some) (horder : InOrder rows)
    (hpiece : ∀ row ∈ rows, piece.Holds row) :
    turn host service identity piece cursor number seen progress
      = if AllAccepted payload.rows then
          keepPage seen payload (payload.observations host identity)
            ((progress.spend (some payload)).note payload)
        else .failed leafRowInvalid (progress.spend (some payload)) := by
  have hrows : ¬(progress.budget.rowExhausted ||
      decide (progress.budget.rowLimit ≤ progress.budget.rowsUsed)) = true := fun h ↦
    hspent (spent_iff.mpr (Or.inl h))
  have hpages : ¬progress.budget.pageLimit ≤ progress.budget.pagesUsed := fun h ↦
    hspent (spent_iff.mpr (Or.inr h))
  obtain ⟨t, ht⟩ := checkedTime_ok_iff.mpr hstart
  obtain ⟨t', ht'⟩ := checkedTime_ok_iff.mpr hend
  have htimes : (checkedTime piece.startMs >>= fun _ ↦ checkedTime piece.endMs) = .ok t' :=
    Except.bind_eq_ok_iff.mpr ⟨t, ht, ht'⟩
  rw [turn, if_neg hrows, if_neg hpages, htimes, hanswer]
  dsimp only
  rw [normalizeV3PhysicalPage_eq hpage hcursor hnext hstored horder hpiece]
  by_cases haccepted : AllAccepted payload.rows
  · rw [if_pos haccepted, if_pos haccepted]
  · rw [if_neg haccepted, if_neg haccepted]

/-- A page that is accepted is kept if it fits, and ends the piece, the read, or neither. -/
theorem keepPage_eq (hspent : ¬progress.budget.left.Spent)
    (hlength : (payload.observations host identity).length = pageSize payload) {lastMs : Option ℤ}
    (happend : appendRows progress.previousMs (payload.observations host identity) = .ok lastMs) :
    keepPage seen payload (payload.observations host identity)
        ((progress.spend (some payload)).note payload)
      = if pageSize payload ≤ progress.budget.left.rows then
          let kept := progress.keep payload (payload.observations host identity) lastMs
          match payload.physicalPage.nextCursor with
          | none => .done { kept with
              allPiecesComplete := kept.allPiecesComplete && payload.responseComplete }
          | some next =>
            if kept.budget.rowLimit ≤ kept.budget.rowsUsed then .left kept.stopRows
            else if next ∈ seen then .failed "station_history_v3_leaf_cursor_loop" kept
            else .next next kept
        else .left ((progress.spend (some payload)).note payload).stopRows := by
  have hexhausted : progress.budget.rowExhausted = false := by
    by_contra htrue
    rw [Bool.not_eq_false] at htrue
    exact hspent (spent_iff.mpr (Or.inl (by rw [htrue]; rfl)))
  have hrows : progress.budget.left.rows = progress.budget.rowLimit - progress.budget.rowsUsed := by
    rw [ReadBudget.left, hexhausted]
    rfl
  have hused : ¬progress.budget.rowLimit ≤ progress.budget.rowsUsed := fun hle ↦
    hspent (spent_iff.mpr (Or.inl (by rw [decide_eq_true hle, Bool.or_true])))
  rw [keepPage]
  by_cases hfits : pageSize payload ≤ progress.budget.left.rows
  · have hlimit : ¬((progress.spend (some payload)).note payload).budget.rowLimit
        < ((progress.spend (some payload)).note payload).budget.rowsUsed
          + (payload.observations host identity).length := by
      rw [hlength]
      rw [hrows] at hfits
      simp only [Progress.spend, Progress.note]
      omega
    rw [if_neg hlimit, if_pos hfits,
      show appendRows ((progress.spend (some payload)).note payload).previousMs
        (payload.observations host identity) = .ok lastMs from happend]
    rfl
  · have hlimit : ((progress.spend (some payload)).note payload).budget.rowLimit
        < ((progress.spend (some payload)).note payload).budget.rowsUsed
          + (payload.observations host identity).length := by
      rw [hlength]
      rw [hrows] at hfits
      simp only [Progress.spend, Progress.note]
      omega
    rw [if_pos hlimit, if_neg hfits]

/-- How a loop over pages ends: it advances over them, or fails because it has fetched a value that
is not accepted. -/
def ReadsOver (host : WebHost) (identity : Identity) (pages : List (PagePayload ν))
    (progress : Progress ν) (exit : Option (Exit ν)) : Prop :=
  if ∀ page ∈ fetchedPages progress.budget pages, AllAccepted page.rows then
    ∃ progress', Advanced host identity pages progress progress' ∧
      (exit = some (.done progress') ∨ exit = some (.left progress') ∧
        progress'.budget.left.Spent ∧ progress'.allPiecesComplete = false)
  else ∃ error progress', exit = some (.failed error progress')

theorem ReadsOver.of_left {pages : List (PagePayload ν)} {progress' : Progress ν}
    (hadvanced : Advanced host identity pages progress progress')
    (hspent : progress'.budget.left.Spent) (hincomplete : progress'.allPiecesComplete = false)
    (haccepted : ∀ page ∈ fetchedPages progress.budget pages, AllAccepted page.rows) :
    ReadsOver host identity pages progress (some (.left progress')) := by
  rw [ReadsOver, if_pos haccepted]
  exact ⟨progress', hadvanced, Or.inr ⟨rfl, hspent, hincomplete⟩⟩

/-- **Reading over pages and then over more is reading over all of them.** -/
theorem ReadsOver.append {pages pages' : List (PagePayload ν)} {progress' : Progress ν}
    {exit : Option (Exit ν)}
    (haccepted : ∀ page ∈ fetchedPages progress.budget pages, AllAccepted page.rows)
    (hadvanced : Advanced host identity pages progress progress')
    (h : ReadsOver host identity pages' progress' exit) :
    ReadsOver host identity (pages ++ pages') progress exit := by
  have hfetched : fetchedPages progress.budget (pages ++ pages')
      = fetchedPages progress.budget pages ++ fetchedPages progress'.budget pages' := by
    rw [fetchedPages, Allowance.fetched_append, ← hadvanced.left]
    rfl
  rw [ReadsOver, hfetched]
  rw [ReadsOver] at h
  by_cases hall : ∀ page ∈ fetchedPages progress'.budget pages', AllAccepted page.rows
  · have happend : ∀ page ∈ fetchedPages progress.budget pages ++
        fetchedPages progress'.budget pages', AllAccepted page.rows := by
      intro page hmem
      rcases List.mem_append.mp hmem with hmem | hmem
      · exact haccepted page hmem
      · exact hall page hmem
    rw [if_pos hall] at h
    rw [if_pos happend]
    obtain ⟨progress'', hrest, hexit⟩ := h
    exact ⟨progress'', hadvanced.trans hrest, hexit⟩
  · rw [if_neg hall] at h
    rw [if_neg fun happend ↦ hall fun page hmem ↦ happend page (List.mem_append_right _ hmem)]
    exact h

/-- After a page that is kept, the loop reads over the pages that follow it. -/
theorem ReadsOver.cons {pages : List (PagePayload ν)} {kept : Progress ν}
    {exit : Option (Exit ν)} (hspent : ¬progress.budget.left.Spent)
    (haccepted : AllAccepted payload.rows)
    (hadvanced : Advanced host identity [payload] progress kept)
    (h : ReadsOver host identity pages kept exit) :
    ReadsOver host identity (payload :: pages) progress exit := by
  have hone : ∀ page ∈ fetchedPages progress.budget [payload], AllAccepted page.rows := by
    intro page hmem
    rw [fetchedPages, Allowance.fetched_cons hspent, Allowance.fetched, List.mem_singleton] at hmem
    rw [hmem]
    exact haccepted
  exact ReadsOver.append hone hadvanced h

variable (seen) in
/-- **What a turn does**: it leaves the loops with nothing to spend, fails on a value that is not
accepted, or keeps the page and ends the piece or goes on. -/
theorem turn_cases (hvalid : progress.budget.Valid) (hstart : IsTimeValue piece.startMs)
    (hend : IsTimeValue piece.endMs)
    (hanswer : service ⟨identity, piece, cursor⟩ = some payload)
    (hpage : IsPage identity piece number cursor payload) (hcursor : cursor ≠ some "")
    (hnext : ∀ next, payload.physicalPage.nextCursor = some next → next ≠ "" ∧ some next ≠ cursor)
    (hstored : payload.rows.map (RawRow.stored host) = rows.map some) (horder : InOrder rows)
    (hafter : After progress.previousMs rows) (hpiece : ∀ row ∈ rows, piece.Holds row)
    (pages : List (PagePayload ν)) :
    (∃ progress', turn host service identity piece cursor number seen progress = .left progress' ∧
      ReadsOver host identity (payload :: pages) progress (some (.left progress'))) ∨
    (∃ error progress',
      turn host service identity piece cursor number seen progress = .failed error progress' ∧
      ReadsOver host identity (payload :: pages) progress (some (.failed error progress'))) ∨
    (∃ kept : Progress ν, ¬progress.budget.left.Spent ∧ AllAccepted payload.rows ∧
      Advanced host identity [payload] progress kept ∧
      kept.budget.pageLimit - kept.budget.pagesUsed + 1
        = progress.budget.pageLimit - progress.budget.pagesUsed ∧
      (kept.previousMs = progress.previousMs ∨
        ∃ row ∈ rows, kept.previousMs = some row.observedAtMs) ∧
      turn host service identity piece cursor number seen progress
        = match payload.physicalPage.nextCursor with
          | none => .done { kept with
              allPiecesComplete := kept.allPiecesComplete && payload.responseComplete }
          | some next =>
            if kept.budget.rowLimit ≤ kept.budget.rowsUsed then .left kept.stopRows
            else if next ∈ seen then .failed "station_history_v3_leaf_cursor_loop" kept
            else .next next kept) := by
  by_cases hspent : progress.budget.left.Spent
  · obtain ⟨progress', hturn, hspent', hincomplete, hadvanced⟩ :=
      turn_of_spent hvalid hspent (payload :: pages)
    refine Or.inl ⟨progress', hturn, ReadsOver.of_left hadvanced hspent' hincomplete ?_⟩
    intro page hmem
    rw [fetchedPages, Allowance.fetched_of_spent hspent] at hmem
    exact absurd hmem List.not_mem_nil
  rw [turn_of_page hspent hstart hend hanswer hpage hcursor hnext hstored horder hpiece]
  by_cases haccepted : AllAccepted payload.rows
  · rw [if_pos haccepted]
    have hrows : ∃ lastMs, appendRows progress.previousMs
          (rows.map (StoredRow.observation identity)) = .ok lastMs ∧
        (lastMs = progress.previousMs ∨ ∃ row ∈ rows, lastMs = some row.observedAtMs) :=
      appendRows_ok horder hafter
    obtain ⟨lastMs, happend, hlast⟩ := hrows
    rw [← filterMap_stored hstored] at happend
    have hlength : (payload.observations host identity).length = pageSize payload := by
      have hcount := congrArg List.length hstored
      rw [List.length_map, List.length_map] at hcount
      rw [PagePayload.observations, List.length_map, filterMap_stored hstored, ← hcount, pageSize]
    rw [keepPage_eq hspent hlength happend]
    by_cases hfits : pageSize payload ≤ progress.budget.left.rows
    · rw [if_pos hfits]
      refine Or.inr (Or.inr ⟨_, hspent, haccepted,
        advanced_keep hvalid hspent hstored hfits hlast, ?_, hlast, rfl⟩)
      have hpages : progress.budget.pagesUsed < progress.budget.pageLimit := by
        by_contra hle
        exact hspent (spent_iff.mpr (Or.inr (not_lt.mp hle)))
      simp only [Progress.keep]
      omega
    · rw [if_neg hfits]
      have hoverflow : ((progress.spend (some payload)).note payload).stopRows.budget.left.Spent ∧
          Advanced host identity [payload] progress
            ((progress.spend (some payload)).note payload).stopRows :=
        advanced_overflow hvalid hspent hfits
      obtain ⟨hspent', hadvanced⟩ := hoverflow
      refine Or.inl ⟨_, rfl, ReadsOver.of_left (hadvanced.extend hspent' rfl pages) hspent' rfl ?_⟩
      intro page hmem
      rw [fetchedPages, Allowance.fetched_cons hspent,
        Allowance.fetched_of_spent (Allowance.spent_after hfits), List.mem_singleton] at hmem
      rw [hmem]
      exact haccepted
  · rw [if_neg haccepted]
    refine Or.inr (Or.inl ⟨_, _, rfl, ?_⟩)
    rw [ReadsOver, if_neg]
    · exact ⟨_, _, rfl⟩
    · intro hall
      refine haccepted (hall payload ?_)
      rw [fetchedPages, Allowance.fetched_cons hspent]
      exact List.mem_cons_self

/-- **The loop over the pages of a piece** ends, and reads over the pages that the service serves. -/
theorem readPiece_spec {pages : List (PagePayload ν)}
    (hserves : Serves service identity piece number cursor seen pages)
    (hstart : IsTimeValue piece.startMs) (hend : IsTimeValue piece.endMs)
    (hcursor : cursor ≠ some "") (hvalid : progress.budget.Valid)
    (hstored : (pageRows pages).map (RawRow.stored host) = rows.map some)
    (horder : InOrder rows) (hafter : After progress.previousMs rows)
    (hpiece : ∀ row ∈ rows, piece.Holds row) {pagesLeft : ℕ}
    (hfuel : progress.budget.pageLimit - progress.budget.pagesUsed ≤ pagesLeft) :
    ReadsOver host identity pages progress
      (readPiece host service identity piece pagesLeft cursor number seen progress) := by
  induction hserves generalizing progress rows pagesLeft with
  | @last number cursor seen payload answer page end_ =>
    rw [pageRows, List.flatMap_singleton] at hstored
    have hnext : ∀ next, payload.physicalPage.nextCursor = some next →
        next ≠ "" ∧ some next ≠ cursor := fun next hsome ↦ nomatch end_.symm.trans hsome
    rcases turn_cases seen hvalid hstart hend answer page hcursor hnext hstored horder
        hafter hpiece [] with ⟨progress', hturn, hreads⟩ | ⟨error, progress', hturn, hreads⟩ |
      ⟨kept, hspent, haccepted, hadvanced, -, -, hturn⟩
    · rw [readPiece, hturn]
      exact hreads
    · rw [readPiece, hturn]
      exact hreads
    · have hnone : ∀ page ∈ fetchedPages kept.budget ([] : List (PagePayload ν)),
          AllAccepted page.rows := fun page hmem ↦ absurd hmem List.not_mem_nil
      rw [end_] at hturn
      rw [readPiece, hturn]
      refine ReadsOver.cons hspent haccepted hadvanced ?_
      rw [ReadsOver, if_pos hnone]
      refine ⟨{ kept with
        allPiecesComplete := kept.allPiecesComplete && payload.responseComplete },
        ⟨hadvanced.valid, rfl, (List.append_nil _).symm, (List.append_nil _).symm,
          (Bool.or_false _).symm, Or.inl rfl, fun hcomplete ↦ ⟨?_, rfl⟩⟩, Or.inl rfl⟩
      exact (Bool.and_eq_true_iff.mp hcomplete).1
  | @more number cursor seen payload next pages answer page continues new serves ih =>
    rw [pageRows, List.flatMap_cons, List.map_append, eq_comm, List.map_eq_append_iff] at hstored
    obtain ⟨first, later, rfl, hfirst, hlater⟩ := hstored
    obtain ⟨horderFirst, horderLater, hbetween⟩ := List.pairwise_append.mp horder
    have hnext : ∀ next', payload.physicalPage.nextCursor = some next' →
        next' ≠ "" ∧ some next' ≠ cursor := by
      intro next' hsome
      obtain rfl : next = next' := Option.some.inj (continues.symm.trans hsome)
      exact ⟨new.1, new.2.2⟩
    rcases turn_cases seen hvalid hstart hend answer page hcursor hnext hfirst.symm
        horderFirst (fun t ht row hrow ↦ hafter t ht row (List.mem_append_left _ hrow))
        (fun row hrow ↦ hpiece row (List.mem_append_left _ hrow)) pages with
      ⟨progress', hturn, hreads⟩ | ⟨error, progress', hturn, hreads⟩ |
      ⟨kept, hspent, haccepted, hadvanced, hpages, hprevious, hturn⟩
    · rw [readPiece, hturn]
      exact hreads
    · rw [readPiece, hturn]
      exact hreads
    · rw [continues] at hturn
      refine ReadsOver.cons hspent haccepted hadvanced ?_
      by_cases hrows : kept.budget.rowLimit ≤ kept.budget.rowsUsed
      · -- the rows are spent, so the loops are left before the next page
        dsimp only at hturn
        rw [if_pos hrows] at hturn
        have hrows' : (kept.budget.rowExhausted ||
            decide (kept.budget.rowLimit ≤ kept.budget.rowsUsed)) = true := by
          rw [decide_eq_true hrows, Bool.or_true]
        have hstop : kept.stopRows.budget.left.Spent ∧
            Advanced host identity [] kept kept.stopRows := advanced_stopRows hadvanced.valid hrows'
        rw [readPiece, hturn]
        refine ReadsOver.of_left (hstop.2.extend hstop.1 rfl pages) hstop.1 rfl ?_
        intro page hmem
        rw [fetchedPages, Allowance.fetched_of_spent (spent_iff.mpr (Or.inl hrows'))] at hmem
        exact absurd hmem List.not_mem_nil
      · dsimp only at hturn
        rw [if_neg hrows, if_neg new.2.1] at hturn
        rw [readPiece, hturn]
        dsimp only
        rcases pagesLeft with _ | pagesLeft
        · omega
        · refine ih (fun heq ↦ new.1 (Option.some.inj heq)) hadvanced.valid hlater.symm horderLater
            ?_ (fun row hrow ↦ hpiece row (List.mem_append_right _ hrow)) (by omega)
          intro t ht row hrow
          rcases hprevious with hsame | ⟨row', hrow', hsome⟩
          · rw [hsame] at ht
            exact hafter t ht row (List.mem_append_right _ hrow)
          · rw [hsome] at ht
            rw [← Option.some.inj ht]
            exact (hbetween row' hrow' row hrow).le

end Loop

end UkAqOps.StationHistory

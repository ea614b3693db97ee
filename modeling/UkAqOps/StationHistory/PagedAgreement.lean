import Mathlib.Algebra.Order.BigOperators.Group.List
import UkAqOps.StationHistory.PagedReads

/-!
# Paged reads keep what index v2 keeps

Over all reads that share a budget, the pages of their pieces are one list, of which the budget
fetches a part from the start. If no page of this part has a value that index v2 passes over, every
read answers with the first of the rows that index v2 gives; otherwise one of the reads fails.
-/

namespace UkAqOps.StationHistory

open Aqi

variable {ν : Type} [Numeric ν]

/-! ## Days -/

section Days

variable {stored : List (StoredRow ν)} {startMs endMs cursor : ℤ} {piece : Piece}

/-- A piece that the service is asked for. -/
structure Piece.Within (piece : Piece) : Prop where
  lt : piece.startMs < piece.endMs
  day : piece.endMs ≤ (piece.startMs / dayMs + 1) * dayMs
  start : IsTimeValue piece.startMs
  end_ : IsTimeValue piece.endMs

omit [Numeric ν] in
/-- The rows of a range are those of its part up to an instant and those from it on. -/
theorem filter_holds_append (horder : InOrder stored) {middleMs : ℤ} (hstart : startMs ≤ middleMs)
    (hend : middleMs ≤ endMs) :
    stored.filter (fun row ↦ (Piece.mk startMs endMs).Holds row)
      = stored.filter (fun row ↦ (Piece.mk startMs middleMs).Holds row) ++
        stored.filter (fun row ↦ (Piece.mk middleMs endMs).Holds row) := by
  induction stored with
  | nil => rfl
  | cons row rest ih =>
    have hrest := ih horder.of_cons
    by_cases hlow : row.observedAtMs < middleMs
    · have hout : ¬(Piece.mk middleMs endMs).Holds row := fun h ↦ by
        have hlower : middleMs ≤ row.observedAtMs := h.1
        omega
      by_cases hin : (Piece.mk startMs middleMs).Holds row
      · have hwhole : (Piece.mk startMs endMs).Holds row := ⟨hin.1, hlow.trans_le hend⟩
        simp only [List.filter_cons, hwhole, hin, hout, decide_true, decide_false, if_true,
          Bool.false_eq_true, if_false, hrest, List.cons_append]
      · have hnot : ¬(Piece.mk startMs endMs).Holds row := fun h ↦ hin ⟨h.1, hlow⟩
        simp only [List.filter_cons, hnot, hin, hout, decide_false, Bool.false_eq_true, if_false,
          hrest]
    · -- all that follow are later still
      have hnone : (row :: rest).filter (fun row ↦ (Piece.mk startMs middleMs).Holds row) = [] := by
        rw [List.filter_eq_nil_iff]
        intro other hother hholds
        have hlt : other.observedAtMs < middleMs := (of_decide_eq_true hholds).2
        rcases List.mem_cons.mp hother with rfl | hother
        · exact hlow hlt
        · have hlater := List.rel_of_pairwise_cons horder hother
          omega
      rw [hnone, List.nil_append]
      refine List.filter_congr fun other hother ↦ ?_
      have hge : middleMs ≤ other.observedAtMs := by
        rcases List.mem_cons.mp hother with rfl | hother
        · exact not_lt.mp hlow
        · exact (not_lt.mp hlow).trans (List.rel_of_pairwise_cons horder hother).le
      have hiff : (Piece.mk startMs endMs).Holds other ↔ (Piece.mk middleMs endMs).Holds other :=
        ⟨fun h ↦ ⟨hge, h.2⟩, fun h ↦ ⟨hstart.trans hge, h.2⟩⟩
      simp only [hiff]

omit [Numeric ν] in
/-- The pieces of a range lie within days, and their rows are those of the range. -/
theorem splitFrom_spec {fuel : ℕ} (hfuel : endMs / dayMs - cursor / dayMs + 1 ≤ fuel)
    (hle : cursor ≤ endMs) :
    (∀ piece ∈ splitFrom endMs fuel cursor, cursor ≤ piece.startMs ∧ piece.startMs < piece.endMs ∧
      piece.endMs ≤ endMs ∧ piece.endMs ≤ (piece.startMs / dayMs + 1) * dayMs) ∧
    ∀ {stored : List (StoredRow ν)}, InOrder stored →
      (splitFrom endMs fuel cursor).flatMap (fun piece ↦ stored.filter fun row ↦ piece.Holds row)
        = stored.filter fun row ↦ (Piece.mk cursor endMs).Holds row := by
  induction fuel generalizing cursor with
  | zero =>
    have hdays : cursor / dayMs ≤ endMs / dayMs := Int.ediv_le_ediv (by decide) hle
    omega
  | succ fuel ih =>
    rw [splitFrom]
    by_cases hlt : cursor < endMs
    · rw [if_pos hlt]
      have hmidnight : cursor < (cursor / dayMs + 1) * dayMs ∧
          (cursor / dayMs + 1) * dayMs ≤ cursor + dayMs := by
        simp only [dayMs, hourMs, minuteMs]
        omega
      dsimp only
      generalize hpiece : min (min endMs ((cursor / dayMs + 1) * dayMs)) (cursor + dayMs) = pieceEnd
      have hbounds : cursor < pieceEnd ∧ pieceEnd ≤ endMs ∧
          pieceEnd ≤ (cursor / dayMs + 1) * dayMs := by
        omega
      have hfuel' : endMs / dayMs - pieceEnd / dayMs + 1 ≤ fuel ∨ pieceEnd = endMs := by
        by_cases hend : pieceEnd = endMs
        · exact Or.inr hend
        · have hnext : pieceEnd = (cursor / dayMs + 1) * dayMs := by omega
          rw [hnext, Int.mul_ediv_cancel _ (by decide)]
          left
          push_cast at hfuel
          omega
      rcases hfuel' with hfuel' | hend
      · obtain ⟨hrest, hrows⟩ := ih hfuel' hbounds.2.1
        refine ⟨fun piece hmem ↦ ?_, fun {stored} horder ↦ ?_⟩
        · rcases List.mem_cons.mp hmem with rfl | hmem
          · exact ⟨le_rfl, hbounds.1, hbounds.2.1, hbounds.2.2⟩
          · obtain ⟨hstart, hrest⟩ := hrest piece hmem
            exact ⟨hbounds.1.le.trans hstart, hrest⟩
        · rw [List.flatMap_cons, hrows horder,
            ← filter_holds_append horder hbounds.1.le hbounds.2.1]
      · have hstop : splitFrom endMs fuel pieceEnd = [] := by
          rw [hend]
          rcases fuel with _ | fuel
          · rfl
          · rw [splitFrom, if_neg (lt_irrefl _)]
        rw [hstop]
        refine ⟨fun piece hmem ↦ ?_, fun {stored} _ ↦ ?_⟩
        · rw [List.mem_singleton.mp hmem]
          exact ⟨le_rfl, hbounds.1, hbounds.2.1, hbounds.2.2⟩
        · rw [List.flatMap_singleton, hend]
    · rw [if_neg hlt]
      refine ⟨fun piece hmem ↦ absurd hmem List.not_mem_nil, fun {stored} _ ↦ ?_⟩
      rw [List.flatMap_nil, eq_comm, List.filter_eq_nil_iff]
      intro row _ hholds
      have hboth : cursor ≤ row.observedAtMs ∧ row.observedAtMs < endMs := of_decide_eq_true hholds
      omega

/-- The pieces of a range. -/
def piecesOf (startMs endMs : ℤ) : List Piece :=
  splitFrom endMs (endMs / dayMs - startMs / dayMs + 1).toNat startMs

omit [Numeric ν] in
theorem piecesOf_spec (hlt : startMs < endMs) (hstart : IsTimeValue startMs)
    (hend : IsTimeValue endMs) : (∀ piece ∈ piecesOf startMs endMs, piece.Within) ∧
    ∀ {stored : List (StoredRow ν)}, InOrder stored →
      (piecesOf startMs endMs).flatMap (fun piece ↦ stored.filter fun row ↦ piece.Holds row)
        = stored.filter fun row ↦ (Piece.mk startMs endMs).Holds row := by
  have hdays : startMs / dayMs ≤ endMs / dayMs := Int.ediv_le_ediv (by decide) hlt.le
  have hfuel : endMs / dayMs - startMs / dayMs + 1
      ≤ (endMs / dayMs - startMs / dayMs + 1).toNat := by omega
  obtain ⟨hpieces, hrows⟩ := splitFrom_spec (ν := ν) hfuel hlt.le
  refine ⟨fun piece hmem ↦ ?_, hrows⟩
  obtain ⟨hlower, hproper, hupper, hday⟩ := hpieces piece hmem
  exact ⟨hproper, hday, ⟨hstart.1.trans hlower, (hproper.le.trans hupper).trans hend.2⟩,
    ⟨(hstart.1.trans hlower).trans hproper.le, hupper.trans hend.2⟩⟩

end Days

/-! ## A read -/

section Read

variable {host : WebHost} {service : PageService ν} {identity : Identity}
variable {stored : List (StoredRow ν)} {pages : Piece → List (PagePayload ν)}
variable {progress : Progress ν} {budget : ReadBudget} {startMs endMs : ℤ}

omit [Numeric ν] in
/-- The instants of the rows of truthful pages are those of the stored rows. -/
theorem exists_row_of_mem_pageRows {pagesOf : List (PagePayload ν)} {rows : List (StoredRow ν)}
    (hstored : (pageRows pagesOf).map (RawRow.stored host) = rows.map some) {raw : RawRow ν}
    (hraw : raw ∈ pageRows pagesOf) {t : ℤ} (ht : raw.observedAtMs host = some t) :
    ∃ row ∈ rows, row.observedAtMs = t := by
  have hmem : raw.stored host ∈ rows.map some := by
    rw [← hstored]
    exact List.mem_map_of_mem hraw
  obtain ⟨row, hrow, heq⟩ := List.mem_map.mp hmem
  have htime := (stored_eq_some_iff.mp heq.symm).1
  rw [ht] at htime
  exact ⟨row, hrow, (Option.some.inj htime).symm⟩

/-- **The loop over the pieces** reads over the pages of all of them. -/
theorem readPieces_spec (pieces : List Piece) (hwithin : ∀ piece ∈ pieces, piece.Within)
    (htruthful : ∀ piece ∈ pieces, Truthful host service identity stored piece (pages piece))
    (hvalid : progress.budget.Valid)
    (horder : InOrder (pieces.flatMap fun piece ↦ stored.filter fun row ↦ piece.Holds row))
    (hafter : After progress.previousMs
      (pieces.flatMap fun piece ↦ stored.filter fun row ↦ piece.Holds row)) :
    ReadsOver host identity (pieces.flatMap pages) progress
      (readPieces host service identity pieces progress) := by
  induction pieces generalizing progress with
  | nil =>
    have hnone : ∀ page ∈ fetchedPages progress.budget ([] : List (PagePayload ν)),
        AllAccepted page.rows := fun page hmem ↦ absurd hmem List.not_mem_nil
    rw [List.flatMap_nil, ReadsOver, if_pos hnone]
    exact ⟨progress, ⟨hvalid, rfl, (List.append_nil _).symm, (List.append_nil _).symm,
      (Bool.or_false _).symm, Or.inl rfl, fun hcomplete ↦ ⟨hcomplete, rfl⟩⟩, Or.inl rfl⟩
  | cons piece pieces ih =>
    rw [List.flatMap_cons] at horder hafter ⊢
    obtain ⟨horderFirst, horderLater, hbetween⟩ := List.pairwise_append.mp horder
    have hpiece := hwithin piece List.mem_cons_self
    have htruth := htruthful piece List.mem_cons_self
    have hnone : (none : Option String) ≠ some "" := by simp
    have hfirst : ReadsOver host identity (pages piece) progress (readPiece host service identity
        piece (progress.budget.pageLimit - progress.budget.pagesUsed) none 1 [] progress) :=
      readPiece_spec htruth.serves hpiece.start hpiece.end_ hnone hvalid htruth.rows horderFirst
        (fun t ht row hrow ↦ hafter t ht row (List.mem_append_left _ hrow))
        (fun row hrow ↦ of_decide_eq_true (List.mem_filter.mp hrow).2) le_rfl
    rw [readPieces]
    by_cases haccepted : ∀ page ∈ fetchedPages progress.budget (pages piece), AllAccepted page.rows
    · rw [ReadsOver, if_pos haccepted] at hfirst
      obtain ⟨progress', hadvanced, hdone | ⟨hleft, hspent, hincomplete⟩⟩ := hfirst
      · rw [hdone]
        refine ReadsOver.append haccepted hadvanced (ih
          (fun piece hmem ↦ hwithin piece (List.mem_cons_of_mem _ hmem))
          (fun piece hmem ↦ htruthful piece (List.mem_cons_of_mem _ hmem)) hadvanced.valid
          horderLater ?_)
        intro t ht row hrow
        rcases hadvanced.previous with hsame | ⟨raw, hraw, t', ht', hsome⟩
        · rw [hsame] at ht
          exact hafter t ht row (List.mem_append_right _ hrow)
        · obtain ⟨row', hrow', rfl⟩ := exists_row_of_mem_pageRows htruth.rows hraw ht'
          rw [hsome] at ht
          rw [← Option.some.inj ht]
          exact (hbetween row' hrow' row hrow).le
      · rw [hleft]
        refine ReadsOver.of_left (hadvanced.extend hspent hincomplete _) hspent hincomplete ?_
        intro page hmem
        rw [fetchedPages, Allowance.fetched_append, ← hadvanced.left,
          Allowance.fetched_of_spent hspent, List.append_nil] at hmem
        exact haccepted page hmem
    · rw [ReadsOver, if_neg haccepted] at hfirst
      obtain ⟨error, progress', hfailed⟩ := hfirst
      rw [hfailed, ReadsOver, if_neg]
      · exact ⟨error, progress', rfl⟩
      · intro hall
        refine haccepted fun page hmem ↦ hall page ?_
        rw [fetchedPages, Allowance.fetched_append]
        exact List.mem_append_left _ hmem

omit [Numeric ν] in
/-- A read answers if and only if its bounds are instants of dates. -/
theorem readAnswer_eq_ok_iff {pagesUsed : ℕ} : (∃ answer, readAnswer startMs endMs pagesUsed progress
      = .ok answer) ↔ IsTimeValue startMs ∧ IsTimeValue endMs := by
  rw [← checkedTime_ok_iff, ← checkedTime_ok_iff, readAnswer]
  constructor
  · rintro ⟨answer, hanswer⟩
    obtain ⟨t, hstart, hanswer⟩ := Except.bind_eq_ok_iff.mp hanswer
    obtain ⟨t', hend, -⟩ := Except.bind_eq_ok_iff.mp hanswer
    exact ⟨⟨t, hstart⟩, t', hend⟩
  · rintro ⟨⟨t, hstart⟩, t', hend⟩
    exact ⟨_, Except.bind_eq_ok_iff.mpr ⟨t, hstart, Except.bind_eq_ok_iff.mpr ⟨t', hend, rfl⟩⟩⟩

omit [Numeric ν] in
theorem rows_of_readAnswer {pagesUsed : ℕ} {answer : ReadAnswer ν}
    (h : readAnswer startMs endMs pagesUsed progress = .ok answer) :
    answer.rows = progress.rows ∧ answer.fetchCount = progress.budget.pagesUsed - pagesUsed ∧
      (answer.responseComplete = true →
        progress.allPiecesComplete = true ∧ progress.hasGap = false) := by
  obtain ⟨t, -, h⟩ := Except.bind_eq_ok_iff.mp h
  obtain ⟨t', -, h⟩ := Except.bind_eq_ok_iff.mp h
  rw [← Except.pure_eq_ok_iff.mp h]
  refine ⟨rfl, rfl, fun hcomplete ↦ ?_⟩
  simp only [Bool.and_eq_true, Bool.not_eq_true'] at hcomplete
  exact ⟨hcomplete.1.1.1, hcomplete.1.1.2⟩

/-- The rows that index v2 keeps of those in a range. -/
def keptRows (stored : List (StoredRow ν)) (range : Piece) : List (StoredRow ν) :=
  stored.filter fun row ↦ range.Holds row && isAccepted row.number

/-- A v2 payload of the stored rows. -/
structure R2Payload.Lists (host : WebHost) (identity : Identity) (stored : List (StoredRow ν))
    (payload : R2Payload ν) : Prop where
  timeseriesId : payload.timeseriesId = some identity.timeseriesId
  connectorId : payload.connectorId = some identity.connectorId
  pollutant : normalizePollutantCode payload.pollutant = some identity.pollutant
  rows : payload.rows.map (RawRow.stored host) = stored.map some

theorem filterMap_normalizeRow {raws : List (RawRow ν)}
    (hstored : raws.map (RawRow.stored host) = stored.map some) :
    raws.filterMap (normalizeRow host identity startMs endMs)
      = (keptRows stored ⟨startMs, endMs⟩).map (StoredRow.observation identity) := by
  induction raws generalizing stored with
  | nil =>
    rcases stored with _ | ⟨row, rest⟩
    · rfl
    · cases hstored
  | cons raw raws ih =>
    rcases stored with _ | ⟨row, rest⟩
    · cases hstored
    rw [List.map_cons, List.map_cons, List.cons.injEq, stored_eq_some_iff] at hstored
    obtain ⟨⟨htime, hvalue⟩, hrest⟩ := hstored
    have hnumber : raw.number = row.number := by rw [RawRow.number, hvalue, StoredRow.number]
    have hrow : normalizeRow host identity startMs endMs raw
        = if (Piece.mk startMs endMs).Holds row ∧ isAccepted row.number = true then
            some (row.observation identity) else none := by
      rw [normalizeRow, htime, Option.bind_some, hnumber]
      by_cases hlower : row.observedAtMs < startMs
      · have hout : ¬((Piece.mk startMs endMs).Holds row ∧ isAccepted row.number = true) := fun h ↦
          absurd h.1.1 (not_le.mpr hlower)
        simp [hlower, hout]
      · by_cases hupper : endMs ≤ row.observedAtMs
        · have hout : ¬((Piece.mk startMs endMs).Holds row ∧ isAccepted row.number = true) :=
            fun h ↦ absurd h.1.2 (not_lt.mpr hupper)
          simp [hupper, hout]
        · have hin : (Piece.mk startMs endMs).Holds row := ⟨not_lt.mp hlower, not_le.mp hupper⟩
          simp only [hlower, hupper, hin, decide_false, Bool.false_or, true_and, Bool.not_eq_true']
          rcases isAccepted row.number
          · rfl
          · rfl
    rw [List.filterMap_cons, hrow, ih hrest, keptRows, keptRows, List.filter_cons]
    by_cases hkept : (Piece.mk startMs endMs).Holds row ∧ isAccepted row.number = true
    · rw [if_pos hkept, if_pos (by simp [hkept.1, hkept.2])]
      rfl
    · rw [if_neg hkept, if_neg (by simpa using hkept)]

theorem normalizeR2ObservationRows_eq {payload : R2Payload ν}
    (h : payload.Lists host identity stored) :
    normalizeR2ObservationRows host payload identity startMs endMs
      = .ok ((keptRows stored ⟨startMs, endMs⟩).map (StoredRow.observation identity)) := by
  have hids : ¬(payload.timeseriesId.any (fun id ↦ id ≠ 0 ∧ id ≠ identity.timeseriesId) = true ∨
      payload.connectorId.any (fun id ↦ id ≠ 0 ∧ id ≠ identity.connectorId) = true ∨
      (normalizePollutantCode payload.pollutant).any (· ≠ identity.pollutant) = true) := by
    rw [h.timeseriesId, h.connectorId, h.pollutant]
    simp
  rw [normalizeR2ObservationRows, Except.refuseIf_neg hids, Except.ok_bind,
    filterMap_normalizeRow h.rows]
  rfl

/-- The first pages of a truthful list hold the first of its rows. -/
theorem exists_rows_of_prefix {all first : List (PagePayload ν)} {rows : List (StoredRow ν)}
    (hfirst : first <+: all) (hstored : (pageRows all).map (RawRow.stored host) = rows.map some) :
    ∃ taken, taken <+: rows ∧ (pageRows first).map (RawRow.stored host) = taken.map some ∧
      first.flatMap (PagePayload.observations host identity)
        = taken.map (StoredRow.observation identity) ∧
      (first = all → taken = rows) := by
  obtain ⟨more, rfl⟩ := hfirst
  have happend : pageRows (first ++ more) = pageRows first ++ pageRows more := List.flatMap_append
  rw [happend, List.map_append, eq_comm, List.map_eq_append_iff] at hstored
  obtain ⟨taken, later, rfl, htaken, hlater⟩ := hstored
  refine ⟨taken, List.prefix_append _ _, htaken.symm, ?_, fun hall ↦ ?_⟩
  · rw [← filterMap_stored htaken.symm, pageRows, List.filterMap_flatMap, List.map_flatMap]
    rfl
  · have hmore : more = [] := List.append_right_eq_self.mp hall.symm
    rw [hmore] at hlater
    have hnil : later = [] := List.map_eq_nil_iff.mp hlater
    rw [hnil, List.append_nil]

/-- Rows that are all accepted are kept as they are. -/
theorem prefix_keptRows {range : Piece} {taken : List (StoredRow ν)}
    (hfirst : taken <+: stored.filter fun row ↦ range.Holds row)
    (haccepted : ∀ row ∈ taken, isAccepted row.number = true) :
    taken <+: keptRows stored range ∧
      (taken = stored.filter (fun row ↦ range.Holds row) → taken = keptRows stored range) := by
  have hfilter : keptRows stored range
      = (stored.filter fun row ↦ range.Holds row).filter fun row ↦ isAccepted row.number := by
    rw [keptRows, List.filter_filter]
    refine List.filter_congr fun row _ ↦ Bool.and_comm _ _
  have hself : taken.filter (fun row ↦ isAccepted row.number) = taken :=
    List.filter_eq_self.mpr haccepted
  refine ⟨?_, fun hall ↦ ?_⟩
  · rw [hfilter, ← hself]
    exact hfirst.filter _
  · rw [hfilter, ← hall, hself]

end Read

/-! ## Reads that share a budget -/

section Runs

variable {host : WebHost} {service : PageService ν} {identity : Identity}
variable {stored : List (StoredRow ν)} {pages : Piece → List (PagePayload ν)}
variable {payload : R2Payload ν} {budget : ReadBudget} {startMs endMs : ℤ}

/-- A read answers with the first of the rows that index v2 gives, and with all of them if it calls
itself complete; then no page that it has fetched has a gap. -/
def KeepsV2 (host : WebHost) (identity : Identity) (payload : R2Payload ν) (range : ℤ × ℤ)
    (outcome : ReadOutcome ν) : Prop :=
  ∃ answer expected, outcome.result = .ok answer ∧
    normalizeR2ObservationRows host payload identity range.1 range.2 = .ok expected ∧
    answer.rows <+: expected ∧
    (answer.rows.Pairwise fun row row' ↦ row.observedAt < row'.observedAt) ∧
    (answer.responseComplete = true →
      answer.rows = expected ∧ ∀ page ∈ outcome.fetched, page.hasGap = false)

def ReadOutcome.rowCount (outcome : ReadOutcome ν) : ℕ :=
  match outcome.result with
  | .ok answer => answer.rows.length
  | .error _ => 0

/-- The reads end, each keeps what index v2 keeps, and together they stay within the budget. -/
def KeepsV2WithinBudget (host : WebHost) (service : PageService ν) (identity : Identity)
    (payload : R2Payload ν) (ranges : List (ℤ × ℤ)) (budget : ReadBudget) : Prop :=
  ∃ outcomes, readRanges host service identity ranges budget = some outcomes ∧
    List.Forall₂ (KeepsV2 host identity payload) ranges outcomes ∧
    budget.pagesUsed + (outcomes.map fun outcome ↦ outcome.fetched.length).sum ≤ budget.pageLimit ∧
    budget.rowsUsed + (outcomes.map ReadOutcome.rowCount).sum ≤ budget.rowLimit

/-- The pages of all reads, in the order in which they would be fetched. -/
def allPages (pages : Piece → List (PagePayload ν)) (ranges : List (ℤ × ℤ)) :
    List (PagePayload ν) :=
  ranges.flatMap fun range ↦ (piecesOf range.1 range.2).flatMap pages

/-- The page of this number is within the budget: a page is left for it, and the rows of the pages
before it leave one. -/
def WithinBudget (budget : ReadBudget) (pages : List (PagePayload ν)) (k : ℕ) : Prop :=
  budget.rowExhausted = false ∧ budget.pagesUsed + k < budget.pageLimit ∧
    budget.rowsUsed + ((pages.take k).map pageSize).sum < budget.rowLimit

omit [Numeric ν] in
theorem mem_fetchedPages_iff {all : List (PagePayload ν)} {page : PagePayload ν} :
    page ∈ fetchedPages budget all ↔ ∃ k, all[k]? = some page ∧ WithinBudget budget all k := by
  rw [fetchedPages, Allowance.mem_fetched_iff]
  refine exists_congr fun k ↦ and_congr_right fun _ ↦ ?_
  rw [ReadBudget.left, WithinBudget]
  rcases budget.rowExhausted
  · simp only [Bool.false_eq_true, if_false, true_and]
    omega
  · simp

/-- **A read** answers exactly when its bounds are instants of dates and no page that the budget
fetches has a value that is passed over. -/
theorem readV3_spec (hbudget : budget.Valid) (hlt : startMs < endMs) (hstart : IsTimeValue startMs)
    (hend : IsTimeValue endMs) (horder : InOrder stored)
    (htruthful : ∀ piece : Piece, piece.Within →
      Truthful host service identity stored piece (pages piece)) :
    ∃ outcome, readV3R2Observations host service identity startMs endMs budget = some outcome ∧
      if ∀ page ∈ fetchedPages budget ((piecesOf startMs endMs).flatMap pages),
          AllAccepted page.rows then
        ∃ answer, outcome.result = .ok answer ∧ outcome.budget.Valid ∧
          outcome.budget.left
            = Allowance.rest pageSize budget.left ((piecesOf startMs endMs).flatMap pages) ∧
          outcome.fetched = fetchedPages budget ((piecesOf startMs endMs).flatMap pages) ∧
          answer.rows = (keptPages budget ((piecesOf startMs endMs).flatMap pages)).flatMap
            (PagePayload.observations host identity) ∧
          (answer.responseComplete = true →
            keptPages budget ((piecesOf startMs endMs).flatMap pages)
              = (piecesOf startMs endMs).flatMap pages ∧
            ∀ page ∈ outcome.fetched, page.hasGap = false)
      else ∃ error, outcome.result = .error error := by
  obtain ⟨hwithin, hrows⟩ := piecesOf_spec (ν := ν) hlt hstart hend
  have hreads : ReadsOver host identity ((piecesOf startMs endMs).flatMap pages) { budget }
      (readPieces host service identity (piecesOf startMs endMs) { budget }) := by
    refine readPieces_spec _ hwithin (fun piece hmem ↦ htruthful piece (hwithin piece hmem)) hbudget
      ?_ fun t ht ↦ nomatch ht
    rw [hrows horder]
    exact horder.sublist List.filter_sublist
  have hsplit : splitR2ObservationRangeByUtcDay startMs endMs = .ok (piecesOf startMs endMs) :=
    Except.bind_eq_ok_iff.mpr ⟨(), Except.refuseIf_neg (not_le.mpr hlt), rfl⟩
  rw [readV3R2Observations, if_pos hbudget, hsplit]
  dsimp only
  rw [ReadsOver] at hreads
  by_cases haccepted : ∀ page ∈ fetchedPages budget ((piecesOf startMs endMs).flatMap pages),
      AllAccepted page.rows
  · rw [if_pos haccepted] at hreads
    obtain ⟨progress', hadvanced, hexit⟩ := hreads
    have hanswers : ∃ answer, readAnswer startMs endMs budget.pagesUsed progress' = .ok answer :=
      readAnswer_eq_ok_iff.mpr ⟨hstart, hend⟩
    obtain ⟨answer, hanswer⟩ := hanswers
    obtain ⟨hanswerRows, -, hcomplete⟩ := rows_of_readAnswer hanswer
    have hspec : ∃ answer, readAnswer startMs endMs budget.pagesUsed progress' = .ok answer ∧
        progress'.budget.Valid ∧ progress'.budget.left
          = Allowance.rest pageSize budget.left ((piecesOf startMs endMs).flatMap pages) ∧
        progress'.fetched = fetchedPages budget ((piecesOf startMs endMs).flatMap pages) ∧
        answer.rows = (keptPages budget ((piecesOf startMs endMs).flatMap pages)).flatMap
          (PagePayload.observations host identity) ∧
        (answer.responseComplete = true →
          keptPages budget ((piecesOf startMs endMs).flatMap pages)
            = (piecesOf startMs endMs).flatMap pages ∧
          ∀ page ∈ progress'.fetched, page.hasGap = false) := by
      refine ⟨answer, hanswer, hadvanced.valid, hadvanced.left, hadvanced.fetched,
        hanswerRows.trans hadvanced.rows, fun hwhole ↦ ?_⟩
      obtain ⟨hall, hgap⟩ := hcomplete hwhole
      refine ⟨(hadvanced.complete hall).2, fun page hmem ↦ ?_⟩
      rw [hadvanced.gap, Bool.or_eq_false_iff, List.any_eq_false] at hgap
      rw [hadvanced.fetched] at hmem
      exact Bool.eq_false_iff.mpr (hgap.2 page hmem)
    rcases hexit with hdone | ⟨hleft, -, -⟩
    · rw [hdone]
      exact ⟨_, rfl, by rw [if_pos haccepted]; exact hspec⟩
    · rw [hleft]
      exact ⟨_, rfl, by rw [if_pos haccepted]; exact hspec⟩
  · rw [if_neg haccepted] at hreads
    obtain ⟨error, progress', hfailed⟩ := hreads
    rw [hfailed]
    exact ⟨_, rfl, by rw [if_neg haccepted]; exact ⟨error, rfl⟩⟩

omit [Numeric ν] in
/-- The pages of a range hold its stored rows. -/
theorem pageRows_piecesOf (hlt : startMs < endMs) (hstart : IsTimeValue startMs)
    (hend : IsTimeValue endMs) (horder : InOrder stored)
    (htruthful : ∀ piece : Piece, piece.Within →
      Truthful host service identity stored piece (pages piece)) :
    (pageRows ((piecesOf startMs endMs).flatMap pages)).map (RawRow.stored host)
      = (stored.filter fun row ↦ (Piece.mk startMs endMs).Holds row).map some := by
  obtain ⟨hwithin, hrows⟩ := piecesOf_spec (ν := ν) hlt hstart hend
  rw [← hrows horder, pageRows, List.flatMap_assoc, List.map_flatMap, List.map_flatMap]
  exact List.flatMap_congr fun piece hmem ↦ (htruthful piece (hwithin piece hmem)).rows

/-- Rows of pages whose values are all accepted. -/
theorem isAccepted_of_allAccepted {first : List (PagePayload ν)} {taken : List (StoredRow ν)}
    (haccepted : ∀ page ∈ first, AllAccepted page.rows)
    (htaken : (pageRows first).map (RawRow.stored host) = taken.map some) :
    ∀ row ∈ taken, isAccepted row.number = true := by
  intro row hrow
  have hmem : some row ∈ (pageRows first).map (RawRow.stored host) := by
    rw [htaken]
    exact List.mem_map_of_mem hrow
  obtain ⟨raw, hraw, heq⟩ := List.mem_map.mp hmem
  obtain ⟨page, hpage, hraw⟩ := List.mem_flatMap.mp hraw
  have hvalue := (stored_eq_some_iff.mp heq).2
  rw [StoredRow.number, ← hvalue]
  exact haccepted page hpage raw hraw

theorem length_observations_le (first : List (PagePayload ν)) :
    (first.flatMap (PagePayload.observations host identity)).length
      ≤ (first.map pageSize).sum := by
  rw [List.length_flatMap]
  refine List.sum_le_sum fun page _ ↦ ?_
  rw [PagePayload.observations, List.length_map]
  exact List.length_filterMap_le _ _

/-- A range that is asked for: two instants of dates, one before the other. -/
structure IsRange (range : ℤ × ℤ) : Prop where
  lt : range.1 < range.2
  start : IsTimeValue range.1
  end_ : IsTimeValue range.2

/-- **A read keeps what index v2 keeps** if no page that the budget fetches has a value that is passed
over, and fails otherwise. -/
theorem keepsV2_readV3 {range : ℤ × ℤ} (hbudget : budget.Valid) (hrange : IsRange range)
    (horder : InOrder stored) (htruthful : ∀ piece : Piece, piece.Within →
      Truthful host service identity stored piece (pages piece))
    (hlists : payload.Lists host identity stored) :
    ∃ outcome, readV3R2Observations host service identity range.1 range.2 budget = some outcome ∧
      if ∀ page ∈ fetchedPages budget ((piecesOf range.1 range.2).flatMap pages),
          AllAccepted page.rows then
        KeepsV2 host identity payload range outcome ∧ outcome.budget.Valid ∧
          outcome.budget.left
            = Allowance.rest pageSize budget.left ((piecesOf range.1 range.2).flatMap pages) ∧
          outcome.fetched.length + outcome.budget.left.pages ≤ budget.left.pages ∧
          outcome.rowCount + outcome.budget.left.rows ≤ budget.left.rows
      else ¬KeepsV2 host identity payload range outcome := by
  obtain ⟨outcome, hread, hspec⟩ :=
    readV3_spec hbudget hrange.lt hrange.start hrange.end_ horder htruthful
  refine ⟨outcome, hread, ?_⟩
  by_cases haccepted : ∀ page ∈ fetchedPages budget ((piecesOf range.1 range.2).flatMap pages),
      AllAccepted page.rows
  · rw [if_pos haccepted] at hspec ⊢
    obtain ⟨answer, hanswer, hvalid, hleft, hfetched, hrows, hcomplete⟩ := hspec
    have hstored := pageRows_piecesOf hrange.lt hrange.start hrange.end_ horder htruthful
    have hkept : keptPages budget ((piecesOf range.1 range.2).flatMap pages)
        <+: (piecesOf range.1 range.2).flatMap pages := Allowance.kept_prefix _ _
    have hkeptFetched : keptPages budget ((piecesOf range.1 range.2).flatMap pages)
        <+: fetchedPages budget ((piecesOf range.1 range.2).flatMap pages) :=
      Allowance.kept_prefix_fetched _ _
    have hrowsOf : ∃ taken,
        taken <+: stored.filter (fun row ↦ (Piece.mk range.1 range.2).Holds row) ∧
        (pageRows (keptPages budget ((piecesOf range.1 range.2).flatMap pages))).map
          (RawRow.stored host) = taken.map some ∧
        (keptPages budget ((piecesOf range.1 range.2).flatMap pages)).flatMap
          (PagePayload.observations host identity) = taken.map (StoredRow.observation identity) ∧
        (keptPages budget ((piecesOf range.1 range.2).flatMap pages)
          = (piecesOf range.1 range.2).flatMap pages →
          taken = stored.filter fun row ↦ (Piece.mk range.1 range.2).Holds row) :=
      exists_rows_of_prefix hkept hstored
    obtain ⟨taken, htaken, htakenRows, hobservations, hwhole⟩ := hrowsOf
    have hgood := isAccepted_of_allAccepted
      (fun page hmem ↦ haccepted page (hkeptFetched.subset hmem)) htakenRows
    obtain ⟨hfirst, hall⟩ := prefix_keptRows htaken hgood
    rw [hobservations] at hrows
    refine ⟨⟨answer, _, hanswer, normalizeR2ObservationRows_eq hlists, ?_, ?_, ?_⟩, hvalid, hleft,
      ?_, ?_⟩
    · rw [hrows]
      exact hfirst.map _
    · rw [hrows, List.pairwise_map]
      exact horder.sublist (htaken.sublist.trans List.filter_sublist)
    · intro hresponse
      obtain ⟨hpages, hgaps⟩ := hcomplete hresponse
      refine ⟨?_, hgaps⟩
      rw [hrows, hall (hwhole hpages)]
    · rw [hfetched, hleft]
      exact Allowance.length_fetched_add_le _ _
    · have hsum : ((keptPages budget ((piecesOf range.1 range.2).flatMap pages)).map pageSize).sum
          + (Allowance.rest pageSize budget.left ((piecesOf range.1 range.2).flatMap pages)).rows
          ≤ budget.left.rows := Allowance.sum_kept_add_le _ _
      have hlength : ((keptPages budget ((piecesOf range.1 range.2).flatMap pages)).flatMap
          (PagePayload.observations host identity)).length
          ≤ ((keptPages budget ((piecesOf range.1 range.2).flatMap pages)).map pageSize).sum :=
        length_observations_le _
      rw [hobservations, ← hrows] at hlength
      rw [ReadOutcome.rowCount, hanswer, hleft]
      exact (Nat.add_le_add_right hlength _).trans hsum
  · rw [if_neg haccepted] at hspec ⊢
    obtain ⟨error, herror⟩ := hspec
    rintro ⟨answer, expected, hanswer, -⟩
    cases herror.symm.trans hanswer

omit [Numeric ν] in
theorem fetchedPages_allPages_cons {range : ℤ × ℤ} {ranges : List (ℤ × ℤ)} {budget' : ReadBudget}
    (hleft : budget'.left
      = Allowance.rest pageSize budget.left ((piecesOf range.1 range.2).flatMap pages)) :
    fetchedPages budget (allPages pages (range :: ranges))
      = fetchedPages budget ((piecesOf range.1 range.2).flatMap pages) ++
        fetchedPages budget' (allPages pages ranges) := by
  rw [allPages, List.flatMap_cons, fetchedPages, Allowance.fetched_append, ← hleft]
  rfl

/-- **Reads that share a budget** keep what index v2 keeps, and together spend no more than it has, if
no page that it fetches has a value that is passed over; otherwise one of them does not. -/
theorem readRanges_spec {ranges : List (ℤ × ℤ)} (hranges : ∀ range ∈ ranges, IsRange range)
    (hbudget : budget.Valid) (horder : InOrder stored)
    (htruthful : ∀ piece : Piece, piece.Within →
      Truthful host service identity stored piece (pages piece))
    (hlists : payload.Lists host identity stored) :
    if ∀ page ∈ fetchedPages budget (allPages pages ranges), AllAccepted page.rows then
      ∃ outcomes, readRanges host service identity ranges budget = some outcomes ∧
        List.Forall₂ (KeepsV2 host identity payload) ranges outcomes ∧
        (outcomes.map fun outcome ↦ outcome.fetched.length).sum ≤ budget.left.pages ∧
        (outcomes.map ReadOutcome.rowCount).sum ≤ budget.left.rows
    else ∀ outcomes, readRanges host service identity ranges budget = some outcomes →
      ¬List.Forall₂ (KeepsV2 host identity payload) ranges outcomes := by
  induction ranges generalizing budget with
  | nil =>
    have hnone : ∀ page ∈ fetchedPages budget (allPages pages []), AllAccepted page.rows :=
      fun page hmem ↦ absurd hmem List.not_mem_nil
    rw [if_pos hnone]
    exact ⟨[], rfl, List.Forall₂.nil, Nat.zero_le _, Nat.zero_le _⟩
  | cons range ranges ih =>
    obtain ⟨outcome, hread, hspec⟩ :=
      keepsV2_readV3 hbudget (hranges range List.mem_cons_self) horder htruthful hlists
    have hlater : ∀ range ∈ ranges, IsRange range := fun range hmem ↦
      hranges range (List.mem_cons_of_mem _ hmem)
    by_cases haccepted : ∀ page ∈ fetchedPages budget ((piecesOf range.1 range.2).flatMap pages),
        AllAccepted page.rows
    · rw [if_pos haccepted] at hspec
      obtain ⟨hkeeps, hvalid, hleft, hpages, hrows⟩ := hspec
      have hrest := ih hlater hvalid
      rw [fetchedPages_allPages_cons hleft]
      by_cases hall : ∀ page ∈ fetchedPages outcome.budget (allPages pages ranges),
          AllAccepted page.rows
      · rw [if_pos hall] at hrest
        obtain ⟨outcomes, houtcomes, hforall, hpages', hrows'⟩ := hrest
        rw [if_pos]
        · refine ⟨outcome :: outcomes, ?_, List.Forall₂.cons hkeeps hforall, ?_, ?_⟩
          · rw [readRanges, hread, Option.bind_eq_bind, Option.bind_some, houtcomes]
            rfl
          · rw [List.map_cons, List.sum_cons]
            omega
          · rw [List.map_cons, List.sum_cons]
            omega
        · intro page hmem
          rcases List.mem_append.mp hmem with hmem | hmem
          · exact haccepted page hmem
          · exact hall page hmem
      · rw [if_neg hall] at hrest
        rw [if_neg fun h ↦ hall fun page hmem ↦ h page (List.mem_append_right _ hmem)]
        intro outcomes houtcomes hforall
        rw [readRanges, hread, Option.bind_eq_bind, Option.bind_some] at houtcomes
        obtain ⟨later, hlaterRead, hcons⟩ := Option.bind_eq_some_iff.mp houtcomes
        rw [← Option.some.inj hcons] at hforall
        exact hrest later hlaterRead (List.forall₂_cons.mp hforall).2
    · rw [if_neg haccepted] at hspec
      rw [if_neg]
      · intro outcomes houtcomes hforall
        rw [readRanges, hread, Option.bind_eq_bind, Option.bind_some] at houtcomes
        obtain ⟨later, -, hcons⟩ := Option.bind_eq_some_iff.mp houtcomes
        rw [← Option.some.inj hcons] at hforall
        exact hspec (List.forall₂_cons.mp hforall).1
      · intro h
        refine haccepted fun page hmem ↦ h page ?_
        rw [allPages, List.flatMap_cons, fetchedPages, Allowance.fetched_append]
        exact List.mem_append_left _ hmem

/-- **Paged reads keep what index v2 keeps, within their budget,** exactly when no page within the
budget holds a value that index v2 passes over: for such a value, a page is refused as a whole. -/
theorem keepsV2WithinBudget_iff {ranges : List (ℤ × ℤ)} (hranges : ∀ range ∈ ranges, IsRange range)
    (hbudget : budget.Valid) (horder : InOrder stored)
    (htruthful : ∀ piece : Piece, piece.Within →
      Truthful host service identity stored piece (pages piece))
    (hlists : payload.Lists host identity stored) :
    KeepsV2WithinBudget host service identity payload ranges budget ↔
      ∀ k page, (allPages pages ranges)[k]? = some page →
        WithinBudget budget (allPages pages ranges) k → AllAccepted page.rows := by
  have hspec := readRanges_spec hranges hbudget horder htruthful hlists
  have hfetched : (∀ page ∈ fetchedPages budget (allPages pages ranges), AllAccepted page.rows) ↔
      ∀ k page, (allPages pages ranges)[k]? = some page →
        WithinBudget budget (allPages pages ranges) k → AllAccepted page.rows := by
    simp only [mem_fetchedPages_iff]
    exact ⟨fun h k page hk hwithin ↦ h page ⟨k, hk, hwithin⟩,
      fun h page ⟨k, hk, hwithin⟩ ↦ h k page hk hwithin⟩
  rw [← hfetched]
  constructor
  · rintro ⟨outcomes, houtcomes, hforall, -⟩
    by_contra haccepted
    rw [if_neg haccepted] at hspec
    exact hspec outcomes houtcomes hforall
  · intro haccepted
    rw [if_pos haccepted] at hspec
    obtain ⟨outcomes, houtcomes, hforall, hpages, hrows⟩ := hspec
    refine ⟨outcomes, houtcomes, hforall, ?_, ?_⟩
    · have hle := hbudget.pagesUsed_le
      rw [ReadBudget.left] at hpages
      dsimp only at hpages
      omega
    · have hle := hbudget.rowsUsed_le
      rw [ReadBudget.left] at hrows
      dsimp only at hrows
      split at hrows
      · omega
      · omega

end Runs

/-! ## A value below zero -/

def StoredRow.raw (row : StoredRow ℚ) : RawRow ℚ :=
  { observedAt := some (toISOString row.observedAtMs), value := row.value }

/-- A page with all rows of a piece. -/
def wholePage (stored : List (StoredRow ℚ)) (piece : Piece) : PagePayload ℚ :=
  let rows := (stored.filter fun row ↦ piece.Holds row).map StoredRow.raw
  { ok := true
    timeseriesId := some no2Identity.timeseriesId
    connectorId := some no2Identity.connectorId
    pollutant := "no2"
    startUtc := toISOString piece.startMs
    endUtc := toISOString piece.endMs
    physicalPage :=
      { schemaVersion := v3PhysicalPageSchemaVersion
        pageNumber := 1
        continuationCursorSupplied := false
        segmentsDecoded := 1
        physicalRowsDecoded := rows.length
        paginationComplete := true
        nextCursor := none }
    responseComplete := true
    hasGap := false
    coveragePartialReasons := []
    rows }

def onePage (stored : List (StoredRow ℚ)) (piece : Piece) : List (PagePayload ℚ) :=
  [wholePage stored piece]

/-- The service that answers with whole pages. -/
def wholePages (stored : List (StoredRow ℚ)) : PageService ℚ :=
  fun request ↦ some (wholePage stored request.piece)

/-- All stored rows as index v2 gives them. -/
def wholePayload (stored : List (StoredRow ℚ)) : R2Payload ℚ :=
  { timeseriesId := some no2Identity.timeseriesId
    connectorId := some no2Identity.connectorId
    pollutant := "no2"
    rows := stored.map StoredRow.raw }

theorem normalizePollutantCode_no2 :
    normalizePollutantCode "no2" = some no2Identity.pollutant := by
  decide

section WholePages

variable {stored : List (StoredRow ℚ)}

theorem lists_wholePayload (hrows : ∀ row ∈ stored, row.raw.stored isoWebHost = some row) :
    (wholePayload stored).Lists isoWebHost no2Identity stored where
  timeseriesId := rfl
  connectorId := rfl
  pollutant := normalizePollutantCode_no2
  rows := by
    rw [wholePayload, List.map_map]
    refine List.map_congr_left fun row hmem ↦ ?_
    rw [Function.comp_apply, hrows row hmem]

theorem truthful_wholePages (hrows : ∀ row ∈ stored, row.raw.stored isoWebHost = some row)
    (hlength : stored.length ≤ 1024) (piece : Piece) :
    Truthful isoWebHost (wholePages stored) no2Identity stored piece (onePage stored piece) where
  serves := Serves.last rfl
    { ok := rfl
      timeseriesId := rfl
      connectorId := rfl
      pollutant := normalizePollutantCode_no2
      startUtc := trimText_toISOString _
      endUtc := trimText_toISOString _
      schemaVersion := rfl
      pageNumber := rfl
      supplied := rfl
      segments := ⟨zero_le_one, le_rfl⟩
      decoded := by
        refine ⟨le_rfl, ?_⟩
        have hle := List.length_filter_le (fun row ↦ decide (piece.Holds row)) stored
        simp only [wholePage, List.length_map, v3MaxPhysicalRowsPerPage]
        omega
      complete := rfl
      whole := fun _ ↦ ⟨rfl, rfl⟩ } rfl
  rows := by
    rw [pageRows, onePage, List.flatMap_singleton, wholePage, List.map_map]
    refine List.map_congr_left fun row hmem ↦ ?_
    rw [Function.comp_apply, hrows row (List.mem_of_mem_filter hmem)]

end WholePages

/-- A negative value at 2024-01-01T00:00:00Z, and one of zero an hour later. -/
def negativeRows : List (StoredRow ℚ) := [⟨1704067200000, some (-1)⟩, ⟨1704070800000, none⟩]

/-- Index v2 passes over a negative value; the paged read of the same rows fails. -/
theorem not_keepsV2WithinBudget_of_negative :
    InOrder negativeRows ∧
    (∀ piece, Truthful isoWebHost (wholePages negativeRows) no2Identity negativeRows piece
      (onePage negativeRows piece)) ∧
    (wholePayload negativeRows).Lists isoWebHost no2Identity negativeRows ∧
    normalizeR2ObservationRows isoWebHost (wholePayload negativeRows) no2Identity 1704067200000
      1704074400000 = .ok [normalizedRow no2Identity 1704070800000 0] ∧
    (readRanges isoWebHost (wholePages negativeRows) no2Identity [(1704067200000, 1704074400000)]
      { pageLimit := 16, rowLimit := 5000 }).map (fun outcomes ↦ outcomes.map fun outcome ↦
        outcome.result.map ReadAnswer.rows) = some [.error leafRowInvalid] ∧
    ¬KeepsV2WithinBudget isoWebHost (wholePages negativeRows) no2Identity (wholePayload negativeRows)
      [(1704067200000, 1704074400000)] { pageLimit := 16, rowLimit := 5000 } := by
  have hrows : ∀ row ∈ negativeRows, row.raw.stored isoWebHost = some row := by decide +kernel
  have hread : (readRanges isoWebHost (wholePages negativeRows) no2Identity
      [(1704067200000, 1704074400000)] { pageLimit := 16, rowLimit := 5000 }).map
        (fun outcomes ↦ outcomes.map fun outcome ↦ outcome.result.map ReadAnswer.rows)
      = some [.error leafRowInvalid] := by
    decide +kernel
  refine ⟨by decide, truthful_wholePages hrows (by decide), lists_wholePayload hrows,
    by decide +kernel, hread, ?_⟩
  rintro ⟨outcomes, houtcomes, hforall, -⟩
  rw [houtcomes, Option.map_some, Option.some.injEq] at hread
  obtain ⟨outcome, _, ⟨answer, _, hanswer, -⟩, _, rfl⟩ := List.forall₂_cons_left_iff.mp hforall
  rw [List.map_cons, hanswer] at hread
  cases (List.cons.inj hread).1

/-- Two accepted rows of a day, and a negative one of the next day. -/
def acceptedRows : List (StoredRow ℚ) :=
  [⟨1704067200000, some 5⟩, ⟨1704070800000, none⟩, ⟨1704153600000, some (-1)⟩]

theorem keepsV2WithinBudget_acceptedRows :
    KeepsV2WithinBudget isoWebHost (wholePages acceptedRows) no2Identity (wholePayload acceptedRows)
      [(1704067200000, 1704153600000)] { pageLimit := 1, rowLimit := 2 } := by
  have hrows : ∀ row ∈ acceptedRows, row.raw.stored isoWebHost = some row := by decide +kernel
  refine (keepsV2WithinBudget_iff ?_ (by decide) (by decide)
    (fun piece _ ↦ truthful_wholePages hrows (by decide) piece) (lists_wholePayload hrows)).mpr ?_
  · intro range hmem
    rw [List.mem_singleton.mp hmem]
    exact ⟨by decide, by decide, by decide⟩
  · intro k page hk _
    have hall : ∀ page ∈ allPages (onePage acceptedRows)
        [(1704067200000, 1704153600000)], AllAccepted page.rows := by
      decide +kernel
    exact hall page (List.mem_of_getElem? hk)

end UkAqOps.StationHistory

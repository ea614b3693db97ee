import UkAqOps.Js.Date
import UkAqOps.Lib.Intervals
import UkAqOps.Lib.Sort

/-!
# What the history leaves to the database

A request window is read from the stored history first. What lies before its first row, behind its
last one or on a day of which something is missing is left to the database, which answers only for a
tail of the window: the earlier part of it is skipped.
-/

namespace UkAqOps.Stitch

open Intervals Sorting

/-- `Date.parse`, which reads the midnight of a day of the calendar. -/
structure DateHost where
  dateParse : String → Option ℤ
  dateParse_day : ∀ day n, parseIsoDay day = some n →
    dateParse (day ++ "T00:00:00.000Z") = some (n * dayMs)

section Plan

variable (host : DateHost)

def parseIsoMsOrNull (value : String) : Option ℤ :=
  let text := trimText value
  if text = "" then none else host.dateParse text

/-- A row of the history, of which the plan reads the time. -/
structure R2Row where
  observedAt : String

/-- What the history reports missing; no list stands for a field that is no array. -/
structure R2Coverage where
  missingDayManifestKeys : List String
  missingConnectorManifestKeys : List String
  missingParquetKeys : List String

def R2Coverage.keys (coverage : R2Coverage) : List String :=
  coverage.missingDayManifestKeys ++ coverage.missingConnectorManifestKeys ++
    coverage.missingParquetKeys

/-! ## Days -/

/-- The day that a key names at the front of a text: `/^day_utc=(\d{4}-\d{2}-\d{2})/i`. -/
def dayAtFront (cs : List Char) : Option String :=
  let digits := (cs.drop 8).take 10
  if (cs.take 8).map Char.toLower = "day_utc=".toList ∧ digits.length = 10 ∧
      ("dddd-dd-dd".toList.zip digits).all (fun (s, c) ↦ if s = 'd' then c.isDigit else c = s) then
    some (String.ofList digits)
  else none

/-- The first match of `/day_utc=(\d{4}-\d{2}-\d{2})/i`. -/
def parseDayUtcFromManifestKey (key : String) : Option String := key.toList.tails.findSome? dayAtFront

/-- The part of a day within the window, if there is one. -/
def daySlice (requestStartMs requestEndMs : ℤ) (reason day : String) : Option (Slice ℤ String) :=
  (host.dateParse (day ++ "T00:00:00.000Z")).bind fun dayStartMs ↦
    let startMs := max requestStartMs dayStartMs
    let endMs := min requestEndMs (dayStartMs + dayMs)
    if startMs < endMs then some ⟨startMs, endMs, reason⟩ else none

def buildMissingDaySlices (keys : List String) (requestStartMs requestEndMs : ℤ) (reason : String) :
    List (Slice ℤ String) :=
  let byDay := (keys.filterMap parseDayUtcFromManifestKey).eraseDups
  sortBy (fun a b ↦ compare a.start b.start)
    (byDay.filterMap (daySlice host requestStartMs requestEndMs reason))

def buildDiagnosticDaySlices (keys : List String) (requestStartMs requestEndMs : ℤ)
    (reason : String) : List (Slice ℤ String) :=
  (buildMissingDaySlices host keys requestStartMs requestEndMs "missing_day_manifest").map
    fun slice ↦ { slice with label := reason }

/-! ## The plan -/

/-- The reason of a merged slice: `last.reason || next.reason`. -/
def joinReasons (last next : String) : String := if last = "" then next else last

def mergeSlices (slices : List (Slice ℤ String)) : List (Slice ℤ String) :=
  match sortBy (fun a b ↦ compare a.start b.start) (slices.filter fun s ↦ s.start < s.stop) with
  | [] => []
  | first :: rest => mergeFrom joinReasons first rest

/-- The slices so far. The texts of a skipped slice are `toISOString` of its bounds. -/
structure Candidates where
  candidateSlices : List (Slice ℤ String)
  skippedIngestSlices : List (Slice ℤ String)

def addSlice (requestEndMs maxSupabaseSpanMs : ℤ) (plan : Candidates) (slice : Slice ℤ String) :
    Candidates :=
  let outside := slice.label ++ "_outside_supabase_tail_cap"
  if slice.stop ≤ slice.start then plan
  else if maxSupabaseSpanMs ≤ 0 then
    { plan with
      skippedIngestSlices := plan.skippedIngestSlices ++ [⟨slice.start, slice.stop, outside⟩] }
  else
    let allowedSupabaseStartMs := requestEndMs - maxSupabaseSpanMs
    let cappedStartMs := max slice.start allowedSupabaseStartMs
    let skipped := if slice.start < cappedStartMs then
        plan.skippedIngestSlices ++ [⟨slice.start, min slice.stop cappedStartMs, outside⟩]
      else plan.skippedIngestSlices
    let candidates := if cappedStartMs < slice.stop then
        plan.candidateSlices ++ [⟨cappedStartMs, slice.stop, slice.label⟩]
      else plan.candidateSlices
    ⟨candidates, skipped⟩

def computeCoverageFromRows (rows : List R2Row) : Option String × Option String :=
  (rows.head?.map R2Row.observedAt, rows.getLast?.map R2Row.observedAt)

def subtractCoveredTailInterval (requestStartMs requestEndMs : ℤ) (r2CoverageEnd : Option String) :
    ℤ × ℤ :=
  match r2CoverageEnd.bind (parseIsoMsOrNull host) with
  | none => (requestStartMs, requestEndMs)
  | some coverageEndMs => (max requestStartMs (coverageEndMs + 1), requestEndMs)

/-- The slices of the window that no row covers. -/
def uncoveredSlices (requestStartMs requestEndMs : ℤ) (rows : List R2Row) : List (Slice ℤ String) :=
  if rows.isEmpty then [⟨requestStartMs, requestEndMs, "r2_empty_window"⟩]
  else
    let (coverageStart, coverageEnd) := computeCoverageFromRows rows
    let head := match coverageStart.bind (parseIsoMsOrNull host) with
      | some coverageStartMs =>
        if requestStartMs < coverageStartMs then
          [⟨requestStartMs, coverageStartMs, "r2_uncovered_head"⟩]
        else []
      | none => []
    let (tailStartMs, tailEndMs) :=
      subtractCoveredTailInterval host requestStartMs requestEndMs coverageEnd
    head ++ [⟨tailStartMs, tailEndMs, "r2_uncovered_tail"⟩]

/-- The slices of the days of which something is missing. -/
def diagnosticSlices (requestStartMs requestEndMs : ℤ) (coverage : R2Coverage) :
    List (Slice ℤ String) :=
  [(coverage.missingDayManifestKeys, "missing_day_manifest"),
    (coverage.missingConnectorManifestKeys, "missing_connector_manifest"),
    (coverage.missingParquetKeys, "missing_parquet")].flatMap fun (keys, reason) ↦
      buildDiagnosticDaySlices host keys requestStartMs requestEndMs reason

structure FillPlan where
  ingestSlices : List (Slice ℤ String)
  skippedIngestSlices : List (Slice ℤ String)
  r2CoverageStart : Option String
  r2CoverageEnd : Option String

/-- The cap is a number of hours; what is not positive is none. -/
def buildTimeseriesV2SupabaseFillPlan (requestStartMs requestEndMs : ℤ) (r2Rows : List R2Row)
    (r2Coverage : R2Coverage) (maxSupabaseTailHours : ℤ) : FillPlan :=
  let maxSupabaseSpanMs := max 0 maxSupabaseTailHours * hourMs
  let slices := uncoveredSlices host requestStartMs requestEndMs r2Rows ++
    diagnosticSlices host requestStartMs requestEndMs r2Coverage
  let plan := slices.foldl (addSlice requestEndMs maxSupabaseSpanMs) ⟨[], []⟩
  { ingestSlices := mergeSlices plan.candidateSlices
    skippedIngestSlices := plan.skippedIngestSlices
    r2CoverageStart := (computeCoverageFromRows r2Rows).1
    r2CoverageEnd := (computeCoverageFromRows r2Rows).2 }

end Plan

/-! ## The cap -/

section Cap

variable {requestEndMs maxSupabaseSpanMs : ℤ}

/-- **One slice**: the cap divides it into the part that is read and the part that is skipped. -/
theorem covered_addSlice (hspan : 0 ≤ maxSupabaseSpanMs) (plan : Candidates) (slice : Slice ℤ String)
    (hstop : slice.stop ≤ requestEndMs) (t : ℤ) :
    (Covered (addSlice requestEndMs maxSupabaseSpanMs plan slice).candidateSlices t ↔
        Covered plan.candidateSlices t ∨ slice.Covers t ∧ requestEndMs - maxSupabaseSpanMs ≤ t) ∧
      (Covered (addSlice requestEndMs maxSupabaseSpanMs plan slice).skippedIngestSlices t ↔
        Covered plan.skippedIngestSlices t ∨ slice.Covers t ∧ t < requestEndMs - maxSupabaseSpanMs) := by
  have hone : ∀ slice : Slice ℤ String, Covered [slice] t ↔ slice.Covers t := fun slice ↦ by
    rw [covered_cons, or_iff_left not_covered_nil]
  rw [addSlice]
  split
  · rename_i hempty
    have hnone : ¬slice.Covers t := fun h ↦ by
      simp only [Slice.Covers] at h
      omega
    simp only [hnone, false_and, or_false, and_self]
  · split
    · simp only [covered_append, hone, Slice.Covers]
      constructor
      · constructor
        · exact Or.inl
        · rintro (h | h)
          · exact h
          · omega
      · refine or_congr_right ?_
        omega
    · dsimp only
      constructor
      · split
        · simp only [covered_append, hone, Slice.Covers]
          refine or_congr_right ?_
          omega
        · constructor
          · exact Or.inl
          · rintro (h | h)
            · exact h
            · simp only [Slice.Covers] at h
              omega
      · split
        · simp only [covered_append, hone, Slice.Covers]
          refine or_congr_right ?_
          omega
        · constructor
          · exact Or.inl
          · rintro (h | h)
            · exact h
            · simp only [Slice.Covers] at h
              omega

/-- **All slices**: what is read and what is skipped are what they cover, divided by the cap. -/
theorem covered_addSlices (hspan : 0 ≤ maxSupabaseSpanMs) {slices : List (Slice ℤ String)}
    (hstop : ∀ slice ∈ slices, slice.stop ≤ requestEndMs) (plan : Candidates) (t : ℤ) :
    (Covered (slices.foldl (addSlice requestEndMs maxSupabaseSpanMs) plan).candidateSlices t ↔
        Covered plan.candidateSlices t ∨
          Covered slices t ∧ requestEndMs - maxSupabaseSpanMs ≤ t) ∧
      (Covered (slices.foldl (addSlice requestEndMs maxSupabaseSpanMs) plan).skippedIngestSlices t ↔
        Covered plan.skippedIngestSlices t ∨
          Covered slices t ∧ t < requestEndMs - maxSupabaseSpanMs) := by
  induction slices generalizing plan with
  | nil => simp only [List.foldl_nil, not_covered_nil, false_and, or_false, and_self]
  | cons slice rest ih =>
    obtain ⟨hread, hskipped⟩ := covered_addSlice hspan plan slice (hstop slice List.mem_cons_self) t
    obtain ⟨hreads, hskips⟩ := ih (fun s hs ↦ hstop s (List.mem_cons_of_mem slice hs))
      (addSlice requestEndMs maxSupabaseSpanMs plan slice)
    rw [List.foldl_cons, hreads, hskips, hread, hskipped, covered_cons]
    simp only [or_and_right, or_assoc, and_self]

end Cap

/-! ## Merging -/

theorem covered_perm {slices slices' : List (Slice ℤ String)} (h : slices.Perm slices') {t : ℤ} :
    Covered slices t ↔ Covered slices' t := by
  simp only [Covered, h.mem_iff]

/-- The merged slices cover the same instants and are apart. -/
theorem mergeSlices_spec (slices : List (Slice ℤ String)) :
    Apart (mergeSlices slices) ∧ ∀ t, Covered (mergeSlices slices) t ↔ Covered slices t := by
  set proper := slices.filter fun slice ↦ slice.start < slice.stop with hproper
  have hfilter : ∀ t, Covered proper t ↔ Covered slices t := by
    intro t
    constructor
    · rintro ⟨slice, hslice, ht⟩
      exact ⟨slice, List.mem_of_mem_filter hslice, ht⟩
    · rintro ⟨slice, hslice, ht⟩
      exact ⟨slice, List.mem_filter.mpr ⟨hslice, decide_eq_true (ht.1.trans_lt ht.2)⟩, ht⟩
  have htrans : Std.TransCmp fun a b : Slice ℤ String ↦ compare a.start b.start :=
    transCmp_on inferInstance Slice.start
  set sorted := sortBy (fun a b ↦ compare a.start b.start) proper with hsorted
  have hperm : sorted.Perm proper := sortBy_perm proper
  have hstarts : sorted.Pairwise fun a b ↦ a.start ≤ b.start :=
    (pairwise_sortBy proper).imp fun hle ↦ Int.isLE_compare.mp hle
  have hbounds : ∀ slice ∈ sorted, slice.start < slice.stop := fun slice hslice ↦
    of_decide_eq_true (List.mem_filter.mp (hperm.mem_iff.mp hslice)).2
  rw [mergeSlices, ← hproper, ← hsorted]
  rcases hcases : sorted with _ | ⟨first, rest⟩
  · refine ⟨⟨nofun, List.Pairwise.nil⟩, fun t ↦ ?_⟩
    rw [← hfilter, ← covered_perm hperm, hcases]
  · rw [hcases] at hstarts hbounds
    refine ⟨apart_mergeFrom hbounds hstarts, fun t ↦ ?_⟩
    rw [covered_mergeFrom hstarts, ← hcases, covered_perm hperm, hfilter]

/-! ## What is uncovered -/

section Uncovered

variable {host : DateHost} {requestStartMs requestEndMs : ℤ}

/-- The key names a day of the calendar. -/
def NamesDay (key : String) (day : ℤ) : Prop :=
  ∃ text, parseDayUtcFromManifestKey key = some text ∧ parseIsoDay text = some day

/-- An instant of the day. -/
def OnDay (day t : ℤ) : Prop := day * dayMs ≤ t ∧ t < (day + 1) * dayMs

theorem covers_daySlice {reason text : String} {day t : ℤ} (hday : parseIsoDay text = some day) :
    (∃ slice ∈ daySlice host requestStartMs requestEndMs reason text, slice.Covers t) ↔
      (requestStartMs ≤ t ∧ t < requestEndMs) ∧ OnDay day t := by
  have hnext : (day + 1) * dayMs = day * dayMs + dayMs := by ring
  rw [daySlice, host.dateParse_day text day hday, Option.bind_some, OnDay, hnext]
  dsimp only
  split
  · simp only [Option.mem_some_iff, exists_eq_left', Slice.Covers]
    omega
  · simp only [Option.mem_def, reduceCtorEq, false_and, exists_false, false_iff]
    omega

/-- The slices of days cover the instants of the window on a day that a key names. -/
theorem covered_buildDiagnosticDaySlices {keys : List String}
    (hkeys : ∀ key ∈ keys, ∀ text, parseDayUtcFromManifestKey key = some text →
      ∃ day, parseIsoDay text = some day) (reason : String) (t : ℤ) :
    Covered (buildDiagnosticDaySlices host keys requestStartMs requestEndMs reason) t ↔
      (requestStartMs ≤ t ∧ t < requestEndMs) ∧ ∃ key ∈ keys, ∃ day, NamesDay key day ∧ OnDay day t := by
  have hrelabel : ∀ slices : List (Slice ℤ String),
      Covered (slices.map fun slice ↦ { slice with label := reason }) t ↔ Covered slices t := by
    intro slices
    simp only [Covered, List.mem_map, exists_exists_and_eq_and]
    rfl
  rw [buildDiagnosticDaySlices, hrelabel, buildMissingDaySlices, covered_perm (sortBy_perm _)]
  constructor
  · rintro ⟨slice, hslice, ht⟩
    obtain ⟨text, htext, hmem⟩ := List.mem_filterMap.mp hslice
    obtain ⟨key, hkey, hparse⟩ := List.mem_filterMap.mp (List.mem_eraseDups.mp htext)
    obtain ⟨day, hday⟩ := hkeys key hkey text hparse
    obtain ⟨hwindow, honDay⟩ := (covers_daySlice hday).mp ⟨slice, hmem, ht⟩
    exact ⟨hwindow, key, hkey, day, ⟨text, hparse, hday⟩, honDay⟩
  · rintro ⟨hwindow, key, hkey, day, ⟨text, hparse, hday⟩, honDay⟩
    obtain ⟨slice, hmem, ht⟩ := (@covers_daySlice host _ _ _ _ _ t hday).mpr ⟨hwindow, honDay⟩
    refine ⟨slice, List.mem_filterMap.mpr ⟨text, List.mem_eraseDups.mpr ?_, hmem⟩, ht⟩
    exact List.mem_filterMap.mpr ⟨key, hkey, hparse⟩

/-- A key names a valid day if it names one at all. -/
def NamesValidDays (keys : List String) : Prop :=
  ∀ key ∈ keys, ∀ text, parseDayUtcFromManifestKey key = some text →
    ∃ day, parseIsoDay text = some day

theorem covered_diagnosticSlices {coverage : R2Coverage} (hkeys : NamesValidDays coverage.keys)
    (t : ℤ) :
    Covered (diagnosticSlices host requestStartMs requestEndMs coverage) t ↔
      (requestStartMs ≤ t ∧ t < requestEndMs) ∧
        ∃ key ∈ coverage.keys, ∃ day, NamesDay key day ∧ OnDay day t := by
  have hday : NamesValidDays coverage.missingDayManifestKeys := fun key hkey ↦
    hkeys key (List.mem_append_left _ (List.mem_append_left _ hkey))
  have hconnector : NamesValidDays coverage.missingConnectorManifestKeys := fun key hkey ↦
    hkeys key (List.mem_append_left _ (List.mem_append_right _ hkey))
  have hparquet : NamesValidDays coverage.missingParquetKeys := fun key hkey ↦
    hkeys key (List.mem_append_right _ hkey)
  rw [diagnosticSlices]
  simp only [List.flatMap_cons, List.flatMap_nil, List.append_nil]
  rw [covered_append, covered_append, covered_buildDiagnosticDaySlices hday,
    covered_buildDiagnosticDaySlices hconnector, covered_buildDiagnosticDaySlices hparquet,
    R2Coverage.keys]
  simp only [List.mem_append, or_and_right, exists_or, and_or_left, or_assoc]

theorem covered_singleton {slice : Slice ℤ String} {t : ℤ} : Covered [slice] t ↔ slice.Covers t := by
  rw [covered_cons, or_iff_left not_covered_nil]

/-- The rows of the window are at these instants, which are in order. -/
structure RowsAt (host : DateHost) (requestStartMs requestEndMs : ℤ) (rows : List R2Row)
    (instants : List ℤ) : Prop where
  parse : rows.map (fun row ↦ parseIsoMsOrNull host row.observedAt) = instants.map some
  increasing : instants.Pairwise (· < ·)
  inside : ∀ t ∈ instants, requestStartMs ≤ t ∧ t ≤ requestEndMs

/-- The first instant is the one that the coverage starts with. -/
theorem bind_coverageStart {rows : List R2Row} {instants : List ℤ}
    (hparse : rows.map (fun row ↦ parseIsoMsOrNull host row.observedAt) = instants.map some) :
    (computeCoverageFromRows rows).1.bind (parseIsoMsOrNull host) = instants.head? := by
  have h := congrArg List.head? hparse
  rw [List.head?_map, List.head?_map] at h
  rw [computeCoverageFromRows, Option.bind_map]
  rcases hrow : rows.head? with _ | row <;> rcases hfirst : instants.head? with _ | first <;>
    simp_all

/-- The last instant is the one that the coverage ends with. -/
theorem bind_coverageEnd {rows : List R2Row} {instants : List ℤ}
    (hparse : rows.map (fun row ↦ parseIsoMsOrNull host row.observedAt) = instants.map some) :
    (computeCoverageFromRows rows).2.bind (parseIsoMsOrNull host) = instants.getLast? := by
  have h := congrArg List.getLast? hparse
  rw [List.getLast?_map, List.getLast?_map] at h
  rw [computeCoverageFromRows, Option.bind_map]
  rcases hrow : rows.getLast? with _ | row <;> rcases hlast : instants.getLast? with _ | last <;>
    simp_all

/-- Before all instants in order is before the first of them. -/
theorem forall_lt_iff_lt_head {first : ℤ} {rest : List ℤ}
    (hincreasing : (first :: rest).Pairwise (· < ·)) {t : ℤ} :
    (∀ r ∈ first :: rest, t < r) ↔ t < first := by
  constructor
  · intro h
    exact h first List.mem_cons_self
  · intro h r hr
    rcases List.mem_cons.mp hr with rfl | hr
    · exact h
    · exact h.trans ((List.pairwise_cons.mp hincreasing).1 r hr)

/-- Behind all instants in order is behind the last of them. -/
theorem forall_lt_iff_getLast_lt {instants : List ℤ} (hincreasing : instants.Pairwise (· < ·))
    {last : ℤ} (hlast : instants.getLast? = some last) {t : ℤ} :
    (∀ r ∈ instants, r < t) ↔ last < t := by
  obtain ⟨before, rfl⟩ := List.getLast?_eq_some_iff.mp hlast
  constructor
  · intro h
    exact h last List.mem_concat_self
  · intro h r hr
    rcases List.mem_append.mp hr with hr | hr
    · exact ((List.pairwise_append.mp hincreasing).2.2 r hr last (List.mem_singleton_self last)).trans h
    · rw [List.mem_singleton.mp hr]
      exact h

/-- The slices without rows cover what lies before the first row or behind the last one. -/
theorem covered_uncoveredSlices {rows : List R2Row} {instants : List ℤ}
    (hrows : RowsAt host requestStartMs requestEndMs rows instants) (t : ℤ) :
    Covered (uncoveredSlices host requestStartMs requestEndMs rows) t ↔
      (requestStartMs ≤ t ∧ t < requestEndMs) ∧ ((∀ r ∈ instants, t < r) ∨ ∀ r ∈ instants, r < t) := by
  have hlength : rows.length = instants.length := by
    have h := congrArg List.length hrows.parse
    rwa [List.length_map, List.length_map] at h
  have hstart := bind_coverageStart hrows.parse
  have hend := bind_coverageEnd hrows.parse
  rcases instants with _ | ⟨first, later⟩
  · have hnone : rows = [] := List.length_eq_zero_iff.mp hlength
    rw [hnone, uncoveredSlices, if_pos List.isEmpty_nil, covered_singleton]
    simp [Slice.Covers]
  · have hsome : ¬rows.isEmpty = true := by
      rw [List.isEmpty_iff_length_eq_zero, hlength]
      exact Nat.succ_ne_zero _
    obtain ⟨last, hlast⟩ : ∃ last, (first :: later).getLast? = some last :=
      ⟨_, List.getLast?_eq_some_getLast (List.cons_ne_nil first later)⟩
    have hfirstIn := hrows.inside first List.mem_cons_self
    have hlastIn := hrows.inside last (List.mem_of_getLast? hlast)
    have htail : subtractCoveredTailInterval host requestStartMs requestEndMs
        (computeCoverageFromRows rows).2 = (max requestStartMs (last + 1), requestEndMs) := by
      rw [subtractCoveredTailInterval, hend, hlast]
    rw [uncoveredSlices, if_neg hsome]
    dsimp only
    rw [htail, hstart, List.head?_cons, forall_lt_iff_lt_head hrows.increasing,
      forall_lt_iff_getLast_lt hrows.increasing hlast]
    dsimp only
    rw [covered_append, covered_singleton]
    split
    · rw [covered_singleton]
      simp only [Slice.Covers]
      omega
    · rw [or_iff_right not_covered_nil]
      simp only [Slice.Covers]
      omega

/-- No slice goes beyond the window. -/
theorem stop_le_of_mem_slices {rows : List R2Row} {instants : List ℤ} {coverage : R2Coverage}
    (hrows : RowsAt host requestStartMs requestEndMs rows instants) {slice : Slice ℤ String}
    (hslice : slice ∈ uncoveredSlices host requestStartMs requestEndMs rows ++
      diagnosticSlices host requestStartMs requestEndMs coverage) : slice.stop ≤ requestEndMs := by
  have hday : ∀ {keys reason}, slice ∈
      buildDiagnosticDaySlices host keys requestStartMs requestEndMs reason →
        slice.stop ≤ requestEndMs := by
    intro keys reason hslice
    obtain ⟨missing, hmissing, rfl⟩ := List.mem_map.mp hslice
    obtain ⟨text, -, hmem⟩ := List.mem_filterMap.mp ((sortBy_perm _).mem_iff.mp hmissing)
    obtain ⟨dayStartMs, -, hbounds⟩ := Option.bind_eq_some_iff.mp hmem
    dsimp only at hbounds
    split at hbounds
    · rw [← Option.some.inj hbounds]
      exact min_le_left _ _
    · cases hbounds
  rcases List.mem_append.mp hslice with hslice | hslice
  · rw [uncoveredSlices] at hslice
    split at hslice
    · rw [List.mem_singleton.mp hslice]
    · dsimp only at hslice
      have htail : (subtractCoveredTailInterval host requestStartMs requestEndMs
          (computeCoverageFromRows rows).2).2 = requestEndMs := by
        rw [subtractCoveredTailInterval]
        split <;> rfl
      rcases List.mem_append.mp hslice with hhead | hrest
      · rw [bind_coverageStart hrows.parse] at hhead
        split at hhead
        · rename_i first hfirst
          split at hhead
          · rw [List.mem_singleton.mp hhead]
            exact (hrows.inside first (List.mem_of_head? hfirst)).2
          · cases hhead
        · cases hhead
      · rw [List.mem_singleton.mp hrest, htail]
  · obtain ⟨⟨keys, reason⟩, -, hmem⟩ := List.mem_flatMap.mp hslice
    exact hday hmem

/-- The instant is left to the database: it lies before the first row, behind the last one or on a
day of which something is missing. -/
def Uncovered (requestStartMs requestEndMs : ℤ) (instants : List ℤ) (coverage : R2Coverage)
    (t : ℤ) : Prop :=
  (requestStartMs ≤ t ∧ t < requestEndMs) ∧
    ((∀ r ∈ instants, t < r) ∨ (∀ r ∈ instants, r < t) ∨
      ∃ key ∈ coverage.keys, ∃ day, NamesDay key day ∧ OnDay day t)

/-- What the plan reads and what it skips are the uncovered instants, divided by the cap. -/
theorem covered_buildTimeseriesV2SupabaseFillPlan {rows : List R2Row} {instants : List ℤ}
    {coverage : R2Coverage} (hrows : RowsAt host requestStartMs requestEndMs rows instants)
    (hkeys : NamesValidDays coverage.keys) (hours : ℤ) (t : ℤ) :
    let plan := buildTimeseriesV2SupabaseFillPlan host requestStartMs requestEndMs rows coverage hours
    let uncovered := Uncovered requestStartMs requestEndMs instants coverage t
    let capped := requestEndMs - max 0 hours * hourMs
    (Covered plan.ingestSlices t ↔ uncovered ∧ capped ≤ t) ∧
      (Covered plan.skippedIngestSlices t ↔ uncovered ∧ t < capped) := by
  have hspan : 0 ≤ max 0 hours * hourMs := mul_nonneg (le_max_left 0 hours) (by decide)
  obtain ⟨hread, hskipped⟩ := covered_addSlices hspan
    (fun _ hslice ↦ @stop_le_of_mem_slices host _ _ _ _ coverage hrows _ hslice) ⟨[], []⟩ t
  have huncovered : Covered (uncoveredSlices host requestStartMs requestEndMs rows ++
      diagnosticSlices host requestStartMs requestEndMs coverage) t ↔
        Uncovered requestStartMs requestEndMs instants coverage t := by
    rw [covered_append, covered_uncoveredSlices hrows, covered_diagnosticSlices hkeys, Uncovered,
      ← and_or_left, or_assoc]
  rw [or_iff_right not_covered_nil, huncovered] at hread hskipped
  exact ⟨((mergeSlices_spec _).2 t).trans hread, hskipped⟩

/-- `Date.parse` of the midnights alone. -/
def midnightParse (text : String) : Option ℤ :=
  if text.toList.drop 10 = "T00:00:00.000Z".toList then
    (parseIsoDay (takeText text 10)).map fun day ↦ day * dayMs
  else none

theorem midnightParse_day (day : String) (n : ℤ) (h : parseIsoDay day = some n) :
    midnightParse (day ++ "T00:00:00.000Z") = some (n * dayMs) := by
  obtain ⟨hday, hplain⟩ := isoDay_of_parseIsoDay h
  have hplainYear : PlainYear n := by
    have hyear : HasPlainYear (takeText (toISOString (n * dayMs)) 10) := by
      rw [← hday, isoDay] at hplain
      exact hplain
    rw [← Int.mul_ediv_cancel n (show dayMs ≠ 0 by decide)]
    exact plainYear_of_toISOString hyear
  have hlength : day.toList.length = 10 := by
    rw [← hday, isoDay, takeText_toISOString
      (by rwa [Int.mul_ediv_cancel n (show dayMs ≠ 0 by decide)]),
      Int.mul_ediv_cancel n (show dayMs ≠ 0 by decide), isoDayChars_length hplainYear]
  have htake : takeText (day ++ "T00:00:00.000Z") 10 = day := by
    rw [takeText, String.toList_append, List.take_left' hlength, String.ofList_toList]
  rw [midnightParse, String.toList_append, List.drop_left' hlength, if_pos rfl, htake, h,
    Option.map_some]

def midnightHost : DateHost := ⟨midnightParse, midnightParse_day⟩

end Uncovered

end UkAqOps.Stitch

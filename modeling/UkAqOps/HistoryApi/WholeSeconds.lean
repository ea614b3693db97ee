import UkAqOps.HistoryApi.PagingAgreement

/-!
# Which histories are returned as they are stored

A paged read returns the stored rows of every window just where every stored row is at a whole second
and has a number.
-/

namespace UkAqOps.HistoryApi

open Sorting CursorPages

/-! ## What a paged read should return -/

/-- The stored cell that a value stands for. -/
def cellOf : Option ℚ → Cell
  | none => .missing
  | some value => .finite value

/-- A paged read stops and returns the stored rows of its window, or the oldest of them if it says
that it hit its limit of pages. -/
def ReturnsListing (dateParse : String → Option ℤ) (env : Env) (history : History) (series : Series)
    (startMs endMs : ℤ) (sinceMs : Option ℤ) (limit maxPages : ℕ) : Prop :=
  ∃ result listing, fetchR2ObservationsPaged dateParse env history series
      ⟨toISOString startMs, toISOString endMs, sinceMs.map toISOString, limit, maxPages⟩ = some result ∧
    IsListing history series startMs endMs sinceMs listing ∧ result.pagesFetched ≤ maxPages ∧
    result.rows.map (fun row ↦ (row.observedAt, cellOf row.value))
      = (if result.hitPageLimit then listing.take (maxPages * limit) else listing).map
          fun p ↦ (toISOString p.1, p.2)

/-- Every paged read of a window returns its stored rows. -/
def ReturnsWindow (dateParse : String → Option ℤ) (env : Env) (history : History) (series : Series)
    (startMs endMs : ℤ) : Prop :=
  startMs < endMs → IndexedOver history series startMs endMs →
    ∀ sinceMs : Option ℤ, (∀ since ∈ sinceMs, IsTimeValue since) → ∀ limit maxPages,
      1 ≤ limit ∧ limit ≤ maxLimit → 1 ≤ maxPages →
      ReturnsListing dateParse env history series startMs endMs sinceMs limit maxPages

section Windows

variable {dateParse : String → Option ℤ} {env : Env} {history : History} {series : Series}
variable {startMs endMs : ℤ} {sinceMs : Option ℤ} {limit maxPages : ℕ} {rows : List (ℤ × Cell)}

theorem isTimeValue_of_listing (htruthful : Truthful dateParse history series)
    (hlisting : IsListing history series startMs endMs sinceMs rows) {p : ℤ × Cell} (h : p ∈ rows) :
    IsTimeValue p.1 := by
  obtain ⟨⟨day, entry, row, hstored, heq, -⟩, -⟩ := (hlisting.mem p.1 p.2).mp h
  exact heq ▸ isTimeValue_of_stored htruthful hstored

/-! ## Sufficiency -/

/-- A later cursor. -/
def Behind (sinceMs cursor : Option ℤ) : Prop :=
  (∀ c ∈ cursor, IsTimeValue c) ∧ ∀ since ∈ sinceMs, ∃ c ∈ cursor, since ≤ c

theorem InWindow.of_behind {cursor : Option ℤ} {t : ℤ} (hcursor : Behind sinceMs cursor)
    (h : InWindow startMs endMs cursor t) : InWindow startMs endMs sinceMs t := by
  refine ⟨h.1, h.2.1, fun since hsince ↦ ?_⟩
  obtain ⟨c, hc, hle⟩ := hcursor.2 since hsince
  exact hle.trans_lt (h.2.2 c hc)

theorem IsListing.behind {cursor : Option ℤ} (hcursor : Behind sinceMs cursor)
    (h : IsListing history series startMs endMs sinceMs rows) :
    IsListing history series startMs endMs cursor (behind Prod.fst cursor rows) := by
  refine ⟨pairwise_behind h.sorted, fun t cell ↦ ?_⟩
  rw [mem_behind, h.mem]
  constructor
  · rintro ⟨⟨hstored, hwindow⟩, hlater⟩
    exact ⟨hstored, hwindow.1, hwindow.2.1, hlater⟩
  · rintro ⟨hstored, hwindow⟩
    exact ⟨⟨hstored, hwindow.of_behind hcursor⟩, hwindow.2.2⟩

theorem behind_of_listing (h : IsListing history series startMs endMs sinceMs rows) :
    CursorPages.behind Prod.fst sinceMs rows = rows :=
  List.filter_eq_self.mpr fun p hp ↦ decide_eq_true ((h.mem p.1 p.2).mp hp).2.2.2

theorem Shown.of_behind {cursor : Option ℤ} (hcursor : Behind sinceMs cursor)
    (h : Shown history series startMs endMs sinceMs) : Shown history series startMs endMs cursor :=
  fun t cell hstored hwindow ↦ h t cell hstored
    (hwindow.imp (InWindow.of_behind hcursor) (InWindow.of_behind hcursor))

/-- Rows at different instants are collected as they come. -/
theorem values_of_listing (htime : ∀ p ∈ rows, IsTimeValue p.1)
    (hsorted : rows.Pairwise fun a b ↦ a.1 < b.1) :
    (OrderedMap.ofList (rows.map fun p ↦
      (toISOString p.1, observedRow p.1 (normalizeValue p.2)))).values
      = rows.map fun p ↦ observedRow p.1 (normalizeValue p.2) := by
  have hnodup : ((rows.map fun p ↦
      (toISOString p.1, observedRow p.1 (normalizeValue p.2))).map Prod.fst).Nodup := by
    rw [List.map_map, List.nodup_iff_pairwise_ne, List.pairwise_map]
    refine hsorted.imp_of_mem fun ha hb hlt heq ↦ ?_
    exact hlt.ne (toISOString_injOn (htime _ ha) (htime _ hb) heq)
  rw [OrderedMap.values, OrderedMap.entries_ofList hnodup, List.map_map]
  rfl

/-- Rows in the order of time are sorted. -/
theorem sortBy_of_listing (hdates : ReadsDates dateParse) (htime : ∀ p ∈ rows, IsTimeValue p.1)
    (hsorted : rows.Pairwise fun a b ↦ a.1 < b.1) :
    sortBy (fun left right ↦ compare (rowMs dateParse left) (rowMs dateParse right))
        (rows.map fun p ↦ observedRow p.1 (normalizeValue p.2))
      = rows.map fun p ↦ observedRow p.1 (normalizeValue p.2) := by
  refine List.Pairwise.insertionSort_eq (List.pairwise_map.mpr (hsorted.imp_of_mem ?_))
  intro a b ha hb hlt
  have hms : ∀ p ∈ rows, rowMs dateParse (observedRow p.1 (normalizeValue p.2)) = p.1 := by
    intro p hp
    rw [rowMs, observedRow, parseIsoMsOrNull_toISOString hdates (htime p hp), Option.getD_some]
  dsimp only
  rw [hms a ha, hms b hb]
  exact isLE_compare_iff.mpr hlt.le

theorem normalizeValue_of_listing (hshown : Shown history series startMs endMs sinceMs)
    (hlisting : IsListing history series startMs endMs sinceMs rows) {p : ℤ × Cell} (h : p ∈ rows) :
    cellOf (observedRow p.1 (normalizeValue p.2)).value = p.2 := by
  obtain ⟨hstored, hwindow⟩ := (hlisting.mem p.1 p.2).mp h
  obtain ⟨-, value, hvalue⟩ := hshown p.1 p.2 hstored (Or.inl hwindow)
  rw [hvalue]
  rfl

/-- **A paged read of whole seconds and numbers** returns what is stored. -/
theorem returnsListing_of_shown (hdates : ReadsDates dateParse)
    (htruthful : Truthful dateParse history series) (hunique : Unambiguous history series)
    (henabled : env.timeseriesIndexEnabled = true) (hlt : startMs < endMs)
    (hindexed : IndexedOver history series startMs endMs)
    (hsince : ∀ since ∈ sinceMs, IsTimeValue since) (hlimit : 1 ≤ limit ∧ limit ≤ maxLimit)
    (hpages : 1 ≤ maxPages) (hshown : Shown history series startMs endMs sinceMs) :
    ReturnsListing dateParse env history series startMs endMs sinceMs limit maxPages := by
  obtain ⟨rows, hlisting⟩ : ∃ rows, IsListing history series startMs endMs sinceMs rows :=
    exists_listing hdates htruthful hunique henabled hlt hindexed
  have hrowTime := fun (p : ℤ × Cell) (hp : p ∈ rows) ↦ isTimeValue_of_listing htruthful hlisting hp
  set page : Option ℤ → List (ℤ × Cell) := fun cursor ↦ (behind Prod.fst cursor rows).take limit
    with hpage
  have hmemPage : ∀ cursor, ∀ p ∈ page cursor, p ∈ rows := fun cursor p hp ↦
    (mem_behind.mp (List.mem_of_mem_take hp)).1
  have hvalid : ∀ p ∈ rows, Behind sinceMs (some p.1) := by
    intro p hp
    refine ⟨fun c hc ↦ Option.mem_some_iff.mp hc ▸ hrowTime p hp, fun since hs ↦ ⟨p.1, rfl, ?_⟩⟩
    exact (((hlisting.mem p.1 p.2).mp hp).2.2.2 since hs).le
  have hfirst : Behind sinceMs sinceMs := ⟨hsince, fun since hs ↦ ⟨since, hs, le_rfl⟩⟩
  set answer : Option String → Option Payload := fun sinceUtc ↦
    answerObservations dateParse env history series
      ⟨toISOString startMs, toISOString endMs, sinceUtc, limit⟩ with hanswer
  have hanswers : ∀ cursor, Behind sinceMs cursor → ∃ payload,
      Pages dateParse answer page Prod.fst (fun p ↦ normalizeValue p.2) cursor payload := by
    intro cursor hcursor
    obtain ⟨payload, hanswered, hcount, hrows⟩ := pages_of_listing hdates htruthful hunique henabled
      hlt hindexed hcursor.1 hlimit (hshown.of_behind hcursor) (hlisting.behind hcursor)
    exact ⟨payload, hanswered, hcount, hrows⟩
  obtain ⟨pagesFetched, hloop, hle, hfull⟩ := pageLoop_eq limit hanswers
    (fun cursor _ p hp ↦ hvalid p (hmemPage cursor p hp)) maxPages hfirst OrderedMap.empty 0
  have hfetch : (fetch page Prod.fst limit maxPages sinceMs).1
        = (behind Prod.fst sinceMs rows).take (maxPages * limit) ∧
      ((fetch page Prod.fst limit maxPages sinceMs).2 = true →
        (fetch page Prod.fst limit maxPages sinceMs).1 = behind Prod.fst sinceMs rows) :=
    fetch_spec hlimit.1 hlisting.sorted (fun cursor _ ↦ rfl) hvalid maxPages hfirst
  rw [behind_of_listing hlisting] at hfetch
  set fetched := fetch page Prod.fst limit maxPages sinceMs with hfetched
  have hlist : fetched.1 = if (!fetched.2) = true then rows.take (maxPages * limit) else rows := by
    rcases hdone : fetched.2 with _ | _
    · exact hfetch.1
    · exact hfetch.2 hdone
  have hsub : ∀ p ∈ fetched.1, p ∈ rows := by
    intro p hp
    rw [hfetch.1] at hp
    exact List.mem_of_mem_take hp
  have hsorted : fetched.1.Pairwise fun a b ↦ a.1 < b.1 := by
    rw [hfetch.1]
    exact hlisting.sorted.sublist (List.take_sublist _ _)
  have hlimits : max 1 limit = limit ∧ max 1 maxPages = maxPages := by omega
  have hhit : (!fetched.2 && decide (maxPages ≤ pagesFetched)) = !fetched.2 := by
    rcases hdone : fetched.2 with _ | _
    · have hall := hfull hdone
      rw [Bool.not_false, Bool.true_and, decide_eq_true_eq]
      omega
    · rfl
  refine ⟨⟨fetched.1.map fun p ↦ observedRow p.1 (normalizeValue p.2), pagesFetched, !fetched.2⟩,
    rows, ?_, hlisting, by simpa using hle, ?_⟩
  · rw [fetchR2ObservationsPaged]
    simp only [hlimits, ← hanswer, hloop, Option.bind_eq_bind, Option.bind_some]
    rw [hhit, ← OrderedMap.ofList, values_of_listing (fun p hp ↦ hrowTime p (hsub p hp)) hsorted,
      sortBy_of_listing hdates (fun p hp ↦ hrowTime p (hsub p hp)) hsorted]
    rfl
  · dsimp only
    rw [← hlist, List.map_map]
    refine List.map_congr_left fun p hp ↦ Prod.ext rfl ?_
    exact normalizeValue_of_listing hshown hlisting (hsub p hp)

/-! ## Necessity -/

/-- Every row that a reader shows is at a whole second and has a number. -/
def WholeAndFinite (row : ObservedRow) : Prop :=
  ∃ t value, IsTimeValue t ∧ row.observedAt = toISOString (wholeSecond t) ∧ row.value = some value

omit env history series startMs endMs sinceMs limit maxPages rows in
/-- The rows of a loop are rows of its answers. -/
theorem of_mem_pageLoop {answer : Option String → Option Payload} {pageLimitRows turns : ℕ}
    {good : ObservedRow → Prop}
    (hanswer : ∀ sinceUtc payload, answer sinceUtc = some payload →
      ∀ row ∈ parseTimeseriesRowsFromPayload dateParse payload, good row)
    {rowsByObservedAt : OrderedMap String ObservedRow} {sinceUtc : Option String}
    {pagesFetched : ℕ} {result : OrderedMap String ObservedRow × Bool × ℕ}
    (h : pageLoop dateParse answer pageLimitRows turns rowsByObservedAt sinceUtc pagesFetched
      = some result)
    (hgood : ∀ row ∈ rowsByObservedAt.values, good row) : ∀ row ∈ result.1.values, good row := by
  induction turns generalizing rowsByObservedAt sinceUtc pagesFetched with
  | zero =>
    rw [pageLoop, Option.some.injEq] at h
    rwa [← h]
  | succ turns ih =>
    rw [pageLoop] at h
    obtain ⟨payload, hpayload, h⟩ := Option.bind_eq_some_iff.mp h
    have hpage := hanswer sinceUtc payload hpayload
    have hcollected : ∀ row ∈ ((datedRows (parseTimeseriesRowsFromPayload dateParse payload)).foldl
        (fun rows row ↦ rows.set row.1 row.2) rowsByObservedAt).values, good row := by
      intro row hrow
      obtain ⟨key, hentry⟩ := OrderedMap.mem_values.mp hrow
      rw [← OrderedMap.get?_eq_some_iff, OrderedMap.get?_foldl_set] at hentry
      rcases Option.or_eq_some_iff.mp hentry with hnew | ⟨-, hold⟩
      · obtain ⟨⟨key', row'⟩, hfind, rfl⟩ := Option.map_eq_some_iff.mp hnew
        have hmem := List.mem_reverse.mp (List.mem_of_find?_eq_some hfind)
        obtain ⟨source, hsource, hdated⟩ := List.mem_filterMap.mp hmem
        dsimp only at hdated
        split at hdated
        · rcases hdated with ⟨⟩
        · rw [← (Prod.mk.inj (Option.some.inj hdated)).2]
          exact hpage source hsource
      · exact hgood row (OrderedMap.mem_values.mpr
          ⟨key, OrderedMap.get?_eq_some_iff _ |>.mp hold⟩)
    dsimp only at h
    by_cases hnil : parseTimeseriesRowsFromPayload dateParse payload = []
    · rw [if_pos hnil, Option.some.injEq] at h
      rwa [← h]
    · rw [if_neg hnil] at h
      rcases hlast : (datedRows (parseTimeseriesRowsFromPayload dateParse payload)).getLast?
        with _ | last
      · rw [hlast, Option.some.injEq] at h
        rwa [← h]
      · rw [hlast] at h
        dsimp only at h
        split at h
        · split_ifs at h
          · exact ih h hcollected
          · rw [Option.some.injEq] at h
            rwa [← h]
        · split_ifs at h
          · exact ih h hcollected
          · rw [Option.some.injEq] at h
            rwa [← h]

/-- **The rows of an answer** are at whole seconds and have numbers, whatever is stored. -/
theorem wholeAndFinite_of_answer (hdates : ReadsDates dateParse)
    (htruthful : Truthful dateParse history series) (hlt : startMs < endMs)
    (hindexed : IndexedOver history series startMs endMs) {sinceUtc : Option String}
    {payload : Payload} (h : answerObservations dateParse env history series
      ⟨toISOString startMs, toISOString endMs, sinceUtc, limit⟩ = some payload) :
    ∀ row ∈ parseTimeseriesRowsFromPayload dateParse payload, WholeAndFinite row := by
  obtain ⟨sinceMs, hrows⟩ := exists_since_of_answer hdates hlt hindexed h
  intro row hrow
  obtain ⟨found, hfound, hnormal⟩ := List.mem_filterMap.mp hrow
  rw [hrows, readHistoryRows_eq, normalizeAndSortRows, ← OrderedMap.ofList, ← foundRows] at hfound
  obtain ⟨key, hentry⟩ := OrderedMap.mem_values.mp (mem_sortBy.mp (List.mem_of_mem_take hfound))
  obtain ⟨stored, ⟨day, entry, hstored⟩, -, -, rfl⟩ :=
    of_mem_foundRows hdates htruthful hlt hindexed hentry
  have htime := isTimeValue_of_stored htruthful hstored
  rw [normalizeObservedRow_eq hdates (isTimeValue_wholeSecond htime) rfl, Option.some.injEq] at hnormal
  rw [← hnormal]
  exact ⟨stored.observedAt, _, htime, rfl, rfl⟩

/-- **What a paged read returns** as it is stored is at whole seconds and has numbers. -/
theorem of_returnsListing (hdates : ReadsDates dateParse)
    (htruthful : Truthful dateParse history series) (hlt : startMs < endMs)
    (hindexed : IndexedOver history series startMs endMs)
    (h : ReturnsListing dateParse env history series startMs endMs sinceMs limit maxPages)
    (hlisting : IsListing history series startMs endMs sinceMs rows) :
    ∀ p ∈ rows.take (maxPages * limit), p.1 % 1000 = 0 ∧ ∃ value, p.2 = .finite value := by
  obtain ⟨result, listing, hfetch, hlisting', -, hrows⟩ := h
  have hsame : listing = rows :=
    eq_of_mem_iff (r := fun a b : ℤ × Cell ↦ a.1 < b.1) (fun a b ↦ lt_asymm) hlisting'.sorted
      hlisting.sorted fun p ↦ (hlisting'.mem p.1 p.2).trans (hlisting.mem p.1 p.2).symm
  subst hsame
  have hall : ∀ row ∈ result.rows, WholeAndFinite row := by
    rw [fetchR2ObservationsPaged] at hfetch
    obtain ⟨⟨found, exhausted, pages⟩, hloop, hresult⟩ := Option.bind_eq_some_iff.mp hfetch
    have hfound := of_mem_pageLoop (fun sinceUtc payload hanswer ↦
      wholeAndFinite_of_answer hdates htruthful hlt hindexed hanswer) hloop
      (fun row hrow ↦ absurd hrow List.not_mem_nil)
    intro row hrow
    rw [← Option.some.inj hresult] at hrow
    exact hfound row (mem_sortBy.mp hrow)
  intro p hp
  have hshown : (toISOString p.1, p.2) ∈
      result.rows.map fun row ↦ (row.observedAt, cellOf row.value) := by
    rw [hrows]
    refine List.mem_map.mpr ⟨p, ?_, rfl⟩
    split
    · exact hp
    · exact List.mem_of_mem_take hp
  obtain ⟨row, hrow, heq⟩ := List.mem_map.mp hshown
  obtain ⟨htext, hcell⟩ := Prod.mk.inj heq
  obtain ⟨t, value, htime, hat, hvalue⟩ := hall row hrow
  have hinstant : wholeSecond t = p.1 := by
    refine toISOString_injOn (isTimeValue_wholeSecond htime)
      (isTimeValue_of_listing htruthful hlisting (List.mem_of_mem_take hp)) ?_
    rw [← hat, htext]
  refine ⟨?_, value, by rw [← hcell, hvalue]; rfl⟩
  rw [← hinstant, wholeSecond]
  exact Int.mul_emod_left _ _

end Windows

/-! ## Windows and histories -/

section Histories

variable {dateParse : String → Option ℤ} {env : Env} {history : History} {series : Series}
variable {startMs endMs : ℤ}

/-- A stored row is at a whole second and has a number. -/
def Plain (t : ℤ) (cell : Cell) : Prop := t % 1000 = 0 ∧ ∃ value, cell = .finite value

theorem returnsWindow_of_shown (hdates : ReadsDates dateParse)
    (htruthful : Truthful dateParse history series) (hunique : Unambiguous history series)
    (henabled : env.timeseriesIndexEnabled = true) (hshown : Shown history series startMs endMs none) :
    ReturnsWindow dateParse env history series startMs endMs := by
  intro hlt hindexed sinceMs hsince limit maxPages hlimit hpages
  refine returnsListing_of_shown hdates htruthful hunique henabled hlt hindexed hsince hlimit hpages
    fun t cell hstored hwindow ↦ hshown t cell hstored (hwindow.imp ?_ ?_)
  · exact fun h ↦ ⟨h.1, h.2.1, nofun⟩
  · exact fun h ↦ ⟨h.1, h.2.1, nofun⟩

/-- A window that is returned has whole seconds and numbers alone. -/
theorem plain_of_returnsWindow (hdates : ReadsDates dateParse)
    (htruthful : Truthful dateParse history series) (hunique : Unambiguous history series)
    (henabled : env.timeseriesIndexEnabled = true) (hlt : startMs < endMs)
    (hindexed : IndexedOver history series startMs endMs)
    (h : ReturnsWindow dateParse env history series startMs endMs) {t : ℤ} {cell : Cell}
    (hstored : Stored history series t cell) (hwindow : InWindow startMs endMs none t) :
    Plain t cell := by
  obtain ⟨rows, hlisting⟩ : ∃ rows, IsListing history series startMs endMs none rows :=
    exists_listing hdates htruthful hunique henabled hlt hindexed
  have hmem : (t, cell) ∈ rows := (hlisting.mem t cell).mpr ⟨hstored, hwindow⟩
  have hpages : 1 ≤ rows.length := List.length_pos_of_mem hmem
  -- as many pages as there are rows
  have hreturns := h hlt hindexed none nofun 1 rows.length (by decide) hpages
  refine of_returnsListing hdates htruthful hlt hindexed hreturns hlisting (t, cell) ?_
  rwa [Nat.mul_one, List.take_length]

/-- **A window up to a whole second** is returned just if its rows are at whole seconds and have
numbers. -/
theorem returnsWindow_iff (hdates : ReadsDates dateParse)
    (htruthful : Truthful dateParse history series) (hunique : Unambiguous history series)
    (henabled : env.timeseriesIndexEnabled = true) (hlt : startMs < endMs)
    (hindexed : IndexedOver history series startMs endMs) (hend : endMs % 1000 = 0) :
    ReturnsWindow dateParse env history series startMs endMs ↔
      ∀ t cell, Stored history series t cell → startMs ≤ t → t < endMs → Plain t cell := by
  refine ⟨fun h t cell hstored hle hbefore ↦ plain_of_returnsWindow hdates htruthful hunique henabled
    hlt hindexed h hstored ⟨hle, hbefore, nofun⟩, fun h ↦ ?_⟩
  refine returnsWindow_of_shown hdates htruthful hunique henabled fun t cell hstored hwindow ↦ ?_
  rcases hwindow with hwindow | hwindow
  · exact h t cell hstored hwindow.1 hwindow.2.1
  · have hle := wholeSecond_le t
    have hbefore := hwindow.2.1
    rw [wholeSecond] at hbefore
    exact h t cell hstored (hwindow.1.trans hle) (by omega)

theorem indexedOver_of_stored (htruthful : Truthful dateParse history series) {t : ℤ} {cell : Cell}
    (h : Stored history series t cell) : IndexedOver history series t (t + 1) := by
  intro day hle hlt
  obtain ⟨day', entry, row, hstored, rfl, -⟩ := h
  have hday := htruthful.days day' entry row hstored
  obtain ⟨entries, hentries, -⟩ := hstored
  have hsame : day = day' := by
    simp only [dayMs, hourMs, minuteMs] at hle hlt hday
    omega
  exact ⟨entries, hsame ▸ hentries⟩

end Histories

/-! ## Histories with one row -/

section Single

def singleEntry (series : Series) (t : ℤ) : IndexEntry :=
  ⟨"part-00000.parquet", some series.timeseriesId, some series.timeseriesId, some (toISOString t),
    some (toISOString t)⟩

def singleGroup (series : Series) (t : ℤ) (cell : Cell) : RowGroup :=
  ⟨some series.timeseriesId, some series.timeseriesId, [⟨series.timeseriesId, t, cell, none⟩]⟩

/-- A history with one row of a series. -/
def singleRow (series : Series) (t : ℤ) (cell : Cell) : History where
  index key :=
    if key = buildTimeseriesPollutantIndexKey series (isoDay (t / dayMs)) then
      some [singleEntry series t]
    else none
  file key := if key = "part-00000.parquet" then some [singleGroup series t cell] else none

variable {dateParse : String → Option ℤ} {series : Series} {t : ℤ} {cell : Cell}

theorem buildTimeseriesPollutantIndexKey_injective :
    Function.Injective (buildTimeseriesPollutantIndexKey series) := by
  intro day day' h
  have hchars := congrArg String.toList h
  simp only [buildTimeseriesPollutantIndexKey, String.toList_append, List.append_assoc,
    List.append_cancel_left_eq, toString] at hchars
  simp only [← List.append_assoc, List.append_cancel_right_eq] at hchars
  exact String.toList_injective hchars

theorem indexAt_singleRow (hday : PlainYear (t / dayMs)) {day : ℤ} {entries : List IndexEntry} :
    IndexAt (singleRow series t cell) series day entries ↔
      day = t / dayMs ∧ entries = [singleEntry series t] := by
  have hdays : ∀ day : ℤ, day * dayMs / dayMs = day := fun day ↦
    Int.mul_ediv_cancel _ (by decide)
  constructor
  · rintro ⟨hplain, hindex⟩
    simp only [singleRow] at hindex
    split at hindex
    · rename_i hkey
      have htexts := congrArg String.toList (buildTimeseriesPollutantIndexKey_injective hkey)
      rw [isoDay, isoDay, takeText_toISOString (by rwa [hdays]),
        takeText_toISOString (by rwa [hdays]), hdays, hdays] at htexts
      exact ⟨isoDayChars_injective hplain hday htexts, (Option.some.inj hindex).symm⟩
    · rcases hindex with ⟨⟩
  · rintro ⟨rfl, rfl⟩
    exact ⟨hday, if_pos rfl⟩

theorem storedRow_singleRow (hday : PlainYear (t / dayMs)) {day : ℤ} {entry : IndexEntry}
    {row : ParquetRow} :
    StoredRow (singleRow series t cell) series day entry row ↔ day = t / dayMs ∧
      entry = singleEntry series t ∧ row = ⟨series.timeseriesId, t, cell, none⟩ := by
  have hfound : (singleRow series t cell).file (singleEntry series t).key
      = some [singleGroup series t cell] := by
    simp only [singleRow, singleEntry, if_true]
  constructor
  · rintro ⟨entries, hentries, hentry, groups, hfile, group, hgroup, hrow, -⟩
    obtain ⟨rfl, rfl⟩ := (indexAt_singleRow hday).mp hentries
    obtain rfl := List.mem_singleton.mp hentry
    rw [hfound, Option.some.injEq] at hfile
    rw [← hfile, List.mem_singleton] at hgroup
    rw [hgroup, singleGroup, List.mem_singleton] at hrow
    exact ⟨rfl, rfl, hrow⟩
  · rintro ⟨rfl, rfl, rfl⟩
    exact ⟨_, (indexAt_singleRow hday).mpr ⟨rfl, rfl⟩, List.mem_singleton_self _, _, hfound,
      singleGroup series t cell, List.mem_singleton_self _, List.mem_singleton_self _, rfl⟩

theorem stored_singleRow (hday : PlainYear (t / dayMs)) {t' : ℤ} {cell' : Cell} :
    Stored (singleRow series t cell) series t' cell' ↔ t' = t ∧ cell' = cell := by
  constructor
  · rintro ⟨day, entry, row, hstored, rfl, rfl⟩
    obtain ⟨-, -, rfl⟩ := (storedRow_singleRow hday).mp hstored
    exact ⟨rfl, rfl⟩
  · rintro ⟨rfl, rfl⟩
    exact ⟨_, _, _, (storedRow_singleRow hday).mpr ⟨rfl, rfl, rfl⟩, rfl, rfl⟩

theorem unambiguous_singleRow (hday : PlainYear (t / dayMs)) :
    Unambiguous (singleRow series t cell) series := by
  intro t' cell' cell'' h h'
  rw [((stored_singleRow hday).mp h).2, ((stored_singleRow hday).mp h').2]

theorem truthful_singleRow (hdates : ReadsDates dateParse) (hday : PlainYear (t / dayMs)) :
    Truthful dateParse (singleRow series t cell) series where
  keys day entries h entry hentry := by
    rw [((indexAt_singleRow hday).mp h).2, List.mem_singleton] at hentry
    have hkey : "part-00000.parquet" ≠ "" ∧ trimText "part-00000.parquet" = "part-00000.parquet" := by
      decide +kernel
    rw [hentry]
    exact hkey
  days day entry row h := by
    obtain ⟨rfl, -, rfl⟩ := (storedRow_singleRow hday).mp h
    rfl
  ranges day entry row h range hrange := by
    obtain ⟨-, rfl, -⟩ := (storedRow_singleRow hday).mp h
    simp only [IndexEntry.range, singleEntry, Option.bind_eq_bind, Option.bind_some] at hrange
    split at hrange
    · rw [← Option.mem_some_iff.mp hrange]
      exact ⟨le_rfl, le_rfl⟩
    · exact nomatch hrange
  times day entry row h range hrange := by
    obtain ⟨-, rfl, rfl⟩ := (storedRow_singleRow hday).mp h
    have hms : parseMs dateParse (some (toISOString t)) = some t := by
      rw [parseMs, Option.bind_some, trimText_toISOString, if_neg (toISOString_ne_empty t)]
      exact hdates.timestamps t (isTimeValue_of_plainYear hday)
    simp only [IndexEntry.timeRange, singleEntry, hms, Option.bind_eq_bind, Option.bind_some, le_refl, if_true]
      at hrange
    rw [← Option.mem_some_iff.mp hrange]
    exact ⟨le_rfl, le_rfl⟩
  groups key groups h group hgroup row hrow := by
    simp only [singleRow] at h
    split at h
    · rw [← Option.some.inj h, List.mem_singleton] at hgroup
      rw [hgroup, singleGroup, List.mem_singleton] at hrow
      rw [hgroup, hrow]
      exact ⟨fun minId hmin ↦ (Option.some.inj hmin).ge, fun maxId hmax ↦ (Option.some.inj hmax).le⟩
    · exact nomatch h

/-! ### A reader of dates -/

/-- The text that the days of a window may end with. -/
def yearAfterText : String := "+010000-01T00:00:00.000Z"

theorem yearAfterText_ne_toISOString (t : ℤ) : yearAfterText ≠ toISOString t := by
  intro h
  have hchars : "+010000-01T00:00:00.000Z".toList = isoChars t := by
    rw [show "+010000-01T00:00:00.000Z" = toISOString t from h]
    exact String.toList_ofList
  have hlength := congrArg List.length hchars
  by_cases hplain : PlainYear (t / dayMs)
  · have hhead := congrArg List.head? hchars
    obtain ⟨c, rest, hcons⟩ := List.exists_cons_of_length_pos
      (show 0 < (fixedDigits 4 (civilFromDays (t / dayMs)).year.toNat).length by
        rw [fixedDigits_length]; decide)
    have hdigit : c.isDigit = true := isDigit_of_mem_fixedDigits (?_ :
      c ∈ fixedDigits 4 (civilFromDays (t / dayMs)).year.toNat)
    · simp only [isoChars, isoDayChars, isoYear_of_plainYear hplain, hcons, List.cons_append,
        List.head?_cons] at hhead
      rw [← Option.some.inj hhead] at hdigit
      exact absurd hdigit (by decide)
    · rw [hcons]
      exact List.mem_cons_self
  · have hyear : (isoYear (civilFromDays (t / dayMs)).year).length = 7 := by
      rw [PlainYear] at hplain
      rw [isoYear, if_neg hplain, List.length_cons, fixedDigits_length]
    simp only [isoChars, isoDayChars, isoTimeChars, List.length_append, List.length_cons, hyear,
      fixedDigits_length] at hlength
    exact absurd hlength (by decide)

theorem yearAfterText_ne_dateText (t : ℤ) : yearAfterText ≠ dateText t := by
  intro h
  obtain ⟨c, hc, hhead⟩ := head?_dateChars t
  have hchars : "+010000-01T00:00:00.000Z".toList = dateChars t := by
    rw [show "+010000-01T00:00:00.000Z" = dateText t from h]
    exact String.toList_ofList
  have hall : ∀ c ∈ ['S', 'M', 'T', 'W', 'F'],
      "+010000-01T00:00:00.000Z".toList.head? ≠ some c :=
    List.all_iff_forall_prop.mp (by decide)
  exact hall c hc (hchars ▸ hhead)

/-- A reader of the texts that are needed. -/
noncomputable def readDateOrYear (text : String) : Option ℤ :=
  if text = yearAfterText then some (2932897 * dayMs) else readDate text

theorem readsDates_readDateOrYear : ReadsDates readDateOrYear where
  timestamps t ht := by
    rw [readDateOrYear, if_neg (yearAfterText_ne_toISOString t).symm]
    exact readsTimestamps_readDate t ht
  dateTexts t ht := by
    rw [readDateOrYear, if_neg (yearAfterText_ne_dateText t).symm]
    exact readsDateTexts_readDate t ht
  yearAfter := by
    have htext : isoDay 2932897 ++ "T00:00:00.000Z" = yearAfterText := by decide +kernel
    rw [utcMidnightMs, htext, readDateOrYear, if_pos rfl]

/-! ### Two histories -/

def sampleEnv : Env := ⟨true, 5000, by decide⟩

def sampleSeries : Series := ⟨"history/v2/index", 1, "no2", 7⟩

end Single

end UkAqOps.HistoryApi

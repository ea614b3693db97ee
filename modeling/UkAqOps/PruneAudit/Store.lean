import UkAqOps.Js.Split
import UkAqOps.PruneAudit.Selection

/-!
# The checkpoints of the audit

The shards of the audited months, in which a day has at most one checkpoint. What the code writes it
reads back as it was, so recording an outcome changes the checkpoint of one day at most, and a batch
is selected by the checkpoints alone.
-/

namespace UkAqOps.PruneAudit

/-! ## The store -/

/-- The shards by year and month. -/
abbrev Store := OrderedMap (String × String) MonthState

/-- `dayUtc.split("-")` gives the month that a day belongs to. -/
def monthKey (dayUtc : DayUtc) : String × String :=
  let parts := splitText dayUtc '-'
  (parts.getD 0 "", parts.getD 1 "")

def Store.checkpoints (store : Store) : List StoredAuditDay :=
  (store.values.flatMap MonthState.days).map AuditDay.stored

section Runs

variable (host : Host) {ρ : Type}

/-- The outcome of an audit goes into the shard of the day's month. -/
def recordOutcome (store : Store) (day : EligibleDay ρ) (successful : Bool) (auditedAt : String) :
    Except String Store := do
  let key := monthKey day.dayUtc
  let state ← recordObservationPruneAuditOutcome host ((store.get? key).map MonthState.stored)
    day.dayUtc day.manifestHash successful false auditedAt
  pure (store.set key state)

/-- What does not change between the runs. -/
structure Population (ρ : Type) where
  inventoryDays : List (InventoryDay ρ)
  acceptedCopyDays : List AcceptedDay
  maxDays : ℤ

def selectBatch (population : Population ρ) (store : Store) : Except String (Selection ρ) :=
  selectObservationPruneAuditBatch host population.inventoryDays population.acceptedCopyDays
    store.checkpoints [] population.maxDays

/-- A run of the recheck: the days of a batch are audited one after the other, each with its outcome
and its time. -/
def auditRun (population : Population ρ) (succeeds : DayUtc → Bool) (clock : ℕ → TimeValue) (store : Store) :
    Except String (List (EligibleDay ρ) × Store) := do
  let selection ← selectBatch host population store
  let store ← selection.selectedDays.zipIdx.foldlM (fun store (day, i) ↦
    recordOutcome host store day (succeeds day.dayUtc) (toISOString (clock i))) store
  pure (selection.selectedDays, store)

/-- The store before a run. -/
def storeBefore (population : Population ρ) (succeeds : ℕ → DayUtc → Bool)
    (clock : ℕ → ℕ → TimeValue) (store : Store) : ℕ → Except String Store
  | 0 => pure store
  | run + 1 => do
    let store ← storeBefore population succeeds clock store run
    let (_, store) ← auditRun host population (succeeds run) (clock run) store
    pure store

end Runs

/-! ## Days -/

/-- The number of a day. -/
def DayUtc.number (dayUtc : DayUtc) : ℤ := (parseIsoDay dayUtc.val).get dayUtc.property

theorem DayUtc.isoDay_number (dayUtc : DayUtc) :
    isoDay dayUtc.number = dayUtc.val ∧ PlainYear dayUtc.number := by
  have hparse : parseIsoDay dayUtc.val = some dayUtc.number := (Option.some_get _).symm
  obtain ⟨htext, hplain⟩ := isoDay_of_parseIsoDay hparse
  refine ⟨htext, ?_⟩
  have hyear : PlainYear (dayUtc.number * dayMs / dayMs) := plainYear_of_toISOString (by
    rw [← isoDay, htext]
    exact hplain)
  rwa [Int.mul_ediv_cancel _ (by decide)] at hyear

theorem DayUtc.toList_val (dayUtc : DayUtc) : dayUtc.val.toList = isoDayChars dayUtc.number := by
  obtain ⟨htext, hplain⟩ := dayUtc.isoDay_number
  have htake := @takeText_toISOString (dayUtc.number * dayMs) (by
    rwa [Int.mul_ediv_cancel _ (by decide)])
  rw [← htext, isoDay, htake, Int.mul_ediv_cancel _ (by decide)]

theorem DayUtc.number_injective : Function.Injective DayUtc.number := by
  intro a b h
  refine Subtype.ext (String.toList_inj.mp ?_)
  rw [a.toList_val, b.toList_val, h]

theorem trimText_day (dayUtc : DayUtc) : trimText dayUtc.val = dayUtc.val := by
  refine trimText_of_forall fun c hc ↦ ?_
  have hmem : c ∈ isoChars (dayUtc.number * dayMs) := by
    rw [isoChars, Int.mul_ediv_cancel _ (by decide), ← dayUtc.toList_val]
    exact List.mem_append_left _ hc
  exact isJsWhitespace_of_mem_isoChars hmem

theorem normalizeDayUtc_day (dayUtc : DayUtc) : normalizeDayUtc dayUtc.val = .ok dayUtc := by
  simp only [normalizeDayUtc, trimText_day, dayUtc.property, dif_pos]

/-- The year and the month of a day, each of its own width. -/
theorem monthKey_spec (dayUtc : DayUtc) : isYear (monthKey dayUtc).1 = true ∧
    isMonth (monthKey dayUtc).2 = true ∧
      inMonth (monthKey dayUtc).1 (monthKey dayUtc).2 dayUtc = true := by
  obtain ⟨-, hplain⟩ := dayUtc.isoDay_number
  set date := civilFromDays dayUtc.number with hdate
  have hmonth : 1 ≤ date.month ∧ date.month ≤ 12 := by
    have hranges := civilFromDays_ranges dayUtc.number
    exact ⟨hranges.1, hranges.2.1⟩
  have hchars : dayUtc.val.toList = fixedDigits 4 date.year.toNat ++
      '-' :: (fixedDigits 2 date.month.toNat ++ '-' :: fixedDigits 2 date.day.toNat) := by
    rw [dayUtc.toList_val, isoDayChars, ← hdate, isoYear_of_plainYear hplain, List.append_assoc,
      List.cons_append]
  have hdash : ∀ {width n : ℕ}, ∀ c ∈ fixedDigits width n, decide (c = '-') = false := by
    intro width n c hc
    refine decide_eq_false fun heq ↦ ?_
    exact absurd (heq ▸ isDigit_of_mem_fixedDigits hc) (by decide)
  have hkey : monthKey dayUtc = (String.ofList (fixedDigits 4 date.year.toNat),
      String.ofList (fixedDigits 2 date.month.toNat)) := by
    rw [monthKey, splitText, hchars, splitChars_append_cons hdash (by decide),
      splitChars_append_cons hdash (by decide)]
    rfl
  rw [hkey]
  refine ⟨?_, ?_, ?_⟩
  · rw [isYear, String.toList_ofList, fixedDigits_length, Bool.and_eq_true, List.all_eq_true]
    exact ⟨rfl, fun c hc ↦ isDigit_of_mem_fixedDigits hc⟩
  · have hall : ∀ m < 13, 1 ≤ m → isMonth (String.ofList (fixedDigits 2 m)) = true := by decide
    exact hall _ (by omega) (by omega)
  · rw [inMonth, startsWithText, decide_eq_true_iff, hchars]
    simp only [String.toList_append, String.toList_ofList]
    refine ⟨fixedDigits 2 date.day.toNat, ?_⟩
    simp

/-! ## Maps by day -/

section MapUnique

variable {α : Type} {dayUtc : α → DayUtc} {label : String}

theorem entries_mapUniqueByDay {entries : List α} {m : OrderedMap DayUtc α}
    (h : mapUniqueByDay dayUtc label entries = .ok m) :
    m.entries = entries.map fun entry ↦ (dayUtc entry, entry) := by
  refine @Except.foldlM_invariant _ _ _ _ _ _ _ (fun done (m : OrderedMap DayUtc α) ↦
    m.entries = done.map fun entry ↦ (dayUtc entry, entry)) h rfl ?_
  intro done entry rest m m' _ hm hstep
  rw [addUnique] at hstep
  split at hstep
  · cases hstep
  · rename_i hnew
    rw [← Except.ok.inj hstep, OrderedMap.entries_set_of_notMem _ hnew, hm, List.map_append]
    rfl

theorem nodup_of_mapUniqueByDay {entries : List α} {m : OrderedMap DayUtc α}
    (h : mapUniqueByDay dayUtc label entries = .ok m) : (entries.map dayUtc).Nodup := by
  have hkeys := m.nodup_keys
  rw [entries_mapUniqueByDay h, List.map_map] at hkeys
  exact hkeys

theorem exists_mapUniqueByDay (label : String) {entries : List α}
    (h : (entries.map dayUtc).Nodup) : ∃ m, mapUniqueByDay dayUtc label entries = .ok m := by
  rw [mapUniqueByDay]
  induction entries using List.reverseRecOn with
  | nil => exact ⟨_, rfl⟩
  | append_singleton entries entry ih =>
    rw [List.map_append, List.nodup_append'] at h
    obtain ⟨m, hm⟩ := ih h.1
    have hkeys : m.keys = entries.map dayUtc := by
      rw [OrderedMap.keys, entries_mapUniqueByDay hm, List.map_map]
      rfl
    rw [List.foldlM_append, hm, Except.ok_bind, List.foldlM_cons, addUnique, if_neg]
    · exact ⟨_, rfl⟩
    · rw [hkeys]
      exact fun hmem ↦ h.2.2 hmem (List.mem_singleton.mpr rfl)

theorem get?_mapUniqueByDay {entries : List α} {m : OrderedMap DayUtc α}
    (h : mapUniqueByDay dayUtc label entries = .ok m) {d : DayUtc} {entry : α} :
    m.get? d = some entry ↔ entry ∈ entries ∧ dayUtc entry = d := by
  rw [OrderedMap.get?_eq_some_iff, entries_mapUniqueByDay h, List.mem_map]
  constructor
  · rintro ⟨entry', hmem, heq⟩
    obtain ⟨rfl, rfl⟩ := Prod.mk.inj heq
    exact ⟨hmem, rfl⟩
  · rintro ⟨hmem, rfl⟩
    exact ⟨entry, hmem, rfl⟩

end MapUnique

/-! ## What is stored reads back -/

/-- What is known of the language: hashes are in lower case, a timestamp that a date prints as reads
back, and texts of digits at the same places are collated as their numbers. -/
structure Host.Lawful (host : Host) : Prop where
  toLowerCase_hex : ∀ text, isSha256Hex text = true → host.toLowerCase text = text
  dateParse_toISOString : ∀ t : TimeValue, host.dateParse (toISOString t) = some t
  localeCompare_days : ∀ a b, PlainYear a → PlainYear b →
    host.localeCompare (isoDayChars a) (isoDayChars b) = compare a b
  localeCompare_times : ∀ a b, PlainYear (a / dayMs) → PlainYear (b / dayMs) →
    host.localeCompare (isoChars a) (isoChars b) = compare a b

section Lawful

variable {host : Host} (hhost : host.Lawful)

include hhost

theorem normalizeManifestHash_hash (hash : ManifestHash) (label : String) :
    normalizeManifestHash host hash.val label = .ok hash := by
  simp only [normalizeManifestHash, trimText_of_isSha256Hex hash.property,
    hhost.toLowerCase_hex hash.val hash.property, hash.property, dif_pos]

omit hhost in
theorem endsWithText_toISOString (t : ℤ) : endsWithText (toISOString t) "Z" = true := by
  obtain ⟨front, hfront⟩ : ∃ front, isoChars t = front ++ ['Z'] :=
    ⟨_, by rw [isoChars, isoTimeChars, ← List.append_assoc]⟩
  rw [endsWithText, decide_eq_true_iff, toISOString, String.toList_ofList,
    String.toList_ofList, hfront]
  exact List.suffix_append _ _

theorem normalizeUtcTimestamp_toISOString (t : TimeValue) :
    normalizeUtcTimestamp host (toISOString t) = .ok t := by
  simp only [normalizeUtcTimestamp, trimText_toISOString, hhost.dateParse_toISOString,
    endsWithText_toISOString, if_true]

omit hhost in
theorem any_not_inMonth_eq_false {day : AuditDay} {yearMonth : Option (String × String)}
    (h : ∀ key ∈ yearMonth, monthKey day.dayUtc = key) :
    (yearMonth.any fun (year, month) ↦ !inMonth year month day.dayUtc) = false := by
  rcases yearMonth with _ | ⟨year, month⟩
  · rfl
  · obtain ⟨-, -, hin⟩ := monthKey_spec day.dayUtc
    rw [h _ rfl] at hin
    have hin : inMonth year month day.dayUtc = true := hin
    simp only [Option.any_some, hin, Bool.not_true]

/-- A checkpoint reads back, on its own or in the shard of its month. -/
theorem normalizeAuditDay_stored (day : AuditDay) {yearMonth : Option (String × String)}
    (h : ∀ key ∈ yearMonth, monthKey day.dayUtc = key) :
    normalizeAuditDay host yearMonth day.stored = .ok day := by
  rw [normalizeAuditDay, AuditDay.stored, normalizeDayUtc_day, Except.ok_bind]
  simp only [any_not_inMonth_eq_false h, Bool.false_eq_true, if_false]
  rw [normalizeManifestHash_hash hhost, Except.ok_bind, normalizeUtcTimestamp_toISOString hhost]
  rfl

theorem mapM_normalizeAuditDay {days : List AuditDay} {yearMonth : Option (String × String)}
    (h : ∀ day ∈ days, ∀ key ∈ yearMonth, monthKey day.dayUtc = key) :
    (days.map AuditDay.stored).mapM (normalizeAuditDay host yearMonth) = .ok days := by
  rw [Except.mapM_eq_ok_iff, List.forall₂_map_left_iff, List.forall₂_same]
  exact fun day hday ↦ normalizeAuditDay_stored hhost day (h day hday)

/-! ## Well-formed stores -/

omit hhost in
/-- Every shard stands under its month and holds checkpoints of its days, one for each at most. -/
structure ShardOk (key : String × String) (state : MonthState) : Prop where
  year : state.year = key.1
  month : state.month = key.2
  nodup : (state.days.map AuditDay.dayUtc).Nodup
  days : ∀ day ∈ state.days, monthKey day.dayUtc = key

omit hhost in
def Store.WellFormed (store : Store) : Prop := ∀ p ∈ store.entries, ShardOk p.1 p.2

omit hhost in
/-- The checkpoint of a day. -/
def Store.checkpoint? (store : Store) (d : DayUtc) : Option AuditDay := do
  let state ← store.get? (monthKey d)
  state.days.find? (·.dayUtc = d)

omit hhost in
theorem checkpoint?_eq_some_iff {store : Store} (h : store.WellFormed) {d : DayUtc}
    {day : AuditDay} : store.checkpoint? d = some day ↔
      day ∈ store.values.flatMap MonthState.days ∧ day.dayUtc = d := by
  have hfind : ∀ {state : MonthState}, (state.days.map AuditDay.dayUtc).Nodup →
      (state.days.find? (·.dayUtc = d) = some day ↔ day ∈ state.days ∧ day.dayUtc = d) := by
    intro state hnodup
    constructor
    · intro hsome
      exact ⟨List.mem_of_find?_eq_some hsome, by simpa using List.find?_some hsome⟩
    · rintro ⟨hmem, hday⟩
      rcases hres : state.days.find? (·.dayUtc = d) with _ | found
      · exact absurd hday (by simpa using List.find?_eq_none.mp hres day hmem)
      · have hfound : found.dayUtc = d := by simpa using List.find?_some hres
        exact hres.trans (congrArg some (List.inj_on_of_nodup_map hnodup
          (List.mem_of_find?_eq_some hres) hmem (hfound.trans hday.symm)))
  simp only [Store.checkpoint?, Option.bind_eq_bind, Option.bind_eq_some_iff, List.mem_flatMap,
    OrderedMap.mem_values]
  constructor
  · rintro ⟨state, hstate, hday⟩
    have hentry := store.get?_eq_some_iff.mp hstate
    obtain ⟨hmem, heq⟩ := (hfind (h _ hentry).nodup).mp hday
    exact ⟨⟨state, ⟨_, hentry⟩, hmem⟩, heq⟩
  · rintro ⟨⟨state, ⟨key, hentry⟩, hmem⟩, rfl⟩
    refine ⟨state, ?_, (hfind (h _ hentry).nodup).mpr ⟨hmem, rfl⟩⟩
    rw [(h _ hentry).days day hmem]
    exact store.get?_eq_some_iff.mpr hentry

omit hhost in
/-- A day has one checkpoint over all months. -/
theorem nodup_checkpoints {store : Store} (h : store.WellFormed) :
    ((store.values.flatMap MonthState.days).map AuditDay.dayUtc).Nodup := by
  rw [OrderedMap.values, List.flatMap_map, List.map_flatMap, List.nodup_flatMap]
  refine ⟨fun p hp ↦ (h p hp).nodup, ?_⟩
  have hkeys : store.entries.Pairwise fun p q ↦ p.1 ≠ q.1 := List.pairwise_map.mp store.nodup_keys
  refine hkeys.imp_of_mem fun {p q} hp hq hne ↦ ?_
  refine List.disjoint_left.mpr fun d hd hd' ↦ ?_
  obtain ⟨day, hday, rfl⟩ := List.mem_map.mp hd
  obtain ⟨day', hday', heq⟩ := List.mem_map.mp hd'
  exact hne (((h p hp).days day hday).symm.trans (heq ▸ (h q hq).days day' hday'))

/-- The checkpoints as the selection reads them. -/
theorem exists_auditByDay {store : Store} (h : store.WellFormed) (label : String) :
    store.checkpoints.mapM (normalizeAuditDay host none) =
        .ok (store.values.flatMap MonthState.days) ∧
      ∃ m, mapUniqueByDay AuditDay.dayUtc label (store.values.flatMap MonthState.days) = .ok m ∧
        ∀ d, m.get? d = store.checkpoint? d := by
  refine ⟨mapM_normalizeAuditDay hhost (by simp), ?_⟩
  obtain ⟨m, hm⟩ := exists_mapUniqueByDay label (nodup_checkpoints h)
  refine ⟨m, hm, fun d ↦ ?_⟩
  ext day
  rw [get?_mapUniqueByDay hm, checkpoint?_eq_some_iff h]

/-! ## Recording -/

omit hhost in
theorem mem_checkpoints {store : Store} (h : store.WellFormed) {day : AuditDay} :
    day ∈ store.values.flatMap MonthState.days ↔
      ∃ state, store.get? (monthKey day.dayUtc) = some state ∧ day ∈ state.days := by
  simp only [List.mem_flatMap, OrderedMap.mem_values]
  constructor
  · rintro ⟨state, ⟨key, hentry⟩, hmem⟩
    rw [(h _ hentry).days day hmem]
    exact ⟨state, store.get?_eq_some_iff.mpr hentry, hmem⟩
  · rintro ⟨state, hstate, hmem⟩
    exact ⟨state, ⟨_, store.get?_eq_some_iff.mp hstate⟩, hmem⟩

omit hhost in
@[simp] theorem mem_sortDays {days : List AuditDay} {day : AuditDay} :
    day ∈ sortDays host days ↔ day ∈ days := Sorting.mem_sortBy

omit hhost in
theorem nodup_sortDays {days : List AuditDay} :
    ((sortDays host days).map AuditDay.dayUtc).Nodup ↔ (days.map AuditDay.dayUtc).Nodup :=
  ((Sorting.sortBy_perm days).map AuditDay.dayUtc).nodup_iff

/-- The shard of a month reads back with the same checkpoints; where there is none, it is empty. -/
theorem exists_validate {store : Store} (h : store.WellFormed) (d : DayUtc) :
    ∃ state, validateObservationPruneAuditMonthState host
        ((store.get? (monthKey d)).map MonthState.stored) (monthKey d).1 (monthKey d).2 = .ok state ∧
      ShardOk (monthKey d) state ∧
        ∀ day, day ∈ state.days ↔ ∃ s, store.get? (monthKey d) = some s ∧ day ∈ s.days := by
  obtain ⟨hisYear, hisMonth, -⟩ := monthKey_spec d
  have hyear : normalizeYear (monthKey d).1 = .ok (monthKey d).1 := by
    have htrim : trimText (monthKey d).1 = (monthKey d).1 := trimText_of_forall fun c hc ↦ by
      rw [isYear, Bool.and_eq_true, List.all_eq_true] at hisYear
      exact isJsWhitespace_of_isDigit (hisYear.2 c hc)
    simp only [normalizeYear, htrim, hisYear, if_true]
  have hmonth : normalizeMonth (monthKey d).2 = .ok (monthKey d).2 := by
    have hall : ∀ text ∈ ["01", "02", "03", "04", "05", "06", "07", "08", "09", "10", "11", "12"],
        padZeros (trimText text) 2 = text := by decide
    have hpad := hall _ (by simpa only [isMonth, decide_eq_true_iff] using hisMonth)
    simp only [normalizeMonth, hpad, hisMonth, if_true]
  rcases hget : store.get? (monthKey d) with _ | shard
  · refine ⟨⟨(monthKey d).1, (monthKey d).2, []⟩, ?_, ⟨rfl, rfl, List.nodup_nil, by simp⟩, by simp⟩
    rw [Option.map_none, validateObservationPruneAuditMonthState,
      emptyObservationPruneAuditMonthState, hyear, Except.ok_bind, hmonth]
    rfl
  · have hok : ShardOk (monthKey d) shard := h _ (store.get?_eq_some_iff.mp hget)
    have hnodup : ((sortDays host shard.days).map AuditDay.dayUtc).Nodup :=
      nodup_sortDays.mpr hok.nodup
    obtain ⟨m, hm⟩ := exists_mapUniqueByDay "Observation prune-audit month state" hnodup
    have hdays : (shard.days.map AuditDay.stored).mapM
        (normalizeAuditDay host (some ((monthKey d).1, (monthKey d).2))) = .ok shard.days := by
      refine mapM_normalizeAuditDay hhost fun day hday key hkey ↦ ?_
      rw [hok.days day hday]
      exact Option.some.inj hkey
    refine ⟨⟨(monthKey d).1, (monthKey d).2, sortDays host shard.days⟩, ?_,
      ⟨rfl, rfl, hnodup, fun day hday ↦ hok.days day (mem_sortDays.mp hday)⟩, fun day ↦ by simp⟩
    simp only [Option.map_some, validateObservationPruneAuditMonthState, MonthState.stored, hok.year,
      hok.month, hyear, hmonth, Except.ok_bind, ne_eq, not_true_eq_false, or_self, if_false, hdays,
      hm]
    rfl

omit hhost in
/-- The checkpoint of a day that was audited. -/
def EligibleDay.audited {ρ : Type} (day : EligibleDay ρ) (t : TimeValue) : AuditDay :=
  ⟨day.dayUtc, day.manifestHash, t⟩

/-- What is written for a day. -/
theorem exists_written {ρ : Type} {store : Store} (h : store.WellFormed) (day : EligibleDay ρ)
    (successful : Bool) (t : TimeValue) : ∃ written,
      recordObservationPruneAuditOutcome host ((store.get? (monthKey day.dayUtc)).map
        MonthState.stored) day.dayUtc day.manifestHash successful false (toISOString t) =
          .ok written ∧ ShardOk (monthKey day.dayUtc) written ∧
        ∀ x, x ∈ written.days ↔ (successful = true ∧ x = day.audited t) ∨
          ((∃ state, store.get? (monthKey day.dayUtc) = some state ∧ x ∈ state.days) ∧
            (successful = true → x.dayUtc ≠ day.dayUtc)) := by
  obtain ⟨state, hstate, hok, hmem⟩ := exists_validate hhost h day.dayUtc
  rw [recordObservationPruneAuditOutcome, normalizeDayUtc_day, Except.ok_bind]
  rcases successful with _ | _
  · refine ⟨state, ?_, hok, fun x ↦ by simp [hmem]⟩
    change (validateObservationPruneAuditMonthState host _ (monthKey day.dayUtc).1
      (monthKey day.dayUtc).2 >>= _) = _
    rw [hstate]
    rfl
  · obtain ⟨m, hm⟩ := exists_mapUniqueByDay "Observation prune-audit month state" hok.nodup
    set days := m.set day.dayUtc (day.audited t) with hdays
    have hkeyed : ∀ p ∈ days.entries, p.2.dayUtc = p.1 := by
      intro p hp
      rcases OrderedMap.mem_entries_set.mp hp with rfl | ⟨hold, -⟩
      · rfl
      · rw [entries_mapUniqueByDay hm] at hold
        obtain ⟨x, -, rfl⟩ := List.mem_map.mp hold
        rfl
    have hvalues : ∀ x, x ∈ sortDays host days.values ↔
        x = day.audited t ∨ (x ∈ state.days ∧ x.dayUtc ≠ day.dayUtc) := by
      intro x
      rw [mem_sortDays, OrderedMap.mem_values]
      simp only [hdays, OrderedMap.mem_entries_set, entries_mapUniqueByDay hm, List.mem_map,
        Prod.mk.injEq]
      constructor
      · rintro ⟨d, ⟨rfl, rfl⟩ | ⟨⟨y, hy, rfl, rfl⟩, hne⟩⟩
        · exact Or.inl rfl
        · exact Or.inr ⟨hy, hne⟩
      · rintro (rfl | ⟨hx, hne⟩)
        · exact ⟨day.dayUtc, Or.inl ⟨rfl, rfl⟩⟩
        · exact ⟨x.dayUtc, Or.inr ⟨⟨x, hx, rfl, rfl⟩, hne⟩⟩
    have hnodup : (days.values.map AuditDay.dayUtc).Nodup := by
      have hsame : days.values.map AuditDay.dayUtc = days.keys := by
        rw [OrderedMap.values, List.map_map]
        exact List.map_congr_left hkeyed
      rw [hsame]
      exact days.nodup_keys
    refine ⟨⟨state.year, state.month, sortDays host days.values⟩, ?_,
      ⟨hok.year, hok.month, nodup_sortDays.mpr hnodup, fun x hx ↦ ?_⟩, fun x ↦ ?_⟩
    · change (validateObservationPruneAuditMonthState host _ (monthKey day.dayUtc).1
        (monthKey day.dayUtc).2 >>= _) = _
      simp only [hstate, Except.ok_bind, Bool.not_true, Bool.or_self, Bool.false_eq_true, if_false,
        hm, normalizeManifestHash_hash hhost, normalizeUtcTimestamp_toISOString hhost]
      rfl
    · rcases (hvalues x).mp hx with rfl | ⟨hold, -⟩
      · rfl
      · exact hok.days x hold
    · simp only [hvalues, hmem, true_and, true_implies]

/-- **Recording an outcome** changes the checkpoint of the audited day if that was a success, and
nothing else. -/
theorem exists_recordOutcome {ρ : Type} {store : Store} (h : store.WellFormed) (day : EligibleDay ρ)
    (successful : Bool) (t : TimeValue) :
    ∃ store', recordOutcome host store day successful (toISOString t) = .ok store' ∧
      store'.WellFormed ∧ ∀ d, store'.checkpoint? d =
        if successful = true ∧ d = day.dayUtc then some (day.audited t)
        else store.checkpoint? d := by
  obtain ⟨written, hwritten, hok, hdays⟩ := exists_written hhost h day successful t
  have hwell : Store.WellFormed (store.set (monthKey day.dayUtc) written) := by
    intro p hp
    rcases OrderedMap.mem_entries_set.mp hp with rfl | ⟨hold, -⟩
    · exact hok
    · exact h p hold
  refine ⟨store.set (monthKey day.dayUtc) written, ?_, hwell, fun d ↦ ?_⟩
  · rw [recordOutcome, hwritten]
    rfl
  · ext x
    rw [checkpoint?_eq_some_iff hwell, mem_checkpoints hwell]
    split
    · rename_i hsame
      obtain ⟨hsuccess, rfl⟩ := hsame
      constructor
      · rintro ⟨⟨state, hget, hx⟩, hday⟩
        rw [hday, OrderedMap.get?_set_self, Option.some.injEq] at hget
        rw [← hget, hdays] at hx
        rcases hx with ⟨-, hnew⟩ | ⟨-, hne⟩
        · exact congrArg some hnew.symm
        · exact absurd hday (hne hsuccess)
      · intro hnew
        rw [← Option.some.inj hnew]
        exact ⟨⟨written, OrderedMap.get?_set_self _ _ _, (hdays _).mpr (Or.inl ⟨hsuccess, rfl⟩)⟩, rfl⟩
    · rename_i hother
      rw [checkpoint?_eq_some_iff h, mem_checkpoints h]
      refine and_congr_left fun hday ↦ ?_
      rw [OrderedMap.get?_set]
      split
      · rename_i hkey
        have hnew : ∀ hsuccess : successful = true, x.dayUtc ≠ day.dayUtc := fun hsuccess heq ↦
          hother ⟨hsuccess, hday.symm.trans heq⟩
        have hnotNew : ¬(successful = true ∧ x = day.audited t) := fun heq ↦
          hnew heq.1 (congrArg AuditDay.dayUtc heq.2)
        simp only [Option.some.injEq, exists_eq_left', hdays, hnotNew, false_or, hkey]
        exact and_iff_left hnew
      · exact Iff.rfl

end Lawful

end UkAqOps.PruneAudit

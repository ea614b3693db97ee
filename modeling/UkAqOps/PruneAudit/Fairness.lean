import Mathlib.Data.Int.ConditionallyCompleteOrder
import Mathlib.Order.ConditionallyCompleteLattice.Basic
import UkAqOps.Lib.Rotation
import UkAqOps.PruneAudit.Store
import Mathlib.Data.Finset.Dedup

/-!
# Who is audited when

The eligible days are the same in every run of an unchanging inventory; only their checkpoints move.
So the runs rotate through these days in batches: a success puts a day behind all others, a failure
leaves it where it was. With fewer failures than places in each run, no day waits for long; days that
always fail stay at the head, and enough of them fill every batch.
-/

namespace UkAqOps.PruneAudit

open Rotation

section Prepared

variable {host : Host} {ρ : Type} {population : Population ρ}

/-- What the selection makes of the population, whatever the checkpoints are. -/
structure Prepared (host : Host) (population : Population ρ) (limit : ℕ)
    (currentDays : List (CurrentDay ρ)) (acceptedByDay : OrderedMap DayUtc (DayUtc × ManifestHash)) :
    Prop where
  limit : requirePositiveInteger population.maxDays "force-prune max days per run" = .ok limit
  current : population.inventoryDays.mapM (normalizeInventoryDay host) = .ok currentDays
  unique : ∃ m, mapUniqueByDay CurrentDay.dayUtc "Prune-audit inventory" currentDays = .ok m
  accepted : ∃ acceptedDays, population.acceptedCopyDays.mapM (normalizeAcceptedDay host) =
      .ok acceptedDays ∧
    mapUniqueByDay Prod.fst "Accepted observation copy state" acceptedDays = .ok acceptedByDay

/-- The days of the inventory that were copied as they are. -/
def acceptedCurrentDays (currentDays : List (CurrentDay ρ))
    (acceptedByDay : OrderedMap DayUtc (DayUtc × ManifestHash)) : List (CurrentDay ρ) :=
  currentDays.filter (isAccepted acceptedByDay)

/-- The eligible days of a store, in the order in which they are audited. -/
def queueOf (host : Host) (days : List (CurrentDay ρ)) (store : Store) : List (EligibleDay ρ) :=
  Sorting.sortBy (compareEligible host) (days.map (withCheckpoint store.checkpoint?))

/-- A selection that succeeds has read a population that can be read. -/
theorem exists_prepared {store : Store} {selection : Selection ρ}
    (h : selectBatch host population store = .ok selection) :
    ∃ limit currentDays acceptedByDay, Prepared host population limit currentDays acceptedByDay := by
  rw [selectBatch, selectObservationPruneAuditBatch] at h
  obtain ⟨limit, hlimit, h⟩ := Except.bind_eq_ok_iff.mp h
  obtain ⟨currentDays, hcurrent, h⟩ := Except.bind_eq_ok_iff.mp h
  obtain ⟨m, hm, h⟩ := Except.bind_eq_ok_iff.mp h
  obtain ⟨acceptedDays, haccepted, h⟩ := Except.bind_eq_ok_iff.mp h
  obtain ⟨acceptedByDay, hbyDay, -⟩ := Except.bind_eq_ok_iff.mp h
  exact ⟨limit, currentDays, acceptedByDay, hlimit, hcurrent, ⟨m, hm⟩, acceptedDays, haccepted,
    hbyDay⟩

/-- The selection from a store takes the first days of its queue. -/
theorem exists_selection (hhost : host.Lawful) {store : Store} (hstore : store.WellFormed)
    {limit : ℕ} {currentDays : List (CurrentDay ρ)}
    {acceptedByDay : OrderedMap DayUtc (DayUtc × ManifestHash)}
    (h : Prepared host population limit currentDays acceptedByDay) :
    ∃ selection, selectBatch host population store = .ok selection ∧
      selection.selectedDays =
        (queueOf host (acceptedCurrentDays currentDays acceptedByDay) store).take limit ∧
      selection.eligibleDaysCount = (acceptedCurrentDays currentDays acceptedByDay).length := by
  obtain ⟨m, hm⟩ := h.unique
  obtain ⟨acceptedDays, haccepted, hbyDay⟩ := h.accepted
  obtain ⟨haudit, auditByDay, hauditByDay, hlookup⟩ :=
    exists_auditByDay hhost hstore "Observation prune-audit checkpoints"
  have hcheckpoint : auditByDay.get? = store.checkpoint? := funext hlookup
  have hnone : ([] : List String).mapM normalizeDayUtc = .ok [] := rfl
  rw [selectBatch, selectObservationPruneAuditBatch, h.limit]
  simp only [Except.ok_bind, h.current, hm, haccepted, hbyDay, haudit, hauditByDay, hnone,
    hcheckpoint]
  refine ⟨_, rfl, ?_, ?_⟩
  · simp only [List.not_mem_nil, not_false_eq_true, decide_true, List.filter_true]
    rfl
  · rw [(Sorting.sortBy_perm _).length_eq, List.length_map]
    rfl

end Prepared

/-! ## The queue -/

/-- The stamp that a checkpoint is. -/
def asStamp : Option TimeValue → WithBot ℤ
  | none => ⊥
  | some t => (t.val : ℤ)

section Queue

variable {host : Host} {ρ : Type}

/-- What a day is sorted by. -/
def sortKey (day : EligibleDay ρ) : WithBot ℤ ×ₗ ℤ :=
  toLex (asStamp day.lastSuccessfulAuditAt, day.dayUtc.number)

/-- The checkpoint of the day is from a year of four digits. -/
def PlainAudit (day : EligibleDay ρ) : Prop :=
  ∀ t ∈ day.lastSuccessfulAuditAt, PlainYear (t.val / dayMs)

theorem localeCompare_dayUtc (hhost : host.Lawful) (d d' : DayUtc) :
    host.localeCompare d.val.toList d'.val.toList = compare d.number d'.number := by
  rw [d.toList_val, d'.toList_val]
  exact hhost.localeCompare_days _ _ d.isoDay_number.2 d'.isoDay_number.2

theorem isLE_compareEligible (hhost : host.Lawful) {left right : EligibleDay ρ}
    (hleft : PlainAudit left) (hright : PlainAudit right) :
    (compareEligible host left right).isLE = (compare (sortKey left) (sortKey right)).isLE := by
  rw [Bool.eq_iff_iff, Sorting.isLE_compare_iff, sortKey, sortKey, Prod.Lex.toLex_le_toLex,
    compareEligible, localeCompare_dayUtc hhost]
  rcases hl : left.lastSuccessfulAuditAt with _ | s <;>
    rcases hr : right.lastSuccessfulAuditAt with _ | t
  · simp only [asStamp, lt_self_iff_false, true_and, false_or, Sorting.isLE_compare_iff]
  · simp [asStamp]
  · simp [asStamp]
  · have htimes := hhost.localeCompare_times s t (hleft s hl) (hright t hr)
    simp only [asStamp, WithBot.coe_lt_coe, WithBot.coe_inj, htimes]
    rcases lt_trichotomy s.val t.val with hlt | heq | hgt
    · simp [compare_lt_iff_lt.mpr hlt, hlt]
    · rw [compare_eq_iff_eq.mpr heq, Ordering.eq_then, Sorting.isLE_compare_iff]
      simp [heq]
    · simp [compare_gt_iff_gt.mpr hgt, hgt.ne', hgt.asymm]

/-- The stamp of a day, by its number. -/
def stampOf (days : List (CurrentDay ρ)) (store : Store) (n : ℤ) : WithBot ℤ :=
  asStamp ((days.find? (·.dayUtc.number = n)).bind fun day ↦
    lastAudit store.checkpoint? day.dayUtc day.manifestHash)

theorem find?_number {days : List (CurrentDay ρ)} (hnodup : (days.map CurrentDay.dayUtc).Nodup)
    {day : CurrentDay ρ} (hday : day ∈ days) :
    days.find? (·.dayUtc.number = day.dayUtc.number) = some day := by
  rcases hres : days.find? (·.dayUtc.number = day.dayUtc.number) with _ | found
  · have hnone := List.find?_eq_none.mp hres day hday
    exact absurd (decide_eq_true rfl) hnone
  · have hsame : found.dayUtc = day.dayUtc :=
      DayUtc.number_injective (by simpa using List.find?_some hres)
    exact hres.trans (congrArg some
      (List.inj_on_of_nodup_map hnodup (List.mem_of_find?_eq_some hres) hday hsame))

theorem stampOf_number {days : List (CurrentDay ρ)} (hnodup : (days.map CurrentDay.dayUtc).Nodup)
    {day : CurrentDay ρ} (hday : day ∈ days) (store : Store) :
    stampOf days store day.dayUtc.number =
      asStamp (lastAudit store.checkpoint? day.dayUtc day.manifestHash) := by
  rw [stampOf, find?_number hnodup hday, Option.bind_some]

/-- The numbers of the days. -/
def numbers (days : List (CurrentDay ρ)) : Finset ℤ := (days.map (·.dayUtc.number)).toFinset

theorem mem_numbers {days : List (CurrentDay ρ)} {n : ℤ} :
    n ∈ numbers days ↔ ∃ day ∈ days, day.dayUtc.number = n := by
  rw [numbers, List.mem_toFinset, List.mem_map]

theorem nodup_numbers {days : List (CurrentDay ρ)} (hnodup : (days.map CurrentDay.dayUtc).Nodup) :
    (days.map (·.dayUtc.number)).Nodup := by
  have hmap := hnodup.map DayUtc.number_injective
  rwa [List.map_map] at hmap

theorem card_numbers {days : List (CurrentDay ρ)} (hnodup : (days.map CurrentDay.dayUtc).Nodup) :
    (numbers days).card = days.length := by
  rw [numbers, List.toFinset_card_of_nodup (nodup_numbers hnodup), List.length_map]

/-- The checkpoints of the days are from years of four digits. -/
def PlainAudits (days : List (CurrentDay ρ)) (store : Store) : Prop :=
  ∀ day ∈ days, PlainAudit (withCheckpoint store.checkpoint? day)

theorem mem_queueOf {days : List (CurrentDay ρ)} {store : Store} {day : EligibleDay ρ} :
    day ∈ queueOf host days store ↔ ∃ current ∈ days,
      withCheckpoint store.checkpoint? current = day := by
  rw [queueOf, Sorting.mem_sortBy, List.mem_map]

/-- **The queue of the code is that of the rotation.** -/
theorem isQueue_queueOf (hhost : host.Lawful) {days : List (CurrentDay ρ)}
    (hnodup : (days.map CurrentDay.dayUtc).Nodup) {store : Store} (hplain : PlainAudits days store) :
    IsQueue (numbers days) (stampOf days store)
      ((queueOf host days store).map (·.dayUtc.number)) where
  sorted := by
    have hqueue : queueOf host days store =
        Sorting.sortBy (fun left right ↦ compare (sortKey left) (sortKey right))
          (days.map (withCheckpoint store.checkpoint?)) := by
      refine Sorting.sortBy_congr fun left hleft right hright ↦ ?_
      obtain ⟨a, ha, rfl⟩ := List.mem_map.mp hleft
      obtain ⟨b, hb, rfl⟩ := List.mem_map.mp hright
      exact isLE_compareEligible hhost (hplain a ha) (hplain b hb)
    have htrans : Std.TransCmp fun left right : EligibleDay ρ ↦
        compare (sortKey left) (sortKey right) :=
      Sorting.transCmp_on (inferInstanceAs (Std.TransCmp
        (compare : WithBot ℤ ×ₗ ℤ → WithBot ℤ ×ₗ ℤ → Ordering))) sortKey
    have hsorted := @Sorting.pairwise_sortBy _ (fun left right : EligibleDay ρ ↦
      compare (sortKey left) (sortKey right)) htrans (days.map (withCheckpoint store.checkpoint?))
    rw [← hqueue] at hsorted
    have hdistinct : ((queueOf host days store).map (·.dayUtc.number)).Nodup := by
      refine ((Sorting.sortBy_perm _).map _).nodup_iff.mpr ?_
      rw [List.map_map]
      exact nodup_numbers hnodup
    have hkey : ∀ day ∈ queueOf host days store,
        turn (stampOf days store) day.dayUtc.number = sortKey day := by
      intro day hday
      obtain ⟨current, hcurrent, rfl⟩ := mem_queueOf.mp hday
      exact congrArg (fun stamp ↦ toLex (stamp, _)) (stampOf_number hnodup hcurrent store)
    rw [List.pairwise_map]
    refine (hsorted.and (List.pairwise_map.mp hdistinct)).imp_of_mem fun {a b} ha hb hab ↦ ?_
    rw [hkey a ha, hkey b hb]
    refine lt_of_le_of_ne (Sorting.isLE_compare_iff.mp hab.1) fun heq ↦ hab.2 ?_
    exact congrArg Prod.snd (toLex.injective heq)
  mem_iff := by
    intro n
    rw [mem_numbers, List.mem_map]
    constructor
    · rintro ⟨day, hday, rfl⟩
      obtain ⟨current, hcurrent, rfl⟩ := mem_queueOf.mp hday
      exact ⟨current, hcurrent, rfl⟩
    · rintro ⟨current, hcurrent, rfl⟩
      exact ⟨_, mem_queueOf.mpr ⟨current, hcurrent, rfl⟩, rfl⟩

end Queue

/-! ## A run -/

section Run

variable {host : Host} {ρ : Type}

/-- The outcomes of a batch are recorded one after the other. -/
theorem exists_recorded (hhost : host.Lawful) (succeeds : DayUtc → Bool) (clock : ℕ → TimeValue)
    (batch : List (EligibleDay ρ × ℕ)) {store : Store} (hstore : store.WellFormed)
    (hnodup : (batch.map (·.1.dayUtc)).Nodup) :
    ∃ store', batch.foldlM (fun store (day, i) ↦
        recordOutcome host store day (succeeds day.dayUtc) (toISOString (clock i))) store =
          .ok store' ∧ store'.WellFormed ∧
      (∀ p ∈ batch, succeeds p.1.dayUtc = true →
        store'.checkpoint? p.1.dayUtc = some (p.1.audited (clock p.2))) ∧
      ∀ d, (∀ p ∈ batch, succeeds p.1.dayUtc = true → p.1.dayUtc ≠ d) →
        store'.checkpoint? d = store.checkpoint? d := by
  induction batch generalizing store with
  | nil => exact ⟨store, rfl, hstore, by simp, fun _ _ ↦ rfl⟩
  | cons head batch ih =>
    obtain ⟨day, i⟩ := head
    rw [List.map_cons, List.nodup_cons] at hnodup
    obtain ⟨next, hnext, hwell, hone⟩ :=
      exists_recordOutcome hhost hstore day (succeeds day.dayUtc) (clock i)
    obtain ⟨store', hrest, hwell', hstamped, hkept⟩ := ih hwell hnodup.2
    refine ⟨store', ?_, hwell', ?_, fun d hd ↦ ?_⟩
    · rw [List.foldlM_cons]
      exact Except.bind_eq_ok_iff.mpr ⟨next, hnext, hrest⟩
    · refine List.forall_mem_cons.mpr ⟨fun hsuccess ↦ ?_, hstamped⟩
      rw [hkept day.dayUtc fun p hp _ heq ↦ hnodup.1 (List.mem_map.mpr ⟨p, hp, heq⟩), hone,
        if_pos ⟨hsuccess, rfl⟩]
    · obtain ⟨hhead, htail⟩ := List.forall_mem_cons.mp hd
      rw [hkept d htail, hone, if_neg fun h ↦ hhead h.1 h.2.symm]

/-- The stamps of a store are from years of four digits and older than the times to come. -/
def StampedBefore (days : List (CurrentDay ρ)) (store : Store) (toCome : ℤ → Prop) : Prop :=
  ∀ day ∈ days, ∀ t ∈ lastAudit store.checkpoint? day.dayUtc day.manifestHash,
    PlainYear (t.val / dayMs) ∧ ∀ s, toCome s → t.val < s

theorem plainAudits_of_stampedBefore {days : List (CurrentDay ρ)} {store : Store}
    {toCome : ℤ → Prop} (h : StampedBefore days store toCome) : PlainAudits days store :=
  fun day hday t ht ↦ (h day hday t ht).1

theorem stampOf_lt {days : List (CurrentDay ρ)} (hnodup : (days.map CurrentDay.dayUtc).Nodup)
    {store : Store} {toCome : ℤ → Prop} (h : StampedBefore days store toCome) {n : ℤ}
    (hn : n ∈ numbers days) {t : ℤ} (ht : toCome t) : stampOf days store n < (t : WithBot ℤ) := by
  obtain ⟨day, hday, rfl⟩ := mem_numbers.mp hn
  rw [stampOf_number hnodup hday]
  rcases haudit : lastAudit store.checkpoint? day.dayUtc day.manifestHash with _ | last
  · exact WithBot.bot_lt_coe t
  · exact WithBot.coe_lt_coe.mpr ((h day hday last haudit).2 t ht)

/-- The days of a batch whose audit fails. -/
def failedDays (succeeds : DayUtc → Bool) (batch : List (EligibleDay ρ)) : List (EligibleDay ρ) :=
  batch.filter fun day ↦ !succeeds day.dayUtc

/-- The numbers of the days whose audit fails. -/
def failedNumbers (succeeds : DayUtc → Bool) (batch : List (EligibleDay ρ)) : Finset ℤ :=
  ((failedDays succeeds batch).map (·.dayUtc.number)).toFinset

theorem mem_failedNumbers {succeeds : DayUtc → Bool} {batch : List (EligibleDay ρ)} {d : DayUtc} :
    d.number ∈ failedNumbers succeeds batch ↔
      (∃ day ∈ batch, day.dayUtc = d) ∧ succeeds d = false := by
  simp only [failedNumbers, failedDays, List.mem_toFinset, List.mem_map, List.mem_filter,
    Bool.not_eq_true']
  constructor
  · rintro ⟨day, ⟨hday, hfails⟩, hnumber⟩
    obtain rfl := DayUtc.number_injective hnumber
    exact ⟨⟨day, hday, rfl⟩, hfails⟩
  · rintro ⟨⟨day, hday, rfl⟩, hfails⟩
    exact ⟨day, ⟨hday, hfails⟩, rfl⟩

theorem nodup_acceptedCurrentDays {population : Population ρ} {limit : ℕ}
    {currentDays : List (CurrentDay ρ)} {acceptedByDay : OrderedMap DayUtc (DayUtc × ManifestHash)}
    (h : Prepared host population limit currentDays acceptedByDay) :
    ((acceptedCurrentDays currentDays acceptedByDay).map CurrentDay.dayUtc).Nodup := by
  obtain ⟨m, hm⟩ := h.unique
  exact (nodup_of_mapUniqueByDay hm).sublist (List.filter_sublist.map _)

/-- The checkpoints of the eligible days after the outcomes of a batch were recorded. -/
theorem exists_recorded_batch (hhost : host.Lawful) {days : List (CurrentDay ρ)}
    (hnodup : (days.map CurrentDay.dayUtc).Nodup) (succeeds : DayUtc → Bool) (clock : ℕ → TimeValue)
    (limit : ℕ) {store : Store} (hstore : store.WellFormed) :
    ∃ store', ((queueOf host days store).take limit).zipIdx.foldlM (fun store (day, i) ↦
        recordOutcome host store day (succeeds day.dayUtc) (toISOString (clock i))) store =
          .ok store' ∧ store'.WellFormed ∧ ∀ current ∈ days,
      ((∃ day ∈ (queueOf host days store).take limit, day.dayUtc = current.dayUtc) ∧
          succeeds current.dayUtc = true → ∃ i < limit,
        lastAudit store'.checkpoint? current.dayUtc current.manifestHash = some (clock i)) ∧
      (¬((∃ day ∈ (queueOf host days store).take limit, day.dayUtc = current.dayUtc) ∧
          succeeds current.dayUtc = true) →
        lastAudit store'.checkpoint? current.dayUtc current.manifestHash =
          lastAudit store.checkpoint? current.dayUtc current.manifestHash) := by
  set batch := (queueOf host days store).take limit with hbatch
  have hfst := List.zipIdx_map_fst 0 batch
  have hdistinct : (batch.zipIdx.map (·.1.dayUtc)).Nodup := by
    have hqueue : ((queueOf host days store).map (·.dayUtc)).Nodup := by
      refine ((Sorting.sortBy_perm _).map _).nodup_iff.mpr ?_
      rwa [List.map_map]
    have hmap : batch.zipIdx.map (·.1.dayUtc) = batch.map (·.dayUtc) := by
      conv_rhs => rw [← hfst, List.map_map]
      rfl
    rw [hmap]
    exact hqueue.sublist ((List.take_sublist _ _).map _)
  obtain ⟨store', hfold, hwell, hstamped, hkept⟩ :=
    exists_recorded hhost succeeds clock batch.zipIdx hstore hdistinct
  refine ⟨store', hfold, hwell, fun current hcurrent ↦ ⟨?_, fun hnot ↦ ?_⟩⟩
  · rintro ⟨⟨day, hday, hsame⟩, hsuccess⟩
    obtain ⟨p, hp, rfl⟩ := List.mem_map.mp (hfst.symm ▸ hday)
    obtain ⟨origin, horigin, heq⟩ := mem_queueOf.mp (List.mem_of_mem_take hday)
    have hcheckpoint := hstamped p hp (hsame ▸ hsuccess)
    have hday' : origin = current := by
      refine List.inj_on_of_nodup_map hnodup horigin hcurrent ?_
      rw [← hsame, ← heq]
      rfl
    have hhash : p.1.manifestHash = current.manifestHash := by
      rw [← heq, hday']
      rfl
    have hindex : p.2 < limit :=
      (List.snd_lt_of_mem_zipIdx hp).trans_le (List.length_take_le _ _)
    refine ⟨p.2, hindex, ?_⟩
    rw [← hsame, ← hhash, lastAudit, hcheckpoint]
    simp [EligibleDay.audited]
  · rw [lastAudit, lastAudit, hkept current.dayUtc]
    intro p hp hsuccess hsame
    exact hnot ⟨⟨p.1, hfst ▸ List.mem_map_of_mem hp, hsame⟩, hsame ▸ hsuccess⟩

/-- What a run of the recheck does. -/
theorem exists_auditRun (hhost : host.Lawful) {population : Population ρ} {limit : ℕ}
    {currentDays : List (CurrentDay ρ)}
    {acceptedByDay : OrderedMap DayUtc (DayUtc × ManifestHash)}
    (hprepared : Prepared host population limit currentDays acceptedByDay)
    (succeeds : DayUtc → Bool) {clock : ℕ → TimeValue} {store : Store} (hstore : store.WellFormed)
    {days : List (CurrentDay ρ)} (hdays : days = acceptedCurrentDays currentDays acceptedByDay)
    {toCome toCome' : ℤ → Prop} (hstamps : StampedBefore days store toCome)
    (hclock : ∀ i < limit, PlainYear ((clock i).val / dayMs) ∧ toCome (clock i).val ∧
      ∀ s, toCome' s → (clock i).val < s) (hlater : ∀ s, toCome' s → toCome s) :
    ∃ store', auditRun host population succeeds clock store =
        .ok ((queueOf host days store).take limit, store') ∧
      store'.WellFormed ∧ StampedBefore days store' toCome' ∧
      Round (numbers days) limit (stampOf days store) (stampOf days store')
        (((queueOf host days store).take limit).map (·.dayUtc.number))
        (failedNumbers succeeds ((queueOf host days store).take limit)) := by
  have hnodup : (days.map CurrentDay.dayUtc).Nodup := hdays ▸ nodup_acceptedCurrentDays hprepared
  obtain ⟨selection, hselect, hbatch, -⟩ := exists_selection hhost hstore hprepared
  rw [← hdays] at hbatch
  obtain ⟨store', hfold, hwell, hrecorded⟩ :=
    exists_recorded_batch hhost hnodup succeeds clock limit hstore
  refine ⟨store', ?_, hwell, fun day hday t ht ↦ ?_, ⟨⟨_, isQueue_queueOf hhost hnodup
    (plainAudits_of_stampedBefore hstamps), List.map_take⟩, fun n hn hfailed m hm ↦ ?_,
    fun n hn ↦ ?_⟩⟩
  · rw [auditRun, hselect, Except.ok_bind, hbatch, hfold]
    rfl
  · obtain ⟨hsucceeded, hkept⟩ := hrecorded day hday
    by_cases hsuccess : (∃ d ∈ (queueOf host days store).take limit, d.dayUtc = day.dayUtc) ∧
        succeeds day.dayUtc = true
    · obtain ⟨i, hlimit, hi⟩ := hsucceeded hsuccess
      rw [hi] at ht
      rw [← Option.some.inj ht]
      exact ⟨(hclock i hlimit).1, (hclock i hlimit).2.2⟩
    · rw [hkept hsuccess] at ht
      obtain ⟨hplain, hlt⟩ := hstamps day hday t ht
      exact ⟨hplain, fun s hs ↦ hlt s (hlater s hs)⟩
  · -- whoever succeeds is stamped with the time of the run
    obtain ⟨day, hday, rfl⟩ := List.mem_map.mp hn
    obtain ⟨current, hcurrent, heq⟩ := mem_queueOf.mp (List.mem_of_mem_take hday)
    have hsame : day.dayUtc = current.dayUtc := by
      rw [← heq]
      rfl
    have hsuccess : succeeds current.dayUtc = true := by
      by_contra hfails
      exact hfailed (hsame ▸ mem_failedNumbers.mpr
        ⟨⟨day, hday, hsame⟩, Bool.eq_false_of_not_eq_true hfails⟩)
    obtain ⟨i, hlimit, hi⟩ := (hrecorded current hcurrent).1 ⟨⟨day, hday, hsame⟩, hsuccess⟩
    rw [hsame, stampOf_number hnodup hcurrent, hi]
    exact stampOf_lt hnodup hstamps hm (hclock i hlimit).2.1
  · by_cases hmem : n ∈ numbers days
    · obtain ⟨current, hcurrent, rfl⟩ := mem_numbers.mp hmem
      rw [stampOf_number hnodup hcurrent, stampOf_number hnodup hcurrent,
        (hrecorded current hcurrent).2]
      rintro ⟨⟨day, hday, hsame⟩, hsuccess⟩
      rcases hn with hnot | hfailed
      · exact hnot (List.mem_map.mpr ⟨day, hday, congrArg DayUtc.number hsame⟩)
      · rw [(mem_failedNumbers.mp hfailed).2] at hsuccess
        exact Bool.false_ne_true hsuccess
    · have hnone : days.find? (·.dayUtc.number = n) = none := by
        refine List.find?_eq_none.mpr fun day hday heq ↦ hmem ?_
        exact mem_numbers.mpr ⟨day, hday, by simpa using heq⟩
      rw [stampOf, stampOf, hnone]
      rfl

end Run

/-! ## Runs -/

section Runs

variable {ρ : Type}

/-- A day of the inventory was copied with this content. -/
def IsEligible (host : Host) (population : Population ρ) (d : DayUtc) (hash : ManifestHash) : Prop :=
  (∃ entry ∈ population.inventoryDays, ∃ current, normalizeInventoryDay host entry = .ok current ∧
      current.dayUtc = d ∧ current.manifestHash = hash) ∧
    ∃ accepted ∈ population.acceptedCopyDays, normalizeAcceptedDay host accepted = .ok (d, hash)

/-- The times of the audits increase from one audit to the next, within years of four digits. -/
structure Increasing (clock : ℕ → ℕ → TimeValue) (runs limit : ℕ) : Prop where
  plain : ∀ run < runs, ∀ i < limit, PlainYear ((clock run i).val / dayMs)
  later : ∀ run < runs, ∀ i < limit, ∀ run' < runs, ∀ i' < limit,
    run < run' ∨ (run = run' ∧ i < i') → (clock run i).val < (clock run' i').val

/-- The checkpoints of a store are from before the runs. -/
def RecordedBefore (store : Store) (clock : ℕ → ℕ → TimeValue) (runs limit : ℕ) : Prop :=
  ∀ d, ∀ day ∈ store.checkpoint? d, PlainYear (day.lastSuccessfulAuditAt.val / dayMs) ∧
    ∀ run < runs, ∀ i < limit, day.lastSuccessfulAuditAt.val < (clock run i).val

/-- The runs rotate through the eligible days. -/
structure Rotates (host : Host) (population : Population ρ) (succeeds : ℕ → DayUtc → Bool)
    (eligible runs : ℕ) (stores : ℕ → Store) (batches : ℕ → List (EligibleDay ρ)) : Prop where
  /-- A day that was never audited goes before one that was, and an older audit before a newer one. -/
  order : ∀ run < runs, ∀ a b hash hash', IsEligible host population a hash →
    IsEligible host population b hash' →
    asStamp (lastAudit (stores run).checkpoint? a hash) <
      asStamp (lastAudit (stores run).checkpoint? b hash') →
    b ∈ (batches run).map (·.dayUtc) → [a, b].Sublist ((batches run).map (·.dayUtc))
  /-- Where all audits succeed, every day has its turn in as many runs as it takes for all. -/
  successful : (∀ run d, succeeds run d = true) → ∀ first,
    first + (eligible + population.maxDays.toNat - 1) / population.maxDays.toNat ≤ runs →
    ∀ d hash, IsEligible host population d hash → ∃ run, first ≤ run ∧
      run < first + (eligible + population.maxDays.toNat - 1) / population.maxDays.toNat ∧
        d ∈ (batches run).map (·.dayUtc)
  /-- Failures take their places away from the others, as long as there are fewer of them. -/
  failing : ∀ first rounds failures, 0 < rounds → first + rounds ≤ runs →
    failures < population.maxDays.toNat →
    eligible ≤ rounds * (population.maxDays.toNat - failures) + failures →
    (∀ run, first ≤ run → run < first + rounds →
      (failedDays (succeeds run) (batches run)).length ≤ failures) →
    ∀ d hash, IsEligible host population d hash → ∃ run, first ≤ run ∧ run < first + rounds ∧
      d ∈ (batches run).map (·.dayUtc)

variable {host : Host}

theorem isEligible_iff {population : Population ρ} {limit : ℕ} {currentDays : List (CurrentDay ρ)}
    {acceptedByDay : OrderedMap DayUtc (DayUtc × ManifestHash)}
    (h : Prepared host population limit currentDays acceptedByDay) {d : DayUtc}
    {hash : ManifestHash} : IsEligible host population d hash ↔
      ∃ day ∈ acceptedCurrentDays currentDays acceptedByDay, day.dayUtc = d ∧
        day.manifestHash = hash := by
  obtain ⟨acceptedDays, haccepted, hbyDay⟩ := h.accepted
  have hcurrent : (∃ entry ∈ population.inventoryDays, ∃ current,
      normalizeInventoryDay host entry = .ok current ∧ current.dayUtc = d ∧
        current.manifestHash = hash) ↔
      ∃ current ∈ currentDays, current.dayUtc = d ∧ current.manifestHash = hash := by
    simp only [Except.mem_iff_of_mapM h.current]
    constructor
    · rintro ⟨entry, hentry, current, hok, hsame⟩
      exact ⟨current, ⟨entry, hentry, hok⟩, hsame⟩
    · rintro ⟨current, ⟨entry, hentry, hok⟩, hsame⟩
      exact ⟨entry, hentry, current, hok, hsame⟩
  have haccepts : (∃ accepted ∈ population.acceptedCopyDays,
      normalizeAcceptedDay host accepted = .ok (d, hash)) ↔
      (acceptedByDay.get? d).map Prod.snd = some hash := by
    rw [← Except.mem_iff_of_mapM haccepted, Option.map_eq_some_iff]
    constructor
    · intro hmem
      exact ⟨(d, hash), (get?_mapUniqueByDay hbyDay).mpr ⟨hmem, rfl⟩, rfl⟩
    · rintro ⟨⟨d', hash'⟩, hget, rfl⟩
      obtain ⟨hmem, rfl⟩ := (get?_mapUniqueByDay hbyDay).mp hget
      exact hmem
  rw [IsEligible, hcurrent, haccepts]
  simp only [acceptedCurrentDays, List.mem_filter, isAccepted, decide_eq_true_iff]
  constructor
  · rintro ⟨⟨current, hmem, rfl, rfl⟩, hget⟩
    exact ⟨current, ⟨hmem, hget⟩, rfl, rfl⟩
  · rintro ⟨current, ⟨hmem, hget⟩, rfl, rfl⟩
    exact ⟨⟨current, hmem, rfl, rfl⟩, hget⟩

/-- The times of the audits from a run on. -/
def ToCome (clock : ℕ → ℕ → TimeValue) (runs limit run : ℕ) (s : ℤ) : Prop :=
  ∃ run' i, run ≤ run' ∧ run' < runs ∧ i < limit ∧ s = (clock run' i).val

theorem requirePositiveInteger_eq_ok {value : ℤ} {label : String} {limit : ℕ}
    (h : requirePositiveInteger value label = .ok limit) : limit = value.toNat ∧ 0 < limit := by
  rw [requirePositiveInteger] at h
  split at h
  · rename_i hpositive
    rw [isPositiveSafeInteger, Bool.and_eq_true, decide_eq_true_iff] at hpositive
    rw [← Except.ok.inj h]
    exact ⟨rfl, by omega⟩
  · cases h

/-- The store before each run, and what the run does. -/
theorem exists_runs (hhost : host.Lawful) {population : Population ρ} {limit : ℕ}
    {currentDays : List (CurrentDay ρ)}
    {acceptedByDay : OrderedMap DayUtc (DayUtc × ManifestHash)}
    (hprepared : Prepared host population limit currentDays acceptedByDay)
    {days : List (CurrentDay ρ)} (hdays : days = acceptedCurrentDays currentDays acceptedByDay)
    (succeeds : ℕ → DayUtc → Bool) {clock : ℕ → ℕ → TimeValue} {runs : ℕ}
    (hclock : Increasing clock runs limit) {store : Store} (hstore : store.WellFormed)
    (hbefore : RecordedBefore store clock runs limit) : ∃ stores : ℕ → Store,
      (∀ run ≤ runs, storeBefore host population succeeds clock store run = .ok (stores run) ∧
        (stores run).WellFormed ∧ StampedBefore days (stores run) (ToCome clock runs limit run)) ∧
      ∀ run < runs, Round (numbers days) limit (stampOf days (stores run))
        (stampOf days (stores (run + 1)))
        (((queueOf host days (stores run)).take limit).map (·.dayUtc.number))
        (failedNumbers (succeeds run) ((queueOf host days (stores run)).take limit)) := by
  have hstep : ∀ run < runs, ∀ before : Store, before.WellFormed →
      StampedBefore days before (ToCome clock runs limit run) → ∃ after : Store,
        auditRun host population (succeeds run) (clock run) before =
          .ok ((queueOf host days before).take limit, after) ∧ after.WellFormed ∧
        StampedBefore days after (ToCome clock runs limit (run + 1)) ∧
        Round (numbers days) limit (stampOf days before) (stampOf days after)
          (((queueOf host days before).take limit).map (·.dayUtc.number))
          (failedNumbers (succeeds run) ((queueOf host days before).take limit)) := by
    intro run hrun before hwell hstamps
    refine exists_auditRun hhost hprepared (succeeds run) hwell hdays hstamps (fun i hi ↦
      ⟨hclock.plain run hrun i hi, ⟨run, i, le_rfl, hrun, hi, rfl⟩, ?_⟩) ?_
    · rintro s ⟨run', i', hlt, hrun', hi', rfl⟩
      exact hclock.later run hrun i hi run' hrun' i' hi' (Or.inl hlt)
    · rintro s ⟨run', i', hlt, hrest⟩
      exact ⟨run', i', Nat.le_of_succ_le hlt, hrest⟩
  have hruns : ∀ run ≤ runs, ∃ before : Store,
      storeBefore host population succeeds clock store run = .ok before ∧ before.WellFormed ∧
        StampedBefore days before (ToCome clock runs limit run) := by
    intro run
    induction run with
    | zero =>
      refine fun _ ↦ ⟨store, rfl, hstore, fun day _ t ht ↦ ?_⟩
      obtain ⟨audit, haudit, rfl⟩ := Option.map_eq_some_iff.mp ht
      obtain ⟨hplain, holder⟩ := hbefore _ audit (Option.filter_eq_some_iff.mp haudit).1
      refine ⟨hplain, ?_⟩
      rintro s ⟨run, i, -, hrun, hi, rfl⟩
      exact holder run hrun i hi
    | succ run ih =>
      intro hrun
      obtain ⟨before, hbefore, hwell, hstamps⟩ := ih (Nat.le_of_succ_le hrun)
      obtain ⟨after, hafter, hwell', hstamps', -⟩ := hstep run hrun before hwell hstamps
      refine ⟨after, ?_, hwell', hstamps'⟩
      rw [storeBefore, hbefore, Except.ok_bind, hafter]
      rfl
  have hstores : ∀ run (before : Store),
      storeBefore host population succeeds clock store run = .ok before →
        (storeBefore host population succeeds clock store run).toOption.getD store = before := by
    intro run before h
    rw [h]
    rfl
  refine ⟨fun run ↦ (storeBefore host population succeeds clock store run).toOption.getD store,
    fun run hrun ↦ ?_, fun run hrun ↦ ?_⟩
  · obtain ⟨before, hbefore, hrest⟩ := hruns run hrun
    simp only [hstores run before hbefore]
    exact ⟨hbefore, hrest⟩
  · obtain ⟨before, hbefore, hwell, hstamps⟩ := hruns run hrun.le
    obtain ⟨after, hafter, -, -, hround⟩ := hstep run hrun before hwell hstamps
    have hnext : storeBefore host population succeeds clock store (run + 1) = .ok after := by
      rw [storeBefore, hbefore, Except.ok_bind, hafter]
      rfl
    simp only [hstores run before hbefore, hstores (run + 1) after hnext]
    exact hround

/-- Whoever is older is taken first. -/
theorem sublist_of_older (hhost : host.Lawful) {days : List (CurrentDay ρ)}
    (hnodup : (days.map CurrentDay.dayUtc).Nodup) {store : Store} (hplain : PlainAudits days store)
    {limit : ℕ} {a b : CurrentDay ρ} (ha : a ∈ days) (hb : b ∈ days)
    (holder : asStamp (lastAudit store.checkpoint? a.dayUtc a.manifestHash) <
      asStamp (lastAudit store.checkpoint? b.dayUtc b.manifestHash))
    (htaken : b.dayUtc ∈ ((queueOf host days store).take limit).map (·.dayUtc)) :
    [a.dayUtc, b.dayUtc].Sublist (((queueOf host days store).take limit).map (·.dayUtc)) := by
  have hmap : ((queueOf host days store).map (·.dayUtc.number)).take limit =
      (((queueOf host days store).take limit).map (·.dayUtc)).map DayUtc.number := by
    rw [List.map_map, ← List.map_take]
    rfl
  have hlt : turn (stampOf days store) a.dayUtc.number < turn (stampOf days store) b.dayUtc.number :=
    turn_lt_of_stamp_lt (by
      rw [stampOf_number hnodup ha, stampOf_number hnodup hb]
      exact holder)
  have hsublist := (isQueue_queueOf hhost hnodup hplain).sublist_take
    (mem_numbers.mpr ⟨a, ha, rfl⟩) (hmap ▸ List.mem_map_of_mem htaken) hlt
  rw [hmap] at hsublist
  obtain ⟨l, hl, heq⟩ := List.sublist_map_iff.mp hsublist
  have hsame : l = [a.dayUtc, b.dayUtc] :=
    List.map_injective_iff.mpr DayUtc.number_injective heq.symm
  exact hsame ▸ hl

/-- **The audits rotate**: in every sequence of runs over an unchanging population, from any store
whose checkpoints are older than the runs. -/
theorem exists_rotates (hhost : host.Lawful) {population : Population ρ} {store : Store}
    (hstore : store.WellFormed) {selection : Selection ρ}
    (hselect : selectBatch host population store = .ok selection)
    (succeeds : ℕ → DayUtc → Bool) {clock : ℕ → ℕ → TimeValue} {runs : ℕ}
    (hclock : Increasing clock runs population.maxDays.toNat)
    (hbefore : RecordedBefore store clock runs population.maxDays.toNat) :
    ∃ stores batches, (∀ run < runs,
      storeBefore host population succeeds clock store run = .ok (stores run) ∧
        ∃ selection', selectBatch host population (stores run) = .ok selection' ∧
          selection'.selectedDays = batches run) ∧
      Rotates host population succeeds selection.eligibleDaysCount runs stores batches := by
  obtain ⟨limit, currentDays, acceptedByDay, hprepared⟩ := exists_prepared hselect
  obtain ⟨hlimit, hpos⟩ := requirePositiveInteger_eq_ok hprepared.limit
  rw [← hlimit] at hclock hbefore
  obtain ⟨days, hdays⟩ : ∃ days, days = acceptedCurrentDays currentDays acceptedByDay := ⟨_, rfl⟩
  have hnodup : (days.map CurrentDay.dayUtc).Nodup := hdays ▸ nodup_acceptedCurrentDays hprepared
  obtain ⟨stores, hstores, hrounds⟩ :=
    exists_runs hhost hprepared hdays succeeds hclock hstore hbefore
  have hcount : selection.eligibleDaysCount = (numbers days).card := by
    obtain ⟨selection', hselect', -, hcount⟩ := exists_selection hhost hstore hprepared
    rw [Except.ok.inj (hselect.symm.trans hselect'), hcount, card_numbers hnodup, hdays]
  have heligible : ∀ {d hash}, IsEligible host population d hash →
      ∃ day ∈ days, day.dayUtc = d ∧ day.manifestHash = hash := fun h ↦
    hdays ▸ (isEligible_iff hprepared).mp h
  have hfailing : ∀ first rounds failures, 0 < rounds → first + rounds ≤ runs → failures < limit →
      (numbers days).card ≤ rounds * (limit - failures) + failures →
      (∀ run, first ≤ run → run < first + rounds → (failedDays (succeeds run)
        ((queueOf host days (stores run)).take limit)).length ≤ failures) →
      ∀ d hash, IsEligible host population d hash → ∃ run, first ≤ run ∧ run < first + rounds ∧
        d ∈ ((queueOf host days (stores run)).take limit).map (·.dayUtc) := by
    intro first rounds failures hpositive hruns hfailures hbound hfailed d hash hd
    obtain ⟨day, hday, rfl, -⟩ := heligible hd
    obtain ⟨i, hi, hmem⟩ := @exists_mem_batch ℤ ℤ _ _ (numbers days) limit failures rounds
      (fun i ↦ stampOf days (stores (first + i)))
      (fun i ↦ ((queueOf host days (stores (first + i))).take limit).map (·.dayUtc.number))
      (fun i ↦ failedNumbers (succeeds (first + i))
        ((queueOf host days (stores (first + i))).take limit))
      (fun i hi ↦ hrounds (first + i) (by omega)) (fun i hi ↦ by
        refine (List.toFinset_card_le _).trans ?_
        rw [List.length_map]
        exact hfailed (first + i) (by omega) (by omega)) hpositive hbound hfailures _
      (mem_numbers.mpr ⟨day, hday, rfl⟩)
    obtain ⟨taken, htaken, heq⟩ := List.mem_map.mp hmem
    exact ⟨first + i, by omega, by omega, List.mem_map.mpr
      ⟨taken, htaken, DayUtc.number_injective heq⟩⟩
  refine ⟨stores, fun run ↦ (queueOf host days (stores run)).take limit, fun run hrun ↦ ?_,
    ⟨fun run hrun a b hash hash' ha hb holder htaken ↦ ?_, fun hall first hruns d hash hd ↦ ?_, ?_⟩⟩
  · obtain ⟨hrunStore, hwell, -⟩ := hstores run hrun.le
    obtain ⟨selection', hselect', hbatch, -⟩ := exists_selection hhost hwell hprepared
    exact ⟨hrunStore, selection', hselect', hdays ▸ hbatch⟩
  · obtain ⟨day, hday, rfl, rfl⟩ := heligible ha
    obtain ⟨day', hday', rfl, rfl⟩ := heligible hb
    exact sublist_of_older hhost hnodup
      (plainAudits_of_stampedBefore (hstores run hrun.le).2.2) hday hday' holder htaken
  · obtain ⟨day, hday, -, -⟩ := heligible hd
    have hsome : 0 < (numbers days).card := Finset.card_pos.mpr ⟨_, mem_numbers.mpr ⟨day, hday, rfl⟩⟩
    rw [← hlimit, hcount] at hruns ⊢
    set eligible := (numbers days).card with heligibles
    have hdiv := Nat.div_add_mod (eligible + limit - 1) limit
    have hmod := Nat.mod_lt (eligible + limit - 1) hpos
    rw [Nat.mul_comm] at hdiv
    refine hfailing first _ 0 (Nat.div_pos (by omega) hpos) hruns hpos ?_ (fun run _ _ ↦ ?_) d hash hd
    · rw [Nat.sub_zero, Nat.add_zero]
      omega
    · rw [failedDays, List.filter_eq_nil_iff.mpr fun day _ ↦ by rw [hall]; exact Bool.false_ne_true]
      exact le_rfl
  · rw [← hlimit, hcount]
    exact hfailing

end Runs

/-! ## Two days -/

/-- A host that collates by code points. -/
noncomputable def sampleHost : Host where
  toLowerCase := id
  dateParse text := (readTimestamp text).bind fun t ↦
    if h : IsTimeValue t then some ⟨t, h⟩ else none
  localeCompare a b := if a < b then .lt else if b < a then .gt else .eq

theorem sampleHost_compare {f : ℤ → List Char} {a b : ℤ} (hlt : a < b → f a < f b)
    (hgt : b < a → f b < f a) : sampleHost.localeCompare (f a) (f b) = compare a b := by
  rcases lt_trichotomy a b with h | rfl | h
  · rw [compare_lt_iff_lt.mpr h]
    exact if_pos (hlt h)
  · rw [compare_eq_iff_eq.mpr rfl]
    exact (if_neg (List.lt_irrefl _)).trans (if_neg (List.lt_irrefl _))
  · rw [compare_gt_iff_gt.mpr h]
    exact (if_neg (List.lt_asymm (hgt h))).trans (if_pos (hgt h))

theorem sampleHost_lawful : sampleHost.Lawful where
  toLowerCase_hex _ _ := rfl
  dateParse_toISOString t := by
    have hread := readsTimestamps_readTimestamp t.val t.property
    simp only [sampleHost, hread, Option.bind_some, dif_pos t.property]
  localeCompare_days _ _ ha hb := sampleHost_compare (isoDayChars_lt ha hb) (isoDayChars_lt hb ha)
  localeCompare_times _ _ ha hb := sampleHost_compare (isoChars_lt ha hb) (isoChars_lt hb ha)

def dayA : DayUtc := ⟨"2026-01-01", by decide⟩

def dayB : DayUtc := ⟨"2026-01-02", by decide⟩

def sampleHash : ManifestHash := ⟨String.ofList (List.replicate 64 'a'), by decide⟩

/-- Both days were copied, and a run has room for one. -/
def samplePopulation : Population Unit where
  inventoryDays := [⟨dayA.val, sampleHash.val, ()⟩, ⟨dayB.val, sampleHash.val, ()⟩]
  acceptedCopyDays := [⟨dayA.val, sampleHash.val⟩, ⟨dayB.val, sampleHash.val⟩]
  maxDays := 1

def sampleDays : List (CurrentDay Unit) := [⟨dayA, sampleHash, ()⟩, ⟨dayB, sampleHash, ()⟩]

def sampleAccepted : OrderedMap DayUtc (DayUtc × ManifestHash) where
  entries := [(dayA, dayA, sampleHash), (dayB, dayB, sampleHash)]
  nodup_keys := by decide

theorem prepared_samplePopulation :
    Prepared sampleHost samplePopulation 1 sampleDays sampleAccepted := by
  have hinventory : ∀ d, normalizeInventoryDay sampleHost ⟨d.val, sampleHash.val, ()⟩ =
      .ok ⟨d, sampleHash, ()⟩ := by
    intro d
    rw [normalizeInventoryDay, normalizeDayUtc_day, Except.ok_bind,
      normalizeManifestHash_hash sampleHost_lawful]
    rfl
  have haccepted : ∀ d, normalizeAcceptedDay sampleHost ⟨d.val, sampleHash.val⟩ =
      .ok (d, sampleHash) := by
    intro d
    rw [normalizeAcceptedDay, normalizeDayUtc_day, Except.ok_bind,
      normalizeManifestHash_hash sampleHost_lawful]
    rfl
  refine ⟨rfl, ?_, exists_mapUniqueByDay _ (by decide), [(dayA, sampleHash), (dayB, sampleHash)],
    ?_, ?_⟩
  · rw [Except.mapM_eq_ok_iff]
    exact .cons (hinventory dayA) (.cons (hinventory dayB) .nil)
  · rw [Except.mapM_eq_ok_iff]
    exact .cons (haccepted dayA) (.cons (haccepted dayB) .nil)
  · obtain ⟨m, hm⟩ := @exists_mapUniqueByDay _ Prod.fst "Accepted observation copy state"
      [(dayA, sampleHash), (dayB, sampleHash)] (by decide)
    rw [hm]
    exact congrArg Except.ok (OrderedMap.ext (entries_mapUniqueByDay hm))

theorem wellFormed_empty : Store.WellFormed OrderedMap.empty := nofun

/-- Noon of the days on which the runs are. -/
def sampleClock (run _i : ℕ) : TimeValue :=
  if run = 0 then ⟨1767441600000, by decide⟩ else ⟨1767528000000, by decide⟩

theorem increasing_sampleClock : Increasing sampleClock 2 samplePopulation.maxDays.toNat where
  plain run _ _ _ := by
    rw [sampleClock]
    split
    · exact ⟨by decide, by decide⟩
    · exact ⟨by decide, by decide⟩
  later run hrun i hi run' hrun' i' hi' h := by
    have hone : samplePopulation.maxDays.toNat = 1 := rfl
    rw [hone] at hi hi'
    obtain ⟨rfl, rfl⟩ : run = 0 ∧ run' = 1 := by omega
    exact (by decide : (1767441600000 : ℤ) < 1767528000000)

/-- Two runs over the two days. -/
theorem exists_rotates_sample : ∃ selection : Selection Unit,
    selectBatch sampleHost samplePopulation OrderedMap.empty = .ok selection ∧
    ∃ stores batches, (∀ run < 2,
      storeBefore sampleHost samplePopulation (fun _ _ ↦ true) sampleClock OrderedMap.empty run =
          .ok (stores run) ∧
        ∃ selection', selectBatch sampleHost samplePopulation (stores run) = .ok selection' ∧
          selection'.selectedDays = batches run) ∧
      Rotates sampleHost samplePopulation (fun _ _ ↦ true) selection.eligibleDaysCount 2 stores
        batches := by
  obtain ⟨selection, hselect, -⟩ :=
    exists_selection sampleHost_lawful wellFormed_empty prepared_samplePopulation
  exact ⟨selection, hselect, exists_rotates sampleHost_lawful wellFormed_empty hselect
    (fun _ _ ↦ true) increasing_sampleClock fun _ day hday ↦ absurd hday (Option.not_mem_none day)⟩

/-- Without checkpoints the first day comes first. -/
theorem take_queueOf_sampleDays {store : Store} (h : ∀ d, store.checkpoint? d = none) :
    ((queueOf sampleHost sampleDays store).take 1).map (·.dayUtc) = [dayA] := by
  have hnone : store.checkpoint? = fun _ ↦ none := funext h
  have hfirst : (compareEligible sampleHost
      (withCheckpoint (fun _ ↦ none) (⟨dayA, sampleHash, ()⟩ : CurrentDay Unit))
      (withCheckpoint (fun _ ↦ none) ⟨dayB, sampleHash, ()⟩)).isLE = true := by
    decide +kernel
  rw [queueOf, hnone, sampleDays, List.map_cons, List.map_singleton, Sorting.sortBy,
    List.insertionSort_cons, List.insertionSort_cons, List.insertionSort_nil, List.orderedInsert_nil,
    List.orderedInsert_cons, if_pos hfirst]
  rfl

/-- **A day that always fails keeps the other one from being audited**: it is the batch of every
run, whatever the times are. -/
theorem failing_day_starves_other :
    IsEligible sampleHost samplePopulation dayA sampleHash ∧
    IsEligible sampleHost samplePopulation dayB sampleHash ∧
    ∀ (clock : ℕ → ℕ → TimeValue) (run : ℕ), ∃ store selection,
      storeBefore sampleHost samplePopulation (fun _ d ↦ d ≠ dayA) clock OrderedMap.empty run =
        .ok store ∧
      selectBatch sampleHost samplePopulation store = .ok selection ∧
        selection.selectedDays.map (·.dayUtc) = [dayA] := by
  have hdays : acceptedCurrentDays sampleDays sampleAccepted = sampleDays := by
    rw [acceptedCurrentDays, List.filter_eq_self]
    decide
  have heligible : ∀ day ∈ sampleDays,
      IsEligible sampleHost samplePopulation day.dayUtc day.manifestHash := fun day hday ↦
    (isEligible_iff prepared_samplePopulation).mpr ⟨day, hdays ▸ hday, rfl, rfl⟩
  refine ⟨heligible _ List.mem_cons_self, heligible _ (List.mem_cons_of_mem _ List.mem_cons_self),
    fun clock run ↦ ?_⟩
  -- no checkpoint is ever written
  have hstore : ∃ store : Store, storeBefore sampleHost samplePopulation (fun _ d ↦ d ≠ dayA) clock
      OrderedMap.empty run = .ok store ∧ store.WellFormed ∧ ∀ d, store.checkpoint? d = none := by
    induction run with
    | zero => exact ⟨OrderedMap.empty, rfl, wellFormed_empty, fun _ ↦ rfl⟩
    | succ run ih =>
      obtain ⟨store, hstore, hwell, hnone⟩ := ih
      obtain ⟨selection, hselect, hbatch, -⟩ :=
        exists_selection sampleHost_lawful hwell prepared_samplePopulation
      have hdayA : selection.selectedDays.zipIdx.map (·.1.dayUtc) = [dayA] := by
        rw [← take_queueOf_sampleDays hnone, ← hdays, ← hbatch,
          ← List.zipIdx_map_fst 0 selection.selectedDays, List.map_map, List.zipIdx_map_fst]
        rfl
      obtain ⟨store', hfold, hwell', -, hkept⟩ := exists_recorded sampleHost_lawful (· ≠ dayA)
        (clock run) selection.selectedDays.zipIdx hwell (hdayA ▸ List.nodup_singleton dayA)
      refine ⟨store', ?_, hwell', fun d ↦ ?_⟩
      · rw [storeBefore, hstore, Except.ok_bind, auditRun, hselect, Except.ok_bind, hfold]
        rfl
      · rw [hkept d, hnone d]
        intro p hp hsuccess
        have hmem : p.1.dayUtc ∈ [dayA] := hdayA ▸ List.mem_map_of_mem hp
        exact absurd (List.mem_singleton.mp hmem) (of_decide_eq_true hsuccess)
  obtain ⟨store, hrun, hwell, hnone⟩ := hstore
  obtain ⟨selection, hselect, hbatch, -⟩ :=
    exists_selection sampleHost_lawful hwell prepared_samplePopulation
  refine ⟨store, selection, hrun, hselect, ?_⟩
  rw [hbatch, hdays]
  exact take_queueOf_sampleDays hnone

end UkAqOps.PruneAudit

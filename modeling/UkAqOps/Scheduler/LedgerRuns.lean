import UkAqOps.Scheduler.Ledger
import UkAqOps.Scheduler.Interleaving

/-!
# Runs over the due jobs

The loop asks for the due slots in order, and stops at the first claim it wins whose last status
write fails. So every due job of the list has its turn, and every row says what became of its target,
if and only if no write that fails meets a target that answered, and no last write fails while a later
job is due.
-/

namespace UkAqOps.Scheduler

open Effects

variable {o : Surroundings} {db : Database}

/-! ## The slots that are asked for -/

/-- The last status write of a slot fails: the first one, if it is the handler's or that of a dry run,
and otherwise the second one too. -/
def LastWriteFails (o : Surroundings) (slot : Slot) : Prop :=
  o.firstWrite (slotKey slot) ≠ .done ∧
    (slot.1.dryRun ≠ 1 → (o.target slot.1 slot.2).toOption ≠ none →
      o.secondWrite (slotKey slot) ≠ .done)

instance (o : Surroundings) (slot : Slot) : Decidable (LastWriteFails o slot) :=
  inferInstanceAs (Decidable (_ ∧ _))

/-- The loop throws out of a slot if its last status write fails. -/
theorem settle_stops_iff {slot : Slot} : (o.settle slot).stops = true ↔ LastWriteFails o slot := by
  rw [Surroundings.settle, LastWriteFails]
  by_cases hdry : slot.1.dryRun = 1
  · rw [if_pos hdry]
    rcases o.firstWrite (slotKey slot) <;> simp [lastWrite, hdry]
  · rw [if_neg hdry]
    rcases o.target slot.1 slot.2 with message | result
    · rcases o.firstWrite (slotKey slot) <;> simp [lastWrite, Except.toOption]
    · rcases o.firstWrite (slotKey slot) <;> rcases o.secondWrite (slotKey slot) <;>
        simp [lastWrite, hdry, Except.toOption]

/-- The loop stops at a slot that comes after `before`. -/
def StopsAt (o : Surroundings) (db : Database) (before : List Slot) (slot : Slot) : Prop :=
  Wins db before slot ∧ LastWriteFails o slot

instance (o : Surroundings) (db : Database) (before : List Slot) (slot : Slot) :
    Decidable (StopsAt o db before slot) := inferInstanceAs (Decidable (_ ∧ _))

/-- The slots of a list that the loop asks for, after those before it. -/
def asked (o : Surroundings) (db : Database) (before : List Slot) : List Slot → List Slot
  | [] => []
  | slot :: rest =>
    if StopsAt o db before slot then [slot] else slot :: asked o db (before ++ [slot]) rest

/-- The loop stops in the list. -/
def stopsIn (o : Surroundings) (db : Database) (before : List Slot) : List Slot → Bool
  | [] => false
  | slot :: rest => StopsAt o db before slot || stopsIn o db (before ++ [slot]) rest

theorem asked_append (before slots later : List Slot) :
    asked o db before (slots ++ later) = if stopsIn o db before slots then asked o db before slots
      else slots ++ asked o db (before ++ slots) later := by
  induction slots generalizing before with
  | nil => simp [stopsIn]
  | cons slot rest ih =>
    rw [List.cons_append, asked, asked, stopsIn]
    by_cases hstop : StopsAt o db before slot
    · simp [hstop]
    · rw [if_neg hstop, if_neg hstop, ih]
      simp only [hstop, decide_false, Bool.false_or, List.append_assoc, List.singleton_append]
      split <;> rfl

theorem stopsIn_append (before slots later : List Slot) :
    stopsIn o db before (slots ++ later)
      = (stopsIn o db before slots || stopsIn o db (before ++ slots) later) := by
  induction slots generalizing before with
  | nil => simp [stopsIn]
  | cons slot rest ih =>
    rw [List.cons_append, stopsIn, stopsIn, ih, Bool.or_assoc, List.append_assoc,
      List.singleton_append]

theorem asked_eq_self {before slots : List Slot} (h : stopsIn o db before slots = false) :
    asked o db before slots = slots := by
  have happend : asked o db before (slots ++ []) = _ := asked_append before slots []
  rw [List.append_nil, h] at happend
  simpa [asked] using happend

/-- The loop goes on through the slots: it stops at none of them. -/
def GoesThrough (o : Surroundings) (db : Database) (before slots : List Slot) : Prop :=
  ∀ pre slot post, slots = pre ++ slot :: post → ¬StopsAt o db (before ++ pre) slot

/-- **A slot is asked for** if it is in the list and the loop goes through those before it. -/
theorem prefix_asked_iff {before slots pre : List Slot} {slot : Slot} :
    pre ++ [slot] <+: asked o db before slots ↔
      pre ++ [slot] <+: slots ∧ GoesThrough o db before pre := by
  induction slots generalizing before pre with
  | nil => simp [asked]
  | cons first rest ih =>
    rcases pre with _ | ⟨first', pre⟩
    · rw [asked, List.nil_append]
      have hthrough : GoesThrough o db before [] := fun p s q h ↦ absurd h (by simp)
      split
      · simp [hthrough]
      · simp [hthrough]
    · have hgoes : GoesThrough o db before (first' :: pre) ↔
          ¬StopsAt o db before first' ∧ GoesThrough o db (before ++ [first']) pre := by
        constructor
        · intro h
          refine ⟨by simpa using h [] first' pre rfl, fun p s q hpre ↦ ?_⟩
          rw [List.append_assoc, List.singleton_append]
          exact h (first' :: p) s q (by rw [hpre]; rfl)
        · rintro ⟨hfirst, hrest⟩ p s q hpre
          rcases p with _ | ⟨p₀, p⟩
          · obtain ⟨rfl, rfl⟩ := List.cons.inj hpre
            simpa using hfirst
          · obtain ⟨rfl, rfl⟩ := List.cons.inj hpre
            have hnot := hrest p s q rfl
            rw [List.append_assoc, List.singleton_append] at hnot
            exact hnot
      rw [asked, List.cons_append, hgoes, List.cons_prefix_cons]
      by_cases hstop : StopsAt o db before first
      · rw [if_pos hstop, List.cons_prefix_cons, List.prefix_nil]
        refine iff_of_false (fun h ↦ by simp at h) ?_
        rintro ⟨⟨rfl, -⟩, hnot, -⟩
        exact hnot hstop
      · rw [if_neg hstop, List.cons_prefix_cons]
        constructor
        · rintro ⟨rfl, hrest⟩
          obtain ⟨hinit, hthrough⟩ := ih.mp hrest
          exact ⟨⟨rfl, hinit⟩, hstop, hthrough⟩
        · rintro ⟨⟨rfl, hinit⟩, -, hthrough⟩
          exact ⟨rfl, ih.mpr ⟨hinit, hthrough⟩⟩

/-! ## The loops -/

section Loops

variable {s : Store} {before : List Slot}

/-- **One slot**: it is asked for, and what becomes of it is recorded. -/
theorem wp_slot (h : Played o db before s) (job : Job) (dueAt : IsoTime) (summary : Summary)
    {rest : Summary → Script Summary} {Q : Store → Except String Summary → Prop}
    (hstop : ∀ s' e, Played o db (before ++ [(job, dueAt)]) s' → StopsAt o db before (job, dueAt) →
      Q s' (.error e))
    (hnext : ∀ s' used, Played o db (before ++ [(job, dueAt)]) s' →
      ¬StopsAt o db before (job, dueAt) → wp o.env (rest used) Q s') :
    wp o.env (do
      let claimedAt ← await .now
      let dispatchId ← claimDispatch (job.jobKey, dueAt)
        { claimedAt, targetType := job.target.type, dryRun := job.dryRun }
      let used ← useClaim job dueAt summary dispatchId
      rest used) Q s := by
  refine wp_bind.mpr (wp_await_served.mpr ⟨trivial, ?_⟩)
  refine wp_bind.mpr (wp_bind.mpr (wp_await_served.mpr ⟨trivial, ?_⟩))
  generalize hrow : ({
    claimedAt := o.clock s.log.length
    targetType := job.target.type
    dryRun := job.dryRun } : DispatchRow) = row
  have hclaimed : row.dispatchStatus = "claimed" := by rw [← hrow]
  -- the two calls before the claim is used: the clock and the claim itself
  generalize hs₂ : (o.serve (o.serve s .now).2 (.insertDispatch (job.jobKey, dueAt) row)).2 = s₂
  have hclaims : claimsOf s₂.log = claimsOf s.log ++ [(job.jobKey, dueAt)] := by
    rw [← hs₂]
    simp [Surroundings.serve, claimsOf]
  have htargets : targetsOf s₂.log = targetsOf s.log := by
    rw [← hs₂]
    simp [Surroundings.serve, targetsOf]
  have hwrites : writesOf s₂.log = writesOf s.log := by
    rw [← hs₂]
    simp [Surroundings.serve, writesOf]
  have hdb : s₂.db = (s.db.insertDispatch (job.jobKey, dueAt) row).2 := by rw [← hs₂]; rfl
  have hanswer : (o.serve (o.serve s .now).2 (.insertDispatch (job.jobKey, dueAt) row)).1
      = .ok (s.db.insertDispatch (job.jobKey, dueAt) row).1 := rfl
  by_cases hwins : Wins db before (job, dueAt)
  · have hnew : (job.jobKey, dueAt) ∉ s.db.dispatches.keys := by
      rw [h.keys]
      rintro (hold | ⟨slot', hslot', hkey⟩)
      · exact hwins.1 hold
      · exact hwins.2 slot' hslot' hkey
    have hinsert : s.db.insertDispatch (job.jobKey, dueAt) row = (⟨1, s.db.lastDispatchId + 1⟩,
        { s.db with
          dispatches := s.db.dispatches.set (job.jobKey, dueAt) (s.db.lastDispatchId + 1, row)
          lastDispatchId := s.db.lastDispatchId + 1 }) := by
      rw [Database.insertDispatch, s.db.dispatches.get?_eq_none_iff.mpr hnew]
    rw [hinsert] at hdb
    have hget : s₂.db.dispatches.get? (job.jobKey, dueAt)
        = some (s.db.lastDispatchId + 1, row) := by
      rw [hdb, OrderedMap.get?_set_self]
    have hfresh : s.db.lastDispatchId + 1 ∉ writesOf s₂.log := by
      rw [hwrites]
      exact fun hmem ↦ absurd (h.writes _ hmem) (by omega)
    have hnumbered : s₂.db.Numbered := by
      rw [hdb]
      exact h.numbered.set hnew rfl
    rw [hanswer, hinsert]
    refine wp_bind.mpr (wp_mono ?_ (wp_useClaim hnumbered hget hclaimed hfresh summary))
    rintro s' r ⟨writes, honly, hmoves, hstops⟩
    have hplayed : Played o db (before ++ [(job, dueAt)]) s' :=
      h.settled hwins rfl hdb hclaims htargets hwrites hnew honly hmoves
    rcases r with message | used
    · exact hstop s' message hplayed ⟨hwins, settle_stops_iff.mp (hstops.mp ⟨message, rfl⟩)⟩
    · refine hnext s' used hplayed fun hstopsAt ↦ ?_
      obtain ⟨e, he⟩ := hstops.mpr (settle_stops_iff.mpr hstopsAt.2)
      cases he
  · have hold : (job.jobKey, dueAt) ∈ s.db.dispatches.keys := by
      by_contra hnew
      rw [h.keys] at hnew
      push Not at hnew
      exact hwins hnew
    obtain ⟨held, hheld⟩ := Option.isSome_iff_exists.mp (s.db.dispatches.get?_isSome_iff.mpr hold)
    have hinsert : s.db.insertDispatch (job.jobKey, dueAt) row
        = (⟨0, s.db.lastDispatchId⟩, s.db) := by
      rw [Database.insertDispatch, hheld]
    rw [hanswer, hinsert]
    have hplayed : Played o db (before ++ [(job, dueAt)]) s₂ :=
      h.lost hwins (hdb.trans (by rw [hinsert])) hclaims htargets hwrites
    exact hnext s₂ summary hplayed fun hstops ↦ hwins hstops.1

/-- The slots have had their turn, and the loop ended as they make it. -/
def Ends (o : Surroundings) (db : Database) (before slots : List Slot) (s' : Store)
    (r : Except String Summary) : Prop :=
  Played o db (before ++ asked o db before slots) s' ∧
    ((∃ e, r = .error e) ↔ stopsIn o db before slots = true)

/-- **The loop over the due minutes of a job.** -/
theorem wp_dispatchDueTimes (h : Played o db before s) (job : Job) (times : List IsoTime)
    (summary : Summary) : wp o.env (dispatchDueTimes job times summary)
      (Ends o db before (times.map fun dueAt ↦ (job, dueAt))) s := by
  induction times generalizing before s summary with
  | nil =>
    refine ⟨by simpa [asked] using h, iff_of_false ?_ (by simp [stopsIn])⟩
    rintro ⟨e, he⟩
    cases he
  | cons dueAt rest ih =>
    rw [dispatchDueTimes]
    refine wp_slot h job dueAt summary (fun s' e hplayed hstop ↦ ?_) fun s' used hplayed hgo ↦ ?_
    · rw [Ends, List.map_cons, asked, if_pos hstop, stopsIn]
      exact ⟨hplayed, iff_of_true ⟨e, rfl⟩ (by simp [hstop])⟩
    · refine wp_mono ?_ (ih hplayed used)
      rintro s'' r ⟨hrest, hend⟩
      rw [Ends, List.map_cons, asked, if_neg hgo, stopsIn]
      simp only [hgo, decide_false, Bool.false_or]
      rw [List.append_assoc, List.singleton_append] at hrest
      exact ⟨hrest, hend⟩

/-- **The loop over the listed rows.** -/
theorem wp_dispatchDueJobsForWindow (host : Host) (windowStartMs windowEndMs : ℤ)
    (h : Played o db before s) (rows : List JobRow) (summary : Summary) :
    wp o.env (dispatchDueJobsForWindow host windowStartMs windowEndMs rows summary)
      (Ends o db before (rows.flatMap (slotsOf host windowStartMs windowEndMs))) s := by
  induction rows generalizing before s summary with
  | nil =>
    refine ⟨by simpa [asked] using h, iff_of_false ?_ (by simp [stopsIn])⟩
    rintro ⟨e, he⟩
    cases he
  | cons rawJob rest ih =>
    rw [dispatchDueJobsForWindow, List.flatMap_cons]
    dsimp only
    rcases hparse : parseSchedulerJobRow host rawJob with message | job
    · rw [show slotsOf host windowStartMs windowEndMs rawJob = [] by rw [slotsOf, hparse],
        List.nil_append]
      exact ih h _
    rcases htimes : dueSlotsForJob host job windowStartMs windowEndMs with message | times
    · rw [show slotsOf host windowStartMs windowEndMs rawJob = [] by
        rw [slotsOf, hparse]; simp only [htimes], List.nil_append]
      simp only [htimes]
      exact ih h _
    have hslots : slotsOf host windowStartMs windowEndMs rawJob
        = times.map fun dueAt ↦ (job, dueAt) := by
      rw [slotsOf, hparse]
      simp only [htimes]
    simp only [htimes]
    rw [hslots]
    refine wp_bind.mpr (wp_mono ?_ (wp_dispatchDueTimes h job times _))
    rintro s' r ⟨hplayed, hend⟩
    rcases r with message | used
    · have hstops := hend.mp ⟨message, rfl⟩
      have hends : Ends o db before ((times.map fun dueAt ↦ (job, dueAt))
          ++ rest.flatMap (slotsOf host windowStartMs windowEndMs)) s' (.error message) := by
        rw [Ends, asked_append, stopsIn_append, if_pos hstops, hstops, Bool.true_or]
        exact ⟨hplayed, iff_of_true ⟨message, rfl⟩ rfl⟩
      exact hends
    · have hgo : stopsIn o db before (times.map fun dueAt ↦ (job, dueAt)) = false := by
        by_contra hstops
        obtain ⟨e, he⟩ := hend.mpr (Bool.eq_true_of_not_eq_false hstops)
        cases he
      rw [asked_eq_self hgo] at hplayed
      refine wp_mono ?_ (ih hplayed used)
      rintro s'' r' ⟨hrest, hend'⟩
      rw [Ends, asked_append, stopsIn_append, hgo, Bool.false_or, if_neg Bool.false_ne_true,
        ← List.append_assoc]
      exact ⟨hrest, hend'⟩

end Loops

/-! ## The ledger of a window -/

/-- The store after the loop over the listed rows. -/
def afterWindow (host : Host) (o : Surroundings) (db : Database) (rows : List JobRow)
    (windowStartMs windowEndMs : ℤ) : Store :=
  ((dispatchDueJobsForWindow host windowStartMs windowEndMs rows {}).execute o.serve ⟨db, []⟩).2.1

/-- The target answered success. -/
def Succeeded (answer : Except String DispatchResult) : Prop :=
  ∃ result, answer = .ok result ∧ result.ok = true

/-- Every row of a slot whose target was called agrees with what the target answered. -/
def Truthful (s : Store) : Prop :=
  ∀ slot answer, (slot, answer) ∈ targetsOf s.log →
    ∀ id row, s.db.dispatches.get? (slotKey slot) = some (id, row) →
      (Succeeded answer → row.dispatchStatus ≠ "failed") ∧
        (¬Succeeded answer → row.dispatchStatus ≠ "dispatched")

/-- Every due job of the list has been claimed in its turn, after the slots of the rows before it. -/
def Isolated (host : Host) (rows : List JobRow) (windowStartMs windowEndMs : ℤ) (s : Store) : Prop :=
  ∀ earlier row later slot rest, rows = earlier ++ row :: later →
    slotsOf host windowStartMs windowEndMs row = slot :: rest →
      (earlier.flatMap (slotsOf host windowStartMs windowEndMs) ++ [slot]).map slotKey
        <+: claimsOf s.log

/-- The target answered success, and its row is left as failed: the first status write failed, and the
one of the handler took effect. -/
def Misreports (o : Surroundings) (slot : Slot) : Prop :=
  slot.1.dryRun ≠ 1 ∧ Succeeded (o.target slot.1 slot.2) ∧
    o.firstWrite (slotKey slot) ≠ .done ∧ o.secondWrite (slotKey slot) ≠ .lost

/-- For every slot that is won in its turn: it is not misreported, and if its last status write fails,
no later row of the list is due. -/
def RecordsOutcomes (host : Host) (o : Surroundings) (db : Database) (rows : List JobRow)
    (windowStartMs windowEndMs : ℤ) : Prop :=
  ∀ earlier row later pre slot post, rows = earlier ++ row :: later →
    slotsOf host windowStartMs windowEndMs row = pre ++ slot :: post →
    let before := earlier.flatMap (slotsOf host windowStartMs windowEndMs) ++ pre
    Wins db before slot → GoesThrough o db [] before →
      ¬Misreports o slot ∧ (LastWriteFails o slot →
        ∀ row' ∈ later, slotsOf host windowStartMs windowEndMs row' = [])

/-! ## When the ledger is kept -/

section Verdict

variable {slots : List Slot} {slot : Slot} {s : Store}

theorem prefix_singleton_iff {before l : List Slot} :
    before ++ [slot] <+: l ↔ ∃ after, l = before ++ slot :: after := by
  constructor
  · rintro ⟨after, rfl⟩
    exact ⟨after, by simp⟩
  · rintro ⟨after, rfl⟩
    exact ⟨after, by simp⟩

/-- What the status of a live slot says of its target. -/
theorem settle_status (hlive : slot.1.dryRun ≠ 1) :
    ((Succeeded (o.target slot.1 slot.2) → (o.settle slot).status ≠ "failed") ∧
      (¬Succeeded (o.target slot.1 slot.2) → (o.settle slot).status ≠ "dispatched")) ↔
        ¬Misreports o slot := by
  rw [Surroundings.settle, if_neg hlive, Misreports]
  rcases htarget : o.target slot.1 slot.2 with message | result
  · have hfailed : ¬Succeeded (Except.error message) := by
      rintro ⟨result, hresult, -⟩
      cases hresult
    refine iff_of_true ⟨fun h ↦ absurd h hfailed, fun _ ↦ ?_⟩ fun h ↦ hfailed h.2.1
    rcases o.firstWrite (slotKey slot) <;> rcases o.secondWrite (slotKey slot) <;>
      simp [lastWrite]
  · have hsucceeded : Succeeded (Except.ok result) ↔ result.ok = true := by
      refine ⟨?_, fun h ↦ ⟨result, rfl, h⟩⟩
      rintro ⟨result', hresult, hok⟩
      rw [Except.ok.inj hresult]
      exact hok
    rw [hsucceeded]
    dsimp only
    rcases result.ok <;> rcases o.firstWrite (slotKey slot) <;>
      rcases o.secondWrite (slotKey slot) <;> simp [lastWrite, hlive]

/-- **The ledger is truthful** if no slot that was won is misreported. -/
theorem truthful_iff (h : Played o db slots s) :
    Truthful s ↔ ∀ before slot after, slots = before ++ slot :: after → Wins db before slot →
      ¬Misreports o slot := by
  constructor
  · intro htruthful before slot after hsplit hwins hmisreports
    have hlive := hmisreports.1
    obtain ⟨id, row, hrow, hstatus⟩ := h.won before slot after hsplit hwins
    have hcalled := (h.targets slot _).mpr ⟨rfl, hlive, before, after, hsplit, hwins⟩
    have hsays := htruthful slot _ hcalled id row hrow
    rw [hstatus] at hsays
    exact (settle_status hlive).mp hsays hmisreports
  · rintro hnone slot answer hcalled id row hrow
    obtain ⟨rfl, hlive, before, after, hsplit, hwins⟩ := (h.targets slot answer).mp hcalled
    obtain ⟨id', row', hrow', hstatus⟩ := h.won before slot after hsplit hwins
    rw [hrow] at hrow'
    obtain ⟨rfl, rfl⟩ := Prod.mk.inj (Option.some.inj hrow')
    rw [hstatus]
    exact (settle_status hlive).mpr (hnone before slot after hsplit hwins)

end Verdict

section Window

variable {host : Host} {rows : List JobRow} {windowStartMs windowEndMs : ℤ}

theorem played_afterWindow (hdb : db.Numbered) :
    Played o db (asked o db [] (rows.flatMap (slotsOf host windowStartMs windowEndMs)))
      (afterWindow host o db rows windowStartMs windowEndMs) :=
  (execute_of_wp (wp_dispatchDueJobsForWindow host windowStartMs windowEndMs (played_nil hdb) rows
    {})).1

/-- Where a slot of the listed rows stands. -/
theorem flatMap_slotsOf_eq_append_iff {f : JobRow → List Slot} {before after : List Slot}
    {slot : Slot} :
    rows.flatMap f = before ++ slot :: after ↔
      ∃ earlier row later pre post, rows = earlier ++ row :: later ∧ f row = pre ++ slot :: post ∧
        before = earlier.flatMap f ++ pre ∧ after = post ++ later.flatMap f := by
  constructor
  · intro h
    induction rows generalizing before with
    | nil => exact absurd h (by simp)
    | cons first rest ih =>
      rw [List.flatMap_cons] at h
      rcases List.append_eq_append_iff.mp h with ⟨more, hbefore, hrest⟩ | ⟨more, hfirst, hmore⟩
      · obtain ⟨earlier, row, later, pre, post, rfl, hrow, rfl, rfl⟩ := ih hrest
        exact ⟨first :: earlier, row, later, pre, post, rfl, hrow, by simp [hbefore], rfl⟩
      · rcases more with _ | ⟨head, more⟩
        · obtain ⟨earlier, row, later, pre, post, rfl, hrow, hpre, rfl⟩ :=
            ih (hmore.symm.trans (List.nil_append _).symm)
          refine ⟨first :: earlier, row, later, pre, post, rfl, hrow, ?_, rfl⟩
          rw [List.append_nil] at hfirst
          rw [List.flatMap_cons, List.append_assoc, ← hpre, hfirst, List.append_nil]
        · obtain ⟨rfl, rfl⟩ := List.cons.inj hmore
          exact ⟨[], first, rest, before, more, rfl, hfirst, by simp, rfl⟩
  · rintro ⟨earlier, row, later, pre, post, rfl, hrow, rfl, rfl⟩
    simp [hrow]

theorem prefix_of_asked (before slots : List Slot) : asked o db before slots <+: slots := by
  induction slots generalizing before with
  | nil => exact List.prefix_rfl
  | cons slot rest ih =>
    rw [asked]
    split
    · exact List.cons_prefix_cons.mpr ⟨rfl, List.nil_prefix⟩
    · exact List.cons_prefix_cons.mpr ⟨rfl, ih _⟩

/-- A slot has been claimed in its turn, if the loop goes through those before it. -/
theorem claimed_iff {before : List Slot} {slot : Slot} (h : Played o db (asked o db [] slots) s)
    (hslots : before ++ [slot] <+: slots) :
    (before ++ [slot]).map slotKey <+: claimsOf s.log ↔ GoesThrough o db [] before := by
  rw [h.claims]
  constructor
  · intro hkeys
    have hlength := hkeys.length_le
    rw [List.length_map, List.length_map] at hlength
    exact (prefix_asked_iff.mp
      (List.prefix_of_prefix_length_le hslots (prefix_of_asked [] slots) hlength)).2
  · intro hthrough
    exact (prefix_asked_iff.mpr ⟨hslots, hthrough⟩).map slotKey

/-- The loop goes through some slots unless there is a first one that it stops at. -/
theorem goesThrough_or_exists (before slots : List Slot) :
    GoesThrough o db before slots ∨ ∃ pre slot post, slots = pre ++ slot :: post ∧
      GoesThrough o db before pre ∧ StopsAt o db (before ++ pre) slot := by
  induction slots using List.reverseRecOn with
  | nil => exact Or.inl fun pre slot post h ↦ absurd h (by simp)
  | append_singleton slots last ih =>
    rcases ih with hthrough | ⟨pre, slot, post, rfl, hpre, hstop⟩
    · by_cases hstop : StopsAt o db (before ++ slots) last
      · exact Or.inr ⟨slots, last, [], rfl, hthrough, hstop⟩
      · refine Or.inl fun pre slot post hsplit ↦ ?_
        rcases append_singleton_eq_iff.mp hsplit with ⟨rfl, rfl, -⟩ | ⟨rest, -, hsplit⟩
        · exact hstop
        · exact hthrough pre slot rest hsplit
    · exact Or.inr ⟨pre, slot, post ++ [last], by simp, hpre, hstop⟩

end Window

theorem numbered_empty : ({} : Database).Numbered where
  le_last _ hentry := absurd hentry List.not_mem_nil
  nodup := List.nodup_nil

/-- The target always answers success, and the status writes of the job "refresh" end as given. -/
def sampleSurroundings (first second : Write) : Surroundings where
  target _ _ := .ok ⟨true, 204, none, none⟩
  firstWrite key := if key.1 = "refresh" then first else .done
  secondWrite key := if key.1 = "refresh" then second else .done
  clock _ := sampleSlot
  failure := "store unavailable"

/-- What is read from `sampleRow`. -/
def sampleJob (jobKey : String) : Job where
  jobKey := jobKey
  enabled := 1
  cronExpr := "* * * * *"
  timezone := "UTC"
  dryRun := 0
  notes := none
  target := .githubWorkflow "owner/repo" "refresh.yml" "main" (.obj [])

end UkAqOps.Scheduler

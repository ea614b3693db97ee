import UkAqOps.Lib.Restart
import UkAqOps.Scheduler.History

/-!
# The dispatch ledger under partial failure

The loop over the due jobs runs against a store whose status writes may fail. The targets answer
anything, and each status write is done, lost, or done without an answer. What becomes of a claimed
slot is then a function of the answer of its target and of its one or two writes: the status of its
row, and whether the loop goes on after it.
-/

namespace UkAqOps.Scheduler

open Effects

/-! ## A store whose status writes may fail -/

/-- What becomes of a status write. -/
inductive Write where
  | done
  | lost
  | unanswered
deriving DecidableEq

/-- What the loop runs against. A claim is followed by one status write, or by two when the first one
fails or the target does. -/
structure Surroundings where
  target : Job → IsoTime → Except String DispatchResult
  firstWrite : DueKey → Write
  secondWrite : DueKey → Write
  clock : ℕ → IsoTime
  failure : String

/-- The database and the calls made so far. -/
structure Store where
  db : Database
  log : List CallEvent

/-- The slots that were asked for, in order. -/
def claimsOf (log : List CallEvent) : List DueKey :=
  log.filterMap fun
    | ⟨.insertDispatch key _, _⟩ => some key
    | _ => none

/-- The targets that were called, with what they answered. -/
def targetsOf (log : List CallEvent) : List ((Job × IsoTime) × Except String DispatchResult) :=
  log.filterMap fun
    | ⟨.dispatchTarget job dueAt, answer⟩ => some ((job, dueAt), answer)
    | _ => none

/-- The rows whose status was written, or was to be. -/
def writesOf (log : List CallEvent) : List ℕ :=
  log.filterMap fun
    | ⟨.updateDispatch id _, _⟩ => some id
    | _ => none

/-- The key of the row with an id. -/
def Database.dispatchKey (db : Database) (id : ℕ) : Option DueKey :=
  (db.dispatches.entries.find? fun entry ↦ entry.2.1 = id).map Prod.fst

/-- What becomes of the next status write of a row. -/
def Surroundings.write (o : Surroundings) (s : Store) (id : ℕ) : Write :=
  match s.db.dispatchKey id with
  | none => .done
  | some key => if id ∈ writesOf s.log then o.secondWrite key else o.firstWrite key

/-- The answer to a call, and the database after it. -/
def Surroundings.reply (o : Surroundings) (s : Store) :
    (c : Call) → Except String c.Answer × Database
  | .insertRun key row => (.ok (s.db.insertRun key row).1, (s.db.insertRun key row).2)
  | .selectRun key => (.ok (s.db.runs.get? key), s.db)
  | .listEnabledJobs => (.ok [], s.db)
  | .insertDispatch key row =>
    (.ok (s.db.insertDispatch key row).1, (s.db.insertDispatch key row).2)
  | .updateDispatch id patch =>
    match o.write s id with
    | .done => (.ok (), s.db.updateDispatch id patch)
    | .lost => (.error o.failure, s.db)
    | .unanswered => (.error o.failure, s.db.updateDispatch id patch)
  | .finishRun id patch => (.ok (), s.db.finishRun id patch)
  | .now => (.ok (o.clock s.log.length), s.db)
  | .dispatchTarget job dueAt => (o.target job dueAt, s.db)

def Surroundings.serve (o : Surroundings) (s : Store) (c : Call) : Except String c.Answer × Store :=
  ((o.reply s c).1, ⟨(o.reply s c).2, s.log ++ [⟨c, (o.reply s c).1⟩]⟩)

/-! ## Slots -/

/-- A job and a minute for which it is due. -/
abbrev Slot := Job × IsoTime

def slotKey (slot : Slot) : DueKey := (slot.1.jobKey, slot.2)

/-- The slots of a listed row: none if the row cannot be read. -/
def slotsOf (host : Host) (windowStartMs windowEndMs : ℤ) (rawJob : JobRow) : List Slot :=
  match parseSchedulerJobRow host rawJob with
  | .error _ => []
  | .ok job =>
    match dueSlotsForJob host job windowStartMs windowEndMs with
    | .error _ => []
    | .ok dueTimes => dueTimes.map fun dueAt ↦ (job, dueAt)

/-- The status that a claimed slot is left with, and whether the loop stops there. -/
structure SlotEnd where
  status : String
  stops : Bool
deriving DecidableEq

/-- A last status write over a row with the status `old`. -/
def lastWrite (old new : String) : Write → SlotEnd
  | .done => ⟨new, false⟩
  | .lost => ⟨old, true⟩
  | .unanswered => ⟨new, true⟩

/-- What becomes of a claimed slot. -/
def Surroundings.settle (o : Surroundings) (slot : Slot) : SlotEnd :=
  if slot.1.dryRun = 1 then lastWrite "claimed" "dry_run" (o.firstWrite (slotKey slot))
  else match o.target slot.1 slot.2 with
    | .error _ => lastWrite "claimed" "failed" (o.firstWrite (slotKey slot))
    | .ok result =>
      let status := if result.ok then "dispatched" else "failed"
      match o.firstWrite (slotKey slot) with
      | .done => ⟨status, false⟩
      | .lost => lastWrite "claimed" "failed" (o.secondWrite (slotKey slot))
      | .unanswered => lastWrite status "failed" (o.secondWrite (slotKey slot))

/-! ## The calls of one slot -/

/-- Every row has an id of its own, and none above the last one given out. -/
structure Database.Numbered (db : Database) : Prop where
  le_last : ∀ entry ∈ db.dispatches.entries, entry.2.1 ≤ db.lastDispatchId
  nodup : (db.dispatches.entries.map fun entry ↦ entry.2.1).Nodup

theorem Database.Numbered.dispatchKey_eq {db : Database} (h : db.Numbered) {key : DueKey} {id : ℕ}
    {row : DispatchRow} (hrow : db.dispatches.get? key = some (id, row)) :
    db.dispatchKey id = some key := by
  have hmem := db.dispatches.get?_eq_some_iff.mp hrow
  obtain ⟨entry, hfind⟩ := Option.isSome_iff_exists.mp
    (List.find?_isSome.mpr ⟨_, hmem, decide_eq_true rfl⟩ :
      (db.dispatches.entries.find? fun entry ↦ entry.2.1 = id).isSome = true)
  have hid : entry.2.1 = id := by simpa using List.find?_some hfind
  have hsame : entry = (key, (id, row)) :=
    List.inj_on_of_nodup_map h.nodup (List.mem_of_find?_eq_some hfind) hmem hid
  rw [Database.dispatchKey, hfind, hsame]
  rfl

/-- A new row with the next id. -/
theorem Database.Numbered.set {db : Database} (h : db.Numbered) {key : DueKey} {id : ℕ}
    {row : DispatchRow} (hnew : key ∉ db.dispatches.keys) (hid : id = db.lastDispatchId + 1) :
    ({ db with
      dispatches := db.dispatches.set key (id, row)
      lastDispatchId := id } : Database).Numbered := by
  have hentries := OrderedMap.entries_set_of_notMem (m := db.dispatches) (id, row) hnew
  refine ⟨fun entry hentry ↦ ?_, ?_⟩
  · rcases List.mem_append.mp (hentries ▸ hentry) with hold | hlast
    · exact (h.le_last entry hold).trans (by simp [hid])
    · rw [List.mem_singleton.mp hlast]
  · rw [hentries, List.map_append]
    refine List.nodup_append.mpr ⟨h.nodup, List.nodup_singleton _, ?_⟩
    rintro a ha b hb rfl
    obtain ⟨entry, hentry, hsame⟩ := List.mem_map.mp ha
    have hle := h.le_last entry hentry
    have hlast : entry.2.1 = id := hsame.trans (by rw [List.mem_singleton.mp hb])
    omega

/-- The row `id` of the slot `key` has been brought to a status, by calls of these targets and these
writes, and nothing else has changed. -/
structure Moves (id : ℕ) (key : DueKey) (s s' : Store) (status : String)
    (targets : List (Slot × Except String DispatchResult)) (writes : List ℕ) : Prop where
  row : ∃ row, s'.db.dispatches.get? key = some (id, row) ∧ row.dispatchStatus = status
  others : ∀ key', key' ≠ key → s'.db.dispatches.get? key' = s.db.dispatches.get? key'
  numbers : s'.db.dispatches.entries.map (fun entry ↦ (entry.1, entry.2.1))
    = s.db.dispatches.entries.map fun entry ↦ (entry.1, entry.2.1)
  last : s'.db.lastDispatchId = s.db.lastDispatchId
  claims : claimsOf s'.log = claimsOf s.log
  targets : targetsOf s'.log = targetsOf s.log ++ targets
  writes : writesOf s'.log = writesOf s.log ++ writes

section Moves

variable {o : Surroundings} {id : ℕ} {key : DueKey} {s s' s'' : Store} {status status' : String}
variable {targets targets' : List (Slot × Except String DispatchResult)} {writes writes' : List ℕ}

theorem Moves.numbered (h : Moves id key s s' status targets writes) (hs : s.db.Numbered) :
    s'.db.Numbered := by
  have hids : s'.db.dispatches.entries.map (fun entry ↦ entry.2.1)
      = s.db.dispatches.entries.map fun entry ↦ entry.2.1 := by
    have hnumbers := congrArg (List.map Prod.snd) h.numbers
    rw [List.map_map, List.map_map] at hnumbers
    exact hnumbers
  refine ⟨fun entry hentry ↦ ?_, by rw [hids]; exact hs.nodup⟩
  have hmem : entry.2.1 ∈ s'.db.dispatches.entries.map fun entry ↦ entry.2.1 :=
    List.mem_map_of_mem hentry
  rw [hids] at hmem
  obtain ⟨entry', hentry', hid⟩ := List.mem_map.mp hmem
  rw [h.last, ← hid]
  exact hs.le_last entry' hentry'

theorem Moves.trans (h : Moves id key s s' status targets writes)
    (h' : Moves id key s' s'' status' targets' writes') :
    Moves id key s s'' status' (targets ++ targets') (writes ++ writes') where
  row := h'.row
  others key' hne := (h'.others key' hne).trans (h.others key' hne)
  numbers := h'.numbers.trans h.numbers
  last := h'.last.trans h.last
  claims := h'.claims.trans h.claims
  targets := by rw [h'.targets, h.targets, List.append_assoc]
  writes := by rw [h'.writes, h.writes, List.append_assoc]

/-- A call that leaves the database as it is. -/
theorem moves_of_db_eq {row : DispatchRow} (hrow : s.db.dispatches.get? key = some (id, row))
    {e : CallEvent} (hclaims : claimsOf [e] = []) (hwrites : writesOf [e] = writes) :
    Moves id key s ⟨s.db, s.log ++ [e]⟩ row.dispatchStatus (targetsOf [e]) writes where
  row := ⟨row, hrow, rfl⟩
  others _ _ := rfl
  numbers := rfl
  last := rfl
  claims := by rw [claimsOf, List.filterMap_append, ← claimsOf, ← claimsOf, hclaims, List.append_nil]
  targets := List.filterMap_append
  writes := by rw [writesOf, List.filterMap_append, ← writesOf, ← writesOf, hwrites]

/-- A status write of the row takes effect. -/
theorem moves_updateDispatch (hs : s.db.Numbered) {row : DispatchRow}
    (hrow : s.db.dispatches.get? key = some (id, row)) (patch : DispatchPatch)
    (answer : Except String Unit) :
    Moves id key s ⟨s.db.updateDispatch id patch, s.log ++ [⟨.updateDispatch id patch, answer⟩]⟩
      patch.dispatchStatus [] [id] where
  row := by
    have hget : (s.db.updateDispatch id patch).dispatches.get? key = some (id, { row with
        dispatchedAt := some patch.dispatchedAt
        dispatchStatus := patch.dispatchStatus
        reason := patch.reason
        responseStatus := patch.responseStatus
        responsePreview := patch.responsePreview }) := by
      rw [Database.updateDispatch, OrderedMap.get?_mapValues, hrow, Option.map_some, if_pos rfl]
    exact ⟨_, hget, rfl⟩
  others key' hne := by
    rw [Database.updateDispatch, OrderedMap.get?_mapValues]
    rcases hget : s.db.dispatches.get? key' with _ | ⟨id', row'⟩
    · rfl
    · have hid : id' ≠ id := by
        rintro rfl
        have hkey := (hs.dispatchKey_eq hget).symm.trans (hs.dispatchKey_eq hrow)
        exact hne (Option.some.inj hkey)
      rw [Option.map_some, if_neg hid]
  numbers := by
    rw [Database.updateDispatch, OrderedMap.mapValues, List.map_map]
    refine List.map_congr_left fun entry _ ↦ ?_
    rw [Function.comp_apply]
    split <;> rfl
  last := rfl
  claims := by
    rw [claimsOf, List.filterMap_append]
    exact List.append_nil _
  targets := List.filterMap_append
  writes := List.filterMap_append

end Moves

/-! ## What becomes of a slot -/

section Settle

variable {o : Surroundings} {id : ℕ} {key : DueKey} {s : Store} {row : DispatchRow}

/-- The loop runs against the surroundings, and may make any call. -/
abbrev Surroundings.env (o : Surroundings) : Env Call.Answer String Store :=
  served o.serve fun _ _ ↦ True

/-- **A status write** brings the row to the new status, or leaves it, and throws unless it is
answered. -/
theorem serve_updateDispatch (hs : s.db.Numbered)
    (hrow : s.db.dispatches.get? key = some (id, row)) {write : Write}
    (hwrite : (if id ∈ writesOf s.log then o.secondWrite key else o.firstWrite key) = write)
    (patch : DispatchPatch) :
    Moves id key s (o.serve s (.updateDispatch id patch)).2
        (lastWrite row.dispatchStatus patch.dispatchStatus write).status [] [id] ∧
      (o.serve s (.updateDispatch id patch)).1
        = if (lastWrite row.dispatchStatus patch.dispatchStatus write).stops
          then .error o.failure else .ok () := by
  have hnext : o.write s id = write := by
    rw [Surroundings.write, hs.dispatchKey_eq hrow]
    exact hwrite
  simp only [Surroundings.serve, Surroundings.reply, hnext]
  rcases write
  · exact ⟨moves_updateDispatch hs hrow patch _, rfl⟩
  · exact ⟨moves_of_db_eq hrow rfl rfl, rfl⟩
  · exact ⟨moves_updateDispatch hs hrow patch _, rfl⟩

/-- A reading of the clock and a status write, as the last thing that is done. -/
theorem wp_record (hs : s.db.Numbered) (hrow : s.db.dispatches.get? key = some (id, row))
    {write : Write}
    (hwrite : (if id ∈ writesOf s.log then o.secondWrite key else o.firstWrite key) = write)
    (patch : IsoTime → DispatchPatch) {status : String}
    (hstatus : ∀ t, (patch t).dispatchStatus = status) {α : Type} (a : α) :
    wp o.env (do
        let dispatchedAt ← await .now
        await (.updateDispatch id (patch dispatchedAt))
        pure a)
      (fun s' r ↦ Moves id key s s' (lastWrite row.dispatchStatus status write).status [] [id] ∧
        r = if (lastWrite row.dispatchStatus status write).stops then .error o.failure else .ok a)
      s := by
  refine wp_bind.mpr (wp_await_served.mpr ⟨trivial, ?_⟩)
  refine wp_bind.mpr (wp_await_served.mpr ⟨trivial, ?_⟩)
  generalize ht : o.clock s.log.length = t
  have hnow : Moves id key s (o.serve s .now).2 row.dispatchStatus [] [] :=
    moves_of_db_eq hrow rfl rfl
  have hwrite' : (if id ∈ writesOf (o.serve s .now).2.log then o.secondWrite key
      else o.firstWrite key) = write := by
    rw [hnow.writes, List.append_nil]
    exact hwrite
  obtain ⟨hmoves, hanswer⟩ := serve_updateDispatch (o := o) (s := (o.serve s .now).2) hs hrow hwrite'
    (patch t)
  rw [hstatus] at hmoves hanswer
  rw [hanswer]
  have hall := hnow.trans hmoves
  split
  · exact ⟨hall, rfl⟩
  · exact ⟨hall, rfl⟩

/-- The status that the handler writes. -/
def failedPatch (message : String) (dispatchedAt : IsoTime) : DispatchPatch :=
  { dispatchedAt
    dispatchStatus := "failed"
    reason := some message
    responseStatus := none
    responsePreview := none }

/-- The status that an answer of the target is recorded with. -/
def answeredPatch (result : DispatchResult) (dispatchedAt : IsoTime) : DispatchPatch :=
  { dispatchedAt
    dispatchStatus := if result.ok then "dispatched" else "failed"
    reason := if result.ok then none else result.reason
    responseStatus := some result.responseStatus
    responsePreview := result.responsePreview }

/-- The status of a dry run. -/
def dryRunPatch (dispatchedAt : IsoTime) : DispatchPatch :=
  { dispatchedAt
    dispatchStatus := "dry_run"
    reason := some "dry_run_enabled"
    responseStatus := none
    responsePreview := none }

/-- What a slot is left with, after the calls of these targets. -/
def Settles (o : Surroundings) (id : ℕ) (slot : Slot) (s s' : Store) (r : Except String Summary) :
    Prop :=
  ∃ writes, (∀ id' ∈ writes, id' = id) ∧
    Moves id (slotKey slot) s s' (o.settle slot).status
      (if slot.1.dryRun = 1 then [] else [(slot, o.target slot.1 slot.2)]) writes ∧
    ((∃ e, r = .error e) ↔ (o.settle slot).stops = true)

theorem exists_error_ite {α : Type} {stops : Bool} {message : String} {a : α}
    {r : Except String α} (h : r = if stops then .error message else .ok a) :
    (∃ e, r = .error e) ↔ stops = true := by
  rcases stops
  · refine iff_of_false ?_ Bool.false_ne_true
    rintro ⟨e, he⟩
    cases h.symm.trans he
  · exact iff_of_true ⟨message, h⟩ rfl

/-- **A won claim that is live**: its target is called once, and its status is what the answer and the
writes make it. -/
theorem wp_dispatchClaimed {job : Job} {dueAt : IsoTime} (hs : s.db.Numbered)
    (hrow : s.db.dispatches.get? (job.jobKey, dueAt) = some (id, row))
    (hstatus : row.dispatchStatus = "claimed") (hfresh : id ∉ writesOf s.log)
    (hlive : job.dryRun ≠ 1) (summary : Summary) :
    wp o.env (dispatchClaimed job dueAt id summary) (Settles o id (job, dueAt) s) s := by
  refine wp_tryCatch.mpr (wp_bind.mpr (wp_await_served.mpr ⟨trivial, ?_⟩))
  have hcall : Moves id (job.jobKey, dueAt) s (o.serve s (.dispatchTarget job dueAt)).2
      row.dispatchStatus [((job, dueAt), o.target job dueAt)] [] := moves_of_db_eq hrow rfl rfl
  have hnone : id ∉ writesOf (o.serve s (.dispatchTarget job dueAt)).2.log := by
    rw [hcall.writes, List.append_nil]
    exact hfresh
  have hfirst : (if id ∈ writesOf (o.serve s (.dispatchTarget job dueAt)).2.log
      then o.secondWrite (job.jobKey, dueAt) else o.firstWrite (job.jobKey, dueAt))
        = o.firstWrite (job.jobKey, dueAt) := if_neg hnone
  have hanswer : (o.serve s (.dispatchTarget job dueAt)).1 = o.target job dueAt := rfl
  rw [hanswer]
  generalize (o.serve s (.dispatchTarget job dueAt)).2 = s₁ at hcall hfirst ⊢
  have hs₁ := hcall.numbered hs
  obtain ⟨row₁, hrow₁, hstatus₁⟩ := hcall.row
  rw [hstatus] at hstatus₁
  rcases htarget : o.target job dueAt with message | result
  · -- the target failed: the handler records it
    rw [htarget] at hcall
    refine wp_mono ?_ (wp_record hs₁ hrow₁ hfirst (failedPatch message) (fun _ ↦ rfl) _)
    rintro s' r ⟨hmoves, hr⟩
    rw [hstatus₁] at hmoves hr
    refine ⟨[id], by simp, ?_, ?_⟩
    · rw [if_neg hlive, Surroundings.settle, if_neg hlive, htarget]
      exact (hcall.trans hmoves)
    · rw [exists_error_ite hr, Surroundings.settle, if_neg hlive, htarget]
      rfl
  · -- the target answered: its status is recorded, and if that fails the handler writes again
    rw [htarget] at hcall
    have hanswered : ∀ t, (answeredPatch result t).dispatchStatus
        = if result.ok then "dispatched" else "failed" := fun _ ↦ rfl
    refine wp_mono ?_ (wp_record hs₁ hrow₁ hfirst (answeredPatch result) hanswered _)
    rintro s₂ r ⟨hmoves, hr⟩
    rw [hstatus₁] at hmoves hr
    have hboth := hcall.trans hmoves
    have hsettle : o.settle (job, dueAt)
        = match o.firstWrite (job.jobKey, dueAt) with
          | .done => ⟨if result.ok then "dispatched" else "failed", false⟩
          | .lost => lastWrite "claimed" "failed" (o.secondWrite (job.jobKey, dueAt))
          | .unanswered => lastWrite (if result.ok then "dispatched" else "failed") "failed"
              (o.secondWrite (job.jobKey, dueAt)) := by
      rw [Surroundings.settle, if_neg hlive, htarget]
      rfl
    -- a second write finds the row as the first one left it
    have hsecond : ∀ {status : String}, r = .error o.failure →
        Moves id (job.jobKey, dueAt) s s₂ status [((job, dueAt), .ok result)] [id] →
        o.settle (job, dueAt) = lastWrite status "failed" (o.secondWrite (job.jobKey, dueAt)) →
        afterCatch o.env (fun message ↦ do
          let dispatchedAt ← await .now
          await (.updateDispatch id (failedPatch message dispatchedAt))
          pure { summary with jobsFailed := summary.jobsFailed + 1 })
          (Settles o id (job, dueAt) s) s₂ r := by
      intro status hr hstate hsettle
      rw [hr]
      obtain ⟨row₂, hrow₂, hstatus₂⟩ := hstate.row
      have hagain : (if id ∈ writesOf s₂.log then o.secondWrite (job.jobKey, dueAt)
          else o.firstWrite (job.jobKey, dueAt)) = o.secondWrite (job.jobKey, dueAt) := by
        refine if_pos ?_
        rw [hstate.writes]
        simp
      refine wp_mono ?_ (wp_record (hstate.numbered hs) hrow₂ hagain (failedPatch o.failure)
        (fun _ ↦ rfl) _)
      rintro s₃ r' ⟨hmoves', hr'⟩
      rw [hstatus₂] at hmoves' hr'
      refine ⟨[id, id], by simp, ?_, ?_⟩
      · rw [if_neg hlive, hsettle, htarget]
        exact hstate.trans hmoves'
      · rw [exists_error_ite hr', hsettle]
    rcases hwrite : o.firstWrite (job.jobKey, dueAt) with _ | _ | _
    · rw [hwrite] at hboth hr hsettle
      rw [hr]
      refine ⟨[id], by simp, ?_, ?_⟩
      · rw [if_neg hlive, hsettle, htarget]
        exact hboth
      · rw [hsettle]
        simp
    · rw [hwrite] at hboth hr hsettle
      exact hsecond hr hboth hsettle
    · rw [hwrite] at hboth hr hsettle
      exact hsecond hr hboth hsettle

/-- **What becomes of a won claim.** -/
theorem wp_useClaim {job : Job} {dueAt : IsoTime} (hs : s.db.Numbered)
    (hrow : s.db.dispatches.get? (job.jobKey, dueAt) = some (id, row))
    (hstatus : row.dispatchStatus = "claimed") (hfresh : id ∉ writesOf s.log) (summary : Summary) :
    wp o.env (useClaim job dueAt summary (some id)) (Settles o id (job, dueAt) s) s := by
  rw [useClaim]
  by_cases hdry : job.dryRun = 1
  · simp only [if_pos hdry]
    refine wp_mono ?_ (wp_record hs hrow (if_neg hfresh) dryRunPatch (fun _ ↦ rfl) _)
    rintro s' r ⟨hmoves, hr⟩
    rw [hstatus] at hmoves hr
    have hsettle : o.settle (job, dueAt)
        = lastWrite "claimed" "dry_run" (o.firstWrite (job.jobKey, dueAt)) := by
      rw [Surroundings.settle, if_pos hdry]
      rfl
    refine ⟨[id], by simp, ?_, ?_⟩
    · rw [if_pos hdry, hsettle]
      exact hmoves
    · rw [exists_error_ite hr, hsettle]
  · simp only [if_neg hdry]
    exact wp_dispatchClaimed hs hrow hstatus hfresh hdry _

end Settle

/-! ## What becomes of a list of slots -/

/-- The claim of a slot is won: neither the database nor an earlier slot holds its key. -/
def Wins (db : Database) (before : List Slot) (slot : Slot) : Prop :=
  slotKey slot ∉ db.dispatches.keys ∧ ∀ slot' ∈ before, slotKey slot' ≠ slotKey slot

instance (db : Database) (before : List Slot) (slot : Slot) : Decidable (Wins db before slot) :=
  inferInstanceAs (Decidable (_ ∧ _))

/-- The slots have been asked for, in order, and those that were won have been settled. -/
structure Played (o : Surroundings) (db : Database) (slots : List Slot) (s : Store) : Prop where
  numbered : s.db.Numbered
  writes : ∀ id ∈ writesOf s.log, id ≤ s.db.lastDispatchId
  keys : ∀ key, key ∈ s.db.dispatches.keys ↔
    key ∈ db.dispatches.keys ∨ ∃ slot ∈ slots, slotKey slot = key
  won : ∀ before slot after, slots = before ++ slot :: after → Wins db before slot →
    ∃ id row, s.db.dispatches.get? (slotKey slot) = some (id, row) ∧
      row.dispatchStatus = (o.settle slot).status
  claims : claimsOf s.log = slots.map slotKey
  targets : ∀ slot answer, (slot, answer) ∈ targetsOf s.log ↔
    answer = o.target slot.1 slot.2 ∧ slot.1.dryRun ≠ 1 ∧
      ∃ before after, slots = before ++ slot :: after ∧ Wins db before slot

section Played

variable {o : Surroundings} {db : Database} {slots : List Slot} {s : Store} {slot : Slot}

theorem played_nil (hdb : db.Numbered) : Played o db [] ⟨db, []⟩ where
  numbered := hdb
  writes id hid := absurd hid List.not_mem_nil
  keys key := by simp
  won before slot after h := absurd h (by simp)
  claims := rfl
  targets slot answer := by simp [targetsOf]

/-- Where the last of some slots stands. -/
theorem append_singleton_eq_iff {before after : List Slot} {slot' : Slot} :
    slots ++ [slot] = before ++ slot' :: after ↔
      (before = slots ∧ slot' = slot ∧ after = []) ∨
        ∃ rest, after = rest ++ [slot] ∧ slots = before ++ slot' :: rest := by
  rcases List.eq_nil_or_concat after with rfl | ⟨rest, last, rfl⟩
  · rw [List.append_singleton_inj]
    constructor
    · rintro ⟨rfl, rfl⟩
      exact Or.inl ⟨rfl, rfl, rfl⟩
    · rintro (⟨rfl, rfl, -⟩ | ⟨rest, hrest, -⟩)
      · exact ⟨rfl, rfl⟩
      · exact absurd hrest (by simp)
  · rw [List.concat_eq_append,
      show before ++ slot' :: (rest ++ [last]) = (before ++ slot' :: rest) ++ [last] by simp,
      List.append_singleton_inj]
    constructor
    · rintro ⟨rfl, rfl⟩
      exact Or.inr ⟨rest, rfl, rfl⟩
    · rintro (⟨-, -, hnil⟩ | ⟨rest', hrest, rfl⟩)
      · exact absurd hnil (by simp)
      · obtain ⟨rfl, rfl⟩ := List.append_singleton_inj.mp hrest
        exact ⟨rfl, rfl⟩

/-- A claim that is lost leaves everything as it was. -/
theorem Played.lost (h : Played o db slots s) (hlost : ¬Wins db slots slot) {s' : Store}
    (hdb : s'.db = s.db) (hclaims : claimsOf s'.log = claimsOf s.log ++ [slotKey slot])
    (htargets : targetsOf s'.log = targetsOf s.log) (hwrites : writesOf s'.log = writesOf s.log) :
    Played o db (slots ++ [slot]) s' where
  numbered := hdb ▸ h.numbered
  writes := by
    rw [hdb, hwrites]
    exact h.writes
  keys key := by
    rw [hdb, h.keys]
    simp only [List.mem_append, List.mem_singleton]
    constructor
    · rintro (hold | ⟨slot', hslot', hkey⟩)
      · exact Or.inl hold
      · exact Or.inr ⟨slot', Or.inl hslot', hkey⟩
    · rintro (hold | ⟨slot', hslot' | rfl, hkey⟩)
      · exact Or.inl hold
      · exact Or.inr ⟨slot', hslot', hkey⟩
      · by_contra hnew
        push Not at hnew
        exact hlost ⟨hkey ▸ hnew.1, fun slot'' hslot'' ↦ hkey ▸ hnew.2 slot'' hslot''⟩
  won before slot' after hsplit hwins := by
    rw [hdb]
    rcases append_singleton_eq_iff.mp hsplit with ⟨rfl, rfl, -⟩ | ⟨rest, -, hsplit⟩
    · exact absurd hwins hlost
    · exact h.won before slot' rest hsplit hwins
  claims := by rw [hclaims, h.claims, List.map_append, List.map_singleton]
  targets slot' answer := by
    rw [htargets, h.targets]
    refine and_congr_right fun _ ↦ and_congr_right fun _ ↦ ⟨?_, ?_⟩
    · rintro ⟨before, after, rfl, hwins⟩
      exact ⟨before, after ++ [slot], by simp, hwins⟩
    · rintro ⟨before, after, hsplit, hwins⟩
      rcases append_singleton_eq_iff.mp hsplit with ⟨rfl, rfl, -⟩ | ⟨rest, -, hsplit⟩
      · exact absurd hwins hlost
      · exact ⟨before, rest, hsplit, hwins⟩

/-- A claim that is won adds its row, which is then settled. -/
theorem Played.settled (h : Played o db slots s) (hwins : Wins db slots slot) {s₂ s' : Store}
    {row : DispatchRow} {id : ℕ} (hid : id = s.db.lastDispatchId + 1)
    (hdb : s₂.db = { s.db with
      dispatches := s.db.dispatches.set (slotKey slot) (id, row)
      lastDispatchId := id })
    (hclaims : claimsOf s₂.log = claimsOf s.log ++ [slotKey slot])
    (htargets : targetsOf s₂.log = targetsOf s.log) (hwrites : writesOf s₂.log = writesOf s.log)
    (hnew : slotKey slot ∉ s.db.dispatches.keys) {writes : List ℕ}
    (honly : ∀ id' ∈ writes, id' = id)
    (hmoves : Moves id (slotKey slot) s₂ s' (o.settle slot).status
      (if slot.1.dryRun = 1 then [] else [(slot, o.target slot.1 slot.2)]) writes) :
    Played o db (slots ++ [slot]) s' where
  numbered := by
    refine hmoves.numbered ?_
    rw [hdb]
    exact h.numbered.set hnew hid
  writes := by
    rw [hmoves.writes, hmoves.last, hdb, hwrites]
    intro id' hid'
    rcases List.mem_append.mp hid' with hold | hnew
    · exact (h.writes id' hold).trans (by simp [hid])
    · exact (honly id' hnew).le
  keys key := by
    have hsame : s'.db.dispatches.keys = s₂.db.dispatches.keys := by
      have hnumbers := congrArg (List.map Prod.fst) hmoves.numbers
      rw [List.map_map, List.map_map] at hnumbers
      exact hnumbers
    rw [hsame, hdb, OrderedMap.mem_keys_set, h.keys]
    simp only [List.mem_append, List.mem_singleton]
    constructor
    · rintro (rfl | hold | ⟨slot', hslot', hkey⟩)
      · exact Or.inr ⟨slot, Or.inr rfl, rfl⟩
      · exact Or.inl hold
      · exact Or.inr ⟨slot', Or.inl hslot', hkey⟩
    · rintro (hold | ⟨slot', hslot' | rfl, rfl⟩)
      · exact Or.inr (Or.inl hold)
      · exact Or.inr (Or.inr ⟨slot', hslot', rfl⟩)
      · exact Or.inl rfl
  won before slot' after hsplit hwins' := by
    rcases append_singleton_eq_iff.mp hsplit with ⟨rfl, rfl, -⟩ | ⟨rest, -, hsplit⟩
    · obtain ⟨row', hrow', hstatus⟩ := hmoves.row
      exact ⟨id, row', hrow', hstatus⟩
    · have hne : slotKey slot' ≠ slotKey slot := hwins.2 slot' (by rw [hsplit]; simp)
      obtain ⟨id', row', hrow', hstatus⟩ := h.won before slot' rest hsplit hwins'
      refine ⟨id', row', ?_, hstatus⟩
      rw [hmoves.others _ hne, hdb, OrderedMap.get?_set_of_ne _ _ hne]
      exact hrow'
  claims := by
    rw [hmoves.claims, hclaims, h.claims, List.map_append, List.map_singleton]
  targets slot' answer := by
    rw [hmoves.targets, htargets, List.mem_append, h.targets]
    constructor
    · rintro (⟨hanswer, hlive, before, after, rfl, hwins'⟩ | hnew)
      · exact ⟨hanswer, hlive, before, after ++ [slot], by simp, hwins'⟩
      · by_cases hdry : slot.1.dryRun = 1
        · rw [if_pos hdry] at hnew
          exact absurd hnew List.not_mem_nil
        · rw [if_neg hdry, List.mem_singleton, Prod.mk.injEq] at hnew
          obtain ⟨rfl, rfl⟩ := hnew
          exact ⟨rfl, hdry, slots, [], rfl, hwins⟩
    · rintro ⟨hanswer, hlive, before, after, hsplit, hwins'⟩
      rcases append_singleton_eq_iff.mp hsplit with ⟨rfl, rfl, -⟩ | ⟨rest, -, hsplit⟩
      · right
        rw [if_neg hlive, hanswer]
        exact List.mem_singleton_self _
      · exact Or.inl ⟨hanswer, hlive, before, rest, hsplit, hwins'⟩

end Played

end UkAqOps.Scheduler

import UkAqOps.Scheduler.History

/-!
# Invocations side by side

Any number of invocations run on one database, their calls interleaved in any order. The unique keys
let one claim of a minute and one claim of a due minute be won in the whole run, whoever asks; each
invocation uses a claim at most once, so no due minute is triggered twice.
-/

namespace UkAqOps.Scheduler

open Effects

variable {ι : Type} [DecidableEq ι]

abbrev SchedulerWorld (ι : Type) := World Call.Answer String Outcome ι Database

/-- Every invocation is about to start on the database `db`. -/
def start (host : Host) (db : Database) (invocations : ι → Invocation) : SchedulerWorld ι :=
  ⟨db, fun i ↦ runScheduler host (invocations i), []⟩

/-! ## Rows stay -/

theorem insertRun_eq (db : Database) (key : SlotKey) (row : RunRow) :
    ((insertedId (db.insertRun key row).1).isSome = true ↔ key ∉ db.runs.keys) ∧
      (∀ key', key' ∈ (db.insertRun key row).2.runs.keys ↔ key' = key ∨ key' ∈ db.runs.keys) ∧
      (db.insertRun key row).2.dispatches = db.dispatches := by
  rcases hget : db.runs.get? key with _ | row'
  · have hnew : key ∉ db.runs.keys := db.runs.get?_eq_none_iff.mp hget
    rw [Database.insertRun, hget]
    refine ⟨iff_of_true ?_ hnew, fun key' ↦ OrderedMap.mem_keys_set, rfl⟩
    simp [insertedId, rowIdOf]
  · have hold : key ∈ db.runs.keys := by
      rw [← OrderedMap.get?_isSome_iff, hget]
      rfl
    rw [Database.insertRun, hget]
    refine ⟨iff_of_false (by simp [insertedId]) (fun h ↦ h hold), fun key' ↦ ?_, rfl⟩
    exact ⟨Or.inr, fun h ↦ h.elim (fun h ↦ by rw [h]; exact hold) id⟩

theorem insertDispatch_eq (db : Database) (key : DueKey) (row : DispatchRow) :
    ((insertedId (db.insertDispatch key row).1).isSome = true ↔ key ∉ db.dispatches.keys) ∧
      (∀ key', key' ∈ (db.insertDispatch key row).2.dispatches.keys ↔
        key' = key ∨ key' ∈ db.dispatches.keys) ∧
      (db.insertDispatch key row).2.runs = db.runs := by
  rcases hget : db.dispatches.get? key with _ | row'
  · have hnew : key ∉ db.dispatches.keys := db.dispatches.get?_eq_none_iff.mp hget
    rw [Database.insertDispatch, hget]
    refine ⟨iff_of_true ?_ hnew, fun key' ↦ OrderedMap.mem_keys_set, rfl⟩
    simp [insertedId, rowIdOf]
  · have hold : key ∈ db.dispatches.keys := by
      rw [← OrderedMap.get?_isSome_iff, hget]
      rfl
    rw [Database.insertDispatch, hget]
    refine ⟨iff_of_false (by simp [insertedId]) (fun h ↦ h hold), fun key' ↦ ?_, rfl⟩
    exact ⟨Or.inr, fun h ↦ h.elim (fun h ↦ by rw [h]; exact hold) id⟩

/-- No call removes a row. -/
theorem Succeeds.keys_subset {db db' : Database} {c : Call} {answer : c.Answer}
    (h : Succeeds db c answer db') :
    db.runs.keys ⊆ db'.runs.keys ∧ db.dispatches.keys ⊆ db'.dispatches.keys := by
  cases c with
  | insertRun key row =>
    have hdb : db' = (db.insertRun key row).2 := (congrArg Prod.snd h).symm
    rw [hdb]
    exact ⟨fun key' hkey' ↦ ((insertRun_eq db key row).2.1 key').mpr (Or.inr hkey'),
      by rw [(insertRun_eq db key row).2.2]; exact fun _ hk ↦ hk⟩
  | insertDispatch key row =>
    have hdb : db' = (db.insertDispatch key row).2 := (congrArg Prod.snd h).symm
    rw [hdb]
    exact ⟨by rw [(insertDispatch_eq db key row).2.2]; exact fun _ hk ↦ hk,
      fun key' hkey' ↦ ((insertDispatch_eq db key row).2.1 key').mpr (Or.inr hkey')⟩
  | selectRun key =>
    rw [h.2]
    exact ⟨fun _ hk ↦ hk, fun _ hk ↦ hk⟩
  | updateDispatch id patch =>
    rw [show db' = db.updateDispatch id patch from h, Database.updateDispatch]
    exact ⟨fun _ hk ↦ hk, by rw [OrderedMap.keys_mapValues]; exact fun _ hk ↦ hk⟩
  | finishRun id patch =>
    rw [show db' = db.finishRun id patch from h, Database.finishRun]
    exact ⟨by rw [OrderedMap.keys_mapValues]; exact fun _ hk ↦ hk, fun _ hk ↦ hk⟩
  | listEnabledJobs => rw [show db' = db from h]; exact ⟨fun _ hk ↦ hk, fun _ hk ↦ hk⟩
  | now => rw [show db' = db from h]; exact ⟨fun _ hk ↦ hk, fun _ hk ↦ hk⟩
  | dispatchTarget job dueAt => rw [show db' = db from h]; exact ⟨fun _ hk ↦ hk, fun _ hk ↦ hk⟩

theorem Answers.keys_subset {db db' : Database} {c : Call} {r : Except String c.Answer}
    (h : Answers db c r db') :
    db.runs.keys ⊆ db'.runs.keys ∧ db.dispatches.keys ⊆ db'.dispatches.keys := by
  rcases r with message | answer
  · rcases h.2 with hdb | ⟨answer, hdb⟩
    · rw [hdb]
      exact ⟨fun _ hk ↦ hk, fun _ hk ↦ hk⟩
    · exact hdb.keys_subset
  · exact Succeeds.keys_subset h

/-- A claim that was won found no row and left one. -/
theorem Answers.of_winsMinute {db db' : Database} {c : Call} {r : Except String c.Answer}
    (h : Answers db c r db') {key : SlotKey} (hwins : winsMinute key ⟨c, r⟩ = true) :
    key ∉ db.runs.keys ∧ key ∈ db'.runs.keys := by
  rcases r with message | answer
  · cases c <;> simp [winsMinute] at hwins
  · cases c with
    | insertRun key' row =>
      rw [winsMinute, Bool.and_eq_true, decide_eq_true_eq] at hwins
      obtain ⟨rfl, hid⟩ := hwins
      have hanswer : answer = (db.insertRun key' row).1 := (congrArg Prod.fst h).symm
      have hdb : db' = (db.insertRun key' row).2 := (congrArg Prod.snd h).symm
      obtain ⟨hnew, hkeys, -⟩ := insertRun_eq db key' row
      rw [hanswer] at hid
      rw [hdb]
      exact ⟨hnew.mp hid, (hkeys key').mpr (Or.inl rfl)⟩
    | _ => simp [winsMinute] at hwins

theorem Answers.of_winsDue {db db' : Database} {c : Call} {r : Except String c.Answer}
    (h : Answers db c r db') {key : DueKey} (hwins : winsDue key ⟨c, r⟩ = true) :
    key ∉ db.dispatches.keys ∧ key ∈ db'.dispatches.keys := by
  rcases r with message | answer
  · cases c <;> simp [winsDue] at hwins
  · cases c with
    | insertDispatch key' row =>
      rw [winsDue, Bool.and_eq_true, decide_eq_true_eq] at hwins
      obtain ⟨rfl, hid⟩ := hwins
      have hanswer : answer = (db.insertDispatch key' row).1 := (congrArg Prod.fst h).symm
      have hdb : db' = (db.insertDispatch key' row).2 := (congrArg Prod.snd h).symm
      obtain ⟨hnew, hkeys, -⟩ := insertDispatch_eq db key' row
      rw [hanswer] at hid
      rw [hdb]
      exact ⟨hnew.mp hid, (hkeys key').mpr (Or.inl rfl)⟩
    | _ => simp [winsDue] at hwins

/-! ## The invariant of a run -/

/-- At most one entry of the log wins `key`, and none as long as `key` has no row. -/
def WonOnce {κ : Type} (wins : CallEvent → Bool) (key : κ) (rows : List κ)
    (log : List (ι × CallEvent)) : Prop :=
  log.countP (fun entry ↦ wins entry.2) ≤ 1 ∧
    (key ∉ rows → log.countP (fun entry ↦ wins entry.2) = 0)

omit [DecidableEq ι] in
theorem wonOnce_nil {κ : Type} (wins : CallEvent → Bool) (key : κ) (rows : List κ) :
    WonOnce wins key rows ([] : List (ι × CallEvent)) := ⟨Nat.zero_le _, fun _ ↦ rfl⟩

omit [DecidableEq ι] in
theorem WonOnce.append {κ : Type} {wins : CallEvent → Bool} {key : κ} {rows rows' : List κ}
    {log : List (ι × CallEvent)} (h : WonOnce wins key rows log) {entry : ι × CallEvent}
    (hsub : rows ⊆ rows') (hwin : wins entry.2 = true → key ∉ rows ∧ key ∈ rows') :
    WonOnce wins key rows' (log ++ [entry]) := by
  rw [WonOnce, List.countP_append, List.countP_singleton]
  by_cases hwins : wins entry.2 = true
  · obtain ⟨hnew, hstored⟩ := hwin hwins
    have hnone := h.2 hnew
    rw [if_pos hwins, hnone]
    exact ⟨le_rfl, fun hno ↦ absurd hstored hno⟩
  · rw [if_neg hwins, Nat.add_zero]
    exact ⟨h.1, fun hno ↦ h.2 fun hmem ↦ hno (hsub hmem)⟩

/-- What holds of every state that a run reaches: no claim is won twice, no invocation triggers more
than it has won, and what is triggered is due in the slot of the invocation and no dry run. -/
structure Invariant (host : Host) (invocations : ι → Invocation) (w : SchedulerWorld ι) :
    Prop where
  minuteOnce : ∀ key, WonOnce (winsMinute key) key w.store.runs.keys w.log
  dueOnce : ∀ key, WonOnce (winsDue key) key w.store.dispatches.keys w.log
  triggersLe : ∀ i key, (callsOf i w.log).countP (triggers key) ≤
    (callsOf i w.log).countP (winsLive key)
  triggersDue : ∀ i job dueAt r, (i, (⟨.dispatchTarget job dueAt, r⟩ : CallEvent)) ∈ w.log →
    Due host (invocations i) (callsOf i w.log) job dueAt ∧ job.dryRun ≠ 1

theorem invariant_start (host : Host) (db : Database) (invocations : ι → Invocation) :
    Invariant host invocations (start host db invocations) where
  minuteOnce key := wonOnce_nil _ key _
  dueOnce key := wonOnce_nil _ key _
  triggersLe _ _ := le_rfl
  triggersDue _ _ _ _ h := absurd h List.not_mem_nil

theorem callsOf_subset (i j : ι) (log : List (ι × CallEvent)) (e : CallEvent) :
    callsOf i log ⊆ callsOf i (log ++ [(j, e)]) := by
  rw [callsOf_append]
  exact List.subset_append_left _ _

/-- A trigger that is not allowed yet by a won claim does not happen. -/
theorem countP_triggers_append {host : Host} {invocation : Invocation} {h : List CallEvent}
    {c : Call} (hallowed : Allowed host invocation h c) (r : Except String c.Answer)
    (hle : ∀ key, h.countP (triggers key) ≤ h.countP (winsLive key)) (key : DueKey) :
    (h ++ [(⟨c, r⟩ : CallEvent)]).countP (triggers key)
      ≤ (h ++ [(⟨c, r⟩ : CallEvent)]).countP (winsLive key) := by
  rw [List.countP_append, List.countP_append, List.countP_singleton, List.countP_singleton]
  by_cases htriggers : triggers key ⟨c, r⟩ = true
  · have hspare : h.countP (triggers key) < h.countP (winsLive key) := by
      cases c with
      | dispatchTarget job dueAt =>
        have hkey : (job.jobKey, dueAt) = key := of_decide_eq_true htriggers
        rw [← hkey]
        exact hallowed.2.2
      | _ => simp [triggers] at htriggers
    rw [if_pos htriggers]
    exact le_trans hspare (Nat.le_add_right _ _)
  · rw [if_neg htriggers, Nat.add_zero]
    exact le_trans (hle key) (Nat.le_add_right _ _)

/-- One call keeps the invariant. -/
theorem invariant_after {host : Host} {invocations : ι → Invocation} {w : SchedulerWorld ι} {i : ι}
    {c : Call} {k : Except String c.Answer → Script Outcome} {r : Except String c.Answer}
    {db : Database} (h : Invariant host invocations w)
    (hallowed : Allowed host (invocations i) (callsOf i w.log) c) (hdb : Answers w.store c r db) :
    Invariant host invocations (w.after i c r k db) where
  minuteOnce key := (h.minuteOnce key).append hdb.keys_subset.1 fun hwins ↦ hdb.of_winsMinute hwins
  dueOnce key := (h.dueOnce key).append hdb.keys_subset.2 fun hwins ↦ hdb.of_winsDue hwins
  triggersLe j key := by
    by_cases hij : i = j
    · rw [← hij, World.after, callsOf_append_self]
      exact countP_triggers_append hallowed r (h.triggersLe i) key
    · rw [World.after, callsOf_append_of_ne hij]
      exact h.triggersLe j key
  triggersDue j job dueAt r' hmem := by
    rcases List.mem_append.mp hmem with hmem | hmem
    · obtain ⟨hdue, hlive⟩ := h.triggersDue j job dueAt r' hmem
      exact ⟨hdue.mono (callsOf_subset j i w.log _), hlive⟩
    · cases List.mem_singleton.mp hmem
      exact ⟨hallowed.1.mono (callsOf_subset _ _ w.log _), hallowed.2.1⟩

theorem invariant_of_reaches {host : Host} {db : Database} {invocations : ι → Invocation}
    {w : SchedulerWorld ι} (hreach : Reaches Answers (start host db invocations) w) :
    Invariant host invocations w :=
  invariant_of_reachable (fun i ↦ obeys_runScheduler host (invocations i))
    (invariant_start host db invocations)
    (fun _ _ _ _ _ _ h _ hallowed hdb ↦ invariant_after h hallowed hdb) hreach

/-! ## What a run guarantees -/

/-- How many calls of the run so far satisfy `p`, whoever made them. -/
def occurrences (p : CallEvent → Bool) (w : SchedulerWorld ι) : ℕ :=
  w.log.countP fun entry ↦ p entry.2

section Run

variable {host : Host} {db : Database} {invocations : ι → Invocation} {w : SchedulerWorld ι}

/-- The invocation has returned or thrown. -/
def Ended (p : Script Outcome) : Prop :=
  (∃ outcome, p = .ret outcome) ∨ ∃ message, p = .throw message

omit [DecidableEq ι] in
theorem winsLive_le_winsDue (key : DueKey) (h : List CallEvent) :
    h.countP (winsLive key) ≤ h.countP (winsDue key) := by
  refine List.countP_mono_left fun e _ hlive ↦ ?_
  obtain ⟨c, r⟩ := e
  rcases r with message | answer
  · cases c <;> simp [winsLive] at hlive
  · cases c with
    | insertDispatch key' row =>
      simp only [winsLive, Bool.and_eq_true] at hlive
      simp only [winsDue, Bool.and_eq_true]
      exact ⟨hlive.1.1, hlive.2⟩
    | _ => simp [winsLive] at hlive

/-- The history of one invocation counts no more than the log. -/
theorem countP_callsOf_le (p : CallEvent → Bool) (i : ι) (log : List (ι × CallEvent)) :
    (callsOf i log).countP p ≤ log.countP fun entry ↦ p entry.2 := by
  have hs : ∀ entry ∈ log, entry.1 ∈ insert i (log.map Prod.fst).toFinset := fun entry hentry ↦
    Finset.mem_insert_of_mem (List.mem_toFinset.mpr (List.mem_map_of_mem hentry))
  rw [countP_eq_sum_callsOf p log _ hs]
  exact Finset.single_le_sum (f := fun j ↦ (callsOf j log).countP p) (fun _ _ ↦ Nat.zero_le _)
    (Finset.mem_insert_self i _)

/-- No due minute is triggered twice, by whichever invocations. -/
theorem triggers_le_one (h : Invariant host invocations w) (key : DueKey) :
    occurrences (triggers key) w ≤ 1 :=
  calc occurrences (triggers key) w
      ≤ occurrences (winsLive key) w := countP_le_of_callsOf fun i ↦ h.triggersLe i key
    _ ≤ occurrences (winsDue key) w := by
        refine countP_le_of_callsOf fun i ↦ ?_
        exact winsLive_le_winsDue key _
    _ ≤ 1 := (h.dueOnce key).1

/-- The job was claimed for `slot`: at some moment of the run the invocation asked for it, and it won
the claim exactly if nobody had claimed the job before. -/
def ClaimedUnlessHeld (host : Host) (db : Database) (invocations : ι → Invocation)
    (w : SchedulerWorld ι) (i : ι) (job : Job) (slot : IsoTime) : Prop :=
  (job.jobKey, slot) ∈ w.store.dispatches.keys ∧
  ∃ v row result k db', Reaches Answers (start host db invocations) v ∧
    v.procs i = .call (.insertDispatch (job.jobKey, slot) row) k ∧
    Reaches Answers (v.after i (.insertDispatch (job.jobKey, slot) row) (.ok result) k db') w ∧
    row.dryRun = job.dryRun ∧
    ((insertedId result).isSome = true ↔ (job.jobKey, slot) ∉ v.store.dispatches.keys)

theorem Reaches.keys_subset {v w : SchedulerWorld ι} (h : Reaches Answers v w) :
    v.store.dispatches.keys ⊆ w.store.dispatches.keys := by
  induction h with
  | refl => exact fun _ hk ↦ hk
  | tail _ hstep ih =>
    obtain ⟨-, hdb⟩ := hstep
    exact fun key hkey ↦ hdb.keys_subset.2 (ih hkey)

theorem claimedUnlessHeld_of_asksFor (hreach : Reaches Answers (start host db invocations) w)
    {i : ι} {job : Job} {slot : IsoTime} (hasks : AsksFor job slot (callsOf i w.log)) :
    ClaimedUnlessHeld host db invocations w i job slot := by
  obtain ⟨row, result, hmem, hdry⟩ := hasks
  obtain ⟨v, k, db', hv, hproc, hdb, hrest⟩ :=
    exists_step_of_mem_log hreach List.not_mem_nil (mem_callsOf.mp hmem)
  obtain ⟨hwins, hkeys, -⟩ := insertDispatch_eq v.store (job.jobKey, slot) row
  have hresult : v.store.insertDispatch (job.jobKey, slot) row = (result, db') := hdb
  rw [hresult] at hwins hkeys
  exact ⟨Reaches.keys_subset hrest ((hkeys _).mpr (Or.inl rfl)),
    v, row, result, k, db', hv, hproc, hrest, hdry, hwins⟩

/-- A live claim that an invocation won is triggered once by the time it has ended. -/
theorem triggers_eq_one_of_winsLive (h : Invariant host invocations w) {i : ι} {key : DueKey}
    (hbalanced : Balanced (callsOf i w.log)) {e : CallEvent} (he : e ∈ callsOf i w.log)
    (hwins : winsLive key e = true) : (callsOf i w.log).countP (triggers key) = 1 := by
  have hpos : 0 < (callsOf i w.log).countP (winsLive key) := List.countP_pos_iff.mpr ⟨e, he, hwins⟩
  have hle : (callsOf i w.log).countP (triggers key) ≤ 1 :=
    le_trans (countP_callsOf_le _ i w.log) (triggers_le_one h key)
  rw [← hbalanced key] at hpos
  omega

theorem finished_of_ended (hreach : Reaches Answers (start host db invocations) w) {i : ι}
    (hended : Ended (w.procs i)) : Finished host (invocations i) (callsOf i w.log) := by
  have hobeys := obeys_of_reachable (fun i ↦ obeys_runScheduler host (invocations i)) hreach i
  rcases hended with ⟨outcome, hproc⟩ | ⟨message, hproc⟩
  · rw [hproc] at hobeys
    exact hobeys
  · rw [hproc] at hobeys
    exact hobeys

end Run

/-! ## A run -/

/-- A database that does as it is asked, a clock that stands at `now`, a jobs table that holds `rows`
and a target that answers `result`. -/
def serve (rows : List JobRow) (now : IsoTime) (result : DispatchResult) (db : Database) :
    (c : Call) → Except String c.Answer × Database
  | .insertRun key row => (.ok (db.insertRun key row).1, (db.insertRun key row).2)
  | .selectRun key => (.ok (db.runs.get? key), db)
  | .listEnabledJobs => (.ok rows, db)
  | .insertDispatch key row => (.ok (db.insertDispatch key row).1, (db.insertDispatch key row).2)
  | .updateDispatch id patch => (.ok (), db.updateDispatch id patch)
  | .finishRun id patch => (.ok (), db.finishRun id patch)
  | .now => (.ok now, db)
  | .dispatchTarget _ _ => (.ok result, db)

theorem answers_serve (rows : List JobRow) (now : IsoTime) (result : DispatchResult)
    (db : Database) (c : Call) :
    Answers db c (serve rows now result db c).1 (serve rows now result db c).2 := by
  cases c with
  | selectRun key => exact ⟨rfl, rfl⟩
  | _ => exact rfl

/-- Upper-case text is left alone, integers are decimal. -/
def sampleHost : Host where
  toUpperCase text := text
  integerOf text := (parseDigits 10 text.toList).map Int.ofNat
  parseJson text := .ok (.str text)
  parseUrl _ := none

/-- A job that is due every minute. -/
def sampleRow : JobRow where
  jobKey := .str "refresh"
  enabled := .num "1"
  targetType := .str "github_workflow"
  cronExpr := .str "* * * * *"
  timezone := .str "UTC"
  githubRepo := .str "owner/repo"
  githubWorkflowFile := .str "refresh.yml"
  dryRun := .num "0"

def sampleSlot : IsoTime := ⟨60000, by decide, by decide⟩

end UkAqOps.Scheduler

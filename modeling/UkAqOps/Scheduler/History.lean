import UkAqOps.Scheduler.Worker

/-!
# What one invocation does

Whatever its calls are answered, an invocation asks for a dispatch only when the job is due in the
slot it won, and dispatches a job only on a claim it won and has not used yet. A claim that is won
is used at once, before the next call to the store, so the two counts agree whenever the invocation
is between two jobs, also when it is stopped there by a failing store.
-/

namespace UkAqOps.Scheduler

open Effects

abbrev CallEvent := Event Call.Answer String

/-! ## Reading a history -/

/-- The event is a won claim of the minute `key`. -/
def winsMinute (key : SlotKey) : CallEvent → Bool
  | ⟨.insertRun key' _, .ok result⟩ => key' = key && (insertedId result).isSome
  | _ => false

/-- The event is a won claim of `key`. -/
def winsDue (key : DueKey) : CallEvent → Bool
  | ⟨.insertDispatch key' _, .ok result⟩ => key' = key && (insertedId result).isSome
  | _ => false

/-- The event is a won claim of `key` that is not a dry run. -/
def winsLive (key : DueKey) : CallEvent → Bool
  | ⟨.insertDispatch key' row, .ok result⟩ =>
    key' = key && row.dryRun ≠ 1 && (insertedId result).isSome
  | _ => false

/-- The event triggers the target of a job for `key`. -/
def triggers (key : DueKey) : CallEvent → Bool
  | ⟨.dispatchTarget job dueAt, _⟩ => (job.jobKey, dueAt) = key
  | _ => false

/-- Every call but the dispatch of a job goes to the store, or to the clock, which does not fail. -/
def isStoreCall : Call → Bool
  | .dispatchTarget _ _ => false
  | _ => true

/-- No call to the store failed. -/
def StoreHealthy (h : List CallEvent) : Prop :=
  ∀ e ∈ h, isStoreCall e.call = true → ∃ answer, e.answer = .ok answer

/-- Every live claim that was won has been triggered, and nothing else has. -/
def Balanced (h : List CallEvent) : Prop :=
  ∀ key, h.countP (triggers key) = h.countP (winsLive key)

/-- The slot of the invocation. -/
def OwnSlot (invocation : Invocation) (slot : IsoTime) : Prop :=
  ∃ nowMs, invocation.nowMs = some nowMs ∧ canonicalMinuteSlot nowMs = .ok slot

/-- The invocation won its slot. -/
def HoldsSlot (invocation : Invocation) (slot : IsoTime) (h : List CallEvent) : Prop :=
  ∃ e ∈ h, winsMinute (invocation.schedulerName, slot) e = true

/-- The job was read from a listed row. -/
def Listed (host : Host) (job : Job) (h : List CallEvent) : Prop :=
  ∃ rows rawJob, (⟨.listEnabledJobs, .ok rows⟩ : CallEvent) ∈ h ∧ rawJob ∈ rows ∧
    parseSchedulerJobRow host rawJob = .ok job

/-- The job is due at `slot`, which is the invocation's own and which it holds. -/
structure Due (host : Host) (invocation : Invocation) (h : List CallEvent) (job : Job)
    (slot : IsoTime) : Prop where
  ownSlot : OwnSlot invocation slot
  holdsSlot : HoldsSlot invocation slot h
  listed : Listed host job h
  cronMatches : CronMatches host job slot.ms

/-- The calls an invocation may make: it claims what is due, and it triggers what it has claimed and
not triggered yet. -/
def Allowed (host : Host) (invocation : Invocation) (h : List CallEvent) : Call → Prop
  | .insertDispatch key row => ∃ job, Due host invocation h job key.2 ∧ key.1 = job.jobKey ∧
      row.dryRun = job.dryRun
  | .dispatchTarget job dueAt => Due host invocation h job dueAt ∧ job.dryRun ≠ 1 ∧
      h.countP (triggers (job.jobKey, dueAt)) < h.countP (winsLive (job.jobKey, dueAt))
  | _ => True

/-- The job was claimed at `slot`, whoever won the claim. -/
def AsksFor (job : Job) (slot : IsoTime) (h : List CallEvent) : Prop :=
  ∃ row result, (⟨.insertDispatch (job.jobKey, slot) row, .ok result⟩ : CallEvent) ∈ h ∧
    row.dryRun = job.dryRun

/-! ## Longer histories -/

section Prefix

variable {host : Host} {invocation : Invocation} {job : Job} {slot : IsoTime}
variable {h h' : List CallEvent}

theorem HoldsSlot.mono (hholds : HoldsSlot invocation slot h) (hsub : h ⊆ h') :
    HoldsSlot invocation slot h' := by
  obtain ⟨e, he, hwins⟩ := hholds
  exact ⟨e, hsub he, hwins⟩

theorem Listed.mono (hlisted : Listed host job h) (hsub : h ⊆ h') : Listed host job h' := by
  obtain ⟨rows, rawJob, hmem, hrest⟩ := hlisted
  exact ⟨rows, rawJob, hsub hmem, hrest⟩

theorem Due.mono (hdue : Due host invocation h job slot) (hsub : h ⊆ h') :
    Due host invocation h' job slot :=
  ⟨hdue.ownSlot, hdue.holdsSlot.mono hsub, hdue.listed.mono hsub, hdue.cronMatches⟩

theorem AsksFor.mono (hasks : AsksFor job slot h) (hsub : h ⊆ h') : AsksFor job slot h' := by
  obtain ⟨row, result, hmem, hdry⟩ := hasks
  exact ⟨row, result, hsub hmem, hdry⟩

theorem StoreHealthy.anti (hhealthy : StoreHealthy h') (hsub : h ⊆ h') : StoreHealthy h :=
  fun e he ↦ hhealthy e (hsub he)

theorem not_storeHealthy_append {c : Call} {message : String} (hc : isStoreCall c = true)
    (h : List CallEvent) : ¬StoreHealthy (h ++ [⟨c, .error message⟩]) := by
  intro hhealthy
  obtain ⟨answer, hanswer⟩ := hhealthy _ (List.mem_append_right _ (List.mem_singleton_self _)) hc
  exact absurd hanswer (by simp)

/-- A call that is neither a claim nor a trigger keeps the balance. -/
theorem Balanced.append (hbalanced : Balanced h) {e : CallEvent}
    (he : ∀ key, triggers key e = winsLive key e) : Balanced (h ++ [e]) := by
  intro key
  rw [List.countP_append, List.countP_append, hbalanced key, List.countP_singleton,
    List.countP_singleton, he key]

end Prefix

/-! ## The steps of an invocation -/

section Steps

variable {host : Host} {invocation : Invocation} {h : List CallEvent} {job : Job}

/-- A stretch of an invocation: the history has grown, the claims are balanced again, what threw was
a failing store, and what returned has done its work. -/
structure Settled {α : Type} (h : List CallEvent) (work : α → List CallEvent → Prop)
    (h' : List CallEvent) (r : Except String α) : Prop where
  grown : h ⊆ h'
  balanced : Balanced h'
  thrown : ∀ message, r = .error message → ¬StoreHealthy h'
  done : ∀ a, r = .ok a → work a h'

/-- Two stretches, one after the other. -/
theorem settled_bind {α β : Type} {p : Script α} {f : α → Script β}
    {work : α → List CallEvent → Prop} {work' : β → List CallEvent → Prop}
    (hp : Obeys (Allowed host invocation) p (Settled h work) h)
    (hf : ∀ h' a, h ⊆ h' → Balanced h' → work a h' →
      Obeys (Allowed host invocation) (f a) (Settled h' work') h') :
    Obeys (Allowed host invocation) (p >>= f) (Settled h work') h := by
  refine wp_bind.mpr (wp_mono (fun h' r hr ↦ ?_) hp)
  rcases r with message | a
  · exact ⟨hr.grown, hr.balanced, fun _ _ ↦ hr.thrown message rfl, by simp⟩
  · refine wp_mono (fun h'' r' hr' ↦ ?_) (hf h' a hr.grown hr.balanced (hr.done a rfl))
    exact ⟨fun e he ↦ hr'.grown (hr.grown he), hr'.balanced, hr'.thrown, hr'.done⟩

theorem settled_pure {α : Type} {a : α} {work : α → List CallEvent → Prop}
    (hbalanced : Balanced h) (hwork : work a h) :
    Obeys (Allowed host invocation) (pure a) (Settled h work) h :=
  ⟨fun _ he ↦ he, hbalanced, by simp, fun _ ha ↦ by rw [← Except.ok.inj ha]; exact hwork⟩

/-- One call that is neither a claim nor a trigger. -/
theorem settled_await {c : Call} (hc : isStoreCall c = true)
    (hquiet : ∀ key r, triggers key ⟨c, r⟩ = winsLive key ⟨c, r⟩)
    (hallowed : Allowed host invocation h c) (hbalanced : Balanced h) :
    Obeys (Allowed host invocation) (await c)
      (Settled h fun answer h' ↦ (⟨c, .ok answer⟩ : CallEvent) ∈ h') h := by
  refine obeys_await.mpr ⟨hallowed, fun r ↦ ⟨List.subset_append_left _ _,
    hbalanced.append fun key ↦ hquiet key r, fun message hr ↦ ?_, fun answer hr ↦ ?_⟩⟩
  · rw [hr]
    exact not_storeHealthy_append hc h
  · rw [hr]
    exact List.mem_append_right _ (List.mem_singleton_self _)

/-- Reading the clock and updating a dispatch. -/
theorem settled_updateDispatch {β : Type} {dispatchId : ℕ} {patch : IsoTime → DispatchPatch}
    {rest : Script β} (work : β → List CallEvent → Prop) (hbalanced : Balanced h)
    (hrest : ∀ h', h ⊆ h' → Balanced h' →
      Obeys (Allowed host invocation) rest (Settled h' work) h') :
    Obeys (Allowed host invocation)
      (await .now >>= fun t ↦ await (.updateDispatch dispatchId (patch t)) >>= fun _ ↦ rest)
      (Settled h work) h := by
  refine settled_bind (settled_await rfl (fun _ _ ↦ rfl) trivial hbalanced) ?_
  intro h₁ t h₁sub hbalanced₁ _
  refine settled_bind (settled_await rfl (fun _ _ ↦ rfl) trivial hbalanced₁) ?_
  intro h₂ _ h₂sub hbalanced₂ _
  exact hrest h₂ (fun e he ↦ h₂sub (h₁sub he)) hbalanced₂

/-- A won claim that is used once settles, whatever the target and the store answer. -/
theorem settled_dispatchClaimed {dueAt : IsoTime} (dispatchId : ℕ) (summary : Summary)
    (hdue : Due host invocation h job dueAt) (hlive : job.dryRun ≠ 1)
    (hpending : ∀ key, h.countP (winsLive key)
      = h.countP (triggers key) + if (job.jobKey, dueAt) = key then 1 else 0) :
    Obeys (Allowed host invocation) (dispatchClaimed job dueAt dispatchId summary)
      (Settled h fun _ _ ↦ True) h := by
  have hspare : h.countP (triggers (job.jobKey, dueAt))
      < h.countP (winsLive (job.jobKey, dueAt)) := by
    rw [hpending, if_pos rfl]
    exact Nat.lt_succ_self _
  refine wp_tryCatch.mpr (wp_bind.mpr (obeys_await.mpr ⟨⟨hdue, hlive, hspare⟩, fun r ↦ ?_⟩))
  have hbalanced : Balanced (h ++ [⟨.dispatchTarget job dueAt, r⟩]) := by
    intro key
    have hno : winsLive key ⟨.dispatchTarget job dueAt, r⟩ = false := rfl
    have htrigger : triggers key ⟨.dispatchTarget job dueAt, r⟩
        = decide ((job.jobKey, dueAt) = key) := rfl
    rw [List.countP_append, List.countP_append, List.countP_singleton, List.countP_singleton, hno,
      htrigger, hpending key]
    simp
  -- the handler runs with the claim already used
  have hhandler : ∀ h' message, h ⊆ h' → Balanced h' →
      Obeys (Allowed host invocation) (do
        let dispatchedAt ← await .now
        await (.updateDispatch dispatchId {
          dispatchedAt
          dispatchStatus := "failed"
          reason := some message
          responseStatus := none
          responsePreview := none })
        pure { summary with jobsFailed := summary.jobsFailed + 1 })
        (Settled h fun _ _ ↦ True) h' := by
    intro h' message hsub hbalanced'
    refine wp_mono (fun h'' r' hr' ↦ ?_) (settled_updateDispatch (fun _ _ ↦ True) hbalanced'
      fun h₂ _ hbalanced₂ ↦ settled_pure hbalanced₂ trivial)
    exact ⟨fun e he ↦ hr'.grown (hsub he), hr'.balanced, hr'.thrown, hr'.done⟩
  rcases r with message | result
  · exact hhandler _ message (List.subset_append_left _ _) hbalanced
  · rw [afterBind_ok]
    refine wp_mono (fun h' r' hr' ↦ ?_) (settled_updateDispatch (fun _ _ ↦ True) hbalanced
      fun h₂ _ hbalanced₂ ↦ settled_pure hbalanced₂ trivial)
    have hsub : h ⊆ h' := fun e he ↦ hr'.grown (List.mem_append_left _ he)
    rcases r' with message | summary'
    · exact hhandler h' message hsub hr'.balanced
    · exact ⟨hsub, hr'.balanced, by simp, fun _ _ ↦ trivial⟩

/-- The history right after a claim was answered is one live claim short of balance exactly when a
live claim was won. -/
theorem countP_winsLive_claim (key : DueKey) (row : DispatchRow) (result : RunMeta)
    (hbalanced : Balanced h) (key' : DueKey) :
    (h ++ [(⟨.insertDispatch key row, .ok result⟩ : CallEvent)]).countP (winsLive key')
      = (h ++ [(⟨.insertDispatch key row, .ok result⟩ : CallEvent)]).countP (triggers key') +
        if key = key' ∧ row.dryRun ≠ 1 ∧ (insertedId result).isSome = true then 1 else 0 := by
  have hwins : winsLive key' ⟨.insertDispatch key row, .ok result⟩
      = decide (key = key' ∧ row.dryRun ≠ 1 ∧ (insertedId result).isSome = true) := by
    simp [winsLive, Bool.and_assoc]
  have htriggers : triggers key' ⟨.insertDispatch key row, .ok result⟩ = false := rfl
  rw [List.countP_append, List.countP_append, List.countP_singleton, List.countP_singleton, hwins,
    htriggers, hbalanced key']
  simp

/-- A claim and what follows it. -/
theorem settled_claim {dueAt claimedAt : IsoTime} (summary : Summary)
    (hdue : Due host invocation h job dueAt) (hbalanced : Balanced h) :
    Obeys (Allowed host invocation)
      (claimDispatch (job.jobKey, dueAt)
          { claimedAt, targetType := job.target.type, dryRun := job.dryRun } >>=
        useClaim job dueAt summary)
      (Settled h fun _ ↦ AsksFor job dueAt) h := by
  refine wp_bind.mpr (wp_bind.mpr (obeys_await.mpr ⟨⟨job, hdue, rfl, rfl⟩, fun r ↦ ?_⟩))
  rcases r with message | result
  · exact ⟨List.subset_append_left _ _, hbalanced.append fun _ ↦ rfl,
      fun _ _ ↦ not_storeHealthy_append rfl h, by simp⟩
  · set e : CallEvent := ⟨.insertDispatch (job.jobKey, dueAt)
      { claimedAt, targetType := job.target.type, dryRun := job.dryRun }, .ok result⟩ with he
    have hsub : h ⊆ h ++ [e] := List.subset_append_left _ _
    have hasks : AsksFor job dueAt (h ++ [e]) :=
      ⟨_, result, List.mem_append_right _ (List.mem_singleton_self _), rfl⟩
    have hcount := countP_winsLive_claim (job.jobKey, dueAt)
      { claimedAt, targetType := job.target.type, dryRun := job.dryRun } result hbalanced
    -- whatever settles from here also settles from before the claim
    have hlift : Obeys (Allowed host invocation) (useClaim job dueAt summary (insertedId result))
          (Settled (h ++ [e]) fun _ _ ↦ True) (h ++ [e]) →
        Obeys (Allowed host invocation) (useClaim job dueAt summary (insertedId result))
          (Settled h fun _ ↦ AsksFor job dueAt) (h ++ [e]) :=
      wp_mono fun h' r hr ↦ ⟨fun e' he' ↦ hr.grown (hsub he'), hr.balanced, hr.thrown,
        fun _ _ ↦ hasks.mono hr.grown⟩
    refine hlift ?_
    have hsettled : job.dryRun = 1 ∨ insertedId result = none → Balanced (h ++ [e]) := by
      intro hno key
      rw [he, hcount key, if_neg (by rcases hno with hno | hno <;> simp [hno]), Nat.add_zero]
    rcases hid : insertedId result with _ | dispatchId
    · exact settled_pure (hsettled (Or.inr hid)) trivial
    · by_cases hdry : job.dryRun = 1
      · rw [useClaim, if_pos hdry]
        exact settled_updateDispatch (fun _ _ ↦ True) (hsettled (Or.inl hdry))
          fun h' _ hbalanced' ↦ settled_pure hbalanced' trivial
      · rw [useClaim, if_neg hdry]
        refine settled_dispatchClaimed dispatchId _ (hdue.mono hsub) hdry fun key ↦ ?_
        rw [he, hcount key, hid]
        simp [hdry]

/-- The loop over due minutes: every one of them is asked for. -/
theorem settled_dispatchDueTimes (times : List IsoTime) (summary : Summary)
    (hdue : ∀ dueAt ∈ times, Due host invocation h job dueAt) (hbalanced : Balanced h) :
    Obeys (Allowed host invocation) (dispatchDueTimes job times summary)
      (Settled h fun _ h' ↦ ∀ dueAt ∈ times, AsksFor job dueAt h') h := by
  induction times generalizing summary h with
  | nil => exact settled_pure hbalanced (by simp)
  | cons dueAt rest ih =>
    rw [dispatchDueTimes]
    refine settled_bind (settled_await rfl (fun _ _ ↦ rfl) trivial hbalanced) ?_
    intro h₁ claimedAt h₁sub hbalanced₁ _
    have hdue₁ : Due host invocation h₁ job dueAt := (hdue dueAt List.mem_cons_self).mono h₁sub
    rw [← bind_assoc]
    refine settled_bind (settled_claim summary hdue₁ hbalanced₁) ?_
    intro h₂ used h₂sub hbalanced₂ hasks
    have hrest : ∀ t ∈ rest, Due host invocation h₂ job t := fun t ht ↦
      (hdue t (List.mem_cons_of_mem _ ht)).mono fun e he ↦ h₂sub (h₁sub he)
    refine wp_mono (fun h' r hr ↦ ⟨hr.grown, hr.balanced, hr.thrown, fun a ha ↦ ?_⟩)
      (ih used hrest hbalanced₂)
    exact List.forall_mem_cons.mpr ⟨hasks.mono hr.grown, hr.done a ha⟩

/-- Every listed job that is due at the slot is asked for. -/
def AsksWhenDue (host : Host) (slot : IsoTime) (rows : List JobRow) (h : List CallEvent) : Prop :=
  ∀ rawJob ∈ rows, ∀ job, parseSchedulerJobRow host rawJob = .ok job →
    CronMatches host job slot.ms → AsksFor job slot h

section Rows

variable {windowStartMs windowEndMs : ℤ} {rawJob : JobRow} {rest : List JobRow} {message : String}

/-- The counters after a row that could not be read. -/
def Summary.countFailed (summary : Summary) : Summary :=
  { summary with jobsChecked := summary.jobsChecked + 1, jobsFailed := summary.jobsFailed + 1 }

theorem dispatchDueJobsForWindow_invalid (hparse : parseSchedulerJobRow host rawJob = .error message)
    (summary : Summary) :
    dispatchDueJobsForWindow host windowStartMs windowEndMs (rawJob :: rest) summary
      = dispatchDueJobsForWindow host windowStartMs windowEndMs rest summary.countFailed := by
  rw [dispatchDueJobsForWindow, hparse]
  rfl

theorem dispatchDueJobsForWindow_invalidCron (hparse : parseSchedulerJobRow host rawJob = .ok job)
    (hdue : dueSlotsForJob host job windowStartMs windowEndMs = .error message)
    (summary : Summary) :
    dispatchDueJobsForWindow host windowStartMs windowEndMs (rawJob :: rest) summary
      = dispatchDueJobsForWindow host windowStartMs windowEndMs rest summary.countFailed := by
  rw [dispatchDueJobsForWindow, hparse]
  dsimp only
  rw [hdue]
  rfl

theorem dispatchDueJobsForWindow_due {times : List IsoTime}
    (hparse : parseSchedulerJobRow host rawJob = .ok job)
    (hdue : dueSlotsForJob host job windowStartMs windowEndMs = .ok times) (summary : Summary) :
    dispatchDueJobsForWindow host windowStartMs windowEndMs (rawJob :: rest) summary
      = (dispatchDueTimes job times { summary with
          jobsChecked := summary.jobsChecked + 1
          jobsDue := summary.jobsDue + times.length } >>=
        dispatchDueJobsForWindow host windowStartMs windowEndMs rest) := by
  rw [dispatchDueJobsForWindow, hparse]
  dsimp only
  rw [hdue]

end Rows

/-- The loop over listed rows: every job that is due is asked for. -/
theorem settled_dispatchDueJobsForWindow {slot : IsoTime} (listed rows : List JobRow)
    (summary : Summary) (hslot : OwnSlot invocation slot) (hholds : HoldsSlot invocation slot h)
    (hlisted : (⟨.listEnabledJobs, .ok listed⟩ : CallEvent) ∈ h) (hrows : rows ⊆ listed)
    (hbalanced : Balanced h) :
    Obeys (Allowed host invocation)
      (dispatchDueJobsForWindow host (slot.ms - minuteMs) slot.ms rows summary)
      (Settled h fun _ ↦ AsksWhenDue host slot rows) h := by
  have ⟨nowMs, _, hcanonical⟩ := hslot
  induction rows generalizing summary h with
  | nil => exact settled_pure hbalanced (by simp [AsksWhenDue])
  | cons rawJob rest ih =>
    obtain ⟨hmem, hrestSub⟩ := List.cons_subset.mp hrows
    have hskip : ∀ summary', (∀ job, parseSchedulerJobRow host rawJob = .ok job →
          ¬CronMatches host job slot.ms) →
        Obeys (Allowed host invocation)
          (dispatchDueJobsForWindow host (slot.ms - minuteMs) slot.ms rest summary')
          (Settled h fun _ ↦ AsksWhenDue host slot (rawJob :: rest)) h := by
      intro summary' hnot
      refine wp_mono (fun h' r hr ↦ ⟨hr.grown, hr.balanced, hr.thrown, fun a ha ↦ ?_⟩)
        (ih summary' hholds hlisted hrestSub hbalanced)
      exact List.forall_mem_cons.mpr ⟨fun job hjob hmatch ↦ absurd hmatch (hnot job hjob),
        hr.done a ha⟩
    rcases hparse : parseSchedulerJobRow host rawJob with message | job
    · rw [dispatchDueJobsForWindow_invalid hparse]
      exact hskip _ fun job hjob ↦ by simp [hparse] at hjob
    · rcases hdue : dueSlotsForJob host job (slot.ms - minuteMs) slot.ms with message | times
      · rw [dispatchDueJobsForWindow_invalidCron hparse hdue]
        refine hskip _ fun job' hjob' ↦ ?_
        rw [hparse, Except.ok.injEq] at hjob'
        rw [← hjob']
        exact not_cronMatches_of_error hcanonical hdue
      · have hcases := mem_dueSlotsForJob hcanonical hdue
        have htimes : ∀ t ∈ times, Due host invocation h job t := by
          intro t ht
          rcases hcases with ⟨htimes, hmatch⟩ | ⟨htimes, -⟩
          · rw [htimes, List.mem_singleton] at ht
            rw [ht]
            exact ⟨hslot, hholds,
              ⟨listed, rawJob, hlisted, hmem, hparse⟩, hmatch⟩
          · rw [htimes] at ht
            exact absurd ht List.not_mem_nil
        rw [dispatchDueJobsForWindow_due hparse hdue]
        refine settled_bind (settled_dispatchDueTimes times _ htimes hbalanced) ?_
        intro h₁ dispatched h₁sub hbalanced₁ hasked
        refine wp_mono (fun h' r hr ↦ ⟨hr.grown, hr.balanced, hr.thrown, fun a ha ↦ ?_⟩)
          (ih dispatched (hholds.mono h₁sub) (h₁sub hlisted) hrestSub hbalanced₁)
        refine List.forall_mem_cons.mpr ⟨fun job' hjob' hmatch ↦ ?_, hr.done a ha⟩
        rw [hparse, Except.ok.injEq] at hjob'
        rw [← hjob'] at hmatch ⊢
        rcases hcases with ⟨htimes, -⟩ | ⟨-, hno⟩
        · exact (hasked slot (by rw [htimes]; exact List.mem_singleton_self _)).mono hr.grown
        · exact absurd hmatch hno

/-! ## The whole invocation -/

/-- What an invocation that won its slot has done: it listed the jobs and asked for every job that
is due. -/
def AsksForListed (host : Host) (slot : IsoTime) (h : List CallEvent) : Prop :=
  ∃ listed, (⟨.listEnabledJobs, .ok listed⟩ : CallEvent) ∈ h ∧ AsksWhenDue host slot listed h

theorem AsksForListed.mono {slot : IsoTime} {h' : List CallEvent}
    (hasks : AsksForListed host slot h) (hsub : h ⊆ h') : AsksForListed host slot h' := by
  obtain ⟨listed, hmem, hdone⟩ := hasks
  exact ⟨listed, hsub hmem, fun rawJob hraw job hjob hmatch ↦
    (hdone rawJob hraw job hjob hmatch).mono hsub⟩

theorem settled_evaluateSlot {timing : Timing} (runId : ℕ)
    (hwindow : timing.window.startMs = timing.minuteSlot.ms - minuteMs ∧
      timing.window.endMs = timing.minuteSlot.ms)
    (hslot : OwnSlot invocation timing.minuteSlot)
    (hholds : HoldsSlot invocation timing.minuteSlot h) (hbalanced : Balanced h) :
    Obeys (Allowed host invocation) (evaluateSlot host invocation.schedulerName timing runId)
      (Settled h fun _ ↦ AsksForListed host timing.minuteSlot) h := by
  rw [evaluateSlot, hwindow.1, hwindow.2]
  refine settled_bind (settled_await rfl (fun _ _ ↦ rfl) trivial hbalanced) ?_
  intro h₁ listed h₁sub hbalanced₁ hlisted
  refine settled_bind (settled_dispatchDueJobsForWindow listed listed {} hslot
    (hholds.mono h₁sub) hlisted (fun _ h ↦ h) hbalanced₁) ?_
  intro h₂ summary h₂sub hbalanced₂ hasked
  refine settled_bind (settled_await rfl (fun _ _ ↦ rfl) trivial hbalanced₂) ?_
  intro h₃ finishedAt h₃sub hbalanced₃ _
  refine settled_bind (settled_await rfl (fun _ _ ↦ rfl) trivial hbalanced₃) ?_
  intro h₄ _ h₄sub hbalanced₄ _
  have hasks : AsksForListed host timing.minuteSlot h₂ := ⟨listed, h₂sub hlisted, hasked⟩
  exact settled_pure hbalanced₄ ((hasks.mono h₃sub).mono h₄sub)

/-- The handler adds two quiet calls at most, and always throws. -/
theorem obeys_recordFailure (timing : Timing) (runId : ℕ) (message : String)
    (hbalanced : Balanced h) :
    Obeys (Allowed host invocation) (recordFailure timing runId message)
      (fun h' r ↦ h ⊆ h' ∧ Balanced h' ∧ r = .error message) h := by
  have hquiet : Obeys (Allowed host invocation) (do
      let finishedAt ← await .now
      await (.finishRun runId {
        status := "failed"
        finishedAt
        previousRunStartedAt := none
        evaluationWindowStart := timing.window.start
        evaluationWindowEnd := timing.minuteSlot
        summary := {}
        errorMessage := truncatePreview message })) (Settled h fun _ _ ↦ True) h := by
    refine settled_bind (settled_await rfl (fun _ _ ↦ rfl) trivial hbalanced) ?_
    intro h₁ finishedAt _ hbalanced₁ _
    exact wp_mono (fun h' r hr ↦ ⟨hr.grown, hr.balanced, hr.thrown, fun _ _ ↦ trivial⟩)
      (settled_await rfl (fun _ _ ↦ rfl) trivial hbalanced₁)
  refine wp_bind.mpr (wp_tryCatch.mpr (wp_mono (fun h' r hr ↦ ?_) hquiet))
  rcases r with failure | _
  · exact ⟨hr.grown, hr.balanced, rfl⟩
  · exact ⟨hr.grown, hr.balanced, rfl⟩

/-- The times of an invocation are those of its own slot. -/
theorem timingOf_spec {timing : Timing} (h : timingOf invocation = .ok timing) :
    OwnSlot invocation timing.minuteSlot ∧
      timing.window.startMs = timing.minuteSlot.ms - minuteMs ∧
      timing.window.endMs = timing.minuteSlot.ms := by
  rw [timingOf] at h
  rcases hnow : invocation.nowMs with _ | nowMs
  · rw [hnow] at h
    cases h
  · rw [hnow] at h
    obtain ⟨startedAt, -, h⟩ := Except.bind_eq_ok_iff.mp h
    obtain ⟨minuteSlot, hslot, h⟩ := Except.bind_eq_ok_iff.mp h
    obtain ⟨window, hwindow, h⟩ := Except.bind_eq_ok_iff.mp h
    obtain ⟨triggerSource, -, h⟩ := Except.bind_eq_ok_iff.mp h
    obtain ⟨start, -, hwindow⟩ := Except.bind_eq_ok_iff.mp hwindow
    obtain ⟨windowEnd, -, hwindow⟩ := Except.bind_eq_ok_iff.mp hwindow
    rw [← Except.pure_eq_ok_iff.mp h, ← Except.pure_eq_ok_iff.mp hwindow]
    exact ⟨⟨nowMs, hnow, hslot⟩, rfl, rfl⟩

theorem OwnSlot.unique {slot slot' : IsoTime} (hslot : OwnSlot invocation slot)
    (hslot' : OwnSlot invocation slot') : slot = slot' := by
  obtain ⟨nowMs, hnow, hcanonical⟩ := hslot
  obtain ⟨nowMs', hnow', hcanonical'⟩ := hslot'
  rw [hnow, Option.some.injEq] at hnow'
  rw [← hnow', hcanonical, Except.ok.injEq] at hcanonical'
  exact hcanonical'

/-- **What an invocation has done when it ends**: the claims it won are used, and if it won its slot
and no store call failed then it asked for every listed job that is due. -/
structure Finished (host : Host) (invocation : Invocation) (h : List CallEvent) : Prop where
  balanced : Balanced h
  asks : ∀ slot, OwnSlot invocation slot → HoldsSlot invocation slot h → StoreHealthy h →
    AsksForListed host slot h

/-- An invocation that ends without having won its slot has nothing to show. -/
theorem finished_of_not_holds (hbalanced : Balanced h)
    (hno : ∀ e ∈ h, ∀ key, winsMinute key e = false) : Finished host invocation h := by
  refine ⟨hbalanced, fun slot _ hholds _ ↦ ?_⟩
  obtain ⟨e, he, hwins⟩ := hholds
  rw [hno e he] at hwins
  exact absurd hwins (by simp)

theorem obeys_runScheduler (host : Host) (invocation : Invocation) :
    Obeys (Allowed host invocation) (runScheduler host invocation)
      (fun h _ ↦ Finished host invocation h) [] := by
  have hnil : Balanced [] := fun _ ↦ rfl
  refine wp_bind.mpr (wp_ofExcept.mpr ?_)
  rcases htiming : timingOf invocation with message | timing
  · exact finished_of_not_holds hnil (by simp)
  obtain ⟨hslot, hwindow⟩ := timingOf_spec htiming
  refine wp_bind.mpr (wp_bind.mpr (obeys_await.mpr ⟨trivial, fun r ↦ ?_⟩))
  have hbalanced := hnil.append (e := ⟨.insertRun _ _, r⟩) fun _ ↦ rfl
  rcases r with message | result
  · exact finished_of_not_holds hbalanced (by simp [winsMinute])
  by_cases hchanges : 0 < result.changes
  · -- the minute is won, and the run goes on if the insert reported an id
    rw [afterBind_ok, if_pos hchanges]
    rcases hid : rowIdOf result.lastRowId with _ | runId
    · refine finished_of_not_holds hbalanced ?_
      simp [winsMinute, insertedId, hid]
    · have hholds : HoldsSlot invocation timing.minuteSlot
          ([] ++ [(⟨.insertRun (invocation.schedulerName, timing.minuteSlot) _, .ok result⟩ :
            CallEvent)]) := by
        refine ⟨_, List.mem_singleton_self _, ?_⟩
        simp [winsMinute, insertedId, hid, hchanges]
      refine wp_tryCatch.mpr (wp_mono (fun h' r hr ↦ ?_)
        (settled_evaluateSlot runId hwindow hslot hholds hbalanced))
      rcases r with message | outcome
      · refine wp_mono (fun h'' r hr' ↦ ⟨hr'.2.1, fun slot _ _ hhealthy ↦ ?_⟩)
          (obeys_recordFailure timing runId message hr.balanced)
        exact absurd (hhealthy.anti hr'.1) (hr.thrown message rfl)
      · refine ⟨hr.balanced, fun slot hslot' _ _ ↦ ?_⟩
        rw [hslot'.unique hslot]
        exact hr.done outcome rfl
  · rw [afterBind_ok, if_neg hchanges]
    refine wp_bind.mpr (obeys_await.mpr ⟨trivial, fun r ↦ ?_⟩)
    have hfinished : Finished host invocation
        ([] ++ [⟨.insertRun _ _, .ok result⟩] ++ [⟨.selectRun _, r⟩]) :=
      finished_of_not_holds (hbalanced.append fun _ ↦ rfl) (by
        simp [winsMinute, insertedId, hchanges])
    rcases r with message | existing
    · exact hfinished
    · rcases existing with _ | existing
      · exact hfinished
      · exact hfinished

end Steps

end UkAqOps.Scheduler

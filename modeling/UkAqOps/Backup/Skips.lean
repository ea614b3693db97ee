import UkAqOps.Backup.BindingRuns
import UkAqOps.Backup.CoreRuns

/-!
# Skipping what is already copied

Runs over the core days and over the timeseries bindings follow one another, each over an inventory
of its own and each stopped at any step. A unit, a range or the whole root is skipped because of a
persisted hash. As long as nothing is listed again with a hash that is still recorded for it although
a later copy to it was begun and never recorded, everything that is skipped is held with its listed
hash, and a run without faults ends complete for its inventory. Without that condition the code skips
a day whose destination was overwritten by a copy that failed.
-/

namespace UkAqOps.Backup

open Effects

/-! ## Histories of runs -/

/-- The two domains, which share nothing. -/
structure BackupState where
  core : World String
  bindings : World TimeseriesId

inductive BackupRun where
  | core (run : CoreRun)
  | bindings (run : BindingRun)

variable (sha256Hex : String → String)

namespace BackupRun

/-- The states in which the run may be stopped, whatever fails. -/
def MayStopIn (before : BackupState) (run : BackupRun) (during : BackupState) : Prop :=
  match run with
  | core run => during.bindings = before.bindings ∧
      (run.program sha256Hex).MayStopIn
        (answers coreHome run.source run.options.dryRun True) before.core.begin during.core
  | bindings run => during.core = before.core ∧
      (run.program sha256Hex).MayStopIn
        (answers rangeStartOf run.source run.options.dryRun True) before.bindings.begin
        during.bindings

/-- Nothing that the run skips is lost. -/
def NeverLost (before : BackupState) : BackupRun → Prop
  | core run => run.NeverLost sha256Hex before.core.begin
  | bindings run => run.NeverLost sha256Hex before.bindings.begin

/-- Whatever the run skips, the destination holds with its listed hash. -/
def SkipsHeld (before : BackupState) (run : BackupRun) (during : BackupState) : Prop :=
  match run with
  | core run => Keeps (run.skipped sha256Hex before.core.begin) during.core
  | bindings run => Keeps (run.skipped sha256Hex before.bindings.begin) during.bindings

/-- Without faults the run ends, and its processed hash is that of the inventory. -/
def Completes (before : BackupState) : BackupRun → Prop
  | core run => ∀ inventory, run.inventory sha256Hex = some inventory → run.options.dryRun = false →
      let ends := (run.program sha256Hex).MayEndIn (answers coreHome run.source false False)
        before.core.begin
      (∃ r w, ends r w) ∧ ∀ r w, ends r w → ∃ report, r = .ok report ∧
        report.processedSourceHash = some inventory.sourceHash ∧
        (w.stored 0).processedSourceHash = some inventory.sourceHash
  | bindings run => ∀ inventory, run.reference = some inventory → run.Readable sha256Hex →
      run.options.dryRun = false →
      let ends := (run.program sha256Hex).MayEndIn (answers rangeStartOf run.source false False)
        before.bindings.begin
      (∃ r w, ends r w) ∧ ∀ r w, ends r w → ∃ report, r = .ok report ∧
        report.processedSourceRootHash = some (inventory.sourceRootHash sha256Hex) ∧
        w.root.state.processedSourceRootHash = some (inventory.sourceRootHash sha256Hex)

end BackupRun

/-- What runs leave behind that all meet a condition where they begin. After a run over the bindings
that is not a dry run, the caller may have stored the root state. -/
inductive Leaves (condition : BackupState → BackupRun → Prop) : BackupState → Prop
  | initial (core : String → Option String) (bindings : TimeseriesId → Option String) :
      Leaves condition ⟨.initial core, .initial bindings⟩
  | stopped {before during : BackupState} {run : BackupRun} (h : Leaves condition before)
      (hcondition : condition before run) (hstop : run.MayStopIn sha256Hex before during) :
      Leaves condition during
  | rootStored {before during : BackupState} {run : BindingRun} (h : Leaves condition before)
      (hcondition : condition before (.bindings run))
      (hstop : (BackupRun.bindings run).MayStopIn sha256Hex before during)
      (hdry : run.options.dryRun = false) :
      Leaves condition { during with bindings := during.bindings.storeRoot }

/-- In every history of runs that meet the condition, what a run skips is held, and a run without
faults completes. -/
def SkipsAreSound (condition : BackupState → BackupRun → Prop) : Prop :=
  ∀ before, Leaves sha256Hex condition before → ∀ run, condition before run →
    (∀ during, run.MayStopIn sha256Hex before during → run.SkipsHeld sha256Hex before during) ∧
      run.Completes sha256Hex before

/-! ## The invariant of a history -/

variable {sha256Hex} {ι κ : Type} [DecidableEq κ]

/-- A dry run changes nothing but the root state in memory. -/
theorem kept_of_answers_dry {home : κ → ℕ} {source : String → Option ι} {faults : Prop}
    {w w' : World κ} (c : BackupCall κ) (r : Except String (BackupAnswer ι κ c))
    (h : answers home source true faults w c r w') :
    w'.holds = w.holds ∧ w'.shards = w.shards ∧ w'.standing = w.standing ∧
      w'.rootFile = w.rootFile := by
  rcases c with _ | _ | _ | _ | _ | _ | _ | _ | _
  all_goals first
    | (obtain ⟨rfl, -⟩ := h; exact ⟨rfl, rfl, rfl, rfl⟩)
    | (obtain ⟨-, rfl⟩ := h; exact ⟨rfl, rfl, rfl, rfl⟩)

theorem kept_of_stopped_dry {α : Type} {home : κ → ℕ} {source : String → Option ι} {faults : Prop}
    {p : BackupProg ι κ α} {w w' : World κ} (h : p.MayStopIn (answers home source true faults) w w') :
    w'.holds = w.holds ∧ w'.shards = w.shards ∧ w'.standing = w.standing ∧
      w'.rootFile = w.rootFile := by
  have hkept : ∀ (s : World κ) (c : BackupCall κ) (r : Except String (BackupAnswer ι κ c))
      (s' : World κ), answers home source true faults s c r s' →
      (s.holds = w.holds ∧ s.shards = w.shards ∧ s.standing = w.standing ∧
        s.rootFile = w.rootFile) →
      s'.holds = w.holds ∧ s'.shards = w.shards ∧ s'.standing = w.standing ∧
        s'.rootFile = w.rootFile := by
    rintro s c r s' hanswer ⟨hholds, hshards, hstanding, hroot⟩
    obtain ⟨hholds', hshards', hstanding', hroot'⟩ := kept_of_answers_dry c r hanswer
    exact ⟨hholds'.trans hholds, hshards'.trans hshards, hstanding'.trans hstanding,
      hroot'.trans hroot⟩
  exact h.of_answers hkept ⟨rfl, rfl, rfl, rfl⟩

theorem Sound.of_eq {hashUnits : List (ListedUnit κ) → String} {home : κ → ℕ} {w w' : World κ}
    (h : Sound sha256Hex hashUnits home w) (heq : w'.holds = w.holds ∧ w'.shards = w.shards ∧
      w'.standing = w.standing ∧ w'.rootFile = w.rootFile) :
    Sound sha256Hex hashUnits home w' := by
  obtain ⟨hholds, hshards, hstanding, hroot⟩ := heq
  exact ⟨hshards ▸ h.home_eq, hholds ▸ hshards ▸ hstanding ▸ h.settled, hshards ▸ h.processed,
    hholds ▸ hroot ▸ h.rootFile⟩

/-- What is stored in both domains tells the truth. -/
structure BackupState.Sound (sha256Hex : String → String) (s : BackupState) : Prop where
  core : Backup.Sound sha256Hex (coreSourceHash sha256Hex) coreHome s.core
  bindings : Backup.Sound sha256Hex (rangeSourceHash sha256Hex) rangeStartOf s.bindings

/-- A core run that loses nothing is stopped with true records and with the skipped days held. -/
theorem CoreRun.stopped (hsha : Function.Injective sha256Hex) {run : CoreRun}
    {before during : World String}
    (hsound : Backup.Sound sha256Hex (coreSourceHash sha256Hex) coreHome before)
    (hlost : run.NeverLost sha256Hex before.begin)
    (hstop : (run.program sha256Hex).MayStopIn
      (answers coreHome run.source run.options.dryRun True) before.begin during) :
    Backup.Sound sha256Hex (coreSourceHash sha256Hex) coreHome during ∧
      Keeps (run.skipped sha256Hex before.begin) during := by
  have hsteady := core_steady before.standing_begin_ne_landed hlost hsound.begin hsound.rootFile
  by_cases hdry : run.options.dryRun = true
  · rw [hdry] at hstop
    have heq := kept_of_stopped_dry hstop
    exact ⟨hsound.begin.of_eq heq, fun day hday ↦ heq.1 ▸ hsteady.keeps day hday⟩
  · rw [Bool.not_eq_true] at hdry
    rw [hdry] at hstop
    have hspec : wp (coreEnv sha256Hex True run (run.skipped sha256Hex before.begin))
        (run.program sha256Hex) _ before.begin :=
      syncCore_spec hsha hdry before.standing_begin_ne_landed hlost hsound.begin hsound.rootFile
    have hend : CoreSteady sha256Hex (run.skipped sha256Hex before.begin) during :=
      hstop.of_wp (fun _ _ h ↦ h) (fun _ _ h ↦ h.1) hspec
    exact ⟨hend.sound, hend.keeps⟩

/-- The same for a run over the bindings. Where it is not a dry run, its root state may be stored. -/
theorem BindingRun.stopped (hsha : Function.Injective sha256Hex) {run : BindingRun}
    {before during : World TimeseriesId}
    (hsound : Backup.Sound sha256Hex (rangeSourceHash sha256Hex) rangeStartOf before)
    (hlost : run.NeverLost sha256Hex before.begin)
    (hstop : (run.program sha256Hex).MayStopIn
      (answers rangeStartOf run.source run.options.dryRun True) before.begin during) :
    Backup.Sound sha256Hex (rangeSourceHash sha256Hex) rangeStartOf during ∧
      Keeps (run.skipped sha256Hex before.begin) during ∧
      (run.options.dryRun = false →
        TellsTruth sha256Hex (rangeSourceHash sha256Hex) rangeStartOf during.holds
          during.root) := by
  have hsteady := binding_steady hlost before.standing_begin_ne_landed hsound.begin
    hsound.rootFile
  by_cases hdry : run.options.dryRun = true
  · rw [hdry] at hstop
    have heq := kept_of_stopped_dry hstop
    exact ⟨hsound.begin.of_eq heq, fun unit hunit ↦ heq.1 ▸ hsteady.keeps unit hunit,
      fun hnot ↦ absurd (hnot.symm.trans hdry) Bool.false_ne_true⟩
  · rw [Bool.not_eq_true] at hdry
    rw [hdry] at hstop
    have hspec : wp (bindingEnv sha256Hex True run (run.skipped sha256Hex before.begin))
        (run.program sha256Hex) _ before.begin :=
      syncBindings_spec hsha hdry before.standing_begin_ne_landed hlost hsound.begin
        hsound.rootFile
    have hend : BindingSteady sha256Hex (run.skipped sha256Hex before.begin) during :=
      hstop.of_wp (fun _ _ h ↦ h) (fun _ _ h ↦ h.1) hspec
    exact ⟨hend.sound, hend.keeps, fun _ ↦ hend.root⟩

/-- **What is stored tells the truth, whatever runs were stopped wherever, as long as none of them
skipped anything lost.** -/
theorem sound_of_leaves (hsha : Function.Injective sha256Hex) {s : BackupState}
    (h : Leaves sha256Hex (BackupRun.NeverLost sha256Hex) s) : s.Sound sha256Hex := by
  induction h with
  | initial core bindings => exact ⟨sound_initial core, sound_initial bindings⟩
  | @stopped before during run _ hcondition hstop ih =>
    rcases run with run | run
    · obtain ⟨hsame, hstop⟩ := hstop
      exact ⟨(run.stopped hsha ih.core hcondition hstop).1, hsame ▸ ih.bindings⟩
    · obtain ⟨hsame, hstop⟩ := hstop
      exact ⟨hsame ▸ ih.core, (run.stopped hsha ih.bindings hcondition hstop).1⟩
  | @rootStored before during run _ hcondition hstop hdry ih =>
    obtain ⟨hsame, hstop⟩ := hstop
    obtain ⟨hsound, -, hroot⟩ := run.stopped hsha ih.bindings hcondition hstop
    exact ⟨hsame ▸ ih.core, hsound.storeRoot (hroot hdry)⟩

/-- Without faults a core run that loses nothing completes. -/
theorem CoreRun.completes (hsha : Function.Injective sha256Hex) {run : CoreRun}
    {before : BackupState}
    (hsound : Backup.Sound sha256Hex (coreSourceHash sha256Hex) coreHome before.core)
    (hlost : run.NeverLost sha256Hex before.core.begin) :
    (BackupRun.core run).Completes sha256Hex before := by
  intro inventory hinventory hdry
  refine ⟨⟨_, _, Prog.mayEndIn_execute (answers_respond coreHome run.source fun h ↦ absurd rfl h)
    _ _⟩, fun r w hend ↦ ?_⟩
  have hspec : wp (coreEnv sha256Hex False run (run.skipped sha256Hex before.core.begin))
      (run.program sha256Hex) _ before.core.begin :=
    syncCore_spec hsha hdry before.core.standing_begin_ne_landed hlost hsound.begin
      hsound.rootFile
  obtain ⟨-, ⟨report, rfl, inventory', hinventory', hcomplete⟩ | ⟨hfaults, -⟩⟩ := hend.of_wp hspec
  · rw [hinventory] at hinventory'
    rw [Option.some.inj hinventory']
    exact ⟨report, rfl, hcomplete.1, hcomplete.2.2⟩
  · rcases hfaults with hfaults | hnone
    · exact hfaults.elim
    · rw [hinventory] at hnone
      exact nomatch hnone

/-- Without faults a run over the bindings that loses nothing completes. -/
theorem BindingRun.completes (hsha : Function.Injective sha256Hex) {run : BindingRun}
    {before : BackupState}
    (hsound : Backup.Sound sha256Hex (rangeSourceHash sha256Hex) rangeStartOf before.bindings)
    (hlost : run.NeverLost sha256Hex before.bindings.begin) :
    (BackupRun.bindings run).Completes sha256Hex before := by
  intro root hreference hreadable hdry
  refine ⟨⟨_, _, Prog.mayEndIn_execute
    (answers_respond rangeStartOf run.source fun h ↦ absurd rfl h) _ _⟩, fun r w hend ↦ ?_⟩
  have hspec : wp (bindingEnv sha256Hex False run (run.skipped sha256Hex before.bindings.begin))
      (run.program sha256Hex) _ before.bindings.begin :=
    syncBindings_spec hsha hdry before.bindings.standing_begin_ne_landed hlost hsound.begin
      hsound.rootFile
  obtain ⟨-, ⟨report, rfl, root', hreference', hcomplete⟩ | ⟨hfaults, -⟩⟩ := hend.of_wp hspec
  · rw [hreference] at hreference'
    rw [Option.some.inj hreference']
    exact ⟨report, rfl, hcomplete⟩
  · exact hfaults.elim False.elim fun hnot ↦ absurd hreadable hnot

/-! ## Soundness -/

theorem CoreRun.inventory_eq {run : CoreRun} {reference : CoreRootReference}
    {raw inventory : CoreInventoryShard} (hreference : run.reference = some reference)
    (hraw : run.source reference.inventoryShardKey = some raw)
    (hcheck : checkCoreInventory sha256Hex reference raw = .ok inventory) :
    run.inventory sha256Hex = some inventory := by
  rw [CoreRun.inventory, hreference]
  simp only [Option.bind_eq_bind, Option.bind_some, hraw, hcheck]
  rfl

/-- The run reads its inventory. -/
theorem CoreRun.reads {run : CoreRun} {inventory : CoreInventoryShard} {faults : Prop}
    (hinventory : run.inventory sha256Hex = some inventory) (w : World String) :
    (readCoreInventory sha256Hex run.reference).MayEndIn
      (answers coreHome run.source false faults) w (.ok inventory) w := by
  obtain ⟨reference, hreference, hraw⟩ := Option.bind_eq_some_iff.mp hinventory
  obtain ⟨raw, hraw, hcheck⟩ := Option.bind_eq_some_iff.mp hraw
  rw [hreference]
  refine ⟨.ok raw, w, ⟨rfl, Or.inl ⟨raw, rfl, hraw⟩⟩, ?_⟩
  change (Prog.ofExcept (checkCoreInventory sha256Hex reference raw)).MayEndIn _ w _ w
  rw [Except.toOption_eq_some_iff.mp hcheck]
  exact ⟨rfl, rfl⟩

/-- The copy of the first candidate may fail with anything at the destination, and the run stop
there. -/
theorem CoreRun.mayStopIn_failed {run : CoreRun} {inventory : CoreInventoryShard}
    (hinventory : run.inventory sha256Hex = some inventory) {w : World String}
    (hprocessed : ((w.stored 0).trim inventory.days).1.processedSourceHash
      ≠ some inventory.sourceHash) {day : ListedUnit String} {rest : List (ListedUnit String)}
    (hcandidates : uncopied ((w.stored 0).trim inventory.days).1 inventory.days = day :: rest)
    (held : Option String) :
    (run.program sha256Hex).MayStopIn (answers coreHome run.source false True) w
      (w.copied coreHome day held .lost) := by
  have hcopy : (copyAndVerify day : CoreProg String).MayStopIn
      (answers coreHome run.source false True) w (w.copied coreHome day held .lost) :=
    .await (⟨held, .lost, .failed "copy failed" held trivial, rfl⟩)
  rw [CoreRun.program, syncCoreToDropbox]
  refine .bind_right (run.reads hinventory w) (.bind_right (.await ⟨rfl, Or.inl rfl⟩) ?_)
  rw [World.stored] at hprocessed hcandidates
  dsimp only
  generalize ((w.shards 0).getD ShardState.skeleton).trim inventory.days = trimmed
    at hprocessed hcandidates ⊢
  obtain ⟨state, wasTrimmed⟩ := trimmed
  dsimp only at hprocessed hcandidates ⊢
  rw [if_neg hprocessed, hcandidates]
  refine .bind_right (.await ⟨rfl, 0, rfl⟩) (.bind_left ?_)
  rw [List.foldlM_cons]
  exact .bind_left (.bind_left (.tryCatch (.bind_left hcopy)))

/-- After a first run without faults the shard is complete for its inventory. -/
theorem CoreRun.exists_complete (hsha : Function.Injective sha256Hex) {run : CoreRun}
    (hdry : run.options.dryRun = false) {inventory : CoreInventoryShard}
    (hinventory : run.inventory sha256Hex = some inventory) (bindings : World TimeseriesId) :
    ∃ w : World String,
      (BackupRun.core run).MayStopIn sha256Hex ⟨.initial fun _ ↦ none, bindings⟩ ⟨w, bindings⟩ ∧
      Sound sha256Hex (coreSourceHash sha256Hex) coreHome w ∧
      (w.stored 0).processedSourceHash = some inventory.sourceHash := by
  let before : BackupState := ⟨.initial fun _ ↦ none, bindings⟩
  have hsound : Sound sha256Hex (coreSourceHash sha256Hex) coreHome before.core :=
    sound_initial fun _ ↦ none
  have hlost : run.NeverLost sha256Hex before.core.begin := fun _ _ _ _ h ↦ nomatch h
  let ended := (run.program sha256Hex).execute (respond coreHome run.source none) before.core.begin
  have hends : ∀ faults : Prop, (run.program sha256Hex).MayEndIn
      (answers coreHome run.source false faults) before.core.begin ended.1 ended.2.1 := fun faults ↦
    Prog.mayEndIn_execute (answers_respond coreHome run.source fun h ↦ absurd rfl h) _ _
  have hstop : (BackupRun.core run).MayStopIn sha256Hex before ⟨ended.2.1, bindings⟩ := by
    refine ⟨rfl, ?_⟩
    rw [hdry]
    exact (hends True).mayStopIn
  obtain ⟨report, -, -, hprocessed⟩ :=
    (run.completes hsha hsound hlost inventory hinventory hdry).2 _ _ (hends False)
  exact ⟨_, hstop, (run.stopped hsha hsound hlost hstop.2).1, hprocessed⟩

/-! ## A day that returns to an earlier hash -/

/-- **A day that changes, is overwritten by a copy that fails, and returns to the hash of its last
recorded copy, is skipped although the destination does not hold it.** -/
theorem not_skipsAreSound_of_return (hsha : Function.Injective sha256Hex) {first second : CoreRun}
    (hdry : first.options.dryRun = false) (hdry' : second.options.dryRun = false)
    {a b : CoreInventoryShard} (ha : first.inventory sha256Hex = some a)
    (hb : second.inventory sha256Hex = some b) {day day' : ListedUnit String}
    (hday : a.days = [day]) (hday' : b.days = [day']) (hkey : day'.key = day.key)
    (hhash : day'.hash ≠ day.hash) :
    ¬SkipsAreSound sha256Hex fun _ _ ↦ True := by
  intro h
  let bindings : World TimeseriesId := .initial fun _ ↦ none
  obtain ⟨copied, hcopied, hsound, hprocessed⟩ := first.exists_complete hsha hdry ha bindings
  have ha' := CoreRun.inventory_spec ha
  have hb' := CoreRun.inventory_spec hb
  have hrecorded : (copied.stored 0).hashOf day.key = some day.hash :=
    hsound.processed 0 _ _ (shards_of_processed hprocessed) hprocessed a.days ha'.1.symm day
      (by rw [hday]; exact List.mem_cons_self)
  -- the second run copies the day over and fails before it is recorded
  have hlisted : ∀ inventory : CoreInventoryShard, day.key ∈ inventory.days.map ListedUnit.key →
      ((copied.stored 0).trim inventory.days).1.hashOf day.key = some day.hash := by
    intro inventory hmem
    rw [ShardState.hashOf_trim, if_pos hmem, hrecorded]
  have hmem' : day.key ∈ b.days.map ListedUnit.key := by
    rw [hday', List.map_singleton, hkey]
    exact List.mem_cons_self
  have hnew : ((copied.stored 0).trim b.days).1.processedSourceHash ≠ some b.sourceHash := by
    intro heq
    rw [ShardState.trim_eq_of_processed heq, hprocessed, Option.some.injEq, ha'.1, hb'.1] at heq
    have hpair := (identifies_coreSourceHash hsha a.days b.days heq day.identity).mp
      (by rw [hday]; exact List.mem_cons_self)
    rw [hday', List.map_singleton, List.mem_singleton] at hpair
    exact hhash (congrArg Prod.snd hpair).symm
  have hcandidates : uncopied ((copied.stored 0).trim b.days).1 b.days = day' :: [] := by
    have hlisted' := hlisted b hmem'
    rw [hday'] at hlisted' ⊢
    refine List.filter_eq_self.mpr fun unit hunit ↦ decide_eq_true ?_
    rw [List.mem_singleton.mp hunit, hkey, hlisted']
    exact fun heq ↦ hhash (Option.some.inj heq).symm
  let failed := copied.begin.copied coreHome day' (some day'.hash) .lost
  have hfailed : (BackupRun.core second).MayStopIn sha256Hex ⟨copied, bindings⟩
      ⟨failed, bindings⟩ := by
    refine ⟨rfl, ?_⟩
    rw [hdry']
    exact second.mayStopIn_failed (w := copied.begin) hb hnew hcandidates _
  -- the third run lists the day as it is recorded
  have hleaves : Leaves sha256Hex (fun _ _ ↦ True) ⟨failed, bindings⟩ :=
    .stopped (.stopped (.initial _ _) trivial hcopied) trivial hfailed
  have hheld := (h _ hleaves (.core first) trivial).1 ⟨failed.begin, bindings⟩ ⟨rfl, .refl _ _⟩
  have hskipped : day ∈ first.skipped sha256Hex failed.begin := by
    rw [first.skipped_eq sha256Hex _ a ha, skippedUnits]
    have hlisted' := hlisted a (by rw [hday]; exact List.mem_cons_self)
    split
    · rw [hday]
      exact List.mem_cons_self
    · rw [List.mem_filter, hday]
      rw [hday] at hlisted'
      exact ⟨List.mem_cons_self, decide_eq_true hlisted'⟩
  have hholds : failed.holds day.key = some day'.hash := by
    rw [World.holds_copied, hkey, Function.update_self]
  exact hhash (Option.some.inj (hholds.symm.trans (hheld day hskipped)))

/-- The core inventory in which the one day has the given hash. -/
def returningInventory (hash : String) : CoreInventoryShard :=
  buildCoreInventoryShard id "history/v2/core" [⟨"2026-01-01", "", hash, none, none, none⟩]

theorem days_returningInventory (hash : String) : (returningInventory hash).days =
    [⟨"2026-01-01", "history/v2/core" ++ "/day_utc=" ++ "2026-01-01", hash, none, none, none⟩] :=
  rfl

def returningReference (hash : String) : CoreRootReference :=
  ⟨"core.json", JsValue.canonicalJson (returningInventory hash).toJs,
    (returningInventory hash).sourceHash, 1⟩

theorem checkCoreInventory_returning (hash : String) :
    checkCoreInventory id (returningReference hash) (returningInventory hash)
      = .ok (returningInventory hash) := by
  have hbuild : buildCoreInventoryShard id (returningInventory hash).sourcePrefix
      (returningInventory hash).days = returningInventory hash := rfl
  have hvalid : validateCoreInventoryShard id (returningInventory hash)
      = .ok (returningInventory hash) := by
    rw [validateCoreInventoryShard, hbuild, Except.refuseIf_neg (not_not.mpr rfl)]
    rfl
  have hlength : (returningInventory hash).days.length = 1 := by rw [days_returningInventory]; rfl
  rw [checkCoreInventory, hvalid, Except.ok_bind, Except.refuseIf_neg]
  · rfl
  · rw [not_or, not_or, not_not, not_not, not_not]
    exact ⟨rfl, rfl, hlength⟩

theorem nodup_returningInventory {hash : String} {raw : CoreInventoryShard}
    (h : some (returningInventory hash) = some raw) : (raw.days.map ListedUnit.key).Nodup := by
  have hraw := Option.some.inj h
  generalize hinventory : returningInventory hash = inventory at hraw
  have hdays := days_returningInventory hash
  rw [hinventory, hraw] at hdays
  rw [hdays]
  exact List.nodup_singleton _

/-- A run over that inventory. -/
def returningRun (hash : String) : CoreRun where
  options := ⟨false, 1, 0⟩
  reference := some (returningReference hash)
  source _ := some (returningInventory hash)
  listedOnce _ _ := nodup_returningInventory

theorem inventory_returningRun (hash : String) :
    (returningRun hash).inventory id = some (returningInventory hash) :=
  CoreRun.inventory_eq rfl rfl (checkCoreInventory_returning hash)

end UkAqOps.Backup

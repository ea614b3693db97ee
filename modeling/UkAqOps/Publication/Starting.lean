import Mathlib.Algebra.Group.Action.Defs
import UkAqOps.Publication.Order
import UkAqOps.Publication.Settling

/-!
# Publishing what was planned

A plan that the planner made can always be started. Before the first call the loop over its entries
has counted the references of each entry to other entries and has collected the dependants of each;
nothing has been launched, so the invariant holds, and with it everything that holds along a run.
-/

namespace UkAqOps.Publication

open Effects Scheduling

/-! ## What a plan that was made says -/

/-- What the finaliser relies on. -/
structure Scheduled (sha256Hex : List ℕ → String) (plan : PublicationPlan) : Prop where
  positions : ∀ i entry, plan.entries[i]? = some entry → entry.position = i + 1
  nodup_keys : (plan.entries.map (·.key)).Nodup
  before : ∀ done entry rest, plan.entries = done ++ entry :: rest →
    ∀ target ∈ plan.entries, NeedsEntry entry target → target ∈ done
  resolves : ∀ entry ∈ plan.entries, ∀ reference ∈ entry.references,
    reference.key ∈ plan.entries.map (·.key) ∨
    ∃ external ∈ plan.externalReferences, external.key = reference.key ∧ external.verified = true ∧
      external.durable = true ∧ external.byteSize = reference.byteSize ∧
      external.sha256 = reference.sha256
  nodup_externals : (plan.externalReferences.map (·.key)).Nodup
  valid : validatePublicationPlan sha256Hex plan = .ok ()

section Build

variable {sha256Hex : List ℕ → String} {raws : List RawPublicationObject}
variable {rawExternals : List RawExternalReference} {objects : List PublicationObject}
variable {externals : List ExternalReference} {plan : PublicationPlan}

theorem verified_of_normalizeExternalReference {raw : RawExternalReference}
    {external : ExternalReference} (h : normalizeExternalReference raw = .ok external) :
    external.verified = true ∧ external.durable = true := by
  rw [normalizeExternalReference] at h
  obtain ⟨identity, -, h⟩ := Except.bind_eq_ok_iff.mp h
  split at h
  · rcases h with ⟨⟩
  · rw [← Except.pure_eq_ok_iff.mp h]
    exact ⟨rfl, rfl⟩

theorem verified_of_mapM (h : rawExternals.mapM normalizeExternalReference = .ok externals) :
    ∀ external ∈ externals, external.verified = true ∧ external.durable = true := by
  intro external hmem
  obtain ⟨raw, -, hraw⟩ := (Except.mem_iff_of_mapM h).mp hmem
  exact verified_of_normalizeExternalReference hraw

/-- **A plan that was made is scheduled.** -/
theorem scheduled_of_build (hraws : raws.mapM (normalizePublicationObject sha256Hex) = .ok objects)
    (hexternals : rawExternals.mapM normalizeExternalReference = .ok externals)
    (hplan : buildObservationHistoryIndexV3PublicationPlan sha256Hex raws rawExternals = .ok plan) :
    Scheduled sha256Hex plan := by
  have hne : objects ≠ [] := by
    rintro rfl
    rw [buildObservationHistoryIndexV3PublicationPlan, hraws] at hplan
    rcases hplan with ⟨⟩
  obtain ⟨hpublishable, hschedule, hsha⟩ := (buildPlan_eq_ok_iff hraws hne hexternals).mp hplan
  obtain ⟨hkeys, hexternalKeys, -⟩ := nodup_append_keys_iff.mp hpublishable.nodup_keys
  obtain ⟨hgreedy, -⟩ := greedy_scheduleOf hkeys externals
  have hentries : plan.entries = (scheduleOf objects externals).entries :=
    congrArg PublicationSchedule.entries hschedule
  have hplanned : plan.externalReferences = (scheduleOf objects externals).externalReferences :=
    congrArg PublicationSchedule.externalReferences hschedule
  rw [← hentries] at hgreedy
  have hperm : (plan.entries.map PublicationEntry.toPublicationObject).Perm objects :=
    hgreedy.perm (List.Nodup.of_map _ hkeys) fun object hobject ↦ by
      rw [hentries]
      exact mem_scheduleOf hkeys hpublishable.acyclic externals hobject
  have hexternalMem : plan.externalReferences.Perm externals := by
    rw [hplanned, scheduleOf, publicationSchedule,
      values_of_entries (entries_externalMap hexternalKeys)]
    exact Sorting.sortBy_perm _
  have hmapKeys : plan.entries.map (·.key)
      = (plan.entries.map PublicationEntry.toPublicationObject).map PublicationObject.key := by
    rw [List.map_map]
    rfl
  have hnodup : (plan.entries.map (·.key)).Nodup := by
    rw [hmapKeys]
    exact (hperm.map _).nodup_iff.mpr hkeys
  have hpositions : ∀ i entry, plan.entries[i]? = some entry → entry.position = i + 1 := by
    intro i entry hentry
    rw [hentries, scheduleOf, publicationSchedule, List.getElem?_map, List.getElem?_zipIdx,
      Option.map_map] at hentry
    obtain ⟨object, -, rfl⟩ := Option.map_eq_some_iff.mp hentry
    simp [publicationEntry]
  refine ⟨hpositions, hnodup, ?before, ?resolves, (hexternalMem.map _).nodup_iff.mpr hexternalKeys,
    ?valid⟩
  case before =>
    intro done entry rest hsplit target htarget hneeds
    obtain ⟨heligible, -⟩ := hgreedy (done.map PublicationEntry.toPublicationObject)
      entry.toPublicationObject (rest.map PublicationEntry.toPublicationObject)
      (by rw [hsplit, List.map_append, List.map_cons])
    have hdone := heligible.ready target.toPublicationObject
      (hperm.mem_iff.mp (List.mem_map_of_mem htarget)) hneeds
    obtain ⟨other, hother, hobject⟩ := List.mem_map.mp hdone
    have hmem : other ∈ plan.entries := by
      rw [hsplit]
      exact List.mem_append_left _ hother
    rw [← List.inj_on_of_nodup_map hnodup hmem htarget
      (congrArg PublicationObject.key hobject)]
    exact hother
  case resolves =>
    intro entry hentry reference hreference
    rcases hpublishable.resolves entry.toPublicationObject
      (hperm.mem_iff.mp (List.mem_map_of_mem hentry)) reference hreference with
      ⟨target, htarget, hkey, -⟩ | ⟨external, hexternal, hkey, hsize, hhash⟩
    · left
      rw [hmapKeys, ← hkey]
      exact List.mem_map_of_mem (hperm.mem_iff.mpr htarget)
    · obtain ⟨hverified, hdurable⟩ := verified_of_mapM hexternals external hexternal
      exact Or.inr ⟨external, hexternalMem.mem_iff.mpr hexternal, hkey, hverified, hdurable, hsize,
        hhash⟩
  case valid =>
    have hcontract : plan.contractVersion = publicationContract := by
      rw [hschedule]
      rfl
    have hsome : plan.entries ≠ [] := fun hnil ↦ hne (by
      rw [hnil] at hperm
      exact hperm.symm.eq_nil)
    have hall : ∀ p ∈ plan.entries.zipIdx, p.1.position = p.2 + 1 := fun p hp ↦
      hpositions p.2 p.1 (List.mem_zipIdx_iff_getElem?.mp hp)
    rw [validatePublicationPlan]
    refine Except.bind_eq_ok_iff.mpr ⟨(), Except.refuseIf_eq_ok_iff.mpr (by simp [hcontract, hsome]),
      Except.bind_eq_ok_iff.mpr ⟨plan.scheduleSha256, by rw [hschedule]; exact hsha, ?_⟩⟩
    exact Except.bind_eq_ok_iff.mpr ⟨(), Except.refuseIf_eq_ok_iff.mpr (not_not.mpr rfl),
      Except.refuseIf_eq_ok_iff.mpr (not_not.mpr hall)⟩

end Build

/-! ## Preparing -/

section Prepare

variable {entriesByKey : OrderedMap String PublicationEntry}
variable {externals : OrderedMap String ExternalReference} {entry : PublicationEntry}

/-- The references of an entry to entries with one of the keys. -/
def changedKeys (keys : List String) (entry : PublicationEntry) : List String :=
  (entry.references.map Reference.key).filter (· ∈ keys)

theorem nodup_changedKeys (keys : List String) (entry : PublicationEntry) :
    (changedKeys keys entry).Nodup :=
  entry.nodup_references.filter _

/-- A reference that is not to an entry is to an external reference that is published. -/
def Covered (entriesByKey : OrderedMap String PublicationEntry)
    (externals : OrderedMap String ExternalReference) (entry : PublicationEntry) : Prop :=
  ∀ reference ∈ entry.references, reference.key ∈ entriesByKey.keys ∨
    ∃ external, externals.get? reference.key = some external ∧ external.verified = true ∧
      external.durable = true ∧ external.byteSize = reference.byteSize ∧
      external.sha256 = reference.sha256

theorem isChangedReference_eq (h : Covered entriesByKey externals entry)
    {labelled : Relationship × Reference} (hmem : labelled ∈ entry.labelledReferences) :
    isChangedReference entriesByKey externals entry labelled
      = .ok (decide (labelled.2.key ∈ entriesByKey.keys)) := by
  have hreference : labelled.2 ∈ entry.references := by
    rw [← map_snd_labelledReferences]
    exact List.mem_map_of_mem hmem
  rw [isChangedReference]
  by_cases hkey : labelled.2.key ∈ entriesByKey.keys
  · rw [if_pos hkey, decide_eq_true hkey]
  · rw [if_neg hkey, decide_eq_false hkey]
    obtain ⟨external, hget, hverified, hdurable, hsize, hhash⟩ :=
      (h labelled.2 hreference).resolve_left hkey
    rw [hget]
    exact if_pos ⟨hverified, hdurable, hsize, hhash⟩

theorem foldl_changed (keys : List String) (labelled : List (Relationship × Reference))
    (found : List String) :
    labelled.foldl (fun found (reference : Relationship × Reference) ↦
        if decide (reference.2.key ∈ keys) then found ++ [reference.2.key] else found) found
      = found ++ ((labelled.map Prod.snd).map Reference.key).filter (· ∈ keys) := by
  induction labelled generalizing found with
  | nil => simp
  | cons first rest ih =>
    rw [List.foldl_cons, ih, List.map_cons, List.map_cons]
    by_cases hkey : first.2.key ∈ keys
    · rw [if_pos (decide_eq_true hkey), List.filter_cons_of_pos (by simpa using hkey),
        List.append_assoc]
      rfl
    · rw [if_neg (by simpa using hkey), List.filter_cons_of_neg (by simpa using hkey)]

/-- What an entry adds to what has been prepared. -/
theorem prepareEntry_eq (h : Covered entriesByKey externals entry) (prepared : Prepared) :
    prepareEntry entriesByKey externals prepared entry = .ok {
      unresolved := prepared.unresolved.set entry.key (changedKeys entriesByKey.keys entry).length
      dependants := (changedKeys entriesByKey.keys entry).foldl (fun dependants key ↦
        dependants.set key ((dependants.get? key).getD [] ++ [entry])) prepared.dependants
      ready := if (changedKeys entriesByKey.keys entry).length = 0
        then prepared.ready.push entry else prepared.ready } := by
  have hloop := Except.foldlM_of_forall_ok
    (fun found (reference : Relationship × Reference) (changed : Bool) ↦
      if changed then found ++ [reference.2.key] else found)
    (fun labelled hlabelled ↦ isChangedReference_eq h hlabelled) []
  rw [foldl_changed, map_snd_labelledReferences, List.nil_append] at hloop
  rw [prepareEntry, hloop]
  rfl

/-- Appending an entry to the dependants of keys that are all different. -/
theorem get?_foldl_dependants {keys : List String} (hnodup : keys.Nodup)
    (dependants : OrderedMap String (List PublicationEntry)) {key : String}
    {known : List PublicationEntry} (hkey : dependants.get? key = some known) :
    (keys.foldl (fun dependants key ↦
        dependants.set key ((dependants.get? key).getD [] ++ [entry])) dependants).get? key
      = some (known ++ if key ∈ keys then [entry] else []) := by
  induction keys generalizing dependants known with
  | nil => simpa using hkey
  | cons first rest ih =>
    obtain ⟨hfirst, hrest⟩ := List.nodup_cons.mp hnodup
    rw [List.foldl_cons]
    by_cases heq : key = first
    · subst heq
      rw [ih hrest _ (OrderedMap.get?_set_self _ _ _), hkey, if_neg hfirst,
        if_pos List.mem_cons_self, List.append_nil]
      rfl
    · rw [ih hrest _ ((OrderedMap.get?_set_of_ne _ _ heq).trans hkey)]
      have hmem : key ∈ first :: rest ↔ key ∈ rest := by
        rw [List.mem_cons, or_iff_right heq]
      rw [if_congr hmem rfl rfl]

/-- What the loop over the entries has built when it has come behind some of them. -/
structure PreparedFrom (keys : List String) (done : List PublicationEntry) (prepared : Prepared) :
    Prop where
  unresolved : ∀ entry ∈ done,
    prepared.unresolved.get? entry.key = some ((changedKeys keys entry).length : ℤ)
  dependants : ∀ key ∈ keys, prepared.dependants.get? key
    = some (done.filter fun entry ↦ key ∈ changedKeys keys entry)
  ready : prepared.ready.entries.Perm (done.filter fun entry ↦ changedKeys keys entry = [])

/-- **Step.** -/
theorem PreparedFrom.snoc {done : List PublicationEntry} {prepared prepared' : Prepared}
    (h : PreparedFrom entriesByKey.keys done prepared)
    (hcovered : Covered entriesByKey externals entry)
    (hfresh : entry.key ∉ done.map (·.key))
    (hprepare : prepareEntry entriesByKey externals prepared entry = .ok prepared') :
    PreparedFrom entriesByKey.keys (done ++ [entry]) prepared' := by
  rw [prepareEntry_eq hcovered, Except.ok.injEq] at hprepare
  subst hprepare
  refine ⟨fun other hother ↦ ?_, fun key hkey ↦ ?_, ?_⟩
  · rcases List.mem_append.mp hother with hold | hnew
    · have hne : other.key ≠ entry.key := fun heq ↦
        hfresh (heq ▸ List.mem_map_of_mem (f := fun e : PublicationEntry ↦ e.key) hold)
      rw [OrderedMap.get?_set_of_ne _ _ hne]
      exact h.unresolved other hold
    · rw [List.mem_singleton.mp hnew, OrderedMap.get?_set_self]
  · rw [get?_foldl_dependants (nodup_changedKeys _ _) _ (h.dependants key hkey), List.filter_append]
    by_cases hin : key ∈ changedKeys entriesByKey.keys entry
    · rw [if_pos hin, List.filter_cons_of_pos (by simpa using hin), List.filter_nil]
    · rw [if_neg hin, List.filter_cons_of_neg (by simpa using hin), List.filter_nil]
  · rw [List.filter_append]
    by_cases hnil : changedKeys entriesByKey.keys entry = []
    · rw [if_pos (by rw [hnil]; rfl), List.filter_cons_of_pos (by simpa using hnil), List.filter_nil]
      exact (MinHeap.push_perm _ _).trans
        ((h.ready.cons entry).trans (List.perm_append_singleton entry _).symm)
    · rw [if_neg fun hzero ↦ hnil (List.length_eq_zero_iff.mp hzero),
        List.filter_cons_of_neg (by simpa using hnil), List.filter_nil, List.append_nil]
      exact h.ready

end Prepare

/-! ## The first state -/

section Start

variable {sha256Hex : List ℕ → String} {plan : PublicationPlan} {publicationConcurrency : ℤ}

theorem keys_entriesByKey (h : (plan.entries.map (·.key)).Nodup) :
    (OrderedMap.ofList (plan.entries.map fun entry ↦ (entry.key, entry))).keys
      = plan.entries.map (·.key) := by
  rw [OrderedMap.keys, OrderedMap.entries_ofList (by rw [List.map_map]; exact h), List.map_map]
  rfl

theorem Scheduled.covered (h : Scheduled sha256Hex plan) {entry : PublicationEntry}
    (hentry : entry ∈ plan.entries) :
    Covered (OrderedMap.ofList (plan.entries.map fun entry ↦ (entry.key, entry)))
      (OrderedMap.ofList (plan.externalReferences.map fun entry ↦ (entry.key, entry))) entry := by
  intro reference hreference
  rw [keys_entriesByKey h.nodup_keys]
  refine (h.resolves entry hentry reference hreference).imp_right ?_
  rintro ⟨external, hexternal, hkey, hverified⟩
  refine ⟨external, ?_, hverified⟩
  rw [OrderedMap.get?_eq_some_iff, OrderedMap.entries_ofList
    (by rw [List.map_map]; exact h.nodup_externals), ← hkey]
  exact List.mem_map_of_mem (f := fun entry : ExternalReference ↦ (entry.key, entry)) hexternal

/-- Nothing is durable yet: what an entry waits for are all its references to other entries. -/
theorem pendingOf_of_no_evidence {f : Finalizer} {s : State}
    (hnone : ∀ entry ∈ f.plan.entries, evidenceAt s entry = none) (entry : PublicationEntry) :
    pendingOf f s entry = (changedKeys (f.plan.entries.map (·.key)) entry).length := by
  have hcompleted : completed f s = [] := by
    rw [completed, List.filter_eq_nil_iff]
    intro other hother
    rw [hnone other hother]
    simp
  rw [pendingOf, hcompleted, pending, objectsOf, List.map_map, changedKeys,
    ← List.countP_eq_length_filter]
  refine List.countP_congr fun key _ ↦ ?_
  simp [objectsOf]

/-- What the loop builds for a scheduled plan. -/
theorem Scheduled.exists_prepared (h : Scheduled sha256Hex plan) :
    ∃ prepared, plan.entries.foldlM
        (prepareEntry (OrderedMap.ofList (plan.entries.map fun entry ↦ (entry.key, entry)))
          (OrderedMap.ofList (plan.externalReferences.map fun entry ↦ (entry.key, entry)))) {
          unresolved := .empty
          dependants := OrderedMap.ofList (plan.entries.map fun entry ↦ (entry.key, []))
          ready := .empty } = .ok prepared ∧
      PreparedFrom (plan.entries.map (·.key)) plan.entries prepared := by
  rcases hprepared : plan.entries.foldlM
      (prepareEntry (OrderedMap.ofList (plan.entries.map fun entry ↦ (entry.key, entry)))
        (OrderedMap.ofList (plan.externalReferences.map fun entry ↦ (entry.key, entry)))) {
        unresolved := .empty
        dependants := OrderedMap.ofList (plan.entries.map fun entry ↦ (entry.key, []))
        ready := .empty } with e | prepared
  · obtain ⟨_, entry, hentry, herror⟩ := Except.exists_error_of_foldlM hprepared
    rw [prepareEntry_eq (h.covered hentry)] at herror
    rcases herror with ⟨⟩
  refine ⟨prepared, hprepared, ?_⟩
  have hkeys := keys_entriesByKey h.nodup_keys
  rw [← hkeys]
  refine Except.foldlM_invariant hprepared ⟨by simp, fun key hkey ↦ ?_, .refl _⟩ ?_
  · rw [hkeys] at hkey
    obtain ⟨entry, hentry, rfl⟩ := List.mem_map.mp hkey
    rw [OrderedMap.get?_eq_some_iff, OrderedMap.entries_ofList (by
      rw [List.map_map]
      exact h.nodup_keys)]
    exact List.mem_map_of_mem
      (f := fun entry : PublicationEntry ↦ (entry.key, ([] : List PublicationEntry))) hentry
  · intro done entry rest prepared prepared' hsplit hdone hstep
    refine hdone.snoc (h.covered (by rw [hsplit]; simp)) ?_ hstep
    have hnodup := h.nodup_keys
    rw [hsplit, List.map_append, List.map_cons, List.nodup_append] at hnodup
    exact fun hmem ↦ hnodup.2.2 _ hmem _ List.mem_cons_self rfl

/-- The finaliser of a scheduled plan. -/
theorem Scheduled.wellPlanned (h : Scheduled sha256Hex plan) {prepared : Prepared}
    (hprepared : PreparedFrom (plan.entries.map (·.key)) plan.entries prepared) {concurrency : ℕ}
    (hpos : 0 < concurrency) : WellPlanned {
      plan, concurrency, sha256Hex
      dependants := prepared.dependants.mapValues (Sorting.sortBy comparePosition) } := by
  have hdependants : ∀ entry ∈ plan.entries,
      ((prepared.dependants.mapValues (Sorting.sortBy comparePosition)).get? entry.key).getD []
        = Sorting.sortBy comparePosition (plan.entries.filter fun dependant ↦
            entry.key ∈ changedKeys (plan.entries.map (·.key)) dependant) := by
    intro entry hentry
    rw [OrderedMap.get?_mapValues, hprepared.dependants entry.key
      (List.mem_map_of_mem (f := fun e : PublicationEntry ↦ e.key) hentry)]
    rfl
  refine ⟨h.positions, h.nodup_keys, h.before, fun entry hentry ↦ ?_,
    fun entry hentry dependant ↦ ?_, hpos⟩
  · change (((prepared.dependants.mapValues (Sorting.sortBy comparePosition)).get?
      entry.key).getD []).Nodup
    rw [hdependants entry hentry, Sorting.nodup_sortBy]
    exact (List.Nodup.of_map _ h.nodup_keys).filter _
  · change dependant ∈ ((prepared.dependants.mapValues (Sorting.sortBy comparePosition)).get?
      entry.key).getD [] ↔ _
    rw [hdependants entry hentry, Sorting.mem_sortBy, List.mem_filter, decide_eq_true_iff,
      changedKeys, List.mem_filter]
    refine and_congr_right fun _ ↦ and_iff_left_of_imp fun _ ↦ decide_eq_true ?_
    exact List.mem_map_of_mem (f := fun e : PublicationEntry ↦ e.key) hentry

/-- The state at the head of the loop. -/
def firstState (plan : PublicationPlan) (prepared : Prepared) : State where
  unresolved := prepared.unresolved
  ready := prepared.ready
  evidenceByPosition := List.replicate plan.entries.length none

theorem evidenceAt_firstState (prepared : Prepared) (entry : PublicationEntry) :
    evidenceAt (firstState plan prepared) entry = none := by
  rw [evidenceAt, firstState, List.getElem?_replicate]
  split <;> rfl

theorem not_launched_firstState (prepared : Prepared) (key : String) :
    ¬Launched (firstState plan prepared) key := by
  rintro ⟨request, hmem⟩
  exact List.not_mem_nil hmem

/-- **The invariant holds before the first call.** -/
theorem Scheduled.inv_firstState (h : Scheduled sha256Hex plan) {prepared : Prepared}
    (hprepared : PreparedFrom (plan.entries.map (·.key)) plan.entries prepared) {f : Finalizer}
    (hf : f.plan = plan) : Inv f (firstState plan prepared) := by
  subst hf
  have hpending := pendingOf_of_no_evidence (f := f) (s := firstState f.plan prepared)
    fun entry _ ↦ evidenceAt_firstState prepared entry
  have hcompleted : completed f (firstState f.plan prepared) = [] := by
    rw [completed, List.filter_eq_nil_iff]
    intro entry _
    rw [evidenceAt_firstState]
    simp
  constructor
  case counted =>
    refine ⟨fun entry hentry ↦ ?_, ?_, fun entry ↦ ?_⟩
    · rw [hpending]
      exact hprepared.unresolved entry hentry
    · exact hprepared.ready.nodup_iff.mpr ((List.Nodup.of_map _ h.nodup_keys).filter _)
    · rw [hpending, Int.natCast_eq_zero, List.length_eq_zero_iff,
        and_iff_left (not_launched_firstState prepared entry.key)]
      refine hprepared.ready.mem_iff.trans ?_
      rw [List.mem_filter, decide_eq_true_iff]
  case length_evidence => exact List.length_replicate
  case completedCount => rw [hcompleted]; rfl
  case active => exact fun key flight hflight ↦ by rcases hflight with ⟨⟩
  case launched => exact fun entry _ hlaunched ↦ absurd hlaunched (not_launched_firstState _ _)
  case durable =>
    intro entry _ evidence hevidence
    rw [evidenceAt_firstState] at hevidence
    rcases hevidence with ⟨⟩
  case failed => exact fun p hp ↦ absurd hp List.not_mem_nil
  case stopped => exact ⟨fun hstop ↦ by rcases hstop with ⟨⟩, fun hne ↦ absurd rfl hne⟩
  case concurrency => exact Nat.zero_le _
  case quiet => exact fun _ _ ↦ rfl
  case once => exact fun _ ↦ Nat.zero_le _
  case after =>
    intro before key request rest hsplit
    exact absurd hsplit.symm (by simp [firstState])
  case answered => exact fun key c hc ↦ absurd hc List.not_mem_nil

/-- **A scheduled plan can be started** with up to sixteen publications at a time, and what holds
along a run holds from there. -/
theorem Scheduled.exists_start (h : Scheduled sha256Hex plan)
    (hconcurrency : 1 ≤ publicationConcurrency ∧ publicationConcurrency ≤ 16) :
    ∃ f s, startPublication sha256Hex plan publicationConcurrency = .ok (f, s) ∧
      f.plan = plan ∧ f.sha256Hex = sha256Hex ∧ (f.concurrency : ℤ) = publicationConcurrency ∧
      WellPlanned f ∧ Reached f s ∧ remaining f s ≤ 4 * plan.entries.length + 1 := by
  obtain ⟨prepared, hloop, hprepared⟩ := h.exists_prepared
  have hpos : 0 < publicationConcurrency.toNat := by omega
  have hf := h.wellPlanned hprepared hpos
  obtain ⟨hinv, hawaiting, hsame⟩ := (h.inv_firstState hprepared rfl).advance hf rfl
  refine ⟨_, _, ?start, rfl, rfl, Int.toNat_of_nonneg (by omega), hf, ⟨hinv, hawaiting⟩, ?bound⟩
  case start =>
    rw [startPublication, h.valid, Except.ok_bind, normalizePublicationConcurrency,
      if_neg (by omega), Except.ok_bind]
    exact Except.bind_eq_ok_iff.mpr ⟨prepared, hloop, rfl⟩
  case bound =>
    rw [remaining]
    refine Nat.add_le_add (?_ : _ ≤ _) (by split <;> omega)
    refine (List.sum_le_card_nsmul _ 4 (List.forall_mem_map.mpr fun entry _ ↦ ?_)).trans ?_
    · rw [weight]
      split <;> omega
    · rw [List.length_map, smul_eq_mul, Nat.mul_comm]

theorem normalizePublicationConcurrency_eq_ok {concurrency : ℕ}
    (h : normalizePublicationConcurrency publicationConcurrency = .ok concurrency) :
    1 ≤ publicationConcurrency ∧ publicationConcurrency ≤ 16 := by
  rw [normalizePublicationConcurrency] at h
  split at h
  · rcases h with ⟨⟩
  · omega

/-- What holds when the finaliser of a scheduled plan first awaits its adapters. -/
theorem Scheduled.of_start (h : Scheduled sha256Hex plan) {f : Finalizer} {s : State}
    (hstart : startPublication sha256Hex plan publicationConcurrency = .ok (f, s)) :
    f.plan = plan ∧ f.sha256Hex = sha256Hex ∧ (f.concurrency : ℤ) = publicationConcurrency ∧
      WellPlanned f ∧ Reached f s ∧ remaining f s ≤ 4 * plan.entries.length + 1 := by
  have hconcurrency : 1 ≤ publicationConcurrency ∧ publicationConcurrency ≤ 16 := by
    rw [startPublication] at hstart
    obtain ⟨_, -, hstart⟩ := Except.bind_eq_ok_iff.mp hstart
    obtain ⟨_, hnormal, -⟩ := Except.bind_eq_ok_iff.mp hstart
    exact normalizePublicationConcurrency_eq_ok hnormal
  obtain ⟨f', s', hstart', hfacts⟩ := h.exists_start hconcurrency
  obtain ⟨rfl, rfl⟩ := Prod.mk.inj (Except.ok.inj (hstart.symm.trans hstart'))
  exact hfacts

end Start

/-! ## Publishing a plan that was made -/

section Main

variable {sha256Hex : List ℕ → String} {raws : List RawPublicationObject}
variable {rawExternals : List RawExternalReference} {objects : List PublicationObject}
variable {externals : List ExternalReference} {plan : PublicationPlan} {publicationConcurrency : ℤ}

/-- **A publication keeps to its plan**, however its adapters answer or fail, and in any order. No
object is put twice; when one is put, everything that it depends on has been put, verified and
recorded; never more are in flight than allowed; and once a failure has been accepted, nothing is
launched any more. -/
theorem publication_keeps_plan
    (hraws : raws.mapM (normalizePublicationObject sha256Hex) = .ok objects)
    (hexternals : rawExternals.mapM normalizeExternalReference = .ok externals)
    (hplan : buildObservationHistoryIndexV3PublicationPlan sha256Hex raws rawExternals = .ok plan)
    {f : Finalizer} {s s' : State}
    (hstart : startPublication sha256Hex plan publicationConcurrency = .ok (f, s))
    (hreaches : Reaches f s s') :
    (∀ key, putCount key s'.log ≤ 1) ∧
    (∀ before key request rest,
      s'.log = before ++ .called key (.putIfChanged request) :: rest →
      ∃ entry ∈ plan.entries, entry.key = key ∧ request = putRequest entry ∧
        ∀ target, Relation.TransGen (Edge plan.entries NeedsEntry) entry target →
          Durable f target (answersOf target.key before)) ∧
    (s'.active.size : ℤ) ≤ publicationConcurrency ∧
    (s'.failures ≠ [] → ∀ s'', Reaches f s' s'' → ∀ key, Launched s'' key → Launched s' key) := by
  obtain ⟨rfl, -, hconcurrency, hf, hreached, -⟩ :=
    (scheduled_of_build hraws hexternals hplan).of_start hstart
  have h := hreached.reaches hf hreaches
  refine ⟨h.inv.once, h.inv.after, ?_, fun hfailed s'' hreaches' key hkey ↦ ?_⟩
  · rw [← hconcurrency]
    exact_mod_cast h.inv.concurrency
  · exact (h.launched_of_stopped hf (h.inv.stopped.mpr hfailed) hreaches').2 key hkey

/-- **A publication settles.** It can be started with one to sixteen publications at a time, it takes
at most four steps for an object and one more, and it goes on until it has settled. If it resolves,
it has published every object of the plan exactly once and says so in the order of the plan; it
rejects only if an adapter failed. -/
theorem publication_settles
    (hraws : raws.mapM (normalizePublicationObject sha256Hex) = .ok objects)
    (hexternals : rawExternals.mapM normalizeExternalReference = .ok externals)
    (hplan : buildObservationHistoryIndexV3PublicationPlan sha256Hex raws rawExternals = .ok plan) :
    ((∃ started, startPublication sha256Hex plan publicationConcurrency = .ok started) ↔
      1 ≤ publicationConcurrency ∧ publicationConcurrency ≤ 16) ∧
    ∀ f s, startPublication sha256Hex plan publicationConcurrency = .ok (f, s) →
      (∀ path, List.IsChain (Step f) (s :: path) → path.length ≤ 4 * plan.entries.length + 1) ∧
      ∀ s', Reaches f s s' →
        ((∀ s'', ¬Step f s' s'') ↔ ∃ result, s'.status = .settled result) ∧
        (∀ result, s'.status = .settled (.ok result) →
          s'.active.entries = [] ∧ result.objects.map (·.key) = plan.entries.map (·.key) ∧
          ∀ entry ∈ plan.entries, putCount entry.key s'.log = 1 ∧
            Durable f entry (answersOf entry.key s'.log)) ∧
        ∀ failure, s'.status = .settled (.error failure) →
          s'.active.entries = [] ∧
          ∃ entry ∈ plan.entries, ∃ e ∈ answersOf entry.key s'.log, ¬Succeeds sha256Hex entry e := by
  have hscheduled := scheduled_of_build hraws hexternals hplan
  refine ⟨⟨?_, fun hconcurrency ↦ ?_⟩, fun f s hstart ↦ ?_⟩
  · rintro ⟨⟨f, s⟩, hstart⟩
    rw [startPublication] at hstart
    obtain ⟨_, -, hstart⟩ := Except.bind_eq_ok_iff.mp hstart
    obtain ⟨_, hnormal, -⟩ := Except.bind_eq_ok_iff.mp hstart
    exact normalizePublicationConcurrency_eq_ok hnormal
  · obtain ⟨f, s, hstart, -⟩ := hscheduled.exists_start hconcurrency
    exact ⟨(f, s), hstart⟩
  obtain ⟨rfl, rfl, -, hf, hreached, hremaining⟩ := hscheduled.of_start hstart
  refine ⟨fun path hpath ↦ (hreached.length_le hf hpath).trans hremaining, fun s' hreaches ↦ ?_⟩
  have h := hreached.reaches hf hreaches
  refine ⟨⟨fun hstuck ↦ ?_, ?_⟩, fun result hstatus ↦ ?_, fun failure hstatus ↦ ?_⟩
  · rcases hstatus : s'.status with _ | result
    · obtain ⟨s'', hstep⟩ := h.exists_step hstatus
      exact absurd hstep (hstuck s'')
    · exact ⟨result, rfl⟩
  · rintro ⟨result, hstatus⟩ s''
    exact not_step_of_settled hstatus
  · have hawaiting := h.awaiting
    rw [Awaiting, hstatus] at hawaiting
    refine ⟨hawaiting.1, h.keys_of_resolved hf hstatus, fun entry hentry ↦ ?_⟩
    obtain ⟨evidence, hevidence⟩ := Option.isSome_iff_exists.mp (hawaiting.2.2.1 entry hentry)
    obtain ⟨hlaunched, hdurable, -⟩ := h.inv.durable entry hentry evidence hevidence
    exact ⟨le_antisymm (h.inv.once entry.key) (putCount_pos hlaunched), hdurable⟩
  · have hawaiting := h.awaiting
    rw [Awaiting, hstatus] at hawaiting
    obtain ⟨hempty, p, hp, -⟩ := hawaiting
    obtain ⟨hmem, -, hfails⟩ := h.inv.failed p hp
    exact ⟨hempty, p.1, hmem, hfails⟩

theorem exists_normalized_of_build
    (hplan : buildObservationHistoryIndexV3PublicationPlan sha256Hex raws rawExternals = .ok plan) :
    ∃ objects externals, raws.mapM (normalizePublicationObject sha256Hex) = .ok objects ∧
      rawExternals.mapM normalizeExternalReference = .ok externals := by
  rw [buildObservationHistoryIndexV3PublicationPlan] at hplan
  obtain ⟨objects, hraws, hplan⟩ := Except.bind_eq_ok_iff.mp hplan
  obtain ⟨_, -, hplan⟩ := Except.bind_eq_ok_iff.mp hplan
  obtain ⟨byKey, -, hplan⟩ := Except.bind_eq_ok_iff.mp hplan
  obtain ⟨map, hmap, -⟩ := Except.bind_eq_ok_iff.mp hplan
  rw [externalByKey, indexByKey_eq_ok_iff] at hmap
  obtain ⟨externals, hexternals, -⟩ := hmap
  exact ⟨objects, externals, hraws, hexternals⟩

end Main

/-! ### An object with a dependency -/

theorem publishable_manifest : Publishable [manifest] [parquet] where
  nodup_keys := by decide
  resolves := by
    intro object hobject reference hreference
    rw [List.mem_singleton.mp hobject] at hreference
    rw [List.mem_singleton.mp (show reference ∈ [_] from hreference)]
    exact Or.inr ⟨parquet, List.mem_singleton_self _, rfl, rfl, rfl⟩
  stages := by
    intro object hobject target htarget _
    rw [List.mem_singleton.mp hobject, List.mem_singleton.mp htarget]
  acyclic := by
    intro object hcycle
    obtain ⟨target, ⟨hobject, htarget, hneeds⟩, -⟩ := Relation.TransGen.head'_iff.mp hcycle
    rw [List.mem_singleton.mp hobject, List.mem_singleton.mp htarget] at hneeds
    exact absurd hneeds (by decide)

theorem mapM_manifest : [rawManifest].mapM (normalizePublicationObject zeroHash) = .ok [manifest] :=
  (Except.mapM_eq_ok_iff _ _ _).mpr (.cons normalize_manifest .nil)

theorem mapM_parquet : [rawParquet].mapM normalizeExternalReference = .ok [parquet] :=
  (Except.mapM_eq_ok_iff _ _ _).mpr (.cons normalize_parquet .nil)

theorem exists_plan_manifest : ∃ plan,
    buildObservationHistoryIndexV3PublicationPlan zeroHash [rawManifest] [rawParquet] = .ok plan :=
  (exists_buildPlan_iff mapM_manifest (List.cons_ne_nil _ _) mapM_parquet).mpr publishable_manifest

end UkAqOps.Publication

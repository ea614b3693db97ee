import UkAqOps.Publication.Publishing

/-!
# The invariant of the finaliser

What holds between any two steps of a publication. An entry is launched, durable or waiting, and
`log` tells which calls it has made. The counters say how many references of an entry are not
durable, so the ready heap holds the entries that can be launched and have not been. Every entry in
flight is on the path that its own answers started it on.

Launching, answering and accepting each keep it; a step of the finaliser is made of these.
-/

namespace UkAqOps.Publication

open Effects Scheduling

/-! ## Reading a log -/

/-- The answers that the calls of an entry were given. -/
def answersOf (key : String) (log : List LogEvent) : List AdapterEvent :=
  log.filterMap fun
    | .called _ _ => none
    | .answered k e => if k = key then some e else none

/-- Whether an event is the put of an entry. -/
def isPutOf (key : String) : LogEvent → Bool
  | .called k (.putIfChanged _) => k = key
  | _ => false

/-- The puts of an entry. -/
def putCount (key : String) (log : List LogEvent) : ℕ := log.countP (isPutOf key)

section Log

variable {key key' : String} {log : List LogEvent} {c : Call}

theorem answersOf_append (log log' : List LogEvent) :
    answersOf key (log ++ log') = answersOf key log ++ answersOf key log' :=
  List.filterMap_append

@[simp] theorem answersOf_called : answersOf key [.called key' c] = [] := rfl

@[simp] theorem answersOf_answered (e : AdapterEvent) :
    answersOf key [.answered key e] = [e] := by
  simp [answersOf]

theorem answersOf_answered_of_ne (h : key' ≠ key) (e : AdapterEvent) :
    answersOf key [.answered key' e] = [] := by
  simp [answersOf, h]

@[simp] theorem answersOf_callNext (program : Prog Call.Answer Failure PublishedEntry) :
    answersOf key (callNext key' program) = [] := by
  cases program <;> rfl

theorem putCount_append (log log' : List LogEvent) :
    putCount key (log ++ log') = putCount key log + putCount key log' :=
  List.countP_append

theorem putCount_eq_zero
    (h : ∀ request, LogEvent.called key (.putIfChanged request) ∉ log) : putCount key log = 0 := by
  rw [putCount, List.countP_eq_zero]
  intro event hevent hput
  rcases event with ⟨key', c'⟩ | ⟨key', e⟩
  · rcases c' with request | _ | _
    · refine h request ?_
      rw [← of_decide_eq_true hput]
      exact hevent
    · cases hput
    · cases hput
  · cases hput

end Log

/-! ## What a state says of an entry -/

section Reading

variable (f : Finalizer) (s : State)

/-- The evidence that has been accepted for an entry. -/
def evidenceAt (entry : PublicationEntry) : Option PublicationEvidence :=
  s.evidenceByPosition[entry.position - 1]?.join

/-- The entries whose publication has been accepted. -/
def completed : List PublicationEntry :=
  f.plan.entries.filter fun entry ↦ (evidenceAt s entry).isSome

def objectsOf (entries : List PublicationEntry) : List PublicationObject :=
  entries.map PublicationEntry.toPublicationObject

/-- The references of an entry to entries whose publication has not been accepted. -/
def pendingOf (entry : PublicationEntry) : ℕ :=
  pending (objectsOf f.plan.entries) (objectsOf (completed f s)) entry.toPublicationObject

/-- `target` has to be durable before `entry` is put. -/
def NeedsEntry (entry target : PublicationEntry) : Prop :=
  Needs entry.toPublicationObject target.toPublicationObject

instance (entry target : PublicationEntry) : Decidable (NeedsEntry entry target) :=
  inferInstanceAs (Decidable (Needs _ _))

/-- The entry has been put. -/
def Launched (key : String) : Prop := ∃ request, .called key (.putIfChanged request) ∈ s.log

end Reading

/-- What the proofs use of a plan and of the dependants that were collected from it. -/
structure WellPlanned (f : Finalizer) : Prop where
  positions : ∀ i entry, f.plan.entries[i]? = some entry → entry.position = i + 1
  nodup_keys : (f.plan.entries.map (·.key)).Nodup
  before : ∀ done entry rest, f.plan.entries = done ++ entry :: rest →
    ∀ target ∈ f.plan.entries, NeedsEntry entry target → target ∈ done
  nodup_dependants : ∀ entry ∈ f.plan.entries, ((f.dependants.get? entry.key).getD []).Nodup
  mem_dependants : ∀ entry ∈ f.plan.entries, ∀ dependant,
    dependant ∈ (f.dependants.get? entry.key).getD [] ↔
      dependant ∈ f.plan.entries ∧ NeedsEntry dependant entry
  concurrency_pos : 0 < f.concurrency

/-- The counters are those given, and the ready heap holds the entries to be launched. -/
structure Counted (f : Finalizer) (s : State) (count : PublicationEntry → ℤ) : Prop where
  unresolved : ∀ entry ∈ f.plan.entries, s.unresolved.get? entry.key = some (count entry)
  nodup_ready : s.ready.entries.Nodup
  mem_ready : ∀ entry, entry ∈ s.ready.entries ↔
    (entry ∈ f.plan.entries ∧ ¬Launched s entry.key) ∧ count entry = 0

/-- An entry in flight was launched, nothing has been accepted of it, and its program is on the path
of its answers. -/
structure Flying (f : Finalizer) (s : State) (key : String) (flight : InFlight) : Prop where
  mem : flight.entry ∈ f.plan.entries
  key_eq : flight.entry.key = key
  launched : Launched s key
  evidence : evidenceAt s flight.entry = none
  failures : ∀ p ∈ s.failures, p.1 ≠ flight.entry
  obeys : Obeys Allowed flight.program (Published f flight.entry) (answersOf key s.log)

structure Inv (f : Finalizer) (s : State) : Prop where
  counted : Counted f s fun entry ↦ pendingOf f s entry
  length_evidence : s.evidenceByPosition.length = f.plan.entries.length
  completedCount : s.completedCount = (completed f s).length
  active : ∀ key flight, s.active.get? key = some flight → Flying f s key flight
  launched : ∀ entry ∈ f.plan.entries, Launched s entry.key → pendingOf f s entry = 0 ∧
    (entry.key ∈ s.active.keys ∨ (evidenceAt s entry).isSome ∨ ∃ p ∈ s.failures, p.1 = entry)
  durable : ∀ entry ∈ f.plan.entries, ∀ evidence, evidenceAt s entry = some evidence →
    Launched s entry.key ∧ Durable f entry (answersOf entry.key s.log) ∧
      ∃ result, evidence = publicationEvidence entry result
  failed : ∀ p ∈ s.failures, p.1 ∈ f.plan.entries ∧ Launched s p.1.key ∧
    ∃ e ∈ answersOf p.1.key s.log, ¬Succeeds f.sha256Hex p.1 e
  stopped : s.stopLaunching = true ↔ s.failures ≠ []
  concurrency : s.active.size ≤ f.concurrency
  quiet : ∀ key, ¬Launched s key → answersOf key s.log = []
  once : ∀ key, putCount key s.log ≤ 1
  after : ∀ before key request rest,
    s.log = before ++ .called key (.putIfChanged request) :: rest →
    ∃ entry ∈ f.plan.entries, entry.key = key ∧ request = putRequest entry ∧
      ∀ target, Relation.TransGen (Edge f.plan.entries NeedsEntry) entry target →
        Durable f target (answersOf target.key before)
  answered : ∀ key c, .called key c ∈ s.log → (∃ r, .answered key ⟨c, r⟩ ∈ s.log) ∨
    ∃ flight, s.active.get? key = some flight ∧ pendingCall? flight.program = some c

/-! ## Positions and counts -/

section Plan

variable {f : Finalizer} {s s' : State} {entry other : PublicationEntry}

theorem WellPlanned.eq_of_key_eq (hf : WellPlanned f) (h : entry ∈ f.plan.entries)
    (h' : other ∈ f.plan.entries) (hkey : entry.key = other.key) : entry = other :=
  List.inj_on_of_nodup_map hf.nodup_keys h h' hkey

theorem WellPlanned.eq_of_position_eq (hf : WellPlanned f) (h : entry ∈ f.plan.entries)
    (h' : other ∈ f.plan.entries) (hposition : entry.position = other.position) :
    entry = other := by
  obtain ⟨i, hi⟩ := List.mem_iff_getElem?.mp h
  obtain ⟨j, hj⟩ := List.mem_iff_getElem?.mp h'
  have hij : i = j := by
    have := hf.positions i entry hi
    have := hf.positions j other hj
    omega
  rw [hij, hj] at hi
  exact (Option.some.inj hi).symm

theorem WellPlanned.position_lt (hf : WellPlanned f) (h : entry ∈ f.plan.entries) :
    0 < entry.position ∧ entry.position - 1 < f.plan.entries.length := by
  obtain ⟨i, hi⟩ := List.mem_iff_getElem?.mp h
  have hlt := (List.getElem?_eq_some_iff.mp hi).1
  rw [hf.positions i entry hi]
  omega

theorem WellPlanned.nodup_objects (hf : WellPlanned f) :
    ((objectsOf f.plan.entries).map PublicationObject.key).Nodup := by
  rw [objectsOf, List.map_map]
  exact hf.nodup_keys

theorem mem_completed : entry ∈ completed f s ↔
    entry ∈ f.plan.entries ∧ (evidenceAt s entry).isSome := List.mem_filter

theorem pending_congr {objects ordered ordered' : List PublicationObject}
    {object : PublicationObject}
    (h : ∀ key, key ∈ ordered.map PublicationObject.key ↔ key ∈ ordered'.map PublicationObject.key) :
    pending objects ordered object = pending objects ordered' object := by
  rw [pending, pending]
  simp only [h]

/-- An entry with nothing to wait for has all its references durable. -/
theorem pendingOf_eq_zero_iff (hf : WellPlanned f) :
    pendingOf f s entry = 0 ↔
      ∀ target ∈ f.plan.entries, NeedsEntry entry target → (evidenceAt s target).isSome := by
  rw [pendingOf, pending, List.countP_eq_zero]
  constructor
  · intro h target htarget hneeds
    by_contra hleft
    refine h target.key hneeds (decide_eq_true ⟨?_, fun hmem ↦ hleft ?_⟩)
    · rw [objectsOf, List.map_map]
      exact List.mem_map_of_mem (f := fun e : PublicationEntry ↦ e.key) htarget
    · rw [objectsOf, List.map_map] at hmem
      obtain ⟨other, hother, hkey⟩ := List.mem_map.mp hmem
      rw [← hf.eq_of_key_eq (mem_completed.mp hother).1 htarget hkey]
      exact (mem_completed.mp hother).2
  · intro h key hkey hdec
    obtain ⟨hmem, hleft⟩ := of_decide_eq_true hdec
    rw [objectsOf, List.map_map] at hmem
    obtain ⟨target, htarget, rfl⟩ := List.mem_map.mp hmem
    refine hleft ?_
    rw [objectsOf, List.map_map]
    exact List.mem_map_of_mem (f := fun e : PublicationEntry ↦ e.key)
      (mem_completed.mpr ⟨htarget, h target htarget hkey⟩)

end Plan

/-! ## Launching -/

section Launch

variable {f : Finalizer} {s : State} {entry : PublicationEntry} {ready : MinHeap comparePosition}

/-- An entry in flight that another step does not touch. -/
theorem Flying.mono {s' : State} {key : String} {flight : InFlight} (h : Flying f s key flight)
    (hlaunched : Launched s key → Launched s' key)
    (hevidence : evidenceAt s' flight.entry = evidenceAt s flight.entry)
    (hfailures : ∀ p ∈ s'.failures, p ∈ s.failures ∨ p.1 ≠ flight.entry)
    (hanswers : answersOf key s'.log = answersOf key s.log) : Flying f s' key flight where
  mem := h.mem
  key_eq := h.key_eq
  launched := hlaunched h.launched
  evidence := hevidence.trans h.evidence
  failures p hp := (hfailures p hp).elim (h.failures p) id
  obeys := by
    rw [hanswers]
    exact h.obeys

theorem callNext_publishEntry (key : String) :
    callNext key (publishEntry f.sha256Hex f.plan.scheduleSha256 entry)
      = [.called key (.putIfChanged (putRequest entry))] := rfl

/-- What an entry with nothing to wait for needs, directly or through others, is durable. -/
theorem Inv.durable_of_transGen (hf : WellPlanned f) (h : Inv f s)
    (hzero : pendingOf f s entry = 0) {target : PublicationEntry}
    (htarget : Relation.TransGen (Edge f.plan.entries NeedsEntry) entry target) :
    Durable f target (answersOf target.key s.log) := by
  have hsome : target ∈ f.plan.entries ∧ (evidenceAt s target).isSome := by
    induction htarget with
    | single hedge => exact ⟨hedge.2.1, (pendingOf_eq_zero_iff hf).mp hzero _ hedge.2.1 hedge.2.2⟩
    | tail _ hedge ih =>
      -- what is durable was launched, so what it needs was durable then
      obtain ⟨evidence, hevidence⟩ := Option.isSome_iff_exists.mp ih.2
      have hlaunched := (h.durable _ ih.1 evidence hevidence).1
      have hdone := (h.launched _ ih.1 hlaunched).1
      exact ⟨hedge.2.1, (pendingOf_eq_zero_iff hf).mp hdone _ hedge.2.1 hedge.2.2⟩
  obtain ⟨evidence, hevidence⟩ := Option.isSome_iff_exists.mp hsome.2
  exact (h.durable target hsome.1 evidence hevidence).2.1

/-- An entry is launched when it is put. -/
theorem launched_launch {key : String} : Launched (launch f { s with ready := ready } entry) key ↔
    Launched s key ∨ key = entry.key := by
  rw [Launched, launch, callNext_publishEntry]
  simp only [List.mem_append, List.mem_singleton, LogEvent.called.injEq, Call.putIfChanged.injEq]
  constructor
  · rintro ⟨request, hold | ⟨hkey, -⟩⟩
    · exact Or.inl ⟨request, hold⟩
    · exact Or.inr hkey
  · rintro (⟨request, hold⟩ | hkey)
    · exact ⟨request, Or.inl hold⟩
    · exact ⟨_, Or.inr ⟨hkey, rfl⟩⟩

/-- **Step.** Launching the first ready entry while there is room keeps the invariant. -/
theorem Inv.launch (hf : WellPlanned f) (h : Inv f s) (hpop : s.ready.pop = some (entry, ready))
    (hroom : s.active.size < f.concurrency) :
    Inv f (launch f { s with ready := ready } entry) := by
  obtain ⟨hperm, -⟩ := MinHeap.pop_spec hpop
  obtain ⟨⟨hmem, hnew⟩, hzero⟩ := (h.counted.mem_ready entry).mp (hperm.mem_iff.mpr
    List.mem_cons_self)
  have hnodup := hperm.nodup_iff.mp h.counted.nodup_ready
  rw [List.nodup_cons] at hnodup
  have hinactive : entry.key ∉ s.active.keys := fun hactive ↦ by
    obtain ⟨flight, hflight⟩ := Option.isSome_iff_exists.mp (s.active.get?_isSome_iff.mpr hactive)
    exact hnew (h.active _ flight hflight).launched
  have hlog : (Publication.launch f { s with ready := ready } entry).log
      = s.log ++ [.called entry.key (.putIfChanged (putRequest entry))] := rfl
  have hanswers : ∀ key, answersOf key (Publication.launch f { s with ready := ready } entry).log
      = answersOf key s.log := by
    intro key
    rw [hlog, answersOf_append, answersOf_called, List.append_nil]
  have hzero' : pendingOf f s entry = 0 := by exact_mod_cast hzero
  constructor
  case counted =>
    refine ⟨h.counted.unresolved, hnodup.2, fun other ↦ ?_⟩
    have hother := h.counted.mem_ready other
    rw [hperm.mem_iff, List.mem_cons] at hother
    rw [launched_launch, not_or]
    constructor
    · intro hin
      obtain ⟨⟨hplan, hfresh⟩, hcount⟩ := hother.mp (Or.inr hin)
      refine ⟨⟨hplan, hfresh, fun hkey ↦ ?_⟩, hcount⟩
      rw [hf.eq_of_key_eq hplan hmem hkey] at hin
      exact hnodup.1 hin
    · rintro ⟨⟨hplan, hfresh, hkey⟩, hcount⟩
      refine (hother.mpr ⟨⟨hplan, hfresh⟩, hcount⟩).resolve_left ?_
      rintro rfl
      exact hkey rfl
  case length_evidence => exact h.length_evidence
  case completedCount => exact h.completedCount
  case active =>
    intro key flight hflight
    rw [Publication.launch, OrderedMap.get?_set] at hflight
    split at hflight
    · rename_i hkey
      obtain rfl := Option.some.inj hflight
      refine ⟨hmem, hkey.symm, launched_launch.mpr (Or.inr hkey), ?_, ?_, ?_⟩
      · by_contra hsome
        obtain ⟨evidence, hevidence⟩ := Option.ne_none_iff_exists'.mp hsome
        exact hnew (h.durable entry hmem evidence hevidence).1
      · rintro p hp rfl
        exact hnew (h.failed p hp).2.1
      · rw [hanswers, hkey, h.quiet _ hnew]
        exact obeys_publishEntry f entry
    · exact (h.active key flight hflight).mono (fun hold ↦ launched_launch.mpr (Or.inl hold)) rfl
        (fun p hp ↦ Or.inl hp) (hanswers key)
  case launched =>
    intro other hother hlaunched
    rcases launched_launch.mp hlaunched with hold | hkey
    · obtain ⟨hcount, hstate⟩ := h.launched other hother hold
      exact ⟨hcount, hstate.imp_left fun hactive ↦ OrderedMap.mem_keys_set.mpr (Or.inr hactive)⟩
    · rw [hf.eq_of_key_eq hother hmem hkey]
      exact ⟨by exact_mod_cast hzero, Or.inl (OrderedMap.mem_keys_set.mpr (Or.inl rfl))⟩
  case durable =>
    intro other hother evidence hevidence
    rw [hanswers]
    exact (h.durable other hother evidence hevidence).imp_left fun hold ↦
      launched_launch.mpr (Or.inl hold)
  case failed =>
    intro p hp
    rw [hanswers]
    obtain ⟨hplan, hold, hfailed⟩ := h.failed p hp
    exact ⟨hplan, launched_launch.mpr (Or.inl hold), hfailed⟩
  case stopped => exact h.stopped
  case concurrency =>
    rw [Publication.launch, OrderedMap.size_set_of_notMem _ hinactive]
    exact hroom
  case quiet =>
    intro key hkey
    rw [hanswers]
    exact h.quiet key fun hold ↦ hkey (launched_launch.mpr (Or.inl hold))
  case once =>
    intro key
    rw [hlog, putCount_append]
    by_cases hkey : entry.key = key
    · have hnone : putCount key s.log = 0 :=
        putCount_eq_zero fun request hmem ↦ hnew ⟨request, by rw [hkey]; exact hmem⟩
      rw [hnone, Nat.zero_add]
      exact List.countP_le_length
    · have hother : putCount key [.called entry.key (.putIfChanged (putRequest entry))] = 0 := by
        simp [putCount, isPutOf, hkey]
      rw [hother]
      exact h.once key
  case after =>
    intro before key request rest hsplit
    rw [hlog] at hsplit
    rcases List.eq_nil_or_concat rest with rfl | ⟨rest', last, rfl⟩
    · obtain ⟨rfl, hlast⟩ := List.append_inj' hsplit rfl
      obtain ⟨rfl, hcall⟩ := LogEvent.called.inj (List.singleton_inj.mp hlast)
      obtain rfl := Call.putIfChanged.inj hcall
      exact ⟨entry, hmem, rfl, rfl, fun target htarget ↦ h.durable_of_transGen hf hzero' htarget⟩
    · rw [List.concat_eq_append, ← List.cons_append, ← List.append_assoc] at hsplit
      exact h.after before key request rest' (List.append_inj' hsplit rfl).1
  case answered =>
    intro key c hcalled
    rw [hlog] at hcalled ⊢
    rcases List.mem_append.mp hcalled with hold | hlast
    · refine (h.answered key c hold).imp ?_ ?_
      · rintro ⟨r, hr⟩
        exact ⟨r, List.mem_append_left _ hr⟩
      · rintro ⟨flight, hflight, hpending⟩
        refine ⟨flight, ?_, hpending⟩
        rw [Publication.launch, OrderedMap.get?_set_of_ne _ _ ?_]
        · exact hflight
        · rintro rfl
          exact hinactive (s.active.get?_isSome_iff.mp (by rw [hflight]; rfl))
    · obtain ⟨rfl, rfl⟩ := LogEvent.called.inj (List.mem_singleton.mp hlast)
      exact Or.inr ⟨_, OrderedMap.get?_set_self _ _ _, rfl⟩

end Launch

/-! ## Answering -/

section Answer

variable {f : Finalizer} {s : State} {entry : PublicationEntry} {c : Call}
variable {k : Except Failure c.Answer → Prog Call.Answer Failure PublishedEntry}
variable {r : Except Failure c.Answer}

/-- An entry of a list that was extended, and is not in the extension, was in the list before. -/
theorem exists_split_of_notMem {α : Type*} {l tail before rest : List α} {a : α}
    (h : l ++ tail = before ++ a :: rest) (ha : a ∉ tail) : ∃ rest', l = before ++ a :: rest' := by
  rcases List.append_eq_append_iff.mp h with ⟨middle, rfl, htail⟩ | ⟨middle, rfl, hrest⟩
  · exact absurd (by rw [htail]; simp) ha
  · rcases middle with _ | ⟨b, middle⟩
    · rw [List.nil_append] at hrest
      exact absurd (by rw [← hrest]; simp) ha
    · obtain ⟨rfl, -⟩ := List.cons.inj hrest
      exact ⟨middle, rfl⟩

/-- A program that has been answered does not put. -/
theorem Inv.not_put_of_answer (h : Inv f s)
    (hactive : s.active.get? entry.key = some ⟨entry, .call c k⟩) (r : Except Failure c.Answer)
    (key : String) (request : PutRequest) : LogEvent.called key (.putIfChanged request) ∉
      [.answered entry.key ⟨c, r⟩] ++ callNext entry.key (k r) := by
  have hobeys : Obeys Allowed (k r) (Published f entry)
      (answersOf entry.key s.log ++ [⟨c, r⟩]) := (h.active _ _ hactive).obeys.2 r _ rfl
  intro hmem
  rcases List.mem_append.mp hmem with hanswered | hnext
  · cases List.mem_singleton.mp hanswered
  · rcases hk : k r with _ | _ | ⟨c', k'⟩
    · rw [hk] at hnext
      cases hnext
    · rw [hk] at hnext
      cases hnext
    · rw [hk] at hnext hobeys
      obtain ⟨rfl, rfl⟩ := LogEvent.called.inj (List.mem_singleton.mp hnext)
      exact hobeys.1.2 (by simp) request rfl

/-- **Step.** An answer keeps the invariant. -/
theorem Inv.answer (h : Inv f s)
    (hactive : s.active.get? entry.key = some ⟨entry, .call c k⟩) :
    Inv f (answer s entry c r k) := by
  have hflying := h.active _ _ hactive
  have hobeys : Obeys Allowed (k r) (Published f entry)
      (answersOf entry.key s.log ++ [⟨c, r⟩]) := hflying.obeys.2 r _ rfl
  have hlog : (Publication.answer s entry c r k).log
      = s.log ++ ([.answered entry.key ⟨c, r⟩] ++ callNext entry.key (k r)) := by
    rw [Publication.answer, List.append_assoc]
  have hnoPut := h.not_put_of_answer hactive r
  have hlaunched : ∀ key, Launched (Publication.answer s entry c r k) key ↔ Launched s key := by
    intro key
    rw [Launched, Launched, hlog]
    refine exists_congr fun request ↦ ?_
    rw [List.mem_append, or_iff_left (hnoPut key request)]
  have hself : answersOf entry.key (Publication.answer s entry c r k).log
      = answersOf entry.key s.log ++ [⟨c, r⟩] := by
    rw [hlog, answersOf_append, answersOf_append, answersOf_answered, answersOf_callNext,
      List.append_nil]
  have hother : ∀ key, key ≠ entry.key →
      answersOf key (Publication.answer s entry c r k).log = answersOf key s.log := by
    intro key hkey
    rw [hlog, answersOf_append, answersOf_append, answersOf_answered_of_ne (Ne.symm hkey),
      answersOf_callNext, List.append_nil, List.append_nil]
  have hmono : ∀ key, ∀ e ∈ answersOf key s.log,
      e ∈ answersOf key (Publication.answer s entry c r k).log := by
    intro key e he
    rw [hlog, answersOf_append]
    exact List.mem_append_left _ he
  have hkeys : entry.key ∈ s.active.keys := s.active.get?_isSome_iff.mp (by rw [hactive]; rfl)
  constructor
  case counted =>
    refine ⟨h.counted.unresolved, h.counted.nodup_ready, fun other ↦ ?_⟩
    rw [hlaunched]
    exact h.counted.mem_ready other
  case length_evidence => exact h.length_evidence
  case completedCount => exact h.completedCount
  case active =>
    intro key flight hflight
    rw [Publication.answer, OrderedMap.get?_set] at hflight
    split at hflight
    · rename_i hkey
      subst hkey
      obtain rfl := Option.some.inj hflight
      refine ⟨hflying.mem, rfl, (hlaunched _).mpr hflying.launched, hflying.evidence,
        hflying.failures, ?_⟩
      rw [hself]
      exact hobeys
    · rename_i hkey
      exact (h.active key flight hflight).mono (hlaunched key).mpr rfl (fun p hp ↦ Or.inl hp)
        (hother key hkey)
  case launched =>
    intro other hplan hold
    obtain ⟨hcount, hstate⟩ := h.launched other hplan ((hlaunched _).mp hold)
    exact ⟨hcount, hstate.imp_left fun hin ↦ OrderedMap.mem_keys_set.mpr (Or.inr hin)⟩
  case durable =>
    intro other hplan evidence hevidence
    obtain ⟨hold, hdurable, hresult⟩ := h.durable other hplan evidence hevidence
    exact ⟨(hlaunched _).mpr hold, hdurable.mono (hmono _), hresult⟩
  case failed =>
    intro p hp
    obtain ⟨hplan, hold, e, he, hfails⟩ := h.failed p hp
    exact ⟨hplan, (hlaunched _).mpr hold, e, hmono _ e he, hfails⟩
  case stopped => exact h.stopped
  case concurrency =>
    rw [Publication.answer, OrderedMap.size_set_of_mem _ hkeys]
    exact h.concurrency
  case quiet =>
    intro key hkey
    have hfresh : ¬Launched s key := fun hold ↦ hkey ((hlaunched key).mpr hold)
    rw [hother key fun hself ↦ hfresh (hself ▸ hflying.launched)]
    exact h.quiet key hfresh
  case once =>
    intro key
    rw [hlog, putCount_append, putCount_eq_zero (hnoPut key)]
    exact h.once key
  case after =>
    intro before key request rest hsplit
    rw [hlog] at hsplit
    obtain ⟨rest', hsplit'⟩ := exists_split_of_notMem hsplit (hnoPut key request)
    exact h.after before key request rest' hsplit'
  case answered =>
    intro key c' hcalled
    rw [hlog] at hcalled ⊢
    rcases List.mem_append.mp hcalled with hold | hnew
    · rcases h.answered key c' hold with ⟨r', hr'⟩ | ⟨flight, hflight, hpending⟩
      · exact Or.inl ⟨r', List.mem_append_left _ hr'⟩
      · by_cases hkey : key = entry.key
        · -- the call that was waited for is the one that is answered
          subst hkey
          rw [hactive] at hflight
          obtain rfl := Option.some.inj hflight
          obtain rfl := Option.some.inj hpending
          exact Or.inl ⟨r, List.mem_append_right _ (by simp)⟩
        · refine Or.inr ⟨flight, ?_, hpending⟩
          rw [Publication.answer, OrderedMap.get?_set_of_ne _ _ hkey]
          exact hflight
    · rcases List.mem_append.mp hnew with hanswered | hnext
      · cases List.mem_singleton.mp hanswered
      · rw [callNext, Option.mem_toList, Option.map_eq_some_iff] at hnext
        obtain ⟨c'', hpending, hcall⟩ := hnext
        obtain ⟨rfl, rfl⟩ := LogEvent.called.inj hcall
        exact Or.inr ⟨_, OrderedMap.get?_set_self _ _ _, hpending⟩

end Answer

/-! ## Accepting -/

section Accept

variable {f : Finalizer} {s : State} {entry : PublicationEntry}
variable {program : Prog Call.Answer Failure PublishedEntry}

theorem obeys_outcome {α : Type} {p : Prog Call.Answer Failure α} {o : Except Failure α}
    {Q : List AdapterEvent → Except Failure α → Prop} {h : List AdapterEvent}
    (hp : Obeys Allowed p Q h) (ho : outcome? p = some o) : Q h o := by
  cases p with
  | ret a =>
    rw [← Option.some.inj ho]
    exact hp
  | throw e =>
    rw [← Option.some.inj ho]
    exact hp
  | call c k => cases ho

/-- What is left in flight when one entry has been accepted. -/
theorem get?_active_delete {key : String} {flight : InFlight}
    (h : (s.active.delete entry.key).get? key = some flight) :
    s.active.get? key = some flight ∧ key ≠ entry.key := by
  rw [OrderedMap.get?_delete] at h
  split at h
  · cases h
  · rename_i hkey
    exact ⟨h, hkey⟩

/-- An entry that is in flight and settled makes no call. -/
theorem answered_delete (h : Inv f s) (hactive : s.active.get? entry.key = some ⟨entry, program⟩)
    {o : Except Failure PublishedEntry} (ho : outcome? program = some o) {key : String} {c : Call}
    (hcalled : .called key c ∈ s.log) : (∃ r, .answered key ⟨c, r⟩ ∈ s.log) ∨
      ∃ flight, (s.active.delete entry.key).get? key = some flight ∧
        pendingCall? flight.program = some c := by
  refine (h.answered key c hcalled).imp_right ?_
  rintro ⟨flight, hflight, hpending⟩
  refine ⟨flight, ?_, hpending⟩
  rw [OrderedMap.get?_delete]
  split
  · rename_i hkey
    rw [hkey, hactive] at hflight
    obtain rfl := Option.some.inj hflight
    cases program with
    | ret a => cases hpending
    | throw e => cases hpending
    | call c' k => cases ho
  · exact hflight

/-- **Step.** Accepting a failure keeps the invariant. -/
theorem Inv.reject (hf : WellPlanned f) (h : Inv f s) {reason : Failure}
    (hactive : s.active.get? entry.key = some ⟨entry, program⟩)
    (houtcome : outcome? program = some (.error reason)) :
    Inv f (acceptOutcome f s entry (.error reason)) := by
  have hflying := h.active _ _ hactive
  have hfailed := obeys_outcome hflying.obeys houtcome
  refine ⟨⟨h.counted.unresolved, h.counted.nodup_ready, h.counted.mem_ready⟩, h.length_evidence,
    h.completedCount, ?_, ?_, h.durable, ?_, ?_, ?_, h.quiet, h.once, h.after,
    fun key c hcalled ↦ answered_delete h hactive houtcome hcalled⟩
  · intro key flight hflight
    obtain ⟨hold, hkey⟩ := get?_active_delete hflight
    have hother := h.active key flight hold
    refine hother.mono id rfl (fun p hp ↦ ?_) rfl
    rcases List.mem_append.mp hp with hp | hp
    · exact Or.inl hp
    · refine Or.inr fun heq ↦ hkey ?_
      rw [List.mem_singleton.mp hp] at heq
      rw [← hother.key_eq, ← heq]
  · intro other hplan hlaunched
    obtain ⟨hcount, hstate⟩ := h.launched other hplan hlaunched
    refine ⟨hcount, ?_⟩
    by_cases hsame : other = entry
    · exact Or.inr (Or.inr ⟨(entry, reason), List.mem_append_right _ (List.mem_singleton.mpr rfl),
        hsame.symm⟩)
    · rcases hstate with hin | hdone | ⟨p, hp, heq⟩
      · refine Or.inl ?_
        rw [← OrderedMap.get?_isSome_iff, acceptOutcome, OrderedMap.get?_delete,
          if_neg fun hkey ↦ hsame (hf.eq_of_key_eq hplan hflying.mem hkey)]
        exact s.active.get?_isSome_iff.mpr hin
      · exact Or.inr (Or.inl hdone)
      · exact Or.inr (Or.inr ⟨p, List.mem_append_left _ hp, heq⟩)
  · intro p hp
    rcases List.mem_append.mp hp with hp | hp
    · exact h.failed p hp
    · rw [List.mem_singleton.mp hp]
      exact ⟨hflying.mem, hflying.launched, hfailed⟩
  · simp [acceptOutcome]
  · exact (s.active.size_delete_le entry.key).trans h.concurrency

/-- **Step.** One dependant of an entry that has become durable. -/
theorem Counted.resolveDependant (hf : WellPlanned f) {base : State} (s : State)
    (count : PublicationEntry → ℤ) (dependant : PublicationEntry)
    (h : Counted f s count ∧ s = { base with unresolved := s.unresolved, ready := s.ready })
    (hwaiting : dependant ∈ f.plan.entries ∧ ¬Launched base dependant.key)
    (hpos : 0 < count dependant) :
    Counted f (resolveDependant s dependant)
        (fun entry ↦ if entry = dependant then count entry - 1 else count entry) ∧
      resolveDependant s dependant = { base with
        unresolved := (resolveDependant s dependant).unresolved
        ready := (resolveDependant s dependant).ready } := by
  obtain ⟨hcounted, hbase⟩ := h
  have hlaunched : ∀ key, Launched s key ↔ Launched base key := fun key ↦ by rw [hbase]; rfl
  have hmem := hwaiting.1
  have hcount := hcounted.unresolved dependant hmem
  have hset : ∀ entry ∈ f.plan.entries,
      (s.unresolved.set dependant.key (count dependant - 1)).get? entry.key
        = some (if entry = dependant then count entry - 1 else count entry) := by
    intro entry hentry
    by_cases hsame : entry = dependant
    · rw [if_pos hsame, hsame, OrderedMap.get?_set_self]
    · rw [if_neg hsame, OrderedMap.get?_set_of_ne _ _ fun hkey ↦
        hsame (hf.eq_of_key_eq hentry hmem hkey), hcounted.unresolved entry hentry]
  have hnotin : dependant ∉ s.ready.entries := fun hin ↦ by
    have hzero := ((hcounted.mem_ready dependant).mp hin).2
    omega
  refine ⟨?_, by rw [hbase]; rfl⟩
  rw [Publication.resolveDependant, hcount, Option.getD_some]
  by_cases hzero : count dependant - 1 = 0
  · rw [if_pos hzero]
    have hpush := MinHeap.push_perm s.ready dependant
    refine ⟨hset, hpush.nodup_iff.mpr (List.nodup_cons.mpr ⟨hnotin, hcounted.nodup_ready⟩),
      fun entry ↦ ?_⟩
    rw [hpush.mem_iff, List.mem_cons, hcounted.mem_ready]
    by_cases hsame : entry = dependant
    · rw [if_pos hsame, hsame]
      exact ⟨fun _ ↦ ⟨⟨hmem, fun hl ↦ hwaiting.2 ((hlaunched _).mp hl)⟩, hzero⟩,
        fun _ ↦ Or.inl rfl⟩
    · rw [if_neg hsame, or_iff_right hsame]
      rfl
  · rw [if_neg hzero]
    refine ⟨hset, hcounted.nodup_ready, fun entry ↦ ?_⟩
    rw [hcounted.mem_ready]
    by_cases hsame : entry = dependant
    · rw [if_pos hsame, hsame]
      exact and_congr_right fun _ ↦ ⟨fun hcount ↦ by omega, fun hcount ↦ absurd hcount hzero⟩
    · rw [if_neg hsame]
      rfl

theorem evidenceAt_recordEvidence (hf : WellPlanned f) (h : Inv f s) (value : PublishedEntry)
    (hmem : entry ∈ f.plan.entries) {other : PublicationEntry} (hother : other ∈ f.plan.entries) :
    evidenceAt (recordEvidence s entry value) other
      = if other = entry then some value.evidence else evidenceAt s other := by
  rw [evidenceAt, recordEvidence]
  by_cases hsame : other = entry
  · have hlt : entry.position - 1 < s.evidenceByPosition.length := by
      rw [h.length_evidence]
      exact (hf.position_lt hmem).2
    rw [if_pos hsame, hsame, List.getElem?_set_self hlt]
    rfl
  · have hne : entry.position - 1 ≠ other.position - 1 := fun heq ↦ by
      have hpos := (hf.position_lt hmem).1
      have hpos' := (hf.position_lt hother).1
      exact hsame (hf.eq_of_position_eq hother hmem (by omega))
    rw [if_neg hsame, List.getElem?_set_ne hne]
    rfl

/-- One more entry is completed. -/
theorem completed_recordEvidence (hf : WellPlanned f) (h : Inv f s) (value : PublishedEntry)
    (hmem : entry ∈ f.plan.entries) (hnone : evidenceAt s entry = none) :
    (completed f (recordEvidence s entry value)).Perm (completed f s ++ [entry]) := by
  have hnodup := List.Nodup.of_map _ hf.nodup_keys
  have hnotin : entry ∉ completed f s := fun hin ↦ by
    have hsome := (mem_completed.mp hin).2
    rw [hnone] at hsome
    cases hsome
  refine (List.perm_ext_iff_of_nodup (hnodup.filter _) ?_).mpr fun other ↦ ?_
  · exact List.nodup_append.mpr ⟨hnodup.filter _, List.nodup_singleton _, fun a ha b hb hab ↦
      hnotin (by rw [← List.mem_singleton.mp hb, ← hab]; exact ha)⟩
  · rw [List.mem_append, mem_completed, List.mem_singleton]
    refine mem_completed.trans ?_
    constructor
    · rintro ⟨hplan, hsome⟩
      by_cases hsame : other = entry
      · exact Or.inr hsame
      · rw [evidenceAt_recordEvidence hf h value hmem hplan, if_neg hsame] at hsome
        exact Or.inl ⟨hplan, hsome⟩
    · rintro (⟨hplan, hsome⟩ | rfl)
      · refine ⟨hplan, ?_⟩
        rw [evidenceAt_recordEvidence hf h value hmem hplan]
        split
        · rfl
        · exact hsome
      · refine ⟨hmem, ?_⟩
        rw [evidenceAt_recordEvidence hf h value hmem hmem, if_pos rfl]
        rfl

theorem pendingOf_recordEvidence (hf : WellPlanned f) (h : Inv f s) (value : PublishedEntry)
    (hmem : entry ∈ f.plan.entries) (hnone : evidenceAt s entry = none)
    (other : PublicationEntry) : (pendingOf f (recordEvidence s entry value) other : ℤ)
      = if NeedsEntry other entry then (pendingOf f s other : ℤ) - 1 else pendingOf f s other := by
  have hleft : entry.key ∉ (objectsOf (completed f s)).map PublicationObject.key := fun hin ↦ by
    rw [objectsOf, List.map_map] at hin
    obtain ⟨done, hdone, hkey⟩ := List.mem_map.mp hin
    have hsome := (mem_completed.mp hdone).2
    rw [hf.eq_of_key_eq (mem_completed.mp hdone).1 hmem hkey, hnone] at hsome
    cases hsome
  have hsnoc := pending_snoc (a := other.toPublicationObject)
    (List.mem_map_of_mem (f := PublicationEntry.toPublicationObject) hmem) hleft
  have hcongr : pendingOf f (recordEvidence s entry value) other
      = pending (objectsOf f.plan.entries) (objectsOf (completed f s)
          ++ [entry.toPublicationObject]) other.toPublicationObject := by
    refine pending_congr fun key ↦ ?_
    have hperm := ((completed_recordEvidence hf h value hmem hnone).map
      PublicationEntry.toPublicationObject).map PublicationObject.key
    rw [List.map_append] at hperm
    exact hperm.mem_iff
  rw [hcongr]
  exact hsnoc

/-- **Step.** Accepting an entry that has become durable keeps the invariant. -/
theorem Inv.fulfil (hf : WellPlanned f) (h : Inv f s) {value : PublishedEntry}
    (hactive : s.active.get? entry.key = some ⟨entry, program⟩)
    (houtcome : outcome? program = some (.ok value)) :
    Inv f (acceptOutcome f s entry (.ok value)) ∧
      acceptOutcome f s entry (.ok value) = { recordEvidence s entry value with
        unresolved := (acceptOutcome f s entry (.ok value)).unresolved
        ready := (acceptOutcome f s entry (.ok value)).ready } := by
  have hflying := h.active _ _ hactive
  obtain ⟨hdurable, hresult⟩ := obeys_outcome hflying.obeys houtcome
  have hmem := hflying.mem
  have hnone := hflying.evidence
  have hevidence := fun (other : PublicationEntry) (hother : other ∈ f.plan.entries) ↦
    evidenceAt_recordEvidence hf h value hmem hother
  have hpending := pendingOf_recordEvidence hf h value hmem hnone
  -- the dependants have not been launched: they waited for this entry
  have hwaiting : ∀ dependant ∈ (f.dependants.get? entry.key).getD [],
      (dependant ∈ f.plan.entries ∧ ¬Launched (recordEvidence s entry value) dependant.key) ∧
        (0 : ℤ) < pendingOf f s dependant := by
    intro dependant hdependant
    obtain ⟨hplan, hneeds⟩ := (hf.mem_dependants entry hmem dependant).mp hdependant
    have hpos : pendingOf f s dependant ≠ 0 := fun hzero ↦ by
      have hsome := (pendingOf_eq_zero_iff hf).mp hzero entry hmem hneeds
      rw [hnone] at hsome
      cases hsome
    exact ⟨⟨hplan, fun hl ↦ hpos (h.launched dependant hplan hl).1⟩, by omega⟩
  have hstart : Counted f (recordEvidence s entry value) fun other ↦ pendingOf f s other :=
    ⟨h.counted.unresolved, h.counted.nodup_ready, h.counted.mem_ready⟩
  obtain ⟨hcounted, hbase⟩ := foldl_release (Counted.resolveDependant hf) _ _ _ ⟨hstart, rfl⟩
    (hf.nodup_dependants entry hmem) hwaiting
  have hstate : ((f.dependants.get? entry.key).getD []).foldl resolveDependant
      (recordEvidence s entry value) = acceptOutcome f s entry (.ok value) := rfl
  rw [hstate] at hcounted hbase
  refine ⟨?_, hbase⟩
  generalize acceptOutcome f s entry (.ok value) = s' at hcounted hbase
  have hpending' : ∀ other, (pendingOf f s' other : ℤ)
      = if NeedsEntry other entry then (pendingOf f s other : ℤ) - 1 else pendingOf f s other := by
    intro other
    rw [hbase, ← hpending]
    rfl
  have hevidence' : ∀ other ∈ f.plan.entries, evidenceAt s' other
      = if other = entry then some value.evidence else evidenceAt s other := by
    intro other hother
    rw [← hevidence other hother, hbase]
    rfl
  constructor
  case counted =>
    refine ⟨fun other hother ↦ ?_, hcounted.nodup_ready, fun other ↦ ?_⟩
    · rw [hcounted.unresolved other hother, hpending', if_congr ((hf.mem_dependants entry hmem
        other).trans (and_iff_right hother)) rfl rfl]
    · rw [hcounted.mem_ready]
      refine and_congr_right fun hother ↦ ?_
      rw [hpending', if_congr ((hf.mem_dependants entry hmem other).trans
        (and_iff_right hother.1)) rfl rfl]
  case length_evidence =>
    rw [hbase]
    exact (List.length_set ..).trans h.length_evidence
  case completedCount =>
    have hlength := (completed_recordEvidence hf h value hmem hnone).length_eq
    rw [hbase]
    refine Eq.trans ?_ hlength.symm
    rw [List.length_append, List.length_singleton, ← h.completedCount]
    rfl
  case active =>
    intro key flight hflight
    rw [hbase] at hflight
    obtain ⟨hold, hkey⟩ := get?_active_delete hflight
    have hother := h.active key flight hold
    have hne : flight.entry ≠ entry := fun heq ↦ hkey (by rw [← hother.key_eq, heq])
    refine hother.mono (fun hl ↦ by rw [hbase]; exact hl) ?_ (fun p hp ↦ ?_) (by rw [hbase]; rfl)
    · rw [hevidence' _ hother.mem, if_neg hne]
    · rw [hbase] at hp
      exact Or.inl hp
  case launched =>
    intro other hplan hlaunched
    rw [hbase] at hlaunched
    obtain ⟨hcount, hstate⟩ := h.launched other hplan hlaunched
    have hzero : pendingOf f s' other = 0 := by
      have hle := hpending' other
      split at hle <;> omega
    refine ⟨hzero, ?_⟩
    rw [hevidence' other hplan]
    by_cases hsame : other = entry
    · rw [if_pos hsame]
      exact Or.inr (Or.inl rfl)
    · rw [if_neg hsame]
      refine hstate.imp (fun hin ↦ ?_) (Or.imp_right fun hp ↦ by rw [hbase]; exact hp)
      rw [hbase, ← OrderedMap.get?_isSome_iff, recordEvidence, OrderedMap.get?_delete,
        if_neg fun hkey ↦ hsame (hf.eq_of_key_eq hplan hmem hkey)]
      exact s.active.get?_isSome_iff.mpr hin
  case durable =>
    intro other hplan evidence hsome
    rw [hevidence' other hplan] at hsome
    rw [hbase]
    by_cases hsame : other = entry
    · rw [if_pos hsame] at hsome
      rw [← Option.some.inj hsome, hsame]
      exact ⟨hflying.launched, hdurable, hresult⟩
    · rw [if_neg hsame] at hsome
      exact h.durable other hplan evidence hsome
  case failed =>
    rw [hbase]
    exact h.failed
  case stopped =>
    rw [hbase]
    exact h.stopped
  case concurrency =>
    rw [hbase]
    exact (s.active.size_delete_le entry.key).trans h.concurrency
  case quiet =>
    rw [hbase]
    exact h.quiet
  case once =>
    rw [hbase]
    exact h.once
  case after =>
    rw [hbase]
    exact h.after
  case answered =>
    rw [hbase]
    exact fun key c hcalled ↦ answered_delete h hactive houtcome hcalled

/-- **Step.** Accepting what an entry in flight has come to keeps the invariant. -/
theorem Inv.acceptOutcome (hf : WellPlanned f) (h : Inv f s)
    {outcome : Except Failure PublishedEntry}
    (hactive : s.active.get? entry.key = some ⟨entry, program⟩)
    (houtcome : outcome? program = some outcome) : Inv f (acceptOutcome f s entry outcome) := by
  cases outcome with
  | error reason => exact h.reject hf hactive houtcome
  | ok value => exact (h.fulfil hf hactive houtcome).1

end Accept

end UkAqOps.Publication

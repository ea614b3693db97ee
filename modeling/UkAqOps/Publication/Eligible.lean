import UkAqOps.Lib.Heap
import UkAqOps.Lib.OrderedMap
import UkAqOps.Lib.Scheduling
import UkAqOps.Publication.Objects

/-!
# Scheduling by eligibility

The planner counts for every object the references to changed objects that are not scheduled yet,
keeps the objects whose count is zero in a heap, and schedules the least of them by stage and key.

`Tracks` ties the counts and the heap together while the dependants of one object are released, one
at a time. Between two objects the counts are those of the references still to come, so the heap
holds exactly the eligible objects and the schedule is greedy.
-/

namespace UkAqOps.Publication

open Scheduling

/-! ## The heap -/

def compareEligiblePublicationObjects (left right : PublicationObject) : Ordering :=
  (compare left.publicationStage.rank right.publicationStage.rank).then
    (bytewiseCompare left.key right.key)

instance : Std.TransCmp compareEligiblePublicationObjects :=
  Sorting.transCmp_then
    (Sorting.transCmp_on (inferInstanceAs (Std.TransCmp (compare : ℕ → ℕ → Ordering)))
      fun object : PublicationObject ↦ object.publicationStage.rank) inferInstance

theorem rank_le_of_isLE {left right : PublicationObject}
    (h : (compareEligiblePublicationObjects left right).isLE) :
    left.publicationStage.rank ≤ right.publicationStage.rank :=
  Nat.isLE_compare.mp (Ordering.isLE_left_of_isLE_then h)

theorem key_eq_of_isLE {left right : PublicationObject}
    (h : (compareEligiblePublicationObjects left right).isLE)
    (h' : (compareEligiblePublicationObjects right left).isLE) : left.key = right.key := by
  have heq := Std.OrientedCmp.isLE_antisymm h h'
  rw [compareEligiblePublicationObjects, Ordering.then_eq_eq] at heq
  exact bytewiseCompare_eq_iff.mp heq.2

/-- An object in the heap, with the number of objects that were pushed before it. -/
structure EligibleEntry where
  object : PublicationObject
  ordinal : ℕ

def EligibleEntry.compare (left right : EligibleEntry) : Ordering :=
  (compareEligiblePublicationObjects left.object right.object).then
    (Ord.compare left.ordinal right.ordinal)

instance : Std.TransCmp EligibleEntry.compare :=
  Sorting.transCmp_then
    (Sorting.transCmp_on (inferInstanceAs (Std.TransCmp compareEligiblePublicationObjects))
      EligibleEntry.object)
    (Sorting.transCmp_on (inferInstanceAs (Std.TransCmp (compare : ℕ → ℕ → Ordering)))
      EligibleEntry.ordinal)

structure EligiblePublicationMinHeap where
  entries : MinHeap EligibleEntry.compare
  nextOrdinal : ℕ

namespace EligiblePublicationMinHeap

def empty : EligiblePublicationMinHeap := ⟨MinHeap.empty, 0⟩

def push (heap : EligiblePublicationMinHeap) (object : PublicationObject) :
    EligiblePublicationMinHeap :=
  ⟨heap.entries.push ⟨object, heap.nextOrdinal⟩, heap.nextOrdinal + 1⟩

/-- `none` when there is nothing to take. -/
def pop (heap : EligiblePublicationMinHeap) :
    Option (PublicationObject × EligiblePublicationMinHeap) :=
  heap.entries.pop.map fun popped ↦ (popped.1.object, ⟨popped.2, heap.nextOrdinal⟩)

/-- The objects in the heap. -/
def objects (heap : EligiblePublicationMinHeap) : List PublicationObject :=
  heap.entries.entries.map EligibleEntry.object

theorem objects_empty : empty.objects = [] := rfl

theorem objects_push (heap : EligiblePublicationMinHeap) (object : PublicationObject) :
    (heap.push object).objects.Perm (object :: heap.objects) :=
  (MinHeap.push_perm heap.entries _).map EligibleEntry.object

theorem pop_spec {heap heap' : EligiblePublicationMinHeap} {next : PublicationObject}
    (h : heap.pop = some (next, heap')) : heap.objects.Perm (next :: heap'.objects) ∧
      ∀ object ∈ heap.objects, (compareEligiblePublicationObjects next object).isLE := by
  obtain ⟨⟨entry, entries⟩, hpop, heq⟩ := Option.map_eq_some_iff.mp h
  obtain ⟨rfl, rfl⟩ := Prod.mk.inj heq
  obtain ⟨hperm, hfirst⟩ := MinHeap.pop_spec hpop
  refine ⟨hperm.map EligibleEntry.object, fun object hobject ↦ ?_⟩
  obtain ⟨other, hother, rfl⟩ := List.mem_map.mp hobject
  exact Ordering.isLE_left_of_isLE_then (hfirst other hother)

theorem objects_eq_nil_of_pop {heap : EligiblePublicationMinHeap} (h : heap.pop = none) :
    heap.objects = [] := by
  rw [objects, MinHeap.pop_eq_none_iff.mp (Option.map_eq_none_iff.mp h)]
  rfl

end EligiblePublicationMinHeap

/-! ## The loop -/

structure SchedulerState where
  eligible : EligiblePublicationMinHeap
  indegree : OrderedMap String ℤ
  ordered : List PublicationObject

section Loop

variable (byKey : OrderedMap String PublicationObject) (outgoing : OrderedMap String (List String))

/-- One dependant of an object that has been scheduled. -/
def releaseDependant (state : SchedulerState) (parentKey : String) : SchedulerState :=
  let remaining := (state.indegree.get? parentKey).getD 0 - 1
  let released := { state with indegree := state.indegree.set parentKey remaining }
  if remaining = 0 then
    match byKey.get? parentKey with
    | none => released
    | some object => { released with eligible := state.eligible.push object }
  else released

/-- Schedule the object that has been taken from the heap. -/
def scheduleObject (state : SchedulerState) (next : PublicationObject)
    (eligible : EligiblePublicationMinHeap) : SchedulerState :=
  (Sorting.sortBy bytewiseCompare ((outgoing.get? next.key).getD [])).foldl
    (releaseDependant byKey)
    { state with eligible := eligible, ordered := state.ordered ++ [next] }

/-- `while (eligible.size)`, for at most `fuel` objects. -/
def scheduleEligible : ℕ → SchedulerState → SchedulerState
  | 0, state => state
  | fuel + 1, state =>
    match state.eligible.pop with
    | none => state
    | some (next, eligible) =>
      scheduleEligible fuel (scheduleObject byKey outgoing state next eligible)

end Loop

/-! ## The graph of changed references -/

/-- `a` refers to `b`. -/
def Needs (a b : PublicationObject) : Prop := b.key ∈ a.references.map Reference.key

instance (a b : PublicationObject) : Decidable (Needs a b) :=
  inferInstanceAs (Decidable (_ ∈ _))

/-- The number of references to objects that are not scheduled. -/
def pending (objects ordered : List PublicationObject) (object : PublicationObject) : ℕ :=
  (object.references.map Reference.key).countP fun key ↦
    decide (key ∈ objects.map PublicationObject.key ∧ key ∉ ordered.map PublicationObject.key)

/-- The maps that the loop reads, for objects with different keys. -/
structure Indexed (objects : List PublicationObject) (byKey : OrderedMap String PublicationObject)
    (outgoing : OrderedMap String (List String)) : Prop where
  nodup_keys : (objects.map PublicationObject.key).Nodup
  byKey_of_mem : ∀ object ∈ objects, byKey.get? object.key = some object
  nodup_outgoing : ∀ object ∈ objects, ((outgoing.get? object.key).getD []).Nodup
  mem_outgoing : ∀ object ∈ objects, ∀ key, key ∈ (outgoing.get? object.key).getD [] ↔
    ∃ parent ∈ objects, parent.key = key ∧ Needs parent object

section Graph

variable {objects ordered : List PublicationObject} {a b next : PublicationObject}

theorem eq_of_key_eq (hkeys : (objects.map PublicationObject.key).Nodup) (ha : a ∈ objects)
    (hb : b ∈ objects) (h : a.key = b.key) : a = b :=
  List.inj_on_of_nodup_map hkeys ha hb h

theorem mem_map_key_iff (hkeys : (objects.map PublicationObject.key).Nodup)
    (hsub : ∀ object ∈ ordered, object ∈ objects) (ha : a ∈ objects) :
    a.key ∈ ordered.map PublicationObject.key ↔ a ∈ ordered := by
  refine ⟨fun h ↦ ?_, List.mem_map_of_mem⟩
  obtain ⟨b, hb, hkey⟩ := List.mem_map.mp h
  rw [eq_of_key_eq hkeys ha (hsub b hb) hkey.symm]
  exact hb

/-- An object is eligible when it is not scheduled and has no reference to wait for. -/
theorem eligible_iff (hkeys : (objects.map PublicationObject.key).Nodup)
    (hsub : ∀ object ∈ ordered, object ∈ objects) :
    Eligible objects Needs ordered a ↔
      a ∈ objects ∧ a ∉ ordered ∧ (pending objects ordered a : ℤ) = 0 := by
  have hpending : (pending objects ordered a : ℤ) = 0 ↔
      ∀ b ∈ objects, Needs a b → b ∈ ordered := by
    rw [Int.natCast_eq_zero, pending, List.countP_eq_zero]
    constructor
    · intro h b hb hab
      by_contra hleft
      refine h b.key hab (decide_eq_true ⟨List.mem_map_of_mem hb, fun hkey ↦ ?_⟩)
      exact hleft ((mem_map_key_iff hkeys hsub hb).mp hkey)
    · intro h key hkey hdec
      obtain ⟨hmem, hleft⟩ := of_decide_eq_true hdec
      obtain ⟨b, hb, rfl⟩ := List.mem_map.mp hmem
      exact hleft (List.mem_map_of_mem (h b hb hkey))
  rw [← and_assoc, hpending]
  exact ⟨fun h ↦ ⟨⟨h.mem, h.waiting⟩, h.ready⟩, fun h ↦ ⟨h.1.1, h.1.2, h.2⟩⟩

/-- Scheduling an object takes one off the counts of those that refer to it. -/
theorem pending_snoc (hnext : next ∈ objects)
    (hleft : next.key ∉ ordered.map PublicationObject.key) :
    (pending objects (ordered ++ [next]) a : ℤ)
      = if Needs a next then (pending objects ordered a : ℤ) - 1 else pending objects ordered a := by
  have hcount : ∀ keys : List String, keys.Nodup →
      (keys.countP fun key ↦ decide (key ∈ objects.map PublicationObject.key ∧
        key ∉ ordered.map PublicationObject.key))
      = (keys.countP fun key ↦ decide (key ∈ objects.map PublicationObject.key ∧
          key ∉ (ordered ++ [next]).map PublicationObject.key))
        + if next.key ∈ keys then 1 else 0 := by
    intro keys hnodup
    induction keys with
    | nil => rfl
    | cons key rest ih =>
      rw [List.nodup_cons] at hnodup
      rw [List.countP_cons, List.countP_cons, ih hnodup.2]
      by_cases hkey : key = next.key
      · subst hkey
        have hmem : next.key ∈ objects.map PublicationObject.key := List.mem_map_of_mem hnext
        rw [if_neg hnodup.1, if_pos List.mem_cons_self, if_pos (decide_eq_true ⟨hmem, hleft⟩),
          if_neg (by simp)]
      · have hmem : next.key ∈ key :: rest ↔ next.key ∈ rest := by
          rw [List.mem_cons, or_iff_right (Ne.symm hkey)]
        have hsame : key ∉ (ordered ++ [next]).map PublicationObject.key ↔
            key ∉ ordered.map PublicationObject.key := by
          rw [List.map_append, List.mem_append, List.map_singleton, List.mem_singleton,
            or_iff_left hkey]
        simp only [hmem, hsame]
        omega
  have h := hcount _ a.nodup_references
  rw [pending, pending, h]
  by_cases hneeds : Needs a next
  · rw [if_pos hneeds, if_pos (show next.key ∈ a.references.map Reference.key from hneeds)]
    omega
  · rw [if_neg hneeds, if_neg (show next.key ∉ a.references.map Reference.key from hneeds)]
    omega

end Graph

/-! ## The loop is greedy -/

section Invariant

variable {objects : List PublicationObject} {byKey : OrderedMap String PublicationObject}
variable {outgoing : OrderedMap String (List String)} {state : SchedulerState}

/-- The dependants of an object in the order in which they are released. -/
theorem Indexed.exists_dependants (h : Indexed objects byKey outgoing) {next : PublicationObject}
    (hnext : next ∈ objects) : ∃ parents : List PublicationObject,
      parents.map PublicationObject.key
        = Sorting.sortBy bytewiseCompare ((outgoing.get? next.key).getD []) ∧
      parents.Nodup ∧ ∀ parent, parent ∈ parents ↔ parent ∈ objects ∧ Needs parent next := by
  have hget : ∀ key ∈ Sorting.sortBy bytewiseCompare ((outgoing.get? next.key).getD []),
      ∃ parent ∈ objects, parent.key = key ∧ Needs parent next ∧ byKey.get? key = some parent := by
    intro key hkey
    rw [Sorting.mem_sortBy, h.mem_outgoing next hnext] at hkey
    obtain ⟨parent, hparent, rfl, hneeds⟩ := hkey
    exact ⟨parent, hparent, rfl, hneeds, h.byKey_of_mem parent hparent⟩
  have hkeys : ((Sorting.sortBy bytewiseCompare ((outgoing.get? next.key).getD [])).filterMap
      byKey.get?).map PublicationObject.key
      = Sorting.sortBy bytewiseCompare ((outgoing.get? next.key).getD []) := by
    rw [List.map_filterMap]
    refine (List.filterMap_congr fun key hkey ↦ ?_).trans List.filterMap_some
    obtain ⟨parent, -, rfl, -, hbyKey⟩ := hget key hkey
    rw [hbyKey, Option.map_some]
  refine ⟨_, hkeys, ?_, fun parent ↦ ?_⟩
  · refine List.Nodup.of_map PublicationObject.key ?_
    rw [hkeys, Sorting.nodup_sortBy]
    exact h.nodup_outgoing next hnext
  · rw [List.mem_filterMap]
    constructor
    · rintro ⟨key, hkey, hbyKey⟩
      obtain ⟨parent', hparent', -, hneeds, hbyKey'⟩ := hget key hkey
      rw [Option.some.inj (hbyKey.symm.trans hbyKey')]
      exact ⟨hparent', hneeds⟩
    · rintro ⟨hparent, hneeds⟩
      refine ⟨parent.key, ?_, h.byKey_of_mem parent hparent⟩
      rw [Sorting.mem_sortBy, h.mem_outgoing next hnext]
      exact ⟨parent, hparent, rfl, hneeds⟩

/-- The counts are those given, and the heap holds the objects whose count is zero. -/
structure Tracks (objects ordered : List PublicationObject) (state : SchedulerState)
    (count : PublicationObject → ℤ) : Prop where
  ordered_eq : state.ordered = ordered
  indegree : ∀ object ∈ objects, state.indegree.get? object.key = some (count object)
  nodup : state.eligible.objects.Nodup
  mem_eligible : ∀ object, object ∈ state.eligible.objects ↔
    (object ∈ objects ∧ object ∉ ordered) ∧ count object = 0

theorem Tracks.congr {ordered : List PublicationObject} {count count' : PublicationObject → ℤ}
    (h : Tracks objects ordered state count) (hcount : ∀ object ∈ objects,
      count' object = count object) : Tracks objects ordered state count' where
  ordered_eq := h.ordered_eq
  indegree object hobject := by rw [hcount object hobject, h.indegree object hobject]
  nodup := h.nodup
  mem_eligible object := by
    rw [h.mem_eligible]
    exact and_congr_right fun hobject ↦ by rw [hcount object hobject.1]

/-- **Step.** Releasing a dependant takes one off its count. -/
theorem Tracks.release {ordered : List PublicationObject} (hindexed : Indexed objects byKey outgoing)
    (state : SchedulerState) (count : PublicationObject → ℤ) (parent : PublicationObject)
    (h : Tracks objects ordered state count) (hwaiting : parent ∈ objects ∧ parent ∉ ordered)
    (hpos : 0 < count parent) :
    Tracks objects ordered (releaseDependant byKey state parent.key)
      fun object ↦ if object = parent then count object - 1 else count object := by
  have hparent := hwaiting.1
  have hset : ∀ object ∈ objects, (state.indegree.set parent.key (count parent - 1)).get?
      object.key = some (if object = parent then count object - 1 else count object) := by
    intro object hobject
    by_cases hsame : object = parent
    · rw [if_pos hsame, hsame, OrderedMap.get?_set, if_pos rfl]
    · have hne : object.key ≠ parent.key := fun hkey ↦
        hsame (eq_of_key_eq hindexed.nodup_keys hobject hparent hkey)
      rw [if_neg hsame, OrderedMap.get?_set_of_ne _ _ hne, h.indegree object hobject]
  have hnotin : parent ∉ state.eligible.objects := fun hmem ↦ by
    have hzero := ((h.mem_eligible parent).mp hmem).2
    omega
  rw [releaseDependant, h.indegree parent hparent, Option.getD_some]
  by_cases hzero : count parent - 1 = 0
  · -- the last reference it waited for: it joins the heap
    rw [if_pos hzero, hindexed.byKey_of_mem parent hparent]
    have hpush := EligiblePublicationMinHeap.objects_push state.eligible parent
    refine ⟨h.ordered_eq, hset, hpush.nodup_iff.mpr (List.nodup_cons.mpr ⟨hnotin, h.nodup⟩), ?_⟩
    intro object
    rw [hpush.mem_iff, List.mem_cons, h.mem_eligible]
    by_cases hsame : object = parent
    · rw [if_pos hsame, hsame]
      exact ⟨fun _ ↦ ⟨hwaiting, hzero⟩, fun _ ↦ Or.inl rfl⟩
    · rw [if_neg hsame, or_iff_right hsame]
  · rw [if_neg hzero]
    refine ⟨h.ordered_eq, hset, h.nodup, fun object ↦ ?_⟩
    rw [h.mem_eligible]
    by_cases hsame : object = parent
    · rw [if_pos hsame, hsame]
      exact and_congr_right fun _ ↦ ⟨fun hcount ↦ by omega, fun hcount ↦ absurd hcount hzero⟩
    · rw [if_neg hsame]

/-- The invariant of the loop. -/
structure ScheduleInv (objects : List PublicationObject) (state : SchedulerState) : Prop where
  greedy : Greedy compareEligiblePublicationObjects objects Needs state.ordered
  tracks : Tracks objects state.ordered state fun object ↦ pending objects state.ordered object

theorem ScheduleInv.mem_eligible (h : ScheduleInv objects state)
    (hkeys : (objects.map PublicationObject.key).Nodup) {object : PublicationObject} :
    object ∈ state.eligible.objects ↔ Eligible objects Needs state.ordered object := by
  rw [h.tracks.mem_eligible object, and_assoc]
  exact (eligible_iff hkeys fun _ hmem ↦ h.greedy.subset hmem).symm

/-- **Step.** Scheduling the object that the heap gives keeps the invariant. -/
theorem ScheduleInv.step (h : ScheduleInv objects state)
    (hindexed : Indexed objects byKey outgoing) {next : PublicationObject}
    {eligible : EligiblePublicationMinHeap} (hpop : state.eligible.pop = some (next, eligible)) :
    ScheduleInv objects (scheduleObject byKey outgoing state next eligible) ∧
      (scheduleObject byKey outgoing state next eligible).ordered
        = state.ordered ++ [next] := by
  have hkeys := hindexed.nodup_keys
  obtain ⟨hperm, hfirst⟩ := EligiblePublicationMinHeap.pop_spec hpop
  have hnext : Eligible objects Needs state.ordered next :=
    (h.mem_eligible hkeys).mp (hperm.mem_iff.mpr List.mem_cons_self)
  have hgreedy := h.greedy.snoc hnext fun b hb ↦ hfirst b ((h.mem_eligible hkeys).mpr hb)
  have hnodup := hperm.nodup_iff.mp h.tracks.nodup
  rw [List.nodup_cons] at hnodup
  -- with `next` scheduled, the counts are still those from before
  have htracks : Tracks objects (state.ordered ++ [next])
      { state with eligible := eligible, ordered := state.ordered ++ [next] }
      fun object ↦ pending objects state.ordered object := by
    refine ⟨rfl, h.tracks.indegree, hnodup.2, fun object ↦ ?_⟩
    have hmem := h.tracks.mem_eligible object
    rw [hperm.mem_iff, List.mem_cons] at hmem
    constructor
    · intro hobject
      obtain ⟨⟨hin, hout⟩, hzero⟩ := hmem.mp (Or.inr hobject)
      refine ⟨⟨hin, fun hordered ↦ ?_⟩, hzero⟩
      rcases List.mem_append.mp hordered with hold | hnew
      · exact hout hold
      · rw [List.mem_singleton.mp hnew] at hobject
        exact hnodup.1 hobject
    · rintro ⟨⟨hin, hout⟩, hzero⟩
      rw [List.mem_append, not_or, List.mem_singleton] at hout
      exact (hmem.mpr ⟨⟨hin, hout.1⟩, hzero⟩).resolve_left hout.2
  obtain ⟨parents, hparents, hnodupParents, hmem⟩ := hindexed.exists_dependants hnext.mem
  have hleft : next.key ∉ state.ordered.map PublicationObject.key := fun hkey ↦
    hnext.waiting ((mem_map_key_iff hkeys (fun _ ho ↦ h.greedy.subset ho) hnext.mem).mp hkey)
  have hfold := foldl_release (Tracks.release hindexed) parents _ _ htracks hnodupParents
    fun parent hparent ↦ by
      obtain ⟨hin, hneeds⟩ := (hmem parent).mp hparent
      have hsnoc := pending_snoc (a := parent) hnext.mem hleft
      rw [if_pos hneeds] at hsnoc
      refine ⟨⟨hin, fun hdone ↦ ?_⟩, by omega⟩
      -- a dependant that came first would have needed `next` before it
      rcases List.mem_append.mp hdone with hold | hnew
      · obtain ⟨done, rest, hsplit⟩ := List.append_of_mem hold
        have hbefore := (h.greedy done parent rest hsplit).1.ready next hnext.mem hneeds
        exact hnext.waiting (by rw [hsplit]; exact List.mem_append_left _ hbefore)
      · rw [List.mem_singleton.mp hnew] at hneeds
        exact hnext.waiting (hnext.ready next hnext.mem hneeds)
  have hstate : parents.foldl (fun state parent ↦ releaseDependant byKey state parent.key)
      { state with eligible := eligible, ordered := state.ordered ++ [next] }
      = scheduleObject byKey outgoing state next eligible := by
    rw [scheduleObject, ← hparents, List.foldl_map]
  rw [hstate] at hfold
  refine ⟨⟨by rw [hfold.ordered_eq]; exact hgreedy, ?_⟩, hfold.ordered_eq⟩
  rw [hfold.ordered_eq]
  refine hfold.congr fun object hobject ↦ ?_
  rw [pending_snoc hnext.mem hleft, if_congr ((hmem object).trans (and_iff_right hobject)) rfl rfl]

/-- **Run.** With fuel for the objects that are left, the loop ends with an empty heap. -/
theorem ScheduleInv.run (hindexed : Indexed objects byKey outgoing) :
    ∀ (fuel : ℕ) (state : SchedulerState), ScheduleInv objects state →
      objects.length ≤ state.ordered.length + fuel →
      ScheduleInv objects (scheduleEligible byKey outgoing fuel state) ∧
        ∀ object, ¬Eligible objects Needs
          (scheduleEligible byKey outgoing fuel state).ordered object := by
  intro fuel
  induction fuel with
  | zero =>
    intro state h hlength
    refine ⟨h, fun object hobject ↦ ?_⟩
    -- every object is scheduled, so none is eligible
    have hperm := List.subperm_of_subset h.greedy.nodup fun a ha ↦ h.greedy.subset ha
    exact hobject.waiting ((hperm.perm_of_length_le hlength).mem_iff.mpr hobject.mem)
  | succ fuel ih =>
    intro state h hlength
    rw [scheduleEligible]
    rcases hpop : state.eligible.pop with _ | ⟨next, eligible⟩
    · refine ⟨h, fun object hobject ↦ ?_⟩
      have hmem := (h.mem_eligible hindexed.nodup_keys).mpr hobject
      rw [EligiblePublicationMinHeap.objects_eq_nil_of_pop hpop] at hmem
      cases hmem
    · obtain ⟨hstep, hordered⟩ := h.step hindexed hpop
      refine ih _ hstep ?_
      rw [hordered, List.length_append, List.length_singleton]
      omega

end Invariant

end UkAqOps.Publication

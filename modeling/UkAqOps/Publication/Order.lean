import UkAqOps.Publication.Resolution

/-!
# The order of publication

When the planner succeeds, what its plan says, and that the plan does not depend on the order in
which objects and references are given.

A plan is a function of the changed objects and the external references (`scheduleOf`). Its entries
are the complete greedy order of the objects, of which there is one, so the same objects in another
order give the same entries, and with them the same document to hash.
-/

namespace UkAqOps.Publication

open Scheduling

/-! ## What can be planned -/

/-- Keys are unique across objects and external references, references are to an object or an
external reference of the same size and hash, those to objects are to none of a higher stage, and
none leads back to where it started. -/
structure Publishable (objects : List PublicationObject) (externals : List ExternalReference) :
    Prop where
  nodup_keys : (objects.map PublicationObject.key ++ externals.map (·.key)).Nodup
  resolves : ∀ object ∈ objects, ∀ reference ∈ object.references,
    (∃ target ∈ objects, target.key = reference.key ∧ target.byteSize = reference.byteSize ∧
      target.sha256 = reference.sha256) ∨
    ∃ target ∈ externals, target.key = reference.key ∧ target.byteSize = reference.byteSize ∧
      target.sha256 = reference.sha256
  stages : ∀ object ∈ objects, ∀ target ∈ objects, Needs object target →
    target.publicationStage.rank ≤ object.publicationStage.rank
  acyclic : Acyclic objects Needs

section Publishable

variable {objects objects' : List PublicationObject} {externals externals' : List ExternalReference}

theorem nodup_append_keys_iff :
    (objects.map PublicationObject.key ++ externals.map (·.key)).Nodup ↔
      (objects.map PublicationObject.key).Nodup ∧ (externals.map (·.key)).Nodup ∧
        ∀ external ∈ externals, external.key ∉ objects.map PublicationObject.key := by
  rw [List.nodup_append]
  refine and_congr_right fun _ ↦ and_congr_right fun _ ↦ ⟨?_, ?_⟩
  · intro h external hexternal hmem
    exact h _ hmem _ (List.mem_map_of_mem (f := fun e : ExternalReference ↦ e.key) hexternal) rfl
  · rintro h key hkey _ hexternal rfl
    obtain ⟨external, hmem, hkey'⟩ := List.mem_map.mp hexternal
    exact h external hmem (hkey' ▸ hkey)

theorem forall_resolves_iff (hkeys : (objects.map PublicationObject.key).Nodup)
    (hdisjoint : ∀ external ∈ externals, external.key ∉ objects.map PublicationObject.key) :
    (∀ object ∈ objects, ∀ reference ∈ object.references,
        Resolves objects externals object reference) ↔
      (∀ object ∈ objects, ∀ reference ∈ object.references,
        (∃ target ∈ objects, target.key = reference.key ∧
          target.byteSize = reference.byteSize ∧ target.sha256 = reference.sha256) ∨
        ∃ target ∈ externals, target.key = reference.key ∧
          target.byteSize = reference.byteSize ∧ target.sha256 = reference.sha256) ∧
      ∀ object ∈ objects, ∀ target ∈ objects, Needs object target →
        target.publicationStage.rank ≤ object.publicationStage.rank := by
  constructor
  · intro h
    constructor
    · intro object hobject reference hreference
      refine (h object hobject reference hreference).imp_left ?_
      rintro ⟨changed, hchanged, hkey, hsize, hsha, -⟩
      exact ⟨changed, hchanged, hkey, hsize, hsha⟩
    · intro object hobject target htarget hneeds
      obtain ⟨reference, hreference, hkey⟩ := List.mem_map.mp hneeds
      rcases h object hobject reference hreference with
        ⟨changed, hchanged, hchangedKey, -, -, hrank⟩ | ⟨external, hexternal, hexternalKey, -⟩
      · rw [eq_of_key_eq hkeys htarget hchanged (hkey.symm.trans hchangedKey.symm)]
        exact hrank
      · refine absurd ?_ (hdisjoint external hexternal)
        rw [hexternalKey, hkey]
        exact List.mem_map_of_mem htarget
  · rintro ⟨hresolves, hstages⟩ object hobject reference hreference
    refine (hresolves object hobject reference hreference).imp_left ?_
    rintro ⟨target, htarget, hkey, hsize, hsha⟩
    refine ⟨target, htarget, hkey, hsize, hsha, hstages object hobject target htarget ?_⟩
    rw [Needs, hkey]
    exact List.mem_map_of_mem hreference

theorem Acyclic.congr {nodes nodes' : List PublicationObject} (h : ∀ a, a ∈ nodes ↔ a ∈ nodes')
    (hacyclic : Acyclic nodes Needs) : Acyclic nodes' Needs := fun a hcycle ↦
  hacyclic a (Relation.TransGen.mono
    (fun b c ⟨hb, hc, hneeds⟩ ↦ ⟨(h b).mpr hb, (h c).mpr hc, hneeds⟩) a a hcycle)

/-- Nothing in it depends on an order. -/
theorem Publishable.perm (h : Publishable objects externals) (hobjects : objects.Perm objects')
    (hexternals : externals.Perm externals') : Publishable objects' externals' where
  nodup_keys := ((hobjects.map _).append (hexternals.map _)).nodup_iff.mp h.nodup_keys
  resolves object hobject reference hreference := by
    simp only [← hobjects.mem_iff, ← hexternals.mem_iff] at hobject ⊢
    exact h.resolves object hobject reference hreference
  stages object hobject target htarget := by
    rw [← hobjects.mem_iff] at hobject htarget
    exact h.stages object hobject target htarget
  acyclic := Acyclic.congr (fun _ ↦ hobjects.mem_iff) h.acyclic

end Publishable

/-! ## The plan as a function of what is planned -/

section Plan

variable {objects objects' : List PublicationObject} {externals externals' : List ExternalReference}

/-- The references to changed objects, counted. -/
def edgesOf (objects : List PublicationObject) : ChangedEdges :=
  (changedReferences objects).foldl ChangedEdges.add (noEdges objects)

def objectMap (objects : List PublicationObject) : OrderedMap String PublicationObject :=
  OrderedMap.ofList (objects.map fun object ↦ (object.key, object))

def externalMap (externals : List ExternalReference) : OrderedMap String ExternalReference :=
  OrderedMap.ofList (externals.map fun external ↦ (external.key, external))

/-- The schedule of the objects, with the counts and the external references that go with it. -/
def scheduleOf (objects : List PublicationObject) (externals : List ExternalReference) :
    PublicationSchedule :=
  publicationSchedule (objectMap objects) (externalMap externals) (edgesOf objects)
    (scheduleObjects (objectMap objects) (edgesOf objects) objects)

theorem entries_objectMap (h : (objects.map PublicationObject.key).Nodup) :
    (objectMap objects).entries = objects.map fun object ↦ (object.key, object) :=
  OrderedMap.entries_ofList (by rw [List.map_map]; exact h)

theorem entries_externalMap (h : (externals.map (·.key)).Nodup) :
    (externalMap externals).entries = externals.map fun external ↦ (external.key, external) :=
  OrderedMap.entries_ofList (by rw [List.map_map]; exact h)

/-- The objects in the order of the plan. -/
theorem toObject_entries_scheduleOf (objects : List PublicationObject)
    (externals : List ExternalReference) :
    (scheduleOf objects externals).entries.map PublicationEntry.toPublicationObject
      = scheduleObjects (objectMap objects) (edgesOf objects) objects := by
  rw [scheduleOf, publicationSchedule, List.map_map]
  exact List.zipIdx_map_fst _ _

theorem greedy_scheduleOf (h : (objects.map PublicationObject.key).Nodup)
    (externals : List ExternalReference) :
    Greedy compareEligiblePublicationObjects objects Needs
        ((scheduleOf objects externals).entries.map PublicationEntry.toPublicationObject) ∧
      ∀ object, ¬Eligible objects Needs
        ((scheduleOf objects externals).entries.map PublicationEntry.toPublicationObject) object := by
  rw [toObject_entries_scheduleOf]
  exact scheduleObjects_spec h (entries_objectMap h) rfl

/-- Without cycles, the loop schedules every object. -/
theorem mem_scheduleOf (h : (objects.map PublicationObject.key).Nodup)
    (hacyclic : Acyclic objects Needs) (externals : List ExternalReference)
    {object : PublicationObject} (hobject : object ∈ objects) :
    object ∈ (scheduleOf objects externals).entries.map PublicationEntry.toPublicationObject :=
  mem_of_stuck hacyclic (greedy_scheduleOf h externals).2 hobject

/-- **The loop schedules as many objects as there are exactly if there is no cycle.** -/
theorem length_scheduleObjects_iff (h : (objects.map PublicationObject.key).Nodup) :
    (scheduleObjects (objectMap objects) (edgesOf objects) objects).length = objects.length ↔
      Acyclic objects Needs := by
  obtain ⟨hgreedy, hstuck⟩ := scheduleObjects_spec h (entries_objectMap h) rfl
  rw [← hgreedy.complete_iff hstuck]
  have hsub := List.subperm_of_subset hgreedy.nodup fun a ha ↦ hgreedy.subset ha
  constructor
  · intro hlength object hobject
    exact (hsub.perm_of_length_le hlength.ge).mem_iff.mpr hobject
  · intro hall
    exact (hgreedy.perm (List.Nodup.of_map _ h) hall).length_eq

/-! ## Order does not matter -/

theorem edgeCounts_edgesOf (edges : ChangedEdges) (labelled : List LabelledReference) :
    (labelled.foldl ChangedEdges.add edges).changedContentEdgeCount
        = edges.changedContentEdgeCount
          + labelled.countP (·.relationship = .contentDependency) ∧
      (labelled.foldl ChangedEdges.add edges).changedPrerequisiteEdgeCount
        = edges.changedPrerequisiteEdgeCount
          + labelled.countP (·.relationship = .orderPrerequisite) := by
  induction labelled generalizing edges with
  | nil => exact ⟨rfl, rfl⟩
  | cons first rest ih =>
    rw [List.foldl_cons, (ih _).1, (ih _).2, List.countP_cons, List.countP_cons, ChangedEdges.add]
    simp only [decide_eq_true_eq]
    omega

theorem changedReferences_perm (h : objects.Perm objects') :
    (changedReferences objects).Perm (changedReferences objects') := by
  have hmem : ∀ key, key ∈ objects.map PublicationObject.key ↔
      key ∈ objects'.map PublicationObject.key := fun key ↦ (h.map _).mem_iff
  rw [changedReferences, changedReferences, labelledReferences, labelledReferences]
  simp only [hmem]
  exact (h.flatMap_right _).filter _

theorem mem_keys_objectMap {key : String} :
    key ∈ (objectMap objects).keys ↔ key ∈ objects.map PublicationObject.key := by
  rw [objectMap, OrderedMap.mem_keys_ofList, List.map_map]
  rfl

theorem mem_keys_externalMap {key : String} :
    key ∈ (externalMap externals).keys ↔ key ∈ externals.map (·.key) := by
  rw [externalMap, OrderedMap.mem_keys_ofList, List.map_map]
  rfl

/-- **The same objects and external references in another order have the same schedule.** -/
theorem scheduleOf_perm (h : Publishable objects externals) (hobjects : objects.Perm objects')
    (hexternals : externals.Perm externals') :
    scheduleOf objects' externals' = scheduleOf objects externals := by
  have h' := h.perm hobjects hexternals
  obtain ⟨hkeys, hexternalKeys, -⟩ := nodup_append_keys_iff.mp h.nodup_keys
  obtain ⟨hkeys', hexternalKeys', -⟩ := nodup_append_keys_iff.mp h'.nodup_keys
  -- both schedules are the complete greedy order of the same objects
  have hordered : scheduleObjects (objectMap objects') (edgesOf objects') objects'
      = scheduleObjects (objectMap objects) (edgesOf objects) objects := by
    rw [← toObject_entries_scheduleOf objects' externals,
      ← toObject_entries_scheduleOf objects externals]
    refine ((greedy_scheduleOf hkeys' externals).1.congr fun _ ↦ hobjects.mem_iff.symm).eq
      (greedy_scheduleOf hkeys externals).1 ?_ ?_ ?_
    · exact fun a ha b hb hab hba ↦ eq_of_key_eq hkeys ha hb (key_eq_of_isLE hab hba)
    · exact fun a ha ↦ mem_scheduleOf hkeys' h'.acyclic externals (hobjects.mem_iff.mp ha)
    · exact fun a ha ↦ mem_scheduleOf hkeys h.acyclic externals ha
  have hcounts : ∀ relationship,
      (changedReferences objects').countP (·.relationship = relationship)
        = (changedReferences objects).countP (·.relationship = relationship) := fun relationship ↦
    ((changedReferences_perm hobjects).countP_eq _).symm
  have hentry : publicationEntry (objectMap objects') (externalMap externals')
      = publicationEntry (objectMap objects) (externalMap externals) := by
    funext object index
    have hobjectKeys : ∀ key, key ∈ (objectMap objects').keys ↔ key ∈ (objectMap objects).keys :=
      fun key ↦ by rw [mem_keys_objectMap, mem_keys_objectMap, (hobjects.map _).mem_iff]
    have hexternalKeys : ∀ key, key ∈ (externalMap externals').keys ↔
        key ∈ (externalMap externals).keys :=
      fun key ↦ by rw [mem_keys_externalMap, mem_keys_externalMap, (hexternals.map _).mem_iff]
    simp only [publicationEntry, hobjectKeys, hexternalKeys]
  have hsize : (externalMap externals').size = (externalMap externals).size := by
    rw [OrderedMap.size, OrderedMap.size, entries_externalMap hexternalKeys,
      entries_externalMap hexternalKeys', List.length_map, List.length_map, hexternals.length_eq]
  have hsorted : Sorting.sortBy (fun left right ↦ bytewiseCompare left.key right.key)
        (externalMap externals').values
      = Sorting.sortBy (fun left right ↦ bytewiseCompare left.key right.key)
        (externalMap externals).values := by
    rw [values_of_entries (entries_externalMap hexternalKeys),
      values_of_entries (entries_externalMap hexternalKeys')]
    exact sortBy_eq_of_perm hexternals.symm hexternalKeys'
  rw [scheduleOf, scheduleOf, publicationSchedule, publicationSchedule, hordered, hentry, hsize,
    hsorted, edgesOf, edgesOf, (edgeCounts_edgesOf _ _).1, (edgeCounts_edgesOf _ _).1,
    (edgeCounts_edgesOf _ _).2, (edgeCounts_edgesOf _ _).2, hcounts, hcounts]
  rfl

end Plan

/-! ## Building the plan -/

section Build

variable {sha256Hex : List ℕ → String} {raws raws' : List RawPublicationObject}
variable {rawExternals rawExternals' : List RawExternalReference}
variable {objects : List PublicationObject} {externals : List ExternalReference}

/-- Whatever references were normalised, the schedule can be hashed. -/
theorem exists_scheduleSha256 (sha256Hex : List ℕ → String)
    (hexternals : rawExternals.mapM normalizeExternalReference = .ok externals)
    (plan : PublicationSchedule)
    (hplan : ∀ external ∈ plan.externalReferences, external ∈ externals) :
    ∃ sha256, scheduleSha256 sha256Hex plan = .ok sha256 := by
  have hagain : ∀ external ∈ plan.externalReferences,
      ∃ again, identityDescriptor external.toReference.raw = .ok again := by
    intro external hexternal
    obtain ⟨raw, -, hraw⟩ := Except.exists_input_of_mem hexternals (hplan external hexternal)
    obtain ⟨identity, hidentity, hraw⟩ := Except.bind_eq_ok_iff.mp hraw
    have hsame : external.toReference = identity := by
      dsimp only at hraw
      split at hraw
      · cases hraw
      · rw [← Except.pure_eq_ok_iff.mp hraw]
    rw [hsame]
    exact exists_identityDescriptor_raw hidentity
  obtain ⟨identities, hidentities⟩ := (Except.exists_mapM_eq_ok_iff _ _).mpr hagain
  exact ⟨_, Except.bind_eq_ok_iff.mpr ⟨identities, hidentities, rfl⟩⟩

theorem changedByKey_eq_ok_iff {byKey : OrderedMap String PublicationObject} :
    changedByKey objects = .ok byKey ↔
      (objects.map PublicationObject.key).Nodup ∧ byKey = objectMap objects := by
  have hmapM : ∀ values : List PublicationObject,
      objects.mapM (Except.ok (ε := String)) = .ok values ↔ objects = values := by
    intro values
    rw [Except.mapM_eq_ok_iff]
    simp only [Except.ok.injEq, List.forall₂_eq_eq_eq]
  rw [changedByKey, indexByKey_eq_ok_iff]
  constructor
  · rintro ⟨values, hvalues, hnodup, -, hentries⟩
    obtain rfl := (hmapM values).mp hvalues
    exact ⟨hnodup, OrderedMap.ext (hentries.trans (entries_objectMap hnodup).symm)⟩
  · rintro ⟨hnodup, rfl⟩
    exact ⟨objects, (hmapM objects).mpr rfl, hnodup, fun _ _ ↦ List.not_mem_nil,
      entries_objectMap hnodup⟩

theorem externalByKey_eq_ok_iff
    (hexternals : rawExternals.mapM normalizeExternalReference = .ok externals)
    {map : OrderedMap String ExternalReference} :
    externalByKey (objectMap objects) rawExternals = .ok map ↔
      ((externals.map (·.key)).Nodup ∧
        ∀ external ∈ externals, external.key ∉ objects.map PublicationObject.key) ∧
      map = externalMap externals := by
  rw [externalByKey, indexByKey_eq_ok_iff, hexternals]
  simp only [mem_keys_objectMap]
  constructor
  · rintro ⟨values, hvalues, hnodup, hfree, hentries⟩
    obtain rfl := Except.ok.inj hvalues
    exact ⟨⟨hnodup, hfree⟩, OrderedMap.ext (hentries.trans (entries_externalMap hnodup).symm)⟩
  · rintro ⟨⟨hnodup, hfree⟩, rfl⟩
    exact ⟨externals, rfl, hnodup, hfree, entries_externalMap hnodup⟩

theorem collectChangedEdges_eq_ok_iff
    (hkeys : (objects.map PublicationObject.key).Nodup) (hexternalKeys : (externals.map (·.key)).Nodup)
    (hdisjoint : ∀ external ∈ externals, external.key ∉ objects.map PublicationObject.key)
    {edges : ChangedEdges} :
    collectChangedEdges (objectMap objects) (externalMap externals) objects = .ok edges ↔
      (∀ object ∈ objects, ∀ reference ∈ object.references,
        Resolves objects externals object reference) ∧ edges = edgesOf objects := by
  have hiff := exists_collectChangedEdges_iff hkeys hexternalKeys hdisjoint
    (entries_objectMap hkeys) (entries_externalMap hexternalKeys)
  constructor
  · intro h
    exact ⟨hiff.mp ⟨edges, h⟩, collectChangedEdges_eq (entries_objectMap hkeys) h⟩
  · rintro ⟨hresolves, rfl⟩
    obtain ⟨edges, h⟩ := hiff.mpr hresolves
    rw [h, collectChangedEdges_eq (entries_objectMap hkeys) h, edgesOf]

/-- **The planner succeeds exactly on what can be planned, and its plan is the schedule.** -/
theorem buildPlan_eq_ok_iff (hraws : raws.mapM (normalizePublicationObject sha256Hex) = .ok objects)
    (hne : objects ≠ []) (hexternals : rawExternals.mapM normalizeExternalReference = .ok externals)
    {plan : PublicationPlan} :
    buildObservationHistoryIndexV3PublicationPlan sha256Hex raws rawExternals = .ok plan ↔
      Publishable objects externals ∧ plan.toPublicationSchedule = scheduleOf objects externals ∧
        scheduleSha256 sha256Hex (scheduleOf objects externals) = .ok plan.scheduleSha256 := by
  rw [buildObservationHistoryIndexV3PublicationPlan, hraws]
  constructor
  · intro h
    obtain ⟨_, hok, h⟩ := Except.bind_eq_ok_iff.mp h
    obtain rfl := Except.ok.inj hok
    obtain ⟨_, -, h⟩ := Except.bind_eq_ok_iff.mp h
    obtain ⟨byKey, hbyKey, h⟩ := Except.bind_eq_ok_iff.mp h
    obtain ⟨hkeys, rfl⟩ := changedByKey_eq_ok_iff.mp hbyKey
    obtain ⟨map, hmap, h⟩ := Except.bind_eq_ok_iff.mp h
    obtain ⟨⟨hexternalKeys, hdisjoint⟩, rfl⟩ := (externalByKey_eq_ok_iff hexternals).mp hmap
    obtain ⟨edges, hedges, h⟩ := Except.bind_eq_ok_iff.mp h
    obtain ⟨hresolves, rfl⟩ :=
      (collectChangedEdges_eq_ok_iff hkeys hexternalKeys hdisjoint).mp hedges
    obtain ⟨_, hlength, h⟩ := Except.bind_eq_ok_iff.mp h
    rw [Except.refuseIf_eq_ok_iff, not_not, length_scheduleObjects_iff hkeys] at hlength
    obtain ⟨sha256, hsha, h⟩ := Except.bind_eq_ok_iff.mp h
    rw [← Except.pure_eq_ok_iff.mp h]
    obtain ⟨hresolved, hstages⟩ := (forall_resolves_iff hkeys hdisjoint).mp hresolves
    exact ⟨⟨nodup_append_keys_iff.mpr ⟨hkeys, hexternalKeys, hdisjoint⟩, hresolved, hstages,
      hlength⟩, rfl, hsha⟩
  · rintro ⟨hpublishable, hschedule, hsha⟩
    obtain ⟨hkeys, hexternalKeys, hdisjoint⟩ := nodup_append_keys_iff.mp hpublishable.nodup_keys
    have hresolves := (forall_resolves_iff hkeys hdisjoint).mpr
      ⟨hpublishable.resolves, hpublishable.stages⟩
    have hlength := (length_scheduleObjects_iff hkeys).mpr hpublishable.acyclic
    refine Except.bind_eq_ok_iff.mpr ⟨objects, rfl, ?_⟩
    refine Except.bind_eq_ok_iff.mpr ⟨(), Except.refuseIf_eq_ok_iff.mpr hne, ?_⟩
    refine Except.bind_eq_ok_iff.mpr ⟨_, changedByKey_eq_ok_iff.mpr ⟨hkeys, rfl⟩, ?_⟩
    refine Except.bind_eq_ok_iff.mpr ⟨_, (externalByKey_eq_ok_iff hexternals).mpr
      ⟨⟨hexternalKeys, hdisjoint⟩, rfl⟩, ?_⟩
    refine Except.bind_eq_ok_iff.mpr ⟨_, (collectChangedEdges_eq_ok_iff hkeys hexternalKeys
      hdisjoint).mpr ⟨hresolves, rfl⟩, ?_⟩
    refine Except.bind_eq_ok_iff.mpr ⟨(), Except.refuseIf_eq_ok_iff.mpr (not_not.mpr hlength), ?_⟩
    refine Except.bind_eq_ok_iff.mpr ⟨_, hsha, ?_⟩
    rw [Except.pure_eq_ok_iff]
    cases plan
    cases hschedule
    rfl

theorem exists_buildPlan_iff (hraws : raws.mapM (normalizePublicationObject sha256Hex) = .ok objects)
    (hne : objects ≠ []) (hexternals : rawExternals.mapM normalizeExternalReference = .ok externals) :
    (∃ plan, buildObservationHistoryIndexV3PublicationPlan sha256Hex raws rawExternals = .ok plan) ↔
      Publishable objects externals := by
  constructor
  · rintro ⟨plan, h⟩
    exact ((buildPlan_eq_ok_iff hraws hne hexternals).mp h).1
  · intro h
    obtain ⟨-, hexternalKeys, -⟩ := nodup_append_keys_iff.mp h.nodup_keys
    have hplan : ∀ external ∈ (scheduleOf objects externals).externalReferences,
        external ∈ externals := by
      intro external hexternal
      rw [scheduleOf, publicationSchedule, Sorting.mem_sortBy,
        values_of_entries (entries_externalMap hexternalKeys)] at hexternal
      exact hexternal
    obtain ⟨sha256, hsha⟩ := exists_scheduleSha256 sha256Hex hexternals _ hplan
    exact ⟨{ scheduleOf objects externals with scheduleSha256 := sha256 },
      (buildPlan_eq_ok_iff hraws hne hexternals).mpr ⟨h, rfl, hsha⟩⟩

/-- The same objects in another order, with their references in another order. -/
def Reordered (raws raws' : List RawPublicationObject) : Prop :=
  ∃ permuted, raws.Perm permuted ∧ List.Forall₂ RawPublicationObject.Reordered permuted raws'

theorem mapM_of_reordered (h : Reordered raws raws')
    (hraws : raws.mapM (normalizePublicationObject sha256Hex) = .ok objects) :
    ∃ objects', raws'.mapM (normalizePublicationObject sha256Hex) = .ok objects' ∧
      objects.Perm objects' := by
  obtain ⟨permuted, hperm, hsame⟩ := h
  obtain ⟨objects', hpermuted, hobjects⟩ := Except.mapM_perm hperm hraws
  refine ⟨objects', ?_, hobjects⟩
  rw [Except.mapM_eq_ok_iff] at hpermuted ⊢
  clear hperm hobjects
  induction hsame generalizing objects' with
  | nil => exact hpermuted
  | cons hhead _ ih =>
    rcases hpermuted with _ | ⟨hobject, hrest⟩
    exact List.Forall₂.cons (normalizePublicationObject_reordered hhead hobject) (ih _ hrest)

end Build

/-! ## An object with a dependency -/

/-- A hash that is the same for all bytes. -/
def zeroHash : List ℕ → String := fun _ ↦ String.ofList (List.replicate 64 '0')

def parquetReference : RawReference where
  key := "p"
  byteSize := some 1
  sha256 := zeroHash []

def rawManifest : RawPublicationObject where
  publicationStage := "canonical_manifest"
  key := "/m"
  body := .buffer [7]
  byteSize := some 1
  sha256 := zeroHash []
  dependencies := [parquetReference]

def manifest : PublicationObject where
  key := "m"
  body := [7]
  byteSize := 1
  sha256 := zeroHash []
  contentType := "application/octet-stream"
  publicationStage := .canonicalManifest
  dependencies := ⟨[{ key := "p", byteSize := 1, sha256 := zeroHash [] }], by simp⟩
  publicationPrerequisites := ⟨[], by simp⟩
  disjoint := by simp [PublicationReferences.keys]

def rawParquet : RawExternalReference where
  toRawReference := parquetReference
  verified := true
  durable := true

def parquet : ExternalReference where
  key := "p"
  byteSize := 1
  sha256 := zeroHash []
  verified := true
  durable := true

theorem normalize_manifest : normalizePublicationObject zeroHash rawManifest = .ok manifest := by
  rfl

theorem normalize_parquet : normalizeExternalReference rawParquet = .ok parquet := by
  rfl

end UkAqOps.Publication

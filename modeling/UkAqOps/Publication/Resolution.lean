import UkAqOps.Publication.Plan

/-!
# What the planner's maps hold

The loops of the planner, one after the other: indexing succeeds if the keys are different, the loop
over the references succeeds if every reference resolves, and then the maps it leaves are those of
the graph of changed references. The scheduling loop therefore starts from its invariant.
-/

namespace UkAqOps.Publication

open Scheduling

/-! ## Indexing -/

section Indexing

variable {ρ υ : Type} {normalize : ρ → Except String υ} {keyOf : υ → String}
variable {reserved : List String} {error : String → String}

theorem foldlM_indexByKey (raws : List ρ) (map map' : OrderedMap String υ) :
    raws.foldlM (fun map raw ↦ do
        let value ← normalize raw
        if keyOf value ∈ map.keys ∨ keyOf value ∈ reserved then throw (error (keyOf value))
        return map.set (keyOf value) value) map = .ok map' ↔
      ∃ values, raws.mapM normalize = .ok values ∧ (values.map keyOf).Nodup ∧
        (∀ value ∈ values, keyOf value ∉ map.keys ∧ keyOf value ∉ reserved) ∧
        map'.entries = map.entries ++ values.map fun value ↦ (keyOf value, value) := by
  induction raws generalizing map with
  | nil =>
    simp only [List.foldlM_nil, List.mapM_nil, Except.pure_eq_ok_iff]
    constructor
    · rintro rfl
      exact ⟨[], rfl, List.nodup_nil, by simp, by simp⟩
    · rintro ⟨values, rfl, -, -, hentries⟩
      exact OrderedMap.ext (by simpa using hentries.symm)
  | cons raw rest ih =>
    rw [List.foldlM_cons, List.mapM_cons, Except.bind_eq_ok_iff]
    constructor
    · rintro ⟨mid, hstep, hrest⟩
      obtain ⟨value, hvalue, hstep⟩ := Except.bind_eq_ok_iff.mp hstep
      by_cases htaken : keyOf value ∈ map.keys ∨ keyOf value ∈ reserved
      · rw [if_pos htaken] at hstep
        cases hstep
      · rw [if_neg htaken] at hstep
        have hmid : map.set (keyOf value) value = mid := Except.pure_eq_ok_iff.mp hstep
        rw [not_or] at htaken
        subst hmid
        obtain ⟨values, hvalues, hnodup, hfree, hentries⟩ := (ih _).mp hrest
        refine ⟨value :: values, by rw [hvalue, hvalues]; rfl, ?_, ?_, ?_⟩
        · refine List.nodup_cons.mpr ⟨fun hmem ↦ ?_, hnodup⟩
          obtain ⟨other, hother, hkey⟩ := List.mem_map.mp hmem
          exact (hfree other hother).1 (by
            rw [OrderedMap.mem_keys_set, hkey]
            exact Or.inl rfl)
        · refine List.forall_mem_cons.mpr ⟨htaken, fun other hother ↦ ⟨fun hmem ↦ ?_, ?_⟩⟩
          · exact (hfree other hother).1 (OrderedMap.mem_keys_set.mpr (Or.inr hmem))
          · exact (hfree other hother).2
        · rw [hentries, OrderedMap.entries_set_of_notMem _ htaken.1, List.append_assoc]
          rfl
    · rintro ⟨values, hmapM, hnodup, hfree, hentries⟩
      obtain ⟨value, hvalue, hrest⟩ := Except.bind_eq_ok_iff.mp hmapM
      obtain ⟨values', hvalues, hcons⟩ := Except.bind_eq_ok_iff.mp hrest
      have hcons : value :: values' = values := Except.pure_eq_ok_iff.mp hcons
      subst hcons
      rw [List.map_cons, List.nodup_cons] at hnodup
      obtain ⟨⟨hnew, hunreserved⟩, hfree⟩ := List.forall_mem_cons.mp hfree
      refine ⟨map.set (keyOf value) value, ?_, (ih _).mpr ⟨values', hvalues, hnodup.2, ?_, ?_⟩⟩
      · rw [hvalue]
        exact if_neg (not_or.mpr ⟨hnew, hunreserved⟩)
      · refine fun other hother ↦ ⟨fun hmem ↦ ?_, (hfree other hother).2⟩
        rcases OrderedMap.mem_keys_set.mp hmem with hkey | hold
        · exact hnodup.1 (hkey ▸ List.mem_map_of_mem hother)
        · exact (hfree other hother).1 hold
      · rw [hentries, OrderedMap.entries_set_of_notMem _ hnew, List.append_assoc]
        rfl

/-- **Indexing succeeds if the keys are different from each other and from the reserved ones.** -/
theorem indexByKey_eq_ok_iff {raws : List ρ} {map : OrderedMap String υ} :
    indexByKey normalize keyOf reserved error raws = .ok map ↔
      ∃ values, raws.mapM normalize = .ok values ∧ (values.map keyOf).Nodup ∧
        (∀ value ∈ values, keyOf value ∉ reserved) ∧
        map.entries = values.map fun value ↦ (keyOf value, value) := by
  rw [indexByKey, foldlM_indexByKey]
  refine exists_congr fun values ↦ and_congr_right fun _ ↦ and_congr_right fun _ ↦ ?_
  refine and_congr (forall₂_congr fun value _ ↦ ?_) (by rw [OrderedMap.empty, List.nil_append])
  exact and_iff_right List.not_mem_nil

end Indexing

section Maps

variable {υ : Type} {keyOf : υ → String} {values : List υ} {map : OrderedMap String υ}

theorem keys_of_entries (h : map.entries = values.map fun value ↦ (keyOf value, value)) :
    map.keys = values.map keyOf := by
  rw [OrderedMap.keys, h, List.map_map]
  rfl

theorem values_of_entries (h : map.entries = values.map fun value ↦ (keyOf value, value)) :
    map.values = values := by
  rw [OrderedMap.values, h, List.map_map]
  exact List.map_id values

theorem get?_of_entries (h : map.entries = values.map fun value ↦ (keyOf value, value))
    {key : String} {value : υ} :
    map.get? key = some value ↔ value ∈ values ∧ keyOf value = key := by
  rw [OrderedMap.get?_eq_some_iff, h, List.mem_map]
  constructor
  · rintro ⟨other, hother, heq⟩
    obtain ⟨rfl, rfl⟩ := Prod.mk.inj heq
    exact ⟨hother, rfl⟩
  · rintro ⟨hvalue, rfl⟩
    exact ⟨value, hvalue, rfl⟩

end Maps

/-! ## Resolving -/

/-- What a reference resolves to: an object of the same size and hash, changed or external. A
changed one is of no higher stage than the object that refers to it. -/
def Resolves (objects : List PublicationObject) (externals : List ExternalReference)
    (object : PublicationObject) (reference : Reference) : Prop :=
  (∃ changed ∈ objects, changed.key = reference.key ∧ changed.byteSize = reference.byteSize ∧
    changed.sha256 = reference.sha256 ∧
    changed.publicationStage.rank ≤ object.publicationStage.rank) ∨
  ∃ external ∈ externals, external.key = reference.key ∧
    external.byteSize = reference.byteSize ∧ external.sha256 = reference.sha256

theorem mem_labelledReferences {objects : List PublicationObject} {labelled : LabelledReference}
    (h : labelled ∈ labelledReferences objects) :
    labelled.object ∈ objects ∧ labelled.reference ∈ labelled.object.references := by
  obtain ⟨object, hobject, hmem⟩ := List.mem_flatMap.mp h
  obtain ⟨p, hp, rfl⟩ := List.mem_map.mp hmem
  refine ⟨hobject, ?_⟩
  rcases List.mem_append.mp hp with hdep | hpre
  · obtain ⟨reference, hreference, rfl⟩ := List.mem_map.mp hdep
    exact List.mem_append_left _ hreference
  · obtain ⟨reference, hreference, rfl⟩ := List.mem_map.mp hpre
    exact List.mem_append_right _ hreference

theorem exists_labelledReference {objects : List PublicationObject} {object : PublicationObject}
    (hobject : object ∈ objects) {reference : Reference} (h : reference ∈ object.references) :
    ∃ relationship, ⟨object, relationship, reference⟩ ∈ labelledReferences objects := by
  rcases List.mem_append.mp h with hdep | hpre
  · exact ⟨.contentDependency, List.mem_flatMap.mpr ⟨object, hobject, List.mem_map.mpr
      ⟨_, List.mem_append_left _ (List.mem_map_of_mem hdep), rfl⟩⟩⟩
  · exact ⟨.orderPrerequisite, List.mem_flatMap.mpr ⟨object, hobject, List.mem_map.mpr
      ⟨_, List.mem_append_right _ (List.mem_map_of_mem hpre), rfl⟩⟩⟩

section Maps

variable {objects : List PublicationObject} {externals : List ExternalReference}
variable {byKey : OrderedMap String PublicationObject}
variable {externalMap : OrderedMap String ExternalReference}

/-- **A reference passes its checks exactly if it resolves.** -/
theorem resolveReference_eq_ok_iff (hobjects : (objects.map PublicationObject.key).Nodup)
    (hexternals : (externals.map (·.key)).Nodup)
    (hdisjoint : ∀ external ∈ externals, external.key ∉ objects.map PublicationObject.key)
    (hbyKey : byKey.entries = objects.map fun object ↦ (object.key, object))
    (hexternalMap : externalMap.entries = externals.map fun external ↦ (external.key, external))
    (labelled : LabelledReference) :
    (∃ changed, resolveReference byKey externalMap labelled = .ok changed) ↔
      Resolves objects externals labelled.object labelled.reference := by
  rw [resolveReference]
  rcases hchanged : byKey.get? labelled.reference.key with _ | changed
  · have hnone : ∀ object ∈ objects, object.key ≠ labelled.reference.key := by
      intro object hobject hkey
      rw [(get?_of_entries hbyKey).mpr ⟨hobject, hkey⟩] at hchanged
      cases hchanged
    have hiff : Resolves objects externals labelled.object labelled.reference ↔
        ∃ external ∈ externals, external.key = labelled.reference.key ∧
          external.byteSize = labelled.reference.byteSize ∧
          external.sha256 = labelled.reference.sha256 :=
      or_iff_right fun ⟨object, hobject, hkey, _⟩ ↦ hnone object hobject hkey
    rw [hiff]
    dsimp only
    rcases hexternal : externalMap.get? labelled.reference.key with _ | external
    · constructor
      · rintro ⟨_, h⟩
        cases h
      · rintro ⟨external, hmem, hkey, -⟩
        rw [(get?_of_entries hexternalMap).mpr ⟨hmem, hkey⟩] at hexternal
        cases hexternal
    · obtain ⟨hmem, hkey⟩ := (get?_of_entries hexternalMap).mp hexternal
      dsimp only
      by_cases hsame : external.byteSize ≠ labelled.reference.byteSize ∨
          external.sha256 ≠ labelled.reference.sha256
      · rw [if_pos hsame]
        refine ⟨fun ⟨_, h⟩ ↦ (nomatch h), fun ⟨other, hother, hotherKey, hsize, hsha⟩ ↦ ?_⟩
        have heq : other = external :=
          List.inj_on_of_nodup_map hexternals hother hmem (hotherKey.trans hkey.symm)
        rw [heq] at hsize hsha
        exact absurd hsame (by rw [hsize, hsha]; simp)
      · rw [if_neg hsame]
        rw [not_or, not_not, not_not] at hsame
        exact ⟨fun _ ↦ ⟨external, hmem, hkey, hsame⟩, fun _ ↦ ⟨false, rfl⟩⟩
  · obtain ⟨hmem, hkey⟩ := (get?_of_entries hbyKey).mp hchanged
    have hiff : Resolves objects externals labelled.object labelled.reference ↔
        changed.byteSize = labelled.reference.byteSize ∧
          changed.sha256 = labelled.reference.sha256 ∧
          changed.publicationStage.rank ≤ labelled.object.publicationStage.rank := by
      constructor
      · rintro (⟨other, hother, hotherKey, hrest⟩ | ⟨external, hexternal, hexternalKey, -⟩)
        · rw [eq_of_key_eq hobjects hmem hother (hkey.trans hotherKey.symm)]
          exact hrest
        · refine absurd ?_ (hdisjoint external hexternal)
          rw [hexternalKey, ← hkey]
          exact List.mem_map_of_mem hmem
      · exact fun h ↦ Or.inl ⟨changed, hmem, hkey, h⟩
    rw [hiff]
    dsimp only
    by_cases hsame : changed.byteSize ≠ labelled.reference.byteSize ∨
        changed.sha256 ≠ labelled.reference.sha256
    · rw [if_pos hsame]
      refine ⟨fun ⟨_, h⟩ ↦ (nomatch h), fun ⟨hsize, hsha, _⟩ ↦ ?_⟩
      exact absurd hsame (by rw [hsize, hsha]; simp)
    · rw [if_neg hsame]
      rw [not_or, not_not, not_not] at hsame
      by_cases hrank : labelled.object.publicationStage.rank < changed.publicationStage.rank
      · rw [if_pos hrank]
        exact ⟨fun ⟨_, h⟩ ↦ (nomatch h), fun ⟨_, _, hle⟩ ↦ absurd hrank (by omega)⟩
      · rw [if_neg hrank]
        exact ⟨fun _ ↦ ⟨hsame.1, hsame.2, by omega⟩, fun _ ↦ ⟨true, rfl⟩⟩

/-- The outcome says whether the reference is to a changed object. -/
theorem resolveReference_value {labelled : LabelledReference} {changed : Bool}
    (hbyKey : byKey.entries = objects.map fun object ↦ (object.key, object))
    (h : resolveReference byKey externalMap labelled = .ok changed) :
    changed = decide (labelled.reference.key ∈ objects.map PublicationObject.key) := by
  rw [resolveReference] at h
  rcases hget : byKey.get? labelled.reference.key with _ | object
  · rw [hget] at h
    dsimp only at h
    rw [OrderedMap.get?_eq_none_iff, keys_of_entries hbyKey] at hget
    rw [decide_eq_false hget]
    split at h
    · cases h
    · split at h
      · cases h
      · exact (Except.ok.inj h).symm
  · rw [hget] at h
    dsimp only at h
    obtain ⟨hmem, hkey⟩ := (get?_of_entries hbyKey).mp hget
    rw [decide_eq_true (hkey ▸ List.mem_map_of_mem hmem)]
    split at h
    · cases h
    · split at h
      · cases h
      · exact (Except.ok.inj h).symm

end Maps

/-! ## Counting -/

/-- The references to changed objects. -/
def changedReferences (objects : List PublicationObject) : List LabelledReference :=
  (labelledReferences objects).filter fun labelled ↦
    labelled.reference.key ∈ objects.map PublicationObject.key

section Counting

variable {objects : List PublicationObject} {edges : ChangedEdges}

theorem get?_indegree_foldl_add (labelled : List LabelledReference) {key : String} {count : ℤ}
    (h : edges.indegree.get? key = some count) :
    (labelled.foldl ChangedEdges.add edges).indegree.get? key
      = some (count + labelled.countP (·.object.key = key)) := by
  induction labelled generalizing edges count with
  | nil => simpa using h
  | cons first rest ih =>
    rw [List.foldl_cons, List.countP_cons]
    by_cases hkey : first.object.key = key
    · have hstep : (edges.add first).indegree.get? key = some (count + 1) := by
        rw [ChangedEdges.add, hkey, OrderedMap.get?_set, if_pos rfl, h, Option.getD_some]
      rw [ih hstep, if_pos (decide_eq_true hkey)]
      congr 1
      push_cast
      omega
    · have hstep : (edges.add first).indegree.get? key = some count := by
        rw [ChangedEdges.add, OrderedMap.get?_set_of_ne _ _ (Ne.symm hkey), h]
      rw [ih hstep, if_neg (by simpa using hkey), Nat.add_zero]

theorem get?_outgoing_foldl_add (labelled : List LabelledReference) (edges : ChangedEdges)
    (key : String) : ((labelled.foldl ChangedEdges.add edges).outgoing.get? key).getD []
      = (edges.outgoing.get? key).getD []
        ++ (labelled.filter (·.reference.key = key)).map (·.object.key) := by
  induction labelled generalizing edges with
  | nil => simp
  | cons first rest ih =>
    rw [List.foldl_cons, ih]
    by_cases hkey : first.reference.key = key
    · rw [ChangedEdges.add, hkey, OrderedMap.get?_set, if_pos rfl, Option.getD_some,
        List.filter_cons_of_pos (by simpa using hkey), List.map_cons, List.append_assoc]
      rfl
    · rw [ChangedEdges.add, OrderedMap.get?_set_of_ne _ _ (Ne.symm hkey),
        List.filter_cons_of_neg (by simpa using hkey)]

theorem countP_of_object_key (hkeys : (objects.map PublicationObject.key).Nodup)
    {f : PublicationObject → List LabelledReference}
    (hf : ∀ object, ∀ labelled ∈ f object, labelled.object = object)
    {object : PublicationObject} (hobject : object ∈ objects) :
    (objects.flatMap f).countP (·.object.key = object.key) = (f object).length := by
  have hzero : ∀ other, other.key ≠ object.key →
      (f other).countP (·.object.key = object.key) = 0 := by
    intro other hne
    rw [List.countP_eq_zero]
    intro labelled hlabelled
    rw [hf other labelled hlabelled]
    simpa using hne
  induction objects with
  | nil => cases hobject
  | cons first rest ih =>
    rw [List.map_cons, List.nodup_cons] at hkeys
    rw [List.flatMap_cons, List.countP_append]
    rcases List.mem_cons.mp hobject with rfl | hrest
    · have hself : (f object).countP (·.object.key = object.key) = (f object).length := by
        rw [List.countP_eq_length]
        intro labelled hlabelled
        rw [hf object labelled hlabelled]
        exact decide_eq_true rfl
      have hothers : (rest.flatMap f).countP (·.object.key = object.key) = 0 := by
        rw [List.countP_flatMap, List.sum_eq_zero]
        intro n hn
        obtain ⟨other, hother, rfl⟩ := List.mem_map.mp hn
        exact hzero other fun hkey ↦ hkeys.1 (hkey ▸ List.mem_map_of_mem hother)
      rw [hself, hothers, Nat.add_zero]
    · have hfirst : first.key ≠ object.key := fun hkey ↦
        hkeys.1 (hkey ▸ List.mem_map_of_mem hrest)
      rw [hzero first hfirst, ih hkeys.2 hrest, Nat.zero_add]

theorem map_snd_labelledReferences (object : PublicationObject) :
    object.labelledReferences.map Prod.snd = object.references := by
  rw [PublicationObject.labelledReferences, List.map_append, List.map_map, List.map_map]
  exact congrArg₂ (· ++ ·) (List.map_id _) (List.map_id _)

/-- The count of an object is the number of its references to changed objects. -/
theorem countP_changedReferences (hkeys : (objects.map PublicationObject.key).Nodup)
    {object : PublicationObject} (hobject : object ∈ objects) :
    (changedReferences objects).countP (·.object.key = object.key)
      = pending objects [] object := by
  rw [changedReferences, labelledReferences, List.filter_flatMap, countP_of_object_key hkeys _ hobject]
  · rw [List.filter_map, List.length_map, ← List.countP_eq_length_filter, pending,
      ← map_snd_labelledReferences, List.map_map, List.countP_map]
    refine List.countP_congr fun p _ ↦ ?_
    simp
  · intro other labelled hlabelled
    obtain ⟨p, -, rfl⟩ := List.mem_map.mp (List.mem_of_mem_filter hlabelled)
    rfl

theorem map_filter_key {references : List Reference}
    (hnodup : (references.map Reference.key).Nodup) (key value : String) :
    (references.filter (·.key = key)).map (fun _ ↦ value)
      = if key ∈ references.map Reference.key then [value] else [] := by
  induction references with
  | nil => rfl
  | cons first rest ih =>
    rw [List.map_cons, List.nodup_cons] at hnodup
    by_cases hkey : first.key = key
    · subst hkey
      rw [List.filter_cons_of_pos (by simp), List.map_cons, ih hnodup.2,
        if_neg hnodup.1, if_pos (by rw [List.map_cons]; exact List.mem_cons_self)]
    · rw [List.filter_cons_of_neg (by simpa using hkey), ih hnodup.2, List.map_cons]
      exact if_congr (by rw [List.mem_cons, or_iff_right (Ne.symm hkey)]) rfl rfl

/-- The dependants of an object are the objects that need it, once each. -/
theorem outgoing_changedReferences {object : PublicationObject} (hobject : object ∈ objects) :
    ((changedReferences objects).filter (·.reference.key = object.key)).map (·.object.key)
      = (objects.filter fun parent ↦ Needs parent object).map PublicationObject.key := by
  have hpiece : ∀ parent : PublicationObject,
      (((parent.labelledReferences.map fun p ↦ (⟨parent, p.1, p.2⟩ : LabelledReference)).filter
        (·.reference.key = object.key)).map (·.object.key))
        = if Needs parent object then [parent.key] else [] := by
    intro parent
    rw [List.filter_map, List.map_map]
    have h := map_filter_key parent.nodup_references object.key parent.key
    rw [← map_snd_labelledReferences, List.filter_map, List.map_map] at h
    refine Eq.trans ?_ (h.trans ?_)
    · rfl
    · rw [map_snd_labelledReferences]
      rfl
  have hchanged : (changedReferences objects).filter (·.reference.key = object.key)
      = (labelledReferences objects).filter (·.reference.key = object.key) := by
    rw [changedReferences, List.filter_filter]
    refine List.filter_congr fun labelled _ ↦ ?_
    by_cases hkey : labelled.reference.key = object.key
    · rw [hkey]
      simp [List.mem_map_of_mem hobject]
    · simp [hkey]
  rw [hchanged, labelledReferences, List.filter_flatMap, List.map_flatMap]
  clear hobject hchanged
  induction objects with
  | nil => rfl
  | cons parent rest ih =>
    rw [List.flatMap_cons, hpiece, ih]
    by_cases hneeds : Needs parent object
    · rw [if_pos hneeds, List.filter_cons_of_pos (by simpa using hneeds)]
      rfl
    · rw [if_neg hneeds, List.filter_cons_of_neg (by simpa using hneeds)]
      rfl

end Counting

/-! ## The maps of the graph -/

section Start

variable {objects : List PublicationObject} {externals : List ExternalReference}
variable {byKey : OrderedMap String PublicationObject}
variable {externalMap : OrderedMap String ExternalReference} {edges : ChangedEdges}

/-- **The loop over the references succeeds exactly if they all resolve.** -/
theorem exists_collectChangedEdges_iff (hobjects : (objects.map PublicationObject.key).Nodup)
    (hexternals : (externals.map (·.key)).Nodup)
    (hdisjoint : ∀ external ∈ externals, external.key ∉ objects.map PublicationObject.key)
    (hbyKey : byKey.entries = objects.map fun object ↦ (object.key, object))
    (hexternalMap : externalMap.entries = externals.map fun external ↦ (external.key, external)) :
    (∃ edges, collectChangedEdges byKey externalMap objects = .ok edges) ↔
      ∀ object ∈ objects, ∀ reference ∈ object.references,
        Resolves objects externals object reference := by
  have hiff := resolveReference_eq_ok_iff hobjects hexternals hdisjoint hbyKey hexternalMap
  constructor
  · rintro ⟨edges, h⟩ object hobject reference hreference
    obtain ⟨relationship, hmem⟩ := exists_labelledReference hobject hreference
    exact (hiff _).mp (Except.exists_ok_of_foldlM h _ hmem)
  · intro h
    have hvalue : ∀ labelled ∈ labelledReferences objects,
        resolveReference byKey externalMap labelled
          = .ok (decide (labelled.reference.key ∈ objects.map PublicationObject.key)) := by
      intro labelled hlabelled
      obtain ⟨hobject, hreference⟩ := mem_labelledReferences hlabelled
      obtain ⟨changed, hchanged⟩ := (hiff labelled).mpr (h _ hobject _ hreference)
      rw [hchanged, resolveReference_value hbyKey hchanged]
    have hfold := Except.foldlM_of_forall_ok
      (fun edges labelled changed ↦ if changed then ChangedEdges.add edges labelled else edges)
      hvalue (noEdges objects)
    exact ⟨_, hfold⟩

theorem collectChangedEdges_eq
    (hbyKey : byKey.entries = objects.map fun object ↦ (object.key, object))
    (h : collectChangedEdges byKey externalMap objects = .ok edges) :
    edges = (changedReferences objects).foldl ChangedEdges.add (noEdges objects) := by
  have hvalue : ∀ labelled ∈ labelledReferences objects,
      resolveReference byKey externalMap labelled
        = .ok (decide (labelled.reference.key ∈ objects.map PublicationObject.key)) := by
    intro labelled hlabelled
    obtain ⟨changed, hchanged⟩ := Except.exists_ok_of_foldlM h labelled hlabelled
    rw [hchanged, resolveReference_value hbyKey hchanged]
  have hfold := Except.foldlM_of_forall_ok
    (fun edges labelled changed ↦ if changed then ChangedEdges.add edges labelled else edges)
    hvalue (noEdges objects)
  rw [changedReferences, List.foldl_filter]
  exact Except.ok.inj (h.symm.trans hfold)

theorem get?_noEdges (hobjects : (objects.map PublicationObject.key).Nodup)
    {object : PublicationObject} (hobject : object ∈ objects) :
    (noEdges objects).indegree.get? object.key = some 0 ∧
      (noEdges objects).outgoing.get? object.key = some [] := by
  constructor
  · rw [noEdges, OrderedMap.get?_eq_some_iff, OrderedMap.entries_ofList
      (by rw [List.map_map]; exact hobjects)]
    exact List.mem_map_of_mem (f := fun object : PublicationObject ↦ (object.key, (0 : ℤ))) hobject
  · rw [noEdges, OrderedMap.get?_eq_some_iff, OrderedMap.entries_ofList
      (by rw [List.map_map]; exact hobjects)]
    exact List.mem_map_of_mem (f := fun object : PublicationObject ↦
      (object.key, ([] : List String))) hobject

theorem indexed_of_edges (hobjects : (objects.map PublicationObject.key).Nodup)
    (hbyKey : byKey.entries = objects.map fun object ↦ (object.key, object))
    (hedges : edges = (changedReferences objects).foldl ChangedEdges.add (noEdges objects)) :
    Indexed objects byKey edges.outgoing := by
  have houtgoing : ∀ object ∈ objects, (edges.outgoing.get? object.key).getD []
      = (objects.filter fun parent ↦ Needs parent object).map PublicationObject.key := by
    intro object hobject
    rw [hedges, get?_outgoing_foldl_add, (get?_noEdges hobjects hobject).2, Option.getD_some,
      List.nil_append, outgoing_changedReferences hobject]
  refine ⟨hobjects, fun object hobject ↦ (get?_of_entries hbyKey).mpr ⟨hobject, rfl⟩, ?_, ?_⟩
  · intro object hobject
    rw [houtgoing object hobject]
    exact (List.filter_sublist.map _).nodup hobjects
  · intro object hobject key
    rw [houtgoing object hobject, List.mem_map]
    refine exists_congr fun parent ↦ ?_
    rw [List.mem_filter, decide_eq_true_iff, and_assoc, and_comm (a := Needs parent object)]

/-- The scheduling loop starts from its invariant. -/
theorem scheduleInv_start (hobjects : (objects.map PublicationObject.key).Nodup)
    (hedges : edges = (changedReferences objects).foldl ChangedEdges.add (noEdges objects)) :
    ScheduleInv objects
      { eligible := (objects.filter fun object ↦ edges.indegree.get? object.key = some 0).foldl
          EligiblePublicationMinHeap.push EligiblePublicationMinHeap.empty
        indegree := edges.indegree
        ordered := [] } := by
  have hindegree : ∀ object ∈ objects,
      edges.indegree.get? object.key = some (pending objects [] object : ℤ) := by
    intro object hobject
    rw [hedges, get?_indegree_foldl_add _ (get?_noEdges hobjects hobject).1, Int.zero_add,
      countP_changedReferences hobjects hobject]
  have hpush : ∀ (l : List PublicationObject) (heap : EligiblePublicationMinHeap),
      (l.foldl EligiblePublicationMinHeap.push heap).objects.Perm (l ++ heap.objects) := by
    intro l
    induction l with
    | nil => exact fun heap ↦ List.Perm.refl _
    | cons object rest ih =>
      intro heap
      refine (ih _).trans (((EligiblePublicationMinHeap.objects_push heap object).append_left
        rest).trans ?_)
      exact List.perm_middle
  have hperm := hpush (objects.filter fun object ↦ edges.indegree.get? object.key = some 0)
    EligiblePublicationMinHeap.empty
  rw [EligiblePublicationMinHeap.objects_empty, List.append_nil] at hperm
  refine ⟨greedy_nil, rfl, hindegree, hperm.nodup_iff.mpr ?_, fun object ↦ ?_⟩
  · exact (List.Nodup.of_map _ hobjects).filter _
  · rw [hperm.mem_iff, List.mem_filter, and_iff_left (b := object ∉ []) List.not_mem_nil]
    refine and_congr_right fun hobject ↦ ?_
    rw [hindegree object hobject, decide_eq_true_iff, Option.some_inj]

/-- **The schedule is greedy and cannot go on.** -/
theorem scheduleObjects_spec (hobjects : (objects.map PublicationObject.key).Nodup)
    (hbyKey : byKey.entries = objects.map fun object ↦ (object.key, object))
    (hedges : edges = (changedReferences objects).foldl ChangedEdges.add (noEdges objects)) :
    Greedy compareEligiblePublicationObjects objects Needs
        (scheduleObjects byKey edges objects) ∧
      ∀ object, ¬Eligible objects Needs (scheduleObjects byKey edges objects) object := by
  obtain ⟨hinv, hstuck⟩ := ScheduleInv.run (indexed_of_edges hobjects hbyKey hedges) objects.length
    _ (scheduleInv_start hobjects hedges) (by simp)
  exact ⟨hinv.greedy, hstuck⟩

end Start

end UkAqOps.Publication

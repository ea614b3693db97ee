import UkAqOps.Backup.BindingAgreement

/-!
# Hierarchies that agree with the binding files

A hierarchy agrees with the binding files when its root and its ranges are valid, each range holds a
binding, and the units of all ranges are the listed files, each once. Both runs then succeed: the
normal run writes the shard of every range that it does not take over, and the groups of the full
scan are the ranges of the root.
-/

namespace UkAqOps.Backup

open Sorting BindingSource Stateful

section Consistency

variable (sha256Hex : String → String)

/-- The units that the source stores for a range. -/
def sourceUnits (source : BindingFiles) (range : SourceRangeReference) : List SourceUnit :=
  match (source.rangeManifest range.manifestKey).map
      (validateTimeseriesBindingSourceRangeManifest sha256Hex) with
  | some (.ok manifest) => manifest.units
  | _ => []

/-- The manifests of the source agree with each other and with the binding files. -/
structure Consistent (source : BindingFiles) (sourcePrefix : KeyPrefix) (root : SourceRootManifest) :
    Prop where
  root_found : RootOf sha256Hex source sourcePrefix root
  root_prefix : root.sourcePrefix = sourcePrefix.text
  range_found : ∀ range ∈ root.ranges, ∃ raw manifest,
    source.rangeManifest range.manifestKey = some raw ∧
      validateTimeseriesBindingSourceRangeManifest sha256Hex raw = .ok manifest ∧
      manifest.rangeStart = range.rangeStart ∧
      manifest.sourceRangeHash = range.sourceRangeHash ∧
      lengthOf manifest.units = range.unitCount ∧ manifest.units ≠ []
  physical : ∃ bindings, physicalBindings sha256Hex source sourcePrefix.text = .ok bindings ∧
    (bindings.map listedContent).Perm
      ((root.ranges.flatMap (sourceUnits sha256Hex source)).map sourceContent)

/-- What the manifest of a range says about its units. -/
structure RangeFacts (source : BindingFiles) (range : SourceRangeReference) : Prop where
  inside : ∀ unit ∈ sourceUnits sha256Hex source range,
    rangeStartOf unit.timeseriesId = range.rangeStart
  nodup : ((sourceUnits sha256Hex source range).map SourceUnit.timeseriesId).Nodup
  hash : BindingSource.rangeSourceHash sha256Hex (sourceUnits sha256Hex source range) =
    range.sourceRangeHash
  count : lengthOf (sourceUnits sha256Hex source range) = range.unitCount
  nonempty : sourceUnits sha256Hex source range ≠ []

variable {sha256Hex} {source : BindingFiles} {sourcePrefix inventoryRootPrefix : KeyPrefix}
variable {root : SourceRootManifest} {previous : Option BindingRootReference} {dryRun : Bool}
variable {files files' : InventoryFiles}

/-- The manifest of a range as both runs read it. -/
theorem Consistent.manifest (h : Consistent sha256Hex source sourcePrefix root)
    {range : SourceRangeReference} (hrange : range ∈ root.ranges) :
    ∃ raw manifest, source.rangeManifest range.manifestKey = some raw ∧
      validateTimeseriesBindingSourceRangeManifest sha256Hex raw = .ok manifest ∧
      manifest.rangeStart = range.rangeStart ∧ manifest.rangeEnd = range.rangeEnd ∧
      manifest.sourceRangeHash = range.sourceRangeHash ∧
      manifest.units = sourceUnits sha256Hex source range := by
  obtain ⟨raw, manifest, hraw, hvalid, hstart, hhash, -, -⟩ := h.range_found range hrange
  refine ⟨raw, manifest, hraw, hvalid, hstart, ?_, hhash, ?_⟩
  · rw [(canonical_of_validateRange hvalid).rangeEnd, hstart, SourceRangeReference.rangeEnd]
  · rw [sourceUnits, hraw, Option.map_some, hvalid]

theorem Consistent.rangeFacts (h : Consistent sha256Hex source sourcePrefix root)
    {range : SourceRangeReference} (hrange : range ∈ root.ranges) :
    RangeFacts sha256Hex source range := by
  obtain ⟨raw, manifest, hraw, hvalid, hstart, hhash, hcount, hne⟩ := h.range_found range hrange
  have hcanonical := canonical_of_validateRange hvalid
  have hunits : sourceUnits sha256Hex source range = manifest.units := by
    rw [sourceUnits, hraw, Option.map_some, hvalid]
  constructor
  · intro unit hunit
    rw [hunits] at hunit
    rw [hcanonical.inside unit hunit, hstart]
  · rw [hunits]
    exact hcanonical.nodup
  · rw [hunits, ← hcanonical.hash, hhash]
  · rw [hunits, hcount]
  · rw [hunits]
    exact hne

/-! ## Contents of a range -/

theorem map_unitContent_backupUnits (units : List SourceUnit) :
    (sourceUnitsToBackupUnits units).map unitContent = units.map sourceContent := by
  rw [sourceUnitsToBackupUnits, List.map_map]
  rfl

/-- What the contents of a range determine of its units. -/
theorem RangeFacts.of_perm {range : SourceRangeReference} (h : RangeFacts sha256Hex source range)
    {units : List (ListedUnit TimeseriesId)}
    (hperm : (units.map unitContent).Perm
      ((sourceUnits sha256Hex source range).map sourceContent)) :
    (∀ unit ∈ units, rangeStartOf unit.key = range.rangeStart) ∧
      (units.map ListedUnit.key).Nodup ∧
      rangeSourceHash sha256Hex (sortUnits units) = range.sourceRangeHash ∧
      lengthOf (sortUnits units) = range.unitCount := by
  have hsorted : ((sortUnits units).map unitContent).Perm
      ((sourceUnits sha256Hex source range).map sourceContent) :=
    ((sortBy_perm units).map _).trans hperm
  refine ⟨fun unit hunit ↦ ?_, ?_, ?_, ?_⟩
  · obtain ⟨v, hv, hcontent⟩ := List.mem_map.mp (hperm.mem_iff.mp (List.mem_map_of_mem hunit))
    rw [← h.inside v hv, show v.timeseriesId = unit.key from
      Subtype.ext (congrArg Prod.fst hcontent)]
  · have hids := hperm.map Prod.fst
    rw [List.map_map, List.map_map] at hids
    refine List.Nodup.of_map Subtype.val ?_
    rw [List.map_map]
    refine hids.nodup_iff.mpr ?_
    rw [show Prod.fst ∘ sourceContent = Subtype.val ∘ SourceUnit.timeseriesId from rfl,
      ← List.map_map]
    exact h.nodup.map Subtype.val_injective
  · rw [rangeSourceHash_eq hsorted h.nodup, h.hash]
  · have hlength := hsorted.length_eq
    rw [List.length_map, List.length_map] at hlength
    rw [← h.count, lengthOf, Subtype.mk.injEq, hlength]
    rfl

/-- The shard that a normal run writes for a range. -/
def rangeShard (sha256Hex : String → String) (source : BindingFiles) (sourcePrefix : KeyPrefix)
    (range : SourceRangeReference) : RangeInventoryShard :=
  shardOf sha256Hex sourcePrefix.text range.rangeStart
    (sourceUnitsToBackupUnits (sourceUnits sha256Hex source range))

theorem hasShard_of_rangeShard {range : SourceRangeReference}
    (h : RangeFacts sha256Hex source range)
    (hfile : files (shardKey inventoryRootPrefix range.rangeStart) =
      some (rangeShard sha256Hex source sourcePrefix range).toJs.canonicalJson) :
    HasShard sha256Hex files (shardReference inventoryRootPrefix range) := by
  obtain ⟨hinside, hnodup, hhash, hcount⟩ :=
    h.of_perm (.of_eq (map_unitContent_backupUnits (sourceUnits sha256Hex source range)))
  exact ⟨_, hfile, validateShard_of range.isRange hinside hnodup, rfl, hhash, hcount⟩

/-! ## The normal run -/

/-- A turn of the normal run writes the shard of its range unless it takes the range over. -/
theorem runOn_inventoryRange (h : Consistent sha256Hex source sourcePrefix root)
    {range : SourceRangeReference} (hrange : range ∈ root.ranges) (files : InventoryFiles) :
    runOn (inventoryRange sha256Hex source sourcePrefix.text inventoryRootPrefix.text previous
        dryRun range) files =
      (.ok (shardReference inventoryRootPrefix range),
        write (fun range ↦ dryRun = true ∨ TakenOver previous inventoryRootPrefix range)
          (fun range ↦ shardKey inventoryRootPrefix range.rangeStart)
          (fun range ↦ some (rangeShard sha256Hex source sourcePrefix range).toJs.canonicalJson)
          files range) := by
  refine runOn_lift_bind_eq_ok_iff.mpr ⟨_, shardKey_text range.isRange, ?_⟩
  by_cases htaken : TakenOver previous inventoryRootPrefix range
  · obtain ⟨entry, hentry, hmatches⟩ := htaken
    have hfilter : (previousRange previous range.rangeStart).filter (sourceRangeMatchesBackupRange
        range · (shardKey inventoryRootPrefix range.rangeStart)) = some entry :=
      Option.filter_eq_some_iff.mpr ⟨hentry, hmatches⟩
    rw [hfilter, write, if_pos (Or.inr ⟨entry, hentry, hmatches⟩),
      ← eq_shardReference_of_matches hmatches]
    rfl
  · have hfilter : (previousRange previous range.rangeStart).filter (sourceRangeMatchesBackupRange
        range · (shardKey inventoryRootPrefix range.rangeStart)) = none := by
      rw [Option.filter_eq_none_iff]
      exact fun entry hentry hmatches ↦ htaken ⟨entry, hentry, hmatches⟩
    obtain ⟨raw, manifest, hraw, hvalid, hstart, hend, hhash, hunits⟩ := h.manifest hrange
    have hfacts := h.rangeFacts hrange
    obtain ⟨hinside, hnodup, hsource, hcount⟩ :=
      hfacts.of_perm (.of_eq (map_unitContent_backupUnits (sourceUnits sha256Hex source range)))
    rw [hfilter, hraw]
    refine runOn_lift_bind_eq_ok_iff.mpr ⟨manifest, hvalid, ?_⟩
    refine runOn_lift_bind_eq_ok_iff.mpr ⟨(), Except.refuseIf_neg ?_, ?_⟩
    · rw [hunits, hfacts.count]
      simp only [hstart, hend, hhash, ne_eq, not_true_eq_false, or_self, not_false_eq_true]
    refine runOn_lift_bind_eq_ok_iff.mpr ⟨rangeShard sha256Hex source sourcePrefix range, ?_, ?_⟩
    · rw [hstart, hend, hunits]
      exact buildShard_of range.isRange hinside hnodup
    refine runOn_lift_bind_eq_ok_iff.mpr ⟨(), Except.refuseIf_neg ?_, ?_⟩
    · rw [hhash, not_not]
      exact hsource
    refine runOn_bind (runOn_writeRemoteJson _ _) ?_
    rw [hunits, hfacts.count, hhash, write]
    simp only [htaken, or_false]
    rfl

/-! ## The groups of the full scan -/

theorem exists_mapM_normalizeTimeseriesId {l : List (ListedUnit ℕ)}
    (h : ∀ unit ∈ l, 0 < unit.key ∧ (unit.key : ℤ) ≤ maxSafeInteger) :
    ∃ units, l.mapM normalizeTimeseriesId = .ok units ∧
      units.map unitContent = l.map listedContent := by
  obtain ⟨units, hunits⟩ := (Except.exists_mapM_eq_ok_iff normalizeTimeseriesId l).mpr
    fun unit hunit ↦ ⟨_, dif_pos (h unit hunit)⟩
  refine ⟨units, hunits, ?_⟩
  have hrel := (Except.mapM_eq_ok_iff _ _ _).mp hunits
  clear h hunits
  induction hrel with
  | nil => rfl
  | @cons unit normalized _ _ hunit _ ih =>
    rw [List.map_cons, List.map_cons, ih]
    rw [normalizeTimeseriesId] at hunit
    split at hunit
    · rw [← Except.ok.inj hunit]
      rfl
    · cases hunit

theorem flatMap_ite_eq {α β : Type} (p : α → Bool) (f : α → List β) (l : List α) :
    (l.flatMap fun a ↦ if p a = true then f a else []) = (l.filter p).flatMap f := by
  induction l with
  | nil => rfl
  | cons a rest ih =>
    rw [List.flatMap_cons, ih]
    by_cases hp : p a = true
    · rw [if_pos hp, List.filter_cons_of_pos hp, List.flatMap_cons]
    · rw [if_neg hp, List.filter_cons_of_neg hp, List.nil_append]

/-- Of all units, those of a range are the ones its manifest lists. -/
theorem Consistent.filter_units (h : Consistent sha256Hex source sourcePrefix root)
    {range : SourceRangeReference} (hrange : range ∈ root.ranges) :
    (root.ranges.flatMap (sourceUnits sha256Hex source)).filter
        (fun unit ↦ rangeStartOf unit.timeseriesId = range.rangeStart) =
      sourceUnits sha256Hex source range := by
  have hpart : ∀ other ∈ root.ranges, (sourceUnits sha256Hex source other).filter
      (fun unit ↦ rangeStartOf unit.timeseriesId = range.rangeStart) =
        if decide (other.rangeStart = range.rangeStart) = true then
          sourceUnits sha256Hex source other else [] := by
    intro other hother
    have hinside := (h.rangeFacts hother).inside
    split
    · rename_i hsame
      exact List.filter_eq_self.mpr fun unit hunit ↦
        decide_eq_true ((hinside unit hunit).trans (of_decide_eq_true hsame))
    · rename_i hother'
      refine List.filter_eq_nil_iff.mpr fun unit hunit hsame ↦ hother' ?_
      exact decide_eq_true ((hinside unit hunit).symm.trans (of_decide_eq_true hsame))
  have hpick : root.ranges.filter (fun other ↦ other.rangeStart = range.rangeStart) = [range] :=
    @filter_eq_singleton _ _ SourceRangeReference.rangeStart _ _ _
      (h.root_found.canonical.sorted.imp fun hlt ↦ hlt.ne) hrange fun _ ↦ decide_eq_true_iff
  rw [List.filter_flatMap, List.flatMap_congr hpart,
    flatMap_ite_eq (fun other : SourceRangeReference ↦
      decide (other.rangeStart = range.rangeStart)), hpick, List.flatMap_singleton]

/-- What the full scan lists, read with identifiers, and how its groups relate to the root. -/
theorem Consistent.groups (h : Consistent sha256Hex source sourcePrefix root) :
    ∃ bindings units, physicalBindings sha256Hex source sourcePrefix.text = .ok bindings ∧
      (sortBy (fun left right ↦ compare left.key right.key) bindings).mapM normalizeTimeseriesId =
        .ok units ∧
      (OrderedMap.groupBy (fun unit ↦ rangeStartOf unit.key) units).size = root.ranges.length ∧
      (∀ range ∈ root.ranges, range.rangeStart ∈
        (OrderedMap.groupBy (fun unit ↦ rangeStartOf unit.key) units).keys) ∧
      ∀ group ∈ (OrderedMap.groupBy (fun unit ↦ rangeStartOf unit.key) units).entries,
        ∃ range ∈ root.ranges, range.rangeStart = group.1 ∧
          (group.2.map unitContent).Perm
            ((sourceUnits sha256Hex source range).map sourceContent) := by
  obtain ⟨bindings, hbindings, hphysical⟩ := h.physical
  have hsorted := ((@sortBy_perm _ (fun left right : ListedUnit ℕ ↦ compare left.key right.key)
    bindings).map listedContent).trans hphysical
  obtain ⟨units, hunits, hcontents⟩ := exists_mapM_normalizeTimeseriesId
    (l := sortBy (fun left right ↦ compare left.key right.key) bindings) fun unit hunit ↦ by
      obtain ⟨v, -, hv⟩ := List.mem_map.mp (hsorted.mem_iff.mp (List.mem_map_of_mem hunit))
      rw [show unit.key = v.timeseriesId.1 from (congrArg Prod.fst hv).symm]
      exact v.timeseriesId.2
  rw [← hcontents] at hsorted
  have hfilter : ∀ k : ℕ, ((units.filter fun unit ↦ rangeStartOf unit.key = k).map unitContent).Perm
      (((root.ranges.flatMap (sourceUnits sha256Hex source)).filter
        fun unit ↦ rangeStartOf unit.timeseriesId = k).map sourceContent) := by
    intro k
    have hperm := hsorted.filter fun content ↦ decide (content.1 / rangeSize * rangeSize = k)
    rw [List.filter_map, List.filter_map] at hperm
    exact hperm
  have hmem : ∀ k, k ∈ (OrderedMap.groupBy (fun unit ↦ rangeStartOf unit.key) units).keys ↔
      k ∈ root.ranges.map SourceRangeReference.rangeStart := by
    intro k
    rw [OrderedMap.mem_keys_groupBy, List.mem_map]
    constructor
    · rintro ⟨unit, hunit, rfl⟩
      obtain ⟨v, hv, hcontent⟩ := List.mem_map.mp (hsorted.mem_iff.mp (List.mem_map_of_mem hunit))
      obtain ⟨range, hrange, hv⟩ := List.mem_flatMap.mp hv
      refine ⟨range, hrange, ?_⟩
      rw [← (h.rangeFacts hrange).inside v hv, show v.timeseriesId = unit.key from
        Subtype.ext (congrArg Prod.fst hcontent)]
    · rintro ⟨range, hrange, rfl⟩
      obtain ⟨v, hv⟩ := List.exists_mem_of_ne_nil _ (h.rangeFacts hrange).nonempty
      obtain ⟨unit, hunit, hcontent⟩ := List.mem_map.mp (hsorted.mem_iff.mpr
        (List.mem_map_of_mem (List.mem_flatMap.mpr ⟨range, hrange, hv⟩)))
      refine ⟨unit, hunit, ?_⟩
      rw [← (h.rangeFacts hrange).inside v hv, show unit.key = v.timeseriesId from
        Subtype.ext (congrArg Prod.fst hcontent)]
  refine ⟨bindings, units, hbindings, hunits, ?_, fun range hrange ↦
    (hmem _).mpr (List.mem_map_of_mem hrange), fun group hgroup ↦ ?_⟩
  · have hnodup := h.root_found.canonical.nodup
    have hkeys : (OrderedMap.groupBy (fun unit : ListedUnit TimeseriesId ↦ rangeStartOf unit.key)
        units).keys.Nodup := OrderedMap.nodup_keys _
    have hlength := ((List.perm_ext_iff_of_nodup hkeys hnodup).mpr hmem).length_eq
    rw [OrderedMap.keys, List.length_map, List.length_map] at hlength
    exact hlength
  · obtain ⟨k, list⟩ := group
    have hlist := (OrderedMap.get?_eq_some_iff _).mpr hgroup
    rw [OrderedMap.get?_groupBy] at hlist
    split at hlist
    · cases hlist
    · rename_i hne
      obtain ⟨unit, hunit⟩ := List.exists_mem_of_ne_nil _ hne
      obtain ⟨hmem, hstart⟩ := List.mem_filter.mp hunit
      obtain ⟨v, hv, hcontent⟩ := List.mem_map.mp (hsorted.mem_iff.mp (List.mem_map_of_mem hmem))
      obtain ⟨range, hrange, hv⟩ := List.mem_flatMap.mp hv
      have hid : v.timeseriesId = unit.key := Subtype.ext (congrArg Prod.fst hcontent)
      have hk : range.rangeStart = k := by
        rw [← (h.rangeFacts hrange).inside v hv, hid, of_decide_eq_true hstart]
      refine ⟨range, hrange, hk, ?_⟩
      rw [← Option.some.inj hlist]
      have hperm := hfilter k
      rw [← hk, h.filter_units hrange] at hperm
      rw [← hk]
      exact hperm

end Consistency

end UkAqOps.Backup

import UkAqOps.Backup.BindingInventory

/-!
# Agreement of the normal run with the full scan

Every reference that a run returns is the reference of some root of the source under some prefixes,
which lists the ranges of that root and nothing of the files. The full scan of a hierarchy that
agrees with the binding files returns the reference of its root under the prefixes of the scan. A
normal run returns the same one, except that the previous reference is returned as it is when its
root has not changed, also when it names the shards of another inventory. What it takes over it does
not write, so that there the shards must still stand.
-/

namespace UkAqOps.Backup

open Sorting BindingSource Stateful

/-! ## References -/

section References

variable (sha256Hex : String → String)

/-- The key of the shard of a range. -/
def shardKey (inventoryRootPrefix : KeyPrefix) (rangeStart : ℕ) : String :=
  inventoryRootPrefix.text ++
    fileSuffix "timeseries_binding" (rangeName rangeStart (rangeStart + rangeSize - 1))

/-- The key of the root over the shards. -/
def inventoryRootKeyOf (inventoryRootPrefix : KeyPrefix) : String :=
  inventoryRootPrefix.text ++ fileSuffix "timeseries_binding" "root"

/-- The key of the root of the source. -/
def sourceRootKeyOf (sourcePrefix : KeyPrefix) : String :=
  sourcePrefix.text ++ fileSuffix "_manifests" "root"

/-- What the root lists of a range of the source. -/
def shardReference (inventoryRootPrefix : KeyPrefix) (range : SourceRangeReference) :
    RangeReference :=
  ⟨range.rangeStart, range.isRange, range.sourceRangeHash,
    shardKey inventoryRootPrefix range.rangeStart, range.unitCount⟩

/-- The root over the shards of a source. -/
def rootInventoryOf (sourcePrefix inventoryRootPrefix : KeyPrefix) (root : SourceRootManifest) :
    BindingRootInventory :=
  let ranges := root.ranges.map (shardReference inventoryRootPrefix)
  ⟨sourcePrefix.text, rootSourceHash sha256Hex ranges, ranges⟩

/-- The reference to the root over the shards of a source. -/
def referenceOf (sourcePrefix inventoryRootPrefix : KeyPrefix) (root : SourceRootManifest) :
    BindingRootReference :=
  let bindingRoot := rootInventoryOf sha256Hex sourcePrefix inventoryRootPrefix root
  ⟨inventoryRootKeyOf inventoryRootPrefix, sha256Hex bindingRoot.toJs.canonicalJson,
    bindingRoot.sourceRootHash, some (sourceRootKeyOf sourcePrefix), some root.sourceRootHash,
    bindingRoot.ranges⟩

variable {sha256Hex} {sourcePrefix inventoryRootPrefix : KeyPrefix} {root : SourceRootManifest}

theorem sourceRootKey_text :
    timeseriesBindingSourceRootKey sourcePrefix.text = sourceRootKeyOf sourcePrefix := by
  rw [timeseriesBindingSourceRootKey, sourcePrefix.normalizePrefix_text, sourceRootKeyOf]

theorem inventoryRootKey_text :
    timeseriesBindingInventoryRootKey inventoryRootPrefix.text =
      .ok (inventoryRootKeyOf inventoryRootPrefix) := by
  rw [timeseriesBindingInventoryRootKey, inventoryRootPrefix.normalizeRelativePath_text]
  rfl

theorem shardKey_text {rangeStart : ℕ} (h : IsRange rangeStart) :
    timeseriesBindingRangeInventoryShardKey inventoryRootPrefix.text rangeStart
      (rangeStart + rangeSize - 1) = .ok (shardKey inventoryRootPrefix rangeStart) := by
  rw [timeseriesBindingRangeInventoryShardKey, inventoryRootPrefix.normalizeRelativePath_text,
    Except.ok_bind, timeseriesBindingRangeKey, normalizeRangeBounds,
    Except.refuseIf_neg (not_not.mpr ⟨h, rfl⟩)]
  rfl

theorem shardKey_injective (inventoryRootPrefix : KeyPrefix) :
    Function.Injective (shardKey inventoryRootPrefix) := fun _ _ h ↦
  rangeName_injective (fileSuffix_injective ((String.append_right_inj _).mp h))

theorem nodup_shardKeys {α : Type} (inventoryRootPrefix : KeyPrefix) (f : α → ℕ) {l : List α}
    (h : (l.map f).Nodup) : (l.map fun a ↦ shardKey inventoryRootPrefix (f a)).Nodup := by
  have hkeys := h.map (shardKey_injective inventoryRootPrefix)
  rw [List.map_map] at hkeys
  exact hkeys

theorem shardKey_ne_rootKey (inventoryRootPrefix : KeyPrefix) (rangeStart : ℕ) :
    shardKey inventoryRootPrefix rangeStart ≠ inventoryRootKeyOf inventoryRootPrefix := by
  intro h
  have hname := fileSuffix_injective ((String.append_right_inj _).mp h)
  have hlist := congrArg (fun s : String ↦ s.toList.take 2) hname
  simp only [rangeName, String.toList_append, List.append_assoc] at hlist
  cases hlist

theorem sourceRootKeyOf_injective : Function.Injective sourceRootKeyOf := fun _ _ h ↦
  KeyPrefix.ext ((String.append_left_inj _).mp h)

theorem inventoryRootKeyOf_injective : Function.Injective inventoryRootKeyOf := fun _ _ h ↦
  KeyPrefix.ext ((String.append_left_inj _).mp h)

theorem normalize_shardKey (rangeStart : ℕ) (label : String) :
    normalizeRelativePath (shardKey inventoryRootPrefix rangeStart) label =
      .ok (shardKey inventoryRootPrefix rangeStart) :=
  inventoryRootPrefix.normalizeRelativePath_append (by decide) (isName_rangeName _ _) label

theorem mapM_normalizeRange (ranges : List SourceRangeReference) :
    (ranges.map (shardReference inventoryRootPrefix)).mapM normalizeRange =
      .ok (ranges.map (shardReference inventoryRootPrefix)) := by
  rw [Except.mapM_eq_ok_iff, List.forall₂_same]
  intro range hrange
  obtain ⟨sourceRange, -, rfl⟩ := List.mem_map.mp hrange
  rw [normalizeRange, shardReference, normalize_shardKey]
  rfl

theorem sortRanges_shardReferences (hroot : root.Canonical sha256Hex) :
    sortRanges (root.ranges.map (shardReference inventoryRootPrefix)) =
      root.ranges.map (shardReference inventoryRootPrefix) := by
  refine List.Pairwise.insertionSort_eq (List.pairwise_map.mpr ?_)
  exact hroot.sorted.imp fun hlt ↦ Nat.isLE_compare.mpr hlt.le

/-- A reference that was returned is valid and is left as it is. -/
theorem validate_referenceOf (hroot : root.Canonical sha256Hex) :
    validateTimeseriesBindingRootReference
        (referenceOf sha256Hex sourcePrefix inventoryRootPrefix root) =
      .ok (referenceOf sha256Hex sourcePrefix inventoryRootPrefix root) := by
  have hinventory : normalizeRelativePath (inventoryRootKeyOf inventoryRootPrefix) "relative path" =
      .ok (inventoryRootKeyOf inventoryRootPrefix) :=
    inventoryRootPrefix.normalizeRelativePath_append (by decide) (by decide) _
  have hsource : normalizeRelativePath (sourceRootKeyOf sourcePrefix) "relative path" =
      .ok (sourceRootKeyOf sourcePrefix) :=
    sourcePrefix.normalizeRelativePath_append (by decide) (by decide) _
  have hne : sourceRootKeyOf sourcePrefix ≠ "" := by
    intro hempty
    have hlist := congrArg String.toList hempty
    rw [sourceRootKeyOf, String.toList_append] at hlist
    exact sourcePrefix.normal.accepted (Or.inl (List.append_eq_nil_iff.mp hlist).1)
  simp only [validateTimeseriesBindingRootReference, referenceOf, rootInventoryOf, hinventory,
    mapM_normalizeRange, Except.ok_bind, Option.filter_some, hne, ne_eq, not_false_eq_true,
    decide_true, if_true, Option.mapM_some, hsource, sortRanges_shardReferences hroot]
  rfl

end References

/-! ## Writing -/

section Runs

variable {sha256Hex : String → String} {sourcePrefix inventoryRootPrefix : KeyPrefix}
variable {root : SourceRootManifest} {dryRun : Bool} {files files' : InventoryFiles}

theorem runOn_writeRemoteJson (relativePath : String) (payload : JsValue) :
    runOn (writeRemoteJson sha256Hex dryRun relativePath payload) files =
      (.ok (sha256Hex payload.canonicalJson),
        if dryRun = true then files
        else Function.update files relativePath (some payload.canonicalJson)) := by
  have hrun : runOn (writeRemoteJson sha256Hex dryRun relativePath payload) files =
      (.ok (sha256Hex payload.canonicalJson),
        if files relativePath ≠ some payload.canonicalJson ∧ dryRun = false then
          Function.update files relativePath (some payload.canonicalJson)
        else files) := by
    have hget : runOn (get : InventoryRun InventoryFiles) files = (.ok files, files) := rfl
    by_cases hchanged : files relativePath ≠ some payload.canonicalJson ∧ dryRun = false
    · rw [if_pos hchanged]
      refine runOn_bind hget ?_
      simp only [if_pos hchanged]
      rfl
    · rw [if_neg hchanged]
      refine runOn_bind hget ?_
      simp only [if_neg hchanged]
      rfl
  rw [hrun]
  cases dryRun
  · by_cases hsame : files relativePath = some payload.canonicalJson
    · rw [if_neg fun h ↦ h.1 hsame, if_neg Bool.false_ne_true, ← hsame, Function.update_eq_self]
    · rw [if_pos ⟨hsame, rfl⟩, if_neg Bool.false_ne_true]
  · rw [if_neg fun h ↦ Bool.false_ne_true h.2.symm, if_pos rfl]

/-- The files once the root over the shards of a source is written. -/
def withRoot (sha256Hex : String → String) (sourcePrefix inventoryRootPrefix : KeyPrefix)
    (root : SourceRootManifest) (dryRun : Bool) (files : InventoryFiles) : InventoryFiles :=
  if dryRun = true then files
  else Function.update files (inventoryRootKeyOf inventoryRootPrefix)
    (some (rootInventoryOf sha256Hex sourcePrefix inventoryRootPrefix root).toJs.canonicalJson)

theorem withRoot_shardKey (rangeStart : ℕ) :
    withRoot sha256Hex sourcePrefix inventoryRootPrefix root dryRun files
        (shardKey inventoryRootPrefix rangeStart) =
      files (shardKey inventoryRootPrefix rangeStart) := by
  rw [withRoot]
  split
  · rfl
  · exact Function.update_of_ne (shardKey_ne_rootKey inventoryRootPrefix rangeStart) _ _

/-- Publishing the root over the shards of a source. -/
theorem runOn_publishRoot (hroot : root.Canonical sha256Hex) :
    runOn (publishRoot sha256Hex dryRun sourcePrefix.text (inventoryRootKeyOf inventoryRootPrefix)
        (sourceRootKeyOf sourcePrefix) root.sourceRootHash
        (root.ranges.map (shardReference inventoryRootPrefix))) files =
      (.ok (referenceOf sha256Hex sourcePrefix inventoryRootPrefix root),
        withRoot sha256Hex sourcePrefix inventoryRootPrefix root dryRun files) := by
  have hbuild : buildTimeseriesBindingRootInventory sha256Hex sourcePrefix.text
      (root.ranges.map (shardReference inventoryRootPrefix)) =
        .ok (rootInventoryOf sha256Hex sourcePrefix inventoryRootPrefix root) := by
    rw [buildTimeseriesBindingRootInventory, mapM_normalizeRange, Except.ok_bind,
      sourcePrefix.normalizeRelativePath_text, sortRanges_shardReferences hroot]
    rfl
  rw [publishRoot, hbuild]
  exact runOn_bind rfl (runOn_bind (runOn_writeRemoteJson _ _) rfl)

end Runs

/-! ## Shards -/

section Shards

variable (sha256Hex : String → String)

/-- The file of a range holds a valid shard with the hash and the number of units that the root
lists. -/
def HasShard (files : InventoryFiles) (range : RangeReference) : Prop :=
  ∃ shard : RangeInventoryShard, files range.inventoryShardKey = some shard.toJs.canonicalJson ∧
    validateTimeseriesBindingRangeInventoryShard sha256Hex shard = .ok shard ∧
    shard.rangeStart = range.rangeStart ∧ shard.sourceRangeHash = range.sourceRangeHash ∧
    lengthOf shard.units = range.unitCount

/-- What of a binding its hash covers, in any of its forms. -/
abbrev Content := ℕ × String × String × Option Size

def listedContent (unit : ListedUnit ℕ) : Content :=
  (unit.key, unit.relativePath, unit.hash, unit.size)

def unitContent (unit : ListedUnit TimeseriesId) : Content :=
  (unit.key.1, unit.relativePath, unit.hash, unit.size)

def sourceContent (unit : SourceUnit) : Content :=
  (unit.timeseriesId.1, unit.relativePath, unit.sha256, some unit.size)

/-- The shard of the bindings of a range. -/
def shardOf (sourcePrefix : String) (rangeStart : ℕ) (units : List (ListedUnit TimeseriesId)) :
    RangeInventoryShard :=
  ⟨rangeStart, rangeStart + rangeSize - 1, sourcePrefix,
    rangeSourceHash sha256Hex (sortUnits units), sortUnits units⟩

def contentJs (content : Content) : JsValue :=
  .obj [("timeseries_id", .int content.1), ("relative_path", .str content.2.1),
    ("hash", .str content.2.2.1), ("size", sizeJs content.2.2.2)]

variable {sha256Hex} {units : List (ListedUnit TimeseriesId)} {sourceUnits : List SourceUnit}

theorem transCmp_key : Std.TransCmp fun left right : ListedUnit TimeseriesId ↦
    compare left.key.1 right.key.1 :=
  transCmp_on (inferInstanceAs (Std.TransCmp (compare : ℕ → ℕ → Ordering)))
    fun unit : ListedUnit TimeseriesId ↦ unit.key.1

theorem sortUnits_idem (units : List (ListedUnit TimeseriesId)) :
    sortUnits (sortUnits units) = sortUnits units := @sortBy_sortBy _ _ transCmp_key units

/-- Sorted by their identifiers, two lists of the same contents are the same contents. -/
theorem map_sortUnits_eq (hperm : (units.map unitContent).Perm (sourceUnits.map sourceContent))
    (hnodup : (sourceUnits.map SourceUnit.timeseriesId).Nodup) :
    (sortUnits units).map unitContent = (BindingSource.sortUnits sourceUnits).map sourceContent := by
  have htrans : Std.TransCmp fun left right : Content ↦ compare left.1 right.1 :=
    transCmp_on (inferInstanceAs (Std.TransCmp (compare : ℕ → ℕ → Ordering))) Prod.fst
  have hunits : sortBy (fun left right : Content ↦ compare left.1 right.1)
      (units.map unitContent) = (sortUnits units).map unitContent :=
    sortBy_map unitContent (fun _ _ ↦ rfl) units
  have hsource : sortBy (fun left right : Content ↦ compare left.1 right.1)
      (sourceUnits.map sourceContent) = (BindingSource.sortUnits sourceUnits).map sourceContent :=
    sortBy_map sourceContent (fun _ _ ↦ rfl) sourceUnits
  rw [← hunits, ← hsource]
  refine Sorting.sortBy_eq_of_perm hperm fun a ha b hb heq ↦ ?_
  obtain ⟨u, hu, rfl⟩ := List.mem_map.mp (hperm.mem_iff.mp ha)
  obtain ⟨v, hv, rfl⟩ := List.mem_map.mp (hperm.mem_iff.mp hb)
  have hid : u.timeseriesId = v.timeseriesId := Subtype.ext (compare_eq_iff_eq.mp heq)
  rw [List.inj_on_of_nodup_map hnodup hu hv hid]

/-- The two sides hash a range alike. -/
theorem rangeSourceHash_eq (hperm : (units.map unitContent).Perm (sourceUnits.map sourceContent))
    (hnodup : (sourceUnits.map SourceUnit.timeseriesId).Nodup) :
    rangeSourceHash sha256Hex units = BindingSource.rangeSourceHash sha256Hex sourceUnits := by
  have hunits : (sortUnits units).map hashUnit =
      ((sortUnits units).map unitContent).map contentJs := by
    rw [List.map_map]
    rfl
  have hsource : (BindingSource.sortUnits sourceUnits).map BindingSource.hashUnit =
      ((BindingSource.sortUnits sourceUnits).map sourceContent).map contentJs := by
    rw [List.map_map]
    rfl
  rw [rangeSourceHash, BindingSource.rangeSourceHash, hunits, hsource,
    map_sortUnits_eq hperm hnodup]

theorem exists_checkUnits {rangeStart rangeEnd : ℕ} {seen : List TimeseriesId}
    (hinside : ∀ unit ∈ units, rangeStart ≤ unit.key.1 ∧ unit.key.1 ≤ rangeEnd ∧ unit.key ∉ seen)
    (hnodup : (units.map ListedUnit.key).Nodup) :
    ∃ seen', units.foldlM (checkUnit rangeStart rangeEnd) seen = .ok seen' := by
  induction units generalizing seen with
  | nil => exact ⟨seen, rfl⟩
  | cons unit rest ih =>
    obtain ⟨⟨hlow, hhigh, hnew⟩, hrest⟩ := List.forall_mem_cons.mp hinside
    rw [List.map_cons, List.nodup_cons] at hnodup
    have hstep : checkUnit rangeStart rangeEnd seen unit = .ok (unit.key :: seen) := by
      rw [checkUnit, Except.refuseIf_neg (not_or.mpr ⟨hlow.not_gt, hhigh.not_gt⟩),
        Except.refuseIf_neg hnew]
      rfl
    rw [List.foldlM_cons, hstep]
    refine ih (fun u hu ↦ ⟨(hrest u hu).1, (hrest u hu).2.1, fun hmem ↦ ?_⟩) hnodup.2
    rcases List.mem_cons.mp hmem with heq | hmem
    · exact hnodup.1 (heq ▸ List.mem_map_of_mem hu)
    · exact (hrest u hu).2.2 hmem

/-- A shard is built from the bindings of a range, each of them listed once. -/
theorem buildShard_of {sourcePrefix : String} {rangeStart : ℕ} (hrange : IsRange rangeStart)
    (hinside : ∀ unit ∈ units, rangeStartOf unit.key = rangeStart)
    (hnodup : (units.map ListedUnit.key).Nodup) :
    buildTimeseriesBindingRangeInventoryShard sha256Hex sourcePrefix rangeStart
        (rangeStart + rangeSize - 1) units = .ok (shardOf sha256Hex sourcePrefix rangeStart units) := by
  have hsorted : ((sortUnits units).map ListedUnit.key).Nodup :=
    ((sortBy_perm units).map _).nodup_iff.mpr hnodup
  obtain ⟨seen, hseen⟩ := @exists_checkUnits (sortUnits units) rangeStart
    (rangeStart + rangeSize - 1) [] (fun unit hunit ↦ by
      have hstart := hinside unit (mem_sortBy.mp hunit)
      simp only [rangeStartOf, rangeSize] at hstart ⊢
      exact ⟨by omega, by omega, List.not_mem_nil⟩) hsorted
  rw [buildTimeseriesBindingRangeInventoryShard, normalizeRangeBounds,
    Except.refuseIf_neg (not_not.mpr ⟨hrange, rfl⟩), Except.ok_bind]
  simp only [hseen]
  rfl

/-- A shard built so is valid as it is. -/
theorem validateShard_of {sourcePrefix : String} {rangeStart : ℕ} (hrange : IsRange rangeStart)
    (hinside : ∀ unit ∈ units, rangeStartOf unit.key = rangeStart)
    (hnodup : (units.map ListedUnit.key).Nodup) :
    validateTimeseriesBindingRangeInventoryShard sha256Hex
        (shardOf sha256Hex sourcePrefix rangeStart units) =
      .ok (shardOf sha256Hex sourcePrefix rangeStart units) := by
  have hbuild := @buildShard_of sha256Hex (sortUnits units) sourcePrefix rangeStart hrange
    (fun unit hunit ↦ hinside unit (mem_sortBy.mp hunit))
    (((sortBy_perm units).map _).nodup_iff.mpr hnodup)
  have hsame : shardOf sha256Hex sourcePrefix rangeStart (sortUnits units) =
      shardOf sha256Hex sourcePrefix rangeStart units := by
    rw [shardOf, sortUnits_idem, shardOf]
  rw [hsame] at hbuild
  exact Except.bind_eq_ok_iff.mpr ⟨_, hbuild, Except.bind_eq_ok_iff.mpr ⟨(),
    Except.refuseIf_neg (not_not.mpr rfl), rfl⟩⟩

end Shards

/-! ## Results of a run -/

section Results

variable {sha256Hex : String → String} {sourcePrefix inventoryRootPrefix : KeyPrefix}
variable {source : BindingFiles} {previous : Option BindingRootReference} {dryRun : Bool}
variable {files files' : InventoryFiles} {reference : BindingRootReference}

/-- The valid root that the source stores for a prefix. -/
def RootOf (sha256Hex : String → String) (source : BindingFiles) (sourcePrefix : KeyPrefix)
    (root : SourceRootManifest) : Prop :=
  ∃ raw, source.rootManifest (sourceRootKeyOf sourcePrefix) = some raw ∧
    validateTimeseriesBindingSourceRootManifest sha256Hex raw = .ok root

theorem RootOf.canonical {root : SourceRootManifest} (h : RootOf sha256Hex source sourcePrefix root) :
    root.Canonical sha256Hex := by
  obtain ⟨_, -, hroot⟩ := h
  exact canonical_of_validateRoot hroot

/-- What a turn takes over from the previous reference. -/
def TakenOver (previous : Option BindingRootReference) (inventoryRootPrefix : KeyPrefix)
    (range : SourceRangeReference) : Prop :=
  ∃ entry ∈ previousRange previous range.rangeStart,
    sourceRangeMatchesBackupRange range entry (shardKey inventoryRootPrefix range.rangeStart) = true

instance (previous : Option BindingRootReference) (inventoryRootPrefix : KeyPrefix) :
    DecidablePred (TakenOver previous inventoryRootPrefix) := fun range ↦
  inferInstanceAs (Decidable (∃ _ ∈ previousRange previous range.rangeStart, _))

theorem eq_shardReference_of_matches {range : SourceRangeReference} {entry : RangeReference}
    (h : sourceRangeMatchesBackupRange range entry
      (shardKey inventoryRootPrefix range.rangeStart) = true) :
    entry = shardReference inventoryRootPrefix range := by
  obtain ⟨hstart, -, hhash, hcount, hkey⟩ := of_decide_eq_true h
  rcases entry with ⟨start, hrange, hash, key, count⟩
  obtain rfl : start = range.rangeStart := hstart
  obtain rfl : hash = range.sourceRangeHash := hhash
  obtain rfl : count = range.unitCount := hcount
  obtain rfl : key = shardKey inventoryRootPrefix range.rangeStart := hkey
  rfl

/-- Whatever a turn reads, it lists the range as the root of the source does. -/
theorem eq_of_inventoryRange {range : SourceRangeReference} {entry : RangeReference}
    (h : runOn (inventoryRange sha256Hex source sourcePrefix.text inventoryRootPrefix.text previous
      dryRun range) files = (.ok entry, files')) :
    entry = shardReference inventoryRootPrefix range := by
  obtain ⟨key, hkey, h⟩ := runOn_lift_bind_eq_ok_iff.mp h
  rw [SourceRangeReference.rangeEnd, shardKey_text range.isRange, Except.ok.injEq] at hkey
  subst hkey
  split at h
  · rename_i taken htaken
    rw [runOn_pure, Prod.mk.injEq, Except.ok.injEq] at h
    rw [← h.1]
    exact eq_shardReference_of_matches (Option.filter_eq_some_iff.mp htaken).2
  · split at h
    · rw [runOn_throw] at h
      cases h
    · obtain ⟨sourceRange, -, h⟩ := runOn_lift_bind_eq_ok_iff.mp h
      obtain ⟨_, hagree, h⟩ := runOn_lift_bind_eq_ok_iff.mp h
      rw [Except.refuseIf_eq_ok_iff] at hagree
      push Not at hagree
      obtain ⟨shard, -, h⟩ := runOn_lift_bind_eq_ok_iff.mp h
      obtain ⟨_, -, h⟩ := runOn_lift_bind_eq_ok_iff.mp h
      obtain ⟨_, _, -, h⟩ := runOn_bind_eq_ok_iff.mp h
      rw [runOn_pure, Prod.mk.injEq, Except.ok.injEq] at h
      rw [← h.1, shardReference, hagree.2.2.1, hagree.2.2.2]

/-- The list of a loop whose turns list the ranges as the root does. -/
theorem map_of_forall₂ {α : Type} {f : α → RangeReference} {l : List α} {entries : List RangeReference}
    (h : List.Forall₂ (fun a entry ↦ entry = f a) l entries) : entries = l.map f := by
  induction h with
  | nil => rfl
  | cons hhead _ ih => rw [hhead, ih, List.map_cons]

/-- A normal run returns the previous reference when it is still that of the root, and the
reference of the root of the source otherwise. -/
theorem eq_of_buildNormalInventory
    (h : runOn (buildNormalInventory sha256Hex source sourcePrefix.text inventoryRootPrefix.text
      previous dryRun) files = (.ok reference, files')) :
    previous = some reference ∨ ∃ root, RootOf sha256Hex source sourcePrefix root ∧
      reference = referenceOf sha256Hex sourcePrefix inventoryRootPrefix root := by
  rw [buildNormalInventory] at h
  simp only [sourceRootKey_text] at h
  split at h
  · rw [runOn_throw] at h
    cases h
  · rename_i raw hraw
    obtain ⟨root, hroot, h⟩ := runOn_lift_bind_eq_ok_iff.mp h
    obtain ⟨_, -, h⟩ := runOn_lift_bind_eq_ok_iff.mp h
    obtain ⟨key, hkey, h⟩ := runOn_lift_bind_eq_ok_iff.mp h
    rw [inventoryRootKey_text, Except.ok.injEq] at hkey
    subst hkey
    split at h
    · rename_i unchanged hunchanged
      rw [runOn_pure, Prod.mk.injEq, Except.ok.injEq] at h
      rw [← h.1]
      exact Or.inl (Option.filter_eq_some_iff.mp hunchanged).1
    · obtain ⟨ranges, t, hranges, h⟩ := runOn_bind_eq_ok_iff.mp h
      have hturns : List.Forall₂ (fun range entry ↦ entry = shardReference inventoryRootPrefix range)
          root.ranges ranges := by
        refine (forall₂_of_runOn_mapM hranges).imp fun range entry hturn ↦ ?_
        obtain ⟨_, _, hturn⟩ := hturn
        exact eq_of_inventoryRange hturn
      rw [map_of_forall₂ hturns, runOn_publishRoot (canonical_of_validateRoot hroot),
        Prod.mk.injEq, Except.ok.injEq] at h
      exact Or.inr ⟨root, ⟨raw, hraw, hroot⟩, h.1.symm⟩

/-- What a turn of the full scan lists is a range of the root. -/
theorem eq_of_scanRange {ranges : List SourceRangeReference}
    {group : ℕ × List (ListedUnit TimeseriesId)} {entry : RangeReference}
    (h : runOn (scanRange sha256Hex source sourcePrefix.text inventoryRootPrefix.text ranges dryRun
      group) files = (.ok entry, files')) :
    ∃ range ∈ ranges, range.rangeStart = group.1 ∧
      entry = shardReference inventoryRootPrefix range := by
  obtain ⟨shard, -, h⟩ := runOn_lift_bind_eq_ok_iff.mp h
  split at h
  · rw [runOn_throw] at h
    cases h
  · rename_i range hrange
    obtain ⟨hlast, hagree⟩ := Option.filter_eq_some_iff.mp hrange
    obtain ⟨hhash, hcount⟩ := of_decide_eq_true hagree
    obtain ⟨hmem, hstart⟩ := List.mem_filter.mp (List.mem_of_getLast? hlast)
    have hstart := of_decide_eq_true hstart
    obtain ⟨sourceRange, -, h⟩ := runOn_lift_bind_eq_ok_iff.mp h
    split at h
    · rw [runOn_throw] at h
      cases h
    · obtain ⟨_, -, h⟩ := runOn_lift_bind_eq_ok_iff.mp h
      obtain ⟨key, hkey, h⟩ := runOn_lift_bind_eq_ok_iff.mp h
      rw [← hstart, shardKey_text range.isRange, Except.ok.injEq] at hkey
      obtain ⟨_, _, -, h⟩ := runOn_bind_eq_ok_iff.mp h
      rw [runOn_pure, Prod.mk.injEq, Except.ok.injEq] at h
      refine ⟨range, hmem, hstart, ?_⟩
      rw [← h.1, shardReference, hhash, hcount, hkey]

/-- The ranges that the turns of a full scan list. -/
theorem exists_of_forall₂ {ranges : List SourceRangeReference} {entries : List RangeReference}
    {groups : List (ℕ × List (ListedUnit TimeseriesId))}
    (h : List.Forall₂ (fun group entry ↦ ∃ range ∈ ranges, range.rangeStart = group.1 ∧
      entry = shardReference inventoryRootPrefix range) groups entries) :
    ∃ picked : List SourceRangeReference, picked ⊆ ranges ∧
      picked.map SourceRangeReference.rangeStart = groups.map Prod.fst ∧
      entries = picked.map (shardReference inventoryRootPrefix) := by
  induction h with
  | nil => exact ⟨[], List.nil_subset _, rfl, rfl⟩
  | cons hhead _ ih =>
    obtain ⟨range, hmem, hstart, hentry⟩ := hhead
    obtain ⟨picked, hsub, hstarts, hentries⟩ := ih
    refine ⟨range :: picked, List.cons_subset.mpr ⟨hmem, hsub⟩, ?_, ?_⟩
    · rw [List.map_cons, List.map_cons, hstart, hstarts]
    · rw [List.map_cons, hentry, hentries]

/-- Among strictly sorted lists a sublist of the same length is the whole list. -/
theorem eq_of_subset_of_length {l l' : List SourceRangeReference}
    (hl : l.Pairwise fun a b ↦ a.rangeStart < b.rangeStart)
    (hl' : l'.Pairwise fun a b ↦ a.rangeStart < b.rangeStart) (hsub : l ⊆ l')
    (hlength : l.length = l'.length) : l = l' := by
  have hnodup : l.Nodup := hl.imp fun hlt heq ↦ hlt.ne (congrArg _ heq)
  have hperm := (List.subperm_of_subset hnodup hsub).perm_of_length_le hlength.ge
  exact hperm.eq_of_pairwise (fun a b _ _ hab hba ↦ absurd hba hab.asymm) hl hl'

theorem transCmp_fst {υ : Type} : Std.TransCmp fun left right : ℕ × υ ↦ compare left.1 right.1 :=
  transCmp_on (inferInstanceAs (Std.TransCmp (compare : ℕ → ℕ → Ordering))) Prod.fst

/-- The groups of a full scan are strictly in order of their ranges. -/
theorem pairwise_sorted_entries {υ : Type} (groups : OrderedMap ℕ υ) :
    (sortBy (fun left right ↦ compare left.1 right.1) groups.entries).Pairwise
      fun left right ↦ left.1 < right.1 := by
  have hlt := @pairwise_lt_sortBy _ _ transCmp_fst groups.entries
    ((List.pairwise_map.mp groups.nodup_keys).imp fun hne heq ↦ hne (compare_eq_iff_eq.mp heq))
  exact hlt.imp fun h ↦ compare_lt_iff_lt.mp h

/-- As many groups as the root has ranges list the ranges of the root. -/
theorem eq_of_scannedRanges {root : SourceRootManifest} (hroot : root.Canonical sha256Hex)
    {groups : OrderedMap ℕ (List (ListedUnit TimeseriesId))} {entries : List RangeReference}
    (hcount : groups.size = root.ranges.length)
    (h : runOn ((sortBy (fun left right ↦ compare left.1 right.1) groups.entries).mapM
      (scanRange sha256Hex source sourcePrefix.text inventoryRootPrefix.text root.ranges dryRun))
        files = (.ok entries, files')) :
    entries = root.ranges.map (shardReference inventoryRootPrefix) := by
  obtain ⟨picked, hsub, hstarts, rfl⟩ := exists_of_forall₂ ((forall₂_of_runOn_mapM h).imp
    fun group entry hturn ↦ by
      obtain ⟨_, _, hturn⟩ := hturn
      exact eq_of_scanRange hturn)
  have hsorted : picked.Pairwise fun a b ↦ a.rangeStart < b.rangeStart := by
    refine List.pairwise_map.mp ?_
    rw [hstarts]
    exact List.pairwise_map.mpr (pairwise_sorted_entries _)
  have hlength := congrArg List.length hstarts
  rw [List.length_map, List.length_map, (sortBy_perm _).length_eq, ← OrderedMap.size,
    hcount] at hlength
  rw [eq_of_subset_of_length hsorted hroot.sorted hsub hlength]

/-- A full scan returns the reference of the root of the source. -/
theorem eq_of_buildFullScanInventory
    (h : runOn (buildFullScanInventory sha256Hex source sourcePrefix.text inventoryRootPrefix.text
      dryRun) files = (.ok reference, files')) :
    ∃ root, RootOf sha256Hex source sourcePrefix root ∧
      reference = referenceOf sha256Hex sourcePrefix inventoryRootPrefix root := by
  rw [buildFullScanInventory] at h
  simp only [sourceRootKey_text] at h
  split at h
  · rw [runOn_throw] at h
    cases h
  · rename_i raw hraw
    obtain ⟨root, hroot, h⟩ := runOn_lift_bind_eq_ok_iff.mp h
    obtain ⟨bindings, -, h⟩ := runOn_lift_bind_eq_ok_iff.mp h
    obtain ⟨units, -, h⟩ := runOn_lift_bind_eq_ok_iff.mp h
    obtain ⟨_, hcount, h⟩ := runOn_lift_bind_eq_ok_iff.mp h
    obtain ⟨entries, t, hentries, h⟩ := runOn_bind_eq_ok_iff.mp h
    obtain ⟨key, hkey, h⟩ := runOn_lift_bind_eq_ok_iff.mp h
    rw [inventoryRootKey_text, Except.ok.injEq] at hkey
    subst hkey
    rw [Except.refuseIf_eq_ok_iff, not_not] at hcount
    have hcanonical := canonical_of_validateRoot hroot
    rw [eq_of_scannedRanges hcanonical hcount hentries, runOn_publishRoot hcanonical,
      Prod.mk.injEq, Except.ok.injEq] at h
    exact ⟨root, ⟨raw, hraw, hroot⟩, h.1.symm⟩

end Results

end UkAqOps.Backup

import UkAqOps.Backup.BindingConsistency

/-!
# Inventories after earlier runs

A normal run is given nothing or a reference that some earlier run returned, whatever the source and
the prefixes of that run were. On a hierarchy that agrees with the binding files it then returns what
the full scan returns, and leaves a shard behind each range of it, exactly if it does not return a
previous reference to another inventory and the shards that it takes over still stand. The latter
holds when it goes on from the run before it.
-/

namespace UkAqOps.Backup

open Sorting BindingSource Stateful

section History

variable (sha256Hex : String → String)

/-- The references that runs return, each given nothing or a reference that was returned before. -/
inductive Produced : BindingRootReference → Prop
  | run {source : BindingFiles} {sourcePrefix inventoryRootPrefix : KeyPrefix}
      {previous : Option BindingRootReference} {fullScan dryRun : Bool}
      {files files' : InventoryFiles} {reference : BindingRootReference}
      (hprevious : ∀ r, previous = some r → Produced r)
      (hrun : runOn (buildTimeseriesBindingInventory sha256Hex source sourcePrefix.text
        inventoryRootPrefix.text previous fullScan dryRun) files = (.ok reference, files')) :
      Produced reference

/-- The normal run returns what the full scan returns, and behind every range of it stands its
shard. -/
def AgreesWithFullScan (source : BindingFiles) (sourcePrefix inventoryRootPrefix : KeyPrefix)
    (previous : Option BindingRootReference) (dryRun : Bool) (files : InventoryFiles) : Prop :=
  ∃ reference files', runOn (buildTimeseriesBindingInventory sha256Hex source sourcePrefix.text
      inventoryRootPrefix.text previous false dryRun) files = (.ok reference, files') ∧
    (runOn (buildTimeseriesBindingInventory sha256Hex source sourcePrefix.text
      inventoryRootPrefix.text previous true dryRun) files).1 = .ok reference ∧
    ∀ range ∈ reference.ranges, HasShard sha256Hex files' range

/-- The previous reference is not returned as it is, or refers to the same inventory. -/
def SameInventory (sourcePrefix inventoryRootPrefix : KeyPrefix) (root : SourceRootManifest)
    (previous : Option BindingRootReference) : Prop :=
  ∀ r, previous = some r → RootUnchanged r (sourceRootKeyOf sourcePrefix) root →
    r.inventoryRootKey = inventoryRootKeyOf inventoryRootPrefix

/-- The inventory files and the last reference in a history of runs that write, in which each run is
given nothing or the reference of the run before it, and none returns a reference to another
inventory. -/
inductive Continued : InventoryFiles → Option BindingRootReference → Prop
  | start (files : InventoryFiles) : Continued files none
  | run {source : BindingFiles} {sourcePrefix inventoryRootPrefix : KeyPrefix}
      {root : SourceRootManifest} {last previous : Option BindingRootReference} {fullScan : Bool}
      {files files' : InventoryFiles} {reference : BindingRootReference}
      (hlast : Continued files last) (hprevious : previous = none ∨ previous = last)
      (hsource : Consistent sha256Hex source sourcePrefix root)
      (hsame : fullScan = true ∨ SameInventory sourcePrefix inventoryRootPrefix root previous)
      (hrun : runOn (buildTimeseriesBindingInventory sha256Hex source sourcePrefix.text
        inventoryRootPrefix.text previous fullScan false) files = (.ok reference, files')) :
      Continued files' (some reference)

/-- The ranges that the run does not write have their shards. -/
def ShardsStand (inventoryRootPrefix : KeyPrefix) (root : SourceRootManifest)
    (previous : Option BindingRootReference) (dryRun : Bool) (files : InventoryFiles) : Prop :=
  ∀ range ∈ root.ranges, dryRun = true ∨ TakenOver previous inventoryRootPrefix range →
    HasShard sha256Hex files (shardReference inventoryRootPrefix range)

variable {sha256Hex} {source : BindingFiles} {sourcePrefix inventoryRootPrefix : KeyPrefix}
variable {root : SourceRootManifest} {previous : Option BindingRootReference} {dryRun : Bool}
variable {files files' : InventoryFiles}

/-! ## Previous references -/

theorem validate_of_form {r : BindingRootReference}
    (h : ∃ (S P : KeyPrefix) (root : SourceRootManifest), root.Canonical sha256Hex ∧
      r = referenceOf sha256Hex S P root) :
    validateTimeseriesBindingRootReference r = .ok r := by
  obtain ⟨S, P, root, hroot, rfl⟩ := h
  exact validate_referenceOf hroot

/-- Given a valid previous reference, a run is that of its mode. -/
theorem build_eq {fullScan : Bool}
    (hprevious : ∀ r, previous = some r → validateTimeseriesBindingRootReference r = .ok r) :
    runOn (buildTimeseriesBindingInventory sha256Hex source sourcePrefix.text
        inventoryRootPrefix.text previous fullScan dryRun) files =
      if fullScan = true then
        runOn (buildFullScanInventory sha256Hex source sourcePrefix.text inventoryRootPrefix.text
          dryRun) files
      else
        runOn (buildNormalInventory sha256Hex source sourcePrefix.text inventoryRootPrefix.text
          previous dryRun) files := by
  have hvalid : (previous.mapM validateTimeseriesBindingRootReference :
      Except String (Option BindingRootReference)) = .ok previous := by
    rcases previous with _ | r
    · rfl
    · rw [Option.mapM_some, hprevious r rfl]
      rfl
  rw [buildTimeseriesBindingInventory, sourcePrefix.normalizeRelativePath_text, hvalid]
  rcases fullScan with _ | _
  · rfl
  · rfl

/-- **Every returned reference is that of a root of the source under some prefixes.** -/
theorem Produced.form {reference : BindingRootReference} (h : Produced sha256Hex reference) :
    ∃ (S P : KeyPrefix) (root : SourceRootManifest), root.Canonical sha256Hex ∧
      reference = referenceOf sha256Hex S P root := by
  induction h with
  | @run source S P previous fullScan dryRun files files' reference _ hrun ih =>
    rw [build_eq fun r hr ↦ validate_of_form (ih r hr)] at hrun
    split at hrun
    · obtain ⟨root, hroot, hreference⟩ := eq_of_buildFullScanInventory hrun
      exact ⟨S, P, root, hroot.canonical, hreference⟩
    · rcases eq_of_buildNormalInventory hrun with hprevious | ⟨root, hroot, hreference⟩
      · exact ih reference hprevious
      · exact ⟨S, P, root, hroot.canonical, hreference⟩

/-- A previous reference to the root as it is now, in the same inventory, is the reference that the
full scan returns. -/
theorem Produced.eq_referenceOf (hsha : Function.Injective sha256Hex)
    {reference : BindingRootReference} (h : Produced sha256Hex reference)
    (hroot : root.Canonical sha256Hex)
    (hunchanged : RootUnchanged reference (sourceRootKeyOf sourcePrefix) root)
    (hinventory : reference.inventoryRootKey = inventoryRootKeyOf inventoryRootPrefix) :
    reference = referenceOf sha256Hex sourcePrefix inventoryRootPrefix root := by
  obtain ⟨S, P, root', hroot', rfl⟩ := h.form
  obtain ⟨hkey, hhash⟩ := hunchanged
  obtain rfl := sourceRootKeyOf_injective (Option.some.inj hkey)
  obtain rfl := inventoryRootKeyOf_injective hinventory
  have hhash : root'.sourceRootHash = root.sourceRootHash := Option.some.inj hhash
  have hranges := ranges_eq_of_sourceRootHash hsha hroot' hroot hhash
  simp only [referenceOf, rootInventoryOf, hranges, hhash]

/-! ## The full scan -/

theorem forM_refuseIf_of_forall {α : Type} {p : α → Prop} [DecidablePred p] {e : α → String}
    {l : List α} (h : ∀ a ∈ l, ¬p a) :
    (l.forM fun a ↦ Except.refuseIf (p a) (e a) : Except String Unit) = .ok () := by
  induction l with
  | nil => rfl
  | cons a rest ih =>
    obtain ⟨ha, hrest⟩ := List.forall_mem_cons.mp h
    change (Except.refuseIf (p a) (e a) >>= fun _ ↦ rest.forM _) = _
    rw [Except.refuseIf_neg ha, Except.ok_bind]
    exact ih hrest

/-- A turn of the full scan writes the shard of its group. -/
theorem runOn_scanRange (h : Consistent sha256Hex source sourcePrefix root)
    {group : ℕ × List (ListedUnit TimeseriesId)} {range : SourceRangeReference}
    (hrange : range ∈ root.ranges) (hstart : range.rangeStart = group.1)
    (hperm : (group.2.map unitContent).Perm
      ((sourceUnits sha256Hex source range).map sourceContent)) (files : InventoryFiles) :
    runOn (scanRange sha256Hex source sourcePrefix.text inventoryRootPrefix.text root.ranges dryRun
        group) files =
      (.ok (shardReference inventoryRootPrefix range),
        write (fun _ ↦ dryRun = true) (fun group ↦ shardKey inventoryRootPrefix group.1)
          (fun group ↦ some (shardOf sha256Hex sourcePrefix.text group.1 group.2).toJs.canonicalJson)
          files group) := by
  obtain ⟨raw, manifest, hraw, hvalid, -, -, hhash, hunits⟩ := h.manifest hrange
  have hfacts := h.rangeFacts hrange
  obtain ⟨hinside, hnodup, hshard, hcount⟩ := hfacts.of_perm hperm
  have hpick : root.ranges.filter (fun entry ↦ entry.rangeStart = group.1) = [range] :=
    @filter_eq_singleton _ _ SourceRangeReference.rangeStart _ _ _
      (h.root_found.canonical.sorted.imp fun hlt ↦ hlt.ne) hrange fun _ ↦ by
        rw [hstart]
        exact decide_eq_true_iff
  have hmatch : (root.ranges.filter fun entry ↦ entry.rangeStart = group.1).getLast?.filter
      (fun sourceRef ↦ sourceRef.sourceRangeHash =
          (shardOf sha256Hex sourcePrefix.text group.1 group.2).sourceRangeHash ∧
        sourceRef.unitCount =
          lengthOf (shardOf sha256Hex sourcePrefix.text group.1 group.2).units) = some range := by
    rw [hpick, List.getLast?_singleton]
    exact Option.filter_eq_some_iff.mpr ⟨rfl, decide_eq_true ⟨hshard.symm, hcount.symm⟩⟩
  have hread : ((source.rangeManifest range.manifestKey).mapM
      (validateTimeseriesBindingSourceRangeManifest sha256Hex) :
        Except String (Option SourceRangeManifest)) = .ok (some manifest) := by
    rw [hraw, Option.mapM_some, hvalid]
    rfl
  have hsame : (some manifest).filter (fun sourceRange ↦ sourceRange.sourceRangeHash =
      (shardOf sha256Hex sourcePrefix.text group.1 group.2).sourceRangeHash) = some manifest :=
    Option.filter_eq_some_iff.mpr ⟨rfl, decide_eq_true (hhash.trans hshard.symm)⟩
  have hagree : ∀ unit ∈ (shardOf sha256Hex sourcePrefix.text group.1 group.2).units,
      UnitsAgree manifest.units unit := by
    intro unit hunit
    have hmem := List.mem_map_of_mem (f := unitContent) (mem_sortBy.mp hunit)
    obtain ⟨v, hv, hcontent⟩ := List.mem_map.mp (hperm.mem_iff.mp hmem)
    obtain ⟨hid, hpath, hsha, hsize⟩ : v.timeseriesId.1 = unit.key.1 ∧
        v.relativePath = unit.relativePath ∧ v.sha256 = unit.hash ∧ some v.size = unit.size := by
      simpa only [sourceContent, unitContent, Prod.mk.injEq] using hcontent
    have hfilter : manifest.units.filter (fun entry ↦ entry.timeseriesId = unit.key) = [v] := by
      rw [hunits]
      refine @filter_eq_singleton _ _ SourceUnit.timeseriesId _ _ _
        (List.pairwise_map.mp hfacts.nodup) hv fun entry ↦ ?_
      rw [decide_eq_true_iff, ← Subtype.ext hid]
    exact ⟨v, by rw [hfilter]; rfl, hsha, hpath, hsize⟩
  have hchecks : ((shardOf sha256Hex sourcePrefix.text group.1 group.2).units.forM fun unit ↦
      Except.refuseIf (¬UnitsAgree manifest.units unit)
        s!"Full binding scan disagrees with source unit {unit.key.1}" : Except String Unit) =
        .ok () := forM_refuseIf_of_forall fun unit hunit ↦ not_not.mpr (hagree unit hunit)
  refine runOn_lift_bind_eq_ok_iff.mpr ⟨_, buildShard_of (hstart ▸ range.isRange)
    (fun unit hunit ↦ (hinside unit hunit).trans hstart) hnodup, ?_⟩
  simp only [hmatch]
  refine runOn_lift_bind_eq_ok_iff.mpr ⟨_, hread, ?_⟩
  simp only [hsame]
  refine runOn_lift_bind_eq_ok_iff.mpr ⟨_, hchecks, ?_⟩
  refine runOn_lift_bind_eq_ok_iff.mpr ⟨_, shardKey_text (hstart ▸ range.isRange), ?_⟩
  refine runOn_bind (runOn_writeRemoteJson _ _) ?_
  rw [runOn_pure, shardReference, write, congrArg (shardKey inventoryRootPrefix) hstart]
  simp only [shardOf, hshard, hcount]

/-- **On a hierarchy that agrees with the files the full scan goes through**, and leaves the shard of
every range behind unless it is a dry run. -/
theorem runOn_buildFullScanInventory (h : Consistent sha256Hex source sourcePrefix root)
    (files : InventoryFiles) :
    ∃ files', runOn (buildFullScanInventory sha256Hex source sourcePrefix.text
        inventoryRootPrefix.text dryRun) files =
          (.ok (referenceOf sha256Hex sourcePrefix inventoryRootPrefix root), files') ∧
      (dryRun = false → ∀ range ∈ root.ranges,
        HasShard sha256Hex files' (shardReference inventoryRootPrefix range)) := by
  obtain ⟨bindings, units, hbindings, hunits, hsize, hkeys, hgroups⟩ := h.groups
  obtain ⟨raw, hraw, hroot⟩ := h.root_found
  have hraw' : source.rootManifest (timeseriesBindingSourceRootKey sourcePrefix.text) = some raw := by
    rw [sourceRootKey_text, hraw]
  generalize hgrouped : OrderedMap.groupBy (fun unit : ListedUnit TimeseriesId ↦
    rangeStartOf unit.key) units = groups at hsize hkeys hgroups
  have hcanonical := canonical_of_validateRoot hroot
  obtain ⟨entries, hentries⟩ := exists_runOn_mapM (f := scanRange sha256Hex source
      sourcePrefix.text inventoryRootPrefix.text root.ranges dryRun)
    (l := sortBy (fun left right ↦ compare left.1 right.1) groups.entries) fun group hgroup ↦ by
      obtain ⟨range, hrange, hstart, hperm⟩ := hgroups group (mem_sortBy.mp hgroup)
      exact ⟨_, runOn_scanRange h hrange hstart hperm⟩
  have hscanned := hentries files
  rw [eq_of_scannedRanges hcanonical hsize hscanned] at hscanned
  generalize hscan : List.foldl _ files _ = t at hscanned
  have hrun : runOn (buildFullScanInventory sha256Hex source sourcePrefix.text
      inventoryRootPrefix.text dryRun) files =
        (.ok (referenceOf sha256Hex sourcePrefix inventoryRootPrefix root),
          withRoot sha256Hex sourcePrefix inventoryRootPrefix root dryRun t) := by
    rw [buildFullScanInventory]
    simp only [hraw']
    refine runOn_lift_bind_eq_ok_iff.mpr ⟨root, hroot, ?_⟩
    refine runOn_lift_bind_eq_ok_iff.mpr ⟨bindings, hbindings, ?_⟩
    refine runOn_lift_bind_eq_ok_iff.mpr ⟨units, hunits, ?_⟩
    rw [hgrouped]
    refine runOn_lift_bind_eq_ok_iff.mpr ⟨(), Except.refuseIf_neg (not_not.mpr hsize), ?_⟩
    refine runOn_bind hscanned ?_
    refine runOn_lift_bind_eq_ok_iff.mpr ⟨_, inventoryRootKey_text, ?_⟩
    rw [sourceRootKey_text]
    exact runOn_publishRoot hcanonical
  refine ⟨_, hrun, fun hdry range hrange ↦ ?_⟩
  obtain ⟨group, hgroup, hstart⟩ := List.mem_map.mp (hkeys range hrange)
  obtain ⟨range', hrange', hstart', hperm⟩ := hgroups group hgroup
  obtain rfl : range' = range := h.root_found.canonical.eq_of_rangeStart hrange' hrange
    (hstart'.trans hstart)
  obtain ⟨hinside, hnodup, hhash, hcount⟩ := (h.rangeFacts hrange).of_perm hperm
  have hdistinct : ((sortBy (fun left right ↦ compare left.1 right.1) groups.entries).map fun group ↦
      shardKey inventoryRootPrefix group.1).Nodup := by
    refine nodup_shardKeys inventoryRootPrefix Prod.fst ?_
    exact ((sortBy_perm groups.entries).map _).nodup_iff.mpr groups.nodup_keys
  refine ⟨shardOf sha256Hex sourcePrefix.text range'.rangeStart group.2, ?_,
    validateShard_of range'.isRange hinside hnodup, rfl, hhash, hcount⟩
  rw [shardReference, withRoot_shardKey, hstart', ← hscan,
    foldl_write hdistinct (mem_sortBy.mpr hgroup), if_neg (by rw [hdry]; exact Bool.false_ne_true)]

/-! ## The normal run -/

theorem runOn_unchanged (h : Consistent sha256Hex source sourcePrefix root)
    {reference : BindingRootReference}
    (hunchanged : RootUnchanged reference (sourceRootKeyOf sourcePrefix) root) :
    runOn (buildNormalInventory sha256Hex source sourcePrefix.text inventoryRootPrefix.text
      (some reference) dryRun) files = (.ok reference, files) := by
  obtain ⟨raw, hraw, hroot⟩ := h.root_found
  have hfilter : (some reference).filter
      (fun r ↦ decide (RootUnchanged r (sourceRootKeyOf sourcePrefix) root)) = some reference :=
    Option.filter_eq_some_iff.mpr ⟨rfl, decide_eq_true hunchanged⟩
  rw [buildNormalInventory]
  simp only [sourceRootKey_text, hraw]
  refine runOn_lift_bind_eq_ok_iff.mpr ⟨root, hroot, ?_⟩
  refine runOn_lift_bind_eq_ok_iff.mpr ⟨(), Except.refuseIf_neg (not_not.mpr h.root_prefix), ?_⟩
  refine runOn_lift_bind_eq_ok_iff.mpr ⟨_, inventoryRootKey_text, ?_⟩
  rw [hfilter]
  rfl

/-- When the root has changed, the run returns its reference and has written the shards that it does
not take over. -/
theorem exists_runOn_changed (h : Consistent sha256Hex source sourcePrefix root)
    (hchanged : ∀ r, previous = some r → ¬RootUnchanged r (sourceRootKeyOf sourcePrefix) root)
    (files : InventoryFiles) :
    ∃ files', runOn (buildNormalInventory sha256Hex source sourcePrefix.text
        inventoryRootPrefix.text previous dryRun) files =
          (.ok (referenceOf sha256Hex sourcePrefix inventoryRootPrefix root), files') ∧
      ∀ range ∈ root.ranges, files' (shardKey inventoryRootPrefix range.rangeStart) =
        if dryRun = true ∨ TakenOver previous inventoryRootPrefix range then
          files (shardKey inventoryRootPrefix range.rangeStart)
        else some (rangeShard sha256Hex source sourcePrefix range).toJs.canonicalJson := by
  obtain ⟨raw, hraw, hroot⟩ := h.root_found
  have hcanonical := canonical_of_validateRoot hroot
  have hfilter : previous.filter
      (fun r ↦ decide (RootUnchanged r (sourceRootKeyOf sourcePrefix) root)) = none := by
    rw [Option.filter_eq_none_iff]
    exact fun r hr hunchanged ↦ hchanged r hr (of_decide_eq_true hunchanged)
  have hturns := runOn_mapM (fun range hrange files ↦ @runOn_inventoryRange _ _ _
    inventoryRootPrefix _ previous dryRun h range hrange files) files
  generalize hwritten : List.foldl _ files _ = t at hturns
  refine ⟨withRoot sha256Hex sourcePrefix inventoryRootPrefix root dryRun t, ?_,
    fun range hrange ↦ ?_⟩
  · rw [buildNormalInventory]
    simp only [sourceRootKey_text, hraw]
    refine runOn_lift_bind_eq_ok_iff.mpr ⟨root, hroot, ?_⟩
    refine runOn_lift_bind_eq_ok_iff.mpr ⟨(), Except.refuseIf_neg (not_not.mpr h.root_prefix), ?_⟩
    refine runOn_lift_bind_eq_ok_iff.mpr ⟨_, inventoryRootKey_text, ?_⟩
    rw [hfilter]
    exact runOn_bind hturns (runOn_publishRoot hcanonical)
  · have hdistinct := nodup_shardKeys inventoryRootPrefix SourceRangeReference.rangeStart
      hcanonical.nodup
    rw [withRoot_shardKey, ← hwritten, foldl_write hdistinct hrange]

/-! ## Agreement -/

theorem hasShard_congr {range : RangeReference}
    (h : files' range.inventoryShardKey = files range.inventoryShardKey) :
    HasShard sha256Hex files' range ↔ HasShard sha256Hex files range := by
  rw [HasShard, HasShard, h]

/-- The reference of a root is taken over for every range of the root. -/
theorem takenOver_referenceOf (hroot : root.Canonical sha256Hex) {range : SourceRangeReference}
    (hrange : range ∈ root.ranges) :
    TakenOver (some (referenceOf sha256Hex sourcePrefix inventoryRootPrefix root))
      inventoryRootPrefix range := by
  have hentry : previousRange (some (referenceOf sha256Hex sourcePrefix inventoryRootPrefix root))
      range.rangeStart = some (shardReference inventoryRootPrefix range) := by
    have hfilter : (root.ranges.map (shardReference inventoryRootPrefix)).filter
        (fun entry ↦ entry.rangeStart = range.rangeStart) =
          [shardReference inventoryRootPrefix range] :=
      @filter_eq_singleton _ _ RangeReference.rangeStart _ _ _
        (List.pairwise_map.mpr (hroot.sorted.imp fun hlt ↦ hlt.ne))
        (List.mem_map_of_mem hrange) fun _ ↦ decide_eq_true_iff
    change ((root.ranges.map (shardReference inventoryRootPrefix)).filter
      (fun entry ↦ entry.rangeStart = range.rangeStart)).getLast? = _
    rw [hfilter]
    rfl
  exact ⟨_, hentry, decide_eq_true ⟨rfl, rfl, rfl, rfl, rfl⟩⟩

theorem ranges_referenceOf {range : RangeReference} :
    range ∈ (referenceOf sha256Hex sourcePrefix inventoryRootPrefix root).ranges ↔
      ∃ sourceRange ∈ root.ranges, shardReference inventoryRootPrefix sourceRange = range :=
  List.mem_map

/-- **When the normal run agrees with the full scan.** -/
theorem agrees_iff (hsha : Function.Injective sha256Hex)
    (h : Consistent sha256Hex source sourcePrefix root)
    (hprevious : ∀ r, previous = some r → Produced sha256Hex r) :
    AgreesWithFullScan sha256Hex source sourcePrefix inventoryRootPrefix previous dryRun files ↔
      SameInventory sourcePrefix inventoryRootPrefix root previous ∧
        ShardsStand sha256Hex inventoryRootPrefix root previous dryRun files := by
  have hcanonical := h.root_found.canonical
  have hvalid : ∀ r, previous = some r → validateTimeseriesBindingRootReference r = .ok r :=
    fun r hr ↦ validate_of_form (hprevious r hr).form
  obtain ⟨scanned, hscan, -⟩ := @runOn_buildFullScanInventory _ _ _ inventoryRootPrefix _ dryRun h
    files
  simp only [AgreesWithFullScan, build_eq hvalid, if_true, if_neg Bool.false_ne_true, hscan,
    Except.ok.injEq]
  by_cases hunchanged : ∃ r, previous = some r ∧
      RootUnchanged r (sourceRootKeyOf sourcePrefix) root
  · obtain ⟨r, rfl, hr⟩ := hunchanged
    rw [runOn_unchanged h hr]
    constructor
    · rintro ⟨reference, files', hrun, rfl, hshards⟩
      obtain ⟨hreference, rfl⟩ := Prod.mk.inj hrun
      obtain rfl := Except.ok.inj hreference
      refine ⟨fun r hr _ ↦ ?_, fun range hrange _ ↦
        hshards _ (ranges_referenceOf.mpr ⟨range, hrange, rfl⟩)⟩
      rw [← Option.some.inj hr]
      rfl
    · rintro ⟨hsame, hstand⟩
      have hreference := (hprevious r rfl).eq_referenceOf hsha hcanonical hr (hsame r rfl hr)
      refine ⟨r, files, rfl, hreference.symm, fun entry hentry ↦ ?_⟩
      rw [hreference] at hentry
      obtain ⟨range, hrange, rfl⟩ := ranges_referenceOf.mp hentry
      refine hstand range hrange (Or.inr ?_)
      rw [hreference]
      exact takenOver_referenceOf hcanonical hrange
  · have hchanged : ∀ r, previous = some r →
        ¬RootUnchanged r (sourceRootKeyOf sourcePrefix) root := fun r hr hr' ↦
      hunchanged ⟨r, hr, hr'⟩
    obtain ⟨files', hrun, hfiles⟩ := @exists_runOn_changed _ _ _ inventoryRootPrefix _ _ dryRun h
      hchanged files
    rw [hrun]
    constructor
    · rintro ⟨reference, written, hwritten, rfl, hshards⟩
      obtain rfl := (Prod.mk.inj hwritten).2
      refine ⟨fun r hr hr' ↦ absurd hr' (hchanged r hr), fun range hrange hskip ↦ ?_⟩
      have hshard := hshards _ (ranges_referenceOf.mpr ⟨range, hrange, rfl⟩)
      refine (hasShard_congr ?_).mp hshard
      rw [shardReference, hfiles range hrange, if_pos hskip]
    · rintro ⟨-, hstand⟩
      refine ⟨_, files', rfl, rfl, fun entry hentry ↦ ?_⟩
      obtain ⟨range, hrange, rfl⟩ := ranges_referenceOf.mp hentry
      by_cases hskip : dryRun = true ∨ TakenOver previous inventoryRootPrefix range
      · refine (hasShard_congr ?_).mpr (hstand range hrange hskip)
        rw [shardReference, hfiles range hrange, if_pos hskip]
      · refine @hasShard_of_rangeShard _ _ sourcePrefix _ _ _ (h.rangeFacts hrange) ?_
        rw [hfiles range hrange, if_neg hskip]

/-- What is taken over stands if the previous reference has all its shards. -/
theorem shardsStand_of_previous (h : ∀ r, previous = some r →
    ∀ range ∈ r.ranges, HasShard sha256Hex files range) :
    ShardsStand sha256Hex inventoryRootPrefix root previous false files := by
  rintro range hrange (hdry | ⟨entry, hentry, hmatches⟩)
  · cases hdry
  · rw [← eq_shardReference_of_matches hmatches]
    rcases previous with _ | r
    · cases hentry
    · exact h r rfl entry (List.mem_filter.mp (List.mem_of_getLast? hentry)).1

/-- In a history of runs that go on from each other the last reference has all its shards. -/
theorem Continued.standing (hsha : Function.Injective sha256Hex)
    {last : Option BindingRootReference} (h : Continued sha256Hex files last) :
    ∀ r, last = some r →
      Produced sha256Hex r ∧ ∀ range ∈ r.ranges, HasShard sha256Hex files range := by
  induction h with
  | start files => exact nofun
  | @run source S P root last previous fullScan files files' reference _ hprevious hsource hsame
      hrun ih =>
    rintro r ⟨⟩
    have hbefore : ∀ r, previous = some r →
        Produced sha256Hex r ∧ ∀ range ∈ r.ranges, HasShard sha256Hex files range := by
      rcases hprevious with rfl | rfl
      · exact nofun
      · exact ih
    refine ⟨.run (fun r hr ↦ (hbefore r hr).1) hrun, ?_⟩
    rcases fullScan with _ | _
    · have hagrees := (@agrees_iff _ _ _ P _ _ false files hsha hsource
        fun r hr ↦ (hbefore r hr).1).mpr ⟨hsame.resolve_left Bool.false_ne_true,
          shardsStand_of_previous fun r hr ↦ (hbefore r hr).2⟩
      obtain ⟨reference', written, hrun', -, hshards⟩ := hagrees
      rw [hrun] at hrun'
      obtain ⟨hreference, rfl⟩ := Prod.mk.inj hrun'
      rw [Except.ok.inj hreference]
      exact hshards
    · have hvalid : ∀ r, previous = some r → validateTimeseriesBindingRootReference r = .ok r :=
        fun r hr ↦ validate_of_form (hbefore r hr).1.form
      obtain ⟨written, hscan, hshards⟩ := @runOn_buildFullScanInventory _ _ _ P _ false hsource files
      rw [build_eq hvalid, if_pos rfl, hscan] at hrun
      obtain ⟨hreference, rfl⟩ := Prod.mk.inj hrun
      rw [← Except.ok.inj hreference]
      intro range hrange
      obtain ⟨sourceRange, hsourceRange, rfl⟩ := ranges_referenceOf.mp hrange
      exact hshards rfl sourceRange hsourceRange

end History

/-! ## A run with another inventory prefix -/

section Sample

/-- One binding under the prefix `s`, and its manifests. -/
def sampleUnit : SourceUnit :=
  ⟨⟨7, by decide⟩, "s/timeseries_id=7.json", "\x7b\x7d", ⟨2, by decide⟩, none⟩

def sampleManifest : SourceRangeManifest :=
  ⟨0, 999, "s", BindingSource.rangeSourceHash id [sampleUnit], [sampleUnit]⟩

def sampleRoot : SourceRootManifest :=
  let range : SourceRangeReference := ⟨0, by decide, sampleManifest.sourceRangeHash,
    "s/_manifests/range=000000-000999.json", ⟨1, by decide⟩⟩
  ⟨"s", BindingSource.rootSourceHash id [range], 1, [range]⟩

def sampleSource : BindingFiles where
  rootManifest key := if key = "s/_manifests/root.json" then some sampleRoot else none
  rangeManifest key :=
    if key = "s/_manifests/range=000000-000999.json" then some sampleManifest else none
  listing directory := if directory = "s" then [⟨"timeseries_id=7.json", none, none⟩] else []
  text path := if path = "s/timeseries_id=7.json" then some "\x7b\x7d" else none
  joinTargetPath path := path

def samplePrefix : KeyPrefix := .ofChar 's' (by decide)

def inventoryA : KeyPrefix := .ofChar 'a' (by decide)

def inventoryB : KeyPrefix := .ofChar 'b' (by decide)

theorem sample_consistent : Consistent id sampleSource samplePrefix sampleRoot where
  root_found := ⟨sampleRoot, by decide +kernel, by decide +kernel⟩
  root_prefix := by decide +kernel
  range_found := List.forall_mem_singleton.mpr ⟨sampleManifest, sampleManifest, by decide +kernel,
    by decide +kernel, rfl, rfl, rfl, List.cons_ne_nil _ _⟩
  physical := by
    refine ⟨[⟨7, "s/timeseries_id=7.json", "\x7b\x7d", some ⟨2, by decide⟩, none, none⟩], rfl, ?_⟩
    decide +kernel

theorem sample_first_run : ∃ files, runOn (buildTimeseriesBindingInventory id sampleSource
    samplePrefix.text inventoryA.text none false false) (fun _ ↦ none) =
      (.ok (referenceOf id samplePrefix inventoryA sampleRoot), files) := by
  obtain ⟨files, hrun, -⟩ := @exists_runOn_changed id _ _ inventoryA _ none false sample_consistent
    (fun _ hr ↦ by cases hr) fun _ ↦ none
  refine ⟨files, ?_⟩
  rw [build_eq (fun _ hr ↦ by cases hr), if_neg Bool.false_ne_true, hrun]

end Sample

end UkAqOps.Backup

import UkAqOps.BindingSource.Keys

/-!
# Manifests of the timeseries binding source

The bindings in the bucket are described by one manifest for each range of a thousand identifiers
and a root that lists the ranges. A range manifest carries the hash of its units, the root that of
its ranges, so that as long as SHA-256 does not collide the root hash tells which ranges there are,
with which hashes and how many units.
-/

namespace UkAqOps.BindingSource

open Sorting Backup

/-! ## Units -/

/-- One binding file: its key, the SHA-256 and the size of its bytes, and the ETag it was listed
with. -/
structure SourceUnit where
  timeseriesId : TimeseriesId
  relativePath : String
  sha256 : String
  size : Size
  r2Md5 : Option String
deriving DecidableEq

def normalizeSourceUnit (entry : SourceUnit) : Except String SourceUnit := do
  let relativePath ← normalizeRelativePath entry.relativePath "relative path"
  Except.refuseIf
    (endsWithText relativePath s!"/timeseries_id={entry.timeseriesId.1}.json" = false)
    s!"Timeseries binding source unit path/id mismatch: {relativePath}"
  return { entry with relativePath }

def sortUnits (units : List SourceUnit) : List SourceUnit :=
  sortBy (fun left right ↦ compare left.timeseriesId.1 right.timeseriesId.1) units

/-- What of a unit the hash of its range covers. -/
def hashUnit (unit : SourceUnit) : JsValue :=
  .obj [("timeseries_id", .int unit.timeseriesId.1), ("relative_path", .str unit.relativePath),
    ("hash", .str unit.sha256), ("size", .int unit.size.1)]

/-- The length of an array, which is a safe integer. -/
def lengthOf {α : Type} (l : List α) : Size :=
  ⟨min l.length maxSafeInteger.toNat, by
    have hmin : min l.length maxSafeInteger.toNat ≤ maxSafeInteger.toNat := min_le_right _ _
    have hmax : (0 : ℤ) ≤ maxSafeInteger := by decide
    omega⟩

/-! ## Ranges -/

section Ranges

variable (sha256Hex : String → String)

def normalizeRangeBounds (rangeStart rangeEnd : ℕ) : Except String Unit :=
  Except.refuseIf (¬(IsRange rangeStart ∧ rangeEnd = rangeStart + rangeSize - 1))
    s!"Invalid timeseries binding source range {rangeStart}-{rangeEnd}"

def timeseriesBindingSourceRootKey (bindingPrefix : String) : String :=
  normalizePrefix bindingPrefix ++ fileSuffix "_manifests" "root"

def timeseriesBindingSourceRangeManifestKey (bindingPrefix : String) (rangeStart rangeEnd : ℕ) :
    Except String String := do
  normalizeRangeBounds rangeStart rangeEnd
  return normalizePrefix bindingPrefix ++ fileSuffix "_manifests" (rangeName rangeStart rangeEnd)

def rangeSourceHash (units : List SourceUnit) : String :=
  documentHash sha256Hex "uk_aq:r2_history:v2:timeseries_binding_range:v1"
    ((sortUnits units).map hashUnit)

structure SourceRangeManifest where
  rangeStart : ℕ
  rangeEnd : ℕ
  sourcePrefix : String
  sourceRangeHash : String
  units : List SourceUnit
deriving DecidableEq

/-- Refuse a unit that lies outside the range or the prefix, or was seen before. -/
def checkUnit (sourcePrefix : String) (rangeStart rangeEnd : ℕ) (seen : List TimeseriesId)
    (unit : SourceUnit) : Except String (List TimeseriesId) := do
  Except.refuseIf (unit.timeseriesId.1 < rangeStart ∨ rangeEnd < unit.timeseriesId.1)
    (s!"Timeseries binding {unit.timeseriesId.1} outside source range " ++
      s!"{rangeStart}-{rangeEnd}")
  Except.refuseIf (startsWithText unit.relativePath (sourcePrefix ++ "/") = false)
    s!"Timeseries binding source unit outside prefix: {unit.relativePath}"
  Except.refuseIf (unit.timeseriesId ∈ seen)
    s!"Duplicate timeseries binding source unit {unit.timeseriesId.1}"
  return unit.timeseriesId :: seen

def buildTimeseriesBindingSourceRangeManifest (bindingPrefix : String) (rangeStart rangeEnd : ℕ)
    (units : List SourceUnit) : Except String SourceRangeManifest := do
  let sourcePrefix := normalizePrefix bindingPrefix
  normalizeRangeBounds rangeStart rangeEnd
  let normalizedUnits ← units.mapM normalizeSourceUnit
  let normalizedUnits := sortUnits normalizedUnits
  let _ ← normalizedUnits.foldlM (checkUnit sourcePrefix rangeStart rangeEnd) []
  return ⟨rangeStart, rangeEnd, sourcePrefix, rangeSourceHash sha256Hex normalizedUnits,
    normalizedUnits⟩

def validateTimeseriesBindingSourceRangeManifest (raw : SourceRangeManifest) :
    Except String SourceRangeManifest := do
  let canonical ← buildTimeseriesBindingSourceRangeManifest sha256Hex raw.sourcePrefix
    raw.rangeStart raw.rangeEnd raw.units
  Except.refuseIf (canonical.sourceRangeHash ≠ raw.sourceRangeHash)
    "Timeseries binding source range hash mismatch"
  return canonical

/-- What holds of the units of a built range manifest. -/
structure SourceRangeManifest.Canonical (manifest : SourceRangeManifest) : Prop where
  isRange : IsRange manifest.rangeStart
  rangeEnd : manifest.rangeEnd = manifest.rangeStart + rangeSize - 1
  sorted : sortUnits manifest.units = manifest.units
  inside : ∀ unit ∈ manifest.units, rangeStartOf unit.timeseriesId = manifest.rangeStart
  nodup : (manifest.units.map SourceUnit.timeseriesId).Nodup
  hash : manifest.sourceRangeHash = rangeSourceHash sha256Hex manifest.units

/-! ## The root -/

/-- What the root lists of a range. -/
structure SourceRangeReference where
  rangeStart : ℕ
  isRange : IsRange rangeStart
  sourceRangeHash : String
  manifestKey : String
  unitCount : Size
deriving DecidableEq

def SourceRangeReference.rangeEnd (range : SourceRangeReference) : ℕ :=
  range.rangeStart + rangeSize - 1

def hashRange (range : SourceRangeReference) : JsValue :=
  .obj [("range_start", .int range.rangeStart), ("range_end", .int range.rangeEnd),
    ("source_range_hash", .str range.sourceRangeHash), ("manifest_key", .str range.manifestKey),
    ("unit_count", .int range.unitCount.1)]

def sortRanges (ranges : List SourceRangeReference) : List SourceRangeReference :=
  sortBy (fun left right ↦ compare left.rangeStart right.rangeStart) ranges

def rootSourceHash (ranges : List SourceRangeReference) : String :=
  documentHash sha256Hex "uk_aq:r2_history:v2:timeseries_binding_source_root:v1"
    ((sortRanges ranges).map hashRange)

structure SourceRootManifest where
  sourcePrefix : String
  sourceRootHash : String
  unitCount : ℕ
  ranges : List SourceRangeReference
deriving DecidableEq

/-- Refuse a range whose manifest is not where it belongs. -/
def checkRangeKey (sourcePrefix : String) (entry : SourceRangeReference) :
    Except String SourceRangeReference := do
  let manifestKey ← normalizeRelativePath entry.manifestKey "relative path"
  let expectedKey ← timeseriesBindingSourceRangeManifestKey sourcePrefix entry.rangeStart
    entry.rangeEnd
  Except.refuseIf (manifestKey ≠ expectedKey)
    s!"Timeseries binding source range key mismatch: {manifestKey}"
  return { entry with manifestKey }

/-- Refuse a range that was seen before. -/
def checkRange (seen : List ℕ) (range : SourceRangeReference) : Except String (List ℕ) := do
  Except.refuseIf (range.rangeStart ∈ seen)
    s!"Duplicate timeseries binding source range {range.rangeStart}"
  return range.rangeStart :: seen

def buildTimeseriesBindingSourceRootManifest (bindingPrefix : String)
    (ranges : List SourceRangeReference) : Except String SourceRootManifest := do
  let sourcePrefix := normalizePrefix bindingPrefix
  let normalizedRanges ← ranges.mapM (checkRangeKey sourcePrefix)
  let normalizedRanges := sortRanges normalizedRanges
  let _ ← normalizedRanges.foldlM checkRange []
  return ⟨sourcePrefix, rootSourceHash sha256Hex normalizedRanges,
    (normalizedRanges.map fun range ↦ range.unitCount.1).sum, normalizedRanges⟩

def validateTimeseriesBindingSourceRootManifest (raw : SourceRootManifest) :
    Except String SourceRootManifest := do
  let canonical ← buildTimeseriesBindingSourceRootManifest sha256Hex raw.sourcePrefix raw.ranges
  Except.refuseIf (canonical.sourceRootHash ≠ raw.sourceRootHash)
    "Timeseries binding source root hash mismatch"
  Except.refuseIf (canonical.unitCount ≠ raw.unitCount)
    "Timeseries binding source root unit_count mismatch"
  return canonical

/-- What holds of the ranges of a built root. -/
structure SourceRootManifest.Canonical (root : SourceRootManifest) : Prop where
  sorted : root.ranges.Pairwise fun left right ↦ left.rangeStart < right.rangeStart
  hash : root.sourceRootHash = rootSourceHash sha256Hex root.ranges

end Ranges

/-- A root lists no range twice. -/
theorem SourceRootManifest.Canonical.nodup {sha256Hex : String → String}
    {root : SourceRootManifest} (h : root.Canonical sha256Hex) :
    (root.ranges.map SourceRangeReference.rangeStart).Nodup := by
  refine List.pairwise_map.mpr (h.sorted.imp ?_)
  intro a b hlt
  exact hlt.ne

theorem SourceRootManifest.Canonical.eq_of_rangeStart {sha256Hex : String → String}
    {root : SourceRootManifest} (h : root.Canonical sha256Hex) {range range' : SourceRangeReference}
    (hrange : range ∈ root.ranges) (hrange' : range' ∈ root.ranges)
    (hstart : range.rangeStart = range'.rangeStart) : range = range' :=
  List.inj_on_of_nodup_map h.nodup hrange hrange' hstart

/-! ## What the builders make -/

section Facts

variable {sha256Hex : String → String}

theorem transCmp_timeseriesId : Std.TransCmp fun left right : SourceUnit ↦
    compare left.timeseriesId.1 right.timeseriesId.1 :=
  transCmp_on (inferInstanceAs (Std.TransCmp (compare : ℕ → ℕ → Ordering)))
    fun unit : SourceUnit ↦ unit.timeseriesId.1

theorem transCmp_rangeStart : Std.TransCmp fun left right : SourceRangeReference ↦
    compare left.rangeStart right.rangeStart :=
  transCmp_on (inferInstanceAs (Std.TransCmp (compare : ℕ → ℕ → Ordering)))
    SourceRangeReference.rangeStart

theorem sortUnits_sortUnits (units : List SourceUnit) :
    sortUnits (sortUnits units) = sortUnits units :=
  @sortBy_sortBy _ _ transCmp_timeseriesId units

theorem checkUnits_spec {sourcePrefix : String} {rangeStart rangeEnd : ℕ} {units : List SourceUnit}
    {seen seen' : List TimeseriesId}
    (h : units.foldlM (checkUnit sourcePrefix rangeStart rangeEnd) seen = .ok seen') :
    (∀ unit ∈ units, rangeStart ≤ unit.timeseriesId.1 ∧ unit.timeseriesId.1 ≤ rangeEnd ∧
        startsWithText unit.relativePath (sourcePrefix ++ "/") = true ∧
        unit.timeseriesId ∉ seen) ∧
      (units.map SourceUnit.timeseriesId).Nodup := by
  induction units generalizing seen with
  | nil => exact ⟨by simp, List.nodup_nil⟩
  | cons unit rest ih =>
    rw [List.foldlM_cons] at h
    obtain ⟨next, hnext, hrest⟩ := Except.bind_eq_ok_iff.mp h
    obtain ⟨_, hinside, hnext⟩ := Except.bind_eq_ok_iff.mp hnext
    obtain ⟨_, hunder, hnext⟩ := Except.bind_eq_ok_iff.mp hnext
    obtain ⟨_, hnew, hnext⟩ := Except.bind_eq_ok_iff.mp hnext
    rw [← Except.pure_eq_ok_iff.mp hnext] at hrest
    rw [Except.refuseIf_eq_ok_iff, not_or, not_lt, not_lt] at hinside
    rw [Except.refuseIf_eq_ok_iff, Bool.not_eq_false] at hunder
    obtain ⟨hunits, hnodup⟩ := ih hrest
    refine ⟨List.forall_mem_cons.mpr ⟨⟨hinside.1, hinside.2, hunder,
      Except.refuseIf_eq_ok_iff.mp hnew⟩, fun u hu ↦ ?_⟩, List.nodup_cons.mpr ⟨fun hmem ↦ ?_, hnodup⟩⟩
    · obtain ⟨hlow, hhigh, hstart, hseen⟩ := hunits u hu
      exact ⟨hlow, hhigh, hstart, fun hmem ↦ hseen (List.mem_cons_of_mem _ hmem)⟩
    · obtain ⟨u, hu, hkey⟩ := List.mem_map.mp hmem
      exact (hunits u hu).2.2.2 (hkey ▸ List.mem_cons_self)

/-- What a build that goes through returns. -/
theorem buildRangeManifest_spec {bindingPrefix : String} {rangeStart rangeEnd : ℕ}
    {units : List SourceUnit} {manifest : SourceRangeManifest}
    (h : buildTimeseriesBindingSourceRangeManifest sha256Hex bindingPrefix rangeStart rangeEnd
      units = .ok manifest) :
    manifest.Canonical sha256Hex ∧ manifest.rangeStart = rangeStart ∧ manifest.rangeEnd = rangeEnd ∧
      ∃ normalizedUnits, units.mapM normalizeSourceUnit = .ok normalizedUnits ∧
        manifest.units = sortUnits normalizedUnits := by
  obtain ⟨_, hbounds, h⟩ := Except.bind_eq_ok_iff.mp h
  obtain ⟨normalizedUnits, hnormalized, h⟩ := Except.bind_eq_ok_iff.mp h
  obtain ⟨_, hchecked, h⟩ := Except.bind_eq_ok_iff.mp h
  rw [← Except.pure_eq_ok_iff.mp h]
  rw [normalizeRangeBounds, Except.refuseIf_eq_ok_iff, not_not] at hbounds
  obtain ⟨hinside, hnodup⟩ := checkUnits_spec hchecked
  refine ⟨⟨hbounds.1, hbounds.2, sortUnits_sortUnits _, fun unit hunit ↦ ?_, hnodup, rfl⟩, rfl, rfl,
    normalizedUnits, hnormalized, rfl⟩
  obtain ⟨hlow, hhigh, -⟩ := hinside unit hunit
  exact rangeStartOf_eq hbounds.1.1 hlow (hbounds.2 ▸ hhigh)

theorem canonical_of_validateRange {raw manifest : SourceRangeManifest}
    (h : validateTimeseriesBindingSourceRangeManifest sha256Hex raw = .ok manifest) :
    manifest.Canonical sha256Hex := by
  obtain ⟨canonical, hcanonical, h⟩ := Except.bind_eq_ok_iff.mp h
  obtain ⟨_, -, h⟩ := Except.bind_eq_ok_iff.mp h
  rw [← Except.pure_eq_ok_iff.mp h]
  exact (buildRangeManifest_spec hcanonical).1

theorem checkRanges_spec {ranges : List SourceRangeReference} {seen seen' : List ℕ}
    (h : ranges.foldlM checkRange seen = .ok seen') :
    (∀ range ∈ ranges, range.rangeStart ∉ seen) ∧
      (ranges.map SourceRangeReference.rangeStart).Nodup := by
  induction ranges generalizing seen with
  | nil => exact ⟨by simp, List.nodup_nil⟩
  | cons range rest ih =>
    rw [List.foldlM_cons] at h
    obtain ⟨next, hnext, hrest⟩ := Except.bind_eq_ok_iff.mp h
    obtain ⟨_, hnew, hnext⟩ := Except.bind_eq_ok_iff.mp hnext
    rw [← Except.pure_eq_ok_iff.mp hnext] at hrest
    obtain ⟨hranges, hnodup⟩ := ih hrest
    refine ⟨List.forall_mem_cons.mpr ⟨Except.refuseIf_eq_ok_iff.mp hnew, fun r hr ↦ ?_⟩,
      List.nodup_cons.mpr ⟨fun hmem ↦ ?_, hnodup⟩⟩
    · exact fun hmem ↦ hranges r hr (List.mem_cons_of_mem _ hmem)
    · obtain ⟨r, hr, hstart⟩ := List.mem_map.mp hmem
      exact hranges r hr (hstart ▸ List.mem_cons_self)

/-- Ranges of which none is listed twice are sorted strictly. -/
theorem pairwise_sortRanges {ranges : List SourceRangeReference}
    (h : ((sortRanges ranges).map SourceRangeReference.rangeStart).Nodup) :
    (sortRanges ranges).Pairwise fun left right ↦ left.rangeStart < right.rangeStart := by
  have hle := @pairwise_sortBy _ _ transCmp_rangeStart ranges
  have hne : (sortRanges ranges).Pairwise fun left right ↦ left.rangeStart ≠ right.rangeStart :=
    List.pairwise_map.mp h
  exact hle.imp₂ (fun left right hcmp hleft ↦ lt_of_le_of_ne (Nat.isLE_compare.mp hcmp) hleft) hne

theorem buildRootManifest_spec {bindingPrefix : String} {ranges : List SourceRangeReference}
    {root : SourceRootManifest}
    (h : buildTimeseriesBindingSourceRootManifest sha256Hex bindingPrefix ranges = .ok root) :
    root.Canonical sha256Hex := by
  obtain ⟨normalizedRanges, -, h⟩ := Except.bind_eq_ok_iff.mp h
  obtain ⟨_, hchecked, h⟩ := Except.bind_eq_ok_iff.mp h
  rw [← Except.pure_eq_ok_iff.mp h]
  exact ⟨pairwise_sortRanges (checkRanges_spec hchecked).2, rfl⟩

theorem canonical_of_validateRoot {raw root : SourceRootManifest}
    (h : validateTimeseriesBindingSourceRootManifest sha256Hex raw = .ok root) :
    root.Canonical sha256Hex := by
  obtain ⟨canonical, hcanonical, h⟩ := Except.bind_eq_ok_iff.mp h
  obtain ⟨_, -, h⟩ := Except.bind_eq_ok_iff.mp h
  obtain ⟨_, -, h⟩ := Except.bind_eq_ok_iff.mp h
  rw [← Except.pure_eq_ok_iff.mp h]
  exact buildRootManifest_spec hcanonical

theorem plain_hashRange (range : SourceRangeReference) : (hashRange range).Plain := by
  have hend : (JsValue.int range.rangeEnd).Plain := plain_int range.isRange.2
  have hstart : (JsValue.int range.rangeStart).Plain := plain_int (by
    have := range.isRange.2
    simp only [rangeSize] at this
    omega)
  have hcount : (JsValue.int range.unitCount.1).Plain := plain_int range.unitCount.2
  exact ⟨JsValue.plainFields_iff.mpr (by simp [JsValue.Plain, hstart, hend, hcount]; decide),
    by simp⟩

theorem hashRange_injective : Function.Injective hashRange := by
  intro range range' h
  simp only [hashRange, JsValue.obj.injEq, List.cons.injEq, Prod.mk.injEq, JsValue.str.injEq,
    true_and, and_true] at h
  obtain ⟨hstart, -, hhash, hkey, hcount⟩ := h
  have hstart' := natCast_injective hstart
  have hcount' := Subtype.ext (natCast_injective hcount)
  rcases range with ⟨start, hrange, hash, key, count⟩
  rcases range' with ⟨start', hrange', hash', key', count'⟩
  obtain rfl : start = start' := hstart'
  obtain rfl : hash = hash' := hhash
  obtain rfl : key = key' := hkey
  obtain rfl : count = count' := hcount'
  rfl

/-- The root hash tells which ranges there are. -/
theorem ranges_eq_of_sourceRootHash (hsha : Function.Injective sha256Hex)
    {root root' : SourceRootManifest} (hroot : root.Canonical sha256Hex)
    (hroot' : root'.Canonical sha256Hex) (h : root.sourceRootHash = root'.sourceRootHash) :
    root.ranges = root'.ranges := by
  have hsort : ∀ {r : SourceRootManifest}, r.Canonical sha256Hex → sortRanges r.ranges = r.ranges :=
    fun hr ↦ List.Pairwise.insertionSort_eq (hr.sorted.imp fun hlt ↦ Nat.isLE_compare.mpr hlt.le)
  rw [hroot.hash, hroot'.hash] at h
  have hitems := items_eq_of_documentHash hsha
    (List.forall_mem_map.mpr fun range _ ↦ plain_hashRange range)
    (List.forall_mem_map.mpr fun range _ ↦ plain_hashRange range) h
  rw [hsort hroot, hsort hroot'] at hitems
  exact hashRange_injective.list_map hitems

end Facts

end UkAqOps.BindingSource

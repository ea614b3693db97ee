import UkAqOps.Js.Parse
import UkAqOps.Lib.Except

/-!
# Backup inventories

What the source lists for a backup: the days of the core metadata in one shard, and the timeseries
bindings in shards of a thousand identifiers under one root. A listed unit is what one copy brings
to the destination, a shard carries the hash of its units, and the root carries the hash of its
shards. As long as SHA-256 does not collide, a source hash tells which units are listed and with
which hashes.
-/

namespace UkAqOps.Backup

open Sorting

/-! ## Units -/

/-- A byte size, `Number.isSafeInteger`. -/
abbrev Size := {n : ℕ // (n : ℤ) ≤ maxSafeInteger}

/-- A `timeseries_id` that `normalizeTimeseriesId` lets through. -/
abbrev TimeseriesId := {n : ℕ // 0 < n ∧ (n : ℤ) ≤ maxSafeInteger}

instance : LawfulBEq TimeseriesId := inferInstance

/-- What one copy brings to the destination: the day directory of the core metadata or the file of
one binding, with the SHA-256 of the manifest or of the file. -/
structure ListedUnit (κ : Type) where
  key : κ
  relativePath : String
  hash : String
  size : Option Size
  r2Md5 : Option String
  r2Modtime : Option String

variable {κ : Type}

/-- Which unit is listed with which hash. -/
def ListedUnit.identity (unit : ListedUnit κ) : κ × String := (unit.key, unit.hash)

/-- `value ?? null` of a size. -/
def sizeJs : Option Size → JsValue
  | none => .null
  | some n => .int n.1

/-- `value ?? null` of a text. -/
def textJs : Option String → JsValue
  | none => .null
  | some s => .str s

theorem plain_int {n : ℤ} (hn : (n.natAbs : ℤ) ≤ maxSafeInteger) : (JsValue.int n).Plain :=
  ⟨n, rfl, hn⟩

theorem plain_sizeJs (size : Option Size) : (sizeJs size).Plain := by
  rcases size with _ | ⟨n, hn⟩
  · trivial
  · exact plain_int hn

theorem natCast_injective {m n : ℕ} (h : JsValue.int m = JsValue.int n) : m = n := by
  have htext : m.repr = n.repr := JsValue.num.inj h
  have hdigits : Nat.toDigits 10 m = Nat.toDigits 10 n := by
    rw [← Nat.toList_repr, htext, Nat.toList_repr]
  rw [← Nat.ofDigitChars_ten_toDigits (n := m), hdigits, Nat.ofDigitChars_ten_toDigits]

/-- A document determines the value it was written from. -/
theorem eq_of_stringify_eq {v w : JsValue} (hv : v.Plain) (hw : w.Plain)
    (h : v.stringify = w.stringify) : v = w := by
  have hread := JsonText.parse_stringify id hv 0
  rw [h, JsonText.parse_stringify id hw 0] at hread
  exact (Option.some.inj hread).symm

/-! ## Source hashes -/

section SourceHash

variable (sha256Hex : String → String)

/-- The hash of a domain's name and of the document of its units. -/
def documentHash (domain : String) (items : List JsValue) : String :=
  sha256Hex (domain ++ "\n" ++ (JsValue.arr items).stringify)

/-- A hash over units tells which units are listed with which hashes. -/
def Identifies (sourceHash : List (ListedUnit κ) → String) : Prop :=
  ∀ units units', sourceHash units = sourceHash units' →
    ∀ pair, pair ∈ units.map ListedUnit.identity ↔ pair ∈ units'.map ListedUnit.identity

variable {sha256Hex}

theorem items_eq_of_documentHash (hsha : Function.Injective sha256Hex) {domain : String}
    {items items' : List JsValue} (hplain : ∀ v ∈ items, v.Plain) (hplain' : ∀ v ∈ items', v.Plain)
    (h : documentHash sha256Hex domain items = documentHash sha256Hex domain items') :
    items = items' := by
  have htext := String.append_right_inj _ |>.mp (hsha h)
  exact JsValue.arr.inj (eq_of_stringify_eq (JsValue.plainItems_iff.mpr hplain)
    (JsValue.plainItems_iff.mpr hplain') htext)

theorem map_eq_of_map_eq {α β γ : Type*} {f : α → β} {g : α → γ}
    (hinj : ∀ a b, f a = f b → g a = g b) : ∀ {l l' : List α}, l.map f = l'.map f →
      l.map g = l'.map g
  | [], [], _ => rfl
  | [], _ :: _, h => by simp at h
  | _ :: _, [], h => by simp at h
  | a :: l, b :: l', h => by
    obtain ⟨hhead, htail⟩ := List.cons.inj h
    rw [List.map_cons, List.map_cons, hinj a b hhead, map_eq_of_map_eq hinj htail]

/-- Documents of units in some order identify them when the document of a unit does. -/
theorem identifies_documentHash (hsha : Function.Injective sha256Hex) (domain : String)
    {unitJs : ListedUnit κ → JsValue} {arrange : List (ListedUnit κ) → List (ListedUnit κ)}
    (harrange : ∀ units, (arrange units).Perm units) (hplain : ∀ u, (unitJs u).Plain)
    (hinj : ∀ u v, unitJs u = unitJs v → u.identity = v.identity) :
    Identifies fun units ↦ documentHash sha256Hex domain ((arrange units).map unitJs) := by
  intro units units' h pair
  have hitems := items_eq_of_documentHash hsha (List.forall_mem_map.mpr fun u _ ↦ hplain u)
    (List.forall_mem_map.mpr fun u _ ↦ hplain u) h
  rw [← ((harrange units).map _).mem_iff, map_eq_of_map_eq hinj hitems,
    ((harrange units').map _).mem_iff]

end SourceHash

/-! ## Core days -/

section Core

variable (sha256Hex : String → String)

/-- The manifest whose hash stands for the day. -/
def manifestKey (day : ListedUnit String) : String := day.relativePath ++ "/manifest.json"

def normalizeCoreDay (sourcePrefix : String) (entry : ListedUnit String) : ListedUnit String :=
  { entry with relativePath := sourcePrefix ++ "/day_utc=" ++ entry.key }

/-- What of a day its source hash covers. -/
def stableDay (day : ListedUnit String) : JsValue :=
  .obj [("day_utc", .str day.key), ("manifest_key", .str (manifestKey day)),
    ("manifest_hash", .str day.hash), ("manifest_size", sizeJs day.size)]

def coreSourceHash (days : List (ListedUnit String)) : String :=
  documentHash sha256Hex "uk_aq:r2_history:v2:core:v1" (days.map stableDay)

structure CoreInventoryShard where
  sourcePrefix : String
  sourceHash : String
  days : List (ListedUnit String)

def buildCoreInventoryShard (sourcePrefix : String) (days : List (ListedUnit String)) :
    CoreInventoryShard :=
  let normalizedDays := sortBy (fun left right ↦ compare left.key right.key)
    (days.map (normalizeCoreDay sourcePrefix))
  ⟨sourcePrefix, coreSourceHash sha256Hex normalizedDays, normalizedDays⟩

def validateCoreInventoryShard (raw : CoreInventoryShard) : Except String CoreInventoryShard := do
  let shard := buildCoreInventoryShard sha256Hex raw.sourcePrefix raw.days
  Except.refuseIf (shard.sourceHash ≠ raw.sourceHash) "Core inventory shard source_hash mismatch"
  return shard

/-- The shard as it is stored. -/
def CoreInventoryShard.toJs (shard : CoreInventoryShard) : JsValue :=
  .obj [("schema_version", .int 1), ("kind", .str "uk_aq_r2_history_backup_inventory_core"),
    ("backup_version", .str "v2"), ("source_prefix", .str shard.sourcePrefix),
    ("source_hash", .str shard.sourceHash),
    ("days", .arr (shard.days.map fun day ↦ .obj [("day_utc", .str day.key),
      ("relative_path", .str day.relativePath), ("manifest_key", .str (manifestKey day)),
      ("manifest_hash", .str day.hash), ("manifest_size", sizeJs day.size),
      ("r2_md5", textJs day.r2Md5), ("r2_modtime", textJs day.r2Modtime)]))]

structure CoreRootReference where
  inventoryShardKey : String
  inventoryShardHash : String
  sourceHash : String
  unitCount : ℕ

variable {sha256Hex}

theorem identifies_coreSourceHash (hsha : Function.Injective sha256Hex) :
    Identifies (coreSourceHash sha256Hex) := by
  refine identifies_documentHash hsha _
    (fun (days : List (ListedUnit String)) ↦ List.Perm.refl (id days)) (fun day ↦ ?_)
    fun day day' h ↦ ?_
  · exact ⟨JsValue.plainFields_iff.mpr (by simp [JsValue.Plain, plain_sizeJs]; decide), by simp⟩
  · simp only [stableDay, JsValue.obj.injEq, List.cons.injEq, Prod.mk.injEq, JsValue.str.injEq,
      true_and] at h
    exact Prod.ext h.1 h.2.2.1

/-- A validated shard carries the hash of its days, and lists each of the raw days. -/
theorem validateCoreInventoryShard_spec {raw shard : CoreInventoryShard}
    (h : validateCoreInventoryShard sha256Hex raw = .ok shard) :
    shard.sourceHash = coreSourceHash sha256Hex shard.days ∧
      (shard.days.map ListedUnit.key).Perm (raw.days.map ListedUnit.key) := by
  obtain ⟨-, -, hshard⟩ := Except.bind_eq_ok_iff.mp h
  rw [← Except.pure_eq_ok_iff.mp hshard]
  refine ⟨rfl, ((sortBy_perm _).map _).trans ?_⟩
  rw [List.map_map]
  exact .of_eq rfl

end Core

/-! ## Timeseries bindings -/

section Bindings

variable (sha256Hex : String → String)

def rangeSize : ℕ := 1000

/-- `normalizeRangeBounds` lets the range through. -/
def IsRange (rangeStart : ℕ) : Prop :=
  rangeStart % rangeSize = 0 ∧ ((rangeStart + rangeSize - 1 : ℕ) : ℤ) ≤ maxSafeInteger

instance : DecidablePred IsRange := fun _ ↦ inferInstanceAs (Decidable (_ ∧ _))

def normalizeRangeBounds (rangeStart rangeEnd : ℕ) : Except String Unit :=
  Except.refuseIf (¬(IsRange rangeStart ∧ rangeEnd = rangeStart + rangeSize - 1))
    s!"Invalid timeseries binding range {rangeStart}-{rangeEnd}"

/-- What of a binding the source hash of its range covers. -/
def hashUnit (unit : ListedUnit TimeseriesId) : JsValue :=
  .obj [("timeseries_id", .int unit.key.1), ("relative_path", .str unit.relativePath),
    ("hash", .str unit.hash), ("size", sizeJs unit.size)]

def sortUnits (units : List (ListedUnit TimeseriesId)) : List (ListedUnit TimeseriesId) :=
  sortBy (fun left right ↦ compare left.key.1 right.key.1) units

def rangeSourceHash (units : List (ListedUnit TimeseriesId)) : String :=
  documentHash sha256Hex "uk_aq:r2_history:v2:timeseries_binding_range:v1"
    ((sortUnits units).map hashUnit)

structure RangeInventoryShard where
  rangeStart : ℕ
  rangeEnd : ℕ
  sourcePrefix : String
  sourceRangeHash : String
  units : List (ListedUnit TimeseriesId)

/-- Refuse a binding that lies outside the range or was seen before. -/
def checkUnit (rangeStart rangeEnd : ℕ) (seen : List TimeseriesId)
    (unit : ListedUnit TimeseriesId) : Except String (List TimeseriesId) := do
  Except.refuseIf (unit.key.1 < rangeStart ∨ rangeEnd < unit.key.1)
    s!"Timeseries binding {unit.key.1} outside range {rangeStart}-{rangeEnd}"
  Except.refuseIf (unit.key ∈ seen) s!"Duplicate timeseries binding {unit.key.1}"
  return unit.key :: seen

def buildTimeseriesBindingRangeInventoryShard (sourcePrefix : String) (rangeStart rangeEnd : ℕ)
    (units : List (ListedUnit TimeseriesId)) : Except String RangeInventoryShard := do
  normalizeRangeBounds rangeStart rangeEnd
  let normalizedUnits := sortUnits units
  let _ ← normalizedUnits.foldlM (checkUnit rangeStart rangeEnd) []
  return ⟨rangeStart, rangeEnd, sourcePrefix, rangeSourceHash sha256Hex normalizedUnits,
    normalizedUnits⟩

def validateTimeseriesBindingRangeInventoryShard (shard : RangeInventoryShard) :
    Except String RangeInventoryShard := do
  let canonical ← buildTimeseriesBindingRangeInventoryShard sha256Hex shard.sourcePrefix
    shard.rangeStart shard.rangeEnd shard.units
  Except.refuseIf (canonical.sourceRangeHash ≠ shard.sourceRangeHash)
    "Timeseries binding range source_range_hash mismatch"
  return canonical

/-- What the root lists of a range. -/
structure RangeReference where
  rangeStart : ℕ
  isRange : IsRange rangeStart
  sourceRangeHash : String
  inventoryShardKey : String
  unitCount : Size

def RangeReference.rangeEnd (range : RangeReference) : ℕ := range.rangeStart + rangeSize - 1

def hashRange (range : RangeReference) : JsValue :=
  .obj [("range_start", .int range.rangeStart), ("range_end", .int range.rangeEnd),
    ("source_range_hash", .str range.sourceRangeHash),
    ("inventory_shard_key", .str range.inventoryShardKey), ("unit_count", .int range.unitCount.1)]

def sortRanges (ranges : List RangeReference) : List RangeReference :=
  sortBy (fun left right ↦ compare left.rangeStart right.rangeStart) ranges

def rootSourceHash (ranges : List RangeReference) : String :=
  documentHash sha256Hex "uk_aq:r2_history:v2:timeseries_binding_root:v1"
    ((sortRanges ranges).map hashRange)

/-- The root reference of the bindings: each range once, and the hash of the ranges. -/
structure RootReference where
  ranges : List RangeReference
  nodup : (ranges.map RangeReference.rangeStart).Nodup

def RootReference.sourceRootHash (root : RootReference) : String :=
  rootSourceHash sha256Hex root.ranges

/-- The range a binding belongs to. -/
def rangeStartOf (id : TimeseriesId) : ℕ := id.1 / rangeSize * rangeSize

variable {sha256Hex}

theorem identifies_rangeSourceHash (hsha : Function.Injective sha256Hex) :
    Identifies (rangeSourceHash sha256Hex) := by
  refine identifies_documentHash hsha _ (fun units ↦ sortBy_perm units) (fun unit ↦ ?_)
    fun unit unit' h ↦ ?_
  · have hkey : (JsValue.int unit.key.1).Plain := plain_int unit.key.2.2
    exact ⟨JsValue.plainFields_iff.mpr (by simp [JsValue.Plain, plain_sizeJs, hkey]; decide),
      by simp⟩
  · simp only [hashUnit, JsValue.obj.injEq, List.cons.injEq, Prod.mk.injEq, JsValue.str.injEq,
      true_and] at h
    exact Prod.ext (Subtype.ext (natCast_injective h.1)) h.2.2.1

theorem rangeStartOf_eq {id : TimeseriesId} {rangeStart : ℕ} (hrange : rangeStart % rangeSize = 0)
    (hlow : rangeStart ≤ id.1) (hhigh : id.1 ≤ rangeStart + rangeSize - 1) :
    rangeStartOf id = rangeStart := by
  simp only [rangeStartOf, rangeSize] at *
  omega

theorem checkUnits_spec {rangeStart rangeEnd : ℕ} {units : List (ListedUnit TimeseriesId)}
    {seen seen' : List TimeseriesId}
    (h : units.foldlM (checkUnit rangeStart rangeEnd) seen = .ok seen') :
    (∀ unit ∈ units, rangeStart ≤ unit.key.1 ∧ unit.key.1 ≤ rangeEnd ∧ unit.key ∉ seen) ∧
      (units.map ListedUnit.key).Nodup := by
  induction units generalizing seen with
  | nil => exact ⟨by simp, List.nodup_nil⟩
  | cons unit rest ih =>
    rw [List.foldlM_cons] at h
    obtain ⟨next, hnext, hrest⟩ := Except.bind_eq_ok_iff.mp h
    obtain ⟨_, hinside, hnext⟩ := Except.bind_eq_ok_iff.mp hnext
    obtain ⟨_, hnew, hnext⟩ := Except.bind_eq_ok_iff.mp hnext
    rw [← Except.pure_eq_ok_iff.mp hnext] at hrest
    rw [Except.refuseIf_eq_ok_iff, not_or, not_lt, not_lt] at hinside
    obtain ⟨hunits, hnodup⟩ := ih hrest
    refine ⟨List.forall_mem_cons.mpr ⟨⟨hinside.1, hinside.2, Except.refuseIf_eq_ok_iff.mp hnew⟩,
      fun u hu ↦ ?_⟩, List.nodup_cons.mpr ⟨fun hmem ↦ ?_, hnodup⟩⟩
    · obtain ⟨hlow, hhigh, hseen⟩ := hunits u hu
      exact ⟨hlow, hhigh, fun hmem ↦ hseen (List.mem_cons_of_mem _ hmem)⟩
    · obtain ⟨u, hu, hkey⟩ := List.mem_map.mp hmem
      exact (hunits u hu).2.2 (hkey ▸ List.mem_cons_self)

/-- A validated shard carries the hash of its bindings, which are those of its range, each listed
once. -/
theorem validateRangeInventoryShard_spec {raw shard : RangeInventoryShard}
    (h : validateTimeseriesBindingRangeInventoryShard sha256Hex raw = .ok shard) :
    shard.sourceRangeHash = rangeSourceHash sha256Hex shard.units ∧
      (∀ unit ∈ shard.units, rangeStartOf unit.key = shard.rangeStart) ∧
      (shard.units.map ListedUnit.key).Nodup := by
  obtain ⟨canonical, hcanonical, h⟩ := Except.bind_eq_ok_iff.mp h
  obtain ⟨-, -, h⟩ := Except.bind_eq_ok_iff.mp h
  rw [← Except.pure_eq_ok_iff.mp h]
  obtain ⟨_, hrange, hcanonical⟩ := Except.bind_eq_ok_iff.mp hcanonical
  obtain ⟨_, hunits, hcanonical⟩ := Except.bind_eq_ok_iff.mp hcanonical
  rw [← Except.pure_eq_ok_iff.mp hcanonical]
  rw [normalizeRangeBounds, Except.refuseIf_eq_ok_iff, not_not] at hrange
  obtain ⟨hinside, hnodup⟩ := checkUnits_spec hunits
  refine ⟨rfl, fun unit hunit ↦ ?_, hnodup⟩
  obtain ⟨hlow, hhigh, -⟩ := hinside unit hunit
  exact rangeStartOf_eq hrange.1.1 hlow (hrange.2 ▸ hhigh)

/-- The root hash tells which ranges are listed with which hashes. -/
theorem mem_of_rootSourceHash_eq (hsha : Function.Injective sha256Hex)
    {ranges ranges' : List RangeReference}
    (h : rootSourceHash sha256Hex ranges = rootSourceHash sha256Hex ranges') (pair : ℕ × String) :
    pair ∈ ranges.map (fun range ↦ (range.rangeStart, range.sourceRangeHash)) ↔
      pair ∈ ranges'.map (fun range ↦ (range.rangeStart, range.sourceRangeHash)) := by
  have hplain : ∀ range, (hashRange range).Plain := fun range ↦ by
    have hend : (JsValue.int range.rangeEnd).Plain := plain_int range.isRange.2
    have hstart : (JsValue.int range.rangeStart).Plain := plain_int (by
      have := range.isRange.2
      simp only [rangeSize] at this
      omega)
    have hcount : (JsValue.int range.unitCount.1).Plain := plain_int range.unitCount.2
    exact ⟨JsValue.plainFields_iff.mpr (by simp [JsValue.Plain, hstart, hend, hcount]; decide),
      by simp⟩
  have hinj : ∀ range range', hashRange range = hashRange range' →
      (range.rangeStart, range.sourceRangeHash) = (range'.rangeStart, range'.sourceRangeHash) := by
    intro range range' h
    simp only [hashRange, JsValue.obj.injEq, List.cons.injEq, Prod.mk.injEq, JsValue.str.injEq,
      true_and] at h
    exact Prod.ext (natCast_injective h.1) h.2.2.1
  have hitems := items_eq_of_documentHash hsha (List.forall_mem_map.mpr fun u _ ↦ hplain u)
    (List.forall_mem_map.mpr fun u _ ↦ hplain u) h
  rw [← ((sortBy_perm ranges).map _).mem_iff, ← ((sortBy_perm ranges').map _).mem_iff]
  exact iff_of_eq (congrArg (pair ∈ ·) (map_eq_of_map_eq hinj hitems))

end Bindings

end UkAqOps.Backup

import UkAqOps.Js.Date
import UkAqOps.Js.Stringify
import UkAqOps.Lib.Except

/-!
# Aggregate manifests

`src/workers/shared/uk_aq_r2_observations_manifest_hierarchy.mjs`: above the day manifests of the
observation history stand month manifests, above these year manifests, and one root manifest above
them all. Each lists its children by key together with their hashes, and its own content hash is
taken over that list.

A manifest that is read back is rebuilt from its own children, so what validation returns is in
canonical form whatever the stored object looked like.
-/

namespace UkAqOps.Hierarchy

/-- The built-in operations that stored objects are read and written with: SHA-256 of bytes in hex,
`toLowerCase`, `body.toString("utf8")`, `JSON.parse`, `Number(value)` where that is a safe integer,
the text of the sum of some numbers in double precision, and `new Date(text).getTime()`. A stored
object is its bytes. -/
structure Host where
  sha256Hex : List ℕ → String
  toLowerCase : String → String
  decodeUtf8 : List ℕ → String
  parseJson : String → Option JsValue
  safeInteger : JsValue → Option ℤ
  sumText : List ℤ → String
  dateParse : String → Option ℤ

/-! ## Normalising -/

/-- A path of non-empty parts, none of them a dot or two. -/
def isPlainPath (path : String) : Bool :=
  path ≠ "" && (splitText path '/').all fun part ↦ part ≠ "" && part ≠ "." && part ≠ ".."

def normalizePrefix (value : String) : Except String String :=
  let basePrefix := stripSlashes (trimText value)
  if isPlainPath basePrefix then .ok basePrefix
  else .error s!"Invalid observations aggregate manifest prefix: {value}"

def normalizeYear (value : JsValue) : Except String ℤ :=
  let text := (trimText value.textOrEmpty).toList
  if text.length = 4 ∧ text.all Char.isDigit ∧ 1 ≤ decimalOf text then .ok (decimalOf text)
  else .error s!"Invalid observations aggregate manifest year: {value.textOrEmpty}"

/-- `String(month).padStart(2, "0")`. -/
def monthText (month : ℤ) : String := padZeros (toString month) 2

def normalizeMonth (value : JsValue) : Except String String :=
  let text := (trimText value.textOrEmpty).toList
  let month := decimalOf text
  if (text.length = 1 ∨ text.length = 2) ∧ text.all Char.isDigit ∧ 1 ≤ month ∧ month ≤ 12 then
    .ok (monthText month)
  else .error s!"Invalid observations aggregate manifest month: {value.textOrEmpty}"

def normalizeDay (value : JsValue) : Except String String :=
  let day := trimText value.orBlank
  if (parseIsoDay day).isSome then .ok day
  else .error s!"Invalid observations aggregate manifest day: {value.orBlank}"

def normalizeSha256 (host : Host) (value : JsValue) (fieldName : String) : Except String String :=
  let hash := host.toLowerCase (trimText value.orBlank)
  if isSha256Hex hash then .ok hash else .error s!"Invalid {fieldName}: {value.orBlank}"

/-- The year and the month of a day, as they stand in its text. -/
def dayYear (day : String) : ℤ := decimalOf (day.toList.take 4)
def dayMonth (day : String) : String := String.ofList ((day.toList.drop 5).take 2)

/-! ## Keys -/

def buildR2HistoryV2ObservationsRootManifestKey (basePrefix : String) : Except String String := do
  let basePrefix ← normalizePrefix basePrefix
  pure (basePrefix ++ "/_manifests/manifest.json")

def buildR2HistoryV2ObservationsYearManifestKey (basePrefix : String) (year : JsValue) :
    Except String String := do
  let basePrefix ← normalizePrefix basePrefix
  let year ← normalizeYear year
  pure (basePrefix ++ "/_manifests/year=" ++ toString year ++ "/manifest.json")

def buildR2HistoryV2ObservationsMonthManifestKey (basePrefix : String) (year month : JsValue) :
    Except String String := do
  let basePrefix ← normalizePrefix basePrefix
  let year ← normalizeYear year
  let month ← normalizeMonth month
  pure (basePrefix ++ "/_manifests/year=" ++ toString year ++ "/month=" ++ month ++ "/manifest.json")

def buildDayManifestKey (basePrefix : String) (dayUtc : String) : Except String String := do
  let basePrefix ← normalizePrefix basePrefix
  let dayUtc ← normalizeDay (.str dayUtc)
  pure (basePrefix ++ "/day_utc=" ++ dayUtc ++ "/manifest.json")

/-! ## Children -/

structure MonthChild where
  dayUtc : String
  manifestKey : String
  manifestHash : String
deriving DecidableEq

structure YearChild where
  month : String
  manifestKey : String
  contentHash : String
deriving DecidableEq

structure RootChild where
  year : ℤ
  manifestKey : String
  contentHash : String
deriving DecidableEq

def MonthChild.toValue (child : MonthChild) : JsValue :=
  .obj [("day_utc", .str child.dayUtc), ("manifest_key", .str child.manifestKey),
    ("manifest_hash", .str child.manifestHash)]

def YearChild.toValue (child : YearChild) : JsValue :=
  .obj [("month", .str child.month), ("manifest_key", .str child.manifestKey),
    ("content_hash", .str child.contentHash)]

def RootChild.toValue (child : RootChild) : JsValue :=
  .obj [("year", .int child.year), ("manifest_key", .str child.manifestKey),
    ("content_hash", .str child.contentHash)]

/-- The first value that occurs a second time. -/
def firstRepeated {α : Type} [DecidableEq α] (seen : List α) : List α → Option α
  | [] => none
  | a :: rest => if a ∈ seen then some a else firstRepeated (a :: seen) rest

theorem firstRepeated_eq_none_iff {α : Type} [DecidableEq α] {seen l : List α} :
    firstRepeated seen l = none ↔ l.Nodup ∧ ∀ a ∈ l, a ∉ seen := by
  induction l generalizing seen with
  | nil => simp [firstRepeated]
  | cons a rest ih =>
    rw [firstRepeated, List.nodup_cons, List.forall_mem_cons]
    by_cases ha : a ∈ seen
    · rw [if_pos ha]
      exact ⟨fun h ↦ (nomatch h), fun h ↦ absurd ha h.2.1⟩
    · rw [if_neg ha, ih]
      constructor
      · rintro ⟨hnodup, hfree⟩
        exact ⟨⟨fun hmem ↦ hfree a hmem List.mem_cons_self, hnodup⟩, ha, fun b hb hseen ↦
          hfree b hb (List.mem_cons_of_mem _ hseen)⟩
      · rintro ⟨⟨hnotin, hnodup⟩, -, hfree⟩
        refine ⟨hnodup, fun b hb hmem ↦ ?_⟩
        rcases List.mem_cons.mp hmem with rfl | hseen
        · exact hnotin hb
        · exact hfree b hb hseen

def assertUnique {α : Type} [DecidableEq α] (text : α → String) (level : String)
    (values : List α) : Except String Unit :=
  match firstRepeated [] values with
  | none => .ok ()
  | some value => .error s!"Duplicate observations {level} aggregate manifest child: {text value}"

theorem assertUnique_eq_ok_iff {α : Type} [DecidableEq α] {text : α → String} {level : String}
    {values : List α} {u : Unit} : assertUnique text level values = .ok u ↔ values.Nodup := by
  have hrepeated : firstRepeated [] values = none ↔ values.Nodup ∧ ∀ a ∈ values, a ∉ [] :=
    firstRepeated_eq_none_iff
  rw [assertUnique]
  cases h : firstRepeated [] values with
  | none => exact ⟨fun _ ↦ (hrepeated.mp h).1, fun _ ↦ rfl⟩
  | some value =>
    rw [h] at hrepeated
    exact ⟨fun h' ↦ (nomatch h'), fun hnodup ↦
      nomatch hrepeated.mpr ⟨hnodup, fun _ _ ↦ List.not_mem_nil⟩⟩

def requireNonEmptyChildren (children : List JsValue) (level : String) :
    Except String (List JsValue) :=
  if children = [] then
    .error s!"Observations {level} aggregate manifest requires at least one child"
  else .ok children

/-- `String(value || expected).trim()`. -/
def keyOr (value : JsValue) (expected : String) : String := trimText (value.textOr expected)

/-- `key || "(empty)"`. -/
def orEmpty (key : String) : String := if key = "" then "(empty)" else key

def canonicalMonthChild (host : Host) (basePrefix : String) (year : ℤ) (month : String)
    (manifest : JsValue) : Except String MonthChild := do
  let dayUtc ← normalizeDay (manifest.optional "day_utc")
  Except.refuseIf (dayYear dayUtc ≠ year ∨ dayMonth dayUtc ≠ month)
    s!"Observation day {dayUtc} does not belong to {year}-{month}"
  let manifestKey := keyOr (manifest.optional "manifest_key") ""
  let expectedKey ← buildDayManifestKey basePrefix dayUtc
  Except.refuseIf (manifestKey ≠ expectedKey)
    s!"Unexpected day manifest key for {dayUtc}: {orEmpty manifestKey}"
  let manifestHash ← normalizeSha256 host (manifest.optional "manifest_hash")
    s!"day manifest_hash for {dayUtc}"
  pure ⟨dayUtc, manifestKey, manifestHash⟩

def canonicalMonthChildren (host : Host) (basePrefix : String) (year : ℤ) (month : String)
    (dayManifests : List JsValue) : Except String (List MonthChild) := do
  let year ← normalizeYear (.int year)
  let month ← normalizeMonth (.str month)
  let children ← requireNonEmptyChildren dayManifests "month"
  let children ← children.mapM (canonicalMonthChild host basePrefix year month)
  let children := Sorting.sortBy (fun a b ↦ bytewiseCompare a.dayUtc b.dayUtc) children
  assertUnique id "month" (children.map MonthChild.dayUtc)
  pure children

def canonicalYearChild (host : Host) (basePrefix : String) (year : ℤ) (manifest : JsValue) :
    Except String YearChild := do
  let childYear ← normalizeYear (manifest.optional "year")
  let month ← normalizeMonth (manifest.optional "month")
  Except.refuseIf (childYear ≠ year)
    s!"Observation month {childYear}-{month} does not belong to {year}"
  let expectedKey ← buildR2HistoryV2ObservationsMonthManifestKey basePrefix (.int year) (.str month)
  let manifestKey := keyOr (manifest.optional "manifest_key") expectedKey
  Except.refuseIf (manifestKey ≠ expectedKey)
    s!"Unexpected month manifest key for {year}-{month}: {orEmpty manifestKey}"
  let contentHash ← normalizeSha256 host (manifest.optional "content_hash")
    s!"month content_hash for {year}-{month}"
  pure ⟨month, manifestKey, contentHash⟩

def canonicalYearChildren (host : Host) (basePrefix : String) (year : ℤ)
    (monthManifests : List JsValue) : Except String (List YearChild) := do
  let year ← normalizeYear (.int year)
  let children ← requireNonEmptyChildren monthManifests "year"
  let children ← children.mapM (canonicalYearChild host basePrefix year)
  let children := Sorting.sortBy (fun a b ↦ bytewiseCompare a.month b.month) children
  assertUnique id "year" (children.map YearChild.month)
  pure children

def canonicalRootChild (host : Host) (basePrefix : String) (manifest : JsValue) :
    Except String RootChild := do
  let year ← normalizeYear (manifest.optional "year")
  let expectedKey ← buildR2HistoryV2ObservationsYearManifestKey basePrefix (.int year)
  let manifestKey := keyOr (manifest.optional "manifest_key") expectedKey
  Except.refuseIf (manifestKey ≠ expectedKey)
    s!"Unexpected year manifest key for {year}: {orEmpty manifestKey}"
  let contentHash ← normalizeSha256 host (manifest.optional "content_hash")
    s!"year content_hash for {year}"
  pure ⟨year, manifestKey, contentHash⟩

def canonicalRootChildren (host : Host) (basePrefix : String) (yearManifests : List JsValue) :
    Except String (List RootChild) := do
  let children ← requireNonEmptyChildren yearManifests "root"
  let children ← children.mapM (canonicalRootChild host basePrefix)
  let children := Sorting.sortBy (fun a b ↦ compare a.year b.year) children
  assertUnique toString "root" (children.map RootChild.year)
  pure children

/-! ## Manifests -/

structure MonthManifest where
  year : ℤ
  month : String
  children : List MonthChild
  contentHash : String
deriving DecidableEq

structure YearManifest where
  year : ℤ
  children : List YearChild
  contentHash : String
deriving DecidableEq

structure RootManifest where
  children : List RootChild
  contentHash : String
deriving DecidableEq

/-- A manifest of one of the three levels. -/
inductive AggregateManifest where
  | month (manifest : MonthManifest)
  | year (manifest : YearManifest)
  | root (manifest : RootManifest)
deriving DecidableEq

def monthKind : String := "uk_aq_observations_month_manifest"
def yearKind : String := "uk_aq_observations_year_manifest"
def rootKind : String := "uk_aq_observations_root_manifest"

/-- The object that is stored for a manifest of a kind: its own fields stand between the fields that
every manifest has. -/
def aggregateValue (kind : String) (own : List (String × JsValue)) (children : List JsValue)
    (contentHash : String) : JsValue :=
  .obj ([("kind", .str kind), ("schema_version", .int 1), ("domain", .str "observations")] ++ own ++
    [("children", .arr children), ("content_hash", .str contentHash),
      ("content_hash_algorithm", .str "sha256")])

def MonthManifest.toValue (manifest : MonthManifest) : JsValue :=
  aggregateValue monthKind [("year", .int manifest.year), ("month", .str manifest.month)]
    (manifest.children.map MonthChild.toValue) manifest.contentHash

def YearManifest.toValue (manifest : YearManifest) : JsValue :=
  aggregateValue yearKind [("year", .int manifest.year)]
    (manifest.children.map YearChild.toValue) manifest.contentHash

def RootManifest.toValue (manifest : RootManifest) : JsValue :=
  aggregateValue rootKind [] (manifest.children.map RootChild.toValue) manifest.contentHash

def AggregateManifest.toValue : AggregateManifest → JsValue
  | month manifest => manifest.toValue
  | year manifest => manifest.toValue
  | root manifest => manifest.toValue

def computeR2HistoryV2ObservationsAggregateContentHash (host : Host) (level : String)
    (children : List JsValue) : String :=
  host.sha256Hex (utf8 ("uk_aq:r2_history:v2:observations_aggregate_manifest:v1:" ++ level ++ "\n"
    ++ (JsValue.arr children).stringify))

def buildR2HistoryV2ObservationsMonthManifest (host : Host) (basePrefix : String)
    (year month : JsValue) (dayManifests : List JsValue) : Except String MonthManifest := do
  let basePrefix ← normalizePrefix basePrefix
  let year ← normalizeYear year
  let month ← normalizeMonth month
  let children ← canonicalMonthChildren host basePrefix year month dayManifests
  pure ⟨year, month, children, computeR2HistoryV2ObservationsAggregateContentHash host "month"
    (children.map MonthChild.toValue)⟩

def buildR2HistoryV2ObservationsYearManifest (host : Host) (basePrefix : String) (year : JsValue)
    (monthManifests : List JsValue) : Except String YearManifest := do
  let basePrefix ← normalizePrefix basePrefix
  let year ← normalizeYear year
  let children ← canonicalYearChildren host basePrefix year monthManifests
  pure ⟨year, children, computeR2HistoryV2ObservationsAggregateContentHash host "year"
    (children.map YearChild.toValue)⟩

def buildR2HistoryV2ObservationsRootManifest (host : Host) (basePrefix : String)
    (yearManifests : List JsValue) : Except String RootManifest := do
  let basePrefix ← normalizePrefix basePrefix
  let children ← canonicalRootChildren host basePrefix yearManifests
  pure ⟨children, computeR2HistoryV2ObservationsAggregateContentHash host "root"
    (children.map RootChild.toValue)⟩

/-! ## Validation -/

/-- `children.map(…)`, which is a `TypeError` unless the children are an array. -/
def mapChildren (children : JsValue) (f : JsValue → JsValue) : Except String (List JsValue) :=
  match children with
  | .undefined => .error "Cannot read properties of undefined (reading 'map')"
  | .null => .error "Cannot read properties of null (reading 'map')"
  | .arr items => .ok (items.map f)
  | _ => .error "manifest.children.map is not a function"

def rebuildAggregate (host : Host) (manifest : JsValue) (basePrefix : String) :
    Except String (String × AggregateManifest) :=
  if (manifest.optional "kind").isText monthKind then do
    let canonical ← buildR2HistoryV2ObservationsMonthManifest host basePrefix
      (manifest.optional "year") (manifest.optional "month")
      (((manifest.optional "children").items?).getD [])
    pure ("month", .month canonical)
  else if (manifest.optional "kind").isText yearKind then do
    let children ← mapChildren (manifest.optional "children") fun child ↦
      .obj [("year", manifest.optional "year"), ("month", child.optional "month"),
        ("manifest_key", child.optional "manifest_key"),
        ("content_hash", child.optional "content_hash")]
    let canonical ← buildR2HistoryV2ObservationsYearManifest host basePrefix
      (manifest.optional "year") children
    pure ("year", .year canonical)
  else if (manifest.optional "kind").isText rootKind then do
    let children ← mapChildren (manifest.optional "children") fun child ↦
      .obj [("year", child.optional "year"), ("manifest_key", child.optional "manifest_key"),
        ("content_hash", child.optional "content_hash")]
    let canonical ← buildR2HistoryV2ObservationsRootManifest host basePrefix children
    pure ("root", .root canonical)
  else
    let kind := (manifest.optional "kind").orBlank
    .error s!"Unsupported observations aggregate manifest kind: {kind}"

def AggregateManifest.contentHash : AggregateManifest → String
  | month manifest => manifest.contentHash
  | year manifest => manifest.contentHash
  | root manifest => manifest.contentHash

def validateR2HistoryV2ObservationsAggregateManifest (host : Host) (manifest : JsValue)
    (basePrefix : String) : Except String AggregateManifest := do
  let version := manifest.optional "schema_version"
  let domain := manifest.optional "domain"
  let algorithm := manifest.optional "content_hash_algorithm"
  Except.refuseIf (manifest.isObject = false) "Observations aggregate manifest must be a JSON object"
  Except.refuseIf (version.isInt 1 = false)
    s!"Unsupported observations aggregate manifest schema_version: {version.text}"
  Except.refuseIf (domain.isText "observations" = false)
    s!"Unexpected observations aggregate manifest domain: {domain.orBlank}"
  Except.refuseIf (algorithm.isText "sha256" = false)
    s!"Unexpected observations aggregate content hash algorithm: {algorithm.orBlank}"
  let (level, canonical) ← rebuildAggregate host manifest basePrefix
  let suppliedHash ← normalizeSha256 host (manifest.optional "content_hash") s!"{level} content_hash"
  Except.refuseIf (suppliedHash ≠ canonical.contentHash)
    s!"Observations {level} aggregate manifest content_hash mismatch"
  pure canonical

def serializeR2HistoryV2ObservationsAggregateManifest (host : Host) (manifest : AggregateManifest)
    (basePrefix : String) : Except String (List ℕ) := do
  let canonical ← validateR2HistoryV2ObservationsAggregateManifest host manifest.toValue basePrefix
  pure (utf8 canonical.toValue.stringify)

/-! ## What a validated manifest is -/

section Validated

variable {host : Host} {basePrefix : String}

/-- Validation returns what was rebuilt. -/
theorem exists_rebuild_of_validate {payload : JsValue} {value : AggregateManifest}
    (h : validateR2HistoryV2ObservationsAggregateManifest host payload basePrefix = .ok value) :
    ∃ level, rebuildAggregate host payload basePrefix = .ok (level, value) := by
  rw [validateR2HistoryV2ObservationsAggregateManifest] at h
  obtain ⟨_, -, h⟩ := Except.bind_eq_ok_iff.mp h
  obtain ⟨_, -, h⟩ := Except.bind_eq_ok_iff.mp h
  obtain ⟨_, -, h⟩ := Except.bind_eq_ok_iff.mp h
  obtain ⟨_, -, h⟩ := Except.bind_eq_ok_iff.mp h
  obtain ⟨⟨level, canonical⟩, hrebuilt, h⟩ := Except.bind_eq_ok_iff.mp h
  obtain ⟨_, -, h⟩ := Except.bind_eq_ok_iff.mp h
  obtain ⟨_, -, h⟩ := Except.bind_eq_ok_iff.mp h
  exact ⟨level, (Except.pure_eq_ok_iff.mp h) ▸ hrebuilt⟩

/-- What was rebuilt comes from one of the three builders. -/
theorem built_of_rebuild {payload : JsValue} {level : String} {value : AggregateManifest}
    (h : rebuildAggregate host payload basePrefix = .ok (level, value)) :
    (∃ year month days manifest, value = .month manifest ∧
      buildR2HistoryV2ObservationsMonthManifest host basePrefix year month days = .ok manifest) ∨
    (∃ year months manifest, value = .year manifest ∧
      buildR2HistoryV2ObservationsYearManifest host basePrefix year months = .ok manifest) ∨
    ∃ years manifest, value = .root manifest ∧
      buildR2HistoryV2ObservationsRootManifest host basePrefix years = .ok manifest := by
  rw [rebuildAggregate] at h
  split at h
  · obtain ⟨manifest, hmanifest, h⟩ := Except.bind_eq_ok_iff.mp h
    exact Or.inl ⟨_, _, _, manifest, (Prod.mk.inj (Except.pure_eq_ok_iff.mp h)).2.symm, hmanifest⟩
  · split at h
    · obtain ⟨_, -, h⟩ := Except.bind_eq_ok_iff.mp h
      obtain ⟨manifest, hmanifest, h⟩ := Except.bind_eq_ok_iff.mp h
      exact Or.inr (Or.inl
        ⟨_, _, manifest, (Prod.mk.inj (Except.pure_eq_ok_iff.mp h)).2.symm, hmanifest⟩)
    · split at h
      · obtain ⟨_, -, h⟩ := Except.bind_eq_ok_iff.mp h
        obtain ⟨manifest, hmanifest, h⟩ := Except.bind_eq_ok_iff.mp h
        exact Or.inr (Or.inr
          ⟨_, manifest, (Prod.mk.inj (Except.pure_eq_ok_iff.mp h)).2.symm, hmanifest⟩)
      · exact nomatch h

theorem nodup_of_buildMonth {year month : JsValue} {days : List JsValue} {manifest : MonthManifest}
    (h : buildR2HistoryV2ObservationsMonthManifest host basePrefix year month days = .ok manifest) :
    (manifest.children.map MonthChild.dayUtc).Nodup := by
  rw [buildR2HistoryV2ObservationsMonthManifest] at h
  obtain ⟨_, -, h⟩ := Except.bind_eq_ok_iff.mp h
  obtain ⟨_, -, h⟩ := Except.bind_eq_ok_iff.mp h
  obtain ⟨_, -, h⟩ := Except.bind_eq_ok_iff.mp h
  obtain ⟨children, hchildren, h⟩ := Except.bind_eq_ok_iff.mp h
  rw [← Except.pure_eq_ok_iff.mp h]
  rw [canonicalMonthChildren] at hchildren
  obtain ⟨_, -, hchildren⟩ := Except.bind_eq_ok_iff.mp hchildren
  obtain ⟨_, -, hchildren⟩ := Except.bind_eq_ok_iff.mp hchildren
  obtain ⟨_, -, hchildren⟩ := Except.bind_eq_ok_iff.mp hchildren
  obtain ⟨_, -, hchildren⟩ := Except.bind_eq_ok_iff.mp hchildren
  obtain ⟨_, hunique, hchildren⟩ := Except.bind_eq_ok_iff.mp hchildren
  rw [← Except.pure_eq_ok_iff.mp hchildren]
  exact assertUnique_eq_ok_iff.mp hunique

theorem nodup_of_buildYear {year : JsValue} {months : List JsValue} {manifest : YearManifest}
    (h : buildR2HistoryV2ObservationsYearManifest host basePrefix year months = .ok manifest) :
    (manifest.children.map YearChild.month).Nodup := by
  rw [buildR2HistoryV2ObservationsYearManifest] at h
  obtain ⟨_, -, h⟩ := Except.bind_eq_ok_iff.mp h
  obtain ⟨_, -, h⟩ := Except.bind_eq_ok_iff.mp h
  obtain ⟨children, hchildren, h⟩ := Except.bind_eq_ok_iff.mp h
  rw [← Except.pure_eq_ok_iff.mp h]
  rw [canonicalYearChildren] at hchildren
  obtain ⟨_, -, hchildren⟩ := Except.bind_eq_ok_iff.mp hchildren
  obtain ⟨_, -, hchildren⟩ := Except.bind_eq_ok_iff.mp hchildren
  obtain ⟨_, -, hchildren⟩ := Except.bind_eq_ok_iff.mp hchildren
  obtain ⟨_, hunique, hchildren⟩ := Except.bind_eq_ok_iff.mp hchildren
  rw [← Except.pure_eq_ok_iff.mp hchildren]
  exact assertUnique_eq_ok_iff.mp hunique

theorem nodup_of_buildRoot {years : List JsValue} {manifest : RootManifest}
    (h : buildR2HistoryV2ObservationsRootManifest host basePrefix years = .ok manifest) :
    (manifest.children.map RootChild.year).Nodup := by
  rw [buildR2HistoryV2ObservationsRootManifest] at h
  obtain ⟨_, -, h⟩ := Except.bind_eq_ok_iff.mp h
  obtain ⟨children, hchildren, h⟩ := Except.bind_eq_ok_iff.mp h
  rw [← Except.pure_eq_ok_iff.mp h]
  rw [canonicalRootChildren] at hchildren
  obtain ⟨_, -, hchildren⟩ := Except.bind_eq_ok_iff.mp hchildren
  obtain ⟨_, -, hchildren⟩ := Except.bind_eq_ok_iff.mp hchildren
  obtain ⟨_, hunique, hchildren⟩ := Except.bind_eq_ok_iff.mp hchildren
  rw [← Except.pure_eq_ok_iff.mp hchildren]
  exact assertUnique_eq_ok_iff.mp hunique

/-- A manifest lists every child once. -/
def AggregateManifest.ListsOnce : AggregateManifest → Prop
  | month manifest => (manifest.children.map MonthChild.dayUtc).Nodup
  | year manifest => (manifest.children.map YearChild.month).Nodup
  | root manifest => (manifest.children.map RootChild.year).Nodup

/-- **A validated manifest lists every child once.** -/
theorem listsOnce_of_validate {payload : JsValue} {value : AggregateManifest}
    (h : validateR2HistoryV2ObservationsAggregateManifest host payload basePrefix = .ok value) :
    value.ListsOnce := by
  obtain ⟨level, hrebuilt⟩ := exists_rebuild_of_validate h
  rcases built_of_rebuild hrebuilt with ⟨_, _, _, manifest, rfl, hbuilt⟩ |
    ⟨_, _, manifest, rfl, hbuilt⟩ | ⟨_, manifest, rfl, hbuilt⟩
  · exact nodup_of_buildMonth hbuilt
  · exact nodup_of_buildYear hbuilt
  · exact nodup_of_buildRoot hbuilt

end Validated

end UkAqOps.Hierarchy

import UkAqOps.Js.PosixPath
import UkAqOps.Js.Stringify
import UkAqOps.Lib.Except
import UkAqOps.Lib.OrderedMap

/-!
# What a manifest refers to

A manifest names the Parquet files of a unit as full object keys, as paths within the unit or, without
a slash, as files beside it. Whatever the spelling, a reference becomes the path of the file within the
unit.
-/

namespace UkAqOps.StaleParquet

/-! ## Paths -/

def normalizePosixRelativePath (rawPath : String) : String :=
  let cleaned := stripLeadingSlashes
    (String.ofList ((trimText rawPath).toList.map fun c ↦ if c = '\\' then '/' else c))
  if cleaned = "" ∨ cleaned.toList.contains '\x00' then ""
  else
    let normalized := posixNormalize cleaned
    if normalized = "" ∨ normalized = "." ∨ normalized = ".." ∨ startsWithText normalized "../" then ""
    else normalized

/-- An entry of a listing. -/
structure LsjsonEntry where
  path : String
  name : String

def LsjsonEntry.raw (entry : LsjsonEntry) : String :=
  if entry.path ≠ "" then entry.path else entry.name

def pathFromLsjsonEntry (entry : LsjsonEntry) : String := normalizePosixRelativePath entry.raw

/-- `text.slice(n)`. -/
def dropText (s : String) (n : ℕ) : String := String.ofList (s.toList.drop n)

/-- The directory of a manifest within the unit, empty for that of the unit itself. -/
def manifestDir (manifestRel : String) : String :=
  if manifestRel ≠ "" ∧ includesText manifestRel "/" then posixDirname manifestRel else ""

/-- The path within the unit that a reference is resolved to, before it is normalised again. -/
def relPathOf (raw unit manifestRelativePath : String) : Except String String :=
  if raw = unit ∨ startsWithText raw (unit ++ "/") then
    .ok (stripLeadingSlashes (dropText raw unit.toList.length))
  else if startsWithText raw "history/" then
    .error s!"Manifest parquet path is outside prune unit: unit={unit} path={raw}"
  else if includesText raw "/" then .ok raw
  else
    let directory := manifestDir (normalizePosixRelativePath manifestRelativePath)
    .ok (if directory ≠ "" then posixJoin directory raw else raw)

def toUnitRelativeManifestPath (rawPath unitRelativePath manifestRelativePath : String) :
    Except String (Option String) :=
  let raw := normalizePosixRelativePath rawPath
  if raw = "" ∨ endsWithText raw ".parquet" = false then .ok none
  else
    let unit := normalizePosixRelativePath unitRelativePath
    if unit = "" then .error s!"Invalid prune unit path: {unitRelativePath}"
    else do
      let relPath ← relPathOf raw unit manifestRelativePath
      let normalizedRel := normalizePosixRelativePath relPath
      if normalizedRel = "" ∨ startsWithText normalizedRel "history/" ∨
          endsWithText normalizedRel ".parquet" = false then
        .error s!"Manifest parquet path cannot be normalized safely: unit={unit} path={raw}"
      else .ok (some normalizedRel)

/-! ## Manifests -/

/-- A manifest as it has been read. -/
structure ManifestEntry where
  relativePath : String
  text : String

/-- `JSON.parse`, with the text of its error. -/
structure Host where
  parseJson : String → Except String JsValue

/-- The references of a manifest, as they stand in it. -/
def rawReferences (manifest : JsValue) : List String :=
  let keys := ((manifest.optional "parquet_object_keys").items?).getD []
  let files := ((manifest.optional "files").items?).getD []
  keys.map JsValue.orBlank ++ files.map fun fileEntry ↦
    ((["key", "relative_path", "path", "name"].map fileEntry.optional).find? JsValue.truthy |>.getD
      .undefined).orBlank

def isRootObject : JsValue → Bool
  | .obj _ => true
  | _ => false

/-- The files that are referred to, each with the manifests that do. -/
abbrev References := OrderedMap String (List String)

def addManifestParquetReference (unitRelativePath manifestRelativePath : String)
    (references : References) (rawPath : String) : Except String References := do
  let relPath ← toUnitRelativeManifestPath rawPath unitRelativePath manifestRelativePath
  match relPath with
  | none => .ok references
  | some relPath =>
    let manifests := (references.get? relPath).getD []
    .ok (references.set relPath
      (if manifestRelativePath ∈ manifests then manifests else manifests ++ [manifestRelativePath]))

section Host

variable (host : Host)

/-- The path and the value of a manifest. -/
def readManifest (unitRelativePath : String) (entry : ManifestEntry) :
    Except String (String × JsValue) :=
  let manifestRelativePath := normalizePosixRelativePath entry.relativePath
  if manifestRelativePath = "" ∨ endsWithText manifestRelativePath "manifest.json" = false then
    .error s!"Invalid manifest path for prune unit {unitRelativePath}: {entry.relativePath}"
  else
    match host.parseJson entry.text with
    | .error message =>
      .error (s!"Failed to parse manifest for prune unit {unitRelativePath} at " ++
        s!"{manifestRelativePath}: {message}")
    | .ok manifest =>
      if isRootObject manifest then .ok (manifestRelativePath, manifest)
      else
        .error ("Manifest root is not a JSON object for prune unit " ++
          s!"{unitRelativePath} at {manifestRelativePath}")

def addManifest (unitRelativePath : String) (references : References) (entry : ManifestEntry) :
    Except String References := do
  let (manifestRelativePath, manifest) ← readManifest host unitRelativePath entry
  (rawReferences manifest).foldlM
    (addManifestParquetReference unitRelativePath manifestRelativePath) references

def collectManifestParquetReferences (manifests : List ManifestEntry) (unitRelativePath : String) :
    Except String References :=
  manifests.foldlM (addManifest host unitRelativePath) OrderedMap.empty

end Host

/-! ## What has been normalised -/

/-- A path of the unit as it is listed: normalising leaves it alone. -/
def Normalized (path : String) : Prop := path ≠ "" ∧ normalizePosixRelativePath path = path

theorem Normalized.posixNormalize_eq {path : String} (h : Normalized path) :
    posixNormalize path = path ∧ path.toList.head? ≠ some '/' := by
  obtain ⟨hne, hself⟩ := h
  rw [normalizePosixRelativePath] at hself
  dsimp only at hself
  split at hself
  · exact absurd hself.symm hne
  · split at hself
    · exact absurd hself.symm hne
    · constructor
      · rw [← hself, posixNormalize_idem]
      · rw [← hself, posixNormalize, String.toList_ofList]
        exact head?_normalizeChars _

/-- A text of a list that ends behind a character that the text does not hold. -/
theorem suffix_of_suffix_append_cons {l a b : List Char} {c : Char} (h : l <:+ a ++ c :: b)
    (hc : c ∉ l) : l <:+ b := by
  have hb : c :: b <:+ a ++ c :: b := List.suffix_append a (c :: b)
  rcases List.suffix_or_suffix_of_suffix h hb with hsuffix | hsuffix
  · rcases List.suffix_cons_iff.mp hsuffix with rfl | hsuffix
    · exact absurd List.mem_cons_self hc
    · exact hsuffix
  · exact absurd (hsuffix.subset List.mem_cons_self) hc

theorem endsWithText_append {a b c : String} (h : endsWithText b c = true) :
    endsWithText (a ++ b) c = true := by
  rw [endsWithText, decide_eq_true_iff] at h ⊢
  rw [String.toList_append]
  exact h.trans (List.suffix_append _ _)

theorem includesText_slash {s : String} : includesText s "/" = true ↔ '/' ∈ s.toList := by
  rw [includesText, decide_eq_true_iff]
  exact List.singleton_infix_iff '/' s.toList

/-! ## Spellings -/

/-- The path of a file beside a manifest. -/
def besidePath (manifestRelativePath name : String) : String :=
  if manifestDir manifestRelativePath ≠ "" then manifestDir manifestRelativePath ++ "/" ++ name
  else name

/-- **How a reference names a file of the unit**, once it has been normalised: as a full key, which
starts with the path of the unit; as a path within the unit, which holds a slash and does not start so;
or as the name of a file beside the manifest, which holds none. -/
inductive Names (unit manifestRelativePath raw file : String) : Prop
  | fullKey (h : normalizePosixRelativePath raw = unit ++ "/" ++ file)
  | relative (h : normalizePosixRelativePath raw = file) (hslash : includesText file "/" = true)
      (hunit : file ≠ unit) (houtside : startsWithText file (unit ++ "/") = false)
  | beside (hslash : includesText (normalizePosixRelativePath raw) "/" = false)
      (hunit : normalizePosixRelativePath raw ≠ unit)
      (h : besidePath manifestRelativePath (normalizePosixRelativePath raw) = file)

section Spellings

variable {unit manifestRelativePath raw file : String}

/-- The path that a reference is resolved to is that of the file that it names. -/
theorem relPathOf_of_names (hfile : Normalized file)
    (h : Names unit (normalizePosixRelativePath manifestRelativePath) raw file) {relPath : String}
    (hresolved : relPathOf (normalizePosixRelativePath raw) unit manifestRelativePath = .ok relPath) :
    normalizePosixRelativePath relPath = file := by
  obtain ⟨hnormal, hhead⟩ := hfile.posixNormalize_eq
  rw [relPathOf] at hresolved
  rcases h with hraw | ⟨hraw, hslash, hunit, houtside⟩ | ⟨hslash, hunit, hpath⟩
  · have hstarts : startsWithText (unit ++ "/" ++ file) (unit ++ "/") = true := by
      have happend : (unit ++ "/" ++ file).toList = (unit ++ "/").toList ++ file.toList :=
        String.toList_append
      rw [startsWithText, decide_eq_true_iff, happend]
      exact List.prefix_append _ _
    have hdrop : dropText (unit ++ "/" ++ file) unit.toList.length = "/" ++ file := by
      rw [dropText, String.append_assoc, String.toList_append, List.drop_left', String.ofList_toList]
      rfl
    have hstrip : stripLeadingSlashes ("/" ++ file) = file := by
      rw [stripLeadingSlashes, String.toList_append]
      show String.ofList (('/' :: file.toList).dropWhile (· = '/')) = file
      rw [List.dropWhile_cons_of_pos (by decide)]
      rcases hchars : file.toList with _ | ⟨c, cs⟩
      · rw [← String.ofList_toList (s := file), hchars]
        rfl
      · rw [hchars] at hhead
        have hc : c ≠ '/' := fun heq ↦ hhead (congrArg some heq)
        rw [List.dropWhile_cons_of_neg (by simpa using hc), ← hchars, String.ofList_toList]
    rw [hraw, if_pos (Or.inr hstarts), hdrop, hstrip] at hresolved
    rw [← Except.ok.inj hresolved]
    exact hfile.2
  · rw [hraw, if_neg (by simp [hunit, houtside])] at hresolved
    split at hresolved
    · cases hresolved
    · rw [← Except.ok.inj hresolved]
      exact hfile.2
  · have hnone : ∀ text : String, '/' ∈ text.toList →
        startsWithText (normalizePosixRelativePath raw) text = false := by
      intro text htext
      refine decide_eq_false fun hstart ↦ ?_
      rw [includesText_slash.mpr (hstart.subset htext)] at hslash
      cases hslash
    have hunitSlash : '/' ∈ (unit ++ "/").toList := by
      rw [String.toList_append]
      exact List.mem_append_right _ List.mem_cons_self
    rw [if_neg (by simp [hunit, hnone _ hunitSlash]), hnone "history/" (by decide),
      if_neg Bool.false_ne_true, hslash, if_neg Bool.false_ne_true] at hresolved
    rw [← Except.ok.inj hresolved]
    rw [besidePath] at hpath
    by_cases hdirectory : manifestDir (normalizePosixRelativePath manifestRelativePath) ≠ ""
    · rw [if_pos hdirectory] at hpath
      rw [if_pos hdirectory, posixJoin, hpath, hnormal]
      exact hfile.2
    · rw [if_neg hdirectory] at hpath
      rw [if_neg hdirectory, hpath]
      exact hfile.2

/-- A reference that names a Parquet file ends as the file does. -/
theorem endsWithText_of_names (hparquet : endsWithText file ".parquet" = true)
    (h : Names unit manifestRelativePath raw file) :
    endsWithText (normalizePosixRelativePath raw) ".parquet" = true := by
  rcases h with hraw | ⟨hraw, -⟩ | ⟨hslash, -, hpath⟩
  · rw [hraw]
    exact endsWithText_append hparquet
  · simpa only [hraw] using hparquet
  · rw [besidePath] at hpath
    by_cases hdirectory : manifestDir manifestRelativePath ≠ ""
    · rw [if_pos hdirectory] at hpath
      have hends : ".parquet".toList <:+
          (manifestDir manifestRelativePath ++ "/" ++ normalizePosixRelativePath raw).toList := by
        rw [hpath]
        exact of_decide_eq_true hparquet
      rw [String.append_assoc, String.toList_append, String.toList_append] at hends
      exact decide_eq_true (suffix_of_suffix_append_cons hends (by decide))
    · rw [if_neg hdirectory] at hpath
      simpa only [hpath] using hparquet

/-- **A reference that names a Parquet file is resolved to it**, if it is resolved at all. -/
theorem toUnitRelativeManifestPath_of_names {unitRelativePath : String} (hfile : Normalized file)
    (hparquet : endsWithText file ".parquet" = true)
    (h : Names (normalizePosixRelativePath unitRelativePath)
      (normalizePosixRelativePath manifestRelativePath) raw file) {relPath : Option String}
    (hresolved : toUnitRelativeManifestPath raw unitRelativePath manifestRelativePath = .ok relPath) :
    relPath = some file := by
  have hends := endsWithText_of_names hparquet h
  have hne : normalizePosixRelativePath raw ≠ "" := fun heq ↦ by
    rw [heq] at hends
    exact absurd hends (by decide)
  rw [toUnitRelativeManifestPath] at hresolved
  dsimp only at hresolved
  rw [if_neg (by simp [hne, hends])] at hresolved
  split at hresolved
  · cases hresolved
  · obtain ⟨path, hpath, hresolved⟩ := Except.bind_eq_ok_iff.mp hresolved
    split at hresolved
    · cases hresolved
    · rw [← Except.ok.inj hresolved, relPathOf_of_names hfile h hpath]

end Spellings

/-! ## What is collected -/

section Collected

variable {host : Host} {unitRelativePath : String}

/-- Some manifest refers to the file, as its references are resolved. -/
def RefersTo (host : Host) (unitRelativePath : String) (entry : ManifestEntry) (file : String) : Prop :=
  ∃ manifestRelativePath manifest,
    readManifest host unitRelativePath entry = .ok (manifestRelativePath, manifest) ∧
      ∃ raw ∈ rawReferences manifest,
        toUnitRelativeManifestPath raw unitRelativePath manifestRelativePath = .ok (some file)

theorem mem_keys_addManifestParquetReference {manifestRelativePath rawPath : String}
    {references references' : References}
    (h : addManifestParquetReference unitRelativePath manifestRelativePath references rawPath =
      .ok references') (file : String) :
    file ∈ references'.keys ↔ file ∈ references.keys ∨
      toUnitRelativeManifestPath rawPath unitRelativePath manifestRelativePath = .ok (some file) := by
  obtain ⟨relPath, hresolved, h⟩ := Except.bind_eq_ok_iff.mp h
  rw [hresolved]
  rcases relPath with _ | relPath
  · rw [← Except.ok.inj h]
    simp
  · rw [← Except.ok.inj h, OrderedMap.mem_keys_set, or_comm]
    simp [eq_comm]

/-- **The references of one manifest** are added. -/
theorem mem_keys_addReferences {manifestRelativePath : String} {raws : List String}
    {references references' : References}
    (h : raws.foldlM (addManifestParquetReference unitRelativePath manifestRelativePath) references =
      .ok references') (file : String) :
    file ∈ references'.keys ↔ file ∈ references.keys ∨ ∃ raw ∈ raws,
      toUnitRelativeManifestPath raw unitRelativePath manifestRelativePath = .ok (some file) := by
  induction raws generalizing references with
  | nil =>
    rw [← Except.ok.inj h]
    simp
  | cons raw rest ih =>
    rw [List.foldlM_cons] at h
    obtain ⟨next, hnext, hrest⟩ := Except.bind_eq_ok_iff.mp h
    rw [ih hrest, mem_keys_addManifestParquetReference hnext, List.exists_mem_cons_iff, or_assoc]

/-- **The references of all manifests** are collected. -/
theorem mem_keys_collect {manifests : List ManifestEntry} {references references' : References}
    (h : manifests.foldlM (addManifest host unitRelativePath) references = .ok references')
    (file : String) :
    file ∈ references'.keys ↔
      file ∈ references.keys ∨ ∃ entry ∈ manifests, RefersTo host unitRelativePath entry file := by
  induction manifests generalizing references with
  | nil =>
    rw [← Except.ok.inj h]
    simp
  | cons entry rest ih =>
    rw [List.foldlM_cons] at h
    obtain ⟨next, hnext, hrest⟩ := Except.bind_eq_ok_iff.mp h
    obtain ⟨⟨manifestRelativePath, manifest⟩, hread, hadd⟩ := Except.bind_eq_ok_iff.mp hnext
    have hentry : RefersTo host unitRelativePath entry file ↔ ∃ raw ∈ rawReferences manifest,
        toUnitRelativeManifestPath raw unitRelativePath manifestRelativePath = .ok (some file) := by
      simp only [RefersTo, hread, Except.ok.injEq, Prod.mk.injEq, and_assoc, exists_and_left,
        exists_eq_left']
    rw [ih hrest, mem_keys_addReferences hadd, List.exists_mem_cons_iff, hentry, or_assoc]

end Collected

end UkAqOps.StaleParquet

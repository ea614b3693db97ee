import UkAqOps.Js.Json
import UkAqOps.Lib.Except

/-!
# Publication objects

What a history index run hands to the publication planner: the changed objects with their bytes and
the references to what they build on, and the references to objects that are published already.

Normalising an object checks its bytes against its identity and its references against each other.
A normalised object carries the outcome: no key is referenced twice, neither within nor across its
two kinds of references.
-/

namespace UkAqOps.Publication

/-! ## Identities -/

/-- A reference as a caller gives it. A text that is absent reads as the empty text, and a size that
is not an integer as `none`. -/
structure RawReference where
  key : String
  byteSize : Option ℤ
  sha256 : String
  kind : String := ""

/-- The identity of an object: where it is, and what bytes are there. -/
structure Reference where
  key : String
  byteSize : ℤ
  sha256 : String
  kind : Option String := none
deriving DecidableEq

def normalizeKey (raw fieldName : String) : Except String String :=
  let value := stripLeadingSlashes (trimText raw)
  if value = "" ∨ endsWithText value "/" then
    .error s!"{fieldName} must be a non-empty object key"
  else .ok value

def normalizeSha256 (raw fieldName : String) : Except String String :=
  let value := trimText raw
  if isSha256Hex value then .ok value else .error s!"{fieldName} must be lower-case SHA-256"

def positiveSafeInteger (raw : Option ℤ) (fieldName : String) : Except String ℤ :=
  match raw with
  | none => .error s!"{fieldName} must be a positive safe integer"
  | some value =>
    if isPositiveSafeInteger value then .ok value
    else .error s!"{fieldName} must be a positive safe integer"

def identityDescriptor (raw : RawReference) : Except String Reference := do
  let label := if raw.kind = "" then "dependency" else raw.kind
  let key ← normalizeKey raw.key s!"{label}.key"
  let byteSize ← positiveSafeInteger raw.byteSize s!"{label}.byte_size"
  let sha256 ← normalizeSha256 raw.sha256 s!"{label}.sha256"
  return { key, byteSize, sha256, kind := if raw.kind = "" then none else some raw.kind }

/-- A key may keep white space behind its leading slashes, but it ends in a character that no
further normalisation removes. -/
def EndsKept (cs : List Char) : Prop := ∃ init c, cs = init ++ [c] ∧ ¬isJsWhitespace c ∧ c ≠ '/'

theorem EndsKept.dropWhile {p : Char → Bool} {cs : List Char}
    (hp : ∀ c, ¬isJsWhitespace c → c ≠ '/' → p c = false) (h : EndsKept cs) :
    EndsKept (cs.dropWhile p) := by
  obtain ⟨init, c, rfl, hspace, hslash⟩ := h
  rw [List.dropWhile_append, List.dropWhile_cons_of_neg (by rw [hp c hspace hslash]; simp)]
  split
  · exact ⟨[], c, rfl, hspace, hslash⟩
  · exact ⟨init.dropWhile p, c, rfl, hspace, hslash⟩

theorem exists_normalizeKey_of_endsKept {raw : String} (h : EndsKept raw.toList) :
    ∃ key, ∀ fieldName, normalizeKey raw fieldName = .ok key := by
  have htrim : EndsKept (trimText raw).toList := by
    rw [trimText, String.toList_ofList]
    have hdrop := h.dropWhile (p := isJsWhitespace) fun c hspace _ ↦ by simpa using hspace
    obtain ⟨init, c, hcs, hspace, hslash⟩ := hdrop
    rw [hcs, List.rdropWhile_concat_neg _ _ _ hspace]
    exact ⟨init, c, rfl, hspace, hslash⟩
  have hstrip : EndsKept (stripLeadingSlashes (trimText raw)).toList := by
    rw [stripLeadingSlashes, String.toList_ofList]
    exact htrim.dropWhile fun c _ hslash ↦ decide_eq_false hslash
  obtain ⟨init, c, hcs, -, hslash⟩ := hstrip
  have hkept : ¬(stripLeadingSlashes (trimText raw) = "" ∨
      endsWithText (stripLeadingSlashes (trimText raw)) "/") := by
    rintro (hempty | hends)
    · rw [hempty] at hcs
      simp at hcs
    · rw [endsWithText, decide_eq_true_iff, hcs] at hends
      obtain ⟨front, hfront⟩ := hends
      have hlast : ['/'] = [c] := (List.append_inj' hfront rfl).2
      exact hslash (List.singleton_inj.mp hlast).symm
  exact ⟨_, fun fieldName ↦ by rw [normalizeKey, if_neg hkept]⟩

theorem endsKept_of_normalizeKey {raw fieldName key : String}
    (h : normalizeKey raw fieldName = .ok key) : EndsKept key.toList := by
  rw [normalizeKey] at h
  split at h
  · cases h
  rename_i hkept
  rw [not_or] at hkept
  have hkey : stripLeadingSlashes (trimText raw) = key := Except.ok.inj h
  subst hkey
  rcases List.eq_nil_or_concat (stripLeadingSlashes (trimText raw)).toList with hnil | ⟨init, c, hcs⟩
  · exact absurd (String.toList_inj.mp hnil) hkept.1
  rw [List.concat_eq_append] at hcs
  refine ⟨init, c, hcs, fun hspace ↦ ?_, ?_⟩
  · -- the last character is that of the trimmed text
    have hsuffix : [c] <:+ (trimText raw).toList := by
      refine List.IsSuffix.trans ⟨init, hcs.symm⟩ ?_
      rw [stripLeadingSlashes, String.toList_ofList]
      exact List.dropWhile_suffix _
    rw [trimText, String.toList_ofList] at hsuffix
    obtain ⟨front, hfront⟩ := hsuffix
    have hne : (raw.toList.dropWhile isJsWhitespace).rdropWhile isJsWhitespace ≠ [] := by
      rw [← hfront]
      simp
    refine List.rdropWhile_last_not isJsWhitespace _ hne ?_
    have hlast : (front ++ [c]).getLast (by simp) = c := List.getLast_concat
    simp only [← hfront, hlast]
    exact hspace
  · rintro rfl
    refine hkept.2 ?_
    rw [endsWithText, decide_eq_true_iff, hcs]
    exact ⟨init, rfl⟩

/-- The fields of an identity, as they stand in a document. -/
def Reference.fields (reference : Reference) : List (String × Json) :=
  [("key", .str reference.key), ("byte_size", .int reference.byteSize),
    ("sha256", .str reference.sha256)]
    ++ (reference.kind.map fun kind ↦ ("kind", Json.str kind)).toList

/-- An identity that is normalised once more. -/
def Reference.raw (reference : Reference) : RawReference where
  key := reference.key
  byteSize := some reference.byteSize
  sha256 := reference.sha256
  kind := reference.kind.getD ""

/-- An identity can be normalised once more. -/
theorem exists_identityDescriptor_raw {raw : RawReference} {reference : Reference}
    (h : identityDescriptor raw = .ok reference) :
    ∃ again, identityDescriptor reference.raw = .ok again := by
  rw [identityDescriptor] at h
  obtain ⟨key, hkey, h⟩ := Except.bind_eq_ok_iff.mp h
  obtain ⟨byteSize, hsize, h⟩ := Except.bind_eq_ok_iff.mp h
  obtain ⟨sha256, hsha, h⟩ := Except.bind_eq_ok_iff.mp h
  have hreference := Except.pure_eq_ok_iff.mp h
  subst hreference
  have hsize' : ∀ fieldName, positiveSafeInteger (some byteSize) fieldName = .ok byteSize := by
    intro fieldName
    rcases hraw : raw.byteSize with _ | value
    · rw [hraw] at hsize
      cases hsize
    · rw [hraw] at hsize
      dsimp only [positiveSafeInteger] at hsize
      split at hsize
      · rename_i hpos
        rw [← Except.ok.inj hsize]
        exact if_pos hpos
      · cases hsize
  have hsha' : ∀ fieldName, normalizeSha256 sha256 fieldName = .ok sha256 := by
    intro fieldName
    rw [normalizeSha256] at hsha
    split at hsha
    · rename_i hhex
      rw [← Except.ok.inj hsha, normalizeSha256, trimText_of_isSha256Hex hhex]
      exact if_pos hhex
    · cases hsha
  rw [identityDescriptor, Reference.raw]
  obtain ⟨again, hagain⟩ := exists_normalizeKey_of_endsKept (endsKept_of_normalizeKey hkey)
  exact ⟨_, Except.bind_eq_ok_iff.mpr ⟨again, hagain _, Except.bind_eq_ok_iff.mpr ⟨byteSize,
    hsize' _, Except.bind_eq_ok_iff.mpr ⟨sha256, hsha' _, rfl⟩⟩⟩⟩

/-! ## Repeated keys -/

/-- The first text that occurs a second time. -/
def firstRepeated (seen : List String) : List String → Option String
  | [] => none
  | key :: rest => if key ∈ seen then some key else firstRepeated (key :: seen) rest

theorem firstRepeated_eq_none_iff {seen l : List String} :
    firstRepeated seen l = none ↔ l.Nodup ∧ ∀ key ∈ l, key ∉ seen := by
  induction l generalizing seen with
  | nil => simp [firstRepeated]
  | cons key rest ih =>
    rw [firstRepeated]
    by_cases hseen : key ∈ seen
    · rw [if_pos hseen]
      constructor
      · intro h
        cases h
      · intro h
        exact absurd hseen (h.2 key List.mem_cons_self)
    · rw [if_neg hseen, ih, List.nodup_cons, List.forall_mem_cons]
      constructor
      · rintro ⟨hnodup, hrest⟩
        refine ⟨⟨fun hmem ↦ hrest key hmem List.mem_cons_self, hnodup⟩, hseen, ?_⟩
        exact fun k hk hmem ↦ hrest k hk (List.mem_cons_of_mem _ hmem)
      · rintro ⟨⟨hkey, hnodup⟩, -, hrest⟩
        refine ⟨hnodup, fun k hk hmem ↦ ?_⟩
        rcases List.mem_cons.mp hmem with rfl | hmem
        · exact hkey hk
        · exact hrest k hk hmem

/-! ## References -/

/-- References in the order of their keys, of which no two are equal. -/
structure PublicationReferences where
  entries : List Reference
  nodup_keys : (entries.map Reference.key).Nodup
deriving DecidableEq

@[ext] theorem PublicationReferences.ext {r r' : PublicationReferences}
    (h : r.entries = r'.entries) : r = r' := by
  cases r; cases r'; cases h; rfl

def PublicationReferences.keys (references : PublicationReferences) : List String :=
  references.entries.map Reference.key

def normalizePublicationReferences (raw : List RawReference) (fieldName : String) :
    Except String PublicationReferences := do
  let references ← raw.mapM identityDescriptor
  let sorted := Sorting.sortBy (fun left right ↦ bytewiseCompare left.key right.key) references
  match h : firstRepeated [] (sorted.map Reference.key) with
  | some key => throw s!"Duplicate publication {fieldName}: {key}"
  | none => return ⟨sorted, (firstRepeated_eq_none_iff.mp h).1⟩

theorem normalizePublicationReferences_eq_ok_iff {raw : List RawReference} {fieldName : String}
    {references : PublicationReferences} :
    normalizePublicationReferences raw fieldName = .ok references ↔
      ∃ identities, raw.mapM identityDescriptor = .ok identities ∧ references.entries
        = Sorting.sortBy (fun left right ↦ bytewiseCompare left.key right.key) identities := by
  rw [normalizePublicationReferences, Except.bind_eq_ok_iff]
  refine exists_congr fun identities ↦ and_congr_right fun _ ↦ ?_
  dsimp only
  split
  · rename_i key hrepeated
    refine ⟨fun h ↦ (nomatch h), fun hentries ↦ ?_⟩
    have hnodup := references.nodup_keys
    rw [hentries] at hnodup
    rw [firstRepeated_eq_none_iff.mpr ⟨hnodup, fun _ _ ↦ List.not_mem_nil⟩] at hrepeated
    cases hrepeated
  · rw [Except.pure_eq_ok_iff]
    exact ⟨fun h ↦ h ▸ rfl, fun h ↦ PublicationReferences.ext h.symm⟩

/-- The order in which references are given does not matter. -/
theorem normalizePublicationReferences_perm {raw raw' : List RawReference} {fieldName : String}
    {references : PublicationReferences} (hperm : raw.Perm raw')
    (h : normalizePublicationReferences raw fieldName = .ok references) :
    normalizePublicationReferences raw' fieldName = .ok references := by
  obtain ⟨identities, hidentities, hentries⟩ := normalizePublicationReferences_eq_ok_iff.mp h
  obtain ⟨identities', hidentities', hperm'⟩ := Except.mapM_perm hperm hidentities
  refine normalizePublicationReferences_eq_ok_iff.mpr ⟨identities', hidentities', ?_⟩
  rw [hentries]
  refine sortBy_eq_of_perm hperm' ?_
  have hnodup := references.nodup_keys
  rw [hentries] at hnodup
  exact ((Sorting.sortBy_perm identities).map Reference.key).nodup_iff.mp hnodup

/-! ## Objects -/

/-- `PUBLICATION_STAGE_RANK`, by its keys. -/
inductive PublicationStage where
  | canonicalParquet
  | canonicalManifest
  | childShard
  | scopedManifest
  | latestGlobal
deriving DecidableEq

namespace PublicationStage

def rank : PublicationStage → ℕ
  | canonicalParquet => 10
  | canonicalManifest => 20
  | childShard => 30
  | scopedManifest => 40
  | latestGlobal => 50

def name : PublicationStage → String
  | canonicalParquet => "canonical_parquet"
  | canonicalManifest => "canonical_manifest"
  | childShard => "child_shard"
  | scopedManifest => "scoped_manifest"
  | latestGlobal => "latest_global"

def parse (stage : String) : Option PublicationStage :=
  [canonicalParquet, canonicalManifest, childShard, scopedManifest, latestGlobal].find?
    fun s ↦ s.name = stage

end PublicationStage

def normalizePublicationStage (raw : String) : Except String PublicationStage :=
  let stage := trimText raw
  match PublicationStage.parse stage with
  | some publicationStage => .ok publicationStage
  | none =>
    .error ("Unsupported v3 publication stage: " ++ if stage = "" then "unset" else stage)

/-- A body that is a buffer, or a text to be encoded. -/
inductive RawBody where
  | buffer (bytes : List ℕ)
  | text (s : String)

def RawBody.bytes : RawBody → List ℕ
  | buffer bytes => bytes
  | text s => utf8 s

/-- An object as a caller gives it. A list of references that is absent reads as the empty list. -/
structure RawPublicationObject where
  publicationStage : String
  key : String
  body : RawBody
  byteSize : Option ℤ
  sha256 : String
  contentType : String := ""
  dependencies : List RawReference := []
  publicationPrerequisites : List RawReference := []

structure PublicationObject where
  key : String
  body : List ℕ
  byteSize : ℤ
  sha256 : String
  contentType : String
  publicationStage : PublicationStage
  dependencies : PublicationReferences
  publicationPrerequisites : PublicationReferences
  disjoint : ∀ key ∈ publicationPrerequisites.keys, key ∉ dependencies.keys
deriving DecidableEq

@[ext] theorem PublicationObject.ext {o o' : PublicationObject} (hkey : o.key = o'.key)
    (hbody : o.body = o'.body) (hsize : o.byteSize = o'.byteSize) (hsha : o.sha256 = o'.sha256)
    (htype : o.contentType = o'.contentType) (hstage : o.publicationStage = o'.publicationStage)
    (hdeps : o.dependencies = o'.dependencies)
    (hpres : o.publicationPrerequisites = o'.publicationPrerequisites) : o = o' := by
  cases o; cases o'; cases hkey; cases hbody; cases hsize; cases hsha; cases htype; cases hstage
  cases hdeps; cases hpres; rfl

namespace PublicationObject

/-- Both kinds of references, content dependencies first. -/
def references (object : PublicationObject) : List Reference :=
  object.dependencies.entries ++ object.publicationPrerequisites.entries

theorem nodup_references (object : PublicationObject) :
    (object.references.map Reference.key).Nodup := by
  rw [references, List.map_append, List.nodup_append]
  refine ⟨object.dependencies.nodup_keys, object.publicationPrerequisites.nodup_keys, ?_⟩
  rintro key hdep _ hpre rfl
  exact object.disjoint key hpre hdep

end PublicationObject

section Objects

variable (sha256Hex : List ℕ → String)

def normalizePublicationObject (raw : RawPublicationObject) : Except String PublicationObject := do
  let publicationStage ← normalizePublicationStage raw.publicationStage
  let key ← normalizeKey raw.key "publication_object.key"
  let body := raw.body.bytes
  Except.refuseIf (body = []) s!"Publication object body is empty: {key}"
  let byteSize ← positiveSafeInteger raw.byteSize s!"publication_object.byte_size:{key}"
  let sha256 ← normalizeSha256 raw.sha256 s!"publication_object.sha256:{key}"
  Except.refuseIf ((body.length : ℤ) ≠ byteSize ∨ sha256Hex body ≠ sha256)
    s!"Publication object identity mismatch: {key}"
  let dependencies ← normalizePublicationReferences raw.dependencies "dependency"
  let publicationPrerequisites ←
    normalizePublicationReferences raw.publicationPrerequisites "prerequisite"
  match h : publicationPrerequisites.keys.find? (· ∈ dependencies.keys) with
  | some shared =>
    throw <| "Publication reference cannot be both content dependency and order prerequisite: "
      ++ shared
  | none =>
    return { key, body, byteSize, sha256, publicationStage, dependencies, publicationPrerequisites
             contentType := if raw.contentType = "" then "application/octet-stream"
               else raw.contentType
             disjoint := fun key hkey hdep ↦
               List.find?_eq_none.mp h key hkey (decide_eq_true hdep) }

variable {sha256Hex}

/-- What has been checked of a normalised object. -/
theorem normalizePublicationObject_eq_ok {raw : RawPublicationObject} {object : PublicationObject}
    (h : normalizePublicationObject sha256Hex raw = .ok object) :
    ((object.body.length : ℤ) = object.byteSize ∧ sha256Hex object.body = object.sha256) ∧
      normalizePublicationReferences raw.dependencies "dependency" = .ok object.dependencies ∧
      normalizePublicationReferences raw.publicationPrerequisites "prerequisite"
        = .ok object.publicationPrerequisites := by
  rw [normalizePublicationObject] at h
  obtain ⟨publicationStage, -, h⟩ := Except.bind_eq_ok_iff.mp h
  obtain ⟨key, -, h⟩ := Except.bind_eq_ok_iff.mp h
  obtain ⟨_, -, h⟩ := Except.bind_eq_ok_iff.mp h
  obtain ⟨byteSize, -, h⟩ := Except.bind_eq_ok_iff.mp h
  obtain ⟨sha256, -, h⟩ := Except.bind_eq_ok_iff.mp h
  obtain ⟨_, hidentity, h⟩ := Except.bind_eq_ok_iff.mp h
  obtain ⟨dependencies, hdeps, h⟩ := Except.bind_eq_ok_iff.mp h
  obtain ⟨publicationPrerequisites, hpres, h⟩ := Except.bind_eq_ok_iff.mp h
  rw [Except.refuseIf_eq_ok_iff, not_or, not_not, not_not] at hidentity
  split at h
  · cases h
  · have hobject := Except.pure_eq_ok_iff.mp h
    subst hobject
    exact ⟨hidentity, hdeps, hpres⟩

/-- The same object with its references in another order. -/
structure RawPublicationObject.Reordered (raw raw' : RawPublicationObject) : Prop where
  dependencies : raw.dependencies.Perm raw'.dependencies
  publicationPrerequisites : raw.publicationPrerequisites.Perm raw'.publicationPrerequisites
  others : raw' = { raw with
    dependencies := raw'.dependencies
    publicationPrerequisites := raw'.publicationPrerequisites }

theorem normalizePublicationObject_reordered {raw raw' : RawPublicationObject}
    {object : PublicationObject} (hsame : raw.Reordered raw')
    (h : normalizePublicationObject sha256Hex raw = .ok object) :
    normalizePublicationObject sha256Hex raw' = .ok object := by
  obtain ⟨hdeps, hpres, hothers⟩ := hsame
  generalize raw'.dependencies = deps, raw'.publicationPrerequisites = pres at hdeps hpres hothers
  subst hothers
  obtain ⟨-, hnormalDeps, hnormalPres⟩ := normalizePublicationObject_eq_ok h
  rw [← h, normalizePublicationObject, normalizePublicationObject, hnormalDeps, hnormalPres,
    normalizePublicationReferences_perm hdeps hnormalDeps,
    normalizePublicationReferences_perm hpres hnormalPres]

end Objects

/-! ## External references -/

structure RawExternalReference extends RawReference where
  verified : Bool
  durable : Bool

/-- An object that is published: its evidence is verified and durable. -/
structure ExternalReference extends Reference where
  verified : Bool
  durable : Bool
deriving DecidableEq

def normalizeExternalReference (raw : RawExternalReference) : Except String ExternalReference := do
  let identity ← identityDescriptor raw.toRawReference
  if ¬raw.verified ∨ ¬raw.durable then
    throw s!"External v3 reference lacks verified durable evidence: {identity.key}"
  return { identity with verified := true, durable := true }

end UkAqOps.Publication

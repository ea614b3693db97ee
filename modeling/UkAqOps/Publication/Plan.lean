import UkAqOps.Publication.Eligible

/-!
# The publication plan

`buildObservationHistoryIndexV3PublicationPlan` resolves every reference to a changed object or to an
external one, schedules the changed objects by eligibility, and identifies the schedule by the hash
of its canonical JSON.

The loops that index the objects and collect the references are folds over maps; the lemmas of this
module say what the maps hold, and that the scheduling loop can rely on them.
-/

namespace UkAqOps.Publication

open Scheduling

/-! ## Indexing by key -/

/-- A map of the values that a loop normalises one after the other, by their keys. The keys that are
reserved, and those that occurred before, are refused. -/
def indexByKey {ρ υ : Type} (normalize : ρ → Except String υ) (keyOf : υ → String)
    (reserved : List String) (error : String → String) (raws : List ρ) :
    Except String (OrderedMap String υ) :=
  raws.foldlM (fun map raw ↦ do
    let value ← normalize raw
    if keyOf value ∈ map.keys ∨ keyOf value ∈ reserved then throw (error (keyOf value))
    return map.set (keyOf value) value) OrderedMap.empty

def changedByKey (objects : List PublicationObject) :
    Except String (OrderedMap String PublicationObject) :=
  indexByKey .ok PublicationObject.key [] (s!"Duplicate changed v3 publication key: {·}") objects

def externalByKey (byKey : OrderedMap String PublicationObject)
    (externals : List RawExternalReference) : Except String (OrderedMap String ExternalReference) :=
  indexByKey normalizeExternalReference (·.key) byKey.keys
    (s!"Duplicate external v3 reference key: {·}") externals

/-! ## References to changed objects -/

inductive Relationship where
  | contentDependency
  | orderPrerequisite
deriving DecidableEq

def Relationship.name : Relationship → String
  | contentDependency => "content dependency"
  | orderPrerequisite => "order prerequisite"

/-- The references of an object with what they are to it. -/
def PublicationObject.labelledReferences (object : PublicationObject) :
    List (Relationship × Reference) :=
  object.dependencies.entries.map (.contentDependency, ·)
    ++ object.publicationPrerequisites.entries.map (.orderPrerequisite, ·)

/-- A reference with the object that names it. -/
structure LabelledReference where
  object : PublicationObject
  relationship : Relationship
  reference : Reference

def labelledReferences (objects : List PublicationObject) : List LabelledReference :=
  objects.flatMap fun object ↦ object.labelledReferences.map fun p ↦ ⟨object, p.1, p.2⟩

/-- The checks of one reference; whether it is to a changed object. -/
def resolveReference (byKey : OrderedMap String PublicationObject)
    (externals : OrderedMap String ExternalReference) (labelled : LabelledReference) :
    Except String Bool :=
  let edge := s!"{labelled.reference.key} -> {labelled.object.key}"
  match byKey.get? labelled.reference.key with
  | some changed =>
    if changed.byteSize ≠ labelled.reference.byteSize ∨
        changed.sha256 ≠ labelled.reference.sha256 then
      .error s!"Contradictory v3 publication {labelled.relationship.name} identity: {edge}"
    else if labelled.object.publicationStage.rank < changed.publicationStage.rank then
      .error s!"V3 publication stage conflict: {edge}"
    else .ok true
  | none =>
    match externals.get? labelled.reference.key with
    | none => .error s!"Missing required v3 publication {labelled.relationship.name}: {edge}"
    | some external =>
      if external.byteSize ≠ labelled.reference.byteSize ∨
          external.sha256 ≠ labelled.reference.sha256 then
        .error s!"Contradictory v3 publication {labelled.relationship.name} identity: {edge}"
      else .ok false

/-- What the loop over the references accumulates. -/
structure ChangedEdges where
  indegree : OrderedMap String ℤ
  outgoing : OrderedMap String (List String)
  changedContentEdgeCount : ℕ := 0
  changedPrerequisiteEdgeCount : ℕ := 0

/-- Count a reference to a changed object. -/
def ChangedEdges.add (edges : ChangedEdges) (labelled : LabelledReference) : ChangedEdges where
  indegree := edges.indegree.set labelled.object.key
    ((edges.indegree.get? labelled.object.key).getD 0 + 1)
  outgoing := edges.outgoing.set labelled.reference.key
    ((edges.outgoing.get? labelled.reference.key).getD [] ++ [labelled.object.key])
  changedContentEdgeCount := edges.changedContentEdgeCount
    + if labelled.relationship = .contentDependency then 1 else 0
  changedPrerequisiteEdgeCount := edges.changedPrerequisiteEdgeCount
    + if labelled.relationship = .orderPrerequisite then 1 else 0

def noEdges (objects : List PublicationObject) : ChangedEdges where
  indegree := OrderedMap.ofList (objects.map fun object ↦ (object.key, 0))
  outgoing := OrderedMap.ofList (objects.map fun object ↦ (object.key, []))

def collectChangedEdges (byKey : OrderedMap String PublicationObject)
    (externals : OrderedMap String ExternalReference) (objects : List PublicationObject) :
    Except String ChangedEdges :=
  (labelledReferences objects).foldlM
    (fun edges labelled ↦ (fun changed ↦ if changed then edges.add labelled else edges)
      <$> resolveReference byKey externals labelled)
    (noEdges objects)

/-- The objects in the order in which the heap gives them. -/
def scheduleObjects (byKey : OrderedMap String PublicationObject) (edges : ChangedEdges)
    (objects : List PublicationObject) : List PublicationObject :=
  let eligible := (objects.filter fun object ↦ edges.indegree.get? object.key = some 0).foldl
    EligiblePublicationMinHeap.push EligiblePublicationMinHeap.empty
  (scheduleEligible byKey edges.outgoing objects.length
    { eligible, indegree := edges.indegree, ordered := [] }).ordered

/-! ## The plan -/

structure PublicationEntry extends PublicationObject where
  position : ℕ
  changedDependencies : List String
  externalDependencies : List String
  changedPublicationPrerequisites : List String
  externalPublicationPrerequisites : List String
deriving DecidableEq

structure PublicationSchedule where
  contractVersion : String
  tieBreaker : String
  changedDependencyEdgeCount : ℕ
  changedContentDependencyEdgeCount : ℕ
  changedOrderPrerequisiteEdgeCount : ℕ
  externalReferenceCount : ℕ
  externalReferences : List ExternalReference
  entries : List PublicationEntry

structure PublicationPlan extends PublicationSchedule where
  scheduleSha256 : String

def publicationContract : String := "observation-history-index-v3-publication-v2"

def publicationTieBreaker : String :=
  "publication_stage_then_bytewise_utf8_key_among_eligible_nodes"

def jsonKeys (keys : List String) : Json := .arr (keys.map .str)

def jsonReferences (references : List Reference) : Json :=
  .arr (references.map fun reference ↦ .obj reference.fields)

/-- The projection of an entry that is hashed: not its body, and not its content type. -/
def PublicationEntry.payload (entry : PublicationEntry) : Json := .obj [
  ("position", .int entry.position),
  ("key", .str entry.key),
  ("byte_size", .int entry.byteSize),
  ("sha256", .str entry.sha256),
  ("publication_stage", .str entry.publicationStage.name),
  ("dependencies", jsonReferences entry.dependencies.entries),
  ("publication_prerequisites", jsonReferences entry.publicationPrerequisites.entries),
  ("changed_dependencies", jsonKeys entry.changedDependencies),
  ("external_dependencies", jsonKeys entry.externalDependencies),
  ("changed_publication_prerequisites", jsonKeys entry.changedPublicationPrerequisites),
  ("external_publication_prerequisites", jsonKeys entry.externalPublicationPrerequisites)]

section Build

variable (sha256Hex : List ℕ → String)

/-- The hash of the canonical JSON of a schedule. The external references are projected by
`identityDescriptor`, which normalises them once more. -/
def scheduleSha256 (plan : PublicationSchedule) : Except String String := do
  let externalReferences ← plan.externalReferences.mapM fun external ↦
    identityDescriptor external.toReference.raw
  return sha256Hex <| utf8 <| encodeObservationHistoryIndexV3Json <| .obj [
    ("contract_version", .str plan.contractVersion),
    ("tie_breaker", .str plan.tieBreaker),
    ("changed_dependency_edge_count", .int plan.changedDependencyEdgeCount),
    ("changed_content_dependency_edge_count", .int plan.changedContentDependencyEdgeCount),
    ("changed_order_prerequisite_edge_count", .int plan.changedOrderPrerequisiteEdgeCount),
    ("external_reference_count", .int plan.externalReferenceCount),
    ("external_references", jsonReferences externalReferences),
    ("entries", .arr (plan.entries.map PublicationEntry.payload))]

/-- An object at its place in the schedule. -/
def publicationEntry (byKey : OrderedMap String PublicationObject)
    (externals : OrderedMap String ExternalReference) (object : PublicationObject) (index : ℕ) :
    PublicationEntry where
  toPublicationObject := object
  position := index + 1
  changedDependencies := object.dependencies.keys.filter (· ∈ byKey.keys)
  externalDependencies := object.dependencies.keys.filter (· ∈ externals.keys)
  changedPublicationPrerequisites := object.publicationPrerequisites.keys.filter (· ∈ byKey.keys)
  externalPublicationPrerequisites :=
    object.publicationPrerequisites.keys.filter (· ∈ externals.keys)

/-- The plan for objects that have been scheduled, before it is hashed. -/
def publicationSchedule (byKey : OrderedMap String PublicationObject)
    (externals : OrderedMap String ExternalReference) (edges : ChangedEdges)
    (ordered : List PublicationObject) : PublicationSchedule where
  contractVersion := publicationContract
  tieBreaker := publicationTieBreaker
  changedDependencyEdgeCount := edges.changedContentEdgeCount + edges.changedPrerequisiteEdgeCount
  changedContentDependencyEdgeCount := edges.changedContentEdgeCount
  changedOrderPrerequisiteEdgeCount := edges.changedPrerequisiteEdgeCount
  externalReferenceCount := externals.size
  externalReferences :=
    Sorting.sortBy (fun left right ↦ bytewiseCompare left.key right.key) externals.values
  entries := ordered.zipIdx.map fun p ↦ publicationEntry byKey externals p.1 p.2

def buildObservationHistoryIndexV3PublicationPlan (objects : List RawPublicationObject)
    (externalReferences : List RawExternalReference) : Except String PublicationPlan := do
  let normalizedObjects ← objects.mapM (normalizePublicationObject sha256Hex)
  Except.refuseIf (normalizedObjects = []) "V3 publication plan requires changed objects"
  let byKey ← changedByKey normalizedObjects
  let externals ← externalByKey byKey externalReferences
  let edges ← collectChangedEdges byKey externals normalizedObjects
  let ordered := scheduleObjects byKey edges normalizedObjects
  let cycleKeys := (normalizedObjects.map PublicationObject.key).filter
    (· ∉ ordered.map PublicationObject.key)
  Except.refuseIf (ordered.length ≠ normalizedObjects.length) <|
    "V3 publication dependency cycle: "
      ++ " -> ".intercalate (Sorting.sortBy bytewiseCompare cycleKeys)
  let plan := publicationSchedule byKey externals edges ordered
  return { plan with scheduleSha256 := ← scheduleSha256 sha256Hex plan }

end Build

end UkAqOps.Publication

import UkAqOps.Lib.Effects
import UkAqOps.Publication.Plan

/-!
# Publishing a plan

`finalizeObservationHistoryIndexV3Publication` publishes the entries of a plan: each is put, read
back unless the put proves its identity, and recorded as durable. At most `publicationConcurrency`
entries are in flight, an entry is launched when all its references to changed objects are durable,
and after a failure nothing is launched any more.

The publication of one entry is a program whose calls are the adapters. The scheduling loop is a
transition system: between two awaits it runs to its next one, and while it awaits, the adapters
answer in any order. A promise that has settled is accepted in any order as well.
-/

namespace UkAqOps.Publication

open Effects

/-! ## The adapters -/

structure PutRequest where
  key : String
  body : List ℕ
  byteSize : ℤ
  sha256 : String
  contentType : String
  publicationStage : PublicationStage
deriving DecidableEq

/-- What `putIfChanged` reports. A text that is absent is the empty text. -/
structure PutResult where
  ok : Option Bool
  status : String := ""
  verified : Bool := false
  postPutGetVerified : Bool := false
  key : Option String := none
  byteSize : Option ℤ := none
  sha256 : Option String := none
  skipped : Bool := false
  writeR2 : Bool := false

structure DurableEvidence where
  key : String
  byteSize : ℤ
  sha256 : String
  publicationStage : PublicationStage
  putStatus : String
  postPutGetVerified : Bool
  scheduleSha256 : String
  position : ℕ
deriving DecidableEq

inductive Call where
  | putIfChanged (request : PutRequest)
  | getObject (key : String)
  | recordDurableEvidence (evidence : DurableEvidence)
deriving DecidableEq

/-- The put may report nothing; an object that is not there reads as no bytes; evidence is recorded
when `durable` is true. -/
abbrev Call.Answer : Call → Type
  | .putIfChanged _ => Option PutResult
  | .getObject _ => List ℕ
  | .recordDurableEvidence _ => Bool

/-- An error that the publication rejects with. -/
structure Failure where
  message : String
  isBudgetExhaustion : Bool := false

/-- An adapter call with its answer, or its failure. -/
abbrev AdapterEvent := Event Call.Answer Failure

/-! ## One entry -/

inductive PutDisposition where
  | reused
  | newlyWritten
  | unknown
deriving DecidableEq

structure PublicationEvidence where
  key : String
  byteSize : ℤ
  sha256 : String
  publicationStage : PublicationStage
  putStatus : String
  verified : Bool
  durable : Bool

structure PublishedEntry where
  evidence : PublicationEvidence
  disposition : PutDisposition

def PutResult.putStatus (result : PutResult) : String :=
  if result.status = "" then "succeeded" else result.status

def publicationPutDisposition (result : PutResult) : PutDisposition :=
  if result.skipped ∨ result.putStatus = "skipped_unchanged" ∨ result.putStatus = "recovered" then
    .reused
  else if result.writeR2 ∨ result.putStatus = "succeeded" then .newlyWritten
  else .unknown

def putRequest (entry : PublicationEntry) : PutRequest where
  key := entry.key
  body := entry.body
  byteSize := entry.byteSize
  sha256 := entry.sha256
  contentType := entry.contentType
  publicationStage := entry.publicationStage

def durableEvidence (scheduleSha256 : String) (entry : PublicationEntry) (result : PutResult) :
    DurableEvidence where
  key := entry.key
  byteSize := entry.byteSize
  sha256 := entry.sha256
  publicationStage := entry.publicationStage
  putStatus := result.putStatus
  postPutGetVerified := true
  scheduleSha256 := scheduleSha256
  position := entry.position

def publicationEvidence (entry : PublicationEntry) (result : PutResult) : PublicationEvidence where
  key := entry.key
  byteSize := entry.byteSize
  sha256 := entry.sha256
  publicationStage := entry.publicationStage
  putStatus := result.putStatus
  verified := true
  durable := true

/-- The put was read back, with exactly the identity of the entry. -/
def ProvesIdentity (entry : PublicationEntry) (result : PutResult) : Prop :=
  result.verified ∧ result.postPutGetVerified ∧ result.key = some entry.key ∧
    result.byteSize = some entry.byteSize ∧ result.sha256 = some entry.sha256

instance (entry : PublicationEntry) (result : PutResult) :
    Decidable (ProvesIdentity entry result) :=
  inferInstanceAs (Decidable (_ ∧ _))

/-- The bytes that were read are those of the entry. -/
def MatchesIdentity (sha256Hex : List ℕ → String) (entry : PublicationEntry) (body : List ℕ) : Prop :=
  (body.length : ℤ) = entry.byteSize ∧ sha256Hex body = entry.sha256

instance (sha256Hex : List ℕ → String) (entry : PublicationEntry) (body : List ℕ) :
    Decidable (MatchesIdentity sha256Hex entry body) :=
  inferInstanceAs (Decidable (_ ∧ _))

/-- A put that reports nothing, or that it is not ok, has failed. -/
def acceptedPut (entry : PublicationEntry) : Option PutResult → Except Failure PutResult
  | none => .error { message := s!"V3 publication PUT failed: {entry.key}" }
  | some result =>
    if result.ok = some false then .error { message := s!"V3 publication PUT failed: {entry.key}" }
    else .ok result

section Publish

variable (sha256Hex : List ℕ → String) (scheduleSha256 : String)

def verifyPut (entry : PublicationEntry) (result : PutResult) : Prog Call.Answer Failure Unit :=
  if ProvesIdentity entry result then pure ()
  else do
    let body ← Prog.await (.getObject entry.key)
    Prog.ofExcept <| Except.refuseIf (¬MatchesIdentity sha256Hex entry body)
      { message := s!"V3 post-PUT GET verification failed: {entry.key}" }

def publishEntry (entry : PublicationEntry) : Prog Call.Answer Failure PublishedEntry := do
  let answer ← Prog.await (.putIfChanged (putRequest entry))
  let putResult ← Prog.ofExcept (acceptedPut entry answer)
  verifyPut sha256Hex entry putResult
  let durable ← Prog.await (.recordDurableEvidence (durableEvidence scheduleSha256 entry putResult))
  Prog.ofExcept <| Except.refuseIf (¬durable)
    { message := s!"V3 durable publication evidence failed: {entry.key}" }
  return ⟨publicationEvidence entry putResult, publicationPutDisposition putResult⟩

end Publish

/-! ## The state -/

def comparePosition (left right : PublicationEntry) : Ordering :=
  compare left.position right.position

instance : Std.TransCmp comparePosition :=
  Sorting.transCmp_on (inferInstanceAs (Std.TransCmp (compare : ℕ → ℕ → Ordering)))
    fun entry : PublicationEntry ↦ entry.position

/-- An entry that has been launched, with what is left of its publication. -/
structure InFlight where
  entry : PublicationEntry
  program : Prog Call.Answer Failure PublishedEntry

/-- How a program ended, if it has. -/
def outcome? {α : Type} : Prog Call.Answer Failure α → Option (Except Failure α)
  | .ret a => some (.ok a)
  | .throw e => some (.error e)
  | .call _ _ => none

/-- The call a program waits for, if it does. -/
def pendingCall? {α : Type} : Prog Call.Answer Failure α → Option Call
  | .ret _ => none
  | .throw _ => none
  | .call c _ => some c

/-- A call that an entry makes, or the answer to it. -/
inductive LogEvent where
  | called (key : String) (call : Call)
  | answered (key : String) (event : AdapterEvent)

structure PublicationResult where
  scheduleSha256 : String
  publishedObjectCount : ℕ
  objects : List PublicationEvidence
  reusedObjectCount : ℕ
  newlyWrittenObjectCount : ℕ
  unknownPutStatusObjectCount : ℕ
  maximumActivePublications : ℕ

/-- The finaliser awaits its promises, or has resolved or rejected. -/
inductive Status where
  | running
  | settled (result : Except Failure PublicationResult)

/-- What stays the same during a publication. -/
structure Finalizer where
  plan : PublicationPlan
  concurrency : ℕ
  dependants : OrderedMap String (List PublicationEntry)
  sha256Hex : List ℕ → String

structure State where
  unresolved : OrderedMap String ℤ
  ready : MinHeap comparePosition
  evidenceByPosition : List (Option PublicationEvidence)
  active : OrderedMap String InFlight := .empty
  failures : List (PublicationEntry × Failure) := []
  completedCount : ℕ := 0
  maximumActivePublications : ℕ := 0
  reusedObjectCount : ℕ := 0
  newlyWrittenObjectCount : ℕ := 0
  unknownPutStatusObjectCount : ℕ := 0
  stopLaunching : Bool := false
  status : Status := .running
  log : List LogEvent := []

/-! ## Preparing -/

/-- Whether a reference is to an entry of the plan; one that is not must be to an external reference
that is verified and durable and has the same identity. -/
def isChangedReference (entriesByKey : OrderedMap String PublicationEntry)
    (externals : OrderedMap String ExternalReference) (entry : PublicationEntry)
    (labelled : Relationship × Reference) : Except String Bool :=
  if labelled.2.key ∈ entriesByKey.keys then .ok true
  else
    let blocked := s!"V3 dependent publication blocked by incomplete {labelled.1.name}: "
      ++ s!"{labelled.2.key} -> {entry.key}"
    match externals.get? labelled.2.key with
    | none => .error blocked
    | some external =>
      if external.verified ∧ external.durable ∧ external.byteSize = labelled.2.byteSize ∧
          external.sha256 = labelled.2.sha256 then .ok false
      else .error blocked

/-- What the loop over the entries builds. -/
structure Prepared where
  unresolved : OrderedMap String ℤ
  dependants : OrderedMap String (List PublicationEntry)
  ready : MinHeap comparePosition

def prepareEntry (entriesByKey : OrderedMap String PublicationEntry)
    (externals : OrderedMap String ExternalReference) (prepared : Prepared)
    (entry : PublicationEntry) : Except String Prepared := do
  let changed ← entry.labelledReferences.foldlM
    (fun keys labelled ↦ (fun changed ↦ if changed then keys ++ [labelled.2.key] else keys)
      <$> isChangedReference entriesByKey externals entry labelled) []
  return {
    unresolved := prepared.unresolved.set entry.key changed.length
    dependants := changed.foldl (fun dependants key ↦
      dependants.set key ((dependants.get? key).getD [] ++ [entry])) prepared.dependants
    ready := if changed.length = 0 then prepared.ready.push entry else prepared.ready }

def validatePublicationPlan (sha256Hex : List ℕ → String) (plan : PublicationPlan) :
    Except String Unit := do
  Except.refuseIf (plan.contractVersion ≠ publicationContract ∨ plan.entries = [])
    "Invalid observation-history v3 publication plan"
  let expectedHash ← scheduleSha256 sha256Hex plan.toPublicationSchedule
  Except.refuseIf (plan.scheduleSha256 ≠ expectedHash)
    "Observation-history v3 publication schedule identity mismatch"
  Except.refuseIf (¬∀ p ∈ plan.entries.zipIdx, p.1.position = p.2 + 1)
    "Observation-history v3 publication positions are invalid"

def normalizePublicationConcurrency (value : ℤ) : Except String ℕ :=
  if value < 1 ∨ 16 < value then .error "V3 publication concurrency must be an integer from 1 to 16"
  else .ok value.toNat

/-! ## The loop -/

section Loop

variable (f : Finalizer)

/-- An entry calls its next adapter, if it has one to call. -/
def callNext (key : String) (program : Prog Call.Answer Failure PublishedEntry) : List LogEvent :=
  ((pendingCall? program).map (.called key)).toList

def launch (s : State) (entry : PublicationEntry) : State :=
  let program := publishEntry f.sha256Hex f.plan.scheduleSha256 entry
  let active := s.active.set entry.key ⟨entry, program⟩
  { s with
    active := active
    maximumActivePublications := max s.maximumActivePublications active.size
    log := s.log ++ callNext entry.key program }

/-- `while (active.size < concurrency && ready.size > 0)`, for at most `fuel` entries. -/
def launchReady : ℕ → State → State
  | 0, s => s
  | fuel + 1, s =>
    if s.active.size < f.concurrency then
      match s.ready.pop with
      | none => s
      | some (entry, ready) => launchReady fuel (launch f { s with ready := ready } entry)
    else s

/-- A dependant of an entry that has become durable. -/
def resolveDependant (s : State) (dependant : PublicationEntry) : State :=
  let remaining := (s.unresolved.get? dependant.key).getD 0 - 1
  { s with
    unresolved := s.unresolved.set dependant.key remaining
    ready := if remaining = 0 then s.ready.push dependant else s.ready }

/-- An entry has become durable. -/
def recordEvidence (s : State) (entry : PublicationEntry) (value : PublishedEntry) : State :=
  { s with
    active := s.active.delete entry.key
    completedCount := s.completedCount + 1
    evidenceByPosition := s.evidenceByPosition.set (entry.position - 1) (some value.evidence)
    reusedObjectCount := s.reusedObjectCount + if value.disposition = .reused then 1 else 0
    newlyWrittenObjectCount :=
      s.newlyWrittenObjectCount + if value.disposition = .newlyWritten then 1 else 0
    unknownPutStatusObjectCount :=
      s.unknownPutStatusObjectCount + if value.disposition = .unknown then 1 else 0 }

def acceptOutcome (s : State) (entry : PublicationEntry) :
    Except Failure PublishedEntry → State
  | .error reason =>
    { s with
      active := s.active.delete entry.key
      failures := s.failures ++ [(entry, reason)]
      stopLaunching := true }
  | .ok value =>
    ((f.dependants.get? entry.key).getD []).foldl resolveDependant (recordEvidence s entry value)

/-- The failure that the finaliser rejects with: of the failures by position, the first that is the
exhaustion of a budget, or else the first. -/
def reportedFailure (failures : List (PublicationEntry × Failure)) : Option Failure :=
  let byPosition := (Sorting.sortBy (fun left right ↦ comparePosition left.1 right.1) failures).map
    Prod.snd
  (byPosition.find? Failure.isBudgetExhaustion).or byPosition.head?

/-- After the loop, with nothing in flight. -/
def finish (s : State) : State :=
  { s with
    status := .settled <| match reportedFailure s.failures with
      | some failure => .error failure
      | none =>
        let evidence := s.evidenceByPosition.reduceOption
        .ok {
          scheduleSha256 := f.plan.scheduleSha256
          publishedObjectCount := evidence.length
          objects := evidence
          reusedObjectCount := s.reusedObjectCount
          newlyWrittenObjectCount := s.newlyWrittenObjectCount
          unknownPutStatusObjectCount := s.unknownPutStatusObjectCount
          maximumActivePublications := s.maximumActivePublications } }

def noEligibleEntry : Failure where
  message := "V3 publication scheduler has no eligible entry"

/-- From the head of the loop to its next await: of the race of the active entries, or, once
launching has stopped, of all of them. -/
def advance (s : State) : State :=
  if s.completedCount < f.plan.entries.length ∧ ¬s.stopLaunching then
    let s := launchReady f s.ready.size s
    if s.active.size = 0 then
      { s with status := .settled (.error noEligibleEntry) }
    else s
  else if s.stopLaunching ∧ 0 < s.active.size then s
  else finish f s

/-- An adapter answers the call that an entry in flight is waiting for. -/
def answer (s : State) (entry : PublicationEntry) (c : Call) (r : Except Failure c.Answer)
    (k : Except Failure c.Answer → Prog Call.Answer Failure PublishedEntry) : State :=
  { s with
    active := s.active.set entry.key ⟨entry, k r⟩
    log := s.log ++ [.answered entry.key ⟨c, r⟩] ++ callNext entry.key (k r) }

inductive Step : State → State → Prop
  /-- An in-flight call settles. -/
  | answer {s : State} {entry : PublicationEntry} {c : Call}
      {k : Except Failure c.Answer → Prog Call.Answer Failure PublishedEntry}
      (hrunning : s.status = .running)
      (hactive : s.active.get? entry.key = some ⟨entry, .call c k⟩) (r : Except Failure c.Answer) :
      Step s (answer s entry c r k)
  /-- The race is won by an entry that has settled. -/
  | accept {s : State} {entry : PublicationEntry}
      {program : Prog Call.Answer Failure PublishedEntry}
      {outcome : Except Failure PublishedEntry}
      (hrunning : s.status = .running) (hlaunching : s.stopLaunching = false)
      (hactive : s.active.get? entry.key = some ⟨entry, program⟩)
      (houtcome : outcome? program = some outcome) :
      Step s (advance f (acceptOutcome f s entry outcome))
  /-- After a failure, all entries that were in flight have settled. -/
  | settle {s : State} {outcomes : List (PublicationEntry × Except Failure PublishedEntry)}
      (hrunning : s.status = .running) (hstopped : s.stopLaunching = true)
      (houtcomes : s.active.values.map (fun flight ↦ (flight.entry, outcome? flight.program))
        = outcomes.map fun p ↦ (p.1, some p.2)) :
      Step s (finish f (outcomes.foldl (fun s p ↦ acceptOutcome f s p.1 p.2) s))

/-- What any number of steps lead to. -/
abbrev Reaches : State → State → Prop := Relation.ReflTransGen (Step f)

end Loop

/-- `finalizeObservationHistoryIndexV3Publication` up to its first await. -/
def startPublication (sha256Hex : List ℕ → String) (plan : PublicationPlan)
    (publicationConcurrency : ℤ) : Except String (Finalizer × State) := do
  validatePublicationPlan sha256Hex plan
  let concurrency ← normalizePublicationConcurrency publicationConcurrency
  let entriesByKey := OrderedMap.ofList (plan.entries.map fun entry ↦ (entry.key, entry))
  let externals := OrderedMap.ofList (plan.externalReferences.map fun entry ↦ (entry.key, entry))
  let prepared ← plan.entries.foldlM (prepareEntry entriesByKey externals) {
    unresolved := .empty
    dependants := OrderedMap.ofList (plan.entries.map fun entry ↦ (entry.key, []))
    ready := .empty }
  let f : Finalizer := {
    plan, concurrency, sha256Hex
    dependants := prepared.dependants.mapValues (Sorting.sortBy comparePosition) }
  return (f, advance f {
    unresolved := prepared.unresolved
    ready := prepared.ready
    evidenceByPosition := List.replicate plan.entries.length none })

end UkAqOps.Publication

import UkAqOps.Js.Spread
import UkAqOps.Js.Utf16

/-!
# The journal of an apply

`createApplyPersistence` of `scripts/backup_r2/uk_aq_apply_integrity_proposal.mjs`: events are
appended to a file line by line, each with the hash of the one before it, and compact checkpoints
say how much of the file is there and how much of it is durable. Every call of the file system may
fail, and a write may be short.
-/

namespace UkAqOps.ApplyJournal

open JsValue

/-! ## Events -/

def codeUnitCompare (left right : String) : Ordering := compare (codeUnits left) (codeUnits right)

mutual

/-- `recursivelySortJsonValue(value)`: the fields without a value are left out before the others are
sorted, as no name occurs twice. -/
def recursivelySortJsonValue : JsValue → JsValue
  | .arr items => .arr (sortedItems items)
  | .obj fields =>
    JsonText.objectOf (Sorting.sortBy (fun a b ↦ codeUnitCompare a.1 b.1) (sortedFields fields))
  | v => v

def sortedItems : List JsValue → List JsValue
  | [] => []
  | .undefined :: rest => .null :: sortedItems rest
  | v :: rest => recursivelySortJsonValue v :: sortedItems rest

def sortedFields : List (String × JsValue) → List (String × JsValue)
  | [] => []
  | (_, .undefined) :: rest => sortedFields rest
  | (k, v) :: rest => (k, recursivelySortJsonValue v) :: sortedFields rest

end

/-- The bytes that an event is identified by: those of its fields but the hash itself. -/
def canonicalMutationEventHashInput (fields : List (String × JsValue)) : List ℕ :=
  utf8 (recursivelySortJsonValue (.obj (fields.filter fun p ↦ p.1 ≠ "event_sha256"))).stringify

def mutationEventHashContractVersion : String := "integrity-apply-mutation-event-v1"

/-- `...event`; what is spread of a text or of a list has no name that matters. -/
def spread : JsValue → List (String × JsValue)
  | .obj fields => fields
  | _ => []

/-- A hash, or `null`. -/
def hashValue : Option String → JsValue
  | none => .null
  | some hash => .str hash

def baseEvent (runId timestampUtc : String) (tailEventSha256 : Option String) (event : JsValue) :
    List (String × JsValue) :=
  literalFields ([("event_type", .str (event.optional "event_type").orBlank),
      ("timestamp_utc", .str timestampUtc)] ++ spread event ++
    [("run_id", .str runId), ("event_hash_contract_version", .str mutationEventHashContractVersion),
      ("previous_event_sha256", hashValue tailEventSha256)])

/-- The line of an event. -/
def eventLine (base : List (String × JsValue)) (eventSha256 : String) : String :=
  (obj (literalFields (base ++ [("event_sha256", .str eventSha256)]))).stringify

/-! ## The file system -/

/-- A call that fails throws an error with a message. -/
inductive Outcome where
  | ok
  | failed (message : String)
deriving DecidableEq

/-- A write says how many bytes it wrote, or it fails after some bytes. -/
inductive WriteOutcome where
  | wrote (written : ℕ)
  | failed (written : ℕ) (message : String)

/-- The journal file, and how many of its bytes a barrier has covered. -/
structure Disk where
  bytes : List ℕ
  synced : ℕ

/-! ## The persistence -/

structure Counts where
  compactCheckpointCount : ℕ
  eventCount : ℕ
  flushCount : ℕ
  journalBytes : ℕ
  journalSha256 : Option String
  tailEventSha256 : Option String
  durableEventCount : ℕ
  durableJournalBytes : ℕ
  durableTailEventSha256 : Option String
deriving DecidableEq

structure Snapshot extends Counts where
  journalFailure : Option String
deriving DecidableEq

/-- The variables of a persistence. -/
structure Persistence extends Counts where
  /-- The descriptor is not `null`. -/
  isOpen : Bool
  journalFailure : Option String

/-- `if (journalFailure)`: a message without characters is none. -/
def Persistence.hasFailed (p : Persistence) : Bool := p.journalFailure.any (· ≠ "")

def Persistence.failureText (p : Persistence) : String := p.journalFailure.getD ""

/-- `journalFailure ||= message`. -/
def Persistence.failOr (p : Persistence) (message : String) : Persistence :=
  if p.hasFailed then p else { p with journalFailure := some message }

def Persistence.snapshot (p : Persistence) : Snapshot := ⟨p.toCounts, p.journalFailure⟩

structure System where
  persistence : Persistence
  disk : Disk

/-- What a persistence is created with. -/
structure Options where
  runId : String
  runId_ne : trimText runId ≠ ""
  journalPath : String

/-- A persistence that was just created, with its empty file. -/
def initial : System where
  persistence :=
    { compactCheckpointCount := 0, eventCount := 0, flushCount := 0, journalBytes := 0
      journalSha256 := none, tailEventSha256 := none, durableEventCount := 0
      durableJournalBytes := 0, durableTailEventSha256 := none, isOpen := true
      journalFailure := none }
  disk := ⟨[], 0⟩

/-- What a call returns or throws. -/
inductive Reply where
  | threw (message : String)
  | appended (eventCount : ℕ) (eventSha256 : String)
  | snapshot (state : Snapshot)
  /-- A checkpoint, and what came of writing it. -/
  | checkpoint (counts : Counts) (written : Outcome)

section Calls

variable (sha256Hex : List ℕ → String) (options : Options)

/-- The loop of writes for so many turns: what is written, and the message of a failure. -/
def appendLoop (writes : ℕ → WriteOutcome) : ℕ → ℕ → List ℕ → List ℕ × Option String
  | 0, _, _ => ([], none)
  | turns + 1, call, rest =>
    if rest = [] then ([], none)
    else
      match writes call with
      | .failed written message => (rest.take written, some message)
      | .wrote 0 => ([], some "Mutation journal append made no progress")
      | .wrote (written + 1) =>
        let later := appendLoop writes turns (call + 1) (rest.drop (written + 1))
        (rest.take (written + 1) ++ later.1, later.2)

def appendEvent (event : JsValue) (timestampUtc : String) (writes : ℕ → WriteOutcome)
    (s : System) : System × Reply :=
  let p := s.persistence
  if !p.isOpen then (s, .threw "Mutation journal is closed")
  else if p.hasFailed then (s, .threw s!"Mutation journal is unusable: {p.failureText}")
  else
    let base := baseEvent options.runId timestampUtc p.tailEventSha256 event
    if !((obj base).optional "event_type").truthy then
      (s, .threw "Mutation journal event_type is required")
    else
      let eventSha256 := sha256Hex (canonicalMutationEventHashInput base)
      let line := utf8 (eventLine base eventSha256 ++ "\n")
      let (written, failure) := appendLoop writes line.length 0 line
      let disk := { s.disk with bytes := s.disk.bytes ++ written }
      match failure with
      | some message => (⟨{ p with journalFailure := some message }, disk⟩,
          .threw s!"Mutation journal append failed: {message}")
      | none => (⟨{ p with
            eventCount := p.eventCount + 1
            journalBytes := p.journalBytes + line.length
            tailEventSha256 := some eventSha256 }, disk⟩,
          .appended (p.eventCount + 1) eventSha256)

def flush (fsync : Outcome) (s : System) : System × Reply :=
  let p := s.persistence
  if !p.isOpen then (s, .threw "Mutation journal is closed")
  else if p.hasFailed then (s, .threw s!"Mutation journal is unusable: {p.failureText}")
  else
    match fsync with
    | .failed message => (⟨{ p with journalFailure := some message }, s.disk⟩,
        .threw s!"Mutation journal durability barrier failed: {message}")
    | .ok =>
      let flushed := { p with
        flushCount := p.flushCount + 1
        durableEventCount := p.eventCount
        durableJournalBytes := p.journalBytes
        durableTailEventSha256 := p.tailEventSha256 }
      (⟨flushed, { s.disk with synced := s.disk.bytes.length }⟩, .snapshot flushed.snapshot)

def checkpoint (written : Outcome) (s : System) : System × Reply :=
  let counts := { s.persistence.toCounts with
    compactCheckpointCount := s.persistence.compactCheckpointCount + 1 }
  match written with
  | .failed message => (s, .checkpoint counts (.failed message))
  | .ok => (⟨{ s.persistence with toCounts := counts }, s.disk⟩, .checkpoint counts .ok)

def close (fsync closed read : Outcome) (s : System) : System × Reply :=
  if !s.persistence.isOpen then (s, .snapshot s.persistence.snapshot)
  else
    match flush fsync s with
    | (flushed, .threw message) => (flushed, .threw message)
    | (flushed, _) =>
      let p := { flushed.persistence with isOpen := false }
      match closed with
      | .failed message => (⟨{ p with journalFailure := some message }, flushed.disk⟩,
          .threw s!"Mutation journal close failed: {message}")
      | .ok =>
        match read with
        | .failed message => (⟨p, flushed.disk⟩, .threw message)
        | .ok =>
          if flushed.disk.bytes.length ≠ p.journalBytes then (⟨p, flushed.disk⟩,
            .threw s!"Mutation journal byte-length verification failed: {options.journalPath}")
          else
            let verified := { p with journalSha256 := some (sha256Hex flushed.disk.bytes) }
            (⟨verified, flushed.disk⟩, .snapshot verified.snapshot)

/-- The barrier of a close after a failure, whose own failure is passed over. -/
def flushUnlessFailed (fsync : Outcome) (s : System) : System :=
  if s.persistence.hasFailed then s else (flush fsync s).1

def closeAfterFailure (fsync closed read : Outcome) (s : System) : System × Reply :=
  let s := if s.persistence.isOpen then
      let flushed := flushUnlessFailed fsync s
      let p := { flushed.persistence with isOpen := false }
      match closed with
      | .failed message => ⟨p.failOr message, flushed.disk⟩
      | .ok => ⟨p, flushed.disk⟩
    else s
  let p := match read with
    | .failed message => s.persistence.failOr message
    | .ok => { s.persistence with
        journalSha256 := some (sha256Hex s.disk.bytes)
        journalBytes := s.disk.bytes.length }
  (⟨p, s.disk⟩, .snapshot p.snapshot)

/-! ## Runs -/

/-- A call with what comes of the calls that it makes itself. -/
inductive Call where
  | appendEvent (event : JsValue) (timestampUtc : String) (writes : ℕ → WriteOutcome)
  | flush (fsync : Outcome)
  | checkpoint (written : Outcome)
  | close (fsync closed read : Outcome)
  | closeAfterFailure (fsync closed read : Outcome)

def step (s : System) : Call → System × Reply
  | .appendEvent event timestampUtc writes =>
    appendEvent sha256Hex options event timestampUtc writes s
  | .flush fsync => flush fsync s
  | .checkpoint written => checkpoint written s
  | .close fsync closed read => close sha256Hex options fsync closed read s
  | .closeAfterFailure fsync closed read => closeAfterFailure sha256Hex fsync closed read s

/-- The state after some calls. -/
def run (calls : List Call) : System :=
  calls.foldl (fun s call ↦ (step sha256Hex options s call).1) initial

end Calls

end UkAqOps.ApplyJournal

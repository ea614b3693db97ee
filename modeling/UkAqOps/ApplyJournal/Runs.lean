import UkAqOps.ApplyJournal.Chain

/-!
# What a journal tells

However the calls of the file system fail, the file has the complete lines of a chain and at most one
incomplete line behind them, which is then the last thing in it. The counts are those of the complete
lines; after a failure the file is read once more, and from then on the byte count is its length.
-/

namespace UkAqOps.ApplyJournal

/-! ## Calls -/

/-- The events are JSON values, and a write that fails does so with a message. -/
def Call.Valid (double : String → String) : Call → Prop
  | .appendEvent event _ writes => event.Readable double ∧
      ∀ call written message, writes call = .failed written message → message ≠ ""
  | _ => True

/-- The file was read after a failure. -/
def ReadAfterFailure (calls : List Call) : Prop :=
  ∃ fsync closed, Call.closeAfterFailure fsync closed .ok ∈ calls

/-- The file could not be read after a failure. -/
def UnreadAfterFailure (calls : List Call) : Prop :=
  ∃ fsync closed message, Call.closeAfterFailure fsync closed (.failed message) ∈ calls

/-! ## The invariant -/

section Invariant

variable (double : String → String) (sha256Hex : List ℕ → String)

/-- What is behind the complete lines: nothing, or the beginning of one more line of the chain. -/
def Torn (tail : Option String) (torn : List ℕ) : Prop :=
  torn = [] ∨ ∃ line hash, IsEventLine double sha256Hex tail line hash ∧ torn <+: utf8 (line ++ "\n")

/-- The lines that counts describe, and those of them that are durable. -/
structure Describes (counts : Counts) (synced : ℕ) (lines durable : List String) : Prop where
  chain : Chain double sha256Hex lines counts.tailEventSha256
  eventCount : counts.eventCount = lines.length
  durableLines : durable <+: lines
  durableChain : Chain double sha256Hex durable counts.durableTailEventSha256
  durableEventCount : counts.durableEventCount = durable.length
  durableJournalBytes : counts.durableJournalBytes = (bytesOf durable).length
  synced : counts.durableJournalBytes ≤ synced

/-- The state of a persistence after some calls. -/
structure Holds (calls : List Call) (s : System) (lines durable : List String) (torn : List ℕ) :
    Prop where
  counts : Describes double sha256Hex s.persistence.toCounts s.disk.synced lines durable
  bytes : s.disk.bytes = bytesOf lines ++ torn
  isTorn : Torn double sha256Hex s.persistence.tailEventSha256 torn
  failed : torn ≠ [] → s.persistence.hasFailed = true
  journalBytes : s.persistence.journalBytes = (bytesOf lines).length ∨
    s.persistence.isOpen = false ∧ ReadAfterFailure calls ∧
      s.persistence.journalBytes = s.disk.bytes.length
  closed : s.persistence.isOpen = false →
    s.disk.bytes.length = s.persistence.journalBytes ∨ UnreadAfterFailure calls

end Invariant

section Steps

variable {double : String → String} {sha256Hex : List ℕ → String} {options : Options}
variable {calls : List Call} {s : System} {lines durable : List String} {torn : List ℕ}

theorem holds_initial : Holds double sha256Hex [] initial [] [] [] where
  counts := ⟨.empty, rfl, List.prefix_rfl, .empty, rfl, rfl, le_rfl⟩
  bytes := rfl
  isTorn := Or.inl rfl
  failed h := absurd rfl h
  journalBytes := Or.inl rfl
  closed h := nomatch h

theorem ReadAfterFailure.append (h : ReadAfterFailure calls) (call : Call) :
    ReadAfterFailure (calls ++ [call]) := by
  obtain ⟨fsync, closed, hmem⟩ := h
  exact ⟨fsync, closed, List.mem_append_left _ hmem⟩

theorem UnreadAfterFailure.append (h : UnreadAfterFailure calls) (call : Call) :
    UnreadAfterFailure (calls ++ [call]) := by
  obtain ⟨fsync, closed, message, hmem⟩ := h
  exact ⟨fsync, closed, message, List.mem_append_left _ hmem⟩

/-- A state that stays as it is. -/
theorem Holds.append (h : Holds double sha256Hex calls s lines durable torn) (call : Call) :
    Holds double sha256Hex (calls ++ [call]) s lines durable torn where
  counts := h.counts
  bytes := h.bytes
  isTorn := h.isTorn
  failed := h.failed
  journalBytes := h.journalBytes.imp_right fun ⟨hopen, hread, hbytes⟩ ↦
    ⟨hopen, hread.append call, hbytes⟩
  closed hopen := (h.closed hopen).imp_right fun hunread ↦ hunread.append call

/-- While the journal is open, the byte count is that of the complete lines. -/
theorem Holds.journalBytes_of_open (h : Holds double sha256Hex calls s lines durable torn)
    (hopen : s.persistence.isOpen = true) :
    s.persistence.journalBytes = (bytesOf lines).length := by
  rcases h.journalBytes with hbytes | ⟨hclosed, -⟩
  · exact hbytes
  · rw [hopen] at hclosed
    exact nomatch hclosed

/-- Without a failure there is nothing behind the complete lines. -/
theorem Holds.torn_eq_nil (h : Holds double sha256Hex calls s lines durable torn)
    (hfailed : s.persistence.hasFailed = false) : torn = [] := by
  by_contra hne
  rw [h.failed hne] at hfailed
  exact nomatch hfailed

/-- A failure that is noted changes no count. -/
theorem Holds.fail (h : Holds double sha256Hex calls s lines durable torn)
    (hfailed : s.persistence.hasFailed = false) (message : String) :
    Holds double sha256Hex calls
      ⟨{ s.persistence with journalFailure := some message }, s.disk⟩ lines durable torn where
  counts := h.counts
  bytes := h.bytes
  isTorn := h.isTorn
  failed hne := absurd (h.torn_eq_nil hfailed) hne
  journalBytes := h.journalBytes
  closed := h.closed

theorem Holds.failOr (h : Holds double sha256Hex calls s lines durable torn) (message : String) :
    Holds double sha256Hex calls ⟨s.persistence.failOr message, s.disk⟩ lines durable torn := by
  rw [Persistence.failOr]
  split_ifs with hfailed
  · exact h
  · exact h.fail (Bool.eq_false_iff.mpr hfailed) message

/-! ## Appending -/

theorem hasFailed_of_message {p : Persistence} {message : String} (h : message ≠ "") :
    ({ p with journalFailure := some message } : Persistence).hasFailed = true := by
  simpa [Persistence.hasFailed] using h

theorem holds_appendEvent (h : Holds double sha256Hex calls s lines durable torn)
    {event : JsValue} (hevent : event.Readable double) (timestampUtc : String)
    {writes : ℕ → WriteOutcome}
    (hwrites : ∀ call written message, writes call = .failed written message → message ≠ "") :
    ∃ lines' torn', Holds double sha256Hex calls
      (appendEvent sha256Hex options event timestampUtc writes s).1 lines' durable torn' := by
  rw [appendEvent]
  dsimp only
  split_ifs with hopen hfailed htype
  · exact ⟨lines, torn, h⟩
  · exact ⟨lines, torn, h⟩
  · exact ⟨lines, torn, h⟩
  rw [Bool.not_eq_true, Bool.not_eq_false'] at hopen
  rw [Bool.not_eq_true] at hfailed
  set base := baseEvent options.runId timestampUtc s.persistence.tailEventSha256 event with hbase
  set hash := sha256Hex (canonicalMutationEventHashInput base) with hhash
  set line := utf8 (eventLine base hash ++ "\n") with hline
  have hnil := h.torn_eq_nil hfailed
  have hbytes : s.disk.bytes = bytesOf lines := by rw [h.bytes, hnil, List.append_nil]
  have hisLine : IsEventLine double sha256Hex s.persistence.tailEventSha256 (eventLine base hash) hash :=
    isEventLine hevent rfl
  obtain ⟨hwritten, hall, hmessage⟩ := @appendLoop_spec writes line.length 0 line le_rfl
  rcases hfailure : (appendLoop writes line.length 0 line).2 with _ | message
  · -- the line is complete
    refine ⟨lines ++ [eventLine base hash], [], ?_⟩
    have hlines : bytesOf (lines ++ [eventLine base hash]) = bytesOf lines ++ line := bytesOf_append _ _
    refine ⟨⟨h.counts.chain.append hisLine, ?_, h.counts.durableLines.trans (List.prefix_append _ _),
      h.counts.durableChain, h.counts.durableEventCount, h.counts.durableJournalBytes,
      h.counts.synced⟩, ?_, Or.inl rfl, fun hne ↦ absurd rfl hne, Or.inl ?_, fun hclosed ↦ ?_⟩
    · rw [List.length_append, List.length_singleton, ← h.counts.eventCount]
    · rw [hall hfailure, hbytes, hlines, List.append_nil]
    · rw [hlines, List.length_append, ← h.journalBytes_of_open hopen]
    · rw [hopen] at hclosed
      exact nomatch hclosed
  · -- the line is torn
    have hne : message ≠ "" := by
      rcases hmessage message hfailure with rfl | ⟨call, written, hfail⟩
      · decide
      · exact hwrites call written message hfail
    refine ⟨lines, (appendLoop writes line.length 0 line).1, ?_⟩
    exact ⟨h.counts, by rw [hbytes], Or.inr ⟨_, hash, hisLine, hwritten⟩,
      fun _ ↦ hasFailed_of_message hne, Or.inl (h.journalBytes_of_open hopen), fun hclosed ↦ by
        rw [hopen] at hclosed
        exact nomatch hclosed⟩

/-! ## Barriers and checkpoints -/

/-- **A barrier** that passes covers the complete lines. -/
theorem holds_flush (h : Holds double sha256Hex calls s lines durable torn) (fsync : Outcome) :
    ∃ durable', Holds double sha256Hex calls (flush fsync s).1 lines durable' torn := by
  rw [flush.eq_def]
  dsimp only
  split_ifs with hopen hfailed
  · exact ⟨durable, h⟩
  · exact ⟨durable, h⟩
  rw [Bool.not_eq_true, Bool.not_eq_false'] at hopen
  rw [Bool.not_eq_true] at hfailed
  rcases fsync with _ | message
  · refine ⟨lines, ⟨h.counts.chain, h.counts.eventCount, List.prefix_rfl, h.counts.chain,
      h.counts.eventCount, h.journalBytes_of_open hopen, ?_⟩, h.bytes, h.isTorn, h.failed,
      h.journalBytes, h.closed⟩
    dsimp only
    rw [h.journalBytes_of_open hopen, h.bytes, List.length_append]
    exact Nat.le_add_right _ _
  · exact ⟨durable, h.fail hfailed message⟩

/-- A barrier leaves the journal open, and it passes only without a failure. -/
theorem flush_cases (fsync : Outcome) (hopen : s.persistence.isOpen = true) :
    (flush fsync s).1.persistence.isOpen = true ∧
      (flush fsync s).1.disk.bytes = s.disk.bytes ∧
      ((∃ message, (flush fsync s).2 = .threw message) ∨
        (flush fsync s).1.persistence.hasFailed = false ∧
          ∃ state, (flush fsync s).2 = .snapshot state) := by
  rw [flush.eq_def]
  dsimp only
  rw [hopen]
  split_ifs with hnot hfailed
  · exact nomatch hnot
  · exact ⟨hopen, rfl, Or.inl ⟨_, rfl⟩⟩
  · rcases fsync with _ | message
    · refine ⟨rfl, rfl, Or.inr ⟨?_, _, rfl⟩⟩
      rw [Bool.not_eq_true] at hfailed
      exact hfailed
    · exact ⟨rfl, rfl, Or.inl ⟨_, rfl⟩⟩

theorem holds_checkpoint (h : Holds double sha256Hex calls s lines durable torn)
    (written : Outcome) :
    Holds double sha256Hex calls (checkpoint written s).1 lines durable torn := by
  rcases written with _ | message
  · exact ⟨⟨h.counts.chain, h.counts.eventCount, h.counts.durableLines, h.counts.durableChain,
      h.counts.durableEventCount, h.counts.durableJournalBytes, h.counts.synced⟩, h.bytes, h.isTorn,
      h.failed, h.journalBytes, h.closed⟩
  · exact h

/-! ## Closing -/

/-- A journal without anything behind its lines may be closed. -/
theorem Holds.shut (h : Holds double sha256Hex calls s lines durable torn)
    (hbytes : s.disk.bytes.length = s.persistence.journalBytes ∨ UnreadAfterFailure calls) :
    Holds double sha256Hex calls
      ⟨{ s.persistence with isOpen := false }, s.disk⟩ lines durable torn where
  counts := h.counts
  bytes := h.bytes
  isTorn := h.isTorn
  failed := h.failed
  journalBytes := h.journalBytes.imp_right fun ⟨_, hread⟩ ↦ ⟨rfl, hread⟩
  closed _ := hbytes

theorem Holds.length_of_open (h : Holds double sha256Hex calls s lines durable torn)
    (hopen : s.persistence.isOpen = true) (hfailed : s.persistence.hasFailed = false) :
    s.disk.bytes.length = s.persistence.journalBytes := by
  rw [h.bytes, h.torn_eq_nil hfailed, List.append_nil, h.journalBytes_of_open hopen]

theorem Holds.hash (h : Holds double sha256Hex calls s lines durable torn) (hash : String) :
    Holds double sha256Hex calls
      ⟨{ s.persistence with journalSha256 := some hash }, s.disk⟩ lines durable torn :=
  ⟨⟨h.counts.chain, h.counts.eventCount, h.counts.durableLines, h.counts.durableChain,
    h.counts.durableEventCount, h.counts.durableJournalBytes, h.counts.synced⟩, h.bytes, h.isTorn,
    h.failed, h.journalBytes, h.closed⟩

/-- **A close** keeps the invariant, and it returns only if the file has the bytes that are counted or
could not be read after a failure. -/
theorem holds_close (h : Holds double sha256Hex calls s lines durable torn)
    (fsync closed read : Outcome) :
    (∃ durable', Holds double sha256Hex calls (close sha256Hex options fsync closed read s).1 lines
      durable' torn) ∧
    (close sha256Hex options fsync closed read s).1.disk.bytes = s.disk.bytes ∧
    ∀ state, (close sha256Hex options fsync closed read s).2 = .snapshot state →
      s.disk.bytes.length = state.journalBytes ∨ UnreadAfterFailure calls := by
  rw [close]
  by_cases hopen : s.persistence.isOpen = true
  · rw [if_neg (by rw [hopen]; decide)]
    obtain ⟨hstill, hsame, hcases⟩ := flush_cases fsync hopen
    obtain ⟨durable', hflushed⟩ := holds_flush h fsync
    rcases hflush : flush fsync s with ⟨flushed, reply⟩
    rw [hflush] at hcases hflushed hstill hsame
    dsimp only at hcases hflushed hstill hsame
    rcases hcases with ⟨message, rfl⟩ | ⟨hfailed, state, rfl⟩
    · exact ⟨⟨durable', hflushed⟩, hsame, nofun⟩
    · have hlength := hflushed.length_of_open hstill hfailed
      have hshut := hflushed.shut (Or.inl hlength)
      dsimp only
      rcases closed with _ | message
      · rcases read with _ | message
        · dsimp only
          rw [if_neg (not_not.mpr hlength)]
          refine ⟨⟨durable', hshut.hash _⟩, hsame, fun state hstate ↦ Or.inl ?_⟩
          rw [← hsame, hlength, ← Reply.snapshot.inj hstate]
          rfl
        · exact ⟨⟨durable', hshut⟩, hsame, nofun⟩
      · exact ⟨⟨durable', hshut.fail hfailed message⟩, hsame, nofun⟩
  · rw [Bool.not_eq_true] at hopen
    rw [if_pos (by rw [hopen]; rfl)]
    refine ⟨⟨durable, h⟩, rfl, fun state hstate ↦ ?_⟩
    rw [← Reply.snapshot.inj hstate]
    exact h.closed hopen

/-! ### After a failure -/

/-- A persistence whose descriptor is `null`. -/
def Persistence.shut (p : Persistence) : Persistence := { p with isOpen := false }

theorem failOr_shut (p : Persistence) (message : String) :
    p.shut.failOr message = (p.failOr message).shut := by
  rw [Persistence.failOr, Persistence.failOr]
  by_cases hfailed : p.hasFailed = true
  · rw [if_pos hfailed, if_pos (show p.shut.hasFailed = true from hfailed)]
  · rw [if_neg hfailed, if_neg (show ¬p.shut.hasFailed = true from hfailed)]
    rfl

theorem shut_of_closed {p : Persistence} (h : p.isOpen = false) : p.shut = p := by
  rw [Persistence.shut, ← h]

/-- What reading the file after a failure leaves. -/
def readBack (sha256Hex : List ℕ → String) (read : Outcome) (s : System) : System :=
  match read with
  | .failed message => ⟨(s.persistence.failOr message).shut, s.disk⟩
  | .ok => ⟨{ s.persistence.shut with
      journalSha256 := some (sha256Hex s.disk.bytes)
      journalBytes := s.disk.bytes.length }, s.disk⟩

theorem holds_flushUnlessFailed (h : Holds double sha256Hex calls s lines durable torn)
    (fsync : Outcome) :
    ∃ durable', Holds double sha256Hex calls (flushUnlessFailed fsync s) lines durable' torn := by
  rw [flushUnlessFailed]
  split_ifs with hfailed
  · exact ⟨durable, h⟩
  · exact holds_flush h fsync

/-- **A close after a failure** reads the file behind what it does to the descriptor. -/
theorem closeAfterFailure_eq (h : Holds double sha256Hex calls s lines durable torn)
    (fsync closed : Outcome) :
    ∃ s' durable', Holds double sha256Hex calls s' lines durable' torn ∧
      ∀ read, (closeAfterFailure sha256Hex fsync closed read s).1 = readBack sha256Hex read s' := by
  by_cases hopen : s.persistence.isOpen = true
  · obtain ⟨durable', hflushed⟩ := holds_flushUnlessFailed h fsync
    rcases closed with _ | message
    · refine ⟨flushUnlessFailed fsync s, durable', hflushed, fun read ↦ ?_⟩
      rw [closeAfterFailure.eq_def, if_pos hopen]
      rcases read with _ | message
      · rfl
      · exact congrArg (System.mk · _) (failOr_shut _ message)
    · refine ⟨_, durable', hflushed.failOr message, fun read ↦ ?_⟩
      rw [closeAfterFailure.eq_def, if_pos hopen]
      have hshut := failOr_shut (flushUnlessFailed fsync s).persistence message
      rw [Persistence.shut] at hshut
      simp only [hshut]
      rcases read with _ | message
      · rfl
      · exact congrArg (System.mk · _) (failOr_shut _ message)
  · rw [Bool.not_eq_true] at hopen
    refine ⟨s, durable, h, fun read ↦ ?_⟩
    rw [closeAfterFailure.eq_def, if_neg (by rw [hopen]; decide)]
    rcases read with _ | message
    · rw [readBack, shut_of_closed hopen]
    · have hstill : (s.persistence.failOr message).isOpen = false := by
        rw [Persistence.failOr]
        split_ifs
        · exact hopen
        · exact hopen
      rw [readBack, shut_of_closed hstill]

theorem holds_closeAfterFailure (h : Holds double sha256Hex calls s lines durable torn)
    (fsync closed read : Outcome) :
    ∃ durable', Holds double sha256Hex (calls ++ [.closeAfterFailure fsync closed read])
      (closeAfterFailure sha256Hex fsync closed read s).1 lines durable' torn := by
  obtain ⟨s', durable', hbefore, heq⟩ := closeAfterFailure_eq h fsync closed
  refine ⟨durable', ?_⟩
  rw [heq]
  rcases read with _ | message
  · exact ⟨⟨hbefore.counts.chain, hbefore.counts.eventCount, hbefore.counts.durableLines,
      hbefore.counts.durableChain, hbefore.counts.durableEventCount,
      hbefore.counts.durableJournalBytes, hbefore.counts.synced⟩, hbefore.bytes, hbefore.isTorn,
      hbefore.failed, Or.inr ⟨rfl, ⟨fsync, closed, by simp⟩, rfl⟩, fun _ ↦ Or.inl rfl⟩
  · have hnoted := (hbefore.failOr message).append (.closeAfterFailure fsync closed (.failed message))
    exact hnoted.shut (Or.inr ⟨fsync, closed, message, by simp⟩)

/-! ## Runs -/

/-- **One call** keeps the invariant. -/
theorem holds_step (h : Holds double sha256Hex calls s lines durable torn) (call : Call)
    (hvalid : call.Valid double) :
    ∃ lines' durable' torn', Holds double sha256Hex (calls ++ [call])
      (step sha256Hex options s call).1 lines' durable' torn' := by
  rcases call with ⟨event, timestampUtc, writes⟩ | fsync | written | ⟨fsync, closed, read⟩ |
    ⟨fsync, closed, read⟩
  · obtain ⟨lines', torn', hnext⟩ := @holds_appendEvent double sha256Hex options calls s lines durable
      torn h event hvalid.1 timestampUtc writes hvalid.2
    exact ⟨lines', durable, torn', hnext.append _⟩
  · obtain ⟨durable', hnext⟩ := holds_flush h fsync
    exact ⟨lines, durable', torn, hnext.append _⟩
  · exact ⟨lines, durable, torn, (holds_checkpoint h written).append _⟩
  · obtain ⟨⟨durable', hnext⟩, -⟩ := holds_close h fsync closed read
    exact ⟨lines, durable', torn, hnext.append _⟩
  · obtain ⟨durable', hnext⟩ := holds_closeAfterFailure h fsync closed read
    exact ⟨lines, durable', torn, hnext⟩

/-- **Every run** keeps the invariant. -/
theorem holds_run (hvalid : ∀ call ∈ calls, call.Valid double) :
    ∃ lines durable torn, Holds double sha256Hex calls (run sha256Hex options calls) lines durable
      torn := by
  induction calls using List.reverseRecOn with
  | nil => exact ⟨[], [], [], holds_initial⟩
  | append_singleton calls call ih =>
    obtain ⟨lines, durable, torn, hbefore⟩ :=
      ih fun c hc ↦ hvalid c (List.mem_append_left _ hc)
    rw [run, List.foldl_append, ← run]
    exact holds_step hbefore call (hvalid call (List.mem_append_right _ List.mem_cons_self))

/-! ## Nothing behind a failure -/

theorem failOr_of_hasFailed {p : Persistence} (h : p.hasFailed = true) (message : String) :
    p.failOr message = p := if_pos h

theorem flush_of_hasFailed (hfailed : s.persistence.hasFailed = true) (fsync : Outcome) :
    (flush fsync s).1 = s ∧ ∃ message, (flush fsync s).2 = .threw message := by
  rw [flush.eq_def]
  dsimp only
  split_ifs
  · exact ⟨rfl, _, rfl⟩
  · exact ⟨rfl, _, rfl⟩

theorem closeAfterFailure_of_hasFailed (hfailed : s.persistence.hasFailed = true)
    (fsync closed read : Outcome) :
    (closeAfterFailure sha256Hex fsync closed read s).1.disk = s.disk ∧
      (closeAfterFailure sha256Hex fsync closed read s).1.persistence.hasFailed = true := by
  have hshut : ∀ p : Persistence, p.hasFailed = true → p.shut.hasFailed = true := fun _ h ↦ h
  have hdescriptor : ∃ p : Persistence, p.hasFailed = true ∧
      (closeAfterFailure sha256Hex fsync closed read s).1
        = match read with
          | .failed message => ⟨p.failOr message, s.disk⟩
          | .ok => ⟨{ p with
              journalSha256 := some (sha256Hex s.disk.bytes)
              journalBytes := s.disk.bytes.length }, s.disk⟩ := by
    rw [closeAfterFailure.eq_def, flushUnlessFailed, if_pos hfailed]
    by_cases hopen : s.persistence.isOpen = true
    · rw [if_pos hopen]
      refine ⟨s.persistence.shut, hshut _ hfailed, ?_⟩
      rcases closed with _ | message
      · rcases read with _ | message
        · rfl
        · rfl
      · have hsame := failOr_of_hasFailed (hshut _ hfailed) message
        rw [Persistence.shut] at hsame
        simp only [hsame]
        rcases read with _ | message
        · rfl
        · rfl
    · rw [if_neg hopen]
      refine ⟨s.persistence, hfailed, ?_⟩
      rcases read with _ | message
      · rfl
      · rfl
  obtain ⟨p, hp, heq⟩ := hdescriptor
  rw [heq]
  rcases read with _ | message
  · exact ⟨rfl, hp⟩
  · dsimp only
    rw [failOr_of_hasFailed hp]
    exact ⟨rfl, hp⟩

/-- After a failure a call writes nothing more, and the failure stays. -/
theorem step_of_hasFailed (hfailed : s.persistence.hasFailed = true) (call : Call) :
    (step sha256Hex options s call).1.disk.bytes = s.disk.bytes ∧
      (step sha256Hex options s call).1.persistence.hasFailed = true := by
  rcases call with ⟨event, timestampUtc, writes⟩ | fsync | written | ⟨fsync, closed, read⟩ |
    ⟨fsync, closed, read⟩
  · rw [step, appendEvent]
    dsimp only
    by_cases hopen : s.persistence.isOpen = true
    · rw [if_neg (by rw [hopen]; decide), if_pos hfailed]
      exact ⟨rfl, hfailed⟩
    · rw [Bool.not_eq_true] at hopen
      rw [if_pos (by rw [hopen]; rfl)]
      exact ⟨rfl, hfailed⟩
  · rw [step, (flush_of_hasFailed hfailed fsync).1]
    exact ⟨rfl, hfailed⟩
  · rw [step]
    rcases written with _ | message
    · exact ⟨rfl, hfailed⟩
    · exact ⟨rfl, hfailed⟩
  · rw [step, close]
    split_ifs
    · exact ⟨rfl, hfailed⟩
    · obtain ⟨hsame, message, hthrew⟩ := flush_of_hasFailed hfailed fsync
      rcases hflush : flush fsync s with ⟨flushed, reply⟩
      rw [hflush] at hsame hthrew
      dsimp only at hsame hthrew
      rw [hsame, hthrew]
      exact ⟨rfl, hfailed⟩
  · obtain ⟨hdisk, hstill⟩ := @closeAfterFailure_of_hasFailed sha256Hex s hfailed fsync closed read
    exact ⟨congrArg Disk.bytes hdisk, hstill⟩

/-- After a failure nothing more is ever written. -/
theorem run_of_hasFailed (hfailed : (run sha256Hex options calls).persistence.hasFailed = true)
    (more : List Call) :
    (run sha256Hex options (calls ++ more)).disk.bytes = (run sha256Hex options calls).disk.bytes ∧
      (run sha256Hex options (calls ++ more)).persistence.hasFailed = true := by
  induction more using List.reverseRecOn with
  | nil =>
    rw [List.append_nil]
    exact ⟨rfl, hfailed⟩
  | append_singleton more call ih =>
    rw [← List.append_assoc, run, List.foldl_append, ← run]
    obtain ⟨hbytes, hstill⟩ := @step_of_hasFailed sha256Hex options _ ih.2 call
    exact ⟨hbytes.trans ih.1, hstill⟩

end Steps

/-! ## The claims of a journal -/

section Journal

variable (double : String → String) (sha256Hex : List ℕ → String)

/-- A journal: the complete lines of a chain, and at most one incomplete line of it behind them. -/
def IsJournal (bytes torn : List ℕ) : Prop :=
  ∃ lines tail, Chain double sha256Hex lines tail ∧ bytes = bytesOf lines ++ torn ∧
    (torn = [] ∨ ∃ line hash, IsEventLine double sha256Hex tail line hash ∧ torn <+: utf8 line)

/-- What a checkpoint should tell: complete lines of the file, with their number, their bytes and the
hash of the last one, and which of them a barrier has covered. -/
def TellsLines (counts : Counts) (disk : Disk) : Prop :=
  ∃ lines durable, Describes double sha256Hex counts disk.synced lines durable ∧
    bytesOf lines <+: disk.bytes ∧ counts.journalBytes = (bytesOf lines).length

/-- What a checkpoint tells: once the file was read after a failure, the bytes are those of the
file. -/
def TellsLinesOrFile (calls : List Call) (counts : Counts) (disk : Disk) : Prop :=
  ∃ lines durable, Describes double sha256Hex counts disk.synced lines durable ∧
    bytesOf lines <+: disk.bytes ∧ (counts.journalBytes = (bytesOf lines).length ∨
      ReadAfterFailure calls ∧ counts.journalBytes = disk.bytes.length)

variable {double sha256Hex} {options : Options} {calls : List Call}

/-- The file of a run is a journal. -/
theorem isJournal_of_holds {s : System} {lines durable : List String} {torn : List ℕ}
    (h : Holds double sha256Hex calls s lines durable torn) :
    ∃ torn', IsJournal double sha256Hex s.disk.bytes torn' ∧
      (torn' ≠ [] → s.persistence.hasFailed = true) := by
  rcases h.isTorn with hnil | ⟨line, hash, hline, hwritten⟩
  · exact ⟨[], ⟨lines, _, h.counts.chain, by rw [h.bytes, hnil], Or.inl rfl⟩, fun hne ↦ absurd rfl hne⟩
  · have hnewline : utf8 (line ++ "\n") = utf8 line ++ [10] := by
      have hbyte : utf8 "\n" = [10] := by decide +kernel
      rw [utf8_append, hbyte]
    rw [hnewline, List.prefix_concat_iff] at hwritten
    rcases hwritten with hfull | hpart
    · -- the write failed behind the whole line
      refine ⟨[], ⟨lines ++ [line], some hash, h.counts.chain.append hline, ?_, Or.inl rfl⟩,
        fun hne ↦ absurd rfl hne⟩
      rw [h.bytes, hfull, bytesOf_append, hnewline, List.append_nil]
    · exact ⟨torn, ⟨lines, _, h.counts.chain, h.bytes, Or.inr ⟨line, hash, hline, hpart⟩⟩, h.failed⟩

/-- **However the file system fails**, the file is a journal to which nothing is written behind an
incomplete line, checkpoints tell complete lines or, behind a failure, the length of the file, and a
close returns only if the file has the bytes that are counted or could not be read. -/
theorem journal_of_run (hvalid : ∀ call ∈ calls, call.Valid double) :
    (∃ torn, IsJournal double sha256Hex (run sha256Hex options calls).disk.bytes torn ∧
      (torn ≠ [] → ∀ more, (run sha256Hex options (calls ++ more)).disk.bytes
        = (run sha256Hex options calls).disk.bytes)) ∧
    (∀ written counts outcome, (step sha256Hex options (run sha256Hex options calls)
        (.checkpoint written)).2 = .checkpoint counts outcome →
      TellsLinesOrFile double sha256Hex calls counts (run sha256Hex options calls).disk) ∧
    ∀ fsync closed read state, (step sha256Hex options (run sha256Hex options calls)
        (.close fsync closed read)).2 = .snapshot state →
      (step sha256Hex options (run sha256Hex options calls)
        (.close fsync closed read)).1.disk.bytes.length = state.journalBytes ∨
      UnreadAfterFailure calls := by
  obtain ⟨lines, durable, torn, h⟩ := @holds_run double sha256Hex options calls hvalid
  refine ⟨?_, fun written counts outcome hreply ↦ ?_, fun fsync closed read state hreply ↦ ?_⟩
  · obtain ⟨torn', hjournal, hfailed⟩ := isJournal_of_holds h
    exact ⟨torn', hjournal, fun hne more ↦ (run_of_hasFailed (hfailed hne) more).1⟩
  · have hcounts : counts = { (run sha256Hex options calls).persistence.toCounts with
        compactCheckpointCount :=
          (run sha256Hex options calls).persistence.compactCheckpointCount + 1 } := by
      rcases written with _ | message
      · exact (Reply.checkpoint.inj hreply).1.symm
      · exact (Reply.checkpoint.inj hreply).1.symm
    rw [hcounts]
    refine ⟨lines, durable, ⟨h.counts.chain, h.counts.eventCount, h.counts.durableLines,
      h.counts.durableChain, h.counts.durableEventCount, h.counts.durableJournalBytes,
      h.counts.synced⟩, ?_, h.journalBytes.imp_right And.right⟩
    rw [h.bytes]
    exact List.prefix_append _ _
  · obtain ⟨-, hsame, hreturns⟩ := @holds_close double sha256Hex options _ _ _ _ _ h fsync closed read
    rw [step, hsame]
    exact hreturns state hreply

end Journal

/-! ### Two runs -/

section Samples

def sampleOptions : Options := ⟨"run-1", by decide, "apply-mutation-events.jsonl"⟩

def sampleEvent : JsValue := .obj [("event_type", .str "put_started")]

/-- Writes of so many bytes, and from the next one on the disk is full. -/
def shortWrites (lengths : List ℕ) (call : ℕ) : WriteOutcome :=
  match lengths[call]? with
  | some written => .wrote written
  | none => .failed 0 "ENOSPC: no space left on device, write"

/-- A hash that stands for the real one. -/
def sampleHash (bytes : List ℕ) : String := toString bytes.length

def sampleCalls : List Call :=
  [.appendEvent sampleEvent "2026-01-01T00:00:00.000Z" (shortWrites [7, 1000]),
    .appendEvent sampleEvent "2026-01-01T00:00:01.000Z" (shortWrites [5]),
    .closeAfterFailure .ok .ok .ok]

theorem journal_of_sampleRun :
    (∃ torn, IsJournal id sampleHash (run sampleHash sampleOptions sampleCalls).disk.bytes torn ∧
      (torn ≠ [] → ∀ more, (run sampleHash sampleOptions (sampleCalls ++ more)).disk.bytes
        = (run sampleHash sampleOptions sampleCalls).disk.bytes)) ∧
    (∀ written counts outcome, (step sampleHash sampleOptions
        (run sampleHash sampleOptions sampleCalls) (.checkpoint written)).2
          = .checkpoint counts outcome →
      TellsLinesOrFile id sampleHash sampleCalls counts
        (run sampleHash sampleOptions sampleCalls).disk) ∧
    ∀ fsync closed read state, (step sampleHash sampleOptions
        (run sampleHash sampleOptions sampleCalls) (.close fsync closed read)).2 = .snapshot state →
      (step sampleHash sampleOptions (run sampleHash sampleOptions sampleCalls)
        (.close fsync closed read)).1.disk.bytes.length = state.journalBytes ∨
      UnreadAfterFailure sampleCalls := by
  refine journal_of_run fun call hcall ↦ ?_
  have hevent : sampleEvent.Readable id :=
    JsonText.readable_of_plain id _ ⟨⟨by decide, trivial, trivial⟩, by decide⟩
  have hwrites : ∀ lengths call written message,
      shortWrites lengths call = .failed written message → message ≠ "" := by
    intro lengths call written message hfail
    rw [shortWrites] at hfail
    split at hfail
    · exact nomatch hfail
    · rw [← (WriteOutcome.failed.inj hfail).2]
      decide
  simp only [sampleCalls, List.mem_cons, List.not_mem_nil, or_false] at hcall
  rcases hcall with rfl | rfl | rfl
  · exact ⟨hevent, hwrites _⟩
  · exact ⟨hevent, hwrites _⟩
  · exact trivial

/-- What a checkpoint that is written tells. -/
theorem step_checkpoint (s : System) : (step sampleHash sampleOptions s (.checkpoint .ok)).2
    = .checkpoint { s.persistence.toCounts with
        compactCheckpointCount := s.persistence.compactCheckpointCount + 1 } .ok := rfl

/-- A close of a closed journal. -/
theorem step_close_of_closed {s : System} (h : s.persistence.isOpen = false) :
    step sampleHash sampleOptions s (.close .ok .ok .ok)
      = (s, .snapshot s.persistence.snapshot) := by
  rw [step, close, if_pos (by rw [h]; rfl)]

/-- A line of which five bytes were written. -/
def tornCalls (read : Outcome) : List Call :=
  [.appendEvent sampleEvent "2026-01-01T00:00:00.000Z" (shortWrites [5]),
    .closeAfterFailure .ok .ok read]

/-- Behind a failure a checkpoint counts the bytes of an incomplete line, and a close returns without
them if the file could not be read. -/
theorem not_tellsLines_of_torn :
    (¬∀ counts outcome, (step sampleHash sampleOptions
        (run sampleHash sampleOptions (tornCalls .ok)) (.checkpoint .ok)).2
          = .checkpoint counts outcome →
      TellsLines id sampleHash counts (run sampleHash sampleOptions (tornCalls .ok)).disk) ∧
    ¬∀ state, (step sampleHash sampleOptions
        (run sampleHash sampleOptions (tornCalls (.failed "EIO: i/o error, open")))
          (.close .ok .ok .ok)).2 = .snapshot state →
      (step sampleHash sampleOptions
        (run sampleHash sampleOptions (tornCalls (.failed "EIO: i/o error, open")))
          (.close .ok .ok .ok)).1.disk.bytes.length = state.journalBytes := by
  constructor
  · intro h
    have hcounts : (run sampleHash sampleOptions (tornCalls .ok)).persistence.eventCount = 0 ∧
        (run sampleHash sampleOptions (tornCalls .ok)).persistence.journalBytes = 5 := by
      decide +kernel
    generalize run sampleHash sampleOptions (tornCalls .ok) = s at h hcounts
    obtain ⟨lines, durable, hlines, -, hbytes⟩ := h _ _ (step_checkpoint s)
    have hcount := hlines.eventCount
    dsimp only at hcount hbytes
    rw [hcounts.1, eq_comm, List.length_eq_zero_iff] at hcount
    rw [hcounts.2, hcount] at hbytes
    exact absurd hbytes (by decide)
  · intro h
    have hbytes : (run sampleHash sampleOptions
        (tornCalls (.failed "EIO: i/o error, open"))).persistence.isOpen = false ∧
        (run sampleHash sampleOptions
          (tornCalls (.failed "EIO: i/o error, open"))).persistence.journalBytes = 0 ∧
        (run sampleHash sampleOptions
          (tornCalls (.failed "EIO: i/o error, open"))).disk.bytes.length = 5 := by
      decide +kernel
    generalize run sampleHash sampleOptions (tornCalls (.failed "EIO: i/o error, open")) = s
      at h hbytes
    have hlength := h s.persistence.snapshot (by rw [step_close_of_closed hbytes.1])
    have hzero : s.persistence.snapshot.journalBytes = 0 := hbytes.2.1
    rw [step_close_of_closed hbytes.1, hzero, hbytes.2.2] at hlength
    exact absurd hlength (by decide)

end Samples

end UkAqOps.ApplyJournal

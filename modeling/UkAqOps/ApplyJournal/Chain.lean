import UkAqOps.ApplyJournal.Persistence

/-!
# The chain of a journal

A line of the journal reads back as the event that was appended, so that its hash can be computed
again from the line.
-/

namespace UkAqOps.ApplyJournal

open JsValue

/-! ## Chains -/

section Chains

variable (double : String → String) (sha256Hex : List ℕ → String)

/-- A line is that of an event with a hash, behind a line with a hash. -/
structure IsEventLine (previous : Option String) (line hash : String) : Prop where
  oneLine : '\n' ∉ line.toList
  event : ∃ fields, JsonText.parse double line = some (.obj fields) ∧
    (obj fields).optional "event_sha256" = .str hash ∧
    sha256Hex (canonicalMutationEventHashInput fields) = hash ∧
    (obj fields).optional "previous_event_sha256" = hashValue previous

/-- The lines of a chain and the hash of its last line. -/
inductive Chain : List String → Option String → Prop where
  | empty : Chain [] none
  | append {lines : List String} {tail : Option String} {line hash : String} :
    Chain lines tail → IsEventLine double sha256Hex tail line hash → Chain (lines ++ [line]) (some hash)

end Chains

/-- The bytes of complete lines. -/
def bytesOf (lines : List String) : List ℕ := lines.flatMap fun line ↦ utf8 (line ++ "\n")

theorem bytesOf_append (lines : List String) (line : String) :
    bytesOf (lines ++ [line]) = bytesOf lines ++ utf8 (line ++ "\n") := by
  rw [bytesOf, List.flatMap_append, List.flatMap_singleton, ← bytesOf]

/-! ## Lines of events -/

section Lines

variable {double : String → String} {sha256Hex : List ℕ → String} {runId timestampUtc : String}
variable {tail : Option String} {event : JsValue} {hash : String}

theorem readable_hashValue (tail : Option String) : (hashValue tail).Readable double := by
  rcases tail with _ | hash
  · exact trivial
  · exact trivial

theorem readable_spread (h : event.Readable double) : ∀ p ∈ spread event, p.2.Readable double := by
  rcases event with _ | _ | _ | _ | _ | _ | fields
  case obj => exact readableFields_iff.mp h.1
  all_goals exact fun p hp ↦ absurd hp List.not_mem_nil

theorem readable_baseEvent (h : event.Readable double) :
    ∀ p ∈ baseEvent runId timestampUtc tail event, p.2.Readable double := by
  intro p hp
  have hmem := mem_of_mem_literalFields hp
  simp only [List.mem_append, List.mem_cons, List.not_mem_nil, or_false] at hmem
  rcases hmem with ((rfl | rfl) | hspread) | rfl | rfl | rfl
  · exact trivial
  · exact trivial
  · exact readable_spread h p hspread
  · exact trivial
  · exact trivial
  · exact readable_hashValue tail

theorem readable_line (h : event.Readable double) :
    (obj (literalFields (baseEvent runId timestampUtc tail event ++
      [("event_sha256", .str hash)]))).Readable double := by
  refine readable_literal fun p hp ↦ ?_
  rcases List.mem_append.mp hp with hbase | hlast
  · exact readable_baseEvent h p hbase
  · rw [List.mem_singleton.mp hlast]
    exact trivial

/-- **The line of an event** reads back as the event, with its hash and that of the line before. -/
theorem isEventLine (h : event.Readable double)
    (hhash : sha256Hex (canonicalMutationEventHashInput (baseEvent runId timestampUtc tail event))
      = hash) :
    IsEventLine double sha256Hex tail (eventLine (baseEvent runId timestampUtc tail event) hash)
      hash := by
  have hreadable : (obj (literalFields (baseEvent runId timestampUtc tail event ++
      [("event_sha256", .str hash)]))).Readable double := readable_line h
  refine ⟨?_, literalFields (baseEvent runId timestampUtc tail event ++
    [("event_sha256", .str hash)]), ?_, ?_, ?_, ?_⟩
  · rw [eventLine, stringify, String.toList_ofList]
    exact newline_notMem_chars _ hreadable 0
  · have hparse := @JsonText.parse_of_readable double 0 _ hreadable [] (by simp)
    rwa [List.append_nil] at hparse
  · exact optional_append _ _ _
  · rw [← hhash, canonicalMutationEventHashInput, canonicalMutationEventHashInput, baseEvent,
      filter_literalFields]
  · rw [baseEvent]
    refine optional_append_of_ne _ _ _ (by decide) (mem_literalFields.mpr ?_)
    rw [List.reverse_append]
    rfl

end Lines

/-! ## Writing a line -/

section Writes

variable {writes : ℕ → WriteOutcome}

/-- **The loop of writes** writes a prefix of the line: all of it, unless a write fails. -/
theorem appendLoop_spec (turns call : ℕ) (rest : List ℕ) (hturns : rest.length ≤ turns) :
    (appendLoop writes turns call rest).1 <+: rest ∧
      ((appendLoop writes turns call rest).2 = none → (appendLoop writes turns call rest).1 = rest) ∧
      ∀ message, (appendLoop writes turns call rest).2 = some message →
        message = "Mutation journal append made no progress" ∨
          ∃ later written, writes later = .failed written message := by
  induction turns generalizing call rest with
  | zero =>
    have hnil := List.length_eq_zero_iff.mp (Nat.le_zero.mp hturns)
    subst hnil
    exact ⟨List.prefix_rfl, fun _ ↦ rfl, nofun⟩
  | succ turns ih =>
    rw [appendLoop]
    by_cases hnil : rest = []
    · rw [if_pos hnil]
      subst hnil
      exact ⟨List.prefix_rfl, fun _ ↦ rfl, nofun⟩
    · rw [if_neg hnil]
      rcases hwrite : writes call with (_ | written) | ⟨written, message⟩
      · exact ⟨List.nil_prefix, nofun, fun message h ↦ Or.inl (Option.some.inj h).symm⟩
      · obtain ⟨hwritten, hall, hmessage⟩ := ih (call + 1) (rest.drop (written + 1)) (by
          rw [List.length_drop]; omega)
        refine ⟨?_, fun h ↦ ?_, hmessage⟩
        · obtain ⟨left, hleft⟩ := hwritten
          refine ⟨left, ?_⟩
          dsimp only
          rw [List.append_assoc, hleft, List.take_append_drop]
        · dsimp only
          rw [hall h, List.take_append_drop]
      · exact ⟨List.take_prefix _ _, nofun, fun message' h ↦
          Or.inr ⟨call, written, by rw [hwrite, Option.some.inj h]⟩⟩

end Writes

end UkAqOps.ApplyJournal

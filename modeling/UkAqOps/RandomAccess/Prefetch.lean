import UkAqOps.Lib.WorkerPool
import UkAqOps.RandomAccess.Coalesce

/-!
# Blocks read ahead

The blocks of a file are read by a pool of workers, within a budget. What is wanted of the file later
is served from a block that holds it. However the reads interleave, what is served of a range that
was planned is what the file holds there.
-/

namespace UkAqOps.RandomAccess

open Gathering

abbrev Bytes := List UInt8

/-- The bytes from one offset on and before another. -/
def sliceBytes (bytes : Bytes) (start stop : ℕ) : Bytes := (bytes.drop start).take (stop - start)

/-- Part of a part. -/
theorem sliceBytes_sliceBytes (bytes : Bytes) {start stop s e : ℕ} (hs : start ≤ s) (he : e ≤ stop) :
    sliceBytes (sliceBytes bytes start stop) (s - start) (e - start) = sliceBytes bytes s e := by
  rw [sliceBytes, sliceBytes, sliceBytes, List.drop_take, List.drop_drop, List.take_take]
  congr 1
  · omega
  · congr 1
    omega

/-! ## The budget -/

structure RangeBudget where
  maxReads : ℕ
  maxBytes : ℕ
  rangeReads : ℕ
  bytesRequested : ℕ

def assertCapacity (budget : RangeBudget) (additionalReads additionalBytes : ℕ) (label : String) :
    Except String Unit := do
  let reads ← nonNegativeSafeInteger (some additionalReads) "additionalReads"
  let bytes ← nonNegativeSafeInteger (some additionalBytes) "additionalBytes"
  Except.refuseIf (budget.maxReads < budget.rangeReads + reads)
    (s!"V3 range-read count budget exceeded before {label}: " ++
      s!"{budget.rangeReads + reads} > {budget.maxReads}")
  Except.refuseIf (budget.maxBytes < budget.bytesRequested + bytes)
    (s!"V3 range-byte budget exceeded before {label}: " ++
      s!"{budget.bytesRequested + bytes} > {budget.maxBytes}")

def consume (budget : RangeBudget) (length : ℕ) (label : String) : Except String RangeBudget := do
  let bytes ← positiveSafeInteger (some length) "range length"
  assertCapacity budget 1 bytes label
  .ok { budget with
    rangeReads := budget.rangeReads + 1
    bytesRequested := budget.bytesRequested + bytes }

/-! ## The file -/

/-- A pinned object and how ranged reads of it are answered. A read may fail in any way, at any
time; what it returns is what the object holds there. -/
structure PinnedFile where
  key : String
  contents : Bytes
  readRange : ℕ → ℕ → Except String Bytes → Prop
  readRange_ok : ∀ offset length body, readRange offset length (.ok body) →
    body = sliceBytes contents offset (offset + length)

def PinnedFile.byteLength (file : PinnedFile) : ℕ := file.contents.length

/-- What `slice` does before it waits for the answer. -/
def launchSlice (file : PinnedFile) (budget : RangeBudget) (start stop : ℕ) :
    Except String RangeBudget := do
  let offset ← nonNegativeSafeInteger (some start) "range start"
  let exclusiveEnd ← nonNegativeSafeInteger (some stop) "range end"
  Except.refuseIf (exclusiveEnd ≤ offset ∨ file.byteLength < exclusiveEnd)
    ("Pinned v3 range is outside file bounds: " ++ file.key)
  Except.refuseIf (offset = 0 ∧ exclusiveEnd = file.byteLength)
    ("Whole-object Parquet read is prohibited: " ++ file.key)
  consume budget (exclusiveEnd - offset) s!"range {offset}:{exclusiveEnd} for {file.key}"

/-- What `slice` does with the answer. -/
def receiveSlice (file : PinnedFile) (length : ℕ) (answer : Except String Bytes) :
    Except String Bytes := do
  let body ← answer
  if body.length ≠ length then
    .error (s!"Pinned v3 range returned {body.length} bytes; expected {length}: " ++ file.key)
  else .ok body

/-! ## Reading the blocks -/

/-- A block with its bytes. -/
structure LoadedBlock where
  start : ℕ
  stop : ℕ
  members : List ByteRange
  buffer : Bytes

section Read

variable (file : PinnedFile) (ranges : List (Block ByteRange))

/-- A worker that takes a block starts to read it. -/
def launchBlock (budget : RangeBudget) (index : ℕ) : Except String RangeBudget :=
  match ranges[index]? with
  | none => .ok budget
  | some range => launchSlice file budget range.start range.stop

/-- The answer to the read of a block. -/
def AnswersBlock (index : ℕ) (outcome : Except String LoadedBlock) : Prop :=
  ∃ range, ranges[index]? = some range ∧ ∃ answer,
    file.readRange range.start (range.stop - range.start) answer ∧
      outcome = (receiveSlice file (range.stop - range.start) answer).map fun buffer ↦
        ⟨range.start, range.stop, range.members, buffer⟩

/-- The blocks that a call may return, and the states that its workers come to on the way. -/
structure ReadObservationHistoryV3ByteRanges (concurrency : Option ℤ) (budget : RangeBudget)
    (blocks : List LoadedBlock) : Prop where
  capacity : assertCapacity budget ranges.length
    (ranges.map fun range ↦ range.stop - range.start).sum ("planned ranges for " ++ file.key) = .ok ()
  returned : ∃ normalizedConcurrency, positiveSafeInteger concurrency "concurrency" =
    .ok normalizedConcurrency ∧
      ∃ state : WorkerPool.State (min normalizedConcurrency ranges.length) RangeBudget LoadedBlock,
        WorkerPool.Reachable ranges.length (launchBlock file ranges) (AnswersBlock file ranges) budget
          state ∧ state.Returned ∧
            blocks.map some = (List.range ranges.length).map state.results

end Read

/-! ## Serving -/

/-- `slice` of the buffer that is served from the blocks; without an end it goes to that of the
file. -/
def prefetchedSlice (file : PinnedFile) (blocks : List LoadedBlock) (start : Option ℤ)
    (stop : Option (Option ℤ)) : Except String Bytes := do
  let offset ← nonNegativeSafeInteger start "prefetched range start"
  let exclusiveEnd ← nonNegativeSafeInteger (stop.getD (some file.byteLength)) "prefetched range end"
  match blocks.find? fun candidate ↦ candidate.start ≤ offset ∧ exclusiveEnd ≤ candidate.stop with
  | none =>
    .error s!"Hyparquet requested an unplanned v3 byte range: {offset}:{exclusiveEnd}"
  | some block =>
    .ok (sliceBytes block.buffer (offset - block.start) (exclusiveEnd - block.start))

/-! ## What is served -/

section Served

variable {file : PinnedFile} {ranges : List (Block ByteRange)}

/-- A block as it is read: its bounds, and the bytes that the file holds between them. -/
def loadedBlock (file : PinnedFile) (range : Block ByteRange) : LoadedBlock :=
  ⟨range.start, range.stop, range.members, sliceBytes file.contents range.start range.stop⟩

/-- An answer is the block. -/
theorem eq_loadedBlock_of_answers {index : ℕ} {range : Block ByteRange} {block : LoadedBlock}
    (hrange : ranges[index]? = some range) (hproper : range.start ≤ range.stop)
    (h : AnswersBlock file ranges index (.ok block)) : block = loadedBlock file range := by
  obtain ⟨range', hrange', answer, hread, houtcome⟩ := h
  obtain rfl := Option.some.inj (hrange.symm.trans hrange')
  obtain ⟨body, hreceived, rfl⟩ := Except.map_eq_ok_iff.mp houtcome.symm
  obtain ⟨body', rfl, hbody⟩ := Except.bind_eq_ok_iff.mp hreceived
  split at hbody
  · cases hbody
  · rw [loadedBlock, ← Except.ok.inj hbody, file.readRange_ok _ _ _ hread,
      Nat.add_sub_cancel' hproper]

/-- **However the reads interleave, every block is returned in its place, with the bytes that the
file holds there.** -/
theorem blocks_of_read {concurrency : Option ℤ} {budget : RangeBudget} {blocks : List LoadedBlock}
    (hproper : ∀ range ∈ ranges, range.start ≤ range.stop)
    (h : ReadObservationHistoryV3ByteRanges file ranges concurrency budget blocks) :
    blocks = ranges.map (loadedBlock file) := by
  obtain ⟨workers, hworkers, state, hreachable, hreturned, hblocks⟩ := h.returned
  have hpositive := (positiveSafeInteger_eq_ok_iff.mp hworkers).2.1
  have hk : ranges.length = 0 ∨ 0 < min workers ranges.length := by omega
  refine List.map_injective_iff.mpr (Option.some_injective _) (hblocks.trans ?_)
  refine List.ext_getElem? fun index ↦ ?_
  rcases Nat.lt_or_ge index ranges.length with hlt | hge
  · obtain ⟨block, hresult, hanswer⟩ :=
      WorkerPool.answered_of_returned hreachable hreturned hk hlt
    have hrange : ranges[index]? = some ranges[index] := List.getElem?_eq_getElem hlt
    rw [List.getElem?_map, List.getElem?_range hlt, Option.map_some, hresult, List.getElem?_map,
      List.getElem?_map, hrange,
      eq_loadedBlock_of_answers hrange (hproper _ (List.getElem_mem hlt)) hanswer]
    rfl
  · rw [List.getElem?_eq_none (by simpa using hge), List.getElem?_eq_none (by simpa using hge)]

/-- A part of a block is served with the bytes that the file holds there. -/
theorem prefetchedSlice_loaded {range : Block ByteRange} (hrange : range ∈ ranges) {s e : ℕ}
    (hs : range.start ≤ s) (he : e ≤ range.stop) (hse : s ≤ e) (hsafe : (e : ℤ) ≤ maxSafeInteger) :
    prefetchedSlice file (ranges.map (loadedBlock file)) (some s) (some (some e)) =
      .ok (sliceBytes file.contents s e) := by
  have hstart : nonNegativeSafeInteger (some s) "prefetched range start" = .ok s :=
    nonNegativeSafeInteger_eq_ok_iff.mpr ⟨rfl, by omega, by omega⟩
  have hend : nonNegativeSafeInteger (some e) "prefetched range end" = .ok e :=
    nonNegativeSafeInteger_eq_ok_iff.mpr ⟨rfl, by omega, hsafe⟩
  rw [prefetchedSlice, hstart, Except.ok_bind, Option.getD_some, hend, Except.ok_bind]
  split
  · rename_i hnone
    have hmissed := List.find?_eq_none.mp hnone _ (List.mem_map_of_mem hrange)
    exact absurd (decide_eq_true ⟨hs, he⟩) hmissed
  · rename_i block hfound
    obtain ⟨range', -, rfl⟩ := List.mem_map.mp (List.mem_of_find?_eq_some hfound)
    have hholds := List.find?_some hfound
    have hbounds : range'.start ≤ s ∧ e ≤ range'.stop := of_decide_eq_true hholds
    rw [loadedBlock, sliceBytes_sliceBytes file.contents hbounds.1 hbounds.2]

/-- No call goes on for ever, and one whose reads are answered goes on until it returns or a read has
failed. -/
structure ReadEnds (file : PinnedFile) (ranges : List (Block ByteRange)) (k : ℕ)
    (budget : RangeBudget) : Prop where
  finite : WellFounded fun s' s : WorkerPool.State k RangeBudget LoadedBlock ↦
    WorkerPool.Step ranges.length (launchBlock file ranges) (AnswersBlock file ranges) s s'
  progress : (∀ offset length, ∃ answer, file.readRange offset length answer) →
    ∀ s : WorkerPool.State k RangeBudget LoadedBlock,
      WorkerPool.Reachable ranges.length (launchBlock file ranges) (AnswersBlock file ranges) budget
        s → s.Returned ∨ (∃ w, s.phase w = .failed) ∨
          ∃ s', WorkerPool.Step ranges.length (launchBlock file ranges) (AnswersBlock file ranges) s s'

theorem readEnds (file : PinnedFile) (ranges : List (Block ByteRange)) (k : ℕ)
    (budget : RangeBudget) : ReadEnds file ranges k budget := by
  refine ⟨WorkerPool.wellFounded_step, fun hanswered s hreachable ↦ ?_⟩
  by_cases hreturned : s.Returned
  · exact Or.inl hreturned
  · by_cases hfailed : ∃ w, s.phase w = .failed
    · exact Or.inr (Or.inl hfailed)
    · refine Or.inr (Or.inr (WorkerPool.exists_step hreachable (fun job hjob ↦ ?_)
        (not_exists.mp hfailed) hreturned))
      obtain ⟨answer, hanswer⟩ := hanswered ranges[job].start (ranges[job].stop - ranges[job].start)
      exact ⟨_, ranges[job], List.getElem?_eq_getElem hjob, answer, hanswer, rfl⟩

end Served

/-- A file of twelve bytes, of which every read is answered. -/
def sampleFile : PinnedFile where
  key := "leaf.parquet"
  contents := [0, 1, 2, 3, 4, 5, 6, 7, 8, 9, 10, 11]
  readRange offset length answer :=
    answer = .ok (sliceBytes [0, 1, 2, 3, 4, 5, 6, 7, 8, 9, 10, 11] offset (offset + length))
  readRange_ok _ _ _ h := Except.ok.inj h

def sampleBudget : RangeBudget := ⟨4, 64, 0, 0⟩

def sampleRanges : List RawRange := [⟨some "b", some 6, some 10⟩, ⟨some "a", some 4, some 8⟩]

def sampleBlock : Block ByteRange :=
  ⟨4, 10, [⟨"a", 4, 8, by decide⟩, ⟨"b", 6, 10, by decide⟩]⟩

theorem coalesce_sampleRanges :
    coalesceObservationHistoryV3ByteRanges sampleRanges (some 0) (some 8) = .ok [sampleBlock] := rfl

/-- The one worker takes the block, is answered and leaves. -/
theorem read_sampleBlock : ReadObservationHistoryV3ByteRanges sampleFile [sampleBlock] (some 2)
    sampleBudget [loadedBlock sampleFile sampleBlock] := by
  have hanswer : AnswersBlock sampleFile [sampleBlock] 0 (.ok (loadedBlock sampleFile sampleBlock)) :=
    ⟨sampleBlock, rfl, .ok (sliceBytes sampleFile.contents 4 10), rfl, rfl⟩
  let Step := @WorkerPool.Step 1 RangeBudget String LoadedBlock 1
    (launchBlock sampleFile [sampleBlock]) (AnswersBlock sampleFile [sampleBlock])
  obtain ⟨taken, htake, hbusy, htaken⟩ : ∃ s, Step (.initial 1 LoadedBlock sampleBudget) s ∧
      s.phase 0 = .busy 0 ∧ s.cursor = 1 :=
    ⟨_, .take 0 _ rfl (by decide) rfl, rfl, rfl⟩
  obtain ⟨finished, hfinish, hidle, hfinished, hresult⟩ : ∃ s, Step taken s ∧ s.phase 0 = .idle ∧
      s.cursor = 1 ∧ s.results 0 = some (loadedBlock sampleFile sampleBlock) :=
    ⟨_, .finish 0 0 _ hbusy hanswer, taken.phase_set_self 0 _, htaken, rfl⟩
  obtain ⟨left, hleave, hleft, hblock⟩ : ∃ s, Step finished s ∧ s.phase 0 = .left ∧
      s.results 0 = some (loadedBlock sampleFile sampleBlock) :=
    ⟨_, .leave 0 hidle hfinished.ge, finished.phase_set_self 0 _, hresult⟩
  refine ⟨rfl, 2, rfl, left, ((Relation.ReflTransGen.single htake).tail hfinish).tail hleave,
    (fun w : Fin 1 ↦ ?_), ?_⟩
  · rw [Subsingleton.elim w 0]
    exact hleft
  · show [some _] = [left.results 0]
    rw [hblock]

end UkAqOps.RandomAccess

import UkAqOps.StationHistory.ObservationChunks
import UkAqOps.StationHistory.GapAgreement

/-!
# Complete chunks are canonical

A chunk that calls itself complete is calculated from complete reads of all segments of its range and
the hours before it. Then there is nothing to recover, so it is the chunk that is calculated without
the ingest database.
-/

namespace UkAqOps.StationHistory

open Aqi Sorting

variable {ν : Type} [Numeric ν] [DecidableEq ν]

/-! ## Reads -/

section Reads

variable {mode : ReadMode} {reader : Reader ν} {outcomes : Outcomes ν} {segments : List Segment}
variable {call : HistoryCall} {host : Host} {ingest : Ingest ν}

/-- A read that is complete, without a gap and without a reason to doubt it. -/
structure ReadResult.IsWhole (result : ReadResult ν) : Prop where
  complete : result.responseComplete = true
  gap : result.hasGap = false
  reasons : result.partialReasons = []

omit [Numeric ν] [DecidableEq ν] in
theorem ReadResult.IsWhole.not_ranOut {result : ReadResult ν} (h : result.IsWhole) :
    ¬result.RanOut := by
  rintro ⟨reason, hmem, -⟩
  rw [h.reasons] at hmem
  exact List.not_mem_nil hmem

omit [Numeric ν] [DecidableEq ν] in
/-- As many reads as segments are the reads of all segments. -/
theorem readSegments_eq_map
    (h : (readSegments mode reader segments).length = segments.length) :
    readSegments mode reader segments = segments.map fun segment ↦
      (segment, reader segment.identity segment.startMs segment.endMs) := by
  induction segments with
  | nil => rfl
  | cons segment rest ih =>
    rw [readSegments] at h ⊢
    split at h
    · rename_i hbudget
      rw [if_pos hbudget]
      have hrest : rest = [] := by
        rw [List.length_singleton, List.length_cons] at h
        exact List.eq_nil_of_length_eq_zero (by omega)
      rw [hrest]
      rfl
    · rename_i hbudget
      rw [if_neg hbudget, ih (Nat.succ.inj h), List.map_cons]

omit [Numeric ν] [DecidableEq ν] in
/-- If the reads that were made are whole, none has failed. -/
theorem exists_outcome_of_checkReads (hcheck : checkReads mode outcomes segments = .ok ())
    (hwhole : ∀ segment ∈ segments,
      (outcomes.reader segment.identity segment.startMs segment.endMs).IsWhole) :
    ∀ segment ∈ segments, ∃ result,
      outcomes segment.identity segment.startMs segment.endMs = .ok result ∧ result.IsWhole := by
  induction segments with
  | nil => exact fun segment hmem ↦ absurd hmem List.not_mem_nil
  | cons first rest ih =>
    rw [checkReads] at hcheck
    obtain ⟨result, hresult, hcheck⟩ := Except.bind_eq_ok_iff.mp hcheck
    have hfirst := hwhole first List.mem_cons_self
    rw [Outcomes.reader, hresult] at hfirst
    rw [hfirst.reasons, List.any_nil, if_neg (fun h ↦ Bool.false_ne_true h.2)] at hcheck
    intro segment hmem
    rcases List.mem_cons.mp hmem with rfl | hmem
    · exact ⟨result, hresult, hfirst⟩
    · exact ih hcheck (fun segment hmem ↦ hwhole segment (List.mem_cons_of_mem _ hmem)) segment hmem

/-- What a history that is built says of its rows and its reads. -/
theorem spec_of_build {history : CalculatedHistory ν}
    (hbuild : buildCalculatedHistory host mode reader ingest call = .ok history) :
    (∃ rows, mergePhysicalObservations host
        ((readSegments mode reader call.selection.segments).flatMap fun entry ↦ entry.2.rows)
        (ingest.rows ++ (ingest.recover (readSegments mode reader call.selection.segments)).1)
        call.selection.segments (requiredStartMs call) (call.outputEndMs + 1) = .ok rows ∧
      history.observations.rows ⊆ rows) ∧
    (history.observations.responseComplete = true ∨ history.aqi.responseComplete = true →
      (readSegments mode reader call.selection.segments).length = call.selection.segments.length ∧
      ∀ entry ∈ readSegments mode reader call.selection.segments, entry.2.IsWhole) := by
  rw [buildCalculatedHistory] at hbuild
  obtain ⟨_, -, hbuild⟩ := Except.bind_eq_ok_iff.mp hbuild
  obtain ⟨rows, hrows, hbuild⟩ := Except.bind_eq_ok_iff.mp hbuild
  have hwhole : ((readSegments mode reader call.selection.segments).all fun entry ↦
      entry.2.responseComplete && !entry.2.hasGap && entry.2.partialReasons = []) = true →
      ∀ entry ∈ readSegments mode reader call.selection.segments, entry.2.IsWhole := by
    intro hall entry hmem
    have hentry := List.all_eq_true.mp hall entry hmem
    simp only [Bool.and_eq_true, Bool.not_eq_true', decide_eq_true_eq] at hentry
    exact ⟨hentry.1.1, hentry.1.2, hentry.2⟩
  rcases Bool.eq_false_or_eq_true call.request.includeAqi with haqi | haqi
  · rw [if_pos haqi] at hbuild
    obtain ⟨aqi, -, hbuild⟩ := Except.bind_eq_ok_iff.mp hbuild
    obtain ⟨t, -, hbuild⟩ := Except.bind_eq_ok_iff.mp hbuild
    rw [← Except.pure_eq_ok_iff.mp hbuild]
    refine ⟨⟨rows, hrows, fun row hrow ↦ ?_⟩, fun hcomplete ↦ ?_⟩
    · dsimp only at hrow
      split at hrow
      · exact List.mem_of_mem_filter hrow
      · exact absurd hrow List.not_mem_nil
    · simp only [Bool.and_eq_true] at hcomplete
      rcases hcomplete with h | h
      · exact ⟨of_decide_eq_true h.1.2.1.2.1, hwhole h.1.2.1.2.2⟩
      · exact ⟨of_decide_eq_true h.1.1.1.2.1.2.1, hwhole h.1.1.1.2.1.2.2⟩
  · rw [if_neg (by rw [haqi]; exact Bool.false_ne_true)] at hbuild
    obtain ⟨aqi, -, hbuild⟩ := Except.bind_eq_ok_iff.mp hbuild
    obtain ⟨t, -, hbuild⟩ := Except.bind_eq_ok_iff.mp hbuild
    rw [← Except.pure_eq_ok_iff.mp hbuild]
    refine ⟨⟨rows, hrows, fun row hrow ↦ ?_⟩, fun hcomplete ↦ ?_⟩
    · dsimp only at hrow
      split at hrow
      · exact List.mem_of_mem_filter hrow
      · exact absurd hrow List.not_mem_nil
    · simp only [Bool.and_eq_true, haqi] at hcomplete
      rcases hcomplete with h | h
      · exact ⟨of_decide_eq_true h.1.2.1.2.1, hwhole h.1.2.1.2.2⟩
      · exact absurd h.1.1.1.1 Bool.false_ne_true

omit [Numeric ν] [DecidableEq ν] in
/-- **Nothing is recovered for whole reads.** -/
theorem recovery_of_whole (service : IngestService ν) (nowMs : ℤ)
    {reads : List (Segment × ReadResult ν)} (hwhole : ∀ entry ∈ reads, entry.2.IsWhole) :
    readHistoricalIngestRecovery service nowMs reads = .empty := by
  have hpending : pendingReads nowMs reads = [] := by
    have hnone : (reads.filter fun entry ↦ unpublishedScopeOnly entry.2) = [] := by
      rw [List.filter_eq_nil_iff]
      intro entry hmem
      rw [unpublishedScopeOnly, (hwhole entry hmem).complete]
      exact Bool.false_ne_true
    rw [pendingReads, hnone]
    rfl
  rw [readHistoricalIngestRecovery, hpending]
  split
  · rfl
  · rfl

/-- Only what is recovered for its own reads counts in a build. -/
theorem buildCalculatedHistory_congr {ingest' : Ingest ν} (hrows : ingest.rows = ingest'.rows)
    (hcount : ingest.fetchCount = ingest'.fetchCount) (hcomplete : ingest.complete = ingest'.complete)
    (hrecover : ingest.recover (readSegments mode reader call.selection.segments)
      = ingest'.recover (readSegments mode reader call.selection.segments)) :
    buildCalculatedHistory host mode reader ingest call
      = buildCalculatedHistory host mode reader ingest' call := by
  simp only [buildCalculatedHistory, hrows, hcount, hcomplete, hrecover]

end Reads

/-! ## Rows -/

section Rows

variable {host : Host} {segments : List Segment} {startMs endExclusiveMs : ℤ}

theorem mem_of_mem_prepare {source prepared : List (ObservationRow ν)}
    (h : prepare segments startMs endExclusiveMs source = .ok prepared) {row : ObservationRow ν}
    (hrow : row ∈ prepared) : row ∈ source := by
  rw [prepare, Except.map_eq_ok_iff] at h
  obtain ⟨state, hfold, rfl⟩ := h
  have hkept : ∀ row ∈ state.2, row ∈ source := by
    refine @Except.foldlM_invariant _ _ _ _ _ _ _ (fun done state ↦ ∀ row ∈ state.2, row ∈ done)
      hfold (fun row hmem ↦ absurd hmem List.not_mem_nil) ?_
    intro done first rest state state' _ hstate hstep row hmem
    rw [prepareStep] at hstep
    have hcases : state' = state ∨ state'.2 = state.2 ++ [first] := by
      split at hstep
      · exact Or.inl (Except.ok.inj hstep).symm
      · split at hstep
        · exact Or.inl (Except.ok.inj hstep).symm
        · obtain ⟨_, -, hstep⟩ := Except.bind_eq_ok_iff.mp hstep
          obtain ⟨_, -, hstep⟩ := Except.bind_eq_ok_iff.mp hstep
          rw [← Except.pure_eq_ok_iff.mp hstep]
          exact Or.inr rfl
    rcases hcases with rfl | hnext
    · exact List.mem_append_left _ (hstate row hmem)
    · rw [hnext] at hmem
      rcases List.mem_append.mp hmem with hmem | hmem
      · exact List.mem_append_left _ (hstate row hmem)
      · exact List.mem_append_right _ hmem
  exact hkept row hrow

/-- The merged rows are rows of the two sources. -/
theorem mem_of_mem_merge {r2Rows ingestRows merged : List (ObservationRow ν)}
    (h : mergePhysicalObservations host r2Rows ingestRows segments startMs endExclusiveMs
      = .ok merged) {row : ObservationRow ν} (hrow : row ∈ merged) :
    row ∈ r2Rows ∨ row ∈ ingestRows := by
  obtain ⟨r2, hr2, h⟩ := Except.bind_eq_ok_iff.mp h
  obtain ⟨ingest, hingest, h⟩ := Except.bind_eq_ok_iff.mp h
  obtain ⟨_, -, h⟩ := Except.bind_eq_ok_iff.mp h
  rw [← Except.pure_eq_ok_iff.mp h, mem_sortBy, mergeObservationRowsPreferR2, mem_sortBy,
    OrderedMap.mem_values_collect] at hrow
  obtain ⟨key, hkey⟩ := hrow
  rw [foldl_some_eq_getLast?] at hkey
  rcases List.mem_append.mp (List.mem_filter.mp (List.mem_of_getLast? hkey)).1 with hmem | hmem
  · exact Or.inr (mem_of_mem_prepare hingest hmem)
  · exact Or.inl (mem_of_mem_prepare hr2 hmem)

end Rows

/-! ## Chunks -/

section Chunks

variable {host : WebHost} {policy : Policy} {mode : ReadMode} {outcomes : Outcomes ν}
variable {service : IngestService ν} {recoveryMs nowMs : ℤ} {binding : Binding}
variable {searchParams : SearchParams} {chunk : HistoryChunk ν}

/-- What an answered chunk is made of. -/
theorem spec_of_answerChunk {ingest : Ingest ν}
    (h : answerChunk host policy mode outcomes ingest nowMs binding searchParams = .ok chunk) :
    ∃ parsed bound combined visible,
      parseHistoryChunkRequest host policy searchParams = .ok parsed ∧
      validateTimeseriesBinding host binding
        ⟨some parsed.timeseriesId, some parsed.connectorId, some parsed.pollutant⟩ = .ok bound ∧
      buildFromOutcomes host.toHost mode outcomes ingest (historyCall policy bound
        parsed.includeObservations parsed.includeAqi parsed.startMs parsed.endMs) = .ok combined ∧
      visibleRows host.toHost mode outcomes.reader ingest (historyCall policy bound
        parsed.includeObservations parsed.includeAqi parsed.startMs parsed.endMs) = .ok visible ∧
      chunk = historyChunk policy parsed nowMs combined
        (visible.countP fun row ↦ row.source = "ingest") := by
  obtain ⟨parsed, hparsed, h⟩ := Except.bind_eq_ok_iff.mp h
  obtain ⟨bound, hbound, h⟩ := Except.bind_eq_ok_iff.mp h
  obtain ⟨combined, hcombined, h⟩ := Except.bind_eq_ok_iff.mp h
  obtain ⟨visible, hvisible, h⟩ := Except.bind_eq_ok_iff.mp h
  exact ⟨parsed, bound, combined, visible, hparsed, hbound, Except.mapError_eq_ok_iff.mp hcombined,
    Except.mapError_eq_ok_iff.mp hvisible, (Except.pure_eq_ok_iff.mp h).symm⟩

/-- A request that is accepted asks for one of the parts. -/
theorem includes_of_parse {parsed : ChunkRequest}
    (h : parseHistoryChunkRequest host policy searchParams = .ok parsed) :
    parsed.includeObservations = true ∨ parsed.includeAqi = true := by
  simp only [parseHistoryChunkRequest] at h
  split at h
  · split at h
    · split at h
      · split at h
        · split at h
          · split at h
            · split at h
              · split at h
                · obtain ⟨_, hparts, h⟩ := Except.bind_eq_ok_iff.mp h
                  obtain ⟨_, -, h⟩ := Except.bind_eq_ok_iff.mp h
                  obtain ⟨_, -, h⟩ := Except.bind_eq_ok_iff.mp h
                  obtain ⟨_, -, h⟩ := Except.bind_eq_ok_iff.mp h
                  rw [← Except.pure_eq_ok_iff.mp h]
                  have hboth := Except.refuseIf_eq_ok_iff.mp hparts
                  rw [not_and_or, Bool.not_eq_false, Bool.not_eq_false] at hboth
                  exact hboth
                · rcases h with ⟨⟩
              · rcases h with ⟨⟩
            · rcases h with ⟨⟩
          · rcases h with ⟨⟩
        · rcases h with ⟨⟩
      · rcases h with ⟨⟩
    · rcases h with ⟨⟩
  · rcases h with ⟨⟩

/-- **A chunk that calls itself complete is canonical.** Every segment of its range and the hours
before it was read whole, nothing was recovered, and the chunk is the one that the same reads give
without the ingest database. -/
theorem canonical_of_complete
    (h : handleObservationHistoryChunk host policy mode outcomes service recoveryMs nowMs binding
      searchParams = .ok chunk) (hcomplete : chunk.responseComplete = true) :
    ∃ call, chunkCall host policy binding searchParams = .ok call ∧
      (∀ segment ∈ call.selection.segments, ∃ result,
        outcomes segment.identity segment.startMs segment.endMs = .ok result ∧ result.IsWhole ∧
          ¬result.RanOut) ∧
      readHistoricalIngestRecovery service recoveryMs
        (readSegments mode outcomes.reader call.selection.segments) = .empty ∧
      (∀ row ∈ chunk.rows, ∃ segment ∈ call.selection.segments, ∃ result,
        outcomes segment.identity segment.startMs segment.endMs = .ok result ∧ row ∈ result.rows) ∧
      buildFromOutcomes host.toHost mode outcomes {} call = .ok chunk.combined ∧
      answerChunk host policy mode outcomes {} nowMs binding searchParams = .ok chunk ∧
      chunk.cacheControl ≠ "no-store" := by
  obtain ⟨parsed, bound, combined, visible, hparsed, hbound, hcombined, hvisible, rfl⟩ :=
    spec_of_answerChunk h
  generalize hcall : historyCall policy bound parsed.includeObservations parsed.includeAqi
    parsed.startMs parsed.endMs = call at hcombined hvisible
  have hcomplete' := hcomplete
  simp only [historyChunk, Bool.and_eq_true, Bool.or_eq_true, Bool.not_eq_true'] at hcomplete'
  have hpart : combined.observations.responseComplete = true ∨
      combined.aqi.responseComplete = true := by
    rcases includes_of_parse hparsed with hincluded | hincluded
    · exact Or.inl (hcomplete'.1.2.resolve_left (by rw [hincluded]; exact Bool.noConfusion))
    · exact Or.inr (hcomplete'.2.resolve_left (by rw [hincluded]; exact Bool.noConfusion))
  obtain ⟨_, hsegments, hcombined⟩ := Except.bind_eq_ok_iff.mp hcombined
  obtain ⟨_, hcheck, hbuild⟩ := Except.bind_eq_ok_iff.mp hcombined
  obtain ⟨⟨rows, hrows, hsubset⟩, hsource⟩ := spec_of_build hbuild
  obtain ⟨hlength, hwhole⟩ := hsource hpart
  have hreads := readSegments_eq_map hlength
  have houtcomes := exists_outcome_of_checkReads hcheck fun segment hmem ↦
    hwhole (segment, outcomes.reader segment.identity segment.startMs segment.endMs)
      (by rw [hreads]; exact List.mem_map_of_mem hmem)
  have hrecovery := recovery_of_whole service recoveryMs hwhole
  have hrecover : (recoveryIngest service recoveryMs).recover
      (readSegments mode outcomes.reader call.selection.segments) = ([], true) := by
    rw [recoveryIngest]
    simp only [hrecovery, IngestAnswer.empty]
  have hcongr : buildCalculatedHistory host.toHost mode outcomes.reader
      (recoveryIngest service recoveryMs) call
        = buildCalculatedHistory host.toHost mode outcomes.reader {} call :=
    buildCalculatedHistory_congr rfl rfl rfl hrecover
  have hsame : buildCalculatedHistory host.toHost mode outcomes.reader {} call = .ok combined :=
    hcongr.symm.trans hbuild
  have hsameFromOutcomes : buildFromOutcomes host.toHost mode outcomes {} call = .ok combined :=
    Except.bind_eq_ok_iff.mpr ⟨_, hsegments, Except.bind_eq_ok_iff.mpr ⟨_, hcheck, hsame⟩⟩
  have hsameVisible : visibleRows host.toHost mode outcomes.reader {} call = .ok visible := by
    rw [← hvisible, visibleRows, visibleRows, hrecover]
    rfl
  refine ⟨call, ?_, fun segment hmem ↦ ?_, hrecovery, fun row hrow ↦ ?_, hsameFromOutcomes, ?_, ?_⟩
  · rw [← hcall]
    exact Except.bind_eq_ok_iff.mpr ⟨parsed, hparsed, Except.bind_eq_ok_iff.mpr ⟨bound, hbound, rfl⟩⟩
  · obtain ⟨result, hresult, hiswhole⟩ := houtcomes segment hmem
    exact ⟨result, hresult, hiswhole, hiswhole.not_ranOut⟩
  · have hmem : row ∈ rows := by
      simp only [historyChunk] at hrow
      split at hrow
      · exact hsubset hrow
      · exact absurd hrow List.not_mem_nil
    rcases mem_of_mem_merge hrows hmem with hmem | hmem
    · rw [hreads] at hmem
      obtain ⟨entry, hentry, hmem⟩ := List.mem_flatMap.mp hmem
      obtain ⟨segment, hsegment, rfl⟩ := List.mem_map.mp hentry
      obtain ⟨result, hresult, -⟩ := houtcomes segment hsegment
      refine ⟨segment, hsegment, result, hresult, ?_⟩
      simpa only [Outcomes.reader, hresult] using hmem
    · rw [hrecover] at hmem
      exact absurd hmem List.not_mem_nil
  · refine Except.bind_eq_ok_iff.mpr ⟨parsed, hparsed, Except.bind_eq_ok_iff.mpr ⟨bound, hbound, ?_⟩⟩
    rw [hcall]
    exact Except.bind_eq_ok_iff.mpr ⟨combined, Except.mapError_eq_ok_iff.mpr hsameFromOutcomes,
      Except.bind_eq_ok_iff.mpr ⟨visible, Except.mapError_eq_ok_iff.mpr hsameVisible, rfl⟩⟩
  · rw [HistoryChunk.cacheControl, if_pos hcomplete]
    split
    · decide
    · decide

end Chunks

/-! ## A published day -/

/-- A chunk of 2024-01-01 up to 02:00. -/
def no2ChunkParams : SearchParams := fun name ↦
  if name = "connector_id" then some "1"
  else if name = "stable_head_start_utc" then some "2024-01-02T00:00:00.000Z"
  else seriesParams "2024-01-01T00:00:00.000Z" name

/-- Reads that find everything published. -/
def no2Outcomes : Outcomes ℚ := fun identity startMs endMs ↦
  .ok { rows := no2Rows identity startMs endMs }

theorem canonical_of_published : ∃ chunk call,
    handleObservationHistoryChunk isoWebHost openPolicy .pages no2Outcomes (fun _ _ _ ↦ none)
      1706745600000 1706745600000 no2Binding no2ChunkParams = .ok chunk ∧
    chunk.responseComplete = true ∧ chunk.cacheClass = .immutable ∧ chunk.rowCount = 2 ∧
    chunkCall isoWebHost openPolicy no2Binding no2ChunkParams = .ok call ∧
    buildFromOutcomes isoWebHost.toHost .pages no2Outcomes {} call = .ok chunk.combined ∧
    chunk.cacheControl ≠ "no-store" := by
  have hanswer : (handleObservationHistoryChunk isoWebHost openPolicy .pages no2Outcomes
      (fun _ _ _ ↦ none) 1706745600000 1706745600000 no2Binding no2ChunkParams).map
        (fun chunk ↦ (chunk.responseComplete, chunk.cacheClass, chunk.rowCount))
      = .ok (true, .immutable, 2) := by
    decide +kernel
  rcases hchunk : handleObservationHistoryChunk isoWebHost openPolicy .pages no2Outcomes
      (fun _ _ _ ↦ none) 1706745600000 1706745600000 no2Binding no2ChunkParams with error | chunk
  · rw [hchunk] at hanswer
    exact nomatch hanswer
  · rw [hchunk, Except.map, Except.ok.injEq, Prod.mk.injEq, Prod.mk.injEq] at hanswer
    obtain ⟨hcomplete, hclass, hcount⟩ := hanswer
    obtain ⟨call, hcall, -, -, -, hbuild, -, hcontrol⟩ := canonical_of_complete hchunk hcomplete
    exact ⟨chunk, call, rfl, hcomplete, hclass, hcount, hcall, hbuild, hcontrol⟩

end UkAqOps.StationHistory

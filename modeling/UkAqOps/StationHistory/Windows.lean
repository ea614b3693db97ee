import UkAqOps.StationHistory.Rows

/-!
# Two windows on one hour

A build reads nothing before the start of its output less the context of its pollutant. When the
start is not on the hour, the first hour of the output is the end of an hour, or of 24 hours, whose
earliest part is not read. Every other hour of the output has the row that all observations give it,
as long as each hour of the output has a member.
-/

namespace UkAqOps.StationHistory

open Aqi Sorting

section Call

variable (call : HistoryCall) (hour : ℤ)

/-- An hour of the output. -/
def Visible : Prop :=
  hour % hourMs = 0 ∧ call.outputStartMs < hour ∧ hour ≤ call.outputEndMs

/-- Every hour of the output has a member that is valid at it. -/
def Covered : Prop := ∀ hour, Visible call hour → (call.continuity.memberOn hour).isSome

/-- The first of the hours whose means the row of an hour reads. -/
def firstHour : ℤ :=
  hour - contextHoursOf call.request.includeAqi call.request.pollutant * hourMs

/-- The logical series as far as the build reads it. -/
def readSeries (store : Store) : ℤ → Option ℚ :=
  cutSeries (logicalSeries call.continuity store) (requiredStartMs call) (call.outputEndMs + 1)

/-- What is not read of the first hour does not matter: there is no observation in it, or, for a
particulate, the mean of the hour is the same without it. -/
def Uncut (store : Store) : Prop :=
  (∀ t, firstHour call hour - hourMs < t → t < requiredStartMs call →
    logicalSeries call.continuity store t = none) ∨
  call.request.pollutant ≠ .no2 ∧ hourMean (readSeries call store) (firstHour call hour)
    = hourMean (logicalSeries call.continuity store) (firstHour call hour)

/-- The range that is read has years of four digits. -/
def PlainCall : Prop :=
  PlainYear (requiredStartMs call / dayMs) ∧ PlainYear (call.outputEndMs / dayMs)

end Call

/-- The row that all observations give an hour: those of the member that is valid when they are
made, in the 24 hours up to it. -/
noncomputable def referenceRow (host : Host) (continuity : Continuity) (store : Store) (hour : ℤ) :
    Option (CalculatedRow ℚ) :=
  (continuity.memberOn hour).map fun member ↦
    rowOf host (logicalSeries continuity store) member hour

/-- The build answers the call, and its only row for the hour is this one. -/
def Returns {continuity : Continuity} {store : Store} (host : Host)
    (source : CompleteSource continuity store) (call : HistoryCall) (hour : ℤ)
    (row : CalculatedRow ℚ) : Prop :=
  ∃ history, buildCalculatedHistory host source.mode source.reader source.ingest call
      = .ok history ∧
    history.aqi.rows.filter (fun row ↦ row.row.timestampHourUtc = hour) = [row]

/-! ## The rows that a build reads -/

section Reading

variable {call : HistoryCall} {store : Store} {host : Host} {hour : ℤ}

/-- A build has rows for hours of the range that it reads only. -/
theorem bounds_of_hasRow (h : HasRow (readSeries call store) call hour) :
    requiredStartMs call ≤ hour ∧ hour ≤ call.outputEndMs := by
  obtain ⟨-, hend, hrow⟩ := h
  refine ⟨?_, hend⟩
  rcases hrow with hcount | hvisible
  · obtain ⟨t, ht⟩ := Finset.card_pos.mp (Nat.pos_of_ne_zero hcount)
    obtain ⟨⟨-, hle⟩, hsome⟩ := mem_hourInstants.mp ht
    obtain ⟨value, hvalue⟩ := Option.isSome_iff_exists.mp hsome
    have hread := (cutSeries_eq_some_iff.mp hvalue).1.1
    omega
  · have hcontext : 0 ≤ contextHoursOf call.request.includeAqi call.request.pollutant := by
      rw [contextHoursOf]
      split <;> omega
    rw [requiredStartMs]
    simp only [hourMs, minuteMs]
    omega

theorem plainHours_of_plainCall (h : PlainCall call) : PlainHours (readSeries call store) call := by
  intro hour hrow
  have hday : (0 : ℤ) < dayMs := by decide
  obtain ⟨hstart, hend⟩ := bounds_of_hasRow hrow
  exact h.1.between h.2 (Int.ediv_le_ediv hday hstart) (Int.ediv_le_ediv hday hend)

theorem reads_spec {continuity : Continuity} (source : CompleteSource continuity store)
    (hcontinuity : call.continuity = continuity) (hvalid : continuity.Valid) :
    ∃ rows, mergePhysicalObservations host
        ((readSegments source.mode source.reader call.selection.segments).flatMap
          fun entry ↦ entry.2.rows)
        (source.ingest.rows ++ (source.ingest.recover
          (readSegments source.mode source.reader call.selection.segments)).1)
        call.selection.segments (requiredStartMs call) (call.outputEndMs + 1) = .ok rows ∧
      HoldsSeries (readSeries call store) rows := by
  subst hcontinuity
  refine mergePhysicalObservations_spec hvalid ?_ ?_ ?_
  · intro row hrow
    obtain ⟨entry, hentry, hrow⟩ := List.mem_flatMap.mp hrow
    obtain ⟨hsegment, hresult⟩ := mem_of_mem_readSegments hentry
    rw [hresult] at hrow
    obtain ⟨hstart, hend, hid, hstation, hconnector, hpollutant, hstored⟩ :=
      source.sound _ _ _ row hrow
    rw [HistoryCall.selection, segments_eq hvalid] at hsegment
    obtain ⟨member, hmember, heq⟩ := List.mem_filterMap.mp hsegment
    obtain ⟨hsame, -⟩ := Member.segment_eq_some_iff.mp heq
    refine ⟨⟨member, (memberOn_eq_some_iff hvalid).mpr
      ⟨hmember, ((mem_segment_iff heq).mp ⟨hstart, hend⟩).2⟩, ?_⟩, by rw [hid]; exact hstored⟩
    rw [hid, hstation, hconnector, hpollutant, ← hsame]
    exact ⟨rfl, rfl, rfl, rfl⟩
  · intro row hrow
    rcases List.mem_append.mp hrow with h | h
    · exact source.ingested row h
    · exact source.recovered _ row h
  · intro t value hstart hend hvalue
    obtain ⟨hpos, member, hmember, hstored⟩ := logicalSeries_eq_some_iff.mp hvalue
    obtain ⟨hmem, hcovers⟩ := (memberOn_eq_some_iff hvalid).mp hmember
    obtain ⟨segment, hsegment⟩ := exists_segment hcovers hstart hend
    obtain ⟨hsame, -⟩ := Member.segment_eq_some_iff.mp hsegment
    obtain ⟨hs, he⟩ := (mem_segment_iff hsegment).mpr ⟨⟨hstart, hend⟩, hcovers⟩
    rw [← hsame] at hstored
    obtain ⟨row, hrow, hrowSpec⟩ := source.complete segment.identity segment.startMs segment.endMs t
      value hs he hstored hpos
    refine ⟨row, List.mem_flatMap.mpr ⟨(segment, source.reader segment.identity segment.startMs
      segment.endMs), ?_, hrow⟩, hrowSpec⟩
    rw [readSegments_eq source.whole, List.mem_map]
    refine ⟨segment, ?_, rfl⟩
    rw [HistoryCall.selection, segments_eq hvalid]
    exact List.mem_filterMap.mpr ⟨member, hmem, hsegment⟩

theorem checkedTime_eq {ms : ℤ} (h : PlainYear (ms / dayMs) ∨ PlainYear ((ms - hourMs) / dayMs)) :
    checkedTime ms = .ok ms := by
  have hrange : ¬(ms < -8640000000000000 ∨ 8640000000000000 < ms) := by
    rcases h with h | h
    all_goals
      have hbounds := h.bounds
      simp only [dayMs, hourMs, minuteMs] at hbounds
      omega
  exact Except.bind_eq_ok_iff.mpr ⟨(), Except.refuseIf_eq_ok_iff.mpr hrange, rfl⟩

end Reading

/-! ## The answer of a build -/

section Answer

variable {call : HistoryCall} {store : Store} {host : Host} {hour : ℤ}
variable {rows : List (ObservationRow ℚ)}

/-- What the request of a call is, by its binding. -/
structure CallSpec (call : HistoryCall) : Prop where
  valid : call.continuity.Valid
  timeseriesId : 0 < call.request.timeseriesId
  stationId : 0 < call.request.stationId
  connectorId : 0 < call.request.connectorId
  pollutant : call.request.pollutant = call.continuity.pollutant

theorem requiredStartMs_le (call : HistoryCall) : requiredStartMs call ≤ call.outputStartMs := by
  rw [requiredStartMs, contextHoursOf]
  split
  all_goals
    simp only [hourMs, minuteMs]
    omega

theorem memberAt_of_visible (hspec : CallSpec call) (hvisible : Visible call hour) :
    (memberAt hour call.selection.segments).map Segment.toMember
      = call.continuity.memberOn hour := by
  have hstart := requiredStartMs_le call
  obtain ⟨-, hlower, hupper⟩ := hvisible
  exact memberAt_selectContinuitySegments hspec.valid (by omega) (by omega)

theorem identifyRow_ok_iff (hspec : CallSpec call) {row : AqiRow ℚ}
    (hvisible : Visible call row.timestampHourUtc) {out : CalculatedRow ℚ} :
    identifyRow call.selection.segments row = .ok out ↔
      ∃ member, call.continuity.memberOn row.timestampHourUtc = some member ∧
        calculatedRow row member = out := by
  rw [← memberAt_of_visible hspec hvisible, identifyRow]
  rcases memberAt row.timestampHourUtc call.selection.segments with _ | segment
  · simp
  · simp

variable (hspec : CallSpec call) (h : HoldsSeries (readSeries call store) rows)
variable (hplain : PlainCall call)
include hspec h hplain

omit hspec in
/-- The published rows of the output. -/
theorem mem_windowRows {row : AqiRow ℚ} (hrow : row ∈ (aqiRows host call rows).filter fun row ↦
    call.outputStartMs < row.timestampHourUtc && row.timestampHourUtc ≤ call.outputEndMs) :
    Visible call row.timestampHourUtc := by
  obtain ⟨hmem, hwindow⟩ := List.mem_filter.mp hrow
  simp only [Bool.and_eq_true, decide_eq_true_iff] at hwindow
  obtain ⟨r, hr, hpublished⟩ := mem_helperRowsToNormalizedAqiV1Rows.mp hmem
  obtain ⟨-, haligned, -⟩ := mem_pivot_spec h (plainHours_of_plainCall hplain) hr
  refine ⟨?_, hwindow⟩
  rw [(hpublished.key haligned).2]
  exact haligned

/-- The rows of the output that fall on one of its hours. -/
theorem filter_windowRows (hvisible : Visible call hour) :
    ((aqiRows host call rows).filter fun row ↦ call.outputStartMs < row.timestampHourUtc &&
        row.timestampHourUtc ≤ call.outputEndMs).filter (fun row ↦ row.timestampHourUtc = hour)
      = [helperRowToNormalizedAqiV1Row host none
          (meansRow (readSeries call store) call.request.identity hour)] := by
  obtain ⟨haligned, hstart, hend⟩ := hvisible
  rw [List.filter_filter, ← filter_aqiRows h (plainHours_of_plainCall hplain) hspec.timeseriesId
    hspec.stationId hspec.connectorId haligned hstart hend]
  refine List.filter_congr fun row _ ↦ ?_
  by_cases hhour : row.timestampHourUtc = hour
  · simp [hhour, hstart, hend]
  · simp [hhour]

/-- The rows are identified when every hour of the output has a member. -/
theorem exists_identified_iff : (∃ out, ((aqiRows host call rows).filter fun row ↦
      call.outputStartMs < row.timestampHourUtc && row.timestampHourUtc ≤ call.outputEndMs).mapM
        (identifyRow call.selection.segments) = .ok out) ↔ Covered call := by
  rw [Except.exists_mapM_eq_ok_iff]
  constructor
  · intro hall hour hvisible
    have hmem := List.mem_of_mem_filter (l := (aqiRows host call rows).filter fun row ↦
      call.outputStartMs < row.timestampHourUtc && row.timestampHourUtc ≤ call.outputEndMs)
      (p := fun row ↦ row.timestampHourUtc = hour) (by
        rw [filter_windowRows hspec h hplain hvisible]
        exact List.mem_singleton_self _)
    obtain ⟨out, hout⟩ := hall _ hmem
    obtain ⟨member, hmember, -⟩ :=
      (identifyRow_ok_iff hspec (mem_windowRows h hplain hmem)).mp hout
    rw [show (helperRowToNormalizedAqiV1Row host none (meansRow (readSeries call store)
      call.request.identity hour)).timestampHourUtc = hour from hourOf_of_emod hvisible.1] at hmember
    rw [hmember]
    rfl
  · intro hcovered row hrow
    have hvisible := mem_windowRows h hplain hrow
    obtain ⟨member, hmember⟩ := Option.isSome_iff_exists.mp (hcovered _ hvisible)
    exact ⟨_, (identifyRow_ok_iff hspec hvisible).mpr ⟨member, hmember, rfl⟩⟩

/-- The identified row of an hour of the output. -/
theorem filter_identified (hvisible : Visible call hour) {out : List (CalculatedRow ℚ)}
    (hout : ((aqiRows host call rows).filter fun row ↦ call.outputStartMs < row.timestampHourUtc &&
      row.timestampHourUtc ≤ call.outputEndMs).mapM (identifyRow call.selection.segments) = .ok out)
    {member : Member} (hmember : call.continuity.memberOn hour = some member) :
    out.filter (fun row ↦ row.row.timestampHourUtc = hour)
      = [rowOf host (readSeries call store) member hour] := by
  have hfiltered := Except.mapM_filter hout (p := fun row ↦ row.timestampHourUtc = hour)
    (q := fun row ↦ row.row.timestampHourUtc = hour) (by
      intro row out hrow
      rw [identifyRow] at hrow
      split at hrow
      · cases hrow
      · rw [← Except.ok.inj hrow]
        rfl)
  have htime : (helperRowToNormalizedAqiV1Row host none (meansRow (readSeries call store)
      call.request.identity hour)).timestampHourUtc = hour := hourOf_of_emod hvisible.1
  have hpollutant : call.request.identity.pollutant = member.pollutant := by
    obtain ⟨hmem, -⟩ := (memberOn_eq_some_iff hspec.valid).mp hmember
    exact hspec.pollutant.trans (hspec.valid.pollutant member hmem).symm
  rw [filter_windowRows hspec h hplain hvisible, Except.mapM_eq_ok_iff] at hfiltered
  obtain ⟨b, rest, hb, hnil, hlist⟩ := List.forall₂_cons_left_iff.mp hfiltered
  rw [List.forall₂_nil_left_iff] at hnil
  rw [identifyRow_ok_iff hspec (by rw [htime]; exact hvisible), htime] at hb
  obtain ⟨member', hmember', hb⟩ := hb
  rw [hmember] at hmember'
  rw [hlist, hnil, ← hb, ← Option.some.inj hmember', calculatedRow_meansRow hpollutant]

end Answer

/-! ## What a build returns -/

section Returns

variable {call : HistoryCall} {store : Store} {host : Host} {hour : ℤ}

/-- The steps of a build that can throw. -/
theorem buildCalculatedHistory_ok_iff {mode : ReadMode} {reader : Reader ℚ} {ingest : Ingest ℚ}
    (haqi : call.request.includeAqi = true) {aqi : List (CalculatedRow ℚ)} :
    (∃ history, buildCalculatedHistory host mode reader ingest call = .ok history ∧
        history.aqi.rows = aqi) ↔
      call.selection.segments ≠ [] ∧ ∃ rows, mergePhysicalObservations host
          ((readSegments mode reader call.selection.segments).flatMap fun entry ↦ entry.2.rows)
          (ingest.rows ++ (ingest.recover (readSegments mode reader call.selection.segments)).1)
          call.selection.segments (requiredStartMs call) (call.outputEndMs + 1) = .ok rows ∧
        calculateLogicalAqi host rows call.request call.selection.segments call.outputStartMs
          call.outputEndMs (hourEndpoints call.outputStartMs call.outputEndMs) = .ok aqi ∧
        ∃ t, checkedTime (requiredStartMs call) = .ok t := by
  constructor
  · rintro ⟨history, hbuild, rfl⟩
    rw [buildCalculatedHistory] at hbuild
    obtain ⟨_, hsegments, hbuild⟩ := Except.bind_eq_ok_iff.mp hbuild
    obtain ⟨rows, hmerge, hbuild⟩ := Except.bind_eq_ok_iff.mp hbuild
    rw [if_pos haqi] at hbuild
    obtain ⟨aqi, hcalc, hbuild⟩ := Except.bind_eq_ok_iff.mp hbuild
    obtain ⟨t, htime, hbuild⟩ := Except.bind_eq_ok_iff.mp hbuild
    rw [← Except.pure_eq_ok_iff.mp hbuild]
    exact ⟨Except.refuseIf_eq_ok_iff.mp hsegments, rows, hmerge, hcalc, t, htime⟩
  · rintro ⟨hsegments, rows, hmerge, hcalc, t, htime⟩
    rw [buildCalculatedHistory]
    simp only [if_pos haqi]
    refine ⟨_, Except.bind_eq_ok_iff.mpr ⟨(), Except.refuseIf_eq_ok_iff.mpr hsegments,
      Except.bind_eq_ok_iff.mpr ⟨rows, hmerge, Except.bind_eq_ok_iff.mpr ⟨aqi, hcalc,
        Except.bind_eq_ok_iff.mpr ⟨t, htime, rfl⟩⟩⟩⟩, rfl⟩

theorem calculateLogicalAqi_eq {rows : List (ObservationRow ℚ)} (hplain : PlainCall call)
    (hvisible : Visible call hour) :
    calculateLogicalAqi host rows call.request call.selection.segments call.outputStartMs
        call.outputEndMs (hourEndpoints call.outputStartMs call.outputEndMs)
      = ((aqiRows host call rows).filter fun row ↦ call.outputStartMs < row.timestampHourUtc &&
        row.timestampHourUtc ≤ call.outputEndMs).mapM (identifyRow call.selection.segments) := by
  have hstart : PlainYear (call.outputStartMs / dayMs) := by
    have hday : (0 : ℤ) < dayMs := by decide
    have hle := requiredStartMs_le call
    obtain ⟨-, hlower, hupper⟩ := hvisible
    exact hplain.1.between hplain.2 (Int.ediv_le_ediv hday hle)
      (Int.ediv_le_ediv hday (by omega))
  have hfirst : checkedTime (call.outputStartMs + hourMs) = .ok (call.outputStartMs + hourMs) :=
    checkedTime_eq (Or.inr (by rw [Int.add_sub_cancel]; exact hstart))
  have hsecond : checkedTime (call.outputEndMs + hourMs) = .ok (call.outputEndMs + hourMs) :=
    checkedTime_eq (Or.inr (by rw [Int.add_sub_cancel]; exact hplain.2))
  rw [calculateLogicalAqi, hfirst, hsecond, aqiRows, narrowRows]
  generalize helperRowsToNormalizedAqiV1Rows host
    (pivotNarrowRowsToHelperRows (_ : List (NarrowRow ℚ))) none = l
  rfl

/-- **A build answers exactly when each hour of its output has a member**, and gives an hour the row
of the series that it reads. -/
theorem returns_iff {continuity : Continuity} (source : CompleteSource continuity store)
    (hcontinuity : call.continuity = continuity) (hspec : CallSpec call)
    (haqi : call.request.includeAqi = true) (hplain : PlainCall call)
    (hvisible : Visible call hour) {row : CalculatedRow ℚ} :
    Returns host source call hour row ↔ Covered call ∧
      (call.continuity.memberOn hour).map (fun member ↦
        rowOf host (readSeries call store) member hour) = some row := by
  obtain ⟨rows, hmerge, hrows⟩ :=
    @reads_spec call store host continuity source hcontinuity (hcontinuity ▸ hspec.valid)
  have hiff : ∀ aqi, (∃ history, buildCalculatedHistory host source.mode source.reader
      source.ingest call = .ok history ∧ history.aqi.rows = aqi) ↔ call.selection.segments ≠ [] ∧
        ((aqiRows host call rows).filter fun row ↦ call.outputStartMs < row.timestampHourUtc &&
          row.timestampHourUtc ≤ call.outputEndMs).mapM (identifyRow call.selection.segments)
            = .ok aqi := by
    intro aqi
    rw [buildCalculatedHistory_ok_iff haqi]
    refine and_congr_right fun _ ↦ ⟨?_, fun hcalc ↦ ?_⟩
    · rintro ⟨rows', hmerge', hcalc, -⟩
      rw [hmerge] at hmerge'
      rw [← Except.ok.inj hmerge', calculateLogicalAqi_eq hplain hvisible] at hcalc
      exact hcalc
    · rw [← calculateLogicalAqi_eq hplain hvisible] at hcalc
      exact ⟨rows, hmerge, hcalc, _, checkedTime_eq (Or.inl hplain.1)⟩
  constructor
  · rintro ⟨history, hbuild, hfilter⟩
    obtain ⟨-, hidentified⟩ := (hiff history.aqi.rows).mp ⟨history, hbuild, rfl⟩
    have hcovered : Covered call := (exists_identified_iff hspec hrows hplain).mp ⟨_, hidentified⟩
    obtain ⟨member, hmember⟩ := Option.isSome_iff_exists.mp (hcovered hour hvisible)
    rw [filter_identified hspec hrows hplain hvisible hidentified hmember] at hfilter
    rw [hmember, Option.map_some, List.singleton_inj.mp hfilter]
    exact ⟨hcovered, rfl⟩
  · rintro ⟨hcovered, hrow⟩
    obtain ⟨member, hmember, rfl⟩ := Option.map_eq_some_iff.mp hrow
    obtain ⟨aqi, hidentified⟩ := (exists_identified_iff hspec hrows hplain).mpr hcovered
    have hsegments : call.selection.segments ≠ [] := by
      intro hnil
      have hat := memberAt_of_visible hspec hvisible
      rw [hnil, hmember] at hat
      cases hat
    obtain ⟨history, hbuild, rfl⟩ := (hiff aqi).mpr ⟨hsegments, hidentified⟩
    exact ⟨history, hbuild, filter_identified hspec hrows hplain hvisible hidentified hmember⟩

end Returns

/-! ## What is cut -/

section Cut

/-- The first 23 means are read from later hours than the last one. -/
theorem lastMeans_eq (series : ℤ → Option ℚ) (hour : ℤ) : lastMeans series hour
    = ((List.range 23).filterMap fun k : ℕ ↦ hourMean series (hour - k * hourMs)) ++
      (hourMean series (hour - 23 * hourMs)).toList := by
  rw [lastMeans, List.range_succ, List.filterMap_append]
  refine congrArg _ ?_
  rcases hmean : hourMean series (hour - 23 * hourMs) with _ | mean
  · simp [hmean]
  · simp [hmean]

/-- The average and the count of a list determine the value that is missing or added at its end. -/
theorem toList_eq_of_average {l : List ℚ} {a b : Option ℚ}
    (hcount : countOrNull (l ++ a.toList) = countOrNull (l ++ b.toList))
    (haverage : average (l ++ a.toList) = average (l ++ b.toList)) : a = b := by
  have hlength : (l ++ a.toList).length = (l ++ b.toList).length := by
    simp only [countOrNull] at hcount
    split at hcount <;> split at hcount
    · omega
    · cases hcount
    · cases hcount
    · exact Option.some.inj hcount
  rcases a with _ | a <;> rcases b with _ | b
  · rfl
  · simp at hlength
  · simp at hlength
  · have hsum : ∀ values : List ℚ, sumOf values = values.sum := by
      intro values
      rw [sumOf, List.sum_eq_foldl]
      rfl
    have hne : ∀ v : ℚ, ¬l ++ [v] = [] := fun v ↦ by simp
    simp only [average, Option.toList_some, if_neg (hne _), Option.some.injEq, hsum,
      List.length_append, List.length_singleton, List.sum_append, List.sum_singleton] at haverage
    have hpos : ((l.length + 1 : ℕ) : ℚ) ≠ 0 := by positivity
    have hdiv : (l.sum + a) / ((l.length + 1 : ℕ) : ℚ) = (l.sum + b) / ((l.length + 1 : ℕ) : ℚ) :=
      haverage
    rw [div_left_inj' hpos] at hdiv
    rw [add_left_cancel hdiv]

variable {call : HistoryCall} {store : Store} {host : Host} {hour : ℤ}

theorem readSeries_eq {t : ℤ} (hstart : requiredStartMs call ≤ t) (hend : t ≤ call.outputEndMs) :
    readSeries call store t = logicalSeries call.continuity store t :=
  if_pos ⟨hstart, by omega⟩

/-- The first hour that a row reads ends after the build starts to read. -/
theorem requiredStartMs_lt_firstHour (hvisible : Visible call hour) :
    requiredStartMs call < firstHour call hour := by
  rw [requiredStartMs, firstHour]
  exact Int.sub_lt_sub_right hvisible.2.1 _

/-- The hours after the first one are read whole. -/
theorem hour_congr (hvisible : Visible call hour) {h : ℤ}
    (hfirst : firstHour call hour ≤ h - hourMs) (hend : h ≤ hour) :
    hourCount (readSeries call store) h = hourCount (logicalSeries call.continuity store) h ∧
      hourMean (readSeries call store) h = hourMean (logicalSeries call.continuity store) h := by
  have hlt := requiredStartMs_lt_firstHour hvisible
  have hle := hvisible.2.2
  exact hourInstants_congr fun t hlower hupper ↦ readSeries_eq (by omega) (by omega)

/-- Without an observation before the start the first hour is read whole too. -/
theorem firstHour_congr (hvisible : Visible call hour)
    (hnone : ∀ t, firstHour call hour - hourMs < t → t < requiredStartMs call →
      logicalSeries call.continuity store t = none) :
    hourCount (readSeries call store) (firstHour call hour)
        = hourCount (logicalSeries call.continuity store) (firstHour call hour) ∧
      hourMean (readSeries call store) (firstHour call hour)
        = hourMean (logicalSeries call.continuity store) (firstHour call hour) := by
  refine hourInstants_congr fun t hlower hupper ↦ ?_
  by_cases hstart : requiredStartMs call ≤ t
  · have hle : firstHour call hour ≤ hour := by
      rw [firstHour, contextHoursOf]
      split
      all_goals
        simp only [hourMs, minuteMs]
        omega
    have hend := hvisible.2.2
    exact readSeries_eq hstart (by omega)
  · rw [hnone t hlower (not_le.mp hstart), readSeries, cutSeries, if_neg fun h ↦ hstart h.1]

/-- If the first hour counts as many observations as it has, none is before the start. -/
theorem none_of_hourCount_eq (hcount : hourCount (readSeries call store) (firstHour call hour)
      = hourCount (logicalSeries call.continuity store) (firstHour call hour)) {t : ℤ}
    (hlower : firstHour call hour - hourMs < t) (hupper : t < requiredStartMs call)
    (hvisible : Visible call hour) : logicalSeries call.continuity store t = none := by
  have hsubset : hourInstants (readSeries call store) (firstHour call hour) ⊆
      hourInstants (logicalSeries call.continuity store) (firstHour call hour) := by
    intro t ht
    obtain ⟨hrange, hsome⟩ := mem_hourInstants.mp ht
    obtain ⟨value, hvalue⟩ := Option.isSome_iff_exists.mp hsome
    exact mem_hourInstants.mpr ⟨hrange, by rw [(cutSeries_eq_some_iff.mp hvalue).2]; rfl⟩
  have hsame := Finset.eq_of_subset_of_card_le hsubset hcount.ge
  by_contra hne
  have hmem : t ∈ hourInstants (readSeries call store) (firstHour call hour) := by
    rw [hsame, mem_hourInstants]
    have hlt := requiredStartMs_lt_firstHour hvisible
    exact ⟨⟨hlower, by omega⟩, Option.ne_none_iff_isSome.mp hne⟩
  obtain ⟨value, hvalue⟩ := Option.isSome_iff_exists.mp (mem_hourInstants.mp hmem).2
  exact absurd (cutSeries_eq_some_iff.mp hvalue).1.1 (by omega)

/-- The columns of a row that tell the means apart. -/
theorem rowOf_columns (series : ℤ → Option ℚ) (member : Member) (hour : ℤ) :
    (rowOf host series member hour).row.hourlySampleCount
        = (if hourCount series hour = 0 then none else some (hourCount series hour)) ∧
      (member.pollutant ≠ .no2 →
        (rowOf host series member hour).row.rolling24hMean = average (lastMeans series hour) ∧
        (rowOf host series member hour).row.daqi.sourceObservationCount
          = countOrNull (lastMeans series hour)) := by
  have hnumber : ∀ value : Option ℚ, toNumberOrNull value = value := by
    intro value
    rcases value with _ | v <;> rfl
  refine ⟨rfl, fun hpm ↦ ?_⟩
  rcases hcode : member.pollutant
  · exact absurd hcode hpm
  all_goals
    have hidentity : member.identity.pollutant = _ := hcode
    simp only [rowOf, calculatedRow, helperRowToNormalizedAqiV1Row, meansRow, hidentity, hnumber]
    exact ⟨rfl, rfl⟩

/-- Series with the same mean and count in an hour, and the same means before it, give one row. -/
theorem rowOf_congr {series series' : ℤ → Option ℚ} {member : Member}
    (hcount : hourCount series hour = hourCount series' hour)
    (hmean : hourMean series hour = hourMean series' hour)
    (hlast : member.pollutant ≠ .no2 → lastMeans series hour = lastMeans series' hour) :
    rowOf host series member hour = rowOf host series' member hour := by
  have hrow : meansRow series member.identity hour = meansRow series' member.identity hour := by
    by_cases hcode : member.pollutant = .no2
    · have hidentity : member.identity.pollutant = .no2 := hcode
      simp only [meansRow, hidentity, hcount, hmean]
      rfl
    · simp only [meansRow, hcount, hmean, hlast hcode]
  rw [rowOf, rowOf, hrow]

/-- **The row of an hour is that of all observations exactly when its first hour is not cut.** -/
theorem rowOf_readSeries_iff (haqi : call.request.includeAqi = true)
    (hvisible : Visible call hour) {member : Member}
    (hpollutant : call.request.pollutant = member.pollutant) :
    rowOf host (readSeries call store) member hour
        = rowOf host (logicalSeries call.continuity store) member hour ↔
      Uncut call hour store := by
  have hno2 : member.pollutant = .no2 → firstHour call hour = hour := by
    intro hcode
    rw [firstHour, contextHoursOf, hpollutant, hcode]
    simp
  have hpm : member.pollutant ≠ .no2 → firstHour call hour = hour - 23 * hourMs := by
    intro hcode
    rw [firstHour, contextHoursOf, haqi, hpollutant]
    simp [hcode]
  rw [Uncut]
  by_cases hcode : member.pollutant = .no2
  · -- the one mean of a gas is that of the first hour
    rw [hno2 hcode]
    have hfirst := hno2 hcode
    constructor
    · intro heq
      have hcolumn := congrArg (fun row ↦ row.row.hourlySampleCount) heq
      simp only [(rowOf_columns _ member hour).1] at hcolumn
      have hcount : hourCount (readSeries call store) hour
          = hourCount (logicalSeries call.continuity store) hour := by
        split at hcolumn <;> split at hcolumn
        · omega
        · cases hcolumn
        · cases hcolumn
        · exact Option.some.inj hcolumn
      refine Or.inl fun t hlower hupper ↦ ?_
      rw [← hfirst] at hcount hlower
      exact none_of_hourCount_eq hcount hlower hupper hvisible
    · rintro (hnone | ⟨hpm, -⟩)
      · rw [← hfirst] at hnone
        have hboth := firstHour_congr hvisible hnone
        rw [hfirst] at hboth
        exact rowOf_congr hboth.1 hboth.2 fun hne ↦ absurd hcode hne
      · exact absurd (hpollutant.trans hcode) hpm
  · have hfirst := hpm hcode
    have hlasts : ∀ k : ℕ, k < 23 → hourMean (readSeries call store) (hour - k * hourMs)
        = hourMean (logicalSeries call.continuity store) (hour - k * hourMs) := by
      intro k hk
      refine (hour_congr hvisible ?_ ?_).2
      · rw [hfirst]
        simp only [hourMs, minuteMs]
        omega
      · simp only [hourMs, minuteMs]
        omega
    have hinit : ((List.range 23).filterMap fun k : ℕ ↦
        hourMean (readSeries call store) (hour - k * hourMs))
          = (List.range 23).filterMap fun k : ℕ ↦
            hourMean (logicalSeries call.continuity store) (hour - k * hourMs) :=
      List.filterMap_congr fun k hk ↦ hlasts k (List.mem_range.mp hk)
    constructor
    · intro heq
      refine Or.inr ⟨by rw [hpollutant]; exact hcode, ?_⟩
      have haverage := congrArg (fun row ↦ row.row.rolling24hMean) heq
      have hcounts := congrArg (fun row ↦ row.row.daqi.sourceObservationCount) heq
      simp only [((rowOf_columns _ member hour).2 hcode).1] at haverage
      simp only [((rowOf_columns _ member hour).2 hcode).2] at hcounts
      rw [lastMeans_eq, lastMeans_eq, hinit] at haverage hcounts
      rw [hfirst]
      exact toList_eq_of_average hcounts haverage
    · intro huncut
      have hmean : hourMean (readSeries call store) (firstHour call hour)
          = hourMean (logicalSeries call.continuity store) (firstHour call hour) := by
        rcases huncut with hnone | ⟨-, hmean⟩
        · exact (firstHour_congr hvisible hnone).2
        · exact hmean
      have hhour : hourCount (readSeries call store) hour
            = hourCount (logicalSeries call.continuity store) hour ∧
          hourMean (readSeries call store) hour
            = hourMean (logicalSeries call.continuity store) hour := by
        refine hour_congr hvisible ?_ le_rfl
        rw [hfirst]
        simp only [hourMs, minuteMs]
        omega
      refine rowOf_congr hhour.1 hhour.2 fun _ ↦ ?_
      rw [lastMeans_eq, lastMeans_eq, hinit, ← hfirst, hmean]

end Cut

end UkAqOps.StationHistory

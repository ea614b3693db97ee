import UkAqOps.StationHistory.Calculated
import UkAqOps.Aqi.Batching

/-!
# Reading a complete store

A complete store holds at most one value of a timeseries at an instant, and its readers return what
it holds. What a build merges from it is the logical series: at an instant, the value of the member
that is valid then, if it is not negative.
-/

namespace UkAqOps.StationHistory

open Aqi Sorting

/-- The value of a timeseries at an instant. -/
abbrev Store := ℤ → ℤ → Option ℚ

/-- The logical series of a continuity. -/
def logicalSeries (continuity : Continuity) (store : Store) (timestampMs : ℤ) : Option ℚ :=
  (continuity.memberOn timestampMs).bind fun member ↦
    (store member.timeseriesId timestampMs).filter (0 ≤ ·)

/-- The row is that of a stored value of the member that is valid at its instant. -/
structure IsRowOf (continuity : Continuity) (store : Store) (row : ObservationRow ℚ) : Prop where
  member : ∃ member, continuity.memberOn row.observedAt = some member ∧
    row.timeseriesId = member.timeseriesId ∧ row.stationId = member.stationId ∧
    row.connectorId = member.connectorId ∧ row.pollutantCode = member.pollutant
  stored : store row.timeseriesId row.observedAt = some row.value

/-- Readers of a complete store. The ingest database may repeat what the store holds. -/
structure CompleteSource (continuity : Continuity) (store : Store) where
  mode : ReadMode
  reader : Reader ℚ
  ingest : Ingest ℚ
  complete : ∀ identity startMs endMs timestampMs value, startMs ≤ timestampMs →
    timestampMs < endMs → store identity.timeseriesId timestampMs = some value → 0 ≤ value →
      ∃ row ∈ (reader identity startMs endMs).rows,
        row.observedAt = timestampMs ∧ row.value = value
  sound : ∀ identity startMs endMs, ∀ row ∈ (reader identity startMs endMs).rows,
    startMs ≤ row.observedAt ∧ row.observedAt < endMs ∧
      row.timeseriesId = identity.timeseriesId ∧ row.stationId = identity.stationId ∧
      row.connectorId = identity.connectorId ∧ row.pollutantCode = identity.pollutant ∧
      store identity.timeseriesId row.observedAt = some row.value
  whole : ∀ identity startMs endMs, (reader identity startMs endMs).partialReasons = []
  ingested : ∀ row ∈ ingest.rows, IsRowOf continuity store row
  recovered : ∀ reads, ∀ row ∈ (ingest.recover reads).1, IsRowOf continuity store row

section Members

variable {continuity : Continuity} {timestampMs : ℤ}

/-- Only one member is valid at an instant. -/
theorem memberOn_eq_some_iff (hvalid : continuity.Valid) {member : Member} :
    continuity.memberOn timestampMs = some member ↔
      member ∈ continuity.members ∧ member.covers timestampMs = true := by
  rw [Continuity.memberOn]
  constructor
  · intro h
    exact ⟨List.mem_of_find?_eq_some h, by simpa using List.find?_some h⟩
  · rintro ⟨hmem, hcovers⟩
    have hnone : ∀ a b : Member, a.Dated → a.Precedes b → a.covers timestampMs = true →
        b.covers timestampMs = false := by
      intro a b hdated hab ha
      obtain ⟨lastDay, firstDay, hto, hfrom, -⟩ := id hab
      obtain ⟨first, hfirst, -⟩ := hdated lastDay hto
      have hend : a.endMs = some (lastDay * dayMs + dayMs) := by
        rw [Member.endMs, Option.mem_def.mp hfirst, hto]
        rfl
      have hstart : b.startMs = some (firstDay * dayMs) := by rw [Member.startMs, hfrom]; rfl
      have hle := Member.endMs_le_startMs hab hend hstart
      have hlt := (Member.covers_iff.mp ha).2 _ hend
      rw [← Bool.not_eq_true, Member.covers_iff]
      intro hb
      have hge := hb.1 _ hstart
      omega
    have happart : continuity.members.Pairwise fun a b ↦ a.Dated ∧ a.Precedes b :=
      hvalid.apart.imp_of_mem fun ha _ hab ↦ ⟨hvalid.days _ ha, hab⟩
    clear hvalid
    generalize continuity.members = members at hmem happart ⊢
    induction members with
    | nil => exact absurd hmem List.not_mem_nil
    | cons first rest ih =>
      rw [List.pairwise_cons] at happart
      rw [List.find?_cons]
      rcases List.mem_cons.mp hmem with rfl | hrest
      · rw [hcovers]
      · have hfirst : first.covers timestampMs = false := by
          by_contra htrue
          rw [Bool.not_eq_false] at htrue
          obtain ⟨hdated, hprecedes⟩ := happart.1 member hrest
          rw [hnone first member hdated hprecedes htrue] at hcovers
          cases hcovers
        rw [hfirst]
        exact ih hrest happart.2

theorem mem_of_mem_readSegments {ν : Type} {mode : ReadMode} {reader : Reader ν}
    {segments : List Segment} {entry : Segment × ReadResult ν}
    (h : entry ∈ readSegments mode reader segments) : entry.1 ∈ segments ∧
      entry.2 = reader entry.1.identity entry.1.startMs entry.1.endMs := by
  induction segments with
  | nil => exact absurd h List.not_mem_nil
  | cons segment rest ih =>
    rw [readSegments] at h
    split at h
    · rw [List.mem_singleton.mp h]
      exact ⟨List.mem_cons_self, rfl⟩
    · rcases List.mem_cons.mp h with rfl | hrest
      · exact ⟨List.mem_cons_self, rfl⟩
      · exact ⟨List.mem_cons_of_mem _ (ih hrest).1, (ih hrest).2⟩

/-- Readers without partial reasons read every segment. -/
theorem readSegments_eq {ν : Type} {mode : ReadMode} {reader : Reader ν}
    (hwhole : ∀ identity startMs endMs, (reader identity startMs endMs).partialReasons = [])
    (segments : List Segment) : readSegments mode reader segments
      = segments.map fun segment ↦
        (segment, reader segment.identity segment.startMs segment.endMs) := by
  induction segments with
  | nil => rfl
  | cons segment rest ih =>
    rw [readSegments, hwhole, List.any_nil, if_neg (fun h ↦ Bool.false_ne_true h.2), ih]
    rfl

theorem logicalSeries_eq_some_iff {store : Store} {value : ℚ} :
    logicalSeries continuity store timestampMs = some value ↔
      0 ≤ value ∧ ∃ member, continuity.memberOn timestampMs = some member ∧
        store member.timeseriesId timestampMs = some value := by
  simp only [logicalSeries, Option.bind_eq_some_iff, Option.filter_eq_some_iff, decide_eq_true_iff]
  constructor
  · rintro ⟨member, hmember, hstored, hpos⟩
    exact ⟨hpos, member, hmember, hstored⟩
  · rintro ⟨hpos, member, hmember, hstored⟩
    exact ⟨member, hmember, hstored, hpos⟩

end Members

/-! ## Preparing -/

section Prepare

variable {continuity : Continuity} {store : Store} {startMs endExclusiveMs : ℤ}
variable {rows : List (ObservationRow ℚ)} {row : ObservationRow ℚ}

/-- The rows that a build keeps. -/
def isKept (startMs endExclusiveMs : ℤ) (row : ObservationRow ℚ) : Bool :=
  startMs ≤ row.observedAt && row.observedAt < endExclusiveMs && 0 ≤ row.value

theorem isSkipped_eq : isSkipped startMs endExclusiveMs row = !isKept startMs endExclusiveMs row := by
  rw [Bool.eq_iff_iff]
  simp only [isSkipped, isKept, Numeric.isFinite, Numeric.lt, Numeric.zero, Bool.not_true,
    Bool.false_or, Bool.or_eq_true, decide_eq_true_iff, Bool.not_eq_true', Bool.and_eq_false_iff,
    decide_eq_false_iff_not, not_le, not_lt]
  tauto

/-- Rows of the store never contradict the continuity or each other. -/
theorem prepare_eq (hvalid : continuity.Valid) (hrows : ∀ row ∈ rows, IsRowOf continuity store row) :
    prepare (selectContinuitySegments continuity startMs endExclusiveMs).segments startMs
      endExclusiveMs rows = .ok (rows.filter (isKept startMs endExclusiveMs)) := by
  have hloop : ∀ (seen : OrderedMap (ℤ × ℤ) ℚ) (prepared : List (ObservationRow ℚ)),
      (∀ key value, seen.get? key = some value → store key.1 key.2 = some value) →
      Prod.snd <$> rows.foldlM (prepareStep
          (selectContinuitySegments continuity startMs endExclusiveMs).segments startMs
          endExclusiveMs) (seen, prepared)
        = .ok (prepared ++ rows.filter (isKept startMs endExclusiveMs)) := by
    induction rows with
    | nil =>
      intro seen prepared _
      rw [List.filter_nil, List.append_nil]
      rfl
    | cons row rest ih =>
      intro seen prepared hseen
      have hrest := ih fun r hr ↦ hrows r (List.mem_cons_of_mem _ hr)
      obtain ⟨⟨member, hmember, htimeseries, hstation, hconnector, hpollutant⟩, hstored⟩ :=
        hrows row List.mem_cons_self
      rw [List.foldlM_cons, prepareStep, isSkipped_eq]
      by_cases hkept : isKept startMs endExclusiveMs row = true
      · have hrange : startMs ≤ row.observedAt ∧ row.observedAt < endExclusiveMs := by
          simp only [isKept, Bool.and_eq_true, decide_eq_true_iff] at hkept
          exact hkept.1
        have hat := memberAt_selectContinuitySegments hvalid hrange.1 hrange.2
        rw [hmember] at hat
        obtain ⟨segment, hsegment, hsame⟩ := Option.map_eq_some_iff.mp hat
        rw [hkept, if_neg (by decide), hsegment]
        have hids : ¬(row.timeseriesId ≠ segment.timeseriesId ∨
            row.stationId ≠ segment.stationId ∨ row.connectorId ≠ segment.connectorId ∨
            row.pollutantCode ≠ segment.pollutant) := by
          rw [hsame, htimeseries, hstation, hconnector, hpollutant]
          simp
        have hagree : ¬(seen.get? row.key).any (· ≠ row.value) = true := by
          rcases hget : seen.get? row.key with _ | value
          · simp
          · have hvalue := hseen _ _ hget
            rw [ObservationRow.key] at hvalue
            rw [hstored] at hvalue
            rw [Option.any_some, decide_eq_true_iff, not_not]
            exact (Option.some.inj hvalue).symm
        simp only [Except.refuseIf, if_neg hids, if_neg hagree]
        rw [List.filter_cons_of_pos hkept]
        refine (hrest (seen.set row.key row.value) (prepared ++ [row]) ?_).trans ?_
        · intro key value hget
          rw [OrderedMap.get?_set] at hget
          by_cases hkey : key = row.key
          · rw [if_pos hkey] at hget
            rw [hkey, ← Option.some.inj hget]
            exact hstored
          · rw [if_neg hkey] at hget
            exact hseen key value hget
        · rw [List.append_assoc]
          rfl
      · rw [Bool.not_eq_true] at hkept
        rw [hkept, if_pos (by decide), List.filter_cons_of_neg (by rw [hkept]; decide)]
        exact hrest seen prepared hseen
  have hall := hloop OrderedMap.empty [] fun key value h ↦ by cases h
  rw [prepare, hall, List.nil_append]

end Prepare

/-! ## Merging -/

section Merge

variable {continuity : Continuity} {store : Store} {host : Host}

/-- The rows hold exactly the values of a series, each once. -/
structure HoldsSeries (series : ℤ → Option ℚ) (rows : List (ObservationRow ℚ)) : Prop where
  nodup : (rows.map ObservationRow.observedAt).Nodup
  value : ∀ row ∈ rows, series row.observedAt = some row.value
  exists_row : ∀ timestampMs value, series timestampMs = some value →
    ∃ row ∈ rows, row.observedAt = timestampMs

/-- A series from an instant on, up to another. -/
def cutSeries (series : ℤ → Option ℚ) (startMs endExclusiveMs timestampMs : ℤ) : Option ℚ :=
  if startMs ≤ timestampMs ∧ timestampMs < endExclusiveMs then series timestampMs else none

theorem cutSeries_eq_some_iff {series : ℤ → Option ℚ} {startMs endExclusiveMs timestampMs : ℤ}
    {value : ℚ} : cutSeries series startMs endExclusiveMs timestampMs = some value ↔
      (startMs ≤ timestampMs ∧ timestampMs < endExclusiveMs) ∧ series timestampMs = some value := by
  rw [cutSeries, Option.ite_none_right_eq_some]

theorem mergePhysicalObservations_spec (hvalid : continuity.Valid) {startMs endExclusiveMs : ℤ}
    {r2Rows ingestRows : List (ObservationRow ℚ)}
    (hr2 : ∀ row ∈ r2Rows, IsRowOf continuity store row)
    (hingest : ∀ row ∈ ingestRows, IsRowOf continuity store row)
    (hcomplete : ∀ timestampMs value, startMs ≤ timestampMs → timestampMs < endExclusiveMs →
      logicalSeries continuity store timestampMs = some value →
      ∃ row ∈ r2Rows, row.observedAt = timestampMs ∧ row.value = value) :
    ∃ rows, mergePhysicalObservations host r2Rows ingestRows
        (selectContinuitySegments continuity startMs endExclusiveMs).segments startMs
        endExclusiveMs = .ok rows ∧
      HoldsSeries (cutSeries (logicalSeries continuity store) startMs endExclusiveMs) rows := by
  have hkept : ∀ row ∈ ingestRows.filter (isKept startMs endExclusiveMs) ++
      r2Rows.filter (isKept startMs endExclusiveMs),
      IsRowOf continuity store row ∧ isKept startMs endExclusiveMs row = true := by
    intro row hrow
    rcases List.mem_append.mp hrow with h | h
    · exact ⟨hingest row (List.mem_filter.mp h).1, (List.mem_filter.mp h).2⟩
    · exact ⟨hr2 row (List.mem_filter.mp h).1, (List.mem_filter.mp h).2⟩
  generalize hpre : ingestRows.filter (isKept startMs endExclusiveMs) ++
      r2Rows.filter (isKept startMs endExclusiveMs) = prepared at hkept
  have hmem : ∀ row, row ∈ mergeObservationRowsPreferR2 host
      (r2Rows.filter (isKept startMs endExclusiveMs))
      (ingestRows.filter (isKept startMs endExclusiveMs)) ↔
        ((prepared.filter fun row' ↦ row'.key = row.key).getLast? = some row) := by
    intro row
    rw [mergeObservationRowsPreferR2, mem_sortBy, hpre, OrderedMap.mem_values_collect]
    constructor
    · rintro ⟨key, hkey⟩
      rw [foldl_some_eq_getLast?] at hkey
      have hsame : row.key = key :=
        of_decide_eq_true (List.mem_filter.mp (List.mem_of_getLast? hkey)).2
      rw [hsame]
      exact hkey
    · intro h
      exact ⟨row.key, by rw [foldl_some_eq_getLast?]; exact h⟩
  generalize hmerged : mergeObservationRowsPreferR2 host
      (r2Rows.filter (isKept startMs endExclusiveMs))
      (ingestRows.filter (isKept startMs endExclusiveMs)) = merged at hmem
  have hprepared : ∀ row ∈ merged, row ∈ prepared := fun row hrow ↦
    (List.mem_filter.mp (List.mem_of_getLast? ((hmem row).mp hrow))).1
  -- the member of an instant determines the timeseries of its row
  have hsame : ∀ row ∈ merged, ∀ row' ∈ merged, row.observedAt = row'.observedAt →
      row.timeseriesId = row'.timeseriesId := by
    intro row hrow row' hrow' htime
    obtain ⟨member, hmember, hid, -⟩ := (hkept row (hprepared row hrow)).1.member
    obtain ⟨member', hmember', hid', -⟩ := (hkept row' (hprepared row' hrow')).1.member
    rw [htime, hmember'] at hmember
    rw [hid, hid', Option.some.inj hmember]
  have hkeys : (merged.map ObservationRow.key).Nodup := by
    rw [← hmerged, mergeObservationRowsPreferR2,
      List.Perm.nodup_iff ((sortBy_perm _).map _), List.Nodup, List.pairwise_map]
    exact OrderedMap.pairwise_values_collect ObservationRow.key (fun _ row ↦ row)
      ObservationRow.key (fun _ _ _ ↦ rfl) _
  refine ⟨sortBy (compareByTime host) merged, ?_, ⟨?_, fun row hrow ↦ ?_, fun t v hv ↦ ?_⟩⟩
  · have hpairwise : merged.Pairwise fun row row' ↦
        row.observedAt = row'.observedAt → row.timeseriesId = row'.timeseriesId :=
      List.pairwise_of_forall_mem_list fun row hrow row' hrow' ↦ hsame row hrow row' hrow'
    rw [mergePhysicalObservations, prepare_eq hvalid hr2, prepare_eq hvalid hingest]
    refine Except.bind_eq_ok_iff.mpr ⟨_, rfl, Except.bind_eq_ok_iff.mpr ⟨_, rfl, ?_⟩⟩
    rw [hmerged]
    exact Except.bind_eq_ok_iff.mpr
      ⟨(), Except.refuseIf_eq_ok_iff.mpr (not_not.mpr hpairwise), rfl⟩
  · rw [List.Perm.nodup_iff ((sortBy_perm _).map _), List.Nodup, List.pairwise_map]
    refine (List.pairwise_map.mp hkeys).imp_of_mem fun {row row'} hrow hrow' hne htime ↦ hne ?_
    exact Prod.ext (hsame row hrow row' hrow' htime) htime
  · rw [mem_sortBy] at hrow
    obtain ⟨hrowOf, hrange⟩ := hkept row (hprepared row hrow)
    obtain ⟨member, hmember, hid, -⟩ := hrowOf.member
    simp only [isKept, Bool.and_eq_true, decide_eq_true_iff] at hrange
    refine cutSeries_eq_some_iff.mpr ⟨hrange.1, logicalSeries_eq_some_iff.mpr
      ⟨hrange.2, member, hmember, ?_⟩⟩
    rw [← hid]
    exact hrowOf.stored
  · obtain ⟨hrange, hv⟩ := cutSeries_eq_some_iff.mp hv
    obtain ⟨row, hrow, htime, hvalue⟩ := hcomplete t v hrange.1 hrange.2 hv
    have hkeptRow : row ∈ prepared := by
      rw [← hpre, List.mem_append, List.mem_filter, List.mem_filter]
      refine Or.inr ⟨hrow, ?_⟩
      have hpos := (logicalSeries_eq_some_iff.mp hv).1
      simp only [isKept, Bool.and_eq_true, decide_eq_true_iff]
      rw [htime, hvalue]
      exact ⟨hrange, hpos⟩
    have hne : prepared.filter (fun row' ↦ row'.key = row.key) ≠ [] :=
      List.ne_nil_of_mem (List.mem_filter.mpr ⟨hkeptRow, decide_eq_true rfl⟩)
    obtain ⟨last, hlast⟩ := Option.isSome_iff_exists.mp (List.getLast?_isSome.mpr hne)
    have hkey : last.key = row.key :=
      of_decide_eq_true (List.mem_filter.mp (List.mem_of_getLast? hlast)).2
    refine ⟨last, mem_sortBy.mpr ((hmem last).mpr ?_), ?_⟩
    · rw [hkey]
      exact hlast
    · rw [← htime]
      exact congrArg Prod.snd hkey

end Merge

end UkAqOps.StationHistory

import UkAqOps.Aqi.Publication
import UkAqOps.Lib.Except

/-!
# The members of a logical series

`src/workers/uk_aq_station_history/src/continuity.mjs`: a binding names the timeseries that one after
the other recorded the same site, each valid from one day to another. A range of time is split into
segments, one for each member that is valid in it.

A validated continuity has members that follow each other without overlap, so at most one of them is
valid at an instant, and looking an instant up in the segments of a range finds that member whatever
the range is.
-/

namespace UkAqOps

/-! ## The host -/

/-- What the requests and bindings are read with: `Number(text)` where that is an integer, and the
case mappings. -/
structure WebHost extends Aqi.Host where
  number : String → Option ℤ
  toUpperCase : String → String
  toLowerCase : String → String

namespace StationHistory

open Aqi Sorting

/-! ## Bindings -/

/-- A member as a binding lists it. -/
structure RawMember where
  stationId : Option ℤ
  timeseriesId : Option ℤ
  validFromDayUtc : String
  validToDayUtc : Option String

structure RawContinuity where
  schemaVersion : Option ℤ
  source : String
  pollutantCode : String
  continuityKey : String
  siteRef : String
  ukAirRef : String
  members : List RawMember

structure Binding where
  schemaVersion : Option ℤ
  historyVersion : String
  indexKind : String
  timeseriesId : Option ℤ
  connectorId : Option ℤ
  stationId : Option ℤ
  pollutantCode : String
  continuity : Option RawContinuity

/-- A timeseries of the logical series, with its first and last day. -/
structure Member where
  stationId : ℤ
  timeseriesId : ℤ
  connectorId : ℤ
  pollutant : Pollutant
  validFromDayUtc : Option ℤ
  validToDayUtc : Option ℤ
deriving DecidableEq

structure Continuity where
  enabled : Bool
  pollutant : Pollutant
  members : List Member
deriving DecidableEq

structure Identity where
  timeseriesId : ℤ
  stationId : ℤ
  connectorId : ℤ
  pollutant : Pollutant
deriving DecidableEq

/-- `StationHistoryIdentityError`. -/
structure IdentityError where
  status : ℕ
  code : String
deriving DecidableEq

def continuityInvalid : IdentityError := ⟨422, "station_history_continuity_invalid"⟩
def continuityOverlap : IdentityError := ⟨422, "station_history_continuity_overlap"⟩
def bindingInvalid : IdentityError := ⟨422, "station_history_binding_invalid"⟩
def bindingTimeseriesMismatch : IdentityError := ⟨409, "station_history_binding_timeseries_mismatch"⟩
def connectorMismatch : IdentityError := ⟨409, "station_history_connector_mismatch"⟩
def pollutantMismatch : IdentityError := ⟨409, "station_history_pollutant_mismatch"⟩

def pollutantText : Pollutant → String
  | .no2 => "no2"
  | .pm25 => "pm25"
  | .pm10 => "pm10"

/-- `isoDay`: a calendar day in its own notation. -/
def isoDayOf (value : String) : Option ℤ := parseIsoDay (trimText value)

/-- The last day of a member, which may be open. -/
def readLastDay : Option String → Option (Option ℤ)
  | none => some none
  | some day => (isoDayOf day).map some

/-- One turn of the loop over the members. Days in this notation compare as their texts do. -/
def readMember (connectorId : ℤ) (pollutant : Pollutant) (raw : RawMember) :
    Except IdentityError Member := do
  let some stationId := toPositiveIntOrNull raw.stationId | throw continuityInvalid
  let some timeseriesId := toPositiveIntOrNull raw.timeseriesId | throw continuityInvalid
  let some validFrom := isoDayOf raw.validFromDayUtc | throw continuityInvalid
  let some validTo := readLastDay raw.validToDayUtc | throw continuityInvalid
  Except.refuseIf (validTo.any (· < validFrom)) continuityInvalid
  return {
    stationId, timeseriesId, connectorId, pollutant
    validFromDayUtc := some validFrom
    validToDayUtc := validTo }

def compareMembers (host : WebHost) (left right : Member) : Ordering :=
  (host.localeCompare (isoDayChars (left.validFromDayUtc.getD 0))
    (isoDayChars (right.validFromDayUtc.getD 0))).then (compare left.timeseriesId right.timeseriesId)

/-- The next member starts after the last day of this one. -/
def Member.Precedes (previous next : Member) : Prop :=
  ∃ lastDay firstDay, previous.validToDayUtc = some lastDay ∧ next.validFromDayUtc = some firstDay ∧
    lastDay < firstDay

instance (previous next : Member) : Decidable (previous.Precedes next) :=
  match hto : previous.validToDayUtc, hfrom : next.validFromDayUtc with
  | some lastDay, some firstDay =>
    decidable_of_iff (lastDay < firstDay) ⟨fun h ↦ ⟨_, _, hto, hfrom, h⟩, fun ⟨_, _, hl, hf, h⟩ ↦ by
      rw [hto] at hl
      rw [hfrom] at hf
      cases hl
      cases hf
      exact h⟩
  | none, _ => isFalse fun ⟨_, _, h, _⟩ ↦ by rw [hto] at h; cases h
  | _, none => isFalse fun ⟨_, _, _, h, _⟩ ↦ by rw [hfrom] at h; cases h

def validateContinuity (host : WebHost) (binding : Binding) : Except IdentityError Continuity := do
  let some section_ := binding.continuity | throw continuityInvalid
  Except.refuseIf (section_.schemaVersion ≠ some 1 ∨
    section_.source ≠ "sos_station_timeseries_site_refs") continuityInvalid
  let some pollutant := normalizePollutantCode section_.pollutantCode | throw continuityInvalid
  let some connectorId := toPositiveIntOrNull binding.connectorId | throw continuityInvalid
  let ukAirRef := host.toUpperCase (trimText section_.ukAirRef)
  let expectedKey := s!"{connectorId}:{ukAirRef}:{pollutantText pollutant}"
  Except.refuseIf (pollutantText pollutant ≠ binding.pollutantCode ∨
    trimText section_.continuityKey ≠ expectedKey ∨ trimText section_.siteRef = "" ∨
    section_.members.length < 2) continuityInvalid
  let members ← section_.members.mapM (readMember connectorId pollutant)
  Except.refuseIf (¬(members.map Member.timeseriesId).Nodup) continuityInvalid
  let members := sortBy (compareMembers host) members
  Except.refuseIf (¬members.IsChain Member.Precedes) continuityOverlap
  Except.refuseIf (1 < members.countP (fun member ↦ member.validToDayUtc.isNone) ∨
    members.countP (fun member ↦
      some member.timeseriesId = toPositiveIntOrNull binding.timeseriesId) ≠ 1) continuityInvalid
  return { enabled := true, pollutant, members }

/-- The request that a binding was looked up for. -/
structure Lookup where
  timeseriesId : Option ℤ
  connectorId : Option ℤ
  pollutant : Option Pollutant

def validateTimeseriesBinding (host : WebHost) (binding : Binding) (request : Lookup) :
    Except IdentityError (Continuity × Identity) := do
  let some timeseriesId := toPositiveIntOrNull binding.timeseriesId | throw bindingInvalid
  let some connectorId := toPositiveIntOrNull binding.connectorId | throw bindingInvalid
  let some stationId := toPositiveIntOrNull binding.stationId | throw bindingInvalid
  let some pollutant := normalizePollutantCode binding.pollutantCode | throw bindingInvalid
  Except.refuseIf ((binding.schemaVersion ≠ some 1 ∧ binding.schemaVersion ≠ some 2) ∨
    binding.historyVersion ≠ "v2" ∨ binding.indexKind ≠ "timeseries_binding") bindingInvalid
  Except.refuseIf (some timeseriesId ≠ request.timeseriesId) bindingTimeseriesMismatch
  Except.refuseIf (request.connectorId.isSome ∧ some connectorId ≠ request.connectorId)
    connectorMismatch
  Except.refuseIf (some pollutant ≠ request.pollutant) pollutantMismatch
  let identity : Identity := { timeseriesId, stationId, connectorId, pollutant }
  if binding.schemaVersion = some 2 then
    return (← validateContinuity host binding, identity)
  else
    Except.refuseIf binding.continuity.isSome bindingInvalid
    return ({
      enabled := false, pollutant
      members := [{ stationId, timeseriesId, connectorId, pollutant
                    validFromDayUtc := none, validToDayUtc := none }] }, identity)

/-- The continuity of a timeseries alone. -/
def exactContinuity (identity : Identity) : Continuity :=
  { enabled := false
    pollutant := identity.pollutant
    members := [{
      stationId := identity.stationId, timeseriesId := identity.timeseriesId
      connectorId := identity.connectorId, pollutant := identity.pollutant
      validFromDayUtc := none, validToDayUtc := none }] }

/-! ## Segments -/

/-- `memberBounds(member).startMs`, `none` for minus infinity. -/
def Member.startMs (member : Member) : Option ℤ := member.validFromDayUtc.map (· * dayMs)

/-- `memberBounds(member).endMs`, `none` for infinity. -/
def Member.endMs (member : Member) : Option ℤ :=
  member.validFromDayUtc.bind fun _ ↦ member.validToDayUtc.map fun day ↦ day * dayMs + dayMs

structure Segment extends Member where
  startMs : ℤ
  endMs : ℤ

/-- The part of a range in which the member is valid. -/
def Member.segment (startMs endExclusiveMs : ℤ) (member : Member) : Option Segment :=
  let segmentStartMs := member.startMs.elim startMs (max startMs)
  let segmentEndMs := member.endMs.elim endExclusiveMs (min endExclusiveMs)
  if segmentStartMs < segmentEndMs then
    some { member with startMs := segmentStartMs, endMs := segmentEndMs }
  else none

def compareSegments (left right : Segment) : Ordering :=
  (compare left.startMs right.startMs).then (compare left.timeseriesId right.timeseriesId)

/-- The loop that collects the gaps: the cursor and the gaps so far. -/
def gapStep (state : ℤ × List (ℤ × ℤ)) (segment : Segment) : ℤ × List (ℤ × ℤ) :=
  (max state.1 segment.endMs,
    if state.1 < segment.startMs then state.2 ++ [(state.1, segment.startMs)] else state.2)

structure Selection where
  segments : List Segment
  gaps : List (ℤ × ℤ)

def selectContinuitySegments (continuity : Continuity) (startMs endExclusiveMs : ℤ) : Selection :=
  let segments := sortBy compareSegments
    (continuity.members.filterMap (Member.segment startMs endExclusiveMs))
  let (cursor, gaps) := segments.foldl gapStep (startMs, [])
  { segments
    gaps := if cursor < endExclusiveMs then gaps ++ [(cursor, endExclusiveMs)] else gaps }

/-- `memberAt` of `calculated_history.mjs`. -/
def memberAt (timestampMs : ℤ) : List Segment → Option Segment
  | [] => none
  | segment :: rest =>
    if timestampMs < segment.startMs then none
    else if timestampMs < segment.endMs then some segment
    else memberAt timestampMs rest

/-! ## Validated continuities -/

/-- A last day comes with a first day that is not after it. -/
def Member.Dated (member : Member) : Prop :=
  ∀ lastDay ∈ member.validToDayUtc, ∃ firstDay ∈ member.validFromDayUtc, firstDay ≤ lastDay

/-- What a validated continuity guarantees: positive ids, and members that follow each other. -/
structure Continuity.Valid (continuity : Continuity) : Prop where
  ids : ∀ member ∈ continuity.members,
    0 < member.timeseriesId ∧ 0 < member.stationId ∧ 0 < member.connectorId
  pollutant : ∀ member ∈ continuity.members, member.pollutant = continuity.pollutant
  days : ∀ member ∈ continuity.members, member.Dated
  apart : continuity.members.Pairwise Member.Precedes

theorem toPositiveIntOrNull_eq_some_iff {value : Option ℤ} {id : ℤ} :
    toPositiveIntOrNull value = some id ↔ value = some id ∧ 0 < id := by
  rw [toPositiveIntOrNull, Option.filter_eq_some_iff, decide_eq_true_iff]

theorem readMember_spec {connectorId : ℤ} {pollutant : Pollutant} {raw : RawMember}
    {member : Member} (h : readMember connectorId pollutant raw = .ok member) :
    0 < member.timeseriesId ∧ 0 < member.stationId ∧ member.connectorId = connectorId ∧
      member.pollutant = pollutant ∧ member.Dated := by
  rw [readMember] at h
  rcases hstation : toPositiveIntOrNull raw.stationId with _ | stationId
  · rw [hstation] at h
    cases h
  rcases htimeseries : toPositiveIntOrNull raw.timeseriesId with _ | timeseriesId
  · rw [hstation, htimeseries] at h
    cases h
  rcases hfrom : isoDayOf raw.validFromDayUtc with _ | validFrom
  · rw [hstation, htimeseries, hfrom] at h
    cases h
  rcases hto : readLastDay raw.validToDayUtc with _ | validTo
  · rw [hstation, htimeseries, hfrom, hto] at h
    cases h
  rw [hstation, htimeseries, hfrom, hto] at h
  obtain ⟨_, hdays, h⟩ := Except.bind_eq_ok_iff.mp h
  rw [← Except.pure_eq_ok_iff.mp h]
  rw [Except.refuseIf_eq_ok_iff] at hdays
  refine ⟨(toPositiveIntOrNull_eq_some_iff.mp htimeseries).2,
    (toPositiveIntOrNull_eq_some_iff.mp hstation).2, rfl, rfl, ?_⟩
  intro lastDay (hlast : validTo = some lastDay)
  rw [hlast, Option.any_some, decide_eq_true_iff] at hdays
  exact ⟨validFrom, rfl, not_lt.mp hdays⟩

/-- A member that starts on a day precedes whatever its successors precede. -/
theorem Member.Precedes.trans {a b c : Member} (hab : a.Precedes b) (hbc : b.Precedes c)
    (hb : b.Dated) : a.Precedes c := by
  obtain ⟨lastA, firstB, ha, hfirst, hlt⟩ := hab
  obtain ⟨lastB, firstC, hlast, hc, hlt'⟩ := hbc
  obtain ⟨firstDay, hday, hle⟩ := hb lastB hlast
  have hsame : firstDay = firstB := Option.some.inj (hday.symm.trans hfirst)
  exact ⟨lastA, firstC, ha, hc, by omega⟩

theorem pairwise_of_isChain {members : List Member}
    (hdays : ∀ member ∈ members, member.Dated)
    (h : members.IsChain Member.Precedes) : members.Pairwise Member.Precedes := by
  induction members with
  | nil => exact List.Pairwise.nil
  | cons first rest ih =>
    have hrest := ih (fun member hmember ↦ hdays member (List.mem_cons_of_mem _ hmember))
      (List.isChain_of_isChain_cons h)
    rw [List.pairwise_cons]
    refine ⟨fun member hmember ↦ ?_, hrest⟩
    rcases rest with _ | ⟨second, rest⟩
    · exact absurd hmember List.not_mem_nil
    · have hnext := (List.isChain_cons_cons.mp h).1
      rcases List.mem_cons.mp hmember with rfl | hlater
      · exact hnext
      · exact hnext.trans (List.rel_of_pairwise_cons hrest hlater) (hdays second (by simp))

section Validation

variable {host : WebHost} {binding : Binding} {request : Lookup} {continuity : Continuity}
variable {identity : Identity}

theorem valid_of_validateContinuity (h : validateContinuity host binding = .ok continuity) :
    continuity.Valid ∧ some continuity.pollutant = (do
      let section_ ← binding.continuity
      normalizePollutantCode section_.pollutantCode) ∧
      pollutantText continuity.pollutant = binding.pollutantCode := by
  rw [validateContinuity] at h
  rcases hsection : binding.continuity with _ | section_
  · rw [hsection] at h
    cases h
  rw [hsection] at h
  obtain ⟨_, -, h⟩ := Except.bind_eq_ok_iff.mp h
  rcases hpollutant : normalizePollutantCode section_.pollutantCode with _ | pollutant
  · rw [hpollutant] at h
    cases h
  rw [hpollutant] at h
  rcases hconnector : toPositiveIntOrNull binding.connectorId with _ | connectorId
  · rw [hconnector] at h
    cases h
  rw [hconnector] at h
  obtain ⟨_, hfields, h⟩ := Except.bind_eq_ok_iff.mp h
  obtain ⟨members, hmembers, h⟩ := Except.bind_eq_ok_iff.mp h
  obtain ⟨_, -, h⟩ := Except.bind_eq_ok_iff.mp h
  obtain ⟨_, hchain, h⟩ := Except.bind_eq_ok_iff.mp h
  obtain ⟨_, -, h⟩ := Except.bind_eq_ok_iff.mp h
  rw [← Except.pure_eq_ok_iff.mp h]
  rw [Except.refuseIf_eq_ok_iff, not_not] at hchain
  rw [Except.refuseIf_eq_ok_iff] at hfields
  have hread : ∀ member ∈ sortBy (compareMembers host) members, ∃ raw,
      readMember connectorId pollutant raw = .ok member := by
    intro member hmember
    rw [mem_sortBy] at hmember
    obtain ⟨raw, -, hraw⟩ := Except.exists_input_of_mem hmembers hmember
    exact ⟨raw, hraw⟩
  have hdays : ∀ member ∈ sortBy (compareMembers host) members, member.Dated := by
    intro member hmember
    obtain ⟨raw, hraw⟩ := hread member hmember
    exact (readMember_spec hraw).2.2.2.2
  refine ⟨⟨fun member hmember ↦ ?_, fun member hmember ↦ ?_, hdays,
    pairwise_of_isChain hdays hchain⟩, ?_, ?_⟩
  · obtain ⟨raw, hraw⟩ := hread member hmember
    obtain ⟨htimeseries, hstation, hid, -⟩ := readMember_spec hraw
    rw [hid]
    exact ⟨htimeseries, hstation, (toPositiveIntOrNull_eq_some_iff.mp hconnector).2⟩
  · obtain ⟨raw, hraw⟩ := hread member hmember
    exact (readMember_spec hraw).2.2.2.1
  · exact hpollutant.symm
  · by_contra hne
    exact hfields (Or.inl hne)

/-- What a validated binding guarantees about its identity. -/
structure Identity.Valid (identity : Identity) : Prop where
  timeseriesId : 0 < identity.timeseriesId
  stationId : 0 < identity.stationId
  connectorId : 0 < identity.connectorId

theorem exactContinuity_valid (h : identity.Valid) : (exactContinuity identity).Valid where
  ids member hmember := by
    rw [List.mem_singleton.mp hmember]
    exact ⟨h.timeseriesId, h.stationId, h.connectorId⟩
  pollutant member hmember := by rw [List.mem_singleton.mp hmember]; rfl
  days member hmember := by
    rw [List.mem_singleton.mp hmember]
    intro lastDay hlast
    cases hlast
  apart := List.pairwise_singleton _ _

theorem normalizePollutantCode_pollutantText (pollutant : Pollutant) :
    normalizePollutantCode (pollutantText pollutant) = some pollutant := by
  cases pollutant <;> decide

theorem valid_of_validateTimeseriesBinding {bound : Continuity × Identity}
    (h : validateTimeseriesBinding host binding request = .ok bound) :
    bound.1.Valid ∧ bound.2.Valid ∧ bound.1.pollutant = bound.2.pollutant := by
  rw [validateTimeseriesBinding] at h
  rcases htimeseries : toPositiveIntOrNull binding.timeseriesId with _ | timeseriesId
  · rw [htimeseries] at h
    cases h
  rcases hconnector : toPositiveIntOrNull binding.connectorId with _ | connectorId
  · rw [htimeseries, hconnector] at h
    cases h
  rcases hstation : toPositiveIntOrNull binding.stationId with _ | stationId
  · rw [htimeseries, hconnector, hstation] at h
    cases h
  rcases hpollutant : normalizePollutantCode binding.pollutantCode with _ | pollutant
  · rw [htimeseries, hconnector, hstation, hpollutant] at h
    cases h
  rw [htimeseries, hconnector, hstation, hpollutant] at h
  obtain ⟨_, -, h⟩ := Except.bind_eq_ok_iff.mp h
  obtain ⟨_, -, h⟩ := Except.bind_eq_ok_iff.mp h
  obtain ⟨_, -, h⟩ := Except.bind_eq_ok_iff.mp h
  obtain ⟨_, -, h⟩ := Except.bind_eq_ok_iff.mp h
  have hidentity : Identity.Valid ⟨timeseriesId, stationId, connectorId, pollutant⟩ :=
    ⟨(toPositiveIntOrNull_eq_some_iff.mp htimeseries).2,
      (toPositiveIntOrNull_eq_some_iff.mp hstation).2,
      (toPositiveIntOrNull_eq_some_iff.mp hconnector).2⟩
  by_cases hversion : binding.schemaVersion = some 2
  · rw [if_pos hversion] at h
    obtain ⟨continuity, hcontinuity, h⟩ := Except.bind_eq_ok_iff.mp h
    rw [← Except.pure_eq_ok_iff.mp h]
    obtain ⟨hvalid, -, htext⟩ := valid_of_validateContinuity hcontinuity
    refine ⟨hvalid, hidentity, ?_⟩
    rw [← htext, normalizePollutantCode_pollutantText] at hpollutant
    exact Option.some.inj hpollutant
  · rw [if_neg hversion] at h
    obtain ⟨_, -, h⟩ := Except.bind_eq_ok_iff.mp h
    rw [← Except.pure_eq_ok_iff.mp h]
    have hexact := exactContinuity_valid hidentity
    exact ⟨⟨hexact.ids, hexact.pollutant, hexact.days, hexact.apart⟩, hidentity, rfl⟩

end Validation

/-! ## Looking up an instant -/

/-- The member is valid at the instant. -/
def Member.covers (member : Member) (timestampMs : ℤ) : Bool :=
  member.startMs.all (· ≤ timestampMs) && member.endMs.all (timestampMs < ·)

/-- The member that is valid at the instant. -/
def Continuity.memberOn (continuity : Continuity) (timestampMs : ℤ) : Option Member :=
  continuity.members.find? fun member ↦ member.covers timestampMs

theorem Member.covers_iff {member : Member} {timestampMs : ℤ} :
    member.covers timestampMs = true ↔
      (∀ s ∈ member.startMs, s ≤ timestampMs) ∧ ∀ e ∈ member.endMs, timestampMs < e := by
  rw [Member.covers, Bool.and_eq_true]
  refine and_congr ?_ ?_
  · rcases member.startMs with _ | s <;> simp
  · rcases member.endMs with _ | e <;> simp

theorem Member.endMs_le_startMs {previous next : Member} (h : previous.Precedes next)
    {e s : ℤ} (he : previous.endMs = some e) (hs : next.startMs = some s) : e ≤ s := by
  obtain ⟨lastDay, firstDay, hto, hfrom, hlt⟩ := h
  rw [Member.endMs, Option.bind_eq_some_iff] at he
  obtain ⟨_, -, he⟩ := he
  rw [hto] at he
  rw [Member.startMs, hfrom] at hs
  rw [← Option.some.inj he, ← Option.some.inj hs]
  simp only [dayMs, hourMs, minuteMs]
  omega

section Segments

variable {continuity : Continuity} {startMs endExclusiveMs timestampMs : ℤ}

theorem Member.segment_eq_some_iff {member : Member} {segment : Segment} :
    member.segment startMs endExclusiveMs = some segment ↔
      segment.toMember = member ∧ segment.startMs = member.startMs.elim startMs (max startMs) ∧
        segment.endMs = member.endMs.elim endExclusiveMs (min endExclusiveMs) ∧
        segment.startMs < segment.endMs := by
  rw [Member.segment]
  constructor
  · intro h
    split at h
    · rename_i hlt
      rw [← Option.some.inj h]
      exact ⟨rfl, rfl, rfl, hlt⟩
    · cases h
  · rintro ⟨rfl, hstart, hend, hlt⟩
    rw [hstart, hend] at hlt
    rw [if_pos hlt, ← hstart, ← hend]

/-- A segment holds the instants of the range at which its member is valid. -/
theorem mem_segment_iff {member : Member} {segment : Segment}
    (h : member.segment startMs endExclusiveMs = some segment) :
    segment.startMs ≤ timestampMs ∧ timestampMs < segment.endMs ↔
      (startMs ≤ timestampMs ∧ timestampMs < endExclusiveMs) ∧
        member.covers timestampMs = true := by
  obtain ⟨-, hstart, hend, -⟩ := Member.segment_eq_some_iff.mp h
  rw [hstart, hend, Member.covers_iff]
  rcases member.startMs with _ | s <;> rcases member.endMs with _ | e <;> simp <;> omega

theorem exists_segment {member : Member} (hcovers : member.covers timestampMs = true)
    (hstart : startMs ≤ timestampMs) (hend : timestampMs < endExclusiveMs) :
    ∃ segment, member.segment startMs endExclusiveMs = some segment := by
  obtain ⟨hs, he⟩ := Member.covers_iff.mp hcovers
  refine ⟨⟨member, member.startMs.elim startMs (max startMs),
    member.endMs.elim endExclusiveMs (min endExclusiveMs)⟩,
    Member.segment_eq_some_iff.mpr ⟨rfl, rfl, rfl, ?_⟩⟩
  rcases hs' : member.startMs with _ | s <;> rcases he' : member.endMs with _ | e
  all_goals simp only [hs', he', Option.mem_def, Option.some.injEq, forall_eq'] at hs he
  all_goals simp only [Option.elim]
  all_goals omega

/-- The segments of the members in their order are apart, so they are sorted already. -/
theorem pairwise_segments (hvalid : continuity.Valid) :
    (continuity.members.filterMap (Member.segment startMs endExclusiveMs)).Pairwise
      fun s s' ↦ s.endMs ≤ s'.startMs := by
  refine List.Pairwise.filterMap _ (R := fun a b : Member ↦ a.Dated ∧ a.Precedes b) ?_ ?_
  · rintro a b ⟨hdated, hab⟩ s hs s' hs'
    obtain ⟨-, -, hend, -⟩ := Member.segment_eq_some_iff.mp hs
    obtain ⟨-, hstart, -, -⟩ := Member.segment_eq_some_iff.mp hs'
    obtain ⟨lastDay, firstDay, hto, hfrom, -⟩ := id hab
    obtain ⟨first, hfirst, -⟩ := hdated lastDay hto
    have ha : a.endMs = some (lastDay * dayMs + dayMs) := by
      rw [Member.endMs, Option.mem_def.mp hfirst, hto]
      rfl
    have hb : b.startMs = some (firstDay * dayMs) := by rw [Member.startMs, hfrom]; rfl
    have hle := Member.endMs_le_startMs hab ha hb
    rw [hend, hstart, ha, hb]
    simp only [Option.elim]
    omega
  · exact hvalid.apart.imp_of_mem fun ha _ hab ↦ ⟨hvalid.days _ ha, hab⟩

theorem segments_eq (hvalid : continuity.Valid) :
    (selectContinuitySegments continuity startMs endExclusiveMs).segments
      = continuity.members.filterMap (Member.segment startMs endExclusiveMs) := by
  have hlt : (continuity.members.filterMap (Member.segment startMs endExclusiveMs)).Pairwise
      fun s s' ↦ compareSegments s s' = .lt := by
    refine (pairwise_segments hvalid).imp_of_mem fun {s s'} hs _ hle ↦ ?_
    obtain ⟨member, -, hmember⟩ := List.mem_filterMap.mp hs
    obtain ⟨-, -, -, hne⟩ := Member.segment_eq_some_iff.mp hmember
    rw [compareSegments, compare_lt_iff_lt.mpr (by omega : s.startMs < s'.startMs)]
    rfl
  have htrans : Std.TransCmp compareSegments :=
    transCmp_then (transCmp_on inferInstance Segment.startMs)
      (transCmp_on inferInstance fun segment : Segment ↦ segment.timeseriesId)
  exact sortBy_eq_of_mem_iff (hlt.imp fun h heq ↦ by rw [h] at heq; cases heq) hlt fun _ ↦ Iff.rfl

/-- In segments that are apart, the loop finds the one that holds the instant. -/
theorem memberAt_eq_find {segments : List Segment}
    (happart : segments.Pairwise fun s s' ↦ s.endMs ≤ s'.startMs)
    (hne : ∀ segment ∈ segments, segment.startMs < segment.endMs) :
    memberAt timestampMs segments
      = segments.find? fun s ↦ s.startMs ≤ timestampMs && timestampMs < s.endMs := by
  induction segments with
  | nil => rfl
  | cons segment rest ih =>
    rw [List.pairwise_cons] at happart
    rw [memberAt]
    by_cases hbefore : timestampMs < segment.startMs
    · -- the segments after it start later still
      rw [if_pos hbefore, eq_comm, List.find?_eq_none]
      intro s hs
      have hle : segment.startMs ≤ s.startMs := by
        rcases List.mem_cons.mp hs with rfl | hrest
        · exact le_rfl
        · have hgap := happart.1 s hrest
          have hlt := hne segment List.mem_cons_self
          omega
      simp only [Bool.and_eq_true, decide_eq_true_iff, not_and]
      intro hstart
      omega
    · rw [if_neg hbefore, List.find?_cons, decide_eq_true (not_lt.mp hbefore), Bool.true_and]
      by_cases hend : timestampMs < segment.endMs
      · rw [if_pos hend, decide_eq_true hend]
      · rw [if_neg hend, decide_eq_false hend,
          ih happart.2 fun s hs ↦ hne s (List.mem_cons_of_mem _ hs)]

/-- **Looking an instant up does not depend on the range** that the segments were selected for. -/
theorem memberAt_selectContinuitySegments (hvalid : continuity.Valid)
    (hstart : startMs ≤ timestampMs) (hend : timestampMs < endExclusiveMs) :
    (memberAt timestampMs (selectContinuitySegments continuity startMs endExclusiveMs).segments).map
      Segment.toMember = continuity.memberOn timestampMs := by
  have hspec : ∀ segment ∈ continuity.members.filterMap (Member.segment startMs endExclusiveMs),
      segment.startMs < segment.endMs := by
    intro segment hsegment
    obtain ⟨member, -, hmember⟩ := List.mem_filterMap.mp hsegment
    exact (Member.segment_eq_some_iff.mp hmember).2.2.2
  rw [segments_eq hvalid, memberAt_eq_find (pairwise_segments hvalid) hspec, Continuity.memberOn]
  clear hspec
  induction continuity.members with
  | nil => rfl
  | cons member rest ih =>
    rw [List.find?_cons]
    by_cases hcovers : member.covers timestampMs = true
    · obtain ⟨segment, hsegment⟩ := exists_segment hcovers hstart hend
      obtain ⟨hmember, -⟩ := Member.segment_eq_some_iff.mp hsegment
      obtain ⟨hs, he⟩ := (mem_segment_iff hsegment).mpr ⟨⟨hstart, hend⟩, hcovers⟩
      rw [hcovers, List.filterMap_cons_some hsegment, List.find?_cons, decide_eq_true hs,
        decide_eq_true he, Bool.true_and, Option.map_some, hmember]
    · rw [Bool.not_eq_true] at hcovers
      rw [hcovers, ← ih]
      rcases hsegment : member.segment startMs endExclusiveMs with _ | segment
      · rw [List.filterMap_cons_none hsegment]
      · rw [List.filterMap_cons_some hsegment, List.find?_cons]
        have hout : (decide (segment.startMs ≤ timestampMs) &&
            decide (timestampMs < segment.endMs)) = false := by
          rw [← Bool.not_eq_true, Bool.and_eq_true, decide_eq_true_iff, decide_eq_true_iff,
            mem_segment_iff hsegment, hcovers]
          exact fun h ↦ Bool.false_ne_true h.2
        rw [hout]

end Segments

end StationHistory

end UkAqOps

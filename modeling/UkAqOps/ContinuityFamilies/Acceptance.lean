import UkAqOps.ContinuityFamilies.Payload

/-!
# The station history accepts the payloads

A payload that names a published family passes every check of `validateTimeseriesBinding`, and the
continuity that it gives has the members of the family in their order.
-/

namespace UkAqOps.ContinuityFamilies

open PruneAudit (DayUtc trimText_day)
open Sorting StationHistory Aqi

section Reading

variable {host : WebHost} (hhost : LawfulHost host)

include hhost in
/-- A normalised binding is normalised to itself. -/
theorem normalizeBinding_raw {binding : AuthoritativeBinding} (h : binding.Normal) :
    normalizeAuthoritativeTimeseriesBinding host (some binding.raw) = some binding := by
  have hids : ∀ {id : Option ℤ}, (∀ value ∈ id, 0 < value) →
      truthyId (id.map fun value ↦ (value : ℚ)) = id := by
    rintro (_ | id) hid
    · rfl
    · exact truthyId_intCast (hid id rfl)
  have hcode : normalizeObservationPropertyCode host binding.pollutantCode =
      some binding.pollutantCode := by
    rw [normalizeObservationPropertyCode, trimText_propertyCode h.pollutantCode,
      hhost.toLowerCase_code _ h.pollutantCode, if_pos h.pollutantCode]
  rw [normalizeAuthoritativeTimeseriesBinding, AuthoritativeBinding.raw, Option.bind_eq_bind,
    Option.bind_some]
  dsimp only
  rw [truthyId_intCast h.timeseriesId, truthyId_intCast h.connectorId, hcode, hids h.stationId,
    hids h.phenomenonId, hids h.observedPropertyId]
  rfl

theorem isoDayOf_day (day : DayUtc) : isoDayOf day.val = some day.number := by
  rw [isoDayOf, trimText_day]
  exact (Option.some_get day.property).symm

theorem readLastDay_day (day : Option DayUtc) :
    readLastDay (day.map Subtype.val) = some (day.map DayUtc.number) := by
  rcases day with _ | day
  · rfl
  · rw [Option.map_some, readLastDay, isoDayOf_day]
    rfl

theorem toPositiveIntOrNull_of_pos {id : ℤ} (h : 0 < id) : toPositiveIntOrNull (some id) = some id :=
  toPositiveIntOrNull_eq_some_iff.mpr ⟨rfl, h⟩

/-- A member of a family is read as what it is. -/
theorem readMember_read {connectorId : ℤ} {pollutant : Pollutant} {row : ContinuityRow}
    (h : row.Normal host) :
    readMember connectorId pollutant row.member.read =
      .ok (row.member.toMember connectorId pollutant) := by
  have hdays : ¬((row.validToDayUtc.map DayUtc.number).any
      (· < row.validFromDayUtc.number)) = true := by
    rw [Option.any_eq_true]
    rintro ⟨day, hday, hlt⟩
    exact absurd (row.span.first_le day hday) (not_le.mpr (of_decide_eq_true hlt))
  rw [readMember, ContinuityRow.member, FamilyMember.read]
  dsimp only
  rw [toPositiveIntOrNull_of_pos h.stationId, toPositiveIntOrNull_of_pos h.timeseriesId,
    isoDayOf_day, readLastDay_day]
  dsimp only
  rw [Except.refuseIf_neg hdays]
  rfl

/-- The references of a member are read as they are. -/
theorem readRef_eq {ref : Option String} (h : ∀ value ∈ ref, trimText value = value ∧ value ≠ "") :
    readRef ref = ref := by
  rcases ref with _ | value
  · rfl
  · obtain ⟨htrim, hne⟩ := h value rfl
    exact stableRef_of_trimText htrim hne

include hhost in
/-- Members in the order of their days are sorted. -/
theorem sortBy_compareMembers {connectorId : ℤ} {pollutant : Pollutant} {rows : List ContinuityRow}
    (h : rows.Pairwise fun row next ↦ row.span.Before next.span) :
    sortBy (compareMembers host)
        (rows.map fun row ↦ row.member.toMember connectorId pollutant) =
      rows.map fun row ↦ row.member.toMember connectorId pollutant := by
  refine List.Pairwise.insertionSort_eq ?_
  rw [List.pairwise_map]
  refine h.imp fun {row next} hbefore ↦ ?_
  have hlt : row.validFromDayUtc.number < next.validFromDayUtc.number := hbefore.first_lt
  rw [compareMembers]
  change ((host.localeCompare (isoDayChars row.validFromDayUtc.number)
    (isoDayChars next.validFromDayUtc.number)).then _).isLE = true
  rw [hhost.localeCompare_days _ _ row.validFromDayUtc.isoDay_number.2
    next.validFromDayUtc.isoDay_number.2, compare_lt_iff_lt.mpr hlt]
  rfl

theorem precedes_of_before {connectorId : ℤ} {pollutant : Pollutant} {row next : ContinuityRow}
    (h : row.span.Before next.span) :
    (row.member.toMember connectorId pollutant).Precedes
      (next.member.toMember connectorId pollutant) := by
  obtain ⟨lastDay, hlast, hlt⟩ := h
  exact ⟨lastDay, next.validFromDayUtc.number, hlast, rfl, hlt⟩

end Reading

/-! ## Validation -/

section Validation

variable {host : WebHost} (hhost : LawfulHost host) {authoritative : Authoritative}
variable {rows : List ContinuityRow} {familyKey : String} {family : Family}

include hhost in
/-- **The continuity of a published family is valid.** -/
theorem validateContinuity_family (hnormal : ∀ row ∈ rows, row.Normal host)
    (hsound : Sound authoritative rows familyKey)
    (hfamily : familyOf host (familyKey, familyRows rows familyKey) = some family)
    {row : ContinuityRow} (hrow : row ∈ familyRows rows familyKey) {pollutant : Pollutant}
    (hpollutant : family.pollutantCode = pollutantText pollutant) {binding : Binding}
    (hcontinuity : binding.continuity = some family.read)
    (hconnector : binding.connectorId = some row.connectorId)
    (htimeseries : binding.timeseriesId = some row.timeseriesId)
    (hcode : binding.pollutantCode = family.pollutantCode) :
    validateContinuity host binding = .ok {
      enabled := true, pollutant
      members := family.members.map (FamilyMember.toMember row.connectorId pollutant) } := by
  obtain ⟨first, hfirst, rfl⟩ := Option.map_eq_some_iff.mp hfamily
  set sorted := sortBy (compareRows host) (familyRows rows familyKey) with hsorted
  have hperm : sorted.Perm (familyRows rows familyKey) := sortBy_perm _
  have hmem : ∀ {r}, r ∈ sorted → r ∈ familyRows rows familyKey := fun hr ↦ hperm.mem_iff.mp hr
  have hrows : ∀ {r}, r ∈ familyRows rows familyKey → r ∈ rows := fun hr ↦
    (mem_familyRows.mp hr).1
  have hfirstMem := hmem (List.mem_of_mem_head? (Option.mem_def.mpr hfirst))
  have hfirstNormal := hnormal first (hrows hfirstMem)
  have hrowNormal := hnormal row (hrows hrow)
  obtain ⟨hsameConnector, -, -⟩ := hfirstNormal.eq_of_key hrowNormal
    ((mem_familyRows.mp hfirstMem).2.trans (mem_familyRows.mp hrow).2.symm)
  have hbefore : sorted.Pairwise fun r next ↦ r.span.Before next.span :=
    Span.pairwise_before_of_isChain ((isChain_sortBy_iff hhost _).mpr hsound.disjoint)
  have hmembers : (sorted.map ContinuityRow.member).map
      (FamilyMember.toMember row.connectorId pollutant) =
      sorted.map fun r ↦ r.member.toMember row.connectorId pollutant := by
    rw [List.map_map]
    rfl
  have hread : ((sorted.map ContinuityRow.member).map FamilyMember.read).mapM
      (readMember row.connectorId pollutant) =
      .ok (sorted.map fun r ↦ r.member.toMember row.connectorId pollutant) := by
    rw [Except.mapM_eq_ok_iff, List.map_map, List.forall₂_map_left_iff, List.forall₂_map_right_iff,
      List.forall₂_same]
    exact fun r hr ↦ readMember_read (hnormal r (hrows (hmem hr)))
  have hdistinct : ((sorted.map fun r ↦ r.member.toMember row.connectorId pollutant).map
      Member.timeseriesId).Nodup := by
    rw [List.map_map]
    exact (hperm.map ContinuityRow.timeseriesId).nodup_iff.mpr hsound.distinct
  have hupper : host.toUpperCase (trimText first.ukAirRef) = first.ukAirRef := by
    obtain ⟨text, htext, huk⟩ := hfirstNormal.ukAirRef
    rw [huk, hhost.trimText_toUpperCase text htext, hhost.toUpperCase_toUpperCase]
  have hkey : trimText familyKey = s!"{row.connectorId}:{first.ukAirRef}:{pollutantText pollutant}" := by
    have hfirstCode : first.pollutantCode = pollutantText pollutant := hpollutant
    rw [← (mem_familyRows.mp hfirstMem).2, hfirstNormal.trimmedKey, hfirstNormal.continuityKey,
      hsameConnector, hfirstCode]
  have hsite : trimText first.siteRef ≠ "" := by
    obtain ⟨hne, text, htext, hupperSite⟩ := hfirstNormal.siteRef
    rw [hupperSite, hhost.trimText_toUpperCase text htext, ← hupperSite]
    exact hne
  have hlength : ¬((sorted.map ContinuityRow.member).map FamilyMember.read).length < 2 := by
    rw [List.length_map, List.length_map, hperm.length_eq]
    exact not_lt.mpr hsound.two
  have hchain : (sorted.map fun r ↦ r.member.toMember row.connectorId pollutant).IsChain
      Member.Precedes := by
    rw [List.isChain_map]
    exact (hbefore.imp fun h ↦ precedes_of_before h).isChain
  have hopen : ((sorted.map fun r ↦ r.member.toMember row.connectorId pollutant).countP
      fun member ↦ member.validToDayUtc.isNone) ≤ 1 := by
    rw [List.countP_map]
    exact Span.countP_endless_le hbefore
  have hown : ((sorted.map fun r ↦ r.member.toMember row.connectorId pollutant).countP
      fun member ↦ some member.timeseriesId = toPositiveIntOrNull binding.timeseriesId) = 1 := by
    rw [htimeseries, toPositiveIntOrNull_of_pos hrowNormal.timeseriesId, List.countP_map]
    have hcount := List.count_eq_one_of_mem
      ((hperm.map ContinuityRow.timeseriesId).nodup_iff.mpr hsound.distinct)
      (List.mem_map_of_mem (f := ContinuityRow.timeseriesId) (hperm.mem_iff.mpr hrow))
    rw [List.count, List.countP_map] at hcount
    rw [← hcount]
    refine List.countP_congr fun r _ ↦ ?_
    simp [FamilyMember.toMember, ContinuityRow.member]
  rw [validateContinuity, hcontinuity]
  dsimp only [Family.read, continuityOf]
  rw [Except.refuseIf_neg (by simp), Except.ok_bind]
  have hnormalize : normalizePollutantCode first.pollutantCode = some pollutant := by
    rw [show first.pollutantCode = pollutantText pollutant from hpollutant]
    exact normalizePollutantCode_pollutantText pollutant
  rw [hnormalize, hconnector, toPositiveIntOrNull_of_pos hrowNormal.connectorId]
  dsimp only
  rw [hupper, Except.refuseIf_neg, Except.ok_bind, hread, Except.ok_bind,
    Except.refuseIf_neg (not_not.mpr hdistinct), Except.ok_bind, sortBy_compareMembers hhost hbefore,
    Except.refuseIf_neg (not_not.mpr hchain), Except.ok_bind,
    Except.refuseIf_neg (not_or.mpr ⟨not_lt.mpr hopen, not_not.mpr hown⟩), Except.ok_bind,
    hmembers]
  · rfl
  · simp only [not_or, not_not]
    exact ⟨(hcode.trans hpollutant).symm, hkey, hsite, hlength⟩

end Validation

/-! ## Acceptance -/

/-- The station history accepts what is written for a timeseries with its family: for every request
for the timeseries it gives the members of the family in their order, with their references. -/
structure Accepts (host : WebHost) (binding : AuthoritativeBinding) (family : Family)
    (pollutant : Pollutant) : Prop where
  validates : ∃ payload, buildHistoryV2TimeseriesBindingPayload host (some binding.raw)
      (some family) = .ok payload ∧ ∀ request : Lookup,
        request.timeseriesId = some binding.timeseriesId →
        (∀ id ∈ request.connectorId, id = binding.connectorId) →
        request.pollutant = some pollutant →
        ∃ identity, validateTimeseriesBinding host payload.read request = .ok ({
          enabled := true, pollutant
          members := family.members.map
            (FamilyMember.toMember binding.connectorId pollutant) }, identity)
  refs : ∀ member ∈ family.members, readRef member.stationRef = member.stationRef ∧
    readRef member.timeseriesRef = member.timeseriesRef

section Acceptance

variable {host : WebHost} (hhost : LawfulHost host) {authoritative : Authoritative}

include hhost in
/-- **Every payload with a published family is accepted.** -/
theorem accepts_of_get? {continuityRows : List (Option RawContinuityRow)} {timeseriesId : ℤ}
    {family : Family} {binding : AuthoritativeBinding} {pollutant : Pollutant}
    (h : (buildHistoryV2TimeseriesContinuityFamilies host continuityRows
      authoritative).continuityByTimeseriesId.get? timeseriesId = some family)
    (hbinding : authoritative.byTimeseriesId.get? timeseriesId = some binding)
    (hpollutant : family.pollutantCode = pollutantText pollutant) :
    Accepts host binding family pollutant := by
  obtain ⟨key, hsound, hfamily, row, hrow, rfl⟩ := exists_familyOf_of_get? hhost h
  have hnormal := @normal_of_mem_filterMap host continuityRows
  have hpublished := published_of_familyOf hhost hnormal hsound hfamily hrow
  obtain ⟨hbindingId, hbindingNormal⟩ := authoritative.normal hbinding
  have hkey : key = family.continuityKey := by
    obtain ⟨first, -, rfl⟩ := Option.map_eq_some_iff.mp hfamily
    rfl
  obtain ⟨core, hcore, hconnector, hstation, hcode⟩ := hsound.agrees row hrow
  obtain rfl : core = binding := Option.some.inj (hcore.symm.trans hbinding)
  have hrowNormal := hnormal row (mem_familyRows.mp hrow).1
  have hrowCode : core.pollutantCode = family.pollutantCode :=
    hcode.trans (hpublished.refs row (hkey ▸ hrow)).2.2.symm
  let payload : BindingPayload := {
    schemaVersion := 2, historyVersion := "v2", indexKind := "timeseries_binding"
    timeseriesId := core.timeseriesId, connectorId := core.connectorId
    pollutantCode := core.pollutantCode, stationId := core.stationId
    phenomenonId := core.phenomenonId, observedPropertyId := core.observedPropertyId
    continuity := some family }
  have hpayload : buildHistoryV2TimeseriesBindingPayload host (some core.raw) (some family) =
      .ok payload := by
    rw [buildHistoryV2TimeseriesBindingPayload, normalizeBinding_raw hhost hbindingNormal]
    rfl
  refine ⟨⟨payload, hpayload, fun request hid hrequest hrequested ↦ ?_⟩, fun member hmember ↦ ?_⟩
  · have hvalid := fun binding hc hn ht hp ↦ @validateContinuity_family host hhost authoritative _
      key family hnormal hsound hfamily row hrow pollutant hpollutant binding hc hn ht hp
    refine ⟨⟨core.timeseriesId, row.stationId, core.connectorId, pollutant⟩, ?_⟩
    have hversion : ¬((payload.read.schemaVersion ≠ some 1 ∧ payload.read.schemaVersion ≠ some 2) ∨
        payload.read.historyVersion ≠ "v2" ∨ payload.read.indexKind ≠ "timeseries_binding") := by
      simp [payload, BindingPayload.read]
    have hsecond : payload.read.schemaVersion = some 2 := rfl
    have htimeseries : payload.read.timeseriesId = some core.timeseriesId := rfl
    have hconnectorId : payload.read.connectorId = some core.connectorId := rfl
    have hstationId : payload.read.stationId = some row.stationId := hstation
    have hpayloadCode : payload.read.pollutantCode = pollutantText pollutant :=
      hrowCode.trans hpollutant
    have hsameConnector : ¬(request.connectorId.isSome = true ∧
        some core.connectorId ≠ request.connectorId) := by
      rintro ⟨hsome, hne⟩
      obtain ⟨id, hidEq⟩ := Option.isSome_iff_exists.mp hsome
      rw [hidEq] at hne
      exact hne (congrArg some (hrequest id hidEq).symm)
    rw [validateTimeseriesBinding, htimeseries, hconnectorId, hstationId, hpayloadCode,
      toPositiveIntOrNull_of_pos hbindingNormal.timeseriesId,
      toPositiveIntOrNull_of_pos hbindingNormal.connectorId,
      toPositiveIntOrNull_of_pos hrowNormal.stationId, normalizePollutantCode_pollutantText]
    dsimp only
    rw [Except.refuseIf_neg hversion, Except.ok_bind,
      Except.refuseIf_neg (not_not.mpr hid.symm), Except.ok_bind,
      Except.refuseIf_neg hsameConnector, Except.ok_bind,
      Except.refuseIf_neg (not_not.mpr hrequested.symm), Except.ok_bind, if_pos hsecond,
      hvalid payload.read rfl (by rw [hconnectorId, hconnector]) (by rw [htimeseries, hbindingId])
        hrowCode, Except.ok_bind, hconnector]
    rfl
  · obtain ⟨other, hother, rfl⟩ := List.mem_map.mp (hpublished.members.mem_iff.mp hmember)
    have hotherNormal := hnormal other (mem_familyRows.mp hother).1
    exact ⟨readRef_eq hotherNormal.stationRef, readRef_eq hotherNormal.timeseriesRef⟩

end Acceptance

end UkAqOps.ContinuityFamilies

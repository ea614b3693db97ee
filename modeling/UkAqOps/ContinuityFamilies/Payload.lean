import UkAqOps.ContinuityFamilies.Publishing

/-!
# Bindings with their families

The authoritative bindings of a list, and the payload that is written for each of them. The station
history reads the payload in its own way: `validateTimeseriesBinding` accepts every payload with a
family and gives back the members of the family in their order.
-/

namespace UkAqOps.ContinuityFamilies

open PruneAudit (DayUtc trimText_day)
open Sorting StationHistory Aqi

/-! ## The authoritative bindings of a list -/

section Lists

variable {host : WebHost}

/-- A list that is given in place of a map: its last entry for a timeseries counts. -/
def authoritativeOf (host : WebHost) (bindings : List (Option RawAuthoritativeBinding)) :
    Authoritative where
  byTimeseriesId := OrderedMap.ofList
    ((bindings.filterMap (normalizeAuthoritativeTimeseriesBinding host)).map fun row ↦
      (row.timeseriesId, row))
  normal {id binding} h := by
    rw [OrderedMap.get?_ofList] at h
    obtain ⟨entry, hentry, rfl⟩ := Option.map_eq_some_iff.mp h
    have hmem := List.mem_reverse.mp (List.mem_of_find?_eq_some hentry)
    obtain ⟨row, hrow, rfl⟩ := List.mem_map.mp hmem
    obtain ⟨raw, -, hraw⟩ := List.mem_filterMap.mp hrow
    exact ⟨by simpa using List.find?_some hentry, normal_of_normalizeBinding hraw⟩

/-- The loop of `reconcileR2HistoryV2TimeseriesBindings` over the list. -/
structure Reconciling where
  authoritativeByTimeseriesId : OrderedMap ℤ AuthoritativeBinding
  conflictedTimeseriesIds : List ℤ
  invalidBindingCount : ℕ

/-- Two normalised bindings have one JSON text when they are equal. -/
def reconcileBinding (host : WebHost) (state : Reconciling) (raw : Option RawAuthoritativeBinding) :
    Reconciling :=
  match normalizeAuthoritativeTimeseriesBinding host raw with
  | none => { state with invalidBindingCount := state.invalidBindingCount + 1 }
  | some normalized =>
    let key := normalized.timeseriesId
    if key ∈ state.conflictedTimeseriesIds then
      { state with invalidBindingCount := state.invalidBindingCount + 1 }
    else
      match state.authoritativeByTimeseriesId.get? key with
      | some existing =>
        if existing ≠ normalized then
          { authoritativeByTimeseriesId := state.authoritativeByTimeseriesId.delete key
            conflictedTimeseriesIds := state.conflictedTimeseriesIds.insert key
            invalidBindingCount := state.invalidBindingCount + 1 }
        else state
      | none =>
        { state with
          authoritativeByTimeseriesId := state.authoritativeByTimeseriesId.set key normalized }

def reconcileBindings (host : WebHost) (bindings : List (Option RawAuthoritativeBinding)) :
    Reconciling :=
  bindings.foldl (reconcileBinding host) ⟨OrderedMap.empty, [], 0⟩

/-- What holds after the first bindings: a timeseries has a binding when its entries so far agree. -/
structure Reconciling.Upto (state : Reconciling) (rows : List AuthoritativeBinding) : Prop where
  agreed : ∀ {id binding}, state.authoritativeByTimeseriesId.get? id = some binding →
    binding ∈ rows ∧ binding.timeseriesId = id ∧ ∀ row ∈ rows, row.timeseriesId = id → row = binding
  kept : ∀ row ∈ rows, row.timeseriesId ∉ state.conflictedTimeseriesIds →
    state.authoritativeByTimeseriesId.get? row.timeseriesId = some row
  conflicted : ∀ id ∈ state.conflictedTimeseriesIds,
    ∃ row ∈ rows, ∃ other ∈ rows, row.timeseriesId = id ∧ other.timeseriesId = id ∧ row ≠ other

/-- One turn of the loop. -/
theorem Reconciling.Upto.step {state : Reconciling} {rows : List AuthoritativeBinding}
    (h : state.Upto rows) {raw : Option RawAuthoritativeBinding} :
    (reconcileBinding host state raw).Upto
      (rows ++ (normalizeAuthoritativeTimeseriesBinding host raw).toList) := by
  rw [reconcileBinding]
  rcases normalizeAuthoritativeTimeseriesBinding host raw with _ | normalized
  · rw [Option.toList_none, List.append_nil]
    exact ⟨h.agreed, h.kept, h.conflicted⟩
  have hnew : normalized ∈ rows ++ [normalized] := by simp
  have hold : ∀ {row}, row ∈ rows → row ∈ rows ++ [normalized] := fun hrow ↦
    List.mem_append_left _ hrow
  have hsplit : ∀ {row}, row ∈ rows ++ [normalized] → row ∈ rows ∨ row = normalized := fun hrow ↦
    (List.mem_append.mp hrow).imp_right List.mem_singleton.mp
  -- A binding of another timeseries says nothing about this one.
  have hother : ∀ {id binding}, id ≠ normalized.timeseriesId →
      state.authoritativeByTimeseriesId.get? id = some binding →
      binding ∈ rows ++ [normalized] ∧ binding.timeseriesId = id ∧
        ∀ row ∈ rows ++ [normalized], row.timeseriesId = id → row = binding := by
    intro id binding hne hget
    obtain ⟨hmem, hid, hall⟩ := h.agreed hget
    refine ⟨hold hmem, hid, fun row hrow hrowId ↦ ?_⟩
    rcases hsplit hrow with hrow | rfl
    · exact hall row hrow hrowId
    · exact absurd hrowId.symm hne
  have hconflicts : ∀ id ∈ state.conflictedTimeseriesIds, ∃ row ∈ rows ++ [normalized],
      ∃ other ∈ rows ++ [normalized], row.timeseriesId = id ∧ other.timeseriesId = id ∧
        row ≠ other := by
    intro id hid
    obtain ⟨row, hrow, other, hotherMem, hids⟩ := h.conflicted id hid
    exact ⟨row, hold hrow, other, hold hotherMem, hids⟩
  rw [Option.toList_some]
  dsimp only
  split
  · rename_i hconflicted
    refine ⟨fun {id binding} hget ↦ hother ?_ hget, fun row hrow hfree ↦ ?_, hconflicts⟩
    · rintro rfl
      obtain ⟨row, hrow, other, hotherMem, hrowId, hotherId, hne⟩ := h.conflicted _ hconflicted
      obtain ⟨-, -, hall⟩ := h.agreed hget
      exact hne ((hall row hrow hrowId).trans (hall other hotherMem hotherId).symm)
    · rcases hsplit hrow with hrow | rfl
      · exact h.kept row hrow hfree
      · exact absurd hconflicted hfree
  · rename_i hfree
    rcases hexisting : state.authoritativeByTimeseriesId.get? normalized.timeseriesId
      with _ | existing
    · refine ⟨fun {id binding} hget ↦ ?_, fun row hrow hfree ↦ ?_, hconflicts⟩
      · rw [OrderedMap.get?_set] at hget
        split at hget
        · rename_i hid
          obtain rfl := Option.some.inj hget
          refine ⟨hnew, hid.symm, fun row hrow hrowId ↦ ?_⟩
          rcases hsplit hrow with hrow | rfl
          · have hkept := h.kept row hrow (by rw [hrowId, hid]; exact hfree)
            rw [hrowId, hid, hexisting] at hkept
            cases hkept
          · rfl
        · rename_i hne
          exact hother hne hget
      · rw [OrderedMap.get?_set]
        rcases hsplit hrow with hrow | rfl
        · have hkept := h.kept row hrow hfree
          rw [if_neg (fun hid ↦ by rw [hid, hexisting] at hkept; cases hkept)]
          exact hkept
        · rw [if_pos rfl]
    · obtain ⟨hmem, hid, hall⟩ := h.agreed hexisting
      dsimp only
      split
      · rename_i hne
        refine ⟨fun {id binding} hget ↦ ?_, fun row hrow hin ↦ ?_, fun id hin ↦ ?_⟩
        · rw [OrderedMap.get?_delete] at hget
          split at hget
          · cases hget
          · rename_i hneId
            exact hother hneId hget
        · rw [List.mem_insert_iff, not_or] at hin
          rw [OrderedMap.get?_delete, if_neg hin.1]
          rcases hsplit hrow with hrow | rfl
          · exact h.kept row hrow hin.2
          · exact absurd rfl hin.1
        · rcases List.mem_insert_iff.mp hin with rfl | hin
          · exact ⟨existing, hold hmem, normalized, hnew, hid, rfl, hne⟩
          · exact hconflicts id hin
      · rename_i hsame
        obtain rfl : existing = normalized := not_not.mp hsame
        refine ⟨fun {id binding} hget ↦ ?_, fun row hrow hin ↦ ?_, hconflicts⟩
        · obtain ⟨hbinding, hbindingId, hagree⟩ := h.agreed hget
          refine ⟨hold hbinding, hbindingId, fun row hrow hrowId ↦ ?_⟩
          rcases hsplit hrow with hrow | rfl
          · exact hagree row hrow hrowId
          · exact hagree row hmem hrowId
        · rcases hsplit hrow with hrow | rfl
          · exact h.kept row hrow hin
          · exact hexisting

theorem upto_reconcileBindings (bindings : List (Option RawAuthoritativeBinding)) :
    (reconcileBindings host bindings).Upto
      (bindings.filterMap (normalizeAuthoritativeTimeseriesBinding host)) := by
  induction bindings using List.reverseRecOn with
  | nil =>
    refine ⟨fun {id binding} hget ↦ ?_, fun row hrow ↦ absurd hrow List.not_mem_nil,
      fun id hid ↦ absurd hid List.not_mem_nil⟩
    cases hget
  | append_singleton bindings raw ih =>
    rw [reconcileBindings, List.foldl_append, List.filterMap_append]
    have hone : [raw].filterMap (normalizeAuthoritativeTimeseriesBinding host) =
        (normalizeAuthoritativeTimeseriesBinding host raw).toList := by
      rw [List.filterMap_cons, List.filterMap_nil]
      rcases normalizeAuthoritativeTimeseriesBinding host raw with _ | normalized <;> rfl
    rw [hone]
    exact ih.step

/-- The map of the reconciliation. -/
def reconciledAuthoritative (host : WebHost) (bindings : List (Option RawAuthoritativeBinding)) :
    Authoritative where
  byTimeseriesId := (reconcileBindings host bindings).authoritativeByTimeseriesId
  normal {id binding} h := by
    obtain ⟨hmem, hid, -⟩ := (upto_reconcileBindings bindings).agreed h
    obtain ⟨raw, -, hraw⟩ := List.mem_filterMap.mp hmem
    exact ⟨hid, normal_of_normalizeBinding hraw⟩

end Lists

/-- What is given as `authoritativeByTimeseriesId`: a list, or the map that the reconciliation makes
of one. -/
inductive AuthoritativeInput where
  | list (bindings : List (Option RawAuthoritativeBinding))
  | reconciled (bindings : List (Option RawAuthoritativeBinding))

def AuthoritativeInput.authoritative (host : WebHost) : AuthoritativeInput → Authoritative
  | .list bindings => authoritativeOf host bindings
  | .reconciled bindings => reconciledAuthoritative host bindings

/-! ## Payloads -/

structure BindingPayload where
  schemaVersion : ℤ
  historyVersion : String
  indexKind : String
  timeseriesId : ℤ
  connectorId : ℤ
  pollutantCode : String
  stationId : Option ℤ
  phenomenonId : Option ℤ
  observedPropertyId : Option ℤ
  continuity : Option Family

/-- A binding comes with a family or without one. -/
def buildHistoryV2TimeseriesBindingPayload (host : WebHost)
    (binding : Option RawAuthoritativeBinding) (continuity : Option Family) :
    Except String BindingPayload :=
  match normalizeAuthoritativeTimeseriesBinding host binding with
  | none => .error "authoritative_timeseries_binding_invalid"
  | some normalized => .ok {
      schemaVersion := if continuity.isSome then 2 else 1
      historyVersion := "v2"
      indexKind := "timeseries_binding"
      timeseriesId := normalized.timeseriesId
      connectorId := normalized.connectorId
      pollutantCode := normalized.pollutantCode
      stationId := normalized.stationId
      phenomenonId := normalized.phenomenonId
      observedPropertyId := normalized.observedPropertyId
      continuity }

/-- A normalised binding as it is given to the payload. -/
def AuthoritativeBinding.raw (binding : AuthoritativeBinding) : RawAuthoritativeBinding where
  timeseriesId := some binding.timeseriesId
  connectorId := some binding.connectorId
  pollutantCode := binding.pollutantCode
  stationId := binding.stationId.map fun id ↦ (id : ℚ)
  phenomenonId := binding.phenomenonId.map fun id ↦ (id : ℚ)
  observedPropertyId := binding.observedPropertyId.map fun id ↦ (id : ℚ)

/-! ## What the station history reads -/

def FamilyMember.read (member : FamilyMember) : RawMember where
  stationId := some member.stationId
  timeseriesId := some member.timeseriesId
  validFromDayUtc := member.validFromDayUtc
  validToDayUtc := member.validToDayUtc.map Subtype.val

def Family.read (family : Family) : RawContinuity where
  schemaVersion := some family.schemaVersion
  source := family.source
  pollutantCode := family.pollutantCode
  continuityKey := family.continuityKey
  siteRef := family.siteRef
  ukAirRef := family.ukAirRef
  members := family.members.map FamilyMember.read

def BindingPayload.read (payload : BindingPayload) : Binding where
  schemaVersion := some payload.schemaVersion
  historyVersion := payload.historyVersion
  indexKind := payload.indexKind
  timeseriesId := some payload.timeseriesId
  connectorId := some payload.connectorId
  stationId := payload.stationId
  pollutantCode := payload.pollutantCode
  continuity := payload.continuity.map Family.read

/-- `required(ref) || null`. -/
def readRef (ref : Option String) : Option String := stableRef (ref.getD "")

/-- The member that the station history makes of one of a family. -/
def FamilyMember.toMember (connectorId : ℤ) (pollutant : Pollutant) (member : FamilyMember) :
    Member where
  stationId := member.stationId
  timeseriesId := member.timeseriesId
  connectorId := connectorId
  pollutant := pollutant
  validFromDayUtc := some member.validFromDayUtc.number
  validToDayUtc := member.validToDayUtc.map DayUtc.number

end UkAqOps.ContinuityFamilies

import UkAqOps.ContinuityFamilies.NormalRows
import UkAqOps.ContinuityFamilies.Soundness

/-!
# The pass over the families

The families are checked one after the other, and a family that passes is written under each of its
timeseries. The families that claim a timeseries of another one are refused before, so no write
replaces one of another family, and what is stored under a timeseries in the end is the sound family
that has it.
-/

namespace UkAqOps.ContinuityFamilies

open Sorting Claims

/-! ## Groups and claims -/

section Groups

variable {rows : List ContinuityRow} {familyKey : String}

theorem mem_groups {family : String × List ContinuityRow} :
    family ∈ (OrderedMap.groupBy ContinuityRow.continuityKey rows).entries ↔
      family.2 = familyRows rows family.1 ∧ family.2 ≠ [] := by
  rw [← OrderedMap.get?_eq_some_iff, OrderedMap.get?_groupBy, ← familyRows]
  constructor
  · intro h
    split at h
    · cases h
    · rename_i hne
      exact ⟨(Option.some.inj h).symm, Option.some.inj h ▸ hne⟩
  · rintro ⟨heq, hne⟩
    rw [← heq, if_neg hne]

theorem mem_claimsOf {timeseriesId : ℤ} :
    (familyKey, timeseriesId) ∈ claimsOf (OrderedMap.groupBy ContinuityRow.continuityKey rows) ↔
      ∃ row ∈ familyRows rows familyKey, row.timeseriesId = timeseriesId := by
  rw [claimsOf, List.mem_flatMap]
  constructor
  · rintro ⟨family, hfamily, hmem⟩
    obtain ⟨row, hrow, heq⟩ := List.mem_map.mp hmem
    obtain ⟨hkey, hid⟩ := Prod.mk.inj heq
    refine ⟨row, ?_, hid⟩
    rw [← hkey, ← (mem_groups.mp hfamily).1]
    exact hrow
  · rintro ⟨row, hrow, hid⟩
    refine ⟨(familyKey, familyRows rows familyKey),
      mem_groups.mpr ⟨rfl, List.ne_nil_of_mem hrow⟩, ?_⟩
    exact List.mem_map.mpr ⟨row, hrow, by rw [hid]⟩

/-- **The families refused for their claims are those with a timeseries of another family.** -/
theorem mem_contestants_iff' :
    familyKey ∈ (ledgerOf (claimsOf
      (OrderedMap.groupBy ContinuityRow.continuityKey rows))).contestants ↔
      ∃ row ∈ familyRows rows familyKey, ∃ other ∈ rows, other.timeseriesId = row.timeseriesId ∧
        other.continuityKey ≠ familyKey := by
  rw [mem_contestants_iff, IsContestant]
  simp only [mem_claimsOf]
  constructor
  · rintro ⟨_, otherKey, ⟨row, hrow, rfl⟩, ⟨other, hother, hid⟩, hne⟩
    obtain ⟨hmem, hkey⟩ := mem_familyRows.mp hother
    exact ⟨row, hrow, other, hmem, hid, by rw [hkey]; exact hne⟩
  · rintro ⟨row, hrow, other, hother, hid, hne⟩
    exact ⟨row.timeseriesId, other.continuityKey, ⟨row, hrow, rfl⟩,
      ⟨other, mem_familyRows.mpr ⟨hother, rfl⟩, hid⟩, hne⟩

end Groups

/-! ## The pass -/

/-- What is written of a family. -/
def familyOf (host : WebHost) (family : String × List ContinuityRow) : Option Family :=
  let rows := sortBy (compareRows host) family.2
  rows.head?.map fun first ↦ continuityOf family.1 first rows

/-- The family passes the checks. -/
structure Accepted (host : WebHost) (authoritative : Authoritative) (contestants : List String)
    (family : String × List ContinuityRow) : Prop where
  uncontested : family.1 ∉ contestants
  valid : IsValidFamily authoritative (sortBy (compareRows host) family.2)
  two : 2 ≤ family.2.length

theorem get?_foldl_set_const {rows : List ContinuityRow} {families : OrderedMap ℤ Family}
    {value : Family} {timeseriesId : ℤ} :
    (rows.foldl (fun families row ↦ families.set row.timeseriesId value) families).get?
        timeseriesId =
      if timeseriesId ∈ rows.map ContinuityRow.timeseriesId then some value
      else families.get? timeseriesId := by
  induction rows generalizing families with
  | nil => rfl
  | cons row rows ih =>
    rw [List.foldl_cons, ih, OrderedMap.get?_set, List.map_cons]
    by_cases hrest : timeseriesId ∈ rows.map ContinuityRow.timeseriesId
    · rw [if_pos hrest, if_pos (List.mem_cons_of_mem _ hrest)]
    · rw [if_neg hrest]
      by_cases hfirst : timeseriesId = row.timeseriesId
      · rw [if_pos hfirst, if_pos (by rw [hfirst]; exact List.mem_cons_self)]
      · rw [if_neg hfirst, if_neg]
        exact fun hmem ↦ (List.mem_cons.mp hmem).elim hfirst hrest

section Pass

variable {host : WebHost} {authoritative : Authoritative} {contestants : List String}
variable {state : Publication} {family : String × List ContinuityRow}

theorem publishFamily_of_accepted (hstate : family.1 ∉ state.invalidFamilyKeys)
    (h : Accepted host authoritative contestants family) :
    (publishFamily host authoritative state family).invalidFamilyKeys = state.invalidFamilyKeys ∧
      ∃ value, familyOf host family = some value ∧ ∀ timeseriesId,
        (publishFamily host authoritative state family).continuityByTimeseriesId.get? timeseriesId =
          if timeseriesId ∈ family.2.map ContinuityRow.timeseriesId then some value
          else state.continuityByTimeseriesId.get? timeseriesId := by
  have hperm : (sortBy (compareRows host) family.2).Perm family.2 := sortBy_perm family.2
  rw [publishFamily, familyOf, if_neg (not_or.mpr ⟨hstate, not_not.mpr h.valid⟩)]
  rcases hrows : sortBy (compareRows host) family.2 with _ | ⟨first, _ | ⟨second, rest⟩⟩
  · have hlen := hperm.length_eq
    have := h.two
    rw [hrows, List.length_nil] at hlen
    omega
  · have hlen := hperm.length_eq
    have := h.two
    rw [hrows, List.length_singleton] at hlen
    omega
  · refine ⟨rfl, _, rfl, fun timeseriesId ↦ ?_⟩
    dsimp only
    rw [get?_foldl_set_const, ← hrows]
    simp only [(hperm.map ContinuityRow.timeseriesId).mem_iff]

theorem publishFamily_of_not_accepted (h : ¬Accepted host authoritative contestants family)
    (hcontestants : family.1 ∈ state.invalidFamilyKeys ↔ family.1 ∈ contestants) :
    (publishFamily host authoritative state family).continuityByTimeseriesId =
        state.continuityByTimeseriesId ∧
      (∀ key ∈ (publishFamily host authoritative state family).invalidFamilyKeys,
        key ∈ state.invalidFamilyKeys ∨ key = family.1) ∧
      ∀ key ∈ state.invalidFamilyKeys,
        key ∈ (publishFamily host authoritative state family).invalidFamilyKeys := by
  rw [publishFamily]
  split
  · refine ⟨rfl, fun key hkey ↦ ?_, fun key hkey ↦ List.mem_insert_of_mem hkey⟩
    exact (List.mem_insert_iff.mp hkey).symm
  · rename_i hvalid
    obtain ⟨hfree, hvalid⟩ := not_or.mp hvalid
    have hperm : (sortBy (compareRows host) family.2).Perm family.2 := sortBy_perm family.2
    split
    · rename_i first second rest hrows
      refine absurd ⟨fun hin ↦ hfree (hcontestants.mpr hin), not_not.mp hvalid, ?_⟩ h
      rw [← hperm.length_eq, hrows]
      simp
    · exact ⟨rfl, fun key hkey ↦ Or.inl hkey, fun key hkey ↦ hkey⟩

/-- What holds after the first families. -/
structure Publication.Upto (state : Publication) (host : WebHost) (authoritative : Authoritative)
    (contestants : List String) (families : List (String × List ContinuityRow)) : Prop where
  contested : ∀ key ∈ contestants, key ∈ state.invalidFamilyKeys
  invalid : ∀ key ∈ state.invalidFamilyKeys, key ∈ contestants ∨ key ∈ families.map Prod.fst
  stored : ∀ {timeseriesId value}, state.continuityByTimeseriesId.get? timeseriesId = some value →
    ∃ family ∈ families, Accepted host authoritative contestants family ∧
      timeseriesId ∈ family.2.map ContinuityRow.timeseriesId ∧ familyOf host family = some value
  found : ∀ family ∈ families, Accepted host authoritative contestants family →
    ∀ timeseriesId ∈ family.2.map ContinuityRow.timeseriesId,
      (state.continuityByTimeseriesId.get? timeseriesId).isSome = true

theorem Publication.Upto.step {families : List (String × List ContinuityRow)}
    (h : state.Upto host authoritative contestants families)
    (hnew : family.1 ∉ families.map Prod.fst) :
    (publishFamily host authoritative state family).Upto host authoritative contestants
      (families ++ [family]) := by
  have hsame : family.1 ∈ state.invalidFamilyKeys ↔ family.1 ∈ contestants :=
    ⟨fun hin ↦ (h.invalid _ hin).resolve_right hnew, h.contested _⟩
  have hlast : family ∈ families ++ [family] := by simp
  have hold : ∀ {f}, f ∈ families → f ∈ families ++ [family] := fun hf ↦
    List.mem_append_left _ hf
  have hkeys : ∀ {key}, key ∈ families.map Prod.fst →
      key ∈ (families ++ [family]).map Prod.fst := fun hkey ↦ by
    rw [List.map_append]
    exact List.mem_append_left _ hkey
  by_cases haccepted : Accepted host authoritative contestants family
  · obtain ⟨hinvalid, value, hvalue, hget⟩ := publishFamily_of_accepted
      (fun hin ↦ haccepted.uncontested (hsame.mp hin)) haccepted
    refine ⟨fun key hkey ↦ ?_, fun key hkey ↦ ?_, fun {id c} hc ↦ ?_, fun f hf hacc id hid ↦ ?_⟩
    · rw [hinvalid]
      exact h.contested key hkey
    · rw [hinvalid] at hkey
      exact (h.invalid key hkey).imp_right hkeys
    · rw [hget] at hc
      split at hc
      · rename_i hid
        exact ⟨family, hlast, haccepted, hid, hvalue.trans (by rw [Option.some.inj hc])⟩
      · obtain ⟨f, hf, hacc, hid, hstored⟩ := h.stored hc
        exact ⟨f, hold hf, hacc, hid, hstored⟩
    · rw [hget]
      split
      · rfl
      · rename_i hnot
        rcases List.mem_append.mp hf with hf | hf
        · exact h.found f hf hacc id hid
        · rw [List.mem_singleton.mp hf] at hid
          exact absurd hid hnot
  · obtain ⟨hmap, hsub, hkeep⟩ := publishFamily_of_not_accepted haccepted hsame
    refine ⟨fun key hkey ↦ hkeep key (h.contested key hkey), fun key hkey ↦ ?_,
      fun {id c} hc ↦ ?_, fun f hf hacc id hid ↦ ?_⟩
    · rcases hsub key hkey with hkey | rfl
      · exact (h.invalid key hkey).imp_right hkeys
      · exact Or.inr (List.mem_map_of_mem hlast)
    · rw [hmap] at hc
      obtain ⟨f, hf, hacc, hid, hstored⟩ := h.stored hc
      exact ⟨f, hold hf, hacc, hid, hstored⟩
    · rw [hmap]
      rcases List.mem_append.mp hf with hf | hf
      · exact h.found f hf hacc id hid
      · rw [List.mem_singleton.mp hf] at hacc
        exact absurd hacc haccepted

/-- The whole pass. -/
theorem upto_foldl {families : List (String × List ContinuityRow)}
    (hnodup : (families.map Prod.fst).Nodup) :
    (families.foldl (publishFamily host authoritative) ⟨OrderedMap.empty, 0, contestants⟩).Upto
      host authoritative contestants families := by
  induction families using List.reverseRecOn with
  | nil =>
    refine ⟨fun key hkey ↦ hkey, fun key hkey ↦ Or.inl hkey, fun {id c} hc ↦ ?_,
      fun f hf ↦ absurd hf List.not_mem_nil⟩
    cases hc
  | append_singleton families family ih =>
    rw [List.map_append, List.nodup_append] at hnodup
    rw [List.foldl_append]
    refine (ih hnodup.1).step fun hin ↦ ?_
    exact hnodup.2.2 family.1 hin family.1 (by simp) rfl

end Pass

/-! ## What is published -/

section Published

variable {host : WebHost} (hhost : LawfulHost host) {authoritative : Authoritative}
variable {rows : List ContinuityRow} {familyKey : String}

include hhost in
/-- **The families that pass are the sound ones.** -/
theorem accepted_iff : Accepted host authoritative
    (ledgerOf (claimsOf (OrderedMap.groupBy ContinuityRow.continuityKey rows))).contestants
      (familyKey, familyRows rows familyKey) ↔ Sound authoritative rows familyKey := by
  constructor
  · rintro ⟨huncontested, hvalid, htwo⟩
    obtain ⟨-, hsite, hagrees, hdistinct, hdisjoint⟩ :=
      (isValidFamily_sortBy_iff hhost).mp hvalid
    refine ⟨htwo, hdistinct, hsite, hagrees, hdisjoint, fun row hrow hopen other hother ↦ ?_,
      fun row hrow other hother hid ↦ ?_⟩
    · have hsymm : Std.Symm fun row other : ContinuityRow ↦
          Disjoint row.span.points other.span.points := ⟨fun _ _ h ↦ h.symm⟩
      have hendless : row.span.last = none := Option.map_eq_none_iff.mpr hopen
      refine Span.first_le_of_endless (a := row.span) (b := other.span) ?_ hendless
      by_cases hsame : row = other
      · exact Or.inl (congrArg ContinuityRow.span hsame)
      · exact Or.inr (hdisjoint.forall hrow hother hsame)
    · by_contra hne
      exact huncontested (mem_contestants_iff'.mpr ⟨row, hrow, other, hother, hid, hne⟩)
  · intro h
    refine ⟨fun hin ↦ ?_, (isValidFamily_sortBy_iff hhost).mpr ⟨?_, h.site, h.agrees, h.distinct,
      h.disjoint⟩, h.two⟩
    · obtain ⟨row, hrow, other, hother, hid, hne⟩ := mem_contestants_iff'.mp hin
      exact hne (h.unshared row hrow other hother hid)
    · intro (hnil : familyRows rows familyKey = [])
      have := h.two
      rw [hnil, List.length_nil] at this
      omega

include hhost in
/-- What is written of a sound family is the family as its rows say it. -/
theorem published_of_familyOf (hnormal : ∀ row ∈ rows, row.Normal host)
    (hsound : Sound authoritative rows familyKey) {family : Family}
    (hfamily : familyOf host (familyKey, familyRows rows familyKey) = some family)
    {row : ContinuityRow} (hrow : row ∈ familyRows rows familyKey) :
    Published authoritative rows row.timeseriesId family := by
  obtain ⟨first, hfirst, rfl⟩ := Option.map_eq_some_iff.mp hfamily
  have hperm : (sortBy (compareRows host) (familyRows rows familyKey)).Perm
      (familyRows rows familyKey) := sortBy_perm _
  have hmem := hperm.mem_iff.mp (List.mem_of_mem_head? (Option.mem_def.mpr hfirst))
  refine ⟨hsound, ⟨row, hrow, rfl⟩, rfl, rfl, fun other hother ↦ ?_, hperm.map _, ?_⟩
  · obtain ⟨hin, hkey⟩ := mem_familyRows.mp hmem
    obtain ⟨hin', hkey'⟩ := mem_familyRows.mp hother
    obtain ⟨-, huk, hpollutant⟩ :=
      (hnormal first hin).eq_of_key (hnormal other hin') (hkey.trans hkey'.symm)
    exact ⟨hsound.site first hmem other hother, huk, hpollutant⟩
  · have hchain := (isChain_sortBy_iff hhost _).mpr hsound.disjoint
    rw [continuityOf, List.pairwise_map]
    exact (Span.pairwise_before_of_isChain hchain).imp Span.Before.first_lt

include hhost in
/-- What stands under a timeseries is what is written of a sound family that has it. -/
theorem exists_familyOf_of_get? {continuityRows : List (Option RawContinuityRow)}
    {timeseriesId : ℤ} {family : Family}
    (h : (buildHistoryV2TimeseriesContinuityFamilies host continuityRows
      authoritative).continuityByTimeseriesId.get? timeseriesId = some family) :
    ∃ familyKey, Sound authoritative (continuityRows.filterMap (normalizeContinuityRow host))
        familyKey ∧
      familyOf host (familyKey, familyRows
        (continuityRows.filterMap (normalizeContinuityRow host)) familyKey) = some family ∧
      ∃ row ∈ familyRows (continuityRows.filterMap (normalizeContinuityRow host)) familyKey,
        row.timeseriesId = timeseriesId := by
  set rows := continuityRows.filterMap (normalizeContinuityRow host)
  set groups := OrderedMap.groupBy ContinuityRow.continuityKey rows
  have hupto := @upto_foldl host authoritative (ledgerOf (claimsOf groups)).contestants
    groups.entries groups.nodup_keys
  obtain ⟨⟨key, group⟩, hgroup, haccepted, hid, hfamily⟩ := hupto.stored h
  have heq : group = familyRows rows key := (mem_groups.mp hgroup).1
  subst heq
  exact ⟨key, (accepted_iff hhost).mp haccepted, hfamily, List.mem_map.mp hid⟩

theorem normal_of_mem_filterMap {continuityRows : List (Option RawContinuityRow)} :
    ∀ row ∈ continuityRows.filterMap (normalizeContinuityRow host), row.Normal host := by
  intro row hrow
  obtain ⟨raw, -, hraw⟩ := List.mem_filterMap.mp hrow
  exact normal_of_normalizeContinuityRow hraw

include hhost in
/-- **Under a timeseries stands the family that the rows say it belongs to, if that is sound.** -/
theorem get?_families_iff {continuityRows : List (Option RawContinuityRow)} {timeseriesId : ℤ}
    {family : Family} :
    (buildHistoryV2TimeseriesContinuityFamilies host continuityRows
        authoritative).continuityByTimeseriesId.get? timeseriesId = some family ↔
      Published authoritative (continuityRows.filterMap (normalizeContinuityRow host)) timeseriesId
        family := by
  have hstored : ∀ {value : Family}, (buildHistoryV2TimeseriesContinuityFamilies host continuityRows
      authoritative).continuityByTimeseriesId.get? timeseriesId = some value →
      Published authoritative (continuityRows.filterMap (normalizeContinuityRow host)) timeseriesId
        value := by
    intro value hvalue
    obtain ⟨key, hsound, hfamily, row, hrow, rfl⟩ := exists_familyOf_of_get? hhost hvalue
    exact published_of_familyOf hhost normal_of_mem_filterMap hsound hfamily hrow
  refine ⟨hstored, fun hpublished ↦ ?_⟩
  set rows := continuityRows.filterMap (normalizeContinuityRow host)
  set groups := OrderedMap.groupBy ContinuityRow.continuityKey rows
  have hupto := @upto_foldl host authoritative (ledgerOf (claimsOf groups)).contestants
    groups.entries groups.nodup_keys
  obtain ⟨row, hrow, hid⟩ := hpublished.mem
  have hsome := hupto.found (family.continuityKey, familyRows rows family.continuityKey)
    (mem_groups.mpr ⟨rfl, List.ne_nil_of_mem hrow⟩) ((accepted_iff hhost).mpr hpublished.sound)
    timeseriesId (List.mem_map.mpr ⟨row, hrow, hid⟩)
  obtain ⟨value, hvalue⟩ := Option.isSome_iff_exists.mp hsome
  rw [hpublished.unique (hstored hvalue)]
  exact hvalue

include hhost in
/-- **The families do not depend on the order of the rows.** -/
theorem get?_families_perm {continuityRows continuityRows' : List (Option RawContinuityRow)}
    (h : continuityRows.Perm continuityRows') (timeseriesId : ℤ) :
    (buildHistoryV2TimeseriesContinuityFamilies host continuityRows
        authoritative).continuityByTimeseriesId.get? timeseriesId =
      (buildHistoryV2TimeseriesContinuityFamilies host continuityRows'
        authoritative).continuityByTimeseriesId.get? timeseriesId := by
  have hrows := h.filterMap (normalizeContinuityRow host)
  refine Option.ext fun family ↦ ?_
  rw [get?_families_iff hhost, get?_families_iff hhost]
  exact ⟨Published.perm hrows, Published.perm hrows.symm⟩

end Published

end UkAqOps.ContinuityFamilies

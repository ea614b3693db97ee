import Mathlib.Data.List.Dedup
import UkAqOps.ContinuityFamilies.Families

/-!
# Which families are published

A family of continuity rows is sound when its rows hold together: different timeseries at one site,
valid on days that do not meet, each of them as its authoritative binding says, and none of them in
another family. The families that are published are the sound ones, whatever the order of the rows.
-/

namespace UkAqOps.ContinuityFamilies

open PruneAudit (DayUtc)
open Sorting Claims

/-! ## Sound families -/

/-- The rows of a family. -/
def familyRows (rows : List ContinuityRow) (familyKey : String) : List ContinuityRow :=
  rows.filter fun row ↦ row.continuityKey = familyKey

/-- The rows of a family hold together. -/
structure Sound (authoritative : Authoritative) (rows : List ContinuityRow) (familyKey : String) :
    Prop where
  two : 2 ≤ (familyRows rows familyKey).length
  distinct : ((familyRows rows familyKey).map ContinuityRow.timeseriesId).Nodup
  site : ∀ row ∈ familyRows rows familyKey, ∀ other ∈ familyRows rows familyKey,
    row.siteRef = other.siteRef
  agrees : ∀ row ∈ familyRows rows familyKey, Agrees authoritative row
  disjoint : (familyRows rows familyKey).Pairwise fun row other ↦
    Disjoint row.span.points other.span.points
  openLast : ∀ row ∈ familyRows rows familyKey, row.validToDayUtc = none →
    ∀ other ∈ familyRows rows familyKey, other.validFromDayUtc.number ≤ row.validFromDayUtc.number
  unshared : ∀ row ∈ familyRows rows familyKey, ∀ other ∈ rows,
    other.timeseriesId = row.timeseriesId → other.continuityKey = familyKey

/-- The family is what the rows say about the timeseries: it is sound, it has the timeseries, and
its members are its rows in the order of their days. -/
structure Published (authoritative : Authoritative) (rows : List ContinuityRow) (timeseriesId : ℤ)
    (family : Family) : Prop where
  sound : Sound authoritative rows family.continuityKey
  mem : ∃ row ∈ familyRows rows family.continuityKey, row.timeseriesId = timeseriesId
  schemaVersion : family.schemaVersion = 1
  source : family.source = "sos_station_timeseries_site_refs"
  refs : ∀ row ∈ familyRows rows family.continuityKey, family.siteRef = row.siteRef ∧
    family.ukAirRef = row.ukAirRef ∧ family.pollutantCode = row.pollutantCode
  members : family.members.Perm ((familyRows rows family.continuityKey).map ContinuityRow.member)
  sorted : family.members.Pairwise fun member next ↦
    member.validFromDayUtc.number < next.validFromDayUtc.number

section Rows

variable {rows rows' : List ContinuityRow} {familyKey : String} {row : ContinuityRow}
variable {authoritative : Authoritative}

theorem mem_familyRows : row ∈ familyRows rows familyKey ↔
    row ∈ rows ∧ row.continuityKey = familyKey := by
  rw [familyRows, List.mem_filter, decide_eq_true_iff]

theorem familyRows_perm (h : rows.Perm rows') :
    (familyRows rows familyKey).Perm (familyRows rows' familyKey) := h.filter _

/-- Whether a family is sound does not depend on the order of the rows. -/
theorem Sound.perm (h : rows.Perm rows') (hsound : Sound authoritative rows familyKey) :
    Sound authoritative rows' familyKey := by
  have hfamily : (familyRows rows familyKey).Perm (familyRows rows' familyKey) := familyRows_perm h
  refine ⟨by rw [← hfamily.length_eq]; exact hsound.two,
    (hfamily.map ContinuityRow.timeseriesId).nodup_iff.mp hsound.distinct,
    fun row hrow other hother ↦ ?_, fun row hrow ↦ hsound.agrees row (hfamily.mem_iff.mpr hrow),
    hsound.disjoint.perm hfamily fun hrow ↦ hrow.symm, fun row hrow hopen other hother ↦ ?_,
    fun row hrow other hother hid ↦ ?_⟩
  · exact hsound.site row (hfamily.mem_iff.mpr hrow) other (hfamily.mem_iff.mpr hother)
  · exact hsound.openLast row (hfamily.mem_iff.mpr hrow) hopen other (hfamily.mem_iff.mpr hother)
  · exact hsound.unshared row (hfamily.mem_iff.mpr hrow) other (h.mem_iff.mpr hother) hid

theorem Published.perm {timeseriesId : ℤ} {family : Family} (h : rows.Perm rows')
    (hpublished : Published authoritative rows timeseriesId family) :
    Published authoritative rows' timeseriesId family := by
  have hfamily : (familyRows rows family.continuityKey).Perm
      (familyRows rows' family.continuityKey) := familyRows_perm h
  obtain ⟨row, hrow, hid⟩ := hpublished.mem
  exact ⟨hpublished.sound.perm h, ⟨row, hfamily.mem_iff.mp hrow, hid⟩, hpublished.schemaVersion,
    hpublished.source, fun row hrow ↦ hpublished.refs row (hfamily.mem_iff.mpr hrow),
    hpublished.members.trans (hfamily.map _), hpublished.sorted⟩

/-- One family is published of a timeseries. -/
theorem Published.unique {timeseriesId : ℤ} {family family' : Family}
    (h : Published authoritative rows timeseriesId family)
    (h' : Published authoritative rows timeseriesId family') : family = family' := by
  obtain ⟨row, hrow, hid⟩ := h.mem
  obtain ⟨row', hrow', hid'⟩ := h'.mem
  have hkey : family'.continuityKey = family.continuityKey := by
    rw [← (mem_familyRows.mp hrow').2]
    exact h.sound.unshared row hrow row' (mem_familyRows.mp hrow').1 (hid'.trans hid.symm)
  have hmembers : family.members = family'.members := by
    refine (h.members.trans (hkey ▸ h'.members.symm)).eq_of_pairwise ?_ h.sorted h'.sorted
    intro a b _ _ hab hba
    exact absurd hab (not_lt.mpr hba.le)
  obtain ⟨hsite, huk, hpollutant⟩ := h.refs row hrow
  obtain ⟨hsite', huk', hpollutant'⟩ := h'.refs row (hkey ▸ hrow)
  have hversion := h.schemaVersion.trans h'.schemaVersion.symm
  have hsource := h.source.trans h'.source.symm
  rcases family with ⟨version, source, key, site, uk, pollutant, members⟩
  rcases family' with ⟨version', source', key', site', uk', pollutant', members'⟩
  dsimp only at *
  rw [hversion, hsource, hkey, hmembers, hsite, hsite', huk, huk', hpollutant, hpollutant']

end Rows

/-! ## The order of the rows of a family -/

/-- A list has one value exactly when it has an element and all of them agree. -/
theorem length_dedup_map_eq_one_iff {α β : Type} [DecidableEq β] {l : List α} {f : α → β} :
    (l.map f).dedup.length = 1 ↔ l ≠ [] ∧ ∀ a ∈ l, ∀ b ∈ l, f a = f b := by
  rw [List.length_eq_one_iff]
  constructor
  · rintro ⟨value, hvalue⟩
    have hmem : ∀ a ∈ l, f a = value := fun a ha ↦ by
      have hin := List.mem_dedup.mpr (List.mem_map_of_mem (f := f) ha)
      rw [hvalue] at hin
      exact List.mem_singleton.mp hin
    refine ⟨?_, fun a ha b hb ↦ (hmem a ha).trans (hmem b hb).symm⟩
    rintro rfl
    cases hvalue
  · rintro ⟨hne, hsame⟩
    obtain ⟨first, hfirst⟩ := List.exists_mem_of_ne_nil l hne
    refine ⟨f first, List.perm_singleton.mp ?_⟩
    refine (List.perm_ext_iff_of_nodup (List.nodup_dedup _) (List.nodup_singleton _)).mpr ?_
    intro value
    rw [List.mem_dedup, List.mem_map, List.mem_singleton]
    constructor
    · rintro ⟨a, ha, rfl⟩
      exact hsame a ha first hfirst
    · rintro rfl
      exact ⟨first, hfirst, rfl⟩

/-- What is relied on of the host: `localeCompare` puts the days of the calendar in their order, and
the case mappings settle on what they give. -/
structure LawfulHost (host : WebHost) : Prop where
  localeCompare_days : ∀ a b, PlainYear a → PlainYear b →
    host.localeCompare (isoDayChars a) (isoDayChars b) = compare a b
  toUpperCase_toUpperCase : ∀ s, host.toUpperCase (host.toUpperCase s) = host.toUpperCase s
  trimText_toUpperCase : ∀ s, trimText s = s → trimText (host.toUpperCase s) = host.toUpperCase s
  toLowerCase_code : ∀ s, isPropertyCode s = true → host.toLowerCase s = s

section Order

variable {host : WebHost} (hhost : LawfulHost host)

include hhost in
theorem compareRows_eq (left right : ContinuityRow) : compareRows host left right =
    (compare left.validFromDayUtc.number right.validFromDayUtc.number).then
      (compare left.timeseriesId right.timeseriesId) := by
  rw [compareRows, left.validFromDayUtc.toList_val, right.validFromDayUtc.toList_val,
    hhost.localeCompare_days _ _ left.validFromDayUtc.isoDay_number.2
      right.validFromDayUtc.isoDay_number.2]

include hhost in
theorem transCmp_compareRows : Std.TransCmp (compareRows host) := by
  have hcompare : compareRows host = fun left right : ContinuityRow ↦
      (compare left.validFromDayUtc.number right.validFromDayUtc.number).then
        (compare left.timeseriesId right.timeseriesId) := by
    funext left right
    exact compareRows_eq hhost left right
  rw [hcompare]
  exact transCmp_then
    (transCmp_on (inferInstanceAs (Std.TransCmp (compare : ℤ → ℤ → Ordering)))
      fun row : ContinuityRow ↦ row.validFromDayUtc.number)
    (transCmp_on (inferInstanceAs (Std.TransCmp (compare : ℤ → ℤ → Ordering)))
      ContinuityRow.timeseriesId)

include hhost in
/-- Sorting puts the rows in the order of their first days. -/
theorem pairwise_first_sortBy (rows : List ContinuityRow) :
    (sortBy (compareRows host) rows).Pairwise fun row next ↦ row.span.first ≤ next.span.first := by
  have := transCmp_compareRows hhost
  refine (pairwise_sortBy rows).imp fun {row next} hle ↦ ?_
  rw [compareRows_eq hhost] at hle
  by_contra hlt
  have hgt : next.validFromDayUtc.number < row.validFromDayUtc.number := not_le.mp hlt
  rw [compare_gt_iff_gt.mpr hgt] at hle
  cases hle

include hhost in
/-- Rows that follow each other in their order are valid on days that do not meet. -/
theorem isChain_sortBy_iff (rows : List ContinuityRow) :
    ((sortBy (compareRows host) rows).IsChain fun row next ↦ row.span.Before next.span) ↔
      rows.Pairwise fun row next ↦ Disjoint row.span.points next.span.points := by
  rw [Span.isChain_before_iff (pairwise_first_sortBy hhost rows)]
  exact (sortBy_perm rows).pairwise_iff fun hrow ↦ hrow.symm

include hhost in
/-- What the loop over the sorted rows checks of a family. -/
theorem isValidFamily_sortBy_iff {authoritative : Authoritative} {rows : List ContinuityRow} :
    IsValidFamily authoritative (sortBy (compareRows host) rows) ↔
      rows ≠ [] ∧ (∀ row ∈ rows, ∀ other ∈ rows, row.siteRef = other.siteRef) ∧
        (∀ row ∈ rows, Agrees authoritative row) ∧ (rows.map ContinuityRow.timeseriesId).Nodup ∧
        rows.Pairwise fun row next ↦ Disjoint row.span.points next.span.points := by
  have hperm : (sortBy (compareRows host) rows).Perm rows := sortBy_perm rows
  have hopen : ∀ l : List ContinuityRow, (l.countP fun row ↦ row.validToDayUtc.isNone) =
      l.countP fun row ↦ row.span.last.isNone := fun l ↦
    List.countP_congr fun row _ ↦ by rw [ContinuityRow.span, Option.isNone_map]
  rw [IsValidFamily, length_dedup_map_eq_one_iff, isChain_sortBy_iff hhost, and_assoc]
  refine and_congr (not_congr ?_) (and_congr ?_ (and_congr ?_ ?_))
  · rw [← List.length_eq_zero_iff, hperm.length_eq, List.length_eq_zero_iff]
  · simp only [mem_sortBy]
  · simp only [mem_sortBy]
  refine and_congr (hperm.map ContinuityRow.timeseriesId).nodup_iff ?_
  refine ⟨fun h ↦ h.1, fun h ↦ ⟨h, ?_⟩⟩
  rw [hopen]
  exact Span.countP_endless_le
    (Span.pairwise_before_of_isChain ((isChain_sortBy_iff hhost rows).mpr h))

end Order

end UkAqOps.ContinuityFamilies

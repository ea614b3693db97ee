import UkAqOps.ContinuityFamilies.Acceptance
import UkAqOps.StationHistory.Agreement

/-!
# Last days that are not days

A row whose last day is given but is not a day of the calendar is read as a row without a last day.
The families are those of the well-formed rows exactly as long as such rows touch no family: neither
one that would be sound without them nor one that is sound with them.
-/

namespace UkAqOps.ContinuityFamilies

open Sorting StationHistory Aqi

/-! ## Well-formed rows -/

/-- A last day is given, and it is not a day of the calendar. -/
def MalformedValidTo (raw : Option RawContinuityRow) : Prop :=
  ∃ row ∈ raw, ∃ text ∈ row.validToDayUtc, trimText text ≠ "" ∧ normalizeIsoDay text = none

instance (raw : Option RawContinuityRow) : Decidable (MalformedValidTo raw) :=
  decidable_of_iff (raw.any (fun row ↦ row.validToDayUtc.any fun text ↦
    decide (trimText text ≠ "") && (normalizeIsoDay text).isNone) = true) (by
    simp only [MalformedValidTo, Option.any_eq_true, Bool.and_eq_true, decide_eq_true_iff,
      Option.isNone_iff_eq_none, Option.mem_def])

/-- The rows that are well formed. -/
def wellFormedRows (host : WebHost) (continuityRows : List (Option RawContinuityRow)) :
    List ContinuityRow :=
  (continuityRows.filter fun raw ↦ ¬MalformedValidTo raw).filterMap (normalizeContinuityRow host)

/-- The rows that would be well formed but for their last day, as they are read. -/
def misreadRows (host : WebHost) (continuityRows : List (Option RawContinuityRow)) :
    List ContinuityRow :=
  (continuityRows.filter fun raw ↦ MalformedValidTo raw).filterMap (normalizeContinuityRow host)

/-! ## What is to hold -/

/-- The families are the sound ones among the well-formed rows, in whatever order these come, and
the station history accepts every payload with one of them. -/
structure PublishesSoundFamilies (host : WebHost) (continuityRows : List (Option RawContinuityRow))
    (authoritative : Authoritative) : Prop where
  publishes : ∀ timeseriesId family, (buildHistoryV2TimeseriesContinuityFamilies host continuityRows
      authoritative).continuityByTimeseriesId.get? timeseriesId = some family ↔
    Published authoritative (wellFormedRows host continuityRows) timeseriesId family
  order : ∀ continuityRows', continuityRows.Perm continuityRows' → ∀ timeseriesId,
    (buildHistoryV2TimeseriesContinuityFamilies host continuityRows
        authoritative).continuityByTimeseriesId.get? timeseriesId =
      (buildHistoryV2TimeseriesContinuityFamilies host continuityRows'
        authoritative).continuityByTimeseriesId.get? timeseriesId
  accepted : ∀ timeseriesId family binding pollutant,
    (buildHistoryV2TimeseriesContinuityFamilies host continuityRows
      authoritative).continuityByTimeseriesId.get? timeseriesId = some family →
    authoritative.byTimeseriesId.get? timeseriesId = some binding →
    family.pollutantCode = pollutantText pollutant → Accepts host binding family pollutant

/-- A misread row touches no family: its own is sound neither without the misread rows nor with them,
and no other one that is sound without them has its timeseries. -/
structure Harmless (authoritative : Authoritative) (rows misread : List ContinuityRow)
    (row : ContinuityRow) : Prop where
  without : ¬Sound authoritative rows row.continuityKey
  within : ¬Sound authoritative (rows ++ misread) row.continuityKey
  elsewhere : ∀ familyKey, Sound authoritative rows familyKey → familyKey ≠ row.continuityKey →
    ∀ member ∈ familyRows rows familyKey, member.timeseriesId ≠ row.timeseriesId

section Misread

variable {host : WebHost} (hhost : LawfulHost host) {authoritative : Authoritative}
variable {rows misread : List ContinuityRow} {familyKey : String}

theorem familyRows_append : familyRows (rows ++ misread) familyKey =
    familyRows rows familyKey ++ familyRows misread familyKey := List.filter_append ..

include hhost in
theorem exists_published (hnormal : ∀ row ∈ rows, row.Normal host)
    (hsound : Sound authoritative rows familyKey) : ∃ family, family.continuityKey = familyKey ∧
      ∀ row ∈ familyRows rows familyKey, Published authoritative rows row.timeseriesId family := by
  have hperm : (sortBy (compareRows host) (familyRows rows familyKey)).Perm
      (familyRows rows familyKey) := sortBy_perm _
  rcases hsorted : sortBy (compareRows host) (familyRows rows familyKey) with _ | ⟨first, rest⟩
  · have htwo := hsound.two
    rw [← hperm.length_eq, hsorted, List.length_nil] at htwo
    omega
  · have hfamily : familyOf host (familyKey, familyRows rows familyKey) =
        some (continuityOf familyKey first (first :: rest)) := by
      rw [familyOf]
      dsimp only
      rw [hsorted]
      rfl
    exact ⟨_, rfl, fun row hrow ↦ published_of_familyOf hhost hnormal hsound hfamily hrow⟩

/-- Families of one key that are the same for two lists have as many rows in both. -/
theorem length_familyRows_eq {rows' : List ContinuityRow} {id id' : ℤ} {family : Family}
    (h : Published authoritative rows id family) (h' : Published authoritative rows' id' family) :
    (familyRows rows family.continuityKey).length =
      (familyRows rows' family.continuityKey).length := by
  have hlen := h.members.length_eq.symm.trans h'.members.length_eq
  rwa [List.length_map, List.length_map] at hlen

/-- A list and the same with misread rows have the same sound families of a key, if the misread rows
are harmless. -/
theorem sound_append_iff (h : ∀ row ∈ misread, Harmless authoritative rows misread row)
    (hnone : familyRows misread familyKey = []) :
    Sound authoritative (rows ++ misread) familyKey ↔ Sound authoritative rows familyKey := by
  have hsame : familyRows (rows ++ misread) familyKey = familyRows rows familyKey := by
    rw [familyRows_append, hnone, List.append_nil]
  constructor
  · rintro ⟨htwo, hdistinct, hsite, hagrees, hdisjoint, hopen, hunshared⟩
    rw [hsame] at htwo hdistinct hsite hagrees hdisjoint hopen hunshared
    exact ⟨htwo, hdistinct, hsite, hagrees, hdisjoint, hopen, fun row hrow other hother ↦
      hunshared row hrow other (List.mem_append_left _ hother)⟩
  · intro hsound
    refine ⟨hsame ▸ hsound.two, hsame ▸ hsound.distinct, hsame ▸ hsound.site, hsame ▸ hsound.agrees,
      hsame ▸ hsound.disjoint, hsame ▸ hsound.openLast, ?_⟩
    rw [hsame]
    intro row hrow other hother hid
    rcases List.mem_append.mp hother with hother | hother
    · exact hsound.unshared row hrow other hother hid
    · by_contra hne
      exact (h other hother).elsewhere familyKey hsound (Ne.symm hne) row hrow hid.symm

include hhost in
/-- **Misread rows change no family exactly when they are harmless.** -/
theorem published_append_iff (hnormal : ∀ row ∈ rows ++ misread, row.Normal host) :
    (∀ id family, Published authoritative (rows ++ misread) id family ↔
        Published authoritative rows id family) ↔
      ∀ row ∈ misread, Harmless authoritative rows misread row := by
  have hrows : ∀ row ∈ rows, row.Normal host := fun row hrow ↦
    hnormal row (List.mem_append_left _ hrow)
  constructor
  · intro hiff row hrow
    have hmem : row ∈ rows ++ misread := List.mem_append_right _ hrow
    have hin : row ∈ familyRows misread row.continuityKey := mem_familyRows.mpr ⟨hrow, rfl⟩
    have hpos : 0 < (familyRows misread row.continuityKey).length := List.length_pos_of_mem hin
    -- A family with a misread row cannot be the same with the row and without it.
    have hlonger : ∀ {id family}, family.continuityKey = row.continuityKey →
        Published authoritative rows id family →
        ¬Published authoritative (rows ++ misread) id family := by
      intro id family hkey hpublished hpublished'
      have hlen := length_familyRows_eq hpublished hpublished'
      rw [hkey, familyRows_append, List.length_append] at hlen
      omega
    refine ⟨fun hsound ↦ ?_, fun hsound ↦ ?_, fun familyKey hsound hne member hmember hid ↦ ?_⟩
    · obtain ⟨family, hkey, hpublished⟩ := exists_published hhost hrows hsound
      have htwo := hsound.two
      obtain ⟨member, hmember⟩ := List.exists_mem_of_length_pos (lt_of_lt_of_le Nat.two_pos htwo)
      have hown := hpublished member hmember
      exact hlonger hkey hown ((hiff _ _).mpr hown)
    · obtain ⟨family, hkey, hpublished⟩ := exists_published hhost hnormal hsound
      have hown := hpublished row (by
        rw [familyRows_append]
        exact List.mem_append_right _ hin)
      exact hlonger hkey ((hiff _ _).mp hown) hown
    · obtain ⟨family, rfl, hpublished⟩ := exists_published hhost hrows hsound
      have hwith := (hiff _ _).mpr (hpublished member hmember)
      have hmember' : member ∈ familyRows (rows ++ misread) family.continuityKey := by
        rw [familyRows_append]
        exact List.mem_append_left _ hmember
      exact hne (hwith.sound.unshared member hmember' row hmem hid.symm).symm
  · intro h id family
    have hnone : Sound authoritative (rows ++ misread) family.continuityKey ∨
        Sound authoritative rows family.continuityKey →
        familyRows misread family.continuityKey = [] := by
      intro hsound
      refine List.eq_nil_iff_forall_not_mem.mpr fun row hrow ↦ ?_
      obtain ⟨hmisread, hkey⟩ := mem_familyRows.mp hrow
      rw [← hkey] at hsound
      exact hsound.elim (h row hmisread).within (h row hmisread).without
    constructor
    · intro hpublished
      have hno := hnone (Or.inl hpublished.sound)
      have hsame : familyRows (rows ++ misread) family.continuityKey =
          familyRows rows family.continuityKey := by rw [familyRows_append, hno, List.append_nil]
      exact ⟨(sound_append_iff h hno).mp hpublished.sound, hsame ▸ hpublished.mem,
        hpublished.schemaVersion, hpublished.source, hsame ▸ hpublished.refs,
        hsame ▸ hpublished.members, hpublished.sorted⟩
    · intro hpublished
      have hno := hnone (Or.inr hpublished.sound)
      have hsame : familyRows (rows ++ misread) family.continuityKey =
          familyRows rows family.continuityKey := by rw [familyRows_append, hno, List.append_nil]
      exact ⟨(sound_append_iff h hno).mpr hpublished.sound, hsame ▸ hpublished.mem,
        hpublished.schemaVersion, hpublished.source, hsame ▸ hpublished.refs,
        hsame ▸ hpublished.members, hpublished.sorted⟩

end Misread

theorem rows_perm {host : WebHost} {continuityRows : List (Option RawContinuityRow)} :
    (continuityRows.filterMap (normalizeContinuityRow host)).Perm
      (wellFormedRows host continuityRows ++ misreadRows host continuityRows) := by
  have hsplit := List.filter_append_perm (fun raw ↦ decide (MalformedValidTo raw)) continuityRows
  have hmap := (hsplit.filterMap (normalizeContinuityRow host)).symm
  rw [List.filterMap_append] at hmap
  refine hmap.trans (List.perm_append_comm.trans ?_)
  rw [wellFormedRows, misreadRows]
  simp only [decide_not]
  exact List.Perm.refl _

/-- **The families are the sound ones among the well-formed rows exactly when every row that is
well-formed but for its last day is harmless.** -/
theorem publishesSoundFamilies_iff (host : WebHost) (hhost : LawfulHost host)
    (continuityRows : List (Option RawContinuityRow)) (input : AuthoritativeInput) :
    PublishesSoundFamilies host continuityRows (input.authoritative host) ↔
      ∀ row ∈ misreadRows host continuityRows, Harmless (input.authoritative host)
        (wellFormedRows host continuityRows) (misreadRows host continuityRows) row := by
  set authoritative := input.authoritative host
  have hperm := @rows_perm host continuityRows
  have hnormal : ∀ row ∈ wellFormedRows host continuityRows ++ misreadRows host continuityRows,
      row.Normal host := fun row hrow ↦ normal_of_mem_filterMap row (hperm.mem_iff.mpr hrow)
  have hget : ∀ timeseriesId family, (buildHistoryV2TimeseriesContinuityFamilies host continuityRows
      authoritative).continuityByTimeseriesId.get? timeseriesId = some family ↔
      Published authoritative (wellFormedRows host continuityRows ++
        misreadRows host continuityRows) timeseriesId family := fun timeseriesId family ↦ by
    rw [get?_families_iff hhost]
    exact ⟨Published.perm hperm, Published.perm hperm.symm⟩
  rw [← published_append_iff hhost hnormal]
  constructor
  · intro h timeseriesId family
    rw [← hget]
    exact h.publishes timeseriesId family
  · intro h
    refine ⟨fun timeseriesId family ↦ (hget timeseriesId family).trans (h timeseriesId family),
      fun continuityRows' hrows timeseriesId ↦ get?_families_perm hhost hrows timeseriesId,
      fun timeseriesId family binding pollutant hfamily hbinding hpollutant ↦ ?_⟩
    exact accepts_of_get? hhost hfamily hbinding hpollutant

/-! ## A last day that is not in the calendar -/

/-- A host on texts that are in their case already. -/
def plainHost : WebHost := { isoWebHost with toUpperCase := id, toLowerCase := id }

theorem compare_chars_of_lt {a b : List Char} (h : a < b) : compare a b = .lt := by
  induction h with
  | nil => rfl
  | @rel c cs d ds hcd =>
    have hchar : compare c d = .lt := if_pos hcd
    rw [List.compare_eq_compareLex, List.compareLex_cons_cons, hchar]
    rfl
  | @cons c cs ds _ ih =>
    have hchar : compare c c = .eq := Std.ReflCmp.compare_self
    rw [List.compare_eq_compareLex] at ih ⊢
    rw [List.compareLex_cons_cons, ih, hchar]
    rfl

theorem lawfulHost_plainHost : LawfulHost plainHost where
  localeCompare_days a b ha hb := by
    change compare (isoDayChars a) (isoDayChars b) = compare a b
    rcases lt_trichotomy a b with hlt | rfl | hlt
    · rw [compare_lt_iff_lt.mpr hlt, compare_chars_of_lt (isoDayChars_lt ha hb hlt)]
    · rw [compare_eq_iff_eq.mpr rfl]
      exact Std.ReflCmp.compare_self
    · rw [compare_gt_iff_gt.mpr hlt]
      exact Std.OrientedCmp.gt_of_lt (compare_chars_of_lt (isoDayChars_lt hb ha hlt))
  toUpperCase_toUpperCase _ := rfl
  trimText_toUpperCase _ h := h
  toLowerCase_code _ _ := rfl

/-- Two timeseries of a site, the second of which follows the first. -/
def continuityRow (timeseriesId : ℚ) (validFromDayUtc : String) (validToDayUtc : Option String) :
    Option RawContinuityRow :=
  some {
    connectorId := some 1, continuityKey := "1:UKA00001:no2", siteRef := "SITE1"
    ukAirRef := "UKA00001", pollutantCode := "no2", stationId := some 3, stationRef := "s3"
    timeseriesId := some timeseriesId, timeseriesRef := ""
    validFromDayUtc, validToDayUtc }

def bindingOf (timeseriesId : ℚ) : Option RawAuthoritativeBinding :=
  some {
    timeseriesId := some timeseriesId, connectorId := some 1, pollutantCode := "no2"
    stationId := some 3, phenomenonId := none, observedPropertyId := none }

/-- With days of the calendar the families are as they are to be. -/
theorem publishesSoundFamilies_sample : PublishesSoundFamilies plainHost
    [continuityRow 7 "2020-01-01" (some "2020-12-31"), continuityRow 8 "2021-01-01" none]
    ((AuthoritativeInput.list [bindingOf 7, bindingOf 8]).authoritative plainHost) :=
  (publishesSoundFamilies_iff plainHost lawfulHost_plainHost _ _).mpr fun row hrow ↦ by
    have hnone : (misreadRows plainHost [continuityRow 7 "2020-01-01" (some "2020-12-31"),
        continuityRow 8 "2021-01-01" none]).length = 0 := by decide +kernel
    rw [List.length_eq_zero_iff.mp hnone] at hrow
    exact absurd hrow List.not_mem_nil

/-- A row up to the thirtieth of February is published without a last day, in a family that has one
well-formed row. -/
theorem not_publishesSoundFamilies_of_malformed : ¬PublishesSoundFamilies plainHost
    [continuityRow 7 "2020-01-01" (some "2020-12-31"),
      continuityRow 8 "2021-01-01" (some "2021-02-30")]
    ((AuthoritativeInput.list [bindingOf 7, bindingOf 8]).authoritative plainHost) := by
  intro h
  have hpublished : ((buildHistoryV2TimeseriesContinuityFamilies plainHost
      [continuityRow 7 "2020-01-01" (some "2020-12-31"),
        continuityRow 8 "2021-01-01" (some "2021-02-30")]
      ((AuthoritativeInput.list [bindingOf 7, bindingOf 8]).authoritative
        plainHost)).continuityByTimeseriesId.get? 7).isSome = true := by decide +kernel
  obtain ⟨family, hfamily⟩ := Option.isSome_iff_exists.mp hpublished
  have htwo := ((h.publishes 7 family).mp hfamily).sound.two
  have hone : (wellFormedRows plainHost [continuityRow 7 "2020-01-01" (some "2020-12-31"),
      continuityRow 8 "2021-01-01" (some "2021-02-30")]).length = 1 := by decide +kernel
  have hle := htwo.trans (List.length_filter_le _ _)
  rw [hone] at hle
  exact absurd hle (by decide)

end UkAqOps.ContinuityFamilies

import UkAqOps.Lib.OrderedMap
import Mathlib.Algebra.BigOperators.Field
import Mathlib.Algebra.Order.Field.Basic
import Mathlib.Data.Finset.Max
import Mathlib.Tactic.Linarith
import Mathlib.Tactic.Ring

/-!
# Averages over buckets

A list of readings is divided into buckets by a key; the average of the list is the mean of the
means of its buckets. Two keys that divide the list alike give the same average
(`meanOfMeans_eq_of_sameDivision`). When a bucket of the one key is a proper part of a bucket of
the other, some nonnegative readings give two averages (`exists_meanOfMeans_ne`).

The last section is about the two ways of rounding an instant to a multiple of a width: down, and
up. They divide a list alike exactly when no multiple at which there is a reading has a reading
strictly within a width of it (`sameDivision_of_apart`, `hasProperPart_of_not_apart`).
-/

namespace Bucketing

/-! ## One value for each group -/

section GroupFold

variable {ι κ σ : Type*} [DecidableEq κ] (group : ι → κ) (init : σ) (step : σ → ι → σ)

/-- Fold the elements of each group into a value of its own, in one pass. -/
def groupFold (l : List ι) : OrderedMap κ σ :=
  l.foldl (fun m a ↦ m.set (group a) (step ((m.get? (group a)).getD init) a)) OrderedMap.empty

theorem groupFold_append_singleton (l : List ι) (a : ι) :
    groupFold group init step (l ++ [a])
      = (groupFold group init step l).set (group a)
          (step (((groupFold group init step l).get? (group a)).getD init) a) := by
  rw [groupFold, List.foldl_append, List.foldl_cons, List.foldl_nil, groupFold]

/-- Each group is folded as if it were alone. -/
theorem get?_groupFold (l : List ι) (k : κ) :
    (groupFold group init step l).get? k
      = if k ∈ l.map group then some ((l.filter fun a ↦ group a = k).foldl step init)
        else none := by
  induction l using List.reverseRecOn with
  | nil => rfl
  | append_singleton l a ih =>
    rw [groupFold_append_singleton, OrderedMap.get?_set]
    by_cases hk : k = group a
    · subst hk
      have hvalue : ((groupFold group init step l).get? (group a)).getD init
          = (l.filter fun b ↦ group b = group a).foldl step init := by
        rw [ih]
        by_cases hmem : group a ∈ l.map group
        · rw [if_pos hmem, Option.getD_some]
        · have hnone : (l.filter fun b ↦ group b = group a) = [] :=
            List.filter_eq_nil_iff.mpr fun b hb hba ↦
              hmem (List.mem_map.mpr ⟨b, hb, of_decide_eq_true hba⟩)
          rw [if_neg hmem, hnone, Option.getD_none, List.foldl_nil]
      rw [if_pos rfl, hvalue, if_pos (by simp), List.filter_append,
        List.filter_singleton, decide_eq_true rfl, cond_true, List.foldl_append, List.foldl_cons,
        List.foldl_nil]
    · have hiff : k ∈ (l ++ [a]).map group ↔ k ∈ l.map group := by simp [hk]
      have hfilter : (l ++ [a]).filter (fun b ↦ group b = k) = l.filter fun b ↦ group b = k := by
        rw [List.filter_append, List.filter_singleton, decide_eq_false fun h ↦ hk h.symm,
          cond_false, List.append_nil]
      rw [if_neg hk, ih, hfilter]
      simp only [hiff]

theorem mem_keys_groupFold {l : List ι} {k : κ} :
    k ∈ (groupFold group init step l).keys ↔ k ∈ l.map group := by
  rw [← OrderedMap.get?_isSome_iff, get?_groupFold]
  by_cases h : k ∈ l.map group <;> simp [h]

theorem toFinset_keys_groupFold (l : List ι) :
    (groupFold group init step l).keys.toFinset = (l.map group).toFinset :=
  Finset.ext fun k ↦ by
    rw [List.mem_toFinset, List.mem_toFinset, mem_keys_groupFold]

/-- The entries are the groups with their folds. -/
theorem entries_groupFold (l : List ι) :
    (groupFold group init step l).entries
      = (groupFold group init step l).keys.map
          fun k ↦ (k, (l.filter fun a ↦ group a = k).foldl step init) := by
  have hentry : ∀ entry ∈ (groupFold group init step l).entries,
      (entry.1, (l.filter fun a ↦ group a = entry.1).foldl step init) = entry := by
    rintro ⟨k, v⟩ hentry
    have hget := (OrderedMap.get?_eq_some_iff _).mpr hentry
    rw [get?_groupFold] at hget
    by_cases hk : k ∈ l.map group
    · rw [if_pos hk] at hget
      rw [Option.some.inj hget]
    · rw [if_neg hk] at hget
      cases hget
  rw [OrderedMap.keys, List.map_map]
  exact ((List.map_congr_left hentry).trans (List.map_id' _)).symm

end GroupFold

/-! ## The mean of the means -/

section Means

variable {ι κ κ' F : Type*} [DecidableEq κ] [DecidableEq κ'] [Field F]

/-- The buckets in which there is a reading. -/
def buckets (key : ι → κ) (l : List ι) : Finset κ := (l.map key).toFinset

/-- The readings of a bucket. -/
def bucket (key : ι → κ) (l : List ι) (k : κ) : List ι := l.filter fun a ↦ key a = k

def mean (values : List F) : F := values.sum / values.length

/-- The mean over the buckets of the mean of their readings. -/
def meanOfMeans (key : ι → κ) (value : ι → F) (l : List ι) : F :=
  (∑ k ∈ buckets key l, mean ((bucket key l k).map value)) / (buckets key l).card

theorem mem_buckets {key : ι → κ} {l : List ι} {k : κ} :
    k ∈ buckets key l ↔ ∃ a ∈ l, key a = k := by
  rw [buckets, List.mem_toFinset, List.mem_map]

theorem mem_bucket {key : ι → κ} {l : List ι} {k : κ} {a : ι} :
    a ∈ bucket key l k ↔ a ∈ l ∧ key a = k := by
  rw [bucket, List.mem_filter, decide_eq_true_iff]

theorem mean_perm {values values' : List F} (h : values.Perm values') :
    mean values = mean values' := by
  rw [mean, mean, h.sum_eq, h.length_eq]

theorem buckets_perm {key : ι → κ} {l l' : List ι} (h : l.Perm l') :
    buckets key l = buckets key l' := List.toFinset_eq_of_perm _ _ (h.map key)

theorem meanOfMeans_perm (key : ι → κ) (value : ι → F) {l l' : List ι} (h : l.Perm l') :
    meanOfMeans key value l = meanOfMeans key value l' := by
  have hmean : ∀ k, mean ((bucket key l k).map value) = mean ((bucket key l' k).map value) :=
    fun k ↦ mean_perm ((h.filter _).map value)
  rw [meanOfMeans, meanOfMeans, buckets_perm h]
  simp only [hmean]

/-! ## Two keys -/

/-- Readings are together under the one key exactly when they are under the other. -/
def SameDivision (key : ι → κ) (key' : ι → κ') (l : List ι) : Prop :=
  ∀ a ∈ l, ∀ b ∈ l, key a = key b ↔ key' a = key' b

theorem bucket_eq_of_sameDivision {key : ι → κ} {key' : ι → κ'} {l : List ι}
    (h : SameDivision key key' l) {a : ι} (ha : a ∈ l) :
    bucket key l (key a) = bucket key' l (key' a) :=
  List.filter_congr fun b hb ↦ decide_eq_decide.mpr (h b hb a ha)

theorem bucket_injOn (key : ι → κ) (l : List ι) :
    Set.InjOn (bucket key l) (buckets key l : Set κ) := by
  intro k hk k' _ hkk'
  obtain ⟨a, ha, rfl⟩ := mem_buckets.mp hk
  have hmem : a ∈ bucket key l k' := hkk' ▸ mem_bucket.mpr ⟨ha, rfl⟩
  exact (mem_bucket.mp hmem).2

open Classical in
theorem image_bucket_of_sameDivision {key : ι → κ} {key' : ι → κ'} {l : List ι}
    (h : SameDivision key key' l) :
    (buckets key l).image (bucket key l) = (buckets key' l).image (bucket key' l) := by
  ext block
  rw [Finset.mem_image, Finset.mem_image]
  constructor
  · rintro ⟨k, hk, rfl⟩
    obtain ⟨a, ha, rfl⟩ := mem_buckets.mp hk
    exact ⟨key' a, mem_buckets.mpr ⟨a, ha, rfl⟩, (bucket_eq_of_sameDivision h ha).symm⟩
  · rintro ⟨k, hk, rfl⟩
    obtain ⟨a, ha, rfl⟩ := mem_buckets.mp hk
    exact ⟨key a, mem_buckets.mpr ⟨a, ha, rfl⟩, bucket_eq_of_sameDivision h ha⟩

theorem card_buckets_of_sameDivision {key : ι → κ} {key' : ι → κ'} {l : List ι}
    (h : SameDivision key key' l) : (buckets key l).card = (buckets key' l).card := by
  classical
  rw [← Finset.card_image_of_injOn (bucket_injOn key l), image_bucket_of_sameDivision h,
    Finset.card_image_of_injOn (bucket_injOn key' l)]

theorem meanOfMeans_eq_of_sameDivision {key : ι → κ} {key' : ι → κ'} {l : List ι}
    (h : SameDivision key key' l) (value : ι → F) :
    meanOfMeans key value l = meanOfMeans key' value l := by
  classical
  have hsum : ∑ k ∈ buckets key l, mean ((bucket key l k).map value)
      = ∑ k ∈ buckets key' l, mean ((bucket key' l k).map value) := by
    calc ∑ k ∈ buckets key l, mean ((bucket key l k).map value)
        = ∑ block ∈ (buckets key l).image (bucket key l), mean (block.map value) :=
          (Finset.sum_image (f := fun block ↦ mean (block.map value)) (bucket_injOn key l)).symm
      _ = ∑ block ∈ (buckets key' l).image (bucket key' l), mean (block.map value) := by
          rw [image_bucket_of_sameDivision h]
      _ = ∑ k ∈ buckets key' l, mean ((bucket key' l k).map value) :=
          Finset.sum_image (f := fun block ↦ mean (block.map value)) (bucket_injOn key' l)
  rw [meanOfMeans, meanOfMeans, hsum, card_buckets_of_sameDivision h]

/-! ## Readings that tell two keys apart -/

/-- The readings that are one in a bucket and zero elsewhere. -/
def indicator (key : ι → κ) (k : κ) (a : ι) : F := if key a = k then 1 else 0

theorem sum_indicator (key : ι → κ) (k : κ) (l : List ι) :
    (l.map (indicator (F := F) key k)).sum = ((bucket key l k).length : F) := by
  induction l with
  | nil => simp [bucket]
  | cons a rest ih =>
    rw [List.map_cons, List.sum_cons, ih, bucket, bucket, indicator, List.filter_cons]
    by_cases ha : key a = k
    · rw [if_pos ha, if_pos (decide_eq_true ha), List.length_cons, Nat.cast_add, Nat.cast_one,
        add_comm]
    · rw [if_neg ha, if_neg (by simpa using ha), zero_add]

/-- A bucket whose readings all fall into `k'` is a bucket of the readings of `k'`. -/
theorem bucket_bucket {key : ι → κ} {key' : ι → κ'} {l : List ι} {k : κ} {k' : κ'}
    (hpart : ∀ a ∈ l, key a = k → key' a = k') :
    bucket key (bucket key' l k') k = bucket key l k := by
  rw [bucket, bucket, bucket, List.filter_filter]
  refine List.filter_congr fun a ha ↦ ?_
  by_cases hak : key a = k
  · simp [hak, hpart a ha hak]
  · simp [hak]

/-- If the readings of `k` all fall into `k'`, only the bucket `k'` has a mean other than zero. -/
theorem meanOfMeans_indicator {key : ι → κ} {key' : ι → κ'} {l : List ι} {k : κ} {k' : κ'}
    (hpart : ∀ a ∈ l, key a = k → key' a = k') (hk : k ∈ buckets key l) :
    meanOfMeans key' (indicator (F := F) key k) l
      = ((bucket key l k).length : F) / (bucket key' l k').length / (buckets key' l).card := by
  have hmem : k' ∈ buckets key' l := by
    obtain ⟨a, ha, hak⟩ := mem_buckets.mp hk
    exact mem_buckets.mpr ⟨a, ha, hpart a ha hak⟩
  have hother : ∀ j ∈ buckets key' l, j ≠ k' →
      mean ((bucket key' l j).map (indicator (F := F) key k)) = 0 := by
    intro j _ hj
    have hnone : bucket key (bucket key' l j) k = [] :=
      List.filter_eq_nil_iff.mpr fun a ha hak ↦
        hj ((mem_bucket.mp ha).2.symm.trans
          (hpart a (mem_bucket.mp ha).1 (of_decide_eq_true hak)))
    rw [mean, sum_indicator, hnone, List.length_nil, Nat.cast_zero, zero_div]
  rw [meanOfMeans, Finset.sum_eq_single k' hother fun h ↦ absurd hmem h, mean, sum_indicator,
    List.length_map, bucket_bucket hpart]

/-- A bucket that is a proper part of a bucket of the other key gives two averages. -/
theorem exists_meanOfMeans_ne [CharZero F] {key : ι → κ} {key' : ι → κ'} {l : List ι} {k : κ}
    {k' : κ'} (hpart : ∀ a ∈ l, key a = k → key' a = k') (hk : k ∈ buckets key l)
    (hproper : ∃ b ∈ l, key' b = k' ∧ key b ≠ k)
    (hcard : (buckets key l).card = (buckets key' l).card) :
    meanOfMeans key (indicator (F := F) key k) l ≠ meanOfMeans key' (indicator key k) l := by
  obtain ⟨a, ha, hak⟩ := mem_buckets.mp hk
  obtain ⟨b, hb, hbk', hbk⟩ := hproper
  have hpos : 0 < (bucket key l k).length :=
    List.length_pos_of_mem (mem_bucket.mpr ⟨ha, hak⟩)
  have hsub : (bucket key l k).Sublist (bucket key' l k') := by
    rw [← bucket_bucket hpart]
    exact List.filter_sublist
  have hlt : (bucket key l k).length < (bucket key' l k').length := by
    refine lt_of_le_of_ne hsub.length_le fun hlen ↦ hbk ?_
    have hbmem : b ∈ bucket key l k := by
      rw [hsub.eq_of_length hlen]
      exact mem_bucket.mpr ⟨hb, hbk'⟩
    exact (mem_bucket.mp hbmem).2
  have hn : ((buckets key' l).card : F) ≠ 0 := by
    rw [← hcard, Nat.cast_ne_zero]
    exact Finset.card_ne_zero_of_mem hk
  rw [meanOfMeans_indicator (fun _ _ h ↦ h) hk, meanOfMeans_indicator hpart hk, hcard,
    div_self (Nat.cast_ne_zero.mpr hpos.ne')]
  intro heq
  have hratio : (1 : F) = (bucket key l k).length / (bucket key' l k').length :=
    (div_left_inj' hn).mp heq
  rw [eq_div_iff (Nat.cast_ne_zero.mpr (hpos.trans hlt).ne'), one_mul, Nat.cast_inj] at hratio
  exact hlt.ne' hratio

end Means

/-! ## Rounding down and rounding up -/

section Rounding

variable {width : ℤ} {l : List ℤ}

/-- The number of the width in which `t` lies, the start of a width being in it. -/
def floorTo (width t : ℤ) : ℤ := t / width

/-- The number of the multiple at which the width in which `t` lies ends, its end being in it. -/
def ceilTo (width t : ℤ) : ℤ := -(-t / width)

/-- The multiples at which there is a reading. -/
def exactly (width : ℤ) (l : List ℤ) : Finset ℤ :=
  ((l.filter fun t ↦ t % width = 0).map (floorTo width)).toFinset

/-- The multiples after which there is a reading before the next one. -/
def within (width : ℤ) (l : List ℤ) : Finset ℤ :=
  ((l.filter fun t ↦ t % width ≠ 0).map (floorTo width)).toFinset

/-- The multiples before which there is a reading after the last one. -/
def endingIn (width : ℤ) (l : List ℤ) : Finset ℤ :=
  ((l.filter fun t ↦ t % width ≠ 0).map (ceilTo width)).toFinset

theorem ceilTo_of_exact {t : ℤ} (h : t % width = 0) : ceilTo width t = floorTo width t := by
  rw [ceilTo, floorTo, Int.neg_ediv_of_dvd (Int.dvd_of_emod_eq_zero h), neg_neg]

theorem ceilTo_of_not_exact (hwidth : 0 < width) {t : ℤ} (h : t % width ≠ 0) :
    ceilTo width t = floorTo width t + 1 := by
  have hdecomp := Int.mul_ediv_add_emod t width
  have hnonneg := Int.emod_nonneg t hwidth.ne'
  have hlt := Int.emod_lt_of_pos t hwidth
  have hpos : 0 < t % width := lt_of_le_of_ne hnonneg h.symm
  have hquot : -t / width = -(t / width) - 1 :=
    (Int.ediv_eq_iff_of_pos hwidth).mpr ⟨by linarith, by linarith⟩
  rw [ceilTo, floorTo, hquot]
  ring

theorem mem_exactly {k : ℤ} :
    k ∈ exactly width l ↔ ∃ t ∈ l, t % width = 0 ∧ floorTo width t = k := by
  simp only [exactly, List.mem_toFinset, List.mem_map, List.mem_filter, decide_eq_true_iff,
    and_assoc]

theorem mem_within {k : ℤ} : k ∈ within width l ↔ ∃ t ∈ l, t % width ≠ 0 ∧ floorTo width t = k := by
  simp only [within, List.mem_toFinset, List.mem_map, List.mem_filter, decide_eq_true_iff,
    and_assoc]

theorem mem_endingIn {k : ℤ} :
    k ∈ endingIn width l ↔ ∃ t ∈ l, t % width ≠ 0 ∧ ceilTo width t = k := by
  simp only [endingIn, List.mem_toFinset, List.mem_map, List.mem_filter, decide_eq_true_iff,
    and_assoc]

theorem endingIn_eq (hwidth : 0 < width) : endingIn width l = (within width l).image (· + 1) := by
  ext k
  rw [mem_endingIn, Finset.mem_image]
  constructor
  · rintro ⟨t, ht, hexact, rfl⟩
    exact ⟨floorTo width t, mem_within.mpr ⟨t, ht, hexact, rfl⟩,
      (ceilTo_of_not_exact hwidth hexact).symm⟩
  · rintro ⟨j, hj, rfl⟩
    obtain ⟨t, ht, hexact, rfl⟩ := mem_within.mp hj
    exact ⟨t, ht, hexact, ceilTo_of_not_exact hwidth hexact⟩

theorem buckets_floorTo : buckets (floorTo width) l = exactly width l ∪ within width l := by
  ext k
  rw [mem_buckets, Finset.mem_union, mem_exactly, mem_within]
  constructor
  · rintro ⟨t, ht, rfl⟩
    by_cases hexact : t % width = 0
    · exact Or.inl ⟨t, ht, hexact, rfl⟩
    · exact Or.inr ⟨t, ht, hexact, rfl⟩
  · rintro (⟨t, ht, _, rfl⟩ | ⟨t, ht, _, rfl⟩) <;> exact ⟨t, ht, rfl⟩

theorem buckets_ceilTo : buckets (ceilTo width) l = exactly width l ∪ endingIn width l := by
  ext k
  rw [mem_buckets, Finset.mem_union, mem_exactly, mem_endingIn]
  constructor
  · rintro ⟨t, ht, rfl⟩
    by_cases hexact : t % width = 0
    · exact Or.inl ⟨t, ht, hexact, (ceilTo_of_exact hexact).symm⟩
    · exact Or.inr ⟨t, ht, hexact, rfl⟩
  · rintro (⟨t, ht, hexact, rfl⟩ | ⟨t, ht, _, rfl⟩)
    · exact ⟨t, ht, ceilTo_of_exact hexact⟩
    · exact ⟨t, ht, rfl⟩

/-- Rounding down and rounding up give as many buckets exactly when as many multiples with a
reading have one after them as have one before them. -/
theorem card_buckets_eq_iff (hwidth : 0 < width) :
    (buckets (floorTo width) l).card = (buckets (ceilTo width) l).card ↔
      (exactly width l ∩ within width l).card = (exactly width l ∩ endingIn width l).card := by
  have hfloor := Finset.card_union_add_card_inter (exactly width l) (within width l)
  have hceil := Finset.card_union_add_card_inter (exactly width l) (endingIn width l)
  have hshift : (endingIn width l).card = (within width l).card := by
    rw [endingIn_eq hwidth, Finset.card_image_of_injective _ (add_left_injective 1)]
  rw [buckets_floorTo, buckets_ceilTo]
  omega

/-- No multiple with a reading has another one strictly within a width of it. -/
def Apart (width : ℤ) (l : List ℤ) : Prop :=
  Disjoint (exactly width l) (within width l) ∧ Disjoint (exactly width l) (endingIn width l)

instance : Decidable (Apart width l) := inferInstanceAs (Decidable (_ ∧ _))

theorem sameDivision_of_apart (hwidth : 0 < width) (h : Apart width l) :
    SameDivision (floorTo width) (ceilTo width) l := by
  -- An exact reading and one that is not exact are apart under both roundings.
  have hmixed : ∀ a ∈ l, ∀ b ∈ l, a % width = 0 → b % width ≠ 0 →
      floorTo width a ≠ floorTo width b ∧ ceilTo width a ≠ ceilTo width b := by
    intro a ha b hb hexact hnot
    have hmem := mem_exactly.mpr ⟨a, ha, hexact, rfl⟩
    refine ⟨fun heq ↦ ?_, fun heq ↦ ?_⟩
    · exact Finset.disjoint_left.mp h.1 hmem (mem_within.mpr ⟨b, hb, hnot, heq.symm⟩)
    · rw [ceilTo_of_exact hexact] at heq
      exact Finset.disjoint_left.mp h.2 hmem (mem_endingIn.mpr ⟨b, hb, hnot, heq.symm⟩)
  intro a ha b hb
  by_cases hexact : a % width = 0 <;> by_cases hexact' : b % width = 0
  · rw [ceilTo_of_exact hexact, ceilTo_of_exact hexact']
  · have hne := hmixed a ha b hb hexact hexact'
    exact iff_of_false hne.1 hne.2
  · have hne := hmixed b hb a ha hexact' hexact
    exact iff_of_false (fun h ↦ hne.1 h.symm) fun h ↦ hne.2 h.symm
  · rw [ceilTo_of_not_exact hwidth hexact, ceilTo_of_not_exact hwidth hexact', add_left_inj]

/-- A bucket of the one key whose readings are a proper part of a bucket of the other key. -/
def HasProperPart {κ κ' : Type*} [DecidableEq κ] (key : ℤ → κ) (key' : ℤ → κ') (l : List ℤ) :
    Prop :=
  ∃ k ∈ buckets key l, ∃ k', (∀ a ∈ l, key a = k → key' a = k') ∧ ∃ b ∈ l, key' b = k' ∧ key b ≠ k

/-- The last multiple that has a reading both at it and near it decides which of the two roundings
has the smaller bucket there. -/
theorem hasProperPart_of_not_apart (hwidth : 0 < width) (h : ¬Apart width l) :
    HasProperPart (floorTo width) (ceilTo width) l ∨
      HasProperPart (ceilTo width) (floorTo width) l := by
  let mixed := (exactly width l).filter fun k ↦ k ∈ within width l ∨ k ∈ endingIn width l
  have hmem : ∀ k, k ∈ mixed ↔ k ∈ exactly width l ∧ (k ∈ within width l ∨ k ∈ endingIn width l) :=
    fun k ↦ Finset.mem_filter
  have hnonempty : mixed.Nonempty := by
    by_contra hempty
    rw [Finset.not_nonempty_iff_eq_empty] at hempty
    refine h ⟨Finset.disjoint_left.mpr fun k hk hk' ↦ ?_,
      Finset.disjoint_left.mpr fun k hk hk' ↦ ?_⟩
    · exact Finset.notMem_empty k (hempty ▸ (hmem k).mpr ⟨hk, Or.inl hk'⟩)
    · exact Finset.notMem_empty k (hempty ▸ (hmem k).mpr ⟨hk, Or.inr hk'⟩)
  obtain ⟨k, hk, hmax⟩ := mixed.exists_max_image id hnonempty
  obtain ⟨hexactly, hnear⟩ := (hmem k).mp hk
  obtain ⟨e, he, hexact, hek⟩ := mem_exactly.mp hexactly
  by_cases hwithin : k ∈ within width l
  · obtain ⟨b, hb, hnot, hbk⟩ := mem_within.mp hwithin
    have hbceil : ceilTo width b = k + 1 := by rw [ceilTo_of_not_exact hwidth hnot, hbk]
    refine Or.inr ⟨k + 1, mem_buckets.mpr ⟨b, hb, hbceil⟩, k, fun a ha hak ↦ ?_, e, he, hek, ?_⟩
    · by_cases hexact' : a % width = 0
      · -- A reading at the next multiple would make that one mixed as well.
        have hnext : k + 1 ∈ mixed := (hmem _).mpr
          ⟨mem_exactly.mpr ⟨a, ha, hexact', by rw [← ceilTo_of_exact hexact', hak]⟩,
            Or.inr (mem_endingIn.mpr ⟨b, hb, hnot, hbceil⟩)⟩
        have hle : k + 1 ≤ k := hmax _ hnext
        omega
      · rw [ceilTo_of_not_exact hwidth hexact'] at hak
        omega
    · rw [ceilTo_of_exact hexact, hek]
      omega
  · have hending := hnear.resolve_left hwithin
    obtain ⟨b, hb, hnot, hbk⟩ := mem_endingIn.mp hending
    refine Or.inl ⟨k, mem_buckets.mpr ⟨e, he, hek⟩, k, fun a ha hak ↦ ?_, b, hb, hbk, fun hbk' ↦ ?_⟩
    · by_cases hexact' : a % width = 0
      · rw [ceilTo_of_exact hexact', hak]
      · exact absurd (mem_within.mpr ⟨a, ha, hexact', hak⟩) hwithin
    · exact hwithin (mem_within.mpr ⟨b, hb, hnot, hbk'⟩)

end Rounding

end Bucketing

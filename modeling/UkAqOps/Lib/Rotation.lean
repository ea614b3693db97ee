import Mathlib.Data.Finset.Card
import Mathlib.Data.Prod.Lex
import Mathlib.Order.WithBot
import Mathlib.Tactic.Ring

/-!
# Rotating through a set in batches

Each member has a stamp or none. A batch takes the first members in the order of their stamps, those
without one before all others, and who succeeds gets a stamp later than every other. While a member
waits, whoever succeeds falls behind it for good; so the members ahead of it get fewer in every
round, as long as a batch is longer than the failures in it.
-/

namespace Rotation

variable {α τ : Type*} [LinearOrder α] [LinearOrder τ]

/-- The turn of a member: no stamp comes first, then the oldest one. -/
def turn (stamp : α → WithBot τ) (a : α) : WithBot τ ×ₗ α := toLex (stamp a, a)

theorem turn_lt_of_stamp_lt {stamp : α → WithBot τ} {a b : α} (h : stamp a < stamp b) :
    turn stamp a < turn stamp b := Prod.Lex.toLex_lt_toLex.mpr (Or.inl h)

/-- The members in the order of their turns. -/
structure IsQueue (members : Finset α) (stamp : α → WithBot τ) (queue : List α) : Prop where
  sorted : queue.Pairwise fun a b ↦ turn stamp a < turn stamp b
  mem_iff : ∀ a, a ∈ queue ↔ a ∈ members

theorem IsQueue.nodup {members : Finset α} {stamp : α → WithBot τ} {queue : List α}
    (h : IsQueue members stamp queue) : queue.Nodup :=
  h.sorted.imp fun hlt heq ↦ absurd hlt (by rw [heq]; exact lt_irrefl _)

/-- Whoever is in the batch has those with an earlier turn before it. -/
theorem IsQueue.sublist_take {members : Finset α} {stamp : α → WithBot τ} {queue : List α}
    (h : IsQueue members stamp queue) {limit : ℕ} {a b : α} (ha : a ∈ members)
    (hb : b ∈ queue.take limit) (hlt : turn stamp a < turn stamp b) :
    [a, b].Sublist (queue.take limit) := by
  have hsorted := h.sorted.sublist (List.take_sublist limit queue)
  have hmem : a ∈ queue.take limit := by
    rcases List.mem_append.mp ((List.take_append_drop limit queue).symm ▸ (h.mem_iff a).mpr ha)
      with htake | hdrop
    · exact htake
    · have hpairs := h.sorted
      rw [← List.take_append_drop limit queue] at hpairs
      exact absurd ((List.pairwise_append.mp hpairs).2.2 b hb a hdrop) (not_lt.mpr hlt.le)
  obtain ⟨front, back, hsplit⟩ := List.append_of_mem hmem
  rw [hsplit] at hsorted hb ⊢
  rcases List.mem_append.mp hb with hfront | hback
  · exact absurd ((List.pairwise_append.mp hsorted).2.2 b hfront a List.mem_cons_self)
      (not_lt.mpr hlt.le)
  · rcases List.mem_cons.mp hback with rfl | hback
    · exact absurd hlt (lt_irrefl _)
    · exact (((List.singleton_sublist.mpr hback).cons_cons a)).trans (List.sublist_append_right _ _)

/-- A round: the batch, and the stamps of those in it that did not fail. -/
structure Round (members : Finset α) (limit : ℕ) (stamp stamp' : α → WithBot τ) (batch : List α)
    (failed : Finset α) : Prop where
  taken : ∃ queue, IsQueue members stamp queue ∧ batch = queue.take limit
  stamped : ∀ a ∈ batch, a ∉ failed → ∀ b ∈ members, stamp b < stamp' a
  kept : ∀ a, a ∉ batch ∨ a ∈ failed → stamp' a = stamp a

/-- The members with an earlier turn. -/
def ahead (members : Finset α) (stamp : α → WithBot τ) (d : α) : Finset α :=
  members.filter fun a ↦ turn stamp a < turn stamp d

namespace Round

variable {members : Finset α} {limit : ℕ} {stamp stamp' : α → WithBot τ} {batch : List α}
  {failed : Finset α} {d : α}

/-- Who is not taken waits behind a full batch. -/
theorem subset_ahead (h : Round members limit stamp stamp' batch failed) (hd : d ∈ members)
    (hwaits : d ∉ batch) :
    batch.toFinset ⊆ ahead members stamp d ∧ batch.toFinset.card = limit := by
  obtain ⟨queue, hqueue, rfl⟩ := h.taken
  have hdrop : d ∈ queue.drop limit := by
    rcases List.mem_append.mp ((List.take_append_drop limit queue).symm ▸ (hqueue.mem_iff d).mpr hd)
      with htake | hdrop
    · exact absurd htake hwaits
    · exact hdrop
  have hpairs := hqueue.sorted
  rw [← List.take_append_drop limit queue] at hpairs
  constructor
  · intro a ha
    have htake := List.mem_toFinset.mp ha
    exact Finset.mem_filter.mpr ⟨(hqueue.mem_iff a).mp (List.mem_of_mem_take htake),
      (List.pairwise_append.mp hpairs).2.2 a htake d hdrop⟩
  · have hlength := List.length_pos_of_mem hdrop
    rw [List.length_drop] at hlength
    rw [List.toFinset_card_of_nodup (hqueue.nodup.sublist (List.take_sublist _ _)),
      List.length_take]
    omega

/-- Who succeeds is no longer ahead of those who wait. -/
theorem ahead_subset (h : Round members limit stamp stamp' batch failed) (hd : d ∈ members)
    (hwaits : d ∉ batch) :
    ahead members stamp' d ⊆ ahead members stamp d \ (batch.toFinset \ failed) := by
  have hsame : stamp' d = stamp d := h.kept d (Or.inl hwaits)
  intro a ha
  obtain ⟨hmem, hlt⟩ := Finset.mem_filter.mp ha
  by_cases hstamped : a ∈ batch ∧ a ∉ failed
  · have hlater : turn stamp' d < turn stamp' a := turn_lt_of_stamp_lt (by
      rw [hsame]
      exact h.stamped a hstamped.1 hstamped.2 d hd)
    exact absurd hlt hlater.asymm
  · have hkept : stamp' a = stamp a := h.kept a (by
      by_cases hbatch : a ∈ batch
      · exact Or.inr (by_contra fun hfailed ↦ hstamped ⟨hbatch, hfailed⟩)
      · exact Or.inl hbatch)
    rw [turn, turn, hkept, hsame] at hlt
    refine Finset.mem_sdiff.mpr ⟨Finset.mem_filter.mpr ⟨hmem, hlt⟩, fun hsuccess ↦ ?_⟩
    obtain ⟨hbatch, hfailed⟩ := Finset.mem_sdiff.mp hsuccess
    exact hstamped ⟨List.mem_toFinset.mp hbatch, hfailed⟩

/-- The members ahead get fewer by the successes of the round. -/
theorem card_ahead_add_le (h : Round members limit stamp stamp' batch failed) (hd : d ∈ members)
    (hwaits : d ∉ batch) {failures : ℕ} (hfailures : failed.card ≤ failures) :
    (ahead members stamp' d).card + (limit - failures) ≤ (ahead members stamp d).card := by
  obtain ⟨hsubset, hcard⟩ := h.subset_ahead hd hwaits
  have hless := Finset.card_le_card (h.ahead_subset hd hwaits)
  have hsuccess : batch.toFinset \ failed ⊆ ahead members stamp d :=
    Finset.sdiff_subset.trans hsubset
  rw [Finset.card_sdiff_of_subset hsuccess] at hless
  have hcount := Finset.le_card_sdiff failed batch.toFinset
  have hle := Finset.card_le_card hsuccess
  omega

end Round

/-- **Nobody waits for long**: with fewer failures than places in every round, each member is in a
batch before the rounds have served as many as there are members. -/
theorem exists_mem_batch {members : Finset α} {limit failures rounds : ℕ}
    {stamp : ℕ → α → WithBot τ} {batch : ℕ → List α} {failed : ℕ → Finset α}
    (hround : ∀ i < rounds, Round members limit (stamp i) (stamp (i + 1)) (batch i) (failed i))
    (hfailed : ∀ i < rounds, (failed i).card ≤ failures) (hrounds : 0 < rounds)
    (hbound : members.card ≤ rounds * (limit - failures) + failures) (hlimit : failures < limit)
    {d : α} (hd : d ∈ members) : ∃ i < rounds, d ∈ batch i := by
  by_contra hnever
  have hwaits : ∀ i < rounds, d ∉ batch i := fun i hi hmem ↦ hnever ⟨i, hi, hmem⟩
  have hcount : ∀ i ≤ rounds,
      (ahead members (stamp i) d).card + i * (limit - failures) + 1 ≤ members.card := by
    intro i
    induction i with
    | zero =>
      intro _
      have hstrict : ahead members (stamp 0) d ⊂ members := by
        refine Finset.filter_ssubset.mpr ⟨d, hd, lt_irrefl _⟩
      have hlt := Finset.card_lt_card hstrict
      omega
    | succ i ih =>
      intro hi
      have hstep := (hround i hi).card_ahead_add_le hd (hwaits i hi) (hfailed i hi)
      have hprevious := ih (Nat.le_of_succ_le hi)
      rw [Nat.add_mul, Nat.one_mul]
      omega
  obtain ⟨last, rfl⟩ := Nat.exists_eq_add_of_lt hrounds
  have hfull := (hround (0 + last) (by omega)).subset_ahead hd (hwaits _ (by omega))
  have hle := Finset.card_le_card hfull.1
  have hlast := hcount (0 + last) (by omega)
  rw [Nat.add_mul, Nat.one_mul] at hbound
  omega

end Rotation

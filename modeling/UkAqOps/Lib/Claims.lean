import UkAqOps.Lib.OrderedMap

/-!
# Claims that go to the first claimant

Owners claim items one after the other. An item belongs to the first owner that claims it, and a
claim by another owner makes both of them contestants. One pass finds every owner that shares an
item, however many owners claim it.
-/

namespace Claims

variable {ω ι : Type*} [DecidableEq ω] [DecidableEq ι]

/-- What a pass over the claims keeps: the owner of each item, the owners that share an item and
the items that are shared. -/
structure Ledger (ω ι : Type*) where
  membership : OrderedMap ι ω
  contestants : List ω
  contested : List ι

def Ledger.empty : Ledger ω ι := ⟨OrderedMap.empty, [], []⟩

/-- An owner claims an item. -/
def Ledger.claim (ledger : Ledger ω ι) (c : ω × ι) : Ledger ω ι :=
  match ledger.membership.get? c.2 with
  | some previous =>
    if previous ≠ c.1 then
      { ledger with
        contestants := (ledger.contestants.insert previous).insert c.1
        contested := ledger.contested.insert c.2 }
    else { ledger with membership := ledger.membership.set c.2 c.1 }
  | none => { ledger with membership := ledger.membership.set c.2 c.1 }

/-- The ledger after a list of claims. -/
def ledgerOf (claims : List (ω × ι)) : Ledger ω ι := claims.foldl Ledger.claim Ledger.empty

/-- The owner shares one of its items with another owner. -/
def IsContestant (claims : List (ω × ι)) (owner : ω) : Prop :=
  ∃ item other, (owner, item) ∈ claims ∧ (other, item) ∈ claims ∧ other ≠ owner

/-- What holds after every claim: an item belongs to somebody who claimed it once somebody did, and
everybody else who claimed it is a contestant together with its owner. -/
structure Ledger.Accounts (ledger : Ledger ω ι) (claims : List (ω × ι)) : Prop where
  owned : ∀ {item owner}, ledger.membership.get? item = some owner → (owner, item) ∈ claims
  claimed : ∀ {item owner}, (owner, item) ∈ claims → ∃ holder, ledger.membership.get? item = some holder ∧
    (holder ≠ owner → holder ∈ ledger.contestants ∧ owner ∈ ledger.contestants)
  contestant : ∀ owner ∈ ledger.contestants, IsContestant claims owner

omit [DecidableEq ω] [DecidableEq ι] in
theorem IsContestant.mono {claims claims' : List (ω × ι)} (h : claims ⊆ claims') {owner : ω}
    (howner : IsContestant claims owner) : IsContestant claims' owner := by
  obtain ⟨item, other, hmem, hother, hne⟩ := howner
  exact ⟨item, other, h hmem, h hother, hne⟩

theorem Ledger.Accounts.claim {ledger : Ledger ω ι} {claims : List (ω × ι)}
    (h : ledger.Accounts claims) (c : ω × ι) : (ledger.claim c).Accounts (claims ++ [c]) := by
  obtain ⟨owner, item⟩ := c
  have hsub : claims ⊆ claims ++ [(owner, item)] := List.subset_append_left _ _
  have hnew : (owner, item) ∈ claims ++ [(owner, item)] := by simp
  rw [Ledger.claim]
  rcases hprevious : ledger.membership.get? item with _ | previous
  · refine ⟨fun {i o} hget ↦ ?_, fun {i o} hmem ↦ ?_, fun o ho ↦ (h.contestant o ho).mono hsub⟩
    · rw [OrderedMap.get?_set] at hget
      split at hget
      · rename_i hi
        rw [hi, ← Option.some.inj hget]
        exact hnew
      · exact hsub (h.owned hget)
    · rw [OrderedMap.get?_set]
      rcases List.mem_append.mp hmem with hold | hlast
      · obtain ⟨holder, hholder, himp⟩ := h.claimed hold
        have hne : i ≠ item := fun hi ↦ by
          rw [hi, hprevious] at hholder
          cases hholder
        rw [if_neg hne]
        exact ⟨holder, hholder, himp⟩
      · obtain ⟨rfl, rfl⟩ := Prod.mk.inj (List.mem_singleton.mp hlast)
        exact ⟨o, if_pos rfl, fun hne ↦ absurd rfl hne⟩
  · dsimp only
    split
    · rename_i hne
      refine ⟨fun hget ↦ hsub (h.owned hget), fun {i o} hmem ↦ ?_, fun o ho ↦ ?_⟩
      · rcases List.mem_append.mp hmem with hold | hlast
        · obtain ⟨holder, hholder, himp⟩ := h.claimed hold
          refine ⟨holder, hholder, fun hother ↦ ?_⟩
          obtain ⟨hin, hin'⟩ := himp hother
          exact ⟨List.mem_insert_of_mem (List.mem_insert_of_mem hin),
            List.mem_insert_of_mem (List.mem_insert_of_mem hin')⟩
        · obtain ⟨rfl, rfl⟩ := Prod.mk.inj (List.mem_singleton.mp hlast)
          exact ⟨previous, hprevious, fun _ ↦
            ⟨List.mem_insert_of_mem List.mem_insert_self, List.mem_insert_self⟩⟩
      · rcases List.mem_insert_iff.mp ho with rfl | ho
        · exact ⟨item, previous, hnew, hsub (h.owned hprevious), hne⟩
        rcases List.mem_insert_iff.mp ho with rfl | ho
        · exact ⟨item, owner, hsub (h.owned hprevious), hnew, hne.symm⟩
        · exact (h.contestant o ho).mono hsub
    · rename_i hsame
      obtain rfl : previous = owner := not_not.mp hsame
      have hget' : ∀ i, (ledger.membership.set item previous).get? i = ledger.membership.get? i := by
        intro i
        rw [OrderedMap.get?_set]
        split
        · rename_i hi
          rw [hi, hprevious]
        · rfl
      refine ⟨fun hget ↦ hsub (h.owned ((hget' _).symm.trans hget)), fun {i o} hmem ↦ ?_,
        fun o ho ↦ (h.contestant o ho).mono hsub⟩
      have hold : (o, i) ∈ claims := by
        rcases List.mem_append.mp hmem with hold | hlast
        · exact hold
        · obtain ⟨rfl, rfl⟩ := Prod.mk.inj (List.mem_singleton.mp hlast)
          exact h.owned hprevious
      obtain ⟨holder, hholder, himp⟩ := h.claimed hold
      exact ⟨holder, (hget' i).trans hholder, himp⟩

theorem accounts_ledgerOf (claims : List (ω × ι)) : (ledgerOf claims).Accounts claims := by
  induction claims using List.reverseRecOn with
  | nil =>
    refine ⟨fun hget ↦ ?_, fun hmem ↦ absurd hmem List.not_mem_nil, fun o ho ↦ ?_⟩
    · cases hget
    · exact absurd ho List.not_mem_nil
  | append_singleton claims c ih =>
    rw [ledgerOf, List.foldl_append]
    exact ih.claim c

/-- **One pass finds the owners that share an item.** -/
theorem mem_contestants_iff {claims : List (ω × ι)} {owner : ω} :
    owner ∈ (ledgerOf claims).contestants ↔ IsContestant claims owner := by
  have haccounts := accounts_ledgerOf claims
  constructor
  · exact haccounts.contestant owner
  · rintro ⟨item, other, hmem, hother, hne⟩
    obtain ⟨holder, hholder, himp⟩ := haccounts.claimed hmem
    by_cases hown : holder = owner
    · obtain ⟨holder', hholder', himp'⟩ := haccounts.claimed hother
      obtain rfl : holder' = holder := Option.some.inj (hholder'.symm.trans hholder)
      rw [← hown]
      exact (himp' (by rw [hown]; exact hne.symm)).1
    · exact (himp hown).2

end Claims

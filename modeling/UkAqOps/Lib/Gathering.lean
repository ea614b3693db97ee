import Mathlib.Data.List.Basic
import Mathlib.Order.MinMax
import Mathlib.Data.Nat.Notation
import Mathlib.Tactic.Common

/-!
# Gathering intervals into blocks

Items that reach from one number to another, in the order of where they start, are gathered from the
left: a block takes in the next item as long as it accepts it, and else a new block begins. Whatever
is accepted, every item is in one block, in its place, and a block reaches exactly as far as its
members do.
-/

namespace Gathering

/-- Some items, and what they reach from and to. -/
structure Block (ι : Type*) where
  start : ℕ
  stop : ℕ
  members : List ι

variable {ι : Type*} (lo hi : ι → ℕ)

/-- The block of one item. -/
def Block.single (a : ι) : Block ι := ⟨lo a, hi a, [a]⟩

/-- The block with a further item, which starts no earlier than it does. -/
def Block.extend (block : Block ι) (a : ι) : Block ι :=
  ⟨block.start, max block.stop (hi a), block.members ++ [a]⟩

/-- Gather the items into `current` and the blocks after it. -/
def gather (accept : Block ι → ι → Bool) (current : Block ι) : List ι → List (Block ι)
  | [] => [current]
  | a :: rest =>
    if accept current a then gather accept (current.extend hi a) rest
    else current :: gather accept (.single lo hi a) rest

/-- The block reaches from where the first of its members starts to where the last one stops. -/
structure Block.Hull (block : Block ι) : Prop where
  start_le : ∀ a ∈ block.members, block.start ≤ lo a
  le_stop : ∀ a ∈ block.members, hi a ≤ block.stop
  start_eq : ∃ a ∈ block.members, lo a = block.start
  stop_eq : ∃ a ∈ block.members, hi a = block.stop

variable {lo hi}

theorem Block.hull_single (a : ι) : (Block.single lo hi a).Hull lo hi := by
  refine ⟨fun b hb ↦ ?_, fun b hb ↦ ?_, ⟨a, List.mem_singleton_self a, rfl⟩,
    ⟨a, List.mem_singleton_self a, rfl⟩⟩
  · rw [List.mem_singleton.mp hb]
    exact le_rfl
  · rw [List.mem_singleton.mp hb]
    exact le_rfl

theorem Block.Hull.extend {block : Block ι} (h : block.Hull lo hi) {a : ι}
    (ha : block.start ≤ lo a) : (block.extend hi a).Hull lo hi := by
  refine ⟨fun b hb ↦ ?_, fun b hb ↦ ?_, ?_, ?_⟩
  · rcases List.mem_append.mp hb with hb | hb
    · exact h.start_le b hb
    · rw [List.mem_singleton.mp hb]
      exact ha
  · rcases List.mem_append.mp hb with hb | hb
    · exact le_max_of_le_left (h.le_stop b hb)
    · rw [List.mem_singleton.mp hb]
      exact le_max_right _ _
  · obtain ⟨b, hb, hstart⟩ := h.start_eq
    exact ⟨b, List.mem_append_left _ hb, hstart⟩
  · rcases le_total block.stop (hi a) with hle | hle
    · exact ⟨a, List.mem_append_right _ (List.mem_singleton_self a), (max_eq_right hle).symm⟩
    · obtain ⟨b, hb, hstop⟩ := h.stop_eq
      exact ⟨b, List.mem_append_left _ hb, hstop.trans (max_eq_left hle).symm⟩

variable {accept : Block ι → ι → Bool}

/-- Every item is a member of one block, and in order. -/
theorem members_gather (current : Block ι) (rest : List ι) :
    (gather lo hi accept current rest).flatMap Block.members = current.members ++ rest := by
  induction rest generalizing current with
  | nil => rw [gather, List.flatMap_singleton, List.append_nil]
  | cons a rest ih =>
    rw [gather]
    split
    · rw [ih, Block.extend, List.append_assoc, List.singleton_append]
    · rw [List.flatMap_cons, ih, Block.single, List.singleton_append]

/-- What one item gives, and taking in a further one keeps, holds of every block. -/
theorem forall_mem_gather {P : Block ι → Prop} {current : Block ι} {rest : List ι}
    (hcurrent : P current) (hsingle : ∀ a ∈ rest, P (.single lo hi a))
    (hextend : ∀ block, P block → ∀ a ∈ rest, block.start ≤ lo a → accept block a = true →
      P (block.extend hi a))
    (hfirst : ∀ a ∈ rest, current.start ≤ lo a) (hsorted : rest.Pairwise fun a b ↦ lo a ≤ lo b) :
    ∀ block ∈ gather lo hi accept current rest, P block := by
  induction rest generalizing current with
  | nil =>
    intro block hblock
    rw [List.mem_singleton.mp hblock]
    exact hcurrent
  | cons a rest ih =>
    obtain ⟨hnext, hrest⟩ := List.pairwise_cons.mp hsorted
    have hsingle' : ∀ b ∈ rest, P (.single lo hi b) := fun b hb ↦
      hsingle b (List.mem_cons_of_mem a hb)
    have hextend' : ∀ block, P block → ∀ b ∈ rest, block.start ≤ lo b → accept block b = true →
        P (block.extend hi b) := fun block hblock b hb ↦
      hextend block hblock b (List.mem_cons_of_mem a hb)
    rw [gather]
    split
    · rename_i haccept
      have hextended := hextend current hcurrent a List.mem_cons_self (hfirst a List.mem_cons_self)
        haccept
      exact ih hextended hsingle' hextend' (fun b hb ↦ hfirst b (List.mem_cons_of_mem a hb)) hrest
    · intro block hblock
      rcases List.mem_cons.mp hblock with rfl | hblock
      · exact hcurrent
      · exact ih (hsingle a List.mem_cons_self) hsingle' hextend' hnext hrest block hblock

/-- Every block reaches exactly as far as its members do. -/
theorem hull_gather {current : Block ι} {rest : List ι} (hcurrent : current.Hull lo hi)
    (hfirst : ∀ a ∈ rest, current.start ≤ lo a) (hsorted : rest.Pairwise fun a b ↦ lo a ≤ lo b) :
    ∀ block ∈ gather lo hi accept current rest, block.Hull lo hi :=
  forall_mem_gather hcurrent (fun a _ ↦ Block.hull_single a) (fun _ h _ _ hle _ ↦ h.extend hle)
    hfirst hsorted

/-- The blocks are in the order of their starts, none of which is that of another, if a block takes
in what starts where it does. -/
theorem pairwise_start_gather {P : Block ι → Prop} {current : Block ι} {rest : List ι}
    (hcurrent : P current) (hsingle : ∀ a ∈ rest, P (.single lo hi a))
    (hextend : ∀ block, P block → ∀ a ∈ rest, block.start ≤ lo a → accept block a = true →
      P (block.extend hi a))
    (haccept : ∀ block, P block → ∀ a ∈ rest, block.start = lo a → accept block a = true)
    (hfirst : ∀ a ∈ rest, current.start ≤ lo a) (hsorted : rest.Pairwise fun a b ↦ lo a ≤ lo b) :
    (gather lo hi accept current rest).Pairwise fun a b ↦ a.start < b.start := by
  induction rest generalizing current with
  | nil => exact List.pairwise_singleton _ _
  | cons a rest ih =>
    obtain ⟨hnext, hrest⟩ := List.pairwise_cons.mp hsorted
    have hsingle' : ∀ b ∈ rest, P (.single lo hi b) := fun b hb ↦
      hsingle b (List.mem_cons_of_mem a hb)
    have hextend' : ∀ block, P block → ∀ b ∈ rest, block.start ≤ lo b → accept block b = true →
        P (block.extend hi b) := fun block hblock b hb ↦
      hextend block hblock b (List.mem_cons_of_mem a hb)
    have haccept' : ∀ block, P block → ∀ b ∈ rest, block.start = lo b → accept block b = true :=
      fun block hblock b hb ↦ haccept block hblock b (List.mem_cons_of_mem a hb)
    rw [gather]
    split
    · rename_i htaken
      have hextended := hextend current hcurrent a List.mem_cons_self (hfirst a List.mem_cons_self)
        htaken
      exact ih hextended hsingle' hextend' haccept'
        (fun b hb ↦ hfirst b (List.mem_cons_of_mem a hb)) hrest
    · rename_i hrefused
      refine List.pairwise_cons.mpr ⟨fun block hblock ↦ ?_, ih (hsingle a List.mem_cons_self)
        hsingle' hextend' haccept' hnext hrest⟩
      have hlater : lo a ≤ block.start := forall_mem_gather (P := fun block ↦ lo a ≤ block.start)
        le_rfl hnext (fun _ h _ _ _ _ ↦ h) hnext hrest block hblock
      refine lt_of_lt_of_le (lt_of_le_of_ne (hfirst a List.mem_cons_self) fun heq ↦ ?_) hlater
      exact hrefused (haccept current hcurrent a List.mem_cons_self heq)

end Gathering

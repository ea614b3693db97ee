import Mathlib.Data.List.Lex
import Mathlib.Data.Nat.Notation
import Mathlib.Order.Defs.LinearOrder

/-!
# The order of strings

Strings are compared by their UTF-16 code units. A character is one unit, or a high and a low
surrogate; a string can be read back from its units.
-/

namespace UkAqOps

/-- The UTF-16 code units of a character. -/
def charUnits (c : Char) : List ℕ :=
  if c.toNat < 0x10000 then [c.toNat]
  else [0xD800 + (c.toNat - 0x10000) / 0x400, 0xDC00 + (c.toNat - 0x10000) % 0x400]

/-- The UTF-16 code units of a string. -/
def codeUnits (s : String) : List ℕ := s.toList.flatMap charUnits

/-- No character is a surrogate. -/
theorem toNat_lt_or_ge (c : Char) : c.toNat < 0xD800 ∨ 0xE000 ≤ c.toNat ∧ c.toNat < 0x110000 := by
  have h := c.valid
  simp only [UInt32.isValidChar, Nat.isValidChar] at h
  simp only [Char.toNat]
  omega

/-- The units of a character can be told from what follows them. -/
theorem charUnits_append_inj {c d : Char} {rest rest' : List ℕ}
    (h : charUnits c ++ rest = charUnits d ++ rest') : c = d ∧ rest = rest' := by
  have hc := toNat_lt_or_ge c
  have hd := toNat_lt_or_ge d
  rw [charUnits, charUnits] at h
  by_cases hsmallC : c.toNat < 0x10000
  · by_cases hsmallD : d.toNat < 0x10000
    · rw [if_pos hsmallC, if_pos hsmallD, List.singleton_append, List.singleton_append] at h
      obtain ⟨hhead, htail⟩ := List.cons.inj h
      exact ⟨Char.toNat_inj.mp hhead, htail⟩
    · rw [if_pos hsmallC, if_neg hsmallD, List.singleton_append, List.cons_append] at h
      have hhead := (List.cons.inj h).1
      omega
  · by_cases hsmallD : d.toNat < 0x10000
    · rw [if_neg hsmallC, if_pos hsmallD, List.singleton_append, List.cons_append] at h
      have hhead := (List.cons.inj h).1
      omega
    · rw [if_neg hsmallC, if_neg hsmallD] at h
      simp only [List.cons_append, List.nil_append] at h
      obtain ⟨hhigh, h⟩ := List.cons.inj h
      obtain ⟨hlow, htail⟩ := List.cons.inj h
      exact ⟨Char.toNat_inj.mp (by omega), htail⟩

theorem charUnits_ne_nil (c : Char) : charUnits c ≠ [] := by
  rw [charUnits]
  split <;> exact List.cons_ne_nil _ _

theorem flatMap_charUnits_injective : Function.Injective (List.flatMap charUnits) := by
  intro cs ds h
  induction cs generalizing ds with
  | nil =>
    rcases ds with _ | ⟨d, ds⟩
    · rfl
    · rw [List.flatMap_cons] at h
      exact absurd h.symm (List.append_ne_nil_of_left_ne_nil (charUnits_ne_nil d) _)
  | cons c cs ih =>
    rcases ds with _ | ⟨d, ds⟩
    · rw [List.flatMap_cons] at h
      exact absurd h (List.append_ne_nil_of_left_ne_nil (charUnits_ne_nil c) _)
    · rw [List.flatMap_cons, List.flatMap_cons] at h
      obtain ⟨hhead, htail⟩ := charUnits_append_inj h
      rw [hhead, ih htail]

theorem codeUnits_injective : Function.Injective codeUnits := fun _ _ h ↦
  String.toList_inj.mp (flatMap_charUnits_injective h)

/-! ## Comparison -/

/-- `left <= right` on strings. -/
def codeUnitLe (a b : String) : Bool := decide (codeUnits a ≤ codeUnits b)

theorem codeUnitLe_iff {a b : String} : codeUnitLe a b = true ↔ codeUnits a ≤ codeUnits b :=
  decide_eq_true_iff

theorem codeUnitLe_total (a b : String) : (codeUnitLe a b || codeUnitLe b a) = true := by
  rw [Bool.or_eq_true, codeUnitLe_iff, codeUnitLe_iff]
  exact le_total _ _

theorem codeUnitLe_trans (a b c : String) (hab : codeUnitLe a b = true)
    (hbc : codeUnitLe b c = true) : codeUnitLe a c = true :=
  codeUnitLe_iff.mpr ((codeUnitLe_iff.mp hab).trans (codeUnitLe_iff.mp hbc))

theorem codeUnitLe_antisymm (a b : String) (hab : codeUnitLe a b = true)
    (hba : codeUnitLe b a = true) : a = b :=
  codeUnits_injective (le_antisymm (codeUnitLe_iff.mp hab) (codeUnitLe_iff.mp hba))

end UkAqOps

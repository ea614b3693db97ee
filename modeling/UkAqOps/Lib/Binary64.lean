import Mathlib.Data.Nat.Digits.Defs
import Mathlib.Tactic.Linarith
import Mathlib.Tactic.Ring

/-!
# Binary64 numbers

The interchange format of IEEE 754: a sign, eleven bits of exponent and fifty-two bits of fraction.
A number with an exponent between the two extremes is `± (2 ^ 52 + fraction) * 2 ^ (exponent - 1075)`,
and that form is unique, so that a positive integer is written in one way only.
-/

/-- The bits of a binary64 number. -/
@[ext] structure Binary64 where
  bits : BitVec 64
deriving DecidableEq

namespace Binary64

/-! ## Fields -/

def negative (d : Binary64) : Bool := 2 ^ 63 ≤ d.bits.toNat

def exponent (d : Binary64) : ℕ := d.bits.toNat / 2 ^ 52 % 2 ^ 11

def fraction (d : Binary64) : ℕ := d.bits.toNat % 2 ^ 52

/-- Neither an infinity nor a NaN. -/
def isFinite (d : Binary64) : Bool := d.exponent ≠ 2047

def zero : Binary64 := ⟨0⟩

def negativeZero : Binary64 := ⟨BitVec.ofNat 64 (2 ^ 63)⟩

theorem fraction_lt (d : Binary64) : d.fraction < 2 ^ 52 := Nat.mod_lt _ (by positivity)

/-- The fields are all there is to a number. -/
theorem eq_of_fields {a b : Binary64} (hnegative : a.negative = b.negative)
    (hexponent : a.exponent = b.exponent) (hfraction : a.fraction = b.fraction) : a = b := by
  have ha := a.bits.isLt
  have hb := b.bits.isLt
  have hsign : 2 ^ 63 ≤ a.bits.toNat ↔ 2 ^ 63 ≤ b.bits.toNat := by
    simpa only [negative, decide_eq_decide] using hnegative
  simp only [exponent, fraction] at hexponent hfraction
  have hnat : a.bits.toNat = b.bits.toNat := by omega
  exact Binary64.ext (BitVec.eq_of_toNat_eq hnat)

/-! ## Integers -/

/-- The size of a number, if it is an integer. -/
def natAbs? (d : Binary64) : Option ℕ :=
  if d.exponent = 2047 then none
  else if d.exponent = 0 then if d.fraction = 0 then some 0 else none
  else if 1075 ≤ d.exponent then some ((2 ^ 52 + d.fraction) * 2 ^ (d.exponent - 1075))
  else if (2 ^ 52 + d.fraction) % 2 ^ (1075 - d.exponent) = 0 then
    some ((2 ^ 52 + d.fraction) / 2 ^ (1075 - d.exponent))
  else none

/-- The value of a number, if it is an integer. -/
def toInt? (d : Binary64) : Option ℤ :=
  d.natAbs?.map fun n : ℕ ↦ if d.negative then -(n : ℤ) else (n : ℤ)

example : toInt? ⟨0x4059000000000000⟩ = some 100 := by decide

/-- A whole number other than zero in terms of its fields, without the division. -/
theorem natAbs?_eq_some {d : Binary64} {n : ℕ} (h : d.natAbs? = some n) (hn : 0 < n) :
    n * 2 ^ 1075 = (2 ^ 52 + d.fraction) * 2 ^ d.exponent := by
  rw [natAbs?] at h
  split at h
  · cases h
  · split at h
    · split at h
      · rw [← Option.some.inj h] at hn
        exact absurd hn (lt_irrefl 0)
      · cases h
    · split at h
      · rename_i hlarge
        rw [← Option.some.inj h, mul_assoc, ← pow_add, Nat.sub_add_cancel hlarge]
      · rename_i hsmall
        split at h
        · rename_i hmod
          have hdiv : n * 2 ^ (1075 - d.exponent) = 2 ^ 52 + d.fraction := by
            rw [← Option.some.inj h]
            exact Nat.div_mul_cancel (Nat.dvd_of_mod_eq_zero hmod)
          have hpow : (2 : ℕ) ^ 1075 = 2 ^ (1075 - d.exponent) * 2 ^ d.exponent := by
            rw [← pow_add, Nat.sub_add_cancel (by omega)]
          rw [hpow, ← mul_assoc, hdiv]
        · cases h

/-- The form with a leading one is unique. -/
theorem significand_unique {p q e f : ℕ} (hp : p < 2 ^ 52) (hq : q < 2 ^ 52)
    (h : (2 ^ 52 + p) * 2 ^ e = (2 ^ 52 + q) * 2 ^ f) : e = f ∧ p = q := by
  have hle : ∀ {p q e f : ℕ}, p < 2 ^ 52 → (2 ^ 52 + p) * 2 ^ e = (2 ^ 52 + q) * 2 ^ f → f ≤ e := by
    intro p q e f hp h
    by_contra hlt
    obtain ⟨k, rfl⟩ := Nat.exists_eq_add_of_lt (not_le.mp hlt)
    have hcancel : 2 ^ 52 + p = (2 ^ 52 + q) * 2 ^ (k + 1) := by
      refine Nat.eq_of_mul_eq_mul_right (pow_pos two_pos e) (h.trans ?_)
      ring
    have hpow : 2 ≤ 2 ^ (k + 1) := Nat.le_self_pow (Nat.succ_ne_zero k) 2
    have hmul := Nat.mul_le_mul (Nat.le_add_right (2 ^ 52) q) hpow
    omega
  have hexponent : e = f := le_antisymm (hle hq h.symm) (hle hp h)
  rw [hexponent] at h
  have hcancel := Nat.eq_of_mul_eq_mul_right (pow_pos two_pos f) h
  exact ⟨hexponent, by omega⟩

/-- **A positive integer is one number.** -/
theorem eq_of_toInt?_eq {a b : Binary64} {n : ℤ} (ha : a.toInt? = some n) (hb : b.toInt? = some n)
    (hn : 0 < n) : a = b := by
  have hform : ∀ {d : Binary64}, d.toInt? = some n →
      d.negative = false ∧ d.natAbs? = some n.toNat := by
    intro d h
    obtain ⟨m, hm, hvalue⟩ := Option.map_eq_some_iff.mp h
    rcases hsign : d.negative with _ | _
    · rw [hsign, if_neg Bool.false_ne_true] at hvalue
      exact ⟨rfl, hm.trans (congrArg some (by omega))⟩
    · rw [hsign, if_pos rfl] at hvalue
      omega
  obtain ⟨hnegA, hnatA⟩ := hform ha
  obtain ⟨hnegB, hnatB⟩ := hform hb
  have hpos : 0 < n.toNat := by omega
  have hsame := (natAbs?_eq_some hnatA hpos).symm.trans (natAbs?_eq_some hnatB hpos)
  obtain ⟨hexponent, hfraction⟩ := significand_unique a.fraction_lt b.fraction_lt hsame
  exact eq_of_fields (hnegA.trans hnegB.symm) hexponent hfraction

/-! ## Bytes -/

/-- The last `count` bytes of a number, the most significant one first. -/
def bytesBigEndian : ℕ → ℕ → List ℕ
  | 0, _ => []
  | count + 1, n => bytesBigEndian count (n / 256) ++ [n % 256]

theorem length_bytesBigEndian (count n : ℕ) : (bytesBigEndian count n).length = count := by
  induction count generalizing n with
  | zero => rfl
  | succ count ih => rw [bytesBigEndian, List.length_append, ih, List.length_singleton]

theorem lt_of_mem_bytesBigEndian {count n byte : ℕ} (h : byte ∈ bytesBigEndian count n) :
    byte < 256 := by
  induction count generalizing n with
  | zero => cases h
  | succ count ih =>
    rcases List.mem_append.mp h with hinit | hlast
    · exact ih hinit
    · rw [List.mem_singleton.mp hlast]
      exact Nat.mod_lt _ (by norm_num)

theorem bytesBigEndian_injective {count a b : ℕ} (ha : a < 256 ^ count) (hb : b < 256 ^ count)
    (h : bytesBigEndian count a = bytesBigEndian count b) : a = b := by
  induction count generalizing a b with
  | zero => omega
  | succ count ih =>
    rw [bytesBigEndian, bytesBigEndian] at h
    obtain ⟨hinit, hlast⟩ := List.append_inj h
      (by rw [length_bytesBigEndian, length_bytesBigEndian])
    rw [pow_succ] at ha hb
    have hdiv : a / 256 = b / 256 := ih (by omega) (by omega) hinit
    have hmod : a % 256 = b % 256 := List.singleton_inj.mp hlast
    omega

/-- The bytes of a number in the order of the network. -/
def bytes (d : Binary64) : List ℕ := bytesBigEndian 8 d.bits.toNat

theorem bytes_injective : Function.Injective bytes := by
  intro a b h
  have hbound : (2 : ℕ) ^ 64 = 256 ^ 8 := by norm_num
  have ha : a.bits.toNat < 256 ^ 8 := hbound ▸ a.bits.isLt
  have hb : b.bits.toNat < 256 ^ 8 := hbound ▸ b.bits.isLt
  exact Binary64.ext (BitVec.eq_of_toNat_eq (bytesBigEndian_injective ha hb h))

end Binary64

import UkAqOps.Js.DateOrder

/-!
# Timestamps with signed years

Years outside 0000–9999 are written with a sign and six digits, and `+` and `-` sort before the
digits. So the texts of instants sort by their years first, in the order of `yearRank`: the years
from 10000 on, then the negative years backwards, then the plain years. Within a year they sort in
time order.
-/

namespace UkAqOps

/-- The instants that a date can hold. -/
def IsTimeValue (ms : ℤ) : Prop := -8640000000000000 ≤ ms ∧ ms ≤ 8640000000000000

/-- A time value. -/
abbrev TimeValue := {ms : ℤ // IsTimeValue ms}

instance (ms : ℤ) : Decidable (IsTimeValue ms) := inferInstanceAs (Decidable (_ ∧ _))

/-- `getUTCFullYear` of an instant. -/
def yearOf (ms : ℤ) : ℤ := (civilFromDays (ms / dayMs)).year

theorem yearOf_mono {a b : ℤ} (h : a ≤ b) : yearOf a ≤ yearOf b :=
  civilFromDays_year_mono (Int.ediv_le_ediv (by decide) h)

theorem natAbs_yearOf_lt {ms : ℤ} (h : IsTimeValue ms) : (yearOf ms).natAbs < 10 ^ 6 := by
  refine natAbs_year_lt ?_
  obtain ⟨hlower, hupper⟩ := h
  simp only [dayMs, hourMs, minuteMs]
  omega

/-- The day after a day is of its year or of the next one. -/
theorem civilFromDays_year_succ_le (day : ℤ) :
    (civilFromDays (day + 1)).year ≤ (civilFromDays day).year + 1 := by
  obtain ⟨hday, hend⟩ := marchYearAndDay_spec day
  obtain ⟨hnext, -⟩ := marchYearAndDay_spec (day + 1)
  have hbounds := marchYearAndDay_bounds (day + 1)
  have hle : (marchYearAndDay (day + 1)).1 ≤ (marchYearAndDay day).1 + 1 := by
    by_contra hlate
    have hmono := marchYearStart_mono (not_le.mp hlate)
    have hsucc : marchYearStart ((marchYearAndDay day).1 + 1)
        < marchYearStart ((marchYearAndDay day).1 + 1 + 1) := by
      simp only [marchYearStart]
      omega
    omega
  -- the first day of the March year is in March
  have hmarch : (marchYearAndDay (day + 1)).1 = (marchYearAndDay day).1 + 1 →
      (marchYearAndDay (day + 1)).2 = 0 := by
    intro hyear
    rw [hyear] at hnext
    omega
  simp only [civilFromDays, marchMonth]
  split_ifs <;> omega

/-- An instant less than a day later is of the year or of the next one. -/
theorem yearOf_le_succ {a b : ℤ} (h : b < a + dayMs) : yearOf b ≤ yearOf a + 1 := by
  have hday : b / dayMs ≤ a / dayMs + 1 := by
    simp only [dayMs, hourMs, minuteMs] at *
    omega
  exact (civilFromDays_year_mono hday).trans (civilFromDays_year_succ_le _)

/-- Where the text of a year sorts. -/
def yearRank (year : ℤ) : ℤ :=
  if 9999 < year then year - 2000000 else if year < 0 then -1000000 - year else year

theorem yearRank_cases (year : ℤ) : (9999 < year ∧ yearRank year = year - 2000000) ∨
    (year < 0 ∧ yearRank year = -1000000 - year) ∨
    (0 ≤ year ∧ year ≤ 9999 ∧ yearRank year = year) := by
  rw [yearRank]
  split_ifs <;> omega

theorem lt_digitChar {n : ℕ} (h : n < 10) : '-' < Nat.digitChar n := by
  interval_cases n
  all_goals decide

/-- A number with leading zeros starts with a digit. -/
theorem cons_lt_fixedDigits {c : Char} (hc : c = '+' ∨ c = '-') (width n : ℕ) (s t : List Char) :
    c :: s < fixedDigits (width + 1) n ++ t := by
  induction width generalizing n t with
  | zero =>
    refine List.cons_lt_cons_iff.mpr (Or.inl ?_)
    have hdigit := lt_digitChar (n := n % 10) (by omega)
    rcases hc with rfl | rfl
    · exact Char.lt_trans (by decide) hdigit
    · exact hdigit
  | succ width ih =>
    rw [fixedDigits, List.append_assoc]
    exact ih _ _

/-- **Years sort by rank**, whatever follows them. -/
theorem isoYear_append_lt {a b : ℤ} (hb : b.natAbs < 10 ^ 6) (h : yearRank a < yearRank b)
    (s t : List Char) : isoYear a ++ s < isoYear b ++ t := by
  rw [yearRank, yearRank] at h
  rw [isoYear, isoYear]
  by_cases hplainB : 0 ≤ b ∧ b ≤ 9999
  · rw [if_pos hplainB]
    by_cases hplainA : 0 ≤ a ∧ a ≤ 9999
    · rw [if_pos hplainA]
      exact fixedDigits_append_lt (by omega) (Or.inl (by omega))
    · rw [if_neg hplainA, List.cons_append]
      refine cons_lt_fixedDigits ?_ 3 _ _ _
      by_cases hneg : a < 0
      · exact Or.inr (if_pos hneg)
      · exact Or.inl (if_neg hneg)
  · have hplainA : ¬(0 ≤ a ∧ a ≤ 9999) := by
      intro hplain
      split_ifs at h <;> omega
    rw [if_neg hplainA, if_neg hplainB, List.cons_append, List.cons_append]
    by_cases hnegB : b < 0
    · by_cases hnegA : a < 0
      · rw [if_pos hnegA, if_pos hnegB]
        refine cons_lt_cons (fixedDigits_append_lt (by omega) (Or.inl ?_))
        split_ifs at h <;> omega
      · rw [if_neg hnegA, if_pos hnegB]
        exact List.cons_lt_cons_iff.mpr (Or.inl (by decide))
    · have hnegA : ¬a < 0 := by
        intro hneg
        split_ifs at h <;> omega
      rw [if_neg hnegA, if_neg hnegB]
      refine cons_lt_cons (fixedDigits_append_lt (by omega) (Or.inl ?_))
      split_ifs at h <;> omega

/-- Within a year, timestamps sort in time order. -/
theorem isoChars_lt_of_yearOf_eq {a b : ℤ} (hyear : yearOf a = yearOf b) (h : a < b) :
    isoChars a < isoChars b := by
  have hdayMs : (0 : ℤ) < dayMs := by decide
  have hca := civilFromDays_bounds (a / dayMs)
  have hcb := civilFromDays_bounds (b / dayMs)
  simp only [yearOf] at hyear
  simp only [isoChars, isoDayChars, List.append_assoc, List.cons_append, hyear]
  refine List.append_left_lt (cons_lt_cons ?_)
  by_cases hday : a / dayMs = b / dayMs
  · rw [hday]
    refine List.append_left_lt (cons_lt_cons (List.append_left_lt ?_))
    refine isoTimeChars_lt (Int.emod_nonneg _ hdayMs.ne') (Int.emod_lt_of_pos _ hdayMs) ?_
    have hea := Int.emod_add_mul_ediv a dayMs
    have heb := Int.emod_add_mul_ediv b dayMs
    rw [hday] at hea
    omega
  · have hlt : a / dayMs < b / dayMs := lt_of_le_of_ne (Int.ediv_le_ediv hdayMs h.le) hday
    rcases civilFromDays_lt hlt with hlater | ⟨-, hmonth | ⟨hmonth, hdate⟩⟩
    · omega
    · exact fixedDigits_append_lt (by omega) (Or.inl (by omega))
    · refine fixedDigits_append_lt (by omega) (Or.inr ⟨by rw [hmonth], cons_lt_cons ?_⟩)
      exact fixedDigits_append_lt (by omega) (Or.inl (by omega))

/-- The text of one instant sorts before that of another. -/
def TextBefore (a b : ℤ) : Prop :=
  yearRank (yearOf a) < yearRank (yearOf b) ∨ yearOf a = yearOf b ∧ a < b

theorem TextBefore.trans {a b c : ℤ} (hab : TextBefore a b) (hbc : TextBefore b c) :
    TextBefore a c := by
  rw [TextBefore] at *
  rcases hab with hab | ⟨hab, hlt⟩
  · rcases hbc with hbc | ⟨hbc, -⟩
    · exact Or.inl (hab.trans hbc)
    · exact Or.inl (hbc ▸ hab)
  · rcases hbc with hbc | ⟨hbc, hlt'⟩
    · exact Or.inl (hab ▸ hbc)
    · exact Or.inr ⟨hab.trans hbc, hlt.trans hlt'⟩

theorem not_textBefore_self (a : ℤ) : ¬TextBefore a a := by
  simp [TextBefore]

theorem textBefore_trichotomy {a b : ℤ} (ha : IsTimeValue a) (hb : IsTimeValue b) :
    TextBefore a b ∨ a = b ∨ TextBefore b a := by
  have hya := natAbs_yearOf_lt ha
  have hyb := natAbs_yearOf_lt hb
  have hrank : yearRank (yearOf a) = yearRank (yearOf b) → yearOf a = yearOf b := by
    intro h
    simp only [yearRank] at h
    split_ifs at h <;> omega
  simp only [TextBefore]
  rcases lt_trichotomy (yearRank (yearOf a)) (yearRank (yearOf b)) with hlt | heq | hgt
  · exact Or.inl (Or.inl hlt)
  · have hyear := hrank heq
    rcases lt_trichotomy a b with hlt | heq | hgt
    · exact Or.inl (Or.inr ⟨hyear, hlt⟩)
    · exact Or.inr (Or.inl heq)
    · exact Or.inr (Or.inr (Or.inr ⟨hyear.symm, hgt⟩))
  · exact Or.inr (Or.inr (Or.inl hgt))

/-- **The order of the texts of instants.** -/
theorem isoChars_lt_iff {a b : ℤ} (ha : IsTimeValue a) (hb : IsTimeValue b) :
    isoChars a < isoChars b ↔ TextBefore a b := by
  have hlt : ∀ {a b : ℤ}, IsTimeValue a → IsTimeValue b → TextBefore a b →
      isoChars a < isoChars b := by
    rintro a b ha hb (hrank | ⟨hyear, hlt⟩)
    · simp only [isoChars, isoDayChars, List.append_assoc]
      exact isoYear_append_lt (natAbs_yearOf_lt hb) hrank _ _
    · exact isoChars_lt_of_yearOf_eq hyear hlt
  refine ⟨fun h ↦ ?_, hlt ha hb⟩
  rcases textBefore_trichotomy ha hb with hbefore | rfl | hafter
  · exact hbefore
  · exact absurd h (List.lt_irrefl _)
  · exact absurd (hlt hb ha hafter) (List.lt_asymm h)

theorem textLt_iff {a b : ℤ} (ha : IsTimeValue a) (hb : IsTimeValue b) :
    textLt (isoChars a) (isoChars b) = true ↔ TextBefore a b := by
  rw [textLt, decide_eq_true_iff, isoChars_lt_iff ha hb]

end UkAqOps

import UkAqOps.Js.Date

/-!
# The order of timestamps

ISO timestamps are compared as texts. As long as the years have four digits, the texts sort in time
order: a later day has a later date in the calendar, and dates and times are written with leading
zeros from the largest unit to the smallest.
-/

namespace UkAqOps

/-! ## The calendar -/

/-- The number of days before a year of the March calendar. -/
def marchYearStart (year : ℤ) : ℤ := 365 * year + year / 4 - year / 100 + year / 400

theorem marchYearStart_mono {a b : ℤ} (h : a ≤ b) : marchYearStart a ≤ marchYearStart b := by
  simp only [marchYearStart]
  omega

/-- A year given by its cycle, century, span and place in the span. -/
theorem marchYearStart_eq (era : ℤ) {century span year : ℤ} (hcentury : 0 ≤ century ∧ century ≤ 3)
    (hspan : 0 ≤ span ∧ span ≤ 24) (hyear : 0 ≤ year ∧ year ≤ 3) :
    marchYearStart (era * 400 + century * 100 + span * 4 + year)
      = era * 146097 + century * 36524 + span * 1461 + year * 365 := by
  have h4 : (era * 400 + century * 100 + span * 4 + year) / 4 = era * 100 + century * 25 + span := by
    omega
  have h100 : (era * 400 + century * 100 + span * 4 + year) / 100 = era * 4 + century := by omega
  have h400 : (era * 400 + century * 100 + span * 4 + year) / 400 = era := by omega
  rw [marchYearStart, h4, h100, h400]
  ring

/-- The days of a year: the leap day is the last one. -/
theorem marchYearStart_succ (era : ℤ) {century span year : ℤ} (hcentury : 0 ≤ century ∧ century ≤ 3)
    (hspan : 0 ≤ span ∧ span ≤ 24) (hyear : 0 ≤ year ∧ year ≤ 3) :
    marchYearStart (era * 400 + century * 100 + span * 4 + year + 1)
      = marchYearStart (era * 400 + century * 100 + span * 4 + year) + 365 +
        if year = 3 ∧ (span < 24 ∨ century = 3) then 1 else 0 := by
  have hzero : (0 : ℤ) ≤ 0 ∧ (0 : ℤ) ≤ 3 := by omega
  have hzero' : (0 : ℤ) ≤ 0 ∧ (0 : ℤ) ≤ 24 := by omega
  have hthis := marchYearStart_eq era hcentury hspan hyear
  -- the next year starts a new cycle, a new century, a new span, or none of these
  by_cases hlast : year = 3
  · by_cases hspan24 : span = 24
    · by_cases hcentury3 : century = 3
      · have hnext := marchYearStart_eq (era + 1) hzero hzero' hzero
        rw [if_pos (by omega), hthis, show era * 400 + century * 100 + span * 4 + year + 1
          = (era + 1) * 400 + 0 * 100 + 0 * 4 + 0 by omega, hnext]
        omega
      · have hcentury' : 0 ≤ century + 1 ∧ century + 1 ≤ 3 := by omega
        have hnext := marchYearStart_eq era hcentury' hzero' hzero
        rw [if_neg (by omega), hthis, show era * 400 + century * 100 + span * 4 + year + 1
          = era * 400 + (century + 1) * 100 + 0 * 4 + 0 by omega, hnext]
        omega
    · have hspan' : 0 ≤ span + 1 ∧ span + 1 ≤ 24 := by omega
      have hnext := marchYearStart_eq era hcentury hspan' hzero
      rw [if_pos (by omega), hthis, show era * 400 + century * 100 + span * 4 + year + 1
        = era * 400 + century * 100 + (span + 1) * 4 + 0 by omega, hnext]
      omega
  · have hyear' : 0 ≤ year + 1 ∧ year + 1 ≤ 3 := by omega
    have hnext := marchYearStart_eq era hcentury hspan hyear'
    rw [if_neg (by omega), hthis, show era * 400 + century * 100 + span * 4 + year + 1
      = era * 400 + century * 100 + span * 4 + (year + 1) by omega, hnext]
    omega

/-- A day lies in its year. -/
theorem marchYearAndDay_spec (day : ℤ) :
    day + 719468 = marchYearStart (marchYearAndDay day).1 + (marchYearAndDay day).2 ∧
      day + 719468 < marchYearStart ((marchYearAndDay day).1 + 1) := by
  simp only [marchYearAndDay]
  generalize hz : day + 719468 = z
  generalize hera : z / 146097 = era
  generalize hdoe : z % 146097 = dayOfEra
  generalize hcentury : min (dayOfEra / 36524) 3 = century
  generalize hdoc : dayOfEra - century * 36524 = dayOfCentury
  generalize hspan : dayOfCentury / 1461 = span
  generalize hdos : dayOfCentury - span * 1461 = dayOfSpan
  generalize hyear : min (dayOfSpan / 365) 3 = year
  have hc : 0 ≤ century ∧ century ≤ 3 := by omega
  have hd : 0 ≤ dayOfCentury ∧ dayOfCentury ≤ 36524 ∧ (dayOfCentury = 36524 → century = 3) := by
    omega
  have hs : 0 ≤ span ∧ span ≤ 24 := by omega
  have hd' : 0 ≤ dayOfSpan ∧ dayOfSpan ≤ 1460 := by omega
  have hlast : dayOfSpan = 1460 → span < 24 ∨ century = 3 := by omega
  have hy : 0 ≤ year ∧ year ≤ 3 := by omega
  rw [marchYearStart_succ era hc hs hy, marchYearStart_eq era hc hs hy]
  have hsplit : z = era * 146097 + dayOfEra := by omega
  refine ⟨by omega, ?_⟩
  clear hcentury hspan hera hdoe
  split <;> omega

theorem marchYearAndDay_lt {a b : ℤ} (h : a < b) :
    (marchYearAndDay a).1 < (marchYearAndDay b).1 ∨
      (marchYearAndDay a).1 = (marchYearAndDay b).1 ∧
        (marchYearAndDay a).2 < (marchYearAndDay b).2 := by
  obtain ⟨ha, -⟩ := marchYearAndDay_spec a
  obtain ⟨hb, hnext⟩ := marchYearAndDay_spec b
  have hbounds := marchYearAndDay_bounds a
  rcases lt_trichotomy (marchYearAndDay a).1 (marchYearAndDay b).1 with hlt | heq | hgt
  · exact Or.inl hlt
  · rw [heq] at ha
    exact Or.inr ⟨heq, by omega⟩
  · -- a later year starts after the last day of an earlier one
    have hmono := marchYearStart_mono (show (marchYearAndDay b).1 + 1 ≤ (marchYearAndDay a).1 from hgt)
    omega

/-- Later days have later dates. -/
theorem civilFromDays_lt {a b : ℤ} (h : a < b) :
    (civilFromDays a).year < (civilFromDays b).year ∨
      (civilFromDays a).year = (civilFromDays b).year ∧
        ((civilFromDays a).month < (civilFromDays b).month ∨
          (civilFromDays a).month = (civilFromDays b).month ∧
            (civilFromDays a).day < (civilFromDays b).day) := by
  have ha := marchYearAndDay_bounds a
  have hb := marchYearAndDay_bounds b
  have hlt := marchYearAndDay_lt h
  simp only [civilFromDays]
  generalize marchYearAndDay a = ya at *
  generalize marchYearAndDay b = yb at *
  obtain ⟨ya, da⟩ := ya
  obtain ⟨yb, db⟩ := yb
  dsimp only at *
  have hma : 0 ≤ marchMonth da ∧ marchMonth da ≤ 11 := by simp only [marchMonth]; omega
  have hmb : 0 ≤ marchMonth db ∧ marchMonth db ≤ 11 := by simp only [marchMonth]; omega
  rcases hlt with hyear | ⟨rfl, hday⟩
  · by_cases hja : marchMonth da < 10 <;> by_cases hjb : marchMonth db < 10
    all_goals simp only [hja, hjb, if_true, if_false]
    all_goals omega
  · have hmonth : marchMonth da ≤ marchMonth db := by simp only [marchMonth]; omega
    have hday' : marchMonth da = marchMonth db →
        da - (153 * marchMonth da + 2) / 5 + 1 < db - (153 * marchMonth db + 2) / 5 + 1 := by
      intro hsame
      rw [hsame]
      omega
    by_cases hja : marchMonth da < 10 <;> by_cases hjb : marchMonth db < 10
    all_goals simp only [hja, hjb, if_true, if_false, true_and]
    all_goals omega

theorem civilFromDays_year_mono {a b : ℤ} (h : a ≤ b) :
    (civilFromDays a).year ≤ (civilFromDays b).year := by
  rcases lt_or_eq_of_le h with hlt | rfl
  · rcases civilFromDays_lt hlt with hyear | ⟨hyear, -⟩
    · exact hyear.le
    · exact hyear.le
  · exact le_rfl

/-- A day between days of plain years has a plain year. -/
theorem PlainYear.between {a b c : ℤ} (ha : PlainYear a) (hc : PlainYear c) (hab : a ≤ b)
    (hbc : b ≤ c) : PlainYear b :=
  ⟨ha.1.trans (civilFromDays_year_mono hab), (civilFromDays_year_mono hbc).trans hc.2⟩

/-- The days of these years are within the range of a date. -/
theorem PlainYear.bounds {day : ℤ} (h : PlainYear day) : -10000000 < day ∧ day < 10000000 := by
  constructor
  · by_contra hle
    have hyear := civilFromDays_year_mono (not_lt.mp hle)
    have hmin : (civilFromDays (-10000000)).year < 0 := by decide
    exact absurd h.1 (by omega)
  · by_contra hle
    have hyear := civilFromDays_year_mono (not_lt.mp hle)
    have hmax : 9999 < (civilFromDays 10000000).year := by decide
    exact absurd h.2 (by omega)

/-! ## Texts -/

theorem append_lt_append_of_lt {xs ys s t : List Char} (hlen : xs.length = ys.length)
    (h : xs < ys) : xs ++ s < ys ++ t := by
  induction xs generalizing ys with
  | nil =>
    rw [List.length_nil, eq_comm, List.length_eq_zero_iff] at hlen
    rw [hlen] at h
    exact absurd h (List.lt_irrefl _)
  | cons x xs ih =>
    obtain _ | ⟨y, ys⟩ := ys
    · cases hlen
    · rw [List.cons_append, List.cons_append, List.cons_lt_cons_iff]
      rcases List.cons_lt_cons_iff.mp h with hlt | ⟨rfl, hlt⟩
      · exact Or.inl hlt
      · exact Or.inr ⟨rfl, ih (Nat.succ.inj hlen) hlt⟩

theorem digitChar_lt {a b : ℕ} (h : a < b) (hb : b < 10) : Nat.digitChar a < Nat.digitChar b := by
  interval_cases b <;> interval_cases a <;> decide

theorem fixedDigits_lt {width a b : ℕ} (h : a < b) (hb : b < 10 ^ width) :
    fixedDigits width a < fixedDigits width b := by
  induction width generalizing a b with
  | zero => omega
  | succ width ih =>
    rw [fixedDigits, fixedDigits]
    rw [pow_succ] at hb
    by_cases hdiv : a / 10 < b / 10
    · exact append_lt_append_of_lt (by rw [fixedDigits_length, fixedDigits_length])
        (ih hdiv (by omega))
    · rw [show a / 10 = b / 10 by omega]
      refine List.append_left_lt (List.cons_lt_cons_iff.mpr (Or.inl ?_))
      exact digitChar_lt (by omega) (by omega)

/-- A number written with leading zeros, and what follows it. -/
theorem fixedDigits_append_lt {width a b : ℕ} {s t : List Char} (hb : b < 10 ^ width)
    (h : a < b ∨ a = b ∧ s < t) : fixedDigits width a ++ s < fixedDigits width b ++ t := by
  rcases h with hlt | ⟨rfl, hlt⟩
  · exact append_lt_append_of_lt (by rw [fixedDigits_length, fixedDigits_length])
      (fixedDigits_lt hlt hb)
  · exact List.append_left_lt hlt

theorem cons_lt_cons {c : Char} {s t : List Char} (h : s < t) : c :: s < c :: t :=
  List.cons_lt_cons_iff.mpr (Or.inr ⟨rfl, h⟩)

theorem isoDayChars_lt {a b : ℤ} (ha : PlainYear a) (hb : PlainYear b) (h : a < b) :
    isoDayChars a < isoDayChars b := by
  have hya : 0 ≤ (civilFromDays a).year ∧ (civilFromDays a).year ≤ 9999 := ha
  have hyb : 0 ≤ (civilFromDays b).year ∧ (civilFromDays b).year ≤ 9999 := hb
  have hca := civilFromDays_bounds a
  have hcb := civilFromDays_bounds b
  simp only [isoDayChars, isoYear_of_plainYear ha, isoYear_of_plainYear hb, List.append_assoc]
  refine fixedDigits_append_lt (by omega) ?_
  rcases civilFromDays_lt h with hyear | ⟨hyear, hrest⟩
  · exact Or.inl (by omega)
  refine Or.inr ⟨by rw [hyear], cons_lt_cons (fixedDigits_append_lt (by omega) ?_)⟩
  rcases hrest with hmonth | ⟨hmonth, hday⟩
  · exact Or.inl (by omega)
  · refine Or.inr ⟨by rw [hmonth], cons_lt_cons ?_⟩
    exact fixedDigits_lt (by omega) (by omega)

theorem isoTimeChars_lt {a b : ℤ} (ha : 0 ≤ a) (hb : b < dayMs) (h : a < b) :
    isoTimeChars a < isoTimeChars b := by
  simp only [isoTimeChars, List.append_assoc, List.cons_append]
  simp only [dayMs, hourMs, minuteMs] at hb ⊢
  refine cons_lt_cons (fixedDigits_append_lt (by omega) ?_)
  -- the first of hour, minute, second and millisecond that differs decides
  by_cases hhour : a / 3600000 = b / 3600000
  · refine Or.inr ⟨by omega, cons_lt_cons (fixedDigits_append_lt (by omega) ?_)⟩
    by_cases hminute : a / 60000 % 60 = b / 60000 % 60
    · refine Or.inr ⟨by omega, cons_lt_cons (fixedDigits_append_lt (by omega) ?_)⟩
      by_cases hsecond : a / 1000 % 60 = b / 1000 % 60
      · refine Or.inr ⟨by omega, cons_lt_cons (fixedDigits_append_lt (by omega) (Or.inl ?_))⟩
        omega
      · exact Or.inl (by omega)
    · exact Or.inl (by omega)
  · exact Or.inl (by omega)

/-- **Timestamps with plain years sort in time order.** -/
theorem isoChars_lt {a b : ℤ} (ha : PlainYear (a / dayMs)) (hb : PlainYear (b / dayMs))
    (h : a < b) : isoChars a < isoChars b := by
  rw [isoChars, isoChars]
  have hdayMs : (0 : ℤ) < dayMs := by decide
  by_cases hday : a / dayMs = b / dayMs
  · rw [hday]
    refine List.append_left_lt (isoTimeChars_lt (Int.emod_nonneg _ hdayMs.ne')
      (Int.emod_lt_of_pos _ hdayMs) ?_)
    have hea := Int.emod_add_mul_ediv a dayMs
    have heb := Int.emod_add_mul_ediv b dayMs
    rw [hday] at hea
    omega
  · have hle := Int.ediv_le_ediv hdayMs h.le
    exact append_lt_append_of_lt (by rw [isoDayChars_length ha, isoDayChars_length hb])
      (isoDayChars_lt ha hb (lt_of_le_of_ne hle hday))

/-- The years of the days that a date can hold have six digits. -/
theorem natAbs_year_lt {day : ℤ} (h : -100000000 ≤ day ∧ day ≤ 100000000) :
    (civilFromDays day).year.natAbs < 10 ^ 6 := by
  have hlow := civilFromDays_year_mono h.1
  have hhigh := civilFromDays_year_mono h.2
  have hmin : -271821 = (civilFromDays (-100000000)).year := by decide
  have hmax : 275760 = (civilFromDays 100000000).year := by decide
  omega

/-- A year is determined by its text, in front of texts of one length. -/
theorem isoYear_append_inj {a b : ℤ} (ha : a.natAbs < 10 ^ 6) (hb : b.natAbs < 10 ^ 6)
    {s t : List Char} (hlength : s.length = t.length) (h : isoYear a ++ s = isoYear b ++ t) :
    a = b ∧ s = t := by
  have hlen : ∀ year : ℤ, (isoYear year).length = if 0 ≤ year ∧ year ≤ 9999 then 4 else 7 := by
    intro year
    rw [isoYear]
    split
    · exact fixedDigits_length _ _
    · rw [List.length_cons, fixedDigits_length]
  have hsame : (isoYear a).length = (isoYear b).length := by
    have htotal := congrArg List.length h
    rw [List.length_append, List.length_append] at htotal
    omega
  obtain ⟨hyear, hrest⟩ := List.append_inj h hsame
  refine ⟨?_, hrest⟩
  rw [hlen, hlen] at hsame
  rw [isoYear, isoYear] at hyear
  by_cases hplain : 0 ≤ a ∧ a ≤ 9999
  · have hplain' : 0 ≤ b ∧ b ≤ 9999 := by
      by_contra hnot
      rw [if_pos hplain, if_neg hnot] at hsame
      omega
    rw [if_pos hplain, if_pos hplain'] at hyear
    have := fixedDigits_injective (by omega) (by omega) hyear
    omega
  · have hplain' : ¬(0 ≤ b ∧ b ≤ 9999) := by
      intro hyes
      rw [if_neg hplain, if_pos hyes] at hsame
      omega
    rw [if_neg hplain, if_neg hplain'] at hyear
    have habs := fixedDigits_injective ha hb (List.tail_eq_of_cons_eq hyear)
    have hsign := List.head_eq_of_cons_eq hyear
    by_cases hneg : a < 0
    · by_cases hneg' : b < 0
      · omega
      · rw [if_pos hneg, if_neg hneg'] at hsign
        exact absurd hsign (by decide)
    · by_cases hneg' : b < 0
      · rw [if_neg hneg, if_pos hneg'] at hsign
        exact absurd hsign (by decide)
      · omega

/-- **The text of an instant that a date can hold is that of no other.** -/
theorem toISOString_injOn {a b : ℤ} (ha : -8640000000000000 ≤ a ∧ a ≤ 8640000000000000)
    (hb : -8640000000000000 ≤ b ∧ b ≤ 8640000000000000) (h : toISOString a = toISOString b) :
    a = b := by
  have hchars : isoChars a = isoChars b := String.ofList_injective h
  have hdays : -100000000 ≤ a / dayMs ∧ a / dayMs ≤ 100000000 ∧
      -100000000 ≤ b / dayMs ∧ b / dayMs ≤ 100000000 := by
    simp only [dayMs, hourMs, minuteMs]
    omega
  have hca := civilFromDays_bounds (a / dayMs)
  have hcb := civilFromDays_bounds (b / dayMs)
  simp only [isoChars, isoDayChars, List.append_assoc, List.cons_append] at hchars
  obtain ⟨hyear, hrest⟩ := isoYear_append_inj (natAbs_year_lt ⟨hdays.1, hdays.2.1⟩)
    (natAbs_year_lt hdays.2.2) (by
      simp only [isoTimeChars, List.length_cons, List.length_append, fixedDigits_length]) hchars
  obtain ⟨hmonth, hrest⟩ := List.append_inj (List.tail_eq_of_cons_eq hrest) (by
    rw [fixedDigits_length, fixedDigits_length])
  obtain ⟨hday, htime⟩ := List.append_inj (List.tail_eq_of_cons_eq hrest) (by
    rw [fixedDigits_length, fixedDigits_length])
  have hm := fixedDigits_injective (by omega) (by omega) hmonth
  have hd := fixedDigits_injective (by omega) (by omega) hday
  have hsameDay : a / dayMs = b / dayMs := by
    refine civilFromDays_injective (CivilDate.ext hyear ?_ ?_) <;> omega
  have hdayMs : (0 : ℤ) < dayMs := by decide
  have hsameTime : a % dayMs = b % dayMs := by
    rcases lt_trichotomy (a % dayMs) (b % dayMs) with hlt | heq | hgt
    · exact absurd (isoTimeChars_lt (Int.emod_nonneg _ hdayMs.ne') (Int.emod_lt_of_pos _ hdayMs) hlt)
        (by rw [htime]; exact List.lt_irrefl _)
    · exact heq
    · exact absurd (isoTimeChars_lt (Int.emod_nonneg _ hdayMs.ne') (Int.emod_lt_of_pos _ hdayMs) hgt)
        (by rw [htime]; exact List.lt_irrefl _)
  rw [← Int.emod_add_mul_ediv a dayMs, ← Int.emod_add_mul_ediv b dayMs, hsameDay, hsameTime]

/-- `left < right` on texts of ASCII characters. -/
def textLt (left right : List Char) : Bool := decide (left < right)

theorem textLt_isoChars {a b : ℤ} (ha : PlainYear (a / dayMs)) (hb : PlainYear (b / dayMs)) :
    textLt (isoChars a) (isoChars b) = true ↔ a < b := by
  rw [textLt, decide_eq_true_iff]
  refine ⟨fun h ↦ ?_, isoChars_lt ha hb⟩
  by_contra hle
  rcases lt_or_eq_of_le (not_lt.mp hle) with hlt | rfl
  · exact List.lt_asymm h (isoChars_lt hb ha hlt)
  · exact List.lt_irrefl _ h

/-- Midnight, written as the text of the day followed by the time. -/
theorem isoChars_midnight (day : ℤ) :
    isoDayChars day ++ "T00:00:00.000Z".toList = isoChars (day * dayMs) := by
  have hday : day * dayMs / dayMs = day := Int.mul_ediv_cancel _ (by decide)
  have htime : day * dayMs % dayMs = 0 := Int.mul_emod_left _ _
  rw [isoChars, hday, htime]
  rfl

/-! ## The characters of a timestamp -/

theorem isJsWhitespace_of_mem_isoChars {t : ℤ} {c : Char} (h : c ∈ isoChars t) :
    isJsWhitespace c = false := by
  have hdigits : ∀ (width n : ℕ) c, c ∈ fixedDigits width n → isJsWhitespace c = false := by
    intro width
    induction width with
    | zero => exact fun n c hc ↦ absurd hc List.not_mem_nil
    | succ width ih =>
      intro n c hc
      rcases List.mem_append.mp hc with hc | hc
      · exact ih _ c hc
      · have hall : ∀ d < 10, isJsWhitespace (Nat.digitChar d) = false := by decide +kernel
        rw [List.mem_singleton.mp hc]
        exact hall _ (Nat.mod_lt _ (by decide))
  have hyear : ∀ (year : ℤ) c, c ∈ isoYear year → isJsWhitespace c = false := by
    intro year c hc
    rw [isoYear] at hc
    split at hc
    · exact hdigits _ _ c hc
    · rcases List.mem_cons.mp hc with rfl | hc
      · split <;> decide
      · exact hdigits _ _ c hc
  rw [isoChars, isoDayChars, isoTimeChars] at h
  simp only [List.mem_append, List.mem_cons, List.not_mem_nil, or_false] at h
  rcases h with ((h | rfl | h) | rfl | h) | ((((rfl | h) | rfl | h) | rfl | h) | rfl | h) | rfl
  all_goals first
    | exact hyear _ _ h
    | exact hdigits _ _ _ h
    | decide

theorem trimText_toISOString (t : ℤ) : trimText (toISOString t) = toISOString t :=
  trimText_of_forall fun c hc ↦ isJsWhitespace_of_mem_isoChars (by
    rw [toISOString, String.toList_ofList] at hc
    exact hc)

theorem toISOString_ne_empty (t : ℤ) : toISOString t ≠ "" := by
  intro h
  have hlist := congrArg String.toList h
  rw [toISOString, String.toList_ofList, isoChars, isoTimeChars] at hlist
  exact absurd hlist (by simp)

/-! ## Reading timestamps -/

/-- `dateParse` reads an instant that a date can hold back from its ISO text. -/
def ReadsTimestamps (dateParse : String → Option ℤ) : Prop :=
  ∀ t : ℤ, -8640000000000000 ≤ t ∧ t ≤ 8640000000000000 → dateParse (toISOString t) = some t

open Classical in
/-- The reader of exactly the ISO texts of instants. -/
noncomputable def readTimestamp (text : String) : Option ℤ :=
  if h : ∃ t : ℤ, (-8640000000000000 ≤ t ∧ t ≤ 8640000000000000) ∧ toISOString t = text then
    some h.choose
  else none

theorem readsTimestamps_readTimestamp : ReadsTimestamps readTimestamp := by
  intro t ht
  have hexists : ∃ t' : ℤ, (-8640000000000000 ≤ t' ∧ t' ≤ 8640000000000000) ∧
      toISOString t' = toISOString t := ⟨t, ht, rfl⟩
  refine (dif_pos hexists).trans (congrArg some ?_)
  exact toISOString_injOn hexists.choose_spec.1 ht hexists.choose_spec.2

end UkAqOps

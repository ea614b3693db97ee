import Mathlib.Data.Nat.Digits.Defs
import Mathlib.Tactic.IntervalCases
import UkAqOps.Js.Text

/-!
# Dates

An instant is an integer number of milliseconds since the epoch. `toISOString` is the proleptic
Gregorian rendering that `Date.prototype.toISOString` produces, with the signed six-digit year
outside 0000–9999.

The calendar counts days from 1 March of year 0, so that the leap day is the last day of its year:
a day splits into 400-year cycles, centuries, four-year spans and years by division, and nothing is
lost on the way. So two instants with the same four-digit-year date fall on the same day.
-/

namespace UkAqOps

/-- One minute, one hour and one day in milliseconds. -/
def minuteMs : ℤ := 60000
def hourMs : ℤ := 60 * minuteMs
def dayMs : ℤ := 24 * hourMs

/-! ## The calendar -/

/-- A day of the calendar that starts in March: the year, and the day of that year. -/
def marchYearAndDay (day : ℤ) : ℤ × ℤ :=
  let z := day + 719468
  let dayOfEra := z % 146097
  let century := min (dayOfEra / 36524) 3
  let dayOfCentury := dayOfEra - century * 36524
  let span := dayOfCentury / 1461
  let dayOfSpan := dayOfCentury - span * 1461
  let year := min (dayOfSpan / 365) 3
  (z / 146097 * 400 + century * 100 + span * 4 + year, dayOfSpan - year * 365)

/-- The month, counted from March, that holds a day of the year. -/
def marchMonth (dayOfYear : ℤ) : ℤ := (5 * dayOfYear + 2) / 153

/-- A date of the calendar, months and days counted from one. -/
@[ext] structure CivilDate where
  year : ℤ
  month : ℤ
  day : ℤ

/-- The date of a day number counted from 1970-01-01. -/
def civilFromDays (day : ℤ) : CivilDate :=
  let year := (marchYearAndDay day).1
  let dayOfYear := (marchYearAndDay day).2
  let month := marchMonth dayOfYear
  { year := if month < 10 then year else year + 1
    month := if month < 10 then month + 3 else month - 9
    day := dayOfYear - (153 * month + 2) / 5 + 1 }

/-- The day number of a date. -/
def daysFromCivil (date : CivilDate) : ℤ :=
  let year := if date.month ≤ 2 then date.year - 1 else date.year
  let month := if date.month ≤ 2 then date.month + 9 else date.month - 3
  let yearOfEra := year % 400
  year / 400 * 146097 + yearOfEra * 365 + yearOfEra / 4 - yearOfEra / 100 + (153 * month + 2) / 5 +
    date.day - 719469

theorem marchYearAndDay_injective : Function.Injective marchYearAndDay := by
  intro a b h
  simp only [marchYearAndDay, Prod.mk.injEq] at h
  omega

theorem marchYearAndDay_bounds (day : ℤ) :
    0 ≤ (marchYearAndDay day).2 ∧ (marchYearAndDay day).2 ≤ 365 := by
  simp only [marchYearAndDay]
  omega

theorem civilFromDays_injective : Function.Injective civilFromDays := by
  intro a b h
  have ha := marchYearAndDay_bounds a
  have hb := marchYearAndDay_bounds b
  refine marchYearAndDay_injective (Prod.ext ?_ ?_)
  · simp only [civilFromDays, marchMonth, CivilDate.mk.injEq] at h
    omega
  · simp only [civilFromDays, marchMonth, CivilDate.mk.injEq] at h
    omega

/-- Months and days have two digits. -/
theorem civilFromDays_bounds (day : ℤ) :
    0 ≤ (civilFromDays day).month ∧ (civilFromDays day).month < 100 ∧
      0 ≤ (civilFromDays day).day ∧ (civilFromDays day).day < 100 := by
  have h := marchYearAndDay_bounds day
  simp only [civilFromDays, marchMonth]
  omega

/-- Months count from 1 to 12 and days from 1 to 31. -/
theorem civilFromDays_ranges (day : ℤ) :
    1 ≤ (civilFromDays day).month ∧ (civilFromDays day).month ≤ 12 ∧
      1 ≤ (civilFromDays day).day ∧ (civilFromDays day).day ≤ 31 := by
  have h := marchYearAndDay_bounds day
  simp only [civilFromDays, marchMonth]
  omega

/-! ## Digits -/

/-- The last `width` decimal digits of a number. -/
def fixedDigits : ℕ → ℕ → List Char
  | 0, _ => []
  | width + 1, n => fixedDigits width (n / 10) ++ [Nat.digitChar (n % 10)]

theorem fixedDigits_length (width n : ℕ) : (fixedDigits width n).length = width := by
  induction width generalizing n with
  | zero => rfl
  | succ width ih => rw [fixedDigits, List.length_append, ih, List.length_singleton]

theorem digitChar_injective {a b : ℕ} (ha : a < 10) (hb : b < 10)
    (h : Nat.digitChar a = Nat.digitChar b) : a = b := by
  interval_cases a <;> interval_cases b <;> first | rfl | exact absurd h (by decide)

theorem fixedDigits_injective {width a b : ℕ} (ha : a < 10 ^ width) (hb : b < 10 ^ width)
    (h : fixedDigits width a = fixedDigits width b) : a = b := by
  induction width generalizing a b with
  | zero => omega
  | succ width ih =>
    rw [fixedDigits, fixedDigits] at h
    obtain ⟨hinit, hlast⟩ := List.append_inj h (by rw [fixedDigits_length, fixedDigits_length])
    rw [pow_succ] at ha hb
    have hdiv : a / 10 = b / 10 := ih (by omega) (by omega) hinit
    have hmod : a % 10 = b % 10 := digitChar_injective (by omega) (by omega) (by simpa using hlast)
    omega

theorem isDigit_of_mem_fixedDigits {width n : ℕ} {c : Char} (h : c ∈ fixedDigits width n) :
    c.isDigit = true := by
  induction width generalizing n with
  | zero => exact absurd h List.not_mem_nil
  | succ width ih =>
    rcases List.mem_append.mp h with hinit | hlast
    · exact ih hinit
    · have hdigit : ∀ d < 10, (Nat.digitChar d).isDigit = true := by decide
      rw [List.mem_singleton.mp hlast]
      exact hdigit _ (Nat.mod_lt _ (by decide))

/-! ## ISO texts -/

/-- The year of an ISO timestamp. -/
def isoYear (year : ℤ) : List Char :=
  if 0 ≤ year ∧ year ≤ 9999 then fixedDigits 4 year.toNat
  else (if year < 0 then '-' else '+') :: fixedDigits 6 year.natAbs

/-- The date part of an ISO timestamp. -/
def isoDayChars (day : ℤ) : List Char :=
  let date := civilFromDays day
  isoYear date.year ++ '-' :: fixedDigits 2 date.month.toNat ++
    '-' :: fixedDigits 2 date.day.toNat

/-- The time part of an ISO timestamp, with the `T` in front. -/
def isoTimeChars (time : ℤ) : List Char :=
  'T' :: fixedDigits 2 (time / hourMs).toNat ++ ':' :: fixedDigits 2 (time / minuteMs % 60).toNat ++
    ':' :: fixedDigits 2 (time / 1000 % 60).toNat ++ '.' :: fixedDigits 3 (time % 1000).toNat ++ ['Z']

/-- The characters of `new Date(ms).toISOString()`. -/
def isoChars (ms : ℤ) : List Char := isoDayChars (ms / dayMs) ++ isoTimeChars (ms % dayMs)

/-- `new Date(ms).toISOString()`. -/
def toISOString (ms : ℤ) : String := String.ofList (isoChars ms)

example : toISOString 1709210096007 = "2024-02-29T12:34:56.007Z" := by decide

/-- The date of a day number, as `toISOString().slice(0, 10)` gives it. -/
def isoDay (day : ℤ) : String := takeText (toISOString (day * dayMs)) 10

/-- The text starts with a four-digit year. -/
def HasPlainYear (s : String) : Prop := ∃ c cs, s.toList = c :: cs ∧ c ≠ '+' ∧ c ≠ '-'

/-- The year of the day has four digits. -/
def PlainYear (day : ℤ) : Prop := 0 ≤ (civilFromDays day).year ∧ (civilFromDays day).year ≤ 9999

theorem isoYear_of_plainYear {day : ℤ} (h : PlainYear day) :
    isoYear (civilFromDays day).year = fixedDigits 4 (civilFromDays day).year.toNat := if_pos h

theorem isoDayChars_length {day : ℤ} (h : PlainYear day) : (isoDayChars day).length = 10 := by
  simp only [isoDayChars, isoYear_of_plainYear h, List.length_append, List.length_cons,
    fixedDigits_length]

/-- A timestamp with a plain year has a date of ten characters. -/
theorem plainYear_of_toISOString {ms : ℤ} (h : HasPlainYear (takeText (toISOString ms) 10)) :
    PlainYear (ms / dayMs) := by
  by_contra hyear
  obtain ⟨c, cs, hcs, hplus, hminus⟩ := h
  rw [takeText, toISOString, String.toList_ofList, String.toList_ofList, isoChars, isoDayChars,
    isoYear, if_neg (show ¬(0 ≤ (civilFromDays (ms / dayMs)).year ∧ _) from hyear)] at hcs
  by_cases hneg : (civilFromDays (ms / dayMs)).year < 0
  · rw [if_pos hneg] at hcs
    exact hminus (List.head_eq_of_cons_eq hcs).symm
  · rw [if_neg hneg] at hcs
    exact hplus (List.head_eq_of_cons_eq hcs).symm

theorem takeText_toISOString {ms : ℤ} (h : PlainYear (ms / dayMs)) :
    (takeText (toISOString ms) 10).toList = isoDayChars (ms / dayMs) := by
  rw [takeText, toISOString, String.toList_ofList, String.toList_ofList, isoChars]
  exact List.take_left' (isoDayChars_length h)

theorem isoDayChars_injective {a b : ℤ} (ha : PlainYear a) (hb : PlainYear b)
    (h : isoDayChars a = isoDayChars b) : a = b := by
  have hya : 0 ≤ (civilFromDays a).year ∧ (civilFromDays a).year ≤ 9999 := ha
  have hyb : 0 ≤ (civilFromDays b).year ∧ (civilFromDays b).year ≤ 9999 := hb
  have hca := civilFromDays_bounds a
  have hcb := civilFromDays_bounds b
  simp only [isoDayChars, isoYear_of_plainYear ha, isoYear_of_plainYear hb, List.append_assoc] at h
  obtain ⟨hyear, hrest⟩ := List.append_inj h (by rw [fixedDigits_length, fixedDigits_length])
  obtain ⟨hmonth, hday⟩ := List.append_inj hrest (by
    rw [List.length_cons, List.length_cons, fixedDigits_length, fixedDigits_length])
  have hy := fixedDigits_injective (by omega) (by omega) hyear
  have hm := fixedDigits_injective (by omega) (by omega) (List.tail_eq_of_cons_eq hmonth)
  have hd := fixedDigits_injective (by omega) (by omega) (List.tail_eq_of_cons_eq hday)
  refine civilFromDays_injective (CivilDate.ext ?_ ?_ ?_) <;> omega

/-- **Two timestamps with the same plain date fall on the same day.** -/
theorem day_eq_of_takeText_eq {a b : ℤ} (hplain : HasPlainYear (takeText (toISOString a) 10))
    (h : takeText (toISOString a) 10 = takeText (toISOString b) 10) : a / dayMs = b / dayMs := by
  have ha := plainYear_of_toISOString hplain
  have hb := plainYear_of_toISOString (h ▸ hplain)
  refine isoDayChars_injective ha hb ?_
  rw [← takeText_toISOString ha, ← takeText_toISOString hb, h]

/-! ## Reading a date -/

/-- The number that decimal digits give. -/
def decimalOf (cs : List Char) : ℤ := cs.foldl (fun n c ↦ n * 10 + (c.toNat - '0'.toNat : ℕ)) 0

/-- The day number of a text `YYYY-MM-DD` that is a date of the calendar. -/
def parseIsoDay (s : String) : Option ℤ :=
  match s.toList with
  | [y₁, y₂, y₃, y₄, '-', m₁, m₂, '-', d₁, d₂] =>
    if [y₁, y₂, y₃, y₄, m₁, m₂, d₁, d₂].all Char.isDigit then
      let day := daysFromCivil
        ⟨decimalOf [y₁, y₂, y₃, y₄], decimalOf [m₁, m₂], decimalOf [d₁, d₂]⟩
      if isoDay day = s then some day else none
    else none
  | _ => none

example : parseIsoDay "2024-02-29" = some 19782 := by decide
example : parseIsoDay "2023-02-29" = none := by decide

theorem isoDay_of_parseIsoDay {s : String} {day : ℤ} (h : parseIsoDay s = some day) :
    isoDay day = s ∧ HasPlainYear s := by
  rw [parseIsoDay] at h
  split at h
  · rename_i y₁ y₂ y₃ y₄ m₁ m₂ d₁ d₂ hs
    split at h
    · rename_i hdigits
      dsimp only at h
      split at h
      · rename_i hday
        rw [← Option.some.inj h]
        have hy : y₁.isDigit = true := by
          simp only [List.all_cons, Bool.and_eq_true] at hdigits
          exact hdigits.1
        refine ⟨hday, y₁, _, hs, ?_, ?_⟩ <;> rintro rfl <;> exact absurd hy (by decide)
      · cases h
    · cases h
  · cases h

/-- A timestamp whose date is the text falls on the day that the text names. -/
theorem day_eq_of_parseIsoDay {s : String} {day ms : ℤ} (h : parseIsoDay s = some day)
    (hms : takeText (toISOString ms) 10 = s) : ms / dayMs = day := by
  obtain ⟨hday, hplain⟩ := isoDay_of_parseIsoDay h
  have hsame : ms / dayMs = day * dayMs / dayMs := by
    refine day_eq_of_takeText_eq (by rw [hms]; exact hplain) ?_
    rw [hms, ← hday, isoDay]
  rw [hsame]
  exact Int.mul_ediv_cancel _ (by decide)

end UkAqOps

import Mathlib.Data.List.GetD
import Mathlib.Data.List.Nodup
import UkAqOps.Js.SignedYears

/-!
# Texts of dates

`String(date)` writes the fields of an instant down to its second, so it is the text of the whole
second that the instant is in, and of no other second.
-/

namespace UkAqOps

/-! ## Texts -/

def weekdayNames : List String := ["Sun", "Mon", "Tue", "Wed", "Thu", "Fri", "Sat"]

def monthNames : List String :=
  ["Jan", "Feb", "Mar", "Apr", "May", "Jun", "Jul", "Aug", "Sep", "Oct", "Nov", "Dec"]

/-- The day of the week, from Sunday on: day 0 was a Thursday. -/
def weekdayName (day : ℤ) : List Char := (weekdayNames.getD ((day + 4) % 7).toNat "").toList

def monthName (month : ℤ) : List Char := (monthNames.getD (month - 1).toNat "").toList

/-- The digits of a year below a million, four of them at least. -/
def yearDigits (n : ℕ) : List Char :=
  fixedDigits (if n < 10000 then 4 else if n < 100000 then 5 else 6) n

def textYear (year : ℤ) : List Char :=
  (if year < 0 then ['-'] else []) ++ yearDigits year.natAbs

/-- The time of a second of the day, and the time zone. -/
def textTime (seconds : ℤ) : List Char :=
  fixedDigits 2 (seconds / 3600).toNat ++ ':' :: fixedDigits 2 (seconds / 60 % 60).toNat ++
    ':' :: fixedDigits 2 (seconds % 60).toNat ++ " GMT+0000 (Coordinated Universal Time)".toList

def dateChars (ms : ℤ) : List Char :=
  let date := civilFromDays (ms / dayMs)
  weekdayName (ms / dayMs) ++ ' ' :: monthName date.month ++ ' ' :: fixedDigits 2 date.day.toNat ++
    ' ' :: textYear date.year ++ ' ' :: textTime (ms % dayMs / 1000)

/-- `String(new Date(ms))`, where the time zone is UTC. -/
def dateText (ms : ℤ) : String := String.ofList (dateChars ms)

example : dateText 1709210096007
    = "Thu Feb 29 2024 12:34:56 GMT+0000 (Coordinated Universal Time)" := by
  decide +kernel

/-! ## Whole seconds -/

/-- The second that an instant is in. -/
def wholeSecond (ms : ℤ) : ℤ := ms / 1000 * 1000

theorem wholeSecond_eq_self_iff {ms : ℤ} : wholeSecond ms = ms ↔ ms % 1000 = 0 := by
  rw [wholeSecond]
  omega

theorem isTimeValue_wholeSecond {ms : ℤ} (h : IsTimeValue ms) : IsTimeValue (wholeSecond ms) := by
  obtain ⟨hlow, hhigh⟩ := h
  rw [IsTimeValue, wholeSecond]
  omega

theorem wholeSecond_le (ms : ℤ) : wholeSecond ms ≤ ms := by
  rw [wholeSecond]
  omega

section Texts

variable {a b : ℤ}

theorem length_names : (∀ name ∈ weekdayNames, name.toList.length = 3) ∧
    ∀ name ∈ monthNames, name.toList.length = 3 := by
  decide

theorem weekdayName_length (day : ℤ) : (weekdayName day).length = 3 := by
  have hlt : ((day + 4) % 7).toNat < weekdayNames.length := by
    have hlength : weekdayNames.length = 7 := rfl
    omega
  rw [weekdayName, List.getD_eq_getElem _ _ hlt]
  exact length_names.1 _ (List.getElem_mem hlt)

theorem monthName_length {month : ℤ} (h : 1 ≤ month ∧ month ≤ 12) : (monthName month).length = 3 := by
  have hlt : (month - 1).toNat < monthNames.length := by
    have hlength : monthNames.length = 12 := rfl
    omega
  rw [monthName, List.getD_eq_getElem _ _ hlt]
  exact length_names.2 _ (List.getElem_mem hlt)

theorem monthName_injective {month month' : ℤ} (h : 1 ≤ month ∧ month ≤ 12)
    (h' : 1 ≤ month' ∧ month' ≤ 12) (heq : monthName month = monthName month') :
    month = month' := by
  have hlength : monthNames.length = 12 := rfl
  have hlt : (month - 1).toNat < monthNames.length := by omega
  have hlt' : (month' - 1).toNat < monthNames.length := by omega
  have hnodup : monthNames.Nodup := by decide
  rw [monthName, monthName, List.getD_eq_getElem _ _ hlt, List.getD_eq_getElem _ _ hlt'] at heq
  have hindex := hnodup.getElem_inj_iff.mp (String.toList_injective heq)
  omega

theorem yearDigits_injective {n m : ℕ} (hn : n < 10 ^ 6) (hm : m < 10 ^ 6)
    (h : yearDigits n = yearDigits m) : n = m := by
  have hlength := congrArg List.length h
  rw [yearDigits, yearDigits, fixedDigits_length, fixedDigits_length] at hlength
  rw [yearDigits, yearDigits, ← hlength] at h
  refine fixedDigits_injective ?_ ?_ h
  · split_ifs <;> omega
  · rw [hlength]
    split_ifs <;> omega

theorem head?_yearDigits (n : ℕ) : ∃ c, (yearDigits n).head? = some c ∧ c.isDigit = true := by
  have hne : yearDigits n ≠ [] := by
    intro hnil
    have hlength := congrArg List.length hnil
    rw [yearDigits, fixedDigits_length, List.length_nil] at hlength
    split_ifs at hlength
  obtain ⟨c, rest, hcons⟩ := List.exists_cons_of_ne_nil hne
  refine ⟨c, by rw [hcons]; rfl, isDigit_of_mem_fixedDigits (?_ : c ∈ yearDigits n)⟩
  rw [hcons]
  exact List.mem_cons_self

theorem textYear_injective (ha : a.natAbs < 10 ^ 6) (hb : b.natAbs < 10 ^ 6)
    (h : textYear a = textYear b) : a = b := by
  have hsign : ∀ n m, '-' :: yearDigits n ≠ yearDigits m := by
    intro n m heq
    obtain ⟨c, hc, hdigit⟩ := head?_yearDigits m
    rw [← heq, List.head?_cons, Option.some.injEq] at hc
    rw [← hc] at hdigit
    exact absurd hdigit (by decide)
  rw [textYear, textYear] at h
  by_cases hneg : a < 0
  · by_cases hneg' : b < 0
    · rw [if_pos hneg, if_pos hneg'] at h
      have habs := yearDigits_injective ha hb (List.append_cancel_left h)
      omega
    · rw [if_pos hneg, if_neg hneg'] at h
      exact absurd h (hsign _ _)
  · by_cases hneg' : b < 0
    · rw [if_neg hneg, if_pos hneg'] at h
      exact absurd h.symm (hsign _ _)
    · rw [if_neg hneg, if_neg hneg'] at h
      have habs := yearDigits_injective ha hb (List.append_cancel_left h)
      omega

theorem textTime_injective (ha : 0 ≤ a ∧ a < 86400) (hb : 0 ≤ b ∧ b < 86400)
    (h : textTime a = textTime b) : a = b := by
  have hwidth : ∀ n m : ℕ, (fixedDigits 2 n).length = (fixedDigits 2 m).length := fun n m ↦ by
    rw [fixedDigits_length, fixedDigits_length]
  simp only [textTime, List.append_assoc, List.cons_append] at h
  obtain ⟨hhour, h⟩ := List.append_inj h (hwidth _ _)
  obtain ⟨hminute, h⟩ := List.append_inj (List.tail_eq_of_cons_eq h) (hwidth _ _)
  obtain ⟨hsecond, -⟩ := List.append_inj (List.tail_eq_of_cons_eq h) (hwidth _ _)
  have hours := fixedDigits_injective (by omega) (by omega) hhour
  have minutes := fixedDigits_injective (by omega) (by omega) hminute
  have seconds := fixedDigits_injective (by omega) (by omega) hsecond
  omega

theorem textTime_length (a : ℤ) : (textTime a).length = (textTime 0).length := by
  simp only [textTime, List.length_append, List.length_cons, fixedDigits_length]

/-- **The text of a date** is that of no other second. -/
theorem dateChars_injOn (ha : IsTimeValue a) (hb : IsTimeValue b) (h : dateChars a = dateChars b) :
    wholeSecond a = wholeSecond b := by
  have hdays : ∀ {ms : ℤ}, IsTimeValue ms → (civilFromDays (ms / dayMs)).year.natAbs < 10 ^ 6 := by
    intro ms hms
    exact natAbs_yearOf_lt hms
  have hfields := civilFromDays_ranges (a / dayMs)
  have hfields' := civilFromDays_ranges (b / dayMs)
  simp only [dateChars, List.append_assoc, List.cons_append] at h
  obtain ⟨-, h⟩ := List.append_inj h (by rw [weekdayName_length, weekdayName_length])
  obtain ⟨hmonth, h⟩ := List.append_inj (List.tail_eq_of_cons_eq h) (by
    rw [monthName_length ⟨hfields.1, hfields.2.1⟩, monthName_length ⟨hfields'.1, hfields'.2.1⟩])
  obtain ⟨hday, h⟩ := List.append_inj (List.tail_eq_of_cons_eq h) (by
    rw [fixedDigits_length, fixedDigits_length])
  obtain ⟨hyear, htime⟩ := List.append_inj' (List.tail_eq_of_cons_eq h) (by
    rw [List.length_cons, List.length_cons, textTime_length, textTime_length (b % dayMs / 1000)])
  have hyears := textYear_injective (hdays ha) (hdays hb) hyear
  have hmonths := monthName_injective ⟨hfields.1, hfields.2.1⟩ ⟨hfields'.1, hfields'.2.1⟩ hmonth
  have hdate := fixedDigits_injective (by omega) (by omega) hday
  have hsameDay : a / dayMs = b / dayMs :=
    civilFromDays_injective (CivilDate.ext hyears hmonths (by omega))
  have hseconds : ∀ ms : ℤ, 0 ≤ ms % dayMs / 1000 ∧ ms % dayMs / 1000 < 86400 := by
    intro ms
    simp only [dayMs, hourMs, minuteMs]
    omega
  have hsameTime := textTime_injective (hseconds a) (hseconds b) (List.tail_eq_of_cons_eq htime)
  simp only [wholeSecond, dayMs, hourMs, minuteMs] at hsameDay hsameTime ⊢
  omega

/-! ## Reading texts -/

/-- The first character of the text of a date is that of a day of the week. -/
theorem head?_dateChars (ms : ℤ) : ∃ c ∈ ['S', 'M', 'T', 'W', 'F'], (dateChars ms).head? = some c := by
  have hfirst : ∀ name ∈ weekdayNames, ∃ c ∈ ['S', 'M', 'T', 'W', 'F'],
      name.toList.head? = some c := by
    simp [weekdayNames]
  have hlt : ((ms / dayMs + 4) % 7).toNat < weekdayNames.length := by
    have hlength : weekdayNames.length = 7 := rfl
    omega
  obtain ⟨c, hc, hhead⟩ := hfirst _ (List.getElem_mem hlt)
  refine ⟨c, hc, ?_⟩
  simp only [dateChars, weekdayName, List.append_assoc, List.getD_eq_getElem _ _ hlt,
    List.head?_append, hhead, Option.some_or]

theorem trimText_dateText (ms : ℤ) : trimText (dateText ms) = dateText ms := by
  have hlist : (dateText ms).toList = dateChars ms := String.toList_ofList
  refine trimText_eq_self (fun c hc ↦ ?_) fun c hc ↦ ?_
  · obtain ⟨d, hd, hhead⟩ := head?_dateChars ms
    rw [hlist, hhead, Option.mem_some_iff] at hc
    have hall : ∀ d ∈ ['S', 'M', 'T', 'W', 'F'], isJsWhitespace d = false :=
      List.all_iff_forall_prop.mp (by decide)
    rw [← hc]
    exact hall d hd
  · have hlast : (dateChars ms).getLast? = some ')' := by
      have hzone : " GMT+0000 (Coordinated Universal Time)".toList.getLast? = some ')' := by decide
      simp only [dateChars, textTime, ← List.append_assoc, ← List.cons_append, List.getLast?_append,
        List.getLast?_cons, hzone, Option.some_or]
    rw [hlist, hlast, Option.mem_some_iff] at hc
    rw [← hc]
    decide

end Texts

/-! ## Reading texts -/

/-- `dateParse` reads the text of a date as its second. -/
def ReadsDateTexts (dateParse : String → Option ℤ) : Prop :=
  ∀ t : ℤ, IsTimeValue t → dateParse (dateText t) = some (wholeSecond t)

open Classical in
/-- The reader of exactly the texts of dates and the ISO texts of instants. -/
noncomputable def readDate (text : String) : Option ℤ :=
  if h : ∃ t : ℤ, IsTimeValue t ∧ dateText t = text then some (wholeSecond h.choose)
  else readTimestamp text

theorem readsDateTexts_readDate : ReadsDateTexts readDate := by
  intro t ht
  have hexists : ∃ t' : ℤ, IsTimeValue t' ∧ dateText t' = dateText t := ⟨t, ht, rfl⟩
  refine (dif_pos hexists).trans (congrArg some ?_)
  exact dateChars_injOn hexists.choose_spec.1 ht (String.ofList_injective hexists.choose_spec.2)

theorem head?_isoYear (year : ℤ) :
    ∃ c, (isoYear year).head? = some c ∧ (c = '-' ∨ c = '+' ∨ c.isDigit = true) := by
  rw [isoYear]
  split
  · obtain ⟨c, rest, hcons⟩ := List.exists_cons_of_length_pos
      (show 0 < (fixedDigits 4 year.toNat).length by rw [fixedDigits_length]; decide)
    refine ⟨c, by rw [hcons]; rfl, Or.inr (Or.inr (isDigit_of_mem_fixedDigits (?_ :
      c ∈ fixedDigits 4 year.toNat)))⟩
    rw [hcons]
    exact List.mem_cons_self
  · refine ⟨_, rfl, ?_⟩
    split
    · exact Or.inl rfl
    · exact Or.inr (Or.inl rfl)

/-- The text of a date is no ISO text. -/
theorem dateText_ne_toISOString (t t' : ℤ) : dateText t ≠ toISOString t' := by
  intro h
  obtain ⟨c, hc, hhead⟩ := head?_dateChars t
  have hchars : dateChars t = isoChars t' := String.ofList_injective h
  obtain ⟨d, hd, hcases⟩ := head?_isoYear (civilFromDays (t' / dayMs)).year
  have hiso : (isoChars t').head? = some d := by
    simp only [isoChars, isoDayChars, List.append_assoc, List.head?_append, hd, Option.some_or]
  rw [← hchars, hhead, Option.some.injEq] at hiso
  have hall : ∀ c ∈ ['S', 'M', 'T', 'W', 'F'], c ≠ '-' ∧ c ≠ '+' ∧ c.isDigit = false :=
    List.all_iff_forall_prop.mp (by decide)
  obtain ⟨hminus, hplus, hdigit⟩ := hall c hc
  rw [← hiso] at hcases
  rcases hcases with hcase | hcase | hcase
  · exact hminus hcase
  · exact hplus hcase
  · rw [hdigit] at hcase
    exact Bool.false_ne_true hcase

theorem readsTimestamps_readDate : ReadsTimestamps readDate := by
  intro t ht
  have hnone : ¬∃ t' : ℤ, IsTimeValue t' ∧ dateText t' = toISOString t := by
    rintro ⟨t', -, heq⟩
    exact dateText_ne_toISOString t' t heq
  exact (dif_neg hnone).trans (readsTimestamps_readTimestamp t ht)

end UkAqOps

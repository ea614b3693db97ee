import UkAqOps.Js.Split
import UkAqOps.Scheduler.Cron

/-!
# The grammar of cron expressions

A field is a list of tokens; a token is a star, a value or a range, and may have a step. A token
denotes the values that its step reaches between its two ends; in the field of the weekdays the
numbers 0 and 7 are both Sunday, so there a value is read modulo seven.

The parser gives every token the values it denotes, but for the weekday ranges that end on seven:
there the last value is read as 0 before the range is built, so the range is empty, and rejected,
unless it starts on a Sunday, and then Sunday is all that is left of it.
-/

namespace UkAqOps.Scheduler

/-! ## Syntax -/

/-- A number, written in decimal digits. -/
structure Numeral where
  digits : List Char
  nonempty : digits ≠ []
  decimal : ∀ c ∈ digits, c.isDigit = true

def Numeral.text (n : Numeral) : String := String.ofList n.digits

def Numeral.value (n : Numeral) : ℤ := decimalOf n.digits

/-- A value of a field: a number, or a name in letters of either case. -/
inductive Atom where
  | number (n : Numeral)
  | name (letters : List Char)

inductive Base where
  | star
  | single (value : Atom)
  | range (first last : Atom)

structure Token where
  base : Base
  step : Option Numeral

def upperChars (cs : List Char) : List Char := cs.map Char.toUpper

def Atom.value (spec : FieldSpec) : Atom → ℤ
  | .number n => n.value
  | .name letters => (spec.names.lookup (String.ofList (upperChars letters))).getD 0

/-- The number is within the bounds of the field, the name is one of its names. -/
def Atom.InGrammar (spec : FieldSpec) : Atom → Prop
  | .number n => spec.min ≤ n.value ∧ n.value ≤ spec.max
  | .name letters => spec.names.lookup (String.ofList (upperChars letters)) ≠ none

def Base.InGrammar (spec : FieldSpec) : Base → Prop
  | .star => True
  | .single a => a.InGrammar spec
  | .range a b => a.InGrammar spec ∧ b.InGrammar spec ∧ a.value spec ≤ b.value spec

structure Token.InGrammar (spec : FieldSpec) (t : Token) : Prop where
  base : t.base.InGrammar spec
  step : ∀ n ∈ t.step, 0 < n.value

/-- A comma list of tokens. -/
structure FieldSyntax (spec : FieldSpec) where
  tokens : List Token
  nonempty : tokens ≠ []
  inGrammar : ∀ t ∈ tokens, t.InGrammar spec

def minuteSpec : FieldSpec := { fieldName := "minute", min := 0, max := 59 }
def hourSpec : FieldSpec := { fieldName := "hour", min := 0, max := 23 }
def dayOfMonthSpec : FieldSpec := { fieldName := "day-of-month", min := 1, max := 31 }
def monthSpec : FieldSpec :=
  { fieldName := "month", min := 1, max := 12, names := monthNameToNumber }
def dayOfWeekSpec : FieldSpec :=
  { fieldName := "day-of-week", min := 0, max := 7, names := dowNameToNumber }

structure CronSyntax where
  minute : FieldSyntax minuteSpec
  hour : FieldSyntax hourSpec
  dayOfMonth : FieldSyntax dayOfMonthSpec
  month : FieldSyntax monthSpec
  dayOfWeek : FieldSyntax dayOfWeekSpec

/-! ## Text -/

def Atom.chars : Atom → List Char
  | .number n => n.digits
  | .name letters => letters

def Base.chars : Base → List Char
  | .star => ['*']
  | .single a => a.chars
  | .range a b => a.chars ++ '-' :: b.chars

def Token.chars (t : Token) : List Char :=
  t.base.chars ++ match t.step with
    | none => []
    | some n => '/' :: n.digits

def FieldSyntax.chars {spec : FieldSpec} (f : FieldSyntax spec) : List Char :=
  List.intercalate [','] (f.tokens.map Token.chars)

/-- White space, or nothing. -/
def IsSpace (cs : List Char) : Prop := ∀ c ∈ cs, isJsWhitespace c = true

/-- The text is the five fields with white space between them, and perhaps around them. -/
def CronSyntax.Written (e : CronSyntax) (text : String) : Prop :=
  ∃ lead gap₁ gap₂ gap₃ gap₄ trail : List Char,
    IsSpace lead ∧ IsSpace gap₁ ∧ IsSpace gap₂ ∧ IsSpace gap₃ ∧ IsSpace gap₄ ∧ IsSpace trail ∧
    gap₁ ≠ [] ∧ gap₂ ≠ [] ∧ gap₃ ≠ [] ∧ gap₄ ≠ [] ∧
    text.toList = lead ++ (e.minute.chars ++ (gap₁ ++ (e.hour.chars ++ (gap₂ ++
      (e.dayOfMonth.chars ++ (gap₃ ++ (e.month.chars ++ (gap₄ ++
      (e.dayOfWeek.chars ++ trail)))))))))

/-! ## Meaning -/

/-- The ends of the values of a base. -/
def Base.first (spec : FieldSpec) : Base → ℤ
  | .star => spec.min
  | .single a => a.value spec
  | .range a _ => a.value spec

def Base.last (spec : FieldSpec) : Base → ℤ
  | .star => spec.max
  | .single a => a.value spec
  | .range _ b => b.value spec

def Token.stepValue (t : Token) : ℤ := (t.step.map Numeral.value).getD 1

/-- The values that the step reaches from the first one up to the last one. -/
def Token.Denotes (spec : FieldSpec) (t : Token) (v : ℤ) : Prop :=
  ∃ k : ℕ, v = t.base.first spec + t.stepValue * k ∧ v ≤ t.base.last spec

def FieldSyntax.Denotes {spec : FieldSpec} (f : FieldSyntax spec) (v : ℤ) : Prop :=
  ∃ t ∈ f.tokens, t.Denotes spec v

/-- The weekdays that a token denotes: 7 is read as 0. -/
def Token.DenotesDay (t : Token) (w : ℤ) : Prop := ∃ v, t.Denotes dayOfWeekSpec v ∧ v % 7 = w

/-- The bare star. -/
def FieldSyntax.Bare {spec : FieldSpec} (f : FieldSyntax spec) : Prop := f.tokens = [⟨.star, none⟩]

/-- **The times that an expression denotes.** -/
def CronSyntax.Denotes (e : CronSyntax) (ms : ℤ) : Prop :=
  let date := civilFromDays (ms / dayMs)
  let onDay := e.dayOfMonth.Denotes date.day
  let onWeekday := ∃ t ∈ e.dayOfWeek.tokens, t.DenotesDay (utcDay ms)
  e.minute.Denotes (utcMinutes ms) ∧ e.hour.Denotes (utcHours ms) ∧ e.month.Denotes date.month ∧
    ((e.dayOfMonth.Bare ∨ e.dayOfWeek.Bare → onDay ∧ onWeekday) ∧
      (¬(e.dayOfMonth.Bare ∨ e.dayOfWeek.Bare) → onDay ∨ onWeekday))

/-! ## The built-in operations -/

/-- Text of digits reads as its value while that is exact, and as a large number, if as any, beyond;
ASCII text is raised letter by letter. -/
structure Host.ReadsCron (host : Host) : Prop where
  upper : ∀ cs : List Char, (∀ c ∈ cs, c.toNat < 128) →
    host.toUpperCase (String.ofList cs) = String.ofList (upperChars cs)
  small : ∀ n : Numeral, n.value ≤ 2 ^ 53 → host.integerOf n.text = some n.value
  large : ∀ n : Numeral, 2 ^ 53 < n.value → ∀ m ∈ host.integerOf n.text, 2 ^ 53 ≤ m

/-- What the parser does with 7 in the field of the weekdays. -/
def FieldSpec.sunday (spec : FieldSpec) (v : ℤ) : ℤ :=
  if spec.fieldName = "day-of-week" ∧ v = 7 then 0 else v

/-- The names of a field are written in capitals, and none of them stands for 7; its bounds are
small. -/
structure FieldSpec.Regular (spec : FieldSpec) : Prop where
  capitals : ∀ p ∈ spec.names, p.1.toList ≠ [] ∧ ∀ c ∈ p.1.toList, c.isUpper = true
  names : ∀ p ∈ spec.names, spec.min ≤ p.2 ∧ p.2 ≤ spec.max ∧ spec.sunday p.2 = p.2
  bounds : 0 ≤ spec.min ∧ spec.min ≤ spec.max ∧ spec.max < 2 ^ 53
  weekdays : spec.fieldName = "day-of-week" → spec.min = 0 ∧ spec.max = 7

theorem capitals_of_all {names : List (String × ℤ)}
    (h : ∀ p ∈ names, p.1.toList ≠ [] ∧ p.1.toList.all Char.isUpper = true) :
    ∀ p ∈ names, p.1.toList ≠ [] ∧ ∀ c ∈ p.1.toList, c.isUpper = true :=
  fun p hp ↦ ⟨(h p hp).1, List.all_eq_true.mp (h p hp).2⟩

theorem regular_minuteSpec : minuteSpec.Regular := ⟨by decide, by decide, by decide, by decide⟩
theorem regular_hourSpec : hourSpec.Regular := ⟨by decide, by decide, by decide, by decide⟩
theorem regular_dayOfMonthSpec : dayOfMonthSpec.Regular :=
  ⟨by decide, by decide, by decide, by decide⟩
theorem regular_monthSpec : monthSpec.Regular :=
  ⟨capitals_of_all (by decide), by decide, by decide, by decide⟩
theorem regular_dayOfWeekSpec : dayOfWeekSpec.Regular :=
  ⟨capitals_of_all (by decide), by decide, by decide, by decide⟩

/-! ## Characters -/

/-- What holds of the first 128 characters. -/
theorem forall_ascii {P : Char → Prop} (h : ∀ n < 128, P (Char.ofNat n)) {c : Char}
    (hc : c.toNat < 128) : P c := by
  rw [← Char.ofNat_toNat c]
  exact h _ hc

theorem toNat_lt_of_isAlphanum {c : Char} (h : c.isAlphanum = true) : c.toNat < 128 := by
  simp only [Char.isAlphanum, isAlpha_eq, isUpper_eq, isLower_eq, Char.isDigit, ge_iff_le,
    UInt32.le_iff_toNat_le, Bool.or_eq_true, Bool.and_eq_true, decide_eq_true_eq,
    UInt32.reduceToNat, Char.toNat_val, Char.reduceVal] at h
  omega

theorem isAlphanum_of_isUpper_toUpper {c : Char} (h : c.toUpper.isUpper = true) :
    c.isAlphanum = true := by
  by_cases hc : c.isLower = true
  · simp [Char.isAlphanum, isAlpha_eq, hc]
  · rw [toUpper_of_not_isLower hc] at h
    simp [Char.isAlphanum, isAlpha_eq, h]

/-- A character of a cron field. -/
def IsCronChar (c : Char) : Prop := c.isAlphanum = true ∨ c ∈ ['*', '-', '/', ',']

instance (c : Char) : Decidable (IsCronChar c) := inferInstanceAs (Decidable (_ ∨ _))

theorem IsCronChar.toNat_lt {c : Char} (h : IsCronChar c) : c.toNat < 128 := by
  rcases h with h | h
  · exact toNat_lt_of_isAlphanum h
  · have hall : ∀ d ∈ ['*', '-', '/', ','], d.toNat < 128 :=
      List.all_iff_forall_prop.mp (by decide)
    exact hall c h

/-- Raising a character of a field. -/
theorem IsCronChar.ascii {c : Char} (h : IsCronChar c) :
    c.toUpper.toUpper = c.toUpper ∧ isJsWhitespace c = false ∧ IsCronChar c.toUpper ∧
      (c.isAlphanum = true → c.toUpper.isAlphanum = true) ∧ (c.isDigit = true → c.toUpper = c) := by
  refine forall_ascii (P := fun c ↦ IsCronChar c → c.toUpper.toUpper = c.toUpper ∧
    isJsWhitespace c = false ∧ IsCronChar c.toUpper ∧
    (c.isAlphanum = true → c.toUpper.isAlphanum = true) ∧ (c.isDigit = true → c.toUpper = c))
    ?_ h.toNat_lt h
  decide

theorem notMem_marks_of_isAlphanum {c : Char} (h : c.isAlphanum = true) :
    c ∉ ['*', '-', '/', ','] := by
  intro hmem
  have hall : ∀ d ∈ ['*', '-', '/', ','], d.isAlphanum = false :=
    List.all_iff_forall_prop.mp (by decide)
  rw [hall c hmem] at h
  exact Bool.false_ne_true h

section UpperChars

variable {cs : List Char}

/-- What the parser makes of text that it has raised already. -/
structure Raised (host : Host) (cs : List Char) : Prop where
  trim : trimText (String.ofList (upperChars cs)) = String.ofList (upperChars cs)
  upper : host.toUpperCase (String.ofList (upperChars cs)) = String.ofList (upperChars cs)
  first : host.toUpperCase (String.ofList cs) = String.ofList (upperChars cs)
  trimFirst : trimText (String.ofList cs) = String.ofList cs

theorem mem_upperChars {c : Char} (h : ∀ c ∈ cs, IsCronChar c) (hc : c ∈ upperChars cs) :
    IsCronChar c := by
  obtain ⟨d, hd, rfl⟩ := List.mem_map.mp hc
  exact (h d hd).ascii.2.2.1

theorem raised_of_isCronChar {host : Host} (hhost : host.ReadsCron) (h : ∀ c ∈ cs, IsCronChar c) :
    Raised host cs where
  trim := trimText_of_forall (by
    rw [String.toList_ofList]
    exact fun c hc ↦ (mem_upperChars h hc).ascii.2.1)
  upper := by
    rw [hhost.upper _ fun c hc ↦ (mem_upperChars h hc).toNat_lt, upperChars, upperChars, List.map_map]
    exact congrArg String.ofList (List.map_congr_left fun c hc ↦ (h c hc).ascii.1)
  first := hhost.upper _ fun c hc ↦ (h c hc).toNat_lt
  trimFirst := trimText_of_forall (by
    rw [String.toList_ofList]
    exact fun c hc ↦ (h c hc).ascii.2.1)

theorem Numeral.upperChars_digits (n : Numeral) : upperChars n.digits = n.digits := by
  rw [upperChars]
  refine (List.map_congr_left fun c hc ↦ ?_).trans (List.map_id _)
  have hdigit := n.decimal c hc
  exact (IsCronChar.ascii (Or.inl (by simp [Char.isAlphanum, hdigit]))).2.2.2.2 hdigit

end UpperChars

/-! ## Atoms -/

section Atoms

variable {host : Host} {spec : FieldSpec}

theorem mem_names_of_lookup {name : String} {v : ℤ} (h : spec.names.lookup name = some v) :
    (name, v) ∈ spec.names := by
  revert h
  induction spec.names with
  | nil => exact fun h ↦ absurd h (by simp)
  | cons p names ih =>
    intro h
    rw [List.lookup_cons] at h
    split at h
    · rename_i heq
      rw [← Option.some.inj h, eq_of_beq heq]
      exact List.mem_cons_self
    · exact List.mem_cons_of_mem p (ih h)

/-- The characters of an atom: letters and digits, and at least one of them. -/
theorem Atom.InGrammar.chars {a : Atom} (h : a.InGrammar spec) (hspec : spec.Regular) :
    a.chars ≠ [] ∧ ∀ c ∈ a.chars, c.isAlphanum = true := by
  rcases a with n | letters
  · refine ⟨n.nonempty, fun c hc ↦ ?_⟩
    simp [Char.isAlphanum, n.decimal c hc]
  · obtain ⟨v, hv⟩ := Option.ne_none_iff_exists'.mp h
    obtain ⟨hne, hcapitals⟩ := hspec.capitals _ (mem_names_of_lookup hv)
    rw [String.toList_ofList] at hne hcapitals
    refine ⟨fun hnil ↦ hne (by rw [upperChars, show letters = [] from hnil]; rfl), fun c hc ↦ ?_⟩
    exact isAlphanum_of_isUpper_toUpper (hcapitals _ (List.mem_map_of_mem hc))

theorem Atom.InGrammar.isCronChar {a : Atom} (h : a.InGrammar spec) (hspec : spec.Regular) {c : Char}
    (hc : c ∈ a.chars) : IsCronChar c := Or.inl ((h.chars hspec).2 c hc)

/-- Digits are no name. -/
theorem Numeral.lookup_names (n : Numeral) (hspec : spec.Regular) :
    spec.names.lookup n.text = none := by
  by_contra h
  obtain ⟨v, hv⟩ := Option.ne_none_iff_exists'.mp h
  obtain ⟨-, hcapitals⟩ := hspec.capitals _ (mem_names_of_lookup hv)
  obtain ⟨c, cs, hcs⟩ := List.exists_cons_of_ne_nil n.nonempty
  rw [Numeral.text, String.toList_ofList, hcs] at hcapitals
  have hupper := hcapitals c List.mem_cons_self
  have hdigit := n.decimal c (hcs ▸ List.mem_cons_self)
  have halphanum : c.isAlphanum = true := by simp [Char.isAlphanum, hdigit]
  exact forall_ascii (P := fun c ↦ c.isUpper = true → c.isDigit = true → False) (by decide)
    (toNat_lt_of_isAlphanum halphanum) hupper hdigit

/-- **An atom is read as its value**, with 7 read as 0 among the weekdays. -/
theorem normalizeCronAtom_chars (hhost : host.ReadsCron) (hspec : spec.Regular) {a : Atom}
    (ha : a.InGrammar spec) :
    normalizeCronAtom host spec (String.ofList (upperChars a.chars))
      = .ok (spec.sunday (a.value spec)) := by
  have hraised := raised_of_isCronChar hhost fun c ↦ ha.isCronChar hspec (c := c)
  have hne : String.ofList (upperChars a.chars) ≠ "" := by
    intro hnil
    have hlist := congrArg String.toList hnil
    rw [String.toList_ofList] at hlist
    exact (ha.chars hspec).1 (List.map_eq_nil_iff.mp hlist)
  rw [normalizeCronAtom]
  simp only [hraised.trim, hraised.upper, if_neg hne]
  rcases a with n | letters
  · have htext : String.ofList (upperChars (Atom.number n).chars) = n.text := by
      rw [Atom.chars, n.upperChars_digits, Numeral.text]
    rw [htext, n.lookup_names hspec]
    obtain ⟨hmin, hmax⟩ : spec.min ≤ n.value ∧ n.value ≤ spec.max := ha
    have hbounds := hspec.bounds
    rw [hhost.small n (by omega)]
    dsimp only
    rw [Atom.value, FieldSpec.sunday]
    by_cases hseven : spec.fieldName = "day-of-week" ∧ n.text = "7"
    · have hdigits : n.digits = ['7'] := by
        have hlist := congrArg String.toList hseven.2
        rwa [Numeral.text, String.toList_ofList] at hlist
      have hvalue : n.value = 7 := by
        rw [Numeral.value, hdigits]
        rfl
      rw [if_pos hseven, if_pos ⟨hseven.1, hvalue⟩]
    · rw [if_neg hseven, if_neg (by omega)]
  · obtain ⟨v, hv⟩ := Option.ne_none_iff_exists'.mp (show spec.names.lookup _ ≠ none from ha)
    rw [Atom.value, hv, Atom.chars, hv]
    dsimp only
    rw [Option.getD_some, (hspec.names _ (mem_names_of_lookup hv)).2.2]

end Atoms

/-! ## Tokens -/

/-- The ends of a base as the parser reads them. -/
def Base.parsedFirst (spec : FieldSpec) : Base → ℤ
  | .star => spec.min
  | .single a => spec.sunday (a.value spec)
  | .range a _ => spec.sunday (a.value spec)

def Base.parsedLast (spec : FieldSpec) : Base → ℤ
  | .star => spec.max
  | .single a => spec.sunday (a.value spec)
  | .range _ b => spec.sunday (b.value spec)

/-- The step of a token as `Number` reads it: none if its digits are too many. -/
def Token.parsedStep (host : Host) (t : Token) : Option ℤ :=
  match t.step with
  | none => some 1
  | some n => host.integerOf n.text

section Tokens

variable {host : Host} {spec : FieldSpec} {t : Token}

/-- A text with a character in it. -/
theorem includesText_singleton (cs : List Char) (c : Char) :
    includesText (String.ofList cs) (String.ofList [c]) = decide (c ∈ cs) := by
  rw [includesText, String.toList_ofList, String.toList_ofList]
  refine decide_eq_decide.mpr ⟨fun h ↦ h.subset (List.mem_singleton_self c), fun h ↦ ?_⟩
  obtain ⟨before, after, rfl⟩ := List.append_of_mem h
  exact ⟨before, after, by simp⟩

/-- The characters of a base. -/
theorem Base.InGrammar.chars {b : Base} (h : b.InGrammar spec) (hspec : spec.Regular) {c : Char}
    (hc : c ∈ b.chars) : c.isAlphanum = true ∨ c ∈ ['*', '-'] := by
  rcases b with _ | a | ⟨a, a'⟩
  · exact Or.inr (by simp [List.mem_singleton.mp hc])
  · exact Or.inl ((Atom.InGrammar.chars (a := a) h hspec).2 c hc)
  · rcases List.mem_append.mp hc with hfirst | hrest
    · exact Or.inl ((h.1.chars hspec).2 c hfirst)
    · rcases List.mem_cons.mp hrest with rfl | hlast
      · exact Or.inr (by simp)
      · exact Or.inl ((h.2.1.chars hspec).2 c hlast)

theorem Base.InGrammar.chars_ne_nil {b : Base} (h : b.InGrammar spec) (hspec : spec.Regular) :
    b.chars ≠ [] := by
  rcases b with _ | a | ⟨a, a'⟩
  · exact List.cons_ne_nil _ _
  · exact (Atom.InGrammar.chars (a := a) h hspec).1
  · simp [Base.chars]

theorem Base.InGrammar.isCronChar {b : Base} (h : b.InGrammar spec) (hspec : spec.Regular) {c : Char}
    (hc : c ∈ b.chars) : IsCronChar c :=
  (h.chars hspec hc).imp_right fun hmark ↦ by
    rcases List.mem_cons.mp hmark with rfl | hmark
    · simp
    · simp [List.mem_singleton.mp hmark]

theorem Token.InGrammar.isCronChar (h : t.InGrammar spec) (hspec : spec.Regular) {c : Char}
    (hc : c ∈ t.chars) : IsCronChar c ∧ c ≠ ',' := by
  have halphanum : ∀ d : Char, d.isAlphanum = true → IsCronChar d ∧ d ≠ ',' := fun d hd ↦
    ⟨Or.inl hd, fun heq ↦ notMem_marks_of_isAlphanum hd (by simp [heq])⟩
  rcases List.mem_append.mp hc with hbase | hstep
  · refine ⟨h.base.isCronChar hspec hbase, ?_⟩
    rcases h.base.chars hspec hbase with hd | hmark
    · exact (halphanum c hd).2
    · rintro rfl
      exact absurd hmark (by decide)
  · rcases hn : t.step with _ | n
    · rw [hn] at hstep
      exact absurd hstep List.not_mem_nil
    · rw [hn] at hstep
      rcases List.mem_cons.mp hstep with rfl | hdigit
      · exact ⟨Or.inr (by simp), by decide⟩
      · exact halphanum c (by simp [Char.isAlphanum, n.decimal c hdigit])

/-- A character that is neither letter nor digit is not raised from one. -/
theorem notMem_upperChars {cs : List Char} {mark : Char} (hmark : mark ∈ ['*', '-', '/', ','])
    (h : ∀ c ∈ cs, IsCronChar c ∧ c ≠ mark) : mark ∉ upperChars cs := by
  intro hmem
  obtain ⟨c, hc, rfl⟩ := List.mem_map.mp hmem
  obtain ⟨hcron, hne⟩ := h c hc
  rcases hcron with halphanum | hother
  · exact notMem_marks_of_isAlphanum (IsCronChar.ascii (Or.inl halphanum) |>.2.2.2.1 halphanum) hmark
  · have hsame : ∀ d ∈ ['*', '-', '/', ','], d.toUpper = d :=
      List.all_iff_forall_prop.mp (by decide)
    exact hne (hsame c hother).symm

theorem Base.InGrammar.slash_notMem {b : Base} (h : b.InGrammar spec) (hspec : spec.Regular) :
    '/' ∉ upperChars b.chars := by
  refine notMem_upperChars (by simp) fun c hc ↦ ⟨h.isCronChar hspec hc, ?_⟩
  rintro rfl
  rcases h.chars hspec hc with hd | hmark
  · exact absurd hd (by decide)
  · exact absurd hmark (by decide)

theorem Numeral.notMem_digits (n : Numeral) {c : Char} (hc : c.isDigit = false) : c ∉ n.digits := by
  intro hmem
  rw [n.decimal c hmem] at hc
  cases hc

theorem Token.upperChars_chars (t : Token) : upperChars t.chars
    = upperChars t.base.chars ++ match t.step with
      | none => []
      | some n => '/' :: n.digits := by
  rw [Token.chars, upperChars, List.map_append]
  rcases t.step with _ | n
  · rfl
  · rw [List.map_cons]
    exact congrArg (fun cs ↦ upperChars t.base.chars ++ '/' :: cs) n.upperChars_digits

theorem Numeral.parsed_pos (hhost : host.ReadsCron) {n : Numeral} (hn : 0 < n.value) {m : ℤ}
    (hm : host.integerOf n.text = some m) : 0 < m := by
  by_cases hsmall : n.value ≤ 2 ^ 53
  · rw [hhost.small n hsmall] at hm
    rwa [← Option.some.inj hm]
  · have hlarge := hhost.large n (by omega) m hm
    omega

theorem Token.parsedStep_pos (hhost : host.ReadsCron) (h : t.InGrammar spec) {s : ℤ}
    (hs : t.parsedStep host = some s) : 0 < s := by
  rw [Token.parsedStep] at hs
  rcases hn : t.step with _ | n
  · rw [hn] at hs
    rw [← Option.some.inj hs]
    decide
  · rw [hn] at hs
    exact Numeral.parsed_pos hhost (h.step n hn) hs

/-- **The base and the step of a token.** -/
theorem cronBaseAndStep_chars (hhost : host.ReadsCron) (hspec : spec.Regular)
    (h : t.InGrammar spec) (token : String) :
    match t.parsedStep host with
    | some s => cronBaseAndStep host spec token (String.ofList (upperChars t.chars))
        = .ok (String.ofList (upperChars t.base.chars), s)
    | none => ∃ message, cronBaseAndStep host spec token (String.ofList (upperChars t.chars))
        = .error message := by
  have hslash : '/' ∉ upperChars t.base.chars := h.base.slash_notMem hspec
  have hincludes : includesText (String.ofList (upperChars t.chars)) "/"
      = decide ('/' ∈ upperChars t.chars) := includesText_singleton _ '/'
  rw [Token.parsedStep, cronBaseAndStep, hincludes, t.upperChars_chars]
  rcases hn : t.step with _ | n
  · simp [hslash]
  · have hmem : '/' ∈ upperChars t.base.chars ++ '/' :: n.digits := by simp
    have hsplit : splitText (String.ofList (upperChars t.base.chars ++ '/' :: n.digits)) '/'
        = [String.ofList (upperChars t.base.chars), n.text] := by
      have hdigits : ∀ c ∈ n.digits, decide (c = '/') = false := fun c hc ↦ by
        rw [decide_eq_false_iff_not]
        rintro rfl
        exact n.notMem_digits (by decide) hc
      have hbase : ∀ c ∈ upperChars t.base.chars, decide (c = '/') = false := fun c hc ↦ by
        rw [decide_eq_false_iff_not]
        rintro rfl
        exact hslash hc
      rw [splitText, String.toList_ofList, splitChars_append_cons hbase (by decide),
        splitChars_eq_singleton hdigits]
      rfl
    have htrim : trimText n.text = n.text := trimText_of_forall (by
      rw [Numeral.text, String.toList_ofList]
      intro c hc
      exact (IsCronChar.ascii (Or.inl (by simp [Char.isAlphanum, n.decimal c hc]))).2.1)
    dsimp only
    rw [if_pos (decide_eq_true hmem), hsplit]
    dsimp only
    rw [htrim]
    rcases hparsed : host.integerOf n.text with _ | s
    · exact ⟨_, rfl⟩
    · dsimp only
      rw [if_pos (Numeral.parsed_pos hhost (h.step n hn) hparsed)]

/-- **The ends of a base.** -/
theorem cronRange_chars (hhost : host.ReadsCron) (hspec : spec.Regular) {b : Base}
    (h : b.InGrammar spec) (token : String) :
    cronRange host spec token (String.ofList (upperChars b.chars))
      = .ok (b.parsedFirst spec, b.parsedLast spec) := by
  have hdash : ∀ {a : Atom}, a.InGrammar spec → ∀ c ∈ upperChars a.chars,
      decide (c = '-') = false := by
    intro a ha c hc
    rw [decide_eq_false_iff_not]
    rintro rfl
    refine notMem_upperChars (by simp) (fun d hd ↦ ⟨ha.isCronChar hspec hd, ?_⟩) hc
    rintro rfl
    exact absurd ((ha.chars hspec).2 _ hd) (by decide)
  have hstar : ∀ {cs : List Char}, cs ≠ ['*'] → String.ofList cs ≠ "*" := by
    intro cs hne heq
    have hlist := congrArg String.toList heq
    rw [String.toList_ofList] at hlist
    exact hne hlist
  rcases b with _ | a | ⟨a, a'⟩
  · exact if_pos rfl
  · have hne : upperChars a.chars ≠ ['*'] := by
      intro heq
      have hmem : '*' ∈ upperChars a.chars := by simp [heq]
      refine notMem_upperChars (by simp) (fun d hd ↦ ⟨h.isCronChar hspec hd, ?_⟩) hmem
      rintro rfl
      exact absurd ((Atom.InGrammar.chars (a := a) h hspec).2 _ hd) (by decide)
    have hincludes : includesText (String.ofList (upperChars a.chars)) "-"
        = decide ('-' ∈ upperChars a.chars) := includesText_singleton _ '-'
    have hnone : '-' ∉ upperChars a.chars := fun hmem ↦ absurd (hdash h _ hmem) (by decide)
    rw [cronRange, Base.chars, if_neg (hstar hne), hincludes, decide_eq_false hnone,
      normalizeCronAtom_chars hhost hspec h]
    rfl
  · have hupper : upperChars (Base.range a a').chars
        = upperChars a.chars ++ '-' :: upperChars a'.chars := by
      rw [Base.chars, upperChars, List.map_append, List.map_cons]
      rfl
    have hmem : '-' ∈ upperChars a.chars ++ '-' :: upperChars a'.chars := by simp
    have hne : upperChars a.chars ++ '-' :: upperChars a'.chars ≠ ['*'] := by
      intro heq
      rw [heq] at hmem
      exact absurd hmem (by decide)
    have hincludes : includesText (String.ofList (upperChars a.chars ++ '-' :: upperChars a'.chars))
        "-" = decide ('-' ∈ upperChars a.chars ++ '-' :: upperChars a'.chars) :=
      includesText_singleton _ '-'
    have hsplit : splitText (String.ofList (upperChars a.chars ++ '-' :: upperChars a'.chars)) '-'
        = [String.ofList (upperChars a.chars), String.ofList (upperChars a'.chars)] := by
      rw [splitText, String.toList_ofList, splitChars_append_cons (hdash h.1) (by decide),
        splitChars_eq_singleton (hdash h.2.1)]
      rfl
    rw [cronRange, hupper, if_neg (hstar hne), hincludes, if_pos (decide_eq_true hmem), hsplit]
    dsimp only
    rw [normalizeCronAtom_chars hhost hspec h.1, normalizeCronAtom_chars hhost hspec h.2.1]
    rfl

/-- The values that the parser gives a token, if it accepts it. -/
def Token.parsed (host : Host) (spec : FieldSpec) (t : Token) : Option (List ℤ) :=
  match t.parsedStep host with
  | none => none
  | some s =>
    if t.base.parsedLast spec < t.base.parsedFirst spec then none
    else some ((steppedValues (t.base.parsedFirst spec) (t.base.parsedLast spec) s).map spec.sunday)

/-- **A token** is given its values, or rejected. -/
theorem expandCronToken_chars (hhost : host.ReadsCron) (hspec : spec.Regular)
    (h : t.InGrammar spec) :
    match t.parsed host spec with
    | some values => expandCronToken host spec (String.ofList (upperChars t.chars)) = .ok values
    | none => ∃ message,
        expandCronToken host spec (String.ofList (upperChars t.chars)) = .error message := by
  have hraised := raised_of_isCronChar hhost fun c hc ↦ (h.isCronChar hspec (c := c) hc).1
  have hne : String.ofList (upperChars t.chars) ≠ "" := by
    intro hnil
    have hlist := congrArg String.toList hnil
    rw [String.toList_ofList, t.upperChars_chars] at hlist
    have hbase : t.base.chars = [] := List.map_eq_nil_iff.mp (List.append_eq_nil_iff.mp hlist).1
    exact h.base.chars_ne_nil hspec hbase
  rw [expandCronToken, Token.parsed]
  simp only [hraised.trim, hraised.upper, if_neg hne]
  have hstep := cronBaseAndStep_chars hhost hspec h (String.ofList (upperChars t.chars))
  rcases hparsed : t.parsedStep host with _ | s
  · rw [hparsed] at hstep
    obtain ⟨message, hmessage⟩ := hstep
    exact ⟨message, by rw [hmessage]; rfl⟩
  · rw [hparsed] at hstep
    dsimp only at hstep ⊢
    rw [hstep, Except.ok_bind]
    dsimp only
    rw [cronRange_chars hhost hspec h.base, Except.ok_bind]
    dsimp only
    by_cases hempty : t.base.parsedLast spec < t.base.parsedFirst spec
    · rw [if_pos hempty, if_pos hempty]
      exact ⟨_, rfl⟩
    · rw [if_neg hempty, if_neg hempty]
      rfl

end Tokens

end UkAqOps.Scheduler

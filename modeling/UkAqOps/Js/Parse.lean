import Mathlib.Data.List.TakeWhile
import UkAqOps.Js.Stringify
import UkAqOps.Lib.OrderedMap

/-!
# Parsing

`JSON.parse`: a recursive descent over the characters, with fuel that the length of the text always
covers. A number literal is read as the text that `String(number)` gives; an integer that is exactly
representable keeps its decimal text, for every other literal the caller supplies the rounding.

Writing a value with any indentation and parsing the text gives the value back.
-/

namespace UkAqOps

namespace JsonText

/-! ## Tokens -/

/-- White space between the tokens of a document. -/
def isSpace (c : Char) : Bool := c = ' ' || c = '\t' || c = '\n' || c = '\r'

def skipSpace (cs : List Char) : List Char := cs.dropWhile isSpace

/-- The value of a hexadecimal digit. -/
def hexDigit (c : Char) : Option ℕ :=
  match digitValue c with
  | some d => if d < 16 then some d else none
  | none => none

/-- The character of a `\u` escape. A lone surrogate is no scalar value and reads as U+FFFD. -/
def unicodeChar (a b c d : Char) : Option Char := do
  let code := ((← hexDigit a) * 16 + (← hexDigit b)) * 256 + (← hexDigit c) * 16 + (← hexDigit d)
  pure (if 0xD800 ≤ code ∧ code ≤ 0xDFFF then '\uFFFD' else Char.ofNat code)

/-- The character of an escape of one letter. -/
def unescape (c : Char) : Option Char :=
  if c = '"' ∨ c = '\\' ∨ c = '/' then some c
  else if c = 'b' then some '\x08'
  else if c = 'f' then some '\x0C'
  else if c = 'n' then some '\n'
  else if c = 'r' then some '\r'
  else if c = 't' then some '\t'
  else none

/-- The characters up to the closing quote, and what follows it. -/
def parseChars : List Char → Option (List Char × List Char)
  | [] => none
  | '"' :: rest => some ([], rest)
  | '\\' :: 'u' :: a :: b :: c :: d :: rest => do
    let char ← unicodeChar a b c d
    let (chars, rest) ← parseChars rest
    pure (char :: chars, rest)
  | '\\' :: e :: rest => do
    let char ← unescape e
    let (chars, rest) ← parseChars rest
    pure (char :: chars, rest)
  | c :: rest => do
    guard (0x20 ≤ c.toNat ∧ c ≠ '\\')
    let (chars, rest) ← parseChars rest
    pure (c :: chars, rest)

/-! ## Numbers -/

def isNumberChar (c : Char) : Bool :=
  c.isDigit || c = '-' || c = '+' || c = '.' || c = 'e' || c = 'E'

/-- A run of digits, which is not empty. -/
def digits (cs : List Char) : Option (List Char) :=
  if cs.takeWhile Char.isDigit = [] then none else some (cs.dropWhile Char.isDigit)

/-- `-?(0|[1-9]\d*)(\.\d+)?([eE][+-]?\d+)?`. -/
def isNumberLiteral (token : List Char) : Bool :=
  let unsigned := if token.head? = some '-' then token.tail else token
  let int := unsigned.takeWhile Char.isDigit
  let fraction := fun cs : List Char ↦ if cs.head? = some '.' then digits cs.tail else some cs
  let exponent := fun cs : List Char ↦
    if cs.head? = some 'e' ∨ cs.head? = some 'E' then
      digits (if cs.tail.head? = some '+' ∨ cs.tail.head? = some '-' then cs.tail.tail else cs.tail)
    else some cs
  int ≠ [] && (int = ['0'] || int.head? ≠ some '0') &&
    (fraction (unsigned.dropWhile Char.isDigit) >>= exponent) = some []

/-- The text of the number that a literal stands for. -/
def readNumber (double : String → String) (token : List Char) : Option String :=
  let negative := token.head? = some '-'
  let unsigned := if negative then token.tail else token
  let n := Nat.ofDigitChars 10 unsigned 0
  if isNumberLiteral token = false then none
  else if unsigned.all Char.isDigit ∧ (n : ℤ) ≤ maxSafeInteger then
    some (toString (if negative then -(n : ℤ) else n))
  else some (double (String.ofList token))

/-! ## Documents -/

/-- The object that a list of members gives: of members with one name the last one counts, in the
place of the first one, and array indices come first. -/
def objectOf (fields : List (String × JsValue)) : JsValue :=
  let entries := (OrderedMap.ofList fields).entries
  let indexed := entries.filterMap fun p ↦ (indexKey p.1).map fun n ↦ (n, p)
  .obj ((Sorting.sortBy (fun a b ↦ compare a.1 b.1) indexed).map Prod.snd
    ++ entries.filter fun p ↦ (indexKey p.1).isNone)

/-- A keyword or a number. -/
def parseAtom (double : String → String) (cs : List Char) : Option (JsValue × List Char) :=
  if "null".toList.isPrefixOf cs then some (.null, cs.drop 4)
  else if "true".toList.isPrefixOf cs then some (.bool true, cs.drop 4)
  else if "false".toList.isPrefixOf cs then some (.bool false, cs.drop 5)
  else (readNumber double (cs.takeWhile isNumberChar)).map fun t ↦
    (.num t, cs.dropWhile isNumberChar)

mutual

/-- A value, and what follows it. -/
def parseValue (double : String → String) : ℕ → List Char → Option (JsValue × List Char)
  | 0, _ => none
  | fuel + 1, cs =>
    match skipSpace cs with
    | '"' :: rest => (parseChars rest).map fun p ↦ (.str (String.ofList p.1), p.2)
    | '[' :: rest =>
      match skipSpace rest with
      | ']' :: rest => some (.arr [], rest)
      | rest => (parseItems double fuel rest).map fun p ↦ (.arr p.1, p.2)
    | '\x7b' :: rest =>
      match skipSpace rest with
      | '\x7d' :: rest => some (.obj [], rest)
      | rest => (parseFields double fuel rest).map fun p ↦ (objectOf p.1, p.2)
    | cs => parseAtom double cs

/-- The items of an array up to its closing bracket. -/
def parseItems (double : String → String) : ℕ → List Char → Option (List JsValue × List Char)
  | 0, _ => none
  | fuel + 1, cs => do
    let (value, rest) ← parseValue double fuel cs
    match skipSpace rest with
    | ',' :: rest => (parseItems double fuel rest).map fun p ↦ (value :: p.1, p.2)
    | ']' :: rest => some ([value], rest)
    | _ => none

/-- The members of an object up to its closing bracket. -/
def parseFields (double : String → String) :
    ℕ → List Char → Option (List (String × JsValue) × List Char)
  | 0, _ => none
  | fuel + 1, cs =>
    match skipSpace cs with
    | '"' :: rest => do
      let (name, rest) ← parseChars rest
      match skipSpace rest with
      | ':' :: rest => do
        let (value, rest) ← parseValue double fuel rest
        let field := (String.ofList name, value)
        match skipSpace rest with
        | ',' :: rest => (parseFields double fuel rest).map fun p ↦ (field :: p.1, p.2)
        | '\x7d' :: rest => some ([field], rest)
        | _ => none
      | _ => none
    | _ => none

end

/-- `JSON.parse(text)`, `none` where it throws. -/
def parse (double : String → String) (text : String) : Option JsValue :=
  match parseValue double (text.toList.length + 1) text.toList with
  | some (value, rest) => if skipSpace rest = [] then some value else none
  | none => none

/-! ## Reading back strings -/

theorem toList_jsonQuote (s : String) :
    (jsonQuote s).toList = '"' :: (s.toList.flatMap fun c ↦ (jsonEscape c).toList) ++ ['"'] := by
  rw [jsonQuote, String.toList_append, String.toList_append, String.toList_join, List.flatMap_map]
  rfl

/-- The character that an escape sequence stands for. -/
def escaped : List Char → Option Char
  | ['\\', e] => if e = 'u' then none else unescape e
  | ['\\', 'u', a, b, c, d] => unicodeChar a b c d
  | _ => none

theorem parseChars_escaped {cs : List Char} {char : Char} (h : escaped cs = some char)
    (rest : List Char) :
    parseChars (cs ++ rest) = (parseChars rest).map fun p ↦ (char :: p.1, p.2) := by
  unfold escaped at h
  split at h
  · rename_i e
    by_cases he : e = 'u'
    · rw [if_pos he] at h
      exact nomatch h
    · rw [if_neg he] at h
      rw [List.cons_append, List.cons_append, List.nil_append, parseChars, h]
      · cases parseChars rest <;> rfl
      · exact fun _ _ _ _ _ hu _ ↦ he hu
  · rename_i a b c d
    rw [List.cons_append, List.cons_append, List.cons_append, List.cons_append, List.cons_append,
      List.cons_append, List.nil_append, parseChars, h]
    cases parseChars rest <;> rfl
  · exact nomatch h

theorem escaped_jsonEscape_control : ∀ n < 0x20,
    escaped (jsonEscape (Char.ofNat n)).toList = some (Char.ofNat n) := by decide

/-- Reading what was escaped gives the character back. -/
theorem parseChars_jsonEscape (c : Char) (rest : List Char) :
    parseChars ((jsonEscape c).toList ++ rest)
      = (parseChars rest).map fun p ↦ (c :: p.1, p.2) := by
  by_cases hquote : c = '"'
  · subst hquote
    exact parseChars_escaped (by decide) rest
  by_cases hslash : c = '\\'
  · subst hslash
    exact parseChars_escaped (by decide) rest
  by_cases hcontrol : c.toNat < 0x20
  · have h := escaped_jsonEscape_control c.toNat hcontrol
    rw [Char.ofNat_toNat] at h
    exact parseChars_escaped h rest
  · have hplain : jsonEscape c = String.ofList [c] := by
      have hval : ∀ n : UInt32, n.toNat < 0x20 → c.val ≠ n := by
        rintro n hn rfl
        exact hcontrol hn
      rw [jsonEscape, if_neg hquote, if_neg hslash, if_neg (hval 0x8 (by decide)),
        if_neg (hval 0x9 (by decide)), if_neg (hval 0xA (by decide)), if_neg (hval 0xC (by decide)),
        if_neg (hval 0xD (by decide)), if_neg (show ¬c.val < 0x20 from hcontrol)]
    rw [hplain, String.toList_ofList, List.cons_append, List.nil_append, parseChars]
    · rw [show guard (0x20 ≤ c.toNat ∧ c ≠ '\\') = some () from if_pos ⟨not_lt.mp hcontrol, hslash⟩]
      cases parseChars rest <;> rfl
    · exact fun h ↦ hquote h
    · rintro _ _ _ _ _ h
      exact absurd h hslash
    · rintro _ _ h
      exact absurd h hslash

theorem parseChars_flatMap (cs rest : List Char) :
    parseChars ((cs.flatMap fun c ↦ (jsonEscape c).toList) ++ '"' :: rest) = some (cs, rest) := by
  induction cs with
  | nil => rfl
  | cons c cs ih =>
    rw [List.flatMap_cons, List.append_assoc, parseChars_jsonEscape, ih]
    rfl

/-- A quoted string reads back as itself. -/
theorem parseChars_jsonQuote (s : String) (rest : List Char) :
    ∃ body, (jsonQuote s).toList ++ rest = '"' :: body ∧
      parseChars body = some (s.toList, rest) := by
  refine ⟨(s.toList.flatMap fun c ↦ (jsonEscape c).toList) ++ '"' :: rest, ?_,
    parseChars_flatMap s.toList rest⟩
  rw [toList_jsonQuote, List.cons_append, List.cons_append, List.append_assoc]
  rfl

/-! ## Reading back numbers -/

theorem takeWhile_of_all {p : Char → Bool} {cs rest : List Char} (h : ∀ c ∈ cs, p c = true)
    (hrest : ∀ c ∈ rest.head?, p c = false) :
    (cs ++ rest).takeWhile p = cs ∧ (cs ++ rest).dropWhile p = rest := by
  induction cs with
  | nil =>
    rcases rest with _ | ⟨c, rest⟩
    · exact ⟨rfl, rfl⟩
    · have hc := hrest c rfl
      exact ⟨by rw [List.nil_append, List.takeWhile_cons, if_neg (by rw [hc]; decide)],
        by rw [List.nil_append, List.dropWhile_cons, if_neg (by rw [hc]; decide)]⟩
  | cons c cs ih =>
    obtain ⟨hc, hcs⟩ := List.forall_mem_cons.mp h
    obtain ⟨htake, hdrop⟩ := ih hcs
    exact ⟨by rw [List.cons_append, List.takeWhile_cons, if_pos hc, htake],
      by rw [List.cons_append, List.dropWhile_cons, if_pos hc, hdrop]⟩

theorem isDigit_of_mem_toDigits {n : ℕ} {c : Char} (h : c ∈ Nat.toDigits 10 n) :
    c.isDigit = true := Nat.isDigit_of_mem_toDigits (by decide) (by decide) h

/-- Decimal digits do not start with a zero, unless they are just that. -/
theorem head?_toDigits {n : ℕ} (hn : 0 < n) : (Nat.toDigits 10 n).head? ≠ some '0' := by
  induction n using Nat.strong_induction_on with
  | _ n ih =>
    by_cases hsmall : n < 10
    · rw [Nat.toDigits_of_lt_base hsmall]
      have hdigit : ∀ n < 10, 0 < n → n.digitChar ≠ '0' := by decide
      exact fun h ↦ hdigit n hsmall hn (Option.some.inj h)
    · rw [Nat.toDigits_of_base_le (by decide) (by omega)]
      have htens : 0 < n / 10 := by omega
      rcases hdigits : Nat.toDigits 10 (n / 10) with _ | ⟨d, ds⟩
      · exact absurd hdigits Nat.toDigits_ne_nil
      · have h := ih (n / 10) (by omega) htens
        rw [hdigits] at h
        exact h

theorem isNumberLiteral_of_digits {token unsigned : List Char} {n : ℕ}
    (hunsigned : (if token.head? = some '-' then token.tail else token) = unsigned)
    (hdigits : unsigned = Nat.toDigits 10 n) : isNumberLiteral token = true := by
  have hsplit := @takeWhile_of_all Char.isDigit (Nat.toDigits 10 n) []
    (fun c hc ↦ isDigit_of_mem_toDigits hc) (by simp)
  rw [List.append_nil] at hsplit
  rw [isNumberLiteral]
  simp only [hunsigned, hdigits, hsplit.1, hsplit.2, Bool.and_eq_true, Bool.or_eq_true,
    decide_eq_true_eq]
  refine ⟨⟨Nat.toDigits_ne_nil, ?_⟩, rfl⟩
  rcases Nat.eq_zero_or_pos n with rfl | hn
  · exact Or.inl rfl
  · exact Or.inr (head?_toDigits hn)

/-- The digits of a number, with or without a sign. -/
theorem readNumber_digits (double : String → String) (negative : Bool) {n : ℕ}
    (hn : (n : ℤ) ≤ maxSafeInteger) :
    readNumber double ((if negative then ['-'] else []) ++ Nat.toDigits 10 n)
      = some (toString (if negative then -(n : ℤ) else n)) := by
  have hhead : ((if negative then ['-'] else []) ++ Nat.toDigits 10 n).head? = some '-' ↔
      negative = true := by
    cases negative
    · refine ⟨fun h ↦ ?_, fun h ↦ (nomatch h)⟩
      rcases hdigits : Nat.toDigits 10 n with _ | ⟨d, ds⟩
      · exact absurd hdigits Nat.toDigits_ne_nil
      · rw [hdigits] at h
        have hd := isDigit_of_mem_toDigits (n := n) (hdigits ▸ List.mem_cons_self (a := d))
        rw [show d = '-' from Option.some.inj h] at hd
        exact absurd hd (by decide)
    · exact ⟨fun _ ↦ rfl, fun _ ↦ rfl⟩
  have hunsigned : (if ((if negative then ['-'] else []) ++ Nat.toDigits 10 n).head? = some '-'
      then ((if negative then ['-'] else []) ++ Nat.toDigits 10 n).tail
      else (if negative then ['-'] else []) ++ Nat.toDigits 10 n) = Nat.toDigits 10 n := by
    cases negative
    · rw [if_neg (fun h ↦ nomatch hhead.mp h)]
      rfl
    · rfl
  rw [readNumber, if_neg (by rw [isNumberLiteral_of_digits hunsigned rfl]; decide)]
  simp only [hunsigned, Nat.ofDigitChars_ten_toDigits]
  rw [if_pos ⟨List.all_eq_true.mpr fun c hc ↦ isDigit_of_mem_toDigits hc, hn⟩]
  simp only [hhead]

/-- An integer reads back as itself. -/
theorem readNumber_toString (double : String → String) {n : ℤ} (hn : (n.natAbs : ℤ) ≤ maxSafeInteger) :
    readNumber double (toString n).toList = some (toString n) := by
  rcases n with n | n
  · have h := readNumber_digits double false (n := n) hn
    rw [show (toString (Int.ofNat n)).toList = [] ++ Nat.toDigits 10 n from Nat.toList_repr]
    exact h
  · have h := readNumber_digits double true (n := n + 1) hn
    have htext : (toString (Int.negSucc n)).toList = ['-'] ++ Nat.toDigits 10 (n + 1) := by
      rw [show toString (Int.negSucc n) = "-" ++ (n + 1).repr from rfl, String.toList_append,
        Nat.toList_repr]
      rfl
    rw [htext]
    exact h

theorem isNumberChar_of_mem_toString {n : ℤ} {c : Char} (h : c ∈ (toString n).toList) :
    isNumberChar c = true := by
  have hdigit : ∀ m : ℕ, c ∈ Nat.toDigits 10 m → isNumberChar c = true := by
    intro m hm
    simp only [isNumberChar, isDigit_of_mem_toDigits hm, Bool.true_or]
  rcases n with n | n
  · rw [show (toString (Int.ofNat n)).toList = Nat.toDigits 10 n from Nat.toList_repr] at h
    exact hdigit n h
  · rw [show toString (Int.negSucc n) = "-" ++ (n + 1).repr from rfl, String.toList_append,
      Nat.toList_repr] at h
    rcases List.mem_append.mp h with hsign | hdigits
    · rw [List.mem_singleton.mp hsign]
      rfl
    · exact hdigit (n + 1) hdigits

/-! ## Reading back documents -/

end JsonText

namespace JsValue

mutual

/-- What `JSON.parse` can return: numbers are exact integers, no field is missing or occurs twice,
and no name is an array index. -/
def Plain : JsValue → Prop
  | undefined => False
  | null => True
  | bool _ => True
  | num t => ∃ n : ℤ, t = toString n ∧ (n.natAbs : ℤ) ≤ maxSafeInteger
  | str _ => True
  | arr items => PlainItems items
  | obj fields => PlainFields fields ∧ (fields.map Prod.fst).Nodup

def PlainItems : List JsValue → Prop
  | [] => True
  | v :: rest => Plain v ∧ PlainItems rest

def PlainFields : List (String × JsValue) → Prop
  | [] => True
  | (k, v) :: rest => indexKey k = none ∧ Plain v ∧ PlainFields rest

end

mutual

/-- What `JSON.parse` returns for the text it was written as: the literal of a number reads as the
number itself, no field is missing, and the fields stand in the order of an object. -/
def Readable (double : String → String) : JsValue → Prop
  | undefined => False
  | null => True
  | bool _ => True
  | num t => JsonText.readNumber double t.toList = some t ∧
      ∀ c ∈ t.toList, JsonText.isNumberChar c = true
  | str _ => True
  | arr items => ReadableItems double items
  | obj fields => ReadableFields double fields ∧ JsonText.objectOf fields = obj fields

def ReadableItems (double : String → String) : List JsValue → Prop
  | [] => True
  | v :: rest => Readable double v ∧ ReadableItems double rest

def ReadableFields (double : String → String) : List (String × JsValue) → Prop
  | [] => True
  | (_, v) :: rest => Readable double v ∧ ReadableFields double rest

end

mutual

/-- The fuel that parsing a value takes. -/
def weight : JsValue → ℕ
  | arr items => 1 + itemsWeight items
  | obj fields => 1 + fieldsWeight fields
  | _ => 1

def itemsWeight : List JsValue → ℕ
  | [] => 0
  | v :: rest => 1 + weight v + itemsWeight rest

def fieldsWeight : List (String × JsValue) → ℕ
  | [] => 0
  | (_, v) :: rest => 1 + weight v + fieldsWeight rest

end

/-- What `enclosed` writes after the first item. -/
def afterItem (closing : Char) (indent depth : ℕ) (pieces : List (List Char)) : List Char :=
  pieces.flatMap (fun next ↦ ',' :: lineBreak indent (depth + 1) ++ next)
    ++ lineBreak indent depth ++ [closing]

theorem enclosed_cons (opening closing : Char) (indent depth : ℕ) (piece : List Char)
    (rest : List (List Char)) :
    enclosed opening closing indent depth (piece :: rest)
      = opening :: lineBreak indent (depth + 1) ++ piece ++ afterItem closing indent depth rest := by
  rw [enclosed, afterItem]
  simp only [List.append_assoc]

theorem afterItem_nil (closing : Char) (indent depth : ℕ) :
    afterItem closing indent depth [] = lineBreak indent depth ++ [closing] := rfl

theorem afterItem_cons (closing : Char) (indent depth : ℕ) (piece : List Char)
    (rest : List (List Char)) :
    afterItem closing indent depth (piece :: rest)
      = ',' :: (lineBreak indent (depth + 1) ++ piece ++ afterItem closing indent depth rest) := by
  rw [afterItem, afterItem, List.flatMap_cons]
  simp only [List.append_assoc, List.cons_append]

end JsValue

namespace JsonText

open JsValue

theorem skipSpace_append {space cs : List Char} (hspace : ∀ c ∈ space, isSpace c = true)
    (hcs : ∀ c ∈ cs.head?, isSpace c = false) : skipSpace (space ++ cs) = cs :=
  (takeWhile_of_all hspace hcs).2

theorem isSpace_of_mem_lineBreak {indent depth : ℕ} {c : Char} (h : c ∈ lineBreak indent depth) :
    isSpace c = true := by
  rw [lineBreak] at h
  split at h
  · exact absurd h List.not_mem_nil
  · rcases List.mem_cons.mp h with rfl | h
    · rfl
    · rw [List.eq_of_mem_replicate h]
      rfl

/-- A character that neither continues a number nor is skipped. -/
def IsMark (c : Char) : Prop := isNumberChar c = false ∧ isSpace c = false

/-- Nothing here continues a number. -/
def StopsNumber (rest : List Char) : Prop := ∀ c ∈ rest.head?, isNumberChar c = false

theorem stopsNumber_lineBreak (indent depth : ℕ) {c : Char} (hc : IsMark c) (rest : List Char) :
    StopsNumber (lineBreak indent depth ++ c :: rest) := by
  rw [StopsNumber, lineBreak]
  split
  · rintro d hd
    rw [← Option.some.inj hd]
    exact hc.1
  · rintro d hd
    rw [← Option.some.inj hd]
    rfl

theorem stopsNumber_afterItem {closing : Char} (hclosing : IsMark closing) (indent depth : ℕ)
    (pieces : List (List Char)) (rest : List Char) :
    StopsNumber (afterItem closing indent depth pieces ++ rest) := by
  rcases pieces with _ | ⟨piece, pieces⟩
  · rw [afterItem_nil, List.append_assoc]
    exact stopsNumber_lineBreak indent depth hclosing rest
  · rw [afterItem_cons]
    rintro d hd
    rw [← Option.some.inj hd]
    rfl

theorem exists_cons_of_readNumber {double : String → String} {t : String}
    (hread : readNumber double t.toList = some t) (hchars : ∀ c ∈ t.toList, isNumberChar c = true) :
    ∃ c cs, t.toList = c :: cs ∧ isNumberChar c = true := by
  have hne : t.toList ≠ [] := by
    intro h
    rw [h] at hread
    exact nomatch hread
  obtain ⟨c, cs, hcs⟩ := List.exists_cons_of_ne_nil hne
  exact ⟨c, cs, hcs, hchars c (hcs ▸ List.mem_cons_self)⟩

theorem isSpace_of_isNumberChar {c : Char} (hc : isNumberChar c = true) : isSpace c = false := by
  refine Bool.eq_false_iff.mpr fun hspace ↦ ?_
  simp only [isSpace, Bool.or_eq_true, decide_eq_true_eq] at hspace
  rcases hspace with ((rfl | rfl) | rfl) | rfl <;> exact absurd hc (by decide)

theorem ne_of_isNumberChar {c d : Char} (hc : isNumberChar c = true)
    (hd : isNumberChar d = false) : c ≠ d := by
  rintro rfl
  exact absurd hc (by rw [hd]; decide)

/-- A document that is no string, array or object is an atom. -/
theorem parseValue_of_atom (double : String → String) (fuel : ℕ) {space cs : List Char}
    (hspace : ∀ c ∈ space, isSpace c = true)
    (hcs : ∀ c ∈ cs.head?, isSpace c = false ∧ c ≠ '"' ∧ c ≠ '[' ∧ c ≠ '\x7b') :
    parseValue double (fuel + 1) (space ++ cs) = parseAtom double cs := by
  rw [parseValue, skipSpace_append hspace fun c hc ↦ (hcs c hc).1]
  split
  · exact absurd rfl (hcs '"' rfl).2.1
  · exact absurd rfl (hcs '[' rfl).2.2.1
  · exact absurd rfl (hcs '\x7b' rfl).2.2.2
  · rfl

theorem parseAtom_number {double : String → String} {t : String} {rest : List Char}
    (hread : readNumber double t.toList = some t) (hchars : ∀ c ∈ t.toList, isNumberChar c = true)
    (hrest : StopsNumber rest) :
    parseAtom double (t.toList ++ rest) = some (.num t, rest) := by
  have hsplit := takeWhile_of_all hchars hrest
  obtain ⟨c, cs, hcs, hc⟩ := exists_cons_of_readNumber hread hchars
  have hkeyword : ∀ d ds, isNumberChar d = false →
      (d :: ds).isPrefixOf (t.toList ++ rest) = false := by
    intro d ds hd
    rw [hcs, List.cons_append, List.isPrefixOf]
    rw [beq_eq_false_iff_ne.mpr (ne_of_isNumberChar hc hd).symm, Bool.false_and]
  have hnull : ¬"null".toList.isPrefixOf (t.toList ++ rest) = true :=
    Bool.eq_false_iff.mp (hkeyword 'n' ['u', 'l', 'l'] rfl)
  have htrue : ¬"true".toList.isPrefixOf (t.toList ++ rest) = true :=
    Bool.eq_false_iff.mp (hkeyword 't' ['r', 'u', 'e'] rfl)
  have hfalse : ¬"false".toList.isPrefixOf (t.toList ++ rest) = true :=
    Bool.eq_false_iff.mp (hkeyword 'f' ['a', 'l', 's', 'e'] rfl)
  rw [parseAtom, if_neg hnull, if_neg htrue, if_neg hfalse, hsplit.1, hsplit.2, hread]
  rfl

/-- The text of a number that is finite has no letter `N` or `I`. -/
theorem numberText_of_forall {t : String} (hchars : ∀ c ∈ t.toList, isNumberChar c = true) :
    numberText t = t := by
  have hletter : ∀ name : String, 'N' ∈ name.toList ∨ 'I' ∈ name.toList → t ≠ name := by
    rintro name (h | h) rfl
    · exact absurd (hchars _ h) (by decide)
    · exact absurd (hchars _ h) (by decide)
  rw [numberText, if_neg]
  rintro (h | h | h)
  · exact hletter "NaN" (by decide) h
  · exact hletter "Infinity" (by decide) h
  · exact hletter "-Infinity" (by decide) h

theorem numberText_toString (n : ℤ) : numberText (toString n) = toString n :=
  numberText_of_forall fun _ ↦ isNumberChar_of_mem_toString

/-- A quoted string, parsed as a value. -/
theorem parseValue_quote (double : String → String) (fuel : ℕ) {space : List Char}
    (hspace : ∀ c ∈ space, isSpace c = true) (s : String) (rest : List Char) :
    parseValue double (fuel + 1) (space ++ (jsonQuote s).toList ++ rest) = some (.str s, rest) := by
  obtain ⟨body, hbody, hparse⟩ := parseChars_jsonQuote s rest
  rw [List.append_assoc, hbody, parseValue, skipSpace_append hspace (by rintro c hc; cases hc; rfl)]
  simp only [hparse, Option.map_some, String.ofList_toList]

/-- Every text of a value starts with a character that is not skipped and closes nothing. -/
theorem head?_chars {double : String → String} {v : JsValue} (hv : v.Readable double)
    (indent depth : ℕ) (rest : List Char) :
    ∃ c cs, v.chars indent depth ++ rest = c :: cs ∧ isSpace c = false ∧ c ≠ ']' ∧ c ≠ '\x7d' := by
  rcases v with _ | _ | b | t | s | items | fields
  · exact absurd hv id
  · exact ⟨'n', _, rfl, rfl, by decide, by decide⟩
  · rcases b
    · exact ⟨'f', _, rfl, rfl, by decide, by decide⟩
    · exact ⟨'t', _, rfl, rfl, by decide, by decide⟩
  · obtain ⟨hread, hnumber⟩ := hv
    obtain ⟨c, cs, hcs, hc⟩ := exists_cons_of_readNumber hread hnumber
    exact ⟨c, cs ++ rest, by rw [JsValue.chars, numberText_of_forall hnumber, hcs, List.cons_append],
      isSpace_of_isNumberChar hc, ne_of_isNumberChar hc rfl, ne_of_isNumberChar hc rfl⟩
  · obtain ⟨body, hbody, -⟩ := parseChars_jsonQuote s rest
    exact ⟨'"', body, hbody, rfl, by decide, by decide⟩
  · rw [JsValue.chars]
    rcases itemChars indent (depth + 1) items with _ | ⟨p, ps⟩
    · exact ⟨'[', _, rfl, rfl, by decide, by decide⟩
    · exact ⟨'[', _, by rw [enclosed_cons]; rfl, rfl, by decide, by decide⟩
  · rw [JsValue.chars]
    rcases fieldChars indent (depth + 1) fields with _ | ⟨p, ps⟩
    · exact ⟨'\x7b', _, rfl, rfl, by decide, by decide⟩
    · exact ⟨'\x7b', _, by rw [enclosed_cons]; rfl, rfl, by decide, by decide⟩

theorem isMark_bracket : IsMark ']' ∧ IsMark '\x7d' ∧ IsMark ',' :=
  ⟨⟨rfl, rfl⟩, ⟨rfl, rfl⟩, ⟨rfl, rfl⟩⟩

/-- What follows an item: a comma and the next item, or the closing bracket. -/
theorem skipSpace_afterItem {closing : Char} (hclosing : IsMark closing) (indent depth : ℕ)
    (rest : List Char) :
    skipSpace (afterItem closing indent depth [] ++ rest) = closing :: rest := by
  rw [afterItem_nil, List.append_assoc]
  exact skipSpace_append (fun c hc ↦ isSpace_of_mem_lineBreak hc) (by
    rintro c hc
    rw [← Option.some.inj hc]
    exact hclosing.2)

theorem skipSpace_cons {c : Char} (hc : isSpace c = false) (rest : List Char) :
    skipSpace (c :: rest) = c :: rest := by
  rw [skipSpace, List.dropWhile_cons, if_neg (by rw [hc]; decide)]

theorem colon_eq (indent : ℕ) :
    ∃ blank, colon indent = ':' :: blank ∧ ∀ c ∈ blank, isSpace c = true := by
  rw [colon]
  split
  · exact ⟨[], rfl, by simp⟩
  · exact ⟨[' '], rfl, by simp [isSpace]⟩

theorem fieldChars_cons {double : String → String} (indent depth : ℕ) (k : String) {v : JsValue}
    (hv : v.Readable double) (fields : List (String × JsValue)) : fieldChars indent depth ((k, v) :: fields)
      = ((jsonQuote k).toList ++ colon indent ++ v.chars indent depth)
        :: fieldChars indent depth fields := by
  cases v with
  | undefined => exact absurd hv id
  | _ => rfl

mutual

theorem parseValue_chars (double : String → String) (indent : ℕ) : ∀ (v : JsValue),
    v.Readable double → ∀ (depth fuel : ℕ) (space rest : List Char), (∀ c ∈ space, isSpace c = true) →
      StopsNumber rest → v.weight ≤ fuel →
      parseValue double fuel (space ++ v.chars indent depth ++ rest) = some (v, rest)
  | v, hv, depth, 0, space, rest, hspace, hrest, hfuel => by
    cases v <;> simp [weight] at hfuel
  | .undefined, hv, depth, fuel + 1, space, rest, hspace, hrest, hfuel => absurd hv id
  | .null, hv, depth, fuel + 1, space, rest, hspace, hrest, hfuel => by
    rw [List.append_assoc]
    exact parseValue_of_atom double fuel hspace (by rintro c hc; cases hc; decide)
  | .bool true, hv, depth, fuel + 1, space, rest, hspace, hrest, hfuel => by
    rw [List.append_assoc]
    exact parseValue_of_atom double fuel hspace (by rintro c hc; cases hc; decide)
  | .bool false, hv, depth, fuel + 1, space, rest, hspace, hrest, hfuel => by
    rw [List.append_assoc]
    exact parseValue_of_atom double fuel hspace (by rintro c hc; cases hc; decide)
  | .num t, hv, depth, fuel + 1, space, rest, hspace, hrest, hfuel => by
    obtain ⟨hread, hnumber⟩ := hv
    obtain ⟨c, cs, hcs, hc⟩ := exists_cons_of_readNumber hread hnumber
    rw [JsValue.chars, numberText_of_forall hnumber, List.append_assoc,
      parseValue_of_atom double fuel hspace, parseAtom_number hread hnumber hrest]
    intro d hd
    rw [hcs, List.cons_append] at hd
    rw [← Option.some.inj hd]
    exact ⟨isSpace_of_isNumberChar hc, ne_of_isNumberChar hc rfl, ne_of_isNumberChar hc rfl,
      ne_of_isNumberChar hc rfl⟩
  | .str s, hv, depth, fuel + 1, space, rest, hspace, hrest, hfuel =>
    parseValue_quote double fuel hspace s rest
  | .arr [], hv, depth, fuel + 1, space, rest, hspace, hrest, hfuel => by
    rw [List.append_assoc, parseValue, skipSpace_append hspace (by rintro c hc; cases hc; rfl)]
    rfl
  | .arr (v :: items), hv, depth, fuel + 1, space, rest, hspace, hrest, hfuel => by
    rw [Readable, ReadableItems] at hv
    rw [weight, itemsWeight] at hfuel
    rw [List.append_assoc, JsValue.chars, itemChars, enclosed_cons, parseValue,
      skipSpace_append hspace (by rintro c hc; cases hc; rfl)]
    obtain ⟨c, cs, hcs, hc, hne, -⟩ := head?_chars hv.1 indent (depth + 1)
      (afterItem ']' indent depth (itemChars indent (depth + 1) items) ++ rest)
    have hskip : skipSpace (lineBreak indent (depth + 1) ++ v.chars indent (depth + 1)
        ++ afterItem ']' indent depth (itemChars indent (depth + 1) items) ++ rest) = c :: cs := by
      rw [List.append_assoc, List.append_assoc, hcs]
      exact skipSpace_append (fun c hc ↦ isSpace_of_mem_lineBreak hc) (by
        rintro d hd
        rw [← Option.some.inj hd]
        exact hc)
    have hitems := parseItems_chars double indent v hv.1 items hv.2 depth fuel [] rest
      (by simp) (by rw [itemsWeight]; omega)
    rw [List.nil_append, List.append_assoc, hcs] at hitems
    simp only [List.cons_append, hskip]
    split
    · rename_i heq
      exact absurd (List.cons.inj heq).1 hne
    · rw [hitems]
      rfl
  | .obj [], hv, depth, fuel + 1, space, rest, hspace, hrest, hfuel => by
    rw [List.append_assoc, parseValue, skipSpace_append hspace (by rintro c hc; cases hc; rfl)]
    rfl
  | .obj ((k, v) :: fields), hv, depth, fuel + 1, space, rest, hspace, hrest, hfuel => by
    obtain ⟨hfields, hobject⟩ := hv
    rw [ReadableFields] at hfields
    rw [weight, fieldsWeight] at hfuel
    have hparsed := parseFields_chars double indent k v hfields.1 fields hfields.2 depth fuel
      [] rest (by simp) (by rw [fieldsWeight]; omega)
    obtain ⟨body, hbody, -⟩ := parseChars_jsonQuote k (colon indent ++ v.chars indent (depth + 1)
      ++ afterItem '\x7d' indent depth (fieldChars indent (depth + 1) fields) ++ rest)
    have hskip : skipSpace (lineBreak indent (depth + 1) ++ ((jsonQuote k).toList ++ colon indent
        ++ v.chars indent (depth + 1))
        ++ afterItem '\x7d' indent depth (fieldChars indent (depth + 1) fields) ++ rest)
        = '"' :: body := by
      simp only [List.append_assoc] at hbody ⊢
      rw [hbody]
      exact skipSpace_append (fun c hc ↦ isSpace_of_mem_lineBreak hc)
        (by rintro c hc; cases hc; rfl)
    simp only [List.nil_append, List.append_assoc] at hparsed hbody
    rw [hbody] at hparsed
    rw [List.append_assoc, JsValue.chars, fieldChars_cons indent (depth + 1) k hfields.1,
      enclosed_cons, parseValue, skipSpace_append hspace (by rintro c hc; cases hc; rfl)]
    simp only [List.cons_append, hskip]
    split
    · rename_i heq
      exact absurd (List.cons.inj heq).1 (by decide)
    · rw [hparsed, Option.map_some, hobject]

theorem parseItems_chars (double : String → String) (indent : ℕ) : ∀ (v : JsValue),
    v.Readable double → ∀ (items : List JsValue), ReadableItems double items →
    ∀ (depth fuel : ℕ) (space rest : List Char), (∀ c ∈ space, isSpace c = true) →
      itemsWeight (v :: items) ≤ fuel →
      parseItems double fuel (space ++ v.chars indent (depth + 1)
        ++ afterItem ']' indent depth (itemChars indent (depth + 1) items) ++ rest)
        = some (v :: items, rest)
  | v, hv, items, hitems, depth, 0, space, rest, hspace, hfuel => by
    rw [itemsWeight] at hfuel
    omega
  | v, hv, [], hitems, depth, fuel + 1, space, rest, hspace, hfuel => by
    rw [itemsWeight, itemsWeight] at hfuel
    have hvalue := parseValue_chars double indent v hv (depth + 1) fuel space
      (afterItem ']' indent depth (itemChars indent (depth + 1) []) ++ rest) hspace
      (stopsNumber_afterItem isMark_bracket.1 _ _ _ _) (by omega)
    rw [List.append_assoc, parseItems, hvalue]
    simp only [Option.bind_eq_bind, Option.bind_some, itemChars,
      skipSpace_afterItem isMark_bracket.1]
  | v, hv, w :: items, hitems, depth, fuel + 1, space, rest, hspace, hfuel => by
    rw [ReadableItems] at hitems
    rw [itemsWeight] at hfuel
    have hvalue := parseValue_chars double indent v hv (depth + 1) fuel space
      (afterItem ']' indent depth (itemChars indent (depth + 1) (w :: items)) ++ rest) hspace
      (stopsNumber_afterItem isMark_bracket.1 _ _ _ _) (by omega)
    have hnext := parseItems_chars double indent w hitems.1 items hitems.2 depth fuel
      (lineBreak indent (depth + 1)) rest (fun c hc ↦ isSpace_of_mem_lineBreak hc) (by omega)
    rw [List.append_assoc, parseItems, hvalue]
    simp only [Option.bind_eq_bind, Option.bind_some, itemChars, afterItem_cons, List.cons_append,
      skipSpace_cons (show isSpace ',' = false from rfl)]
    rw [hnext]
    rfl

theorem parseFields_chars (double : String → String) (indent : ℕ) :
    ∀ (k : String) (v : JsValue), v.Readable double → ∀ (fields : List (String × JsValue)),
    ReadableFields double fields → ∀ (depth fuel : ℕ) (space rest : List Char),
      (∀ c ∈ space, isSpace c = true) → fieldsWeight ((k, v) :: fields) ≤ fuel →
      parseFields double fuel (space ++ (jsonQuote k).toList ++ colon indent
        ++ v.chars indent (depth + 1)
        ++ afterItem '\x7d' indent depth (fieldChars indent (depth + 1) fields) ++ rest)
        = some ((k, v) :: fields, rest)
  | k, v, hv, fields, hfields, depth, 0, space, rest, hspace, hfuel => by
    rw [fieldsWeight] at hfuel
    omega
  | k, v, hv, [], hfields, depth, fuel + 1, space, rest, hspace, hfuel => by
    rw [fieldsWeight, fieldsWeight] at hfuel
    obtain ⟨blank, hcolon, hblank⟩ := colon_eq indent
    obtain ⟨body, hbody, hparse⟩ := parseChars_jsonQuote k
      (':' :: (blank ++ v.chars indent (depth + 1)
        ++ (afterItem '\x7d' indent depth (fieldChars indent (depth + 1) []) ++ rest)))
    have hvalue := parseValue_chars double indent v hv (depth + 1) fuel blank
      (afterItem '\x7d' indent depth (fieldChars indent (depth + 1) []) ++ rest) hblank
      (stopsNumber_afterItem isMark_bracket.2.1 _ _ _ _) (by omega)
    have hskip : skipSpace (space ++ (jsonQuote k).toList ++ colon indent
        ++ v.chars indent (depth + 1)
        ++ afterItem '\x7d' indent depth (fieldChars indent (depth + 1) []) ++ rest)
        = '"' :: body := by
      simp only [List.append_assoc, hcolon, List.cons_append] at hbody ⊢
      rw [hbody]
      exact skipSpace_append hspace (by rintro c hc; cases hc; rfl)
    rw [parseFields, hskip]
    simp only [hparse, Option.bind_eq_bind, Option.bind_some, hvalue, String.ofList_toList,
      skipSpace_cons (show isSpace ':' = false from rfl)]
    simp only [fieldChars, skipSpace_afterItem isMark_bracket.2.1]
  | k, v, hv, (l, w) :: fields, hfields, depth, fuel + 1, space, rest, hspace, hfuel => by
    rw [ReadableFields] at hfields
    rw [fieldsWeight] at hfuel
    obtain ⟨blank, hcolon, hblank⟩ := colon_eq indent
    obtain ⟨body, hbody, hparse⟩ := parseChars_jsonQuote k
      (':' :: (blank ++ v.chars indent (depth + 1)
        ++ (afterItem '\x7d' indent depth (fieldChars indent (depth + 1) ((l, w) :: fields)) ++ rest)))
    have hvalue := parseValue_chars double indent v hv (depth + 1) fuel blank
      (afterItem '\x7d' indent depth (fieldChars indent (depth + 1) ((l, w) :: fields)) ++ rest) hblank
      (stopsNumber_afterItem isMark_bracket.2.1 _ _ _ _) (by omega)
    have hnext := parseFields_chars double indent l w hfields.1 fields hfields.2 depth fuel
      (lineBreak indent (depth + 1)) rest (fun c hc ↦ isSpace_of_mem_lineBreak hc) (by omega)
    have hskip : skipSpace (space ++ (jsonQuote k).toList ++ colon indent
        ++ v.chars indent (depth + 1)
        ++ afterItem '\x7d' indent depth (fieldChars indent (depth + 1) ((l, w) :: fields)) ++ rest)
        = '"' :: body := by
      simp only [List.append_assoc, hcolon, List.cons_append] at hbody ⊢
      rw [hbody]
      exact skipSpace_append hspace (by rintro c hc; cases hc; rfl)
    rw [parseFields, hskip]
    simp only [hparse, Option.bind_eq_bind, Option.bind_some, hvalue, String.ofList_toList,
      skipSpace_cons (show isSpace ':' = false from rfl)]
    simp only [fieldChars_cons indent (depth + 1) l hfields.1, afterItem_cons, List.cons_append,
      skipSpace_cons (show isSpace ',' = false from rfl)]
    simp only [List.append_assoc] at hnext ⊢
    rw [hnext]
    rfl

end

theorem length_enclosed (opening closing : Char) (indent depth : ℕ) (pieces : List (List Char)) :
    1 + (pieces.map fun piece ↦ 1 + piece.length).sum
      ≤ (enclosed opening closing indent depth pieces).length := by
  rcases pieces with _ | ⟨piece, rest⟩
  · exact Nat.le_succ 1
  · have hrest : ∀ rest : List (List Char), (rest.map fun piece ↦ 1 + piece.length).sum
        ≤ (rest.flatMap fun next ↦ ',' :: lineBreak indent (depth + 1) ++ next).length := by
      intro rest
      induction rest with
      | nil => exact Nat.zero_le _
      | cons next rest ih =>
        rw [List.map_cons, List.sum_cons, List.flatMap_cons, List.length_append, List.length_append,
          List.length_cons]
        omega
    have h := hrest rest
    rw [enclosed, List.map_cons, List.sum_cons]
    simp only [List.length_append, List.length_cons, List.length_nil]
    omega

mutual

theorem weight_le_length {double : String → String} (indent : ℕ) : ∀ (v : JsValue),
    v.Readable double → ∀ depth : ℕ, v.weight ≤ (v.chars indent depth).length
  | .undefined, hv, _ => absurd hv id
  | .null, _, _ => Nat.le_add_left 1 3
  | .bool true, _, _ => Nat.le_add_left 1 3
  | .bool false, _, _ => Nat.le_add_left 1 4
  | .num t, hv, depth => by
    obtain ⟨hread, hnumber⟩ := hv
    obtain ⟨c, cs, hcs, -⟩ := exists_cons_of_readNumber hread hnumber
    rw [JsValue.chars, numberText_of_forall hnumber, hcs]
    exact Nat.le_add_left 1 cs.length
  | .str s, _, _ => by
    rw [JsValue.chars, toList_jsonQuote, List.cons_append]
    exact Nat.le_add_left 1 _
  | .arr items, hv, depth => by
    rw [JsValue.chars, weight]
    exact le_trans (Nat.add_le_add_left (itemsWeight_le_length indent items hv (depth + 1)) 1)
      (length_enclosed _ _ _ _ _)
  | .obj fields, hv, depth => by
    rw [JsValue.chars, weight]
    exact le_trans (Nat.add_le_add_left (fieldsWeight_le_length indent fields hv.1 (depth + 1)) 1)
      (length_enclosed _ _ _ _ _)

theorem itemsWeight_le_length {double : String → String} (indent : ℕ) :
    ∀ (items : List JsValue), ReadableItems double items → ∀ depth : ℕ, itemsWeight items
      ≤ ((itemChars indent depth items).map fun piece ↦ 1 + piece.length).sum
  | [], _, _ => Nat.zero_le _
  | v :: items, hitems, depth => by
    have hv := weight_le_length indent v hitems.1 depth
    have hrest := itemsWeight_le_length indent items hitems.2 depth
    rw [itemsWeight, itemChars, List.map_cons, List.sum_cons]
    omega

theorem fieldsWeight_le_length {double : String → String} (indent : ℕ) :
    ∀ (fields : List (String × JsValue)), ReadableFields double fields → ∀ depth : ℕ, fieldsWeight fields
      ≤ ((fieldChars indent depth fields).map fun piece ↦ 1 + piece.length).sum
  | [], _, _ => Nat.zero_le _
  | (k, v) :: fields, hfields, depth => by
    have hv := weight_le_length indent v hfields.1 depth
    have hrest := fieldsWeight_le_length indent fields hfields.2 depth
    rw [fieldsWeight, fieldChars_cons indent depth k hfields.1, List.map_cons, List.sum_cons,
      List.length_append]
    omega

end

/-- **The text of a value reads back as the value**, with any white space behind it. -/
theorem parse_of_readable {double : String → String} (indent : ℕ) {v : JsValue}
    (hv : v.Readable double) {space : List Char} (hspace : ∀ c ∈ space, isSpace c = true) :
    parse double (String.ofList (v.chars indent 0 ++ space)) = some v := by
  have hstops : StopsNumber space := by
    intro c hc
    by_contra hnumber
    have hnot := isSpace_of_isNumberChar (Bool.eq_true_of_not_eq_false hnumber)
    rw [hspace c (List.mem_of_mem_head? hc)] at hnot
    exact Bool.noConfusion hnot
  have hweight := weight_le_length indent v hv 0
  have hvalue := parseValue_chars double indent v hv 0
    ((v.chars indent 0 ++ space).length + 1) [] space (by simp) hstops
    (by rw [List.length_append]; omega)
  rw [List.nil_append] at hvalue
  rw [parse, String.toList_ofList, hvalue]
  have hskip : skipSpace space = [] := List.dropWhile_eq_nil_iff.mpr hspace
  simp only [hskip, if_true]

theorem objectOf_plain {fields : List (String × JsValue)} (hplain : PlainFields fields)
    (hnodup : (fields.map Prod.fst).Nodup) : objectOf fields = .obj fields := by
  have hindex : ∀ p ∈ fields, indexKey p.1 = none := by
    clear hnodup
    induction fields with
    | nil => simp
    | cons p rest ih =>
      rw [PlainFields] at hplain
      exact List.forall_mem_cons.mpr ⟨hplain.1, ih hplain.2.2⟩
  have hentries : (OrderedMap.ofList fields).entries = fields :=
    OrderedMap.entries_ofList hnodup
  have hindexed : (fields.filterMap fun p ↦ (indexKey p.1).map fun n ↦ (n, p)) = [] := by
    rw [List.filterMap_eq_nil_iff]
    intro p hp
    rw [hindex p hp]
    rfl
  have hothers : (fields.filter fun p ↦ (indexKey p.1).isNone) = fields := by
    rw [List.filter_eq_self]
    intro p hp
    rw [hindex p hp]
    rfl
  simp only [objectOf, hentries, hindexed, hothers]
  rfl

mutual

theorem readable_of_plain (double : String → String) : ∀ v : JsValue, v.Plain → v.Readable double
  | .undefined, hv => hv
  | .null, hv => hv
  | .bool _, hv => hv
  | .num _, hv => by
    obtain ⟨n, rfl, hn⟩ := hv
    exact ⟨readNumber_toString double hn, fun _ ↦ isNumberChar_of_mem_toString⟩
  | .str _, hv => hv
  | .arr items, hv => readableItems_of_plain double items hv
  | .obj fields, hv => ⟨readableFields_of_plain double fields hv.1, objectOf_plain hv.1 hv.2⟩

theorem readableItems_of_plain (double : String → String) : ∀ items : List JsValue,
    PlainItems items → ReadableItems double items
  | [], h => h
  | v :: rest, h => ⟨readable_of_plain double v h.1, readableItems_of_plain double rest h.2⟩

theorem readableFields_of_plain (double : String → String) : ∀ fields : List (String × JsValue),
    PlainFields fields → ReadableFields double fields
  | [], h => h
  | (_, v) :: rest, h =>
    ⟨readable_of_plain double v h.2.1, readableFields_of_plain double rest h.2.2⟩

end

/-- **What `JSON.stringify` writes, `JSON.parse` reads back.** -/
theorem parse_stringify (double : String → String) {v : JsValue} (hv : v.Plain) (indent : ℕ) :
    parse double (v.stringify indent) = some v := by
  have h := @parse_of_readable double indent v (readable_of_plain double v hv) [] (by simp)
  rw [List.append_nil] at h
  exact h

end JsonText

/-! ## Reading back the canonical form -/

namespace JsValue

theorem plainItems_iff {items : List JsValue} : PlainItems items ↔ ∀ v ∈ items, v.Plain := by
  induction items with
  | nil => simp [PlainItems]
  | cons v rest ih => rw [PlainItems, List.forall_mem_cons, ih]

theorem plainFields_iff {fields : List (String × JsValue)} :
    PlainFields fields ↔ ∀ p ∈ fields, indexKey p.1 = none ∧ p.2.Plain := by
  induction fields with
  | nil => simp [PlainFields]
  | cons p rest ih => rw [PlainFields, List.forall_mem_cons, ih, and_assoc]

theorem readableFields_iff {double : String → String} {fields : List (String × JsValue)} :
    ReadableFields double fields ↔ ∀ p ∈ fields, p.2.Readable double := by
  induction fields with
  | nil => simp [ReadableFields]
  | cons p rest ih => rw [ReadableFields, List.forall_mem_cons, ih]

end JsValue

end UkAqOps

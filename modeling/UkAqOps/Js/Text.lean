import Mathlib.Algebra.GroupWithZero.Nat
import Mathlib.Data.Bool.AllAny
import Mathlib.Data.List.Lex
import Mathlib.Data.List.DropRight
import Mathlib.Data.List.Infix
import Mathlib.Order.Defs.LinearOrder

/-!
# Text

The string operations of JavaScript that the repository relies on. A string is a sequence of
Unicode scalar values, so lone surrogates are outside the model; everything runs on the character
list of the string, which keeps the definitions executable.

The order of keys is the order of their UTF-8 bytes (`Buffer.compare`), which is a linear order on
strings because encoding is injective.
-/

namespace UkAqOps

instance lawfulBEq_chars : LawfulBEq (List Char) := inferInstance

/-! ## Trimming and searching -/

/-- White space and line terminators as `String.prototype.trim` removes them. -/
def isJsWhitespace (c : Char) : Bool :=
  c.val ∈ [0x9, 0xA, 0xB, 0xC, 0xD, 0x20, 0xA0, 0x1680, 0x2000, 0x2001, 0x2002, 0x2003, 0x2004,
    0x2005, 0x2006, 0x2007, 0x2008, 0x2009, 0x200A, 0x2028, 0x2029, 0x202F, 0x205F, 0x3000, 0xFEFF]

/-- `text.trim()`. -/
def trimText (s : String) : String :=
  String.ofList ((s.toList.dropWhile isJsWhitespace).rdropWhile isJsWhitespace)

/-- `text.replace(/^\/+/, "")`. -/
def stripLeadingSlashes (s : String) : String :=
  String.ofList (s.toList.dropWhile (· = '/'))

/-- `text.replace(/^\/+|\/+$/g, "")`. -/
def stripSlashes (s : String) : String :=
  String.ofList ((s.toList.dropWhile (· = '/')).rdropWhile (· = '/'))

/-- `text.includes(part)`. -/
def includesText (s part : String) : Bool := decide (part.toList <:+: s.toList)

/-- `text.startsWith(part)`. -/
def startsWithText (s part : String) : Bool := decide (part.toList <+: s.toList)

/-- `text.endsWith(part)`. -/
def endsWithText (s part : String) : Bool := decide (part.toList <:+ s.toList)

/-- `text.slice(0, n)`. -/
def takeText (s : String) (n : ℕ) : String := String.ofList (s.toList.take n)

/-- `text.padStart(n, "0")`. -/
def padZeros (s : String) (n : ℕ) : String :=
  String.ofList (List.replicate (n - s.toList.length) '0' ++ s.toList)

/-- `text.length`: the number of UTF-16 code units. -/
def utf16Length (s : String) : ℕ := (s.toList.map fun c ↦ if 0x10000 ≤ c.val then 2 else 1).sum

/-- The pieces of a character list between the characters that satisfy `p`. -/
def splitChars (p : Char → Bool) : List Char → List (List Char)
  | [] => [[]]
  | c :: cs =>
    if p c then [] :: splitChars p cs
    else match splitChars p cs with
      | [] => [[c]]
      | piece :: pieces => (c :: piece) :: pieces

/-- `text.split(separator)` for a separator of one character. -/
def splitText (s : String) (separator : Char) : List String :=
  (splitChars (· = separator) s.toList).map String.ofList

/-- `text.split(/\s+/)` for a trimmed text: blank text has one empty piece. -/
def splitWhitespace (s : String) : List String :=
  let pieces := (splitChars isJsWhitespace s.toList).filter (· ≠ [])
  if pieces = [] then [""] else pieces.map String.ofList

/-- The escape of a character inside a JSON string. -/
def jsonEscape (c : Char) : String :=
  if c = '"' then "\\\""
  else if c = '\\' then "\\\\"
  else if c.val = 0x8 then "\\b"
  else if c.val = 0x9 then "\\t"
  else if c.val = 0xA then "\\n"
  else if c.val = 0xC then "\\f"
  else if c.val = 0xD then "\\r"
  else if c.val < 0x20 then "\\u" ++ padZeros (String.ofList (Nat.toDigits 16 c.toNat)) 4
  else String.ofList [c]

/-- `JSON.stringify(text)`. -/
def jsonQuote (s : String) : String :=
  "\"" ++ String.join (s.toList.map jsonEscape) ++ "\""

example : jsonQuote "a\"b\n" = "\"a\\\"b\\n\"" := by decide

/-! ## Letters -/

theorem isUpper_eq (c : Char) : c.isUpper = decide (c.val ≥ 'A'.val ∧ c.val ≤ 'Z'.val) := rfl

theorem isLower_eq (c : Char) :
    c.isLower = (decide (c.val ≥ 'a'.val) && decide (c.val ≤ 'z'.val)) := rfl

theorem isAlpha_eq (c : Char) : c.isAlpha = (c.isUpper || c.isLower) := rfl

theorem toUpper_of_not_isLower {c : Char} (h : ¬c.isLower = true) : c.toUpper = c :=
  dif_neg (by simpa [isLower_eq] using h)

/-! ## Text that trimming leaves alone -/

theorem isJsWhitespace_of_isDigit {c : Char} (h : c.isDigit = true) : isJsWhitespace c = false := by
  rw [Char.isDigit, Bool.and_eq_true, decide_eq_true_eq, decide_eq_true_eq] at h
  rw [isJsWhitespace, decide_eq_false_iff_not]
  intro hmem
  have hspaces : ∀ v ∈ ([0x9, 0xA, 0xB, 0xC, 0xD, 0x20, 0xA0, 0x1680, 0x2000, 0x2001, 0x2002, 0x2003,
      0x2004, 0x2005, 0x2006, 0x2007, 0x2008, 0x2009, 0x200A, 0x2028, 0x2029, 0x202F, 0x205F, 0x3000,
      0xFEFF] : List UInt32), ¬(v ≥ 48 ∧ v ≤ 57) := List.all_iff_forall_prop.mp (by decide)
  exact hspaces _ hmem h

theorem trimText_eq_self {s : String} (hhead : ∀ c ∈ s.toList.head?, isJsWhitespace c = false)
    (hlast : ∀ c ∈ s.toList.getLast?, isJsWhitespace c = false) : trimText s = s := by
  have hdrop : s.toList.dropWhile isJsWhitespace = s.toList := by
    rw [List.dropWhile_eq_self_iff]
    intro hlen hspace
    have hc := hhead _ (List.head?_eq_getElem? (l := s.toList) ▸ List.getElem?_eq_getElem hlen)
    rw [hc] at hspace
    exact absurd hspace (by decide)
  have hrdrop : s.toList.rdropWhile isJsWhitespace = s.toList := by
    rw [List.rdropWhile_eq_self_iff]
    intro hne hspace
    rw [hlast _ (List.getLast?_eq_some_getLast hne)] at hspace
    exact absurd hspace (by decide)
  rw [trimText, hdrop, hrdrop, String.ofList_toList]

theorem trimText_of_forall {s : String} (h : ∀ c ∈ s.toList, isJsWhitespace c = false) :
    trimText s = s :=
  trimText_eq_self (fun c hc ↦ h c (List.mem_of_mem_head? hc))
    (fun c hc ↦ h c (List.mem_of_mem_getLast? hc))

@[simp] theorem trimText_trimText (s : String) : trimText (trimText s) = trimText s := by
  refine trimText_eq_self (fun c hc ↦ ?_) fun c hc ↦ ?_
  · rw [trimText, String.toList_ofList] at hc
    obtain ⟨rest, hrest⟩ := List.rdropWhile_prefix isJsWhitespace (s.toList.dropWhile isJsWhitespace)
    have hhead := List.head?_dropWhile_not isJsWhitespace s.toList
    rw [← hrest, List.head?_append, Option.mem_def.mp hc] at hhead
    exact hhead
  · rw [trimText, String.toList_ofList, Option.mem_def, List.getLast?_eq_some_iff] at hc
    obtain ⟨init, hinit⟩ := hc
    have hne : (s.toList.dropWhile isJsWhitespace).rdropWhile isJsWhitespace ≠ [] := by simp [hinit]
    have hlast := List.rdropWhile_last_not isJsWhitespace _ hne
    rw [List.getLast_congr hne (by simp) hinit, List.getLast_append_singleton] at hlast
    rwa [Bool.not_eq_true] at hlast

/-! ## The byte order of strings -/

/-- The UTF-8 bytes of a string. -/
def utf8 (s : String) : List ℕ := s.toByteArray.data.toList.map UInt8.toNat

theorem utf8_injective : Function.Injective utf8 := by
  intro a b h
  have hbytes := List.map_injective_iff.mpr (fun x y ↦ UInt8.toNat_inj.mp) h
  exact String.toByteArray_inj.mp (ByteArray.ext (Array.toList_inj.mp hbytes))

theorem utf8_append (a b : String) : utf8 (a ++ b) = utf8 a ++ utf8 b := by
  rw [utf8, utf8, utf8, String.toByteArray_append, ByteArray.data_append, Array.toList_append,
    List.map_append]

/-- `bytewiseCompare(left, right) <= 0`. -/
def bytewiseLe (a b : String) : Bool := decide (utf8 a ≤ utf8 b)

/-- `bytewiseCompare(left, right) < 0`. -/
def bytewiseLt (a b : String) : Bool := decide (utf8 a < utf8 b)

end UkAqOps

import UkAqOps.Js.Text

/-!
# Untyped values

The values that reach the repository's code from a JSON column or an RPC result. A number is
represented by the text that `String(number)` gives, which is all that the code reading these
values ever looks at.
-/

namespace UkAqOps

/-- A JSON value, or the `undefined` that reading an absent property gives. -/
inductive JsValue where
  | undefined
  | null
  | bool (b : Bool)
  | num (text : String)
  | str (s : String)
  | arr (items : List JsValue)
  | obj (fields : List (String × JsValue))

namespace JsValue

mutual

/-- `String(value)`. -/
def text : JsValue → String
  | undefined => "undefined"
  | null => "null"
  | bool b => if b then "true" else "false"
  | num t => t
  | str s => s
  | arr items => ",".intercalate (itemTexts items)
  | obj _ => "[object Object]"

/-- The texts that `Array.prototype.join` puts together: `null` and `undefined` are empty. -/
def itemTexts : List JsValue → List String
  | [] => []
  | undefined :: rest => "" :: itemTexts rest
  | null :: rest => "" :: itemTexts rest
  | v :: rest => text v :: itemTexts rest

end

/-- `value.name`: reading a property of `null` or `undefined` is a `TypeError`, an absent property
and a property of a primitive are `undefined`. -/
def property (v : JsValue) (name : String) : Except String JsValue :=
  match v with
  | undefined => .error s!"Cannot read properties of undefined (reading '{name}')"
  | null => .error s!"Cannot read properties of null (reading '{name}')"
  | obj fields => .ok (((fields.find? fun p ↦ p.1 = name).map Prod.snd).getD undefined)
  | _ => .ok undefined

end JsValue

/-! ## Numbers and hashes -/

/-- `Number.MAX_SAFE_INTEGER`. -/
def maxSafeInteger : ℤ := 9007199254740991

/-- `Number.isSafeInteger(value) && value > 0`. -/
def isPositiveSafeInteger (value : ℤ) : Bool := 0 < value && value ≤ maxSafeInteger

/-- `/^[0-9a-f]{64}$/`. -/
def isSha256Hex (text : String) : Bool :=
  text.toList.length = 64 && text.toList.all fun c ↦ c.isDigit || ('a' ≤ c && c ≤ 'f')

theorem trimText_of_isSha256Hex {text : String} (h : isSha256Hex text) : trimText text = text := by
  rw [isSha256Hex, Bool.and_eq_true, List.all_eq_true] at h
  refine trimText_of_forall fun c hc ↦ ?_
  have hhex := h.2 c hc
  rw [isJsWhitespace, decide_eq_false_iff_not]
  intro hspace
  have hval : ∀ v ∈ ([0x9, 0xA, 0xB, 0xC, 0xD, 0x20, 0xA0, 0x1680, 0x2000, 0x2001, 0x2002, 0x2003,
      0x2004, 0x2005, 0x2006, 0x2007, 0x2008, 0x2009, 0x200A, 0x2028, 0x2029, 0x202F, 0x205F,
      0x3000, 0xFEFF] : List UInt32), ¬((48 ≤ v ∧ v ≤ 57) ∨ (97 ≤ v ∧ v ≤ 102)) :=
    List.all_iff_forall_prop.mp (by decide)
  refine hval c.val hspace ?_
  rw [Bool.or_eq_true, Bool.and_eq_true, decide_eq_true_iff, decide_eq_true_iff, Char.isDigit,
    Bool.and_eq_true, decide_eq_true_iff, decide_eq_true_iff] at hhex
  exact hhex

/-! ## `BigInt(text)` -/

/-- The value of a digit character in a base up to 16. -/
def digitValue (c : Char) : Option ℕ :=
  if '0' ≤ c ∧ c ≤ '9' then some (c.toNat - '0'.toNat)
  else if 'a' ≤ c ∧ c ≤ 'f' then some (c.toNat - 'a'.toNat + 10)
  else if 'A' ≤ c ∧ c ≤ 'F' then some (c.toNat - 'A'.toNat + 10)
  else none

/-- A non-empty run of digits in the given base. -/
def parseDigits (base : ℕ) (cs : List Char) : Option ℕ :=
  if cs = [] then none
  else cs.foldl (fun acc c ↦ do
    let n ← acc
    let d ← digitValue c
    if d < base then some (n * base + d) else none) (some 0)

/-- `BigInt(text)`: blank text is zero, a sign is allowed in decimal only. -/
def parseBigInt (s : String) : Option ℤ :=
  match (trimText s).toList with
  | [] => some 0
  | '0' :: 'x' :: cs => (parseDigits 16 cs).map Int.ofNat
  | '0' :: 'X' :: cs => (parseDigits 16 cs).map Int.ofNat
  | '0' :: 'o' :: cs => (parseDigits 8 cs).map Int.ofNat
  | '0' :: 'O' :: cs => (parseDigits 8 cs).map Int.ofNat
  | '0' :: 'b' :: cs => (parseDigits 2 cs).map Int.ofNat
  | '0' :: 'B' :: cs => (parseDigits 2 cs).map Int.ofNat
  | '-' :: cs => (parseDigits 10 cs).map fun n ↦ -Int.ofNat n
  | '+' :: cs => (parseDigits 10 cs).map Int.ofNat
  | cs => (parseDigits 10 cs).map Int.ofNat

example : parseBigInt " -042 " = some (-42) := by decide

end UkAqOps

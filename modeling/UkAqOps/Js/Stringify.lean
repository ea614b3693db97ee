import UkAqOps.Js.Json

/-!
# Reading and writing untyped values

What the code does with a value that `JSON.parse` gave: it reads properties that may be absent,
falls back to a default where a value is falsy or missing, and writes values as text again, compactly
with `JSON.stringify` or in the canonical form of the index.

The fields of an object stand in the order in which JavaScript enumerates them.
-/

namespace UkAqOps

namespace JsValue

/-! ## Reading -/

/-- `Boolean(value)`. -/
def truthy : JsValue → Bool
  | undefined => false
  | null => false
  | bool b => b
  | num t => t ≠ "0" && t ≠ "NaN"
  | str s => s ≠ ""
  | arr _ => true
  | obj _ => true

/-- `value || ""`, as text. -/
def textOr (v : JsValue) (fallback : String) : String := if v.truthy then v.text else fallback

/-- `String(value || "")`. -/
def orBlank (v : JsValue) : String := v.textOr ""

/-- `String(value ?? "")`. -/
def textOrEmpty : JsValue → String
  | undefined => ""
  | null => ""
  | v => v.text

/-- `value?.name`. -/
def optional (v : JsValue) (name : String) : JsValue :=
  match v with
  | obj fields => ((fields.find? fun p ↦ p.1 = name).map Prod.snd).getD undefined
  | _ => undefined

/-- `Array.isArray(value) ? value : null`. -/
def items? : JsValue → Option (List JsValue)
  | arr items => some items
  | _ => none

/-- `value === undefined`. -/
def isUndefined : JsValue → Bool
  | undefined => true
  | _ => false

/-- `value === text`. -/
def isText (v : JsValue) (text : String) : Bool :=
  match v with
  | str s => s = text
  | _ => false

/-- `value === n`. -/
def isInt (v : JsValue) (n : ℤ) : Bool :=
  match v with
  | num t => t = toString n
  | _ => false

def int (n : ℤ) : JsValue := num (toString n)

/-- `typeof value === "string" && value.trim() === ""`. -/
def isBlankText : JsValue → Bool
  | str s => trimText s = ""
  | _ => false

/-- The value is an object and no array. -/
def isObject : JsValue → Bool
  | obj _ => true
  | _ => false

/-- `left === right`, on values that were parsed apart: two objects are never the same one. -/
def strictEq : JsValue → JsValue → Bool
  | undefined, undefined => true
  | null, null => true
  | bool a, bool b => a = b
  | num a, num b => a = b && a ≠ "NaN"
  | str a, str b => a = b
  | _, _ => false

/-! ## `JSON.stringify` -/

/-- A number that is not finite is written as `null`. -/
def numberText (t : String) : String :=
  if t = "NaN" ∨ t = "Infinity" ∨ t = "-Infinity" then "null" else t

/-- The line break before an item at a depth; without indentation there is none. -/
def lineBreak (indent depth : ℕ) : List Char :=
  if indent = 0 then [] else '\n' :: List.replicate (indent * depth) ' '

/-- The items of an array or of an object between its brackets. -/
def enclosed (opening closing : Char) (indent depth : ℕ) (pieces : List (List Char)) : List Char :=
  match pieces with
  | [] => [opening, closing]
  | piece :: rest =>
    opening :: lineBreak indent (depth + 1) ++ piece
      ++ rest.flatMap (fun next ↦ ',' :: lineBreak indent (depth + 1) ++ next)
      ++ lineBreak indent depth ++ [closing]

/-- A colon, followed by a space where there is indentation. -/
def colon (indent : ℕ) : List Char := if indent = 0 then [':'] else [':', ' ']

mutual

/-- The characters of `JSON.stringify(value, null, indent)` at a depth, where a missing item of an
array is `null`. -/
def chars (indent depth : ℕ) : JsValue → List Char
  | undefined => "null".toList
  | null => "null".toList
  | bool b => if b then "true".toList else "false".toList
  | num t => (numberText t).toList
  | str s => (jsonQuote s).toList
  | arr items => enclosed '[' ']' indent depth (itemChars indent (depth + 1) items)
  | obj fields => enclosed '\x7b' '\x7d' indent depth (fieldChars indent (depth + 1) fields)

def itemChars (indent depth : ℕ) : List JsValue → List (List Char)
  | [] => []
  | v :: rest => chars indent depth v :: itemChars indent depth rest

/-- A field without a value is left out. -/
def fieldChars (indent depth : ℕ) : List (String × JsValue) → List (List Char)
  | [] => []
  | (_, undefined) :: rest => fieldChars indent depth rest
  | (k, v) :: rest =>
    ((jsonQuote k).toList ++ colon indent ++ chars indent depth v) :: fieldChars indent depth rest

end

/-- `JSON.stringify(value, null, indent)`. -/
def stringify (v : JsValue) (indent : ℕ := 0) : String := String.ofList (v.chars indent 0)

/-! ## The canonical form of the index -/

mutual

/-- `canonicalizeJsonValue(value)`. -/
def canonicalize : JsValue → JsValue
  | arr items => arr (canonicalizeItems items)
  | obj fields => obj (canonicalOrder (canonicalizeFields fields))
  | v => v

def canonicalizeItems : List JsValue → List JsValue
  | [] => []
  | v :: rest => canonicalize v :: canonicalizeItems rest

def canonicalizeFields : List (String × JsValue) → List (String × JsValue)
  | [] => []
  | (_, undefined) :: rest => canonicalizeFields rest
  | (k, v) :: rest => (k, canonicalize v) :: canonicalizeFields rest

end

/-- `encodeObservationHistoryIndexV3Json(value)`. -/
def canonicalJson (v : JsValue) : String := String.ofList (v.canonicalize.chars 2 0 ++ ['\n'])

example : (obj [("b", arr [int 1, undefined]), ("a", undefined), ("c", str "x")]).stringify
    = "\x7b\"b\":[1,null],\"c\":\"x\"\x7d" := by decide +kernel

end JsValue

end UkAqOps

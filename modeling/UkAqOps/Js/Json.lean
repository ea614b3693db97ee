import UkAqOps.Js.Value
import UkAqOps.Lib.Sort

/-!
# Canonical JSON

The text that `encodeObservationHistoryIndexV3Json` gives a payload: two spaces of indentation,
object keys in the order of their UTF-8 bytes, except that array-index keys come first in numeric
order, as they do in every JavaScript object. `canonicalObservationHistoryIndexV3JsonChunks` yields
the same text in pieces.
-/

namespace UkAqOps

/-! ## The byte order as a comparator -/

/-- `bytewiseCompare(left, right)`. -/
def bytewiseCompare (left right : String) : Ordering := compare (utf8 left) (utf8 right)

instance : Std.TransCmp bytewiseCompare :=
  Sorting.transCmp_on (inferInstanceAs (Std.TransCmp (compare : List ℕ → List ℕ → Ordering))) utf8

theorem bytewiseCompare_eq_iff {left right : String} :
    bytewiseCompare left right = .eq ↔ left = right := by
  constructor
  · intro h
    exact utf8_injective (Std.LawfulEqCmp.eq_of_compare h)
  · rintro rfl
    exact Std.ReflCmp.compare_self

/-- The comparator of records by a key of theirs. -/
instance {α : Type*} (key : α → String) :
    Std.TransCmp fun a b ↦ bytewiseCompare (key a) (key b) :=
  Sorting.transCmp_on inferInstance key

/-- Records with different keys have one sorted order. -/
theorem sortBy_eq_of_perm {α : Type*} {key : α → String} {l l' : List α} (h : l.Perm l')
    (hkeys : (l.map key).Nodup) :
    Sorting.sortBy (fun a b ↦ bytewiseCompare (key a) (key b)) l
      = Sorting.sortBy (fun a b ↦ bytewiseCompare (key a) (key b)) l' := by
  have hne : ∀ {l : List α}, (l.map key).Nodup →
      l.Pairwise fun a b ↦ bytewiseCompare (key a) (key b) ≠ .eq := fun hnodup ↦
    (List.pairwise_map.mp hnodup).imp fun hab heq ↦ hab (bytewiseCompare_eq_iff.mp heq)
  refine Sorting.sortBy_eq_of_mem_iff (hne hkeys)
    (Sorting.pairwise_lt_sortBy (hne ((h.map key).nodup_iff.mp hkeys))) fun a ↦ ?_
  rw [Sorting.mem_sortBy]
  exact h.mem_iff

/-! ## The text of a value -/

/-- A JSON document. Numbers are the integers that a payload holds. -/
inductive Json where
  | null
  | bool (b : Bool)
  | int (n : ℤ)
  | str (s : String)
  | arr (items : List Json)
  | obj (fields : List (String × Json))

/-- The number that an array-index key stands for. -/
def indexKey (key : String) : Option ℕ :=
  match parseDigits 10 key.toList with
  | none => none
  | some n => if n < 4294967295 ∧ toString n = key then some n else none

/-- `canonicalJsonKeys`, applied to what is written under the keys. -/
def canonicalOrder {α : Type} (fields : List (String × α)) : List (String × α) :=
  let sorted := Sorting.sortBy (fun a b ↦ bytewiseCompare a.1 b.1) fields
  let indexed := sorted.filterMap fun p ↦ (indexKey p.1).map fun n ↦ (n, p)
  (Sorting.sortBy (fun a b ↦ compare a.1 b.1) indexed).map Prod.snd
    ++ sorted.filter fun p ↦ (indexKey p.1).isNone

/-- `"  ".repeat(depth)`. -/
def indentation (depth : ℕ) : String := String.ofList (List.replicate (2 * depth) ' ')

/-- The lines of an array or of an object between its brackets. -/
def bracketed (opening closing : String) (depth : ℕ) (lines : List String) : String :=
  if lines = [] then opening ++ closing
  else opening ++ "\n" ++ ",\n".intercalate (lines.map (indentation (depth + 1) ++ ·)) ++ "\n"
    ++ indentation depth ++ closing

namespace Json

mutual

/-- The text of a value at a depth. -/
def text (depth : ℕ) : Json → String
  | null => "null"
  | bool b => if b then "true" else "false"
  | int n => toString n
  | str s => jsonQuote s
  | arr items => bracketed "[" "]" depth (itemTexts (depth + 1) items)
  | obj fields => bracketed "\x7b" "\x7d" depth
      ((canonicalOrder (fieldTexts (depth + 1) fields)).map fun p ↦ jsonQuote p.1 ++ ": " ++ p.2)

def itemTexts (depth : ℕ) : List Json → List String
  | [] => []
  | v :: rest => text depth v :: itemTexts depth rest

def fieldTexts (depth : ℕ) : List (String × Json) → List (String × String)
  | [] => []
  | (k, v) :: rest => (k, text depth v) :: fieldTexts depth rest

end

end Json

/-- `encodeObservationHistoryIndexV3Json(payload)`. -/
def encodeObservationHistoryIndexV3Json (payload : Json) : String := payload.text 0 ++ "\n"

example : encodeObservationHistoryIndexV3Json (.obj [("b", .arr [.int 1, .null]), ("a", .obj [])])
    = "\x7b\n  \"a\": \x7b\x7d,\n  \"b\": [\n    1,\n    null\n  ]\n\x7d\n" := by decide +kernel

end UkAqOps

import UkAqOps.Js.Json
import Mathlib.Tactic.Common

/-!
# Canonical JSON in chunks

`canonicalObservationHistoryIndexV3JsonChunks` of
`src/workers/shared/uk_aq_observation_history_index_v3.mjs` writes a plain value piece by piece, with a
stack of its own in place of recursion and long strings cut into chunks. Put together, the pieces are
the text of `encodeObservationHistoryIndexV3Json`. Strings are given by their UTF-16 code units, so
that a surrogate may also stand alone.
-/

namespace UkAqOps.JsonChunks

/-! ## Strings of code units -/

/-- A string by its UTF-16 code units. -/
abbrev Units := List ℕ

def ascii (text : String) : Units := text.toList.map Char.toNat

def isHigh (u : ℕ) : Bool := 0xD800 ≤ u && u ≤ 0xDBFF

def isLow (u : ℕ) : Bool := 0xDC00 ≤ u && u ≤ 0xDFFF

/-- The code points of a string, as they are encoded: a surrogate that stands alone is replaced. -/
def scalarText : Units → List Char
  | [] => []
  | [u] => [alone u]
  | u :: v :: rest =>
    if isHigh u && isLow v then
      Char.ofNat (0x10000 + (u - 0xD800) * 0x400 + (v - 0xDC00)) :: scalarText rest
    else alone u :: scalarText (v :: rest)
where
  alone (u : ℕ) : Char := if isHigh u || isLow u then '\uFFFD' else Char.ofNat u

/-- `bytewiseCompare(left, right)`. -/
def compareNames (left right : Units) : Ordering :=
  bytewiseCompare (String.ofList (scalarText left)) (String.ofList (scalarText right))

/-- The number that an array-index name stands for. -/
def indexName (name : Units) : Option ℕ := indexKey (String.ofList (name.map Char.ofNat))

/-- `\udddd`, with hexadecimal digits. -/
def unicodeEscape (u : ℕ) : Units :=
  ascii "\\u" ++ [u / 4096, u / 256 % 16, u / 16 % 16, u % 16].map fun d ↦ (Nat.digitChar d).toNat

def escapeUnit (u : ℕ) : Units :=
  if u = 0x22 then ascii "\\\""
  else if u = 0x5C then ascii "\\\\"
  else if u = 0x8 then ascii "\\b"
  else if u = 0xC then ascii "\\f"
  else if u = 0xA then ascii "\\n"
  else if u = 0xD then ascii "\\r"
  else if u = 0x9 then ascii "\\t"
  else if u < 0x20 ∨ isHigh u ∨ isLow u then unicodeEscape u
  else [u]

/-- What stands between the quotes of a string: a pair of surrogates as it is, everything else escaped
where it has to be. -/
def quoteBody : Units → Units
  | [] => []
  | [u] => escapeUnit u
  | u :: v :: rest =>
    if isHigh u && isLow v then u :: v :: quoteBody rest else escapeUnit u ++ quoteBody (v :: rest)

/-- `JSON.stringify(text)`. -/
def quote (text : Units) : Units := ascii "\"" ++ quoteBody text ++ ascii "\""

/-! ## Values -/

/-- A plain value, or the `undefined` of a field or an item that has none. -/
inductive Value where
  | undefined
  | null
  | bool (b : Bool)
  | num (text : Units)
  | str (text : Units)
  | arr (items : List Value)
  | obj (fields : List (Units × Value))

namespace Value

def isUndefined : Value → Bool
  | undefined => true
  | _ => false

mutual

/-- No object has two fields of one name. -/
def Plain : Value → Prop
  | arr items => PlainItems items
  | obj fields => PlainFields fields ∧ (fields.map Prod.fst).Nodup
  | _ => True

def PlainItems : List Value → Prop
  | [] => True
  | v :: rest => Plain v ∧ PlainItems rest

def PlainFields : List (Units × Value) → Prop
  | [] => True
  | (_, v) :: rest => Plain v ∧ PlainFields rest

end

end Value

/-! ## The text in one piece -/

/-- The order in which an object has its fields: array indices by their numbers, then the other names
as they were put in. -/
def indexFirst {α : Type} (name : α → Units) (l : List α) : List α :=
  Sorting.sortBy (fun a b ↦ compare ((indexName (name a)).getD 0) ((indexName (name b)).getD 0))
      (l.filter fun a ↦ (indexName (name a)).isSome) ++
    l.filter fun a ↦ !(indexName (name a)).isSome

namespace Value

mutual

/-- `canonicalizeJsonValue(value)`. -/
def canonicalize : Value → Value
  | arr items => arr (canonicalizeItems items)
  | obj fields => obj (indexFirst Prod.fst
      (Sorting.sortBy (fun a b ↦ compareNames a.1 b.1) (canonicalizeFields fields)))
  | v => v

def canonicalizeItems : List Value → List Value
  | [] => []
  | v :: rest => canonicalize v :: canonicalizeItems rest

def canonicalizeFields : List (Units × Value) → List (Units × Value)
  | [] => []
  | (_, undefined) :: rest => canonicalizeFields rest
  | (k, v) :: rest => (k, canonicalize v) :: canonicalizeFields rest

end

end Value

/-- `"  ".repeat(depth)`. -/
def indent (depth : ℕ) : Units := List.replicate (2 * depth) 0x20

/-- What an array or an object has behind its first piece. -/
def afterFirst (closing : String) (depth : ℕ) (pieces : List Units) : Units :=
  pieces.flatMap (fun piece ↦ ascii ",\n" ++ (indent (depth + 1) ++ piece)) ++
    (ascii "\n" ++ indent depth ++ ascii closing)

/-- The pieces of an array or of an object between its brackets, each on a line of its own. -/
def bracketed (opening closing : String) (depth : ℕ) : List Units → Units
  | [] => ascii (opening ++ closing)
  | piece :: rest =>
    ascii (opening ++ "\n") ++ (indent (depth + 1) ++ piece) ++ afterFirst closing depth rest

namespace Value

mutual

/-- `JSON.stringify(value, null, 2)` at a depth. -/
def text (depth : ℕ) : Value → Units
  | undefined => ascii "null"
  | null => ascii "null"
  | bool b => ascii (if b then "true" else "false")
  | num t => t
  | str s => quote s
  | arr items => bracketed "[" "]" depth (itemTexts (depth + 1) items)
  | obj fields => bracketed "\x7b" "\x7d" depth (fieldTexts (depth + 1) fields)

def itemTexts (depth : ℕ) : List Value → List Units
  | [] => []
  | v :: rest => text depth v :: itemTexts depth rest

def fieldTexts (depth : ℕ) : List (Units × Value) → List Units
  | [] => []
  | (_, undefined) :: rest => fieldTexts depth rest
  | (k, v) :: rest => (quote k ++ (ascii ": " ++ text depth v)) :: fieldTexts depth rest

end

end Value

/-- `encodeObservationHistoryIndexV3Json(payload)`. -/
def encodeObservationHistoryIndexV3Json (payload : Value) : Units :=
  payload.canonicalize.text 0 ++ ascii "\n"

/-! ## The text in chunks -/

def canonicalStringChunkCodeUnits : ℕ := 32 * 1024

/-- Where the chunk from an offset ends: not between the surrogates of a pair. -/
def chunkEnd (value : Units) (offset : ℕ) : ℕ :=
  let stop := min (offset + canonicalStringChunkCodeUnits) value.length
  if stop < value.length ∧ offset < stop ∧ isHigh (value.getD (stop - 1) 0) ∧
      isLow (value.getD stop 0) then stop - 1
  else stop

theorem lt_chunkEnd {value : Units} {offset : ℕ} (h : offset < value.length) :
    offset < chunkEnd value offset := by
  rw [chunkEnd, canonicalStringChunkCodeUnits]
  split_ifs <;> omega

/-- The loop of `quotedJsonStringChunks` from an offset. -/
def stringChunksFrom (value : Units) (offset : ℕ) : List Units :=
  if h : offset < value.length then
    have := lt_chunkEnd h
    ((quote ((value.take (chunkEnd value offset)).drop offset)).drop 1).dropLast ::
      stringChunksFrom value (chunkEnd value offset)
  else []
termination_by value.length - offset

def quotedJsonStringChunks (value : Units) : List Units :=
  ascii "\"" :: stringChunksFrom value 0 ++ [ascii "\""]

def canonicalJsonKeys (fields : List (Units × Value)) : List Units :=
  indexFirst id (Sorting.sortBy compareNames
    ((fields.filter fun field ↦ !field.2.isUndefined).map Prod.fst))

/-- `value[key]`. -/
def valueAt (fields : List (Units × Value)) (key : Units) : Value :=
  ((fields.find? fun field ↦ field.1 = key).map Prod.snd).getD .undefined

inductive Frame where
  | start (value : Value) (depth : ℕ)
  | array (items : List Value) (index depth : ℕ)
  | object (fields : List (Units × Value)) (keys : List Units) (index depth : ℕ)

/-- A comma behind every item but the last. -/
def separator (index : ℕ) : List Units := if 0 < index then [ascii ",\n"] else []

/-- One turn of the generator's loop: what it yields, and the frames in place of the top one. -/
def turn : Frame → List Units × List Frame
  | .start (.arr items) depth =>
    if items.length = 0 then ([ascii "[]"], []) else ([ascii "[\n"], [.array items 0 depth])
  | .start (.obj fields) depth =>
    let keys := canonicalJsonKeys fields
    if keys.length = 0 then ([ascii "\x7b\x7d"], [])
    else ([ascii "\x7b\n"], [.object fields keys 0 depth])
  | .start (.str s) _ => (quotedJsonStringChunks s, [])
  | .start v depth => ([v.text depth], [])
  | .array items index depth =>
    if index = items.length then ([ascii "\n" ++ indent depth ++ ascii "]"], [])
    else
      let item := items.getD index .undefined
      (separator index ++ [indent (depth + 1)],
        [.start (if item.isUndefined then .null else item) (depth + 1),
          .array items (index + 1) depth])
  | .object fields keys index depth =>
    if index = keys.length then ([ascii "\n" ++ indent depth ++ ascii "\x7d"], [])
    else
      let key := keys.getD index []
      (separator index ++ indent (depth + 1) :: quotedJsonStringChunks key ++ [ascii ": "],
        [.start (valueAt fields key) (depth + 1), .object fields keys (index + 1) depth])

/-- The loop of the generator, within a number of turns. -/
def drain : ℕ → List Frame → Option (List Units)
  | _, [] => some []
  | 0, _ :: _ => none
  | n + 1, frame :: rest =>
    (drain n ((turn frame).2 ++ rest)).map fun chunks ↦ (turn frame).1 ++ chunks

/-- What the generator yields within a number of turns. -/
def canonicalObservationHistoryIndexV3JsonChunks (turns : ℕ) (value : Value) :
    Option (List Units) :=
  (drain turns [.start value 0]).map fun chunks ↦ chunks ++ [ascii "\n"]

/-! ## Strings in chunks -/

/-- **A text may be cut anywhere but between the surrogates of a pair.** -/
theorem quoteBody_append (a b : Units)
    (h : ∀ u ∈ a.getLast?, ∀ v ∈ b.head?, (isHigh u && isLow v) = false) :
    quoteBody (a ++ b) = quoteBody a ++ quoteBody b := by
  induction a using quoteBody.induct with
  | case1 => rfl
  | case2 u =>
    rcases b with _ | ⟨v, b⟩
    · rw [List.append_nil, quoteBody, quoteBody, List.append_nil]
    · have hcut := h u rfl v rfl
      have hsplit : quoteBody (u :: v :: b) = escapeUnit u ++ quoteBody (v :: b) := by
        rw [quoteBody, hcut, if_neg Bool.false_ne_true]
      rw [List.singleton_append, hsplit]
      rfl
  | case3 u v rest hpair ih =>
    rw [List.cons_append, List.cons_append, quoteBody, if_pos hpair, quoteBody, if_pos hpair,
      List.cons_append, List.cons_append]
    rcases rest with _ | ⟨w, rest⟩
    · rfl
    · rw [ih h]
  | case4 u v rest hpair ih =>
    rw [List.cons_append, List.cons_append, quoteBody, if_neg hpair, quoteBody, if_neg hpair,
      List.append_assoc, ← List.cons_append, ih h]

theorem chunkEnd_le {value : Units} {offset : ℕ} : chunkEnd value offset ≤ value.length := by
  rw [chunkEnd, canonicalStringChunkCodeUnits]
  split_ifs <;> omega

/-- A chunk does not end between the surrogates of a pair. -/
theorem not_pair_at_chunkEnd {value : Units} {offset : ℕ} (h : offset < value.length)
    (hend : chunkEnd value offset < value.length) :
    (isHigh (value.getD (chunkEnd value offset - 1) 0)
      && isLow (value.getD (chunkEnd value offset) 0)) = false := by
  set stop := min (offset + canonicalStringChunkCodeUnits) value.length with hstop
  by_cases hcut : stop < value.length ∧ offset < stop ∧ isHigh (value.getD (stop - 1) 0) ∧
      isLow (value.getD stop 0)
  · -- behind the cut stands the first surrogate of the pair
    have hback : chunkEnd value offset = stop - 1 := if_pos hcut
    have hhigh := hcut.2.2.1
    rw [hback, Bool.and_eq_false_iff]
    right
    rw [isHigh, Bool.and_eq_true, decide_eq_true_iff, decide_eq_true_iff] at hhigh
    rw [isLow, Bool.and_eq_false_iff, decide_eq_false_iff_not]
    omega
  · have hkeep : chunkEnd value offset = stop := if_neg hcut
    have hlt := lt_chunkEnd h
    rw [hkeep] at hend hlt ⊢
    rw [Bool.and_eq_false_iff]
    by_contra hpair
    rw [not_or, Bool.not_eq_false, Bool.not_eq_false] at hpair
    exact hcut ⟨hend, hlt, hpair⟩

theorem quote_inner (text : Units) : ((quote text).drop 1).dropLast = quoteBody text := by
  rw [quote, List.append_assoc]
  exact List.dropLast_concat

theorem flatten_stringChunksFrom (value : Units) (offset : ℕ) (h : offset ≤ value.length) :
    (stringChunksFrom value offset).flatten = quoteBody (value.drop offset) := by
  induction hleft : value.length - offset using Nat.strong_induction_on generalizing offset with
  | _ left ih =>
    rw [stringChunksFrom]
    split_ifs with hlt
    · have hstep := lt_chunkEnd hlt
      have hle : chunkEnd value offset ≤ value.length := chunkEnd_le
      rw [List.flatten_cons, quote_inner, ih _ (by omega) _ hle rfl, ← quoteBody_append]
      · rw [← List.drop_append_of_le_length (by rw [List.length_take]; omega), List.take_append_drop]
      · intro u hu v hv
        have hend : chunkEnd value offset < value.length := by
          by_contra hout
          rw [List.drop_of_length_le (not_lt.mp hout)] at hv
          rcases hv with ⟨⟩
        have hlast : u = value.getD (chunkEnd value offset - 1) 0 := by
          rw [List.getLast?_drop, if_neg (by rw [List.length_take]; omega),
            List.getLast?_take, if_neg (by omega)] at hu
          rw [List.getD_eq_getElem?_getD]
          rw [List.getElem?_eq_getElem (by omega)] at hu ⊢
          exact (Option.some.inj hu).symm
        have hfirst : v = value.getD (chunkEnd value offset) 0 := by
          rw [List.head?_drop] at hv
          rw [List.getD_eq_getElem?_getD, Option.mem_def.mp hv]
          rfl
        rw [hlast, hfirst]
        exact not_pair_at_chunkEnd hlt hend
    · rw [List.drop_of_length_le (not_lt.mp hlt)]
      rfl

/-- **The chunks of a string** are its text. -/
theorem flatten_quotedJsonStringChunks (value : Units) :
    (quotedJsonStringChunks value).flatten = quote value := by
  rw [quotedJsonStringChunks, List.cons_append, List.flatten_cons, List.flatten_append,
    flatten_stringChunksFrom value 0 (Nat.zero_le _), List.drop_zero, quote, List.flatten_singleton,
    List.append_assoc]

/-! ## The fields of an object -/

section Fields

variable {fields : List (Units × Value)}

theorem indexFirst_map {α β : Type} {name : β → Units} (f : α → β) (l : List α) :
    indexFirst name (l.map f) = (indexFirst (fun a ↦ name (f a)) l).map f := by
  rw [indexFirst, indexFirst, List.map_append, List.filter_map, List.filter_map]
  congr 1
  exact Sorting.sortBy_map f (fun _ _ ↦ rfl) _

theorem mem_indexFirst {α : Type} {name : α → Units} {l : List α} {a : α} :
    a ∈ indexFirst name l ↔ a ∈ l := by
  rw [indexFirst, List.mem_append, Sorting.mem_sortBy, List.mem_filter, List.mem_filter]
  cases (indexName (name a)).isSome <;> simp

/-- The fields of `canonicalizeJsonValue(value)`. -/
def canonicalFields (fields : List (Units × Value)) : List (Units × Value) :=
  indexFirst Prod.fst (Sorting.sortBy (fun a b ↦ compareNames a.1 b.1)
    (Value.canonicalizeFields fields))

theorem canonicalizeFields_eq_map (fields : List (Units × Value)) : Value.canonicalizeFields fields
    = (fields.filter fun field ↦ !field.2.isUndefined).map fun field ↦
        (field.1, field.2.canonicalize) := by
  induction fields with
  | nil => rfl
  | cons field rest ih =>
    obtain ⟨k, v⟩ := field
    rcases v with _ | _ | _ | _ | _ | _ | _ <;> simp [Value.canonicalizeFields, Value.isUndefined, ih]

/-- The generator goes through the names of the canonical fields. -/
theorem canonicalJsonKeys_eq (fields : List (Units × Value)) :
    canonicalJsonKeys fields = (canonicalFields fields).map Prod.fst := by
  have hnames : (fields.filter fun field ↦ !field.2.isUndefined).map Prod.fst
      = (Value.canonicalizeFields fields).map Prod.fst := by
    rw [canonicalizeFields_eq_map, List.map_map]
    rfl
  rw [canonicalJsonKeys, hnames, Sorting.sortBy_map Prod.fst (fun _ _ ↦ rfl), indexFirst_map]
  rfl

theorem valueAt_of_mem (hnames : (fields.map Prod.fst).Nodup) {field : Units × Value}
    (h : field ∈ fields) : valueAt fields field.1 = field.2 := by
  induction fields with
  | nil => exact absurd h List.not_mem_nil
  | cons first rest ih =>
    obtain ⟨hfirst, hrest⟩ := List.nodup_cons.mp hnames
    rw [valueAt, List.find?_cons]
    rcases List.mem_cons.mp h with rfl | hmem
    · rw [decide_eq_true rfl]
      rfl
    · have hne : first.1 ≠ field.1 := fun heq ↦ hfirst (heq ▸ List.mem_map_of_mem hmem)
      rw [decide_eq_false hne]
      exact ih hrest hmem

theorem exists_of_mem_canonicalFields {field : Units × Value} (h : field ∈ canonicalFields fields) :
    ∃ v, (field.1, v) ∈ fields ∧ v ≠ .undefined ∧ field.2 = v.canonicalize := by
  rw [canonicalFields, mem_indexFirst, Sorting.mem_sortBy, canonicalizeFields_eq_map,
    List.mem_map] at h
  obtain ⟨field', hmem, rfl⟩ := h
  obtain ⟨hmem, hdefined⟩ := List.mem_filter.mp hmem
  refine ⟨field'.2, hmem, fun hundefined ↦ ?_, rfl⟩
  rw [hundefined] at hdefined
  rcases hdefined with ⟨⟩

theorem canonicalize_ne_undefined {v : Value} (h : v ≠ .undefined) : v.canonicalize ≠ .undefined := by
  rcases v with _ | _ | _ | _ | _ | _ | _ <;> simp_all [Value.canonicalize]

theorem fieldTexts_eq_map (depth : ℕ) (h : ∀ field ∈ fields, field.2 ≠ .undefined) :
    Value.fieldTexts depth fields
      = fields.map fun field ↦ quote field.1 ++ (ascii ": " ++ field.2.text depth) := by
  induction fields with
  | nil => rfl
  | cons field rest ih =>
    obtain ⟨k, v⟩ := field
    obtain ⟨hv, hrest⟩ := List.forall_mem_cons.mp h
    rcases v with _ | _ | _ | _ | _ | _ | _
    · exact absurd rfl hv
    all_goals rw [Value.fieldTexts, ih hrest, List.map_cons]; exact fun h ↦ Value.noConfusion h

theorem itemTexts_canonicalizeItems (depth : ℕ) (items : List Value) :
    Value.itemTexts depth (Value.canonicalizeItems items)
      = items.map fun v ↦ v.canonicalize.text depth := by
  induction items with
  | nil => rfl
  | cons v rest ih => rw [Value.canonicalizeItems, Value.itemTexts, ih, List.map_cons]

end Fields

/-! ## The generator -/

/-- From some frames on the generator ends, and it yields a text. -/
def Drains (frames : List Frame) (out : Units) : Prop :=
  ∃ turns chunks, drain turns frames = some chunks ∧ chunks.flatten = out

theorem Drains.turn {frame : Frame} {rest : List Frame} {out : Units}
    (h : Drains ((turn frame).2 ++ rest) out) :
    Drains (frame :: rest) ((JsonChunks.turn frame).1.flatten ++ out) := by
  obtain ⟨turns, chunks, hdrain, rfl⟩ := h
  refine ⟨turns + 1, _, ?_, List.flatten_append⟩
  rw [drain, hdrain]
  rfl

theorem drain_mono {frames : List Frame} {n m : ℕ} {chunks : List Units} (hle : n ≤ m)
    (h : drain n frames = some chunks) : drain m frames = some chunks := by
  induction n generalizing frames m chunks with
  | zero =>
    rcases frames with _ | ⟨frame, rest⟩
    · rw [drain] at h ⊢
      exact h
    · cases h
  | succ n ih =>
    rcases frames with _ | ⟨frame, rest⟩
    · rw [drain] at h ⊢
      exact h
    · obtain ⟨m, rfl⟩ := Nat.exists_eq_add_of_le' (Nat.le_trans (Nat.succ_le_succ n.zero_le) hle)
      rw [drain, Option.map_eq_some_iff] at h
      obtain ⟨chunks', hdrain, rfl⟩ := h
      rw [drain, ih (Nat.le_of_succ_le_succ hle) hdrain]
      rfl

/-- A value is written before what is below it on the stack. -/
def Written (v v' : Value) : Prop := ∀ depth rest out, Drains rest out →
  Drains (.start v depth :: rest) (v'.text depth ++ out)

section Pieces

variable {F : ℕ → Frame} {closing : String} {depth : ℕ} {pieces : List Units} {rest : List Frame}
variable {out : Units}

/-- The frames of an array or of an object write its pieces one by one. -/
structure Writes (F : ℕ → Frame) (closing : String) (depth : ℕ) (pieces : List Units) : Prop where
  last : turn (F pieces.length) = ([ascii "
" ++ indent depth ++ ascii closing], [])
  next : ∀ i (hi : i < pieces.length), ∃ before v v',
    turn (F i) = (separator i ++ indent (depth + 1) :: before, [.start v (depth + 1), F (i + 1)]) ∧
      Written v v' ∧ before.flatten ++ v'.text (depth + 1) = pieces[i]

theorem Writes.turn (h : Writes F closing depth pieces) {i : ℕ} (hi : i < pieces.length)
    (hrest : Drains (F (i + 1) :: rest) out) :
    Drains (F i :: rest) ((separator i).flatten ++ (indent (depth + 1) ++ pieces[i]) ++ out) := by
  obtain ⟨before, v, v', hturn, hwritten, hpiece⟩ := h.next i hi
  have hstart := hwritten (depth + 1) (F (i + 1) :: rest) out hrest
  have hdrains : Drains (F i :: rest) _ := Drains.turn (by rw [hturn]; exact hstart)
  rw [hturn] at hdrains
  rwa [List.flatten_append, List.flatten_cons, List.append_assoc, List.append_assoc,
    ← List.append_assoc before.flatten, hpiece, ← List.append_assoc (indent _),
    ← List.append_assoc] at hdrains

theorem Writes.afterFirst (h : Writes F closing depth pieces) (hrest : Drains rest out) (i : ℕ)
    (hpos : 0 < i) (hi : i ≤ pieces.length) :
    Drains (F i :: rest) (JsonChunks.afterFirst closing depth (pieces.drop i) ++ out) := by
  induction hleft : pieces.length - i generalizing i with
  | zero =>
    obtain rfl : i = pieces.length := by omega
    have hdrains : Drains (F pieces.length :: rest) _ :=
      Drains.turn (by rw [h.last]; exact hrest)
    rw [h.last, List.flatten_singleton] at hdrains
    rwa [List.drop_length]
  | succ left ih =>
    have hlt : i < pieces.length := by omega
    have hdrains := h.turn hlt (ih (i + 1) (Nat.succ_pos i) hlt (by omega))
    rw [separator, if_pos hpos, List.flatten_singleton] at hdrains
    rw [List.drop_eq_getElem_cons hlt, JsonChunks.afterFirst, List.flatMap_cons]
    rwa [JsonChunks.afterFirst, ← List.append_assoc, ← List.append_assoc (ascii ",
" ++ _)] at hdrains

/-- **Run.** -/
theorem Writes.drains (h : Writes F closing depth pieces) (hrest : Drains rest out) {frame : Frame}
    {opening : String} (hframe : JsonChunks.turn frame = if pieces.length = 0 then
      ([ascii (opening ++ closing)], []) else ([ascii (opening ++ "\n")], [F 0])) :
    Drains (frame :: rest) (bracketed opening closing depth pieces ++ out) := by
  rcases pieces with _ | ⟨piece, pieces⟩
  · rw [List.length_nil, if_pos rfl] at hframe
    have hdrains : Drains (frame :: rest) _ := Drains.turn (by rw [hframe]; exact hrest)
    rwa [hframe, List.flatten_singleton] at hdrains
  · have hlt : 0 < (piece :: pieces).length := Nat.succ_pos _
    have hfirst := h.turn hlt (h.afterFirst hrest 1 Nat.one_pos hlt)
    rw [separator, if_neg (Nat.lt_irrefl 0), List.flatten_nil, List.nil_append] at hfirst
    rw [List.length_cons, if_neg (Nat.succ_ne_zero _)] at hframe
    have hdrains : Drains (frame :: rest) _ := Drains.turn (by rw [hframe]; exact hfirst)
    rw [hframe, List.flatten_singleton] at hdrains
    rw [bracketed, List.append_assoc, List.append_assoc]
    exact hdrains

end Pieces

/-- An item that is missing is written as `null`. -/
def orNull (v : Value) : Value := if v.isUndefined then .null else v

theorem orNull_of_ne {v : Value} (h : v ≠ .undefined) : orNull v = v := by
  rcases v with _ | _ | _ | _ | _ | _ | _
  · exact absurd rfl h
  all_goals rfl

theorem writes_array {items : List Value} (h : ∀ v ∈ items, Written (orNull v) v.canonicalize)
    (depth : ℕ) : Writes (fun i ↦ .array items i depth) "]" depth
      (Value.itemTexts (depth + 1) (Value.canonicalizeItems items)) := by
  rw [itemTexts_canonicalizeItems]
  constructor
  · rw [List.length_map, turn, if_pos rfl]
  · intro i hi
    have hlt : i < items.length := by rwa [List.length_map] at hi
    have hitem : items.getD i .undefined = items[i] := by
      rw [List.getD_eq_getElem?_getD, List.getElem?_eq_getElem hlt, Option.getD_some]
    refine ⟨[], orNull items[i], items[i].canonicalize, ?_, h _ (List.getElem_mem hlt), ?_⟩
    · rw [turn, if_neg hlt.ne, hitem]
      rfl
    · rw [List.getElem_map]
      rfl

theorem writes_object {fields : List (Units × Value)} (hnames : (fields.map Prod.fst).Nodup)
    (h : ∀ field ∈ fields, field.2 ≠ .undefined → Written field.2 field.2.canonicalize)
    (depth : ℕ) : Writes (fun i ↦ .object fields (canonicalJsonKeys fields) i depth) "\x7d" depth
      (Value.fieldTexts (depth + 1) (canonicalFields fields)) := by
  have hdefined : ∀ field ∈ canonicalFields fields, field.2 ≠ .undefined := by
    intro field hmem heq
    obtain ⟨v, -, hv, hcanonical⟩ := exists_of_mem_canonicalFields hmem
    exact canonicalize_ne_undefined hv (hcanonical.symm.trans heq)
  rw [fieldTexts_eq_map _ hdefined, canonicalJsonKeys_eq]
  constructor
  · rw [List.length_map, turn, List.length_map, if_pos rfl]
  · intro i hi
    have hlt : i < (canonicalFields fields).length := by rwa [List.length_map] at hi
    have hkey : ((canonicalFields fields).map Prod.fst).getD i []
        = (canonicalFields fields)[i].1 := by
      rw [List.getD_eq_getElem?_getD, List.getElem?_map, List.getElem?_eq_getElem hlt]
      rfl
    obtain ⟨v, hmem, hv, hcanonical⟩ := exists_of_mem_canonicalFields (List.getElem_mem hlt)
    have hvalue : valueAt fields (canonicalFields fields)[i].1 = v := valueAt_of_mem hnames hmem
    refine ⟨quotedJsonStringChunks (canonicalFields fields)[i].1 ++ [ascii ": "], v,
      v.canonicalize, ?_, h _ hmem hv, ?_⟩
    · rw [turn, List.length_map, if_neg hlt.ne, hkey]
      dsimp only
      rw [hvalue, List.append_assoc, List.cons_append]
    · rw [List.getElem_map, hcanonical, List.flatten_append, flatten_quotedJsonStringChunks,
        List.flatten_singleton, List.append_assoc]

theorem written_of_turn {v v' : Value}
    (h : ∀ depth, (turn (.start v depth)).2 = [] ∧ (turn (.start v depth)).1.flatten = v'.text depth) :
    Written v v' := by
  intro depth rest out hrest
  have hdrains : Drains (.start v depth :: rest) _ :=
    Drains.turn (by rw [(h depth).1]; exact hrest)
  rwa [(h depth).2] at hdrains

mutual

/-- **Every value is written as its text.** The induction is on the value; a value of an array or an
object is written with the rest of its frame below it. -/
theorem written : ∀ v : Value, v.Plain → v ≠ .undefined → Written v v.canonicalize
  | .undefined, _, hv => absurd rfl hv
  | .null, _, _ => written_of_turn fun _ ↦ ⟨rfl, List.flatten_singleton⟩
  | .bool _, _, _ => written_of_turn fun _ ↦ ⟨rfl, List.flatten_singleton⟩
  | .num _, _, _ => written_of_turn fun _ ↦ ⟨rfl, List.flatten_singleton⟩
  | .str s, _, _ => written_of_turn fun _ ↦ ⟨rfl, flatten_quotedJsonStringChunks s⟩
  | .arr items, hv, _ => fun depth rest out hrest ↦ by
    refine (writes_array (written_items items hv) depth).drains hrest ?_
    rw [turn, itemTexts_canonicalizeItems, List.length_map]
    rfl
  | .obj fields, ⟨hfields, hnames⟩, _ => fun depth rest out hrest ↦ by
    refine (writes_object hnames (written_fields fields hfields) depth).drains hrest ?_
    rw [turn]
    have hlength : (Value.fieldTexts (depth + 1) (canonicalFields fields)).length
        = (canonicalJsonKeys fields).length := by
      rw [canonicalJsonKeys_eq, List.length_map, fieldTexts_eq_map, List.length_map]
      intro field hmem heq
      obtain ⟨v, -, hv, hcanonical⟩ := exists_of_mem_canonicalFields hmem
      exact canonicalize_ne_undefined hv (hcanonical.symm.trans heq)
    rw [hlength]
    rfl

theorem written_items : ∀ items : List Value, Value.PlainItems items →
    ∀ v ∈ items, Written (orNull v) v.canonicalize
  | [], _, v, hmem => absurd hmem List.not_mem_nil
  | first :: rest, h, v, hmem => by
    rcases List.mem_cons.mp hmem with heq | hmem
    · rw [heq]
      by_cases hfirst : first = .undefined
      · rw [hfirst]
        exact written_of_turn fun _ ↦ ⟨rfl, List.flatten_singleton⟩
      · rw [orNull_of_ne hfirst]
        exact written first h.1 hfirst
    · exact written_items rest h.2 v hmem

theorem written_fields : ∀ fields : List (Units × Value), Value.PlainFields fields →
    ∀ field ∈ fields, field.2 ≠ .undefined → Written field.2 field.2.canonicalize
  | [], _, field, hmem, _ => absurd hmem List.not_mem_nil
  | (k, first) :: rest, h, field, hmem, hv => by
    rcases List.mem_cons.mp hmem with heq | hmem
    · rw [heq] at hv ⊢
      exact written first h.1 hv
    · exact written_fields rest h.2 field hmem hv

end

/-! ## The chunks of a value -/

/-- **The chunks, put together, are the canonical text**: the generator ends on every plain value, with
any number of turns from some number on. -/
theorem chunks_eq_encode (v : Value) (hplain : v.Plain) (hv : v ≠ .undefined) :
    ∃ turns, ∀ more, turns ≤ more → ∃ chunks,
      canonicalObservationHistoryIndexV3JsonChunks more v = some chunks ∧
        chunks.flatten = encodeObservationHistoryIndexV3Json v := by
  obtain ⟨turns, chunks, hdrain, hflatten⟩ := written v hplain hv 0 [] [] ⟨0, [], rfl, rfl⟩
  refine ⟨turns, fun more hmore ↦ ⟨chunks ++ [ascii "\n"], ?_, ?_⟩⟩
  · rw [canonicalObservationHistoryIndexV3JsonChunks, drain_mono hmore hdrain]
    rfl
  · rw [List.flatten_append, hflatten, List.append_nil, List.flatten_singleton,
      encodeObservationHistoryIndexV3Json]

theorem chunks_eq_encode_indices : ∃ turns, ∀ more, turns ≤ more → ∃ chunks,
    canonicalObservationHistoryIndexV3JsonChunks more
        (.obj [(ascii "b", .undefined), (ascii "a", .arr [.undefined, .str [0xD83D, 0xDE00, 0xD83D]]),
          (ascii "10", .null), (ascii "9", .bool true)]) = some chunks ∧
      chunks.flatten = encodeObservationHistoryIndexV3Json
        (.obj [(ascii "b", .undefined), (ascii "a", .arr [.undefined, .str [0xD83D, 0xDE00, 0xD83D]]),
          (ascii "10", .null), (ascii "9", .bool true)]) :=
  chunks_eq_encode _ ⟨⟨trivial, ⟨trivial, trivial, trivial⟩, trivial, trivial, trivial⟩, by decide⟩
    fun h ↦ Value.noConfusion h

end UkAqOps.JsonChunks

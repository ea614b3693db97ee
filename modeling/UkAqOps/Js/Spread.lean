import UkAqOps.Js.JsonForm

/-!
# Object literals

`{ a: x, ...rest, b: y }` writes one field after the other: a name that is written again keeps its
place and takes the new value, and array indices come first. An object written as text on one line
has no line break in it, and reads back as itself.
-/

namespace UkAqOps

namespace JsValue

/-! ## The fields of a literal -/

/-- The fields of the object that a list of fields gives. -/
def literalFields (fields : List (String × JsValue)) : List (String × JsValue) :=
  let entries := (OrderedMap.ofList fields).entries
  let indexed := entries.filterMap fun p ↦ (indexKey p.1).map fun n ↦ (n, p)
  (Sorting.sortBy (fun a b ↦ compare a.1 b.1) indexed).map Prod.snd
    ++ entries.filter fun p ↦ (indexKey p.1).isNone

theorem objectOf_eq (fields : List (String × JsValue)) :
    JsonText.objectOf fields = .obj (literalFields fields) := rfl

section Fields

variable {fields : List (String × JsValue)} {k : String} {v : JsValue}

theorem literalFields_perm (fields : List (String × JsValue)) :
    (literalFields fields).Perm (OrderedMap.ofList fields).entries := parts_perm _

theorem nodup_literalFields (fields : List (String × JsValue)) :
    ((literalFields fields).map Prod.fst).Nodup :=
  ((literalFields_perm fields).map Prod.fst).nodup_iff.mpr (OrderedMap.ofList fields).nodup_keys

/-- **A field of a literal** is the last one written under its name. -/
theorem mem_literalFields : (k, v) ∈ literalFields fields ↔
    (fields.reverse.find? fun p ↦ p.1 = k).map Prod.snd = some v := by
  rw [(literalFields_perm fields).mem_iff, ← OrderedMap.get?_eq_some_iff, OrderedMap.get?_ofList]

theorem mem_of_mem_literalFields {p : String × JsValue} (h : p ∈ literalFields fields) :
    p ∈ fields := by
  obtain ⟨⟨k, v⟩, hfind, hv⟩ := Option.map_eq_some_iff.mp (mem_literalFields.mp h)
  have hk : k = p.1 := by simpa using List.find?_some hfind
  have hmem := List.mem_reverse.mp (List.mem_of_find?_eq_some hfind)
  rwa [show p = (k, v) from Prod.ext hk.symm hv.symm]

theorem optional_literal (h : (fields.reverse.find? fun p ↦ p.1 = k).map Prod.snd = some v) :
    (obj (literalFields fields)).optional k = v :=
  optional_of_mem (nodup_literalFields fields) (mem_literalFields.mpr h)

/-- The fields of a literal stand in the order of an object. -/
theorem literalFields_literalFields (fields : List (String × JsValue)) :
    literalFields (literalFields fields) = literalFields fields :=
  obj.inj (objectOf_of_parts (nodup_literalFields fields))

/-- **Writing a field into an object** leaves its other fields as they are. -/
theorem filter_literalFields (fields : List (String × JsValue)) (k : String) (v : JsValue) :
    (literalFields (literalFields fields ++ [(k, v)])).filter (fun p ↦ p.1 ≠ k)
      = (literalFields fields).filter fun p ↦ p.1 ≠ k := by
  have hcmp : Std.TransCmp fun a b : ℕ × String × JsValue ↦ compare a.1 b.1 :=
    Sorting.transCmp_on inferInstance Prod.fst
  have hentries : (OrderedMap.ofList (literalFields fields)).entries = literalFields fields :=
    OrderedMap.entries_ofList (nodup_literalFields fields)
  have hset : (OrderedMap.ofList (literalFields fields ++ [(k, v)])).entries
      = OrderedMap.setEntries (literalFields fields) k v := by
    conv_rhs => rw [← hentries]
    rw [OrderedMap.ofList, List.foldl_append, ← OrderedMap.ofList]
    rfl
  -- leaving a name out commutes with the order of an object
  have hparts : ∀ entries : List (String × JsValue),
      ((Sorting.sortBy (fun a b ↦ compare a.1 b.1)
          (entries.filterMap fun p ↦ (indexKey p.1).map fun n ↦ (n, p))).map Prod.snd
        ++ entries.filter fun p ↦ (indexKey p.1).isNone).filter (fun p ↦ p.1 ≠ k)
      = (Sorting.sortBy (fun a b ↦ compare a.1 b.1)
          ((entries.filter fun p ↦ p.1 ≠ k).filterMap fun p ↦
            (indexKey p.1).map fun n ↦ (n, p))).map Prod.snd
        ++ (entries.filter fun p ↦ p.1 ≠ k).filter fun p ↦ (indexKey p.1).isNone := by
    intro entries
    rw [List.filter_append, List.filter_map, Sorting.filter_sortBy, List.filter_comm,
      List.filter_filterMap]
    congr 3
    rw [List.filterMap_filter]
    refine List.filterMap_congr fun p _ ↦ ?_
    rcases indexKey p.1 with _ | n
    · simp
    · by_cases hk : p.1 = k <;> simp [hk]
  have hagain := congrArg (List.filter fun p ↦ p.1 ≠ k) (literalFields_literalFields fields)
  rw [literalFields, hentries, hparts] at hagain
  rw [literalFields, hset, hparts, OrderedMap.filter_setEntries]
  exact hagain

theorem optional_append (fields : List (String × JsValue)) (k : String) (v : JsValue) :
    (obj (literalFields (fields ++ [(k, v)]))).optional k = v :=
  optional_literal (by rw [List.reverse_append]; simp)

theorem optional_append_of_ne (fields : List (String × JsValue)) {j k : String} (v w : JsValue)
    (hne : k ≠ j) (h : (j, w) ∈ literalFields fields) :
    (obj (literalFields (literalFields fields ++ [(k, v)]))).optional j = w := by
  refine optional_literal ?_
  rw [List.reverse_append, List.reverse_singleton, List.singleton_append,
    List.find?_cons_of_neg (by simpa using hne)]
  refine mem_literalFields.mp ?_
  rwa [literalFields_literalFields]

theorem readable_literal {double : String → String} (h : ∀ p ∈ fields, p.2.Readable double) :
    (obj (literalFields fields)).Readable double := by
  refine ⟨readableFields_iff.mpr fun p hp ↦ h p (mem_of_mem_literalFields hp), ?_⟩
  rw [objectOf_eq, literalFields_literalFields]

end Fields

/-! ## One line -/

theorem newline_notMem_jsonQuote (s : String) : '\n' ∉ (jsonQuote s).toList := by
  have hpad : ∀ n < 0x20, '\n' ∉ (padZeros (String.ofList (Nat.toDigits 16 n)) 4).toList := by decide
  have hescape : ∀ c : Char, '\n' ∉ (jsonEscape c).toList := by
    intro c
    rw [jsonEscape]
    split_ifs with h1 h2 h3 h4 h5 h6 h7 h8
    · decide
    · decide
    · decide
    · decide
    · decide
    · decide
    · decide
    · rw [String.toList_append, List.mem_append, not_or]
      exact ⟨by decide, hpad c.toNat (by simpa [UInt32.lt_iff_toNat_lt] using h8)⟩
    · rw [String.toList_ofList, List.mem_singleton]
      intro heq
      exact h5 (by rw [← heq]; decide)
  rw [JsonText.toList_jsonQuote]
  simp only [List.mem_cons, List.mem_append, List.mem_flatMap, not_or, not_exists, not_and,
    List.not_mem_nil, not_false_eq_true, and_true]
  exact ⟨⟨by decide, fun c _ ↦ hescape c⟩, by decide⟩

theorem newline_notMem_enclosed {opening closing : Char} {depth : ℕ} {pieces : List (List Char)}
    (hopening : opening ≠ '\n') (hclosing : closing ≠ '\n') (h : ∀ piece ∈ pieces, '\n' ∉ piece) :
    '\n' ∉ enclosed opening closing 0 depth pieces := by
  rcases pieces with _ | ⟨piece, rest⟩
  · simp [enclosed, hopening.symm, hclosing.symm]
  · have hrest : ∀ next ∈ rest, '\n' ∉ next := fun next hnext ↦ h next (List.mem_cons_of_mem _ hnext)
    simp only [enclosed, lineBreak, if_true, List.append_nil, List.mem_append,
      List.mem_cons, List.mem_flatMap, List.not_mem_nil, or_false, not_or, not_exists, not_and]
    exact ⟨⟨⟨hopening.symm, h piece List.mem_cons_self⟩, fun next hnext ↦
      ⟨by decide, hrest next hnext⟩⟩, hclosing.symm⟩

mutual

/-- **A value is written on one line**, unless it is indented. -/
theorem newline_notMem_chars {double : String → String} : ∀ (v : JsValue), v.Readable double →
    ∀ depth, '\n' ∉ v.chars 0 depth
  | .undefined, h, _ => h.elim
  | .null, _, _ => by rw [chars]; decide
  | .bool b, _, _ => by
    rw [chars]
    cases b <;> decide
  | .num t, h, _ => by
    rw [chars, JsonText.numberText_of_forall h.2]
    intro hmem
    exact absurd (h.2 _ hmem) (by decide)
  | .str s, _, _ => by
    rw [chars]
    exact newline_notMem_jsonQuote s
  | .arr items, h, depth => by
    rw [chars]
    exact newline_notMem_enclosed (by decide) (by decide) (newline_notMem_itemChars items h (depth + 1))
  | .obj fields, h, depth => by
    rw [chars]
    exact newline_notMem_enclosed (by decide) (by decide)
      (newline_notMem_fieldChars fields h.1 (depth + 1))

theorem newline_notMem_itemChars {double : String → String} : ∀ (items : List JsValue),
    ReadableItems double items → ∀ depth, ∀ piece ∈ itemChars 0 depth items, '\n' ∉ piece
  | [], _, _ => by simp [itemChars]
  | v :: rest, h, depth => by
    rw [itemChars]
    exact List.forall_mem_cons.mpr
      ⟨newline_notMem_chars v h.1 depth, newline_notMem_itemChars rest h.2 depth⟩

theorem newline_notMem_fieldChars {double : String → String} : ∀ (fields : List (String × JsValue)),
    ReadableFields double fields → ∀ depth, ∀ piece ∈ fieldChars 0 depth fields, '\n' ∉ piece
  | [], _, _ => by simp [fieldChars]
  | (k, v) :: rest, h, depth => by
    have hne : v ≠ undefined := by
      rintro rfl
      exact h.1
    rw [fieldChars_cons_of_ne hne]
    refine List.forall_mem_cons.mpr ⟨?_, newline_notMem_fieldChars rest h.2 depth⟩
    have hcolon : '\n' ∉ colon 0 := by decide
    simp only [List.mem_append, not_or]
    exact ⟨⟨newline_notMem_jsonQuote k, hcolon⟩, newline_notMem_chars v h.1 depth⟩

end

end JsValue

end UkAqOps

import UkAqOps.Js.Parse

/-!
# What a value becomes through JSON

Written with `JSON.stringify` and read back, a value keeps its names, texts and finite numbers; a
number that is not finite and a missing item of an array become `null`, and a field without a value
is gone. A value in canonical form stays in canonical form, so that writing it once more gives the
same text.
-/

namespace UkAqOps

/-! ## The canonical order of fields -/

/-- Array indices before the other names are all of a list of fields. -/
theorem parts_perm {α : Type} (entries : List (String × α)) :
    ((Sorting.sortBy (fun a b ↦ compare a.1 b.1)
        (entries.filterMap fun p ↦ (indexKey p.1).map fun n ↦ (n, p))).map Prod.snd
      ++ entries.filter fun p ↦ (indexKey p.1).isNone).Perm entries := by
  have hindexed : (entries.filterMap fun p ↦ (indexKey p.1).map fun n ↦ (n, p)).map Prod.snd
      = entries.filter fun p ↦ !(indexKey p.1).isNone := by
    induction entries with
    | nil => rfl
    | cons p l ih =>
      rcases h : indexKey p.1 with _ | n
      · rw [List.filterMap_cons_none (by rw [h]; rfl), ih, List.filter_cons_of_neg (by simp [h])]
      · rw [List.filterMap_cons_some (by rw [h]; rfl), List.map_cons, ih,
          List.filter_cons_of_pos (by simp [h])]
  have hparts : (entries.filter (fun p ↦ !(indexKey p.1).isNone)
      ++ entries.filter fun p ↦ (indexKey p.1).isNone).Perm entries :=
    List.perm_append_comm.trans (List.filter_append_perm _ _)
  refine (List.Perm.append_right _ ?_).trans hparts
  rw [← hindexed]
  exact (Sorting.sortBy_perm _).map Prod.snd

theorem perm_canonicalOrder {α : Type} (fields : List (String × α)) :
    (canonicalOrder fields).Perm fields := (parts_perm _).trans (Sorting.sortBy_perm _)

theorem mem_canonicalOrder {α : Type} {fields : List (String × α)} {p : String × α} :
    p ∈ canonicalOrder fields ↔ p ∈ fields := (perm_canonicalOrder fields).mem_iff

/-- Fields with different names have one canonical order. -/
theorem canonicalOrder_eq_of_perm {α : Type} {fields fields' : List (String × α)}
    (h : fields.Perm fields') (hnames : (fields.map Prod.fst).Nodup) :
    canonicalOrder fields = canonicalOrder fields' := by
  rw [canonicalOrder, canonicalOrder, sortBy_eq_of_perm h hnames]

theorem canonicalOrder_canonicalOrder {α : Type} {fields : List (String × α)}
    (hnames : (fields.map Prod.fst).Nodup) :
    canonicalOrder (canonicalOrder fields) = canonicalOrder fields :=
  (canonicalOrder_eq_of_perm (perm_canonicalOrder fields).symm hnames).symm

/-- The order looks at the names alone. -/
theorem canonicalOrder_map {α β : Type} (f : α → β) (fields : List (String × α)) :
    canonicalOrder (fields.map fun p ↦ (p.1, f p.2))
      = (canonicalOrder fields).map fun p ↦ (p.1, f p.2) := by
  have hsort : Sorting.sortBy (fun a b ↦ bytewiseCompare a.1 b.1)
      (fields.map fun p ↦ (p.1, f p.2))
      = (Sorting.sortBy (fun a b ↦ bytewiseCompare a.1 b.1) fields).map fun p ↦ (p.1, f p.2) :=
    Sorting.sortBy_map (fun p : String × α ↦ (p.1, f p.2)) (fun _ _ ↦ rfl) fields
  simp only [canonicalOrder, hsort, List.map_append, List.map_map]
  congr 1
  · have hindexed : ∀ l : List (String × α),
        (l.map fun p ↦ (p.1, f p.2)).filterMap (fun p ↦ (indexKey p.1).map fun n ↦ (n, p))
          = (l.filterMap fun p ↦ (indexKey p.1).map fun n ↦ (n, p)).map
              fun p ↦ (p.1, p.2.1, f p.2.2) := by
      intro l
      rw [List.filterMap_map, List.map_filterMap]
      refine List.filterMap_congr fun p _ ↦ ?_
      rw [Function.comp_apply, Option.map_map]
      rfl
    rw [hindexed, Sorting.sortBy_map (fun p : ℕ × String × α ↦ (p.1, p.2.1, f p.2.2))
      (fun _ _ ↦ rfl), List.map_map]
    rfl
  · rw [List.filter_map]
    rfl

section Order

variable {indexed : List (ℕ × String × JsValue)} {others entries : List (String × JsValue)}

/-- Array indices in numeric order before the other names are in the order of an object. -/
theorem objectOf_of_order (hkeys : ∀ p ∈ indexed, indexKey p.2.1 = some p.1)
    (hnone : ∀ p ∈ others, indexKey p.1 = none)
    (hsorted : Sorting.sortBy (fun a b ↦ compare a.1 b.1) indexed = indexed)
    (hnames : ((indexed.map Prod.snd ++ others).map Prod.fst).Nodup) :
    JsonText.objectOf (indexed.map Prod.snd ++ others) = .obj (indexed.map Prod.snd ++ others) := by
  have hagain : (indexed.map Prod.snd ++ others).filterMap
      (fun p ↦ (indexKey p.1).map fun n ↦ (n, p)) = indexed := by
    have hnil : others.filterMap (fun p ↦ (indexKey p.1).map fun n ↦ (n, p)) = [] :=
      List.filterMap_eq_nil_iff.mpr fun p hp ↦ by rw [hnone p hp]; rfl
    rw [List.filterMap_append, List.filterMap_map, hnil, List.append_nil]
    calc indexed.filterMap _ = indexed.filterMap some :=
          List.filterMap_congr fun p hp ↦ by rw [Function.comp_apply, hkeys p hp]; rfl
      _ = indexed := List.filterMap_some
  have hrest : (indexed.map Prod.snd ++ others).filter (fun p ↦ (indexKey p.1).isNone)
      = others := by
    rw [List.filter_append, List.filter_eq_nil_iff.mpr, List.nil_append,
      List.filter_eq_self.mpr fun p hp ↦ by rw [hnone p hp]; rfl]
    intro p hp
    obtain ⟨q, hq, rfl⟩ := List.mem_map.mp hp
    rw [hkeys q hq]
    exact Bool.false_ne_true
  rw [JsonText.objectOf, OrderedMap.entries_ofList hnames]
  simp only [hagain, hsorted, hrest]

/-- Array indices, sorted out of a list of fields, before its other names. -/
theorem objectOf_of_parts
    (hnames : ((Sorting.sortBy (fun a b ↦ compare a.1 b.1)
      (entries.filterMap fun p ↦ (indexKey p.1).map fun n ↦ (n, p))).map Prod.snd
        ++ entries.filter (fun p ↦ (indexKey p.1).isNone) |>.map Prod.fst).Nodup) :
    JsonText.objectOf ((Sorting.sortBy (fun a b ↦ compare a.1 b.1)
        (entries.filterMap fun p ↦ (indexKey p.1).map fun n ↦ (n, p))).map Prod.snd
          ++ entries.filter fun p ↦ (indexKey p.1).isNone)
      = .obj ((Sorting.sortBy (fun a b ↦ compare a.1 b.1)
        (entries.filterMap fun p ↦ (indexKey p.1).map fun n ↦ (n, p))).map Prod.snd
          ++ entries.filter fun p ↦ (indexKey p.1).isNone) := by
  have hcmp : Std.TransCmp fun a b : ℕ × String × JsValue ↦ compare a.1 b.1 :=
    Sorting.transCmp_on inferInstance Prod.fst
  refine objectOf_of_order (fun p hp ↦ ?_) (fun p hp ↦ ?_) (Sorting.sortBy_sortBy _) hnames
  · obtain ⟨q, -, hq⟩ := List.mem_filterMap.mp (Sorting.mem_sortBy.mp hp)
    obtain ⟨n, hn, rfl⟩ := Option.map_eq_some_iff.mp hq
    exact hn
  · exact Option.isNone_iff_eq_none.mp (List.mem_filter.mp hp).2

end Order

/-- Fields in canonical order stand in the order of an object. -/
theorem objectOf_canonicalOrder {fields : List (String × JsValue)}
    (hnames : (fields.map Prod.fst).Nodup) :
    JsonText.objectOf (canonicalOrder fields) = .obj (canonicalOrder fields) :=
  objectOf_of_parts (((perm_canonicalOrder fields).map Prod.fst).nodup_iff.mpr hnames)

namespace JsValue

/-! ## Values and their JSON form -/

mutual

/-- A value of the language: its numbers are written so that they read back, unless they are not
finite, and no object has two fields of one name. -/
def IsValue (double : String → String) : JsValue → Prop
  | num t => numberText t ≠ t ∨ JsonText.readNumber double t.toList = some t ∧
      ∀ c ∈ t.toList, JsonText.isNumberChar c = true
  | arr items => AreValues double items
  | obj fields => FieldsAreValues double fields ∧ (fields.map Prod.fst).Nodup
  | _ => True

def AreValues (double : String → String) : List JsValue → Prop
  | [] => True
  | v :: rest => IsValue double v ∧ AreValues double rest

def FieldsAreValues (double : String → String) : List (String × JsValue) → Prop
  | [] => True
  | (_, v) :: rest => IsValue double v ∧ FieldsAreValues double rest

end

mutual

/-- `JSON.parse(JSON.stringify(value))`; a missing value stands for an item of an array. -/
def jsonForm : JsValue → JsValue
  | undefined => null
  | num t => if numberText t = t then num t else null
  | arr items => arr (jsonItems items)
  | obj fields => obj (jsonFields fields)
  | v => v

def jsonItems : List JsValue → List JsValue
  | [] => []
  | v :: rest => jsonForm v :: jsonItems rest

def jsonFields : List (String × JsValue) → List (String × JsValue)
  | [] => []
  | (_, undefined) :: rest => jsonFields rest
  | (k, v) :: rest => (k, jsonForm v) :: jsonFields rest

end

/-- The names of the fields that have a value. -/
def present (fields : List (String × JsValue)) : List (String × JsValue) :=
  fields.filter fun p ↦ !p.2.isUndefined

theorem present_cons_undefined (k : String) (rest : List (String × JsValue)) :
    present ((k, undefined) :: rest) = present rest := rfl

theorem isUndefined_iff {v : JsValue} : v.isUndefined = true ↔ v = undefined := by
  cases v <;> simp [isUndefined]

theorem present_cons {k : String} {v : JsValue} (h : v ≠ undefined)
    (rest : List (String × JsValue)) : present ((k, v) :: rest) = (k, v) :: present rest := by
  refine List.filter_cons_of_pos ?_
  rw [Bool.not_eq_true', Bool.eq_false_iff]
  exact fun hv ↦ h (isUndefined_iff.mp hv)

theorem jsonFields_cons {k : String} {v : JsValue} (h : v ≠ undefined)
    (rest : List (String × JsValue)) :
    jsonFields ((k, v) :: rest) = (k, v.jsonForm) :: jsonFields rest := by
  cases v with
  | undefined => exact absurd rfl h
  | _ => rfl

theorem canonicalizeFields_cons {k : String} {v : JsValue} (h : v ≠ undefined)
    (rest : List (String × JsValue)) :
    canonicalizeFields ((k, v) :: rest) = (k, v.canonicalize) :: canonicalizeFields rest := by
  cases v with
  | undefined => exact absurd rfl h
  | _ => rfl

theorem fieldChars_cons_of_ne {indent depth : ℕ} {k : String} {v : JsValue} (h : v ≠ undefined)
    (rest : List (String × JsValue)) : fieldChars indent depth ((k, v) :: rest)
      = ((jsonQuote k).toList ++ colon indent ++ v.chars indent depth)
        :: fieldChars indent depth rest := by
  cases v with
  | undefined => exact absurd rfl h
  | _ => rfl

theorem jsonFields_eq_map (fields : List (String × JsValue)) :
    jsonFields fields = (present fields).map fun p ↦ (p.1, p.2.jsonForm) := by
  induction fields with
  | nil => rfl
  | cons p rest ih =>
    obtain ⟨k, v⟩ := p
    by_cases h : v = undefined
    · rw [h, jsonFields, present_cons_undefined, ih]
    · rw [jsonFields_cons h, present_cons h, List.map_cons, ih]

theorem canonicalizeFields_eq_map (fields : List (String × JsValue)) :
    canonicalizeFields fields = (present fields).map fun p ↦ (p.1, p.2.canonicalize) := by
  induction fields with
  | nil => rfl
  | cons p rest ih =>
    obtain ⟨k, v⟩ := p
    by_cases h : v = undefined
    · rw [h, canonicalizeFields, present_cons_undefined, ih]
    · rw [canonicalizeFields_cons h, present_cons h, List.map_cons, ih]

theorem canonicalize_ne_undefined {v : JsValue} (h : v ≠ undefined) :
    v.canonicalize ≠ undefined := by
  cases v <;> simp_all [canonicalize]

theorem jsonForm_ne_undefined (v : JsValue) : v.jsonForm ≠ undefined := by
  cases v with
  | num t =>
    rw [jsonForm]
    split <;> simp
  | _ => simp [jsonForm]

theorem present_eq_self {fields : List (String × JsValue)} (h : ∀ p ∈ fields, p.2 ≠ undefined) :
    present fields = fields :=
  List.filter_eq_self.mpr fun p hp ↦ by
    rw [Bool.not_eq_true', Bool.eq_false_iff]
    exact fun hv ↦ h p hp (isUndefined_iff.mp hv)

theorem ne_undefined_of_mem_present {fields : List (String × JsValue)} {p : String × JsValue}
    (h : p ∈ present fields) : p.2 ≠ undefined := by
  intro hv
  have hpresent := (List.mem_filter.mp h).2
  rw [hv] at hpresent
  cases hpresent

theorem ne_undefined_of_mem_canonicalizeFields {fields : List (String × JsValue)}
    {p : String × JsValue} (h : p ∈ canonicalizeFields fields) : p.2 ≠ undefined := by
  rw [canonicalizeFields_eq_map] at h
  obtain ⟨q, hq, rfl⟩ := List.mem_map.mp h
  exact canonicalize_ne_undefined (ne_undefined_of_mem_present hq)

theorem nodup_canonicalizeFields {fields : List (String × JsValue)}
    (h : (fields.map Prod.fst).Nodup) : ((canonicalizeFields fields).map Prod.fst).Nodup := by
  rw [canonicalizeFields_eq_map, List.map_map]
  exact h.sublist (List.filter_sublist.map Prod.fst)

/-! ## The text of the JSON form -/

mutual

theorem chars_jsonForm (indent depth : ℕ) : ∀ v : JsValue,
    v.jsonForm.chars indent depth = v.chars indent depth
  | undefined => rfl
  | null => rfl
  | bool _ => rfl
  | num t => by
    rw [jsonForm]
    split
    · rfl
    · rename_i h
      rw [chars, chars, numberText, if_pos]
      by_contra hfinite
      exact h (if_neg hfinite)
  | str _ => rfl
  | arr items => by rw [jsonForm, chars, chars, itemChars_jsonItems]
  | obj fields => by rw [jsonForm, chars, chars, fieldChars_jsonFields]

theorem itemChars_jsonItems (indent depth : ℕ) : ∀ items : List JsValue,
    itemChars indent depth (jsonItems items) = itemChars indent depth items
  | [] => rfl
  | v :: rest => by
    rw [jsonItems, itemChars, itemChars, chars_jsonForm, itemChars_jsonItems]

theorem fieldChars_jsonFields (indent depth : ℕ) : ∀ fields : List (String × JsValue),
    fieldChars indent depth (jsonFields fields) = fieldChars indent depth fields
  | [] => rfl
  | (k, v) :: rest => by
    by_cases h : v = undefined
    · rw [h, jsonFields, fieldChars, fieldChars_jsonFields]
    · rw [jsonFields_cons h, fieldChars_cons_of_ne h,
        fieldChars_cons_of_ne (jsonForm_ne_undefined v), chars_jsonForm, fieldChars_jsonFields]

end

/-! ## Canonical values -/

mutual

/-- The canonical form may be taken before or after. -/
theorem canonicalize_jsonForm : ∀ v : JsValue, v.jsonForm.canonicalize = v.canonicalize.jsonForm
  | undefined => rfl
  | null => rfl
  | bool _ => rfl
  | num t => by
    have hnum : (num t).canonicalize = num t := rfl
    rw [hnum, jsonForm]
    split <;> rfl
  | str _ => rfl
  | arr items => by
    rw [jsonForm, canonicalize, canonicalize, jsonForm, canonicalizeItems_jsonItems]
  | obj fields => by
    have hpresent : present (canonicalOrder (canonicalizeFields fields))
        = canonicalOrder (canonicalizeFields fields) := present_eq_self fun p hp ↦
      ne_undefined_of_mem_canonicalizeFields (mem_canonicalOrder.mp hp)
    rw [jsonForm, canonicalize, canonicalize, jsonForm, canonicalizeFields_jsonFields,
      jsonFields_eq_map (canonicalOrder _), hpresent, ← canonicalOrder_map]

theorem canonicalizeItems_jsonItems : ∀ items : List JsValue,
    canonicalizeItems (jsonItems items) = jsonItems (canonicalizeItems items)
  | [] => rfl
  | v :: rest => by
    rw [jsonItems, canonicalizeItems, canonicalizeItems, jsonItems, canonicalize_jsonForm,
      canonicalizeItems_jsonItems]

theorem canonicalizeFields_jsonFields : ∀ fields : List (String × JsValue),
    canonicalizeFields (jsonFields fields)
      = (canonicalizeFields fields).map fun p ↦ (p.1, p.2.jsonForm)
  | [] => rfl
  | (k, v) :: rest => by
    by_cases h : v = undefined
    · rw [h, jsonFields, canonicalizeFields, canonicalizeFields_jsonFields]
    · rw [jsonFields_cons h, canonicalizeFields_cons (jsonForm_ne_undefined v),
        canonicalizeFields_cons h, List.map_cons, canonicalize_jsonForm,
        canonicalizeFields_jsonFields]

end

mutual

theorem canonicalize_canonicalize {double : String → String} : ∀ v : JsValue, v.IsValue double →
    v.canonicalize.canonicalize = v.canonicalize
  | undefined, _ => rfl
  | null, _ => rfl
  | bool _, _ => rfl
  | num _, _ => rfl
  | str _, _ => rfl
  | arr items, h => by
    rw [canonicalize, canonicalize, canonicalizeItems_canonicalizeItems items h]
  | obj fields, h => by
    have hnames := nodup_canonicalizeFields h.2
    rw [canonicalize, canonicalize, canonicalizeFields_eq_map (canonicalOrder _),
      present_eq_self fun p hp ↦
        ne_undefined_of_mem_canonicalizeFields (mem_canonicalOrder.mp hp),
      ← canonicalOrder_map, canonicalizeFields_canonicalizeFields fields h.1,
      canonicalOrder_canonicalOrder hnames]

theorem canonicalizeItems_canonicalizeItems {double : String → String} : ∀ items : List JsValue,
    AreValues double items → canonicalizeItems (canonicalizeItems items) = canonicalizeItems items
  | [], _ => rfl
  | v :: rest, h => by
    rw [canonicalizeItems, canonicalizeItems, canonicalize_canonicalize v h.1,
      canonicalizeItems_canonicalizeItems rest h.2]

theorem canonicalizeFields_canonicalizeFields {double : String → String} :
    ∀ fields : List (String × JsValue), FieldsAreValues double fields →
      (canonicalizeFields fields).map (fun p ↦ (p.1, p.2.canonicalize))
        = canonicalizeFields fields
  | [], _ => rfl
  | (k, v) :: rest, h => by
    by_cases hv : v = undefined
    · rw [hv, canonicalizeFields, canonicalizeFields_canonicalizeFields rest h.2]
    · rw [canonicalizeFields_cons hv, List.map_cons, canonicalize_canonicalize v h.1,
        canonicalizeFields_canonicalizeFields rest h.2]

end

mutual

theorem readable_jsonForm {double : String → String} : ∀ v : JsValue, v.IsValue double →
    v.canonicalize.jsonForm.Readable double
  | undefined, _ => trivial
  | null, _ => trivial
  | bool _, _ => trivial
  | num t, h => by
    have hnum : (num t).canonicalize = num t := rfl
    rw [hnum, jsonForm]
    split
    · rename_i hfinite
      rcases h with h | h
      · exact absurd hfinite h
      · exact h
    · trivial
  | str _, _ => trivial
  | arr items, h => readableItems_jsonItems items h
  | obj fields, h => by
    have hnames := nodup_canonicalizeFields h.2
    rw [canonicalize, jsonForm, jsonFields_eq_map (canonicalOrder _),
      present_eq_self fun p hp ↦
        ne_undefined_of_mem_canonicalizeFields (mem_canonicalOrder.mp hp), ← canonicalOrder_map]
    refine ⟨?_, objectOf_canonicalOrder (by rw [List.map_map]; exact hnames)⟩
    refine readableFields_iff.mpr fun p hp ↦ ?_
    exact readableFields_iff.mp (readableFields_jsonForm fields h.1) p (mem_canonicalOrder.mp hp)

theorem readableItems_jsonItems {double : String → String} : ∀ items : List JsValue,
    AreValues double items → ReadableItems double (jsonItems (canonicalizeItems items))
  | [], _ => trivial
  | v :: rest, h => ⟨readable_jsonForm v h.1, readableItems_jsonItems rest h.2⟩

theorem readableFields_jsonForm {double : String → String} :
    ∀ fields : List (String × JsValue), FieldsAreValues double fields →
      ReadableFields double ((canonicalizeFields fields).map fun p ↦ (p.1, p.2.jsonForm))
  | [], _ => trivial
  | (k, v) :: rest, h => by
    by_cases hv : v = undefined
    · rw [hv, canonicalizeFields]
      exact readableFields_jsonForm rest h.2
    · rw [canonicalizeFields_cons hv, List.map_cons]
      exact ⟨readable_jsonForm v h.1, readableFields_jsonForm rest h.2⟩

end

/-- **The canonical text of a value reads back as the JSON form of its canonical form.** -/
theorem parse_canonicalJson {double : String → String} {v : JsValue} (h : v.IsValue double) :
    JsonText.parse double v.canonicalJson = some v.canonicalize.jsonForm := by
  rw [canonicalJson, ← chars_jsonForm]
  exact JsonText.parse_of_readable 2 (readable_jsonForm v h) (by simp [JsonText.isSpace])

/-- Reading the canonical text back and writing it again gives the same text. -/
theorem canonicalJson_jsonForm {double : String → String} {v : JsValue} (h : v.IsValue double) :
    v.canonicalize.jsonForm.canonicalJson = v.canonicalJson := by
  rw [canonicalJson, canonicalJson, canonicalize_jsonForm, canonicalize_canonicalize v h,
    chars_jsonForm]

/-- Writing a value or its JSON form gives the same text. -/
theorem canonicalJson_of_jsonForm (v : JsValue) : v.jsonForm.canonicalJson = v.canonicalJson := by
  rw [canonicalJson, canonicalJson, canonicalize_jsonForm, chars_jsonForm]

/-! ## Reading a value back -/

/-- What the canonical text of a value reads back as. -/
def reread (v : JsValue) : JsValue := v.canonicalize.jsonForm

theorem reread_int (n : ℤ) : (int n).reread = int n := by
  have hnum : (int n).canonicalize = num (toString n) := rfl
  rw [reread, hnum, jsonForm, if_pos (JsonText.numberText_toString n)]
  rfl

theorem reread_str (s : String) : (str s).reread = str s := rfl

theorem reread_arr (items : List JsValue) : (arr items).reread = arr (items.map reread) := by
  have hitems : ∀ items : List JsValue, jsonItems (canonicalizeItems items) = items.map reread := by
    intro items
    induction items with
    | nil => rfl
    | cons v rest ih => rw [canonicalizeItems, jsonItems, ih, List.map_cons, reread]
  rw [reread, canonicalize, jsonForm, hitems]

/-- The fields of an object that was read back, in the order of its text. -/
theorem reread_obj (fields : List (String × JsValue)) :
    (obj fields).reread = obj (canonicalOrder ((present fields).map fun p ↦ (p.1, p.2.reread))) := by
  have hfields : (canonicalizeFields fields).map (fun p ↦ (p.1, p.2.jsonForm))
      = (present fields).map fun p ↦ (p.1, p.2.reread) := by
    rw [canonicalizeFields_eq_map, List.map_map]
    rfl
  rw [reread, canonicalize, jsonForm, jsonFields_eq_map, present_eq_self fun p hp ↦
    ne_undefined_of_mem_canonicalizeFields (mem_canonicalOrder.mp hp), ← canonicalOrder_map, hfields]

/-- A field of an object whose names differ is found by its name. -/
theorem optional_of_mem {fields : List (String × JsValue)} (hnames : (fields.map Prod.fst).Nodup)
    {k : String} {v : JsValue} (h : (k, v) ∈ fields) : (obj fields).optional k = v := by
  have hfind : fields.find? (fun p ↦ p.1 = k) = some (k, v) := by
    obtain ⟨before, after, rfl⟩ := List.append_of_mem h
    rw [List.map_append, List.map_cons, List.nodup_append] at hnames
    refine List.find?_eq_some_iff_append.mpr
      ⟨decide_eq_true rfl, before, after, rfl, fun p hp ↦ ?_⟩
    have hne := hnames.2.2 p.1 (List.mem_map_of_mem hp) k List.mem_cons_self
    rw [Bool.not_eq_true', decide_eq_false_iff_not]
    exact hne
  rw [optional, hfind]
  rfl

/-- A field of an object that was read back is the field read back. -/
theorem optional_reread {fields : List (String × JsValue)} (hnames : (fields.map Prod.fst).Nodup)
    {k : String} {v : JsValue} (h : (k, v) ∈ fields) (hv : v ≠ undefined) :
    (obj fields).reread.optional k = v.reread := by
  rw [reread_obj]
  refine optional_of_mem ?_ (mem_canonicalOrder.mpr (List.mem_map.mpr ⟨(k, v), ?_, rfl⟩))
  · rw [((perm_canonicalOrder _).map Prod.fst).nodup_iff, List.map_map]
    exact hnames.sublist (List.filter_sublist.map Prod.fst)
  · refine List.mem_filter.mpr ⟨h, ?_⟩
    rw [Bool.not_eq_true', Bool.eq_false_iff]
    exact fun hundefined ↦ hv (isUndefined_iff.mp hundefined)

theorem exists_obj_of_isObject {v : JsValue} (h : v.isObject = true) : ∃ fields, v = obj fields := by
  rcases v with _ | _ | _ | _ | _ | _ | fields
  case obj => exact ⟨fields, rfl⟩
  all_goals cases h

theorem isObject_reread {v : JsValue} (h : v.isObject = true) : v.reread.isObject = true := by
  obtain ⟨fields, rfl⟩ := exists_obj_of_isObject h
  rw [reread_obj]
  rfl

/-! ## Values inside values -/

theorem areValues_iff {double : String → String} {items : List JsValue} :
    AreValues double items ↔ ∀ v ∈ items, v.IsValue double := by
  induction items with
  | nil => simp [AreValues]
  | cons v rest ih => rw [AreValues, List.forall_mem_cons, ih]

theorem fieldsAreValues_iff {double : String → String} {fields : List (String × JsValue)} :
    FieldsAreValues double fields ↔ ∀ p ∈ fields, p.2.IsValue double := by
  induction fields with
  | nil => simp [FieldsAreValues]
  | cons p rest ih => rw [FieldsAreValues, List.forall_mem_cons, ih]

theorem isValue_int (double : String → String) {n : ℤ} (h : (n.natAbs : ℤ) ≤ maxSafeInteger) :
    (int n).IsValue double :=
  Or.inr ⟨JsonText.readNumber_toString double h, fun _ ↦ JsonText.isNumberChar_of_mem_toString⟩

theorem isValue_optional {double : String → String} {v : JsValue} (h : v.IsValue double)
    (k : String) : (v.optional k).IsValue double := by
  rcases v with _ | _ | _ | _ | _ | _ | fields
  case obj =>
    rw [optional]
    rcases hfind : fields.find? fun p ↦ p.1 = k with _ | p
    · rw [hfind]
      trivial
    · rw [hfind]
      exact fieldsAreValues_iff.mp h.1 p (List.mem_of_find?_eq_some hfind)
  all_goals trivial

mutual

theorem isValue_canonicalize {double : String → String} : ∀ v : JsValue, v.IsValue double →
    v.canonicalize.IsValue double
  | undefined, _ => trivial
  | null, _ => trivial
  | bool _, _ => trivial
  | num _, h => h
  | str _, _ => trivial
  | arr items, h => by
    rw [canonicalize]
    exact areValues_canonicalizeItems items h
  | obj fields, h => by
    rw [canonicalize]
    refine ⟨fieldsAreValues_iff.mpr fun p hp ↦ ?_,
      ((perm_canonicalOrder _).map Prod.fst).nodup_iff.mpr (nodup_canonicalizeFields h.2)⟩
    exact fieldsAreValues_iff.mp (fieldsAreValues_canonicalizeFields fields h.1) p
      (mem_canonicalOrder.mp hp)

theorem areValues_canonicalizeItems {double : String → String} : ∀ items : List JsValue,
    AreValues double items → AreValues double (canonicalizeItems items)
  | [], _ => trivial
  | v :: rest, h => ⟨isValue_canonicalize v h.1, areValues_canonicalizeItems rest h.2⟩

theorem fieldsAreValues_canonicalizeFields {double : String → String} :
    ∀ fields : List (String × JsValue), FieldsAreValues double fields →
      FieldsAreValues double (canonicalizeFields fields)
  | [], _ => trivial
  | (k, v) :: rest, h => by
    by_cases hv : v = undefined
    · rw [hv, canonicalizeFields]
      exact fieldsAreValues_canonicalizeFields rest h.2
    · rw [canonicalizeFields_cons hv]
      exact ⟨isValue_canonicalize v h.1, fieldsAreValues_canonicalizeFields rest h.2⟩

end

end JsValue

end UkAqOps

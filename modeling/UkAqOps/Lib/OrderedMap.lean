import Mathlib.Data.List.Nodup
import Mathlib.Data.List.Induction

/-!
# Insertion-ordered maps

A finite map that remembers the order in which its keys were first written, as the `Map` of
JavaScript does: writing a key that is present keeps its position and replaces its value, writing
a new key appends it, and deleting a key forgets its position.

The key list is duplicate free by construction, so a map is determined by its entries and every
lookup lemma below is unconditional.
-/

namespace OrderedMap

/-! ## Writing into an association list -/

section Entries

variable {κ υ : Type*} [DecidableEq κ]

/-- Replace the value of `k` in place, or append the pair when `k` is new. -/
def setEntries : List (κ × υ) → κ → υ → List (κ × υ)
  | [], k, v => [(k, v)]
  | (k', v') :: rest, k, v =>
    if k' = k then (k, v) :: rest else (k', v') :: setEntries rest k v

theorem keys_setEntries (l : List (κ × υ)) (k : κ) (v : υ) :
    (setEntries l k v).map Prod.fst
      = if k ∈ l.map Prod.fst then l.map Prod.fst else l.map Prod.fst ++ [k] := by
  induction l with
  | nil => simp [setEntries]
  | cons p rest ih =>
    rw [setEntries]
    by_cases hk : p.1 = k
    · simp [hk]
    · rw [if_neg hk, List.map_cons, ih]
      by_cases hmem : k ∈ rest.map Prod.fst
      · rw [if_pos hmem, if_pos (by simp only [List.map_cons, List.mem_cons, hmem, or_true])]
        rfl
      · have hk' : ¬k = p.1 := fun h ↦ hk h.symm
        rw [if_neg hmem, if_neg (by
          simp only [List.map_cons, List.mem_cons, hk', hmem, or_self, not_false_eq_true])]
        rfl

theorem mem_setEntries {l : List (κ × υ)} (hl : (l.map Prod.fst).Nodup) {k : κ} {v : υ}
    {p : κ × υ} : p ∈ setEntries l k v ↔ p = (k, v) ∨ (p ∈ l ∧ p.1 ≠ k) := by
  induction l with
  | nil => simp [setEntries]
  | cons q rest ih =>
    rw [List.map_cons, List.nodup_cons] at hl
    rw [setEntries]
    by_cases hk : q.1 = k
    · rw [if_pos hk]
      have hrest : ∀ r ∈ rest, r.1 ≠ k := fun r hr hrk ↦
        hl.1 (List.mem_map.mpr ⟨r, hr, by rw [hrk, hk]⟩)
      constructor
      · rintro (_ | ⟨_, hp⟩)
        · exact Or.inl rfl
        · exact Or.inr ⟨List.mem_cons_of_mem _ hp, hrest p hp⟩
      · rintro (rfl | ⟨hp, hne⟩)
        · exact List.mem_cons_self
        · rcases List.mem_cons.mp hp with rfl | hp
          · exact absurd hk hne
          · exact List.mem_cons_of_mem _ hp
    · rw [if_neg hk, List.mem_cons, ih hl.2, List.mem_cons]
      constructor
      · rintro (rfl | rfl | ⟨hp, hne⟩)
        · exact Or.inr ⟨Or.inl rfl, hk⟩
        · exact Or.inl rfl
        · exact Or.inr ⟨Or.inr hp, hne⟩
      · rintro (rfl | ⟨rfl | hp, hne⟩)
        · exact Or.inr (Or.inl rfl)
        · exact Or.inl rfl
        · exact Or.inr (Or.inr ⟨hp, hne⟩)

/-- Writing under a key leaves the other entries in their places. -/
theorem filter_setEntries (l : List (κ × υ)) (k : κ) (v : υ) :
    (setEntries l k v).filter (fun p ↦ p.1 ≠ k) = l.filter fun p ↦ p.1 ≠ k := by
  induction l with
  | nil => simp [setEntries]
  | cons p rest ih =>
    rw [setEntries]
    by_cases hk : p.1 = k
    · simp [hk]
    · rw [if_neg hk, List.filter_cons, List.filter_cons, ih]

end Entries

end OrderedMap

/-- A map that keeps its entries in the order in which their keys were first written. -/
structure OrderedMap (κ : Type*) (υ : Type*) where
  /-- The entries, oldest key first. -/
  entries : List (κ × υ)
  /-- No key occurs twice. -/
  nodup_keys : (entries.map Prod.fst).Nodup

namespace OrderedMap

variable {κ υ : Type*}

@[ext] theorem ext {m m' : OrderedMap κ υ} (h : m.entries = m'.entries) : m = m' := by
  cases m; cases m'; cases h; rfl

/-! ## The operations -/

/-- The map without entries. -/
def empty : OrderedMap κ υ := ⟨[], List.nodup_nil⟩

/-- The keys, oldest first. -/
def keys (m : OrderedMap κ υ) : List κ := m.entries.map Prod.fst

/-- The values, in key order. -/
def values (m : OrderedMap κ υ) : List υ := m.entries.map Prod.snd

/-- The number of keys. -/
def size (m : OrderedMap κ υ) : ℕ := m.entries.length

/-- Replace every value, in place. -/
def mapValues (m : OrderedMap κ υ) (f : υ → υ) : OrderedMap κ υ where
  entries := m.entries.map fun p ↦ (p.1, f p.2)
  nodup_keys := by
    rw [List.map_map]
    exact m.nodup_keys

@[simp] theorem keys_mapValues (m : OrderedMap κ υ) (f : υ → υ) :
    (m.mapValues f).keys = m.keys := by
  rw [keys, mapValues, List.map_map]
  rfl

variable [DecidableEq κ]

/-- The value written last under `k`. -/
def get? (m : OrderedMap κ υ) (k : κ) : Option υ :=
  (m.entries.find? fun p ↦ p.1 = k).map Prod.snd

/-- Write `v` under `k`. -/
def set (m : OrderedMap κ υ) (k : κ) (v : υ) : OrderedMap κ υ where
  entries := setEntries m.entries k v
  nodup_keys := by
    rw [keys_setEntries]
    by_cases hk : k ∈ m.entries.map Prod.fst
    · rw [if_pos hk]
      exact m.nodup_keys
    · rw [if_neg hk]
      exact List.nodup_append.mpr ⟨m.nodup_keys, List.nodup_singleton k, fun a ha b hb hab ↦
        hk (by rw [← List.mem_singleton.mp hb, ← hab]; exact ha)⟩

/-- Forget `k`. -/
def delete (m : OrderedMap κ υ) (k : κ) : OrderedMap κ υ where
  entries := m.entries.filter fun p ↦ p.1 ≠ k
  nodup_keys := m.nodup_keys.sublist (List.filter_sublist.map Prod.fst)

/-- Forget the keys that `p` does not accept. -/
def filterKeys (m : OrderedMap κ υ) (p : κ → Bool) : OrderedMap κ υ where
  entries := m.entries.filter fun entry ↦ p entry.1
  nodup_keys := m.nodup_keys.sublist (List.filter_sublist.map Prod.fst)

/-- Write the pairs of a list, in order. -/
def ofList (l : List (κ × υ)) : OrderedMap κ υ :=
  l.foldl (fun m p ↦ m.set p.1 p.2) empty

/-! ## Lookup -/

omit [DecidableEq κ] in
theorem eq_of_mem_entries (m : OrderedMap κ υ) {k : κ} {v w : υ} (hv : (k, v) ∈ m.entries)
    (hw : (k, w) ∈ m.entries) : v = w :=
  congrArg Prod.snd (List.inj_on_of_nodup_map m.nodup_keys hv hw rfl)

theorem get?_eq_some_iff (m : OrderedMap κ υ) {k : κ} {v : υ} :
    m.get? k = some v ↔ (k, v) ∈ m.entries := by
  rw [get?, Option.map_eq_some_iff]
  constructor
  · rintro ⟨p, hp, rfl⟩
    have hk : p.1 = k := by simpa using List.find?_some hp
    rw [← hk]
    exact List.mem_of_find?_eq_some hp
  · intro h
    obtain ⟨p, hp⟩ := Option.isSome_iff_exists.mp
      (List.find?_isSome (p := fun p ↦ decide (p.1 = k)) |>.mpr ⟨(k, v), h, by simp⟩)
    have hk : p.1 = k := by simpa using List.find?_some hp
    refine ⟨p, hp, m.eq_of_mem_entries (k := k) ?_ h⟩
    rw [← hk]
    exact List.mem_of_find?_eq_some hp

theorem get?_isSome_iff (m : OrderedMap κ υ) {k : κ} : (m.get? k).isSome ↔ k ∈ m.keys := by
  rw [Option.isSome_iff_exists, keys, List.mem_map]
  constructor
  · rintro ⟨v, hv⟩
    exact ⟨(k, v), m.get?_eq_some_iff.mp hv, rfl⟩
  · rintro ⟨p, hp, rfl⟩
    exact ⟨p.2, m.get?_eq_some_iff.mpr hp⟩

theorem get?_eq_none_iff (m : OrderedMap κ υ) {k : κ} : m.get? k = none ↔ k ∉ m.keys := by
  rw [← get?_isSome_iff, Option.not_isSome_iff_eq_none]

omit [DecidableEq κ] in
theorem mem_values {m : OrderedMap κ υ} {v : υ} : v ∈ m.values ↔ ∃ k, (k, v) ∈ m.entries := by
  rw [values, List.mem_map]
  exact ⟨fun ⟨p, hp, h⟩ ↦ ⟨p.1, by rw [← h]; exact hp⟩, fun ⟨k, hk⟩ ↦ ⟨_, hk, rfl⟩⟩

@[simp] theorem get?_empty (k : κ) : (empty : OrderedMap κ υ).get? k = none := rfl

omit [DecidableEq κ] in
@[simp] theorem entries_empty : (empty : OrderedMap κ υ).entries = [] := rfl

theorem mem_entries_set {m : OrderedMap κ υ} {k : κ} {v : υ} {p : κ × υ} :
    p ∈ (m.set k v).entries ↔ p = (k, v) ∨ (p ∈ m.entries ∧ p.1 ≠ k) :=
  mem_setEntries m.nodup_keys

theorem get?_set (m : OrderedMap κ υ) (k : κ) (v : υ) (k' : κ) :
    (m.set k v).get? k' = if k' = k then some v else m.get? k' := by
  ext w
  rw [get?_eq_some_iff, mem_entries_set]
  by_cases hk : k' = k
  · rw [if_pos hk, hk]
    simp [eq_comm]
  · rw [if_neg hk, get?_eq_some_iff]
    simp [hk]

@[simp] theorem get?_set_self (m : OrderedMap κ υ) (k : κ) (v : υ) :
    (m.set k v).get? k = some v := by
  rw [get?_set, if_pos rfl]

theorem get?_set_of_ne (m : OrderedMap κ υ) {k k' : κ} (v : υ) (h : k' ≠ k) :
    (m.set k v).get? k' = m.get? k' := by
  rw [get?_set, if_neg h]

theorem keys_set (m : OrderedMap κ υ) (k : κ) (v : υ) :
    (m.set k v).keys = if k ∈ m.keys then m.keys else m.keys ++ [k] :=
  keys_setEntries m.entries k v

theorem mem_keys_set {m : OrderedMap κ υ} {k : κ} {v : υ} {k' : κ} :
    k' ∈ (m.set k v).keys ↔ k' = k ∨ k' ∈ m.keys := by
  rw [← get?_isSome_iff, ← get?_isSome_iff, get?_set]
  by_cases hk : k' = k <;> simp [hk]

theorem get?_delete (m : OrderedMap κ υ) (k k' : κ) :
    (m.delete k).get? k' = if k' = k then none else m.get? k' := by
  ext w
  rw [get?_eq_some_iff, delete]
  by_cases hk : k' = k
  · simp [hk]
  · rw [if_neg hk, get?_eq_some_iff]
    simp [hk]

theorem get?_filterKeys (m : OrderedMap κ υ) (p : κ → Bool) (k : κ) :
    (m.filterKeys p).get? k = if p k then m.get? k else none := by
  ext w
  rw [get?_eq_some_iff, filterKeys]
  by_cases hp : p k = true
  · rw [if_pos hp, get?_eq_some_iff]
    simp [hp]
  · simp [hp]

omit [DecidableEq κ] in
/-- Nothing is forgotten when as many keys are left. -/
theorem filterKeys_eq_self {m : OrderedMap κ υ} {p : κ → Bool}
    (h : (m.filterKeys p).size = m.size) : m.filterKeys p = m :=
  ext (List.filter_sublist.eq_of_length h)

theorem entries_set_of_notMem {m : OrderedMap κ υ} {k : κ} (v : υ) (hk : k ∉ m.keys) :
    (m.set k v).entries = m.entries ++ [(k, v)] := by
  have key : ∀ l : List (κ × υ), k ∉ l.map Prod.fst → setEntries l k v = l ++ [(k, v)] := by
    intro l
    induction l with
    | nil => intro _; rfl
    | cons p rest ih =>
      intro hl
      rw [List.map_cons, List.mem_cons, not_or] at hl
      rw [setEntries, if_neg (fun h ↦ hl.1 h.symm), ih hl.2, List.cons_append]
  exact key m.entries hk

theorem get?_mapValues (m : OrderedMap κ υ) (f : υ → υ) (k : κ) :
    (m.mapValues f).get? k = (m.get? k).map f := by
  ext w
  rw [get?_eq_some_iff, mapValues, List.mem_map, Option.map_eq_some_iff]
  constructor
  · rintro ⟨p, hp, heq⟩
    obtain ⟨rfl, rfl⟩ := Prod.mk.inj heq
    exact ⟨p.2, m.get?_eq_some_iff.mpr hp, rfl⟩
  · rintro ⟨v, hv, rfl⟩
    exact ⟨(k, v), m.get?_eq_some_iff.mp hv, rfl⟩

theorem size_set_of_notMem {m : OrderedMap κ υ} {k : κ} (v : υ) (hk : k ∉ m.keys) :
    (m.set k v).size = m.size + 1 := by
  rw [size, entries_set_of_notMem v hk, List.length_append, List.length_singleton, size]

theorem size_set_of_mem {m : OrderedMap κ υ} {k : κ} (v : υ) (hk : k ∈ m.keys) :
    (m.set k v).size = m.size := by
  have hkeys := congrArg List.length (keys_set m k v)
  rw [if_pos hk] at hkeys
  rwa [keys, keys, List.length_map, List.length_map] at hkeys

theorem size_delete_le (m : OrderedMap κ υ) (k : κ) : (m.delete k).size ≤ m.size :=
  List.length_filter_le _ _

/-! ## Folding a list of writes -/

/-- The value of `k` after the writes of `l` is the last one `l` gives it, and what it was before
when `l` gives it none. -/
theorem get?_foldl_set (l : List (κ × υ)) (m : OrderedMap κ υ) (k : κ) :
    (l.foldl (fun m p ↦ m.set p.1 p.2) m).get? k
      = ((l.reverse.find? fun p ↦ p.1 = k).map Prod.snd).or (m.get? k) := by
  induction l generalizing m with
  | nil => simp
  | cons p rest ih =>
    rw [List.foldl_cons, ih, List.reverse_cons, List.find?_append, get?_set]
    cases hfind : rest.reverse.find? fun q ↦ decide (q.1 = k) with
    | some q => simp
    | none =>
      by_cases hk : p.1 = k
      · simp [hk]
      · simp [hk, Ne.symm hk]

theorem get?_ofList (l : List (κ × υ)) (k : κ) :
    (ofList l).get? k = (l.reverse.find? fun p ↦ p.1 = k).map Prod.snd := by
  rw [ofList, get?_foldl_set, get?_empty, Option.or_none]

theorem mem_keys_foldl_set (l : List (κ × υ)) (m : OrderedMap κ υ) {k : κ} :
    k ∈ (l.foldl (fun m p ↦ m.set p.1 p.2) m).keys ↔ k ∈ l.map Prod.fst ∨ k ∈ m.keys := by
  induction l generalizing m with
  | nil => simp
  | cons p rest ih =>
    rw [List.foldl_cons, ih, mem_keys_set, List.map_cons, List.mem_cons]
    tauto

theorem mem_keys_ofList {l : List (κ × υ)} {k : κ} : k ∈ (ofList l).keys ↔ k ∈ l.map Prod.fst := by
  rw [ofList, mem_keys_foldl_set]
  simp [keys]

/-- Writing pairs with distinct keys into the empty map keeps the list. -/
theorem entries_ofList {l : List (κ × υ)} (h : (l.map Prod.fst).Nodup) :
    (ofList l).entries = l := by
  induction l using List.reverseRecOn with
  | nil => rfl
  | append_singleton l p ih =>
    rw [List.map_append, List.map_singleton, List.nodup_append] at h
    have hp : p.1 ∉ (ofList l).keys := fun hmem ↦
      h.2.2 _ (mem_keys_ofList.mp hmem) _ (List.mem_singleton_self _) rfl
    have hstep : ofList (l ++ [p]) = (ofList l).set p.1 p.2 := by
      rw [ofList, List.foldl_append, List.foldl_cons, List.foldl_nil, ← ofList]
    rw [hstep, entries_set_of_notMem _ hp, ih h.1]

/-! ## Collecting a list under keys -/

section Collect

variable {α : Type*}

/-- Go through a list and, for each element, rewrite what is stored under its key. -/
def collect (key : α → κ) (step : Option υ → α → υ) (l : List α) : OrderedMap κ υ :=
  l.foldl (fun m a ↦ m.set (key a) (step (m.get? (key a)) a)) empty

/-- What is stored under a key comes from the elements with that key alone. -/
theorem get?_collect (key : α → κ) (step : Option υ → α → υ) (l : List α) (k : κ) :
    (collect key step l).get? k
      = (l.filter fun a ↦ key a = k).foldl (fun acc a ↦ some (step acc a)) none := by
  induction l using List.reverseRecOn with
  | nil => rfl
  | append_singleton l a ih =>
    have hstep : collect key step (l ++ [a]) = (collect key step l).set (key a)
        (step ((collect key step l).get? (key a)) a) := by
      rw [collect, List.foldl_append, List.foldl_cons, List.foldl_nil, ← collect]
    rw [hstep, get?_set, List.filter_append, List.foldl_append]
    by_cases hk : k = key a
    · subst hk
      rw [if_pos rfl, ih]
      simp
    · rw [if_neg hk, ih]
      simp [Ne.symm hk]

theorem mem_values_collect {key : α → κ} {step : Option υ → α → υ} {l : List α} {v : υ} :
    v ∈ (collect key step l).values ↔
      ∃ k, (l.filter fun a ↦ key a = k).foldl (fun acc a ↦ some (step acc a)) none = some v := by
  rw [mem_values]
  refine exists_congr fun k ↦ ?_
  rw [← get?_eq_some_iff, get?_collect]

/-- If a step keeps the key that its element has, every value carries the key it is stored under. -/
theorem key_of_mem_collect {key : α → κ} {step : Option υ → α → υ} (keyOf : υ → κ)
    (h : ∀ acc a, (∀ v, acc = some v → keyOf v = key a) → keyOf (step acc a) = key a)
    {l : List α} {k : κ} {v : υ} (hv : (k, v) ∈ (collect key step l).entries) : keyOf v = k := by
  rw [← get?_eq_some_iff, get?_collect] at hv
  induction l using List.reverseRecOn generalizing v with
  | nil => cases hv
  | append_singleton l a ih =>
    rw [List.filter_append, List.foldl_append] at hv
    by_cases hk : key a = k
    · subst hk
      have hstep : step ((l.filter fun b ↦ key b = key a).foldl
          (fun acc b ↦ some (step acc b)) none) a = v := by simpa using hv
      rw [← hstep]
      exact h _ _ fun w hw ↦ ih hw
    · exact ih (by simpa [hk] using hv)

/-- The values then have pairwise distinct keys. -/
theorem pairwise_values_collect (key : α → κ) (step : Option υ → α → υ) (keyOf : υ → κ)
    (h : ∀ acc a, (∀ v, acc = some v → keyOf v = key a) → keyOf (step acc a) = key a)
    (l : List α) : (collect key step l).values.Pairwise fun v w ↦ keyOf v ≠ keyOf w := by
  rw [values, List.pairwise_map]
  refine (List.pairwise_map.mp (collect key step l).nodup_keys).imp_of_mem fun hp hq hne ↦ ?_
  rw [key_of_mem_collect keyOf h hp, key_of_mem_collect keyOf h hq]
  exact hne

/-- Elements with distinct keys are each stored on their own, in order. -/
theorem values_collect_of_nodup {key : α → κ} (step : Option υ → α → υ) {l : List α}
    (h : (l.map key).Nodup) : (collect key step l).values = l.map (step none) := by
  have hentries : (collect key step l).entries = l.map fun a ↦ (key a, step none a) := by
    induction l using List.reverseRecOn with
    | nil => rfl
    | append_singleton l a ih =>
      rw [List.map_append, List.map_singleton, List.nodup_append] at h
      have ih' := ih h.1
      have hkeys : (collect key step l).keys = l.map key := by
        rw [keys, ih', List.map_map]
        rfl
      have ha : key a ∉ (collect key step l).keys := fun hmem ↦
        h.2.2 _ (by rw [← hkeys]; exact hmem) _ (List.mem_singleton_self _) rfl
      have hstep : collect key step (l ++ [a]) = (collect key step l).set (key a)
          (step ((collect key step l).get? (key a)) a) := by
        rw [collect, List.foldl_append, List.foldl_cons, List.foldl_nil, ← collect]
      rw [hstep, entries_set_of_notMem _ ha, ih', (get?_eq_none_iff _).mpr ha, List.map_append,
        List.map_singleton]
  rw [values, hentries, List.map_map]
  rfl

/-- The groups of a list by a key, each in the order of the list. -/
def groupBy (key : α → κ) (l : List α) : OrderedMap κ (List α) :=
  collect key (fun group a ↦ group.getD [] ++ [a]) l

omit [DecidableEq κ] in
theorem foldl_append_eq (l : List α) :
    l.foldl (fun acc a ↦ some (acc.getD [] ++ [a])) none = if l = [] then none else some l := by
  induction l using List.reverseRecOn with
  | nil => rfl
  | append_singleton l a ih =>
    rw [List.foldl_append, ih]
    by_cases hl : l = []
    · rw [if_pos hl, hl]
      rfl
    · rw [if_neg hl, if_neg (List.append_ne_nil_of_right_ne_nil _ (List.cons_ne_nil _ _))]
      rfl

/-- The group of a key is the sublist of the elements that have it. -/
theorem get?_groupBy (key : α → κ) (l : List α) (k : κ) :
    (groupBy key l).get? k =
      if l.filter (fun a ↦ key a = k) = [] then none else some (l.filter fun a ↦ key a = k) := by
  rw [groupBy, get?_collect, foldl_append_eq]

theorem mem_keys_groupBy {key : α → κ} {l : List α} {k : κ} :
    k ∈ (groupBy key l).keys ↔ ∃ a ∈ l, key a = k := by
  rw [← get?_isSome_iff, get?_groupBy, ← not_iff_not]
  by_cases hnil : l.filter (fun a ↦ key a = k) = []
  · rw [if_pos hnil]
    simpa [List.filter_eq_nil_iff] using hnil
  · rw [if_neg hnil]
    simpa [List.filter_eq_nil_iff] using hnil

end Collect

end OrderedMap

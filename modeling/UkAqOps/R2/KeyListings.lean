import Mathlib.Data.List.GetD
import Mathlib.Data.List.Nodup
import Mathlib.Data.Option.Basic
import UkAqOps.R2.DeleteAnswers

/-!
# Listings of a store

A store answers the listing of a prefix page by page, and takes its own tokens back. The client lists
the places of the pages that it is sent to, which are all of them in order where no token is changed
on its way.
-/

namespace UkAqOps.R2

/-! ## Stores -/

/-- The keys of a store, and how it writes a listing: its pages are as long as the client asks for
and the store allows, and each place behind the first one of a prefix has a token. -/
structure Store where
  keys : List String
  nodup : keys.Nodup
  nonempty : ∀ key ∈ keys, key ≠ ""
  cap : ℕ
  cap_pos : 0 < cap
  token : String → ℕ → String
  token_ne : ∀ keyPrefix i, token keyPrefix i ≠ ""
  token_injective : ∀ keyPrefix, Function.Injective (token keyPrefix)
  layout : ListRequest → PageLayout

namespace Store

/-- The keys with a prefix. -/
def under (store : Store) (keyPrefix : String) : List String :=
  store.keys.filter fun key ↦ keyPrefix.toList <+: key.toList

/-- The place that a request starts from. -/
def place (store : Store) (keyPrefix : String) : Option String → Option ℕ
  | none => some 0
  | some token => (List.range (store.under keyPrefix).length).find? fun i ↦
      0 < i ∧ store.token keyPrefix i = token

def listing (store : Store) : ListService := fun request ↦
  (store.place request.keyPrefix request.continuationToken).map fun i ↦
    let rest := (store.under request.keyPrefix).drop i
    let size := min request.maxKeys store.cap
    pageXml (store.layout request) (rest.take size)
      (if rest.length ≤ size then none else some (store.token request.keyPrefix (i + size)))

/-- The places of the pages that a listing goes through from one of them on. -/
def places (store : Store) (keyPrefix : String) (size : ℕ) : ℕ → ℕ → Option (List ℕ)
  | 0, _ => none
  | turns + 1, i =>
    if (store.under keyPrefix).length ≤ i + size then some [i]
    else do
      let next ← store.place keyPrefix (some (listedText (store.token keyPrefix (i + size))))
      let later ← store.places keyPrefix size turns next
      return i :: later

end Store

/-! ## Texts that the client changes -/

theorem listedText_eq_self_iff {text : String} :
    listedText text = text ↔ apostrophe ∉ text.toList := by
  constructor
  · intro h hmem
    have hlength := congrArg (fun text ↦ text.toList.length) h
    rw [listedText] at hlength
    simp only [String.toList_ofList, length_listed] at hlength
    have hcount : 0 < text.toList.countP (· = apostrophe) :=
      List.countP_pos_iff.mpr ⟨apostrophe, hmem, decide_eq_true rfl⟩
    omega
  · intro h
    rw [listedText, listed_eq_self h, String.ofList_toList]

theorem apostrophe_free_listedText (text : String) : apostrophe ∉ (listedText text).toList := by
  rw [listedText, String.toList_ofList, listed]
  intro hmem
  obtain ⟨c, -, hmem⟩ := List.mem_flatMap.mp hmem
  split at hmem
  · exact absurd hmem (by decide)
  · rename_i hc
    exact hc (List.mem_singleton.mp hmem).symm

theorem listedText_listedText (text : String) : listedText (listedText text) = listedText text :=
  listedText_eq_self_iff.mpr (apostrophe_free_listedText text)

/-! ## The places of a listing -/

namespace Store

section Listings

variable {store : Store} {keyPrefix : String} {maxKeys size turns i j : ℕ} {visited : List ℕ}

theorem nodup_under (store : Store) (keyPrefix : String) : (store.under keyPrefix).Nodup :=
  store.nodup.filter _

theorem place_some_iff {token : String} : store.place keyPrefix (some token) = some i ↔
    0 < i ∧ i < (store.under keyPrefix).length ∧ store.token keyPrefix i = token := by
  constructor
  · intro h
    have hmem := List.mem_range.mp (List.mem_of_find?_eq_some h)
    have hplace : 0 < i ∧ store.token keyPrefix i = token := by
      simpa using List.find?_some h
    exact ⟨hplace.1, hmem, hplace.2⟩
  · rintro ⟨hpos, hlt, htoken⟩
    rcases hfind : store.place keyPrefix (some token) with _ | j
    · have hnone := List.find?_eq_none.mp hfind i (List.mem_range.mpr hlt)
      exact absurd (decide_eq_true ⟨hpos, htoken⟩) hnone
    · have hplace : 0 < j ∧ store.token keyPrefix j = token := by
        simpa using List.find?_some hfind
      rw [store.token_injective keyPrefix (hplace.2.trans htoken.symm)]

/-- A token that the store does not know ends a listing with an error. -/
theorem listing_of_unknown {token : Option String} (h : store.place keyPrefix token = none) :
    r2ListAllObjects store.listing keyPrefix maxKeys turns token = none := by
  rcases turns with _ | turns
  · rfl
  · rw [r2ListAllObjects, listing, h]
    rfl

/-- **The keys that a listing finds** are those at the places it goes through. -/
theorem keys_of_listing (store : Store) (keyPrefix : String) (maxKeys turns : ℕ)
    {token : Option String} (hplace : store.place keyPrefix token = some i) :
    (r2ListAllObjects store.listing keyPrefix maxKeys turns token).map
        (·.map ListedObject.key)
      = (store.places keyPrefix (min maxKeys store.cap) turns i).map fun visited ↦
          visited.flatMap fun i ↦
            (((store.under keyPrefix).drop i).take (min maxKeys store.cap)).map listedText := by
  induction turns generalizing token i with
  | zero => rfl
  | succ turns ih =>
    set size := min maxKeys store.cap with hsize
    have hkeys : ∀ key ∈ ((store.under keyPrefix).drop i).take size, key ≠ "" := fun key hmem ↦
      store.nonempty key (List.mem_of_mem_filter (List.mem_of_mem_drop (List.mem_of_mem_take hmem)))
    have hlist : store.listing ⟨keyPrefix, token, maxKeys⟩
        = some (pageXml (store.layout ⟨keyPrefix, token, maxKeys⟩)
          (((store.under keyPrefix).drop i).take size)
          (if (store.under keyPrefix).length ≤ i + size then none
            else some (store.token keyPrefix (i + size)))) := by
      have hrest : ((store.under keyPrefix).drop i).length ≤ size ↔
          (store.under keyPrefix).length ≤ i + size := by
        rw [List.length_drop]
        omega
      rw [listing]
      simp only [hplace, Option.map_some, hrest, ← hsize]
    rw [r2ListAllObjects, hlist, places]
    simp only [Option.bind_eq_bind, Option.bind_some]
    by_cases hlast : (store.under keyPrefix).length ≤ i + size
    · rw [if_pos hlast, if_pos hlast, nextToken_of_pageXml
        fun token hmem ↦ absurd hmem (Option.not_mem_none token)]
      simp only [Option.map_none, Option.pure_def, Option.map_some, List.flatMap_singleton,
        keys_of_pageXml hkeys]
    · have hnext : ∀ token ∈ some (store.token keyPrefix (i + size)), token ≠ "" := by
        intro token hmem
        rw [← Option.some.inj hmem]
        exact store.token_ne _ _
      rw [if_neg hlast, if_neg hlast, nextToken_of_pageXml hnext]
      simp only [Option.map_some]
      rcases hplace' : store.place keyPrefix
        (some (listedText (store.token keyPrefix (i + size)))) with _ | j
      · rw [listing_of_unknown hplace']
        rfl
      · have hlater := ih hplace'
        rcases hrun : r2ListAllObjects store.listing keyPrefix maxKeys turns
          (some (listedText (store.token keyPrefix (i + size)))) with _ | later
        · rw [hrun, Option.map_none] at hlater
          rw [Option.bind_some, Option.map_eq_none_iff.mp hlater.symm]
          rfl
        · rw [hrun, Option.map_some] at hlater
          obtain ⟨visited, hvisited, hlater⟩ := Option.map_eq_some_iff.mp hlater.symm
          rw [Option.bind_some, Option.bind_some, hvisited]
          simp only [Option.bind_some, Option.pure_def, Option.map_some, List.map_append,
            keys_of_pageXml hkeys, List.flatMap_cons, hlater]

/-- **Where no token is changed**, a listing goes through all places in order. -/
theorem places_of_plain (hsize : 0 < size)
    (htokens : ∀ i, 0 < i → i < (store.under keyPrefix).length →
      apostrophe ∉ (store.token keyPrefix i).toList)
    (hturns : 0 < turns) (hlength : (store.under keyPrefix).length ≤ i + turns) :
    ∃ visited, store.places keyPrefix size turns i = some visited ∧
      (visited.flatMap fun i ↦ ((store.under keyPrefix).drop i).take size)
        = (store.under keyPrefix).drop i := by
  induction turns generalizing i with
  | zero => exact absurd hturns (lt_irrefl 0)
  | succ turns ih =>
    rw [places]
    by_cases hlast : (store.under keyPrefix).length ≤ i + size
    · refine ⟨[i], by rw [if_pos hlast], ?_⟩
      rw [List.flatMap_singleton, List.take_of_length_le (by rw [List.length_drop]; omega)]
    · have hplace : store.place keyPrefix (some (listedText (store.token keyPrefix (i + size))))
          = some (i + size) := by
        rw [listedText_eq_self_iff.mpr (htokens (i + size) (by omega) (by omega))]
        exact place_some_iff.mpr ⟨by omega, by omega, rfl⟩
      obtain ⟨visited, hvisited, hall⟩ := ih (by omega) (show _ ≤ i + size + turns by omega)
      refine ⟨i :: visited, ?_, ?_⟩
      · rw [if_neg hlast, hplace]
        simp only [Option.bind_eq_bind, Option.bind_some, hvisited]
        rfl
      · rw [List.flatMap_cons, hall, ← List.drop_drop, List.take_append_drop]

/-- Every place but the last leads to the next one. -/
theorem places_spec (h : store.places keyPrefix size turns i = some visited) :
    ∃ front last, visited = front ++ [last] ∧ (store.under keyPrefix).length ≤ last + size ∧
      front.map (fun j ↦ store.place keyPrefix (some (listedText (store.token keyPrefix (j + size)))))
        = visited.tail.map some ∧ visited.head? = some i := by
  induction turns generalizing i visited with
  | zero => exact nomatch h
  | succ turns ih =>
    rw [places] at h
    split at h
    · rename_i hlast
      obtain rfl := Option.some.inj h
      exact ⟨[], i, rfl, hlast, rfl, rfl⟩
    · obtain ⟨next, hnext, h⟩ := Option.bind_eq_some_iff.mp h
      obtain ⟨later, hlater, h⟩ := Option.bind_eq_some_iff.mp h
      obtain rfl := Option.some.inj h
      obtain ⟨front, last, hfront, hlast, hmap, hhead⟩ := ih hlater
      refine ⟨i :: front, last, by rw [hfront]; rfl, hlast, ?_, rfl⟩
      rw [List.map_cons, hmap, hnext, List.tail_cons]
      obtain ⟨rest, rfl⟩ := List.head?_eq_some_iff.mp hhead
      rfl

theorem places_lt (h : store.places keyPrefix size turns i = some visited)
    (hi : i < (store.under keyPrefix).length) : ∀ j ∈ visited, j < (store.under keyPrefix).length := by
  obtain ⟨front, last, -, -, hmap, hhead⟩ := places_spec h
  obtain ⟨rest, rfl⟩ := List.head?_eq_some_iff.mp hhead
  intro j hmem
  rcases List.mem_cons.mp hmem with rfl | hmem
  · exact hi
  · have hsome : some j ∈ front.map fun j ↦
        store.place keyPrefix (some (listedText (store.token keyPrefix (j + size)))) := by
      rw [hmap]
      exact List.mem_map_of_mem hmem
    obtain ⟨j', -, hplace⟩ := List.mem_map.mp hsome
    exact (place_some_iff.mp hplace).2.1

/-- **Where a listing of single keys finds each of them once**, no token is changed: two places
would lead to the one that a changed token stands for. -/
theorem plain_of_places (h : store.places keyPrefix 1 turns 0 = some visited)
    (hperm : (visited.flatMap fun i ↦ ((store.under keyPrefix).drop i).take 1).Perm
      (store.under keyPrefix))
    (hpos : 0 < i) (hlt : i < (store.under keyPrefix).length) :
    apostrophe ∉ (store.token keyPrefix i).toList := by
  have hvisited : ∀ j ∈ visited, j < (store.under keyPrefix).length := places_lt h (by omega)
  have hkeys : (visited.flatMap fun i ↦ ((store.under keyPrefix).drop i).take 1)
      = visited.map fun i ↦ (store.under keyPrefix).getD i "" := by
    rw [List.map_eq_flatMap]
    refine List.flatMap_congr fun j hmem ↦ ?_
    rw [List.drop_eq_getElem_cons (hvisited j hmem), List.take_succ_cons, List.take_zero,
      List.getD_eq_getElem _ _ (hvisited j hmem)]
  rw [hkeys] at hperm
  have hnodup : visited.Nodup := (hperm.nodup_iff.mpr (store.nodup_under keyPrefix)).of_map
  have hall : ∀ j < (store.under keyPrefix).length, j ∈ visited := by
    intro j hj
    have hmem := hperm.mem_iff.mpr (List.getElem_mem hj)
    obtain ⟨j', hmem', heq⟩ := List.mem_map.mp hmem
    rw [List.getD_eq_getElem _ _ (hvisited j' hmem')] at heq
    rwa [← (store.nodup_under keyPrefix).getElem_inj_iff.mp heq]
  obtain ⟨front, last, hfront, hlast, hmap, -⟩ := places_spec h
  have hmem : ∀ j, j + 1 < (store.under keyPrefix).length → j ∈ front := by
    intro j hj
    have hj' := hall j (by omega)
    rw [hfront] at hj'
    rcases List.mem_append.mp hj' with hj' | hj'
    · exact hj'
    · rw [List.mem_singleton] at hj'
      omega
  have hinjective : ∀ j ∈ front, ∀ j' ∈ front,
      store.place keyPrefix (some (listedText (store.token keyPrefix (j + 1))))
        = store.place keyPrefix (some (listedText (store.token keyPrefix (j' + 1)))) → j = j' := by
    refine List.inj_on_of_nodup_map ?_
    rw [hmap]
    exact (hnodup.sublist (List.tail_sublist _)).map (Option.some_injective _)
  -- The place that the token of `i` is read as is the next one of two places.
  have hfirst := hmem (i - 1) (by omega)
  have hsome := List.mem_map_of_mem (f := fun j ↦
    store.place keyPrefix (some (listedText (store.token keyPrefix (j + 1))))) hfirst
  rw [hmap] at hsome
  obtain ⟨next, -, hnext⟩ := List.mem_map.mp hsome
  rw [show i - 1 + 1 = i by omega] at hnext
  obtain ⟨hpos', hlt', htoken⟩ := place_some_iff.mp hnext.symm
  have hsame := hinjective (i - 1) hfirst (next - 1) (hmem (next - 1) (by omega)) (by
    rw [show i - 1 + 1 = i by omega, show next - 1 + 1 = next by omega, htoken,
      listedText_listedText])
  rw [show next = i by omega] at htoken
  exact listedText_eq_self_iff.mp htoken.symm

end Listings

end Store

end UkAqOps.R2

import UkAqOps.R2.KeyListings

/-!
# One name for an object

The client names an object in three ways: by the key of a listing, by the path of a request, and by
the keys of a deletion and of its answer. They agree where no text has an apostrophe, no two keys
have the same parts once empty parts and dots are left out, and every error has a message.
-/

namespace UkAqOps.R2

open Scanning

/-- The name of a bucket stands in a path as it is. -/
structure BucketName where
  name : String
  unreserved : ∀ c ∈ name.toList, isUnreserved c = true
  dots : isDot name.toList = false ∧ isDots name.toList = false

/-- How a store answers a deletion: it reports each key that it finds in the body once. -/
structure Deletions where
  respond : List String → List Outcome
  reports : ∀ keys, ((respond keys).map Outcome.key).Perm keys
  codes : ∀ keys key message, Outcome.failed key "" message ∉ respond keys
  layout : AnswerLayout

def Deletions.service (deletions : Deletions) : List Char → Option (List Char) := fun body ↦
  some (answerXml deletions.layout (deletions.respond (bodyKeys body)))

/-- The keys that the client takes for deleted, and those of the errors. -/
def DeleteAnswer.keys (answer : DeleteAnswer) : List String :=
  answer.deletedKeys.getD [] ++ answer.errors.map DeleteError.key

/-- The three ways to name an object agree on the keys of a store and on those of a deletion. -/
structure NamesAgree (bucket : BucketName) (store : Store) (deletions : Deletions)
    (requested : List String) : Prop where
  listings : ∀ keyPrefix maxKeys, 0 < maxKeys → ∃ turns objects,
    r2ListAllObjects store.listing keyPrefix maxKeys turns none = some objects ∧
      (objects.map ListedObject.key).Perm (store.under keyPrefix)
  paths : ∀ key ∈ store.keys, ∀ key' ∈ store.keys,
    requestPath bucket.name key = requestPath bucket.name key' → key = key'
  bodies : bodyKeys (buildDeleteObjectsXml requested) = requested
  answers : ∃ answer, r2DeleteObjects deletions.service requested = some answer ∧
    answer.keys.Perm requested

/-- The parts of a path, without empty ones but for the last, and without dots. -/
def resolvedParts (bucket : BucketName) (key : String) : List (List Char) :=
  removeDots isDot isDots [] (bucket.name.toList :: keyParts key)

/-- The texts that every way to name an object leaves alone. -/
structure Harmless (bucket : BucketName) (store : Store) (deletions : Deletions)
    (requested : List String) : Prop where
  keys : ∀ key ∈ store.keys, apostrophe ∉ key.toList
  tokens : ∀ keyPrefix i, 0 < i → i < (store.under keyPrefix).length →
    apostrophe ∉ (store.token keyPrefix i).toList
  parts : ∀ key ∈ store.keys, ∀ key' ∈ store.keys,
    resolvedParts bucket key = resolvedParts bucket key' → key = key'
  requestedKeys : ∀ key ∈ requested, apostrophe ∉ key.toList
  messages : ∀ key code, Outcome.failed key code "" ∉ deletions.respond requested

/-! ## Listings -/

section Listings

variable {store : Store} {keyPrefix key : String} {maxKeys turns : ℕ} {objects : List ListedObject}

theorem map_listedText_of_plain {texts : List String} (h : ∀ text ∈ texts, apostrophe ∉ text.toList) :
    texts.map listedText = texts := by
  conv_rhs => rw [← List.map_id texts]
  exact List.map_congr_left fun text hmem ↦ listedText_eq_self_iff.mpr (h text hmem)

theorem plain_under (hkeys : ∀ key ∈ store.keys, apostrophe ∉ key.toList) :
    ∀ key ∈ store.under keyPrefix, apostrophe ∉ key.toList := fun key hmem ↦
  hkeys key (List.mem_of_mem_filter hmem)

/-- **A listing of a store without apostrophes** has the keys of the prefix in order. -/
theorem listing_of_plain (hkeys : ∀ key ∈ store.keys, apostrophe ∉ key.toList)
    (htokens : ∀ i, 0 < i → i < (store.under keyPrefix).length →
      apostrophe ∉ (store.token keyPrefix i).toList) (hmax : 0 < maxKeys) :
    ∃ turns objects, r2ListAllObjects store.listing keyPrefix maxKeys turns none = some objects ∧
      objects.map ListedObject.key = store.under keyPrefix := by
  obtain ⟨visited, hvisited, hall⟩ := Store.places_of_plain (i := 0)
    (lt_min hmax store.cap_pos) htokens (Nat.succ_pos (store.under keyPrefix).length) (by omega)
  have hlist := store.keys_of_listing keyPrefix maxKeys ((store.under keyPrefix).length + 1)
    (show store.place keyPrefix none = some 0 from rfl)
  rw [hvisited, Option.map_some, ← List.map_flatMap, hall, List.drop_zero,
    map_listedText_of_plain (plain_under hkeys)] at hlist
  obtain ⟨objects, hobjects, heq⟩ := Option.map_eq_some_iff.mp hlist
  exact ⟨_, objects, hobjects, heq⟩

/-- Every key of a listing is a text that the client has read. -/
theorem listed_of_listing
    (h : r2ListAllObjects store.listing keyPrefix maxKeys turns none = some objects) :
    ∃ visited, store.places keyPrefix (min maxKeys store.cap) turns 0 = some visited ∧
      objects.map ListedObject.key = (visited.flatMap fun i ↦
        ((store.under keyPrefix).drop i).take (min maxKeys store.cap)).map listedText := by
  have hlist := store.keys_of_listing keyPrefix maxKeys turns
    (show store.place keyPrefix none = some 0 from rfl)
  rw [h, Option.map_some] at hlist
  obtain ⟨visited, hvisited, heq⟩ := Option.map_eq_some_iff.mp hlist.symm
  exact ⟨visited, hvisited, by rw [← heq, List.map_flatMap]⟩

/-- A key with an apostrophe is in no listing. -/
theorem not_mem_listing (hkey : apostrophe ∈ key.toList)
    (h : r2ListAllObjects store.listing keyPrefix maxKeys turns none = some objects) :
    key ∉ objects.map ListedObject.key := by
  obtain ⟨visited, -, heq⟩ := listed_of_listing h
  rw [heq]
  intro hmem
  obtain ⟨text, -, rfl⟩ := List.mem_map.mp hmem
  exact apostrophe_free_listedText text hkey

/-- A listing of single keys that finds each of them shows that no token has an apostrophe. -/
theorem plain_of_listing (hkeys : ∀ key ∈ store.keys, apostrophe ∉ key.toList)
    (h : r2ListAllObjects store.listing keyPrefix 1 turns none = some objects)
    (hperm : (objects.map ListedObject.key).Perm (store.under keyPrefix)) {i : ℕ} (hpos : 0 < i)
    (hlt : i < (store.under keyPrefix).length) :
    apostrophe ∉ (store.token keyPrefix i).toList := by
  obtain ⟨visited, hvisited, heq⟩ := listed_of_listing h
  have hone : min 1 store.cap = 1 := min_eq_left store.cap_pos
  have hplain : ∀ key ∈ visited.flatMap fun i ↦ ((store.under keyPrefix).drop i).take 1,
      apostrophe ∉ key.toList := by
    intro key hmem
    obtain ⟨j, -, hmem⟩ := List.mem_flatMap.mp hmem
    exact plain_under hkeys key (List.mem_of_mem_drop (List.mem_of_mem_take hmem))
  rw [hone] at hvisited heq
  rw [heq, map_listedText_of_plain hplain] at hperm
  exact Store.plain_of_places hvisited hperm hpos hlt

end Listings

/-! ## Paths -/

section Paths

variable {bucket : BucketName} {key key' : String}

/-- **The path of a request** has the parts that are left of the key. -/
theorem requestPath_eq (bucket : BucketName) (key : String) :
    requestPath bucket.name key = joinPath ((resolvedParts bucket key).map encodeRfc3986) := by
  have hbucket : encodeRfc3986 bucket.name.toList = bucket.name.toList := by
    rw [encodeRfc3986_eq]
    conv_rhs => rw [← List.flatMap_singleton' bucket.name.toList]
    refine List.flatMap_congr fun c hmem ↦ ?_
    rw [encodeChar, if_pos (bucket.unreserved c hmem)]
  have hparts : bucket.name.toList :: (keyParts key).map encodeRfc3986
      = (bucket.name.toList :: keyParts key).map encodeRfc3986 := by
    rw [List.map_cons, hbucket]
  have hsplit : splitChars (fun c ↦ decide (c = '/' ∨ c = '\\'))
      ((canonicalUri bucket.name key).drop 1)
        = (bucket.name.toList :: keyParts key).map encodeRfc3986 := by
    rw [canonicalUri, hparts, joinPath, List.drop_one, List.tail_cons]
    refine splitChars_intercalate (by decide) (by simp) fun part hmem c hc ↦ decide_eq_false ?_
    obtain ⟨part, -, rfl⟩ := List.mem_map.mp hmem
    exact not_or.mpr (not_separator_of_mem_encode hc)
  have hdots := @removeDots_map isDot isDots isSingleDot isDoubleDot []
    (bucket.name.toList :: keyParts key) encodeRfc3986 rfl (fun part _ ↦ isSingleDot_encode part)
    fun part _ ↦ isDoubleDot_encode part
  rw [requestPath, urlPathname, hsplit]
  exact congrArg joinPath hdots

theorem requestPath_eq_iff : requestPath bucket.name key = requestPath bucket.name key' ↔
    resolvedParts bucket key = resolvedParts bucket key' := by
  constructor
  · intro h
    rw [requestPath_eq, requestPath_eq] at h
    have hne : ∀ key, (resolvedParts bucket key).map encodeRfc3986 ≠ [] := fun key hnil ↦
      removeDots_ne_nil (List.cons_ne_nil _ _) (List.map_eq_nil_iff.mp hnil)
    have hfree : ∀ key, ∀ part ∈ (resolvedParts bucket key).map encodeRfc3986, ∀ c ∈ part,
        c ≠ '/' := by
      intro key part hmem c hc
      obtain ⟨part, -, rfl⟩ := List.mem_map.mp hmem
      exact (not_separator_of_mem_encode hc).1
    have hmap := joinPath_injective (hne key) (hne key') (hfree key) (hfree key') h
    exact List.map_injective_iff.mpr (fun cs cs' ↦ encodeRfc3986_injective) hmap
  · intro h
    rw [requestPath_eq, requestPath_eq, h]

/-- A key without empty parts and dots. -/
def PlainParts (key : String) : Prop :=
  ∀ part ∈ splitChars (· = '/') key.toList, part ≠ [] ∧ isDot part = false ∧ isDots part = false

end Paths

/-! ## Deletions -/

section Deletions

variable {deletions : Deletions} {requested : List String} {outcomes : List Outcome}

theorem wellFormed_of_reports (deletions : Deletions) (hkeys : ∀ key ∈ requested, key ≠ "") :
    ∀ outcome ∈ deletions.respond requested, outcome.WellFormed := by
  intro outcome hmem
  have hkey := hkeys _ ((deletions.reports requested).mem_iff.mp (List.mem_map_of_mem hmem))
  rcases outcome with key | ⟨key, code, message⟩
  · exact hkey
  · refine ⟨hkey, ?_⟩
    rintro rfl
    exact deletions.codes requested key message hmem

/-- Each outcome is a deletion, an error with a message, or an error without one. -/
theorem length_outcomes (outcomes : List Outcome) :
    (outcomes.filterMap Outcome.deletedKey).length + outcomes.countP (·.Loud) +
      outcomes.countP (fun outcome ↦ ¬outcome.Loud ∧ outcome.deletedKey = none)
        = outcomes.length := by
  induction outcomes with
  | nil => rfl
  | cons outcome outcomes ih =>
    rw [List.filterMap_cons, List.countP_cons, List.countP_cons, List.length_cons, ← ih]
    rcases outcome with key | ⟨key, code, message⟩
    · have hquiet : ¬(Outcome.deleted key).Loud := id
      have hkey : (Outcome.deleted key).deletedKey = some key := rfl
      simp [hquiet, hkey]
      omega
    · have hkey : (Outcome.failed key code message).deletedKey = none := rfl
      by_cases hloud : (Outcome.failed key code message).Loud
      · simp [hloud, hkey]
        omega
      · simp [hloud, hkey]
        omega

theorem perm_outcomes (outcomes : List Outcome) :
    (outcomes.filterMap Outcome.deletedKey ++ outcomes.filterMap Outcome.failedKey).Perm
      (outcomes.map Outcome.key) := by
  induction outcomes with
  | nil => exact List.Perm.refl _
  | cons outcome outcomes ih =>
    rcases outcome with key | ⟨key, code, message⟩
    · exact ih.cons key
    · exact List.perm_middle.trans (ih.cons key)

theorem answer_eq (hkeys : ∀ key ∈ requested, key ≠ "") (hne : requested ≠ []) :
    r2DeleteObjects deletions.service requested
      = some ⟨(deletedKeys (answerXml deletions.layout (deletions.respond requested))).length,
          some (deletedKeys (answerXml deletions.layout (deletions.respond requested))),
          deleteErrors (answerXml deletions.layout (deletions.respond requested))⟩ := by
  rw [r2DeleteObjects, if_neg hne, Deletions.service, bodyKeys_buildDeleteObjectsXml hkeys]
  rfl

/-- **An answer in which every error has a message** has the keys as the client reads them. -/
theorem keys_of_answer (hkeys : ∀ key ∈ requested, key ≠ "")
    (hmessages : ∀ key code, Outcome.failed key code "" ∉ deletions.respond requested) :
    ∃ answer, r2DeleteObjects deletions.service requested = some answer ∧
      answer.keys.Perm (requested.map listedText) := by
  by_cases hne : requested = []
  · subst hne
    exact ⟨_, rfl, List.Perm.refl _⟩
  · have hwell := wellFormed_of_reports deletions hkeys
    refine ⟨_, answer_eq hkeys hne, ?_⟩
    have herrors : ((deletions.respond requested).filterMap Outcome.error).map DeleteError.key
        = ((deletions.respond requested).filterMap Outcome.failedKey).map listedText := by
      rw [List.map_filterMap, List.map_filterMap]
      refine List.filterMap_congr fun outcome _ ↦ ?_
      rcases outcome with key | ⟨key, code, message⟩
      · rfl
      · rfl
    rw [DeleteAnswer.keys]
    dsimp only [Option.getD_some]
    rw [deletedKeys_answerXml _ hwell, deleteErrors_answerXml _ hwell hmessages, herrors,
      ← List.map_append]
    exact ((perm_outcomes _).trans (deletions.reports requested)).map listedText

/-- Where an error has no message, the answer has too few keys. -/
theorem length_answer_lt (hkeys : ∀ key ∈ requested, key ≠ "") {key code : String}
    (hsilent : Outcome.failed key code "" ∈ deletions.respond requested) {answer : DeleteAnswer}
    (h : r2DeleteObjects deletions.service requested = some answer) :
    answer.keys.length < requested.length := by
  have hne : requested ≠ [] := by
    rintro rfl
    have hmem := (deletions.reports []).mem_iff.mp (List.mem_map_of_mem hsilent)
    exact absurd hmem List.not_mem_nil
  have hwell := wellFormed_of_reports deletions hkeys
  have hcount : 0 < (deletions.respond requested).countP fun outcome ↦
      ¬outcome.Loud ∧ outcome.deletedKey = none :=
    List.countP_pos_iff.mpr ⟨_, hsilent, decide_eq_true ⟨not_not.mpr rfl, rfl⟩⟩
  have hlength := length_outcomes (deletions.respond requested)
  have hreports := (deletions.reports requested).length_eq
  have herrors := length_deleteErrors_le deletions.layout hwell
  rw [answer_eq hkeys hne] at h
  rw [← Option.some.inj h, DeleteAnswer.keys, List.length_append, List.length_map]
  dsimp only [Option.getD_some]
  rw [deletedKeys_answerXml _ hwell, List.length_map]
  rw [List.length_map] at hreports
  omega

end Deletions

/-! ## Agreement -/

section Agreement

variable {bucket : BucketName} {store : Store} {deletions : Deletions} {requested : List String}

theorem namesAgree_of_harmless (hkeys : ∀ key ∈ requested, key ≠ "")
    (h : Harmless bucket store deletions requested) :
    NamesAgree bucket store deletions requested := by
  refine ⟨fun keyPrefix maxKeys hmax ↦ ?_, fun key hmem key' hmem' hpath ↦ ?_,
    bodyKeys_buildDeleteObjectsXml hkeys, ?_⟩
  · obtain ⟨turns, objects, hobjects, heq⟩ := listing_of_plain h.keys (h.tokens keyPrefix) hmax
    exact ⟨turns, objects, hobjects, heq ▸ List.Perm.refl _⟩
  · exact h.parts key hmem key' hmem' (requestPath_eq_iff.mp hpath)
  · obtain ⟨answer, hanswer, hperm⟩ := keys_of_answer hkeys h.messages
    rw [map_listedText_of_plain h.requestedKeys] at hperm
    exact ⟨answer, hanswer, hperm⟩

theorem harmless_of_namesAgree (hkeys : ∀ key ∈ requested, key ≠ "")
    (h : NamesAgree bucket store deletions requested) :
    Harmless bucket store deletions requested := by
  have hplain : ∀ key ∈ store.keys, apostrophe ∉ key.toList := by
    intro key hmem hkey
    obtain ⟨turns, objects, hobjects, hperm⟩ := h.listings "" 1 Nat.one_pos
    refine not_mem_listing hkey hobjects (hperm.mem_iff.mpr (List.mem_filter.mpr ⟨hmem, ?_⟩))
    exact decide_eq_true (List.nil_prefix)
  have hmessages : ∀ key code, Outcome.failed key code "" ∉ deletions.respond requested := by
    intro key code hsilent
    obtain ⟨answer, hanswer, hperm⟩ := h.answers
    exact (length_answer_lt hkeys hsilent hanswer).ne hperm.length_eq
  refine ⟨hplain, fun keyPrefix i hpos hlt ↦ ?_, fun key hmem key' hmem' hparts ↦ ?_,
    fun key hmem hkey ↦ ?_, hmessages⟩
  · obtain ⟨turns, objects, hobjects, hperm⟩ := h.listings keyPrefix 1 Nat.one_pos
    exact plain_of_listing hplain hobjects hperm hpos hlt
  · exact h.paths key hmem key' hmem' (requestPath_eq_iff.mpr hparts)
  · obtain ⟨answer, hanswer, hperm⟩ := h.answers
    obtain ⟨answer', hanswer', hperm'⟩ := keys_of_answer hkeys hmessages
    obtain rfl : answer = answer' := Option.some.inj (hanswer.symm.trans hanswer')
    obtain ⟨text, -, rfl⟩ := List.mem_map.mp ((hperm'.symm.trans hperm).mem_iff.mpr hmem)
    exact apostrophe_free_listedText text hkey

/-- **The client names the objects of a store in one way** if and only if its keys and tokens are
harmless. -/
theorem namesAgree_iff (hkeys : ∀ key ∈ requested, key ≠ "") :
    NamesAgree bucket store deletions requested ↔ Harmless bucket store deletions requested :=
  ⟨harmless_of_namesAgree hkeys, namesAgree_of_harmless hkeys⟩

end Agreement

/-! ## Small stores -/

def Filler.nothing : Filler :=
  ⟨[], by decide, fun _ _ ↦ ⟨List.not_mem_nil, List.not_mem_nil⟩⟩

/-- A store that writes nothing but what it has to, with tokens that count its places. -/
def Store.small (keys : List String) (nodup : keys.Nodup) (nonempty : ∀ key ∈ keys, key ≠ "") :
    Store where
  keys := keys
  nodup := nodup
  nonempty := nonempty
  cap := 1000
  cap_pos := by decide
  token _ i := String.ofList (List.replicate (i + 1) 't')
  token_ne _ i h := List.cons_ne_nil _ _ (String.ofList_injective h)
  token_injective _ i j h := by
    have hlength := congrArg List.length (String.ofList_injective h)
    rw [List.length_replicate, List.length_replicate] at hlength
    exact Nat.succ_injective hlength
  layout _ := ⟨.nothing, .nothing, .nothing, false, fun _ ↦ .nothing, fun _ ↦ .nothing,
    fun _ ↦ .nothing⟩

theorem Store.plain_token_small {keys : List String} (nodup : keys.Nodup)
    (nonempty : ∀ key ∈ keys, key ≠ "") (keyPrefix : String) (i : ℕ) :
    apostrophe ∉ ((Store.small keys nodup nonempty).token keyPrefix i).toList := by
  have htoken : ((Store.small keys nodup nonempty).token keyPrefix i).toList
      = List.replicate (i + 1) 't' := String.toList_ofList
  rw [htoken]
  exact fun hmem ↦ absurd (List.eq_of_mem_replicate hmem) (by decide)

/-- A store that refuses to delete one key. -/
def Deletions.allBut (locked : String) : Deletions where
  respond keys := keys.map fun key ↦
    if key = locked then .failed key "AccessDenied" "Access Denied" else .deleted key
  reports keys := by
    rw [List.map_map]
    conv => rhs; rw [← List.map_id keys]
    refine List.Perm.of_eq (List.map_congr_left fun key _ ↦ ?_)
    rw [Function.comp_apply]
    split
    · rfl
    · rfl
  codes keys key message h := by
    obtain ⟨key', -, heq⟩ := List.mem_map.mp h
    split at heq
    · injection heq with _ hcode
      exact absurd hcode (by decide)
    · exact nomatch heq
  layout := ⟨.nothing, .nothing, fun _ ↦ .nothing, fun _ ↦ .nothing, fun _ ↦ .nothing,
    fun _ ↦ .nothing, fun _ ↦ .nothing, true, .nothing⟩

def BucketName.sample : BucketName := 
  ⟨"uk-aq", List.all_iff_forall_prop.mp (by decide), by decide⟩

theorem namesAgree_small : NamesAgree .sample (.small ["a/b", "a&b<c"] (by decide) (by decide))
    (.allBut "a/b") ["a/b", "a&b<c"] := by
  refine (namesAgree_iff (by decide)).mpr ⟨by decide, fun keyPrefix i _ _ ↦
    Store.plain_token_small _ _ keyPrefix i, by decide, by decide, fun key code h ↦ ?_⟩
  obtain ⟨key', -, heq⟩ := List.mem_map.mp h
  split at heq
  · injection heq with _ _ hmessage
    exact absurd hmessage (by decide)
  · exact nomatch heq

theorem not_namesAgree_of_quote :
    ¬NamesAgree .sample (.small ["it's"] (by decide) (by decide)) (.allBut "") [] := by
  intro h
  obtain ⟨turns, objects, hobjects, hperm⟩ := h.listings "" 1 Nat.one_pos
  have hmem : "it's" ∈ (Store.small ["it's"] (by decide) (by decide)).under "" := by decide
  exact not_mem_listing (by decide) hobjects (hperm.mem_iff.mpr hmem)

end UkAqOps.R2

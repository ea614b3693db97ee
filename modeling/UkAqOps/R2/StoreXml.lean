import UkAqOps.R2.Entities

/-!
# The XML of a store

A store answers in XML with elements that the client looks for and others that it does not know. The
client finds the keys of a page in their order, whatever stands between them.
-/

namespace UkAqOps.R2

open Scanning

/-! ## Pieces of XML -/

def openTag (name : String) : Token Char := .tag name.toList

def closeTag (name : String) : Token Char := .tag ('/' :: name.toList)

def elementTokens (name : String) (text : List Char) : List (Token Char) :=
  [openTag name, .text text, closeTag name]

/-- An element with other elements in it. -/
def blockTokens (name : String) (inner : List (Token Char)) : List (Token Char) :=
  openTag name :: (inner ++ [closeTag name])

def xmlText (tokens : List (Token Char)) : List Char := render '<' '>' tokens

/-- No piece has marks where they would end it. -/
def PlainTokens (tokens : List (Token Char)) : Prop := ∀ token ∈ tokens, token.Plain '<' '>'

instance (tokens : List (Token Char)) : Decidable (PlainTokens tokens) :=
  inferInstanceAs (Decidable (∀ token ∈ tokens, token.Plain '<' '>'))

/-- There is no element of this name. -/
def Avoids (name : String) (tokens : List (Token Char)) : Prop :=
  openTag name ∉ tokens ∧ closeTag name ∉ tokens

/-- The names that the client looks for. -/
def knownNames : List String :=
  ["Contents", "Key", "NextContinuationToken", "Deleted", "Error", "Code", "Message"]

/-- What a store may write besides. -/
structure Filler where
  tokens : List (Token Char)
  plain : PlainTokens tokens
  avoids : ∀ name ∈ knownNames, Avoids name tokens

/-- A name that can stand in a tag and is not that of a closing tag. -/
structure IsName (name : String) : Prop where
  lower : '<' ∉ name.toList
  upper : '>' ∉ name.toList
  slash : name.toList.head? ≠ some '/'

theorem isName_of_known {name : String} (h : name ∈ knownNames) : IsName name := by
  have hall : ∀ name ∈ knownNames, '<' ∉ name.toList ∧ '>' ∉ name.toList ∧
      name.toList.head? ≠ some '/' := by
    decide
  obtain ⟨hlower, hupper, hslash⟩ := hall name h
  exact ⟨hlower, hupper, hslash⟩

section Pieces

variable {name name' : String} {tokens tokens' : List (Token Char)} {text : List Char} {α β : Type}
variable {f : Pattern Char α} {rest : List Char}

theorem xmlText_append : xmlText (tokens ++ tokens') = xmlText tokens ++ xmlText tokens' :=
  List.flatMap_append

theorem PlainTokens.append (h : PlainTokens tokens) (h' : PlainTokens tokens') :
    PlainTokens (tokens ++ tokens') := by
  intro token hmem
  rcases List.mem_append.mp hmem with hmem | hmem
  · exact h token hmem
  · exact h' token hmem

theorem IsName.plain (h : IsName name) : (openTag name).Plain '<' '>' ∧
    (closeTag name).Plain '<' '>' := by
  refine ⟨⟨h.lower, h.upper⟩, ?_, ?_⟩
  · rw [List.mem_cons, not_or]
    exact ⟨by decide, h.lower⟩
  · rw [List.mem_cons, not_or]
    exact ⟨by decide, h.upper⟩

theorem plain_elementTokens (h : IsName name) (htext : '<' ∉ text) :
    PlainTokens (elementTokens name text) := by
  intro token hmem
  simp only [elementTokens, List.mem_cons, List.not_mem_nil, or_false] at hmem
  rcases hmem with rfl | rfl | rfl
  · exact h.plain.1
  · exact htext
  · exact h.plain.2

theorem Avoids.append (h : Avoids name tokens) (h' : Avoids name tokens') :
    Avoids name (tokens ++ tokens') := by
  simp only [Avoids, List.mem_append, not_or]
  exact ⟨⟨h.1, h'.1⟩, h.2, h'.2⟩

theorem openTag_injective (h : openTag name = openTag name') : name = name' :=
  String.toList_injective (Token.tag.inj h)

theorem openTag_ne_closeTag (h : IsName name) : openTag name ≠ closeTag name' := fun heq ↦
  h.slash (by rw [Token.tag.inj heq]; rfl)

theorem avoids_elementTokens (h : IsName name) (h' : IsName name') (hne : name ≠ name') :
    Avoids name (elementTokens name' text) := by
  simp only [Avoids, elementTokens, List.mem_cons, List.not_mem_nil, or_false, not_or]
  refine ⟨⟨fun heq ↦ hne (openTag_injective heq), fun h ↦ (by cases h), openTag_ne_closeTag h⟩,
    fun heq ↦ openTag_ne_closeTag h' heq.symm, fun h ↦ (by cases h), fun heq ↦ hne ?_⟩
  exact String.toList_injective (List.cons.inj (Token.tag.inj heq)).2

theorem plain_blockTokens (h : IsName name) (hinner : PlainTokens tokens) :
    PlainTokens (blockTokens name tokens) := by
  intro token hmem
  rcases List.mem_cons.mp hmem with rfl | hmem
  · exact h.plain.1
  · rcases List.mem_append.mp hmem with hmem | hmem
    · exact hinner token hmem
    · rw [List.mem_singleton.mp hmem]
      exact h.plain.2

theorem avoids_blockTokens (h : IsName name) (h' : IsName name') (hne : name ≠ name')
    (hinner : Avoids name tokens) : Avoids name (blockTokens name' tokens) := by
  have hparts : Avoids name (elementTokens name' []) := avoids_elementTokens h h' hne
  simp only [Avoids, elementTokens, blockTokens, List.mem_cons, List.mem_append, List.not_mem_nil,
    or_false, not_or] at hparts hinner ⊢
  exact ⟨⟨hparts.1.1, hinner.1, hparts.1.2.2⟩, hparts.2.1, hinner.2, hparts.2.2.2⟩

/-- A pattern that reads nothing at any tag but one. -/
structure OnlyAt (name : List Char) (f : Pattern Char α) : Prop where
  starts : StartsWith '<' f
  other : ∀ name', '>' ∉ name' → name ≠ name' → ∀ rest, f (tagChars '<' '>' name' ++ rest) = none

theorem onlyAt_opening (h : IsName name) : OnlyAt name.toList (opening name) :=
  ⟨startsWith_literal _, fun _ hname' hne rest ↦ literal_tagChars h.upper hname' hne rest⟩

theorem onlyAt_closing (h : IsName name) : OnlyAt ('/' :: name.toList) (closing name) := by
  refine ⟨startsWith_literal _, fun _ hname' hne rest ↦ literal_tagChars ?_ hname' hne rest⟩
  rw [List.mem_cons, not_or]
  exact ⟨by decide, h.upper⟩

theorem onlyAt_element (h : IsName name) : OnlyAt name.toList (element name) :=
  ⟨startsWith_elementAt, fun _ hname' hne rest ↦ elementAt_tagChars h.upper hname' hne rest⟩

theorem onlyAt_block (h : IsName name) : OnlyAt name.toList (block name) :=
  ⟨startsWith_blockAt, fun _ hname' hne rest ↦ blockAt_tagChars h.upper hname' hne rest⟩

theorem OnlyAt.followedBy {name : List Char} (h : OnlyAt name f) (g : Pattern Char β) :
    OnlyAt name (followedBy f g) := by
  refine ⟨h.starts.followedBy g, fun name' hname' hne rest ↦ ?_⟩
  rw [Scanning.followedBy, h.other name' hname' hne rest]
  rfl

theorem OnlyAt.passes {name : List Char} (h : OnlyAt name f) (hplain : PlainTokens tokens)
    (hfree : Token.tag name ∉ tokens) : Passes '<' '>' f tokens := fun name' hmem rest ↦
  h.other name' (hplain _ hmem).2 (fun heq ↦ hfree (heq ▸ hmem)) rest

theorem OnlyAt.find {name : List Char} (h : OnlyAt name f) (hplain : PlainTokens tokens)
    (hfree : Token.tag name ∉ tokens) (rest : List Char) : find f (xmlText tokens ++ rest)
      = (Scanning.find f rest).map fun found ↦ (xmlText tokens ++ found.1, found.2) :=
  find_render_append h.starts hplain (h.passes hplain hfree) (by decide) rest

theorem OnlyAt.matchAll {name : List Char} (h : OnlyAt name f) (hplain : PlainTokens tokens)
    (hfree : Token.tag name ∉ tokens) (rest : List Char) :
    matchAll f (xmlText tokens ++ rest) = Scanning.matchAll f rest :=
  matchAll_render_append h.starts hplain (h.passes hplain hfree) (by decide) rest

theorem xmlText_elementTokens (rest : List Char) : xmlText (elementTokens name text) ++ rest
    = tagChars '<' '>' name.toList ++ (text ++ (tagChars '<' '>' ('/' :: name.toList) ++ rest)) := by
  simp [xmlText, elementTokens, render, Token.render, openTag, closeTag]

/-- **The first element of a name** is found behind pieces without that name. -/
theorem find_element (h : IsName name) (hplain : PlainTokens tokens) (hfree : openTag name ∉ tokens)
    (hne : text ≠ []) (htext : '<' ∉ text) (rest : List Char) :
    find (element name) (xmlText tokens ++ (xmlText (elementTokens name text) ++ rest))
      = some (xmlText tokens, text, rest) := by
  have hmatch : element name (xmlText (elementTokens name text) ++ rest) = some (text, rest) := by
    rw [xmlText_elementTokens]
    exact elementAt_of_text hne htext rest
  rw [(onlyAt_element h).find hplain hfree]
  rw [xmlText_elementTokens, tagChars, List.cons_append] at hmatch ⊢
  rw [find_of_match hmatch, Option.map_some, List.append_nil]

theorem elementText_eq (h : IsName name) (hplain : PlainTokens tokens)
    (hfree : openTag name ∉ tokens) (hne : text ≠ []) (htext : '<' ∉ text)
    (after : List (Token Char)) :
    elementText name (xmlText (tokens ++ (elementTokens name text ++ after))) = some text := by
  rw [elementText, xmlText_append, xmlText_append, find_element h hplain hfree hne htext]
  rfl

theorem xmlText_cons (token : Token Char) (tokens : List (Token Char)) :
    xmlText (token :: tokens) = token.render '<' '>' ++ xmlText tokens := List.flatMap_cons

theorem xmlText_flatMap {ι : Type} (pieces : ι → List (Token Char)) (is : List ι) :
    xmlText (is.flatMap pieces) = is.flatMap fun i ↦ xmlText (pieces i) := List.flatMap_assoc

/-- A match at a tag is followed by the matches behind it. -/
theorem matchAll_of_some (hf : Consumes f) {a : α}
    (hmatch : f (xmlText (openTag name :: tokens) ++ rest) = some (a, text)) :
    matchAll f (xmlText (openTag name :: tokens) ++ rest) = a :: matchAll f text := by
  rw [xmlText_cons, openTag, Token.render, tagChars, List.cons_append, List.cons_append] at hmatch ⊢
  exact hf.matchAll hmatch

/-- Where nothing is matched at a tag, the pieces behind it are passed over. -/
theorem matchAll_of_none {name' : List Char} (hf : OnlyAt name' f) (hname : IsName name)
    (hplain : PlainTokens tokens) (hfree : Token.tag name' ∉ tokens)
    (hnone : f (xmlText (openTag name :: tokens) ++ rest) = none) :
    matchAll f (xmlText (openTag name :: tokens) ++ rest) = matchAll f rest := by
  have hmark : '<' ∉ name.toList ++ ['>'] := by
    rw [List.mem_append, List.mem_singleton, not_or]
    exact ⟨hname.lower, by decide⟩
  rw [← hf.matchAll hplain hfree rest]
  rw [xmlText_cons, List.append_assoc, openTag, Token.render, tagChars] at hnone ⊢
  exact matchAll_mark_append hf.starts hmark hnone

theorem find_closing (h : IsName name) (hplain : PlainTokens tokens) (hfree : closeTag name ∉ tokens)
    (rest : List Char) :
    find (closing name) (xmlText tokens ++ (xmlText [closeTag name] ++ rest))
      = some (xmlText tokens, (), rest) := by
  have htag : xmlText [closeTag name] = tagChars '<' '>' ('/' :: name.toList) := by
    simp [xmlText, render, Token.render, closeTag]
  have hmatch : closing name (tagChars '<' '>' ('/' :: name.toList) ++ rest) = some ((), rest) :=
    literal_append _ _
  rw [(onlyAt_closing h).find hplain hfree, htag]
  rw [tagChars, List.cons_append] at hmatch ⊢
  rw [find_of_match hmatch, Option.map_some, List.append_nil]

theorem xmlText_blockTokens (name : String) (tokens : List (Token Char)) (rest : List Char) :
    xmlText (blockTokens name tokens) ++ rest = tagChars '<' '>' name.toList ++
      (xmlText tokens ++ (xmlText [closeTag name] ++ rest)) := by
  rw [blockTokens, xmlText_cons, xmlText_append, List.append_assoc, List.append_assoc]
  rfl

/-- The text of an element is read up to its end. -/
theorem block_blockTokens (h : IsName name) (hplain : PlainTokens tokens)
    (hfree : closeTag name ∉ tokens) (rest : List Char) :
    block name (xmlText (blockTokens name tokens) ++ rest) = some (xmlText tokens, rest) := by
  have hclose := find_closing h hplain hfree rest
  rw [closing] at hclose
  rw [xmlText_blockTokens, block, blockAt, literal_append]
  simp only [Option.bind_eq_bind, Option.bind_some, hclose]
  rfl

end Pieces

/-! ## Pages of a listing -/

/-- How a store lays out a page: the token of the next page stands before or behind the objects. -/
structure PageLayout where
  head : Filler
  middle : Filler
  foot : Filler
  tokenFirst : Bool
  lead : String → Filler
  before : String → Filler
  after : String → Filler

/-- What stands within the element of an object. -/
def innerTokens (layout : PageLayout) (key : String) : List (Token Char) :=
  (layout.before key).tokens ++
    (elementTokens "Key" (escapeXml key.toList) ++ (layout.after key).tokens)

def objectTokens (layout : PageLayout) (key : String) : List (Token Char) :=
  (layout.lead key).tokens ++ blockTokens "Contents" (innerTokens layout key)

def nextTokens : Option String → List (Token Char)
  | none => []
  | some token => elementTokens "NextContinuationToken" (escapeXml token.toList)

/-- A page with some keys, and the token of the next page if there is one. -/
def pageTokens (layout : PageLayout) (keys : List String) (next : Option String) :
    List (Token Char) :=
  (layout.head.tokens ++ (if layout.tokenFirst then nextTokens next else []) ++
      layout.middle.tokens) ++
    (keys.flatMap (objectTokens layout) ++
      ((if layout.tokenFirst then [] else nextTokens next) ++ layout.foot.tokens))

def pageXml (layout : PageLayout) (keys : List String) (next : Option String) : List Char :=
  xmlText (pageTokens layout keys next)

/-- A text as the client reads it. -/
def listedText (text : String) : String := String.ofList (listed text.toList)

section Pages

variable {layout : PageLayout} {keys : List String} {next : Option String} {name : String}

theorem plain_nextTokens (next : Option String) : PlainTokens (nextTokens next) := by
  rcases next with _ | token
  · exact fun token hmem ↦ absurd hmem List.not_mem_nil
  · exact plain_elementTokens (isName_of_known (by decide)) (escapeXml_free _)

theorem avoids_nextTokens (hname : name ∈ knownNames) (hne : name ≠ "NextContinuationToken")
    (next : Option String) : Avoids name (nextTokens next) := by
  rcases next with _ | token
  · exact ⟨List.not_mem_nil, List.not_mem_nil⟩
  · exact avoids_elementTokens (isName_of_known hname) (isName_of_known (by decide)) hne

theorem plain_innerTokens (layout : PageLayout) (key : String) :
    PlainTokens (innerTokens layout key) :=
  (layout.before key).plain.append
    ((plain_elementTokens (isName_of_known (by decide)) (escapeXml_free _)).append
      (layout.after key).plain)

theorem avoids_innerTokens (hname : name ∈ knownNames) (hne : name ≠ "Key") (key : String) :
    Avoids name (innerTokens layout key) :=
  ((layout.before key).avoids name hname).append
    ((avoids_elementTokens (isName_of_known hname) (isName_of_known (by decide)) hne).append
      ((layout.after key).avoids name hname))

theorem plain_objectTokens (layout : PageLayout) (key : String) :
    PlainTokens (objectTokens layout key) :=
  (layout.lead key).plain.append
    (plain_blockTokens (isName_of_known (by decide)) (plain_innerTokens layout key))

/-- The key of an object is read from its element. -/
theorem listedObject_inner (layout : PageLayout) {key : String} (hne : key ≠ "") :
    (listedObject (xmlText (innerTokens layout key))).map ListedObject.key
      = some (listedText key) := by
  have hkey : IsName "Key" := isName_of_known (by decide)
  have htext : elementText "Key" (xmlText (innerTokens layout key))
      = some (escapeXml key.toList) :=
    elementText_eq hkey (layout.before key).plain ((layout.before key).avoids "Key" (by decide)).1
      (escapeXml_ne_nil (by simpa using hne)) (escapeXml_free _) _
  rw [listedObject, htext, Option.map_some, Option.map_some, decodeXmlEntities_escapeXml]
  rfl

/-- **The objects of a page** are matched one by one. -/
theorem matchAll_objects (layout : PageLayout) (keys : List String) (rest : List Char) :
    matchAll (block "Contents") (xmlText (keys.flatMap (objectTokens layout)) ++ rest)
      = keys.map (fun key ↦ xmlText (innerTokens layout key)) ++
        matchAll (block "Contents") rest := by
  have hcontents : IsName "Contents" := isName_of_known (by decide)
  have hconsumes : Consumes (block "Contents") := consumes_blockAt
  rw [xmlText_flatMap, List.map_eq_flatMap]
  refine matchAll_flatMap (fun key _ rest ↦ ?_) rest
  rw [objectTokens, xmlText_append, List.append_assoc, (onlyAt_block hcontents).matchAll
    (layout.lead key).plain ((layout.lead key).avoids _ (by decide)).1]
  exact matchAll_of_some hconsumes (block_blockTokens hcontents (plain_innerTokens layout key)
    (avoids_innerTokens (by decide) (by decide) key).2 rest)

/-- The pieces before the objects of a page. -/
theorem plain_head (layout : PageLayout) (next : Option String) : PlainTokens
    (layout.head.tokens ++ (if layout.tokenFirst then nextTokens next else []) ++
      layout.middle.tokens) := by
  refine (layout.head.plain.append ?_).append layout.middle.plain
  split
  · exact plain_nextTokens next
  · exact fun token hmem ↦ absurd hmem List.not_mem_nil

theorem avoids_head (hname : name ∈ knownNames)
    (hne : name ≠ "NextContinuationToken" ∨ layout.tokenFirst = false) (next : Option String) :
    Avoids name (layout.head.tokens ++ (if layout.tokenFirst then nextTokens next else []) ++
      layout.middle.tokens) := by
  refine ((layout.head.avoids name hname).append ?_).append (layout.middle.avoids name hname)
  rcases hne with hne | hne
  · split
    · exact avoids_nextTokens hname hne next
    · exact ⟨List.not_mem_nil, List.not_mem_nil⟩
  · rw [hne, if_neg Bool.false_ne_true]
    exact ⟨List.not_mem_nil, List.not_mem_nil⟩

theorem plain_foot (layout : PageLayout) (next : Option String) : PlainTokens
    ((if layout.tokenFirst then [] else nextTokens next) ++ layout.foot.tokens) := by
  refine PlainTokens.append ?_ layout.foot.plain
  split
  · exact fun token hmem ↦ absurd hmem List.not_mem_nil
  · exact plain_nextTokens next

theorem avoids_foot (hname : name ∈ knownNames)
    (hne : name ≠ "NextContinuationToken" ∨ layout.tokenFirst = true) (next : Option String) :
    Avoids name ((if layout.tokenFirst then [] else nextTokens next) ++ layout.foot.tokens) := by
  refine Avoids.append ?_ (layout.foot.avoids name hname)
  rcases hne with hne | hne
  · split
    · exact ⟨List.not_mem_nil, List.not_mem_nil⟩
    · exact avoids_nextTokens hname hne next
  · rw [if_pos hne]
    exact ⟨List.not_mem_nil, List.not_mem_nil⟩

/-- **The keys of a page** are read in their order. -/
theorem keys_of_pageXml (hkeys : ∀ key ∈ keys, key ≠ "") :
    (parseListObjectsXml (pageXml layout keys next)).entries.map ListedObject.key
      = keys.map listedText := by
  have hcontents := onlyAt_block (isName_of_known (by decide : "Contents" ∈ knownNames))
  have hall : matchAll (block "Contents") (pageXml layout keys next)
      = keys.map fun key ↦ xmlText (innerTokens layout key) := by
    have hend := hcontents.matchAll (plain_foot layout next)
      (avoids_foot (by decide) (Or.inl (by decide)) next).1 []
    rw [List.append_nil] at hend
    rw [pageXml, pageTokens, xmlText_append, hcontents.matchAll (plain_head layout next)
      (avoids_head (by decide) (Or.inl (by decide)) next).1, xmlText_append, matchAll_objects, hend]
    exact List.append_nil _
  rw [parseListObjectsXml, hall, List.filterMap_map]
  clear hall
  induction keys with
  | nil => rfl
  | cons key keys ih =>
    have hfirst := listedObject_inner layout (hkeys key List.mem_cons_self)
    obtain ⟨object, hobject, hkey⟩ := Option.map_eq_some_iff.mp hfirst
    rw [List.filterMap_cons, Function.comp_apply, hobject, List.map_cons, hkey, List.map_cons,
      ih fun key hmem ↦ hkeys key (List.mem_cons_of_mem _ hmem)]

/-- There is no token among the objects. -/
theorem free_objects (layout : PageLayout) (keys : List String) :
    openTag "NextContinuationToken" ∉ keys.flatMap (objectTokens layout) := by
  intro hmem
  obtain ⟨key, -, hmem⟩ := List.mem_flatMap.mp hmem
  rcases List.mem_append.mp hmem with hmem | hmem
  · exact ((layout.lead key).avoids _ (by decide)).1 hmem
  · exact (avoids_blockTokens (isName_of_known (by decide)) (isName_of_known (by decide))
      (by decide) (avoids_innerTokens (by decide) (by decide) key)).1 hmem

theorem plain_objects (layout : PageLayout) (keys : List String) :
    PlainTokens (keys.flatMap (objectTokens layout)) := by
  intro token hmem
  obtain ⟨key, -, hmem⟩ := List.mem_flatMap.mp hmem
  exact plain_objectTokens layout key token hmem

/-- **The token of the next page** is read where there is one. -/
theorem nextToken_of_pageXml (hnext : ∀ token ∈ next, token ≠ "") :
    (parseListObjectsXml (pageXml layout keys next)).nextToken = next.map listedText := by
  have hname : IsName "NextContinuationToken" := isName_of_known (by decide)
  have helement := onlyAt_element hname
  have hread : elementText "NextContinuationToken" (pageXml layout keys next)
      = next.map fun token ↦ escapeXml token.toList := by
    rcases next with _ | token
    · have hplain : PlainTokens (pageTokens layout keys none) :=
        (plain_head layout none).append ((plain_objects layout keys).append (plain_foot layout none))
      have hfree : openTag "NextContinuationToken" ∉ pageTokens layout keys none := by
        have hhead := layout.head.avoids "NextContinuationToken" (by decide)
        have hmiddle := layout.middle.avoids "NextContinuationToken" (by decide)
        have hfoot := layout.foot.avoids "NextContinuationToken" (by decide)
        simp only [pageTokens, nextTokens, ite_self, List.append_nil, List.nil_append,
          List.mem_append, not_or]
        exact ⟨⟨hhead.1, hmiddle.1⟩, free_objects layout keys, hfoot.1⟩
      have hnone := helement.find hplain hfree []
      rw [List.append_nil] at hnone
      rw [elementText, pageXml, hnone]
      rfl
    · have hne : escapeXml token.toList ≠ [] :=
        escapeXml_ne_nil (by simpa using hnext token rfl)
      rcases hfirst : layout.tokenFirst
      · have htokens : pageTokens layout keys (some token)
            = (layout.head.tokens ++ layout.middle.tokens ++ keys.flatMap (objectTokens layout)) ++
              (elementTokens "NextContinuationToken" (escapeXml token.toList) ++
                layout.foot.tokens) := by
          simp [pageTokens, hfirst, nextTokens]
        have hplain : PlainTokens (layout.head.tokens ++ layout.middle.tokens ++
            keys.flatMap (objectTokens layout)) :=
          (layout.head.plain.append layout.middle.plain).append (plain_objects layout keys)
        have hfree : openTag "NextContinuationToken" ∉ layout.head.tokens ++ layout.middle.tokens ++
            keys.flatMap (objectTokens layout) := by
          rw [List.mem_append, List.mem_append, not_or, not_or]
          exact ⟨⟨(layout.head.avoids _ (by decide)).1, (layout.middle.avoids _ (by decide)).1⟩,
            free_objects layout keys⟩
        rw [pageXml, htokens]
        exact elementText_eq hname hplain hfree hne (escapeXml_free _) _
      · have htokens : pageTokens layout keys (some token)
            = layout.head.tokens ++
              (elementTokens "NextContinuationToken" (escapeXml token.toList) ++
                (layout.middle.tokens ++ (keys.flatMap (objectTokens layout) ++
                  layout.foot.tokens))) := by
          simp [pageTokens, hfirst, nextTokens]
        rw [pageXml, htokens]
        exact elementText_eq hname layout.head.plain (layout.head.avoids _ (by decide)).1 hne
          (escapeXml_free _) _
  rw [parseListObjectsXml, hread, Option.map_map]
  refine congrArg (Option.map · _) (funext fun token ↦ ?_)
  rw [Function.comp_apply, decodeXmlEntities_escapeXml]
  rfl

end Pages

end UkAqOps.R2

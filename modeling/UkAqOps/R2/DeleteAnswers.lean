import UkAqOps.R2.StoreXml

/-!
# Deletions of a store

A store reads the keys of a deletion from the body of the request, and answers with what became of
each of them. The client finds the deleted keys, and the errors whose messages are not empty: where a
message is empty, its error is read on into the next one.
-/

namespace UkAqOps.R2

open Scanning

/-! ## The body of a deletion -/

/-- The keys that a store finds in the body of a deletion. -/
def bodyKeys (xml : List Char) : List String :=
  (matchAll (element "Key") xml).map fun text ↦ String.ofList (readXmlText text)

def lineTokens (key : String) : List (Token Char) :=
  [.text "  ".toList, openTag "Object"] ++ (elementTokens "Key" (escapeXml key.toList) ++
    [closeTag "Object", .text ['\n']])

def bodyTokens (keys : List String) : List (Token Char) :=
  [openTag xmlDeclaration, .text ['\n'], openTag "Delete", .text ['\n']] ++
    (keys.flatMap lineTokens ++ [closeTag "Delete"])

/-! ## Answers to a deletion -/

/-- What became of a key. -/
inductive Outcome where
  | deleted (key : String)
  | failed (key code message : String)
deriving DecidableEq

namespace Outcome

def key : Outcome → String
  | deleted key => key
  | failed key _ _ => key

def deletedKey : Outcome → Option String
  | deleted key => some key
  | failed .. => none

def failedKey : Outcome → Option String
  | deleted _ => none
  | failed key _ _ => some key

/-- The error of an outcome, with its texts as the client reads them. -/
def error : Outcome → Option DeleteError
  | deleted _ => none
  | failed key code message => some ⟨listedText key, listedText code, listedText message⟩

/-- There is a key, and a code where there is an error. -/
def WellFormed : Outcome → Prop
  | deleted key => key ≠ ""
  | failed key code _ => key ≠ "" ∧ code ≠ ""

/-- An error with a message. -/
def Loud : Outcome → Prop
  | deleted _ => False
  | failed _ _ message => message ≠ ""

instance : DecidablePred Loud
  | deleted _ => inferInstanceAs (Decidable False)
  | failed _ _ message => inferInstanceAs (Decidable (message ≠ ""))

end Outcome

/-- How a store lays out its answer: an empty message has its two tags, or is written otherwise. -/
structure AnswerLayout where
  head : Filler
  foot : Filler
  lead : String → Filler
  before : String → Filler
  beforeCode : String → Filler
  beforeMessage : String → Filler
  after : String → Filler
  emptyPair : Bool
  emptyMessage : Filler

def messageTokens (layout : AnswerLayout) (message : String) : List (Token Char) :=
  if message = "" then
    if layout.emptyPair then elementTokens "Message" [] else layout.emptyMessage.tokens
  else elementTokens "Message" (escapeXml message.toList)

/-- An error behind its opening tag, up to its message. -/
def errorHead (layout : AnswerLayout) (key code : String) : List (Token Char) :=
  (layout.before key).tokens ++ (elementTokens "Key" (escapeXml key.toList) ++
    ((layout.beforeCode key).tokens ++ (elementTokens "Code" (escapeXml code.toList) ++
      (layout.beforeMessage key).tokens)))

/-- The pieces of an error within its element. -/
def errorTokens (layout : AnswerLayout) (key code message : String) : List (Token Char) :=
  errorHead layout key code ++ (messageTokens layout message ++ (layout.after key).tokens)

/-- The pieces of a deletion within its element. -/
def deletionTokens (layout : AnswerLayout) (key : String) : List (Token Char) :=
  (layout.before key).tokens ++ (elementTokens "Key" (escapeXml key.toList) ++
    (layout.after key).tokens)

def outcomeTokens (layout : AnswerLayout) : Outcome → List (Token Char)
  | .deleted key =>
    (layout.lead key).tokens ++ blockTokens "Deleted" (deletionTokens layout key)
  | .failed key code message =>
    (layout.lead key).tokens ++ blockTokens "Error" (errorTokens layout key code message)

def answerXml (layout : AnswerLayout) (outcomes : List Outcome) : List Char :=
  xmlText (layout.head.tokens ++ (outcomes.flatMap (outcomeTokens layout) ++ layout.foot.tokens))

/-! ## The keys of the body -/

section Body

variable {keys : List String} {key : String}

/-- Lines with a last one that is not ended. -/
theorem intercalate_append_singleton {α ι : Type} (separator last : List α) (line : ι → List α)
    (is : List ι) : separator.intercalate (is.map line ++ [last])
      = (is.flatMap fun i ↦ line i ++ separator) ++ last := by
  induction is with
  | nil => exact List.intercalate_singleton
  | cons i is ih =>
    rw [List.map_cons, List.cons_append, List.intercalate_cons_of_ne_nil (by simp), ih,
      List.flatMap_cons]
    simp only [List.append_assoc]

theorem xmlText_lineTokens (key : String) :
    xmlText (lineTokens key) = objectLine key ++ ['\n'] := by
  have hfirst : xmlText [.text "  ".toList, openTag "Object"] ++ tagChars '<' '>' "Key".toList
      = "  <Object><Key>".toList := by
    decide
  have hlast : tagChars '<' '>' ('/' :: "Key".toList) ++ xmlText [closeTag "Object", .text ['\n']]
      = "</Key></Object>".toList ++ ['\n'] := by
    decide
  rw [lineTokens, xmlText_append, xmlText_append, xmlText_elementTokens, ← List.append_assoc,
    hfirst, hlast]
  unfold objectLine
  simp only [escapeKey_eq, List.append_assoc]

theorem buildDeleteObjectsXml_eq (keys : List String) :
    buildDeleteObjectsXml keys = xmlText (bodyTokens keys) := by
  have hlast : xmlText [closeTag "Delete"] = "</Delete>".toList := rfl
  have hhead : xmlText [openTag xmlDeclaration, .text ['\n'], openTag "Delete", .text ['\n']]
      = tagChars '<' '>' xmlDeclaration.toList ++ (['\n'] ++ ("<Delete>".toList ++ ['\n'])) := rfl
  rw [buildDeleteObjectsXml, List.intercalate_cons_cons, List.intercalate_cons_of_ne_nil (by simp),
    intercalate_append_singleton, bodyTokens, xmlText_append, xmlText_append, xmlText_flatMap,
    hhead, hlast]
  simp only [xmlText_lineTokens, List.append_assoc]

/-- **The body of a deletion** names the keys that are given. -/
theorem bodyKeys_buildDeleteObjectsXml (hkeys : ∀ key ∈ keys, key ≠ "") :
    bodyKeys (buildDeleteObjectsXml keys) = keys := by
  have hkey : IsName "Key" := isName_of_known (by decide)
  have helement := onlyAt_element hkey
  have hconsumes : Consumes (element "Key") := consumes_elementAt
  have hline : ∀ key ∈ keys, ∀ rest, matchAll (element "Key") (xmlText (lineTokens key) ++ rest)
      = [escapeXml key.toList] ++ matchAll (element "Key") rest := by
    intro key hmem rest
    have htext : escapeXml key.toList ≠ [] := escapeXml_ne_nil (by simpa using hkeys key hmem)
    have hread : element "Key" (xmlText (elementTokens "Key" (escapeXml key.toList)) ++
          (xmlText [closeTag "Object", .text ['\n']] ++ rest))
        = some (escapeXml key.toList, xmlText [closeTag "Object", .text ['\n']] ++ rest) := by
      rw [xmlText_elementTokens]
      exact elementAt_of_text htext (escapeXml_free _) _
    rw [lineTokens, xmlText_append, xmlText_append, List.append_assoc, List.append_assoc,
      helement.matchAll (by decide) (by decide), elementTokens, matchAll_of_some hconsumes hread,
      helement.matchAll (by decide) (by decide)]
    rfl
  have hlast : matchAll (element "Key") (xmlText [closeTag "Delete"]) = [] := by
    rw [← List.append_nil (xmlText _), helement.matchAll (by decide) (by decide)]
    rfl
  rw [bodyKeys, buildDeleteObjectsXml_eq, bodyTokens, xmlText_append,
    helement.matchAll (by decide) (by decide), xmlText_append, xmlText_flatMap,
    matchAll_flatMap hline, hlast, List.append_nil, ← List.map_eq_flatMap, List.map_map]
  conv_rhs => rw [← List.map_id keys]
  refine List.map_congr_left fun key _ ↦ ?_
  rw [Function.comp_apply, readXmlText_escapeXml, String.ofList_toList, id]

end Body

/-! ## What the client finds in an answer -/

/-- The part of the pattern of an error that reads its key and its code. -/
def errorStart : Pattern Char ((Unit × List Char) × List Char) :=
  followedBy (followedBy (opening "Error") (element "Key")) (element "Code")

section Answers

variable {layout : AnswerLayout} {outcomes : List Outcome} {key code message name : String}

theorem opening_blockTokens (name : String) (tokens : List (Token Char)) (rest : List Char) :
    opening name (xmlText (blockTokens name tokens) ++ rest)
      = some ((), xmlText tokens ++ (xmlText [closeTag name] ++ rest)) := by
  rw [xmlText_blockTokens]
  exact literal_append _ _

theorem plain_messageTokens (layout : AnswerLayout) (message : String) :
    PlainTokens (messageTokens layout message) := by
  rw [messageTokens]
  split
  · split
    · decide
    · exact layout.emptyMessage.plain
  · exact plain_elementTokens (isName_of_known (by decide)) (escapeXml_free _)

theorem avoids_messageTokens (hname : name ∈ knownNames) (hne : name ≠ "Message")
    (message : String) : Avoids name (messageTokens layout message) := by
  rw [messageTokens]
  split
  · split
    · exact avoids_elementTokens (isName_of_known hname) (isName_of_known (by decide)) hne
    · exact layout.emptyMessage.avoids name hname
  · exact avoids_elementTokens (isName_of_known hname) (isName_of_known (by decide)) hne

theorem plain_errorHead (layout : AnswerLayout) (key code : String) :
    PlainTokens (errorHead layout key code) :=
  (layout.before key).plain.append
    ((plain_elementTokens (isName_of_known (by decide)) (escapeXml_free _)).append
      ((layout.beforeCode key).plain.append
        ((plain_elementTokens (isName_of_known (by decide)) (escapeXml_free _)).append
          (layout.beforeMessage key).plain)))

theorem avoids_errorHead (hname : name ∈ knownNames) (hkey : name ≠ "Key") (hcode : name ≠ "Code") :
    Avoids name (errorHead layout key code) :=
  ((layout.before key).avoids name hname).append
    ((avoids_elementTokens (isName_of_known hname) (isName_of_known (by decide)) hkey).append
      (((layout.beforeCode key).avoids name hname).append
        ((avoids_elementTokens (isName_of_known hname) (isName_of_known (by decide)) hcode).append
          ((layout.beforeMessage key).avoids name hname))))

theorem plain_errorTokens (layout : AnswerLayout) (key code message : String) :
    PlainTokens (errorTokens layout key code message) :=
  (plain_errorHead layout key code).append
    ((plain_messageTokens layout message).append (layout.after key).plain)

theorem avoids_errorTokens (hname : name ∈ knownNames) (hkey : name ≠ "Key") (hcode : name ≠ "Code")
    (hmessage : name ≠ "Message") : Avoids name (errorTokens layout key code message) :=
  (avoids_errorHead hname hkey hcode).append
    ((avoids_messageTokens hname hmessage message).append ((layout.after key).avoids name hname))

theorem plain_deletionTokens (layout : AnswerLayout) (key : String) :
    PlainTokens (deletionTokens layout key) :=
  (layout.before key).plain.append
    ((plain_elementTokens (isName_of_known (by decide)) (escapeXml_free _)).append
      (layout.after key).plain)

theorem avoids_deletionTokens (hname : name ∈ knownNames) (hne : name ≠ "Key") :
    Avoids name (deletionTokens layout key) :=
  ((layout.before key).avoids name hname).append
    ((avoids_elementTokens (isName_of_known hname) (isName_of_known (by decide)) hne).append
      ((layout.after key).avoids name hname))

/-- A deletion is matched as a whole. -/
theorem deletedPattern_block (layout : AnswerLayout) (hkey : key ≠ "") (rest : List Char) :
    deletedPattern (xmlText (blockTokens "Deleted" (deletionTokens layout key)) ++ rest)
      = some ((((), escapeXml key.toList), ()), rest) := by
  have htext : escapeXml key.toList ≠ [] := escapeXml_ne_nil (by simpa using hkey)
  have hopening := opening_blockTokens "Deleted" (deletionTokens layout key) rest
  rw [deletionTokens, xmlText_append, xmlText_append, List.append_assoc, List.append_assoc]
    at hopening
  exact followedBy_eq_some
    (followedBy_eq_some hopening (find_element (isName_of_known (by decide))
      (layout.before key).plain ((layout.before key).avoids _ (by decide)).1 htext
      (escapeXml_free _) _))
    (find_closing (isName_of_known (by decide)) (layout.after key).plain
      ((layout.after key).avoids _ (by decide)).2 rest)

/-- The key and the code of an error are read, and its message is looked for behind them. -/
theorem errorStart_block (layout : AnswerLayout) (hkey : key ≠ "") (hcode : code ≠ "")
    (inner : List (Token Char)) (rest : List Char) :
    errorStart (xmlText (blockTokens "Error" (errorHead layout key code ++ inner)) ++ rest)
      = some ((((), escapeXml key.toList), escapeXml code.toList),
        xmlText (layout.beforeMessage key).tokens ++
          (xmlText inner ++ (xmlText [closeTag "Error"] ++ rest))) := by
  have htext : escapeXml key.toList ≠ [] := escapeXml_ne_nil (by simpa using hkey)
  have htext' : escapeXml code.toList ≠ [] := escapeXml_ne_nil (by simpa using hcode)
  have hopening := opening_blockTokens "Error" (errorHead layout key code ++ inner) rest
  have hinner : ∀ rest, xmlText (errorHead layout key code ++ inner) ++ rest
      = xmlText (layout.before key).tokens ++ (xmlText (elementTokens "Key" (escapeXml key.toList)) ++
        (xmlText (layout.beforeCode key).tokens ++
          (xmlText (elementTokens "Code" (escapeXml code.toList)) ++
            (xmlText (layout.beforeMessage key).tokens ++ (xmlText inner ++ rest))))) := by
    intro rest
    simp only [errorHead, xmlText_append, List.append_assoc]
  rw [hinner] at hopening
  exact followedBy_eq_some
    (followedBy_eq_some hopening (find_element (isName_of_known (by decide))
      (layout.before key).plain ((layout.before key).avoids _ (by decide)).1 htext
      (escapeXml_free _) _))
    (find_element (isName_of_known (by decide)) (layout.beforeCode key).plain
      ((layout.beforeCode key).avoids _ (by decide)).1 htext' (escapeXml_free _) _)

/-- An error with a message is matched as a whole. -/
theorem errorPattern_block (layout : AnswerLayout) (hkey : key ≠ "") (hcode : code ≠ "")
    (hmessage : message ≠ "") (rest : List Char) :
    errorPattern (xmlText (blockTokens "Error" (errorTokens layout key code message)) ++ rest)
      = some ((((((), escapeXml key.toList), escapeXml code.toList), escapeXml message.toList), ()),
        rest) := by
  have htext : escapeXml message.toList ≠ [] := escapeXml_ne_nil (by simpa using hmessage)
  have hstart := errorStart_block layout hkey hcode
    (messageTokens layout message ++ (layout.after key).tokens) rest
  rw [messageTokens, if_neg hmessage, xmlText_append, List.append_assoc] at hstart
  rw [errorTokens, messageTokens, if_neg hmessage]
  exact followedBy_eq_some
    (followedBy_eq_some hstart (find_element (isName_of_known (by decide))
      (layout.beforeMessage key).plain ((layout.beforeMessage key).avoids _ (by decide)).1 htext
      (escapeXml_free _) _))
    (find_closing (isName_of_known (by decide)) (layout.after key).plain
      ((layout.after key).avoids _ (by decide)).2 rest)

/-- Behind the code of an error without a message, one is looked for in what follows. -/
theorem find_emptyMessage (layout : AnswerLayout) (rest : List Char) :
    find (element "Message") (xmlText (messageTokens layout "") ++ rest)
      = (find (element "Message") rest).map fun found ↦
        (xmlText (messageTokens layout "") ++ found.1, found.2) := by
  have hname : IsName "Message" := isName_of_known (by decide)
  have helement := onlyAt_element hname
  have hmark : '<' ∉ "Message".toList ++ ['>'] := by decide
  rw [messageTokens, if_pos rfl]
  split
  · have hsplit : ∀ rest, xmlText (elementTokens "Message" []) ++ rest
        = '<' :: ("Message".toList ++ ['>']) ++ (xmlText [closeTag "Message"] ++ rest) := by
      intro rest
      rw [xmlText_elementTokens]
      rfl
    have hnone : element "Message" (xmlText (elementTokens "Message" []) ++ rest) = none := by
      rw [xmlText_elementTokens]
      exact elementAt_of_nil rest
    have hplain : PlainTokens [closeTag "Message"] := by decide
    simp only [hsplit] at hnone ⊢
    rw [find_mark_append helement.starts hmark hnone, helement.find hplain (by decide),
      Option.map_map]
    rfl
  · exact helement.find layout.emptyMessage.plain (layout.emptyMessage.avoids _ (by decide)).1 rest

theorem plain_outcomeTokens (layout : AnswerLayout) (outcome : Outcome) :
    PlainTokens (outcomeTokens layout outcome) := by
  rcases outcome with key | ⟨key, code, message⟩
  · exact (layout.lead key).plain.append
      (plain_blockTokens (isName_of_known (by decide)) (plain_deletionTokens layout key))
  · exact (layout.lead key).plain.append
      (plain_blockTokens (isName_of_known (by decide)) (plain_errorTokens layout key code message))

theorem avoids_deleted (hname : name ∈ knownNames) (hkey : name ≠ "Key") (hne : name ≠ "Deleted") :
    Avoids name (outcomeTokens layout (.deleted key)) :=
  ((layout.lead key).avoids name hname).append
    (avoids_blockTokens (isName_of_known hname) (isName_of_known (by decide)) hne
      (avoids_deletionTokens hname hkey))

theorem avoids_failed (hname : name ∈ knownNames) (hkey : name ≠ "Key") (hcode : name ≠ "Code")
    (hmessage : name ≠ "Message") (hne : name ≠ "Error") :
    Avoids name (outcomeTokens layout (.failed key code message)) :=
  ((layout.lead key).avoids name hname).append
    (avoids_blockTokens (isName_of_known hname) (isName_of_known (by decide)) hne
      (avoids_errorTokens hname hkey hcode hmessage))

/-- The pieces of an error before its message. -/
def untilMessage (layout : AnswerLayout) (key code : String) : List (Token Char) :=
  (layout.lead key).tokens ++ openTag "Error" :: errorHead layout key code

def behindMessage (layout : AnswerLayout) (key : String) : List (Token Char) :=
  (layout.after key).tokens ++ [closeTag "Error"]

theorem xmlText_failed (layout : AnswerLayout) (key code message : String) (rest : List Char) :
    xmlText (outcomeTokens layout (.failed key code message)) ++ rest
      = xmlText (untilMessage layout key code) ++ (xmlText (messageTokens layout message) ++
        (xmlText (behindMessage layout key) ++ rest)) := by
  simp only [outcomeTokens, blockTokens, errorTokens, untilMessage, behindMessage, xmlText_append,
    xmlText_cons, List.append_assoc]

theorem plain_untilMessage (layout : AnswerLayout) (key code : String) :
    PlainTokens (untilMessage layout key code) := by
  refine (layout.lead key).plain.append fun token hmem ↦ ?_
  rcases List.mem_cons.mp hmem with rfl | hmem
  · exact (isName_of_known (by decide)).plain.1
  · exact plain_errorHead layout key code token hmem

theorem free_untilMessage (layout : AnswerLayout) (key code : String) :
    openTag "Message" ∉ untilMessage layout key code := by
  rw [untilMessage, List.mem_append, List.mem_cons, not_or, not_or]
  exact ⟨((layout.lead key).avoids _ (by decide)).1, by decide,
    (avoids_errorHead (by decide) (by decide) (by decide)).1⟩

theorem plain_behindMessage (layout : AnswerLayout) (key : String) :
    PlainTokens (behindMessage layout key) := by
  have hlast : PlainTokens [closeTag "Error"] := by decide
  exact (layout.after key).plain.append hlast

theorem free_behindMessage (layout : AnswerLayout) (key : String) :
    openTag "Message" ∉ behindMessage layout key := by
  rw [behindMessage, List.mem_append, not_or]
  exact ⟨((layout.after key).avoids _ (by decide)).1, by decide⟩

/-- Where an outcome has no message, one is looked for behind it. -/
theorem find_message_of_not_loud (layout : AnswerLayout) {outcome : Outcome} (h : ¬outcome.Loud) :
    ∃ before, ∀ rest, find (element "Message") (xmlText (outcomeTokens layout outcome) ++ rest)
      = (find (element "Message") rest).map fun found ↦ (before ++ found.1, found.2) := by
  have helement := onlyAt_element (isName_of_known (by decide : "Message" ∈ knownNames))
  rcases outcome with key | ⟨key, code, message⟩
  · exact ⟨_, fun rest ↦ helement.find (plain_outcomeTokens layout _)
      (avoids_deleted (by decide) (by decide) (by decide)).1 rest⟩
  · obtain rfl : message = "" := not_not.mp h
    refine ⟨xmlText (untilMessage layout key code) ++ (xmlText (messageTokens layout "") ++
      xmlText (behindMessage layout key)), fun rest ↦ ?_⟩
    rw [xmlText_failed, helement.find (plain_untilMessage layout key code)
      (free_untilMessage layout key code), find_emptyMessage,
      helement.find (plain_behindMessage layout key) (free_behindMessage layout key),
      Option.map_map, Option.map_map]
    refine congrArg (Option.map · _) (funext fun found ↦ ?_)
    simp only [Function.comp_apply, List.append_assoc]

/-- The message of an outcome is found, and what is left of the outcome is behind it. -/
theorem find_message_of_loud (layout : AnswerLayout) {outcome : Outcome} (h : outcome.Loud) :
    ∃ before text, ∀ rest,
      find (element "Message") (xmlText (outcomeTokens layout outcome) ++ rest)
        = some (before, text, xmlText (behindMessage layout outcome.key) ++ rest) := by
  rcases outcome with key | ⟨key, code, message⟩
  · exact h.elim
  · have hmessage : message ≠ "" := h
    have htext : escapeXml message.toList ≠ [] := escapeXml_ne_nil (by simpa using hmessage)
    refine ⟨xmlText (untilMessage layout key code), escapeXml message.toList, fun rest ↦ ?_⟩
    rw [xmlText_failed, messageTokens, if_neg hmessage]
    exact find_element (isName_of_known (by decide)) (plain_untilMessage layout key code)
      (free_untilMessage layout key code) htext (escapeXml_free _) _

/-- **A message that is found behind some outcomes** is that of one among them, and the outcomes
after it are left. -/
theorem find_message (layout : AnswerLayout) (outcomes : List Outcome) :
    find (element "Message") (xmlText (outcomes.flatMap (outcomeTokens layout)) ++
        xmlText layout.foot.tokens) = none ∨
      ∃ before text failed later, failed.Loud ∧ (failed :: later).Sublist outcomes ∧
        find (element "Message") (xmlText (outcomes.flatMap (outcomeTokens layout)) ++
            xmlText layout.foot.tokens)
          = some (before, text, xmlText (behindMessage layout failed.key) ++
              (xmlText (later.flatMap (outcomeTokens layout)) ++ xmlText layout.foot.tokens)) := by
  have helement := onlyAt_element (isName_of_known (by decide : "Message" ∈ knownNames))
  induction outcomes with
  | nil =>
    have hnone := helement.find layout.foot.plain (layout.foot.avoids _ (by decide)).1 []
    rw [List.append_nil] at hnone
    exact Or.inl hnone
  | cons outcome outcomes ih =>
    rw [List.flatMap_cons, xmlText_append, List.append_assoc]
    by_cases hloud : outcome.Loud
    · obtain ⟨before, text, hfind⟩ := find_message_of_loud layout hloud
      exact Or.inr ⟨before, text, outcome, outcomes, hloud, List.Sublist.refl _, hfind _⟩
    · obtain ⟨before, hfind⟩ := find_message_of_not_loud layout hloud
      rw [hfind]
      rcases ih with hnone | ⟨before', text, failed, later, hfailed, hsub, hsome⟩
      · exact Or.inl (by rw [hnone]; rfl)
      · exact Or.inr ⟨before ++ before', text, failed, later, hfailed, hsub.cons outcome,
          by rw [hsome]; rfl⟩

theorem onlyAt_errorPattern : OnlyAt "Error".toList errorPattern :=
  ((((onlyAt_opening (isName_of_known (by decide))).followedBy _).followedBy _).followedBy _).followedBy
    _

theorem consumes_errorPattern : Consumes errorPattern :=
  ((((consumes_literal (List.cons_ne_nil _ _)).followedBy consumes_elementAt).followedBy
    consumes_elementAt).followedBy consumes_elementAt).followedBy
      (consumes_literal (List.cons_ne_nil _ _))

theorem onlyAt_deletedPattern : OnlyAt "Deleted".toList deletedPattern :=
  ((onlyAt_opening (isName_of_known (by decide))).followedBy _).followedBy _

theorem consumes_deletedPattern : Consumes deletedPattern :=
  ((consumes_literal (List.cons_ne_nil _ _)).followedBy consumes_elementAt).followedBy
    (consumes_literal (List.cons_ne_nil _ _))

theorem matchAll_error_deleted (layout : AnswerLayout) (key : String) (rest : List Char) :
    matchAll errorPattern (xmlText (outcomeTokens layout (.deleted key)) ++ rest)
      = matchAll errorPattern rest :=
  onlyAt_errorPattern.matchAll (plain_outcomeTokens layout _)
    (avoids_deleted (by decide) (by decide) (by decide)).1 rest

theorem matchAll_error_lead (layout : AnswerLayout) (key code message : String)
    (rest : List Char) :
    matchAll errorPattern (xmlText (outcomeTokens layout (.failed key code message)) ++ rest)
      = matchAll errorPattern
          (xmlText (blockTokens "Error" (errorTokens layout key code message)) ++ rest) := by
  rw [outcomeTokens, xmlText_append, List.append_assoc]
  exact onlyAt_errorPattern.matchAll (layout.lead key).plain
    ((layout.lead key).avoids _ (by decide)).1 _

/-- An error with a message is one match. -/
theorem matchAll_error_loud (layout : AnswerLayout) (hkey : key ≠ "") (hcode : code ≠ "")
    (hmessage : message ≠ "") (rest : List Char) :
    matchAll errorPattern (xmlText (outcomeTokens layout (.failed key code message)) ++ rest)
      = (((((), escapeXml key.toList), escapeXml code.toList), escapeXml message.toList), ()) ::
        matchAll errorPattern rest := by
  rw [matchAll_error_lead]
  exact matchAll_of_some consumes_errorPattern (errorPattern_block layout hkey hcode hmessage rest)

theorem errorStart_silent (layout : AnswerLayout) (hkey : key ≠ "") (hcode : code ≠ "")
    (rest : List Char) :
    errorStart (xmlText (blockTokens "Error" (errorTokens layout key code "")) ++ rest)
      = some ((((), escapeXml key.toList), escapeXml code.toList),
        xmlText (layout.beforeMessage key).tokens ++ (xmlText (messageTokens layout "") ++
          (xmlText (behindMessage layout key) ++ rest))) := by
  rw [errorTokens, errorStart_block layout hkey hcode, behindMessage, xmlText_append,
    xmlText_append, List.append_assoc, List.append_assoc]

theorem find_message_silent (layout : AnswerLayout) (key : String) : ∃ before, ∀ rest,
    find (element "Message") (xmlText (layout.beforeMessage key).tokens ++
        (xmlText (messageTokens layout "") ++ (xmlText (behindMessage layout key) ++ rest)))
      = (find (element "Message") rest).map fun found ↦ (before ++ found.1, found.2) := by
  have helement := onlyAt_element (isName_of_known (by decide : "Message" ∈ knownNames))
  refine ⟨xmlText (layout.beforeMessage key).tokens ++ (xmlText (messageTokens layout "") ++
    xmlText (behindMessage layout key)), fun rest ↦ ?_⟩
  rw [helement.find (layout.beforeMessage key).plain
      ((layout.beforeMessage key).avoids _ (by decide)).1, find_emptyMessage,
    helement.find (plain_behindMessage layout key) (free_behindMessage layout key), Option.map_map,
    Option.map_map]
  refine congrArg (Option.map · _) (funext fun found ↦ ?_)
  simp only [Function.comp_apply, List.append_assoc]

/-- An error without a message is passed over where no message follows. -/
theorem matchAll_error_of_none (layout : AnswerLayout) (hkey : key ≠ "") (hcode : code ≠ "")
    {rest : List Char} (hnone : find (element "Message") rest = none) :
    matchAll errorPattern (xmlText (outcomeTokens layout (.failed key code "")) ++ rest)
      = matchAll errorPattern rest := by
  have hname : IsName "Error" := isName_of_known (by decide)
  have hlast : PlainTokens [closeTag "Error"] := by decide
  obtain ⟨before, hfind⟩ := find_message_silent layout key
  have hfound := hfind rest
  rw [hnone, Option.map_none] at hfound
  have hpattern : errorPattern
      (xmlText (blockTokens "Error" (errorTokens layout key code "")) ++ rest) = none := by
    have hmessage := followedBy_eq_none (errorStart_silent layout hkey hcode rest) hfound
    have hall : errorPattern = followedBy (followedBy errorStart (element "Message"))
        (closing "Error") := rfl
    rw [hall, followedBy, hmessage]
    rfl
  rw [matchAll_error_lead]
  refine matchAll_of_none onlyAt_errorPattern hname ?_ ?_ hpattern
  · exact (plain_errorTokens layout key code "").append hlast
  · rw [List.mem_append, not_or]
    exact ⟨(avoids_errorTokens (by decide) (by decide) (by decide) (by decide)).1, by decide⟩

/-- An error without a message takes the message that follows, and is read up to the end of its
error. -/
theorem matchAll_error_of_some (layout : AnswerLayout) (hkey : key ≠ "") (hcode : code ≠ "")
    {rest rest' before text : List Char} {other : String}
    (hsome : find (element "Message") rest
      = some (before, text, xmlText (behindMessage layout other) ++ rest')) :
    ∃ found, matchAll errorPattern (xmlText (outcomeTokens layout (.failed key code "")) ++ rest)
      = found :: matchAll errorPattern rest' := by
  obtain ⟨before', hfind⟩ := find_message_silent layout key
  have hfound := hfind rest
  have hclosing := find_closing (isName_of_known (by decide : "Error" ∈ knownNames))
    (layout.after other).plain ((layout.after other).avoids _ (by decide)).2 rest'
  rw [hsome, Option.map_some] at hfound
  rw [← List.append_assoc, ← xmlText_append] at hclosing
  have hmatch := followedBy_eq_some (followedBy_eq_some (errorStart_silent layout hkey hcode rest)
    hfound) hclosing
  rw [matchAll_error_lead]
  exact ⟨_, matchAll_of_some consumes_errorPattern hmatch⟩

theorem countP_loud_cons {outcome : Outcome} (h : outcome.Loud) (outcomes : List Outcome) :
    (outcome :: outcomes).countP (·.Loud) = outcomes.countP (·.Loud) + 1 :=
  List.countP_cons_of_pos (p := fun outcome : Outcome ↦ decide outcome.Loud) (decide_eq_true h)

/-- **No more errors are found** than have a message. -/
theorem length_matchAll_error_le (layout : AnswerLayout) (outcomes : List Outcome)
    (hwell : ∀ outcome ∈ outcomes, outcome.WellFormed) :
    (matchAll errorPattern (xmlText (outcomes.flatMap (outcomeTokens layout)) ++
      xmlText layout.foot.tokens)).length ≤ outcomes.countP (·.Loud) := by
  induction hlength : outcomes.length using Nat.strong_induction_on generalizing outcomes with
  | _ length ih =>
  rcases outcomes with _ | ⟨outcome, outcomes⟩
  · have hfoot := onlyAt_errorPattern.matchAll layout.foot.plain (layout.foot.avoids _ (by decide)).1
      []
    rw [List.append_nil] at hfoot
    rw [List.flatMap_nil, xmlText, render, List.flatMap_nil, List.nil_append, hfoot]
    exact Nat.zero_le _
  · have hrest := ih outcomes.length (by rw [← hlength]; exact Nat.lt_succ_self _) outcomes
      (fun outcome hmem ↦ hwell outcome (List.mem_cons_of_mem _ hmem)) rfl
    have hfirst := hwell outcome List.mem_cons_self
    rw [List.flatMap_cons, xmlText_append, List.append_assoc]
    rcases outcome with key | ⟨key, code, message⟩
    · rw [matchAll_error_deleted]
      exact hrest.trans (List.sublist_cons_self _ _).countP_le
    · by_cases hmessage : message = ""
      · subst hmessage
        rcases find_message layout outcomes with hnone | ⟨before, text, failed, later, hfailed, hsub,
          hsome⟩
        · rw [matchAll_error_of_none layout hfirst.1 hfirst.2 hnone]
          exact hrest.trans (List.sublist_cons_self _ _).countP_le
        · obtain ⟨found, hmatch⟩ := matchAll_error_of_some layout hfirst.1 hfirst.2 hsome
          have hlater := ih later.length (by
            rw [← hlength, List.length_cons]
            exact Nat.lt_succ_of_lt hsub.length_le) later
            (fun outcome hmem ↦ hwell outcome
              (List.mem_cons_of_mem _ (hsub.subset (List.mem_cons_of_mem _ hmem)))) rfl
          rw [hmatch, List.length_cons]
          calc (matchAll errorPattern (xmlText (later.flatMap (outcomeTokens layout)) ++
                  xmlText layout.foot.tokens)).length + 1
              ≤ later.countP (·.Loud) + 1 := Nat.succ_le_succ hlater
            _ = (failed :: later).countP (·.Loud) := (countP_loud_cons hfailed later).symm
            _ ≤ (Outcome.failed key code "" :: outcomes).countP (·.Loud) :=
                (hsub.cons _).countP_le
      · have hloud : (Outcome.failed key code message).Loud := hmessage
        rw [matchAll_error_loud layout hfirst.1 hfirst.2 hmessage, List.length_cons,
          countP_loud_cons hloud]
        exact Nat.succ_le_succ hrest

/-- **The deleted keys** are found in their order. -/
theorem deletedKeys_answerXml (layout : AnswerLayout)
    (hwell : ∀ outcome ∈ outcomes, outcome.WellFormed) :
    deletedKeys (answerXml layout outcomes)
      = (outcomes.filterMap Outcome.deletedKey).map listedText := by
  have hpieces : ∀ outcome ∈ outcomes, ∀ rest,
      matchAll deletedPattern (xmlText (outcomeTokens layout outcome) ++ rest)
        = (outcome.deletedKey.map fun key ↦ ((((), escapeXml key.toList), ()) :
            (Unit × List Char) × Unit)).toList ++ matchAll deletedPattern rest := by
    intro outcome hmem rest
    have hkey := hwell outcome hmem
    rcases outcome with key | ⟨key, code, message⟩
    · rw [outcomeTokens, xmlText_append, List.append_assoc, onlyAt_deletedPattern.matchAll
        (layout.lead key).plain ((layout.lead key).avoids _ (by decide)).1]
      exact matchAll_of_some consumes_deletedPattern (deletedPattern_block layout hkey rest)
    · exact onlyAt_deletedPattern.matchAll (plain_outcomeTokens layout _)
        (avoids_failed (by decide) (by decide) (by decide) (by decide) (by decide)).1 rest
  have hfoot : matchAll deletedPattern (xmlText layout.foot.tokens) = [] := by
    have hall := onlyAt_deletedPattern.matchAll layout.foot.plain
      (layout.foot.avoids _ (by decide)).1 []
    rwa [List.append_nil] at hall
  rw [deletedKeys, answerXml, xmlText_append, onlyAt_deletedPattern.matchAll layout.head.plain
    (layout.head.avoids _ (by decide)).1, xmlText_append, xmlText_flatMap, matchAll_flatMap hpieces,
    hfoot, List.append_nil, ← List.filterMap_eq_flatMap_toList, List.map_filterMap,
    List.map_filterMap]
  refine List.filterMap_congr fun outcome _ ↦ ?_
  rw [Option.map_map]
  refine congrArg (Option.map · _) (funext fun key ↦ ?_)
  rw [Function.comp_apply, decodeXmlEntities_escapeXml]
  rfl

/-- What the pattern of an error finds of an outcome. -/
def errorMatch : Outcome → Option ((((Unit × List Char) × List Char) × List Char) × Unit)
  | .deleted _ => none
  | .failed key code message =>
    some (((((), escapeXml key.toList), escapeXml code.toList), escapeXml message.toList), ())

/-- **The errors** are found in their order where each has a message. -/
theorem deleteErrors_answerXml (layout : AnswerLayout)
    (hwell : ∀ outcome ∈ outcomes, outcome.WellFormed)
    (hloud : ∀ key code, Outcome.failed key code "" ∉ outcomes) :
    deleteErrors (answerXml layout outcomes) = outcomes.filterMap Outcome.error := by
  have hpieces : ∀ outcome ∈ outcomes, ∀ rest,
      matchAll errorPattern (xmlText (outcomeTokens layout outcome) ++ rest)
        = (errorMatch outcome).toList ++ matchAll errorPattern rest := by
    intro outcome hmem rest
    have hkey := hwell outcome hmem
    rcases outcome with key | ⟨key, code, message⟩
    · exact matchAll_error_deleted layout key rest
    · have hmessage : message ≠ "" := by
        rintro rfl
        exact hloud key code hmem
      exact matchAll_error_loud layout hkey.1 hkey.2 hmessage rest
  have hfoot : matchAll errorPattern (xmlText layout.foot.tokens) = [] := by
    have hall := onlyAt_errorPattern.matchAll layout.foot.plain
      (layout.foot.avoids _ (by decide)).1 []
    rwa [List.append_nil] at hall
  rw [deleteErrors, answerXml, xmlText_append, onlyAt_errorPattern.matchAll layout.head.plain
    (layout.head.avoids _ (by decide)).1, xmlText_append, xmlText_flatMap, matchAll_flatMap hpieces,
    hfoot, List.append_nil, ← List.filterMap_eq_flatMap_toList, List.map_filterMap]
  refine List.filterMap_congr fun outcome _ ↦ ?_
  rcases outcome with key | ⟨key, code, message⟩
  · rfl
  · simp only [errorMatch, Option.map_some, decodeXmlEntities_escapeXml]
    rfl

/-- At most as many errors are found as have a message. -/
theorem length_deleteErrors_le (layout : AnswerLayout)
    (hwell : ∀ outcome ∈ outcomes, outcome.WellFormed) :
    (deleteErrors (answerXml layout outcomes)).length ≤ outcomes.countP (·.Loud) := by
  rw [deleteErrors, List.length_map, answerXml, xmlText_append, onlyAt_errorPattern.matchAll
    layout.head.plain (layout.head.avoids _ (by decide)).1, xmlText_append]
  exact length_matchAll_error_le layout outcomes hwell

end Answers

end UkAqOps.R2

import UkAqOps.R2.ObjectKeys

/-!
# Entities of XML

A store writes the five characters that XML has entities for as entities. The client writes them in
the same way, and reads back all of them but the apostrophe, which it looks for under another name.
-/

namespace UkAqOps.R2

open Scanning

/-- The names of the predefined entities. -/
def entityName (c : Char) : Option String :=
  if c = '&' then some "amp"
  else if c = '<' then some "lt"
  else if c = '>' then some "gt"
  else if c = '"' then some "quot"
  else if c = apostrophe then some "apos"
  else none

def entity (name : String) : List Char := tagChars '&' ';' name.toList

def escapeXmlChar (c : Char) : List Char := ((entityName c).map entity).getD [c]

/-- A text as a store writes it. -/
def escapeXml (cs : List Char) : List Char := cs.flatMap escapeXmlChar

/-- A text as a store reads it. -/
def readXmlText (cs : List Char) : List Char :=
  let lower := replaceAll (entity "lt") ['<'] cs
  let greater := replaceAll (entity "gt") ['>'] lower
  let quoted := replaceAll (entity "quot") ['"'] greater
  let single := replaceAll (entity "apos") [apostrophe] quoted
  replaceAll (entity "amp") ['&'] single

/-- What the client makes of a text that a store has written. -/
def listed (cs : List Char) : List Char :=
  cs.flatMap fun c ↦ if c = apostrophe then entity "apos" else [c]

section Entities

variable {c c' : Char} {name : String} {cs cs' : List Char}

/-- The characters with an entity. -/
theorem entityName_eq_some_iff : entityName c = some name ↔
    c = '&' ∧ name = "amp" ∨ c = '<' ∧ name = "lt" ∨ c = '>' ∧ name = "gt" ∨
      c = '"' ∧ name = "quot" ∨ c = apostrophe ∧ name = "apos" := by
  constructor
  · intro h
    rw [entityName] at h
    split at h
    · exact Or.inl ⟨‹_›, (Option.some.inj h).symm⟩
    · split at h
      · exact Or.inr (Or.inl ⟨‹_›, (Option.some.inj h).symm⟩)
      · split at h
        · exact Or.inr (Or.inr (Or.inl ⟨‹_›, (Option.some.inj h).symm⟩))
        · split at h
          · exact Or.inr (Or.inr (Or.inr (Or.inl ⟨‹_›, (Option.some.inj h).symm⟩)))
          · split at h
            · exact Or.inr (Or.inr (Or.inr (Or.inr ⟨‹_›, (Option.some.inj h).symm⟩)))
            · exact nomatch h
  · rintro (⟨rfl, rfl⟩ | ⟨rfl, rfl⟩ | ⟨rfl, rfl⟩ | ⟨rfl, rfl⟩ | ⟨rfl, rfl⟩)
    · rfl
    · decide
    · decide
    · decide
    · decide

theorem entityName_free (h : entityName c = some name) : '&' ∉ name.toList ∧ ';' ∉ name.toList ∧
    '<' ∉ name.toList ∧ name ≠ "#39" := by
  rcases entityName_eq_some_iff.mp h with ⟨-, rfl⟩ | ⟨-, rfl⟩ | ⟨-, rfl⟩ | ⟨-, rfl⟩ | ⟨-, rfl⟩
  · decide
  · decide
  · decide
  · decide
  · decide

theorem entityName_injective (h : entityName c = some name) (h' : entityName c' = some name) :
    c = c' := by
  rcases entityName_eq_some_iff.mp h with ⟨rfl, rfl⟩ | ⟨rfl, rfl⟩ | ⟨rfl, rfl⟩ | ⟨rfl, rfl⟩ |
    ⟨rfl, rfl⟩ <;>
  rcases entityName_eq_some_iff.mp h' with ⟨rfl, h⟩ | ⟨rfl, h⟩ | ⟨rfl, h⟩ | ⟨rfl, h⟩ | ⟨rfl, h⟩ <;>
  first
  | rfl
  | exact absurd h (by decide)

/-- **Replacing an entity** in a text whose characters are written one by one. -/
theorem replaceAll_flatMap {word new : List Char} (hword : ';' ∉ word)
    {write write' : Char → List Char}
    (h : ∀ c ∈ cs, (write c = tagChars '&' ';' word ∧ write' c = new) ∨
      write' c = write c ∧ ('&' ∉ write c ∨ ∃ name, write c = tagChars '&' ';' name ∧
        name ≠ word ∧ '&' ∉ name ∧ ';' ∉ name)) :
    replaceAll (tagChars '&' ';' word) new (cs.flatMap write) = cs.flatMap write' := by
  induction cs with
  | nil => rfl
  | cons c cs ih =>
    have hrest := ih fun c hmem ↦ h c (List.mem_cons_of_mem _ hmem)
    rw [List.flatMap_cons, List.flatMap_cons, ← hrest]
    rcases h c List.mem_cons_self with ⟨hwrite, hnew⟩ | ⟨hsame, hfree | ⟨name, hwrite, hne, hamp,
      hend⟩⟩
    · rw [hwrite, hnew]
      exact replaceAll_word _ _ _ _
    · rw [hsame]
      exact replaceAll_append _ _ hfree _
    · rw [hsame, hwrite]
      refine replaceAll_mark_append _ ?_ fun hstart ↦ ?_
      · rw [List.mem_append, List.mem_singleton, not_or]
        exact ⟨hamp, by decide⟩
      · exact hne ((tagChars_prefix_iff hword hend).mp hstart).symm

/-- A text in which some of the characters are read back. -/
def partlyRead (done : List Char) (c : Char) : List Char := if c ∈ done then [c] else escapeXmlChar c

theorem partlyRead_cases (done : List Char) (hamp : '&' ∉ done) (c : Char) :
    '&' ∉ partlyRead done c ∨ ∃ name, entityName c = some name ∧ c ∉ done ∧
      partlyRead done c = entity name := by
  by_cases hdone : c ∈ done
  · rw [partlyRead, if_pos hdone, List.mem_singleton]
    exact Or.inl fun heq ↦ hamp (heq ▸ hdone)
  · rw [partlyRead, if_neg hdone, escapeXmlChar]
    rcases hname : entityName c with _ | name
    · left
      rw [Option.map_none, Option.getD_none, List.mem_singleton]
      rintro rfl
      cases hname
    · exact Or.inr ⟨name, rfl, hdone, rfl⟩

theorem replaceAll_partlyRead {done : List Char} (hamp : '&' ∉ done) (hc : c ∉ done)
    (hname : entityName c = some name) :
    replaceAll (entity name) [c] (cs.flatMap (partlyRead done))
      = cs.flatMap (partlyRead (c :: done)) := by
  refine replaceAll_flatMap (entityName_free hname).2.1 fun d _ ↦ ?_
  by_cases hd : d = c
  · refine Or.inl ⟨?_, ?_⟩
    · rw [hd, partlyRead, if_neg hc, escapeXmlChar, hname]
      rfl
    · rw [hd, partlyRead, if_pos List.mem_cons_self]
  · have hsame : partlyRead (c :: done) d = partlyRead done d := by
      simp only [partlyRead, List.mem_cons, hd, false_or]
    refine Or.inr ⟨hsame, ?_⟩
    rcases partlyRead_cases done hamp d with hfree | ⟨name', hname', -, hwrite⟩
    · exact Or.inl hfree
    · obtain ⟨hamp', hend', -⟩ := entityName_free hname'
      refine Or.inr ⟨name'.toList, hwrite, fun heq ↦ hd ?_, hamp', hend'⟩
      rw [String.toList_injective heq] at hname'
      exact entityName_injective hname' hname

theorem escapeXml_eq_partlyRead (cs : List Char) : escapeXml cs = cs.flatMap (partlyRead []) := by
  refine List.flatMap_congr fun c _ ↦ ?_
  rw [partlyRead, if_neg List.not_mem_nil]

/-- A character that stands for itself in all these texts. -/
theorem partlyRead_eq_singleton {done : List Char}
    (h : ∀ name, entityName c = some name → c ∈ done) : partlyRead done c = [c] := by
  rw [partlyRead]
  split
  · rfl
  · rename_i hmem
    rcases hname : entityName c with _ | name
    · rw [escapeXmlChar, hname]
      rfl
    · exact absurd (h name hname) hmem

/-- The first three characters are read back by the client and by a store. -/
theorem replaceAll_escapeXml (cs : List Char) :
    replaceAll (entity "quot") ['"'] (replaceAll (entity "gt") ['>']
        (replaceAll (entity "lt") ['<'] (escapeXml cs)))
      = cs.flatMap (partlyRead ['"', '>', '<']) := by
  rw [escapeXml_eq_partlyRead,
    replaceAll_partlyRead (by decide) (by decide) (show entityName '<' = some "lt" by decide),
    replaceAll_partlyRead (by decide) (by decide) (show entityName '>' = some "gt" by decide),
    replaceAll_partlyRead (by decide) (by decide) (show entityName '"' = some "quot" by decide)]

/-- **A store reads** what it has written. -/
theorem readXmlText_escapeXml (cs : List Char) : readXmlText (escapeXml cs) = cs := by
  simp only [readXmlText, replaceAll_escapeXml]
  rw [replaceAll_partlyRead (by decide) (by decide)
      (show entityName apostrophe = some "apos" by decide),
    replaceAll_partlyRead (by decide) (by decide) (show entityName '&' = some "amp" by decide)]
  conv_rhs => rw [← List.flatMap_singleton' cs]
  refine List.flatMap_congr fun c _ ↦ partlyRead_eq_singleton fun name hname ↦ ?_
  rcases entityName_eq_some_iff.mp hname with ⟨rfl, -⟩ | ⟨rfl, -⟩ | ⟨rfl, -⟩ | ⟨rfl, -⟩ | ⟨rfl, -⟩
  · decide
  · decide
  · decide
  · decide
  · decide

/-- **The client reads** what a store has written, but for its apostrophes. -/
theorem decodeXmlEntities_escapeXml (cs : List Char) :
    decodeXmlEntities (escapeXml cs) = listed cs := by
  have hfirst : replaceAll "&quot;".toList ['"'] (replaceAll "&gt;".toList ['>']
      (replaceAll "&lt;".toList ['<'] (escapeXml cs))) = cs.flatMap (partlyRead ['"', '>', '<']) :=
    replaceAll_escapeXml cs
  have hnone : replaceAll "&#39;".toList [apostrophe]
      (cs.flatMap (partlyRead ['"', '>', '<'])) = cs.flatMap (partlyRead ['"', '>', '<']) := by
    have hword : "&#39;".toList = tagChars '&' ';' "#39".toList := rfl
    rw [hword]
    refine replaceAll_flatMap (by decide) fun d _ ↦ Or.inr ⟨rfl, ?_⟩
    rcases partlyRead_cases ['"', '>', '<'] (by decide) d with hfree | ⟨name', hname', -, hwrite⟩
    · exact Or.inl hfree
    · obtain ⟨hamp', hend', -, hne⟩ := entityName_free hname'
      exact Or.inr ⟨name'.toList, hwrite, fun heq ↦ hne (String.toList_injective heq), hamp', hend'⟩
  have hamp : replaceAll "&amp;".toList ['&'] (cs.flatMap (partlyRead ['"', '>', '<']))
      = cs.flatMap (partlyRead ['&', '"', '>', '<']) :=
    replaceAll_partlyRead (by decide) (by decide) (show entityName '&' = some "amp" by decide)
  simp only [decodeXmlEntities, hfirst, hnone, hamp]
  refine List.flatMap_congr fun c _ ↦ ?_
  by_cases hc : c = apostrophe
  · rw [if_pos hc, hc]
    decide
  · rw [if_neg hc]
    refine partlyRead_eq_singleton fun name hname ↦ ?_
    rcases entityName_eq_some_iff.mp hname with ⟨rfl, -⟩ | ⟨rfl, -⟩ | ⟨rfl, -⟩ | ⟨rfl, -⟩ | ⟨rfl, -⟩
    · decide
    · decide
    · decide
    · decide
    · exact absurd rfl hc

/-- The client writes a key as a store does. -/
theorem escapeKey_eq (cs : List Char) : escapeKey cs = escapeXml cs := by
  simp only [escapeKey, replaceChar, List.flatMap_assoc]
  refine List.flatMap_congr fun c _ ↦ ?_
  by_cases hamp : c = '&'
  · rw [hamp]
    decide
  by_cases hlower : c = '<'
  · rw [hlower]
    decide
  by_cases hgreater : c = '>'
  · rw [hgreater]
    decide
  by_cases hquote : c = '"'
  · rw [hquote]
    decide
  by_cases hsingle : c = apostrophe
  · rw [hsingle]
    decide
  · simp [escapeXmlChar, entityName, hamp, hlower, hgreater, hquote, hsingle]

theorem escapeXml_free (cs : List Char) : '<' ∉ escapeXml cs := by
  intro hmem
  obtain ⟨c, -, hmem⟩ := List.mem_flatMap.mp hmem
  rw [escapeXmlChar] at hmem
  rcases hname : entityName c with _ | name
  · rw [hname, Option.map_none, Option.getD_none, List.mem_singleton] at hmem
    rw [← hmem] at hname
    cases hname
  · rw [hname, Option.map_some, Option.getD_some, entity, tagChars, List.mem_cons,
      List.mem_append, List.mem_singleton] at hmem
    rcases hmem with h | h | h
    · exact absurd h (by decide)
    · exact (entityName_free hname).2.2.1 h
    · exact absurd h (by decide)

theorem escapeXml_ne_nil (h : cs ≠ []) : escapeXml cs ≠ [] := by
  obtain ⟨c, rest, rfl⟩ := List.exists_cons_of_ne_nil h
  rw [escapeXml, List.flatMap_cons, escapeXmlChar]
  rcases entityName c with _ | name
  · exact List.cons_ne_nil _ _
  · exact List.cons_ne_nil _ _

theorem listed_eq_self (h : apostrophe ∉ cs) : listed cs = cs := by
  rw [listed]
  conv_rhs => rw [← List.flatMap_singleton' cs]
  refine List.flatMap_congr fun c hmem ↦ if_neg ?_
  rintro rfl
  exact h hmem

theorem length_listed (cs : List Char) :
    (listed cs).length = cs.length + 5 * cs.countP (· = apostrophe) := by
  induction cs with
  | nil => rfl
  | cons c cs ih =>
    have hcons : listed (c :: cs) = (if c = apostrophe then entity "apos" else [c]) ++ listed cs :=
      List.flatMap_cons
    rw [hcons, List.length_append, ih, List.length_cons, List.countP_cons]
    by_cases hc : c = apostrophe
    · have hentity : (entity "apos").length = 6 := by decide
      simp only [hc, if_true, hentity, decide_true]
      omega
    · simp only [hc, if_false, List.length_singleton, decide_false, Bool.false_eq_true]
      omega

end Entities

end UkAqOps.R2

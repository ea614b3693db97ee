import Mathlib.Data.List.Infix

/-!
# Scanning a text for patterns

A pattern reads something at the start of a text and leaves the text behind it. It is searched for at
one position after the other, and all its matches are found by searching on behind each of them. A
pattern that starts with a mark is not found within a text that has no marks, so a text that is made
of marked pieces is scanned piece by piece.
-/

namespace Scanning

variable {κ α β : Type} [DecidableEq κ]

/-! ## Patterns -/

/-- What a pattern reads at the start of a text, and the text behind it. -/
abbrev Pattern (κ α : Type) := List κ → Option (α × List κ)

/-- A word that is read as it stands. -/
def literal (word : List κ) : Pattern κ Unit := fun cs ↦
  if word <+: cs then some ((), cs.drop word.length) else none

/-- The first match of a pattern in a text, with the text before it. -/
def find (f : Pattern κ α) : List κ → Option (List κ × α × List κ)
  | [] => none
  | c :: cs =>
    match f (c :: cs) with
    | some found => some ([], found)
    | none => (find f cs).map fun found ↦ (c :: found.1, found.2)

/-- One pattern, and the first match of another anywhere behind it. Whatever the second one finds
behind a later match of the first one, it finds behind the first match too, so there is no need to
go back. -/
def followedBy (f : Pattern κ α) (g : Pattern κ β) : Pattern κ (α × β) := fun cs ↦ do
  let (a, rest) ← f cs
  let (_, b, rest) ← find g rest
  return ((a, b), rest)

/-- The matches from a text on, after a number of characters that belong to the match before. -/
def scan (f : Pattern κ α) : ℕ → List κ → List α
  | _, [] => []
  | skipped + 1, _ :: cs => scan f skipped cs
  | 0, c :: cs =>
    match f (c :: cs) with
    | none => scan f 0 cs
    | some (a, rest) => a :: scan f (cs.length - rest.length) cs

/-- All matches of a pattern, none within another. -/
def matchAll (f : Pattern κ α) (cs : List κ) : List α := scan f 0 cs

variable {f : Pattern κ α} {g : Pattern κ β} {word text rest : List κ} {mark : κ}

theorem literal_append (word rest : List κ) : literal word (word ++ rest) = some ((), rest) := by
  rw [literal, if_pos (List.prefix_append _ _), List.drop_left]

theorem literal_eq_none (h : ¬word <+: text) : literal word text = none := if_neg h

/-! ## Marks -/

/-- A pattern that starts with a mark. -/
def StartsWith (mark : κ) (f : Pattern κ α) : Prop := ∀ c cs, c ≠ mark → f (c :: cs) = none

theorem startsWith_literal (word : List κ) : StartsWith mark (literal (mark :: word)) := by
  intro c cs hne
  refine literal_eq_none fun hstart ↦ hne ?_
  exact (List.cons_prefix_cons.mp hstart).1.symm

omit [DecidableEq κ] in
theorem StartsWith.followedBy (h : StartsWith mark f) (g : Pattern κ β) :
    StartsWith mark (followedBy f g) := by
  intro c cs hne
  rw [Scanning.followedBy, h c cs hne]
  rfl

omit [DecidableEq κ] in
/-- A text without marks is passed over. -/
theorem find_append (h : StartsWith mark f) (hfree : mark ∉ text) (rest : List κ) :
    find f (text ++ rest) = (find f rest).map fun found ↦ (text ++ found.1, found.2) := by
  induction text with
  | nil =>
    rw [List.nil_append]
    exact Option.map_id'.symm
  | cons c text ih =>
    rw [List.mem_cons, not_or] at hfree
    rw [List.cons_append, find, h c _ (Ne.symm hfree.1), ih hfree.2]
    dsimp only
    rw [Option.map_map]
    rfl

omit [DecidableEq κ] in
/-- A marked piece that does not match is passed over. -/
theorem find_mark_append (h : StartsWith mark f) (hfree : mark ∉ text)
    (hnone : f (mark :: text ++ rest) = none) : find f (mark :: text ++ rest)
      = (find f rest).map fun found ↦ (mark :: text ++ found.1, found.2) := by
  rw [List.cons_append] at hnone
  rw [List.cons_append, find, hnone, find_append h hfree]
  dsimp only
  rw [Option.map_map]
  rfl

omit [DecidableEq κ] in
theorem find_of_match {c : κ} {cs : List κ} {found : α × List κ} (h : f (c :: cs) = some found) :
    find f (c :: cs) = some ([], found) := by
  rw [find, h]

omit [DecidableEq κ] in
theorem scan_length (f : Pattern κ α) (text rest : List κ) :
    scan f text.length (text ++ rest) = scan f 0 rest := by
  induction text with
  | nil => rfl
  | cons c text ih => exact ih

omit [DecidableEq κ] in
/-- **A match** is followed by the matches behind it. -/
theorem matchAll_of_match {c : κ} {a : α} (h : f (c :: text ++ rest) = some (a, rest)) :
    matchAll f (c :: text ++ rest) = a :: matchAll f rest := by
  rw [List.cons_append] at h
  rw [matchAll, List.cons_append, scan, h]
  dsimp only
  rw [List.length_append, Nat.add_sub_cancel, scan_length, matchAll]

omit [DecidableEq κ] in
theorem matchAll_append (h : StartsWith mark f) (hfree : mark ∉ text) (rest : List κ) :
    matchAll f (text ++ rest) = matchAll f rest := by
  induction text with
  | nil => rfl
  | cons c text ih =>
    rw [List.mem_cons, not_or] at hfree
    rw [← ih hfree.2, matchAll, List.cons_append, scan, h c _ (Ne.symm hfree.1)]
    rfl

omit [DecidableEq κ] in
theorem matchAll_mark_append (h : StartsWith mark f) (hfree : mark ∉ text)
    (hnone : f (mark :: text ++ rest) = none) :
    matchAll f (mark :: text ++ rest) = matchAll f rest := by
  rw [List.cons_append] at hnone
  rw [matchAll, List.cons_append, scan, hnone]
  exact matchAll_append h hfree rest

omit [DecidableEq κ] in
/-- Pieces whose matches are known, whatever stands behind them. -/
theorem matchAll_flatMap {ι : Type} {pieces : ι → List κ} {values : ι → List α} {is : List ι}
    (h : ∀ i ∈ is, ∀ rest, matchAll f (pieces i ++ rest) = values i ++ matchAll f rest)
    (rest : List κ) :
    matchAll f (is.flatMap pieces ++ rest) = is.flatMap values ++ matchAll f rest := by
  induction is with
  | nil => rfl
  | cons i is ih =>
    rw [List.flatMap_cons, List.append_assoc, h i List.mem_cons_self,
      ih fun i hmem ↦ h i (List.mem_cons_of_mem _ hmem), List.flatMap_cons, List.append_assoc]

/-! ## What a match consumes -/

/-- A match is a text that is not empty, and the text behind it is left. -/
def Consumes (f : Pattern κ α) : Prop :=
  ∀ cs a rest, f cs = some (a, rest) → ∃ used, used ≠ [] ∧ cs = used ++ rest

theorem consumes_literal (hne : word ≠ []) : Consumes (literal word) := by
  intro cs a rest h
  rw [literal, Option.ite_none_right_eq_some] at h
  obtain ⟨⟨tail, rfl⟩, h⟩ := h
  rw [List.drop_left, Option.some.injEq, Prod.mk.injEq] at h
  exact ⟨word, hne, by rw [h.2]⟩

omit [DecidableEq κ] in
theorem Consumes.find (h : Consumes f) {cs before : List κ} {a : α}
    (hfind : find f cs = some (before, a, rest)) : ∃ used, cs = before ++ used ++ rest := by
  induction cs generalizing before with
  | nil => exact nomatch hfind
  | cons c cs ih =>
    rw [Scanning.find] at hfind
    rcases hmatch : f (c :: cs) with _ | ⟨a', rest'⟩
    · rw [hmatch] at hfind
      obtain ⟨⟨before', found⟩, hfound, heq⟩ := Option.map_eq_some_iff.mp hfind
      rw [Prod.mk.injEq] at heq
      obtain ⟨rfl, rfl⟩ := heq
      obtain ⟨used, hused⟩ := ih hfound
      exact ⟨used, by rw [hused]; rfl⟩
    · rw [hmatch, Option.some.injEq, Prod.mk.injEq, Prod.mk.injEq] at hfind
      obtain ⟨rfl, rfl, rfl⟩ := hfind
      obtain ⟨used, -, hused⟩ := h _ _ _ hmatch
      exact ⟨used, by rw [hused]; rfl⟩

omit [DecidableEq κ] in
theorem followedBy_eq_some {cs rest' before : List κ} {a : α} {b : β} (h : f cs = some (a, rest))
    (h' : find g rest = some (before, b, rest')) : followedBy f g cs = some ((a, b), rest') := by
  rw [followedBy, h]
  simp only [Option.bind_eq_bind, Option.bind_some, h']
  rfl

omit [DecidableEq κ] in
theorem followedBy_eq_none {cs : List κ} {a : α} (h : f cs = some (a, rest))
    (h' : find g rest = none) : followedBy f g cs = none := by
  rw [followedBy, h]
  simp only [Option.bind_eq_bind, Option.bind_some, h', Option.bind_none]

omit [DecidableEq κ] in
theorem Consumes.followedBy (h : Consumes f) (h' : Consumes g) : Consumes (followedBy f g) := by
  intro cs ab rest hmatch
  rw [Scanning.followedBy] at hmatch
  obtain ⟨⟨a, rest₁⟩, hf, hmatch⟩ := Option.bind_eq_some_iff.mp hmatch
  obtain ⟨⟨before, b, rest₂⟩, hg, hmatch⟩ := Option.bind_eq_some_iff.mp hmatch
  rw [Option.pure_def, Option.some.injEq, Prod.mk.injEq] at hmatch
  obtain ⟨used, hne, hused⟩ := h cs a rest₁ hf
  obtain ⟨used', hused'⟩ := h'.find hg
  refine ⟨used ++ (before ++ used'), ?_, ?_⟩
  · rw [ne_eq, List.append_eq_nil_iff, not_and_or]
    exact Or.inl hne
  · rw [hused, hused', ← hmatch.2]
    simp only [List.append_assoc]

omit [DecidableEq κ] in
theorem Consumes.matchAll (h : Consumes f) {c : κ} {cs : List κ} {a : α}
    (hmatch : f (c :: cs) = some (a, rest)) : matchAll f (c :: cs) = a :: matchAll f rest := by
  obtain ⟨used, hne, hused⟩ := h _ _ _ hmatch
  obtain ⟨c', used, rfl⟩ := List.exists_cons_of_ne_nil hne
  rw [hused] at hmatch ⊢
  exact matchAll_of_match hmatch

/-! ## Replacing -/

/-- Replace a word from a text on, after a number of characters that belong to the word before. -/
def replaceFrom (word new : List κ) : ℕ → List κ → List κ
  | _, [] => []
  | skipped + 1, _ :: cs => replaceFrom word new skipped cs
  | 0, c :: cs =>
    if word <+: c :: cs then new ++ replaceFrom word new (word.length - 1) cs
    else c :: replaceFrom word new 0 cs

/-- Replace a word wherever it stands. -/
def replaceAll (word new cs : List κ) : List κ := replaceFrom word new 0 cs

theorem replaceFrom_length (word new text rest : List κ) :
    replaceFrom word new text.length (text ++ rest) = replaceFrom word new 0 rest := by
  induction text with
  | nil => rfl
  | cons c text ih => exact ih

theorem replaceAll_word (mark : κ) (word new rest : List κ) :
    replaceAll (mark :: word) new (mark :: word ++ rest)
      = new ++ replaceAll (mark :: word) new rest := by
  have hstart : mark :: word <+: mark :: (word ++ rest) := List.prefix_append (mark :: word) rest
  rw [replaceAll, List.cons_append, replaceFrom, if_pos hstart, List.length_cons,
    Nat.add_sub_cancel, replaceFrom_length]
  rfl

theorem replaceAll_append (word new : List κ) (hfree : mark ∉ text) (rest : List κ) :
    replaceAll (mark :: word) new (text ++ rest) = text ++ replaceAll (mark :: word) new rest := by
  induction text with
  | nil => rfl
  | cons c text ih =>
    rw [List.mem_cons, not_or] at hfree
    have hne : ¬mark :: word <+: c :: (text ++ rest) := fun hstart ↦
      hfree.1 (List.cons_prefix_cons.mp hstart).1
    rw [replaceAll, List.cons_append, replaceFrom, if_neg hne, List.cons_append, ← ih hfree.2]
    rfl

theorem replaceAll_mark_append (new : List κ) (hfree : mark ∉ text)
    (hnone : ¬mark :: word <+: mark :: text ++ rest) :
    replaceAll (mark :: word) new (mark :: text ++ rest)
      = mark :: text ++ replaceAll (mark :: word) new rest := by
  rw [List.cons_append] at hnone
  rw [List.cons_append, List.cons_append, ← replaceAll_append word new hfree, replaceAll,
    replaceFrom, if_neg hnone]
  rfl

/-! ## Tags -/

/-- A piece of markup: a tag, or a text between tags. -/
inductive Token (κ : Type) where
  | tag (name : List κ)
  | text (chars : List κ)
deriving DecidableEq

section Tags

variable (lower upper : κ)

/-- A tag as it stands in a text. -/
def tagChars (name : List κ) : List κ := lower :: (name ++ [upper])

def Token.render : Token κ → List κ
  | .tag name => tagChars lower upper name
  | .text chars => chars

/-- A piece whose name or text has no marks where they would end it. -/
def Token.Plain : Token κ → Prop
  | .tag name => lower ∉ name ∧ upper ∉ name
  | .text chars => lower ∉ chars

instance : DecidablePred (Token.Plain lower upper)
  | .tag name => inferInstanceAs (Decidable (lower ∉ name ∧ upper ∉ name))
  | .text chars => inferInstanceAs (Decidable (lower ∉ chars))

def render (tokens : List (Token κ)) : List κ := tokens.flatMap (Token.render lower upper)

/-- The text of an element that has a text and nothing else. -/
def elementAt (name closing : List κ) : Pattern κ (List κ) := fun cs ↦ do
  let ((), rest) ← literal (tagChars lower upper name) cs
  let body := rest.takeWhile (· ≠ lower)
  if body = [] then none
  else
    let ((), rest) ← literal (tagChars lower upper closing) (rest.dropWhile (· ≠ lower))
    return (body, rest)

/-- An opening tag, and the text up to the first closing one. -/
def blockAt (name closing : List κ) : Pattern κ (List κ) := fun cs ↦ do
  let ((), rest) ← literal (tagChars lower upper name) cs
  let (inner, (), rest) ← find (literal (tagChars lower upper closing)) rest
  return (inner, rest)

variable {lower upper} {name name' closing : List κ} {tokens : List (Token κ)}

omit [DecidableEq κ] in
theorem render_cons (token : Token κ) (tokens : List (Token κ)) :
    render lower upper (token :: tokens)
      = token.render lower upper ++ render lower upper tokens := List.flatMap_cons

omit [DecidableEq κ] in
/-- Two tags that agree at the start are the same. -/
theorem tagChars_prefix_iff (h : upper ∉ name) (h' : upper ∉ name') :
    tagChars lower upper name <+: tagChars lower upper name' ++ rest ↔ name = name' := by
  rw [tagChars, tagChars, List.cons_append, List.cons_prefix_cons, and_iff_right rfl]
  constructor
  · intro hstart
    induction name generalizing name' with
    | nil =>
      rcases name' with _ | ⟨c, name'⟩
      · rfl
      · rw [List.nil_append, List.cons_append, List.cons_append, List.cons_prefix_cons] at hstart
        exact absurd (hstart.1 ▸ List.mem_cons_self) h'
    | cons c name ih =>
      rcases name' with _ | ⟨c', name'⟩
      · rw [List.cons_append, List.nil_append, List.cons_append, List.cons_prefix_cons] at hstart
        exact absurd (hstart.1 ▸ List.mem_cons_self) h
      · rw [List.cons_append, List.cons_append, List.cons_append, List.cons_prefix_cons] at hstart
        rw [hstart.1, ih (fun hmem ↦ h (List.mem_cons_of_mem _ hmem))
          (fun hmem ↦ h' (List.mem_cons_of_mem _ hmem)) hstart.2]
  · rintro rfl
    exact List.prefix_append _ _

theorem literal_tagChars (h : upper ∉ name) (h' : upper ∉ name') (hne : name ≠ name')
    (rest : List κ) :
    literal (tagChars lower upper name) (tagChars lower upper name' ++ rest) = none :=
  literal_eq_none fun hstart ↦ hne ((tagChars_prefix_iff h h').mp hstart)

/-- A pattern that reads nothing at any tag of these. -/
def Passes (lower upper : κ) (f : Pattern κ α) (tokens : List (Token κ)) : Prop :=
  ∀ name, Token.tag name ∈ tokens → ∀ rest, f (tagChars lower upper name ++ rest) = none

omit [DecidableEq κ] in
theorem Passes.of_cons {token : Token κ} (h : Passes lower upper f (token :: tokens)) :
    Passes lower upper f tokens := fun name hmem ↦ h name (List.mem_cons_of_mem _ hmem)

omit [DecidableEq κ] in
/-- **Pieces at which a pattern reads nothing** are passed over. -/
theorem find_render_append (h : StartsWith lower f) (hplain : ∀ token ∈ tokens, token.Plain lower upper)
    (hpasses : Passes lower upper f tokens) (hne : lower ≠ upper) (rest : List κ) :
    find f (render lower upper tokens ++ rest)
      = (find f rest).map fun found ↦ (render lower upper tokens ++ found.1, found.2) := by
  induction tokens with
  | nil => exact Option.map_id'.symm
  | cons token tokens ih =>
    have hrest := ih (fun token hmem ↦ hplain token (List.mem_cons_of_mem _ hmem)) hpasses.of_cons
    have hfirst := hplain token List.mem_cons_self
    rw [render_cons, List.append_assoc]
    rcases token with name | chars
    · have hfree : lower ∉ name ++ [upper] := by
        rw [List.mem_append, List.mem_singleton, not_or]
        exact ⟨hfirst.1, hne⟩
      have hnone := hpasses name List.mem_cons_self (render lower upper tokens ++ rest)
      rw [Token.render, tagChars, find_mark_append h hfree hnone, hrest, Option.map_map]
      refine congrArg (Option.map · _) (funext fun found ↦ ?_)
      rw [Function.comp_apply, List.append_assoc]
    · rw [Token.render, find_append h hfirst, hrest, Option.map_map]
      refine congrArg (Option.map · _) (funext fun found ↦ ?_)
      rw [Function.comp_apply, List.append_assoc]

omit [DecidableEq κ] in
theorem matchAll_render_append (h : StartsWith lower f)
    (hplain : ∀ token ∈ tokens, token.Plain lower upper) (hpasses : Passes lower upper f tokens)
    (hne : lower ≠ upper) (rest : List κ) :
    matchAll f (render lower upper tokens ++ rest) = matchAll f rest := by
  induction tokens with
  | nil => rfl
  | cons token tokens ih =>
    have hrest := ih (fun token hmem ↦ hplain token (List.mem_cons_of_mem _ hmem)) hpasses.of_cons
    have hfirst := hplain token List.mem_cons_self
    rw [render_cons, List.append_assoc]
    rcases token with name | chars
    · have hfree : lower ∉ name ++ [upper] := by
        rw [List.mem_append, List.mem_singleton, not_or]
        exact ⟨hfirst.1, hne⟩
      have hnone := hpasses name List.mem_cons_self (render lower upper tokens ++ rest)
      rw [Token.render, tagChars, matchAll_mark_append h hfree hnone, hrest]
    · rw [Token.render, matchAll_append h hfirst, hrest]

theorem startsWith_elementAt : StartsWith lower (elementAt lower upper name closing) := by
  intro c cs hne
  rw [elementAt, tagChars, startsWith_literal _ c cs hne]
  rfl

theorem startsWith_blockAt : StartsWith lower (blockAt lower upper name closing) := by
  intro c cs hne
  rw [blockAt, tagChars, startsWith_literal _ c cs hne]
  rfl

/-- An element with a text. -/
theorem elementAt_of_text (hne : text ≠ []) (hfree : lower ∉ text) (rest : List κ) :
    elementAt lower upper name closing
        (tagChars lower upper name ++ (text ++ (tagChars lower upper closing ++ rest)))
      = some (text, rest) := by
  have hall : ∀ c ∈ text, decide (c ≠ lower) = true := fun c hmem ↦
    decide_eq_true fun heq ↦ hfree (heq ▸ hmem)
  have hstop : (tagChars lower upper closing ++ rest).takeWhile (· ≠ lower) = [] := by
    simp [tagChars]
  have hdrop : (tagChars lower upper closing ++ rest).dropWhile (· ≠ lower)
      = tagChars lower upper closing ++ rest := by
    simp [tagChars]
  rw [elementAt, literal_append]
  simp only [Option.bind_eq_bind, Option.bind_some]
  rw [List.takeWhile_append_of_pos hall, hstop, List.append_nil, if_neg hne,
    List.dropWhile_append_of_pos hall, hdrop, literal_append]
  rfl

/-- An element without a text. -/
theorem elementAt_of_nil (rest : List κ) : elementAt lower upper name closing
    (tagChars lower upper name ++ (tagChars lower upper closing ++ rest)) = none := by
  rw [elementAt, literal_append]
  simp [tagChars]

theorem consumes_elementAt : Consumes (elementAt lower upper name closing) := by
  intro cs body rest hmatch
  rw [elementAt] at hmatch
  obtain ⟨⟨_, rest₁⟩, hopening, hmatch⟩ := Option.bind_eq_some_iff.mp hmatch
  dsimp only at hmatch
  split at hmatch
  · exact nomatch hmatch
  · obtain ⟨⟨_, rest₂⟩, hclosing, hmatch⟩ := Option.bind_eq_some_iff.mp hmatch
    rw [Option.pure_def, Option.some.injEq, Prod.mk.injEq] at hmatch
    obtain ⟨used, hne, hused⟩ := consumes_literal (List.cons_ne_nil _ _) _ _ _ hopening
    obtain ⟨used', -, hused'⟩ := consumes_literal (List.cons_ne_nil _ _) _ _ _ hclosing
    refine ⟨used ++ (rest₁.takeWhile (· ≠ lower) ++ used'), ?_, ?_⟩
    · rw [ne_eq, List.append_eq_nil_iff, not_and_or]
      exact Or.inl hne
    · rw [List.append_assoc, List.append_assoc, ← hmatch.2, ← hused',
        List.takeWhile_append_dropWhile]
      exact hused

theorem consumes_blockAt : Consumes (blockAt lower upper name closing) := by
  intro cs inner rest hmatch
  rw [blockAt] at hmatch
  obtain ⟨⟨_, rest₁⟩, hopening, hmatch⟩ := Option.bind_eq_some_iff.mp hmatch
  obtain ⟨⟨before, _, rest₂⟩, hclosing, hmatch⟩ := Option.bind_eq_some_iff.mp hmatch
  rw [Option.pure_def, Option.some.injEq, Prod.mk.injEq] at hmatch
  obtain ⟨used, hne, hused⟩ := consumes_literal (List.cons_ne_nil _ _) _ _ _ hopening
  obtain ⟨used', hused'⟩ := (consumes_literal (List.cons_ne_nil _ _)).find hclosing
  refine ⟨used ++ (before ++ used'), ?_, ?_⟩
  · rw [ne_eq, List.append_eq_nil_iff, not_and_or]
    exact Or.inl hne
  · rw [hused, hused', ← hmatch.2]
    simp only [List.append_assoc]

theorem elementAt_tagChars (h : upper ∉ name) (h' : upper ∉ name') (hne : name ≠ name')
    (rest : List κ) :
    elementAt lower upper name closing (tagChars lower upper name' ++ rest) = none := by
  rw [elementAt, literal_tagChars h h' hne]
  rfl

theorem blockAt_tagChars (h : upper ∉ name) (h' : upper ∉ name') (hne : name ≠ name')
    (rest : List κ) :
    blockAt lower upper name closing (tagChars lower upper name' ++ rest) = none := by
  rw [blockAt, literal_tagChars h h' hne]
  rfl

end Tags

end Scanning

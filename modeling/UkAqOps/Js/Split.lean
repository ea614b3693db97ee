import UkAqOps.Js.Text

/-!
# Splitting text

What is put together from pieces with separators between them splits into those pieces again: at a
character that none of them holds, and at runs of white space.
-/

namespace UkAqOps

section SplitChars

variable {p : Char → Bool}

theorem splitChars_ne_nil (cs : List Char) : splitChars p cs ≠ [] := by
  rcases cs with _ | ⟨c, cs⟩
  · simp [splitChars]
  · rw [splitChars]
    split
    · simp
    · split <;> simp

/-- A list without separators is one piece. -/
theorem splitChars_eq_singleton {cs : List Char} (h : ∀ c ∈ cs, p c = false) :
    splitChars p cs = [cs] := by
  induction cs with
  | nil => rfl
  | cons c cs ih =>
    rw [splitChars, h c List.mem_cons_self, ih fun d hd ↦ h d (List.mem_cons_of_mem c hd)]
    simp

/-- The first piece ends at the first separator. -/
theorem splitChars_append_cons {cs : List Char} (h : ∀ c ∈ cs, p c = false) {c : Char}
    (hc : p c = true) (rest : List Char) :
    splitChars p (cs ++ c :: rest) = cs :: splitChars p rest := by
  induction cs with
  | nil => rw [List.nil_append, splitChars, if_pos hc]
  | cons d cs ih =>
    rw [List.cons_append, splitChars, h d List.mem_cons_self,
      ih fun e he ↦ h e (List.mem_cons_of_mem d he)]
    simp

/-- **Pieces with a separator between them** split at it. -/
theorem splitChars_intercalate {c : Char} (hc : p c = true) {pieces : List (List Char)}
    (hne : pieces ≠ []) (h : ∀ piece ∈ pieces, ∀ d ∈ piece, p d = false) :
    splitChars p (List.intercalate [c] pieces) = pieces := by
  induction pieces with
  | nil => exact absurd rfl hne
  | cons piece rest ih =>
    have hpiece := h piece List.mem_cons_self
    rcases rest with _ | ⟨piece', rest⟩
    · simpa [List.intercalate] using splitChars_eq_singleton hpiece
    · have hrest := ih (List.cons_ne_nil _ _) fun q hq ↦ h q (List.mem_cons_of_mem piece hq)
      rw [List.intercalate_cons_cons, List.append_assoc, List.singleton_append,
        splitChars_append_cons hpiece hc, hrest]

/-- A separator at the end has an empty piece behind it. -/
theorem splitChars_append_singleton {c : Char} (hc : p c = true) (cs : List Char) :
    splitChars p (cs ++ [c]) = splitChars p cs ++ [[]] := by
  induction cs with
  | nil => simp [splitChars, hc]
  | cons d cs ih =>
    rw [List.cons_append, splitChars, splitChars, ih]
    split
    · rfl
    · rcases hsplit : splitChars p cs with _ | ⟨piece, pieces⟩
      · exact absurd hsplit (splitChars_ne_nil cs)
      · rfl

/-- The pieces hold no separator, and nothing but characters of the text. -/
theorem mem_of_mem_splitChars {piece cs : List Char} (hmem : piece ∈ splitChars p cs) {c : Char}
    (hc : c ∈ piece) : p c = false ∧ c ∈ cs := by
  induction cs generalizing piece with
  | nil =>
    rw [splitChars, List.mem_singleton] at hmem
    rw [hmem] at hc
    exact absurd hc List.not_mem_nil
  | cons d cs ih =>
    rw [splitChars] at hmem
    split at hmem
    · rcases List.mem_cons.mp hmem with rfl | hrest
      · exact absurd hc List.not_mem_nil
      · exact ⟨(ih hrest hc).1, List.mem_cons_of_mem d (ih hrest hc).2⟩
    · rename_i hd
      rw [Bool.not_eq_true] at hd
      rcases hsplit : splitChars p cs with _ | ⟨first, pieces⟩
      · exact absurd hsplit (splitChars_ne_nil cs)
      · rw [hsplit] at hmem ih
        rcases List.mem_cons.mp hmem with rfl | hrest
        · rcases List.mem_cons.mp hc with rfl | hfirst
          · exact ⟨hd, List.mem_cons_self⟩
          · have hc' := ih List.mem_cons_self hfirst
            exact ⟨hc'.1, List.mem_cons_of_mem d hc'.2⟩
        · have hc' := ih (List.mem_cons_of_mem first hrest) hc
          exact ⟨hc'.1, List.mem_cons_of_mem d hc'.2⟩

end SplitChars

/-! ## Words -/

section Words

variable {p : Char → Bool}

/-- The pieces between runs of characters that satisfy `p`. -/
def words (p : Char → Bool) (cs : List Char) : List (List Char) :=
  (splitChars p cs).filter (· ≠ [])

theorem words_cons {c : Char} (hc : p c = true) (cs : List Char) :
    words p (c :: cs) = words p cs := by
  rw [words, splitChars, if_pos hc, List.filter_cons_of_neg (by simp), words]

theorem words_append_of_space {space : List Char} (h : ∀ c ∈ space, p c = true)
    (cs : List Char) : words p (space ++ cs) = words p cs := by
  induction space with
  | nil => rfl
  | cons c space ih =>
    rw [List.cons_append, words_cons (h c List.mem_cons_self),
      ih fun d hd ↦ h d (List.mem_cons_of_mem c hd)]

theorem words_append_singleton {c : Char} (hc : p c = true) (cs : List Char) :
    words p (cs ++ [c]) = words p cs := by
  rw [words, splitChars_append_singleton hc, List.filter_append, words]
  simp

/-- A word and the space after it. -/
theorem words_append {word space : List Char} (hne : word ≠ []) (hword : ∀ c ∈ word, p c = false)
    (hspace : space ≠ []) (h : ∀ c ∈ space, p c = true) (rest : List Char) :
    words p (word ++ (space ++ rest)) = word :: words p rest := by
  obtain ⟨c, space, rfl⟩ := List.exists_cons_of_ne_nil hspace
  rw [List.cons_append, words, splitChars_append_cons hword (h c List.mem_cons_self),
    List.filter_cons_of_pos (by simpa using hne), ← words,
    words_append_of_space fun d hd ↦ h d (List.mem_cons_of_mem c hd)]

/-- The last word, and the space after it if there is any. -/
theorem words_last {word space : List Char} (hne : word ≠ []) (hword : ∀ c ∈ word, p c = false)
    (h : ∀ c ∈ space, p c = true) : words p (word ++ space) = [word] := by
  induction space using List.reverseRecOn with
  | nil =>
    rw [List.append_nil, words, splitChars_eq_singleton hword,
      List.filter_cons_of_pos (by simpa using hne), List.filter_nil]
  | append_singleton space c ih =>
    rw [← List.append_assoc, words_append_singleton (h c (by simp)),
      ih fun d hd ↦ h d (List.mem_append_left _ hd)]

/-- Leaving out the space at the two ends loses no word. -/
theorem words_trim (cs : List Char) : words p ((cs.dropWhile p).rdropWhile p) = words p cs := by
  have hrdrop : ∀ cs : List Char, words p (cs.rdropWhile p) = words p cs := by
    intro cs
    induction cs using List.reverseRecOn with
    | nil => rfl
    | append_singleton cs c ih =>
      by_cases hc : p c = true
      · rw [List.rdropWhile_concat_pos _ _ _ hc, ih, words_append_singleton hc]
      · rw [List.rdropWhile_concat_neg _ _ _ hc]
  rw [hrdrop]
  induction cs with
  | nil => rfl
  | cons c cs ih =>
    by_cases hc : p c = true
    · rw [List.dropWhile_cons_of_pos hc, ih, words_cons hc]
    · rw [List.dropWhile_cons_of_neg hc]

/-- The words hold no space, and nothing but characters of the text. -/
theorem mem_words {word cs : List Char} (h : word ∈ words p cs) :
    word ≠ [] ∧ ∀ c ∈ word, p c = false ∧ c ∈ cs := by
  obtain ⟨hmem, hne⟩ := List.mem_filter.mp h
  exact ⟨by simpa using hne, fun c hc ↦ mem_of_mem_splitChars hmem hc⟩

theorem exists_mem_splitChars {cs : List Char} {c : Char} (hc : c ∈ cs) (hp : p c = false) :
    ∃ piece ∈ splitChars p cs, c ∈ piece := by
  induction cs with
  | nil => exact absurd hc List.not_mem_nil
  | cons d cs ih =>
    rw [splitChars]
    split
    · rename_i hd
      rcases List.mem_cons.mp hc with rfl | hrest
      · rw [hp] at hd
        cases hd
      · obtain ⟨piece, hpiece, hmem⟩ := ih hrest
        exact ⟨piece, List.mem_cons_of_mem _ hpiece, hmem⟩
    · rcases hsplit : splitChars p cs with _ | ⟨first, pieces⟩
      · exact absurd hsplit (splitChars_ne_nil cs)
      · rcases List.mem_cons.mp hc with rfl | hrest
        · exact ⟨_, List.mem_cons_self, List.mem_cons_self⟩
        · obtain ⟨piece, hpiece, hmem⟩ := ih hrest
          rw [hsplit] at hpiece
          rcases List.mem_cons.mp hpiece with rfl | hlater
          · exact ⟨_, List.mem_cons_self, List.mem_cons_of_mem d hmem⟩
          · exact ⟨piece, List.mem_cons_of_mem _ hlater, hmem⟩

theorem exists_mem_words {cs : List Char} {c : Char} (hc : c ∈ cs) (hp : p c = false) :
    ∃ word ∈ words p cs, c ∈ word := by
  obtain ⟨piece, hpiece, hmem⟩ := exists_mem_splitChars hc hp
  refine ⟨piece, List.mem_filter.mpr ⟨hpiece, ?_⟩, hmem⟩
  simpa using List.ne_nil_of_mem hmem

/-- Only the characters of the text matter. -/
theorem splitChars_congr {q : Char → Bool} {cs : List Char} (h : ∀ c ∈ cs, p c = q c) :
    splitChars p cs = splitChars q cs := by
  induction cs with
  | nil => rfl
  | cons c cs ih =>
    rw [splitChars, splitChars, h c List.mem_cons_self, ih fun d hd ↦ h d (List.mem_cons_of_mem c hd)]

end Words

/-- `text.trim().split(/\s+/)` of a text that is not blank. -/
theorem splitWhitespace_trimText {s : String} (h : words isJsWhitespace s.toList ≠ []) :
    splitWhitespace (trimText s) = (words isJsWhitespace s.toList).map String.ofList := by
  have hwords : words isJsWhitespace (trimText s).toList = words isJsWhitespace s.toList := by
    rw [trimText, String.toList_ofList, words_trim]
  rw [words] at hwords
  rw [splitWhitespace, hwords]
  exact if_neg h

end UkAqOps

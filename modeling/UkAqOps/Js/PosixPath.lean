import UkAqOps.Js.Split

/-!
# Relative paths

`path.posix` on paths that do not start with a slash. Normalising drops empty parts and dots and lets
two dots take back the part before them; a slash at the end stays. What has been normalised is left
alone by normalising again, because the parts that are kept are put back on the stack one by one.
-/

namespace UkAqOps

/-! ## Normalising -/

/-- Two dots. -/
def parent : List Char := ['.', '.']

/-- Two dots take back the last part, unless that is two dots too, or there is none. -/
def takeBack : List (List Char) → List (List Char)
  | [] => [parent]
  | top :: rest => if top = parent then parent :: top :: rest else rest

/-- The parts so far, the last one first, with a further one. -/
def pushPart (stack : List (List Char)) (part : List Char) : List (List Char) :=
  if part = [] ∨ part = ['.'] then stack
  else if part = parent then takeBack stack
  else part :: stack

/-- The parts that are kept. -/
def pathParts (cs : List Char) : List (List Char) :=
  ((splitChars (· = '/') cs).foldl pushPart []).reverse

/-- The parts again as a path, with the slash at the end if there was one. -/
def joinParts (parts : List (List Char)) (trailing : Bool) : List Char :=
  let body := if parts = [] then ['.'] else List.intercalate ['/'] parts
  if trailing then body ++ ['/'] else body

def normalizeChars (cs : List Char) : List Char :=
  joinParts (pathParts cs) (cs.getLast? = some '/')

/-- `path.posix.normalize(path)`, for a path that does not start with a slash. -/
def posixNormalize (path : String) : String := String.ofList (normalizeChars path.toList)

/-- `path.posix.join(directory, name)`, for a directory that is not empty and does not start with a
slash. -/
def posixJoin (directory name : String) : String := posixNormalize (directory ++ "/" ++ name)

/-- `path.posix.dirname(path)`, for a path that holds a slash behind its first character and neither
starts nor ends with one. -/
def posixDirname (path : String) : String :=
  String.ofList ((path.toList.reverse.dropWhile (· ≠ '/')).dropWhile (· = '/')).reverse

example : posixNormalize "a/./b//../c/" = "a/c/" := by decide
example : posixNormalize "../a/../../b" = "../../b" := by decide
example : posixDirname "a/b/manifest.json" = "a/b" := by decide

/-! ## Parts that are kept -/

/-- A part that is kept: neither empty nor a dot, and without a slash. -/
structure KeptPart (part : List Char) : Prop where
  ne_nil : part ≠ []
  ne_dot : part ≠ ['.']
  slash : ∀ c ∈ part, (c = '/' : Bool) = false

/-- A stack of kept parts, with nothing but two dots below two dots. -/
structure KeptStack (stack : List (List Char)) : Prop where
  kept : ∀ part ∈ stack, KeptPart part
  parents : stack.Pairwise fun above below ↦ above = parent → below = parent

theorem keptStack_nil : KeptStack [] := ⟨nofun, List.Pairwise.nil⟩

theorem KeptStack.tail {top : List Char} {rest : List (List Char)} (h : KeptStack (top :: rest)) :
    KeptStack rest :=
  ⟨fun part hpart ↦ h.kept part (List.mem_cons_of_mem top hpart), (List.pairwise_cons.mp h.parents).2⟩

/-- **One part** leaves a stack of kept parts. -/
theorem KeptStack.push {stack : List (List Char)} (h : KeptStack stack) {part : List Char}
    (hslash : ∀ c ∈ part, (c = '/' : Bool) = false) : KeptStack (pushPart stack part) := by
  rw [pushPart]
  split
  · exact h
  · rename_i hkept
    rw [not_or] at hkept
    have hpart : KeptPart part := ⟨hkept.1, hkept.2, hslash⟩
    split
    · rename_i hparent
      rw [hparent] at hpart
      rcases stack with _ | ⟨top, rest⟩
      · exact ⟨List.forall_mem_singleton.mpr hpart, List.pairwise_singleton _ _⟩
      · rw [takeBack]
        split
        · rename_i htop
          refine ⟨List.forall_mem_cons.mpr ⟨hpart, h.kept⟩, List.pairwise_cons.mpr
            ⟨fun below hbelow _ ↦ ?_, h.parents⟩⟩
          rcases List.mem_cons.mp hbelow with rfl | hbelow
          · exact htop
          · exact (List.pairwise_cons.mp h.parents).1 below hbelow htop
        · exact h.tail
    · rename_i hparent
      exact ⟨List.forall_mem_cons.mpr ⟨hpart, h.kept⟩, List.pairwise_cons.mpr
        ⟨fun below _ heq ↦ absurd heq hparent, h.parents⟩⟩

/-- **All parts** leave a stack of kept parts. -/
theorem KeptStack.pushAll {parts : List (List Char)}
    (hslash : ∀ part ∈ parts, ∀ c ∈ part, (c = '/' : Bool) = false) {stack : List (List Char)}
    (h : KeptStack stack) : KeptStack (parts.foldl pushPart stack) := by
  induction parts generalizing stack with
  | nil => exact h
  | cons part rest ih =>
    exact ih (fun p hp ↦ hslash p (List.mem_cons_of_mem part hp))
      (h.push (hslash part List.mem_cons_self))

/-- Parts that are kept are put back one by one. -/
theorem foldl_pushPart_reverse {stack : List (List Char)} (h : KeptStack stack) :
    stack.reverse.foldl pushPart [] = stack := by
  induction stack with
  | nil => rfl
  | cons top rest ih =>
    have htop := h.kept top List.mem_cons_self
    rw [List.reverse_cons, List.foldl_append, List.foldl_cons, List.foldl_nil, ih h.tail, pushPart,
      if_neg (not_or.mpr ⟨htop.ne_nil, htop.ne_dot⟩)]
    split
    · rename_i hparent
      rcases rest with _ | ⟨below, rest⟩
      · rw [hparent]
        rfl
      · have hbelow := (List.pairwise_cons.mp h.parents).1 below List.mem_cons_self hparent
        rw [takeBack, if_pos hbelow, hparent]
    · rfl

theorem keptStack_pathParts (cs : List Char) : KeptStack (pathParts cs).reverse := by
  rw [pathParts, List.reverse_reverse]
  exact keptStack_nil.pushAll fun part hpart c hc ↦ (mem_of_mem_splitChars hpart hc).1

/-! ## Normalising again -/

theorem getLast?_intercalate {parts : List (List Char)} (hkept : ∀ part ∈ parts, KeptPart part)
    (hne : parts ≠ []) : (List.intercalate ['/'] parts).getLast? ≠ some '/' := by
  obtain ⟨before, last, rfl⟩ := List.eq_nil_or_concat parts |>.resolve_left hne
  rw [List.concat_eq_append] at hkept ⊢
  have hlast := hkept last (List.mem_append_right _ (List.mem_singleton_self last))
  have hend : ∃ front, List.intercalate ['/'] (before ++ [last]) = front ++ last := by
    clear hkept hne hlast
    induction before with
    | nil => exact ⟨[], by simp [List.intercalate]⟩
    | cons part rest ih =>
      obtain ⟨front, hfront⟩ := ih
      rcases hrest : rest ++ [last] with _ | ⟨next, more⟩
      · exact absurd hrest (by simp)
      · rw [hrest] at hfront
        exact ⟨part ++ '/' :: front, by
          rw [List.cons_append, hrest, List.intercalate_cons_cons, hfront, List.append_assoc,
            List.singleton_append, List.append_assoc, List.cons_append]⟩
  obtain ⟨front, hfront⟩ := hend
  intro heq
  rw [hfront, List.getLast?_append_of_ne_nil _ hlast.ne_nil] at heq
  exact absurd (hlast.slash '/' (List.mem_of_getLast? heq)) (by decide)

/-- The parts of what has been put together from kept parts are those parts. -/
theorem pathParts_joinParts {parts : List (List Char)} (h : KeptStack parts.reverse)
    (trailing : Bool) : pathParts (joinParts parts trailing) = parts := by
  have hkept : ∀ part ∈ parts, KeptPart part := fun part hpart ↦ h.kept part (List.mem_reverse.mpr hpart)
  have hbody : ∀ tail : List (List Char), (∀ part ∈ tail, part = []) →
      ((parts ++ tail).foldl pushPart []).reverse = parts := by
    intro tail htail
    have hnone : ∀ stack, tail.foldl pushPart stack = stack := by
      intro stack
      induction tail with
      | nil => rfl
      | cons part rest ih =>
        rw [List.foldl_cons, pushPart, if_pos (Or.inl (htail part List.mem_cons_self)),
          ih fun p hp ↦ htail p (List.mem_cons_of_mem part hp)]
    rw [List.foldl_append, hnone]
    have hparts := foldl_pushPart_reverse h
    rw [List.reverse_reverse] at hparts
    rw [hparts, List.reverse_reverse]
  have hsplit : parts ≠ [] → splitChars (· = '/') (List.intercalate ['/'] parts) = parts := fun hne ↦
    splitChars_intercalate (by decide) hne fun part hpart ↦ (hkept part hpart).slash
  rw [joinParts, pathParts]
  by_cases hnil : parts = []
  · rw [hnil]
    cases trailing <;> decide
  · simp only [if_neg hnil]
    split
    · rw [splitChars_append_singleton (by decide), hsplit hnil]
      exact hbody [[]] (List.forall_mem_singleton.mpr rfl)
    · rw [hsplit hnil]
      simpa using hbody [] nofun

/-- **Normalising is idempotent.** -/
theorem normalizeChars_idem (cs : List Char) :
    normalizeChars (normalizeChars cs) = normalizeChars cs := by
  have hstack := keptStack_pathParts cs
  rw [normalizeChars.eq_def (normalizeChars cs), normalizeChars.eq_def cs,
    pathParts_joinParts hstack]
  congr 1
  rcases htrailing : decide (cs.getLast? = some '/') with _ | _
  · rw [joinParts]
    by_cases hnil : pathParts cs = []
    · simp [hnil]
    · have hlast := getLast?_intercalate
        (fun part hpart ↦ hstack.kept part (List.mem_reverse.mpr hpart)) hnil
      simp [hnil, hlast]
  · rw [joinParts]
    simp

/-- What has been normalised does not start with a slash. -/
theorem head?_normalizeChars (cs : List Char) : (normalizeChars cs).head? ≠ some '/' := by
  have hstack := keptStack_pathParts cs
  rw [normalizeChars, joinParts]
  rcases hparts : pathParts cs with _ | ⟨part, rest⟩
  · split <;> simp
  · have hpart := hstack.kept part (List.mem_reverse.mpr (hparts ▸ List.mem_cons_self))
    rcases part with _ | ⟨c, more⟩
    · exact absurd rfl hpart.ne_nil
    · have hc : c ≠ '/' := of_decide_eq_false (hpart.slash c List.mem_cons_self)
      rcases rest with _ | ⟨next, rest⟩
      · split <;> simpa [List.intercalate] using hc
      · rw [if_neg (List.cons_ne_nil _ _), List.intercalate_cons_cons]
        split <;> simpa using hc

theorem posixNormalize_idem (path : String) :
    posixNormalize (posixNormalize path) = posixNormalize path := by
  rw [posixNormalize, posixNormalize, String.toList_ofList, normalizeChars_idem]

end UkAqOps

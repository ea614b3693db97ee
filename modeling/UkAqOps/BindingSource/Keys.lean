import UkAqOps.Backup.Inventory

/-!
# Keys of the timeseries bindings

A relative path is normalised by trimming it, turning its backslashes and dropping the slashes at
its ends. What stands before the keys of a hierarchy is a path that this leaves alone, and so are
the keys that are built on it. The key of a range names its bounds in decimal, filled with zeros up
to six digits, so that different ranges have different keys.
-/

namespace UkAqOps.BindingSource

open Backup

/-! ## Relative paths -/

/-- `text.replace(/\\/g, "/")`. -/
def slashed (s : String) : String :=
  String.ofList (s.toList.map fun c ↦ if c = '\\' then '/' else c)

def normalizeRelativePath (value label : String) : Except String String := do
  let normalized := stripSlashes (slashed (trimText value))
  Except.refuseIf (normalized = "" ∨ normalized = "." ∨ normalized = ".." ∨
      startsWithText normalized "../" = true ∨ includesText normalized "\x00" = true)
    s!"Invalid {label}: {value}"
  return normalized

/-- `normalizePrefix` of `r2_sigv4.mjs`, which refuses nothing. -/
def normalizePrefix (rawPrefix : String) : String := stripSlashes (trimText rawPrefix)

/-- The characters of a path that normalisation leaves alone. -/
structure IsNormal (cs : List Char) : Prop where
  head : ∀ c ∈ cs.head?, isJsWhitespace c = false ∧ c ≠ '/'
  last : ∀ c ∈ cs.getLast?, isJsWhitespace c = false ∧ c ≠ '/'
  noBackslash : '\\' ∉ cs
  accepted : ¬(cs = [] ∨ cs = ['.'] ∨ cs = ['.', '.'] ∨ ['.', '.', '/'] <+: cs ∨ '\x00' ∈ cs)

theorem slashed_eq_self {s : String} (h : '\\' ∉ s.toList) : slashed s = s := by
  have hmap : (s.toList.map fun c ↦ if c = '\\' then '/' else c) = s.toList.map id := by
    refine List.map_congr_left fun c hc ↦ if_neg fun heq ↦ ?_
    rw [heq] at hc
    exact h hc
  rw [slashed, hmap, List.map_id, String.ofList_toList]

theorem stripSlashes_eq_self {s : String} (hhead : ∀ c ∈ s.toList.head?, c ≠ '/')
    (hlast : ∀ c ∈ s.toList.getLast?, c ≠ '/') : stripSlashes s = s := by
  have hdrop : s.toList.dropWhile (· = '/') = s.toList := by
    rw [List.dropWhile_eq_self_iff]
    intro hlen hslash
    refine hhead _ ?_ (of_decide_eq_true hslash)
    rw [List.head?_eq_getElem?]
    exact List.getElem?_eq_getElem hlen
  have hrdrop : s.toList.rdropWhile (· = '/') = s.toList := by
    rw [List.rdropWhile_eq_self_iff]
    intro hne hslash
    exact hlast _ (List.getLast?_eq_some_getLast hne) (of_decide_eq_true hslash)
  rw [stripSlashes, hdrop, hrdrop, String.ofList_toList]

theorem accepted_iff {s : String} :
    (s = "" ∨ s = "." ∨ s = ".." ∨ startsWithText s "../" = true ∨ includesText s "\x00" = true) ↔
      (s.toList = [] ∨ s.toList = ['.'] ∨ s.toList = ['.', '.'] ∨ ['.', '.', '/'] <+: s.toList ∨
        '\x00' ∈ s.toList) := by
  rw [startsWithText, includesText, decide_eq_true_iff, decide_eq_true_iff, ← String.toList_inj,
    ← String.toList_inj, ← String.toList_inj]
  refine or_congr_right (or_congr_right (or_congr_right (or_congr_right ?_)))
  exact List.singleton_infix_iff _ _

theorem normalizeRelativePath_of_isNormal {s : String} (h : IsNormal s.toList) (label : String) :
    normalizeRelativePath s label = .ok s := by
  have htrim : trimText s = s :=
    trimText_eq_self (fun c hc ↦ (h.head c hc).1) (fun c hc ↦ (h.last c hc).1)
  have hstrip : stripSlashes s = s :=
    stripSlashes_eq_self (fun c hc ↦ (h.head c hc).2) (fun c hc ↦ (h.last c hc).2)
  rw [normalizeRelativePath, htrim, slashed_eq_self h.noBackslash, hstrip,
    Except.refuseIf_neg fun hrefused ↦ h.accepted (accepted_iff.mp hrefused)]
  rfl

/-- What stands before the keys of a hierarchy: a path that normalisation leaves alone. -/
@[ext] structure KeyPrefix where
  text : String
  normal : IsNormal text.toList

namespace KeyPrefix

variable (keyPrefix : KeyPrefix)

@[simp] theorem normalizePrefix_text : normalizePrefix keyPrefix.text = keyPrefix.text := by
  rw [normalizePrefix,
    trimText_eq_self (fun c hc ↦ (keyPrefix.normal.head c hc).1)
      (fun c hc ↦ (keyPrefix.normal.last c hc).1),
    stripSlashes_eq_self (fun c hc ↦ (keyPrefix.normal.head c hc).2)
      (fun c hc ↦ (keyPrefix.normal.last c hc).2)]

@[simp] theorem normalizeRelativePath_text (label : String) :
    normalizeRelativePath keyPrefix.text label = .ok keyPrefix.text :=
  normalizeRelativePath_of_isNormal keyPrefix.normal label

end KeyPrefix

/-- A prefix of one plain character. -/
def KeyPrefix.ofChar (c : Char)
    (h : isJsWhitespace c = false ∧ c ≠ '/' ∧ c ≠ '\\' ∧ c ≠ '.' ∧ c ≠ '\x00') : KeyPrefix where
  text := String.ofList [c]
  normal := by
    rw [String.toList_ofList]
    obtain ⟨hspace, hslash, hback, hdot, hnul⟩ := h
    constructor
    · rintro d ⟨⟩
      exact ⟨hspace, hslash⟩
    · rintro d ⟨⟩
      exact ⟨hspace, hslash⟩
    · simpa using hback.symm
    · simp [hdot, hnul.symm]

/-- What may follow a prefix: a slash, and then a name that normalisation leaves alone. -/
def IsSuffix (cs : List Char) : Prop :=
  (∃ rest, cs = '/' :: rest) ∧ (∃ c ∈ cs.getLast?, isJsWhitespace c = false ∧ c ≠ '/') ∧
    '\\' ∉ cs ∧ '\x00' ∉ cs

theorem IsNormal.append {cs rest : List Char} (h : IsNormal cs) (hrest : IsSuffix rest) :
    IsNormal (cs ++ rest) := by
  obtain ⟨⟨tail, rfl⟩, ⟨last, hlast, hend⟩, hback, hnul⟩ := hrest
  have hne : cs ≠ [] := fun hnil ↦ h.accepted (Or.inl hnil)
  obtain ⟨c, cs', rfl⟩ := List.exists_cons_of_ne_nil hne
  refine ⟨fun d hd ↦ h.head d hd, fun d hd ↦ ?_, fun hmem ↦ ?_, ?_⟩
  · rw [List.getLast?_append, Option.mem_def.mp hlast] at hd
    rw [← Option.some.inj hd]
    exact hend
  · exact (List.mem_append.mp hmem).elim h.noBackslash hback
  · rintro (hnil | hdot | hdots | hparent | hmem)
    · cases hnil
    · have hlen := congrArg List.length hdot
      simp at hlen
    · have hlen := congrArg List.length hdots
      have hcs : cs' = [] := by
        rcases cs' with _ | ⟨d, ds⟩
        · rfl
        · simp at hlen
      subst hcs
      cases hdots
    · refine h.accepted ?_
      obtain ⟨more, hmore⟩ := hparent
      rcases cs' with _ | ⟨d, _ | ⟨e, es⟩⟩
      · injection hmore with _ hmore
        injection hmore with hslash
        exact absurd hslash (by decide)
      · injection hmore with hc hmore
        injection hmore with hd
        exact Or.inr (Or.inr (Or.inl (by rw [← hc, ← hd])))
      · injection hmore with hc hmore
        injection hmore with hd hmore
        injection hmore with he hmore
        exact Or.inr (Or.inr (Or.inr (Or.inl ⟨es, by rw [← hc, ← hd, ← he]; rfl⟩)))
    · rcases List.mem_append.mp hmem with hmem | hmem
      · exact h.accepted (Or.inr (Or.inr (Or.inr (Or.inr hmem))))
      · exact hnul hmem

/-! ## Decimal numbers in keys -/

/-- `String(n).padStart(6, "0")`. -/
def padded (n : ℕ) : String := padZeros (toString n) 6

theorem toList_padded (n : ℕ) :
    (padded n).toList = List.replicate (6 - (Nat.toDigits 10 n).length) '0' ++ Nat.toDigits 10 n := by
  rw [padded, padZeros, String.toList_ofList, show (toString n).toList = Nat.toDigits 10 n from
    Nat.toList_repr]

theorem isDigit_of_mem_padded {n : ℕ} {c : Char} (hc : c ∈ (padded n).toList) :
    c.isDigit = true := by
  rw [toList_padded] at hc
  rcases List.mem_append.mp hc with hc | hc
  · rw [(List.mem_replicate.mp hc).2]
    decide
  · exact JsonText.isDigit_of_mem_toDigits hc

theorem ofDigitChars_replicate (k : ℕ) (cs : List Char) :
    Nat.ofDigitChars 10 (List.replicate k '0' ++ cs) 0 = Nat.ofDigitChars 10 cs 0 := by
  induction k with
  | zero => rfl
  | succ k ih =>
    rw [List.replicate_succ, List.cons_append, Nat.ofDigitChars_cons, ← ih]
    rfl

theorem padded_injective : Function.Injective padded := by
  intro m n h
  have hlist := congrArg (fun s : String ↦ Nat.ofDigitChars 10 s.toList 0) h
  simp only [toList_padded, ofDigitChars_replicate, Nat.ofDigitChars_ten_toDigits] at hlist
  exact hlist

/-! ## Keys of ranges -/

/-- The name of the manifest and of the shard of a range. -/
def rangeName (rangeStart rangeEnd : ℕ) : String :=
  "range=" ++ padded rangeStart ++ "-" ++ padded rangeEnd

theorem rangeName_injective {m n m' n' : ℕ} (h : rangeName m m' = rangeName n n') : m = n := by
  have hlist := congrArg (fun s : String ↦ (s.toList.drop 6).takeWhile (· ≠ '-')) h
  have htake : ∀ k k' : ℕ, ((rangeName k k').toList.drop 6).takeWhile (· ≠ '-') =
      (padded k).toList := by
    intro k k'
    have hsplit : (rangeName k k').toList.drop 6 =
        (padded k).toList ++ '-' :: (padded k').toList := by
      simp only [rangeName, String.toList_append, List.append_assoc]
      rw [List.drop_left' (show "range=".toList.length = 6 from rfl),
        show "-".toList = ['-'] from rfl, List.singleton_append]
    rw [hsplit, List.takeWhile_append_of_pos fun c hc ↦ ?_]
    · simp
    · refine decide_eq_true fun heq ↦ ?_
      have hdigit := isDigit_of_mem_padded hc
      rw [heq] at hdigit
      exact absurd hdigit (by decide)
  simp only [htake] at hlist
  exact padded_injective (String.toList_inj.mp hlist)

/-- What follows the prefix in the key of a file of a hierarchy. -/
def fileSuffix (directory name : String) : String := "/" ++ directory ++ "/" ++ name ++ ".json"

/-- The characters of a plain name. -/
def IsName (cs : List Char) : Prop := '\\' ∉ cs ∧ '\x00' ∉ cs

instance : DecidablePred IsName := fun _ ↦ inferInstanceAs (Decidable (_ ∧ _))

theorem isName_rangeName (m n : ℕ) : IsName (rangeName m n).toList := by
  have hdigits : ∀ k : ℕ, ∀ c ∈ (padded k).toList, c ≠ '\\' ∧ c ≠ '\x00' := by
    intro k c hc
    have hdigit := isDigit_of_mem_padded hc
    constructor
    · rintro rfl
      exact absurd hdigit (by decide)
    · rintro rfl
      exact absurd hdigit (by decide)
  have hmarks : ∀ c ∈ ['r', 'a', 'n', 'g', 'e', '=', '-'], c ≠ '\\' ∧ c ≠ '\x00' :=
    List.all_iff_forall_prop.mp (by decide)
  have hall : ∀ c ∈ (rangeName m n).toList, c ≠ '\\' ∧ c ≠ '\x00' := by
    intro c hc
    simp only [rangeName, String.toList_append, List.mem_append] at hc
    rcases hc with ((hc | hc) | hc) | hc
    · exact hmarks c (List.mem_append_left ['-'] hc)
    · exact hdigits m c hc
    · exact hmarks c (List.mem_append_right ['r', 'a', 'n', 'g', 'e', '='] hc)
    · exact hdigits n c hc
  exact ⟨fun hmem ↦ (hall _ hmem).1 rfl, fun hmem ↦ (hall _ hmem).2 rfl⟩

theorem isSuffix_fileSuffix {directory name : String} (hdirectory : IsName directory.toList)
    (hname : IsName name.toList) : IsSuffix (fileSuffix directory name).toList := by
  simp only [fileSuffix, String.toList_append]
  refine ⟨⟨_, rfl⟩, ⟨'n', ?_, by decide⟩, fun hmem ↦ ?_, fun hmem ↦ ?_⟩
  · rw [List.getLast?_append]
    rfl
  · simp only [List.mem_append] at hmem
    rcases hmem with (((hmem | hmem) | hmem) | hmem) | hmem
    · exact absurd hmem (by decide)
    · exact hdirectory.1 hmem
    · exact absurd hmem (by decide)
    · exact hname.1 hmem
    · exact absurd hmem (by decide)
  · simp only [List.mem_append] at hmem
    rcases hmem with (((hmem | hmem) | hmem) | hmem) | hmem
    · exact absurd hmem (by decide)
    · exact hdirectory.2 hmem
    · exact absurd hmem (by decide)
    · exact hname.2 hmem
    · exact absurd hmem (by decide)

/-- The keys of a hierarchy are left alone by normalisation. -/
theorem KeyPrefix.normalizeRelativePath_append (keyPrefix : KeyPrefix) {directory name : String}
    (hdirectory : IsName directory.toList) (hname : IsName name.toList) (label : String) :
    normalizeRelativePath (keyPrefix.text ++ fileSuffix directory name) label =
      .ok (keyPrefix.text ++ fileSuffix directory name) := by
  refine normalizeRelativePath_of_isNormal ?_ label
  rw [String.toList_append]
  exact keyPrefix.normal.append (isSuffix_fileSuffix hdirectory hname)

theorem fileSuffix_injective {directory name name' : String}
    (h : fileSuffix directory name = fileSuffix directory name') : name = name' := by
  simp only [fileSuffix] at h
  exact (String.append_right_inj _).mp ((String.append_left_inj _).mp h)

end UkAqOps.BindingSource

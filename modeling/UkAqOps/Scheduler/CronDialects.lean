import UkAqOps.Scheduler.CronAgreement
import UkAqOps.Scheduler.CronTimes

/-!
# Numbers and white space of one language alone

An expression that is read leniently, with the white space and the numbers of both languages, is
accepted by one of them if it holds nothing that is for the other language alone. So the two checks
agree on every text unless it is well formed, read leniently, and holds something that is for one of
them alone and nothing that is for the other.
-/

namespace UkAqOps.Scheduler

open SyncJobs (Python isPySpace)

/-! ## The numbers of an expression -/

section Numerals

variable (upper : String → String) (spec : FieldSpec)

/-- An atom that is read as a number, raised. -/
def atomNumerals (token : String) : List String :=
  let normalized := upper token
  if normalized = "" ∨ (spec.names.lookup normalized).isSome ∨
    (spec.fieldName = "day-of-week" ∧ normalized = "7") then [] else [normalized]

def baseNumerals (base : String) : List String :=
  if base = "*" then []
  else if includesText base "-" then
    match splitText base '-' with
    | [first, last] => atomNumerals upper spec first ++ atomNumerals upper spec last
    | _ => []
  else atomNumerals upper spec base

def tokenNumerals (parts : String) : List String :=
  if includesText parts "/" then
    match splitText parts '/' with
    | [base, stepText] => stepText :: baseNumerals upper spec base
    | _ => []
  else baseNumerals upper spec parts

def fieldNumerals (field : String) : List String :=
  (splitText (upper field) ',').flatMap fun token ↦ tokenNumerals upper spec (upper token)

/-- The numbers of a text of five fields: the atoms that are no names, and the steps. -/
def numeralsOf (space : Char → Bool) (text : String) : List String :=
  match words space text.toList with
  | [minute, hour, dayOfMonth, month, dayOfWeek] =>
    fieldNumerals upper minuteSpec (String.ofList minute) ++
      fieldNumerals upper hourSpec (String.ofList hour) ++
      fieldNumerals upper dayOfMonthSpec (String.ofList dayOfMonth) ++
      fieldNumerals upper monthSpec (String.ofList month) ++
      fieldNumerals upper dayOfWeekSpec (String.ofList dayOfWeek)
  | _ => []

end Numerals

/-- Two readings that no check of an expression tells apart: neither reads a number, or both read the
same, or numbers beyond every bound on the same side. -/
def Alike (a b : Option ℤ) : Prop :=
  a = b ∨ ∃ x y, a = some x ∧ b = some y ∧
    (2 ^ 53 ≤ x ∧ 2 ^ 53 ≤ y ∨ x ≤ -2 ^ 53 ∧ y ≤ -2 ^ 53)

section Readings

variable {upper : String → String} {read read' : String → Option ℤ} {spec : FieldSpec}

/-! ## Readings that agree on the numbers -/

theorem atomValue_congr (hspec : spec.Regular) {token : String}
    (h : ∀ s ∈ atomNumerals upper spec token, Alike (read s) (read' s)) :
    atomValue upper read spec token = atomValue upper read' spec token := by
  rw [atomValue, atomValue]
  rw [atomNumerals] at h
  generalize upper token = normalized at h ⊢
  split
  · rfl
  · rename_i hne
    rcases hname : spec.names.lookup normalized with _ | value
    · dsimp only
      split
      · rfl
      · rename_i hseven
        rw [if_neg (by simp [hne, hname, hseven])] at h
        rcases h normalized (List.mem_singleton_self _) with hsame | ⟨x, y, hx, hy, hbeyond⟩
        · rw [hsame]
        · have hbounds := hspec.bounds
          rw [hx, hy]
          dsimp only
          rw [if_pos (by omega), if_pos (by omega)]
    · rfl

theorem baseEnds_congr (hspec : spec.Regular) {base : String}
    (h : ∀ s ∈ baseNumerals upper spec base, Alike (read s) (read' s)) :
    baseEnds upper read spec base = baseEnds upper read' spec base := by
  rw [baseEnds, baseEnds]
  rw [baseNumerals] at h
  split
  · rfl
  · rename_i hstar
    rw [if_neg hstar] at h
    split
    · rename_i hdash
      rw [if_pos hdash] at h
      rcases hsplit : splitText base '-' with _ | ⟨first, _ | ⟨last, _ | ⟨other, rest⟩⟩⟩
      · rfl
      · rfl
      · rw [hsplit] at h
        dsimp only
        rw [atomValue_congr hspec fun s hs ↦ h s (List.mem_append_left _ hs),
          atomValue_congr hspec fun s hs ↦ h s (List.mem_append_right _ hs)]
      · rfl
    · rename_i hdash
      rw [if_neg hdash] at h
      rw [atomValue_congr hspec h]

theorem baseAccepted_congr (hspec : spec.Regular) {base : String}
    (h : ∀ s ∈ baseNumerals upper spec base, Alike (read s) (read' s)) :
    baseAccepted upper read spec base = baseAccepted upper read' spec base := by
  rw [baseAccepted, baseAccepted, baseEnds_congr hspec h]

/-- Steps that are alike are positive together. -/
theorem baseAndStep_congr {parts base stepText : String} (hslash : includesText parts "/" = true)
    (hsplit : splitText parts '/' = [base, stepText]) (h : Alike (read stepText) (read' stepText)) :
    (baseAndStep read parts).map Prod.fst = (baseAndStep read' parts).map Prod.fst := by
  rw [baseAndStep, baseAndStep, if_pos hslash, if_pos hslash, hsplit]
  dsimp only
  rcases h with hsame | ⟨x, y, hx, hy, hbeyond⟩
  · rw [hsame]
  · rw [hx, hy]
    dsimp only
    by_cases hpos : 0 < x
    · rw [if_pos hpos, if_pos (show 0 < y by omega)]
      rfl
    · rw [if_neg hpos, if_neg (show ¬0 < y by omega)]

/-- A token is its base, if it has one. -/
theorem tokenAccepted_eq (parts : String) : tokenAccepted upper read spec parts
    = (decide (parts ≠ "") && match (baseAndStep read parts).map Prod.fst with
      | some base => baseAccepted upper read spec base
      | none => false) := by
  rw [tokenAccepted]
  rcases baseAndStep read parts with _ | ⟨base, step⟩ <;> rfl

/-- The base of a token with a step. -/
theorem fst_of_baseAndStep {parts base stepText base' : String}
    (hslash : includesText parts "/" = true) (hsplit : splitText parts '/' = [base, stepText])
    (h : (baseAndStep read parts).map Prod.fst = some base') :
    base' = base ∧ read stepText ≠ none := by
  rw [baseAndStep, if_pos hslash, hsplit] at h
  dsimp only at h
  rcases hread : read stepText with _ | step
  · rw [hread] at h
    cases h
  · rw [hread] at h
    dsimp only at h
    refine ⟨?_, Option.some_ne_none _⟩
    split at h
    · exact (Option.some.inj h).symm
    · cases h

theorem tokenAccepted_congr (hspec : spec.Regular) {parts : String}
    (h : ∀ s ∈ tokenNumerals upper spec parts, Alike (read s) (read' s)) :
    tokenAccepted upper read spec parts = tokenAccepted upper read' spec parts := by
  rw [tokenAccepted_eq, tokenAccepted_eq]
  rw [tokenNumerals] at h
  by_cases hslash : includesText parts "/" = true
  · rw [if_pos hslash] at h
    rcases hsplit : splitText parts '/' with _ | ⟨base, _ | ⟨stepText, _ | ⟨other, rest⟩⟩⟩
    · simp [baseAndStep, hslash, hsplit]
    · simp [baseAndStep, hslash, hsplit]
    · rw [hsplit] at h
      rw [baseAndStep_congr hslash hsplit (h stepText List.mem_cons_self)]
      rcases hbase : (baseAndStep read' parts).map Prod.fst with _ | base'
      · rfl
      · obtain ⟨rfl, -⟩ := fst_of_baseAndStep hslash hsplit hbase
        dsimp only
        rw [baseAccepted_congr hspec fun s hs ↦ h s (List.mem_cons_of_mem stepText hs)]
    · simp [baseAndStep, hslash, hsplit]
  · rw [if_neg hslash] at h
    have hplain : ∀ r : String → Option ℤ, (baseAndStep r parts).map Prod.fst = some parts := by
      intro r
      rw [baseAndStep, if_neg hslash]
      rfl
    rw [hplain, hplain]
    dsimp only
    rw [baseAccepted_congr hspec h]

/-! ## What is accepted has been read -/

theorem read_of_atomValue {token : String} {value : ℤ}
    (h : atomValue upper read spec token = some value) :
    ∀ s ∈ atomNumerals upper spec token, read s ≠ none := by
  intro s hs
  rw [atomValue] at h
  rw [atomNumerals] at hs
  generalize upper token = normalized at h hs
  split at hs
  · exact absurd hs List.not_mem_nil
  · rename_i hnumeral
    rw [not_or, not_or] at hnumeral
    obtain ⟨hne, hname, hseven⟩ := hnumeral
    rw [List.mem_singleton.mp hs]
    intro hnone
    rw [if_neg hne, Option.not_isSome_iff_eq_none.mp hname] at h
    dsimp only at h
    rw [if_neg hseven, hnone] at h
    cases h

theorem read_of_baseAccepted {base : String} (h : baseAccepted upper read spec base = true) :
    ∀ s ∈ baseNumerals upper spec base, read s ≠ none := by
  rw [baseAccepted, baseEnds] at h
  rw [baseNumerals]
  split
  · exact fun s hs ↦ absurd hs List.not_mem_nil
  · rename_i hstar
    rw [if_neg hstar] at h
    split
    · rename_i hdash
      rw [if_pos hdash] at h
      rcases hsplit : splitText base '-' with _ | ⟨first, _ | ⟨last, _ | ⟨other, rest⟩⟩⟩
      · exact fun s hs ↦ absurd hs List.not_mem_nil
      · exact fun s hs ↦ absurd hs List.not_mem_nil
      · rw [hsplit] at h
        dsimp only at h ⊢
        intro s hs
        rcases hfirst : atomValue upper read spec first with _ | start
        · rw [hfirst] at h
          cases h
        · rcases hlast : atomValue upper read spec last with _ | stop
          · rw [hfirst, hlast] at h
            cases h
          · rcases List.mem_append.mp hs with hs | hs
            · exact read_of_atomValue hfirst s hs
            · exact read_of_atomValue hlast s hs
      · exact fun s hs ↦ absurd hs List.not_mem_nil
    · rename_i hdash
      rw [if_neg hdash] at h
      rcases hatom : atomValue upper read spec base with _ | value
      · rw [hatom] at h
        cases h
      · exact read_of_atomValue hatom

theorem read_of_tokenAccepted {parts : String} (h : tokenAccepted upper read spec parts = true) :
    ∀ s ∈ tokenNumerals upper spec parts, read s ≠ none := by
  rw [tokenAccepted_eq, Bool.and_eq_true] at h
  obtain ⟨-, h⟩ := h
  rw [tokenNumerals]
  rcases hbase : (baseAndStep read parts).map Prod.fst with _ | base'
  · rw [hbase] at h
    cases h
  rw [hbase] at h
  dsimp only at h
  split
  · rename_i hslash
    rcases hsplit : splitText parts '/' with _ | ⟨base, _ | ⟨stepText, _ | ⟨other, rest⟩⟩⟩
    · exact fun s hs ↦ absurd hs List.not_mem_nil
    · exact fun s hs ↦ absurd hs List.not_mem_nil
    · obtain ⟨rfl, hstep⟩ := fst_of_baseAndStep hslash hsplit hbase
      intro s hs
      rcases List.mem_cons.mp hs with rfl | hs
      · exact hstep
      · exact read_of_baseAccepted h s hs
    · exact fun s hs ↦ absurd hs List.not_mem_nil
  · rename_i hslash
    rw [baseAndStep, if_neg hslash] at hbase
    rw [← Option.some.inj hbase] at h
    exact read_of_baseAccepted h

/-- A reading and one that extends it. -/
def Extends (read either : String → Option ℤ) : Prop :=
  ∀ s, read s ≠ none → Alike (read s) (either s)

theorem tokenAccepted_iff {either : String → Option ℤ} (hspec : spec.Regular)
    (hextends : Extends read either) {parts : String} :
    tokenAccepted upper read spec parts = true ↔
      tokenAccepted upper either spec parts = true ∧
        ∀ s ∈ tokenNumerals upper spec parts, read s ≠ none := by
  constructor
  · intro h
    have hread := read_of_tokenAccepted h
    rw [← tokenAccepted_congr hspec fun s hs ↦ hextends s (hread s hs)]
    exact ⟨h, hread⟩
  · rintro ⟨h, hread⟩
    rwa [tokenAccepted_congr hspec fun s hs ↦ hextends s (hread s hs)]

theorem fieldAccepted_iff {either : String → Option ℤ} (hspec : spec.Regular)
    (hextends : Extends read either) {field : String} :
    fieldAccepted upper read spec field = true ↔
      fieldAccepted upper either spec field = true ∧
        ∀ s ∈ fieldNumerals upper spec field, read s ≠ none := by
  rw [fieldAccepted, fieldAccepted, Bool.and_eq_true, Bool.and_eq_true, List.all_eq_true,
    List.all_eq_true, fieldNumerals, List.forall_mem_flatMap]
  simp only [tokenAccepted_iff hspec hextends]
  constructor
  · rintro ⟨hne, hall⟩
    exact ⟨⟨hne, fun token htoken ↦ (hall token htoken).1⟩,
      fun token htoken ↦ (hall token htoken).2⟩
  · rintro ⟨⟨hne, hall⟩, hread⟩
    exact ⟨hne, fun token htoken ↦ ⟨hall token htoken, hread token htoken⟩⟩

/-- **What one reading accepts** is what the extended one accepts, if every number is read. -/
theorem accepts_iff {either : String → Option ℤ} (hextends : Extends read either)
    {space : Char → Bool} {text : String} :
    accepts upper read space text = true ↔ accepts upper either space text = true ∧
      ∀ s ∈ numeralsOf upper space text, read s ≠ none := by
  rw [accepts, accepts, numeralsOf]
  rcases words space text.toList with _ | ⟨m, _ | ⟨h, _ | ⟨d, _ | ⟨mo, _ | ⟨w, _ | ⟨x, rest⟩⟩⟩⟩⟩⟩
  all_goals dsimp only
  · simp
  · simp
  · simp
  · simp
  · simp
  · simp only [Bool.and_eq_true, fieldAccepted_iff regular_minuteSpec hextends,
      fieldAccepted_iff regular_hourSpec hextends, fieldAccepted_iff regular_dayOfMonthSpec hextends,
      fieldAccepted_iff regular_monthSpec hextends, fieldAccepted_iff regular_dayOfWeekSpec hextends,
      List.forall_mem_append]
    tauto
  · simp

/-! ## Characters of one language alone -/

/-- A character that no accepted text holds: it is a space that is not taken for one, no number holds
it, and it stands in no name. -/
structure Alien (read : String → Option ℤ) (space : Char → Bool) (c : Char) : Prop where
  mark : IsMark c
  space : space c = false
  other : c ∉ ['*', '-', '/', ','] ∧ c.isAlphanum = false
  read : ∀ s, c ∈ s.toList → read s = none

theorem Alien.atom {space : Char → Bool} {c : Char} (h : Alien read space c)
    (hupper : Raises upper) (hspec : spec.Regular) {token : String} {value : ℤ}
    (haccepted : atomValue upper read spec token = some value) : c ∉ token.toList := by
  intro hmem
  have hraised := (hupper.marks token c h.mark).mpr hmem
  rw [atomValue] at haccepted
  generalize upper token = normalized at hraised haccepted
  by_cases hempty : normalized = ""
  · rw [if_pos hempty] at haccepted
    cases haccepted
  rw [if_neg hempty] at haccepted
  rcases hname : spec.names.lookup normalized with _ | v
  · rw [hname] at haccepted
    dsimp only at haccepted
    by_cases hseven : spec.fieldName = "day-of-week" ∧ normalized = "7"
    · rw [hseven.2] at hraised
      have hdigit : ∀ d ∈ "7".toList, d.isAlphanum = true :=
      List.all_iff_forall_prop.mp (by decide)
      have halphanum := hdigit c hraised
      rw [h.other.2] at halphanum
      cases halphanum
    · rw [if_neg hseven, h.read normalized hraised] at haccepted
      cases haccepted
  · have hcapital := (hspec.capitals _ (mem_names_of_lookup hname)).2 c hraised
    have halphanum : c.isAlphanum = true := by simp [Char.isAlphanum, isAlpha_eq, hcapital]
    rw [h.other.2] at halphanum
    cases halphanum

/-- A character of a text is in one of its pieces, unless it is the separator. -/
theorem exists_mem_splitText {s : String} {separator c : Char} (hc : c ∈ s.toList)
    (hne : c ≠ separator) : ∃ piece ∈ splitText s separator, c ∈ piece.toList := by
  obtain ⟨piece, hpiece, hmem⟩ := exists_mem_splitChars (p := (· = separator)) hc
    (decide_eq_false hne)
  exact ⟨String.ofList piece, List.mem_map_of_mem hpiece, by rwa [String.toList_ofList]⟩

theorem Alien.base {space : Char → Bool} {c : Char} (h : Alien read space c)
    (hupper : Raises upper) (hspec : spec.Regular) {base : String}
    (haccepted : baseAccepted upper read spec base = true) : c ∉ base.toList := by
  intro hmem
  rw [baseAccepted, baseEnds] at haccepted
  split at haccepted
  · rename_i ends start stop hends
    split at hends
    · rename_i hstar
      rw [hstar] at hmem
      rw [List.mem_singleton.mp (show c ∈ ['*'] from hmem)] at h
      exact h.other.1 (by simp)
    · split at hends
      · obtain ⟨piece, hpiece, hin⟩ := exists_mem_splitText hmem
          (fun heq : c = '-' ↦ h.other.1 (by simp [heq]))
        rcases hsplit : splitText base '-' with _ | ⟨first, _ | ⟨last, _ | ⟨other, rest⟩⟩⟩
        all_goals rw [hsplit] at hends hpiece
        · cases hends
        · cases hends
        · dsimp only at hends
          rcases hfirst : atomValue upper read spec first with _ | a
          · rw [hfirst] at hends
            cases hends
          rcases hlast : atomValue upper read spec last with _ | b
          · rw [hfirst, hlast] at hends
            cases hends
          rcases List.mem_cons.mp hpiece with rfl | hpiece
          · exact h.atom hupper hspec hfirst hin
          · rw [List.mem_singleton.mp hpiece] at hin
            exact h.atom hupper hspec hlast hin
        · cases hends
      · rcases hatom : atomValue upper read spec base with _ | a
        · rw [hatom] at hends
          cases hends
        · exact h.atom hupper hspec hatom hmem
  · cases haccepted

theorem Alien.token {space : Char → Bool} {c : Char} (h : Alien read space c)
    (hupper : Raises upper) (hspec : spec.Regular) {parts : String}
    (haccepted : tokenAccepted upper read spec parts = true) : c ∉ parts.toList := by
  intro hmem
  rw [tokenAccepted_eq, Bool.and_eq_true] at haccepted
  obtain ⟨-, haccepted⟩ := haccepted
  rcases hbase : (baseAndStep read parts).map Prod.fst with _ | base'
  · rw [hbase] at haccepted
    cases haccepted
  rw [hbase] at haccepted
  dsimp only at haccepted
  by_cases hslash : includesText parts "/" = true
  · obtain ⟨piece, hpiece, hin⟩ := exists_mem_splitText hmem
      (fun heq : c = '/' ↦ h.other.1 (by simp [heq]))
    rcases hsplit : splitText parts '/' with _ | ⟨base, _ | ⟨stepText, _ | ⟨other, rest⟩⟩⟩
    · simp [baseAndStep, hslash, hsplit] at hbase
    · simp [baseAndStep, hslash, hsplit] at hbase
    · obtain ⟨rfl, hstep⟩ := fst_of_baseAndStep hslash hsplit hbase
      rw [hsplit] at hpiece
      rcases List.mem_cons.mp hpiece with rfl | hpiece
      · exact h.base hupper hspec haccepted hin
      · rw [List.mem_singleton.mp hpiece] at hin
        exact hstep (h.read stepText hin)
    · simp [baseAndStep, hslash, hsplit] at hbase
  · rw [baseAndStep, if_neg hslash] at hbase
    rw [← Option.some.inj hbase] at haccepted
    exact h.base hupper hspec haccepted hmem

theorem Alien.field {space : Char → Bool} {c : Char} (h : Alien read space c)
    (hupper : Raises upper) (hspec : spec.Regular) {field : List Char}
    (haccepted : fieldAccepted upper read spec (String.ofList field) = true) : c ∉ field := by
  intro hmem
  rw [fieldAccepted, Bool.and_eq_true, List.all_eq_true] at haccepted
  have hraised : c ∈ (upper (String.ofList field)).toList :=
    (hupper.marks _ c h.mark).mpr (by rwa [String.toList_ofList])
  obtain ⟨token, htoken, hin⟩ := exists_mem_splitText hraised
    (fun heq : c = ',' ↦ h.other.1 (by simp [heq]))
  exact h.token hupper hspec (haccepted.2 token htoken) ((hupper.marks token c h.mark).mpr hin)

/-- **An accepted text holds no such character.** -/
theorem Alien.notMem {space : Char → Bool} {c : Char} (h : Alien read space c)
    (hupper : Raises upper) {text : String} (haccepted : accepts upper read space text = true) :
    c ∉ text.toList := by
  intro hmem
  obtain ⟨word, hword, hin⟩ := exists_mem_words hmem h.space
  rw [accepts] at haccepted
  rcases hwords : words space text.toList with
    _ | ⟨m, _ | ⟨hr, _ | ⟨d, _ | ⟨mo, _ | ⟨w, _ | ⟨x, rest⟩⟩⟩⟩⟩⟩
  all_goals rw [hwords] at haccepted hword
  · cases haccepted
  · cases haccepted
  · cases haccepted
  · cases haccepted
  · cases haccepted
  · simp only [Bool.and_eq_true] at haccepted
    obtain ⟨⟨⟨⟨hm, hh⟩, hd⟩, hmo⟩, hw⟩ := haccepted
    simp only [List.mem_cons, List.not_mem_nil, or_false] at hword
    rcases hword with rfl | rfl | rfl | rfl | rfl
    · exact h.field hupper regular_minuteSpec hm hin
    · exact h.field hupper regular_hourSpec hh hin
    · exact h.field hupper regular_dayOfMonthSpec hd hin
    · exact h.field hupper regular_monthSpec hmo hin
    · exact h.field hupper regular_dayOfWeekSpec hw hin
  · cases haccepted

end Readings

/-! ## Lenient reading -/

section Lenient

variable {upper : String → String} {read other either : String → Option ℤ}
variable {space otherSpace both : Char → Bool} {text : String}

/-- **One language of two.** It accepts a text if the text is accepted leniently and holds nothing
that is for the other language alone. -/
theorem accepts_iff_lenient (hupper : Raises upper) (hextends : Extends read either)
    (heither : ∀ s, either s ≠ none → read s ≠ none ∨ other s ≠ none)
    (hboth : ∀ c, both c = (space c || otherSpace c))
    (halien : ∀ c, otherSpace c = true → space c = false → Alien read space c) :
    accepts upper read space text = true ↔ accepts upper either both text = true ∧
      ¬((∃ c ∈ text.toList, otherSpace c = true ∧ space c = false) ∨
        ∃ s ∈ numeralsOf upper both text, other s ≠ none ∧ read s = none) := by
  -- without such white space the words are the same
  have hsame : ∀ r : String → Option ℤ, (∀ c ∈ text.toList, ¬(otherSpace c = true ∧ space c = false)) →
      accepts upper r space text = accepts upper r both text ∧
        numeralsOf upper space text = numeralsOf upper both text := by
    intro r hnone
    have hwords : words space text.toList = words both text.toList := by
      have hpointwise : ∀ c ∈ text.toList, space c = both c := by
        intro c hc
        rw [hboth]
        rcases hspace : space c with _ | _
        · rcases hother : otherSpace c with _ | _
          · rfl
          · exact absurd ⟨hother, hspace⟩ (hnone c hc)
        · rfl
      rw [words, words, splitChars_congr hpointwise]
    rw [accepts, accepts, numeralsOf, numeralsOf, hwords]
    exact ⟨rfl, rfl⟩
  constructor
  · intro haccepted
    have hnone : ∀ c ∈ text.toList, ¬(otherSpace c = true ∧ space c = false) :=
      fun c hc hspaces ↦ (halien c hspaces.1 hspaces.2).notMem hupper haccepted hc
    rw [(hsame read hnone).1, accepts_iff hextends] at haccepted
    refine ⟨haccepted.1, ?_⟩
    rintro (⟨c, hc, hspaces⟩ | ⟨s, hs, -, hunread⟩)
    · exact hnone c hc hspaces
    · exact haccepted.2 s hs hunread
  · rintro ⟨haccepted, halone⟩
    rw [not_or] at halone
    obtain ⟨hspaces, hnumerals⟩ := halone
    have hnone : ∀ c ∈ text.toList, ¬(otherSpace c = true ∧ space c = false) :=
      fun c hc h ↦ hspaces ⟨c, hc, h⟩
    rw [(hsame read hnone).1, accepts_iff hextends]
    refine ⟨haccepted, fun s hs hunread ↦ hnumerals ⟨s, hs, ?_, hunread⟩⟩
    have hread : ∀ s ∈ numeralsOf upper both text, either s ≠ none :=
      (accepts_iff (fun _ _ ↦ Or.inl rfl : Extends either either) |>.mp haccepted).2
    exact (heither s (hread s hs)).resolve_left fun h ↦ h hunread

end Lenient

/-! ## The two checks -/

section Checks

variable {py : Python} {host : Host}

/-- How the built-in operations of the two languages go together: one upper case; numbers that both
read are alike; and neither reads white space of the other language within a number. -/
structure Related (py : Python) (host : Host) : Prop where
  upper : py.upper = host.toUpperCase
  raises : Raises host.toUpperCase
  alike : ∀ s x y, py.int s = some x → host.integerOf s = some y → Alike (some x) (some y)
  pySpaces : ∀ s, ∀ c ∈ s.toList, isPySpace c = true → isJsWhitespace c = false →
    host.integerOf s = none
  jsSpaces : ∀ c, isJsWhitespace c = true → isPySpace c = false → py.decimal c = none

/-- White space of either language. -/
def eitherSpace (c : Char) : Bool := isPySpace c || isJsWhitespace c

/-- A number of either language. -/
def eitherRead (py : Python) (host : Host) (s : String) : Option ℤ :=
  (py.int s).or (host.integerOf s)

/-- The text is a well-formed expression with the white space and the numbers of both languages. -/
def Lenient (py : Python) (host : Host) (text : String) : Prop :=
  accepts host.toUpperCase (eitherRead py host) eitherSpace text = true

/-- The text holds white space or a number for Python alone. -/
def ForPythonAlone (py : Python) (host : Host) (text : String) : Prop :=
  (∃ c ∈ text.toList, isPySpace c = true ∧ isJsWhitespace c = false) ∨
    ∃ s ∈ numeralsOf host.toUpperCase eitherSpace text, py.int s ≠ none ∧ host.integerOf s = none

/-- The text holds white space or a number for the worker alone. -/
def ForWorkerAlone (py : Python) (host : Host) (text : String) : Prop :=
  (∃ c ∈ text.toList, isJsWhitespace c = true ∧ isPySpace c = false) ∨
    ∃ s ∈ numeralsOf host.toUpperCase eitherSpace text, host.integerOf s ≠ none ∧ py.int s = none

/-- A space is no letter, no digit and no mark. -/
theorem other_of_isJsWhitespace {c : Char} (h : isJsWhitespace c = true) :
    c ∉ ['*', '-', '/', ',', '+', '_'] ∧ c.isAlphanum = false := by
  constructor
  · intro hmem
    have hnone : ∀ d ∈ ['*', '-', '/', ',', '+', '_'], isJsWhitespace d = false :=
      List.all_iff_forall_prop.mp (by decide)
    rw [hnone c hmem] at h
    cases h
  · by_contra halphanum
    rw [Bool.not_eq_false] at halphanum
    have hnone := forall_ascii (P := fun d ↦ d.isAlphanum = true → isJsWhitespace d = false)
      (by decide) (toNat_lt_of_isAlphanum halphanum) halphanum
    rw [hnone] at h
    cases h

theorem other_of_isPySpace {c : Char} (h : isPySpace c = true) :
    c ∉ ['*', '-', '/', ',', '+', '_'] ∧ c.isAlphanum = false := by
  constructor
  · intro hmem
    have hnone : ∀ d ∈ ['*', '-', '/', ',', '+', '_'], isPySpace d = false :=
      List.all_iff_forall_prop.mp (by decide)
    rw [hnone c hmem] at h
    cases h
  · by_contra halphanum
    rw [Bool.not_eq_false] at halphanum
    have hnone := forall_ascii (P := fun d ↦ d.isAlphanum = true → isPySpace d = false)
      (by decide) (toNat_lt_of_isAlphanum halphanum) halphanum
    rw [hnone] at h
    cases h

/-- `int` reads signs, digits and underscores only. -/
theorem int_eq_none {s : String} {c : Char} (hc : c ∈ s.toList) (hdecimal : py.decimal c = none)
    (hother : c ≠ '+' ∧ c ≠ '-' ∧ c ≠ '_') : py.int s = none := by
  have hnatural : ∀ cs : List Char, c ∈ cs → py.natural cs = none := by
    intro cs hmem
    obtain ⟨group, hgroup, hin⟩ := exists_mem_splitChars (p := (· = '_')) hmem
      (decide_eq_false hother.2.2)
    have hflat : c ∈ (splitChars (· = '_') cs).flatten := List.mem_flatten.mpr ⟨group, hgroup, hin⟩
    rw [Python.natural]
    split
    · rfl
    · generalize (splitChars (· = '_') cs).flatten = digits at hflat
      have hmapM : digits.mapM py.decimal = none := by
        induction digits with
        | nil => exact absurd hflat List.not_mem_nil
        | cons d rest ih =>
          rw [List.mapM_cons]
          rcases List.mem_cons.mp hflat with rfl | hrest
          · rw [hdecimal]
            rfl
          · rw [ih hrest]
            rcases py.decimal d <;> rfl
      rw [hmapM]
      rfl
  rw [Python.int]
  split
  · rename_i cs hcs
    rw [hcs] at hc
    rw [hnatural cs ((List.mem_cons.mp hc).resolve_left hother.1)]
    rfl
  · rename_i cs hcs
    rw [hcs] at hc
    rw [hnatural cs ((List.mem_cons.mp hc).resolve_left hother.2.1)]
    rfl
  · rw [hnatural _ hc]
    rfl

theorem Related.alien_py (h : Related py host) {c : Char} (hjs : isJsWhitespace c = true)
    (hpy : isPySpace c = false) : Alien py.int isPySpace c where
  mark := isMark_of_isJsWhitespace hjs
  space := hpy
  other := ⟨fun hmem ↦ (other_of_isJsWhitespace hjs).1 (by simp at hmem ⊢; tauto),
    (other_of_isJsWhitespace hjs).2⟩
  read s hc := by
    have hother := (other_of_isJsWhitespace hjs).1
    simp only [List.mem_cons, List.not_mem_nil, or_false, not_or] at hother
    exact int_eq_none hc (h.jsSpaces c hjs hpy) ⟨hother.2.2.2.2.1, hother.2.1, hother.2.2.2.2.2⟩

theorem Related.alien_js (h : Related py host) {c : Char} (hpy : isPySpace c = true)
    (hjs : isJsWhitespace c = false) : Alien host.integerOf isJsWhitespace c where
  mark := isMark_of_isPySpace hpy
  space := hjs
  other := ⟨fun hmem ↦ (other_of_isPySpace hpy).1 (by simp at hmem ⊢; tauto),
    (other_of_isPySpace hpy).2⟩
  read s hc := h.pySpaces s c hc hpy hjs

/-- **The synchroniser** accepts what is well formed and holds nothing for the worker alone. -/
theorem validateCronExpression_iff (h : Related py host) (text jobKey : String) :
    (∃ expr, SyncJobs.validateCronExpression py text jobKey = .ok expr) ↔
      Lenient py host text ∧ ¬ForWorkerAlone py host text := by
  have hupper : Raises py.upper := h.upper ▸ h.raises
  have haccepts := isSome_validateCronExpression hupper text jobKey
  have hlenient : accepts host.toUpperCase py.int isPySpace text = true ↔
      Lenient py host text ∧ ¬ForWorkerAlone py host text :=
    accepts_iff_lenient h.raises ?_ ?_ (fun _ ↦ rfl) fun c hjs hpy ↦ h.alien_py hjs hpy
  · rw [← hlenient, ← h.upper, ← haccepts]
    rcases SyncJobs.validateCronExpression py text jobKey with message | expr
    · simp [Except.toOption]
    · simp [Except.toOption]
  · intro s hs
    obtain ⟨x, hx⟩ := Option.ne_none_iff_exists'.mp hs
    rw [eitherRead, hx]
    exact Or.inl rfl
  · intro s hs
    rw [eitherRead] at hs
    rcases hx : py.int s with _ | x
    · rw [hx, Option.none_or] at hs
      exact Or.inr hs
    · exact Or.inl (Option.some_ne_none _)

/-- **The worker** accepts what is well formed and holds nothing for Python alone. -/
theorem parseCronExpression_iff (h : Related py host) (text : String) :
    (∃ cron, parseCronExpression host text = .ok cron) ↔
      Lenient py host text ∧ ¬ForPythonAlone py host text := by
  have haccepts := isSome_parseCronExpression h.raises text
  have hlenient : accepts host.toUpperCase host.integerOf isJsWhitespace text = true ↔
      Lenient py host text ∧ ¬ForPythonAlone py host text :=
    accepts_iff_lenient h.raises ?_ ?_ (fun c ↦ Bool.or_comm _ _) fun c hpy hjs ↦
      h.alien_js hpy hjs
  · rw [← hlenient, ← haccepts]
    rcases parseCronExpression host text with message | cron
    · simp [Except.toOption]
    · simp [Except.toOption]
  · intro s hs
    obtain ⟨y, hy⟩ := Option.ne_none_iff_exists'.mp hs
    rw [eitherRead, hy]
    rcases hx : py.int s with _ | x
    · exact Or.inl rfl
    · rw [Option.some_or]
      rcases h.alike s x y hx hy with hsame | ⟨a, b, ha, hb, hbeyond⟩
      · exact Or.inl hsame.symm
      · exact Or.inr ⟨b, a, hb, ha, hbeyond.imp And.symm And.symm⟩
  · intro s hs
    rw [eitherRead] at hs
    rcases hx : py.int s with _ | x
    · rw [hx, Option.none_or] at hs
      exact Or.inl hs
    · exact Or.inr (Option.some_ne_none _)

/-- **The two checks agree on a text** unless it is well formed, read leniently, and holds something
for one of them alone and nothing for the other. -/
theorem checks_agree_iff (h : Related py host) (text jobKey : String) :
    ((∃ expr, SyncJobs.validateCronExpression py text jobKey = .ok expr) ↔
        ∃ cron, parseCronExpression host text = .ok cron) ↔
      (Lenient py host text → (ForPythonAlone py host text ↔ ForWorkerAlone py host text)) := by
  rw [validateCronExpression_iff h, parseCronExpression_iff h]
  by_cases hlenient : Lenient py host text
  · simp only [hlenient, true_and, true_implies, not_iff_not]
    exact Iff.comm
  · simp [hlenient]

end Checks

/-! ## Two texts -/

/-- Letters are raised one by one, and the digits are those of ASCII. -/
def plainPython : Python where
  upper text := String.ofList (upperChars text.toList)
  decimal c := if c.isDigit = true then some (c.toNat - '0'.toNat) else none
  repr := jsonQuote

/-- A letter that is raised becomes a letter. -/
theorem toUpper_cases (c : Char) : c.toUpper = c ∨ c.toNat < 128 ∧ c.toUpper.isAlphanum = true := by
  by_cases hc : c.isLower = true
  · have halphanum : c.isAlphanum = true := by simp [Char.isAlphanum, isAlpha_eq, hc]
    exact Or.inr ⟨toNat_lt_of_isAlphanum halphanum,
      (IsCronChar.ascii (Or.inl halphanum)).2.2.2.1 halphanum⟩
  · exact Or.inl (toUpper_of_not_isLower hc)

theorem toUpper_toUpper (c : Char) : c.toUpper.toUpper = c.toUpper := by
  rcases toUpper_cases c with hsame | ⟨hascii, -⟩
  · rw [hsame, hsame]
  · exact forall_ascii (P := fun c ↦ c.toUpper.toUpper = c.toUpper) (by decide) hascii

theorem IsMark.not_isAlphanum {c : Char} (h : IsMark c) : c.isAlphanum = false := by
  rcases h with h | h | h
  · exact (other_of_isPySpace h).2
  · exact (other_of_isJsWhitespace h).2
  · have hnone : ∀ d ∈ ['*', '-', '/', ','], d.isAlphanum = false :=
      List.all_iff_forall_prop.mp (by decide)
    exact hnone c h

theorem raises_plain : Raises plainHost.toUpperCase where
  again s := by
    change String.ofList (upperChars (String.ofList (upperChars s.toList)).toList) = _
    rw [String.toList_ofList, upperChars, upperChars, List.map_map]
    exact congrArg String.ofList (List.map_congr_left fun c _ ↦ toUpper_toUpper c)
  marks s c hc := by
    change c ∈ (String.ofList (upperChars s.toList)).toList ↔ _
    rw [String.toList_ofList, upperChars, List.mem_map]
    constructor
    · rintro ⟨d, hd, rfl⟩
      rcases toUpper_cases d with hsame | ⟨-, halphanum⟩
      · rwa [hsame]
      · rw [hc.not_isAlphanum] at halphanum
        cases halphanum
    · intro hmem
      refine ⟨c, hmem, ?_⟩
      by_contra hne
      have hlower : c.isLower = true := by
        by_contra hnot
        exact hne (toUpper_of_not_isLower hnot)
      have halphanum : c.isAlphanum = true := by simp [Char.isAlphanum, isAlpha_eq, hlower]
      rw [hc.not_isAlphanum] at halphanum
      cases halphanum

/-- Digits have the value that `int` gives them. -/
theorem natural_of_digits {cs : List Char} (h : ∀ c ∈ cs, c.isDigit = true) {n : ℕ}
    (hn : plainPython.natural cs = some n) : (n : ℤ) = decimalOf cs := by
  have hsplit : splitChars (· = '_') cs = [cs] := splitChars_eq_singleton fun c hc ↦ by
    rw [decide_eq_false_iff_not]
    rintro rfl
    exact absurd (h _ hc) (by decide)
  have hmapM : ∀ l : List Char, (∀ c ∈ l, c.isDigit = true) →
      l.mapM plainPython.decimal = some (l.map fun c ↦ c.toNat - '0'.toNat) := by
    intro l
    induction l with
    | nil => exact fun _ ↦ rfl
    | cons c l ih =>
      intro hl
      have hc : plainPython.decimal c = some (c.toNat - '0'.toNat) := if_pos (hl c List.mem_cons_self)
      rw [List.mapM_cons, hc, ih fun d hd ↦ hl d (List.mem_cons_of_mem c hd)]
      rfl
  have hfold : ∀ (l : List Char) (a : ℕ),
      (((l.map fun c ↦ c.toNat - '0'.toNat).foldl (fun n d ↦ n * 10 + d) a : ℕ) : ℤ)
        = l.foldl (fun (n : ℤ) (c : Char) ↦ n * 10 + (c.toNat - '0'.toNat : ℕ)) (a : ℤ) := by
    intro l
    induction l with
    | nil => exact fun _ ↦ rfl
    | cons c l ih =>
      intro a
      rw [List.map_cons, List.foldl_cons, List.foldl_cons, ih]
      push_cast
      rfl
  rw [Python.natural, hsplit] at hn
  simp only [List.flatten_cons, List.flatten_nil, List.append_nil, hmapM cs h] at hn
  split at hn
  · cases hn
  · rw [← Option.some.inj hn]
    exact hfold cs 0

theorem related_plain : Related plainPython plainHost where
  upper := rfl
  raises := raises_plain
  alike s x y hx hy := by
    -- what the host reads is made of digits
    have hdigits : s.toList ≠ [] ∧ s.toList.all Char.isDigit = true := by
      by_contra hnot
      have hnone : plainHost.integerOf s = none := if_neg hnot
      rw [hnone] at hy
      cases hy
    have hy' : plainHost.integerOf s = some (decimalOf s.toList) := if_pos hdigits
    rw [hy'] at hy
    have hall := List.all_eq_true.mp hdigits.2
    refine Or.inl ?_
    rw [← hy]
    rw [Python.int] at hx
    split at hx
    · rename_i cs hcs
      exact absurd (hall '+' (by simp [hcs])) (by decide)
    · rename_i cs hcs
      exact absurd (hall '-' (by simp [hcs])) (by decide)
    · obtain ⟨n, hn, rfl⟩ := Option.map_eq_some_iff.mp hx
      exact congrArg some (natural_of_digits hall hn)
  pySpaces s c hc hpy _ := by
    refine if_neg fun hdigits ↦ ?_
    have hdigit := List.all_eq_true.mp hdigits.2 c hc
    have halphanum := (other_of_isPySpace hpy).2
    simp [Char.isAlphanum, hdigit] at halphanum
  jsSpaces c hjs _ := by
    refine if_neg fun hdigit ↦ ?_
    have halphanum := (other_of_isJsWhitespace hjs).2
    simp [Char.isAlphanum, hdigit] at halphanum

/-- Both accept every quarter of an hour on weekdays. -/
theorem checks_agree_quarters :
    (∃ expr, SyncJobs.validateCronExpression plainPython "*/15 6-18 1,15 jan-Dec MON-fri" "refresh"
        = .ok expr) ↔
      ∃ cron, parseCronExpression plainHost "*/15 6-18 1,15 jan-Dec MON-fri" = .ok cron := by
  refine (checks_agree_iff related_plain _ "refresh").mpr fun _ ↦ iff_of_false ?_ ?_
  · rw [ForPythonAlone, ← List.any_iff_exists_prop, ← List.any_iff_exists_prop]
    decide +kernel
  · rw [ForWorkerAlone, ← List.any_iff_exists_prop, ← List.any_iff_exists_prop]
    decide +kernel

/-- The tenth minute, written as Python writes it, passes the synchroniser and not the worker. -/
theorem not_checks_agree_underscore :
    ¬((∃ expr, SyncJobs.validateCronExpression plainPython "1_0 * * * *" "refresh" = .ok expr) ↔
      ∃ cron, parseCronExpression plainHost "1_0 * * * *" = .ok cron) := by
  have hpy : (SyncJobs.validateCronExpression plainPython "1_0 * * * *" "refresh").toOption.isSome
      = true := by decide +kernel
  have hjs : (parseCronExpression plainHost "1_0 * * * *").toOption.isSome = false := by
    decide +kernel
  intro h
  rcases hvalid : SyncJobs.validateCronExpression plainPython "1_0 * * * *" "refresh" with
    message | expr
  · rw [hvalid] at hpy
    cases hpy
  · obtain ⟨cron, hcron⟩ := h.mp ⟨expr, hvalid⟩
    rw [hcron] at hjs
    cases hjs

end UkAqOps.Scheduler

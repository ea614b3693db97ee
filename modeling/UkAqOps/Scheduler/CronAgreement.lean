import UkAqOps.Scheduler.CronFields
import UkAqOps.Scheduler.SyncJobs

/-!
# The synchroniser and the worker on cron expressions

The two checks take an expression apart in the same way and differ in what is white space and in
which text is a number. So an expression is read leniently first, with the white space and the
numbers of both languages: each check accepts it if it is well formed and nothing in it is for the
other language alone.
-/

namespace UkAqOps.Scheduler

open SyncJobs (Python isPySpace strip)

/-! ## One way of taking an expression apart -/

section Accepts

variable (upper : String → String) (read : String → Option ℤ) (spec : FieldSpec)

def atomValue (token : String) : Option ℤ :=
  let normalized := upper token
  if normalized = "" then none
  else match spec.names.lookup normalized with
    | some value => some value
    | none =>
      if spec.fieldName = "day-of-week" ∧ normalized = "7" then some 0
      else match read normalized with
        | none => none
        | some parsed =>
          if parsed < spec.min ∨ spec.max < parsed then none else some (spec.sunday parsed)

/-- The two ends of a base. -/
def baseEnds (base : String) : Option (ℤ × ℤ) :=
  if base = "*" then some (spec.min, spec.max)
  else if includesText base "-" then
    match splitText base '-' with
    | [first, last] => do
      let start ← atomValue upper read spec first
      let stop ← atomValue upper read spec last
      pure (start, stop)
    | _ => none
  else (atomValue upper read spec base).map fun value ↦ (value, value)

/-- The base of a token and its step. -/
def baseAndStep (parts : String) : Option (String × ℤ) :=
  if includesText parts "/" then
    match splitText parts '/' with
    | [base, stepText] =>
      match read stepText with
      | some step => if 0 < step then some (base, step) else none
      | none => none
    | _ => none
  else some (parts, 1)

def baseAccepted (base : String) : Bool :=
  match baseEnds upper read spec base with
  | some (start, stop) => decide (start ≤ stop)
  | none => false

/-- A token, raised. -/
def tokenAccepted (parts : String) : Bool :=
  decide (parts ≠ "") &&
    match baseAndStep read parts with
    | some (base, _) => baseAccepted upper read spec base
    | none => false

def fieldAccepted (field : String) : Bool :=
  decide (upper field ≠ "") &&
    (splitText (upper field) ',').all fun token ↦ tokenAccepted upper read spec (upper token)

/-- The fields of a text, and whether each of them is accepted. -/
def accepts (space : Char → Bool) (text : String) : Bool :=
  match words space text.toList with
  | [minute, hour, dayOfMonth, month, dayOfWeek] =>
    fieldAccepted upper read minuteSpec (String.ofList minute) &&
      fieldAccepted upper read hourSpec (String.ofList hour) &&
      fieldAccepted upper read dayOfMonthSpec (String.ofList dayOfMonth) &&
      fieldAccepted upper read monthSpec (String.ofList month) &&
      fieldAccepted upper read dayOfWeekSpec (String.ofList dayOfWeek)
  | _ => false

end Accepts

/-! ## Case and white space -/

/-- The characters that an expression is taken apart at. -/
def IsMark (c : Char) : Prop :=
  isPySpace c = true ∨ isJsWhitespace c = true ∨ c ∈ ['*', '-', '/', ',']

/-- Raising a text again changes nothing, and it neither makes nor loses a mark. -/
structure Raises (upper : String → String) : Prop where
  again : ∀ s, upper (upper s) = upper s
  marks : ∀ s c, IsMark c → (c ∈ (upper s).toList ↔ c ∈ s.toList)

/-- A text without the characters of a class. -/
def Free (space : Char → Bool) (s : String) : Prop := ∀ c ∈ s.toList, space c = false

theorem strip_of_free {s : String} (h : Free isPySpace s) : strip s = s := by
  have hdrop : ∀ cs : List Char, (∀ c ∈ cs, isPySpace c = false) →
      (cs.dropWhile isPySpace).rdropWhile isPySpace = cs := by
    intro cs hcs
    have hdrop : cs.dropWhile isPySpace = cs := by
      rcases cs with _ | ⟨c, cs⟩
      · rfl
      · exact List.dropWhile_cons_of_neg (by simp [hcs c List.mem_cons_self])
    rw [hdrop]
    rcases List.eq_nil_or_concat cs with rfl | ⟨init, last, rfl⟩
    · rfl
    · rw [List.concat_eq_append]
      exact List.rdropWhile_concat_neg _ _ _ (by simp [hcs last (by simp)])
  rw [strip, hdrop _ h, String.ofList_toList]

section Free

variable {upper : String → String} {space : Char → Bool} {s : String}

theorem free_upper (hupper : Raises upper) (hspace : ∀ c, space c = true → IsMark c)
    (h : Free space s) : Free space (upper s) := by
  intro c hc
  by_contra hspaced
  rw [Bool.not_eq_false] at hspaced
  have hmem := (hupper.marks s c (hspace c hspaced)).mp hc
  rw [h c hmem] at hspaced
  cases hspaced

theorem Free.of_mem_splitText {separator : Char} {piece : String} (h : Free space s)
    (hpiece : piece ∈ splitText s separator) : Free space piece := by
  obtain ⟨chars, hchars, rfl⟩ := List.mem_map.mp hpiece
  intro c hc
  rw [String.toList_ofList] at hc
  exact h c (mem_of_mem_splitChars hchars hc).2

theorem free_of_mem_words {word cs : List Char} (h : word ∈ words space cs) :
    Free space (String.ofList word) := by
  intro c hc
  rw [String.toList_ofList] at hc
  exact ((mem_words h).2 c hc).1

end Free

/-! ## The worker -/

section Worker

variable {host : Host} {spec : FieldSpec}

theorem isMark_of_isJsWhitespace {c : Char} (h : isJsWhitespace c = true) : IsMark c :=
  Or.inr (Or.inl h)

theorem trimText_of_free {s : String} (h : Free isJsWhitespace s) : trimText s = s :=
  trimText_of_forall h

theorem toOption_normalizeCronAtom {token : String} (h : Free isJsWhitespace token) :
    (normalizeCronAtom host spec token).toOption
      = atomValue host.toUpperCase host.integerOf spec token := by
  rw [normalizeCronAtom, atomValue]
  simp only [trimText_of_free h]
  split
  · rfl
  · rcases spec.names.lookup (host.toUpperCase token) with _ | value
    · dsimp only
      split
      · rfl
      · rcases host.integerOf (host.toUpperCase token) with _ | parsed
        · rfl
        · dsimp only
          split <;> rfl
    · rfl

theorem toOption_cronRange (token : String) {base : String} (h : Free isJsWhitespace base) :
    (cronRange host spec token base).toOption
      = baseEnds host.toUpperCase host.integerOf spec base := by
  rw [cronRange, baseEnds]
  split
  · rfl
  · split
    · rcases hsplit : splitText base '-' with _ | ⟨first, _ | ⟨last, _ | ⟨other, rest⟩⟩⟩
      · rfl
      · rfl
      · have hfree : ∀ piece ∈ [first, last], Free isJsWhitespace piece := fun piece hpiece ↦
          h.of_mem_splitText (by rw [hsplit]; exact hpiece)
        dsimp only
        rw [← toOption_normalizeCronAtom (hfree first (by simp)),
          ← toOption_normalizeCronAtom (hfree last (by simp))]
        rcases normalizeCronAtom host spec first with message | start
        · rfl
        · rcases normalizeCronAtom host spec last with message | stop
          · rfl
          · rfl
      · rfl
    · rw [← toOption_normalizeCronAtom h]
      rcases normalizeCronAtom host spec base with message | start
      · rfl
      · rfl

theorem toOption_cronBaseAndStep (token : String) {parts : String} (h : Free isJsWhitespace parts) :
    (cronBaseAndStep host spec token parts).toOption = baseAndStep host.integerOf parts := by
  rw [cronBaseAndStep, baseAndStep]
  split
  · rcases hsplit : splitText parts '/' with _ | ⟨base, _ | ⟨stepText, _ | ⟨other, rest⟩⟩⟩
    · rfl
    · rfl
    · have hfree : Free isJsWhitespace stepText :=
        h.of_mem_splitText (by rw [hsplit]; simp)
      dsimp only
      rw [trimText_of_free hfree]
      rcases host.integerOf stepText with _ | step
      · rfl
      · dsimp only
        split <;> rfl
    · rfl
  · rfl

/-- The base of a token is a part of it. -/
theorem free_baseAndStep {space : Char → Bool} {read : String → Option ℤ} {parts base : String}
    {step : ℤ} (h : Free space parts) (hbase : baseAndStep read parts = some (base, step)) :
    Free space base := by
  rw [baseAndStep] at hbase
  split at hbase
  · rcases hsplit : splitText parts '/' with _ | ⟨first, _ | ⟨stepText, _ | ⟨other, rest⟩⟩⟩
    all_goals rw [hsplit] at hbase
    · cases hbase
    · cases hbase
    · dsimp only at hbase
      split at hbase
      · split at hbase
        · obtain ⟨rfl, -⟩ := Prod.mk.inj (Option.some.inj hbase)
          exact h.of_mem_splitText (by rw [hsplit]; simp)
        · cases hbase
      · cases hbase
    · cases hbase
  · obtain ⟨rfl, -⟩ := Prod.mk.inj (Option.some.inj hbase)
    exact h

/-- **A token of the worker.** -/
theorem isSome_expandCronToken (hupper : Raises host.toUpperCase) {token : String}
    (h : Free isJsWhitespace token) :
    (expandCronToken host spec token).toOption.isSome
      = tokenAccepted host.toUpperCase host.integerOf spec (host.toUpperCase token) := by
  have hparts : Free isJsWhitespace (host.toUpperCase token) :=
    free_upper hupper (fun c ↦ isMark_of_isJsWhitespace) h
  rw [expandCronToken, tokenAccepted]
  simp only [trimText_of_free h]
  generalize host.toUpperCase token = parts at hparts ⊢
  by_cases hempty : parts = ""
  · simp [hempty, Except.toOption]
  rw [if_neg hempty, decide_eq_true hempty, Bool.true_and, ← toOption_cronBaseAndStep token hparts]
  rcases hbase : cronBaseAndStep host spec token parts with message | ⟨base, step⟩
  · rfl
  · have hfree : Free isJsWhitespace base := free_baseAndStep hparts
      ((toOption_cronBaseAndStep token hparts).symm.trans (by rw [hbase]; rfl))
    rw [Except.ok_bind]
    dsimp only [Except.toOption]
    rw [baseAccepted, ← toOption_cronRange token hfree]
    rcases cronRange host spec token base with message | ⟨start, stop⟩
    · rfl
    · rw [Except.ok_bind]
      dsimp only [Except.toOption]
      by_cases hlt : stop < start
      · rw [if_pos hlt, decide_eq_false (not_le.mpr hlt)]
        rfl
      · rw [if_neg hlt, decide_eq_true (not_lt.mp hlt)]
        rfl

/-- **A field of the worker.** -/
theorem isSome_parseCronField (hupper : Raises host.toUpperCase) (hspec : spec.Regular)
    {field : String} (h : Free isJsWhitespace field) :
    (parseCronField host spec field).toOption.isSome
      = fieldAccepted host.toUpperCase host.integerOf spec field := by
  have hfree : Free isJsWhitespace (host.toUpperCase field) :=
    free_upper hupper (fun c ↦ isMark_of_isJsWhitespace) h
  have hagain := hupper.again field
  rw [parseCronField, fieldAccepted]
  simp only [trimText_of_free h]
  generalize host.toUpperCase field = normalized at hfree hagain ⊢
  by_cases hempty : normalized = ""
  · simp [hempty, Except.toOption]
  rw [if_neg hempty, decide_eq_true hempty, Bool.true_and]
  by_cases hstar : normalized = "*"
  · rw [if_pos hstar]
    rw [hstar] at hagain ⊢
    have hsplit : splitText "*" ',' = ["*"] := by decide
    have hstep : baseAndStep host.integerOf "*" = some ("*", 1) := if_neg (by decide)
    have hends : baseEnds host.toUpperCase host.integerOf spec "*" = some (spec.min, spec.max) :=
      if_pos rfl
    rw [hsplit, List.all_cons, List.all_nil, Bool.and_true, hagain, tokenAccepted, hstep]
    dsimp only
    rw [baseAccepted, hends]
    dsimp only
    rw [decide_eq_true hspec.bounds.2.1]
    rfl
  · rw [if_neg hstar]
    have htokens : ∀ token ∈ splitText normalized ',',
        (expandCronToken host spec token).toOption.isSome
          = tokenAccepted host.toUpperCase host.integerOf spec (host.toUpperCase token) :=
      fun token htoken ↦ isSome_expandCronToken hupper (hfree.of_mem_splitText htoken)
    rcases hmapM : (splitText normalized ',').mapM (expandCronToken host spec) with message | values
    · symm
      refine (Bool.eq_false_iff.mpr fun hall ↦ ?_).trans rfl
      have hok : ∀ token ∈ splitText normalized ',',
          ∃ vs, expandCronToken host spec token = .ok vs := by
        intro token htoken
        have hsome := (htokens token htoken).trans (List.all_eq_true.mp hall token htoken)
        rcases hexpand : expandCronToken host spec token with message | vs
        · rw [hexpand] at hsome
          cases hsome
        · exact ⟨vs, rfl⟩
      obtain ⟨r, hr⟩ := (Except.exists_mapM_eq_ok_iff _ _).mpr hok
      rw [hr] at hmapM
      cases hmapM
    · symm
      refine List.all_eq_true.mpr fun token htoken ↦ ?_
      obtain ⟨vs, -, hvs⟩ := Except.exists_output_of_mem hmapM htoken
      rw [← htokens token htoken, hvs]
      rfl

/-- **What the worker accepts.** -/
theorem isSome_parseCronExpression (hupper : Raises host.toUpperCase) (text : String) :
    (parseCronExpression host text).toOption.isSome
      = accepts host.toUpperCase host.integerOf isJsWhitespace text := by
  rw [accepts]
  by_cases hnil : words isJsWhitespace text.toList = []
  · have hblank : splitWhitespace (trimText text) = [""] := by
      have hwords : words isJsWhitespace (trimText text).toList = [] := by
        rw [trimText, String.toList_ofList, words_trim, hnil]
      rw [words] at hwords
      rw [splitWhitespace, hwords]
      rfl
    rw [parseCronExpression, hblank, hnil]
    rfl
  have hsplit := splitWhitespace_trimText hnil
  have hfree : ∀ word ∈ words isJsWhitespace text.toList,
      Free isJsWhitespace (String.ofList word) := fun word ↦ free_of_mem_words
  rw [parseCronExpression, hsplit]
  generalize words isJsWhitespace text.toList = fields at hfree ⊢
  rcases fields with _ | ⟨m, _ | ⟨h, _ | ⟨d, _ | ⟨mo, _ | ⟨w, _ | ⟨other, rest⟩⟩⟩⟩⟩⟩
  · rfl
  · rfl
  · rfl
  · rfl
  · rfl
  · dsimp only [List.map_cons, List.map_nil]
    rw [← isSome_parseCronField hupper regular_minuteSpec (hfree m (by simp)),
      ← isSome_parseCronField hupper regular_hourSpec (hfree h (by simp)),
      ← isSome_parseCronField hupper regular_dayOfMonthSpec (hfree d (by simp)),
      ← isSome_parseCronField hupper regular_monthSpec (hfree mo (by simp)),
      ← isSome_parseCronField hupper regular_dayOfWeekSpec (hfree w (by simp))]
    change (do
      let minute ← parseCronField host minuteSpec (String.ofList m)
      let hour ← parseCronField host hourSpec (String.ofList h)
      let dayOfMonth ← parseCronField host dayOfMonthSpec (String.ofList d)
      let month ← parseCronField host monthSpec (String.ofList mo)
      let dayOfWeek ← parseCronField host dayOfWeekSpec (String.ofList w)
      Except.ok (Cron.mk minute hour dayOfMonth month dayOfWeek)).toOption.isSome = _
    rcases parseCronField host minuteSpec (String.ofList m) with message | minute
    · rfl
    rcases parseCronField host hourSpec (String.ofList h) with message | hour
    · rfl
    rcases parseCronField host dayOfMonthSpec (String.ofList d) with message | dayOfMonth
    · rfl
    rcases parseCronField host monthSpec (String.ofList mo) with message | month
    · rfl
    rcases parseCronField host dayOfWeekSpec (String.ofList w) with message | dayOfWeek
    · rfl
    · rfl
  · rfl

end Worker

/-! ## The synchroniser -/

section Synchroniser

variable {py : Python} {spec : FieldSpec}

theorem isMark_of_isPySpace {c : Char} (h : isPySpace c = true) : IsMark c := Or.inl h

theorem toOption_pyAtom {token : String} (h : Free isPySpace token) :
    (SyncJobs.normalizeCronAtom py spec token).toOption = atomValue py.upper py.int spec token := by
  rw [SyncJobs.normalizeCronAtom, atomValue]
  simp only [strip_of_free h]
  split
  · rfl
  · rcases spec.names.lookup (py.upper token) with _ | value
    · dsimp only
      split
      · rfl
      · rcases py.int (py.upper token) with _ | parsed
        · rfl
        · dsimp only
          split <;> rfl
    · rfl

theorem toOption_rangeOf (token : String) {base : String} (h : Free isPySpace base) :
    (SyncJobs.rangeOf py spec token base).toOption = baseEnds py.upper py.int spec base := by
  rw [SyncJobs.rangeOf, baseEnds]
  split
  · rfl
  · split
    · rcases hsplit : splitText base '-' with _ | ⟨first, _ | ⟨last, _ | ⟨other, rest⟩⟩⟩
      · rfl
      · rfl
      · have hfree : ∀ piece ∈ [first, last], Free isPySpace piece := fun piece hpiece ↦
          h.of_mem_splitText (by rw [hsplit]; exact hpiece)
        dsimp only
        rw [← toOption_pyAtom (hfree first (by simp)), ← toOption_pyAtom (hfree last (by simp))]
        rcases SyncJobs.normalizeCronAtom py spec first with message | start
        · rfl
        · rcases SyncJobs.normalizeCronAtom py spec last with message | stop
          · rfl
          · rfl
      · rfl
    · rw [← toOption_pyAtom h]
      rcases SyncJobs.normalizeCronAtom py spec base with message | start
      · rfl
      · rfl

theorem toOption_baseOf (token : String) {parts : String} (h : Free isPySpace parts) :
    (SyncJobs.baseOf py spec token parts).toOption
      = (baseAndStep py.int parts).map Prod.fst := by
  rw [SyncJobs.baseOf, baseAndStep]
  split
  · rcases hsplit : splitText parts '/' with _ | ⟨base, _ | ⟨stepText, _ | ⟨other, rest⟩⟩⟩
    · rfl
    · rfl
    · have hfree : Free isPySpace stepText := h.of_mem_splitText (by rw [hsplit]; simp)
      dsimp only
      rw [strip_of_free hfree]
      rcases py.int stepText with _ | step
      · rfl
      · dsimp only
        by_cases hstep : step ≤ 0
        · rw [if_pos hstep, if_neg (not_lt.mpr hstep)]
          rfl
        · rw [if_neg hstep, if_pos (not_le.mp hstep)]
          rfl
    · rfl
  · rfl

/-- **A token of the synchroniser.** -/
theorem isSome_expandListToken (hupper : Raises py.upper) {token : String}
    (h : Free isPySpace token) :
    (SyncJobs.expandListToken py spec token).toOption.isSome
      = tokenAccepted py.upper py.int spec (py.upper token) := by
  have hparts : Free isPySpace (py.upper token) :=
    free_upper hupper (fun c ↦ isMark_of_isPySpace) h
  rw [SyncJobs.expandListToken, tokenAccepted]
  simp only [strip_of_free h]
  generalize py.upper token = parts at hparts ⊢
  by_cases hempty : parts = ""
  · simp [hempty, Except.toOption]
  rw [if_neg hempty, decide_eq_true hempty, Bool.true_and]
  have hoption : (SyncJobs.baseOf py spec token parts).toOption
      = (baseAndStep py.int parts).map Prod.fst := toOption_baseOf token hparts
  rcases hstep : baseAndStep py.int parts with _ | ⟨base, step⟩
  · rw [hstep] at hoption
    rcases hbase : SyncJobs.baseOf py spec token parts with message | base
    · rfl
    · rw [hbase] at hoption
      cases hoption
  · rw [hstep] at hoption
    rw [Except.toOption_eq_some_iff.mp hoption, Except.ok_bind]
    have hfree : Free isPySpace base := free_baseAndStep hparts hstep
    dsimp only
    rw [baseAccepted, ← toOption_rangeOf token hfree]
    rcases SyncJobs.rangeOf py spec token base with message | ⟨start, stop⟩
    · rfl
    · rw [Except.ok_bind]
      dsimp only [Except.toOption]
      by_cases hlt : stop < start
      · rw [if_pos hlt, decide_eq_false (not_le.mpr hlt)]
        rfl
      · rw [if_neg hlt, decide_eq_true (not_lt.mp hlt)]
        rfl

theorem isSome_forM {α : Type} (check : α → Except String Unit) (l : List α) :
    (l.forM check).toOption.isSome = l.all fun a ↦ (check a).toOption.isSome := by
  induction l with
  | nil => rfl
  | cons a rest ih =>
    change (check a >>= fun _ ↦ rest.forM check).toOption.isSome = _
    rw [List.all_cons, ← ih]
    rcases check a with message | _
    · rfl
    · rfl

/-- **A field of the synchroniser.** -/
theorem isSome_pyField (hupper : Raises py.upper) {field : String} (h : Free isPySpace field) :
    (SyncJobs.expandCronToken py spec field).toOption.isSome
      = fieldAccepted py.upper py.int spec field := by
  have hfree : Free isPySpace (py.upper field) :=
    free_upper hupper (fun c ↦ isMark_of_isPySpace) h
  rw [SyncJobs.expandCronToken, fieldAccepted]
  simp only [strip_of_free h]
  by_cases hcomma : includesText (py.upper field) "," = true
  · have hne : py.upper field ≠ "" := by
      intro hempty
      rw [hempty] at hcomma
      exact absurd hcomma (by decide)
    rw [if_pos hcomma, isSome_forM, decide_eq_true hne, Bool.true_and]
    rw [Bool.eq_iff_iff, List.all_eq_true, List.all_eq_true]
    refine forall₂_congr fun token htoken ↦ ?_
    rw [isSome_expandListToken hupper (hfree.of_mem_splitText htoken)]
  · have hsplit : splitText (py.upper field) ',' = [py.upper field] := by
      have hnone : ∀ c ∈ (py.upper field).toList, decide (c = ',') = false := by
        intro c hc
        rw [decide_eq_false_iff_not]
        rintro rfl
        refine hcomma (decide_eq_true ?_)
        obtain ⟨before, after, hsplit⟩ := List.append_of_mem hc
        exact ⟨before, after, by simp [hsplit]⟩
      rw [splitText, splitChars_eq_singleton hnone, List.map_singleton, String.ofList_toList]
    rw [if_neg hcomma, hsplit, isSome_expandListToken hupper h, List.all_cons, List.all_nil,
      Bool.and_true, hupper.again, tokenAccepted, ← Bool.and_assoc, Bool.and_self]

/-- **What the synchroniser accepts.** -/
theorem isSome_validateCronExpression (hupper : Raises py.upper) (text jobKey : String) :
    (SyncJobs.validateCronExpression py text jobKey).toOption.isSome
      = accepts py.upper py.int isPySpace text := by
  have hwords : words isPySpace (strip text).toList = words isPySpace text.toList := by
    rw [strip, String.toList_ofList, words_trim]
  have hfree : ∀ word ∈ words isPySpace text.toList, Free isPySpace (String.ofList word) :=
    fun word ↦ free_of_mem_words
  rw [SyncJobs.validateCronExpression, accepts]
  by_cases hblank : strip text = ""
  · rw [hblank] at hwords
    rw [← hwords]
    simp only [if_pos hblank]
    rfl
  simp only [if_neg hblank]
  rw [SyncJobs.splitFields, hwords]
  generalize words isPySpace text.toList = fields at hfree ⊢
  rcases fields with _ | ⟨m, _ | ⟨h, _ | ⟨d, _ | ⟨mo, _ | ⟨w, _ | ⟨other, rest⟩⟩⟩⟩⟩⟩
  · rfl
  · rfl
  · rfl
  · rfl
  · rfl
  · dsimp only [List.map_cons, List.map_nil]
    rw [← isSome_pyField hupper (hfree m (by simp)), ← isSome_pyField hupper (hfree h (by simp)),
      ← isSome_pyField hupper (hfree d (by simp)), ← isSome_pyField hupper (hfree mo (by simp)),
      ← isSome_pyField hupper (hfree w (by simp))]
    change (do
      SyncJobs.expandCronToken py minuteSpec (String.ofList m)
      SyncJobs.expandCronToken py hourSpec (String.ofList h)
      SyncJobs.expandCronToken py dayOfMonthSpec (String.ofList d)
      SyncJobs.expandCronToken py monthSpec (String.ofList mo)
      SyncJobs.expandCronToken py dayOfWeekSpec (String.ofList w)
      Except.ok (strip text)).toOption.isSome = _
    rcases SyncJobs.expandCronToken py minuteSpec (String.ofList m) with message | _
    · rfl
    rcases SyncJobs.expandCronToken py hourSpec (String.ofList h) with message | _
    · rfl
    rcases SyncJobs.expandCronToken py dayOfMonthSpec (String.ofList d) with message | _
    · rfl
    rcases SyncJobs.expandCronToken py monthSpec (String.ofList mo) with message | _
    · rfl
    rcases SyncJobs.expandCronToken py dayOfWeekSpec (String.ofList w) with message | _
    · rfl
    · rfl
  · rfl

end Synchroniser

end UkAqOps.Scheduler

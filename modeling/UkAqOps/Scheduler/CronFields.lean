import UkAqOps.Scheduler.CronGrammar

/-!
# What the parser gives an expression

A field is accepted if every token of it is. Its values are then those of its tokens; and the times
that a parsed expression matches are those whose fields have the values of the five fields.
-/

namespace UkAqOps.Scheduler

section Fields

variable {host : Host} {spec : FieldSpec}

/-! ## Fields -/

/-- Every token is given values. -/
def FieldSyntax.Accepted (host : Host) (f : FieldSyntax spec) : Prop :=
  ∀ t ∈ f.tokens, t.parsed host spec ≠ none

/-- The values that the tokens are given. -/
def FieldSyntax.Reads (host : Host) (f : FieldSyntax spec) (v : ℤ) : Prop :=
  ∃ t ∈ f.tokens, ∃ values ∈ t.parsed host spec, v ∈ values

theorem upperChars_intercalate (pieces : List (List Char)) :
    upperChars (List.intercalate [','] pieces) = List.intercalate [','] (pieces.map upperChars) := by
  induction pieces with
  | nil => rfl
  | cons piece rest ih =>
    rcases rest with _ | ⟨piece', rest⟩
    · simp [List.intercalate, upperChars]
    · have hjoin : upperChars (piece ++ [','] ++ List.intercalate [','] (piece' :: rest))
          = upperChars piece ++ [','] ++ upperChars (List.intercalate [','] (piece' :: rest)) := by
        simp [upperChars]
      rw [List.intercalate_cons_cons, hjoin, ih, List.map_cons, List.map_cons, List.map_cons,
        List.intercalate_cons_cons]

theorem mem_intercalate {pieces : List (List Char)} {c : Char}
    (hc : c ∈ List.intercalate [','] pieces) : c = ',' ∨ ∃ piece ∈ pieces, c ∈ piece := by
  induction pieces with
  | nil => exact absurd hc (by simp [List.intercalate])
  | cons piece rest ih =>
    rcases rest with _ | ⟨piece', rest⟩
    · exact Or.inr ⟨piece, List.mem_cons_self, by simpa [List.intercalate] using hc⟩
    · rw [List.intercalate_cons_cons] at hc
      rcases List.mem_append.mp hc with hfirst | hrest
      · rcases List.mem_append.mp hfirst with hpiece | hcomma
        · exact Or.inr ⟨piece, List.mem_cons_self, hpiece⟩
        · exact Or.inl (List.mem_singleton.mp hcomma)
      · rcases ih hrest with hcomma | ⟨q, hq, hmem⟩
        · exact Or.inl hcomma
        · exact Or.inr ⟨q, List.mem_cons_of_mem piece hq, hmem⟩

theorem FieldSyntax.isCronChar (hspec : spec.Regular) (f : FieldSyntax spec) {c : Char}
    (hc : c ∈ f.chars) : IsCronChar c := by
  rcases mem_intercalate hc with rfl | ⟨piece, hpiece, hmem⟩
  · exact Or.inr (by simp)
  · obtain ⟨t, ht, rfl⟩ := List.mem_map.mp hpiece
    exact ((f.inGrammar t ht).isCronChar hspec hmem).1

theorem Token.InGrammar.chars_ne_nil {t : Token} (h : t.InGrammar spec) (hspec : spec.Regular) :
    t.chars ≠ [] := fun hnil ↦
  h.base.chars_ne_nil hspec (List.append_eq_nil_iff.mp hnil).1

theorem FieldSyntax.chars_ne_nil (hspec : spec.Regular) (f : FieldSyntax spec) : f.chars ≠ [] := by
  obtain ⟨t, rest, htokens⟩ := List.exists_cons_of_ne_nil f.nonempty
  have ht := (f.inGrammar t (htokens ▸ List.mem_cons_self)).chars_ne_nil hspec
  rw [FieldSyntax.chars, htokens]
  rcases rest with _ | ⟨t', rest⟩
  · simpa [List.intercalate] using ht
  · rw [List.map_cons, List.map_cons, List.intercalate_cons_cons]
    simp

/-- A star that stands for a single token. -/
theorem Token.InGrammar.eq_star {t : Token} (h : t.InGrammar spec) (hspec : spec.Regular)
    (hchars : t.chars = ['*']) : t = ⟨.star, none⟩ := by
  have hnoAtom : ∀ {a : Atom} {cs : List Char}, a.InGrammar spec → a.chars ++ cs ≠ ['*'] := by
    intro a cs ha heq
    obtain ⟨c, rest, hcons⟩ := List.exists_cons_of_ne_nil (ha.chars hspec).1
    have halphanum := (ha.chars hspec).2 c (hcons ▸ List.mem_cons_self)
    rw [hcons, List.cons_append] at heq
    rw [List.head_eq_of_cons_eq heq] at halphanum
    exact absurd halphanum (by decide)
  have hbase := h.base
  rcases t with ⟨base, step⟩
  rcases base with _ | a | ⟨a, a'⟩
  · rcases step with _ | n
    · rfl
    · cases hchars
  · exact absurd hchars (hnoAtom hbase)
  · rw [Token.chars, Base.chars, List.append_assoc] at hchars
    exact absurd hchars (hnoAtom hbase.1)

/-- The field that reads as a star is the bare star. -/
theorem FieldSyntax.bare_iff (hspec : spec.Regular) (f : FieldSyntax spec) :
    f.Bare ↔ String.ofList (upperChars f.chars) = "*" := by
  constructor
  · intro hbare
    rw [FieldSyntax.chars, show f.tokens = [⟨.star, none⟩] from hbare]
    rfl
  · intro htext
    have hstar : upperChars f.chars = ['*'] := by
      have hlist := congrArg String.toList htext
      rwa [String.toList_ofList] at hlist
    obtain ⟨c, hc, hupper⟩ := List.map_eq_singleton_iff.mp hstar
    have hcstar : c = '*' := by
      by_contra hne
      have hmem : '*' ∈ upperChars f.chars := by simp [hstar]
      refine notMem_upperChars (by simp) (fun d hd ↦ ?_) hmem
      rw [hc] at hd
      rw [List.mem_singleton.mp hd]
      exact ⟨f.isCronChar hspec (hc ▸ List.mem_singleton_self c), hne⟩
    rw [hcstar] at hc
    obtain ⟨t, rest, htokens⟩ := List.exists_cons_of_ne_nil f.nonempty
    have ht := f.inGrammar t (htokens ▸ List.mem_cons_self)
    rw [FieldSyntax.chars, htokens] at hc
    rw [FieldSyntax.Bare, htokens]
    rcases rest with _ | ⟨t', rest⟩
    · rw [ht.eq_star hspec (by simpa [List.intercalate] using hc)]
    · rw [List.map_cons, List.map_cons, List.intercalate_cons_cons] at hc
      have hlength := congrArg List.length hc
      have hpos := List.length_pos_of_ne_nil (ht.chars_ne_nil hspec)
      simp only [List.length_append, List.length_singleton] at hlength
      omega

/-- The tokens of a field, raised, between its commas. -/
theorem FieldSyntax.splitText_chars (hspec : spec.Regular) (f : FieldSyntax spec) :
    splitText (String.ofList (upperChars f.chars)) ','
      = f.tokens.map fun t ↦ String.ofList (upperChars t.chars) := by
  have hne : (f.tokens.map Token.chars).map upperChars ≠ [] := by
    simpa using f.nonempty
  rw [splitText, String.toList_ofList, FieldSyntax.chars, upperChars_intercalate,
    splitChars_intercalate (by decide) hne]
  · simp [Function.comp_def]
  · intro piece hpiece c hc
    obtain ⟨chars, hchars, rfl⟩ := List.mem_map.mp hpiece
    obtain ⟨t, ht, rfl⟩ := List.mem_map.mp hchars
    rw [decide_eq_false_iff_not]
    rintro rfl
    exact notMem_upperChars (by simp) (fun d hd ↦ (f.inGrammar t ht).isCronChar hspec hd) hc

theorem expandCronToken_eq_ok_iff (hhost : host.ReadsCron) (hspec : spec.Regular) {t : Token}
    (ht : t.InGrammar spec) {values : List ℤ} :
    expandCronToken host spec (String.ofList (upperChars t.chars)) = .ok values ↔
      t.parsed host spec = some values := by
  have hexpand := expandCronToken_chars hhost hspec ht
  rcases hparsed : t.parsed host spec with _ | values'
  · rw [hparsed] at hexpand
    obtain ⟨message, hmessage⟩ := hexpand
    rw [hmessage]
    exact iff_of_false (by simp) (by simp)
  · rw [hparsed] at hexpand
    rw [hexpand, Except.ok.injEq, Option.some.injEq]

/-- **A field**: accepted as the bare star, or with the values of its tokens, or rejected. -/
theorem parseCronField_chars (hhost : host.ReadsCron) (hspec : spec.Regular) (f : FieldSyntax spec) :
    (f.Bare → parseCronField host spec (String.ofList f.chars) = .ok .any) ∧
    (¬f.Bare → f.Accepted host → ∃ values,
      parseCronField host spec (String.ofList f.chars) = .ok (.values values) ∧
        ∀ v, v ∈ values ↔ f.Reads host v) ∧
    (¬f.Bare → ¬f.Accepted host → ∃ message,
      parseCronField host spec (String.ofList f.chars) = .error message) := by
  have hraised := raised_of_isCronChar hhost fun c ↦ f.isCronChar hspec (c := c)
  have hne : String.ofList (upperChars f.chars) ≠ "" := by
    intro hnil
    have hlist := congrArg String.toList hnil
    rw [String.toList_ofList] at hlist
    exact f.chars_ne_nil hspec (List.map_eq_nil_iff.mp hlist)
  have hparse : parseCronField host spec (String.ofList f.chars)
      = if String.ofList (upperChars f.chars) = "*" then .ok .any
        else (((f.tokens.map fun t ↦ String.ofList (upperChars t.chars)).mapM
          (expandCronToken host spec)) >>= fun expanded ↦ .ok (.values expanded.flatten)) := by
    rw [parseCronField]
    simp only [hraised.trimFirst, hraised.first, if_neg hne, f.splitText_chars hspec]
    rfl
  have hexpands : ∀ t ∈ f.tokens, ∀ values,
      expandCronToken host spec (String.ofList (upperChars t.chars)) = .ok values ↔
        t.parsed host spec = some values :=
    fun t ht values ↦ expandCronToken_eq_ok_iff hhost hspec (f.inGrammar t ht)
  have hmapM : (∃ r, (f.tokens.map fun t ↦ String.ofList (upperChars t.chars)).mapM
      (expandCronToken host spec) = .ok r) ↔ f.Accepted host := by
    rw [Except.exists_mapM_eq_ok_iff, List.forall_mem_map]
    refine forall₂_congr fun t ht ↦ ?_
    rw [Option.ne_none_iff_exists']
    exact exists_congr fun values ↦ hexpands t ht values
  rw [hparse, f.bare_iff hspec]
  refine ⟨fun h ↦ if_pos h, fun h haccepted ↦ ?_, fun h hrejected ↦ ?_⟩
  · obtain ⟨r, hr⟩ := hmapM.mpr haccepted
    rw [if_neg h, hr]
    refine ⟨r.flatten, rfl, fun v ↦ ?_⟩
    rw [List.mem_flatten]
    constructor
    · rintro ⟨values, hvalues, hv⟩
      obtain ⟨text, htext, hexpand⟩ := Except.exists_input_of_mem hr hvalues
      obtain ⟨t, ht, rfl⟩ := List.mem_map.mp htext
      exact ⟨t, ht, values, (hexpands t ht values).mp hexpand, hv⟩
    · rintro ⟨t, ht, values, hvalues, hv⟩
      obtain ⟨values', hmem, hexpand⟩ := Except.exists_output_of_mem hr (List.mem_map_of_mem ht)
      rw [(hexpands t ht values).mpr hvalues] at hexpand
      exact ⟨values', hmem, Except.ok.inj hexpand ▸ hv⟩
  · rw [if_neg h]
    rcases hr : (f.tokens.map fun t ↦ String.ofList (upperChars t.chars)).mapM
      (expandCronToken host spec) with message | r
    · rw [hr]
      exact ⟨message, rfl⟩
    · exact absurd (hmapM.mp ⟨r, hr⟩) hrejected

theorem steppedValues_eq (first last s : ℤ) : steppedValues first last s
    = (List.range ((last - first) / s + 1).toNat).map fun k : ℕ ↦ first + s * (k : ℤ) := by
  simp [steppedValues, List.map_eq_flatMap, List.flatMap_assoc]

theorem mem_steppedValues {first last s v : ℤ} (hs : 0 < s) :
    v ∈ steppedValues first last s ↔ ∃ k : ℕ, v = first + s * k ∧ v ≤ last := by
  rw [steppedValues_eq, List.mem_map]
  refine exists_congr fun k ↦ ?_
  rw [List.mem_range]
  constructor
  · rintro ⟨hk, rfl⟩
    refine ⟨rfl, ?_⟩
    have hle : (k : ℤ) ≤ (last - first) / s := by omega
    have hmul := (Int.le_ediv_iff_mul_le hs).mp hle
    rw [mul_comm] at hmul
    omega
  · rintro ⟨rfl, hlast⟩
    refine ⟨?_, rfl⟩
    have hmul : (k : ℤ) * s ≤ last - first := by
      rw [mul_comm]
      omega
    have hle := (Int.le_ediv_iff_mul_le hs).mpr hmul
    omega

/-- What a field accepts matches the values that its tokens are given. -/
theorem parseCronField_spec (hhost : host.ReadsCron) (hspec : spec.Regular) (f : FieldSyntax spec) :
    (f.Accepted host → ∃ field, parseCronField host spec (String.ofList f.chars) = .ok field ∧
      (field = .any ↔ f.Bare) ∧
      ∀ v, spec.min ≤ v → v ≤ spec.max → spec.sunday v = v →
        (fieldMatches field v = true ↔ f.Reads host v)) ∧
    (¬f.Accepted host → ∃ message,
      parseCronField host spec (String.ofList f.chars) = .error message) := by
  obtain ⟨hbare, hvalues, herror⟩ := parseCronField_chars hhost hspec f
  -- the bare star is accepted with every value between the bounds
  have hstar : f.Bare → f.Accepted host ∧
      ∀ v, spec.min ≤ v → v ≤ spec.max → spec.sunday v = v → f.Reads host v := by
    intro h
    have hparsed : (⟨.star, none⟩ : Token).parsed host spec
        = some ((steppedValues spec.min spec.max 1).map spec.sunday) :=
      if_neg (not_lt.mpr hspec.bounds.2.1)
    have htokens : f.tokens = [⟨.star, none⟩] := h
    refine ⟨fun t ht ↦ ?_, fun v hmin hmax hv ↦ ?_⟩
    · rw [htokens] at ht
      rw [List.mem_singleton.mp ht, hparsed]
      exact Option.some_ne_none _
    · refine ⟨⟨.star, none⟩, htokens ▸ List.mem_singleton_self _, _, hparsed, ?_⟩
      refine List.mem_map.mpr ⟨v, (mem_steppedValues one_pos).mpr ⟨(v - spec.min).toNat, ?_⟩, hv⟩
      omega
  constructor
  · intro haccepted
    by_cases h : f.Bare
    · refine ⟨.any, hbare h, iff_of_true rfl h, fun v hmin hmax hv ↦ ?_⟩
      exact iff_of_true rfl ((hstar h).2 v hmin hmax hv)
    · obtain ⟨values, hparse, hmem⟩ := hvalues h haccepted
      refine ⟨.values values, hparse, iff_of_false (by simp) h, fun v _ _ _ ↦ ?_⟩
      rw [fieldMatches, List.contains_iff_mem]
      exact hmem v
  · intro hrejected
    exact herror (fun h ↦ hrejected (hstar h).1) hrejected

end Fields

/-! ## Expressions -/

section Expressions

variable {host : Host} {e : CronSyntax} {text : String}

/-- Every field is accepted. -/
structure CronSyntax.Accepted (host : Host) (e : CronSyntax) : Prop where
  minute : e.minute.Accepted host
  hour : e.hour.Accepted host
  dayOfMonth : e.dayOfMonth.Accepted host
  month : e.month.Accepted host
  dayOfWeek : e.dayOfWeek.Accepted host

/-- The times whose fields have the values that the parser gives the five fields. -/
def CronSyntax.Reads (host : Host) (e : CronSyntax) (ms : ℤ) : Prop :=
  let date := civilFromDays (ms / dayMs)
  let onDay := e.dayOfMonth.Reads host date.day
  let onWeekday := e.dayOfWeek.Reads host (utcDay ms)
  e.minute.Reads host (utcMinutes ms) ∧ e.hour.Reads host (utcHours ms) ∧
    e.month.Reads host date.month ∧
    ((e.dayOfMonth.Bare ∨ e.dayOfWeek.Bare → onDay ∧ onWeekday) ∧
      (¬(e.dayOfMonth.Bare ∨ e.dayOfWeek.Bare) → onDay ∨ onWeekday))

/-- The fields of a written expression. -/
theorem CronSyntax.Written.splitWhitespace (hw : e.Written text) :
    UkAqOps.splitWhitespace (trimText text)
      = [String.ofList e.minute.chars, String.ofList e.hour.chars, String.ofList e.dayOfMonth.chars,
        String.ofList e.month.chars, String.ofList e.dayOfWeek.chars] := by
  obtain ⟨lead, gap₁, gap₂, gap₃, gap₄, trail, hlead, h₁, h₂, h₃, h₄, htrail, hne₁, hne₂, hne₃, hne₄,
    htext⟩ := hw
  have hword : ∀ {spec : FieldSpec}, spec.Regular → ∀ f : FieldSyntax spec, ∀ c ∈ f.chars,
      isJsWhitespace c = false :=
    fun hspec f c hc ↦ (f.isCronChar hspec hc).ascii.2.1
  have hwords : words isJsWhitespace text.toList = [e.minute.chars, e.hour.chars, e.dayOfMonth.chars,
      e.month.chars, e.dayOfWeek.chars] := by
    rw [htext, words_append_of_space hlead,
      words_append (e.minute.chars_ne_nil regular_minuteSpec) (hword regular_minuteSpec _) hne₁ h₁,
      words_append (e.hour.chars_ne_nil regular_hourSpec) (hword regular_hourSpec _) hne₂ h₂,
      words_append (e.dayOfMonth.chars_ne_nil regular_dayOfMonthSpec)
        (hword regular_dayOfMonthSpec _) hne₃ h₃,
      words_append (e.month.chars_ne_nil regular_monthSpec) (hword regular_monthSpec _) hne₄ h₄,
      words_last (e.dayOfWeek.chars_ne_nil regular_dayOfWeekSpec) (hword regular_dayOfWeekSpec _)
        htrail]
  rw [splitWhitespace_trimText (by rw [hwords]; exact List.cons_ne_nil _ _), hwords]
  rfl

/-- **A written expression**: accepted with the times whose fields it reads, or rejected. -/
theorem parseCronExpression_written (hhost : host.ReadsCron) (hw : e.Written text) :
    (e.Accepted host → ∃ cron, parseCronExpression host text = .ok cron ∧
      ∀ ms, cronMatchesDate cron ms = true ↔ e.Reads host ms) ∧
    (¬e.Accepted host → ∃ message, parseCronExpression host text = .error message) := by
  have hparse : parseCronExpression host text = (do
      let minute ← parseCronField host minuteSpec (String.ofList e.minute.chars)
      let hour ← parseCronField host hourSpec (String.ofList e.hour.chars)
      let dayOfMonth ← parseCronField host dayOfMonthSpec (String.ofList e.dayOfMonth.chars)
      let month ← parseCronField host monthSpec (String.ofList e.month.chars)
      let dayOfWeek ← parseCronField host dayOfWeekSpec (String.ofList e.dayOfWeek.chars)
      pure (Cron.mk minute hour dayOfMonth month dayOfWeek)) := by
    rw [parseCronExpression, hw.splitWhitespace]
    rfl
  have hminute := parseCronField_spec hhost regular_minuteSpec e.minute
  have hhour := parseCronField_spec hhost regular_hourSpec e.hour
  have hdayOfMonth := parseCronField_spec hhost regular_dayOfMonthSpec e.dayOfMonth
  have hmonth := parseCronField_spec hhost regular_monthSpec e.month
  have hdayOfWeek := parseCronField_spec hhost regular_dayOfWeekSpec e.dayOfWeek
  constructor
  · intro haccepted
    obtain ⟨minute, hminute, -, minuteReads⟩ := hminute.1 haccepted.minute
    obtain ⟨hour, hhour, -, hourReads⟩ := hhour.1 haccepted.hour
    obtain ⟨dayOfMonth, hdayOfMonth, hdomBare, domReads⟩ := hdayOfMonth.1 haccepted.dayOfMonth
    obtain ⟨month, hmonth, -, monthReads⟩ := hmonth.1 haccepted.month
    obtain ⟨dayOfWeek, hdayOfWeek, hdowBare, dowReads⟩ := hdayOfWeek.1 haccepted.dayOfWeek
    rw [hparse, hminute, hhour, hdayOfMonth, hmonth, hdayOfWeek]
    refine ⟨_, rfl, fun ms ↦ ?_⟩
    have hranges := civilFromDays_ranges (ms / dayMs)
    have hsunday : ∀ {spec : FieldSpec} {v : ℤ}, spec.fieldName ≠ "day-of-week" →
        spec.sunday v = v := fun h ↦ if_neg fun hseven ↦ h hseven.1
    have hweekday : 0 ≤ utcDay ms ∧ utcDay ms < 7 := by
      rw [utcDay]
      omega
    have hminutes : 0 ≤ utcMinutes ms ∧ utcMinutes ms < 60 := by
      rw [utcMinutes]
      omega
    have hhours : 0 ≤ utcHours ms ∧ utcHours ms < 24 := by
      rw [utcHours]
      omega
    have hm := minuteReads (utcMinutes ms) hminutes.1 (Int.le_of_lt_add_one hminutes.2)
      (hsunday (by decide))
    have hh := hourReads (utcHours ms) hhours.1 (Int.le_of_lt_add_one hhours.2)
      (hsunday (by decide))
    have hd := domReads (civilFromDays (ms / dayMs)).day hranges.2.2.1 hranges.2.2.2
      (hsunday (by decide))
    have hmo := monthReads (civilFromDays (ms / dayMs)).month hranges.1 hranges.2.1
      (hsunday (by decide))
    have hw := dowReads (utcDay ms) hweekday.1 (hweekday.2.le) (if_neg (by omega))
    rw [cronMatchesDate, CronSyntax.Reads, ← hm, ← hh, ← hd, ← hmo, ← hw, ← hdomBare, ← hdowBare]
    dsimp only
    rcases dayOfMonth with _ | doms <;> rcases dayOfWeek with _ | dows <;>
      simp [fieldMatches, and_assoc]
  · intro hrejected
    have hone : ∀ {spec : FieldSpec} {f : FieldSyntax spec}, spec.Regular → ∀ {field : CronField},
        parseCronField host spec (String.ofList f.chars) = .ok field → f.Accepted host := by
      intro spec f hspec field hfield
      by_contra hf
      obtain ⟨message, hmessage⟩ := (parseCronField_spec hhost hspec f).2 hf
      rw [hmessage] at hfield
      cases hfield
    rcases hresult : parseCronExpression host text with message | cron
    · exact ⟨message, rfl⟩
    · rw [hparse] at hresult
      obtain ⟨minute, hminute, hresult⟩ := Except.bind_eq_ok_iff.mp hresult
      obtain ⟨hour, hhour, hresult⟩ := Except.bind_eq_ok_iff.mp hresult
      obtain ⟨dayOfMonth, hdayOfMonth, hresult⟩ := Except.bind_eq_ok_iff.mp hresult
      obtain ⟨month, hmonth, hresult⟩ := Except.bind_eq_ok_iff.mp hresult
      obtain ⟨dayOfWeek, hdayOfWeek, -⟩ := Except.bind_eq_ok_iff.mp hresult
      exact absurd ⟨hone regular_minuteSpec hminute, hone regular_hourSpec hhour,
        hone regular_dayOfMonthSpec hdayOfMonth, hone regular_monthSpec hmonth,
        hone regular_dayOfWeekSpec hdayOfWeek⟩ hrejected

end Expressions

end UkAqOps.Scheduler

import UkAqOps.Lib.Sort
import UkAqOps.Scheduler.CronFields

/-!
# The due times of a cron expression

An accepted expression is due at the minutes of the window that it matches, in order; so windows that
meet join up. They are the minutes that the grammar denotes unless a weekday range that ends on seven
gets in the way.
-/

namespace UkAqOps.Scheduler

/-! ## Windows -/

section Windows

variable {host : Host} {text : String} {cron : Cron}

theorem pairwise_minutesUpTo (start stop : ℤ) : (minutesUpTo start stop).Pairwise (· < ·) := by
  rw [minutesUpTo, steppedValues_eq, List.pairwise_map]
  refine List.pairwise_lt_range.imp fun {a b} hab ↦ ?_
  simp only [minuteMs]
  omega

theorem mem_minutesUpTo {start stop v : ℤ} (hstart : minuteMs ∣ start) :
    v ∈ minutesUpTo start stop ↔ minuteMs ∣ v ∧ start ≤ v ∧ v ≤ stop := by
  rw [minutesUpTo, mem_steppedValues (by decide)]
  simp only [minuteMs] at *
  constructor
  · rintro ⟨k, rfl, hstop⟩
    omega
  · rintro ⟨hv, hle, hstop⟩
    exact ⟨((v - start) / 60000).toNat, by omega, hstop⟩

theorem minuteMs_dvd_floorMinute (ms : ℤ) : minuteMs ∣ floorMinute ms := Dvd.intro_left _ rfl

/-- Instants are told apart by their milliseconds. -/
theorem IsoTime.ms_injective : Function.Injective IsoTime.ms := fun _ _ h ↦ IsoTime.ext' h

/-- **The due times of an accepted expression**: the minutes of the window that it matches, in
order. -/
theorem cronDueTimes_of_ok (h : parseCronExpression host text = .ok cron) (start stop : IsoTime) :
    ∃ times, cronDueTimes host text start.ms stop.ms = .ok times ∧
      times.Pairwise (fun s t ↦ s.ms < t.ms) ∧
      ∀ t, t ∈ times ↔ (minuteMs ∣ t.ms ∧ floorMinute start.ms < t.ms ∧
        t.ms ≤ floorMinute stop.ms) ∧ cronMatchesDate cron t.ms = true := by
  have hfirst : minuteMs ∣ floorMinute start.ms + minuteMs :=
    Int.dvd_add (minuteMs_dvd_floorMinute _) (dvd_refl _)
  -- the minutes after the floor of the start begin a minute later
  have hafter : ∀ v, minuteMs ∣ v →
      (floorMinute start.ms < v ↔ floorMinute start.ms + minuteMs ≤ v) := by
    intro v hv
    have hfloor := minuteMs_dvd_floorMinute start.ms
    simp only [minuteMs] at *
    omega
  by_cases hempty : floorMinute stop.ms < floorMinute start.ms + minuteMs
  · refine ⟨[], ?_, List.Pairwise.nil, fun t ↦ iff_of_false List.not_mem_nil ?_⟩
    · rw [cronDueTimes, h, Except.ok_bind]
      exact if_pos hempty
    · rintro ⟨⟨hdvd, hlt, hle⟩, -⟩
      have hge := (hafter t.ms hdvd).mp hlt
      omega
  · have hmem : ∀ v, v ∈ (minutesUpTo (floorMinute start.ms + minuteMs) (floorMinute stop.ms)).filter
        (cronMatchesDate cron) ↔ (minuteMs ∣ v ∧ floorMinute start.ms < v ∧
          v ≤ floorMinute stop.ms) ∧ cronMatchesDate cron v = true := by
      intro v
      rw [List.mem_filter, mem_minutesUpTo hfirst]
      refine and_congr_left fun _ ↦ and_congr_right fun hv ↦ and_congr_left fun _ ↦ (hafter v hv).symm
    obtain ⟨times, htimes⟩ := (Except.exists_mapM_eq_ok_iff nowIso
      ((minutesUpTo (floorMinute start.ms + minuteMs) (floorMinute stop.ms)).filter
        (cronMatchesDate cron))).mpr (by
      intro v hv
      obtain ⟨⟨-, hlt, hle⟩, -⟩ := (hmem v).mp hv
      have hlower := start.lower
      have hupper := stop.upper
      refine ⟨⟨v, ?_, ?_⟩, nowIso_eq_ok_iff.mpr rfl⟩
      · simp only [floorMinute, minuteMs, maxTime] at *
        omega
      · simp only [floorMinute, minuteMs, maxTime] at *
        omega)
    have hms : times.map IsoTime.ms
        = (minutesUpTo (floorMinute start.ms + minuteMs) (floorMinute stop.ms)).filter
          (cronMatchesDate cron) := by
      have hall := (Except.mapM_eq_ok_iff _ _ _).mp htimes
      rw [← List.forall₂_eq_eq_eq, List.forall₂_map_left_iff]
      exact hall.flip.imp fun _ _ hnow ↦ nowIso_eq_ok_iff.mp hnow
    refine ⟨times, ?_, ?_, fun t ↦ ?_⟩
    · rw [cronDueTimes, h, Except.ok_bind]
      dsimp only
      rw [if_neg hempty]
      exact htimes
    · rw [← List.pairwise_map, hms]
      exact (pairwise_minutesUpTo _ _).filter _
    · rw [← hmem, ← hms, List.mem_map_of_injective IsoTime.ms_injective]

/-- Windows that meet join up. -/
theorem cronDueTimes_join (h : parseCronExpression host text = .ok cron) {a b c : IsoTime}
    (hab : a.ms ≤ b.ms) (hbc : b.ms ≤ c.ms) :
    ∃ early late, cronDueTimes host text a.ms b.ms = .ok early ∧
      cronDueTimes host text b.ms c.ms = .ok late ∧
      cronDueTimes host text a.ms c.ms = .ok (early ++ late) := by
  obtain ⟨early, hearly, hsorted, hmem⟩ := cronDueTimes_of_ok h a b
  obtain ⟨late, hlate, hsorted', hmem'⟩ := cronDueTimes_of_ok h b c
  obtain ⟨all, hall, hsortedAll, hmemAll⟩ := cronDueTimes_of_ok h a c
  have hfloors : floorMinute a.ms ≤ floorMinute b.ms ∧ floorMinute b.ms ≤ floorMinute c.ms := by
    simp only [floorMinute, minuteMs]
    omega
  refine ⟨early, late, hearly, hlate, ?_⟩
  rw [hall]
  refine congrArg Except.ok (Sorting.eq_of_mem_iff (r := fun s t : IsoTime ↦ s.ms < t.ms)
    (fun s t hst ↦ not_lt.mpr hst.le) hsortedAll ?_ fun t ↦ ?_)
  · rw [List.pairwise_append]
    refine ⟨hsorted, hsorted', fun s hs t ht ↦ ?_⟩
    exact ((hmem s).mp hs).1.2.2.trans_lt ((hmem' t).mp ht).1.2.1
  · rw [List.mem_append, hmemAll, hmem, hmem', ← or_and_right]
    refine and_congr_left fun _ ↦ ⟨?_, ?_⟩
    · rintro ⟨hdvd, hlt, hle⟩
      rcases le_or_gt t.ms (floorMinute b.ms) with hb | hb
      · exact Or.inl ⟨hdvd, hlt, hb⟩
      · exact Or.inr ⟨hdvd, hb, hle⟩
    · rintro (⟨hdvd, hlt, hle⟩ | ⟨hdvd, hlt, hle⟩)
      · exact ⟨hdvd, hlt, hle.trans hfloors.2⟩
      · exact ⟨hdvd, hfloors.1.trans_lt hlt, hle⟩

end Windows

/-! ## What a token is given -/

section Tokens

variable {host : Host} {spec : FieldSpec} {t : Token}

theorem Atom.InGrammar.bounds {a : Atom} (h : a.InGrammar spec) (hspec : spec.Regular) :
    spec.min ≤ a.value spec ∧ a.value spec ≤ spec.max := by
  rcases a with n | letters
  · exact h
  · obtain ⟨v, hv⟩ := Option.ne_none_iff_exists'.mp (show spec.names.lookup _ ≠ none from h)
    have hbounds := hspec.names _ (mem_names_of_lookup hv)
    rw [Atom.value, hv, Option.getD_some]
    exact ⟨hbounds.1, hbounds.2.1⟩

theorem Base.InGrammar.bounds {b : Base} (h : b.InGrammar spec) (hspec : spec.Regular) :
    spec.min ≤ b.first spec ∧ b.first spec ≤ b.last spec ∧ b.last spec ≤ spec.max := by
  rcases b with _ | a | ⟨a, a'⟩
  · exact ⟨le_rfl, hspec.bounds.2.1, le_rfl⟩
  · have hbounds := Atom.InGrammar.bounds (a := a) h hspec
    exact ⟨hbounds.1, le_rfl, hbounds.2⟩
  · exact ⟨(h.1.bounds hspec).1, h.2.2, (h.2.1.bounds hspec).2⟩

/-- A weekday range from another day to 7. -/
def Base.Folds (spec : FieldSpec) (b : Base) : Prop :=
  spec.fieldName = "day-of-week" ∧ ∃ a a', b = .range a a' ∧ a.value spec ≠ 7 ∧ a'.value spec = 7

/-- But for those ranges the ends are read as they are, or they are one value. -/
theorem Base.InGrammar.ends {b : Base} (h : b.InGrammar spec) (hspec : spec.Regular)
    (hfolds : ¬b.Folds spec) :
    (b.parsedFirst spec = b.first spec ∧ b.parsedLast spec = b.last spec) ∨
      (b.first spec = b.last spec ∧ b.parsedFirst spec = spec.sunday (b.first spec) ∧
        b.parsedLast spec = spec.sunday (b.first spec)) := by
  rcases b with _ | a | ⟨a, a'⟩
  · exact Or.inl ⟨rfl, rfl⟩
  · exact Or.inr ⟨rfl, rfl, rfl⟩
  · by_cases hweekday : spec.fieldName = "day-of-week"
    · by_cases hlast : a'.value spec = 7
      · have hfirst : a.value spec = 7 := by
          by_contra hne
          exact hfolds ⟨hweekday, a, a', rfl, hne, hlast⟩
        refine Or.inr ⟨hfirst.trans hlast.symm, rfl, ?_⟩
        rw [Base.parsedLast, Base.first, hfirst, hlast]
      · have hle := h.2.2
        have hmax := (h.2.1.bounds hspec).2
        rw [(hspec.weekdays hweekday).2] at hmax
        refine Or.inl ⟨if_neg fun hseven ↦ ?_, if_neg fun hseven ↦ hlast hseven.2⟩
        omega
    · exact Or.inl ⟨if_neg fun hseven ↦ hweekday hseven.1, if_neg fun hseven ↦ hweekday hseven.1⟩

/-- Steps that are beyond the field reach the first value alone. -/
theorem reaches_congr {first last s n v : ℤ} (hsmall : last - first < 2 ^ 53)
    (h : s = n ∨ 2 ^ 53 ≤ s ∧ 2 ^ 53 ≤ n) :
    (∃ k : ℕ, v = first + s * k ∧ v ≤ last) ↔ ∃ k : ℕ, v = first + n * k ∧ v ≤ last := by
  have honly : ∀ {m : ℤ}, 2 ^ 53 ≤ m →
      ((∃ k : ℕ, v = first + m * k ∧ v ≤ last) ↔ v = first ∧ v ≤ last) := by
    intro m hm
    constructor
    · rintro ⟨k, rfl, hle⟩
      rcases k with _ | k
      · exact ⟨by simp, hle⟩
      · have hmul : m ≤ m * ((k + 1 : ℕ) : ℤ) :=
          le_mul_of_one_le_right (by omega) (by exact_mod_cast Nat.succ_pos k)
        omega
    · rintro ⟨rfl, hle⟩
      exact ⟨0, by simp, hle⟩
  rcases h with rfl | ⟨hs, hn⟩
  · exact Iff.rfl
  · rw [honly hs, honly hn]

/-- The step that is read is the step, or both are beyond every field. -/
theorem Token.parsedStep_cases (hhost : host.ReadsCron) {s : ℤ} (hs : t.parsedStep host = some s) :
    s = t.stepValue ∨ 2 ^ 53 ≤ s ∧ 2 ^ 53 ≤ t.stepValue := by
  rw [Token.parsedStep] at hs
  rw [Token.stepValue]
  rcases hn : t.step with _ | n
  · rw [hn] at hs
    exact Or.inl (Option.some.inj hs).symm
  · rw [hn] at hs
    replace hs : host.integerOf n.text = some s := hs
    rw [Option.map_some, Option.getD_some]
    by_cases hsmall : n.value ≤ 2 ^ 53
    · rw [hhost.small n hsmall] at hs
      exact Or.inl (Option.some.inj hs).symm
    · exact Or.inr ⟨hhost.large n (by omega) s hs, by omega⟩

theorem Token.InGrammar.stepValue_pos (h : t.InGrammar spec) : 0 < t.stepValue := by
  rw [Token.stepValue]
  rcases hn : t.step with _ | n
  · exact one_pos
  · exact h.step n hn

theorem FieldSpec.sunday_sunday (v : ℤ) : spec.sunday (spec.sunday v) = spec.sunday v := by
  by_cases h : spec.fieldName = "day-of-week" ∧ v = 7
  · have hzero : spec.sunday v = 0 := if_pos h
    rw [hzero]
    exact if_neg (by omega)
  · have hsame : spec.sunday v = v := if_neg h
    rw [hsame, hsame]

/-- **A token is given the values it denotes**, with 7 read as 0. -/
theorem Token.InGrammar.parsed_of_not_folds (hhost : host.ReadsCron) (hspec : spec.Regular)
    (h : t.InGrammar spec) {s : ℤ} (hs : t.parsedStep host = some s) (hfolds : ¬t.base.Folds spec) :
    ∃ values, t.parsed host spec = some values ∧
      ∀ v, v ∈ values ↔ ∃ raw, t.Denotes spec raw ∧ spec.sunday raw = v := by
  have hpos := t.parsedStep_pos hhost h hs
  have hbounds := h.base.bounds hspec
  have hspecBounds := hspec.bounds
  have hdenotes : ∀ raw, t.Denotes spec raw ↔
      ∃ k : ℕ, raw = t.base.first spec + s * k ∧ raw ≤ t.base.last spec :=
    fun raw ↦ (reaches_congr (by omega) (t.parsedStep_cases hhost hs)).symm
  rw [Token.parsed, hs]
  dsimp only
  rcases h.base.ends hspec hfolds with ⟨hfirst, hlast⟩ | ⟨hsame, hfirst, hlast⟩
  · rw [hfirst, hlast, if_neg (not_lt.mpr hbounds.2.1)]
    refine ⟨_, rfl, fun v ↦ ?_⟩
    rw [List.mem_map]
    exact exists_congr fun raw ↦ and_congr_left fun _ ↦
      (mem_steppedValues hpos).trans (hdenotes raw).symm
  · rw [hfirst, hlast, if_neg (lt_irrefl _)]
    refine ⟨_, rfl, fun v ↦ ?_⟩
    have honly : ∀ first raw : ℤ, (∃ k : ℕ, raw = first + s * k ∧ raw ≤ first) ↔ raw = first := by
      intro first raw
      constructor
      · rintro ⟨k, rfl, hle⟩
        have hmul : 0 ≤ s * (k : ℤ) := mul_nonneg hpos.le (Int.natCast_nonneg k)
        omega
      · rintro rfl
        exact ⟨0, by simp, le_rfl⟩
    rw [List.mem_map]
    constructor
    · rintro ⟨raw, hraw, rfl⟩
      rw [mem_steppedValues hpos, honly] at hraw
      refine ⟨t.base.first spec, ?_, ?_⟩
      · rw [hdenotes, ← hsame, honly]
      · rw [hraw, FieldSpec.sunday_sunday]
    · rintro ⟨raw, hraw, rfl⟩
      rw [hdenotes, ← hsame, honly] at hraw
      refine ⟨spec.sunday raw, ?_, FieldSpec.sunday_sunday raw⟩
      rw [mem_steppedValues hpos, honly, hraw]

/-- A token whose step cannot be read is rejected. -/
theorem Token.parsed_of_parsedStep (hs : t.parsedStep host = none) : t.parsed host spec = none := by
  rw [Token.parsed, hs]

/-- **A weekday range to 7** is rejected, unless it starts on 0: then it is given 0 and no other
day. -/
theorem Token.InGrammar.parsed_of_folds (hhost : host.ReadsCron) (hspec : spec.Regular)
    (h : t.InGrammar spec) {s : ℤ} (hs : t.parsedStep host = some s) (hfolds : t.base.Folds spec) :
    (t.base.first spec = 0 → ∃ values, t.parsed host spec = some values ∧ ∀ v, v ∈ values ↔ v = 0) ∧
      (t.base.first spec ≠ 0 → t.parsed host spec = none) := by
  have hpos := t.parsedStep_pos hhost h hs
  obtain ⟨hweekday, a, a', hbase, hne, hlast⟩ := hfolds
  have hmin : 0 ≤ t.base.first spec := (hspec.bounds.1).trans (h.base.bounds hspec).1
  have hfirst : t.base.parsedFirst spec = t.base.first spec := by
    rw [hbase, Base.parsedFirst, Base.first]
    exact if_neg fun hseven ↦ hne hseven.2
  have hzero : t.base.parsedLast spec = 0 := by
    rw [hbase, Base.parsedLast]
    exact if_pos ⟨hweekday, hlast⟩
  rw [Token.parsed, hs]
  dsimp only
  rw [hfirst, hzero]
  constructor
  · intro hstart
    rw [hstart, if_neg (lt_irrefl _)]
    refine ⟨_, rfl, fun v ↦ ?_⟩
    have hsunday : spec.sunday 0 = 0 := if_neg (by omega)
    rw [List.mem_map]
    constructor
    · rintro ⟨raw, hraw, rfl⟩
      obtain ⟨k, rfl, hle⟩ := (mem_steppedValues hpos).mp hraw
      have hmul : 0 ≤ s * (k : ℤ) := mul_nonneg hpos.le (Int.natCast_nonneg k)
      rw [show 0 + s * (k : ℤ) = 0 by omega, hsunday]
    · rintro rfl
      exact ⟨0, (mem_steppedValues hpos).mpr ⟨0, by simp, le_rfl⟩, hsunday⟩
  · intro hstart
    exact if_pos (by omega)

end Tokens

/-! ## What a field is given -/

section Fields

variable {host : Host}

/-- `Number` reads every step of the field. -/
def FieldSyntax.StepsRead {spec : FieldSpec} (host : Host) (f : FieldSyntax spec) : Prop :=
  ∀ t ∈ f.tokens, t.parsedStep host ≠ none

/-- But for the weekdays, a field is accepted if its steps are read, and given what it denotes. -/
theorem FieldSyntax.reads_iff_denotes {spec : FieldSpec} (hhost : host.ReadsCron)
    (hspec : spec.Regular) (hname : spec.fieldName ≠ "day-of-week") (f : FieldSyntax spec) :
    (f.Accepted host ↔ f.StepsRead host) ∧
      (f.StepsRead host → ∀ v, f.Reads host v ↔ f.Denotes v) := by
  have htoken : ∀ t ∈ f.tokens, ∀ s, t.parsedStep host = some s →
      ∃ values, t.parsed host spec = some values ∧
        ∀ v, v ∈ values ↔ ∃ raw, t.Denotes spec raw ∧ spec.sunday raw = v :=
    fun t ht s hs ↦ (f.inGrammar t ht).parsed_of_not_folds hhost hspec hs fun h ↦ hname h.1
  have hsunday : ∀ v, spec.sunday v = v := fun v ↦ if_neg fun h ↦ hname h.1
  refine ⟨forall₂_congr fun t ht ↦ ?_, fun hsteps v ↦ exists_congr fun t ↦ ?_⟩
  · rcases hs : t.parsedStep host with _ | s
    · exact iff_of_false (fun h ↦ h (Token.parsed_of_parsedStep hs)) fun h ↦ h rfl
    · obtain ⟨values, hvalues, -⟩ := htoken t ht s hs
      rw [hvalues]
      exact iff_of_true (Option.some_ne_none _) (Option.some_ne_none _)
  · refine and_congr_right fun ht ↦ ?_
    obtain ⟨s, hs⟩ := Option.ne_none_iff_exists'.mp (hsteps t ht)
    obtain ⟨values, hvalues, hmem⟩ := htoken t ht s hs
    simp only [hvalues, Option.mem_some_iff, exists_eq_left', hmem, hsunday, exists_eq_right]

/-- A weekday range from `first` to 7. -/
def Token.EndsOnSeven (t : Token) (first : ℤ) : Prop :=
  ∃ a b, t.base = .range a b ∧ a.value dayOfWeekSpec = first ∧ b.value dayOfWeekSpec = 7

theorem Token.EndsOnSeven.first {t : Token} {first : ℤ} (h : t.EndsOnSeven first) :
    t.base.first dayOfWeekSpec = first := by
  obtain ⟨a, b, hbase, hfirst, -⟩ := h
  rw [hbase]
  exact hfirst

theorem Token.EndsOnSeven.folds {t : Token} {first : ℤ} (h : t.EndsOnSeven first)
    (hne : first ≠ 7) : t.base.Folds dayOfWeekSpec := by
  obtain ⟨a, b, hbase, hfirst, hlast⟩ := h
  exact ⟨rfl, a, b, hbase, by rwa [hfirst], hlast⟩

theorem Base.Folds.endsOnSeven {t : Token} (h : t.base.Folds dayOfWeekSpec) :
    t.EndsOnSeven (t.base.first dayOfWeekSpec) ∧ t.base.first dayOfWeekSpec ≠ 7 := by
  obtain ⟨-, a, b, hbase, hfirst, hlast⟩ := h
  refine ⟨⟨a, b, hbase, ?_, hlast⟩, ?_⟩
  · rw [hbase]
    rfl
  · rw [hbase]
    exact hfirst

/-- What a value of the weekdays denotes lies between 0 and 7. -/
theorem Token.Denotes.weekday_bounds {t : Token} (h : t.InGrammar dayOfWeekSpec) {v : ℤ}
    (hv : t.Denotes dayOfWeekSpec v) : 0 ≤ v ∧ v ≤ 7 := by
  have hbounds := h.base.bounds regular_dayOfWeekSpec
  obtain ⟨k, rfl, hle⟩ := hv
  have hmul : 0 ≤ t.stepValue * (k : ℤ) := mul_nonneg h.stepValue_pos.le (Int.natCast_nonneg k)
  have hmin : dayOfWeekSpec.min = 0 := rfl
  have hmax : dayOfWeekSpec.max = 7 := rfl
  omega

/-- **The weekdays** are accepted if their steps are read and no range to 7 starts on another day
than Sunday; and a range from 0 to 7 is given Sunday alone. -/
theorem FieldSyntax.weekday_reads_iff (hhost : host.ReadsCron) (f : FieldSyntax dayOfWeekSpec) :
    (f.Accepted host ↔ f.StepsRead host ∧
      ∀ t ∈ f.tokens, ∀ first, t.EndsOnSeven first → first = 0 ∨ first = 7) ∧
    (f.Accepted host → ∀ w, f.Reads host w ↔
      ∃ t ∈ f.tokens, (t.EndsOnSeven 0 ∧ w = 0) ∨ (¬t.EndsOnSeven 0 ∧ t.DenotesDay w)) := by
  have hplain : ∀ t ∈ f.tokens, ∀ s, t.parsedStep host = some s → ¬t.base.Folds dayOfWeekSpec →
      ∃ values, t.parsed host dayOfWeekSpec = some values ∧ ∀ w, w ∈ values ↔ t.DenotesDay w := by
    intro t ht s hs hfolds
    obtain ⟨values, hvalues, hmem⟩ := (f.inGrammar t ht).parsed_of_not_folds hhost
      regular_dayOfWeekSpec hs hfolds
    refine ⟨values, hvalues, fun w ↦ (hmem w).trans (exists_congr fun raw ↦ ?_)⟩
    refine and_congr_right fun hraw ↦ ?_
    have hbounds := Token.Denotes.weekday_bounds (f.inGrammar t ht) hraw
    have hsunday : dayOfWeekSpec.sunday raw = raw % 7 := by
      rw [FieldSpec.sunday]
      split
      · rename_i hseven
        rw [hseven.2]
        rfl
      · rename_i hseven
        have hne : raw ≠ 7 := fun h ↦ hseven ⟨rfl, h⟩
        omega
    rw [hsunday]
  have hfolded : ∀ t ∈ f.tokens, ∀ s, t.parsedStep host = some s → t.base.Folds dayOfWeekSpec →
      _ := fun t ht s hs hfolds ↦
    (f.inGrammar t ht).parsed_of_folds hhost regular_dayOfWeekSpec hs hfolds
  have haccepted : f.Accepted host ↔ f.StepsRead host ∧
      ∀ t ∈ f.tokens, ∀ first, t.EndsOnSeven first → first = 0 ∨ first = 7 := by
    constructor
    · intro h
      have hsteps : f.StepsRead host := fun t ht hs ↦ h t ht (Token.parsed_of_parsedStep hs)
      refine ⟨hsteps, fun t ht first hends ↦ ?_⟩
      by_contra hfirst
      obtain ⟨s, hs⟩ := Option.ne_none_iff_exists'.mp (hsteps t ht)
      have hfolds := hends.folds fun h7 ↦ hfirst (Or.inr h7)
      refine h t ht ((hfolded t ht s hs hfolds).2 ?_)
      rw [hends.first]
      exact fun h0 ↦ hfirst (Or.inl h0)
    · rintro ⟨hsteps, hranges⟩ t ht
      obtain ⟨s, hs⟩ := Option.ne_none_iff_exists'.mp (hsteps t ht)
      by_cases hfolds : t.base.Folds dayOfWeekSpec
      · obtain ⟨hends, hne⟩ := hfolds.endsOnSeven
        have hzero := (hranges t ht _ hends).resolve_right hne
        obtain ⟨values, hvalues, -⟩ := (hfolded t ht s hs hfolds).1 hzero
        rw [hvalues]
        exact Option.some_ne_none _
      · obtain ⟨values, hvalues, -⟩ := hplain t ht s hs hfolds
        rw [hvalues]
        exact Option.some_ne_none _
  refine ⟨haccepted, fun h w ↦ exists_congr fun t ↦ and_congr_right fun ht ↦ ?_⟩
  obtain ⟨hsteps, hranges⟩ := haccepted.mp h
  obtain ⟨s, hs⟩ := Option.ne_none_iff_exists'.mp (hsteps t ht)
  by_cases hfolds : t.base.Folds dayOfWeekSpec
  · obtain ⟨hends, hne⟩ := hfolds.endsOnSeven
    have hzero := (hranges t ht _ hends).resolve_right hne
    rw [hzero] at hends
    obtain ⟨values, hvalues, hmem⟩ := (hfolded t ht s hs hfolds).1 hzero
    simp only [hvalues, Option.mem_some_iff, exists_eq_left', hmem, hends, true_and, not_true,
      false_and, or_false]
  · have hends : ¬t.EndsOnSeven 0 := fun hends ↦ hfolds (hends.folds (by decide))
    obtain ⟨values, hvalues, hmem⟩ := hplain t ht s hs hfolds
    simp only [hvalues, Option.mem_some_iff, exists_eq_left', hmem, hends, false_and, not_false_eq_true,
      true_and, false_or]

end Fields

/-! ## The calendar -/

/-- The days of a month in its longest year. -/
def longestMonth (month : ℤ) : ℤ :=
  if month = 2 then 29 else if month = 4 ∨ month = 6 ∨ month = 9 ∨ month = 11 then 30 else 31

theorem day_le_longestMonth (day : ℤ) :
    (civilFromDays day).day ≤ longestMonth (civilFromDays day).month := by
  have hbounds := marchYearAndDay_bounds day
  simp only [civilFromDays, marchMonth]
  generalize (marchYearAndDay day).2 = dayOfYear at *
  have hcases : ∀ month : ℤ, 0 ≤ month → month ≤ 11 → (5 * dayOfYear + 2) / 153 = month →
      dayOfYear - (153 * month + 2) / 5 + 1
        ≤ longestMonth (if month < 10 then month + 3 else month - 9) := by
    intro month h0 h11 hmonth
    interval_cases month <;> simp only [longestMonth] <;> norm_num <;> omega
  exact hcases _ (by omega) (by omega) rfl

/-- The last year of a span of four, from March 1975 on. -/
theorem marchYearAndDay_span {span dayOfYear : ℤ} (hspan : 18 ≤ span ∧ span ≤ 24)
    (hday : 0 ≤ dayOfYear ∧ dayOfYear ≤ 365) :
    marchYearAndDay (-24413 + 1461 * span + dayOfYear) = (1903 + 4 * span, dayOfYear) := by
  have hera : (-24413 + 1461 * span + dayOfYear + 719468) / 146097 = 4 := by omega
  have hdayOfEra : (-24413 + 1461 * span + dayOfYear + 719468) % 146097
      = 110667 + 1461 * span + dayOfYear := by omega
  have hcentury : min ((110667 + 1461 * span + dayOfYear) / 36524) 3 = 3 := by omega
  have hspans : (110667 + 1461 * span + dayOfYear - 3 * 36524) / 1461 = span := by omega
  simp only [marchYearAndDay, hera, hdayOfEra, hcentury, hspans, Prod.mk.injEq]
  omega

/-- **Every date of the calendar falls on every weekday**: within the 28 years from 1975 on. -/
theorem exists_day {month dayOfMonth weekday : ℤ} (hmonth : 1 ≤ month ∧ month ≤ 12)
    (hday : 1 ≤ dayOfMonth ∧ dayOfMonth ≤ longestMonth month) (hweekday : 0 ≤ weekday ∧ weekday < 7) :
    ∃ day, 0 ≤ day ∧ day ≤ 20000 ∧ (civilFromDays day).month = month ∧
      (civilFromDays day).day = dayOfMonth ∧ (day + 4) % 7 = weekday := by
  obtain ⟨hlow, hhigh⟩ := hmonth
  -- the day of a year that begins in March, in the last year of a span of four
  generalize hyear : (153 * (if month ≤ 2 then month + 9 else month - 3) + 2) / 5 + dayOfMonth - 1
    = dayOfYear
  have hrange : 0 ≤ dayOfYear ∧ dayOfYear ≤ 365 ∧
      marchMonth dayOfYear = if month ≤ 2 then month + 9 else month - 3 := by
    rw [← hyear, marchMonth]
    interval_cases month <;> simp only [longestMonth] at hday <;> norm_num at hday ⊢ <;> omega
  -- one of seven spans puts it on the weekday
  generalize hspan : 18 + (3 * (weekday - dayOfYear + 24409) - 18) % 7 = span
  have hspanRange : 18 ≤ span ∧ span ≤ 24 := by omega
  refine ⟨-24413 + 1461 * span + dayOfYear, by omega, by omega, ?_⟩
  simp only [civilFromDays, marchYearAndDay_span hspanRange ⟨hrange.1, hrange.2.1⟩, hrange.2.2]
  refine ⟨?_, ?_, by omega⟩
  · split_ifs <;> omega
  · omega

/-! ## When the due times are those of the grammar -/

section Exact

variable {host : Host} {e : CronSyntax} {text : String}

/-- The text is accepted; over every window its due times are, in order, the minutes that the
expression denotes; and windows that meet join up. -/
structure CronSyntax.Exact (host : Host) (e : CronSyntax) (text : String) : Prop where
  accepted : ∃ cron, parseCronExpression host text = .ok cron
  times : ∀ start stop : IsoTime, ∃ times, cronDueTimes host text start.ms stop.ms = .ok times ∧
    times.Pairwise (fun s t ↦ s.ms < t.ms) ∧
    ∀ t, t ∈ times ↔ (minuteMs ∣ t.ms ∧ floorMinute start.ms < t.ms ∧
      t.ms ≤ floorMinute stop.ms) ∧ e.Denotes t.ms
  join : ∀ a b c : IsoTime, a.ms ≤ b.ms → b.ms ≤ c.ms → ∃ early late,
    cronDueTimes host text a.ms b.ms = .ok early ∧ cronDueTimes host text b.ms c.ms = .ok late ∧
      cronDueTimes host text a.ms c.ms = .ok (early ++ late)

/-- `Number` reads every step as a finite number. -/
def CronSyntax.StepsRead (host : Host) (e : CronSyntax) : Prop :=
  e.minute.StepsRead host ∧ e.hour.StepsRead host ∧ e.dayOfMonth.StepsRead host ∧
    e.month.StepsRead host ∧ e.dayOfWeek.StepsRead host

/-- The weekdays of a range from 0 to 7 are denoted by other tokens too, Sunday apart, or it does not
matter: the days of the month cover every date of the months. -/
def CronSyntax.Covered (e : CronSyntax) : Prop :=
  (∀ t ∈ e.dayOfWeek.tokens, t.EndsOnSeven 0 → ∀ w, t.DenotesDay w →
    w = 0 ∨ ∃ t' ∈ e.dayOfWeek.tokens, ¬t'.EndsOnSeven 0 ∧ t'.DenotesDay w) ∨
  (¬e.dayOfMonth.Bare ∧ ∀ month day, e.month.Denotes month → 1 ≤ day → day ≤ longestMonth month →
    e.dayOfMonth.Denotes day)

/-- The steps are read, no weekday range to 7 starts from Monday to Saturday, and those that start on
0 are covered. -/
structure CronSyntax.Regular (host : Host) (e : CronSyntax) : Prop where
  steps : e.StepsRead host
  ranges : ∀ t ∈ e.dayOfWeek.tokens, ∀ first, t.EndsOnSeven first → first = 0 ∨ first = 7
  covered : e.Covered

theorem CronSyntax.accepted_iff (hhost : host.ReadsCron) : e.Accepted host ↔ e.StepsRead host ∧
    ∀ t ∈ e.dayOfWeek.tokens, ∀ first, t.EndsOnSeven first → first = 0 ∨ first = 7 := by
  have hminute := (e.minute.reads_iff_denotes hhost regular_minuteSpec (by decide)).1
  have hhour := (e.hour.reads_iff_denotes hhost regular_hourSpec (by decide)).1
  have hdom := (e.dayOfMonth.reads_iff_denotes hhost regular_dayOfMonthSpec (by decide)).1
  have hmonth := (e.month.reads_iff_denotes hhost regular_monthSpec (by decide)).1
  have hdow := (e.dayOfWeek.weekday_reads_iff hhost).1
  constructor
  · intro h
    have hweekdays := hdow.mp h.dayOfWeek
    exact ⟨⟨hminute.mp h.minute, hhour.mp h.hour, hdom.mp h.dayOfMonth, hmonth.mp h.month,
      hweekdays.1⟩, hweekdays.2⟩
  · rintro ⟨⟨h₁, h₂, h₃, h₄, h₅⟩, hranges⟩
    exact ⟨hminute.mpr h₁, hhour.mpr h₂, hdom.mpr h₃, hmonth.mpr h₄, hdow.mpr ⟨h₅, hranges⟩⟩

/-- Every field denotes a value between its bounds. -/
theorem FieldSyntax.exists_denotes {spec : FieldSpec} (hspec : spec.Regular) (f : FieldSyntax spec) :
    ∃ v, f.Denotes v ∧ spec.min ≤ v ∧ v ≤ spec.max := by
  obtain ⟨t, rest, htokens⟩ := List.exists_cons_of_ne_nil f.nonempty
  have ht : t ∈ f.tokens := htokens ▸ List.mem_cons_self
  have hbounds := (f.inGrammar t ht).base.bounds hspec
  exact ⟨t.base.first spec, ⟨t, ht, 0, by simp, hbounds.2.1⟩, hbounds.1, hbounds.2.1.trans hbounds.2.2⟩

/-- A range from 0 to 7 denotes Sunday. -/
theorem Token.EndsOnSeven.denotesDay_zero {t : Token} (h : t.EndsOnSeven 0) : t.DenotesDay 0 := by
  obtain ⟨a, b, hbase, hfirst, hlast⟩ := h
  refine ⟨0, ⟨0, ?_, ?_⟩, rfl⟩
  · rw [hbase, Base.first, hfirst]
    simp
  · rw [hbase, Base.last, hlast]
    decide

/-- The instant of a day, an hour and a minute. -/
theorem exists_isoTime {day hour minute : ℤ} (hday : 0 ≤ day ∧ day ≤ 20000)
    (hhour : 0 ≤ hour ∧ hour ≤ 23) (hminute : 0 ≤ minute ∧ minute ≤ 59) :
    ∃ t : IsoTime, minuteMs ∣ t.ms ∧ 0 ≤ t.ms ∧ t.ms / dayMs = day ∧ utcHours t.ms = hour ∧
      utcMinutes t.ms = minute := by
  refine ⟨⟨day * dayMs + hour * hourMs + minute * minuteMs, ?_, ?_⟩, ?_⟩
  · simp only [dayMs, hourMs, minuteMs, maxTime]
    omega
  · simp only [dayMs, hourMs, minuteMs, maxTime]
    omega
  · simp only [utcHours, utcMinutes, dayMs, hourMs, minuteMs]
    omega

/-- The weekdays that are read are denoted, and the other way round where ranges from 0 to 7 are
covered by other tokens. -/
theorem CronSyntax.weekdays_iff (hhost : host.ReadsCron) (haccepted : e.Accepted host) (w : ℤ) :
    (e.dayOfWeek.Reads host w → ∃ t ∈ e.dayOfWeek.tokens, t.DenotesDay w) ∧
    ((∀ t ∈ e.dayOfWeek.tokens, t.EndsOnSeven 0 → t.DenotesDay w →
        w = 0 ∨ ∃ t' ∈ e.dayOfWeek.tokens, ¬t'.EndsOnSeven 0 ∧ t'.DenotesDay w) →
      (∃ t ∈ e.dayOfWeek.tokens, t.DenotesDay w) → e.dayOfWeek.Reads host w) := by
  rw [(e.dayOfWeek.weekday_reads_iff hhost).2 haccepted.dayOfWeek w]
  constructor
  · rintro ⟨t, ht, ⟨hends, rfl⟩ | ⟨-, hday⟩⟩
    · exact ⟨t, ht, hends.denotesDay_zero⟩
    · exact ⟨t, ht, hday⟩
  · rintro hcovered ⟨t, ht, hday⟩
    by_cases hends : t.EndsOnSeven 0
    · rcases hcovered t ht hends hday with rfl | ⟨t', ht', hends', hday'⟩
      · exact ⟨t, ht, Or.inl ⟨hends, rfl⟩⟩
      · exact ⟨t', ht', Or.inr ⟨hends', hday'⟩⟩
    · exact ⟨t, ht, Or.inr ⟨hends, hday⟩⟩

theorem FieldSyntax.Bare.not_endsOnSeven {f : FieldSyntax dayOfWeekSpec} (h : f.Bare) :
    ∀ t ∈ f.tokens, ¬t.EndsOnSeven 0 := by
  rintro t ht ⟨a, b, hbase, -, -⟩
  rw [show f.tokens = [⟨.star, none⟩] from h] at ht
  rw [List.mem_singleton.mp ht] at hbase
  cases hbase

/-- **The parser reads what the grammar denotes** where the ranges from 0 to 7 are covered. -/
theorem CronSyntax.reads_iff_denotes (hhost : host.ReadsCron) (haccepted : e.Accepted host)
    (hcovered : e.Covered) (ms : ℤ) : e.Reads host ms ↔ e.Denotes ms := by
  obtain ⟨⟨h₁, h₂, h₃, h₄, -⟩, -⟩ := (e.accepted_iff hhost).mp haccepted
  have hminute := (e.minute.reads_iff_denotes hhost regular_minuteSpec (by decide)).2 h₁
  have hhour := (e.hour.reads_iff_denotes hhost regular_hourSpec (by decide)).2 h₂
  have hdom := (e.dayOfMonth.reads_iff_denotes hhost regular_dayOfMonthSpec (by decide)).2 h₃
  have hmonth := (e.month.reads_iff_denotes hhost regular_monthSpec (by decide)).2 h₄
  obtain ⟨hsound, hcomplete⟩ := e.weekdays_iff hhost haccepted (utcDay ms)
  rw [CronSyntax.Reads, CronSyntax.Denotes]
  simp only [hminute, hhour, hdom, hmonth]
  refine and_congr_right fun _ ↦ and_congr_right fun _ ↦ and_congr_right fun hinMonth ↦ ?_
  by_cases hweekday : ∀ t ∈ e.dayOfWeek.tokens, t.EndsOnSeven 0 → t.DenotesDay (utcDay ms) →
      utcDay ms = 0 ∨ ∃ t' ∈ e.dayOfWeek.tokens, ¬t'.EndsOnSeven 0 ∧ t'.DenotesDay (utcDay ms)
  · rw [show e.dayOfWeek.Reads host (utcDay ms) ↔ _ from ⟨hsound, hcomplete hweekday⟩]
  · -- the weekday does not matter: the days of the month cover the date
    rcases hcovered with htokens | ⟨hdomBare, hdates⟩
    · exact absurd (fun t ht hends hday ↦ htokens t ht hends _ hday) hweekday
    have hdowBare : ¬e.dayOfWeek.Bare := fun hbare ↦
      hweekday fun t ht hends ↦ absurd hends (hbare.not_endsOnSeven t ht)
    have hday := hdates _ _ hinMonth (civilFromDays_ranges (ms / dayMs)).2.2.1
      (day_le_longestMonth (ms / dayMs))
    have hor : ¬(e.dayOfMonth.Bare ∨ e.dayOfWeek.Bare) := not_or.mpr ⟨hdomBare, hdowBare⟩
    exact iff_of_true ⟨fun h ↦ absurd h hor, fun _ ↦ Or.inl hday⟩
      ⟨fun h ↦ absurd h hor, fun _ ↦ Or.inl hday⟩

/-- **Where they are not covered**, a minute that the grammar denotes is not read. -/
theorem CronSyntax.exists_missed (hhost : host.ReadsCron) (haccepted : e.Accepted host)
    (hcovered : ¬e.Covered) :
    ∃ t : IsoTime, minuteMs ∣ t.ms ∧ 0 ≤ t.ms ∧ e.Denotes t.ms ∧ ¬e.Reads host t.ms := by
  rw [CronSyntax.Covered, not_or] at hcovered
  obtain ⟨htokens, hdates⟩ := hcovered
  push Not at htokens hdates
  obtain ⟨t, ht, hends, w, hw, hnonzero, hmissed⟩ := htokens
  obtain ⟨⟨-, -, h₃, -, -⟩, -⟩ := (e.accepted_iff hhost).mp haccepted
  have hdom := (e.dayOfMonth.reads_iff_denotes hhost regular_dayOfMonthSpec (by decide)).2 h₃
  have hweekdayRange : 0 ≤ w ∧ w < 7 := by
    obtain ⟨v, -, rfl⟩ := hw
    omega
  have hnotBare : ¬e.dayOfWeek.Bare := fun hbare ↦ hbare.not_endsOnSeven t ht hends
  have hnotRead : ¬e.dayOfWeek.Reads host w := by
    rw [(e.dayOfWeek.weekday_reads_iff hhost).2 haccepted.dayOfWeek w]
    rintro ⟨t', ht', ⟨-, hzero⟩ | ⟨hends', hday'⟩⟩
    · exact hnonzero hzero
    · exact hmissed t' ht' hends' hday'
  -- a date that only the weekday can bring in
  obtain ⟨month, dayOfMonth, hmonth, hmonthRange, hdayRange, honDay⟩ : ∃ month dayOfMonth,
      e.month.Denotes month ∧ (1 ≤ month ∧ month ≤ 12) ∧
      (1 ≤ dayOfMonth ∧ dayOfMonth ≤ longestMonth month) ∧
      ((e.dayOfMonth.Bare ∧ e.dayOfMonth.Denotes dayOfMonth) ∨
        (¬e.dayOfMonth.Bare ∧ ¬e.dayOfMonth.Denotes dayOfMonth)) := by
    by_cases hbare : e.dayOfMonth.Bare
    · obtain ⟨month, hmonth, hmin, hmax⟩ := e.month.exists_denotes regular_monthSpec
      refine ⟨month, 1, hmonth, ⟨hmin, hmax⟩, ⟨le_rfl, ?_⟩, Or.inl ⟨hbare, ?_⟩⟩
      · rw [longestMonth]
        split_ifs <;> decide
      · refine ⟨⟨.star, none⟩, ?_, 0, rfl, by decide⟩
        rw [show e.dayOfMonth.tokens = [⟨.star, none⟩] from hbare]
        exact List.mem_singleton_self _
    · obtain ⟨month, dayOfMonth, hmonth, hlow, hhigh, hnot⟩ := hdates hbare
      obtain ⟨t', ht', k, hvalue, hle⟩ := hmonth
      have hbounds := (e.month.inGrammar t' ht').base.bounds regular_monthSpec
      have hmul : 0 ≤ t'.stepValue * (k : ℤ) :=
        mul_nonneg (e.month.inGrammar t' ht').stepValue_pos.le (Int.natCast_nonneg k)
      have hmin : monthSpec.min = 1 := rfl
      have hmax : monthSpec.max = 12 := rfl
      exact ⟨month, dayOfMonth, ⟨t', ht', k, hvalue, hle⟩, ⟨by omega, by omega⟩, ⟨hlow, hhigh⟩,
        Or.inr ⟨hbare, hnot⟩⟩
  obtain ⟨day, hday0, hdayMax, hdayMonth, hdayDay, hdayWeekday⟩ :=
    exists_day hmonthRange hdayRange hweekdayRange
  obtain ⟨hour, hhour, hhourMin, hhourMax⟩ := e.hour.exists_denotes regular_hourSpec
  obtain ⟨minute, hminute, hminuteMin, hminuteMax⟩ := e.minute.exists_denotes regular_minuteSpec
  obtain ⟨instant, hdvd, hnonneg, hinstantDay, hinstantHour, hinstantMinute⟩ :=
    exists_isoTime ⟨hday0, hdayMax⟩ ⟨hhourMin, hhourMax⟩ ⟨hminuteMin, hminuteMax⟩
  have hutcDay : utcDay instant.ms = w := by
    rw [utcDay, hinstantDay]
    exact hdayWeekday
  refine ⟨instant, hdvd, hnonneg, ?_, ?_⟩
  · rw [CronSyntax.Denotes]
    simp only [hinstantDay, hinstantHour, hinstantMinute, hutcDay, hdayMonth, hdayDay]
    refine ⟨hminute, hhour, hmonth, fun hand ↦ ?_, fun _ ↦ Or.inr ⟨t, ht, hw⟩⟩
    rcases honDay with ⟨-, hdenotes⟩ | ⟨hbare, -⟩
    · exact ⟨hdenotes, t, ht, hw⟩
    · exact absurd hand (not_or.mpr ⟨hbare, hnotBare⟩)
  · rw [CronSyntax.Reads]
    simp only [hinstantDay, hutcDay, hdayDay, hdom]
    rintro ⟨-, -, -, hand, hor⟩
    rcases honDay with ⟨hbare, -⟩ | ⟨hbare, hnot⟩
    · exact hnotRead (hand (Or.inl hbare)).2
    · rcases hor (not_or.mpr ⟨hbare, hnotBare⟩) with hread | hread
      · exact hnot hread
      · exact hnotRead hread

/-- **The due times of a written expression.** The expression is accepted, its due times over every
window are the minutes that it denotes, and windows that meet join up, if and only if its steps are
read, no weekday range to 7 starts from Monday to Saturday, and the days of those from 0 to 7 are
covered. -/
theorem cron_exact_iff (hhost : host.ReadsCron) (hw : e.Written text) :
    e.Exact host text ↔ e.Regular host := by
  obtain ⟨hparsed, hrejected⟩ := parseCronExpression_written hhost hw
  constructor
  · intro hexact
    have haccepted : e.Accepted host := by
      by_contra hnot
      obtain ⟨cron, hcron⟩ := hexact.accepted
      obtain ⟨message, hmessage⟩ := hrejected hnot
      rw [hmessage] at hcron
      cases hcron
    obtain ⟨hsteps, hranges⟩ := (e.accepted_iff hhost).mp haccepted
    refine ⟨hsteps, hranges, ?_⟩
    by_contra hcovered
    obtain ⟨t, hdvd, hnonneg, hdenotes, hmissed⟩ := e.exists_missed hhost haccepted hcovered
    obtain ⟨cron, hcron, hmatches⟩ := hparsed haccepted
    -- the window of that minute
    have hlower : -maxTime ≤ t.ms - minuteMs := by
      simp only [maxTime, minuteMs]
      omega
    have hupper : t.ms - minuteMs ≤ maxTime := by
      have hle := t.upper
      simp only [minuteMs]
      omega
    obtain ⟨times, htimes, -, hmem⟩ := hexact.times ⟨t.ms - minuteMs, hlower, hupper⟩ t
    obtain ⟨times', htimes', -, hmem'⟩ := cronDueTimes_of_ok hcron ⟨t.ms - minuteMs, hlower, hupper⟩ t
    rw [htimes, Except.ok.injEq] at htimes'
    have hwindow : minuteMs ∣ t.ms ∧ floorMinute (t.ms - minuteMs) < t.ms ∧
        t.ms ≤ floorMinute t.ms := by
      refine ⟨hdvd, ?_⟩
      simp only [floorMinute, minuteMs] at hdvd ⊢
      omega
    have hdue := (hmem t).mpr ⟨hwindow, hdenotes⟩
    rw [htimes', hmem', hmatches] at hdue
    exact hmissed hdue.2
  · intro hregular
    have haccepted := (e.accepted_iff hhost).mpr ⟨hregular.steps, hregular.ranges⟩
    obtain ⟨cron, hcron, hmatches⟩ := hparsed haccepted
    refine ⟨⟨cron, hcron⟩, fun start stop ↦ ?_, fun a b c ↦ cronDueTimes_join hcron⟩
    obtain ⟨times, htimes, hsorted, hmem⟩ := cronDueTimes_of_ok hcron start stop
    refine ⟨times, htimes, hsorted, fun t ↦ ?_⟩
    rw [hmem, hmatches, e.reads_iff_denotes hhost haccepted hregular.covered]

end Exact

/-! ## Two expressions -/

/-- Letters are raised one by one, and text of digits is read exactly. -/
def plainHost : Host where
  toUpperCase text := String.ofList (upperChars text.toList)
  integerOf text := if text.toList ≠ [] ∧ text.toList.all Char.isDigit then some (decimalOf text.toList)
    else none
  parseJson text := .ok (.str text)
  parseUrl _ := none

theorem readsCron_plainHost : plainHost.ReadsCron := by
  have hread : ∀ n : Numeral, plainHost.integerOf n.text = some n.value := by
    intro n
    have hdigits : n.text.toList = n.digits := String.toList_ofList
    have hdecimal : n.text.toList ≠ [] ∧ n.text.toList.all Char.isDigit = true := by
      rw [hdigits]
      exact ⟨n.nonempty, List.all_eq_true.mpr n.decimal⟩
    refine (if_pos hdecimal).trans ?_
    rw [hdigits, Numeral.value]
  refine ⟨fun cs _ ↦ ?_, fun n _ ↦ hread n, fun n hn m hm ↦ ?_⟩
  · change String.ofList (upperChars (String.ofList cs).toList) = _
    rw [String.toList_ofList]
  · rw [hread n, Option.mem_some_iff] at hm
    rw [← hm]
    exact hn.le

def digit (c : Char) (h : c.isDigit = true) : Numeral :=
  ⟨[c], List.cons_ne_nil _ _, fun d hd ↦ by rwa [List.mem_singleton.mp hd]⟩

/-- Midnight on the weekdays of a token. -/
def atMidnight (weekdays : Token) (h : weekdays.InGrammar dayOfWeekSpec) : CronSyntax where
  minute := ⟨[⟨.single (.number (digit '0' rfl)), none⟩], List.cons_ne_nil _ _, fun t ht ↦ by
    rw [List.mem_singleton.mp ht]
    exact ⟨⟨by decide, by decide⟩, by simp⟩⟩
  hour := ⟨[⟨.single (.number (digit '0' rfl)), none⟩], List.cons_ne_nil _ _, fun t ht ↦ by
    rw [List.mem_singleton.mp ht]
    exact ⟨⟨by decide, by decide⟩, by simp⟩⟩
  dayOfMonth := ⟨[⟨.star, none⟩], List.cons_ne_nil _ _, fun t ht ↦ by
    rw [List.mem_singleton.mp ht]
    exact ⟨trivial, by simp⟩⟩
  month := ⟨[⟨.star, none⟩], List.cons_ne_nil _ _, fun t ht ↦ by
    rw [List.mem_singleton.mp ht]
    exact ⟨trivial, by simp⟩⟩
  dayOfWeek := ⟨[weekdays], List.cons_ne_nil _ _, fun t ht ↦ by rwa [List.mem_singleton.mp ht]⟩

/-- The weekdays from `first` to `last`. -/
def weekdayRange (first last : Numeral) : Token := ⟨.range (.number first) (.number last), none⟩

theorem inGrammar_weekdayRange {first last : Numeral} (h : 0 ≤ first.value)
    (hle : first.value ≤ last.value) (h7 : last.value ≤ 7) :
    (weekdayRange first last).InGrammar dayOfWeekSpec :=
  ⟨⟨⟨h, hle.trans h7⟩, ⟨h.trans hle, h7⟩, hle⟩, by simp [weekdayRange]⟩

def mondayToFriday : CronSyntax :=
  atMidnight (weekdayRange (digit '1' rfl) (digit '5' rfl))
    (inGrammar_weekdayRange (by decide) (by decide) (by decide))

def fridayToSunday : CronSyntax :=
  atMidnight (weekdayRange (digit '5' rfl) (digit '7' rfl))
    (inGrammar_weekdayRange (by decide) (by decide) (by decide))

theorem isSpace_blank : IsSpace [' '] := by
  intro c hc
  rw [List.mem_singleton.mp hc]
  rfl

/-- Midnight from Monday to Friday. -/
theorem cron_exact_mondayToFriday : mondayToFriday.Exact plainHost "0 0 * * 1-5" := by
  have hwritten : mondayToFriday.Written "0 0 * * 1-5" :=
    ⟨[], [' '], [' '], [' '], [' '], [], by simp [IsSpace], isSpace_blank, isSpace_blank,
      isSpace_blank, isSpace_blank, by simp [IsSpace], by simp, by simp, by simp, by simp, by decide⟩
  have hends : ∀ t ∈ mondayToFriday.dayOfWeek.tokens, ∀ first, ¬t.EndsOnSeven first := by
    rintro t ht first ⟨a, b, hbase, -, hlast⟩
    rw [List.mem_singleton.mp ht] at hbase
    obtain ⟨rfl, rfl⟩ := Base.range.inj hbase
    exact absurd hlast (by decide)
  refine (cron_exact_iff readsCron_plainHost hwritten).mpr ⟨?_, ?_, ?_⟩
  · refine ⟨?_, ?_, ?_, ?_, ?_⟩ <;> intro t ht <;> rw [List.mem_singleton.mp ht] <;>
      exact Option.some_ne_none _
  · exact fun t ht first h ↦ absurd h (hends t ht first)
  · exact Or.inl fun t ht h ↦ absurd h (hends t ht 0)

/-- Midnight from Friday to Sunday is rejected: the 7 is read as 0 before the range is checked. -/
theorem not_cron_exact_fridayToSunday : fridayToSunday.Written "0 0 * * 5-7" ∧
    ¬fridayToSunday.Exact plainHost "0 0 * * 5-7" := by
  refine ⟨⟨[], [' '], [' '], [' '], [' '], [], by simp [IsSpace], isSpace_blank, isSpace_blank,
    isSpace_blank, isSpace_blank, by simp [IsSpace], by simp, by simp, by simp, by simp, by decide⟩, ?_⟩
  intro h
  obtain ⟨cron, hcron⟩ := h.accepted
  have herror : (parseCronExpression plainHost "0 0 * * 5-7").toOption.isSome = false := by
    decide +kernel
  rw [hcron] at herror
  cases herror

end UkAqOps.Scheduler

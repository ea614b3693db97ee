import Mathlib.Data.List.Sort
import Mathlib.Order.Lattice

/-!
# Half-open periods on a line of instants

A list of periods is a partial function of time: the value at an instant is the one of the first
period that covers it. A list of changes, each an instant with the value that holds from then on, is
a step function. `periodsOf` turns changes into periods that touch, the last one open, and the two
readings agree. Two periods that touch and have one value may be merged, and what is left when no
two of them can be is the only such list of its partial function.
-/

namespace Periods

variable {τ α : Type*} [LinearOrder τ]

/-! ## Periods -/

/-- From `start` on and before `stop`; a missing bound is open. -/
structure Period (τ α : Type*) where
  start : Option τ
  stop : Option τ
  value : α

namespace Period

/-- The period covers the instant. -/
def covers (p : Period τ α) (t : τ) : Bool :=
  (p.start.all fun a ↦ decide (a ≤ t)) && p.stop.all fun b ↦ decide (t < b)

/-- The period is neither empty nor reversed. -/
def isProper (p : Period τ α) : Bool :=
  match p.start, p.stop with
  | some a, some b => decide (a < b)
  | _, _ => true

end Period

/-- The value of the first period that covers the instant. -/
def valueAt (ps : List (Period τ α)) (t : τ) : Option α :=
  (ps.find? fun p ↦ p.covers t).map Period.value

theorem valueAt_append (ps qs : List (Period τ α)) (t : τ) :
    valueAt (ps ++ qs) t = (valueAt ps t).or (valueAt qs t) := by
  rw [valueAt, valueAt, valueAt, List.find?_append, Option.map_or]

theorem valueAt_cons (p : Period τ α) (ps : List (Period τ α)) (t : τ) :
    valueAt (p :: ps) t = if p.covers t then some p.value else valueAt ps t := by
  rw [valueAt, List.find?_cons]
  rcases p.covers t <;> rfl

/-- An instant lies in one of two periods that touch exactly if it lies in what they merge to. -/
theorem covers_merge {p q : Period τ α} {b : τ} (hp : p.stop = some b) (hq : q.start = some b)
    (hproper : p.isProper = true) (hproper' : q.isProper = true) (t : τ) :
    (p.covers t || q.covers t) = (⟨p.start, q.stop, p.value⟩ : Period τ α).covers t := by
  obtain ⟨start, _, _⟩ := p
  obtain ⟨_, stop, _⟩ := q
  subst hp hq
  have hstart : ∀ a ∈ start, a < b := by
    rintro a rfl
    exact of_decide_eq_true hproper
  have hstop : ∀ c ∈ stop, b < c := by
    rintro c rfl
    exact of_decide_eq_true hproper'
  rw [Bool.eq_iff_iff]
  simp only [Period.covers, Bool.or_eq_true, Bool.and_eq_true, Option.all_eq_true,
    decide_eq_true_eq, Option.mem_def] at hstart hstop ⊢
  constructor
  · rintro (⟨hfrom, hto⟩ | ⟨hfrom, hto⟩)
    · exact ⟨hfrom, fun c hc ↦ (hto b rfl).trans (hstop c hc)⟩
    · exact ⟨fun a ha ↦ (hstart a ha).le.trans (hfrom b rfl), hto⟩
  · rintro ⟨hfrom, hto⟩
    rcases lt_or_ge t b with hlt | hge
    · exact Or.inl ⟨hfrom, fun c hc ↦ by rwa [← Option.some.inj hc]⟩
    · exact Or.inr ⟨fun c hc ↦ by rwa [← Option.some.inj hc], hto⟩

/-- Merging two periods that touch and have one value changes no value. -/
theorem valueAt_merge {p q : Period τ α} {b : τ} (hp : p.stop = some b) (hq : q.start = some b)
    (hproper : p.isProper = true) (hproper' : q.isProper = true) (hvalue : q.value = p.value)
    (t : τ) : valueAt [⟨p.start, q.stop, p.value⟩] t = valueAt [p, q] t := by
  simp only [valueAt_cons, ← covers_merge hp hq hproper hproper' t, Bool.or_eq_true]
  by_cases hpt : p.covers t = true
  · rw [if_pos (Or.inl hpt), if_pos hpt]
  · rw [if_neg hpt]
    by_cases hqt : q.covers t = true
    · rw [if_pos (Or.inr hqt), if_pos hqt, hvalue]
    · rw [if_neg (not_or.mpr ⟨hpt, hqt⟩), if_neg hqt]

theorem isProper_merge {p q : Period τ α} {b : τ} (hp : p.stop = some b) (hq : q.start = some b)
    (hproper : p.isProper = true) (hproper' : q.isProper = true) :
    (⟨p.start, q.stop, p.value⟩ : Period τ α).isProper = true := by
  obtain ⟨start, _, _⟩ := p
  obtain ⟨_, stop, _⟩ := q
  subst hp hq
  rcases start with _ | a
  · rfl
  · rcases stop with _ | c
    · rfl
    · exact decide_eq_true ((of_decide_eq_true hproper).trans (of_decide_eq_true hproper'))

/-! ## Normal form -/

namespace Period

/-- The second period comes after the first one, and has another value if it touches it. -/
def Precedes (p q : Period τ α) : Prop :=
  ∃ b a, p.stop = some b ∧ q.start = some a ∧ b ≤ a ∧ (a = b → p.value ≠ q.value)

theorem covers_start {p : Period τ α} (hproper : p.isProper = true) {a : τ}
    (ha : p.start = some a) : p.covers a = true := by
  rw [covers, ha, Option.all_some, decide_eq_true le_rfl, Bool.true_and, Option.all_eq_true]
  intro b hb
  rw [isProper, ha, Option.mem_def.mp hb] at hproper
  exact hproper

theorem not_covers_of_lt {p : Period τ α} {a t : τ} (ha : p.start = some a) (h : t < a) :
    p.covers t = false := by
  rw [covers, ha, Option.all_some, decide_eq_false (not_le.mpr h), Bool.false_and]

/-- A period between two others keeps them apart. -/
theorem Precedes.trans {p q r : Period τ α} (hpq : p.Precedes q) (hproper : q.isProper = true)
    (hqr : q.Precedes r) : p.Precedes r := by
  obtain ⟨b, a, hb, ha, hle, -⟩ := hpq
  obtain ⟨b', a', hb', ha', hle', -⟩ := hqr
  rw [isProper, ha, hb'] at hproper
  have hlt : b < a' := (hle.trans_lt (of_decide_eq_true hproper)).trans_le hle'
  exact ⟨b, a', hb, ha', hlt.le, fun heq ↦ absurd heq hlt.ne'⟩

end Period

/-- Proper periods in order, of which no two that touch have one value. -/
structure Normal (ps : List (Period τ α)) : Prop where
  proper : ∀ p ∈ ps, p.isProper = true
  ordered : ps.Pairwise Period.Precedes

theorem normal_nil : Normal ([] : List (Period τ α)) := ⟨by simp, List.Pairwise.nil⟩

theorem Normal.tail {p : Period τ α} {ps : List (Period τ α)} (h : Normal (p :: ps)) : Normal ps :=
  ⟨fun q hq ↦ h.proper q (List.mem_cons_of_mem p hq), (List.pairwise_cons.mp h.ordered).2⟩

theorem Normal.head_precedes {p q : Period τ α} {ps : List (Period τ α)} (h : Normal (p :: ps))
    (hq : q ∈ ps) : p.Precedes q := (List.pairwise_cons.mp h.ordered).1 q hq

/-- It is enough to look at the last period. -/
theorem Normal.concat {ps : List (Period τ α)} {p : Period τ α} (h : Normal ps)
    (hproper : p.isProper = true) (hlast : ∀ last ∈ ps.getLast?, last.Precedes p) :
    Normal (ps ++ [p]) := by
  refine ⟨List.forall_mem_append.mpr ⟨h.proper, List.forall_mem_singleton.mpr hproper⟩, ?_⟩
  refine List.pairwise_append.mpr ⟨h.ordered, List.pairwise_singleton _ _, ?_⟩
  rintro q hq r hr
  rw [List.mem_singleton.mp hr]
  rcases hps : ps.getLast? with _ | last
  · rw [List.getLast?_eq_none_iff.mp hps] at hq
    exact absurd hq List.not_mem_nil
  · obtain ⟨front, rfl⟩ := List.getLast?_eq_some_iff.mp hps
    rcases List.mem_append.mp hq with hfront | hend
    · have hbefore := (List.pairwise_append.mp h.ordered).2.2 q hfront last (List.mem_singleton_self _)
      exact hbefore.trans (h.proper last (List.mem_append_right _ (List.mem_singleton_self _)))
        (hlast last hps)
    · rw [List.mem_singleton.mp hend]
      exact hlast last hps

/-- The last period may be made longer. -/
theorem Normal.extend {ps : List (Period τ α)} {p : Period τ α} {stop : Option τ}
    (h : Normal (ps ++ [p])) (hproper : (⟨p.start, stop, p.value⟩ : Period τ α).isProper = true) :
    Normal (ps ++ [⟨p.start, stop, p.value⟩]) := by
  obtain ⟨hfront, -, hlast⟩ := List.pairwise_append.mp h.ordered
  refine ⟨List.forall_mem_append.mpr ⟨fun q hq ↦ h.proper q (List.mem_append_left _ hq),
    List.forall_mem_singleton.mpr hproper⟩,
    List.pairwise_append.mpr ⟨hfront, List.pairwise_singleton _ _, fun q hq r hr ↦ ?_⟩⟩
  rw [List.mem_singleton.mp hr]
  exact hlast q hq p (List.mem_singleton_self _)

/-! ### Uniqueness -/

theorem exists_of_valueAt {ps : List (Period τ α)} {t : τ} {v : α} (h : valueAt ps t = some v) :
    ∃ p ∈ ps, p.covers t = true ∧ p.value = v := by
  obtain ⟨p, hfind, hv⟩ := Option.map_eq_some_iff.mp h
  exact ⟨p, List.mem_of_find?_eq_some hfind,
    List.find?_some (p := fun p : Period τ α ↦ p.covers t) hfind, hv⟩

theorem valueAt_eq_none {ps : List (Period τ α)} {t : τ} (h : ∀ p ∈ ps, p.covers t = false) :
    valueAt ps t = none := by
  rw [valueAt, List.find?_eq_none.mpr fun p hp hcovers ↦ by rw [h p hp] at hcovers; cases hcovers]
  rfl

/-- Before the first period nothing holds. -/
theorem Normal.valueAt_of_lt {p : Period τ α} {ps : List (Period τ α)} (h : Normal (p :: ps))
    {a t : τ} (ha : p.start = some a) (ht : t < a) : valueAt (p :: ps) t = none := by
  refine valueAt_eq_none (List.forall_mem_cons.mpr ⟨Period.not_covers_of_lt ha ht, fun q hq ↦ ?_⟩)
  obtain ⟨b, c, hb, hc, hle, -⟩ := h.head_precedes hq
  have hproper := h.proper p List.mem_cons_self
  rw [Period.isProper, ha, hb] at hproper
  exact Period.not_covers_of_lt hc ((ht.trans (of_decide_eq_true hproper)).trans_le hle)

/-- Where the first period holds no later one does. -/
theorem Normal.valueAt_tail {p : Period τ α} {ps : List (Period τ α)} (h : Normal (p :: ps)) {t : τ}
    (ht : p.covers t = true) : valueAt ps t = none := by
  refine valueAt_eq_none fun q hq ↦ ?_
  obtain ⟨b, c, hb, hc, hle, -⟩ := h.head_precedes hq
  rw [Period.covers, Bool.and_eq_true, hb, Option.all_some] at ht
  exact Period.not_covers_of_lt hc ((of_decide_eq_true ht.2).trans_le hle)

/-- In normal form one period at most covers an instant. -/
theorem Normal.valueAt_of_covers {ps : List (Period τ α)} (h : Normal ps) {p : Period τ α}
    (hp : p ∈ ps) {t : τ} (ht : p.covers t = true) : valueAt ps t = some p.value := by
  induction ps with
  | nil => exact absurd hp List.not_mem_nil
  | cons q qs ih =>
    rcases List.mem_cons.mp hp with rfl | hp
    · rw [valueAt_cons, if_pos ht]
    · have hlater := ih h.tail hp
      by_cases hq : q.covers t = true
      · rw [h.valueAt_tail hq] at hlater
        cases hlater
      · rw [valueAt_cons, if_neg hq, hlater]

/-- A period that covers the second of two instants and not the first starts between them. -/
theorem Period.exists_start {p : Period τ α} {t u : τ} (htu : t ≤ u) (ht : p.covers t = false)
    (hu : p.covers u = true) : ∃ a, p.start = some a ∧ t < a ∧ a ≤ u := by
  rw [Period.covers, Bool.and_eq_true, Option.all_eq_true, Option.all_eq_true] at hu
  obtain ⟨hstart, hstop⟩ := hu
  have hbefore : (p.stop.all fun b ↦ decide (t < b)) = true := by
    rw [Option.all_eq_true]
    exact fun b hb ↦ decide_eq_true (htu.trans_lt (of_decide_eq_true (hstop b hb)))
  rw [Period.covers, hbefore, Bool.and_true] at ht
  rcases hp : p.start with _ | a
  · rw [hp, Option.all_none] at ht
    cases ht
  · rw [hp, Option.all_some, decide_eq_false_iff_not, not_le] at ht
    exact ⟨a, rfl, ht, of_decide_eq_true (hstart a hp)⟩

/-- The instants at which the periods start or stop. -/
def IsBound (ps : List (Period τ α)) (b : τ) : Prop :=
  ∃ p ∈ ps, p.start = some b ∨ p.stop = some b

omit [LinearOrder τ] in
theorem IsBound.cons {p : Period τ α} {ps : List (Period τ α)} {b : τ} (h : IsBound ps b) :
    IsBound (p :: ps) b := by
  obtain ⟨q, hq, hb⟩ := h
  exact ⟨q, List.mem_cons_of_mem p hq, hb⟩

/-- A set of instants on which periods are told apart: it has their bounds, and something before
each of them. -/
structure Separates (D : τ → Prop) (ps : List (Period τ α)) : Prop where
  bound : ∀ b, IsBound ps b → D b
  below : ∀ b, IsBound ps b → ∃ t, D t ∧ t < b

theorem Separates.tail {D : τ → Prop} {p : Period τ α} {ps : List (Period τ α)}
    (h : Separates D (p :: ps)) : Separates D ps :=
  ⟨fun b hb ↦ h.bound b hb.cons, fun b hb ↦ h.below b hb.cons⟩

section Uniqueness

variable {D : τ → Prop} {p q : Period τ α} {ps qs : List (Period τ α)}

/-- Before any bound and before the end of a period that has an open start there is an instant. -/
theorem Separates.exists_below (hps : Separates D (p :: ps)) {c : τ} (hc : ∃ t, D t ∧ t < c) :
    ∃ t, D t ∧ t < c ∧ ∀ b ∈ p.stop, t < b := by
  obtain ⟨t, ht, htc⟩ := hc
  rcases hstop : p.stop with _ | b
  · exact ⟨t, ht, htc, fun b hb ↦ by cases hb⟩
  · obtain ⟨u, hu, hub⟩ := hps.below b ⟨p, List.mem_cons_self, Or.inr hstop⟩
    rcases le_total t u with hle | hle
    · exact ⟨t, ht, htc, fun b' hb' ↦ Option.some.inj hb' ▸ hle.trans_lt hub⟩
    · exact ⟨u, hu, hle.trans_lt htc, fun b' hb' ↦ Option.some.inj hb' ▸ hub⟩

/-- The first list does not start earlier than the second one. -/
theorem exists_start_of_valueAt_eq (hps : Normal (p :: ps)) (hqs : Normal (q :: qs))
    (hsp : Separates D (p :: ps)) (hsq : Separates D (q :: qs))
    (hvalue : ∀ t, D t → valueAt (p :: ps) t = valueAt (q :: qs) t) {c : τ}
    (hc : q.start = some c) : ∃ a, p.start = some a ∧ c ≤ a := by
  rcases hstart : p.start with _ | a
  · obtain ⟨t, ht, htc, hstop⟩ :=
      hsp.exists_below (hsq.below c ⟨q, List.mem_cons_self, Or.inl hc⟩)
    have hcovers : p.covers t = true := by
      rw [Period.covers, hstart, Option.all_none, Bool.true_and, Option.all_eq_true]
      exact fun b hb ↦ decide_eq_true (hstop b hb)
    have h := hvalue t ht
    rw [hqs.valueAt_of_lt hc htc, valueAt_cons, if_pos hcovers] at h
    cases h
  · refine ⟨a, rfl, not_lt.mp fun hlt ↦ ?_⟩
    have h := hvalue a (hsp.bound a ⟨p, List.mem_cons_self, Or.inl hstart⟩)
    rw [hqs.valueAt_of_lt hc hlt, valueAt_cons,
      if_pos (Period.covers_start (hps.proper p List.mem_cons_self) hstart)] at h
    cases h

/-- Two periods that start together share an instant. -/
theorem exists_common (hD : ∃ t, D t) (hps : Normal (p :: ps)) (hqs : Normal (q :: qs))
    (hsp : Separates D (p :: ps)) (hsq : Separates D (q :: qs)) (hstart : p.start = q.start) :
    ∃ t, D t ∧ p.covers t = true ∧ q.covers t = true := by
  rcases ha : p.start with _ | a
  · have hcovers : ∀ {r : Period τ α} {t : τ}, r.start = none → (∀ b ∈ r.stop, t < b) →
        r.covers t = true := by
      intro r t hr hstop
      rw [Period.covers, hr, Option.all_none, Bool.true_and, Option.all_eq_true]
      exact fun b hb ↦ decide_eq_true (hstop b hb)
    have hq : q.start = none := hstart ▸ ha
    rcases hstop : q.stop with _ | c
    · obtain ⟨t, ht, hpt⟩ : ∃ t, D t ∧ ∀ b ∈ p.stop, t < b := by
        rcases hb : p.stop with _ | b
        · obtain ⟨t, ht⟩ := hD
          exact ⟨t, ht, fun b hb ↦ by cases hb⟩
        · obtain ⟨t, ht, htb⟩ := hsp.below b ⟨p, List.mem_cons_self, Or.inr hb⟩
          exact ⟨t, ht, fun b' hb' ↦ Option.some.inj hb' ▸ htb⟩
      exact ⟨t, ht, hcovers ha hpt, hcovers hq (by rw [hstop]; exact fun b hb ↦ by cases hb)⟩
    · obtain ⟨t, ht, htc, hpt⟩ :=
        hsp.exists_below (hsq.below c ⟨q, List.mem_cons_self, Or.inr hstop⟩)
      exact ⟨t, ht, hcovers ha hpt,
        hcovers hq (by rw [hstop]; exact fun b hb ↦ Option.some.inj hb ▸ htc)⟩
  · exact ⟨a, hsp.bound a ⟨p, List.mem_cons_self, Or.inl ha⟩,
      Period.covers_start (hps.proper p List.mem_cons_self) ha,
      Period.covers_start (hqs.proper q List.mem_cons_self) (hstart ▸ ha)⟩

/-- Of two periods that start together with one value the second does not end later. -/
theorem exists_stop_of_valueAt_eq (hps : Normal (p :: ps)) (hsp : Separates D (p :: ps))
    (hvalue : ∀ t, D t → valueAt (p :: ps) t = valueAt (q :: qs) t) (hstart : p.start = q.start)
    (hsame : p.value = q.value) {b : τ} (hb : p.stop = some b) : ∃ c, q.stop = some c ∧ c ≤ b := by
  by_contra hlate
  push Not at hlate
  have hproper := hps.proper p List.mem_cons_self
  have hcovers : q.covers b = true := by
    rw [Period.covers, Bool.and_eq_true, Option.all_eq_true, Option.all_eq_true]
    refine ⟨fun a ha ↦ ?_, fun c hc ↦ decide_eq_true (hlate c hc)⟩
    rw [Period.isProper, hstart, Option.mem_def.mp ha, hb] at hproper
    exact decide_eq_true (of_decide_eq_true hproper).le
  have hnot : ¬p.covers b = true := by
    rw [Period.covers, hb, Option.all_some, decide_eq_false (lt_irrefl b), Bool.and_false]
    exact Bool.false_ne_true
  have h := hvalue b (hsp.bound b ⟨p, List.mem_cons_self, Or.inr hb⟩)
  rw [valueAt_cons, valueAt_cons, if_neg hnot, if_pos hcovers] at h
  obtain ⟨r, hr, hrcovers, hrvalue⟩ := exists_of_valueAt h
  obtain ⟨b', a, hb', ha, hle, hother⟩ := hps.head_precedes hr
  obtain rfl : b = b' := Option.some.inj (hb.symm.trans hb')
  rw [Period.covers, ha, Option.all_some, Bool.and_eq_true] at hrcovers
  exact hother (le_antisymm (of_decide_eq_true hrcovers.1) hle) (hsame.trans hrvalue.symm)

/-- **Periods in normal form are determined by their values.** -/
theorem Normal.eq_of_valueAt_eq (hD : ∃ t, D t) (hps : Normal ps) (hqs : Normal qs)
    (hsp : Separates D ps) (hsq : Separates D qs)
    (hvalue : ∀ t, D t → valueAt ps t = valueAt qs t) : ps = qs := by
  have hempty : ∀ {r : Period τ α} {rs : List (Period τ α)}, Normal (r :: rs) →
      Separates D (r :: rs) → ∃ t, D t ∧ valueAt (r :: rs) t ≠ none := by
    intro r rs hr hsr
    obtain ⟨t, ht, hcovers, -⟩ := exists_common hD hr hr hsr hsr rfl
    exact ⟨t, ht, by rw [valueAt_cons, if_pos hcovers]; exact Option.some_ne_none _⟩
  induction ps generalizing qs with
  | nil =>
    rcases qs with _ | ⟨q, qs⟩
    · rfl
    · obtain ⟨t, ht, hne⟩ := hempty hqs hsq
      exact absurd (hvalue t ht).symm hne
  | cons p ps ih =>
    rcases qs with _ | ⟨q, qs⟩
    · obtain ⟨t, ht, hne⟩ := hempty hps hsp
      exact absurd (hvalue t ht) hne
    · have hvalue' : ∀ t, D t → valueAt (q :: qs) t = valueAt (p :: ps) t :=
        fun t ht ↦ (hvalue t ht).symm
      have hstart : p.start = q.start := by
        rcases hp : p.start with _ | a
        · rcases hq : q.start with _ | c
          · rfl
          · obtain ⟨a, ha, -⟩ := exists_start_of_valueAt_eq hps hqs hsp hsq hvalue hq
            rw [hp] at ha
            cases ha
        · obtain ⟨c, hc, hle⟩ := exists_start_of_valueAt_eq hqs hps hsq hsp hvalue' hp
          obtain ⟨a', ha', hle'⟩ := exists_start_of_valueAt_eq hps hqs hsp hsq hvalue hc
          obtain rfl : a = a' := Option.some.inj (hp.symm.trans ha')
          rw [hc, le_antisymm hle hle']
      obtain ⟨t, ht, hpt, hqt⟩ := exists_common hD hps hqs hsp hsq hstart
      have hsame : p.value = q.value := by
        have h := hvalue t ht
        rw [valueAt_cons, valueAt_cons, if_pos hpt, if_pos hqt] at h
        exact Option.some.inj h
      have hstop : p.stop = q.stop := by
        rcases hp : p.stop with _ | b
        · rcases hq : q.stop with _ | c
          · rfl
          · obtain ⟨b, hb, -⟩ :=
              exists_stop_of_valueAt_eq hqs hsq hvalue' hstart.symm hsame.symm hq
            rw [hp] at hb
            cases hb
        · obtain ⟨c, hc, hle⟩ := exists_stop_of_valueAt_eq hps hsp hvalue hstart hsame hp
          obtain ⟨b', hb', hle'⟩ :=
            exists_stop_of_valueAt_eq hqs hsq hvalue' hstart.symm hsame.symm hc
          obtain rfl : b = b' := Option.some.inj (hp.symm.trans hb')
          rw [hc, le_antisymm hle' hle]
      obtain rfl : p = q := by
        cases p
        cases q
        cases hstart
        cases hstop
        cases hsame
        rfl
      have htail : ∀ t, D t → valueAt ps t = valueAt qs t := by
        intro t ht
        by_cases hcovers : p.covers t = true
        · rw [hps.valueAt_tail hcovers, hqs.valueAt_tail hcovers]
        · have h := hvalue t ht
          rwa [valueAt_cons, valueAt_cons, if_neg hcovers, if_neg hcovers] at h
      rw [ih hps.tail hqs.tail hsp.tail hsq.tail htail]

end Uniqueness

/-! ## Changes -/

/-- The value of the last item whose instant is not after `t`. -/
def lastValue (items : List (τ × α)) (t : τ) : Option α :=
  ((items.filter fun item ↦ item.1 ≤ t).getLast?).map Prod.snd

/-- From each change to the next one; the last period is open. -/
def periodsOf : List (τ × α) → List (Period τ α)
  | [] => []
  | change :: rest => ⟨some change.1, rest.head?.map Prod.fst, change.2⟩ :: periodsOf rest

theorem lastValue_append_singleton (items : List (τ × α)) (item : τ × α) (t : τ) :
    lastValue (items ++ [item]) t = if item.1 ≤ t then some item.2 else lastValue items t := by
  rw [lastValue, List.filter_append]
  by_cases h : item.1 ≤ t
  · rw [if_pos h, List.filter_singleton, decide_eq_true h, cond_true, List.getLast?_append]
    rfl
  · rw [if_neg h, List.filter_singleton, decide_eq_false h, cond_false, List.append_nil]
    rfl

theorem lastValue_of_forall_lt {items : List (τ × α)} {t : τ} (h : ∀ item ∈ items, t < item.1) :
    lastValue items t = none := by
  rw [lastValue, List.filter_eq_nil_iff.mpr fun item hitem hle ↦
    absurd (of_decide_eq_true hle) (not_le.mpr (h item hitem))]
  rfl

theorem lastValue_cons (item : τ × α) (items : List (τ × α)) (t : τ) (h : item.1 ≤ t) :
    lastValue (item :: items) t = (lastValue items t).or (some item.2) := by
  rw [lastValue, lastValue, List.filter_cons_of_pos (p := fun item : τ × α ↦ decide (item.1 ≤ t))
    (decide_eq_true h), List.getLast?_cons]
  generalize (items.filter fun item ↦ decide (item.1 ≤ t)).getLast? = last
  cases last <;> rfl

/-- Periods cut out of changes in order have the values of the step function. -/
theorem valueAt_periodsOf {changes : List (τ × α)} (h : changes.Pairwise fun a b ↦ a.1 < b.1)
    (t : τ) : valueAt (periodsOf changes) t = lastValue changes t := by
  induction changes with
  | nil => rfl
  | cons change rest ih =>
    obtain ⟨hfirst, hrest⟩ := List.pairwise_cons.mp h
    rw [periodsOf, valueAt_cons, ih hrest]
    by_cases hbefore : change.1 ≤ t
    · rw [lastValue_cons change rest t hbefore]
      rcases rest with _ | ⟨next, rest⟩
      · simp [Period.covers, hbefore, lastValue]
      · obtain ⟨hnext, _⟩ := List.pairwise_cons.mp hrest
        by_cases hlater : next.1 ≤ t
        · rw [lastValue_cons next rest t hlater]
          simp only [Period.covers, List.head?_cons, Option.map_some, Option.all_some,
            decide_eq_true hbefore, decide_eq_false (not_lt.mpr hlater), Bool.and_false,
            Bool.false_eq_true, if_false]
          rcases lastValue rest t with _ | value <;> rfl
        · have hlt := not_le.mp hlater
          have hnone : lastValue (next :: rest) t = none :=
            lastValue_of_forall_lt (List.forall_mem_cons.mpr
              ⟨hlt, fun item hitem ↦ hlt.trans (hnext item hitem)⟩)
          simp only [Period.covers, List.head?_cons, Option.map_some, Option.all_some,
            decide_eq_true hbefore, decide_eq_true hlt, Bool.and_self, if_true, hnone]
          rfl
    · have hlt := not_le.mp hbefore
      simp only [Period.covers, Option.all_some, decide_eq_false hbefore, Bool.false_and,
        Bool.false_eq_true, if_false]
      rw [lastValue_of_forall_lt fun item hitem ↦ hlt.trans (hfirst item hitem),
        lastValue_of_forall_lt (List.forall_mem_cons.mpr
          ⟨hlt, fun item hitem ↦ hlt.trans (hfirst item hitem)⟩)]

end Periods

import UkAqOps.Verification.Resolution
import UkAqOps.Js.SignedYears

/-!
# Period lists in normal form

What comes out of normalising periods is in normal form, is accepted again and comes back unchanged.
A list in normal form is determined by its statuses at the timestamps and before all of them. At the
timestamps alone it is not: the first one in the order of texts is the beginning of the year 10000,
and a period that starts there covers the same timestamps as one with an open start.
-/

namespace UkAqOps.Verification

open Periods

variable {dateParse : DateParse}

/-! ## Untyped period lists -/

/-- The fields of a period that is an object. -/
def asRawPeriod (value : JsValue) : RawPeriod :=
  ⟨value.optional "from_observed_at_utc", value.optional "to_observed_at_utc",
    value.optional "status"⟩

/-- One turn of the loop over `count` values. -/
def normalizePeriodValue (dateParse : DateParse) (count : ℕ) (state : Collapse)
    (item : JsValue × ℕ) : Except String Collapse := do
  Except.refuseIf (item.1.isObject = false) s!"verification periods[{item.2}] must be an object"
  normalizePeriod dateParse count state (asRawPeriod item.1, item.2)

/-- `normalizeObservationVerificationPeriods` on what a caller hands over. -/
def normalizePeriodValues (dateParse : DateParse) (periods : JsValue) :
    Except String (List (Period String Status)) :=
  match periods with
  | .undefined => .ok []
  | .arr items => Collapse.collapsed <$>
      items.zipIdx.foldlM (normalizePeriodValue dateParse items.length) ⟨[], none⟩
  | _ => .error "verification periods must be an array"

/-- A period as an object again. -/
def periodValue (period : Period String Status) : JsValue :=
  .obj [("from_observed_at_utc", orNull period.start), ("to_observed_at_utc", orNull period.stop),
    ("status", .str period.value.text)]

theorem asRawPeriod_periodValue (period : Period String Status) :
    asRawPeriod (periodValue period) = raw period := by
  simp [asRawPeriod, periodValue, JsValue.optional, raw]

theorem foldlM_normalizePeriodValue {count : ℕ} {state state' : Collapse} {items : List JsValue}
    (index : ℕ) :
    (items.zipIdx index).foldlM (normalizePeriodValue dateParse count) state = .ok state' ↔
      (∀ item ∈ items, item.isObject = true) ∧
        ((items.map asRawPeriod).zipIdx index).foldlM (normalizePeriod dateParse count) state
          = .ok state' := by
  induction items generalizing index state with
  | nil => simp
  | cons item rest ih =>
    rw [List.zipIdx_cons, List.foldlM_cons, List.map_cons, List.zipIdx_cons, List.foldlM_cons,
      List.forall_mem_cons, Except.bind_eq_ok_iff, Except.bind_eq_ok_iff]
    simp only [normalizePeriodValue]
    constructor
    · rintro ⟨next, hnext, hrest⟩
      obtain ⟨_, hobject, hnext⟩ := Except.bind_eq_ok_iff.mp hnext
      rw [Except.refuseIf_eq_ok_iff, Bool.not_eq_false] at hobject
      obtain ⟨hobjects, hfold⟩ := (ih (index + 1)).mp hrest
      exact ⟨⟨hobject, hobjects⟩, next, hnext, hfold⟩
    · rintro ⟨⟨hobject, hobjects⟩, next, hnext, hfold⟩
      refine ⟨next, Except.bind_eq_ok_iff.mpr ⟨(), Except.refuseIf_neg ?_, hnext⟩,
        (ih (index + 1)).mpr ⟨hobjects, hfold⟩⟩
      rw [hobject]
      decide

/-- The values are objects, and their fields are normalised. -/
theorem normalizePeriodValues_arr {items : List JsValue} {periods : List (Period String Status)} :
    normalizePeriodValues dateParse (.arr items) = .ok periods ↔
      (∀ item ∈ items, item.isObject = true) ∧
        normalizeObservationVerificationPeriods dateParse (items.map asRawPeriod)
          = .ok periods := by
  rw [normalizePeriodValues, normalizeObservationVerificationPeriods, Except.map_eq_ok_iff,
    Except.map_eq_ok_iff, List.length_map]
  constructor
  · rintro ⟨state, hstate, rfl⟩
    obtain ⟨hobjects, hfold⟩ := (foldlM_normalizePeriodValue 0).mp hstate
    exact ⟨hobjects, state, hfold, rfl⟩
  · rintro ⟨hobjects, state, hfold, rfl⟩
    exact ⟨state, (foldlM_normalizePeriodValue 0).mpr ⟨hobjects, hfold⟩, rfl⟩

/-! ## The partial map of a list -/

/-- The periods of a list that can be read. -/
def readPeriods (dateParse : DateParse) (periods : JsValue) : List (Period String Status) :=
  (periods.items?.getD []).filterMap fun item ↦
    (readPeriod dateParse 0 (asRawPeriod item)).toOption

/-- The status that a list gives to a text. -/
def statusMap (dateParse : DateParse) (periods : JsValue) (text : String) : Option Status :=
  valueAt (readPeriods dateParse periods) text

/-- Whether a period can be read does not depend on its index. -/
theorem readPeriod_index {index : ℕ} {item : RawPeriod} {period : Period String Status}
    (h : readPeriod dateParse index item = .ok period) (index' : ℕ) :
    readPeriod dateParse index' item = .ok period := by
  have hutc : ∀ {value : JsValue} {label : String} {bound : Option String} (label' : String),
      nullableUtc dateParse value label = .ok bound →
      nullableUtc dateParse value label' = .ok bound := by
    intro value label bound label' hbound
    rw [nullableUtc] at hbound ⊢
    split at hbound
    · rename_i hmissing
      rw [if_pos hmissing]
      exact hbound
    · rename_i hpresent
      obtain ⟨text, htext, rfl⟩ := Except.map_eq_ok_iff.mp hbound
      rw [if_neg hpresent, canonicalUtc_eq_ok_iff.mpr (canonicalUtc_eq_ok_iff.mp htext)]
      rfl
  rw [readPeriod] at h ⊢
  obtain ⟨start, hstart, h⟩ := Except.bind_eq_ok_iff.mp h
  obtain ⟨stop, hstop, h⟩ := Except.bind_eq_ok_iff.mp h
  obtain ⟨status, hstatus, h⟩ := Except.bind_eq_ok_iff.mp h
  rw [hutc _ hstart, Except.ok_bind, hutc _ hstop, Except.ok_bind, canonicalStatus_label hstatus,
    Except.ok_bind]
  exact h

/-- **Normalising changes no status.** -/
theorem valueAt_normalizePeriodValues {given : JsValue} {periods : List (Period String Status)}
    (h : normalizePeriodValues dateParse given = .ok periods) (text : String) :
    valueAt periods text = statusMap dateParse given text := by
  rcases given with _ | _ | _ | _ | _ | items | _
  case undefined =>
    cases h
    rfl
  case arr =>
    obtain ⟨-, read, hread, hvalue⟩ := valueAt_normalize (normalizePeriodValues_arr.mp h).2
    have hsame : readPeriods dateParse (.arr items) = read := by
      rw [readPeriods, JsValue.items?, Option.getD_some]
      rw [List.forall₂_map_left_iff] at hread
      clear h hvalue
      induction hread with
      | nil => rfl
      | @cons item p items read hitem _ ih =>
        obtain ⟨index, hindex⟩ := hitem
        rw [List.filterMap_cons_some (by rw [readPeriod_index hindex 0]; rfl), ih]
    rw [statusMap, hsame, hvalue text]
  all_goals cases h

/-! ## Normal form -/

theorem startsBefore_eq_false {a b : String} (h : b ≤ a) :
    ¬startsBefore (some a) (some b) = true := by
  rw [startsBefore, decide_eq_true_iff]
  exact not_lt.mpr h

/-- A step of the loop keeps the normal form. -/
theorem normal_collapsePeriod {state state' : Collapse} {period : Period String Status}
    (h : Normal state.collapsed) (hproper : period.isProper = true)
    (hstep : collapsePeriod state period = .ok state') : Normal state'.collapsed := by
  rw [collapsePeriod] at hstep
  rcases hlast : state.collapsed.getLast? with _ | previous
  · rw [hlast] at hstep
    cases hstep
    rw [List.getLast?_eq_none_iff.mp hlast]
    exact Normal.concat normal_nil hproper (by simp)
  · rw [hlast] at hstep
    obtain ⟨_, hopen, hstep⟩ := Except.bind_eq_ok_iff.mp hstep
    obtain ⟨_, hoverlap, hstep⟩ := Except.bind_eq_ok_iff.mp hstep
    obtain ⟨b, hb⟩ := Option.ne_none_iff_exists'.mp (Except.refuseIf_eq_ok_iff.mp hopen)
    obtain ⟨hstart, hbefore⟩ := not_or.mp (Except.refuseIf_eq_ok_iff.mp hoverlap)
    obtain ⟨a, ha⟩ := Option.ne_none_iff_exists'.mp hstart
    have hle : b ≤ a := by
      rw [ha, hb, startsBefore, decide_eq_true_iff] at hbefore
      exact not_lt.mp hbefore
    obtain ⟨front, hfront⟩ := List.getLast?_eq_some_iff.mp hlast
    split at hstep
    · rename_i hmerge
      cases hstep
      dsimp only
      rw [hfront] at h ⊢
      rw [List.dropLast_concat]
      refine h.extend (isProper_merge hb (hmerge.1.trans hb) (h.proper previous ?_) hproper)
      exact List.mem_append_right _ (List.mem_singleton_self _)
    · rename_i hkeep
      cases hstep
      refine h.concat hproper fun last hlast' ↦ ?_
      obtain rfl : previous = last := Option.some.inj (hlast.symm.trans hlast')
      refine ⟨b, a, hb, ha, hle, fun htouch hvalue ↦ hkeep ⟨?_, hvalue.symm⟩⟩
      rw [ha, hb, htouch]

/-- **What was normalised is sorted and disjoint, and no two periods that touch have one status.** -/
theorem normal_of_normalize {raws : List RawPeriod} {periods : List (Period String Status)}
    (h : normalizeObservationVerificationPeriods dateParse raws = .ok periods) :
    Normal periods := by
  obtain ⟨state, hstate, rfl⟩ := Except.map_eq_ok_iff.mp h
  refine @Except.foldlM_invariant _ _ _ _ _ _ _ (fun _ state ↦ Normal state.collapsed) hstate
    normal_nil ?_
  rintro done item rest state state' _ hnormal hstep
  rw [normalizePeriod] at hstep
  obtain ⟨period, _, hstep⟩ := Except.bind_eq_ok_iff.mp hstep
  obtain ⟨_, hproper, hstep⟩ := Except.bind_eq_ok_iff.mp hstep
  obtain ⟨_, _, hstep⟩ := Except.bind_eq_ok_iff.mp hstep
  obtain ⟨_, _, hstep⟩ := Except.bind_eq_ok_iff.mp hstep
  obtain ⟨_, _, hstep⟩ := Except.bind_eq_ok_iff.mp hstep
  rw [Except.refuseIf_eq_ok_iff, Bool.not_eq_false] at hproper
  exact normal_collapsePeriod hnormal hproper hstep

/-- The next period of a list in normal form is put behind the others. -/
theorem normalizePeriod_normal {count : ℕ} {front rest : List (Period String Status)}
    {period : Period String Status} (h : Normal (front ++ period :: rest))
    (hcanonical : HasCanonicalBounds dateParse period)
    (hcount : count = (front ++ period :: rest).length) :
    normalizePeriod dateParse count ⟨front, front.getLast?.bind Period.start⟩
        (raw period, front.length)
      = .ok ⟨front ++ [period], (front ++ [period]).getLast?.bind Period.start⟩ := by
  have hproper : period.isProper = true :=
    h.proper period (List.mem_append_right _ List.mem_cons_self)
  obtain ⟨-, hrest, hfront⟩ := List.pairwise_append.mp h.ordered
  have hopenStart : ¬(0 < front.length ∧ period.start = none) := by
    rintro ⟨hpos, hnone⟩
    obtain ⟨_, a, -, ha, -⟩ := hfront _ (List.getLast_mem (List.ne_nil_of_length_pos hpos)) period
      List.mem_cons_self
    rw [hnone] at ha
    cases ha
  have hopenStop : ¬(front.length + 1 < count ∧ period.stop = none) := by
    rintro ⟨hlt, hnone⟩
    rw [hcount, List.length_append, List.length_cons] at hlt
    obtain ⟨next, hnext⟩ := List.exists_mem_of_length_pos (l := rest) (by omega)
    obtain ⟨b, _, hb, -⟩ := (List.pairwise_cons.mp hrest).1 next hnext
    rw [hnone] at hb
    cases hb
  have hlast : ∀ last ∈ front.getLast?, last.Precedes period ∧ last.isProper = true :=
    fun last hmem ↦ ⟨hfront last (List.mem_of_getLast? hmem) period List.mem_cons_self,
      h.proper last (List.mem_append_left _ (List.mem_of_getLast? hmem))⟩
  have hsorted : ¬startsBefore period.start (front.getLast?.bind Period.start) = true := by
    rcases hmem : front.getLast? with _ | last
    · rcases period.start with _ | a <;> exact Bool.false_ne_true
    · obtain ⟨⟨b, a, hb, ha, hle, -⟩, hlastProper⟩ := hlast last hmem
      rcases hstart : last.start with _ | c
      · rw [Option.bind_some, hstart, ha]
        exact Bool.false_ne_true
      · rw [Option.bind_some, hstart, ha]
        rw [Period.isProper, hstart, hb] at hlastProper
        exact startsBefore_eq_false ((of_decide_eq_true hlastProper).le.trans hle)
  rw [normalizePeriod, readPeriod_raw hcanonical, Except.ok_bind,
    Except.refuseIf_neg (by rw [hproper]; decide), Except.ok_bind, Except.refuseIf_neg hopenStart,
    Except.ok_bind, Except.refuseIf_neg hopenStop, Except.ok_bind, Except.refuseIf_neg hsorted,
    Except.ok_bind, collapsePeriod, List.getLast?_concat, Option.bind_some]
  rcases hmem : front.getLast? with _ | last
  · rfl
  · obtain ⟨⟨b, a, hb, ha, hle, hother⟩, -⟩ := hlast last hmem
    have hstop : ¬last.stop = none := by simp [hb]
    have hoverlap : ¬(period.start = none ∨ startsBefore period.start last.stop = true) := by
      rw [ha, hb]
      exact not_or.mpr ⟨Option.some_ne_none a, startsBefore_eq_false hle⟩
    have hkeep : ¬(period.start = last.stop ∧ period.value = last.value) := by
      rw [ha, hb]
      rintro ⟨htouch, hvalue⟩
      exact hother (Option.some.inj htouch) hvalue.symm
    dsimp only
    rw [Except.refuseIf_neg hstop, Except.ok_bind, Except.refuseIf_neg hoverlap, Except.ok_bind,
      if_neg hkeep]

theorem foldlM_normal {count : ℕ} {front rest : List (Period String Status)}
    (h : Normal (front ++ rest)) (hcanonical : ∀ p ∈ rest, HasCanonicalBounds dateParse p)
    (hcount : count = (front ++ rest).length) :
    ((rest.map raw).zipIdx front.length).foldlM (normalizePeriod dateParse count)
        ⟨front, front.getLast?.bind Period.start⟩
      = .ok ⟨front ++ rest, (front ++ rest).getLast?.bind Period.start⟩ := by
  induction rest generalizing front with
  | nil =>
    rw [List.append_nil]
    rfl
  | cons period rest ih =>
    obtain ⟨hperiod, hrest⟩ := List.forall_mem_cons.mp hcanonical
    have happend : front ++ period :: rest = front ++ [period] ++ rest := by
      rw [List.append_assoc, List.singleton_append]
    have hnext := @ih (front ++ [period]) (happend ▸ h) hrest (happend ▸ hcount)
    rw [List.map_cons, List.zipIdx_cons, List.foldlM_cons,
      normalizePeriod_normal h hperiod hcount, Except.ok_bind, happend]
    rw [List.length_append, List.length_singleton] at hnext
    exact hnext

/-- **A list in normal form is accepted and comes back unchanged.** -/
theorem normalize_of_normal {periods : List (Period String Status)} (h : Normal periods)
    (hcanonical : ∀ p ∈ periods, HasCanonicalBounds dateParse p) :
    normalizeObservationVerificationPeriods dateParse (periods.map raw) = .ok periods := by
  have hfold := @foldlM_normal dateParse periods.length [] periods h hcanonical rfl
  rw [normalizeObservationVerificationPeriods, List.length_map]
  exact Except.map_eq_ok_iff.mpr ⟨_, hfold, rfl⟩

theorem normalizePeriodValues_of_normal {periods : List (Period String Status)}
    (h : Normal periods) (hcanonical : ∀ p ∈ periods, HasCanonicalBounds dateParse p) :
    normalizePeriodValues dateParse (.arr (periods.map periodValue)) = .ok periods := by
  refine normalizePeriodValues_arr.mpr ⟨List.forall_mem_map.mpr fun _ _ ↦ rfl, ?_⟩
  have hraw : asRawPeriod ∘ periodValue = raw := funext asRawPeriod_periodValue
  rw [List.map_map, hraw]
  exact normalize_of_normal h hcanonical

theorem normal_of_normalizePeriodValues {given : JsValue} {periods : List (Period String Status)}
    (h : normalizePeriodValues dateParse given = .ok periods) :
    Normal periods ∧ ∀ p ∈ periods, HasCanonicalBounds dateParse p := by
  rcases given with _ | _ | _ | _ | _ | items | _
  case undefined =>
    cases h
    exact ⟨normal_nil, by simp⟩
  case arr =>
    obtain ⟨-, h⟩ := normalizePeriodValues_arr.mp h
    exact ⟨normal_of_normalize h, (valueAt_normalize h).1⟩
  all_goals cases h

/-! ## Uniqueness -/

/-- No period starts or stops there. -/
def Avoids (bound : String) (periods : List (Period String Status)) : Prop :=
  ∀ p ∈ periods, p.start ≠ some bound ∧ p.stop ≠ some bound

/-- Every bound of a normalised list is one of the list that was read. -/
theorem avoids_normalize {bound : String} {raws : List RawPeriod}
    {periods : List (Period String Status)}
    (h : normalizeObservationVerificationPeriods dateParse raws = .ok periods)
    (hraws : ∀ r ∈ raws, ∀ index p, readPeriod dateParse index r = .ok p →
      p.start ≠ some bound ∧ p.stop ≠ some bound) : Avoids bound periods := by
  obtain ⟨state, hstate, rfl⟩ := Except.map_eq_ok_iff.mp h
  refine @Except.foldlM_invariant _ _ _ _ _ _ _ (fun _ state ↦ Avoids bound state.collapsed) hstate
    (by simp [Avoids]) ?_
  rintro done item rest state state' hsplit havoids hstep
  have hitem : item.1 ∈ raws := by
    have hmem : item ∈ raws.zipIdx := hsplit ▸ List.mem_append_right _ List.mem_cons_self
    exact List.fst_mem_of_mem_zipIdx hmem
  rw [normalizePeriod] at hstep
  obtain ⟨period, hperiod, hstep⟩ := Except.bind_eq_ok_iff.mp hstep
  obtain ⟨_, _, hstep⟩ := Except.bind_eq_ok_iff.mp hstep
  obtain ⟨_, _, hstep⟩ := Except.bind_eq_ok_iff.mp hstep
  obtain ⟨_, _, hstep⟩ := Except.bind_eq_ok_iff.mp hstep
  obtain ⟨_, _, hstep⟩ := Except.bind_eq_ok_iff.mp hstep
  have hnew := hraws item.1 hitem _ period hperiod
  have hpush : Avoids bound (state.collapsed ++ [period]) :=
    List.forall_mem_append.mpr ⟨havoids, List.forall_mem_singleton.mpr hnew⟩
  rw [collapsePeriod] at hstep
  split at hstep
  · cases hstep
    exact hpush
  · rename_i previous hprevious
    obtain ⟨_, _, hstep⟩ := Except.bind_eq_ok_iff.mp hstep
    obtain ⟨_, _, hstep⟩ := Except.bind_eq_ok_iff.mp hstep
    split at hstep
    · cases hstep
      exact List.forall_mem_append.mpr
        ⟨fun p hp ↦ havoids p (List.mem_of_mem_dropLast hp), List.forall_mem_singleton.mpr
          ⟨(havoids previous (List.mem_of_getLast? hprevious)).1, hnew.2⟩⟩
    · cases hstep
      exact hpush

theorem avoids_normalizePeriodValues {bound : String} {given : JsValue}
    {periods : List (Period String Status)}
    (h : normalizePeriodValues dateParse given = .ok periods)
    (hgiven : Avoids bound (readPeriods dateParse given)) : Avoids bound periods := by
  rcases given with _ | _ | _ | _ | _ | items | _
  case undefined =>
    cases h
    exact fun p hp ↦ absurd hp List.not_mem_nil
  case arr =>
    refine avoids_normalize (normalizePeriodValues_arr.mp h).2 ?_
    rintro r hr index p hp
    obtain ⟨item, hitem, rfl⟩ := List.mem_map.mp hr
    refine hgiven p (List.mem_filterMap.mpr ⟨item, hitem, ?_⟩)
    rw [readPeriod_index hp 0]
    rfl
  all_goals cases h

/-- The timestamp that sorts before all others. -/
def leastTimestamp : String := "+010000-01-01T00:00:00.000Z"

/-- `new Date(text)` is an instant that a date can hold. -/
def ReadsTimeValues (dateParse : DateParse) : Prop :=
  ∀ text ms, dateParse text = some ms → IsTimeValue ms

theorem toISOString_leastTimestamp : toISOString 253402300800000 = leastTimestamp := by
  decide +kernel

theorem isCanonical_leastTimestamp (hdates : ReadsTimestamps dateParse) :
    IsCanonical dateParse leastTimestamp :=
  ⟨253402300800000, toISOString_leastTimestamp ▸ hdates 253402300800000 (by decide),
    toISOString_leastTimestamp⟩

/-- The beginning of the year 10000 sorts before every other timestamp. -/
theorem leastTimestamp_le (hvalues : ReadsTimeValues dateParse) {text : String}
    (h : IsCanonical dateParse text) : leastTimestamp ≤ text := by
  obtain ⟨ms, hms, rfl⟩ := h
  have htime := hvalues _ ms hms
  have hyear : yearOf 253402300800000 = 10000 := by decide
  have hbefore : yearOf 253402300799999 = 9999 := by decide
  rw [← not_lt, ← toISOString_leastTimestamp, String.lt_iff_toList_lt, toISOString, toISOString,
    String.toList_ofList, String.toList_ofList, isoChars_lt_iff htime (by decide)]
  rintro (hrank | ⟨hsame, hlt⟩)
  · rw [hyear] at hrank
    have hbound := natAbs_yearOf_lt htime
    have hleast : yearRank 10000 = -1990000 := by decide
    rcases yearRank_cases (yearOf ms) with ⟨hcase, hr⟩ | ⟨hcase, hr⟩ | ⟨hcase, hcase', hr⟩ <;> omega
  · have hle := yearOf_mono (show ms ≤ 253402300799999 by omega)
    omega

theorem empty_lt_of_isCanonical {text : String} (h : IsCanonical dateParse text) : "" < text := by
  obtain ⟨ms, -, rfl⟩ := h
  rw [String.lt_iff_toList_lt]
  rcases hchars : (toISOString ms).toList with _ | ⟨c, cs⟩
  · exact absurd (String.toList_eq_nil_iff.mp hchars) (toISOString_ne_empty ms)
  · exact List.nil_lt_cons c cs

/-- **Lists in normal form with the same statuses are equal**: at every timestamp, and before all of
them unless no period starts or stops at the least one. -/
theorem eq_of_statuses (hdates : ReadsTimestamps dateParse) (hvalues : ReadsTimeValues dateParse)
    {ps qs : List (Period String Status)} (hps : Normal ps) (hqs : Normal qs)
    (hpc : ∀ p ∈ ps, HasCanonicalBounds dateParse p)
    (hqc : ∀ q ∈ qs, HasCanonicalBounds dateParse q)
    (hsame : ∀ text, IsCanonical dateParse text → valueAt ps text = valueAt qs text)
    (hopen : valueAt ps "" = valueAt qs "" ∨
      Avoids leastTimestamp ps ∧ Avoids leastTimestamp qs) : ps = qs := by
  have hbound : ∀ {rs : List (Period String Status)}, (∀ p ∈ rs, HasCanonicalBounds dateParse p) →
      ∀ b, IsBound rs b → IsCanonical dateParse b := by
    rintro rs hrs b ⟨p, hp, hb | hb⟩
    · exact (hrs p hp).1 b hb
    · exact (hrs p hp).2 b hb
  rcases hopen with hopen | ⟨hpa, hqa⟩
  · have hseparates : ∀ {rs : List (Period String Status)},
        (∀ p ∈ rs, HasCanonicalBounds dateParse p) →
        Separates (fun t ↦ IsCanonical dateParse t ∨ t = "") rs := fun hrs ↦
      ⟨fun b hb ↦ Or.inl (hbound hrs b hb),
        fun b hb ↦ ⟨"", Or.inr rfl, empty_lt_of_isCanonical (hbound hrs b hb)⟩⟩
    refine Normal.eq_of_valueAt_eq ⟨"", Or.inr rfl⟩ hps hqs (hseparates hpc) (hseparates hqc) ?_
    rintro t (ht | rfl)
    · exact hsame t ht
    · exact hopen
  · have hleast := isCanonical_leastTimestamp hdates
    have hseparates : ∀ {rs : List (Period String Status)},
        (∀ p ∈ rs, HasCanonicalBounds dateParse p) → Avoids leastTimestamp rs →
        Separates (IsCanonical dateParse) rs := by
      refine fun hrs havoids ↦ ⟨hbound hrs, fun b hb ↦ ⟨leastTimestamp, hleast, ?_⟩⟩
      refine lt_of_le_of_ne (leastTimestamp_le hvalues (hbound hrs b hb)) ?_
      rintro rfl
      obtain ⟨p, hp, hb | hb⟩ := hb
      · exact (havoids p hp).1 hb
      · exact (havoids p hp).2 hb
    exact Normal.eq_of_valueAt_eq ⟨leastTimestamp, hleast⟩ hps hqs (hseparates hpc hpa)
      (hseparates hqc hqa) hsame

/-- Two lists denote the same map: they agree at every timestamp, and also before all of them unless
no period of theirs starts or stops at the least one. -/
def SameStatuses (dateParse : DateParse) (given given' : JsValue) : Prop :=
  (∀ text, IsCanonical dateParse text → statusMap dateParse given text
    = statusMap dateParse given' text) ∧
  (statusMap dateParse given "" = statusMap dateParse given' "" ∨
    Avoids leastTimestamp (readPeriods dateParse given) ∧
      Avoids leastTimestamp (readPeriods dateParse given'))

theorem eq_of_sameStatuses (hdates : ReadsTimestamps dateParse)
    (hvalues : ReadsTimeValues dateParse) {given given' : JsValue}
    {ps qs : List (Period String Status)} (h : normalizePeriodValues dateParse given = .ok ps)
    (h' : normalizePeriodValues dateParse given' = .ok qs)
    (hsame : SameStatuses dateParse given given') : ps = qs := by
  obtain ⟨hps, hpc⟩ := normal_of_normalizePeriodValues h
  obtain ⟨hqs, hqc⟩ := normal_of_normalizePeriodValues h'
  refine eq_of_statuses hdates hvalues hps hqs hpc hqc (fun text htext ↦ ?_) ?_
  · rw [valueAt_normalizePeriodValues h, valueAt_normalizePeriodValues h', hsame.1 text htext]
  · rw [valueAt_normalizePeriodValues h, valueAt_normalizePeriodValues h']
    exact hsame.2.imp id fun ⟨ha, ha'⟩ ↦
      ⟨avoids_normalizePeriodValues h ha, avoids_normalizePeriodValues h' ha'⟩

end UkAqOps.Verification

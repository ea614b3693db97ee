import UkAqOps.Verification.Resolution
import Mathlib.Logic.Relation

/-!
# Statuses of single observations

A list of observations with their statuses is cut down to its changes of status. At every timestamp
the changes read like the observations, and an observation whose predecessor has its status leaves
no trace in them.
-/

namespace UkAqOps.Verification

open Periods

variable {dateParse : DateParse}

/-! ## Reading the evidence -/

/-- The canonical timestamp and the status of an observation. -/
def readEvidence (dateParse : DateParse) (evidence : RawEvidence) : Except String (String × Status) := do
  let observedAtUtc ← canonicalUtc dateParse evidence.observedAtUtc "observed_at_utc"
  let status ← canonicalStatus evidence.status "status"
  .ok (observedAtUtc, status)

theorem readEvidence_eq_ok_iff {evidence : RawEvidence} {item : String × Status} :
    readEvidence dateParse evidence = .ok item ↔
      canonicalUtc dateParse evidence.observedAtUtc "observed_at_utc" = .ok item.1 ∧
        canonicalStatus evidence.status "status" = .ok item.2 := by
  rw [readEvidence, Except.bind_eq_ok_iff]
  constructor
  · rintro ⟨text, htext, h⟩
    obtain ⟨status, hstatus, h⟩ := Except.bind_eq_ok_iff.mp h
    cases h
    exact ⟨htext, hstatus⟩
  · rintro ⟨htext, hstatus⟩
    exact ⟨item.1, htext, Except.bind_eq_ok_iff.mpr ⟨item.2, hstatus, rfl⟩⟩

/-- One turn of the loop, whatever its index is. -/
def takeEvidence (dateParse : DateParse) (state : Transitions) (evidence : RawEvidence) :
    Except String Transitions := do
  let item ← readEvidence dateParse evidence
  addObservation state item.1 item.2

theorem addEvidence_eq_ok_iff {state state' : Transitions} {evidence : RawEvidence} {index : ℕ} :
    addEvidence dateParse state (evidence, index) = .ok state' ↔
      takeEvidence dateParse state evidence = .ok state' := by
  rw [addEvidence, takeEvidence, Except.bind_eq_ok_iff, Except.bind_eq_ok_iff]
  constructor
  · rintro ⟨text, htext, h⟩
    obtain ⟨status, hstatus, h⟩ := Except.bind_eq_ok_iff.mp h
    refine ⟨(text, status), readEvidence_eq_ok_iff.mpr ⟨?_, canonicalStatus_label hstatus _⟩, h⟩
    exact canonicalUtc_eq_ok_iff.mpr (canonicalUtc_eq_ok_iff.mp htext)
  · rintro ⟨item, hitem, h⟩
    obtain ⟨htext, hstatus⟩ := readEvidence_eq_ok_iff.mp hitem
    refine ⟨item.1, canonicalUtc_eq_ok_iff.mpr (canonicalUtc_eq_ok_iff.mp htext), ?_⟩
    exact Except.bind_eq_ok_iff.mpr ⟨item.2, canonicalStatus_label hstatus _, h⟩

theorem foldlM_addEvidence_eq_ok_iff {evidence : List RawEvidence} {state state' : Transitions}
    (index : ℕ) :
    (evidence.zipIdx index).foldlM (addEvidence dateParse) state = .ok state' ↔
      evidence.foldlM (takeEvidence dateParse) state = .ok state' := by
  induction evidence generalizing state index with
  | nil => exact Iff.rfl
  | cons first rest ih =>
    rw [List.zipIdx_cons, List.foldlM_cons, List.foldlM_cons, Except.bind_eq_ok_iff,
      Except.bind_eq_ok_iff]
    exact exists_congr fun next ↦ and_congr addEvidence_eq_ok_iff (ih (index + 1))

/-! ## Changes of status -/

/-- Behind every instant of the list the last value holds. -/
theorem lastValue_of_forall_le {items : List (String × Status)} {t : String}
    (h : ∀ item ∈ items, item.1 ≤ t) : lastValue items t = items.getLast?.map Prod.snd := by
  rw [lastValue, List.filter_eq_self.mpr fun item hitem ↦ decide_eq_true (h item hitem)]

/-- What the changes found so far keep of the observations read so far. -/
structure Tracks (dateParse : DateParse) (items : List (String × Status)) (state : Transitions) :
    Prop where
  ordered : state.transitions.Pairwise fun a b ↦ a.1 < b.1
  canonical : ∀ change ∈ state.transitions, IsCanonical dateParse change.1
  values : ∀ t, lastValue state.transitions t = lastValue items t
  previous : state.previousTimestamp = items.getLast?.map Prod.fst
  status : state.transitions.getLast?.map Prod.snd = items.getLast?.map Prod.snd
  changes_le : ∀ change ∈ state.transitions, ∀ t ∈ state.previousTimestamp, change.1 ≤ t
  items_le : ∀ item ∈ items, ∀ t ∈ state.previousTimestamp, item.1 ≤ t
  own : ∀ item ∈ items, lastValue items item.1 = some item.2

theorem not_startsBefore_iff {text : String} {previous : Option String} :
    ¬startsBefore (some text) previous = true ↔ ∀ t ∈ previous, t ≤ text := by
  rcases previous with _ | t
  · simp [startsBefore]
  · rw [startsBefore, decide_eq_true_iff, not_lt]
    exact ⟨fun h t' ht ↦ Option.some.inj ht ▸ h, fun h ↦ h t rfl⟩

section Tracks

variable {items : List (String × Status)} {state : Transitions} {text : String}

/-- Once an observation was read, the state has its timestamp. -/
theorem Tracks.exists_previous (h : Tracks dateParse items state) (hne : items ≠ []) :
    ∃ t, state.previousTimestamp = some t := by
  refine ⟨(items.getLast hne).1, ?_⟩
  rw [h.previous, List.getLast?_eq_getLast_of_ne_nil hne]
  rfl

theorem Tracks.ne_nil (h : Tracks dateParse items state) (hne : state.transitions ≠ []) :
    items ≠ [] := by
  rintro rfl
  have hstatus := h.status
  rw [List.getLast?_eq_getLast_of_ne_nil hne] at hstatus
  cases hstatus

/-- The observations read so far end in the timestamp of the state. -/
theorem Tracks.items_le_of (h : Tracks dateParse items state)
    (hle : ∀ t ∈ state.previousTimestamp, t ≤ text) : ∀ item ∈ items, item.1 ≤ text := by
  intro item hitem
  obtain ⟨t, ht⟩ := h.exists_previous (List.ne_nil_of_mem hitem)
  exact (h.items_le item hitem t ht).trans (hle t ht)

theorem Tracks.changes_le_of (h : Tracks dateParse items state)
    (hle : ∀ t ∈ state.previousTimestamp, t ≤ text) :
    ∀ change ∈ state.transitions, change.1 ≤ text := by
  intro change hchange
  obtain ⟨t, ht⟩ := h.exists_previous (h.ne_nil (List.ne_nil_of_mem hchange))
  exact (h.changes_le change hchange t ht).trans (hle t ht)

/-- An observation that is not after an earlier one repeats its timestamp. -/
theorem Tracks.previous_eq (h : Tracks dateParse items state)
    (hle : ∀ t ∈ state.previousTimestamp, t ≤ text) {item : String × Status} (hitem : item ∈ items)
    (heq : item.1 = text) : state.previousTimestamp = some text := by
  obtain ⟨t, ht⟩ := h.exists_previous (List.ne_nil_of_mem hitem)
  rw [ht, le_antisymm (hle t ht) (heq ▸ h.items_le item hitem t ht)]

theorem Tracks.previous_eq_of_change (h : Tracks dateParse items state)
    (hle : ∀ t ∈ state.previousTimestamp, t ≤ text) {change : String × Status}
    (hchange : change ∈ state.transitions) (heq : change.1 = text) :
    state.previousTimestamp = some text := by
  obtain ⟨t, ht⟩ := h.exists_previous (h.ne_nil (List.ne_nil_of_mem hchange))
  rw [ht, le_antisymm (hle t ht) (heq ▸ h.changes_le change hchange t ht)]

/-- Where the status goes on, the changes already read like the longer list. -/
theorem Tracks.values_of_goes_on (h : Tracks dateParse items state)
    (hle : ∀ t ∈ state.previousTimestamp, t ≤ text) {status : Status}
    (hgoes : state.transitions.getLast?.map Prod.snd = some status) (t : String) :
    lastValue state.transitions t = lastValue (items ++ [(text, status)]) t := by
  rw [lastValue_append_singleton]
  by_cases ht : text ≤ t
  · rw [if_pos ht, lastValue_of_forall_le fun c hc ↦ (h.changes_le_of hle c hc).trans ht, hgoes]
  · rw [if_neg ht, h.values t]

/-- Each observation still resolves to its own status when another is read. -/
theorem Tracks.own_append (h : Tracks dateParse items state)
    (hle : ∀ t ∈ state.previousTimestamp, t ≤ text) {status : Status}
    (hrepeat : state.previousTimestamp = some text → items.getLast?.map Prod.snd = some status) :
    ∀ item ∈ items ++ [(text, status)],
      lastValue (items ++ [(text, status)]) item.1 = some item.2 := by
  intro item hitem
  rw [lastValue_append_singleton]
  rcases List.mem_append.mp hitem with hitem | hitem
  · by_cases ht : text ≤ item.1
    · have heq : item.1 = text := le_antisymm (h.items_le_of hle item hitem) ht
      rw [if_pos ht, ← hrepeat (h.previous_eq hle hitem heq),
        ← lastValue_of_forall_le (h.items_le_of hle), ← heq, h.own item hitem]
    · rw [if_neg ht, h.own item hitem]
  · rw [List.mem_singleton.mp hitem, if_pos le_rfl]

/-- One more observation: it repeats a timestamp, goes on with the last status or changes it. -/
theorem tracks_addObservation {state' : Transitions} {status : Status}
    (h : Tracks dateParse items state) (htext : IsCanonical dateParse text)
    (hstep : addObservation state text status = .ok state') :
    Tracks dateParse (items ++ [(text, status)]) state' := by
  rw [addObservation] at hstep
  obtain ⟨_, horder, hstep⟩ := Except.bind_eq_ok_iff.mp hstep
  have hle := not_startsBefore_iff.mp (Except.refuseIf_eq_ok_iff.mp horder)
  have hlast : (items ++ [(text, status)]).getLast? = some (text, status) := List.getLast?_concat ..
  have hitems : ∀ item ∈ items ++ [(text, status)], item.1 ≤ text := by
    intro item hitem
    rcases List.mem_append.mp hitem with hitem | hitem
    · exact h.items_le_of hle item hitem
    · rw [List.mem_singleton.mp hitem]
  dsimp only at hstep
  split at hstep
  · rename_i hrepeat
    obtain ⟨_, hstatus, hstep⟩ := Except.bind_eq_ok_iff.mp hstep
    have hgoes := not_not.mp (Except.refuseIf_eq_ok_iff.mp hstatus)
    cases hstep
    refine ⟨h.ordered, h.canonical, h.values_of_goes_on hle hgoes, by rw [hlast]; exact hrepeat,
      by rw [hlast]; exact hgoes, h.changes_le, fun item hitem t ht ↦ ?_,
      h.own_append hle fun _ ↦ by rw [← h.status, hgoes]⟩
    rw [hrepeat] at ht
    exact Option.some.inj ht ▸ hitems item hitem
  · rename_i hrepeat
    split at hstep
    · rename_i hgoes
      cases hstep
      refine ⟨h.ordered, h.canonical, h.values_of_goes_on hle hgoes, by rw [hlast]; rfl,
        by rw [hlast]; exact hgoes, fun change hchange t ht ↦ ?_, fun item hitem t ht ↦ ?_,
        h.own_append hle fun hp ↦ absurd hp hrepeat⟩
      · exact Option.some.inj ht ▸ h.changes_le_of hle change hchange
      · exact Option.some.inj ht ▸ hitems item hitem
    · cases hstep
      refine ⟨List.pairwise_append.mpr ⟨h.ordered, List.pairwise_singleton _ _, ?_⟩, ?_,
        fun t ↦ ?_, by rw [hlast]; rfl, by rw [hlast, List.getLast?_concat], ?_, ?_,
        h.own_append hle fun hp ↦ absurd hp hrepeat⟩
      · intro change hchange new hnew
        rw [List.mem_singleton.mp hnew]
        exact lt_of_le_of_ne (h.changes_le_of hle change hchange) fun heq ↦
          hrepeat (h.previous_eq_of_change hle hchange heq)
      · intro change hchange
        rcases List.mem_append.mp hchange with hchange | hchange
        · exact h.canonical change hchange
        · rw [List.mem_singleton.mp hchange]
          exact htext
      · rw [lastValue_append_singleton, lastValue_append_singleton, h.values t]
      · intro change hchange t ht
        rw [← Option.some.inj ht]
        rcases List.mem_append.mp hchange with hchange | hchange
        · exact h.changes_le_of hle change hchange
        · rw [List.mem_singleton.mp hchange]
      · exact fun item hitem t ht ↦ Option.some.inj ht ▸ hitems item hitem

end Tracks

/-- Periods between canonical timestamps have canonical bounds. -/
theorem hasCanonicalBounds_periodsOf {changes : List (String × Status)}
    (h : ∀ change ∈ changes, IsCanonical dateParse change.1) :
    ∀ p ∈ periodsOf changes, HasCanonicalBounds dateParse p := by
  induction changes with
  | nil => exact fun p hp ↦ absurd hp List.not_mem_nil
  | cons change rest ih =>
    obtain ⟨hchange, hrest⟩ := List.forall_mem_cons.mp h
    refine List.forall_mem_cons.mpr ⟨⟨fun a ha ↦ ?_, fun b hb ↦ ?_⟩, ih hrest⟩
    · exact Option.some.inj ha ▸ hchange
    · obtain ⟨next, hnext, rfl⟩ := Option.map_eq_some_iff.mp hb
      exact hrest next (List.mem_of_mem_head? hnext)

/-- What the loop over the evidence keeps. -/
def Tracking (dateParse : DateParse) (done : List RawEvidence) (state : Transitions) : Prop :=
  ∃ items, List.Forall₂ (fun e item ↦ readEvidence dateParse e = .ok item) done items ∧
    Tracks dateParse items state

theorem tracking_of_ok {evidence : List RawEvidence} {state : Transitions}
    (h : evidence.foldlM (takeEvidence dateParse) ⟨[], none⟩ = .ok state) :
    Tracking dateParse evidence state := by
  refine @Except.foldlM_invariant _ _ _ _ _ _ _ (Tracking dateParse) h
    ⟨[], List.Forall₂.nil, ⟨List.Pairwise.nil, by simp, fun _ ↦ rfl, rfl, rfl, by simp, by simp,
      by simp⟩⟩ ?_
  rintro done e rest state state' _ ⟨items, hitems, htracks⟩ hstep
  obtain ⟨item, hitem, hstep⟩ := Except.bind_eq_ok_iff.mp hstep
  have htext := (canonicalUtc_eq_ok_iff.mp (readEvidence_eq_ok_iff.mp hitem).1).2
  exact ⟨items ++ [item], List.rel_append hitems (List.Forall₂.cons hitem List.Forall₂.nil),
    tracks_addObservation htracks htext hstep⟩

/-! ## Observations that leave no trace -/

/-- The second of two neighbours with one status is dropped. -/
def Drops (evidence thinner : List RawEvidence) : Prop :=
  ∃ before first second after status, evidence = before ++ first :: second :: after ∧
    thinner = before ++ first :: after ∧ canonicalStatus first.status "status" = .ok status ∧
      canonicalStatus second.status "status" = .ok status

section Drops

variable {changes : List (String × Status)} {earlier later text : String} {status : Status}

/-- What is taken in behind a later timestamp is taken in the same way behind an earlier one. -/
theorem addObservation_of_lt {state : Transitions} (hlt : earlier < later)
    (h : addObservation ⟨changes, some later⟩ text status = .ok state) :
    addObservation ⟨changes, some earlier⟩ text status = .ok state := by
  rw [addObservation] at h ⊢
  obtain ⟨_, horder, h⟩ := Except.bind_eq_ok_iff.mp h
  have hle := not_startsBefore_iff.mp (Except.refuseIf_eq_ok_iff.mp horder) later rfl
  have hearlier : earlier < text := hlt.trans_le hle
  have hcheck : Except.refuseIf (startsBefore (some text) (some earlier) = true)
      "source observation verification evidence must be ordered" = .ok () :=
    Except.refuseIf_neg (not_startsBefore_iff.mpr fun t ht ↦ Option.some.inj ht ▸ hearlier.le)
  rw [hcheck, Except.ok_bind]
  dsimp only at h ⊢
  rw [if_neg fun heq ↦ hearlier.ne (Option.some.inj heq)]
  split at h
  · rename_i hrepeat
    obtain ⟨_, hstatus, h⟩ := Except.bind_eq_ok_iff.mp h
    rw [if_pos (not_not.mp (Except.refuseIf_eq_ok_iff.mp hstatus)), ← hrepeat]
    exact h
  · exact h

theorem foldlM_of_lt {state : Transitions} (hlt : earlier < later) {after : List RawEvidence}
    (h : after.foldlM (takeEvidence dateParse) ⟨changes, some later⟩ = .ok state) :
    ∃ state', after.foldlM (takeEvidence dateParse) ⟨changes, some earlier⟩ = .ok state' ∧
      state'.transitions = state.transitions := by
  rcases after with _ | ⟨next, rest⟩
  · cases h
    exact ⟨⟨changes, some earlier⟩, rfl, rfl⟩
  · rw [List.foldlM_cons] at h
    obtain ⟨middle, hnext, hrest⟩ := Except.bind_eq_ok_iff.mp h
    obtain ⟨item, hitem, hadd⟩ := Except.bind_eq_ok_iff.mp hnext
    refine ⟨state, ?_, rfl⟩
    rw [List.foldlM_cons, takeEvidence, hitem, Except.ok_bind, addObservation_of_lt hlt hadd]
    exact hrest

/-- Behind an observation the state has its timestamp and its status. -/
theorem last_of_addObservation {state state' : Transitions}
    (h : addObservation state text status = .ok state') :
    state'.previousTimestamp = some text ∧
      state'.transitions.getLast?.map Prod.snd = some status := by
  rw [addObservation] at h
  obtain ⟨_, _, h⟩ := Except.bind_eq_ok_iff.mp h
  dsimp only at h
  split at h
  · rename_i hrepeat
    obtain ⟨_, hstatus, h⟩ := Except.bind_eq_ok_iff.mp h
    cases h
    exact ⟨hrepeat, not_not.mp (Except.refuseIf_eq_ok_iff.mp hstatus)⟩
  · split at h
    · rename_i hgoes
      cases h
      exact ⟨rfl, hgoes⟩
    · cases h
      exact ⟨rfl, by rw [List.getLast?_concat]; rfl⟩

/-- An observation with the status that already holds only moves the timestamp on. -/
theorem eq_of_addObservation_same {state state' : Transitions}
    (hprevious : state.previousTimestamp = some earlier)
    (hstatus : state.transitions.getLast?.map Prod.snd = some status)
    (h : addObservation state text status = .ok state') :
    state' = state ∨ (earlier < text ∧ state' = ⟨state.transitions, some text⟩) := by
  rw [addObservation] at h
  obtain ⟨_, horder, h⟩ := Except.bind_eq_ok_iff.mp h
  have hle := not_startsBefore_iff.mp (Except.refuseIf_eq_ok_iff.mp horder) earlier hprevious
  dsimp only at h
  split at h
  · obtain ⟨_, _, h⟩ := Except.bind_eq_ok_iff.mp h
    exact Or.inl (Except.ok.inj h).symm
  · rename_i hdiffers
    refine Or.inr ⟨lt_of_le_of_ne hle fun heq ↦ hdiffers (heq ▸ hprevious), ?_⟩
    exact (Except.ok.inj h).symm

/-- The loop finds the same changes in the shorter list. -/
theorem foldlM_of_drops {evidence thinner : List RawEvidence} (hdrops : Drops evidence thinner)
    {state : Transitions}
    (h : evidence.foldlM (takeEvidence dateParse) ⟨[], none⟩ = .ok state) :
    ∃ state', thinner.foldlM (takeEvidence dateParse) ⟨[], none⟩ = .ok state' ∧
      state'.transitions = state.transitions := by
  obtain ⟨before, first, second, after, status, rfl, rfl, hfirst, hsecond⟩ := hdrops
  rw [List.foldlM_append] at h
  obtain ⟨start, hstart, h⟩ := Except.bind_eq_ok_iff.mp h
  rw [List.foldlM_cons] at h
  obtain ⟨middle, hmiddle, h⟩ := Except.bind_eq_ok_iff.mp h
  rw [List.foldlM_cons] at h
  obtain ⟨next, hnext, hrest⟩ := Except.bind_eq_ok_iff.mp h
  rw [List.foldlM_append, hstart, Except.ok_bind, List.foldlM_cons, hmiddle, Except.ok_bind]
  obtain ⟨item, hitem, hadd⟩ := Except.bind_eq_ok_iff.mp hmiddle
  obtain ⟨item', hitem', hadd'⟩ := Except.bind_eq_ok_iff.mp hnext
  have hstatus : item.2 = status :=
    Except.ok.inj ((readEvidence_eq_ok_iff.mp hitem).2.symm.trans hfirst)
  have hstatus' : item'.2 = status :=
    Except.ok.inj ((readEvidence_eq_ok_iff.mp hitem').2.symm.trans hsecond)
  obtain ⟨hprevious, hlast⟩ := last_of_addObservation hadd
  rw [hstatus] at hlast
  rw [hstatus'] at hadd'
  rcases eq_of_addObservation_same hprevious hlast hadd' with rfl | ⟨hlt, rfl⟩
  · exact ⟨state, hrest, rfl⟩
  · obtain ⟨changes, previous⟩ := middle
    obtain rfl : previous = some item.1 := hprevious
    exact foldlM_of_lt hlt hrest

end Drops

/-- What the source becomes depends on the changes of status alone. -/
theorem verificationPeriods_of_transitions {evidence thinner : List RawEvidence}
    {provenance : JsValue} {source : VerificationSource}
    (h : verificationPeriodsFromObservationEvidence dateParse evidence provenance = .ok source)
    (hthinner : ∀ state, evidence.foldlM (takeEvidence dateParse) ⟨[], none⟩ = .ok state →
      ∃ state', thinner.foldlM (takeEvidence dateParse) ⟨[], none⟩ = .ok state' ∧
        state'.transitions = state.transitions) :
    verificationPeriodsFromObservationEvidence dateParse thinner provenance = .ok source := by
  rw [verificationPeriodsFromObservationEvidence] at h ⊢
  obtain ⟨state, hstate, h⟩ := Except.bind_eq_ok_iff.mp h
  obtain ⟨state', hstate', hsame⟩ := hthinner state ((foldlM_addEvidence_eq_ok_iff 0).mp hstate)
  rw [(foldlM_addEvidence_eq_ok_iff 0).mpr hstate', Except.ok_bind, hsame]
  exact h

/-! ## The step function -/

/-- The manifest was built from a timeseries that carries what the source says. -/
def CarriesSource (dateParse : DateParse) (source : VerificationSource)
    (manifest : ConnectorManifest) (timeseriesId : ℤ) : Prop :=
  ∃ connectorId identity entries given,
    buildObservationVerificationConnectorManifest dateParse connectorId identity entries
      = .ok manifest ∧ given ∈ entries ∧ given.timeseriesId = timeseriesId ∧
    given.sourceVerificationModel = .str source.sourceVerificationModel ∧
    given.semanticSourceProvenance = source.semanticSourceProvenance ∧
    given.defaultStatus = .str source.defaultStatus.text ∧ given.periods = source.periods.map raw

theorem resolve_of_carriesSource {source : VerificationSource} {manifest : ConnectorManifest}
    {timeseriesId : ℤ} (h : CarriesSource dateParse source manifest timeseriesId)
    (hcanonical : ∀ p ∈ source.periods, HasCanonicalBounds dateParse p) {observedAtUtc : JsValue}
    {text : String} (htext : canonicalUtc dateParse observedAtUtc "observedAtUtc" = .ok text)
    (legacyStatus : Option Status) :
    resolveEffectiveObservationVerificationStatus dateParse (some ⟨true, manifest⟩) timeseriesId
        observedAtUtc legacyStatus
      = .ok (some ((valueAt source.periods text).getD source.defaultStatus)) := by
  obtain ⟨connectorId, identity, entries, given, hbuild, hgiven, rfl, _, _, hdefault, hperiods⟩ := h
  exact resolve_of_build hbuild hgiven hperiods hcanonical hdefault htext legacyStatus

/-- The periods of a source read like the changes they were cut out of. -/
theorem valueAt_of_evidence {evidence : List RawEvidence} {provenance : JsValue}
    {source : VerificationSource}
    (h : verificationPeriodsFromObservationEvidence dateParse evidence provenance = .ok source) :
    source.defaultStatus = .P ∧ (∀ p ∈ source.periods, HasCanonicalBounds dateParse p) ∧
      ∃ items, List.Forall₂ (fun e item ↦ readEvidence dateParse e = .ok item) evidence items ∧
        (∀ item ∈ items, lastValue items item.1 = some item.2) ∧
        ∀ t, valueAt source.periods t = lastValue items t := by
  rw [verificationPeriodsFromObservationEvidence] at h
  obtain ⟨state, hstate, h⟩ := Except.bind_eq_ok_iff.mp h
  obtain ⟨_, _, h⟩ := Except.bind_eq_ok_iff.mp h
  obtain ⟨periods, hperiods, h⟩ := Except.bind_eq_ok_iff.mp h
  cases h
  obtain ⟨items, hitems, htracks⟩ := tracking_of_ok ((foldlM_addEvidence_eq_ok_iff 0).mp hstate)
  obtain ⟨hcanonical, hvalue⟩ := valueAt_normalize_raw
    (hasCanonicalBounds_periodsOf htracks.canonical) hperiods
  refine ⟨rfl, hcanonical, items, hitems, htracks.own, fun t ↦ ?_⟩
  rw [hvalue t, valueAt_periodsOf htracks.ordered t, htracks.values t]

/-- A reader of the two midnights around a day. -/
def midnights : DateParse := fun text ↦
  if text = "2024-01-01T00:00:00.000Z" then some 1704067200000
  else if text = "2024-01-02T00:00:00.000Z" then some 1704153600000
  else none

def ratifiedDay : List RawEvidence :=
  [⟨.str "2024-01-01T00:00:00.000Z", .str "R"⟩, ⟨.str "2024-01-02T00:00:00.000Z", .str "P"⟩]

def ratifiedDaySource : VerificationSource where
  sourceVerificationModel := perObservationModel
  semanticSourceProvenance := .obj []
  defaultStatus := .P
  periods := [⟨some "2024-01-01T00:00:00.000Z", some "2024-01-02T00:00:00.000Z", .R⟩,
    ⟨some "2024-01-02T00:00:00.000Z", none, .P⟩]

end UkAqOps.Verification

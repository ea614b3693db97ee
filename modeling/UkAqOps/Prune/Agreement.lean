import UkAqOps.Prune.Batch

/-!
# Candidates and gates after a batch

Whether every candidate of a batch agrees with its gate at the end depends on one thing: no
completion that took effect may be followed by a mark that takes effect. `Remarked` says when such a
mark is made, in terms of the answers: for a completion that was not acknowledged, and for every
candidate once a mark or a day block has failed.

A mark leaves the gates alone and the candidate not complete, so the argument follows the candidate
rows through the loops: `Marks` is what a loop of marks does to them.
-/

namespace UkAqOps.Prune

variable {host : Host} {runId : String} {answers : BatchAnswers} {t : Tables}
variable {batch ps : List Publication}

/-! ## The condition on the answers -/

/-- The update took effect. -/
def QueryAnswer.Applied : QueryAnswer → Prop
  | done => True
  | failed applied _ => applied = true

/-- The completion of the candidate at a position takes effect, once the run is final. -/
def CommitsAt (host : Host) (t : Tables) (runId : String) (answers : BatchAnswers) (i : ℕ)
    (p : Publication) : Prop :=
  Commits host t p runId (answers.completion i)

def AcknowledgedAt (host : Host) (t : Tables) (runId : String) (answers : BatchAnswers) (i : ℕ)
    (p : Publication) : Prop :=
  Acknowledged host t p runId (answers.completion i)

/-- Among the days, one that can be neither finalized nor blocked is reached. -/
def DayThrows (answers : BatchAnswers) (days : List String) : Prop :=
  ∃ k < days.length, (∃ e, answers.finalizeDayGate k = .error e) ∧
    answers.blockDayGate k ≠ .done ∧
    ∀ l < k, answers.finalizeDayGate l = .ok () ∨
      ∃ e, answers.finalizeDayGate l = .error e ∧ e.budget = false ∧ answers.blockDayGate l = .done

/-- The mark of a completion that was not acknowledged fails, or a day throws. -/
def BatchThrows (host : Host) (t : Tables) (runId : String) (answers : BatchAnswers)
    (batch : List Publication) (days : List String) : Prop :=
  (∃ i p, batch[i]? = some p ∧ ¬ AcknowledgedAt host t runId answers i p ∧
    answers.markFailed i ≠ .done) ∨ DayThrows answers days

/-- A mark of the candidate at a position is made and takes effect. -/
def Remarked (host : Host) (t : Tables) (runId : String) (answers : BatchAnswers)
    (batch : List Publication) (days : List String) (i : ℕ) (p : Publication) : Prop :=
  (¬ AcknowledgedAt host t runId answers i p ∧
    (∀ j q, j < i → batch[j]? = some q → ¬ AcknowledgedAt host t runId answers j q →
      answers.markFailed j = .done) ∧ (answers.markFailed i).Applied) ∨
  (BatchThrows host t runId answers batch days ∧
    (∀ j < i, answers.remark j = .done ∧ answers.reblock j = .done) ∧ (answers.remark i).Applied)

/-- No completion that takes effect is followed by a mark that does. -/
def KeepsCompletions (host : Host) (t : Tables) (runId : String) (answers : BatchAnswers)
    (batch : List Publication) : Prop :=
  ∀ days, answers.finalizer = .ok days → ∀ i p, batch[i]? = some p →
    CommitsAt host t runId answers i p → ¬ Remarked host t runId answers batch days i p

/-! ## What is to hold at the end -/

/-- Every candidate of the batch agrees with its gate, a completion that took effect still stands,
and only such candidates are counted as completed. -/
structure Settled (host : Host) (t : Tables) (runId : String) (answers : BatchAnswers)
    (batch : List Publication) (before : PhaseBSummary) (outcome : BatchOutcome) : Prop where
  agrees : ∀ p ∈ batch, Agrees outcome.tables p.key
  stands : ∀ days, answers.finalizer = .ok days → ∀ i p, batch[i]? = some p →
    CommitsAt host t runId answers i p →
      ∃ rows, stagedRows host t p runId (answers.completion i) = .ok rows ∧
        outcome.tables.candidates p.key = some rows.1
  counted : ∀ key ∈ outcome.summary.completedCandidates, key ∈ before.completedCandidates ∨
    ∃ days i p, answers.finalizer = .ok days ∧ batch[i]? = some p ∧ p.key = key ∧
      CommitsAt host t runId answers i p

/-! ## Marks -/

/-- From `t` to `t'` the rows of the marked keys became incomplete, and nothing else changed. -/
structure Marks (marked : PairKey → Prop) (t t' : Tables) : Prop where
  gates : t'.gates = t.gates
  of_marked : ∀ key, marked key → ∃ row, t'.candidates key = some row ∧ row.status ≠ "complete"
  of_not : ∀ key, ¬ marked key → t'.candidates key = t.candidates key

theorem Marks.refl {marked : PairKey → Prop} (h : ∀ key, ¬ marked key) : Marks marked t t :=
  ⟨rfl, fun key hkey ↦ absurd hkey (h key), fun _ _ ↦ rfl⟩

theorem Marks.trans {marked marked' : PairKey → Prop} {t' t'' : Tables} (h : Marks marked t t')
    (h' : Marks marked' t' t'') : Marks (fun key ↦ marked key ∨ marked' key) t t'' := by
  refine ⟨h'.gates.trans h.gates, ?_, ?_⟩
  · intro key hkey
    by_cases hmarked : marked' key
    · exact h'.of_marked key hmarked
    · rw [h'.of_not key hmarked]
      exact h.of_marked key (hkey.resolve_right hmarked)
  · intro key hkey
    rw [not_or] at hkey
    rw [h'.of_not key hkey.2, h.of_not key hkey.1]

theorem Marks.congr {marked marked' : PairKey → Prop} {t' : Tables} (h : Marks marked t t')
    (hiff : ∀ key, marked key ↔ marked' key) : Marks marked' t t' :=
  ⟨h.gates, fun key hkey ↦ h.of_marked key ((hiff key).2 hkey),
    fun key hkey ↦ h.of_not key (mt (hiff key).1 hkey)⟩

/-- Marks leave a row behind wherever there was one. -/
theorem Marks.isSome {marked : PairKey → Prop} {t' : Tables} (h : Marks marked t t') {key : PairKey}
    (hkey : (t.candidates key).isSome) : (t'.candidates key).isSome := by
  by_cases hmarked : marked key
  · obtain ⟨row, hrow, -⟩ := h.of_marked key hmarked
    rw [hrow]
    rfl
  · rw [h.of_not key hmarked]
    exact hkey

theorem marks_updateCandidate {key : PairKey} {f : StoredCandidate → StoredCandidate}
    {answer : QueryAnswer} (hf : ∀ row, (f row).status ≠ "complete")
    (hkey : (t.candidates key).isSome) :
    Marks (fun k ↦ k = key ∧ answer.Applied) t (updateCandidate t key f answer).2 := by
  obtain ⟨row, hrow⟩ := Option.isSome_iff_exists.1 hkey
  have happlied : Marks (fun k ↦ k = key) t (t.setCandidate key (f row)) := by
    refine ⟨rfl, ?_, ?_⟩
    · rintro k rfl
      exact ⟨f row, Function.update_self .., hf row⟩
    · intro k hk
      exact Function.update_of_ne hk ..
  rcases answer with _ | ⟨_ | _, message⟩
  · simp only [updateCandidate, hrow]
    exact happlied.congr fun k ↦ by simp [QueryAnswer.Applied]
  · exact Marks.refl fun k hk ↦ Bool.false_ne_true hk.2
  · simp only [updateCandidate, hrow]
    exact happlied.congr fun k ↦ by simp [QueryAnswer.Applied]

theorem status_failed (row : StoredCandidate) (errorText : String) :
    (row.failed runId errorText).status ≠ "complete" :=
  show "failed" ≠ "complete" from by decide

theorem status_stoppedForBudget (row : StoredCandidate) (errorText : String) :
    (row.stoppedForBudget runId errorText).status ≠ "complete" :=
  show "pending" ≠ "complete" from by decide

/-- A mark of a row that is there: what it does, and when it throws. -/
theorem markCandidateFailed_spec {p : Publication} {errorText : String} {answer : QueryAnswer}
    (hkey : (t.candidates p.key).isSome) :
    Marks (fun k ↦ k = p.key ∧ answer.Applied) t
        (markCandidateFailed t p runId errorText answer).2 ∧
      ((markCandidateFailed t p runId errorText answer).1 = .ok () ↔ answer = .done) := by
  have hmarks := @marks_updateCandidate t p.key (fun row ↦ row.failed runId errorText) answer
    (fun row ↦ status_failed row errorText) hkey
  obtain ⟨row, hrow⟩ := Option.isSome_iff_exists.1 hkey
  rw [markCandidateFailed]
  rcases answer with _ | ⟨_ | _, message⟩
  · simp only [updateCandidate, hrow] at hmarks ⊢
    exact ⟨hmarks, by simp⟩
  · exact ⟨hmarks, by simp [updateCandidate]⟩
  · exact ⟨hmarks, by simp [updateCandidate]⟩

theorem remark_spec {e : BatchError} {p : Publication} {answer : QueryAnswer}
    (hkey : (t.candidates p.key).isSome) :
    Marks (fun k ↦ k = p.key ∧ answer.Applied) t (remark runId e p answer t).2 ∧
      ((remark runId e p answer t).1 = .ok () ↔ answer = .done) := by
  rw [remark]
  split
  · have hmarks := @marks_updateCandidate t p.key (fun row ↦ row.stoppedForBudget runId e.message)
      answer (fun row ↦ status_stoppedForBudget row e.message) hkey
    rw [markCandidateStoppedForBudget]
    rcases answer with _ | ⟨_ | _, message⟩
    · exact ⟨hmarks, by simp [updateCandidate]⟩
    · exact ⟨hmarks, by simp [updateCandidate]⟩
    · exact ⟨hmarks, by simp [updateCandidate]⟩
  · exact markCandidateFailed_spec hkey

/-! ## The loops -/

/-- The marks of the failed completions: each is made when the ones before it were answered well. -/
theorem recordGateFailures_spec (fs : List (ℕ × Publication × String)) :
    ∀ (t : Tables) (summary : PhaseBSummary), fs.Pairwise (fun f g ↦ f.1 < g.1) →
      (∀ f ∈ fs, (t.candidates f.2.1.key).isSome) →
      Marks (fun key ↦ ∃ f ∈ fs, f.2.1.key = key ∧
          (∀ g ∈ fs, g.1 < f.1 → answers.markFailed g.1 = .done) ∧
          (answers.markFailed f.1).Applied)
        t (recordGateFailures runId answers fs t summary).2.1 ∧
      ((∃ e, (recordGateFailures runId answers fs t summary).1 = .error e) ↔
        ∃ f ∈ fs, answers.markFailed f.1 ≠ .done) ∧
      (recordGateFailures runId answers fs t summary).2.2.completedCandidates =
        summary.completedCandidates := by
  induction fs with
  | nil =>
    intro t summary _ _
    refine ⟨Marks.refl fun key ⟨f, hf, _⟩ ↦ List.not_mem_nil hf, ?_, rfl⟩
    simp [recordGateFailures]
  | cons f fs ih =>
    intro t summary hsorted hrows
    obtain ⟨position, p, message⟩ := f
    obtain ⟨hhead, hsorted⟩ := List.pairwise_cons.1 hsorted
    have hkey : (t.candidates p.key).isSome := hrows _ (List.mem_cons_self ..)
    obtain ⟨hmarks, hok⟩ := @markCandidateFailed_spec runId t p (gateFailureText p runId message)
      (answers.markFailed position) hkey
    rw [recordGateFailures]
    generalize hmark : markCandidateFailed t p runId (gateFailureText p runId message)
      (answers.markFailed position) = marked at hmarks hok ⊢
    obtain ⟨result, t'⟩ := marked
    rcases result with e | _
    · have hnot : answers.markFailed position ≠ .done := fun h ↦ nomatch hok.2 h
      refine ⟨hmarks.congr fun key ↦ ⟨?_, ?_⟩, ?_, rfl⟩
      · rintro ⟨rfl, happlied⟩
        refine ⟨(position, p, message), List.mem_cons_self .., rfl, ?_, happlied⟩
        intro g hg hlt
        rcases List.mem_cons.1 hg with rfl | hg
        · exact absurd hlt (lt_irrefl _)
        · exact absurd hlt (lt_asymm (hhead g hg))
      · rintro ⟨g, hg, hgkey, hreached, happlied⟩
        rcases List.mem_cons.1 hg with rfl | hg
        · exact ⟨hgkey.symm, happlied⟩
        · exact absurd (hreached _ (List.mem_cons_self ..) (hhead g hg)) hnot
      · exact iff_of_true ⟨_, rfl⟩ ⟨_, List.mem_cons_self .., hnot⟩
    · have hdone : answers.markFailed position = .done := hok.1 rfl
      have hrows' : ∀ g ∈ fs, (t'.candidates g.2.1.key).isSome := fun g hg ↦
        hmarks.isSome (hrows g (List.mem_cons_of_mem _ hg))
      obtain ⟨hrest, herror, hcompleted⟩ := ih t' { summary with
        failures := summary.failures ++ [⟨p.key, message,
          "review_original_publication_evidence_before_gate_only_recovery"⟩] } hsorted hrows'
      refine ⟨(hmarks.trans hrest).congr fun key ↦ ⟨?_, ?_⟩, ?_, hcompleted⟩
      · rintro (⟨rfl, happlied⟩ | ⟨g, hg, hgkey, hreached, happlied⟩)
        · refine ⟨(position, p, message), List.mem_cons_self .., rfl, ?_, happlied⟩
          intro g hg hlt
          rcases List.mem_cons.1 hg with rfl | hg
          · exact absurd hlt (lt_irrefl _)
          · exact absurd hlt (lt_asymm (hhead g hg))
        · refine ⟨g, List.mem_cons_of_mem _ hg, hgkey, ?_, happlied⟩
          intro g' hg' hlt
          rcases List.mem_cons.1 hg' with rfl | hg'
          · exact hdone
          · exact hreached g' hg' hlt
      · rintro ⟨g, hg, hgkey, hreached, happlied⟩
        rcases List.mem_cons.1 hg with rfl | hg
        · exact Or.inl ⟨hgkey.symm, happlied⟩
        · exact Or.inr ⟨g, hg, hgkey,
            fun g' hg' ↦ hreached g' (List.mem_cons_of_mem _ hg'), happlied⟩
      · rw [herror]
        constructor
        · rintro ⟨g, hg, hnot⟩
          exact ⟨g, List.mem_cons_of_mem _ hg, hnot⟩
        · rintro ⟨g, hg, hnot⟩
          rcases List.mem_cons.1 hg with rfl | hg
          · exact absurd hdone hnot
          · exact ⟨g, hg, hnot⟩

/-- The marks of the handler: each is made when every query before it was answered well. -/
theorem remarkBatch_spec {e : BatchError} (ps : List Publication) :
    ∀ (position : ℕ) (t : Tables) (summary : PhaseBSummary),
      (∀ p ∈ ps, (t.candidates p.key).isSome) →
      Marks (fun key ↦ ∃ k p, ps[k]? = some p ∧ p.key = key ∧
          (∀ j < k, answers.remark (position + j) = .done ∧
            answers.reblock (position + j) = .done) ∧ (answers.remark (position + k)).Applied)
        t (remarkBatch runId answers e position ps t summary).2.1 ∧
      (remarkBatch runId answers e position ps t summary).2.2.completedCandidates =
        summary.completedCandidates := by
  induction ps with
  | nil =>
    intro position t summary _
    refine ⟨Marks.refl ?_, rfl⟩
    rintro key ⟨k, p, hk, -⟩
    exact nomatch hk
  | cons p ps ih =>
    intro position t summary hrows
    have hkey : (t.candidates p.key).isSome := hrows p (List.mem_cons_self ..)
    obtain ⟨hmarks, hok⟩ := @remark_spec runId t e p (answers.remark position) hkey
    -- of the keys to be marked, the head's is the one at index zero
    have hcons : ∀ (rest : PairKey → Prop), (∀ key, rest key ↔
        (answers.remark position = .done ∧ answers.reblock position = .done) ∧
          ∃ k q, ps[k]? = some q ∧ q.key = key ∧
            (∀ j < k, answers.remark (position + 1 + j) = .done ∧
              answers.reblock (position + 1 + j) = .done) ∧
            (answers.remark (position + 1 + k)).Applied) →
        ∀ key, ((key = p.key ∧ (answers.remark position).Applied) ∨ rest key) ↔
          ∃ k q, (p :: ps)[k]? = some q ∧ q.key = key ∧
            (∀ j < k, answers.remark (position + j) = .done ∧
              answers.reblock (position + j) = .done) ∧
            (answers.remark (position + k)).Applied := by
      intro rest hrest key
      rw [hrest]
      constructor
      · rintro (⟨rfl, happlied⟩ | ⟨hdone, k, q, hq, hqkey, hreached, happlied⟩)
        · exact ⟨0, p, rfl, rfl, fun j hj ↦ absurd hj (Nat.not_lt_zero j), happlied⟩
        · refine ⟨k + 1, q, hq, hqkey, ?_, ?_⟩
          · intro j hj
            rcases j with _ | j
            · exact hdone
            · rw [← show position + 1 + j = position + (j + 1) from by omega]
              exact hreached j (by omega)
          · rw [← show position + 1 + k = position + (k + 1) from by omega]
            exact happlied
      · rintro ⟨k, q, hq, hqkey, hreached, happlied⟩
        rcases k with _ | k
        · rw [List.getElem?_cons_zero, Option.some.injEq] at hq
          subst hq
          exact Or.inl ⟨hqkey.symm, happlied⟩
        · refine Or.inr ⟨hreached 0 (by omega), k, q, hq, hqkey, ?_, ?_⟩
          · intro j hj
            rw [show position + 1 + j = position + (j + 1) from by omega]
            exact hreached (j + 1) (by omega)
          · rw [show position + 1 + k = position + (k + 1) from by omega]
            exact happlied
    rw [remarkBatch]
    generalize remark runId e p (answers.remark position) t = marked at hmarks hok ⊢
    obtain ⟨result, t'⟩ := marked
    rcases result with message | _
    · have hnot : answers.remark position ≠ .done := fun h ↦ nomatch hok.2 h
      refine ⟨hmarks.congr fun key ↦ ?_, rfl⟩
      rw [← hcons (fun _ ↦ False) (fun key ↦ by simp [hnot]) key, or_false]
    · have hdone : answers.remark position = .done := hok.1 rfl
      dsimp only
      rcases hblock : answers.reblock position with _ | ⟨applied, message⟩
      · have hrows' : ∀ q ∈ ps, (t'.candidates q.key).isSome := fun q hq ↦
          hmarks.isSome (hrows q (List.mem_cons_of_mem _ hq))
        obtain ⟨hrest, hcompleted⟩ := ih (position + 1) t' (if e.budget then summary else
          { summary with failures :=
            summary.failures ++ [⟨p.key, e.message, "retry_run_finalization"⟩] }) hrows'
        refine ⟨(hmarks.trans hrest).congr (hcons _ fun key ↦ ?_), ?_⟩
        · simp only [hdone, hblock, and_self, true_and]
        · rw [hcompleted]
          split <;> rfl
      · refine ⟨hmarks.congr fun key ↦ ?_, ?_⟩
        · rw [← hcons (fun _ ↦ False) (fun key ↦ by simp [hblock]) key, or_false]
        · dsimp only
          split <;> rfl

theorem finalizeDays_spec (days : List String) :
    ∀ (position : ℕ) (summary : PhaseBSummary),
      ((∃ e, (finalizeDays answers position days summary).1 = .error e) ↔
        ∃ k < days.length, (∃ e, answers.finalizeDayGate (position + k) = .error e) ∧
          answers.blockDayGate (position + k) ≠ .done ∧
          ∀ l < k, answers.finalizeDayGate (position + l) = .ok () ∨
            ∃ e, answers.finalizeDayGate (position + l) = .error e ∧ e.budget = false ∧
              answers.blockDayGate (position + l) = .done) ∧
      (finalizeDays answers position days summary).2.completedCandidates =
        summary.completedCandidates := by
  induction days with
  | nil =>
    intro position summary
    refine ⟨iff_of_false ?_ ?_, rfl⟩
    · rintro ⟨e, h⟩
      exact nomatch h
    · rintro ⟨k, hk, -⟩
      exact absurd hk (Nat.not_lt_zero k)
  | cons dayUtc days ih =>
    intro position summary
    -- a day that was passed leaves the question to the days after it
    have hpassed : ∀ P : Prop,
        (answers.finalizeDayGate position = .ok () ∨
          ∃ e, answers.finalizeDayGate position = .error e ∧ e.budget = false ∧
            answers.blockDayGate position = .done) →
        (P ↔ ∃ k < days.length, (∃ e, answers.finalizeDayGate (position + 1 + k) = .error e) ∧
          answers.blockDayGate (position + 1 + k) ≠ .done ∧
          ∀ l < k, answers.finalizeDayGate (position + 1 + l) = .ok () ∨
            ∃ e, answers.finalizeDayGate (position + 1 + l) = .error e ∧ e.budget = false ∧
              answers.blockDayGate (position + 1 + l) = .done) →
        (P ↔ ∃ k < (dayUtc :: days).length,
          (∃ e, answers.finalizeDayGate (position + k) = .error e) ∧
          answers.blockDayGate (position + k) ≠ .done ∧
          ∀ l < k, answers.finalizeDayGate (position + l) = .ok () ∨
            ∃ e, answers.finalizeDayGate (position + l) = .error e ∧ e.budget = false ∧
              answers.blockDayGate (position + l) = .done) := by
      intro P hpass hP
      rw [hP]
      have hshift : ∀ k, position + 1 + k = position + (k + 1) := fun k ↦ by omega
      constructor
      · rintro ⟨k, hk, herror, hblock, hbefore⟩
        rw [hshift] at herror hblock
        refine ⟨k + 1, Nat.succ_lt_succ hk, herror, hblock, ?_⟩
        intro l hl
        rcases l with _ | l
        · exact hpass
        · rw [← hshift]
          exact hbefore l (by omega)
      · rintro ⟨k, hk, herror, hblock, hbefore⟩
        rcases k with _ | k
        · rcases hpass with hok | ⟨e, -, -, hdone⟩
          · obtain ⟨e, herror⟩ := herror
            rw [Nat.add_zero, hok] at herror
            exact nomatch herror
          · exact absurd hdone hblock
        · rw [← hshift] at herror hblock
          refine ⟨k, Nat.lt_of_succ_lt_succ hk, herror, hblock, ?_⟩
          intro l hl
          rw [hshift]
          exact hbefore (l + 1) (by omega)
    rw [finalizeDays]
    rcases hday : answers.finalizeDayGate position with e | _
    · dsimp only
      rcases hblock : answers.blockDayGate position with _ | ⟨applied, message⟩
      · dsimp only
        by_cases hbudget : e.budget = true
        · rw [if_pos hbudget]
          refine ⟨iff_of_false ?_ ?_, rfl⟩
          · rintro ⟨e', h⟩
            exact nomatch h
          · rintro ⟨k, -, -, hnot, hbefore⟩
            rcases k with _ | k
            · exact hnot hblock
            · rcases hbefore 0 (by omega) with hok | ⟨e', he', hfalse, -⟩
              · rw [Nat.add_zero, hday] at hok
                exact nomatch hok
              · rw [Nat.add_zero, hday, Except.error.injEq] at he'
                rw [← he', hbudget] at hfalse
                exact nomatch hfalse
        · rw [if_neg hbudget]
          have hrest := ih (position + 1) { summary with
            aggregateDayFailures := summary.aggregateDayFailures ++ [([dayUtc], e.message)] }
          exact ⟨hpassed _ (Or.inr ⟨e, hday, by simpa using hbudget, hblock⟩) hrest.1, hrest.2⟩
      · refine ⟨iff_of_true ⟨_, rfl⟩ ?_, rfl⟩
        exact ⟨0, Nat.succ_pos _, ⟨e, hday⟩, fun h ↦ (nomatch hblock.symm.trans h : False),
          fun l hl ↦ absurd hl (Nat.not_lt_zero l)⟩
    · exact ⟨hpassed _ (Or.inl hday) (ih (position + 1) summary).1, (ih (position + 1) summary).2⟩

/-! ## The completions -/

theorem commits_congr {t' : Tables} {p : Publication} {i : ℕ}
    (h : t.candidates p.key = t'.candidates p.key) :
    (CommitsAt host t runId answers i p ↔ CommitsAt host t' runId answers i p) ∧
      (AcknowledgedAt host t runId answers i p ↔ AcknowledgedAt host t' runId answers i p) := by
  rw [AcknowledgedAt, AcknowledgedAt, Acknowledged, Acknowledged, CommitsAt, CommitsAt, Commits,
    Commits, stagedRows_congr h]
  exact ⟨Iff.rfl, Iff.rfl⟩

/-- What completing some publications one after the other comes to. -/
structure Completes (host : Host) (t : Tables) (runId : String) (answers : BatchAnswers)
    (position : ℕ) (ps : List Publication) (finalized : Finalized) (t' : Tables) : Prop where
  rows : ∀ k p, ps[k]? = some p →
    (CommitsAt host t runId answers (position + k) p ∧
      ∃ rows, stagedRows host t p runId (answers.completion (position + k)) = .ok rows ∧
        t'.candidates p.key = some rows.1 ∧ t'.gates p.key = some rows.2) ∨
    (¬ CommitsAt host t runId answers (position + k) p ∧
      t'.candidates p.key = t.candidates p.key ∧ t'.gates p.key = t.gates p.key)
  elsewhere : ∀ key, (∀ p ∈ ps, p.key ≠ key) →
    t'.candidates key = t.candidates key ∧ t'.gates key = t.gates key
  completed : ∀ p ∈ finalized.completed,
    ∃ k, ps[k]? = some p ∧ AcknowledgedAt host t runId answers (position + k) p
  failed : ∀ f ∈ finalized.gateFailures, ∃ k, f.1 = position + k ∧ ps[k]? = some f.2.1 ∧
    ¬ AcknowledgedAt host t runId answers (position + k) f.2.1
  all_failed : ∀ k p, ps[k]? = some p → ¬ AcknowledgedAt host t runId answers (position + k) p →
    ∃ message, (position + k, p, message) ∈ finalized.gateFailures
  sorted : finalized.gateFailures.Pairwise fun f g ↦ f.1 < g.1

/-- The transaction of one candidate, followed by those of the candidates after it. -/
theorem Completes.cons {position : ℕ} {p : Publication} {rest finalized : Finalized}
    {t₁ t' : Tables} (hp : ∀ q ∈ ps, q.key ≠ p.key)
    (htables : (markCandidateAndConnectorGateComplete host t p runId
      (answers.completion position)).2 = t₁)
    (h : Completes host t₁ runId answers (position + 1) ps rest t')
    (hlists : (AcknowledgedAt host t runId answers position p ∧
        finalized = { rest with completed := p :: rest.completed }) ∨
      (¬ AcknowledgedAt host t runId answers position p ∧ ∃ message,
        finalized = { rest with gateFailures := (position, p, message) :: rest.gateFailures })) :
    Completes host t runId answers position (p :: ps) finalized t' := by
  have hshift : ∀ k, position + 1 + k = position + (k + 1) := fun k ↦ by omega
  -- the transaction leaves every other key alone
  have hother : ∀ key, key ≠ p.key → t₁.candidates key = t.candidates key ∧
      t₁.gates key = t.gates key := by
    intro key hkey
    rcases @complete_tables host t p runId (answers.completion position) with
      ⟨candidate, gate, -, -, heq⟩ | ⟨-, heq⟩
    · rw [← htables, heq]
      exact ⟨Function.update_of_ne hkey .., Function.update_of_ne hkey ..⟩
    · rw [← htables, heq]
      exact ⟨rfl, rfl⟩
  have hcongr : ∀ q ∈ ps, ∀ j,
      (CommitsAt host t runId answers j q ↔ CommitsAt host t₁ runId answers j q) ∧
        (AcknowledgedAt host t runId answers j q ↔ AcknowledgedAt host t₁ runId answers j q) :=
    fun q hq j ↦ commits_congr (hother q.key (hp q hq)).1.symm
  have hhead := h.elsewhere p.key hp
  refine ⟨?_, ?_, ?_, ?_, ?_, ?_⟩
  · intro k q hq
    rcases k with _ | k
    · rw [List.getElem?_cons_zero, Option.some.injEq] at hq
      subst hq
      rw [hhead.1, hhead.2, Nat.add_zero]
      rcases @complete_tables host t p runId (answers.completion position) with
        ⟨candidate, gate, hstaged, hcommits, heq⟩ | ⟨hnot, heq⟩
      · refine Or.inl ⟨hcommits, (candidate, gate), hstaged, ?_, ?_⟩
        · rw [← htables, heq]
          exact Function.update_self ..
        · rw [← htables, heq]
          exact Function.update_self ..
      · refine Or.inr ⟨hnot, ?_, ?_⟩
        · rw [← htables, heq]
        · rw [← htables, heq]
    · have hmem : q ∈ ps := List.mem_of_getElem? hq
      have hq' := hother q.key (hp q hmem)
      rw [← hq'.1, ← hq'.2, (hcongr q hmem _).1, ← hshift, stagedRows_congr hq'.1.symm]
      exact h.rows k q hq
  · intro key hkey
    have hrest := h.elsewhere key fun q hq ↦ hkey q (List.mem_cons_of_mem _ hq)
    have hne := hother key (hkey p (List.mem_cons_self ..)).symm
    exact ⟨hrest.1.trans hne.1, hrest.2.trans hne.2⟩
  · have hrest : ∀ q ∈ rest.completed,
        ∃ k, (p :: ps)[k]? = some q ∧ AcknowledgedAt host t runId answers (position + k) q := by
      intro q hq
      obtain ⟨k, hk, hack⟩ := h.completed q hq
      refine ⟨k + 1, hk, ?_⟩
      rw [(hcongr q (List.mem_of_getElem? hk) _).2, ← hshift]
      exact hack
    rcases hlists with ⟨hack, rfl⟩ | ⟨-, message, rfl⟩
    · intro q hq
      rcases List.mem_cons.1 hq with rfl | hq
      · exact ⟨0, rfl, hack⟩
      · exact hrest q hq
    · exact hrest
  · have hrest : ∀ f ∈ rest.gateFailures, ∃ k, f.1 = position + k ∧ (p :: ps)[k]? = some f.2.1 ∧
        ¬ AcknowledgedAt host t runId answers (position + k) f.2.1 := by
      intro f hf
      obtain ⟨k, hposition, hk, hack⟩ := h.failed f hf
      refine ⟨k + 1, by omega, hk, ?_⟩
      rw [(hcongr f.2.1 (List.mem_of_getElem? hk) _).2, ← hshift]
      exact hack
    rcases hlists with ⟨-, rfl⟩ | ⟨hack, message, rfl⟩
    · exact hrest
    · intro f hf
      rcases List.mem_cons.1 hf with rfl | hf
      · exact ⟨0, rfl, rfl, hack⟩
      · exact hrest f hf
  · intro k q hq hnot
    rcases k with _ | k
    · rw [List.getElem?_cons_zero, Option.some.injEq] at hq
      subst hq
      rcases hlists with ⟨hack, -⟩ | ⟨-, message, rfl⟩
      · exact absurd hack hnot
      · exact ⟨message, List.mem_cons_self ..⟩
    · rw [(hcongr q (List.mem_of_getElem? hq) _).2, ← hshift] at hnot
      obtain ⟨message, hmem⟩ := h.all_failed k q hq hnot
      refine ⟨message, ?_⟩
      rw [← hshift]
      rcases hlists with ⟨-, rfl⟩ | ⟨-, _, rfl⟩
      · exact hmem
      · exact List.mem_cons_of_mem _ hmem
  · rcases hlists with ⟨-, rfl⟩ | ⟨-, message, rfl⟩
    · exact h.sorted
    · refine List.pairwise_cons.2 ⟨?_, h.sorted⟩
      intro f hf
      obtain ⟨k, hk, -⟩ := h.failed f hf
      dsimp only
      omega

theorem completes_completeAll (ps : List Publication) :
    ∀ (position : ℕ) (t : Tables), (ps.map Publication.key).Nodup →
      Completes host t runId answers position ps
        (completeAll host runId answers position ps t).1
        (completeAll host runId answers position ps t).2 := by
  induction ps with
  | nil =>
    intro position t _
    refine ⟨?_, fun key _ ↦ ⟨rfl, rfl⟩, ?_, ?_, ?_, List.Pairwise.nil⟩
    · intro k p hk
      exact nomatch hk
    · intro p hp
      exact nomatch hp
    · intro f hf
      exact nomatch hf
    · intro k p hk
      exact nomatch hk
  | cons p ps ih =>
    intro position t hnodup
    rw [List.map_cons, List.nodup_cons] at hnodup
    have hp : ∀ q ∈ ps, q.key ≠ p.key := fun q hq heq ↦
      hnodup.1 (heq ▸ List.mem_map_of_mem hq)
    have hok := @complete_ok_iff host t p runId (answers.completion position)
    rw [completeAll]
    rcases hresult : markCandidateAndConnectorGateComplete host t p runId
      (answers.completion position) with ⟨message | _, t₁⟩
    · rw [hresult] at hok
      have hrest := ih (position + 1) t₁ hnodup.2
      refine Completes.cons hp (by rw [hresult]) hrest (Or.inr ⟨?_, message, rfl⟩)
      intro hack
      exact nomatch hok.2 hack
    · rw [hresult] at hok
      have hrest := ih (position + 1) t₁ hnodup.2
      exact Completes.cons hp (by rw [hresult]) hrest (Or.inl ⟨hok.1 rfl, rfl⟩)

/-! ## The batch -/

section Failures

variable {finalized : Finalized} {t₁ : Tables}

theorem exists_gateFailure_iff (h : Completes host t runId answers 0 batch finalized t₁)
    {P : ℕ → Publication → Prop} :
    (∃ f ∈ finalized.gateFailures, P f.1 f.2.1) ↔
      ∃ i p, batch[i]? = some p ∧ ¬ AcknowledgedAt host t runId answers i p ∧ P i p := by
  constructor
  · rintro ⟨f, hf, hP⟩
    obtain ⟨k, hk, hp, hnot⟩ := h.failed f hf
    rw [Nat.zero_add] at hk hnot
    rw [hk] at hP
    exact ⟨k, f.2.1, hp, hnot, hP⟩
  · rintro ⟨i, p, hp, hnot, hP⟩
    obtain ⟨message, hmem⟩ := h.all_failed i p hp (by rwa [Nat.zero_add])
    rw [Nat.zero_add] at hmem
    exact ⟨_, hmem, hP⟩

/-- The keys that the marks of the failed completions reach. -/
theorem gateFailure_marked_iff (h : Completes host t runId answers 0 batch finalized t₁)
    {key : PairKey} :
    (∃ f ∈ finalized.gateFailures, f.2.1.key = key ∧
        (∀ g ∈ finalized.gateFailures, g.1 < f.1 → answers.markFailed g.1 = .done) ∧
        (answers.markFailed f.1).Applied) ↔
      ∃ i p, batch[i]? = some p ∧ p.key = key ∧ ¬ AcknowledgedAt host t runId answers i p ∧
        (∀ j q, j < i → batch[j]? = some q → ¬ AcknowledgedAt host t runId answers j q →
          answers.markFailed j = .done) ∧ (answers.markFailed i).Applied := by
  have hbefore : ∀ i, (∀ g ∈ finalized.gateFailures, g.1 < i → answers.markFailed g.1 = .done) ↔
      ∀ j q, j < i → batch[j]? = some q → ¬ AcknowledgedAt host t runId answers j q →
        answers.markFailed j = .done := by
    intro i
    constructor
    · intro hall j q hj hq hnot
      obtain ⟨message, hmem⟩ := h.all_failed j q hq (by rwa [Nat.zero_add])
      rw [Nat.zero_add] at hmem
      exact hall _ hmem hj
    · intro hall g hg hlt
      obtain ⟨k, hk, hq, hnot⟩ := h.failed g hg
      rw [Nat.zero_add] at hk hnot
      rw [hk] at hlt ⊢
      exact hall k g.2.1 hlt hq hnot
  rw [exists_gateFailure_iff h (P := fun i p ↦ p.key = key ∧
    (∀ g ∈ finalized.gateFailures, g.1 < i → answers.markFailed g.1 = .done) ∧
    (answers.markFailed i).Applied)]
  refine exists_congr fun i ↦ exists_congr fun p ↦ and_congr_right fun _ ↦ ?_
  rw [hbefore i]
  exact and_left_comm

end Failures

/-- When the run is final: the completions, followed by the marks that `Remarked` names. -/
theorem exists_marks_of_final {days : List String} {before : PhaseBSummary}
    (hfinal : answers.finalizer = .ok days) (hne : batch ≠ [])
    (hnodup : (batch.map Publication.key).Nodup)
    (hrows : ∀ p ∈ batch, (t.candidates p.key).isSome) :
    ∃ finalized t₁, Completes host t runId answers 0 batch finalized t₁ ∧
      Marks (fun key ↦ ∃ i p, batch[i]? = some p ∧ p.key = key ∧
          Remarked host t runId answers batch days i p) t₁
        (finalizeAndRecordPublishedPhaseBBatch host runId answers batch t before).tables ∧
      (finalizeAndRecordPublishedPhaseBBatch host runId answers batch t
        before).summary.completedCandidates =
          before.completedCandidates ++ finalized.completed.map Publication.key := by
  have hcompletes := @completes_completeAll host runId answers batch 0 t hnodup
  generalize hall : completeAll host runId answers 0 batch t = all at hcompletes
  obtain ⟨finalized, t₁⟩ := all
  refine ⟨finalized, t₁, hcompletes, ?_⟩
  have hrows₁ : ∀ p ∈ batch, (t₁.candidates p.key).isSome := by
    intro p hp
    obtain ⟨i, hi⟩ := List.mem_iff_getElem?.1 hp
    rcases hcompletes.rows i p hi with ⟨-, rows, -, hrow, -⟩ | ⟨-, hrow, -⟩
    · rw [hrow]
      rfl
    · rw [hrow]
      exact hrows p hp
  set summary₁ : PhaseBSummary := { before with
    completedCandidates := before.completedCandidates ++ finalized.completed.map Publication.key }
    with hsummary₁
  obtain ⟨hmarks, hthrows, hcompleted⟩ := @recordGateFailures_spec runId answers
    finalized.gateFailures t₁ summary₁ hcompletes.sorted (by
      intro f hf
      obtain ⟨k, -, hp, -⟩ := hcompletes.failed f hf
      exact hrows₁ f.2.1 (List.mem_of_getElem? hp))
  have hmarks := hmarks.congr fun key ↦ gateFailure_marked_iff hcompletes
  rw [exists_gateFailure_iff hcompletes (P := fun i _ ↦ answers.markFailed i ≠ .done)] at hthrows
  -- the handler marks from the start of the batch, from whatever tables it finds
  have hhandler : ∀ (e : BatchError) (t₂ : Tables) (summary₂ : PhaseBSummary),
      BatchThrows host t runId answers batch days →
      Marks (fun key ↦ ∃ i p, batch[i]? = some p ∧ p.key = key ∧
        ¬ AcknowledgedAt host t runId answers i p ∧
        (∀ j q, j < i → batch[j]? = some q → ¬ AcknowledgedAt host t runId answers j q →
          answers.markFailed j = .done) ∧ (answers.markFailed i).Applied) t₁ t₂ →
      summary₂.completedCandidates = summary₁.completedCandidates →
      Marks (fun key ↦ ∃ i p, batch[i]? = some p ∧ p.key = key ∧
          Remarked host t runId answers batch days i p) t₁
        (remarkBatch runId answers e 0 batch t₂ summary₂).2.1 ∧
      (remarkBatch runId answers e 0 batch t₂ summary₂).2.2.completedCandidates =
        summary₁.completedCandidates := by
    intro e t₂ summary₂ hbatch hmarks₂ hcompleted₂
    obtain ⟨hremarks, hsame⟩ := @remarkBatch_spec runId answers e batch 0 t₂ summary₂
      fun p hp ↦ hmarks₂.isSome (hrows₁ p hp)
    refine ⟨(hmarks₂.trans hremarks).congr fun key ↦ ?_, hsame.trans hcompleted₂⟩
    simp only [Nat.zero_add, Remarked, hbatch, true_and]
    constructor
    · rintro (⟨i, p, hp, hkey, h⟩ | ⟨i, p, hp, hkey, h⟩)
      · exact ⟨i, p, hp, hkey, Or.inl h⟩
      · exact ⟨i, p, hp, hkey, Or.inr h⟩
    · rintro ⟨i, p, hp, hkey, h | h⟩
      · exact Or.inl ⟨i, p, hp, hkey, h⟩
      · exact Or.inr ⟨i, p, hp, hkey, h⟩
  rw [finalizeAndRecordPublishedPhaseBBatch, if_neg hne, finalizeBatch, hfinal]
  dsimp only
  rw [hall]
  dsimp only
  rw [← hsummary₁]
  generalize recordGateFailures runId answers finalized.gateFailures t₁ summary₁ = recorded
    at hmarks hthrows hcompleted ⊢
  obtain ⟨result, t₂, summary₂⟩ := recorded
  rcases result with e | _
  · obtain ⟨hfinalMarks, hfinalCompleted⟩ :=
      hhandler e t₂ summary₂ (Or.inl (hthrows.1 ⟨e, rfl⟩)) hmarks hcompleted
    dsimp only
    generalize remarkBatch runId answers e 0 batch t₂ summary₂ = remarked
      at hfinalMarks hfinalCompleted ⊢
    obtain ⟨_ | _, t₃, summary₃⟩ := remarked
    · exact ⟨hfinalMarks, hfinalCompleted⟩
    · refine ⟨hfinalMarks, Eq.trans ?_ hfinalCompleted⟩
      dsimp only
      split <;> rfl
  · obtain ⟨hdays, hdaysCompleted⟩ := @finalizeDays_spec answers days 0 summary₂
    simp only [Nat.zero_add] at hdays
    dsimp only
    generalize finalizeDays answers 0 days summary₂ = finished at hdays hdaysCompleted ⊢
    obtain ⟨result, summary₃⟩ := finished
    rcases result with e | _
    · obtain ⟨hfinalMarks, hfinalCompleted⟩ := hhandler e t₂ summary₃
        (Or.inr (hdays.1 ⟨e, rfl⟩)) hmarks (hdaysCompleted.trans hcompleted)
      dsimp only
      generalize remarkBatch runId answers e 0 batch t₂ summary₃ = remarked
        at hfinalMarks hfinalCompleted ⊢
      obtain ⟨_ | _, t₃, summary₄⟩ := remarked
      · exact ⟨hfinalMarks, hfinalCompleted⟩
      · refine ⟨hfinalMarks, Eq.trans ?_ hfinalCompleted⟩
        dsimp only
        split <;> rfl
    · refine ⟨hmarks.congr fun key ↦ ?_, hdaysCompleted.trans hcompleted⟩
      have hno : ¬ BatchThrows host t runId answers batch days := by
        rintro (h | h)
        · obtain ⟨_, h⟩ := hthrows.2 h
          exact nomatch h
        · obtain ⟨_, h⟩ := hdays.2 h
          exact nomatch h
      simp only [Remarked, hno, false_and, or_false]

/-- When the run is not final: nothing is completed, and the batch is marked. -/
theorem exists_marks_of_not_final {e : BatchError} {before : PhaseBSummary}
    (hfinal : answers.finalizer = .error e) (hne : batch ≠ [])
    (hrows : ∀ p ∈ batch, (t.candidates p.key).isSome) :
    (∃ marked, Marks marked t
        (finalizeAndRecordPublishedPhaseBBatch host runId answers batch t before).tables) ∧
      (finalizeAndRecordPublishedPhaseBBatch host runId answers batch t
        before).summary.completedCandidates = before.completedCandidates := by
  obtain ⟨hremarks, hsame⟩ := @remarkBatch_spec runId answers e batch 0 t before hrows
  rw [finalizeAndRecordPublishedPhaseBBatch, if_neg hne, finalizeBatch, hfinal]
  dsimp only
  generalize remarkBatch runId answers e 0 batch t before = remarked at hremarks hsame ⊢
  obtain ⟨_ | _, t', summary⟩ := remarked
  · exact ⟨⟨_, hremarks⟩, hsame⟩
  · refine ⟨⟨_, hremarks⟩, Eq.trans ?_ hsame⟩
    dsimp only
    split <;> rfl

/-! ## Agreement -/

/-- A closed gate agrees with every candidate that is not complete. -/
theorem agrees_of_closed {t' : Tables} {key : PairKey}
    (hgate : ∃ gate, t'.gates key = some gate ∧ gate.historyDone = false)
    (hrow : ∃ row, t'.candidates key = some row ∧ row.status ≠ "complete") : Agrees t' key := by
  obtain ⟨gate, hgate, hclosed⟩ := hgate
  obtain ⟨row, hrow, hstatus⟩ := hrow
  refine iff_of_false ?_ ?_
  · rintro ⟨gate', hgate', hdone⟩
    rw [hgate, Option.some.injEq] at hgate'
    rw [← hgate', hclosed] at hdone
    exact nomatch hdone
  · rintro ⟨row', gate', hrow', -, hmatches⟩
    rw [hrow, Option.some.injEq] at hrow'
    exact hstatus (hrow' ▸ hmatches.status)

/-- A candidate that awaits its completion and was at most marked agrees with its gate. -/
theorem agrees_of_awaits {marked : PairKey → Prop} {t₁ t' : Tables} {p : Publication}
    (hstart : AwaitsCompletion t p runId) (hcandidate : t₁.candidates p.key = t.candidates p.key)
    (hgate : t₁.gates p.key = t.gates p.key) (hmarks : Marks marked t₁ t') : Agrees t' p.key := by
  refine agrees_of_closed ?_ ?_
  · rw [hmarks.gates, hgate]
    exact hstart.gate
  · by_cases hkey : marked p.key
    · exact hmarks.of_marked p.key hkey
    · obtain ⟨row, hrow, hstatus, -⟩ := hstart.candidate
      refine ⟨row, by rw [hmarks.of_not p.key hkey, hcandidate, hrow], ?_⟩
      rw [hstatus]
      decide

theorem eq_of_key_eq (hnodup : (batch.map Publication.key).Nodup) {i j : ℕ} {p q : Publication}
    (hp : batch[i]? = some p) (hq : batch[j]? = some q) (h : p.key = q.key) : i = j ∧ p = q := by
  have hi : (batch.map Publication.key)[i]? = some p.key := by rw [List.getElem?_map, hp]; rfl
  have hj : (batch.map Publication.key)[j]? = some q.key := by rw [List.getElem?_map, hq]; rfl
  have hlt : i < (batch.map Publication.key).length := (List.getElem?_eq_some_iff.1 hi).1
  have hij : i = j := (List.getElem?_inj hlt hnodup).1 (by rw [hi, hj, h])
  subst hij
  rw [hp, Option.some.injEq] at hq
  exact ⟨rfl, hq⟩

/-- A completion that took effect and was marked afterwards has a gate that its candidate does not
agree with. -/
theorem keepsCompletions_of_settled {before : PhaseBSummary}
    (hnodup : (batch.map Publication.key).Nodup)
    (hrows : ∀ p ∈ batch, (t.candidates p.key).isSome)
    (h : Settled host t runId answers batch before
      (finalizeAndRecordPublishedPhaseBBatch host runId answers batch t before)) :
    KeepsCompletions host t runId answers batch := by
  intro days hfinal i p hp hcommits hremarked
  have hmem : p ∈ batch := List.mem_of_getElem? hp
  obtain ⟨finalized, t₁, hcompletes, hmarks, -⟩ := @exists_marks_of_final host runId answers t batch
    days before hfinal (List.ne_nil_of_mem hmem) hnodup hrows
  obtain ⟨row, hrow, hstatus⟩ := hmarks.of_marked p.key ⟨i, p, hp, rfl, hremarked⟩
  rcases hcompletes.rows i p hp with ⟨-, rows, hstaged, -, hgate⟩ | ⟨hnot, -⟩
  · -- the gate of the completion is still done, and its candidate is not complete any more
    have hdone := (matches_of_stagedRows hstaged).2
    obtain ⟨row', gate, hrow', -, hmatches⟩ :=
      (h.agrees p hmem).1 ⟨rows.2, by rw [hmarks.gates, hgate], hdone⟩
    rw [hrow, Option.some.injEq] at hrow'
    exact hstatus (hrow' ▸ hmatches.status)
  · rw [Nat.zero_add] at hnot
    exact hnot hcommits

section Example

def sampleHash : String := String.ofList (List.replicate 64 'a')

def sampleHost : Host where
  sha256Hex := fun _ ↦ sampleHash
  dateParse := fun _ ↦ none
  historyVersion := "v2"

def samplePublication : Publication where
  dayUtc := "2024-01-05"
  connectorId := 7
  historyManifestKey :=
    "history/v2/observations/day_utc=2024-01-05/connector_id=7/manifest.json"
  historyManifestHash := sampleHash
  historyRowCount := 24
  historyFileCount := 1
  historyTotalBytes := 4096
  sourceIdentity := ⟨sampleHash, 1, 24⟩
  writtenRowCount := 24
  totalBytes := 4096

def sampleTables : Tables where
  candidates := fun key ↦ if key = ("2024-01-05", 7) then some {
    dayUtc := "2024-01-05"
    connectorId := 7
    status := "in_progress"
    runId := some "run-1"
    expectedRowCount := 24 } else none
  gates := fun key ↦ if key = ("2024-01-05", 7) then some {
    dayUtc := "2024-01-05"
    connectorId := 7
    historyDone := false } else none

/-- The only transaction ends in the given way, and every other call goes well. -/
def answersWithCommit (commit : CommitAnswer) : BatchAnswers where
  finalizer := .ok ["2024-01-05"]
  completion := fun _ ↦ {
    now := "2024-01-20 03:00:00+00"
    beginError := none
    candidateError := none
    gateError := none
    outboxError := none
    commit
    rollbackError := none }
  markFailed := fun _ ↦ .done
  finalizeDayGate := fun _ ↦ .ok ()
  blockDayGate := fun _ ↦ .done
  remark := fun _ ↦ .done
  reblock := fun _ ↦ .done

def emptySummary : PhaseBSummary := ⟨[], [], [], none⟩

theorem awaits_sample : AwaitsCompletion sampleTables samplePublication "run-1" :=
  ⟨⟨_, rfl, rfl, rfl, rfl⟩, ⟨_, rfl, rfl⟩⟩

theorem commits_sample {commit : CommitAnswer} (h : commit.applied = true) :
    CommitsAt sampleHost sampleTables "run-1" (answersWithCommit commit) 0 samplePublication := by
  refine ⟨rfl, ?_, h⟩
  have hok : (stagedRows sampleHost sampleTables samplePublication "run-1"
      ((answersWithCommit .committed).completion 0)).isOk = true := by decide +kernel
  have heq : stagedRows sampleHost sampleTables samplePublication "run-1"
      ((answersWithCommit commit).completion 0) =
    stagedRows sampleHost sampleTables samplePublication "run-1"
      ((answersWithCommit .committed).completion 0) := by
    rw [stagedRows, stagedRows]
    rfl
  rw [heq]
  generalize stagedRows sampleHost sampleTables samplePublication "run-1"
    ((answersWithCommit .committed).completion 0) = staged at hok
  rcases staged with message | rows
  · exact absurd hok Bool.false_ne_true
  · exact ⟨rows, rfl⟩

end Example

end UkAqOps.Prune

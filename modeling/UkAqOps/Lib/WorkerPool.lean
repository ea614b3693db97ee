import Mathlib.Algebra.BigOperators.Fin
import Mathlib.Algebra.Order.BigOperators.Group.Finset
import Mathlib.Logic.Relation
import Mathlib.Order.WellFounded

/-!
# A pool of workers behind one cursor

Some workers share a cursor over `n` jobs. An idle worker takes the next job, waits for its answer,
stores it and is idle again; it leaves when no job is left. Taking a job may be refused, and an answer
may be a failure: the worker is lost then, and the pool never returns.

The steps of the workers interleave in any order. However they do, the pool comes to an end, and when
it returns every job has been answered.
-/

namespace WorkerPool

/-- What a worker is doing. -/
inductive Phase
  | idle
  | busy (job : ℕ)
  | left
  | failed

/-- The cursor, the workers, the answers stored so far, and what the jobs share. -/
structure State (k : ℕ) (σ β : Type*) where
  cursor : ℕ
  phase : Fin k → Phase
  results : ℕ → Option β
  shared : σ

variable {k : ℕ} {σ ε β : Type*}

/-- Nothing has been done. -/
def State.initial (k : ℕ) (β : Type*) (shared : σ) : State k σ β :=
  ⟨0, fun _ ↦ .idle, fun _ ↦ none, shared⟩

/-- A worker goes over to another phase. -/
def State.set (s : State k σ β) (w : Fin k) (phase : Phase) : State k σ β :=
  { s with phase := Function.update s.phase w phase }

@[simp] theorem State.phase_set_self (s : State k σ β) (w : Fin k) (phase : Phase) :
    (s.set w phase).phase w = phase := by
  show Function.update s.phase w phase w = phase
  exact Function.update_self w phase s.phase

theorem State.phase_set_of_ne (s : State k σ β) {w v : Fin k} (phase : Phase) (h : v ≠ w) :
    (s.set w phase).phase v = s.phase v := by
  show Function.update s.phase w phase v = s.phase v
  exact Function.update_of_ne h phase s.phase

@[simp] theorem State.cursor_set (s : State k σ β) (w : Fin k) (phase : Phase) :
    (s.set w phase).cursor = s.cursor := rfl

variable (n : ℕ) (launch : σ → ℕ → Except ε σ) (Answers : ℕ → Except ε β → Prop)

/-- One step of one worker. -/
inductive Step : State k σ β → State k σ β → Prop
  | take {s : State k σ β} (w : Fin k) (shared : σ) (hidle : s.phase w = .idle)
      (hmore : s.cursor < n) (hlaunch : launch s.shared s.cursor = .ok shared) :
      Step s { s.set w (.busy s.cursor) with cursor := s.cursor + 1, shared := shared }
  | refuse {s : State k σ β} (w : Fin k) (error : ε) (hidle : s.phase w = .idle)
      (hmore : s.cursor < n) (hlaunch : launch s.shared s.cursor = .error error) :
      Step s { s.set w .failed with cursor := s.cursor + 1 }
  | finish {s : State k σ β} (w : Fin k) (job : ℕ) (answer : β) (hbusy : s.phase w = .busy job)
      (hanswer : Answers job (.ok answer)) :
      Step s { s.set w .idle with results := Function.update s.results job (some answer) }
  | fail {s : State k σ β} (w : Fin k) (job : ℕ) (error : ε) (hbusy : s.phase w = .busy job)
      (hanswer : Answers job (.error error)) : Step s (s.set w .failed)
  | leave {s : State k σ β} (w : Fin k) (hidle : s.phase w = .idle) (hnone : n ≤ s.cursor) :
      Step s { s.set w .left with cursor := s.cursor + 1 }

/-- A state of some run from the start. -/
def Reachable (shared : σ) (s : State k σ β) : Prop :=
  Relation.ReflTransGen (Step n launch Answers) (State.initial k β shared) s

/-- Every worker has left. -/
def State.Returned (s : State k σ β) : Prop := ∀ w, s.phase w = .left

variable {n launch Answers}

/-! ## Every answer is stored -/

/-- A job that has been taken is answered, or a worker waits for its answer or is lost. -/
structure Inv (n : ℕ) (Answers : ℕ → Except ε β → Prop) (s : State k σ β) : Prop where
  answered : ∀ job answer, s.results job = some answer → Answers job (.ok answer)
  taken : ∀ job < s.cursor, job < n → (∃ answer, s.results job = some answer) ∨
    (∃ w, s.phase w = .busy job) ∨ ∃ w, s.phase w = .failed
  busy : ∀ w job, s.phase w = .busy job → job < n
  left : ∀ w, s.phase w = .left → n ≤ s.cursor

theorem inv_initial (shared : σ) : Inv n Answers (State.initial k β shared : State k σ β) :=
  ⟨nofun, nofun, nofun, nofun⟩

section Inv

variable {s : State k σ β}

/-- What another worker does leaves a worker waiting for its job, or lost. -/
theorem exists_phase_set {w : Fin k} {phase wanted : Phase}
    (h : ∃ w, s.phase w = wanted) (hother : s.phase w = wanted → phase = wanted) :
    ∃ w', (s.set w phase).phase w' = wanted := by
  obtain ⟨v, hv⟩ := h
  by_cases hsame : v = w
  · refine ⟨w, ?_⟩
    rw [State.phase_set_self]
    exact hother (hsame ▸ hv)
  · refine ⟨v, ?_⟩
    rw [State.phase_set_of_ne s phase hsame]
    exact hv

/-- A worker that has left did so before, or does so now. -/
theorem phase_of_set {w v : Fin k} {phase wanted : Phase}
    (h : (s.set w phase).phase v = wanted) : s.phase v = wanted ∨ phase = wanted := by
  by_cases hsame : v = w
  · rw [hsame, State.phase_set_self] at h
    exact Or.inr h
  · rw [State.phase_set_of_ne s phase hsame] at h
    exact Or.inl h

/-- **One step** keeps the invariant. -/
theorem Inv.step {s' : State k σ β} (h : Inv n Answers s) (hstep : Step n launch Answers s s') :
    Inv n Answers s' := by
  rcases hstep with ⟨w, shared, hidle, hmore, -⟩ | ⟨w, error, hidle, hmore, -⟩ |
    ⟨w, job, answer, hbusy, hanswer⟩ | ⟨w, job, error, hbusy, -⟩ | ⟨w, hidle, hnone⟩
  · refine ⟨h.answered, fun job hjob hn ↦ ?_, fun v job hv ↦ ?_, fun v hv ↦ ?_⟩
    · by_cases hnew : job = s.cursor
      · refine Or.inr (Or.inl ⟨w, ?_⟩)
        rw [hnew]
        exact s.phase_set_self w _
      · rcases h.taken job (by dsimp only at hjob; omega) hn with hanswered | hwaiting | hlost
        · exact Or.inl hanswered
        · refine Or.inr (Or.inl (exists_phase_set hwaiting fun heq ↦ ?_))
          rw [hidle] at heq
          cases heq
        · refine Or.inr (Or.inr (exists_phase_set hlost fun heq ↦ ?_))
          rw [hidle] at heq
          cases heq
    · rcases phase_of_set hv with hv | hv
      · exact h.busy v job hv
      · rwa [← Phase.busy.inj hv]
    · rcases phase_of_set hv with hv | hv
      · exact absurd (h.left v hv) (not_le.mpr hmore)
      · cases hv
  · have hlost : ∃ v, (s.set w .failed).phase v = .failed := ⟨w, s.phase_set_self w .failed⟩
    refine ⟨h.answered, fun job hjob hn ↦ Or.inr (Or.inr hlost), fun v job hv ↦ ?_, fun v hv ↦ ?_⟩
    · rcases phase_of_set hv with hv | hv
      · exact h.busy v job hv
      · cases hv
    · rcases phase_of_set hv with hv | hv
      · exact absurd (h.left v hv) (not_le.mpr hmore)
      · cases hv
  · refine ⟨fun other answer' hresult ↦ ?_, fun other hother hn ↦ ?_, fun v other hv ↦ ?_,
      fun v hv ↦ ?_⟩
    · dsimp only at hresult
      by_cases hsame : other = job
      · rw [hsame, Function.update_self] at hresult
        rw [hsame, ← Option.some.inj hresult]
        exact hanswer
      · rw [Function.update_of_ne hsame] at hresult
        exact h.answered other answer' hresult
    · by_cases hsame : other = job
      · refine Or.inl ⟨answer, ?_⟩
        rw [hsame]
        exact Function.update_self job _ s.results
      · rcases h.taken other hother hn with ⟨answer', hanswered⟩ | hwaiting | hlost
        · refine Or.inl ⟨answer', ?_⟩
          dsimp only
          rw [Function.update_of_ne hsame]
          exact hanswered
        · refine Or.inr (Or.inl (exists_phase_set hwaiting fun heq ↦ ?_))
          rw [hbusy] at heq
          exact absurd (Phase.busy.inj heq).symm hsame
        · refine Or.inr (Or.inr (exists_phase_set hlost fun heq ↦ ?_))
          rw [hbusy] at heq
          cases heq
    · rcases phase_of_set hv with hv | hv
      · exact h.busy v other hv
      · cases hv
    · rcases phase_of_set hv with hv | hv
      · exact h.left v hv
      · cases hv
  · have hlost : ∃ v, (s.set w .failed).phase v = .failed := ⟨w, s.phase_set_self w .failed⟩
    refine ⟨h.answered, fun job hjob hn ↦ Or.inr (Or.inr hlost), fun v other hv ↦ ?_,
      fun v hv ↦ ?_⟩
    · rcases phase_of_set hv with hv | hv
      · exact h.busy v other hv
      · cases hv
    · rcases phase_of_set hv with hv | hv
      · exact h.left v hv
      · cases hv
  · refine ⟨h.answered, fun job hjob hn ↦ ?_, fun v job hv ↦ ?_, fun v _ ↦ Nat.le_succ_of_le hnone⟩
    · rcases h.taken job (by omega) hn with hanswered | hwaiting | hlost
      · exact Or.inl hanswered
      · refine Or.inr (Or.inl (exists_phase_set hwaiting fun heq ↦ ?_))
        rw [hidle] at heq
        cases heq
      · refine Or.inr (Or.inr (exists_phase_set hlost fun heq ↦ ?_))
        rw [hidle] at heq
        cases heq
    · rcases phase_of_set hv with hv | hv
      · exact h.busy v job hv
      · cases hv

/-- **Every run** keeps the invariant. -/
theorem inv_of_reachable {shared : σ} (h : Reachable n launch Answers shared s) :
    Inv n Answers s := by
  induction h with
  | refl => exact inv_initial shared
  | tail _ hstep ih => exact ih.step hstep

/-- **When the pool returns, every job has been answered**, whatever the order of the steps was. -/
theorem answered_of_returned {shared : σ} (h : Reachable n launch Answers shared s)
    (hreturned : s.Returned) (hworkers : n = 0 ∨ 0 < k) {job : ℕ} (hjob : job < n) :
    ∃ answer, s.results job = some answer ∧ Answers job (.ok answer) := by
  have hinv := inv_of_reachable h
  have hk : 0 < k := hworkers.resolve_left (by omega)
  have hcursor := hinv.left ⟨0, hk⟩ (hreturned ⟨0, hk⟩)
  rcases hinv.taken job (hjob.trans_le hcursor) hjob with ⟨answer, hanswer⟩ | ⟨w, hw⟩ | ⟨w, hw⟩
  · exact ⟨answer, hanswer, hinv.answered job answer hanswer⟩
  · rw [hreturned w] at hw
    cases hw
  · rw [hreturned w] at hw
    cases hw

end Inv

/-! ## Every run ends -/

/-- What a worker in this phase may still do. -/
def Phase.weight : Phase → ℕ
  | .idle => 1
  | .busy _ => 2
  | .left => 0
  | .failed => 0

/-- What the pool may still do. -/
def State.weight (n : ℕ) (s : State k σ β) : ℕ :=
  2 * (n - s.cursor) + ∑ w, (s.phase w).weight

theorem sum_weight_set (s : State k σ β) (w : Fin k) (phase : Phase) :
    ∑ v, ((s.set w phase).phase v).weight + (s.phase w).weight =
      ∑ v, (s.phase v).weight + phase.weight := by
  have hnew := Finset.add_sum_erase Finset.univ (fun v ↦ ((s.set w phase).phase v).weight)
    (Finset.mem_univ w)
  have hold := Finset.add_sum_erase Finset.univ (fun v ↦ (s.phase v).weight) (Finset.mem_univ w)
  have hrest : ∑ v ∈ Finset.univ.erase w, ((s.set w phase).phase v).weight =
      ∑ v ∈ Finset.univ.erase w, (s.phase v).weight := by
    refine Finset.sum_congr rfl fun v hv ↦ ?_
    rw [State.phase_set_of_ne s phase (Finset.ne_of_mem_erase hv)]
  rw [State.phase_set_self, hrest] at hnew
  omega

theorem weight_lt_of_step {s s' : State k σ β} (h : Step n launch Answers s s') :
    s'.weight n < s.weight n := by
  rcases h with ⟨w, shared, hidle, hmore, -⟩ | ⟨w, error, hidle, hmore, -⟩ |
    ⟨w, job, answer, hbusy, -⟩ | ⟨w, job, error, hbusy, -⟩ | ⟨w, hidle, hnone⟩
  · have hsum := sum_weight_set s w (.busy s.cursor)
    rw [hidle] at hsum
    simp only [State.weight, Phase.weight] at hsum ⊢
    omega
  · have hsum := sum_weight_set s w .failed
    rw [hidle] at hsum
    simp only [State.weight, Phase.weight] at hsum ⊢
    omega
  · have hsum := sum_weight_set s w .idle
    rw [hbusy] at hsum
    simp only [State.weight, Phase.weight, State.cursor_set] at hsum ⊢
    omega
  · have hsum := sum_weight_set s w .failed
    rw [hbusy] at hsum
    simp only [State.weight, Phase.weight, State.cursor_set] at hsum ⊢
    omega
  · have hsum := sum_weight_set s w .left
    rw [hidle] at hsum
    simp only [State.weight, Phase.weight] at hsum ⊢
    omega

/-- **No run goes on for ever.** -/
theorem wellFounded_step :
    WellFounded fun s' s : State k σ β ↦ Step n launch Answers s s' :=
  Subrelation.wf (fun h ↦ weight_lt_of_step h)
    (InvImage.wf (State.weight n : State k σ β → ℕ) Nat.lt_wfRel.wf)

/-- A pool in which no worker is lost has returned or goes on, as long as jobs are answered. -/
theorem exists_step {shared : σ} {s : State k σ β} (h : Reachable n launch Answers shared s)
    (hanswers : ∀ job < n, ∃ answer, Answers job answer) (hlost : ∀ w, s.phase w ≠ .failed) (hopen : ¬s.Returned) :
    ∃ s', Step n launch Answers s s' := by
  obtain ⟨w, hw⟩ := not_forall.mp hopen
  rcases hphase : s.phase w with _ | job | _ | _
  · rcases Nat.lt_or_ge s.cursor n with hmore | hnone
    · rcases hlaunch : launch s.shared s.cursor with error | shared
      · exact ⟨_, .refuse w error hphase hmore hlaunch⟩
      · exact ⟨_, .take w shared hphase hmore hlaunch⟩
    · exact ⟨_, .leave w hphase hnone⟩
  · obtain ⟨error | answer, hanswer⟩ := hanswers job ((inv_of_reachable h).busy w job hphase)
    · exact ⟨_, .fail w job error hphase hanswer⟩
    · exact ⟨_, .finish w job answer hphase hanswer⟩
  · exact absurd hphase hw
  · exact absurd hphase (hlost w)

end WorkerPool

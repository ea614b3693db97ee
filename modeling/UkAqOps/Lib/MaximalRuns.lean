import Mathlib.Algebra.Order.Group.Int
import Mathlib.Algebra.Ring.Divisibility.Basic
import Mathlib.Algebra.Ring.Int.Defs
import Mathlib.Data.List.Pairwise
import Mathlib.Tactic.Common

/-!
# Maximal runs

A finite set of integers that differ by multiples of a step falls into maximal runs of neighbours.
Walking through the set in its order finds these runs, in their order.
-/

namespace MaximalRuns

variable (d : ℤ)

/-- All points from one to another are in a set. -/
structure Stretch (S : ℤ → Prop) (start stop : ℤ) : Prop where
  le : start ≤ stop
  dvd : d ∣ stop - start
  mem : ∀ t, start ≤ t → t ≤ stop → d ∣ t - start → S t

/-- A stretch without a neighbour at either end. -/
structure IsRun (S : ℤ → Prop) (start stop : ℤ) : Prop where
  stretch : Stretch d S start stop
  before : ¬S (start - d)
  after : ¬S (stop + d)

/-- The runs of a set, from the current run on. -/
def runsFrom (start previous : ℤ) : List ℤ → List (ℤ × ℤ)
  | [] => [(start, previous)]
  | x :: rest =>
    if x = previous + d then runsFrom start x rest
    else (start, previous) :: runsFrom x x rest

def runs : List ℤ → List (ℤ × ℤ)
  | [] => []
  | x :: rest => runsFrom d x x rest

variable {d}

/-! ## Stretches and runs -/

section Sets

variable {S : ℤ → Prop} {start stop start' stop' : ℤ}

theorem Stretch.start_mem (h : Stretch d S start stop) : S start :=
  h.mem start le_rfl h.le (by rw [sub_self]; exact Int.dvd_zero d)

theorem Stretch.stop_mem (h : Stretch d S start stop) : S stop := h.mem stop h.le le_rfl h.dvd

theorem Stretch.mono {S' : ℤ → Prop} (hS : ∀ t, S t → S' t) (h : Stretch d S start stop) :
    Stretch d S' start stop := ⟨h.le, h.dvd, fun t hle hge hdvd ↦ hS t (h.mem t hle hge hdvd)⟩

/-- The points of a set that are on the grid of a stretch are on it from any of its points. -/
theorem dvd_sub_of_dvd {a b c : ℤ} (hb : d ∣ b - a) (hc : d ∣ c - a) : d ∣ c - b := by
  have h := dvd_sub hc hb
  rwa [sub_sub_sub_cancel_right] at h

/-- A point before the end of a run on its grid has a neighbour in it. -/
theorem add_le_of_lt {a b : ℤ} (hdvd : d ∣ b - a) (hlt : a < b) : a + d ≤ b := by
  have h := Int.le_of_dvd (by omega) hdvd
  omega

/-- **A run holds every stretch** that it meets. -/
theorem IsRun.contains (hd : 0 < d) (h : IsRun d S start stop) (h' : Stretch d S start' stop')
    (hgrid : d ∣ start' - start) (hle : start ≤ stop') (hge : start' ≤ stop) :
    start ≤ start' ∧ stop' ≤ stop := by
  have hstop' : d ∣ stop' - start := by
    have hsum := dvd_add h'.dvd hgrid
    rwa [sub_add_sub_cancel] at hsum
  constructor
  · by_contra hlt
    have hlt := not_le.mp hlt
    have hback : d ∣ start - start' := by
      rw [← neg_sub]
      exact (dvd_neg).mpr hgrid
    have hbefore := add_le_of_lt hback hlt
    refine h.before (h'.mem (start - d) (by omega) (by omega) ?_)
    rw [sub_right_comm]
    exact dvd_sub_self_right.mpr hback
  · by_contra hlt
    have hlt := not_le.mp hlt
    have hafter := add_le_of_lt (dvd_sub_of_dvd h.stretch.dvd hstop') hlt
    refine h.after (h'.mem (stop + d) (by omega) hafter ?_)
    have hsame := dvd_sub_of_dvd hgrid h.stretch.dvd
    rw [add_sub_right_comm]
    exact dvd_add_self_right.mpr hsame

end Sets

/-! ## The runs of a list -/

section Lists

variable {xs rest : List ℤ} {start previous x : ℤ}

/-- The set that is left from the current run on. -/
def From (d start previous : ℤ) (rest : List ℤ) (t : ℤ) : Prop :=
  (start ≤ t ∧ t ≤ previous ∧ d ∣ t - start) ∨ t ∈ rest

/-- A set without the points behind a gap. -/
theorem isRun_or_iff {A B : ℤ → Prop} {gap : ℤ} (hd : 0 < d) (hA : ∀ t, A t → t ≤ gap)
    (hB : ∀ t, B t → gap + d < t) {start stop : ℤ} :
    IsRun d (fun t ↦ A t ∨ B t) start stop ↔ IsRun d A start stop ∨ IsRun d B start stop := by
  constructor
  · intro h
    rcases h.stretch.start_mem with hstart | hstart
    · -- a stretch cannot cross the gap
      have hstop : stop ≤ gap := by
        rcases h.stretch.stop_mem with hstop | hstop
        · exact hA stop hstop
        · exfalso
          have hlow := hA start hstart
          have hhigh := hB stop hstop
          set t := start + d * ((gap - start) / d) + d with ht
          have hdiv := Int.mul_ediv_add_emod (gap - start) d
          have hnonneg := Int.emod_nonneg (gap - start) hd.ne'
          have hlt := Int.emod_lt_of_pos (gap - start) hd
          have hquot : 0 ≤ d * ((gap - start) / d) :=
            Int.mul_nonneg hd.le (Int.ediv_nonneg (by omega) hd.le)
          have hgrid : d ∣ t - start := by
            rw [ht, add_assoc, add_sub_cancel_left]
            exact dvd_add (dvd_mul_right d _) dvd_rfl
          rcases h.stretch.mem t (by omega) (by omega) hgrid with hA' | hB'
          · have hle := hA t hA'
            omega
          · have hgt := hB t hB'
            omega
      refine Or.inl ⟨⟨h.stretch.le, h.stretch.dvd, fun t hle hge hdvd ↦ ?_⟩,
        fun hbefore ↦ h.before (Or.inl hbefore), fun hafter ↦ h.after (Or.inl hafter)⟩
      refine (h.stretch.mem t hle hge hdvd).resolve_right fun hB' ↦ ?_
      have hgt := hB t hB'
      omega
    · refine Or.inr ⟨⟨h.stretch.le, h.stretch.dvd, fun t hle hge hdvd ↦ ?_⟩,
        fun hbefore ↦ h.before (Or.inr hbefore), fun hafter ↦ h.after (Or.inr hafter)⟩
      refine (h.stretch.mem t hle hge hdvd).resolve_left fun hA' ↦ ?_
      have hgt := hB start hstart
      have hle' := hA t hA'
      omega
  · rintro (h | h)
    · have hstart := hA start h.stretch.start_mem
      have hstop := hA stop h.stretch.stop_mem
      refine ⟨h.stretch.mono fun t ↦ Or.inl, fun hbefore ↦ ?_, fun hafter ↦ ?_⟩
      · refine hbefore.elim h.before fun hB' ↦ ?_
        have hgt := hB _ hB'
        omega
      · refine hafter.elim h.after fun hB' ↦ ?_
        have hgt := hB _ hB'
        omega
    · have hstart := hB start h.stretch.start_mem
      have hstop := hB stop h.stretch.stop_mem
      refine ⟨h.stretch.mono fun t ↦ Or.inr, fun hbefore ↦ ?_, fun hafter ↦ ?_⟩
      · refine hbefore.elim (fun hA' ↦ ?_) h.before
        have hle := hA _ hA'
        omega
      · refine hafter.elim (fun hA' ↦ ?_) h.after
        have hle := hA _ hA'
        omega

/-- The one run of a stretch. -/
theorem isRun_stretch_iff (hd : 0 < d) {a b : ℤ} (hle : a ≤ b) (hdvd : d ∣ b - a) {start stop : ℤ} :
    IsRun d (fun t ↦ a ≤ t ∧ t ≤ b ∧ d ∣ t - a) start stop ↔ start = a ∧ stop = b := by
  constructor
  · intro h
    obtain ⟨hstart, hstart', hgrid⟩ := h.stretch.start_mem
    obtain ⟨hstop, hstop', hgrid'⟩ := h.stretch.stop_mem
    constructor
    · by_contra hne
      have hbefore := add_le_of_lt hgrid (lt_of_le_of_ne hstart (Ne.symm hne))
      refine h.before ⟨by omega, by omega, ?_⟩
      rw [sub_right_comm]
      exact dvd_sub_self_right.mpr hgrid
    · by_contra hne
      have hafter := add_le_of_lt (dvd_sub_of_dvd hgrid' hdvd) (lt_of_le_of_ne hstop' hne)
      refine h.after ⟨by omega, hafter, ?_⟩
      rw [add_sub_right_comm]
      exact dvd_add_self_right.mpr hgrid'
  · rintro ⟨rfl, rfl⟩
    refine ⟨⟨hle, hdvd, fun t ht ht' hgrid ↦ ⟨ht, ht', hgrid⟩⟩, fun h ↦ ?_, fun h ↦ ?_⟩
    · have hlow := h.1
      omega
    · have hhigh := h.2.1
      omega

/-- **The runs from the current one on** are those of what is left. -/
theorem mem_runsFrom (hd : 0 < d) (hle : start ≤ previous) (hdvd : d ∣ previous - start)
    (hsorted : (previous :: rest).Pairwise (· < ·)) (hgrid : ∀ t ∈ rest, d ∣ t - start)
    {run : ℤ × ℤ} :
    run ∈ runsFrom d start previous rest ↔ IsRun d (From d start previous rest) run.1 run.2 := by
  induction rest generalizing start previous with
  | nil =>
    have hset : From d start previous [] = fun t ↦ start ≤ t ∧ t ≤ previous ∧ d ∣ t - start := by
      funext t
      simp [From]
    rw [runsFrom, List.mem_singleton, hset, isRun_stretch_iff hd hle hdvd, Prod.ext_iff]
  | cons x rest ih =>
    obtain ⟨hprevious, hsorted⟩ := List.pairwise_cons.mp hsorted
    obtain ⟨hx, -⟩ := List.pairwise_cons.mp hsorted
    have hlt := hprevious x List.mem_cons_self
    have hgridx := hgrid x List.mem_cons_self
    rw [runsFrom]
    by_cases hnext : x = previous + d
    · have hset : From d start previous (x :: rest) = From d start x rest := by
        funext t
        refine propext ⟨?_, ?_⟩
        · rintro (⟨hstart, hstop, hdvdt⟩ | hmem)
          · exact Or.inl ⟨hstart, by omega, hdvdt⟩
          · rcases List.mem_cons.mp hmem with rfl | hmem
            · exact Or.inl ⟨by omega, le_rfl, hgridx⟩
            · exact Or.inr hmem
        · rintro (⟨hstart, hstop, hdvdt⟩ | hmem)
          · by_cases htx : t = x
            · exact Or.inr (htx ▸ List.mem_cons_self)
            · have hbefore := add_le_of_lt (dvd_sub_of_dvd hdvdt hgridx)
                (lt_of_le_of_ne hstop htx)
              exact Or.inl ⟨hstart, by omega, hdvdt⟩
          · exact Or.inr (List.mem_cons_of_mem x hmem)
      rw [if_pos hnext, hset]
      exact ih (by omega) hgridx hsorted fun t ht ↦ hgrid t (List.mem_cons_of_mem x ht)
    · have hfar := add_le_of_lt (dvd_sub_of_dvd hdvd hgridx) hlt
      have hset : From d start previous (x :: rest)
          = fun t ↦ (start ≤ t ∧ t ≤ previous ∧ d ∣ t - start) ∨ From d x x rest t := by
        funext t
        refine propext (or_congr_right (List.mem_cons.trans (or_congr_left ⟨?_, ?_⟩)))
        · rintro rfl
          exact ⟨le_rfl, le_rfl, by rw [sub_self]; exact Int.dvd_zero d⟩
        · rintro ⟨hge, hle, -⟩
          exact le_antisymm hle hge
      rw [if_neg hnext, List.mem_cons, hset, isRun_or_iff hd (fun t ht ↦ ht.2.1) fun t ht ↦ ?_,
        isRun_stretch_iff hd hle hdvd, ← ih le_rfl (by rw [sub_self]; exact Int.dvd_zero d) hsorted
          fun t ht ↦ dvd_sub_of_dvd hgridx (hgrid t (List.mem_cons_of_mem x ht)), Prod.ext_iff]
      rcases ht with ⟨hge, -, -⟩ | hmem
      · omega
      · have hlater := hx t hmem
        omega

/-- **The runs of a list** are those of its points. -/
theorem mem_runs (hd : 0 < d) (hsorted : xs.Pairwise (· < ·))
    (hgrid : ∀ s ∈ xs, ∀ t ∈ xs, d ∣ t - s) {run : ℤ × ℤ} :
    run ∈ runs d xs ↔ IsRun d (· ∈ xs) run.1 run.2 := by
  rcases xs with _ | ⟨x, rest⟩
  · exact ⟨fun h ↦ absurd h List.not_mem_nil, fun h ↦ absurd h.stretch.start_mem List.not_mem_nil⟩
  · have hset : (fun t ↦ t ∈ x :: rest) = From d x x rest := by
      funext t
      refine propext (List.mem_cons.trans (or_congr_left ⟨?_, ?_⟩))
      · rintro rfl
        exact ⟨le_rfl, le_rfl, by rw [sub_self]; exact Int.dvd_zero d⟩
      · rintro ⟨hge, hle, -⟩
        exact le_antisymm hle hge
    rw [runs, hset]
    exact mem_runsFrom hd le_rfl (by rw [sub_self]; exact Int.dvd_zero d) hsorted fun t ht ↦
      hgrid x List.mem_cons_self t (List.mem_cons_of_mem x ht)

theorem start_le_of_mem_runsFrom (hsorted : (previous :: rest).Pairwise (· < ·))
    (hle : start ≤ previous) {run : ℤ × ℤ} (h : run ∈ runsFrom d start previous rest) :
    start ≤ run.1 := by
  induction rest generalizing start previous with
  | nil => rw [List.mem_singleton.mp h]
  | cons x rest ih =>
    obtain ⟨hprevious, hsorted⟩ := List.pairwise_cons.mp hsorted
    have hlt := hprevious x List.mem_cons_self
    rw [runsFrom] at h
    split_ifs at h
    · exact ih hsorted (by omega) h
    · rcases List.mem_cons.mp h with rfl | h
      · exact le_rfl
      · have hstart := ih hsorted le_rfl h
        omega

theorem pairwise_runsFrom (hsorted : (previous :: rest).Pairwise (· < ·)) (hle : start ≤ previous) :
    (runsFrom d start previous rest).Pairwise fun a b ↦ a.2 < b.1 := by
  induction rest generalizing start previous with
  | nil => exact List.pairwise_singleton _ _
  | cons x rest ih =>
    obtain ⟨hprevious, hsorted⟩ := List.pairwise_cons.mp hsorted
    have hlt := hprevious x List.mem_cons_self
    rw [runsFrom]
    split_ifs
    · exact ih hsorted (by omega)
    · refine List.pairwise_cons.mpr ⟨fun run hrun ↦ ?_, ih hsorted le_rfl⟩
      have hstart := start_le_of_mem_runsFrom hsorted le_rfl hrun
      omega

/-- The runs stand in their order. -/
theorem pairwise_runs (hsorted : xs.Pairwise (· < ·)) :
    (runs d xs).Pairwise fun a b ↦ a.2 < b.1 := by
  rcases xs with _ | ⟨x, rest⟩
  · exact List.Pairwise.nil
  · exact pairwise_runsFrom hsorted le_rfl

theorem exists_mem_runsFrom {t : ℤ} (h : (start ≤ t ∧ t ≤ previous) ∨ t ∈ rest)
    (hsorted : (previous :: rest).Pairwise (· < ·)) (hle : start ≤ previous) :
    ∃ run ∈ runsFrom d start previous rest, run.1 ≤ t ∧ t ≤ run.2 := by
  induction rest generalizing start previous with
  | nil =>
    exact ⟨(start, previous), List.mem_singleton_self _,
      h.resolve_right List.not_mem_nil⟩
  | cons x rest ih =>
    obtain ⟨hprevious, hsorted⟩ := List.pairwise_cons.mp hsorted
    have hlt := hprevious x List.mem_cons_self
    rw [runsFrom]
    split_ifs
    · refine ih ?_ hsorted (by omega)
      rcases h with ⟨hstart, hstop⟩ | hmem
      · exact Or.inl ⟨hstart, by omega⟩
      · rcases List.mem_cons.mp hmem with rfl | hmem
        · exact Or.inl ⟨by omega, le_rfl⟩
        · exact Or.inr hmem
    · rcases h with hcurrent | hmem
      · exact ⟨(start, previous), List.mem_cons_self, hcurrent⟩
      · have hrest : (x ≤ t ∧ t ≤ x) ∨ t ∈ rest :=
          (List.mem_cons.mp hmem).imp_left fun heq ↦ ⟨heq.ge, heq.le⟩
        obtain ⟨run, hrun, hin⟩ := ih hrest hsorted le_rfl
        exact ⟨run, List.mem_cons_of_mem _ hrun, hin⟩

/-- Every point is in a run. -/
theorem exists_mem_runs {t : ℤ} (h : t ∈ xs) (hsorted : xs.Pairwise (· < ·)) :
    ∃ run ∈ runs d xs, run.1 ≤ t ∧ t ≤ run.2 := by
  rcases xs with _ | ⟨x, rest⟩
  · exact absurd h List.not_mem_nil
  · exact exists_mem_runsFrom ((List.mem_cons.mp h).imp_left fun heq ↦ ⟨heq.ge, heq.le⟩) hsorted le_rfl

/-- **Every stretch is in a run.** -/
theorem exists_run_of_stretch (hd : 0 < d) (hsorted : xs.Pairwise (· < ·))
    (hgrid : ∀ s ∈ xs, ∀ t ∈ xs, d ∣ t - s) {a b : ℤ} (h : Stretch d (· ∈ xs) a b) :
    ∃ run ∈ runs d xs, run.1 ≤ a ∧ b ≤ run.2 := by
  obtain ⟨run, hrun, hle, hge⟩ := exists_mem_runs h.start_mem hsorted
  have hisRun := (mem_runs hd hsorted hgrid).mp hrun
  exact ⟨run, hrun, hisRun.contains hd h (hgrid _ hisRun.stretch.start_mem _ h.start_mem)
    (hle.trans h.le) hge⟩

end Lists

end MaximalRuns

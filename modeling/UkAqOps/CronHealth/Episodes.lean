import UkAqOps.CronHealth.Tracker
import UkAqOps.Lib.MaximalRuns

/-!
# Episodes

What `_qualifying_outage_episodes` computes. The slots that the watchdog took over fall into maximal
runs; the runs that are long enough and have the same next slot of the Cron make up a group, and
every group is one episode. No slot of the Cron lies in an episode, and one lies between any two.
-/

namespace UkAqOps.CronHealth

open MaximalRuns Sorting

/-! ## What has been observed -/

section Observed

variable (observations : Observations)

def TakenOver (t : ℤ) : Prop := observations.get? t = some .watchdogTakeover

def Triggered (t : ℤ) : Prop := observations.get? t = some .cloudflareCron

/-- Slots are whole minutes. -/
def Aligned : Prop := ∀ t ∈ observations.keys, (60 : ℤ) ∣ t

/-- The next slot of the Cron behind a slot, if there is one. -/
def NextTrigger (t : ℤ) : Option ℤ → Prop
  | some c => Triggered observations c ∧ t < c ∧ ∀ c', Triggered observations c' → t < c' → c ≤ c'
  | none => ∀ c, Triggered observations c → c ≤ t

/-- The length of a run, in minutes. -/
def minutes (start stop : ℤ) : ℤ := (stop - start) / 60 + 1

/-- A run that is long enough, and the next slot of the Cron behind it. -/
structure InGroup (threshold : ℤ) (next : Option ℤ) (start stop : ℤ) : Prop where
  isRun : IsRun 60 (TakenOver observations) start stop
  long : threshold ≤ minutes start stop
  next : NextTrigger observations stop next

end Observed

section Slots

variable {observations : Observations} {threshold t : ℤ} {next next' : Option ℤ}
variable {start stop start' stop' : ℤ}

theorem Aligned.dvd_of_takenOver (h : Aligned observations) (ht : TakenOver observations t) :
    (60 : ℤ) ∣ t :=
  h t (by rw [← OrderedMap.get?_isSome_iff, ht]; rfl)

theorem Aligned.dvd_of_triggered (h : Aligned observations) (ht : Triggered observations t) :
    (60 : ℤ) ∣ t :=
  h t (by rw [← OrderedMap.get?_isSome_iff, ht]; rfl)

theorem not_triggered_of_takenOver (h : TakenOver observations t) : ¬Triggered observations t := by
  intro h'
  rw [TakenOver, h'] at h
  rcases h with ⟨⟩

theorem NextTrigger.eq (h : NextTrigger observations t next) (h' : NextTrigger observations t next') :
    next = next' := by
  rcases next with _ | c <;> rcases next' with _ | c'
  · rfl
  · exact absurd (h c' h'.1) (not_le.mpr h'.2.1)
  · exact absurd (h' c h.1) (not_le.mpr h.2.1)
  · exact congrArg some (le_antisymm (h.2.2 c' h'.1 h'.2.1) (h'.2.2 c h.1 h.2.1))

/-- Without a slot of the Cron between them, two slots have the same next one. -/
theorem nextTrigger_congr {t' : ℤ} (hle : t ≤ t')
    (hquiet : ∀ c, Triggered observations c → t < c → t' < c) :
    NextTrigger observations t next ↔ NextTrigger observations t' next := by
  rcases next with _ | c
  · refine ⟨fun h c hc ↦ (h c hc).trans hle, fun h c hc ↦ ?_⟩
    by_contra hlt
    exact absurd (h c hc) (not_le.mpr (hquiet c hc (not_le.mp hlt)))
  · constructor
    · rintro ⟨hc, hlt, hfirst⟩
      exact ⟨hc, hquiet c hc hlt, fun c' hc' hlt' ↦ hfirst c' hc' (hle.trans_lt hlt')⟩
    · rintro ⟨hc, hlt, hfirst⟩
      exact ⟨hc, hle.trans_lt hlt, fun c' hc' hlt' ↦ hfirst c' hc' (hquiet c' hc' hlt')⟩

theorem nextTrigger_recoverySlot (observations : Observations) (t : ℤ) :
    NextTrigger observations t (recoverySlot observations t) := by
  have hmem : ∀ c, c ∈ cloudflareSlots observations ↔ Triggered observations c := by
    intro c
    rw [cloudflareSlots, mem_sortBy, List.mem_map, Triggered, OrderedMap.get?_eq_some_iff]
    constructor
    · rintro ⟨⟨c', o⟩, hp, rfl⟩
      obtain ⟨hmem, ho⟩ := List.mem_filter.mp hp
      rwa [← of_decide_eq_true ho]
    · intro hc
      exact ⟨(c, .cloudflareCron), List.mem_filter.mpr ⟨hc, rfl⟩, rfl⟩
  have hsorted : (cloudflareSlots observations).Pairwise (· ≤ ·) :=
    (pairwise_sortBy _).imp isLE_compare_iff.mp
  rcases hfind : recoverySlot observations t with _ | c
  · intro c hc
    have hnone := List.find?_eq_none.mp hfind c ((hmem c).mpr hc)
    simpa using hnone
  · obtain ⟨hlt, before, after, hsplit, hbefore⟩ := List.find?_eq_some_iff_append.mp hfind
    have hin : c ∈ cloudflareSlots observations := by
      rw [hsplit]
      simp
    refine ⟨(hmem c).mp hin, of_decide_eq_true hlt, fun c' hc' hlt' ↦ ?_⟩
    rw [hsplit] at hsorted
    have hc'' := (hmem c').mpr hc'
    rw [hsplit, List.mem_append, List.mem_cons] at hc''
    rcases hc'' with hold | rfl | hnew
    · have hnot := hbefore c' hold
      simp only [Bool.not_eq_true', decide_eq_false_iff_not] at hnot
      exact absurd hlt' hnot
    · exact le_rfl
    · exact (List.pairwise_cons.mp (List.pairwise_append.mp hsorted).2.1).1 c' hnew

theorem recoverySlot_eq_iff : recoverySlot observations t = next ↔ NextTrigger observations t next :=
  ⟨fun h ↦ h ▸ nextTrigger_recoverySlot observations t,
    fun h ↦ (nextTrigger_recoverySlot observations t).eq h⟩

/-- The Cron triggers nothing within a stretch that was taken over. -/
theorem not_triggered_of_stretch (haligned : Aligned observations)
    (h : Stretch 60 (TakenOver observations) start stop) (hle : start ≤ t) (hge : t ≤ stop) :
    ¬Triggered observations t := by
  intro ht
  refine not_triggered_of_takenOver (h.mem t hle hge ?_) ht
  exact dvd_sub (haligned.dvd_of_triggered ht) (haligned.dvd_of_takenOver h.start_mem)

/-- **Between two runs of a group the Cron triggers nothing.** -/
theorem InGroup.not_triggered (haligned : Aligned observations)
    (h : InGroup observations threshold next start stop)
    (h' : InGroup observations threshold next start' stop') (hle : start ≤ t) (hge : t ≤ stop') :
    ¬Triggered observations t := by
  intro ht
  by_cases hin : t ≤ stop
  · exact not_triggered_of_stretch haligned h.isRun.stretch hle hin ht
  · have hnext := h.next
    have hnext' := h'.next
    rcases next with _ | c
    · exact hin (hnext t ht)
    · have hfirst := hnext.2.2 t ht (not_le.mp hin)
      have hlater := hnext'.2.1
      omega

end Slots

/-! ## Runs -/

section Runs

variable {observations : Observations}

/-- The slots among some items that were taken over. -/
def takeoverSlots (items : List (ℤ × Observation)) : List ℤ :=
  (items.filter fun p ↦ p.2 = .watchdogTakeover).map Prod.fst

theorem mem_takeoverSlots {items : List (ℤ × Observation)} {t : ℤ} :
    t ∈ takeoverSlots items ↔ (t, .watchdogTakeover) ∈ items := by
  rw [takeoverSlots, List.mem_map]
  constructor
  · rintro ⟨⟨t, o⟩, hp, rfl⟩
    obtain ⟨hmem, ho⟩ := List.mem_filter.mp hp
    rwa [← of_decide_eq_true ho]
  · intro h
    exact ⟨_, List.mem_filter.mpr ⟨h, rfl⟩, rfl⟩

def Run.ofEnds (ends : ℤ × ℤ) : Run := Run.of ends.1 ends.2

/-- A slot of the Cron ends the current run, as the gap would that it leaves. -/
theorem takeoverRunsFrom_eq (items : List (ℤ × Observation)) :
    ∀ current : Option (ℤ × ℤ), items.Pairwise (fun p q ↦ p.1 < q.1) →
      (∀ p ∈ items, (60 : ℤ) ∣ p.1) →
      (∀ c ∈ current, (60 : ℤ) ∣ c.2 ∧ ∀ p ∈ items, c.2 < p.1) →
      takeoverRunsFrom current items = match current with
        | none => (runs 60 (takeoverSlots items)).map Run.ofEnds
        | some (start, previous) =>
          (runsFrom 60 start previous (takeoverSlots items)).map Run.ofEnds := by
  induction items with
  | nil =>
    rintro (_ | ⟨start, previous⟩) - - - <;> rfl
  | cons item rest ih =>
    obtain ⟨slot, observation⟩ := item
    intro current hsorted haligned hcurrent
    obtain ⟨hslot, hpairwise⟩ := List.pairwise_cons.mp hsorted
    obtain ⟨hdvd, hminutes⟩ := List.forall_mem_cons.mp haligned
    have hnext : ∀ start : ℤ, ∀ c ∈ some (start, slot), (60 : ℤ) ∣ c.2 ∧ ∀ p ∈ rest, c.2 < p.1 := by
      rintro start c ⟨⟩
      exact ⟨hdvd, fun p hp ↦ hslot p hp⟩
    rcases observation with _ | _
    · have hslots : takeoverSlots ((slot, .watchdogTakeover) :: rest) = slot :: takeoverSlots rest := by
        rw [takeoverSlots, List.filter_cons_of_pos rfl, List.map_cons, ← takeoverSlots]
      rcases current with _ | ⟨start, previous⟩
      · rw [takeoverRunsFrom, ih _ hpairwise hminutes (hnext slot), hslots]
        rfl
      · rw [takeoverRunsFrom]
        simp only [hslots]
        rw [runsFrom]
        split
        · exact ih _ hpairwise hminutes (hnext start)
        · rw [List.map_cons]
          exact congrArg _ (ih _ hpairwise hminutes (hnext slot))
    · have hslots : takeoverSlots ((slot, .cloudflareCron) :: rest) = takeoverSlots rest := by
        rw [takeoverSlots, List.filter_cons_of_neg (by simp), ← takeoverSlots]
      rw [takeoverRunsFrom, ih none hpairwise hminutes (by rintro c ⟨⟩), hslots]
      rcases current with _ | ⟨start, previous⟩
      · rfl
      · obtain ⟨hprevious, hbehind⟩ := hcurrent _ rfl
        dsimp only
        rcases hrest : takeoverSlots rest with _ | ⟨x, xs⟩
        · rfl
        · -- the slot of the Cron lies between the two, so they are not neighbours
          have hx : (x, Observation.watchdogTakeover) ∈ rest := by
            rw [← mem_takeoverSlots, hrest]
            exact List.mem_cons_self
          have hlt : previous < slot := hbehind _ List.mem_cons_self
          have hlt' : slot < x := hslot _ hx
          rw [runsFrom, if_neg fun heq ↦ by omega]
          rfl

theorem pairwise_sortedItems (observations : Observations) :
    (sortedItems observations).Pairwise fun p q ↦ p.1 < q.1 := by
  have hne : observations.entries.Pairwise fun p q ↦ compare p.1 q.1 ≠ .eq := by
    refine (List.pairwise_map.mp observations.nodup_keys).imp fun hne heq ↦ ?_
    exact hne (compare_eq_iff_eq.mp heq)
  have htrans : Std.TransCmp fun p q : ℤ × Observation ↦ compare p.1 q.1 :=
    transCmp_on (inferInstanceAs (Std.TransCmp (compare : ℤ → ℤ → Ordering))) Prod.fst
  exact (pairwise_lt_sortBy hne).imp compare_lt_iff_lt.mp

theorem mem_takeoverSlots_sortedItems {t : ℤ} :
    t ∈ takeoverSlots (sortedItems observations) ↔ TakenOver observations t := by
  rw [mem_takeoverSlots, sortedItems, mem_sortBy, TakenOver, OrderedMap.get?_eq_some_iff]

theorem pairwise_takeoverSlots (observations : Observations) :
    (takeoverSlots (sortedItems observations)).Pairwise (· < ·) :=
  List.pairwise_map.mpr ((pairwise_sortedItems observations).filter _)

theorem Aligned.takeoverRuns_eq (h : Aligned observations) : takeoverRuns observations
    = (runs 60 (takeoverSlots (sortedItems observations))).map Run.ofEnds := by
  refine takeoverRunsFrom_eq _ none (pairwise_sortedItems observations) (fun p hp ↦ ?_)
    (by rintro c ⟨⟩)
  exact h _ (List.mem_map_of_mem (mem_sortBy.mp hp))

/-- **The runs are the maximal runs of the slots that were taken over.** -/
theorem Aligned.mem_takeoverRuns (h : Aligned observations) {run : Run} :
    run ∈ takeoverRuns observations ↔
      IsRun 60 (TakenOver observations) run.startSlot run.endSlot ∧
        run.count = minutes run.startSlot run.endSlot := by
  have hset : (fun t ↦ t ∈ takeoverSlots (sortedItems observations)) = TakenOver observations :=
    funext fun t ↦ propext mem_takeoverSlots_sortedItems
  have hruns : ∀ ends : ℤ × ℤ, ends ∈ runs 60 (takeoverSlots (sortedItems observations)) ↔
      IsRun 60 (TakenOver observations) ends.1 ends.2 := by
    intro ends
    rw [← hset]
    refine mem_runs (by decide) (pairwise_takeoverSlots observations) fun s hs t ht ↦ ?_
    exact dvd_sub (h.dvd_of_takenOver (mem_takeoverSlots_sortedItems.mp ht))
      (h.dvd_of_takenOver (mem_takeoverSlots_sortedItems.mp hs))
  rw [h.takeoverRuns_eq, List.mem_map]
  constructor
  · rintro ⟨ends, hends, rfl⟩
    exact ⟨(hruns ends).mp hends, rfl⟩
  · rintro ⟨hrun, hcount⟩
    refine ⟨(run.startSlot, run.endSlot), (hruns _).mpr hrun, ?_⟩
    rw [Run.ofEnds, Run.of, ← minutes, ← hcount]

/-- Every stretch that was taken over is part of a run. -/
theorem Aligned.exists_isRun (h : Aligned observations) {start stop : ℤ}
    (hstretch : Stretch 60 (TakenOver observations) start stop) :
    ∃ start' stop', IsRun 60 (TakenOver observations) start' stop' ∧ start' ≤ start ∧
      stop ≤ stop' := by
  obtain ⟨ends, hends, hle, hge⟩ := exists_run_of_stretch (by decide)
    (pairwise_takeoverSlots observations)
    (fun s hs t ht ↦ dvd_sub (h.dvd_of_takenOver (mem_takeoverSlots_sortedItems.mp ht))
      (h.dvd_of_takenOver (mem_takeoverSlots_sortedItems.mp hs)))
    (hstretch.mono fun t ↦ mem_takeoverSlots_sortedItems.mpr)
  refine ⟨ends.1, ends.2, ?_, hle, hge⟩
  have hrun : Run.ofEnds ends ∈ takeoverRuns observations := by
    rw [h.takeoverRuns_eq]
    exact List.mem_map_of_mem hends
  exact (h.mem_takeoverRuns.mp hrun).1

theorem Aligned.pairwise_takeoverRuns (h : Aligned observations) :
    (takeoverRuns observations).Pairwise fun a b ↦ a.endSlot < b.startSlot := by
  rw [h.takeoverRuns_eq, List.pairwise_map]
  exact pairwise_runs (pairwise_takeoverSlots observations)

end Runs

/-! ## Groups -/

section Groups

variable {observations : Observations} {threshold : ℤ}

/-- What an episode says of the runs that it was made from. -/
structure Sums (observations : Observations) (group : List Run) (episode : Episode) : Prop where
  identity : ∃ first ∈ group.head?, episode.identityStartSlot = first.startSlot ∧
    episode.identityEndSlot = first.endSlot ∧
    episode.recoverySlot = recoverySlot observations first.endSlot
  start : (∃ run ∈ group, run.startSlot = episode.startSlot) ∧
    ∀ run ∈ group, episode.startSlot ≤ run.startSlot
  stop : (∃ run ∈ group, run.endSlot = episode.endSlot) ∧
    ∀ run ∈ group, run.endSlot ≤ episode.endSlot
  count : (∃ run ∈ group, run.count = episode.count) ∧ ∀ run ∈ group, run.count ≤ episode.count

/-- **Step.** -/
theorem Sums.add {group : List Run} {episode : Episode} (h : Sums observations group episode)
    (run : Run) : Sums observations (group ++ [run]) (addRun observations (some episode) run) := by
  have hmem : ∀ r ∈ group, r ∈ group ++ [run] := fun r hr ↦ List.mem_append_left _ hr
  have hlast : run ∈ group ++ [run] := by simp
  have hall : ∀ {P : Run → Prop}, (∀ r ∈ group, P r) → P run → ∀ r ∈ group ++ [run], P r := by
    intro P hgroup hrun r hr
    rcases List.mem_append.mp hr with hold | hnew
    · exact hgroup r hold
    · rwa [List.mem_singleton.mp hnew]
  obtain ⟨first, hfirst, hidentity⟩ := h.identity
  refine ⟨⟨first, ?_, hidentity⟩, ⟨?_, ?_⟩, ⟨?_, ?_⟩, ⟨?_, ?_⟩⟩
  · rw [List.head?_append, Option.mem_def.mp hfirst]
    rfl
  · rcases min_choice episode.startSlot run.startSlot with heq | heq
    · obtain ⟨r, hr, hstart⟩ := h.start.1
      exact ⟨r, hmem r hr, hstart.trans heq.symm⟩
    · exact ⟨run, hlast, heq.symm⟩
  · exact hall (fun r hr ↦ (min_le_left _ _).trans (h.start.2 r hr)) (min_le_right _ _)
  · rcases max_choice episode.endSlot run.endSlot with heq | heq
    · obtain ⟨r, hr, hstop⟩ := h.stop.1
      exact ⟨r, hmem r hr, hstop.trans heq.symm⟩
    · exact ⟨run, hlast, heq.symm⟩
  · exact hall (fun r hr ↦ (h.stop.2 r hr).trans (le_max_left _ _)) (le_max_right _ _)
  · rcases max_choice episode.count run.count with heq | heq
    · obtain ⟨r, hr, hcount⟩ := h.count.1
      exact ⟨r, hmem r hr, hcount.trans heq.symm⟩
    · exact ⟨run, hlast, heq.symm⟩
  · exact hall (fun r hr ↦ (h.count.2 r hr).trans (le_max_left _ _)) (le_max_right _ _)

/-- **Run.** The runs of a group are summed up in one episode. -/
theorem exists_sums (observations : Observations) {group : List Run} (hne : group ≠ []) : ∃ episode,
    group.foldl (fun acc run ↦ some (addRun observations acc run)) none = some episode ∧
      Sums observations group episode := by
  induction group using List.reverseRecOn with
  | nil => exact absurd rfl hne
  | append_singleton group run ih =>
    rw [List.foldl_append]
    by_cases hnil : group = []
    · subst hnil
      refine ⟨_, rfl, ⟨⟨run, rfl, rfl, rfl, rfl⟩, ⟨⟨run, by simp, rfl⟩, ?_⟩,
        ⟨⟨run, by simp, rfl⟩, ?_⟩, ⟨⟨run, by simp, rfl⟩, ?_⟩⟩⟩
      all_goals
        intro r hr
        rw [List.mem_singleton.mp hr]
        exact le_rfl
    · obtain ⟨episode, hfold, hsums⟩ := ih hnil
      rw [hfold]
      exact ⟨_, rfl, hsums.add run⟩

/-- An episode tells the bounds and the longest run of a group, and it begins with its identity. -/
structure IsEpisode (observations : Observations) (threshold : ℤ) (episode : Episode) : Prop where
  identity : InGroup observations threshold episode.recoverySlot episode.identityStartSlot
    episode.identityEndSlot
  start : episode.identityStartSlot = episode.startSlot
  within : ∀ a b, InGroup observations threshold episode.recoverySlot a b →
    episode.startSlot ≤ a ∧ b ≤ episode.endSlot ∧ minutes a b ≤ episode.count
  stop : ∃ a, InGroup observations threshold episode.recoverySlot a episode.endSlot
  count : ∃ a b, InGroup observations threshold episode.recoverySlot a b ∧
    minutes a b = episode.count

/-- The runs of the group with a given next slot. -/
def groupOf (observations : Observations) (threshold : ℤ) (next : Option ℤ) : List Run :=
  ((takeoverRuns observations).filter fun run ↦ threshold ≤ run.count).filter fun run ↦
    recoverySlot observations run.endSlot = next

theorem Aligned.mem_groupOf (h : Aligned observations) {next : Option ℤ} {run : Run} :
    run ∈ groupOf observations threshold next ↔
      InGroup observations threshold next run.startSlot run.endSlot ∧
        run.count = minutes run.startSlot run.endSlot := by
  rw [groupOf, List.mem_filter, List.mem_filter, h.mem_takeoverRuns, decide_eq_true_iff,
    decide_eq_true_iff, recoverySlot_eq_iff]
  constructor
  · rintro ⟨⟨⟨hrun, hcount⟩, hlong⟩, hnext⟩
    exact ⟨⟨hrun, hcount ▸ hlong, hnext⟩, hcount⟩
  · rintro ⟨⟨hrun, hlong, hnext⟩, hcount⟩
    exact ⟨⟨⟨hrun, hcount⟩, hcount ▸ hlong⟩, hnext⟩

theorem Aligned.isEpisode_of_sums (h : Aligned observations) {next : Option ℤ} {episode : Episode}
    (hsums : Sums observations (groupOf observations threshold next) episode) :
    IsEpisode observations threshold episode ∧ episode.recoverySlot = next := by
  obtain ⟨first, hfirst, hidStart, hidStop, hrecovery⟩ := hsums.identity
  have hmem : first ∈ groupOf observations threshold next := List.mem_of_mem_head? hfirst
  obtain ⟨hin, -⟩ := h.mem_groupOf.mp hmem
  have hnext : episode.recoverySlot = next := hrecovery.trans (recoverySlot_eq_iff.mpr hin.next)
  have hrun : ∀ a b, InGroup observations threshold next a b →
      (⟨a, b, minutes a b⟩ : Run) ∈ groupOf observations threshold next := fun a b hab ↦
    h.mem_groupOf.mpr ⟨hab, rfl⟩
  refine ⟨⟨?_, ?_, fun a b hab ↦ ?_, ?_, ?_⟩, hnext⟩
  · rw [hnext, hidStart, hidStop]
    exact hin
  · -- the runs stand in their order, so the first one starts first
    rw [hidStart]
    refine le_antisymm ?_ (hsums.start.2 first hmem)
    obtain ⟨run, hrunMem, hstart⟩ := hsums.start.1
    rw [← hstart]
    have hsorted : (groupOf observations threshold next).Pairwise fun a b ↦
        a.endSlot < b.startSlot := (h.pairwise_takeoverRuns.filter _).filter _
    rcases hgroup : groupOf observations threshold next with _ | ⟨head, rest⟩
    · rw [hgroup] at hmem
      exact absurd hmem List.not_mem_nil
    · rw [hgroup] at hfirst hsorted hrunMem
      obtain rfl := Option.some.inj hfirst
      rcases List.mem_cons.mp hrunMem with rfl | hlater
      · exact le_rfl
      · have hlt := (List.pairwise_cons.mp hsorted).1 run hlater
        exact hin.isRun.stretch.le.trans hlt.le
  · rw [hnext] at hab
    exact ⟨hsums.start.2 _ (hrun a b hab), hsums.stop.2 _ (hrun a b hab),
      hsums.count.2 _ (hrun a b hab)⟩
  · obtain ⟨run, hmem, hstop⟩ := hsums.stop.1
    rw [hnext, ← hstop]
    exact ⟨run.startSlot, (h.mem_groupOf.mp hmem).1⟩
  · obtain ⟨run, hmem, hcount⟩ := hsums.count.1
    rw [hnext, ← hcount]
    obtain ⟨hin, heq⟩ := h.mem_groupOf.mp hmem
    exact ⟨run.startSlot, run.endSlot, hin, heq.symm⟩

/-- **Every group is one episode.** -/
theorem Aligned.mem_episodes (h : Aligned observations) (threshold : ℤ) :
    (∀ episode ∈ qualifyingOutageEpisodes threshold observations,
      IsEpisode observations threshold episode) ∧
    (∀ next a b, InGroup observations threshold next a b →
      ∃ episode ∈ qualifyingOutageEpisodes threshold observations, episode.recoverySlot = next) ∧
    (qualifyingOutageEpisodes threshold observations).Pairwise fun e e' ↦
      e.recoverySlot ≠ e'.recoverySlot := by
  have hgroup : ∀ next, ((OrderedMap.collect
      (fun run : Run ↦ recoverySlot observations run.endSlot) (addRun observations)
      ((takeoverRuns observations).filter fun run ↦ threshold ≤ run.count)).get? next)
      = (groupOf observations threshold next).foldl
          (fun acc run ↦ some (addRun observations acc run)) none := fun next ↦
    OrderedMap.get?_collect _ _ _ next
  have hvalue : ∀ next episode, (OrderedMap.collect
      (fun run : Run ↦ recoverySlot observations run.endSlot) (addRun observations)
      ((takeoverRuns observations).filter fun run ↦ threshold ≤ run.count)).get? next
        = some episode → IsEpisode observations threshold episode ∧ episode.recoverySlot = next := by
    intro next episode hget
    rw [hgroup] at hget
    have hne : groupOf observations threshold next ≠ [] := by
      intro hnil
      rw [hnil] at hget
      rcases hget with ⟨⟩
    obtain ⟨episode', hfold, hsums⟩ := exists_sums observations hne
    obtain rfl := Option.some.inj (hget.symm.trans hfold)
    exact h.isEpisode_of_sums hsums
  refine ⟨fun episode hepisode ↦ ?_, fun next a b hab ↦ ?_, ?_⟩
  · rw [qualifyingOutageEpisodes, mem_sortBy, OrderedMap.mem_values] at hepisode
    obtain ⟨next, hentry⟩ := hepisode
    exact (hvalue next episode ((OrderedMap.get?_eq_some_iff _).mpr hentry)).1
  · have hmem : (⟨a, b, minutes a b⟩ : Run) ∈ groupOf observations threshold next :=
      h.mem_groupOf.mpr ⟨hab, rfl⟩
    obtain ⟨episode, hfold, -⟩ := exists_sums observations
      (List.ne_nil_of_mem hmem)
    have hget := (hgroup next).trans hfold
    refine ⟨episode, ?_, (hvalue next episode hget).2⟩
    rw [qualifyingOutageEpisodes, mem_sortBy, OrderedMap.mem_values]
    exact ⟨next, (OrderedMap.get?_eq_some_iff _).mp hget⟩
  · refine List.Pairwise.perm ?_ (sortBy_perm _).symm fun hne ↦ Ne.symm hne
    rw [OrderedMap.values, List.pairwise_map]
    refine (List.pairwise_map.mp (OrderedMap.nodup_keys _)).imp_of_mem fun {p q} hp hq hne ↦ ?_
    rw [(hvalue p.1 p.2 ((OrderedMap.get?_eq_some_iff _).mpr hp)).2,
      (hvalue q.1 q.2 ((OrderedMap.get?_eq_some_iff _).mpr hq)).2]
    exact hne

end Groups

/-! ## What lies between episodes -/

section Apart

variable {observations : Observations} {threshold t : ℤ} {episode episode' : Episode}

/-- A slot of the Cron lies between two intervals. -/
def Apart (observations : Observations) (a b a' b' : ℤ) : Prop :=
  ∃ c, Triggered observations c ∧ (b < c ∧ c < a' ∨ b' < c ∧ c < a)

theorem Apart.symm {a b a' b' : ℤ} (h : Apart observations a b a' b') :
    Apart observations a' b' a b := by
  obtain ⟨c, hc, hbetween⟩ := h
  exact ⟨c, hc, hbetween.symm⟩

theorem IsEpisode.not_triggered (haligned : Aligned observations)
    (h : IsEpisode observations threshold episode) (hle : episode.startSlot ≤ t)
    (hge : t ≤ episode.endSlot) : ¬Triggered observations t := by
  obtain ⟨a, hstop⟩ := h.stop
  exact h.identity.not_triggered haligned hstop (h.start ▸ hle) hge

/-- The slots of an episode all have its next slot of the Cron. -/
theorem IsEpisode.nextTrigger (haligned : Aligned observations)
    (h : IsEpisode observations threshold episode) (hle : episode.startSlot ≤ t)
    (hge : t ≤ episode.endSlot) : NextTrigger observations t episode.recoverySlot := by
  obtain ⟨a, hstop⟩ := h.stop
  refine (nextTrigger_congr hge fun c hc hlt ↦ ?_).mpr hstop.next
  by_contra hle'
  exact h.not_triggered haligned (hle.trans hlt.le) (not_lt.mp hle') hc

theorem IsEpisode.le (h : IsEpisode observations threshold episode) :
    episode.startSlot ≤ episode.endSlot := by
  obtain ⟨a, hstop⟩ := h.stop
  exact (h.within a _ hstop).1.trans hstop.isRun.stretch.le

theorem IsEpisode.apart_of_le (haligned : Aligned observations)
    (h : IsEpisode observations threshold episode) (h' : IsEpisode observations threshold episode')
    (hne : episode.recoverySlot ≠ episode'.recoverySlot)
    (hle : episode.startSlot ≤ episode'.startSlot) :
    ∃ c, Triggered observations c ∧ episode.endSlot < c ∧ c < episode'.startSlot := by
  have hnext' := h'.nextTrigger haligned le_rfl h'.le
  have hlt : episode.endSlot < episode'.startSlot := by
    by_contra hin
    exact hne ((h.nextTrigger haligned hle (not_lt.mp hin)).eq hnext')
  by_contra hnone
  refine hne ((nextTrigger_congr hlt.le fun c hc hlt' ↦ ?_).mp
    (h.nextTrigger haligned h.le le_rfl) |>.eq hnext')
  by_contra hle'
  rcases eq_or_lt_of_le (not_lt.mp hle') with rfl | hbefore
  · exact h'.not_triggered haligned le_rfl h'.le hc
  · exact hnone ⟨c, hc, hlt', hbefore⟩

/-- **Between two episodes the Cron has triggered.** -/
theorem IsEpisode.apart (haligned : Aligned observations)
    (h : IsEpisode observations threshold episode) (h' : IsEpisode observations threshold episode')
    (hne : episode.recoverySlot ≠ episode'.recoverySlot) :
    Apart observations episode.startSlot episode.endSlot episode'.startSlot episode'.endSlot := by
  rcases le_total episode.startSlot episode'.startSlot with hle | hle
  · obtain ⟨c, hc, hbetween⟩ := h.apart_of_le haligned h' hne hle
    exact ⟨c, hc, Or.inl hbetween⟩
  · obtain ⟨c, hc, hbetween⟩ := h'.apart_of_le haligned h hne.symm hle
    exact ⟨c, hc, Or.inr hbetween⟩

end Apart

end UkAqOps.CronHealth

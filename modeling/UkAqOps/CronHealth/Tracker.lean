import UkAqOps.Js.Date
import UkAqOps.Lib.OrderedMap
import UkAqOps.Lib.Sort

/-!
# The health of a Cloudflare Cron

`CronHealthTracker` of `scripts/mbpro_scheduler_watchdog/uk_aq_scheduler_watchdog.py`: for each minute
the watchdog sees who triggered a scheduler. Minutes that the watchdog took over make up outages, which
are computed again from all observations whenever one more comes in; an outage that is known already
keeps the report that was made for it.
-/

namespace UkAqOps.CronHealth

open Sorting

/-! ## Observations -/

/-- Who triggered a minute. -/
inductive Observation where
  | watchdogTakeover
  | cloudflareCron
deriving DecidableEq

/-- The observations of a worker by their minutes, in seconds. -/
abbrev Observations := OrderedMap ℤ Observation

def minuteSlotText (timestamp : ℤ) : String := toISOString (timestamp / 60 * 60 * 1000)

/-- `sorted(observations.items())`. -/
def sortedItems (observations : Observations) : List (ℤ × Observation) :=
  sortBy (fun a b ↦ compare a.1 b.1) observations.entries

/-! ## Runs -/

structure Run where
  startSlot : ℤ
  endSlot : ℤ
  count : ℤ
deriving DecidableEq

def Run.of (start previous : ℤ) : Run := ⟨start, previous, (previous - start) / 60 + 1⟩

/-- The run that ends, if there is one. -/
def closedRun : Option (ℤ × ℤ) → List Run
  | none => []
  | some (start, previous) => [Run.of start previous]

/-- The loop of `_takeover_runs` with its current run. -/
def takeoverRunsFrom : Option (ℤ × ℤ) → List (ℤ × Observation) → List Run
  | current, [] => closedRun current
  | current, (_, .cloudflareCron) :: rest => closedRun current ++ takeoverRunsFrom none rest
  | none, (slot, .watchdogTakeover) :: rest => takeoverRunsFrom (some (slot, slot)) rest
  | some (start, previous), (slot, .watchdogTakeover) :: rest =>
    if slot = previous + 60 then takeoverRunsFrom (some (start, slot)) rest
    else Run.of start previous :: takeoverRunsFrom (some (slot, slot)) rest

def takeoverRuns (observations : Observations) : List Run :=
  takeoverRunsFrom none (sortedItems observations)

/-! ## Episodes -/

structure Episode where
  startSlot : ℤ
  endSlot : ℤ
  count : ℤ
  identityStartSlot : ℤ
  identityEndSlot : ℤ
  recoverySlot : Option ℤ
deriving DecidableEq

def cloudflareSlots (observations : Observations) : List ℤ :=
  sortBy compare ((observations.entries.filter fun p ↦ p.2 = .cloudflareCron).map Prod.fst)

/-- The first slot of the Cron behind a slot. -/
def recoverySlot (observations : Observations) (endSlot : ℤ) : Option ℤ :=
  (cloudflareSlots observations).find? (endSlot < ·)

/-- What a run makes of the episode with its recovery slot. -/
def addRun (observations : Observations) (episode : Option Episode) (run : Run) : Episode :=
  match episode with
  | none =>
    { startSlot := run.startSlot, endSlot := run.endSlot, count := run.count
      identityStartSlot := run.startSlot, identityEndSlot := run.endSlot
      recoverySlot := recoverySlot observations run.endSlot }
  | some episode =>
    { episode with
      startSlot := min episode.startSlot run.startSlot
      endSlot := max episode.endSlot run.endSlot
      count := max episode.count run.count }

/-- `_qualifying_outage_episodes`. -/
def qualifyingOutageEpisodes (outageThresholdSlots : ℤ) (observations : Observations) :
    List Episode :=
  let runs := (takeoverRuns observations).filter fun run ↦ outageThresholdSlots ≤ run.count
  let episodesByRecovery := OrderedMap.collect
    (fun run : Run ↦ recoverySlot observations run.endSlot) (addRun observations) runs
  sortBy (fun a b ↦ compare a.startSlot b.startSlot) episodesByRecovery.values

/-- `range(start_slot, end_slot + 60, 60)`. -/
def minutesOf (startSlot endSlot : ℤ) : List ℤ :=
  (List.range ((endSlot + 60 - startSlot + 59) / 60).toNat).map fun i : ℕ ↦ startSlot + 60 * i

def Episode.unresolvedInternalGaps (observations : Observations) (episode : Episode) : Bool :=
  (minutesOf episode.startSlot episode.endSlot).any fun slot ↦ (observations.get? slot).isNone

def Episode.recoveryIsConclusive (observations : Observations) (episode : Episode) : Bool :=
  episode.recoverySlot.isSome && !episode.unresolvedInternalGaps observations

/-! ## Outages -/

/-- The report of an outage. -/
structure Payload where
  id : String
  createdAt : String
  message : String
  environment : String
  worker : String
  latestMinuteSlot : String
  consecutiveTakeoverCount : ℤ
  threshold : ℤ
deriving DecidableEq

structure Outage where
  startSlot : ℤ
  endSlot : ℤ
  count : ℤ
  identityStartSlot : ℤ
  identityEndSlot : ℤ
  active : Bool
  recoverySlot : Option ℤ
  recoveryLogged : Bool
  payload : Payload
deriving DecidableEq

structure Settings where
  environment : String
  outageThresholdSlots : ℤ

/-- The identifier and the time of a new report. -/
structure Stamp where
  id : String
  timestamp : String

def newOutage (settings : Settings) (stamp : Stamp) (workerName : String)
    (startSlot endSlot count : ℤ) : Outage where
  startSlot := startSlot
  endSlot := endSlot
  count := count
  identityStartSlot := startSlot
  identityEndSlot := endSlot
  active := true
  recoverySlot := none
  recoveryLogged := false
  payload :=
    { id := stamp.id
      createdAt := stamp.timestamp
      message := s!"Cloudflare Cron did not claim the {settings.environment} {workerName} scheduler " ++
        s!"for {count} consecutive minutes. The MacBook Pro scheduler watchdog supplied scheduling " ++
        "continuity during this interval."
      environment := settings.environment
      worker := workerName
      latestMinuteSlot := minuteSlotText endSlot
      consecutiveTakeoverCount := count
      threshold := settings.outageThresholdSlots }

/-! ## Computing the outages again -/

/-- The episode that the identity of an outage lies in. -/
def anchoredEpisode (episodes : List Episode) (outage : Outage) : Option ℕ :=
  episodes.findIdx? fun episode ↦ episode.startSlot ≤ outage.identityStartSlot ∧
    outage.identityEndSlot ≤ episode.endSlot

/-- The variables of `_recompute_outages`; an outage is named by its place in the list. -/
structure Recomputing where
  outages : List Outage
  assigned : List ℕ
  newlyDetected : List ℕ
  recoveries : List ℕ

/-- The outage that an episode belongs to: one that is anchored in it, or one without an anchor that
meets it. -/
def matchingOutage (anchored : ℕ → Option ℕ) (state : Recomputing) (episodeIndex : ℕ)
    (episode : Episode) : Option ℕ :=
  ((List.range state.outages.length).find? fun i ↦
    i ∉ state.assigned ∧ anchored i = some episodeIndex).or
  ((List.range state.outages.length).find? fun i ↦
    i ∉ state.assigned ∧ anchored i = none ∧ ∃ outage ∈ state.outages[i]?,
      outage.startSlot ≤ episode.endSlot ∧ episode.startSlot ≤ outage.endSlot)

/-- What becomes of the outage of an episode. -/
def Outage.settle (observations : Observations) (episode : Episode) (outage : Outage) : Outage :=
  let conclusive := episode.recoveryIsConclusive observations
  { outage with
    active := !conclusive
    recoverySlot := if conclusive then episode.recoverySlot else none
    recoveryLogged := outage.recoveryLogged || conclusive }

/-- One turn of the loop over the episodes. -/
def recomputeEpisode (settings : Settings) (stamps : ℕ → Stamp) (workerName : String)
    (observations : Observations) (anchored : ℕ → Option ℕ) (state : Recomputing)
    (indexed : Episode × ℕ) : Recomputing :=
  let (episode, episodeIndex) := indexed
  let (found, outages, newlyDetected) :=
    match matchingOutage anchored state episodeIndex episode with
    | none =>
      let outage := newOutage settings (stamps episodeIndex) workerName episode.startSlot
        episode.endSlot episode.count
      (state.outages.length, state.outages ++ [{ outage with
          identityStartSlot := episode.identityStartSlot
          identityEndSlot := episode.identityEndSlot }],
        state.newlyDetected ++ [state.outages.length])
    | some i =>
      (i, state.outages.modify i fun outage ↦ { outage with
          startSlot := episode.startSlot
          endSlot := episode.endSlot
          count := episode.count }, state.newlyDetected)
  let recovers := episode.recoveryIsConclusive observations &&
    !(outages[found]?.any (·.recoveryLogged))
  { outages := outages.modify found (·.settle observations episode)
    assigned := state.assigned ++ [found]
    newlyDetected
    recoveries := if recovers then state.recoveries ++ [found] else state.recoveries }

/-- `_recompute_outages`. -/
def recomputeOutages (settings : Settings) (stamps : ℕ → Stamp) (workerName : String)
    (observations : Observations) (existing : List Outage) : Recomputing :=
  let episodes := qualifyingOutageEpisodes settings.outageThresholdSlots observations
  let anchored := fun i ↦ existing[i]?.bind (anchoredEpisode episodes)
  episodes.zipIdx.foldl (recomputeEpisode settings stamps workerName observations anchored)
    ⟨existing, [], [], []⟩

/-! ## Recording -/

def cronObservationRetentionSlots : ℤ := 120

/-- `_prune_observations`. -/
def pruneObservations (observations : Observations) : Observations :=
  match observations.keys.max? with
  | none => observations
  | some latest => observations.filterKeys fun slot ↦
      decide (latest - cronObservationRetentionSlots * 60 ≤ slot)

/-- What is held for a worker. -/
structure Health where
  observations : Observations
  outages : List Outage

/-- What is logged; an outage is named by its place among those of its worker. -/
inductive LogEvent where
  | conflict (minuteSlot : String) (existing ignored : Observation)
  | outageDetected (outage : ℕ) (minuteSlot : String) (count : ℤ) (detectionTimestamp : String)
  | recovered (outage : ℕ) (minuteSlot : String) (previousCount : ℤ)
deriving DecidableEq

/-- A call of `record`. -/
structure Record where
  workerName : String
  minuteEpoch : ℤ
  minuteSlot : String
  observation : Observation
  /-- The identifiers and times that new reports would get. -/
  stamps : ℕ → Stamp

/-- What is logged of the outages of a worker. -/
def outageLogs (state : Recomputing) : List LogEvent :=
  (state.newlyDetected.filterMap fun i ↦ state.outages[i]?.map fun outage ↦
    .outageDetected i (minuteSlotText outage.endSlot) outage.count outage.payload.createdAt) ++
  state.recoveries.filterMap fun i ↦ state.outages[i]?.map fun outage ↦
    .recovered i (minuteSlotText (outage.recoverySlot.getD 0)) outage.count

/-- `record`, for the worker it is about. -/
def record (settings : Settings) (health : Health) (call : Record) : Health × List LogEvent :=
  match health.observations.get? call.minuteEpoch with
  | some existing =>
    if existing ≠ call.observation then
      (health, [.conflict call.minuteSlot existing call.observation])
    else recorded
  | none => recorded
where
  recorded : Health × List LogEvent :=
    let observations := pruneObservations (health.observations.set call.minuteEpoch call.observation)
    let state := recomputeOutages settings call.stamps call.workerName observations health.outages
    (⟨observations, state.outages⟩, outageLogs state)

/-- The workers, with what was logged of them. -/
structure Tracker where
  workers : String → Health
  logs : List (String × LogEvent)

def initial : Tracker := ⟨fun _ ↦ ⟨OrderedMap.empty, []⟩, []⟩

def step (settings : Settings) (tracker : Tracker) (call : Record) : Tracker :=
  let (health, logs) := record settings (tracker.workers call.workerName) call
  { workers := fun name ↦ if name = call.workerName then health else tracker.workers name
    logs := tracker.logs ++ logs.map fun log ↦ (call.workerName, log) }

/-- The tracker after some calls. -/
def run (settings : Settings) (calls : List Record) : Tracker := calls.foldl (step settings) initial

end UkAqOps.CronHealth

import UkAqOps.Js.Date
import UkAqOps.Js.Value
import UkAqOps.Lib.Except

/-!
# Minute slots and cron expressions

The scheduler evaluates the jobs over the minute that ends at the canonical slot of the invocation,
moved forward by a lead of half a minute. The two ends of the moved window are floored to the
minute again, and `cronDueTimes_slot` shows what is left: the slot itself, when the cron expression
matches it, and nothing else.

A time that the code carries as an ISO text is an `IsoTime`, the instant that the text denotes:
`toISOString` and `Date.parse` are inverse on the instants a `Date` can hold.
-/

namespace UkAqOps.Scheduler

/-- The built-in operations the scheduler relies on: `text.toUpperCase()`, the value of
`Number(text)` when it is an integer, `JSON.parse(text)`, and the protocol and host name of
`new URL(text)`. -/
structure Host where
  toUpperCase : String → String
  integerOf : String → Option ℤ
  parseJson : String → Except String JsValue
  parseUrl : String → Option (String × String)

/-! ## Instants -/

/-- The largest time value a `Date` can hold. -/
def maxTime : ℤ := 8640000000000000

/-- An instant that has an ISO text. -/
structure IsoTime where
  ms : ℤ
  lower : -maxTime ≤ ms
  upper : ms ≤ maxTime
deriving DecidableEq

@[ext] theorem IsoTime.ext' {a b : IsoTime} (h : a.ms = b.ms) : a = b := by
  cases a
  cases b
  simpa using h

/-- `new Date(nowMs).toISOString()`: a `RangeError` outside the range of dates. -/
def nowIso (nowMs : ℤ) : Except String IsoTime :=
  if h : -maxTime ≤ nowMs ∧ nowMs ≤ maxTime then .ok ⟨nowMs, h.1, h.2⟩
  else .error "Invalid time value"

theorem nowIso_eq_ok_iff {nowMs : ℤ} {t : IsoTime} : nowIso nowMs = .ok t ↔ t.ms = nowMs := by
  rw [nowIso]
  by_cases h : -maxTime ≤ nowMs ∧ nowMs ≤ maxTime
  · rw [dif_pos h, Except.ok.injEq]
    exact ⟨fun heq ↦ by rw [← heq], fun heq ↦ IsoTime.ext' heq.symm⟩
  · rw [dif_neg h]
    refine iff_of_false (by simp) fun heq ↦ h ?_
    rw [← heq]
    exact ⟨t.lower, t.upper⟩

/-- `DISPATCH_LEAD_MS`: half a minute. -/
def dispatchLeadMs : ℤ := 30000

/-- `Math.floor(ms / MINUTE_MS) * MINUTE_MS`. -/
def floorMinute (ms : ℤ) : ℤ := ms / minuteMs * minuteMs

/-- The slot of an invocation: the minute it falls in. -/
def canonicalMinuteSlot (nowMs : ℤ) : Except String IsoTime := nowIso (floorMinute nowMs)

/-- The start and the end of the minute that ends at the slot, and the texts of both. -/
structure EvaluationWindow where
  startMs : ℤ
  endMs : ℤ
  start : IsoTime
  windowEnd : IsoTime

def currentMinuteEvaluationWindow (minuteSlot : IsoTime) : Except String EvaluationWindow := do
  let start ← nowIso (minuteSlot.ms - minuteMs)
  let windowEnd ← nowIso minuteSlot.ms
  pure ⟨minuteSlot.ms - minuteMs, minuteSlot.ms, start, windowEnd⟩

/-! ## Cron fields -/

def monthNameToNumber : List (String × ℤ) :=
  [("JAN", 1), ("FEB", 2), ("MAR", 3), ("APR", 4), ("MAY", 5), ("JUN", 6), ("JUL", 7), ("AUG", 8),
    ("SEP", 9), ("OCT", 10), ("NOV", 11), ("DEC", 12)]

def dowNameToNumber : List (String × ℤ) :=
  [("SUN", 0), ("MON", 1), ("TUE", 2), ("WED", 3), ("THU", 4), ("FRI", 5), ("SAT", 6)]

/-- The name, the bounds and the names of the values of a cron field. -/
structure FieldSpec where
  fieldName : String
  min : ℤ
  max : ℤ
  names : List (String × ℤ) := []

def normalizeCronAtom (host : Host) (spec : FieldSpec) (token : String) : Except String ℤ :=
  let normalized := host.toUpperCase (trimText token)
  if normalized = "" then .error s!"Invalid {spec.fieldName}: empty token"
  else match spec.names.lookup normalized with
    | some value => .ok value
    | none =>
      if spec.fieldName = "day-of-week" ∧ normalized = "7" then .ok 0
      else match host.integerOf normalized with
        | none =>
          .error s!"Invalid {spec.fieldName}: {jsonQuote token} is not a valid value"
        | some parsed =>
          if parsed < spec.min ∨ spec.max < parsed then
            .error s!"Invalid {spec.fieldName}: {parsed} outside {spec.min}-{spec.max}"
          else .ok (if spec.fieldName = "day-of-week" ∧ parsed = 7 then 0 else parsed)

/-- The base of a token and its step, which is one unless a `/` gives it. -/
def cronBaseAndStep (host : Host) (spec : FieldSpec) (token parts : String) :
    Except String (String × ℤ) :=
  if includesText parts "/" then
    match splitText parts '/' with
    | [base, stepText] =>
      match host.integerOf (trimText stepText) with
      | some step =>
        if 0 < step then .ok (base, step)
        else .error s!"Invalid {spec.fieldName}: step must be a positive integer"
      | none => .error s!"Invalid {spec.fieldName}: step must be a positive integer"
    | _ => .error s!"Invalid {spec.fieldName}: {jsonQuote token}"
  else .ok (parts, 1)

/-- The first and the last value of the base of a token. -/
def cronRange (host : Host) (spec : FieldSpec) (token base : String) : Except String (ℤ × ℤ) :=
  if base = "*" then .ok (spec.min, spec.max)
  else if includesText base "-" then
    match splitText base '-' with
    | [first, last] => do
      let start ← normalizeCronAtom host spec first
      let stop ← normalizeCronAtom host spec last
      pure (start, stop)
    | _ => .error s!"Invalid {spec.fieldName}: {jsonQuote token}"
  else do
    let start ← normalizeCronAtom host spec base
    pure (start, start)

/-- The values `start`, `start + step`, … up to `stop`. -/
def steppedValues (start stop step : ℤ) : List ℤ :=
  (List.range ((stop - start) / step + 1).toNat).map fun i ↦ start + step * (i : ℤ)

def expandCronToken (host : Host) (spec : FieldSpec) (token : String) :
    Except String (List ℤ) := do
  let parts := host.toUpperCase (trimText token)
  if parts = "" then .error s!"Invalid {spec.fieldName}: empty cron token" else
  let (base, step) ← cronBaseAndStep host spec token parts
  let (start, stop) ← cronRange host spec token base
  if stop < start then .error s!"Invalid {spec.fieldName}: range start must be <= range end" else
  pure ((steppedValues start stop step).map fun value ↦
    if spec.fieldName = "day-of-week" ∧ value = 7 then 0 else value)

/-- A parsed field: any value, or a set of values. -/
inductive CronField where
  | any
  | values (values : List ℤ)

def parseCronField (host : Host) (spec : FieldSpec) (field : String) : Except String CronField := do
  let normalized := host.toUpperCase (trimText field)
  if normalized = "" then .error s!"Invalid cron expression: missing {spec.fieldName}" else
  if normalized = "*" then pure .any else
  let expanded ← (splitText normalized ',').mapM (expandCronToken host spec)
  pure (.values expanded.flatten)

structure Cron where
  minute : CronField
  hour : CronField
  dayOfMonth : CronField
  month : CronField
  dayOfWeek : CronField

def parseCronExpression (host : Host) (expr : String) : Except String Cron :=
  match splitWhitespace (trimText expr) with
  | [minute, hour, dayOfMonth, month, dayOfWeek] => do
    pure {
      minute := ← parseCronField host { fieldName := "minute", min := 0, max := 59 } minute
      hour := ← parseCronField host { fieldName := "hour", min := 0, max := 23 } hour
      dayOfMonth := ← parseCronField host { fieldName := "day-of-month", min := 1, max := 31 }
        dayOfMonth
      month := ← parseCronField host
        { fieldName := "month", min := 1, max := 12, names := monthNameToNumber } month
      dayOfWeek := ← parseCronField host
        { fieldName := "day-of-week", min := 0, max := 7, names := dowNameToNumber } dayOfWeek }
  | _ => .error s!"Invalid cron expression {jsonQuote expr}: expected five fields"

/-! ## Matching -/

def fieldMatches : CronField → ℤ → Bool
  | .any, _ => true
  | .values values, value => values.contains value

/-- `date.getUTCMinutes()`, `date.getUTCHours()` and `date.getUTCDay()`. -/
def utcMinutes (ms : ℤ) : ℤ := ms / minuteMs % 60
def utcHours (ms : ℤ) : ℤ := ms / hourMs % 24
def utcDay (ms : ℤ) : ℤ := (ms / dayMs + 4) % 7

def cronMatchesDate (cron : Cron) (ms : ℤ) : Bool :=
  let date := civilFromDays (ms / dayMs)
  let domMatches := fieldMatches cron.dayOfMonth date.day
  let dowMatches := fieldMatches cron.dayOfWeek (utcDay ms)
  let dayMatches := match cron.dayOfMonth, cron.dayOfWeek with
    | .any, _ => domMatches && dowMatches
    | _, .any => domMatches && dowMatches
    | _, _ => domMatches || dowMatches
  fieldMatches cron.minute (utcMinutes ms) && fieldMatches cron.hour (utcHours ms) &&
    fieldMatches cron.month date.month && dayMatches

/-- The whole minutes from `start` to `stop`, both included. -/
def minutesUpTo (start stop : ℤ) : List ℤ := steppedValues start stop minuteMs

def cronDueTimes (host : Host) (expr : String) (startExclusiveMs endInclusiveMs : ℤ) :
    Except String (List IsoTime) := do
  let cron ← parseCronExpression host expr
  let start := floorMinute startExclusiveMs + minuteMs
  let stop := floorMinute endInclusiveMs
  if stop < start then pure []
  else ((minutesUpTo start stop).filter (cronMatchesDate cron)).mapM nowIso

/-! ## The shifted window holds one minute -/

theorem floorMinute_floorMinute_add {ms lead : ℤ} (h0 : 0 ≤ lead) (h1 : lead < minuteMs) :
    floorMinute (floorMinute ms + lead) = floorMinute ms := by
  simp only [floorMinute, minuteMs] at *
  omega

theorem floorMinute_sub_minute (ms : ℤ) : floorMinute (ms - minuteMs) = floorMinute ms - minuteMs := by
  simp only [floorMinute, minuteMs]
  omega

theorem minutesUpTo_self (ms : ℤ) : minutesUpTo ms ms = [ms] := by
  simp [minutesUpTo, steppedValues]

/-- The window of a slot, moved by the lead, holds the slot and no other minute. -/
theorem cronDueTimes_slot (host : Host) (expr : String) {nowMs : ℤ} {slot : IsoTime}
    (hslot : canonicalMinuteSlot nowMs = .ok slot) :
    cronDueTimes host expr (slot.ms - minuteMs + dispatchLeadMs) (slot.ms + dispatchLeadMs)
      = (fun cron ↦ if cronMatchesDate cron slot.ms then [slot] else []) <$>
        parseCronExpression host expr := by
  have hfloor : slot.ms = floorMinute nowMs := nowIso_eq_ok_iff.mp hslot
  have hlead : floorMinute (slot.ms + dispatchLeadMs) = slot.ms := by
    rw [hfloor]
    exact floorMinute_floorMinute_add (by decide) (by decide)
  have hstart : floorMinute (slot.ms - minuteMs + dispatchLeadMs) + minuteMs = slot.ms := by
    have hshift : slot.ms - minuteMs + dispatchLeadMs = slot.ms + dispatchLeadMs - minuteMs := by
      omega
    rw [hshift, floorMinute_sub_minute, hlead, Int.sub_add_cancel]
  have hnow : nowIso slot.ms = .ok slot := nowIso_eq_ok_iff.mpr rfl
  rw [cronDueTimes, hlead, hstart]
  cases parseCronExpression host expr with
  | error message => rfl
  | ok cron =>
    change (if slot.ms < slot.ms then _ else _)
      = Except.ok (if cronMatchesDate cron slot.ms then [slot] else [])
    rw [if_neg (Int.lt_irrefl _), minutesUpTo_self, Except.mapM_eq_ok_iff]
    by_cases hmatch : cronMatchesDate cron slot.ms
    · rw [if_pos hmatch, List.filter_cons_of_pos hmatch]
      exact List.Forall₂.cons hnow List.Forall₂.nil
    · rw [if_neg hmatch, List.filter_cons_of_neg hmatch]
      exact List.Forall₂.nil

end UkAqOps.Scheduler

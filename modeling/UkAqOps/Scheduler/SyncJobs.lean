import UkAqOps.Scheduler.CronGrammar

/-!
# The cron check of the job synchroniser

`sync_jobs.py` checks the cron expressions of the jobs before it writes them to the jobs table. The
check is written once more in Python, with Python's white space, `str.upper` and `int`. The names of
the months and of the weekdays and the bounds of the fields are those of the worker.
-/

namespace UkAqOps.Scheduler.SyncJobs

/-- The built-in text functions that rest on the Unicode tables: `text.upper()`, the value of a
decimal digit, and `repr(text)`. -/
structure Python where
  upper : String → String
  decimal : Char → Option ℕ
  repr : String → String

/-- `c.isspace()`. -/
def isPySpace (c : Char) : Bool :=
  c.val ∈ [0x9, 0xA, 0xB, 0xC, 0xD, 0x1C, 0x1D, 0x1E, 0x1F, 0x20, 0x85, 0xA0, 0x1680, 0x2000, 0x2001,
    0x2002, 0x2003, 0x2004, 0x2005, 0x2006, 0x2007, 0x2008, 0x2009, 0x200A, 0x2028, 0x2029, 0x202F,
    0x205F, 0x3000]

/-- `text.strip()`. -/
def strip (s : String) : String :=
  String.ofList ((s.toList.dropWhile isPySpace).rdropWhile isPySpace)

/-- The digits of `int(text)`: at most 4300 of them, with single underscores between them. -/
def Python.natural (py : Python) (cs : List Char) : Option ℕ :=
  let groups := splitChars (· = '_') cs
  if [] ∈ groups ∨ 4300 < groups.flatten.length then none
  else (groups.flatten.mapM py.decimal).map (List.foldl (fun n d ↦ n * 10 + d) 0)

/-- `int(text)` of a text with no white space around it. -/
def Python.int (py : Python) (s : String) : Option ℤ :=
  match s.toList with
  | '+' :: cs => (py.natural cs).map Int.ofNat
  | '-' :: cs => (py.natural cs).map fun n ↦ -Int.ofNat n
  | cs => (py.natural cs).map Int.ofNat

def normalizeCronAtom (py : Python) (spec : FieldSpec) (token : String) : Except String ℤ :=
  let normalized := py.upper (strip token)
  if normalized = "" then .error s!"Invalid {spec.fieldName}: empty token"
  else match spec.names.lookup normalized with
    | some value => .ok value
    | none =>
      if spec.fieldName = "day-of-week" ∧ normalized = "7" then .ok 0
      else match py.int normalized with
        | none => .error s!"Invalid {spec.fieldName}: {py.repr token} is not a valid value"
        | some parsed =>
          if parsed < spec.min ∨ spec.max < parsed then
            .error s!"Invalid {spec.fieldName}: {parsed} outside {spec.min}-{spec.max}"
          else .ok (if spec.fieldName = "day-of-week" ∧ parsed = 7 then 0 else parsed)

/-- The base of a token, whose step is checked. -/
def baseOf (py : Python) (spec : FieldSpec) (token normalized : String) : Except String String :=
  if includesText normalized "/" then
    match splitText normalized '/' with
    | [base, stepText] =>
      match py.int (strip stepText) with
      | none => .error s!"Invalid {spec.fieldName}: step must be a positive integer"
      | some step =>
        if step ≤ 0 then .error s!"Invalid {spec.fieldName}: step must be a positive integer"
        else .ok base
    | _ => .error s!"Invalid {spec.fieldName}: {py.repr token}"
  else .ok normalized

/-- The first and the last value of a base. -/
def rangeOf (py : Python) (spec : FieldSpec) (token base : String) : Except String (ℤ × ℤ) :=
  if base = "*" then .ok (spec.min, spec.max)
  else if includesText base "-" then
    match splitText base '-' with
    | [first, last] => do
      let start ← normalizeCronAtom py spec first
      let stop ← normalizeCronAtom py spec last
      pure (start, stop)
    | _ => .error s!"Invalid {spec.fieldName}: {py.repr token}"
  else do
    let start ← normalizeCronAtom py spec base
    pure (start, start)

/-- `expand_cron_token` of a token without commas, as its recursion reaches them. -/
def expandListToken (py : Python) (spec : FieldSpec) (token : String) : Except String Unit := do
  let normalized := py.upper (strip token)
  if normalized = "" then .error s!"Invalid {spec.fieldName}: empty cron token" else
  let base ← baseOf py spec token normalized
  let (start, stop) ← rangeOf py spec token base
  if stop < start then .error s!"Invalid {spec.fieldName}: range start must be <= range end" else
  pure ()

def expandCronToken (py : Python) (spec : FieldSpec) (token : String) : Except String Unit :=
  let normalized := py.upper (strip token)
  if includesText normalized "," then
    (splitText normalized ',').forM (expandListToken py spec)
  else expandListToken py spec token

/-- `text.split()`. -/
def splitFields (s : String) : List String := (words isPySpace s.toList).map String.ofList

def validateCronExpression (py : Python) (expr jobKey : String) : Except String String :=
  let cronExpr := strip expr
  if cronExpr = "" then .error s!"Invalid scheduler job {jobKey}: missing cron_expr"
  else match splitFields cronExpr with
    | [minute, hour, dayOfMonth, month, dayOfWeek] => do
      expandCronToken py minuteSpec minute
      expandCronToken py hourSpec hour
      expandCronToken py dayOfMonthSpec dayOfMonth
      expandCronToken py monthSpec month
      expandCronToken py dayOfWeekSpec dayOfWeek
      pure cronExpr
    | _ => .error s!"Invalid scheduler job {jobKey}: cron_expr must have five fields"

end UkAqOps.Scheduler.SyncJobs

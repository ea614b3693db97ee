import UkAqOps.Verification.Manifest

/-!
# The validation status of a day

`src/workers/uk_aq_observs_history_r2_api_worker/worker_v3.mjs`: for a part of a day the worker reads
the observations and asks the overlay for the status of each. For a whole day it has the first and
the last timestamp alone, and asks for the status of the first and whether a provisional period
starts before the last.
-/

namespace UkAqOps.Verification

open Periods

variable (dateParse : DateParse)

/-- The connector of an authority is the one of its manifest. -/
def aurnVerificationTimeseries (authority : Option Authority) (timeseriesId : ℤ) :
    Except String TimeseriesEntry :=
  match authority.filter fun authority ↦
      authority.overlayAuthoritative && decide (authority.manifest.connectorId = 1) with
  | none => .error "authoritative connector-1 verification overlay is required"
  | some authority =>
    match authority.manifest.timeseries.find? fun entry ↦ entry.timeseriesId = timeseriesId with
    | none => .error "verification overlay does not contain the requested timeseries"
    | some timeseries =>
      if timeseries.sourceVerificationModel ≠ perObservationModel then
        .error "AURN daily provenance requires per-observation verification authority"
      else .ok timeseries

/-- The loop over the rows, which are given by their `observed_at_utc`. -/
def classifyRows (authority : Option Authority) (timeseriesId : ℤ) :
    Bool → List JsValue → Except String (Option Status)
  | sawRatified, [] => .ok (if sawRatified then some .R else none)
  | _, observedAtUtc :: rest => do
    match ← resolveEffectiveObservationVerificationStatus dateParse authority timeseriesId
      observedAtUtc none with
    | some .P => .ok (some .P)
    | some .R => classifyRows authority timeseriesId true rest
    | none => .error "verification overlay cannot classify a boundary-day observation"

def deriveAurnPartialDayValidationStatus (authority : Option Authority) (timeseriesId : ℤ)
    (rows : List JsValue) : Except String (Option Status) := do
  let _ ← aurnVerificationTimeseries authority timeseriesId
  classifyRows dateParse authority timeseriesId false rows

def isoOrNull (value : String) : Option String :=
  let text := trimText value
  if text = "" then none else (dateParse text).map toISOString

/-- A provisional period starts after the first timestamp and not after the last one. -/
def startsProvisional (timeseries : TimeseriesEntry) (minObserved maxObserved : String) : Bool :=
  timeseries.periods.any fun period ↦
    decide (period.value = .P) &&
      period.start.any fun start ↦ decide (minObserved < start) && decide (start ≤ maxObserved)

def deriveAurnDailyValidationStatus (authority : Option Authority) (timeseriesId : ℤ)
    (minObservedAtUtc maxObservedAtUtc : String) : Except String (Option Status) := do
  let timeseries ← aurnVerificationTimeseries authority timeseriesId
  match isoOrNull dateParse minObservedAtUtc, isoOrNull dateParse maxObservedAtUtc with
  | some minObserved, some maxObserved =>
    if maxObserved < minObserved then .error "exact-leaf daily observation bounds are invalid"
    else
      match ← resolveEffectiveObservationVerificationStatus dateParse authority timeseriesId
        (.str minObserved) none with
      | some .P => .ok (some .P)
      | some .R =>
        .ok (some (if startsProvisional timeseries minObserved maxObserved then .P else .R))
      | none => .error "verification overlay cannot classify the first daily observation"
  | _, _ => .error "exact-leaf daily observation bounds are invalid"

end UkAqOps.Verification

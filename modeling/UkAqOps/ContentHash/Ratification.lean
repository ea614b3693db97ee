import UkAqOps.ContentHash.Lines
import UkAqOps.Js.JsonForm
import UkAqOps.Js.SignedYears
import UkAqOps.Lib.OrderedMap

/-!
# Rows that were ratified before

Before a connector-day is written again, `preservePersistedRatifiedStatus` compares its rows with
those that are persisted: a row whose identity is persisted as ratified is ratified, too. Rows come
in two historical shapes, with the status under `verification_status` or under `status`, and a row
that has both is refused wherever its status is read.
-/

namespace UkAqOps.ContentHash

/-! ## Rows as objects -/

/-- A row of a connector-day: the own properties of an object, in their order. -/
abbrev RowObject := OrderedMap String JsValue

/-- `row[column]`. -/
def RowObject.read (row : RowObject) (column : String) : JsValue :=
  (row.get? column).getD .undefined

/-- What the language does with values and texts: `toLowerCase`, the time value of `new Date(value)`
unless the date is invalid, and `Number(value)`. -/
structure RowHost where
  toLowerCase : String → String
  timeValue : JsValue → Option TimeValue
  number : JsValue → Binary64

/-- The part of the language that the status relies on: a word of letters in lower case. -/
def RowHost.Lawful (host : RowHost) : Prop :=
  ∀ text, (∀ c ∈ text.toList, c.isAlpha = true) →
    host.toLowerCase text = String.ofList (text.toList.map Char.toLower)

/-- `left ?? null`. -/
def orNull : JsValue → JsValue
  | .undefined => .null
  | value => value

/-- `left || right`. -/
def orElse (left right : JsValue) : JsValue := if left.truthy then left else right

section Preserve

variable (host : RowHost)

/-- A value as the columns of the encoder see it. -/
def RowHost.field : JsValue → Field
  | .undefined => .undefined
  | .null => .null
  | .num text => .number (host.number (.num text))
  | .str text => .text text
  | _ => .other

/-! ## The status of a row -/

/-- The annual status cell is authoritative only when it says that the value is ratified. -/
def normalizeUkAirVerificationStatus (value : JsValue) : VerificationStatus :=
  let normalized := host.toLowerCase (trimText value.textOrEmpty)
  if normalized = "r" ∨ normalized = "ratified" then .R else .P

def resolveLegacyVerificationStatus (row : RowObject) (isSos : Bool) :
    Except String (Option VerificationStatus) := do
  let column ← selectObservationVerificationStatusColumn row.keys
  -- what is persisted under the new name is canonical, and a null stays unknown
  if column = some "verification_status" then
    requireCanonicalVerificationStatus (host.field (row.read "verification_status"))
  else if column = some "status" then
    pure (if isSos then some (normalizeUkAirVerificationStatus host (row.read "status")) else none)
  else if column = none then pure none
  else .error ("Unsupported observation status field: " ++ column.getD "")

/-- `normalizeUkAirVerificationStatus(resolveLegacyVerificationStatus(row, …)) === "R"`. -/
def isRatified (row : RowObject) : Except String Bool := do
  let status ← resolveLegacyVerificationStatus host row true
  pure (normalizeUkAirVerificationStatus host (status.elim .null fun s ↦ .str s.text) = .R)

/-! ## The identity of a row -/

/-- The text under which a row is looked up. -/
def rowIdentity (connectorId : ℤ) (row : RowObject) : Except String String := do
  let observedAt ← match host.timeValue
      (orElse (row.read "observed_at_utc") (row.read "observed_at")) with
    | none => .error "Invalid time value"
    | some instant => pure (toISOString instant)
  let value ← float64BigEndianHex (host.number (row.read "value"))
  pure (JsValue.arr [.int connectorId, orNull (row.read "station_id"), row.read "timeseries_id",
    .str (host.toLowerCase (row.read "pollutant_code").orBlank), .str observedAt,
    .str value]).stringify

/-! ## Preserving -/

/-- `{ ...row, verification_status: "R" }`. -/
def ratify (row : RowObject) : RowObject := row.set "verification_status" (.str "R")

/-- The identities that are persisted as ratified. -/
def persistedRatified (connectorId : ℤ) (existingRows : List RowObject) :
    Except String (List String) := do
  let marked ← existingRows.mapM fun row ↦ (row, ·) <$> isRatified host row
  ((marked.filter (·.2)).map (·.1)).mapM (rowIdentity host connectorId)

def preserveRow (connectorId : ℤ) (persisted : List String) (row : RowObject) :
    Except String RowObject := do
  let identity ← rowIdentity host connectorId row
  if identity ∉ persisted then pure row
  else if ← isRatified host row then pure row
  else pure (ratify row)

def preservePersistedRatifiedStatus (replacementRows existingRows : List RowObject)
    (connectorId : ℤ := 1) : Except String (List RowObject) :=
  if connectorId ≠ 1 then pure replacementRows
  else do
    let persisted ← persistedRatified host connectorId existingRows
    replacementRows.mapM (preserveRow host connectorId persisted)

end Preserve

end UkAqOps.ContentHash

import UkAqOps.Js.Date
import UkAqOps.Js.Utf16
import UkAqOps.Lib.Sort
import UkAqOps.StaleParquet.References

/-!
# Pruning a unit

The Parquet files that a listing of the destination holds are divided: those that a source manifest
refers to, those that only a destination manifest refers to, and the stale ones. The stale ones are
deleted, and none at all if there is one of the second kind.
-/

namespace UkAqOps.StaleParquet

open Sorting

/-! ## The plan -/

/-- The digits that a text starts with, and what follows them. -/
def spanDigits (cs : List Char) : List Char × List Char := cs.span Char.isDigit

/-- What follows a text at the front of a part. -/
def afterText (part : List Char) (text : String) : Option (List Char) :=
  if text.toList <+: part then some (part.drop text.toList.length) else none

/-- The connector and the pollutant that a path names: the first match of
`/(?:^|\/)connector_id=([1-9]\d*)(?:\/pollutant_code=([^/]+))?/`. -/
def scopeOfParts : List (List Char) → Option ℤ × Option String
  | [] => (none, none)
  | part :: rest =>
    match (afterText part "connector_id=").map spanDigits with
    | some (c :: digits, after) =>
      if c = '0' then scopeOfParts rest
      else
        let pollutant := (if after = [] then rest.head? else none).bind fun next ↦
          (afterText next "pollutant_code=").filter (· ≠ [])
        (some (decimalOf (c :: digits)), pollutant.map String.ofList)
    | _ => scopeOfParts rest

def divergenceScope (relativePath : String) : Option ℤ × Option String :=
  scopeOfParts (splitChars (· = '/') relativePath.toList)

structure Divergence where
  connectorId : Option ℤ
  pollutantCode : Option String
  parquetRelativePath : String
  parquetKey : String
  manifestRelativePaths : List String
  manifestKeys : List String

structure Plan where
  unitRelativePath : String
  manifestCount : ℕ
  destinationManifestCount : ℕ
  manifestReferencedParquetCount : ℕ
  destinationManifestReferencedParquetCount : ℕ
  actualDestinationParquetCount : ℕ
  staleRelativePaths : List String
  manifestBackedDivergences : List Divergence

/-- `texts.sort()`. -/
def sortTexts (texts : List String) : List String :=
  sortBy (fun a b ↦ compare (codeUnits a) (codeUnits b)) texts

/-- The Parquet files of a listing, each once. -/
def actualPaths (entries : List LsjsonEntry) : List String :=
  ((entries.map pathFromLsjsonEntry).filter fun relPath ↦
    relPath ≠ "" ∧ endsWithText relPath ".parquet").eraseDups

def divergenceOf (unit : String) (destinationReferences : References) (relPath : String) :
    Divergence :=
  let manifestRelativePaths := sortTexts ((destinationReferences.get? relPath).getD [])
  let scope := divergenceScope (manifestRelativePaths.headD relPath)
  { connectorId := scope.1
    pollutantCode := scope.2
    parquetRelativePath := relPath
    parquetKey := unit ++ "/" ++ relPath
    manifestRelativePaths := manifestRelativePaths
    manifestKeys := manifestRelativePaths.map fun manifestPath ↦ unit ++ "/" ++ manifestPath }

section Plan

variable (host : Host)

def buildStaleParquetPrunePlan (unitRelativePathInput : String)
    (manifests destinationManifests : List ManifestEntry) (actualFileEntries : List LsjsonEntry) :
    Except String Plan := do
  let unitRelativePath := normalizePosixRelativePath unitRelativePathInput
  Except.refuseIf (unitRelativePath = "") s!"Invalid prune unit path: {unitRelativePathInput}"
  Except.refuseIf (manifests = [])
    s!"No manifest.json files found for prune unit: {unitRelativePath}"
  let authoritativeReferences ← collectManifestParquetReferences host manifests unitRelativePath
  let destinationReferences ←
    collectManifestParquetReferences host destinationManifests unitRelativePath
  let actual := actualPaths actualFileEntries
  Except.refuseIf (authoritativeReferences.size = 0 ∧ 0 < actual.length)
    ("No manifest-referenced Parquet paths found for prune unit " ++
      s!"{unitRelativePath}; refusing to delete destination files")
  let allStalePaths := sortTexts (actual.filter fun relPath ↦ relPath ∉ authoritativeReferences.keys)
  let manifestBackedDivergences :=
    (allStalePaths.filter fun relPath ↦ relPath ∈ destinationReferences.keys).map
      (divergenceOf unitRelativePath destinationReferences)
  let protectedPaths := manifestBackedDivergences.map Divergence.parquetRelativePath
  .ok
    { unitRelativePath := unitRelativePath
      manifestCount := manifests.length
      destinationManifestCount := destinationManifests.length
      manifestReferencedParquetCount := authoritativeReferences.size
      destinationManifestReferencedParquetCount := destinationReferences.size
      actualDestinationParquetCount := actual.length
      staleRelativePaths := allStalePaths.filter fun relPath ↦ relPath ∉ protectedPaths
      manifestBackedDivergences := manifestBackedDivergences }

end Plan

/-! ## The run -/

/-- What `rclone` answers, and `path.resolve`. -/
structure Rclone where
  lsjson : String → Except String (List LsjsonEntry)
  cat : String → Except String String
  deleteFile : String → Except String Unit
  resolve : String → String → String

def isRemotePath (targetPath : String) : Bool :=
  let name := targetPath.toList.takeWhile fun c ↦
    c.isAlphanum || c = '_' || c = '.' || c = '-'
  name ≠ [] && (targetPath.toList.drop name.length).head? = some ':'

def joinTargetPath (rclone : Rclone) (basePath relativePath : String) : String :=
  let rel := stripLeadingSlashes (trimText relativePath)
  if isRemotePath basePath then
    let base := String.ofList (basePath.toList.rdropWhile (· = '/'))
    if rel ≠ "" then base ++ "/" ++ rel else base
  else rclone.resolve basePath rel

/-- The arguments; whether both listings are made with the same retry options. -/
structure PruneArguments where
  manifestRootPath : String
  destUnitPath : String
  unitRelativePath : String
  dryRun : Bool
  sameRetryOptions : Bool
  manifestEntries : Option (List ManifestEntry)
  destinationManifestEntries : Option (List ManifestEntry)
  actualFileEntries : Option (List LsjsonEntry)

section Run

variable (host : Host) (rclone : Rclone) (arguments : PruneArguments)

def loadManifestEntriesForPrune (manifestRootPath : String)
    (listedEntries : Option (List LsjsonEntry)) : Except String (List ManifestEntry) := do
  let entries ← match listedEntries with
    | some entries => .ok entries
    | none => rclone.lsjson manifestRootPath
  let relPaths := sortTexts ((entries.map pathFromLsjsonEntry).filter fun relPath ↦
    endsWithText relPath "manifest.json")
  relPaths.mapM fun relativePath ↦ do
    let text ← rclone.cat (joinTargetPath rclone manifestRootPath relativePath)
    .ok ⟨relativePath, text⟩

def loadActualParquetEntriesForPrune (destUnitPath : String)
    (listedEntries : Option (List LsjsonEntry)) : Except String (List LsjsonEntry) := do
  let entries ← match listedEntries with
    | some entries => .ok entries
    | none => rclone.lsjson destUnitPath
  .ok ((entries.map fun entry ↦ { entry with path := pathFromLsjsonEntry entry }).filter fun entry ↦
    endsWithText entry.path ".parquet")

/-- What the plan is made from. -/
structure PlanInput where
  manifests : List ManifestEntry
  destinationManifests : List ManifestEntry
  actualFileEntries : List LsjsonEntry

def loadOr {α : Type} (given : Option α) (load : Except String α) : Except String α :=
  match given with
  | some value => .ok value
  | none => load

/-- The manifests and the listing, as they are given or read. -/
def loadPlanInput : Except String PlanInput := do
  let needsDestinationListing :=
    arguments.destinationManifestEntries.isNone || arguments.actualFileEntries.isNone
  let destinationListing ← if needsDestinationListing then
      (rclone.lsjson arguments.destUnitPath).map some
    else .ok none
  let authoritativeListing :=
    if arguments.manifestEntries.isNone ∧ arguments.manifestRootPath = arguments.destUnitPath ∧
        arguments.sameRetryOptions then destinationListing
    else none
  let manifests ← loadOr arguments.manifestEntries
    (loadManifestEntriesForPrune rclone arguments.manifestRootPath authoritativeListing)
  let destinationManifests ← loadOr arguments.destinationManifestEntries
    (loadManifestEntriesForPrune rclone arguments.destUnitPath destinationListing)
  let actualFileEntries ← loadOr arguments.actualFileEntries
    (loadActualParquetEntriesForPrune rclone arguments.destUnitPath destinationListing)
  .ok ⟨manifests, destinationManifests, actualFileEntries⟩

inductive PruneError
  | manifestBackedParquetDivergence (plan : Plan)
  | failed (message : String)

structure PruneReport where
  plan : Plan
  dryRunPaths : List String
  deletedPaths : List String

/-- What was asked to be deleted, in order, and how the run ended. -/
structure PruneRun where
  deletions : List String
  outcome : Except PruneError PruneReport

/-- The loop over the stale paths, which stops when a deletion fails. -/
def deletePaths : List String → List String × Except String Unit
  | [] => ([], .ok ())
  | relPath :: rest =>
    let target := joinTargetPath rclone arguments.destUnitPath relPath
    match rclone.deleteFile target with
    | .error message => ([target], .error message)
    | .ok _ => (target :: (deletePaths rest).1, (deletePaths rest).2)

def pruneStaleParquetForUnit : PruneRun :=
  match loadPlanInput rclone arguments with
  | .error message => ⟨[], .error (.failed message)⟩
  | .ok input =>
    match buildStaleParquetPrunePlan host arguments.unitRelativePath input.manifests
      input.destinationManifests input.actualFileEntries with
    | .error message => ⟨[], .error (.failed message)⟩
    | .ok plan =>
      if 0 < plan.manifestBackedDivergences.length then
        ⟨[], .error (.manifestBackedParquetDivergence plan)⟩
      else if arguments.dryRun then ⟨[], .ok ⟨plan, plan.staleRelativePaths, []⟩⟩
      else
        match deletePaths rclone arguments plan.staleRelativePaths with
        | (deletions, .error message) => ⟨deletions, .error (.failed message)⟩
        | (deletions, .ok _) => ⟨deletions, .ok ⟨plan, [], plan.staleRelativePaths⟩⟩

end Run

end UkAqOps.StaleParquet

import UkAqOps.StaleParquet.Plan

/-!
# What pruning deletes

A plan divides the listed Parquet files. What a manifest names, in any of the spellings, is neither
stale nor deleted; nothing is deleted that has not been listed; and nothing at all is while a
destination manifest refers to a file that no source manifest does.
-/

namespace UkAqOps.StaleParquet

open Sorting

variable {host : Host} {unitRelativePath : String} {manifests destinationManifests : List ManifestEntry}
variable {entries : List LsjsonEntry} {plan : Plan}

/-- The listing holds the Parquet file. -/
def Listed (entries : List LsjsonEntry) (file : String) : Prop :=
  file ≠ "" ∧ endsWithText file ".parquet" = true ∧ ∃ entry ∈ entries, pathFromLsjsonEntry entry = file

/-- Some of the manifests refers to the file. -/
def ReferredTo (host : Host) (unitRelativePath : String) (manifests : List ManifestEntry)
    (file : String) : Prop :=
  ∃ entry ∈ manifests, RefersTo host (normalizePosixRelativePath unitRelativePath) entry file

/-- The paths of a plan whose files are kept although no source manifest refers to them. -/
def Plan.divergencePaths (plan : Plan) : List String :=
  plan.manifestBackedDivergences.map Divergence.parquetRelativePath

/-- **The plan divides the listed files**: a file that a source manifest refers to is in neither list,
one that only a destination manifest refers to is a divergence, and any other is stale. -/
structure Partitions (host : Host) (unitRelativePath : String)
    (manifests destinationManifests : List ManifestEntry) (entries : List LsjsonEntry) (plan : Plan) :
    Prop where
  divergent : ∀ file, file ∈ plan.divergencePaths ↔ Listed entries file ∧
    ¬ReferredTo host unitRelativePath manifests file ∧
      ReferredTo host unitRelativePath destinationManifests file
  stale : ∀ file, file ∈ plan.staleRelativePaths ↔ Listed entries file ∧
    ¬ReferredTo host unitRelativePath manifests file ∧
      ¬ReferredTo host unitRelativePath destinationManifests file
  nodup : (plan.divergencePaths ++ plan.staleRelativePaths).Nodup

/-! ## The plan -/

theorem mem_actualPaths {file : String} : file ∈ actualPaths entries ↔ Listed entries file := by
  rw [actualPaths, List.mem_eraseDups, List.mem_filter, List.mem_map, decide_eq_true_iff, Listed,
    and_comm, and_assoc]

theorem nodup_actualPaths : (actualPaths entries).Nodup := nodup_eraseDups _

/-- What a plan is made of. -/
theorem buildStaleParquetPrunePlan_eq_ok
    (h : buildStaleParquetPrunePlan host unitRelativePath manifests destinationManifests entries =
      .ok plan) :
    ∃ references destinationReferences,
      collectManifestParquetReferences host manifests (normalizePosixRelativePath unitRelativePath) =
        .ok references ∧
        collectManifestParquetReferences host destinationManifests
          (normalizePosixRelativePath unitRelativePath) = .ok destinationReferences ∧
          plan.divergencePaths = (sortTexts ((actualPaths entries).filter fun relPath ↦
            relPath ∉ references.keys)).filter (fun relPath ↦ relPath ∈ destinationReferences.keys) ∧
            plan.staleRelativePaths = (sortTexts ((actualPaths entries).filter fun relPath ↦
              relPath ∉ references.keys)).filter fun relPath ↦ relPath ∉ plan.divergencePaths := by
  obtain ⟨-, -, h⟩ := Except.bind_eq_ok_iff.mp h
  obtain ⟨-, -, h⟩ := Except.bind_eq_ok_iff.mp h
  obtain ⟨references, hreferences, h⟩ := Except.bind_eq_ok_iff.mp h
  obtain ⟨destinationReferences, hdestination, h⟩ := Except.bind_eq_ok_iff.mp h
  obtain ⟨-, -, h⟩ := Except.bind_eq_ok_iff.mp h
  refine ⟨references, destinationReferences, hreferences, hdestination, ?_, ?_⟩
  · rw [← Except.ok.inj h, Plan.divergencePaths, List.map_map]
    exact List.map_id _
  · rw [← Except.ok.inj h]
    rfl

theorem referredTo_iff {references : References}
    (h : collectManifestParquetReferences host manifests (normalizePosixRelativePath unitRelativePath) =
      .ok references) (file : String) :
    file ∈ references.keys ↔ ReferredTo host unitRelativePath manifests file := by
  rw [mem_keys_collect h, ReferredTo]
  exact or_iff_right (List.not_mem_nil)

/-- **A plan divides the listed files.** -/
theorem partitions_of_buildStaleParquetPrunePlan
    (h : buildStaleParquetPrunePlan host unitRelativePath manifests destinationManifests entries =
      .ok plan) :
    Partitions host unitRelativePath manifests destinationManifests entries plan := by
  obtain ⟨references, destinationReferences, hreferences, hdestination, hdivergent, hstale⟩ :=
    buildStaleParquetPrunePlan_eq_ok h
  have hall : ∀ file, file ∈ sortTexts ((actualPaths entries).filter fun relPath ↦
      relPath ∉ references.keys) ↔
        Listed entries file ∧ ¬ReferredTo host unitRelativePath manifests file := by
    intro file
    rw [sortTexts, mem_sortBy, List.mem_filter, decide_eq_true_iff, mem_actualPaths,
      referredTo_iff hreferences]
  have hmem : ∀ file, file ∈ plan.divergencePaths ↔ Listed entries file ∧
      ¬ReferredTo host unitRelativePath manifests file ∧
        ReferredTo host unitRelativePath destinationManifests file := by
    intro file
    rw [hdivergent, List.mem_filter, decide_eq_true_iff, hall, referredTo_iff hdestination, and_assoc]
  have hnodup : (sortTexts ((actualPaths entries).filter fun relPath ↦
      relPath ∉ references.keys)).Nodup := nodup_sortBy.mpr (nodup_actualPaths.filter _)
  refine ⟨hmem, fun file ↦ ?_, ?_⟩
  · rw [hstale, List.mem_filter, decide_eq_true_iff, hall, hmem, and_assoc]
    refine and_congr_right fun hlisted ↦ and_congr_right fun hsource ↦ not_congr ?_
    exact ⟨fun h ↦ h.2.2, fun h ↦ ⟨hlisted, hsource, h⟩⟩
  · refine List.nodup_append.mpr ⟨?_, ?_, fun file hfile other hother heq ↦ ?_⟩
    · rw [hdivergent]
      exact hnodup.filter _
    · rw [hstale]
      exact hnodup.filter _
    · rw [hstale, List.mem_filter, decide_eq_true_iff, ← heq] at hother
      exact hother.2 hfile

/-! ## Spellings -/

/-- A manifest names the file in one of the spellings. The paths of the unit and of the manifest are
normalised when they are read and when a reference is resolved. -/
def NamedBy (host : Host) (unitRelativePath : String) (manifests : List ManifestEntry)
    (file : String) : Prop :=
  ∃ entry ∈ manifests, ∃ manifestRelativePath manifest,
    readManifest host (normalizePosixRelativePath unitRelativePath) entry =
      .ok (manifestRelativePath, manifest) ∧
      ∃ raw ∈ rawReferences manifest,
        Names (normalizePosixRelativePath (normalizePosixRelativePath unitRelativePath))
          (normalizePosixRelativePath manifestRelativePath) raw file

/-- Every reference of a manifest that has been read is resolved. -/
theorem exists_resolved_of_collect {references : References} {unit : String}
    (h : collectManifestParquetReferences host manifests unit = .ok references) {entry : ManifestEntry}
    (hentry : entry ∈ manifests) {manifestRelativePath : String} {manifest : JsValue}
    (hread : readManifest host unit entry = .ok (manifestRelativePath, manifest)) {raw : String}
    (hraw : raw ∈ rawReferences manifest) :
    ∃ relPath, toUnitRelativeManifestPath raw unit manifestRelativePath = .ok relPath := by
  have hfold : ∀ (raws : List String) (start final : References),
      raws.foldlM (addManifestParquetReference unit manifestRelativePath) start = .ok final →
        ∀ raw ∈ raws, ∃ relPath,
          toUnitRelativeManifestPath raw unit manifestRelativePath = .ok relPath := by
    intro raws
    induction raws with
    | nil =>
      intro _ _ _ raw hraw
      cases hraw
    | cons first rest ih =>
      intro start final hfinal raw hraw
      rw [List.foldlM_cons] at hfinal
      obtain ⟨next, hnext, hrest⟩ := Except.bind_eq_ok_iff.mp hfinal
      rcases List.mem_cons.mp hraw with rfl | hraw
      · obtain ⟨relPath, hresolved, -⟩ := Except.bind_eq_ok_iff.mp hnext
        exact ⟨relPath, hresolved⟩
      · exact ih next final hrest raw hraw
  have hentries : ∀ (rest : List ManifestEntry) (start final : References),
      rest.foldlM (addManifest host unit) start = .ok final → entry ∈ rest →
        ∃ next final', (rawReferences manifest).foldlM
          (addManifestParquetReference unit manifestRelativePath) next = .ok final' := by
    intro rest
    induction rest with
    | nil =>
      intro _ _ _ hmem
      cases hmem
    | cons first rest ih =>
      intro start final hfinal hmem
      rw [List.foldlM_cons] at hfinal
      obtain ⟨next, hnext, hrest⟩ := Except.bind_eq_ok_iff.mp hfinal
      rcases List.mem_cons.mp hmem with rfl | hmem
      · rw [addManifest, hread] at hnext
        exact ⟨start, next, hnext⟩
      · exact ih next final hrest hmem
  obtain ⟨start, final, hfinal⟩ := hentries manifests _ references h hentry
  exact hfold _ start final hfinal raw hraw

/-- **A file that a manifest names is one that it refers to.** -/
theorem referredTo_of_namedBy {references : References}
    (h : collectManifestParquetReferences host manifests (normalizePosixRelativePath unitRelativePath) =
      .ok references) {file : String} (hfile : Normalized file)
    (hparquet : endsWithText file ".parquet" = true)
    (hnamed : NamedBy host unitRelativePath manifests file) :
    ReferredTo host unitRelativePath manifests file := by
  obtain ⟨entry, hentry, manifestRelativePath, manifest, hread, raw, hraw, hnames⟩ := hnamed
  obtain ⟨relPath, hresolved⟩ := exists_resolved_of_collect h hentry hread hraw
  refine ⟨entry, hentry, manifestRelativePath, manifest, hread, raw, hraw, ?_⟩
  rw [hresolved, toUnitRelativeManifestPath_of_names hfile hparquet hnames hresolved]

/-! ## The run -/

section Run

variable {rclone : Rclone} {arguments : PruneArguments}

/-- What the loop asks to be deleted are targets of its paths. -/
theorem mem_deletePaths {relPaths : List String} {target : String}
    (h : target ∈ (deletePaths rclone arguments relPaths).1) :
    ∃ relPath ∈ relPaths, target = joinTargetPath rclone arguments.destUnitPath relPath := by
  induction relPaths with
  | nil => cases h
  | cons relPath rest ih =>
    rw [deletePaths] at h
    split at h
    · exact ⟨relPath, List.mem_cons_self, List.mem_singleton.mp h⟩
    · rcases List.mem_cons.mp h with rfl | h
      · exact ⟨relPath, List.mem_cons_self, rfl⟩
      · obtain ⟨other, hother, htarget⟩ := ih h
        exact ⟨other, List.mem_cons_of_mem relPath hother, htarget⟩

/-- A run that deletes anything has a plan without divergences, of which it deletes stale files. -/
theorem plan_of_deletion {target : String}
    (h : target ∈ (pruneStaleParquetForUnit host rclone arguments).deletions) :
    ∃ input plan, loadPlanInput rclone arguments = .ok input ∧
      buildStaleParquetPrunePlan host arguments.unitRelativePath input.manifests
        input.destinationManifests input.actualFileEntries = .ok plan ∧
        plan.manifestBackedDivergences = [] ∧ ∃ relPath ∈ plan.staleRelativePaths,
          target = joinTargetPath rclone arguments.destUnitPath relPath := by
  rw [pruneStaleParquetForUnit] at h
  split at h
  · cases h
  · rename_i input hinput
    split at h
    · cases h
    · rename_i plan hplan
      split at h
      · cases h
      · rename_i hdivergences
        have hnone : plan.manifestBackedDivergences = [] :=
          List.length_eq_zero_iff.mp (Nat.eq_zero_of_not_pos hdivergences)
        split at h
        · cases h
        · refine ⟨input, plan, hinput, hplan, hnone, ?_⟩
          rcases hloop : deletePaths rclone arguments plan.staleRelativePaths with ⟨deletions, outcome⟩
          rw [hloop] at h
          have htarget : target ∈ (deletePaths rclone arguments plan.staleRelativePaths).1 := by
            rw [hloop]
            rcases outcome with message | _
            · exact h
            · exact h
          exact mem_deletePaths htarget

end Run

/-! ## Spellings that are read otherwise -/

/-- A host that reads every manifest as one with this reference. -/
def referenceHost (reference : String) : Host :=
  ⟨fun _ ↦ .ok (.obj [("parquet_object_keys", .arr [.str reference])])⟩

/-- An `rclone` that deletes whatever it is asked to. -/
def sampleRclone : Rclone := ⟨fun _ ↦ .ok [], fun _ ↦ .ok "", fun _ ↦ .ok (), fun _ relPath ↦ relPath⟩

/-- What is deleted of a unit with one manifest, which has one reference. -/
def deletionsOf (unit manifestPath reference : String) (files : List String) : List String :=
  (pruneStaleParquetForUnit (referenceHost reference) sampleRclone
    { manifestRootPath := "r2:history"
      destUnitPath := "dropbox:u"
      unitRelativePath := unit
      dryRun := false
      sameRetryOptions := false
      manifestEntries := some [⟨manifestPath, ""⟩]
      destinationManifestEntries := some []
      actualFileEntries := some (files.map fun file ↦ ⟨file, ""⟩) }).deletions

end UkAqOps.StaleParquet

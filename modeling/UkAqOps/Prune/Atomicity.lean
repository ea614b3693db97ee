import UkAqOps.Prune.Deletion

/-!
# A deletion is all or nothing

Until the commit the transaction only changes the database it works on, and every statement before the
deletes leaves even that as it was. The batches of an hour delete rows of the connector-day and no
others; once the count of raw rows left is zero, what the transaction sees is the committed database
without the connector-day. The commit is reached from two places: after the evidence was invalidated
on an untouched database, and after every check of a deletion passed.
-/

namespace UkAqOps.Prune

open Effects

/-! ## What the transaction may end in -/

/-- The buckets cover the rows: no hour twice, and every hour with the number of rows it holds. -/
structure CoversExactly (buckets : List Bucket) (rows : List CanonicalRow) : Prop where
  nodup : (buckets.map Bucket.hourStart).Nodup
  counts : ∀ hour : ℤ, (((buckets.find? fun bucket ↦ bucket.hourStart = hour).map
      Bucket.observationCount).getD 0 : ℤ)
    = rows.countP fun row ↦ row.observedAt / hourMs * hourMs = hour

/-- **A committed deletion.** The evidence was proven, the rows had the identity of both its rows, the
plan covered them, the raw rows of the connector-day are gone and no others, and the marker and the
gate are consumed, each in the one row that carried it. -/
structure Deletes (host : Host) (view : CanonicalView) (request : Request) (db db' : Database) :
    Prop where
  proven : ∃ candidate gate identity deletedRows,
    (db.candidates.find? fun row ↦ row.isOf request.pair) = some candidate ∧
    (db.gates.find? fun row ↦ row.isOf request.pair) = some gate ∧
    Proven host candidate gate identity ∧
    computePruneConnectorSourceIdentity host (view.rows db.observations request.pair.connectorId
      request.pair.dayStart request.pair.dayEnd) = .ok identity ∧
    db.candidates.countP (fun row ↦ row.isReady request.pair candidate.runId) = 1 ∧
    db'.candidates = updateWhere (fun row ↦ row.isReady request.pair candidate.runId)
      (fun row ↦ { row with lastError := some (consumedMarker candidate gate deletedRows) })
      db.candidates ∧
    db.gates.countP (fun row ↦
      row.isOpen request.pair candidate.runId gate.historyManifestHash) = 1 ∧
    db'.gates = updateWhere (fun row ↦
      row.isOpen request.pair candidate.runId gate.historyManifestHash)
      (fun row ↦ { row with historyDone := false }) db.gates
  covered : CoversExactly request.buckets (view.rows db.observations request.pair.connectorId
    request.pair.dayStart request.pair.dayEnd)
  observations : db'.observations = db.observations.filter fun row ↦
    !row.isIn request.pair.connectorId request.pair.dayStart request.pair.dayEnd

/-- The evidence of the connector-day invalidated, and nothing else changed. -/
def Invalidates (request : Request) (failureReason : String) (db db' : Database) : Prop :=
  db' = (db.updateCandidates (fun row ↦ row.isOf request.pair)
      fun row ↦ row.invalidated failureReason).updateGates
    (fun row ↦ row.isOf request.pair) GateRow.invalidated

/-- The three ways in which a transaction may leave the committed database. -/
inductive EndsIn (host : Host) (view : CanonicalView) (arguments : Arguments) (db db' : Database) :
    Prop
  | deleted {request : Request} (hrequest : readRequest host arguments = .ok request)
      (h : Deletes host view request db db')
  | invalidated {request : Request} (failureReason : String)
      (hrequest : readRequest host arguments = .ok request)
      (h : Invalidates request failureReason db db')
  | unchanged (h : db' = db)

/-! ## Queries inside the transaction -/

section Rules

variable {view : CanonicalView} {db w : Database}

theorem wp_query {q : Query} {Q : Session → Except Failure q.Answer → Prop} {s : Session} :
    wp (databaseEnv view) (query q) Q s ↔ ∀ r s', Answers view s q r s' → Q s' r := by
  refine wp_await.trans ?_
  exact ⟨fun h ↦ h.2, fun h ↦ ⟨trivial, h⟩⟩

/-- Inside the transaction on `db`: what returned left a database that satisfies `P`, what threw left
the committed database alone. -/
def Inside {α : Type} (db : Database) (P : α → Database → Prop) (s : Session) :
    Except Failure α → Prop
  | .ok a => ∃ w, s = ⟨db, some w⟩ ∧ P a w
  | .error _ => s.committed = db

theorem inside_query {q : Query} {P : q.Answer → Database → Prop}
    (hq : q ≠ .begin ∧ q ≠ .commit ∧ q ≠ .rollback)
    (h : ∀ answer w', Statement view w q answer w' → P answer w') :
    wp (databaseEnv view) (query q) (Inside db P) ⟨db, some w⟩ := by
  refine wp_query.mpr fun r s' hanswer ↦ ?_
  rcases r with failure | answer
  · rcases hanswer with hcommitted | ⟨hcommit, -⟩
    · exact hcommitted
    · exact absurd hcommit hq.2.1
  · rcases hanswer with ⟨hbegin, -⟩ | ⟨hrollback, -⟩ | ⟨hcommit, -⟩ | ⟨v, w', hv, hstatement, hs'⟩
    · exact absurd hbegin hq.1
    · exact absurd hrollback hq.2.2
    · exact absurd hcommit hq.2.1
    · rw [← Option.some.inj hv] at hstatement
      exact ⟨w', hs', h answer w' hstatement⟩

theorem inside_bind {α β : Type} {p : Script α} {f : α → Script β} {P : α → Database → Prop}
    {Q : Session → Except Failure β → Prop}
    (hp : wp (databaseEnv view) p (Inside db P) ⟨db, some w⟩)
    (hthrow : ∀ s failure, s.committed = db → Q s (.error failure))
    (hf : ∀ a w', P a w' → wp (databaseEnv view) (f a) Q ⟨db, some w'⟩) :
    wp (databaseEnv view) (p >>= f) Q ⟨db, some w⟩ := by
  refine wp_bind.mpr (wp_mono (fun s r hr ↦ ?_) hp)
  rcases r with failure | a
  · exact hthrow s failure hr
  · obtain ⟨w', rfl, hw'⟩ := hr
    exact hf a w' hw'

theorem inside_pure {α : Type} {a : α} {P : α → Database → Prop} (h : P a w) :
    wp (databaseEnv view) (pure a) (Inside db P) ⟨db, some w⟩ := ⟨w, rfl, h⟩

end Rules

/-! ## Deleting the hours -/

section Hours

variable {view : CanonicalView} {db : Database} {request : Request}

/-- `w` differs from `db` only in the rows of the connector-day. -/
structure DrainsOnly (pair : Pair) (db w : Database) : Prop where
  candidates : w.candidates = db.candidates
  gates : w.gates = db.gates
  others : (w.observations.filter fun row ↦ !row.isIn pair.connectorId pair.dayStart pair.dayEnd)
    = db.observations.filter fun row ↦ !row.isIn pair.connectorId pair.dayStart pair.dayEnd

theorem DrainsOnly.refl (pair : Pair) (db : Database) : DrainsOnly pair db db := ⟨rfl, rfl, rfl⟩

/-- A raw row that a canonical row of an hour was made of lies in the day of that hour. -/
theorem isIn_of_isTarget {observations : List RawRow} {pair : Pair} {bucket : Bucket}
    (hstart : pair.dayStart ≤ bucket.hourStart) (hend : bucket.hourStart + hourMs ≤ pair.dayEnd)
    {target : List CanonicalRow} (htarget : target ⊆
      view.rows observations pair.connectorId bucket.hourStart (bucket.hourStart + hourMs))
    {row : RawRow} (h : row.isTarget target = true) :
    row.isIn pair.connectorId pair.dayStart pair.dayEnd = true := by
  obtain ⟨canonical, hmem, hsource⟩ := List.any_eq_true.mp h
  obtain ⟨hconnector, hlower, hupper⟩ := view.inScope _ _ _ _ canonical (htarget hmem)
  simp only [RawRow.isSourceOf, Bool.and_eq_true, decide_eq_true_eq] at hsource
  obtain ⟨⟨hconnector', -⟩, hobserved⟩ := hsource
  simp only [RawRow.isIn, Bool.and_eq_true, decide_eq_true_eq]
  refine ⟨⟨hconnector'.trans hconnector, ?_⟩, ?_⟩ <;> omega

theorem DrainsOnly.deleteBatch {pair : Pair} {w w' : Database} (h : DrainsOnly pair db w)
    {bucket : Bucket} (hstart : pair.dayStart ≤ bucket.hourStart)
    (hend : bucket.hourStart + hourMs ≤ pair.dayEnd) {limit : ℤ} {answer : ℕ}
    (hstatement : Statement view w (.deleteBatch pair.connectorId bucket.hourStart limit) answer w') :
    DrainsOnly pair db w' := by
  obtain ⟨target, htarget, -, -, rfl⟩ := hstatement
  refine ⟨h.candidates, h.gates, ?_⟩
  rw [List.filter_filter, ← h.others]
  refine List.filter_congr fun row _ ↦ ?_
  by_cases hrow : row.isTarget target = true
  · rw [isIn_of_isTarget hstart hend htarget hrow]
    rfl
  · rw [Bool.not_eq_true] at hrow
    rw [hrow, Bool.not_false, Bool.and_true]

/-- The hours of the plan lie in the day. -/
def InDay (pair : Pair) (bucket : Bucket) : Prop :=
  pair.dayStart ≤ bucket.hourStart ∧ bucket.hourStart + hourMs ≤ pair.dayEnd

theorem inside_deleteBatches {bucket : Bucket} (hbucket : InDay request.pair bucket) (left : ℕ)
    (batchesRun : ℤ) (totalDeleted : ℕ) {w : Database} (hw : DrainsOnly request.pair db w) :
    wp (databaseEnv view) (deleteBatches request bucket left batchesRun totalDeleted)
      (Inside db fun _ ↦ DrainsOnly request.pair db) ⟨db, some w⟩ := by
  induction left generalizing batchesRun totalDeleted w with
  | zero => exact inside_pure hw
  | succ left ih =>
    rw [deleteBatches]
    refine inside_bind (inside_query (by simp) fun answer w' hstatement ↦
      hw.deleteBatch hbucket.1 hbucket.2 hstatement) (fun _ _ h ↦ h) ?_
    intro deletedCount w' hw'
    by_cases hzero : deletedCount = 0
    · rw [if_pos hzero]
      exact inside_pure hw'
    · rw [if_neg hzero]
      exact ih _ _ hw'

theorem inside_deleteOneHour {bucket : Bucket} (hbucket : InDay request.pair bucket) {w : Database}
    (hw : DrainsOnly request.pair db w) :
    wp (databaseEnv view) (deleteOneHour request bucket)
      (Inside db fun _ ↦ DrainsOnly request.pair db) ⟨db, some w⟩ := by
  refine inside_bind (inside_deleteBatches hbucket _ _ _ hw) (fun _ _ h ↦ h) ?_
  rintro ⟨batchesRun, totalDeleted⟩ w₁ hw₁
  refine inside_bind (P := fun _ ↦ DrainsOnly request.pair db) (inside_query (by simp)
    fun answer w₂ hstatement ↦ by rw [hstatement.2]; exact hw₁) (fun _ _ h ↦ h) ?_
  exact fun _ _ hw₂ ↦ inside_pure hw₂

theorem inside_deleteHours (buckets : List Bucket) (results : List BucketResult)
    (hbuckets : ∀ bucket ∈ buckets, InDay request.pair bucket) {w : Database}
    (hw : DrainsOnly request.pair db w) :
    wp (databaseEnv view) (deleteHours request buckets results)
      (Inside db fun _ ↦ DrainsOnly request.pair db) ⟨db, some w⟩ := by
  induction buckets generalizing results w with
  | nil => exact inside_pure hw
  | cons bucket rest ih =>
    refine inside_bind (inside_deleteOneHour (hbuckets bucket List.mem_cons_self) hw)
      (fun _ _ h ↦ h) ?_
    intro result w' hw'
    by_cases hcap : result.maxBatchesReachedWithRemainingRows = true
    · rw [if_pos hcap]
      exact inside_pure hw'
    · rw [if_neg hcap]
      exact ih _ (fun b hb ↦ hbuckets b (List.mem_cons_of_mem _ hb)) hw'

/-- Once no raw row of the connector-day is left, the rows are those of `db` without it. -/
theorem observations_of_drained {pair : Pair} {w : Database} (hw : DrainsOnly pair db w)
    (hnone : w.observations.countP
      (fun row ↦ row.isIn pair.connectorId pair.dayStart pair.dayEnd) = 0) :
    w.observations = db.observations.filter fun row ↦
      !row.isIn pair.connectorId pair.dayStart pair.dayEnd := by
  rw [← hw.others, eq_comm, List.filter_eq_self]
  intro row hrow
  have hno := List.countP_eq_zero.mp hnone row hrow
  rw [Bool.not_eq_true] at hno
  rw [hno, Bool.not_false]

end Hours

/-! ## The plan -/

theorem get?_currentHourCounts (rows : List CanonicalRow) (hour : ℤ) :
    ((currentHourCounts rows).get? hour).getD 0
        = rows.countP (fun row ↦ row.observedAt / hourMs * hourMs = hour) ∧
      ((currentHourCounts rows).get? hour = none ↔
        rows.countP (fun row ↦ row.observedAt / hourMs * hourMs = hour) = 0) := by
  rw [currentHourCounts]
  induction rows using List.reverseRecOn with
  | nil => simp
  | append_singleton rows row ih =>
    rw [List.foldl_append, List.foldl_cons, List.foldl_nil, List.countP_append,
      List.countP_singleton, OrderedMap.get?_set]
    by_cases hhour : row.observedAt / hourMs * hourMs = hour
    · have hhour' : hour = row.observedAt / hourMs * hourMs := hhour.symm
      rw [if_pos hhour', if_pos (decide_eq_true hhour), hhour, Option.getD_some, ih.1]
      exact ⟨by push_cast; rfl, by simp⟩
    · have hhour' : hour ≠ row.observedAt / hourMs * hourMs := fun h ↦ hhour h.symm
      rw [if_neg hhour', if_neg (by simpa using hhour), Nat.add_zero]
      exact ih

/-- If no hour is planned twice, the plan of an hour is the one bucket that has it. -/
theorem get?_plannedByHour {buckets : List Bucket} (hnodup : (buckets.map Bucket.hourStart).Nodup)
    (hour : ℤ) : (plannedByHour buckets).get? hour
      = buckets.find? fun bucket ↦ bucket.hourStart = hour := by
  have hkeys : (buckets.map fun bucket ↦ (bucket.hourStart, bucket)).map Prod.fst
      = buckets.map Bucket.hourStart := by
    rw [List.map_map]
    rfl
  rw [OrderedMap.get?, plannedByHour, OrderedMap.entries_ofList (by rw [hkeys]; exact hnodup),
    List.find?_map, Option.map_map]
  exact Option.map_id'

/-- **A plan that passes the check covers the rows exactly.** -/
theorem coversExactly_of_exactCoverage {buckets : List Bucket} {rows : List CanonicalRow}
    (h : (coverageOf buckets rows).exactCoverage = true) : CoversExactly buckets rows := by
  simp only [coverageOf, Bool.and_eq_true, decide_eq_true_eq, decide_not, Bool.not_not,
    List.all_eq_true] at h
  obtain ⟨⟨hnodup, hsize⟩, hall⟩ := h
  refine ⟨hnodup, fun hour ↦ ?_⟩
  have hplanned := get?_plannedByHour hnodup
  obtain ⟨hcount, hnone⟩ := get?_currentHourCounts rows hour
  -- the hours of the rows are planned, and there are as many planned hours, so no others are
  have hsub : (currentHourCounts rows).keys ⊆ (plannedByHour buckets).keys := by
    intro key hkey
    obtain ⟨entry, hentry, rfl⟩ := List.mem_map.mp hkey
    obtain ⟨bucket, hbucket, -⟩ := Option.map_eq_some_iff.mp (hall entry hentry)
    exact OrderedMap.get?_isSome_iff _ |>.mp (by rw [hbucket]; rfl)
  have hperm : (currentHourCounts rows).keys.Perm (plannedByHour buckets).keys := by
    refine (List.subperm_of_subset (currentHourCounts rows).nodup_keys hsub).perm_of_length_le ?_
    simp only [OrderedMap.keys, List.length_map]
    exact le_of_eq hsize
  rw [← hplanned hour, ← hcount]
  rcases hget : (currentHourCounts rows).get? hour with _ | count
  · have hno : hour ∉ (plannedByHour buckets).keys := fun hmem ↦
      (OrderedMap.get?_eq_none_iff _).mp hget (hperm.mem_iff.mpr hmem)
    rw [(OrderedMap.get?_eq_none_iff _).mpr hno]
    rfl
  · have hentry := hall (hour, count) ((OrderedMap.get?_eq_some_iff _).mp hget)
    rw [hentry]

theorem coverageOf_buckets_subset (buckets : List Bucket) (rows : List CanonicalRow) :
    (coverageOf buckets rows).buckets ⊆ buckets := by
  intro bucket hbucket
  rw [coverageOf, List.mem_mergeSort, OrderedMap.mem_values] at hbucket
  obtain ⟨key, hkey⟩ := hbucket
  rw [← OrderedMap.get?_eq_some_iff, plannedByHour, OrderedMap.get?_ofList,
    Option.map_eq_some_iff] at hkey
  obtain ⟨entry, hentry, rfl⟩ := hkey
  have hmem := List.mem_of_find?_eq_some hentry
  rw [List.mem_reverse, List.mem_map] at hmem
  obtain ⟨bucket, hbucket, rfl⟩ := hmem
  exact hbucket

/-! ## The transaction -/

section Transaction

variable {host : Host} {view : CanonicalView} {arguments : Arguments} {db : Database}
variable {request : Request}

/-- The buckets of a request were read for its connector-day. -/
theorem readRequest_spec (h : readRequest host arguments = .ok request) :
    (∀ bucket ∈ request.buckets, InDay request.pair bucket ∧
      normalizeBucket host request.pair bucket.input = .ok bucket) := by
  obtain ⟨pair, hpair, h⟩ := Except.bind_eq_ok_iff.mp h
  obtain ⟨buckets, hbuckets, h⟩ := Except.bind_eq_ok_iff.mp h
  rw [← Except.pure_eq_ok_iff.mp h]
  intro bucket hbucket
  obtain ⟨day, hday, hstart, hend⟩ := normalizePair_spec hpair
  obtain ⟨input, -, hinput⟩ := Except.exists_input_of_mem hbuckets hbucket
  refine ⟨(normalizeBucket_spec hday hstart hend hinput).2, ?_⟩
  rw [input_of_normalizeBucket hinput]
  exact hinput

/-- The plan of a request is the coverage of its own buckets. -/
theorem coverage_of_request (h : readRequest host arguments = .ok request)
    (rows : List CanonicalRow) :
    deletionPlanCoversCurrentConnectorDay host request.pair request.buckets rows
      = .ok (coverageOf request.buckets rows) := by
  have hmap : request.buckets.mapM (fun bucket ↦ normalizeBucket host request.pair bucket.input)
      = .ok request.buckets := by
    rw [Except.mapM_eq_ok_iff, List.forall₂_same]
    exact fun bucket hbucket ↦ (readRequest_spec h bucket hbucket).2
  rw [deletionPlanCoversCurrentConnectorDay, hmap]
  rfl

/-- What a stretch of the transaction may end in, whether it returns or throws. -/
def Settles (host : Host) (view : CanonicalView) (arguments : Arguments) (db : Database)
    (s : Session) (_ : Except Failure Outcome) : Prop :=
  EndsIn host view arguments db s.committed

theorem settles_rollBackBlocked (failureReason : String) {w : Database} :
    wp (databaseEnv view) (rollBackBlocked request failureReason)
      (Settles host view arguments db) ⟨db, some w⟩ := by
  refine wp_bind.mpr (wp_query.mpr fun r s' hanswer ↦ ?_)
  rcases r with failure | _
  · rcases hanswer with hcommitted | ⟨hcommit, -⟩
    · exact .unchanged hcommitted
    · cases hcommit
  · rcases hanswer with ⟨hbegin, -⟩ | ⟨-, rfl⟩ | ⟨hcommit, -⟩ | ⟨_, _, -, hstatement, -⟩
    · cases hbegin
    · exact .unchanged rfl
    · cases hcommit
    · exact absurd hstatement (by simp [Statement])

/-- A commit makes the working database the committed one, or leaves it at that when its reply is
lost. -/
theorem wp_commit {w : Database} {Q : Session → Except Failure Unit → Prop}
    (hok : Q ⟨w, none⟩ (.ok ()))
    (herror : ∀ s failure, s.committed = db ∨ s.committed = w → Q s (.error failure)) :
    wp (databaseEnv view) (query .commit) Q ⟨db, some w⟩ := by
  refine wp_query.mpr fun r s' hanswer ↦ ?_
  rcases r with failure | _
  · refine herror s' failure ?_
    rcases hanswer with hcommitted | ⟨-, v, hv, hcommitted⟩
    · exact Or.inl hcommitted
    · rw [← Option.some.inj hv] at hcommitted
      exact Or.inr hcommitted
  · rcases hanswer with ⟨hbegin, -⟩ | ⟨hrollback, -⟩ | ⟨-, v, hv, rfl⟩ | ⟨_, _, -, hstatement, -⟩
    · cases hbegin
    · cases hrollback
    · rw [← Option.some.inj hv]
      exact hok
    · exact absurd hstatement (by simp [Statement])

theorem settles_invalidateBlocked (hrequest : readRequest host arguments = .ok request)
    (failureReason : String) :
    wp (databaseEnv view) (invalidateBlocked request failureReason)
      (Settles host view arguments db) ⟨db, some db⟩ := by
  refine inside_bind (P := fun _ w ↦ w = db.updateCandidates (fun row ↦ row.isOf request.pair)
    fun row ↦ row.invalidated failureReason) (inside_query (by simp) fun _ _ h ↦ h)
    (fun _ _ h ↦ .unchanged h) ?_
  rintro _ w rfl
  refine inside_bind (P := fun _ w ↦ Invalidates request failureReason db w)
    (inside_query (by simp) fun _ _ h ↦ h) (fun _ _ h ↦ .unchanged h) ?_
  intro _ w hw
  refine wp_bind.mpr (wp_commit (.invalidated failureReason hrequest hw) fun s failure h ↦ ?_)
  rcases h with h | h
  · exact .unchanged h
  · exact .invalidated failureReason hrequest (by rw [h]; exact hw)

/-- What a deletion that passed every check was made on. -/
structure Ready (host : Host) (view : CanonicalView) (request : Request) (db : Database)
    (candidate : CandidateRow) (gate : GateRow) (identity : SourceIdentity) : Prop where
  hcandidate : (db.candidates.find? fun row ↦ row.isOf request.pair) = some candidate
  hgate : (db.gates.find? fun row ↦ row.isOf request.pair) = some gate
  proven : Proven host candidate gate identity
  current : computePruneConnectorSourceIdentity host (view.rows db.observations
    request.pair.connectorId request.pair.dayStart request.pair.dayEnd) = .ok identity
  covered : CoversExactly request.buckets (view.rows db.observations request.pair.connectorId
    request.pair.dayStart request.pair.dayEnd)

variable {candidate : CandidateRow} {gate : GateRow} {identity : SourceIdentity}

/-- Consuming the marker and the gate of a drained connector-day completes its deletion. -/
theorem inside_consumeFirstDeletionAuthority
    (hready : Ready host view request db candidate gate identity) (deletedRows : ℕ) {w : Database}
    (hw : DrainsOnly request.pair db w)
    (hdrained : w.observations = db.observations.filter fun row ↦
      !row.isIn request.pair.connectorId request.pair.dayStart request.pair.dayEnd) :
    wp (databaseEnv view) (consumeFirstDeletionAuthority request.pair candidate gate deletedRows)
      (Inside db fun _ ↦ Deletes host view request db) ⟨db, some w⟩ := by
  refine inside_bind (inside_query (by simp) fun _ _ h ↦ h) (fun _ _ h ↦ h) ?_
  rintro candidates w₁ ⟨hcandidates, rfl⟩
  by_cases hone : candidates ≠ 1
  · rw [if_pos hone]
    exact rfl
  · rw [if_neg hone]
    refine inside_bind (inside_query (by simp) fun _ _ h ↦ h) (fun _ _ h ↦ h) ?_
    rintro gates w₂ ⟨hgates, rfl⟩
    by_cases hone' : gates ≠ 1
    · rw [if_pos hone']
      exact rfl
    · rw [if_neg hone']
      refine inside_pure ⟨⟨candidate, gate, identity, deletedRows, hready.hcandidate, hready.hgate,
        hready.proven, hready.current, ?_, ?_, ?_, ?_⟩, hready.covered, hdrained⟩
      · rw [← hw.candidates, ← hcandidates]
        exact not_not.mp hone
      · rw [← hw.candidates]
        rfl
      · rw [← hw.gates]
        exact hgates.symm.trans (not_not.mp hone')
      · rw [← hw.gates]
        rfl

theorem settles_finishDeletion (hrequest : readRequest host arguments = .ok request)
    (hready : Ready host view request db candidate gate identity)
    (identities : List SourceIdentity) (plan : List Bucket) (results : List BucketResult)
    {w : Database} (hw : DrainsOnly request.pair db w) :
    wp (databaseEnv view)
      (finishDeletion request candidate gate identities identity plan results)
      (Settles host view arguments db) ⟨db, some w⟩ := by
  refine inside_bind (P := fun _ v ↦ v = w) (inside_query (by simp) fun _ _ h ↦ h.2)
    (fun _ _ h ↦ .unchanged h) ?_
  rintro remaining w₁ rfl
  by_cases hremaining : remaining ≠ 0
  · rw [if_pos hremaining]
    exact settles_rollBackBlocked _
  rw [if_neg hremaining]
  refine inside_bind (inside_query (by simp) fun _ _ h ↦ h) (fun _ _ h ↦ .unchanged h) ?_
  rintro remainingRaw w₂ ⟨hraw, rfl⟩
  by_cases hnone : remainingRaw ≠ 0
  · rw [if_pos hnone]
    exact settles_rollBackBlocked _
  rw [if_neg hnone]
  have hdrained := observations_of_drained hw (hraw.symm.trans (not_not.mp hnone))
  dsimp only
  split
  · exact settles_rollBackBlocked _
  refine inside_bind (inside_consumeFirstDeletionAuthority hready _ hw hdrained)
    (fun _ _ h ↦ .unchanged h) ?_
  intro _ w' hdeletes
  refine wp_bind.mpr (wp_commit (.deleted hrequest hdeletes) fun s failure h ↦ ?_)
  -- a commit whose reply is lost has deleted the connector-day or has done nothing
  rcases h with h | h
  · exact .unchanged h
  · exact .deleted hrequest (by rw [h]; exact hdeletes)

/-- Rows that pass the check have the identity of the candidate. -/
theorem identity_of_check {rows : List CanonicalRow} {currentIdentity : SourceIdentity}
    (h : checkCurrentIdentity host rows identity = .ok currentIdentity) :
    currentIdentity = identity ∧ computePruneConnectorSourceIdentity host rows = .ok identity := by
  rw [checkCurrentIdentity] at h
  rcases hcompute : computePruneConnectorSourceIdentity host rows with message | computed
  · rw [hcompute] at h
    cases h
  · rw [hcompute] at h
    dsimp only at h
    rcases hcompare : comparePruneConnectorSourceIdentities computed identity with _ | _ | _
    · rw [hcompare] at h
      cases h
    · rw [hcompare] at h
      have hsame := eq_of_compare_none hcompare
      rw [← Except.ok.inj h, hsame]
      exact ⟨rfl, rfl⟩
    · rw [hcompare] at h
      cases h

theorem settles_transactionBody (hrequest : readRequest host arguments = .ok request) :
    wp (databaseEnv view) (transactionBody host request) (Settles host view arguments db)
      ⟨db, some db⟩ := by
  refine inside_bind (inside_query (by simp) fun _ _ h ↦ h) (fun _ _ h ↦ .unchanged h) ?_
  rintro candidate v ⟨hcandidate, hv⟩
  rw [hv]
  refine inside_bind (inside_query (by simp) fun _ _ h ↦ h) (fun _ _ h ↦ .unchanged h) ?_
  rintro gate v ⟨hgate, hv⟩
  rw [hv]
  refine wp_bind.mpr (wp_ofExcept.mpr ?_)
  rcases hclassified : classifyLockedEvidence host candidate gate request.pair with message | classified
  · exact .unchanged rfl
  rcases classified with ⟨failureReason, preserve⟩ | ⟨candidateIdentity, gateIdentity⟩
  · rcases preserve with _ | _
    · exact settles_invalidateBlocked hrequest _
    · exact settles_rollBackBlocked _
  obtain ⟨candidateRow, gateRow, rfl, rfl, rfl, hproven⟩ :=
    proven_of_classifyLockedEvidence hclassified
  refine inside_bind (inside_query (by simp) fun _ _ h ↦ h) (fun _ _ h ↦ .unchanged h) ?_
  rintro rows v ⟨hrows, hv⟩
  rw [hv]
  refine inside_bind (inside_query (by simp) fun _ _ h ↦ h) (fun _ _ h ↦ .unchanged h) ?_
  rintro rawRows v ⟨-, hv⟩
  rw [hv]
  split
  · exact settles_rollBackBlocked _
  rcases hcheck : checkCurrentIdentity host rows candidateIdentity with failureReason | current
  · exact settles_invalidateBlocked hrequest _
  obtain ⟨rfl, hcompute⟩ := identity_of_check hcheck
  dsimp only
  split
  · exact settles_rollBackBlocked _
  rw [coverage_of_request hrequest]
  refine wp_bind.mpr (wp_ofExcept.mpr ?_)
  dsimp only [afterBind_ok, Except.mapError]
  split
  · exact settles_rollBackBlocked _
  by_cases hcovered : (coverageOf request.buckets rows).exactCoverage = true
  · rw [if_neg (not_not.mpr hcovered)]
    have hready : Ready host view request db candidateRow gateRow current := by
      refine ⟨hcandidate.symm, hgate.symm, hproven, ?_, ?_⟩
      · rw [← hrows]
        exact hcompute
      · rw [← hrows]
        exact coversExactly_of_exactCoverage hcovered
    have hplan : ∀ bucket ∈ (coverageOf request.buckets rows).buckets,
        InDay request.pair bucket := fun bucket hbucket ↦
      (readRequest_spec hrequest bucket (coverageOf_buckets_subset _ _ hbucket)).1
    refine inside_bind (inside_deleteHours _ _ hplan (.refl _ _)) (fun _ _ h ↦ .unchanged h) ?_
    intro results w' hw'
    rcases results with _ | results
    · exact settles_rollBackBlocked _
    · exact settles_finishDeletion hrequest hready _ _ _ hw'
  · rw [if_pos hcovered]
    exact settles_rollBackBlocked _

/-- A handler that keeps the committed database does not change what the body ended in. -/
theorem settles_tryCatch {body : Script Outcome} {handler : Failure → Script Outcome} {s : Session}
    (hbody : wp (databaseEnv view) body (Settles host view arguments db) s)
    (hhandler : ∀ failure s, EndsIn host view arguments db s.committed →
      wp (databaseEnv view) (handler failure) (Settles host view arguments db) s) :
    wp (databaseEnv view) (tryCatch body handler) (Settles host view arguments db) s := by
  refine wp_tryCatch.mpr (wp_mono (fun s r hr ↦ ?_) hbody)
  rcases r with failure | outcome
  · exact hhandler failure s hr
  · exact hr

/-- A rollback after a failure changes nothing, whether it succeeds or not. -/
theorem settles_rollingBack {body : Script Outcome} {s : Session}
    (h : wp (databaseEnv view) body (Settles host view arguments db) s) :
    wp (databaseEnv view) (rollingBack body) (Settles host view arguments db) s := by
  refine settles_tryCatch h fun failure s hends ↦ ?_
  refine wp_bind.mpr (wp_tryCatch.mpr (wp_query.mpr fun r s' hanswer ↦ ?_))
  rcases r with failure' | _
  · rcases hanswer with hcommitted | ⟨hcommit, -⟩
    · show EndsIn host view arguments db s'.committed
      rw [hcommitted]
      exact hends
    · cases hcommit
  · rcases hanswer with ⟨hbegin, -⟩ | ⟨-, rfl⟩ | ⟨hcommit, -⟩ | ⟨_, _, -, hstatement, -⟩
    · cases hbegin
    · exact hends
    · cases hcommit
    · exact absurd hstatement (by simp [Statement])

/-- **The transaction deletes the whole connector-day, only invalidates its evidence, or changes
nothing**, whatever query fails and whatever the buckets, the batch size and the cap are. -/
theorem deletion_all_or_nothing (host : Host) (view : CanonicalView) (arguments : Arguments)
    (db : Database) :
    wp (databaseEnv view) (runPruneConnectorDayDeletionTransaction host arguments)
      (fun s _ ↦ EndsIn host view arguments db s.committed) ⟨db, none⟩ := by
  refine wp_bind.mpr (wp_ofExcept.mpr ?_)
  rcases hrequest : readRequest host arguments with message | request
  · exact .unchanged rfl
  refine settles_tryCatch (wp_bind.mpr (wp_query.mpr fun r s' hanswer ↦ ?_)) ?_
  · rcases r with failure | _
    · rcases hanswer with hcommitted | ⟨hcommit, -⟩
      · exact .unchanged hcommitted
      · cases hcommit
    · rcases hanswer with ⟨-, rfl⟩ | ⟨hrollback, -⟩ | ⟨hcommit, -⟩ | ⟨_, _, hnone, -, -⟩
      · exact settles_rollingBack (settles_transactionBody hrequest)
      · cases hrollback
      · cases hcommit
      · cases hnone
  · intro failure s hends
    by_cases hconflict : isTransactionConflict failure = true
    · rw [if_pos hconflict]
      exact hends
    · rw [if_neg hconflict]
      exact hends

end Transaction

end UkAqOps.Prune

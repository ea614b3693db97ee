import UkAqOps.Lib.Except
import UkAqOps.Outbox.Flush

/-!
# Which claimed entries get resolved

A claimed entry must be handed back with a verdict, and the verdict must be `ok` only for rows that
were delivered. The upsert, its retries, its splits and the receipt write all run inside the `try`
block of a batch, so each of their failures becomes an `ok: false` verdict for the whole batch. Row
normalisation runs before that block: a malformed row ends the run with the batch unresolved.

The exact condition is therefore on the rows alone. `flush_resolves_iff` states it: a run resolves
what it claims exactly when no batch it reaches holds a malformed row.
-/

namespace UkAqOps.Outbox

/-! ## Accepted calls -/

/-- The remote call was answered without an error and with a usable count. -/
def RpcOutcome.Succeeds : RpcOutcome Reported → Prop
  | .data (.malformed _) => False
  | .data _ => True
  | .error _ => False
  | .rejected _ => False

theorem toIntField_ok_iff {reported : Reported} {fallback : ℕ} {fieldName : String} :
    (∃ n, toIntField reported fallback fieldName = .ok n)
      ↔ (RpcOutcome.data reported).Succeeds := by
  cases reported <;> simp [toIntField, RpcOutcome.Succeeds]

/-- `row` went out in a call of `calls` that was accepted. -/
def AcceptedIn (calls : List UpsertCall) (row : ObservsRow) : Prop :=
  ∃ call ∈ calls, call.accepted = true ∧ row ∈ call.rows

/-- The attempts only add calls, and if one of them returns then its call was accepted. -/
theorem upsertAttempts_spec (host : Host) (outcome : ℕ → RpcOutcome Reported)
    (rows : List ObservsRow) (left : ℕ) (calls : List UpsertCall) :
    ∃ more, (upsertAttempts host outcome rows left calls).2 = calls ++ more ∧
      ∀ n, (upsertAttempts host outcome rows left calls).1 = .ok n →
        ∀ row ∈ rows, AcceptedIn more row := by
  induction left generalizing calls with
  | zero => exact ⟨[], by simp [upsertAttempts], fun n h ↦ by simp [upsertAttempts] at h⟩
  | succ left ih =>
    rw [upsertAttempts]
    cases upsertObservsRowsChunk (outcome calls.length) rows with
    | ok m =>
      exact ⟨[⟨rows, true⟩], rfl, fun _ _ row hrow ↦
        ⟨⟨rows, true⟩, List.mem_singleton_self _, rfl, hrow⟩⟩
    | error raw =>
      dsimp only
      by_cases hretry : left ≠ 0 ∧
          isRetryableObservsUpsertError host (observsUpsertErrorMessage raw) = true
      · rw [if_pos hretry]
        obtain ⟨more, hcalls, hrows⟩ := ih (calls ++ [⟨rows, false⟩])
        refine ⟨⟨rows, false⟩ :: more, by rw [hcalls, List.append_assoc, List.singleton_append],
          fun n hn row hrow ↦ ?_⟩
        obtain ⟨call, hmem, hcall⟩ := hrows n hn row hrow
        exact ⟨call, List.mem_cons_of_mem _ hmem, hcall⟩
      · rw [if_neg hretry]
        exact ⟨[⟨rows, false⟩], rfl, fun n hn ↦ by cases hn⟩

/-- If the upsert of `rows` returns, each of its rows was accepted by one of the calls it made,
however often it was retried and split. -/
theorem upsertObservsRowsWithFallback_spec (host : Host) (outcome : ℕ → RpcOutcome Reported)
    (depthLeft : ℕ) (rows : List ObservsRow) (calls : List UpsertCall) :
    ∃ more, (upsertObservsRowsWithFallback host outcome depthLeft rows calls).2 = calls ++ more ∧
      ∀ n, (upsertObservsRowsWithFallback host outcome depthLeft rows calls).1 = .ok n →
        ∀ row ∈ rows, AcceptedIn more row := by
  induction depthLeft generalizing rows calls with
  | zero =>
    obtain ⟨more, hcalls, hrows⟩ :=
      upsertAttempts_spec host outcome rows observsUpsertRpcRetries calls
    rw [upsertObservsRowsWithFallback]
    cases hattempt : upsertAttempts host outcome rows observsUpsertRpcRetries calls with
    | mk result after =>
      rw [hattempt] at hcalls hrows
      cases result with
      | ok m => exact ⟨more, hcalls, fun n _ ↦ hrows m rfl⟩
      | error message => exact ⟨more, hcalls, fun n hn ↦ by cases hn⟩
  | succ depthLeft ih =>
    obtain ⟨more, hcalls, hrows⟩ :=
      upsertAttempts_spec host outcome rows observsUpsertRpcRetries calls
    rw [upsertObservsRowsWithFallback]
    cases hattempt : upsertAttempts host outcome rows observsUpsertRpcRetries calls with
    | mk result after =>
      rw [hattempt] at hcalls hrows
      cases result with
      | ok m => exact ⟨more, hcalls, fun n _ ↦ hrows m rfl⟩
      | error message =>
        dsimp only at hcalls ⊢
        subst hcalls
        by_cases hsplit : isObservsStatementTimeoutError host message = true ∧
            observsUpsertTimeoutSplitMinRows * 2 ≤ rows.length
        · rw [if_pos hsplit]
          by_cases hempty : rows.take (rows.length / 2) = [] ∨ rows.drop (rows.length / 2) = []
          · rw [if_pos hempty]
            exact ⟨more, rfl, fun n hn ↦ by cases hn⟩
          · rw [if_neg hempty]
            -- a split returns only when both halves do, and the halves make up the rows
            obtain ⟨moreLeft, hleft, hleftRows⟩ :=
              ih (rows.take (rows.length / 2)) (calls ++ more)
            cases hleftRun : upsertObservsRowsWithFallback host outcome depthLeft
                (rows.take (rows.length / 2)) (calls ++ more) with
            | mk leftResult leftCalls =>
              rw [hleftRun] at hleft hleftRows
              dsimp only at hleft
              subst hleft
              cases leftResult with
              | error _ =>
                exact ⟨more ++ moreLeft, List.append_assoc _ _ _, fun n hn ↦ by cases hn⟩
              | ok leftCount =>
                obtain ⟨moreRight, hright, hrightRows⟩ :=
                  ih (rows.drop (rows.length / 2)) (calls ++ more ++ moreLeft)
                dsimp only
                cases hrightRun : upsertObservsRowsWithFallback host outcome depthLeft
                    (rows.drop (rows.length / 2)) (calls ++ more ++ moreLeft) with
                | mk rightResult rightCalls =>
                  rw [hrightRun] at hright hrightRows
                  dsimp only at hright
                  subst hright
                  have hassoc : calls ++ more ++ moreLeft ++ moreRight
                      = calls ++ (more ++ moreLeft ++ moreRight) := by
                    rw [List.append_assoc, List.append_assoc, List.append_assoc]
                  cases rightResult with
                  | error _ => exact ⟨_, hassoc, fun n hn ↦ by cases hn⟩
                  | ok rightCount =>
                    refine ⟨_, hassoc, fun n _ row hrow ↦ ?_⟩
                    rw [← List.take_append_drop (rows.length / 2) rows, List.mem_append] at hrow
                    rcases hrow with hrow | hrow
                    · obtain ⟨call, hmem, hcall⟩ := hleftRows leftCount rfl row hrow
                      exact ⟨call, by simp [hmem], hcall⟩
                    · obtain ⟨call, hmem, hcall⟩ := hrightRows rightCount rfl row hrow
                      exact ⟨call, by simp [hmem], hcall⟩
        · rw [if_neg hsplit]
          exact ⟨more, rfl, fun n hn ↦ by cases hn⟩

/-! ## The delivery of a batch -/

/-- The receipts of a batch were written, or the batch had no row to write a receipt for. -/
def ReceiptsWritten (observsRows : List ObservsRow)
    (receipts : Option (List ReceiptRow × RpcOutcome Reported)) : Prop :=
  observsRows = [] ∨ ∃ call, receipts = some call ∧ call.2.Succeeds

theorem buildReceiptRows_ne_nil {observsRows : List ObservsRow} (h : observsRows ≠ []) :
    buildReceiptRows observsRows ≠ [] := by
  obtain ⟨row, rest, rfl⟩ := List.exists_cons_of_ne_nil h
  intro hnil
  rw [buildReceiptRows, OrderedMap.values, List.map_eq_nil_iff] at hnil
  have hmem := OrderedMap.mem_keys_ofList.mpr
    (List.mem_map_of_mem (f := Prod.fst) (List.mem_map_of_mem (f := fun row : ObservsRow ↦
      (row.connectorId ++ "|" ++ row.timeseriesId ++ "|" ++ toObservedDay row.observedAt,
        (⟨row.connectorId, row.timeseriesId, toObservedDay row.observedAt⟩ : ReceiptRow)))
      (List.mem_cons_self (a := row) (l := rest))))
  rw [OrderedMap.keys, hnil] at hmem
  exact absurd hmem List.not_mem_nil

/-- The `try` block returns exactly when it wrote the receipts. -/
theorem deliver_failure_eq_none_iff (host : Host) (upsert : ℕ → RpcOutcome Reported)
    (receipts : RpcOutcome Reported) {observsRows : List ObservsRow} (h : observsRows ≠ []) :
    (deliver host upsert receipts observsRows).failure = none ↔
      ∃ call, (deliver host upsert receipts observsRows).receipts = some call ∧
        call.2.Succeeds := by
  rw [deliver]
  cases upsertObservsRowsWithFallback host upsert observsUpsertTimeoutSplitMaxDepth
      observsRows [] with
  | mk result calls =>
    cases result with
    | error message => simp
    | ok upserted =>
      dsimp only
      rw [if_neg (buildReceiptRows_ne_nil h)]
      cases receipts with
      | rejected message => simp [RpcOutcome.Succeeds]
      | error message => simp [RpcOutcome.Succeeds]
      | data reported => cases reported <;> simp [RpcOutcome.Succeeds, toIntField]

/-- If the `try` block returns, every row went out in an accepted call. -/
theorem acceptedIn_of_deliver {host : Host} {upsert : ℕ → RpcOutcome Reported}
    {receipts : RpcOutcome Reported} {observsRows : List ObservsRow}
    (h : (deliver host upsert receipts observsRows).failure = none) {row : ObservsRow}
    (hrow : row ∈ observsRows) :
    AcceptedIn (deliver host upsert receipts observsRows).upserts row := by
  obtain ⟨more, hcalls, hrows⟩ := upsertObservsRowsWithFallback_spec host upsert
    observsUpsertTimeoutSplitMaxDepth observsRows []
  rw [List.nil_append] at hcalls
  have hupserts : (deliver host upsert receipts observsRows).upserts = more := by
    rw [← hcalls, deliver]
    split <;> rename_i heq <;> rw [heq]
    dsimp only
    split
    · rfl
    · split
      · rfl
      · rfl
      · split <;> rfl
  rw [hupserts]
  rw [deliver] at h
  cases hrun : upsertObservsRowsWithFallback host upsert observsUpsertTimeoutSplitMaxDepth
      observsRows [] with
  | mk result calls =>
    rw [hrun] at h hrows
    cases result with
    | error message => simp at h
    | ok upserted => exact hrows upserted rfl row hrow

/-! ## Well-formed rows -/

/-- What row normalisation asks of a payload row: it is not `null`, its ids are present and read as
integers, and its timestamp reads as a date. -/
structure RowWellFormed (host : Host) (row : JsValue) : Prop where
  connectorId : ∃ v, row.property "connector_id" = .ok v ∧ isMissing v = false ∧
    (parseBigInt v.text).isSome
  timeseriesId : ∃ v, row.property "timeseries_id" = .ok v ∧ isMissing v = false ∧
    (parseBigInt v.text).isSome
  observedAt : ∃ v, row.property "observed_at" = .ok v ∧ (host.dateParse v.text).isSome

theorem toBigIntString_ok_iff {value : JsValue} (fieldName : String) :
    (∃ s, toBigIntString value fieldName = .ok s)
      ↔ isMissing value = false ∧ (parseBigInt value.text).isSome := by
  rw [toBigIntString]
  cases hmissing : isMissing value
  · cases parseBigInt value.text <;> simp
  · simp

theorem toIso_ok_iff {host : Host} {value : JsValue} (fieldName : String) :
    (∃ s, toIso host value fieldName = .ok s) ↔ (host.dateParse value.text).isSome := by
  rw [toIso]
  cases host.dateParse value.text <;> simp

/-- A property that can be read once can be read under every name. -/
private theorem property_ok {row v : JsValue} {name : String} (h : row.property name = .ok v)
    (name' : String) : ∃ v', row.property name' = .ok v' := by
  cases row <;> simp_all [JsValue.property]

theorem normalizeObservsRow_ok_iff {host : Host} {row : JsValue} :
    (∃ r, normalizeObservsRow host row = .ok r) ↔ RowWellFormed host row := by
  constructor
  · rintro ⟨r, hr⟩
    simp only [normalizeObservsRow, Except.bind_eq_ok_iff] at hr
    obtain ⟨c, hc, connectorId, hconnector, t, ht, timeseriesId, htimeseries, o, ho, observedAt,
      hobserved, -⟩ := hr
    exact ⟨⟨c, hc, (toBigIntString_ok_iff _).mp ⟨_, hconnector⟩⟩,
      ⟨t, ht, (toBigIntString_ok_iff _).mp ⟨_, htimeseries⟩⟩,
      ⟨o, ho, (toIso_ok_iff _).mp ⟨_, hobserved⟩⟩⟩
  · rintro ⟨⟨c, hc, hcOk⟩, ⟨t, ht, htOk⟩, ⟨o, ho, hoOk⟩⟩
    obtain ⟨connectorId, hconnector⟩ :=
      (toBigIntString_ok_iff "observs_row.connector_id").mpr hcOk
    obtain ⟨timeseriesId, htimeseries⟩ :=
      (toBigIntString_ok_iff "observs_row.timeseries_id").mpr htOk
    obtain ⟨observedAt, hobserved⟩ :=
      (toIso_ok_iff "observs_row.observed_at").mpr hoOk
    obtain ⟨hex, hhex⟩ := property_ok hc "value_float8_hex"
    obtain ⟨value, hvalue⟩ := property_ok hc "value"
    obtain ⟨status, hstatus⟩ := property_ok hc "status"
    simp only [normalizeObservsRow, hc, hconnector, ht, htimeseries, ho, hobserved, hhex, hvalue,
      hstatus, bind, Except.bind, pure, Except.pure]
    exact ⟨_, rfl⟩

theorem normalizeObservsRows_ok_iff {host : Host} {rows : List JsValue} :
    (∃ r, normalizeObservsRows host rows = .ok r) ↔ ∀ row ∈ rows, RowWellFormed host row := by
  have hmap : (∃ r, normalizeObservsRows host rows = .ok r)
      ↔ ∃ r, rows.mapM (normalizeObservsRow host) = .ok r := by
    rw [normalizeObservsRows]
    cases rows.mapM (normalizeObservsRow host) <;>
      simp [bind, Except.bind, pure, Except.pure]
  rw [hmap, Except.exists_mapM_eq_ok_iff]
  exact forall₂_congr fun row _ ↦ normalizeObservsRow_ok_iff

/-- The batch keeps, for every payload row, the last row of the batch with the same key. -/
theorem mem_normalizeObservsRows {host : Host} {rows : List JsValue} {kept : List ObservsRow}
    (h : normalizeObservsRows host rows = .ok kept) {row : JsValue} (hrow : row ∈ rows) :
    ∃ r, normalizeObservsRow host row = .ok r ∧ ∃ r' ∈ kept, r'.key = r.key := by
  rw [normalizeObservsRows] at h
  obtain ⟨all, hall, hkept⟩ := Except.bind_eq_ok_iff.mp h
  obtain ⟨r, hr, hnorm⟩ := Except.exists_output_of_mem hall hrow
  have hvalues : (OrderedMap.ofList (all.map fun row ↦ (row.key, row))).values = kept := by
    simpa [pure, Except.pure] using hkept
  refine ⟨r, hnorm, ?_⟩
  have hkey : r.key ∈ (OrderedMap.ofList (all.map fun row ↦ (row.key, row))).keys :=
    OrderedMap.mem_keys_ofList.mpr
      (List.mem_map_of_mem (f := Prod.fst) (List.mem_map_of_mem hr))
  obtain ⟨r', hr'⟩ := Option.isSome_iff_exists.mp ((OrderedMap.get?_isSome_iff _).mpr hkey)
  have hkept' : r' ∈ kept := by
    rw [← hvalues]
    exact OrderedMap.mem_values.mpr ⟨_, (OrderedMap.get?_eq_some_iff _).mp hr'⟩
  refine ⟨r', hkept', ?_⟩
  rw [OrderedMap.get?_ofList, Option.map_eq_some_iff] at hr'
  obtain ⟨p, hp, rfl⟩ := hr'
  obtain ⟨q, -, rfl⟩ := List.mem_map.mp (List.mem_reverse.mp (List.mem_of_find?_eq_some hp))
  simpa using List.find?_some hp

/-! ## The contract of a run -/

/-- Every payload row of `entry` is represented, under its key, by a row of the batch that an
accepted upsert carried, and the receipts of the batch were written. -/
def Delivered (host : Host) (record : BatchRecord) (entry : Entry) : Prop :=
  ∃ kept, normalizeObservsRows host (batchRows record.entries) = .ok kept ∧
    ReceiptsWritten kept record.receipts ∧
    ∀ row ∈ entry.payloadRows, ∃ r, normalizeObservsRow host row = .ok r ∧
      ∃ r' ∈ kept, r'.key = r.key ∧ AcceptedIn record.upserts r'

/-- A run that starts at batch `start` with `left` batches allowed hands every claimed entry back
exactly once, with the verdict its rows deserve, and stops early only for the outbox being empty or
for a failing claim or resolve call. -/
structure ResolvesEvery (host : Host) (inputs : FlushInputs) (claimBatchLimit start left : ℕ)
    (run : FlushRun) : Prop where
  claimed : ∀ i, ∀ record ∈ run.batches[i]?,
    inputs.claim claimBatchLimit (start + i) = .data record.entries
  submitted : ∀ record ∈ run.batches, ∃ resolutions, record.resolutions = some resolutions ∧
    List.Forall₂ (fun entry resolution ↦ resolution.id = entry.id ∧
      (resolution.ok = true ↔ Delivered host record entry)) record.entries resolutions
  ended : run.batches.length = left ∨
    (∀ entry entries,
      inputs.claim claimBatchLimit (start + run.batches.length) ≠ .data (entry :: entries)) ∨
    ∃ i, run.batches.length = i + 1 ∧ ¬(inputs.resolve (start + i)).Succeeds

/-- The inputs lead a run that starts at batch `start` to claim `entries` as its batch `i`: every
batch before claimed some entries and was resolved. -/
def Reached (inputs : FlushInputs) (claimBatchLimit start left i : ℕ) (entries : List Entry) :
    Prop :=
  i < left ∧ entries ≠ [] ∧ inputs.claim claimBatchLimit (start + i) = .data entries ∧
    ∀ j < i, (∃ entry rest, inputs.claim claimBatchLimit (start + j) = .data (entry :: rest)) ∧
      (inputs.resolve (start + j)).Succeeds

/-- No batch the inputs lead the run to holds a malformed row. -/
def ReachesOnlyWellFormed (host : Host) (inputs : FlushInputs)
    (claimBatchLimit start left : ℕ) : Prop :=
  ∀ i entries, Reached inputs claimBatchLimit start left i entries →
    ∀ row ∈ batchRows entries, RowWellFormed host row

/-! ## One batch -/

theorem resolveBatch_ok_iff {outcome : RpcOutcome Reported} (resolutions : List Resolution) :
    (∃ n, resolveBatch outcome resolutions = .ok n) ↔ outcome.Succeeds := by
  cases outcome with
  | data reported => exact toIntField_ok_iff
  | error message => simp [resolveBatch, RpcOutcome.Succeeds]
  | rejected message => simp [resolveBatch, RpcOutcome.Succeeds]

/-- A batch with a malformed row is left without a resolution. -/
theorem flushBatch_malformed {host : Host} (inputs : FlushInputs) (batch : ℕ)
    {entries : List Entry} (summary : FlushSummary) (h : ¬∀ row ∈ batchRows entries,
      RowWellFormed host row) :
    ∃ message, flushBatch host inputs batch entries summary
      = (⟨entries, [], none, none⟩, .error message) := by
  rw [← normalizeObservsRows_ok_iff] at h
  rw [flushBatch]
  cases hnorm : normalizeObservsRows host (batchRows entries) with
  | ok kept => exact absurd ⟨kept, hnorm⟩ h
  | error message => exact ⟨message, rfl⟩

private theorem forall₂_resolutionsFor (entries : List Entry) (failure : Option String)
    (P : Entry → Prop) (h : ∀ entry ∈ entries, (failure = none ↔ P entry)) :
    List.Forall₂ (fun entry resolution ↦ resolution.id = entry.id ∧
      (resolution.ok = true ↔ P entry)) entries (resolutionsFor entries failure) := by
  rw [resolutionsFor, List.forall₂_map_right_iff, List.forall₂_same]
  intro entry hentry
  exact ⟨rfl, by rw [Option.isNone_iff_eq_none]; exact h entry hentry⟩

/-- A batch of well-formed rows submits one resolution for each entry with the right verdict, and
goes on exactly when the resolve call succeeds. -/
theorem flushBatch_wellFormed {host : Host} (inputs : FlushInputs) (batch : ℕ)
    {entries : List Entry} (summary : FlushSummary) (h : ∀ row ∈ batchRows entries,
      RowWellFormed host row) :
    ∃ record result, flushBatch host inputs batch entries summary = (record, result) ∧
      record.entries = entries ∧
      (∃ resolutions, record.resolutions = some resolutions ∧
        List.Forall₂ (fun entry resolution ↦ resolution.id = entry.id ∧
          (resolution.ok = true ↔ Delivered host record entry)) record.entries resolutions) ∧
      ((∃ s, result = .ok s) ↔ (inputs.resolve batch).Succeeds) := by
  obtain ⟨kept, hkept⟩ := normalizeObservsRows_ok_iff.mpr h
  rw [flushBatch, hkept]
  dsimp only
  set delivery : Delivery := if kept = [] then ⟨[], none, 0, 0, none⟩
    else deliver host (inputs.upsert batch) (inputs.receipts batch) kept with hdelivery
  have hverdict : ∀ entry ∈ entries, (delivery.failure = none ↔ Delivered host
      ⟨entries, delivery.upserts, delivery.receipts,
        some (resolutionsFor entries delivery.failure)⟩ entry) := by
    intro entry hentry
    have hpayload : ∀ row ∈ entry.payloadRows, row ∈ batchRows entries := fun row hrow ↦
      List.mem_flatMap.mpr ⟨entry, hentry, hrow⟩
    by_cases hnil : kept = []
    · rw [if_pos hnil] at hdelivery
      rw [hdelivery]
      refine iff_of_true rfl ⟨kept, hkept, Or.inl hnil, fun row hrow ↦ ?_⟩
      obtain ⟨r, -, r', hr', -⟩ := mem_normalizeObservsRows hkept (hpayload row hrow)
      rw [hnil] at hr'
      exact absurd hr' List.not_mem_nil
    · rw [if_neg hnil] at hdelivery
      rw [hdelivery]
      constructor
      · intro hnone
        refine ⟨kept, hkept, Or.inr ((deliver_failure_eq_none_iff _ _ _ hnil).mp hnone),
          fun row hrow ↦ ?_⟩
        obtain ⟨r, hr, r', hr', hkey⟩ := mem_normalizeObservsRows hkept (hpayload row hrow)
        exact ⟨r, hr, r', hr', hkey, acceptedIn_of_deliver hnone hr'⟩
      · rintro ⟨kept', hkept', hreceipts, -⟩
        have heq : kept' = kept := by
          simpa using hkept'.symm.trans hkept
        subst heq
        rcases hreceipts with hempty | hwritten
        · exact absurd hempty hnil
        · exact (deliver_failure_eq_none_iff _ _ _ hnil).mpr hwritten
  have hsubmitted : List.Forall₂ _ entries (resolutionsFor entries delivery.failure) :=
    forall₂_resolutionsFor entries delivery.failure _ hverdict
  cases hresolve : resolveBatch (inputs.resolve batch)
      (resolutionsFor entries delivery.failure) with
  | error message =>
    refine ⟨_, _, rfl, rfl, ⟨_, rfl, hsubmitted⟩, ?_⟩
    rw [← resolveBatch_ok_iff (resolutionsFor entries delivery.failure), hresolve]
    simp
  | ok n =>
    refine ⟨_, _, rfl, rfl, ⟨_, rfl, hsubmitted⟩, ?_⟩
    rw [← resolveBatch_ok_iff (resolutionsFor entries delivery.failure), hresolve]
    simp

/-! ## The run -/

section Loop

variable {host : Host} {inputs : FlushInputs} {claimBatchLimit start left : ℕ}

/-- Nothing is claimed: the run is over at once, and nothing was reached. -/
theorem resolvesEvery_of_no_claim (result : Except String FlushSummary)
    (h : ∀ entry entries, inputs.claim claimBatchLimit start ≠ .data (entry :: entries)) :
    ResolvesEvery host inputs claimBatchLimit start left ⟨[], result⟩ ∧
      ReachesOnlyWellFormed host inputs claimBatchLimit start left := by
  refine ⟨⟨by simp, by simp, Or.inr (Or.inl h)⟩, ?_⟩
  rintro i entries ⟨-, hne, hclaim, hbefore⟩
  cases i with
  | zero =>
    obtain ⟨entry, rest, rfl⟩ := List.exists_cons_of_ne_nil hne
    exact absurd hclaim (h entry rest)
  | succ i =>
    obtain ⟨entry, rest, hdata⟩ := (hbefore 0 (Nat.succ_pos i)).1
    exact absurd hdata (h entry rest)

theorem reachesOnlyWellFormed_succ_iff {entry : Entry} {entries : List Entry}
    (hclaim : inputs.claim claimBatchLimit start = .data (entry :: entries)) :
    ReachesOnlyWellFormed host inputs claimBatchLimit start (left + 1) ↔
      (∀ row ∈ batchRows (entry :: entries), RowWellFormed host row) ∧
        ((inputs.resolve start).Succeeds →
          ReachesOnlyWellFormed host inputs claimBatchLimit (start + 1) left) := by
  constructor
  · intro h
    refine ⟨h 0 _ ⟨Nat.succ_pos _, List.cons_ne_nil _ _, hclaim, by simp⟩, ?_⟩
    rintro hresolve i es ⟨hi, hne, hclaim', hbefore⟩
    refine h (i + 1) es ⟨by omega, hne, by rw [← hclaim']; congr 1; omega, fun j hj ↦ ?_⟩
    cases j with
    | zero => exact ⟨⟨entry, entries, hclaim⟩, hresolve⟩
    | succ j =>
      have hshift : start + (j + 1) = start + 1 + j := by omega
      rw [hshift]
      exact hbefore j (by omega)
  · rintro ⟨hfirst, hrest⟩ i es ⟨hi, hne, hclaim', hbefore⟩
    cases i with
    | zero =>
      have hes : entry :: entries = es := by simpa [hclaim] using hclaim'
      rw [← hes]
      exact hfirst
    | succ i =>
      refine hrest (hbefore 0 (Nat.succ_pos i)).2 i es ⟨by omega, hne, ?_, fun j hj ↦ ?_⟩
      · rw [← hclaim']
        congr 1
        omega
      · have hshift : start + 1 + j = start + (j + 1) := by omega
        rw [hshift]
        exact hbefore (j + 1) (by omega)

theorem resolvesEvery_cons_iff {record : BatchRecord} {rest : FlushRun}
    (hclaim : inputs.claim claimBatchLimit start = .data record.entries)
    (hsubmitted : ∃ resolutions, record.resolutions = some resolutions ∧
      List.Forall₂ (fun entry resolution ↦ resolution.id = entry.id ∧
        (resolution.ok = true ↔ Delivered host record entry)) record.entries resolutions)
    (hresolve : (inputs.resolve start).Succeeds) :
    ResolvesEvery host inputs claimBatchLimit start (left + 1) ⟨record :: rest.batches, rest.result⟩
      ↔ ResolvesEvery host inputs claimBatchLimit (start + 1) left rest := by
  constructor
  · rintro ⟨hc, hs, he⟩
    refine ⟨fun i r hr ↦ ?_, fun r hr ↦ hs r (List.mem_cons_of_mem _ hr), ?_⟩
    · have hshift : start + 1 + i = start + (i + 1) := by omega
      rw [hshift]
      exact hc (i + 1) r hr
    · rcases he with he | he | ⟨i, hi, he⟩
      · exact Or.inl (Nat.succ_injective he)
      · refine Or.inr (Or.inl fun e es ↦ ?_)
        have hshift : start + 1 + rest.batches.length
            = start + (record :: rest.batches).length := by rw [List.length_cons]; omega
        rw [hshift]
        exact he e es
      · cases i with
        | zero => exact absurd hresolve he
        | succ i =>
          refine Or.inr (Or.inr ⟨i, Nat.succ_injective hi, ?_⟩)
          have hshift : start + 1 + i = start + (i + 1) := by omega
          rw [hshift]
          exact he
  · rintro ⟨hc, hs, he⟩
    refine ⟨fun i r hr ↦ ?_, fun r hr ↦ ?_, ?_⟩
    · cases i with
      | zero =>
        have hrec : record = r := by simpa using hr
        rw [← hrec]
        exact hclaim
      | succ i =>
        have hshift : start + (i + 1) = start + 1 + i := by omega
        rw [hshift]
        exact hc i r hr
    · rcases List.mem_cons.mp hr with rfl | hr
      · exact hsubmitted
      · exact hs r hr
    · rcases he with he | he | ⟨i, hi, he⟩
      · exact Or.inl (congrArg Nat.succ he)
      · refine Or.inr (Or.inl fun e es ↦ ?_)
        have hshift : start + (record :: rest.batches).length
            = start + 1 + rest.batches.length := by rw [List.length_cons]; omega
        rw [hshift]
        exact he e es
      · refine Or.inr (Or.inr ⟨i + 1, congrArg Nat.succ hi, ?_⟩)
        have hshift : start + (i + 1) = start + 1 + i := by omega
        rw [hshift]
        exact he

/-- The loop, batch by batch: the induction follows the number of batches still allowed. -/
theorem flushLoop_resolvesEvery_iff (summary : FlushSummary) :
    ResolvesEvery host inputs claimBatchLimit start left
        (flushLoop host inputs claimBatchLimit left start summary)
      ↔ ReachesOnlyWellFormed host inputs claimBatchLimit start left := by
  induction left generalizing start summary with
  | zero =>
    refine iff_of_true ⟨by simp [flushLoop], by simp [flushLoop], Or.inl rfl⟩ ?_
    rintro i entries ⟨hi, -⟩
    exact absurd hi (Nat.not_lt_zero i)
  | succ left ih =>
    rw [flushLoop]
    cases hclaim : inputs.claim claimBatchLimit start with
    | rejected message =>
      exact iff_of_true (resolvesEvery_of_no_claim _ (by simp [hclaim])).1
        (resolvesEvery_of_no_claim (.error message) (by simp [hclaim])).2
    | error message =>
      exact iff_of_true (resolvesEvery_of_no_claim _ (by simp [hclaim])).1
        (resolvesEvery_of_no_claim (.error message) (by simp [hclaim])).2
    | data entries =>
      cases entries with
      | nil =>
        exact iff_of_true (resolvesEvery_of_no_claim _ (by simp [hclaim])).1
          (resolvesEvery_of_no_claim (.ok summary) (by simp [hclaim])).2
      | cons entry entries =>
        rw [reachesOnlyWellFormed_succ_iff hclaim]
        dsimp only
        by_cases hrows : ∀ row ∈ batchRows (entry :: entries), RowWellFormed host row
        · obtain ⟨record, result, hbatch, hentries, hsubmitted, hresult⟩ :=
            flushBatch_wellFormed inputs start summary hrows
          rw [hbatch]
          cases result with
          | error message =>
            have hfail : ¬(inputs.resolve start).Succeeds := fun h ↦ by
              obtain ⟨s, hs⟩ := hresult.mpr h
              cases hs
            refine iff_of_true ⟨?_, by simpa using hsubmitted, Or.inr (Or.inr ⟨0, rfl, hfail⟩)⟩
              ⟨hrows, fun h ↦ absurd h hfail⟩
            intro i r hr
            cases i with
            | zero =>
              have hrec : record = r := by simpa using hr
              rw [← hrec, hentries]
              exact hclaim
            | succ i => simp at hr
          | ok summary' =>
            have hresolve := hresult.mp ⟨summary', rfl⟩
            dsimp only
            rw [resolvesEvery_cons_iff (by rw [hclaim, hentries]) hsubmitted hresolve, ih]
            exact ⟨fun h ↦ ⟨hrows, fun _ ↦ h⟩, fun h ↦ h.2 hresolve⟩
        · obtain ⟨message, hbatch⟩ := flushBatch_malformed inputs start summary hrows
          rw [hbatch]
          refine iff_of_false (fun h ↦ ?_) (fun h ↦ hrows h.1)
          obtain ⟨resolutions, hsome, -⟩ := h.submitted _ (List.mem_singleton_self _)
          cases hsome

end Loop

/-- **A run resolves every entry it claims, with the right verdict, exactly when none of the batches
its inputs lead it to holds a malformed row.** -/
theorem flush_resolves_iff (host : Host) (inputs : FlushInputs)
    (claimBatchLimit maxFlushBatches : ℕ) :
    ResolvesEvery host inputs claimBatchLimit 0 maxFlushBatches
        (flushObservsOutbox host inputs claimBatchLimit maxFlushBatches)
      ↔ ReachesOnlyWellFormed host inputs claimBatchLimit 0 maxFlushBatches :=
  flushLoop_resolvesEvery_iff {}

/-- One claimed entry whose only row has the connector id `"abc"`. -/
def poisonInputs : FlushInputs where
  claim _ batch := if batch = 0 then .data [⟨.str "entry-1", .arr [.obj [
      ("connector_id", .str "abc"), ("timeseries_id", .num "7"),
      ("observed_at", .str "2024-01-01T00:00:00.000Z"), ("value", .num "1")]]⟩]
    else .data []
  upsert _ _ := .data .absent
  receipts _ := .data .absent
  resolve _ := .data .absent

def epochHost : Host := ⟨fun _ ↦ some 0, fun text ↦ text⟩

/-- The poison row leaves its entry claimed and unresolved, and the run throws. -/
theorem flush_poison_row_unresolved :
    ¬ResolvesEvery epochHost poisonInputs 20 0 30
      (flushObservsOutbox epochHost poisonInputs 20 30) := by
  intro h
  have hrow : RowWellFormed epochHost (.obj [("connector_id", .str "abc"),
      ("timeseries_id", .num "7"), ("observed_at", .str "2024-01-01T00:00:00.000Z"),
      ("value", .num "1")]) :=
    (flushLoop_resolvesEvery_iff {}).mp h 0 _
      ⟨by decide, List.cons_ne_nil _ _, rfl, by simp⟩ _ List.mem_cons_self
  obtain ⟨v, hv, -, hint⟩ := hrow.connectorId
  have hvalue : JsValue.str "abc" = v := Except.ok.inj hv
  subst hvalue
  revert hint
  decide

end UkAqOps.Outbox

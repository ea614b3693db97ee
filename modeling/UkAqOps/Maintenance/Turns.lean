import UkAqOps.Maintenance.Run

/-!
# What the turn of a candidate does

The calls of a turn and its outcome, said in terms of the answers it meets. `Confirms` and
`ReadsNoRows` are the two ways in which the drop is opened, `Refused` is a drop call that fails for
good. The inversion lemma `handleCandidate_cases` is what everything else about a turn follows from.
-/

namespace UkAqOps.Maintenance

variable {host : Host} {config : Config} {r2 : R2Config} {m : Circumstances} {c : DropCandidate}

/-! ## Repeated calls -/

/-- The call fails with an error that is tried again. -/
def Retried (host : Host) (answer : RpcOutcome) (errorLabel : String) : Prop :=
  ∃ message, callRpc answer errorLabel = .error message ∧ isRetryableRpcError host message = true

/-- Of `left` attempts the first ones are tried again, and then one fails for good. -/
def Refused (host : Host) (answer : ℕ → RpcOutcome) (errorLabel : String) (left : ℕ) : Prop :=
  ∃ k < left, (∀ j < k, Retried host (answer j) errorLabel) ∧
    ∃ message, callRpc (answer k) errorLabel = .error message ∧
      (k + 1 = left ∨ isRetryableRpcError host message = false)

theorem refused_succ_iff {answer : ℕ → RpcOutcome} {errorLabel : String} {left : ℕ} :
    Refused host answer errorLabel (left + 1) ↔
      ∃ message, callRpc (answer 0) errorLabel = .error message ∧
        ((left = 0 ∨ isRetryableRpcError host message = false) ∨
          (isRetryableRpcError host message = true ∧
            Refused host (fun k ↦ answer (k + 1)) errorLabel left)) := by
  constructor
  · rintro ⟨k, hk, hbefore, message, hcall, hlast⟩
    rcases k with _ | k
    · refine ⟨message, hcall, Or.inl ?_⟩
      rcases hlast with h | h
      · exact Or.inl (by omega)
      · exact Or.inr h
    · obtain ⟨first, hfirst, hretry⟩ := hbefore 0 (by omega)
      refine ⟨first, hfirst, Or.inr ⟨hretry, k, by omega, ?_, message, hcall, ?_⟩⟩
      · intro j hj
        exact hbefore (j + 1) (by omega)
      · rcases hlast with h | h
        · exact Or.inl (by omega)
        · exact Or.inr h
  · rintro ⟨message, hcall, hlast | ⟨hretry, k, hk, hbefore, last, hlastCall, hlast⟩⟩
    · refine ⟨0, by omega, fun j hj ↦ absurd hj (by omega), message, hcall, ?_⟩
      rcases hlast with h | h
      · exact Or.inl (by omega)
      · exact Or.inr h
    · refine ⟨k + 1, by omega, ?_, last, hlastCall, ?_⟩
      · intro j hj
        rcases j with _ | j
        · exact ⟨message, hcall, hretry⟩
        · exact hbefore j (by omega)
      · rcases hlast with h | h
        · exact Or.inl (by omega)
        · exact Or.inr h

/-- The attempts fail exactly when they are refused. -/
theorem callRpcWithRetry_error_iff {errorLabel : String} (left : ℕ) :
    ∀ (answer : ℕ → RpcOutcome) (attempt : ℕ),
      (∃ message, (callRpcWithRetry host answer errorLabel left attempt).1 = .error message) ↔
        Refused host (fun k ↦ answer (attempt + k)) errorLabel left := by
  induction left with
  | zero =>
    intro answer attempt
    constructor
    · rintro ⟨message, h⟩
      exact nomatch h
    · rintro ⟨k, hk, -⟩
      omega
  | succ left ih =>
    intro answer attempt
    rw [refused_succ_iff, callRpcWithRetry]
    rcases hcall : callRpc (answer attempt) errorLabel with message | data
    · simp only [Nat.add_zero, Except.error.injEq, exists_eq_left']
      by_cases hleft : left = 0
      · simp [hleft]
      · by_cases hretry : isRetryableRpcError host message = true
        · rw [if_pos ⟨hleft, hretry⟩, ih]
          simp [hretry, hleft, Nat.add_assoc, Nat.add_comm 1]
        · simp [hretry]
    · simp

/-- Every attempt but the last one is an error, so data is only ever the answer of the last one. -/
theorem error_of_lt_callRpcWithRetry {errorLabel : String} (left : ℕ) :
    ∀ (answer : ℕ → RpcOutcome) (attempt k : ℕ), attempt ≤ k →
      k < (callRpcWithRetry host answer errorLabel left attempt).2 →
      (∃ message, (callRpcWithRetry host answer errorLabel left attempt).1 = .error message) →
      ∃ message, callRpc (answer k) errorLabel = .error message := by
  induction left with
  | zero =>
    intro answer attempt k _ _ h
    obtain ⟨message, h⟩ := h
    exact nomatch h
  | succ left ih =>
    intro answer attempt k hk hlt herror
    rw [callRpcWithRetry] at hlt herror
    rcases hcall : callRpc (answer attempt) errorLabel with message | data
    · rw [hcall] at hlt herror
      rcases Nat.eq_or_lt_of_le hk with rfl | hgt
      · exact ⟨message, hcall⟩
      · dsimp only at hlt herror
        split at hlt
        · rename_i hretry
          rw [if_pos hretry] at herror
          exact ih answer (attempt + 1) k hgt hlt herror
        · dsimp only at hlt
          omega
    · rw [hcall] at herror
      obtain ⟨message, h⟩ := herror
      exact nomatch h

theorem lt_callRpcWithRetry {answer : ℕ → RpcOutcome} {errorLabel : String} (left : ℕ) :
    ∀ attempt : ℕ, attempt < (callRpcWithRetry host answer errorLabel (left + 1) attempt).2 := by
  induction left with
  | zero =>
    intro attempt
    rw [callRpcWithRetry]
    rcases callRpc (answer attempt) errorLabel with message | data
    · simp
    · simp
  | succ left ih =>
    intro attempt
    rw [callRpcWithRetry]
    rcases callRpc (answer attempt) errorLabel with message | data
    · dsimp only
      split
      · exact (Nat.lt_succ_self attempt).trans (ih (attempt + 1))
      · exact Nat.lt_succ_self attempt
    · exact Nat.lt_succ_self attempt

/-! ## The manifest -/

/-- The manifest names the day and carries its own hash. -/
structure Authentic (host : Host) (dayUtc : String) (fields : List (String × JsValue)) : Prop where
  names_day : trimmedText ((JsValue.obj fields).optional "day_utc") = dayUtc
  hash_ne : trimmedText ((JsValue.obj fields).optional "manifest_hash") ≠ ""
  hash_eq : recomputedManifestHash host fields =
    trimmedText ((JsValue.obj fields).optional "manifest_hash")

/-- The number of source rows a manifest declares. -/
def declaredRows (host : Host) (fields : List (String × JsValue)) : ℤ :=
  countField host ((JsValue.obj fields).optional "source_row_count")

/-- `HEAD` and `GET` find an authentic manifest of the day. -/
def Finds (host : Host) (r2 : R2Config) (m : Circumstances) (dayUtc : String)
    (fields : List (String × JsValue)) : Prop :=
  hasRequiredR2Config r2 = true ∧ (∃ body, m.head = .response 200 body) ∧
    (∃ text, m.get = .response 200 (some text) ∧ host.parseJson text = some (.obj fields)) ∧
    Authentic host dayUtc fields

def Confirms (host : Host) (r2 : R2Config) (m : Circumstances) (dayUtc : String) : Prop :=
  ∃ fields, Finds host r2 m dayUtc fields

theorem Finds.unique {dayUtc : String} {fields fields' : List (String × JsValue)}
    (h : Finds host r2 m dayUtc fields) (h' : Finds host r2 m dayUtc fields') :
    fields = fields' := by
  obtain ⟨-, -, ⟨text, hget, hparse⟩, -⟩ := h
  obtain ⟨-, -, ⟨text', hget', hparse'⟩, -⟩ := h'
  rw [hget, HttpOutcome.response.injEq, Option.some.injEq] at hget'
  rw [← hget'.2, hparse, Option.some.injEq, JsValue.obj.injEq] at hparse'
  exact hparse'

theorem validateManifestHash_ok_iff {dayUtc : String} {manifest : JsValue} :
    (∃ summary, validateManifestHash host dayUtc manifest = .ok summary) ↔
      ∃ fields, manifest = .obj fields ∧ Authentic host dayUtc fields := by
  constructor
  · rintro ⟨summary, h⟩
    rcases manifest with _ | _ | _ | _ | _ | _ | fields
    iterate 6 · simp [validateManifestHash] at h
    refine ⟨fields, rfl, ?_⟩
    simp only [validateManifestHash] at h
    split at h
    · exact nomatch h
    split at h
    · exact nomatch h
    split at h
    · exact nomatch h
    · rename_i hday hne heq
      exact ⟨not_not.1 hday, hne, not_not.1 heq⟩
  · rintro ⟨fields, rfl, hday, hne, heq⟩
    simp only [validateManifestHash]
    rw [if_neg (not_not.2 hday), if_neg hne, if_neg (not_not.2 heq)]
    exact ⟨_, rfl⟩

theorem r2HeadDayManifest_ok_iff {answer : HttpOutcome} :
    r2HeadDayManifest answer = .ok () ↔ ∃ body, answer = .response 200 body := by
  constructor
  · intro h
    rcases answer with message | ⟨status, body⟩
    · exact nomatch h
    · simp only [r2HeadDayManifest] at h
      split at h
      · rename_i hstatus
        exact ⟨body, by rw [hstatus]⟩
      · split at h <;> exact nomatch h
  · rintro ⟨body, rfl⟩
    rfl

theorem r2GetManifestJson_ok_iff {answer : HttpOutcome} {manifest : JsValue} :
    r2GetManifestJson host answer = .ok manifest ↔
      ∃ text, answer = .response 200 (some text) ∧ host.parseJson text = some manifest := by
  constructor
  · intro h
    rcases answer with message | ⟨status, body⟩
    · exact nomatch h
    · simp only [r2GetManifestJson] at h
      split at h
      · rename_i hstatus
        rcases body with _ | text
        · exact nomatch h
        · dsimp only at h
          split at h
          · exact nomatch h
          · rename_i hparse
            rw [Except.ok.injEq] at h
            exact ⟨text, by rw [hstatus], by rw [hparse, h]⟩
      · split at h <;> exact nomatch h
  · rintro ⟨text, rfl, hparse⟩
    simp [r2GetManifestJson, hparse]

/-- The calls of the manifest check: the `GET` follows a `HEAD` that was answered with a 200. -/
def manifestExchanges (r2 : R2Config) (m : Circumstances) (dayUtc : String) : List Exchange :=
  if hasRequiredR2Config r2 = false then []
  else match r2HeadDayManifest m.head with
    | .error _ => [.headManifest (dayManifestKey r2 dayUtc) m.head]
    | .ok () =>
      [.headManifest (dayManifestKey r2 dayUtc) m.head, .getManifest (dayManifestKey r2 dayUtc) m.get]

theorem historyManifestExists_exchanges (dayUtc : String) :
    (historyManifestExists host r2 m.head m.get dayUtc).2 = manifestExchanges r2 m dayUtc := by
  rw [historyManifestExists, manifestExchanges]
  split
  · rfl
  · rcases r2HeadDayManifest m.head with e | _
    · rfl
    · dsimp only
      split
      · rfl
      · split <;> rfl

theorem historyManifestExists_ok_iff (dayUtc : String) :
    (∃ summary, (historyManifestExists host r2 m.head m.get dayUtc).1 = .ok summary) ↔
      Confirms host r2 m dayUtc := by
  constructor
  · rintro ⟨summary, h⟩
    rw [historyManifestExists] at h
    split at h
    · exact nomatch h
    rename_i hr2
    dsimp only at h
    split at h
    · exact nomatch h
    rename_i hhead
    split at h
    · exact nomatch h
    rename_i manifest hget
    split at h
    · exact nomatch h
    rename_i summary' hvalid
    obtain ⟨fields, rfl, hauthentic⟩ := validateManifestHash_ok_iff.1 ⟨summary', hvalid⟩
    exact ⟨fields, by simpa using hr2, r2HeadDayManifest_ok_iff.1 hhead,
      r2GetManifestJson_ok_iff.1 hget, hauthentic⟩
  · rintro ⟨fields, hr2, hhead, hget, hauthentic⟩
    obtain ⟨summary, hvalid⟩ := validateManifestHash_ok_iff.2 ⟨fields, rfl, hauthentic⟩
    refine ⟨summary, ?_⟩
    rw [historyManifestExists, if_neg (by simp [hr2])]
    simp only [r2HeadDayManifest_ok_iff.2 hhead, r2GetManifestJson_ok_iff.2 hget, hvalid]

/-- A `GET` that was made follows a `HEAD` that found the manifest. -/
theorem mem_manifestExchanges_iff {dayUtc key : String} {answer : HttpOutcome} :
    .getManifest key answer ∈ manifestExchanges r2 m dayUtc ↔
      hasRequiredR2Config r2 = true ∧ (∃ body, m.head = .response 200 body) ∧
        key = dayManifestKey r2 dayUtc ∧ answer = m.get := by
  rw [manifestExchanges, ← r2HeadDayManifest_ok_iff]
  by_cases hr2 : hasRequiredR2Config r2 = true
  · rcases r2HeadDayManifest m.head with e | _
    · simp [hr2]
    · simp [hr2]
  · simp [hr2]

theorem headManifest_mem_manifestExchanges {dayUtc key : String} {answer : HttpOutcome}
    (h : .getManifest key answer ∈ manifestExchanges r2 m dayUtc) :
    .headManifest (dayManifestKey r2 dayUtc) m.head ∈ manifestExchanges r2 m dayUtc := by
  obtain ⟨hr2, hhead, -⟩ := mem_manifestExchanges_iff.1 h
  rw [manifestExchanges, if_neg (by simp [hr2]), r2HeadDayManifest_ok_iff.2 hhead]
  exact List.mem_cons_self ..

theorem manifestExchanges_kind {dayUtc : String} {e : Exchange}
    (h : e ∈ manifestExchanges r2 m dayUtc) :
    (∃ key answer, e = .headManifest key answer) ∨ ∃ key answer, e = .getManifest key answer := by
  rw [manifestExchanges] at h
  split at h
  · exact absurd h (List.not_mem_nil)
  · split at h
    · exact Or.inl ⟨_, _, List.mem_singleton.1 h⟩
    · rcases List.mem_cons.1 h with rfl | h
      · exact Or.inl ⟨_, _, rfl⟩
      · exact Or.inr ⟨_, _, List.mem_singleton.1 h⟩

/-! ## The has-rows check -/

/-- The has-rows call fails because the function is missing. -/
def Missing (host : Host) (m : Circumstances) (dayUtc : String) : Prop :=
  ∃ message, callRpc m.dayHasRows ("observs day has rows " ++ dayUtc) = .error message ∧
    isMissingDayHasRowsFunctionError host message = true

/-- The answer of the has-rows call reads as "no rows". -/
def ReadsEmpty (host : Host) (data : JsValue) : Prop :=
  parseDayHasRowsRow host (firstRow (if data.truthy then data else .arr [])) = false

/-- The answer of the fingerprint call has no buckets. -/
def NoBuckets (data : JsValue) : Prop := data.items?.getD [] = []

/-- The two answers on which the check says that the day has no rows. -/
def ReadsNoRows (host : Host) (m : Circumstances) (dayUtc : String) : Prop :=
  (∃ data, m.dayHasRows = .data data ∧ ReadsEmpty host data) ∨
    (Missing host m dayUtc ∧ (∃ nextDay, shiftIsoDate host dayUtc 1 = some nextDay) ∧
      ∃ data, m.fingerprint = .data data ∧ NoBuckets data)

/-- The fallback is needed, and the day has no next one. -/
def Dateless (host : Host) (m : Circumstances) (dayUtc : String) : Prop :=
  Missing host m dayUtc ∧ shiftIsoDate host dayUtc 1 = none

/-- The calls of the has-rows check. -/
def checkExchanges (host : Host) (m : Circumstances) (dayUtc : String) : List Exchange :=
  (checkDayHasRows host m.dayHasRows m.fingerprint dayUtc).2

theorem callRpc_eq_ok_iff {answer : RpcOutcome} {errorLabel : String} {rows : JsValue} :
    callRpc answer errorLabel = .ok rows ↔
      ∃ data, answer = .data data ∧ (if data.truthy then data else .arr []) = rows := by
  rcases answer with data | message | message <;> simp [callRpc]

theorem Missing.not_data {dayUtc : String} (h : Missing host m dayUtc) (data : JsValue) :
    m.dayHasRows ≠ .data data := by
  obtain ⟨message, hcall, -⟩ := h
  intro hdata
  rw [hdata] at hcall
  exact nomatch hcall

theorem items_truthy (data : JsValue) :
    (if data.truthy then data else .arr []).items?.getD [] = data.items?.getD [] := by
  by_cases h : data.truthy = true
  · rw [if_pos h]
  · rw [if_neg h]
    rcases data with _ | _ | _ | _ | _ | _ | _ <;> first | rfl | exact absurd rfl h

theorem checkDayHasRows_error_iff (dayUtc : String) :
    (∃ message, (checkDayHasRows host m.dayHasRows m.fingerprint dayUtc).1 = .error message) ↔
      Dateless host m dayUtc := by
  rw [checkDayHasRows, Dateless, Missing]
  rcases callRpc m.dayHasRows ("observs day has rows " ++ dayUtc) with message | rows
  · by_cases hmissing : isMissingDayHasRowsFunctionError host message = true
    · rcases shiftIsoDate host dayUtc 1 with _ | nextDay
      · simp [hmissing]
      · dsimp only
        rw [if_neg (by simp [hmissing])]
        split <;> simp
    · rw [Bool.not_eq_true] at hmissing
      simp [hmissing]
  · simp

theorem checkDayHasRows_false_iff (dayUtc : String) :
    (∃ method, (checkDayHasRows host m.dayHasRows m.fingerprint dayUtc).1 =
        .ok (.checked false method)) ↔
      ReadsNoRows host m dayUtc := by
  rcases hcall : callRpc m.dayHasRows ("observs day has rows " ++ dayUtc) with message | rows
  · have hdata : ∀ data, m.dayHasRows ≠ .data data := by
      intro data hdata
      rw [hdata] at hcall
      exact nomatch hcall
    rw [checkDayHasRows, hcall, ReadsNoRows, Missing, hcall]
    by_cases hmissing : isMissingDayHasRowsFunctionError host message = true
    · rcases shiftIsoDate host dayUtc 1 with _ | nextDay
      · simp [hmissing, hdata]
      · dsimp only
        rw [if_neg (by simp [hmissing])]
        rcases hfingerprint : callRpc m.fingerprint
          ("observs day has rows fallback via hourly fingerprint " ++ dayUtc) with failed | buckets
        · have hno : ∀ data, m.fingerprint ≠ .data data := by
            intro data hdata
            rw [hdata] at hfingerprint
            exact nomatch hfingerprint
          simp [hdata, hno]
        · obtain ⟨data, hanswer, rfl⟩ := callRpc_eq_ok_iff.1 hfingerprint
          simp [hdata, hanswer, hmissing, NoBuckets, items_truthy]
    · rw [Bool.not_eq_true] at hmissing
      simp [hmissing, hdata]
  · obtain ⟨data, hanswer, rfl⟩ := callRpc_eq_ok_iff.1 hcall
    rw [checkDayHasRows, hcall, ReadsNoRows, Missing, hcall]
    simp [hanswer, ReadsEmpty]

theorem mem_checkExchanges_iff {dayUtc day : String} {answer : RpcOutcome} :
    .dayHasRows day answer ∈ checkExchanges host m dayUtc ↔
      day = dayUtc ∧ answer = m.dayHasRows := by
  rw [checkExchanges, checkDayHasRows]
  split
  · simp
  · split
    · simp
    · split
      · simp
      · split <;> simp

theorem fingerprint_mem_checkExchanges_iff {dayUtc windowStart windowEnd : String}
    {answer : RpcOutcome} :
    .hourlyFingerprint windowStart windowEnd answer ∈ checkExchanges host m dayUtc ↔
      Missing host m dayUtc ∧ ∃ nextDay, shiftIsoDate host dayUtc 1 = some nextDay ∧
        windowStart = dayUtc ++ "T00:00:00.000Z" ∧ windowEnd = nextDay ++ "T00:00:00.000Z" ∧
        answer = m.fingerprint := by
  rw [checkExchanges, checkDayHasRows, Missing]
  rcases callRpc m.dayHasRows ("observs day has rows " ++ dayUtc) with message | rows
  · by_cases hmissing : isMissingDayHasRowsFunctionError host message = true
    · rcases shiftIsoDate host dayUtc 1 with _ | nextDay
      · simp [hmissing]
      · dsimp only
        rw [if_neg (by simp [hmissing])]
        split <;> simp [hmissing]
    · rw [Bool.not_eq_true] at hmissing
      simp [hmissing]
  · simp

theorem checkExchanges_kind {dayUtc : String} {e : Exchange}
    (h : e ∈ checkExchanges host m dayUtc) :
    (∃ day answer, e = .dayHasRows day answer) ∨
      ∃ windowStart windowEnd answer, e = .hourlyFingerprint windowStart windowEnd answer := by
  rw [checkExchanges, checkDayHasRows] at h
  split at h
  · exact Or.inl ⟨_, _, List.mem_singleton.1 h⟩
  · split at h
    · exact Or.inl ⟨_, _, List.mem_singleton.1 h⟩
    · split at h
      · exact Or.inl ⟨_, _, List.mem_singleton.1 h⟩
      · dsimp only at h
        split at h
        all_goals
          rcases List.mem_cons.1 h with rfl | h
          · exact Or.inl ⟨_, _, rfl⟩
          · exact Or.inr ⟨_, _, _, List.mem_singleton.1 h⟩

/-! ## The whole turn -/

/-- A candidate that a run looks at: it has a name and a day, and the run is no dry run. -/
def Handled (config : Config) (c : DropCandidate) : Prop :=
  c.partitionName ≠ "" ∧ c.partitionDayUtc ≠ "" ∧ config.dropDryRun = false

/-- A day count that is deleted, or a log that is uploaded. -/
def Exchange.Quiet : Exchange → Prop
  | dayCountDelete .. => True
  | uploadLog .. => True
  | _ => False

/-- A record that adds quiet calls to the ones before it and does not fail. -/
def Closes (record : CandidateRecord) (c : DropCandidate) (exchanges : List Exchange) : Prop :=
  record.candidate = c ∧ (∃ tail, (∀ e ∈ tail, e.Quiet) ∧ record.exchanges = exchanges ++ tail) ∧
    ∀ message, record.outcome ≠ .error message

theorem closes_recordDrop {method : String} {exchanges : List Exchange} :
    Closes (recordDrop host m c method exchanges) c exchanges := by
  refine ⟨rfl, ⟨_, ?_, rfl⟩, fun message h ↦ nomatch h⟩
  intro e he
  simp only [deleteCurrentDayCountRow] at he
  split at he
  all_goals
    obtain ⟨k, -, rfl⟩ := List.mem_map.1 he
    exact trivial

theorem closes_skipDrop {exchanges : List Exchange} :
    Closes (skipDrop m c exchanges) c exchanges := by
  refine ⟨rfl, ⟨_, ?_, rfl⟩, fun message h ↦ nomatch h⟩
  intro e he
  rw [List.mem_singleton.1 he]
  exact trivial

theorem closes_skipped {reason : String} {exchanges : List Exchange} :
    Closes ⟨c, exchanges, .ok (.skipped reason)⟩ c exchanges :=
  ⟨rfl, ⟨[], by simp, by simp⟩, fun message h ↦ nomatch h⟩

/-- What happens in a turn, by the evidence that is found. -/
theorem handleCandidate_cases (h : Handled config c) :
    let record := handleCandidate host config m c
    let day := c.partitionDayUtc
    record.candidate = c ∧
    ((Confirms host config.r2 m day ∧ ∃ tail, (∀ e ∈ tail, e.Quiet) ∧
        record.exchanges = manifestExchanges config.r2 m day ++
          (dropPartition host m c.partitionName (confirmedLabel c)).2 ++ tail ∧
        ((∃ message, record.outcome = .error message) ↔
          ∃ message, (dropPartition host m c.partitionName (confirmedLabel c)).1 = .error message)) ∨
      (¬ Confirms host config.r2 m day ∧ ReadsNoRows host m day ∧ ∃ tail, (∀ e ∈ tail, e.Quiet) ∧
        record.exchanges = manifestExchanges config.r2 m day ++ checkExchanges host m day ++
          (dropPartition host m c.partitionName (emptyLabel c)).2 ++ tail ∧
        ((∃ message, record.outcome = .error message) ↔
          ∃ message, (dropPartition host m c.partitionName (emptyLabel c)).1 = .error message)) ∨
      (¬ Confirms host config.r2 m day ∧ ¬ ReadsNoRows host m day ∧ ∃ tail, (∀ e ∈ tail, e.Quiet) ∧
        record.exchanges = manifestExchanges config.r2 m day ++ checkExchanges host m day ++ tail ∧
        ((∃ message, record.outcome = .error message) ↔ Dateless host m day))) := by
  obtain ⟨hname, hday, hdry⟩ := h
  have hman := @historyManifestExists_exchanges host config.r2 m c.partitionDayUtc
  have hconfirms := @historyManifestExists_ok_iff host config.r2 m c.partitionDayUtc
  have hfalse := @checkDayHasRows_false_iff host m c.partitionDayUtc
  have herror := @checkDayHasRows_error_iff host m c.partitionDayUtc
  simp only [handleCandidate, hname, hday, hdry, or_self, if_false, Bool.false_eq_true]
  generalize historyManifestExists host config.r2 m.head m.get c.partitionDayUtc = found
    at hman hconfirms ⊢
  rcases found with ⟨e | summary, exchanges⟩
  · have hno : ¬ Confirms host config.r2 m c.partitionDayUtc := by
      intro h
      obtain ⟨_, h⟩ := hconfirms.2 h
      exact nomatch h
    obtain rfl : exchanges = _ := hman
    rw [checkExchanges]
    generalize checkDayHasRows host m.dayHasRows m.fingerprint c.partitionDayUtc = check
      at hfalse herror ⊢
    -- only an answer that reads as "no rows" opens the drop
    rcases check with ⟨message | ⟨hasRows, method⟩ | ⟨method, error⟩, checks⟩
    · have hnot : ¬ ReadsNoRows host m c.partitionDayUtc := by
        intro h
        obtain ⟨_, h⟩ := hfalse.2 h
        exact nomatch h
      refine ⟨rfl, Or.inr (Or.inr ⟨hno, hnot, [], by simp, by simp, ?_⟩)⟩
      exact iff_of_true ⟨message, rfl⟩ (herror.1 ⟨message, rfl⟩)
    · rcases hasRows with _ | _
      · have hreads := hfalse.1 ⟨method, rfl⟩
        generalize dropPartition host m c.partitionName (emptyLabel c) = drop
        rcases drop with ⟨message | rows, drops⟩
        · refine ⟨rfl, Or.inr (Or.inl ⟨hno, hreads, [], by simp, by simp, ?_⟩)⟩
          exact iff_of_true ⟨message, rfl⟩ ⟨message, rfl⟩
        · have hcloses : Closes (if didDrop rows = true then
              recordDrop host m c "no_manifest_day_has_rows_false"
                (manifestExchanges config.r2 m c.partitionDayUtc ++ checks ++ drops)
              else skipDrop m c (manifestExchanges config.r2 m c.partitionDayUtc ++ checks ++ drops))
              c (manifestExchanges config.r2 m c.partitionDayUtc ++ checks ++ drops) := by
            split
            · exact closes_recordDrop
            · exact closes_skipDrop
          obtain ⟨hc, ⟨tail, hquiet, htail⟩, hok⟩ := hcloses
          refine ⟨hc, Or.inr (Or.inl ⟨hno, hreads, tail, hquiet, htail, iff_of_false ?_ ?_⟩)⟩
          · rintro ⟨message, h⟩
            exact hok message h
          · rintro ⟨message, h⟩
            exact nomatch h
      · have hnot : ¬ ReadsNoRows host m c.partitionDayUtc := by
          intro h
          obtain ⟨_, h⟩ := hfalse.2 h
          exact nomatch h
        obtain ⟨hc, ⟨tail, hquiet, htail⟩, hok⟩ := @closes_skipDrop m c
          (manifestExchanges config.r2 m c.partitionDayUtc ++ checks)
        refine ⟨hc, Or.inr (Or.inr ⟨hno, hnot, tail, hquiet, htail, iff_of_false ?_ ?_⟩)⟩
        · rintro ⟨message, h⟩
          exact hok message h
        · intro h
          obtain ⟨_, h⟩ := herror.2 h
          exact nomatch h
    · have hnot : ¬ ReadsNoRows host m c.partitionDayUtc := by
        intro h
        obtain ⟨_, h⟩ := hfalse.2 h
        exact nomatch h
      obtain ⟨hc, ⟨tail, hquiet, htail⟩, hok⟩ := @closes_skipDrop m c
        (manifestExchanges config.r2 m c.partitionDayUtc ++ checks)
      refine ⟨hc, Or.inr (Or.inr ⟨hno, hnot, tail, hquiet, htail, iff_of_false ?_ ?_⟩)⟩
      · rintro ⟨message, h⟩
        exact hok message h
      · intro h
        obtain ⟨_, h⟩ := herror.2 h
        exact nomatch h
  · obtain rfl : exchanges = _ := hman
    have hfound := hconfirms.1 ⟨summary, rfl⟩
    generalize dropPartition host m c.partitionName (confirmedLabel c) = drop
    rcases drop with ⟨message | rows, drops⟩
    · refine ⟨rfl, Or.inl ⟨hfound, [], by simp, by simp, ?_⟩⟩
      exact iff_of_true ⟨message, rfl⟩ ⟨message, rfl⟩
    · have hcloses : Closes (if didDrop rows = true then
          recordDrop host m c "head_get_validate_manifest_hash"
            (manifestExchanges config.r2 m c.partitionDayUtc ++ drops)
          else ⟨c, manifestExchanges config.r2 m c.partitionDayUtc ++ drops,
            .ok (.skipped "drop_rpc_returned_false")⟩)
          c (manifestExchanges config.r2 m c.partitionDayUtc ++ drops) := by
        split
        · exact closes_recordDrop
        · exact closes_skipped
      obtain ⟨hc, ⟨tail, hquiet, htail⟩, hok⟩ := hcloses
      refine ⟨hc, Or.inl ⟨hfound, tail, hquiet, htail, iff_of_false ?_ ?_⟩⟩
      · rintro ⟨message, h⟩
        exact hok message h
      · rintro ⟨message, h⟩
        exact nomatch h

end UkAqOps.Maintenance

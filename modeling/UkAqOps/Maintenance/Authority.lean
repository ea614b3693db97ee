import UkAqOps.Maintenance.Turns

/-!
# What a partition is dropped on

A drop is `Covered` by the calls of a run when they show an authentic manifest of the day that
declares as many source rows as the partition holds, or a well-formed answer that the day has no
rows. A failure stays local when the candidate it happened to is not dropped and the later ones are
still looked at.

The code compares no row counts, reads many malformed answers as "no rows" and lets a drop call that
fails end the whole run. The main theorem says on which answers the two properties hold.
-/

namespace UkAqOps.Maintenance

variable {host : Host} {config : Config} {r2 : R2Config} {m : Circumstances} {c : DropCandidate}

/-! ## The two properties -/

/-- One row that says, in one of the spellings the code knows, that there are no rows. -/
def SaysNoRows (host : Host) (data : JsValue) : Prop :=
  ∃ fields, data = .arr [.obj fields] ∧
    match (JsValue.obj fields).optional "has_rows" with
    | .bool b => b = false
    | .str s => host.toLowerCase (trimText s) ∈ ["false", "f", "0", "no", "n"]
    | .num t => host.number (.num t) = some 0
    | _ => False

/-- The evidence for a drop among the calls of a run. -/
def Covered (host : Host) (r2 : R2Config) (exchanges : List Exchange) (dayUtc : String)
    (rows : ℕ) : Prop :=
  (∃ body text fields,
    .headManifest (dayManifestKey r2 dayUtc) (.response 200 body) ∈ exchanges ∧
    .getManifest (dayManifestKey r2 dayUtc) (.response 200 (some text)) ∈ exchanges ∧
    host.parseJson text = some (.obj fields) ∧ Authentic host dayUtc fields ∧
    (rows : ℤ) ≤ declaredRows host fields) ∨
  (∃ data, .dayHasRows dayUtc (.data data) ∈ exchanges ∧ SaysNoRows host data) ∨
  ∃ nextDay, shiftIsoDate host dayUtc 1 = some nextDay ∧
    .hourlyFingerprint (dayUtc ++ "T00:00:00.000Z") (nextDay ++ "T00:00:00.000Z")
      (.data (.arr [])) ∈ exchanges

/-- Every drop call is for the partition of the candidate, and the calls made until then cover it. -/
def DropsAreCovered (host : Host) (config : Config) (inputs : RunInputs)
    (run : MaintenanceRun) : Prop :=
  ∀ i record, run.records[i]? = some record → ∀ name answer,
    .dropPartition name answer ∈ record.exchanges →
      name = record.candidate.partitionName ∧
        Covered host config.r2 ((run.records.take (i + 1)).flatMap CandidateRecord.exchanges)
          record.candidate.partitionDayUtc (inputs.meets i).partitionRows

/-- A turn that fails has dropped nothing, and every candidate has its turn. -/
def FailuresStayLocal (run : MaintenanceRun) : Prop :=
  (∀ record ∈ run.records, (∃ message, record.outcome = .error message) →
    ∀ name data, .dropPartition name (.data data) ∉ record.exchanges) ∧
  run.records.map CandidateRecord.candidate = run.dropCandidates

/-! ## The condition on the answers -/

/-- The answers of a turn show that the day is safe to drop with that many rows. -/
def Vouches (host : Host) (r2 : R2Config) (m : Circumstances) (dayUtc : String) (rows : ℕ) : Prop :=
  (∃ fields, Finds host r2 m dayUtc fields ∧ (rows : ℤ) ≤ declaredRows host fields) ∨
    (¬ Confirms host r2 m dayUtc ∧
      ((∃ data, m.dayHasRows = .data data ∧ SaysNoRows host data) ∨
        (Missing host m dayUtc ∧ (∃ nextDay, shiftIsoDate host dayUtc 1 = some nextDay) ∧
          m.fingerprint = .data (.arr []))))

/-- The three answers that open the drop and should not: a manifest of fewer rows than the partition
holds, a malformed has-rows answer that reads as "no rows", and a malformed fingerprint. -/
def Misread (host : Host) (r2 : R2Config) (m : Circumstances) (dayUtc : String) : Prop :=
  (∃ fields, Finds host r2 m dayUtc fields ∧ declaredRows host fields < m.partitionRows) ∨
    (¬ Confirms host r2 m dayUtc ∧
      ((∃ data, m.dayHasRows = .data data ∧ ReadsEmpty host data ∧ ¬ SaysNoRows host data) ∨
        (Missing host m dayUtc ∧ (∃ nextDay, shiftIsoDate host dayUtc 1 = some nextDay) ∧
          ∃ data, m.fingerprint = .data data ∧ NoBuckets data ∧ data ≠ .arr [])))

/-- The answers on which a turn throws: the drop call that the evidence opens is refused, or the
day of a fallback has no next one. -/
def Breaks (host : Host) (config : Config) (m : Circumstances) (c : DropCandidate) : Prop :=
  (Confirms host config.r2 m c.partitionDayUtc ∧
      Refused host m.drop (confirmedLabel c) defaultRpcRetryAttempts) ∨
    (¬ Confirms host config.r2 m c.partitionDayUtc ∧ ReadsNoRows host m c.partitionDayUtc ∧
      Refused host m.drop (emptyLabel c) defaultRpcRetryAttempts) ∨
    (¬ Confirms host config.r2 m c.partitionDayUtc ∧ Dateless host m c.partitionDayUtc)

/-- What is misread for a candidate is vouched for by the answers of an earlier one of its day, and
no turn but that of the last candidate throws. -/
def WellAnswered (host : Host) (config : Config) (inputs : RunInputs) : Prop :=
  ∀ prepared, prepare host inputs = .ok prepared →
    ∀ i c, prepared.dropCandidates[i]? = some c → Handled config c →
      (Misread host config.r2 (inputs.meets i) c.partitionDayUtc →
        ∃ j < i, ∃ c', prepared.dropCandidates[j]? = some c' ∧ Handled config c' ∧
          c'.partitionDayUtc = c.partitionDayUtc ∧
          Vouches host config.r2 (inputs.meets j) c.partitionDayUtc
            (inputs.meets i).partitionRows) ∧
      (i + 1 < prepared.dropCandidates.length → ¬ Breaks host config (inputs.meets i) c)

/-! ## One turn -/

/-- Without the quiet calls, the calls of a turn are those of its checks and of its drop. -/
theorem mem_exchanges_iff {e : Exchange} (he : ¬ e.Quiet) :
    e ∈ (handleCandidate host config m c).exchanges ↔ Handled config c ∧
      (e ∈ manifestExchanges config.r2 m c.partitionDayUtc ∨
        (¬ Confirms host config.r2 m c.partitionDayUtc ∧
          e ∈ checkExchanges host m c.partitionDayUtc) ∨
        (Confirms host config.r2 m c.partitionDayUtc ∧
          e ∈ (dropPartition host m c.partitionName (confirmedLabel c)).2) ∨
        (¬ Confirms host config.r2 m c.partitionDayUtc ∧
          ReadsNoRows host m c.partitionDayUtc ∧
          e ∈ (dropPartition host m c.partitionName (emptyLabel c)).2)) := by
  by_cases hc : Handled config c
  · obtain ⟨-, hcases⟩ := @handleCandidate_cases host config m c hc
    have hnot : ∀ tail : List Exchange, (∀ e ∈ tail, e.Quiet) → e ∉ tail :=
      fun tail hquiet hmem ↦ he (hquiet e hmem)
    rcases hcases with ⟨hyes, tail, hquiet, hex, -⟩ | ⟨hno, hreads, tail, hquiet, hex, -⟩ |
      ⟨hno, hreads, tail, hquiet, hex, -⟩
    · simp only [hex, List.mem_append, hnot tail hquiet, hc, hyes, not_true, false_and, true_and,
        or_false, false_or]
    · simp only [hex, List.mem_append, hnot tail hquiet, hc, hno, hreads, not_false_iff, false_and,
        true_and, or_false, false_or, or_assoc]
    · simp only [hex, List.mem_append, hnot tail hquiet, hc, hno, hreads, not_false_iff, false_and,
        and_false, true_and, or_false]
  · have hnil : (handleCandidate host config m c).exchanges = [] := by
      rw [handleCandidate]
      split
      · rfl
      · rename_i hnamed
        rw [not_or] at hnamed
        split
        · rfl
        · rename_i hdry
          exact absurd ⟨hnamed.1, hnamed.2, by simpa using hdry⟩ hc
    simp [hnil, hc]

theorem candidate_handleCandidate : (handleCandidate host config m c).candidate = c := by
  by_cases hc : Handled config c
  · exact (@handleCandidate_cases host config m c hc).1
  · rw [handleCandidate]
    split
    · rfl
    · rename_i hnamed
      rw [not_or] at hnamed
      split
      · rfl
      · rename_i hdry
        exact absurd ⟨hnamed.1, hnamed.2, by simpa using hdry⟩ hc

/-- Every call of `dropPartition` is a drop call. -/
theorem mem_dropPartition_iff {partitionName errorLabel : String} {e : Exchange} :
    e ∈ (dropPartition host m partitionName errorLabel).2 ↔
      ∃ k < (callRpcWithRetry host m.drop errorLabel defaultRpcRetryAttempts 0).2,
        .dropPartition partitionName (m.drop k) = e := by
  simp [dropPartition]

theorem getManifest_mem_iff {key : String} {answer : HttpOutcome} :
    .getManifest key answer ∈ (handleCandidate host config m c).exchanges ↔ Handled config c ∧
      hasRequiredR2Config config.r2 = true ∧ (∃ body, m.head = .response 200 body) ∧
        key = dayManifestKey config.r2 c.partitionDayUtc ∧ answer = m.get := by
  rw [mem_exchanges_iff (e := .getManifest key answer) id, mem_manifestExchanges_iff]
  have hcheck : .getManifest key answer ∉ checkExchanges host m c.partitionDayUtc := by
    intro h
    rcases checkExchanges_kind h with ⟨_, _, h⟩ | ⟨_, _, _, h⟩ <;> exact nomatch h
  simp [hcheck, mem_dropPartition_iff]

theorem headManifest_mem {dayUtc : String} {fields : List (String × JsValue)}
    (hc : Handled config c) (h : Finds host config.r2 m dayUtc fields)
    (hday : dayUtc = c.partitionDayUtc) :
    .headManifest (dayManifestKey config.r2 dayUtc) m.head ∈
      (handleCandidate host config m c).exchanges := by
  subst hday
  refine (mem_exchanges_iff (e := .headManifest _ _) id).2 ⟨hc, Or.inl ?_⟩
  exact headManifest_mem_manifestExchanges
    (mem_manifestExchanges_iff.2 ⟨h.1, h.2.1, rfl, rfl⟩)

theorem dayHasRows_mem_iff {day : String} {answer : RpcOutcome} :
    .dayHasRows day answer ∈ (handleCandidate host config m c).exchanges ↔ Handled config c ∧
      ¬ Confirms host config.r2 m c.partitionDayUtc ∧ day = c.partitionDayUtc ∧
        answer = m.dayHasRows := by
  rw [mem_exchanges_iff (e := .dayHasRows day answer) id, mem_checkExchanges_iff]
  have hmanifest : .dayHasRows day answer ∉ manifestExchanges config.r2 m c.partitionDayUtc := by
    intro h
    rcases manifestExchanges_kind h with ⟨_, _, h⟩ | ⟨_, _, h⟩ <;> exact nomatch h
  simp [hmanifest, mem_dropPartition_iff]

theorem hourlyFingerprint_mem_iff {windowStart windowEnd : String} {answer : RpcOutcome} :
    .hourlyFingerprint windowStart windowEnd answer ∈
        (handleCandidate host config m c).exchanges ↔ Handled config c ∧
      ¬ Confirms host config.r2 m c.partitionDayUtc ∧ Missing host m c.partitionDayUtc ∧
        ∃ nextDay, shiftIsoDate host c.partitionDayUtc 1 = some nextDay ∧
          windowStart = c.partitionDayUtc ++ "T00:00:00.000Z" ∧
          windowEnd = nextDay ++ "T00:00:00.000Z" ∧ answer = m.fingerprint := by
  rw [mem_exchanges_iff (e := .hourlyFingerprint windowStart windowEnd answer) id,
    fingerprint_mem_checkExchanges_iff]
  have hmanifest : .hourlyFingerprint windowStart windowEnd answer ∉
      manifestExchanges config.r2 m c.partitionDayUtc := by
    intro h
    rcases manifestExchanges_kind h with ⟨_, _, h⟩ | ⟨_, _, h⟩ <;> exact nomatch h
  simp [hmanifest, mem_dropPartition_iff]

/-- The drop is opened by a confirmed manifest or by answers that read as "no rows". -/
def Opens (host : Host) (r2 : R2Config) (m : Circumstances) (dayUtc : String) : Prop :=
  Confirms host r2 m dayUtc ∨ (¬ Confirms host r2 m dayUtc ∧ ReadsNoRows host m dayUtc)

theorem dropPartition_mem_iff {name : String} {answer : RpcOutcome} :
    .dropPartition name answer ∈ (handleCandidate host config m c).exchanges ↔
      Handled config c ∧
        ((Confirms host config.r2 m c.partitionDayUtc ∧ .dropPartition name answer ∈
            (dropPartition host m c.partitionName (confirmedLabel c)).2) ∨
          (¬ Confirms host config.r2 m c.partitionDayUtc ∧
            ReadsNoRows host m c.partitionDayUtc ∧ .dropPartition name answer ∈
              (dropPartition host m c.partitionName (emptyLabel c)).2)) := by
  rw [mem_exchanges_iff (e := .dropPartition name answer) id]
  have hmanifest : .dropPartition name answer ∉
      manifestExchanges config.r2 m c.partitionDayUtc := by
    intro h
    rcases manifestExchanges_kind h with ⟨_, _, h⟩ | ⟨_, _, h⟩ <;> exact nomatch h
  have hcheck : .dropPartition name answer ∉ checkExchanges host m c.partitionDayUtc := by
    intro h
    rcases checkExchanges_kind h with ⟨_, _, h⟩ | ⟨_, _, _, h⟩ <;> exact nomatch h
  simp only [hmanifest, hcheck, and_false, false_or]

/-- A drop call is for the candidate's own partition, and the drop was opened. -/
theorem opens_of_drop {name : String} {answer : RpcOutcome}
    (h : .dropPartition name answer ∈ (handleCandidate host config m c).exchanges) :
    Handled config c ∧ name = c.partitionName ∧ Opens host config.r2 m c.partitionDayUtc := by
  obtain ⟨hc, ⟨hyes, h⟩ | ⟨hno, hreads, h⟩⟩ := dropPartition_mem_iff.1 h
  · obtain ⟨k, -, heq⟩ := mem_dropPartition_iff.1 h
    rw [Exchange.dropPartition.injEq] at heq
    exact ⟨hc, heq.1.symm, Or.inl hyes⟩
  · obtain ⟨k, -, heq⟩ := mem_dropPartition_iff.1 h
    rw [Exchange.dropPartition.injEq] at heq
    exact ⟨hc, heq.1.symm, Or.inr ⟨hno, hreads⟩⟩

/-- Where the drop is opened, it is called. -/
theorem drop_of_opens (hc : Handled config c) (h : Opens host config.r2 m c.partitionDayUtc) :
    ∃ answer, .dropPartition c.partitionName answer ∈
      (handleCandidate host config m c).exchanges := by
  have hcalls : ∀ errorLabel : String,
      .dropPartition c.partitionName (m.drop 0) ∈
        (dropPartition host m c.partitionName errorLabel).2 :=
    fun errorLabel ↦ mem_dropPartition_iff.2 ⟨0, lt_callRpcWithRetry 2 0, rfl⟩
  refine ⟨m.drop 0, dropPartition_mem_iff.2 ⟨hc, ?_⟩⟩
  rcases h with hyes | ⟨hno, hreads⟩
  · exact Or.inl ⟨hyes, hcalls _⟩
  · exact Or.inr ⟨hno, hreads, hcalls _⟩

theorem dropPartition_error_iff {partitionName errorLabel : String} :
    (∃ message, (dropPartition host m partitionName errorLabel).1 = .error message) ↔
      Refused host m.drop errorLabel defaultRpcRetryAttempts := by
  have h := @callRpcWithRetry_error_iff host errorLabel defaultRpcRetryAttempts m.drop 0
  simp only [Nat.zero_add] at h
  exact h

/-- A turn throws exactly on the answers that break it. -/
theorem outcome_error_iff :
    (∃ message, (handleCandidate host config m c).outcome = .error message) ↔
      Handled config c ∧ Breaks host config m c := by
  by_cases hc : Handled config c
  · obtain ⟨-, hcases⟩ := @handleCandidate_cases host config m c hc
    have hdateless : Dateless host m c.partitionDayUtc → ¬ ReadsNoRows host m c.partitionDayUtc := by
      rintro ⟨hmissing, hnone⟩ (⟨data, hdata, -⟩ | ⟨-, ⟨nextDay, hnext⟩, -⟩)
      · exact hmissing.not_data data hdata
      · rw [hnone] at hnext
        rcases hnext with ⟨⟩
    rcases hcases with ⟨hyes, -, -, -, herror⟩ | ⟨hno, hreads, -, -, -, herror⟩ |
      ⟨hno, hreads, -, -, -, herror⟩
    · rw [herror, dropPartition_error_iff]
      simp [Breaks, hc, hyes]
    · rw [herror, dropPartition_error_iff]
      have hnot : ¬ Dateless host m c.partitionDayUtc := fun h ↦ hdateless h hreads
      simp [Breaks, hc, hno, hreads, hnot]
    · rw [herror]
      simp [Breaks, hc, hno, hreads]
  · have hok : ∀ message, (handleCandidate host config m c).outcome ≠ .error message := by
      intro message h
      rw [handleCandidate] at h
      split at h
      · rcases h with ⟨⟩
      · rename_i hnamed
        rw [not_or] at hnamed
        split at h
        · rcases h with ⟨⟩
        · rename_i hdry
          exact hc ⟨hnamed.1, hnamed.2, by simpa using hdry⟩
    exact iff_of_false (not_exists.mpr hok) fun h ↦ hc h.1

/-- A turn that throws has no drop call that was answered with data. -/
theorem no_data_of_error {name : String} {data : JsValue}
    (h : ∃ message, (handleCandidate host config m c).outcome = .error message) :
    .dropPartition name (.data data) ∉ (handleCandidate host config m c).exchanges := by
  have hcalls : ∀ errorLabel : String,
      Refused host m.drop errorLabel defaultRpcRetryAttempts →
      .dropPartition name (.data data) ∉
        (dropPartition host m c.partitionName errorLabel).2 := by
    intro errorLabel hrefused hmem
    obtain ⟨k, hk, heq⟩ := mem_dropPartition_iff.1 hmem
    rw [Exchange.dropPartition.injEq] at heq
    obtain ⟨message, hcall⟩ := error_of_lt_callRpcWithRetry defaultRpcRetryAttempts m.drop 0 k
      (Nat.zero_le k) hk ((@dropPartition_error_iff host m c.partitionName errorLabel).2 hrefused)
    rw [heq.2] at hcall
    exact nomatch hcall
  obtain ⟨-, hbreaks⟩ := outcome_error_iff.1 h
  rw [dropPartition_mem_iff]
  rintro ⟨-, ⟨hyes, hmem⟩ | ⟨hno, hreads, hmem⟩⟩
  · rcases hbreaks with ⟨-, hrefused⟩ | ⟨hno, -⟩ | ⟨hno, -⟩
    · exact hcalls _ hrefused hmem
    · exact hno hyes
    · exact hno hyes
  · rcases hbreaks with ⟨hyes, -⟩ | ⟨-, -, hrefused⟩ | ⟨-, hmissing, hnone⟩
    · exact hno hyes
    · exact hcalls _ hrefused hmem
    · rcases hreads with ⟨data, hdata, -⟩ | ⟨-, ⟨nextDay, hnext⟩, -⟩
      · exact hmissing.not_data data hdata
      · rw [hnone] at hnext
        exact nomatch hnext

/-! ## Evidence -/

/-- The drop is opened without good evidence exactly when the answers are misread. -/
theorem misread_iff {dayUtc : String} :
    Misread host r2 m dayUtc ↔
      Opens host r2 m dayUtc ∧ ¬ Vouches host r2 m dayUtc m.partitionRows := by
  constructor
  · rintro (⟨fields, hfinds, hless⟩ | ⟨hno, ⟨data, hdata, hempty, hsaid⟩ |
      ⟨hmissing, hnext, data, hdata, hbuckets, hne⟩⟩)
    · refine ⟨Or.inl ⟨fields, hfinds⟩, ?_⟩
      rintro (⟨fields', hfinds', hle⟩ | ⟨hno, -⟩)
      · rw [hfinds'.unique hfinds] at hle
        omega
      · exact hno ⟨fields, hfinds⟩
    · refine ⟨Or.inr ⟨hno, Or.inl ⟨data, hdata, hempty⟩⟩, ?_⟩
      rintro (⟨fields, hfinds, -⟩ | ⟨-, ⟨data', hdata', hsaid'⟩ | ⟨hmissing, -⟩⟩)
      · exact hno ⟨fields, hfinds⟩
      · rw [hdata, RpcOutcome.data.injEq] at hdata'
        exact hsaid (hdata' ▸ hsaid')
      · exact hmissing.not_data data hdata
    · refine ⟨Or.inr ⟨hno, Or.inr ⟨hmissing, hnext, data, hdata, hbuckets⟩⟩, ?_⟩
      rintro (⟨fields, hfinds, -⟩ | ⟨-, ⟨data', hdata', -⟩ | ⟨-, -, hnil⟩⟩)
      · exact hno ⟨fields, hfinds⟩
      · exact hmissing.not_data data' hdata'
      · rw [hdata, RpcOutcome.data.injEq] at hnil
        exact hne hnil
  · rintro ⟨⟨fields, hfinds⟩ | ⟨hno, ⟨data, hdata, hempty⟩ |
      ⟨hmissing, hnext, data, hdata, hbuckets⟩⟩, hvouches⟩
    · refine Or.inl ⟨fields, hfinds, ?_⟩
      by_contra hle
      exact hvouches (Or.inl ⟨fields, hfinds, not_lt.1 hle⟩)
    · refine Or.inr ⟨hno, Or.inl ⟨data, hdata, hempty, ?_⟩⟩
      intro hsaid
      exact hvouches (Or.inr ⟨hno, Or.inl ⟨data, hdata, hsaid⟩⟩)
    · refine Or.inr ⟨hno, Or.inr ⟨hmissing, hnext, data, hdata, hbuckets, ?_⟩⟩
      rintro rfl
      exact hvouches (Or.inr ⟨hno, Or.inr ⟨hmissing, hnext, hdata⟩⟩)

theorem dayManifestKey_injective {day day' : String}
    (h : dayManifestKey r2 day = dayManifestKey r2 day') : day = day' := by
  have hlist := congrArg String.toList h
  simp only [dayManifestKey, String.toList_append, List.append_cancel_right_eq,
    List.append_cancel_left_eq] at hlist
  exact String.toList_injective hlist

theorem append_time_injective {day day' time : String} (h : day ++ time = day' ++ time) :
    day = day' := by
  have hlist := congrArg String.toList h
  rw [String.toList_append, String.toList_append, List.append_cancel_right_eq] at hlist
  exact String.toList_injective hlist

/-- The calls of some turns cover a day exactly when the answers of one of them vouch for it. -/
theorem covered_iff {turns : List (Circumstances × DropCandidate)} {dayUtc : String} {rows : ℕ} :
    Covered host config.r2
        (turns.flatMap fun t ↦ (handleCandidate host config t.1 t.2).exchanges) dayUtc rows ↔
      ∃ t ∈ turns, Handled config t.2 ∧ t.2.partitionDayUtc = dayUtc ∧
        Vouches host config.r2 t.1 dayUtc rows := by
  constructor
  · rintro (⟨body, text, fields, -, hget, hparse, hauthentic, hle⟩ | ⟨data, hmem, hsaid⟩ |
      ⟨nextDay, hnext, hmem⟩)
    · obtain ⟨t, ht, hmem⟩ := List.mem_flatMap.1 hget
      obtain ⟨hc, hr2, hhead, hkey, hanswer⟩ := getManifest_mem_iff.1 hmem
      exact ⟨t, ht, hc, (dayManifestKey_injective hkey).symm, Or.inl ⟨fields,
        ⟨hr2, hhead, ⟨text, hanswer.symm, hparse⟩, hauthentic⟩, hle⟩⟩
    · obtain ⟨t, ht, hmem⟩ := List.mem_flatMap.1 hmem
      obtain ⟨hc, hno, rfl, hanswer⟩ := dayHasRows_mem_iff.1 hmem
      exact ⟨t, ht, hc, rfl, Or.inr ⟨hno, Or.inl ⟨data, hanswer.symm, hsaid⟩⟩⟩
    · obtain ⟨t, ht, hmem⟩ := List.mem_flatMap.1 hmem
      obtain ⟨hc, hno, hmissing, nextDay', hnext', hstart, -, hanswer⟩ :=
        hourlyFingerprint_mem_iff.1 hmem
      obtain rfl := append_time_injective hstart
      exact ⟨t, ht, hc, rfl, Or.inr ⟨hno, Or.inr ⟨hmissing, ⟨nextDay, hnext⟩, hanswer.symm⟩⟩⟩
  · rintro ⟨t, ht, hc, rfl, ⟨fields, hfinds, hle⟩ | ⟨hno, ⟨data, hdata, hsaid⟩ |
      ⟨hmissing, ⟨nextDay, hnext⟩, hnil⟩⟩⟩
    · have hhead := headManifest_mem hc hfinds rfl
      obtain ⟨hr2, ⟨body, hbody⟩, ⟨text, hget, hparse⟩, hauthentic⟩ := hfinds
      rw [hbody] at hhead
      exact Or.inl ⟨body, text, fields, List.mem_flatMap.2 ⟨t, ht, hhead⟩,
        List.mem_flatMap.2 ⟨t, ht, getManifest_mem_iff.2 ⟨hc, hr2, ⟨body, hbody⟩, rfl, hget.symm⟩⟩,
        hparse, hauthentic, hle⟩
    · exact Or.inr (Or.inl ⟨data, List.mem_flatMap.2 ⟨t, ht,
        dayHasRows_mem_iff.2 ⟨hc, hno, rfl, hdata.symm⟩⟩, hsaid⟩)
    · exact Or.inr (Or.inr ⟨nextDay, hnext, List.mem_flatMap.2 ⟨t, ht,
        hourlyFingerprint_mem_iff.2 ⟨hc, hno, hmissing, nextDay, hnext, rfl, rfl, hnil.symm⟩⟩⟩)

/-! ## The loop -/

/-- The turns the candidates would all have, by their positions. -/
def turnsFrom (meets : ℕ → Circumstances) :
    (position : ℕ) → List DropCandidate → List (Circumstances × DropCandidate)
  | _, [] => []
  | position, candidate :: candidates =>
    (meets position, candidate) :: turnsFrom meets (position + 1) candidates

theorem getElem?_turnsFrom {meets : ℕ → Circumstances} (cs : List DropCandidate) :
    ∀ position i : ℕ, (turnsFrom meets position cs)[i]? =
      cs[i]?.map fun c ↦ (meets (position + i), c) := by
  induction cs with
  | nil =>
    intro position i
    rfl
  | cons c cs ih =>
    intro position i
    rcases i with _ | i
    · rfl
    · rw [turnsFrom, List.getElem?_cons_succ, List.getElem?_cons_succ, ih,
        show position + 1 + i = position + (i + 1) from by omega]

/-- The loop takes the turns in order, up to and including the first one that throws. -/
theorem candidateLoop_records {meets : ℕ → Circumstances} (cs : List DropCandidate) :
    ∀ position : ℕ, ∃ n, (candidateLoop host config meets position cs).1 =
        ((turnsFrom meets position cs).take n).map
          (fun t ↦ handleCandidate host config t.1 t.2) ∧ n ≤ cs.length ∧
      (n = cs.length ↔ ∀ i c, cs[i]? = some c → i + 1 < cs.length →
        ¬ ∃ message, (handleCandidate host config (meets (position + i)) c).outcome =
          .error message) := by
  induction cs with
  | nil =>
    intro position
    exact ⟨0, rfl, le_refl _, by simp⟩
  | cons c cs ih =>
    intro position
    rw [candidateLoop]
    dsimp only
    rcases houtcome : (handleCandidate host config (meets position) c).outcome with message | handling
    · refine ⟨1, rfl, by simp, ?_⟩
      constructor
      · intro hlength i c' _ hi
        rw [List.length_cons] at hlength hi
        omega
      · intro hall
        by_contra hne
        rw [List.length_cons] at hne
        exact hall 0 c rfl (by rw [List.length_cons]; omega) ⟨message, houtcome⟩
    · obtain ⟨n, hrecords, hn, hiff⟩ := ih (position + 1)
      refine ⟨n + 1, ?_, by simpa using hn, ?_⟩
      · dsimp only
        rw [hrecords]
        rfl
      · rw [List.length_cons, Nat.add_right_cancel_iff, hiff]
        constructor
        · intro hall i c' hc' hi
          rcases i with _ | i
          · rw [List.getElem?_cons_zero, Option.some.injEq] at hc'
            subst hc'
            rintro ⟨message, h⟩
            rw [Nat.add_zero, houtcome] at h
            exact nomatch h
          · rw [← show position + 1 + i = position + (i + 1) from by omega]
            exact hall i c' hc' (by omega)
        · intro hall i c' hc' hi
          rw [show position + 1 + i = position + (i + 1) from by omega]
          exact hall (i + 1) c' hc' (by omega)

theorem getElem?_take_turnsFrom_iff {meets : ℕ → Circumstances} {cs : List DropCandidate}
    {k j : ℕ} {t : Circumstances × DropCandidate} :
    ((turnsFrom meets 0 cs).take k)[j]? = some t ↔
      j < k ∧ ∃ c, cs[j]? = some c ∧ t = (meets j, c) := by
  rw [List.getElem?_take, getElem?_turnsFrom, Nat.zero_add]
  by_cases hj : j < k
  · rw [if_pos hj, Option.map_eq_some_iff]
    constructor
    · rintro ⟨c, hc, rfl⟩
      exact ⟨hj, c, hc, rfl⟩
    · rintro ⟨-, c, hc, rfl⟩
      exact ⟨c, hc, rfl⟩
  · simp [hj]

theorem mem_take_turnsFrom_iff {meets : ℕ → Circumstances} {cs : List DropCandidate} {k : ℕ}
    {t : Circumstances × DropCandidate} :
    t ∈ (turnsFrom meets 0 cs).take k ↔ ∃ j < k, ∃ c, cs[j]? = some c ∧ t = (meets j, c) := by
  simp only [List.mem_iff_getElem?, getElem?_take_turnsFrom_iff]

theorem map_candidate_turnsFrom {meets : ℕ → Circumstances} (cs : List DropCandidate) :
    ∀ position n : ℕ, (((turnsFrom meets position cs).take n).map
      fun t ↦ handleCandidate host config t.1 t.2).map CandidateRecord.candidate = cs.take n := by
  induction cs with
  | nil =>
    intro position n
    simp [turnsFrom]
  | cons c cs ih =>
    intro position n
    rcases n with _ | n
    · rfl
    · rw [turnsFrom, List.take_succ_cons, List.take_succ_cons, List.map_cons, List.map_cons, ih,
        candidate_handleCandidate]

/-! ## The run -/

theorem runObservsPartitionMaintenance_eq {inputs : RunInputs} {prepared : Prepared}
    (h : prepare host inputs = .ok prepared) :
    (runObservsPartitionMaintenance host config inputs).dropCandidates = prepared.dropCandidates ∧
      (runObservsPartitionMaintenance host config inputs).records =
        (candidateLoop host config inputs.meets 0 prepared.dropCandidates).1 := by
  simp only [runObservsPartitionMaintenance, h]
  generalize candidateLoop host config inputs.meets 0 prepared.dropCandidates = loop
  rcases loop with ⟨records, _ | _⟩
  · exact ⟨rfl, rfl⟩
  · exact ⟨rfl, rfl⟩

/-- The turns of a run are those of the first candidates, and of all of them exactly when no turn
but the last one throws. -/
theorem exists_turns {inputs : RunInputs} {prepared : Prepared}
    (h : prepare host inputs = .ok prepared) :
    ∃ n, (runObservsPartitionMaintenance host config inputs).records =
        ((turnsFrom inputs.meets 0 prepared.dropCandidates).take n).map
          (fun t ↦ handleCandidate host config t.1 t.2) ∧
      ((runObservsPartitionMaintenance host config inputs).records.map CandidateRecord.candidate =
          prepared.dropCandidates ↔ n = prepared.dropCandidates.length) ∧
      (n = prepared.dropCandidates.length ↔ ∀ i c, prepared.dropCandidates[i]? = some c →
        i + 1 < prepared.dropCandidates.length → ¬ (Handled config c ∧
          Breaks host config (inputs.meets i) c)) := by
  obtain ⟨n, hrecords, hn, hiff⟩ :=
    @candidateLoop_records host config inputs.meets prepared.dropCandidates 0
  rw [← (@runObservsPartitionMaintenance_eq host config inputs prepared h).2] at hrecords
  refine ⟨n, hrecords, ?_, ?_⟩
  · rw [hrecords, map_candidate_turnsFrom, List.take_eq_self_iff]
    omega
  · simp only [Nat.zero_add, outcome_error_iff] at hiff
    exact hiff

/-- Every drop is covered and every failure stays local exactly when the run is well answered. -/
theorem dropsAreCovered_and_failuresStayLocal_iff (host : Host) (config : Config)
    (inputs : RunInputs) :
    DropsAreCovered host config inputs (runObservsPartitionMaintenance host config inputs) ∧
      FailuresStayLocal (runObservsPartitionMaintenance host config inputs) ↔
    WellAnswered host config inputs := by
  rcases hprepare : prepare host inputs with message | prepared
  · -- no candidate is known, so none has a turn
    have hrun : runObservsPartitionMaintenance host config inputs = ⟨[], [], .error message⟩ := by
      rw [runObservsPartitionMaintenance, hprepare]
    rw [hrun]
    refine iff_of_true ⟨?_, ?_, rfl⟩ ?_
    · intro i record h
      exact nomatch h
    · intro record h
      exact nomatch h
    · intro prepared h
      rw [hprepare] at h
      exact nomatch h
  obtain ⟨n, hrecords, hall, hbreaks⟩ := @exists_turns host config inputs prepared hprepare
  have hcandidates := (@runObservsPartitionMaintenance_eq host config inputs prepared hprepare).1
  set cs := prepared.dropCandidates with hcs
  have hgetElem : ∀ i record,
      (runObservsPartitionMaintenance host config inputs).records[i]? = some record →
        i < n ∧ ∃ c, cs[i]? = some c ∧ record = handleCandidate host config (inputs.meets i) c := by
    intro i record h
    rw [hrecords, List.getElem?_map, Option.map_eq_some_iff] at h
    obtain ⟨t, ht, rfl⟩ := h
    obtain ⟨hlt, c, hc, rfl⟩ := getElem?_take_turnsFrom_iff.1 ht
    exact ⟨hlt, c, hc, rfl⟩
  have hcovered : ∀ i dayUtc rows, Covered host config.r2
      (((runObservsPartitionMaintenance host config inputs).records.take (i + 1)).flatMap
        CandidateRecord.exchanges) dayUtc rows ↔
      ∃ j < i + 1, j < n ∧ ∃ c, cs[j]? = some c ∧ Handled config c ∧ c.partitionDayUtc = dayUtc ∧
        Vouches host config.r2 (inputs.meets j) dayUtc rows := by
    intro i dayUtc rows
    rw [hrecords, ← List.map_take, List.take_take, List.flatMap_map, covered_iff]
    constructor
    · rintro ⟨t, ht, h⟩
      obtain ⟨j, hj, c, hc, rfl⟩ := mem_take_turnsFrom_iff.1 ht
      exact ⟨j, by omega, by omega, c, hc, h⟩
    · rintro ⟨j, hj, hn, c, hc, h⟩
      exact ⟨_, mem_take_turnsFrom_iff.2 ⟨j, by omega, c, hc, rfl⟩, h⟩
  constructor
  · rintro ⟨hdrops, -, hevery⟩ prepared' hprepare'
    rw [hprepare, Except.ok.injEq] at hprepare'
    subst hprepare'
    rw [hcandidates] at hevery
    obtain rfl := hall.1 hevery
    intro i c hc hhandled
    refine ⟨fun hmisread ↦ ?_, fun hi hbroken ↦ hbreaks.1 rfl i c hc hi ⟨hhandled, hbroken⟩⟩
    obtain ⟨hopens, hnot⟩ := misread_iff.1 hmisread
    obtain ⟨answer, hdrop⟩ := drop_of_opens hhandled hopens
    have hi : i < cs.length := (List.getElem?_eq_some_iff.1 hc).1
    have hrecord : (runObservsPartitionMaintenance host config inputs).records[i]? =
        some (handleCandidate host config (inputs.meets i) c) := by
      rw [hrecords, List.getElem?_map, Option.map_eq_some_iff]
      exact ⟨(inputs.meets i, c), getElem?_take_turnsFrom_iff.2 ⟨hi, c, hc, rfl⟩, rfl⟩
    have hcover := (hdrops i _ hrecord _ _ hdrop).2
    rw [candidate_handleCandidate, hcovered] at hcover
    obtain ⟨j, hj, -, c', hc', hhandled', hday, hvouches⟩ := hcover
    refine ⟨j, lt_of_le_of_ne (by omega) ?_, c', hc', hhandled', hday, hvouches⟩
    rintro rfl
    exact hnot hvouches
  · intro hwell
    have hwell' := hwell prepared hprepare
    have hn : n = cs.length :=
      hbreaks.2 fun i c hc hi h ↦ (hwell' i c hc h.1).2 hi h.2
    refine ⟨?_, ?_, ?_⟩
    · intro i record hrecord name answer hdrop
      obtain ⟨hlt, c, hc, rfl⟩ := hgetElem i record hrecord
      obtain ⟨hhandled, hname, hopens⟩ := opens_of_drop hdrop
      rw [candidate_handleCandidate, hcovered]
      refine ⟨hname, ?_⟩
      by_cases hvouches : Vouches host config.r2 (inputs.meets i) c.partitionDayUtc
          (inputs.meets i).partitionRows
      · exact ⟨i, by omega, hlt, c, hc, hhandled, rfl, hvouches⟩
      · obtain ⟨j, hj, c', hc', hhandled', hday, hvouches'⟩ :=
          (hwell' i c hc hhandled).1 (misread_iff.2 ⟨hopens, hvouches⟩)
        exact ⟨j, by omega, by omega, c', hc', hhandled', hday, hvouches'⟩
    · intro record hmem herror name data
      obtain ⟨i, hi⟩ := List.mem_iff_getElem?.1 hmem
      obtain ⟨-, c, -, rfl⟩ := hgetElem i record hi
      exact no_data_of_error herror
    · rw [hcandidates]
      exact hall.2 hn

/-! ## A day whose check is answered with no row at all -/

/-- A host whose JSON texts and numbers are never asked for. -/
def silentHost : Host where
  sha256Hex := id
  toLowerCase := id
  parseJson := fun _ ↦ none
  number := fun _ ↦ none

def dropConfig : Config where
  dropDryRun := false
  r2 := ⟨"https://r2", "history", "id", "secret", "auto", "history/v1/observations"⟩

/-- The day has no manifest, and the has-rows call is answered with an empty array. -/
def rowlessAnswer : Circumstances where
  partitionRows := 1000
  head := .response 404 (some "")
  get := .response 404 (some "")
  dayHasRows := .data (.arr [])
  fingerprint := .data (.arr [])
  drop := fun _ ↦ .data (.arr [.obj [("dropped", .bool true)]])
  dayCountDelete := fun _ ↦ .data (.arr [])
  upload := .ok true

def rowlessInputs : RunInputs where
  ensure := fun _ ↦ .data (.arr [])
  enforce := fun _ ↦ .data (.arr [])
  diagnostics := .data (.arr [])
  dropCandidates := .data (.arr [.obj [("partition_name", .str "observations_20240101"),
    ("partition_day_utc", .str "2024-01-01")]])
  meets := fun _ ↦ rowlessAnswer

def rowlessCandidate : DropCandidate := ⟨"observations_20240101", "2024-01-01", "", ""⟩

/-- A partition of a thousand rows is dropped without a manifest and without an answer. -/
theorem not_dropsAreCovered_rowless :
    ¬ (DropsAreCovered silentHost dropConfig rowlessInputs
        (runObservsPartitionMaintenance silentHost dropConfig rowlessInputs) ∧
      FailuresStayLocal (runObservsPartitionMaintenance silentHost dropConfig rowlessInputs)) := by
  rintro ⟨hcovered, -⟩
  have hprepare : prepare silentHost rowlessInputs = .ok ⟨.arr [], .arr [], 0, [rowlessCandidate]⟩ :=
    rfl
  have hrecord : (runObservsPartitionMaintenance silentHost dropConfig rowlessInputs).records =
      [(rowlessAnswer, rowlessCandidate)].map
        fun t ↦ handleCandidate silentHost dropConfig t.1 t.2 := by
    rw [(runObservsPartitionMaintenance_eq hprepare).2, candidateLoop]
    dsimp only
    split <;> rfl
  have hconfirms : ¬ Confirms silentHost dropConfig.r2 rowlessAnswer "2024-01-01" := by
    rintro ⟨fields, -, ⟨body, hbody⟩, -⟩
    rw [show rowlessAnswer.head = .response 404 (some "") from rfl,
      HttpOutcome.response.injEq] at hbody
    exact absurd hbody.1 (by decide)
  have hhandled : Handled dropConfig rowlessCandidate := ⟨by decide, by decide, rfl⟩
  obtain ⟨answer, hdrop⟩ := drop_of_opens hhandled
    (Or.inr ⟨hconfirms, Or.inl ⟨.arr [], rfl, rfl⟩⟩)
  have hcover := (hcovered 0 _ (by rw [hrecord]; rfl) _ _ hdrop).2
  rw [hrecord, ← List.map_take, List.flatMap_map, candidate_handleCandidate, covered_iff] at hcover
  obtain ⟨t, ht, -, -, ⟨fields, hfinds, -⟩ | ⟨-, ⟨data, hdata, fields, hsaid, -⟩ | ⟨hmissing, -⟩⟩⟩ :=
    hcover
  all_goals obtain rfl := List.mem_singleton.1 ht
  · exact hconfirms ⟨fields, hfinds⟩
  · rw [hsaid] at hdata
    exact nomatch hdata
  · exact hmissing.not_data (.arr []) rfl

end UkAqOps.Maintenance

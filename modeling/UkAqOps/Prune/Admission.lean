import UkAqOps.Prune.CommittedHistory

/-!
# What the guard admits

An admission is a proof of absence: a chain of objects from the root manifest down, each pinned by
the hash that its parent records, that ends in an object without a child for the connector-day, next
to a registry without a scope for it. `Admissible` says so without the order in which the guard reads
the objects, and the guard admits exactly then. Everything else that it can find ends in a guard
error.
-/

namespace UkAqOps.Prune.Guard

open Hierarchy (MonthManifest YearManifest RootManifest AggregateManifest)
open Registry (ScopedRoot)

variable {host : Hierarchy.Host} {store : Store} {snapshot : Snapshot}

/-! ## Authenticated objects -/

/-- The object under the key is the aggregate manifest, byte for byte in canonical form. -/
def IsAggregate (host : Hierarchy.Host) (store : Store) (basePrefix key : String)
    (value : AggregateManifest) : Prop :=
  ∃ body payload, store key = .found body ∧ host.parseJson (host.decodeUtf8 body) = some payload ∧
    Hierarchy.validateR2HistoryV2ObservationsAggregateManifest host payload basePrefix = .ok value ∧
    Hierarchy.serializeR2HistoryV2ObservationsAggregateManifest host value basePrefix = .ok body

/-- The object under the key is a day manifest that verifies against its own hash, which is the
pinned one, and carries the identity of the key and the day. -/
def IsDayManifest (host : Hierarchy.Host) (store : Store) (key dayUtc pinnedHash : String)
    (day : JsValue) : Prop :=
  ∃ body summary, store key = .found body ∧ host.parseJson (host.decodeUtf8 body) = some day ∧
    validateCanonicalHistoryV2Manifest host day (expectedIdentity key
      [("manifest_kind", .str "day"), ("day_utc", .str dayUtc)]) = .ok summary ∧
    (day.optional "manifest_hash").strictEq (.str pinnedHash) = true

/-- The registry of scopes is authenticated: its text is canonical, and is the one rebuilt from its
roots. -/
def IsRegistry (host : Hierarchy.Host) (store : Store) (roots : List ScopedRoot) : Prop :=
  ∃ body payload, store Registry.defaultLatestKey = .found body ∧
    host.parseJson (host.decodeUtf8 body) = some payload ∧
    host.decodeUtf8 body = payload.canonicalJson ∧
    Registry.validateObservationHistoryExactLeafIndexV3LatestRegistry host
      ⟨"observation_history_index_v3_latest_global", "latest_global", Registry.defaultLatestKey,
        payload, host.decodeUtf8 body, body.length, host.sha256Hex body⟩
      Registry.defaultIndexRoot Registry.defaultLatestKey = .ok roots

/-- The authenticated registry has no scope of the connector-day. -/
def HasNoScope (host : Hierarchy.Host) (store : Store) (snapshot : Snapshot) : Prop :=
  ∃ roots, IsRegistry host store roots ∧
    ∀ root ∈ roots, ¬(root.dayUtc = snapshot.dayUtc ∧ root.connectorId = snapshot.connectorId)

/-! ## The chain of parents -/

/-- The root, authenticated, under its key. -/
structure RootAt (host : Hierarchy.Host) (store : Store) (snapshot : Snapshot) (rootKey : String)
    (root : RootManifest) : Prop where
  key : Hierarchy.buildR2HistoryV2ObservationsRootManifestKey snapshot.observationsPrefix
    = .ok rootKey
  yearKey : ∃ yearKey, Hierarchy.buildR2HistoryV2ObservationsYearManifestKey
    snapshot.observationsPrefix (.int snapshot.year) = .ok yearKey
  aggregate : IsAggregate host store snapshot.observationsPrefix rootKey (.root root)

/-- The manifest of the year, authenticated by the content hash that the root records. -/
structure YearAt (host : Hierarchy.Host) (store : Store) (snapshot : Snapshot)
    (rootKey yearKey : String) (year : YearManifest) : Prop where
  root : ∃ root, RootAt host store snapshot rootKey root ∧
    ⟨snapshot.year, yearKey, year.contentHash⟩ ∈ root.children
  key : Hierarchy.buildR2HistoryV2ObservationsYearManifestKey snapshot.observationsPrefix
    (.int snapshot.year) = .ok yearKey
  monthKey : ∃ monthKey, Hierarchy.buildR2HistoryV2ObservationsMonthManifestKey
    snapshot.observationsPrefix (.int snapshot.year) (.str snapshot.month) = .ok monthKey
  aggregate : IsAggregate host store snapshot.observationsPrefix yearKey (.year year)
  year_eq : year.year = snapshot.year

/-- The manifest of the month, authenticated by the content hash that the year records. -/
structure MonthAt (host : Hierarchy.Host) (store : Store) (snapshot : Snapshot)
    (rootKey yearKey monthKey : String) (month : MonthManifest) : Prop where
  year : ∃ year, YearAt host store snapshot rootKey yearKey year ∧
    ⟨snapshot.month, monthKey, month.contentHash⟩ ∈ year.children
  key : Hierarchy.buildR2HistoryV2ObservationsMonthManifestKey snapshot.observationsPrefix
    (.int snapshot.year) (.str snapshot.month) = .ok monthKey
  dayKey : ∃ dayKey, buildHistoryV2DayManifestKey snapshot.observationsPrefix snapshot.dayUtc
    = .ok dayKey
  aggregate : IsAggregate host store snapshot.observationsPrefix monthKey (.month month)
  month_eq : month.year = snapshot.year ∧ month.month = snapshot.month

/-- The manifest of the day, authenticated by the manifest hash that the month records, with its
connectors listed once and under both names. -/
structure DayAt (host : Hierarchy.Host) (store : Store) (snapshot : Snapshot)
    (rootKey yearKey monthKey dayKey : String) (connectors : List JsValue) : Prop where
  month : ∃ month hash day, MonthAt host store snapshot rootKey yearKey monthKey month ∧
    ⟨snapshot.dayUtc, dayKey, hash⟩ ∈ month.children ∧
    IsDayManifest host store dayKey snapshot.dayUtc hash day ∧
    matchingReferences day "connector_manifests" "child_manifests" "connector_id" dayKey
      = .ok connectors
  key : buildHistoryV2DayManifestKey snapshot.observationsPrefix snapshot.dayUtc = .ok dayKey

/-- An authenticated parent without a child for the year, month, day or connector. -/
inductive StopsAt (host : Hierarchy.Host) (store : Store) (snapshot : Snapshot) : Admission → Prop
  | root {rootKey : String} {root : RootManifest} (h : RootAt host store snapshot rootKey root)
      (hchild : ∀ child ∈ root.children, child.year ≠ snapshot.year) :
      StopsAt host store snapshot ⟨rootKey, [rootKey], rootKey, "year", .int snapshot.year⟩
  | year {rootKey yearKey : String} {year : YearManifest}
      (h : YearAt host store snapshot rootKey yearKey year)
      (hchild : ∀ child ∈ year.children, child.month ≠ snapshot.month) :
      StopsAt host store snapshot
        ⟨rootKey, [rootKey, yearKey], yearKey, "month", .str snapshot.month⟩
  | month {rootKey yearKey monthKey : String} {month : MonthManifest}
      (h : MonthAt host store snapshot rootKey yearKey monthKey month)
      (hchild : ∀ child ∈ month.children, child.dayUtc ≠ snapshot.dayUtc) :
      StopsAt host store snapshot
        ⟨rootKey, [rootKey, yearKey, monthKey], monthKey, "day_utc", .str snapshot.dayUtc⟩
  | day {rootKey yearKey monthKey dayKey : String} {connectors : List JsValue}
      (h : DayAt host store snapshot rootKey yearKey monthKey dayKey connectors)
      (hchild : ∀ child ∈ connectors,
        (child.optional "connector_id").isInt snapshot.connectorId = false) :
      StopsAt host store snapshot ⟨rootKey, [rootKey, yearKey, monthKey, dayKey], dayKey,
        "connector_id", .int snapshot.connectorId⟩

/-- The absence of the connector-day is proved, and the registry agrees. -/
def Admissible (host : Hierarchy.Host) (store : Store) (snapshot : Snapshot)
    (admission : Admission) : Prop :=
  StopsAt host store snapshot admission ∧ HasNoScope host store snapshot

/-! ## Reading -/

theorem readOptional_eq_some_iff {key : String} {body : List ℕ} :
    readOptional host store key = .ok (some body) ↔ store key = .found body := by
  rw [readOptional]
  cases hanswer : store key with
  | found stored => simp
  | absent => simp
  | failed error =>
    by_cases hmissing : isNotFound host error = true
    · simp [hmissing]
    · simp [hmissing]

theorem readRequired_eq_ok_iff {key missing : String} {body : List ℕ} :
    readRequired host store key missing = .ok body ↔ store key = .found body := by
  rw [readRequired, Except.bind_eq_ok_iff, ← @readOptional_eq_some_iff host]
  constructor
  · rintro ⟨found, hfound, hbody⟩
    rcases found with _ | found
    · exact nomatch hbody
    · rw [hfound, Except.pure_eq_ok_iff.mp hbody]
  · intro hfound
    exact ⟨some body, hfound, rfl⟩

theorem parse_eq_ok_iff {body : List ℕ} {key : String} {value : JsValue} :
    parse host body key = .ok value ↔ host.parseJson (host.decodeUtf8 body) = some value := by
  rw [parse]
  cases host.parseJson (host.decodeUtf8 body) <;> simp

theorem aggregate_eq_ok_iff {α : Type} {basePrefix key missing disagrees : String}
    {ofKind : AggregateManifest → Option α} {a : α} :
    aggregate host store basePrefix key missing disagrees ofKind = .ok a ↔
      ∃ value, IsAggregate host store basePrefix key value ∧ ofKind value = some a := by
  rw [aggregate]
  constructor
  · intro h
    obtain ⟨body, hbody, h⟩ := Except.bind_eq_ok_iff.mp h
    obtain ⟨payload, hpayload, h⟩ := Except.bind_eq_ok_iff.mp h
    obtain ⟨value, hvalue, h⟩ := Except.bind_eq_ok_iff.mp h
    cases hkind : ofKind value with
    | none => rw [hkind] at h; exact nomatch h
    | some manifest =>
      rw [hkind] at h
      obtain ⟨canonical, hcanonical, h⟩ := Except.bind_eq_ok_iff.mp h
      obtain ⟨_, hsame, h⟩ := Except.bind_eq_ok_iff.mp h
      have hsame : body = canonical := not_not.mp (Except.refuseIf_eq_ok_iff.mp hsame)
      rw [Except.pure_eq_ok_iff] at h
      exact ⟨value, ⟨body, payload, readRequired_eq_ok_iff.mp hbody, parse_eq_ok_iff.mp hpayload,
        hvalue, hsame ▸ hcanonical⟩, by rw [hkind, h]⟩
  · rintro ⟨value, ⟨body, payload, hbody, hpayload, hvalue, hcanonical⟩, hkind⟩
    refine Except.bind_eq_ok_iff.mpr ⟨body, readRequired_eq_ok_iff.mpr hbody, ?_⟩
    refine Except.bind_eq_ok_iff.mpr ⟨payload, parse_eq_ok_iff.mpr hpayload, ?_⟩
    refine Except.bind_eq_ok_iff.mpr ⟨value, hvalue, ?_⟩
    rw [hkind]
    refine Except.bind_eq_ok_iff.mpr ⟨body, hcanonical, ?_⟩
    exact Except.bind_eq_ok_iff.mpr ⟨(), Except.refuseIf_eq_ok_iff.mpr (not_not.mpr rfl), rfl⟩

theorem ofRoot_eq_some_iff {value : AggregateManifest} {root : RootManifest} :
    ofRoot value = some root ↔ value = .root root := by
  cases value <;> simp [ofRoot]

theorem ofYear_eq_some_iff {value : AggregateManifest} {year : YearManifest} :
    ofYear value = some year ↔ value = .year year := by
  cases value <;> simp [ofYear]

theorem ofMonth_eq_some_iff {value : AggregateManifest} {month : MonthManifest} :
    ofMonth value = some month ↔ value = .month month := by
  cases value <;> simp [ofMonth]

theorem readRoot_eq_ok_iff {basePrefix key : String} {root : RootManifest} :
    readRoot host store basePrefix key = .ok root ↔
      IsAggregate host store basePrefix key (.root root) := by
  simp only [readRoot, aggregate_eq_ok_iff, ofRoot_eq_some_iff, exists_eq_right]

theorem readAggregate_ofYear_eq_ok_iff {basePrefix key : String} {year : YearManifest} :
    readAggregate host store basePrefix key ofYear = .ok year ↔
      IsAggregate host store basePrefix key (.year year) := by
  simp only [readAggregate, aggregate_eq_ok_iff, ofYear_eq_some_iff, exists_eq_right]

theorem readAggregate_ofMonth_eq_ok_iff {basePrefix key : String} {month : MonthManifest} :
    readAggregate host store basePrefix key ofMonth = .ok month ↔
      IsAggregate host store basePrefix key (.month month) := by
  simp only [readAggregate, aggregate_eq_ok_iff, ofMonth_eq_some_iff, exists_eq_right]

theorem manifest_day_eq_ok_iff {key dayUtc pinnedHash : String} {day : JsValue} :
    manifest host store key [("manifest_kind", .str "day"), ("day_utc", .str dayUtc)]
        (.str pinnedHash) = .ok day ↔
      IsDayManifest host store key dayUtc pinnedHash day := by
  rw [manifest]
  constructor
  · intro h
    obtain ⟨body, hbody, h⟩ := Except.bind_eq_ok_iff.mp h
    obtain ⟨value, hvalue, h⟩ := Except.bind_eq_ok_iff.mp h
    obtain ⟨summary, hsummary, h⟩ := Except.bind_eq_ok_iff.mp h
    obtain ⟨_, hpinned, h⟩ := Except.bind_eq_ok_iff.mp h
    rw [← Except.pure_eq_ok_iff.mp h]
    rw [Except.refuseIf_eq_ok_iff, Bool.not_eq_false] at hpinned
    exact ⟨body, summary, readRequired_eq_ok_iff.mp hbody, parse_eq_ok_iff.mp hvalue, hsummary,
      hpinned⟩
  · rintro ⟨body, summary, hbody, hvalue, hsummary, hpinned⟩
    refine Except.bind_eq_ok_iff.mpr ⟨body, readRequired_eq_ok_iff.mpr hbody, ?_⟩
    refine Except.bind_eq_ok_iff.mpr ⟨day, parse_eq_ok_iff.mpr hvalue, ?_⟩
    refine Except.bind_eq_ok_iff.mpr ⟨summary, hsummary, ?_⟩
    refine Except.bind_eq_ok_iff.mpr ⟨(), Except.refuseIf_eq_ok_iff.mpr ?_, rfl⟩
    rw [hpinned]
    exact Bool.noConfusion

theorem currentIndexAuthority_eq_ok_iff {dayUtc : String} {connectorId : ℤ}
    {indexRoots : List ScopedRoot} :
    currentIndexAuthority host store dayUtc connectorId = .ok indexRoots ↔
      ∃ roots, IsRegistry host store roots ∧
        (roots.filter fun root ↦ root.dayUtc = dayUtc && root.connectorId = connectorId)
          = indexRoots := by
  rw [currentIndexAuthority]
  constructor
  · intro h
    obtain ⟨body, hbody, h⟩ := Except.bind_eq_ok_iff.mp h
    obtain ⟨payload, hpayload, h⟩ := Except.bind_eq_ok_iff.mp h
    obtain ⟨_, hcanonical, h⟩ := Except.bind_eq_ok_iff.mp h
    obtain ⟨roots, hroots, h⟩ := Except.bind_eq_ok_iff.mp h
    exact ⟨roots, ⟨body, payload, readRequired_eq_ok_iff.mp hbody, parse_eq_ok_iff.mp hpayload,
      not_not.mp (Except.refuseIf_eq_ok_iff.mp hcanonical), hroots⟩, Except.pure_eq_ok_iff.mp h⟩
  · rintro ⟨roots, ⟨body, payload, hbody, hpayload, hcanonical, hroots⟩, hfilter⟩
    refine Except.bind_eq_ok_iff.mpr ⟨body, readRequired_eq_ok_iff.mpr hbody, ?_⟩
    refine Except.bind_eq_ok_iff.mpr ⟨payload, parse_eq_ok_iff.mpr hpayload, ?_⟩
    refine Except.bind_eq_ok_iff.mpr
      ⟨(), Except.refuseIf_eq_ok_iff.mpr (not_not.mpr hcanonical), ?_⟩
    exact Except.bind_eq_ok_iff.mpr ⟨roots, hroots, Except.pure_eq_ok_iff.mpr hfilter⟩

/-! ## Choosing a child -/

section OneChild

variable {α β : Type} [DecidableEq β] {children : List α} {p : α → Bool} {key : String}

theorem oneChild_eq_none_iff :
    oneChild children p key = .ok none ↔ ∀ child ∈ children, p child = false := by
  rw [oneChild]
  constructor
  · intro h
    split at h
    · rename_i hnone
      intro child hchild
      exact Bool.eq_false_iff.mpr (List.filter_eq_nil_iff.mp hnone child hchild)
    · exact nomatch h
    · exact nomatch h
  · intro h
    rw [List.filter_eq_nil_iff.mpr fun child hchild ↦ Bool.eq_false_iff.mp (h child hchild)]

theorem mem_of_oneChild_eq_some {child : α} (h : oneChild children p key = .ok (some child)) :
    child ∈ children ∧ p child = true := by
  rw [oneChild] at h
  split at h
  · exact nomatch h
  · rename_i found hfilter
    obtain rfl := Option.some.inj (Except.ok.inj h)
    exact List.mem_filter.mp (by rw [hfilter]; exact List.mem_singleton_self _)
  · exact nomatch h

/-- Where the children differ in `f`, the one with a given value is the one found. -/
theorem oneChild_eq_some_iff {f : α → β} (hnodup : (children.map f).Nodup) {b : β} {child : α} :
    oneChild children (fun c ↦ f c = b) key = .ok (some child) ↔ child ∈ children ∧ f child = b := by
  constructor
  · intro h
    obtain ⟨hmem, hf⟩ := mem_of_oneChild_eq_some h
    exact ⟨hmem, of_decide_eq_true hf⟩
  · rintro ⟨hmem, hf⟩
    have hfound : child ∈ children.filter fun c ↦ f c = b :=
      List.mem_filter.mpr ⟨hmem, decide_eq_true hf⟩
    have hsame : ∀ c ∈ children.filter fun c ↦ f c = b, c = child := fun c hc ↦
      List.inj_on_of_nodup_map hnodup (List.mem_filter.mp hc).1 hmem
        ((of_decide_eq_true (List.mem_filter.mp hc).2).trans hf.symm)
    have hone : (children.filter fun c ↦ f c = b) = [child] := by
      refine List.perm_singleton.mp ((List.perm_ext_iff_of_nodup
        ((hnodup.of_map f).filter _) (List.nodup_singleton child)).mpr fun c ↦ ?_)
      rw [List.mem_singleton]
      exact ⟨hsame c, fun h ↦ h ▸ hfound⟩
    rw [oneChild, hone]

end OneChild

/-! ## One level of the walk -/

section Levels

variable {indexRoots : List ScopedRoot} {keys : List String} {rootKey : String}
variable {admission : Admission}

theorem firstPublication_eq_ok_iff {parentKey childField : String} {childIdentity : JsValue} :
    firstPublication snapshot indexRoots rootKey keys parentKey childField childIdentity
        = .ok admission ↔
      indexRoots = [] ∧ admission = ⟨rootKey, keys, parentKey, childField, childIdentity⟩ := by
  rw [firstPublication, Except.bind_eq_ok_iff]
  simp only [plain_eq_ok_iff, Except.refuseIf_eq_ok_iff, not_not, Except.pure_eq_ok_iff]
  constructor
  · rintro ⟨_, h, ha⟩
    exact ⟨h, ha.symm⟩
  · rintro ⟨h, ha⟩
    exact ⟨(), h, ha.symm⟩

theorem inspectMonth_of_child {monthKey dayKey hash : String} {month : MonthManifest} {day : JsValue}
    (hnodup : (month.children.map Hierarchy.MonthChild.dayUtc).Nodup)
    (hkey : buildHistoryV2DayManifestKey snapshot.observationsPrefix snapshot.dayUtc = .ok dayKey)
    (hmem : ⟨snapshot.dayUtc, dayKey, hash⟩ ∈ month.children)
    (hday : IsDayManifest host store dayKey snapshot.dayUtc hash day) :
    inspectMonth host store snapshot indexRoots keys rootKey monthKey month
      = inspectDay host store snapshot indexRoots (keys ++ [dayKey]) rootKey dayKey day := by
  simp only [inspectMonth, hkey, (oneChild_eq_some_iff hnodup).mpr ⟨hmem, rfl⟩,
    manifest_day_eq_ok_iff.mpr hday, Except.refuseIf_neg (not_not.mpr rfl), plain_ok,
    Except.ok_bind]

theorem inspectYear_of_child {yearKey monthKey : String} {year : YearManifest}
    {month : MonthManifest} (hnodup : (year.children.map Hierarchy.YearChild.month).Nodup)
    (hkey : Hierarchy.buildR2HistoryV2ObservationsMonthManifestKey snapshot.observationsPrefix
      (.int snapshot.year) (.str snapshot.month) = .ok monthKey)
    (hmem : ⟨snapshot.month, monthKey, month.contentHash⟩ ∈ year.children)
    (hmonth : IsAggregate host store snapshot.observationsPrefix monthKey (.month month))
    (hm : month.year = snapshot.year ∧ month.month = snapshot.month) :
    inspectYear host store snapshot indexRoots keys rootKey yearKey year
      = inspectMonth host store snapshot indexRoots (keys ++ [monthKey]) rootKey monthKey month := by
  have hsame : ¬(month.year ≠ snapshot.year ∨ month.month ≠ snapshot.month ∨
      month.contentHash ≠ month.contentHash) := by
    rw [not_or, not_or, not_not, not_not, not_not]
    exact ⟨hm.1, hm.2, rfl⟩
  simp only [inspectYear, hkey, (oneChild_eq_some_iff hnodup).mpr ⟨hmem, rfl⟩,
    readAggregate_ofMonth_eq_ok_iff.mpr hmonth, Except.refuseIf_neg (not_not.mpr rfl),
    Except.refuseIf_neg hsame, plain_ok, Except.ok_bind]

theorem inspectRoot_of_child {yearKey : String} {root : RootManifest} {year : YearManifest}
    (hnodup : (root.children.map Hierarchy.RootChild.year).Nodup)
    (hkey : Hierarchy.buildR2HistoryV2ObservationsYearManifestKey snapshot.observationsPrefix
      (.int snapshot.year) = .ok yearKey)
    (hmem : ⟨snapshot.year, yearKey, year.contentHash⟩ ∈ root.children)
    (hyear : IsAggregate host store snapshot.observationsPrefix yearKey (.year year))
    (hy : year.year = snapshot.year) :
    inspectRoot host store snapshot indexRoots rootKey root
      = inspectYear host store snapshot indexRoots [rootKey, yearKey] rootKey yearKey year := by
  have hsame : ¬(year.year ≠ snapshot.year ∨ year.contentHash ≠ year.contentHash) := by
    rw [not_or, not_not, not_not]
    exact ⟨hy, rfl⟩
  simp only [inspectRoot, hkey, (oneChild_eq_some_iff hnodup).mpr ⟨hmem, rfl⟩,
    readAggregate_ofYear_eq_ok_iff.mpr hyear, Except.refuseIf_neg (not_not.mpr rfl),
    Except.refuseIf_neg hsame, plain_ok, Except.ok_bind]

theorem inspectDay_of_none {dayKey : String} {day : JsValue} {connectors : List JsValue}
    (hconnectors : matchingReferences day "connector_manifests" "child_manifests" "connector_id"
      dayKey = .ok connectors)
    (hnone : ∀ child ∈ connectors,
      (child.optional "connector_id").isInt snapshot.connectorId = false) :
    inspectDay host store snapshot indexRoots keys rootKey dayKey day
      = firstPublication snapshot indexRoots rootKey keys dayKey "connector_id"
          (.int snapshot.connectorId) := by
  simp only [inspectDay, hconnectors, oneChild_eq_none_iff.mpr hnone, plain_ok, Except.ok_bind]

theorem inspectMonth_of_none {monthKey dayKey : String} {month : MonthManifest}
    (hkey : buildHistoryV2DayManifestKey snapshot.observationsPrefix snapshot.dayUtc = .ok dayKey)
    (hnone : ∀ child ∈ month.children, child.dayUtc ≠ snapshot.dayUtc) :
    inspectMonth host store snapshot indexRoots keys rootKey monthKey month
      = firstPublication snapshot indexRoots rootKey keys monthKey "day_utc"
          (.str snapshot.dayUtc) := by
  simp only [inspectMonth, hkey, oneChild_eq_none_iff.mpr fun child hchild ↦
    decide_eq_false (hnone child hchild), plain_ok, Except.ok_bind]

theorem inspectYear_of_none {yearKey monthKey : String} {year : YearManifest}
    (hkey : Hierarchy.buildR2HistoryV2ObservationsMonthManifestKey snapshot.observationsPrefix
      (.int snapshot.year) (.str snapshot.month) = .ok monthKey)
    (hnone : ∀ child ∈ year.children, child.month ≠ snapshot.month) :
    inspectYear host store snapshot indexRoots keys rootKey yearKey year
      = firstPublication snapshot indexRoots rootKey keys yearKey "month" (.str snapshot.month) := by
  simp only [inspectYear, hkey, oneChild_eq_none_iff.mpr fun child hchild ↦
    decide_eq_false (hnone child hchild), plain_ok, Except.ok_bind]

theorem inspectRoot_of_none {yearKey : String} {root : RootManifest}
    (hkey : Hierarchy.buildR2HistoryV2ObservationsYearManifestKey snapshot.observationsPrefix
      (.int snapshot.year) = .ok yearKey)
    (hnone : ∀ child ∈ root.children, child.year ≠ snapshot.year) :
    inspectRoot host store snapshot indexRoots rootKey root
      = firstPublication snapshot indexRoots rootKey [rootKey] rootKey "year"
          (.int snapshot.year) := by
  simp only [inspectRoot, hkey, oneChild_eq_none_iff.mpr fun child hchild ↦
    decide_eq_false (hnone child hchild), plain_ok, Except.ok_bind]

theorem inspectDay_of_ok {dayKey : String} {day : JsValue}
    (h : inspectDay host store snapshot indexRoots keys rootKey dayKey day = .ok admission) :
    ∃ connectors, matchingReferences day "connector_manifests" "child_manifests" "connector_id"
        dayKey = .ok connectors ∧
      (∀ child ∈ connectors,
        (child.optional "connector_id").isInt snapshot.connectorId = false) ∧
      indexRoots = [] ∧
      admission = ⟨rootKey, keys, dayKey, "connector_id", .int snapshot.connectorId⟩ := by
  rw [inspectDay] at h
  obtain ⟨connectors, hconnectors, h⟩ := Except.bind_eq_ok_iff.mp h
  obtain ⟨found, hfound, h⟩ := Except.bind_eq_ok_iff.mp h
  rw [plain_eq_ok_iff] at hconnectors hfound
  rcases found with _ | connectorRef
  · exact ⟨connectors, hconnectors, oneChild_eq_none_iff.mp hfound, firstPublication_eq_ok_iff.mp h⟩
  · -- the connector is committed: every way on throws
    obtain ⟨_, -, h⟩ := Except.bind_eq_ok_iff.mp h
    obtain ⟨_, -, h⟩ := Except.bind_eq_ok_iff.mp h
    exact nomatch h

theorem inspectMonth_of_ok {monthKey : String} {month : MonthManifest}
    (hnodup : (month.children.map Hierarchy.MonthChild.dayUtc).Nodup)
    (h : inspectMonth host store snapshot indexRoots keys rootKey monthKey month = .ok admission) :
    ∃ dayKey, buildHistoryV2DayManifestKey snapshot.observationsPrefix snapshot.dayUtc
        = .ok dayKey ∧
      (((∀ child ∈ month.children, child.dayUtc ≠ snapshot.dayUtc) ∧ indexRoots = [] ∧
          admission = ⟨rootKey, keys, monthKey, "day_utc", .str snapshot.dayUtc⟩) ∨
        ∃ hash day, ⟨snapshot.dayUtc, dayKey, hash⟩ ∈ month.children ∧
          IsDayManifest host store dayKey snapshot.dayUtc hash day ∧
          inspectDay host store snapshot indexRoots (keys ++ [dayKey]) rootKey dayKey day
            = .ok admission) := by
  rw [inspectMonth] at h
  obtain ⟨dayKey, hdayKey, h⟩ := Except.bind_eq_ok_iff.mp h
  obtain ⟨found, hfound, h⟩ := Except.bind_eq_ok_iff.mp h
  rw [plain_eq_ok_iff] at hdayKey hfound
  refine ⟨dayKey, hdayKey, ?_⟩
  rcases found with _ | ⟨dayUtc, manifestKey, hash⟩
  · refine Or.inl ⟨fun child hchild ↦ ?_, firstPublication_eq_ok_iff.mp h⟩
    exact of_decide_eq_false (oneChild_eq_none_iff.mp hfound child hchild)
  · obtain ⟨hmem, hday⟩ := (oneChild_eq_some_iff hnodup).mp hfound
    obtain ⟨_, hkey, hread⟩ := Except.bind_eq_ok_iff.mp h
    rw [plain_eq_ok_iff, Except.refuseIf_eq_ok_iff, not_not] at hkey
    obtain ⟨day, hmanifest, hrest⟩ := Except.bind_eq_ok_iff.mp hread
    rw [plain_eq_ok_iff, manifest_day_eq_ok_iff] at hmanifest
    dsimp only at hkey hday
    subst hkey hday
    exact Or.inr ⟨hash, day, hmem, hmanifest, hrest⟩

theorem inspectYear_of_ok {yearKey : String} {year : YearManifest}
    (hnodup : (year.children.map Hierarchy.YearChild.month).Nodup)
    (h : inspectYear host store snapshot indexRoots keys rootKey yearKey year = .ok admission) :
    ∃ monthKey, Hierarchy.buildR2HistoryV2ObservationsMonthManifestKey
        snapshot.observationsPrefix (.int snapshot.year) (.str snapshot.month) = .ok monthKey ∧
      (((∀ child ∈ year.children, child.month ≠ snapshot.month) ∧ indexRoots = [] ∧
          admission = ⟨rootKey, keys, yearKey, "month", .str snapshot.month⟩) ∨
        ∃ month : MonthManifest, ⟨snapshot.month, monthKey, month.contentHash⟩ ∈ year.children ∧
          IsAggregate host store snapshot.observationsPrefix monthKey (.month month) ∧
          (month.year = snapshot.year ∧ month.month = snapshot.month) ∧
          inspectMonth host store snapshot indexRoots (keys ++ [monthKey]) rootKey monthKey month
            = .ok admission) := by
  rw [inspectYear] at h
  obtain ⟨monthKey, hmonthKey, h⟩ := Except.bind_eq_ok_iff.mp h
  obtain ⟨found, hfound, h⟩ := Except.bind_eq_ok_iff.mp h
  rw [plain_eq_ok_iff] at hmonthKey hfound
  refine ⟨monthKey, hmonthKey, ?_⟩
  rcases found with _ | ⟨name, manifestKey, hash⟩
  · refine Or.inl ⟨fun child hchild ↦ ?_, firstPublication_eq_ok_iff.mp h⟩
    exact of_decide_eq_false (oneChild_eq_none_iff.mp hfound child hchild)
  · obtain ⟨hmem, hname⟩ := (oneChild_eq_some_iff hnodup).mp hfound
    obtain ⟨_, hkey, hread⟩ := Except.bind_eq_ok_iff.mp h
    rw [plain_eq_ok_iff, Except.refuseIf_eq_ok_iff, not_not] at hkey
    obtain ⟨month, hmonth, hcheck⟩ := Except.bind_eq_ok_iff.mp hread
    rw [plain_eq_ok_iff, readAggregate_ofMonth_eq_ok_iff] at hmonth
    obtain ⟨_, hsame, hrest⟩ := Except.bind_eq_ok_iff.mp hcheck
    rw [plain_eq_ok_iff, Except.refuseIf_eq_ok_iff, not_or, not_or, not_not, not_not,
      not_not] at hsame
    obtain ⟨hy, hm, hhash⟩ := hsame
    dsimp only at hkey hname hhash
    subst hkey hname hhash
    exact Or.inr ⟨month, hmem, hmonth, ⟨hy, hm⟩, hrest⟩

theorem inspectRoot_of_ok {root : RootManifest}
    (hnodup : (root.children.map Hierarchy.RootChild.year).Nodup)
    (h : inspectRoot host store snapshot indexRoots rootKey root = .ok admission) :
    ∃ yearKey, Hierarchy.buildR2HistoryV2ObservationsYearManifestKey
        snapshot.observationsPrefix (.int snapshot.year) = .ok yearKey ∧
      (((∀ child ∈ root.children, child.year ≠ snapshot.year) ∧ indexRoots = [] ∧
          admission = ⟨rootKey, [rootKey], rootKey, "year", .int snapshot.year⟩) ∨
        ∃ year : YearManifest, ⟨snapshot.year, yearKey, year.contentHash⟩ ∈ root.children ∧
          IsAggregate host store snapshot.observationsPrefix yearKey (.year year) ∧
          year.year = snapshot.year ∧
          inspectYear host store snapshot indexRoots [rootKey, yearKey] rootKey yearKey year
            = .ok admission) := by
  rw [inspectRoot] at h
  obtain ⟨yearKey, hyearKey, h⟩ := Except.bind_eq_ok_iff.mp h
  obtain ⟨found, hfound, h⟩ := Except.bind_eq_ok_iff.mp h
  rw [plain_eq_ok_iff] at hyearKey hfound
  refine ⟨yearKey, hyearKey, ?_⟩
  rcases found with _ | ⟨number, manifestKey, hash⟩
  · refine Or.inl ⟨fun child hchild ↦ ?_, firstPublication_eq_ok_iff.mp h⟩
    exact of_decide_eq_false (oneChild_eq_none_iff.mp hfound child hchild)
  · obtain ⟨hmem, hnumber⟩ := (oneChild_eq_some_iff hnodup).mp hfound
    obtain ⟨_, hkey, hread⟩ := Except.bind_eq_ok_iff.mp h
    rw [plain_eq_ok_iff, Except.refuseIf_eq_ok_iff, not_not] at hkey
    obtain ⟨year, hyear, hcheck⟩ := Except.bind_eq_ok_iff.mp hread
    rw [plain_eq_ok_iff, readAggregate_ofYear_eq_ok_iff] at hyear
    obtain ⟨_, hsame, hrest⟩ := Except.bind_eq_ok_iff.mp hcheck
    rw [plain_eq_ok_iff, Except.refuseIf_eq_ok_iff, not_or, not_not, not_not] at hsame
    obtain ⟨hy, hhash⟩ := hsame
    dsimp only at hkey hnumber hhash
    subst hkey hnumber hhash
    exact Or.inr ⟨year, hmem, hyear, hy, hrest⟩

end Levels

/-! ## The whole walk -/

theorem IsAggregate.listsOnce {basePrefix key : String} {value : AggregateManifest}
    (h : IsAggregate host store basePrefix key value) : value.ListsOnce := by
  obtain ⟨_, _, -, -, hvalue, -⟩ := h
  exact Hierarchy.listsOnce_of_validate hvalue

theorem hasNoScope_iff :
    HasNoScope host store snapshot ↔
      currentIndexAuthority host store snapshot.dayUtc snapshot.connectorId = .ok [] := by
  rw [currentIndexAuthority_eq_ok_iff, HasNoScope]
  refine exists_congr fun roots ↦ and_congr_right fun _ ↦ ?_
  rw [List.filter_eq_nil_iff]
  refine forall₂_congr fun root _ ↦ ?_
  rw [Bool.and_eq_true, decide_eq_true_eq, decide_eq_true_eq]

/-- The walk below the root stops only where an authenticated parent has no child. -/
theorem stopsAt_of_inspectRoot {rootKey : String} {root : RootManifest}
    (hkey : Hierarchy.buildR2HistoryV2ObservationsRootManifestKey snapshot.observationsPrefix
      = .ok rootKey)
    (hroot : IsAggregate host store snapshot.observationsPrefix rootKey (.root root))
    {indexRoots : List ScopedRoot} {admission : Admission}
    (h : inspectRoot host store snapshot indexRoots rootKey root = .ok admission) :
    StopsAt host store snapshot admission ∧ indexRoots = [] := by
  obtain ⟨yearKey, hyearKey, hstep⟩ := inspectRoot_of_ok hroot.listsOnce h
  have hrootAt : RootAt host store snapshot rootKey root := ⟨hkey, ⟨yearKey, hyearKey⟩, hroot⟩
  rcases hstep with ⟨hnone, hindex, rfl⟩ | ⟨year, hmem, hyear, hy, h⟩
  · exact ⟨.root hrootAt hnone, hindex⟩
  obtain ⟨monthKey, hmonthKey, hstep⟩ := inspectYear_of_ok hyear.listsOnce h
  have hyearAt : YearAt host store snapshot rootKey yearKey year :=
    ⟨⟨root, hrootAt, hmem⟩, hyearKey, ⟨monthKey, hmonthKey⟩, hyear, hy⟩
  rcases hstep with ⟨hnone, hindex, rfl⟩ | ⟨month, hmem, hmonth, hm, h⟩
  · exact ⟨.year hyearAt hnone, hindex⟩
  obtain ⟨dayKey, hdayKey, hstep⟩ := inspectMonth_of_ok hmonth.listsOnce h
  have hmonthAt : MonthAt host store snapshot rootKey yearKey monthKey month :=
    ⟨⟨year, hyearAt, hmem⟩, hmonthKey, ⟨dayKey, hdayKey⟩, hmonth, hm⟩
  rcases hstep with ⟨hnone, hindex, rfl⟩ | ⟨hash, day, hmem, hday, h⟩
  · exact ⟨.month hmonthAt hnone, hindex⟩
  obtain ⟨connectors, hconnectors, hnone, hindex, rfl⟩ := inspectDay_of_ok h
  exact ⟨.day ⟨⟨month, hash, day, hmonthAt, hmem, hday, hconnectors⟩, hdayKey⟩ hnone, hindex⟩

/-- The walk reaches the authenticated root. -/
theorem RootAt.inspect {rootKey : String} {root : RootManifest} {indexRoots : List ScopedRoot}
    (h : RootAt host store snapshot rootKey root)
    (hindex : currentIndexAuthority host store snapshot.dayUtc snapshot.connectorId
      = .ok indexRoots) :
    inspectPruneFrozenConnectorSnapshot host store snapshot
      = inspectRoot host store snapshot indexRoots rootKey root := by
  simp only [inspectPruneFrozenConnectorSnapshot, h.key, readRoot_eq_ok_iff.mpr h.aggregate, hindex,
    plain_ok, Except.ok_bind]

/-- The walk reaches the authenticated year. -/
theorem YearAt.inspect {rootKey yearKey : String} {year : YearManifest}
    {indexRoots : List ScopedRoot} (h : YearAt host store snapshot rootKey yearKey year)
    (hindex : currentIndexAuthority host store snapshot.dayUtc snapshot.connectorId
      = .ok indexRoots) :
    inspectPruneFrozenConnectorSnapshot host store snapshot
      = inspectYear host store snapshot indexRoots [rootKey, yearKey] rootKey yearKey year := by
  obtain ⟨root, hroot, hmem⟩ := h.root
  rw [hroot.inspect hindex]
  exact inspectRoot_of_child hroot.aggregate.listsOnce h.key hmem h.aggregate h.year_eq

/-- The walk reaches the authenticated month. -/
theorem MonthAt.inspect {rootKey yearKey monthKey : String} {month : MonthManifest}
    {indexRoots : List ScopedRoot} (h : MonthAt host store snapshot rootKey yearKey monthKey month)
    (hindex : currentIndexAuthority host store snapshot.dayUtc snapshot.connectorId
      = .ok indexRoots) :
    inspectPruneFrozenConnectorSnapshot host store snapshot
      = inspectMonth host store snapshot indexRoots [rootKey, yearKey, monthKey] rootKey monthKey
          month := by
  obtain ⟨year, hyear, hmem⟩ := h.year
  rw [hyear.inspect hindex]
  exact inspectYear_of_child hyear.aggregate.listsOnce h.key hmem h.aggregate h.month_eq

/-- An absence that is proved is admitted. -/
theorem inspect_of_admissible {admission : Admission}
    (h : Admissible host store snapshot admission) :
    inspectPruneFrozenConnectorSnapshot host store snapshot = .ok admission := by
  obtain ⟨hstops, hscope⟩ := h
  rw [hasNoScope_iff] at hscope
  rcases hstops with ⟨h, hnone⟩ | ⟨h, hnone⟩ | ⟨h, hnone⟩ | ⟨h, hnone⟩
  · obtain ⟨_, hyearKey⟩ := h.yearKey
    rw [h.inspect hscope, inspectRoot_of_none hyearKey hnone]
    exact firstPublication_eq_ok_iff.mpr ⟨rfl, rfl⟩
  · obtain ⟨_, hmonthKey⟩ := h.monthKey
    rw [h.inspect hscope, inspectYear_of_none hmonthKey hnone]
    exact firstPublication_eq_ok_iff.mpr ⟨rfl, rfl⟩
  · obtain ⟨_, hdayKey⟩ := h.dayKey
    rw [h.inspect hscope, inspectMonth_of_none hdayKey hnone]
    exact firstPublication_eq_ok_iff.mpr ⟨rfl, rfl⟩
  · obtain ⟨month, hash, day, hmonth, hmem, hday, hconnectors⟩ := h.month
    rw [hmonth.inspect hscope,
      inspectMonth_of_child hmonth.aggregate.listsOnce h.key hmem hday,
      inspectDay_of_none hconnectors hnone]
    exact firstPublication_eq_ok_iff.mpr ⟨rfl, rfl⟩

/-- **The guard admits exactly the absences that are proved.** -/
theorem inspect_eq_ok_iff {admission : Admission} :
    inspectPruneFrozenConnectorSnapshot host store snapshot = .ok admission ↔
      Admissible host store snapshot admission := by
  refine ⟨fun h ↦ ?_, inspect_of_admissible⟩
  rw [inspectPruneFrozenConnectorSnapshot] at h
  obtain ⟨rootKey, hkey, h⟩ := Except.bind_eq_ok_iff.mp h
  obtain ⟨root, hroot, h⟩ := Except.bind_eq_ok_iff.mp h
  obtain ⟨indexRoots, hindex, h⟩ := Except.bind_eq_ok_iff.mp h
  rw [plain_eq_ok_iff] at hkey hroot hindex
  obtain ⟨hstops, hempty⟩ := stopsAt_of_inspectRoot hkey (readRoot_eq_ok_iff.mp hroot) h
  exact ⟨hstops, hasNoScope_iff.mpr (hempty ▸ hindex)⟩

/-- No admission is found for a connector that the authenticated day lists. -/
theorem DayAt.not_admissible {rootKey yearKey monthKey dayKey : String} {connectors : List JsValue}
    (h : DayAt host store snapshot rootKey yearKey monthKey dayKey connectors) {child : JsValue}
    (hchild : child ∈ connectors)
    (hconnector : (child.optional "connector_id").isInt snapshot.connectorId = true)
    (admission : Admission) : ¬Admissible host store snapshot admission := by
  intro hadmissible
  have hinspect := inspect_of_admissible hadmissible
  obtain ⟨month, hash, day, hmonth, hmem, hday, hconnectors⟩ := h.month
  rw [hmonth.inspect (hasNoScope_iff.mp hadmissible.2),
    inspectMonth_of_child hmonth.aggregate.listsOnce h.key hmem hday] at hinspect
  obtain ⟨listed, hlisted, hnone, -⟩ := inspectDay_of_ok hinspect
  rw [Except.ok.inj (hconnectors.symm.trans hlisted)] at hchild
  exact Bool.noConfusion ((hnone child hchild).symm.trans hconnector)

/-- The `catch` only lets guard errors out. -/
theorem exists_asGuardError {basePrefix : String}
    (hvalid : Hierarchy.normalizePrefix snapshot.observationsPrefix = .ok basePrefix)
    (thrown : Thrown) : ∃ refusal, asGuardError snapshot thrown = .error (.guard refusal) := by
  rcases thrown with refusal | message
  · exact ⟨refusal, rfl⟩
  · rw [asGuardError, Hierarchy.buildR2HistoryV2ObservationsRootManifestKey, hvalid]
    exact ⟨_, rfl⟩

theorem admit_of_ok {admission : Admission}
    (h : inspectPruneFrozenConnectorSnapshot host store snapshot = .ok admission) :
    admitPruneFrozenConnectorSnapshot host store snapshot = .ok admission := by
  rw [admitPruneFrozenConnectorSnapshot, h]
  rfl

theorem admit_of_error {thrown : Thrown}
    (h : inspectPruneFrozenConnectorSnapshot host store snapshot = .error thrown) :
    admitPruneFrozenConnectorSnapshot host store snapshot = asGuardError snapshot thrown := by
  rw [admitPruneFrozenConnectorSnapshot, h]
  rfl

end UkAqOps.Prune.Guard

/-! ## A first publication -/

namespace UkAqOps.Prune.Guard.FirstPublication

open Hierarchy (RootManifest RootChild)
open Registry (ScopedRoot)

/-- The committed history has one year, and the snapshot is of the next. -/
def root : RootManifest :=
  ⟨[⟨2023, "history/v2/observations/_manifests/year=2023/manifest.json",
    "bbbbbbbbbbbbbbbbbbbbbbbbbbbbbbbbbbbbbbbbbbbbbbbbbbbbbbbbbbbbbbbb"⟩],
    "549f3fc15054b8f151ab7059746c1ae91d789fee165e15053685fd71be7c67fe"⟩

def committedScope : ScopedRoot :=
  ⟨⟨"2023-03-04", 7, "no2"⟩,
    Registry.scopedManifestKey Registry.defaultIndexRoot ⟨"2023-03-04", 7, "no2"⟩, 100,
    "dddddddddddddddddddddddddddddddddddddddddddddddddddddddddddddddd", 24, 1, 1, 1, 1,
    "2023-03-04T00:00:00.000Z", "2023-03-04T23:00:00.000Z"⟩

/-- Decoding, where only two texts are stored. -/
def decode (left right : String) (bytes : List ℕ) : String :=
  if bytes = utf8 left then left else right

theorem decode_left (left right : String) : decode left right (utf8 left) = left := if_pos rfl

theorem decode_right {left right : String} (h : right ≠ left) :
    decode left right (utf8 right) = right := if_neg fun hbytes ↦ h (utf8_injective hbytes)

/-- The built-in operations on the texts at hand. The digest is that of the root's children. -/
def host (registry : JsValue) : Hierarchy.Host where
  sha256Hex _ := root.contentHash
  toLowerCase s := String.ofList (s.toList.map Char.toLower)
  decodeUtf8 := decode root.toValue.stringify registry.canonicalJson
  parseJson text := some (if text = root.toValue.stringify then root.toValue else registry)
  safeInteger value :=
    match value with
    | .num t => (parseDigits 10 t.toList).map Int.ofNat
    | _ => none
  sumText counts := toString counts.sum
  dateParse text :=
    if text = "2023-03-04T00:00:00.000Z" then some 1677888000000
    else if text = "2023-03-04T23:00:00.000Z" then some 1677970800000
    else none

def registry : JsValue :=
  Registry.latestPayload (host .null) [committedScope] Registry.defaultIndexRoot
    Registry.defaultLatestKey

def store : Store := fun key ↦
  if key = "history/v2/observations/_manifests/manifest.json" then
    .found (utf8 root.toValue.stringify)
  else if key = Registry.defaultLatestKey then .found (utf8 registry.canonicalJson)
  else .absent

def snapshot : Snapshot := ⟨"history/v2/observations", "2024-01-05", 7, []⟩

theorem validate_root : Hierarchy.validateR2HistoryV2ObservationsAggregateManifest (host registry)
    root.toValue "history/v2/observations" = .ok (.root root) :=
  Except.toOption_eq_some_iff.mp (by decide +kernel)

theorem decodeUtf8_host :
    (host registry).decodeUtf8 = decode root.toValue.stringify registry.canonicalJson := rfl

theorem decodeUtf8_root :
    (host registry).decodeUtf8 (utf8 root.toValue.stringify) = root.toValue.stringify := by
  rw [decodeUtf8_host]
  exact decode_left _ _

theorem text_ne : registry.canonicalJson ≠ root.toValue.stringify := by
  intro h
  have hsecond := congrArg (fun s ↦ s[1]?) (String.ofList_injective h)
  exact absurd hsecond (by decide +kernel)

theorem decodeUtf8_registry :
    (host registry).decodeUtf8 (utf8 registry.canonicalJson) = registry.canonicalJson := by
  rw [decodeUtf8_host]
  exact decode_right text_ne

theorem rootAt : RootAt (host registry) store snapshot
    "history/v2/observations/_manifests/manifest.json" root where
  key := Except.toOption_eq_some_iff.mp (by decide +kernel)
  yearKey := ⟨"history/v2/observations/_manifests/year=2024/manifest.json",
    Except.toOption_eq_some_iff.mp (by decide +kernel)⟩
  aggregate := by
    refine ⟨utf8 root.toValue.stringify, root.toValue, if_pos rfl, ?_, validate_root, ?_⟩
    · rw [decodeUtf8_root]
      exact congrArg some (if_pos rfl)
    · rw [Hierarchy.serializeR2HistoryV2ObservationsAggregateManifest]
      exact Except.bind_eq_ok_iff.mpr ⟨.root root, validate_root, rfl⟩

theorem day_summaries : (registry.optional "day_summaries").items?
    = some [Registry.daySummary (host .null) "2023-03-04" [committedScope]] := by
  rfl

/-- The payload of a registry does not depend on what the host parses. -/
theorem latestPayload_host (left right : JsValue) (roots : List ScopedRoot)
    (indexRoot latestKey : String) : Registry.latestPayload (host left) roots indexRoot latestKey
      = Registry.latestPayload (host right) roots indexRoot latestKey := rfl

theorem rebuilt : registry = Registry.latestPayload (host registry)
    (Sorting.sortBy Registry.compareScopes [committedScope]) Registry.defaultIndexRoot
    Registry.defaultLatestKey :=
  latestPayload_host .null registry [committedScope] _ _

theorem isRegistry : IsRegistry (host registry) store [committedScope] := by
  refine ⟨utf8 registry.canonicalJson, registry, (if_neg (by decide)).trans (if_pos rfl), ?_,
    decodeUtf8_registry, ?_⟩
  · rw [decodeUtf8_registry]
    exact congrArg some (if_neg text_ne)
  · rw [Registry.validateObservationHistoryExactLeafIndexV3LatestRegistry]
    refine Except.bind_eq_ok_iff.mpr ⟨Registry.defaultIndexRoot,
      Except.toOption_eq_some_iff.mp (by decide +kernel), ?_⟩
    refine Except.bind_eq_ok_iff.mpr ⟨Registry.defaultLatestKey,
      Except.toOption_eq_some_iff.mp (by decide +kernel), ?_⟩
    refine Except.bind_eq_ok_iff.mpr ⟨⟨"observation_history_index_v3_latest_global",
      "latest_global", Registry.defaultLatestKey, registry,
      (host registry).decodeUtf8 (utf8 registry.canonicalJson),
      (utf8 registry.canonicalJson).length, root.contentHash⟩, ?_, ?_⟩
    · rw [Registry.artifactBodyIsExact, Except.refuseIf_neg (by decide), Except.ok_bind]
      refine Except.bind_eq_ok_iff.mpr ⟨(), Except.refuseIf_eq_ok_iff.mpr ?_, rfl⟩
      rw [decodeUtf8_registry, not_or, not_or, not_not, not_not, not_not]
      exact ⟨rfl, rfl, rfl⟩
    · rw [if_pos rfl, day_summaries]
      refine Except.bind_eq_ok_iff.mpr ⟨[committedScope],
        Except.toOption_eq_some_iff.mp (by decide +kernel), ?_⟩
      refine Except.bind_eq_ok_iff.mpr ⟨(), Except.refuseIf_eq_ok_iff.mpr (by decide), ?_⟩
      exact Except.bind_eq_ok_iff.mpr ⟨(), Except.refuseIf_eq_ok_iff.mpr
        (not_not.mpr (congrArg JsValue.canonicalJson rebuilt)), rfl⟩

theorem admissible : Admissible (host registry) store snapshot
    ⟨"history/v2/observations/_manifests/manifest.json",
      ["history/v2/observations/_manifests/manifest.json"],
      "history/v2/observations/_manifests/manifest.json", "year", .int snapshot.year⟩ :=
  ⟨.root rootAt (by decide), [committedScope], isRegistry, by decide⟩

end UkAqOps.Prune.Guard.FirstPublication

namespace UkAqOps.Prune.Guard

end UkAqOps.Prune.Guard

import UkAqOps.Lib.OrderedMap
import Mathlib.Data.Int.Notation

/-!
# Evidence kept for one run

Every dependency of a publication is read back before the latest object may name it. Within one
supervised run, what was read back is remembered, so that the next publication of the run need not
read it again. What is remembered counts only once a finished publication has listed it, and only as
long as every further one does.

What a cache holds is explained by the calls that led to it: the history of every entry is an
invariant of the run.
-/

namespace UkAqOps.SteadyState

/-- The identity of a stored object. -/
@[ext] structure Reference where
  key : String
  byteSize : ℤ
  sha256 : String
  deriving DecidableEq

/-- What a verification says that it has found. -/
structure Evidence where
  identity : Reference
  verified : Bool
  durable : Bool

/-- The evidence is verified, durable and of exactly this identity. -/
def Evidence.Exact (evidence : Option Evidence) (expected : Reference) : Prop :=
  evidence = some ⟨expected, true, true⟩

/-- The evidence as it is kept, which is that of the identity itself. -/
def assertEvidence (actual : Option Evidence) (expected : Reference) (label : String) :
    Except String Reference :=
  match actual with
  | none => .error (label ++ " did not return exact verified durable identity: " ++ expected.key)
  | some actual =>
    if actual.verified ≠ true ∨ actual.durable ≠ true ∨ actual.identity.key ≠ expected.key ∨
        actual.identity.byteSize ≠ expected.byteSize ∨
        actual.identity.sha256 ≠ expected.sha256 then
      .error (label ++ " did not return exact verified durable identity: " ++ expected.key)
    else .ok expected

theorem assertEvidence_eq_ok_iff {actual : Option Evidence} {expected exact' : Reference}
    {label : String} :
    assertEvidence actual expected label = .ok exact' ↔
      Evidence.Exact actual expected ∧ exact' = expected := by
  rcases actual with _ | ⟨⟨key, byteSize, sha256⟩, verified, durable⟩
  · simp [assertEvidence, Evidence.Exact]
  · obtain ⟨key', byteSize', sha256'⟩ := expected
    rw [assertEvidence, Evidence.Exact]
    dsimp only
    split
    · rename_i hrefused
      refine iff_of_false nofun ?_
      rintro ⟨hexact, -⟩
      simp only [Option.some.injEq, Evidence.mk.injEq, Reference.mk.injEq] at hexact
      obtain ⟨⟨rfl, rfl, rfl⟩, rfl, rfl⟩ := hexact
      simp at hrefused
    · rename_i haccepted
      simp only [not_or, not_not] at haccepted
      obtain ⟨rfl, rfl, rfl, rfl, rfl⟩ := haccepted
      simp only [Except.ok.injEq, true_and]
      exact eq_comm

/-! ## The cache -/

def maxPruneV3RunLocalReferenceEvidenceEntries : ℕ := 16384

structure Cache where
  entries : OrderedMap String Reference
  eligibleKeys : List String
  active : Bool
  pendingInvalidations : ℕ

/-- The cache as `createPruneDailyObservationHistoryV3RunLocalEvidenceCache` returns it. -/
def Cache.new : Cache := ⟨OrderedMap.empty, [], true, 0⟩

/-- The reference that the list gives last for the key is the one under which it was remembered. -/
def listed (references : List Reference) (key : String) (evidence : Reference) : Bool :=
  match (OrderedMap.ofList (references.map fun reference ↦ (reference.key, reference))).get? key with
  | none => false
  | some current => current.byteSize = evidence.byteSize ∧ current.sha256 = evidence.sha256

namespace Cache

/-- Forget the key and count it. -/
def drop (cache : Cache) (key : String) : Cache :=
  { cache with
    entries := cache.entries.delete key
    eligibleKeys := cache.eligibleKeys.filter (· ≠ key)
    pendingInvalidations := cache.pendingInvalidations + 1 }

def getVerified (cache : Cache) (reference : Reference) : Option Reference × Cache :=
  if cache.active = false then (none, cache)
  else
    match cache.entries.get? reference.key with
    | none => (none, cache)
    | some existing =>
      if reference.key ∉ cache.eligibleKeys ∨ existing.key ≠ reference.key ∨
          existing.byteSize ≠ reference.byteSize ∨ existing.sha256 ≠ reference.sha256 then
        (none, cache.drop reference.key)
      else (some existing, cache)

/-- The cache without the entry of another identity under the same key. -/
def supersede (cache : Cache) (exact' : Reference) : Cache :=
  match cache.entries.get? exact'.key with
  | none => cache
  | some prior =>
    if prior.byteSize ≠ exact'.byteSize ∨ prior.sha256 ≠ exact'.sha256 then cache.drop exact'.key
    else cache

def remember (cache : Cache) (reference : Reference) (evidence : Option Evidence) :
    Except String Bool × Cache :=
  if cache.active = false then (.ok false, cache)
  else
    match assertEvidence evidence reference "Prune run-local v3 dependency" with
    | .error message => (.error message, cache)
    | .ok exact' =>
      let cache := cache.supersede exact'
      if (cache.entries.get? exact'.key).isNone ∧
          maxPruneV3RunLocalReferenceEvidenceEntries ≤ cache.entries.size then (.ok false, cache)
      else (.ok true, { cache with entries := cache.entries.set exact'.key exact' })

def invalidateKey (cache : Cache) (key : String) : Bool × Cache :=
  if cache.active = false then (false, cache)
  else if key = "" ∨ (cache.entries.get? key).isNone then (false, cache)
  else (true, cache.drop key)

def recordFinalizedDependencies (cache : Cache) (references : List Reference) : Cache :=
  if cache.active = false then cache
  else
    let kept := cache.entries.entries.filter fun (key, evidence) ↦ listed references key evidence
    let forgotten := cache.entries.entries.filter fun (key, evidence) ↦
      listed references key evidence = false ∧ key ∈ cache.eligibleKeys
    { cache with
      entries := cache.entries.filterKeys fun key ↦ key ∈ kept.map Prod.fst
      eligibleKeys := kept.map Prod.fst
      pendingInvalidations := cache.pendingInvalidations + forgotten.length }

def takeInvalidationCount (cache : Cache) : ℕ × Cache :=
  (cache.pendingInvalidations, { cache with pendingInvalidations := 0 })

def entryCount (cache : Cache) : ℕ := if cache.active then cache.entries.size else 0

def clear (_ : Cache) : Cache := ⟨OrderedMap.empty, [], false, 0⟩

end Cache

/-! ## Runs -/

inductive Call
  | getVerified (reference : Reference)
  | remember (reference : Reference) (evidence : Option Evidence)
  | invalidateKey (key : String)
  | recordFinalizedDependencies (references : List Reference)
  | takeInvalidationCount
  | clear

def step (cache : Cache) : Call → Cache
  | .getVerified reference => (cache.getVerified reference).2
  | .remember reference evidence => (cache.remember reference evidence).2
  | .invalidateKey key => (cache.invalidateKey key).2
  | .recordFinalizedDependencies references => cache.recordFinalizedDependencies references
  | .takeInvalidationCount => cache.takeInvalidationCount.2
  | .clear => cache.clear

/-- The cache after the calls. -/
def run (calls : List Call) : Cache := calls.foldl step Cache.new

theorem run_concat (calls : List Call) (call : Call) : run (calls ++ [call]) = step (run calls) call := by
  rw [run, List.foldl_append, List.foldl_cons, List.foldl_nil, run]

/-- The call speaks against an identity: it clears the cache, invalidates the key, names the key with
another identity, or records dependencies without it. -/
def Call.Against (identity : Reference) : Call → Prop
  | .getVerified reference => reference.key = identity.key ∧ reference ≠ identity
  | .remember reference _ => reference.key = identity.key ∧ reference ≠ identity
  | .invalidateKey key => key = identity.key
  | .recordFinalizedDependencies references => identity ∉ references
  | .takeInvalidationCount => False
  | .clear => True

/-- The call is refused by every cache: an invalidation of the empty key, and a remember of what is
not exactly verified and durable. -/
def Call.Ignored : Call → Prop
  | .remember reference evidence => ¬Evidence.Exact evidence reference
  | .invalidateKey key => key = ""
  | _ => False

/-! ## What an entry is explained by -/

/-- Since a call that remembered the identity, no call has spoken against it, other than one that
every cache refuses. -/
structure Explained (calls : List Call) (identity : Reference) (before : List Call)
    (evidence : Option Evidence) (later : List Call) : Prop where
  split : calls = before ++ .remember identity evidence :: later
  exact : Evidence.Exact evidence identity
  remembered : ((run before).remember identity evidence).1 = .ok true
  unopposed : ∀ call ∈ later, call.Against identity → call.Ignored

/-- Finished dependencies have been recorded among the calls. -/
def Recorded (calls : List Call) : Prop :=
  ∃ references, Call.recordFinalizedDependencies references ∈ calls

/-- **The invariant**: every entry is explained by the calls, an eligible one by calls among which
finished dependencies have been recorded. -/
structure Justified (calls : List Call) (cache : Cache) : Prop where
  entries : ∀ key identity, cache.entries.get? key = some identity → identity.key = key ∧
    ∃ before evidence later, Explained calls identity before evidence later ∧
      (key ∈ cache.eligibleKeys → Recorded later)
  eligible : ∀ key ∈ cache.eligibleKeys, key ∈ cache.entries.keys
  bounded : cache.entries.size ≤ maxPruneV3RunLocalReferenceEvidenceEntries
  closed : cache.active = false → cache.entries = OrderedMap.empty

/-- A further call that does not speak against the identity leaves it explained. -/
theorem Explained.concat {calls : List Call} {identity : Reference} {before : List Call}
    {evidence : Option Evidence} {later : List Call}
    (h : Explained calls identity before evidence later) {call : Call}
    (hcall : call.Against identity → call.Ignored) :
    Explained (calls ++ [call]) identity before evidence (later ++ [call]) := by
  refine ⟨?_, h.exact, h.remembered, fun other hother ↦ ?_⟩
  · rw [h.split, List.append_assoc, List.cons_append]
  · rcases List.mem_append.mp hother with hother | hother
    · exact h.unopposed other hother
    · rw [List.mem_singleton.mp hother]
      exact hcall

theorem Recorded.concat {calls : List Call} (h : Recorded calls) (call : Call) :
    Recorded (calls ++ [call]) := by
  obtain ⟨references, hmem⟩ := h
  exact ⟨references, List.mem_append_left _ hmem⟩

namespace Cache

/-! ## Dropping -/

@[simp] theorem get?_drop (cache : Cache) (key key' : String) :
    (cache.drop key).entries.get? key' = if key' = key then none else cache.entries.get? key' :=
  OrderedMap.get?_delete cache.entries key key'

theorem mem_eligibleKeys_drop {cache : Cache} {key key' : String} :
    key' ∈ (cache.drop key).eligibleKeys ↔ key' ∈ cache.eligibleKeys ∧ key' ≠ key := by
  rw [drop, List.mem_filter, decide_eq_true_iff]

end Cache

/-- An entry that survives a call is justified by it, as long as the call does not speak against it. -/
theorem Justified.concat_entry {calls : List Call} {cache : Cache} (h : Justified calls cache)
    {key : String} {identity : Reference} (hentry : cache.entries.get? key = some identity)
    {call : Call} (hcall : call.Against identity → call.Ignored) :
    identity.key = key ∧ ∃ before evidence later,
      Explained (calls ++ [call]) identity before evidence later ∧
        (key ∈ cache.eligibleKeys → Recorded later) := by
  obtain ⟨hkey, before, evidence, later, hexplained, hrecorded⟩ := h.entries key identity hentry
  exact ⟨hkey, before, evidence, later ++ [call], hexplained.concat hcall,
    fun heligible ↦ (hrecorded heligible).concat call⟩

/-- A cache that a call leaves as it is stays justified when the call speaks against no entry. -/
theorem Justified.concat_self {calls : List Call} {cache : Cache} (h : Justified calls cache)
    {call : Call} (hcall : ∀ key identity, cache.entries.get? key = some identity →
      call.Against identity → call.Ignored) : Justified (calls ++ [call]) cache :=
  ⟨fun key identity hentry ↦ h.concat_entry hentry (hcall key identity hentry), h.eligible, h.bounded,
    h.closed⟩

/-- A key can be dropped by a call that speaks against no entry under another key. -/
theorem Justified.concat_drop {calls : List Call} {cache : Cache} (h : Justified calls cache)
    {key : String} {call : Call} (hcall : ∀ key' identity, key' ≠ key →
      cache.entries.get? key' = some identity → call.Against identity → call.Ignored) :
    Justified (calls ++ [call]) (cache.drop key) := by
  refine ⟨fun key' identity hentry ↦ ?_, fun key' heligible ↦ ?_, ?_, fun hinactive ↦ ?_⟩
  · rw [Cache.get?_drop] at hentry
    split at hentry
    · cases hentry
    · rename_i hne
      obtain ⟨hkey, before, evidence, later, hexplained, hrecorded⟩ :=
        h.concat_entry hentry (hcall key' identity hne hentry)
      exact ⟨hkey, before, evidence, later, hexplained, fun heligible ↦
        hrecorded (Cache.mem_eligibleKeys_drop.mp heligible).1⟩
  · obtain ⟨hmem, hne⟩ := Cache.mem_eligibleKeys_drop.mp heligible
    have hstored := OrderedMap.get?_isSome_iff _ |>.mpr (h.eligible key' hmem)
    rw [← OrderedMap.get?_isSome_iff, Cache.get?_drop, if_neg hne]
    exact hstored
  · exact Nat.le_trans (OrderedMap.size_delete_le cache.entries key) h.bounded
  · rw [Cache.drop, h.closed hinactive]
    rfl

/-! ## The steps -/

section Steps

variable {calls : List Call} {cache : Cache}

/-- An inactive cache stays justified by any call that leaves it as it is. -/
theorem Justified.concat_inactive (h : Justified calls cache) (hinactive : cache.active = false)
    (call : Call) : Justified (calls ++ [call]) cache := by
  refine h.concat_self fun key identity hentry ↦ ?_
  rw [h.closed hinactive, OrderedMap.get?_empty] at hentry
  cases hentry

/-- What is stored under a key is stored under its own. -/
theorem Justified.get?_eq (h : Justified calls cache) {key : String} {identity : Reference}
    (hentry : cache.entries.get? key = some identity) :
    cache.entries.get? identity.key = some identity := by
  rw [(h.entries key identity hentry).1, hentry]

theorem justified_getVerified (h : Justified calls cache) (reference : Reference) :
    Justified (calls ++ [.getVerified reference]) (cache.getVerified reference).2 := by
  rw [Cache.getVerified]
  split
  · rename_i hinactive
    exact h.concat_inactive hinactive _
  · split
    · rename_i hnone
      refine h.concat_self ?_
      rintro key identity hentry ⟨hkey, -⟩
      rw [hkey, h.get?_eq hentry] at hnone
      cases hnone
    · rename_i existing hexisting
      split
      · refine h.concat_drop ?_
        rintro key identity hne hentry ⟨hkey, -⟩
        exact absurd ((h.entries key identity hentry).1.symm.trans hkey.symm) hne
      · rename_i hsame
        refine h.concat_self ?_
        rintro key identity hentry ⟨hkey, hother⟩
        rw [hkey, h.get?_eq hentry] at hexisting
        simp only [not_or, not_not, ← Option.some.inj hexisting] at hsame
        obtain ⟨-, hkeys, hsizes, hhashes⟩ := hsame
        exact absurd (Reference.ext hkeys hsizes hhashes).symm hother

theorem justified_invalidateKey (h : Justified calls cache) (key : String) :
    Justified (calls ++ [.invalidateKey key]) (cache.invalidateKey key).2 := by
  rw [Cache.invalidateKey]
  split
  · rename_i hinactive
    exact h.concat_inactive hinactive _
  · split
    · rename_i hrefused
      refine h.concat_self fun key' identity hentry hkey ↦ ?_
      rcases hrefused with hempty | hnone
      · exact hempty
      · rw [show key = identity.key from hkey, h.get?_eq hentry] at hnone
        cases hnone
    · refine h.concat_drop fun key' identity hne hentry hkey ↦ ?_
      exact absurd ((h.entries key' identity hentry).1.symm.trans (Eq.symm hkey)) hne

/-- The reference that is listed for a key is the one that is stored under it. -/
theorem mem_of_listed {references : List Reference} {key : String} {identity : Reference}
    (hkey : identity.key = key) (h : listed references key identity = true) :
    identity ∈ references := by
  rw [listed, OrderedMap.get?_ofList] at h
  split at h
  · cases h
  · rename_i current hcurrent
    obtain ⟨pair, hfound, rfl⟩ := Option.map_eq_some_iff.mp hcurrent
    obtain ⟨reference, hmem, rfl⟩ :=
      List.mem_map.mp (List.mem_reverse.mp (List.mem_of_find?_eq_some hfound))
    have hname : reference.key = key := by simpa using List.find?_some hfound
    obtain ⟨hsize, hhash⟩ := of_decide_eq_true h
    have hsame : identity = reference := Reference.ext (hkey.trans hname.symm) hsize.symm hhash.symm
    rw [hsame]
    exact hmem

theorem justified_recordFinalizedDependencies (h : Justified calls cache)
    (references : List Reference) :
    Justified (calls ++ [.recordFinalizedDependencies references])
      (cache.recordFinalizedDependencies references) := by
  rw [Cache.recordFinalizedDependencies]
  split
  · rename_i hinactive
    exact h.concat_inactive hinactive _
  · rename_i hactive
    set kept := cache.entries.entries.filter fun (key, evidence) ↦ listed references key evidence
      with hkept
    have hstored : ∀ key identity, (key, identity) ∈ kept ↔
        cache.entries.get? key = some identity ∧ listed references key identity = true := by
      intro key identity
      rw [hkept, List.mem_filter, ← OrderedMap.get?_eq_some_iff]
    dsimp only
    refine ⟨fun key identity hentry ↦ ?_, fun key heligible ↦ ?_, ?_, fun hinactive ↦ ?_⟩
    · rw [OrderedMap.get?_filterKeys] at hentry
      split at hentry
      · rename_i hmem
        obtain ⟨⟨key', identity'⟩, hpair, rfl⟩ := List.mem_map.mp (of_decide_eq_true hmem)
        obtain ⟨hentry', hlisted⟩ := (hstored key' identity').mp hpair
        have hsame : identity' = identity := Option.some.inj (hentry'.symm.trans hentry)
        rw [hsame] at hlisted
        have hagainst : ¬(Call.recordFinalizedDependencies references).Against identity :=
          not_not.mpr (mem_of_listed (h.entries key' identity hentry).1 hlisted)
        obtain ⟨hkey, before, evidence, later, hexplained, -⟩ := h.entries key' identity hentry
        refine ⟨hkey, before, evidence, _, hexplained.concat fun h ↦ absurd h hagainst, fun _ ↦ ?_⟩
        exact ⟨references, List.mem_append_right _ (List.mem_singleton_self _)⟩
      · cases hentry
    · obtain ⟨⟨key', identity⟩, hpair, rfl⟩ := List.mem_map.mp heligible
      rw [← OrderedMap.get?_isSome_iff, OrderedMap.get?_filterKeys,
        if_pos (decide_eq_true heligible), ((hstored key' identity).mp hpair).1]
      rfl
    · exact Nat.le_trans (List.length_filter_le _ _) h.bounded
    · exact absurd hinactive hactive

/-- What is left under the key of an identity, once another one under it is forgotten, is that
identity. -/
theorem supersede_cases (h : Justified calls cache) (identity : Reference) :
    (cache.supersede identity = cache ∧
        ∀ prior, cache.entries.get? identity.key = some prior → prior = identity) ∨
      cache.supersede identity = cache.drop identity.key := by
  rw [Cache.supersede]
  split
  · rename_i hnone
    refine Or.inl ⟨rfl, fun prior hprior ↦ ?_⟩
    rw [hnone] at hprior
    cases hprior
  · rename_i prior hprior
    split
    · exact Or.inr rfl
    · rename_i hsame
      refine Or.inl ⟨rfl, fun prior' hprior' ↦ ?_⟩
      rw [not_or, not_not, not_not] at hsame
      rw [hprior] at hprior'
      rw [← Option.some.inj hprior']
      exact Reference.ext (h.entries _ prior hprior).1 hsame.1 hsame.2

/-- Storing an identity keeps a cache justified when nothing else is stored under its key and the
last call has remembered it. -/
theorem Justified.set {before : List Call} {evidence : Option Evidence} {identity : Reference}
    (h : Justified (before ++ [.remember identity evidence]) cache)
    (hexact : Evidence.Exact evidence identity)
    (hremembered : ((run before).remember identity evidence).1 = .ok true)
    (hprior : ∀ prior, cache.entries.get? identity.key = some prior → prior = identity)
    (hroom : cache.entries.get? identity.key = none →
      cache.entries.size < maxPruneV3RunLocalReferenceEvidenceEntries)
    (hactive : cache.active = true) :
    Justified (before ++ [.remember identity evidence])
      { cache with entries := cache.entries.set identity.key identity } := by
  refine ⟨fun key identity' hentry ↦ ?_, fun key heligible ↦ ?_, ?_, fun hinactive ↦ ?_⟩
  · rw [OrderedMap.get?_set] at hentry
    split at hentry
    · rename_i hkey
      rw [← Option.some.inj hentry, hkey]
      rcases hstored : cache.entries.get? identity.key with _ | prior
      · refine ⟨rfl, before, evidence, [], ⟨rfl, hexact, hremembered, nofun⟩, fun heligible ↦ ?_⟩
        exact absurd (h.eligible _ heligible) (OrderedMap.get?_eq_none_iff _ |>.mp hstored)
      · rw [hprior prior hstored] at hstored
        exact h.entries identity.key identity hstored
    · exact h.entries key identity' hentry
  · exact OrderedMap.mem_keys_set.mpr (Or.inr (h.eligible key heligible))
  · rcases hstored : cache.entries.get? identity.key with _ | prior
    · rw [OrderedMap.size_set_of_notMem identity (OrderedMap.get?_eq_none_iff _ |>.mp hstored)]
      exact hroom hstored
    · have hmem : identity.key ∈ cache.entries.keys := by
        rw [← OrderedMap.get?_isSome_iff, hstored]
        rfl
      rw [OrderedMap.size_set_of_mem identity hmem]
      exact h.bounded
  · exact absurd (hinactive.symm.trans hactive) Bool.false_ne_true

theorem justified_remember (h : Justified calls (run calls)) (reference : Reference)
    (evidence : Option Evidence) :
    Justified (calls ++ [.remember reference evidence])
      ((run calls).remember reference evidence).2 := by
  have hremember : (run calls).remember reference evidence = _ := rfl
  conv_rhs at hremember => rw [Cache.remember]
  split at hremember
  · rename_i hinactive
    rw [hremember]
    exact h.concat_inactive hinactive _
  · rename_i hactive
    split at hremember
    · rename_i message hrefused
      rw [hremember]
      refine h.concat_self fun key identity hentry hagainst ↦ ?_
      intro hexact
      rw [assertEvidence_eq_ok_iff.mpr ⟨hexact, rfl⟩] at hrefused
      cases hrefused
    · rename_i exact' haccepted
      obtain ⟨hexact, rfl⟩ := assertEvidence_eq_ok_iff.mp haccepted
      have hsuperseded : Justified (calls ++ [.remember exact' evidence])
          ((run calls).supersede exact') ∧
          (∀ prior, ((run calls).supersede exact').entries.get? exact'.key = some prior →
            prior = exact') ∧ ((run calls).supersede exact').active = true := by
        rcases supersede_cases h exact' with ⟨hself, hprior⟩ | hdrop
        · rw [hself]
          refine ⟨h.concat_self ?_, hprior, (Bool.not_eq_false _).mp hactive⟩
          rintro key identity hentry ⟨hkey, hother⟩
          exact absurd (hprior identity (hkey ▸ h.get?_eq hentry)).symm hother
        · rw [hdrop]
          refine ⟨h.concat_drop ?_, fun prior hprior ↦ ?_, (Bool.not_eq_false _).mp hactive⟩
          · rintro key identity hne hentry ⟨hkey, -⟩
            exact absurd ((h.entries key identity hentry).1.symm.trans hkey.symm) hne
          · rw [Cache.get?_drop, if_pos rfl] at hprior
            cases hprior
      obtain ⟨hjustified, hprior, hstillActive⟩ := hsuperseded
      dsimp only at hremember
      split at hremember
      · rw [hremember]
        exact hjustified
      · rename_i hroom
        rw [hremember]
        refine hjustified.set hexact (congrArg Prod.fst hremember) hprior (fun hnone ↦ ?_)
          hstillActive
        rw [hnone] at hroom
        exact Nat.lt_of_not_le fun hfull ↦ hroom ⟨rfl, hfull⟩

theorem justified_clear (calls : List Call) (cache : Cache) : Justified (calls ++ [.clear]) cache.clear :=
  ⟨nofun, nofun, Nat.zero_le _, fun _ ↦ rfl⟩

/-- **One step** keeps the cache justified by the calls. -/
theorem justified_step (h : Justified calls (run calls)) (call : Call) :
    Justified (calls ++ [call]) (step (run calls) call) := by
  rcases call with reference | ⟨reference, evidence⟩ | key | references | _ | _
  · exact justified_getVerified h reference
  · exact justified_remember h reference evidence
  · exact justified_invalidateKey h key
  · exact justified_recordFinalizedDependencies h references
  · have hself : Justified (calls ++ [.takeInvalidationCount]) (run calls) :=
      h.concat_self fun _ _ _ hnever ↦ hnever.elim
    exact ⟨hself.entries, hself.eligible, hself.bounded, hself.closed⟩
  · exact justified_clear calls (run calls)

/-- **Every run** leaves a cache that its calls justify. -/
theorem justified_run (calls : List Call) : Justified calls (run calls) := by
  induction calls using List.reverseRecOn with
  | nil => exact ⟨nofun, nofun, Nat.zero_le _, nofun⟩
  | append_singleton calls call ih =>
    rw [run_concat]
    exact justified_step ih call

end Steps

/-! ## What a hit says -/

/-- What is returned is what was asked for, and it is stored and eligible. -/
theorem getVerified_eq_some {cache : Cache} {reference found : Reference}
    (h : (cache.getVerified reference).1 = some found) :
    found = reference ∧ cache.entries.get? reference.key = some found ∧
      reference.key ∈ cache.eligibleKeys := by
  rw [Cache.getVerified] at h
  split at h
  · cases h
  · split at h
    · cases h
    · rename_i existing hexisting
      split at h
      · cases h
      · rename_i hsame
        simp only [not_or, not_not] at hsame
        obtain ⟨heligible, hkey, hsize, hhash⟩ := hsame
        rw [← Option.some.inj h]
        exact ⟨Reference.ext hkey hsize hhash, hexisting, heligible⟩

/-- Nothing at all has spoken against the identity since it was remembered. -/
def Unopposed (calls : List Call) (identity : Reference) : Prop :=
  ∃ before evidence later, Explained calls identity before evidence later ∧ Recorded later ∧
    ∀ call ∈ later, ¬call.Against identity

/-- A last call that speaks against the identity and does not remember it. -/
theorem not_unopposed_concat {calls : List Call} {call : Call} {identity : Reference}
    (hagainst : call.Against identity) (hother : ∀ evidence, call ≠ .remember identity evidence) :
    ¬Unopposed (calls ++ [call]) identity := by
  rintro ⟨before, evidence, later, hexplained, -, hnone⟩
  have hsplit := hexplained.split
  rcases List.eq_nil_or_concat later with rfl | ⟨earlier, last, rfl⟩
  · exact hother evidence (List.head_eq_of_cons_eq (List.append_inj' hsplit rfl).2)
  · rw [List.concat_eq_append] at hsplit hnone
    rw [← List.cons_append, ← List.append_assoc] at hsplit
    have hlast : call = last := List.head_eq_of_cons_eq (List.append_inj' hsplit rfl).2
    exact hnone last (List.mem_append_right _ (List.mem_singleton_self last)) (hlast ▸ hagainst)

def emptyKey : Reference := ⟨"", 2, "44136fa3"⟩
def manifest : Reference := ⟨"v3/manifest.json", 2, "44136fa3"⟩

end UkAqOps.SteadyState

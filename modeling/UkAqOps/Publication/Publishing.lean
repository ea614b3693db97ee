import UkAqOps.Publication.Finalize

/-!
# Publishing one entry

The program of one entry makes at most three calls, of which only the first is a put. If it ends
well, its history of answers shows that the entry was put, verified and recorded as durable; if it
ends in a failure, one of the answers was not a success.
-/

namespace UkAqOps.Publication

open Effects

/-! ## What a history shows -/

/-- The entry was put, the bytes that are stored were seen to be its own, and the evidence of this
was recorded. -/
def Durable (f : Finalizer) (entry : PublicationEntry) (h : List AdapterEvent) : Prop :=
  ∃ result : PutResult,
    (⟨.putIfChanged (putRequest entry), .ok (some result)⟩ : AdapterEvent) ∈ h ∧
    result.ok ≠ some false ∧
    (ProvesIdentity entry result ∨
      ∃ body, (⟨.getObject entry.key, .ok body⟩ : AdapterEvent) ∈ h ∧
        MatchesIdentity f.sha256Hex entry body) ∧
    (⟨.recordDurableEvidence (durableEvidence f.plan.scheduleSha256 entry result),
      .ok true⟩ : AdapterEvent) ∈ h

theorem Durable.mono {f : Finalizer} {entry : PublicationEntry} {h h' : List AdapterEvent}
    (hsub : ∀ e ∈ h, e ∈ h') (hdurable : Durable f entry h) : Durable f entry h' := by
  obtain ⟨result, hput, hok, hverified, hrecorded⟩ := hdurable
  refine ⟨result, hsub _ hput, hok, hverified.imp_right ?_, hsub _ hrecorded⟩
  rintro ⟨body, hget, hmatches⟩
  exact ⟨body, hsub _ hget, hmatches⟩

/-- The adapter did what it was called for. -/
def Succeeds (sha256Hex : List ℕ → String) (entry : PublicationEntry) : AdapterEvent → Prop
  | ⟨.putIfChanged _, .ok (some result)⟩ => result.ok ≠ some false
  | ⟨.getObject _, .ok body⟩ => MatchesIdentity sha256Hex entry body
  | ⟨.recordDurableEvidence _, .ok durable⟩ => durable = true
  | _ => False

/-- The calls of one entry: at most three, and a put only as the first. -/
def Allowed (h : List AdapterEvent) (c : Call) : Prop :=
  h.length < 3 ∧ (h ≠ [] → ∀ request, c ≠ .putIfChanged request)

/-- What the end of a publication says about its history. -/
def Published (f : Finalizer) (entry : PublicationEntry) (h : List AdapterEvent) :
    Except Failure PublishedEntry → Prop
  | .ok value => Durable f entry h ∧ ∃ result, value.evidence = publicationEvidence entry result
  | .error _ => ∃ e ∈ h, ¬Succeeds f.sha256Hex entry e

/-! ## The program -/

section Program

variable {f : Finalizer} {entry : PublicationEntry} {h : List AdapterEvent}

/-- After the put: the object is read back unless the put proves its identity. -/
theorem obeys_verifyPut {result : PutResult} (hh : h ≠ []) (hlength : h.length < 2)
    {Q : List AdapterEvent → Except Failure Unit → Prop}
    (hproved : ProvesIdentity entry result → Q h (.ok ()))
    (hread : ∀ body, MatchesIdentity f.sha256Hex entry body →
      Q (h ++ [⟨.getObject entry.key, .ok body⟩]) (.ok ()))
    (hfailed : ∀ e failure, ¬Succeeds f.sha256Hex entry e → Q (h ++ [e]) (.error failure)) :
    Obeys Allowed (verifyPut f.sha256Hex entry result) Q h := by
  rw [verifyPut]
  by_cases hproves : ProvesIdentity entry result
  · rw [if_pos hproves]
    exact hproved hproves
  · rw [if_neg hproves]
    refine wp_bind.mpr (obeys_await.mpr ⟨⟨by omega, fun _ request ↦ by simp⟩, fun r ↦ ?_⟩)
    rcases r with failure | body
    · exact hfailed _ _ (by simp [Succeeds])
    · refine wp_ofExcept.mpr ?_
      by_cases hmatches : MatchesIdentity f.sha256Hex entry body
      · rw [Except.refuseIf, if_neg (not_not.mpr hmatches)]
        exact hread body hmatches
      · rw [Except.refuseIf, if_pos hmatches]
        exact hfailed _ _ hmatches

/-- After the verification: the evidence is recorded. -/
theorem obeys_recordDurable {result : PutResult} (hh : h ≠ []) (hlength : h.length < 3)
    (hput : (⟨.putIfChanged (putRequest entry), .ok (some result)⟩ : AdapterEvent) ∈ h)
    (hok : result.ok ≠ some false)
    (hverified : ProvesIdentity entry result ∨
      ∃ body, (⟨.getObject entry.key, .ok body⟩ : AdapterEvent) ∈ h ∧
        MatchesIdentity f.sha256Hex entry body) :
    Obeys Allowed (do
        let durable ← Prog.await (.recordDurableEvidence
          (durableEvidence f.plan.scheduleSha256 entry result))
        Prog.ofExcept <| Except.refuseIf (¬durable)
          { message := s!"V3 durable publication evidence failed: {entry.key}" }
        return ⟨publicationEvidence entry result, publicationPutDisposition result⟩)
      (Published f entry) h := by
  refine wp_bind.mpr (obeys_await.mpr ⟨⟨hlength, fun _ request ↦ by simp⟩, fun r ↦ ?_⟩)
  rcases r with failure | durable
  · exact ⟨_, List.mem_append_right _ (List.mem_singleton.mpr rfl), by simp [Succeeds]⟩
  · refine wp_bind.mpr (wp_ofExcept.mpr ?_)
    by_cases hdurable : durable = true
    · rw [Except.refuseIf, if_neg (not_not.mpr hdurable)]
      subst hdurable
      refine ⟨⟨result, List.mem_append_left _ hput, hok, hverified.imp_right ?_, by simp⟩,
        result, rfl⟩
      rintro ⟨body, hget, hmatches⟩
      exact ⟨body, List.mem_append_left _ hget, hmatches⟩
    · rw [Except.refuseIf, if_pos hdurable]
      exact ⟨_, List.mem_append_right _ (List.mem_singleton.mpr rfl), hdurable⟩

/-- **The program of an entry keeps to its calls and ends as its history shows.** -/
theorem obeys_publishEntry (f : Finalizer) (entry : PublicationEntry) :
    Obeys Allowed (publishEntry f.sha256Hex f.plan.scheduleSha256 entry) (Published f entry) [] := by
  rw [publishEntry]
  refine wp_bind.mpr (obeys_await.mpr ⟨⟨by simp, fun h ↦ absurd rfl h⟩, fun r ↦ ?_⟩)
  rcases r with failure | answer
  · exact ⟨_, List.mem_singleton.mpr rfl, by simp [Succeeds]⟩
  refine wp_bind.mpr (wp_ofExcept.mpr ?_)
  rcases answer with _ | result
  · exact ⟨_, List.mem_singleton.mpr rfl, by simp [Succeeds]⟩
  rw [acceptedPut]
  by_cases hok : result.ok = some false
  · rw [if_pos hok]
    exact ⟨_, List.mem_singleton.mpr rfl, by simp [Succeeds, hok]⟩
  rw [if_neg hok]
  have hput : (⟨.putIfChanged (putRequest entry), .ok (some result)⟩ : AdapterEvent) ∈
      [(⟨.putIfChanged (putRequest entry), .ok (some result)⟩ : AdapterEvent)] :=
    List.mem_singleton.mpr rfl
  refine wp_bind.mpr (obeys_verifyPut (by simp) (by simp) ?_ ?_ ?_)
  · intro hproves
    exact obeys_recordDurable (by simp) (by simp) hput hok (Or.inl hproves)
  · intro body hmatches
    exact obeys_recordDurable (by simp) (by simp) (List.mem_append_left _ hput) hok
      (Or.inr ⟨body, by simp, hmatches⟩)
  · intro e failure hfails
    exact ⟨e, by simp, hfails⟩

end Program

end UkAqOps.Publication

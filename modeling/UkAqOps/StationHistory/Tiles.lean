import Mathlib.Order.CompletePartialOrder
import UkAqOps.StationHistory.AqiChunks
import UkAqOps.StationHistory.Hours
import UkAqOps.Aqi.Batching

/-!
# Tiles of a page

The hours of a page are those of its stable head and of the chunks behind it, each of which ends where
the one before started. A tile that keeps its bounds fits to the one before, whatever instants they
are. A long request has both its bounds rounded down: the start only makes the tile longer, but an
end that is not on the hour loses the last hour before it, which no other tile has.
-/

namespace UkAqOps.StationHistory

open Aqi Sorting

/-- What dates rely on: an instant that a date can hold is read back from its ISO text, and no text
is read as any other instant. -/
structure ReadsDates (host : WebHost) : Prop where
  dateParse_toISOString : ∀ t : ℤ, -8640000000000000 ≤ t → t ≤ 8640000000000000 →
    host.dateParse (toISOString t) = some t
  range : ∀ text t, host.dateParse text = some t → -8640000000000000 ≤ t ∧ t ≤ 8640000000000000

/-! ## The hours of a tile -/

theorem mem_canonicalAqiHourStarts {startMs endMs hour : ℤ} :
    hour ∈ canonicalAqiHourStarts startMs endMs ↔
      hour % hourMs = 0 ∧ startMs ≤ hour ∧ hour < endMs := by
  rw [canonicalAqiHourStarts]
  by_cases hempty : endMs ≤ startMs
  · rw [if_pos hempty]
    refine ⟨fun h ↦ absurd h List.not_mem_nil, fun h ↦ ?_⟩
    omega
  · rw [if_neg hempty, mem_hourCursors]
    simp only [hourMs, minuteMs]
    omega

theorem chunkKey_spec {host : WebHost} {chunk : ChunkRequest} {row : JsValue}
    {key : ℤ × ℤ × Pollutant × ℤ} (h : chunkKey host chunk row = some key) :
    key.2.2.2 % hourMs = 0 ∧ chunk.startMs ≤ key.2.2.2 ∧ key.2.2.2 < chunk.endMs := by
  rw [chunkKey] at h
  split at h
  · cases h
  · obtain ⟨hkey, hkept⟩ := Option.filter_eq_some_iff.mp h
    obtain ⟨timeseriesId, connectorId, pollutant, hour⟩ := key
    simp only [decide_eq_true_eq] at hkept
    refine ⟨?_, hkept.2.2.2⟩
    rw [aqiKey] at hkey
    obtain ⟨hour', hhour, hkey⟩ := Option.bind_eq_some_iff.mp hkey
    obtain ⟨_, -, hkey⟩ := Option.bind_eq_some_iff.mp hkey
    obtain ⟨_, -, hkey⟩ := Option.bind_eq_some_iff.mp hkey
    obtain ⟨_, -, hkey⟩ := Option.bind_eq_some_iff.mp hkey
    obtain ⟨parsed, -, hparsed⟩ := Option.map_eq_some_iff.mp hhour
    have hsame : hour' = hour := (Prod.mk.inj (Prod.mk.inj (Prod.mk.inj
      (Option.some.inj hkey)).2).2).2
    rw [← hsame, ← hparsed]
    exact Int.mul_emod_left _ _

/-- The rows that are kept lie in the chunk. -/
theorem mem_keys_addChunkRow {host : WebHost} {chunk : ChunkRequest} (sourceRows : List JsValue)
    (rows : ChunkRows) (h : ∀ key ∈ rows.1.keys, key.2.2.2 % hourMs = 0 ∧
      chunk.startMs ≤ key.2.2.2 ∧ key.2.2.2 < chunk.endMs) :
    ∀ key ∈ (sourceRows.foldl (addChunkRow host chunk) rows).1.keys, key.2.2.2 % hourMs = 0 ∧
      chunk.startMs ≤ key.2.2.2 ∧ key.2.2.2 < chunk.endMs := by
  induction sourceRows generalizing rows with
  | nil => exact h
  | cons row rest ih =>
    rw [List.foldl_cons]
    refine ih _ ?_
    rw [addChunkRow]
    split
    · exact h
    · rename_i key hkey
      dsimp only
      split
      · intro key' hkey'
        rcases OrderedMap.mem_keys_set.mp hkey' with rfl | hold
        · exact chunkKey_spec hkey
        · exact h key' hold
      · exact h

/-- **A chunk accounts for the clock hours from its start on, before its end**, whatever rows it is
given. -/
theorem mem_hours_buildAqiHistoryChunk {host : WebHost} {chunk : ChunkRequest} {payload : JsValue}
    {hour : ℤ} : hour ∈ (buildAqiHistoryChunk host chunk payload).hours ↔
      hour % hourMs = 0 ∧ chunk.startMs ≤ hour ∧ hour < chunk.endMs := by
  rw [AqiHistoryChunk.hours, Set.mem_setOf_eq, ← mem_canonicalAqiHourStarts]
  refine or_iff_right_of_imp fun hrow ↦ mem_canonicalAqiHourStarts.mpr ?_
  obtain ⟨row, hmem, rfl⟩ := List.mem_map.mp hrow
  rw [buildAqiHistoryChunk] at hmem
  obtain ⟨entry, hentry, rfl⟩ := List.mem_map.mp (mem_sortBy.mp hmem)
  exact mem_keys_addChunkRow _ (OrderedMap.empty, 0)
    (fun key hkey ↦ absurd hkey List.not_mem_nil) _ (List.mem_map_of_mem hentry)

/-! ## Requests that name a range -/

/-- The parameters that name the bounds agree on them, and each bound has a name that is read. -/
structure Names (searchParams : SearchParams) (startText endText : String) : Prop where
  start : ∀ key ∈ aqiHistoryStartKeys, ∀ value, searchParams key = some value → value = startText
  finish : ∀ key ∈ aqiHistoryEndKeys, ∀ value, searchParams key = some value → value = endText
  hasStart : searchParams "start_utc" = some startText ∨ searchParams "from_utc" = some startText
  hasEnd : searchParams "end_utc" = some endText ∨ searchParams "to_utc" = some endText

/-- The span of the request is long enough for its bounds to be rounded. -/
def IsLong (host : WebHost) (startText : String) (endMs : ℤ) : Prop :=
  ∃ startMs, parseIsoMsOrNull host (some startText) = some startMs ∧
    aqiHistoryCanonicalizeMinWindowMs ≤ endMs - startMs

section Reading

variable {host : WebHost} {searchParams : SearchParams} {startText : String} {endMs : ℤ}

/-- All names of a bound agree, so the first that is not blank is as good as any. -/
theorem parseIsoMsOrNull_getFirst {names : List String} {text : String}
    (hagree : ∀ key ∈ names, ∀ value, searchParams key = some value → value = text)
    (hsome : ∃ key ∈ names, searchParams key = some text) :
    parseIsoMsOrNull host (getFirstSearchParam searchParams names)
      = parseIsoMsOrNull host (some text) := by
  have hvalue : ∀ key ∈ names, ∀ value,
      (searchParams key).filter (fun value ↦ trimText value ≠ "") = some value → value = text :=
    fun key hkey value h ↦ hagree key hkey value (Option.filter_eq_some_iff.mp h).1
  rcases hfirst : getFirstSearchParam searchParams names with _ | value
  · obtain ⟨key, hkey, htext⟩ := hsome
    have hblank := List.findSome?_eq_none_iff.mp hfirst key hkey
    rw [htext, Option.filter_eq_none_iff] at hblank
    have htrim : trimText text = "" := by simpa using hblank text rfl
    have hempty : trimText "" = "" := by decide
    simp only [parseIsoMsOrNull, Option.getD_none, Option.getD_some, htrim, hempty, if_true]
  · obtain ⟨key, hkey, h⟩ := List.exists_of_findSome?_eq_some hfirst
    rw [hvalue key hkey value h]

theorem parseIsoMsOrNull_toISOString (hhost : ReadsDates host)
    (hend : -8640000000000000 ≤ endMs ∧ endMs ≤ 8640000000000000) :
    parseIsoMsOrNull host (some (toISOString endMs)) = some endMs := by
  simp only [parseIsoMsOrNull, Option.getD_some, trimText_toISOString]
  rw [if_neg (toISOString_ne_empty endMs), hhost.dateParse_toISOString endMs hend.1 hend.2]

/-- The bounds of a long request are rounded, those of any other are not. -/
theorem canonicalBounds_eq (hhost : ReadsDates host)
    (hnames : Names searchParams startText (toISOString endMs))
    (hend : -8640000000000000 ≤ endMs ∧ endMs ≤ 8640000000000000) :
    (¬IsLong host startText endMs ∧ canonicalBounds host searchParams = none) ∨
      ∃ startMs, parseIsoMsOrNull host (some startText) = some startMs ∧
        aqiHistoryCanonicalizeMinWindowMs ≤ endMs - startMs ∧
          canonicalBounds host searchParams
            = some (startMs / hourMs * hourMs, endMs / hourMs * hourMs) := by
  have hstart := @parseIsoMsOrNull_getFirst host searchParams aqiHistoryStartKeys startText
    hnames.start (hnames.hasStart.elim (fun h ↦ ⟨"start_utc", by decide, h⟩)
      (fun h ↦ ⟨"from_utc", by decide, h⟩))
  have hfinish := @parseIsoMsOrNull_getFirst host searchParams aqiHistoryEndKeys (toISOString endMs)
    hnames.finish (hnames.hasEnd.elim (fun h ↦ ⟨"end_utc", by decide, h⟩)
      (fun h ↦ ⟨"to_utc", by decide, h⟩))
  rw [parseIsoMsOrNull_toISOString hhost hend] at hfinish
  rw [canonicalBounds, hstart, hfinish]
  rcases hparsed : parseIsoMsOrNull host (some startText) with _ | startMs
  · refine Or.inl ⟨?_, rfl⟩
    rintro ⟨startMs, hsome, -⟩
    rw [hparsed] at hsome
    exact nomatch hsome
  · by_cases hlong : aqiHistoryCanonicalizeMinWindowMs ≤ endMs - startMs
    · refine Or.inr ⟨startMs, rfl, hlong, if_neg ?_⟩
      simp only [aqiHistoryCanonicalizeMinWindowMs, hourMs, minuteMs] at hlong ⊢
      omega
    · refine Or.inl ⟨?_, if_pos ?_⟩
      · rintro ⟨startMs', hsome, hlong'⟩
        rw [hparsed] at hsome
        exact hlong (Option.some.inj hsome ▸ hlong')
      · exact Or.inr (Or.inl (not_le.mp hlong))

/-- What a chunk that is accepted was asked for. -/
theorem bounds_of_parse {aqiChunkMaxHours : ℤ} {chunk : ChunkRequest}
    (h : parseAqiHistoryChunkRequest host aqiChunkMaxHours searchParams = .ok chunk) :
    isoMs host (eitherParam searchParams "start_utc" "from_utc") = some chunk.startMs ∧
      isoMs host (eitherParam searchParams "end_utc" "to_utc") = some chunk.endMs ∧
        chunk.startMs < chunk.endMs := by
  simp only [parseAqiHistoryChunkRequest] at h
  split at h
  · split at h
    · split at h
      · split at h
        · rename_i startMs hstart
          split at h
          · rename_i endMs hend
            split at h
            · split at h
              · obtain ⟨_, hbounds, h⟩ := Except.bind_eq_ok_iff.mp h
                obtain ⟨_, -, h⟩ := Except.bind_eq_ok_iff.mp h
                have hspan := Except.refuseIf_eq_ok_iff.mp hbounds
                rw [← Except.pure_eq_ok_iff.mp h]
                exact ⟨hstart, hend, not_le.mp fun hle ↦ hspan (Or.inl hle)⟩
              · exact nomatch h
            · exact nomatch h
          · exact nomatch h
        · exact nomatch h
      · exact nomatch h
    · exact nomatch h
  · exact nomatch h

/-- A bound that is set is read from either of its names. -/
theorem eitherParam_eq {first second text : String} (hne : text ≠ "")
    (hfirst : ∀ value, searchParams first = some value → value = text)
    (hsecond : ∀ value, searchParams second = some value → value = text)
    (hsome : searchParams first = some text ∨ searchParams second = some text) :
    eitherParam searchParams first second = some text := by
  rw [eitherParam]
  rcases h : searchParams first with _ | value
  · rw [h] at hsome
    exact hsome.resolve_left fun h ↦ nomatch h
  · rw [hfirst value h]
    simp [Option.filter, hne]

/-- The parameters of the bounds are kept, or rounded. -/
theorem canonicalizeAqiHistoryRequestUrl_eq (host : WebHost) (searchParams : SearchParams)
    (upstream : String) : ∃ normalized : SearchParams,
      (∀ key, key ≠ "format" → key ≠ aqiHistoryProxyContractParam →
        normalized key = searchParams key) ∧
      (∃ format ∈ ["tsv", "objects", "compact"], normalized "format" = some format) ∧
      canonicalizeAqiHistoryRequestUrl host searchParams upstream upstream
        = match canonicalBounds host normalized with
          | none => normalized
          | some (startMs, endMs) =>
            (normalized.setPresent aqiHistoryStartKeys (toISOString startMs)).setPresent
              aqiHistoryEndKeys (toISOString endMs) := by
  rw [canonicalizeAqiHistoryRequestUrl, if_neg (not_not.mpr rfl)]
  refine ⟨_, ?_, ?_, rfl⟩
  · exact fun key hformat hcontract ↦ (if_neg hformat).trans (if_neg hcontract)
  · refine ⟨_, ?_, if_pos rfl⟩
    split
    · simp
    · split <;> simp

/-- The request still names its bounds when its format has been set. -/
theorem Names.of_normalized {endText : String} (hnames : Names searchParams startText endText)
    {normalized : SearchParams} (hother : ∀ key, key ≠ "format" →
      key ≠ aqiHistoryProxyContractParam → normalized key = searchParams key) :
    Names normalized startText endText := by
  have hsame : ∀ key ∈ aqiHistoryStartKeys ++ aqiHistoryEndKeys,
      normalized key = searchParams key := fun key hkey ↦
    hother key (by rintro rfl; exact absurd hkey (by decide))
      (by rintro rfl; exact absurd hkey (by decide))
  refine ⟨fun key hkey ↦ ?_, fun key hkey ↦ ?_, ?_, ?_⟩
  · rw [hsame key (List.mem_append_left _ hkey)]
    exact hnames.start key hkey
  · rw [hsame key (List.mem_append_right _ hkey)]
    exact hnames.finish key hkey
  · rw [hsame "start_utc" (by decide), hsame "from_utc" (by decide)]
    exact hnames.hasStart
  · rw [hsame "end_utc" (by decide), hsame "to_utc" (by decide)]
    exact hnames.hasEnd

/-- **Where a chunk ends**: where it was asked to end, or, if the request is long, at the last hour
before. -/
theorem endMs_of_parse_canonicalize (hhost : ReadsDates host)
    (hnames : Names searchParams startText (toISOString endMs))
    (hend : -8640000000000000 ≤ endMs ∧ endMs ≤ 8640000000000000) {upstream : String}
    {aqiChunkMaxHours : ℤ} {chunk : ChunkRequest}
    (h : parseAqiHistoryChunkRequest host aqiChunkMaxHours
      (canonicalizeAqiHistoryRequestUrl host searchParams upstream upstream) = .ok chunk) :
    (IsLong host startText endMs ∧ chunk.endMs = endMs / hourMs * hourMs) ∨
      (¬IsLong host startText endMs ∧ chunk.endMs = endMs) := by
  obtain ⟨-, hparsed, -⟩ := bounds_of_parse h
  obtain ⟨normalized, hother, -, hcanonical⟩ :=
    canonicalizeAqiHistoryRequestUrl_eq host searchParams upstream
  rw [hcanonical] at hparsed
  have hnormal := hnames.of_normalized hother
  rcases canonicalBounds_eq hhost hnormal hend with ⟨hshort, hbounds⟩ | ⟨startMs, hstart, hlong, hbounds⟩
  · refine Or.inr ⟨hshort, ?_⟩
    simp only [hbounds] at hparsed
    rw [eitherParam_eq (toISOString_ne_empty endMs) (hnormal.finish _ (by decide))
      (hnormal.finish _ (by decide)) hnormal.hasEnd, isoMs, Option.getD_some,
      hhost.dateParse_toISOString _ hend.1 hend.2] at hparsed
    exact (Option.some.inj hparsed).symm
  · refine Or.inl ⟨⟨startMs, hstart, hlong⟩, ?_⟩
    simp only [hbounds] at hparsed
    have hset : ∀ key ∈ aqiHistoryEndKeys, ∀ value,
        ((normalized.setPresent aqiHistoryStartKeys (toISOString (startMs / hourMs * hourMs))).setPresent
          aqiHistoryEndKeys (toISOString (endMs / hourMs * hourMs))) key = some value →
            value = toISOString (endMs / hourMs * hourMs) := by
      intro key hkey value hvalue
      rw [SearchParams.setPresent] at hvalue
      split at hvalue
      · exact (Option.some.inj hvalue).symm
      · rename_i habsent
        rw [hvalue] at habsent
        exact absurd ⟨hkey, rfl⟩ habsent
    have hpresent : ∀ key ∈ aqiHistoryEndKeys, normalized key = some (toISOString endMs) →
        ((normalized.setPresent aqiHistoryStartKeys (toISOString (startMs / hourMs * hourMs))).setPresent
          aqiHistoryEndKeys (toISOString (endMs / hourMs * hourMs))) key
            = some (toISOString (endMs / hourMs * hourMs)) := by
      intro key hkey hvalue
      refine if_pos ⟨hkey, ?_⟩
      rw [SearchParams.setPresent]
      split
      · rfl
      · rw [hvalue]
        rfl
    rw [eitherParam_eq (toISOString_ne_empty _) (hset _ (by decide)) (hset _ (by decide))
      (hnormal.hasEnd.imp (hpresent _ (by decide)) (hpresent _ (by decide))), isoMs, Option.getD_some,
      hhost.dateParse_toISOString] at hparsed
    · exact (Option.some.inj hparsed).symm
    · simp only [hourMs, minuteMs]
      omega
    · simp only [hourMs, minuteMs]
      omega

end Reading

/-! ## Walking backwards -/

/-- A chunk of a page: the request for it, what it was parsed as, and what it was built from. -/
structure AqiStep where
  searchParams : SearchParams
  startText : String
  /-- The instant that the request ends at. -/
  endMs : ℤ
  chunk : ChunkRequest
  payload : JsValue

def AqiStep.built (host : WebHost) (step : AqiStep) : AqiHistoryChunk :=
  buildAqiHistoryChunk host step.chunk step.payload

/-- Each request ends where the chunk before says that the next older one does, passes through the
proxy and is accepted. -/
def Walk (host : WebHost) (upstream : String) (aqiChunkMaxHours : ℤ) : String → List AqiStep → Prop
  | _, [] => True
  | endText, step :: rest =>
    host.dateParse endText = some step.endMs ∧ Names step.searchParams step.startText endText ∧
      parseAqiHistoryChunkRequest host aqiChunkMaxHours (canonicalizeAqiHistoryRequestUrl host
        step.searchParams upstream upstream) = .ok step.chunk ∧
      Walk host upstream aqiChunkMaxHours (step.built host).nextOlderChunkEndUtc rest

/-- Where the last chunk starts. -/
def lastStart (boundMs : ℤ) (steps : List AqiStep) : ℤ :=
  (steps.getLast?.map fun step ↦ step.chunk.startMs).getD boundMs

theorem lastStart_cons (boundMs : ℤ) (step : AqiStep) (rest : List AqiStep) :
    lastStart boundMs (step :: rest) = lastStart step.chunk.startMs rest := by
  rw [lastStart, lastStart]
  rcases rest with _ | ⟨next, rest⟩
  · rfl
  · rw [List.getLast?_cons_cons, List.getLast?_eq_some_getLast (List.cons_ne_nil next rest)]
    rfl

section Page

variable {host : WebHost} {upstream : String} {aqiChunkMaxHours boundMs : ℤ}
variable {step : AqiStep} {steps : List AqiStep}

/-- The bounds of one chunk of a walk. -/
theorem Walk.step_bounds (hhost : ReadsDates host)
    (hbound : -8640000000000000 ≤ boundMs ∧ boundMs ≤ 8640000000000000)
    (h : Walk host upstream aqiChunkMaxHours (toISOString boundMs) (step :: steps)) :
    step.endMs = boundMs ∧ step.chunk.startMs < step.chunk.endMs ∧
      (-8640000000000000 ≤ step.chunk.startMs ∧ step.chunk.startMs ≤ 8640000000000000) ∧
      ((IsLong host step.startText step.endMs ∧ step.chunk.endMs = boundMs / hourMs * hourMs) ∨
        (¬IsLong host step.startText step.endMs ∧ step.chunk.endMs = boundMs)) ∧
      Walk host upstream aqiChunkMaxHours (toISOString step.chunk.startMs) steps := by
  obtain ⟨hend, hnames, hparse, hrest⟩ := h
  rw [hhost.dateParse_toISOString boundMs hbound.1 hbound.2] at hend
  have hsame := Option.some.inj hend
  obtain ⟨hstart, -, hlt⟩ := bounds_of_parse hparse
  refine ⟨hsame.symm, hlt, hhost.range _ _ hstart, ?_, hrest⟩
  rw [← hsame]
  exact endMs_of_parse_canonicalize hhost hnames hbound hparse

theorem mem_built_hours {hour : ℤ} : hour ∈ (step.built host).hours ↔
    hour % hourMs = 0 ∧ step.chunk.startMs ≤ hour ∧ hour < step.chunk.endMs :=
  mem_hours_buildAqiHistoryChunk

/-- No chunk of a walk reaches beyond where the walk starts. -/
theorem Walk.mem_hours (hhost : ReadsDates host)
    (hbound : -8640000000000000 ≤ boundMs ∧ boundMs ≤ 8640000000000000)
    (h : Walk host upstream aqiChunkMaxHours (toISOString boundMs) steps) :
    lastStart boundMs steps ≤ boundMs ∧ ∀ step ∈ steps, ∀ hour ∈ (step.built host).hours,
      hour % hourMs = 0 ∧ lastStart boundMs steps ≤ hour ∧ hour < boundMs := by
  induction steps generalizing boundMs with
  | nil => exact ⟨le_refl _, fun _ hstep ↦ absurd hstep List.not_mem_nil⟩
  | cons step rest ih =>
    obtain ⟨-, hlt, hrange, hend, hrest⟩ := h.step_bounds hhost hbound
    obtain ⟨hlast, hhours⟩ := ih hrange hrest
    have hle : step.chunk.endMs ≤ boundMs := by
      rcases hend with ⟨-, hend⟩ | ⟨-, hend⟩
      · rw [hend]
        exact Int.ediv_mul_le _ (by decide)
      · exact hend.le
    rw [lastStart_cons]
    refine ⟨by omega, List.forall_mem_cons.mpr ⟨fun hour hhour ↦ ?_, fun other hother hour hhour ↦ ?_⟩⟩
    · obtain ⟨haligned, hlower, hupper⟩ := mem_built_hours.mp hhour
      exact ⟨haligned, by omega, by omega⟩
    · obtain ⟨haligned, hlower, hupper⟩ := hhours other hother hour hhour
      exact ⟨haligned, hlower, by omega⟩

/-- **The chunks of a walk never overlap.** -/
theorem Walk.pairwise_disjoint (hhost : ReadsDates host)
    (hbound : -8640000000000000 ≤ boundMs ∧ boundMs ≤ 8640000000000000)
    (h : Walk host upstream aqiChunkMaxHours (toISOString boundMs) steps) :
    (steps.map fun step ↦ (step.built host).hours).Pairwise Disjoint := by
  induction steps generalizing boundMs with
  | nil => exact List.Pairwise.nil
  | cons step rest ih =>
    obtain ⟨-, -, hrange, -, hrest⟩ := h.step_bounds hhost hbound
    refine List.pairwise_cons.mpr ⟨fun hours hmem ↦ ?_, ih hrange hrest⟩
    obtain ⟨other, hother, rfl⟩ := List.mem_map.mp hmem
    refine Set.disjoint_left.mpr fun hour hhour hhour' ↦ ?_
    have hupper := ((hrest.mem_hours hhost hrange).2 other hother hour hhour').2.2
    have hlower := (mem_built_hours.mp hhour).2.1
    omega

/-- **The chunks of a walk leave out no hour exactly when every long request ends on the hour.** -/
theorem Walk.covers_iff (hhost : ReadsDates host)
    (hbound : -8640000000000000 ≤ boundMs ∧ boundMs ≤ 8640000000000000)
    (h : Walk host upstream aqiChunkMaxHours (toISOString boundMs) steps) :
    (∀ hour, hour % hourMs = 0 → lastStart boundMs steps ≤ hour → hour < boundMs →
      ∃ step ∈ steps, hour ∈ (step.built host).hours) ↔
    ∀ step ∈ steps, IsLong host step.startText step.endMs → step.endMs % hourMs = 0 := by
  induction steps generalizing boundMs with
  | nil =>
    refine ⟨fun _ step hstep ↦ absurd hstep List.not_mem_nil, fun _ hour _ hlower hupper ↦ ?_⟩
    exact absurd hupper (not_lt.mpr hlower)
  | cons step rest ih =>
    obtain ⟨hsame, hlt, hrange, hend, hrest⟩ := h.step_bounds hhost hbound
    obtain ⟨hlast, hhours⟩ := hrest.mem_hours hhost hrange
    rw [List.forall_mem_cons, lastStart_cons, ← ih hrange hrest]
    constructor
    · intro hcovered
      refine ⟨fun hlong ↦ ?_, fun hour haligned hlower hupper ↦ ?_⟩
      · -- otherwise the last hour before the bound is in no chunk
        rw [hsame]
        by_contra hoff
        have hfloor := hend.resolve_right fun hshort ↦ hshort.1 hlong
        obtain ⟨other, hother, hhour⟩ := hcovered (boundMs / hourMs * hourMs)
          (Int.mul_emod_left _ _) (by omega) (by
            have hsplit := Int.mul_ediv_add_emod boundMs hourMs
            have hnonneg := Int.emod_nonneg boundMs (show hourMs ≠ 0 by decide)
            rw [mul_comm] at hsplit
            omega)
        rcases List.mem_cons.mp hother with rfl | hother
        · have hupper := (mem_built_hours.mp hhour).2.2
          omega
        · have hupper := (hhours other hother _ hhour).2.2
          omega
      · obtain ⟨other, hother, hhour⟩ := hcovered hour haligned hlower (by
          rcases hend with ⟨-, hend⟩ | ⟨-, hend⟩
          · have hle := Int.ediv_mul_le boundMs (show hourMs ≠ 0 by decide)
            omega
          · omega)
        rcases List.mem_cons.mp hother with rfl | hother
        · have hstart := (mem_built_hours.mp hhour).2.1
          omega
        · exact ⟨other, hother, hhour⟩
    · rintro ⟨hlong, hcovered⟩ hour haligned hlower hupper
      have hend' : step.chunk.endMs = boundMs := by
        rcases hend with ⟨hisLong, hend⟩ | ⟨-, hend⟩
        · rw [hend]
          exact Int.ediv_mul_cancel (Int.dvd_of_emod_eq_zero (hsame ▸ hlong hisLong))
        · exact hend
      by_cases hin : step.chunk.startMs ≤ hour
      · exact ⟨step, List.mem_cons_self, mem_built_hours.mpr ⟨haligned, hin, by omega⟩⟩
      · obtain ⟨other, hother, hhour⟩ := hcovered hour haligned hlower (not_le.mp hin)
        exact ⟨other, List.mem_cons_of_mem _ hother, hhour⟩

end Page

/-- The hours of the stable head. -/
def HeadBounds.hours (bounds : HeadBounds) : Set ℤ :=
  {hour | hour ∈ canonicalAqiHourStarts bounds.headStartMs bounds.headEndMs}

/-- A page shows every hour once: no hour is in two tiles, and each hour from the start of the last
chunk to the end of the request is in one. -/
def ShowsEveryHourOnce (host : WebHost) (bounds : HeadBounds) (steps : List AqiStep) : Prop :=
  (bounds.hours :: steps.map fun step ↦ (step.built host).hours).Pairwise Disjoint ∧
    ∀ hour, (hour ∈ bounds.hours ∨ ∃ step ∈ steps, hour ∈ (step.built host).hours) ↔
      hour % hourMs = 0 ∧ lastStart bounds.headStartMs steps ≤ hour ∧ hour < bounds.headEndMs

/-- The instants of a series request. -/
theorem bounds_of_resolve {host : WebHost} {searchParams : SearchParams} {request : SeriesRequest}
    (h : resolveStationSeriesRequest host searchParams = some request) :
    isoMs host (searchParams "start_utc") = some request.startMs ∧
      isoMs host (searchParams "end_utc") = some request.endMs ∧ request.startMs < request.endMs := by
  rw [resolveStationSeriesRequest] at h
  obtain ⟨_, -, h⟩ := Option.bind_eq_some_iff.mp h
  obtain ⟨_, -, h⟩ := Option.bind_eq_some_iff.mp h
  obtain ⟨startMs, hstart, h⟩ := Option.bind_eq_some_iff.mp h
  obtain ⟨endMs, hend, h⟩ := Option.bind_eq_some_iff.mp h
  obtain ⟨_, -, h⟩ := Option.bind_eq_some_iff.mp h
  obtain ⟨_, -, h⟩ := Option.bind_eq_some_iff.mp h
  simp only [Option.ite_none_left_eq_some] at h
  obtain ⟨hvalid, h⟩ := h
  rw [← Option.some.inj h]
  exact ⟨hstart, hend, not_le.mp fun hle ↦ hvalid (Or.inr (Or.inl hle))⟩

/-- The tiles of a page behind a head that starts at an instant. -/
theorem showsEveryHourOnce_iff_of_walk {host : WebHost} (hhost : ReadsDates host)
    {bounds : HeadBounds} (hbound : -8640000000000000 ≤ bounds.headStartMs ∧
      bounds.headStartMs ≤ 8640000000000000) (hlt : bounds.headStartMs < bounds.headEndMs)
    {upstream : String} {aqiChunkMaxHours : ℤ} {steps : List AqiStep}
    (hwalk : Walk host upstream aqiChunkMaxHours (toISOString bounds.headStartMs) steps) :
    ShowsEveryHourOnce host bounds steps ↔
      ∀ step ∈ steps, IsLong host step.startText step.endMs → step.endMs % hourMs = 0 := by
  obtain ⟨hlast, hhours⟩ := hwalk.mem_hours hhost hbound
  have hhead : ∀ hour, hour ∈ bounds.hours ↔
      hour % hourMs = 0 ∧ bounds.headStartMs ≤ hour ∧ hour < bounds.headEndMs :=
    fun hour ↦ mem_canonicalAqiHourStarts
  rw [← hwalk.covers_iff hhost hbound]
  constructor
  · rintro ⟨-, hcovered⟩ hour haligned hlower hupper
    refine ((hcovered hour).mpr ⟨haligned, hlower, hupper.trans hlt⟩).resolve_left fun hmem ↦ ?_
    exact absurd ((hhead hour).mp hmem).2.1 (not_le.mpr hupper)
  · intro hcovered
    refine ⟨List.pairwise_cons.mpr ⟨fun hours hmem ↦ ?_, hwalk.pairwise_disjoint hhost hbound⟩,
      fun hour ↦ ⟨?_, ?_⟩⟩
    · obtain ⟨step, hstep, rfl⟩ := List.mem_map.mp hmem
      refine Set.disjoint_left.mpr fun hour hin hin' ↦ ?_
      exact absurd ((hhead hour).mp hin).2.1 (not_le.mpr (hhours step hstep hour hin').2.2)
    · rintro (hin | ⟨step, hstep, hin⟩)
      · obtain ⟨haligned, hlower, hupper⟩ := (hhead hour).mp hin
        exact ⟨haligned, hlast.trans hlower, hupper⟩
      · obtain ⟨haligned, hlower, hupper⟩ := hhours step hstep hour hin
        exact ⟨haligned, hlower, hupper.trans hlt⟩
    · rintro ⟨haligned, hlower, hupper⟩
      by_cases hin : bounds.headStartMs ≤ hour
      · exact Or.inl ((hhead hour).mpr ⟨haligned, hin, hupper⟩)
      · exact Or.inr (hcovered hour haligned hlower (not_le.mp hin))

/-- The head of a series request starts at an instant that a date can hold. -/
theorem resolveStableHeadBounds_spec {host : WebHost} (hhost : ReadsDates host)
    {searchParams : SearchParams} {request : SeriesRequest}
    (hrequest : resolveStationSeriesRequest host searchParams = some request) {maxHours : ℤ}
    (hmax : 0 < maxHours) :
    (-8640000000000000 ≤ (resolveStableHeadBounds request.startMs request.endMs maxHours).headStartMs ∧
      (resolveStableHeadBounds request.startMs request.endMs maxHours).headStartMs
        ≤ 8640000000000000) ∧
      (resolveStableHeadBounds request.startMs request.endMs maxHours).headStartMs
        < (resolveStableHeadBounds request.startMs request.endMs maxHours).headEndMs := by
  obtain ⟨hstart, hend, hlt⟩ := bounds_of_resolve hrequest
  have hstart := hhost.range _ _ hstart
  have hend := hhost.range _ _ hend
  rw [resolveStableHeadBounds, headStartMs]
  simp only [hourMs, minuteMs]
  omega

/-- **A page shows every hour once exactly when every request that is long enough to be rounded ends
on the hour.** -/
theorem showsEveryHourOnce_iff {host : WebHost} (hhost : ReadsDates host)
    {searchParams : SearchParams} {request : SeriesRequest}
    (hrequest : resolveStationSeriesRequest host searchParams = some request) {maxHours : ℤ}
    (hmax : 0 < maxHours) {upstream : String} {aqiChunkMaxHours : ℤ} {steps : List AqiStep}
    (hwalk : Walk host upstream aqiChunkMaxHours (toISOString
      (resolveStableHeadBounds request.startMs request.endMs maxHours).headStartMs) steps) :
    ShowsEveryHourOnce host (resolveStableHeadBounds request.startMs request.endMs maxHours) steps ↔
      ∀ step ∈ steps, IsLong host step.startText step.endMs → step.endMs % hourMs = 0 := by
  obtain ⟨hbound, hlt⟩ := resolveStableHeadBounds_spec hhost hrequest hmax
  exact showsEveryHourOnce_iff_of_walk hhost hbound hlt hwalk

/-! ### A head that ends at half past -/

open Classical in
/-- A host that reads exactly the ISO texts of instants. -/
noncomputable def exactWebHost : WebHost :=
  { isoHost with
    dateParse := fun text ↦
      if h : ∃ t : ℤ, (-8640000000000000 ≤ t ∧ t ≤ 8640000000000000) ∧ toISOString t = text then
        some h.choose
      else none
    number := fun text ↦
      if text.toList ≠ [] ∧ text.toList.all Char.isDigit then some (decimalOf text.toList) else none
    toUpperCase := String.toUpper
    toLowerCase := String.toLower }

open Classical in
theorem readsDates_exactWebHost : ReadsDates exactWebHost := by
  refine ⟨fun t hlow hhigh ↦ ?_, fun text t h ↦ ?_⟩
  · have hexists : ∃ t' : ℤ, (-8640000000000000 ≤ t' ∧ t' ≤ 8640000000000000) ∧
        toISOString t' = toISOString t := ⟨t, ⟨hlow, hhigh⟩, rfl⟩
    refine (dif_pos hexists).trans (congrArg some ?_)
    exact toISOString_injOn hexists.choose_spec.1 ⟨hlow, hhigh⟩ hexists.choose_spec.2
  · change (if h : ∃ t : ℤ, (-8640000000000000 ≤ t ∧ t ≤ 8640000000000000) ∧ toISOString t = text then
        some h.choose else none) = some t at h
    split at h
    · rename_i hexists
      rw [← Option.some.inj h]
      exact hexists.choose_spec.1
    · exact nomatch h

/-- A request of a series of particulates from 10:30 on 1 January 2024 on, up to 10:30 on 10 January,
and one of the chunk of the first four days. -/
def halfPastParams (key : String) : Option String :=
  if key = "timeseries_id" then some "7"
  else if key = "connector_id" then some "3"
  else if key = "pollutant" then some "pm25"
  else if key = "start_utc" then some (toISOString 1704105000000)
  else if key = "end_utc" then some (toISOString 1704882600000)
  else none

def halfPastChunkParams (key : String) : Option String :=
  if key = "end_utc" ∨ key = "stable_head_start_utc" then some (toISOString 1704450600000)
  else halfPastParams key

/-- A chunk of the page, if its request is accepted. -/
def halfPastSteps (chunk : ChunkRequest) : List AqiStep :=
  [{ searchParams := halfPastChunkParams
     startText := toISOString 1704105000000
     endMs := 1704450600000
     chunk
     payload := .null }]

theorem resolve_halfPast : ∃ request,
    resolveStationSeriesRequest exactWebHost halfPastParams = some request ∧
      request.startMs = 1704105000000 ∧ request.endMs = 1704882600000 := by
  have hid : positiveInt exactWebHost (halfPastParams "timeseries_id") = some 7 := by decide +kernel
  have hpollutant : normalizePollutantCode ((halfPastParams "pollutant").getD "") = some .pm25 := by
    decide +kernel
  have hstart : isoMs exactWebHost (halfPastParams "start_utc") = some 1704105000000 :=
    readsDates_exactWebHost.dateParse_toISOString _ (by decide) (by decide)
  have hend : isoMs exactWebHost (halfPastParams "end_utc") = some 1704882600000 :=
    readsDates_exactWebHost.dateParse_toISOString _ (by decide) (by decide)
  have hobservations : responsePartFlag exactWebHost halfPastParams "include_observations"
      = some true := by decide +kernel
  have haqi : responsePartFlag exactWebHost halfPastParams "include_aqi" = some true := by
    decide +kernel
  have hconnector : positiveInt exactWebHost (some (trimText ((halfPastParams "connector_id").getD "")))
      = some 3 := by decide +kernel
  have hsome : ∃ request,
      resolveStationSeriesRequest exactWebHost halfPastParams = some request := by
    rw [resolveStationSeriesRequest, hid, hpollutant, hstart, hend, hobservations, haqi]
    simp only [Option.bind_eq_bind, Option.bind_some, hconnector]
    exact ⟨_, if_neg (by decide +kernel)⟩
  obtain ⟨request, hrequest⟩ := hsome
  obtain ⟨hstart', hend', -⟩ := bounds_of_resolve hrequest
  rw [hstart] at hstart'
  rw [hend] at hend'
  exact ⟨request, hrequest, (Option.some.inj hstart').symm, (Option.some.inj hend').symm⟩

/-- What it takes for a chunk to be accepted. -/
theorem exists_parse {host : WebHost} {aqiChunkMaxHours : ℤ} {searchParams : SearchParams}
    {timeseriesId connectorId startMs endMs stableHeadStartMs : ℤ} {pollutant : Pollutant}
    {format : String} (hid : positiveInt host (searchParams "timeseries_id") = some timeseriesId)
    (hconnector : positiveInt host (searchParams "connector_id") = some connectorId)
    (hpollutant : normalizePollutantCode ((searchParams "pollutant").getD "") = some pollutant)
    (hstart : isoMs host (eitherParam searchParams "start_utc" "from_utc") = some startMs)
    (hend : isoMs host (eitherParam searchParams "end_utc" "to_utc") = some endMs)
    (hhead : isoMs host (searchParams "stable_head_start_utc") = some stableHeadStartMs)
    (hformat : formatName host (((searchParams "format").filter (· ≠ "")).getD "compact")
      = some format)
    (hspan : ¬(endMs ≤ startMs ∨ aqiChunkHours aqiChunkMaxHours * hourMs < endMs - startMs))
    (hbefore : ¬stableHeadStartMs < endMs) :
    ∃ chunk, parseAqiHistoryChunkRequest host aqiChunkMaxHours searchParams = .ok chunk := by
  simp only [parseAqiHistoryChunkRequest, hid, hconnector, hpollutant, hstart, hend, hhead, hformat]
  rw [Except.refuseIf_neg hspan, Except.ok_bind, Except.refuseIf_neg hbefore, Except.ok_bind]
  exact ⟨_, rfl⟩

theorem names_halfPast : Names halfPastChunkParams (toISOString 1704105000000)
    (toISOString 1704450600000) := by
  have hends : halfPastChunkParams "end_utc" = some (toISOString 1704450600000) := rfl
  refine ⟨?_, ?_, Or.inl rfl, Or.inl rfl⟩
  · intro key hkey value hvalue
    simp only [aqiHistoryStartKeys, List.mem_cons, List.not_mem_nil, or_false] at hkey
    rcases hkey with rfl | rfl | rfl | rfl
    · exact nomatch hvalue
    · exact (Option.some.inj hvalue).symm
    · exact nomatch hvalue
    · exact nomatch hvalue
  · intro key hkey value hvalue
    simp only [aqiHistoryEndKeys, List.mem_cons, List.not_mem_nil, or_false] at hkey
    rcases hkey with rfl | rfl | rfl | rfl
    · exact nomatch hvalue
    · exact (Option.some.inj hvalue).symm
    · exact nomatch hvalue
    · exact nomatch hvalue

theorem isLong_halfPast : IsLong exactWebHost (toISOString 1704105000000) 1704450600000 :=
  ⟨1704105000000, parseIsoMsOrNull_toISOString readsDates_exactWebHost (by decide), by decide⟩

theorem walk_halfPast : ∃ chunk, Walk exactWebHost "aqi" 0 (toISOString 1704450600000)
    (halfPastSteps chunk) := by
  have hreads := readsDates_exactWebHost
  obtain ⟨normalized, hother, ⟨format, hformat, hformatAt⟩, hcanonical⟩ :=
    canonicalizeAqiHistoryRequestUrl_eq exactWebHost halfPastChunkParams "aqi"
  have hkept : ∀ key, key ≠ "format" → key ≠ aqiHistoryProxyContractParam →
      key ∉ aqiHistoryStartKeys → key ∉ aqiHistoryEndKeys →
        canonicalizeAqiHistoryRequestUrl exactWebHost halfPastChunkParams "aqi" "aqi" key
          = halfPastChunkParams key := by
    intro key hkey hcontract hstart hend
    rw [hcanonical, ← hother key hkey hcontract]
    rcases canonicalBounds exactWebHost normalized with _ | ⟨startMs, endMs⟩
    · rfl
    · exact (if_neg fun h ↦ hend h.1).trans (if_neg fun h ↦ hstart h.1)
  have hbounds : canonicalBounds exactWebHost normalized = some (1704103200000, 1704448800000) := by
    rcases canonicalBounds_eq hreads (names_halfPast.of_normalized hother) (by decide) with
      ⟨hshort, -⟩ | ⟨startMs, hstart, -, hbounds⟩
    · exact absurd isLong_halfPast hshort
    · rw [parseIsoMsOrNull_toISOString hreads (by decide)] at hstart
      rw [hbounds, ← Option.some.inj hstart]
      rfl
  simp only [hbounds] at hcanonical
  have hstartAt : canonicalizeAqiHistoryRequestUrl exactWebHost halfPastChunkParams "aqi" "aqi"
      "start_utc" = some (toISOString 1704103200000) := by
    rw [hcanonical]
    refine (if_neg fun h ↦ absurd h.1 (by decide)).trans (if_pos ⟨by decide, ?_⟩)
    rw [hother _ (by decide) (by decide)]
    rfl
  have hendAt : canonicalizeAqiHistoryRequestUrl exactWebHost halfPastChunkParams "aqi" "aqi"
      "end_utc" = some (toISOString 1704448800000) := by
    rw [hcanonical]
    refine if_pos ⟨by decide, ?_⟩
    refine (congrArg Option.isSome (if_neg fun h ↦ absurd h.1 (by decide))).trans ?_
    rw [hother _ (by decide) (by decide)]
    rfl
  have hformatKept : canonicalizeAqiHistoryRequestUrl exactWebHost halfPastChunkParams "aqi" "aqi"
      "format" = some format := by
    rw [hcanonical]
    exact ((if_neg fun h ↦ absurd h.1 (by decide)).trans
      (if_neg fun h ↦ absurd h.1 (by decide))).trans hformatAt
  have hexists := @exists_parse exactWebHost 0
    (canonicalizeAqiHistoryRequestUrl exactWebHost halfPastChunkParams "aqi" "aqi") 7 3
    1704103200000 1704448800000 1704450600000 .pm25 format
    (by rw [hkept _ (by decide) (by decide) (by decide) (by decide)]; decide +kernel)
    (by rw [hkept _ (by decide) (by decide) (by decide) (by decide)]; decide +kernel)
    (by rw [hkept _ (by decide) (by decide) (by decide) (by decide)]; decide +kernel)
    (by
      rw [eitherParam, hstartAt, Option.filter_some, if_pos (by simp [toISOString_ne_empty])]
      exact hreads.dateParse_toISOString _ (by decide) (by decide))
    (by
      rw [eitherParam, hendAt, Option.filter_some, if_pos (by simp [toISOString_ne_empty])]
      exact hreads.dateParse_toISOString _ (by decide) (by decide))
    (by
      rw [hkept _ (by decide) (by decide) (by decide) (by decide)]
      exact hreads.dateParse_toISOString _ (by decide) (by decide))
    (by
      have hall : ∀ format ∈ ["tsv", "objects", "compact"], formatName exactWebHost
          (((some format).filter (· ≠ "")).getD "compact") = some format := by decide +kernel
      rw [hformatKept, hall format hformat]) (by decide) (by decide)
  obtain ⟨chunk, hchunk⟩ := hexists
  exact ⟨chunk, hreads.dateParse_toISOString _ (by decide) (by decide), names_halfPast, hchunk, trivial⟩

/-- A chunk that is asked to end at 10:30 on 5 January loses the hour that ends at 10:00. -/
theorem not_showsEveryHourOnce_halfPast : ∃ request chunk,
    resolveStationSeriesRequest exactWebHost halfPastParams = some request ∧
      Walk exactWebHost "aqi" 0 (toISOString
        (resolveStableHeadBounds request.startMs request.endMs 120).headStartMs)
          (halfPastSteps chunk) ∧
      ¬ShowsEveryHourOnce exactWebHost (resolveStableHeadBounds request.startMs request.endMs 120)
        (halfPastSteps chunk) := by
  obtain ⟨request, hrequest, hstart, hend⟩ := resolve_halfPast
  obtain ⟨chunk, hwalk⟩ := walk_halfPast
  have hhead : (resolveStableHeadBounds request.startMs request.endMs 120).headStartMs
      = 1704450600000 := by
    rw [hstart, hend]
    decide
  rw [← hhead] at hwalk
  obtain ⟨hbound, hlt⟩ := resolveStableHeadBounds_spec readsDates_exactWebHost hrequest
    (show (0 : ℤ) < 120 by decide)
  refine ⟨request, chunk, hrequest, hwalk, fun h ↦ ?_⟩
  have hlong : (1704450600000 : ℤ) % hourMs = 0 :=
    (showsEveryHourOnce_iff_of_walk readsDates_exactWebHost hbound hlt hwalk).mp h _
      List.mem_cons_self isLong_halfPast
  exact absurd hlong (by decide)

theorem showsEveryHourOnce_iff_halfPast : ∃ (request : SeriesRequest) (chunk : ChunkRequest),
    ShowsEveryHourOnce exactWebHost (resolveStableHeadBounds request.startMs request.endMs 120)
      (halfPastSteps chunk) ↔ ∀ step ∈ halfPastSteps chunk,
        IsLong exactWebHost step.startText step.endMs → step.endMs % hourMs = 0 := by
  obtain ⟨request, hrequest, hstart, hend⟩ := resolve_halfPast
  obtain ⟨chunk, hwalk⟩ := walk_halfPast
  have hhead : (resolveStableHeadBounds request.startMs request.endMs 120).headStartMs
      = 1704450600000 := by
    rw [hstart, hend]
    decide
  rw [← hhead] at hwalk
  exact ⟨request, chunk,
    showsEveryHourOnce_iff readsDates_exactWebHost hrequest (by decide) hwalk⟩

end UkAqOps.StationHistory

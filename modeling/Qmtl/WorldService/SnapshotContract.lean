import Qmtl.WorldService.RiskSnapshot

/-!
What a normalization leaves of a payload, and the payloads it leaves as they are.
-/

namespace Qmtl.WorldService.Risk

open Lib

variable (env : Env)

variable {context' : String} {d d' normalized : Payload} {v : Json}

lemma canonical_eq_iff {e : Payload} : canonical d = canonical e ↔
      ∀ key, key ≠ "hash" → key ≠ "created_at" → (d.get? key).map Json.sortKeys = (e.get? key).map Json.sortKeys := by
  unfold canonical
  rw [Json.sortKeys_entries_eq_iff]
  simp only [Dict.get?_erase]
  constructor
  · intro h key hh hc
    have hkey := h key
    rwa [if_neg hc, if_neg hh, if_neg hc, if_neg hh] at hkey
  · intro h key
    by_cases hc : key = "created_at"
    · rw [if_pos hc, if_pos hc]
    · by_cases hh : key = "hash"
      · rw [if_neg hc, if_pos hh, if_neg hc, if_pos hh]
      · rw [if_neg hc, if_neg hh, if_neg hc, if_neg hh]
        exact h key hh hc

lemma canonical_set_hash (d : Payload) (v : Json) : canonical (d.set "hash" v) = canonical d :=
  canonical_eq_iff.mpr fun _ hh _ => by rw [Dict.get?_set_ne _ _ hh]

variable {key : String}

lemma get_eq_of_get? (h : d.get? key = some v) : d.get key = v := by
  simp [Payload.get, h]

lemma get?_of_get (h : d.get key = v) (hv : isNull v = false) : d.get? key = some v := by
  unfold Payload.get at h
  cases hget : d.get? key with
  | none =>
    rw [hget] at h
    subst h
    cases hv
  | some w =>
    rw [hget] at h
    exact congrArg some h

/-! ### Realized returns -/

variable {context : String}

lemma normalizePoint_again {w : Json} (h : normalizePoint env context v = .ok w) :
    normalizePoint env context' w = .ok w := by
  have hfl : ∀ u, (Json.num <$> env.finiteFloat context u : Except Exn Json) = .ok w →
      normalizePoint env context' w = .ok w := by
    intro u hu
    cases hf : env.finiteFloat context u with
    | error e =>
      rw [hf] at hu
      cases hu
    | ok text =>
      rw [hf] at hu
      obtain rfl := (Except.ok.inj hu).symm
      show Json.num <$> env.finiteFloat context' (.num text) = .ok (.num text)
      rw [env.finiteFloat_num context context' u text hf]
      rfl
  cases v with
  | bool b => cases h
  | _ => exact hfl _ h

lemma mapM_normalizePoint_again {vs ws : List Json}
    (h : vs.mapM (normalizePoint env context) = .ok ws) : ws.mapM (normalizePoint env context') = .ok ws := by
  have hall := mapM_ok h
  clear h
  induction hall with
  | nil => rfl
  | cons hv _ ih =>
    rw [List.mapM_cons, normalizePoint_again env hv, ih]
    rfl

lemma normalizeFloatSeries_again {series : List Json} (h : normalizeFloatSeries env context v = .ok series) :
    normalizeFloatSeries env context' (.arr series) = .ok series := by
  cases v with
  | arr items =>
    cases items with
    | nil => cases h
    | cons v vs =>
      have hmap : (v :: vs).mapM (normalizePoint env context) = .ok series := h
      cases mapM_ok hmap with
      | cons _ _ => exact mapM_normalizePoint_again env hmap
  | _ => cases h

/-- Normalized series with at most so many points. -/
structure NormalSeries (fields : List (String × Json)) (total : ℕ) : Prop where
  keys : ∀ f ∈ fields, Clean f.1
  series : ∀ f ∈ fields, ∃ items, f.2 = .arr items ∧ items.length ≤ maxPointsPerSeries ∧
    ∀ context, normalizeFloatSeries env context (.arr items) = .ok items
  points : seriesPoints fields ≤ total
  limit : total ≤ maxPointsTotal

lemma seriesPoints_setEntry_le (key : String) (v : Json) (fields : List (String × Json)) :
    seriesPoints (Dict.setEntry key v fields) ≤ seriesPoints fields + pointCount v := by
  induction fields with
  | nil => simp [Dict.setEntry, seriesPoints]
  | cons f fields ih =>
    unfold Dict.setEntry
    split
    · simp only [seriesPoints, List.map_cons, List.sum_cons]
      omega
    · simp only [seriesPoints, List.map_cons, List.sum_cons] at ih ⊢
      omega

variable {total : ℕ}

lemma normalSeries_set {key context : String} {series : List Json}
    (h : NormalSeries env normalized.entries total) (hkey : Clean key)
    (hs : normalizeFloatSeries env context v = .ok series) (hlen : series.length ≤ maxPointsPerSeries)
    (hl : total + series.length ≤ maxPointsTotal) :
    NormalSeries env (normalized.set key (.arr series)).entries (total + series.length) := by
  have hmem : ∀ f ∈ (normalized.set key (.arr series)).entries, f = (key, .arr series) ∨ f ∈ normalized.entries := by
    intro f hf
    have hget := Dict.get?_eq_some.mpr hf
    rw [Dict.get?_set] at hget
    split at hget
    · rename_i hk
      exact .inl (Prod.ext hk (Option.some.inj hget).symm)
    · exact .inr (Dict.get?_eq_some.mp hget)
  refine ⟨?_, ?_, ?_, hl⟩
  · intro f hf
    rcases hmem f hf with rfl | hf
    · exact hkey
    · exact h.keys f hf
  · intro f hf
    rcases hmem f hf with rfl | hf
    · exact ⟨series, rfl, hlen, fun _ => normalizeFloatSeries_again env hs⟩
    · exact h.series f hf
  · have hp := h.points
    have hset := seriesPoints_setEntry_le key (.arr series) normalized.entries
    simp only [pointCount] at hset
    exact hset.trans (by omega)

variable {fields : List (String × Json)}

lemma normalSeries_of_normalize {result : Payload}
    (h : NormalSeries env normalized.entries total) (hr : normalizeSeries env fields total normalized = .ok result) :
    ∃ total', NormalSeries env result.entries total' := by
  induction fields generalizing total normalized with
  | nil =>
    cases hr
    exact ⟨total, h⟩
  | cons f fields ih =>
    unfold normalizeSeries at hr
    split at hr
    · cases hr
    · rename_i key hkey
      obtain ⟨series, hs, hr⟩ := bind_ok.mp hr
      split at hr
      · cases hr
      · split at hr
        · cases hr
        · exact ih (normalSeries_set env h (stripped_eq_some hkey) hs (by omega) (by omega)) hr

lemma normalizeSeries_of_normal (hkeys : ∀ f ∈ fields, Clean f.1)
    (hs : ∀ f ∈ fields, ∃ items, f.2 = .arr items ∧ items.length ≤ maxPointsPerSeries ∧
      ∀ context, normalizeFloatSeries env context (.arr items) = .ok items)
    (hl : total + seriesPoints fields ≤ maxPointsTotal) :
    normalizeSeries env fields total normalized = .ok (normalized.update fields) := by
  induction fields generalizing total normalized with
  | nil => rfl
  | cons f fields ih =>
    obtain ⟨items, hit, hlen, hfix⟩ := hs f List.mem_cons_self
    have hp : seriesPoints (f :: fields) = items.length + seriesPoints fields := by
      simp [seriesPoints, hit, pointCount]
    unfold normalizeSeries
    rw [(hkeys f List.mem_cons_self).stripped, hit]
    simp only [hfix, bind, Except.bind]
    rw [if_neg (by omega), if_neg (by omega),
      ih (fun g hg => hkeys g (.tail _ hg)) (fun g hg => hs g (.tail _ hg)) (by omega)]
    rw [← hit]
    rfl

lemma entries_set_ne_nil (d : Payload) (key : String) (v : Json) : (d.set key v).entries ≠ [] := by
  intro hnil
  have hmem := Dict.get?_eq_some.mp (Dict.get?_set_self d key v)
  rw [hnil] at hmem
  cases hmem

lemma normalizeSeries_ne_nil {result : Payload}
    (hne : fields ≠ [] ∨ normalized.entries ≠ []) (hr : normalizeSeries env fields total normalized = .ok result) :
    result.entries ≠ [] := by
  induction fields generalizing total normalized with
  | nil =>
    cases hr
    exact hne.resolve_left (not_not_intro rfl)
  | cons f fields ih =>
    unfold normalizeSeries at hr
    split at hr
    · cases hr
    · obtain ⟨series, _, hr⟩ := bind_ok.mp hr
      split at hr
      · cases hr
      · split at hr
        · cases hr
        · exact ih (.inr (entries_set_ne_nil _ _ _)) hr

lemma normalizeRealizedReturns_obj (hne : fields ≠ []) : normalizeRealizedReturns env (.obj fields) =
      normalizeSeries env fields 0 Dict.empty >>= fun normalized => return .obj normalized.entries := by
  cases fields with
  | nil => exact absurd rfl hne
  | cons f fields => rfl

lemma normalizeRealizedReturns_arr (items : List Json) : normalizeRealizedReturns env (.arr items) =
      normalizeFloatSeries env "realized_returns" (.arr items) >>= fun series =>
        if maxPointsTotal < series.length then .error (.valueError "realized_returns series too long")
        else return .arr series := rfl

lemma normalizeRealizedReturns_again {w : Json} (h : normalizeRealizedReturns env v = .ok w) :
    normalizeRealizedReturns env w = .ok w := by
  cases v with
  | obj fields =>
    have hne : fields ≠ [] := by
      rintro rfl
      cases h
    rw [normalizeRealizedReturns_obj env hne] at h
    obtain ⟨normalized, hn, h⟩ := bind_ok.mp h
    obtain rfl := pure_ok.mp h
    have hempty : NormalSeries env (.empty : Payload).entries 0 :=
      ⟨fun _ hf => absurd hf List.not_mem_nil, fun _ hf => absurd hf List.not_mem_nil, le_rfl, Nat.zero_le _⟩
    obtain ⟨total, hnr⟩ := normalSeries_of_normalize env hempty hn
    have hl : 0 + seriesPoints normalized.entries ≤ maxPointsTotal := by
      have hp := hnr.points
      have ht := hnr.limit
      omega
    rw [normalizeRealizedReturns_obj env (normalizeSeries_ne_nil env (.inl hne) hn),
      normalizeSeries_of_normal env hnr.keys hnr.series hl, Dict.update_empty]
    rfl
  | arr items =>
    obtain ⟨series, hs, h⟩ := bind_ok.mp h
    split at h
    · cases h
    · rename_i hlen
      obtain rfl := pure_ok.mp h
      rw [normalizeRealizedReturns_arr, normalizeFloatSeries_again env hs]
      simp only [bind, Except.bind]
      rw [if_neg hlen]
      rfl
  | _ => cases h

/-! ### The steps of a normalization -/

def Writes (key : String) (d d' : Payload) : Prop := ∀ k, k ≠ key → d'.get? k = d.get? k

lemma writes_set (d : Payload) (key : String) (v : Json) : Writes key d (d.set key v) :=
  fun _ hk => Dict.get?_set_ne d v hk

variable {worldId : String}

lemma withWorld_ok (h : withWorld env worldId d = .ok d') :
    Writes "world_id" d d' ∧ ∃ v, d'.get? "world_id" = some v ∧ textOr env v ≠ "" ∧
      if worldId = "" then d.get? "world_id" = some v else v = .str worldId := by
  unfold withWorld at h
  split at h
  · rename_i hw
    cases h
    refine ⟨writes_set _ _ _, .str worldId, Dict.get?_set_self _ _ _, ?_, by rw [if_neg hw]⟩
    simp [textOr, truthy, hw, env.toStr_str]
  · rename_i hw
    split at h
    · cases h
    · rename_i hne
      cases h
      have hs : ∃ v, d.get? "world_id" = some v := by
        cases hget : d.get? "world_id" with
        | none => exact absurd (by simp [Payload.get, hget, textOr, truthy]) hne
        | some v => exact ⟨v, rfl⟩
      obtain ⟨v, hv⟩ := hs
      rw [get_eq_of_get? hv] at hne
      exact ⟨fun _ _ => rfl, v, hv, hne, by rw [if_pos (not_not.mp hw)]; exact hv⟩

lemma requireText_ok {key text : String} (h : requireText key v = .ok text) : v = .str text ∧ text ≠ "" := by
  unfold requireText at h
  split at h
  · split at h
    · cases h
    · rename_i hne
      cases h
      exact ⟨rfl, hne⟩
  · cases h

/-- What the required fields of a payload are. -/
structure Required (d : Payload) (asOf version : String) (weights : List (String × Json)) : Prop where
  hasAsOf : d.get? "as_of" = some (.str asOf)
  hasVersion : d.get? "version" = some (.str version)
  hasWeights : d.get? "weights" = some (.obj weights)
  asOf_ne : asOf ≠ ""
  version_ne : version ≠ ""
  weights_ne : weights ≠ []
  parses : (parseTimestamp env asOf).isSome
  sums : env.checkWeights weights = .ok ()

lemma checkRequired_ok (h : checkRequired env d = .ok ()) :
    ∃ asOf version weights, Required env d asOf version weights := by
  obtain ⟨asOf, hao, h⟩ := bind_ok.mp h
  obtain ⟨hao, hasOf_ne⟩ := requireText_ok hao
  split at h
  · cases h
  · rename_i hp
    obtain ⟨version, hv, h⟩ := bind_ok.mp h
    obtain ⟨hv, hversion_ne⟩ := requireText_ok hv
    split at h
    · cases h
    · rename_i weights hne hw
      refine ⟨asOf, version, weights, get?_of_get hao rfl, get?_of_get hv rfl, get?_of_get hw rfl,
        hasOf_ne, hversion_ne, ?_, ?_, h⟩
      · rintro rfl
        exact hne rfl
      · exact Option.isSome_iff_ne_none.mpr (by simpa using hp)
    · cases h

lemma checkRequired_of {asOf version : String} {weights : List (String × Json)}
    (h : Required env d asOf version weights) : checkRequired env d = .ok () := by
  unfold checkRequired
  rw [get_eq_of_get? h.hasAsOf, get_eq_of_get? h.hasVersion, get_eq_of_get? h.hasWeights]
  have hp : (parseTimestamp env asOf).isNone = false := by
    simpa using h.parses
  have hw := h.weights_ne
  simp only [requireText, if_neg h.asOf_ne, if_neg h.version_ne, bind, Except.bind, hp, Bool.false_eq_true, if_false]
  cases weights with
  | nil => exact absurd rfl hw
  | cons f fields => exact h.sums

def TtlOk (limits : Limits) (v : Json) : Prop := ∃ n : ℤ, 0 < n ∧ n ≤ limits.ttlMax ∧ v = .num (toString n)

variable {limits : Limits}

lemma normalizeTtl_ok (h : normalizeTtl env limits d = .ok d') : Writes "ttl_sec" d d' ∧
      (d.get? "ttl_sec" = some .null ∧ d'.get? "ttl_sec" = some .null ∨
        d.get? "ttl_sec" ≠ some .null ∧ ∃ v, d'.get? "ttl_sec" = some v ∧ TtlOk limits v) := by
  unfold normalizeTtl at h
  split at h
  · rename_i hn
    cases h
    refine ⟨fun _ _ => rfl, .inl ?_⟩
    cases hget : d.get? "ttl_sec" with
    | none => simp [hget] at hn
    | some v => simp_all
  · rename_i hn
    split at h
    · cases h
    · rename_i n _
      split at h
      · cases h
      · split at h
        · cases h
        · cases h
          refine ⟨writes_set _ _ _, .inr ⟨fun hget => ?_, _, Dict.get?_set_self _ _ _, n, by omega, by omega, rfl⟩⟩
          exact hn (by rw [hget]; rfl)

lemma normalizeTtl_of (hget : d.get? "ttl_sec" = some v) (hv : TtlOk limits v) :
    normalizeTtl env limits d = .ok d := by
  obtain ⟨n, hpos, hmax, rfl⟩ := hv
  unfold normalizeTtl
  rw [hget]
  simp only [Option.getD_some, env.toInt_repr]
  rw [if_neg (by omega), if_neg (by omega), Dict.set_of_get? hget]

lemma normalizeRef_ok (h : normalizeRef d = .ok d') : Writes "realized_returns_ref" d d' ∧
      (isNull (d.get "realized_returns_ref") ∧ d'.get? "realized_returns_ref" = d.get? "realized_returns_ref" ∨
        d.get? "realized_returns_ref" ≠ some .null ∧
          ∃ ref, d'.get? "realized_returns_ref" = some (.str ref) ∧ Clean ref) := by
  unfold normalizeRef at h
  split at h
  · rename_i hn
    cases h
    exact ⟨fun _ _ => rfl, .inl ⟨by rw [hn]; rfl, rfl⟩⟩
  · rename_i text htext
    split at h
    · rename_i ref href
      cases h
      refine ⟨writes_set _ _ _, .inr ⟨?_, ref, Dict.get?_set_self _ _ _, stripped_eq_some href⟩⟩
      rw [get?_of_get htext rfl]
      simp
    · cases h
  · cases h

lemma normalizeRef_of
    (h : d.get? "realized_returns_ref" = none ∨ ∃ ref, d.get? "realized_returns_ref" = some (.str ref) ∧ Clean ref) :
    normalizeRef d = .ok d := by
  unfold normalizeRef
  rcases h with hn | ⟨ref, hget, hc⟩
  · simp [Payload.get, hn]
  · rw [get_eq_of_get? hget]
    simp [hc.stripped, Dict.set_of_get? hget]

lemma normalizeRealized_ok (h : normalizeRealized env d = .ok d') :
    ∃ d₁, normalizeRef d = .ok d₁ ∧ Writes "realized_returns" d₁ d' ∧
      (isNull (d₁.get "realized_returns") ∧ d'.get? "realized_returns" = d₁.get? "realized_returns" ∨
        d₁.get? "realized_returns" ≠ some .null ∧ ∃ v, d'.get? "realized_returns" = some v ∧ isNull v = false ∧
          normalizeRealizedReturns env v = .ok v) := by
  obtain ⟨d₁, hd₁, h⟩ := bind_ok.mp h
  refine ⟨d₁, hd₁, ?_⟩
  split at h
  · rename_i hn
    cases h
    exact ⟨fun _ _ => rfl, .inl ⟨by rw [hn]; rfl, rfl⟩⟩
  · rename_i hn
    obtain ⟨v, hv, h⟩ := bind_ok.mp h
    obtain rfl := pure_ok.mp h
    have hag := normalizeRealizedReturns_again env hv
    refine ⟨writes_set _ _ _, .inr ⟨fun hget => hn (get_eq_of_get? hget), v, Dict.get?_set_self _ _ _, ?_, hag⟩⟩
    cases v with
    | null => cases hag
    | _ => rfl

lemma normalizeRealized_of
    (href : d.get? "realized_returns_ref" = none ∨ ∃ ref, d.get? "realized_returns_ref" = some (.str ref) ∧ Clean ref)
    (h : d.get? "realized_returns" = none ∨ ∃ v, d.get? "realized_returns" = some v ∧ isNull v = false ∧
      normalizeRealizedReturns env v = .ok v) : normalizeRealized env d = .ok d := by
  unfold normalizeRealized
  rw [normalizeRef_of href]
  simp only [bind, Except.bind]
  rcases h with hn | ⟨v, hget, hnl, hv⟩
  · simp [Payload.get, hn]
  · rw [get_eq_of_get? hget]
    cases v with
    | null => cases hnl
    | _ =>
      simp only [hv, Dict.set_of_get? hget]
      rfl

/-- A provenance that passes without headers. -/
def ProvenanceOk (limits : Limits) (fields : List (String × Json)) : Prop :=
  fields ≠ [] ∧ ∃ provenance : Payload, provenance.entries = fields ∧
    validateField env "actor" limits.allowedActors provenance = .ok () ∧
    validateField env "stage" limits.allowedStages provenance = .ok ()

variable {actor stage : Option String}

lemma normalizeProvenance_ok (h : normalizeProvenance env limits actor stage d = .ok d') :
    Writes "provenance" d d' ∧ ∃ fields, d'.get? "provenance" = some (.obj fields) ∧ ProvenanceOk env limits fields := by
  obtain ⟨withActor, _, h⟩ := bind_ok.mp h
  obtain ⟨provenance, _, h⟩ := bind_ok.mp h
  obtain ⟨_, hac, h⟩ := bind_ok.mp h
  obtain ⟨_, hs, h⟩ := bind_ok.mp h
  obtain rfl := pure_ok.mp h
  refine ⟨writes_set _ _ _, _, Dict.get?_set_self _ _ _, ?_, provenance, rfl, hac, hs⟩
  -- an actor is required
  intro hnil
  unfold validateField at hac
  have hn : provenance.get "actor" = .null := by simp [Payload.get, Dict.get?, hnil]
  simp [hn, textOr, truthy] at hac

lemma normalizeProvenance_of
    (hget : d.get? "provenance" = some (.obj fields)) (h : ProvenanceOk env limits fields) :
    normalizeProvenance env limits none none d = .ok d := by
  obtain ⟨_, provenance, rfl, hac, hs⟩ := h
  have hsm : Dict.ofList provenance.entries = provenance := Dict.update_empty provenance
  unfold normalizeProvenance
  rw [get_eq_of_get? hget]
  simp only [claimField, hsm, bind, Except.bind, hac, hs, Dict.set_of_get? hget]
  rfl

lemma normalizeHash_ok (h : normalizeHash env d = .ok d') :
    d' = d.set "hash" (.str (stableSnapshotHash env d)) := by
  unfold normalizeHash at h
  dsimp only at h
  split at h
  · exact (Except.ok.inj h).symm
  · split at h
    · exact (Except.ok.inj h).symm
    · split at h
      · rename_i heq
        rw [← heq]
        exact (Except.ok.inj h).symm
      · cases h
  · cases h

lemma normalizeHash_of_hash {hash : String} (hget : d.get? "hash" = some (.str hash)) (hne : hash ≠ "") :
    normalizeHash env d = if hash = stableSnapshotHash env d then .ok d else .error (.valueError "hash mismatch") := by
  unfold normalizeHash
  rw [get_eq_of_get? hget]
  simp [if_neg hne, Dict.set_of_get? hget]

/-! ### The whole normalization -/

lemma get?_of_isNull (h : isNull (d.get key)) : d.get? key = none ∨ d.get? key = some .null := by
  unfold Payload.get at h
  cases hget : d.get? key with
  | none => exact .inl rfl
  | some v =>
    rw [hget] at h
    cases v with
    | null => exact .inr rfl
    | _ => cases h

def writtenKeys : List String :=
  ["world_id", "ttl_sec", "realized_returns_ref", "realized_returns", "provenance", "hash"]

/-- What a normalization makes of a payload. -/
structure Normalized (limits : Limits) (worldId : String) (payload data : Payload) : Prop where
  same : ∀ key, key ∉ writtenKeys → data.get? key = payload.get? key
  world : ∃ v, data.get? "world_id" = some v ∧ textOr env v ≠ "" ∧
    if worldId = "" then payload.get? "world_id" = some v else v = .str worldId
  required : ∃ asOf version weights, Required env data asOf version weights
  ttl : payload.get? "ttl_sec" = some .null ∧ data.get? "ttl_sec" = some .null ∨
    payload.get? "ttl_sec" ≠ some .null ∧ ∃ v, data.get? "ttl_sec" = some v ∧ TtlOk limits v
  ref : payload.get? "realized_returns_ref" = some .null ∧ data.get? "realized_returns_ref" = some .null ∨
    payload.get? "realized_returns_ref" ≠ some .null ∧ (data.get? "realized_returns_ref" = none ∨
      ∃ ref, data.get? "realized_returns_ref" = some (.str ref) ∧ Clean ref)
  realized : payload.get? "realized_returns" = some .null ∧ data.get? "realized_returns" = some .null ∨
    payload.get? "realized_returns" ≠ some .null ∧ (data.get? "realized_returns" = none ∨
      ∃ v, data.get? "realized_returns" = some v ∧ isNull v = false ∧ normalizeRealizedReturns env v = .ok v)
  provenance : ∃ fields, data.get? "provenance" = some (.obj fields) ∧ ProvenanceOk env limits fields
  hash : data.get? "hash" = some (.str (stableSnapshotHash env data))

/-- **Normalization**: each field of an accepted payload is as its check leaves it. -/
theorem normalize_ok {payload data : Payload}
    (h : normalizeAndValidateSnapshot env limits worldId payload actor stage = .ok data) :
    Normalized env limits worldId payload data := by
  obtain ⟨d₁, h₁, h⟩ := bind_ok.mp h
  obtain ⟨_, hrq, h⟩ := bind_ok.mp h
  obtain ⟨d₂, h₂, h⟩ := bind_ok.mp h
  obtain ⟨d₃, h₃, h⟩ := bind_ok.mp h
  obtain ⟨d₄, h₄, h⟩ := bind_ok.mp h
  obtain rfl := normalizeHash_ok env h
  obtain ⟨w₁, v, hv, hne, hw⟩ := withWorld_ok env h₁
  obtain ⟨asOf, version, weights, hr⟩ := checkRequired_ok env hrq
  obtain ⟨w₂, httl⟩ := normalizeTtl_ok env h₂
  obtain ⟨d₂', h₂', w₃, hrl⟩ := normalizeRealized_ok env h₃
  obtain ⟨w₂', href⟩ := normalizeRef_ok h₂'
  obtain ⟨w₄, fields, hf, hp⟩ := normalizeProvenance_ok env h₄
  have w₅ := writes_set d₄ "hash" (.str (stableSnapshotHash env d₄))
  constructor
  case same =>
    intro key hkey
    simp only [writtenKeys, List.mem_cons, List.not_mem_nil, or_false, not_or] at hkey
    obtain ⟨k₁, k₂, k₃, k₄, k₅, k₆⟩ := hkey
    rw [w₅ key k₆, w₄ key k₅, w₃ key k₄, w₂' key k₃, w₂ key k₂, w₁ key k₁]
  case world =>
    refine ⟨v, ?_, hne, hw⟩
    rw [w₅ _ (by decide), w₄ _ (by decide), w₃ _ (by decide), w₂' _ (by decide), w₂ _ (by decide), hv]
  case required =>
    refine ⟨asOf, version, weights, ⟨?_, ?_, ?_, hr.asOf_ne, hr.version_ne, hr.weights_ne, hr.parses, hr.sums⟩⟩
    · rw [w₅ _ (by decide), w₄ _ (by decide), w₃ _ (by decide), w₂' _ (by decide), w₂ _ (by decide), hr.hasAsOf]
    · rw [w₅ _ (by decide), w₄ _ (by decide), w₃ _ (by decide), w₂' _ (by decide), w₂ _ (by decide), hr.hasVersion]
    · rw [w₅ _ (by decide), w₄ _ (by decide), w₃ _ (by decide), w₂' _ (by decide), w₂ _ (by decide), hr.hasWeights]
  case ttl =>
    rw [w₅ _ (by decide), w₄ _ (by decide), w₃ _ (by decide), w₂' _ (by decide), ← w₁ "ttl_sec" (by decide)]
    exact httl
  case ref =>
    rw [w₅ _ (by decide), w₄ _ (by decide), w₃ _ (by decide), ← w₁ "realized_returns_ref" (by decide),
      ← w₂ "realized_returns_ref" (by decide)]
    rcases href with ⟨hn, hs⟩ | ⟨hne', hc⟩
    · rcases get?_of_isNull hn with hget | hget
      · exact .inr ⟨by simp [hget], .inl (hs.trans hget)⟩
      · exact .inl ⟨hget, hs.trans hget⟩
    · exact .inr ⟨hne', .inr hc⟩
  case realized =>
    rw [w₅ _ (by decide), w₄ _ (by decide), ← w₁ "realized_returns" (by decide), ← w₂ "realized_returns" (by decide),
      ← w₂' "realized_returns" (by decide)]
    rcases hrl with ⟨hn, hs⟩ | ⟨hne', hnr⟩
    · rcases get?_of_isNull hn with hget | hget
      · exact .inr ⟨by simp [hget], .inl (hs.trans hget)⟩
      · exact .inl ⟨hget, hs.trans hget⟩
    · exact .inr ⟨hne', .inr hnr⟩
  case provenance => exact ⟨fields, by rw [w₅ _ (by decide), hf], hp⟩
  case hash =>
    rw [Dict.get?_set_self]
    unfold stableSnapshotHash
    rw [canonical_set_hash]

/-- A payload whose fields are all as the checks leave them. -/
structure Settled (limits : Limits) (worldId : String) (d : Payload) : Prop where
  world : d.get? "world_id" = some (.str worldId)
  world_ne : worldId ≠ ""
  required : ∃ asOf version weights, Required env d asOf version weights
  ttl : ∃ v, d.get? "ttl_sec" = some v ∧ TtlOk limits v
  ref : d.get? "realized_returns_ref" = none ∨ ∃ ref, d.get? "realized_returns_ref" = some (.str ref) ∧ Clean ref
  realized : d.get? "realized_returns" = none ∨ ∃ v, d.get? "realized_returns" = some v ∧ isNull v = false ∧
    normalizeRealizedReturns env v = .ok v
  provenance : ∃ fields, d.get? "provenance" = some (.obj fields) ∧ ProvenanceOk env limits fields

lemma normalize_settled (h : Settled env limits worldId d) :
    normalizeAndValidateSnapshot env limits worldId d none none = normalizeHash env d := by
  obtain ⟨asOf, version, weights, hr⟩ := h.required
  obtain ⟨v, hget, hv⟩ := h.ttl
  obtain ⟨fields, hf, hp⟩ := h.provenance
  unfold normalizeAndValidateSnapshot withWorld
  rw [if_pos h.world_ne, Dict.set_of_get? h.world]
  simp [bind, Except.bind, checkRequired_of env hr, normalizeTtl_of env hget hv, normalizeRealized_of env h.ref h.realized,
    normalizeProvenance_of env hf hp]

end Qmtl.WorldService.Risk

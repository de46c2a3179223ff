import Qmtl.WorldService.RiskHubs
import Qmtl.WorldService.SnapshotContract

/-!
The hash of a payload on its way through a hub: the event that is published says what the payload said where every
field of it is one that a snapshot has, and none is there without a content.
-/

namespace Qmtl.WorldService.Risk

open Lib

variable (env : Env)

/-- What a payload must be like for its event to say the same. -/
structure Republishable (worldId : String) (payload : Payload) : Prop where
  known : ∀ key ∈ payload.keys, key ∈ snapshotKeys
  world : worldId = "" → ∃ text, payload.get? "world_id" = some (.str text)
  objects : ∀ key ∈ ["covariance", "stress", "constraints"], ∀ v, payload.get? key = some v →
    ∃ fields, v = .obj fields ∧ fields ≠ []
  refs : ∀ key ∈ ["covariance_ref", "stress_ref"], ∀ v, payload.get? key = some v → truthy env v = true
  present : ∀ key ∈ ["realized_returns", "realized_returns_ref", "ttl_sec"], payload.get? key ≠ some .null

/-! ### The snapshot of a normalized payload -/

section Snapshot

variable {limits : Limits} {worldId : String} {payload data : Payload} {s : PortfolioSnapshot}

lemma hash_eq (hn : Normalized env limits worldId payload data) (hr : ReadFrom env data s) :
    s.hash = stableSnapshotHash env data := by
  rw [hr.hash, get_eq_of_get? hn.hash]
  rfl

lemma hash_ne (hn : Normalized env limits worldId payload data) (hr : ReadFrom env data s) : s.hash ≠ "" :=
  hash_eq env hn hr ▸ env.digest_ne _

lemma ttlOf_eq {cfg : Settings} {n : ℤ} (hr : ReadFrom env data s)
    (hget : data.get? "ttl_sec" = some (.num (toString n))) : ttlOf cfg s = n := by
  unfold ttlOf
  rw [hr.ttlSec, get_eq_of_get? hget, env.toInt_repr]
  rfl

lemma valid_of_normalized (hn : Normalized env limits worldId payload data) (hr : ReadFrom env data s)
    (hc : Complete env s) : Valid env s := by
  refine ⟨hc, ?_, ?_⟩
  · rw [hr.realizedReturnsRef]
    rcases hn.ref with ⟨-, hnl⟩ | ⟨-, hnn | ⟨ref, hs, hcl⟩⟩
    · exact .inl (get_eq_of_get? hnl)
    · exact .inl (by simp [Payload.get, hnn])
    · exact .inr ⟨ref, get_eq_of_get? hs, hcl⟩
  · rw [hr.realizedReturns]
    rcases hn.realized with ⟨-, hnl⟩ | ⟨-, hnn | ⟨v, hs, hv, hnr⟩⟩
    · exact .inl (by rw [get_eq_of_get? hnl]; rfl)
    · exact .inl (by simp [Payload.get, hnn, isNull])
    · rw [get_eq_of_get? hs]
      exact .inr ⟨hv, hnr⟩

lemma own_eq {cfg : Settings} {now : Timestamp} {p : Prepared} (hn : Normalized env limits worldId payload data)
    (hr : ReadFrom env data s) (hp : prepare env cfg now s = .ok p) :
    p.own = { s with ttlSec := some (ttlOf cfg s) } ∧ p.stored.hash = s.hash := by
  obtain ⟨v, hv, -, -, hpr⟩ := prepare_ok env cfg now hp
  obtain ⟨hh, hown⟩ := hpr.hashed (hash_ne env hn hr)
  have hvalid := validateSnapshot_of env (valid_of_normalized env hn hr (validateSnapshot_ok env hv).1)
  cases hvalid.symm.trans hv
  exact ⟨hown, hh⟩

end Snapshot

lemma object_field_iff {x : Option Json} {fields : List (String × Json)}
    (h : dictOf env (x.getD .null) = .ok fields) :
    x.map Json.sortKeys = (if fields.isEmpty then none else some (Json.obj fields)).map Json.sortKeys ↔
      ∀ v, x = some v → ∃ fs, v = .obj fs ∧ fs ≠ [] := by
  cases x with
  | none =>
    obtain rfl : fields = [] := (Except.ok.inj h).symm
    simp
  | some v =>
    rcases dictOf_ok env h with ⟨hf, rfl⟩ | ⟨hobj, hne⟩ | ⟨items, harr, -⟩
    · -- nothing is published
      refine iff_of_false (by simp) fun hall => ?_
      obtain ⟨fs, rfl, hne⟩ := hall v rfl
      cases fs with
      | nil => exact hne rfl
      | cons f fs => cases hf
    · obtain rfl : v = .obj fields := hobj
      have hempty : fields.isEmpty = false := by simpa using hne
      rw [hempty]
      exact iff_of_true rfl fun w hw => ⟨fields, (Option.some.inj hw).symm, hne⟩
    · obtain rfl : v = .arr items := harr
      refine iff_of_false ?_ fun hall => ?_
      · split <;> simp [Json.sortKeys]
      · obtain ⟨fs, hv, -⟩ := hall _ rfl
        cases hv

lemma ref_field_iff {x : Option Json} : x.map Json.sortKeys =
        (if truthy env (x.getD .null) then some (x.getD .null) else none).map Json.sortKeys ↔
      ∀ v, x = some v → truthy env v := by
  cases x with
  | none => simp [truthy]
  | some v =>
    by_cases hv : truthy env v
    · simp [hv]
    · simp [hv]

/-! ### All fields -/

def Agrees (data event : Payload) (key : String) : Prop :=
  (data.get? key).map Json.sortKeys = (event.get? key).map Json.sortKeys

section Fields

variable {limits : Limits} {worldId : String} {payload data : Payload} {s own : PortfolioSnapshot} {cfg : Settings}

lemma agrees_world (hn : Normalized env limits worldId payload data) (hr : ReadFrom env data s)
    (hown : own = { s with ttlSec := some (ttlOf cfg s) }) :
    Agrees data (own.toDict env) "world_id" ↔ (worldId = "" → ∃ text, payload.get? "world_id" = some (.str text)) := by
  subst hown
  obtain ⟨v, hv, -, hwr⟩ := hn.world
  obtain ⟨w, hw, hnm⟩ := hr.worldId
  obtain rfl : v = w := Option.some.inj (hv.symm.trans hw)
  unfold Agrees
  rw [hv, get?_toDict]
  show some v.sortKeys = some (Json.str s.worldId) ↔ _
  rw [hnm]
  by_cases hempty : worldId = ""
  · rw [if_pos hempty] at hwr
    rw [hwr]
    cases v with
    | str text => simp [Json.sortKeys, env.toStr_str]
    | _ => simp [Json.sortKeys, hempty]
  · rw [if_neg hempty] at hwr
    rw [hwr, env.toStr_str]
    simp [Json.sortKeys, hempty]

lemma agrees_required (hn : Normalized env limits worldId payload data) (hr : ReadFrom env data s)
    (hown : own = { s with ttlSec := some (ttlOf cfg s) }) :
    ∀ key ∈ ["as_of", "version", "weights", "provenance"], Agrees data (own.toDict env) key := by
  subst hown
  obtain ⟨asOf, version, weights, hrq⟩ := hn.required
  obtain ⟨fields, hf, -⟩ := hn.provenance
  obtain ⟨v, hv, hao⟩ := hr.asOf
  obtain ⟨w, hw, hvr⟩ := hr.version
  obtain rfl : v = .str asOf := Option.some.inj (hv.symm.trans hrq.hasAsOf)
  obtain rfl : w = .str version := Option.some.inj (hw.symm.trans hrq.hasVersion)
  have hwg := hr.weights
  have hp := hr.provenance
  rw [get_eq_of_get? hrq.hasWeights, dictOf_obj] at hwg
  rw [get_eq_of_get? hf, dictOf_obj] at hp
  intro key hkey
  simp only [List.mem_cons, List.not_mem_nil, or_false] at hkey
  unfold Agrees
  rw [get?_toDict]
  rcases hkey with rfl | rfl | rfl | rfl
  · rw [hv]
    rw [hao, env.toStr_str]
    rfl
  · rw [hw]
    rw [hvr, env.toStr_str]
    rfl
  · rw [hrq.hasWeights, Except.ok.inj hwg]
    rfl
  · rw [hf, Except.ok.inj hp]
    rfl

lemma agrees_objects (hn : Normalized env limits worldId payload data) (hr : ReadFrom env data s)
    (hown : own = { s with ttlSec := some (ttlOf cfg s) }) :
    ∀ key ∈ ["covariance", "stress", "constraints"], Agrees data (own.toDict env) key ↔
      ∀ v, payload.get? key = some v → ∃ fields, v = .obj fields ∧ fields ≠ [] := by
  subst hown
  intro key hkey
  simp only [List.mem_cons, List.not_mem_nil, or_false] at hkey
  unfold Agrees
  rw [get?_toDict]
  rcases hkey with rfl | rfl | rfl
  · rw [← hn.same "covariance" (by decide)]
    exact object_field_iff env hr.covariance
  · rw [← hn.same "stress" (by decide)]
    exact object_field_iff env hr.stress
  · rw [← hn.same "constraints" (by decide)]
    exact object_field_iff env hr.constraints

lemma agrees_refs (hn : Normalized env limits worldId payload data) (hr : ReadFrom env data s)
    (hown : own = { s with ttlSec := some (ttlOf cfg s) }) :
    ∀ key ∈ ["covariance_ref", "stress_ref"], Agrees data (own.toDict env) key ↔
      ∀ v, payload.get? key = some v → truthy env v := by
  subst hown
  intro key hkey
  simp only [List.mem_cons, List.not_mem_nil, or_false] at hkey
  unfold Agrees
  rw [get?_toDict]
  rcases hkey with rfl | rfl
  · rw [← hn.same "covariance_ref" (by decide), ← ref_field_iff env]
    rw [hr.covarianceRef]
    rfl
  · rw [← hn.same "stress_ref" (by decide), ← ref_field_iff env]
    rw [hr.stressRef]
    rfl

lemma agrees_present (hn : Normalized env limits worldId payload data) (hr : ReadFrom env data s)
    (hown : own = { s with ttlSec := some (ttlOf cfg s) }) :
    ∀ key ∈ ["realized_returns", "realized_returns_ref", "ttl_sec"], Agrees data (own.toDict env) key ↔
      payload.get? key ≠ some .null := by
  subst hown
  intro key hkey
  simp only [List.mem_cons, List.not_mem_nil, or_false] at hkey
  unfold Agrees
  rw [get?_toDict]
  rcases hkey with rfl | rfl | rfl
  · show _ = (if isNull s.realizedReturns then none else some s.realizedReturns).map _ ↔ _
    rw [hr.realizedReturns]
    rcases hn.realized with ⟨hnl, hget⟩ | ⟨hne, hnn | ⟨v, hget, hv, -⟩⟩
    · exact iff_of_false (by simp [Payload.get, hget, isNull]) (not_not_intro hnl)
    · exact iff_of_true (by simp [Payload.get, hnn, isNull]) hne
    · exact iff_of_true (by simp [Payload.get, hget, hv]) hne
  · show _ = (if truthy env s.realizedReturnsRef then some s.realizedReturnsRef else none).map _ ↔ _
    rw [hr.realizedReturnsRef]
    rcases hn.ref with ⟨hnl, hget⟩ | ⟨hne, hnn | ⟨ref, hget, hc⟩⟩
    · exact iff_of_false (by simp [Payload.get, hget, truthy]) (not_not_intro hnl)
    · exact iff_of_true (by simp [Payload.get, hnn, truthy]) hne
    · exact iff_of_true (by simp [Payload.get, hget, truthy, hc.1]) hne
  · show _ = some (Json.num (toString (ttlOf cfg s))) ↔ _
    rcases hn.ttl with ⟨hnl, hget⟩ | ⟨hne, v, hget, n, -, -, rfl⟩
    · exact iff_of_false (by simp [hget, Json.sortKeys]) (not_not_intro hnl)
    · exact iff_of_true (by rw [hget, ttlOf_eq env hr hget]; rfl) hne

lemma agrees_unknown (hn : Normalized env limits worldId payload data) {key : String} (hkey : key ∉ snapshotKeys) :
    Agrees data (own.toDict env) key ↔ key ∉ payload.keys := by
  have hev : (own.toDict env).get? key = none := by
    rw [get?_toDict]
    simp only [snapshotKeys, List.mem_cons, List.not_mem_nil, or_false, not_or] at hkey
    simp [PortfolioSnapshot.fieldAt, hkey]
  have hwr : key ∉ writtenKeys := fun hw => hkey (by
    simp only [writtenKeys, List.mem_cons, List.not_mem_nil, or_false] at hw
    rcases hw with rfl | rfl | rfl | rfl | rfl | rfl <;> decide)
  unfold Agrees
  rw [hev, hn.same key hwr, ← Dict.get?_eq_none]
  simp

/-- **The event** says what the payload said exactly where the payload is republishable. -/
theorem canonical_eq_iff_republishable (hn : Normalized env limits worldId payload data) (hr : ReadFrom env data s)
    (hown : own = { s with ttlSec := some (ttlOf cfg s) }) :
    canonical data = canonical (own.toDict env) ↔ Republishable env worldId payload := by
  rw [canonical_eq_iff]
  constructor
  · intro h
    have hag : ∀ key, key ≠ "hash" → key ≠ "created_at" → Agrees data (own.toDict env) key := h
    refine ⟨fun key hkey => ?_, ?_, fun key hkey => ?_, fun key hkey => ?_, fun key hkey => ?_⟩
    · by_contra hout
      have hne : ∀ k ∈ snapshotKeys, key ≠ k := fun k hk he => hout (he ▸ hk)
      exact (agrees_unknown env hn hout).mp (hag key (hne _ (by decide)) (hne _ (by decide))) hkey
    · exact (agrees_world env hn hr hown).mp (hag _ (by decide) (by decide))
    · refine (agrees_objects env hn hr hown key hkey).mp (hag key ?_ ?_) <;> rintro rfl <;> revert hkey <;> decide
    · refine (agrees_refs env hn hr hown key hkey).mp (hag key ?_ ?_) <;> rintro rfl <;> revert hkey <;> decide
    · refine (agrees_present env hn hr hown key hkey).mp (hag key ?_ ?_) <;> rintro rfl <;> revert hkey <;> decide
  · intro h key hh hc
    by_cases hkey : key ∈ snapshotKeys
    · have hob := fun k hk => (agrees_objects env hn hr hown k hk).mpr (h.objects k hk)
      have hrf := fun k hk => (agrees_refs env hn hr hown k hk).mpr (h.refs k hk)
      have hp := fun k hk => (agrees_present env hn hr hown k hk).mpr (h.present k hk)
      have hrq := agrees_required env hn hr hown
      simp only [snapshotKeys, List.mem_cons, List.not_mem_nil, or_false] at hkey
      rcases hkey with rfl | rfl | rfl | rfl | rfl | rfl | rfl | rfl | rfl | rfl | rfl | rfl | rfl | rfl | rfl
      · exact (agrees_world env hn hr hown).mpr h.world
      · exact hrq _ (by simp)
      · exact hrq _ (by simp)
      · exact hrq _ (by simp)
      · exact hrq _ (by simp)
      · exact absurd rfl hc
      · exact hob _ (by simp)
      · exact hrf _ (by simp)
      · exact hp _ (by simp)
      · exact hp _ (by simp)
      · exact hrf _ (by simp)
      · exact hob _ (by simp)
      · exact hob _ (by simp)
      · exact absurd rfl hh
      · exact hp _ (by simp)
    · exact (agrees_unknown env hn hkey).mpr fun hmem => hkey (h.known key hmem)

end Fields

def ingest (cfg : Settings) (limits : Limits) (clock : ℤ) (now : Timestamp) (h : Hub) (worldId : String) (payload : Payload)
    (actor stage : Option String) : Except Exn (Payload × Bool × Prepared × Hub) := do
  let data ← normalizeAndValidateSnapshot env limits worldId payload actor stage
  let s ← PortfolioSnapshot.fromPayload env now data
  let r ← upsertSnapshot env cfg clock now h s
  return (data, r)

section Event

variable {limits : Limits} {worldId : String} {payload data : Payload} {s own : PortfolioSnapshot} {cfg : Settings}

lemma settled_event (hn : Normalized env limits worldId payload data) (hr : ReadFrom env data s)
    (hc : Complete env s) (hown : own = { s with ttlSec := some (ttlOf cfg s) })
    (httl : TtlOk limits (.num (toString (ttlOf cfg s)))) : Settled env limits own.worldId (own.toDict env) := by
  subst hown
  obtain ⟨asOf, version, weights, hrq⟩ := hn.required
  obtain ⟨fields, hf, hp⟩ := hn.provenance
  obtain ⟨v, hv, hao⟩ := hr.asOf
  obtain rfl : v = .str asOf := Option.some.inj (hv.symm.trans hrq.hasAsOf)
  have hw := hr.weights
  have hpr := hr.provenance
  rw [get_eq_of_get? hrq.hasWeights, dictOf_obj] at hw
  rw [get_eq_of_get? hf, dictOf_obj] at hpr
  rw [env.toStr_str] at hao
  have hvalid := valid_of_normalized env hn hr hc
  constructor
  case world => rw [get?_toDict]; rfl
  case world_ne => exact hc.worldId_ne
  case required =>
    refine ⟨s.asOf, s.version, s.weights, ?_⟩
    refine ⟨?_, ?_, ?_, hc.asOf_ne, hc.version_ne, by simpa using hc.weights_ne, ?_, ?_⟩
    · rw [get?_toDict]; rfl
    · rw [get?_toDict]; rfl
    · rw [get?_toDict]; rfl
    · rw [hao]
      exact hrq.parses
    · rw [← Except.ok.inj hw]
      exact hrq.sums
  case ttl => exact ⟨_, by rw [get?_toDict]; rfl, httl⟩
  case ref =>
    rw [get?_toDict]
    show (if truthy env s.realizedReturnsRef then some s.realizedReturnsRef else none) = none ∨ ∃ ref,
      (if truthy env s.realizedReturnsRef then some s.realizedReturnsRef else none) = some (.str ref) ∧ Clean ref
    rcases hvalid.ref with hnl | ⟨ref, href, hcl⟩
    · exact .inl (by rw [hnl]; rfl)
    · exact .inr ⟨ref, by rw [href]; simp [truthy, hcl.1], hcl⟩
  case realized =>
    rw [get?_toDict]
    show (if isNull s.realizedReturns then none else some s.realizedReturns) = none ∨ ∃ v,
      (if isNull s.realizedReturns then none else some s.realizedReturns) = some v ∧ isNull v = false ∧
        normalizeRealizedReturns env v = .ok v
    rcases hvalid.realized with hnl | ⟨hnl, hnr⟩
    · exact .inl (if_pos hnl)
    · exact .inr ⟨s.realizedReturns, by simp [hnl], hnl, hnr⟩
  case provenance =>
    refine ⟨fields, ?_, hp⟩
    rw [get?_toDict, Except.ok.inj hpr]
    rfl

lemma ttlOk_of_normalize {actor stage : Option String} (ttl : ℤ)
    (h : normalizeAndValidateSnapshot env limits worldId payload actor stage = .ok data)
    (hget : payload.get? "ttl_sec" = some (.num (toString ttl))) : TtlOk limits (.num (toString ttl)) := by
  obtain ⟨d₁, h₁, h⟩ := bind_ok.mp h
  obtain ⟨_, _, h⟩ := bind_ok.mp h
  obtain ⟨d₂, h₂, _⟩ := bind_ok.mp h
  rw [← (withWorld_ok env h₁).1 "ttl_sec" (by decide)] at hget
  unfold normalizeTtl at h₂
  rw [hget] at h₂
  simp only [Option.getD_some, env.toInt_repr] at h₂
  split at h₂
  · cases h₂
  · split at h₂
    · cases h₂
    · exact ⟨ttl, by omega, by omega, rfl⟩

/-- **One event**: it is accepted under the hash of its payload where the payload is republishable. -/
theorem accepted_iff (hn : Normalized env limits worldId payload data) (hr : ReadFrom env data s)
    (hc : Complete env s) (hown : own = { s with ttlSec := some (ttlOf cfg s) })
    (hd : stableSnapshotHash env data = stableSnapshotHash env (own.toDict env) →
      canonical data = canonical (own.toDict env)) :
    (∃ again, normalizeEvent env limits (own.toDict env) = .ok again ∧ again.get "hash" = data.get "hash") ↔
      Republishable env worldId payload := by
  have hh : own.hash = stableSnapshotHash env data := by
    have hs : own.hash = s.hash := by rw [hown]
    rw [hs, hash_eq env hn hr]
  have hne : own.hash ≠ "" := hh ▸ env.digest_ne _
  have hget : (own.toDict env).get? "hash" = some (.str own.hash) := by
    rw [(holds_toDict env own).hash, if_neg hne]
  have hw : textOr env (Payload.get (own.toDict env) "world_id") = own.worldId := by
    have hne : own.worldId ≠ "" := hown ▸ hc.worldId_ne
    rw [get_eq_of_get? (holds_toDict env own).worldId]
    simp [textOr, truthy, hne, env.toStr_str]
  rw [← canonical_eq_iff_republishable env hn hr hown]
  constructor
  · rintro ⟨again, hag, -⟩
    have httl := ttlOk_of_normalize env (ttlOf cfg s) hag (by rw [hown, get?_toDict]; rfl)
    unfold normalizeEvent at hag
    rw [hw, normalize_settled env (settled_event env hn hr hc hown httl), normalizeHash_of_hash env hget hne] at hag
    split at hag
    · rename_i hs
      exact hd (hh.symm.trans hs)
    · cases hag
  · intro hcn
    have hp := ((canonical_eq_iff_republishable env hn hr hown).mp hcn).present "ttl_sec" (by simp)
    have httl : TtlOk limits (.num (toString (ttlOf cfg s))) := by
      rcases hn.ttl with ⟨hnl, -⟩ | ⟨-, v, hv, n, hpos, hmax, rfl⟩
      · exact absurd hnl hp
      · exact ⟨n, hpos, hmax, by rw [ttlOf_eq env hr hv]⟩
    refine ⟨own.toDict env, ?_, ?_⟩
    · unfold normalizeEvent
      rw [hw, normalize_settled env (settled_event env hn hr hc hown httl), normalizeHash_of_hash env hget hne, if_pos]
      rw [hh, stableSnapshotHash, stableSnapshotHash, hcn]
    · rw [get_eq_of_get? hget, get_eq_of_get? hn.hash, hh]

end Event

section Hubs

variable {ι : Type} [DecidableEq ι] (cfgs : ι → Settings) (cached : ι → Bool)

/-- A consumer accepts the event of an upsert under the hash of the payload, and every hub of the repository finds the
snapshot in it a duplicate until it expires. -/
structure HashSurvives (limits : Limits) (ttlMax : ℤ) (σ : Hubs ι) (data event : Payload) : Prop where
  accepted : ∃ again, normalizeEvent env limits event = .ok again ∧ again.get "hash" = data.get "hash"
  duplicate : ∀ now, ∃ s, PortfolioSnapshot.fromPayload env now event = .ok s ∧
    ∀ calls j clock now', ttlMax ≤ (cfgs j).ttlMax → expired env clock s = .ok false →
      ∃ p h, upsertSnapshot env (cfgs j) clock now' ((σ.run env cfgs cached calls).hub cached j) s = .ok (true, p, h)

lemma read_event (now : Timestamp) {own : PortfolioSnapshot} (hv : Valid env own) :
    ∃ s, PortfolioSnapshot.fromPayload env now (own.toDict env) = .ok s ∧ s.ident = own.ident ∧ Valid env s := by
  obtain ⟨s, hs, hid⟩ := fromPayload_of_holds env now (holds_toDict env own)
  have hr := fromPayload_ok env hs
  have hw : s.weights = own.weights := by
    have h := hr.weights
    rw [Payload.get, get?_toDict] at h
    exact (Except.ok.inj ((dictOf_obj env own.weights).symm.trans h)).symm
  have href : s.realizedReturnsRef =
      (if truthy env own.realizedReturnsRef then some own.realizedReturnsRef else none).getD .null := by
    rw [hr.realizedReturnsRef, Payload.get, get?_toDict]
    rfl
  have hrl : s.realizedReturns = own.realizedReturns := by
    rw [hr.realizedReturns, Payload.get, get?_toDict]
    show (if isNull own.realizedReturns then none else some own.realizedReturns).getD .null = _
    cases own.realizedReturns <;> rfl
  have hwr : s.worldId = own.worldId := congrArg Ident.worldId hid
  have hao : s.asOf = own.asOf := congrArg Ident.asOf hid
  have hvr : s.version = own.version := congrArg Ident.version hid
  refine ⟨s, hs, hid, ⟨hwr ▸ hv.worldId_ne, hao ▸ hv.asOf_ne, hvr ▸ hv.version_ne, hw ▸ hv.weights_ne,
    hw ▸ hv.sum⟩, ?_, ?_⟩
  · rw [href]
    rcases hv.ref with hn | ⟨text, htext, hc⟩
    · exact .inl (by rw [hn]; rfl)
    · exact .inr ⟨text, by rw [htext]; simp [truthy, hc.1], hc⟩
  · rw [hrl]
    exact hv.realized

variable {limits : Limits} {i : ι} {worldId : String} {payload data : Payload} {actor stage : Option String} {clock : ℤ}
  {now : Timestamp} {deduped : Bool} {p : Prepared} {h : Hub}

lemma duplicate_of_event {σ : Hubs ι} (hσ : σ.Ok env cached) {s : PortfolioSnapshot} (hvalid : Valid env s)
    (hne : s.hash ≠ "") (hu : upsertSnapshot env (cfgs i) clock now (σ.hub cached i) s = .ok (deduped, p, h))
    (hown : p.own = { s with ttlSec := some (ttlOf (cfgs i) s) }) (now : Timestamp) :
    ∃ s', PortfolioSnapshot.fromPayload env now (p.own.toDict env) = .ok s' ∧
      ∀ calls j clock now', (cfgs i).ttlMax ≤ (cfgs j).ttlMax → expired env clock s' = .ok false →
        ∃ p' h', upsertSnapshot env (cfgs j) clock now' (((σ.put i h).run env cfgs cached calls).hub cached j) s' =
          .ok (true, p', h') := by
  have hvl' : Valid env p.own := by
    rw [hown]
    exact ⟨⟨hvalid.worldId_ne, hvalid.asOf_ne, hvalid.version_ne, hvalid.weights_ne, hvalid.sum⟩, hvalid.ref, hvalid.realized⟩
  obtain ⟨s', hs', hid, hv'⟩ := read_event env now hvl'
  refine ⟨s', hs', fun calls j clock' now' hmax hf => ?_⟩
  obtain ⟨hp, -⟩ := upsertSnapshot_ok env (cfgs i) hu
  obtain ⟨v, -, hpos, hle, hpr⟩ := prepare_ok env (cfgs i) _ hp
  obtain ⟨rows, hg, hh, hstored⟩ := coherent_upsert env (cfgs i) (hσ i) hu
  obtain ⟨hok, hrows⟩ := ok_put env cached hσ hg hh
  obtain ⟨hok', hg'⟩ := run_ok env cfgs cached hok calls
  -- the snapshot that was stored, the caller's own and the one that is read have one name
  have ho' : p.own.ident = p.stored.ident := by
    rw [hown, hpr.stored, (hpr.hashed hne).1]
    rfl
  have hs : s'.ident = p.stored.ident := hid.trans ho'
  have httl : s'.ttlSec = some (ttlOf (cfgs i) s) := by
    have h := congrArg Ident.ttlSec hid
    rw [hown] at h
    exact h
  have ht' : ttlOf (cfgs j) s' = ttlOf (cfgs i) s := by
    unfold ttlOf at httl ⊢
    rw [httl]
    rfl
  have hne' : s'.hash ≠ "" := by
    have hhs : s'.hash = p.stored.hash := congrArg Ident.hash hs
    rw [hhs]
    exact hpr.hash_ne
  obtain ⟨p', hp', hpr'⟩ := prepare_of env (cfgs j) now' (validateSnapshot_of env hv') (ht' ▸ hpos)
    (ht' ▸ hle.trans hmax)
  have hi' : p'.stored.ident = s'.ident := by
    rw [hpr'.stored, (hpr'.hashed hne').1, ht', ← httl]
    rfl
  have hst' : Stored env ((σ.put i h).run env cfgs cached calls).rows p'.stored := by
    obtain ⟨row, hrow, hhs⟩ := hstored
    refine ⟨row, ?_, ?_⟩
    · have hn := hi'.trans hs
      have hw : p'.stored.worldId = p.stored.worldId := congrArg Ident.worldId hn
      have hv : p'.stored.version = p.stored.version := congrArg Ident.version hn
      rw [hw, hv]
      exact hg' _ _ (hrows ▸ hrow)
    · rw [hhs]
      exact (congrArg Ident.hash (hi'.trans hs)).symm
  obtain ⟨h', hdup⟩ := duplicate_of_stored env (cfgs j) (hok' j) hp' (by rw [expired_congr env hi', hf]) hst'
  exact ⟨p', h', hdup⟩

lemma ingest_ok {cfg : Settings} {h₀ : Hub}
    (hin : ingest env cfg limits clock now h₀ worldId payload actor stage = .ok (data, deduped, p, h)) :
    ∃ s, Normalized env limits worldId payload data ∧ ReadFrom env data s ∧ Complete env s ∧
      upsertSnapshot env cfg clock now h₀ s = .ok (deduped, p, h) ∧ p.own = { s with ttlSec := some (ttlOf cfg s) } := by
  obtain ⟨d, hd, hrs⟩ := bind_ok.mp hin
  obtain ⟨s, hs, hrs⟩ := bind_ok.mp hrs
  obtain ⟨r, hu, hrs⟩ := bind_ok.mp hrs
  cases pure_ok.mp hrs
  have hn := normalize_ok env hd
  have hr := fromPayload_ok env hs
  obtain ⟨hp, -⟩ := upsertSnapshot_ok env cfg hu
  obtain ⟨v, hv, -⟩ := prepare_ok env cfg now hp
  exact ⟨s, hn, hr, (validateSnapshot_ok env hv).1, hu, (own_eq env hn hr hp).1⟩

/-- **The hash of a snapshot** survives its hub exactly where the payload is republishable. -/
theorem hashSurvives_iff (before : List (ι × Timed))
    (hingest : ingest env (cfgs i) limits clock now ((Hubs.init.run env cfgs cached before).hub cached i) worldId payload
      actor stage = .ok (data, deduped, p, h))
    (hdigest : stableSnapshotHash env data = stableSnapshotHash env (p.own.toDict env) →
      canonical data = canonical (p.own.toDict env)) :
    HashSurvives env cfgs cached limits (cfgs i).ttlMax ((Hubs.init.run env cfgs cached before).put i h) data
        (p.own.toDict env) ↔ Republishable env worldId payload := by
  obtain ⟨s, hn, hr, hc, hu, hown⟩ := ingest_ok env hingest
  have haccepted := accepted_iff env hn hr hc hown hdigest
  constructor
  · intro hsurvives
    exact haccepted.mp hsurvives.accepted
  · intro hrepublishable
    have hok := (run_ok env cfgs cached (ok_init env cached) before).1
    exact ⟨haccepted.mpr hrepublishable,
      duplicate_of_event env cfgs cached hok (valid_of_normalized env hn hr hc) (hash_ne env hn hr) hu hown⟩

end Hubs

/-! ### A payload with and without its covariance -/

def sampleEnv : Env := Env.plain [("2025-01-01T00:00:00+00:00", 1735689600000000)]

def sampleLimits : Limits := ⟨900, 86400, none, none⟩

def sampleSettings : Settings where
  maxCached := some 100
  inlineCovThreshold := some 1
  blobStore := some (fun version _ => ⟨"blob:" ++ version, fun h => absurd (congrArg String.toList h) (by simp)⟩, fun _ => none)
  covarianceResolver := none
  ttlDefault := 900
  ttlMax := 86400

def samplePayload (more : List (String × Json)) : Payload :=
  Dict.ofList ([("as_of", .str "2025-01-01T00:00:00Z"), ("version", .str "v1"), ("weights", .obj [("s1", .num "1.0")]),
    ("created_at", .str "2025-01-01T00:00:00Z")] ++ more)

def sampleIngest (more : List (String × Json)) : Except Exn (Payload × Bool × Prepared × Hub) :=
  ingest sampleEnv sampleSettings sampleLimits 1735689601000000 ⟨"2025-01-01T00:00:01Z", by decide⟩
    ((Hubs.init : Hubs Bool).hub (fun _ => true) true) "w" (samplePayload more) (some "gateway") (some "paper")

def sampleStress : List (String × Json) := [("stress", .obj [("crash", .num "0.2"), ("rally", .num "0.1")])]

lemma republishable_sample : Republishable sampleEnv "w" (samplePayload sampleStress) := by
  have hs : (samplePayload sampleStress).get? "stress" = some (.obj [("crash", .num "0.2"), ("rally", .num "0.1")]) := rfl
  refine ⟨by decide, fun h => absurd h (by decide), fun key hkey v hv => ?_, fun key hkey v hv => ?_, fun key hkey => ?_⟩
  · simp only [List.mem_cons, List.not_mem_nil, or_false] at hkey
    rcases hkey with rfl | rfl | rfl
    · cases (show (none : Option Json) = some v from hv)
    · exact ⟨_, (Option.some.inj (hs.symm.trans hv)).symm, List.cons_ne_nil _ _⟩
    · cases (show (none : Option Json) = some v from hv)
  · simp only [List.mem_cons, List.not_mem_nil, or_false] at hkey
    rcases hkey with rfl | rfl
    · cases (show (none : Option Json) = some v from hv)
    · cases (show (none : Option Json) = some v from hv)
  · simp only [List.mem_cons, List.not_mem_nil, or_false] at hkey
    intro hn
    rcases hkey with rfl | rfl | rfl
    · cases (show (none : Option Json) = some .null from hn)
    · cases (show (none : Option Json) = some .null from hn)
    · cases (show (none : Option Json) = some .null from hn)

theorem hashSurvives_iff_stress : ∃ data deduped p h, sampleIngest sampleStress = .ok (data, deduped, p, h) ∧
      HashSurvives sampleEnv (fun _ => sampleSettings) (fun _ => true) sampleLimits 86400
        ((Hubs.init : Hubs Bool).put true h) data (p.own.toDict sampleEnv) := by
  have hrun : ((sampleIngest sampleStress).toOption.any fun _ => true) := by decide +kernel
  obtain ⟨⟨data, deduped, p, h⟩, hingest, -⟩ := exists_ok (fun _ => true) hrun
  refine ⟨data, deduped, p, h, hingest, ?_⟩
  refine (hashSurvives_iff sampleEnv (fun _ => sampleSettings) (fun _ => true) (i := true) [] hingest fun _ => ?_).mpr
    republishable_sample
  obtain ⟨s, hn, hr, -, -, hown⟩ := ingest_ok sampleEnv hingest
  exact (canonical_eq_iff_republishable sampleEnv hn hr hown).mpr republishable_sample

def refused (r : Payload × Bool × Prepared × Hub) : Bool :=
  (normalizeEvent sampleEnv sampleLimits (r.2.2.1.own.toDict sampleEnv)).toOption.isNone

/-- An explicit null for the covariance is part of the hash, and is not in the event. -/
theorem null_covariance_rejected :
    ∃ data deduped p h, sampleIngest [("covariance", .null)] = .ok (data, deduped, p, h) ∧
      ¬ HashSurvives sampleEnv (fun _ => sampleSettings) (fun _ => true) sampleLimits 86400
        ((Hubs.init : Hubs Bool).put true h) data (p.own.toDict sampleEnv) := by
  have hrun : (sampleIngest [("covariance", .null)]).toOption.any refused := by decide +kernel
  obtain ⟨⟨data, deduped, p, h⟩, hingest, hrefused⟩ := exists_ok refused hrun
  refine ⟨data, deduped, p, h, hingest, fun hsurvives => ?_⟩
  obtain ⟨again, hagain, -⟩ := hsurvives.accepted
  unfold refused at hrefused
  rw [hagain] at hrefused
  cases hrefused

end Qmtl.WorldService.Risk

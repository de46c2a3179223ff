import Qmtl.WorldService.RiskHub

/-!
Snapshots that are written as dictionaries and read again, and what becomes of a snapshot on its way into a hub.
-/

namespace Qmtl.WorldService.Risk

open Lib

variable (env : Env)

/-! ### Reading -/

lemma dictOf_obj (fields : List (String × Json)) : dictOf env (.obj fields) = .ok fields := by
  cases fields <;> rfl

lemma dictOf_ok {v : Json} {fields : List (String × Json)} (h : dictOf env v = .ok fields) :
    truthy env v = false ∧ fields = [] ∨ v = .obj fields ∧ fields ≠ [] ∨ ∃ items, v = .arr items ∧ items ≠ [] := by
  unfold dictOf at h
  split at h
  · rename_i ht
    cases v with
    | obj fs =>
      cases h
      refine .inr (.inl ⟨rfl, ?_⟩)
      rintro rfl
      cases ht
    | arr items =>
      refine .inr (.inr ⟨items, rfl, ?_⟩)
      rintro rfl
      cases ht
    | _ => cases h
  · rename_i ht
    exact .inl ⟨by simpa using ht, (Except.ok.inj h).symm⟩

/-- What tells one snapshot from another, and when it was made. -/
structure Ident where
  worldId : String
  asOf : String
  version : String
  hash : String
  ttlSec : Option ℤ
  createdAt : String

def PortfolioSnapshot.ident (s : PortfolioSnapshot) : Ident :=
  ⟨s.worldId, s.asOf, s.version, s.hash, s.ttlSec, s.createdAt⟩

variable {d : Payload} {s v : PortfolioSnapshot}

lemma deadline_congr {t : PortfolioSnapshot} (h : s.ident = t.ident) : s.deadline env = t.deadline env := by
  have httl : s.ttlSec = t.ttlSec := congrArg Ident.ttlSec h
  have hc : s.createdAt = t.createdAt := congrArg Ident.createdAt h
  unfold PortfolioSnapshot.deadline
  rw [httl, hc]

lemma expired_congr {t : PortfolioSnapshot} (h : s.ident = t.ident) (clock : ℤ) :
    expired env clock s = expired env clock t := by
  unfold expired
  rw [deadline_congr env h]

/-- A dictionary from which a snapshot can be read, under the name of `s`. -/
structure Holds (d : Payload) (s : PortfolioSnapshot) : Prop where
  worldId : d.get? "world_id" = some (.str s.worldId)
  asOf : d.get? "as_of" = some (.str s.asOf)
  version : d.get? "version" = some (.str s.version)
  createdAt : d.get? "created_at" = some (.str s.createdAt)
  hash : d.get? "hash" = if s.hash = "" then none else some (.str s.hash)
  ttlSec : d.get? "ttl_sec" = s.ttlSec.map fun ttl => .num (toString ttl)
  objects : ∀ key ∈ ["weights", "covariance", "stress", "constraints", "provenance"],
    d.get key = .null ∨ ∃ fields, d.get key = .obj fields

lemma holds_toDict (s : PortfolioSnapshot) : Holds (s.toDict env) s := by
  refine ⟨?_, ?_, ?_, ?_, ?_, ?_, ?_⟩
  · exact get?_toDict env s "world_id"
  · exact get?_toDict env s "as_of"
  · exact get?_toDict env s "version"
  · exact get?_toDict env s "created_at"
  · exact get?_toDict env s "hash"
  · exact get?_toDict env s "ttl_sec"
  · intro key hkey
    unfold Payload.get
    rw [get?_toDict]
    simp only [List.mem_cons, List.not_mem_nil, or_false] at hkey
    rcases hkey with rfl | rfl | rfl | rfl | rfl
    · exact .inr ⟨s.weights, rfl⟩
    · by_cases h : s.covariance.isEmpty <;> simp [PortfolioSnapshot.fieldAt, h]
    · by_cases h : s.stress.isEmpty <;> simp [PortfolioSnapshot.fieldAt, h]
    · by_cases h : s.constraints.isEmpty <;> simp [PortfolioSnapshot.fieldAt, h]
    · exact .inr ⟨s.provenance, rfl⟩

def identKeys : List String := ["world_id", "as_of", "version", "created_at", "hash", "ttl_sec"]

lemma Holds.congr {d' : Payload} (h : Holds d s) (hkeys : ∀ key ∈ identKeys, d'.get? key = d.get? key)
    (hob : ∀ key, d'.get key = .null ∨ d'.get key = d.get key ∨
      key ∉ ["weights", "covariance", "stress", "constraints", "provenance"]) : Holds d' s := by
  refine ⟨?_, ?_, ?_, ?_, ?_, ?_, ?_⟩
  · rw [hkeys _ (by decide), h.worldId]
  · rw [hkeys _ (by decide), h.asOf]
  · rw [hkeys _ (by decide), h.version]
  · rw [hkeys _ (by decide), h.createdAt]
  · rw [hkeys _ (by decide), h.hash]
  · rw [hkeys _ (by decide), h.ttlSec]
  · intro key hkey
    rcases hob key with hn | hs | hout
    · exact .inl hn
    · rw [hs]
      exact h.objects key hkey
    · exact absurd hkey hout

lemma get_set (d : Payload) (key k : String) (v : Json) : Payload.get (d.set key v) k = if k = key then v else d.get k := by
  unfold Payload.get
  rw [Dict.get?_set]
  split <;> rfl

lemma get_erase (d : Payload) (key k : String) : Payload.get (d.erase key) k = if k = key then .null else d.get k := by
  unfold Payload.get
  rw [Dict.get?_erase]
  split <;> rfl

lemma Holds.set (h : Holds d s) {key : String} (v : Json) (hid : key ∉ identKeys)
    (hob : v = .null ∨ key ∉ ["weights", "covariance", "stress", "constraints", "provenance"]) :
    Holds (d.set key v) s := by
  refine h.congr (fun k hk => Dict.get?_set_ne _ _ fun he => hid (he ▸ hk)) fun k => ?_
  rw [get_set]
  by_cases hk : k = key
  · rw [if_pos hk]
    rcases hob with hn | hout
    · exact .inl hn
    · exact .inr (.inr (hk ▸ hout))
  · rw [if_neg hk]
    exact .inr (.inl rfl)

lemma Holds.erase (h : Holds d s) {key : String} (hid : key ∉ identKeys) : Holds (d.erase key) s := by
  refine h.congr (fun k hk => ?_) fun k => ?_
  · rw [Dict.get?_erase, if_neg fun he : k = key => hid (he ▸ hk)]
  · rw [get_erase]
    by_cases hk : k = key
    · exact .inl (if_pos hk)
    · exact .inr (.inl (if_neg hk))

/-- **Round trip**: a dictionary that holds a snapshot is read as one of the same name. -/
theorem fromPayload_of_holds (now : Timestamp) (h : Holds d s) :
    ∃ s', PortfolioSnapshot.fromPayload env now d = .ok s' ∧ s'.ident = s.ident := by
  have hobj : ∀ key ∈ ["weights", "covariance", "stress", "constraints", "provenance"],
      ∃ fields, dictOf env (d.get key) = .ok fields := by
    intro key hkey
    rcases h.objects key hkey with hn | ⟨fields, hf⟩
    · exact ⟨[], by rw [hn]; rfl⟩
    · exact ⟨fields, by rw [hf, dictOf_obj]⟩
  obtain ⟨weights, hw⟩ := hobj "weights" (by simp)
  obtain ⟨covariance, hcv⟩ := hobj "covariance" (by simp)
  obtain ⟨stress, hs⟩ := hobj "stress" (by simp)
  obtain ⟨constraints, hc⟩ := hobj "constraints" (by simp)
  obtain ⟨provenance, hp⟩ := hobj "provenance" (by simp)
  have hh : textOf (d.get "hash") = s.hash := by
    unfold Payload.get
    rw [h.hash]
    by_cases hne : s.hash = "" <;> simp [hne, textOf]
  have httl : env.toInt (d.get "ttl_sec") = s.ttlSec := by
    unfold Payload.get
    rw [h.ttlSec]
    cases s.ttlSec with
    | none => exact env.toInt_null
    | some ttl => exact env.toInt_repr ttl
  have hcr : (createdAtOf env now (d.get "created_at")).val = s.createdAt := by
    unfold Payload.get createdAtOf
    rw [h.createdAt]
    have ht : truthy env (.str s.createdAt) := by simpa [truthy] using s.createdAt_ne
    simp only [Option.getD_some, ht, dif_pos, env.toStr_str]
  unfold PortfolioSnapshot.fromPayload
  rw [h.worldId, h.asOf, h.version]
  simp only [hw, hcv, hs, hc, hp, bind, Except.bind, env.toStr_str]
  refine ⟨_, rfl, ?_⟩
  show Ident.mk s.worldId s.asOf s.version (textOf (d.get "hash")) (env.toInt (d.get "ttl_sec"))
    (createdAtOf env now (d.get "created_at")).val = s.ident
  rw [hh, httl, hcr]
  rfl

/-- What a snapshot has from the dictionary it is read from. -/
structure ReadFrom (d : Payload) (s : PortfolioSnapshot) : Prop where
  worldId : ∃ v, d.get? "world_id" = some v ∧ s.worldId = env.toStr v
  asOf : ∃ v, d.get? "as_of" = some v ∧ s.asOf = env.toStr v
  version : ∃ v, d.get? "version" = some v ∧ s.version = env.toStr v
  weights : dictOf env (d.get "weights") = .ok s.weights
  covariance : dictOf env (d.get "covariance") = .ok s.covariance
  covarianceRef : s.covarianceRef = d.get "covariance_ref"
  realizedReturns : s.realizedReturns = d.get "realized_returns"
  realizedReturnsRef : s.realizedReturnsRef = d.get "realized_returns_ref"
  stressRef : s.stressRef = d.get "stress_ref"
  stress : dictOf env (d.get "stress") = .ok s.stress
  constraints : dictOf env (d.get "constraints") = .ok s.constraints
  provenance : dictOf env (d.get "provenance") = .ok s.provenance
  hash : s.hash = textOf (d.get "hash")
  ttlSec : s.ttlSec = env.toInt (d.get "ttl_sec")

lemma fromPayload_ok {now : Timestamp} (h : PortfolioSnapshot.fromPayload env now d = .ok s) : ReadFrom env d s := by
  unfold PortfolioSnapshot.fromPayload at h
  split at h
  · rename_i worldId asOf version hwi hao hv
    obtain ⟨weights, hw, h⟩ := bind_ok.mp h
    obtain ⟨covariance, hcv, h⟩ := bind_ok.mp h
    obtain ⟨stress, hs, h⟩ := bind_ok.mp h
    obtain ⟨constraints, hc, h⟩ := bind_ok.mp h
    obtain ⟨provenance, hp, h⟩ := bind_ok.mp h
    obtain rfl := pure_ok.mp h
    exact ⟨⟨_, hwi, rfl⟩, ⟨_, hao, rfl⟩, ⟨_, hv, rfl⟩, hw, hcv, rfl, rfl, rfl, rfl, hs,
      hc, hp, rfl, rfl⟩
  · cases h
  · cases h
  · cases h

/-! ### On the way into a hub -/

variable (cfg : Settings) (now : Timestamp)

def Kept (s : PortfolioSnapshot) (r : Option PortfolioSnapshot) : Prop := ∀ s' ∈ r, s'.ident = s.ident

lemma Kept.getD {r : Option PortfolioSnapshot} (h : Kept s r) : (r.getD s).ident = s.ident := by
  cases r with
  | none => rfl
  | some s' => exact h s' rfl

lemma kept_of_holds (h : Holds d s) :
    ∃ r, (some <$> PortfolioSnapshot.fromPayload env now d : Except Exn _) = .ok r ∧ Kept s r := by
  obtain ⟨s', hs', hid⟩ := fromPayload_of_holds env now h
  refine ⟨some s', by rw [hs']; rfl, fun t ht => ?_⟩
  cases ht
  exact hid

lemma maybeOffloadCovariance_ok (s : PortfolioSnapshot) :
    ∃ r, maybeOffloadCovariance env cfg now s = .ok r ∧ Kept s r := by
  have hn : ∃ r, (.ok none : Except Exn (Option PortfolioSnapshot)) = .ok r ∧ Kept s r :=
    ⟨none, rfl, fun _ ht => absurd ht (by simp)⟩
  unfold maybeOffloadCovariance
  split
  · split
    · exact kept_of_holds env now (((holds_toDict env s).set .null (by decide) (.inl rfl)).set _ (by decide)
        (.inr (by decide)))
    · exact hn
  · exact hn

lemma offloadRealized_holds {write : String → Json → Timestamp} {threshold : ℕ} {version : String} (h : Holds d s) :
    Holds ((offloadRealized write threshold version d).getD d) s := by
  unfold offloadRealized
  split
  · exact (h.set _ (by decide) (.inr (by decide))).erase (by decide)
  · exact h

lemma offloadStress_holds {write : String → Json → Timestamp} {threshold : ℕ} {version : String} (h : Holds d s) :
    Holds ((offloadStress write threshold version d).getD d) s := by
  unfold offloadStress
  split
  · split
    · exact (h.set _ (by decide) (.inr (by decide))).erase (by decide)
    · exact h
  · exact h

lemma maybeOffloadAuxiliary_ok (s : PortfolioSnapshot) :
    ∃ r, maybeOffloadAuxiliary env cfg now s = .ok r ∧ Kept s r := by
  have hn : ∃ r, (.ok none : Except Exn (Option PortfolioSnapshot)) = .ok r ∧ Kept s r :=
    ⟨none, rfl, fun _ ht => absurd ht (by simp)⟩
  unfold maybeOffloadAuxiliary
  split
  · dsimp only
    split
    · exact kept_of_holds env now (offloadStress_holds (offloadRealized_holds (holds_toDict env s)))
    · exact hn
  · exact hn

/-- The fields that a hub asks for. -/
structure Complete (s : PortfolioSnapshot) : Prop where
  worldId_ne : s.worldId ≠ ""
  asOf_ne : s.asOf ≠ ""
  version_ne : s.version ≠ ""
  weights_ne : s.weights.isEmpty = false
  sum : env.checkWeightSum s.weights = .ok ()

/-- A snapshot that the hub finds nothing to change in. -/
structure Valid (s : PortfolioSnapshot) : Prop extends Complete env s where
  ref : s.realizedReturnsRef = .null ∨ ∃ text, s.realizedReturnsRef = .str text ∧ Clean text
  realized : isNull s.realizedReturns = true ∨
    isNull s.realizedReturns = false ∧ normalizeRealizedReturns env s.realizedReturns = .ok s.realizedReturns

lemma validateSnapshot_of (h : Valid env s) : validateSnapshot env s = .ok s := by
  obtain ⟨⟨hwr, hao, hv, hw, hsum⟩, href, hr⟩ := h
  cases s with
  | mk worldId asOf version weights covariance covarianceRef realized ref stressRef stress constraints provenance hash ttlSec
      createdAt createdAt_ne =>
    unfold validateSnapshot
    rw [if_neg hwr, if_neg hao, if_neg hv, hw]
    simp only [Bool.false_eq_true, if_false, hsum, bind, Except.bind]
    rcases href with rfl | ⟨text, rfl, hc⟩ <;> rcases hr with hn | ⟨hn, hr⟩
    · cases realized with
      | null => rfl
      | _ => cases hn
    · simp only [hn, hr, Bool.false_eq_true, if_false]
      rfl
    · cases realized with
      | null => simp only [hc.stripped]; rfl
      | _ => cases hn
    · simp only [hc.stripped, hn, hr, Bool.false_eq_true, if_false]
      rfl

lemma validateSnapshot_ok (h : validateSnapshot env s = .ok v) :
    Complete env s ∧ v.ident = s.ident ∧ v.provenance = s.provenance := by
  unfold validateSnapshot at h
  split at h
  · cases h
  · rename_i hwr
    split at h
    · cases h
    · rename_i hao
      split at h
      · cases h
      · rename_i hv
        split at h
        · cases h
        · rename_i hw
          obtain ⟨_, hsum, h⟩ := bind_ok.mp h
          obtain ⟨ref, _, h⟩ := bind_ok.mp h
          obtain ⟨realized, _, h⟩ := bind_ok.mp h
          obtain rfl := pure_ok.mp h
          exact ⟨⟨hwr, hao, hv, by simpa using hw, hsum⟩, rfl, rfl⟩

/-- What the first part of an upsert makes of a valid snapshot. -/
structure Prepares (s v : PortfolioSnapshot) (ttl : ℤ) (p : Prepared) : Prop where
  stored : p.stored.ident = { s.ident with ttlSec := some ttl, hash := p.stored.hash }
  hash_ne : p.stored.hash ≠ ""
  hashed : s.hash ≠ "" → p.stored.hash = s.hash ∧ p.own = { v with ttlSec := some ttl }

def ttlOf (s : PortfolioSnapshot) : ℤ := s.ttlSec.getD cfg.ttlDefault

lemma withTtl_ok {own : PortfolioSnapshot} (h : withTtl cfg v = .ok own) :
    0 < ttlOf cfg v ∧ ttlOf cfg v ≤ cfg.ttlMax ∧ own = { v with ttlSec := some (ttlOf cfg v) } := by
  unfold withTtl at h
  dsimp only at h
  split at h
  · cases h
  · split at h
    · cases h
    · rename_i hpos hmax
      exact ⟨not_le.mp hpos, not_lt.mp hmax, (Except.ok.inj h).symm⟩

lemma withTtl_of (hpos : 0 < ttlOf cfg v) (hmax : ttlOf cfg v ≤ cfg.ttlMax) :
    withTtl cfg v = .ok { v with ttlSec := some (ttlOf cfg v) } := by
  unfold withTtl
  unfold ttlOf at hpos hmax ⊢
  rw [if_neg (not_le.mpr hpos), if_neg (not_lt.mpr hmax)]

lemma withHash_ident (s : PortfolioSnapshot) : (withHash env s).ident = { s.ident with hash := (withHash env s).hash } := by
  unfold withHash
  split <;> rfl

lemma withHash_ne (s : PortfolioSnapshot) : (withHash env s).hash ≠ "" := by
  unfold withHash
  split
  · exact env.digest_ne _
  · assumption

lemma withHash_of_hash (h : s.hash ≠ "") : withHash env s = s := if_neg h

/-- **Preparation**: a valid snapshot with a time to live within the limits is prepared. -/
theorem prepare_of (hv : validateSnapshot env s = .ok v) (hpos : 0 < ttlOf cfg s) (hmax : ttlOf cfg s ≤ cfg.ttlMax) :
    ∃ p, prepare env cfg now s = .ok p ∧ Prepares s v (ttlOf cfg s) p := by
  have hid := (validateSnapshot_ok env hv).2.1
  have httl : ttlOf cfg v = ttlOf cfg s := congrArg (fun i : Ident => i.ttlSec.getD cfg.ttlDefault) hid
  set own : PortfolioSnapshot := { v with ttlSec := some (ttlOf cfg v) } with hown
  obtain ⟨first, hfirst, hk⟩ := maybeOffloadCovariance_ok env cfg now own
  obtain ⟨second, hsecond, hk'⟩ := maybeOffloadAuxiliary_ok env cfg now (first.getD own)
  have hs : (second.getD (first.getD own)).ident = { s.ident with ttlSec := some (ttlOf cfg s) } := by
    rw [hk'.getD, hk.getD, hown, ← httl, ← hid]
    rfl
  have hh : (second.getD (first.getD own)).hash = s.hash := congrArg Ident.hash hs
  unfold prepare
  rw [hv]
  simp only [bind, Except.bind, withTtl_of cfg (httl ▸ hpos) (httl ▸ hmax), ← hown, hfirst, hsecond]
  refine ⟨_, rfl, ?_, withHash_ne env _, fun hne => ?_⟩
  · rw [withHash_ident, hs]
  · rw [withHash_of_hash env (hh ▸ hne)]
    refine ⟨hh, ?_⟩
    rw [← httl]
    cases first with
    | some s' => rfl
    | none =>
      cases second with
      | some s' => rfl
      | none => rfl

lemma prepare_ok {p : Prepared} (h : prepare env cfg now s = .ok p) :
    ∃ v, validateSnapshot env s = .ok v ∧ 0 < ttlOf cfg s ∧ ttlOf cfg s ≤ cfg.ttlMax ∧
      Prepares s v (ttlOf cfg s) p := by
  obtain ⟨v, hv, hr⟩ := bind_ok.mp h
  obtain ⟨own, hown, _⟩ := bind_ok.mp hr
  have httl : ttlOf cfg v = ttlOf cfg s :=
    congrArg (fun i : Ident => i.ttlSec.getD cfg.ttlDefault) (validateSnapshot_ok env hv).2.1
  obtain ⟨hpos, hmax, _⟩ := withTtl_ok cfg hown
  rw [httl] at hpos hmax
  obtain ⟨p', hp', hp⟩ := prepare_of env cfg now hv hpos hmax
  cases h.symm.trans hp'
  exact ⟨v, hv, hpos, hmax, hp⟩

end Qmtl.WorldService.Risk

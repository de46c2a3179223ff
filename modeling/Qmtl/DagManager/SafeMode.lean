import Qmtl.DagManager.DiffService
import Qmtl.Gateway.DecisionGuard

/-!
Whether a context stays in safe mode.

Construction never clears the flag, but `with_overrides` evaluates it anew from the domain, which is then the one the
context was downgraded to, and `coerce_compute_context` does not read it.
-/

namespace Qmtl.DagManager.SafeMode

open Lib Foundation DagManager.DiffService

/-! ### Contexts -/

def toDict (c : ComputeContext) (includeFlags includeWorld : Bool) : Object := fun key =>
  let text (v : Option String) : Value := (v.map Value.str).getD .null
  let yes (b : Bool) : Value := if b then .num "True" false else .null
  if key = "execution_domain" then text (ComputeContext.orNone c.executionDomain)
  else if key = "as_of" then text c.asOf
  else if key = "partition" then text c.partition
  else if key = "dataset_fingerprint" then text c.datasetFingerprint
  else if key = "world_id" ∧ includeWorld then text (ComputeContext.orNone c.worldId)
  else if key = "downgraded" ∧ includeFlags then yes c.downgraded
  else if key = "downgrade_reason" ∧ includeFlags ∧ c.downgraded then text (c.downgradeReason.map (·.value))
  else if key = "safe_mode" ∧ includeFlags then yes c.safeMode
  else .null

/-- The contexts that the builders, the overrides and `dataclasses.replace` lead to. -/
inductive Reachable (env : Env) : ComputeContext → Prop
  | coerce (payload : Option Object) : Reachable env (coerceComputeContext env payload)
  | strategy (info : Mapping) : Reachable env (buildStrategyComputeContext env.u.lower info)
  | worldservice (worldId : String) (payload : Mapping) :
      Reachable env (buildWorldserviceComputeContext env.u.lower worldId payload)
  | withWorld {c : ComputeContext} (h : Reachable env c) (worldId : Raw) :
      Reachable env (c.withWorld env.u.lower worldId)
  | withOverrides {c : ComputeContext} (h : Reachable env c) (executionDomain asOf partition dataset : Raw) :
      Reachable env (c.withOverrides env.u.lower executionDomain asOf partition dataset)
  /-- `replace` with any values for any fields. -/
  | replace {c : ComputeContext} (h : Reachable env c) (c' : ComputeContext) :
      Reachable env (ComputeContext.postInit env.u.lower c')

/-- A request that asks for no context. -/
structure EmptyRequest (request : DiffRequest) : Prop where
  worldId : request.worldId = none ∨ request.worldId = some ""
  executionDomain : request.executionDomain = none ∨ request.executionDomain = some ""
  asOf : request.asOf = none ∨ request.asOf = some ""
  partition : request.partition = none ∨ request.partition = some ""
  datasetFingerprint : request.datasetFingerprint = none ∨ request.datasetFingerprint = some ""

/-- What is done to a context without a word on its domain or its `as_of`. -/
inductive Quiet
  | overrides (partition dataset : Raw)
  | sameDomain (partition dataset : Raw)
  | roundTrip
  | merge (request : DiffRequest) (h : EmptyRequest request)

def Quiet.run (env : Env) (c : ComputeContext) : Quiet → ComputeContext
  | .overrides partition dataset => c.withOverrides env.u.lower .none .none partition dataset
  | .sameDomain partition dataset => c.withOverrides env.u.lower (.str c.executionDomain) .none partition dataset
  | .roundTrip => coerceComputeContext env (some (toDict c true true))
  | .merge request _ => mergeContext env c request

/-- There is no `as_of`. -/
def NoAsOf (asOf : Option String) : Prop := asOf = none ∨ asOf = some ""

/-- A backtest without an `as_of`: what is there shows why the context is in safe mode. -/
structure AsOfMissing (c : ComputeContext) : Prop where
  domain : c.executionDomain = "backtest"
  asOf : NoAsOf c.asOf

def Idempotent (lower : Lower) : Prop := ∀ s, lower.fn (lower.fn s) = lower.fn s

lemma idempotent_ascii : Idempotent Lower.ascii := by
  intro s
  simp only [Lower.ascii, String.toList_ofList, List.map_map]
  congr 1
  refine List.map_congr_left fun c _ => ?_
  rcases toLower_cases c with ⟨h1, h2, h3⟩ | h
  · rcases toLower_cases c.toLower with ⟨-, h2', -⟩ | h'
    · omega
    · exact h'
  · rw [Function.comp_apply, h, h]

/-! ### Every context is evaluated -/

section Evaluated

variable {lower : Lower}

lemma backtest_forms (lower : Lower) : strip "backtest" = "backtest" ∧ lower.fn "backtest" = "backtest" ∧
    resolveExecutionDomain lower (stripped "backtest") = some "backtest" := by
  obtain ⟨hs, hlower, hr, -⟩ := Gateway.canonical_forms lower (by decide : "backtest" ∈ Gateway.canonicalDomains)
  exact ⟨hs, hlower, hr⟩

lemma evaluate_cases (lower : Lower) (d : String) (asOf : Option String) :
    ((evaluateSafeMode lower (some d) asOf).executionDomain = "backtest" ∧
      (evaluateSafeMode lower (some d) asOf).safeMode ∧
      (isMissingExecutionDomain lower (some d) ∨ lower.fn (strip d) ∈ ["backtest", "dryrun"] ∧ NoAsOf asOf)) ∨
    ((evaluateSafeMode lower (some d) asOf).executionDomain = lower.fn (strip d) ∧
      (evaluateSafeMode lower (some d) asOf).safeMode = false ∧ lower.fn (strip d) ≠ "default" ∧
      isMissingExecutionDomain lower (some d) = false ∧
      ¬ (lower.fn (strip d) ∈ ["backtest", "dryrun"] ∧ NoAsOf asOf)) := by
  unfold evaluateSafeMode
  split
  · rename_i hm
    exact .inl ⟨rfl, rfl, .inl hm⟩
  · rename_i hm
    dsimp only [Option.getD_some]
    split
    · rename_i hno
      exact .inl ⟨rfl, rfl, .inr hno⟩
    · rename_i hno
      have hdef : lower.fn (strip d) ≠ "default" := by
        simp only [isMissingExecutionDomain, Bool.or_eq_true, decide_eq_true_eq, not_or] at hm
        exact hm.2
      exact .inr ⟨rfl, rfl, hdef, Bool.eq_false_iff.mpr hm, hno⟩

/-- What holds of every context that was constructed. -/
structure Evaluated (lower : Lower) (c : ComputeContext) : Prop where
  ne_empty : c.executionDomain ≠ ""
  strip : strip c.executionDomain = c.executionDomain
  lower : lower.fn c.executionDomain = c.executionDomain
  ne_default : c.executionDomain ≠ "default"
  ne_dryrun : NoAsOf c.asOf → c.executionDomain ≠ "dryrun"
  safe : c.executionDomain = "backtest" → NoAsOf c.asOf → c.safeMode = true

lemma evaluated_postInit (hlower : Idempotent lower) (c : ComputeContext) : Evaluated lower (c.postInit lower) := by
  obtain ⟨hne, hst⟩ := evaluateSafeMode_clean lower (some c.executionDomain) c.asOf
  have hdm : (c.postInit lower).executionDomain =
    (evaluateSafeMode lower (some c.executionDomain) c.asOf).executionDomain := rfl
  have hsf : (c.postInit lower).safeMode =
    (c.safeMode || (evaluateSafeMode lower (some c.executionDomain) c.asOf).safeMode) := rfl
  rw [← hdm] at hne hst
  rcases evaluate_cases lower c.executionDomain c.asOf with ⟨hd, hs, -⟩ | ⟨hd, hs, hdef, -, hno⟩
  · rw [hd] at hdm
    rw [hs, Bool.or_true] at hsf
    exact ⟨hne, hst, by rw [hdm, (backtest_forms lower).2.1], by rw [hdm]; decide,
      fun _ => by rw [hdm]; decide, fun _ _ => hsf⟩
  · rw [hd] at hdm
    refine ⟨hne, hst, by rw [hdm, hlower], by rw [hdm]; exact hdef, fun ha hdry => ?_, fun hb ha => ?_⟩
    · rw [hdm] at hdry
      exact hno ⟨by rw [hdry]; decide, ha⟩
    · rw [hdm] at hb
      exact absurd ⟨by rw [hb]; decide, ha⟩ hno

variable {c : ComputeContext}

lemma Reachable.evaluated {env : Env} (hlower : Idempotent env.u.lower) (h : Reachable env c) :
    Evaluated env.u.lower c := by
  cases h <;> exact evaluated_postInit hlower _

lemma Evaluated.not_missing (h : Evaluated lower c) :
    isMissingExecutionDomain lower (some c.executionDomain) = false := by
  show (decide (Lib.strip c.executionDomain = "") || decide (lower.fn (Lib.strip c.executionDomain) = "default")) = false
  rw [h.strip, h.lower]
  simp [h.ne_empty, h.ne_default]

lemma Evaluated.safe_iff (h : Evaluated lower c) :
    (evaluateSafeMode lower (some c.executionDomain) c.asOf).safeMode ↔ AsOfMissing c := by
  rcases evaluate_cases lower c.executionDomain c.asOf with ⟨-, hs, hc⟩ | ⟨-, hs, -, -, hno⟩
  · refine ⟨fun _ => ?_, fun _ => hs⟩
    rcases hc with hms | ⟨hd, ha⟩
    · rw [h.not_missing] at hms
      cases hms
    · rw [h.strip, h.lower] at hd
      rcases List.mem_cons.mp hd with hb | hdry
      · exact ⟨hb, ha⟩
      · exact absurd (List.mem_singleton.mp hdry) (h.ne_dryrun ha)
  · rw [hs]
    refine ⟨fun hf => absurd hf Bool.false_ne_true, fun hm => absurd ⟨?_, hm.asOf⟩ hno⟩
    rw [h.strip, h.lower, hm.domain]
    decide

end Evaluated

/-! ### What keeps the flag -/

section Kept

variable {env : Env} {c : ComputeContext}

lemma evaluate_backtest (lower : Lower) {asOf : Option String} (h : NoAsOf asOf) :
    (evaluateSafeMode lower (some "backtest") asOf).safeMode := by
  rcases evaluate_cases lower "backtest" asOf with ⟨-, hs, -⟩ | ⟨-, -, -, -, hno⟩
  · exact hs
  · refine absurd ⟨?_, h⟩ hno
    rw [(backtest_forms lower).1, (backtest_forms lower).2.1]
    decide

variable {lower : Lower}

lemma postInit_safeMode {c : ComputeContext} (h : c.safeMode) : (c.postInit lower).safeMode := by
  show (c.safeMode || _)
  rw [h, Bool.true_or]

lemma withWorld_safeMode {c : ComputeContext} (h : c.safeMode) (w : Raw) : (c.withWorld lower w).safeMode :=
  postInit_safeMode h

lemma withOverrides_safeMode {d a p f : Raw} (hd : (if d = .none then c.executionDomain
      else (resolveExecutionDomain lower (normalizeContextValue d)).getD "") = "backtest")
    (ha : NoAsOf (if a = .none then c.asOf else normalizeContextValue a)) :
    (c.withOverrides lower d a p f).safeMode := by
  refine postInit_safeMode ?_
  rw [hd]
  exact evaluate_backtest lower ha

lemma overrides_iff (h : Evaluated env.u.lower c) (partition dataset : Raw) :
    ((Quiet.overrides partition dataset).run env c).safeMode ↔ AsOfMissing c := by
  have hn : (if c.executionDomain = "" then none else some c.executionDomain) = some c.executionDomain :=
    if_neg h.ne_empty
  constructor
  · rw [← h.safe_iff]
    intro hsf
    by_contra hno
    have hsm : (evaluateSafeMode env.u.lower (some c.executionDomain) c.asOf).executionDomain = c.executionDomain := by
      rcases evaluate_cases env.u.lower c.executionDomain c.asOf with ⟨-, hs, -⟩ | ⟨hd, -⟩
      · exact absurd hs hno
      · rw [hd, h.strip, h.lower]
    have hval : ((Quiet.overrides partition dataset).run env c).safeMode =
        ((evaluateSafeMode env.u.lower (if c.executionDomain = "" then none else some c.executionDomain) c.asOf).safeMode ||
          (evaluateSafeMode env.u.lower (some (evaluateSafeMode env.u.lower
            (if c.executionDomain = "" then none else some c.executionDomain) c.asOf).executionDomain) c.asOf).safeMode) := rfl
    rw [hval, hn, hsm, Bool.or_self] at hsf
    exact hno hsf
  · intro hm
    exact withOverrides_safeMode ((if_pos rfl).trans hm.domain) (by rw [if_pos rfl]; exact hm.asOf)

lemma resolve_self (lower : Lower) (h : AsOfMissing c) :
    (if Raw.str c.executionDomain = .none then c.executionDomain
      else (resolveExecutionDomain lower (normalizeContextValue (.str c.executionDomain))).getD "") = "backtest" := by
  rw [if_neg fun hf => Raw.noConfusion hf, h.domain]
  show (resolveExecutionDomain lower (stripped "backtest")).getD "" = "backtest"
  rw [(backtest_forms lower).2.2]
  rfl

lemma sameDomain_safe (h : AsOfMissing c) (partition dataset : Raw) :
    ((Quiet.sameDomain partition dataset).run env c).safeMode :=
  withOverrides_safeMode (resolve_self _ h) (by rw [if_pos rfl]; exact h.asOf)

lemma roundTrip_safe (h : AsOfMissing c) : (Quiet.roundTrip.run env c).safeMode := by
  have hd : (resolveExecutionDomain env.u.lower (normalizeContextValue
      (((toDict c true true "execution_domain").or (toDict c true true "domain")).raw))) = some "backtest" := by
    have hkey : toDict c true true "execution_domain" = .str "backtest" := by
      simp [toDict, h.domain, ComputeContext.orNone]
    rw [hkey]
    exact (backtest_forms env.u.lower).2.2
  have hao : normalizeContextValue (toDict c true true "as_of").raw = none := by
    have hkey : toDict c true true "as_of" = (c.asOf.map DagManager.Value.str).getD .null := by
      simp [toDict]
    rw [hkey]
    rcases h.asOf with ha | ha <;> rw [ha] <;> rfl
  show (coerceComputeContext env (some (toDict c true true))).safeMode
  refine postInit_safeMode ?_
  dsimp only [Option.getD_some]
  rw [hd, hao]
  exact evaluate_backtest env.u.lower (.inl rfl)

lemma stringify_empty {v : Option String} (h : v = none ∨ v = some "") :
    stringify ((v.map DagManager.Value.str).getD .null) = "" := by
  rcases h with rfl | rfl
  · rfl
  · decide

lemma merge_safe (h : AsOfMissing c) (request : DiffRequest) (hempty : EmptyRequest request) :
    ((Quiet.merge request hempty).run env c).safeMode := by
  have hdm : request.executionDomain.bind ComputeContext.orNone = none := by
    rcases hempty.executionDomain with hd | hd <;> rw [hd] <;> rfl
  have hs : normalizeExecutionDomain env.u (.str c.executionDomain) = "backtest" := by
    unfold normalizeExecutionDomain stringify
    dsimp only
    rw [h.domain, (backtest_forms env.u.lower).1, (backtest_forms env.u.lower).2.1]
    rfl
  show (mergeContext env c request).safeMode
  refine withWorld_safeMode (withOverrides_safeMode ?_ ?_) _
  · rw [hdm]
    rw [hs]
    have hm := resolve_self env.u.lower h
    rwa [h.domain] at hm
  · simp only [stringify_empty hempty.asOf, ne_eq, not_true_eq_false, if_false]
    rcases h.asOf with ha | ha
    · rw [ha]
      exact .inl rfl
    · rw [ha]
      exact .inl (by decide)

end Kept

/-- **Where safe mode is kept**: every context has a domain that is named, and is in safe mode as a backtest without
`as_of`; what is quiet keeps a context in safe mode exactly when that is why it is there. -/
theorem safe_mode_kept_iff (env : Env) (hlower : Idempotent env.u.lower) :
    (∀ c, Reachable env c → c.executionDomain ≠ "" ∧ c.executionDomain ≠ "default" ∧
      (c.executionDomain ∈ ["backtest", "dryrun"] → NoAsOf c.asOf → c.safeMode = true)) ∧
    ∀ c, Reachable env c → c.safeMode = true → ((∀ q : Quiet, (q.run env c).safeMode = true) ↔ AsOfMissing c) ∧
      ∀ partition dataset, ((Quiet.overrides partition dataset).run env c).safeMode = true ↔ AsOfMissing c := by
  constructor
  · intro c hc
    have h := hc.evaluated hlower
    refine ⟨h.ne_empty, h.ne_default, fun hd ha => ?_⟩
    rcases List.mem_cons.mp hd with hback | hdry
    · exact h.safe hback ha
    · exact absurd (List.mem_singleton.mp hdry) (h.ne_dryrun ha)
  · intro c hc _
    have h := hc.evaluated hlower
    refine ⟨⟨fun hall => (overrides_iff h .none .none).mp (hall (.overrides .none .none)), fun hm q => ?_⟩,
      fun partition dataset => overrides_iff h partition dataset⟩
    cases q with
    | overrides partition dataset => exact (overrides_iff h partition dataset).mpr hm
    | sameDomain partition dataset => exact sameDomain_safe hm partition dataset
    | roundTrip => exact roundTrip_safe hm
    | merge request hempty => exact merge_safe hm request hempty

/-! ### A context whose domain was missing -/

def asciiEnv : Env where
  u := Unicode.ascii
  blake3 s := s
  loads _ := none
  namespaceEnabled := true

def payloadOf (asOf : DagManager.Value) : Object := fun key => if key = "as_of" then asOf else .null

def withoutDomain : ComputeContext := coerceComputeContext asciiEnv (some (payloadOf (.str "2025-01-01")))

def ofNothing : ComputeContext := coerceComputeContext asciiEnv (some (payloadOf .null))

def emptyRequest : DiffRequest := { strategyId := "s", dagJson := "" }

lemma emptyRequest_empty : EmptyRequest emptyRequest := ⟨.inl rfl, .inl rfl, .inl rfl, .inl rfl, .inl rfl⟩

theorem ofNothing_kept : ofNothing.safeMode = true ∧ (Quiet.roundTrip.run asciiEnv ofNothing).safeMode = true := by
  have hsafe : ofNothing.safeMode := by decide +kernel
  have hmissing : AsOfMissing ofNothing := ⟨by decide +kernel, .inl (by decide +kernel)⟩
  have hkept := ((safe_mode_kept_iff asciiEnv idempotent_ascii).2 ofNothing (.coerce _) hsafe).1.mpr hmissing
  exact ⟨hsafe, hkept .roundTrip⟩

/-- Every quiet step lifts the safe mode of a context that was downgraded for its missing domain. -/
theorem safe_mode_lifted : Reachable asciiEnv withoutDomain ∧ withoutDomain.safeMode = true ∧
    withoutDomain.downgradeReason = some .decisionUnavailable ∧
    ((Quiet.overrides .none .none).run asciiEnv withoutDomain).safeMode = false ∧
    ((Quiet.sameDomain .none .none).run asciiEnv withoutDomain).safeMode = false ∧
    (Quiet.roundTrip.run asciiEnv withoutDomain).safeMode = false ∧
    ((Quiet.merge emptyRequest emptyRequest_empty).run asciiEnv withoutDomain).safeMode = false :=
  ⟨.coerce _, by decide +kernel, by decide +kernel, by decide +kernel, by decide +kernel, by decide +kernel,
    by decide +kernel⟩

end Qmtl.DagManager.SafeMode

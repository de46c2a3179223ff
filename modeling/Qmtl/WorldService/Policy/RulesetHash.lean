import Qmtl.WorldService.Policy.Evaluate

/-!
What the hash of the ruleset covers. Two materialized policies with one hash have the same in every section,
but for the order of the thresholds and of the stress scenarios, which sorting the keys leaves out.
-/

namespace Qmtl.WorldService.PolicyEngine

open Lib

structure ReprReadsBack (env : Env) : Prop where
  inj : ∀ a b, env.repr (.finite a) = env.repr (.finite b) → a = b
  number : ∀ a, Json.isNumText (env.repr (.finite a)) = true
  finite : ∀ a, env.repr (.finite a) ∉ ["Infinity", "-Infinity", "NaN"]

section

variable {env : Env}

/-! ### Numbers -/

lemma floatText_inj (h : ReprReadsBack env) {a b : Double} (heq : floatText env a = floatText env b) : a = b := by
  have hn : ∀ q, env.repr (.finite q) ≠ "Infinity" ∧ env.repr (.finite q) ≠ "-Infinity" ∧
      env.repr (.finite q) ≠ "NaN" := fun q => by simpa using h.finite q
  cases a with
  | finite q =>
    cases b with
    | finite q' => rw [h.inj q q' heq]
    | posInf => exact absurd heq (hn q).1
    | negInf => exact absurd heq (hn q).2.1
    | nan => exact absurd heq (hn q).2.2
  | posInf =>
    cases b with
    | finite q => exact absurd heq.symm (hn q).1
    | posInf => rfl
    | negInf => simp [floatText] at heq
    | nan => simp [floatText] at heq
  | negInf =>
    cases b with
    | finite q => exact absurd heq.symm (hn q).2.1
    | posInf => simp [floatText] at heq
    | negInf => rfl
    | nan => simp [floatText] at heq
  | nan =>
    cases b with
    | finite q => exact absurd heq.symm (hn q).2.2
    | posInf => simp [floatText] at heq
    | negInf => simp [floatText] at heq
    | nan => rfl

lemma jsonFloat_eq (h : ReprReadsBack env) (a b : Double) (hs : Json.Same (jsonFloat env a) (jsonFloat env b)) :
    a = b :=
  floatText_inj h (Json.same_num.mp hs)

lemma valid_jsonFloat (h : ReprReadsBack env) (x : Double) : (jsonFloat env x).Valid := by
  cases x with
  | finite q => exact h.number q
  | posInf => exact (by decide +kernel : Json.isNumText "Infinity")
  | negInf => exact (by decide +kernel : Json.isNumText "-Infinity")
  | nan => exact (by decide +kernel : Json.isNumText "NaN")

lemma jsonInt_eq (a b : ℤ) (h : Json.Same (jsonInt a) (jsonInt b)) : a = b :=
  toString_int_injective (Json.same_num.mp h)

lemma str_eq (a b : String) (h : Json.Same (.str a) (.str b)) : a = b := Json.same_str.mp h

lemma same_of_some {v w : Json} (h : (some v).map Json.sortKeys = (some w).map Json.sortKeys) : Json.Same v w :=
  Option.some.inj h

/-! ### Sections -/

lemma float_eq (h : ReprReadsBack env) {v w : Option Double}
    (heq : (v.map (jsonFloat env)).map Json.sortKeys = (w.map (jsonFloat env)).map Json.sortKeys) : v = w :=
  Json.option_eq (jsonFloat_eq h) heq

lemma text_eq {v w : Option String}
    (heq : (v.map Json.str).map Json.sortKeys = (w.map Json.str).map Json.sortKeys) : v = w :=
  Json.option_eq str_eq heq

attribute [ext] ThresholdRule TopKRule CorrelationRule HysteresisRule Metadata CohortRuleConfig PortfolioRuleConfig
  LiveMonitoringConfig

lemma thresholdRule_eq (h : ReprReadsBack env) (a b : ThresholdRule) (hs : Json.Same (a.json env) (b.json env)) :
    a = b := by
  obtain ⟨hm, hmin, hmax, -⟩ := hs.fields ["metric", "min", "max"] rfl rfl (by decide)
  exact ThresholdRule.ext (str_eq _ _ (same_of_some hm)) (float_eq h hmin) (float_eq h hmax)

lemma topKRule_eq (a b : TopKRule) (hs : Json.Same a.json b.json) : a = b := by
  obtain ⟨hm, hk, -⟩ := hs.fields ["metric", "k"] rfl rfl (by decide)
  exact TopKRule.ext (str_eq _ _ (same_of_some hm)) (Int.ofNat.inj (jsonInt_eq _ _ (same_of_some hk)))

lemma correlationRule_eq (h : ReprReadsBack env) (a b : CorrelationRule)
    (hs : Json.Same (a.json env) (b.json env)) : a = b := by
  obtain ⟨hmax, -⟩ := hs.fields ["max"] rfl rfl (by decide)
  exact CorrelationRule.ext (Double.finite.inj (jsonFloat_eq h _ _ (same_of_some hmax)))

lemma hysteresisRule_eq (h : ReprReadsBack env) (a b : HysteresisRule)
    (hs : Json.Same (a.json env) (b.json env)) : a = b := by
  obtain ⟨hm, hen, hex, -⟩ := hs.fields ["metric", "enter", "exit"] rfl rfl (by decide)
  exact HysteresisRule.ext (str_eq _ _ (same_of_some hm)) (jsonFloat_eq h _ _ (same_of_some hen))
    (jsonFloat_eq h _ _ (same_of_some hex))

lemma validationConfig_eq (a b : ValidationConfig) (hs : Json.Same a.json b.json) : a = b := by
  obtain ⟨hoe, hm, -⟩ := hs.fields ["on_error", "on_missing_metric"] rfl rfl (by decide)
  obtain ⟨onError, missing⟩ := a
  obtain ⟨onError', missing'⟩ := b
  have hoe := str_eq _ _ (same_of_some hoe)
  have hm := str_eq _ _ (same_of_some hm)
  obtain rfl : onError = onError' := by
    cases onError <;> cases onError' <;> simp [OnError.text] at hoe ⊢
  obtain rfl : missing = missing' := by
    cases missing <;> cases missing' <;> simp [MissingMode.text] at hm ⊢
  rfl

lemma cohortRuleConfig_eq (h : ReprReadsBack env) (a b : CohortRuleConfig)
    (hsm : Json.Same (a.json env) (b.json env)) : a = b := by
  obtain ⟨hsh, hdsr, hk, hs, how, -⟩ := hsm.fields
    ["sharpe_median_min", "dsr_median_min", "top_k", "severity", "owner"] rfl rfl (by decide)
  exact CohortRuleConfig.ext (text_eq hs) (text_eq how) (float_eq h hsh) (float_eq h hdsr)
    (Json.option_eq jsonInt_eq hk)

lemma portfolioRuleConfig_eq (h : ReprReadsBack env) (a b : PortfolioRuleConfig)
    (hsm : Json.Same (a.json env) (b.json env)) : a = b := by
  obtain ⟨hvar, hes, hsh, hs, how, -⟩ := hsm.fields
    ["max_incremental_var_99", "max_incremental_es_99", "min_portfolio_sharpe_uplift", "severity", "owner"]
    rfl rfl (by decide)
  exact PortfolioRuleConfig.ext (text_eq hs) (text_eq how) (float_eq h hvar) (float_eq h hes)
    (float_eq h hsh)

lemma liveMonitoringConfig_eq (h : ReprReadsBack env) (a b : LiveMonitoringConfig)
    (hsm : Json.Same (a.json env) (b.json env)) : a = b := by
  obtain ⟨hds, hd, hsh, hdd, hs, how, -⟩ := hsm.fields
    ["lookback_days", "decay_threshold", "sharpe_min", "dd_max", "severity", "owner"] rfl rfl (by decide)
  exact LiveMonitoringConfig.ext (text_eq hs) (text_eq how) (Json.option_eq jsonInt_eq hds)
    (float_eq h hd) (float_eq h hsh) (float_eq h hdd)

def StressRuleConfig.given (c : StressRuleConfig) : Dict String (Dict String Double) := c.scenarios.getD .empty

structure SameStress (a b : StressRuleConfig) : Prop where
  metadata : a.toMetadata = b.toMetadata
  bounds : ∀ name key, (a.given.get? name).map (fun bounds => bounds.get? key) =
    (b.given.get? name).map fun bounds => bounds.get? key

lemma sameStress_of_same (h : ReprReadsBack env) (a b : StressRuleConfig)
    (hsm : Json.Same (a.json env) (b.json env)) : SameStress a b := by
  obtain ⟨hs, hsv, how, -⟩ :=
    hsm.fields ["scenarios", "severity", "owner"] rfl rfl (by decide)
  refine ⟨Metadata.ext (text_eq hsv) (text_eq how), fun name key => ?_⟩
  -- what two scenarios of one name have in common
  have hb : ∀ d e : Dict String Double,
      Json.Same (.ofDict (jsonFloat env) d) (.ofDict (jsonFloat env) e) → d.get? key = e.get? key :=
    fun d e hde => float_eq h (hde.get? key)
  unfold StressRuleConfig.given
  have hrel := Json.rel_of_same (fun d e (hde : Json.Same _ _) => hde) hs
  generalize a.scenarios = s, b.scenarios = t at hrel ⊢
  cases hrel with
  | none => rfl
  | @some d e hde =>
    show (d.get? name).map _ = (e.get? name).map _
    have hrel := Json.rel_of_same hb (hde.get? name)
    generalize d.get? name = o, e.get? name = o' at hrel ⊢
    cases hrel with
    | none => rfl
    | some heq => exact congrArg some heq

/-! ### The whole policy -/

/-- Two materialized policies agree in what the hash covers. -/
structure SameHashed (p q : Policy) : Prop where
  thresholds : ∀ key, p.selection.thresholds.get? key = q.selection.thresholds.get? key
  topK : p.selection.topK = q.selection.topK
  correlation : p.selection.correlation = q.selection.correlation
  hysteresis : p.selection.hysteresis = q.selection.hysteresis
  validation : p.validation = q.validation
  cohort : p.cohort = q.cohort
  portfolio : p.portfolio = q.portfolio
  liveMonitoring : p.liveMonitoring = q.liveMonitoring
  stress : Option.Rel SameStress p.stress q.stress

lemma sameHashed_of_same (h : ReprReadsBack env) {p q : Policy} (hsm : Json.Same (p.json env) (q.json env)) :
    SameHashed p q := by
  obtain ⟨ht, htk, hc, hh, -, -, -, hv, hch, hp, hs, hl,
    -⟩ := hsm.fields ["thresholds", "top_k", "correlation", "hysteresis", "selection", "validation_profiles",
      "default_profile_by_stage", "validation", "cohort", "portfolio", "stress", "live_monitoring"]
    rfl rfl (by decide)
  exact
    { thresholds := fun key => Json.option_eq (thresholdRule_eq h) ((same_of_some ht).get? key)
      topK := Json.option_eq topKRule_eq htk
      correlation := Json.option_eq (correlationRule_eq h) hc
      hysteresis := Json.option_eq (hysteresisRule_eq h) hh
      validation := validationConfig_eq _ _ (same_of_some hv)
      cohort := Json.option_eq (cohortRuleConfig_eq h) hch
      portfolio := Json.option_eq (portfolioRuleConfig_eq h) hp
      liveMonitoring := Json.option_eq (liveMonitoringConfig_eq h) hl
      stress := Json.rel_of_same (sameStress_of_same h) hs }

@[simp] lemma valid_jsonInt (n : ℤ) : (jsonInt n).Valid := Json.isNumText_toString n

@[simp] lemma valid_metadata (m : Metadata) : (Json.record m.fields).Valid := by
  simp [Metadata.fields]

@[simp] lemma valid_topKRule (r : TopKRule) : r.json.Valid := by
  simp [TopKRule.json]

@[simp] lemma valid_validation (v : ValidationConfig) : v.json.Valid := by
  simp [ValidationConfig.json]

lemma valid_thresholdRule (h : ReprReadsBack env) (t : ThresholdRule) : (t.json env).Valid := by
  simp [ThresholdRule.json, valid_jsonFloat h]

lemma valid_correlationRule (h : ReprReadsBack env) (r : CorrelationRule) : (r.json env).Valid := by
  simp [CorrelationRule.json, valid_jsonFloat h]

lemma valid_hysteresisRule (h : ReprReadsBack env) (r : HysteresisRule) : (r.json env).Valid := by
  simp [HysteresisRule.json, valid_jsonFloat h]

lemma valid_cohort (h : ReprReadsBack env) (c : CohortRuleConfig) : (c.json env).Valid := by
  simp [CohortRuleConfig.json, valid_jsonFloat h]

lemma valid_portfolio (h : ReprReadsBack env) (c : PortfolioRuleConfig) : (c.json env).Valid := by
  simp [PortfolioRuleConfig.json, valid_jsonFloat h]

lemma valid_stress (h : ReprReadsBack env) (c : StressRuleConfig) : (c.json env).Valid := by
  simp [StressRuleConfig.json, Json.valid_ofDict, valid_jsonFloat h]

lemma valid_live (h : ReprReadsBack env) (c : LiveMonitoringConfig) : (c.json env).Valid := by
  simp [LiveMonitoringConfig.json, valid_jsonFloat h]

lemma valid_policy (h : ReprReadsBack env) (p : Policy) : (p.json env).Valid := by
  simp [Policy.json, SelectionConfig.fields, Json.valid_ofDict, valid_thresholdRule h, valid_correlationRule h,
    valid_hysteresisRule h, valid_cohort h, valid_portfolio h, valid_stress h, valid_live h, Json.Valid,
    Json.ValidFields]

lemma sameHashed_of_hash (hb : Function.Injective env.blake3) (h : ReprReadsBack env) {p q : Policy}
    {profile profile' : Option String} (heq : rulesetHash env p profile = rulesetHash env q profile') :
    SameHashed p q := by
  have hvalid : ∀ (p : Policy) (profile : Option String), (rulesetPayload env p profile).Valid := by
    intro p profile
    simp only [rulesetPayload, Json.valid_record_cons, Json.valid_record_nil, and_true]
    refine ⟨by simp [valid_policy h], fun v hv => ?_⟩
    obtain ⟨text, -, rfl⟩ := Option.map_eq_some_iff.mp hv
    trivial
  have hd := congrArg String.toList heq
  unfold rulesetHash at hd
  rw [String.toList_append, String.toList_append] at hd
  have htext := hb (String.toList_injective (List.append_cancel_left hd))
  have hs := Json.same_of_compact (hvalid p profile) (hvalid q profile') (String.ofList_injective htext)
  obtain ⟨hp, -⟩ := hs.fields ["policy", "profile"] rfl rfl (by decide)
  exact sameHashed_of_same h (same_of_some hp)

end

end Qmtl.WorldService.PolicyEngine

import Qmtl.Lib.CompactJson
import Qmtl.WorldService.Policy.Rules

/-! The layers across strategies, and `evaluate_policy`: the policy is materialized for the stage, the strategies are selected, the rules and the
layers give their results, and the materialized policy is hashed. -/

namespace Qmtl.WorldService.PolicyEngine

open Lib

def orDefault (value : Option String) (default : String) : String := (value.filter (· ≠ "")).getD default

def Verdict.upper (v : Verdict) (value threshold : Option Double) (missing fail key : String) : Verdict :=
  match threshold with
  | none => v
  | some bound =>
    (v.note key bound).apply <| match value with
      | none => some (.warn missing)
      | some value => if Double.lt bound value then some (.fail fail) else none

def Verdict.lower (v : Verdict) (value threshold : Option Double) (missing fail key : String) : Verdict :=
  match threshold with
  | none => v
  | some bound =>
    (v.note key bound).apply <| match value with
      | none => some (.warn missing)
      | some value => if Double.lt value bound then some (.fail fail) else none

section

variable (env : Env)

/-! ### Cohort -/

def metricSeries (metrics : Dict String Metrics) (key : String) : List Double :=
  metrics.values.filterMap fun values => asNumber (values.get? key) false

def medianOf (values : List Double) : Option Double := if values = [] then none else some (env.median values)

def cohortTopkSelected (metrics : Dict String Metrics) (topK : Option ℤ) (sharpeValues : List Double) : List String :=
  match topK with
  | none => []
  | some k =>
    if k = 0 ∨ sharpeValues = [] then []
    else
      let ranked := env.sorter.sortDesc (fun e => (e.2.get? "sharpe").getD .negInf) metrics.entries
      (if k < 0 then ranked.take (ranked.length - k.natAbs) else ranked.take k.toNat).map (·.1)

def evaluateCohortStrategy (cfg : CohortRuleConfig) (medianSharpe medianDsr : Option Double) (selected : List String)
    (severity owner sid : String) (vals : Metrics) : RuleResult :=
  let details : Details := Dict.ofList [("median_sharpe", .ofNumber medianSharpe), ("median_dsr", .ofNumber medianDsr),
    ("top_k", (cfg.topK.map Datum.int).getD .none),
    ("selected_in_top_k", if selected = [] then .none else .bool (sid ∈ selected)),
    ("sharpe", .ofNumber (vals.get? "sharpe")), ("deflated_sharpe_ratio", .ofNumber (vals.get? "deflated_sharpe_ratio"))]
  let v : Verdict := { details := details }
  let v := v.lower medianSharpe cfg.sharpeMedianMin "median_sharpe_missing" "cohort_median_sharpe_below_min"
    "sharpe_median_min"
  let v := v.lower medianDsr cfg.dsrMedianMin "median_dsr_missing" "cohort_median_dsr_below_min" "dsr_median_min"
  let v := if cfg.topK = none ∨ cfg.topK = some 0 then v
    else v.apply (if selected = [] then some (.warn "top_k_unavailable")
      else if sid ∈ selected then none else some (.fail "cohort_top_k_exceeded"))
  v.result severity owner "cohort_ok" "Cohort criteria satisfied" "cohort"

def evaluateCohortRules (metrics : Dict String Metrics) (cfg : CohortRuleConfig) (sid : String) (vals : Metrics) :
    RuleResult :=
  let sharpeValues := metricSeries metrics "sharpe"
  evaluateCohortStrategy cfg (medianOf env sharpeValues) (medianOf env (metricSeries metrics "deflated_sharpe_ratio"))
    (cohortTopkSelected env metrics cfg.topK sharpeValues) (orDefault cfg.severity "soft") (orDefault cfg.owner "risk")
    sid vals

def evaluatePortfolioRules (cfg : PortfolioRuleConfig) (vals : Metrics) : RuleResult :=
  let number (key : String) : Option Double := asNumber (vals.get? key) false
  let v : Verdict := { details := Dict.ofList [("max_incremental_var_99", .ofNumber (vals.get? "incremental_var_99")),
    ("max_incremental_es_99", .ofNumber (vals.get? "incremental_es_99")),
    ("portfolio_sharpe_uplift", .ofNumber (vals.get? "portfolio_sharpe_uplift"))] }
  let v := v.upper (number "incremental_var_99") cfg.maxIncrementalVar99 "incremental_var_missing"
    "incremental_var_exceeds_max" "incremental_var_99_max"
  let v := v.upper (number "incremental_es_99") cfg.maxIncrementalEs99 "incremental_es_missing"
    "incremental_es_exceeds_max" "incremental_es_99_max"
  let v := v.lower (number "portfolio_sharpe_uplift") cfg.minPortfolioSharpeUplift "portfolio_sharpe_uplift_missing"
    "portfolio_sharpe_uplift_below_min" "min_portfolio_sharpe_uplift"
  v.result (orDefault cfg.severity "soft") (orDefault cfg.owner "risk") "portfolio_ok"
    "Portfolio constraints satisfied" "portfolio"

def Datum.ofText (text : Option String) : Datum := (text.map Datum.text).getD .none

def benchmarkCheck (cfg : BenchmarkRuleConfig) (uplift : Option Double) (v : Verdict) : Verdict :=
  match cfg.minVsBenchmarkSharpe, uplift with
  | none, _ => v
  | some _, none => v.apply (some (.warn "benchmark_uplift_missing"))
  | some bound, some uplift =>
    if Double.lt uplift bound then
      (v.apply (some (.fail "benchmark_uplift_below_min"))).note "min_vs_benchmark_sharpe" bound
    else v

def evaluateBenchmarkRules (cfg : BenchmarkRuleConfig) (stage : Option String) (vals : Metrics) : RuleResult :=
  (benchmarkCheck cfg (vals.get? "vs_benchmark_sharpe") { details := Dict.ofList [("stage", .ofText stage),
    ("sharpe", .ofNumber (vals.get? "sharpe")), ("benchmark_sharpe", .ofNumber (vals.get? "benchmark_sharpe")),
    ("vs_benchmark_sharpe", .ofNumber (vals.get? "vs_benchmark_sharpe"))] }).result
    (orDefault cfg.severity "soft") (orDefault cfg.owner "quant") "benchmark_ok" "Benchmark comparison satisfied"
    "benchmark"

def stressMetricValue (vals : Metrics) (metricPrefix primary : String) (fallback : Option String) : Option Double :=
  asNumber ((vals.get? (metricPrefix ++ primary)).or (fallback.bind fun key => vals.get? (metricPrefix ++ key))) true

structure StressVerdict where
  fails : List String := []
  warns : List String := []
  details : Details

def StressVerdict.check (v : StressVerdict) (value threshold : Option Double) (missing fail key : String) :
    StressVerdict :=
  match threshold with
  | none => v
  | some bound =>
    let v := { v with details := v.details.set key (.number bound) }
    match value with
    | none => { v with warns := v.warns ++ [missing] }
    | some value => if Double.lt bound value then { v with fails := v.fails ++ [fail] } else v

def evaluateStressScenario (vals : Metrics) (v : StressVerdict) (scenario : String × Dict String Double) :
    StressVerdict :=
  let (name, thresholds) := scenario
  let metricPrefix := "stress." ++ name ++ "."
  let v := v.check (stressMetricValue vals metricPrefix "max_drawdown" (some "dd_max")) (thresholds.get? "dd_max")
    (name ++ "_dd_missing") (name ++ "_dd_exceeds_max") (name ++ "_dd_max")
  let v := v.check (stressMetricValue vals metricPrefix "es_99" none) (thresholds.get? "es_99")
    (name ++ "_es_missing") (name ++ "_es_exceeds_max") (name ++ "_es_99_max")
  v.check (stressMetricValue vals metricPrefix "var_99" none) (thresholds.get? "var_99")
    (name ++ "_var_missing") (name ++ "_var_exceeds_max") (name ++ "_var_99_max")

def evaluateStressRules (cfg : StressRuleConfig) (stage : Option String) (vals : Metrics) : RuleResult :=
  let scenarios := cfg.scenarios.getD .empty
  let v := scenarios.entries.foldl (evaluateStressScenario vals)
    { details := Dict.ofList [("scenarios", .ofTexts scenarios.keys), ("stage", .ofText stage)] }
  let combined := v.fails ++ v.warns
  { status := if v.fails ≠ [] then .fail else if v.warns ≠ [] then .warn else .pass
    severity := orDefault cfg.severity "info"
    owner := orDefault cfg.owner "ops"
    reasonCode := combined.headD "stress_ok"
    reason := if combined = [] then "Stress scenarios satisfied" else Lib.join ", " combined
    tags := ["stress"]
    details := v.details }

/-! ### Paper and shadow -/

def paperShadowAllowedForStage (cfg : PaperShadowConsistencyConfig) (stage : Option String) : Bool :=
  let stageNorm := (stage.map (normalizeKey env)).getD ""
  let allowed := match cfg.stages with
    | none | some [] => ["paper", "shadow"]
    | some stages => stages
  stageNorm = "" || allowed.any fun s => normalizeKey env s = stageNorm

def orNonzero (a b : Option Double) : Option Double := if a = none ∨ a = some (.finite 0) then b else a

def paperShadowDetails (vals : Metrics) (stage : Option String) : Details :=
  let number (key : String) : Datum := .ofNumber (vals.get? key)
  Dict.ofList [("stage", .ofText stage), ("baseline_run_id", number "paper_shadow_baseline_run_id"),
    ("backtest_sharpe", number "backtest_sharpe"), ("backtest_max_drawdown", number "backtest_max_drawdown"),
    ("backtest_var_p01", number "backtest_var_p01"), ("backtest_es_p01", number "backtest_es_p01"),
    ("paper_sharpe", number "sharpe"), ("paper_max_drawdown", number "max_drawdown"),
    ("paper_var_p01", .ofNumber (orNonzero (vals.get? "var_p01") (vals.get? "returns.var_p01"))),
    ("paper_es_p01", .ofNumber (orNonzero (vals.get? "es_p01") (vals.get? "returns.es_p01"))),
    ("paper_vs_backtest_sharpe_ratio", number "paper_vs_backtest_sharpe_ratio"),
    ("paper_vs_backtest_dd_ratio", number "paper_vs_backtest_dd_ratio"),
    ("paper_vs_backtest_var_p01_ratio", number "paper_vs_backtest_var_p01_ratio"),
    ("paper_vs_backtest_es_p01_ratio", number "paper_vs_backtest_es_p01_ratio")]

def evaluatePaperShadowStrategy (cfg : PaperShadowConsistencyConfig) (stage : Option String) (vals : Metrics) :
    RuleResult :=
  let number (key : String) : Option Double := asNumber (vals.get? key) false
  let v : Verdict := { details := paperShadowDetails vals stage }
  let v := v.lower (number "paper_vs_backtest_sharpe_ratio") cfg.minSharpeRatio "paper_shadow_sharpe_ratio_missing"
    "paper_shadow_sharpe_ratio_below_min" "min_sharpe_ratio"
  let v := v.upper (number "paper_vs_backtest_dd_ratio") cfg.maxDrawdownRatio "paper_shadow_dd_ratio_missing"
    "paper_shadow_dd_ratio_exceeds_max" "max_drawdown_ratio"
  let v := v.upper (number "paper_vs_backtest_var_p01_ratio") cfg.maxVarP01Ratio "paper_shadow_var_ratio_missing"
    "paper_shadow_var_ratio_exceeds_max" "max_var_p01_ratio"
  let v := v.upper (number "paper_vs_backtest_es_p01_ratio") cfg.maxEsP01Ratio "paper_shadow_es_ratio_missing"
    "paper_shadow_es_ratio_exceeds_max" "max_es_p01_ratio"
  v.result (orDefault cfg.severity "soft") (orDefault cfg.owner "ops") "paper_shadow_ok"
    "Paper/shadow consistency satisfied" "paper_shadow"

def liveMetricValues (metrics : Dict String Metrics) (primary : String) (fallback : Option String) : List Double :=
  metrics.values.filterMap fun values =>
    asNumber ((values.get? primary).or (fallback.bind values.get?)) false

def meanOf (values : List Double) : Option Double := if values = [] then none else some (env.mean values)

def evaluateLiveMonitoring (metrics : Dict String Metrics) (cfg : LiveMonitoringConfig) : RuleResult :=
  let sharpeMean := meanOf env (liveMetricValues metrics "live_sharpe" (some "realized_sharpe"))
  let ddMean := meanOf env (liveMetricValues metrics "live_max_drawdown" (some "realized_max_drawdown"))
  let decayMean := meanOf env (liveMetricValues metrics "live_vs_backtest_sharpe_ratio" none)
  let v : Verdict := { details := Dict.ofList [("sharpe_mean", .ofNumber sharpeMean), ("dd_mean", .ofNumber ddMean),
    ("decay_mean", .ofNumber decayMean), ("lookback_days", (cfg.lookbackDays.map Datum.int).getD .none)] }
  let v := v.lower sharpeMean cfg.sharpeMin "live_sharpe_missing" "live_sharpe_below_min" "sharpe_min"
  let v := v.upper ddMean cfg.ddMax "live_dd_missing" "live_dd_exceeds_max" "dd_max"
  let v := v.lower decayMean cfg.decayThreshold "live_decay_missing" "live_decay_below_threshold" "decay_threshold"
  v.result (orDefault cfg.severity "soft") (orDefault cfg.owner "risk") "live_monitoring_ok"
    "Live monitoring within thresholds" "live_monitoring"

def layerResults (metrics : Dict String Metrics) (policy : Policy) (stage : Option String) (sid : String)
    (vals : Metrics) : List (String × RuleResult) :=
  (policy.cohort.map fun cfg => ("cohort", evaluateCohortRules env metrics cfg sid vals)).toList ++
    (policy.portfolio.map fun cfg => ("portfolio", evaluatePortfolioRules cfg vals)).toList ++
    (policy.benchmark.map fun cfg => ("benchmark", evaluateBenchmarkRules cfg stage vals)).toList ++
    (policy.stress.map fun cfg => ("stress", evaluateStressRules cfg stage vals)).toList ++
    ((policy.paperShadowConsistency.filter fun cfg => paperShadowAllowedForStage env cfg stage).map fun cfg =>
      ("paper_shadow_consistency", evaluatePaperShadowStrategy cfg stage vals)).toList ++
    (policy.liveMonitoring.map fun cfg => ("live_monitoring", evaluateLiveMonitoring env metrics cfg)).toList

end

section

variable (env : Env)

/-! ### The hash of the ruleset -/

def floatText : Double → String
  | .finite q => env.repr (.finite q)
  | .posInf => "Infinity"
  | .negInf => "-Infinity"
  | .nan => "NaN"

def jsonFloat (x : Double) : Json := .num (floatText env x)

def jsonInt (n : ℤ) : Json := .num (toString n)

def Metadata.fields (m : Metadata) : List (String × Option Json) :=
  [("severity", m.severity.map .str), ("owner", m.owner.map .str)]

def ThresholdRule.json (t : ThresholdRule) : Json :=
  .record [("metric", some (.str t.metric)), ("min", t.min.map (jsonFloat env)), ("max", t.max.map (jsonFloat env))]

def TopKRule.json (r : TopKRule) : Json := .record [("metric", some (.str r.metric)), ("k", some (jsonInt r.k))]

def CorrelationRule.json (r : CorrelationRule) : Json := .record [("max", some (jsonFloat env (.finite r.max)))]

def HysteresisRule.json (r : HysteresisRule) : Json :=
  .record [("metric", some (.str r.metric)), ("enter", some (jsonFloat env r.enter)),
    ("exit", some (jsonFloat env r.exit))]

def SelectionConfig.fields (s : SelectionConfig) : List (String × Option Json) :=
  [("thresholds", some (.ofDict (·.json env) s.thresholds)), ("top_k", s.topK.map (·.json)),
    ("correlation", s.correlation.map (·.json env)), ("hysteresis", s.hysteresis.map (·.json env))]

def OnError.text : OnError → String
  | fail => "fail"
  | warn => "warn"

def ValidationConfig.json (v : ValidationConfig) : Json :=
  .record [("on_error", some (.str v.onError.text)), ("on_missing_metric", some (.str v.onMissingMetric.text))]

def CohortRuleConfig.json (c : CohortRuleConfig) : Json :=
  .record ([("sharpe_median_min", c.sharpeMedianMin.map (jsonFloat env)),
    ("dsr_median_min", c.dsrMedianMin.map (jsonFloat env)), ("top_k", c.topK.map jsonInt)] ++ c.toMetadata.fields)

def PortfolioRuleConfig.json (c : PortfolioRuleConfig) : Json :=
  .record ([("max_incremental_var_99", c.maxIncrementalVar99.map (jsonFloat env)),
    ("max_incremental_es_99", c.maxIncrementalEs99.map (jsonFloat env)),
    ("min_portfolio_sharpe_uplift", c.minPortfolioSharpeUplift.map (jsonFloat env))] ++ c.toMetadata.fields)

def StressRuleConfig.json (c : StressRuleConfig) : Json :=
  .record (("scenarios", c.scenarios.map (.ofDict (.ofDict (jsonFloat env)))) :: c.toMetadata.fields)

def LiveMonitoringConfig.json (c : LiveMonitoringConfig) : Json :=
  .record ([("lookback_days", c.lookbackDays.map jsonInt), ("decay_threshold", c.decayThreshold.map (jsonFloat env)),
    ("sharpe_min", c.sharpeMin.map (jsonFloat env)), ("dd_max", c.ddMax.map (jsonFloat env))] ++ c.toMetadata.fields)

def Policy.json (p : Policy) : Json :=
  .record (p.selection.fields env ++ [("selection", some (.record (p.selection.fields env))),
    ("validation_profiles", some (.obj [])), ("default_profile_by_stage", some (.obj [])),
    ("validation", some p.validation.json), ("cohort", p.cohort.map (·.json env)),
    ("portfolio", p.portfolio.map (·.json env)), ("stress", p.stress.map (·.json env)),
    ("live_monitoring", p.liveMonitoring.map (·.json env))])

def rulesetPayload (policy : Policy) (profile : Option String) : Json :=
  .record [("policy", some (policy.json env)), ("profile", (profile.filter (· ≠ "")).map .str)]

def rulesetHash (policy : Policy) (profile : Option String) : String :=
  "blake3:" ++ env.blake3 (String.ofList (Json.Escaping.ascii.compact (rulesetPayload env policy profile).sortKeys))

/-! ### The evaluation -/

structure PolicyEvaluationResult where
  selectedIds : List String
  ruleResults : Dict String (Dict String RuleResult)
  profile : Option String
  rulesetHash : String
  policyVersion : Option String
  recommendedStage : Option String

def stageToStage : List (String × String) :=
  [("backtest", "backtest_only"), ("paper", "paper_only"), ("live", "paper_ok_live_candidate"),
    ("backtest_only", "backtest_only"), ("paper_only", "paper_only"),
    ("paper_ok_live_candidate", "paper_ok_live_candidate")]

def profileToStage : List (String × String) :=
  [("backtest", "backtest_only"), ("paper", "paper_only"), ("live", "paper_ok_live_candidate")]

def recommendedStage (profile stage : Option String) : Option String :=
  (stage.bind fun s => stageToStage.lookup (normalizeKey env s)).or
    (profile.bind fun p => profileToStage.lookup (normalizeKey env p))

structure Request where
  metrics : Dict String (List (String × Payload))
  prevActive : List String := []
  correlations : Option Correlations := none
  stage : Option String := none
  profile : Option String := none
  policyVersion : Option String := none

def selectionOf (policy : Policy) (r : Request) : Preparation :=
  preparePolicySelection env.sorter (normalizeMetrics r.metrics) (materializePolicy env policy r.stage r.profile).1
    r.prevActive r.correlations

def strategyResults (policy : Policy) (r : Request) (sid : String) (vals : Metrics) : Dict String RuleResult :=
  let (resolved, _, config) := materializePolicy env policy r.stage r.profile
  (ruleResults env resolved (selectionOf env policy r) config r.prevActive sid vals).update
    (layerResults env (normalizeMetrics r.metrics) policy r.stage sid vals)

def evaluatePolicy (policy : Policy) (r : Request) : PolicyEvaluationResult :=
  let (resolved, profile, _) := materializePolicy env policy r.stage r.profile
  { selectedIds := (selectionOf env policy r).selectedIds
    ruleResults := Dict.ofList ((normalizeMetrics r.metrics).entries.map fun e =>
      (e.1, strategyResults env policy r e.1 e.2))
    profile := profile
    rulesetHash := rulesetHash env resolved profile
    policyVersion := r.policyVersion
    recommendedStage := recommendedStage env profile r.stage }

end

/-! ### Results by strategy -/

variable {env : Env} {policy : Policy} {r : Request}

lemma get?_ruleResults {sid : String} : (evaluatePolicy env policy r).ruleResults.get? sid =
      ((normalizeMetrics r.metrics).get? sid).map (strategyResults env policy r sid) := by
  show (Dict.ofList ((normalizeMetrics r.metrics).entries.map fun e => (e.1, strategyResults env policy r e.1 e.2))).get?
    sid = _
  generalize normalizeMetrics r.metrics = metrics
  have hkeys : ((metrics.entries.map fun e => (e.1, strategyResults env policy r e.1 e.2)).map Prod.fst).Nodup := by
    rw [List.map_map]
    exact metrics.nodup
  refine Option.ext fun result => ?_
  rw [Dict.get?_eq_some, Dict.entries_ofList hkeys, List.mem_map, Option.map_eq_some_iff]
  constructor
  · rintro ⟨e, he, heq⟩
    cases heq
    exact ⟨e.2, Dict.get?_eq_some.mpr he, rfl⟩
  · rintro ⟨vals, hget, rfl⟩
    exact ⟨(sid, vals), Dict.get?_eq_some.mp hget, rfl⟩

def layerNames : List String :=
  ["cohort", "portfolio", "benchmark", "stress", "paper_shadow_consistency", "live_monitoring"]

lemma layerResults_sublist (metrics : Dict String Metrics) (stage : Option String) (sid : String) (vals : Metrics) :
    ((layerResults env metrics policy stage sid vals).map Prod.fst).Sublist layerNames := by
  have hone : ∀ {α : Type} (o : Option α) (key : String) (f : α → RuleResult),
      (((o.map fun cfg => (key, f cfg)).toList).map Prod.fst).Sublist [key] := by
    intro α o key f
    cases o with
    | none => exact List.nil_sublist _
    | some cfg => exact .refl _
  unfold layerResults
  simp only [List.map_append]
  exact (((((hone _ _ _).append (hone _ _ _)).append (hone _ _ _)).append (hone _ _ _)).append (hone _ _ _)).append
    (hone _ _ _)

lemma get?_strategyResults_eq {sid : String} {values : Metrics} (name : String) :
    (strategyResults env policy r sid values).get? name =
      ((layerResults env (normalizeMetrics r.metrics) policy r.stage sid values).lookup name).orElse fun _ =>
        (ruleResults env (materializePolicy env policy r.stage r.profile).1 (selectionOf env policy r)
          (materializePolicy env policy r.stage r.profile).2.2 r.prevActive sid values).get? name :=
  Dict.get?_update ((layerResults_sublist _ _ _ _).nodup (by decide)) name

lemma get?_strategyResults {sid : String} {values : Metrics} {name : String} (h : name ∉ layerNames) :
    (strategyResults env policy r sid values).get? name =
      (ruleResults env (materializePolicy env policy r.stage r.profile).1 (selectionOf env policy r)
        (materializePolicy env policy r.stage r.profile).2.2 r.prevActive sid values).get? name := by
  have hout : (layerResults env (normalizeMetrics r.metrics) policy r.stage sid values).lookup name = none := by
    rw [List.lookup_eq_none_iff]
    intro e he
    have hl : e.1 ∈ layerNames := (layerResults_sublist _ _ _ _).subset (List.mem_map.mpr ⟨e, he, rfl⟩)
    have hne : name ≠ e.1 := fun heq => h (heq ▸ hl)
    simpa using hne
  rw [get?_strategyResults_eq, hout]
  rfl

def decimalText : Double → String
  | .finite q => (if q < 0 then "-" else "") ++ toString |q|.floor ++ "." ++ toString ((|q| - |q|.floor) * 10).floor
  | .posInf => "inf"
  | .negInf => "-inf"
  | .nan => "nan"

def meanOfNumbers (values : List Double) : Double :=
  .finite ((values.map fun x => match x with
    | .finite a => a
    | _ => 0).sum / values.length)

def plainEnv : Env where
  lower := Lower.ascii
  sorter := Sorter.stable
  repr := decimalText
  float n := .finite n
  sub x y := match x, y with
    | .finite a, .finite b => .finite (a - b)
    | _, _ => .nan
  mean := meanOfNumbers
  median values :=
    let sorted := values.insertionSort fun x y => Double.lt x y = true
    meanOfNumbers ((sorted.drop ((sorted.length - 1) / 2)).take (2 - sorted.length % 2))
  listOfSet := id
  blake3 := id

end Qmtl.WorldService.PolicyEngine

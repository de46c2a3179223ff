import Qmtl.WorldService.Policy.RuleConfigs

/-! `evaluate_extended_layers` over evaluation runs: it keeps the metrics of one run for each strategy, the last one, and
gives the strategy the results of the layers on these. -/

namespace Qmtl.WorldService.PolicyEngine

open Lib

/-! ### The metrics of a strategy -/

def nonzero (x : Option Double) : Option Double := x.filter (· ≠ .finite 0)

section

variable (divide : Double → Double → Double)

def augmentExtendedMetricDerivatives (flat : Metrics) : Metrics :=
  let liveDd := flat.get? "live_max_drawdown"
  let out := match flat.get? "live_sharpe", nonzero (flat.get? "sharpe") with
    | some live, some backtest => setDefault flat "live_vs_backtest_sharpe_ratio" (divide live backtest)
    | _, _ => flat
  let out := match liveDd with
    | some live => setDefault out "live_dd" live
    | none => out
  match liveDd, nonzero (flat.get? "max_drawdown") with
  | some live, some backtest => setDefault out "live_vs_backtest_dd_ratio" (divide live backtest)
  | _, _ => out

def flattenEvaluationMetrics (metrics : List (String × Payload)) : Metrics :=
  if metrics.isEmpty then .empty else augmentExtendedMetricDerivatives divide (flattenMetrics metrics)

abbrev RunMetrics := String × List (String × Payload)

def metricsMap (runs : List RunMetrics) : Dict String Metrics :=
  runs.foldl (fun metrics run =>
    if run.1 = "" then metrics else metrics.set run.1 (flattenEvaluationMetrics divide run.2)) .empty

end

def mergeCrossStrategyLayers (env : Env) (metrics : Dict String Metrics) (policy : Policy) (stage : Option String) :
    Dict String (Dict String RuleResult) :=
  metrics.entries.foldl (fun merged e =>
    let perRule := Dict.ofList (layerResults env metrics policy stage e.1 e.2)
    if perRule.entries.isEmpty then merged else merged.set e.1 perRule) .empty

def evaluateExtendedLayers (env : Env) (divide : Double → Double → Double) (runs : List RunMetrics) (policy : Policy)
    (stage : Option String) : Dict String (Dict String RuleResult) :=
  mergeCrossStrategyLayers env (metricsMap divide runs) policy stage

def lastMetrics (runs : List RunMetrics) (sid : String) : Option (List (String × Payload)) :=
  ((runs.filter fun run => run.1 = sid).getLast?).map Prod.snd

lemma lastMetrics_concat (runs : List RunMetrics) (run : RunMetrics) (sid : String) :
    lastMetrics (runs ++ [run]) sid = if run.1 = sid then some run.2 else lastMetrics runs sid := by
  unfold lastMetrics
  rw [List.filter_append, List.filter_cons, List.filter_nil]
  by_cases hsid : run.1 = sid
  · rw [if_pos hsid, if_pos (decide_eq_true hsid), List.getLast?_concat, Option.map_some]
  · rw [if_neg hsid, if_neg fun h => hsid (of_decide_eq_true h), List.append_nil]

variable {env : Env} {sid : String} {stage : Option String} {vals vals' : Metrics}

lemma get?_metricsMap (divide : Double → Double → Double) (runs : List RunMetrics) (hsid : sid ≠ "") :
    (metricsMap divide runs).get? sid = (lastMetrics runs sid).map (flattenEvaluationMetrics divide) := by
  induction runs using List.reverseRecOn with
  | nil => rfl
  | append_singleton runs run ih =>
    rw [metricsMap, List.foldl_concat, ← metricsMap, lastMetrics_concat]
    by_cases hrun : run.1 = sid
    · rw [if_neg fun hempty => hsid (hrun ▸ hempty), if_pos hrun, hrun, Dict.get?_set_self, Option.map_some]
    · rw [if_neg hrun, ← ih]
      split
      · rfl
      · rw [Dict.get?_set_ne _ _ fun heq => hrun heq.symm]

variable {policy : Policy} {metrics : Dict String Metrics}

lemma get?_mergeCrossStrategyLayers : (mergeCrossStrategyLayers env metrics policy stage).get? sid =
      ((metrics.get? sid).map fun vals => Dict.ofList (layerResults env metrics policy stage sid vals)).filter
        fun perRule => !perRule.entries.isEmpty := by
  have hgen : ∀ (es : List (String × Metrics)) (acc : Dict String (Dict String RuleResult)),
      (es.map Prod.fst).Nodup → ∀ sid, (es.foldl (fun merged e =>
        let perRule := Dict.ofList (layerResults env metrics policy stage e.1 e.2)
        if perRule.entries.isEmpty then merged else merged.set e.1 perRule) acc).get? sid =
      (((es.lookup sid).map fun vals => Dict.ofList (layerResults env metrics policy stage sid vals)).filter
        fun perRule => !perRule.entries.isEmpty).or (acc.get? sid) := by
    intro es
    induction es with
    | nil => exact fun _ _ _ => rfl
    | cons e es ih =>
      intro acc hn sid
      obtain ⟨hnot, hn⟩ := List.nodup_cons.mp hn
      rw [List.foldl_cons, ih _ hn, Dict.lookup_cons]
      by_cases hsid : sid = e.1
      · have hl : es.lookup sid = none := by
          refine List.lookup_eq_none_iff.mpr fun e' he' => ?_
          rw [hsid]
          exact bne_iff_ne.mpr fun heq => hnot (heq ▸ List.mem_map_of_mem he')
        rw [if_pos hsid, hl, Option.map_none, Option.filter_none, Option.none_or, Option.map_some, hsid]
        dsimp only
        split
        · rename_i hempty
          rw [Option.filter_some_neg (by rw [hempty]; rfl), Option.none_or]
        · rename_i hne
          rw [Option.filter_some_pos (by simpa using hne), Dict.get?_set_self, Option.some_or]
      · rw [if_neg hsid]
        congr 1
        dsimp only
        split
        · rfl
        · exact Dict.get?_set_ne _ _ hsid
  exact (hgen metrics.entries .empty metrics.nodup sid).trans Option.or_none

/-! ### What a layer reads -/

def AgreeOn (names : List String) (vals vals' : Metrics) : Prop := ∀ name ∈ names, vals.get? name = vals'.get? name

def portfolioMetrics : List String := ["incremental_var_99", "incremental_es_99", "portfolio_sharpe_uplift"]

def benchmarkMetrics : List String := ["sharpe", "benchmark_sharpe", "vs_benchmark_sharpe"]

def paperShadowMetrics : List String :=
  ["paper_shadow_baseline_run_id", "backtest_sharpe", "backtest_max_drawdown", "backtest_var_p01", "backtest_es_p01",
    "sharpe", "max_drawdown", "paper_vs_backtest_sharpe_ratio", "paper_vs_backtest_dd_ratio",
    "paper_vs_backtest_var_p01_ratio", "paper_vs_backtest_es_p01_ratio"]

def paperTail (vals : Metrics) (name : String) : Option Double :=
  orNonzero (vals.get? name) (vals.get? ("returns." ++ name))

def ownLayerResults (env : Env) (policy : Policy) (stage : Option String) (vals : Metrics) : List (String × RuleResult) :=
  (policy.portfolio.map fun cfg => ("portfolio", evaluatePortfolioRules cfg vals)).toList ++
    (policy.benchmark.map fun cfg => ("benchmark", evaluateBenchmarkRules cfg stage vals)).toList ++
    (policy.stress.map fun cfg => ("stress", evaluateStressRules cfg stage vals)).toList ++
    ((policy.paperShadowConsistency.filter fun cfg => paperShadowAllowedForStage env cfg stage).map fun cfg =>
      ("paper_shadow_consistency", evaluatePaperShadowStrategy cfg stage vals)).toList

/-- The metrics agree where a layer reads them. The stress layer keeps no value it compares, only its reasons as one text,
so that it is told by its result. -/
structure ReadAlike (env : Env) (policy : Policy) (stage : Option String) (vals vals' : Metrics) : Prop where
  portfolio : policy.portfolio ≠ none → AgreeOn portfolioMetrics vals vals'
  benchmark : policy.benchmark ≠ none → AgreeOn benchmarkMetrics vals vals'
  stress : ∀ cfg, policy.stress = some cfg → evaluateStressRules cfg stage vals = evaluateStressRules cfg stage vals'
  paperShadow : ∀ cfg, policy.paperShadowConsistency = some cfg → paperShadowAllowedForStage env cfg stage = true →
    AgreeOn paperShadowMetrics vals vals' ∧ ∀ name ∈ ["var_p01", "es_p01"], paperTail vals name = paperTail vals' name

lemma ofNumber_injective : Function.Injective Datum.ofNumber := by
  intro x y h
  cases x with
  | none =>
    cases y with
    | none => rfl
    | some y => cases h
  | some x =>
    cases y with
    | none => cases h
    | some y => rw [Datum.number.inj h]

/-! ### The layers of one strategy -/

lemma get?_benchmarkCheck {cfg : BenchmarkRuleConfig} {uplift : Option Double} {v : Verdict} {name : String}
    (h : name ≠ "min_vs_benchmark_sharpe") :
    (benchmarkCheck cfg uplift v).details.get? name = v.details.get? name := by
  unfold benchmarkCheck
  split
  · rfl
  · rw [details_apply]
  · split
    · rw [Verdict.note]
      rw [Dict.get?_set_ne _ _ h, details_apply]
    · rfl

lemma evaluatePortfolioRules_eq_iff_agreeOn {cfg : PortfolioRuleConfig} :
    evaluatePortfolioRules cfg vals = evaluatePortfolioRules cfg vals' ↔ AgreeOn portfolioMetrics vals vals' := by
  have hd : ∀ (vals : Metrics) (name : String),
      name ∉ ["incremental_var_99_max", "incremental_es_99_max", "min_portfolio_sharpe_uplift"] →
      (evaluatePortfolioRules cfg vals).details.get? name =
        (Dict.ofList [("max_incremental_var_99", Datum.ofNumber (vals.get? "incremental_var_99")),
          ("max_incremental_es_99", .ofNumber (vals.get? "incremental_es_99")),
          ("portfolio_sharpe_uplift", .ofNumber (vals.get? "portfolio_sharpe_uplift"))]).get? name := by
    intro vals name hn
    simp only [List.mem_cons, List.not_mem_nil, or_false, not_or] at hn
    unfold evaluatePortfolioRules Verdict.result
    simp [get?_lower, get?_upper, if_neg hn.1, if_neg hn.2.1, if_neg hn.2.2]
  constructor
  · intro h name hmem
    have hs : ∀ shown, shown ∉ ["incremental_var_99_max", "incremental_es_99_max", "min_portfolio_sharpe_uplift"] →
        _ := fun shown hne => (hd vals shown hne).symm.trans ((congrArg (·.details.get? shown) h).trans
          (hd vals' shown hne))
    simp only [portfolioMetrics, List.mem_cons, List.not_mem_nil, or_false] at hmem
    rcases hmem with rfl | rfl | rfl
    · exact ofNumber_injective (Option.some.inj (hs "max_incremental_var_99" (by decide)))
    · exact ofNumber_injective (Option.some.inj (hs "max_incremental_es_99" (by decide)))
    · exact ofNumber_injective (Option.some.inj (hs "portfolio_sharpe_uplift" (by decide)))
  · intro h
    simp only [AgreeOn, portfolioMetrics, List.forall_mem_cons] at h
    obtain ⟨hvar, hes, hu, -⟩ := h
    simp [evaluatePortfolioRules, hvar, hes, hu]

lemma evaluateBenchmarkRules_eq_iff_agreeOn {cfg : BenchmarkRuleConfig} :
    evaluateBenchmarkRules cfg stage vals = evaluateBenchmarkRules cfg stage vals' ↔
      AgreeOn benchmarkMetrics vals vals' := by
  constructor
  · intro h name hmem
    have hs : ∀ shown, shown ≠ "min_vs_benchmark_sharpe" → _ := fun shown hne =>
      (get?_benchmarkCheck hne).symm.trans ((congrArg (·.details.get? shown) h).trans (get?_benchmarkCheck hne))
    simp only [benchmarkMetrics, List.mem_cons, List.not_mem_nil, or_false] at hmem
    rcases hmem with rfl | rfl | rfl
    · exact ofNumber_injective (Option.some.inj (hs "sharpe" (by decide)))
    · exact ofNumber_injective (Option.some.inj (hs "benchmark_sharpe" (by decide)))
    · exact ofNumber_injective (Option.some.inj (hs "vs_benchmark_sharpe" (by decide)))
  · intro h
    simp only [AgreeOn, benchmarkMetrics, List.forall_mem_cons] at h
    obtain ⟨hsh, hb, hu, -⟩ := h
    simp [evaluateBenchmarkRules, hsh, hb, hu]

def paperShadowNames : List (String × String) :=
  [("baseline_run_id", "paper_shadow_baseline_run_id"), ("backtest_sharpe", "backtest_sharpe"),
    ("backtest_max_drawdown", "backtest_max_drawdown"), ("backtest_var_p01", "backtest_var_p01"),
    ("backtest_es_p01", "backtest_es_p01"), ("paper_sharpe", "sharpe"), ("paper_max_drawdown", "max_drawdown"),
    ("paper_vs_backtest_sharpe_ratio", "paper_vs_backtest_sharpe_ratio"),
    ("paper_vs_backtest_dd_ratio", "paper_vs_backtest_dd_ratio"),
    ("paper_vs_backtest_var_p01_ratio", "paper_vs_backtest_var_p01_ratio"),
    ("paper_vs_backtest_es_p01_ratio", "paper_vs_backtest_es_p01_ratio")]

lemma get?_paperShadowDetails (vals : Metrics) (stage : Option String) :
    (∀ e ∈ paperShadowNames, (paperShadowDetails vals stage).get? e.1 = some (.ofNumber (vals.get? e.2))) ∧
      (paperShadowDetails vals stage).get? "paper_var_p01" = some (.ofNumber (paperTail vals "var_p01")) ∧
      (paperShadowDetails vals stage).get? "paper_es_p01" = some (.ofNumber (paperTail vals "es_p01")) := by
  have hget : ∀ {es : List (String × Datum)} {name : String} {d : Datum}, (es.map Prod.fst).Nodup → (name, d) ∈ es →
      (Dict.ofList es).get? name = some d := by
    intro es name d hn hmem
    rw [Dict.get?_eq_some, Dict.entries_ofList hn]
    exact hmem
  have hn : ["stage", "baseline_run_id", "backtest_sharpe", "backtest_max_drawdown", "backtest_var_p01",
      "backtest_es_p01", "paper_sharpe", "paper_max_drawdown", "paper_var_p01", "paper_es_p01",
      "paper_vs_backtest_sharpe_ratio", "paper_vs_backtest_dd_ratio", "paper_vs_backtest_var_p01_ratio",
      "paper_vs_backtest_es_p01_ratio"].Nodup := by decide
  unfold paperShadowDetails
  refine ⟨fun e he => hget hn ?_, hget hn ?_, hget hn ?_⟩
  · simp only [paperShadowNames, List.mem_cons, List.not_mem_nil, or_false] at he
    rcases he with rfl | rfl | rfl | rfl | rfl | rfl | rfl | rfl | rfl | rfl | rfl <;> simp
  · simp [paperTail]
  · simp [paperTail]

lemma evaluatePaperShadowStrategy_eq_iff_agreeOn {cfg : PaperShadowConsistencyConfig} :
    evaluatePaperShadowStrategy cfg stage vals = evaluatePaperShadowStrategy cfg stage vals' ↔
      AgreeOn paperShadowMetrics vals vals' ∧ ∀ name ∈ ["var_p01", "es_p01"], paperTail vals name = paperTail vals' name := by
  have hd : ∀ (vals : Metrics) (name : String),
      name ∉ ["min_sharpe_ratio", "max_drawdown_ratio", "max_var_p01_ratio", "max_es_p01_ratio"] →
      (evaluatePaperShadowStrategy cfg stage vals).details.get? name = (paperShadowDetails vals stage).get? name := by
    intro vals name hn
    simp only [List.mem_cons, List.not_mem_nil, or_false, not_or] at hn
    obtain ⟨hsh, hdd, hvar, hes⟩ := hn
    unfold evaluatePaperShadowStrategy Verdict.result
    simp [get?_lower, get?_upper, if_neg hsh, if_neg hdd, if_neg hvar, if_neg hes]
  constructor
  · intro h
    have hs : ∀ shown, shown ∉ ["min_sharpe_ratio", "max_drawdown_ratio", "max_var_p01_ratio", "max_es_p01_ratio"] →
        (paperShadowDetails vals stage).get? shown = (paperShadowDetails vals' stage).get? shown := fun shown hne =>
      (hd vals shown hne).symm.trans ((congrArg (·.details.get? shown) h).trans (hd vals' shown hne))
    obtain ⟨hnm, hvar, hes⟩ := get?_paperShadowDetails vals stage
    obtain ⟨hn', hv', hes'⟩ := get?_paperShadowDetails vals' stage
    refine ⟨fun name hmem => ?_, ?_⟩
    · obtain ⟨e, he, rfl⟩ : ∃ e ∈ paperShadowNames, e.2 = name := by
        rw [← List.mem_map]
        exact hmem
      have hne : e.1 ∉ ["min_sharpe_ratio", "max_drawdown_ratio", "max_var_p01_ratio", "max_es_p01_ratio"] := by
        have hall : ∀ e ∈ paperShadowNames,
            e.1 ∉ ["min_sharpe_ratio", "max_drawdown_ratio", "max_var_p01_ratio", "max_es_p01_ratio"] := by decide
        exact hall e he
      exact ofNumber_injective (Option.some.inj ((hnm e he).symm.trans ((hs e.1 hne).trans (hn' e he))))
    · simp only [List.forall_mem_cons]
      refine ⟨?_, ?_, fun name hmem => absurd hmem List.not_mem_nil⟩
      · exact ofNumber_injective (Option.some.inj (hvar.symm.trans ((hs _ (by decide)).trans hv')))
      · exact ofNumber_injective (Option.some.inj (hes.symm.trans ((hs _ (by decide)).trans hes')))
  · rintro ⟨h, ht⟩
    simp only [List.forall_mem_cons] at ht
    obtain ⟨hvar, hes, -⟩ := ht
    simp only [AgreeOn, paperShadowMetrics, List.forall_mem_cons] at h
    obtain ⟨h₁, h₂, h₃, h₄, h₅, h₆, h₇, h₈, h₉, h₁₀, h₁₁, -⟩ := h
    have hsm : paperShadowDetails vals stage = paperShadowDetails vals' stage := by
      have hvar : orNonzero (vals.get? "var_p01") (vals.get? "returns.var_p01") =
          orNonzero (vals'.get? "var_p01") (vals'.get? "returns.var_p01") := hvar
      have hes : orNonzero (vals.get? "es_p01") (vals.get? "returns.es_p01") =
          orNonzero (vals'.get? "es_p01") (vals'.get? "returns.es_p01") := hes
      simp [paperShadowDetails, h₁, h₂, h₃, h₄, h₅, h₆, h₇, h₈, h₉, h₁₀, h₁₁, hvar, hes]
    simp [evaluatePaperShadowStrategy, hsm, h₈, h₉, h₁₀, h₁₁]

lemma toList_map_eq_iff {α : Type} {o : Option α} {key : String} {f g : α → RuleResult} :
    (o.map fun cfg => (key, f cfg)).toList = (o.map fun cfg => (key, g cfg)).toList ↔ ∀ cfg, o = some cfg → f cfg = g cfg := by
  cases o with
  | none => exact iff_of_true rfl fun cfg h => by cases h
  | some cfg =>
    constructor
    · rintro h cfg' hcfg
      cases hcfg
      exact (Prod.mk.inj (List.cons.inj h).1).2
    · intro h
      rw [Option.map_some, Option.map_some, h cfg rfl]

lemma names_ownLayerResults (vals vals' : Metrics) :
    (ownLayerResults env policy stage vals).map Prod.fst = (ownLayerResults env policy stage vals').map Prod.fst := by
  have hone : ∀ {α : Type} (o : Option α) (key : String) (f g : α → RuleResult),
      ((o.map fun cfg => (key, f cfg)).toList).map Prod.fst = ((o.map fun cfg => (key, g cfg)).toList).map Prod.fst := by
    intro α o key f g
    cases o <;> rfl
  unfold ownLayerResults
  simp only [List.map_append]
  exact congrArg₂ (· ++ ·) (congrArg₂ (· ++ ·) (congrArg₂ (· ++ ·) (hone _ _ _ _) (hone _ _ _ _)) (hone _ _ _ _))
    (hone _ _ _ _)

lemma ownLayerResults_subset :
    ownLayerResults env policy stage vals ⊆ layerResults env metrics policy stage sid vals := by
  intro e he
  unfold ownLayerResults at he
  unfold layerResults
  simp only [List.mem_append] at he ⊢
  rcases he with ((he | he) | he) | he
  · exact .inl (.inl (.inl (.inl (.inr he))))
  · exact .inl (.inl (.inl (.inr he)))
  · exact .inl (.inl (.inr he))
  · exact .inl (.inr he)

lemma ownLayerResults_eq_iff : ownLayerResults env policy stage vals = ownLayerResults env policy stage vals' ↔
      ReadAlike env policy stage vals vals' := by
  have hlen : ∀ {α : Type} (o : Option α) (key : String) (f g : α → RuleResult),
      ((o.map fun cfg => (key, f cfg)).toList).length = ((o.map fun cfg => (key, g cfg)).toList).length := by
    intro α o key f g
    cases o <;> rfl
  unfold ownLayerResults
  rw [List.append_eq_append_iff_of_size_eq_right (hlen _ _ _ _), List.append_eq_append_iff_of_size_eq_right (hlen _ _ _ _),
    List.append_eq_append_iff_of_size_eq_right (hlen _ _ _ _), toList_map_eq_iff, toList_map_eq_iff, toList_map_eq_iff,
    toList_map_eq_iff]
  simp only [evaluatePortfolioRules_eq_iff_agreeOn, evaluateBenchmarkRules_eq_iff_agreeOn, evaluatePaperShadowStrategy_eq_iff_agreeOn]
  constructor
  · rintro ⟨⟨⟨hp, hb⟩, hs⟩, hpp⟩
    refine ⟨fun hne => ?_, fun hne => ?_, hs, fun cfg hcfg hal => ?_⟩
    · obtain ⟨cfg, hcfg⟩ := Option.ne_none_iff_exists'.mp hne
      exact hp cfg hcfg
    · obtain ⟨cfg, hcfg⟩ := Option.ne_none_iff_exists'.mp hne
      exact hb cfg hcfg
    · exact hpp cfg (Option.filter_eq_some_iff.mpr ⟨hcfg, hal⟩)
  · intro h
    refine ⟨⟨⟨fun cfg hcfg => h.portfolio (by rw [hcfg]; exact Option.some_ne_none cfg),
      fun cfg hcfg => h.benchmark (by rw [hcfg]; exact Option.some_ne_none cfg)⟩, h.stress⟩, fun cfg hcfg => ?_⟩
    obtain ⟨hcfg, hal⟩ := Option.filter_eq_some_iff.mp hcfg
    exact h.paperShadow cfg hcfg hal

end Qmtl.WorldService.PolicyEngine

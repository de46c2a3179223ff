import Qmtl.WorldService.Policy.Engine

/-!
The rules that every strategy is judged by, and the results they give. The results of the performance and
risk rules are read off what the selection has recorded.
-/

namespace Qmtl.WorldService.PolicyEngine

open Lib

/-! ### Results -/

inductive Status where
  | pass | warn | fail
  deriving DecidableEq

/-- A value among the details of a result. -/
inductive Datum where
  | none
  | number (x : Double)
  | int (n : ℤ)
  | bool (b : Bool)
  | text (s : String)
  | list (items : List Datum)
  | dict (fields : List (String × Datum))

abbrev Details := Dict String Datum

structure RuleResult where
  status : Status
  severity : String
  owner : String
  reasonCode : String
  reason : String
  tags : List String
  details : Details

def Datum.ofNumber (x : Option Double) : Datum := (x.map Datum.number).getD .none

def Datum.ofTexts (texts : List String) : Datum := .list (texts.map .text)

def asNumber (x : Option Double) (absolute : Bool) : Option Double :=
  x.bind fun
    | .finite q => some (if absolute then .finite |q| else .finite q)
    | _ => none

/-- What a check comes to. -/
inductive Event where
  | warn (reason : String)
  | fail (reason : String)

structure Verdict where
  status : Status := .pass
  reasons : List String := []
  details : Details

def Verdict.apply (v : Verdict) : Option Event → Verdict
  | none => v
  | some (.fail reason) => { v with status := .fail, reasons := v.reasons ++ [reason] }
  | some (.warn reason) =>
    { v with status := if v.status = .pass then .warn else v.status, reasons := v.reasons ++ [reason] }

def Verdict.note (v : Verdict) (key : String) (threshold : Double) : Verdict :=
  { v with details := v.details.set key (.number threshold) }

def Verdict.result (v : Verdict) (severity owner okCode ok tag : String) : RuleResult where
  status := v.status
  severity := severity
  owner := owner
  reasonCode := v.reasons.headD okCode
  reason := if v.reasons = [] then ok else Lib.join ", " v.reasons
  tags := [tag]
  details := v.details

def Failure.datum : Failure → Datum
  | f@(missingMetric metric mode) => .dict [("metric", .text metric), ("reason", .text "missing_metric"),
      ("mode", .text mode.text), ("blocking", .bool f.blocking)]
  | belowMin metric min value => .dict [("metric", .text metric), ("reason", .text "below_min"),
      ("min", .number min), ("value", .number value), ("blocking", .bool true)]
  | aboveMax metric max value => .dict [("metric", .text metric), ("reason", .text "above_max"),
      ("max", .number max), ("value", .number value), ("blocking", .bool true)]

def sortedTexts (texts : List String) : List String := texts.insertionSort (· ≤ ·)

def dataCurrencyOutcome (metrics : Metrics) (missing : List String) (mode : MissingMode) (severity : String) :
    Status × String × String × String :=
  if metrics.entries = [] then
    (if mode = .fail then .fail else .warn, if mode = .ignore then "info" else severity, "metrics_missing",
      "No metrics provided for strategy")
  else if missing ≠ [] then
    let reason := "Missing metrics: " ++ Lib.join ", " (sortedTexts missing)
    match mode with
    | .fail => (.fail, severity, "missing_metric", reason)
    | .warn => (.warn, severity, "missing_metric", reason)
    | .ignore => (.warn, "info", "missing_metric_ignored", reason)
  else (.pass, severity, "data_currency_ok", "Required metrics present")

def dataCurrencyRule (required : List String) (mode : MissingMode) (metrics : Metrics) : RuleResult :=
  let missing := required.filter fun metric => (metrics.get? metric).isNone
  let (status, severity, code, reason) := dataCurrencyOutcome metrics missing mode "blocking"
  { status := status
    severity := severity
    owner := "ops"
    reasonCode := code
    reason := reason
    tags := ["data_currency"]
    details := Dict.ofList [("missing_metrics", .ofTexts missing),
      ("available_metrics", .ofTexts (sortedTexts metrics.keys)), ("policy_on_missing_metric", .text mode.text)] }

/-! ### Sample -/

/-- The groups of `_group_thresholds`. -/
inductive Group where
  | dataCurrency | sample | performance | risk
  deriving DecidableEq

def classifyMetric (lower : Lower) (metric : String) : Group :=
  let name := (lower.fn metric).toList
  let starts (prefixes : List String) : Bool := prefixes.any fun p => p.toList <+: name
  if starts ["lag", "stale", "fresh", "as_of", "coverage"] then .dataCurrency
  else if starts ["sample", "history", "effective_history", "n_trades", "num_trades"] || "trade".toList <:+: name then
    .sample
  else if starts ["adv_", "participation_rate", "exposure", "var", "es", "beta", "correlation", "leverage", "tail"] then
    .risk
  else .performance

def groupThresholds (lower : Lower) (thresholds : Dict String ThresholdRule) (group : Group) : List ThresholdRule :=
  thresholds.values.filter fun rule => classifyMetric lower rule.metric = group

def sampleMetricKeys : List String :=
  ["n_trades_total", "n_trades_per_year", "num_trades", "effective_history_years", "sample_days"]

def sampleMetricsView (metrics : Metrics) : Metrics :=
  Dict.ofList (metrics.entries.filter fun e => e.1 ∈ sampleMetricKeys)

def sampleThresholdFailures (sampleMetrics : Metrics) (thresholds : List ThresholdRule) : List Failure :=
  if thresholds = [] then []
  else ((evaluateThresholds (Dict.ofList [("_", sampleMetrics)])
    (Dict.ofList (thresholds.map fun t => (t.metric, t))) .fail).2.get? "_").getD []

def Datum.ofMetrics (metrics : Metrics) : Datum := .dict (metrics.entries.map fun e => (e.1, .number e.2))

def buildSampleResult (sampleMetrics : Metrics) (failures : List Failure) (severity owner : String) : RuleResult :=
  if failures ≠ [] then
    { status := .fail
      severity := severity
      owner := owner
      reasonCode := "sample_thresholds_failed"
      reason := "Sample thresholds failed: " ++ Lib.join ", " (failures.map (·.metric))
      tags := ["sample"]
      details := Dict.ofList [("violations", .list (failures.map (·.datum)))] }
  else
    let details : Details := Dict.ofList [("sample_metrics", .ofMetrics sampleMetrics)]
    if sampleMetrics.values.any fun value => Double.lt (.finite 0) value then
      { status := .pass
        severity := severity
        owner := owner
        reasonCode := "sample_ok"
        reason := "Sample depth present"
        tags := ["sample"]
        details := details }
    else
      { status := .warn
        severity := severity
        owner := owner
        reasonCode := "sample_metrics_missing"
        reason := "No sample metrics found"
        tags := ["sample"]
        details := details }

def sampleRule (thresholds : List ThresholdRule) (severity owner : String) (metrics : Metrics) : RuleResult :=
  let sampleMetrics := sampleMetricsView metrics
  buildSampleResult sampleMetrics (sampleThresholdFailures sampleMetrics thresholds) severity owner

/-! ### Performance -/

section

variable (env : Env)

def formatFailureReason : Failure → String
  | .missingMetric metric _ => metric ++ " missing"
  | .belowMin metric min _ => metric ++ " below minimum " ++ env.repr min
  | .aboveMax metric max _ => metric ++ " above maximum " ++ env.repr max

def performanceMissingResult (failures : List Failure) (mode : MissingMode) (severity owner : String) :
    Option RuleResult :=
  let missing := failures.filter (·.isMissing)
  if missing = [] then none
  else some
    { status := if mode = .fail then .fail else .warn
      severity := severity
      owner := owner
      reasonCode := "performance_metrics_missing"
      reason := "Missing metrics: " ++ Lib.join ", " (missing.map (·.metric))
      tags := ["performance", "thresholds"]
      details := Dict.ofList [("violations", .list (failures.map (·.datum))),
        ("policy_on_missing_metric", .text mode.text)] }

def Datum.ofRank (rank : Option ℕ) : Datum := (rank.map fun n => Datum.int n).getD .none

def performanceRankResult (sid : String) (topK : Option TopKRule) (selected : List String) (ranks : Dict String ℕ)
    (severity owner : String) : Option RuleResult :=
  match topK with
  | none => none
  | some rule =>
    if sid ∈ selected then none
    else
      let rank := ranks.get? sid
      some
        { status := .fail
          severity := severity
          owner := owner
          reasonCode := "performance_rank_outside_top_k"
          reason := match rank with
            | some rank => "Rank " ++ toString (rank + 1) ++ " outside top_k=" ++ toString rule.k
            | none => "Not selected by top_k=" ++ toString rule.k
          tags := env.listOfSet ["performance", "thresholds", "top_k"]
          details := Dict.ofList [("rank", .ofRank rank), ("top_k", .int rule.k)] }

def performanceRule (selection : Preparation) (topK : Option TopKRule) (mode : MissingMode) (severity owner : String)
    (sid : String) : RuleResult :=
  let failures := (selection.thresholdFailures.get? sid).getD []
  match failures.filter (·.blocking) with
  | first :: rest =>
    { status := .fail
      severity := severity
      owner := owner
      reasonCode := "performance_thresholds_failed"
      reason := formatFailureReason env first
      tags := ["performance", "thresholds"]
      details := Dict.ofList [("violations", .list ((first :: rest).map (·.datum)))] }
  | [] =>
    match performanceMissingResult failures mode severity owner with
    | some result => result
    | none =>
      match performanceRankResult env sid topK selection.topkSelected selection.topkRanks severity owner with
      | some result => result
      | none =>
        { status := .pass
          severity := severity
          owner := owner
          reasonCode := "performance_ok"
          reason := "Passed thresholds and ranking"
          tags := ["performance", "thresholds"]
          details := Dict.ofList [("rank", .ofRank (selection.topkRanks.get? sid)),
            ("top_k", (topK.map fun rule => Datum.int rule.k).getD .none)] }

def riskCorrelationFailure (sid : String) (rule : Option CorrelationRule)
    (violations : Dict String (List (String × Double))) (severity owner : String) : Option RuleResult :=
  rule.bind fun rule => (violations.get? sid).map fun blockedBy =>
    { status := .fail
      severity := severity
      owner := owner
      reasonCode := "correlation_constraint_failed"
      reason := "Correlation exceeds max " ++ env.repr (.finite rule.max)
      tags := ["risk"]
      details := Dict.ofList [("blocked_by", .list (blockedBy.map fun e =>
        .dict [("strategy_id", .text e.1), ("correlation", .number e.2)]))] }

def riskHysteresisFailure (sid : String) (metrics : Metrics) (prevActive : List String) (rule : Option HysteresisRule)
    (blocked : Dict String Blocked) (severity owner : String) : Option RuleResult :=
  rule.bind fun rule => (blocked.get? sid).map fun mode =>
    { status := .fail
      severity := severity
      owner := owner
      reasonCode := match mode with
        | .exit => "hysteresis_exit"
        | .enter => "hysteresis_not_entered"
      reason := match mode with
        | .exit => rule.metric ++ " below exit " ++ env.repr rule.exit ++ " for previously active strategy"
        | .enter => rule.metric ++ " below enter " ++ env.repr rule.enter
      tags := ["risk"]
      details := Dict.ofList [("metric", .text rule.metric), ("previously_active", .bool (sid ∈ prevActive)),
        ("mode", .text mode.text), ("value", .ofNumber (metrics.get? rule.metric))] }

def riskConstraintRule (selection : Preparation) (correlation : Option CorrelationRule)
    (hysteresis : Option HysteresisRule) (severity owner : String) (prevActive : List String) (sid : String)
    (metrics : Metrics) : RuleResult :=
  match riskCorrelationFailure env sid correlation selection.correlationViolations severity owner with
  | some result => result
  | none =>
    match riskHysteresisFailure env sid metrics prevActive hysteresis selection.hysteresisBlocked severity owner with
    | some result => result
    | none =>
      if correlation = none ∧ hysteresis = none then
        { status := .pass
          severity := "info"
          owner := owner
          reasonCode := "risk_constraints_not_configured"
          reason := "No risk constraints configured"
          tags := ["risk"]
          details := .empty }
      else
        { status := .pass
          severity := severity
          owner := owner
          reasonCode := "risk_constraints_ok"
          reason := "Risk constraints satisfied"
          tags := ["risk"]
          details := .empty }

/-! ### Robustness -/

def robustnessBaseDetails (metrics : Metrics) : Details :=
  Dict.ofList (["deflated_sharpe_ratio", "sharpe_first_half", "sharpe_second_half", "cv_sharpe_mean",
    "cv_sharpe_std"].map fun key => (key, .ofNumber (metrics.get? key)))

def robustnessDsrEvent (dsr dsrMin : Option Double) (v : Verdict) : Verdict :=
  match dsrMin with
  | none => v
  | some bound =>
    match dsr with
    | none => v.apply (some (.warn "dsr_missing"))
    | some dsr =>
      if Double.lt dsr bound then (v.note "dsr_min" bound).apply (some (.fail "dsr_below_min")) else v

def robustnessGapEvent (first second maxGap : Option Double) (v : Verdict) : Verdict :=
  match maxGap, first, second with
  | some bound, some first, some second =>
    let gap := (env.sub first second).abs
    let v := v.note "sharpe_gap" gap
    if Double.lt bound gap then
      (v.note "cv_sharpe_gap_max" bound).apply (some (.fail "cv_sharpe_gap_exceeds_max"))
    else v
  | _, _, _ => v

def robustnessRule (dsrMin cvSharpeGapMax : Option Double) (severity owner : String) (metrics : Metrics) : RuleResult :=
  let number (key : String) : Option Double := asNumber (metrics.get? key) false
  (robustnessGapEvent env (number "sharpe_first_half") (number "sharpe_second_half") cvSharpeGapMax
    (robustnessDsrEvent (number "deflated_sharpe_ratio") dsrMin
      { details := robustnessBaseDetails metrics })).result severity owner "robustness_ok" "Robustness checks passed"
    "robustness"

structure RuleProfile where
  sample : Metadata
  performance : Metadata
  risk : Metadata
  robustness : Metadata
  dsrMin : Option Double
  cvSharpeGapMax : Option Double

def RuleProfile.of (config : Option ValidationProfile) : RuleProfile where
  sample := ((config.bind (·.sample)).map (·.toMetadata)).getD {}
  performance := ((config.bind (·.performance)).map (·.toMetadata)).getD {}
  risk := ((config.bind (·.risk)).map (·.toMetadata)).getD {}
  robustness := ((config.bind (·.robustness)).map (·.toMetadata)).getD {}
  dsrMin := (config.bind (·.robustness)).bind (·.dsrMin)
  cvSharpeGapMax := (config.bind (·.robustness)).bind (·.cvSharpeGapMax)

def ruleResults (resolved : Policy) (selection : Preparation) (config : Option ValidationProfile)
    (prevActive : List String) (sid : String) (metrics : Metrics) : Dict String RuleResult :=
  let thresholds := resolved.selection.thresholds
  let mode := resolved.validation.onMissingMetric
  let profile := RuleProfile.of config
  Dict.ofList [
    ("data_currency",
      dataCurrencyRule ((groupThresholds env.lower thresholds .dataCurrency).map (·.metric)) mode metrics),
    ("sample", sampleRule (groupThresholds env.lower thresholds .sample) (profile.sample.severity.getD "soft")
      (profile.sample.owner.getD "quant") metrics),
    ("performance", performanceRule env selection resolved.selection.topK mode
      (profile.performance.severity.getD "blocking") (profile.performance.owner.getD "quant") sid),
    ("risk_constraint", riskConstraintRule env selection resolved.selection.correlation resolved.selection.hysteresis
      (profile.risk.severity.getD "blocking") (profile.risk.owner.getD "risk") prevActive sid metrics),
    ("robustness", robustnessRule env profile.dsrMin profile.cvSharpeGapMax
      (profile.robustness.severity.getD "soft") (profile.robustness.owner.getD "quant") metrics)]

end

end Qmtl.WorldService.PolicyEngine

import Mathlib.Data.String.Basic
import Qmtl.Lib.StableSort
import Qmtl.WorldService.Policy.FlatMetrics

/-! The policy engine: policies and their validation profiles, the policy that is evaluated for a stage, and
the strategies it selects. -/

namespace Qmtl.WorldService.PolicyEngine

open Lib

structure Env where
  lower : Lower
  sorter : Sorter
  repr : Double → String
  float : ℤ → Double
  sub : Double → Double → Double
  mean : List Double → Double
  median : List Double → Double
  listOfSet : List String → List String
  blake3 : String → String

abbrev Metrics := Dict String Double

/-! ### Policies -/

structure ThresholdRule where
  metric : String
  min : Option Double := none
  max : Option Double := none
  deriving DecidableEq

structure TopKRule where
  metric : String
  k : ℕ
  pos : 0 < k
  deriving DecidableEq

/-- Its `max` is a number: `nan`, which no correlation exceeds, is left out. -/
structure CorrelationRule where
  max : ℚ
  lower : -1 ≤ max
  upper : max ≤ 1
  deriving DecidableEq

structure HysteresisRule where
  metric : String
  enter : Double
  exit : Double
  deriving DecidableEq

structure Metadata where
  severity : Option String := none
  owner : Option String := none
  deriving DecidableEq

structure SampleProfile extends Metadata where
  minEffectiveYears : Option Double := none
  minTradesTotal : Option ℤ := none
  deriving DecidableEq

structure PerformanceProfile extends Metadata where
  sharpeMin : Option Double := none
  maxDdMax : Option Double := none
  gainToPainMin : Option Double := none
  deriving DecidableEq

structure RobustnessProfile extends Metadata where
  dsrMin : Option Double := none
  cvSharpeGapMax : Option Double := none
  deriving DecidableEq

structure RiskProfile extends Metadata where
  advUtilizationP95Max : Option Double := none
  participationRateP95Max : Option Double := none
  deriving DecidableEq

structure ValidationProfile where
  sample : Option SampleProfile := none
  performance : Option PerformanceProfile := none
  robustness : Option RobustnessProfile := none
  risk : Option RiskProfile := none
  deriving DecidableEq

structure SelectionConfig where
  thresholds : Dict String ThresholdRule := .empty
  topK : Option TopKRule := none
  correlation : Option CorrelationRule := none
  hysteresis : Option HysteresisRule := none

structure CohortRuleConfig extends Metadata where
  sharpeMedianMin : Option Double := none
  dsrMedianMin : Option Double := none
  topK : Option ℤ := none
  deriving DecidableEq

structure PortfolioRuleConfig extends Metadata where
  maxIncrementalVar99 : Option Double := none
  maxIncrementalEs99 : Option Double := none
  minPortfolioSharpeUplift : Option Double := none
  deriving DecidableEq

structure BenchmarkRuleConfig extends Metadata where
  minVsBenchmarkSharpe : Option Double := none
  deriving DecidableEq

structure StressRuleConfig extends Metadata where
  scenarios : Option (Dict String (Dict String Double)) := none

structure PaperShadowConsistencyConfig extends Metadata where
  stages : Option (List String) := none
  minSharpeRatio : Option Double := none
  maxDrawdownRatio : Option Double := none
  maxVarP01Ratio : Option Double := none
  maxEsP01Ratio : Option Double := none
  deriving DecidableEq

structure LiveMonitoringConfig extends Metadata where
  lookbackDays : Option ℤ := none
  decayThreshold : Option Double := none
  sharpeMin : Option Double := none
  ddMax : Option Double := none
  deriving DecidableEq

inductive OnError where
  | fail | warn
  deriving DecidableEq

/-- `on_missing_metric`. -/
inductive MissingMode where
  | fail | warn | ignore
  deriving DecidableEq

def MissingMode.text : MissingMode → String
  | fail => "fail"
  | warn => "warn"
  | ignore => "ignore"

structure ValidationConfig where
  onError : OnError := .fail
  onMissingMetric : MissingMode := .fail
  deriving DecidableEq

/-- A `Policy` as `model_post_init` leaves it. Its `thresholds`, `top_k`, `correlation` and `hysteresis` are
those of its `selection`. -/
structure Policy where
  selection : SelectionConfig := {}
  validationProfiles : Dict String ValidationProfile := .empty
  defaultProfileByStage : Dict String String := .empty
  validation : ValidationConfig := {}
  cohort : Option CohortRuleConfig := none
  portfolio : Option PortfolioRuleConfig := none
  benchmark : Option BenchmarkRuleConfig := none
  stress : Option StressRuleConfig := none
  paperShadowConsistency : Option PaperShadowConsistencyConfig := none
  liveMonitoring : Option LiveMonitoringConfig := none

def normalizeSelection (selection : Option SelectionConfig) (beside : SelectionConfig) : SelectionConfig :=
  let selection := selection.getD {}
  { thresholds := selection.thresholds.update beside.thresholds.entries
    topK := selection.topK.or beside.topK
    correlation := selection.correlation.or beside.correlation
    hysteresis := selection.hysteresis.or beside.hysteresis }

/-! ### Profiles -/

section

variable (env : Env)

def lowerBound (metric : String) (bound : Option Double) : List (String × ThresholdRule) :=
  (bound.map fun bound => (metric, { metric := metric, min := some bound })).toList

def upperBound (metric : String) (bound : Option Double) : List (String × ThresholdRule) :=
  (bound.map fun bound => (metric, { metric := metric, max := some bound })).toList

def SampleProfile.toThresholds (p : SampleProfile) : List (String × ThresholdRule) :=
  lowerBound "effective_history_years" p.minEffectiveYears ++
    lowerBound "n_trades_total" (p.minTradesTotal.map env.float)

def PerformanceProfile.toThresholds (p : PerformanceProfile) : List (String × ThresholdRule) :=
  lowerBound "sharpe" p.sharpeMin ++ upperBound "max_drawdown" p.maxDdMax ++
    lowerBound "gain_to_pain_ratio" p.gainToPainMin

def RobustnessProfile.toThresholds (p : RobustnessProfile) : List (String × ThresholdRule) :=
  lowerBound "deflated_sharpe_ratio" p.dsrMin

def RiskProfile.toThresholds (p : RiskProfile) : List (String × ThresholdRule) :=
  upperBound "adv_utilization_p95" p.advUtilizationP95Max ++
    upperBound "participation_rate_p95" p.participationRateP95Max

def ValidationProfile.toThresholds (p : ValidationProfile) : List (String × ThresholdRule) :=
  (p.sample.map (·.toThresholds env)).getD [] ++ (p.performance.map (·.toThresholds)).getD [] ++
    (p.robustness.map (·.toThresholds)).getD [] ++ (p.risk.map (·.toThresholds)).getD []

def normalizeKey (value : String) : String :=
  String.ofList ((env.lower.fn (strip value)).toList.map fun c => if c = '-' then '_' else c)

def resolveProfileCandidate (profiles : Dict String String) (candidate : Option String) : Option String :=
  candidate.bind fun name => if normalizeKey env name = "" then none else profiles.get? (normalizeKey env name)

def mappedProfilesForStage (policy : Policy) (stage : Option String) : List String :=
  match stage with
  | none => []
  | some stage =>
    let key := normalizeKey env stage
    if key = "" then []
    else
      let mapping := Dict.ofList (policy.defaultProfileByStage.entries.map fun e => (normalizeKey env e.1, e.2))
      ([key, key ++ "_only"].filterMap fun key => (mapping.get? key).filter (· ≠ "")) ++ [stage]

def chooseProfile (policy : Policy) (stage profile : Option String) : Option String :=
  if policy.validationProfiles.entries = [] then none
  else
    let normalized := Dict.ofList (policy.validationProfiles.keys.map fun name => (normalizeKey env name, name))
    let candidates := profile :: (mappedProfilesForStage env policy stage ++ policy.defaultProfileByStage.values).map some
    ((((candidates.findSome? (resolveProfileCandidate env normalized)).or (normalized.get? "backtest")).or
      (normalized.get? "paper")).or policy.validationProfiles.keys.head?)

def materializePolicy (policy : Policy) (stage profile : Option String) :
    Policy × Option String × Option ValidationProfile :=
  let selected := chooseProfile env policy stage profile
  let config := (selected.filter (· ≠ "")).bind policy.validationProfiles.get?
  let thresholds := policy.selection.thresholds.update ((config.map (·.toThresholds env)).getD [])
  ({ selection := normalizeSelection none { policy.selection with thresholds := thresholds }
     cohort := policy.cohort
     portfolio := policy.portfolio
     stress := policy.stress
     liveMonitoring := policy.liveMonitoring
     validation := policy.validation }, selected, config)

end

/-! ### Thresholds -/

/-- An entry of the failures of a strategy. -/
inductive Failure where
  | missingMetric (metric : String) (mode : MissingMode)
  | belowMin (metric : String) (min value : Double)
  | aboveMax (metric : String) (max value : Double)
  deriving DecidableEq

namespace Failure

def metric : Failure → String
  | missingMetric metric _ => metric
  | belowMin metric _ _ => metric
  | aboveMax metric _ _ => metric

def isMissing : Failure → Bool
  | missingMetric _ _ => true
  | _ => false

def blocking : Failure → Bool
  | missingMetric _ mode => mode = .fail
  | _ => true

end Failure

def missingMetricFailure (metric : String) (mode : MissingMode) : List Failure :=
  if mode = .ignore then [] else [.missingMetric metric mode]

def thresholdValueViolations (rule : ThresholdRule) (value : Double) : List Failure :=
  (rule.min.toList.filter fun bound => Double.lt value bound).map (fun bound => .belowMin rule.metric bound value) ++
    (rule.max.toList.filter fun bound => Double.lt bound value).map fun bound => .aboveMax rule.metric bound value

def strategyFailures (values : Metrics) (thresholds : List ThresholdRule) (mode : MissingMode) : List Failure :=
  thresholds.flatMap fun rule =>
    match values.get? rule.metric with
    | none => missingMetricFailure rule.metric mode
    | some value => thresholdValueViolations rule value

def passes (values : Metrics) (thresholds : List ThresholdRule) (mode : MissingMode) : Bool :=
  !(strategyFailures values thresholds mode).any (·.blocking)

def evaluateThresholds (metrics : Dict String Metrics) (thresholds : Dict String ThresholdRule) (mode : MissingMode) :
    List String × Dict String (List Failure) :=
  ((metrics.entries.filter fun e => passes e.2 thresholds.values mode).map (·.1),
    Dict.ofList ((metrics.entries.map fun e => (e.1, strategyFailures e.2 thresholds.values mode)).filter
      fun e => e.2 ≠ []))

/-! ### Selection -/

def metricOf (metrics : Dict String Metrics) (metric sid : String) : Option Double :=
  (metrics.get? sid).bind fun values => values.get? metric

def applyTopk (s : Sorter) (metrics : Dict String Metrics) (candidates : List String) (rule : TopKRule) :
    List String × Dict String ℕ :=
  let scored := s.sortDesc (fun sid => (metricOf metrics rule.metric sid).getD .negInf) candidates
  (scored.take rule.k, Dict.ofList scored.zipIdx)

abbrev Correlations := Dict (String × String) Double

def pairCorrelation (correlations : Correlations) (sid other : String) : Double :=
  (correlations.get? (if sid ≤ other then (sid, other) else (other, sid))).getD (.finite 0)

def exceeds (correlations : Correlations) (rule : CorrelationRule) (sid other : String) : Bool :=
  Double.lt (.finite rule.max) (pairCorrelation correlations sid other).abs

def correlationStep (correlations : Correlations) (rule : CorrelationRule)
    (state : List String × Dict String (List (String × Double))) (sid : String) :
    List String × Dict String (List (String × Double)) :=
  let blockedBy := (state.1.filter (exceeds correlations rule sid)).map fun other =>
    (other, pairCorrelation correlations sid other)
  if blockedBy ≠ [] then (state.1, state.2.set sid blockedBy) else (state.1 ++ [sid], state.2)

def applyCorrelation (correlations : Option Correlations) (candidates : List String) (rule : CorrelationRule) :
    List String × Dict String (List (String × Double)) :=
  match correlations with
  | none => (candidates, .empty)
  | some correlations =>
    if correlations.entries = [] then (candidates, .empty)
    else candidates.foldl (correlationStep correlations rule) ([], .empty)

/-- What hysteresis keeps a strategy from. -/
inductive Blocked where
  | exit | enter
  deriving DecidableEq

def Blocked.text : Blocked → String
  | exit => "exit"
  | enter => "enter"

def hysteresisBound (prevActive : List String) (rule : HysteresisRule) (sid : String) : Double × Blocked :=
  if sid ∈ prevActive then (rule.exit, .exit) else (rule.enter, .enter)

def hysteresisOutcome (metrics : Dict String Metrics) (prevActive : List String) (rule : HysteresisRule) (sid : String) :
    Option (Option Blocked) :=
  (metricOf metrics rule.metric sid).map fun value =>
    let (bound, mode) := hysteresisBound prevActive rule sid
    if Double.le bound value then none else some mode

def applyHysteresis (metrics : Dict String Metrics) (candidates prevActive : List String) (rule : HysteresisRule) :
    List String × Dict String Blocked :=
  (candidates.filter fun sid => hysteresisOutcome metrics prevActive rule sid = some none,
    Dict.ofList (candidates.filterMap fun sid =>
      (hysteresisOutcome metrics prevActive rule sid).join.map fun mode => (sid, mode)))

structure Preparation where
  passed : List String
  thresholdFailures : Dict String (List Failure)
  topkSelected : List String
  topkRanks : Dict String ℕ
  uncorrelated : List String
  correlationViolations : Dict String (List (String × Double))
  selectedIds : List String
  hysteresisBlocked : Dict String Blocked

def topkStep (s : Sorter) (metrics : Dict String Metrics) (rule : Option TopKRule) (candidates : List String) :
    List String × Dict String ℕ :=
  match rule with
  | none => (candidates, Dict.ofList candidates.zipIdx)
  | some rule => applyTopk s metrics candidates rule

def correlationsStep (correlations : Option Correlations) (rule : Option CorrelationRule) (candidates : List String) :
    List String × Dict String (List (String × Double)) :=
  match rule with
  | none => (candidates, .empty)
  | some rule => applyCorrelation correlations candidates rule

def hysteresisStep (metrics : Dict String Metrics) (prevActive : List String) (rule : Option HysteresisRule)
    (candidates : List String) : List String × Dict String Blocked :=
  match rule with
  | none => (candidates, .empty)
  | some rule => applyHysteresis metrics candidates prevActive rule

def preparePolicySelection (s : Sorter) (normalized : Dict String Metrics) (resolved : Policy) (prevActive : List String)
    (correlations : Option Correlations) : Preparation :=
  let thresholds := evaluateThresholds normalized resolved.selection.thresholds resolved.validation.onMissingMetric
  let top := topkStep s normalized resolved.selection.topK thresholds.1
  let uncorrelated := correlationsStep correlations resolved.selection.correlation top.1
  let selected := hysteresisStep normalized prevActive resolved.selection.hysteresis uncorrelated.1
  { passed := thresholds.1
    thresholdFailures := thresholds.2
    topkSelected := top.1
    topkRanks := top.2
    uncorrelated := uncorrelated.1
    correlationViolations := uncorrelated.2
    selectedIds := selected.1
    hysteresisBlocked := selected.2 }

end Qmtl.WorldService.PolicyEngine

import Qmtl.Lib.DictLoops
import Qmtl.WorldService.Policy.Selection

/-! The thresholds on sample metrics. They are grouped by the look of their names, and judged on five names only:
every other metric counts as missing, and a missing one always fails. -/

namespace Qmtl.WorldService.PolicyEngine

open Lib

/-! ### What the sample rule judges -/

def Seen (values : Metrics) (rule : ThresholdRule) : Prop :=
  rule.metric ∈ sampleMetricKeys ∧ values.get? rule.metric ≠ none

def LastOnMetric (thresholds : List ThresholdRule) (rule : ThresholdRule) : Prop :=
  ∃ before after, thresholds = before ++ rule :: after ∧ ∀ other ∈ after, other.metric ≠ rule.metric

variable {rule : ThresholdRule} {thresholds : List ThresholdRule}

lemma mem_entries_keyed {metric : String} :
    (metric, rule) ∈ (Dict.ofList (thresholds.map fun t => (t.metric, t))).entries ↔
      rule.metric = metric ∧ LastOnMetric thresholds rule := by
  rw [Dict.mem_entries_ofList_iff]
  constructor
  · rintro ⟨before, after, hs, hl⟩
    obtain ⟨init, rest, rfl, rfl, hr⟩ := List.map_eq_append_iff.mp hs
    obtain ⟨rule', tail, rfl, hrl, rfl⟩ := List.map_eq_cons_iff.mp hr
    cases hrl
    exact ⟨rfl, init, tail, rfl, fun other hother => hl (other.metric, other) (List.mem_map.mpr ⟨other, hother, rfl⟩)⟩
  · rintro ⟨rfl, before, after, rfl, hl⟩
    refine ⟨before.map fun t => (t.metric, t), after.map fun t => (t.metric, t), by simp, ?_⟩
    intro e he
    obtain ⟨other, hother, rfl⟩ := List.mem_map.mp he
    exact hl other hother

lemma mem_values_keyed :
    rule ∈ (Dict.ofList (thresholds.map fun t => (t.metric, t))).values ↔ LastOnMetric thresholds rule := by
  unfold Dict.values
  rw [List.mem_map]
  constructor
  · rintro ⟨⟨metric, rule'⟩, hmem, rfl⟩
    exact (mem_entries_keyed.mp hmem).2
  · intro h
    exact ⟨(rule.metric, rule), mem_entries_keyed.mpr ⟨rfl, h⟩, rfl⟩

lemma exists_lastOnMetric (h : rule ∈ thresholds) :
    ∃ last, LastOnMetric thresholds last ∧ last.metric = rule.metric := by
  have hkey : rule.metric ∈ (Dict.ofList (thresholds.map fun t => (t.metric, t))).keys := by
    rw [Dict.mem_keys_ofList, List.map_map]
    exact List.mem_map.mpr ⟨rule, h, rfl⟩
  obtain ⟨⟨metric, last⟩, hmem, heq⟩ := List.mem_map.mp hkey
  obtain ⟨hm, hl⟩ := mem_entries_keyed.mp hmem
  exact ⟨last, hl, hm.trans heq⟩

lemma LastOnMetric.mem (h : LastOnMetric thresholds rule) : rule ∈ thresholds := by
  obtain ⟨before, after, rfl, -⟩ := h
  simp

lemma get?_sampleMetricsView (metrics : Metrics) (name : String) :
    (sampleMetricsView metrics).get? name = if name ∈ sampleMetricKeys then metrics.get? name else none := by
  have hkeys : ((metrics.entries.filter fun e => e.1 ∈ sampleMetricKeys).map Prod.fst).Nodup :=
    metrics.nodup.sublist (List.Sublist.map _ List.filter_sublist)
  refine Option.ext fun value => ?_
  unfold sampleMetricsView
  rw [Dict.get?_eq_some, Dict.entries_ofList hkeys, List.mem_filter]
  by_cases hn : name ∈ sampleMetricKeys
  · rw [if_pos hn, Dict.get?_eq_some]
    simp [hn]
  · simp [hn]

lemma meets_view {values : Metrics} {mode : MissingMode} :
    Meets (sampleMetricsView values) .fail rule ↔ Seen values rule ∧ Meets values mode rule := by
  unfold Meets Seen
  rw [get?_sampleMetricsView]
  by_cases hn : rule.metric ∈ sampleMetricKeys
  · cases values.get? rule.metric with
    | none => simp
    | some value => simp [hn]
  · simp [hn]

lemma strategyFailures_eq_nil {values : Metrics} :
    strategyFailures values thresholds .fail = [] ↔ ∀ rule ∈ thresholds, Meets values .fail rule := by
  unfold strategyFailures
  rw [List.flatMap_eq_nil_iff]
  refine forall₂_congr fun rule _ => ?_
  unfold Meets
  cases values.get? rule.metric with
  | none => simp [missingMetricFailure]
  | some value => exact thresholdValueViolations_eq_nil

/-- **The sample rule fails** unless every last threshold is seen and met. -/
theorem sampleRule_fail {severity owner : String} {values : Metrics} {mode : MissingMode} :
    (sampleRule thresholds severity owner values).status = .fail ↔
      ∃ rule, LastOnMetric thresholds rule ∧ ¬ (Seen values rule ∧ Meets values mode rule) := by
  have hs : (sampleRule thresholds severity owner values).status = .fail ↔
      sampleThresholdFailures (sampleMetricsView values) thresholds ≠ [] := by
    unfold sampleRule buildSampleResult
    dsimp only
    split
    · rename_i hne
      exact iff_of_true rfl hne
    · rename_i hnil
      refine iff_of_false ?_ hnil
      split
      · exact fun h => by cases h
      · exact fun h => by cases h
  have hf : sampleThresholdFailures (sampleMetricsView values) thresholds =
      strategyFailures (sampleMetricsView values) (Dict.ofList (thresholds.map fun t => (t.metric, t))).values .fail := by
    unfold sampleThresholdFailures
    by_cases hnil : thresholds = []
    · rw [if_pos hnil, hnil]
      rfl
    · rw [if_neg hnil]
      exact get?_thresholdFailures rfl
  rw [hs, hf, ne_eq, strategyFailures_eq_nil, not_forall]
  refine exists_congr fun rule => ?_
  rw [Classical.not_imp, mem_values_keyed, meets_view]

/-! ### What is asked of it -/

def sampleThresholds (env : Env) (policy : Policy) (r : Request) : List ThresholdRule :=
  groupThresholds env.lower (resolvedPolicy env policy r).selection.thresholds .sample

def SampleEnforced (env : Env) (policy : Policy) (r : Request) (sid : String) : Prop :=
  ∀ values, (normalizeMetrics r.metrics).get? sid = some values →
    ∃ results sample, (evaluatePolicy env policy r).ruleResults.get? sid = some results ∧
      results.get? "sample" = some sample ∧
        (sample.status = .fail ↔ ∃ rule ∈ sampleThresholds env policy r,
          ¬ Meets values (resolvedPolicy env policy r).validation.onMissingMetric rule)

/-- All thresholds are met, but one is not seen: its metric is none of the five, or it is missing. -/
def FailedUnasked (values : Metrics) (thresholds : List ThresholdRule) (mode : MissingMode) : Prop :=
  (∀ rule ∈ thresholds, Meets values mode rule) ∧ ∃ rule ∈ thresholds, ¬ Seen values rule

/-- A threshold is not met, but all are seen, and the last one on every metric is met. -/
def Overlooked (values : Metrics) (thresholds : List ThresholdRule) (mode : MissingMode) : Prop :=
  (∃ rule ∈ thresholds, ¬ Meets values mode rule) ∧
    ∀ rule ∈ thresholds, Seen values rule ∧ (LastOnMetric thresholds rule → Meets values mode rule)

lemma seen_of_metric_eq {values : Metrics} {rule' : ThresholdRule} (h : rule.metric = rule'.metric) :
    Seen values rule ↔ Seen values rule' := by
  unfold Seen
  rw [h]

section

variable {values : Metrics} {thresholds : List ThresholdRule} {mode : MissingMode}

lemma failedUnasked_iff : FailedUnasked values thresholds mode ↔
    (∃ rule, LastOnMetric thresholds rule ∧ ¬ (Seen values rule ∧ Meets values mode rule)) ∧
      ¬ ∃ rule ∈ thresholds, ¬ Meets values mode rule := by
  constructor
  · rintro ⟨hm, rule, hr, hu⟩
    obtain ⟨last, hl, hmt⟩ := exists_lastOnMetric hr
    refine ⟨⟨last, hl, fun h => hu ((seen_of_metric_eq hmt).mp h.1)⟩, ?_⟩
    rintro ⟨rule', hr', hno⟩
    exact hno (hm rule' hr')
  · rintro ⟨⟨last, hl, hno⟩, hall⟩
    have hm : ∀ rule ∈ thresholds, Meets values mode rule := by
      intro rule hr
      by_contra h
      exact hall ⟨rule, hr, h⟩
    exact ⟨hm, last, hl.mem, fun hs => hno ⟨hs, hm last hl.mem⟩⟩

lemma overlooked_iff : Overlooked values thresholds mode ↔ (∃ rule ∈ thresholds, ¬ Meets values mode rule) ∧
      ¬ ∃ rule, LastOnMetric thresholds rule ∧ ¬ (Seen values rule ∧ Meets values mode rule) := by
  refine and_congr_right fun _ => ?_
  constructor
  · rintro hall ⟨last, hl, hno⟩
    exact hno ⟨(hall last hl.mem).1, (hall last hl.mem).2 hl⟩
  · intro hno rule hr
    have hls : ∀ last, LastOnMetric thresholds last → Seen values last ∧ Meets values mode last := by
      intro last hl
      by_contra h
      exact hno ⟨last, hl, h⟩
    obtain ⟨last, hl, hm⟩ := exists_lastOnMetric hr
    exact ⟨(seen_of_metric_eq hm).mp (hls last hl).1, fun h => (hls rule h).2⟩

end

/-- **Sample thresholds are enforced** exactly where none is failed unasked and none is overlooked. -/
theorem sampleEnforced_iff (env : Env) (policy : Policy) (r : Request) (sid : String) :
    SampleEnforced env policy r sid ↔ ∀ values, (normalizeMetrics r.metrics).get? sid = some values →
      ¬ FailedUnasked values (sampleThresholds env policy r)
          (resolvedPolicy env policy r).validation.onMissingMetric ∧
        ¬ Overlooked values (sampleThresholds env policy r)
          (resolvedPolicy env policy r).validation.onMissingMetric := by
  refine forall₂_congr fun values hvalues => ?_
  have hresults : (evaluatePolicy env policy r).ruleResults.get? sid = some (strategyResults env policy r sid values) := by
    rw [get?_ruleResults, hvalues]
    rfl
  obtain ⟨sample, hsample, hfail⟩ : ∃ sample, (strategyResults env policy r sid values).get? "sample" = some sample ∧
      (sample.status = .fail ↔ ∃ rule, LastOnMetric (sampleThresholds env policy r) rule ∧
        ¬ (Seen values rule ∧ Meets values (resolvedPolicy env policy r).validation.onMissingMetric rule)) := by
    rw [get?_strategyResults (by decide)]
    exact ⟨_, rfl, sampleRule_fail⟩
  rw [failedUnasked_iff, overlooked_iff, ← hfail]
  constructor
  · rintro ⟨results, sample', hget, hsample', hiff⟩
    cases hresults.symm.trans hget
    cases hsample.symm.trans hsample'
    exact ⟨fun h => h.2 (hiff.mp h.1), fun h => h.2 (hiff.mpr h.1)⟩
  · rintro ⟨hunasked, hoverlooked⟩
    refine ⟨_, sample, hresults, hsample, ?_⟩
    constructor
    · intro h
      by_contra hno
      exact hunasked ⟨h, hno⟩
    · intro h
      by_contra hno
      exact hoverlooked ⟨h, hno⟩

def tradesPerDay : Policy where
  selection := { thresholds := Dict.ofList [("n_trades_per_day",
    { metric := "n_trades_per_day", min := some (.finite 1) })] }

def fiveTradesPerDay : Request where
  metrics := Dict.ofList [("s1", [("n_trades_per_day", .number (.finite 5))])]

/-- The threshold is met, the strategy is selected, and the sample rule fails. -/
theorem met_threshold_fails : (evaluatePolicy plainEnv tradesPerDay fiveTradesPerDay).selectedIds = ["s1"] ∧
      ((evaluatePolicy plainEnv tradesPerDay fiveTradesPerDay).ruleResults.get? "s1").map (fun results =>
        (results.get? "sample").map (·.status)) = some (some .fail) ∧
      ¬ ∀ sid, SampleEnforced plainEnv tradesPerDay fiveTradesPerDay sid := by
  have hstatus : ((evaluatePolicy plainEnv tradesPerDay fiveTradesPerDay).ruleResults.get? "s1").map (fun results =>
      (results.get? "sample").map (·.status)) = some (some .fail) := by decide +kernel
  refine ⟨by decide +kernel, hstatus, fun h => ?_⟩
  have hthresholds : sampleThresholds plainEnv tradesPerDay fiveTradesPerDay =
      [{ metric := "n_trades_per_day", min := some (.finite 1) }] := by decide +kernel
  have hmetric : ((normalizeMetrics fiveTradesPerDay.metrics).get? "s1").bind (fun values =>
      values.get? "n_trades_per_day") = some (.finite 5) := by decide +kernel
  obtain ⟨values, hvalues, hvalue⟩ := Option.bind_eq_some_iff.mp hmetric
  obtain ⟨results, sample, hresults, hsample, hiff⟩ := h "s1" values hvalues
  rw [hresults, Option.map_some, hsample, Option.map_some, Option.some_inj, Option.some_inj] at hstatus
  obtain ⟨rule, hrule, hno⟩ := hiff.mp hstatus
  rw [hthresholds, List.mem_singleton] at hrule
  subst hrule
  refine hno ?_
  unfold Meets
  rw [hvalue]
  exact ⟨by simp [Double.lt], by simp⟩

end Qmtl.WorldService.PolicyEngine

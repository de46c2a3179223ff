import Qmtl.WorldService.Policy.Selection

/-! Whether the results of the performance and risk rules explain the selection. A strategy that is selected fails
neither. -/

namespace Qmtl.WorldService.PolicyEngine

open Lib

lemma correlationStep_cases (correlations : Correlations) (rule : CorrelationRule)
    (state : List String × Dict String (List (String × Double))) (sid : String) :
    (∃ blockedBy, correlationStep correlations rule state sid = (state.1, state.2.set sid blockedBy)) ∨
      correlationStep correlations rule state sid = (state.1 ++ [sid], state.2) := by
  unfold correlationStep
  dsimp only
  split
  · exact .inl ⟨_, rfl⟩
  · exact .inr rfl

lemma mem_keys_violations {correlations : Correlations} {rule : CorrelationRule} (candidates : List String)
    (state : List String × Dict String (List (String × Double))) (h : (state.1 ++ candidates).Nodup) (sid : String) :
    sid ∈ (candidates.foldl (correlationStep correlations rule) state).2.keys ↔ sid ∈ state.2.keys ∨
        sid ∈ candidates ∧ sid ∉ (candidates.foldl (correlationStep correlations rule) state).1 := by
  induction candidates generalizing state with
  | nil => simp
  | cons first candidates ih =>
    obtain ⟨hst, hr, hd⟩ := List.nodup_append.mp h
    obtain ⟨hfirst, hc⟩ := List.nodup_cons.mp hr
    have hnt : first ∉ state.1 := fun hmem => hd first hmem first (.head _) rfl
    rw [List.foldl_cons]
    rcases correlationStep_cases correlations rule state first with ⟨blockedBy, hs⟩ | hs
    · -- it is blocked, and not kept later
      have hn : (state.1 ++ candidates).Nodup := by
        refine List.nodup_append.mpr ⟨hst, hc, ?_⟩
        exact fun a ha b hb => hd a ha b (.tail _ hb)
      rw [hs, ih (state.1, state.2.set first blockedBy) hn, Dict.mem_keys_set]
      have hcut : first ∉ (candidates.foldl (correlationStep correlations rule)
          (state.1, state.2.set first blockedBy)).1 := by
        rw [foldl_correlationStep]
        obtain ⟨new, hnew, hsub⟩ := @Greedy.keep_eq_append _ (exceeds correlations rule) state.1 candidates
        rw [hnew, List.mem_append]
        rintro (hmem | hmem)
        · exact hnt hmem
        · exact hfirst (hsub.subset hmem)
      constructor
      · rintro ((rfl | hmem) | ⟨hmem, hno⟩)
        · exact .inr ⟨.head _, hcut⟩
        · exact .inl hmem
        · exact .inr ⟨.tail _ hmem, hno⟩
      · rintro (hmem | ⟨hmem, hno⟩)
        · exact .inl (.inr hmem)
        · rcases List.mem_cons.mp hmem with rfl | hmem
          · exact .inl (.inl rfl)
          · exact .inr ⟨hmem, hno⟩
    · have hn : (state.1 ++ [first] ++ candidates).Nodup := by
        rw [List.append_assoc]
        exact h
      rw [hs, ih (state.1 ++ [first], state.2) hn]
      have hk : first ∈ (candidates.foldl (correlationStep correlations rule) (state.1 ++ [first], state.2)).1 := by
        rw [foldl_correlationStep]
        obtain ⟨new, hnew, -⟩ := @Greedy.keep_eq_append _ (exceeds correlations rule) (state.1 ++ [first]) candidates
        rw [hnew]
        simp
      constructor
      · rintro (hmem | ⟨hmem, hno⟩)
        · exact .inl hmem
        · exact .inr ⟨.tail _ hmem, hno⟩
      · rintro (hmem | ⟨hmem, hno⟩)
        · exact .inl hmem
        · rcases List.mem_cons.mp hmem with rfl | hmem
          · exact absurd hk hno
          · exact .inr ⟨hmem, hno⟩

lemma isSome_get?_iff {α : Type} {d : Dict String α} {sid : String} : (d.get? sid).isSome ↔ sid ∈ d.keys := by
  rw [Option.isSome_iff_ne_none, ne_eq, Dict.get?_eq_none, not_not]

lemma mem_keys_correlationsStep {given : Option Correlations} {rule : Option CorrelationRule} {candidates : List String}
    (h : candidates.Nodup) (sid : String) : sid ∈ (correlationsStep given rule candidates).2.keys ↔
      sid ∈ candidates ∧ sid ∉ (correlationsStep given rule candidates).1 := by
  have hempty : ∀ {l : List String}, sid ∈ (.empty : Dict String (List (String × Double))).keys ↔
      sid ∈ l ∧ sid ∉ l := fun {l} => iff_of_false (fun h => by cases h) fun h => h.2 h.1
  unfold correlationsStep applyCorrelation
  cases rule with
  | none => exact hempty
  | some rule =>
    cases given with
    | none => exact hempty
    | some map =>
      dsimp only
      split
      · exact hempty
      · rw [mem_keys_violations candidates ([], .empty) h]
        exact or_iff_right fun h => by cases h

variable {metrics : Dict String Metrics}

lemma mem_keys_hysteresis {prevActive candidates : List String} {rule : HysteresisRule}
    {sid : String} : sid ∈ (applyHysteresis metrics candidates prevActive rule).2.keys ↔
      sid ∈ candidates ∧ ∃ mode, hysteresisOutcome metrics prevActive rule sid = some (some mode) := by
  unfold applyHysteresis
  rw [Dict.mem_keys_ofList, List.mem_map]
  constructor
  · rintro ⟨e, he, rfl⟩
    obtain ⟨sid, hsid, heq⟩ := List.mem_filterMap.mp he
    obtain ⟨mode, hmode, rfl⟩ := Option.map_eq_some_iff.mp heq
    exact ⟨hsid, mode, Option.join_eq_some_iff.mp hmode⟩
  · rintro ⟨hsid, mode, hmode⟩
    refine ⟨(sid, mode), List.mem_filterMap.mpr ⟨sid, hsid, ?_⟩, rfl⟩
    rw [hmode]
    rfl

def WarnedOfMissing (values : Metrics) (thresholds : List ThresholdRule) (mode : MissingMode) : Prop :=
  mode = .warn ∧ ∃ rule ∈ thresholds, values.get? rule.metric = none

lemma isMissing_violation {rule : ThresholdRule} {value : Double} {f : Failure}
    (h : f ∈ thresholdValueViolations rule value) : f.isMissing = false := by
  rcases List.mem_append.mp h with h | h
  all_goals
    obtain ⟨bound, -, rfl⟩ := List.mem_map.mp h
    rfl

lemma missing_eq_nil {values : Metrics} {thresholds : List ThresholdRule} {mode : MissingMode}
    (h : passes values thresholds mode) :
    (strategyFailures values thresholds mode).filter (·.isMissing) = [] ↔ ¬ WarnedOfMissing values thresholds mode := by
  rw [List.filter_eq_nil_iff]
  constructor
  · rintro hn ⟨rfl, rule, hr, hget⟩
    refine hn (.missingMetric rule.metric .warn) (List.mem_flatMap.mpr ⟨rule, hr, ?_⟩) rfl
    rw [hget]
    exact List.mem_singleton_self _
  · intro hno f hf hm
    obtain ⟨rule, hr, hf⟩ := List.mem_flatMap.mp hf
    cases hget : values.get? rule.metric with
    | none =>
      have hmt := passes_iff.mp h rule hr
      unfold Meets at hmt
      rw [hget] at hf hmt
      cases mode with
      | fail => exact hmt rfl
      | warn => exact hno ⟨rfl, rule, hr, hget⟩
      | ignore => cases hf
    | some value =>
      rw [hget] at hf
      rw [isMissing_violation hf] at hm
      cases hm

section

variable {env : Env} {selection : Preparation} {severity owner sid : String}

/-- **The performance rule fails** where a threshold blocks, or where the rank is too low and nothing is
warned of before. -/
theorem performanceRule_fail {topK : Option TopKRule} {mode : MissingMode} {values : Metrics}
    {thresholds : List ThresholdRule}
    (hf : (selection.thresholdFailures.get? sid).getD [] = strategyFailures values thresholds mode) :
    (performanceRule env selection topK mode severity owner sid).status = .fail ↔
      (passes values thresholds mode → ¬ WarnedOfMissing values thresholds mode ∧
        topK.isSome ∧ sid ∉ selection.topkSelected) := by
  unfold performanceRule
  rw [hf]
  dsimp only
  cases hb : (strategyFailures values thresholds mode).filter (·.blocking) with
  | cons first rest =>
    have hno : passes values thresholds mode ≠ true := by
      have hmem : first ∈ (strategyFailures values thresholds mode).filter (·.blocking) := by
        rw [hb]
        exact .head _
      obtain ⟨hmem, hbl⟩ := List.mem_filter.mp hmem
      unfold passes
      rw [List.any_eq_true.mpr ⟨first, hmem, hbl⟩]
      exact Bool.false_ne_true
    exact iff_of_true rfl fun h => absurd h hno
  | nil =>
    have hp : passes values thresholds mode := by
      unfold passes
      rw [Bool.not_eq_true', List.any_eq_false]
      exact List.filter_eq_nil_iff.mp hb
    rw [iff_true_intro hp, true_imp_iff, ← missing_eq_nil hp]
    unfold performanceMissingResult
    by_cases hm : (strategyFailures values thresholds mode).filter (·.isMissing) = []
    · rw [if_pos hm]
      unfold performanceRankResult
      cases topK with
      | none => simp
      | some rule =>
        by_cases hsid : sid ∈ selection.topkSelected
        · simp [hsid]
        · simp [hsid, hm]
    · -- what is missing is warned of, since the strategy passes
      have hw : WarnedOfMissing values thresholds mode := by
        by_contra hno
        exact hm ((missing_eq_nil hp).mpr hno)
      obtain ⟨rfl, -⟩ := hw
      rw [if_neg hm]
      exact iff_of_false (fun h => by cases h) fun h => hm h.1

/-- **The risk rule fails** for what the correlations cut, and for what hysteresis blocks. -/
theorem riskConstraintRule_fail {correlation : Option CorrelationRule} {hysteresis : Option HysteresisRule}
    {prevActive : List String} {values : Metrics} :
    (riskConstraintRule env selection correlation hysteresis severity owner prevActive sid values).status = .fail ↔
      (correlation.isSome ∧ sid ∈ selection.correlationViolations.keys) ∨
        (hysteresis.isSome ∧ sid ∈ selection.hysteresisBlocked.keys) := by
  rw [← isSome_get?_iff, ← isSome_get?_iff]
  unfold riskConstraintRule riskCorrelationFailure riskHysteresisFailure
  cases correlation with
  | none =>
    cases hysteresis with
    | none => simp
    | some h => cases selection.hysteresisBlocked.get? sid <;> simp
  | some c =>
    cases selection.correlationViolations.get? sid with
    | some blockedBy => simp
    | none =>
      cases hysteresis with
      | none => simp
      | some h => cases selection.hysteresisBlocked.get? sid <;> simp

end

/-! ### The results and the selection -/

section

variable (env : Env) (policy : Policy) (r : Request)

def Explains (sid : String) : Prop :=
  ∀ values, (normalizeMetrics r.metrics).get? sid = some values →
    ∃ results performance risk, (evaluatePolicy env policy r).ruleResults.get? sid = some results ∧
      results.get? "performance" = some performance ∧ results.get? "risk_constraint" = some risk ∧
        (sid ∈ (evaluatePolicy env policy r).selectedIds ↔ performance.status ≠ .fail ∧ risk.status ≠ .fail)

def passing : List String :=
  ((normalizeMetrics r.metrics).entries.filter fun e => passes e.2
    (resolvedPolicy env policy r).selection.thresholds.values
    (resolvedPolicy env policy r).validation.onMissingMetric).map (·.1)

def ranked : List String :=
  match (resolvedPolicy env policy r).selection.topK with
  | none => passing env policy r
  | some rule => (env.sorter.sortDesc (score (normalizeMetrics r.metrics) rule) (passing env policy r)).take rule.k

def unblocked : List String :=
  match (resolvedPolicy env policy r).selection.correlation, r.correlations with
  | some rule, some map =>
    if map.entries = [] then ranked env policy r else Greedy.keep (exceeds map rule) [] (ranked env policy r)
  | _, _ => ranked env policy r

/-- A strategy is cut by `top_k`, and warned of a missing metric before that. -/
def CutUnseen (sid : String) : Prop :=
  sid ∈ passing env policy r ∧ sid ∉ ranked env policy r ∧ ∃ values,
    (normalizeMetrics r.metrics).get? sid = some values ∧
      WarnedOfMissing values (resolvedPolicy env policy r).selection.thresholds.values
        (resolvedPolicy env policy r).validation.onMissingMetric

def DroppedUnseen (sid : String) : Prop :=
  sid ∈ unblocked env policy r ∧ ∃ rule, (resolvedPolicy env policy r).selection.hysteresis = some rule ∧
    metricOf (normalizeMetrics r.metrics) rule.metric sid = none

end

variable {env : Env} {policy : Policy} {r : Request} {sid : String}

lemma topkSelected_eq : (selectionOf env policy r).topkSelected = ranked env policy r := by
  show (topkStep _ _ (resolvedPolicy env policy r).selection.topK (passing env policy r)).1 = _
  unfold ranked topkStep
  cases (resolvedPolicy env policy r).selection.topK with
  | none => rfl
  | some rule => rfl

lemma uncorrelated_eq : (selectionOf env policy r).uncorrelated = unblocked env policy r := by
  show (correlationsStep _ (resolvedPolicy env policy r).selection.correlation (selectionOf env policy r).topkSelected).1 = _
  rw [topkSelected_eq]
  unfold unblocked correlationsStep applyCorrelation
  cases (resolvedPolicy env policy r).selection.correlation with
  | none => rfl
  | some rule =>
    cases r.correlations with
    | none => rfl
    | some map =>
      dsimp only
      split
      · rfl
      · exact foldl_correlationStep _ _

lemma ranked_subset (h : sid ∈ ranked env policy r) : sid ∈ passing env policy r := by
  rw [← topkSelected_eq] at h
  exact mem_passed_iff.mpr (topkSelected_subset h)

lemma unblocked_subset (h : sid ∈ unblocked env policy r) : sid ∈ ranked env policy r := by
  rw [← uncorrelated_eq] at h
  rw [← topkSelected_eq]
  exact uncorrelated_sublist.subset h

lemma mem_passing {values : Metrics} (hv : (normalizeMetrics r.metrics).get? sid = some values) :
    sid ∈ passing env policy r ↔ passes values (resolvedPolicy env policy r).selection.thresholds.values
      (resolvedPolicy env policy r).validation.onMissingMetric := by
  have hmem : sid ∈ passing env policy r ↔ ∃ vals, (normalizeMetrics r.metrics).get? sid = some vals ∧
    passes vals (resolvedPolicy env policy r).selection.thresholds.values
      (resolvedPolicy env policy r).validation.onMissingMetric := mem_passed
  rw [hmem, hv]
  constructor
  · rintro ⟨vals, heq, hp⟩
    cases heq
    exact hp
  · exact fun hp => ⟨values, rfl, hp⟩

lemma mem_selectedIds : sid ∈ (evaluatePolicy env policy r).selectedIds ↔
    sid ∈ unblocked env policy r ∧ ∀ rule, (resolvedPolicy env policy r).selection.hysteresis = some rule →
      hysteresisOutcome (normalizeMetrics r.metrics) r.prevActive rule sid = some none := by
  show sid ∈ (hysteresisStep (normalizeMetrics r.metrics) r.prevActive
    (resolvedPolicy env policy r).selection.hysteresis (selectionOf env policy r).uncorrelated).1 ↔ _
  rw [uncorrelated_eq]
  unfold hysteresisStep
  cases (resolvedPolicy env policy r).selection.hysteresis with
  | none => simp
  | some rule => simp [applyHysteresis]

lemma performance_fail_iff {values : Metrics} (hv : (normalizeMetrics r.metrics).get? sid = some values)
    {severity owner : String} :
    (performanceRule env (selectionOf env policy r) (resolvedPolicy env policy r).selection.topK
        (resolvedPolicy env policy r).validation.onMissingMetric severity owner sid).status = .fail ↔
      sid ∉ passing env policy r ∨ sid ∉ ranked env policy r ∧
        ¬ WarnedOfMissing values (resolvedPolicy env policy r).selection.thresholds.values
          (resolvedPolicy env policy r).validation.onMissingMetric := by
  have htop : sid ∈ passing env policy r → sid ∉ ranked env policy r →
      (resolvedPolicy env policy r).selection.topK.isSome := by
    intro hp hr
    unfold ranked at hr
    cases htop : (resolvedPolicy env policy r).selection.topK with
    | none =>
      rw [htop] at hr
      exact absurd hp hr
    | some rule => rfl
  have hf : ((selectionOf env policy r).thresholdFailures.get? sid).getD [] =
      strategyFailures values (resolvedPolicy env policy r).selection.thresholds.values
        (resolvedPolicy env policy r).validation.onMissingMetric := get?_thresholdFailures hv
  rw [performanceRule_fail hf, ← mem_passing hv, topkSelected_eq]
  constructor
  · intro h
    by_cases hp : sid ∈ passing env policy r
    · obtain ⟨hno, -, hr⟩ := h hp
      exact .inr ⟨hr, hno⟩
    · exact .inl hp
  · rintro (h | ⟨hr, hno⟩) hp
    · exact absurd hp h
    · exact ⟨hno, htop hp hr, hr⟩

lemma risk_fail_iff {values : Metrics} {severity owner : String} :
    (riskConstraintRule env (selectionOf env policy r) (resolvedPolicy env policy r).selection.correlation
        (resolvedPolicy env policy r).selection.hysteresis severity owner r.prevActive sid values).status = .fail ↔
      (sid ∈ ranked env policy r ∧ sid ∉ unblocked env policy r) ∨
        (sid ∈ unblocked env policy r ∧ ∃ rule, (resolvedPolicy env policy r).selection.hysteresis = some rule ∧
          ∃ mode, hysteresisOutcome (normalizeMetrics r.metrics) r.prevActive rule sid = some (some mode)) := by
  have hcut : sid ∈ (selectionOf env policy r).correlationViolations.keys ↔
      sid ∈ ranked env policy r ∧ sid ∉ unblocked env policy r := by
    rw [← topkSelected_eq, ← uncorrelated_eq]
    exact mem_keys_correlationsStep topkSelected_nodup sid
  have hr : sid ∈ ranked env policy r ∧ sid ∉ unblocked env policy r →
      (resolvedPolicy env policy r).selection.correlation.isSome := by
    rintro ⟨hrn, hno⟩
    unfold unblocked at hno
    cases hr : (resolvedPolicy env policy r).selection.correlation with
    | none =>
      rw [hr] at hno
      exact absurd hrn hno
    | some rule => rfl
  have hb : (resolvedPolicy env policy r).selection.hysteresis.isSome ∧
      sid ∈ (selectionOf env policy r).hysteresisBlocked.keys ↔
      sid ∈ unblocked env policy r ∧ ∃ rule, (resolvedPolicy env policy r).selection.hysteresis = some rule ∧
        ∃ mode, hysteresisOutcome (normalizeMetrics r.metrics) r.prevActive rule sid = some (some mode) := by
    show _ ∧ sid ∈ (hysteresisStep (normalizeMetrics r.metrics) r.prevActive
      (resolvedPolicy env policy r).selection.hysteresis (selectionOf env policy r).uncorrelated).2.keys ↔ _
    rw [uncorrelated_eq]
    unfold hysteresisStep
    cases (resolvedPolicy env policy r).selection.hysteresis with
    | none => simp
    | some rule =>
      rw [mem_keys_hysteresis]
      simp
  rw [riskConstraintRule_fail, hb, hcut, and_iff_right_of_imp hr]

lemma outcome_eq_none {prevActive : List String} {rule : HysteresisRule} :
    hysteresisOutcome metrics prevActive rule sid = none ↔ metricOf metrics rule.metric sid = none := by
  unfold hysteresisOutcome
  rw [Option.map_eq_none_iff]

lemma exists_performance {values : Metrics} (hv : (normalizeMetrics r.metrics).get? sid = some values) :
    ∃ performance, (strategyResults env policy r sid values).get? "performance" = some performance ∧
      (performance.status = .fail ↔ sid ∉ passing env policy r ∨ sid ∉ ranked env policy r ∧
        ¬ WarnedOfMissing values (resolvedPolicy env policy r).selection.thresholds.values
          (resolvedPolicy env policy r).validation.onMissingMetric) := by
  rw [get?_strategyResults (by decide)]
  exact ⟨_, rfl, performance_fail_iff hv⟩

lemma exists_risk (values : Metrics) :
    ∃ risk, (strategyResults env policy r sid values).get? "risk_constraint" = some risk ∧
      (risk.status = .fail ↔ (sid ∈ ranked env policy r ∧ sid ∉ unblocked env policy r) ∨
        (sid ∈ unblocked env policy r ∧ ∃ rule, (resolvedPolicy env policy r).selection.hysteresis = some rule ∧
          ∃ mode, hysteresisOutcome (normalizeMetrics r.metrics) r.prevActive rule sid = some (some mode))) := by
  rw [get?_strategyResults (by decide)]
  exact ⟨_, rfl, risk_fail_iff⟩

lemma explains_iff_of_values {values : Metrics} (hv : (normalizeMetrics r.metrics).get? sid = some values) :
    Explains env policy r sid ↔ (sid ∈ (evaluatePolicy env policy r).selectedIds ↔
      ¬ (sid ∉ passing env policy r ∨ sid ∉ ranked env policy r ∧
        ¬ WarnedOfMissing values (resolvedPolicy env policy r).selection.thresholds.values
          (resolvedPolicy env policy r).validation.onMissingMetric) ∧
      ¬ ((sid ∈ ranked env policy r ∧ sid ∉ unblocked env policy r) ∨
        (sid ∈ unblocked env policy r ∧ ∃ rule, (resolvedPolicy env policy r).selection.hysteresis = some rule ∧
          ∃ mode, hysteresisOutcome (normalizeMetrics r.metrics) r.prevActive rule sid = some (some mode)))) := by
  obtain ⟨performance, hp, hf⟩ := @exists_performance env policy r sid values hv
  obtain ⟨risk, hrs, hf'⟩ := @exists_risk env policy r sid values
  have hr : (evaluatePolicy env policy r).ruleResults.get? sid = some (strategyResults env policy r sid values) := by
    rw [get?_ruleResults, hv]
    rfl
  rw [← hf, ← hf']
  constructor
  · intro h
    obtain ⟨results, performance', risk', hget, hp', hr', hiff⟩ := h values hv
    cases hr.symm.trans hget
    cases hp.symm.trans hp'
    cases hrs.symm.trans hr'
    exact hiff
  · intro hiff values' hv'
    cases hv.symm.trans hv'
    exact ⟨_, performance, risk, hr, hp, hrs, hiff⟩

lemma kept_iff : (∀ rule, (resolvedPolicy env policy r).selection.hysteresis = some rule →
      hysteresisOutcome (normalizeMetrics r.metrics) r.prevActive rule sid = some none) ↔
    (¬ ∃ rule, (resolvedPolicy env policy r).selection.hysteresis = some rule ∧
      ∃ mode, hysteresisOutcome (normalizeMetrics r.metrics) r.prevActive rule sid = some (some mode)) ∧
    ¬ ∃ rule, (resolvedPolicy env policy r).selection.hysteresis = some rule ∧
      metricOf (normalizeMetrics r.metrics) rule.metric sid = none := by
  cases (resolvedPolicy env policy r).selection.hysteresis with
  | none => simp
  | some rule =>
    simp only [Option.some.injEq, forall_eq', exists_eq_left', ← @outcome_eq_none _ _ r.prevActive]
    rcases hysteresisOutcome (normalizeMetrics r.metrics) r.prevActive rule sid with _ | _ | mode
    · simp
    · simp
    · simp

lemma unrecorded (h : ∃ rule, (resolvedPolicy env policy r).selection.hysteresis = some rule ∧
      metricOf (normalizeMetrics r.metrics) rule.metric sid = none) :
    ¬ ∃ rule, (resolvedPolicy env policy r).selection.hysteresis = some rule ∧
      ∃ mode, hysteresisOutcome (normalizeMetrics r.metrics) r.prevActive rule sid = some (some mode) := by
  rintro ⟨rule', hr', mode, hmode⟩
  obtain ⟨rule, hr, hn⟩ := h
  cases hr.symm.trans hr'
  rw [outcome_eq_none.mpr hn] at hmode
  cases hmode

/-- **The results explain the selection** for every strategy but those that are cut or dropped unseen. -/
theorem explains_iff (env : Env) (policy : Policy) (r : Request) (sid : String) :
    Explains env policy r sid ↔ ¬ CutUnseen env policy r sid ∧ ¬ DroppedUnseen env policy r sid := by
  by_cases hpassing : sid ∈ passing env policy r
  · obtain ⟨values, hvalues, -⟩ : PassesThresholds env policy r sid := mem_passed_iff.mp hpassing
    have hwarned : CutUnseen env policy r sid ↔ sid ∉ ranked env policy r ∧
        WarnedOfMissing values (resolvedPolicy env policy r).selection.thresholds.values
          (resolvedPolicy env policy r).validation.onMissingMetric := by
      unfold CutUnseen
      rw [hvalues]
      simp [hpassing]
    rw [explains_iff_of_values hvalues, mem_selectedIds, kept_iff, hwarned]
    unfold DroppedUnseen
    by_cases hranked : sid ∈ ranked env policy r
    · by_cases hunblocked : sid ∈ unblocked env policy r
      · -- neither rule has cut it, and hysteresis decides
        simp only [hpassing, hranked, hunblocked, not_true_eq_false, true_and, false_and, and_false, or_false, false_or,
          not_false_eq_true]
        constructor
        · intro h hdropped
          exact (h.mpr (unrecorded hdropped)).2 hdropped
        · intro hno
          exact and_iff_left hno
      · -- the correlations have cut it
        simp [hranked, hunblocked, not_false_eq_true]
    · have hunblocked : sid ∉ unblocked env policy r := fun h => hranked (unblocked_subset h)
      simp only [hpassing, hranked, hunblocked, not_true_eq_false, true_and, false_and, false_or,
        not_false_eq_true, and_true, false_iff, not_not]
  · have hranked : sid ∉ ranked env policy r := fun h => hpassing (ranked_subset h)
    have hunblocked : sid ∉ unblocked env policy r := fun h => hranked (unblocked_subset h)
    refine iff_of_true ?_ ⟨fun h => hpassing h.1, fun h => hunblocked h.1⟩
    intro values hvalues
    refine (explains_iff_of_values hvalues).mpr (iff_of_false ?_ ?_) values hvalues
    · rw [mem_selectedIds]
      exact fun h => hunblocked h.1
    · exact fun h => h.1 (.inl hpassing)

def withoutWinRate : Request where
  metrics := Dict.ofList [("s1", [("sharpe", .number (.finite 2))])]

def hysteresisOnly : Policy where
  selection := { hysteresis := some ⟨"win_rate", .finite 1, .finite 0⟩ }

/-- It is not selected, and no rule fails. -/
theorem dropped_without_reason : (evaluatePolicy plainEnv hysteresisOnly withoutWinRate).selectedIds = [] ∧
      ((evaluatePolicy plainEnv hysteresisOnly withoutWinRate).ruleResults.get? "s1").map (fun results =>
        ((results.get? "performance").map (·.status), (results.get? "risk_constraint").map (·.status))) =
      some (some .pass, some .pass) ∧ ¬ ∀ sid, Explains plainEnv hysteresisOnly withoutWinRate sid := by
  have hselected : (evaluatePolicy plainEnv hysteresisOnly withoutWinRate).selectedIds = [] := by decide +kernel
  have hstatus : ((evaluatePolicy plainEnv hysteresisOnly withoutWinRate).ruleResults.get? "s1").map (fun results =>
      ((results.get? "performance").map (·.status), (results.get? "risk_constraint").map (·.status))) =
      some (some .pass, some .pass) := by decide +kernel
  refine ⟨hselected, hstatus, fun h => ?_⟩
  obtain ⟨values, hvalues⟩ : ∃ values, (normalizeMetrics withoutWinRate.metrics).get? "s1" = some values :=
    Option.isSome_iff_exists.mp (by decide +kernel)
  obtain ⟨results, performance, risk, hresults, hperformance, hrisk, hiff⟩ := h "s1" values hvalues
  rw [hresults, Option.map_some, hperformance, hrisk] at hstatus
  simp only [Option.map_some, Option.some.injEq, Prod.mk.injEq] at hstatus
  rw [hselected, hstatus.1, hstatus.2] at hiff
  cases hiff.mpr ⟨by decide, by decide⟩

end Qmtl.WorldService.PolicyEngine

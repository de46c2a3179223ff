import Qmtl.Lib.Greedy
import Qmtl.WorldService.Policy.Evaluate

/-!
What the selection comes to: each step of the pipeline is specified by itself, and what is selected in the
end has been left by all of them.
-/

namespace Qmtl.WorldService.PolicyEngine

open Lib

/-! ### Thresholds -/

def Meets (values : Metrics) (mode : MissingMode) (rule : ThresholdRule) : Prop :=
  match values.get? rule.metric with
  | none => mode ≠ .fail
  | some value => (∀ bound ∈ rule.min, Double.lt value bound = false) ∧ ∀ bound ∈ rule.max, Double.lt bound value = false

lemma thresholdValueViolations_eq_nil {rule : ThresholdRule} {value : Double} :
    thresholdValueViolations rule value = [] ↔
      (∀ bound ∈ rule.min, Double.lt value bound = false) ∧ ∀ bound ∈ rule.max, Double.lt bound value = false := by
  unfold thresholdValueViolations
  simp [List.filter_eq_nil_iff]

lemma blocking_of_violation {rule : ThresholdRule} {value : Double} {f : Failure}
    (h : f ∈ thresholdValueViolations rule value) : f.blocking := by
  rcases List.mem_append.mp h with h | h
  all_goals
    obtain ⟨bound, -, rfl⟩ := List.mem_map.mp h
    rfl

variable {mode : MissingMode} {sid : String}

lemma passes_iff {values : Metrics} {thresholds : List ThresholdRule} :
    passes values thresholds mode ↔ ∀ rule ∈ thresholds, Meets values mode rule := by
  unfold passes strategyFailures
  rw [Bool.not_eq_true', List.any_flatMap, List.any_eq_false]
  refine forall₂_congr fun rule _ => ?_
  unfold Meets
  cases values.get? rule.metric with
  | none => cases mode <;> simp [missingMetricFailure, Failure.blocking]
  | some value =>
    dsimp only
    rw [← thresholdValueViolations_eq_nil]
    constructor
    · intro h
      by_contra hne
      obtain ⟨f, hf⟩ := List.exists_mem_of_ne_nil _ hne
      exact h (List.any_eq_true.mpr ⟨f, hf, blocking_of_violation hf⟩)
    · intro h
      simp [h]

lemma mem_passed {metrics : Dict String Metrics} {thresholds : Dict String ThresholdRule} :
    sid ∈ (evaluateThresholds metrics thresholds mode).1 ↔
      ∃ values, metrics.get? sid = some values ∧ passes values thresholds.values mode := by
  unfold evaluateThresholds
  rw [List.mem_map]
  constructor
  · rintro ⟨e, he, rfl⟩
    obtain ⟨he, hp⟩ := List.mem_filter.mp he
    exact ⟨e.2, Dict.get?_eq_some.mpr he, hp⟩
  · rintro ⟨values, hget, hp⟩
    exact ⟨(sid, values), List.mem_filter.mpr ⟨Dict.get?_eq_some.mp hget, hp⟩, rfl⟩

lemma nodup_passed (metrics : Dict String Metrics) (thresholds : Dict String ThresholdRule) (mode : MissingMode) :
    (evaluateThresholds metrics thresholds mode).1.Nodup :=
  metrics.nodup.sublist (List.Sublist.map _ List.filter_sublist)

lemma get?_thresholdFailures {metrics : Dict String Metrics} {thresholds : Dict String ThresholdRule}
    {values : Metrics} (hget : metrics.get? sid = some values) :
    ((evaluateThresholds metrics thresholds mode).2.get? sid).getD [] =
      strategyFailures values thresholds.values mode := by
  unfold evaluateThresholds
  generalize hes : (metrics.entries.map fun e => (e.1, strategyFailures e.2 thresholds.values mode)) = es
  have hkeys : (es.map Prod.fst).Nodup := by
    rw [← hes, List.map_map]
    exact metrics.nodup
  have hmem : (sid, strategyFailures values thresholds.values mode) ∈ es := by
    rw [← hes]
    exact List.mem_map.mpr ⟨(sid, values), Dict.get?_eq_some.mp hget, rfl⟩
  have hf : ((es.filter fun e => e.2 ≠ []).map Prod.fst).Nodup :=
    hkeys.sublist (List.Sublist.map _ List.filter_sublist)
  by_cases hnil : strategyFailures values thresholds.values mode = []
  · have hn : (Dict.ofList (es.filter fun e => e.2 ≠ [])).get? sid = none := by
      rw [Dict.get?_eq_none, Dict.mem_keys_ofList, List.mem_map]
      rintro ⟨e, he, heq⟩
      obtain ⟨he, hne⟩ := List.mem_filter.mp he
      have h1 : es.lookup sid = some e.2 := (Dict.lookup_eq_some hkeys).mpr (heq ▸ he)
      rw [(Dict.lookup_eq_some hkeys).mpr hmem, hnil] at h1
      exact of_decide_eq_true hne (Option.some.inj h1).symm
    rw [hn, hnil]
    rfl
  · have hs : (Dict.ofList (es.filter fun e => e.2 ≠ [])).get? sid =
        some (strategyFailures values thresholds.values mode) := by
      rw [Dict.get?_eq_some, Dict.entries_ofList hf]
      exact List.mem_filter.mpr ⟨hmem, decide_eq_true hnil⟩
    rw [hs]
    rfl

def score (metrics : Dict String Metrics) (rule : TopKRule) (sid : String) : Double :=
  (metricOf metrics rule.metric sid).getD .negInf

section

variable {s : Sorter} {metrics : Dict String Metrics} {rule : TopKRule} {candidates : List String}

lemma applyTopk_subset {sid : String} (h : sid ∈ (applyTopk s metrics candidates rule).1) : sid ∈ candidates :=
  (s.sortDesc_perm _ candidates).mem_iff.mp (List.mem_of_mem_take h)

lemma applyTopk_nodup (h : candidates.Nodup) : (applyTopk s metrics candidates rule).1.Nodup :=
  (List.take_sublist _ _).nodup ((s.sortDesc_perm _ candidates).nodup_iff.mpr h)

lemma applyTopk_length : (applyTopk s metrics candidates rule).1.length ≤ rule.k := List.length_take_le _ _

/-- **No better one is cut.** -/
theorem applyTopk_best (hsc : ∀ sid ∈ candidates, score metrics rule sid ≠ .nan) {sid other : String}
    (hsid : sid ∈ (applyTopk s metrics candidates rule).1) (hother : other ∈ candidates)
    (hlt : Double.lt (score metrics rule sid) (score metrics rule other)) :
    other ∈ (applyTopk s metrics candidates rule).1 := by
  have hs := s.pairwise_sortDesc (score metrics rule) hsc
  have hmem := (s.sortDesc_perm (score metrics rule) candidates).mem_iff.mpr hother
  by_contra hcut
  -- it comes after the first `k`, so it is not greater than what is among them
  rw [← List.take_append_drop rule.k (s.sortDesc (score metrics rule) candidates)] at hs hmem
  have haf := (List.mem_append.mp hmem).resolve_left hcut
  have hno := (List.pairwise_append.mp hs).2.2 sid hsid other haf
  rw [hlt] at hno
  cases hno

end

/-! ### Correlations -/

section

variable {correlations : Correlations} {rule : CorrelationRule}

lemma pairCorrelation_comm (a b : String) : pairCorrelation correlations a b = pairCorrelation correlations b a := by
  have hkey : (if a ≤ b then (a, b) else (b, a)) = if b ≤ a then (b, a) else (a, b) := by
    rcases eq_or_ne a b with rfl | hne
    · rfl
    · rcases le_total a b with h | h
      · rw [if_pos h, if_neg fun h' => hne (le_antisymm h h')]
      · rw [if_pos h, if_neg fun h' => hne (le_antisymm h' h)]
  unfold pairCorrelation
  rw [hkey]

lemma exceeds_comm (a b : String) : exceeds correlations rule a b = exceeds correlations rule b a := by
  unfold exceeds
  rw [pairCorrelation_comm]

lemma foldl_correlationStep (candidates : List String)
    (state : List String × Dict String (List (String × Double))) :
    (candidates.foldl (correlationStep correlations rule) state).1 =
      Greedy.keep (exceeds correlations rule) state.1 candidates := by
  induction candidates generalizing state with
  | nil => rfl
  | cons sid candidates ih =>
    rw [List.foldl_cons, ih, Greedy.keep]
    unfold correlationStep
    by_cases hany : state.1.any (exceeds correlations rule sid)
    · have hne : (state.1.filter (exceeds correlations rule sid)).map
          (fun other => (other, pairCorrelation correlations sid other)) ≠ [] := by
        obtain ⟨other, hother, hex⟩ := List.any_eq_true.mp hany
        simp only [ne_eq, List.map_eq_nil_iff, List.filter_eq_nil_iff, not_forall, not_not]
        exact ⟨other, hother, hex⟩
      rw [if_pos hany]
      rw [if_pos hne]
    · have hnil : (state.1.filter (exceeds correlations rule sid)).map
          (fun other => (other, pairCorrelation correlations sid other)) = [] := by
        rw [List.map_eq_nil_iff, List.filter_eq_nil_iff]
        exact fun other hother hex => hany (List.any_eq_true.mpr ⟨other, hother, hex⟩)
      rw [if_neg hany]
      rw [if_neg (not_not.mpr hnil)]

def GivenMap (correlations : Option Correlations) (map : Correlations) : Prop :=
  correlations = some map ∧ map.entries ≠ []

lemma applyCorrelation_eq {given : Option Correlations} (h : GivenMap given correlations) (candidates : List String) :
    (applyCorrelation given candidates rule).1 = Greedy.keep (exceeds correlations rule) [] candidates := by
  unfold applyCorrelation
  rw [h.1]
  dsimp only
  rw [if_neg h.2, foldl_correlationStep]

lemma applyCorrelation_sublist (given : Option Correlations) (candidates : List String) :
    (applyCorrelation given candidates rule).1.Sublist candidates := by
  unfold applyCorrelation
  cases given with
  | none => exact .refl _
  | some map =>
    dsimp only
    split
    · exact .refl _
    · rw [foldl_correlationStep]
      exact Greedy.keep_sublist candidates

end

/-! ### The whole selection -/

section

variable (env : Env) (policy : Policy) (r : Request)

def resolvedPolicy : Policy := (materializePolicy env policy r.stage r.profile).1

def FiniteMetrics (metrics : Dict String (List (String × Payload))) : Prop :=
  ∀ sid values, metrics.get? sid = some values → ∀ path x, At (.mapping values) path x → x.IsFinite

def PassesThresholds (sid : String) : Prop :=
  ∃ values, (normalizeMetrics r.metrics).get? sid = some values ∧
    ∀ rule ∈ (resolvedPolicy env policy r).selection.thresholds.values,
      Meets values (resolvedPolicy env policy r).validation.onMissingMetric rule

/-- The specification of the selection. The steps it speaks of are those of the pipeline: what `top_k` has
left is `topkSelected`, and of that the correlations have left `uncorrelated`. -/
structure MeetsSpec (selected : List String) : Prop where
  nodup : selected.Nodup
  thresholds : ∀ sid ∈ selected, PassesThresholds env policy r sid
  topk : ∀ rule ∈ (resolvedPolicy env policy r).selection.topK, selected.length ≤ rule.k ∧
    ∀ sid ∈ selected, ∀ other, PassesThresholds env policy r other →
      Double.lt (score (normalizeMetrics r.metrics) rule sid) (score (normalizeMetrics r.metrics) rule other) = true →
        other ∈ (selectionOf env policy r).topkSelected
  correlation : ∀ rule ∈ (resolvedPolicy env policy r).selection.correlation, ∀ map, GivenMap r.correlations map →
    (∀ a ∈ selected, ∀ b ∈ selected, a ≠ b → exceeds map rule a b = false) ∧
    ∀ before sid after, (selectionOf env policy r).topkSelected = before ++ sid :: after →
      sid ∉ (selectionOf env policy r).uncorrelated →
        ∃ other ∈ before, other ∈ (selectionOf env policy r).uncorrelated ∧ exceeds map rule sid other = true
  uncut : ((resolvedPolicy env policy r).selection.correlation = none ∨ ∀ map, ¬ GivenMap r.correlations map) →
    (selectionOf env policy r).uncorrelated = (selectionOf env policy r).topkSelected
  hysteresis : ∀ rule ∈ (resolvedPolicy env policy r).selection.hysteresis, ∀ sid ∈ selected, ∃ value,
    metricOf (normalizeMetrics r.metrics) rule.metric sid = some value ∧
      Double.le (if sid ∈ r.prevActive then rule.exit else rule.enter) value = true

end

variable {env : Env} {policy : Policy} {r : Request}

lemma mem_passed_iff : sid ∈ (selectionOf env policy r).passed ↔ PassesThresholds env policy r sid := by
  refine mem_passed.trans (exists_congr fun values => and_congr_right fun _ => ?_)
  rw [passes_iff]
  rfl

lemma selected_sublist : (selectionOf env policy r).selectedIds.Sublist (selectionOf env policy r).uncorrelated := by
  show (hysteresisStep _ _ _ _).1.Sublist _
  cases (materializePolicy env policy r.stage r.profile).1.selection.hysteresis with
  | none => exact .refl _
  | some rule => exact List.filter_sublist

lemma uncorrelated_sublist :
    (selectionOf env policy r).uncorrelated.Sublist (selectionOf env policy r).topkSelected := by
  show (correlationsStep _ _ _).1.Sublist _
  cases (materializePolicy env policy r.stage r.profile).1.selection.correlation with
  | none => exact .refl _
  | some rule => exact applyCorrelation_sublist _ _

lemma topkSelected_nodup : (selectionOf env policy r).topkSelected.Nodup := by
  show (topkStep _ _ _ _).1.Nodup
  have hn := nodup_passed (normalizeMetrics r.metrics)
    (materializePolicy env policy r.stage r.profile).1.selection.thresholds
    (materializePolicy env policy r.stage r.profile).1.validation.onMissingMetric
  cases (materializePolicy env policy r.stage r.profile).1.selection.topK with
  | none => exact hn
  | some rule => exact applyTopk_nodup hn

lemma topkSelected_subset (h : sid ∈ (selectionOf env policy r).topkSelected) :
    PassesThresholds env policy r sid := by
  rw [← mem_passed_iff]
  have h : sid ∈ (topkStep env.sorter (normalizeMetrics r.metrics)
    (materializePolicy env policy r.stage r.profile).1.selection.topK (selectionOf env policy r).passed).1 := h
  cases htop : (materializePolicy env policy r.stage r.profile).1.selection.topK with
  | none =>
    rw [htop] at h
    exact h
  | some rule =>
    rw [htop] at h
    exact applyTopk_subset h

lemma at_of_get?_flattenMetrics {values : List (String × Payload)} {name : String} {x : Double}
    (h : (flattenMetrics values).get? name = some x) : ∃ path, At (.mapping values) path x := by
  rw [get?_flattenMetrics] at h
  obtain ⟨⟨path, y⟩, hf, rfl⟩ := Option.map_eq_some_iff.mp h
  exact ⟨path, at_iff_mem.mpr (List.mem_of_find?_eq_some hf)⟩

lemma score_ne_nan {metrics : Dict String (List (String × Payload))} (h : FiniteMetrics metrics) (rule : TopKRule)
    (sid : String) : score (normalizeMetrics metrics) rule sid ≠ .nan := by
  unfold score
  cases hm : metricOf (normalizeMetrics metrics) rule.metric sid with
  | none => exact Double.noConfusion
  | some x =>
    unfold metricOf normalizeMetrics at hm
    rw [Dict.get?_mapValues, Option.bind_eq_some_iff] at hm
    obtain ⟨flat, hfl, hget⟩ := hm
    obtain ⟨values, hv, rfl⟩ := Option.map_eq_some_iff.mp hfl
    obtain ⟨path, hat⟩ := at_of_get?_flattenMetrics hget
    have hf := h sid values hv path x hat
    rintro rfl
    exact hf

/-- **The selection meets its specification**, for finite metrics. -/
theorem evaluatePolicy_meetsSpec (env : Env) (policy : Policy) (r : Request) (hfinite : FiniteMetrics r.metrics) :
    MeetsSpec env policy r (evaluatePolicy env policy r).selectedIds where
  nodup := (selected_sublist.trans uncorrelated_sublist).nodup topkSelected_nodup
  thresholds sid hsid :=
    topkSelected_subset ((selected_sublist.trans uncorrelated_sublist).subset hsid)
  topk rule hrule := by
    have htop : (selectionOf env policy r).topkSelected =
        (applyTopk env.sorter (normalizeMetrics r.metrics) (selectionOf env policy r).passed rule).1 := by
      show (topkStep _ _ (resolvedPolicy env policy r).selection.topK _).1 = _
      rw [Option.mem_def.mp hrule]
      rfl
    refine ⟨?_, ?_⟩
    · refine (selected_sublist.trans uncorrelated_sublist).length_le.trans ?_
      rw [htop]
      exact applyTopk_length
    · intro sid hsid other hother hlt
      have hmem := (selected_sublist.trans uncorrelated_sublist).subset hsid
      rw [htop] at hmem ⊢
      exact applyTopk_best (fun sid _ => score_ne_nan hfinite rule sid) hmem (mem_passed_iff.mpr hother) hlt
  correlation rule hrule map hmap := by
    have hkeep : (selectionOf env policy r).uncorrelated =
        Greedy.keep (exceeds map rule) [] (selectionOf env policy r).topkSelected := by
      show (correlationsStep r.correlations (resolvedPolicy env policy r).selection.correlation _).1 = _
      rw [Option.mem_def.mp hrule]
      exact applyCorrelation_eq hmap _
    refine ⟨?_, ?_⟩
    · intro a ha b hb hne
      have hpair : (Greedy.keep (exceeds map rule) [] (selectionOf env policy r).topkSelected).Pairwise
          fun y x => exceeds map rule x y = false := Greedy.pairwise_keep _ List.Pairwise.nil
      rw [← hkeep] at hpair
      have hsymm : Std.Symm fun y x => exceeds map rule x y = false := ⟨fun y x h => by rwa [exceeds_comm]⟩
      rw [exceeds_comm]
      exact hpair.forall (selected_sublist.subset ha) (selected_sublist.subset hb) hne
    · intro before sid after hsplit hcut
      have hnodup := @topkSelected_nodup env policy r
      rw [hsplit] at hnodup
      rw [hkeep, hsplit, Greedy.mem_keep_iff hnodup] at hcut
      push Not at hcut
      obtain ⟨other, hother, hexceeds⟩ := hcut
      refine ⟨other, (Greedy.keep_sublist before).subset hother, ?_, by simpa using hexceeds⟩
      rw [hkeep, hsplit, Greedy.keep_append]
      obtain ⟨new, hnew, -⟩ := @Greedy.keep_eq_append _ (exceeds map rule) (Greedy.keep (exceeds map rule) [] before)
        (sid :: after)
      rw [hnew]
      exact List.mem_append_left _ hother
  uncut h := by
    show (correlationsStep r.correlations (resolvedPolicy env policy r).selection.correlation _).1 = _
    rcases h with h | h
    · rw [h]
      rfl
    · unfold correlationsStep applyCorrelation
      cases (resolvedPolicy env policy r).selection.correlation with
      | none => rfl
      | some rule =>
        cases hgiven : r.correlations with
        | none => rfl
        | some map =>
          have hnil : map.entries = [] := by
            by_contra hne
            exact h map ⟨hgiven, hne⟩
          dsimp only
          rw [if_pos hnil]
          rfl
  hysteresis rule hrule sid hsid := by
    have hsid : sid ∈ (hysteresisStep (normalizeMetrics r.metrics) r.prevActive
      (resolvedPolicy env policy r).selection.hysteresis (selectionOf env policy r).uncorrelated).1 := hsid
    rw [Option.mem_def.mp hrule] at hsid
    obtain ⟨-, hstays⟩ := List.mem_filter.mp hsid
    obtain ⟨value, hvalue, houtcome⟩ := Option.map_eq_some_iff.mp (of_decide_eq_true hstays)
    refine ⟨value, hvalue, ?_⟩
    have hbound : (hysteresisBound r.prevActive rule sid).1 = if sid ∈ r.prevActive then rule.exit else rule.enter := by
      unfold hysteresisBound
      split <;> rfl
    rw [← hbound]
    by_contra hno
    dsimp only at houtcome
    rw [if_neg hno] at houtcome
    cases houtcome

def fourStrategies : Request where
  metrics := Dict.ofList [
    ("s1", [("sharpe", .number (.finite 2)), ("win_rate", .number (.finite 1))]),
    ("s2", [("sharpe", .number (.finite 3)), ("win_rate", .number (.finite 1))]),
    ("s3", [("sharpe", .number (.finite 0)), ("win_rate", .number (.finite 1))]),
    ("s4", [("sharpe", .number (.finite 1)), ("win_rate", .number (.finite 0))])]
  correlations := some (Dict.ofList [(("s1", "s2"), .finite 1), (("s2", "s4"), .finite 0)])

def fourSteps : Policy where
  selection :=
    { thresholds := Dict.ofList [("sharpe", { metric := "sharpe", min := some (.finite 1) })]
      topK := some ⟨"sharpe", 3, by decide⟩
      correlation := some ⟨1 / 2, by norm_num, by norm_num⟩
      hysteresis := some ⟨"win_rate", .finite 1, .finite 0⟩ }

lemma fourStrategies_finite : FiniteMetrics fourStrategies.metrics := by
  intro sid values hget path x hat
  have hmem := Dict.mem_entries_ofList (Dict.get?_eq_some.mp hget)
  cases path with
  | nil => exact hat.elim
  | cons k path =>
    obtain ⟨v, hv, hat⟩ := hat
    simp only [List.mem_cons, Prod.mk.injEq, List.not_mem_nil, or_false] at hmem
    rcases hmem with ⟨-, rfl⟩ | ⟨-, rfl⟩ | ⟨-, rfl⟩ | ⟨-, rfl⟩
    all_goals
      simp only [List.mem_cons, Prod.mk.injEq, List.not_mem_nil, or_false] at hv
      rcases hv with ⟨-, rfl⟩ | ⟨-, rfl⟩
      all_goals
        cases path with
        | nil =>
          obtain rfl : _ = x := hat
          trivial
        | cons k path => exact hat.elim

/-- Of the four, only the best is selected. -/
theorem fourStrategies_meetSpec : (evaluatePolicy plainEnv fourSteps fourStrategies).selectedIds = ["s2"] ∧
      MeetsSpec plainEnv fourSteps fourStrategies (evaluatePolicy plainEnv fourSteps fourStrategies).selectedIds :=
  ⟨by decide +kernel, evaluatePolicy_meetsSpec plainEnv fourSteps fourStrategies fourStrategies_finite⟩

end Qmtl.WorldService.PolicyEngine

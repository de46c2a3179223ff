import Qmtl.WorldService.Policy.RuleConfigs
import Qmtl.WorldService.Policy.Selection

/-! Whether the hash of the ruleset identifies the rules. Two policies of one stage with one profile and one hash
select the same strategies. -/

namespace Qmtl.WorldService.PolicyEngine

open Lib

section

variable {P Q : Policy} (h : SameHashed P Q)
include h

lemma mem_thresholds_iff (rule : ThresholdRule) :
    rule ∈ P.selection.thresholds.values ↔ rule ∈ Q.selection.thresholds.values := by
  have hv : ∀ d : Dict String ThresholdRule, rule ∈ d.values ↔ ∃ key, d.get? key = some rule := by
    intro d
    unfold Dict.values
    rw [List.mem_map]
    constructor
    · rintro ⟨e, he, rfl⟩
      exact ⟨e.1, Dict.get?_eq_some.mpr he⟩
    · rintro ⟨key, hget⟩
      exact ⟨(key, rule), Dict.get?_eq_some.mp hget, rfl⟩
  rw [hv, hv]
  simp [h.thresholds]

lemma passed_eq (metrics : Dict String Metrics) :
    (evaluateThresholds metrics P.selection.thresholds P.validation.onMissingMetric).1 =
      (evaluateThresholds metrics Q.selection.thresholds Q.validation.onMissingMetric).1 := by
  unfold evaluateThresholds
  have hp : ∀ e : String × Metrics, passes e.2 P.selection.thresholds.values P.validation.onMissingMetric =
      passes e.2 Q.selection.thresholds.values Q.validation.onMissingMetric := by
    intro e
    rw [Bool.eq_iff_iff, passes_iff, passes_iff, h.validation]
    exact forall_congr' fun rule => imp_congr_left (mem_thresholds_iff h rule)
  simp [hp]

/-- **The selection is the same**, but for the order in which failures are recorded. -/
theorem preparePolicySelection_eq (s : Sorter) (metrics : Dict String Metrics) (prevActive : List String)
    (correlations : Option Correlations) : preparePolicySelection s metrics P prevActive correlations =
      { preparePolicySelection s metrics Q prevActive correlations with
        thresholdFailures := (preparePolicySelection s metrics P prevActive correlations).thresholdFailures } := by
  unfold preparePolicySelection
  dsimp only
  rw [passed_eq h, h.topK, h.correlation, h.hysteresis]

end

def Metadata.shown (m : Metadata) (severity owner : String) : String × String :=
  (m.severity.getD severity, m.owner.getD owner)

/-- Two policies agree in what their evaluation reads and their hash leaves out. `P` and `Q` are the
materialized policies, `c` and `c'` the profiles that were chosen. -/
structure SameUnhashed (env : Env) (stage : Option String) (p q P Q : Policy) (c c' : Option ValidationProfile) :
    Prop where
  sampleMetadata : (RuleProfile.of c).sample.shown "soft" "quant" = (RuleProfile.of c').sample.shown "soft" "quant"
  performanceMetadata : (RuleProfile.of c).performance.shown "blocking" "quant" =
    (RuleProfile.of c').performance.shown "blocking" "quant"
  riskOwner : (RuleProfile.of c).risk.owner.getD "risk" = (RuleProfile.of c').risk.owner.getD "risk"
  riskSeverity : ¬ (P.selection.correlation = none ∧ P.selection.hysteresis = none) →
    (RuleProfile.of c).risk.severity.getD "blocking" = (RuleProfile.of c').risk.severity.getD "blocking"
  robustnessMetadata : (RuleProfile.of c).robustness.shown "soft" "quant" =
    (RuleProfile.of c').robustness.shown "soft" "quant"
  dsr : SameBound Undercut (RuleProfile.of c).dsrMin (RuleProfile.of c').dsrMin
  gap : SameBound (Outgrown env) (RuleProfile.of c).cvSharpeGapMax (RuleProfile.of c').cvSharpeGapMax
  benchmark : Option.Rel SameBenchmark p.benchmark q.benchmark
  paperShadow : Option.Rel (fun a b => a.shown = b.shown)
    (p.paperShadowConsistency.filter fun cfg => paperShadowAllowedForStage env cfg stage)
    (q.paperShadowConsistency.filter fun cfg => paperShadowAllowedForStage env cfg stage)
  scenarios : Option.Rel (fun a b => a.given.keys = b.given.keys) p.stress q.stress
  currency : (groupThresholds env.lower P.selection.thresholds .dataCurrency).map (·.metric) =
    (groupThresholds env.lower Q.selection.thresholds .dataCurrency).map (·.metric)
  sampleFailures : ∀ metrics, sampleThresholdFailures (sampleMetricsView metrics)
      (groupThresholds env.lower P.selection.thresholds .sample) =
    sampleThresholdFailures (sampleMetricsView metrics) (groupThresholds env.lower Q.selection.thresholds .sample)
  failures : ∀ metrics, SameRecorded
    (strategyFailures metrics P.selection.thresholds.values P.validation.onMissingMetric)
    (strategyFailures metrics Q.selection.thresholds.values Q.validation.onMissingMetric)

section

variable {env : Env} {stage : Option String} {p q P Q : Policy} {c c' : Option ValidationProfile}

lemma ruleResults_eq (hh : SameHashed P Q) (hu : SameUnhashed env stage p q P Q c c')
    {metrics : Dict String Metrics} {sid : String} {vals : Metrics} (hvl : metrics.get? sid = some vals)
    (prevActive : List String) (correlations : Option Correlations) :
    ruleResults env P (preparePolicySelection env.sorter metrics P prevActive correlations) c prevActive sid vals =
      ruleResults env Q (preparePolicySelection env.sorter metrics Q prevActive correlations) c' prevActive sid vals := by
  have hs := preparePolicySelection_eq hh env.sorter metrics prevActive correlations
  have hr : SameRecorded
      (((preparePolicySelection env.sorter metrics P prevActive correlations).thresholdFailures.get? sid).getD [])
      (((preparePolicySelection env.sorter metrics Q prevActive correlations).thresholdFailures.get? sid).getD []) := by
    have h := hu.failures vals
    rwa [← get?_thresholdFailures hvl, ← get?_thresholdFailures hvl] at h
  generalize preparePolicySelection env.sorter metrics P prevActive correlations = s at hs hr ⊢
  generalize preparePolicySelection env.sorter metrics Q prevActive correlations = t at hs hr ⊢
  obtain ⟨htop, hrn, hv, hb⟩ : s.topkSelected = t.topkSelected ∧ s.topkRanks = t.topkRanks ∧
      s.correlationViolations = t.correlationViolations ∧ s.hysteresisBlocked = t.hysteresisBlocked := by
    rw [hs]
    exact ⟨rfl, rfl, rfl, rfl⟩
  obtain ⟨hps, hpo⟩ := Prod.mk.inj hu.performanceMetadata
  have hsm := sampleRule_eq_iff.mpr ⟨Prod.mk.inj hu.sampleMetadata, hu.sampleFailures⟩ vals
  have hrb := (@robustnessRule_eq_iff env).mpr
    ⟨Prod.mk.inj hu.robustnessMetadata, hu.dsr, hu.gap⟩ vals
  unfold ruleResults
  dsimp only
  rw [hu.currency, hsm, performanceRule_congr hr htop hrn, hps, hpo,
    riskConstraintRule_congr hv hb hu.riskSeverity, hu.riskOwner, hrb, hh.validation, hh.topK, hh.correlation, hh.hysteresis]

lemma section_eq {α : Type} {R : α → α → Prop} {f : α → RuleResult} {a b : Option α} {key : String}
    (h : Option.Rel R a b) (hf : ∀ x y, R x y → f x = f y) :
    (a.map fun cfg => (key, f cfg)) = b.map fun cfg => (key, f cfg) := by
  cases h with
  | some hR => rw [Option.map_some, Option.map_some, hf _ _ hR]
  | none => rfl

lemma rel_combine {α : Type} {R S T : α → α → Prop} {a b : Option α} (hR : Option.Rel R a b) (hS : Option.Rel S a b)
    (hT : ∀ x y, R x y → S x y → T x y) : Option.Rel T a b := by
  cases hR with
  | some hR =>
    cases hS with
    | some hS => exact .some (hT _ _ hR hS)
  | none => exact .none

lemma layerResults_eq (hc : p.cohort = q.cohort) (hp : p.portfolio = q.portfolio)
    (hl : p.liveMonitoring = q.liveMonitoring) (hst : Option.Rel SameStress p.stress q.stress)
    (hu : SameUnhashed env stage p q P Q c c') (metrics : Dict String Metrics) (sid : String) (vals : Metrics) :
    layerResults env metrics p stage sid vals = layerResults env metrics q stage sid vals := by
  have hs := rel_combine hst hu.scenarios fun a b hsm hkeys =>
    (@evaluateStressRules_eq_iff stage a b hsm).mpr hkeys
  unfold layerResults
  rw [hc, hp, hl, section_eq hu.benchmark fun a b h => evaluateBenchmarkRules_eq_iff.mpr h vals,
    section_eq hs fun a b h => h vals,
    section_eq hu.paperShadow fun a b h => evaluatePaperShadowStrategy_eq_iff.mpr h vals]

lemma lookup_section {α : Type} (o : Option α) (key name : String) (f : α → RuleResult) :
    ((o.map fun cfg => (key, f cfg)).toList).lookup name = if name = key then o.map f else none := by
  cases o with
  | none => simp
  | some cfg =>
    rw [Option.map_some, Option.toList_some, Dict.lookup_cons]
    rfl

lemma lookup_layerResults (metrics : Dict String Metrics) (policy : Policy) (sid : String) (vals : Metrics) :
    (layerResults env metrics policy stage sid vals).lookup "benchmark" =
        (policy.benchmark.map fun cfg => evaluateBenchmarkRules cfg stage vals) ∧
      (layerResults env metrics policy stage sid vals).lookup "stress" =
        (policy.stress.map fun cfg => evaluateStressRules cfg stage vals) ∧
      (layerResults env metrics policy stage sid vals).lookup "paper_shadow_consistency" =
        (policy.paperShadowConsistency.filter fun cfg => paperShadowAllowedForStage env cfg stage).map fun cfg =>
          evaluatePaperShadowStrategy cfg stage vals := by
  unfold layerResults
  simp only [List.lookup_append, lookup_section, String.reduceEq, if_false, if_true, Option.none_or, Option.or_none,
    and_self]

def resultsOf (env : Env) (P : Policy) (c : Option ValidationProfile) (vals : Metrics) : Dict String RuleResult :=
  ruleResults env P (preparePolicySelection env.sorter (Dict.ofList [("s1", vals)]) P [] none) c [] "s1" vals

lemma rel_of_map {α β : Type} {R : α → α → Prop} {f : β → α → RuleResult} {a b : Option α} (x : β)
    (h : ∀ x, a.map (f x) = b.map (f x)) (hR : ∀ s t, (∀ x, f x s = f x t) → R s t) : Option.Rel R a b := by
  cases a with
  | none =>
    cases b with
    | none => exact .none
    | some t => cases h x
  | some s =>
    cases b with
    | none => cases h x
    | some t => exact .some (hR s t fun x => Option.some.inj (h x))

lemma sameUnhashed_of_results (hh : SameHashed P Q) (hs : Option.Rel SameStress p.stress q.stress)
    (hr : ∀ name ∉ layerNames, ∀ vals, (resultsOf env P c vals).get? name = (resultsOf env Q c' vals).get? name)
    (hl : ∀ name ∈ layerNames, ∀ vals, (layerResults env (Dict.ofList [("s1", vals)]) p stage "s1" vals).lookup name =
      (layerResults env (Dict.ofList [("s1", vals)]) q stage "s1" vals).lookup name) :
    SameUnhashed env stage p q P Q c c' := by
  have hp := fun vals => Option.some.inj (hr "performance" (by decide) vals)
  have hri := Option.some.inj (hr "risk_constraint" (by decide) .empty)
  obtain ⟨hsm, hsf⟩ :=
    sampleRule_eq_iff.mp fun vals => Option.some.inj (hr "sample" (by decide) vals)
  obtain ⟨hrm, hdsr, hgap⟩ :=
    robustnessRule_eq_iff.mp fun vals => Option.some.inj (hr "robustness" (by decide) vals)
  have hps := congrArg RuleResult.severity (hp .empty)
  have hpo := congrArg RuleResult.owner (hp .empty)
  have hrs := congrArg RuleResult.severity hri
  have hro := congrArg RuleResult.owner hri
  rw [performanceRule_metadata.1, performanceRule_metadata.1] at hps
  rw [performanceRule_metadata.2, performanceRule_metadata.2] at hpo
  rw [riskConstraintRule_metadata.1, riskConstraintRule_metadata.1] at hrs
  rw [riskConstraintRule_metadata.2, riskConstraintRule_metadata.2] at hro
  exact
    { sampleMetadata := Prod.ext hsm.1 hsm.2
      performanceMetadata := Prod.ext hps hpo
      riskOwner := hro
      riskSeverity := by
        intro hc
        rwa [← hh.correlation, ← hh.hysteresis, if_neg hc, if_neg hc] at hrs
      robustnessMetadata := Prod.ext hrm.1 hrm.2
      dsr := hdsr
      gap := hgap
      benchmark := by
        refine rel_of_map .empty (f := fun vals cfg => evaluateBenchmarkRules cfg stage vals) (fun vals => ?_)
          fun a b h => evaluateBenchmarkRules_eq_iff.mp h
        have h := hl "benchmark" (by decide) vals
        rwa [(lookup_layerResults _ _ _ _).1, (lookup_layerResults _ _ _ _).1] at h
      paperShadow := by
        refine rel_of_map .empty (f := fun vals cfg => evaluatePaperShadowStrategy cfg stage vals) (fun vals => ?_)
          fun a b h => evaluatePaperShadowStrategy_eq_iff.mp h
        have h := hl "paper_shadow_consistency" (by decide) vals
        rwa [(lookup_layerResults _ _ _ _).2.2, (lookup_layerResults _ _ _ _).2.2] at h
      scenarios := by
        have hsh : Option.Rel (fun a b => ∀ vals, evaluateStressRules a stage vals = evaluateStressRules b stage vals)
            p.stress q.stress := by
          refine rel_of_map .empty (f := fun vals cfg => evaluateStressRules cfg stage vals) (fun vals => ?_)
            fun a b h => h
          have h := hl "stress" (by decide) vals
          rwa [(lookup_layerResults _ _ _ _).2.1, (lookup_layerResults _ _ _ _).2.1] at h
        exact rel_combine hs hsh fun a b hsa h => (evaluateStressRules_eq_iff hsa).mp h
      currency :=
        required_of_dataCurrencyRule fun vals => Option.some.inj (hr "data_currency" (by decide) vals)
      sampleFailures := hsf
      failures := by
        intro vals
        have h := sameRecorded_of_performanceRule (hp vals)
        have hv : (Dict.ofList [("s1", vals)]).get? "s1" = some vals := rfl
        have hP : ((preparePolicySelection env.sorter (Dict.ofList [("s1", vals)]) P [] none).thresholdFailures.get?
            "s1").getD [] = _ := get?_thresholdFailures hv
        have hQ : ((preparePolicySelection env.sorter (Dict.ofList [("s1", vals)]) Q [] none).thresholdFailures.get?
            "s1").getD [] = _ := get?_thresholdFailures hv
        rwa [hP, hQ] at h }

end

/-! ### The claim of the hash -/

def evaluation (env : Env) (policy : Policy) (stage profile : Option String)
    (metrics : Dict String (List (String × Payload))) (prevActive : List String) (correlations : Option Correlations) :
    PolicyEvaluationResult :=
  evaluatePolicy env policy
    { metrics := metrics, prevActive := prevActive, correlations := correlations, stage := stage, profile := profile }

/-- Where the profile and the hash that are reported are the same, so are the selection and the results. -/
def Identified (env : Env) (p q : Policy) (stage profile profile' : Option String) : Prop :=
  ∀ metrics prevActive correlations,
    (evaluation env p stage profile metrics prevActive correlations).profile =
      (evaluation env q stage profile' metrics prevActive correlations).profile →
    (evaluation env p stage profile metrics prevActive correlations).rulesetHash =
      (evaluation env q stage profile' metrics prevActive correlations).rulesetHash →
    (evaluation env p stage profile metrics prevActive correlations).selectedIds =
        (evaluation env q stage profile' metrics prevActive correlations).selectedIds ∧
      (evaluation env p stage profile metrics prevActive correlations).ruleResults =
        (evaluation env q stage profile' metrics prevActive correlations).ruleResults

def SameReport (env : Env) (p q : Policy) (stage profile profile' : Option String) : Prop :=
  (materializePolicy env p stage profile).2.1 = (materializePolicy env q stage profile').2.1 ∧
    rulesetHash env (materializePolicy env p stage profile).1 (materializePolicy env p stage profile).2.1 =
      rulesetHash env (materializePolicy env q stage profile').1 (materializePolicy env q stage profile').2.1

lemma visitFields_numbers (l : List (String × Double)) (flat : Metrics)
    (h : (flat.keys ++ l.map Prod.fst).Nodup) :
    visitFields [] (l.map fun e => (e.1, .number e.2)) flat = flat.update l := by
  induction l generalizing flat with
  | nil => rfl
  | cons e l ih =>
    obtain ⟨k, x⟩ := e
    have hn : k ∉ flat.keys := fun hmem =>
      (List.nodup_append.mp h).2.2 k hmem k (.head _) rfl
    have hv : visit [k] (.number x) flat = flat.set k x := by
      show setDefault (setDefault flat k x) k x = _
      unfold setDefault
      rw [Dict.get?_eq_none.mpr hn]
      simp
    have hkeys : (flat.set k x).keys = flat.keys ++ [k] := by
      unfold Dict.keys
      rw [Dict.entries_set_of_notMem x hn, List.map_append]
      rfl
    rw [List.map_cons, visitFields, List.nil_append, hv, ih]
    · rfl
    · rw [hkeys, List.append_assoc]
      exact h

lemma exists_payload (vals : Metrics) : ∃ metrics, normalizeMetrics metrics = Dict.ofList [("s1", vals)] := by
  refine ⟨Dict.ofList [("s1", vals.entries.map fun e => (e.1, .number e.2))], ?_⟩
  have hf : flattenMetrics (vals.entries.map fun e => (e.1, .number e.2)) = vals := by
    unfold flattenMetrics
    rw [visitFields_numbers vals.entries .empty (by simpa [Dict.keys, Dict.empty] using vals.nodup), Dict.update_empty]
  refine Dict.ext ?_
  show [("s1", flattenMetrics _)] = [("s1", vals)]
  rw [hf]

lemma get?_ruleResults_of_layer {env : Env} {P : Policy} {selection : Preparation} {c : Option ValidationProfile}
    {prevActive : List String} {sid name : String} {vals : Metrics} (h : name ∈ layerNames) :
    (ruleResults env P selection c prevActive sid vals).get? name = none := by
  simp only [layerNames, List.mem_cons, List.not_mem_nil, or_false] at h
  rcases h with rfl | rfl | rfl | rfl | rfl | rfl
  all_goals rfl

/-- **The hash identifies the rules** exactly where the policies also agree in what it leaves out. -/
theorem identified_iff (env : Env) (hblake : Function.Injective env.blake3) (hrepr : ReprReadsBack env) (p q : Policy)
    (stage profile profile' : Option String) : Identified env p q stage profile profile' ↔
      (SameReport env p q stage profile profile' → SameUnhashed env stage p q
        (materializePolicy env p stage profile).1 (materializePolicy env q stage profile').1
        (materializePolicy env p stage profile).2.2 (materializePolicy env q stage profile').2.2) := by
  constructor
  · intro h hreport
    have hhashed := sameHashed_of_hash hblake hrepr hreport.2
    -- one strategy, with any metrics
    have hstrategy : ∀ vals, ∃ metrics, normalizeMetrics metrics = Dict.ofList [("s1", vals)] ∧
        strategyResults env p { metrics := metrics, stage := stage, profile := profile } "s1" vals =
          strategyResults env q { metrics := metrics, stage := stage, profile := profile' } "s1" vals := by
      intro vals
      obtain ⟨metrics, hmetrics⟩ := exists_payload vals
      have hget := congrArg (fun d => d.get? "s1") (h metrics [] none hreport.1 hreport.2).2
      have hvals : (normalizeMetrics metrics).get? "s1" = some vals := by
        rw [hmetrics]
        rfl
      simp only [evaluation, get?_ruleResults, hvals, Option.map_some, Option.some_inj] at hget
      exact ⟨metrics, hmetrics, hget⟩
    refine sameUnhashed_of_results hhashed hhashed.stress ?_ ?_
    · intro name hname vals
      obtain ⟨metrics, hmetrics, hresults⟩ := hstrategy vals
      have hget := congrArg (fun d => d.get? name) hresults
      simp only [get?_strategyResults hname, selectionOf, hmetrics] at hget
      exact hget
    · intro name hname vals
      obtain ⟨metrics, hmetrics, hresults⟩ := hstrategy vals
      have hget := congrArg (fun d => d.get? name) hresults
      simp only [get?_strategyResults_eq, get?_ruleResults_of_layer hname, hmetrics] at hget
      simpa using hget
  · intro h metrics prevActive correlations hprofile hhash
    have hreport : SameReport env p q stage profile profile' := ⟨hprofile, hhash⟩
    have hhashed := sameHashed_of_hash hblake hrepr hreport.2
    have hunhashed := h hreport
    constructor
    · show (preparePolicySelection _ _ _ _ _).selectedIds = (preparePolicySelection _ _ _ _ _).selectedIds
      rw [preparePolicySelection_eq hhashed]
    · have hentries : (normalizeMetrics metrics).entries.map (fun e => (e.1, strategyResults env p
            { metrics := metrics, prevActive := prevActive, correlations := correlations, stage := stage,
              profile := profile } e.1 e.2)) =
          (normalizeMetrics metrics).entries.map fun e => (e.1, strategyResults env q
            { metrics := metrics, prevActive := prevActive, correlations := correlations, stage := stage,
              profile := profile' } e.1 e.2) := by
        refine List.map_congr_left fun e he => ?_
        have hrules := ruleResults_eq hhashed hunhashed (Dict.get?_eq_some.mpr he) prevActive correlations
        have hlayers := @layerResults_eq env stage p q _ _ _ _ hhashed.cohort hhashed.portfolio hhashed.liveMonitoring
          hhashed.stress hunhashed (normalizeMetrics metrics) e.1 e.2
        refine Prod.ext rfl ?_
        show Dict.update (ruleResults _ _ _ _ _ _ _) _ = Dict.update (ruleResults _ _ _ _ _ _ _) _
        rw [hlayers]
        exact congrArg (fun d => Dict.update d _) hrules
      exact congrArg Dict.ofList hentries

/-! ### Policies with one hash -/

def fractionText (q : ℚ) : String :=
  toString q.num ++ (if q.den = 1 then ".0" else "e" ++ q.den.repr)

lemma fractionText_chars {q : ℚ} {c : Char} (h : c ∈ (fractionText q).toList) :
    c.isDigit ∨ c = '-' ∨ c = '.' ∨ c = 'e' := by
  unfold fractionText at h
  rw [String.toList_append, List.mem_append] at h
  rcases h with h | h
  · rcases toString_int_char h with h | h
    · exact .inl h
    · exact .inr (.inl h)
  · split at h
    · have h : c ∈ ['.', '0'] := h
      simp only [List.mem_cons, List.not_mem_nil, or_false] at h
      rcases h with rfl | rfl
      · exact .inr (.inr (.inl rfl))
      · exact .inl rfl
    · rw [String.toList_append, List.mem_append] at h
      rcases h with h | h
      · have h : c ∈ ['e'] := h
        exact .inr (.inr (.inr (List.mem_singleton.mp h)))
      · exact .inl (isDigit_of_mem_repr h)

lemma fractionText_injective {q q' : ℚ} (h : fractionText q = fractionText q') : q = q' := by
  have ht : ∀ q : ℚ, (fractionText q).toList.takeWhile (fun c => c.isDigit || c = '-') = (toString q.num).toList := by
    intro q
    unfold fractionText
    rw [String.toList_append, List.takeWhile_append_of_pos]
    · have hs : (if q.den = 1 then ".0" else "e" ++ q.den.repr).toList.takeWhile (fun c => c.isDigit || c = '-') = [] := by
        split
        · rfl
        · rw [String.toList_append]
          rfl
      rw [hs, List.append_nil]
    · intro c hc
      rcases toString_int_char hc with h | h
      · simp [h]
      · simp [h]
  have hnum : q.num = q'.num := toString_int_injective (String.toList_injective (by rw [← ht, h, ht]))
  have hr : (if q.den = 1 then ".0" else "e" ++ q.den.repr) = if q'.den = 1 then ".0" else "e" ++ q'.den.repr := by
    have hlist := congrArg String.toList h
    unfold fractionText at hlist
    rw [String.toList_append, String.toList_append, hnum] at hlist
    exact String.toList_injective (List.append_cancel_left hlist)
  refine Rat.ext hnum ?_
  split at hr
  · split at hr
    · rename_i h1 h2
      rw [h1, h2]
    · have hlist := congrArg String.toList hr
      rw [String.toList_append] at hlist
      exact absurd (List.cons.inj hlist).1 (by decide)
  · split at hr
    · have hlist := congrArg String.toList hr
      rw [String.toList_append] at hlist
      exact absurd (List.cons.inj hlist).1 (by decide)
    · have hlist := congrArg String.toList hr
      rw [String.toList_append, String.toList_append] at hlist
      exact repr_injective (String.toList_injective (List.append_cancel_left hlist))

def exactEnv : Env :=
  { plainEnv with
    repr := fun x => match x with
      | .finite q => fractionText q
      | _ => "inf" }

lemma exactEnv_readsBack : ReprReadsBack exactEnv where
  inj a b h := fractionText_injective h
  number a := by
    show Json.isNumText (fractionText a)
    have hh := Json.isNumText_toString a.num
    unfold Json.isNumText at hh ⊢
    rw [Bool.and_eq_true, beq_iff_eq] at hh ⊢
    refine ⟨List.all_eq_true.mpr fun c hc => ?_, ?_⟩
    · rcases fractionText_chars hc with h | rfl | rfl | rfl
      · simp [Json.isNumChar, Char.isAlphanum, h]
      · rfl
      · rfl
      · rfl
    · obtain ⟨c, hc, hk⟩ := Option.bind_eq_some_iff.mp hh.2
      unfold fractionText
      rw [String.toList_append, List.head?_append, hc]
      exact hk
  finite a h := by
    have h : fractionText a ∈ ["Infinity", "-Infinity", "NaN"] := h
    have hl : ∀ text ∈ ["Infinity", "-Infinity", "NaN"], 'I' ∈ text.toList ∨ 'N' ∈ text.toList := by decide
    rcases hl _ h with hI | hN
    · exact absurd (fractionText_chars hI) (by decide)
    · exact absurd (fractionText_chars hN) (by decide)

def withoutBenchmark : Policy := {}

def withBenchmark : Policy := { benchmark := some { minVsBenchmarkSharpe := some (.finite 1) } }

def oneStrategy : Dict String (List (String × Payload)) := Dict.ofList [("s1", [("sharpe", .number (.finite 1))])]

/-- The two are reported with one hash, and only one gives a result for the benchmark. -/
theorem benchmark_not_identified : (evaluation exactEnv withoutBenchmark none none oneStrategy [] none).profile =
        (evaluation exactEnv withBenchmark none none oneStrategy [] none).profile ∧
      (evaluation exactEnv withoutBenchmark none none oneStrategy [] none).rulesetHash =
        (evaluation exactEnv withBenchmark none none oneStrategy [] none).rulesetHash ∧
      ¬ Identified exactEnv withoutBenchmark withBenchmark none none none := by
  refine ⟨rfl, rfl, fun h => ?_⟩
  have hresults := (h oneStrategy [] none rfl rfl).2
  have hnone : ((evaluation exactEnv withoutBenchmark none none oneStrategy [] none).ruleResults.get? "s1").bind
      (fun results => (results.get? "benchmark").map (·.status)) = none := by decide +kernel
  have hsome : ((evaluation exactEnv withBenchmark none none oneStrategy [] none).ruleResults.get? "s1").bind
      (fun results => (results.get? "benchmark").map (·.status)) = some .warn := by decide +kernel
  rw [hresults, hsome] at hnone
  cases hnone

def withDefaultSeverity : Policy := { benchmark := some { severity := some "soft", minVsBenchmarkSharpe := some (.finite 1) } }

/-- Two policies that the hash identifies, although it covers neither benchmark section. -/
theorem default_severity_identified : Identified exactEnv withBenchmark withDefaultSeverity none none none :=
  (identified_iff exactEnv (fun _ _ h => h) exactEnv_readsBack withBenchmark withDefaultSeverity none none none).mpr
    fun _ =>
      { sampleMetadata := rfl
        performanceMetadata := rfl
        riskOwner := rfl
        riskSeverity := fun _ => rfl
        robustnessMetadata := rfl
        dsr := .inl rfl
        gap := .inl rfl
        benchmark := .some ⟨rfl, rfl, .inl rfl⟩
        paperShadow := .none
        scenarios := .none
        currency := rfl
        sampleFailures := fun _ => rfl
        failures := fun _ => ⟨rfl, fun _ => rfl⟩ }

end Qmtl.WorldService.PolicyEngine

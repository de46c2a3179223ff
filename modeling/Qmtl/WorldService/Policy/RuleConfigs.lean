import Qmtl.WorldService.Policy.RulesetHash

/-! What the results of a rule show of its configuration: for every rule, two configurations give the same results
for all metrics exactly when they agree in what can be seen. -/

namespace Qmtl.WorldService.PolicyEngine

open Lib

section

/-! ### Details -/

lemma Datum.ofTexts_injective {a b : List String} (h : Datum.ofTexts a = Datum.ofTexts b) : a = b :=
  List.map_injective_iff.mpr (fun _ _ => Datum.text.inj) (Datum.list.inj h)

lemma Failure.datum_injective : Function.Injective Failure.datum := by
  intro f g h
  cases f with
  | missingMetric metric mode =>
    cases g with
    | missingMetric metric' mode' =>
      cases mode <;> cases mode' <;> simp_all [Failure.datum, MissingMode.text]
    | belowMin metric' min value => simp [Failure.datum] at h
    | aboveMax metric' max value => simp [Failure.datum] at h
  | belowMin metric min value =>
    cases g with
    | missingMetric metric' mode' => simp [Failure.datum] at h
    | belowMin metric' min' value' => simpa [Failure.datum] using h
    | aboveMax metric' max value' => simp [Failure.datum] at h
  | aboveMax metric max value =>
    cases g with
    | missingMetric metric' mode' => simp [Failure.datum] at h
    | belowMin metric' min value' => simp [Failure.datum] at h
    | aboveMax metric' max' value' => simpa [Failure.datum] using h

def violations (fs : List Failure) : Option Datum := if fs = [] then none else some (.list (fs.map (·.datum)))

lemma violations_injective : Function.Injective violations := by
  intro f g h
  unfold violations at h
  split_ifs at h with hf hg
  · rw [hf, hg]
  · exact List.map_injective_iff.mpr Failure.datum_injective (Datum.list.inj (Option.some.inj h))

lemma required_of_dataCurrencyRule {required required' : List String} {mode mode' : MissingMode}
    (h : ∀ metrics, dataCurrencyRule required mode metrics = dataCurrencyRule required' mode' metrics) :
    required = required' := by
  -- without metrics, all that is required is listed as missing
  have hall : ∀ l : List String, (l.filter fun metric => ((.empty : Metrics).get? metric).isNone) = l :=
    fun l => List.filter_eq_self.mpr fun _ _ => rfl
  have hm := congrArg (fun r => r.details.get? "missing_metrics") (h .empty)
  have hm : some (Datum.ofTexts (required.filter fun metric => ((.empty : Metrics).get? metric).isNone)) =
    some (Datum.ofTexts (required'.filter fun metric => ((.empty : Metrics).get? metric).isNone)) := hm
  rw [hall, hall] at hm
  exact Datum.ofTexts_injective (Option.some.inj hm)

lemma sampleRule_metadata (thresholds : List ThresholdRule) (severity owner : String) (metrics : Metrics) :
    (sampleRule thresholds severity owner metrics).severity = severity ∧
      (sampleRule thresholds severity owner metrics).owner = owner := by
  unfold sampleRule buildSampleResult
  dsimp only
  split
  · exact ⟨rfl, rfl⟩
  · split
    · exact ⟨rfl, rfl⟩
    · exact ⟨rfl, rfl⟩

lemma sampleRule_violations (thresholds : List ThresholdRule) (severity owner : String) (metrics : Metrics) :
    (sampleRule thresholds severity owner metrics).details.get? "violations" =
      violations (sampleThresholdFailures (sampleMetricsView metrics) thresholds) := by
  unfold sampleRule buildSampleResult violations
  dsimp only
  split
  · rfl
  · next hnil =>
    rw [if_pos (not_not.mp hnil)]
    split <;> rfl

lemma sampleRule_eq_iff {thresholds thresholds' : List ThresholdRule} {severity severity' owner owner' : String} :
    (∀ metrics, sampleRule thresholds severity owner metrics = sampleRule thresholds' severity' owner' metrics) ↔
      (severity = severity' ∧ owner = owner') ∧ ∀ metrics, sampleThresholdFailures (sampleMetricsView metrics) thresholds =
        sampleThresholdFailures (sampleMetricsView metrics) thresholds' := by
  constructor
  · intro h
    refine ⟨⟨?_, ?_⟩, fun metrics => ?_⟩
    · rw [← (sampleRule_metadata thresholds severity owner .empty).1, h,
        (sampleRule_metadata thresholds' severity' owner' .empty).1]
    · rw [← (sampleRule_metadata thresholds severity owner .empty).2, h,
        (sampleRule_metadata thresholds' severity' owner' .empty).2]
    · exact violations_injective (by rw [← sampleRule_violations, h, sampleRule_violations])
  · rintro ⟨⟨rfl, rfl⟩, h⟩ metrics
    unfold sampleRule
    dsimp only
    rw [h]

/-! ### Performance -/

def SameRecorded (f g : List Failure) : Prop :=
  f.filter (·.blocking) = g.filter (·.blocking) ∧ (f.filter (·.blocking) = [] → f = g)

section

variable {env : Env} {selection selection' : Preparation} {topK topK' : Option TopKRule} {mode mode' : MissingMode}
  {severity severity' owner owner' sid : String}

lemma performanceRule_metadata :
    (performanceRule env selection topK mode severity owner sid).severity = severity ∧
      (performanceRule env selection topK mode severity owner sid).owner = owner := by
  unfold performanceRule performanceMissingResult performanceRankResult
  dsimp only
  split
  · exact ⟨rfl, rfl⟩
  · split
    · rename_i result hm
      split at hm
      · cases hm
      · cases hm
        exact ⟨rfl, rfl⟩
    · split
      · rename_i result hr
        split at hr
        · cases hr
        · split at hr
          · cases hr
          · cases hr
            exact ⟨rfl, rfl⟩
      · exact ⟨rfl, rfl⟩

lemma filter_isMissing {f : List Failure} (h : f.filter (·.blocking) = []) : f.filter (·.isMissing) = f := by
  refine List.filter_eq_self.mpr fun e he => ?_
  have hf := List.filter_eq_nil_iff.mp h e he
  cases e with
  | missingMetric metric mode => rfl
  | belowMin metric min value => exact absurd rfl hf
  | aboveMax metric max value => exact absurd rfl hf

lemma performanceRule_congr (hr : SameRecorded ((selection.thresholdFailures.get? sid).getD [])
      ((selection'.thresholdFailures.get? sid).getD []))
    (htop : selection.topkSelected = selection'.topkSelected) (hrn : selection.topkRanks = selection'.topkRanks) :
    performanceRule env selection topK mode severity owner sid =
      performanceRule env selection' topK mode severity owner sid := by
  obtain ⟨hb, hall⟩ := hr
  unfold performanceRule
  dsimp only
  rw [← hb, ← htop, ← hrn]
  cases hc : ((selection.thresholdFailures.get? sid).getD []).filter (·.blocking) with
  | cons first rest => rfl
  | nil => rw [hall hc]

def recorded (f : List Failure) : List Failure :=
  if f.filter (·.blocking) = [] then f else f.filter (·.blocking)

lemma filter_recorded (f : List Failure) : (recorded f).filter (·.blocking) = f.filter (·.blocking) := by
  unfold recorded
  split
  · rfl
  · simp

lemma performanceRule_violations : (performanceRule env selection topK mode severity owner sid).details.get?
    "violations" = violations (recorded ((selection.thresholdFailures.get? sid).getD [])) := by
  unfold performanceRule recorded
  dsimp only
  cases hc : ((selection.thresholdFailures.get? sid).getD []).filter (·.blocking) with
  | cons first rest => rfl
  | nil =>
    unfold performanceMissingResult performanceRankResult violations
    rw [filter_isMissing hc, if_pos rfl]
    by_cases hnil : (selection.thresholdFailures.get? sid).getD [] = []
    · rw [if_pos hnil, if_pos hnil]
      cases topK with
      | none => rfl
      | some rule => by_cases hmem : sid ∈ selection.topkSelected <;> simp only [hmem, if_true, if_false] <;> rfl
    · rw [if_neg hnil, if_neg hnil]
      rfl

lemma sameRecorded_of_performanceRule (h : performanceRule env selection topK mode severity owner sid =
      performanceRule env selection' topK' mode' severity' owner' sid) :
    SameRecorded ((selection.thresholdFailures.get? sid).getD []) ((selection'.thresholdFailures.get? sid).getD []) := by
  have heq := violations_injective ((@performanceRule_violations env selection topK mode severity owner sid).symm.trans
    ((congrArg (fun r => r.details.get? "violations") h).trans performanceRule_violations))
  have hb := congrArg (List.filter (·.blocking)) heq
  rw [filter_recorded, filter_recorded] at hb
  refine ⟨hb, fun hnil => ?_⟩
  rwa [recorded, if_pos hnil, recorded, if_pos (hb ▸ hnil)] at heq

end

section

variable {env : Env} {selection : Preparation} {correlation : Option CorrelationRule} {hysteresis : Option HysteresisRule}
  {severity owner sid : String} {prevActive : List String} {metrics : Metrics}

lemma riskConstraintRule_metadata :
    (riskConstraintRule env selection correlation hysteresis severity owner prevActive sid metrics).severity =
        (if correlation = none ∧ hysteresis = none then "info" else severity) ∧
      (riskConstraintRule env selection correlation hysteresis severity owner prevActive sid metrics).owner = owner := by
  unfold riskConstraintRule riskCorrelationFailure riskHysteresisFailure
  cases correlation with
  | none =>
    cases hysteresis with
    | none => exact ⟨rfl, rfl⟩
    | some h => cases selection.hysteresisBlocked.get? sid <;> exact ⟨rfl, rfl⟩
  | some c =>
    cases selection.correlationViolations.get? sid with
    | some blockedBy => exact ⟨rfl, rfl⟩
    | none =>
      cases hysteresis with
      | none => exact ⟨rfl, rfl⟩
      | some h => cases selection.hysteresisBlocked.get? sid <;> exact ⟨rfl, rfl⟩

lemma riskConstraintRule_congr {selection' : Preparation} {severity' : String}
    (hv : selection.correlationViolations = selection'.correlationViolations)
    (hb : selection.hysteresisBlocked = selection'.hysteresisBlocked)
    (hs : ¬ (correlation = none ∧ hysteresis = none) → severity = severity') :
    riskConstraintRule env selection correlation hysteresis severity owner prevActive sid metrics =
      riskConstraintRule env selection' correlation hysteresis severity' owner prevActive sid metrics := by
  unfold riskConstraintRule
  rw [hv, hb]
  by_cases hn : correlation = none ∧ hysteresis = none
  · obtain ⟨rfl, rfl⟩ := hn
    rfl
  · rw [hs hn]

end

def SameBound (missable : Double → Prop) (a b : Option Double) : Prop :=
  a = b ∨ ∃ x y, a = some x ∧ b = some y ∧ ¬ missable x ∧ ¬ missable y

variable {a b x : Option Double} {env : Env}

lemma sameBound_of {missable : Double → Prop} (hs : a.isSome = b.isSome)
    (hl : ∀ x, a = some x → missable x → b = some x) (hr : ∀ y, b = some y → missable y → a = some y) :
    SameBound missable a b := by
  cases a with
  | none =>
    cases b with
    | none => exact .inl rfl
    | some y => cases hs
  | some x =>
    cases b with
    | none => cases hs
    | some y =>
      by_cases hx : missable x
      · exact .inl (hl x rfl hx).symm
      · by_cases hy : missable y
        · exact .inl (hr y rfl hy)
        · exact .inr ⟨x, y, rfl, rfl, hx, hy⟩

/-! ### Robustness -/

def Undercut (bound : Double) : Prop := ∃ q : ℚ, Double.lt (.finite q) bound = true

def Outgrown (env : Env) (bound : Double) : Prop :=
  ∃ q q' : ℚ, Double.lt bound (env.sub (.finite q) (.finite q')).abs = true

lemma asNumber_finite {absolute : Bool} {y : Double} (h : asNumber x absolute = some y) : ∃ q, y = .finite q := by
  obtain ⟨a, -, h⟩ := Option.bind_eq_some_iff.mp h
  cases a with
  | finite q =>
    refine ⟨if absolute then |q| else q, ?_⟩
    rw [← Option.some.inj h]
    cases absolute <;> rfl
  | posInf => cases h
  | negInf => cases h
  | nan => cases h

lemma robustnessDsrEvent_congr (h : SameBound Undercut a b) (v : Verdict) :
    robustnessDsrEvent (asNumber x false) a v = robustnessDsrEvent (asNumber x false) b v := by
  rcases h with rfl | ⟨a, b, rfl, rfl, ha, hb⟩
  · rfl
  · unfold robustnessDsrEvent
    cases hx : asNumber x false with
    | none => rfl
    | some y =>
      obtain ⟨q, rfl⟩ := asNumber_finite hx
      dsimp only
      rw [if_neg fun h => ha ⟨q, h⟩, if_neg fun h => hb ⟨q, h⟩]

lemma robustnessGapEvent_congr {y : Option Double} (h : SameBound (Outgrown env) a b) (v : Verdict) :
    robustnessGapEvent env (asNumber x false) (asNumber y false) a v =
      robustnessGapEvent env (asNumber x false) (asNumber y false) b v := by
  rcases h with rfl | ⟨a, b, rfl, rfl, ha, hb⟩
  · rfl
  · unfold robustnessGapEvent
    cases hx : asNumber x false with
    | none => rfl
    | some first =>
      cases hy : asNumber y false with
      | none => rfl
      | some second =>
        obtain ⟨q, rfl⟩ := asNumber_finite hx
        obtain ⟨q', rfl⟩ := asNumber_finite hy
        dsimp only
        rw [if_neg fun h => ha ⟨q, q', h⟩, if_neg fun h => hb ⟨q, q', h⟩]

lemma robustnessRule_empty (dsr gap : Option Double) (severity owner : String) :
    (robustnessRule env dsr gap severity owner .empty).status = if dsr.isSome then .warn else .pass := by
  cases dsr <;> cases gap <;> rfl

lemma robustnessRule_dsr (dsr gap : Option Double) (severity owner : String) (q : ℚ) :
    (robustnessRule env dsr gap severity owner
      (Dict.ofList [("deflated_sharpe_ratio", .finite q)])).details.get? "dsr_min" =
        (dsr.filter fun b => Double.lt (.finite q) b).map .number := by
  have hr : robustnessRule env dsr gap severity owner (Dict.ofList [("deflated_sharpe_ratio", .finite q)]) =
      (robustnessDsrEvent (some (.finite q)) dsr
        { details := robustnessBaseDetails (Dict.ofList [("deflated_sharpe_ratio", .finite q)]) }).result severity owner
        "robustness_ok" "Robustness checks passed" "robustness" := by
    cases gap <;> rfl
  rw [hr]
  cases dsr with
  | none => rfl
  | some b =>
    by_cases hlt : Double.lt (.finite q) b
    · simp only [robustnessDsrEvent, hlt, if_true, Option.filter_some]
      rfl
    · simp only [robustnessDsrEvent, hlt, Option.filter_some]
      rfl

def halves (q q' : ℚ) : Metrics := Dict.ofList [("sharpe_first_half", .finite q), ("sharpe_second_half", .finite q')]

lemma robustnessRule_gap (dsr gap : Option Double) (severity owner : String) (q q' : ℚ) :
    (robustnessRule env dsr gap severity owner (halves q q')).details.get? "sharpe_gap" =
      gap.map (fun _ => .number (env.sub (.finite q) (.finite q')).abs) ∧
    (robustnessRule env dsr gap severity owner (halves q q')).details.get? "cv_sharpe_gap_max" =
      (gap.filter fun b => Double.lt b (env.sub (.finite q) (.finite q')).abs).map .number := by
  have hr : robustnessRule env dsr gap severity owner (halves q q') =
      (robustnessGapEvent env (some (.finite q)) (some (.finite q')) gap (robustnessDsrEvent none dsr
        { details := robustnessBaseDetails (halves q q') })).result severity owner
        "robustness_ok" "Robustness checks passed" "robustness" := rfl
  have hd : (robustnessDsrEvent none dsr { details := robustnessBaseDetails (halves q q') }).details =
      robustnessBaseDetails (halves q q') := by
    cases dsr <;> rfl
  rw [hr]
  generalize robustnessDsrEvent none dsr _ = v at hd ⊢
  cases gap with
  | none =>
    show v.details.get? _ = _ ∧ v.details.get? _ = _
    rw [hd]
    exact ⟨rfl, rfl⟩
  | some b =>
    by_cases hlt : Double.lt b (env.sub (.finite q) (.finite q')).abs
    · simp only [robustnessGapEvent, hlt, if_true, Option.filter_some, Verdict.note, Verdict.apply, Verdict.result,
        hd]
      exact ⟨rfl, rfl⟩
    · simp only [robustnessGapEvent, hlt, Option.filter_some, Verdict.note, Verdict.result, hd]
      exact ⟨rfl, rfl⟩

lemma eq_of_shown {missed : Double → Bool} {x : Double}
    (h : (a.filter missed).map Datum.number = (b.filter missed).map .number) (ha : a = some x) (hx : missed x) :
    b = some x := by
  rw [ha, Option.filter_some, if_pos hx] at h
  obtain ⟨y, hy, heq⟩ := Option.map_eq_some_iff.mp h.symm
  obtain rfl := Datum.number.inj heq
  exact (Option.filter_eq_some_iff.mp hy).1

lemma robustnessRule_eq_iff {dsr dsr' gap gap' : Option Double} {severity severity' owner owner' : String} :
    (∀ metrics, robustnessRule env dsr gap severity owner metrics = robustnessRule env dsr' gap' severity' owner' metrics) ↔
      (severity = severity' ∧ owner = owner') ∧ SameBound Undercut dsr dsr' ∧ SameBound (Outgrown env) gap gap' := by
  constructor
  · intro h
    refine ⟨⟨congrArg RuleResult.severity (h .empty), congrArg RuleResult.owner (h .empty)⟩, ?_, ?_⟩
    · have hst := congrArg RuleResult.status (h .empty)
      rw [robustnessRule_empty, robustnessRule_empty] at hst
      have hs : ∀ q : ℚ, (dsr.filter fun b => Double.lt (.finite q) b).map Datum.number =
          (dsr'.filter fun b => Double.lt (.finite q) b).map .number := fun q => by
        rw [← @robustnessRule_dsr env dsr gap severity owner, h, robustnessRule_dsr]
      refine sameBound_of ?_ ?_ ?_
      · cases dsr <;> cases dsr' <;> simp at hst ⊢
      · rintro x hx ⟨q, hq⟩
        exact eq_of_shown (hs q) hx hq
      · rintro y hy ⟨q, hq⟩
        exact eq_of_shown (hs q).symm hy hq
    · have hs : ∀ q q' : ℚ, (gap.filter fun b => Double.lt b (env.sub (.finite q) (.finite q')).abs).map Datum.number =
          (gap'.filter fun b => Double.lt b (env.sub (.finite q) (.finite q')).abs).map .number := fun q q' => by
        rw [← (@robustnessRule_gap env dsr gap severity owner q q').2, h, (robustnessRule_gap _ _ _ _ q q').2]
      refine sameBound_of ?_ ?_ ?_
      · have hgap : (gap.map fun _ => Datum.number (env.sub (.finite 0) (.finite 0)).abs) =
            gap'.map fun _ => .number (env.sub (.finite 0) (.finite 0)).abs := by
          rw [← (@robustnessRule_gap env dsr gap severity owner 0 0).1, h, (robustnessRule_gap _ _ _ _ 0 0).1]
        simpa using congrArg Option.isSome hgap
      · rintro x hx ⟨q, q', hq⟩
        exact eq_of_shown (hs q q') hx hq
      · rintro y hy ⟨q, q', hq⟩
        exact eq_of_shown (hs q q').symm hy hq
  · rintro ⟨⟨rfl, rfl⟩, hdsr, hgap⟩ metrics
    unfold robustnessRule
    dsimp only
    rw [robustnessDsrEvent_congr hdsr, robustnessGapEvent_congr hgap]

end

def Reached (bound : Double) : Prop := ∃ x, Double.lt x bound = true

/-- Two benchmark sections come to the same. -/
structure SameBenchmark (a b : BenchmarkRuleConfig) : Prop where
  severity : orDefault a.severity "soft" = orDefault b.severity "soft"
  owner : orDefault a.owner "quant" = orDefault b.owner "quant"
  bound : SameBound Reached a.minVsBenchmarkSharpe b.minVsBenchmarkSharpe

lemma evaluateBenchmarkRules_empty (cfg : BenchmarkRuleConfig) (stage : Option String) :
    (evaluateBenchmarkRules cfg stage .empty).status = if cfg.minVsBenchmarkSharpe.isSome then .warn else .pass := by
  unfold evaluateBenchmarkRules benchmarkCheck
  cases cfg.minVsBenchmarkSharpe <;> rfl

lemma evaluateBenchmarkRules_uplift (cfg : BenchmarkRuleConfig) (stage : Option String) (x : Double) :
    (evaluateBenchmarkRules cfg stage (Dict.ofList [("vs_benchmark_sharpe", x)])).details.get?
      "min_vs_benchmark_sharpe" = (cfg.minVsBenchmarkSharpe.filter fun b => Double.lt x b).map .number := by
  have hget : (Dict.ofList [("vs_benchmark_sharpe", x)]).get? "vs_benchmark_sharpe" = some x := rfl
  unfold evaluateBenchmarkRules benchmarkCheck
  rw [hget]
  cases cfg.minVsBenchmarkSharpe with
  | none => rfl
  | some b =>
    by_cases hlt : Double.lt x b
    · simp only [hlt, if_true, Option.filter_some]
      rfl
    · simp only [hlt, Option.filter_some]
      rfl

variable {stage : Option String}

lemma evaluateBenchmarkRules_eq_iff {a b : BenchmarkRuleConfig} :
    (∀ vals, evaluateBenchmarkRules a stage vals = evaluateBenchmarkRules b stage vals) ↔ SameBenchmark a b := by
  constructor
  · intro h
    refine ⟨congrArg RuleResult.severity (h .empty), congrArg RuleResult.owner (h .empty), ?_⟩
    have hs := congrArg RuleResult.status (h .empty)
    rw [evaluateBenchmarkRules_empty, evaluateBenchmarkRules_empty] at hs
    have hsh : ∀ x, (a.minVsBenchmarkSharpe.filter fun b => Double.lt x b).map Datum.number =
        (b.minVsBenchmarkSharpe.filter fun b => Double.lt x b).map .number := fun x => by
      rw [← evaluateBenchmarkRules_uplift a stage x, h, evaluateBenchmarkRules_uplift]
    refine sameBound_of ?_ ?_ ?_
    · cases ha : a.minVsBenchmarkSharpe <;> cases hb : b.minVsBenchmarkSharpe <;> simp [ha, hb] at hs ⊢
    · rintro x hx ⟨y, hy⟩
      exact eq_of_shown (hsh y) hx hy
    · rintro x hx ⟨y, hy⟩
      exact eq_of_shown (hsh y).symm hx hy
  · rintro ⟨hsv, how, hbn⟩ vals
    have hc : ∀ v, benchmarkCheck a (vals.get? "vs_benchmark_sharpe") v =
        benchmarkCheck b (vals.get? "vs_benchmark_sharpe") v := by
      intro v
      unfold benchmarkCheck
      rcases hbn with heq | ⟨x, y, hx, hy, hxf, hyf⟩
      · rw [heq]
      · rw [hx, hy]
        cases vals.get? "vs_benchmark_sharpe" with
        | none => rfl
        | some uplift =>
          dsimp only
          rw [if_neg fun h => hxf ⟨uplift, h⟩, if_neg fun h => hyf ⟨uplift, h⟩]
    unfold evaluateBenchmarkRules
    rw [hc, hsv, how]

/-! ### Paper and shadow -/

def PaperShadowConsistencyConfig.shown (cfg : PaperShadowConsistencyConfig) :
    String × String × Option Double × Option Double × Option Double × Option Double :=
  (orDefault cfg.severity "soft", orDefault cfg.owner "ops", cfg.minSharpeRatio, cfg.maxDrawdownRatio,
    cfg.maxVarP01Ratio, cfg.maxEsP01Ratio)

lemma details_apply (v : Verdict) (event : Option Event) : (v.apply event).details = v.details := by
  rcases event with _ | _ | _ <;> rfl

lemma get?_lower (v : Verdict) (value threshold : Option Double) (missing fail key key' : String) :
    (v.lower value threshold missing fail key).details.get? key' =
      if key' = key then (threshold.map .number).or (v.details.get? key') else v.details.get? key' := by
  unfold Verdict.lower
  cases threshold with
  | none => simp
  | some bound =>
    rw [details_apply]
    exact Dict.get?_set v.details key key' (.number bound)

lemma get?_upper (v : Verdict) (value threshold : Option Double) (missing fail key key' : String) :
    (v.upper value threshold missing fail key).details.get? key' =
      if key' = key then (threshold.map .number).or (v.details.get? key') else v.details.get? key' := by
  unfold Verdict.upper
  cases threshold with
  | none => simp
  | some bound =>
    rw [details_apply]
    exact Dict.get?_set v.details key key' (.number bound)

lemma get?_paperShadow (cfg : PaperShadowConsistencyConfig) (stage : Option String) (vals : Metrics) :
    (evaluatePaperShadowStrategy cfg stage vals).details.get? "min_sharpe_ratio" = cfg.minSharpeRatio.map .number ∧
    (evaluatePaperShadowStrategy cfg stage vals).details.get? "max_drawdown_ratio" =
      cfg.maxDrawdownRatio.map .number ∧
    (evaluatePaperShadowStrategy cfg stage vals).details.get? "max_var_p01_ratio" = cfg.maxVarP01Ratio.map .number ∧
    (evaluatePaperShadowStrategy cfg stage vals).details.get? "max_es_p01_ratio" = cfg.maxEsP01Ratio.map .number := by
  have hb : ∀ key ∈ ["min_sharpe_ratio", "max_drawdown_ratio", "max_var_p01_ratio", "max_es_p01_ratio"],
      (paperShadowDetails vals stage).get? key = none := by
    intro key hkey
    rw [Dict.get?_eq_none, paperShadowDetails, Dict.mem_keys_ofList]
    simp only [List.mem_cons, List.not_mem_nil, or_false] at hkey
    rcases hkey with rfl | rfl | rfl | rfl
    all_goals simp
  unfold evaluatePaperShadowStrategy Verdict.result
  simp only [get?_lower, get?_upper, hb, List.mem_cons, List.not_mem_nil, or_false, or_true, Option.or_none,
    String.reduceEq, if_false, if_true, and_self]

lemma evaluatePaperShadowStrategy_eq_iff {a b : PaperShadowConsistencyConfig} :
    (∀ vals, evaluatePaperShadowStrategy a stage vals = evaluatePaperShadowStrategy b stage vals) ↔
      a.shown = b.shown := by
  constructor
  · intro h
    obtain ⟨hs, hdd, hvar, hes⟩ := get?_paperShadow a stage .empty
    obtain ⟨hs', hdd', hv', hes'⟩ := get?_paperShadow b stage .empty
    rw [h] at hs hdd hvar hes
    have hn : ∀ {x y : Option Double} {o : Option Datum}, o = x.map Datum.number → o = y.map .number → x = y :=
      fun hx hy => Option.map_injective (fun _ _ => Datum.number.inj) (hx.symm.trans hy)
    unfold PaperShadowConsistencyConfig.shown
    rw [hn hs hs', hn hdd hdd', hn hvar hv', hn hes hes',
      show orDefault a.severity "soft" = orDefault b.severity "soft" from congrArg RuleResult.severity (h .empty),
      show orDefault a.owner "ops" = orDefault b.owner "ops" from congrArg RuleResult.owner (h .empty)]
  · intro h vals
    simp only [PaperShadowConsistencyConfig.shown, Prod.mk.injEq] at h
    obtain ⟨hsv, how, hs, hdd, hvar, hes⟩ := h
    unfold evaluatePaperShadowStrategy
    rw [hsv, how, hs, hdd, hvar, hes]

/-! ### Stress -/

def scenarioBounds (scenario : String × Dict String Double) : String × Option Double × Option Double × Option Double :=
  (scenario.1, scenario.2.get? "dd_max", scenario.2.get? "es_99", scenario.2.get? "var_99")

lemma evaluateStressScenario_congr {a b : String × Dict String Double} (h : scenarioBounds a = scenarioBounds b)
    (vals : Metrics) (v : StressVerdict) : evaluateStressScenario vals v a = evaluateStressScenario vals v b := by
  obtain ⟨name', bounds'⟩ := b
  simp only [scenarioBounds, Prod.mk.injEq] at h
  obtain ⟨rfl, hdd, hes, hvar⟩ := h
  unfold evaluateStressScenario
  dsimp only
  rw [hdd, hes, hvar]

lemma foldl_scenarios_congr {l l' : List (String × Dict String Double)}
    (h : l.map scenarioBounds = l'.map scenarioBounds) (vals : Metrics) (v : StressVerdict) :
    l.foldl (evaluateStressScenario vals) v = l'.foldl (evaluateStressScenario vals) v := by
  induction l generalizing l' v with
  | nil => rw [List.map_eq_nil_iff.mp h.symm]
  | cons a l ih =>
    obtain ⟨b, l', rfl, hb, hl⟩ := List.map_eq_cons_iff.mp h.symm
    rw [List.foldl_cons, List.foldl_cons, evaluateStressScenario_congr hb.symm]
    exact ih hl.symm _

lemma map_scenarioBounds (d : Dict String (Dict String Double)) :
    d.entries.map scenarioBounds = d.keys.map fun name =>
      (name, ((d.get? name).map fun bounds => bounds.get? "dd_max").join,
        ((d.get? name).map fun bounds => bounds.get? "es_99").join,
        ((d.get? name).map fun bounds => bounds.get? "var_99").join) := by
  unfold Dict.keys
  rw [List.map_map]
  refine List.map_congr_left fun e he => ?_
  have hget : d.get? e.1 = some e.2 := Dict.get?_eq_some.mpr he
  rw [Function.comp_apply, hget]
  rfl

lemma get?_check {v : StressVerdict} {value threshold : Option Double} {missing fail key key' : String}
    (h : key' ≠ key) : (v.check value threshold missing fail key).details.get? key' = v.details.get? key' := by
  unfold StressVerdict.check
  cases threshold with
  | none => rfl
  | some bound =>
    cases value with
    | none => exact Dict.get?_set_ne _ _ h
    | some value =>
      dsimp only
      split
      · exact Dict.get?_set_ne _ _ h
      · exact Dict.get?_set_ne _ _ h

lemma get?_scenarios (vals : Metrics) (l : List (String × Dict String Double)) (v : StressVerdict) :
    (l.foldl (evaluateStressScenario vals) v).details.get? "scenarios" = v.details.get? "scenarios" := by
  have hne : ∀ name : String, "scenarios" ≠ name ++ "_dd_max" ∧ "scenarios" ≠ name ++ "_es_99_max" ∧
      "scenarios" ≠ name ++ "_var_99_max" := by
    intro name
    refine ⟨?_, ?_, ?_⟩
    all_goals
      intro h
      have hl := congrArg (fun s => s.toList.getLast?) h
      simp [String.toList_append] at hl
  induction l generalizing v with
  | nil => rfl
  | cons a l ih =>
    rw [List.foldl_cons, ih]
    unfold evaluateStressScenario
    obtain ⟨hdd, hes, hvar⟩ := hne a.1
    rw [get?_check hvar, get?_check hes, get?_check hdd]

lemma evaluateStressRules_eq_iff {a b : StressRuleConfig} (h : SameStress a b) :
    (∀ vals, evaluateStressRules a stage vals = evaluateStressRules b stage vals) ↔ a.given.keys = b.given.keys := by
  constructor
  · intro heq
    have hn : ∀ cfg : StressRuleConfig, (evaluateStressRules cfg stage .empty).details.get? "scenarios" =
        some (.ofTexts cfg.given.keys) := fun cfg => get?_scenarios _ _ _
    have hs := hn a
    rw [heq, hn] at hs
    exact (Datum.ofTexts_injective (Option.some.inj hs)).symm
  · intro hkeys vals
    have hb : a.given.entries.map scenarioBounds = b.given.entries.map scenarioBounds := by
      rw [map_scenarioBounds, map_scenarioBounds, hkeys]
      simp [h.bounds]
    have hsv : a.severity = b.severity := congrArg Metadata.severity h.metadata
    have how : a.owner = b.owner := congrArg Metadata.owner h.metadata
    have hg : ∀ cfg : StressRuleConfig, cfg.scenarios.getD .empty = cfg.given := fun _ => rfl
    unfold evaluateStressRules
    simp only [hg, hkeys]
    rw [foldl_scenarios_congr hb, hsv, how]

end Qmtl.WorldService.PolicyEngine

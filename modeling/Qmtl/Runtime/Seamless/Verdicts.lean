import Qmtl.Runtime.Seamless.FetchCache

/-!
The decisions on a response read its data and leave them, so a stored response, materialized, gets the verdict that it
would have got when it was finalized.
-/

namespace Qmtl.Runtime.Seamless

open Lib

variable {F : Type}

/-! ### Decisions over a stored response -/

section Decisions

def ratioOf (m : Metadata) : ℚ := m.coverageRatio.getD (computeCoverageRatio m)

def DecidedWith (ratio : ℚ) (decision : Option DowngradeDecision) : Prop :=
  ∀ d ∈ decision, d.coverageRatio = some ratio

/-- The same data, whatever was decided on it. -/
structure SameData (m m' : Metadata) : Prop where
  interval : m'.interval = m.interval
  range : m'.requestedRange = m.requestedRange
  rows : m'.rows = m.rows
  bounds : m'.coverageBounds = m.coverageBounds
  manifest : m'.manifestUri = m.manifestUri
  artifact : m'.artifact = m.artifact
  ratio : ratioOf m' = ratioOf m

variable {ratio : ℚ} {m m' : Metadata}

lemma SameData.refl (m : Metadata) : SameData m m := ⟨rfl, rfl, rfl, rfl, rfl, rfl, rfl⟩

lemma SameData.trans {m'' : Metadata} (h : SameData m m') (h' : SameData m' m'') : SameData m m'' :=
  ⟨h'.interval.trans h.interval, h'.range.trans h.range, h'.rows.trans h.rows, h'.bounds.trans h.bounds,
    h'.manifest.trans h.manifest, h'.artifact.trans h.artifact, h'.ratio.trans h.ratio⟩

lemma decidedWith_none (ratio : ℚ) : DecidedWith ratio none := fun _ h => absurd h (Option.not_mem_none _)

lemma decidedWith_some {d : DowngradeDecision} (h : d.coverageRatio = some ratio) : DecidedWith ratio (some d) := by
  intro x hx
  cases hx
  exact h

lemma DecidedWith.merge {base new : Option DowngradeDecision} (hbs : DecidedWith ratio base)
    (hnew : DecidedWith ratio new) : DecidedWith ratio (mergeDecisions base new) := by
  cases base with
  | none => cases new <;> exact hnew
  | some b =>
    cases new with
    | none => exact hbs
    | some n =>
      have hn := hnew n rfl
      unfold mergeDecisions
      dsimp only
      split
      · exact hnew
      · split
        · exact hbs
        · refine decidedWith_some ?_
          rw [hn]
          rfl

lemma sameData_withMetrics (m : Metadata) (nowMs : ℚ) : SameData m (withMetrics m nowMs) :=
  ⟨rfl, rfl, rfl, rfl, rfl, rfl, rfl⟩

lemma decidedWith_sla (sla : SlaPolicy) (violation : Option ViolationDetail) (staleness : Option ℚ) :
    DecidedWith ratio (evaluateSlaViolation sla violation (some ratio) staleness) := by
  intro d hd
  obtain ⟨p, -, rfl⟩ := Option.map_eq_some_iff.mp hd
  rfl

variable {c : Call F} {cfg : Config} {decision : Option DowngradeDecision} {r r' : Response F}

lemma decidedWith_bounds (context : RequestContext) (h : DecidedWith ratio decision) (staleness : Option ℚ) :
    DecidedWith ratio (checkBounds context decision (some ratio) staleness) := by
  have hm : ∀ (d : Option DowngradeDecision) (reason : String), DecidedWith ratio d →
      DecidedWith ratio (mergeDecisions d (some ⟨.hold, reason, none, some ratio, staleness⟩)) :=
    fun d reason hd => hd.merge (decidedWith_some rfl)
  unfold checkBounds
  dsimp only
  split
  · split
    · refine hm _ _ ?_
      split
      · split
        · exact hm _ _ h
        · exact h
      · exact h
    · split
      · split
        · exact hm _ _ h
        · exact h
      · exact h
  · split
    · split
      · exact hm _ _ h
      · exact h
    · exact h

lemma decidedWith_asOf (compareAsOf : String → String → ℤ) (live : LiveState) (context : RequestContext)
    (nodeId : String) (staleness : Option ℚ) :
    DecidedWith ratio (checkAsOfProgress compareAsOf live none context nodeId (some ratio) staleness).1 := by
  unfold checkAsOfProgress
  split
  · exact decidedWith_none ratio
  · split
    · exact decidedWith_none ratio
    · split
      · exact decidedWith_some rfl
      · exact decidedWith_none ratio

lemma domainGate_ok {compareAsOf : String → String → ℤ} {live live' : LiveState} {context : RequestContext}
    {nodeId : String} {nowMs : ℚ} (h : domainGate compareAsOf live context m nodeId nowMs = (.ok (m', decision), live')) :
    SameData m m' ∧ DecidedWith (ratioOf m) decision := by
  unfold domainGate at h
  split at h
  · split at h
    · cases h
    split at h
    · cases h
    cases h
    exact ⟨SameData.refl m, decidedWith_none _⟩
  · split at h
    · cases h
      exact ⟨sameData_withMetrics m nowMs, decidedWith_bounds _ (decidedWith_asOf _ _ _ _ _) _⟩
    · cases h
      exact ⟨SameData.refl m, decidedWith_none _⟩

lemma resolveDowngrade_ok (h : resolveDowngrade cfg c m = .ok (m', decision)) :
    SameData m m' ∧ DecidedWith (ratioOf m) decision := by
  unfold resolveDowngrade at h
  split at h
  · cases h
    exact ⟨SameData.refl m, decidedWith_none _⟩
  · split at h
    · cases h
    · cases h
      exact ⟨sameData_withMetrics m c.wallMs, decidedWith_sla _ _ _⟩

lemma applySlaAndDomain_ok {live : LiveState} (h : (applySlaAndDomain cfg live c r).1 = .ok r') :
    r'.frame = r.frame ∧ SameData r.metadata r'.metadata := by
  unfold applySlaAndDomain at h
  split at h
  · cases h
  · rename_i m downgrade hsla
    obtain ⟨hd, hdc⟩ := resolveDowngrade_ok hsla
    split at h
    · cases h
    · rename_i m' decision live' hg
      obtain ⟨hd', hdc'⟩ := domainGate_ok hg
      split at h
      · cases h
        exact ⟨rfl, hd.trans hd'⟩
      · rename_i final hm
        cases h
        have hall := hd.trans hd'
        have hf := (hdc.merge (hd.ratio ▸ hdc')) final hm
        refine ⟨rfl, hall.interval, hall.range, hall.rows, hall.bounds, hall.manifest, hall.artifact, ?_⟩
        show (final.coverageRatio.getD _) = _
        rw [hf]
        rfl

def verdict (result : Except FetchError (Response F)) :
    Except FetchError (F × Bool × Option Mode × Option String × Option ViolationDetail) :=
  result.map fun r =>
    (r.frame, r.metadata.downgraded, r.metadata.downgradeMode, r.metadata.downgradeReason, r.metadata.slaViolation)

/-- Two responses that differ in whether the coverage ratio has been computed. -/
structure Alike (r r' : Response F) : Prop where
  frame : r'.frame = r.frame
  data : SameData r.metadata r'.metadata
  downgraded : r'.metadata.downgraded = r.metadata.downgraded
  mode : r'.metadata.downgradeMode = r.metadata.downgradeMode
  reason : r'.metadata.downgradeReason = r.metadata.downgradeReason
  violation : r'.metadata.slaViolation = r.metadata.slaViolation
  staleness : r'.metadata.stalenessMs = r.metadata.stalenessMs

lemma Alike.withMetrics_eq (h : Alike r r') (nowMs : ℚ) :
    withMetrics r'.metadata nowMs = withMetrics r.metadata nowMs := by
  obtain ⟨frame, m⟩ := r
  obtain ⟨frame', m'⟩ := r'
  obtain ⟨rfl, ⟨hi, hr, hrows, hb, hm, ha, hrt⟩, hd, hmode, hrs, hv, hs⟩ := h
  obtain ⟨⟩ := m'
  simp only at hi hr hrows hb hm ha hd hmode hrs hv hs
  subst hi hr hrows hb hm ha hd hmode hrs hv hs
  unfold withMetrics
  rw [show Option.getD _ _ = _ from hrt]
  rfl

lemma Alike.verdict_eq (h : Alike r r') (cfg : Config) (live : LiveState) (c : Call F) :
    verdict (applySlaAndDomain cfg live c r').1 = verdict (applySlaAndDomain cfg live c r).1 := by
  have hm := h.withMetrics_eq c.wallMs
  have hs : resolveDowngrade cfg c r'.metadata = resolveDowngrade cfg c r.metadata →
      verdict (applySlaAndDomain cfg live c r').1 = verdict (applySlaAndDomain cfg live c r).1 := by
    intro heq
    unfold applySlaAndDomain
    rw [heq, h.frame]
  cases hsla : cfg.sla with
  | some sla =>
    refine hs ?_
    unfold resolveDowngrade
    rw [hsla]
    rw [hm]
  | none =>
    have hr : ∀ m, resolveDowngrade cfg c m = .ok (m, none) := by
      intro m
      unfold resolveDowngrade
      rw [hsla]
    have hk : verdict (.ok ⟨r'.frame, r'.metadata⟩) = verdict (.ok ⟨r.frame, r.metadata⟩) := by
      unfold verdict
      simp [Except.map, h.frame, h.downgraded, h.mode, h.reason, h.violation]
    unfold applySlaAndDomain
    rw [hr, hr]
    dsimp only
    unfold domainGate
    rw [h.data.artifact, h.data.manifest]
    by_cases hof : c.context.executionDomain = "backtest" ∨ c.context.executionDomain = "dryrun"
    · rw [if_pos hof, if_pos hof]
      by_cases hao : c.context.requestedAsOf = none
      · rw [if_pos hao, if_pos hao]
      by_cases har : r.metadata.artifact = none ∧ r.metadata.manifestUri = none
      · rw [if_neg hao, if_neg hao, if_pos har, if_pos har]
      · rw [if_neg hao, if_neg hao, if_neg har, if_neg har]
        exact hk
    · rw [if_neg hof, if_neg hof]
      by_cases hl : c.context.executionDomain = "live" ∨ c.context.executionDomain = "shadow"
      · rw [if_pos hl, if_pos hl]
        rw [hm, h.frame]
      · rw [if_neg hl, if_neg hl]
        exact hk

def refresh (r : Response F) (nowMs : ℚ) : Response F :=
  ⟨r.frame, { r.metadata with stalenessMs := computeStalenessMs r.metadata nowMs }⟩

lemma alike_materialize {live : LiveState} {outcome : Finalized F} {e : CacheEntry F}
    (h : (applySlaAndDomain cfg live c (finalize c outcome)).1 = .ok e.result) (nowMs : ℚ) :
    Alike (refresh (finalize c outcome) nowMs) (materialize e nowMs) := by
  obtain ⟨hfr, hd⟩ := applySlaAndDomain_ok h
  have hr : ∀ (m : Metadata) (d : Bool) (mode : Option Mode) (reason : Option String) (v : Option ViolationDetail)
      (s : Option ℚ), ratioOf { m with
        downgraded := d
        downgradeMode := mode
        downgradeReason := reason
        slaViolation := v
        stalenessMs := s } = ratioOf m := fun _ _ _ _ _ _ => rfl
  have hf : (finalize c outcome).metadata.downgraded = false ∧ (finalize c outcome).metadata.downgradeMode = none ∧
      (finalize c outcome).metadata.downgradeReason = none ∧ (finalize c outcome).metadata.slaViolation = none := by
    cases outcome <;> exact ⟨rfl, rfl, rfl, rfl⟩
  refine ⟨hfr, ⟨hd.interval, hd.range, hd.rows, hd.bounds, hd.manifest, hd.artifact, ?_⟩,
    hf.1.symm, hf.2.1.symm, hf.2.2.1.symm, hf.2.2.2.symm, ?_⟩
  · exact (hr _ _ _ _ _ _).trans (hd.ratio.trans (hr (finalize c outcome).metadata _ _ _ _ _).symm)
  · show computeStalenessMs e.result.metadata nowMs = computeStalenessMs (finalize c outcome).metadata nowMs
    unfold computeStalenessMs
    rw [hd.bounds]

end Decisions

end Qmtl.Runtime.Seamless

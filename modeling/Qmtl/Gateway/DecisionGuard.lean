import Qmtl.Gateway.ContextService
import Qmtl.Gateway.DiffExecutor

/-! Which worlds of a submission are diffed as `live`.

`ComputeContextService.build` asks for the decision of the first world only, and the one context it makes
is handed to the diff of every world. -/

namespace Qmtl.Gateway

open Lib Foundation

variable {lower : Lower}

namespace Decide

def unavailable : Decide → Bool
  | .noClient => false
  | .raised => true
  | .nothing _ => true
  | .payload _ stale => stale

def live (lower : Lower) : Decide → Bool
  | .payload p false => resolveWorldMode lower (p "effective_mode") = "live"
  | _ => false

end Decide

/-! ### The domains of decisions -/

def canonicalDomains : List String := ["backtest", "dryrun", "live", "shadow"]

variable (lower) in
lemma resolveWorldMode_mem (v : Raw) : resolveWorldMode lower v ∈ canonicalDomains := by
  unfold resolveWorldMode
  cases h : canonicalWorldModeToDomain.lookup (canonicalizeWorldMode lower v) with
  | none => decide
  | some d =>
    have hd : d ∈ canonicalWorldModeToDomain.map Prod.snd := by
      obtain ⟨before, after, heq, -⟩ := List.lookup_eq_some_iff.mp h
      rw [heq]
      simp
    exact (by decide : ∀ d ∈ canonicalWorldModeToDomain.map Prod.snd, d ∈ canonicalDomains) d hd

variable {d : String}

variable (lower) in
lemma canonical_forms (hd : d ∈ canonicalDomains) :
    strip d = d ∧ lower.fn d = d ∧ resolveExecutionDomain lower (stripped d) = some d ∧
      isMissingExecutionDomain lower (some d) = false := by
  have hf : ∀ d ∈ canonicalDomains, strip d = d ∧ (d.toList.all fun c => c.toNat < 128) ∧
      String.ofList (d.toList.map Char.toLower) = d ∧ stripped d = some d ∧
      ((splitAt (fun c => c = '/' || c = ':') d).findSome? segmentDomain).getD d = d ∧ d ≠ "" ∧ d ≠ "default" := by
    decide
  obtain ⟨hs, hasc, hlow, hst, hseg, hne, hdef⟩ := hf d hd
  have hlower : lower.fn d = d := by rw [lower.onAscii d (ascii_of_all hasc), hlow]
  refine ⟨hs, hlower, ?_, ?_⟩
  · rw [hst]
    show some (((splitAt (fun c => c = '/' || c = ':') (lower.fn d)).findSome? segmentDomain).getD
      (lower.fn d)) = some d
    rw [hlower, hseg]
  · show (decide (strip d = "") || decide (lower.fn (strip d) = defaultExecutionDomain)) = false
    rw [hs, hlower]
    simp [hne, defaultExecutionDomain, hdef]

def domainUnder (d : String) (asOf : Option String) : String :=
  if d ∈ ["backtest", "dryrun"] ∧ asOf = none then "backtest" else d

variable (lower) in
lemma evaluateSafeMode_canonical (hd : d ∈ canonicalDomains) {asOf : Option String} (hao : asOf ≠ some "") :
    (evaluateSafeMode lower (some d) asOf).executionDomain = domainUnder d asOf ∧
      ((evaluateSafeMode lower (some d) asOf).safeMode ↔ d ∈ ["backtest", "dryrun"] ∧ asOf = none) := by
  obtain ⟨hs, hlower, -, hm⟩ := canonical_forms lower hd
  unfold evaluateSafeMode domainUnder
  rw [if_neg (by simp [hm])]
  dsimp only [Option.getD_some]
  rw [hs, hlower]
  have hiff : (d ∈ ["backtest", "dryrun"] ∧ (asOf = none ∨ asOf = some "")) ↔
      (d ∈ ["backtest", "dryrun"] ∧ asOf = none) := by
    constructor
    · rintro ⟨h, h' | h'⟩
      · exact ⟨h, h'⟩
      · exact absurd h' hao
    · exact fun h => ⟨h.1, .inl h.2⟩
  by_cases hdw : d ∈ ["backtest", "dryrun"] ∧ asOf = none
  · rw [if_pos (hiff.mpr hdw), if_pos hdw]
    exact ⟨rfl, by simp [hdw]⟩
  · rw [if_neg (fun h => hdw (hiff.mp h)), if_neg hdw]
    exact ⟨rfl, iff_of_false (by simp) hdw⟩

lemma domainUnder_mem (hd : d ∈ canonicalDomains) (asOf : Option String) :
    domainUnder d asOf ∈ canonicalDomains := by
  unfold domainUnder
  split
  · decide
  · exact hd

lemma domainUnder_down (asOf : Option String) :
    domainUnder d asOf ∈ ["backtest", "dryrun"] ↔ d ∈ ["backtest", "dryrun"] := by
  unfold domainUnder
  split
  · rename_i h
    exact iff_of_true (by decide) h.1
  · exact Iff.rfl

lemma domainUnder_idem (d : String) (asOf : Option String) :
    domainUnder (domainUnder d asOf) asOf = domainUnder d asOf := by
  unfold domainUnder
  by_cases h : d ∈ ["backtest", "dryrun"] ∧ asOf = none
  · rw [if_pos h, if_pos ⟨by decide, h.2⟩]
  · rw [if_neg h, if_neg h]

lemma domainUnder_live (asOf : Option String) : domainUnder d asOf = "live" ↔ d = "live" := by
  unfold domainUnder
  split
  · rename_i h
    refine iff_of_false (by decide) ?_
    rintro rfl
    exact absurd h.1 (by decide)
  · exact Iff.rfl

-- contexts are compared field by field, and never by running the check
attribute [local irreducible] evaluateSafeMode

/-! ### Contexts with a canonical domain -/

structure Canonical (c : ComputeContext) (d : String) (asOf : Option String) : Prop where
  under : c.asOf = asOf
  domain : c.executionDomain = domainUnder d asOf
  safe : c.safeMode = true ↔ d ∈ ["backtest", "dryrun"] ∧ asOf = none

lemma ne_empty_of_normalize {v : Raw} : normalizeContextValue v ≠ some "" := by
  intro h
  exact (normalizeContextValue_clean h).1 rfl

lemma canonical_postInit (hd : d ∈ canonicalDomains) {c : ComputeContext} (hao : c.asOf ≠ some "")
    (hdm : c.executionDomain = (evaluateSafeMode lower (some d) c.asOf).executionDomain)
    (hs : c.safeMode = (evaluateSafeMode lower (some d) c.asOf).safeMode) :
    Canonical (ComputeContext.postInit lower c) d c.asOf := by
  obtain ⟨hfirst, hs₁⟩ := evaluateSafeMode_canonical lower hd hao
  obtain ⟨hag, hs₂⟩ := evaluateSafeMode_canonical lower (domainUnder_mem hd c.asOf) hao
  refine ⟨rfl, ?_, ?_⟩
  · show (evaluateSafeMode lower (some c.executionDomain) c.asOf).executionDomain = _
    rw [hdm, hfirst, hag, domainUnder_idem]
  · show (c.safeMode || (evaluateSafeMode lower (some c.executionDomain) c.asOf).safeMode) ↔ _
    rw [Bool.or_eq_true, hs, hs₁, hdm, hfirst, hs₂, domainUnder_down, or_self]

lemma canonical_decision (w : String) (p : Mapping) :
    Canonical (buildWorldserviceComputeContext lower w p) (resolveWorldMode lower (p "effective_mode"))
      (normalizeContextValue (p "as_of")) := by
  have hd := resolveWorldMode_mem lower (p "effective_mode")
  unfold buildWorldserviceComputeContext initialContext
  have hr : resolveExecutionDomain lower
      (normalizeContextValue (.str (resolveWorldMode lower (p "effective_mode")))) =
        some (resolveWorldMode lower (p "effective_mode")) := (canonical_forms lower hd).2.2.1
  simp only [hr]
  exact canonical_postInit hd ne_empty_of_normalize rfl rfl

variable (lower) in
lemma Canonical.withOverrides {c : ComputeContext} {asOf : Option String} (hd : d ∈ canonicalDomains)
    (h : Canonical c d asOf) (a p f : Raw) (ha : (if a = .none then c.asOf else normalizeContextValue a) ≠ some "") :
    Canonical (c.withOverrides lower .none a p f) (domainUnder d asOf)
      (if a = .none then c.asOf else normalizeContextValue a) := by
  have hd' := domainUnder_mem hd asOf
  have hne : domainUnder d asOf ≠ "" := by
    intro hempty
    rw [hempty] at hd'
    exact absurd hd' (by decide)
  unfold ComputeContext.withOverrides
  simp only [if_true, h.domain, if_neg hne]
  exact canonical_postInit hd' ha rfl rfl

namespace ContextService

lemma truthy_iff {v : Option String} (h : v ≠ some "") : truthy v ↔ v ≠ none := by
  cases v with
  | none => simp [truthy]
  | some s => simpa [truthy] using h

lemma overrideBy_asOf {use : Bool} {v w : Option String} (hv : ∀ s ∈ v, Clean s) :
    (if overrideBy use v = .none then w else normalizeContextValue (overrideBy use v)) =
      if use ∧ v ≠ none then v else w := by
  cases v with
  | none => simp [overrideBy]
  | some s =>
    have hs := hv s rfl
    cases use with
    | false => simp [overrideBy]
    | true =>
      have hov : overrideBy true (some s) = .str s := by simp [overrideBy, hs.1]
      rw [hov]
      simp [normalizeContextValue, hs.stripped]

variable {asOf : Option String} {c : ComputeContext} {d : String}

lemma canonical_merged {base : ComputeContext} (hd : d ∈ canonicalDomains) (hc : Canonical c d asOf)
    (hn : c.Normalized) (hb : base.Normalized) :
    ((mergeContexts lower c base).executionDomain = "live" ↔ d = "live") ∧ ((mergeContexts lower c base).safeMode ↔
        d ∈ ["backtest", "dryrun"] ∧ asOf = none ∧ base.asOf = none) := by
  have hao : asOf ≠ some "" := by
    rintro rfl
    exact (hn.asOf "" hc.under).1 rfl
  have hbs : base.asOf ≠ some "" := fun h => (hb.asOf "" h).1 rfl
  unfold mergeContexts
  split
  · -- the domain is checked again, under the caller's `as_of` where the decision has none
    have hov : (if overrideBy (!truthy c.asOf) base.asOf = .none then c.asOf
        else normalizeContextValue (overrideBy (!truthy c.asOf) base.asOf)) = asOf.or base.asOf := by
      rw [overrideBy_asOf hb.asOf, hc.under]
      cases asOf with
      | none => cases base.asOf <;> simp [truthy]
      | some a =>
        have ha : truthy (some a) := (truthy_iff hao).mpr (by simp)
        simp [ha]
    have hor : asOf.or base.asOf ≠ some "" := by
      cases asOf with
      | none => exact hbs
      | some a => exact hao
    have hw := hc.withOverrides lower hd (overrideBy (!truthy c.asOf) base.asOf)
      (overrideBy true base.partition) .none (by rw [hov]; exact hor)
    rw [hov] at hw
    refine ⟨?_, ?_⟩
    · rw [hw.domain, domainUnder_live, domainUnder_live]
    · rw [hw.safe, domainUnder_down, Option.or_eq_none_iff]
  · rename_i hnn
    refine ⟨by rw [hc.domain, domainUnder_live], ?_⟩
    rw [hc.safe]
    constructor
    · rintro ⟨hdw, rfl⟩
      refine ⟨hdw, rfl, ?_⟩
      by_contra hb'
      apply hnn
      rw [hc.under, Bool.or_eq_true, Bool.and_eq_true]
      exact .inr ⟨(truthy_iff hbs).mpr hb', by simp [truthy]⟩
    · rintro ⟨hdw, hn', -⟩
      exact ⟨hdw, hn'⟩

lemma downgradeTo_safe (c : ComputeContext) (reason : DowngradeReason) :
    (downgradeTo lower c reason).safeMode := by
  simp [downgradeTo, ComputeContext.postInit]

lemma domain_downgradeTo (hd : d ∈ canonicalDomains) (hc : Canonical c d asOf) (hao : asOf ≠ some "")
    (reason : DowngradeReason) : (downgradeTo lower c reason).executionDomain = domainUnder d asOf := by
  show (evaluateSafeMode lower (some c.executionDomain) c.asOf).executionDomain = _
  rw [hc.domain, hc.under, (evaluateSafeMode_canonical lower (domainUnder_mem hd asOf) hao).1, domainUnder_idem]

lemma canonical_override (hn : c.Normalized) (hd : d ∈ canonicalDomains) :
    Canonical (c.withOverrides lower (.str d) .none .none .none) d c.asOf := by
  have hao : c.asOf ≠ some "" := fun h => (hn.asOf "" h).1 rfl
  have hne : d ≠ "" := by
    rintro rfl
    exact absurd hd (by decide)
  have hr : resolveExecutionDomain lower (normalizeContextValue (.str d)) = some d :=
    (canonical_forms lower hd).2.2.1
  unfold ComputeContext.withOverrides
  simp only [hr, Option.getD_some, if_neg hne, if_true, reduceCtorEq, if_false]
  exact canonical_postInit hd hao rfl rfl

/-! ### Stale and missing decisions -/

def Guarded (c : ComputeContext) : Prop := c.safeMode = true ∧ c.executionDomain ≠ "live"

lemma guarded_downgradeTo (hn : c.Normalized) (hd : d ∈ canonicalDomains) (hl : d ≠ "live")
    (reason : DowngradeReason) :
    Guarded (downgradeTo lower (c.withOverrides lower (.str d) .none .none .none) reason) := by
  have hao : c.asOf ≠ some "" := fun h => (hn.asOf "" h).1 rfl
  refine ⟨downgradeTo_safe _ _, ?_⟩
  rw [domain_downgradeTo hd (canonical_override hn hd) hao, ne_eq, domainUnder_live]
  exact hl

lemma guarded_downgradeUnavailable (hn : c.Normalized) : Guarded (downgradeUnavailable lower c) := by
  unfold downgradeUnavailable
  dsimp only
  split
  · exact guarded_downgradeTo hn (by decide) (by decide) _
  · rename_i hmem
    split
    · exact guarded_downgradeTo hn (by decide) (by decide) _
    · -- the domain stays `shadow`
      rename_i hdry
      have hs : lower.fn c.executionDomain = "shadow" := by
        rw [not_not, List.mem_cons, List.mem_singleton] at hmem
        exact hmem.resolve_left hdry
      refine ⟨downgradeTo_safe _ _, ?_⟩
      show (evaluateSafeMode lower (some c.executionDomain) c.asOf).executionDomain ≠ "live"
      have hm : isMissingExecutionDomain lower (some c.executionDomain) = false := by
        show (decide (strip c.executionDomain = "") ||
          decide (lower.fn (strip c.executionDomain) = defaultExecutionDomain)) = false
        rw [hn.domain.2, hs]
        simp [hn.domain.1, defaultExecutionDomain]
      unfold evaluateSafeMode
      rw [if_neg (by simp [hm])]
      dsimp only [Option.getD_some]
      rw [hn.domain.2, hs]
      simp

lemma safe_is_backtest {domain : Option String} (h : (evaluateSafeMode lower domain asOf).safeMode) :
    (evaluateSafeMode lower domain asOf).executionDomain = "backtest" := by
  unfold evaluateSafeMode at h ⊢
  split
  · rfl
  · rename_i hm
    rw [if_neg hm] at h
    dsimp only at h ⊢
    split
    · rfl
    · rename_i hd
      rw [if_neg hd] at h
      cases h

lemma postInit_safe_backtest (h : c.safeMode → c.executionDomain = "backtest") (hao : c.asOf ≠ some "")
    (hs : (ComputeContext.postInit lower c).safeMode) :
    (ComputeContext.postInit lower c).executionDomain = "backtest" := by
  rcases Bool.or_eq_true _ _ |>.mp hs with hold | hnew
  · show (evaluateSafeMode lower (some c.executionDomain) c.asOf).executionDomain = "backtest"
    rw [h hold, (evaluateSafeMode_canonical lower (by decide) hao).1]
    unfold domainUnder
    split <;> rfl
  · exact safe_is_backtest hnew

lemma baseContext_safe {info : Mapping} {worlds : List String} (h : (baseContext lower info worlds).safeMode) :
    (baseContext lower info worlds).executionDomain = "backtest" := by
  have hin : (buildStrategyComputeContext lower info).safeMode →
      (buildStrategyComputeContext lower info).executionDomain = "backtest" :=
    postInit_safe_backtest safe_is_backtest ne_empty_of_normalize
  unfold baseContext at h ⊢
  split at h
  · exact hin h
  · exact postInit_safe_backtest hin ne_empty_of_normalize h

def submissionContext (lower : Lower) (worldIds : List String) (info : Mapping) (answer : String → Decide) :
    StrategyComputeContext :=
  build lower worldIds info (match uniqueWorlds worldIds with
    | [] => .noClient
    | w :: _ => answer w)

section Context

variable {worldIds : List String} {info : Mapping} {answer : String → Decide} {first : String}
  {rest : List String}

lemma submissionContext_eq (hw : uniqueWorlds worldIds = first :: rest) :
    (submissionContext lower worldIds info answer).context =
      applyDecision lower (baseContext lower info (first :: rest))
        (decisionContext lower (first :: rest) (answer first)) (first :: rest) := by
  show applyDecision lower (baseContext lower info (uniqueWorlds worldIds))
    (decisionContext lower (uniqueWorlds worldIds) (match uniqueWorlds worldIds with
      | [] => .noClient
      | w :: _ => answer w)) (uniqueWorlds worldIds) = _
  rw [hw]

variable (lower) in
lemma baseContext_asOf (worlds : List String) :
    (baseContext lower info worlds).asOf = normalizeContextValue (info "as_of") := by
  unfold baseContext
  split <;> rfl

variable (lower info) in
lemma context_of_fresh {p : Mapping} (hw : uniqueWorlds worldIds = first :: rest)
    (hfirst : answer first = .payload p false) :
    ((submissionContext lower worldIds info answer).context.executionDomain = "live" ↔
      resolveWorldMode lower (p "effective_mode") = "live") ∧
    ((submissionContext lower worldIds info answer).context.safeMode ↔
      resolveWorldMode lower (p "effective_mode") ∈ ["backtest", "dryrun"] ∧
        normalizeContextValue (p "as_of") = none ∧ normalizeContextValue (info "as_of") = none) := by
  rw [submissionContext_eq hw, hfirst, ← baseContext_asOf lower (first :: rest)]
  exact canonical_merged (resolveWorldMode_mem lower _) (canonical_decision first p)
    (initialContext_normalized lower _ _ _ _ _) (baseContext_normalized info _)

variable (lower info) in
lemma context_of_unavailable (hw : uniqueWorlds worldIds = first :: rest) (hfirst : (answer first).unavailable) :
    Guarded (submissionContext lower worldIds info answer).context := by
  have hb : (baseContext lower info (first :: rest)).Normalized := baseContext_normalized info _
  have hm : ∀ stale, Guarded (applyDecision lower (baseContext lower info (first :: rest))
      ⟨none, stale, true⟩ (first :: rest)) := by
    intro stale
    unfold applyDecision
    dsimp only
    split
    · exact guarded_downgradeUnavailable hb
    · rename_i hs
      have hs : (baseContext lower info (first :: rest)).safeMode := by simpa using hs
      refine ⟨hs, ?_⟩
      rw [baseContext_safe hs]
      decide
  rw [submissionContext_eq hw]
  cases han : answer first with
  | noClient =>
    rw [han] at hfirst
    cases hfirst
  | raised => exact hm false
  | nothing stale => exact hm stale
  | payload p stale =>
    rw [han] at hfirst
    obtain rfl : stale := hfirst
    exact guarded_downgradeTo (mergeContexts_normalized (initialContext_normalized lower _ _ _ _ _))
      (by decide) (by decide) _

end Context

end ContextService

/-! ### The diffs of a submission -/

open ContextService

def diffCalls (preferQueueMap : Bool) (ctx : StrategyComputeContext) (fallbackWorldId : Option String)
    (sid dagJson : String) : List DiffCall :=
  let worlds := if preferQueueMap ∧ 1 < ctx.worlds.length then ctx.worlds.map some
    else [ctx.worlds.head?.or fallbackWorldId]
  worlds.map fun w => { ctx.diffCall sid dagJson with worldId := w }

/-- Every world of the submission is diffed under its own decision: as `live` only if that is fresh and
live, and in safe mode and not as `live` if there is none to go by. -/
def DecisionsRespected (lower : Lower) (answer : String → Decide) (ctx : StrategyComputeContext)
    (calls : List DiffCall) : Prop :=
  ∀ call ∈ calls, ∀ w ∈ ctx.worlds, call.worldId = some w →
    (call.executionDomain = some "live" → (answer w).live lower = true) ∧
    ((answer w).unavailable = true → ctx.context.safeMode = true ∧ call.executionDomain ≠ some "live")

/-- The context made from the first world's decision is right for another world. -/
def Covered (lower : Lower) (info : Mapping) (first other : Decide) : Prop :=
  match first with
  | .payload p false =>
    if resolveWorldMode lower (p "effective_mode") = "live" then other.live lower = true
    else other.unavailable = true → resolveWorldMode lower (p "effective_mode") ∈ ["backtest", "dryrun"] ∧
      normalizeContextValue (p "as_of") = none ∧ normalizeContextValue (info "as_of") = none
  | _ => True

lemma diffCall_live (ctx : StrategyComputeContext) (sid dagJson : String) :
    (ctx.diffCall sid dagJson).executionDomain = some "live" ↔ ctx.context.executionDomain = "live" := by
  show ComputeContext.orNone ctx.context.executionDomain = some "live" ↔ _
  unfold ComputeContext.orNone
  split
  · rename_i hempty
    rw [hempty]
    decide
  · rw [Option.some.injEq]

lemma not_unavailable_of_live {d : Decide} (h : d.live lower) : d.unavailable = false := by
  cases d with
  | payload p stale =>
    cases stale with
    | false => rfl
    | true => cases h
  | noClient => cases h
  | raised => cases h
  | nothing stale => cases h

section Submission

variable {worldIds : List String} {info : Mapping} {answer : String → Decide} {first : String}
  {rest : List String}

variable (lower info) in
lemma respected_iff_covered (hc : ∀ w, answer w ≠ .noClient) (hw : uniqueWorlds worldIds = first :: rest)
    (other : Decide) : (((submissionContext lower worldIds info answer).context.executionDomain = "live" →
        other.live lower) ∧ (other.unavailable → (submissionContext lower worldIds info answer).context.safeMode ∧
        (submissionContext lower worldIds info answer).context.executionDomain ≠ "live")) ↔
      Covered lower info (answer first) other := by
  by_cases hun : (answer first).unavailable
  · obtain ⟨hs, hl⟩ := context_of_unavailable lower info hw hun
    have hcov : Covered lower info (answer first) other := by
      cases han : answer first with
      | payload p stale =>
        rw [han] at hun
        obtain rfl : stale := hun
        trivial
      | _ => trivial
    exact iff_of_true ⟨fun h => absurd h hl, fun _ => ⟨hs, hl⟩⟩ hcov
  · cases han : answer first with
    | noClient => exact absurd han (hc first)
    | raised => simp [han, Decide.unavailable] at hun
    | nothing stale => simp [han, Decide.unavailable] at hun
    | payload p stale =>
      rw [han] at hun
      obtain rfl : stale = false := by simpa [Decide.unavailable] using hun
      obtain ⟨hl, hs⟩ := context_of_fresh lower info hw han
      show _ ↔ if _ then _ else _
      rw [ne_eq, hl, hs]
      by_cases hmode : resolveWorldMode lower (p "effective_mode") = "live"
      · rw [if_pos hmode]
        refine ⟨fun h => h.1 hmode, fun h => ⟨fun _ => h, ?_⟩⟩
        rw [not_unavailable_of_live h]
        intro habs
        cases habs
      · rw [if_neg hmode]
        exact ⟨fun h hother => (h.2 hother).1, fun h => ⟨fun habs => absurd habs hmode, fun hother => ⟨h hother, hmode⟩⟩⟩

lemma covered_self (d : Decide) : Covered lower info d d := by
  cases d with
  | payload p stale =>
    cases stale with
    | true => trivial
    | false =>
      show if _ then _ else _
      split
      · rename_i hmode
        exact decide_eq_true hmode
      · intro habs
        cases habs
  | _ => trivial

/-- **No live run on another world's decision.** A submission is diffed under each world's own decision
exactly when only one world is diffed, or the first world's decision covers those of the others. -/
theorem decisions_respected_iff (hclient : ∀ w, answer w ≠ .noClient) (preferQueueMap : Bool)
    (fallbackWorldId : Option String) (sid dagJson : String) :
    DecisionsRespected lower answer (submissionContext lower worldIds info answer)
        (diffCalls preferQueueMap (submissionContext lower worldIds info answer) fallbackWorldId sid dagJson) ↔
      (preferQueueMap = true → ∀ first ∈ (uniqueWorlds worldIds).head?, ∀ w ∈ uniqueWorlds worldIds,
        Covered lower info (answer first) (answer w)) := by
  let ctx := submissionContext lower worldIds info answer
  have hworlds : ctx.worlds = uniqueWorlds worldIds := rfl
  cases hw : uniqueWorlds worldIds with
  | nil =>
    refine iff_of_true ?_ (by simp)
    intro call _ w hmem
    rw [hworlds, hw] at hmem
    cases hmem
  | cons first rest =>
    have hiff := respected_iff_covered lower info hclient hw
    have hone : DecisionsRespected lower answer ctx (diffCalls preferQueueMap ctx fallbackWorldId sid dagJson) ↔
        ∀ w ∈ (if preferQueueMap ∧ 1 < (first :: rest).length then first :: rest else [first]),
          Covered lower info (answer first) (answer w) := by
      have hcalls : diffCalls preferQueueMap ctx fallbackWorldId sid dagJson =
          (if preferQueueMap ∧ 1 < (first :: rest).length then first :: rest else [first]).map fun w =>
            { ctx.diffCall sid dagJson with worldId := some w } := by
        unfold diffCalls
        rw [hworlds, hw]
        split
        · rw [List.map_map]
          rfl
        · rfl
      rw [hcalls]
      constructor
      · intro h w hmem
        have hin : w ∈ ctx.worlds := by
          rw [hworlds, hw]
          split at hmem
          · exact hmem
          · exact List.mem_cons.mpr (.inl (List.mem_singleton.mp hmem))
        have hcall := h _ (List.mem_map_of_mem hmem) w hin rfl
        simp only [ne_eq, diffCall_live] at hcall
        exact (hiff _).mp hcall
      · intro h call hcall w _ hid
        obtain ⟨w', hmem, rfl⟩ := List.mem_map.mp hcall
        obtain rfl := Option.some.inj hid
        simp only [ne_eq, diffCall_live]
        exact (hiff (answer w')).mpr (h w' hmem)
    rw [hone]
    cases preferQueueMap with
    | false => simp [covered_self]
    | true =>
      cases rest with
      | nil => simp [covered_self]
      | cons second rest => simp

end Submission

def liveDecision : Decide :=
  .payload (fun key => if key = "effective_mode" then .str "live" else .none) false

/-- Two worlds whose decisions are both fresh and live. -/
theorem decisions_respected_two_live :
    let ctx := submissionContext Lower.ascii ["w1", "w2"] (fun _ => .none) fun _ => liveDecision
    DecisionsRespected Lower.ascii (fun _ => liveDecision) ctx (diffCalls true ctx none "s" "dag") := by
  refine (decisions_respected_iff (fun _ h => by cases h) true none "s" "dag").mpr ?_
  intro _ first _ w _
  exact covered_self liveDecision

/-- The second world has no decision, and is diffed as `live` on that of the first. -/
theorem second_world_diffed_live :
    let answer (w : String) : Decide := if w = "w1" then liveDecision else .raised
    let ctx := submissionContext Lower.ascii ["w1", "w2"] (fun _ => .none) answer
    (∀ w, answer w ≠ .noClient) ∧ (answer "w2").unavailable ∧
      (diffCalls true ctx none "s" "dag").map (fun call => (call.worldId, call.executionDomain)) =
        [(some "w1", some "live"), (some "w2", some "live")] ∧
      ¬ DecisionsRespected Lower.ascii answer ctx (diffCalls true ctx none "s" "dag") := by
  intro answer ctx
  have hcalls : (diffCalls true ctx none "s" "dag").map (fun call => (call.worldId, call.executionDomain)) =
      [(some "w1", some "live"), (some "w2", some "live")] := by
    decide +kernel
  refine ⟨?_, rfl, hcalls, ?_⟩
  · intro w
    by_cases hw : w = "w1" <;> simp [answer, hw, liveDecision]
  · intro h
    have hmem : (some "w2", some "live") ∈
        (diffCalls true ctx none "s" "dag").map fun call => (call.worldId, call.executionDomain) := by
      rw [hcalls]
      decide
    obtain ⟨call, hcall, heq⟩ := List.mem_map.mp hmem
    obtain ⟨hworld, hdomain⟩ := Prod.mk.inj heq
    have hlive := (h call hcall "w2" (by decide +kernel) hworld).1 hdomain
    exact absurd hlive (by decide)

end Qmtl.Gateway

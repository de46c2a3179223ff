import Qmtl.Foundation.ComputeContext
import Qmtl.Gateway.Backend

/-!
`ComputeContextService`: from a submission's metadata and the world service's decision to the
compute context it is stored and diffed under, and the fields of the Redis hash that hold it.
-/

namespace Qmtl.Gateway

open Lib Foundation

structure StrategyComputeContext where
  context : ComputeContext
  worlds : List String
  normalized : context.Normalized

/-- How `WorldServiceClient.get_decide` ended, if there is a client. -/
inductive Decide where
  | noClient
  | raised
  | nothing (stale : Bool)
  | payload (p : Mapping) (stale : Bool)

structure DecisionContext where
  context : Option ComputeContext
  stale : Bool
  missing : Bool

namespace ContextService

variable (lower : Lower)

def uniqueWorlds (worldIds : List String) : List String :=
  worldIds.foldl (fun unique value =>
    match stripped value with
    | none => unique
    | some w => if w ∈ unique then unique else unique ++ [w]) []

def baseContext (info : Mapping) (worlds : List String) : ComputeContext :=
  let context := buildStrategyComputeContext lower info
  match worlds with
  | [] => context
  | w :: _ => context.withWorld lower (.str w)

def decisionContext (worlds : List String) (answer : Decide) : DecisionContext :=
  match worlds, answer with
  | [], _ => ⟨none, false, false⟩
  | _ :: _, .noClient => ⟨none, false, false⟩
  | _ :: _, .raised => ⟨none, false, true⟩
  | _ :: _, .nothing stale => ⟨none, stale, true⟩
  | w :: _, .payload p stale => ⟨some (buildWorldserviceComputeContext lower w p), stale, false⟩

def overrideBy (use : Bool) (v : Option String) : Raw :=
  match v with
  | some s => if use && s ≠ "" then .str s else .none
  | none => .none

def truthy (v : Option String) : Bool := v.any fun s => s ≠ ""

def mergeContexts (decisionCtx baseCtx : ComputeContext) : ComputeContext :=
  if truthy baseCtx.partition || (truthy baseCtx.asOf && !truthy decisionCtx.asOf) then
    decisionCtx.withOverrides lower .none (overrideBy (!truthy decisionCtx.asOf) baseCtx.asOf)
      (overrideBy true baseCtx.partition) .none
  else decisionCtx

def downgradeTo (c : ComputeContext) (reason : DowngradeReason) : ComputeContext :=
  ComputeContext.postInit lower
    { c with downgraded := true, downgradeReason := some reason, safeMode := true }

def downgradeStale (c : ComputeContext) : ComputeContext :=
  downgradeTo lower (c.withOverrides lower (.str "backtest") .none .none .none) .staleDecision

def downgradeUnavailable (c : ComputeContext) : ComputeContext :=
  let current := lower.fn c.executionDomain
  let downgraded :=
    if current ∉ ["dryrun", "shadow"] then c.withOverrides lower (.str "backtest") .none .none .none
    else if current = "dryrun" then c.withOverrides lower (.str "dryrun") .none .none .none
    else c
  downgradeTo lower downgraded .decisionUnavailable

def applyDecision (baseCtx : ComputeContext) (decision : DecisionContext) (worlds : List String) : ComputeContext :=
  match decision.context with
  | some ctx =>
    let context := mergeContexts lower ctx baseCtx
    if decision.stale then downgradeStale lower context else context
  | none =>
    if decision.missing && worlds ≠ [] && !baseCtx.safeMode then downgradeUnavailable lower baseCtx
    else baseCtx

section Normalized

variable {lower} {c : ComputeContext}

lemma downgradeTo_normalized (h : c.Normalized) (r : DowngradeReason) : (downgradeTo lower c r).Normalized :=
  ComputeContext.postInit_normalized h.world h.asOf h.partition h.dataset

lemma downgradeUnavailable_normalized (h : c.Normalized) : (downgradeUnavailable lower c).Normalized := by
  refine downgradeTo_normalized ?_ _
  split
  · exact h.withOverrides _ _ _ _
  · split
    · exact h.withOverrides _ _ _ _
    · exact h

lemma mergeContexts_normalized {d : ComputeContext} (h : d.Normalized) :
    (mergeContexts lower d c).Normalized := by
  unfold mergeContexts
  split
  · exact h.withOverrides _ _ _ _
  · exact h

lemma baseContext_normalized (info : Mapping) (worlds : List String) :
    (baseContext lower info worlds).Normalized := by
  unfold baseContext
  split
  · exact initialContext_normalized lower _ _ _ _ _
  · exact (initialContext_normalized lower _ _ _ _ _).withWorld _

lemma decisionContext_normalized {worlds : List String} {answer : Decide} {d : ComputeContext}
    (h : (decisionContext lower worlds answer).context = some d) : d.Normalized := by
  unfold decisionContext at h
  split at h
  case h_5 => cases h; exact initialContext_normalized lower _ _ _ _ _
  all_goals cases h

lemma applyDecision_normalized {worlds : List String} {decision : DecisionContext}
    (h : c.Normalized) (hd : ∀ d, decision.context = some d → d.Normalized) :
    (applyDecision lower c decision worlds).Normalized := by
  unfold applyDecision
  split
  · rename_i d heq
    have hm : (mergeContexts lower d c).Normalized := mergeContexts_normalized (hd d heq)
    split
    · exact downgradeTo_normalized (hm.withOverrides _ _ _ _) _
    · exact hm
  · split
    · exact downgradeUnavailable_normalized h
    · exact h

end Normalized

def build (worldIds : List String) (info : Mapping) (answer : Decide) : StrategyComputeContext :=
  let worlds := uniqueWorlds worldIds
  { context := applyDecision lower (baseContext lower info worlds)
      (decisionContext lower worlds answer) worlds
    worlds := worlds
    normalized := applyDecision_normalized (baseContext_normalized info worlds)
      fun _ h => decisionContext_normalized h }

end ContextService

/-! ### The context in Redis -/

namespace StrategyComputeContext

def value (ctx : StrategyComputeContext) : Field → Option String
  | .worldId => ComputeContext.orNone ctx.context.worldId
  | .executionDomain => ComputeContext.orNone ctx.context.executionDomain
  | .asOf => ctx.context.asOf
  | .partition => ctx.context.partition
  | .datasetFingerprint => ctx.context.datasetFingerprint
  | .downgradeReason => if ctx.context.downgraded then ctx.context.downgradeReason.map (·.value) else none
  | .dag => none
  | .hash => none

def redisMapping (ctx : StrategyComputeContext) : List (Field × String) :=
  [Field.executionDomain, .asOf, .partition, .datasetFingerprint, .worldId, .downgradeReason].filterMap
    fun f => (ctx.value f).bind fun v => if v = "" then none else some (f, v)

def diffCall (ctx : StrategyComputeContext) (sid dagJson : String) : DiffCall where
  strategyId := sid
  dagJson := dagJson
  worldId := ctx.value .worldId
  executionDomain := ctx.value .executionDomain
  asOf := ctx.value .asOf
  partition := ctx.value .partition
  datasetFingerprint := ctx.value .datasetFingerprint

def readFields : List Field :=
  [.worldId, .executionDomain, .asOf, .partition, .datasetFingerprint]

lemma orNone_clean {s t : String} (h : s = "" ∨ Clean s) (ht : ComputeContext.orNone s = some t) : Clean t := by
  unfold ComputeContext.orNone at ht
  split at ht
  · cases ht
  · rename_i hne
    cases ht
    exact h.resolve_left hne

lemma value_clean (ctx : StrategyComputeContext) {f : Field} (hf : f ∈ readFields) {v : String}
    (h : ctx.value f = some v) : Clean v := by
  have hn := ctx.normalized
  simp only [readFields, List.mem_cons, List.not_mem_nil, or_false] at hf
  rcases hf with rfl | rfl | rfl | rfl | rfl
  · exact orNone_clean hn.world h
  · exact orNone_clean (.inr hn.domain) h
  · exact hn.asOf v h
  · exact hn.partition v h
  · exact hn.dataset v h

lemma value_decode (ctx : StrategyComputeContext) {f : Field} (hf : f ∈ readFields) :
    (ctx.value f).bind stripped = ctx.value f := by
  cases h : ctx.value f with
  | none => rfl
  | some v => exact (ctx.value_clean hf h).stripped

lemma lookup_filterMap {g : Field → Option String} (f : Field) (fs : List Field) :
    (fs.filterMap fun x => (g x).map fun v => (x, v)).lookup f = if f ∈ fs then g f else none := by
  induction fs with
  | nil => rfl
  | cons x rest ih =>
    by_cases hfx : f = x
    · subst hfx
      cases hg : g f with
      | none => simp [hg, ih]
      | some v => simp [hg]
    · cases hg : g x with
      | none => simp [hg, ih, hfx]
      | some v =>
        have hbeq : (f == x) = false := by simpa using hfx
        simp [hg, ih, hfx, List.lookup_cons, hbeq]

lemma redisMapping_eq (ctx : StrategyComputeContext) : ctx.redisMapping =
    [Field.executionDomain, .asOf, .partition, .datasetFingerprint, .worldId, .downgradeReason].filterMap
      fun x => ((ctx.value x).filter fun v => v ≠ "").map fun v => (x, v) := by
  unfold redisMapping
  congr 1
  funext x
  cases ctx.value x with
  | none => rfl
  | some v => by_cases hv : v = "" <;> simp [hv, Option.filter]

lemma lookup_redisMapping (ctx : StrategyComputeContext) {f : Field} (hf : f ∈ readFields) :
    ctx.redisMapping.lookup f = ctx.value f := by
  rw [redisMapping_eq, lookup_filterMap f, if_pos (by revert hf; cases f <;> decide)]
  cases hv : ctx.value f with
  | none => rfl
  | some v => simp [Option.filter, (ctx.value_clean hf hv).1]

lemma lookup_redisMapping_dag (ctx : StrategyComputeContext) : ctx.redisMapping.lookup .dag = none := by
  rw [redisMapping_eq, lookup_filterMap, if_neg (by decide)]

end StrategyComputeContext

end Qmtl.Gateway

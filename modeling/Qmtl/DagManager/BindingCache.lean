import Qmtl.DagManager.DiffService

/-! The service's own bindings as the dictionary they are kept in, and the state that a failed planning
leaves it in. -/

namespace Qmtl.DagManager.DiffService

open Lib Foundation

/-- `DiffService._bindings`: by node, by compute key. A node that was planned has an entry, which may be
empty. -/
abbrev BindingCache := Dict String (Dict String CachedBinding)

namespace BindingCache

def own (cache : BindingCache) (nodeId : String) : Dict String CachedBinding := (cache.get? nodeId).getD .empty

def touch (cache : BindingCache) (nodeId : String) : BindingCache :=
  if (cache.get? nodeId).isSome then cache else cache.set nodeId .empty

end BindingCache

/-- What `_hash_compare` works on. -/
structure Service where
  repo : Repository
  broker : Broker
  cache : BindingCache

def Service.state (s : Service) : State := ⟨s.repo, s.broker, s.cache.own⟩

/-- What `_hash_compare` comes to: planning is refused and leaves the service in some state, or the plan is
executed, up to an error of the broker perhaps. -/
inductive Compared where
  | rejected (error : DiffError) (service : Service)
  | executed (result : Except DiffError (Bound × State))

def Compared.result : Compared → Except DiffError (Bound × State)
  | rejected error _ => .error error
  | executed result => result

section

variable (env : Env) (existing : String → Option NodeRecord) (context : ComputeContext)

def planNode (node : NodeInfo) (cache : BindingCache) : Except DiffError PlanEntry × BindingCache :=
  let cache := cache.touch node.nodeId
  let own := cache.own node.nodeId
  let node := ensureComputeKey env node context
  let renew : Except DiffError PlanEntry × BindingCache :=
    match existing node.nodeId with
    | none => (.ok ⟨node, none, false⟩, cache)
    | some record =>
      if record.codeHash = node.codeHash then
        if node.computeKey ∉ record.computeKeys ∧
            (record.computeKeys ≠ [] ∨ (own.entries ≠ [] ∧ (own.get? node.computeKey).isNone)) then
          (.error (.crossContextTopicReuse node.nodeId context (own.entries.head?.map fun e => e.2.context)), cache)
        else (.ok ⟨node, some record.topic, record.schemaHash ≠ node.schemaHash⟩,
          cache.set node.nodeId
            (own.set node.computeKey ⟨record.topic, record.codeHash, record.schemaHash, context⟩))
      else (.ok ⟨node, none, false⟩, cache)
  match own.get? node.computeKey with
  | some cached =>
    if cached.codeHash = node.codeHash then
      (.ok ⟨node, some cached.topic, cached.schemaHash ≠ node.schemaHash⟩, cache)
    else renew
  | none => renew

def planNodes : List NodeInfo → BindingCache → Except DiffError (List PlanEntry) × BindingCache
  | [], cache => (.ok [], cache)
  | node :: nodes, cache =>
    match planNode env existing context node cache with
    | (.error e, cache) => (.error e, cache)
    | (.ok entry, cache) =>
      match planNodes nodes cache with
      | (.error e, cache) => (.error e, cache)
      | (.ok plan, cache) => (.ok (entry :: plan), cache)

def compare (nodes : List NodeInfo) (version : String) (ns : Option String) (service : Service) : Compared :=
  match planNodes env existing context nodes service.cache with
  | (.error e, cache) => .rejected e { service with cache := cache }
  | (.ok plan, cache) =>
    .executed (executeTopicBindingPlan env version ns context plan { service with cache := cache }.state
      ⟨.empty, [], []⟩)

end

namespace BindingCache

variable {cache : BindingCache} {id id' : String}

@[simp] lemma own_touch : (cache.touch id).own id' = cache.own id' := by
  unfold touch own
  split
  · rfl
  · rename_i h
    rw [Dict.get?_set]
    split
    · rename_i heq
      subst heq
      rw [Option.not_isSome_iff_eq_none.mp h]
      rfl
    · rfl

lemma mem_keys_touch : id' ∈ (cache.touch id).keys ↔ id' = id ∨ id' ∈ cache.keys := by
  unfold touch
  split
  · rename_i h
    refine ⟨.inr, ?_⟩
    rintro (rfl | hmem)
    · by_contra hnot
      rw [Dict.get?_eq_none.mpr hnot] at h
      cases h
    · exact hmem
  · exact Dict.mem_keys_set

lemma touch_of_mem (h : id ∈ cache.keys) : cache.touch id = cache := by
  unfold touch
  rw [if_pos]
  by_contra hnot
  exact Dict.get?_eq_none.mp (Option.not_isSome_iff_eq_none.mp hnot) h

@[simp] lemma own_set {bindings : Dict String CachedBinding} :
    own (cache.set id bindings) id' = if id' = id then bindings else cache.own id' := by
  unfold own
  rw [Dict.get?_set]
  split <;> rfl

end BindingCache

variable {env : Env} {context : ComputeContext} {repo : Repository}

lemma planEntry_own (node : NodeInfo) (cache : BindingCache) : planEntry env repo context cache.own node =
    (planNode env repo.getNode context node cache).1.map fun entry =>
      (entry, (planNode env repo.getNode context node cache).2.own) := by
  have hid : (ensureComputeKey env node context).nodeId = node.nodeId := by
    unfold ensureComputeKey
    split <;> rfl
  have htouch : (cache.touch node.nodeId).own = cache.own := funext fun _ => BindingCache.own_touch
  have hset : ∀ b, BindingCache.own ((cache.touch node.nodeId).set node.nodeId b) =
      Function.update cache.own node.nodeId b := by
    intro b
    funext id
    rw [BindingCache.own_set, BindingCache.own_touch, Function.update_apply]
  unfold planEntry planNode
  dsimp only
  rw [hid, htouch]
  cases hget : (cache.own node.nodeId).get? (ensureComputeKey env node context).computeKey <;>
    cases hrec : repo.getNode node.nodeId <;> dsimp only <;> (try split_ifs) <;>
      simp only [Except.map, hset, htouch]

/-- Planning over the dictionary the bindings are kept in is planning over the bindings it stands for. -/
theorem buildTopicBindingPlan_own (nodes : List NodeInfo) (cache : BindingCache) :
    buildTopicBindingPlan env repo context nodes cache.own = (planNodes env repo.getNode context nodes cache).1.map
      fun plan => (plan, (planNodes env repo.getNode context nodes cache).2.own) := by
  induction nodes generalizing cache with
  | nil => rfl
  | cons node nodes ih =>
    rw [buildTopicBindingPlan, planEntry_own, planNodes]
    rcases planNode env repo.getNode context node cache with ⟨_ | entry, cache'⟩
    · rfl
    · simp only [Except.map, bind, Except.bind]
      rw [ih]
      rcases planNodes env repo.getNode context nodes cache' with ⟨_ | plan, cache''⟩ <;> rfl

/-- What `_hash_compare` comes to is what it does on the bindings. -/
theorem compare_result (nodes : List NodeInfo) (version : String) (ns : Option String) (service : Service) :
    (compare env service.repo.getNode context nodes version ns service).result =
      hashCompare env nodes version context ns service.state := by
  unfold compare hashCompare
  dsimp only [Service.state]
  rw [buildTopicBindingPlan_own]
  rcases planNodes env service.repo.getNode context nodes service.cache with ⟨_ | plan, cache⟩ <;> rfl
end Qmtl.DagManager.DiffService

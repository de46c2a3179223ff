import Qmtl.DagManager.PlanAtomicity
import Qmtl.DagManager.RepositoryViews
import Qmtl.DagManager.SafeMode

/-! `BufferingScheduler`: nodes that have been buffering for long are diffed once more, each in a DAG of its
own that is made from its record and says nothing of a context, and then their marks are cleared. -/

namespace Qmtl.DagManager.BufferScheduler

open Lib Foundation DagManager.DiffService DagManager.Repositories DagManager.SafeMode

structure Stores where
  graph : Memory.Graph
  broker : Broker
  cache : BindingCache
  diffed : List String

/-- What ends a check: a diff is refused or fails, or its client does not acknowledge the chunks. -/
inductive Failure where
  | diff (error : DiffError)
  | timeout

section

variable (env : Env) (now : ℤ)

def planned (r : Repositories.NodeRecord) : DagManager.NodeRecord := ⟨r.codeHash, r.schemaHash, r.topic, r.computeKeys⟩

def dbFetch (g : Memory.Graph) (ids : List String) (id : String) : Option DagManager.NodeRecord :=
  ((Memory.getNodes g ids).get? id).map planned

def executePlan (version : String) (ns : Option String) (context : ComputeContext) :
    List PlanEntry → Stores → Except DiffError Stores
  | [], st => .ok st
  | entry :: plan, st => do
    let (topic, broker) ← bindTopic env version ns st.broker entry
    let node := entry.node
    executePlan version ns context plan { st with
      graph := Memory.addComputeBinding st.graph node.nodeId node.computeKey
      broker := broker
      cache := st.cache.set node.nodeId
        ((st.cache.own node.nodeId).set node.computeKey ⟨topic, node.codeHash, node.schemaHash, context⟩) }

def markAll (g : Memory.Graph) (plan : List PlanEntry) : Memory.Graph :=
  (plan.filter (·.needsBuffering)).foldl
    (fun g entry => Memory.markBuffering g entry.node.nodeId (some entry.node.computeKey) none now) g

def planOf (existing : String → Option DagManager.NodeRecord) (context : ComputeContext) (nodes : List NodeInfo)
    (cache : BindingCache) : Except DiffError (List PlanEntry × BindingCache) :=
  match planNodes env existing context nodes cache with
  | (.error e, _) => .error e
  | (.ok plan, cache) => .ok (plan, cache)

def prepareDiff (dag : Dag) (strategyId : String) (st : Stores) : Except DiffError Stores := do
  let pre ← scan env dag
  let merged := mergeContext env pre.context ⟨strategyId, "", none, none, none, none, none⟩
  let (plan, cache) ← planOf env (dbFetch st.graph (pre.nodes.map (·.nodeId))) merged pre.nodes st.cache
  let st ← executePlan env pre.version pre.ns merged plan { st with cache := cache }
  let graph := markAll now st.graph plan
  let newNodes := (plan.filter (·.needsNewQueue)).map (·.node.nodeId)
  return { st with
    graph := if pre.sentinelRequested ∧ merged.safeMode = false
      then Memory.insertSentinel graph (buildSentinelId strategyId) newNodes else graph }

def redoEntry (r : Repositories.NodeRecord) : DagNode where
  nodeId := some r.nodeId
  nodeType := r.nodeType
  codeHash := some r.codeHash
  schemaHash := some r.schemaHash
  interval := r.interval
  period := r.period
  tags := r.tags

def redoDag (r : Repositories.NodeRecord) : Dag where
  nodes := [some (redoEntry r)]

def checkNode (delivered : String → Bool) (nodeId : String) (r : Repositories.NodeRecord) (st : Stores) :
    Except Failure Stores :=
  match prepareDiff env now (redoDag r) nodeId st with
  | .error e => .error (.diff e)
  | .ok st =>
    if delivered nodeId then
      .ok { st with diffed := st.diffed ++ [nodeId], graph := Memory.clearBuffering st.graph nodeId none }
    else .error .timeout

def checkNodes (delivered : String → Bool) (records : Dict String Repositories.NodeRecord) :
    List String → Stores → Except Failure Stores
  | [], st => .ok st
  | nodeId :: ids, st =>
    match records.get? nodeId with
    | none => checkNodes delivered records ids st
    | some r =>
      match checkNode env now delivered nodeId r st with
      | .error e => .error e
      | .ok st => checkNodes delivered records ids st

def checkOnce (delivered : String → Bool) (cutoff : ℤ) (st : Stores) : Except Failure Stores :=
  let ids := Memory.getBufferingNodes st.graph cutoff none
  checkNodes env now delivered (Memory.getNodes st.graph ids) ids { st with diffed := [] }

/-- The task of `_run`. It catches its cancellation only. -/
inductive Task where
  | running (st : Stores)
  | ended (failure : Failure)

def round (delivered : String → Bool) (cutoff : ℤ) : Task → Task
  | .running st => match checkOnce env now delivered cutoff st with
    | .ok st => .running st
    | .error e => .ended e
  | .ended e => .ended e

end

/-! ### The scan of the DAG -/

def freeContext (env : Env) : ComputeContext := coerceComputeContext env none

def redoContext (env : Env) (nodeId : String) : ComputeContext :=
  mergeContext env (freeContext env) ⟨nodeId, "", none, none, none, none, none⟩

def redoNode (env : Env) (r : Repositories.NodeRecord) : NodeInfo :=
  ⟨r.nodeId, r.nodeType, r.codeHash, r.schemaHash, "", r.interval, r.period, r.tags, none,
    computeKey env r.nodeId (freeContext env)⟩

variable {env : Env} {now : ℤ}

lemma resolveNamespace_redoDag (r : Repositories.NodeRecord) :
    resolveNamespace env (redoDag r) (freeContext env) = none := by
  unfold resolveNamespace
  split
  · rfl
  · rfl

lemma buildNodeInfo_redoEntry (r : Repositories.NodeRecord) :
    buildNodeInfo env (freeContext env) r.nodeId (redoEntry r) = .ok (redoNode env r) := rfl

lemma scan_redoDag (r : Repositories.NodeRecord) : scan env (redoDag r) =
      .ok ⟨if r.nodeType = "VersionSentinel" then [] else [redoNode env r], resolveVersionLabel env (redoDag r),
        freeContext env, none, r.nodeType = "VersionSentinel"⟩ := by
  have hctx : extractComputeContext env (redoDag r) = freeContext env := rfl
  unfold scan
  rw [hctx]
  dsimp only
  rw [resolveNamespace_redoDag]
  by_cases h : r.nodeType = "VersionSentinel"
  · have hs : isSentinel (redoEntry r) := decide_eq_true h
    have hmap : nodeMap (redoDag r) = .empty := by
      simp [nodeMap, filteredNodes, redoDag, hs, Dict.ofList, Dict.update]
    have hsn : sentinels (redoDag r) ≠ [] := by simp [sentinels, redoDag, hs]
    rw [hmap, if_pos h, decide_eq_true hsn, decide_eq_true h]
    rfl
  · have hs : isSentinel (redoEntry r) = false := decide_eq_false h
    have hmap : nodeMap (redoDag r) = Dict.ofList [(r.nodeId, redoEntry r)] := by
      simp [nodeMap, filteredNodes, redoDag, hs]
      rfl
    have hsn : ¬ sentinels (redoDag r) ≠ [] := by simp [sentinels, redoDag, hs]
    have hkeys : topologicallyOrderNodes (Dict.ofList [(r.nodeId, redoEntry r)]) = [r.nodeId] :=
      List.perm_singleton.mp (Kahn.order_perm (inputsOf (Dict.ofList [(r.nodeId, redoEntry r)])))
    have hget : (Dict.ofList [(r.nodeId, redoEntry r)]).get? r.nodeId = some (redoEntry r) := Dict.get?_set_self _ _ _
    rw [hmap, hkeys, if_neg h, decide_eq_false hsn, decide_eq_false h]
    simp only [List.mapM_cons, List.mapM_nil, hget, Option.getD_some, buildNodeInfo_redoEntry]
    rfl

lemma freeContext_missing (env : Env) : AsOfMissing (freeContext env) := by
  have hm : evaluateSafeMode env.u.lower none none = ⟨"backtest", true, some .decisionUnavailable, true⟩ := rfl
  refine ⟨?_, .inl rfl⟩
  show (evaluateSafeMode env.u.lower (some (evaluateSafeMode env.u.lower none none).executionDomain) none).executionDomain
    = "backtest"
  rw [hm]
  rcases evaluate_cases env.u.lower "backtest" none with ⟨h, -⟩ | ⟨h, -⟩
  · exact h
  · rw [h, (backtest_forms env.u.lower).1, (backtest_forms env.u.lower).2.1]

lemma redoContext_safe (env : Env) (id : String) : (redoContext env id).safeMode :=
  merge_safe (freeContext_missing env) ⟨id, "", none, none, none, none, none⟩
    ⟨.inl rfl, .inl rfl, .inl rfl, .inl rfl, .inl rfl⟩

variable {existing : String → Option DagManager.NodeRecord}

lemma planNode_topic {context : ComputeContext} {node : NodeInfo}
    {record : DagManager.NodeRecord} {cache cache' : BindingCache} {entry : PlanEntry}
    (hrc : existing node.nodeId = some record) (hc : record.codeHash = node.codeHash)
    (h : planNode env existing context node cache = (.ok entry, cache')) :
    (∃ topic, entry.topic = some topic) ∧ entry.node.nodeId = node.nodeId := by
  unfold planNode at h
  simp only [ensureComputeKey_eq, hrc, hc, if_true] at h
  have hr : ∀ (p : Prop) [Decidable p] (e : DiffError) (a b : BindingCache) (other : PlanEntry),
      (if p then (.error e, a) else (.ok other, b)) = (Except.ok entry, cache') → entry = other := by
    intro p _ e a b other heq
    split at heq
    · cases heq
    · exact (Except.ok.inj (Prod.mk.inj heq).1).symm
  split at h
  · split at h
    · obtain rfl := Except.ok.inj (Prod.mk.inj h).1
      exact ⟨⟨_, rfl⟩, rfl⟩
    · obtain rfl := hr _ _ _ _ _ h
      exact ⟨⟨_, rfl⟩, rfl⟩
  · obtain rfl := hr _ _ _ _ _ h
    exact ⟨⟨_, rfl⟩, rfl⟩

/-- What is the same for every id but one: its node, and its bindings. -/
structure Apart (id : String) (st st' : Stores) : Prop where
  graph : ∀ other, other ≠ id → st'.graph.get? other = st.graph.get? other
  cache : ∀ other, other ≠ id → st'.cache.own other = st.cache.own other

lemma planOf_cases {context : ComputeContext} {node : NodeInfo}
    {record : DagManager.NodeRecord} {cache : BindingCache}
    (hr : existing node.nodeId = some record) (hc : record.codeHash = node.codeHash) :
    (Violates env existing context cache node ∧ ∃ e, planOf env existing context [node] cache = .error e) ∨
    (¬ Violates env existing context cache node ∧ ∃ entry topic cache',
      planOf env existing context [node] cache = .ok ([entry], cache') ∧ entry.topic = some topic ∧
        entry.node.nodeId = node.nodeId ∧ ∀ other, other ≠ node.nodeId → cache'.own other = cache.own other) := by
  have hok : ∀ {entry cache'}, planNode env existing context node cache = (.ok entry, cache') →
      planOf env existing context [node] cache = .ok ([entry], cache') := by
    intro entry cache' h
    unfold planOf
    rw [planNodes_cons_ok h]
    rfl
  rcases @planNode_cases env existing context node cache with
    ⟨hv, held, hplan⟩ | ⟨hq, entry, hplan⟩ | ⟨hv, -, record', -, -, entry, hplan⟩
  · refine .inl ⟨hv, .crossContextTopicReuse node.nodeId context held, ?_⟩
    unfold planOf
    rw [planNodes_cons_error hplan]
  · obtain ⟨⟨topic, ht⟩, hid⟩ := planNode_topic hr hc hplan
    refine .inr ⟨not_violates_of_quiet hq, entry, topic, _, hok hplan, ht, hid, fun other _ => ?_⟩
    exact BindingCache.own_touch
  · obtain ⟨⟨topic, ht⟩, hid⟩ := planNode_topic hr hc hplan
    refine .inr ⟨hv, entry, topic, _, hok hplan, ht, hid, fun other hother => ?_⟩
    rw [own_bindRecord, if_neg hother]

/-! ### The diff of the one node -/

/-- The diff of a record is refused: it has a node, which is recorded under other compute keys than the one
without a context. -/
def Refused (env : Env) (st : Stores) (id : String) (r : Repositories.NodeRecord) : Prop :=
  r.nodeType ≠ "VersionSentinel" ∧
    Violates env (dbFetch st.graph [id]) (redoContext env id) st.cache (redoNode env r)

variable {g : Memory.Graph}

lemma get?_addComputeBinding_other {id key other : String} (h : other ≠ id) :
    (Memory.addComputeBinding g id key).get? other = g.get? other := by
  rw [Memory.get?_addComputeBinding, if_neg]
  exact fun hf => h hf.2

lemma get?_markAll_other {plan : List PlanEntry} {id other : String}
    (hplan : ∀ entry ∈ plan, entry.node.nodeId = id) (h : other ≠ id) :
    (markAll now g plan).get? other = g.get? other := by
  unfold markAll
  generalize hl : plan.filter (·.needsBuffering) = l
  have hids : ∀ entry ∈ l, entry.node.nodeId = id := by
    intro entry hen
    rw [← hl] at hen
    exact hplan entry (List.mem_filter.mp hen).1
  clear hl hplan
  induction l generalizing g with
  | nil => rfl
  | cons entry l ih =>
    obtain ⟨hid, hids⟩ := List.forall_mem_cons.mp hids
    rw [List.foldl_cons, ih hids, Memory.get?_markBuffering, if_neg]
    rw [hid]
    exact h

lemma executePlan_one {version : String} {context : ComputeContext} {entry : PlanEntry} {topic id : String}
    {st : Stores} (ht : entry.topic = some topic) (hid : entry.node.nodeId = id) :
    ∃ st', executePlan env version none context [entry] st = .ok st' ∧ Apart id st st' ∧ st'.diffed = st.diffed := by
  have hb : bindTopic env version none st.broker entry = .ok (topic, st.broker) := by
    unfold bindTopic
    rw [ht]
    rfl
  refine ⟨{ st with
      graph := Memory.addComputeBinding st.graph entry.node.nodeId entry.node.computeKey
      cache := st.cache.set entry.node.nodeId ((st.cache.own entry.node.nodeId).set entry.node.computeKey
        ⟨topic, entry.node.codeHash, entry.node.schemaHash, context⟩) }, ?_, ⟨?_, ?_⟩, rfl⟩
  · unfold executePlan
    rw [hb]
    rfl
  · intro other hother
    rw [hid]
    exact get?_addComputeBinding_other hother
  · intro other hother
    rw [hid, BindingCache.own_set, if_neg hother]

lemma dbFetch_record {id : String} {r : Repositories.NodeRecord}
    (h : Memory.recordOf g id = some r) : dbFetch g [id] id = some (planned r) := by
  unfold dbFetch
  rw [Memory.get?_getNodes, if_pos (List.mem_singleton.mpr rfl), h]
  rfl

lemma nodeId_of_recordOf {id : String} {r : Repositories.NodeRecord}
    (h : Memory.recordOf g id = some r) : r.nodeId = id := by
  unfold Memory.recordOf at h
  cases hget : g.get? id with
  | none =>
    rw [hget] at h
    cases h
  | some d =>
    rw [hget, Option.bind_some] at h
    split at h
    · cases h
      rfl
    · cases h

lemma prepareDiff_eq (r : Repositories.NodeRecord) (id : String) (st : Stores) (nodes : List NodeInfo)
    (hn : (if r.nodeType = "VersionSentinel" then [] else [redoNode env r]) = nodes) :
    prepareDiff env now (redoDag r) id st =
      match planOf env (dbFetch st.graph (nodes.map (·.nodeId))) (redoContext env id) nodes st.cache with
      | .error e => .error e
      | .ok (plan, cache) =>
        (executePlan env (resolveVersionLabel env (redoDag r)) none (redoContext env id) plan
          { st with cache := cache }).map fun st => { st with graph := markAll now st.graph plan } := by
  unfold prepareDiff
  rw [scan_redoDag, hn]
  show (planOf env _ (redoContext env id) _ _ >>= _) = _
  generalize planOf env (dbFetch st.graph (nodes.map (·.nodeId))) (redoContext env id) nodes st.cache = planned
  rcases planned with e | ⟨plan, cache⟩
  · rfl
  · show (executePlan env _ none (redoContext env id) plan _ >>= _) = _
    dsimp only
    generalize executePlan env (resolveVersionLabel env (redoDag r)) none (redoContext env id) plan
      { st with cache := cache } = executed
    rcases executed with e | st'
    · rfl
    · have hno : ¬ (decide (r.nodeType = "VersionSentinel") ∧ (redoContext env id).safeMode = false) := by
        rw [redoContext_safe]
        exact fun h => Bool.noConfusion h.2
      exact congrArg (fun graph => Except.ok { st' with graph := graph }) (if_neg hno)

/-- **The diff of a record**: it is refused, or it returns and leaves every other id alone. -/
theorem prepareDiff_cases {st : Stores} {id : String} {r : Repositories.NodeRecord}
    (hr : Memory.recordOf st.graph id = some r) :
    (Refused env st id r ∧ ∃ e, prepareDiff env now (redoDag r) id st = .error e) ∨
    (¬ Refused env st id r ∧ ∃ st', prepareDiff env now (redoDag r) id st = .ok st' ∧ Apart id st st' ∧
      st'.diffed = st.diffed) := by
  have hid := nodeId_of_recordOf hr
  by_cases ht : r.nodeType = "VersionSentinel"
  · refine .inr ⟨fun h => h.1 ht, { st with graph := markAll now st.graph [] }, ?_, ⟨?_, ?_⟩, rfl⟩
    · rw [prepareDiff_eq r id st [] (if_pos ht)]
      rfl
    · exact fun other _ => rfl
    · exact fun other _ => rfl
  · rw [prepareDiff_eq r id st [redoNode env r] (if_neg ht)]
    have hn : (redoNode env r).nodeId = id := hid
    have hf : dbFetch st.graph ([redoNode env r].map (·.nodeId)) = dbFetch st.graph [id] := by
      rw [List.map_singleton, hn]
    have hp : dbFetch st.graph [id] (redoNode env r).nodeId = some (planned r) := by
      rw [hn]
      exact dbFetch_record hr
    rw [hf]
    rcases @planOf_cases env _ (redoContext env id) _ _ st.cache hp rfl with
      ⟨hv, e, hplan⟩ | ⟨hv, entry, topic, cache', hplan, htp, hen, hc⟩
    · rw [hplan]
      exact .inl ⟨⟨ht, hv⟩, e, rfl⟩
    · rw [hplan]
      obtain ⟨st', hex, hap, hd⟩ := @executePlan_one env (resolveVersionLabel env (redoDag r))
        (redoContext env id) entry topic id { st with cache := cache' } htp (hen.trans hn)
      refine .inr ⟨fun h => hv h.2, { st' with graph := markAll now st'.graph [entry] }, ?_, ⟨?_, ?_⟩, hd⟩
      · dsimp only
        rw [hex]
        rfl
      · intro other hother
        have hids : ∀ e ∈ [entry], e.node.nodeId = id := by
          intro e he
          rw [List.mem_singleton.mp he]
          exact hen.trans hn
        exact (get?_markAll_other hids hother).trans (hap.graph other hother)
      · intro other hother
        exact (hap.cache other hother).trans (hc other (hn.symm ▸ hother))

/-! ### The loop -/

lemma recordOf_apart {st st' : Stores} {id other : String} (h : Apart id st st') (hother : other ≠ id) :
    Memory.recordOf st'.graph other = Memory.recordOf st.graph other := by
  unfold Memory.recordOf
  rw [h.graph other hother]

lemma refused_apart {st st' : Stores} {id other : String} {r : Repositories.NodeRecord} (h : Apart id st st')
    (hid : r.nodeId = other) (hother : other ≠ id) : Refused env st' other r ↔ Refused env st other r := by
  have hf : dbFetch st'.graph [other] r.nodeId = dbFetch st.graph [other] r.nodeId := by
    unfold dbFetch
    rw [Memory.get?_getNodes, Memory.get?_getNodes, recordOf_apart h (hid.symm ▸ hother)]
  have hown : st'.cache.own r.nodeId = st.cache.own r.nodeId := h.cache _ (hid.symm ▸ hother)
  have hn : (redoNode env r).nodeId = r.nodeId := rfl
  unfold Refused Violates CachedSame knownKeys
  simp only [hn, hf, hown]

def Fails (env : Env) (delivered : String → Bool) (st : Stores) (id : String) (r : Repositories.NodeRecord) : Prop :=
  Refused env st id r ∨ delivered id = false

lemma apart_clear {st st' : Stores} {id : String} (h : Apart id st st') (diffed : List String) :
    Apart id st { st' with diffed := diffed, graph := Memory.clearBuffering st'.graph id none } := by
  refine ⟨fun other hother => ?_, h.cache⟩
  rw [Memory.get?_clearBuffering, if_neg hother]
  exact h.graph other hother

/-- **One node of a check**: it fails, or it is diffed and has no mark left. -/
theorem checkNode_cases {delivered : String → Bool} {st : Stores} {id : String} {r : Repositories.NodeRecord}
    (hrc : Memory.recordOf st.graph id = some r) :
    (Fails env delivered st id r ∧ ∃ e, checkNode env now delivered id r st = .error e) ∨
    (¬ Fails env delivered st id r ∧ ∃ st', checkNode env now delivered id r st = .ok st' ∧ Apart id st st' ∧
      st'.diffed = st.diffed ++ [id] ∧ ∀ slot, Memory.markOf st'.graph id slot = none) := by
  unfold checkNode Fails
  rcases @prepareDiff_cases env now st id r hrc with ⟨hr, e, hd⟩ | ⟨hr, st', hd, hap, hdf⟩
  · rw [hd]
    exact .inl ⟨.inl hr, _, rfl⟩
  · rw [hd]
    cases hdl : delivered id with
    | false => exact .inl ⟨.inr rfl, .timeout, if_neg Bool.false_ne_true⟩
    | true =>
      refine .inr ⟨fun h => h.elim hr Bool.noConfusion, _, if_pos rfl, apart_clear hap _, ?_, ?_⟩
      · rw [hdf]
      · intro slot
        rw [Memory.markOf_clearBuffering, if_pos ⟨rfl, .inl rfl⟩]

def Redone (st st' : Stores) (id : String) : Prop :=
  (Memory.recordOf st.graph id).isSome → id ∈ st'.diffed ∧ ∀ slot, Memory.markOf st'.graph id slot = none

/-- What the rest of the loop leaves of an id that is not in it. -/
structure Outside (st st' : Stores) (id : String) : Prop where
  graph : st'.graph.get? id = st.graph.get? id
  diffed : id ∈ st.diffed → id ∈ st'.diffed

/-- **The loop**: some node in it fails, or all of them are diffed and have no mark left. -/
theorem checkNodes_cases {delivered : String → Bool} {records : Dict String Repositories.NodeRecord}
    (ids : List String) (hn : ids.Nodup) (st : Stores)
    (hre : ∀ id ∈ ids, records.get? id = Memory.recordOf st.graph id) :
    ((∃ id ∈ ids, ∃ r, Memory.recordOf st.graph id = some r ∧ Fails env delivered st id r) ∧
      ∃ e, checkNodes env now delivered records ids st = .error e) ∨
    ((∀ id ∈ ids, ∀ r, Memory.recordOf st.graph id = some r → ¬ Fails env delivered st id r) ∧
      ∃ st', checkNodes env now delivered records ids st = .ok st' ∧ (∀ id ∈ ids, Redone st st' id) ∧
        ∀ id, id ∉ ids → Outside st st' id) := by
  induction ids generalizing st with
  | nil =>
    refine .inr ⟨fun id h => absurd h List.not_mem_nil, st, rfl, fun id h => absurd h List.not_mem_nil, ?_⟩
    exact fun id _ => ⟨rfl, fun h => h⟩
  | cons id ids ih =>
    obtain ⟨hid, hn⟩ := List.nodup_cons.mp hn
    have hne : ∀ other ∈ ids, other ≠ id := fun other hother heq => hid (heq ▸ hother)
    unfold checkNodes
    rw [hre id (.head _)]
    cases hrc : Memory.recordOf st.graph id with
    | none =>
      rcases ih hn st fun other hother => hre other (.tail _ hother) with
        ⟨⟨bad, hbad, r, hr, hf⟩, e, hrs⟩ | ⟨hall, st', hrs, hrd, hot⟩
      · exact .inl ⟨⟨bad, .tail _ hbad, r, hr, hf⟩, e, hrs⟩
      · refine .inr ⟨List.forall_mem_cons.mpr ⟨?_, hall⟩, st', hrs, List.forall_mem_cons.mpr ⟨?_, hrd⟩, ?_⟩
        · intro r hr
          rw [hrc] at hr
          cases hr
        · intro hs
          rw [hrc] at hs
          cases hs
        · exact fun other hother => hot other fun hmem => hother (.tail _ hmem)
    | some r =>
      dsimp only
      rcases @checkNode_cases env now delivered st id r hrc with
        ⟨hf, e, hnd⟩ | ⟨hf, st₁, hnd, hap, hd, hm⟩
      · rw [hnd]
        exact .inl ⟨⟨id, (.head _), r, hrc, hf⟩, e, rfl⟩
      · rw [hnd]
        have hsm : ∀ other ∈ ids, Memory.recordOf st₁.graph other = Memory.recordOf st.graph other :=
          fun other hother => recordOf_apart hap (hne other hother)
        have hiff : ∀ other ∈ ids, ∀ r', Memory.recordOf st.graph other = some r' →
            (Fails env delivered st₁ other r' ↔ Fails env delivered st other r') := by
          intro other hother r' hr'
          unfold Fails
          rw [refused_apart hap (nodeId_of_recordOf hr') (hne other hother)]
        rcases ih hn st₁ fun other hother =>
            (hre other (.tail _ hother)).trans (hsm other hother).symm with
          ⟨⟨bad, hbad, r', hr', hf'⟩, e, hrs⟩ | ⟨hall, st', hrs, hrd, hot⟩
        · rw [hsm bad hbad] at hr'
          exact .inl ⟨⟨bad, .tail _ hbad, r', hr', (hiff bad hbad r' hr').mp hf'⟩, e, hrs⟩
        · have hsl := hot id hid
          refine .inr ⟨List.forall_mem_cons.mpr ⟨?_, ?_⟩, st', hrs, List.forall_mem_cons.mpr ⟨?_, ?_⟩, ?_⟩
          · intro r' hr'
            rw [hrc] at hr'
            cases hr'
            exact hf
          · intro other hother r' hr'
            rw [← hiff other hother r' hr']
            exact hall other hother r' ((hsm other hother).trans hr')
          · intro _
            refine ⟨hsl.diffed (by rw [hd]; simp), fun slot => ?_⟩
            unfold Memory.markOf
            rw [hsl.graph]
            exact hm slot
          · intro other hother hs
            rw [← hsm other hother] at hs
            exact hrd other hother hs
          · intro other hother
            obtain ⟨hother, hrs⟩ := List.ne_and_not_mem_of_not_mem_cons hother
            have hlater := hot other hrs
            exact ⟨hlater.graph.trans (hap.graph other hother),
              fun hmem => hlater.diffed (by rw [hd]; exact List.mem_append_left _ hmem)⟩

/-! ### A check -/

def Stale (st : Stores) (cutoff : ℤ) (id : String) : Prop :=
  ∃ slot mark, Memory.markOf st.graph id slot = some mark ∧ mark < cutoff

lemma mem_stale {st : Stores} {cutoff : ℤ} {id : String} :
    id ∈ Memory.getBufferingNodes st.graph cutoff none ↔ Stale st cutoff id := by
  rw [Memory.mem_getBufferingNodes]
  constructor
  · rintro ⟨v, ⟨slot, -, hm⟩, hlt⟩
    exact ⟨slot, v, hm, hlt⟩
  · rintro ⟨slot, v, hm, hlt⟩
    exact ⟨v, ⟨slot, fun key hkey => absurd hkey (by simp [given]), hm⟩, hlt⟩

/-- The task is still running after the check, and every stale node with a record was diffed in it and has
no mark left. -/
def Reprocessed (env : Env) (now : ℤ) (delivered : String → Bool) (cutoff : ℤ) (st : Stores) : Prop :=
  ∃ st', round env now delivered cutoff (.running st) = .running st' ∧
    ∀ id, Stale st cutoff id → Redone st st' id

/-- **Buffered nodes are reprocessed only if none of them fails**: a check does its work and leaves the task
running exactly when the diff of every stale node is taken by the client, and no such node, unless its type
is that of a sentinel, is recorded for its code under compute keys without the context-free one. -/
theorem round_reprocesses_iff (env : Env) (now : ℤ) (delivered : String → Bool) (cutoff : ℤ) (st : Stores) :
    Reprocessed env now delivered cutoff st ↔ ∀ id r, Stale st cutoff id → Memory.recordOf st.graph id = some r →
        ¬ Refused env st id r ∧ delivered id = true := by
  have hnodup := Memory.nodup_getBufferingNodes st.graph cutoff none
  unfold Reprocessed round checkOnce
  rcases @checkNodes_cases env now delivered (Memory.getNodes st.graph (Memory.getBufferingNodes st.graph cutoff none))
      _ hnodup { st with diffed := [] } (fun id hid => (Memory.get?_getNodes _ _ _).trans (if_pos hid)) with
    ⟨⟨id, hid, r, hr, hfails⟩, e, hcheck⟩ | ⟨hall, st', hcheck, hredone, -⟩
  · dsimp only
    rw [hcheck]
    refine iff_of_false ?_ ?_
    · rintro ⟨st', h, -⟩
      cases h
    · intro h
      obtain ⟨hrefused, hdelivered⟩ := h id r (mem_stale.mp hid) hr
      rcases hfails with hfails | hfails
      · exact hrefused hfails
      · rw [hdelivered] at hfails
        cases hfails
  · dsimp only
    rw [hcheck]
    refine iff_of_true ⟨st', rfl, fun id hstale => hredone id (mem_stale.mpr hstale)⟩ ?_
    intro id r hstale hr
    have hok := hall id (mem_stale.mpr hstale) r hr
    refine ⟨fun h => hok (.inl h), ?_⟩
    by_contra hno
    exact hok (.inr (Bool.eq_false_iff.mpr hno))

def liveNode : Memory.NodeData where
  kind := some .compute
  nodeType := some "Indicator"
  codeHash := some "c0de01"
  schemaHash := some "5c4e"
  interval := some 60
  period := some 1
  tags := some ["btc"]
  topic := some "btc_Indicator_n1_v1"
  computeKeys := some ["blake3:f864b74f3c6a79bb9dedc5532380250fe0e1f7b608b6cea663221ea538ae8cb6"]
  bufferingSinceCtx := some (Dict.ofList [("blake3:f864b74f3c6a79bb9dedc5532380250fe0e1f7b608b6cea663221ea538ae8cb6", 1000)])

def digest (payload : String) : String :=
  if payload = "n1\x1fw1\x1flive\x1f\x1f" then "f864b74f3c6a79bb9dedc5532380250fe0e1f7b608b6cea663221ea538ae8cb6"
  else if payload = "n1\x1f\x1fbacktest\x1f\x1f" then "fa6e63077b22c2e9066ac5f2a93e70c5ec441c10f07b6bc4df3b2c70eaa84a1c"
  else ""

/-- The node of a live strategy that has buffered for long ends the task. -/
theorem live_node_ends_task :
    ¬ Reprocessed ⟨Unicode.ascii, digest, fun _ => none, false⟩ 900000000 (fun _ => true) 300000000
      ⟨Dict.ofList [("n1", liveNode)], ⟨.empty, false⟩, .empty, []⟩ := by
  have hfails : (checkOnce ⟨Unicode.ascii, digest, fun _ => none, false⟩ 900000000 (fun _ => true) 300000000
      ⟨Dict.ofList [("n1", liveNode)], ⟨.empty, false⟩, .empty, []⟩).isOk = false := by
    decide +kernel
  rintro ⟨st', h, -⟩
  unfold round at h
  cases hcheck : checkOnce ⟨Unicode.ascii, digest, fun _ => none, false⟩ 900000000 (fun _ => true) 300000000
      ⟨Dict.ofList [("n1", liveNode)], ⟨.empty, false⟩, .empty, []⟩ with
  | ok st =>
    rw [hcheck] at hfails
    cases hfails
  | error e =>
    dsimp only at h
    cases h

end Qmtl.DagManager.BufferScheduler

import Qmtl.DagManager.DiffService
import Qmtl.Lib.Except

/-! The order in which a diff goes through its nodes. A node whose inputs are not all in the payload can
never be popped, and then every node stays where the payload has it. -/

namespace Qmtl.DagManager.DiffService

open Lib Foundation

/-! ### The order of the nodes -/

section

variable (nodes : Dict String DagNode)

def inputsIn (nodeId : String) : List String := ((nodes.get? nodeId).map (·.inputs)).getD []

/-- `b` is fed by `a`, and both are in the payload. -/
def DependsOn (a b : String) : Prop := b ∈ nodes.keys ∧ a ∈ nodes.keys ∧ a ∈ inputsIn nodes b

def AcyclicPayload : Prop := ∀ id, ¬ Relation.TransGen (DependsOn nodes) id id

def AfterInputs (ordered : List String) : Prop :=
  ∀ id ∈ nodes.keys, ∀ input ∈ inputsIn nodes id, input ∈ nodes.keys → ordered.idxOf input < ordered.idxOf id

def NoneMissing : Prop := ∀ id ∈ nodes.keys, ∀ input ∈ inputsIn nodes id, input ∈ nodes.keys

variable {nodes}

lemma keys_inputsOf : (inputsOf nodes).keys = nodes.keys := Dict.keys_mapValues nodes _

lemma inputs_inputsOf (id : String) : Kahn.inputs (inputsOf nodes) id = inputsIn nodes id := by
  rw [Kahn.inputs, inputsOf, Dict.get?_mapValues, inputsIn]

lemma feeds_inputsOf : Kahn.Feeds (inputsOf nodes) = DependsOn nodes := by
  funext a b
  simp [Kahn.Feeds, DependsOn, keys_inputsOf, inputs_inputsOf]

lemma inputsFirst_inputsOf {ordered : List String} :
    Kahn.InputsFirst (inputsOf nodes) ordered ↔ AfterInputs nodes ordered := by
  simp [Kahn.InputsFirst, AfterInputs, keys_inputsOf, inputs_inputsOf]

/-- **The order is topological** where it can be: it has every node of the payload once, and, for a
payload without cycles, lists each after its inputs if and only if no input is missing from the payload or
the payload lists its nodes that way. -/
theorem topologicallyOrderNodes_iff : ((topologicallyOrderNodes nodes).Perm nodes.keys ∧
      (AcyclicPayload nodes → AfterInputs nodes (topologicallyOrderNodes nodes))) ↔
      (AcyclicPayload nodes → NoneMissing nodes ∨ AfterInputs nodes nodes.keys) := by
  have hperm : (topologicallyOrderNodes nodes).Perm nodes.keys := by
    rw [← keys_inputsOf]
    exact Kahn.order_perm (inputsOf nodes)
  have hclosed : Kahn.Closed (inputsOf nodes) ↔ NoneMissing nodes := by
    simp [Kahn.Closed, NoneMissing, keys_inputsOf, inputs_inputsOf]
  have hkeys : Kahn.InputsFirst (inputsOf nodes) (inputsOf nodes).keys ↔ AfterInputs nodes nodes.keys := by
    rw [inputsFirst_inputsOf, keys_inputsOf]
  simp only [hperm, true_and]
  refine forall_congr' fun hacyclic => ?_
  have hacyclic' : Kahn.Acyclic (inputsOf nodes) := by
    unfold Kahn.Acyclic
    rw [feeds_inputsOf]
    exact hacyclic
  rw [← inputsFirst_inputsOf, topologicallyOrderNodes, Kahn.inputsFirst_order_iff hacyclic', hclosed, hkeys]

def openNodes : Dict String DagNode := Dict.ofList
  [("sma", { nodeId := some "sma", inputs := ["ret"] }), ("ret", { nodeId := some "ret", inputs := ["prices"] })]

/-- Its order is that of the payload, the input last. -/
theorem openNodes_not_ordered :
    AcyclicPayload openNodes ∧ ¬ AfterInputs openNodes (topologicallyOrderNodes openNodes) := by
  constructor
  · have hrank : ∀ {a b : String}, DependsOn openNodes a b → a = "ret" ∧ b = "sma" := by
      rintro a b ⟨hb, ha, hin⟩
      have hkeys : openNodes.keys = ["sma", "ret"] := by decide
      rw [hkeys] at ha hb
      simp only [List.mem_cons, List.not_mem_nil, or_false] at ha hb
      rcases hb with rfl | rfl
      · have hinputs : inputsIn openNodes "sma" = ["ret"] := by decide
        exact ⟨List.mem_singleton.mp hin, rfl⟩
      · obtain rfl := List.mem_singleton.mp hin
        rcases ha with ha | ha <;> exact absurd ha (by decide)
    have hpath : ∀ {a b : String}, Relation.TransGen (DependsOn openNodes) a b → a = "ret" ∧ b = "sma" := by
      intro a b h
      induction h with
      | single h => exact hrank h
      | tail _ h ih => exact ⟨ih.1, (hrank h).2⟩
    intro id h
    obtain ⟨rfl, heq⟩ := hpath h
    exact absurd heq (by decide)
  · intro h
    have hlt := h "sma" (by decide) "ret" (by decide) (by decide)
    revert hlt
    decide

end

variable {env : Env}

/-! ### The scanned nodes -/

lemma computeKey_ne (nodeId : String) (c : ComputeContext) : computeKey env nodeId c ≠ "" := by
  intro h
  have := congrArg String.toList h
  simp [computeKey] at this

lemma hash_notMem_computeKey (hhex : ∀ s, '#' ∉ (env.blake3 s).toList) (nodeId : String)
    (c : ComputeContext) : '#' ∉ (computeKey env nodeId c).toList := by
  intro hmem
  rcases List.mem_append.mp (String.toList_append ▸ hmem) with hc | hc
  · revert hc
    decide
  · exact hhex _ hc

def dagNode (dag : Dag) (id : String) : DagNode := ((nodeMap dag).get? id).getD {}

def dagKeys (env : Env) (dag : Dag) (c : ComputeContext) : List String :=
  (topologicallyOrderNodes (nodeMap dag)).map fun id =>
    partitionKey id (dagNode dag id).interval (dagNode dag id).bucket (some (computeKey env id c))

/-- What a scan has found. -/
structure Scanned (env : Env) (dag : Dag) (pre : PreScan) : Prop where
  ids : pre.nodes.map (·.nodeId) = topologicallyOrderNodes (nodeMap dag)
  keys : ∀ n ∈ pre.nodes, n.computeKey = computeKey env n.nodeId pre.context
  partitionKeys : pre.nodes.map partitionKeyFor = dagKeys env dag pre.context
  version : pre.version = resolveVersionLabel env dag
  context : pre.context = extractComputeContext env dag
  ns : pre.ns = resolveNamespace env dag pre.context

variable {context : ComputeContext}

lemma buildNodeInfo_ok {id : String} {n : DagNode} {info : NodeInfo}
    (h : buildNodeInfo env context id n = .ok info) :
    info.nodeId = id ∧ info.computeKey = computeKey env id context ∧
      partitionKeyFor info = partitionKey id n.interval n.bucket (some (computeKey env id context)) := by
  obtain ⟨compat, -, h⟩ := bind_ok.mp h
  obtain ⟨codeHash, -, h⟩ := bind_ok.mp h
  obtain ⟨schemaHash, -, h⟩ := bind_ok.mp h
  obtain rfl := pure_ok.mp h
  exact ⟨rfl, rfl, rfl⟩

variable {bindings bindings' : String → Dict String CachedBinding} {e : PlanEntry} {nodes : List NodeInfo}
  {out out' : Bound} {plan : List PlanEntry} {repo : Repository} {st st' : State}

lemma buildNodeInfos_ok {node : String → DagNode} {ids : List String}
    (h : List.Forall₂ (fun id n => buildNodeInfo env context id (node id) = .ok n) ids nodes) :
    nodes.map (·.nodeId) = ids ∧ (∀ n ∈ nodes, n.computeKey = computeKey env n.nodeId context) ∧
      nodes.map partitionKeyFor = ids.map fun id =>
        partitionKey id (node id).interval (node id).bucket (some (computeKey env id context)) := by
  induction h with
  | nil => simp
  | cons hab _ ih =>
    obtain ⟨hid, hkey, hp⟩ := buildNodeInfo_ok hab
    refine ⟨by rw [List.map_cons, ih.1, hid], ?_, by rw [List.map_cons, List.map_cons, ih.2.2, hp]⟩
    intro n hn
    rcases List.mem_cons.mp hn with rfl | hn
    · rw [hid]
      exact hkey
    · exact ih.2.1 n hn

lemma scan_ok {dag : Dag} {pre : PreScan} (h : scan env dag = .ok pre) : Scanned env dag pre := by
  obtain ⟨_, -, h⟩ := bind_ok.mp h
  obtain ⟨nodes, hn, h⟩ := bind_ok.mp h
  obtain rfl := pure_ok.mp h
  obtain ⟨hids, hkeys, hp⟩ := buildNodeInfos_ok (mapM_ok hn)
  exact ⟨hids, hkeys, hp, rfl, rfl, rfl⟩

lemma preScan_ok {dagJson : String} {pre : PreScan} (h : preScan env dagJson = .ok pre) :
    ∃ dag, env.loads dagJson = some dag ∧ Scanned env dag pre := by
  unfold preScan at h
  split at h
  · rename_i dag hl
    exact ⟨dag, hl, scan_ok h⟩
  · cases h

variable {dag : Dag} {pre : PreScan}

lemma Scanned.nodup (h : Scanned env dag pre) : (pre.nodes.map (·.nodeId)).Nodup := by
  rw [h.ids]
  exact Kahn.order_nodup _

lemma Scanned.computeKey_ne (h : Scanned env dag pre) {n : NodeInfo} (hn : n ∈ pre.nodes) :
    n.computeKey ≠ "" := by
  rw [h.keys n hn]
  exact DiffService.computeKey_ne _ _

lemma planEntry_ok {node : NodeInfo} (hkey : node.computeKey ≠ "")
    (h : planEntry env repo context bindings node = .ok (e, bindings')) : e.node = node := by
  have hens : ensureComputeKey env node context = node := if_pos hkey
  unfold planEntry at h
  simp only [hens] at h
  repeat' split at h
  all_goals first
    | (cases h; rfl)
    | cases h

lemma buildTopicBindingPlan_cons {node : NodeInfo}
    (h : buildTopicBindingPlan env repo context (node :: nodes) bindings = .ok (plan, bindings')) :
    ∃ e b es, planEntry env repo context bindings node = .ok (e, b) ∧
      buildTopicBindingPlan env repo context nodes b = .ok (es, bindings') ∧ plan = e :: es := by
  obtain ⟨⟨e, b⟩, he, h⟩ := bind_ok.mp h
  obtain ⟨⟨es, b'⟩, hes, h⟩ := bind_ok.mp h
  cases pure_ok.mp h
  exact ⟨e, b, es, he, hes, rfl⟩

lemma plan_nodes (hkeys : ∀ n ∈ nodes, n.computeKey ≠ "")
    (h : buildTopicBindingPlan env repo context nodes bindings = .ok (plan, bindings')) :
    plan.map (·.node) = nodes := by
  induction nodes generalizing bindings plan with
  | nil =>
    obtain ⟨rfl, -⟩ := Prod.mk.inj (Except.ok.inj h)
    rfl
  | cons node nodes ih =>
    obtain ⟨e, b, es, he, hes, rfl⟩ := buildTopicBindingPlan_cons h
    rw [List.map_cons, planEntry_ok (hkeys node (by simp)) he,
      ih (fun n hn => hkeys n (by simp [hn])) hes]

/-! ### Executing the plan -/

variable {version : String} {ns : Option String} {context : ComputeContext}

lemma executeEntry_ok (h : executeEntry env version ns context st out e = .ok (out', st')) :
    ∃ topic, bindTopic env version ns st.broker e = .ok (topic, st'.broker) ∧
      out'.queueMap = out.queueMap.set (partitionKeyFor e.node) topic ∧
      out'.newNodes = (if e.needsNewQueue then out.newNodes ++ [e.node] else out.newNodes) ∧
      st'.repo = st.repo.addComputeBinding e.node.nodeId e.node.computeKey := by
  obtain ⟨⟨topic, broker⟩, hb, h⟩ := bind_ok.mp h
  cases pure_ok.mp h
  exact ⟨topic, hb, rfl, rfl, rfl⟩

lemma execute_cons (h : executeTopicBindingPlan env version ns context (e :: plan) st out = .ok (out', st')) :
    ∃ out₁ st₁, executeEntry env version ns context st out e = .ok (out₁, st₁) ∧
      executeTopicBindingPlan env version ns context plan st₁ out₁ = .ok (out', st') := by
  obtain ⟨⟨out₁, st₁⟩, he, h⟩ := bind_ok.mp h
  exact ⟨out₁, st₁, he, h⟩

lemma execute_queueMap (h : executeTopicBindingPlan env version ns context plan st out = .ok (out', st')) :
    ∃ topics : List String, topics.length = plan.length ∧
      out'.queueMap = out.queueMap.update ((plan.map fun e => partitionKeyFor e.node).zip topics) := by
  induction plan generalizing st out with
  | nil =>
    obtain ⟨rfl, -⟩ := Prod.mk.inj (Except.ok.inj h)
    exact ⟨[], rfl, rfl⟩
  | cons e plan ih =>
    obtain ⟨out₁, st₁, he, hr⟩ := execute_cons h
    obtain ⟨topic, -, hmap, -⟩ := executeEntry_ok he
    obtain ⟨topics, hlen, hout⟩ := ih hr
    refine ⟨topic :: topics, by simp [hlen], ?_⟩
    rw [hout, hmap]
    rfl

lemma execute_newNodes (h : executeTopicBindingPlan env version ns context plan st out = .ok (out', st')) :
    out'.newNodes = out.newNodes ++ (plan.filter (·.needsNewQueue)).map (·.node) := by
  induction plan generalizing st out with
  | nil =>
    obtain ⟨rfl, -⟩ := Prod.mk.inj (Except.ok.inj h)
    simp
  | cons e plan ih =>
    obtain ⟨out₁, st₁, he, hr⟩ := execute_cons h
    obtain ⟨topic, -, -, hnew, -⟩ := executeEntry_ok he
    rw [ih hr, hnew]
    by_cases hq : e.needsNewQueue <;> simp [hq]

lemma prepareDiff_ok {request : DiffRequest} {plan : DiffPlan} (h : prepareDiff env request st = .ok (plan, st')) :
    ∃ dag pre entries bindings out st₁, env.loads request.dagJson = some dag ∧ Scanned env dag pre ∧
      buildTopicBindingPlan env st.repo (mergeContext env pre.context request) pre.nodes st.bindings =
        .ok (entries, bindings) ∧
      executeTopicBindingPlan env pre.version pre.ns (mergeContext env pre.context request) entries
        { st with bindings := bindings } ⟨.empty, [], []⟩ = .ok (out, st₁) ∧
      plan.queueMap = out.queueMap ∧ plan.newNodes = out.newNodes ∧
      plan.crc32 = crc32OfList (pre.nodes.map (·.nodeId)) ∧
      st'.broker = st₁.broker ∧ st'.bindings = st₁.bindings ∧
      st'.repo = (if pre.sentinelRequested ∧ (mergeContext env pre.context request).safeMode = false
        then st₁.repo.insertSentinel (buildSentinelId request.strategyId) (out.newNodes.map (·.nodeId))
        else st₁.repo) := by
  obtain ⟨pre, hpre, h⟩ := bind_ok.mp h
  obtain ⟨⟨out, st₁⟩, hcmp, h⟩ := bind_ok.mp h
  obtain ⟨⟨entries, bindings⟩, hplan, hex⟩ := bind_ok.mp hcmp
  cases pure_ok.mp h
  obtain ⟨dag, hl, hs⟩ := preScan_ok hpre
  exact ⟨dag, pre, entries, bindings, out, st₁, hl, hs, hplan, hex, rfl, rfl, rfl, rfl, rfl, rfl⟩

/-- **The queue map** of a diff that returns: a topic for each scanned node, under its partition key. -/
theorem prepareDiff_queueMap {request : DiffRequest} {plan : DiffPlan}
    (h : prepareDiff env request st = .ok (plan, st')) :
    ∃ dag pre, ∃ topics : List String, env.loads request.dagJson = some dag ∧ Scanned env dag pre ∧
      topics.length = pre.nodes.length ∧ plan.queueMap = Dict.ofList ((pre.nodes.map partitionKeyFor).zip topics) ∧
      ∀ n ∈ plan.newNodes, n ∈ pre.nodes := by
  obtain ⟨dag, pre, entries, bindings, out, st₁, hl, hs, hplan, hex, hmap, hnew, -⟩ :=
    prepareDiff_ok h
  have hnd : entries.map (·.node) = pre.nodes := plan_nodes (fun n hn => hs.computeKey_ne hn) hplan
  obtain ⟨topics, hlen, hout⟩ := execute_queueMap hex
  have hlength : entries.length = pre.nodes.length := by rw [← hnd, List.length_map]
  have hkeys : (entries.map fun e => partitionKeyFor e.node) = pre.nodes.map partitionKeyFor := by
    rw [← hnd, List.map_map]
    rfl
  refine ⟨dag, pre, topics, hl, hs, hlen.trans hlength, ?_, ?_⟩
  · rw [hmap, hout, hkeys]
    rfl
  · intro n hn
    rw [hnew, execute_newNodes hex, List.nil_append] at hn
    rw [← hnd]
    obtain ⟨e, he, rfl⟩ := List.mem_map.mp hn
    exact List.mem_map_of_mem (List.mem_filter.mp he).1

end Qmtl.DagManager.DiffService

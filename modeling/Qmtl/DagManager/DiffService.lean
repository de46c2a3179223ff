import Qmtl.DagManager.Store
import Qmtl.Lib.Kahn

/-!
`DiffService`: a DAG is scanned into nodes with their compute keys, a namespace and a context, each
node is bound to a topic, and the bindings go into the plan that is streamed to the client.
-/

namespace Qmtl.DagManager

open Lib Foundation

structure Env where
  u : Unicode
  blake3 : String → String
  loads : String → Option Dag
  namespaceEnabled : Bool

structure NodeInfo where
  nodeId : String
  nodeType : String
  codeHash : String
  schemaHash : String
  schemaCompatId : String
  interval : Option ℤ
  period : Option ℤ
  tags : List String
  bucket : Option ℤ
  computeKey : String
  deriving DecidableEq

structure BufferInstruction where
  node : NodeInfo
  lag : ℤ
  deriving DecidableEq

namespace DiffService

variable (env : Env)

def hashPayload (nodeId : String) (c : ComputeContext) : String :=
  let domain := if isMissingExecutionDomain env.u.lower (some c.executionDomain) then computeOnlyDomain
    else c.executionDomain
  Lib.join "\x1f" [nodeId, c.worldId, domain, c.asOf.getD "", c.partition.getD ""]

def optRaw : Option String → Raw
  | some s => .str s
  | none => .none

def keyContext (c : ComputeContext) : ComputeContext :=
  let fresh := ComputeContext.postInit env.u.lower
    ⟨"", defaultExecutionDomain, none, none, none, false, none, false⟩
  (fresh.withWorld env.u.lower (optRaw (ComputeContext.orNone c.worldId))).withOverrides env.u.lower
    (optRaw (ComputeContext.orNone c.executionDomain)) (optRaw (c.asOf.bind ComputeContext.orNone))
    (optRaw (c.partition.bind ComputeContext.orNone))
    (optRaw (c.datasetFingerprint.bind ComputeContext.orNone))

def computeKey (nodeId : String) (c : ComputeContext) : String :=
  "blake3:" ++ env.blake3 (hashPayload env nodeId (keyContext env c))

/-! ### Scanning the DAG -/

def coerceComputeContext (payload : Option Object) : ComputeContext :=
  let p : Object := payload.getD fun _ => .null
  initialContext env.u.lower ((p "world_id").or (p "world")).raw
    ((p "execution_domain").or (p "domain")).raw (p "as_of").raw (p "partition").raw
    ((p "dataset_fingerprint").or (p "datasetFingerprint")).raw

def extractComputeContext (dag : Dag) : ComputeContext :=
  let base := coerceComputeContext env (dag.computeContext.or (dag.metaObj.bind (·.computeContext)))
  match dag.metaObj with
  | none => base
  | some m =>
    let dataset := m.values "dataset_fingerprint"
    if dataset.truthy ∧ (base.datasetFingerprint = none ∨ base.datasetFingerprint = some "") then
      base.withOverrides env.u.lower .none .none .none dataset.raw
    else base

def metaValue (dag : Dag) (key : String) : Value := (dag.metaObj.map fun m => m.values key).getD .null

def namespaceOf (dag : Dag) (context : ComputeContext) : Option String :=
  let world := if context.worldId ≠ "" then context.worldId
    else stringify ((metaValue dag "world").or (metaValue dag "world_id"))
  let domain := if context.executionDomain ≠ "" then context.executionDomain
    else normalizeExecutionDomain env.u ((metaValue dag "execution_domain").or (metaValue dag "domain"))
  if world ≠ "" then buildNamespace env.u (.str world) (.str domain) else none

def resolveNamespace (dag : Dag) (context : ComputeContext) : Option String :=
  if env.namespaceEnabled then
    match normalizeNamespace env.u ((dag.metaObj.map (·.topicNamespace)).getD .none) with
    | some ns => some ns
    | none => namespaceOf env dag context
  else none

def isSentinel (n : DagNode) : Bool := n.nodeType = "VersionSentinel"

def extractSentinelVersion (n : DagNode) : String :=
  normalizeVersion env.u (((n.version.or n.strategyVersion).or n.buildVersion).getD
    ((n.nodeId.map Value.str).getD .null))

def filteredNodes (dag : Dag) : List DagNode := (dag.nodes.filterMap id).filter fun n => !isSentinel n

def sentinels (dag : Dag) : List DagNode := (dag.nodes.filterMap id).filter isSentinel

def nodeMap (dag : Dag) : Dict String DagNode :=
  Dict.ofList ((filteredNodes dag).filterMap fun n => n.nodeId.map fun id => (id, n))

def inputsOf (nodes : Dict String DagNode) : Dict String (List String) := nodes.mapValues (·.inputs)

def topologicallyOrderNodes (nodes : Dict String DagNode) : List String := Kahn.order (inputsOf nodes)

/-! ### Nodes -/

def schemaCompatId (n : DagNode) : Except DiffError String :=
  match normalizeSchemaCompatId n.schemaCompatId n.schemaId with
  | .ok s => .ok (if s = "" then n.schemaCompatId.getD "" else s)
  | .error e => .error (.valueError (e ++ " (node_id=" ++ n.nodeId.getD "<unknown>" ++ ")"))

def required (key : String) : Option String → Except DiffError String
  | some v => .ok v
  | none => .error (.keyError key)

def buildNodeInfo (context : ComputeContext) (nodeId : String) (n : DagNode) :
    Except DiffError NodeInfo := do
  let schemaCompat ← schemaCompatId n
  let codeHash ← required "code_hash" n.codeHash
  let schemaHash ← required "schema_hash" n.schemaHash
  return ⟨nodeId, n.nodeType, codeHash, schemaHash, schemaCompat, n.interval, n.period, n.tags, n.bucket,
    computeKey env nodeId context⟩

def resolveVersionLabel (dag : Dag) : String :=
  match sentinels dag with
  | n :: _ => extractSentinelVersion env n
  | [] => normalizeVersion env.u ((((dag.strategyVersion.or dag.version).or (metaValue dag "version")).or
      (metaValue dag "strategy_version")).or (metaValue dag "build_version"))

structure PreScan where
  nodes : List NodeInfo
  version : String
  context : ComputeContext
  ns : Option String
  sentinelRequested : Bool

def scan (dag : Dag) : Except DiffError PreScan := do
  let context := extractComputeContext env dag
  -- every schema id is checked before the first node is built
  let _ ← (nodeMap dag).entries.mapM fun e => schemaCompatId e.2
  let nodes ← (topologicallyOrderNodes (nodeMap dag)).mapM fun id =>
    buildNodeInfo env context id (((nodeMap dag).get? id).getD {})
  return ⟨nodes, resolveVersionLabel env dag, context, resolveNamespace env dag context,
    sentinels dag ≠ []⟩

def preScan (dagJson : String) : Except DiffError PreScan :=
  match env.loads dagJson with
  | some dag => scan env dag
  | none => .error .jsonDecodeError

def mergeContext (inferred : ComputeContext) (request : DiffRequest) : ComputeContext :=
  let text (v : Option String) : String := stringify ((v.map Value.str).getD .null)
  let orText (v own : Option String) : Raw := if text v ≠ "" then .str (text v) else optRaw own
  let domain : String := match request.executionDomain.bind ComputeContext.orNone with
    | some d => d
    | none => inferred.executionDomain
  let merged := inferred.withOverrides env.u.lower (.str (normalizeExecutionDomain env.u (.str domain)))
    (orText request.asOf inferred.asOf) (orText request.partition inferred.partition)
    (orText request.datasetFingerprint inferred.datasetFingerprint)
  merged.withWorld env.u.lower
    (.str (if text request.worldId ≠ "" then text request.worldId else merged.worldId))

/-! ### Binding the nodes to topics -/

structure CachedBinding where
  topic : String
  codeHash : String
  schemaHash : String
  context : ComputeContext

structure State where
  repo : Repository
  broker : Broker
  bindings : String → Dict String CachedBinding

def State.empty : State := ⟨fun _ => none, ⟨.empty, false⟩, fun _ => .empty⟩

structure PlanEntry where
  node : NodeInfo
  topic : Option String
  needsBuffering : Bool

def PlanEntry.needsNewQueue (e : PlanEntry) : Bool := e.topic.isNone

def ensureComputeKey (node : NodeInfo) (context : ComputeContext) : NodeInfo :=
  if node.computeKey ≠ "" then node else { node with computeKey := computeKey env node.nodeId context }

def planEntry (repo : Repository) (context : ComputeContext)
    (bindings : String → Dict String CachedBinding) (node : NodeInfo) :
    Except DiffError (PlanEntry × (String → Dict String CachedBinding)) :=
  let node := ensureComputeKey env node context
  let own := bindings node.nodeId
  let renew : Except DiffError (PlanEntry × (String → Dict String CachedBinding)) :=
    -- the record decides when there is no binding for this code
    match repo.getNode node.nodeId with
    | none => .ok (⟨node, none, false⟩, bindings)
    | some record =>
      if record.codeHash = node.codeHash then
        if node.computeKey ∉ record.computeKeys ∧
            (record.computeKeys ≠ [] ∨ (own.entries ≠ [] ∧ (own.get? node.computeKey).isNone)) then
          .error (.crossContextTopicReuse node.nodeId context (own.entries.head?.map fun e => e.2.context))
        else .ok (⟨node, some record.topic, record.schemaHash ≠ node.schemaHash⟩,
          Function.update bindings node.nodeId
            (own.set node.computeKey ⟨record.topic, record.codeHash, record.schemaHash, context⟩))
      else .ok (⟨node, none, false⟩, bindings)
  match own.get? node.computeKey with
  | some cached =>
    if cached.codeHash = node.codeHash then
      .ok (⟨node, some cached.topic, cached.schemaHash ≠ node.schemaHash⟩, bindings)
    else renew
  | none => renew

def buildTopicBindingPlan (repo : Repository) (context : ComputeContext) :
    List NodeInfo → (String → Dict String CachedBinding) →
      Except DiffError (List PlanEntry × (String → Dict String CachedBinding))
  | [], bindings => .ok ([], bindings)
  | node :: nodes, bindings => do
    let (entry, bindings) ← planEntry env repo context bindings node
    let (plan, bindings) ← buildTopicBindingPlan repo context nodes bindings
    return (entry :: plan, bindings)

def assetFromTags (tags : List String) : String :=
  let sanitize (tag : String) : String :=
    String.ofList ((env.u.lower.fn tag).toList.filter fun c => env.u.alnum c || c = '_' || c = '-')
  ((tags.filter (· ≠ "")).map sanitize |>.find? (· ≠ "")).getD "asset"

def topicSpec (node : NodeInfo) (version : String) (ns : Option String) : TopicSpec where
  asset := assetFromTags env node.tags
  nodeType := node.nodeType
  nodeId := node.nodeId
  version := version
  legacyCodeHash := node.codeHash
  dryRun := false
  ns := ns

def applyNamespace (broker : Broker) (topic : String) (node : NodeInfo) (version : String)
    (ns : Option String) : Except DiffError (String × Broker) :=
  if ns = none ∨ ns = some "" then .ok (topic, broker)
  else if ensureNamespace env.u topic ns = topic then .ok (topic, broker)
  else broker.upsert env.u (topicSpec env node version ns)

def bindTopic (version : String) (ns : Option String) (broker : Broker) (entry : PlanEntry) :
    Except DiffError (String × Broker) := do
  let (topic, broker) ← match entry.topic with
    | some topic => .ok (topic, broker)
    | none => broker.upsert env.u (topicSpec env entry.node version ns)
  applyNamespace env broker topic entry.node version ns

def partitionKeyFor (node : NodeInfo) : String :=
  partitionKey node.nodeId node.interval node.bucket (some node.computeKey)

/-- The results that `_execute_topic_binding_plan` gathers. -/
structure Bound where
  queueMap : Dict String String
  newNodes : List NodeInfo
  bufferingNodes : List NodeInfo

def executeEntry (version : String) (ns : Option String) (context : ComputeContext) (st : State)
    (out : Bound) (entry : PlanEntry) : Except DiffError (Bound × State) := do
  let (topic, broker) ← bindTopic env version ns st.broker entry
  let node := entry.node
  let binding : CachedBinding := ⟨topic, node.codeHash, node.schemaHash, context⟩
  return (
    { queueMap := out.queueMap.set (partitionKeyFor node) topic
      newNodes := if entry.needsNewQueue then out.newNodes ++ [node] else out.newNodes
      bufferingNodes := if entry.needsBuffering then out.bufferingNodes ++ [node] else out.bufferingNodes },
    { repo := st.repo.addComputeBinding node.nodeId node.computeKey
      broker := broker
      bindings := Function.update st.bindings node.nodeId
        ((st.bindings node.nodeId).set node.computeKey binding) })

def executeTopicBindingPlan (version : String) (ns : Option String) (context : ComputeContext) :
    List PlanEntry → State → Bound → Except DiffError (Bound × State)
  | [], st, out => .ok (out, st)
  | entry :: plan, st, out => do
    let (out, st) ← executeEntry env version ns context st out entry
    executeTopicBindingPlan version ns context plan st out

def hashCompare (nodes : List NodeInfo) (version : String) (context : ComputeContext)
    (ns : Option String) (st : State) : Except DiffError (Bound × State) := do
  let (plan, bindings) ← buildTopicBindingPlan env st.repo context nodes st.bindings
  executeTopicBindingPlan env version ns context plan { st with bindings := bindings } ⟨.empty, [], []⟩

/-! ### The diff -/

structure DiffPlan where
  queueMap : Dict String String
  sentinelId : String
  version : String
  crc32 : ℕ
  newNodes : List NodeInfo
  bufferingNodes : List BufferInstruction

def bufferInstructions (nodes : List NodeInfo) : List BufferInstruction :=
  nodes.map fun n => ⟨n, n.period.getD 0⟩

def buildSentinelId (strategyId : String) : String := strategyId ++ "-sentinel"

def prepareScanned (pre : PreScan) (request : DiffRequest) (st : State) :
    Except DiffError (DiffPlan × State) := do
  let merged := mergeContext env pre.context request
  let (out, st) ← hashCompare env pre.nodes pre.version merged pre.ns st
  let sentinelId := buildSentinelId request.strategyId
  let repo := if pre.sentinelRequested ∧ merged.safeMode = false
    then st.repo.insertSentinel sentinelId (out.newNodes.map (·.nodeId)) else st.repo
  return (
    { queueMap := out.queueMap
      sentinelId := sentinelId
      version := pre.version
      crc32 := crc32OfList (pre.nodes.map (·.nodeId))
      newNodes := out.newNodes
      bufferingNodes := bufferInstructions out.bufferingNodes },
    { st with repo := repo })

def prepareDiff (request : DiffRequest) (st : State) : Except DiffError (DiffPlan × State) := do
  let pre ← preScan env request.dagJson
  prepareScanned env pre request st

structure QueueUpdate where
  tags : List String
  interval : ℤ
  queues : List (String × Bool)
  matchMode : String
  deriving DecidableEq

def publishNewNodeUpdates (bus : Bool) (queueMap : Dict String String) (newNodes : List NodeInfo) :
    List QueueUpdate :=
  if bus then newNodes.filterMap fun node =>
    node.interval.bind fun interval =>
      if node.tags = [] then none
      else
        let queueName := (queueMap.get? node.nodeId).getD ""
        some ⟨node.tags, interval, if queueName = "" then [] else [(queueName, false)], "any"⟩
  else []

end DiffService

end Qmtl.DagManager

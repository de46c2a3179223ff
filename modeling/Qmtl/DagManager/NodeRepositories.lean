import Qmtl.Lib.Dict

/-!
The two node repositories: the graph of `MemoryNodeRepository`, and the Cypher queries of `Neo4jNodeRepository` on
compute nodes and the queues they emit to.
-/

namespace Qmtl.DagManager.Repositories

open Lib

structure NodeRecord where
  nodeId : String
  nodeType : String
  codeHash : String
  schemaHash : String
  schemaCompatId : String
  interval : Option ℤ
  period : Option ℤ
  tags : List String
  bucket : Option ℤ := none
  isGlobal : Bool := false
  computeKeys : List String := []
  topic : String := ""
  deriving DecidableEq

def given : Option String → Option String
  | none | some "" => none
  | some key => some key

def stamp (timestampMs : Option ℤ) (now : ℤ) : ℤ :=
  match timestampMs with
  | none => now
  | some ts => if ts = 0 then now else ts

/-! ### In memory -/

namespace Memory

inductive Kind
  | compute
  | sentinel
  deriving DecidableEq

structure NodeData where
  kind : Option Kind := none
  nodeType : Option String := none
  codeHash : Option String := none
  schemaHash : Option String := none
  schemaCompatId : Option String := none
  schemaId : Option String := none
  interval : Option ℤ := none
  period : Option ℤ := none
  tags : Option (List String) := none
  bucket : Option ℤ := none
  topic : Option String := none
  isGlobal : Option Bool := none
  computeKeys : Option (List String) := none
  bufferingSince : Option ℤ := none
  bufferingSinceCtx : Option (Dict String ℤ) := none

/-- The nodes of the graph, in the order they were added. Its edges are read by nothing here. -/
abbrev Graph := Dict String NodeData

def addAttrs (g : Graph) (nodeId : String) (f : NodeData → NodeData) : Graph :=
  g.set nodeId (f ((g.get? nodeId).getD {}))

def addNode (g : Graph) (r : NodeRecord) : Graph :=
  addAttrs g r.nodeId fun d => { d with
    kind := some .compute
    nodeType := some r.nodeType
    codeHash := some r.codeHash
    schemaHash := some r.schemaHash
    schemaCompatId := some r.schemaCompatId
    interval := r.interval
    period := r.period
    tags := some r.tags
    bucket := r.bucket
    topic := some r.topic
    computeKeys := some r.computeKeys
    isGlobal := some r.isGlobal }

def record (nodeId : String) (d : NodeData) : NodeRecord where
  nodeId := nodeId
  nodeType := d.nodeType.getD ""
  codeHash := d.codeHash.getD ""
  schemaHash := d.schemaHash.getD ""
  schemaCompatId := match d.schemaCompatId with
    | none | some "" => d.schemaId.getD ""
    | some text => text
  interval := d.interval
  period := d.period
  tags := d.tags.getD []
  bucket := d.bucket
  topic := d.topic.getD ""
  isGlobal := d.isGlobal.getD false
  computeKeys := d.computeKeys.getD []

def getNodes (g : Graph) (nodeIds : List String) : Dict String NodeRecord :=
  nodeIds.foldl (fun records nid =>
    match g.get? nid with
    | none => records
    | some d => if d.kind = some .compute then records.set nid (record nid d) else records) .empty

def insertSentinel (g : Graph) (sentinelId : String) (nodeIds : List String) : Graph :=
  nodeIds.foldl (fun g nid => addAttrs g nid id) (addAttrs g sentinelId fun d => { d with kind := some .sentinel })

def matchesTags (tags : List String) (matchMode : String) (nodeTags : List String) : Bool :=
  if tags = [] then true
  else if matchMode = "all" then tags.all (· ∈ nodeTags)
  else tags.any (· ∈ nodeTags)

def getQueuesByTag (g : Graph) (tags : List String) (interval : ℤ) (matchMode : String) : List (String × Bool) :=
  g.values.filterMap fun d =>
    if d.kind ≠ some .compute then none
    else if d.interval ≠ some interval then none
    else if matchesTags tags matchMode (d.tags.getD []) then
      d.topic.map fun topic => (topic, d.isGlobal.getD false)
    else none

def markData (d : NodeData) (computeKey : Option String) (ts : ℤ) : NodeData :=
  match given computeKey with
  | some key => { d with bufferingSinceCtx := some ((d.bufferingSinceCtx.getD .empty).set key ts) }
  | none => { d with bufferingSince := some ts }

def markBuffering (g : Graph) (nodeId : String) (computeKey : Option String) (timestampMs : Option ℤ) (now : ℤ) : Graph :=
  match g.get? nodeId with
  | none => g
  | some d => g.set nodeId (markData d computeKey (stamp timestampMs now))

def clearData (d : NodeData) (computeKey : Option String) : NodeData :=
  match given computeKey with
  | some key =>
    match d.bufferingSinceCtx with
    | none => d
    | some ctx =>
      let ctx := ctx.erase key
      { d with bufferingSinceCtx := if ctx.entries = [] then none else some ctx }
  | none => { d with bufferingSince := none, bufferingSinceCtx := d.bufferingSinceCtx.map fun _ => .empty }

def clearBuffering (g : Graph) (nodeId : String) (computeKey : Option String) : Graph :=
  match g.get? nodeId with
  | none => g
  | some d => g.set nodeId (clearData d computeKey)

def isBuffering (d : NodeData) (olderThanMs : ℤ) (computeKey : Option String) : Bool :=
  match given computeKey with
  | some key => ((d.bufferingSinceCtx.getD .empty).get? key).any (· < olderThanMs)
  | none => ((d.bufferingSinceCtx.getD .empty).values.any (· < olderThanMs)) || d.bufferingSince.any (· < olderThanMs)

def getBufferingNodes (g : Graph) (olderThanMs : ℤ) (computeKey : Option String) : List String :=
  (g.entries.filter fun e => isBuffering e.2 olderThanMs computeKey).map (·.1)

def addComputeBinding (g : Graph) (nodeId computeKey : String) : Graph :=
  if computeKey = "" then g
  else match g.get? nodeId with
    | none => g.set nodeId { kind := some .compute, computeKeys := some [computeKey] }
    | some d =>
      match d.computeKeys with
      | some keys =>
        if computeKey ∈ keys then g else g.set nodeId { d with computeKeys := some (keys ++ [computeKey]) }
      | none => g.set nodeId { d with computeKeys := some [computeKey] }

end Memory

/-! ### Neo4j -/

namespace Neo4j

structure Queue where
  topic : String
  interval : Option ℤ

structure ComputeNode where
  nodeType : String
  codeHash : String
  schemaHash : String
  schemaCompatId : Option String
  schemaId : Option String := none
  period : Option ℤ
  tags : List String
  isGlobal : Option Bool
  computeKeys : Option (List String)
  bufferingSince : Option ℤ := none
  emits : List Queue

/-- The compute nodes by `node_id`, which a constraint keeps unique. Sentinels are read by nothing here. -/
abbrev Store := Dict String ComputeNode

def addNode (s : Store) (r : NodeRecord) : Store :=
  s.set r.nodeId {
    nodeType := r.nodeType
    codeHash := r.codeHash
    schemaHash := r.schemaHash
    schemaCompatId := some r.schemaCompatId
    period := r.period
    tags := r.tags
    isGlobal := some r.isGlobal
    computeKeys := some r.computeKeys
    emits := [⟨r.topic, r.interval⟩] }

def emitting (s : Store) : List (String × ComputeNode × Queue) :=
  s.entries.flatMap fun e => e.2.emits.map fun q => (e.1, e.2, q)

def record (nodeId : String) (c : ComputeNode) (q : Queue) : NodeRecord where
  nodeId := nodeId
  nodeType := c.nodeType
  codeHash := c.codeHash
  schemaHash := c.schemaHash
  schemaCompatId := (c.schemaCompatId.or c.schemaId).getD ""
  interval := q.interval
  period := c.period
  tags := c.tags
  topic := q.topic
  isGlobal := false
  computeKeys := c.computeKeys.getD []

def getNodes (s : Store) (nodeIds : List String) : Dict String NodeRecord :=
  if nodeIds = [] then .empty
  else ((emitting s).filter fun row => row.1 ∈ nodeIds).foldl
    (fun records row => records.set row.1 (record row.1 row.2.1 row.2.2)) .empty

def insertSentinel (s : Store) (_sentinelId : String) (_nodeIds : List String) : Store := s

def matchesTags (tags : List String) (matchMode : String) (nodeTags : List String) : Bool :=
  if matchMode = "all" then tags.all (· ∈ nodeTags) else nodeTags.any (· ∈ tags)

def getQueuesByTag (s : Store) (tags : List String) (interval : ℤ) (matchMode : String) : List (String × Bool) :=
  if tags = [] then []
  else (emitting s).filterMap fun row =>
    if matchesTags tags matchMode row.2.1.tags && row.2.2.interval = some interval then
      some (row.2.2.topic, row.2.1.isGlobal.getD false)
    else none

def setNode (s : Store) (nodeId : String) (f : ComputeNode → ComputeNode) : Store :=
  match s.get? nodeId with
  | none => s
  | some c => s.set nodeId (f c)

def markBuffering (s : Store) (nodeId : String) (_computeKey : Option String) (timestampMs : Option ℤ) (now : ℤ) : Store :=
  setNode s nodeId fun c => { c with bufferingSince := c.bufferingSince.or (some (stamp timestampMs now)) }

def clearBuffering (s : Store) (nodeId : String) (_computeKey : Option String) : Store :=
  setNode s nodeId fun c => { c with bufferingSince := none }

def getBufferingNodes (s : Store) (olderThanMs : ℤ) (_computeKey : Option String) : List String :=
  (s.entries.filter fun e => e.2.bufferingSince.any (· < olderThanMs)).map (·.1)

def addComputeBinding (s : Store) (nodeId computeKey : String) : Store :=
  if computeKey = "" then s
  else setNode s nodeId fun c => { c with
    computeKeys := match c.computeKeys with
      | none => some [computeKey]
      | some keys => if computeKey ∈ keys then some keys else some (keys ++ [computeKey]) }

end Neo4j

/-! ### Operations and queries -/

inductive Op
  | markBuffering (nodeId : String) (computeKey : Option String) (timestampMs : Option ℤ) (now : ℤ)
  | clearBuffering (nodeId : String) (computeKey : Option String)
  | addComputeBinding (nodeId computeKey : String)
  | insertSentinel (sentinelId : String) (nodeIds : List String) (version : String)

def Op.memory (g : Memory.Graph) : Op → Memory.Graph
  | .markBuffering nodeId computeKey timestampMs now => Memory.markBuffering g nodeId computeKey timestampMs now
  | .clearBuffering nodeId computeKey => Memory.clearBuffering g nodeId computeKey
  | .addComputeBinding nodeId computeKey => Memory.addComputeBinding g nodeId computeKey
  | .insertSentinel sentinelId nodeIds _ => Memory.insertSentinel g sentinelId nodeIds

def Op.neo4j (s : Neo4j.Store) : Op → Neo4j.Store
  | .markBuffering nodeId computeKey timestampMs now => Neo4j.markBuffering s nodeId computeKey timestampMs now
  | .clearBuffering nodeId computeKey => Neo4j.clearBuffering s nodeId computeKey
  | .addComputeBinding nodeId computeKey => Neo4j.addComputeBinding s nodeId computeKey
  | .insertSentinel sentinelId nodeIds _ => Neo4j.insertSentinel s sentinelId nodeIds

inductive Query
  | bufferingNodes (olderThanMs : ℤ) (computeKey : Option String)
  | nodes (nodeIds : List String)
  | queuesByTag (tags : List String) (interval : ℤ) (matchMode : String)

/-- Both repositories answer the same. Records are compared as dicts, and rows up to their order. -/
def Query.Same (g : Memory.Graph) (s : Neo4j.Store) : Query → Prop
  | .bufferingNodes olderThanMs computeKey =>
    (Memory.getBufferingNodes g olderThanMs computeKey).Perm (Neo4j.getBufferingNodes s olderThanMs computeKey)
  | .nodes nodeIds => ∀ nid, (Memory.getNodes g nodeIds).get? nid = (Neo4j.getNodes s nodeIds).get? nid
  | .queuesByTag tags interval matchMode =>
    (Memory.getQueuesByTag g tags interval matchMode).Perm (Neo4j.getQueuesByTag s tags interval matchMode)

def memoryOf (records : List NodeRecord) : Memory.Graph := records.foldl Memory.addNode .empty

def neo4jOf (records : List NodeRecord) : Neo4j.Store := records.foldl Neo4j.addNode .empty

end Qmtl.DagManager.Repositories

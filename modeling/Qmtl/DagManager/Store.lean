import Qmtl.DagManager.Dag

/-! Topic names: the namespace of a world and a domain, and `topic_name`, which looks for a topic named
after the code hash and else makes a new name from the node's digest. -/

namespace Qmtl.DagManager

open Lib Foundation

section

variable (u : Unicode)

/-! ### Namespaces -/

def sanitizeChar (c : Char) : List Char :=
  if u.alnum c then (u.lower.fn (String.ofList [c])).toList
  else if c = '-' || c = '_' then [c]
  else ['-']

def sanitizeSegment (value : String) : String :=
  String.ofList (stripChars (fun c => c = '-' || c = '_') ((strip value).toList.flatMap (sanitizeChar u)))

def sanitizeNamespaceSegment : Value → String
  | .str s => sanitizeSegment u s
  | _ => ""

def buildNamespace (world domain : Value) : Option String :=
  let worldPart := sanitizeNamespaceSegment u world
  let domainPart := sanitizeNamespaceSegment u domain
  if worldPart = "" ∨ domainPart = "" then none else some (worldPart ++ "." ++ domainPart)

def sanitizeNamespace (value : String) : Option String :=
  let filtered := ((Lib.splitAt (· = '.') value).map (sanitizeSegment u)).filter (· ≠ "")
  if filtered = [] then none else some (Lib.join "." filtered)

def normalizeNamespace : TopicNamespace → Option String
  | .none => none
  | .str s => sanitizeNamespace u s
  | .mapping o =>
    buildNamespace u ((o "world").or (o "world_id")) ((o "domain").or (o "execution_domain"))
  | .other => none

def startsWith (pre s : String) : Bool := pre.toList.isPrefixOf s.toList

def namespacePrefix (ns : Option String) : Option String :=
  (ns.bind (sanitizeNamespace u)).map (· ++ ".")

def ensureNamespace (topic : String) (ns : Option String) : String :=
  match namespacePrefix u ns with
  | none => topic
  | some pre => if startsWith pre topic then topic else pre ++ topic

/-! ### Names -/

def nodeIdDigest (nodeId : String) : String :=
  let cs := nodeId.toList
  let pre := cs.takeWhile (· ≠ ':')
  let rest := (cs.drop pre.length).drop 1
  if u.lower.fn (String.ofList pre) = "blake3" ∧ rest ≠ [] then String.ofList rest else nodeId

def growing (start limit : ℕ) : List ℕ := (List.range ((limit + 2 - start) / 2)).map fun i => start + 2 * i

def takeText (n : ℕ) (s : String) : String := String.ofList (s.toList.take n)

structure TopicSpec where
  asset : String
  nodeType : String
  nodeId : String
  version : String
  legacyCodeHash : String
  dryRun : Bool
  ns : Option String

namespace TopicSpec

variable (t : TopicSpec)

def base (hash : String) : String :=
  t.asset ++ "_" ++ t.nodeType ++ "_" ++ hash ++ "_" ++ t.version ++ (if t.dryRun then "_sim" else "")

def legacyBases : List String :=
  if t.legacyCodeHash = "" then []
  else (growing 6 t.legacyCodeHash.length).map (fun n => t.base (takeText n t.legacyCodeHash)) ++
    [t.base t.legacyCodeHash]

def candidates (base : String) : List String :=
  let namespaced := ensureNamespace u base t.ns
  if namespaced ≠ base then [namespaced, base] else [namespaced]

def legacyMatch (taken : List String) : Option String :=
  (t.legacyBases.flatMap (t.candidates u)).find? (· ∈ taken)

def digestName (n : ℕ) : String := ensureNamespace u (t.base (takeText n (nodeIdDigest u t.nodeId))) t.ns

def digestNames : List String := (growing 8 (nodeIdDigest u t.nodeId).length).map (t.digestName u)

def numberedNames : List String :=
  let full := ensureNamespace u (t.base (nodeIdDigest u t.nodeId)) t.ns
  full :: (List.range 9999).map fun n => full ++ "-" ++ toString (n + 1)

def freshName (taken : List String) : Option String :=
  ((t.digestNames u).find? (· ∉ taken)).or ((t.numberedNames u).find? (· ∉ taken))

end TopicSpec

def topicName (t : TopicSpec) (taken : List String) : Except DiffError String :=
  match t.legacyMatch u taken with
  | some name => .ok name
  | none =>
    match t.freshName u taken with
    | some name => .ok name
    | none => .error (.runtimeError "unable to generate unique topic name after 10k attempts")

end

/-! ### The node repository -/

inductive Kind where
  | compute | sentinel
  deriving DecidableEq, Repr

structure GraphNode where
  kind : Option Kind := none
  codeHash : Option String := none
  schemaHash : Option String := none
  topic : Option String := none
  computeKeys : List String := []
  deriving DecidableEq

/-- `MemoryNodeRepository`: the nodes of its graph by their ids. -/
abbrev Repository := String → Option GraphNode

structure NodeRecord where
  codeHash : String
  schemaHash : String
  topic : String
  computeKeys : List String

namespace Repository

variable (r : Repository)

def getNode (id : String) : Option NodeRecord :=
  (r id).bind fun n =>
    if n.kind = some .compute then
      some ⟨n.codeHash.getD "", n.schemaHash.getD "", n.topic.getD "", n.computeKeys⟩
    else none

def addComputeBinding (id computeKey : String) : Repository :=
  if computeKey = "" then r
  else match r id with
    | none => Function.update r id (some { kind := some .compute, computeKeys := [computeKey] })
    | some n =>
      if computeKey ∈ n.computeKeys then r
      else Function.update r id (some { n with computeKeys := n.computeKeys ++ [computeKey] })

def insertSentinel (sentinelId : String) (ids : List String) : Repository :=
  ids.foldl (fun r id => if (r id).isSome then r else Function.update r id (some {}))
    (Function.update r sentinelId (some { (r sentinelId).getD {} with kind := some .sentinel }))

end Repository

/-! ### The broker -/

structure TopicConfig where
  partitions : ℕ
  replicationFactor : ℕ
  retentionMs : ℕ
  cleanupPolicy : Option (List String)
  deriving DecidableEq

def topicConfig (u : Unicode) (nodeType : String) : TopicConfig :=
  let nt := (u.lower.fn nodeType).toList
  let has (k : String) : Bool := k.toList <:+: nt
  let day := 24 * 60 * 60 * 1000
  if has "exec" || has "trade" || has "order" || has "portfolio" then ⟨1, 3, 90 * day, none⟩
  else if has "raw" || has "price" || has "ohlcv" then ⟨3, 3, 7 * day, none⟩
  else ⟨1, 2, 30 * day, some ["delete"]⟩

/-- What the broker tells of a topic; a value it does not report is `none`. -/
structure TopicInfo where
  partitions : Option ℕ
  replicationFactor : Option ℕ
  retentionMs : Option ℕ
  cleanupPolicy : Option (List String)
  deriving DecidableEq

structure Broker where
  topics : Dict String TopicInfo
  breakerOpen : Bool

namespace Broker

variable (u : Unicode) (b : Broker)

def validateMetadata (name : String) (info : TopicInfo) (config : TopicConfig) : Except DiffError Unit :=
  if info.partitions.any (· ≠ config.partitions) then
    .error (.topicExists ("partition mismatch for topic '" ++ name ++ "'"))
  else if info.replicationFactor.any (· ≠ config.replicationFactor) then
    .error (.topicExists ("replication mismatch for topic '" ++ name ++ "'"))
  else if info.retentionMs.any (· ≠ config.retentionMs) then
    .error (.topicExists ("retention mismatch for topic '" ++ name ++ "'"))
  else if config.cleanupPolicy.isSome ∧
      (if info.cleanupPolicy = none ∧ config.cleanupPolicy = some ["delete"] then some ["delete"]
        else info.cleanupPolicy) ≠ config.cleanupPolicy then
    .error (.topicExists ("cleanup policy mismatch for topic '" ++ name ++ "'"))
  else .ok ()

def verifyTopic (name : String) (info : TopicInfo) (config : TopicConfig) : Except DiffError Unit :=
  if b.topics.keys.any fun existing => u.lower.fn existing = u.lower.fn name ∧ existing ≠ name then
    .error (.topicExists ("name collision for topic '" ++ name ++ "'"))
  else validateMetadata name info config

def createTopicIfNeeded (name : String) (config : TopicConfig) : Except DiffError Broker :=
  if b.breakerOpen then .error (.runtimeError "circuit open")
  else
    let made : TopicInfo :=
      ⟨some config.partitions, some config.replicationFactor, some config.retentionMs, config.cleanupPolicy⟩
    let info := (b.topics.get? name).getD made
    let b' := if (b.topics.get? name).isSome then b else { b with topics := b.topics.set name made }
    (b'.verifyTopic u name info config).map fun _ => b'

def upsert (t : TopicSpec) : Except DiffError (String × Broker) := do
  let topic ← topicName u t b.topics.keys
  let b' ← b.createTopicIfNeeded u topic (topicConfig u t.nodeType)
  return (topic, b')

end Broker

end Qmtl.DagManager

import Qmtl.DagManager.DiffPlan
import Qmtl.Gateway.DiffExecutor

/-! The CRC handshake: the gateway expects the CRC over the node ids of the payload in their order, and the
DAG manager sends the CRC over the ids it has scanned, without sentinels, each once, in topological
order. A node is read as the fields that the DAG manager parses, with the text of its parameters a parameter;
`Foundation.NodeValidation` has the validation of whole payloads. -/

namespace Qmtl.Gateway

open Lib Foundation DagManager DagManager.DiffService

/-! ### Validation of node identities -/

structure Identity where
  blake3 : String → String
  paramsBlob : DagNode → String
  missingTagquery : DagNode → List String

def sortedDeps (n : DagNode) : List String :=
  ((if n.inputs ≠ [] then n.inputs else n.dependencies).filter (· ≠ "")).mergeSort (· ≤ ·)

def serializeNodespec (ident : Identity) (n : DagNode) : String :=
  Lib.join "|" [n.nodeType, toString (n.interval.getD 0), toString (n.period.getD 0), ident.paramsBlob n,
    Lib.join "," (sortedDeps n), (normalizeSchemaCompatId n.schemaCompatId n.schemaId).toOption.getD "",
    n.codeHash.getD ""]

def computeNodeId (ident : Identity) (n : DagNode) : String := "blake3:" ++ ident.blake3 (serializeNodespec ident n)

/-- A finding about one node, which is told by its index. -/
inductive NodeIssue where
  | missingField (index : ℕ) (missing : List String) (nodeId : Option String)
  | schemaConflict (index : ℕ) (schemaCompatId schemaId : String) (nodeId : String)
  | mismatch (index : ℕ) (nodeId expected : String)

def missingRequired (n : DagNode) (compat : String) : List String :=
  let lacks (name : String) (v : Option String) : List String := if v = none ∨ v = some "" then [name] else []
  lacks "node_type" (some n.nodeType) ++ lacks "code_hash" n.codeHash ++ lacks "config_hash" n.configHash ++
    lacks "schema_hash" n.schemaHash ++ (if compat = "" then lacks "schema_compat_id" n.schemaCompatId else [])

def inspectNode (ident : Identity) (index : ℕ) (n : DagNode) : Option NodeIssue :=
  match n.nodeId.bind ComputeContext.orNone with
  | none => some (.missingField index ["node_id"] none)
  | some nodeId =>
    match normalizeSchemaCompatId n.schemaCompatId n.schemaId with
    | .error _ => some (.schemaConflict index (n.schemaCompatId.getD "") (n.schemaId.getD "") nodeId)
    | .ok compat =>
      let missing := missingRequired n compat ++
        if n.nodeType = "TagQueryNode" then ident.missingTagquery n else []
      if missing ≠ [] then some (.missingField index missing.dedup (some nodeId))
      else if nodeId ≠ computeNodeId ident n then some (.mismatch index nodeId (computeNodeId ident n))
      else none

structure NodeValidationReport where
  providedChecksum : ℤ
  computedChecksum : ℕ
  nodeIds : List String
  issues : List NodeIssue

def payloadIds (dag : Dag) : List String := (dag.nodes.filterMap id).map fun n => n.nodeId.getD ""

def validateNodeIdentity (ident : Identity) (dag : Dag) (provided : ℤ) : NodeValidationReport where
  providedChecksum := provided
  computedChecksum := crc32OfList (payloadIds dag)
  nodeIds := payloadIds dag
  issues := dag.nodes.zipIdx.filterMap fun p => p.1.bind (inspectNode ident p.2)

inductive NodeValidationError where
  | missingFields | schemaConflict | checksumMismatch | identityMismatch
  deriving DecidableEq

def NodeValidationError.code : NodeValidationError → String
  | .missingFields => "E_NODE_ID_FIELDS"
  | .schemaConflict => "E_SCHEMA_COMPAT_MISMATCH"
  | .checksumMismatch => "E_CHECKSUM_MISMATCH"
  | .identityMismatch => "E_NODE_ID_MISMATCH"

def validate (ident : Identity) (dag : Dag) (provided : ℤ) : Except NodeValidationError NodeValidationReport :=
  let report := validateNodeIdentity ident dag provided
  let missing := report.issues.any fun i => match i with
    | .missingField _ _ _ => true
    | _ => false
  let conflict := report.issues.any fun i => match i with
    | .schemaConflict _ _ _ _ => true
    | _ => false
  if missing then .error .missingFields
  else if conflict then .error .schemaConflict
  else if report.providedChecksum ≠ report.computedChecksum then .error .checksumMismatch
  else if report.issues ≠ [] then .error .identityMismatch
  else .ok report

/-! ### The two lists of ids -/

/-- No sentinel, no id twice, and the nodes are listed breadth-first if they can be ordered. -/
structure ListedBreadthFirst (dag : Dag) : Prop where
  noSentinel : sentinels dag = []
  nodup : (payloadIds dag).Nodup
  order : Kahn.Orderable (inputsOf (nodeMap dag)) → Kahn.BreadthFirst (inputsOf (nodeMap dag))

variable {dag : Dag} {ident : Identity} {report : NodeValidationReport} {provided : ℤ}

lemma validate_ok (h : validate ident dag provided = .ok report) :
    report = validateNodeIdentity ident dag provided ∧ report.issues = [] := by
  unfold validate at h
  dsimp only at h
  repeat' split at h
  all_goals try cases h
  rename_i hiss
  exact ⟨rfl, by simpa using hiss⟩

lemma accepted_ids (h : (validateNodeIdentity ident dag provided).issues = []) :
    ∀ n ∈ dag.nodes.filterMap id, ∃ nodeId, n.nodeId = some nodeId := by
  intro n hn
  have hmem : some n ∈ dag.nodes := by simpa using hn
  obtain ⟨i, hi, hget⟩ := List.getElem_of_mem hmem
  have hzip : (some n, i) ∈ dag.nodes.zipIdx := by
    rw [List.mem_zipIdx_iff_getElem?, ← hget]
    exact List.getElem?_eq_getElem hi
  have hnn : (some n : Option DagNode).bind (inspectNode ident i) = none := List.filterMap_eq_nil_iff.mp h _ hzip
  cases hid : n.nodeId with
  | none =>
    rw [Option.bind_some, inspectNode, hid] at hnn
    cases hnn
  | some nodeId => exact ⟨nodeId, rfl⟩

def idPairs (dag : Dag) : List (String × DagNode) :=
  (filteredNodes dag).filterMap fun n => n.nodeId.map fun id => (id, n)

lemma keys_inputsOf (nodes : Dict String DagNode) : (inputsOf nodes).keys = nodes.keys := by
  simp [inputsOf, Dict.keys, Dict.mapValues]

lemma length_payloadIds (dag : Dag) :
    (payloadIds dag).length = (filteredNodes dag).length + (sentinels dag).length := by
  unfold payloadIds filteredNodes sentinels
  rw [List.length_map, List.length_eq_length_filter_add isSentinel, Nat.add_comm]

lemma map_fst_idPairs
    (hids : ∀ n ∈ dag.nodes.filterMap id, ∃ nodeId, n.nodeId = some nodeId) (h : sentinels dag = []) :
    (idPairs dag).map Prod.fst = payloadIds dag := by
  have hall : filteredNodes dag = dag.nodes.filterMap id := by
    unfold filteredNodes
    rw [List.filter_eq_self]
    intro n hn
    by_contra hs
    have hmem : n ∈ sentinels dag := List.mem_filter.mpr ⟨hn, by simpa using hs⟩
    rw [h] at hmem
    cases hmem
  unfold idPairs payloadIds
  rw [hall]
  generalize dag.nodes.filterMap id = nodes at hids
  induction nodes with
  | nil => rfl
  | cons n ns ih =>
    obtain ⟨nodeId, hid⟩ := hids n (by simp)
    rw [List.filterMap_cons_some (by rw [hid]; rfl), List.map_cons, List.map_cons,
      ih fun n hn => hids n (by simp [hn]), hid]
    rfl

/-- **The hashed lists are the same** exactly for a payload that is listed breadth-first. -/
theorem order_eq_payloadIds_iff (hids : ∀ n ∈ dag.nodes.filterMap id, ∃ nodeId, n.nodeId = some nodeId) :
    topologicallyOrderNodes (nodeMap dag) = payloadIds dag ↔ ListedBreadthFirst dag := by
  have hkeys : sentinels dag = [] → (payloadIds dag).Nodup → (inputsOf (nodeMap dag)).keys = payloadIds dag := by
    intro hs hn
    have hfst := map_fst_idPairs hids hs
    have hen : (nodeMap dag).entries = idPairs dag := Dict.entries_ofList (hfst ▸ hn)
    rw [keys_inputsOf, Dict.keys, hen, hfst]
  constructor
  · intro h
    have hp : (payloadIds dag).Perm (inputsOf (nodeMap dag)).keys := h ▸ Kahn.order_perm _
    have hnd : (payloadIds dag).Nodup := h ▸ Kahn.order_nodup _
    -- a sentinel is hashed by the gateway only, so the lengths tell that there is none
    have hnn : sentinels dag = [] := by
      have hlen := hp.length_eq
      rw [keys_inputsOf] at hlen
      have hle : (nodeMap dag).keys.length ≤ (idPairs dag).length := Dict.length_keys_ofList_le _
      have hle' : (idPairs dag).length ≤ (filteredNodes dag).length := List.length_filterMap_le _ _
      have ht := length_payloadIds dag
      exact List.length_eq_zero_iff.mp (by omega)
    refine ⟨hnn, hnd, ?_⟩
    rw [← Kahn.order_eq_keys, hkeys hnn hnd]
    exact h
  · intro h
    have hor := Kahn.order_eq_keys.mpr h.order
    rw [hkeys h.noSentinel h.nodup] at hor
    exact hor

/-! ### The handshake -/

def collected (plan : DiffPlan) : DiffChunk := ⟨plan.queueMap, plan.sentinelId, some plan.crc32⟩

/-- **The handshake agrees** for an accepted payload that is listed breadth-first: then, and only then,
both sides hash the same list of ids, and the check of the CRC passes. -/
theorem crc_handshake_agrees {env : DagManager.Env} {request : DiffRequest} {st : State} {r : DiffPlan × State}
    (haccepted : validate ident dag provided = .ok report) (hload : env.loads request.dagJson = some dag)
    (hdiff : prepareDiff env request st = .ok r) :
    (ListedBreadthFirst dag ↔ topologicallyOrderNodes (nodeMap dag) = report.nodeIds) ∧
    (ListedBreadthFirst dag → ensureCrc (collected r.1) (some report.computedChecksum) = .ok ()) := by
  obtain ⟨rfl, hissues⟩ := validate_ok haccepted
  have hiff := order_eq_payloadIds_iff (accepted_ids hissues)
  refine ⟨hiff.symm, ?_⟩
  intro hlisted
  obtain ⟨dag', pre, entries, bindings, out, st₁, hload', hscan, -, -, -, -, hcrc, -⟩ :=
    prepareDiff_ok (show prepareDiff env request st = .ok (r.1, r.2) from hdiff)
  obtain rfl : dag = dag' := Option.some.inj (hload.symm.trans hload')
  have hids : pre.nodes.map (·.nodeId) = payloadIds dag := hscan.ids.trans (hiff.mpr hlisted)
  have hsame : r.1.crc32 = crc32OfList (payloadIds dag) := by rw [hcrc, hids]
  show (if r.1.crc32 = crc32OfList (payloadIds dag) then _ else _) = _
  rw [if_pos hsame]

def parentId : String := "blake3:95905c76057e56ccc4987f760c165a3bc23711a745e26a1fcf844c3dcf4e026d"
def childId : String := "blake3:d3141f8ec3c7ac11162607959637f9be5c4090b2765346a3408691c0454a0ec2"

def parentNode : DagNode :=
  { nodeId := some parentId, nodeType := "ComputeNode", codeHash := some "c1", configHash := some "g1"
    schemaHash := some "h1", schemaCompatId := some "s1", interval := some 60, period := some 1 }

def childNode : DagNode :=
  { parentNode with nodeId := some childId, codeHash := some "c2", inputs := [parentId] }

def pairIdentity : Identity where
  blake3 s := if s = "ComputeNode|60|1|null||s1|c1"
    then "95905c76057e56ccc4987f760c165a3bc23711a745e26a1fcf844c3dcf4e026d"
    else "d3141f8ec3c7ac11162607959637f9be5c4090b2765346a3408691c0454a0ec2"
  paramsBlob _ := "null"
  missingTagquery _ := []

def pairEnv (nodes : List DagNode) : DagManager.Env where
  u := Unicode.ascii
  blake3 := pairIdentity.blake3
  loads _ := some { nodes := nodes.map some }
  namespaceEnabled := true

/-- With the node before its reader, both sides hash the same list. -/
theorem crc_handshake_agrees_parent_first :
    ∃ report r, validate pairIdentity { nodes := [some parentNode, some childNode] } 2980784951 = .ok report ∧
      prepareDiff (pairEnv [parentNode, childNode]) { strategyId := "s", dagJson := "" } State.empty = .ok r ∧
      ListedBreadthFirst { nodes := [some parentNode, some childNode] } ∧
      ensureCrc (collected r.1) (some report.computedChecksum) = .ok () := by
  obtain ⟨report, hacc, hids⟩ := exists_ok
    (x := validate pairIdentity { nodes := [some parentNode, some childNode] } 2980784951)
    (fun report => topologicallyOrderNodes (nodeMap { nodes := [some parentNode, some childNode] }) =
      report.nodeIds) (by decide +kernel)
  obtain ⟨r, hdiff, -⟩ := exists_ok
    (x := prepareDiff (pairEnv [parentNode, childNode]) { strategyId := "s", dagJson := "" } State.empty)
    (fun _ => true) (by decide +kernel)
  have h := crc_handshake_agrees hacc rfl hdiff
  have hlisted := h.1.mpr (of_decide_eq_true hids)
  exact ⟨report, r, hacc, hdiff, hlisted, h.2 hlisted⟩

/-- With the reader before its node, the payload is accepted and its diff is rejected. -/
theorem crc_handshake_rejects_child_first :
    ∃ report r, validate pairIdentity { nodes := [some childNode, some parentNode] } 4203261298 = .ok report ∧
      prepareDiff (pairEnv [childNode, parentNode]) { strategyId := "s", dagJson := "" } State.empty = .ok r ∧
      ensureCrc (collected r.1) (some report.computedChecksum) =
        .error (.valueError "diff chunk CRC32 mismatch") := by
  obtain ⟨report, hacc, hsum⟩ := exists_ok
    (x := validate pairIdentity { nodes := [some childNode, some parentNode] } 4203261298)
    (fun report => report.computedChecksum = 4203261298) (by decide +kernel)
  obtain ⟨r, hdiff, hcrc⟩ := exists_ok
    (x := prepareDiff (pairEnv [childNode, parentNode]) { strategyId := "s", dagJson := "" } State.empty)
    (fun r => r.1.crc32 = 2980784951) (by decide +kernel)
  have hsum : report.computedChecksum = 4203261298 := of_decide_eq_true hsum
  have hcrc : r.1.crc32 = 2980784951 := of_decide_eq_true hcrc
  refine ⟨report, r, hacc, hdiff, ?_⟩
  unfold ensureCrc collected
  simp [hsum, hcrc]

end Qmtl.Gateway

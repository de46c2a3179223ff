import Qmtl.Foundation.NodeSpec

/-! The identities of submitted nodes: `node_validation.py`. -/

namespace Qmtl.Foundation.NodeValidation

open Lib Foundation

/-! ### The report -/

def requiredNodeFields : List String := ["node_type", "code_hash", "config_hash", "schema_hash", "schema_compat_id"]

structure MissingNodeField where
  index : ℕ
  missing : List String
  nodeId : Option String

structure NodeIdentityMismatch where
  index : ℕ
  nodeId : String
  expected : String

structure SchemaCompatConflict where
  index : ℕ
  schemaCompatId : String
  schemaId : String
  nodeId : Option String

structure NodeValidationReport where
  providedChecksum : ℤ
  computedChecksum : ℕ
  nodeIds : List String
  missingFields : List MissingNodeField
  mismatches : List NodeIdentityMismatch
  schemaConflicts : List SchemaCompatConflict

namespace NodeValidationReport

def checksumValid (r : NodeValidationReport) : Bool := r.providedChecksum = r.computedChecksum

def isValid (r : NodeValidationReport) : Bool :=
  r.missingFields.isEmpty && r.schemaConflicts.isEmpty && r.checksumValid && r.mismatches.isEmpty

end NodeValidationReport

/-! ### One node -/

section

variable (B : Builtins) (digest : ByteArray → String)

def computeNodeId (node : Payload) : Except Raised String := do
  return "blake3:" ++ digest (← serializeNodespec B (.mapping node))

def contains (text part : String) : Bool := text.toList.tails.any part.toList.isPrefixOf

def missingTagqueryRequirements (node : Payload) : Except Raised (List String) :=
  match canonicalTagQueryParamsFromNode B node true true with
  | .ok _ => .ok []
  -- the `ValueError`s of a tag query come with a text of their own
  | .error (.invalid message) =>
    let text := B.lower.fn message
    .ok ((if contains text "tag" then ["tags"] else []) ++ if contains text "interval" then ["interval"] else [])
  | .error e => .error e

def nodeTypeOf (node : Payload) : String := textOr B (node.get "node_type")

def nodeIdOf (node : Payload) : Option String :=
  match node.get "node_id" with
  | .str id => if id = "" then none else some id
  | _ => none

def schemaCompatIdOf (node : Payload) : Except Raised String :=
  normalizeSchemaCompatId B (node.get "schema_compat_id") (node.get "schema_id")

def missingRequired (requiredFields : List String) (node : Payload) (compat : String) : List String :=
  let missing := requiredFields.filter fun field => !(node.get field).truthy
  if "schema_compat_id" ∈ missing ∧ compat ≠ "" then missing.erase "schema_compat_id" else missing

def missingList (requiredFields : List String) (node : Payload) (compat : String) : Except Raised (List String) := do
  let missing := missingRequired requiredFields node compat
  if nodeTypeOf B node = "TagQueryNode" then return missing ++ (← missingTagqueryRequirements B node)
  else return missing

/-- What the loop gathers. -/
structure Findings where
  nodeIds : List String
  missingFields : List MissingNodeField
  mismatches : List NodeIdentityMismatch
  schemaConflicts : List SchemaCompatConflict

/-- The findings about one node. -/
inductive Finding where
  | missing (field : MissingNodeField)
  | conflict (conflict : SchemaCompatConflict)
  | mismatch (mismatch : NodeIdentityMismatch)

def inspectNode (requiredFields : List String) (index : ℕ) (node : Payload) : Except Raised (Option Finding) :=
  match nodeIdOf node with
  | none => .ok (some (.missing ⟨index, ["node_id"], none⟩))
  | some nodeId =>
    match schemaCompatIdOf B node with
    | .error _ => .ok (some (.conflict ⟨index, textOr B (node.get "schema_compat_id"),
        textOr B (node.get "schema_id"), some nodeId⟩))
    | .ok compat => do
      let missing ← missingList B requiredFields node compat
      if missing ≠ [] then return some (.missing ⟨index, missing.eraseDups, some nodeId⟩)
      else
        let expected ← computeNodeId B digest node
        return if nodeId ≠ expected then some (.mismatch ⟨index, nodeId, expected⟩) else none

def crcId (node : Payload) : String := textOr B (node.get "node_id")

namespace Findings

def empty : Findings := ⟨[], [], [], []⟩

def addId (out : Findings) (id : String) : Findings := { out with nodeIds := out.nodeIds ++ [id] }

def add (out : Findings) : Option Finding → Findings
  | none => out
  | some (.missing f) => { out with missingFields := out.missingFields ++ [f] }
  | some (.conflict c) => { out with schemaConflicts := out.schemaConflicts ++ [c] }
  | some (.mismatch m) => { out with mismatches := out.mismatches ++ [m] }

def clean (out : Findings) : Bool :=
  out.missingFields.isEmpty && out.schemaConflicts.isEmpty && out.mismatches.isEmpty

end Findings

def inspectNodes (requiredFields : List String) : ℕ → List (Option Payload) → Findings → Except Raised Findings
  | _, [], out => .ok out
  | index, none :: nodes, out => inspectNodes requiredFields (index + 1) nodes out
  | index, some node :: nodes, out => do
    let finding ← inspectNode B digest requiredFields index node
    inspectNodes requiredFields (index + 1) nodes ((out.addId (crcId B node)).add finding)

def validateNodeIdentity (requiredFields : List String) (nodes : List (Option Payload)) (provided : ℤ) :
    Except Raised NodeValidationReport := do
  let out ← inspectNodes B digest requiredFields 0 nodes .empty
  return {
    providedChecksum := provided
    computedChecksum := crc32OfList out.nodeIds
    nodeIds := out.nodeIds
    missingFields := out.missingFields
    mismatches := out.mismatches
    schemaConflicts := out.schemaConflicts }

end

end Qmtl.Foundation.NodeValidation

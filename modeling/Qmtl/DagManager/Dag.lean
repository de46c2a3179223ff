import Qmtl.Foundation.ComputeContext
import Qmtl.Foundation.Keys
import Qmtl.Lib.Dict

/-! The DAG of a submission as the DAG manager reads it, and the requests it comes with. -/

namespace Qmtl.DagManager

open Lib Foundation

/-- The tables behind `str.lower` and `str.isalnum`, as far as their callers rely on them: a letter or
digit goes to a text that begins with one and has no full stop in it. -/
structure Unicode where
  lower : Lower
  alnum : Char → Bool
  onAscii : ∀ c : Char, c.toNat < 128 → alnum c = c.isAlphanum
  lowerAlnum : ∀ c, alnum c = true →
    ∃ d ds, (lower.fn (String.ofList [c])).toList = d :: ds ∧ alnum d = true
  lowerNoDot : ∀ c, alnum c = true → '.' ∉ (lower.fn (String.ofList [c])).toList

/-- The tables for ASCII texts. -/
def Unicode.ascii : Unicode where
  lower := Lower.ascii
  alnum c := c.isAlphanum
  onAscii _ _ := rfl
  lowerAlnum c h := by
    refine ⟨c.toLower, [], by simp [Lower.ascii], ?_⟩
    rcases toLower_cases c with ⟨h1, h2, h3⟩ | hc
    · have h1 : 65 ≤ c.val.toNat := h1
      have h2 : c.val.toNat ≤ 90 := h2
      have h3 : c.toLower.val.toNat = c.val.toNat + 32 := h3
      have hlower : c.toLower.isLower = true := by
        show (decide (c.toLower.val ≥ 97) && decide (c.toLower.val ≤ 122)) = true
        simp only [Bool.and_eq_true, decide_eq_true_eq, ge_iff_le, UInt32.le_iff_toNat_le]
        simp
        omega
      show (c.toLower.isUpper || c.toLower.isLower || c.toLower.isDigit) = true
      rw [hlower, Bool.or_true, Bool.true_or]
    · rw [hc]
      exact h
  lowerNoDot c h := by
    simp only [Lower.ascii, String.toList_ofList, List.map_cons, List.map_nil, List.mem_singleton]
    intro hd
    rcases toLower_cases c with ⟨h1, h2, h3⟩ | hc
    · have h3 : (46 : ℕ) = c.toNat + 32 := by rw [← hd] at h3; exact h3
      omega
    · rw [hc] at hd
      subst hd
      exact absurd h (by decide)

/-! ### Values -/

/-- A JSON value where the code takes any: a number comes with its text, a list or an object with what
`str` gives for it. -/
inductive Value where
  | null
  | str (s : String)
  | num (text : String) (zero : Bool)
  | other (text : String) (truthy : Bool)
  deriving DecidableEq, Repr

namespace Value

def raw : Value → Raw
  | null => .none
  | str s => .str s
  | num text zero => .num text zero
  | other _ truthy => .other truthy

def truthy (v : Value) : Bool := v.raw.truthy

def or (a b : Value) : Value := if a.truthy then a else b

end Value

def stringify : Value → String
  | .null => ""
  | .str s => strip s
  | .num text _ => text
  | .other text _ => strip text

def normalizeExecutionDomain (u : Unicode) (raw : Value) : String :=
  let value := u.lower.fn (stringify raw)
  if value = "" then "live" else value

def stripChars (p : Char → Bool) (s : List Char) : List Char := (s.dropWhile p).rdropWhile p

def normalizeVersion (u : Unicode) (raw : Value) : String :=
  let value := match raw with
    | .num text _ => text
    | .str s => strip s
    | _ => ""
  let cleaned := value.toList.map fun c => if u.alnum c || c = '-' || c = '_' || c = '.' then c else '-'
  let result := String.ofList (stripChars (fun c => c = '-' || c = '_' || c = '.') cleaned)
  if value = "" then "v1" else if result = "" then "v1" else result

/-! ### The DAG -/

/-- An object of loosely typed values; a missing key is `null`. -/
abbrev Object := String → Value

/-- `meta["topic_namespace"]`. -/
inductive TopicNamespace where
  | none
  | str (s : String)
  | mapping (o : Object)
  | other

structure DagMeta where
  values : Object
  topicNamespace : TopicNamespace
  computeContext : Option Object

structure DagNode where
  nodeId : Option String := none
  nodeType : String := ""
  codeHash : Option String := none
  configHash : Option String := none
  schemaHash : Option String := none
  schemaCompatId : Option String := none
  schemaId : Option String := none
  interval : Option ℤ := none
  period : Option ℤ := none
  bucket : Option ℤ := none
  tags : List String := []
  inputs : List String := []
  dependencies : List String := []
  version : Option Value := none
  strategyVersion : Option Value := none
  buildVersion : Option Value := none
  rest : String := ""

structure Dag where
  nodes : List (Option DagNode) := []
  metaObj : Option DagMeta := none
  computeContext : Option Object := none
  strategyVersion : Value := .null
  version : Value := .null

structure DiffRequest where
  strategyId : String
  dagJson : String
  worldId : Option String := none
  executionDomain : Option String := none
  asOf : Option String := none
  partition : Option String := none
  datasetFingerprint : Option String := none

/-- What a diff can raise. -/
inductive DiffError where
  | jsonDecodeError
  | keyError (key : String)
  | valueError (message : String)
  | crossContextTopicReuse (nodeId : String) (attempted : ComputeContext) (existing : Option ComputeContext)
  | topicExists (message : String)
  | runtimeError (message : String)
  deriving DecidableEq

def normalizeSchemaCompatId (value fallback : Option String) : Except String String :=
  let compat := strip (value.getD "")
  match fallback with
  | none => .ok compat
  | some f =>
    let legacy := strip f
    if compat ≠ "" ∧ legacy ≠ "" ∧ compat ≠ legacy then
      .error ("Validation error: schema_compat_id ('" ++ compat ++ "') and schema_id ('" ++ legacy ++
        "') must match if both are provided.")
    else .ok (if compat = "" then legacy else compat)

end Qmtl.DagManager

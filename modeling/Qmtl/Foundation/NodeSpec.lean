import Qmtl.Foundation.Keys
import Qmtl.Lib.CompactJson
import Qmtl.Lib.Except
import Qmtl.Lib.PyValue

/-!
The text a node id is hashed from: `tagquery.py` and `nodespec.py`. A node comes as a mapping, or as a
`CanonicalNodeSpec` built from one, and `serialize_nodespec` reads either.
-/

namespace Qmtl.Foundation

open Lib

abbrev Payload := Dict String Value

def Payload.get (node : Payload) (key : String) : Value := (node.get? key).getD .none

/-! ### Tag queries -/

inductive MatchMode where
  | any
  | all
deriving DecidableEq

def MatchMode.value : MatchMode → String
  | any => "any"
  | all => "all"

section

variable (B : Builtins)

def splitTags : Value → Except Raised (List String)
  | .none => .ok []
  | .str s => .ok (((splitAt (· = ',') s).map strip).filter (· ≠ ""))
  | tags => do
    let items ← tags.iter
    .ok ((items.map fun item => strip (item.toStr B)).filter (· ≠ ""))

def normalizeMatchMode (matchMode : Value) : Except Raised MatchMode :=
  match matchMode.or (.str "any") with
  | .str s => .ok (if B.lower.fn s = "all" then .all else .any)
  | .bytes _ => .ok .any
  | _ => .error .attributeError

def sortedSet (tags : List String) : List String := tags.dedup.insertionSort (· ≤ ·)

def canonicalTagQueryParams (tags interval matchMode : Value) (requireTags requireInterval : Bool) :
    Except Raised Value := do
  let deduped := sortedSet (← splitTags B tags)
  if requireTags && deduped.isEmpty then
    throw (.invalid "TagQuery requires at least one tag")
  let intervalVal : Value := match interval.toInt B with
    | .ok n => .int n
    | .error _ => .none
  if requireInterval && intervalVal.isNone then
    throw (.invalid "TagQuery interval is required")
  let mode ← normalizeMatchMode B matchMode
  return .dict [(.str "query_tags", .list (deduped.map .str)), (.str "match_mode", .str mode.value),
    (.str "interval", intervalVal)]

def tagsOf : Value → Value
  | .dict items =>
    ((Value.lookup "query_tags" items).getD .none).or ((Value.lookup "tags" items).getD .none)
  | _ => .none

def matchModeOf : Value → Value
  | .dict items => (Value.lookup "match_mode" items).getD .none
  | _ => .none

def intervalOf : Value → Value
  | .dict items => (Value.lookup "interval" items).getD .none
  | _ => .none

def orElse (v w : Value) : Value := if v.isNone then w else v

def canonicalTagQueryParamsFromNode (node : Payload) (requireTags requireInterval : Bool) : Except Raised Value :=
  let paramsSource := node.get "params"
  let interval := orElse (node.get "interval") (intervalOf paramsSource)
  let tags := orElse (tagsOf paramsSource) (node.get "tags")
  let matchMode := orElse (matchModeOf paramsSource) (node.get "match_mode")
  canonicalTagQueryParams B tags interval matchMode requireTags requireInterval

/-! ### Canonical parameters -/

def paramExcludeKeys : List String :=
  ["world", "world_id", "world_ids", "execution_world", "execution_domain", "domain", "domains", "as_of",
    "partition", "dataset_fingerprint", "timestamp", "seed", "random_state", "env"]

def paramExcludePrefixes : List String := ["env_"]

def isExcludedParamKey (loweredKey : String) : Bool :=
  paramExcludeKeys.contains loweredKey ||
    paramExcludePrefixes.any fun start => start.toList.isPrefixOf loweredKey.toList

def floatJson : PyFloat → String
  | .finite x => x.text
  | .inf neg => if neg then "-Infinity" else "Infinity"
  | .nan => "NaN"

def dumpsSorted (value : Json) : String := String.ofList value.sortKeys.compact

def decodeUtf8 (data : List UInt8) : Except Raised String :=
  match String.fromUTF8? ⟨data.toArray⟩ with
  | some text => .ok text
  | none => .error .unicodeDecodeError

/-- The end of `_canonicalize_mapping`: the items in the order of their keys, a later one over an
earlier one of the same name. -/
def canonicalFields (items : List (String × Json)) : List (String × Json) :=
  (Dict.ofList (items.insertionSort fun a b => a.1 ≤ b.1)).entries

mutual

def canonicalizeParams : Value → Except Raised Json
  | .dict items => do return .obj (canonicalFields (← canonicalizeMapping items))
  -- `_canonicalize_set`
  | .set items => do
    return .arr ((← canonicalizeItems items).insertionSort fun a b => dumpsSorted a ≤ dumpsSorted b)
  | .list items => do return .arr (← canonicalizeItems items)
  | .bytes data => do return .str (← decodeUtf8 data)
  | .none => .ok .null
  | .bool b => .ok (.bool b)
  | .int n => .ok (.num (toString n))
  | .float x => .ok (.num (floatJson x))
  | .str s => .ok (.str s)

def canonicalizeItems : List Value → Except Raised (List Json)
  | [] => .ok []
  | v :: vs => do return (← canonicalizeParams v) :: (← canonicalizeItems vs)

def canonicalizeMapping : List (Value × Value) → Except Raised (List (String × Json))
  | [] => .ok []
  | (rawKey, rawValue) :: rest =>
    if isExcludedParamKey (B.lower.fn (rawKey.toStr B)) then canonicalizeMapping rest
    else do return (rawKey.toStr B, ← canonicalizeParams rawValue) :: (← canonicalizeMapping rest)

end

def canonicalParamsBlobFromValue (paramsSource : Value) : Except Raised String := do
  return dumpsSorted (← canonicalizeParams B paramsSource)

def paramsSourceFromNode (node : Payload) : Value := orElse (node.get "params") (node.get "config")

def textField (node : Payload) (key : String) : String :=
  match node.get? key with
  | none => ""
  | some v => v.toStr B

def paramsOfNode (node : Payload) : Except Raised Value :=
  if textField B node "node_type" = "TagQueryNode" then canonicalTagQueryParamsFromNode B node false false
  else .ok (paramsSourceFromNode node)

def canonicalParamsBlob (node : Payload) : Except Raised String := do
  canonicalParamsBlobFromValue B (← paramsOfNode B node)

/-! ### The other fields -/

def dependencyId : Value → Option String
  | .none => none
  | dep => if dep.toStr B = "" then none else some (dep.toStr B)

def normalizeDependencies (deps : Value) : Except Raised (List String) :=
  if deps.truthy then do
    return ((← deps.iter).filterMap (dependencyId B)).insertionSort (· ≤ ·)
  else .ok []

def sortedDeps (node : Payload) : Except Raised (List String) :=
  normalizeDependencies B ((node.get "inputs").or ((node.get "dependencies").or (.list [])))

def textOr (value : Value) : String := (value.or (.str "")).toStr B

def normalizeSchemaCompatId (value fallback : Value) : Except Raised String :=
  let compat := strip (textOr B value)
  if fallback.isNone then .ok compat
  else
    let legacy := strip (textOr B fallback)
    if compat ≠ "" ∧ legacy ≠ "" ∧ compat ≠ legacy then
      .error (.invalid ("Validation error: schema_compat_id ('" ++ compat ++ "') and schema_id ('" ++ legacy ++
        "') must match if both are provided."))
    else .ok (if compat = "" then legacy else compat)

def intOr (value : Value) : Except Raised ℤ := (value.or (.int 0)).toInt B

structure CanonicalNodeSpec where
  nodeType : String
  interval : ℤ
  period : ℤ
  intervalPayload : Value
  intervalPayloadIsSet : Bool
  periodPayload : Value
  periodPayloadIsSet : Bool
  paramsValue : Value
  paramsField : String
  paramsFieldPresent : Bool
  dependencies : List String
  schemaCompatId : String
  codeHash : String
  extras : Payload

def reservedExtraKeys : List String :=
  ["node_type", "interval", "period", "params", "config", "dependencies", "schema_compat_id", "code_hash"]

def CanonicalNodeSpec.fromPayload (payload : Payload) : Except Raised CanonicalNodeSpec := do
  let paramsField :=
    if (payload.get? "params").isSome then "params"
    else if (payload.get? "config").isSome then "config"
    else "params"
  let depsValue := orElse (payload.get "dependencies") (payload.get "inputs")
  let nodeType := textOr B (payload.get "node_type")
  let interval ← intOr B (payload.get "interval")
  let period ← intOr B (payload.get "period")
  let dependencies ← normalizeDependencies B depsValue
  let schemaCompatId ← normalizeSchemaCompatId B (payload.get "schema_compat_id") (payload.get "schema_id")
  let codeHash := textOr B (payload.get "code_hash")
  let reserved := paramsField :: reservedExtraKeys
  return {
    nodeType
    interval
    period
    intervalPayload := payload.get "interval"
    intervalPayloadIsSet := (payload.get? "interval").isSome
    periodPayload := payload.get "period"
    periodPayloadIsSet := (payload.get? "period").isSome
    paramsValue := payload.get paramsField
    paramsField
    paramsFieldPresent := (payload.get? paramsField).isSome
    dependencies
    schemaCompatId
    codeHash
    extras := Dict.ofList (payload.entries.filter fun e => !reserved.contains e.1) }

def CanonicalNodeSpec.toPayload (spec : CanonicalNodeSpec) : Payload :=
  let paramsField := if spec.paramsField = "" then "params" else spec.paramsField
  let base : Payload := Dict.ofList
    [("node_type", .str spec.nodeType),
      ("interval", if spec.intervalPayloadIsSet then spec.intervalPayload else .int spec.interval),
      ("period", if spec.periodPayloadIsSet then spec.periodPayload else .int spec.period),
      ("dependencies", .list (spec.dependencies.map .str)),
      ("schema_compat_id", .str spec.schemaCompatId),
      ("code_hash", .str spec.codeHash)]
  let withParams := if spec.paramsFieldPresent then base.set paramsField spec.paramsValue else base
  withParams.update spec.extras.entries

def CanonicalNodeSpec.params (spec : CanonicalNodeSpec) : Except Raised Value :=
  if spec.nodeType = "TagQueryNode" then
    let tagsSource := orElse (tagsOf spec.paramsValue) (spec.extras.get "tags")
    let matchModeSource := orElse (matchModeOf spec.paramsValue) (spec.extras.get "match_mode")
    canonicalTagQueryParams B (orElse tagsSource spec.paramsValue) (.int spec.interval) matchModeSource
      false false
  else .ok spec.paramsValue

structure NodeFields where
  nodeType : String
  interval : ℤ
  period : ℤ
  paramsBlob : String
  deps : List String
  schemaCompatId : String
  codeHash : String

def NodeFields.encode (f : NodeFields) : ByteArray :=
  (join "|" [f.nodeType, toString f.interval, toString f.period, f.paramsBlob, join "," f.deps,
    f.schemaCompatId, f.codeHash]).toUTF8

/-- A node as `serialize_nodespec` takes it. -/
inductive NodeSource where
  | mapping (node : Payload)
  | spec (node : CanonicalNodeSpec)

def nodeFields : NodeSource → Except Raised NodeFields
  | .spec node => do
    let paramsBlob ← canonicalParamsBlobFromValue B (← node.params B)
    return ⟨node.nodeType, node.interval, node.period, paramsBlob, node.dependencies, node.schemaCompatId,
      node.codeHash⟩
  | .mapping node => do
    let interval ← intOr B (node.get "interval")
    let period ← intOr B (node.get "period")
    let deps ← sortedDeps B node
    let schemaCompatId ← normalizeSchemaCompatId B (node.get "schema_compat_id") (node.get "schema_id")
    let paramsBlob ← canonicalParamsBlob B node
    return ⟨textField B node "node_type", interval, period, paramsBlob, deps, schemaCompatId,
      textField B node "code_hash"⟩

def serializeNodespec (node : NodeSource) : Except Raised ByteArray := do
  return (← nodeFields B node).encode

end

/-! ### Canonical values -/

lemma isNumText_floatJson (x : PyFloat) : Json.isNumText (floatJson x) := by
  cases x with
  | inf neg => cases neg <;> decide
  | nan => decide
  | finite x =>
    obtain ⟨text, hv⟩ := x
    show Json.isNumText text
    have hdg : ∀ {c : Char}, c.isDigit → Json.kindOf c = some 2 := by
      intro c hc
      have hn : c ≠ 'n' ∧ c ≠ 't' ∧ c ≠ 'f' := by
        refine ⟨?_, ?_, ?_⟩ <;> (rintro rfl; revert hc; decide)
      simp [Json.kindOf, hn, hc]
    have hch : ∀ c : Char, (c.isDigit || c = '.' || c = 'e' || c = '+' || c = '-') →
        Json.isNumChar c := by
      intro c hc
      simp only [Bool.or_eq_true, decide_eq_true_eq] at hc
      rcases hc with (((h | rfl) | rfl) | rfl) | rfl
      · simp [Json.isNumChar, Char.isAlphanum, h]
      all_goals rfl
    rw [isFloatText] at hv
    rw [Json.isNumText, Bool.and_eq_true, List.all_eq_true]
    cases hcs : text.toList with
    | nil =>
      rw [hcs] at hv
      exact absurd hv (by decide)
    | cons c cs =>
      rw [hcs] at hv
      simp only [List.head?_cons, Option.some.injEq, List.tail_cons, Bool.and_eq_true, List.all_eq_true] at hv
      by_cases hneg : c = '-'
      · subst hneg
        refine ⟨fun d hd => ?_, rfl⟩
        rcases List.mem_cons.mp hd with rfl | hd
        · rfl
        · exact hch d (hv.1.1 d hd)
      · simp only [if_neg hneg] at hv
        refine ⟨fun d hd => hch d (hv.1.1 d hd), ?_⟩
        have hc : c.isDigit := by simpa using hv.1.2
        simp [hdg hc]

lemma pairwise_canonicalFields (items : List (String × Json)) :
    (canonicalFields items).Pairwise fun a b => a.1 ≤ b.1 := by
  have hs := items.pairwise_insertionSort fun a b : String × Json => a.1 ≤ b.1
  have hkeys : (Dict.ofList (items.insertionSort fun a b => a.1 ≤ b.1)).keys.Pairwise (· ≤ ·) := by
    refine Dict.pairwise_keys_update ?_
    rw [show (.empty : Dict String Json).keys = [] from rfl, List.nil_append, List.pairwise_map]
    exact hs
  exact List.pairwise_map.mp hkeys

lemma mem_of_mem_canonicalFields {items : List (String × Json)} {f : String × Json}
    (h : f ∈ canonicalFields items) : f ∈ items :=
  List.mem_insertionSort _ |>.mp (Dict.mem_entries_ofList h)

section

variable {B : Builtins}

mutual

/-- **Canonical parameters are tidy**, so that sorting the keys once more changes nothing. -/
theorem canonicalizeParams_tidy : ∀ {v : Value} {j : Json}, canonicalizeParams B v = .ok j → j.Tidy
  | .dict items, j, h => by
    obtain ⟨fields, hf, h⟩ := bind_ok.mp h
    obtain rfl := pure_ok.mp h
    exact Json.tidy_obj (pairwise_canonicalFields fields) fun f hmem =>
      canonicalizeMapping_tidy hf f (mem_of_mem_canonicalFields hmem)
  | .set items, j, h => by
    obtain ⟨vs, hvs, h⟩ := bind_ok.mp h
    obtain rfl := pure_ok.mp h
    exact Json.tidy_arr fun v hv => canonicalizeItems_tidy hvs v (List.mem_insertionSort _ |>.mp hv)
  | .list items, j, h => by
    obtain ⟨vs, hvs, h⟩ := bind_ok.mp h
    obtain rfl := pure_ok.mp h
    exact Json.tidy_arr (canonicalizeItems_tidy hvs)
  | .bytes data, j, h => by
    obtain ⟨text, -, h⟩ := bind_ok.mp h
    obtain rfl := pure_ok.mp h
    exact ⟨trivial, rfl⟩
  | .none, j, h => by
    cases h
    exact ⟨trivial, rfl⟩
  | .bool b, j, h => by
    cases h
    exact ⟨trivial, rfl⟩
  | .int n, j, h => by
    cases h
    exact ⟨Json.isNumText_toString n, rfl⟩
  | .float x, j, h => by
    cases h
    exact ⟨isNumText_floatJson x, rfl⟩
  | .str s, j, h => by
    cases h
    exact ⟨trivial, rfl⟩

theorem canonicalizeItems_tidy : ∀ {vs : List Value} {js : List Json}, canonicalizeItems B vs = .ok js →
    ∀ j ∈ js, j.Tidy
  | [], js, h, j, hj => by
    cases h
    cases hj
  | v :: vs, js, h, j, hj => by
    obtain ⟨a, ha, h⟩ := bind_ok.mp h
    obtain ⟨as, has, h⟩ := bind_ok.mp h
    obtain rfl := pure_ok.mp h
    rcases List.mem_cons.mp hj with rfl | hj
    · exact canonicalizeParams_tidy ha
    · exact canonicalizeItems_tidy has j hj

theorem canonicalizeMapping_tidy : ∀ {items : List (Value × Value)} {fs : List (String × Json)},
    canonicalizeMapping B items = .ok fs → ∀ f ∈ fs, f.2.Tidy
  | [], fs, h, f, hf => by
    cases h
    cases hf
  | (k, v) :: rest, fs, h, f, hf => by
    rw [canonicalizeMapping] at h
    split at h
    · exact canonicalizeMapping_tidy h f hf
    · obtain ⟨a, ha, h⟩ := bind_ok.mp h
      obtain ⟨as, has, h⟩ := bind_ok.mp h
      obtain rfl := pure_ok.mp h
      rcases List.mem_cons.mp hf with rfl | hf
      · exact canonicalizeParams_tidy ha
      · exact canonicalizeMapping_tidy has f hf

end

lemma normalizeDependencies_sorted {v : Value} {ds : List String} (h : normalizeDependencies B v = .ok ds) :
    (∀ d ∈ ds, d ≠ "") ∧ ds.Pairwise (· ≤ ·) := by
  unfold normalizeDependencies at h
  split at h
  · obtain ⟨items, -, h⟩ := bind_ok.mp h
    obtain rfl := pure_ok.mp h
    refine ⟨fun d hd => ?_, List.pairwise_insertionSort _ _⟩
    obtain ⟨v, -, hv⟩ := List.mem_filterMap.mp ((List.mem_insertionSort _).mp hd)
    cases v <;> simp only [dependencyId, Option.ite_none_left_eq_some, reduceCtorEq] at hv <;>
      exact Option.some.inj hv.2 ▸ hv.1
  · cases h
    simp

lemma dumpsSorted_inj {v w : Json} {r r' : List Char} (hv : v.Tidy) (hw : w.Tidy)
    (h : (dumpsSorted v).toList ++ '|' :: r = (dumpsSorted w).toList ++ '|' :: r') : v = w ∧ r = r' := by
  rw [dumpsSorted, dumpsSorted, hv.2, hw.2, String.toList_ofList, String.toList_ofList] at h
  have hs : ∀ q : List Char, Json.Stops ('|' :: q) := by
    intro q c hc
    obtain rfl : '|' = c := Option.some.inj hc
    decide
  obtain ⟨rfl, hr⟩ := Json.compact_inj v w hv.1 hw.1 (hs r) (hs r') h
  exact ⟨rfl, (List.cons.inj hr).2⟩

end

namespace NodeFields

def chars (f : NodeFields) : List Char :=
  f.nodeType.toList ++ '|' :: ((toString f.interval).toList ++ '|' :: ((toString f.period).toList ++ '|' ::
    (f.paramsBlob.toList ++ '|' :: ((join "," f.deps).toList ++ '|' ::
      (f.schemaCompatId.toList ++ '|' :: f.codeHash.toList)))))

lemma encode_eq_iff {f g : NodeFields} : f.encode = g.encode ↔ f.chars = g.chars := by
  have htext : ∀ f : NodeFields, (join "|" [f.nodeType, toString f.interval, toString f.period, f.paramsBlob,
      join "," f.deps, f.schemaCompatId, f.codeHash]).toList = f.chars := by
    intro f
    simp [join, chars, List.nil_append]
  rw [encode, encode, String.toUTF8_eq_toByteArray, String.toUTF8_eq_toByteArray, String.toByteArray_inj,
    ← htext f, ← htext g]
  exact ⟨congrArg _, fun h => String.toList_injective h⟩

end NodeFields

end Qmtl.Foundation

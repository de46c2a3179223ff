import Qmtl.Foundation.NodeSpec

/-!
`TagQueryManager`: the nodes under their keys, the queue updates that reach them, and what a poll does to them.
-/

namespace Qmtl.Runtime.TagQuery

open Lib Foundation

/-! ### Keys -/

structure Key where
  tags : List String
  interval : ℤ
  mode : MatchMode
  deriving DecidableEq

abbrev Message := String → Option Value

def Message.get (p : Message) (key : String) : Value := (p key).getD .none

def isValueError : Raised → Bool
  | .valueError => true
  | .unicodeDecodeError => true
  | .invalid _ => true
  | _ => false

def textOf : Value → Option String
  | .str text => some text
  | _ => none

section Reading

variable (B : Builtins)

def canonicalKey (tags interval matchMode : Value) : Except Raised Key := do
  let spec ← canonicalTagQueryParams B tags interval matchMode true true
  let mode ← normalizeMatchMode B (matchModeOf spec)
  let interval ← ((intervalOf spec).or (.int 0)).toInt B
  let tags ← (tagsOf spec).iter
  return ⟨tags.filterMap textOf, interval, mode⟩

def canonicalKeyFromPayload (payload : Message) : Except Raised (Option Key) :=
  match canonicalKey B ((payload.get "tags").or (payload.get "query_tags")) (payload.get "interval")
    (payload.get "match_mode") with
  | .ok key => .ok (some key)
  | .error e => if isValueError e then .ok none else .error e

def readQueue : Value → Except Raised (Option String)
  | .dict items =>
    if ((Value.lookup "global" items).getD .none).truthy then .ok none
    else
      let val := (Value.lookup "queue" items).getD .none
      if val.truthy then .ok (some (val.toStr B)) else .error (.invalid "queue descriptor missing 'queue'")
  | _ => .error .typeError

def normalizeQueues (raw : Value) : Except Raised (List String) := do
  let items ← raw.iter
  let queues ← items.mapM (readQueue B)
  return queues.filterMap id

/-- `v == 1`. -/
def isOne : Value → Bool
  | .int n => n = 1
  | .bool b => b
  | .float (.finite x) => x.text = "1.0"
  | _ => false

def extractMessagePayload (message : Fields) : Option (Value × Message) :=
  let payload : Option Message := match message.get? "data" with
    | none => some message.get?
    | some (.dict items) => some fun key => Value.lookup key items
    | some _ => none
  (payload.filter fun p => isOne (p.get "version")).map fun p => ((message.get "event").or (message.get "type"), p)

def queuesOf (payload : Message) : Except Raised (List String) :=
  normalizeQueues B ((payload "queues").getD (.list []))

end Reading

structure Node where
  name : ℕ
  queryTags : List String
  interval : Option ℤ
  matchMode : MatchMode
  deriving DecidableEq

structure NodeState where
  upstreams : List String
  execute : Bool
  preWarmup : Bool

def NodeState.init : NodeState := ⟨[], false, true⟩

def NodeState.updateQueues (t : NodeState) (queues : List String) : NodeState where
  upstreams := queues
  execute := !queues.isEmpty
  preWarmup := t.preWarmup || queues.any fun q => q ∉ t.upstreams

/-! ### The manager -/

structure Registered where
  id : ℕ
  members : List Node

structure Manager where
  nodes : Dict Key Registered
  lists : ℕ
  last : Dict Key (Finset String)
  state : Node → NodeState

def Manager.init : Manager := ⟨.empty, 0, .empty, fun _ => .init⟩

namespace Manager

variable (m : Manager)

def registered (key : Key) : List Node := ((m.nodes.get? key).map Registered.members).getD []

def updateAll (nodes : List Node) (queues : List String) : Manager :=
  { m with state := nodes.foldl (fun state n => Function.update state n ((state n).updateQueues queues)) m.state }

def isDuplicate (key : Key) (queues : List String) : Bool := m.last.get? key = some queues.toFinset

def applyUpdate (key : Key) (queues : List String) : Manager :=
  if m.isDuplicate key queues then m
  else { m with last := m.last.set key queues.toFinset }.updateAll (m.registered key) queues

variable (B : Builtins)

def nodeKey (node : Node) : Except Raised Key :=
  match node.interval with
  | none => .error (.invalid "TagQueryNode interval is required")
  | some interval => canonicalKey B (.list (node.queryTags.map .str)) (.int interval) (.str node.matchMode.value)

def register (node : Node) : Except Raised Unit × Manager :=
  match nodeKey B node with
  | .error e => (.error e, m)
  | .ok key =>
    match m.nodes.get? key with
    | some r => (.ok (), { m with nodes := m.nodes.set key { r with members := r.members ++ [node] } })
    | none => (.ok (), { m with nodes := m.nodes.set key ⟨m.lists, [node]⟩, lists := m.lists + 1 })

def unregister (node : Node) : Except Raised Unit × Manager :=
  match nodeKey B node with
  | .error e => (.error e, m)
  | .ok key =>
    match m.nodes.get? key with
    | none => (.ok (), m)
    | some r =>
      if node ∉ r.members then (.ok (), m)
      else if (r.members.erase node).isEmpty then (.ok (), { m with nodes := m.nodes.erase key })
      else (.ok (), { m with nodes := m.nodes.set key { r with members := r.members.erase node } })

def handleTagqueryUpsert (payload : Message) : Except Raised Unit × Manager :=
  match canonicalKeyFromPayload B payload with
  | .error e => (.error e, m)
  | .ok none => (.ok (), m)
  | .ok (some key) =>
    match queuesOf B payload with
    | .error e => (.error e, m)
    | .ok queues => (.ok (), (m.applyUpdate { key with mode := .any } queues).applyUpdate { key with mode := .all } queues)

def handleQueueUpdate (payload : Message) : Except Raised Unit × Manager :=
  match canonicalKeyFromPayload B payload with
  | .error e => (.error e, m)
  | .ok none => (.ok (), m)
  | .ok (some key) =>
    match queuesOf B payload with
    | .error e => (.error e, m)
    | .ok queues => (.ok (), m.applyUpdate key queues)

def handleMessage (data : Fields) : Except Raised Unit × Manager :=
  match extractMessagePayload data with
  | none => (.ok (), m)
  | some (event, payload) =>
    match event.or (.str "") with
    | .str "tagquery.upsert" => m.handleTagqueryUpsert B payload
    | .str "queue_update" => m.handleQueueUpdate B payload
    -- what cannot be hashed is no key of the registry
    | .list _ => (.error .typeError, m)
    | .set _ => (.error .typeError, m)
    | .dict _ => (.error .typeError, m)
    | _ => (.ok (), m)

def keyStr (key : Key) : String := join "," key.tags ++ "|" ++ toString key.interval ++ "|" ++ key.mode.value

def resolveOffline (cache : Dict String (List String)) : Manager :=
  m.nodes.entries.foldl (fun m e => m.updateAll e.2.members ((cache.get? (keyStr e.1)).getD [])) m

end Manager

variable {m : Manager} {key : Key} {queues : List String} {n : Node}

lemma state_updateAll (nodes : List Node) : ((m.updateAll nodes queues).state n).upstreams =
    if n ∈ nodes then queues else (m.state n).upstreams := by
  unfold Manager.updateAll
  generalize m.state = state
  induction nodes generalizing state with
  | nil => simp
  | cons n' nodes ih =>
    rw [List.foldl_cons, ih]
    by_cases hn : n = n'
    · subst hn
      simp [NodeState.updateQueues]
    · simp [hn]

@[simp] lemma nodes_applyUpdate : (m.applyUpdate key queues).nodes = m.nodes := by
  unfold Manager.applyUpdate
  split <;> rfl

@[simp] lemma registered_applyUpdate (key' : Key) : (m.applyUpdate key queues).registered key' = m.registered key' := by
  unfold Manager.registered
  rw [nodes_applyUpdate]

lemma upstreams_applyUpdate (h : m.isDuplicate key queues = false) (hn : n ∈ m.registered key) :
    ((m.applyUpdate key queues).state n).upstreams = queues := by
  unfold Manager.applyUpdate
  rw [h, if_neg Bool.false_ne_true, state_updateAll, if_pos hn]

lemma applyUpdate_duplicate (h : m.isDuplicate key queues = true) : m.applyUpdate key queues = m := by
  unfold Manager.applyUpdate
  rw [if_pos h]

end Qmtl.Runtime.TagQuery

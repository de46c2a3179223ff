import Qmtl.Gateway.EventDispatcher
import Qmtl.Runtime.ActivationManager
import Qmtl.Runtime.EventStreams

/-!
The gates of several strategies on one hub: which broadcasts a manager is sent, and which of them it applies.
-/

namespace Qmtl.Runtime.Isolation

open Lib Gateway.EventToken Gateway.Ws

structure Manager where
  worldId : String
  strategyId : String

def Manager.request (m : Manager) : EventSubscribeRequest := ⟨m.worldId, m.strategyId, ["activation"]⟩

/-- Managers that have opened `/ws/evt` one after another, each with a token for its own world and strategy. -/
inductive Connected (codec : Codec) (hmac : String → String → List UInt8) (cfg : Config) : List Manager → Registry → Prop
  | none : Connected codec hmac cfg [] .empty
  | next {ms : List Manager} {r r' : Registry} {m : Manager} {jti token : String} {issued now : ℕ}
      (h : Connected codec hmac cfg ms r) (htoken : eventsSubscribe codec hmac cfg m.request jti issued = some token)
      (hopen : wsEvtEndpoint codec hmac cfg token now ms.length r = some r') : Connected codec hmac cfg (ms ++ [m]) r'

structure Hub (codec : Codec) (hmac : String → String → List UInt8) (cfg : Config) where
  managers : List Manager
  registry : Registry
  connected : Connected codec hmac cfg managers registry

/-! ### Broadcasts -/

def textOf (data : Fields) (key : String) : Option String :=
  match data.get key with
  | .str text => some text
  | _ => none

/-- What `_send_event` broadcasts. -/
structure Message where
  type : String
  data : Fields
  topic : Option String

def sendActivationUpdated (payload : Fields) : Message where
  type := "activation_updated"
  data := if (payload.get? "version").isSome then payload else payload.set "version" (.int 1)
  topic := some "activation"

/-- A broadcast, with the texts of its envelope and the connections it does not reach: held back by the rate
limit, or being opened anew after a message that could not be parsed. -/
structure Sent where
  message : Message
  time : String
  correlationId : String
  unsent : ℕ → Bool

/-- Ids that are drawn one after another, no two of them the same. -/
structure Uuids where
  fn : ℕ → String
  inj : Function.Injective fn

def items (data : Fields) : List (Value × Value) := data.entries.map fun e => (.str e.1, e.2)

/-- `format_event`, with the number `broadcast` adds. -/
def envelope (uuids : Uuids) (n : ℕ) (e : Sent) : Fields := Dict.ofList [
  ("specversion", .str "1.0"), ("id", .str (uuids.fn n)), ("source", .str "qmtl.services.gateway"),
  ("type", .str e.message.type), ("time", .str e.time), ("datacontenttype", .str "application/json"),
  ("data", .dict (items e.message.data)), ("correlation_id", .str e.correlationId), ("seq_no", .int (n + 1))]

/-! ### Handling them -/

structure HubState where
  count : ℕ
  tracker : DuplicateTracker
  states : ℕ → ActivationState
  applied : ℕ → List Message

def HubState.init (start : ℕ → ActivationState) : HubState := ⟨0, .init, start, fun _ => []⟩

section

variable (env : Env) (uuids : Uuids) (window : ℕ) (r : Registry)

def receivers (msg : Message) : List ℕ := (filterClients (r.clientsForTopic msg.topic) (textOf msg.data "world_id")).map Prod.fst

def applies (data : Fields) : Bool :=
  (accepts data).toOption = some true ∧
    ((extractActivationPayload data).any fun payload => (parseActivationUpdate env payload).toOption.isSome) = true

def handleEvent (s : HubState) (e : Sent) : HubState :=
  match s.tracker.ask window (some (uuids.fn s.count)) with
  | (true, tracker) => { s with count := s.count + 1, tracker }
  | (false, tracker) => {
      count := s.count + 1
      tracker
      states := fun i =>
        if i ∈ receivers r e.message ∧ e.unsent i = false then (handle env (envelope uuids s.count e) (s.states i)).2
        else s.states i
      applied := fun i =>
        if i ∈ receivers r e.message ∧ e.unsent i = false ∧ applies env (envelope uuids s.count e) = true then
          s.applied i ++ [e.message]
        else s.applied i }

def history (start : ℕ → ActivationState) (h : List Sent) : HubState := h.foldl (handleEvent env uuids window r) (.init start)

end

/-! ### Isolation -/

def own (m : Manager) (msg : Message) : Bool :=
  msg.type = "activation_updated" ∧ textOf msg.data "world_id" = some m.worldId ∧
    textOf msg.data "strategy_id" = some m.strategyId

def ownEvents (m : Manager) (i : ℕ) (h : List Sent) : List Message :=
  ((h.filter fun e => !e.unsent i).map Sent.message).filter (own m)

/-- **A gate is isolated**: after two histories with the same events of its own it answers the same, and it has applied no
other events. -/
structure Isolated (env : Env) (m : Manager) (i : ℕ) (h h' : List Sent) (s s' : HubState) : Prop where
  same : ownEvents m i h = ownEvents m i h' → ∀ side,
    allowSide env (s.states i) side = allowSide env (s'.states i) side ∧
      weightForSide env (s.states i) side = weightForSide env (s'.states i) side
  left : ∀ msg ∈ s.applied i, own m msg = true
  right : ∀ msg ∈ s'.applied i, own m msg = true

def activationPayload (msg : Message) : Option Mapping :=
  if msg.type = "activation_updated" ∨ isText (msg.data.get "type") "ActivationUpdated" = true then some msg.data.get else none

/-- The client drops every event whose version is not 1, but for an `ack`. -/
def accepted (msg : Message) : Bool := msg.type = "ack" ∨ isOne (msg.data.get "version") = true

def readable (env : Env) (msg : Message) : Bool :=
  accepted msg = true ∧
    ((activationPayload msg).any fun payload => (parseActivationUpdate env payload).toOption.isSome) = true

variable {codec : Codec} {hmac : String → String → List UInt8} {cfg : Config} {ms : List Manager} {r : Registry}
  {m : Manager} {i : ℕ} {msg : Message}

lemma get?_registered (req : EventSubscribeRequest) (ws : ℕ) (r : Registry) : (registered req ws r).get? ws =
    some ⟨some (normalizeTopics req.topics), ⟨some (.str req.worldId), some (.str req.strategyId)⟩⟩ :=
  get?_updateFilters_add _ _ _

lemma get?_registered_ne (req : EventSubscribeRequest) {ws ws' : ℕ} (r : Registry) (h : ws' ≠ ws) :
    (registered req ws r).get? ws' = r.get? ws' := by
  unfold registered Registry.updateFilters
  split
  · exact Dict.get?_set_ne r _ h
  · rw [Dict.get?_set_ne _ _ h]
    exact Dict.get?_set_ne r _ h

lemma Connected.get? (h : Connected codec hmac cfg ms r) (hm : ms[i]? = some m) : r.get? i =
    some ⟨some ["activation"], ⟨some (.str m.worldId), some (.str m.strategyId)⟩⟩ := by
  induction h with
  | none => cases hm
  | @next ms r r' m' jti token issued now _ htoken hopen ih =>
    obtain rfl : registered m'.request ms.length r = r' := by
      rw [wsEvtEndpoint_issued htoken] at hopen
      split at hopen
      · cases hopen
      · exact Option.some.inj hopen
    by_cases hi : i = ms.length
    · rw [hi, List.getElem?_concat_length] at hm
      cases hm
      rw [hi, get?_registered]
      rfl
    · have hlt : i < ms.length := by
        have hb := (List.getElem?_eq_some_iff.mp hm).1
        rw [List.length_append, List.length_singleton] at hb
        omega
      rw [List.getElem?_append_left hlt] at hm
      rw [get?_registered_ne _ _ hi]
      exact ih hm

variable {env : Env} {uuids : Uuids} {n : ℕ} {e : Sent}

variable {window : ℕ} {s : HubState} {start : ℕ → ActivationState} {h h' : List Sent}

open EventStreams

end Qmtl.Runtime.Isolation

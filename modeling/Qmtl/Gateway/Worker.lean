import Qmtl.Foundation.Keys
import Qmtl.Gateway.ContextService
import Qmtl.Gateway.Fsm
import Qmtl.Gateway.Ownership
import Qmtl.Gateway.RedisQueue

/-!
`StrategyWorker`: pop an id, own its key, move the strategy through the state machine around a diff,
and put the id back when that did not work.
-/

namespace Qmtl.Gateway

open Lib Foundation

structure Worker where
  id : String
  manager : OwnershipManager
  hub : Bool
  handler : Bool
  alerts : Bool
  grpcFailThreshold : ℕ

namespace Worker

variable (w : Worker)

def lockKey (sid : String) : ℕ := crc32 (partitionKey sid none none none)

def transition (sid : String) (ev : StrategyEvent) : Gw Unit := do
  let newState ← Fsm.transition sid ev
  if w.hub then ask (.sendProgress sid newState) else return

def loadContext (sid : String) : Gw DiffCall := do
  let dagJson : Option String ← ask (.hget sid .dag)
  match dagJson with
  | none => .raise (.runtimeError "dag not found")
  | some dag =>
    let raw : List (Option String) ← ask (.hmget sid StrategyComputeContext.readFields)
    -- `_decode_field` of the five values
    let value (i : ℕ) : Option String := (raw.getD i none).bind stripped
    return ⟨sid, dag, value 0, value 1, value 2, value 3, value 4⟩

def recordDiffFailure : Gw Unit := do
  let count : ℕ ← ask (.bumpFailCount w.id)
  if w.grpcFailThreshold ≤ count then
    if w.alerts then ask (.sendSlack "gRPC diff repeatedly failed")
    ask (.resetFailCount w.id)

def diffStrategy (call : DiffCall) : Gw Bool :=
  Coro.tryExcept (do
    let result : Bool ← ask (.diff call)
    ask (.resetFailCount w.id)
    return result) fun _ => do
      w.recordDiffFailure
      .raise .diffFailure

def broadcastQueueMap (sid : String) (result : Bool) : Gw Unit :=
  if w.hub then
    if result then ask (.sendQueueMap sid) else .raise .attributeError
  else return

def invokeHandler (sid : String) : Gw Unit :=
  if w.handler then ask (.invokeHandler sid) else return

def processOwned (sid : String) : Gw Bool := do
  w.transition sid .process
  let context ← loadContext sid
  let result ← w.diffStrategy context
  w.broadcastQueueMap sid result
  w.invokeHandler sid
  w.transition sid .complete
  return true

def process (sid : String) : Gw Bool := do
  let acquired ← w.manager.acquire (lockKey sid) w.id
  if acquired then
    Coro.tryFinally ((w.processOwned sid).tryExcept fun _ => do
        w.transition sid .fail
        return false)
      fun _ => w.manager.release (lockKey sid)
  else return false

def runOnce : Gw (Option String) := do
  let popped ← RedisQueue.pop w.id
  match popped with
  | none => return none
  | some sid =>
    Coro.tryFinally (do
        let processed ← w.process sid
        return if processed then some sid else none)
      fun outcome => do
        RedisQueue.release sid w.id
        match outcome with
        | .ok (some _) => return
        | _ =>
          let _ ← RedisQueue.push sid
          return

section Uses

lemma uses_exceptRedis {α : Type} {F : Op → Prop} {m handler : Gw α} (hm : Uses F m)
    (hh : Uses F handler) : Uses F (Fsm.exceptRedis m handler) :=
  Uses.tryExcept hm fun e => by cases e <;> first | exact hh | trivial

lemma uses_fsmGet (sid : String) : Uses (fun o => o.ofOwnership = false) (Fsm.get sid) := by
  refine Uses.bind (uses_exceptRedis (Uses.perform rfl) trivial) ?_
  intro data
  split
  · trivial
  · refine Uses.bind (Uses.tryExcept (Uses.perform rfl) fun _ => trivial) ?_
    intro state
    split
    · trivial
    · exact Uses.bind (uses_exceptRedis (Uses.perform rfl) trivial) fun _ => trivial

lemma uses_transition (sid : String) (ev : StrategyEvent) :
    Uses (fun o => o.ofOwnership = false) (w.transition sid ev) := by
  refine Uses.bind ?_ ?_
  · refine Uses.bind (Uses.tryExcept (uses_fsmGet sid) fun e => by cases e <;> trivial) fun current => ?_
    split
    · trivial
    · refine Uses.bind (Uses.ofExcept _) ?_
      intro _
      refine Uses.bind (uses_exceptRedis (Uses.perform rfl) trivial) ?_
      intro _
      refine Uses.bind (Uses.tryExcept ?_ fun _ => trivial) fun _ => trivial
      exact Uses.bind (Uses.perform rfl) fun _ => Uses.perform rfl
  · intro newState
    split
    · exact Uses.perform rfl
    · trivial

lemma uses_diffStrategy (call : DiffCall) :
    Uses (fun o => o.ofOwnership = false ∧ o.onRecords = false) (w.diffStrategy call) := by
  refine Uses.tryExcept (Uses.bind (Uses.perform ⟨rfl, rfl⟩) fun _ =>
      Uses.bind (Uses.perform ⟨rfl, rfl⟩) fun _ => trivial)
    fun _ => Uses.bind (Uses.bind (Uses.perform ⟨rfl, rfl⟩) ?_) fun _ => trivial
  intro count
  split
  · split
    · exact Uses.bind (Uses.perform ⟨rfl, rfl⟩) fun _ => Uses.perform ⟨rfl, rfl⟩
    · exact Uses.perform ⟨rfl, rfl⟩
  · trivial

lemma uses_processOwned (sid : String) : Uses (fun o => o.ofOwnership = false) (w.processOwned sid) := by
  refine Uses.bind (w.uses_transition sid _) ?_
  intro _
  refine Uses.bind ?_ fun context => Uses.bind ((w.uses_diffStrategy context).mono fun _ h => h.1)
    ?_
  · refine Uses.bind (Uses.perform rfl) ?_
    intro dagJson
    split
    · trivial
    · exact Uses.bind (Uses.perform rfl) fun _ => trivial
  · intro result
    refine Uses.bind ?_ fun _ => Uses.bind ?_ fun _ => Uses.bind (w.uses_transition sid _) fun _ => trivial
    · unfold broadcastQueueMap
      split
      · split
        · exact Uses.perform rfl
        · trivial
      · trivial
    · unfold invokeHandler
      split
      · exact Uses.perform rfl
      · trivial

end Uses

end Worker

end Qmtl.Gateway

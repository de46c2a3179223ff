import Qmtl.Runtime.ActivationManager

/-!
The two ways an order goes out: the steps of `TradeOrderDispatcher`, and `OrderPublishNode`.
-/

namespace Qmtl.Runtime

open Lib

variable (env : Env)

/-! ### The dispatcher -/

/-- What is dispatched: a dict, or something else. -/
inductive Payload where
  | dict (order : Fields)
  | other

inductive Sink where
  | service
  | http
  | kafka
  deriving DecidableEq

/-- What a dispatch does: a call of a sink, which may fail, or an order is suppressed as a duplicate. -/
inductive Entry where
  | call (sink : Sink) (order : Payload) (delivered : Bool)
  | suppressed (order : Fields)

inductive Exn where
  | attributeError
  | service
  | kafka

/-- What is configured: the cache of keys, the custom service, the URL, and the producer with its topic. -/
structure Dispatcher where
  dedup : Bool
  service : Bool
  http : Bool
  kafka : Bool

structure Faults where
  service : Bool
  http : Bool × Bool
  kafka : Bool

structure DispatchState where
  cache : List String
  log : List Entry

def DispatchState.note (s : DispatchState) (es : List Entry) : DispatchState := { s with log := s.log ++ es }

abbrev Step := Payload → DispatchState → Except Exn Bool × DispatchState

def activationGateStep (manager : Option ActivationState) : Step := fun order s =>
  match manager, order with
  | some m, .dict o =>
    match (o.get "side").or (.str "") with
    | .str text =>
      let side := env.builtins.lower.fn text
      if side = "" then (.ok false, s) else (.ok (!allowSide env m side), s)
    -- bytes can be lowered, and are no key of the aliases
    | .bytes _ => (.ok true, s)
    | _ => (.error .attributeError, s)
  | _, _ => (.ok false, s)

lemma activationGateStep_state (manager : Option ActivationState) (order : Payload) (s : DispatchState) :
    (activationGateStep env manager order s).2 = s := by
  unfold activationGateStep
  split
  · split
    · dsimp only
      split <;> rfl
    · rfl
    · rfl
  · rfl

def customServiceDispatchStep (cfg : Dispatcher) (faults : Faults) : Step := fun order s =>
  if cfg.service then
    if faults.service then (.error .service, s.note [.call .service order false])
    else (.ok true, s.note [.call .service order true])
  else (.ok false, s)

def payloadValidationStep : Step := fun order s =>
  match order with
  | .dict o => (.ok (!(o.get "side").truthy), s)
  | .other => (.ok true, s)

def dedupKey (o : Fields) : Option String :=
  let text (v : Value) := v.toStr env.builtins
  if (o.get "side").isNone then none
  else some (text (o.get "side") ++ "|" ++ text (o.get "quantity") ++ "|" ++ text (o.get "timestamp") ++ "|" ++
    text ((o.get "symbol").or (.str "")))

def deduplicationStep (cfg : Dispatcher) : Step := fun order s =>
  match order with
  | .other => (.ok false, s)
  | .dict o =>
    if !cfg.dedup then (.ok false, s)
    else match dedupKey env o with
      | none => (.ok false, s)
      | some key =>
        if key ∈ s.cache then (.ok true, s.note [.suppressed o])
        else (.ok false, { s with cache := s.cache ++ [key] })

def httpSubmitStep (cfg : Dispatcher) (faults : Faults) : Step := fun order s =>
  if !cfg.http then (.ok false, s)
  else if !faults.http.1 then (.ok false, s.note [.call .http order true])
  else (.ok false, s.note [.call .http order false, .call .http order !faults.http.2])

def kafkaSubmitStep (cfg : Dispatcher) (faults : Faults) : Step := fun order s =>
  if !cfg.kafka then (.ok false, s)
  else if faults.kafka then (.error .kafka, s.note [.call .kafka order false])
  else (.ok false, s.note [.call .kafka order true])

def pipeline (cfg : Dispatcher) (manager : Option ActivationState) (faults : Faults) : List Step :=
  [activationGateStep env manager, customServiceDispatchStep cfg faults, payloadValidationStep, deduplicationStep env cfg,
    httpSubmitStep cfg faults, kafkaSubmitStep cfg faults]

def runSteps : List Step → Payload → DispatchState → Except Exn Unit × DispatchState
  | [], _, s => (.ok (), s)
  | step :: steps, order, s =>
    match step order s with
    | (.error e, s) => (.error e, s)
    | (.ok true, s) => (.ok (), s)
    | (.ok false, s) => runSteps steps order s

def dispatch (cfg : Dispatcher) (manager : Option ActivationState) (faults : Faults) (order : Payload)
    (s : DispatchState) : Except Exn Unit × DispatchState :=
  runSteps (pipeline env cfg manager faults) order s

/-! ### The publishing node -/

structure PublishNode where
  commitLog : Bool
  submitOrder : Bool
  interval : Value
  worldId : Option String
  strategyId : Option String

inductive Target where
  | commitLog
  | gateway

def attach (o : Fields) (key : String) (value : Option String) : Fields :=
  match value with
  | none => o
  | some text => if text = "" ∨ (o.get? key).isSome then o else o.set key (.str text)

def applyAlias (o : Fields) (key source : String) : Fields :=
  match o.get? source with
  | some v => if (o.get? key).isSome then o else o.set key v
  | none => o

def prepareGatewayPayload (node : PublishNode) (o : Fields) : Fields :=
  let o := if node.commitLog || node.submitOrder then attach (attach o "world_id" node.worldId) "strategy_id" node.strategyId else o
  applyAlias (applyAlias o "type" "order_type") "time_in_force" "tif"

def normalizeTradeSide (v : Value) : Option String :=
  if v.isNone then none
  else
    let s := env.builtins.lower.fn (v.toStr env.builtins)
    if s ∈ ["buy", "long"] then some "buy"
    else if s ∈ ["sell", "short"] then some "sell"
    else none

def inferByNumeric (o : Fields) : List String → Except Raised (Option String)
  | [] => .ok none
  | key :: keys =>
    if (o.get key).isNone then inferByNumeric o keys
    else match env.float (o.get key) with
      | .ok x => .ok (some (if x.nonneg then "buy" else "sell"))
      | .error .typeError => inferByNumeric o keys
      | .error .valueError => inferByNumeric o keys
      | .error e => .error e

def inferActivationSide (o : Fields) : Except Raised (Option String) :=
  match normalizeTradeSide env (o.get "side") with
  | some side => .ok (some side)
  | none => do
    let quantity ← inferByNumeric env o ["quantity"]
    match quantity with
    | some side => return some side
    | none => inferByNumeric env o ["value", "percent", "target_percent"]

def activationBlocksOrder (manager : Option ActivationState) (o : Fields) : Except Raised Bool :=
  match manager with
  | none => .ok false
  | some m => do
    let side ← inferActivationSide env o
    return side.any fun side => !allowSide env m side

def publish (node : PublishNode) (manager : Option ActivationState) (o : Fields) :
    Except Raised (Option Fields × List (Target × Fields)) := do
  let prepared := prepareGatewayPayload node o
  let blocked ← activationBlocksOrder env manager prepared
  if blocked then return (some prepared, [])
  else if node.interval.isNone then return (none, [])
  else
    let interval ← caught (node.interval.toInt env.builtins)
    if interval.isNone then return (none, [])
    else
      return (some prepared, (if node.commitLog then [(.commitLog, prepared)] else []) ++
        (if node.submitOrder then [(.gateway, prepared)] else []))

end Qmtl.Runtime

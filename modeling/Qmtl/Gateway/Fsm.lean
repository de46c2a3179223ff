import Qmtl.Gateway.Backend

/-! `StrategyFSM`: the machine of a strategy's lifecycle and the calls that move it. -/

namespace Qmtl.Gateway.Fsm

open Lib

def StrategyState.name : StrategyState → String
  | .queued => "queued"
  | .processing => "processing"
  | .completed => "completed"
  | .failed => "failed"

def StrategyEvent.name : StrategyEvent → String
  | .process => "PROCESS"
  | .complete => "COMPLETE"
  | .fail => "FAIL"
  | .retry => "RETRY"

def Machine.on : StrategyState → Option (List (StrategyEvent × StrategyState))
  | .queued => some [(.process, .processing)]
  | .processing => some [(.complete, .completed), (.fail, .failed)]
  | .failed => some [(.retry, .processing)]
  | .completed => none

def Machine.transition (current : StrategyState) (ev : StrategyEvent) : Except Exc StrategyState :=
  match Machine.on current with
  | none => .error (.valueError ("unknown state: " ++ StrategyState.name current))
  | some on =>
    match on.lookup ev with
    | none => .error (.valueError ("invalid event '" ++ StrategyEvent.name ev ++ "' for state '" ++
        StrategyState.name current ++ "'"))
    | some next => .ok next

lemma Machine.transition_ne {st st' : StrategyState} {ev : StrategyEvent}
    (h : Machine.transition st ev = .ok st') : st' ≠ st := by
  cases st <;> cases ev <;> cases h <;> decide

/-! ### The code -/

def exceptRedis {α : Type} (m handler : Gw α) : Gw α :=
  m.tryExcept fun
    | .redisError => handler
    | e => .raise e

def insertStrategy (sid : String) : Gw Unit := do
  ask (.insertRow sid)
  ask (.appendEvent sid (.init .queued))

def create (sid : String) : Gw Unit := do
  exceptRedis (ask (.hsetState sid .queued none)) (.raise (.fsmError "failed to create strategy"))
  (do insertStrategy sid
      ask (.appendEvent sid (.init .queued))).tryExcept fun _ =>
    .raise (.fsmError "failed to create strategy")

def getFromDatabase (sid : String) : Gw (Option StrategyState) := do
  let state ← (ask (.getStatus sid)).tryExcept fun _ =>
    .raise (.fsmError "failed to retrieve strategy")
  match state with
  | none => return none
  | some st =>
    exceptRedis (ask (.hsetState sid st (some st))) (pure ())
    return some st

def get (sid : String) : Gw (Option StrategyState) := do
  let data ← exceptRedis (ask (.hgetState sid)) (pure none)
  match data with
  | some st => return some st
  | none => getFromDatabase sid

def transition (sid : String) (ev : StrategyEvent) : Gw StrategyState := do
  let current ← (get sid).tryExcept fun
    | .fsmError _ => .raise (.transitionError "transition failed")
    | .transitionError _ => .raise (.transitionError "transition failed")
    | e => .raise e
  match current with
  | none => .raise (.valueError "unknown strategy")
  | some cur =>
    let newState ← Coro.ofExcept (Machine.transition cur ev)
    exceptRedis (ask (.hsetState sid newState (some cur)))
      (.raise (.transitionError "transition failed"))
    (do ask (.setStatus sid newState)
        ask (.appendEvent sid (.event ev))).tryExcept fun _ =>
      .raise (.transitionError "transition failed")
    return newState

end Qmtl.Gateway.Fsm

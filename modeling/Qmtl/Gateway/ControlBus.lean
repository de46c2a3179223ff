import Mathlib.Tactic

/-!
Messages of the ControlBus, as `ControlBusConsumer` reads them.
-/

namespace Qmtl.Gateway.ControlBus

/-- A value of a message's data, as far as markers compare it; numbers compare by their value. -/
inductive Value where
  | null
  | num (q : ℚ)
  | str (s : String)
  | other (repr : String)
  deriving DecidableEq, Repr

structure RebalancingPlannedData where
  version : ℤ
  runId : Option String
  plan : String
  deriving DecidableEq, Repr

structure SentinelWeightData where
  sentinelId : String
  weight : ℚ
  version : ℤ
  deriving DecidableEq, Repr

structure Data where
  requiresAck : Bool
  sequence : Option ℤ
  worldId : Option String
  runId : Option String
  checksum : Value
  policyVersion : Value
  version : Value
  isQueueLifecycle : Bool
  tags : List String
  interval : ℤ
  executionDomain : String
  planned : Option RebalancingPlannedData
  sentinel : Option SentinelWeightData
  deriving DecidableEq, Repr

structure ControlBusMessage where
  topic : String
  key : String
  etag : String
  runId : String
  data : Data
  deriving DecidableEq, Repr

namespace ControlBusMessage

variable (msg : ControlBusMessage)

def shouldDropInvalidAckSequence : Bool :=
  msg.topic = "activation" && msg.data.requiresAck && msg.data.sequence.isNone

def sequencedActivationContext : Option ((String × String) × ℤ) :=
  if msg.topic ≠ "activation" || !msg.data.requiresAck then none
  else msg.data.sequence.map fun sequence =>
    ((msg.data.worldId.getD msg.key, msg.data.runId.getD msg.runId), sequence)

def genericMarker (activationSequence : Option ℤ) : List Value :=
  if msg.topic = "policy" then [msg.data.checksum, msg.data.policyVersion]
  else match activationSequence with
    | some n =>
      if msg.topic = "activation" then [.str (msg.data.runId.getD msg.runId), .num n]
      else [.str msg.etag, .str msg.runId]
    | none => [.str msg.etag, .str msg.runId]

end ControlBusMessage

def RebalancingPlannedData.marker (sha256 : String → String) (payload : RebalancingPlannedData) : List Value :=
  let digest := sha256 payload.plan
  [.num payload.version, .str (match payload.runId with
    | some runId => if runId = "" then digest else runId
    | none => digest), .str digest]

def SentinelWeightData.marker (payload : SentinelWeightData) : List Value :=
  [.str payload.sentinelId, .num payload.weight, .num payload.version]

end Qmtl.Gateway.ControlBus

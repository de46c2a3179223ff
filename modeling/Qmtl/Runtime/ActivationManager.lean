import Qmtl.Lib.PyValue

/-!
The activation of a strategy as `ActivationManager` keeps it: how a message is read, what it changes, and what the
two sides are allowed.
-/

namespace Qmtl.Runtime

open Lib

/-! ### Floats -/

/-- A float, by its value. -/
inductive Num where
  | finite (x : ℚ)
  | inf (neg : Bool)
  | nan

namespace Num

def nonneg : Num → Bool
  | finite x => 0 ≤ x
  | inf neg => !neg
  | nan => false

def aboveOne : Num → Bool
  | finite x => 1 < x
  | inf neg => !neg
  | nan => false

def negative : Num → Bool
  | finite x => x < 0
  | inf neg => neg
  | nan => false

def clamp : Num → ℚ
  | finite x => max 0 (min 1 x)
  | inf neg => if neg then 0 else 1
  | nan => 1

end Num

def Num.ofLit (x : FloatLit) : ℚ :=
  let neg := x.text.toList.head? = some '-'
  let cs := if neg then x.text.toList.tail else x.text.toList
  let mantissa := cs.takeWhile (· ≠ 'e')
  let exponent := (cs.dropWhile (· ≠ 'e')).tail
  let fraction := (mantissa.dropWhile (· ≠ '.')).tail
  let e : ℤ := match exponent with
    | '-' :: ds => -(readDigits ds : ℤ)
    | '+' :: ds => readDigits ds
    | ds => readDigits ds
  let n : ℚ := readDigits (mantissa.filter (· ≠ '.'))
  (if neg then -n else n) * (10 : ℚ) ^ (e - fraction.length)

structure Env where
  builtins : Builtins
  lower_ne : ∀ text, text ≠ "" → builtins.lower.fn text ≠ ""
  float : Value → Except Raised Num

def Env.ascii : Env where
  builtins := .ascii
  lower_ne text h := by
    intro hempty
    have hlist := congrArg String.toList hempty
    rw [show Builtins.ascii.lower.fn text = String.ofList (text.toList.map Char.toLower) from rfl,
      String.toList_ofList] at hlist
    exact h (String.toList_eq_nil_iff.mp (List.map_eq_nil_iff.mp hlist))
  float
    | .bool b => .ok (.finite (if b then 1 else 0))
    | .int n => if n.natAbs < 2 ^ 1024 - 2 ^ 970 then .ok (.finite n) else .error .overflowError
    | .float (.finite x) => .ok (.finite (Num.ofLit x))
    | .float (.inf neg) => .ok (.inf neg)
    | .float .nan => .ok .nan
    | .str text => match readDecimal text with
      | some n => .ok (.finite n)
      | none => .error .valueError
    | .bytes _ => .error .valueError
    | _ => .error .typeError

/-! ### State -/

structure SideState where
  active : Bool
  weight : Num
  freeze : Bool
  drain : Bool

structure ActivationState where
  version : ℤ
  long : SideState
  short : SideState
  freeze : Bool
  drain : Bool
  etag : Option String
  runId : Option String
  ts : Option String
  stateHash : Option String
  effectiveMode : Option String
  stale : Bool

def SideState.init : SideState := ⟨false, .finite 1, false, false⟩

def ActivationState.init : ActivationState where
  version := 0
  long := .init
  short := .init
  freeze := false
  drain := false
  etag := none
  runId := none
  ts := none
  stateHash := none
  effectiveMode := none
  stale := true

inductive Side where
  | long
  | short
  deriving DecidableEq

namespace ActivationState

def side (s : ActivationState) : Side → SideState
  | .long => s.long
  | .short => s.short

def setSide (s : ActivationState) (side : Side) (t : SideState) : ActivationState :=
  match side with
  | .long => { s with long := t }
  | .short => { s with short := t }

end ActivationState

/-! ### What is allowed -/

variable (env : Env)

def sideAliases : List (String × Side) := [("buy", .long), ("long", .long), ("sell", .short), ("short", .short)]

def normalizeSide (side : String) : Option Side := sideAliases.lookup (env.builtins.lower.fn side)

def isGloballyInactive (s : ActivationState) : Bool := s.stale || s.freeze || s.drain

def isSideInactive (t : SideState) : Bool := t.freeze || t.drain

def allowSide (s : ActivationState) (side : String) : Bool :=
  match normalizeSide env side with
  | none => false
  | some side =>
    if isGloballyInactive s then false
    else if isSideInactive (s.side side) then false
    else (s.side side).active

def weightForSide (s : ActivationState) (side : String) : ℚ :=
  match normalizeSide env side with
  | none => 0
  | some side =>
    if isGloballyInactive s then 0
    else if isSideInactive (s.side side) then 0
    else if !(s.side side).active then 0
    else (s.side side).weight.clamp

/-! ### Messages -/

/-- A mapping, by what `get` answers. -/
abbrev Mapping := String → Value

def cleanStr (v : Value) : Option String := if v.isNone then none else stripped (v.toStr env.builtins)

def coerceOptionalBool (v : Value) : Option Bool := if v.isNone then none else some v.truthy

def caught {α : Type} : Except Raised α → Except Raised (Option α)
  | .ok a => .ok (some a)
  | .error .typeError => .ok none
  | .error .valueError => .ok none
  | .error e => .error e

def coerceOptionalInt (v : Value) : Except Raised (Option ℤ) :=
  if v.isNone then .ok none else caught (v.toInt env.builtins)

def normalizeWeight (weight : Option Num) (active : Option Bool) : Option Num :=
  match weight with
  | none => active.map fun a => .finite (if a then 1 else 0)
  | some w => some (if w.negative then .finite 0 else if w.aboveOne then .finite 1 else w)

structure ActivationMetadata where
  version : Option ℤ
  etag : Option String
  runId : Option String
  ts : Option String
  stateHash : Option String
  effectiveMode : Option String

structure ActivationUpdate where
  side : Option String
  active : Option Bool
  weight : Option Num
  freeze : Option Bool
  drain : Option Bool
  metadata : ActivationMetadata

def readWeight (payload : Mapping) : Except Raised (Option Num) := do
  let active := coerceOptionalBool (payload "active")
  if (payload "weight").isNone then return normalizeWeight none active
  else
    let weight ← caught (env.float (payload "weight"))
    match weight with
    | none => return none
    | some w => return normalizeWeight (some w) active

def parseActivationUpdate (payload : Mapping) : Except Raised ActivationUpdate := do
  let weight ← readWeight env payload
  let version ← coerceOptionalInt env (payload "version")
  return {
    side := (cleanStr env (payload "side")).map env.builtins.lower.fn
    active := coerceOptionalBool (payload "active")
    weight
    freeze := coerceOptionalBool (payload "freeze")
    drain := coerceOptionalBool (payload "drain")
    metadata := {
      version
      etag := cleanStr env (payload "etag")
      runId := cleanStr env (payload "run_id")
      ts := cleanStr env (payload "ts")
      stateHash := cleanStr env (payload "state_hash")
      effectiveMode := cleanStr env (payload "effective_mode") } }

def isText (v : Value) (text : String) : Bool :=
  match v with
  | .str s => s = text
  | _ => false

def extractActivationPayload (data : Fields) : Option Mapping :=
  let event := (data.get "event").or (data.get "type")
  let payload : Option Mapping := match data.get? "data" with
    | none => some data.get
    | some (.dict items) => some fun key => (Value.lookup key items).getD .none
    | some _ => none
  payload.filter fun p => isText event "activation_updated" || isText (p "type") "ActivationUpdated"

def updateActivationMetadata (s : ActivationState) (m : ActivationMetadata) : ActivationState :=
  { s with
    etag := m.etag.or s.etag
    runId := m.runId.or s.runId
    ts := m.ts.or s.ts
    stateHash := m.stateHash.or s.stateHash
    version := m.version.getD s.version
    effectiveMode := m.effectiveMode.or s.effectiveMode }

def selectSide : Option String → Option Side
  | some "long" => some .long
  | some "short" => some .short
  | _ => none

def applySideUpdate (t : SideState) (u : ActivationUpdate) : SideState where
  active := u.active.getD t.active
  freeze := u.freeze.getD t.freeze
  drain := u.drain.getD t.drain
  weight := u.weight.getD t.weight

def applyGlobalUpdate (t : SideState) (u : ActivationUpdate) : SideState :=
  { t with freeze := u.freeze.getD t.freeze, drain := u.drain.getD t.drain }

def recomputeGlobalModes (s : ActivationState) : ActivationState :=
  { s with freeze := s.long.freeze || s.short.freeze, drain := s.long.drain || s.short.drain }

def applyActivationUpdate (s : ActivationState) (u : ActivationUpdate) : ActivationState :=
  let s := updateActivationMetadata s u.metadata
  let s := match selectSide u.side with
    | some side => s.setSide side (applySideUpdate (s.side side) u)
    | none => { s with long := applyGlobalUpdate s.long u, short := applyGlobalUpdate s.short u }
  recomputeGlobalModes { s with stale := false }

def onMessage (data : Fields) (s : ActivationState) : Except Raised Unit × ActivationState :=
  match extractActivationPayload data with
  | none => (.ok (), s)
  | some payload =>
    match parseActivationUpdate env payload with
    | .error e => (.error e, s)
    | .ok u => (.ok (), applyActivationUpdate s u)

/-! ### The client -/

/-- `ver == 1`. -/
def isOne : Value → Bool
  | .int n => n = 1
  | .bool b => b
  | .float (.finite x) => x.text = "1.0"
  | _ => false

/-- What `WebSocketClient._handle` asks of an event before it hands it to `on_message`. -/
def accepts (data : Fields) : Except Raised Bool :=
  if isText ((data.get "event").or (data.get "type")) "ack" then .ok true
  else match data.get? "data" with
  | none => .ok (isOne (data.get "version"))
  | some (.dict items) => .ok (isOne ((Value.lookup "version" items).getD .none))
  | some _ => .error .attributeError

/-- `WebSocketClient._handle`; its handlers of queue and sentinel events touch no gate. -/
def handle (data : Fields) (s : ActivationState) : Except Raised Unit × ActivationState :=
  match accepts data with
  | .error e => (.error e, s)
  | .ok false => (.ok (), s)
  | .ok true => onMessage env data s

lemma side_applyActivationUpdate (s : ActivationState) (u : ActivationUpdate) (side : Side) :
    (applyActivationUpdate s u).side side =
      match selectSide u.side with
      | some target => if target = side then applySideUpdate (s.side side) u else s.side side
      | none => applyGlobalUpdate (s.side side) u := by
  unfold applyActivationUpdate
  cases hside : selectSide u.side with
  | none => cases side <;> rfl
  | some target => cases target <;> cases side <;> rfl

end Qmtl.Runtime

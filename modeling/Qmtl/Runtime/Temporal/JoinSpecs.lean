import Qmtl.Lib.PyValue

/-!
The join specs of temporal alignment: durations and intervals, the metadata of nodes, and `infer_join_specs`.
-/

namespace Qmtl.Runtime.Temporal

open Lib

/-- What alignment can raise: a `ValueError` or a `TypeError` with its text, or what a built-in raises. -/
inductive AlignError where
  | value (message : String)
  | type (message : String)
  | builtin (r : Raised)

structure TemporalBuiltins extends Builtins where
  eq : Value → Value → Bool
  digit : Char → Bool
  millisOfInt : ℤ → Except Raised ℤ
  millisOfFloat : PyFloat → Except Raised ℤ
  scale : String → ℕ → Except Raised ℤ

variable (B : TemporalBuiltins)

def quote (text : String) : String := B.repr (.str text)

def quoteSorted (names : List String) : String :=
  join ", " ((names.insertionSort fun a b => a ≤ b).map (quote B))

def lift {α : Type} : Except Raised α → Except AlignError α
  | .ok a => .ok a
  | .error r => .error (.builtin r)

/-! ### Durations and intervals -/

inductive Duration where
  | none
  | int (n : ℤ)
  | float (x : PyFloat)
  | text (s : String)

def durationFactor : String → Option ℕ
  | "" => some 1000
  | "ms" => some 1
  | "s" => some 1000
  | "m" => some 60000
  | "h" => some 3600000
  | "d" => some 86400000
  | _ => none

def matchDuration (s : String) : Option (String × ℕ) :=
  let cs := s.toList.dropWhile isSpace
  let whole := cs.takeWhile B.digit
  let rest := cs.dropWhile B.digit
  let fraction := if rest.head? = some '.' then '.' :: rest.tail.takeWhile B.digit else []
  let rest := if rest.head? = some '.' then rest.tail.dropWhile B.digit else rest
  if whole = [] ∨ fraction = ['.'] then none
  else
    (durationFactor (String.ofList (rest.rdropWhile isSpace))).map fun factor =>
      (String.ofList (whole ++ fraction), factor)

def durationToMs (value : Duration) (default : Option ℤ) : Except AlignError (Option ℤ) :=
  match value with
  | .none => .ok default
  | .int n => some <$> lift (B.millisOfInt n)
  | .float x => some <$> lift (B.millisOfFloat x)
  | .text s =>
    match matchDuration B s with
    | none => .error (.value ("invalid duration: " ++ quote B s))
    | some (amount, factor) => some <$> lift (B.scale amount factor)

inductive IntervalArg where
  | int (n : ℤ)
  | text (s : String)

def parseTimeStr (value : String) : Except AlignError ℤ :=
  let text := (B.lower.fn (strip value)).toList
  let num := text.takeWhile B.digit
  let seconds : Option ℤ := match text.dropWhile B.digit with
    | ['s'] => some 1
    | ['m'] => some 60
    | ['h'] => some 3600
    | ['d'] => some 86400
    | _ => none
  match seconds, B.parseInt (String.ofList num) with
  | some unit, some n => .ok (n * unit)
  | _, _ => .error (.value ("invalid time format: " ++ quote B value))

def parseInterval : Option IntervalArg → Except AlignError ℤ
  | none => .error (.value "interval must not be None")
  | some (.int n) =>
    if n ≤ 0 then .error (.value "interval must be positive")
    else if n > 86400 then .error (.value "interval must not exceed 24 hours (86400 seconds)")
    else .ok n
  | some (.text s) => do
    let result ← parseTimeStr B s
    if result > 86400 then .error (.value "interval must not exceed 24 hours (86400 seconds)")
    .ok result

/-! ### Specs -/

inductive TemporalKind where
  | bar
  | event
  | state
  deriving DecidableEq

def temporalKind? : String → Option TemporalKind
  | "bar" => some .bar
  | "event" => some .event
  | "state" => some .state
  | _ => none

structure TemporalSpec where
  kind : TemporalKind := .bar
  receivedTs : Option String := some "received_ts"
  maxOutOfOrder : Duration := .int 0
  idleAfter : Duration := .none

/-- A `TemporalSpec`, or a mapping by the fields it has; `unknown` are its names that are not fields. -/
inductive TemporalArg where
  | spec (s : TemporalSpec)
  | mapping (kind : Option String) (receivedTs : Option (Option String)) (maxOutOfOrder idleAfter : Option Duration)
      (unknown : List String)

def coerceTemporalSpec : TemporalArg → Except AlignError TemporalSpec
  | .spec s => .ok s
  | .mapping kind receivedTs maxOutOfOrder idleAfter unknown => do
    match unknown with
    | [] => .ok ()
    | name :: _ =>
      .error (.type ("TemporalSpec.__init__() got an unexpected keyword argument " ++ quote B name))
    let kind := kind.getD "bar"
    match temporalKind? kind with
    | none => .error (.value ("unsupported temporal kind: " ++ quote B kind))
    | some kind =>
      .ok {
        kind
        receivedTs := receivedTs.getD (some "received_ts")
        maxOutOfOrder := maxOutOfOrder.getD (.int 0)
        idleAfter := idleAfter.getD .none }

inductive JoinMode where
  | exact
  | asof
  | interval
  | temporal
  deriving DecidableEq

/-- The check of `__post_init__`. -/
def joinMode (mode : String) : Except AlignError JoinMode :=
  if mode = "exact" then .ok .exact
  else if mode = "asof" then .ok .asof
  else if mode = "interval" then .ok .interval
  else if mode = "temporal" then .ok .temporal
  else .error (.value ("unsupported join mode: " ++ quote B mode))

structure AlignmentFields where
  alias? : Option String := none
  partitionKey : Option String := none
  mode : Option String := none
  tolerance : Option Duration := none
  maxAge : Option Duration := none
  required : Option Bool := none
  closedOnly : Option Bool := none
  partitionValue : Option Value := none
  unknown : List String := []

structure Node where
  nodeId : String
  interval : Option IntervalArg
  temporal : Option TemporalArg := none
  configTemporal : Option TemporalArg := none
  alignment : Option AlignmentFields := none
  configAlignment : Option AlignmentFields := none

inductive NodeRef where
  | node (n : Node)
  | name (id : String)

def NodeRef.nodeId : NodeRef → String
  | node n => n.nodeId
  | name id => id

structure JoinSpec where
  node : NodeRef
  interval : Option IntervalArg := none
  mode : JoinMode := .asof
  tolerance : Duration := .none
  maxAge : Duration := .none
  required : Bool := true
  closedOnly : Bool := true
  partitionKey : Option String := none
  partitionValue : Value := .none
  temporal : Option TemporalSpec := none

def intOfInterval : IntervalArg → Except AlignError ℤ
  | .int n => .ok n
  | .text s => lift (Value.toInt B.toBuiltins (.str s))

def JoinSpec.intervalValue (spec : JoinSpec) : Except AlignError ℤ :=
  let ofNode := match spec.node with
    | .node n => n.interval
    | .name _ => none
  match spec.interval.or ofNode with
  | none => .error (.value ("interval is required for JoinSpec[" ++ quote B spec.node.nodeId ++ "]"))
  | some interval => intOfInterval B interval

structure JoinOverride where
  interval : Option (Option IntervalArg) := none
  mode : Option String := none
  tolerance : Option Duration := none
  maxAge : Option Duration := none
  required : Option Bool := none
  closedOnly : Option Bool := none
  partitionKey : Option (Option String) := none
  partitionValue : Option Value := none
  temporal : Option (Option TemporalArg) := none
  unknown : List String := []

structure JoinData where
  interval : Option (Option IntervalArg) := none
  mode : Option String := none
  tolerance : Option Duration := none
  maxAge : Option Duration := none
  required : Option Bool := none
  closedOnly : Option Bool := none
  partitionKey : Option (Option String) := none
  partitionValue : Option Value := none
  temporal : Option (Option TemporalSpec) := none

def JoinData.update (d d' : JoinData) : JoinData where
  interval := d'.interval.or d.interval
  mode := d'.mode.or d.mode
  tolerance := d'.tolerance.or d.tolerance
  maxAge := d'.maxAge.or d.maxAge
  required := d'.required.or d.required
  closedOnly := d'.closedOnly.or d.closedOnly
  partitionKey := d'.partitionKey.or d.partitionKey
  partitionValue := d'.partitionValue.or d.partitionValue
  temporal := d'.temporal.or d.temporal

def JoinSpec.replace (spec : JoinSpec) (d : JoinData) : Except AlignError JoinSpec := do
  let mode ← match d.mode with
    | none => .ok spec.mode
    | some mode => joinMode B mode
  .ok {
    node := spec.node
    interval := d.interval.getD spec.interval
    mode
    tolerance := d.tolerance.getD spec.tolerance
    maxAge := d.maxAge.getD spec.maxAge
    required := d.required.getD spec.required
    closedOnly := d.closedOnly.getD spec.closedOnly
    partitionKey := d.partitionKey.getD spec.partitionKey
    partitionValue := d.partitionValue.getD spec.partitionValue
    temporal := d.temporal.getD spec.temporal }

/-! ### Inference -/

def alignmentForNode (node : Node) : Except AlignError (Option AlignmentFields) :=
  match node.alignment.or node.configAlignment with
  | none => .ok none
  | some fields => do
    match fields.unknown with
    | [] => .ok ()
    | name :: _ =>
      .error (.type ("AlignmentInputSpec.__init__() got an unexpected keyword argument " ++ quote B name))
    match fields.mode with
    | none => .ok ()
    | some mode => discard (joinMode B mode)
    if (fields.alias?.map strip) = some "" then .error (.value "alignment alias must not be empty")
    .ok (some fields)

def alignmentJoinData (node : Node) : Except AlignError JoinData := do
  match ← alignmentForNode B node with
  | none => .ok {}
  | some a =>
    .ok {
      mode := a.mode
      tolerance := a.tolerance
      maxAge := a.maxAge
      required := a.required
      closedOnly := a.closedOnly
      partitionKey := a.partitionKey.map some
      partitionValue := a.partitionValue }

def joinOverrideData : Option JoinOverride → Except AlignError JoinData
  | none => .ok {}
  | some o => do
    if o.unknown ≠ [] then
      .error (.value ("unsupported JoinSpec override field(s): " ++ quoteSorted B o.unknown))
    let temporal ← match o.temporal with
      | none => .ok none
      | some none => .ok (some none)
      | some (some t) => (some ∘ some) <$> coerceTemporalSpec B t
    let interval ← match o.interval with
      | none => .ok none
      | some none => .ok (some none)
      | some (some i) => (fun n => some (some (.int n))) <$> parseInterval B (some i)
    .ok {
      interval
      mode := o.mode
      tolerance := o.tolerance
      maxAge := o.maxAge
      required := o.required
      closedOnly := o.closedOnly
      partitionKey := o.partitionKey
      partitionValue := o.partitionValue
      temporal }

def temporalForInference (name : String) (node : Node) (d : JoinData) : Except AlignError TemporalSpec := do
  let temporal ← match d.temporal with
    | some temporal => .ok temporal
    | none =>
      match node.temporal.or node.configTemporal with
      | none => .ok none
      | some t => some <$> coerceTemporalSpec B t
  match temporal with
  | none => .error (.value ("cannot infer JoinSpec for input " ++ quote B name ++ ": node has no temporal metadata"))
  | some spec => .ok spec

def intervalForInference (name : String) (node : Node) (d : JoinData) : Except AlignError ℤ :=
  match d.interval.getD node.interval with
  | none => .error (.value ("cannot infer JoinSpec for input " ++ quote B name ++ ": interval is missing"))
  | some interval => parseInterval B (some interval)

def sameNodeInterval (node trigger : Node) : Except AlignError Bool :=
  if node.nodeId = trigger.nodeId then do
    let i ← parseInterval B node.interval
    let j ← parseInterval B trigger.interval
    .ok (i = j)
  else .ok false

def inferredJoinSpec (node : Node) (interval : ℤ) (temporal : TemporalSpec) (triggerInput : Bool)
    (partitionKey : Option String) : JoinSpec where
  node := .node node
  interval := some (.int interval)
  mode := if triggerInput then .exact else if temporal.kind = .state then .temporal else .asof
  closedOnly := temporal.kind = .bar
  partitionKey := partitionKey
  temporal := some temporal
  maxAge := if triggerInput ∨ temporal.kind = .bar then .none else temporal.idleAfter

def Duration.isNone : Duration → Bool
  | none => true
  | int _ => false
  | float _ => false
  | text _ => false

def validateInferredJoinSpec (name : String) (spec : JoinSpec) (triggerInput : Bool) : Except AlignError Unit :=
  match spec.temporal with
  | none => .error (.value ("cannot infer JoinSpec for input " ++ quote B name ++ ": temporal metadata is missing"))
  | some temporal =>
    if triggerInput ∨ temporal.kind = .bar then .ok ()
    else if spec.mode ≠ .asof ∧ spec.mode ≠ .temporal then .ok ()
    else if !spec.maxAge.isNone ∨ !spec.tolerance.isNone then .ok ()
    else
      .error (.value ("cannot infer JoinSpec for input " ++ quote B name ++
        ": event/state context inputs require max_age, tolerance, or TemporalSpec.idle_after"))

/-- An input, or a trigger: a join spec, a node, or an object of another type. -/
inductive InputArg where
  | spec (s : JoinSpec)
  | node (n : Node)
  | other (typeName : String)

def requireNodeLike (role : String) : InputArg → Except AlignError Node
  | .node n => .ok n
  | .spec s => .ok { nodeId := s.node.nodeId, interval := s.interval }
  | .other typeName => .error (.type ("temporal alignment " ++ role ++ " must be a node, not " ++ typeName))

def JoinSpec.infer (name : String) (input : InputArg) (trigger : Option Node) (partitionKey : Option String)
    (override : Option JoinOverride) : Except AlignError JoinSpec :=
  match input with
  | .spec spec => do spec.replace B (← joinOverrideData B override)
  | input => do
    match trigger with
    | none => .error (.value ("trigger is required to infer JoinSpec for input " ++ quote B name))
    | some trigger =>
      let candidate ← requireNodeLike ("input " ++ quote B name) input
      let data := (← alignmentJoinData B candidate).update (← joinOverrideData B override)
      let temporal ← temporalForInference B name candidate data
      let interval ← intervalForInference B name candidate data
      let triggerInput ← sameNodeInterval B candidate trigger
      let key := partitionKey.or (data.partitionKey.getD none)
      let spec ← (inferredJoinSpec candidate interval temporal triggerInput key).replace B data
      validateInferredJoinSpec B name spec triggerInput
      .ok spec

def validateOverrideNames (inputs : Dict String InputArg) (overrides : Dict String JoinOverride) : Except AlignError Unit :=
  let unknown := overrides.keys.filter fun name => name ∉ inputs.keys
  if unknown = [] then .ok ()
  else .error (.value ("JoinSpec overrides reference unknown inputs: " ++ quoteSorted B unknown))

def requireTrigger (inputs : Dict String InputArg) (trigger : Option InputArg) : Except AlignError (Option Node) :=
  if inputs.values.all fun input => match input with
    | .spec _ => true
    | .node _ => false
    | .other _ => false
  then .ok none
  else
    match trigger with
    | none => .error (.value "trigger is required to infer JoinSpec from nodes")
    | some trigger => some <$> requireNodeLike "trigger" trigger

def inferJoinSpecs (inputs : Dict String InputArg) (trigger : Option InputArg) (partitionKey : Option String)
    (overrides : Dict String JoinOverride) : Except AlignError (List (String × JoinSpec)) := do
  validateOverrideNames B inputs overrides
  let trigger ← requireTrigger inputs trigger
  inputs.entries.mapM fun e => do
    let spec ← JoinSpec.infer B e.1 e.2 trigger partitionKey (overrides.get? e.1)
    .ok (e.1, spec)

end Qmtl.Runtime.Temporal

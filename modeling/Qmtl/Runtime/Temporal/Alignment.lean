import Qmtl.Runtime.Temporal.JoinSpecs

/-!
`align_temporal`: what each input of an aligned node is given at a trigger, and its status.
-/

namespace Qmtl.Runtime.Temporal

open Lib

variable (B : TemporalBuiltins)

/-- `(timestamp, payload)`. -/
abbrev Entry := ℤ × Value

abbrev View := Dict String (Dict ℤ (List Entry))

def View.entriesOf (view : View) (nodeId : String) (interval : ℤ) : List Entry :=
  ((view.get? nodeId).bind fun series => series.get? interval).getD []

inductive LatePolicy where
  | drop
  | sideOutput
  | recompute
  deriving DecidableEq

structure WatermarkPolicy where
  maxDrift : Duration := .none
  late : LatePolicy := .sideOutput

/-- What an input is given: nothing, a payload, or the entries of an interval. -/
inductive AlignedValue where
  | none
  | payload (v : Value)
  | entries (es : List Entry)

structure AlignmentInputStatus where
  name : String
  ready : Bool
  reason : Option String
  required : Bool
  selectedTs : Option ℤ := none
  ageMs : Option ℤ := none
  stale : Bool := false
  missing : Bool := false
  late : Bool := false
  quality : Option String := none

structure AlignmentStatus where
  ready : Bool
  triggerTs : ℤ
  reason : Option String
  missingInputs : List String
  staleInputs : List String
  lateInputs : List String
  qualityInputs : List (String × String)
  selectedTs : List (String × Option ℤ)
  ageMs : List (String × Option ℤ)
  inputs : List (String × AlignmentInputStatus)

structure AlignedView where
  data : List (String × AlignedValue)
  status : AlignmentStatus
  triggerTs : ℤ
  partition : Dict String Value

/-! ### Selecting entries -/

def field? (key : String) : Value → Option Value
  | .dict items => Value.lookup key items
  | _ => none

def isMapping : Value → Bool
  | .dict _ => true
  | _ => false

def isFalse : Value → Bool
  | .bool b => !b
  | _ => false

def payloadMatches (spec : JoinSpec) (payload : Value) (partition : Dict String Value) : Bool :=
  if spec.closedOnly && (field? "is_final" payload).any isFalse then false
  else
    match spec.partitionKey with
    | none => true
    | some key =>
      let expected := if spec.partitionValue.isNone then (partition.get? key).getD .none else spec.partitionValue
      if expected.isNone then true else isMapping payload && B.eq ((field? key payload).getD .none) expected

def matchingEntries (spec : JoinSpec) (partition : Dict String Value) (entries : List Entry) : List Entry :=
  (entries.filter fun e => payloadMatches B spec e.2 partition).insertionSort fun e e' => e.1 ≤ e'.1

def filteredEntries (view : View) (spec : JoinSpec) (partition : Dict String Value) : Except AlignError (List Entry) :=
  match view.get? spec.node.nodeId with
  | none => .ok []
  | some series => do
    let interval ← spec.intervalValue B
    match series.get? interval with
    | none => .ok []
    | some entries => .ok (matchingEntries B spec partition entries)

def wholeSeconds (ms : ℤ) : ℤ := ms.tdiv 1000

def lookbackMs (spec : JoinSpec) : Except AlignError (Option ℤ) := do
  match ← durationToMs B spec.tolerance none with
  | some ms => .ok (some ms)
  | none => durationToMs B spec.maxAge none

def selectIntervalEntries (entries : List Entry) (spec : JoinSpec) (triggerTs : ℤ) : Except AlignError (List Entry) := do
  match ← lookbackMs B spec with
  | none => .ok (entries.filter fun e => e.1 = triggerTs)
  | some ms => .ok (entries.filter fun e => triggerTs - wholeSeconds ms ≤ e.1 ∧ e.1 ≤ triggerTs)

def selectEntries (entries : List Entry) (spec : JoinSpec) (triggerTs : ℤ) : Except AlignError (List Entry) :=
  match spec.mode with
  | .exact => .ok (entries.filter fun e => e.1 = triggerTs)
  | .asof => .ok (entries.filter fun e => e.1 ≤ triggerTs).getLast?.toList
  | .temporal => .ok (entries.filter fun e => e.1 ≤ triggerTs).getLast?.toList
  | .interval => selectIntervalEntries B entries spec triggerTs

/-! ### The status of an input -/

def isStale (spec : JoinSpec) (selectedTs triggerTs ageMs : ℤ) : Except AlignError Bool := do
  let maxAge ← durationToMs B spec.maxAge none
  let tolerance ← durationToMs B spec.tolerance none
  let eventAgeMs := max 0 (triggerTs - selectedTs) * 1000
  .ok ([maxAge, tolerance].reduceOption.any fun bound => bound < eventAgeMs || bound < ageMs)

def looksLikeCacheEntries : Value → Bool
  | .list items => items.all fun item =>
    match item with
    | .list pair => pair.length = 2
    | _ => false
  | _ => false

def entryPayloads : Value → List Value
  | .list items => items.map fun item =>
    match item with
    | .list pair => pair.getLast?.getD .none
    | _ => .none
  | _ => []

def statusPayloads : AlignedValue → List Value
  | .none => []
  | .entries es => es.map Prod.snd
  | .payload v => if looksLikeCacheEntries v then entryPayloads v else [v]

def receivedTs (spec : JoinSpec) (value : AlignedValue) : Except AlignError (Option ℤ) :=
  let field := match spec.temporal with
    | none => some "received_ts"
    | some temporal => temporal.receivedTs
  match field with
  | none => .ok none
  | some field =>
    if field = "" then .ok none
    else
      match (statusPayloads value).getLast?.bind (field? field) with
      | none => .ok none
      | some received => some <$> lift (received.toInt B.toBuiltins)

def isLate (spec : JoinSpec) (value : AlignedValue) (triggerTs : ℤ) : Except AlignError Bool := do
  match ← receivedTs B spec value with
  | none => .ok false
  | some received =>
    let maxOutOfOrder ← match spec.temporal with
      | none => .ok 0
      | some temporal => (·.getD 0) <$> durationToMs B temporal.maxOutOfOrder (some 0)
    .ok (received > triggerTs + wholeSeconds maxOutOfOrder)

def badQualityValues : List String := ["bad", "gap", "sequence_gap", "stale", "invalid"]

def qualityForPayload (payload : Value) : Option String :=
  match field? "sequence_gap" payload with
  | some (.bool true) => some "sequence_gap"
  | _ =>
    match field? "quality" payload with
    | none => none
    | some .none => none
    | some quality =>
      let text := quality.toStr B.toBuiltins
      if B.lower.fn text ∈ badQualityValues then some text else none

def qualityFor (value : AlignedValue) : Option String :=
  ((statusPayloads value).filterMap (qualityForPayload B)).find? fun quality => quality ≠ ""

def inputReason (stale late : Bool) (quality : Option String) (policy : WatermarkPolicy) : Option String :=
  if quality.isSome then some "quality"
  else if stale then some "stale"
  else if late && policy.late ≠ .recompute then some "late"
  else none

def alignOne (view : View) (name : String) (spec : JoinSpec) (triggerTs nowTs : ℤ) (partition : Dict String Value)
    (policy : WatermarkPolicy) : Except AlignError (AlignedValue × AlignmentInputStatus) := do
  let entries ← filteredEntries B view spec partition
  let selected ← selectEntries B entries spec triggerTs
  match selected.getLast? with
  | none =>
    .ok (.none, { name, ready := false, reason := some "missing", required := spec.required, missing := true })
  | some (selectedTs, payload) =>
    let value := if spec.mode ≠ .interval then AlignedValue.payload payload else .entries selected
    let ageMs := max 0 (nowTs - selectedTs) * 1000
    let stale ← isStale B spec selectedTs triggerTs ageMs
    let late ← isLate B spec value triggerTs
    let quality := qualityFor B value
    let reason := inputReason stale late quality policy
    .ok (value,
      { name, ready := reason.isNone, reason, required := spec.required, selectedTs := some selectedTs,
        ageMs := some ageMs, stale, late, quality })

/-! ### The status of the view -/

def driftBlocking (statuses : List (String × AlignmentInputStatus)) (policy : WatermarkPolicy) :
    Except AlignError (List String) := do
  match ← durationToMs B policy.maxDrift none with
  | none => .ok []
  | some maxDriftMs =>
    let readyAges := statuses.filterMap fun e => if e.2.ready then e.2.ageMs.map (e.1, ·) else none
    match (readyAges.map Prod.snd).min? with
    | none => .ok []
    | some fastest =>
      if readyAges.length < 2 then .ok []
      else .ok ((readyAges.filter fun e => e.2 - fastest > maxDriftMs).map Prod.fst)

def blockingReason (blocking : List AlignmentInputStatus) : String :=
  if blocking.any AlignmentInputStatus.missing then "missing_inputs"
  else if blocking.any AlignmentInputStatus.stale then "stale_inputs"
  else if blocking.any AlignmentInputStatus.late then "late_inputs"
  else "quality"

def overallReason (statuses : List (String × AlignmentInputStatus)) (drift : List String) : Option String :=
  if drift ≠ [] then some "drift"
  else
    let requiredBlocking := (statuses.map Prod.snd).filter fun status => !status.ready && status.required
    if requiredBlocking.isEmpty then none else some (blockingReason requiredBlocking)

def namesOf (statuses : List (String × AlignmentInputStatus)) (p : AlignmentInputStatus → Bool) : List String :=
  (statuses.filter fun e => p e.2).map Prod.fst

def buildStatus (statuses : List (String × AlignmentInputStatus)) (triggerTs : ℤ) (policy : WatermarkPolicy) :
    Except AlignError AlignmentStatus := do
  let drift ← driftBlocking B statuses policy
  let reason := overallReason statuses drift
  .ok {
    ready := reason.isNone
    triggerTs
    reason
    missingInputs := namesOf statuses AlignmentInputStatus.missing
    staleInputs := namesOf statuses AlignmentInputStatus.stale
    lateInputs := namesOf statuses AlignmentInputStatus.late
    qualityInputs := statuses.filterMap fun e => e.2.quality.map (e.1, ·)
    selectedTs := statuses.map fun e => (e.1, e.2.selectedTs)
    ageMs := statuses.map fun e => (e.1, e.2.ageMs)
    inputs := statuses }

structure AlignArgs where
  inputs : Dict String InputArg
  triggerTs : ℤ
  trigger : Option InputArg := none
  nowTs : Option ℤ := none
  partition : Dict String Value := Dict.empty
  partitionKey : Option String := none
  overrides : Dict String JoinOverride := Dict.empty
  watermarkPolicy : WatermarkPolicy := {}

def alignTemporal (view : View) (args : AlignArgs) : Except AlignError AlignedView := do
  let now := args.nowTs.getD args.triggerTs
  let specs ← inferJoinSpecs B args.inputs args.trigger args.partitionKey args.overrides
  let aligned ← specs.mapM fun e => do
    let one ← alignOne B view e.1 e.2 args.triggerTs now args.partition args.watermarkPolicy
    .ok (e.1, one)
  let status ← buildStatus B (aligned.map fun e => (e.1, e.2.2)) args.triggerTs args.watermarkPolicy
  .ok {
    data := aligned.map fun e => (e.1, e.2.1)
    status
    triggerTs := args.triggerTs
    partition := args.partition }

end Qmtl.Runtime.Temporal

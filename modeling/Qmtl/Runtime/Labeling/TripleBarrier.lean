import Qmtl.Lib.DictLoops

/-!
The triple barrier state machine: entries wait for the observation that ends them, with a profit target, a stop loss or
a timeout. Prices and returns are rational numbers; times are microseconds since the first of January of the year 1,
and end where `datetime` does.
-/

namespace Qmtl.Runtime.Labeling

open Lib

/-! ### Specifications -/

inductive LabelOutcome
  | profitTarget
  | stopLoss
  | timeout
  deriving DecidableEq

def LabelOutcome.value : LabelOutcome → String
  | .profitTarget => "profit_target"
  | .stopLoss => "stop_loss"
  | .timeout => "timeout"

/-- `BarrierMode`; `returns` is the source's `RETURN`. -/
inductive BarrierMode
  | price
  | returns
  deriving DecidableEq

structure BarrierSpec where
  profitTarget : Option ℚ
  stopLoss : Option ℚ
  mode : BarrierMode := .returns
  frozenAt : Option ℤ := none
  deriving DecidableEq

structure HorizonSpec where
  maxDuration : Option ℤ := none
  maxBars : Option ℤ := none
  frozenAt : Option ℤ := none
  deriving DecidableEq

def FrozenAt (frozenAt : Option ℤ) (entryTime : ℤ) : Prop := ∀ t ∈ frozenAt, t = entryTime

instance decidableFrozenAt (frozenAt : Option ℤ) (entryTime : ℤ) : Decidable (FrozenAt frozenAt entryTime) :=
  inferInstanceAs (Decidable (∀ t ∈ frozenAt, t = entryTime))

structure CostEstimate where
  totalCost : ℚ
  minEdge : ℚ
  costModelId : Option String
  slippageModelId : Option String
  totalCost_nonneg : 0 ≤ totalCost
  minEdge_nonneg : 0 ≤ minEdge

def CostEstimate.totalAdjustment (c : CostEstimate) : ℚ := c.totalCost + c.minEdge

lemma CostEstimate.totalAdjustment_nonneg (c : CostEstimate) : 0 ≤ c.totalAdjustment :=
  add_nonneg c.totalCost_nonneg c.minEdge_nonneg

/-! ### Entries and observations -/

inductive Side
  | long
  | short
  deriving DecidableEq

structure TripleBarrierEntry where
  entryTime : ℤ
  entryPrice : ℚ
  side : String
  entryId : Option String
  symbol : Option String
  metadata : List (String × String)

structure TripleBarrierObservation where
  observedTime : ℤ
  price : ℚ
  symbol : Option String

structure NormalizedEntry where
  entryTime : ℤ
  entryPrice : ℚ
  side : Side
  entryId : String
  symbol : Option String
  metadata : List (String × String)
  entryPrice_pos : 0 < entryPrice

structure CostContext where
  entryTime : ℤ
  entryPrice : ℚ
  side : Side
  symbol : Option String
  metadata : List (String × String)

structure EntryState where
  entry : NormalizedEntry
  barrier : BarrierSpec
  horizon : HorizonSpec
  cost : CostEstimate
  barsObserved : ℕ
  barrier_frozen : FrozenAt barrier.frozenAt entry.entryTime
  horizon_frozen : FrozenAt horizon.frozenAt entry.entryTime

/-- A label; the last fields are what `__post_init__` asks. -/
structure TripleBarrierLabel where
  entryId : String
  entryTime : ℤ
  resolvedTime : ℤ
  entryPrice : ℚ
  resolvedPrice : ℚ
  side : Side
  outcome : LabelOutcome
  barrier : BarrierSpec
  horizon : HorizonSpec
  realizedReturn : ℚ
  pnlGross : ℚ
  pnlNet : ℚ
  reason : String
  outcomeGross : Option LabelOutcome
  netOnlyStop : Bool
  cost : ℚ
  minEdge : ℚ
  costModelId : Option String
  slippageModelId : Option String
  symbol : Option String
  metadata : List (String × String)
  resolved_later : entryTime < resolvedTime
  barrier_frozen : FrozenAt barrier.frozenAt entryTime
  horizon_frozen : FrozenAt horizon.frozenAt entryTime

/-! ### Outcomes -/

def signedReturn (entryPrice observedPrice : ℚ) : Side → ℚ
  | .long => (observedPrice - entryPrice) / entryPrice
  | .short => (entryPrice - observedPrice) / entryPrice

def firstOf (target stop : Bool) : Option LabelOutcome :=
  if target then some .profitTarget else if stop then some .stopLoss else none

def priceOutcome (barrier : BarrierSpec) (side : Side) (observedPrice : ℚ) : Option LabelOutcome :=
  match side with
  | .long => firstOf (barrier.profitTarget.any fun pt => pt ≤ observedPrice)
      (barrier.stopLoss.any fun sl => observedPrice ≤ sl)
  | .short => firstOf (barrier.profitTarget.any fun pt => observedPrice ≤ pt)
      (barrier.stopLoss.any fun sl => sl ≤ observedPrice)

def returnOutcome (barrier : BarrierSpec) (realizedReturn : ℚ) : Option LabelOutcome :=
  firstOf (barrier.profitTarget.any fun pt => pt ≤ realizedReturn)
    (barrier.stopLoss.any fun sl => realizedReturn ≤ -sl)

def barrierOutcome (barrier : BarrierSpec) (side : Side) (observedPrice realizedReturn : ℚ) : Option LabelOutcome :=
  match barrier.mode with
  | .price => priceOutcome barrier side observedPrice
  | .returns => returnOutcome barrier realizedReturn

def netAdjustedPrice (entryPrice observedPrice : ℚ) (side : Side) (totalAdjustment : ℚ) : ℚ :=
  let direction : ℚ := match side with
    | .long => 1
    | .short => -1
  observedPrice - direction * entryPrice * totalAdjustment

def netBarrierOutcome (barrier : BarrierSpec) (side : Side) (entryPrice observedPrice netReturn totalAdjustment : ℚ) :
    Option LabelOutcome :=
  match barrier.mode with
  | .price => priceOutcome barrier side (netAdjustedPrice entryPrice observedPrice side totalAdjustment)
  | .returns => returnOutcome barrier netReturn

structure OutcomeResolution where
  outcome : LabelOutcome
  outcomeGross : Option LabelOutcome
  netOnlyStop : Bool

def resolveOutcomes (barrier : BarrierSpec) (side : Side)
    (entryPrice observedPrice realizedReturn netReturn totalAdjustment : ℚ) (timeout : Bool) :
    Option OutcomeResolution :=
  let outcomeGross := barrierOutcome barrier side observedPrice realizedReturn
  let net := netBarrierOutcome barrier side entryPrice observedPrice netReturn totalAdjustment
  let outcome := if net = none ∧ timeout = true then some .timeout else net
  outcome.map fun outcome => ⟨outcome, outcomeGross, outcome = .stopLoss && outcomeGross = none⟩

/-- `datetime.max`. -/
def datetimeMax : ℤ := 315537897599999999

/-- A `datetime` plus a positive `timedelta`. -/
def addDuration (t d : ℤ) : Except String ℤ :=
  if t + d ≤ datetimeMax then .ok (t + d) else .error "date value out of range"

def isTimeout (state : EntryState) (observedTime : ℤ) : Except String Bool :=
  let bars := state.horizon.maxBars.any fun n => n ≤ (state.barsObserved : ℤ)
  match state.horizon.maxDuration with
  | none => .ok bars
  | some d => (addDuration state.entry.entryTime d).map fun last => last ≤ observedTime || bars

/-! ### The machine -/

structure TripleBarrierStateMachine where
  entries : Dict String EntryState
  resolved : Finset String
  /-- The next number of `count(1)`. -/
  sequence : ℕ

def TripleBarrierStateMachine.init : TripleBarrierStateMachine := ⟨.empty, ∅, 1⟩

structure Env where
  isoformat : ℤ → String
  lower : String → String
  repr : String → String

section

variable (env : Env)

def normalizeSide (side : String) : Except String Side :=
  if side = "" then .error "side is required"
  else match env.lower side with
    | "long" => .ok .long
    | "short" => .ok .short
    | "buy" => .ok .long
    | "sell" => .ok .short
    | _ => .error "side must be one of ['buy', 'long', 'sell', 'short']"

def validateHorizon (horizon : HorizonSpec) : Except String Unit :=
  if horizon.maxBars.any (· ≤ 0) then .error "horizon.max_bars must be > 0 when provided"
  else if horizon.maxDuration.any (· ≤ 0) then .error "horizon.max_duration must be > 0 when provided"
  else .ok ()

def defaultEntryId (entry : TripleBarrierEntry) (sequence : ℕ) : String :=
  let symbol := match entry.symbol with
    | none | some "" => "entry"
    | some symbol => symbol
  symbol ++ "-" ++ env.isoformat entry.entryTime ++ "-" ++ toString sequence

def entryIdFor (entry : TripleBarrierEntry) (sequence : ℕ) : String × ℕ :=
  match entry.entryId with
  | none | some "" => (defaultEntryId env entry sequence, sequence + 1)
  | some entryId => (entryId, sequence)

/-- `register_entry`, with the answer of the cost model, which may raise: what it returns or raises, and the machine. -/
def registerEntry (m : TripleBarrierStateMachine) (entry : TripleBarrierEntry) (barrier : BarrierSpec)
    (horizon : HorizonSpec) (estimate : CostContext → Except String CostEstimate) :
    Except String String × TripleBarrierStateMachine :=
  if hprice : 0 < entry.entryPrice then
    match normalizeSide env entry.side with
    | .error e => (.error e, m)
    | .ok side =>
      if hb : FrozenAt barrier.frozenAt entry.entryTime then
        if hh : FrozenAt horizon.frozenAt entry.entryTime then
          match validateHorizon horizon with
          | .error e => (.error e, m)
          | .ok () =>
            let (entryId, sequence) := entryIdFor env entry m.sequence
            let m := { m with sequence := sequence }
            if entryId ∈ m.entries.keys ∨ entryId ∈ m.resolved then
              (.error ("entry_id " ++ env.repr entryId ++ " is already registered"), m)
            else
              match estimate ⟨entry.entryTime, entry.entryPrice, side, entry.symbol, entry.metadata⟩ with
              | .error e => (.error e, m)
              | .ok cost =>
                let normalized : NormalizedEntry :=
                  ⟨entry.entryTime, entry.entryPrice, side, entryId, entry.symbol, entry.metadata, hprice⟩
                (.ok entryId,
                  { m with entries := m.entries.set entryId ⟨normalized, barrier, horizon, cost, 0, hb, hh⟩ })
        else (.error "horizon.frozen_at must match entry_time when set", m)
      else (.error "barrier.frozen_at must match entry_time when set", m)
  else (.error "entry_price must be > 0", m)

end

/-- The label of an entry that has counted the observation, if its barriers or the timeout give one. -/
def labelFor (state : EntryState) (o : TripleBarrierObservation) (hlater : state.entry.entryTime < o.observedTime)
    (timeout : Bool) : Option TripleBarrierLabel :=
  let entry := state.entry
  let realizedReturn := signedReturn entry.entryPrice o.price entry.side
  let pnlNet := realizedReturn - state.cost.totalAdjustment
  let resolution := resolveOutcomes state.barrier entry.side entry.entryPrice o.price realizedReturn pnlNet
    state.cost.totalAdjustment timeout
  resolution.map fun r => {
    entryId := entry.entryId
    entryTime := entry.entryTime
    resolvedTime := o.observedTime
    entryPrice := entry.entryPrice
    resolvedPrice := o.price
    side := entry.side
    outcome := r.outcome
    barrier := state.barrier
    horizon := state.horizon
    realizedReturn := realizedReturn
    pnlGross := realizedReturn
    pnlNet := pnlNet
    reason := r.outcome.value
    outcomeGross := r.outcomeGross
    netOnlyStop := r.netOnlyStop
    cost := state.cost.totalCost
    minEdge := state.cost.minEdge
    costModelId := state.cost.costModelId
    slippageModelId := state.cost.slippageModelId
    symbol := entry.symbol
    metadata := entry.metadata
    resolved_later := hlater
    barrier_frozen := state.barrier_frozen
    horizon_frozen := state.horizon_frozen }

/-- `_maybe_resolve`: the label, if there is one, or what it raises, and the entry with its count of bars. -/
def maybeResolve (state : EntryState) (o : TripleBarrierObservation) :
    Except String (Option TripleBarrierLabel) × EntryState :=
  if hlater : state.entry.entryTime < o.observedTime then
    let state' := { state with barsObserved := state.barsObserved + 1 }
    ((isTimeout state' o.observedTime).map (labelFor state' o hlater), state')
  else (.ok none, state)

def symbolsMatch (entrySymbol observationSymbol : Option String) : Bool := entrySymbol = observationSymbol

/-- One turn of the loop of `update`; an exception ends the loop, and the labels so far are lost. -/
def updateEntry (o : TripleBarrierObservation)
    (acc : Except String (List TripleBarrierLabel) × TripleBarrierStateMachine) (item : String × EntryState) :
    Except String (List TripleBarrierLabel) × TripleBarrierStateMachine :=
  match acc with
  | (.error e, m) => (.error e, m)
  | (.ok labels, m) =>
    let (entryId, state) := item
    if symbolsMatch state.entry.symbol o.symbol then
      match maybeResolve state o with
      | (.error e, state) => (.error e, { m with entries := m.entries.set entryId state })
      | (.ok none, state) => (.ok labels, { m with entries := m.entries.set entryId state })
      | (.ok (some label), _) =>
        (.ok (labels ++ [label]), { m with entries := m.entries.erase entryId, resolved := insert entryId m.resolved })
    else acc

def update (m : TripleBarrierStateMachine) (o : TripleBarrierObservation) :
    Except String (List TripleBarrierLabel) × TripleBarrierStateMachine :=
  m.entries.entries.foldl (updateEntry o) (.ok [], m)

end Qmtl.Runtime.Labeling

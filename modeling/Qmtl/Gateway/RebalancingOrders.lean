import Qmtl.WorldService.Rebalancing

/-!
How the deltas of a rebalancing plan become orders: lot sizes, minimum notionals and venue policies
(`rebalancing_executor`), the split of a world's deltas to its strategies (`adapter`), and the
shared-account policy, which looks at a list of orders.
-/

namespace Qmtl.Gateway.Rebalancing

open Lib WorldService

/-! ### Options -/

structure VenuePolicy where
  supportsReduceOnly : Bool
  reduceOnlyRequiresIoc : Bool
  defaultTimeInForce : Option String

structure InstrumentConstraint where
  lotSize : Option ℚ
  minNotional : Option ℚ
  tickSize : Option ℚ
deriving DecidableEq

structure ResolvedInstrument where
  venue : Option String
  inputSymbol : String
  symbol : String
  constraint : InstrumentConstraint
deriving DecidableEq

structure OrderOptions where
  timeInForce : String
  hedgeMode : Option Bool
  reduceOnlyForNegative : Bool
  lotSizeBySymbol : Dict String ℚ
  minTradeNotional : Option ℚ
  marksBySymbol : Dict Venue ℚ
  venuePolicies : Dict String VenuePolicy
  instrumentConstraints : Option (Option String → String → ResolvedInstrument)

structure ConstraintViolation where
  venue : Option String
  symbol : String
  reason : String
deriving DecidableEq

structure Order where
  symbol : String
  quantity : ℚ
  side : String
  timeInForce : String
  venue : Option String
  reduceOnly : Bool
  hedgeMode : Option Bool
deriving DecidableEq

def Order.key (o : Order) : Venue := (o.venue, o.symbol)

section Building

variable (lower : Lower) (options : OrderOptions)

def resolveInstrument (symbol : String) (venue : Option String) : ResolvedInstrument :=
  let resolved :=
    match options.instrumentConstraints with
    | some resolve => resolve venue symbol
    | none => ⟨venue, symbol, symbol, ⟨none, none, none⟩⟩
  -- `lots.get(resolved.symbol) or lots.get(symbol)`
  let lotOverride :=
    match options.lotSizeBySymbol.get? resolved.symbol with
    | some lot => if lot = 0 then options.lotSizeBySymbol.get? symbol else some lot
    | none => options.lotSizeBySymbol.get? symbol
  let minNotional :=
    match options.minTradeNotional with
    | none => resolved.constraint.minNotional
    | some least =>
      if least ≤ 0 then resolved.constraint.minNotional
      else
        match resolved.constraint.minNotional with
        | none => some least
        | some own => some (if own < least then least else own)
  { resolved with
    constraint := ⟨lotOverride.or resolved.constraint.lotSize, minNotional, resolved.constraint.tickSize⟩ }

def lookupMark (resolved : ResolvedInstrument) : Option ℚ :=
  let atVenue :=
    match resolved.venue with
    | none => []
    | some venue =>
      [(some venue, resolved.symbol), (some venue, resolved.inputSymbol)] ++
        if lower.fn venue = venue then []
        else [(some (lower.fn venue), resolved.symbol), (some (lower.fn venue), resolved.inputSymbol)]
  (atVenue ++ [(none, resolved.symbol), (none, resolved.inputSymbol)]).findSome? options.marksBySymbol.get?

def slack : ℚ := 1 / 10 ^ 12

def roundToLot (qty : ℚ) (lotSize : Option ℚ) : ℚ × ℤ :=
  if qty = 0 then (0, 0)
  else
    match lotSize with
    | none => (qty, 0)
    | some lot =>
      if lot ≤ 0 then (qty, 0)
      else
        let steps := ⌊|qty| / lot + slack⌋
        (if qty < 0 then -(steps * lot) else steps * lot, steps)

def evaluateNotional (qty : ℚ) (resolved : ResolvedInstrument) (mark : Option ℚ) : Option ConstraintViolation :=
  match resolved.constraint.minNotional with
  | none => none
  | some least =>
    if qty = 0 ∨ least ≤ 0 then none
    else
      match mark with
      | none => some ⟨resolved.venue, resolved.symbol, "missing-mark"⟩
      | some mark =>
        if mark ≤ 0 then some ⟨resolved.venue, resolved.symbol, "missing-mark"⟩
        else if |qty| * mark + slack < least then some ⟨resolved.venue, resolved.symbol, "min-notional"⟩
        else none

def applyConstraints (symbol : String) (qty : ℚ) (venue : Option String) : Except ConstraintViolation ℚ :=
  let resolved := resolveInstrument options symbol venue
  let (rounded, steps) := roundToLot qty resolved.constraint.lotSize
  if qty ≠ 0 ∧ (resolved.constraint.lotSize.any fun lot => 0 < lot) = true ∧ steps = 0 then
    .error ⟨resolved.venue, resolved.symbol, "lot-size"⟩
  else
    match evaluateNotional rounded resolved (lookupMark lower options resolved) with
    | some violation => .error violation
    | none => .ok rounded

def lookupVenuePolicy (venue : Option String) : Option VenuePolicy :=
  let key := venue.getD ""
  ((options.venuePolicies.get? key).or (options.venuePolicies.get? (lower.fn key))).or (options.venuePolicies.get? "*")

def applyReduceOnlyFlag (reduceOnly : Bool) (venue : Option String) : Bool :=
  reduceOnly && ((lookupVenuePolicy lower options venue).map VenuePolicy.supportsReduceOnly).getD true

def resolveTimeInForce (tif : String) (reduceOnly : Bool) (venue : Option String) : String :=
  match lookupVenuePolicy lower options venue with
  | none => tif
  | some policy =>
    if reduceOnly ∧ !policy.supportsReduceOnly then tif
    else if reduceOnly ∧ policy.reduceOnlyRequiresIoc then "IOC"
    else
      match policy.defaultTimeInForce with
      | none => tif
      | some t => if t = "" then tif else t

def buildOrder (symbol : String) (qty : ℚ) (reduceOnly : Bool) (tif : String) (venue : Option String) : Option Order :=
  match applyConstraints lower options symbol qty venue with
  | .error _ => none
  | .ok adjusted =>
    if adjusted = 0 then none
    else
      let effective := applyReduceOnlyFlag lower options reduceOnly venue
      some
        { symbol := (resolveInstrument options symbol venue).symbol
          quantity := adjusted
          side := if 0 ≤ adjusted then "buy" else "sell"
          timeInForce := resolveTimeInForce lower options tif effective venue
          venue := venue
          reduceOnly := effective
          hedgeMode := options.hedgeMode }

def orderOf (symbol : String) (deltaQty : ℚ) (venue : Option String) : Option Order :=
  buildOrder lower options symbol deltaQty (options.reduceOnlyForNegative && decide (deltaQty < 0)) options.timeInForce venue

def ordersFromSymbolDeltas (deltas : List SymbolDelta) : List Order :=
  deltas.filterMap fun d => orderOf lower options d.symbol d.deltaQty d.venue

def ordersFromWorldPlan (plan : RebalancePlan) : List Order :=
  plan.deltas.filterMap fun d => orderOf lower options d.symbol d.deltaQty d.venue

end Building

/-! ### Strategies -/

structure ExecutionDelta where
  strategyId : String
  symbol : String
  deltaQty : ℚ
  venue : Option String
deriving DecidableEq

def ExecutionDelta.key (d : ExecutionDelta) : Venue := (d.venue, d.symbol)

def buildNotionalIndex (worldId : String) (positions : List PositionSlice) : Dict Venue (Dict String ℚ) :=
  (positions.filter fun p => p.worldId = worldId).foldl (fun bucket p =>
    bucket.set p.key (accumulate ((bucket.get? p.key).getD Dict.empty) p.strategyId |p.notional|)) Dict.empty

def shares (d : SymbolDelta) (weights : List (String × ℚ)) (total : ℚ) : List ExecutionDelta :=
  weights.filterMap fun (sid, weight) =>
    let qty := d.deltaQty * (weight / total)
    if qty = 0 then none else some ⟨sid, d.symbol, qty, d.venue⟩

def allocateExistingDelta (d : SymbolDelta) (stratNotional : Dict String ℚ) : List ExecutionDelta :=
  let total := stratNotional.values.sum
  if total ≤ 0 then [] else shares d stratNotional.entries total

def allocateFallbackDelta (d : SymbolDelta) (fallbackWeights : Option Ratios) : List ExecutionDelta :=
  let weights := ((fallbackWeights.getD Dict.empty).mapValues fun w => max 0 w).entries
  let total := (weights.map Prod.snd).sum
  if d.deltaQty ≤ 0 ∨ total ≤ 0 then [] else shares d weights total

def allocateStrategyDeltas (worldId : String) (plan : RebalancePlan) (positions : List PositionSlice)
    (fallbackWeights : Option Ratios) : List ExecutionDelta :=
  let bucket := buildNotionalIndex worldId positions
  plan.deltas.flatMap fun d =>
    let stratNotional := (bucket.get? d.key).getD Dict.empty
    if stratNotional.values.sum > 0 then allocateExistingDelta d stratNotional
    else allocateFallbackDelta d fallbackWeights

def ordersFromStrategyDeltas (lower : Lower) (options : OrderOptions) (deltas : List ExecutionDelta) : List Order :=
  deltas.filterMap fun d => orderOf lower options d.symbol d.deltaQty d.venue

/-! ### The shared-account policy -/

structure SharedAccountPolicyConfig where
  enabled : Bool
  maxGrossNotional : Option ℚ
  maxNetNotional : Option ℚ
  minMarginHeadroom : Option ℚ

/-- Why a policy refuses. The numbers are those of its message. -/
inductive Refusal where
  | missingMarks (orders : List Venue)
  | gross (notional limit : ℚ)
  | net (notional limit : ℚ)
  | headroomWithoutEquity
  | headroom (ratio least : ℚ)
deriving DecidableEq

namespace SharedAccountPolicy

variable (lower : Lower) (config : SharedAccountPolicyConfig)

def lookupMark (marks : Dict Venue ℚ) (symbol : String) (venue : Option String) : Option ℚ :=
  let atVenue :=
    match venue with
    | none => []
    | some v => if v = "" then [] else (some v, symbol) :: if lower.fn v = v then [] else [(some (lower.fn v), symbol)]
  (atVenue ++ [(none, symbol)]).findSome? fun key => (marks.get? key).filter fun mark => 0 < mark

structure Notionals where
  gross : ℚ
  net : ℚ
  missing : List Venue

def accumulateNotional (orders : List Order) (marks : Dict Venue ℚ) : Notionals :=
  orders.foldl (fun (acc : Notionals) (o : Order) =>
    if o.quantity = 0 then acc
    else
      match lookupMark lower marks o.symbol o.venue with
      | none => { acc with missing := acc.missing ++ [o.key] }
      | some mark => { acc with gross := acc.gross + |o.quantity| * mark, net := acc.net + o.quantity * mark })
    ⟨0, 0, []⟩

def marginHeadroom (totalEquity projectedNetAbs : ℚ) : ℚ :=
  if totalEquity ≤ 0 then 0 else max 0 (1 - projectedNetAbs / totalEquity)

/-- The tolerance of `_enforce_limits`. -/
def eps : ℚ := 1 / 10 ^ 9

def enforceLimits (gross projectedNetAbs headroom totalEquity : ℚ) : Option Refusal :=
  match config.maxGrossNotional.filter fun limit => eps < gross - limit with
  | some limit => some (.gross gross limit)
  | none =>
    match config.maxNetNotional.filter fun limit => eps < projectedNetAbs - limit with
    | some limit => some (.net projectedNetAbs limit)
    | none =>
      match config.minMarginHeadroom with
      | none => none
      | some least =>
        if totalEquity ≤ 0 then some .headroomWithoutEquity
        else if headroom + eps < least then some (.headroom headroom least)
        else none

def evaluate (orders : List Order) (marks : Dict Venue ℚ) (totalEquity currentNetNotional : ℚ) : Option Refusal :=
  let notionals := accumulateNotional lower orders marks
  let projectedNetAbs := |currentNetNotional + notionals.net|
  if !notionals.missing.isEmpty then some (.missingMarks notionals.missing)
  else enforceLimits config notionals.gross projectedNetAbs (marginHeadroom totalEquity projectedNetAbs) totalEquity

end SharedAccountPolicy

end Qmtl.Gateway.Rebalancing

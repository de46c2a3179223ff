import Qmtl.Lib.Double
import Qmtl.WorldService.Store

/-!
The rebalancing planners: `MultiWorldProportionalRebalancer` with its calculators, and `OverlayPlanner`.
Quantities, marks and ratios are rational numbers.
-/

namespace Qmtl.WorldService

open Lib
open Lib.Double (truncate)

/-! ### Inputs and plans -/

structure PositionSlice where
  worldId : String
  strategyId : String
  symbol : String
  qty : ℚ
  mark : ℚ
  venue : Option String
deriving DecidableEq

def PositionSlice.notional (p : PositionSlice) : ℚ := p.qty * p.mark

abbrev Venue := Option String × String

def PositionSlice.key (p : PositionSlice) : Venue := (p.venue, p.symbol)

structure SymbolDelta where
  symbol : String
  deltaQty : ℚ
  venue : Option String
deriving DecidableEq

def SymbolDelta.key (d : SymbolDelta) : Venue := (d.venue, d.symbol)

structure RebalancePlan where
  scaleWorld : ℚ
  scaleByStrategy : Dict String ℚ
  deltas : List SymbolDelta

abbrev Ratios := Dict String ℚ

structure MultiWorldRebalanceContext where
  totalEquity : ℚ
  worldAllocBefore : Ratios
  worldAllocAfter : Ratios
  strategyAllocBeforeTotal : Option (Dict String Ratios)
  strategyAllocAfterTotal : Option (Dict String Ratios)
  positions : List PositionSlice
  minTradeNotional : ℚ
  lotSizeBySymbol : Option Ratios

structure MultiWorldRebalancePlan where
  perWorld : Dict String RebalancePlan
  globalDeltas : List SymbolDelta

def accumulate {κ : Type} [DecidableEq κ] (d : Dict κ ℚ) (key : κ) (x : ℚ) : Dict κ ℚ :=
  d.set key ((d.get? key).getD 0 + x)

def average (xs : List ℚ) : ℚ := xs.sum / xs.length

/-! ### One world -/

def roundLot (symbol : String) (qty : ℚ) (lotSizeBySymbol : Option Ratios) : ℚ :=
  match (lotSizeBySymbol.getD Dict.empty).get? symbol with
  | none => qty
  | some lot => if lot ≤ 0 then qty else truncate (qty / lot) * lot

def computeWorldScale (before after : ℚ) : ℚ :=
  if before ≤ 0 then if after > 0 then 1 else 0 else after / before

def computeStrategyScales (worldAllocAfter : ℚ) (before after : Ratios) (gw : ℚ) : Dict String ℚ :=
  Dict.ofList (after.entries.map fun (sid, afterS) =>
    let beforeS := (before.get? sid).getD 0
    (sid, if beforeS ≤ 0 then if worldAllocAfter > 0 then gw else 0 else afterS / beforeS))

def aggregatePositionDeltas (positions : List PositionSlice) (gw : ℚ) (gs : Dict String ℚ) : Dict Venue ℚ :=
  positions.foldl (fun acc pos =>
    let target := pos.notional * (gs.get? pos.strategyId).getD gw
    accumulate acc pos.key (target - pos.notional)) Dict.empty

def marksAt (positions : List PositionSlice) (key : Venue) : List ℚ :=
  (positions.filter fun p => p.key = key ∧ 0 < p.mark).map PositionSlice.mark

def materializeSymbolDeltas (positions : List PositionSlice) (minTradeNotional : ℚ) (lotSizeBySymbol : Option Ratios)
    (notionals : Dict Venue ℚ) : List SymbolDelta :=
  notionals.entries.filterMap fun (key, notional) =>
    if |notional| < minTradeNotional then none
    else
      let marks := marksAt positions key
      if marks.isEmpty then none
      else
        let raw := if average marks = 0 then 0 else notional / average marks
        let qty := roundLot key.2 raw lotSizeBySymbol
        if qty = 0 then none else some ⟨key.2, qty, key.1⟩

def planWorld (before after : ℚ) (strategyBefore strategyAfter : Ratios) (positions : List PositionSlice)
    (minTradeNotional : ℚ) (lotSizeBySymbol : Option Ratios) : RebalancePlan :=
  let gw := computeWorldScale before after
  let gs := computeStrategyScales after strategyBefore strategyAfter gw
  ⟨gw, gs, materializeSymbolDeltas positions minTradeNotional lotSizeBySymbol (aggregatePositionDeltas positions gw gs)⟩

/-! ### Several worlds -/

def resolveBefore (ctx : MultiWorldRebalanceContext) (worldId : String) (positions : List PositionSlice) : Ratios :=
  match (ctx.strategyAllocBeforeTotal.getD Dict.empty).get? worldId with
  | some explicit => explicit
  | none =>
    let totals := positions.foldl (fun acc pos => accumulate acc pos.strategyId pos.notional) Dict.empty
    let worldTotal := (positions.map PositionSlice.notional).sum
    if worldTotal ≤ 0 then totals.mapValues fun _ => 0
    else
      let denom := if 0 < ctx.totalEquity then ctx.totalEquity else worldTotal
      totals.mapValues fun v => v / denom

def scaleFactor (ctx : MultiWorldRebalanceContext) (worldId : String) : ℚ :=
  let before := (ctx.worldAllocBefore.get? worldId).getD 0
  let after := (ctx.worldAllocAfter.get? worldId).getD 0
  if 0 < before then after / before else if 0 < after then 1 else 0

def resolveAfter (ctx : MultiWorldRebalanceContext) (worldId : String) (before : Ratios) : Ratios :=
  match (ctx.strategyAllocAfterTotal.getD Dict.empty).get? worldId with
  | some explicit => explicit
  | none => before.mapValues fun v => v * scaleFactor ctx worldId

def groupPositions (positions : List PositionSlice) : Dict String (List PositionSlice) :=
  positions.foldl (fun acc pos => acc.set pos.worldId ((acc.get? pos.worldId).getD [] ++ [pos])) Dict.empty

def planOf (ctx : MultiWorldRebalanceContext) (worldId : String) (positions : List PositionSlice) : RebalancePlan :=
  let before := resolveBefore ctx worldId positions
  let after := resolveAfter ctx worldId before
  planWorld ((ctx.worldAllocBefore.get? worldId).getD 0) ((ctx.worldAllocAfter.get? worldId).getD 0) before after positions
    ctx.minTradeNotional ctx.lotSizeBySymbol

def buildPerWorldPlans (ctx : MultiWorldRebalanceContext) (grouped : Dict String (List PositionSlice)) :
    Dict String RebalancePlan where
  entries := grouped.entries.map fun e => (e.1, planOf ctx e.1 e.2)
  nodup := by
    rw [List.map_map]
    exact grouped.nodup

structure Aggregate where
  notionals : Dict Venue ℚ
  marks : Dict Venue (List ℚ)

def Aggregate.ingest (agg : Aggregate) (positions : List PositionSlice) (plan : RebalancePlan) : Aggregate :=
  plan.deltas.foldl (fun agg delta =>
    let marks := marksAt positions delta.key
    if marks.isEmpty then agg
    else ⟨accumulate agg.notionals delta.key (delta.deltaQty * average marks),
      agg.marks.set delta.key ((agg.marks.get? delta.key).getD [] ++ [average marks])⟩) agg

def Aggregate.build (agg : Aggregate) (minTradeNotional : ℚ) : List SymbolDelta :=
  agg.notionals.entries.filterMap fun (key, notional) =>
    if |notional| < minTradeNotional then none
    else
      let marks := (agg.marks.get? key).getD [1]
      let avgMark := marks.sum / max marks.length 1
      let qty := if avgMark = 0 then 0 else notional / avgMark
      if qty = 0 then none else some ⟨key.2, qty, key.1⟩

def multiPlan (ctx : MultiWorldRebalanceContext) : MultiWorldRebalancePlan :=
  let grouped := groupPositions ctx.positions
  let perWorld := buildPerWorldPlans ctx grouped
  let agg := grouped.entries.foldl (fun (agg : Aggregate) e => agg.ingest e.2 (planOf ctx e.1 e.2))
    ⟨Dict.empty, Dict.empty⟩
  ⟨perWorld, agg.build ctx.minTradeNotional⟩

structure OverlayConfig where
  instrumentByWorld : Option (Dict String String)
  priceBySymbol : Option (Dict String ℚ)
  minOrderNotional : Option ℚ

def overlayWorld (overlay : OverlayConfig) (notionals : Dict String ℚ) (before : Ratios) (scaleByWorld : Option (Dict String ℚ))
    (world : String × ℚ) : Except String (Option SymbolDelta) :=
  match (overlay.instrumentByWorld.getD Dict.empty).get? world.1 with
  | none => .error ("overlay.instrument_by_world missing world '" ++ world.1 ++ "'")
  | some instrument =>
    let price := ((overlay.priceBySymbol.getD Dict.empty).get? instrument).getD 0
    if price = 0 then
      .error ("overlay.price_by_symbol missing or zero for instrument '" ++ instrument ++ "'")
    else
      let notional := (notionals.get? world.1).getD 0
      if notional = 0 then .ok none
      else
        let given := scaleByWorld.bind fun scales => scales.get? world.1
        let allocBefore := (before.get? world.1).getD 0
        if given.isNone ∧ allocBefore ≤ 0 then .ok none
        else
          let scale := given.getD (world.2 / allocBefore)
          let delta := (scale - 1) * notional
          if |delta| < overlay.minOrderNotional.getD 0 then .ok none
          else .ok (some ⟨instrument, delta / price, none⟩)

def overlayPlan (positions : List PositionSlice) (before after : Ratios) (overlay : OverlayConfig)
    (scaleByWorld : Option (Dict String ℚ)) : Except String (List SymbolDelta) := do
  if (overlay.instrumentByWorld.getD Dict.empty).entries.isEmpty then
    throw "overlay.instrument_by_world is required for overlay mode"
  if (overlay.priceBySymbol.getD Dict.empty).entries.isEmpty then
    throw "overlay.price_by_symbol is required for overlay mode"
  let notionals := positions.foldl (fun acc pos => accumulate acc pos.worldId pos.notional) Dict.empty
  let deltas ← after.entries.mapM (overlayWorld overlay notionals before scaleByWorld)
  return deltas.filterMap id

end Qmtl.WorldService

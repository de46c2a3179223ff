import Qmtl.Foundation.ComputeContext
import Qmtl.Gateway.RebalancingOrders
import Qmtl.WorldService.Allocation

/-!
`POST /rebalancing/execute`: the plan of the world service becomes orders per world, over all worlds and
per strategy, and `_submit_rebalance_orders` writes them to the commit log, scope by scope and world by
world.
-/

namespace Qmtl.Gateway.Rebalancing

open Lib Foundation WorldService
open WorldService.Allocation (RebalanceRequest PlanPayload)

/-! ### Requests and answers -/

/-- The detail of an `HTTPException`. -/
inductive Detail where
  | text (message : String)
  | coded (code message : String)
  | ambiguous (symbol : String) (worldIds : List String)
  | unmapped (symbol : String)
  | policy (refusal : Refusal)
deriving DecidableEq

inductive Exn where
  | http (status : ℕ) (detail : Detail)
  | error (message : String)
deriving DecidableEq

structure Query where
  submit : Option String
  sharedAccount : Option String
  perStrategy : Option String
  allowLive : Option String

structure StrategyOrder where
  worldId : String
  strategyId : String
  order : Order

structure Response where
  ordersPerWorld : Dict String (List Order)
  overlayDeltas : Option (List SymbolDelta)
  ordersGlobal : Option (List Order)
  ordersPerStrategy : Option (List StrategyOrder)
  submitted : Bool

structure WorldData where
  world : Option Mapping
  data : Mapping

structure WorldMode where
  mode : Option String
  executionDomain : Option String

/-- What `_publish_batch` is called with. -/
structure Submission where
  worldId : String
  scope : String
  orders : List Order
  mode : Option String
  executionDomain : Option String
  sharedAccount : Bool
  entries : Option (List StrategyOrder)

structure Batch where
  worldId : String
  scope : String
  orders : List Order
  entries : Option (List StrategyOrder)
  total : ℕ
  reduceOnly : ℕ
  reduceOnlyRatio : ℚ
  mode : Option String
  sharedAccount : Bool

/-! ### Awaits -/

inductive Op where
  | postRebalancePlan (payload : RebalanceRequest)
  | getWorld (worldId : String)
  | publishRebalanceBatch (batch : Batch)
  | appendEvent (batch : Batch)
  | publishRiskSnapshots

abbrev Op.Ans : Op → Type
  | postRebalancePlan _ => PlanPayload
  | getWorld _ => Option WorldData
  | _ => Unit

abbrev Task (α : Type) := Coro Op Op.Ans Exn α

def ask (o : Op) : Task o.Ans := Coro.perform o

structure Env where
  lower : Lower
  enforceLiveGuard : Bool
  policy : Option SharedAccountPolicyConfig
  venuePolicies : Dict String VenuePolicy
  writer : Bool
  database : Bool
  plan : Except Exn PlanPayload
  worlds : String → Except Exn (Option WorldData)
  audit : Batch → Except Exn Unit
  riskHub : Except Exn Unit

structure Log where
  written : List Batch
  faults : List (Option Exn)

def perform (env : Env) : (o : Op) → Log → Except Exn o.Ans × Log
  | .postRebalancePlan _, log => (env.plan, log)
  | .getWorld worldId, log => (env.worlds worldId, log)
  | .publishRebalanceBatch batch, log =>
    match log.faults.headD none with
    | some e => (.error e, { log with faults := log.faults.tail })
    | none => (.ok (), ⟨log.written ++ [batch], log.faults.tail⟩)
  | .appendEvent batch, log => (env.audit batch, log)
  | .publishRiskSnapshots, log => (env.riskHub, log)

variable (env : Env)

/-! ### World modes -/

def extractModeAndDomain (data : WorldData) : Raw × Raw :=
  let mode := (data.world.map fun world => world "mode").getD .none
  let domain := (data.world.map fun world => world "execution_domain").getD .none
  (if mode = .none then (data.data "mode").or (data.data "effective_mode") else mode,
    if domain = .none then data.data "execution_domain" else domain)

def textOf : Raw → Option String
  | .str s => some s
  | _ => none

def normalizeExecutionDomain (executionDomain : Raw) : Option String :=
  resolveExecutionDomain env.lower ((textOf executionDomain).bind stripped)

def worldModeOf (data : WorldData) : Option WorldMode :=
  let (mode, domain) := extractModeAndDomain data
  let found : WorldMode := ⟨textOf mode, normalizeExecutionDomain env domain⟩
  if found.mode.isNone ∧ found.executionDomain.isNone then none else some found

def resolveWorldModes (modes : Dict String WorldMode) : List String → Task (Dict String WorldMode)
  | [] => Coro.ret modes
  | wid :: wids => do
    if wid = "" then resolveWorldModes modes wids
    else
      let data ← (ask (.getWorld wid)).tryExcept fun _ => Coro.ret none
      match data.bind (worldModeOf env) with
      | none => resolveWorldModes modes wids
      | some mode => resolveWorldModes (modes.set wid mode) wids

def collectWorldIds (perWorldOrders : Dict String (List Order)) (ordersPerStrategy : Option (List StrategyOrder)) :
    List String :=
  ((perWorldOrders.keys ++ (ordersPerStrategy.getD []).map StrategyOrder.worldId).filter fun wid => wid ≠ "").dedup

/-! ### Submission -/

def shadowBlocked : Exn :=
  .http 422 (.coded "E_SHADOW_ORDERS_BLOCKED" "shadow execution_domain blocks order submission")

def commitLogUnavailable : Exn := .http 503 (.coded "E_COMMITLOG" "commit log unavailable")

def Submission.inShadow (lower : Lower) (b : Submission) : Bool :=
  b.mode = some "shadow" || lower.fn (b.executionDomain.getD "") = "shadow"

def Submission.batch (b : Submission) : Batch where
  worldId := b.worldId
  scope := b.scope
  orders := b.orders
  entries := b.entries
  total := b.orders.length
  reduceOnly := (b.orders.filter Order.reduceOnly).length
  reduceOnlyRatio := (b.orders.filter Order.reduceOnly).length / b.orders.length
  mode := b.mode.filter fun mode => mode ≠ ""
  sharedAccount := b.sharedAccount

def publishBatch (b : Submission) : Task Bool := do
  if b.inShadow env.lower then Coro.raise shadowBlocked
  else if b.orders.isEmpty then return false
  else
    (ask (.publishRebalanceBatch b.batch)).tryExcept fun _ => Coro.raise commitLogUnavailable
    if env.database then
      -- `_record_rebalance_audit` logs what it catches
      (ask (.appendEvent b.batch)).tryExcept fun _ => Coro.ret ()
    return true

def publishAll (submittedAny : Bool) : List Submission → Task Bool
  | [] => Coro.ret submittedAny
  | b :: bs => (publishBatch env b).bind fun submitted => publishAll (submittedAny || submitted) bs

section Submissions

variable (worldMode : String → Option WorldMode)

def perWorldSubmissions (perWorldOrders : Dict String (List Order)) (sharedAccount : Bool) : List Submission :=
  perWorldOrders.entries.map fun (wid, orders) =>
    { worldId := wid
      scope := "per_world"
      orders := orders
      mode := (worldMode wid).bind WorldMode.mode
      executionDomain := (worldMode wid).bind WorldMode.executionDomain
      sharedAccount := sharedAccount
      entries := none }

def globalSubmissions (ordersGlobal : Option (List Order)) (sharedAccount : Bool) (mode : Option String) : List Submission :=
  match ordersGlobal.getD [] with
  | [] => []
  | order :: orders =>
    [{ worldId := "global"
       scope := "global"
       orders := order :: orders
       mode := mode
       executionDomain := none
       sharedAccount := sharedAccount
       entries := none }]

def entriesByWorld (ordersPerStrategy : List StrategyOrder) : Dict String (List StrategyOrder) :=
  ordersPerStrategy.foldl (fun acc item => acc.set item.worldId ((acc.get? item.worldId).getD [] ++ [item])) Dict.empty

def perStrategySubmissions (ordersPerStrategy : Option (List StrategyOrder)) : List Submission :=
  (entriesByWorld (ordersPerStrategy.getD [])).entries.map fun (wid, entries) =>
    { worldId := wid
      scope := "per_strategy"
      orders := entries.map StrategyOrder.order
      mode := (worldMode wid).bind WorldMode.mode
      executionDomain := (worldMode wid).bind WorldMode.executionDomain
      sharedAccount := false
      entries := some entries }

end Submissions

def submitRebalanceOrders (perWorldOrders : Dict String (List Order)) (ordersGlobal : Option (List Order))
    (ordersPerStrategy : Option (List StrategyOrder)) (sharedAccount globalScopeSharedAccount : Bool)
    (globalScopeMode : Option String) : Task Bool := do
  if !env.writer then Coro.raise (.http 503 (.coded "E_COMMITLOG_DISABLED" "commit log unavailable"))
  else
    let modes ← resolveWorldModes env Dict.empty (collectWorldIds perWorldOrders ordersPerStrategy)
    let perWorld ← publishAll env false (perWorldSubmissions modes.get? perWorldOrders sharedAccount)
    let global ← publishAll env false (globalSubmissions ordersGlobal globalScopeSharedAccount globalScopeMode)
    let perStrategy ← publishAll env false (perStrategySubmissions modes.get? ordersPerStrategy)
    return perWorld || global || perStrategy

/-! ### Marks -/

def pushMark (marks : Dict Venue (List ℚ)) (key : Venue) (mark : ℚ) : Dict Venue (List ℚ) :=
  marks.set key ((marks.get? key).getD [] ++ [mark])

def collectMark (marks : Dict Venue (List ℚ)) (p : PositionSlice) : Dict Venue (List ℚ) :=
  if p.mark ≤ 0 then marks else pushMark (pushMark marks p.key p.mark) (none, p.symbol) p.mark

def marksOf (positions : List PositionSlice) : Dict Venue ℚ :=
  (positions.foldl collectMark Dict.empty).mapValues average

def marksOfWorld (positions : List PositionSlice) (worldId : String) : Dict Venue ℚ :=
  marksOf (positions.filter fun p => p.worldId = worldId)

def aggregateNetNotional (positions : List PositionSlice) : ℚ := (positions.map PositionSlice.notional).sum

def overlayMarkSnapshot (overlay : OverlayConfig) : Dict Venue ℚ :=
  Dict.ofList ((overlay.priceBySymbol.getD Dict.empty).entries.map fun e => ((none, e.1), e.2))

/-! ### Orders -/

def optionsWith (payload : RebalanceRequest) (marks : Dict Venue ℚ) : OrderOptions where
  timeInForce := "GTC"
  hedgeMode := none
  reduceOnlyForNegative := true
  lotSizeBySymbol := payload.lotSizeBySymbol.getD Dict.empty
  minTradeNotional := payload.minTradeNotional
  marksBySymbol := marks
  venuePolicies := env.venuePolicies
  instrumentConstraints := none

def worldOptions (payload : RebalanceRequest) (worldId : String) : OrderOptions :=
  optionsWith env payload (marksOfWorld payload.positions worldId)

def globalOptions (payload : RebalanceRequest) : OrderOptions := optionsWith env payload (marksOf payload.positions)

def overlayOptions (payload : RebalanceRequest) (overlay : OverlayConfig) : OrderOptions :=
  optionsWith env payload (overlayMarkSnapshot overlay)

def symbolToWorld (worlds : Dict String String) : List (String × String) → Except Exn (Dict String String)
  | [] => .ok worlds
  | (worldId, symbol) :: rest =>
    match worlds.get? symbol with
    | some existing =>
      if existing ≠ worldId then .error (.http 422 (.ambiguous symbol ([existing, worldId].insertionSort (· ≤ ·))))
      else symbolToWorld (worlds.set symbol worldId) rest
    | none => symbolToWorld (worlds.set symbol worldId) rest

def overlayOrders (options : OrderOptions) (worlds : Dict String String) (orders : Dict String (List Order)) :
    List SymbolDelta → Except Exn (Dict String (List Order))
  | [] => .ok orders
  | d :: ds =>
    match worlds.get? d.symbol with
    | none => .error (.http 422 (.unmapped d.symbol))
    | some worldId =>
      let built := ordersFromSymbolDeltas env.lower options [d]
      overlayOrders options worlds
        (if built.isEmpty then orders else orders.set worldId ((orders.get? worldId).getD [] ++ built)) ds

def ordersFromOverlayDeltas (payload : RebalanceRequest) (overlayDeltas : List SymbolDelta) :
    Except Exn (Dict String (List Order)) :=
  match payload.overlay with
  | none => .error (.http 422 (.text "overlay config is required when mode='overlay'"))
  | some overlay => do
    let worlds ← symbolToWorld Dict.empty (overlay.instrumentByWorld.getD Dict.empty).entries
    overlayOrders env (overlayOptions env payload overlay) worlds Dict.empty overlayDeltas

def ordersPerWorld (payload : RebalanceRequest) (plan : PlanPayload) : Dict String (List Order) where
  entries := plan.perWorld.entries.map fun e => (e.1, ordersFromWorldPlan env.lower (worldOptions env payload e.1) e.2)
  nodup := by
    rw [List.map_map]
    exact plan.perWorld.nodup

def executionDeltas (payload : RebalanceRequest) (worldId : String) (plan : RebalancePlan) : List ExecutionDelta :=
  allocateStrategyDeltas worldId plan payload.positions ((payload.strategyAllocAfterTotal.getD Dict.empty).get? worldId)

def ordersPerStrategy (payload : RebalanceRequest) (plan : PlanPayload) : List StrategyOrder :=
  plan.perWorld.entries.flatMap fun e =>
    let deltas := executionDeltas payload e.1 e.2
    List.zipWith (fun d order => ⟨e.1, d.strategyId, order⟩) deltas
      (ordersFromStrategyDeltas env.lower (worldOptions env payload e.1) deltas)

/-! ### The endpoint -/

def parseBool (value : Option String) : Bool :=
  match value with
  | none => false
  | some v => decide (env.lower.fn (strip v) ∈ ["1", "true", "yes", "on"])

def flag (value : Option String) : Bool := decide (env.lower.fn (value.getD "false") ∈ ["1", "true", "yes"])

def normalizeRebalanceMode (value : Option String) : String :=
  let text := match value with
    | none => "scaling"
    | some v => if v = "" then "scaling" else v
  let mode := env.lower.fn (strip text)
  if mode = "" then "scaling" else mode

def checkSharedAccount (payload : RebalanceRequest) (orders : List Order) : Except Exn Unit :=
  match env.policy.filter SharedAccountPolicyConfig.enabled with
  | none => .error (.http 403 (.coded "E_SHARED_ACCOUNT_DISABLED" "shared-account execution is disabled"))
  | some config =>
    match SharedAccountPolicy.evaluate env.lower config orders (marksOf payload.positions) payload.totalEquity
        (aggregateNetNotional payload.positions) with
    | none => .ok ()
    | some refusal => .error (.http 422 (.policy refusal))

def prepare (query : Query) (payload : RebalanceRequest) (plan : PlanPayload) :
    Except Exn (Dict String (List Order) × Option (List Order) × Option (List StrategyOrder)) := do
  let perWorld ← (if normalizeRebalanceMode env payload.mode = "overlay"
    then ordersFromOverlayDeltas env payload (plan.overlayDeltas.getD [])
    else .ok (ordersPerWorld env payload plan))
  let ordersGlobal := ordersFromSymbolDeltas env.lower (globalOptions env payload) plan.globalDeltas
  if flag env query.sharedAccount then
    checkSharedAccount env payload ordersGlobal
    return (perWorld, some ordersGlobal, none)
  else if flag env query.perStrategy then
    return (perWorld, none, some (ordersPerStrategy env payload plan))
  else return (perWorld, none, none)

def postRebalancingExecute (query : Query) (payload : RebalanceRequest) : Task Response := do
  let mode := normalizeRebalanceMode env payload.mode
  if mode = "hybrid" then
    Coro.raise (.http 501 (.coded "E_REBALANCE_MODE_UNSUPPORTED"
      "Hybrid mode is not implemented yet. Use mode='scaling' or 'overlay'."))
  else if parseBool env query.submit ∧ env.enforceLiveGuard ∧ query.allowLive ≠ some "true" then
    Coro.raise (.http 403 (.coded "E_PERMISSION_DENIED" "live trading not allowed"))
  else
    let plan ← ask (.postRebalancePlan payload)
    let (perWorld, ordersGlobal, perStrategy) ← Coro.ofExcept (prepare env query payload plan)
    let response : Response :=
      { ordersPerWorld := perWorld
        overlayDeltas := if mode = "overlay" then some (plan.overlayDeltas.getD []) else none
        ordersGlobal := ordersGlobal
        ordersPerStrategy := perStrategy
        submitted := false }
    if parseBool env query.submit then
      let shared := flag env query.sharedAccount
      let submitted ← submitRebalanceOrders env perWorld ordersGlobal perStrategy shared shared none
      if submitted then
        (ask .publishRiskSnapshots).tryExcept fun _ => Coro.ret ()
      return { response with submitted := submitted }
    else return response

end Qmtl.Gateway.Rebalancing

import Qmtl.Lib.Except
import Qmtl.Lib.Ledger
import Qmtl.Lib.PyValue

/-!
Sized orders on their way into a portfolio: `ExecutionNode` with its `ExecutionModel`, and `PortfolioNode`. Amounts are
rational.
-/

namespace Qmtl.Runtime.Execution

open Lib

/-! ### The execution model -/

inductive OrderType where
  | market
  | limit
  | stop
  | stopLimit
  deriving DecidableEq

inductive OrderSide where
  | buy
  | sell
  deriving DecidableEq

structure MarketData where
  timestamp : ℤ
  bid : ℚ
  ask : ℚ
  last : ℚ
  volume : ℚ

def MarketData.spread (m : MarketData) : ℚ := m.ask - m.bid

def MarketData.midPrice (m : MarketData) : ℚ := (m.bid + m.ask) / 2

def calculateCommission (tradeValue rate minimum : ℚ) : ℚ := max (tradeValue * rate) minimum

def baseSlippageFromBps (midPrice baseSlippageBps : ℚ) : ℚ :=
  if midPrice ≤ 0 then 0 else midPrice * (baseSlippageBps / 10000)

def calculateMarketImpact (quantity : ℚ) (market : MarketData) (coeff : ℚ) : ℚ :=
  if market.volume ≤ 0 ∨ quantity ≤ 0 then 0 else coeff * (quantity / market.volume) * market.midPrice

def spreadCost (orderType : OrderType) (market : MarketData) : ℚ :=
  if orderType ≠ .market then 0 else market.spread / 2

def calculateSlippage (market : MarketData) (orderType : OrderType) (side : OrderSide)
    (quantity baseSlippageBps marketImpactCoeff : ℚ) : ℚ :=
  let total := baseSlippageFromBps market.midPrice baseSlippageBps +
    calculateMarketImpact quantity market marketImpactCoeff + spreadCost orderType market
  match side with
  | .buy => total
  | .sell => -total

def applyLatency (timestamp latencyMs : ℤ) : Except Raised ℤ :=
  if latencyMs < 0 then .error .valueError else .ok (timestamp + latencyMs)

structure ExecutionModel where
  commissionRate : ℚ
  commissionMinimum : ℚ
  baseSlippageBps : ℚ
  marketImpactCoeff : ℚ
  latencyMs : ℤ

structure ExecutionFill where
  orderId : String
  symbol : String
  side : OrderSide
  quantity : ℚ
  requestedPrice : ℚ
  fillPrice : ℚ
  fillTime : ℤ
  commission : ℚ
  slippage : ℚ
  marketImpact : ℚ

def ExecutionModel.simulateExecution (model : ExecutionModel) (orderId symbol : String) (side : OrderSide) (quantity : ℚ)
    (orderType : OrderType) (requestedPrice : ℚ) (market : MarketData) (timestamp : ℤ) : Except Raised ExecutionFill := do
  let basePrice := if orderType = .market then (match side with | .buy => market.ask | .sell => market.bid) else requestedPrice
  let slippage := calculateSlippage market orderType side quantity model.baseSlippageBps model.marketImpactCoeff
  let fillPrice := basePrice + slippage
  let commission := calculateCommission (quantity * fillPrice) model.commissionRate model.commissionMinimum
  let fillTime ← applyLatency timestamp model.latencyMs
  return {
    orderId, symbol, side, quantity, requestedPrice, fillPrice, fillTime, commission, slippage
    marketImpact := calculateMarketImpact quantity market model.marketImpactCoeff }

structure SizedOrder where
  orderId : Option String
  symbol : String
  price : ℚ
  quantity : ℚ

/-- What an `ExecutionNode` hands on: a fill, or without a model the order as it is. -/
inductive FillPayload where
  | order (order : SizedOrder)
  | fill (fill : ExecutionFill)

def execute (model : Option ExecutionModel) (ts : ℤ) (order : SizedOrder) : Except Raised FillPayload :=
  match model with
  | none => .ok (.order order)
  | some model => do
    let side : OrderSide := if 0 ≤ order.quantity then .buy else .sell
    let market : MarketData := ⟨ts, order.price, order.price, order.price, |order.quantity|⟩
    let fill ← model.simulateExecution (order.orderId.getD "order") order.symbol side |order.quantity| .market order.price
      market ts
    return .fill fill

/-! ### The portfolio -/

structure Position where
  quantity : ℚ
  avgCost : ℚ
  marketPrice : ℚ

structure Portfolio where
  cash : ℚ
  positions : Dict String Position

def Portfolio.quantity (p : Portfolio) (symbol : String) : ℚ := ((p.positions.get? symbol).map Position.quantity).getD 0

def Portfolio.applyFill (p : Portfolio) (symbol : String) (quantity price commission : ℚ) : Portfolio :=
  let p := { p with cash := p.cash - (quantity * price + commission) }
  match p.positions.get? symbol with
  | none => { p with positions := p.positions.set symbol ⟨quantity, price, price⟩ }
  | some pos =>
    let newQty := pos.quantity + quantity
    if newQty = 0 then { p with positions := p.positions.erase symbol }
    else
      -- selling leaves the average cost as it is
      let avgCost := if 0 < quantity then (pos.avgCost * pos.quantity + price * quantity) / newQty else pos.avgCost
      { p with positions := p.positions.set symbol ⟨newQty, avgCost, price⟩ }

namespace FillPayload

def symbol : FillPayload → String
  | order o => o.symbol
  | fill f => f.symbol

def quantity : FillPayload → ℚ
  | order o => o.quantity
  | fill f => f.quantity

def price : FillPayload → ℚ
  | order o => o.price
  | fill f => f.fillPrice

def commission : FillPayload → ℚ
  | order _ => 0
  | fill f => f.commission

end FillPayload

def compute (p : Portfolio) (fill : FillPayload) : Portfolio :=
  p.applyFill fill.symbol fill.quantity fill.price fill.commission

def process (model : Option ExecutionModel) : List (ℤ × SizedOrder) → Portfolio →
    Except Raised (Portfolio × List (SizedOrder × FillPayload))
  | [], p => .ok (p, [])
  | (ts, order) :: entries, p => do
    let fill ← execute model ts order
    let (p, done) ← process model entries (compute p fill)
    return (p, (order, fill) :: done)

/-- **The fills are carried into the portfolio**: each symbol is held as its orders add up to, and what the orders cost
is taken from the cash. -/
structure Carried (cash : ℚ) (orders : List SizedOrder) (p : Portfolio) (done : List (SizedOrder × FillPayload)) : Prop where
  once : done.map Prod.fst = orders
  quantity : ∀ symbol, p.quantity symbol = Ledger.total (orders.map fun o => (o.symbol, o.quantity)) symbol
  cash : p.cash = cash - (done.map fun d => d.1.quantity * d.2.price + d.2.commission).sum

def Unsold (model : Option ExecutionModel) (entries : List (ℤ × SizedOrder)) : Prop :=
  ∀ m, model = some m → ∀ e ∈ entries, 0 ≤ m.latencyMs ∧ 0 ≤ e.2.quantity

section Portfolio

variable (p : Portfolio) (symbol : String) (quantity price commission : ℚ)

@[simp] lemma cash_applyFill :
    (p.applyFill symbol quantity price commission).cash = p.cash - (quantity * price + commission) := by
  unfold Portfolio.applyFill
  dsimp only
  split
  · rfl
  · split <;> rfl

lemma quantity_applyFill (symbol' : String) : (p.applyFill symbol quantity price commission).quantity symbol' =
    p.quantity symbol' + if symbol = symbol' then quantity else 0 := by
  by_cases hs : symbol = symbol'
  · subst hs
    unfold Portfolio.applyFill Portfolio.quantity
    dsimp only
    cases hpos : p.positions.get? symbol with
    | none => simp
    | some pos =>
      by_cases hc : pos.quantity + quantity = 0
      · simp [hc, Dict.get?_erase]
      · simp [hc]
  · rw [if_neg hs, add_zero]
    have hne : symbol' ≠ symbol := Ne.symm hs
    unfold Portfolio.applyFill Portfolio.quantity
    dsimp only
    split
    · rw [Dict.get?_set_ne _ _ hne]
    · split
      · rw [Dict.get?_erase, if_neg hne]
      · rw [Dict.get?_set_ne _ _ hne]

end Portfolio

variable {model : Option ExecutionModel} {ts : ℤ} {order : SizedOrder} {fill : FillPayload}
  {entries : List (ℤ × SizedOrder)} {p p' : Portfolio} {done : List (SizedOrder × FillPayload)}

def filled (model : Option ExecutionModel) (order : SizedOrder) : ℚ :=
  match model with
  | none => order.quantity
  | some _ => |order.quantity|

lemma quantity_le_filled (model : Option ExecutionModel) (order : SizedOrder) : order.quantity ≤ filled model order := by
  cases model with
  | none => exact le_refl _
  | some m => exact le_abs_self _

lemma simulateExecution_ok {m : ExecutionModel} {orderId symbol : String} {side : OrderSide} {quantity price : ℚ}
    {orderType : OrderType} {market : MarketData} {f : ExecutionFill}
    (h : m.simulateExecution orderId symbol side quantity orderType price market ts = .ok f) :
    0 ≤ m.latencyMs ∧ f.symbol = symbol ∧ f.quantity = quantity := by
  unfold ExecutionModel.simulateExecution applyLatency at h
  by_cases hl : m.latencyMs < 0
  · simp [hl, bind, Except.bind] at h
  · simp only [if_neg hl, bind, Except.bind, pure, Except.pure, Except.ok.injEq] at h
    subst h
    exact ⟨not_lt.mp hl, rfl, rfl⟩

lemma execute_ok (h : execute model ts order = .ok fill) :
    fill.symbol = order.symbol ∧ fill.quantity = filled model order ∧ ∀ m, model = some m → 0 ≤ m.latencyMs := by
  cases model with
  | none =>
    cases h
    exact ⟨rfl, rfl, fun m hm => absurd hm (Option.some_ne_none m).symm⟩
  | some m =>
    obtain ⟨f, hf, hfl⟩ := bind_ok.mp h
    cases hfl
    obtain ⟨hl, hs, hq⟩ := simulateExecution_ok hf
    refine ⟨hs, hq, fun m' hm' => ?_⟩
    rw [← Option.some.inj hm']
    exact hl

lemma exists_execute (h : ∀ m, model = some m → 0 ≤ m.latencyMs) (ts : ℤ) (order : SizedOrder) :
    ∃ fill, execute model ts order = .ok fill := by
  cases model with
  | none => exact ⟨_, rfl⟩
  | some m =>
    have hl : ¬m.latencyMs < 0 := not_lt.mpr (h m rfl)
    simp [execute, ExecutionModel.simulateExecution, applyLatency, hl, bind, Except.bind, pure, Except.pure]

/-! ### Every stream -/

lemma process_cons {e : ℤ × SizedOrder} (h : process model (e :: entries) p = .ok (p', done)) :
    ∃ fill rest, execute model e.1 e.2 = .ok fill ∧ process model entries (compute p fill) = .ok (p', rest) ∧
      done = (e.2, fill) :: rest := by
  obtain ⟨fill, hf, h⟩ := bind_ok.mp h
  obtain ⟨⟨p₁, rest⟩, hr, h⟩ := bind_ok.mp h
  cases h
  exact ⟨fill, rest, hf, hr, rfl⟩

lemma process_ok (h : process model entries p = .ok (p', done)) : done.map Prod.fst = entries.map Prod.snd ∧
    (∀ symbol, p'.quantity symbol =
      p.quantity symbol + Ledger.total (entries.map fun e => (e.2.symbol, filled model e.2)) symbol) ∧
    p'.cash = p.cash - (done.map fun d => filled model d.1 * d.2.price + d.2.commission).sum := by
  induction entries generalizing p p' done with
  | nil =>
    cases h
    simp
  | cons e entries ih =>
    obtain ⟨fill, rest, hf, hr, rfl⟩ := process_cons h
    obtain ⟨hs, hq, -⟩ := execute_ok hf
    obtain ⟨hon, hqty, hc⟩ := ih hr
    refine ⟨by simp [hon], fun symbol => ?_, ?_⟩
    · rw [hqty symbol, compute, quantity_applyFill, hs, hq]
      simp [add_assoc]
    · rw [hc, compute, cash_applyFill, hq]
      simp only [List.map_cons, List.sum_cons]
      ring

lemma process_latency {e : ℤ × SizedOrder} (h : process model entries p = .ok (p', done)) (he : e ∈ entries) :
    ∀ m, model = some m → 0 ≤ m.latencyMs := by
  cases entries with
  | nil => cases he
  | cons e' entries =>
    obtain ⟨fill, rest, hf, -⟩ := process_cons h
    exact (execute_ok hf).2.2

lemma exists_process (h : ∀ m, model = some m → ∀ e ∈ entries, 0 ≤ m.latencyMs) (p : Portfolio) :
    ∃ p' done, process model entries p = .ok (p', done) := by
  induction entries generalizing p with
  | nil => exact ⟨p, [], rfl⟩
  | cons e entries ih =>
    obtain ⟨fill, hf⟩ := exists_execute (fun m hm => h m hm e List.mem_cons_self) e.1 e.2
    obtain ⟨p', done, hr⟩ := ih (fun m hm e' he' => h m hm e' (.tail _ he')) (compute p fill)
    refine ⟨p', (e.2, fill) :: done, ?_⟩
    unfold process
    rw [hf]
    simp [hr, bind, Except.bind, pure, Except.pure]

lemma carried_of_filled {cash : ℚ} (h : process model entries ⟨cash, .empty⟩ = .ok (p', done))
    (hfilled : ∀ e ∈ entries, filled model e.2 = e.2.quantity) : Carried cash (entries.map Prod.snd) p' done := by
  obtain ⟨hon, hqty, hc⟩ := process_ok h
  refine ⟨hon, fun symbol => ?_, ?_⟩
  · rw [hqty symbol, show (Portfolio.mk cash .empty).quantity symbol = 0 from rfl, zero_add, List.map_map]
    congr 1
    exact List.map_congr_left fun e he => by simp [hfilled e he]
  · rw [hc]
    congr 2
    refine List.map_congr_left fun d hd => ?_
    have hmem : d.1 ∈ entries.map Prod.snd := hon ▸ List.mem_map_of_mem hd
    obtain ⟨e, he, heq⟩ := List.mem_map.mp hmem
    rw [← heq, hfilled e he]

lemma filled_of_carried {cash : ℚ} (h : process model entries ⟨cash, .empty⟩ = .ok (p', done))
    (hc : Carried cash (entries.map Prod.snd) p' done) : ∀ e ∈ entries, filled model e.2 = e.2.quantity := by
  have hp : ∀ e ∈ entries, (e.2.symbol, e.2.quantity) = (e.2.symbol, filled model e.2) := by
    refine Ledger.eq_of_total_eq (fun e _ => ⟨rfl, quantity_le_filled model e.2⟩) fun symbol => ?_
    have hqty := (process_ok h).2.1 symbol
    rw [hc.quantity symbol, List.map_map, show (Portfolio.mk cash .empty).quantity symbol = 0 from rfl,
      zero_add] at hqty
    exact hqty
  intro e he
  exact (Prod.ext_iff.mp (hp e he)).2.symm

/-- **Simulated fills** reach the portfolio as their orders say exactly where no order sells through a model. -/
theorem carried_iff (model : Option ExecutionModel) (entries : List (ℤ × SizedOrder)) (cash : ℚ) :
    (∃ p done, process model entries ⟨cash, .empty⟩ = .ok (p, done) ∧ Carried cash (entries.map Prod.snd) p done) ↔
      Unsold model entries := by
  constructor
  · rintro ⟨p, done, h, hcarried⟩ m rfl e he
    refine ⟨process_latency h he m rfl, ?_⟩
    have hfilled := filled_of_carried h hcarried e he
    exact abs_eq_self.mp hfilled
  · intro h
    obtain ⟨p, done, hprocess⟩ := exists_process (fun m hm e he => (h m hm e he).1) ⟨cash, .empty⟩
    refine ⟨p, done, hprocess, carried_of_filled hprocess fun e he => ?_⟩
    cases model with
    | none => rfl
    | some m => exact abs_eq_self.mpr (h m rfl e he).2

def defaultModel : ExecutionModel := ⟨1 / 1000, 1, 2, 1 / 10, 100⟩

/-- **A sale is carried as a purchase**: an order to sell two at ten, through the default model. -/
theorem sale_bought : ¬∃ p done, process (some defaultModel) [(0, ⟨none, "AAPL", 10, -2⟩)] ⟨100, .empty⟩ = .ok (p, done) ∧
    Carried 100 [⟨none, "AAPL", 10, -2⟩] p done := by
  rintro ⟨p, done, h, hcarried⟩
  have hqty := (process_ok h).2.1 "AAPL"
  rw [hcarried.quantity "AAPL", show (Portfolio.mk 100 .empty).quantity "AAPL" = 0 from rfl] at hqty
  norm_num [filled] at hqty

end Qmtl.Runtime.Execution

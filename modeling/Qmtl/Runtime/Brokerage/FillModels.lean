import Qmtl.Lib.Dict
import Qmtl.Lib.Double

/-! Orders and how much of them a bar fills: the fill models of the brokerage, by order type, with their caps and the time in
force. -/

namespace Qmtl.Runtime.Brokerage

open Lib
open Lib.Double (truncate)

abbrev DateTime := ℕ

def oneDay : ℕ := 86400000000

namespace DateTime

def date (t : DateTime) : ℕ := t / oneDay

def time (t : DateTime) : ℕ := t % oneDay

end DateTime

structure ExchangeHours where
  isOpen : DateTime → Bool
  regularStart : ℕ
  regularEnd : ℕ
  earlyCloses : Dict ℕ ℕ

inductive OrderType where
  | market
  | limit
  | stop
  | stopLimit
  | moo
  | moc
  | trailingStop
  deriving DecidableEq

inductive TimeInForce where
  | day
  | gtc
  | gtd
  | ioc
  | fok
  deriving DecidableEq

structure Order where
  symbol : String
  quantity : ℚ
  price : ℚ
  type : OrderType
  tif : TimeInForce
  limitPrice : Option ℚ
  stopPrice : Option ℚ
  expireAt : Option DateTime
  trailAmount : Option ℚ
  addsLiquidity : Option Bool
  deriving DecidableEq

structure Fill where
  symbol : String
  quantity : ℚ
  price : ℚ
  fee : ℚ
  deriving DecidableEq

structure Bar where
  price : ℚ
  ts : Option DateTime
  exchangeHours : Option ExchangeHours
  volume : Option ℤ

/-! ### Caps and time in force -/

/-- `int`, which cuts off towards zero. -/
structure BaseFillModel where
  liquidityCap : Option ℤ
  volumeLimit : Option ℚ

namespace BaseFillModel

variable (m : BaseFillModel) (order : Order) (bar : Bar)

def capAvailable (desired : ℚ) (barVolume : Option ℤ) : ℚ :=
  let available := match m.volumeLimit, barVolume with
    | some limit, some volume => min desired (truncate (limit * volume))
    | _, _ => desired
  match m.liquidityCap with
  | some cap => min available cap
  | none => available

end BaseFillModel

def expired (order : Order) (ts : Option DateTime) : Bool :=
  match order.expireAt, ts with
  | some expireAt, some ts => expireAt < ts
  | _, _ => false

def applyTimeInForce (order : Order) (desired available : ℚ) (ts : Option DateTime) : ℚ :=
  match order.tif with
  | .fok => if desired ≤ available then desired else 0
  | .ioc => available
  | .gtd => if expired order ts then 0 else min desired available
  | _ => min desired available

namespace BaseFillModel

variable (m : BaseFillModel) (order : Order) (bar : Bar)

def applyTif (desired : ℚ) : ℚ :=
  if desired ≤ 0 then 0 else applyTimeInForce order desired (m.capAvailable desired bar.volume) bar.ts

def fillAt : Option ℚ → Fill
  | none => ⟨order.symbol, 0, bar.price, 0⟩
  | some price =>
    let qty := m.applyTif order bar |order.quantity|
    ⟨order.symbol, if 0 ≤ order.quantity then qty else -qty, price, 0⟩

end BaseFillModel

/-! ### At which price an order fills -/

section

variable (order : Order) (bar : Bar)

def marketPrice : Option ℚ := some bar.price

def limitPrice : Option ℚ := do
  let limit ← order.limitPrice
  if 0 < order.quantity then
    if bar.price ≤ limit then some (min bar.price limit) else none
  else
    if limit ≤ bar.price then some (max bar.price limit) else none

def triggered (stop : ℚ) : Bool := if 0 < order.quantity then stop ≤ bar.price else bar.price ≤ stop

def stopMarketPrice : Option ℚ := do
  let stop ← order.stopPrice
  if triggered order bar stop then some bar.price else none

def stopLimitPrice : Option ℚ := do
  let stop ← order.stopPrice
  let _ ← order.limitPrice
  if triggered order bar stop then limitPrice order bar else none

def marketOnOpenPrice : Option ℚ := do
  let ts ← bar.ts
  let hours ← bar.exchangeHours
  if ts.time = hours.regularStart then some bar.price else none

def marketOnClosePrice : Option ℚ := do
  let ts ← bar.ts
  let hours ← bar.exchangeHours
  if ts.time = (hours.earlyCloses.get? ts.date).getD hours.regularEnd then some bar.price else none

def adjustTrailingStop (trail : ℚ) : ℚ :=
  let base := if 0 < order.quantity then bar.price + trail else bar.price - trail
  let stop := order.stopPrice.getD base
  if 0 < order.quantity then min stop base else max stop base

def trailingStopPrice : Option ℚ := do
  let trail ← order.trailAmount
  if triggered order bar (adjustTrailingStop order bar trail) then some bar.price else none

end

/-! ### The fill models -/

def priceOf : OrderType → Order → Bar → Option ℚ
  | .market, _, bar => marketPrice bar
  | .limit, order, bar => limitPrice order bar
  | .stop, order, bar => stopMarketPrice order bar
  | .stopLimit, order, bar => stopLimitPrice order bar
  | .moo, _, bar => marketOnOpenPrice bar
  | .moc, _, bar => marketOnClosePrice bar
  | .trailingStop, order, bar => trailingStopPrice order bar

def orderAfter : OrderType → Order → Bar → Order
  | .trailingStop, order, bar => { order with
      stopPrice := (order.trailAmount.map (adjustTrailingStop order bar)).or order.stopPrice }
  | _, order, _ => order

inductive FillModel where
  | single (type : OrderType) (caps : BaseFillModel)
  | unified (caps : BaseFillModel)

namespace FillModel

def caps : FillModel → BaseFillModel
  | .single _ caps => caps
  | .unified caps => caps

def handler : FillModel → Order → OrderType
  | .single type _, _ => type
  | .unified _, order => order.type

def fill (k : FillModel) (order : Order) (bar : Bar) : Fill × Order :=
  (k.caps.fillAt order bar (priceOf (k.handler order) order bar), orderAfter (k.handler order) order bar)

end FillModel

end Qmtl.Runtime.Brokerage

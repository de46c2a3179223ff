import Qmtl.Lib.Ledger
import Qmtl.Runtime.Brokerage.FillModels
import Mathlib.Algebra.BigOperators.Group.Finset.Basic

/-!
The brokerage: an order is checked, filled, charged and settled, on the books of one account.
-/

namespace Qmtl.Runtime.Brokerage

open Lib
open Lib.Double (roundEven)

/-! ### Cash -/

structure CashEntry where
  balance : ℚ
  pending : ℚ
  rate : ℚ

def CashEntry.zero : CashEntry := ⟨0, 0, 1⟩

abbrev Cashbook := Dict String CashEntry

namespace Cashbook

variable (c : Cashbook) (currency : String)

def get : CashEntry := (c.get? currency).getD .zero

def setBalance (balance rate : ℚ) : Cashbook := c.set currency { get c currency with balance, rate }

def adjust (amount : ℚ) : Cashbook := c.set currency { get c currency with balance := (get c currency).balance + amount }

def reserve (amount : ℚ) : Cashbook := c.set currency { get c currency with pending := (get c currency).pending + amount }

def release (amount : ℚ) : Cashbook := c.set currency { get c currency with pending := (get c currency).pending - amount }

def worth (base : String) (e : String × CashEntry) : ℚ :=
  if e.1 = base then e.2.balance + e.2.pending else (e.2.balance + e.2.pending) * e.2.rate

def totalValue (base : String) : ℚ := (c.entries.map (worth base)).sum

section

variable {c : Cashbook} {currency k : String} {amount : ℚ}

lemma get_set (c : Cashbook) (currency k : String) (e : CashEntry) :
    get (c.set currency e) k = if k = currency then e else get c k := by
  unfold get
  rw [Dict.get?_set]
  split <;> rfl

@[simp] lemma balance_adjust : (get (adjust c currency amount) k).balance =
    (get c k).balance + if currency = k then amount else 0 := by
  unfold adjust
  rw [get_set]
  by_cases h : k = currency
  · simp [h]
  · simp [h, Ne.symm h]

@[simp] lemma pending_adjust : (get (adjust c currency amount) k).pending = (get c k).pending := by
  unfold adjust
  rw [get_set]
  split
  · rename_i h
    rw [h]
  · rfl

@[simp] lemma rate_adjust : (get (adjust c currency amount) k).rate = (get c k).rate := by
  unfold adjust
  rw [get_set]
  split
  · rename_i h
    rw [h]
  · rfl

@[simp] lemma pending_reserve : (get (reserve c currency amount) k).pending =
    (get c k).pending + if currency = k then amount else 0 := by
  unfold reserve
  rw [get_set]
  by_cases h : k = currency
  · simp [h]
  · simp [h, Ne.symm h]

@[simp] lemma balance_reserve : (get (reserve c currency amount) k).balance = (get c k).balance := by
  unfold reserve
  rw [get_set]
  split
  · rename_i h
    rw [h]
  · rfl

@[simp] lemma rate_reserve : (get (reserve c currency amount) k).rate = (get c k).rate := by
  unfold reserve
  rw [get_set]
  split
  · rename_i h
    rw [h]
  · rfl

lemma release_eq (c : Cashbook) (currency : String) (amount : ℚ) : release c currency amount = reserve c currency (-amount) := by
  unfold release reserve
  rw [sub_eq_add_neg]

lemma totalValue_eq {F : Finset String} (base : String) (h : ∀ k ∈ c.keys, k ∈ F) :
    totalValue c base = ∑ k ∈ F, worth base (k, get c k) := by
  have hen : c.entries.map (worth base) = c.keys.map fun k => worth base (k, get c k) := by
    unfold Dict.keys
    rw [List.map_map]
    refine List.map_congr_left fun e he => ?_
    have hget : get c e.1 = e.2 := by
      unfold get
      rw [Dict.get?_eq_some.mpr he]
      rfl
    show worth base e = worth base (e.1, get c e.1)
    rw [hget]
  unfold totalValue
  rw [hen, ← List.sum_toFinset _ c.keys_nodup]
  refine Finset.sum_subset (fun k hk => h k (List.mem_toFinset.mp hk)) fun k _ hk => ?_
  have hget : get c k = .zero := by
    unfold get
    rw [Dict.get?_eq_none.mpr fun hmem => hk (List.mem_toFinset.mpr hmem)]
    rfl
  rw [hget]
  unfold worth CashEntry.zero
  split <;> norm_num

lemma totalValue_congr {c' : Cashbook} (base : String) (hr : ∀ k, (get c k).rate = (get c' k).rate)
    (hsum : ∀ k, (get c k).balance + (get c k).pending = (get c' k).balance + (get c' k).pending) :
    totalValue c base = totalValue c' base := by
  rw [totalValue_eq (F := c.keys.toFinset ∪ c'.keys.toFinset) base fun k hk => by simp [hk],
    totalValue_eq (F := c.keys.toFinset ∪ c'.keys.toFinset) base fun k hk => by simp [hk]]
  refine Finset.sum_congr rfl fun k _ => ?_
  unfold worth
  rw [hsum k, hr k]

end

end Cashbook

/-! ### Settlement -/

structure PendingSettlement where
  symbol : String
  currency : String
  amount : ℚ
  settlesAt : DateTime
  deriving DecidableEq

structure SettlementModel where
  days : ℤ
  deferCash : Bool
  holidays : List ℕ

def maxOrdinal : ℕ := 3652059

namespace SettlementModel

variable (m : SettlementModel)

def business (day : ℕ) : Bool := (day + 6) % 7 < 5 ∧ day ∉ m.holidays

def addDays : ℕ → ℕ → ℕ → Option ℕ
  | _, day, 0 => some day
  | 0, _, _ + 1 => none
  | room + 1, day, remaining + 1 =>
    if m.business (day + 1) then addDays room (day + 1) remaining else addDays room (day + 1) (remaining + 1)

def addBusinessDays (start : DateTime) (days : ℤ) : Option DateTime :=
  (m.addDays (maxOrdinal - start.date) start.date days.toNat).map fun day => day * oneDay + start.time

variable {m}

lemma card_of_addDays {room day remaining last : ℕ} (h : m.addDays room day remaining = some last) :
    day ≤ last ∧ ((Finset.Ioc day last).filter fun d => m.business d).card = remaining := by
  induction room generalizing day remaining with
  | zero =>
    cases remaining with
    | zero => cases h; simp
    | succ remaining => cases h
  | succ room ih =>
    cases remaining with
    | zero => cases h; simp
    | succ remaining =>
      have hs : day + 1 ≤ last → Finset.Ioc day last = insert (day + 1) (Finset.Ioc (day + 1) last) := by
        intro hle
        ext d
        simp only [Finset.mem_insert, Finset.mem_Ioc]
        omega
      have hnew : day + 1 ∉ (Finset.Ioc (day + 1) last).filter fun d => m.business d := by simp
      unfold addDays at h
      split at h
      · rename_i hb
        obtain ⟨hle, hc⟩ := ih h
        refine ⟨by omega, ?_⟩
        rw [hs hle, Finset.filter_insert, if_pos hb, Finset.card_insert_of_notMem hnew, hc]
      · rename_i hb
        obtain ⟨hle, hc⟩ := ih h
        refine ⟨by omega, ?_⟩
        rw [hs hle, Finset.filter_insert, if_neg hb, hc]

lemma card_of_addBusinessDays {start settles : DateTime} {days : ℤ} (h : m.addBusinessDays start days = some settles) :
    days ≤ ((Finset.Ioc start.date settles.date).filter fun d => m.business d).card ∧
      settles.time = start.time := by
  obtain ⟨day, hday, rfl⟩ := Option.map_eq_some_iff.mp h
  have hlt : start.time < oneDay := Nat.mod_lt _ (by decide)
  have hd : DateTime.date (day * oneDay + start.time) = day := by
    unfold DateTime.date
    rw [Nat.mul_comm, Nat.mul_add_div (by decide), Nat.div_eq_of_lt hlt, Nat.add_zero]
  have ht : DateTime.time (day * oneDay + start.time) = start.time := by
    unfold DateTime.time at *
    rw [Nat.mul_comm, Nat.mul_add_mod, Nat.mod_eq_of_lt hlt]
  rw [hd, ht, (card_of_addDays hday).2]
  exact ⟨Int.self_le_toNat days, rfl⟩

end SettlementModel

structure ShortableLot where
  quantity : ℤ
  fee : ℚ

/-- An entry of the table: one lot, or one for each date. -/
inductive Lots where
  | always (lot : ShortableLot)
  | on (lots : Dict ℕ ShortableLot)

structure ShortableProvider where
  table : Dict String Lots

def ShortableProvider.resolveLot (p : ShortableProvider) (symbol : String) (day : ℕ) : Option ShortableLot :=
  (p.table.get? symbol).bind fun lots => match lots with
    | .always lot => some lot
    | .on lots => lots.get? day

/-! ### The books -/

structure Books where
  cashbook : Cashbook
  pending : List PendingSettlement
  reserved : Dict String ℚ
  borrowed : Dict (String × ℕ) ℚ

namespace Books

variable (s : Books)

def borrowedOf (symbol : String) (day : ℕ) : ℚ := (s.borrowed.get? (symbol, day)).getD 0

def reservedFor (currency : String) : ℚ := max 0 ((s.reserved.get? currency).getD 0)

def availableQty (p : ShortableProvider) (symbol : String) (day : ℕ) : Option ℚ :=
  (p.resolveLot symbol day).map fun lot => max (lot.quantity - s.borrowedOf symbol day) 0

def borrow (p : ShortableProvider) (symbol : String) (quantity : ℚ) (day : ℕ) : Option (ℚ × Books) :=
  match p.resolveLot symbol day with
  | none => none
  | some lot =>
    let borrowed := s.borrowedOf symbol day
    if (lot.quantity : ℚ) - borrowed < quantity then none
    else some (lot.fee * quantity, { s with borrowed := s.borrowed.set (symbol, day) (borrowed + quantity) })

end Books

def Fill.cost (f : Fill) : ℚ := f.price * f.quantity + f.fee

namespace SettlementModel

variable (m : SettlementModel) (s : Books)

def addReserved (reserved : Dict String ℚ) (currency : String) (amount : ℚ) : Dict String ℚ :=
  reserved.set currency ((reserved.get? currency).getD 0 + amount)

def record (fill : Fill) (currency : String) (now : DateTime) : Option Books :=
  let cost := -fill.cost
  (m.addBusinessDays now m.days).map fun settles =>
    let s := { s with pending := s.pending ++ [⟨fill.symbol, currency, cost, settles⟩] }
    if m.deferCash then { s with
      cashbook := Cashbook.reserve s.cashbook currency cost
      reserved := if cost < 0 then addReserved s.reserved currency (-cost) else s.reserved }
    else s

def settle (s : Books) (p : PendingSettlement) : Books :=
  if m.deferCash then { s with
    cashbook := Cashbook.release (Cashbook.adjust s.cashbook p.currency p.amount) p.currency p.amount
    reserved := if p.amount < 0 then addReserved s.reserved p.currency p.amount else s.reserved }
  else s

def cleanup (reserved : Dict String ℚ) : Dict String ℚ where
  entries := reserved.entries.filter fun e => !decide (|e.2| < 1 / 1000000000)
  nodup := reserved.nodup.sublist (List.filter_sublist.map Prod.fst)

def applyDue (now : DateTime) : ℕ × Books :=
  let due := s.pending.filter fun p => p.settlesAt ≤ now
  let s' := due.foldl m.settle s
  (due.length, { s' with
    pending := s.pending.filter fun p => !decide (p.settlesAt ≤ now)
    reserved := cleanup s'.reserved })

end SettlementModel

/-! ### Symbols -/

structure SymbolProperties where
  tickSize : ℚ
  lotSize : ℤ
  minQty : ℤ
  currency : String

def SymbolProperties.equity : SymbolProperties := ⟨1 / 100, 1, 1, "USD"⟩

structure Symbols where
  table : Dict String SymbolProperties

namespace Symbols

variable (p : Symbols)

def get (symbol : String) : SymbolProperties := (p.table.get? symbol).getD .equity

def roundPrice (price tickSize : ℚ) : ℚ := if tickSize ≤ 0 then price else roundEven (price / tickSize) * tickSize

def validateOrder (symbol : String) (price : Option ℚ) (quantity : ℚ) : Bool :=
  let sp := p.get symbol
  (sp.minQty : ℚ) ≤ |quantity| ∧ sp.lotSize ≠ 0 ∧ |quantity| = ⌊|quantity| / sp.lotSize⌋ * sp.lotSize ∧
    price.all fun price => |roundPrice price sp.tickSize - price| ≤ 1 / 1000000000

end Symbols

/-! ### The brokerage -/

structure BrokerageModel where
  baseCurrency : String
  hasSufficientBuyingPower : Books → Order → Option Bool
  fee : Order → ℚ → Option ℚ
  slippage : Order → ℚ → Option ℚ
  fill : Order → Bar → Option (Fill × Order)
  symbols : Option Symbols
  hours : Option ExchangeHours
  shortable : Option ShortableProvider
  settlement : Option SettlementModel

structure Call where
  marketPrice : ℚ
  ts : Option DateTime
  barVolume : Option ℤ
  clock : DateTime
  today : ℕ

def Call.day (c : Call) : ℕ := (c.ts.map DateTime.date).getD c.today

def Call.now (c : Call) : DateTime := c.ts.getD c.clock

namespace BrokerageModel

variable (m : BrokerageModel) (s : Books) (order : Order) (c : Call)

def validateOrderProperties : Bool :=
  m.symbols.all fun symbols =>
    symbols.validateOrder order.symbol
      (if order.type = .limit ∨ order.type = .stopLimit then order.limitPrice else some order.price) order.quantity

def validateHours : Bool := m.hours.all fun hours => c.ts.all hours.isOpen

def validateShortable : Bool :=
  m.shortable.all fun p => 0 ≤ order.quantity ∨
    (s.availableQty p order.symbol c.day).any fun available => 0 < available ∧ -order.quantity ≤ available

def canSubmitOrder : Option Bool :=
  if m.validateOrderProperties order ∧ m.validateHours c ∧ m.validateShortable s order c then
    m.hasSufficientBuyingPower s order
  else none

def filled : Option (Fill × Order) :=
  if m.canSubmitOrder s order c = some true then
    (m.slippage order c.marketPrice).bind fun price => m.fill order ⟨price, c.ts, m.hours, c.barVolume⟩
  else none

def borrowFee (fill : Fill) : Option (ℚ × Books) :=
  match m.shortable with
  | none => some (0, s)
  | some p => if 0 ≤ fill.quantity then some (0, s) else s.borrow p order.symbol (-fill.quantity) c.day

def resolveCurrency : String :=
  match m.symbols with
  | none => m.baseCurrency
  | some symbols => (symbols.get order.symbol).currency

def applySettlement (fill : Fill) (currency : String) : Bool × Books :=
  match m.settlement with
  | none => (true, { s with cashbook := Cashbook.adjust s.cashbook currency (-fill.cost) })
  | some settlement =>
    let s := if settlement.deferCash then s else { s with cashbook := Cashbook.adjust s.cashbook currency (-fill.cost) }
    match settlement.record s fill currency c.now with
    | none => (false, s)
    | some s => (true, s)

def executeOrder : Option (Fill × Order) × Books :=
  match m.filled s order c with
  | none => (none, s)
  | some (fill, order) =>
    if fill.quantity = 0 then (some ({ fill with fee := 0 }, order), s)
    else match m.borrowFee s order c fill with
      | none => (none, s)
      | some (borrowFee, s) => match m.fee order fill.price with
        | none => (none, s)
        | some fee =>
          let fill := { fill with fee := fee + borrowFee }
          let (returned, s) := m.applySettlement s c fill (m.resolveCurrency order)
          (if returned then some (fill, order) else none, s)

variable {m s order c}

lemma filled_of_executeOrder {fill : Fill} {order' : Order} (h : (m.executeOrder s order c).1 = some (fill, order')) :
    ∃ f fee, m.filled s order c = some (f, order') ∧ fill = { f with fee } := by
  unfold executeOrder at h
  split at h
  · cases h
  · rename_i f o hfilled
    split at h
    · cases h
      exact ⟨f, 0, hfilled, rfl⟩
    · split at h
      · cases h
      · split at h
        · cases h
        · dsimp only at h
          split at h
          · cases h
            exact ⟨f, _, hfilled, rfl⟩
          · cases h

def Borrows (m : BrokerageModel) (fill : Fill) : Prop := m.shortable.isSome ∧ fill.quantity < 0

lemma borrowFee_cases {fill : Fill} {fee : ℚ} {s' : Books} (h : m.borrowFee s order c fill = some (fee, s')) :
    (¬m.Borrows fill ∧ fee = 0 ∧ s' = s) ∨ (m.Borrows fill ∧ s' = { s with
      borrowed := s.borrowed.set (order.symbol, c.day) (s.borrowedOf order.symbol c.day - fill.quantity) }) := by
  unfold borrowFee at h
  unfold Borrows
  split at h
  · rename_i hn
    cases h
    exact .inl ⟨by simp [hn], rfl, rfl⟩
  · rename_i p hs
    split at h
    · rename_i hpos
      cases h
      exact .inl ⟨fun hb => absurd hb.2 (not_lt.mpr hpos), rfl, rfl⟩
    · rename_i hneg
      refine .inr ⟨⟨by rw [hs]; rfl, not_le.mp hneg⟩, ?_⟩
      unfold Books.borrow at h
      split at h
      · cases h
      · dsimp only at h
        split at h
        · cases h
        · cases h
          rw [sub_eq_add_neg]

end BrokerageModel

end Qmtl.Runtime.Brokerage

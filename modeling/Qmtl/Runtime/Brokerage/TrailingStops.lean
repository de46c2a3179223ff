import Qmtl.Runtime.Brokerage.Bracket
import Mathlib.Order.Bounds.Basic

/-!
What a fill keeps of its order, and where the stop of a trailing order stands after the prices it has met: alone, and in a
bracket.
-/

namespace Qmtl.Runtime.Brokerage

open Lib
open Lib.Double (truncate)

/-! ### Fills -/

structure BaseFillModel.Nonneg (m : BaseFillModel) (barVolume : Option ℤ) : Prop where
  liquidity : ∀ cap ∈ m.liquidityCap, 0 ≤ cap
  volume : ∀ limit ∈ m.volumeLimit, ∀ volume ∈ barVolume, 0 ≤ limit * volume

/-- A price that is not worse than a limit, and one that triggers a stop. -/
def Within (order : Order) (limit price : ℚ) : Prop := if 0 < order.quantity then price ≤ limit else limit ≤ price

def Triggers (order : Order) (stop price : ℚ) : Prop := if 0 < order.quantity then stop ≤ price else price ≤ stop

/-- A fill that keeps to its order. -/
structure Respects (m : BaseFillModel) (order : Order) (bar : Bar) (fill : Fill) : Prop where
  sign : 0 ≤ fill.quantity * order.quantity
  size : |fill.quantity| ≤ |order.quantity|
  liquidity : ∀ cap ∈ m.liquidityCap, |fill.quantity| ≤ cap
  volume : ∀ limit ∈ m.volumeLimit, ∀ volume ∈ bar.volume, |fill.quantity| ≤ truncate (limit * volume)
  whole : order.tif = .fok → fill.quantity = 0 ∨ fill.quantity = order.quantity
  unexpired : order.tif = .gtd → expired order bar.ts = true → fill.quantity = 0
  limit : order.type = .limit ∨ order.type = .stopLimit → fill.quantity ≠ 0 →
    ∃ limit ∈ order.limitPrice, Within order limit fill.price
  stop : order.type = .stop ∨ order.type = .stopLimit ∨ order.type = .trailingStop → fill.quantity ≠ 0 →
    ∃ stop ∈ (orderAfter order.type order bar).stopPrice, Triggers order stop fill.price

variable {m : BaseFillModel} {order : Order} {bar : Bar} {desired : ℚ}

structure Allowed (m : BaseFillModel) (bar : Bar) (desired quantity : ℚ) : Prop where
  nonneg : 0 ≤ quantity
  le : quantity ≤ desired
  liquidity : ∀ cap ∈ m.liquidityCap, quantity ≤ cap
  volume : ∀ limit ∈ m.volumeLimit, ∀ volume ∈ bar.volume, quantity ≤ truncate (limit * volume)

lemma truncate_nonneg {x : ℚ} (h : 0 ≤ x) : 0 ≤ truncate x := by
  rw [truncate, if_pos h]
  exact Int.floor_nonneg.mpr h

lemma allowed_zero (h : m.Nonneg bar.volume) (hpos : 0 ≤ desired) : Allowed m bar desired 0 where
  nonneg := le_rfl
  le := hpos
  liquidity cap hcap := mod_cast h.liquidity cap hcap
  volume limit hl volume hv := mod_cast truncate_nonneg (h.volume limit hl volume hv)

lemma allowed_capAvailable (h : m.Nonneg bar.volume) (hpos : 0 ≤ desired) :
    Allowed m bar desired (m.capAvailable desired bar.volume) := by
  have hz := allowed_zero h hpos
  unfold BaseFillModel.capAvailable
  constructor
  · split <;> split <;> grind [Allowed]
  · split <;> split <;> simp
  · intro cap hcap
    simp_all
  · intro limit hl volume hv
    simp only [Option.mem_def.mp hl, Option.mem_def.mp hv]
    split
    · exact (min_le_left _ _).trans (min_le_right _ _)
    · exact min_le_right _ _

lemma allowed_applyTif (h : m.Nonneg bar.volume) (hpos : 0 ≤ desired) : Allowed m bar desired (m.applyTif order bar desired) := by
  have hz := allowed_zero h hpos
  have hcap := allowed_capAvailable h hpos
  have hmin : min desired (m.capAvailable desired bar.volume) = m.capAvailable desired bar.volume := min_eq_right hcap.le
  unfold BaseFillModel.applyTif
  split
  · exact hz
  · unfold applyTimeInForce
    split
    · split
      · rename_i hall
        rwa [le_antisymm hcap.le hall] at hcap
      · exact hz
    · exact hcap
    · split
      · exact hz
      · rwa [hmin]
    · rwa [hmin]

variable {k : FillModel} {price : ℚ}

lemma priceOf_of_fill (h : (k.fill order bar).1.quantity ≠ 0) :
    priceOf (k.handler order) order bar = some (k.fill order bar).1.price := by
  unfold FillModel.fill BaseFillModel.fillAt at *
  cases hprice : priceOf (k.handler order) order bar with
  | none => simp [hprice] at h
  | some price => rfl

lemma within_of_limitPrice (h : limitPrice order bar = some price) :
    price = bar.price ∧ ∃ limit ∈ order.limitPrice, Within order limit price := by
  unfold Within
  obtain ⟨limit, hl, h⟩ := Option.bind_eq_some_iff.mp h
  refine ⟨?_, limit, hl, ?_⟩
  · grind
  · grind

lemma triggers_iff {stop : ℚ} : triggered order bar stop ↔ Triggers order stop bar.price := by
  unfold triggered Triggers
  split <;> exact decide_eq_true_iff

lemma triggers_of_ite {stop : ℚ} (h : (if triggered order bar stop then some bar.price else none) = some price) :
    Triggers order stop price := by
  split at h
  · cases h
    exact triggers_iff.mp ‹_›
  · cases h

lemma triggers_of_stopMarketPrice (h : stopMarketPrice order bar = some price) :
    ∃ stop ∈ order.stopPrice, Triggers order stop price := by
  obtain ⟨stop, hs, h⟩ := Option.bind_eq_some_iff.mp h
  exact ⟨stop, hs, triggers_of_ite h⟩

lemma triggers_of_stopLimitPrice (h : stopLimitPrice order bar = some price) :
    (∃ stop ∈ order.stopPrice, Triggers order stop price) ∧ limitPrice order bar = some price := by
  obtain ⟨stop, hs, h⟩ := Option.bind_eq_some_iff.mp h
  obtain ⟨limit, -, h⟩ := Option.bind_eq_some_iff.mp h
  split at h
  · rename_i ht
    refine ⟨⟨stop, hs, ?_⟩, h⟩
    rw [(within_of_limitPrice h).1]
    exact triggers_iff.mp ht
  · cases h

lemma triggers_of_trailingStopPrice (h : trailingStopPrice order bar = some price) :
    ∃ stop ∈ (orderAfter .trailingStop order bar).stopPrice, Triggers order stop price := by
  obtain ⟨trail, ht, h⟩ := Option.bind_eq_some_iff.mp h
  refine ⟨adjustTrailingStop order bar trail, ?_, triggers_of_ite h⟩
  show (order.trailAmount.map (adjustTrailingStop order bar)).or order.stopPrice = some _
  rw [ht]
  rfl

lemma exists_allowed (h : m.Nonneg bar.volume) (order : Order) : ∃ quantity, Allowed m bar |order.quantity| quantity ∧
    (order.tif = .fok → quantity = 0 ∨ quantity = |order.quantity|) ∧
    (order.tif = .gtd → expired order bar.ts → quantity = 0) ∧
    ((FillModel.unified m).fill order bar).1.quantity = if 0 ≤ order.quantity then quantity else -quantity := by
  have hpos := abs_nonneg order.quantity
  by_cases hprice : (priceOf order.type order bar).isSome
  · refine ⟨m.applyTif order bar |order.quantity|, allowed_applyTif h hpos, fun htif => ?_, fun htif hex => ?_, ?_⟩
    · unfold BaseFillModel.applyTif applyTimeInForce
      grind
    · unfold BaseFillModel.applyTif applyTimeInForce
      grind
    · rw [quantity_fill]
      exact if_pos hprice
  · refine ⟨0, allowed_zero h hpos, fun _ => .inl rfl, fun _ _ => rfl, ?_⟩
    rw [quantity_fill, neg_zero, ite_self]
    exact if_neg hprice

lemma respects_fill (h : m.Nonneg bar.volume) (order : Order) :
    Respects m order bar ((FillModel.unified m).fill order bar).1 := by
  obtain ⟨quantity, hal, hw, hex, hq⟩ := exists_allowed h order
  have habs : |((FillModel.unified m).fill order bar).1.quantity| = quantity := by
    rw [hq]
    split
    · exact abs_of_nonneg hal.nonneg
    · rw [abs_neg, abs_of_nonneg hal.nonneg]
  have hprice : ((FillModel.unified m).fill order bar).1.quantity ≠ 0 →
      priceOf order.type order bar = some ((FillModel.unified m).fill order bar).1.price := priceOf_of_fill
  constructor
  case sign =>
    rw [hq]
    split
    · exact mul_nonneg hal.nonneg ‹_›
    · exact mul_nonneg_of_nonpos_of_nonpos (neg_nonpos.mpr hal.nonneg) (le_of_not_ge ‹_›)
  case size => exact habs.trans_le hal.le
  case liquidity => exact fun cap hcap => habs.trans_le (hal.liquidity cap hcap)
  case volume => exact fun limit hl volume hv => habs.trans_le (hal.volume limit hl volume hv)
  case whole =>
    intro htif
    rcases hw htif with hz | hall
    · exact .inl (by rw [hq, hz, neg_zero, ite_self])
    · refine .inr ?_
      rw [hq, hall]
      split
      · exact abs_of_nonneg ‹_›
      · rw [abs_of_neg (not_le.mp ‹_›), neg_neg]
  case unexpired =>
    intro htif hp
    rw [hq, hex htif hp, neg_zero, ite_self]
  case limit =>
    rintro ht hne
    specialize hprice hne
    rcases ht with ht | ht <;> rw [ht] at hprice
    · exact (within_of_limitPrice hprice).2
    · exact (within_of_limitPrice (triggers_of_stopLimitPrice hprice).2).2
  case stop =>
    rintro ht hne
    specialize hprice hne
    rcases ht with ht | ht | ht <;> rw [ht] at hprice ⊢
    · exact triggers_of_stopMarketPrice hprice
    · exact (triggers_of_stopLimitPrice hprice).1
    · exact triggers_of_trailingStopPrice hprice

/-! ### Where a trailing stop stands -/

def levels (buys : Bool) (trail : ℚ) (stopPrice : Option ℚ) (seen : List ℚ) : Set ℚ :=
  {x | stopPrice = some x ∨ ∃ price ∈ seen, x = if buys then price + trail else price - trail}

/-- The best of them: the lowest to buy, the highest to sell. -/
def Best (buys : Bool) (s : Set ℚ) : Option ℚ → Prop
  | none => s = ∅
  | some x => if buys then IsLeast s x else IsGreatest s x

/-- An order that came of another one and has met some prices, where it is a trailing one. -/
structure Follows (start order : Order) (seen : List ℚ) : Prop where
  type : order.type = start.type
  trail : order.trailAmount = start.trailAmount
  stop : ∀ trail, start.type = .trailingStop → start.trailAmount = some trail →
    Best (0 < order.quantity) (levels (0 < order.quantity) trail start.stopPrice seen) order.stopPrice

lemma best_levels_nil (buys : Bool) (trail : ℚ) (stopPrice : Option ℚ) :
    Best buys (levels buys trail stopPrice []) stopPrice := by
  have hl : levels buys trail stopPrice [] = {x | stopPrice = some x} := by simp [levels]
  rw [hl]
  cases stopPrice with
  | none => exact Set.eq_empty_of_forall_notMem fun x hx => Option.some_ne_none x hx.symm
  | some x =>
    have hs : {y | some x = some y} = ({x} : Set ℚ) := Set.ext fun y => by simp [eq_comm]
    rw [hs]
    cases buys
    · exact isGreatest_singleton
    · exact isLeast_singleton

lemma levels_concat (buys : Bool) (trail : ℚ) (stopPrice : Option ℚ) (seen : List ℚ) (price : ℚ) :
    levels buys trail stopPrice (seen ++ [price]) =
      insert (if buys then price + trail else price - trail) (levels buys trail stopPrice seen) := by
  ext x
  simp [levels, or_and_right, exists_or, or_left_comm, or_comm]

lemma best_adjust {s : Set ℚ} {trail : ℚ} (h : Best (0 < order.quantity) s order.stopPrice) :
    Best (0 < order.quantity)
      (insert (if decide (0 < order.quantity) then bar.price + trail else bar.price - trail) s)
      (some (adjustTrailingStop order bar trail)) := by
  unfold adjustTrailingStop
  cases hs : order.stopPrice with
  | none =>
    rw [hs] at h
    rw [show s = ∅ from h, insert_empty_eq]
    by_cases hb : 0 < order.quantity
    · simp [Best, hb]
    · simp [Best, hb]
  | some x =>
    rw [hs] at h
    by_cases hb : 0 < order.quantity
    · simp only [Best, hb, decide_true, if_true, Option.getD_some] at h ⊢
      rw [min_comm]
      exact h.insert _
    · simp only [Best, hb, decide_false, Bool.false_eq_true, if_false, Option.getD_some] at h ⊢
      rw [max_comm]
      exact h.insert _

lemma orderAfter_eq_self (h : order.type = .trailingStop → (orderAfter .trailingStop order bar).stopPrice = order.stopPrice) :
    orderAfter order.type order bar = order := by
  by_cases ht : order.type = .trailingStop
  · rw [ht]
    exact congrArg (fun stopPrice => { order with stopPrice }) (h ht)
  · unfold orderAfter
    split
    · exact absurd ‹_› ht
    · rfl

lemma Follows.orderAfter {start : Order} {seen : List ℚ} (h : Follows start order seen) (bar : Bar) :
    Follows start (orderAfter order.type order bar) (seen ++ [bar.price]) := by
  by_cases ht : order.type = .trailingStop
  · rw [ht]
    refine ⟨h.type, h.trail, fun trail hs htr => ?_⟩
    rw [levels_concat]
    have hadj : (Brokerage.orderAfter .trailingStop order bar).stopPrice = some (adjustTrailingStop order bar trail) := by
      show (order.trailAmount.map (adjustTrailingStop order bar)).or order.stopPrice = _
      rw [h.trail, htr]
      rfl
    rw [hadj]
    exact best_adjust (h.stop trail hs htr)
  · rw [orderAfter_eq_self fun h => absurd h ht]
    exact ⟨h.type, h.trail, fun _ hs => absurd (h.type.trans hs) ht⟩

lemma follows_start (order : Order) (quantity : ℚ) : Follows order { order with quantity } [] :=
  ⟨rfl, rfl, fun _ _ _ => best_levels_nil _ _ _⟩

def orderAfterBars (k : FillModel) (order : Order) (bars : List Bar) : Order :=
  bars.foldl (fun order bar => (k.fill order bar).2) order

lemma follows_bars (m : BaseFillModel) (order : Order) (bars : List Bar) :
    Follows order (orderAfterBars (.unified m) order bars) (bars.map Bar.price) := by
  induction bars using List.reverseRecOn with
  | nil => exact follows_start order order.quantity
  | append_singleton bars bar ih =>
    unfold orderAfterBars
    rw [List.foldl_append, List.map_append]
    exact ih.orderAfter bar

/-! ### In a bracket -/

def met (m : BrokerageModel) (order : Order) (c : Call) : List ℚ := ((barOf m order c).map Bar.price).toList

structure Watched where
  state : Bracketed
  entry : List ℚ
  takeProfit : List ℚ
  stopLoss : List ℚ

def Watched.init (entry takeProfit stopLoss : Order) (books : Books) : Watched :=
  ⟨.init entry takeProfit stopLoss books, [], [], []⟩

def watchStep (k : FillModel) (m : BrokerageModel) (w : Watched) (c : Call) : Option Watched :=
  let b := w.state.bracket
  let legs := (afterEntry k m b c).oco.toList
  (bracketStep (m.withFills k) w.state c).map fun t => {
    state := t
    entry := if b.remaining = 0 then w.entry else w.entry ++ met m b.entryOrder c
    takeProfit := (if b.oco = none then [] else w.takeProfit) ++ legs.flatMap fun o => met m o.first c
    stopLoss := (if b.oco = none then [] else w.stopLoss) ++ legs.flatMap fun o => met m o.second c }

/-- The trailing orders of a bracket that are not filled stand where their prices put them. -/
structure Trailing (w : Watched) : Prop where
  entry : w.state.bracket.filledQty = 0 → Follows w.state.bracket.entry w.state.bracket.entry w.entry
  exits : ∀ o, w.state.bracket.oco = some o →
    Follows w.state.bracket.takeProfit o.first w.takeProfit ∧ Follows w.state.bracket.stopLoss o.second w.stopLoss

def Unmoved (m : BrokerageModel) (c : Call) (old new : Order) : Prop := old.type = .trailingStop →
  ∀ bar ∈ barOf m new c, (orderAfter .trailingStop new bar).stopPrice = (orderAfter .trailingStop old bar).stopPrice

/-- A call that loses no stop: it does not move that of an entry which stays unfilled, nor do the legs of a new pair stand
elsewhere than those they replace. -/
structure Keeps (k : FillModel) (m : BrokerageModel) (s : Bracketed) (c : Call) : Prop where
  entry : s.bracket.filledQty = 0 → s.bracket.remaining ≠ 0 → Idle k m s.bracket.entryOrder c →
    s.bracket.entry.type = .trailingStop → ∀ bar ∈ barOf m s.bracket.entryOrder c,
      (orderAfter .trailingStop s.bracket.entry bar).stopPrice = s.bracket.entry.stopPrice
  exits : ∀ old, s.bracket.oco = some old → ∀ new, (afterEntry k m s.bracket c).oco = some new →
    Idle k m new.first c → Idle k m new.second c → Unmoved m c old.first new.first ∧ Unmoved m c old.second new.second

variable {m : BrokerageModel} {c : Call} {caps : BaseFillModel} {t t' : Bracketed}

lemma execute_open {o o' : OCOOrder} {s s' : Books} {fills : Fill × Fill}
    (h : o.execute (m.withFills k) s c = some (fills, o', s')) (hz : ¬(fills.1.quantity ≠ 0 ∨ fills.2.quantity ≠ 0)) :
    ∃ bar bar', barOf m o.first c = some bar ∧ barOf m o.second c = some bar' ∧
      o' = ⟨(k.fill o.first bar).2, (k.fill o.second bar').2⟩ ∧ Idle k m o.first c ∧ Idle k m o.second c := by
  obtain ⟨⟨fillFirst, first, s₁⟩, hfirst, h⟩ := Option.bind_eq_some_iff.mp h
  obtain ⟨bar, hbar, -, rfl⟩ := returned_fill hfirst
  dsimp only at h
  split at h
  · rename_i hne
    cases h
    exact absurd (.inl hne) hz
  · rename_i hid
    rw [(returned_offered hfirst).1, not_not, ← idle_iff] at hid
    obtain ⟨⟨fillSecond, second, s₂⟩, hsecond, h⟩ := Option.bind_eq_some_iff.mp h
    obtain ⟨bar', hb', -, rfl⟩ := returned_fill hsecond
    split at h
    · rename_i hne
      cases h
      exact absurd (.inr hne) hz
    · rename_i hi'
      rw [(returned_offered hsecond).1, not_not, ← idle_iff] at hi'
      cases h
      exact ⟨bar, bar', hbar, hb', rfl, hid, hi'⟩

lemma bracketStep_open (h : bracketStep (m.withFills k) t c = some t') :
    t'.bracket = { afterEntry k m t.bracket c with oco := t'.bracket.oco } ∧ ∀ o', t'.bracket.oco = some o' →
      ∃ o bar bar', (afterEntry k m t.bracket c).oco = some o ∧ barOf m o.first c = some bar ∧
        barOf m o.second c = some bar' ∧ o' = ⟨(k.fill o.first bar).2, (k.fill o.second bar').2⟩ ∧
        Idle k m o.first c ∧ Idle k m o.second c := by
  obtain ⟨⟨⟨entry, tp, sl⟩, b', s'⟩, hex, rfl⟩ := Option.map_eq_some_iff.mp h
  obtain ⟨⟨entry', b₁, s₁⟩, hen, hex⟩ := Option.bind_eq_some_iff.mp hex
  obtain ⟨⟨⟨tp', sl'⟩, b₂, s₂⟩, hexi, heq⟩ := Option.bind_eq_some_iff.mp hex
  cases heq
  obtain ⟨rfl, -⟩ := executeEntry_cases hen
  unfold BracketOrder.executeExits at hexi
  split at hexi
  · rename_i hn
    cases hexi
    exact ⟨rfl, fun o ho => absurd (hn.symm.trans ho).symm (Option.some_ne_none o)⟩
  · rename_i o ho
    obtain ⟨⟨⟨fillTp, fillSl⟩, o₁, s₂⟩, hex, heq⟩ := Option.bind_eq_some_iff.mp hexi
    cases heq
    refine ⟨rfl, fun o' ho' => ?_⟩
    split at ho'
    · cases ho'
    · rename_i hz
      cases ho'
      obtain ⟨bar, bar', hopen⟩ := execute_open hex hz
      exact ⟨o, bar, bar', ho, hopen⟩

lemma Follows.replace {start old leg : Order} {seen : List ℚ} (h : Follows start old seen) (ht : leg.type = start.type)
    (htr : leg.trailAmount = start.trailAmount) (hside : 0 < leg.quantity ↔ 0 < old.quantity)
    (hbar : barOf m leg c = some bar) (hu : Unmoved m c old leg) :
    Follows start (Brokerage.orderAfter leg.type leg bar) (seen ++ [bar.price]) := by
  obtain ⟨-, -, hst⟩ := h.orderAfter bar
  have hsm : ∀ type, (Brokerage.orderAfter type leg bar).type = leg.type ∧
      (Brokerage.orderAfter type leg bar).trailAmount = leg.trailAmount := fun type => by
    cases type <;> exact ⟨rfl, rfl⟩
  refine ⟨(hsm _).1.trans ht, (hsm _).2.trans htr, fun trail hs ham => ?_⟩
  specialize hst trail hs ham
  rw [quantity_orderAfter, h.type, hs, ← hu (h.type.trans hs) bar hbar] at hst
  rw [quantity_orderAfter, ht, hs]
  simpa [hside] using hst

structure Sided (b : BracketOrder) : Prop where
  side : (0 ≤ b.filledQty ∧ 0 ≤ b.remaining) ∨ (b.filledQty ≤ 0 ∧ b.remaining ≤ 0)
  legs : ∀ o, b.oco = some o → b.filledQty ≠ 0 ∧ o.first.quantity = -b.filledQty ∧ o.second.quantity = -b.filledQty

lemma offered_bounds (h : caps.Nonneg c.barVolume) (order : Order) :
    (0 ≤ order.quantity → 0 ≤ offered (.unified caps) m order c ∧ offered (.unified caps) m order c ≤ order.quantity) ∧
    (order.quantity ≤ 0 → order.quantity ≤ offered (.unified caps) m order c ∧ offered (.unified caps) m order c ≤ 0) := by
  unfold offered barOf
  cases m.slippage order c.marketPrice with
  | none => exact ⟨fun hpos => ⟨le_rfl, hpos⟩, fun hneg => ⟨hneg, le_rfl⟩⟩
  | some price =>
    obtain ⟨quantity, hal, -, -, hq⟩ := @exists_allowed _ ⟨price, c.ts, m.hours, c.barVolume⟩ h order
    have hn := hal.nonneg
    have hle := hal.le
    simp only [Option.map_some, Option.getD_some, hq]
    constructor
    · intro hpos
      rw [if_pos hpos]
      exact ⟨hn, hle.trans_eq (abs_of_nonneg hpos)⟩
    · intro hneg
      rw [abs_of_nonpos hneg] at hle
      split <;> constructor <;> linarith

variable {b : BracketOrder}

lemma afterEntry_cases (b : BracketOrder) : (afterEntry k m b c = b ∧ (b.remaining = 0 ∨ Idle k m b.entryOrder c)) ∨
    (b.remaining ≠ 0 ∧ offered k m b.entryOrder c ≠ 0 ∧
      afterEntry k m b c = b.withEntry (offered k m b.entryOrder c)) := by
  unfold afterEntry
  rw [idle_iff]
  by_cases hremaining : b.remaining = 0
  · exact .inl ⟨if_pos hremaining, .inl hremaining⟩
  · rw [if_neg hremaining]
    by_cases hid : offered k m b.entryOrder c = 0
    · refine .inl ⟨?_, .inr hid⟩
      rw [hid]
      exact if_pos rfl
    · exact .inr ⟨hremaining, hid, rfl⟩

lemma Sided.fill (h : Sided b) {e : ℚ} (hne : e ≠ 0) (hpos : 0 ≤ b.remaining → 0 ≤ e ∧ e ≤ b.remaining)
    (hneg : b.remaining ≤ 0 → b.remaining ≤ e ∧ e ≤ 0) :
    b.filledQty + e ≠ 0 ∧ (b.filledQty ≠ 0 → (0 < -(b.filledQty + e) ↔ 0 < -b.filledQty)) ∧
      ((0 ≤ b.filledQty + e ∧ 0 ≤ b.remaining - e) ∨ (b.filledQty + e ≤ 0 ∧ b.remaining - e ≤ 0)) := by
  rcases h.side with ⟨hfilled, hremaining⟩ | ⟨hfilled, hremaining⟩
  · obtain ⟨hle, hs⟩ := hpos hremaining
    have hlt := lt_of_le_of_ne hle hne.symm
    exact ⟨by linarith, fun _ => iff_of_false (by linarith) (by linarith), .inl ⟨by linarith, by linarith⟩⟩
  · obtain ⟨hs, hle⟩ := hneg hremaining
    have hlt := lt_of_le_of_ne hle hne
    refine ⟨by linarith, fun hf' => ?_, .inr ⟨by linarith, by linarith⟩⟩
    have hlt' := lt_of_le_of_ne hfilled hf'
    exact iff_of_true (by linarith) (by linarith)

lemma Sided.afterEntry (h : Sided b) (hc : caps.Nonneg c.barVolume) :
    Sided (afterEntry (.unified caps) m b c) := by
  rcases afterEntry_cases (k := .unified caps) (m := m) (c := c) b with ⟨hsm, -⟩ | ⟨-, hne, hnew⟩
  · rwa [hsm]
  · obtain ⟨hb, hs⟩ := offered_bounds hc (m := m) b.entryOrder
    obtain ⟨hfilled, -, hside⟩ := h.fill hne hb hs
    rw [hnew]
    unfold BracketOrder.withEntry
    rw [if_neg hne]
    refine ⟨?_, fun o ho => ?_⟩
    · unfold BracketOrder.remaining at hside ⊢
      rwa [← sub_sub]
    · cases ho
      exact ⟨hfilled, rfl, rfl⟩

variable {w w' : Watched}

lemma sided_step (h : Sided t.bracket) (hc : caps.Nonneg c.barVolume)
    (hs : bracketStep (m.withFills (.unified caps)) t c = some t') : Sided t'.bracket := by
  obtain ⟨hb, hopen⟩ := bracketStep_open hs
  have haf := h.afterEntry (m := m) hc
  rw [hb]
  refine ⟨haf.side, fun o' ho' => ?_⟩
  obtain ⟨o, bar, bar', ho, -, -, rfl, -⟩ := hopen o' ho'
  obtain ⟨hne, hfirst, hsecond⟩ := haf.legs o ho
  exact ⟨hne, (quantity_orderAfter _ o.first bar).trans hfirst, (quantity_orderAfter _ o.second bar').trans hsecond⟩

/-- **One call** that loses no stop. -/
theorem trailing_step (hs : Sided w.state.bracket) (h : Trailing w) (hcp : caps.Nonneg c.barVolume)
    (hk : Keeps (.unified caps) m w.state c) (hst : watchStep (.unified caps) m w c = some w') : Trailing w' := by
  obtain ⟨t', hbr, rfl⟩ := Option.map_eq_some_iff.mp hst
  obtain ⟨hb, hopen⟩ := bracketStep_open hbr
  obtain ⟨hbs, hsl⟩ := offered_bounds hcp (m := m) w.state.bracket.entryOrder
  have hc := afterEntry_cases (k := .unified caps) (m := m) (c := c) w.state.bracket
  refine ⟨?_, fun o' ho' => ?_⟩
  · rw [hb]
    intro hz
    rcases hc with ⟨hsm, hid⟩ | ⟨-, hne, hnew⟩
    · rw [hsm] at hz ⊢
      split
      · exact h.entry hz
      · rename_i hremaining
        cases hbar : barOf m w.state.bracket.entryOrder c with
        | none =>
          simp only [met, hbar, Option.map_none, Option.toList_none, List.append_nil]
          exact h.entry hz
        | some bar =>
          have hse := orderAfter_eq_self fun ht =>
            hk.entry hz hremaining (hid.resolve_left hremaining) ht bar hbar
          simpa [met, hbar, hse] using (h.entry hz).orderAfter bar
    · rw [hnew, BracketOrder.withEntry, if_neg hne] at hz
      exact absurd hz (hs.fill hne hbs hsl).1
  · obtain ⟨o, bar, bar', ho, hbar, hb', rfl, hid, hi'⟩ := hopen o' ho'
    rw [hb]
    simp only [ho, Option.toList_some, List.flatMap_singleton, met, hbar, hb', Option.map_some]
    rcases hc with ⟨hsm, -⟩ | ⟨-, hne, hnew⟩
    · rw [hsm] at ho ⊢
      rw [ho, if_neg (Option.some_ne_none o), if_neg (Option.some_ne_none o)]
      exact ⟨(h.exits o ho).1.orderAfter bar, (h.exits o ho).2.orderAfter bar'⟩
    · have ho₁ := ho
      rw [hnew, BracketOrder.withEntry, if_neg hne] at ho ⊢
      cases ho
      cases hoco : w.state.bracket.oco with
      | none => exact ⟨(follows_start _ _).orderAfter bar, (follows_start _ _).orderAfter bar'⟩
      | some old =>
        obtain ⟨hfilled, hfirst, hsecond⟩ := hs.legs old hoco
        obtain ⟨-, hside, -⟩ := hs.fill hne hbs hsl
        specialize hside hfilled
        obtain ⟨hu, hu'⟩ := hk.exits old hoco _ ho₁ hid hi'
        exact ⟨(h.exits old hoco).1.replace rfl rfl (hfirst ▸ hside) hbar hu,
          (h.exits old hoco).2.replace rfl rfl (hsecond ▸ hside) hb' hu'⟩

/-- **Fills respect the order**, and the stop of a trailing order is the best its prices ask for: over any bars, and over
the calls of a bracket that lose no stop. -/
theorem fills_respect_orders (caps : BaseFillModel) :
    (∀ order bar, caps.Nonneg bar.volume → Respects caps order bar ((FillModel.unified caps).fill order bar).1) ∧
    (∀ order bars, Follows order (orderAfterBars (.unified caps) order bars) (bars.map Bar.price)) ∧
    ∀ m entry takeProfit stopLoss books w, Run (watchStep (.unified caps) m)
      (fun w c => caps.Nonneg c.barVolume ∧ Keeps (.unified caps) m w.state c) (.init entry takeProfit stopLoss books) w →
      Trailing w := by
  refine ⟨fun order bar h => respects_fill h order, follows_bars caps, fun m entry takeProfit stopLoss books w h => ?_⟩
  have hboth : Sided w.state.bracket ∧ Trailing w := by
    refine h.invariant (I := fun w => Sided w.state.bracket ∧ Trailing w) ⟨⟨?_, ?_⟩, ?_, ?_⟩ ?_
    · have hremaining : (Watched.init entry takeProfit stopLoss books).state.bracket.remaining = entry.quantity := sub_zero _
      rw [hremaining]
      exact (le_total 0 entry.quantity).imp (fun hpos => ⟨le_rfl, hpos⟩) fun hneg => ⟨le_rfl, hneg⟩
    · exact fun o ho => absurd ho.symm (Option.some_ne_none o)
    · exact fun _ => follows_start entry entry.quantity
    · exact fun o ho => absurd ho.symm (Option.some_ne_none o)
    · rintro w c w' ⟨hsided, htrailing⟩ ⟨hcaps, hkeeps⟩ hstep
      refine ⟨?_, trailing_step hsided htrailing hcaps hkeeps hstep⟩
      obtain ⟨t', hbracketed, rfl⟩ := Option.map_eq_some_iff.mp hstep
      exact sided_step hsided hcaps hbracketed
  exact hboth.2

def trailingOf100 : Order := ⟨"AAPL", -100, 100, .trailingStop, .day, none, none, none, some 5, none⟩

lemma nonneg_fifty : (BaseFillModel.mk (some 50) none).Nonneg none :=
  ⟨by simp, by simp⟩

theorem fills_respect_orders_fifty :
    Respects ⟨some 50, none⟩ entryOf100 ⟨100, none, none, none⟩ (fiftyAtATime.fill entryOf100 ⟨100, none, none, none⟩).1 ∧
    ∃ w, watchStep fiftyAtATime plainBrokerage (.init entryOf100 takeProfitAt110 trailingOf100 noBooks) (callAt 100) = some w ∧
      Trailing w := by
  obtain ⟨hfill, -, hruns⟩ := fills_respect_orders ⟨some 50, none⟩
  refine ⟨hfill entryOf100 ⟨100, none, none, none⟩ nonneg_fifty, ?_⟩
  obtain ⟨w, hstep⟩ : ∃ w, watchStep fiftyAtATime plainBrokerage (.init entryOf100 takeProfitAt110 trailingOf100 noBooks)
      (callAt 100) = some w := Option.isSome_iff_exists.mp (by decide +kernel)
  have hkeeps : Keeps fiftyAtATime plainBrokerage (.init entryOf100 takeProfitAt110 trailingOf100 noBooks) (callAt 100) := by
    constructor
    · intro _ _ _ htype
      cases htype
    · intro old hold
      cases hold
  exact ⟨w, hstep, hruns _ _ _ _ _ w (Run.init.next ⟨nonneg_fifty, hkeeps⟩ hstep)⟩

/-- **A trailing entry does not trail**: at 100 and then 110 its stop has not moved, and at 104 it is not filled, as it would
be by itself. -/
theorem trailing_entry_lost :
    (∃ w, Run (watchStep fiftyAtATime plainBrokerage) (fun _ c => (BaseFillModel.mk (some 50) none).Nonneg c.barVolume)
      (.init trailingOf100 takeProfitAt110 stopLossAt90 noBooks) w ∧ ¬Trailing w) ∧
    offered fiftyAtATime plainBrokerage trailingOf100 (callAt 104) = 0 ∧
    (fiftyAtATime.fill (orderAfterBars fiftyAtATime trailingOf100 [⟨100, none, none, none⟩, ⟨110, none, none, none⟩])
      ⟨104, none, none, none⟩).1.quantity = -50 := by
  refine ⟨?_, by decide +kernel, by decide +kernel⟩
  have hexec : (execIf (watchStep fiftyAtATime plainBrokerage) (fun _ c => decide (c.barVolume = none))
      (.init trailingOf100 takeProfitAt110 stopLossAt90 noBooks) [callAt 100, callAt 110]).any (fun w =>
        decide (w.state.bracket.filledQty = 0 ∧ w.state.bracket.entry = trailingOf100 ∧ w.entry = [100, 110])) := by
    decide +kernel
  obtain ⟨w, hrun, hw⟩ := exists_run _ _ _ _ _ hexec
  obtain ⟨hfilled, hentry, hseen⟩ := of_decide_eq_true hw
  refine ⟨w, hrun.mono fun w c hc => ?_, fun h => ?_⟩
  · rw [of_decide_eq_true hc]
    exact nonneg_fifty
  · obtain ⟨-, -, hstop⟩ := h.entry hfilled
    rw [hentry, hseen] at hstop
    have hempty : levels _ 5 none [100, 110] = ∅ := hstop 5 rfl rfl
    have hmem : (95 : ℚ) ∈ levels (0 < trailingOf100.quantity) 5 none [100, 110] :=
      .inr ⟨100, .head _, by decide +kernel⟩
    rw [hempty] at hmem
    exact hmem

end Qmtl.Runtime.Brokerage

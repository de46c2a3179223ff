import Qmtl.Runtime.SimulatedFills

/-!
Positions over runs: what `Portfolio.apply_fill` makes of quantities, cash and average costs, and which positions
`RiskControlNode` lets through. Amounts are rational.
-/

namespace Qmtl.Runtime.Execution

open Lib

/-! ### Average costs -/

structure Fill where
  symbol : String
  quantity : ℚ
  price : ℚ
  commission : ℚ

def Portfolio.filled (p : Portfolio) (f : Fill) : Portfolio := p.applyFill f.symbol f.quantity f.price f.commission

def afterFills (cash : ℚ) (fills : List Fill) : Portfolio := fills.foldl Portfolio.filled ⟨cash, Dict.empty⟩

def Portfolio.avgCost (p : Portfolio) (symbol : String) : ℚ := ((p.positions.get? symbol).map Position.avgCost).getD 0

def dueCost (quantity avgCost : ℚ) (f : Fill) : ℚ :=
  if quantity * f.quantity < 0 then if |f.quantity| < |quantity| then avgCost else f.price
  else (avgCost * quantity + f.price * f.quantity) / (quantity + f.quantity)

structure Accounted (cash : ℚ) (fills : List Fill) : Prop where
  quantity : ∀ symbol, (afterFills cash fills).quantity symbol =
    Ledger.total (fills.map fun f => (f.symbol, f.quantity)) symbol
  entry : ∀ symbol, (afterFills cash fills).positions.get? symbol = none ↔
    Ledger.total (fills.map fun f => (f.symbol, f.quantity)) symbol = 0
  balance : (afterFills cash fills).cash = cash - (fills.map fun f => f.quantity * f.price + f.commission).sum
  cost : ∀ before f, before ++ [f] <+: fills → (afterFills cash (before ++ [f])).quantity f.symbol ≠ 0 →
    (afterFills cash (before ++ [f])).avgCost f.symbol =
      dueCost ((afterFills cash before).quantity f.symbol) ((afterFills cash before).avgCost f.symbol) f

/-- The fill opens or closes a position, buys into a long one, sells a part of one, or is at the average cost. -/
def Even (p : Portfolio) (f : Fill) : Prop :=
  p.quantity f.symbol = 0 ∨ p.quantity f.symbol + f.quantity = 0 ∨
    0 < p.quantity f.symbol ∧ 0 < p.quantity f.symbol + f.quantity ∨ f.price = p.avgCost f.symbol

def Fill.negated (f : Fill) : Fill := { f with quantity := -f.quantity }

/-- No entry is of nothing. -/
def Portfolio.Open (p : Portfolio) : Prop := ∀ symbol pos, p.positions.get? symbol = some pos → pos.quantity ≠ 0

section Fills

variable {p : Portfolio} {f : Fill} {cash : ℚ} {fills : List Fill}

lemma Portfolio.Open.get?_eq_none (h : p.Open) (symbol : String) :
    p.positions.get? symbol = none ↔ p.quantity symbol = 0 := by
  unfold Portfolio.quantity
  cases hpos : p.positions.get? symbol with
  | none => simp
  | some pos => simpa using h symbol pos hpos

lemma get?_filled (p : Portfolio) (f : Fill) (symbol : String) : (p.filled f).positions.get? symbol =
    if symbol = f.symbol then
      match p.positions.get? f.symbol with
      | none => some ⟨f.quantity, f.price, f.price⟩
      | some pos =>
        if pos.quantity + f.quantity = 0 then none
        else some ⟨pos.quantity + f.quantity, if 0 < f.quantity then
          (pos.avgCost * pos.quantity + f.price * f.quantity) / (pos.quantity + f.quantity) else pos.avgCost, f.price⟩
    else p.positions.get? symbol := by
  unfold Portfolio.filled Portfolio.applyFill
  dsimp only
  cases p.positions.get? f.symbol with
  | none => rw [Dict.get?_set]
  | some pos =>
    by_cases h : pos.quantity + f.quantity = 0
    · simp only [h, if_true, Dict.get?_erase]
    · simp only [h, if_false, Dict.get?_set]

lemma Portfolio.Open.filled (h : p.Open) (hf : f.quantity ≠ 0) : (p.filled f).Open := by
  intro symbol pos hpos
  rw [get?_filled] at hpos
  by_cases hs : symbol = f.symbol
  · rw [if_pos hs] at hpos
    cases hold : p.positions.get? f.symbol with
    | none =>
      rw [hold] at hpos
      cases hpos
      exact hf
    | some old =>
      by_cases hz : old.quantity + f.quantity = 0
      · simp [hold, hz] at hpos
      · simp only [hold, hz, if_false] at hpos
        cases hpos
        exact hz
  · rw [if_neg hs] at hpos
    exact h symbol pos hpos

lemma average_eq_left {q n a x : ℚ} (hn : n ≠ 0) (hsum : q + n ≠ 0) : (a * q + x * n) / (q + n) = a ↔ x = a := by
  rw [div_eq_iff hsum, mul_add, add_right_inj, mul_left_inj' hn]

lemma average_eq_right {q n a x : ℚ} (hq : q ≠ 0) (hsum : q + n ≠ 0) : (a * q + x * n) / (q + n) = x ↔ x = a := by
  rw [div_eq_iff hsum, mul_add, add_left_inj, mul_left_inj' hq, eq_comm]

lemma cost_eq_dueCost_iff {q a : ℚ} (hq : q ≠ 0) (hf : f.quantity ≠ 0) (hsum : q + f.quantity ≠ 0) :
    (if 0 < f.quantity then (a * q + f.price * f.quantity) / (q + f.quantity) else a) = dueCost q a f ↔
      0 < q ∧ 0 < q + f.quantity ∨ f.price = a := by
  unfold dueCost
  rcases lt_or_gt_of_ne hq with hneg | hpos <;> rcases lt_or_gt_of_ne hf with hs | hbuy
  · -- more of a short position
    rw [if_neg hs.not_gt, if_neg (mul_pos_of_neg_of_neg hneg hs).not_gt, eq_comm, average_eq_left hf hsum]
    simp [hneg.not_gt]
  · -- a short position is bought back, or crossed
    rw [if_pos hbuy, if_pos (mul_neg_of_neg_of_pos hneg hbuy)]
    split_ifs
    · rw [average_eq_left hf hsum]
      simp [hneg.not_gt]
    · rw [average_eq_right hq hsum]
      simp [hneg.not_gt]
  · -- a long position is sold, or crossed
    rw [if_neg hs.not_gt, if_pos (mul_neg_of_pos_of_neg hpos hs), abs_of_neg hs, abs_of_pos hpos]
    split_ifs with hp
    · exact iff_of_true rfl (.inl ⟨hpos, by linarith⟩)
    · have hc : ¬ 0 < q + f.quantity := by linarith
      simp [hc, eq_comm]
  · rw [if_pos hbuy, if_neg (mul_pos hpos hbuy).not_gt]
    exact iff_of_true rfl (.inl ⟨hpos, by linarith⟩)

/-- **One fill** leaves the average cost that is due exactly where it is an even one. -/
theorem avgCost_filled_iff (h : p.Open) (hf : f.quantity ≠ 0) : ((p.filled f).quantity f.symbol ≠ 0 →
      (p.filled f).avgCost f.symbol = dueCost (p.quantity f.symbol) (p.avgCost f.symbol) f) ↔ Even p f := by
  unfold Even Portfolio.quantity Portfolio.avgCost
  rw [get?_filled, if_pos rfl]
  cases hpos : p.positions.get? f.symbol with
  | none => simp [dueCost, hf]
  | some pos =>
    have hq := h f.symbol pos hpos
    by_cases hz : pos.quantity + f.quantity = 0
    · simp [hz]
    · simp only [hz, if_false, Option.map_some, Option.getD_some, hq, false_or, ne_eq, not_false_eq_true,
        true_imp_iff, false_or]
      exact cost_eq_dueCost_iff hq hf hz

lemma afterFills_concat (cash : ℚ) (before : List Fill) (f : Fill) :
    afterFills cash (before ++ [f]) = (afterFills cash before).filled f := by
  rw [afterFills, List.foldl_append]
  rfl

/-- **Over a run**: nothing is held under an entry, quantities and cash add up. -/
theorem afterFills_spec (cash : ℚ) (hf : ∀ f ∈ fills, f.quantity ≠ 0) : (afterFills cash fills).Open ∧
    (∀ symbol, (afterFills cash fills).quantity symbol =
      Ledger.total (fills.map fun f => (f.symbol, f.quantity)) symbol) ∧
    (afterFills cash fills).cash = cash - (fills.map fun f => f.quantity * f.price + f.commission).sum := by
  induction fills using List.reverseRecOn with
  | nil => exact ⟨by simp [Portfolio.Open, afterFills], fun symbol => rfl, by simp [afterFills]⟩
  | append_singleton before f ih =>
    obtain ⟨hopen, hq, hc⟩ := ih fun g hg => hf g (List.mem_append_left _ hg)
    rw [afterFills_concat]
    refine ⟨hopen.filled (hf f (by simp)), fun symbol => ?_, ?_⟩
    · rw [Portfolio.filled, quantity_applyFill, hq]
      simp
    · rw [Portfolio.filled, cash_applyFill, hc]
      simp only [List.map_append, List.map_cons, List.map_nil, List.sum_append, List.sum_singleton]
      ring

lemma accounted_iff (cash : ℚ) (hf : ∀ f ∈ fills, f.quantity ≠ 0) :
    Accounted cash fills ↔ ∀ before f, before ++ [f] <+: fills → Even (afterFills cash before) f := by
  obtain ⟨hopen, hq, hc⟩ := afterFills_spec cash hf
  have hs : ∀ before f, before ++ [f] <+: fills →
      (((afterFills cash (before ++ [f])).quantity f.symbol ≠ 0 →
        (afterFills cash (before ++ [f])).avgCost f.symbol =
          dueCost ((afterFills cash before).quantity f.symbol) ((afterFills cash before).avgCost f.symbol) f) ↔
        Even (afterFills cash before) f) := by
    intro before f hin
    have hmem : ∀ g ∈ before ++ [f], g.quantity ≠ 0 := fun g hg => hf g (hin.subset hg)
    rw [afterFills_concat]
    exact avgCost_filled_iff (afterFills_spec cash fun g hg => hmem g (by simp [hg])).1 (hmem f (by simp))
  constructor
  · exact fun h before f hin => (hs before f hin).mp (h.cost before f hin)
  · exact fun h => ⟨hq, fun symbol => by rw [hopen.get?_eq_none, hq], hc,
      fun before f hin => (hs before f hin).mpr (h before f hin)⟩

lemma dueCost_negated (q a : ℚ) (f : Fill) : dueCost (-q) a f.negated = dueCost q a f := by
  have hsum : a * -q + f.price * -f.quantity = -(a * q + f.price * f.quantity) := by ring
  simp only [dueCost, Fill.negated, neg_mul_neg, abs_neg, hsum, ← neg_add, neg_div_neg_eq]

lemma mirrored {cash' : ℚ}
    (hc : ∀ before f, before ++ [f] <+: fills → (afterFills cash (before ++ [f])).quantity f.symbol ≠ 0 →
      (afterFills cash (before ++ [f])).avgCost f.symbol =
        dueCost ((afterFills cash before).quantity f.symbol) ((afterFills cash before).avgCost f.symbol) f)
    (hc' : ∀ before f, before ++ [f] <+: fills.map Fill.negated →
      (afterFills cash' (before ++ [f])).quantity f.symbol ≠ 0 → (afterFills cash' (before ++ [f])).avgCost f.symbol =
        dueCost ((afterFills cash' before).quantity f.symbol) ((afterFills cash' before).avgCost f.symbol) f)
    (symbol : String) :
    (afterFills cash' (fills.map Fill.negated)).quantity symbol = -(afterFills cash fills).quantity symbol ∧
      ((afterFills cash fills).quantity symbol ≠ 0 →
        (afterFills cash' (fills.map Fill.negated)).avgCost symbol = (afterFills cash fills).avgCost symbol) := by
  induction fills using List.reverseRecOn generalizing symbol with
  | nil => simp [afterFills, Portfolio.quantity]
  | append_singleton before f ih =>
    have hb := ih (fun b g hp => hc b g (hp.trans (List.prefix_append _ _)))
      (fun b g hp => hc' b g (hp.trans (by rw [List.map_append]; exact List.prefix_append _ _)))
    have hl := hc before f List.prefix_rfl
    have hl' := hc' (before.map Fill.negated) f.negated (by rw [List.map_append]; exact List.prefix_rfl)
    rw [List.map_append, List.map_cons, List.map_nil]
    have hq : (afterFills cash' (before.map Fill.negated ++ [f.negated])).quantity symbol =
        -(afterFills cash (before ++ [f])).quantity symbol := by
      rw [afterFills_concat, afterFills_concat, Portfolio.filled, Portfolio.filled, quantity_applyFill,
        quantity_applyFill, (hb symbol).1]
      show _ + (if f.symbol = symbol then -f.quantity else 0) = _
      split_ifs <;> ring
    refine ⟨hq, fun hne => ?_⟩
    by_cases hs : symbol = f.symbol
    · subst hs
      have hne' : (afterFills cash' (before.map Fill.negated ++ [f.negated])).quantity f.negated.symbol ≠ 0 := by
        rw [show f.negated.symbol = f.symbol from rfl, hq]
        exact neg_ne_zero.mpr hne
      have hdue := hl' hne'
      rw [show f.negated.symbol = f.symbol from rfl, (hb f.symbol).1, dueCost_negated] at hdue
      rw [hdue, hl hne]
      -- the average cost of nothing does not matter
      by_cases hz : (afterFills cash before).quantity f.symbol = 0
      · simp [dueCost, hz]
      · rw [(hb f.symbol).2 hz]
    · have hold : ∀ (c : ℚ) (fs : List Fill) (g : Fill), g.symbol = f.symbol →
          (afterFills c (fs ++ [g])).positions.get? symbol = (afterFills c fs).positions.get? symbol := by
        intro c fs g hg
        rw [afterFills_concat, get?_filled, if_neg (hg ▸ hs)]
      unfold Portfolio.quantity Portfolio.avgCost at *
      rw [hold cash before f rfl] at hne ⊢
      rw [hold cash' _ f.negated rfl]
      exact (hb symbol).2 hne

end Fills

/-- **Accounts are kept for long and short alike** exactly by runs of even fills; and where both a run and the negated one
keep them, they mirror each other. -/
theorem accounted_run_iff (cash : ℚ) (fills : List Fill) (hf : ∀ f ∈ fills, f.quantity ≠ 0) :
    (Accounted cash fills ↔ ∀ before f, before ++ [f] <+: fills → Even (afterFills cash before) f) ∧
      (Accounted cash fills → Accounted cash (fills.map Fill.negated) → ∀ symbol,
        (afterFills cash (fills.map Fill.negated)).quantity symbol = -(afterFills cash fills).quantity symbol ∧
          ((afterFills cash fills).quantity symbol ≠ 0 →
            (afterFills cash (fills.map Fill.negated)).avgCost symbol = (afterFills cash fills).avgCost symbol)) :=
  ⟨accounted_iff cash hf, fun h h' symbol => mirrored h.cost h'.cost symbol⟩

theorem accounted_run_iff_round_trip : Accounted 0 [⟨"AAPL", 10, 100, 0⟩, ⟨"AAPL", -10, 110, 0⟩] := by
  refine (accounted_run_iff 0 [⟨"AAPL", 10, 100, 0⟩, ⟨"AAPL", -10, 110, 0⟩] (by simp)).1.mpr fun before f h => ?_
  rcases List.prefix_cons_iff.mp h with h | ⟨rest, h, h'⟩
  · simp at h
  · cases before with
    | nil =>
      obtain ⟨rfl, -⟩ := List.cons.inj h
      exact .inl rfl
    | cons b before =>
      obtain ⟨rfl, rfl⟩ := List.cons.inj h
      obtain rfl : before = [] := by
        have := h'.length_le
        simp at this
        exact this
      obtain ⟨rfl⟩ : f = ⟨"AAPL", -10, 110, 0⟩ := by simpa using h'
      exact .inr (.inl (by decide +kernel))

/-- More is sold short at another price, and the average cost stays. -/
theorem short_not_averaged : ¬ Accounted 0 [⟨"AAPL", -10, 100, 0⟩, ⟨"AAPL", -10, 120, 0⟩] := by
  intro h
  have hcost := h.cost [⟨"AAPL", -10, 100, 0⟩] ⟨"AAPL", -10, 120, 0⟩ List.prefix_rfl
  revert hcost
  decide +kernel

/-! ### Position limits -/

structure RiskConfig where
  maxPositionSize : Option ℚ
  positionSizeLimitPct : ℚ
  enableDynamicSizing : Bool

structure RiskViolation where
  currentValue : ℚ
  limitValue : ℚ
  symbol : String

def Portfolio.totalValue (p : Portfolio) : ℚ := p.cash + (p.positions.values.map fun pos => pos.quantity * pos.marketPrice).sum

def resized (value price proposedQuantity : ℚ) : ℚ := value / price * if 0 < proposedQuantity then 1 else -1

def RiskConfig.validatePositionSize (config : RiskConfig) (symbol : String)
    (proposedQuantity currentPrice portfolioValue : ℚ) : Bool × Option RiskViolation × ℚ :=
  let proposedValue := |proposedQuantity * currentPrice|
  let limit := config.maxPositionSize.getD 0
  let maxValue := portfolioValue * config.positionSizeLimitPct
  if limit ≠ 0 ∧ limit < proposedValue then
    (false, some ⟨proposedValue, limit, symbol⟩,
      if config.enableDynamicSizing then resized limit currentPrice proposedQuantity else 0)
  else if 0 < portfolioValue ∧ config.positionSizeLimitPct < proposedValue / portfolioValue then
    (false, some ⟨proposedValue / portfolioValue, config.positionSizeLimitPct, symbol⟩,
      if config.enableDynamicSizing then resized maxValue currentPrice proposedQuantity else 0)
  else (true, none, proposedQuantity)

def RiskConfig.compute (config : RiskConfig) (p : Portfolio) (order : SizedOrder) : Option SizedOrder :=
  let answer := config.validatePositionSize order.symbol order.quantity order.price p.totalValue
  let order := if answer.2.2 ≠ 0 ∧ answer.2.2 ≠ order.quantity then { order with quantity := answer.2.2 } else order
  if answer.1 then some order else none

def RiskConfig.next (config : RiskConfig) (p : Portfolio) (order : SizedOrder) : Portfolio :=
  (config.compute p order).elim p fun o => p.applyFill o.symbol o.quantity o.price 0

/-- The value is within the limits that are set. -/
def RiskConfig.Allows (config : RiskConfig) (value portfolioValue : ℚ) : Prop :=
  (∀ limit, config.maxPositionSize = some limit → value ≤ limit) ∧ value ≤ config.positionSizeLimitPct * portfolioValue

/-- An accepted order that does not reduce the position leaves it within the limits, and what a check adjusts an order to
is on its side and passes the check. -/
structure RiskConfig.Binds (config : RiskConfig) (p : Portfolio) (order : SizedOrder) : Prop where
  position : ∀ o, config.compute p order = some o →
    |p.quantity o.symbol| ≤ |(config.next p order).quantity o.symbol| →
    config.Allows |(config.next p order).quantity o.symbol * o.price| p.totalValue
  adjusted : ∀ ok violation q, config.validatePositionSize order.symbol order.quantity order.price p.totalValue =
    (ok, violation, q) → q ≠ 0 →
    0 < q * order.quantity ∧ (config.validatePositionSize order.symbol q order.price p.totalValue).1 = true

/-- The limits are not negative, an order that is allowed is allowed on top of a position on its side, and a cut to
`maxPositionSize` is within the percentage. -/
structure RiskConfig.Sound (config : RiskConfig) (p : Portfolio) (order : SizedOrder) : Prop where
  absolute : ∀ limit, config.maxPositionSize = some limit → 0 < limit
  relative : 0 ≤ config.positionSizeLimitPct
  added : config.Allows |order.quantity * order.price| p.totalValue → 0 ≤ p.quantity order.symbol * order.quantity →
    config.Allows ((|p.quantity order.symbol| + |order.quantity|) * order.price) p.totalValue
  cut : config.enableDynamicSizing = true → ∀ limit, config.maxPositionSize = some limit →
    limit < |order.quantity * order.price| → limit ≤ config.positionSizeLimitPct * p.totalValue

section Risk

variable {config : RiskConfig} {p : Portfolio} {order : SizedOrder} {price value : ℚ}

lemma RiskConfig.validate_eq_true_iff (hl : ∀ limit, config.maxPositionSize = some limit → 0 < limit)
    (hv : 0 < value) (symbol : String) (q : ℚ) :
    (config.validatePositionSize symbol q price value).1 ↔ config.Allows |q * price| value := by
  have hmax : (config.maxPositionSize.getD 0 ≠ 0 ∧ config.maxPositionSize.getD 0 < |q * price|) ↔
      ¬ ∀ limit, config.maxPositionSize = some limit → |q * price| ≤ limit := by
    cases hm : config.maxPositionSize with
    | none => simp
    | some limit => simp [(hl limit hm).ne']
  unfold RiskConfig.validatePositionSize RiskConfig.Allows
  simp only [hmax, hv, true_and, lt_div_iff₀ hv]
  split_ifs with h1 h2
  · exact iff_of_false (by simp) fun h => h2.not_ge h.2
  · exact iff_of_true rfl ⟨h1, not_lt.mp h2⟩
  · exact iff_of_false (by simp) fun h => h1 h.1

lemma resized_spec {q v : ℚ} (hprice : 0 < price) (hv : 0 < v) (hq : q ≠ 0) :
    0 < resized v price q * q ∧ |resized v price q * price| = v := by
  have hc : v / price * price = v := div_mul_cancel₀ v hprice.ne'
  unfold resized
  rcases lt_or_gt_of_ne hq with hneg | hpos
  · rw [if_neg hneg.not_gt, mul_neg_one, neg_mul, neg_mul, hc, abs_neg, abs_of_pos hv]
    exact ⟨neg_pos.mpr (mul_neg_of_pos_of_neg (div_pos hv hprice) hneg), rfl⟩
  · rw [if_pos hpos, mul_one, hc, abs_of_pos hv]
    exact ⟨mul_pos (div_pos hv hprice) hpos, rfl⟩

lemma RiskConfig.Allows.mono {v w : ℚ} (h : config.Allows w value) (hle : v ≤ w) : config.Allows v value :=
  ⟨fun limit hl => hle.trans (h.1 limit hl), hle.trans h.2⟩

lemma compute_eq_some {o : SizedOrder} (h : config.compute p order = some o) : o = order ∧
    (config.validatePositionSize order.symbol order.quantity order.price p.totalValue).1 := by
  have hs : (config.validatePositionSize order.symbol order.quantity order.price p.totalValue).1 →
      (config.validatePositionSize order.symbol order.quantity order.price p.totalValue).2.2 = order.quantity := by
    unfold RiskConfig.validatePositionSize
    simp only
    split_ifs <;> simp
  unfold RiskConfig.compute at h
  simp only at h
  split_ifs at h with hok hadj
  · exact absurd (hs hok) hadj.2
  · exact ⟨(Option.some.inj h).symm, hok⟩

lemma abs_add_le_of_against {q f : ℚ} (hside : q * f < 0) (hle : |q| ≤ |q + f|) : |q + f| ≤ |f| := by
  rcases mul_neg_iff.mp hside with ⟨hq, hf⟩ | ⟨hq, hf⟩ <;>
    rcases abs_cases q with h1 | h1 <;> rcases abs_cases f with h2 | h2 <;> rcases abs_cases (q + f) with h3 | h3 <;>
    linarith

/-- Where nothing is held, what an order adds is the order itself. -/
theorem RiskConfig.Sound.of_flat (hflat : p.quantity order.symbol = 0) (hprice : 0 ≤ order.price)
    (absolute : ∀ limit, config.maxPositionSize = some limit → 0 < limit) (relative : 0 ≤ config.positionSizeLimitPct)
    (cut : config.enableDynamicSizing = true → ∀ limit, config.maxPositionSize = some limit →
      limit < |order.quantity * order.price| → limit ≤ config.positionSizeLimitPct * p.totalValue) :
    config.Sound p order := by
  refine ⟨absolute, relative, fun h _ => ?_, cut⟩
  rwa [hflat, abs_zero, zero_add, ← abs_of_nonneg hprice, ← abs_mul]

lemma RiskConfig.Sound.binds (h : config.Sound p order) (hprice : 0 < order.price) (hvl : 0 < p.totalValue) :
    config.Binds p order := by
  have hiff := fun q => @RiskConfig.validate_eq_true_iff config order.price _ h.absolute hvl order.symbol q
  constructor
  · intro o ho
    obtain ⟨rfl, hok⟩ := compute_eq_some ho
    have hal := (hiff o.quantity).mp hok
    rw [RiskConfig.next, ho, Option.elim_some, quantity_applyFill, if_pos rfl]
    intro hle
    by_cases hside : 0 ≤ p.quantity o.symbol * o.quantity
    · refine (h.added hal hside).mono ?_
      rw [abs_mul, abs_of_pos hprice]
      exact mul_le_mul_of_nonneg_right (abs_add_le _ _) hprice.le
    · refine hal.mono ?_
      rw [abs_mul, abs_mul, abs_of_pos hprice]
      exact mul_le_mul_of_nonneg_right (abs_add_le_of_against (not_le.mp hside) hle) hprice.le
  · intro ok violation q han hq
    rw [hiff]
    have hz : ∀ v, 0 ≤ v → v < |order.quantity * order.price| → order.quantity ≠ 0 := by
      rintro v hv hlt hz
      rw [hz, zero_mul, abs_zero] at hlt
      exact hlt.not_ge hv
    unfold RiskConfig.validatePositionSize at han
    simp only at han
    split_ifs at han with habs hdyn hrel hdyn <;> cases han
    · cases hm : config.maxPositionSize with
      | none => simp [hm] at habs
      | some limit =>
        simp only [hm, Option.getD_some] at habs ⊢
        have hpos := h.absolute limit hm
        obtain ⟨hside, hw⟩ := resized_spec hprice hpos (hz limit hpos.le habs.2)
        refine ⟨hside, ?_⟩
        rw [hw]
        exact ⟨fun l hl => by rw [hm] at hl; exact (Option.some.inj hl).le, h.cut hdyn limit hm habs.2⟩
    · exact absurd rfl hq
    · have hmax : 0 < p.totalValue * config.positionSizeLimitPct := by
        refine mul_pos hvl (lt_of_le_of_ne h.relative fun hz => hq ?_)
        rw [resized, ← hz, mul_zero, zero_div, zero_mul]
      have hb : p.totalValue * config.positionSizeLimitPct < |order.quantity * order.price| := by
        rw [mul_comm]
        exact (lt_div_iff₀ hvl).mp hrel.2
      obtain ⟨hside, hw⟩ := resized_spec hprice hmax (hz _ hmax.le hb)
      refine ⟨hside, ?_⟩
      rw [hw]
      refine ⟨fun limit hl => ?_, (mul_comm _ _).le⟩
      rw [hl, Option.getD_some, not_and] at habs
      exact hb.le.trans (not_lt.mp (habs (h.absolute limit hl).ne'))
    · exact absurd rfl hq
    · refine ⟨mul_self_pos.mpr hq, (hiff _).mp ?_⟩
      unfold RiskConfig.validatePositionSize
      rw [if_neg habs, if_neg hrel]

end Risk

/-- **Position limits bind over runs** of sound orders. -/
theorem limits_bind (config : RiskConfig) (p : Portfolio) (orders : List SizedOrder)
    (h : ∀ before o, before ++ [o] <+: orders → 0 < o.price ∧ 0 < (before.foldl config.next p).totalValue ∧
      config.Sound (before.foldl config.next p) o) :
    ∀ before o, before ++ [o] <+: orders → config.Binds (before.foldl config.next p) o := by
  intro before o hinit
  obtain ⟨hprice, hvalue, hsound⟩ := h before o hinit
  exact hsound.binds hprice hvalue

def limited : RiskConfig := ⟨some 1000, 1 / 2, true⟩

def buy (quantity : ℚ) : SizedOrder := ⟨none, "BTC", 100, quantity⟩

theorem limits_bind_once : limited.Binds ⟨10000, Dict.empty⟩ (buy 5) := by
  refine limits_bind limited ⟨10000, .empty⟩ [buy 5] ?_ [] (buy 5) (List.prefix_refl _)
  intro before o hinit
  obtain ⟨rfl, rfl⟩ : before = [] ∧ o = buy 5 := by
    cases before with
    | nil => exact ⟨rfl, by simpa using hinit⟩
    | cons b before => simpa using hinit.length_le
  refine ⟨by decide +kernel, by decide +kernel, ⟨?_, by decide +kernel, ?_, ?_⟩⟩
  · rintro limit hl
    cases hl
    decide +kernel
  · refine fun _ _ => ⟨?_, by decide +kernel⟩
    rintro limit hl
    cases hl
    decide +kernel
  · rintro - limit hl hlt
    cases hl
    exact absurd hlt (by decide +kernel)

/-- Two orders within the limit make a position above it; and an order above the absolute limit is cut to it, which is
above the relative one. -/
theorem limit_exceeded : (limited.compute ⟨10000, Dict.empty⟩ (buy 8)).map SizedOrder.quantity = some 8 ∧
      (limited.compute (limited.next ⟨10000, Dict.empty⟩ (buy 8)) (buy 8)).map SizedOrder.quantity = some 8 ∧
      (limited.next (limited.next ⟨10000, Dict.empty⟩ (buy 8)) (buy 8)).quantity "BTC" * 100 = 1600 ∧
      (limited.validatePositionSize "BTC" 20 100 1500).2.2 = 10 ∧
      (limited.validatePositionSize "BTC" 10 100 1500).1 = false := by
  decide +kernel

end Qmtl.Runtime.Execution

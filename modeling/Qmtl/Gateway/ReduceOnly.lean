import Qmtl.Gateway.OrderConstruction
import Qmtl.WorldService.ScaledWorld

/-! The `reduce_only` flag of the orders of a world that is scaled as a whole. -/

namespace Qmtl.Gateway.OrderConstruction

open Lib WorldService Gateway.Rebalancing

def TowardZero (qty trade : ℚ) : Prop := |qty + trade| < |qty|

def SupportsReduceOnly (lower : Lower) (options : FullOptions) (venue : Option String) : Prop :=
  ∀ policy, lookupVenuePolicy lower options.toOrderOptions venue = some policy → policy.supportsReduceOnly = true

/-- When the flag says what the trade does: the option is on and the world is long, or it is off and the world is
scaled up. -/
def FlagFits (options : FullOptions) (net scale : ℚ) : Prop :=
  (options.reduceOnlyForNegative = true ∧ 0 < net) ∨ (options.reduceOnlyForNegative = false ∧ 1 < scale)

variable {lower : Lower} {options : FullOptions}

lemma reduceOnly_orderOf {d : SymbolDelta} {o : Order} (h : orderOf lower options d = some o)
    (hv : SupportsReduceOnly lower options d.venue) :
    o.reduceOnly ↔ options.reduceOnlyForNegative ∧ d.deltaQty < 0 := by
  obtain ⟨adjusted, -, -, rfl⟩ := orderOf_eq_some h
  have hs : ((lookupVenuePolicy lower options.toOrderOptions d.venue).map VenuePolicy.supportsReduceOnly).getD true =
      true := by
    cases hp : lookupVenuePolicy lower options.toOrderOptions d.venue with
    | none => rfl
    | some policy => exact hv policy hp
  show applyReduceOnlyFlag lower options.toOrderOptions (options.reduceOnlyForNegative && decide (d.deltaQty < 0)) d.venue =
    true ↔ _
  unfold applyReduceOnlyFlag
  rw [hs, Bool.and_true, Bool.and_eq_true, decide_eq_true_iff]

/-! ### What the trade does -/

lemma abs_quantity_lt {d : SymbolDelta} {o : Order} (h : orderOf lower options d = some o) :
    |o.quantity| < 2 * |d.deltaQty| := by
  have hfits := fits_of_orderOf h
  have hqty : 0 < |d.deltaQty| := abs_pos.mpr (deltaQty_ne_zero h)
  by_cases hnn : ∀ lot, (instrumentOf options d).constraint.lotSize = some lot → lot ≤ 0
  · rw [hfits.unrounded hnn]
    linarith
  · push Not at hnn
    obtain ⟨lot, hlot, hpos⟩ := hnn
    obtain ⟨⟨n, hn⟩, hw⟩ := hfits.rounded lot hlot hpos
    have hne : n ≠ 0 := by
      rintro rfl
      have hside := hfits.sameSide
      simp [hn] at hside
    -- an order has one lot at least
    have hone : (1 : ℚ) ≤ |(n : ℚ)| := by exact_mod_cast Int.one_le_abs hne
    have hl : lot ≤ |o.quantity| := by
      rw [hn, abs_mul, abs_of_pos hpos]
      exact le_mul_of_one_le_left hpos.le hone
    have hs : slack * lot ≤ 1 / 4 * |o.quantity| :=
      mul_le_mul (by norm_num [slack]) hl hpos.le (by norm_num)
    linarith

lemma towardZero_of_against {net trade : ℚ} (hside : trade * net < 0) (hle : |trade| < 2 * |net|) :
    TowardZero net trade := by
  have ht : 0 < |trade| := abs_pos.mpr fun hz => by simp [hz] at hside
  have hp : |trade| * |trade| < 2 * |net| * |trade| := mul_lt_mul_of_pos_right hle ht
  have habs : |trade| * |net| = -(trade * net) := by rw [← abs_mul, abs_of_neg hside]
  refine sq_lt_sq.mp ?_
  rw [abs_mul_abs_self] at hp
  nlinarith

lemma not_towardZero_of_along {net trade : ℚ} (hside : 0 < trade * net) : ¬ TowardZero net trade := by
  intro h
  have hsq := sq_lt_sq.mpr h
  nlinarith [sq_nonneg trade]

section

variable {positions : List PositionSlice} {before after minTradeNotional : ℚ} {strategyBefore strategyAfter : Ratios}
  {lots : Option Ratios} {plan : RebalancePlan}

lemma delta_scaled (hm : UniformMarks positions)
    (hplan : plan = planWorld before after strategyBefore strategyAfter positions minTradeNotional lots)
    (hs : plan.ScaleOnly) {d : SymbolDelta} (hd : d ∈ plan.deltas) :
    0 < d.deltaQty * ((plan.scaleWorld - 1) * netQty positions d.key) ∧
      |d.deltaQty| ≤ |(plan.scaleWorld - 1) * netQty positions d.key| := by
  obtain ⟨p, -, hdl⟩ := (mem_planWorld_iff hm hplan hs d).mp hd
  have hkey := key_scaledDelta hdl
  obtain ⟨-, hr, rfl⟩ := scaledDelta_eq_some.mp hdl
  have hw := abs_roundLot_le p.key.2 ((plan.scaleWorld - 1) * netQty positions p.key) lots
  have hraw : (plan.scaleWorld - 1) * netQty positions p.key ≠ 0 := by
    intro hz
    rw [hz, abs_zero] at hw
    exact hr (abs_eq_zero.mp (le_antisymm (hz ▸ hw) (abs_nonneg _)))
  exact ⟨lt_of_le_of_ne (roundLot_mul_nonneg _ _ _) (mul_ne_zero hr hraw).symm, hw⟩

/-- **Executing the order of a delta moves the world toward zero exactly when it is scaled down.** -/
theorem towardZero_iff (hm : UniformMarks positions)
    (hplan : plan = planWorld before after strategyBefore strategyAfter positions minTradeNotional lots)
    (hsc : plan.ScaleOnly) (hpos : 0 ≤ plan.scaleWorld) {d : SymbolDelta} (hd : d ∈ plan.deltas) {o : Order}
    (ho : orderOf lower options d = some o) :
    TowardZero (netQty positions d.key) o.quantity ↔ d.deltaQty * netQty positions d.key < 0 := by
  obtain ⟨hside, hw⟩ := delta_scaled hm hplan hsc hd
  have hs := (fits_of_orderOf ho).sameSide
  have hl := abs_quantity_lt ho
  generalize netQty positions d.key = net at hside hw ⊢
  generalize plan.scaleWorld = g at hpos hside hw
  have hp : o.quantity * d.deltaQty * (d.deltaQty * net) = d.deltaQty ^ 2 * (o.quantity * net) := by ring
  have hsq : 0 < d.deltaQty ^ 2 := pow_pos (abs_pos.mpr (deltaQty_ne_zero ho)) 2 |>.trans_eq (sq_abs _)
  constructor
  · intro ht
    by_contra hno
    have hne : d.deltaQty * net ≠ 0 := by
      intro hz
      rw [mul_left_comm, hz, mul_zero] at hside
      exact lt_irrefl 0 hside
    have hal : 0 < d.deltaQty * net := lt_of_le_of_ne (not_lt.mp hno) hne.symm
    exact not_towardZero_of_along ((mul_pos_iff_of_pos_left hsq).mp (hp ▸ mul_pos hs hal)) ht
  · intro hag
    have hdw : g < 1 := by
      rw [mul_left_comm] at hside
      linarith [neg_of_mul_pos_left hside hag.le]
    have hle : |d.deltaQty| ≤ |net| := by
      refine hw.trans ?_
      rw [abs_mul]
      exact mul_le_of_le_one_left (abs_nonneg _) (abs_le.mpr ⟨by linarith, by linarith⟩)
    have hneg : o.quantity * net < 0 := by
      by_contra hno
      have hp' := mul_neg_of_pos_of_neg hs hag
      rw [hp] at hp'
      exact absurd hp' (not_lt.mpr (mul_nonneg hsq.le (not_lt.mp hno)))
    exact towardZero_of_against hneg (hl.trans_le (by linarith))

/-- **The flag marks exactly the reductions where it fits**: the orders of a plan are those of its deltas, and for
each the flag says what the order does exactly when the option is on and the world is long there, or it is off and
the world is scaled up. -/
theorem reduceOnly_iff (hmarks : UniformMarks positions)
    (hplan : plan = planWorld before after strategyBefore strategyAfter positions minTradeNotional lots)
    (hscale : plan.ScaleOnly) (hpos : 0 ≤ plan.scaleWorld) {sink left : Sink} {orders : List Order}
    (hrun : ordersFromWorldPlan lower options plan sink = (.ok orders, left)) :
    orders = plan.deltas.filterMap (orderOf lower options) ∧
      ∀ d ∈ plan.deltas, ∀ o, orderOf lower options d = some o → SupportsReduceOnly lower options d.venue →
        ((o.reduceOnly = true ↔ TowardZero (netQty positions d.key) o.quantity) ↔
          FlagFits options (netQty positions d.key) plan.scaleWorld) := by
  constructor
  · cases hraise : options.raiseOnViolation with
    | false => exact (Except.ok.inj (Prod.mk.inj (hrun.symm.trans ((built_ordersFrom plan.deltas sink).1 hraise))).1)
    | true =>
      cases hfirst : plan.deltas.findSome? (violationOf lower options) with
      | some violation =>
        have herror := hrun.symm.trans (((built_ordersFrom plan.deltas sink).2 hraise).1 violation hfirst)
        cases (Prod.mk.inj herror).1
      | none => exact Except.ok.inj (Prod.mk.inj (hrun.symm.trans (((built_ordersFrom plan.deltas sink).2 hraise).2 hfirst))).1
  · intro d hd o ho hvenue
    obtain ⟨hside, -⟩ := delta_scaled hmarks hplan hscale hd
    rw [reduceOnly_orderOf ho hvenue, towardZero_iff hmarks hplan hscale hpos hd ho, FlagFits]
    generalize netQty positions d.key = net at hside ⊢
    generalize plan.scaleWorld = g at hside
    have hnet : net ≠ 0 := fun hzero => by simp [hzero] at hside
    have hqty := deltaQty_ne_zero ho
    rw [mul_left_comm] at hside
    cases options.reduceOnlyForNegative with
    | true =>
      simp only [true_and, Bool.true_eq_false, false_and, or_false]
      rcases lt_or_gt_of_ne hnet with hshort | hlong
      · -- the world is short: a sale moves it away
        refine iff_of_false (fun h => ?_) (not_lt.mpr hshort.le)
        rcases lt_or_gt_of_ne hqty with hsale | hbuy
        · exact absurd (h.mp hsale) (not_lt.mpr (mul_pos_of_neg_of_neg hsale hshort).le)
        · exact absurd (h.mpr (mul_neg_of_pos_of_neg hbuy hshort)) (not_lt.mpr hbuy.le)
      · refine iff_of_true ⟨fun hsale => mul_neg_of_neg_of_pos hsale hlong, fun hagainst => ?_⟩ hlong
        exact lt_of_not_ge fun hbuy => absurd hagainst (not_lt.mpr (mul_nonneg hbuy hlong.le))
    | false =>
      simp only [Bool.false_eq_true, false_and, false_iff, true_and, false_or]
      rw [← neg_iff_neg_of_mul_pos hside, not_lt, sub_nonneg]
      refine ⟨fun hle => lt_of_le_of_ne hle fun hone => ?_, le_of_lt⟩
      rw [← hone, sub_self, zero_mul] at hside
      exact lt_irrefl 0 hside

end

/-! ### A short that is cut -/

def holding (qty : ℚ) : List PositionSlice := [⟨"w", "s", "BTC", qty, 100, none⟩]

def defaults : FullOptions where
  timeInForce := "GTC"
  hedgeMode := none
  reduceOnlyForNegative := true
  lotSizeBySymbol := Dict.empty
  minTradeNotional := none
  marksBySymbol := Dict.empty
  venuePolicies := Dict.empty
  instrumentConstraints := none
  marksByBareSymbol := Dict.empty
  raiseOnViolation := false

def scaledTo (after : ℚ) (positions : List PositionSlice) : RebalancePlan :=
  planWorld (1 / 2) after Dict.empty Dict.empty positions 0 none

lemma scaleOnly_scaledTo (after : ℚ) (positions : List PositionSlice) : (scaledTo after positions).ScaleOnly := by
  intro sid s hs
  cases hs

lemma uniformMarks_holding (qty : ℚ) : UniformMarks (holding qty) := by
  refine ⟨fun p hp => ?_, fun p hp q hq _ => ?_⟩
  · obtain rfl := List.mem_singleton.mp hp
    norm_num
  · rw [List.mem_singleton.mp hp, List.mem_singleton.mp hq]

lemma supports_defaults (venue : Option String) : SupportsReduceOnly Lower.ascii defaults venue := by
  intro policy hp
  cases hp

/-- Half of a long is sold, and the order says so. -/
theorem reduceOnly_iff_long : ∃ o, orderOf Lower.ascii defaults ⟨"BTC", -2, none⟩ = some o ∧
    (o.reduceOnly = true ↔ TowardZero (netQty (holding 4) (none, "BTC")) o.quantity) := by
  have horder : orderOf Lower.ascii defaults ⟨"BTC", -2, none⟩ = some ⟨"BTC", -2, "sell", "GTC", none, true, none⟩ := by
    decide +kernel
  have hdelta : (⟨"BTC", -2, none⟩ : SymbolDelta) ∈ (scaledTo (1 / 4) (holding 4)).deltas := by decide +kernel
  have hpos : 0 ≤ (scaledTo (1 / 4) (holding 4)).scaleWorld := by decide +kernel
  have hlong : 0 < netQty (holding 4) (none, "BTC") := by decide +kernel
  have hrun : ordersFromWorldPlan Lower.ascii defaults (scaledTo (1 / 4) (holding 4)) none =
      (.ok ((scaledTo (1 / 4) (holding 4)).deltas.filterMap (orderOf Lower.ascii defaults)), none) :=
    (built_ordersFrom _ none).1 rfl
  exact ⟨_, horder, ((reduceOnly_iff (uniformMarks_holding 4) rfl (scaleOnly_scaledTo _ _) hpos hrun).2 _ hdelta _ horder
    (supports_defaults _)).mpr (.inl ⟨rfl, hlong⟩)⟩

def FlagExact (lower : Lower) (options : FullOptions) (positions : List PositionSlice) (plan : RebalancePlan) : Prop :=
  ∀ d ∈ plan.deltas, ∀ o, orderOf lower options d = some o → SupportsReduceOnly lower options d.venue →
    (o.reduceOnly = true ↔ TowardZero (netQty positions d.key) o.quantity)

/-- A short is cut by a purchase that is not marked, and more of it is sold under the mark of a reduction. -/
theorem short_is_marked_wrongly :
    ¬ FlagExact Lower.ascii defaults (holding (-4)) (scaledTo (1 / 4) (holding (-4))) ∧
      ¬ FlagExact Lower.ascii defaults (holding (-4)) (scaledTo 1 (holding (-4))) := by
  constructor
  · intro h
    have hdelta : (⟨"BTC", 2, none⟩ : SymbolDelta) ∈ (scaledTo (1 / 4) (holding (-4))).deltas := by decide +kernel
    have horder : orderOf Lower.ascii defaults ⟨"BTC", 2, none⟩ = some ⟨"BTC", 2, "buy", "GTC", none, false, none⟩ := by
      decide +kernel
    have htoward : TowardZero (netQty (holding (-4)) (none, "BTC")) 2 := by
      unfold TowardZero
      decide +kernel
    exact absurd ((h _ hdelta _ horder (supports_defaults _)).mpr htoward) Bool.false_ne_true
  · intro h
    have hdelta : (⟨"BTC", -4, none⟩ : SymbolDelta) ∈ (scaledTo 1 (holding (-4))).deltas := by decide +kernel
    have horder : orderOf Lower.ascii defaults ⟨"BTC", -4, none⟩ = some ⟨"BTC", -4, "sell", "GTC", none, true, none⟩ := by
      decide +kernel
    have haway : ¬ TowardZero (netQty (holding (-4)) (none, "BTC")) (-4) := by
      unfold TowardZero
      decide +kernel
    exact haway ((h _ hdelta _ horder (supports_defaults _)).mp rfl)

end Qmtl.Gateway.OrderConstruction

import Mathlib.Algebra.Order.Floor.Ring
import Qmtl.Gateway.RebalancingOrders

/-! The order builder of `rebalancing_executor` with all that it reads and returns: marks that are keyed by a symbol
alone, and the violations, which are kept in a sink and may be raised. -/

namespace Qmtl.Gateway.OrderConstruction

open Lib WorldService Gateway.Rebalancing

/-! ### Options and violations -/

inductive MarkKey where
  | pair (key : Venue)
  | bare (symbol : String)
deriving DecidableEq

structure FullOptions extends OrderOptions where
  marksByBareSymbol : Dict String ℚ
  raiseOnViolation : Bool

/-- The details of a violation. -/
inductive Details where
  | lotSize (requestedQty lotSize : ℚ)
  | missingMark (minNotional : ℚ) (markSource : Option MarkKey)
  | minNotional (minNotional mark quantity : ℚ)
deriving DecidableEq

structure Violation extends ConstraintViolation where
  details : Details
deriving DecidableEq

/-- `constraint_violation_sink`, where one is given. -/
abbrev Sink := Option (List Violation)

abbrev Outcome (α : Type) := Except Violation α × Sink

section

variable (lower : Lower) (options : FullOptions)

def handleViolation {α : Type} (violation : Violation) (sink : Sink) : Outcome (Option α) :=
  (if options.raiseOnViolation then .error violation else .ok none, sink.map (· ++ [violation]))

def FullOptions.markAt : MarkKey → Option ℚ
  | .pair key => options.marksBySymbol.get? key
  | .bare symbol => options.marksByBareSymbol.get? symbol

def markCandidates (resolved : ResolvedInstrument) : List MarkKey :=
  let atVenue :=
    match resolved.venue with
    | none => []
    | some venue =>
      [.pair (some venue, resolved.symbol), .pair (some venue, resolved.inputSymbol)] ++
        if lower.fn venue = venue then []
        else [.pair (some (lower.fn venue), resolved.symbol), .pair (some (lower.fn venue), resolved.inputSymbol)]
  atVenue ++ [.pair (none, resolved.symbol), .pair (none, resolved.inputSymbol), .bare resolved.symbol] ++
    if resolved.inputSymbol ≠ resolved.symbol then [.bare resolved.inputSymbol] else []

def lookupMark (resolved : ResolvedInstrument) : Option (ℚ × MarkKey) :=
  (markCandidates lower resolved).findSome? fun key => (options.markAt key).map fun mark => (mark, key)

def evaluateNotional (qty : ℚ) (resolved : ResolvedInstrument) (mark : Option (ℚ × MarkKey)) : Option Violation :=
  match resolved.constraint.minNotional with
  | none => none
  | some least =>
    if qty = 0 ∨ least ≤ 0 then none
    else
      match mark.filter fun m => 0 < m.1 with
      | none => some ⟨⟨resolved.venue, resolved.symbol, "missing-mark"⟩, .missingMark least (mark.map Prod.snd)⟩
      | some (mark, _) =>
        if |qty| * mark + slack < least then
          some ⟨⟨resolved.venue, resolved.symbol, "min-notional"⟩, .minNotional least mark qty⟩
        else none

def checkConstraints (symbol : String) (qty : ℚ) (venue : Option String) : Except Violation ℚ :=
  let resolved := resolveInstrument options.toOrderOptions symbol venue
  let (rounded, steps) := roundToLot qty resolved.constraint.lotSize
  match resolved.constraint.lotSize.filter fun lot => qty ≠ 0 ∧ 0 < lot ∧ steps = 0 with
  | some lot => .error ⟨⟨resolved.venue, resolved.symbol, "lot-size"⟩, .lotSize qty lot⟩
  | none =>
    match evaluateNotional rounded resolved (lookupMark lower options resolved) with
    | some violation => .error violation
    | none => .ok rounded

def applyConstraints (symbol : String) (qty : ℚ) (venue : Option String) (sink : Sink) : Outcome (Option ℚ) :=
  match checkConstraints lower options symbol qty venue with
  | .error violation => handleViolation options violation sink
  | .ok adjusted => (.ok (some adjusted), sink)

def payload (symbol : String) (adjusted : ℚ) (reduceOnly : Bool) (tif : String) (venue : Option String) : Order :=
  let effective := applyReduceOnlyFlag lower options.toOrderOptions reduceOnly venue
  { symbol := (resolveInstrument options.toOrderOptions symbol venue).symbol
    quantity := adjusted
    side := if 0 ≤ adjusted then "buy" else "sell"
    timeInForce := resolveTimeInForce lower options.toOrderOptions tif effective venue
    venue := venue
    reduceOnly := effective
    hedgeMode := options.hedgeMode }

def buildOrder (symbol : String) (qty : ℚ) (reduceOnly : Bool) (tif : String) (venue : Option String) (sink : Sink) :
    Outcome (Option Order) :=
  match applyConstraints lower options symbol qty venue sink with
  | (.error violation, sink) => (.error violation, sink)
  | (.ok none, sink) => (.ok none, sink)
  | (.ok (some adjusted), sink) =>
    (.ok (if adjusted = 0 then none else some (payload lower options symbol adjusted reduceOnly tif venue)), sink)

def ordersFrom : List SymbolDelta → List Order → Sink → Outcome (List Order)
  | [], orders, sink => (.ok orders, sink)
  | d :: deltas, orders, sink =>
    let reduceOnly := options.reduceOnlyForNegative && decide (d.deltaQty < 0)
    match buildOrder lower options d.symbol d.deltaQty reduceOnly options.timeInForce d.venue sink with
    | (.error violation, sink) => (.error violation, sink)
    | (.ok order, sink) => ordersFrom deltas (orders ++ order.toList) sink

def ordersFromSymbolDeltas (deltas : List SymbolDelta) (sink : Sink) : Outcome (List Order) :=
  ordersFrom lower options deltas [] sink

def ordersFromWorldPlan (plan : RebalancePlan) (sink : Sink) : Outcome (List Order) :=
  ordersFrom lower options plan.deltas [] sink

def ordersFromStrategyDeltas (deltas : List ExecutionDelta) (sink : Sink) : Outcome (List Order) :=
  ordersFrom lower options (deltas.map fun d => ⟨d.symbol, d.deltaQty, d.venue⟩) [] sink

def violationOf (d : SymbolDelta) : Option Violation :=
  match checkConstraints lower options d.symbol d.deltaQty d.venue with
  | .error violation => some violation
  | .ok _ => none

def orderOf (d : SymbolDelta) : Option Order :=
  match checkConstraints lower options d.symbol d.deltaQty d.venue with
  | .error _ => none
  | .ok adjusted =>
    if adjusted = 0 then none
    else some (payload lower options d.symbol adjusted (options.reduceOnlyForNegative && decide (d.deltaQty < 0))
      options.timeInForce d.venue)

end

variable {lower : Lower} {options : FullOptions}

lemma lookupMark_plain (h : options.marksByBareSymbol = .empty) (r : ResolvedInstrument) :
    (lookupMark lower options r).map Prod.fst = Rebalancing.lookupMark lower options.toOrderOptions r := by
  have hbare : ∀ symbol, options.markAt (.bare symbol) = none := by
    intro symbol
    rw [FullOptions.markAt, h]
    rfl
  have hpair : ∀ key, options.markAt (.pair key) = options.marksBySymbol.get? key := fun _ => rfl
  unfold lookupMark markCandidates Rebalancing.lookupMark
  rw [List.map_findSome?]
  cases r.venue with
  | none => split_ifs <;> simp [Function.comp_def, List.findSome?_cons, hbare, hpair]
  | some v =>
    by_cases hv : lower.fn v = v <;> split_ifs <;> simp [Function.comp_def, List.findSome?_cons, hbare, hpair, hv]

lemma checkConstraints_plain (h : options.marksByBareSymbol = .empty) (symbol : String) (qty : ℚ)
    (venue : Option String) : (checkConstraints lower options symbol qty venue).toOption =
      (Rebalancing.applyConstraints lower options.toOrderOptions symbol qty venue).toOption := by
  unfold checkConstraints Rebalancing.applyConstraints evaluateNotional Rebalancing.evaluateNotional
  simp only [← lookupMark_plain h]
  generalize resolveInstrument options.toOrderOptions symbol venue = r
  generalize roundToLot qty r.constraint.lotSize = rounded
  generalize lookupMark lower options r = mark
  obtain ⟨q, steps⟩ := rounded
  rcases r.constraint.lotSize with _ | lot <;> rcases r.constraint.minNotional with _ | least <;>
    rcases mark with _ | ⟨mark, key⟩ <;> simp [Option.filter] <;> grind [Except.toOption]

/-- Where no mark is of a bare symbol, an order is the one `Rebalancing.orderOf` builds. -/
theorem orderOf_plain (h : options.marksByBareSymbol = .empty) (d : SymbolDelta) :
    orderOf lower options d = Rebalancing.orderOf lower options.toOrderOptions d.symbol d.deltaQty d.venue := by
  have hc := @checkConstraints_plain lower options h d.symbol d.deltaQty d.venue
  unfold orderOf Rebalancing.orderOf Rebalancing.buildOrder
  generalize checkConstraints lower options d.symbol d.deltaQty d.venue = full at hc
  generalize Rebalancing.applyConstraints lower options.toOrderOptions d.symbol d.deltaQty d.venue = plain at hc
  rcases full with _ | adjusted <;> rcases plain with _ | adjusted' <;> cases hc <;> rfl

lemma buildOrder_eq (d : SymbolDelta) (sink : Sink) :
    buildOrder lower options d.symbol d.deltaQty (options.reduceOnlyForNegative && decide (d.deltaQty < 0))
        options.timeInForce d.venue sink =
      match violationOf lower options d with
      | some violation => handleViolation options violation sink
      | none => (.ok (orderOf lower options d), sink) := by
  unfold buildOrder applyConstraints violationOf orderOf
  cases checkConstraints lower options d.symbol d.deltaQty d.venue with
  | error violation =>
    unfold handleViolation
    cases options.raiseOnViolation <;> rfl
  | ok adjusted => rfl

lemma ordersFrom_lenient (hr : options.raiseOnViolation = false) (deltas : List SymbolDelta) (orders : List Order)
    (sink : Sink) : ordersFrom lower options deltas orders sink =
      (.ok (orders ++ deltas.filterMap (orderOf lower options)),
        sink.map (· ++ deltas.filterMap (violationOf lower options))) := by
  induction deltas generalizing orders sink with
  | nil => cases sink <;> simp [ordersFrom]
  | cons d deltas ih =>
    unfold ordersFrom
    dsimp only
    rw [buildOrder_eq]
    cases hv : violationOf lower options d with
    | some violation =>
      have hn : orderOf lower options d = none := by
        unfold violationOf at hv
        unfold orderOf
        cases hc : checkConstraints lower options d.symbol d.deltaQty d.venue with
        | error _ => rfl
        | ok _ => rw [hc] at hv; cases hv
      simp only [handleViolation, hr, Bool.false_eq_true, if_false, ih, Option.toList_none, List.append_nil,
        List.filterMap_cons_none hn, List.filterMap_cons_some hv]
      cases sink <;> simp
    | none =>
      rw [List.filterMap_cons_none hv]
      refine (ih _ _).trans ?_
      cases hor : orderOf lower options d with
      | none => rw [List.filterMap_cons_none hor, Option.toList_none, List.append_nil]
      | some order => rw [List.filterMap_cons_some hor, Option.toList_some, List.append_assoc, List.singleton_append]

lemma ordersFrom_strict (hr : options.raiseOnViolation) (deltas : List SymbolDelta) (orders : List Order)
    (sink : Sink) : ordersFrom lower options deltas orders sink =
      match deltas.findSome? (violationOf lower options) with
      | some violation => (.error violation, sink.map (· ++ [violation]))
      | none => (.ok (orders ++ deltas.filterMap (orderOf lower options)), sink) := by
  induction deltas generalizing orders sink with
  | nil => simp [ordersFrom]
  | cons d deltas ih =>
    unfold ordersFrom
    dsimp only
    rw [buildOrder_eq, List.findSome?_cons]
    cases hv : violationOf lower options d with
    | some violation => simp only [handleViolation, hr, if_true]
    | none =>
      refine (ih _ _).trans ?_
      cases hor : orderOf lower options d with
      | none => rw [List.filterMap_cons_none hor, Option.toList_none, List.append_nil]
      | some order => rw [List.filterMap_cons_some hor, Option.toList_some, List.append_assoc, List.singleton_append]

/-! ### What is ordered -/

def instrumentOf (options : FullOptions) (d : SymbolDelta) : ResolvedInstrument :=
  resolveInstrument options.toOrderOptions d.symbol d.venue

structure Fits (lower : Lower) (options : FullOptions) (d : SymbolDelta) (o : Order) : Prop where
  sameSide : 0 < o.quantity * d.deltaQty
  unrounded : (∀ lot, (instrumentOf options d).constraint.lotSize = some lot → lot ≤ 0) → o.quantity = d.deltaQty
  rounded : ∀ lot, (instrumentOf options d).constraint.lotSize = some lot → 0 < lot →
    (∃ n : ℤ, o.quantity = n * lot) ∧ |o.quantity| ≤ |d.deltaQty| + slack * lot
  reaches : ∀ least, (instrumentOf options d).constraint.minNotional = some least → 0 < least →
    ∃ mark key, lookupMark lower options (instrumentOf options d) = some (mark, key) ∧ 0 < mark ∧
      least ≤ |o.quantity| * mark + slack

variable {d : SymbolDelta} {o : Order} {qty : ℚ}

lemma roundToLot_some {lot : ℚ} (hqty : qty ≠ 0) (hlot : 0 < lot) (hs : (roundToLot qty (some lot)).2 ≠ 0) :
    0 < (roundToLot qty (some lot)).1 * qty ∧ (∃ n : ℤ, (roundToLot qty (some lot)).1 = n * lot) ∧
      |(roundToLot qty (some lot)).1| ≤ |qty| + slack * lot := by
  have hr : roundToLot qty (some lot) =
      (if qty < 0 then -(⌊|qty| / lot + slack⌋ * lot) else ⌊|qty| / lot + slack⌋ * lot, ⌊|qty| / lot + slack⌋) := by
    unfold roundToLot
    rw [if_neg hqty]
    exact if_neg (not_le.mpr hlot)
  rw [hr] at hs ⊢
  have hsl : 0 ≤ slack := by norm_num [slack]
  have hn : 0 ≤ |qty| / lot + slack := add_nonneg (div_nonneg (abs_nonneg _) hlot.le) hsl
  have hle : (⌊|qty| / lot + slack⌋ : ℚ) ≤ |qty| / lot + slack := Int.floor_le _
  have hpos : (0 : ℚ) < ⌊|qty| / lot + slack⌋ := by
    exact_mod_cast lt_of_le_of_ne (Int.floor_nonneg.mpr hn) (Ne.symm hs)
  generalize ⌊|qty| / lot + slack⌋ = steps at hle hpos ⊢
  have hl : 0 < steps * lot := mul_pos hpos hlot
  have hb : steps * lot ≤ |qty| + slack * lot := by
    calc steps * lot ≤ (|qty| / lot + slack) * lot := mul_le_mul_of_nonneg_right hle hlot.le
      _ = |qty| + slack * lot := by rw [add_mul, div_mul_cancel₀ _ hlot.ne']
  split
  · rename_i hneg
    refine ⟨mul_pos_of_neg_of_neg (neg_neg_of_pos hl) hneg, ⟨-steps, by rw [Int.cast_neg, neg_mul]⟩, ?_⟩
    rwa [abs_neg, abs_of_pos hl]
  · rename_i hneg
    refine ⟨mul_pos hl (lt_of_le_of_ne (not_lt.mp hneg) hqty.symm), ⟨steps, rfl⟩, ?_⟩
    rwa [abs_of_pos hl]

lemma roundToLot_unrounded {lotSize : Option ℚ} (h : ∀ lot, lotSize = some lot → lot ≤ 0) :
    (roundToLot qty lotSize).1 = qty := by
  unfold roundToLot
  split
  · rename_i hqty
    exact hqty.symm
  · cases lotSize with
    | none => rfl
    | some lot => exact congrArg Prod.fst (if_pos (h lot rfl))

lemma evaluateNotional_eq_none {resolved : ResolvedInstrument} {found : Option (ℚ × MarkKey)}
    (h : evaluateNotional qty resolved found = none) (hqty : qty ≠ 0) {least : ℚ}
    (hl : resolved.constraint.minNotional = some least) (hpos : 0 < least) :
    ∃ mark key, found = some (mark, key) ∧ 0 < mark ∧ least ≤ |qty| * mark + slack := by
  unfold evaluateNotional at h
  rw [hl] at h
  dsimp only at h
  rw [if_neg (not_or.mpr ⟨hqty, not_le.mpr hpos⟩)] at h
  cases hf : found.filter fun m => 0 < m.1 with
  | none => rw [hf] at h; cases h
  | some m =>
    obtain ⟨mark, key⟩ := m
    obtain ⟨hs, hm⟩ := Option.filter_eq_some_iff.mp hf
    rw [hf] at h
    dsimp only at h
    split at h
    · cases h
    · rename_i hr
      exact ⟨mark, key, hs, of_decide_eq_true hm, not_lt.mp hr⟩

lemma checkConstraints_ok {symbol : String} {adjusted : ℚ} {venue : Option String}
    (h : checkConstraints lower options symbol qty venue = .ok adjusted) :
    adjusted = (roundToLot qty (resolveInstrument options.toOrderOptions symbol venue).constraint.lotSize).1 ∧
      (∀ lot, (resolveInstrument options.toOrderOptions symbol venue).constraint.lotSize = some lot → qty ≠ 0 → 0 < lot →
        (roundToLot qty (some lot)).2 ≠ 0) ∧
      evaluateNotional adjusted (resolveInstrument options.toOrderOptions symbol venue)
        (lookupMark lower options (resolveInstrument options.toOrderOptions symbol venue)) = none := by
  unfold checkConstraints at h
  dsimp only at h
  generalize resolveInstrument options.toOrderOptions symbol venue = resolved at h ⊢
  cases hlot : resolved.constraint.lotSize.filter fun lot =>
      qty ≠ 0 ∧ 0 < lot ∧ (roundToLot qty resolved.constraint.lotSize).2 = 0 with
  | some lot => rw [hlot] at h; cases h
  | none =>
    rw [hlot] at h
    cases hn : evaluateNotional (roundToLot qty resolved.constraint.lotSize).1 resolved
        (lookupMark lower options resolved) with
    | some violation => rw [hn] at h; cases h
    | none =>
      rw [hn] at h
      cases h
      refine ⟨rfl, fun lot hsz hqty hpos hs => ?_, hn⟩
      rw [hsz, Option.filter_eq_none_iff] at hlot
      exact hlot lot rfl (decide_eq_true ⟨hqty, hpos, hs⟩)

lemma adjusted_side {adjusted : ℚ} (h : checkConstraints lower options d.symbol d.deltaQty d.venue = .ok adjusted)
    (hqty : d.deltaQty ≠ 0) : 0 < adjusted * d.deltaQty := by
  obtain ⟨hadj, hs, -⟩ := checkConstraints_ok h
  rw [hadj]
  by_cases hn : ∀ lot, (instrumentOf options d).constraint.lotSize = some lot → lot ≤ 0
  · change 0 < (roundToLot d.deltaQty (instrumentOf options d).constraint.lotSize).1 * d.deltaQty
    rw [roundToLot_unrounded hn]
    exact mul_self_pos.mpr hqty
  · push Not at hn
    obtain ⟨lot, hlot, hpos⟩ := hn
    have hr := (roundToLot_some hqty hpos (hs lot hlot hqty hpos)).1
    rw [← hlot] at hr
    exact hr

lemma violationOf_isSome (hqty : d.deltaQty ≠ 0) (h : orderOf lower options d = none) :
    (violationOf lower options d).isSome := by
  unfold orderOf at h
  unfold violationOf
  cases hc : checkConstraints lower options d.symbol d.deltaQty d.venue with
  | error violation => rfl
  | ok adjusted =>
    rw [hc] at h
    have hside := adjusted_side hc hqty
    have hne : adjusted ≠ 0 := fun hz => by simp [hz] at hside
    dsimp only at h
    rw [if_neg hne] at h
    cases h

lemma orderOf_eq_some (h : orderOf lower options d = some o) :
    ∃ adjusted, checkConstraints lower options d.symbol d.deltaQty d.venue = .ok adjusted ∧ adjusted ≠ 0 ∧
      o = payload lower options d.symbol adjusted (options.reduceOnlyForNegative && decide (d.deltaQty < 0))
        options.timeInForce d.venue := by
  unfold orderOf at h
  cases hc : checkConstraints lower options d.symbol d.deltaQty d.venue with
  | error violation => rw [hc] at h; cases h
  | ok adjusted =>
    rw [hc] at h
    simp only [Option.ite_none_left_eq_some, Option.some.injEq] at h
    exact ⟨adjusted, rfl, h.1, h.2.symm⟩

lemma deltaQty_ne_zero (h : orderOf lower options d = some o) : d.deltaQty ≠ 0 := by
  obtain ⟨adjusted, hc, hne, -⟩ := orderOf_eq_some h
  intro hz
  obtain ⟨hadj, -, -⟩ := checkConstraints_ok hc
  rw [hz] at hadj
  exact hne (hadj.trans (congrArg Prod.fst (if_pos rfl)))

lemma fits_of_orderOf (h : orderOf lower options d = some o) : Fits lower options d o := by
  have hqty := deltaQty_ne_zero h
  obtain ⟨adjusted, hc, hne, rfl⟩ := orderOf_eq_some h
  obtain ⟨hadj, hs, hn⟩ := checkConstraints_ok hc
  refine ⟨adjusted_side hc hqty, fun hnn => ?_, fun lot hlot hpos => ?_, fun least hl hpos => ?_⟩
  · exact hadj.trans (roundToLot_unrounded hnn)
  · have hr := (roundToLot_some hqty hpos (hs lot hlot hqty hpos)).2
    rw [← hlot] at hr
    exact hadj ▸ hr
  · exact evaluateNotional_eq_none hn hne hl hpos

/-- What the loop over some deltas comes to: every delta has its order or its violation, in turn, unless the first
violation is raised. -/
def Built (lower : Lower) (options : FullOptions) (deltas : List SymbolDelta) (sink : Sink)
    (out : Outcome (List Order)) : Prop :=
  (options.raiseOnViolation = false → out = (.ok (deltas.filterMap (orderOf lower options)),
    sink.map (· ++ deltas.filterMap (violationOf lower options)))) ∧
  (options.raiseOnViolation = true →
    (∀ violation, deltas.findSome? (violationOf lower options) = some violation →
      out = (.error violation, sink.map (· ++ [violation]))) ∧
    (deltas.findSome? (violationOf lower options) = none →
      out = (.ok (deltas.filterMap (orderOf lower options)), sink)))

lemma built_ordersFrom (deltas : List SymbolDelta) (sink : Sink) :
    Built lower options deltas sink (ordersFrom lower options deltas [] sink) := by
  refine ⟨fun hr => ordersFrom_lenient hr deltas [] sink, fun hr => ⟨fun violation hs => ?_, fun hn => ?_⟩⟩
  · rw [ordersFrom_strict hr, hs]
  · rw [ordersFrom_strict hr, hn]
    rfl

/-- **Orders respect the constraints**, in each of the three functions that build them. -/
theorem orders_fit (lower : Lower) (options : FullOptions) (sink : Sink) :
    (∀ deltas, Built lower options deltas sink (ordersFromSymbolDeltas lower options deltas sink)) ∧
    (∀ plan, Built lower options plan.deltas sink (ordersFromWorldPlan lower options plan sink)) ∧
    (∀ deltas, Built lower options (deltas.map fun d => ⟨d.symbol, d.deltaQty, d.venue⟩) sink
      (ordersFromStrategyDeltas lower options deltas sink)) ∧
    ∀ d, (d.deltaQty ≠ 0 → orderOf lower options d = none → (violationOf lower options d).isSome) ∧
      ∀ o, orderOf lower options d = some o → violationOf lower options d = none ∧ Fits lower options d o := by
  refine ⟨fun deltas => built_ordersFrom deltas sink, fun plan => built_ordersFrom plan.deltas sink,
    fun deltas => built_ordersFrom _ sink, fun d => ⟨violationOf_isSome, fun o ho => ⟨?_, fits_of_orderOf ho⟩⟩⟩
  obtain ⟨adjusted, hcheck, -⟩ := orderOf_eq_some ho
  unfold violationOf
  rw [hcheck]

def wholeCoins : FullOptions where
  timeInForce := "GTC"
  hedgeMode := none
  reduceOnlyForNegative := true
  lotSizeBySymbol := Dict.ofList [("BTC", 1)]
  minTradeNotional := some 100
  marksBySymbol := Dict.empty
  venuePolicies := Dict.empty
  instrumentConstraints := none
  marksByBareSymbol := Dict.ofList [("BTC", 100)]
  raiseOnViolation := false

/-- A quantity within the slack of a lot is ordered as the lot. -/
theorem orders_fit_slack : ∃ o, orderOf Lower.ascii wholeCoins ⟨"BTC", 1 - slack, none⟩ = some o ∧ o.quantity = 1 ∧
    Fits Lower.ascii wholeCoins ⟨"BTC", 1 - slack, none⟩ o := by
  have horder : orderOf Lower.ascii wholeCoins ⟨"BTC", 1 - slack, none⟩ =
      some ⟨"BTC", 1, "buy", "GTC", none, false, none⟩ := by decide +kernel
  exact ⟨_, horder, rfl, (((orders_fit Lower.ascii wholeCoins none).2.2.2 _).2 _ horder).2⟩

end Qmtl.Gateway.OrderConstruction

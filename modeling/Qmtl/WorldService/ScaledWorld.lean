import Qmtl.Lib.Ledger
import Qmtl.WorldService.Rebalancing

/-!
What `ProportionalRebalancer` makes of the positions of one world that it scales alike: at each venue and symbol
the net quantity is scaled, in whole lots, unless the trade is too small.
-/

namespace Qmtl.WorldService

open Lib Lib.Ledger
open Lib.Double (truncate)

/-! ### Rounding toward zero -/

lemma abs_truncate_le (x : ℚ) : |(truncate x : ℚ)| ≤ |x| := by
  unfold truncate
  split
  · rename_i hx
    have hf : (0 : ℚ) ≤ ⌊x⌋ := by exact_mod_cast Int.floor_nonneg.mpr hx
    rw [abs_of_nonneg hf, abs_of_nonneg hx]
    exact Int.floor_le x
  · rename_i hx
    have hx : x ≤ 0 := le_of_lt (not_le.mp hx)
    have hc : (⌈x⌉ : ℚ) ≤ 0 := by exact_mod_cast Int.ceil_le.mpr (by simpa using hx)
    rw [abs_of_nonpos hc, abs_of_nonpos hx]
    exact neg_le_neg (Int.le_ceil x)

lemma abs_lt_truncate (x : ℚ) : |x| < |(truncate x : ℚ)| + 1 := by
  unfold truncate
  split
  · rename_i hx
    have hf : (0 : ℚ) ≤ ⌊x⌋ := by exact_mod_cast Int.floor_nonneg.mpr hx
    rw [abs_of_nonneg hf, abs_of_nonneg hx]
    exact Int.lt_floor_add_one x
  · rename_i hx
    have hx : x ≤ 0 := le_of_lt (not_le.mp hx)
    have hc : (⌈x⌉ : ℚ) ≤ 0 := by exact_mod_cast Int.ceil_le.mpr (by simpa using hx)
    rw [abs_of_nonpos hc, abs_of_nonpos hx]
    linarith [Int.ceil_lt_add_one x]

lemma truncate_mul_nonneg (x : ℚ) : 0 ≤ (truncate x : ℚ) * x := by
  unfold truncate
  split
  · rename_i hx
    exact mul_nonneg (by exact_mod_cast Int.floor_nonneg.mpr hx) hx
  · rename_i hx
    have hx : x ≤ 0 := le_of_lt (not_le.mp hx)
    exact mul_nonneg_of_nonpos_of_nonpos (by exact_mod_cast Int.ceil_le.mpr (by simpa using hx)) hx

def lotOf (symbol : String) (lotSizeBySymbol : Option Ratios) : Option ℚ :=
  ((lotSizeBySymbol.getD Dict.empty).get? symbol).filter (0 < ·)

variable {symbol : String}

lemma lotOf_pos {lots : Option Ratios} {lot : ℚ} (h : lotOf symbol lots = some lot) : 0 < lot :=
  of_decide_eq_true (Option.filter_eq_some_iff.mp h).2

lemma roundLot_of_none {lots : Option Ratios} (h : lotOf symbol lots = none) (qty : ℚ) :
    roundLot symbol qty lots = qty := by
  unfold roundLot
  unfold lotOf at h
  cases hget : (lots.getD .empty).get? symbol with
  | none => rfl
  | some lot =>
    rw [hget, Option.filter_eq_none_iff] at h
    have hlot := h lot rfl
    simp only [decide_eq_true_eq, not_lt] at hlot
    exact if_pos hlot

lemma roundLot_of_some {lots : Option Ratios} {lot : ℚ} (h : lotOf symbol lots = some lot)
    (qty : ℚ) : roundLot symbol qty lots = truncate (qty / lot) * lot := by
  unfold roundLot
  rw [(Option.filter_eq_some_iff.mp h).1]
  exact if_neg (not_le.mpr (lotOf_pos h))

/-- `r` is `q` cut down toward zero to a multiple of the lot size. -/
structure CutToward (lot q r : ℚ) : Prop where
  multiple : ∃ n : ℤ, r = n * lot
  sameSide : 0 ≤ r * q
  within : |r| ≤ |q|
  next : |q| < |r| + lot

lemma cutToward_roundLot {lots : Option Ratios} {lot : ℚ} (h : lotOf symbol lots = some lot)
    (qty : ℚ) : CutToward lot qty (roundLot symbol qty lots) := by
  have hlot := lotOf_pos h
  have hqty : qty = qty / lot * lot := (div_mul_cancel₀ qty hlot.ne').symm
  rw [roundLot_of_some h]
  refine ⟨⟨truncate (qty / lot), rfl⟩, ?_, ?_, ?_⟩
  · calc (0 : ℚ) ≤ truncate (qty / lot) * (qty / lot) * (lot * lot) :=
          mul_nonneg (truncate_mul_nonneg _) (mul_self_nonneg lot)
      _ = truncate (qty / lot) * lot * (qty / lot * lot) := by ring
      _ = truncate (qty / lot) * lot * qty := by rw [← hqty]
  · calc |(truncate (qty / lot) : ℚ) * lot| = |(truncate (qty / lot) : ℚ)| * |lot| := abs_mul _ _
      _ ≤ |qty / lot| * |lot| := mul_le_mul_of_nonneg_right (abs_truncate_le _) (abs_nonneg _)
      _ = |qty| := by rw [← abs_mul, ← hqty]
  · calc |qty| = |qty / lot| * |lot| := by rw [← abs_mul, ← hqty]
      _ < (|(truncate (qty / lot) : ℚ)| + 1) * |lot| :=
          mul_lt_mul_of_pos_right (abs_lt_truncate _) (abs_pos.mpr hlot.ne')
      _ = |(truncate (qty / lot) : ℚ) * lot| + lot := by rw [add_mul, one_mul, abs_mul, abs_of_pos hlot]

lemma abs_roundLot_le (symbol : String) (qty : ℚ) (lots : Option Ratios) : |roundLot symbol qty lots| ≤ |qty| := by
  cases h : lotOf symbol lots with
  | none => exact le_of_eq (congrArg _ (roundLot_of_none h qty))
  | some lot => exact (cutToward_roundLot h qty).within

lemma roundLot_mul_nonneg (symbol : String) (qty : ℚ) (lots : Option Ratios) : 0 ≤ roundLot symbol qty lots * qty := by
  cases h : lotOf symbol lots with
  | none => rw [roundLot_of_none h]; exact mul_self_nonneg qty
  | some lot => exact (cutToward_roundLot h qty).sameSide

lemma roundLot_eq_self {qty : ℚ} {lots : Option Ratios} :
    roundLot symbol qty lots = qty ↔ ∀ lot, lotOf symbol lots = some lot → ∃ n : ℤ, qty = n * lot := by
  constructor
  · intro h lot hlot
    obtain ⟨n, hn⟩ := (cutToward_roundLot hlot qty).multiple
    exact ⟨n, h.symm.trans hn⟩
  · intro h
    cases hlot : lotOf symbol lots with
    | none => exact roundLot_of_none hlot qty
    | some lot =>
      obtain ⟨n, rfl⟩ := h lot hlot
      have hpos := lotOf_pos hlot
      have ht : truncate (n : ℚ) = n := by
        unfold truncate
        split
        · exact Int.floor_intCast n
        · exact Int.ceil_intCast n
      rw [roundLot_of_some hlot, mul_div_cancel_right₀ _ hpos.ne', ht]

lemma get?_foldl_accumulate {α κ : Type} [DecidableEq κ] (f : α → κ × ℚ) (xs : List α) (d : Dict κ ℚ) {k : κ} {v : ℚ} :
    (xs.foldl (fun acc x => accumulate acc (f x).1 (f x).2) d).get? k = some v ↔
      (k ∈ d.keys ∨ k ∈ xs.map fun x => (f x).1) ∧ v = (d.get? k).getD 0 + total (xs.map f) k := by
  induction xs generalizing d with
  | nil =>
    rw [List.foldl_nil, List.map_nil, List.map_nil, total_nil, add_zero, or_iff_left List.not_mem_nil]
    cases hget : d.get? k with
    | none => simp [Dict.get?_eq_none.mp hget]
    | some w =>
      have hmem : k ∈ d.keys := by
        by_contra hno
        rw [Dict.get?_eq_none.mpr hno] at hget
        cases hget
      simp [hmem, eq_comm]
  | cons x xs ih =>
    have ht : total ((x :: xs).map f) k = (if (f x).1 = k then (f x).2 else 0) + total (xs.map f) k :=
      total_cons _ _ _
    rw [List.foldl_cons, ih, accumulate, Dict.mem_keys_set, List.map_cons, List.mem_cons, ht, Dict.get?_set]
    refine and_congr (by tauto) ?_
    by_cases hk : k = (f x).1
    · subst hk
      rw [if_pos rfl, if_pos rfl, Option.getD_some, add_assoc]
    · rw [if_neg hk, if_neg (Ne.symm hk), zero_add]

lemma average_of_const {xs : List ℚ} {m : ℚ} (hne : xs ≠ []) (h : ∀ x ∈ xs, x = m) : average xs = m := by
  have hlen : (xs.length : ℚ) ≠ 0 := by exact_mod_cast (List.length_pos_iff.mpr hne).ne'
  unfold average
  rw [List.sum_eq_card_nsmul xs m h, nsmul_eq_mul, mul_div_cancel_left₀ m hlen]

/-- The marks are positive, and the same for all positions at a venue and symbol. -/
structure UniformMarks (positions : List PositionSlice) : Prop where
  positive : ∀ p ∈ positions, 0 < p.mark
  equal : ∀ p ∈ positions, ∀ q ∈ positions, p.key = q.key → p.mark = q.mark

lemma UniformMarks.subset {positions ps : List PositionSlice} (h : UniformMarks positions) (hsub : ps ⊆ positions) :
    UniformMarks ps :=
  ⟨fun p hp => h.positive p (hsub hp), fun p hp q hq => h.equal p (hsub hp) q (hsub hq)⟩

lemma marksAt_ne_nil {positions : List PositionSlice} {p : PositionSlice} (hp : p ∈ positions) (hpos : 0 < p.mark) :
    marksAt positions p.key ≠ [] :=
  List.ne_nil_of_mem (List.mem_map_of_mem (List.mem_filter.mpr ⟨hp, decide_eq_true ⟨rfl, hpos⟩⟩))

lemma mem_marksAt {positions : List PositionSlice} {key : Venue} {m : ℚ} (h : m ∈ marksAt positions key) :
    ∃ p ∈ positions, p.key = key ∧ p.mark = m := by
  obtain ⟨p, hp, rfl⟩ := List.mem_map.mp h
  obtain ⟨hp, hkey⟩ := List.mem_filter.mp hp
  exact ⟨p, hp, (of_decide_eq_true hkey).1, rfl⟩

lemma UniformMarks.average_marksAt {positions : List PositionSlice} (h : UniformMarks positions) {p : PositionSlice}
    (hp : p ∈ positions) : average (marksAt positions p.key) = p.mark := by
  refine average_of_const (marksAt_ne_nil hp (h.positive p hp)) ?_
  intro m hm
  obtain ⟨q, hq, hkey, rfl⟩ := mem_marksAt hm
  exact h.equal q hq p hp hkey

/-! ### Scaling the positions of a world -/

def netQty (positions : List PositionSlice) (key : Venue) : ℚ := total (positions.map fun p => (p.key, p.qty)) key

def planned (deltas : List SymbolDelta) (key : Venue) : ℚ := total (deltas.map fun d => (d.key, d.deltaQty)) key

section

variable {positions : List PositionSlice} {g : ℚ}

lemma total_scaled (h : UniformMarks positions) {p : PositionSlice} (hp : p ∈ positions) :
    total (positions.map fun q => (q.key, q.notional * g - q.notional)) p.key =
      (g - 1) * p.mark * netQty positions p.key := by
  have hs : ∀ q ∈ positions, q.key = q.key ∧
      (q.key = p.key → q.notional * g - q.notional = (g - 1) * p.mark * q.qty) := by
    intro q hq
    refine ⟨rfl, fun hkey => ?_⟩
    rw [PositionSlice.notional, h.equal q hq p hp hkey]
    ring
  exact total_mul hs

lemma get?_aggregatePositionDeltas {gs : Dict String ℚ} (hgs : ∀ sid, (gs.get? sid).getD g = g) {key : Venue} {v : ℚ} :
    (aggregatePositionDeltas positions g gs).get? key = some v ↔ key ∈ positions.map PositionSlice.key ∧
      v = total (positions.map fun q => (q.key, q.notional * g - q.notional)) key := by
  have hf : aggregatePositionDeltas positions g gs =
      positions.foldl (fun acc q => accumulate acc q.key (q.notional * g - q.notional)) .empty := by
    unfold aggregatePositionDeltas
    simp [hgs]
  rw [hf, get?_foldl_accumulate (fun q : PositionSlice => (q.key, q.notional * g - q.notional)), Dict.get?_empty,
    Option.getD_none, zero_add]
  exact and_congr_left' (or_iff_right List.not_mem_nil)

def scaledDelta (minTradeNotional : ℚ) (lots : Option Ratios) (key : Venue) (raw mark : ℚ) : Option SymbolDelta :=
  if |raw * mark| < minTradeNotional ∨ roundLot key.2 raw lots = 0 then none
  else some ⟨key.2, roundLot key.2 raw lots, key.1⟩

/-- **The deltas of a world that is scaled alike**: at each venue and symbol with positions the net quantity is
scaled, in whole lots, where the notional reaches the threshold. -/
theorem mem_materialize_iff (h : UniformMarks positions) {gs : Dict String ℚ} (hgs : ∀ sid, (gs.get? sid).getD g = g)
    (minTradeNotional : ℚ) (lots : Option Ratios) (d : SymbolDelta) :
    d ∈ materializeSymbolDeltas positions minTradeNotional lots (aggregatePositionDeltas positions g gs) ↔
      ∃ p ∈ positions, scaledDelta minTradeNotional lots p.key ((g - 1) * netQty positions p.key) p.mark = some d := by
  have hraw : ∀ p ∈ positions, (g - 1) * p.mark * netQty positions p.key =
      (g - 1) * netQty positions p.key * p.mark := fun p _ => by ring
  have hdl : ∀ p ∈ positions, (if |(g - 1) * p.mark * netQty positions p.key| < minTradeNotional then none
      else
        let marks := marksAt positions p.key
        if marks.isEmpty then none
        else
          let raw := if average marks = 0 then 0 else (g - 1) * p.mark * netQty positions p.key / average marks
          let qty := roundLot p.key.2 raw lots
          if qty = 0 then none else some (⟨p.key.2, qty, p.key.1⟩ : SymbolDelta)) =
      scaledDelta minTradeNotional lots p.key ((g - 1) * netQty positions p.key) p.mark := by
    intro p hp
    have hpos := h.positive p hp
    have hm : (marksAt positions p.key).isEmpty = false :=
      List.isEmpty_eq_false_iff.mpr (marksAt_ne_nil hp hpos)
    dsimp only
    rw [hm, h.average_marksAt hp, if_neg hpos.ne', hraw p hp, mul_div_cancel_right₀ _ hpos.ne']
    unfold scaledDelta
    by_cases hs : |(g - 1) * netQty positions p.key * p.mark| < minTradeNotional
    · rw [if_pos hs, if_pos (.inl hs)]
    · rw [if_neg hs, if_neg Bool.false_ne_true]
      by_cases hz : roundLot p.key.2 ((g - 1) * netQty positions p.key) lots = 0
      · rw [if_pos hz, if_pos (.inr hz)]
      · rw [if_neg hz, if_neg (not_or.mpr ⟨hs, hz⟩)]
  unfold materializeSymbolDeltas
  rw [List.mem_filterMap]
  constructor
  · rintro ⟨⟨key, notional⟩, hmem, hd⟩
    obtain ⟨hkey, hv⟩ := (get?_aggregatePositionDeltas hgs).mp (Dict.get?_eq_some.mpr hmem)
    obtain ⟨p, hp, rfl⟩ := List.mem_map.mp hkey
    rw [total_scaled h hp] at hv
    subst hv
    exact ⟨p, hp, (hdl p hp).symm.trans hd⟩
  · rintro ⟨p, hp, hd⟩
    refine ⟨(p.key, (g - 1) * p.mark * netQty positions p.key), ?_, (hdl p hp).trans hd⟩
    rw [← Dict.get?_eq_some, get?_aggregatePositionDeltas hgs, total_scaled h hp]
    exact ⟨List.mem_map_of_mem hp, rfl⟩

end

section

variable {minTradeNotional : ℚ} {lots : Option Ratios}

variable {key : Venue}

lemma scaledDelta_eq_some {raw mark : ℚ} {d : SymbolDelta} :
    scaledDelta minTradeNotional lots key raw mark = some d ↔
      minTradeNotional ≤ |raw * mark| ∧ roundLot key.2 raw lots ≠ 0 ∧ d = ⟨key.2, roundLot key.2 raw lots, key.1⟩ := by
  unfold scaledDelta
  split
  · rename_i h
    refine iff_of_false (fun hno => by cases hno) ?_
    rintro ⟨hr, hne, -⟩
    exact h.elim (not_lt.mpr hr) hne
  · rename_i h
    rw [not_or, not_lt] at h
    rw [Option.some.injEq, and_iff_right h.1, and_iff_right h.2, eq_comm]

lemma key_scaledDelta {raw mark : ℚ} {d : SymbolDelta}
    (h : scaledDelta minTradeNotional lots key raw mark = some d) : d.key = key := by
  obtain ⟨-, -, rfl⟩ := scaledDelta_eq_some.mp h
  rfl

lemma nodup_materialize (positions : List PositionSlice) (notionals : Dict Venue ℚ) :
    ((materializeSymbolDeltas positions minTradeNotional lots notionals).map SymbolDelta.key).Nodup := by
  have hsub : ∀ es : List (Venue × ℚ), ∀ f : Venue × ℚ → Option SymbolDelta, (∀ e d, f e = some d → d.key = e.1) →
      ((es.filterMap f).map SymbolDelta.key).Sublist (es.map Prod.fst) := by
    intro es f hf
    induction es with
    | nil => exact .refl _
    | cons e es ih =>
      rw [List.filterMap_cons]
      cases hd : f e with
      | none => exact ih.cons _
      | some d =>
        rw [List.map_cons, List.map_cons, hf e d hd]
        exact ih.cons_cons _
  refine (hsub _ _ ?_).nodup notionals.nodup
  rintro ⟨key, notional⟩ d hd
  simp only [Option.ite_none_left_eq_some, Option.some.injEq] at hd
  obtain ⟨-, -, -, rfl⟩ := hd
  rfl

lemma planned_of_mem {deltas : List SymbolDelta} (hn : (deltas.map SymbolDelta.key).Nodup) {d : SymbolDelta}
    (h : d ∈ deltas) : planned deltas d.key = d.deltaQty := by
  have hkeys : ((deltas.map fun d => (d.key, d.deltaQty)).map Prod.fst).Nodup := by
    rw [List.map_map]
    exact hn
  exact total_of_mem hkeys (List.mem_map_of_mem h)

lemma planned_of_notMem {deltas : List SymbolDelta} (h : ∀ d ∈ deltas, d.key ≠ key) : planned deltas key = 0 := by
  refine total_of_notMem ?_
  rw [List.map_map, List.mem_map]
  rintro ⟨d, hd, hkey⟩
  exact h d hd hkey

variable {before after : ℚ} {strategyBefore strategyAfter : Ratios} {positions : List PositionSlice}

def RebalancePlan.ScaleOnly (plan : RebalancePlan) : Prop :=
  ∀ sid s, plan.scaleByStrategy.get? sid = some s → s = plan.scaleWorld

variable {plan : RebalancePlan}

lemma RebalancePlan.ScaleOnly.getD (h : plan.ScaleOnly) (sid : String) :
    (plan.scaleByStrategy.get? sid).getD plan.scaleWorld = plan.scaleWorld := by
  cases hget : plan.scaleByStrategy.get? sid with
  | none => rfl
  | some s => exact h sid s hget

lemma mem_planWorld_iff (hm : UniformMarks positions)
    (hplan : plan = planWorld before after strategyBefore strategyAfter positions minTradeNotional lots)
    (hs : plan.ScaleOnly) (d : SymbolDelta) :
    d ∈ plan.deltas ↔ ∃ p ∈ positions, scaledDelta minTradeNotional lots p.key
      ((plan.scaleWorld - 1) * netQty positions p.key) p.mark = some d := by
  subst hplan
  exact mem_materialize_iff hm hs.getD minTradeNotional lots d

lemma nodup_planWorld
    (hplan : plan = planWorld before after strategyBefore strategyAfter positions minTradeNotional lots) :
    (plan.deltas.map SymbolDelta.key).Nodup := by
  subst hplan
  exact nodup_materialize positions _

lemma planned_planWorld (hm : UniformMarks positions)
    (hplan : plan = planWorld before after strategyBefore strategyAfter positions minTradeNotional lots)
    (hsc : plan.ScaleOnly) {p : PositionSlice} (hp : p ∈ positions) :
    planned plan.deltas p.key = if minTradeNotional ≤ |(plan.scaleWorld - 1) * netQty positions p.key * p.mark|
      then roundLot p.symbol ((plan.scaleWorld - 1) * netQty positions p.key) lots else 0 := by
  cases hdl : scaledDelta minTradeNotional lots p.key ((plan.scaleWorld - 1) * netQty positions p.key) p.mark with
  | some d =>
    have hmem := (mem_planWorld_iff hm hplan hsc d).mpr ⟨p, hp, hdl⟩
    obtain ⟨hr, -, hd⟩ := scaledDelta_eq_some.mp hdl
    have hpl := planned_of_mem (nodup_planWorld hplan) hmem
    rw [key_scaledDelta hdl] at hpl
    rw [hpl, if_pos hr, hd]
    rfl
  | none =>
    have hno : planned plan.deltas p.key = 0 := by
      refine planned_of_notMem ?_
      intro d hd hkey
      obtain ⟨q, hq, hs⟩ := (mem_planWorld_iff hm hplan hsc d).mp hd
      have hqp : q.key = p.key := (key_scaledDelta hs).symm.trans hkey
      rw [hqp, hm.equal q hq p hp hqp, hdl] at hs
      cases hs
    rw [hno]
    split
    · rename_i hr
      by_contra hne
      have hs := (@scaledDelta_eq_some minTradeNotional lots p.key _ p.mark _).mpr ⟨hr, Ne.symm hne, rfl⟩
      rw [hdl] at hs
      cases hs
    · rfl

end

end Qmtl.WorldService

import Qmtl.Gateway.RebalancingOrders
import Qmtl.Lib.DictLoops
import Qmtl.WorldService.ScaledWorld

/-! What `allocate_strategy_deltas` makes of the plan of a world that is scaled as a whole. The parts of a delta add
up to it. -/

namespace Qmtl.Gateway.Rebalancing

open Lib Lib.Ledger WorldService

/-! ### What is asked -/

def strategyQty (positions : List PositionSlice) (key : Venue) (sid : String) : ℚ :=
  total (positions.map fun p => ((p.key, p.strategyId), p.qty)) (key, sid)

def strategyGross (positions : List PositionSlice) (key : Venue) (sid : String) : ℚ :=
  total (positions.map fun p => ((p.key, p.strategyId), |p.qty|)) (key, sid)

def gross (positions : List PositionSlice) (key : Venue) : ℚ := total (positions.map fun p => (p.key, |p.qty|)) key

def splitQty (out : List ExecutionDelta) (key : Venue) (sid : String) : ℚ :=
  total (out.map fun e => ((e.key, e.strategyId), e.deltaQty)) (key, sid)

def splitSum (out : List ExecutionDelta) (key : Venue) : ℚ := total (out.map fun e => (e.key, e.deltaQty)) key

def Reduces (qty trade : ℚ) : Prop := |qty + trade| ≤ |qty| ∧ 0 ≤ qty * (qty + trade)

/-- Every delta of a plan is distributed, and every strategy is reduced by its part. -/
def SplitsConservatively (positions : List PositionSlice) (deltas : List SymbolDelta) (out : List ExecutionDelta) : Prop :=
  ∀ d ∈ deltas, splitSum out d.key = d.deltaQty ∧
    ∀ sid, Reduces (strategyQty positions d.key sid) (splitQty out d.key sid)

def traded (positions : List PositionSlice) (g minTradeNotional : ℚ) (lots : Option Ratios) (p : PositionSlice) : ℚ :=
  if minTradeNotional ≤ |(g - 1) * netQty positions p.key * p.mark|
    then roundLot p.symbol ((g - 1) * netQty positions p.key) lots else 0

/-- A strategy that holds anything where something is traded is net on the side of the world, by as large a part of
what it holds as the trade is of what all hold. -/
def OnCutSide (positions : List PositionSlice) (trade : ℚ) (key : Venue) (sid : String) : Prop :=
  strategyGross positions key sid = 0 ∨ (0 < strategyQty positions key sid * netQty positions key ∧
    |trade| * strategyGross positions key sid ≤ |strategyQty positions key sid| * gross positions key)

lemma sum_values_accumulate {κ : Type} [DecidableEq κ] (d : Dict κ ℚ) (k : κ) (x : ℚ) :
    (accumulate d k x).values.sum = d.values.sum + x := by
  have hp := (Dict.perm_filterMap_set (fun e : κ × ℚ => some e.2) d k ((d.get? k).getD 0 + x)).sum_eq
  have hv : ∀ d : Dict κ ℚ, d.entries.filterMap (fun e => some e.2) = d.values := fun d =>
    congrFun List.filterMap_eq_map' d.entries
  rw [List.sum_append, List.sum_append, hv, hv] at hp
  unfold accumulate
  cases hget : d.get? k with
  | none => simpa [hget] using hp
  | some v =>
    simp only [hget, Option.getD_some, Option.bind_some, Option.toList_some, List.sum_singleton] at hp ⊢
    linarith

lemma sum_values_foldl {α κ : Type} [DecidableEq κ] (f : α → κ × ℚ) (xs : List α) (d : Dict κ ℚ) :
    (xs.foldl (fun acc x => accumulate acc (f x).1 (f x).2) d).values.sum = d.values.sum + (xs.map fun x => (f x).2).sum := by
  induction xs generalizing d with
  | nil => simp
  | cons x xs ih => rw [List.foldl_cons, ih, sum_values_accumulate, List.map_cons, List.sum_cons, add_assoc]

lemma getD_buildNotionalIndex {worldId : String} {positions : List PositionSlice}
    (hw : ∀ p ∈ positions, p.worldId = worldId) (key : Venue) :
    ((buildNotionalIndex worldId positions).get? key).getD Dict.empty =
      (positions.filter fun p => p.key = key).foldl (fun acc p => accumulate acc p.strategyId |p.notional|) Dict.empty := by
  have hall : positions.filter (fun p => p.worldId = worldId) = positions :=
    List.filter_eq_self.mpr fun p hp => decide_eq_true (hw p hp)
  unfold buildNotionalIndex
  rw [hall]
  clear hw hall
  induction positions using List.reverseRecOn with
  | nil => rfl
  | append_singleton positions p ih =>
    rw [List.foldl_append, List.foldl_cons, List.foldl_nil, Dict.get?_set, List.filter_append, List.foldl_append, ← ih]
    by_cases hkey : key = p.key
    · subst hkey
      simp
    · rw [if_neg hkey, List.filter_singleton]
      simp [Ne.symm hkey]

section

variable {worldId : String} {positions : List PositionSlice}

lemma total_entries_index (hw : ∀ p ∈ positions, p.worldId = worldId) (hm : UniformMarks positions)
    {p : PositionSlice} (hp : p ∈ positions) (sid : String) :
    total (((buildNotionalIndex worldId positions).get? p.key).getD Dict.empty).entries sid =
      p.mark * strategyGross positions p.key sid := by
  have hn : ∀ q ∈ positions, (q.key, q.strategyId) = (q.key, q.strategyId) ∧
      ((q.key, q.strategyId) = (p.key, sid) → |q.notional| = p.mark * |q.qty|) := by
    intro q hq
    refine ⟨rfl, fun heq => ?_⟩
    rw [PositionSlice.notional, hm.equal q hq p hp (Prod.mk.inj heq).1, abs_mul, abs_of_pos (hm.positive p hp),
      mul_comm]
  have hh : total ((positions.filter fun q => q.key = p.key).map fun q => (q.strategyId, |q.notional|)) sid =
      p.mark * strategyGross positions p.key sid :=
    (total_filter PositionSlice.key _ positions p.key sid).trans (total_mul hn)
  have hs := @get?_foldl_accumulate PositionSlice String _ (fun q => (q.strategyId, |q.notional|))
    (positions.filter fun q => q.key = p.key) .empty sid
  rw [getD_buildNotionalIndex hw, ← hh]
  generalize (positions.filter fun q => q.key = p.key) = here at hs ⊢
  cases hget : (here.foldl (fun acc q => accumulate acc q.strategyId |q.notional|) .empty).get? sid with
  | some v =>
    obtain ⟨-, hv⟩ := hs.mp hget
    rw [Dict.get?_empty, Option.getD_none, zero_add] at hv
    have hone := total_of_mem (Dict.nodup _) (Dict.get?_eq_some.mp hget)
    exact hone.trans hv
  | none =>
    rw [total_of_notMem (Dict.get?_eq_none.mp hget), total_of_notMem]
    rw [List.map_map]
    intro hmem
    have hsm := hs.mpr ⟨.inr hmem, rfl⟩
    rw [hget] at hsm
    cases hsm

lemma sum_values_index (hw : ∀ p ∈ positions, p.worldId = worldId) (hm : UniformMarks positions)
    {p : PositionSlice} (hp : p ∈ positions) :
    (((buildNotionalIndex worldId positions).get? p.key).getD Dict.empty).values.sum =
      p.mark * gross positions p.key := by
  have hn : ∀ q ∈ positions, q.key = q.key ∧ (q.key = p.key → |q.notional| = p.mark * |q.qty|) := by
    intro q hq
    refine ⟨rfl, fun heq => ?_⟩
    rw [PositionSlice.notional, hm.equal q hq p hp heq, abs_mul, abs_of_pos (hm.positive p hp), mul_comm]
  have hempty : (.empty : Dict String ℚ).values.sum = 0 := rfl
  rw [getD_buildNotionalIndex hw, sum_values_foldl (fun q : PositionSlice => (q.strategyId, |q.notional|)), hempty,
    zero_add]
  exact (sum_filter PositionSlice.key _ positions p.key).trans (total_mul hn)

lemma key_of_mem_shares {d : SymbolDelta} {weights : List (String × ℚ)} {whole : ℚ} {e : ExecutionDelta}
    (h : e ∈ shares d weights whole) : e.key = d.key := by
  obtain ⟨⟨sid, weight⟩, -, he⟩ := List.mem_filterMap.mp h
  simp only [Option.ite_none_left_eq_some, Option.some.injEq] at he
  obtain ⟨-, rfl⟩ := he
  rfl

lemma total_shares {κ : Type} [DecidableEq κ] (f : String → κ) (d : SymbolDelta) (weights : List (String × ℚ)) (whole : ℚ)
    (k : κ) : total ((shares d weights whole).map fun e => (f e.strategyId, e.deltaQty)) k =
      d.deltaQty * (total (weights.map fun w => (f w.1, w.2)) k / whole) := by
  unfold shares
  induction weights with
  | nil => simp
  | cons w weights ih =>
    rw [Dict.filterMap_cons_toList, List.map_append, total_append, ih, List.map_cons, total_cons, add_div, mul_add]
    refine congrArg (· + _) ?_
    dsimp only
    split
    · -- the part is left out
      rename_i hz
      split
      · exact hz.symm
      · simp
    · rw [Option.toList_some, List.map_singleton, total_cons, total_nil, add_zero]
      split <;> simp

variable (d : SymbolDelta) (weights : List (String × ℚ)) (whole : ℚ) (key : Venue)

lemma splitQty_shares (sid : String) : splitQty (shares d weights whole) key sid =
    if d.key = key then d.deltaQty * (total weights sid / whole) else 0 := by
  have hkeys : (shares d weights whole).map (fun e => ((e.key, e.strategyId), e.deltaQty)) =
      (shares d weights whole).map fun e => ((d.key, e.strategyId), e.deltaQty) :=
    List.map_congr_left fun e he => by rw [key_of_mem_shares he]
  unfold splitQty
  rw [hkeys, total_shares fun s => (d.key, s)]
  split
  · rename_i hkey
    subst hkey
    simp [total, Function.comp_def]
  · rename_i hkey
    simp [total, Function.comp_def, hkey]

lemma splitSum_shares : splitSum (shares d weights whole) key =
    if d.key = key then d.deltaQty * ((weights.map Prod.snd).sum / whole) else 0 := by
  have hkeys : (shares d weights whole).map (fun e => (e.key, e.deltaQty)) =
      (shares d weights whole).map fun e => (d.key, e.deltaQty) :=
    List.map_congr_left fun e he => by rw [key_of_mem_shares he]
  unfold splitSum
  rw [hkeys, total_shares fun _ => d.key]
  split
  · rename_i hkey
    subst hkey
    simp [total, Function.comp_def]
  · rename_i hkey
    simp [total, Function.comp_def, hkey]

end

/-! ### The plan of a world that is scaled as a whole -/

lemma abs_netQty_le (positions : List PositionSlice) (key : Venue) : |netQty positions key| ≤ gross positions key := by
  unfold netQty gross
  induction positions with
  | nil => simp
  | cons p positions ih =>
    rw [List.map_cons, List.map_cons, total_cons, total_cons]
    split
    · exact (abs_add_le _ _).trans (add_le_add_right ih _)
    · rwa [zero_add, zero_add]

lemma abs_strategyQty_le (positions : List PositionSlice) (key : Venue) (sid : String) :
    |strategyQty positions key sid| ≤ strategyGross positions key sid := by
  unfold strategyQty strategyGross
  induction positions with
  | nil => simp
  | cons p positions ih =>
    rw [List.map_cons, List.map_cons, total_cons, total_cons]
    split
    · exact (abs_add_le _ _).trans (add_le_add_right ih _)
    · rwa [zero_add, zero_add]

lemma roundLot_zero (symbol : String) (lots : Option Ratios) : roundLot symbol 0 lots = 0 :=
  abs_eq_zero.mp (le_antisymm ((abs_roundLot_le symbol 0 lots).trans (le_of_eq abs_zero)) (abs_nonneg _))

section

variable {worldId : String} {positions : List PositionSlice} {before after minTradeNotional : ℚ}
  {strategyBefore strategyAfter : Ratios} {lots : Option Ratios} {plan : RebalancePlan} {weights : Option Ratios}

lemma exists_held (hm : UniformMarks positions)
    (hplan : plan = planWorld before after strategyBefore strategyAfter positions minTradeNotional lots)
    (hs : plan.ScaleOnly) {d : SymbolDelta} (hd : d ∈ plan.deltas) :
    ∃ p ∈ positions, p.key = d.key ∧ 0 < gross positions d.key := by
  obtain ⟨p, hp, hdl⟩ := (mem_planWorld_iff hm hplan hs d).mp hd
  have hkey := key_scaledDelta hdl
  obtain ⟨-, hr, -⟩ := scaledDelta_eq_some.mp hdl
  refine ⟨p, hp, hkey.symm, ?_⟩
  rw [hkey]
  refine lt_of_lt_of_le (abs_pos.mpr ?_) (abs_netQty_le positions p.key)
  intro hnet
  rw [hnet, mul_zero, roundLot_zero] at hr
  exact hr rfl

lemma allocate_eq (hw : ∀ p ∈ positions, p.worldId = worldId) (hm : UniformMarks positions)
    (hplan : plan = planWorld before after strategyBefore strategyAfter positions minTradeNotional lots)
    (hs : plan.ScaleOnly) : allocateStrategyDeltas worldId plan positions weights = plan.deltas.flatMap fun d =>
      shares d (((buildNotionalIndex worldId positions).get? d.key).getD Dict.empty).entries
        (((buildNotionalIndex worldId positions).get? d.key).getD Dict.empty).values.sum := by
  unfold allocateStrategyDeltas
  refine congrArg List.flatten (List.map_congr_left fun d hd => ?_)
  obtain ⟨p, hp, hkey, hh⟩ := exists_held hm hplan hs hd
  have hpos : 0 < (((buildNotionalIndex worldId positions).get? d.key).getD .empty).values.sum := by
    rw [← hkey, sum_values_index hw hm hp, hkey]
    exact mul_pos (hm.positive p hp) hh
  rw [if_pos hpos, allocateExistingDelta, if_neg (not_le.mpr hpos)]

lemma sum_at (deltas : List SymbolDelta) (hn : (deltas.map SymbolDelta.key).Nodup) {d : SymbolDelta} (hd : d ∈ deltas)
    (f : SymbolDelta → ℚ) : (deltas.map fun d' => if d'.key = d.key then f d' else 0).sum = f d := by
  have hkeys : ((deltas.map fun d' => (d'.key, f d')).map Prod.fst).Nodup := by
    rw [List.map_map]
    exact hn
  have hone := total_of_mem hkeys (List.mem_map_of_mem hd)
  rw [total, List.map_map] at hone
  exact hone

lemma splitQty_allocate (hw : ∀ p ∈ positions, p.worldId = worldId) (hm : UniformMarks positions)
    (hplan : plan = planWorld before after strategyBefore strategyAfter positions minTradeNotional lots)
    (hs : plan.ScaleOnly) {d : SymbolDelta} (hd : d ∈ plan.deltas) (sid : String) :
    splitQty (allocateStrategyDeltas worldId plan positions weights) d.key sid =
      d.deltaQty * (strategyGross positions d.key sid / gross positions d.key) := by
  obtain ⟨p, hp, hkey, -⟩ := exists_held hm hplan hs hd
  rw [allocate_eq hw hm hplan hs, splitQty, List.map_flatMap, total_flatMap]
  refine (congrArg List.sum (List.map_congr_left fun d' _ => splitQty_shares d' _ _ d.key sid)).trans ?_
  rw [sum_at plan.deltas (nodup_planWorld hplan) hd fun d' => d'.deltaQty * (total
    (((buildNotionalIndex worldId positions).get? d'.key).getD .empty).entries sid /
      (((buildNotionalIndex worldId positions).get? d'.key).getD .empty).values.sum)]
  rw [← hkey, total_entries_index hw hm hp, sum_values_index hw hm hp,
    mul_div_mul_left _ _ (hm.positive p hp).ne']

lemma splitSum_allocate (hw : ∀ p ∈ positions, p.worldId = worldId) (hm : UniformMarks positions)
    (hplan : plan = planWorld before after strategyBefore strategyAfter positions minTradeNotional lots)
    (hs : plan.ScaleOnly) {d : SymbolDelta} (hd : d ∈ plan.deltas) :
    splitSum (allocateStrategyDeltas worldId plan positions weights) d.key = d.deltaQty := by
  obtain ⟨p, hp, hkey, hh⟩ := exists_held hm hplan hs hd
  rw [allocate_eq hw hm hplan hs, splitSum, List.map_flatMap, total_flatMap]
  refine (congrArg List.sum (List.map_congr_left fun d' _ => splitSum_shares d' _ _ d.key)).trans ?_
  rw [sum_at plan.deltas (nodup_planWorld hplan) hd fun d' => d'.deltaQty *
    (((((buildNotionalIndex worldId positions).get? d'.key).getD .empty).entries.map Prod.snd).sum /
      (((buildNotionalIndex worldId positions).get? d'.key).getD .empty).values.sum)]
  have hsum : (((buildNotionalIndex worldId positions).get? d.key).getD .empty).values.sum ≠ 0 := by
    rw [← hkey, sum_values_index hw hm hp, hkey]
    exact (mul_pos (hm.positive p hp) hh).ne'
  exact (congrArg (d.deltaQty * ·) (div_self hsum)).trans (mul_one _)

/-! ### Which strategies are reduced -/

lemma reduces_iff {qty trade : ℚ} : Reduces qty trade ↔ trade = 0 ∨ (qty * trade < 0 ∧ |trade| ≤ |qty|) := by
  constructor
  · rintro ⟨hle, hside⟩
    by_cases ht : trade = 0
    · exact .inl ht
    · right
      have hsq : (qty + trade) ^ 2 ≤ qty ^ 2 := sq_le_sq.mpr hle
      have hpos : 0 < trade ^ 2 := by positivity
      have hneg : qty * trade < 0 := by nlinarith
      refine ⟨hneg, ?_⟩
      have hqty : 0 < |qty| := abs_pos.mpr fun h => by simp [h] at hneg
      have hp : |qty| * |trade| ≤ |qty| * |qty| := by
        rw [← abs_mul, abs_of_neg hneg, abs_mul_abs_self]
        linarith
      exact le_of_mul_le_mul_left hp hqty
  · rintro (rfl | ⟨hneg, hle⟩)
    · exact ⟨by rw [add_zero], by rw [add_zero]; exact mul_self_nonneg qty⟩
    · have hp : |qty| * |trade| ≤ |qty| * |qty| := mul_le_mul_of_nonneg_left hle (abs_nonneg _)
      rw [← abs_mul, abs_of_neg hneg, abs_mul_abs_self] at hp
      refine ⟨sq_le_sq.mp ?_, by linarith⟩
      nlinarith

lemma cut_mul_neg {symbol : String} {g net : ℚ} (hg : g ≤ 1) (h : roundLot symbol ((g - 1) * net) lots ≠ 0) :
    roundLot symbol ((g - 1) * net) lots * net < 0 := by
  have hside := roundLot_mul_nonneg symbol ((g - 1) * net) lots
  have hraw : (g - 1) * net ≠ 0 := fun hz => h (by rw [hz, roundLot_zero])
  generalize roundLot symbol ((g - 1) * net) lots = trade at h hside ⊢
  have hpos : 0 < trade * ((g - 1) * net) := lt_of_le_of_ne hside (mul_ne_zero h hraw).symm
  have hs : trade * ((g - 1) * net) = (1 - g) * -(trade * net) := by ring
  rw [hs] at hpos
  linarith [pos_of_mul_pos_right hpos (by linarith)]

lemma reduces_share_iff {qty trade net a whole : ℚ} (hag : trade * net < 0) (hw : 0 < whole) (ha : 0 ≤ a) :
    Reduces qty (trade * (a / whole)) ↔ a = 0 ∨ (0 < qty * net ∧ |trade| * a ≤ |qty| * whole) := by
  have ht : trade ≠ 0 := fun hz => by simp [hz] at hag
  rcases ha.eq_or_lt with rfl | hpos
  · simp [reduces_iff]
  have hs : 0 < a / whole := div_pos hpos hw
  have hsd : qty * (trade * (a / whole)) < 0 ↔ 0 < qty * net := by
    rw [← mul_assoc, mul_neg_iff, or_iff_right fun h => hs.not_gt h.2, and_iff_left hs]
    have hp : qty * trade * (trade * net) = trade ^ 2 * (qty * net) := by ring
    have hsq : 0 < trade ^ 2 := by positivity
    constructor
    · intro hneg
      exact (mul_pos_iff_of_pos_left hsq).mp (hp ▸ mul_pos_of_neg_of_neg hneg hag)
    · intro hnet
      exact neg_of_mul_pos_left (hp ▸ mul_pos hsq hnet) hag.le
  rw [reduces_iff, or_iff_right (mul_ne_zero ht hs.ne'), or_iff_right hpos.ne', hsd, abs_mul, abs_of_pos hs,
    ← mul_div_assoc, div_le_iff₀ hw]

lemma exists_traded (hm : UniformMarks positions)
    (hplan : plan = planWorld before after strategyBefore strategyAfter positions minTradeNotional lots)
    (hs : plan.ScaleOnly) (key : Venue) (qty : ℚ) : (∃ d ∈ plan.deltas, d.key = key ∧ d.deltaQty = qty) ↔
      ∃ p ∈ positions, p.key = key ∧ qty ≠ 0 ∧ traded positions plan.scaleWorld minTradeNotional lots p = qty := by
  constructor
  · rintro ⟨d, hd, rfl, rfl⟩
    obtain ⟨p, hp, hdl⟩ := (mem_planWorld_iff hm hplan hs d).mp hd
    obtain ⟨hr, hrn, rfl⟩ := scaledDelta_eq_some.mp hdl
    exact ⟨p, hp, rfl, hrn, if_pos hr⟩
  · rintro ⟨p, hp, rfl, hne, rfl⟩
    unfold traded at hne ⊢
    split at hne
    · rename_i hr
      rw [if_pos hr]
      exact ⟨_, (mem_planWorld_iff hm hplan hs _).mpr ⟨p, hp, scaledDelta_eq_some.mpr ⟨hr, hne, rfl⟩⟩, rfl, rfl⟩
    · exact absurd rfl hne

lemma allocate_filter (plan : RebalancePlan) (weights : Option Ratios) :
    allocateStrategyDeltas worldId plan (positions.filter fun p => p.worldId = worldId) weights =
      allocateStrategyDeltas worldId plan positions weights := by
  unfold allocateStrategyDeltas buildNotionalIndex
  simp [Bool.and_self]

/-- **A cut that is split reduces every strategy exactly where each is on the side of the world**, and holds net as
large a part of what it holds as is traded of what all hold. -/
theorem splitsConservatively_iff {held : List PositionSlice} (hheld : held = positions.filter fun p => p.worldId = worldId)
    (hmarks : UniformMarks held)
    (hplan : plan = planWorld before after strategyBefore strategyAfter held minTradeNotional lots)
    (hscale : plan.ScaleOnly) (hcut : plan.scaleWorld ≤ 1) :
    SplitsConservatively held plan.deltas (allocateStrategyDeltas worldId plan positions weights) ↔
      ∀ p ∈ held, traded held plan.scaleWorld minTradeNotional lots p ≠ 0 →
        ∀ sid, OnCutSide held (traded held plan.scaleWorld minTradeNotional lots p) p.key sid := by
  have hworld : ∀ p ∈ held, p.worldId = worldId := by
    intro p hp
    rw [hheld] at hp
    exact of_decide_eq_true (List.mem_filter.mp hp).2
  rw [← allocate_filter, ← hheld]
  -- a delta and its parts, at the venue and symbol of a position
  have hparts : ∀ d ∈ plan.deltas, ∀ sid, (Reduces (strategyQty held d.key sid)
      (splitQty (allocateStrategyDeltas worldId plan held weights) d.key sid) ↔ OnCutSide held d.deltaQty d.key sid) := by
    intro d hd sid
    obtain ⟨p, hp, hkey, hne, hqty⟩ := (exists_traded hmarks hplan hscale d.key d.deltaQty).mp ⟨d, hd, rfl, rfl⟩
    obtain ⟨-, -, -, hgross⟩ := exists_held hmarks hplan hscale hd
    have hagainst : d.deltaQty * netQty held d.key < 0 := by
      rw [← hqty, ← hkey]
      rw [← hqty] at hne
      unfold traded at hne ⊢
      split at hne
      · rename_i hreach
        rw [if_pos hreach]
        exact cut_mul_neg hcut hne
      · exact absurd rfl hne
    rw [splitQty_allocate hworld hmarks hplan hscale hd]
    exact reduces_share_iff hagainst hgross ((abs_nonneg _).trans (abs_strategyQty_le held d.key sid))
  constructor
  · intro h p hp hne sid
    obtain ⟨d, hd, hkey, hqty⟩ := (exists_traded hmarks hplan hscale p.key _).mpr ⟨p, hp, rfl, hne, rfl⟩
    have hside := (hparts d hd sid).mp ((h d hd).2 sid)
    rwa [hkey, hqty] at hside
  · intro h d hd
    obtain ⟨p, hp, hkey, hne, hqty⟩ := (exists_traded hmarks hplan hscale d.key d.deltaQty).mp ⟨d, hd, rfl, rfl⟩
    refine ⟨splitSum_allocate hworld hmarks hplan hscale hd, fun sid => (hparts d hd sid).mpr ?_⟩
    have hside := h p hp (hqty ▸ hne) sid
    rwa [hqty, hkey] at hside

end

/-! ### Two strategies in one symbol -/

def pair (qty₁ qty₂ : ℚ) : List PositionSlice := [⟨"w", "s1", "BTC", qty₁, 100, none⟩, ⟨"w", "s2", "BTC", qty₂, 100, none⟩]

def halfOf (positions : List PositionSlice) : RebalancePlan := planWorld 1 (1 / 2) Dict.empty Dict.empty positions 0 none

lemma scaleOnly_halfOf (positions : List PositionSlice) : (halfOf positions).ScaleOnly := by
  intro sid s hs
  cases hs

lemma uniformMarks_pair (qty₁ qty₂ : ℚ) : UniformMarks (pair qty₁ qty₂) := by
  have hm : ∀ p ∈ pair qty₁ qty₂, p.mark = 100 := by
    unfold pair
    simp only [List.forall_mem_cons, List.not_mem_nil, IsEmpty.forall_iff, implies_true, and_true]
  exact ⟨fun p hp => by rw [hm p hp]; norm_num, fun p hp q hq _ => (hm p hp).trans (hm q hq).symm⟩

/-- Of two longs each sells half. -/
theorem splitsConservatively_longs : SplitsConservatively (pair 10 4) (halfOf (pair 10 4)).deltas
    (allocateStrategyDeltas "w" (halfOf (pair 10 4)) (pair 10 4) none) := by
  have hheld : pair 10 4 = (pair 10 4).filter fun p => p.worldId = "w" := by decide +kernel
  have hcut : (halfOf (pair 10 4)).scaleWorld ≤ 1 := by decide +kernel
  refine (splitsConservatively_iff hheld (uniformMarks_pair 10 4) rfl (scaleOnly_halfOf _) hcut).mpr ?_
  have hside : ∀ p ∈ pair 10 4, ∀ sid ∈ ["s1", "s2"],
      OnCutSide (pair 10 4) (traded (pair 10 4) (halfOf (pair 10 4)).scaleWorld 0 none p) p.key sid := by
    unfold pair OnCutSide
    decide +kernel
  intro p hp _ sid
  by_cases hsid : sid ∈ ["s1", "s2"]
  · exact hside p hp sid hsid
  · left
    simp only [List.mem_cons, List.not_mem_nil, or_false, not_or] at hsid
    simp [strategyGross, pair, total, Ne.symm hsid.1, Ne.symm hsid.2]

/-- The short of a world that is long on the whole is made larger when the world is halved. -/
theorem not_splitsConservatively_hedged : ¬ SplitsConservatively (pair 10 (-4)) (halfOf (pair 10 (-4))).deltas
    (allocateStrategyDeltas "w" (halfOf (pair 10 (-4))) (pair 10 (-4)) none) := by
  intro h
  have hdelta : (⟨"BTC", -3, none⟩ : SymbolDelta) ∈ (halfOf (pair 10 (-4))).deltas := by decide +kernel
  have hlarger : ¬ |strategyQty (pair 10 (-4)) (none, "BTC") "s2" +
      splitQty (allocateStrategyDeltas "w" (halfOf (pair 10 (-4))) (pair 10 (-4)) none) (none, "BTC") "s2"| ≤
        |strategyQty (pair 10 (-4)) (none, "BTC") "s2"| := by decide +kernel
  exact hlarger ((h _ hdelta).2 "s2").1

end Qmtl.Gateway.Rebalancing

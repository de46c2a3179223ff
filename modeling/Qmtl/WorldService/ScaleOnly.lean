import Qmtl.WorldService.ScaledWorld

/-! Rebalancing several worlds without targets for their strategies: every world is scaled as a whole, and what is
traded across worlds is the sum of what they trade. -/

namespace Qmtl.WorldService

open Lib Lib.Ledger

/-! ### What is asked -/

/-- A context that sets no targets for strategies, with ratios for allocations and with one mark at each venue
and symbol. -/
structure ScaleOnlyContext (ctx : MultiWorldRebalanceContext) : Prop where
  noTargets : ctx.strategyAllocAfterTotal = none
  ratios : ∀ v ∈ ctx.worldAllocBefore.values ++ ctx.worldAllocAfter.values, 0 ≤ v ∧ v ≤ 1
  marks : UniformMarks ctx.positions

def positionsOf (ctx : MultiWorldRebalanceContext) (worldId : String) : List PositionSlice :=
  ctx.positions.filter fun p => p.worldId = worldId

def remaining (positions : List PositionSlice) (plan : RebalancePlan) (key : Venue) : ℚ :=
  netQty positions key + planned plan.deltas key

/-- The plan of a world scales it as a whole: by the scale of its allocation, at each venue and symbol in whole
lots, where the trade reaches the threshold. -/
structure WorldScaled (ctx : MultiWorldRebalanceContext) (worldId : String) (plan : RebalancePlan) : Prop where
  scale : plan.scaleWorld =
    computeWorldScale ((ctx.worldAllocBefore.get? worldId).getD 0) ((ctx.worldAllocAfter.get? worldId).getD 0)
  strategies : plan.ScaleOnly
  single : (plan.deltas.map SymbolDelta.key).Nodup
  deltas : ∀ d, d ∈ plan.deltas ↔ ∃ p ∈ positionsOf ctx worldId,
    ctx.minTradeNotional ≤ |(plan.scaleWorld - 1) * netQty (positionsOf ctx worldId) p.key * p.mark| ∧
      roundLot p.symbol ((plan.scaleWorld - 1) * netQty (positionsOf ctx worldId) p.key) ctx.lotSizeBySymbol ≠ 0 ∧
      d = ⟨p.symbol, roundLot p.symbol ((plan.scaleWorld - 1) * netQty (positionsOf ctx worldId) p.key)
        ctx.lotSizeBySymbol, p.venue⟩
  flattened : (ctx.worldAllocAfter.get? worldId).getD 0 = 0 → ∀ p ∈ positionsOf ctx worldId,
    (remaining (positionsOf ctx worldId) plan p.key = 0 ↔ netQty (positionsOf ctx worldId) p.key = 0 ∨
      ((∀ lot, lotOf p.symbol ctx.lotSizeBySymbol = some lot →
          ∃ n : ℤ, netQty (positionsOf ctx worldId) p.key = n * lot) ∧
        ctx.minTradeNotional ≤ |netQty (positionsOf ctx worldId) p.key * p.mark|))

def plannedByWorlds (ctx : MultiWorldRebalanceContext) (key : Venue) : ℚ :=
  ((multiPlan ctx).perWorld.values.map fun plan => planned plan.deltas key).sum

lemma get?_computeStrategyScales {afterW gw : ℚ} {before after : Ratios} {sid : String} {s : ℚ}
    (h : (computeStrategyScales afterW before after gw).get? sid = some s) :
    ∃ afterS, after.get? sid = some afterS ∧ s =
      if (before.get? sid).getD 0 ≤ 0 then if afterW > 0 then gw else 0 else afterS / (before.get? sid).getD 0 := by
  have hmem := Dict.mem_entries_ofList (Dict.get?_eq_some.mp h)
  obtain ⟨⟨sid', afterS⟩, he, heq⟩ := List.mem_map.mp hmem
  cases heq
  exact ⟨afterS, Dict.get?_eq_some.mpr he, rfl⟩

variable {ctx : MultiWorldRebalanceContext} {plan : RebalancePlan}

lemma scaleOnly_planOf (hctx : ScaleOnlyContext ctx) (worldId : String) (positions : List PositionSlice) :
    (planOf ctx worldId positions).ScaleOnly := by
  have haf : 0 ≤ (ctx.worldAllocAfter.get? worldId).getD 0 := by
    cases hget : ctx.worldAllocAfter.get? worldId with
    | none => exact le_rfl
    | some v =>
      have hv : v ∈ ctx.worldAllocAfter.values := List.mem_map_of_mem (Dict.get?_eq_some.mp hget)
      exact (hctx.ratios v (List.mem_append_right _ hv)).1
  intro sid s hs
  obtain ⟨afterS, hafs, rfl⟩ := get?_computeStrategyScales hs
  show _ = computeWorldScale _ _
  -- the target of a strategy is its share times the scale of the world
  have htarget : ∃ v, (resolveBefore ctx worldId positions).get? sid = some v ∧
      afterS = v * scaleFactor ctx worldId := by
    unfold resolveAfter at hafs
    rw [hctx.noTargets] at hafs
    have hafs : ((resolveBefore ctx worldId positions).mapValues fun v => v * scaleFactor ctx worldId).get? sid =
      some afterS := hafs
    rw [Dict.get?_mapValues] at hafs
    obtain ⟨v, hv, rfl⟩ := Option.map_eq_some_iff.mp hafs
    exact ⟨v, hv, rfl⟩
  obtain ⟨v, hv, rfl⟩ := htarget
  have hf : scaleFactor ctx worldId = computeWorldScale ((ctx.worldAllocBefore.get? worldId).getD 0)
      ((ctx.worldAllocAfter.get? worldId).getD 0) := by
    unfold scaleFactor computeWorldScale
    by_cases hb : 0 < (ctx.worldAllocBefore.get? worldId).getD 0
    · rw [if_pos hb, if_neg (not_le.mpr hb)]
    · rw [if_neg hb, if_pos (not_lt.mp hb)]
  rw [hv, Option.getD_some]
  by_cases hsh : v ≤ 0
  · rw [if_pos hsh]
    split
    · rfl
    · -- nothing is left of the world
      rename_i hn
      rw [le_antisymm (not_lt.mp hn) haf]
      unfold computeWorldScale
      simp
  · rw [if_neg hsh, hf, mul_div_cancel_left₀ _ (ne_of_gt (not_le.mp hsh))]

/-! ### The worlds -/

lemma getD_groupPositions (positions : List PositionSlice) (worldId : String) :
    ((groupPositions positions).get? worldId).getD [] = positions.filter fun p => p.worldId = worldId := by
  induction positions using List.reverseRecOn with
  | nil => rfl
  | append_singleton positions p ih =>
    have hg : groupPositions (positions ++ [p]) = (groupPositions positions).set p.worldId
        (((groupPositions positions).get? p.worldId).getD [] ++ [p]) := by
      unfold groupPositions
      rw [List.foldl_append]
      rfl
    rw [hg, Dict.get?_set, List.filter_append, ← ih]
    by_cases hw : worldId = p.worldId
    · subst hw
      simp
    · rw [if_neg hw, List.filter_singleton]
      simp [Ne.symm hw]

variable {worldId : String} {positions : List PositionSlice}

lemma groupPositions_eq
    (h : (groupPositions ctx.positions).get? worldId = some positions) : positions = positionsOf ctx worldId := by
  have hg := getD_groupPositions ctx.positions worldId
  rw [h] at hg
  exact hg

lemma perWorld_eq (h : (multiPlan ctx).perWorld.get? worldId = some plan) :
    plan = planOf ctx worldId (positionsOf ctx worldId) := by
  obtain ⟨⟨w, positions⟩, he, heq⟩ := List.mem_map.mp (Dict.get?_eq_some.mp h)
  cases heq
  rw [groupPositions_eq (Dict.get?_eq_some.mpr he)]

lemma UniformMarks.positionsOf (h : UniformMarks ctx.positions) (worldId : String) :
    UniformMarks (positionsOf ctx worldId) :=
  h.subset fun _ hp => List.mem_of_mem_filter hp

lemma computeWorldScale_zero (before : ℚ) : computeWorldScale before 0 = 0 := by
  unfold computeWorldScale
  simp

lemma worldScaled (hctx : ScaleOnlyContext ctx) (hplan : plan = planOf ctx worldId (positionsOf ctx worldId)) :
    WorldScaled ctx worldId plan := by
  have hm := hctx.marks.positionsOf worldId
  have hs : plan.ScaleOnly := hplan ▸ scaleOnly_planOf hctx worldId _
  have hw : plan.scaleWorld =
      computeWorldScale ((ctx.worldAllocBefore.get? worldId).getD 0) ((ctx.worldAllocAfter.get? worldId).getD 0) :=
    hplan ▸ rfl
  refine ⟨hw, hs, nodup_planWorld hplan, ?_, ?_⟩
  · intro d
    rw [mem_planWorld_iff hm hplan hs]
    simp only [scaledDelta_eq_some]
    rfl
  · intro hz p hp
    have hpl := planned_planWorld hm hplan hs hp
    rw [hw, hz, computeWorldScale_zero, zero_sub, neg_one_mul, neg_mul, abs_neg] at hpl
    unfold remaining
    rw [hpl]
    split
    · rename_i hr
      rw [and_iff_left hr, add_eq_zero_iff_eq_neg', roundLot_eq_self]
      constructor
      · intro h
        refine .inr fun lot hlot => ?_
        obtain ⟨n, hn⟩ := h lot hlot
        exact ⟨-n, by rw [Int.cast_neg, neg_mul, ← hn, neg_neg]⟩
      · rintro (h | h) lot hlot
        · exact ⟨0, by rw [h]; simp⟩
        · obtain ⟨n, hn⟩ := h lot hlot
          exact ⟨-n, by rw [Int.cast_neg, neg_mul, ← hn]⟩
    · rename_i hr
      rw [add_zero]
      exact ⟨.inl, fun h => h.elim id fun h => absurd h.2 hr⟩

/-! ### Across worlds -/

structure Aggregate.Posted (mark : Venue → ℚ) (agg : Aggregate) (posted : List (Venue × ℚ)) : Prop where
  notionals : ∀ k v, agg.notionals.get? k = some v ↔ k ∈ posted.map Prod.fst ∧ v = total posted k * mark k
  marks : ∀ k ∈ posted.map Prod.fst, (agg.marks.get? k).getD [] ≠ []
  uniform : ∀ k, ∀ x ∈ (agg.marks.get? k).getD [], x = mark k

variable {mark : Venue → ℚ} {agg : Aggregate} {posted : List (Venue × ℚ)}

lemma Aggregate.posted_empty (mark : Venue → ℚ) : Aggregate.Posted mark ⟨Dict.empty, Dict.empty⟩ [] where
  notionals _ _ := iff_of_false (fun h => by cases h) fun h => absurd h.1 List.not_mem_nil
  marks _ h := absurd h List.not_mem_nil
  uniform _ _ h := absurd h List.not_mem_nil

/-- One more delta. -/
theorem Aggregate.Posted.post (h : agg.Posted mark posted) (key : Venue) (qty : ℚ) :
    Aggregate.Posted mark ⟨accumulate agg.notionals key (qty * mark key),
      agg.marks.set key ((agg.marks.get? key).getD [] ++ [mark key])⟩ (posted ++ [(key, qty)]) where
  notionals k v := by
    rw [accumulate, Dict.get?_set, List.map_append, List.mem_append, total_append, total_cons, total_nil, add_zero]
    by_cases hk : k = key
    · subst hk
      have hh : (agg.notionals.get? k).getD 0 = total posted k * mark k := by
        cases hget : agg.notionals.get? k with
        | some w => exact ((h.notionals k w).mp hget).2
        | none =>
          have hno : k ∉ posted.map Prod.fst := by
            intro hmem
            have hs := (h.notionals k _).mpr ⟨hmem, rfl⟩
            rw [hget] at hs
            cases hs
          rw [total_of_notMem hno, zero_mul]
          rfl
      rw [if_pos rfl, if_pos rfl, hh, ← add_mul, Option.some.injEq, eq_comm]
      simp
    · rw [if_neg hk, if_neg (Ne.symm hk), add_zero, h.notionals]
      simp [hk]
  marks k hk := by
    rw [Dict.get?_set]
    split
    · exact List.append_ne_nil_of_right_ne_nil _ (List.cons_ne_nil _ _)
    · rename_i hne
      rw [List.map_append, List.mem_append] at hk
      exact h.marks k (hk.resolve_right fun hl => hne (List.mem_singleton.mp hl))
  uniform k x hx := by
    rw [Dict.get?_set] at hx
    split at hx
    · rename_i hk
      subst hk
      rcases List.mem_append.mp hx with hx | hx
      · exact h.uniform k x hx
      · exact List.mem_singleton.mp hx
    · exact h.uniform k x hx

lemma Aggregate.Posted.ingest (h : agg.Posted mark posted)
    (hm : ∀ d ∈ plan.deltas, marksAt positions d.key ≠ [] ∧ average (marksAt positions d.key) = mark d.key) :
    (agg.ingest positions plan).Posted mark (posted ++ plan.deltas.map fun d => (d.key, d.deltaQty)) := by
  unfold Aggregate.ingest
  generalize plan.deltas = deltas at hm
  induction deltas generalizing agg posted with
  | nil => rwa [List.map_nil, List.append_nil]
  | cons d deltas ih =>
    obtain ⟨hne, havr⟩ := hm d List.mem_cons_self
    have hs := ih (h.post d.key d.deltaQty) fun d' hd' => hm d' (List.mem_cons_of_mem d hd')
    rw [List.append_assoc] at hs
    rw [List.foldl_cons, if_neg (by simpa using hne), havr]
    exact hs

lemma Aggregate.Posted.mem_build (h : agg.Posted mark posted) (hpos : ∀ k ∈ posted.map Prod.fst, 0 < mark k)
    (minTradeNotional : ℚ) (d : SymbolDelta) : d ∈ agg.build minTradeNotional ↔ d.key ∈ posted.map Prod.fst ∧
      minTradeNotional ≤ |total posted d.key * mark d.key| ∧ d.deltaQty = total posted d.key ∧ d.deltaQty ≠ 0 := by
  have hmr : ∀ k ∈ posted.map Prod.fst, ((agg.marks.get? k).getD [1]).sum /
      (max ((agg.marks.get? k).getD [1]).length 1 : ℕ) = mark k := by
    intro k hk
    have hne := h.marks k hk
    have hu := h.uniform k
    cases hget : agg.marks.get? k with
    | none =>
      rw [hget] at hne
      exact absurd rfl hne
    | some xs =>
      rw [hget] at hne hu
      have hlen : 1 ≤ xs.length := List.length_pos_iff.mpr hne
      rw [Option.getD_some, max_eq_left hlen]
      exact average_of_const hne hu
  unfold Aggregate.build
  rw [List.mem_filterMap]
  constructor
  · rintro ⟨⟨key, notional⟩, hmem, hd⟩
    obtain ⟨hkey, rfl⟩ := (h.notionals key notional).mp (Dict.get?_eq_some.mpr hmem)
    have hm := hmr key hkey
    have hne := (hpos key hkey).ne'
    simp only [Option.ite_none_left_eq_some, Option.some.injEq, hm, if_neg hne, mul_div_cancel_right₀ _ hne, not_lt] at hd
    obtain ⟨hr, hz, rfl⟩ := hd
    exact ⟨hkey, hr, rfl, hz⟩
  · rintro ⟨hkey, hr, hqty, hz⟩
    have hm := hmr d.key hkey
    have hne := (hpos d.key hkey).ne'
    refine ⟨(d.key, total posted d.key * mark d.key), Dict.get?_eq_some.mp ((h.notionals _ _).mpr ⟨hkey, rfl⟩), ?_⟩
    simp only [Option.ite_none_left_eq_some, Option.some.injEq, hm, if_neg hne, mul_div_cancel_right₀ _ hne, not_lt]
    exact ⟨hr, hqty ▸ hz, by rw [← hqty]; rfl⟩

def postings (ctx : MultiWorldRebalanceContext) (worlds : List (String × List PositionSlice)) : List (Venue × ℚ) :=
  worlds.flatMap fun e => (planOf ctx e.1 e.2).deltas.map fun d => (d.key, d.deltaQty)

section

variable {ctx : MultiWorldRebalanceContext}

lemma exists_position (hctx : ScaleOnlyContext ctx) {worldId : String} {positions : List PositionSlice}
    (hps : positions = positionsOf ctx worldId) {d : SymbolDelta} (hd : d ∈ (planOf ctx worldId positions).deltas) :
    ∃ p ∈ positions, p ∈ ctx.positions ∧ p.key = d.key := by
  subst hps
  obtain ⟨p, hp, hdl⟩ := (mem_planWorld_iff (hctx.marks.positionsOf worldId) rfl (scaleOnly_planOf hctx worldId _) d).mp hd
  exact ⟨p, hp, List.mem_of_mem_filter hp, (key_scaledDelta hdl).symm⟩

lemma posted_worlds (hctx : ScaleOnlyContext ctx) {worlds : List (String × List PositionSlice)}
    (hw : ∀ e ∈ worlds, e.2 = positionsOf ctx e.1)
    (h : agg.Posted (fun key => average (marksAt ctx.positions key)) posted) :
    (worlds.foldl (fun (agg : Aggregate) e => agg.ingest e.2 (planOf ctx e.1 e.2)) agg).Posted
      (fun key => average (marksAt ctx.positions key)) (posted ++ postings ctx worlds) := by
  induction worlds generalizing agg posted with
  | nil =>
    rw [postings, List.flatMap_nil, List.append_nil]
    exact h
  | cons e worlds ih =>
    have hps := hw e List.mem_cons_self
    have hm : ∀ d ∈ (planOf ctx e.1 e.2).deltas, marksAt e.2 d.key ≠ [] ∧
        average (marksAt e.2 d.key) = average (marksAt ctx.positions d.key) := by
      intro d hd
      obtain ⟨p, hp, hall, hkey⟩ := exists_position hctx hps hd
      have hu : UniformMarks e.2 := hps ▸ hctx.marks.positionsOf e.1
      rw [← hkey, hu.average_marksAt hp, hctx.marks.average_marksAt hall]
      exact ⟨marksAt_ne_nil hp (hu.positive p hp), rfl⟩
    have hs := ih (fun e' he' => hw e' (List.mem_cons_of_mem e he')) (h.ingest hm)
    rw [List.append_assoc] at hs
    exact hs

lemma plannedByWorlds_eq (key : Venue) :
    plannedByWorlds ctx key = total (postings ctx (groupPositions ctx.positions).entries) key := by
  unfold plannedByWorlds postings
  rw [total_flatMap]
  show (List.map _ (List.map Prod.snd (List.map _ _))).sum = _
  rw [List.map_map, List.map_map]
  rfl

/-- **Scale-only rebalancing.** Every world is scaled as a whole, and what is traded across worlds is the sum of
what they trade, where it reaches the threshold. -/
theorem scaleOnly_scales (hctx : ScaleOnlyContext ctx) :
    (∀ worldId plan, (multiPlan ctx).perWorld.get? worldId = some plan → WorldScaled ctx worldId plan) ∧
      ∀ d, d ∈ (multiPlan ctx).globalDeltas ↔ ∃ p ∈ ctx.positions,
        ctx.minTradeNotional ≤ |plannedByWorlds ctx p.key * p.mark| ∧ plannedByWorlds ctx p.key ≠ 0 ∧
          d = ⟨p.symbol, plannedByWorlds ctx p.key, p.venue⟩ := by
  refine ⟨fun worldId plan h => worldScaled hctx (perWorld_eq h), fun d => ?_⟩
  have hworlds : ∀ e ∈ (groupPositions ctx.positions).entries, e.2 = positionsOf ctx e.1 :=
    fun e he => groupPositions_eq (Dict.get?_eq_some.mpr he)
  have hposted := posted_worlds hctx hworlds (Aggregate.posted_empty _)
  rw [List.nil_append] at hposted
  -- what is posted is posted where there are positions
  have hplaces : ∀ k ∈ (postings ctx (groupPositions ctx.positions).entries).map Prod.fst,
      ∃ p ∈ ctx.positions, p.key = k := by
    intro k hk
    obtain ⟨posting, hposting, rfl⟩ := List.mem_map.mp hk
    obtain ⟨e, he, hd⟩ := List.mem_flatMap.mp hposting
    obtain ⟨d', hd', rfl⟩ := List.mem_map.mp hd
    obtain ⟨p, -, hp, hkey⟩ := exists_position hctx (hworlds e he) hd'
    exact ⟨p, hp, hkey⟩
  have hpos : ∀ k ∈ (postings ctx (groupPositions ctx.positions).entries).map Prod.fst,
      0 < average (marksAt ctx.positions k) := by
    intro k hk
    obtain ⟨p, hp, rfl⟩ := hplaces k hk
    rw [hctx.marks.average_marksAt hp]
    exact hctx.marks.positive p hp
  refine (hposted.mem_build hpos ctx.minTradeNotional d).trans ?_
  simp only [← plannedByWorlds_eq]
  constructor
  · rintro ⟨hkey, hreach, hqty, hzero⟩
    obtain ⟨p, hp, hpd⟩ := hplaces d.key hkey
    rw [← hpd, hctx.marks.average_marksAt hp] at hreach
    rw [← hpd] at hqty
    exact ⟨p, hp, hreach, hqty ▸ hzero, by rw [← hqty, show p.symbol = d.symbol from congrArg Prod.snd hpd,
      show p.venue = d.venue from congrArg Prod.fst hpd]⟩
  · rintro ⟨p, hp, hreach, hzero, rfl⟩
    refine ⟨?_, ?_, rfl, hzero⟩
    · by_contra hno
      exact hzero ((plannedByWorlds_eq _).trans (total_of_notMem hno))
    · show _ ≤ |plannedByWorlds ctx p.key * average (marksAt ctx.positions p.key)|
      rwa [hctx.marks.average_marksAt hp]

end

/-! ### Flattening a world -/

/-- A world that is to have nothing left is flattened exactly where no lot size is set. -/
def FlattensWithoutLots (ctx : MultiWorldRebalanceContext) : Prop :=
  ∀ worldId plan, (multiPlan ctx).perWorld.get? worldId = some plan → (ctx.worldAllocAfter.get? worldId).getD 0 = 0 →
    ∀ p ∈ positionsOf ctx worldId,
      remaining (positionsOf ctx worldId) plan p.key = 0 ↔ lotOf p.symbol ctx.lotSizeBySymbol = none

def emptied (qty minTradeNotional : ℚ) (lots : Option Ratios) : MultiWorldRebalanceContext where
  totalEquity := 1000
  worldAllocBefore := Dict.ofList [("w", 1 / 2)]
  worldAllocAfter := Dict.ofList [("w", 0)]
  strategyAllocBeforeTotal := none
  strategyAllocAfterTotal := none
  positions := [⟨"w", "s", "BTC", qty, 100, none⟩]
  minTradeNotional := minTradeNotional
  lotSizeBySymbol := lots

lemma scaleOnlyContext_emptied (qty minTradeNotional : ℚ) (lots : Option Ratios) :
    ScaleOnlyContext (emptied qty minTradeNotional lots) where
  noTargets := rfl
  ratios := by
    show ∀ v ∈ [(1 / 2 : ℚ), 0], 0 ≤ v ∧ v ≤ 1
    norm_num
  marks := by
    refine ⟨fun p hp => ?_, fun p hp q hq _ => ?_⟩
    · obtain rfl := List.mem_singleton.mp hp
      norm_num
    · rw [List.mem_singleton.mp hp, List.mem_singleton.mp hq]

/-- Two whole lots are flattened; a small position is not, without any lot size. -/
theorem flattening_depends_on_more : ScaleOnlyContext (emptied 2 0 (some (Dict.ofList [("BTC", 1)]))) ∧
    ¬ FlattensWithoutLots (emptied 2 0 (some (Dict.ofList [("BTC", 1)]))) ∧
    ScaleOnlyContext (emptied 2 1000 none) ∧ ¬ FlattensWithoutLots (emptied 2 1000 none) := by
  refine ⟨scaleOnlyContext_emptied _ _ _, fun h => ?_, scaleOnlyContext_emptied _ _ _, fun h => ?_⟩
  · have hiff := h "w" _ rfl rfl _ (List.mem_singleton.mpr rfl)
    have hlot : lotOf "BTC" (some (Dict.ofList [("BTC", (1 : ℚ))])) = some 1 := by decide +kernel
    have hnone : lotOf "BTC" (some (Dict.ofList [("BTC", (1 : ℚ))])) = none := hiff.mp (by decide +kernel)
    cases hnone
  · have hiff := h "w" _ rfl rfl _ (List.mem_singleton.mpr rfl)
    exact absurd (hiff.mpr rfl) (by decide +kernel)

def halved : MultiWorldRebalanceContext :=
  { emptied 3 10 (some (Dict.ofList [("BTC", 1)])) with worldAllocAfter := Dict.ofList [("w", 1 / 4)] }

theorem scaleOnly_scales_halved : ⟨"BTC", -1, none⟩ ∈ (multiPlan halved).globalDeltas := by
  have hctx : ScaleOnlyContext halved := by
    refine ⟨rfl, ?_, (scaleOnlyContext_emptied 3 10 (some (Dict.ofList [("BTC", 1)]))).marks⟩
    show ∀ v ∈ [(1 / 2 : ℚ), 1 / 4], 0 ≤ v ∧ v ≤ 1
    norm_num
  refine ((scaleOnly_scales hctx).2 _).mpr ⟨_, List.mem_singleton.mpr rfl, ?_⟩
  have hplanned : plannedByWorlds halved (none, "BTC") = -1 := by decide +kernel
  show _ ≤ |plannedByWorlds halved (none, "BTC") * 100| ∧ plannedByWorlds halved (none, "BTC") ≠ 0 ∧
    _ = (⟨"BTC", plannedByWorlds halved (none, "BTC"), none⟩ : SymbolDelta)
  rw [hplanned]
  refine ⟨?_, by norm_num, rfl⟩
  show (10 : ℚ) ≤ |-1 * 100|
  norm_num

end Qmtl.WorldService

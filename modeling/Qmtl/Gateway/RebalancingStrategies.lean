import Qmtl.Gateway.RebalancingScopes

/-! Whose orders the entries of `orders_per_strategy` are. -/

namespace Qmtl.Gateway.Rebalancing

open Lib Lib.Coro WorldService
open WorldService.Allocation (RebalanceRequest PlanPayload)

section Pairing

variable {α β γ δ : Type}

lemma zipWith_eq_zipWith_iff {g : γ → β → δ} (hg : ∀ a b a' b', g a b = g a' b' → a = a') {as bs : List γ} {os : List β}
    (ha : os.length ≤ as.length) (hb : bs.length = os.length) :
    List.zipWith g as os = List.zipWith g bs os ↔ bs <+: as := by
  induction os generalizing as bs with
  | nil =>
    rw [List.zipWith_nil_right, List.zipWith_nil_right, List.length_eq_zero_iff.mp hb]
    exact iff_of_true rfl List.nil_prefix
  | cons o os ih =>
    cases as with
    | nil => simp at ha
    | cons a as =>
      cases bs with
      | nil => simp at hb
      | cons b bs =>
        rw [List.zipWith_cons_cons, List.zipWith_cons_cons, List.cons_prefix_cons,
          ← ih (by simpa using ha) (by simpa using hb)]
        constructor
        · intro h
          obtain ⟨hh, ht⟩ := List.cons.inj h
          exact ⟨(hg _ _ _ _ hh).symm, ht⟩
        · rintro ⟨rfl, ht⟩
          rw [ht]

lemma filterMap_named (f : α → Option β) (name : α → γ) (g : γ → β → δ) (xs : List α) :
    (xs.filterMap fun x => (f x).map (g (name x))) =
      List.zipWith g ((xs.filter fun x => (f x).isSome).map name) (xs.filterMap f) := by
  induction xs with
  | nil => rfl
  | cons x xs ih =>
    rw [List.filterMap_cons, List.filterMap_cons, List.filter_cons]
    cases f x with
    | none => exact ih
    | some y =>
      rw [if_pos (by rfl), List.map_cons, List.zipWith_cons_cons, ← ih]
      rfl

lemma length_filter_isSome (f : α → Option β) (xs : List α) :
    (xs.filter fun x => (f x).isSome).length = (xs.filterMap f).length := by
  induction xs with
  | nil => rfl
  | cons x xs ih =>
    rw [List.filter_cons, List.filterMap_cons]
    cases f x with
    | none => exact ih
    | some y =>
      rw [if_pos (by rfl), List.length_cons, ih]
      rfl

lemma flatMap_eq_flatMap_iff {f g : α → List β} {xs : List α} (h : ∀ x ∈ xs, (f x).length = (g x).length) :
    xs.flatMap f = xs.flatMap g ↔ ∀ x ∈ xs, f x = g x := by
  induction xs with
  | nil => simp
  | cons x xs ih =>
    rw [List.flatMap_cons, List.flatMap_cons, List.forall_mem_cons,
      ← ih fun y hy => h y (List.mem_cons_of_mem x hy)]
    constructor
    · exact fun heq => List.append_inj heq (h x List.mem_cons_self)
    · rintro ⟨hh, ht⟩
      rw [hh, ht]

end Pairing

/-! ### The entries of a plan -/

section Entries

variable (env : Env) (payload : RebalanceRequest)

def orderOfDelta (worldId : String) (d : ExecutionDelta) : Option Order :=
  orderOf env.lower (worldOptions env payload worldId) d.symbol d.deltaQty d.venue

def ownOrders (worldId : String) (deltas : List ExecutionDelta) : List StrategyOrder :=
  deltas.filterMap fun d => (orderOfDelta env payload worldId d).map fun order => ⟨worldId, d.strategyId, order⟩

/-- Entry by entry, the orders stand with the strategies of the deltas they were built from, and each of them
stands once. -/
def CarryOwnStrategies (plan : PlanPayload) (entries : List StrategyOrder) : Prop :=
  entries = plan.perWorld.entries.flatMap fun e => ownOrders env payload e.1 (executionDeltas payload e.1 e.2)

def OrderedFirst (worldId : String) (deltas : List ExecutionDelta) : Prop :=
  (deltas.filter fun d => (orderOfDelta env payload worldId d).isSome).map ExecutionDelta.strategyId <+:
    deltas.map ExecutionDelta.strategyId

variable {env payload} {plan : PlanPayload}

def zippedOrders (env : Env) (payload : RebalanceRequest) (worldId : String) (deltas : List ExecutionDelta) :
    List StrategyOrder :=
  List.zipWith (fun d order => ⟨worldId, d.strategyId, order⟩) deltas
    (ordersFromStrategyDeltas env.lower (worldOptions env payload worldId) deltas)

lemma zippedOrders_eq (worldId : String) (deltas : List ExecutionDelta) : zippedOrders env payload worldId deltas =
    List.zipWith (StrategyOrder.mk worldId) (deltas.map ExecutionDelta.strategyId)
      (deltas.filterMap (orderOfDelta env payload worldId)) := by
  rw [List.zipWith_map_left]
  rfl

lemma ownOrders_eq (worldId : String) (deltas : List ExecutionDelta) : ownOrders env payload worldId deltas =
    List.zipWith (StrategyOrder.mk worldId)
      ((deltas.filter fun d => (orderOfDelta env payload worldId d).isSome).map ExecutionDelta.strategyId)
      (deltas.filterMap (orderOfDelta env payload worldId)) :=
  filterMap_named (orderOfDelta env payload worldId) ExecutionDelta.strategyId (StrategyOrder.mk worldId) deltas

lemma zippedOrders_eq_ownOrders_iff (worldId : String) (deltas : List ExecutionDelta) :
    zippedOrders env payload worldId deltas = ownOrders env payload worldId deltas ↔
      OrderedFirst env payload worldId deltas := by
  rw [zippedOrders_eq, ownOrders_eq]
  refine zipWith_eq_zipWith_iff ?_ ?_ ?_
  · intro sid order sid' order' h
    exact (StrategyOrder.mk.inj h).2.1
  · rw [List.length_map]
    exact List.length_filterMap_le _ _
  · rw [List.length_map]
    exact length_filter_isSome _ _

lemma length_zippedOrders (worldId : String) (deltas : List ExecutionDelta) :
    (zippedOrders env payload worldId deltas).length = (ownOrders env payload worldId deltas).length := by
  rw [zippedOrders_eq, ownOrders_eq, List.length_zipWith, List.length_zipWith, List.length_map, List.length_map,
    length_filter_isSome, min_self]
  exact min_eq_right (List.length_filterMap_le _ _)

lemma ordersPerStrategy_carryOwn_iff : CarryOwnStrategies env payload plan (ordersPerStrategy env payload plan) ↔
    ∀ e ∈ plan.perWorld.entries, OrderedFirst env payload e.1 (executionDeltas payload e.1 e.2) := by
  have hz : ordersPerStrategy env payload plan =
      plan.perWorld.entries.flatMap fun e => zippedOrders env payload e.1 (executionDeltas payload e.1 e.2) := rfl
  unfold CarryOwnStrategies
  rw [hz, flatMap_eq_flatMap_iff fun e _ => length_zippedOrders e.1 _]
  simp only [zippedOrders_eq_ownOrders_iff]

end Entries

lemma prepared_of_answer {env : Env} {query : Query} {payload : RebalanceRequest} {log log' : Log} {response : Response}
    (h : (postRebalancingExecute env query payload).exec (perform env) log = (.ok response, log')) :
    ∃ plan, env.plan = .ok plan ∧
      prepare env query payload plan = .ok (response.ordersPerWorld, response.ordersGlobal, response.ordersPerStrategy) := by
  unfold postRebalancingExecute at h
  by_cases hh : normalizeRebalanceMode env payload.mode = "hybrid"
  · rw [if_pos hh] at h
    cases h
  rw [if_neg hh] at h
  by_cases hg : parseBool env query.submit ∧ env.enforceLiveGuard ∧ query.allowLive ≠ some "true"
  · rw [if_pos hg] at h
    cases h
  rw [if_neg hg] at h
  obtain ⟨plan, log₁, hask, h⟩ := exec_bind_eq_ok h
  obtain ⟨⟨perWorld, ordersGlobal, perStrategy⟩, log₂, hpr, h⟩ := exec_bind_eq_ok h
  have hplan : env.plan = .ok plan := congrArg Prod.fst ((exec_perform _ _ _).symm.trans hask)
  have hp : prepare env query payload plan = .ok (perWorld, ordersGlobal, perStrategy) :=
    congrArg Prod.fst ((exec_ofExcept _ _ _).symm.trans hpr)
  refine ⟨plan, hplan, hp.trans ?_⟩
  by_cases hs : parseBool env query.submit
  · simp only [if_pos hs] at h
    obtain ⟨submitted, log₃, -, h⟩ := exec_bind_eq_ok h
    have hq := (exec_quietly .publishRiskSnapshots (fun _ => ()) rfl submitted _).symm.trans h
    rw [← Except.ok.inj (congrArg Prod.fst hq)]
  · simp only [if_neg hs] at h
    rw [← Except.ok.inj (congrArg Prod.fst h)]

/-- **When the answer's orders carry their own strategies.** -/
theorem answer_carriesOwn_iff (env : Env) (query : Query) (payload : RebalanceRequest) (log log' : Log)
    (response : Response) (entries : List StrategyOrder)
    (hexec : (postRebalancingExecute env query payload).exec (perform env) log = (.ok response, log'))
    (hentries : response.ordersPerStrategy = some entries) :
    ∃ plan, env.plan = .ok plan ∧ (CarryOwnStrategies env payload plan entries ↔
      ∀ e ∈ plan.perWorld.entries, OrderedFirst env payload e.1 (executionDeltas payload e.1 e.2)) := by
  obtain ⟨plan, hplan, hprepare⟩ := prepared_of_answer hexec
  have hstrategies := (prepared_of_ok hprepare).strategies
  rw [hentries] at hstrategies
  refine ⟨plan, hplan, ?_⟩
  split_ifs at hstrategies
  rw [Option.some.inj hstrategies]
  exact ordersPerStrategy_carryOwn_iff

/-! ### A strategy with less than a lot -/

def quarterPlan : PlanPayload where
  schemaVersion := 1
  perWorld := Dict.empty.set "w1" ⟨1, Dict.empty, [binance "BTC" 2]⟩
  globalDeltas := [binance "BTC" 2]
  overlayDeltas := none

def quarterWorlds : Env := { offsettingWorlds with plan := .ok quarterPlan }

def wholeBitcoins : RebalanceRequest :=
  { oneBitcoin with
    positions := [⟨"w1", "s1", "BTC", 1, 1, some "binance"⟩, ⟨"w1", "s2", "BTC", 3, 1, some "binance"⟩]
    lotSizeBySymbol := some (Dict.empty.set "BTC" 1) }

def askPerStrategy : Query := ⟨none, none, some "true", none⟩

def executeQuarter : Except Exn Response × Log :=
  (postRebalancingExecute quarterWorlds askPerStrategy wholeBitcoins).exec (perform quarterWorlds) ⟨[], []⟩

theorem answer_carriesOwn_iff_quarter : ∃ response entries, executeQuarter.1 = .ok response ∧
    response.ordersPerStrategy = some entries ∧
    ∃ plan, quarterWorlds.plan = .ok plan ∧ (CarryOwnStrategies quarterWorlds wholeBitcoins plan entries ↔
      ∀ e ∈ plan.perWorld.entries, OrderedFirst quarterWorlds wholeBitcoins e.1 (executionDeltas wholeBitcoins e.1 e.2)) := by
  obtain ⟨response, hresponse, hsome⟩ : ∃ response, executeQuarter.1 = .ok response ∧
      response.ordersPerStrategy.isSome := exists_ok _ (by decide +kernel)
  obtain ⟨entries, hentries⟩ := Option.isSome_iff_exists.mp hsome
  exact ⟨response, entries, hresponse, hentries,
    answer_carriesOwn_iff quarterWorlds askPerStrategy wholeBitcoins ⟨[], []⟩ executeQuarter.2 response entries
      (Prod.ext hresponse rfl) hentries⟩

/-- The half bitcoin of `s1` is less than a lot, so the order of `s2` stands with `s1`. -/
theorem order_of_s2_stands_with_s1 : ∃ response entries, executeQuarter.1 = .ok response ∧
    response.ordersPerStrategy = some entries ∧ entries.map StrategyOrder.strategyId = ["s1"] ∧
    (ownOrders quarterWorlds wholeBitcoins "w1" (executionDeltas wholeBitcoins "w1" ⟨1, Dict.empty, [binance "BTC" 2]⟩)).map
      StrategyOrder.strategyId = ["s2"] ∧ ¬CarryOwnStrategies quarterWorlds wholeBitcoins quarterPlan entries := by
  obtain ⟨response, hresponse, hcheck⟩ : ∃ response, executeQuarter.1 = .ok response ∧
      decide (response.ordersPerStrategy.map (fun entries => entries.map StrategyOrder.strategyId) = some ["s1"]) :=
    exists_ok _ (by decide +kernel)
  obtain ⟨entries, hentries, hids⟩ := Option.map_eq_some_iff.mp (of_decide_eq_true hcheck)
  refine ⟨response, entries, hresponse, hentries, hids, by decide +kernel, ?_⟩
  intro hown
  rw [hown] at hids
  revert hids
  decide +kernel

end Qmtl.Gateway.Rebalancing

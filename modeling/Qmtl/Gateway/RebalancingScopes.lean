import Qmtl.Gateway.RebalancingSubmission

/-! What `POST /rebalancing/execute` writes when it answers. The deltas of a plan are written once in each scope
that is asked for: per world, over all worlds for a shared account, and per strategy. -/

namespace Qmtl.Gateway.Rebalancing

open Lib Lib.Coro Foundation WorldService
open WorldService.Allocation (RebalanceRequest PlanPayload)

/-! ### Quantities -/

def quantityAt (key : Venue) (orders : List Order) : ℚ := ((orders.filter fun o => o.key = key).map Order.quantity).sum

def scopeTotal (scope : String) (key : Venue) (batches : List Batch) : ℚ :=
  quantityAt key ((batches.filter fun b => b.scope = scope).flatMap Batch.orders)

def rounded (lower : Lower) (options : OrderOptions) (d : SymbolDelta) : ℚ :=
  match applyConstraints lower options d.symbol d.deltaQty d.venue with
  | .ok qty => qty
  | .error _ => 0

def roundedAt (lower : Lower) (options : OrderOptions) (key : Venue) (deltas : List SymbolDelta) : ℚ :=
  ((deltas.filter fun d => d.key = key).map (rounded lower options)).sum

def ExecutionDelta.symbolDelta (d : ExecutionDelta) : SymbolDelta := ⟨d.symbol, d.deltaQty, d.venue⟩

section Quantities

variable {key : Venue} {lower : Lower} {options : OrderOptions}

lemma quantityAt_append (as bs : List Order) : quantityAt key (as ++ bs) = quantityAt key as + quantityAt key bs := by
  unfold quantityAt
  rw [List.filter_append, List.map_append, List.sum_append]

lemma quantityAt_perm {as bs : List Order} (h : as.Perm bs) : quantityAt key as = quantityAt key bs :=
  ((h.filter _).map _).sum_eq

lemma quantityAt_flatMap {α : Type} (f : α → List Order) (xs : List α) :
    quantityAt key (xs.flatMap f) = (xs.map fun x => quantityAt key (f x)).sum := by
  induction xs with
  | nil => rfl
  | cons x xs ih => rw [List.flatMap_cons, quantityAt_append, ih, List.map_cons, List.sum_cons]

lemma roundedAt_cons (d : SymbolDelta) (ds : List SymbolDelta) : roundedAt lower options key (d :: ds) =
    (if d.key = key then rounded lower options d else 0) + roundedAt lower options key ds := by
  unfold roundedAt
  by_cases h : d.key = key
  · rw [if_pos h, List.filter_cons_of_pos (by simpa using h), List.map_cons, List.sum_cons]
  · rw [if_neg h, List.filter_cons_of_neg (by simpa using h), zero_add]

lemma orderOf_cases (lower : Lower) (hn : options.instrumentConstraints = none) (d : SymbolDelta) :
    (rounded lower options d = 0 ∧ orderOf lower options d.symbol d.deltaQty d.venue = none) ∨
      ∃ o, orderOf lower options d.symbol d.deltaQty d.venue = some o ∧ o.key = d.key ∧
        o.quantity = rounded lower options d := by
  have hs : (resolveInstrument options d.symbol d.venue).symbol = d.symbol := by
    unfold resolveInstrument
    rw [hn]
  unfold orderOf buildOrder rounded
  cases applyConstraints lower options d.symbol d.deltaQty d.venue with
  | error violation => exact .inl ⟨rfl, rfl⟩
  | ok qty =>
    by_cases hz : qty = 0
    · exact .inl ⟨hz, if_pos hz⟩
    · exact .inr ⟨_, if_neg hz, by unfold Order.key; rw [hs]; rfl, rfl⟩

lemma quantityAt_orderOf (hn : options.instrumentConstraints = none) (d : SymbolDelta) :
    quantityAt key (orderOf lower options d.symbol d.deltaQty d.venue).toList =
      if d.key = key then rounded lower options d else 0 := by
  unfold quantityAt
  rcases orderOf_cases lower hn d with ⟨hz, hor⟩ | ⟨o, hor, hkey, hqty⟩
  · rw [hor, hz, ite_self]
    rfl
  · rw [hor, Option.toList_some, List.filter_singleton, hkey]
    by_cases h : d.key = key
    · rw [if_pos h, decide_eq_true h, ← hqty]
      simp
    · rw [if_neg h, decide_eq_false h]
      rfl

lemma quantityAt_ordersFromSymbolDeltas (hn : options.instrumentConstraints = none) (ds : List SymbolDelta) :
    quantityAt key (ordersFromSymbolDeltas lower options ds) = roundedAt lower options key ds := by
  induction ds with
  | nil => rfl
  | cons d ds ih =>
    rw [roundedAt_cons, ← quantityAt_orderOf hn, ← ih, ← quantityAt_append]
    congr 1
    unfold ordersFromSymbolDeltas
    rw [List.filterMap_cons]
    cases orderOf lower options d.symbol d.deltaQty d.venue <;> rfl

end Quantities

/-! ### The three renderings -/

section Renderings

variable {env : Env} {payload : RebalanceRequest} {plan : PlanPayload} {key : Venue}

def perWorldCoverage (env : Env) (payload : RebalanceRequest) (plan : PlanPayload) (key : Venue) : ℚ :=
  (plan.perWorld.entries.map fun e => roundedAt env.lower (worldOptions env payload e.1) key e.2.deltas).sum

def perStrategyCoverage (env : Env) (payload : RebalanceRequest) (plan : PlanPayload) (key : Venue) : ℚ :=
  (plan.perWorld.entries.map fun e => roundedAt env.lower (worldOptions env payload e.1) key
    ((executionDeltas payload e.1 e.2).map ExecutionDelta.symbolDelta)).sum

lemma quantityAt_ordersPerWorld :
    quantityAt key ((ordersPerWorld env payload plan).entries.flatMap Prod.snd) = perWorldCoverage env payload plan key := by
  have hen : (ordersPerWorld env payload plan).entries.flatMap Prod.snd =
      plan.perWorld.entries.flatMap fun e =>
        ordersFromSymbolDeltas env.lower (worldOptions env payload e.1) e.2.deltas := by
    show List.flatMap Prod.snd (plan.perWorld.entries.map _) = _
    rw [List.flatMap_map]
    rfl
  rw [hen, quantityAt_flatMap]
  congr 1
  refine List.map_congr_left ?_
  intro e _
  exact quantityAt_ordersFromSymbolDeltas rfl _

lemma quantityAt_overlayOrders {options : OrderOptions} {worlds : Dict String String} (ds : List SymbolDelta)
    (hn : options.instrumentConstraints = none) (orders orders' : Dict String (List Order))
    (h : overlayOrders env options worlds orders ds = .ok orders') :
    quantityAt key (orders'.entries.flatMap Prod.snd) =
      quantityAt key (orders.entries.flatMap Prod.snd) + roundedAt env.lower options key ds := by
  induction ds generalizing orders with
  | nil =>
    rw [← Except.ok.inj h]
    exact (add_zero _).symm
  | cons d ds ih =>
    rw [overlayOrders] at h
    cases hw : worlds.get? d.symbol with
    | none =>
      rw [hw] at h
      exact nomatch h
    | some worldId =>
      rw [hw] at h
      rw [ih _ h, roundedAt_cons, ← add_assoc]
      congr 1
      have hb : quantityAt key (ordersFromSymbolDeltas env.lower options [d]) =
          if d.key = key then rounded env.lower options d else 0 := by
        rw [quantityAt_ordersFromSymbolDeltas hn, roundedAt_cons]
        exact add_zero _
      by_cases hempty : (ordersFromSymbolDeltas env.lower options [d]).isEmpty
      · rw [if_pos hempty, ← hb, List.isEmpty_iff.mp hempty]
        exact (add_zero _).symm
      · rw [if_neg hempty, quantityAt_perm (Dict.perm_flatMap_extend orders worldId _), quantityAt_append, hb]

lemma map_order_zipWith (worldId : String) {deltas : List ExecutionDelta} {orders : List Order}
    (h : orders.length ≤ deltas.length) :
    (List.zipWith (fun d order => (⟨worldId, d.strategyId, order⟩ : StrategyOrder)) deltas orders).map
      StrategyOrder.order = orders := by
  induction orders generalizing deltas with
  | nil => rw [List.zipWith_nil_right, List.map_nil]
  | cons o os ih =>
    cases deltas with
    | nil => simp at h
    | cons d ds =>
      rw [List.zipWith_cons_cons, List.map_cons, ih (by simpa using h)]

lemma map_order_ordersPerStrategy : (ordersPerStrategy env payload plan).map StrategyOrder.order =
    plan.perWorld.entries.flatMap fun e => ordersFromSymbolDeltas env.lower (worldOptions env payload e.1)
      ((executionDeltas payload e.1 e.2).map ExecutionDelta.symbolDelta) := by
  unfold ordersPerStrategy
  rw [List.map_flatMap]
  refine List.flatMap_congr ?_
  intro e _
  have hor : ordersFromSymbolDeltas env.lower (worldOptions env payload e.1)
      ((executionDeltas payload e.1 e.2).map ExecutionDelta.symbolDelta) =
        ordersFromStrategyDeltas env.lower (worldOptions env payload e.1) (executionDeltas payload e.1 e.2) :=
    List.filterMap_map
  rw [hor]
  exact map_order_zipWith e.1 (List.length_filterMap_le _ _)

lemma quantityAt_ordersPerStrategy :
    quantityAt key ((ordersPerStrategy env payload plan).map StrategyOrder.order) =
      perStrategyCoverage env payload plan key := by
  rw [map_order_ordersPerStrategy, quantityAt_flatMap]
  congr 1
  refine List.map_congr_left ?_
  intro e _
  exact quantityAt_ordersFromSymbolDeltas rfl _

lemma perm_entriesByWorld (items : List StrategyOrder) :
    ((entriesByWorld items).entries.flatMap Prod.snd).Perm items := by
  suffices hgen : ∀ (items : List StrategyOrder) (acc : Dict String (List StrategyOrder)),
      ((items.foldl (fun acc item => acc.set item.worldId ((acc.get? item.worldId).getD [] ++ [item]))
        acc).entries.flatMap Prod.snd).Perm (acc.entries.flatMap Prod.snd ++ items) from hgen items .empty
  intro items
  induction items with
  | nil =>
    intro acc
    rw [List.append_nil]
    exact .refl _
  | cons item items ih =>
    intro acc
    refine (ih _).trans ?_
    rw [List.append_cons]
    exact (Dict.perm_flatMap_extend acc item.worldId [item]).append_right items

end Renderings

/-! ### The batches of a scope -/

lemma send_batches_of_ok {lower : Lower} {faults : List (Option Exn)} {bs : List Submission}
    (h : (send lower faults bs).outcome = .ok ()) :
    (send lower faults bs).batches = bs.filter fun b => !b.orders.isEmpty := by
  induction bs generalizing faults with
  | nil => rfl
  | cons b bs ih =>
    rw [send] at h ⊢
    by_cases hs : b.inShadow lower
    · rw [if_pos hs] at h
      cases h
    · rw [if_neg hs] at h ⊢
      by_cases hempty : b.orders.isEmpty
      · rw [if_pos hempty] at h ⊢
        rw [ih h, List.filter_cons_of_neg (by simpa using hempty)]
      · rw [if_neg hempty] at h ⊢
        rw [List.filter_cons_of_pos (by simpa using hempty)]
        cases hf : faults.headD none with
        | some e =>
          rw [hf] at h
          cases h
        | none =>
          rw [hf] at h
          simp [ih h]

lemma flatMap_orders_filter (bs : List Submission) :
    (bs.filter fun b => !b.orders.isEmpty).flatMap Submission.orders = bs.flatMap Submission.orders := by
  induction bs with
  | nil => rfl
  | cons b bs ih =>
    by_cases hempty : b.orders.isEmpty
    · rw [List.filter_cons_of_neg (by simpa using hempty), ih, List.flatMap_cons, List.isEmpty_iff.mp hempty]
      rfl
    · rw [List.filter_cons_of_pos (by simpa using hempty), List.flatMap_cons, List.flatMap_cons, ih]

lemma scopeTotal_batches (scope : String) (key : Venue) (bs : List Submission) :
    scopeTotal scope key ((bs.filter fun b => !b.orders.isEmpty).map Submission.batch) =
      quantityAt key ((bs.filter fun b => b.scope = scope).flatMap Submission.orders) := by
  unfold scopeTotal
  rw [List.filter_map, List.flatMap_map, List.filter_filter, ← flatMap_orders_filter, List.filter_filter]
  congr 2
  refine List.filter_congr ?_
  intro b _
  exact Bool.and_comm _ _

section Scopes

variable {env : Env} {perWorldOrders : Dict String (List Order)} {ordersGlobal : Option (List Order)}
  {ordersPerStrategy : Option (List StrategyOrder)} {sharedAccount globalScopeSharedAccount : Bool}
  {globalScopeMode : Option String}

lemma filter_scope {bs : List Submission} {own : String} (h : ∀ b ∈ bs, b.scope = own) (scope : String) :
    (bs.filter fun b => b.scope = scope) = if own = scope then bs else [] := by
  by_cases hs : own = scope
  · rw [if_pos hs]
    exact List.filter_eq_self.mpr fun b hb => decide_eq_true ((h b hb).trans hs)
  · rw [if_neg hs]
    refine List.filter_eq_nil_iff.mpr ?_
    intro b hb hdec
    exact hs ((h b hb).symm.trans (of_decide_eq_true hdec))

lemma scope_perWorldSubmissions : ∀ b ∈ perWorldSubmissions (readMode env) perWorldOrders sharedAccount,
    b.scope = "per_world" := by
  intro b hb
  obtain ⟨e, -, rfl⟩ := List.mem_map.mp hb
  rfl

lemma scope_perStrategySubmissions : ∀ b ∈ perStrategySubmissions (readMode env) ordersPerStrategy,
    b.scope = "per_strategy" := by
  intro b hb
  obtain ⟨e, -, rfl⟩ := List.mem_map.mp hb
  rfl

lemma globalSubmissions_cases : ∀ b ∈ globalSubmissions ordersGlobal globalScopeSharedAccount globalScopeMode,
    b.scope = "global" ∧ ordersGlobal = some b.orders := by
  intro b hb
  cases hor : ordersGlobal with
  | none =>
    rw [hor] at hb
    exact nomatch hb
  | some orders =>
    cases orders with
    | nil =>
      rw [hor] at hb
      exact nomatch hb
    | cons o os =>
      rw [hor] at hb
      rw [List.mem_singleton.mp hb]
      exact ⟨rfl, rfl⟩

lemma orders_perWorldSubmissions :
    (perWorldSubmissions (readMode env) perWorldOrders sharedAccount).flatMap Submission.orders =
      perWorldOrders.entries.flatMap Prod.snd := by
  unfold perWorldSubmissions
  rw [List.flatMap_map]

lemma orders_globalSubmissions :
    (globalSubmissions ordersGlobal globalScopeSharedAccount globalScopeMode).flatMap Submission.orders =
      ordersGlobal.getD [] := by
  unfold globalSubmissions
  cases ordersGlobal.getD [] with
  | nil => rfl
  | cons o os => exact List.append_nil _

lemma orders_perStrategySubmissions :
    ((perStrategySubmissions (readMode env) ordersPerStrategy).flatMap Submission.orders).Perm
      ((ordersPerStrategy.getD []).map StrategyOrder.order) := by
  have hor : (perStrategySubmissions (readMode env) ordersPerStrategy).flatMap Submission.orders =
      ((entriesByWorld (ordersPerStrategy.getD [])).entries.flatMap Prod.snd).map StrategyOrder.order := by
    unfold perStrategySubmissions
    rw [List.flatMap_map, List.map_flatMap]
  rw [hor]
  exact (perm_entriesByWorld _).map _

lemma filter_submissions (scope : String) :
    ((submissions env perWorldOrders ordersGlobal ordersPerStrategy sharedAccount globalScopeSharedAccount
      globalScopeMode).filter fun b => b.scope = scope) =
    (if "per_world" = scope then perWorldSubmissions (readMode env) perWorldOrders sharedAccount else []) ++
      ((if "global" = scope then globalSubmissions ordersGlobal globalScopeSharedAccount globalScopeMode else []) ++
        if "per_strategy" = scope then perStrategySubmissions (readMode env) ordersPerStrategy else []) := by
  unfold submissions
  rw [List.filter_append, List.filter_append, filter_scope scope_perWorldSubmissions,
    filter_scope fun b hb => (globalSubmissions_cases b hb).1, filter_scope scope_perStrategySubmissions]

end Scopes

/-! ### The endpoint -/

def AllowedByPolicy (env : Env) (payload : RebalanceRequest) (orders : List Order) : Prop :=
  ∃ config, env.policy = some config ∧ config.enabled = true ∧
    SharedAccountPolicy.evaluate env.lower config orders (marksOf payload.positions) payload.totalEquity
      (aggregateNetNotional payload.positions) = none

structure CoversPlan (env : Env) (query : Query) (payload : RebalanceRequest) (plan : PlanPayload)
    (batches : List Batch) : Prop where
  perWorld : normalizeRebalanceMode env payload.mode ≠ "overlay" →
    ∀ key, scopeTotal "per_world" key batches = perWorldCoverage env payload plan key
  overlay : normalizeRebalanceMode env payload.mode = "overlay" → ∃ overlay, payload.overlay = some overlay ∧
    ∀ key, scopeTotal "per_world" key batches =
      roundedAt env.lower (overlayOptions env payload overlay) key (plan.overlayDeltas.getD [])
  shared : flag env query.sharedAccount = true →
    ∀ key, scopeTotal "global" key batches = roundedAt env.lower (globalOptions env payload) key plan.globalDeltas
  strategies : flag env query.perStrategy = true → flag env query.sharedAccount = false →
    ∀ key, scopeTotal "per_strategy" key batches = perStrategyCoverage env payload plan key

structure CoversPerScope (env : Env) (query : Query) (payload : RebalanceRequest) (log : Log)
    (out : Except Exn Response × Log) : Prop where
  covered : ∀ response, out.1 = .ok response → ∃ plan, env.plan = .ok plan ∧
    CoversPlan env query payload plan (out.2.written.drop log.written.length)
  scopes : ∀ b ∈ out.2.written.drop log.written.length, b.scope = "per_world" ∨
    (b.scope = "global" ∧ flag env query.sharedAccount = true) ∨
    (b.scope = "per_strategy" ∧ flag env query.perStrategy = true ∧ flag env query.sharedAccount = false)
  allowed : ∀ b ∈ out.2.written.drop log.written.length, b.scope = "global" → AllowedByPolicy env payload b.orders

section Endpoint

variable {env : Env} {query : Query} {payload : RebalanceRequest} {plan : PlanPayload} {log : Log}
  {perWorld : Dict String (List Order)} {ordersGlobal : Option (List Order)}
  {perStrategy : Option (List StrategyOrder)}

lemma allowedByPolicy_of_check {orders : List Order} (h : checkSharedAccount env payload orders = .ok ()) :
    AllowedByPolicy env payload orders := by
  unfold checkSharedAccount at h
  cases hp : env.policy.filter SharedAccountPolicyConfig.enabled with
  | none =>
    rw [hp] at h
    exact nomatch h
  | some config =>
    obtain ⟨hs, hen⟩ := Option.filter_eq_some_iff.mp hp
    refine ⟨config, hs, hen, ?_⟩
    rw [hp] at h
    cases hev : SharedAccountPolicy.evaluate env.lower config orders (marksOf payload.positions)
        payload.totalEquity (aggregateNetNotional payload.positions) with
    | none => rfl
    | some refusal =>
      simp only [hev] at h
      exact nomatch h

structure Prepared (env : Env) (query : Query) (payload : RebalanceRequest) (plan : PlanPayload)
    (perWorld : Dict String (List Order)) (ordersGlobal : Option (List Order))
    (perStrategy : Option (List StrategyOrder)) : Prop where
  worlds : (if normalizeRebalanceMode env payload.mode = "overlay"
      then ordersFromOverlayDeltas env payload (plan.overlayDeltas.getD [])
      else .ok (ordersPerWorld env payload plan)) = .ok perWorld
  shared : ordersGlobal = if flag env query.sharedAccount = true then
      some (ordersFromSymbolDeltas env.lower (globalOptions env payload) plan.globalDeltas) else none
  strategies : perStrategy = if flag env query.perStrategy = true ∧ flag env query.sharedAccount = false then
      some (ordersPerStrategy env payload plan) else none
  allowed : ∀ orders, ordersGlobal = some orders → AllowedByPolicy env payload orders

lemma prepared_of_ok (h : prepare env query payload plan = .ok (perWorld, ordersGlobal, perStrategy)) :
    Prepared env query payload plan perWorld ordersGlobal perStrategy := by
  obtain ⟨orders, hor, h⟩ := bind_ok.mp h
  by_cases hsh : flag env query.sharedAccount
  · rw [if_pos hsh] at h
    obtain ⟨_, hc, h⟩ := bind_ok.mp h
    have hequ := pure_ok.mp h
    obtain ⟨rfl, rfl, rfl⟩ := hequ
    refine ⟨hor, (if_pos hsh).symm, (if_neg fun hs => ?_).symm, ?_⟩
    · exact Bool.false_ne_true (hs.2.symm.trans hsh)
    · intro orders' ho'
      rw [← Option.some.inj ho']
      exact allowedByPolicy_of_check hc
  · rw [if_neg hsh] at h
    have hns : flag env query.sharedAccount = false := Bool.eq_false_iff.mpr hsh
    by_cases hs : flag env query.perStrategy
    · rw [if_pos hs] at h
      have hequ := pure_ok.mp h
      obtain ⟨rfl, rfl, rfl⟩ := hequ
      exact ⟨hor, (if_neg hsh).symm, (if_pos ⟨hs, hns⟩).symm, fun _ h => nomatch h⟩
    · rw [if_neg hs] at h
      have hequ := pure_ok.mp h
      obtain ⟨rfl, rfl, rfl⟩ := hequ
      exact ⟨hor, (if_neg hsh).symm, (if_neg fun h => hs h.1).symm, fun _ h => nomatch h⟩

lemma exec_postRebalancingExecute (payload : RebalanceRequest) (hs : parseBool env query.submit) (log : Log) :
    (∃ e, (postRebalancingExecute env query payload).exec (perform env) log = (.error e, log)) ∨
    ∃ plan perWorld ordersGlobal perStrategy bs, env.plan = .ok plan ∧
      prepare env query payload plan = .ok (perWorld, ordersGlobal, perStrategy) ∧
      bs = submissions env perWorld ordersGlobal perStrategy (flag env query.sharedAccount)
        (flag env query.sharedAccount) none ∧
      ((postRebalancingExecute env query payload).exec (perform env) log).2.written =
        log.written ++ (send env.lower log.faults bs).batches.map Submission.batch ∧
      ∀ response, ((postRebalancingExecute env query payload).exec (perform env) log).1 = .ok response →
        (send env.lower log.faults bs).outcome = .ok () := by
  unfold postRebalancingExecute
  by_cases hh : normalizeRebalanceMode env payload.mode = "hybrid"
  · rw [if_pos hh]
    exact .inl ⟨_, rfl⟩
  rw [if_neg hh]
  by_cases hg : parseBool env query.submit ∧ env.enforceLiveGuard ∧ query.allowLive ≠ some "true"
  · rw [if_pos hg]
    exact .inl ⟨_, rfl⟩
  rw [if_neg hg]
  simp only [bind_eq]
  have hask : (ask (.postRebalancePlan payload)).exec (perform env) log = (env.plan, log) := exec_perform _ _ _
  cases hplan : env.plan with
  | error e =>
    rw [hplan] at hask
    exact .inl ⟨e, exec_bind_error hask⟩
  | ok plan =>
    rw [hplan] at hask
    rw [exec_bind_ok hask]
    cases hp : prepare env query payload plan with
    | error e => exact .inl ⟨e, rfl⟩
    | ok prepared =>
      obtain ⟨perWorld, ordersGlobal, perStrategy⟩ := prepared
      simp only [ofExcept_ok, bind_ret, hs, if_true]
      cases hw : env.writer with
      | false =>
        refine .inl ⟨.http 503 (.coded "E_COMMITLOG_DISABLED" "commit log unavailable"), ?_⟩
        unfold submitRebalanceOrders
        rw [hw]
        rfl
      | true =>
        obtain ⟨hout, hlog⟩ := sends_submitRebalanceOrders env perWorld ordersGlobal perStrategy
          (flag env query.sharedAccount) (flag env query.sharedAccount) none hw log
        refine .inr ⟨plan, perWorld, ordersGlobal, perStrategy, _, rfl, hp, rfl, ?_⟩
        rw [exec_bind]
        rcases hex : (submitRebalanceOrders env perWorld ordersGlobal perStrategy (flag env query.sharedAccount)
          (flag env query.sharedAccount) none).exec (perform env) log with ⟨r, log'⟩
        rw [hex] at hout hlog
        cases r with
        | error e => exact ⟨congrArg Log.written hlog, fun _ h => nomatch h⟩
        | ok submitted =>
          have hq := fun response : Response => exec_quietly .publishRiskSnapshots (fun _ => ())
            (show (perform env _ log').2 = log' from rfl) submitted response
          simp only [hq]
          exact ⟨congrArg Log.written hlog, fun _ _ => hout.symm⟩

lemma coversPlan_of_prepared (h : Prepared env query payload plan perWorld ordersGlobal perStrategy) :
    CoversPlan env query payload plan (((submissions env perWorld ordersGlobal perStrategy
      (flag env query.sharedAccount) (flag env query.sharedAccount) none).filter fun b => !b.orders.isEmpty).map
        Submission.batch) := by
  have hpw : ∀ key, scopeTotal "per_world" key (((submissions env perWorld ordersGlobal perStrategy
      (flag env query.sharedAccount) (flag env query.sharedAccount) none).filter fun b => !b.orders.isEmpty).map
        Submission.batch) = quantityAt key (perWorld.entries.flatMap Prod.snd) := by
    intro key
    rw [scopeTotal_batches, filter_submissions, if_pos rfl, if_neg (by decide), if_neg (by decide), List.append_nil,
      List.append_nil, orders_perWorldSubmissions]
  refine ⟨?_, ?_, ?_, ?_⟩
  · intro hmode key
    have hw := h.worlds
    rw [if_neg hmode] at hw
    rw [hpw, ← Except.ok.inj hw, quantityAt_ordersPerWorld]
  · intro hmode
    have hw := h.worlds
    rw [if_pos hmode] at hw
    unfold ordersFromOverlayDeltas at hw
    cases hov : payload.overlay with
    | none =>
      rw [hov] at hw
      exact nomatch hw
    | some overlay =>
      rw [hov] at hw
      obtain ⟨worlds, -, hor⟩ := bind_ok.mp hw
      refine ⟨overlay, rfl, ?_⟩
      intro key
      rw [hpw, quantityAt_overlayOrders _ rfl _ _ hor]
      exact zero_add _
  · intro hs key
    rw [scopeTotal_batches, filter_submissions, if_neg (by decide), if_pos rfl, if_neg (by decide), List.append_nil,
      List.nil_append, orders_globalSubmissions, h.shared, if_pos hs, Option.getD_some,
      quantityAt_ordersFromSymbolDeltas rfl]
  · intro hst hs key
    rw [scopeTotal_batches, filter_submissions, if_neg (by decide), if_neg (by decide), if_pos rfl, List.nil_append,
      List.nil_append, quantityAt_perm orders_perStrategySubmissions, h.strategies, if_pos ⟨hst, hs⟩,
      Option.getD_some, quantityAt_ordersPerStrategy]

lemma scope_of_prepared (h : Prepared env query payload plan perWorld ordersGlobal perStrategy) {b : Submission}
    (hb : b ∈ submissions env perWorld ordersGlobal perStrategy (flag env query.sharedAccount)
      (flag env query.sharedAccount) none) : b.scope = "per_world" ∨
      (b.scope = "global" ∧ flag env query.sharedAccount ∧ AllowedByPolicy env payload b.orders) ∨
      (b.scope = "per_strategy" ∧ flag env query.perStrategy ∧ flag env query.sharedAccount = false) := by
  rcases List.mem_append.mp hb with hb | hb
  · exact .inl (scope_perWorldSubmissions b hb)
  rcases List.mem_append.mp hb with hb | hb
  · obtain ⟨hsc, hor⟩ := globalSubmissions_cases b hb
    have hsm := h.shared.symm.trans hor
    split_ifs at hsm with hsh
    exact .inr (.inl ⟨hsc, hsh, h.allowed _ hor⟩)
  · have hs := h.strategies
    split_ifs at hs with hask
    · exact .inr (.inr ⟨scope_perStrategySubmissions b hb, hask⟩)
    · rw [hs] at hb
      exact nomatch hb

end Endpoint

/-- **Each delta once in each scope.** -/
theorem rebalancing_coversPerScope (env : Env) (query : Query) (payload : RebalanceRequest) (log : Log)
    (hsubmit : parseBool env query.submit = true) :
    CoversPerScope env query payload log ((postRebalancingExecute env query payload).exec (perform env) log) := by
  rcases exec_postRebalancingExecute payload hsubmit log with ⟨e, hexec⟩ |
    ⟨plan, perWorld, ordersGlobal, perStrategy, bs, hplan, hprepare, hbs, hwritten, hanswered⟩
  · rw [hexec]
    have hnothing : ∀ b ∈ log.written.drop log.written.length, False := by
      intro b hb
      rw [List.drop_length] at hb
      exact nomatch hb
    exact { covered := nofun, scopes := fun b hb => (hnothing b hb).elim, allowed := fun b hb => (hnothing b hb).elim }
  · have hprepared := prepared_of_ok hprepare
    have hscope : ∀ b ∈ (send env.lower log.faults bs).batches.map Submission.batch, b.scope = "per_world" ∨
        (b.scope = "global" ∧ flag env query.sharedAccount ∧ AllowedByPolicy env payload b.orders) ∨
        (b.scope = "per_strategy" ∧ flag env query.perStrategy ∧ flag env query.sharedAccount = false) := by
      intro batch hbatch
      obtain ⟨b, hb, rfl⟩ := List.mem_map.mp hbatch
      rw [send_batches] at hb
      have hmem := (of_mem_beforeShadow (mem_accepted hb)).1
      rw [hbs] at hmem
      exact scope_of_prepared hprepared hmem
    refine ⟨?_, ?_, ?_⟩
    · intro response hresponse
      refine ⟨plan, hplan, ?_⟩
      rw [hwritten, List.drop_left, send_batches_of_ok (hanswered response hresponse), hbs]
      exact coversPlan_of_prepared hprepared
    · rw [hwritten, List.drop_left]
      intro b hb
      exact (hscope b hb).imp_right fun h => h.imp_left fun hglobal => ⟨hglobal.1, hglobal.2.1⟩
    · rw [hwritten, List.drop_left]
      intro b hb hglobal
      rcases hscope b hb with h | h | h
      · rw [hglobal] at h
        exact absurd h (by decide)
      · exact h.2.2
      · rw [hglobal] at h
        exact absurd h.1 (by decide)

/-! ### Worlds that offset each other -/

def binance (symbol : String) (deltaQty : ℚ) : SymbolDelta := ⟨symbol, deltaQty, some "binance"⟩

def offsettingPlan : PlanPayload where
  schemaVersion := 1
  perWorld := (Dict.empty.set "w1" ⟨1, Dict.empty, [binance "BTC" 10]⟩).set "w2" ⟨1, Dict.empty, [binance "BTC" (-4)]⟩
  globalDeltas := [binance "BTC" 6]
  overlayDeltas := none

/-- A gateway with a limit on the gross notional of shared accounts. -/
def offsettingWorlds : Env where
  lower := .ascii
  enforceLiveGuard := false
  policy := some ⟨true, some 8, none, none⟩
  venuePolicies := Dict.empty
  writer := true
  database := false
  plan := .ok offsettingPlan
  worlds _ := .ok none
  audit _ := .ok ()
  riskHub := .ok ()

def oneBitcoin : RebalanceRequest where
  totalEquity := 100
  worldAllocBefore := Dict.empty
  worldAllocAfter := Dict.empty
  positions := [⟨"w1", "s1", "BTC", 1, 1, some "binance"⟩]
  strategyAllocBeforeTotal := none
  strategyAllocAfterTotal := none
  minTradeNotional := none
  lotSizeBySymbol := none
  mode := none
  overlay := none
  schemaVersion := none

def submitShared : Query := ⟨some "true", some "true", none, none⟩

def executeOffsetting : Except Exn Response × Log :=
  (postRebalancingExecute offsettingWorlds submitShared oneBitcoin).exec (perform offsettingWorlds) ⟨[], []⟩

theorem rebalancing_coversPerScope_offsettingWorlds : executeOffsetting.1.isOk = true ∧
    CoversPerScope offsettingWorlds submitShared oneBitcoin ⟨[], []⟩ executeOffsetting :=
  ⟨by decide +kernel, rebalancing_coversPerScope offsettingWorlds submitShared oneBitcoin ⟨[], []⟩ (by decide +kernel)⟩

/-- Six are planned, twelve are written: six per world and six over all worlds. The policy was given the order
over all worlds only; it would have refused those of the worlds. -/
theorem offsetting_worlds_written_beside_netted : executeOffsetting.1.isOk = true ∧
      quantityAt (some "binance", "BTC") (executeOffsetting.2.written.flatMap Batch.orders) = 12 ∧
      perWorldCoverage offsettingWorlds oneBitcoin offsettingPlan (some "binance", "BTC") = 6 ∧
      roundedAt .ascii (globalOptions offsettingWorlds oneBitcoin) (some "binance", "BTC") offsettingPlan.globalDeltas = 6 ∧
      (∃ b ∈ executeOffsetting.2.written, ∃ o ∈ b.orders,
        o ∉ ordersFromSymbolDeltas .ascii (globalOptions offsettingWorlds oneBitcoin) offsettingPlan.globalDeltas) ∧
      ¬AllowedByPolicy offsettingWorlds oneBitcoin
        ((executeOffsetting.2.written.filter fun b => b.scope = "per_world").flatMap Batch.orders) := by
  refine ⟨by decide +kernel, by decide +kernel, by decide +kernel, by decide +kernel, by decide +kernel, ?_⟩
  rintro ⟨config, hconfig, -, hallowed⟩
  rw [← Option.some.inj hconfig] at hallowed
  revert hallowed
  decide +kernel

end Qmtl.Gateway.Rebalancing

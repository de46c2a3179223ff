import Qmtl.WorldService.Allocation

/-! What `upsert_allocations` persists and publishes, against what `POST /rebalancing/plan` computes from the
request that is stored with it. -/

namespace Qmtl.WorldService.Allocation

open Lib WorldService

/-! ### The two pipelines -/

def PlansAlike (plan : PlanPayload) (answer : Except Exn PlanPayload) : Prop :=
  ∃ response, answer = .ok response ∧ response.perWorld = plan.perWorld ∧
    response.globalDeltas = plan.globalDeltas ∧ response.overlayDeltas = plan.overlayDeltas

lemma groupPositions_entries_eq_nil {positions : List PositionSlice}
    (h : (groupPositions positions).entries = []) : positions = [] := by
  rcases List.eq_nil_or_concat positions with rfl | ⟨front, pos, rfl⟩
  · rfl
  · exfalso
    have hkey : pos.worldId ∈ (groupPositions (front ++ [pos])).keys := by
      unfold groupPositions
      rw [List.foldl_append]
      exact Dict.mem_keys_set.mpr (.inl rfl)
    rw [← List.concat_eq_append, Dict.keys, h] at hkey
    exact List.not_mem_nil hkey

variable {ctx : MultiWorldRebalanceContext}

lemma multiPlan_perWorld_eq_empty : (multiPlan ctx).perWorld = Dict.empty ↔ ctx.positions = [] := by
  constructor
  · intro h
    refine groupPositions_entries_eq_nil ?_
    have hen := congrArg Dict.entries h
    exact List.map_eq_nil_iff.mp hen
  · intro h
    unfold multiPlan
    rw [h]
    rfl

lemma multiPlan_globalDeltas (h : ctx.positions = []) : (multiPlan ctx).globalDeltas = [] := by
  unfold multiPlan
  rw [h]
  rfl

lemma overlayPlan_nil (before after : Ratios) (overlay : OverlayConfig) (scales scales' : Option (Dict String ℚ)) :
    overlayPlan [] before after overlay scales = overlayPlan [] before after overlay scales' := by
  have hw : overlayWorld overlay .empty before scales = overlayWorld overlay .empty before scales' := by
    funext world
    unfold overlayWorld
    simp only [Dict.get?_empty, Option.getD_none, if_true]
  unfold overlayPlan
  simp [hw]

lemma planOverlay_nil (mode : String) (overlay : Option OverlayConfig) (before after : Ratios)
    (scales scales' : Option (Dict String ℚ)) :
    planOverlay mode overlay [] before after scales = planOverlay mode overlay [] before after scales' := by
  unfold planOverlay
  cases overlay with
  | none => rfl
  | some overlay => simp [overlayPlan_nil before after overlay scales scales']

variable {alpha compat : Bool} {s : Store} {strategyBefore : Dict String Ratios}

variable {before : Ratios} {lower : Lower}

lemma buildAllocationExecutionPlan_eq_ok {payload : UpsertRequest}
    {plan : PlanPayload} {request : RebalanceRequest}
    (h : buildAllocationExecutionPlan lower payload before strategyBefore = .ok (plan, request)) :
    ∃ deltas, request = requestOf payload before strategyBefore ∧
      planOverlay (modeOf lower payload.mode) payload.overlay payload.positions before payload.worldAllocations
        (some (scalesOf (multiPlan (contextOf request)))) = .ok deltas ∧
      plan = ⟨defaultSchemaVersion, (multiPlan (contextOf request)).perWorld, (multiPlan (contextOf request)).globalDeltas,
        deltas⟩ := by
  have hctx : ∀ {x : Except Exn (Option (List SymbolDelta))} {f : Option (List SymbolDelta) → PlanPayload × RebalanceRequest},
      (do let deltas ← x; return f deltas) = .ok (plan, request) → ∃ deltas, x = .ok deltas ∧ f deltas = (plan, request) := by
    intro x f hx
    cases x with
    | error e => exact nomatch hx
    | ok deltas => exact ⟨deltas, rfl, Except.ok.inj hx⟩
  obtain ⟨deltas, hd, heq⟩ := hctx h
  obtain ⟨hp, hr⟩ := Prod.mk.inj heq
  subst hr
  exact ⟨deltas, rfl, hd, hp.symm⟩

lemma postRebalancePlan_requestOf {payload : UpsertRequest}
    (hmode : modeOf lower payload.mode ≠ "hybrid") (r : RebalanceRequest)
    (hr : r = requestOf payload before strategyBefore) : postRebalancePlan lower compat alpha r =
      if alpha then .error (.http 400 "schema_version>=2 required when alpha_metrics_required is enabled")
      else if modeOf lower payload.mode = "overlay" then
        (planOverlay (modeOf lower payload.mode) payload.overlay payload.positions before payload.worldAllocations none).map
          fun deltas => ⟨1, Dict.empty, [], deltas⟩ else
        (planOverlay (modeOf lower payload.mode) payload.overlay payload.positions before payload.worldAllocations
          (some (scalesOf (multiPlan (contextOf r))))).map
          fun deltas => ⟨1, (multiPlan (contextOf r)).perWorld, (multiPlan (contextOf r)).globalDeltas, deltas⟩ := by
  subst hr
  unfold postRebalancePlan
  have hv : ∀ c : Bool, min (max ((requestOf payload before strategyBefore).schemaVersion.getD 1) 1)
      (if c then 2 else 1) = 1 := by
    intro c
    cases c <;> rfl
  have hm : modeOf lower (requestOf payload before strategyBefore).mode = modeOf lower payload.mode := rfl
  simp only [hm, if_neg hmode]
  cases alpha with
  | true => rfl
  | false =>
    rw [if_neg fun h => Bool.false_ne_true h.1, if_neg Bool.false_ne_true, hv]
    dsimp only [requestOf]
    by_cases hov : modeOf lower payload.mode = "overlay"
    · cases planOverlay (modeOf lower payload.mode) payload.overlay payload.positions before
        payload.worldAllocations none <;> rfl
    · cases planOverlay (modeOf lower payload.mode) payload.overlay payload.positions before
        payload.worldAllocations _ <;> rfl

/-- **The pipelines compared**, for a request the service supports. -/
theorem plansAlike_iff {payload : UpsertRequest} {plan : PlanPayload}
    {request : RebalanceRequest} (hmode : modeOf lower payload.mode ≠ "hybrid")
    (hplan : buildAllocationExecutionPlan lower payload before strategyBefore = .ok (plan, request)) :
    PlansAlike plan (postRebalancePlan lower compat alpha request) ↔
      alpha = false ∧ (modeOf lower payload.mode ≠ "overlay" ∨ payload.positions = []) := by
  obtain ⟨deltas, hreq, hd, rfl⟩ := buildAllocationExecutionPlan_eq_ok hplan
  rw [postRebalancePlan_requestOf hmode request hreq]
  have hpos : (contextOf request).positions = payload.positions := by rw [hreq]; rfl
  cases alpha with
  | true =>
    refine iff_of_false ?_ fun h => nomatch h.1
    rintro ⟨response, h, -⟩
    exact nomatch h
  | false =>
    by_cases hov : modeOf lower payload.mode = "overlay"
    · rw [if_neg (by decide), if_pos hov]
      constructor
      · rintro ⟨response, hr, hper, -⟩
        refine ⟨rfl, .inr ?_⟩
        rw [← hpos]
        refine multiPlan_perWorld_eq_empty.mp ?_
        cases hov' : planOverlay (modeOf lower payload.mode) payload.overlay payload.positions before
            payload.worldAllocations none with
        | error e =>
          rw [hov'] at hr
          exact nomatch hr
        | ok deltas' =>
          rw [hov'] at hr
          rw [← Except.ok.inj hr] at hper
          exact hper.symm
      · rintro ⟨-, h | h⟩
        · exact absurd hov h
        · rw [h] at hd ⊢
          rw [planOverlay_nil _ _ _ _ _ none] at hd
          rw [hd]
          rw [← hpos] at h
          exact ⟨_, rfl, (multiPlan_perWorld_eq_empty.mpr h).symm, (multiPlan_globalDeltas h).symm, rfl⟩
    · rw [if_neg (by decide), if_neg hov, hd]
      exact iff_of_true ⟨_, rfl, rfl, rfl, rfl⟩ ⟨rfl, .inl hov⟩

/-! ### What is persisted -/

abbrev alone : (o : Op) → Store × List (Option Exn) → Except Exn o.Ans × Store × List (Option Exn) :=
  Coro.choosing (perform 0) none

/-- Nothing is persisted or published. -/
structure Untouched (s s' : Store) : Prop where
  runs : s'.runs = s.runs
  plans : s'.plans = s.plans
  published : s'.published = s.published

structure Persists (env : Env) (payload : UpsertRequest) (plan : PlanPayload) (request : RebalanceRequest)
    (s s' : Store) : Prop where
  run : ∃ executed, s'.runs.get? payload.runId = some ⟨env.hash payload, plan, request, executed⟩
  plans : ∃ ps, s'.plans = s.plans ++ ps ∧ ∀ p ∈ ps, p = plan
  published : ∃ es, s'.published = s.published ++ es ∧ ∀ e ∈ es, e ∈ plan.perWorld.entries

/-- What `upsert_allocations` leaves of a run that is new. -/
def Outcome (env : Env) (payload : UpsertRequest) (s s' : Store) : Prop :=
  Untouched s s' ∨ modeOf env.lower payload.mode ≠ "hybrid" ∧ ∃ plan request,
    (∃ before strategyBefore, buildAllocationExecutionPlan env.lower payload before strategyBefore = .ok (plan, request)) ∧
    Persists env payload plan request s s'

/-- The operations behind the record of a run. -/
def AfterRecord (payload : UpsertRequest) (plan : PlanPayload) : Op → Prop
  | .setAllocations _ _ => True
  | .recordPlan p => p = plan
  | .publish worldId p => (worldId, p) ∈ plan.perWorld.entries
  | .execute _ _ => True
  | .markExecuted p => p = payload
  | .release _ => True
  | _ => False

variable {env : Env} {payload : UpsertRequest} {plan : PlanPayload} {request : RebalanceRequest}

lemma Persists.step {o : Op} (ho : AfterRecord payload plan o) (s' : Store × List (Option Exn))
    (h : Persists env payload plan request s s'.1) : Persists env payload plan request s (alone o s').2.1 := by
  obtain ⟨s', choices⟩ := s'
  show Persists env payload plan request s (perform 0 o (choices.headD none) s').2
  obtain ⟨ps, hps, hall⟩ := h.plans
  obtain ⟨es, hes, hmem⟩ := h.published
  cases o with
  | getRun => exact ho.elim
  | acquire => exact ho.elim
  | getStates => exact ho.elim
  | recordRun => exact ho.elim
  | release worldId => exact ⟨h.run, h.plans, h.published⟩
  | setAllocations a st => exact ⟨h.run, h.plans, h.published⟩
  | recordPlan p =>
    refine ⟨h.run, ⟨ps ++ [p], ?_, ?_⟩, h.published⟩
    · show s'.plans ++ [p] = _
      rw [hps, List.append_assoc]
    · intro q hq
      rcases List.mem_append.mp hq with hq | hq
      · exact hall q hq
      · rw [List.mem_singleton.mp hq]
        exact ho
  | publish worldId p =>
    cases hc : choices.headD none with
    | some e => exact h
    | none =>
      refine ⟨h.run, h.plans, ⟨es ++ [(worldId, p)], ?_, ?_⟩⟩
      · show s'.published ++ [(worldId, p)] = _
        rw [hes, List.append_assoc]
      · intro e he
        rcases List.mem_append.mp he with he | he
        · exact hmem e he
        · rw [List.mem_singleton.mp he]
          exact ho
  | execute p r =>
    cases hc : choices.headD none with
    | some e => exact ⟨h.run, h.plans, h.published⟩
    | none => exact ⟨h.run, h.plans, h.published⟩
  | markExecuted p =>
    obtain rfl : p = payload := ho
    obtain ⟨executed, hrun⟩ := h.run
    refine ⟨⟨true, ?_⟩, h.plans, h.published⟩
    show (markAllocationRunExecuted s'.runs p.runId).get? p.runId = _
    rw [markAllocationRunExecuted, hrun]
    exact Dict.get?_set_self _ _ _

lemma uses_afterRecord : Uses (AfterRecord payload plan) (do
    ask (.setAllocations payload.worldAllocations payload.strategyAllocAfterTotal)
    ask (.recordPlan plan)
    if env.bus then
      Coro.forEach (fun e => (ask (.publish e.1 e.2)).tryExcept fun _ => Coro.ret ()) plan.perWorld.entries : Task Unit) := by
  refine Uses.bind (Uses.perform trivial) fun _ => Uses.bind (Uses.perform rfl) fun _ => ?_
  cases env.bus with
  | false => exact Uses.ret _
  | true =>
    refine Coro.uses_forEach ?_
    intro e he
    exact Uses.tryExcept (Uses.perform he) fun _ => Uses.ret _

lemma uses_maybeExecute : Uses (AfterRecord payload plan) (maybeExecute env payload request) := by
  unfold maybeExecute
  cases payload.execute with
  | false => exact Uses.ret _
  | true =>
    refine Uses.bind ?_ fun _ => Uses.bind (Uses.perform rfl) fun _ => Uses.ret _
    unfold executeRebalance
    cases env.executor with
    | false => exact Uses.raise _
    | true => exact Uses.tryExcept (Uses.perform trivial) fun _ => Uses.raise _

lemma wp_persist (plan : PlanPayload) (request : RebalanceRequest) (t : Store × List (Option Exn))
    (h : Untouched s t.1) :
    Coro.wp alone (do
      persistAllocationPlan env payload (env.hash payload) plan request
      let executed ← maybeExecute env payload request
      return (executed, plan)) (fun _ t' => Persists env payload plan request s t'.1) t := by
  unfold persistAllocationPlan
  simp only [Coro.bind_eq]
  rw [Coro.bind_assoc, ask, Coro.wp_perform_bind rfl]
  refine Coro.wp_of_uses (Uses.bind uses_afterRecord fun _ => Uses.bind uses_maybeExecute fun _ => Uses.ret _)
    (fun o ho t' ht => Persists.step ho t' ht) ?_
  exact
    { run := ⟨false, Dict.get?_set_self _ _ _⟩
      plans := ⟨[], by rw [List.append_nil]; exact h.plans, fun _ hp => nomatch hp⟩
      published := ⟨[], by rw [List.append_nil]; exact h.published, fun _ he => nomatch he⟩ }

lemma wp_lockWorlds {α : Type} {body : Task α} {A : Store × List (Option Exn) → Prop}
    {Q : Except Exn α → Store × List (Option Exn) → Prop} (hac : ∀ wid t, A t → A (alone (.acquire wid) t).2)
    (hr : ∀ wid r t, Q r t → Q r (alone (.release wid) t).2) (hb : ∀ t, A t → Coro.wp alone body Q t)
    (wids : List String) : ∀ t, A t → Coro.wp alone (lockWorlds body wids) Q t := by
  induction wids with
  | nil => exact hb
  | cons wid wids ih =>
    intro t ht
    rw [lockWorlds, ask, Coro.wp_perform_bind rfl, Coro.wp_tryFinally]
    refine Coro.wp_mono (ih _ (hac wid t ht)) ?_
    intro r t' hQ
    exact hr wid r t' hQ

lemma wp_planAndExecute {worldIds : List String} (hmode : modeOf env.lower payload.mode ≠ "hybrid")
    (t : Store × List (Option Exn)) (h : Untouched s t.1) :
    Coro.wp alone (planAndExecute env payload (env.hash payload) worldIds)
      (fun _ t' => Outcome env payload s t'.1) t := by
  unfold planAndExecute
  simp only [Coro.bind_eq]
  rw [ask, Coro.wp_perform_bind rfl]
  generalize buildAllocationContext payload worldIds _ = context
  cases hplan : buildAllocationExecutionPlan env.lower payload context.1 context.2 with
  | error e => exact .inl h
  | ok planned =>
    refine Coro.wp_mono (wp_persist planned.1 planned.2 (alone (.getStates worldIds) t).2 h) ?_
    intro _ t' ht'
    exact .inr ⟨hmode, planned.1, planned.2, ⟨context.1, context.2, hplan⟩, ht'⟩

lemma Outcome.release {wid : String} {t : Store × List (Option Exn)} (h : Outcome env payload s t.1) :
    Outcome env payload s (alone (.release wid) t).2.1 := by
  rcases h with h | ⟨hmode, plan, request, hplan, h⟩
  · exact .inl ⟨h.runs, h.plans, h.published⟩
  · exact .inr ⟨hmode, plan, request, hplan, ⟨h.run, h.plans, h.published⟩⟩

lemma wp_upsertAllocations {choices : List (Option Exn)} (hnew : s.runs.get? payload.runId = none) :
    Coro.wp alone (upsertAllocations env payload) (fun _ t => Outcome env payload s t.1) (s, choices) := by
  have hsm : Outcome env payload s s := .inl ⟨rfl, rfl, rfl⟩
  unfold upsertAllocations
  simp only [Coro.bind_eq]
  cases validateAllocationPayload payload with
  | error e => exact hsm
  | ok _ =>
    cases hs : ensureSupportedMode env payload with
    | error e => exact hsm
    | ok _ =>
      have hmode : modeOf env.lower payload.mode ≠ "hybrid" := by
        intro h
        unfold ensureSupportedMode at hs
        rw [if_pos h] at hs
        exact nomatch hs
      show Coro.wp alone ((Coro.perform (.getRun payload)).bind _) _ _
      rw [Coro.wp_perform_bind rfl, hnew]
      rw [Coro.wp_bind]
      refine Coro.wp_mono (wp_lockWorlds (A := fun t => Untouched s t.1) (Q := fun _ t => Outcome env payload s t.1)
        (fun wid t h => ⟨h.runs, h.plans, h.published⟩) (fun wid r t h => h.release) (wp_planAndExecute hmode) _ _ ?_) ?_
      · exact ⟨rfl, rfl, rfl⟩
      · intro r t h
        cases r with
        | ok _ => exact h
        | error _ => exact h

lemma persists_of_run {s' : Store} {choices rest : List (Option Exn)} {r : Except Exn Response} {run : AllocationRun}
    (hnew : s.runs.get? payload.runId = none)
    (hex : (upsertAllocations env payload).exec alone (s, choices) = (r, s', rest))
    (hrun : s'.runs.get? payload.runId = some run) : modeOf env.lower payload.mode ≠ "hybrid" ∧
      (∃ before strategyBefore,
        buildAllocationExecutionPlan env.lower payload before strategyBefore = .ok (run.plan, run.request)) ∧
      Persists env payload run.plan run.request s s' := by
  have hot : Outcome env payload s s' := (wp_upsertAllocations hnew).of_exec hex
  rcases hot with h | ⟨hmode, plan, request, hplan, h⟩
  · rw [h.runs, hnew] at hrun
    exact nomatch hrun
  · obtain ⟨executed, hr'⟩ := h.run
    cases hr'.symm.trans hrun
    exact ⟨hmode, hplan, h⟩

/-! ### The two compared -/

/-- The stored run, the recorded plans and the published ones say what the endpoint answers to the request. -/
structure StoredAlike (env : Env) (compat alpha : Bool) (run : AllocationRun) (s s' : Store) : Prop where
  stored : PlansAlike run.plan (postRebalancePlan env.lower compat alpha run.request)
  plans : ∃ ps, s'.plans = s.plans ++ ps ∧ ∀ p ∈ ps, PlansAlike p (postRebalancePlan env.lower compat alpha run.request)
  published : ∃ es, s'.published = s.published ++ es ∧
    ∀ e ∈ es, ∃ response, postRebalancePlan env.lower compat alpha run.request = .ok response ∧ e ∈ response.perWorld.entries
  underlying : modeOf env.lower run.request.mode = "overlay" → run.plan.perWorld.entries = [] ∧ s'.published = s.published

lemma Persists.storedAlike {run : AllocationRun} {s' : Store} (h : Persists env payload run.plan run.request s s')
    (hal : PlansAlike run.plan (postRebalancePlan env.lower compat alpha run.request))
    (hov : modeOf env.lower run.request.mode = "overlay" → run.plan.perWorld.entries = []) :
    StoredAlike env compat alpha run s s' where
  stored := hal
  plans := by
    obtain ⟨ps, hps, hall⟩ := h.plans
    refine ⟨ps, hps, ?_⟩
    intro p hp
    rw [hall p hp]
    exact hal
  published := by
    obtain ⟨es, hes, hmem⟩ := h.published
    obtain ⟨response, hr, hper, -⟩ := hal
    refine ⟨es, hes, ?_⟩
    intro e he
    refine ⟨response, hr, ?_⟩
    rw [hper]
    exact hmem e he
  underlying := by
    intro hmode
    obtain ⟨es, hes, hmem⟩ := h.published
    have hn : es = [] := by
      refine List.eq_nil_iff_forall_not_mem.mpr ?_
      intro e he
      have := hmem e he
      rw [hov hmode] at this
      exact nomatch this
    rw [hn, List.append_nil] at hes
    exact ⟨hov hmode, hes⟩

/-- **When the service plans as the endpoint does.** Outside overlay mode, or where there is no position
to scale, and where the endpoint accepts the version that is stored. -/
theorem upsert_storedAlike_iff (env : Env) (compat alpha : Bool) (payload : UpsertRequest) (s s' : Store)
    (choices rest : List (Option Exn)) (r : Except Exn Response) (run : AllocationRun)
    (hnew : s.runs.get? payload.runId = none)
    (hexec : (upsertAllocations env payload).exec alone (s, choices) = (r, s', rest))
    (hrun : s'.runs.get? payload.runId = some run) : StoredAlike env compat alpha run s s' ↔
      alpha = false ∧ (modeOf env.lower payload.mode ≠ "overlay" ∨ payload.positions = []) := by
  obtain ⟨hmode, ⟨before, strategyBefore, hplan⟩, hpersists⟩ := persists_of_run hnew hexec hrun
  have hiff : PlansAlike run.plan (postRebalancePlan env.lower compat alpha run.request) ↔ _ := plansAlike_iff hmode hplan
  rw [← hiff]
  constructor
  · exact StoredAlike.stored
  · intro halike
    refine hpersists.storedAlike halike ?_
    intro hover
    obtain ⟨-, hcond⟩ := hiff.mp halike
    obtain ⟨deltas, hreq, -, hp⟩ := buildAllocationExecutionPlan_eq_ok hplan
    have hpos : payload.positions = [] := by
      rw [hreq] at hover
      exact hcond.resolve_left fun h => h hover
    have hempty : (multiPlan (contextOf run.request)).perWorld = .empty := by
      refine multiPlan_perWorld_eq_empty.mpr ?_
      rw [hreq]
      exact hpos
    rw [hp, hempty]
    rfl

def halving (mode : Option String) : UpsertRequest where
  runId := "r"
  totalEquity := 1000
  worldAllocations := Dict.empty.set "w" (1 / 2)
  positions := [⟨"w", "s", "ES", 10, 100, none⟩]
  strategyAllocAfterTotal := none
  strategyAllocBeforeTotal := none
  minTradeNotional := none
  lotSizeBySymbol := none
  execute := false
  mode := mode
  overlay := some ⟨some (Dict.empty.set "w" "ES_PERP"), some (Dict.empty.set "ES_PERP" 100), none⟩

def plainEnv : Env := ⟨.ascii, fun _ => "etag", fun _ => by decide, true, true⟩

def fullyAllocated : Store := ⟨Dict.empty, Dict.empty.set "w" ⟨1, none⟩, [], [], Dict.empty, .empty⟩

def halved (mode : Option String) : Store :=
  ((upsertAllocations plainEnv (halving mode)).exec alone (fullyAllocated, [])).2.1

/-- In scaling mode the run is stored as the endpoint plans it. -/
theorem upsert_storedAlike_scaling :
    ∃ run, (halved none).runs.get? "r" = some run ∧ StoredAlike plainEnv true false run fullyAllocated (halved none) := by
  have hsome : ((halved none).runs.get? "r").isSome := by decide +kernel
  obtain ⟨run, hrun⟩ := Option.isSome_iff_exists.mp hsome
  refine ⟨run, hrun, ?_⟩
  exact (upsert_storedAlike_iff plainEnv true false (halving none) fullyAllocated _ [] _ _ run rfl rfl hrun).mpr
    ⟨rfl, .inl (by decide)⟩

/-- In overlay mode the halving of the position is stored and published beside the overlay. -/
theorem overlay_upsert_scales_positions : ∃ run, (halved (some "overlay")).runs.get? "r" = some run ∧
      ¬StoredAlike plainEnv true false run fullyAllocated (halved (some "overlay")) ∧
      run.plan.perWorld.entries.map (fun e => (e.1, e.2.deltas)) = [("w", [⟨"ES", -5, none⟩])] ∧
      run.plan.overlayDeltas = some [⟨"ES_PERP", -5, none⟩] ∧
      (halved (some "overlay")).published.map (fun e => (e.1, e.2.deltas)) = [("w", [⟨"ES", -5, none⟩])] := by
  have hsome : ((halved (some "overlay")).runs.get? "r").any (fun run =>
      decide (modeOf plainEnv.lower run.request.mode = "overlay" ∧
        run.plan.perWorld.entries.map (fun e => (e.1, e.2.deltas)) = [("w", [⟨"ES", -5, none⟩])] ∧
        run.plan.overlayDeltas = some [⟨"ES_PERP", -5, none⟩])) := by
    decide +kernel
  obtain ⟨run, hrun, hcheck⟩ := (Option.any_eq_true _ _).mp hsome
  obtain ⟨hmode, hdeltas, hoverlay⟩ := of_decide_eq_true hcheck
  refine ⟨run, hrun, ?_, hdeltas, hoverlay, by decide +kernel⟩
  intro h
  rw [(h.underlying hmode).1] at hdeltas
  exact nomatch hdeltas

end Qmtl.WorldService.Allocation

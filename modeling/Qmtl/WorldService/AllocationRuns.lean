import Qmtl.Lib.Exclusive
import Qmtl.WorldService.AllocationPlan

/-! Any number of calls of `upsert_allocations`, interleaved at their awaits. -/

namespace Qmtl.WorldService.Allocation

open Lib

/-! ### The system -/

abbrev Calls := Config Op Op.Ans Exn Response Store UpsertRequest

abbrev Choice := Event (Option Exn) Empty UpsertRequest

def lockIsFree (c : Calls) : Choice → Bool
  | .resume i _ =>
    match c.calls[i]? with
    | some (_, .await (.acquire worldId) _) => (c.store.locks.get? worldId).isNone
    | _ => true
  | _ => true

def system (env : Env) : System Op Op.Ans Exn Response Store (Option Exn) Empty UpsertRequest where
  code := upsertAllocations env
  perform := perform
  disturb x := nomatch x
  may := lockIsFree

structure StoredRuns where
  runs : Dict String AllocationRun
  etags : ∀ e ∈ runs.entries, e.2.etag ≠ ""

def start (stored : StoredRuns) (states : Dict String AllocationState) : Calls where
  store :=
    { runs := stored.runs
      states := states
      plans := []
      published := []
      locks := Dict.empty
      history :=
        { persisted := stored.runs.entries.map fun e => (e.1, e.2.etag)
          executed := (stored.runs.entries.filter fun e => e.2.executed).map Prod.fst
          changed := [] } }
  calls := []

def isLookup : Op → Bool
  | .getRun _ => true
  | _ => false

def conflict : Exn := .http 409 "run_id already used with a different payload"

def looksUpAlone (c : Calls) (ev : Choice) : Bool := c.entersAlone UpsertRequest.runId isLookup ev

/-! ### One run -/

def etags (runId : String) (s : Store) : List String :=
  (s.history.persisted.filter fun e => e.1 = runId).map Prod.snd

def executions (runId : String) (s : Store) : ℕ := s.history.executed.count runId

structure OncePerRun (s : Store) : Prop where
  persisted : ∀ runId, (etags runId s).length ≤ 1
  executed : ∀ runId, executions runId s ≤ 1

structure View where
  run : Option AllocationRun
  etags : List String
  executions : ℕ

def view (runId : String) (s : Store) : View := ⟨s.runs.get? runId, etags runId s, executions runId s⟩

def View.Settled : View → Prop
  | ⟨none, es, n⟩ => es = [] ∧ n = 0
  | ⟨some run, es, n⟩ => run.etag ≠ "" ∧ es = [run.etag] ∧ n ≤ if run.executed then 1 else 0

/-- During a call with the hash `etag`. -/
structure View.Sound (etag : String) (v : View) : Prop where
  etags : v.etags = [] ∨ v.etags = [etag]
  executions : v.executions ≤ 1

variable {o : Op} {s : Store} {v : View}

lemma View.Settled.once (h : v.Settled) : v.etags.length ≤ 1 ∧ v.executions ≤ 1 := by
  obtain ⟨_ | run, es, n⟩ := v
  · obtain ⟨rfl, rfl⟩ := h
    exact ⟨Nat.zero_le _, Nat.zero_le _⟩
  · obtain ⟨-, rfl, hn⟩ := h
    refine ⟨le_rfl, hn.trans ?_⟩
    split <;> decide

lemma View.Sound.once {etag : String} (h : v.Sound etag) : v.etags.length ≤ 1 ∧ v.executions ≤ 1 := by
  refine ⟨?_, h.executions⟩
  rcases h.etags with het | het
  · rw [het]
    exact Nat.zero_le _
  · rw [het]
    exact le_rfl

structure Confined (i : ℕ) (payload : UpsertRequest) (s s' : Store) : Prop where
  view : ∀ runId, runId ≠ payload.runId → view runId s' = view runId s
  persisted : s.history.persisted <+: s'.history.persisted
  changed : ∀ j ∈ s'.history.changed, j ∈ s.history.changed ∨ j = i

/-- The operations of a call with this payload. -/
def ForRun (payload : UpsertRequest) : Op → Prop
  | .getRun p => p = payload
  | .recordRun p _ _ _ => p = payload
  | .execute p _ => p = payload
  | .markExecuted p => p = payload
  | _ => True

/-- The operations that touch no run. -/
def Idle : Op → Prop
  | .acquire _ => True
  | .release _ => True
  | .getStates _ => True
  | .setAllocations _ _ => True
  | .recordPlan _ => True
  | .publish _ _ => True
  | _ => False

variable {env : Env} {payload : UpsertRequest} {i : ℕ}

lemma get?_markAllocationRunExecuted (runs : Dict String AllocationRun) (runId runId' : String) :
    (markAllocationRunExecuted runs runId).get? runId' =
      if runId' = runId then (runs.get? runId').map fun run => { run with executed := true } else runs.get? runId' := by
  unfold markAllocationRunExecuted
  by_cases hid : runId' = runId
  · subst hid
    rw [if_pos rfl]
    cases hrun : runs.get? runId' with
    | none => exact hrun
    | some run => exact Dict.get?_set_self _ _ _
  · rw [if_neg hid]
    cases runs.get? runId with
    | none => rfl
    | some run => exact Dict.get?_set_ne _ _ hid

lemma view_recordRun (runId etag : String) (plan : PlanPayload) (request : RebalanceRequest) (fault : Option Exn)
    (s : Store) : view runId (perform i (.recordRun payload etag plan request) fault s).2 =
      if runId = payload.runId then ⟨some ⟨etag, plan, request, false⟩, (view runId s).etags ++ [etag], (view runId s).executions⟩
      else view runId s := by
  show View.mk ((s.runs.set payload.runId _).get? runId)
    (((s.history.persisted ++ [(payload.runId, etag)]).filter fun e => e.1 = runId).map Prod.snd) _ = _
  rw [List.filter_append, List.map_append, Dict.get?_set]
  by_cases hid : runId = payload.runId
  · subst hid
    rw [if_pos rfl, if_pos rfl, List.filter_singleton, decide_eq_true rfl]
    rfl
  · rw [if_neg hid, if_neg hid, List.filter_singleton, decide_eq_false fun h => hid h.symm]
    rw [Bool.cond_false, List.map_nil, List.append_nil]
    rfl

lemma view_execute (runId : String) (request : RebalanceRequest) (s : Store) :
    view runId (perform i (.execute payload request) none s).2 =
      if runId = payload.runId then { view runId s with executions := (view runId s).executions + 1 } else view runId s := by
  show View.mk _ _ ((s.history.executed ++ [payload.runId]).count runId) = _
  rw [List.count_append, List.count_singleton]
  by_cases hid : runId = payload.runId
  · subst hid
    rw [if_pos rfl, if_pos (beq_self_eq_true _)]
    rfl
  · rw [if_neg hid, if_neg fun h => hid (beq_iff_eq.mp h).symm]
    rfl

lemma view_markExecuted (runId : String) (fault : Option Exn) (s : Store) :
    view runId (perform i (.markExecuted payload) fault s).2 = if runId = payload.runId then
        { view runId s with run := (view runId s).run.map fun run => { run with executed := true } }
      else view runId s := by
  show View.mk ((markAllocationRunExecuted s.runs payload.runId).get? runId) _ _ = _
  rw [get?_markAllocationRunExecuted]
  by_cases hid : runId = payload.runId
  · rw [if_pos hid, if_pos hid]
    rfl
  · rw [if_neg hid, if_neg hid]
    rfl

lemma view_idle (ho : Idle o) (runId : String) (fault : Option Exn) (s : Store) :
    view runId (perform i o fault s).2 = view runId s := by
  cases o with
  | publish wid plan => cases fault <;> rfl
  | acquire wid => rfl
  | release wid => rfl
  | getStates wids => rfl
  | setAllocations a st => rfl
  | recordPlan plan => rfl
  | getRun p => exact ho.elim
  | recordRun p etag plan request => exact ho.elim
  | execute p request => exact ho.elim
  | markExecuted p => exact ho.elim

/-- **What one operation can do.** -/
theorem confined_perform (ho : ForRun payload o) (fault : Option Exn) (s : Store) :
    Confined i payload s (perform i o fault s).2 := by
  have hc : ∀ j ∈ s.history.changed ++ [i], j ∈ s.history.changed ∨ j = i := by
    intro j hj
    exact (List.mem_append.mp hj).imp id List.mem_singleton.mp
  have hs : ∀ j ∈ s.history.changed, j ∈ s.history.changed ∨ j = i := fun j hj => .inl hj
  cases o with
  | getRun p => exact ⟨fun _ _ => rfl, List.prefix_rfl, hs⟩
  | acquire wid => exact ⟨fun _ _ => rfl, List.prefix_rfl, hs⟩
  | release wid => exact ⟨fun _ _ => rfl, List.prefix_rfl, hs⟩
  | getStates wids => exact ⟨fun _ _ => rfl, List.prefix_rfl, hs⟩
  | setAllocations a st => exact ⟨fun _ _ => rfl, List.prefix_rfl, hc⟩
  | recordPlan plan => exact ⟨fun _ _ => rfl, List.prefix_rfl, hc⟩
  | publish wid plan =>
    cases fault with
    | none => exact ⟨fun _ _ => rfl, List.prefix_rfl, hc⟩
    | some e => exact ⟨fun _ _ => rfl, List.prefix_rfl, hs⟩
  | recordRun p etag plan request =>
    obtain rfl : p = payload := ho
    refine ⟨?_, List.prefix_append _ _, hc⟩
    intro runId hne
    rw [view_recordRun, if_neg hne]
  | execute p request =>
    obtain rfl : p = payload := ho
    cases fault with
    | some e => exact ⟨fun _ _ => rfl, List.prefix_rfl, hs⟩
    | none =>
      refine ⟨?_, List.prefix_rfl, hc⟩
      intro runId hne
      rw [view_execute, if_neg hne]
  | markExecuted p =>
    obtain rfl : p = payload := ho
    refine ⟨?_, List.prefix_rfl, hc⟩
    intro runId hne
    rw [view_markExecuted, if_neg hne]

/-! ### One call -/

def protocol (env : Env) (i : ℕ) (payload : UpsertRequest) : Protocol Op Op.Ans Exn Store (Option Exn) where
  perform := perform i
  Ok _ _ _ := True
  J _ := True
  Rely s s' := view payload.runId s' = view payload.runId s
  Guar := Confined i payload
  At _ s := (view payload.runId s).Sound (env.hash payload)
  rely_refl _ := rfl
  rely_trans h h' := h'.trans h

/-- What a call that works on its run leaves of it. -/
structure Leaves (env : Env) (payload : UpsertRequest) (s : Store) : Prop where
  settled : (view payload.runId s).Settled
  sound : (view payload.runId s).Sound (env.hash payload)

lemma ForRun.of_idle (ho : Idle o) : ForRun payload o := by
  cases o <;> trivial

lemma at_of_view (hs : view payload.runId s = v) (hv : v.Sound (env.hash payload)) :
    (protocol env i payload).At o s := by
  show (view payload.runId s).Sound _
  rw [hs]
  exact hv

lemma safe_idle {α : Type} {m : Task α} (hm : Uses Idle m) (hv : v.Sound (env.hash payload))
    (hs : view payload.runId s = v) :
    Safe (protocol env i payload) (fun _ s' => view payload.runId s' = v) m s := by
  refine Uses.safe (K := fun s' => view payload.runId s' = v) ?_ ?_ hm hs
  · intro s s' hr hK
    exact hr.trans hK
  · intro o ho s _ hK
    refine ⟨at_of_view hK hv, ?_⟩
    intro fault _
    exact ⟨trivial, confined_perform (.of_idle ho) fault s, (view_idle ho _ _ _).trans hK⟩

lemma sound_none : View.Sound (env.hash payload) ⟨none, [], 0⟩ := ⟨.inl rfl, Nat.zero_le _⟩

lemma sound_some (run : AllocationRun) {n : ℕ} (hn : n ≤ 1) :
    View.Sound (env.hash payload) ⟨some run, [env.hash payload], n⟩ :=
  ⟨.inr rfl, hn⟩

lemma leaves_none (hs : view payload.runId s = ⟨none, [], 0⟩) : Leaves env payload s where
  settled := hs ▸ ⟨rfl, rfl⟩
  sound := hs ▸ sound_none

variable {run : AllocationRun}

lemma leaves_some {n : ℕ} (het : run.etag = env.hash payload)
    (hn : n ≤ if run.executed then 1 else 0) (hs : view payload.runId s = ⟨some run, [env.hash payload], n⟩) :
    Leaves env payload s := by
  have hone : n ≤ 1 := by
    refine hn.trans ?_
    split <;> decide
  exact
    { settled := hs ▸ ⟨het ▸ env.hash_ne payload, by rw [het], hn⟩
      sound := hs ▸ sound_some run hone }

variable {request : RebalanceRequest}

lemma safe_execute {α : Type} {x : α}
    (het : run.etag = env.hash payload) (hs : view payload.runId s = ⟨some run, [env.hash payload], 0⟩) :
    Safe (protocol env i payload) (fun _ => Leaves env payload)
      ((executeRebalance env payload request).bind fun _ => (ask (.markExecuted payload)).bind fun _ => Coro.ret x) s := by
  rw [Safe.bind_iff]
  unfold executeRebalance
  cases env.executor with
  | false => exact leaves_some het (Nat.zero_le _) hs
  | true =>
    refine Safe.tryExcept_iff.2 (Safe.perform_iff.2 ?_)
    intro s₁ hr _
    have hs₁ : view payload.runId s₁ = ⟨some run, [env.hash payload], 0⟩ := hr.trans hs
    refine ⟨at_of_view hs₁ (sound_some run (Nat.zero_le _)), ?_⟩
    intro fault _
    refine ⟨trivial, confined_perform (o := .execute payload request) rfl fault s₁, ?_⟩
    cases fault with
    | some e => exact leaves_some het (Nat.zero_le _) hs₁
    | none =>
      refine Safe.bind_iff.2 (Safe.perform_iff.2 ?_)
      intro s₂ hr₂ _
      have hs₂ : view payload.runId s₂ = ⟨some run, [env.hash payload], 1⟩ := by
        refine hr₂.trans ?_
        show view payload.runId (perform i (.execute payload request) none s₁).2 = _
        rw [view_execute, if_pos rfl, hs₁]
      refine ⟨at_of_view hs₂ (sound_some run le_rfl), ?_⟩
      intro fault _
      refine ⟨trivial, confined_perform (o := .markExecuted payload) rfl fault s₂, ?_⟩
      have hs₃ : view payload.runId (perform i (.markExecuted payload) fault s₂).2 =
          ⟨some { run with executed := true }, [env.hash payload], 1⟩ := by
        rw [view_markExecuted, if_pos rfl, hs₂]
        rfl
      refine leaves_some ?_ ?_ hs₃
      · exact het
      · exact le_rfl

lemma uses_persistRest {plan : PlanPayload} : Uses Idle (do
    ask (.setAllocations payload.worldAllocations payload.strategyAllocAfterTotal)
    ask (.recordPlan plan)
    if env.bus then
      Coro.forEach (fun e => (ask (.publish e.1 e.2)).tryExcept fun _ => Coro.ret ()) plan.perWorld.entries : Task Unit) := by
  refine Uses.bind (Uses.perform trivial) fun _ => Uses.bind (Uses.perform trivial) fun _ => ?_
  cases env.bus with
  | false => exact Uses.ret _
  | true => exact Coro.uses_forEach fun e _ => Uses.tryExcept (Uses.perform trivial) fun _ => Uses.ret _

lemma safe_persist {plan : PlanPayload} (hs : view payload.runId s = ⟨none, [], 0⟩) :
    Safe (protocol env i payload) (fun _ => Leaves env payload) (do
      persistAllocationPlan env payload (env.hash payload) plan request
      let executed ← maybeExecute env payload request
      return (executed, plan)) s := by
  unfold persistAllocationPlan
  simp only [Coro.bind_eq]
  rw [Coro.bind_assoc]
  refine Safe.bind_iff.2 (Safe.perform_iff.2 ?_)
  intro s₁ hr _
  have hs₁ : view payload.runId s₁ = ⟨none, [], 0⟩ := hr.trans hs
  refine ⟨at_of_view hs₁ sound_none, ?_⟩
  intro fault _
  refine ⟨trivial, confined_perform (o := .recordRun payload _ plan request) rfl fault s₁, ?_⟩
  have hs₂ : view payload.runId (perform i (.recordRun payload (env.hash payload) plan request) fault s₁).2 =
      ⟨some ⟨env.hash payload, plan, request, false⟩, [env.hash payload], 0⟩ := by
    rw [view_recordRun, if_pos rfl, hs₁]
    rfl
  refine Safe.bind_iff.2 ((safe_idle uses_persistRest (sound_some _ (Nat.zero_le _)) hs₂).mono ?_)
  intro r s₃ hs₃
  have hl : Leaves env payload s₃ := leaves_some rfl (Nat.zero_le _) hs₃
  cases r with
  | error e => exact hl
  | ok _ =>
    unfold maybeExecute
    cases payload.execute with
    | false => exact hl
    | true =>
      simp only [Bool.not_true, Bool.false_eq_true, if_false, Coro.bind_eq, Coro.bind_assoc, Coro.pure_eq, Coro.bind_ret]
      exact safe_execute rfl hs₃

lemma safe_lockWorlds {α : Type} {body : Task α}
    (hb : ∀ s, view payload.runId s = ⟨none, [], 0⟩ → Safe (protocol env i payload) (fun _ => Leaves env payload) body s)
    (wids : List String) : ∀ s, view payload.runId s = ⟨none, [], 0⟩ →
      Safe (protocol env i payload) (fun _ => Leaves env payload) (lockWorlds body wids) s := by
  induction wids with
  | nil => exact hb
  | cons wid wids ih =>
    intro s hs
    refine Safe.bind_iff.2 ((safe_idle (Uses.perform (F := Idle) (o := .acquire wid) trivial) sound_none hs).mono ?_)
    intro r s₁ hs₁
    cases r with
    | error e => exact leaves_none hs₁
    | ok _ =>
      refine Safe.tryFinally_iff.2 ((ih s₁ hs₁).mono ?_)
      intro r s₂ hs₂
      refine (safe_idle (Uses.perform (F := Idle) (o := .release wid) trivial) hs₂.sound rfl).mono ?_
      intro u s₃ hs₃
      have hl : Leaves env payload s₃ := ⟨hs₃ ▸ hs₂.settled, hs₃ ▸ hs₂.sound⟩
      cases u <;> exact hl

lemma safe_planAndExecute {worldIds : List String} (s : Store) (hs : view payload.runId s = ⟨none, [], 0⟩) :
    Safe (protocol env i payload) (fun _ => Leaves env payload) (planAndExecute env payload (env.hash payload) worldIds) s := by
  refine Safe.bind_iff.2
    ((safe_idle (Uses.perform (F := Idle) (o := .getStates worldIds) trivial) sound_none hs).mono ?_)
  intro r s₁ hs₁
  cases r with
  | error e => exact leaves_none hs₁
  | ok states =>
    show Safe _ _ (Coro.bind (Coro.ofExcept (buildAllocationExecutionPlan env.lower payload
      (buildAllocationContext payload worldIds states).1 (buildAllocationContext payload worldIds states).2)) _) s₁
    cases buildAllocationExecutionPlan env.lower payload (buildAllocationContext payload worldIds states).1
        (buildAllocationContext payload worldIds states).2 with
    | error e => exact leaves_none hs₁
    | ok planned => exact safe_persist hs₁

def afterLookup (env : Env) (payload : UpsertRequest) : Option AllocationRun → Task Response
  | some run => handleExisting env payload (env.hash payload) run
  | none => do
    let worldIds := payload.worldAllocations.keys.insertionSort (· ≤ ·)
    let (executed, plan) ← lockWorlds (planAndExecute env payload (env.hash payload) worldIds) worldIds
    return ⟨payload.runId, env.hash payload, executed, plan⟩

lemma afterLookup_of_ne (hne : run.etag ≠ "") (hother : run.etag ≠ env.hash payload) :
    afterLookup env payload (some run) = Coro.raise conflict :=
  if_pos ⟨hne, hother⟩

lemma safe_afterLookup (hs : (view payload.runId s).Settled) :
    Safe (protocol env i payload) (fun _ s => (view payload.runId s).Settled)
      (afterLookup env payload (s.runs.get? payload.runId)) s := by
  have hst := hs
  unfold view at hs
  cases hrun : s.runs.get? payload.runId with
  | none =>
    rw [hrun] at hs
    obtain ⟨het, hex⟩ := hs
    have hv : view payload.runId s = ⟨none, [], 0⟩ := by
      unfold view
      rw [hrun, het, hex]
    refine Safe.bind_iff.2 ((safe_lockWorlds safe_planAndExecute _ s hv).mono ?_)
    intro r s' hs'
    cases r <;> exact hs'.settled
  | some run =>
    rw [hrun] at hs
    obtain ⟨hne, het, hex⟩ := hs
    by_cases hother : run.etag = env.hash payload
    · show Safe _ _ (handleExisting env payload (env.hash payload) run) s
      unfold handleExisting
      rw [if_neg fun h => h.2 hother]
      by_cases hexe : payload.execute ∧ !run.executed
      · rw [if_pos hexe]
        have hz : executions payload.runId s = 0 := by
          have hnot : run.executed = false := by simpa using hexe.2
          simpa [hnot] using hex
        refine (safe_execute hother ?_).mono fun _ _ h => h.settled
        unfold view
        rw [hrun, het, hz, hother]
      · rw [if_neg hexe]
        exact hst
    · rw [afterLookup_of_ne hne hother]
      exact hst

/-! ### All calls -/

structure Accepted (env : Env) (payload : UpsertRequest) : Prop where
  valid : validateAllocationPayload payload = .ok ()
  supported : ensureSupportedMode env payload = .ok ()

lemma upsertAllocations_cases (env : Env) (payload : UpsertRequest) :
    (¬Accepted env payload ∧ ∃ e, upsertAllocations env payload = .raise e) ∨
    (Accepted env payload ∧ upsertAllocations env payload = (ask (.getRun payload)).bind (afterLookup env payload)) := by
  unfold upsertAllocations
  cases hvalid : validateAllocationPayload payload with
  | error e =>
    refine .inl ⟨?_, e, rfl⟩
    intro h
    rw [h.valid] at hvalid
    exact nomatch hvalid
  | ok _ =>
    cases hs : ensureSupportedMode env payload with
    | error e =>
      refine .inl ⟨?_, e, rfl⟩
      intro h
      rw [h.supported] at hs
      exact nomatch hs
    | ok _ =>
      refine .inr ⟨⟨hvalid, hs⟩, congrArg (Coro.bind (ask (.getRun payload))) ?_⟩
      funext run
      cases run <;> rfl

lemma upsertAllocations_await {k : Except Exn o.Ans → Task Response} (h : upsertAllocations env payload = .await o k) :
    ∃ k', Coro.await (.getRun payload) k' = Coro.await o k ∧
      ∀ r, k' r = (Coro.ofExcept r).bind (afterLookup env payload) := by
  rcases upsertAllocations_cases env payload with ⟨-, e, he⟩ | ⟨-, hl⟩
  · rw [he] at h
    exact nomatch h
  · exact ⟨_, hl.symm.trans h, fun _ => rfl⟩

lemma uses_afterLookup (run : Option AllocationRun) :
    Uses (fun o => isLookup o = false) (afterLookup env payload run) := by
  have hask : ∀ {o : Op}, isLookup o = false → Uses (fun o => isLookup o = false) (ask o) :=
    fun h => Uses.perform (F := fun o => isLookup o = false) h
  have hex : ∀ request, Uses (fun o => isLookup o = false) (executeRebalance env payload request) := by
    intro request
    unfold executeRebalance
    cases env.executor with
    | false => exact Uses.raise _
    | true => exact Uses.tryExcept (hask rfl) fun _ => Uses.raise _
  have hm : ∀ request, Uses (fun o => isLookup o = false) (maybeExecute env payload request) := by
    intro request
    unfold maybeExecute
    cases payload.execute with
    | false => exact Uses.ret _
    | true => exact Uses.bind (hex _) fun _ => Uses.bind (hask rfl) fun _ => Uses.ret _
  have hp : ∀ etag plan request, Uses (fun o => isLookup o = false)
      (persistAllocationPlan env payload etag plan request) := by
    intro etag plan request
    refine Uses.bind (hask rfl) fun _ => Uses.mono ?_ uses_persistRest
    intro o ho
    cases o <;> first | rfl | exact ho.elim
  have hplan : ∀ etag wids, Uses (fun o => isLookup o = false) (planAndExecute env payload etag wids) := by
    intro etag wids
    refine Uses.bind (hask rfl) fun _ => Uses.bind (Uses.ofExcept _) fun _ => ?_
    exact Uses.bind (hp _ _ _) fun _ => Uses.bind (hm _) fun _ => Uses.ret _
  have hl : ∀ etag wids' wids, Uses (fun o => isLookup o = false)
      (lockWorlds (planAndExecute env payload etag wids') wids) := by
    intro etag wids' wids
    induction wids with
    | nil => exact hplan _ _
    | cons wid wids ih => exact Uses.bind (hask rfl) fun _ => Uses.tryFinally ih fun _ => hask rfl
  cases run with
  | none => exact Uses.bind (hl _ _ _) fun _ => Uses.ret _
  | some run =>
    show Uses _ (handleExisting env payload (env.hash payload) run)
    unfold handleExisting
    by_cases hother : run.etag ≠ "" ∧ run.etag ≠ env.hash payload
    · rw [if_pos hother]
      exact Uses.raise _
    · rw [if_neg hother]
      by_cases hexe : payload.execute ∧ !run.executed
      · rw [if_pos hexe]
        exact Uses.bind (hex _) fun _ => Uses.bind (hask rfl) fun _ => Uses.ret _
      · rw [if_neg hexe]
        exact Uses.ret _

lemma excludes (env : Env) : System.Excludes (system env) UpsertRequest.runId isLookup (protocol env)
    fun runId s => (view runId s).Settled where
  perform _ _ := rfl
  ok _ _ _ _ _ := trivial
  free _ _ _ := trivial
  code payload o k h := by
    obtain ⟨k', heq, hk'⟩ := upsertAllocations_await h
    cases heq
    refine ⟨rfl, ?_⟩
    intro r
    rw [hk']
    exact Uses.bind (Uses.ofExcept _) uses_afterLookup
  enter i payload o k e s h hinv := by
    obtain ⟨k', heq, hk'⟩ := upsertAllocations_await h
    cases heq
    refine ⟨confined_perform (o := .getRun payload) rfl e s, ?_⟩
    rw [hk']
    exact safe_afterLookup hinv
  others _ _ _ _ _ _ hguar hkey := hguar.view _ hkey.symm
  frame _ _ k s s' hguar hkey hinv := by
    rw [hguar.view k hkey.symm]
    exact hinv
  calm x _ := nomatch x

lemma settled_start (stored : StoredRuns) (states : Dict String AllocationState) (runId : String) :
    (view runId (start stored states).store).Settled := by
  have het : etags runId (start stored states).store =
      ((stored.runs.get? runId).map AllocationRun.etag).toList := by
    show ((stored.runs.entries.map fun e => (e.1, e.2.etag)).filter fun e => e.1 = runId).map Prod.snd = _
    rw [List.filter_map, List.map_map]
    show (stored.runs.entries.filter fun e => e.1 = runId).map (fun e => e.2.etag) = _
    rw [stored.runs.entries_filter_key]
    cases stored.runs.get? runId <;> rfl
  have hex : executions runId (start stored states).store =
      if (stored.runs.get? runId).any AllocationRun.executed then 1 else 0 := by
    show List.countP _ ((stored.runs.entries.filter fun e => e.2.executed).map Prod.fst) = _
    rw [List.countP_map, List.countP_filter, List.countP_eq_length_filter]
    have hf : (stored.runs.entries.filter fun e => ((fun id => id == runId) ∘ Prod.fst) e && e.2.executed) =
        (stored.runs.entries.filter fun e => e.1 = runId).filter fun e => e.2.executed := by
      rw [List.filter_filter]
      refine List.filter_congr ?_
      intro e _
      exact Bool.and_comm _ _
    rw [hf, stored.runs.entries_filter_key]
    cases stored.runs.get? runId with
    | none => rfl
    | some run => cases h : run.executed <;> simp [h]
  unfold view
  rw [het, hex]
  show View.Settled ⟨stored.runs.get? runId, _, _⟩
  cases hrun : stored.runs.get? runId with
  | none => exact ⟨rfl, rfl⟩
  | some run => exact ⟨stored.etags _ (Dict.get?_eq_some.mp hrun), rfl, le_rfl⟩

variable {stored : StoredRuns} {states : Dict String AllocationState} {c c' : Calls}

abbrev Apart (env : Env) (c : Calls) : Prop :=
  System.Excluded (system env) UpsertRequest.runId isLookup (protocol env) (fun runId s => (view runId s).Settled) c

lemma apart_of_run (h : (system env).Run (fun c ev => looksUpAlone c ev) (start stored states) c) : Apart env c :=
  System.Excluded.of_run (excludes env) (fun _ _ h => h) (.init rfl (settled_start stored states)) h

lemma sound_of_inside (h : Apart env c) {m : Task Response} (hi : c.calls[i]? = some (payload, m))
    (hm : m.inside isLookup) : (view payload.runId c.store).Sound (env.hash payload) := by
  have hs := h.safe i payload m hi hm
  cases m with
  | ret _ => exact nomatch hm
  | raise _ => exact nomatch hm
  | await o k => exact (hs c.store rfl trivial).1

lemma oncePerRun_of_apart (h : Apart env c) : OncePerRun c.store := by
  have hvw : ∀ runId, (view runId c.store).etags.length ≤ 1 ∧ (view runId c.store).executions ≤ 1 := by
    intro runId
    by_cases hv : c.vacant UpsertRequest.runId isLookup runId
    · exact (h.inv runId hv).once
    · rw [Config.vacant_iff] at hv
      push Not at hv
      obtain ⟨i, payload, m, hi, rfl, hm⟩ := hv
      exact (sound_of_inside h hi (by simpa using hm)).once
  exact ⟨fun runId => (hvw runId).1, fun runId => (hvw runId).2⟩

def ChangedInside (c : Calls) : Prop :=
  ∀ i ∈ c.store.history.changed, ∃ payload m, c.calls[i]? = some (payload, m) ∧ Uses (fun o => isLookup o = false) m

lemma ChangedInside.step (h : ChangedInside c) (hc : Apart env c) {ev : Choice} (hp : looksUpAlone c ev)
    (hs : (system env).step c ev = some c') : ChangedInside c' := by
  intro j hj
  obtain ⟨-, ⟨a, rfl, rfl⟩ | ⟨i, e, a, o, k, rfl, hi, rfl⟩ | ⟨x, -⟩⟩ := System.step_cases hs
  · obtain ⟨payload, m, hget, hu⟩ := h j hj
    exact ⟨payload, m, by rw [List.getElem?_append_left (List.getElem?_eq_some_iff.mp hget).1]; exact hget, hu⟩
  · obtain ⟨hg, -⟩ := hc.resume (excludes env) hp hi
    have hnew : (c.calls.set i (a, k ((system env).perform i o e c.store).1))[i]? =
        some (a, k ((system env).perform i o e c.store).1) :=
      List.getElem?_set_self (List.getElem?_eq_some_iff.mp hi).1
    by_cases hij : j = i
    · subst hij
      exact ⟨a, _, hnew, hc.uses_rest (excludes env) hi _⟩
    · obtain ⟨payload, m, hget, hu⟩ := h j ((hg.changed j hj).resolve_right hij)
      refine ⟨payload, m, ?_, hu⟩
      rw [List.getElem?_set_ne fun h => hij h.symm]
      exact hget
  · exact nomatch x

def firstEtag (runId : String) (s : Store) : Option String := (etags runId s).head?

lemma firstEtag_of_prefix {s' : Store} (h : s.history.persisted <+: s'.history.persisted) {runId etag : String}
    (he : firstEtag runId s = some etag) : firstEtag runId s' = some etag := by
  obtain ⟨es, hes⟩ := h
  unfold firstEtag etags at he ⊢
  rw [← hes, List.filter_append, List.map_append, List.head?_append, he]
  rfl

/-- A call with another hash than the persisted one changes nothing from then on, and is answered 409. -/
def RefusesOthers (env : Env) (c c' : Calls) : Prop :=
  ∀ i payload m etag, c'.calls[i]? = some (payload, m) →
    (∀ a m', c.calls[i]? = some (a, m') → m'.suspended = true) →
    firstEtag payload.runId c.store = some etag → etag ≠ env.hash payload →
    i ∉ c'.store.history.changed ∧ (Accepted env payload → m.suspended = false → m = .raise conflict)

structure Barred (env : Env) (i : ℕ) (c c' : Calls) : Prop where
  first : ∀ runId etag, firstEtag runId c.store = some etag → firstEtag runId c'.store = some etag
  calls : ∀ payload m etag, c'.calls[i]? = some (payload, m) → firstEtag payload.runId c.store = some etag →
    etag ≠ env.hash payload → i ∉ c'.store.history.changed ∧ (m = upsertAllocations env payload ∨ m = .raise conflict)

lemma Barred.refl (hc : Apart env c) (hch : ChangedInside c)
    (hi : ∀ a m', c.calls[i]? = some (a, m') → m'.suspended) : Barred env i c c := by
  refine ⟨fun _ _ h => h, ?_⟩
  intro payload m etag hget hfirst hne
  -- it cannot be inside, for its run is persisted with another hash
  have hout : ¬Uses (fun o => isLookup o = false) m := by
    intro hu
    have hs := hi payload m hget
    cases m with
    | ret _ => cases hs
    | raise _ => cases hs
    | await o k =>
      obtain ⟨het, -⟩ := sound_of_inside hc hget (by rw [Coro.inside, hu.1]; rfl)
      have hh : (etags payload.runId c.store).head? = some etag := hfirst
      rcases het with het | het
      · rw [show etags payload.runId c.store = [] from het] at hh
        cases hh
      · rw [show etags payload.runId c.store = [env.hash payload] from het] at hh
        exact hne (Option.some.inj hh).symm
  refine ⟨?_, .inl ((hc.once i payload m hget).resolve_right hout)⟩
  intro hmem
  obtain ⟨payload', m', hg', hu⟩ := hch i hmem
  rw [hget] at hg'
  cases hg'
  exact hout hu

lemma Barred.step {c₁ c₂ : Calls} (h : Barred env i c c₁) (hc : Apart env c₁) (hch : ChangedInside c₁)
    {ev : Choice} (hp : looksUpAlone c₁ ev) (hs : (system env).step c₁ ev = some c₂) : Barred env i c c₂ := by
  obtain ⟨-, ⟨a, rfl, rfl⟩ | ⟨j, e, a, o, k, rfl, hj, rfl⟩ | ⟨x, -⟩⟩ := System.step_cases hs
  · refine ⟨h.first, ?_⟩
    intro payload m etag hget hfirst hne
    rcases System.getElem?_start hget with hget | ⟨rfl, rfl, rfl⟩
    · exact h.calls payload m etag hget hfirst hne
    · -- a new call has changed nothing
      refine ⟨?_, .inl rfl⟩
      intro hmem
      obtain ⟨payload', m', hg', -⟩ := hch _ hmem
      exact absurd (List.getElem?_eq_some_iff.mp hg').1 (lt_irrefl _)
  · obtain ⟨hg, -⟩ := hc.resume (excludes env) hp hj
    refine ⟨fun runId etag he => firstEtag_of_prefix hg.persisted (h.first runId etag he), ?_⟩
    intro payload m etag hget hfirst hne
    rcases System.getElem?_resume hget with ⟨rfl, rfl, rfl⟩ | ⟨hji, hget⟩
    · obtain ⟨hnot, hcd | hr⟩ := h.calls payload _ etag hj hfirst hne
      · obtain ⟨k', heq, hk'⟩ := upsertAllocations_await hcd.symm
        cases heq
        refine ⟨hnot, .inr ?_⟩
        -- nobody is at work on the run, so it is settled with its first etag
        have hst := hc.inv _ (Config.vacant_of_entersAlone hp hj rfl)
        have hh : (etags payload.runId c₁.store).head? = some etag := h.first _ _ hfirst
        show k' (.ok (c₁.store.runs.get? payload.runId)) = _
        rw [hk']
        unfold view at hst
        cases hrun : c₁.store.runs.get? payload.runId with
        | none =>
          rw [hrun] at hst
          obtain ⟨het, -⟩ := hst
          rw [het] at hh
          exact nomatch hh
        | some run =>
          rw [hrun] at hst
          obtain ⟨hre, het, -⟩ := hst
          rw [het] at hh
          cases hh
          exact afterLookup_of_ne hre hne
      · exact nomatch hr
    · obtain ⟨hnot, hm⟩ := h.calls payload m etag hget hfirst hne
      refine ⟨?_, hm⟩
      intro hmem
      exact (hg.changed i hmem).elim hnot hji.symm
  · exact nomatch x

/-- **Each run at most once**, while no call looks a run up that another one is at work on. -/
theorem run_oncePerRun (env : Env) (stored : StoredRuns) (states : Dict String AllocationState) (c c' : Calls)
    (h : (system env).Run (fun c ev => looksUpAlone c ev = true) (start stored states) c)
    (h' : (system env).Run (fun c ev => looksUpAlone c ev = true) c c') :
    OncePerRun c'.store ∧ RefusesOthers env c c' := by
  have hapart : ∀ {c}, (system env).Run (fun c ev => looksUpAlone c ev) (start stored states) c → Apart env c :=
    apart_of_run
  have hchanged : ∀ {c}, (system env).Run (fun c ev => looksUpAlone c ev) (start stored states) c →
      ChangedInside c := by
    intro c h
    induction h with
    | init => exact fun i hi => nomatch hi
    | next hr hp hs ih => exact ih.step (hapart hr) hp hs
  refine ⟨oncePerRun_of_apart (hapart (h.trans h')), ?_⟩
  intro i payload m etag hget hi hfirst hne
  have hbarred : Barred env i c c' := by
    clear hget
    induction h' with
    | init => exact .refl (hapart h) (hchanged h) hi
    | next hr hp hs ih => exact ih.step (hapart (h.trans hr)) (hchanged (h.trans hr)) hp hs
  obtain ⟨hnot, hm⟩ := hbarred.calls payload m etag hget hfirst hne
  refine ⟨hnot, ?_⟩
  intro haccepted hended
  rcases hm with rfl | hm
  · rcases upsertAllocations_cases env payload with ⟨hnot', -⟩ | ⟨-, hlookup⟩
    · exact absurd haccepted hnot'
    · rw [hlookup] at hended
      exact nomatch hended
  · exact hm

def executing : UpsertRequest := { halving none with execute := true }

def storedElsewhere : StoredRuns where
  runs := Dict.empty.set "q" ⟨"other", ⟨1, Dict.empty, [], none⟩, requestOf executing Dict.empty Dict.empty, true⟩
  etags := by decide

def allEnded (c : Calls) : Bool := c.calls.all fun e => !e.2.suspended

def answered409 : UpsertRequest × Task Response → Bool
  | (_, .raise (.http status _)) => status == 409
  | _ => false

/-- Two calls at the same time, one for the stored run and one for a new one: the first is refused, the
second persisted and executed. -/
theorem run_oncePerRun_two_calls : ∃ c', allEnded c' = true ∧ c'.calls.map answered409 = [true, false] ∧
      c'.store.history.executed = ["q", "r"] ∧ OncePerRun c'.store ∧
      RefusesOthers plainEnv (start storedElsewhere Dict.empty) c' := by
  obtain ⟨c', hrun, hcheck⟩ := exists_run (system plainEnv).step (start storedElsewhere .empty) looksUpAlone
    ([.start { executing with runId := "q" }, .start executing, .resume 1 none, .resume 0 none] ++
      List.replicate 9 (.resume 1 none))
    (fun c => decide (allEnded c ∧ c.calls.map answered409 = [true, false] ∧
      c.store.history.executed = ["q", "r"])) (by decide +kernel)
  obtain ⟨hended, hanswers, hexecuted⟩ := of_decide_eq_true hcheck
  obtain ⟨honce, hrefuses⟩ := run_oncePerRun plainEnv storedElsewhere .empty _ c' .init hrun
  exact ⟨c', hended, hanswers, hexecuted, honce, hrefuses⟩

def nothingStored : StoredRuns := ⟨Dict.empty, fun _ h => nomatch h⟩

/-- Both calls have looked the run up before the first of them takes the lock: the run is persisted and
executed twice. -/
theorem two_lookups_execute_twice :
    ∃ c, (system plainEnv).Run (fun _ _ => True) (start nothingStored Dict.empty) c ∧ allEnded c = true ∧
      etags "r" c.store = ["etag", "etag"] ∧ executions "r" c.store = 2 ∧ ¬OncePerRun c.store := by
  obtain ⟨c, hrun, hcheck⟩ := exists_run (system plainEnv).step (start nothingStored .empty) (fun _ _ => true)
    ([.start executing, .start executing, .resume 0 none, .resume 1 none] ++ List.replicate 9 (.resume 0 none) ++
      List.replicate 9 (.resume 1 none))
    (fun c => decide (allEnded c ∧ etags "r" c.store = ["etag", "etag"] ∧ executions "r" c.store = 2))
    (by decide +kernel)
  obtain ⟨hended, hetags, hexecutions⟩ := of_decide_eq_true hcheck
  refine ⟨c, hrun.mono fun _ _ _ => trivial, hended, hetags, hexecutions, ?_⟩
  intro h
  have := h.executed "r"
  omega

end Qmtl.WorldService.Allocation

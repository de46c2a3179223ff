import Qmtl.WorldService.ApplyStages

/-!
How a run of `apply` ends: what the two `except` branches undo, and every way out of `apply`.
-/

namespace Qmtl.WorldService

open Lib Lib.Coro

variable {env : Env} {ctx : ApplyContext}

/-! ### Restoring the edges -/

def restoreCall (e : (String × String) × Option Override) : Call :=
  match e.2 with
  | none => .deleteEdgeOverride e.1
  | some previous => .upsertEdgeOverride e.1 previous.active previous.reason

/-- The edges of `done` are restored, and nothing else has changed. -/
structure EdgesRestored (o₀ : Dict (String × String) Override) (done : List ((String × String) × Option Override))
    (s s' : Sys) : Prop where
  memory : s'.memory = s.memory
  world : s'.world = { s.world with overrides := s'.world.overrides }
  overrides : ∀ k, s'.world.overrides.get? k =
    if k ∈ done.map Prod.fst then o₀.get? k else s.world.overrides.get? k

lemma EdgesRestored.refl (o₀ : Dict (String × String) Override) (s : Sys) : EdgesRestored o₀ [] s s where
  memory := rfl
  world := rfl
  overrides := fun _ => rfl

variable {o₀ : Dict (String × String) Override} {s s₁ : Sys}

lemma EdgesRestored.snoc {done : List ((String × String) × Option Override)} {e : (String × String) × Option Override}
    {s₂ : Sys} (h : EdgesRestored o₀ done s s₁) (he : e.2 = o₀.get? e.1)
    (hw : s₂.world = ((restoreCall e).effect env s₁.world s₁.memory).2.1)
    (hm : s₂.memory = ((restoreCall e).effect env s₁.world s₁.memory).2.2) :
    EdgesRestored o₀ (done ++ [e]) s s₂ := by
  obtain ⟨key, saved⟩ := e
  have hov : ∀ k, s₂.world.overrides.get? k = if k = key then o₀.get? k else s₁.world.overrides.get? k := by
    intro k
    simp only at he
    cases saved with
    | none =>
      simp only [restoreCall, Call.effect] at hw
      rw [hw, Dict.get?_erase]
      by_cases hk : k = key
      · rw [if_pos hk, if_pos hk, hk, he]
      · rw [if_neg hk, if_neg hk]
    | some previous =>
      simp only [restoreCall, Call.effect, Override.make_self] at hw
      rw [hw, Dict.get?_set]
      by_cases hk : k = key
      · rw [if_pos hk, if_pos hk, hk, he]
      · rw [if_neg hk, if_neg hk]
  have hf : s₂.world = { s₁.world with overrides := s₂.world.overrides } ∧ s₂.memory = s₁.memory := by
    cases saved <;> simp only [restoreCall, Call.effect] at hw hm <;> exact ⟨by rw [hw], hm⟩
  refine ⟨hf.2.trans h.memory, ?_, ?_⟩
  · rw [hf.1, h.world]
  · intro k
    have hmem : k ∈ (done ++ [(key, saved)]).map Prod.fst ↔ k ∈ done.map Prod.fst ∨ k = key := by
      rw [List.map_append, List.mem_append]
      exact or_congr Iff.rfl List.mem_singleton
    rw [hov, h.overrides]
    by_cases hk : k = key
    · rw [if_pos hk, if_pos (hmem.mpr (.inr hk))]
    · rw [if_neg hk]
      by_cases hd : k ∈ done.map Prod.fst
      · rw [if_pos hd, if_pos (hmem.mpr (.inl hd))]
      · rw [if_neg hd, if_neg fun h => (hmem.mp h).elim hd hk]

structure RestoreFailed (o₀ : Dict (String × String) Override) (s s' : Sys) (e : Exn) : Prop where
  stopped : ∃ done edge rest, s.memory.saved.entries = done ++ edge :: rest ∧ EdgesRestored o₀ done s s' ∧
    s'.raised = s.raised ++ [(restoreCall edge, e)]

/-- What `restore` leaves when it comes to its end. -/
structure Restored (o₀ : Dict (String × String) Override) (s s' : Sys) : Prop where
  raised : s'.raised = s.raised
  memory : s'.memory = s.memory
  world : s'.world = { s.world with overrides := s'.world.overrides }
  overrides : ∀ k, s'.world.overrides.get? k = o₀.get? k

lemma wp_restoreOverride {e : (String × String) × Option Override} {Q : Except Exn Unit → Sys → Prop}
    (hr : ∀ x s', s'.world = s.world → s'.memory = s.memory → s'.raised = s.raised ++ [(restoreCall e, x)] →
      Q (.error x) s') (hd : ∀ s', s'.world = ((restoreCall e).effect env s.world s.memory).2.1 →
      s'.memory = ((restoreCall e).effect env s.world s.memory).2.2 → s'.raised = s.raised → Q (.ok ()) s') :
    wp (host env) (restoreOverride e) Q s := by
  obtain ⟨key, saved⟩ := e
  cases saved with
  | none => exact wp_call hr hd
  | some previous => exact wp_call hr hd

lemma wp_restoreOverrides (h : Tracked o₀ s) :
    wp (host env) restoreOverrides (ends (fun _ s' => Restored o₀ s s') fun e s' => RestoreFailed o₀ s s' e) s := by
  unfold restoreOverrides
  simp only [bind_eq]
  rw [wp_bind]
  refine wp_memory ?_
  rw [ends_ok]
  have hs : ∀ done edge rest s₁,
      (s.memory.saved.entries = done ++ edge :: rest ∧ EdgesRestored o₀ done s s₁ ∧ s₁.raised = s.raised) →
      wp (host env) (restoreOverride edge) (ends
        (fun _ s' => s.memory.saved.entries = (done ++ [edge]) ++ rest ∧ EdgesRestored o₀ (done ++ [edge]) s s' ∧
          s'.raised = s.raised)
        fun e s' => RestoreFailed o₀ s s' e) s₁ := by
    intro done edge rest s₁ hI
    obtain ⟨hen, hd, hrs⟩ := hI
    have hsaved : edge.2 = o₀.get? edge.1 := by
      refine (h edge.1).1 edge.2 (Dict.get?_eq_some.mpr ?_)
      rw [hen]
      simp
    refine wp_restoreOverride ?_ ?_
    · intro e s' hw hm hr
      refine ⟨⟨done, edge, rest, hen, ⟨hm.trans hd.memory, ?_, ?_⟩, by rw [hr, hrs]⟩⟩
      · rw [hw]
        exact hd.world
      · rw [hw]
        exact hd.overrides
    · intro s' hw hm hr
      exact ⟨by rw [hen]; simp, hd.snoc hsaved hw hm, by rw [hr, hrs]⟩
  refine wp_mono (wp_forEach (I := fun done rest s' => s.memory.saved.entries = done ++ rest ∧
    EdgesRestored o₀ done s s' ∧ s'.raised = s.raised) hs ⟨rfl, .refl o₀ s, rfl⟩) ?_
  intro r s' hr
  refine ends_mono hr ?_ fun _ hf => hf
  intro _ hI
  obtain ⟨-, hd, hrs⟩ := hI
  refine ⟨hrs, hd.memory, hd.world, ?_⟩
  intro k
  rw [hd.overrides]
  by_cases hk : k ∈ s.memory.saved.entries.map Prod.fst
  · rw [if_pos hk]
  · -- an edge the manager has not saved is as it was
    rw [if_neg hk]
    exact (h k).2 (Dict.get?_eq_none.mpr hk)

/-! ### Rolling back -/

def Activation.activeAt (a : Activation) (strategyId side : String) : Bool :=
  (a.state.entryAt strategyId side).any ActivationEntry.active

lemma Activation.activeAt_eq (a : Activation) (sid side : String) :
    a.activeAt sid side = (a.contentAt sid side).any Content.active := by
  unfold Activation.activeAt Activation.contentAt
  rw [Option.any_map]
  rfl

def NoneNew (a a' : Activation) : Prop := ∀ sid side, a'.activeAt sid side = true → a.activeAt sid side = true

lemma PublishFailed.noneNew {runId : String} {state : Sides} {s' : Sys} {e : Exn}
    (h : PublishFailed (state.items.map (freezePayload runId)) s s' e) :
    NoneNew s.world.activation s'.world.activation := by
  intro sid side hactive
  rw [Activation.activeAt_eq] at hactive ⊢
  rcases h.content sid side with heq | ⟨p, hp, -, heq⟩
  · rw [← heq]
    exact hactive
  · obtain ⟨item, -, rfl⟩ := List.mem_map.mp hp
    rw [heq] at hactive
    exact nomatch hactive

lemma Published.noneNew {phase runId : String} {state : Sides} {s' : Sys}
    (h : Published env phase (state.items.map (freezePayload runId)) s s') :
    NoneNew s.world.activation s'.world.activation := by
  intro sid side hactive
  rw [Activation.activeAt_eq] at hactive ⊢
  rw [h.content] at hactive
  cases hl : lastFor (state.items.map (freezePayload runId)) sid side with
  | none =>
    rw [hl] at hactive
    exact hactive
  | some p =>
    obtain ⟨item, -, rfl⟩ := List.mem_map.mp (lastFor_eq_some hl).1
    rw [hl] at hactive
    exact nomatch hactive

def Call.afterUndo : Call → Bool
  | recordApplyStage .rolledBack => true
  | snapshotActivation => true
  | c => c.publishes

/-- How `_handle_failure` ends, from `s`: a call raised, or the run is marked and the failure answered. -/
inductive Handled (ctx : ApplyContext) (s s' : Sys) (e : Exn) : Prop
  | activation (hw : s'.world = s.world) (hm : s'.memory = s.memory)
      (hr : s'.raised = s.raised ++ [(.restoreActivation ctx.snapshot, e)])
  | decisions (hw : s'.world = { s.world with activation := ctx.snapshot }) (hm : s'.memory = s.memory)
      (hr : s'.raised = s.raised ++ [(.setDecisions ctx.previousDecisions, e)])
  | late (c : Call) (n : ℕ) (hc : c.afterUndo = true) (hd : s'.world.decisions = ctx.previousDecisions)
      (ho : s'.world.overrides = s.world.overrides) (ha : NoneNew ctx.snapshot s'.world.activation)
      (hm : s'.memory = s.memory.advance n) (hr : s'.raised = s.raised ++ [(c, e)])
  | done (n : ℕ) (hd : s'.world.decisions = ctx.previousDecisions)
      (ho : s'.world.overrides = s.world.overrides) (ha : NoneNew ctx.snapshot s'.world.activation)
      (hm : s'.memory.run = (s.memory.advance n).run.map fun st =>
        st.mark .rolledBack (some false) (some ctx.previousDecisions))
      (hr : s'.raised = s.raised)

lemma wp_handleFailure :
    wp (host env) (handleFailure env ctx) (ends (fun _ _ => False) fun e s' => Handled ctx s s' e) s := by
  unfold handleFailure
  simp only [bind_eq]
  refine wp_call_bind rfl ?_ ?_
  · intro e s' hw hm hr
    exact .activation hw hm hr
  intro s₁ hw₁ hm₁ hr₁
  simp only [Call.effect] at hw₁ hm₁
  refine wp_call_bind rfl ?_ ?_
  · intro e s' hw hm hr
    exact .decisions (by rw [hw, hw₁]) (by rw [hm, hm₁]) (by rw [hr, hr₁])
  intro s₂ hw₂ hm₂ hr₂
  simp only [Call.effect, hw₁, hm₁] at hw₂ hm₂
  have hm₀ : s₂.memory = s.memory.advance 0 := by rw [hm₂, Memory.advance_zero]
  refine wp_call_bind rfl ?_ ?_
  · intro e s' hw hm hr
    exact .late _ 0 rfl (by rw [hw, hw₂]) (by rw [hw, hw₂]) (by rw [hw, hw₂]; exact fun _ _ h => h)
      (by rw [hm, hm₀]) (by rw [hr, hr₂, hr₁])
  intro s₃ hw₃ hm₃ hr₃
  simp only [Call.effect, hw₂] at hw₃ hm₃
  refine wp_call_bind rfl ?_ ?_
  · intro e s' hw hm hr
    exact .late _ 0 rfl (by rw [hw, hw₃]) (by rw [hw, hw₃]) (by rw [hw, hw₃]; exact fun _ _ h => h)
      (by rw [hm, hm₃, hm₀]) (by rw [hr, hr₃, hr₂, hr₁])
  intro s₄ hw₄ hm₄ hr₄
  simp only [Call.effect, hw₃] at hw₄ hm₄
  have hrs₄ : s₄.raised = s.raised := by rw [hr₄, hr₃, hr₂, hr₁]
  have hmm₄ : s₄.memory = s.memory := by rw [hm₄, hm₃, hm₂]
  rw [wp_bind]
  refine wp_mono (wp_publishAll freezePayload_weight s₄) ?_
  intro r s₅ h
  refine ends_mono h ?_ ?_
  · intro _ hpub
    have hnew := hpub.noneNew
    rw [hw₄] at hnew
    rw [wp_bind]
    refine wp_modify ?_
    exact .done _ (hpub.decisions.trans (by rw [hw₄])) (hpub.overrides.trans (by rw [hw₄])) hnew
      (by rw [← hmm₄, ← hpub.memory]; rfl) (by rw [← hrs₄]; exact hpub.raised)
  · intro e hf
    obtain ⟨c, hc, hr⟩ := hf.raised
    obtain ⟨n, hn⟩ := hf.memory
    have hnew := hf.noneNew
    rw [hw₄] at hnew
    refine .late c n ?_ (hf.decisions.trans (by rw [hw₄])) (hf.overrides.trans (by rw [hw₄])) hnew
      (by rw [hn, hmm₄]) (by rw [hr, hrs₄])
    cases c <;> first | exact hc | cases hc

/-- How the `except` branches end, from `s` and with the exception `e₁` of the `try` block. -/
inductive Recovered (ctx : ApplyContext) (o₀ : Dict (String × String) Override) (e₁ : Exn) (s s' : Sys) (e : Exn) : Prop
  | edges (h : RestoreFailed o₀ s s' e)
  | http (he : e₁.isHttp = true) (h : Restored o₀ s s')
  | handled (he : e₁.isHttp = false) (s₁ : Sys) (h₁ : Restored o₀ s s₁) (h : Handled ctx s₁ s' e)

lemma wp_recover {e₁ : Exn} (h : Tracked o₀ s) :
    wp (host env) (recover env ctx e₁) (ends (fun _ _ => False) fun e s' => Recovered ctx o₀ e₁ s s' e) s := by
  unfold recover
  simp only [bind_eq]
  rw [wp_bind]
  refine wp_mono (wp_restoreOverrides h) ?_
  intro r s₁ hr
  refine ends_mono hr ?_ fun e he => .edges he
  intro _ hrs
  cases he : e₁.isHttp with
  | true => exact .http he hrs
  | false =>
    refine wp_mono wp_handleFailure ?_
    intro r s' hr
    exact ends_mono hr (fun _ hf => hf) fun e hh => .handled he s₁ hrs hh

/-! ### Every way out -/

def Call.readsContext : Call → Bool
  | determineActive _ => true
  | getDecisions => true
  | snapshotActivation => true
  | _ => false

def contextOf (w : World) (payload : ApplyRequest) (plan : EdgeOverridePlan) (target : List String) : ApplyContext :=
  ⟨payload.runId, plan, target, w.activation, w.decisions⟩

/-- The run is registered and nothing else has changed. -/
structure Started (ctx : ApplyContext) (s s' : Sys) : Prop where
  raised : s'.raised = s.raised
  world : s'.world = s.world
  run : Underway ctx .requested 0 s'
  saved : s'.memory.saved = Dict.empty

/-- How a run ends that returns. -/
structure RunDone (env : Env) (ctx : ApplyContext) (s s' : Sys) (ack : ApplyAck) : Prop where
  stages : ∃ s₁ s₂, Started ctx s s₁ ∧ StagesDone env ctx s.world.overrides s₁ s₂ ∧ s'.world = s₂.world
  raised : s'.raised = s.raised
  run : ∃ n, s'.memory.run = some ⟨ctx.runId, ctx.target, .completed, true, n⟩
  ack : ack = ⟨true, ctx.runId, ctx.target, .completed⟩

/-- How a run ends that raises, once its context is built. -/
inductive RunFailed (env : Env) (ctx : ApplyContext) (s s' : Sys) (e : Exn) : Prop
  | requested (hw : s'.world = s.world) (hrun : Underway ctx .requested 0 s')
      (hr : s'.raised = s.raised ++ [(.recordApplyStage .requested, e)])
  | interrupted (e₁ : Exn) (s₁ s₂ : Sys) (h₁ : Started ctx s s₁) (h₂ : Interrupted s.world.overrides ctx s₁ s₂ e₁)
      (h : Recovered ctx s.world.overrides e₁ s₂ s' e)
  | unrecorded (e₁ : Exn) (s₁ s₂ s₃ : Sys) (n : ℕ) (h₁ : Started ctx s s₁)
      (h₂ : StagesDone env ctx s.world.overrides s₁ s₂) (hw : s₃.world = s₂.world)
      (hsaved : s₃.memory.saved = s₂.memory.saved)
      (hrun : s₃.memory.run = some ⟨ctx.runId, ctx.target, .completed, true, n⟩)
      (hr : s₃.raised = s.raised ++ [(.recordApplyStage .completed, e₁)])
      (h : Recovered ctx s.world.overrides e₁ s₃ s' e)

lemma wp_tryBody (h₁ : Started ctx s s₁) : wp (host env) ((body env ctx).tryExcept (recover env ctx))
      (ends (fun ack s' => RunDone env ctx s s' ack) fun e s' => RunFailed env ctx s s' e) s₁ := by
  rw [wp_tryExcept]
  unfold body
  simp only [bind_eq, pure_eq]
  rw [wp_bind]
  have hs : wp (host env) (stages env ctx) _ s₁ := wp_stages h₁.run h₁.saved
  rw [h₁.world] at hs
  refine wp_mono hs ?_
  intro r s₂ hr
  refine ends_mono hr ?_ ?_
  · intro _ hd
    obtain ⟨n, hrun⟩ := hd.run
    rw [wp_bind]
    refine wp_modify ?_
    rw [ends_ok]
    refine wp_call_bind rfl ?_ ?_
    · intro e₁ s₃ hw₃ hm₃ hr₃
      have hrn₃ : s₃.memory.run = some ⟨ctx.runId, ctx.target, .completed, true, n⟩ := by
        rw [hm₃]
        unfold Underway at hrun
        simp [hrun, ApplyRunState.mark]
      have ht₃ : Tracked s.world.overrides s₃ := hd.tracked.of_eq (by rw [hw₃]) (by rw [hm₃])
      rw [ends_error]
      refine wp_mono (wp_recover ht₃) ?_
      intro r' s' hr'
      refine ends_mono hr' (fun _ hf => hf.elim) ?_
      intro e hrec
      refine .unrecorded e₁ s₁ s₂ s₃ n h₁ hd hw₃ (by rw [hm₃]) hrn₃ ?_ hrec
      rw [hr₃]
      rw [hd.raised, h₁.raised]
    · intro s' hw' hm' hr'
      refine ⟨⟨s₁, s₂, h₁, hd, hw'⟩, ?_, ⟨n, ?_⟩, rfl⟩
      · rw [← h₁.raised, ← hd.raised]
        exact hr'
      · simp only [Call.effect] at hm'
        unfold Underway at hrun
        simp [hm', hrun, ApplyRunState.mark]
  · intro e₁ hint
    rw [ends_error]
    refine wp_mono (wp_recover hint.tracked) ?_
    intro r' s' hr'
    exact ends_mono hr' (fun _ hf => hf.elim) fun e hrec => .interrupted e₁ s₁ s₂ h₁ hint hrec

lemma wp_startRun (hwr : s₁.world = s.world) (hrs : s₁.raised = s.raised) : wp (host env) (startRun env ctx)
      (ends (fun ack s' => RunDone env ctx s s' ack) fun e s' => RunFailed env ctx s s' e) s₁ := by
  unfold startRun recordRequested
  simp only [bind_eq]
  rw [wp_bind]
  refine wp_modify ?_
  rw [ends_ok, wp_bind, wp_bind]
  refine wp_modify ?_
  rw [ends_ok]
  refine wp_call ?_ ?_
  · intro e s' hw hm hr
    refine .requested (hw.trans hwr) ?_ ?_
    · unfold Underway
      rw [hm]
      rfl
    · rw [← hrs]
      exact hr
  · intro s₂ hw₂ hm₂ hr₂
    have hs : Started ctx s { s₂ with memory := { s₂.memory with saved := .empty } } := by
      refine ⟨hr₂.trans hrs, hw₂.trans hwr, ?_, rfl⟩
      rw [hm₂]
      rfl
    rw [show ((Call.recordApplyStage .requested).effect env _ _).1 = .ok () from rfl, ends_ok, wp_bind]
    refine wp_modify ?_
    exact wp_tryBody hs

/-- How a run ends that raises. -/
inductive ApplyFailed (env : Env) (payload : ApplyRequest) (gating : Option GatingPolicy) (s s' : Sys) (e : Exn) : Prop
  | plan (hplan : planFor env gating = .error e) (hs : s' = s)
  | undecided (htarget : determineActive env s.world payload = .error e) (hw : s'.world = s.world)
      (hm : s'.memory = s.memory) (hr : s'.raised = s.raised)
  | context (c : Call) (hc : c.readsContext = true) (hw : s'.world = s.world) (hm : s'.memory = s.memory)
      (hr : s'.raised = s.raised ++ [(c, e)])
  | run (plan : EdgeOverridePlan) (target : List String) (hplan : planFor env gating = .ok plan)
      (htarget : determineActive env s.world payload = .ok target)
      (h : RunFailed env (contextOf s.world payload plan target) s s' e)

def ApplyDone (env : Env) (payload : ApplyRequest) (gating : Option GatingPolicy) (s s' : Sys) (ack : ApplyAck) : Prop :=
  ∃ plan target, planFor env gating = .ok plan ∧ determineActive env s.world payload = .ok target ∧
    RunDone env (contextOf s.world payload plan target) s s' ack

lemma wp_applyRun (payload : ApplyRequest) (gating : Option GatingPolicy) (s : Sys) :
    wp (host env) (applyRun env payload gating)
      (ends (fun ack s' => ApplyDone env payload gating s s' ack) fun e s' => ApplyFailed env payload gating s s' e) s := by
  unfold applyRun buildContext
  simp only [bind_eq, pure_eq]
  cases hplan : planFor env gating with
  | error e => exact .plan hplan rfl
  | ok plan =>
    rw [ofExcept_ok, bind_ret, wp_bind, wp_bind]
    refine wp_call ?_ ?_
    · intro e s' hw hm hr
      exact .context _ rfl hw hm hr
    intro s₁ hw₁ hm₁ hr₁
    simp only [Call.effect] at hw₁ hm₁ ⊢
    cases htarget : determineActive env s.world payload with
    | error e => exact .undecided htarget hw₁ hm₁ hr₁
    | ok target =>
      rw [ends_ok]
      refine wp_call_bind rfl ?_ ?_
      · intro e s' hw hm hr
        exact .context _ rfl (hw.trans hw₁) (hm.trans hm₁) (by rw [hr, hr₁])
      intro s₂ hw₂ hm₂ hr₂
      simp only [Call.effect, hw₁, hm₁] at hw₂ hm₂
      refine wp_call_bind rfl ?_ ?_
      · intro e s' hw hm hr
        exact .context _ rfl (hw.trans hw₂) (hm.trans hm₂) (by rw [hr, hr₂, hr₁])
      intro s₃ hw₃ hm₃ hr₃
      simp only [Call.effect, hw₂, hm₂] at hw₃ hm₃
      rw [wp_ret, ends_ok, hw₁, hw₂]
      refine wp_mono (wp_startRun hw₃ (by rw [hr₃, hr₂, hr₁])) ?_
      intro r s' hr
      exact ends_mono hr (fun ack hd => ⟨plan, target, hplan, htarget, hd⟩) fun e hf =>
        .run plan target hplan htarget hf

/-- The registered run is over, so that a run with another id is not answered 409. -/
def Settled (m : Memory) : Prop := ∀ st ∈ m.run, st.completed = true ∨ st.stage = .rolledBack

/-- A run of another id is over, if any; it may have been removed. -/
structure Entered (payload : ApplyRequest) (s s₀ : Sys) : Prop where
  world : s₀.world = s.world
  raised : s₀.raised = s.raised
  other : ∀ st ∈ s.memory.run, st.runId ≠ payload.runId
  before : Settled s.memory
  settled : Settled s₀.memory

def answerOf (st : ApplyRunState) : ApplyAck :=
  if st.completed then ⟨true, st.runId, st.active, .completed⟩
  else ⟨st.stage != .rolledBack, st.runId, st.active, st.stage⟩

inductive Returned (env : Env) (payload : ApplyRequest) (gating : Option GatingPolicy) (s s' : Sys) (ack : ApplyAck) : Prop
  | answered (st : ApplyRunState) (hrun : s.memory.run = some st) (hid : st.runId = payload.runId) (hs : s' = s)
      (hack : ack = answerOf st)
  | ran (s₀ : Sys) (h₀ : Entered payload s s₀) (h : ApplyDone env payload gating s₀ s' ack)

inductive Raised (env : Env) (payload : ApplyRequest) (gating : Option GatingPolicy) (s s' : Sys) (e : Exn) : Prop
  | busy (hrun : ¬Settled s.memory) (hother : ∀ st ∈ s.memory.run, st.runId ≠ payload.runId) (hs : s' = s)
  | ran (s₀ : Sys) (h₀ : Entered payload s s₀) (h : ApplyFailed env payload gating s₀ s' e)

lemma wp_apply (payload : ApplyRequest) (gating : Option GatingPolicy) (s : Sys) :
    wp (host env) (apply env payload gating)
      (ends (fun ack s' => Returned env payload gating s s' ack) fun e s' => Raised env payload gating s s' e) s := by
  -- a run that may start
  have hstr : ∀ s₀, Entered payload s s₀ → wp (host env) (applyRun env payload gating)
      (ends (fun ack s' => Returned env payload gating s s' ack) fun e s' => Raised env payload gating s s' e) s₀ := by
    intro s₀ h₀
    refine wp_mono (wp_applyRun payload gating s₀) ?_
    intro r s' hr
    exact ends_mono hr (fun ack h => .ran s₀ h₀ h) fun e h => .ran s₀ h₀ h
  unfold apply
  simp only [bind_eq, pure_eq]
  rw [wp_bind]
  refine wp_memory ?_
  rw [ends_ok]
  cases hrun : s.memory.run with
  | none =>
    have hs : Settled s.memory := by
      intro st hst
      rw [hrun] at hst
      exact nomatch hst
    refine hstr s ⟨rfl, rfl, ?_, hs, hs⟩
    intro st hst
    rw [hrun] at hst
    exact nomatch hst
  | some st =>
    have hmem : ∀ st' ∈ s.memory.run, st' = st := by
      intro st' hst'
      rw [hrun] at hst'
      exact (Option.some.inj hst').symm
    simp only [ackForExisting]
    by_cases hid : st.runId = payload.runId
    · -- the answer for the same run
      cases hc : st.completed with
      | true =>
        simp only [hid, Bool.not_true, Bool.false_eq_true, if_false, if_true, ofExcept_ok, bind_ret]
        exact .answered st hrun hid rfl (by rw [answerOf, if_pos hc, hid])
      | false =>
        simp only [hid, Bool.not_false, if_true, ofExcept_ok, bind_ret]
        exact .answered st hrun hid rfl (by rw [answerOf, if_neg (by simp [hc]), hid])
    · have hother : ∀ st' ∈ s.memory.run, st'.runId ≠ payload.runId := by
        intro st' hst'
        rw [hmem st' hst']
        exact hid
      cases hc : st.completed with
      | true =>
        have hs : Settled s.memory := by
          intro st' hst'
          rw [hmem st' hst']
          exact .inl hc
        simp only [hid, Bool.not_true, Bool.false_eq_true, if_false, ofExcept_ok, bind_ret]
        exact hstr s ⟨rfl, rfl, hother, hs, hs⟩
      | false =>
        simp only [hid, Bool.not_false, if_true, if_false]
        by_cases hsta : st.stage = .rolledBack
        · have hs : Settled s.memory := by
            intro st' hst'
            rw [hmem st' hst']
            exact .inr hsta
          simp only [hsta, if_true, ofExcept_ok, bind_ret]
          rw [wp_bind]
          refine wp_modify ?_
          exact hstr _ ⟨rfl, rfl, hother, hs, fun st' hst' => nomatch hst'⟩
        · rw [if_neg hsta, ofExcept_error, bind_raise, wp_raise]
          refine .busy ?_ hother rfl
          intro hs
          rcases hs st hrun with h | h
          · rw [hc] at h
            exact nomatch h
          · exact hsta h

lemma exec_apply_of_registered {payload : ApplyRequest} {gating : Option GatingPolicy} {st : ApplyRunState}
    (hrun : s.memory.run = some st) (hid : st.runId = payload.runId) :
    exec (host env) (apply env payload gating) s = (.ok (answerOf st), s) := by
  rcases hx : exec (host env) (apply env payload gating) s with ⟨r, s'⟩
  have h := (wp_apply payload gating s).of_exec hx
  cases r with
  | ok ack =>
    rcases h with ⟨st', hr', -, rfl, rfl⟩ | ⟨s₀, h₀, -⟩
    · rw [hrun] at hr'
      rw [Option.some.inj hr']
    · exact absurd hid (h₀.other st hrun)
  | error e =>
    rcases h with ⟨-, hother, -⟩ | ⟨s₀, h₀, -⟩
    · exact absurd hid (hother st hrun)
    · exact absurd hid (h₀.other st hrun)

end Qmtl.WorldService

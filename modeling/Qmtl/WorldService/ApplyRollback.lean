import Qmtl.WorldService.ApplyTarget

/-! When `apply` ends in a terminal state and, if it raised, leaves the world as it was. -/

namespace Qmtl.WorldService

open Lib Lib.Coro

variable {env : Env} {ctx : ApplyContext}

/-- The run is over and, if `apply` raised, decisions and edges are as before and nothing is active that
was not. -/
structure RollsBack (s s' : Sys) (r : Except Exn ApplyAck) : Prop where
  settled : Settled s'.memory
  decisions : ∀ e, r = .error e → s'.world.decisions = s.world.decisions
  overrides : ∀ e, r = .error e → ∀ k, s'.world.overrides.get? k = s.world.overrides.get? k
  activation : ∀ e, r = .error e → NoneNew s.world.activation s'.world.activation

/-! ### What nobody undoes -/

def AlreadyActive (target : List String) (a : Activation) : Prop :=
  ∀ sid ∈ target, ¬a.Unseen sid ∧ ∀ side e, a.state.entryAt sid side = some e → e.active = true

def Unmoved (ctx : ApplyContext) : Prop :=
  ctx.target = ctx.previousDecisions ∧ AlreadyActive ctx.target ctx.snapshot

def ApplyContext.savedEdges (ctx : ApplyContext) (o₀ : Dict (String × String) Override) : List (String × String) :=
  (saveEdges o₀ ctx.plan.postEnable (saveEdges o₀ ctx.plan.preDisable Dict.empty)).keys

def ApplyContext.editedEdges (ctx : ApplyContext) (o₀ : Dict (String × String) Override) :
    Dict (String × String) Override :=
  editEdges true ("post_promotion_enable:" ++ ctx.runId) ctx.plan.postEnable
    (editEdges false ("pre_promotion_disable:" ++ ctx.runId) ctx.plan.preDisable o₀)

/-- From `key` on, the edges were already as the run leaves them. -/
def EdgesUnmoved (ctx : ApplyContext) (o₀ : Dict (String × String) Override) (key : String × String) : Prop :=
  ∀ k ∈ (ctx.savedEdges o₀).dropWhile (· ≠ key), (ctx.editedEdges o₀).get? k = o₀.get? k

def UndoneBy (ctx : ApplyContext) (o₀ : Dict (String × String) Override) : Call → Prop
  | .deleteEdgeOverride key => Unmoved ctx ∧ EdgesUnmoved ctx o₀ key
  | .upsertEdgeOverride key _ _ => Unmoved ctx ∧ EdgesUnmoved ctx o₀ key
  | .restoreActivation _ => Unmoved ctx
  | .setDecisions _ => ctx.target = ctx.previousDecisions
  | _ => True

/-- The calls that raised leave nothing behind: none did, the rollback went through, or it was the last record. -/
def Harmless (ctx : ApplyContext) (o₀ : Dict (String × String) Override) : List (Call × Exn) → Prop
  | [] => True
  | [(c, e)] => c.readsContext = true ∨ (e.isHttp = false ∧ c ≠ .recordApplyStage .requested) ∨
      (c = .recordApplyStage .completed ∧ Unmoved ctx)
  | [(c, _), (c', _)] => c = .recordApplyStage .completed ∧ UndoneBy ctx o₀ c'
  | _ => False

variable {e : Exn} {o₀ : Dict (String × String) Override} {s s' : Sys}

lemma Underway.not_settled {stage : ApplyStage} {n : ℕ} (h : Underway ctx stage n s) (hne : stage ≠ .rolledBack) :
    ¬Settled s.memory := by
  intro hs
  rcases hs _ h with hc | hr
  · exact nomatch hc
  · exact hne hr

lemma Call.inStages_cases {c : Call} (h : c.inStages = true) :
    c.readsContext = false ∧ c ≠ .recordApplyStage .requested ∧ c ≠ .recordApplyStage .completed := by
  refine ⟨?_, ?_, ?_⟩
  · cases c <;> first | rfl | cases h
  · rintro rfl
    exact nomatch h
  · rintro rfl
    exact nomatch h

lemma StagesDone.noneNew_iff (h : StagesDone env ctx o₀ s s') (hs : ctx.snapshot = s.world.activation) :
    NoneNew s.world.activation s'.world.activation ↔ AlreadyActive ctx.target s.world.activation := by
  have hat := h.installs hs
  constructor
  · intro hnew sid hsid
    refine ⟨?_, ?_⟩
    · intro hu
      have hl := hnew sid "long"
      rw [Activation.activeAt_eq, (hat sid "long").unseen hu hsid rfl] at hl
      have := hl rfl
      rw [Activation.activeAt, hu] at this
      exact nomatch this
    · intro side e he
      have hside := hnew sid side
      rw [Activation.activeAt_eq, (hat sid side).seen e he] at hside
      have := hside (List.contains_iff_mem.mpr hsid)
      rw [Activation.activeAt, he] at this
      exact this
  · intro hall sid side hactive
    rw [Activation.activeAt_eq] at hactive
    cases hb : s.world.activation.state.entryAt sid side with
    | some e =>
      rw [(hat sid side).seen e hb] at hactive
      rw [Activation.activeAt, hb]
      exact (hall sid (List.contains_iff_mem.mp hactive)).2 side e hb
    | none =>
      by_cases hu : s.world.activation.Unseen sid ∧ sid ∈ ctx.target ∧ side = "long"
      · exact absurd hu.1 (hall sid hu.2.1).1
      · rw [(hat sid side).none hb hu] at hactive
        exact nomatch hactive

/-! ### The ways out -/

lemma Interrupted.rollsBack_iff {s₁ s₂ : Sys} {e₁ : Exn} (h₂ : Interrupted o₀ ctx s₁ s₂ e₁)
    (h : Recovered ctx o₀ e₁ s₂ s' e) (hra : s₁.raised = []) (ho : s.world.overrides = o₀)
    (hd : s.world.decisions = ctx.previousDecisions) (ha : s.world.activation = ctx.snapshot) :
    RollsBack s s' (.error e) ↔ Harmless ctx o₀ s'.raised := by
  obtain ⟨c, hc, hr₂⟩ := h₂.raised
  obtain ⟨hrd, hreq, hcm⟩ := Call.inStages_cases hc
  obtain ⟨stage, n, hs, hrun⟩ := h₂.run
  rw [hra, List.nil_append] at hr₂
  -- the run is left unfinished where a second call raises
  have hopen : ∀ k, s'.memory = s₂.memory.advance k → ¬Settled s'.memory := by
    intro k hm
    exact (hrun.advance hm).not_settled hs
  have htwo : ∀ c' e', ¬Harmless ctx o₀ [(c, e₁), (c', e')] := fun c' e' h => hcm h.1
  rcases h with ⟨done, edge, rest, -, hrs, hr⟩ | ⟨he, hrs⟩ | ⟨he, s₃, hrs, hh⟩
  · rw [hr, hr₂]
    refine iff_of_false (fun h => hopen 0 ?_ h.settled) (htwo _ _)
    rw [hrs.memory, Memory.advance_zero]
  · rw [hrs.raised, hr₂]
    refine iff_of_false (fun h => hopen 0 ?_ h.settled) ?_
    · rw [hrs.memory, Memory.advance_zero]
    · rintro (h | ⟨h, -⟩ | ⟨h, -⟩)
      · rw [hrd] at h
        exact nomatch h
      · rw [he] at h
        exact nomatch h
      · exact hcm h
  · have hr₃ : s₃.raised = [(c, e₁)] := hrs.raised.trans hr₂
    cases hh with
    | activation hw hm hr =>
      rw [hr, hr₃]
      refine iff_of_false (fun h => hopen 0 ?_ h.settled) (htwo _ _)
      rw [hm, hrs.memory, Memory.advance_zero]
    | decisions hw hm hr =>
      rw [hr, hr₃]
      refine iff_of_false (fun h => hopen 0 ?_ h.settled) (htwo _ _)
      rw [hm, hrs.memory, Memory.advance_zero]
    | late c' k _ _ _ _ hm hr =>
      rw [hr, hr₃]
      refine iff_of_false (fun h => hopen k ?_ h.settled) (htwo _ _)
      rw [hm, hrs.memory]
    | done k hd' ho' ha' hm hr =>
      rw [hr, hr₃]
      refine iff_of_true ⟨?_, ?_, ?_, ?_⟩ (.inr (.inl ⟨he, hreq⟩))
      · intro st hst
        rw [hm] at hst
        obtain ⟨st₀, -, rfl⟩ := Option.map_eq_some_iff.mp hst
        exact .inr rfl
      · intro _ _
        rw [hd', hd]
      · intro _ _ k
        rw [ho', hrs.overrides, ho]
      · intro _ _
        rw [ha]
        exact ha'

lemma rollsBack_iff (hs : Settled s'.memory) :
    RollsBack s s' (.error e) ↔ s'.world.decisions = s.world.decisions ∧
      (∀ k, s'.world.overrides.get? k = s.world.overrides.get? k) ∧ NoneNew s.world.activation s'.world.activation := by
  constructor
  · intro h
    exact ⟨h.decisions e rfl, h.overrides e rfl, h.activation e rfl⟩
  · rintro ⟨hd, ho, ha⟩
    exact ⟨hs, fun _ _ => hd, fun _ _ => ho, fun _ _ => ha⟩

lemma undoneBy_restoreCall (edge : (String × String) × Option Override) :
    UndoneBy ctx o₀ (restoreCall edge) ↔ Unmoved ctx ∧ EdgesUnmoved ctx o₀ edge.1 := by
  obtain ⟨key, saved⟩ := edge
  cases saved <;> exact Iff.rfl

lemma undoneBy_afterUndo {c : Call} (h : c.afterUndo = true) : UndoneBy ctx o₀ c := by
  cases c <;> trivial

lemma edgesUnmoved_iff {done rest : List ((String × String) × Option Override)}
    {edge : (String × String) × Option Override} (ht : Tracked o₀ s)
    (hed : s.world.overrides = ctx.editedEdges o₀) (hkeys : s.memory.saved.keys = ctx.savedEdges o₀)
    (hen : s.memory.saved.entries = done ++ edge :: rest) (h : EdgesRestored o₀ done s s') :
    (∀ k, s'.world.overrides.get? k = o₀.get? k) ↔ EdgesUnmoved ctx o₀ edge.1 := by
  have hs : ctx.savedEdges o₀ = done.map Prod.fst ++ edge.1 :: rest.map Prod.fst := by
    rw [← hkeys, Dict.keys, hen, List.map_append, List.map_cons]
  have hn : (done.map Prod.fst ++ edge.1 :: rest.map Prod.fst).Nodup := by
    rw [← hs, ← hkeys]
    exact s.memory.saved.keys_nodup
  have hdr : (ctx.savedEdges o₀).dropWhile (· ≠ edge.1) = edge.1 :: rest.map Prod.fst := by
    rw [hs, List.dropWhile_append_of_pos]
    · simp
    · intro k hk
      have := (List.nodup_append.mp hn).2.2 k hk edge.1 (by simp)
      simpa using this
  unfold EdgesUnmoved
  rw [hdr]
  constructor
  · intro hall k hk
    have hnot : k ∉ done.map Prod.fst := by
      intro hd
      exact (List.nodup_append.mp hn).2.2 k hd k hk rfl
    rw [← hed, ← hall k, h.overrides, if_neg hnot]
  · intro hall k
    rw [h.overrides]
    by_cases hd : k ∈ done.map Prod.fst
    · rw [if_pos hd]
    · rw [if_neg hd]
      by_cases hk : k ∈ edge.1 :: rest.map Prod.fst
      · rw [hed]
        exact hall k hk
      · -- an edge the manager has not saved
        refine (ht k).2 (Dict.get?_eq_none.mpr ?_)
        rw [hkeys, hs]
        exact fun hmem => (List.mem_append.mp hmem).elim hd hk

lemma StagesDone.rollsBack_iff {s₁ s₂ s₃ : Sys} {e₁ : Exn} {n : ℕ} (h₂ : StagesDone env ctx o₀ s₁ s₂)
    (hw₁ : s₁.world = s.world) (hs₁ : s₁.memory.saved = Dict.empty) (hw₃ : s₃.world = s₂.world)
    (hs₃ : s₃.memory.saved = s₂.memory.saved)
    (hrun : s₃.memory.run = some ⟨ctx.runId, ctx.target, .completed, true, n⟩)
    (hr₃ : s₃.raised = [(.recordApplyStage .completed, e₁)]) (h : Recovered ctx o₀ e₁ s₃ s' e)
    (ho : s.world.overrides = o₀) (hd : s.world.decisions = ctx.previousDecisions)
    (ha : s.world.activation = ctx.snapshot) : RollsBack s s' (.error e) ↔ Harmless ctx o₀ s'.raised := by
  have hsn : ctx.snapshot = s₁.world.activation := by rw [hw₁, ha]
  have hdec : s₃.world.decisions = ctx.target := by rw [hw₃, h₂.decisions]
  have hnew : NoneNew s.world.activation s₃.world.activation ↔ AlreadyActive ctx.target ctx.snapshot := by
    rw [hw₃, hsn, ← hw₁]
    exact h₂.noneNew_iff hsn
  have ht : Tracked o₀ s₃ := h₂.tracked.of_eq (by rw [hw₃]) hs₃
  have hedi : s₃.world.overrides = ctx.editedEdges o₀ := by
    rw [hw₃, h₂.overrides, hw₁, ho]
    rfl
  have hkeys : s₃.memory.saved.keys = ctx.savedEdges o₀ := by
    rw [hs₃, h₂.saved, hs₁]
    rfl
  have hs : ∀ k, s'.memory = s₃.memory.advance k → Settled s'.memory := by
    intro k hm st hst
    rw [hm, Memory.advance, hrun] at hst
    rw [← Option.some.inj hst]
    exact .inl rfl
  -- the decisions and the activation as the run has left them
  have hu : ctx.target = s.world.decisions ∧ NoneNew s.world.activation s₃.world.activation ↔ Unmoved ctx := by
    rw [hnew, hd]
    exact Iff.rfl
  rcases h with ⟨done, edge, rest, hen, hrs, hr⟩ | ⟨he, hrs⟩ | ⟨he, s₄, hrs, hh⟩
  · rw [WorldService.rollsBack_iff (hs 0 (by rw [hrs.memory, Memory.advance_zero])), hr, hr₃]
    have hd' : s'.world.decisions = ctx.target := by rw [hrs.world, ← hdec]
    have ha' : s'.world.activation = s₃.world.activation := by rw [hrs.world]
    rw [hd', ha', ho, edgesUnmoved_iff ht hedi hkeys hen hrs]
    show _ ↔ _ ∧ UndoneBy ctx o₀ (restoreCall edge)
    rw [undoneBy_restoreCall, ← hu]
    constructor
    · rintro ⟨hdc', hed, hact⟩
      exact ⟨rfl, ⟨hdc', hact⟩, hed⟩
    · rintro ⟨-, ⟨hdc', hact⟩, hed⟩
      exact ⟨hdc', hed, hact⟩
  · rw [WorldService.rollsBack_iff (hs 0 (by rw [hrs.memory, Memory.advance_zero])), hrs.raised, hr₃]
    have hd' : s'.world.decisions = ctx.target := by rw [hrs.world, ← hdec]
    have ha' : s'.world.activation = s₃.world.activation := by rw [hrs.world]
    rw [hd', ha', ho]
    constructor
    · rintro ⟨hdc', -, hact⟩
      exact .inr (.inr ⟨rfl, hu.mp ⟨hdc', hact⟩⟩)
    · rintro (hc | ⟨hplain, -⟩ | ⟨-, hc⟩)
      · cases hc
      · rw [he] at hplain
        cases hplain
      · exact ⟨(hu.mpr hc).1, hrs.overrides, (hu.mpr hc).2⟩
  · have hr₄ : s₄.raised = [(.recordApplyStage .completed, e₁)] := hrs.raised.trans hr₃
    have hd₄ : s₄.world.decisions = ctx.target := by rw [hrs.world, ← hdec]
    have ha₄ : s₄.world.activation = s₃.world.activation := by rw [hrs.world]
    cases hh with
    | activation hw hm hr =>
      rw [WorldService.rollsBack_iff (hs 0 (by rw [hm, hrs.memory, Memory.advance_zero])), hr, hr₄, hw, hd₄, ha₄, ho]
      constructor
      · rintro ⟨hdc', -, hact⟩
        exact ⟨rfl, hu.mp ⟨hdc', hact⟩⟩
      · rintro ⟨-, hc⟩
        exact ⟨(hu.mpr hc).1, hrs.overrides, (hu.mpr hc).2⟩
    | decisions hw hm hr =>
      have hd' : s'.world.decisions = ctx.target := by rw [hw, ← hd₄]
      have ha' : s'.world.activation = ctx.snapshot := by rw [hw]
      have ho' : s'.world.overrides = s₄.world.overrides := by rw [hw]
      rw [WorldService.rollsBack_iff (hs 0 (by rw [hm, hrs.memory, Memory.advance_zero])), hr, hr₄, hd', ha', ho',
        ho, hd, ha]
      constructor
      · rintro ⟨hdc', -, -⟩
        exact ⟨rfl, hdc'⟩
      · rintro ⟨-, hdc'⟩
        exact ⟨hdc', hrs.overrides, fun _ _ h => h⟩
    | late c k hc hd' ho' ha' hm hr =>
      rw [WorldService.rollsBack_iff (hs k (by rw [hm, hrs.memory])), hr, hr₄, hd', ho', ho, ha, hd]
      exact iff_of_true ⟨rfl, hrs.overrides, ha'⟩ ⟨rfl, undoneBy_afterUndo hc⟩
    | done k hd' ho' ha' hm hr =>
      have hs' : Settled s'.memory := by
        intro st hst
        rw [hm] at hst
        obtain ⟨st₀, -, rfl⟩ := Option.map_eq_some_iff.mp hst
        exact .inr rfl
      rw [WorldService.rollsBack_iff hs', hr, hr₄, hd', ho', ho, ha, hd]
      exact iff_of_true ⟨rfl, hrs.overrides, ha'⟩ (.inr (.inl ⟨he, fun h => by cases h⟩))

lemma RunFailed.rollsBack_iff {s₀ : Sys} {payload : ApplyRequest} {plan : EdgeOverridePlan} {target : List String}
    (h : RunFailed env (contextOf s₀.world payload plan target) s₀ s' e) (hwr : s₀.world = s.world)
    (hrs : s₀.raised = []) :
    RollsBack s s' (.error e) ↔ Harmless (contextOf s.world payload plan target) s.world.overrides s'.raised := by
  cases h with
  | requested hw hrun hr =>
    rw [hr, hrs]
    refine iff_of_false (fun hrl => hrun.not_settled (by decide) hrl.settled) ?_
    rintro (h | ⟨-, h⟩ | ⟨h, -⟩)
    · exact nomatch h
    · exact h rfl
    · exact nomatch h
  | interrupted e₁ s₁ s₂ h₁ h₂ h =>
    rw [hwr] at h₂ h
    exact h₂.rollsBack_iff h (h₁.raised.trans hrs) rfl rfl rfl
  | unrecorded e₁ s₁ s₂ s₃ n h₁ h₂ hw hsaved hrun hr h =>
    rw [hwr] at h₂ h
    rw [hrs] at hr
    exact h₂.rollsBack_iff (h₁.world.trans hwr) h₁.saved hw hsaved hrun hr h rfl rfl rfl

def Sys.before (world : World) (memory : Memory) (faults : List (Option Exn)) : Sys := ⟨world, memory, faults, []⟩

def raisedIn (env : Env) (payload : ApplyRequest) (gating : Option GatingPolicy) (s : Sys) : List (Call × Exn) :=
  (exec (host env) (apply env payload gating) s).2.raised

/-- **`apply` ends in a terminal state and rolls back** exactly when the registered run was over before and
the awaits that raise are harmless. -/
theorem apply_rollsBack_iff (env : Env) (payload : ApplyRequest) (gating : Option GatingPolicy) (world : World)
    (memory : Memory) (faults : List (Option Exn)) :
    RollsBack (.before world memory faults) (exec (host env) (apply env payload gating) (.before world memory faults)).2
        (exec (host env) (apply env payload gating) (.before world memory faults)).1 ↔
      Settled memory ∧ ∀ plan target, planFor env gating = .ok plan → determineActive env world payload = .ok target →
        Harmless (contextOf world payload plan target) world.overrides
          (raisedIn env payload gating (.before world memory faults)) := by
  unfold raisedIn
  rcases hx : exec (host env) (apply env payload gating) (.before world memory faults) with ⟨r, s'⟩
  have h := (wp_apply payload gating (.before world memory faults)).of_exec hx
  cases r with
  | ok ack =>
    have hfine : ∀ e : Exn, (.ok ack : Except Exn ApplyAck) ≠ .error e := fun e => nofun
    rcases h with ⟨st, hrun, hid, rfl, -⟩ | ⟨s₀, h₀, plan, target, -, -, hdone⟩
    · -- an answer for the registered run
      constructor
      · intro h
        exact ⟨h.settled, fun _ _ _ _ => trivial⟩
      · rintro ⟨h, -⟩
        exact ⟨h, fun e he => absurd he (hfine e), fun e he => absurd he (hfine e), fun e he => absurd he (hfine e)⟩
    · obtain ⟨n, hrun⟩ := hdone.run
      have hraised : s'.raised = [] := hdone.raised.trans h₀.raised
      rw [hraised]
      refine iff_of_true ⟨?_, fun e he => absurd he (hfine e), fun e he => absurd he (hfine e),
        fun e he => absurd he (hfine e)⟩ ⟨h₀.before, fun _ _ _ _ => trivial⟩
      intro st hst
      rw [hrun] at hst
      rw [← Option.some.inj hst]
      exact .inl rfl
  | error e =>
    rcases h with ⟨hbusy, -, rfl⟩ | ⟨s₀, h₀, hfail⟩
    · exact iff_of_false (fun h => hbusy h.settled) fun h => hbusy h.1
    · -- nothing has happened before the run is registered
      have hnothing : s'.world = s₀.world → s'.memory = s₀.memory →
          RollsBack (.before world memory faults) s' (.error e) := by
        intro hw hm
        have hw' : s'.world = world := hw.trans h₀.world
        refine ⟨by rw [hm]; exact h₀.settled, ?_, ?_, ?_⟩
        · intro _ _
          rw [hw']
          rfl
        · intro _ _ _
          rw [hw']
          rfl
        · intro _ _
          rw [hw']
          exact fun _ _ h => h
      cases hfail with
      | plan hplan hs =>
        refine iff_of_true (hnothing (by rw [hs]) (by rw [hs])) ⟨h₀.before, ?_⟩
        intro plan target hplan'
        rw [hplan] at hplan'
        exact nomatch hplan'
      | undecided htarget hw hm hr =>
        refine iff_of_true (hnothing hw hm) ⟨h₀.before, ?_⟩
        intro plan target _ _
        rw [hr, h₀.raised]
        trivial
      | context c hc hw hm hr =>
        refine iff_of_true (hnothing hw hm) ⟨h₀.before, ?_⟩
        intro plan target _ _
        rw [hr, h₀.raised]
        exact .inl hc
      | run plan target hplan htarget hrun =>
        have hw₀ : s₀.world = world := h₀.world
        rw [RunFailed.rollsBack_iff hrun h₀.world h₀.raised]
        constructor
        · intro h
          refine ⟨h₀.before, ?_⟩
          intro plan' target' hplan' htarget'
          rw [hplan] at hplan'
          rw [hw₀] at htarget
          rw [htarget] at htarget'
          rw [← Except.ok.inj hplan', ← Except.ok.inj htarget']
          exact h
        · rintro ⟨-, h⟩
          exact h plan target hplan (by rw [← hw₀]; exact htarget)

/-- The first record raises: the run stays registered, and every other run is answered 409. -/
theorem apply_stuck_requested :
    ¬RollsBack (.before .fresh ⟨none, Dict.empty⟩ [none, none, none, some (.error "store is down")])
      (exec (host (.still false ["a"])) (apply (.still false ["a"]) ⟨"r", none, none⟩ none)
        (.before .fresh ⟨none, Dict.empty⟩ [none, none, none, some (.error "store is down")])).2
      (exec (host (.still false ["a"])) (apply (.still false ["a"]) ⟨"r", none, none⟩ none)
        (.before .fresh ⟨none, Dict.empty⟩ [none, none, none, some (.error "store is down")])).1 := by
  intro h
  rcases h.settled ⟨"r", ["a"], .requested, false, 0⟩ rfl with h | h
  · exact nomatch h
  · exact nomatch h

end Qmtl.WorldService

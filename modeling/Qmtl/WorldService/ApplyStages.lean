import Qmtl.WorldService.ActivationEvents

/-!
What the stages of a run leave behind, whether they come to their end or a call raises on the way.
-/

namespace Qmtl.WorldService

open Lib Lib.Coro

variable {env : Env} {ctx : ApplyContext}

/-! ### Edges -/

def editEdges (active : Bool) (reason : String) (domains : List String) (o : Dict (String × String) Override) :
    Dict (String × String) Override :=
  domains.foldl (fun o d => o.set (edgeKey d) (Override.make active (some reason))) o

def saveEdges (o₀ : Dict (String × String) Override) (domains : List String)
    (saved : Dict (String × String) (Option Override)) : Dict (String × String) (Option Override) :=
  domains.foldl (fun m d => if (m.get? (edgeKey d)).isNone then m.set (edgeKey d) (o₀.get? (edgeKey d)) else m) saved

def Tracked (o₀ : Dict (String × String) Override) (s : Sys) : Prop :=
  ∀ k, (∀ previous, s.memory.saved.get? k = some previous → previous = o₀.get? k) ∧
    (s.memory.saved.get? k = none → s.world.overrides.get? k = o₀.get? k)

variable {active : Bool} {c : Call} {domain reason : String} {e : Exn} {n : ℕ} {o₀ : Dict (String × String) Override}
  {s s' s₁ : Sys} {stage : ApplyStage}

lemma Tracked.of_eq (h : Tracked o₀ s) (ho : s'.world.overrides = s.world.overrides)
    (hs : s'.memory.saved = s.memory.saved) : Tracked o₀ s' := by
  intro k
  rw [ho, hs]
  exact h k

lemma Tracked.edit {k : String × String} {o : Override} (h : Tracked o₀ s)
    (hk : (s.memory.saved.get? k).isNone = false) (ho : s'.world.overrides = s.world.overrides.set k o)
    (hs : s'.memory.saved = s.memory.saved) : Tracked o₀ s' := by
  intro k'
  rw [ho, hs]
  refine ⟨(h k').1, ?_⟩
  intro hn
  have hne : k' ≠ k := by
    rintro rfl
    rw [hn] at hk
    exact absurd hk (by decide)
  rw [Dict.get?_set_ne _ _ hne]
  exact (h k').2 hn

lemma Tracked.save {k : String × String} (h : Tracked o₀ s) (hk : s.memory.saved.get? k = none)
    (ho : s'.world.overrides = s.world.overrides)
    (hs : s'.memory.saved = s.memory.saved.set k (s.world.overrides.get? k)) : Tracked o₀ s' := by
  intro k'
  rw [ho, hs, Dict.get?_set]
  by_cases heq : k' = k
  · subst heq
    rw [if_pos rfl]
    refine ⟨?_, fun hn => nomatch hn⟩
    intro previous hp
    rw [← Option.some.inj hp]
    exact (h k').2 hk
  · rw [if_neg heq]
    exact h k'

/-- What a loop over domains leaves when it comes to its end. -/
structure EdgesSet (o₀ : Dict (String × String) Override) (active : Bool) (reason : String) (domains : List String)
    (s s' : Sys) : Prop where
  raised : s'.raised = s.raised
  run : s'.memory.run = s.memory.run
  saved : s'.memory.saved = saveEdges o₀ domains s.memory.saved
  world : s'.world = { s.world with overrides := editEdges active reason domains s.world.overrides }
  tracked : Tracked o₀ s'

def Call.overrides : Call → Bool
  | saveOverride _ => true
  | upsertEdgeOverride _ _ _ => true
  | _ => false

/-- What a loop over domains leaves when a call raised. -/
structure EdgesFailed (o₀ : Dict (String × String) Override) (s s' : Sys) (e : Exn) : Prop where
  raised : ∃ c, c.overrides = true ∧ s'.raised = s.raised ++ [(c, e)]
  run : s'.memory.run = s.memory.run
  tracked : Tracked o₀ s'

lemma wp_upsertEdge (h : Tracked o₀ s₁) (hs : (s₁.memory.saved.get? (edgeKey domain)).isNone = false)
    (hsaved : s₁.memory.saved = saveEdges o₀ [domain] s.memory.saved) (hwr : s₁.world = s.world)
    (hrun : s₁.memory.run = s.memory.run) (hrs : s₁.raised = s.raised) :
    wp (host env) (call (.upsertEdgeOverride (edgeKey domain) active (some reason)))
      (ends (fun _ s' => EdgesSet o₀ active reason [domain] s s') fun e s' => EdgesFailed o₀ s s' e) s₁ := by
  refine wp_call ?_ ?_
  · intro e s' hw hm hr
    exact ⟨⟨_, rfl, by rw [hr, hrs]⟩, by rw [hm, hrun], h.of_eq (by rw [hw]) (by rw [hm])⟩
  · intro s' hw hm hr
    simp only [Call.effect] at hw hm
    refine ⟨by rw [hr, hrs], by rw [hm, hrun], by rw [hm, hsaved], ?_, h.edit hs (by rw [hw]) (by rw [hm])⟩
    rw [hw, hwr]
    rfl

lemma wp_setEdgeOverride (h : Tracked o₀ s) : wp (host env) (setEdgeOverride active reason domain)
      (ends (fun _ s' => EdgesSet o₀ active reason [domain] s s') fun e s' => EdgesFailed o₀ s s' e) s := by
  unfold setEdgeOverride
  simp only [bind_eq]
  rw [wp_bind]
  refine wp_memory ?_
  rw [ends_ok]
  by_cases hk : (s.memory.saved.get? (edgeKey domain)).isNone
  · rw [if_pos hk]
    have hn : s.memory.saved.get? (edgeKey domain) = none := by simpa using hk
    refine wp_call_bind rfl ?_ ?_
    · intro e s' hw hm hr
      exact ⟨⟨_, rfl, hr⟩, by rw [hm], h.of_eq (by rw [hw]) (by rw [hm])⟩
    · intro s₁ hw hm hr
      simp only [Call.effect] at hw hm
      have hsaved : s₁.memory.saved = s.memory.saved.set (edgeKey domain) (s.world.overrides.get? (edgeKey domain)) := by
        rw [hm]
      refine wp_upsertEdge (h.save hn (by rw [hw]) hsaved) (by simp [hsaved]) ?_ hw (by rw [hm]) hr
      rw [hsaved, (h _).2 hn]
      exact (if_pos hk).symm
  · rw [if_neg hk]
    exact wp_upsertEdge h (Bool.not_eq_true _ ▸ hk) (if_neg hk).symm rfl rfl rfl

lemma EdgesSet.snoc {domains : List String} {s₂ : Sys} (h₁ : EdgesSet o₀ active reason domains s s₁)
    (h₂ : EdgesSet o₀ active reason [domain] s₁ s₂) : EdgesSet o₀ active reason (domains ++ [domain]) s s₂ where
  raised := h₂.raised.trans h₁.raised
  run := h₂.run.trans h₁.run
  saved := by
    rw [h₂.saved, h₁.saved]
    unfold saveEdges
    rw [List.foldl_append]
  world := by
    rw [h₂.world, h₁.world]
    unfold editEdges
    rw [List.foldl_append]
  tracked := h₂.tracked

lemma wp_setEdges {domains : List String} (h : Tracked o₀ s) :
    wp (host env) (forEach (setEdgeOverride active reason) domains)
      (ends (fun _ s' => EdgesSet o₀ active reason domains s s') fun e s' => EdgesFailed o₀ s s' e) s := by
  refine wp_forEach (I := fun done _ s' => EdgesSet o₀ active reason done s s') ?_ ⟨rfl, rfl, rfl, rfl, h⟩
  intro done domain rest s₁ hd
  refine wp_mono (wp_setEdgeOverride hd.tracked) ?_
  intro r s' hr
  refine ends_mono hr ?_ ?_
  · intro _ hset
    exact hd.snoc hset
  · intro e hf
    obtain ⟨c, hc, hrs⟩ := hf.raised
    exact ⟨⟨c, hc, by rw [hrs, hd.raised]⟩, by rw [hf.run, hd.run], hf.tracked⟩

/-! ### Stages -/

def Underway (ctx : ApplyContext) (stage : ApplyStage) (n : ℕ) (s : Sys) : Prop :=
  s.memory.run = some ⟨ctx.runId, ctx.target, stage, false, n⟩

def Call.inStages : Call → Bool
  | determineActive _ => false
  | getDecisions => false
  | snapshotActivation => false
  | restoreActivation _ => false
  | deleteEdgeOverride _ => false
  | recordApplyStage .requested => false
  | recordApplyStage .completed => false
  | recordApplyStage .rolledBack => false
  | _ => true

lemma Call.inStages_of_publishes (h : c.publishes = true) : c.inStages = true := by
  cases c <;> first | rfl | cases h

lemma Call.inStages_of_overrides (h : c.overrides = true) : c.inStages = true := by
  cases c <;> first | rfl | cases h

structure Interrupted (o₀ : Dict (String × String) Override) (ctx : ApplyContext) (s s' : Sys) (e : Exn) : Prop where
  raised : ∃ c, c.inStages = true ∧ s'.raised = s.raised ++ [(c, e)]
  run : ∃ stage n, stage ≠ .rolledBack ∧ Underway ctx stage n s'
  tracked : Tracked o₀ s'

lemma Interrupted.of_raised_eq (h : Interrupted o₀ ctx s₁ s' e) (hr : s₁.raised = s.raised) :
    Interrupted o₀ ctx s s' e where
  raised := by rw [← hr]; exact h.raised
  run := h.run
  tracked := h.tracked

lemma Underway.advance {k : ℕ} (h : Underway ctx stage n s) (hm : s'.memory = s.memory.advance k) :
    Underway ctx stage (n + k) s' := by
  unfold Underway at h ⊢
  rw [hm]
  simp [Memory.advance, h]

lemma Underway.sequence (h : Underway ctx stage n s) : s.memory.sequence = n := by
  unfold Underway at h
  simp [Memory.sequence, h]

lemma wp_mark_stage {stage' : ApplyStage} {Q : Except Exn Unit → Sys → Prop} (h : Underway ctx stage n s)
    (hQ : ∀ s', s'.world = s.world → s'.memory.saved = s.memory.saved → s'.raised = s.raised →
      Underway ctx stage' n s' → Q (.ok ()) s') : wp (host env) (mark stage' none none) Q s := by
  unfold Underway at h
  refine wp_modify (hQ _ rfl rfl rfl ?_)
  simp [Underway, h, ApplyRunState.mark]

lemma PublishFailed.interrupted {ps : List ActivationPayload} (h : PublishFailed ps s s' e)
    (hrun : Underway ctx stage n s) (hs : stage ≠ .rolledBack) (ht : Tracked o₀ s) :
    Interrupted o₀ ctx s s' e where
  raised := by
    obtain ⟨c, hc, hr⟩ := h.raised
    exact ⟨c, Call.inStages_of_publishes hc, hr⟩
  run := by
    obtain ⟨k, hk⟩ := h.memory
    exact ⟨stage, n + k, hs, hrun.advance hk⟩
  tracked := by
    obtain ⟨k, hk⟩ := h.memory
    exact ht.of_eq h.overrides (by rw [hk]; rfl)

lemma Interrupted.of_call (hc : c.inStages) (hrun : Underway ctx stage n s) (hs : stage ≠ .rolledBack)
    (ht : Tracked o₀ s) (hw : s'.world = s.world) (hm : s'.memory = s.memory)
    (hr : s'.raised = s.raised ++ [(c, e)]) : Interrupted o₀ ctx s s' e where
  raised := ⟨c, hc, hr⟩
  run := by
    refine ⟨stage, n, hs, ?_⟩
    unfold Underway
    rw [hm]
    exact hrun
  tracked := ht.of_eq (by rw [hw]) (by rw [hm])

structure PhaseDone (env : Env) (ctx : ApplyContext) (stage : ApplyStage) (phase : String) (n : ℕ)
    (ps : List ActivationPayload) (s s' : Sys) : Prop where
  raised : s'.raised = s.raised
  run : Underway ctx stage (n + ps.length) s'
  saved : s'.memory.saved = s.memory.saved
  decisions : s'.world.decisions = s.world.decisions
  overrides : s'.world.overrides = s.world.overrides
  content : ∀ sid side, s'.world.activation.contentAt sid side =
    ((lastFor ps sid side).map ActivationPayload.content).or (s.world.activation.contentAt sid side)
  events : ∃ es, s'.world.events = s.world.events ++ es ∧ Numbered env phase n ps es

/-- **A freeze or an unfreeze**: the stage is marked, the payloads are published, the stage is recorded. -/
theorem wp_phase {stage' : ApplyStage} {phase : String} {ps : List ActivationPayload}
    (hw : ∀ p ∈ ps, ∃ w, p.weight = some (some w)) (hr : (Call.recordApplyStage stage').inStages)
    (hs : stage' ≠ .rolledBack) (hrun : Underway ctx stage n s) (ht : Tracked o₀ s) :
    wp (host env) ((mark stage' none none).bind fun _ =>
        (forEach (publishUpdate env phase) ps).bind fun _ => call (.recordApplyStage stage'))
      (ends (fun _ s' => PhaseDone env ctx stage' phase n ps s s') fun e s' => Interrupted o₀ ctx s s' e) s := by
  rw [wp_bind]
  refine wp_mark_stage hrun ?_
  intro s₁ hw₁ hs₁ hr₁ hrn₁
  have ht₁ : Tracked o₀ s₁ := ht.of_eq (by rw [hw₁]) hs₁
  rw [ends_ok, wp_bind]
  refine wp_mono (wp_publishAll hw s₁) ?_
  intro r s₂ h
  refine ends_mono h ?_ ?_
  · intro _ hpub
    have hr₂ := hrn₁.advance hpub.memory
    have hs₂ : s₂.memory.saved = s₁.memory.saved := by rw [hpub.memory]; rfl
    have ht₂ : Tracked o₀ s₂ := ht₁.of_eq hpub.overrides hs₂
    refine wp_call ?_ ?_
    · intro e s' hw' hm' hr'
      exact (Interrupted.of_call hr hr₂ hs ht₂ hw' hm' hr').of_raised_eq (hpub.raised.trans hr₁)
    · intro s' hw' hm' hr'
      simp only [Call.effect] at hw' hm'
      refine ⟨by rw [hr', hpub.raised, hr₁], ?_, by rw [hm', hs₂, hs₁], by rw [hw', hpub.decisions, hw₁],
        by rw [hw', hpub.overrides, hw₁], ?_, ?_⟩
      · unfold Underway
        rw [hm']
        exact hr₂
      · intro sid side
        rw [hw', hpub.content, hw₁]
      · obtain ⟨es, hes, hn⟩ := hpub.events (by rw [hrn₁]; rfl)
        rw [hrn₁.sequence] at hn
        exact ⟨es, by rw [hw', hes, hw₁], hn⟩
  · intro e hf
    exact (hf.interrupted hrn₁ hs ht₁).of_raised_eq hr₁

/-- What the switch of the decisions leaves. -/
structure SwitchDone (ctx : ApplyContext) (n : ℕ) (s s' : Sys) : Prop where
  raised : s'.raised = s.raised
  run : Underway ctx .switch n s'
  saved : s'.memory.saved = s.memory.saved
  world : s'.world = { s.world with decisions := ctx.target }

lemma wp_switchDecisions (hs : stage ≠ .rolledBack) (hrun : Underway ctx stage n s) (ht : Tracked o₀ s) :
    wp (host env) (switchDecisions ctx)
      (ends (fun _ s' => SwitchDone ctx n s s') fun e s' => Interrupted o₀ ctx s s' e) s := by
  unfold switchDecisions
  simp only [bind_eq]
  refine wp_call_bind rfl ?_ ?_
  · intro e s' hw hm hr
    exact .of_call rfl hrun hs ht hw hm hr
  · intro s₁ hw₁ hm₁ hr₁
    simp only [Call.effect] at hw₁ hm₁
    rw [wp_bind]
    have hrn₁ : Underway ctx stage n s₁ := by
      unfold Underway
      rw [hm₁]
      exact hrun
    refine wp_mark_stage hrn₁ ?_
    intro s₂ hw₂ hs₂ hr₂ hrn₂
    have ht₂ : Tracked o₀ s₂ := ht.of_eq (by rw [hw₂, hw₁]) (by rw [hs₂, hm₁])
    rw [ends_ok]
    refine wp_call ?_ ?_
    · intro e s' hw hm hr
      exact (Interrupted.of_call rfl hrn₂ (by decide) ht₂ hw hm hr).of_raised_eq (hr₂.trans hr₁)
    · intro s' hw hm hr
      simp only [Call.effect] at hw hm
      refine ⟨by rw [hr, hr₂, hr₁], ?_, by rw [hm, hs₂, hm₁], by rw [hw, hw₂, hw₁]⟩
      unfold Underway
      rw [hm]
      exact hrn₂

lemma wp_notifyPolicyUpdate (hs : stage ≠ .rolledBack) (hrun : Underway ctx stage n s) (ht : Tracked o₀ s) :
    wp (host env) (notifyPolicyUpdate env ctx)
      (ends (fun _ s' => s'.world = s.world ∧ s'.memory = s.memory ∧ s'.raised = s.raised)
        fun e s' => Interrupted o₀ ctx s s' e) s := by
  unfold notifyPolicyUpdate
  by_cases hb : env.bus
  · rw [if_pos hb]
    refine wp_call_bind rfl ?_ ?_
    · intro e s' hw hm hr
      exact .of_call rfl hrun hs ht hw hm hr
    · intro s₁ hw₁ hm₁ hr₁
      refine wp_call ?_ ?_
      · intro e s' hw hm hr
        exact .of_call rfl hrun hs ht (hw.trans hw₁) (hm.trans hm₁) (by rw [hr, hr₁])
      · intro s' hw hm hr
        exact ⟨hw.trans hw₁, hm.trans hm₁, hr.trans hr₁⟩
  · rw [if_neg hb]
    exact ⟨rfl, rfl, rfl⟩

lemma EdgesFailed.interrupted (h : EdgesFailed o₀ s s' e) (hrun : Underway ctx stage n s)
    (hs : stage ≠ .rolledBack) :
    Interrupted o₀ ctx s s' e where
  raised := by
    obtain ⟨c, hc, hr⟩ := h.raised
    exact ⟨c, Call.inStages_of_overrides hc, hr⟩
  run := ⟨stage, n, hs, h.run.trans hrun⟩
  tracked := h.tracked

/-- What the stages leave when they come to their end. -/
structure StagesDone (env : Env) (ctx : ApplyContext) (o₀ : Dict (String × String) Override) (s s' : Sys) : Prop where
  raised : s'.raised = s.raised
  run : ∃ n, Underway ctx .unfreeze n s'
  saved : s'.memory.saved = saveEdges o₀ ctx.plan.postEnable (saveEdges o₀ ctx.plan.preDisable s.memory.saved)
  tracked : Tracked o₀ s'
  decisions : s'.world.decisions = ctx.target
  overrides : s'.world.overrides = editEdges true ("post_promotion_enable:" ++ ctx.runId) ctx.plan.postEnable
    (editEdges false ("pre_promotion_disable:" ++ ctx.runId) ctx.plan.preDisable s.world.overrides)
  content : ∀ sid side, s'.world.activation.contentAt sid side =
    ((lastFor (unfreezePayloads env ctx.runId ctx.snapshot.state ctx.target) sid side).map ActivationPayload.content).or
      (((lastFor (ctx.snapshot.state.items.map (freezePayload ctx.runId)) sid side).map ActivationPayload.content).or
        (s.world.activation.contentAt sid side))
  events : ∃ fs us, s'.world.events = s.world.events ++ (fs ++ us) ∧
    Numbered env "freeze" 0 (ctx.snapshot.state.items.map (freezePayload ctx.runId)) fs ∧
    Numbered env "unfreeze" ctx.snapshot.state.items.length
      (unfreezePayloads env ctx.runId ctx.snapshot.state ctx.target) us

lemma freezePayload_weight {runId : String} {state : Sides} :
    ∀ p ∈ state.items.map (freezePayload runId), ∃ w, p.weight = some (some w) := by
  intro p hp
  obtain ⟨item, -, rfl⟩ := List.mem_map.mp hp
  exact ⟨_, rfl⟩

lemma unfreezePayloads_weight {runId : String} {state : Sides} {target : List String} :
    ∀ p ∈ unfreezePayloads env runId state target, ∃ w, p.weight = some (some w) := by
  intro p hp
  rcases List.mem_append.mp hp with hp | hp
  · obtain ⟨item, -, rfl⟩ := List.mem_map.mp hp
    exact ⟨_, rfl⟩
  · obtain ⟨sid, -, rfl⟩ := List.mem_map.mp hp
    exact ⟨_, rfl⟩

/-- **The stages** come to their end, or a call raises on the way and leaves the run unfinished. -/
theorem wp_stages (hrun : Underway ctx .requested 0 s) (hsaved : s.memory.saved = Dict.empty) :
    wp (host env) (stages env ctx) (ends (fun _ s' => StagesDone env ctx s.world.overrides s s') fun e s' =>
        Interrupted s.world.overrides ctx s s' e) s := by
  have ht : Tracked s.world.overrides s := by
    intro k
    rw [hsaved]
    exact ⟨fun _ hp => (nomatch hp), fun _ => rfl⟩
  unfold stages
  simp only [bind_eq]
  rw [wp_bind]
  refine wp_mono (wp_setEdges ht) ?_
  intro r₁ s₁ h₁
  refine ends_mono h₁ ?_ fun e he => he.interrupted hrun (by decide)
  intro _ hpre
  have hr₁ : Underway ctx .requested 0 s₁ := hpre.run.trans hrun
  rw [wp_bind]
  refine wp_mono (wp_phase freezePayload_weight rfl (by decide) hr₁ hpre.tracked) ?_
  intro r₂ s₂ h₂
  refine ends_mono h₂ ?_ fun e he => he.of_raised_eq hpre.raised
  intro _ hf
  have hr₂ := hf.raised.trans hpre.raised
  have ht₂ := hpre.tracked.of_eq hf.overrides hf.saved
  rw [wp_bind]
  refine wp_mono (wp_switchDecisions (by decide) hf.run ht₂) ?_
  intro r₃ s₃ h₃
  refine ends_mono h₃ ?_ fun e he => he.of_raised_eq hr₂
  intro _ hs
  have hr₃ := hs.raised.trans hr₂
  have ht₃ := ht₂.of_eq (by rw [hs.world]) hs.saved
  rw [wp_bind]
  refine wp_mono (wp_notifyPolicyUpdate (by decide) hs.run ht₃) ?_
  intro r₄ s₄ h₄
  refine ends_mono h₄ ?_ fun e he => he.of_raised_eq hr₃
  intro _ ⟨hw₄, hm₄, hr₄⟩
  have hrs₄ := hr₄.trans hr₃
  have ht₄ := ht₃.of_eq (by rw [hw₄]) (by rw [hm₄])
  have hrn₄ : Underway ctx .switch (0 + (ctx.snapshot.state.items.map (freezePayload ctx.runId)).length) s₄ := by
    unfold Underway
    rw [hm₄]
    exact hs.run
  rw [wp_bind]
  refine wp_mono (wp_phase unfreezePayloads_weight rfl (by decide) hrn₄ ht₄) ?_
  intro r₅ s₅ h₅
  refine ends_mono h₅ ?_ fun e he => he.of_raised_eq hrs₄
  intro _ hu
  have hr₅ := hu.raised.trans hrs₄
  have ht₅ := ht₄.of_eq hu.overrides hu.saved
  refine wp_mono (wp_setEdges ht₅) ?_
  intro r₆ s₆ h₆
  refine ends_mono h₆ ?_ fun e he => (he.interrupted hu.run (by decide)).of_raised_eq hr₅
  intro _ hps
  refine ⟨hps.raised.trans hr₅, ⟨_, hps.run.trans hu.run⟩, ?_, hps.tracked, ?_, ?_, ?_, ?_⟩
  · rw [hps.saved, hu.saved, hm₄, hs.saved, hf.saved, hpre.saved]
  · rw [hps.world]
    rw [hu.decisions, hw₄, hs.world]
  · rw [hps.world]
    rw [hu.overrides, hw₄, hs.world]
    rw [hf.overrides, hpre.world]
  · intro sid side
    rw [hps.world]
    rw [hu.content, hw₄, hs.world]
    rw [hf.content, hpre.world]
  · obtain ⟨fs, hfs, hfn⟩ := hf.events
    obtain ⟨us, hus, hun⟩ := hu.events
    refine ⟨fs, us, ?_, hfn, ?_⟩
    · rw [hps.world]
      rw [hus, hw₄, hs.world]
      rw [hfs, hpre.world, List.append_assoc]
    · simpa using hun

end Qmtl.WorldService

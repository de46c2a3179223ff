import Qmtl.WorldService.PromotionRaces

/-!
The decisions that a promotion sets, in any interleaving of promotion requests: where it has been quiet, they are what
the policy allows.
-/

namespace Qmtl.WorldService.Promotion

open Lib WorldService

variable {env : Env} {s t u : Sys} {new new' : List Entry} {i : ℕ} {key : Key} {run : EvaluationRun} {A B : Sys → Prop}

/-! ### Decisions -/

lemma mem_names {texts : List String} {text : String} : text ∈ names texts ↔ text ∈ texts ∧ strip text ≠ "" := by
  unfold names
  rw [List.mem_insertionSort, List.mem_dedup, List.mem_filter, decide_eq_true_eq]

lemma sorted_dedup_eq {l l' : List String} (h : ∀ text, text ∈ l ↔ text ∈ l') :
    l.dedup.insertionSort (· ≤ ·) = l'.dedup.insertionSort (· ≤ ·) := by
  have hp : l.dedup.Perm l'.dedup :=
    (List.perm_ext_iff_of_nodup l.nodup_dedup l'.nodup_dedup).mpr fun text => by
      rw [List.mem_dedup, List.mem_dedup]
      exact h text
  refine List.Perm.eq_of_pairwise (fun a b _ _ hab hba => String.le_antisymm hab hba)
    (List.pairwise_insertionSort _ _) (List.pairwise_insertionSort _ _) ?_
  exact ((List.perm_insertionSort _ _).trans hp).trans (List.perm_insertionSort _ _).symm

lemma mem_planTo {decisions current target : List String} (h : ∀ sid, sid ∈ current ↔ sid ∈ decisions) (sid : String) :
    sid ∈ (decisions.filter fun sid => !(planTo current target).deactivate.contains sid) ++
      (planTo current target).activate ↔ sid ∈ target := by
  have hc : (planTo current target).deactivate.contains sid ↔ sid ∈ decisions ∧ sid ∉ target := by
    rw [List.contains_iff_mem]
    show sid ∈ current.filter _ ↔ _
    rw [List.mem_filter, h, decide_eq_true_eq]
  have hac : sid ∈ (planTo current target).activate ↔ sid ∈ target ∧ sid ∉ decisions := by
    show sid ∈ target.filter _ ↔ _
    rw [List.mem_filter, decide_eq_true_eq, h]
  rw [List.mem_append, List.mem_filter, Bool.not_eq_true', ← Bool.not_eq_true, hc, hac]
  tauto

lemma determineActive_congr (e : WorldService.Env) {w w' : World} (runId : String) (plan : ApplyPlan)
    (h : w.decisions = w'.decisions) :
    determineActive e w ⟨runId, some plan, none⟩ = determineActive e w' ⟨runId, some plan, none⟩ := by
  unfold determineActive
  rw [h]

/-- **The plan** between decisions with names leads to the names of the active set. -/
theorem determineActive_planTo (e : WorldService.Env) {w : World} (runId : String) (active : List String)
    (hn : ∀ sid ∈ w.decisions, strip sid ≠ "") :
    determineActive e w ⟨runId, some (planTo (names w.decisions) (names active)), none⟩ = .ok (names active) := by
  have hc : ∀ sid, sid ∈ names w.decisions ↔ sid ∈ w.decisions :=
    fun sid => mem_names.trans (and_iff_left_of_imp (hn sid))
  refine congrArg Except.ok (sorted_dedup_eq fun sid => (mem_planTo hc sid).trans ?_)
  rw [mem_names, List.mem_filter, decide_eq_true_eq]

variable (env) in
structure Cleared (run : EvaluationRun) (active : List String) : Prop where
  paper : lower env run.stage = "paper"
  passed : summaryStatus env run.summary ∈ ["pass", "warn"]
  evidence : activeSet run.summary = some active
  approved : modeOf env env.governance = "manual_approval" → overrideStatus env run.summary = "approved"
  room : ∀ n ∈ env.governance.maxLiveSlots, ((names active).length : ℤ) ≤ n

variable (env) in
def Checked (key : Key) (run : EvaluationRun) (current : List String) (s : Sys) : Prop :=
  (SameRun env key run s ∧ s.world.decisions = current) ∧ Cooled env s

variable (env) in
lemma lasting_checked (key : Key) (run : EvaluationRun) (current : List String) :
    Lasting env key (Checked env key run current) :=
  ((lasting_sameRun env key run).and (lasting_decisions key current)).and (lasting_cooled env key)

def Determined (env : Env) (current : List String) (payload : ApplyRequest) (target : List String) : Prop :=
  ∀ w : World, w.decisions = current → determineActive env.service w payload = .ok target

/-- **A switch** is allowed where it has been quiet and the run was not rejected. -/
theorem allowed_of_steady {active current target : List String} {runId : String} {now : ℤ} (hc : Cleared env run active)
    (hk : Knows i key run (fun s => Checked env key run current s ∧
      Determined env current ⟨runId, some (planTo (names current) (names active)), none⟩ target) s)
    (hs : steady env s i) (hclo : s.clock ≤ now) : Allowed env ⟨target, s.runs, s.completed, now⟩ := by
  obtain ⟨rest, hsn, hq⟩ := hk
  unfold steady at hs
  rw [hsn] at hs
  simp only [Bool.and_eq_true, decide_eq_true_eq, List.all_eq_true] at hs
  obtain ⟨⟨hr, hrs⟩, hnm⟩ := hs
  obtain ⟨⟨⟨⟨run', hget, he, hst⟩, hd⟩, hcl⟩, hdt⟩ := hq (List.all_eq_true.mpr hrs)
  have htarget : target = names active := by
    have hplan := determineActive_planTo env.service (w := s.world) runId active hnm
    rw [hd, hdt s.world hd] at hplan
    exact Except.ok.inj hplan
  constructor
  case run =>
    refine ⟨key, run', hget, ?_, ?_, ⟨active, ?_, htarget⟩, ?_, ?_⟩
    · rw [he.stage]
      exact hc.paper
    · rw [he.summaryStatus]
      exact hc.passed
    · rw [he.activeSet]
      exact hc.evidence
    · rcases hst with h | h
      · rw [h]
        exact hr
      · rw [h]
        decide
    · intro hm
      rcases hst with h | h
      · rw [h]
        exact hc.approved hm
      · exact h
  case slots =>
    intro n hn
    rw [htarget]
    exact hc.room n hn
  case cooldown =>
    intro seconds hsc hpos at' hat
    exact (hcl seconds hsc hpos at' hat).trans hclo

/-! ### Inside `apply` -/

variable (env) in
def applyProto (i : ℕ) : Protocol WorldService.Op WorldService.Op.Ans Exn Sys Choice :=
  (proto env i).comap Op.service fun _ answer => answer

/-- The steps that are always answered, and do not set the decisions. -/
def Answered : WorldService.Op → Prop
  | .call (.determineActive _) => False
  | .call (.setDecisions _) => False
  | .call (.updateActivation payload) => payload.weight ≠ some none
  | _ => True

lemma exists_answer {o : WorldService.Op} (ho : Answered o) (e : Choice) (s : Sys) :
    ∃ a, ((applyProto env i).perform o e s).1 = .ok a := by
  cases o with
  | read => exact ⟨_, rfl⟩
  | write f => exact ⟨_, rfl⟩
  | call c =>
    cases c with
    | determineActive payload => exact ho.elim
    | setDecisions strategies => exact ho.elim
    | updateActivation payload =>
      obtain ⟨strategyId, side, active, weight, freeze, drain, effectiveMode, runId, ts⟩ := payload
      cases weight with
      | none => exact ⟨_, rfl⟩
      | some weight =>
        cases weight with
        | none => exact absurd rfl ho
        | some w => exact ⟨_, rfl⟩
    | _ => exact ⟨_, rfl⟩

lemma plain_of_answered {o : WorldService.Op} (ho : Answered o) : Plain (.service o) := by
  refine ⟨?_, trivial⟩
  cases o with
  | call c =>
    cases c with
    | setDecisions strategies => exact ho.elim
    | _ => rfl
  | _ => rfl

lemma safe_calm {α : Type} {m : WorldService.Task α} {K : Sys → Prop} (hK : Stable env K) (hm : Calm Answered m)
    (hk : K s) : Safe (applyProto env i) (fun r s => K s ∧ ∃ a, r = .ok a) m s := by
  refine Calm.safe ?_ ?_ hm hk
  · rintro s t ⟨new, hg, _⟩ hs
    exact hK s t new hg hs
  · intro o ho s hs hk
    refine ⟨trivial, fun e he => ?_⟩
    obtain ⟨hj, new, hgr, hby⟩ := step_plain (i := i) (plain_of_answered ho) hs he.1
    exact ⟨hj, ⟨new, hgr, hby⟩, hK s _ new hgr hk, exists_answer ho e s⟩

lemma safe_calm_bind {α β : Type} {m : WorldService.Task α} {f : α → WorldService.Task β} {K : Sys → Prop}
    {Q : Except Exn β → Sys → Prop} (hK : Stable env K) (hm : Calm Answered m) (hk : K s)
    (h : ∀ a t, K t → Safe (applyProto env i) Q (f a) t) : Safe (applyProto env i) Q (m.bind f) s := by
  rw [Safe.bind_iff]
  refine (safe_calm hK hm hk).mono ?_
  rintro r t ⟨ht, a, rfl⟩
  exact h a t ht

lemma calm_call (c : Call) (hc : Answered (.call c)) : Calm Answered (call c) := Calm.perform hc

lemma calm_modify (f : Memory → Memory) : Calm Answered (modify f) := Calm.perform (o := WorldService.Op.write f) trivial

lemma calm_mark (stage : ApplyStage) (completed : Option Bool) (active : Option (List String)) :
    Calm Answered (mark stage completed active) := calm_modify _

lemma calm_forEach {α : Type} {f : α → WorldService.Task Unit} {l : List α} (h : ∀ a ∈ l, Calm Answered (f a)) :
    Calm Answered (Coro.forEach f l) := by
  induction l with
  | nil => trivial
  | cons a l ih =>
    exact Calm.bind (h a List.mem_cons_self) fun _ => ih fun b hb => h b (.tail _ hb)

lemma calm_publishUpdate (e : WorldService.Env) (phase : String) {payload : ActivationPayload}
    (h : payload.weight ≠ some none) : Calm Answered (publishUpdate e phase payload) := by
  unfold publishUpdate nextSequence updateActivationState publishEntry
  refine Calm.bind (Calm.bind (calm_modify _) fun _ => Calm.bind (Calm.perform trivial) fun _ => trivial) fun sequence => ?_
  refine Calm.bind (calm_call (.updateActivation payload) h) fun r => ?_
  dsimp only
  split
  · refine Calm.bind (calm_call .getActivation trivial) fun _ => ?_
    exact Calm.bind (calm_call (.publishActivationUpdate _) trivial) fun _ => calm_call .publishSnapshot trivial
  · exact calm_call .publishSnapshot trivial

lemma calm_freezeWorld (e : WorldService.Env) (runId : String) (state : Sides) :
    Calm Answered (freezeWorld e runId state) := by
  refine calm_forEach fun payload hp => calm_publishUpdate e _ ?_
  obtain ⟨item, -, rfl⟩ := List.mem_map.mp hp
  exact fun h => absurd (Option.some.inj h) (by simp)

lemma calm_unfreezeWorld (e : WorldService.Env) (runId : String) (state : Sides) (target : List String) :
    Calm Answered (unfreezeWorld e runId state target) := by
  refine calm_forEach fun payload hp => calm_publishUpdate e _ ?_
  rcases List.mem_append.mp hp with hp | hp
  · obtain ⟨item, -, rfl⟩ := List.mem_map.mp hp
    exact fun h => absurd (Option.some.inj h) (by simp)
  · obtain ⟨sid, -, rfl⟩ := List.mem_map.mp hp
    exact fun h => absurd (Option.some.inj h) (by simp)

lemma calm_notifyPolicyUpdate (e : WorldService.Env) (ctx : ApplyContext) : Calm Answered (notifyPolicyUpdate e ctx) := by
  unfold notifyPolicyUpdate
  split
  · exact Calm.bind (calm_call .defaultPolicyVersion trivial) fun _ => calm_call (.publishPolicyUpdate _) trivial
  · trivial

variable {active current target : List String} {runId : String}

lemma safe_setDecisions {Q : Except Exn Unit → Sys → Prop} (hc : Cleared env run active)
    (hk : Knows i key run (fun s => Checked env key run current s ∧
      Determined env current ⟨runId, some (planTo (names current) (names active)), none⟩ target) s)
    (hQ : ∀ t, Q (.ok ()) t) : Safe (applyProto env i) Q (call (.setDecisions target)) s := by
  refine Safe.perform_iff.mpr ?_
  rintro t ⟨new, hg, _⟩ ht
  have hkt := hk.grows ((lasting_checked env key run current).and (Lasting.const _)) hg
  refine ⟨trivial, fun e he => ?_⟩
  obtain ⟨hcl, hs⟩ := he
  refine ⟨?_, perform_grows i (.service (.call (.setDecisions target))) e t hcl trivial, hQ _⟩
  intro sw hsw
  rcases List.mem_append.mp hsw with hsw | hsw
  · exact ht sw hsw
  · rw [List.mem_singleton.mp hsw]
    exact allowed_of_steady (s := t) hc hkt (hs rfl) hcl

lemma safe_startRun {Q : Except Exn ApplyAck → Sys → Prop} {ctx : ApplyContext} (hc : Cleared env run active)
    (hplan : ctx.plan = ⟨[], []⟩) (hk : Knows i key run (fun s => Checked env key run current s ∧
      Determined env current ⟨runId, some (planTo (names current) (names active)), none⟩ ctx.target) s)
    (hQ : ∀ r t, Q r t) : Safe (applyProto env i) Q (startRun env.service ctx) s := by
  have hs := stable_knows i run
    ((lasting_checked env key run current).and (Lasting.const
      (Determined env current ⟨runId, some (planTo (names current) (names active)), none⟩ ctx.target)))
  have htr : Stable env fun _ => True := fun _ _ _ _ _ => trivial
  refine safe_calm_bind hs (calm_modify _) hk fun _ t ht => ?_
  refine safe_calm_bind hs (Calm.bind (calm_mark _ _ _) fun _ => calm_call (.recordApplyStage _) trivial) ht fun _ t ht => ?_
  refine safe_calm_bind hs (calm_modify _) ht fun _ t ht => ?_
  rw [Safe.tryExcept_iff]
  -- nothing is raised, so nothing is rolled back
  suffices hb : Safe (applyProto env i) (fun r _ => ∃ a, r = .ok a) (body env.service ctx) t by
    refine hb.mono ?_
    rintro r u ⟨a, rfl⟩
    exact hQ _ u
  unfold body stages
  rw [Coro.bind_eq, Safe.bind_iff, hplan]
  refine Safe.bind_iff.mpr ?_
  refine safe_calm_bind hs ?_ ht fun _ t ht => ?_
  · exact Calm.bind (calm_mark _ _ _) fun _ => Calm.bind (calm_freezeWorld _ _ _) fun _ => calm_call (.recordApplyStage _) trivial
  refine Safe.bind_iff.mpr (Safe.bind_iff.mpr (safe_setDecisions hc ht fun t => ?_))
  refine safe_calm_bind htr (calm_mark _ _ _) trivial fun _ t _ => ?_
  refine (safe_calm htr (calm_call (.recordApplyStage _) trivial) trivial).mono ?_
  rintro r t ⟨-, a, rfl⟩
  refine safe_calm_bind htr (calm_notifyPolicyUpdate _ _) trivial fun _ t _ => ?_
  refine safe_calm_bind htr ?_ trivial fun _ t _ => ?_
  · exact Calm.bind (calm_mark _ _ _) fun _ => Calm.bind (calm_unfreezeWorld _ _ _ _) fun _ => calm_call (.recordApplyStage _) trivial
  refine safe_calm_bind htr (calm_mark _ _ _) trivial fun _ t _ => ?_
  refine safe_calm_bind htr (calm_call (.recordApplyStage _) trivial) trivial fun _ t _ => ?_
  exact ⟨_, rfl⟩

lemma safe_determineActive {Q : Except Exn (List String) → Sys → Prop}
    (hk : Knows i key run (Checked env key run current) s)
    (hQ : ∀ target t, Knows i key run (fun s => Checked env key run current s ∧
      Determined env current ⟨runId, some (planTo (names current) (names active)), none⟩ target) t → Q (.ok target) t) :
    Safe (applyProto env i) Q
      (call (.determineActive ⟨runId, some (planTo (names current) (names active)), none⟩)) s := by
  have hl := lasting_checked env key run current
  refine Safe.perform_iff.mpr ?_
  rintro t ⟨new, hg, _⟩ ht
  refine ⟨trivial, fun e he => ?_⟩
  obtain ⟨hj, hgr⟩ := step_plain (i := i) (o := .service (.call (.determineActive
    ⟨runId, some (planTo (names current) (names active)), none⟩))) ⟨rfl, trivial⟩ ht he.1
  refine ⟨hj, hgr, ?_⟩
  obtain ⟨target, htarget⟩ : ∃ target, determineActive env.service t.world
      ⟨runId, some (planTo (names current) (names active)), none⟩ = .ok target := ⟨_, rfl⟩
  have han : ((applyProto env i).perform (.call (.determineActive
      ⟨runId, some (planTo (names current) (names active)), none⟩)) e t).1 = .ok target := htarget
  rw [han]
  have hkt : Knows i key run (Checked env key run current) { t with clock := e.now } :=
    (hk.grows hl hg).grows hl (Grows.of_same he.1 rfl rfl rfl rfl rfl)
  refine hQ target _ (hkt.imp fun hc => ⟨hc, fun w hw => ?_⟩)
  rw [← htarget]
  exact determineActive_congr env.service _ _ (hw.trans hc.1.2.symm)

lemma safe_applyRun (hc : Cleared env run active) (hk : Knows i key run (Checked env key run current) s) :
    Safe (applyProto env i) (fun _ _ => True)
      (applyRun env.service ⟨runId, some (planTo (names current) (names active)), none⟩ none) s := by
  show Safe _ _ ((buildContext _ ⟨[], []⟩).bind fun context => startRun env.service context) s
  unfold buildContext
  rw [Safe.bind_iff, Coro.bind_eq, Safe.bind_iff]
  refine safe_determineActive hk fun target t ht => ?_
  have hs := stable_knows i run ((lasting_checked env key run current).and
    (Lasting.const (Determined env current ⟨runId, some (planTo (names current) (names active)), none⟩ target)))
  refine safe_calm_bind hs (calm_call .getDecisions trivial) ht fun decisions u hu => ?_
  refine safe_calm_bind hs (calm_call .snapshotActivation trivial) hu fun snapshot v hv => ?_
  exact safe_startRun hc rfl hv fun _ _ => trivial

/-- **An apply** of a plan sets the decisions under the condition. -/
theorem safe_apply (hc : Cleared env run active) (hk : Knows i key run (Checked env key run current) s) :
    Safe (applyProto env i) (fun _ _ => True)
      (apply env.service ⟨runId, some (planTo (names current) (names active)), none⟩ none) s := by
  have hs := stable_knows i run (lasting_checked env key run current)
  refine safe_calm_bind hs (Calm.perform (o := WorldService.Op.read) trivial) hk fun m t ht => ?_
  split
  · exact safe_applyRun hc ht
  · rw [Coro.bind_eq, Safe.bind_iff]
    rename_i st _
    cases ackForExisting st runId with
    | error e => trivial
    | ok answer =>
      cases answer with
      | inl ack => trivial
      | inr remove =>
        cases remove with
        | false => exact safe_applyRun hc ht
        | true => exact safe_calm_bind hs (calm_modify _) ht fun _ t ht => safe_applyRun hc ht

/-! ### Requests -/

lemma safe_serviceApply (hc : Cleared env run active) (hk : Knows i key run (Checked env key run current) s) :
    Safe (proto env i) (fun _ _ => True)
      (serviceApply env ⟨runId, some (planTo (names current) (names active)), none⟩) s := by
  have hs := stable_knows i run (lasting_checked env key run current)
  unfold serviceApply
  rw [Safe.bind_iff]
  refine safe_plain ⟨rfl, trivial⟩ (fun s t ⟨new, hg, _⟩ => hs s t new hg) hk fun t e new ht _ hg => ?_
  refine Safe.tryFinally_iff.mpr ?_
  have hr : ∀ (Q : Except Exn Unit → Sys → Prop) (u : Sys), (∀ r v, Q r v) →
      Safe (proto env i) Q (Coro.perform Op.release) u := fun Q u hQ =>
    safe_plain (K := fun _ => True) ⟨rfl, trivial⟩ (fun _ _ _ _ => trivial) trivial fun _ _ _ _ _ _ => hQ _ _
  refine Safe.mono (Q := fun _ _ => True) ?_ ?_
  · intro r u _
    refine hr _ u fun r' v => ?_
    cases r' <;> trivial
  · refine Safe.bind_iff.mpr (Safe.mono (Q := fun _ _ => True) ?_ ?_)
    · intro r u _
      cases r <;> trivial
    · exact Safe.embed_iff.mpr (safe_apply hc (hs _ _ new hg ht))

lemma Unread.rely (h : Unread i s) (hr : (proto env i).Rely s t) : Unread i t := by
  obtain ⟨new, hg, hnew⟩ := hr
  intro e he
  rw [hg.log] at he
  rcases List.mem_append.mp he with he | he
  · exact h e he
  · exact hnew e he

lemma safe_firstRead {Q : Except Exn (Option EvaluationRun) → Sys → Prop} (hB : Stable env B) (hu : Unread i s)
    (hb : B s) (hn : ∀ t, Q (.ok none) t)
    (hQ : ∀ run t, Knows i key run (SameRun env key run) t → t.runs.get? key = some run → B t → Q (.ok (some run)) t) :
    Safe (proto env i) Q (Coro.perform (Op.getEvaluationRun key)) s := by
  refine safe_plain (K := fun s => Unread i s ∧ B s) ⟨rfl, trivial⟩ ?_ ⟨hu, hb⟩ fun t e new ⟨ht, hbt⟩ _ hg => ?_
  · rintro s t ⟨new, hg, hnew⟩ ⟨hs, hbs⟩
    exact ⟨hs.rely ⟨new, hg, hnew⟩, hB s t new hg hbs⟩
  · have hbt' := hB _ _ new hg hbt
    cases hget : t.runs.get? key with
    | none =>
      simp only [perform, hget]
      exact hn _
    | some run =>
      simp only [perform, hget] at hbt' ⊢
      exact hQ run _ ⟨[], sinceRead_of_unread ht run, fun _ => ⟨run, hget, .refl run, .inl rfl⟩⟩ hget hbt'

lemma safe_secondRead {Q : Except Exn PlanResponse → Sys → Prop} (hk : Knows i key run (SameRun env key run) s)
    (hf : From key run s)
    (hQ : ∀ p active current t, PlanOf env run active current p → Knows i key run (Planned env key run current p) t →
      Q (.ok p) t) (her : ∀ e t, Q (.error e) t) : Safe (proto env i) Q (getLivePromotionPlan env key) s := by
  have hl := lasting_sameRun env key run
  unfold getLivePromotionPlan
  rw [Coro.bind_eq, Safe.bind_iff]
  refine safe_plain (K := fun s => Knows i key run (SameRun env key run) s ∧ From key run s) ⟨rfl, trivial⟩ ?_
    ⟨hk, hf⟩ fun t e new ⟨ht, hft⟩ _ hg => ?_
  · rintro s t ⟨new, hg, _⟩ ⟨hs, hfs⟩
    exact ⟨hs.grows hl hg, hfs.grows hg⟩
  · obtain ⟨run', hget, he⟩ := hft
    have hkt := ht.grows hl hg
    simp only [perform, hget] at hkt ⊢
    exact safe_planFrom hkt he hQ her

lemma refusalOf_none {blocked : List String} (h : refusalOf blocked false = none) :
    "not_paper_stage" ∉ blocked ∧ "validation_failed" ∉ blocked ∧ "cooldown_active" ∉ blocked ∧
      "max_live_slots_exceeded" ∉ blocked := by
  unfold refusalOf at h
  split_ifs at h with hpp hp hr hc hs
  exact ⟨hpp, fun hmem => hp ⟨hmem, rfl⟩, hc, hs⟩

lemma autoRefusal_none {p : PlanResponse} (h : autoRefusal env p key = none) :
    "validation_failed" ∉ p.blockedReasons ∧ (∀ n ∈ p.maxLiveSlots, (p.targetActive.length : ℤ) ≤ n) ∧
      p.cooldownRemaining.getD 0 ≤ 0 := by
  unfold autoRefusal at h
  split_ifs at h with hp hr hs hc hcn
  refine ⟨hp, fun n hn => ?_, not_lt.mp hc⟩
  rw [Option.mem_def.mp hn] at hs
  simpa using hs

/-- **A manual apply** changes the decisions under the condition. -/
theorem safe_postLivePromotionApply (applyRunId : String) (hun : Unread i s) :
    Safe (proto env i) (fun _ _ => True) (postLivePromotionApply env key applyRunId false) s := by
  unfold postLivePromotionApply
  rw [Coro.bind_eq, Safe.bind_iff]
  refine safe_plain (K := Unread i) ⟨rfl, trivial⟩ (fun s t hr hs => hs.rely hr) hun fun t e new ht _ _ => ?_
  show Safe _ _ (if modeOf env env.governance = "disabled" then _ else _) _
  split
  · trivial
  refine Safe.bind_iff.mpr (safe_firstRead (B := fun _ => True) (fun _ _ _ _ _ => trivial) ht trivial (fun _ => trivial) ?_)
  intro run u hu hget _
  dsimp only
  split
  · trivial
  rename_i hnot
  have hap : modeOf env env.governance = "manual_approval" → overrideStatus env run.summary = "approved" :=
    fun hmode => by_contra fun hne => hnot ⟨hmode, hne, rfl⟩
  refine Safe.bind_iff.mpr (safe_secondRead hu ⟨run, hget, .refl run⟩ ?_ fun _ _ => trivial)
  intro p active current v hp hv
  dsimp only
  cases hrf : refusalOf p.blockedReasons false with
  | some e => trivial
  | none =>
    obtain ⟨hpp, hps, hcl, hsl⟩ := refusalOf_none hrf
    have hc : Cleared env run active :=
      ⟨hp.reasons.paper hpp, hp.reasons.passed hps, hp.evidence, hap, hp.reasons.room hsl⟩
    have hch : Knows i key run (Checked env key run current) v :=
      hv.imp fun h => ⟨h.1, h.2 (.inr hcl)⟩
    refine Safe.bind_iff.mpr (Safe.mono (Q := fun _ _ => True) ?_ ?_)
    · intro r w _
      cases r with
      | error e => trivial
      | ok _ =>
        refine safe_uses (K := fun _ => True) (fun _ _ _ _ _ => trivial) ?_ trivial
        refine Uses.bind (Uses.perform ⟨rfl, trivial⟩) fun updated => ?_
        cases updated <;> trivial
    · rw [hp.plan]
      exact safe_serviceApply hc hch

lemma mem_of_freshest {runs : List EvaluationRun} (h : freshest env runs = some run) : run ∈ runs := by
  cases runs with
  | nil => cases h
  | cons first runs =>
    have hf : ∀ (l : List EvaluationRun) (best : EvaluationRun), l.foldl (fun best r =>
        let a := rank env best
        let b := rank env r
        if a.1 < b.1 ∨ a.1 = b.1 ∧ a.2 < b.2 then r else best) best ∈ best :: l := by
      intro l
      induction l with
      | nil => exact fun best => .head _
      | cons r l ih =>
        intro best
        rw [List.foldl_cons]
        rcases List.mem_cons.mp (ih _) with heq | hmem
        · rw [heq]
          dsimp only
          split
          · exact .tail _ List.mem_cons_self
          · exact .head _
        · exact .tail _ (.tail _ hmem)
    rw [← Option.some.inj h]
    exact hf runs first

lemma from_of_listed (runs : Runs) (h : run ∈ runs.table.entries.map Prod.snd) :
    runs.get? (run.strategyId, run.runId) = some run := by
  obtain ⟨⟨key, run'⟩, hmem, rfl⟩ := List.mem_map.mp h
  have hget : runs.table.get? key = some run' := Dict.get?_eq_some.mpr hmem
  rw [runs.keyed key run' hget]
  exact hget

/-- **An automatic apply** changes the decisions under the condition. -/
theorem safe_postLivePromotionAutoApply (hun : Unread i s) :
    Safe (proto env i) (fun _ _ => True) (postLivePromotionAutoApply env) s := by
  unfold postLivePromotionAutoApply
  rw [Coro.bind_eq, Safe.bind_iff]
  refine safe_plain (K := Unread i) ⟨rfl, trivial⟩ (fun s t hr hs => hs.rely hr) hun fun t e new ht _ _ => ?_
  show Safe _ _ (if modeOf env env.governance ≠ "auto_apply" then _ else _) _
  split
  · trivial
  rename_i hmode
  have hat : modeOf env env.governance = "auto_apply" := not_not.mp hmode
  refine Safe.bind_iff.mpr ?_
  refine safe_plain (K := Unread i) ⟨rfl, trivial⟩ (fun s t hr hs => hs.rely hr) ht fun t e new ht _ _ => ?_
  show Safe _ _ (if (t.runs.table.entries.map Prod.snd).isEmpty then _ else _) _
  split
  · trivial
  split
  · trivial
  rename_i source hsr
  obtain ⟨hl, hpp⟩ := List.mem_filter.mp (mem_of_freshest hsr)
  split
  · trivial
  rw [Coro.bind_eq, Safe.bind_iff]
  unfold getLivePromotionPlan
  rw [Coro.bind_eq, Safe.bind_iff]
  -- the plan reads the run for the first time, and it has come from the one in the list
  refine safe_firstRead (B := From (source.strategyId, source.runId) source) (fun s t new hg h => h.grows hg) ht
    ⟨source, from_of_listed t.runs hl, .refl source⟩ (fun _ => trivial) ?_
  rintro run u hu hget ⟨run', hg', he⟩
  obtain rfl : run = run' := Option.some.inj (hget.symm.trans hg')
  refine safe_planFrom hu (.refl run) ?_ fun _ _ => trivial
  intro p active current v hp hv
  dsimp only
  cases hrf : autoRefusal env p (source.strategyId, source.runId) with
  | some reason => trivial
  | none =>
    obtain ⟨hps, hsl, hcl⟩ := autoRefusal_none hrf
    have hc : Cleared env run active := by
      refine ⟨?_, hp.reasons.passed hps, hp.evidence, fun hm => ?_, ?_⟩
      · rw [he.stage]
        exact of_decide_eq_true hpp
      · rw [hat] at hm
        exact absurd hm (by decide)
      · rw [← hp.slots, ← hp.target]
        exact hsl
    have hch : Knows i (source.strategyId, source.runId) run (Checked env (source.strategyId, source.runId) run current) v :=
      hv.imp fun h => ⟨h.1, h.2 (.inl hcl)⟩
    have hst := stable_knows i run
      (lasting_checked env (source.strategyId, source.runId) run current)
    refine Safe.bind_iff.mpr ?_
    refine safe_plain ⟨rfl, trivial⟩ (fun s t ⟨new, hg, _⟩ => hst s t new hg) hch fun w e new hw _ hg => ?_
    refine Safe.bind_iff.mpr (Safe.mono (Q := fun _ _ => True) ?_ ?_)
    · intro r x _
      cases r <;> trivial
    · rw [hp.plan]
      exact safe_serviceApply hc (hst _ _ new hg hw)

lemma safe_code (request : Request) (hu : Unread i s) :
    Safe (proto env i) (fun _ _ => True) (request.code env) s := by
  have hov : ∀ {m : Task EvaluationRun}, Uses Plain m →
      Safe (proto env i) (fun _ _ => True) (m.bind fun run => .ret (Response.run run)) s := fun hm =>
    safe_uses (K := fun _ => True) (fun _ _ _ _ _ => trivial) (Uses.bind hm fun _ => trivial) trivial
  cases request with
  | approve key reason actor timestamp => exact hov (uses_postOverride (.inl rfl) _ _ _ _)
  | reject key reason actor timestamp => exact hov (uses_postOverride (.inr rfl) _ _ _ _)
  | apply key applyRunId => exact safe_postLivePromotionApply applyRunId hu
  | autoApply => exact safe_postLivePromotionAutoApply hu

variable (env) in
lemma composes (world : World) (memory : Memory) (runs : Runs) (completed : List ℤ) (clock : ℤ) :
    System.Composes (system env) (fun c ev => switchesSteady env c ev ∧ (system env).may c ev)
      (start world memory runs completed clock) (fun i _ => proto env i) (fun s => ∀ sw ∈ s.switches, Allowed env sw) (fun ls s => ∀ i, ls.length ≤ i → Unread i s)
      (fun _ _ _ _ => True) where
  inv _ _ := rfl
  perform _ _ := rfl
  calls := rfl
  init := ⟨fun _ h => absurd h List.not_mem_nil, fun _ _ _ h => absurd h List.not_mem_nil⟩
  ok := by
    intro c i e a o k _ ⟨hs, hmay⟩ hi
    refine ⟨of_decide_eq_true (Bool.and_eq_true _ _ ▸ hmay).1, fun ho => ?_⟩
    cases o with
    | service o =>
      cases o with
      | call call =>
        cases call with
        | setDecisions strategies =>
          unfold switchesSteady at hs
          simpa [hi] using hs
        | _ => cases ho
      | _ => cases ho
    | _ => cases ho
  stable _ _ _ _ _ _ _ := trivial
  start := by
    intro c request _ _ _ hu
    refine ⟨?_, safe_code request (hu _ (by simp [Config.labels]))⟩
    intro i hi
    rw [List.length_append] at hi
    exact hu i (by omega)
  disturb _ x := x.elim
  keep := by
    rintro ls i n s s' _ hu hi ⟨new, hg, hby⟩ _ j hj e he
    rw [hg.log] at he
    rcases List.mem_append.mp he with he | he
    · exact hu j hj e he
    · have hlt := (List.getElem?_eq_some_iff.mp hi).1
      exact hby j (by omega) e he
  others := by
    rintro ls i j n n' s s' _ _ _ _ hij ⟨new, hg, hby⟩ _
    exact ⟨new, hg, hby j (Ne.symm hij)⟩

/-- **Every change of the decisions is allowed**, in every run that changes them under the condition. -/
theorem switches_allowed (world : World) (memory : Memory) (runs : Runs) (completed : List ℤ) (clock : ℤ) {c : Requests}
    (h : (system env).Run (fun c ev => switchesSteady env c ev = true) (start world memory runs completed clock) c) :
    ∀ sw ∈ c.store.switches, Allowed env sw :=
  (System.Run.safe (composes env world memory runs completed clock) h.and_may).1

/-! ### A run that is promoted by itself -/

def hourlyEnv : Env where
  service := .still false []
  builtins := .ascii
  governance := ⟨some "auto_apply", some "1h", some 5, none, none⟩
  duration _ := .ok 3600
  fractionScore _ := 0
  fromisoformat _ := none

def passedRun : EvaluationRun where
  runId := "r1"
  worldId := "w"
  strategyId := "s1"
  stage := "paper"
  riskTier := "low"
  modelCardVersion := none
  metrics := Dict.empty
  validation := Dict.empty
  summary := Dict.ofList [("status", .str "pass"), ("active_set", .list [.str "s1"])]
  createdAt := none
  updatedAt := none

def Runs.single (run : EvaluationRun) : Runs where
  table := Dict.empty.set (run.strategyId, run.runId) run
  keyed := by
    intro key run' h
    rw [Dict.get?_set] at h
    split at h
    · rename_i hkey
      rw [← Option.some.inj h, hkey]
    · cases h

def onceApplied : Requests := start .fresh ⟨none, Dict.empty⟩ (.single passedRun) [0] 0

def goesOn (i n : ℕ) : List Event := List.replicate n (.resume i ⟨7200000000, "1970-01-01T02:00:00Z", true⟩)

def promotedOnce (c : Requests) : Bool := c.store.switches.map Switch.decisions = [["s1"]]

/-- A run that has passed is promoted, an hour and more after the last apply. -/
theorem switches_allowed_hourly :
    ∃ c, (system hourlyEnv).Run (fun c ev => switchesSteady hourlyEnv c ev = true) onceApplied c ∧
      c.store.switches.map Switch.decisions = [["s1"]] ∧ ∀ sw ∈ c.store.switches, Allowed hourlyEnv sw := by
  have hexec : (execIf (system hourlyEnv).step (switchesSteady hourlyEnv) onceApplied
      (.start .autoApply :: goesOn 0 31)).any promotedOnce := by decide +kernel
  obtain ⟨c, hrun, hcheck⟩ := exists_run _ _ _ _ _ hexec
  exact ⟨c, hrun, of_decide_eq_true hcheck, switches_allowed .fresh ⟨none, .empty⟩ (.single passedRun) [0] 0 hrun⟩

variable (env) in
def switchedRejected (sw : Switch) : Bool :=
  sw.runs.table.entries.all fun e => overrideStatus env e.2.summary = "rejected"

lemma not_allowed_of_rejected {sw : Switch} (h : switchedRejected env sw = true) : ¬Allowed env sw := by
  intro hal
  obtain ⟨key, run, hget, hp⟩ := hal.run
  have hmem : (key, run) ∈ sw.runs.table.entries := Dict.get?_eq_some.mp hget
  exact hp.notRejected (of_decide_eq_true (List.all_eq_true.mp h _ hmem))

/-- **A rejected run is promoted**: the rejection is not asked for where runs are applied as they pass. -/
theorem rejected_run_promoted :
    ∃ c, (system hourlyEnv).Run (fun _ _ => True) onceApplied c ∧ ¬∀ sw ∈ c.store.switches, Allowed hourlyEnv sw := by
  have hexec : (execIf (system hourlyEnv).step (fun _ _ => true) onceApplied
      (.start (.reject ("s1", "r1") none none none) :: goesOn 0 4 ++ .start .autoApply :: goesOn 1 31)).any
        (fun c => c.store.switches.any (switchedRejected hourlyEnv)) := by decide +kernel
  obtain ⟨c, hrun, hcheck⟩ := exists_run _ _ _ _ _ hexec
  obtain ⟨sw, hsw, hrejected⟩ := List.any_eq_true.mp hcheck
  exact ⟨c, hrun.mono fun _ _ _ => trivial, fun hall => not_allowed_of_rejected hrejected (hall sw hsw)⟩

end Qmtl.WorldService.Promotion

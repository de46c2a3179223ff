import Qmtl.Gateway.DiffContext

/-! What a strategy is completed on: the diffs that were answered to a worker before it writes `completed`. -/

namespace Qmtl.Gateway.CompletedDiff

open Lib Gateway.StrategyManager

/-! ### Submitters and workers -/

structure Traced where
  store : Store
  answered : ℕ → List (DiffCall × Bool)

def note (answered : ℕ → List (DiffCall × Bool)) (i : ℕ) : (o : Op) → Except Exc o.Ans → ℕ → List (DiffCall × Bool)
  | .diff call, .ok chunk => Function.update answered i (answered i ++ [(call, chunk)])
  | _, _ => answered

def performTraced (i : ℕ) (o : Op) (e : Env) (t : Traced) : Except Exc o.Ans × Traced :=
  ((perform i o e t.store).1, ⟨(perform i o e t.store).2, note t.answered i o (perform i o e t.store).1⟩)

inductive Call where
  | submit (r : Request)
  | runOnce (w : Worker)

section System

variable (codec : Codec) (insertSentinel : Bool)

def code : Call → Gw DiffContext.Ret
  | .submit r => do
    let decoded ← Coro.ofExcept (decodeDag codec insertSentinel r)
    let answer ← submit (r.submission decoded)
    return .submitted answer
  | .runOnce w => w.runOnce >>= fun r => pure (.ran r)

abbrev Cfg := Config Op Op.Ans Exc DiffContext.Ret Traced Call
abbrev Ev := Event Env DiffContext.Outside Call

/-- Every submission draws an id of its own. -/
def may (c : Cfg) : Ev → Bool
  | .start (.submit r) => c.calls.all fun
    | (.submit r', _) => r'.sid ≠ r.sid
    | _ => true
  | _ => true

def system : System Op Op.Ans Exc DiffContext.Ret Traced Env DiffContext.Outside Call where
  code := code codec insertSentinel
  perform := performTraced
  disturb x t := { t with store := DiffContext.disturb x t.store }
  may := may

def init (kind : DbKind) : Cfg := ⟨⟨{ Store.empty with dbKind := kind }, fun _ => []⟩, []⟩

def completes : Op → Option String
  | .hsetState sid .completed seen => if seen = some .completed then none else some sid
  | .setStatus sid .completed => some sid
  | _ => none

/-- Call `i` was answered with a chunk to a diff of the strategy, and the text it passed is read as the DAG
that was submitted, with its sentinel. -/
def RealDiff (c : Cfg) (i : ℕ) (sid : String) : Prop :=
  ∃ call fields, (call, true) ∈ c.store.answered i ∧ call.strategyId = sid ∧
    codec.loads call.dagJson = .ok (.obj fields) ∧
    ∃ (j : ℕ) (r : Request) (m : _) (decoded : DecodedDag), c.calls[j]? = some (.submit r, m) ∧ r.sid = sid ∧
      decodeDag codec insertSentinel r = .ok decoded ∧ decoded.dagForStorage = .obj fields

end System

/-! ### Every text is base64 -/

def Encoded (text : String) : Prop := ∃ dag, text = encodeDag dag

lemma Encoded.not_object {text : String} (h : Encoded text) (codec : Codec) (fields : List (String × Json)) :
    codec.loads text ≠ .ok (.obj fields) := by
  obtain ⟨dag, rfl⟩ := h
  exact codec.loads_b64encode _ fields

structure AllEncoded (t : Traced) : Prop where
  stored : ∀ x v, t.store.field x .dag = some v → Encoded v
  diffed : ∀ i y, y ∈ t.answered i → Encoded y.1.dagJson

def Answered (a : Call) (answers : List (DiffCall × Bool)) (sid : String) : Prop :=
  ∃ w call chunk, a = .runOnce w ∧ (call, chunk) ∈ answers ∧ call.strategyId = sid ∧ (w.hub = true → chunk = true)

def proto (i : ℕ) (a : Call) : Protocol Op Op.Ans Exc Traced Env where
  perform := performTraced i
  Ok _ _ _ := True
  J := AllEncoded
  Rely t t' := t'.answered i = t.answered i
  Guar t t' := ∀ j, j ≠ i → t'.answered j = t.answered j
  At o t := ∀ sid, completes o = some sid → Answered a (t.answered i) sid
  rely_refl _ := rfl
  rely_trans h h' := h'.trans h

def Stores : Op → Prop
  | .evalDedupe _ _ dag => Encoded dag
  | .hset _ fields => ∀ v, fields.lookup .dag = some v → Encoded v
  | .diff _ => False
  | _ => True

section Steps

variable {i : ℕ} {a : Call} {t : Traced} {o : Op} {e : Env}

lemma note_of_ne_diff {answered : ℕ → List (DiffCall × Bool)} {r : Except Exc o.Ans}
    (h : ∀ call, o ≠ .diff call) : note answered i o r = answered := by
  unfold note
  split
  · exact absurd rfl (h _)
  · rfl

lemma Stores.ne_diff (h : Stores o) (call : DiffCall) : o ≠ .diff call := by
  rintro rfl
  exact h

lemma encoded_hset {s : Store} {sid : String} {fields : List (Field × String)}
    (h : ∀ x v, s.field x .dag = some v → Encoded v) (hf : ∀ v, fields.lookup .dag = some v → Encoded v) :
    ∀ x v, (s.hset sid fields).field x .dag = some v → Encoded v := by
  intro x v hv
  by_cases hx : x = sid
  · subst hx
    simp only [Store.hset, Function.update_self] at hv
    cases hl : fields.lookup .dag with
    | none =>
      rw [hl] at hv
      exact h x v hv
    | some u =>
      rw [hl] at hv
      exact hf v (hl.trans hv)
  · simp only [Store.hset, Function.update_of_ne hx] at hv
    exact h x v hv

lemma Stores.encoded (ho : Stores o) {s : Store} (h : ∀ x v, s.field x .dag = some v → Encoded v) :
    ∀ x v, (perform i o e s).2.field x .dag = some v → Encoded v := by
  cases hrec : o.onRecords with
  | false =>
    have hp : (perform i o e s).2.recordPart = s.recordPart := perform_recordPart hrec
    simp only [Store.recordPart, Prod.mk.injEq] at hp
    rw [hp.2.1]
    exact h
  | true =>
    let P : Store → Prop := fun s => ∀ x v, s.field x .dag = some v → Encoded v
    cases o with
    | evalDedupe hash sid dag =>
      refine DiffContext.reply_cases (P := P) h ?_
      have ht : ∀ u : Store, (u.tell e.fate (s.dagHash hash).toList).field = u.field := by
        intro u
        unfold Store.tell
        split <;> rfl
      intro x v hv
      rw [ht] at hv
      unfold Store.dedupe at hv
      split at hv
      · exact h x v hv
      · refine encoded_hset h ?_ x v hv
        intro u hu
        cases hu
        exact ho
    | hset sid fields => exact DiffContext.reply_cases (P := P) h (encoded_hset h ho)
    | delStrategy sid =>
      refine DiffContext.reply_cases (P := P) h ?_
      intro x v hv
      by_cases hx : x = sid
      · subst hx
        simp at hv
      · simp only [Function.update_of_ne hx] at hv
        exact h x v hv
    | setDagHash hash sid =>
      refine DiffContext.reply_cases (P := P) h ?_
      split <;> exact h
    | insertRow sid =>
      have hrow : (s.insertRow sid).2.field = s.field := by
        unfold Store.insertRow
        split <;> rfl
      have hP : P (s.insertRow sid).2 := by
        intro x v hv
        rw [hrow] at hv
        exact h x v hv
      cases hf : e.fate <;> simp [perform, hf]
      exacts [hP, h, hP]
    | setStatus sid st =>
      refine DiffContext.reply_cases (P := P) h ?_
      unfold Store.setStatus
      split <;> exact h
    | delDagHash | hsetState | appendEvent => exact DiffContext.reply_cases (P := P) h h
    | _ => cases hrec

def Plain (o : Op) : Prop := Stores o ∧ completes o = none

lemma plain_of_quiet (h : DiffContext.Quiet o) : Plain o := by
  obtain ⟨hrec, hd⟩ := h
  cases o <;> first | exact ⟨trivial, rfl⟩ | exact absurd rfl (hd _) | cases hrec

lemma safe_of_uses {α : Type} {m : Gw α} {K : List (DiffCall × Bool) → Prop}
    (hm : Uses (fun o => Stores o ∧ ∀ sid, completes o = some sid → ∀ answers, K answers → Answered a answers sid) m)
    (h : K (t.answered i)) : Safe (proto i a) (fun _ t => K (t.answered i)) m t := by
  refine Uses.safe (p := proto i a) (fun t t' hR hK => ?_) ?_ hm h
  · rw [show t'.answered i = t.answered i from hR]
    exact hK
  · intro o ho t hJ hK
    refine ⟨fun sid hsid => ho.2 sid hsid _ hK, ?_⟩
    intro e _
    have hn : (performTraced i o e t).2.answered = t.answered := note_of_ne_diff ho.1.ne_diff
    refine ⟨⟨ho.1.encoded hJ.stored, ?_⟩, fun j _ => congrFun hn j, ?_⟩
    · rw [show ((proto i a).perform o e t).2.answered = t.answered from hn]
      exact hJ.diffed
    · show K ((performTraced i o e t).2.answered i)
      rw [hn]
      exact hK

lemma safe_of_plain {α : Type} {m : Gw α} {K : List (DiffCall × Bool) → Prop} (hm : Uses Plain m)
    (h : K (t.answered i)) : Safe (proto i a) (fun _ t => K (t.answered i)) m t := by
  refine safe_of_uses (hm.mono ?_) h
  intro o ho
  refine ⟨ho.1, ?_⟩
  intro sid hsid
  rw [ho.2] at hsid
  cases hsid

lemma ask_plain {Q : Except Exc o.Ans → Traced → Prop} (ho : Plain o)
    (hQ : ∀ t' e, AllEncoded t' → Q (perform i o e t'.store).1 ⟨(perform i o e t'.store).2, t'.answered⟩) :
    Safe (proto i a) Q (ask o) t := by
  refine Safe.perform_iff.2 fun t' _ hJ => ⟨fun sid hsid => ?_, ?_⟩
  · rw [ho.2] at hsid
    cases hsid
  · intro e _
    have hn : (performTraced i o e t').2 = ⟨(perform i o e t'.store).2, t'.answered⟩ := by
      unfold performTraced
      rw [note_of_ne_diff ho.1.ne_diff]
    show AllEncoded (performTraced i o e t').2 ∧ (∀ j, j ≠ i → (performTraced i o e t').2.answered j = t'.answered j) ∧
      Q (performTraced i o e t').1 (performTraced i o e t').2
    rw [hn]
    exact ⟨⟨ho.1.encoded hJ.stored, hJ.diffed⟩, fun _ _ => rfl, hQ t' e hJ⟩

lemma fine_of_plain {α : Type} {m : Gw α} (hm : Uses Plain m) : Fine (proto i a) m :=
  fun _ => safe_of_plain (K := fun _ => True) hm trivial

end Steps

/-! ### A worker -/

section Worker

variable {i : ℕ} {a : Call} {t : Traced} (w : Worker) (sid : String)

variable {ev : StrategyEvent}

lemma eq_complete_of_transition {cur : StrategyState}
    (h : Fsm.Machine.transition cur ev = .ok .completed) : ev = .complete := by
  cases cur <;> cases ev <;> first | rfl | cases h

def Moving (sid : String) (ev : StrategyEvent) (o : Op) : Prop :=
  Stores o ∧ ∀ x, completes o = some x → x = sid ∧ ev = .complete

lemma Plain.moving {o : Op} (h : Plain o) : Moving sid ev o := by
  refine ⟨h.1, ?_⟩
  intro x hx
  rw [h.2] at hx
  cases hx

lemma plain_putBack (st : StrategyState) : Plain (.hsetState sid st (some st)) := by
  refine ⟨trivial, ?_⟩
  cases st <;> rfl

lemma uses_get : Uses Plain (Fsm.get sid) := by
  refine Uses.bind (Worker.uses_exceptRedis (Uses.perform ⟨trivial, rfl⟩) trivial) ?_
  intro data
  split
  · trivial
  · refine Uses.bind (Uses.tryExcept (Uses.perform ⟨trivial, rfl⟩) fun _ => trivial) ?_
    intro state
    split
    · trivial
    · exact Uses.bind (Worker.uses_exceptRedis (Uses.perform (plain_putBack sid _)) trivial) fun _ => trivial

lemma uses_transition (ev : StrategyEvent) : Uses (Moving sid ev) (w.transition sid ev) := by
  refine Uses.bind ?_ ?_
  · have hget : Uses (Moving sid ev) (Fsm.get sid) := (uses_get sid).mono fun o ho => ho.moving sid
    refine Uses.bind (Uses.tryExcept hget fun e => by cases e <;> trivial) ?_
    intro current
    split
    · trivial
    · rename_i cur
      cases hm : Fsm.Machine.transition cur ev with
      | error x => trivial
      | ok newState =>
        have hev : newState = .completed → ev = .complete := by
          rintro rfl
          exact eq_complete_of_transition hm
        have hr : Moving sid ev (.hsetState sid newState (some cur)) := by
          refine ⟨trivial, ?_⟩
          intro x hx
          cases newState <;> simp only [completes, reduceCtorEq] at hx
          split at hx
          · cases hx
          · exact ⟨(Option.some.inj hx).symm, hev rfl⟩
        have hrow : Moving sid ev (.setStatus sid newState) := by
          refine ⟨trivial, ?_⟩
          intro x hx
          cases newState <;> simp only [completes, reduceCtorEq] at hx
          exact ⟨(Option.some.inj hx).symm, hev rfl⟩
        simp only [Coro.bind_eq, Coro.ofExcept_ok, Coro.bind_ret]
        refine Uses.bind (Worker.uses_exceptRedis (Uses.perform hr) trivial) ?_
        intro _
        refine Uses.bind (Uses.tryExcept ?_ fun _ => trivial) fun _ => trivial
        refine Uses.bind (Uses.perform hrow) fun _ => Uses.perform ?_
        exact Plain.moving sid ⟨trivial, rfl⟩
  · intro newState
    split
    · exact Uses.perform (Plain.moving sid ⟨trivial, rfl⟩)
    · trivial

lemma plain_transition (h : ev ≠ .complete) : Uses Plain (w.transition sid ev) := by
  refine (uses_transition w sid ev).mono ?_
  intro o ho
  refine ⟨ho.1, ?_⟩
  cases hc : completes o with
  | none => rfl
  | some x => exact absurd (ho.2 x hc).2 h

lemma loadContext_safe : Safe (proto i a)
    (fun r _ => ∀ call, r = .ok call → call.strategyId = sid ∧ Encoded call.dagJson) (Worker.loadContext sid) t := by
  refine Safe.bind_iff.2 (ask_plain ⟨trivial, rfl⟩ fun t₁ e hJ => ?_)
  cases hf : e.fate <;> simp only [perform, hf]
  case ok =>
    cases hdag : t₁.store.field sid .dag with
    | none => exact fun call hc => by cases hc
    | some dag =>
      have hraw : Fine (proto i a) (ask (.hmget sid StrategyComputeContext.readFields)) :=
        fine_of_plain (Uses.perform ⟨trivial, rfl⟩)
      refine Safe.bind_iff.2 ((hraw _).mono ?_)
      intro r t₂ _
      cases r with
      | error x => exact fun call hc => by cases hc
      | ok raw =>
        intro call hc
        cases hc
        exact ⟨rfl, hJ.stored sid dag hdag⟩
  all_goals exact fun call hc => by cases hc

variable {call : DiffCall}

lemma ask_diff (h : Encoded call.dagJson) : Safe (proto i a)
    (fun r t => ∀ chunk, r = .ok chunk → (call, chunk) ∈ t.answered i) (ask (.diff call)) t := by
  refine Safe.perform_iff.2 fun t₁ _ hJ => ⟨fun x hx => (by cases hx), ?_⟩
  intro e _
  have hp : (perform i (.diff call) e t₁.store).2.field = t₁.store.field := by
    have hrec : (perform i (.diff call) e t₁.store).2.recordPart = t₁.store.recordPart := perform_recordPart rfl
    simp only [Store.recordPart, Prod.mk.injEq] at hrec
    exact hrec.2.1
  have hstored : ∀ x v, (perform i (.diff call) e t₁.store).2.field x .dag = some v → Encoded v := by
    rw [hp]
    exact hJ.stored
  show AllEncoded (performTraced i (.diff call) e t₁).2 ∧
    (∀ j, j ≠ i → (performTraced i (.diff call) e t₁).2.answered j = t₁.answered j) ∧
    ∀ chunk, (performTraced i (.diff call) e t₁).1 = .ok chunk →
      (call, chunk) ∈ (performTraced i (.diff call) e t₁).2.answered i
  cases hr : (perform i (.diff call) e t₁.store).1 with
  | error x =>
    have hans : (performTraced i (.diff call) e t₁).2.answered = t₁.answered := by
      simp [performTraced, hr, note]
    refine ⟨⟨hstored, ?_⟩, fun j _ => congrFun hans j, ?_⟩
    · rw [hans]
      exact hJ.diffed
    · intro chunk hc
      exact absurd (hr.symm.trans hc) (by simp)
  | ok answer =>
    have hans : (performTraced i (.diff call) e t₁).2.answered =
        Function.update t₁.answered i (t₁.answered i ++ [(call, answer)]) := by
      simp [performTraced, hr, note]
    refine ⟨⟨hstored, ?_⟩, ?_, ?_⟩
    · intro j y hy
      rw [hans] at hy
      by_cases hj : j = i
      · subst hj
        rw [Function.update_self, List.mem_append, List.mem_singleton] at hy
        rcases hy with hy | rfl
        · exact hJ.diffed j y hy
        · exact h
      · rw [Function.update_of_ne hj] at hy
        exact hJ.diffed j y hy
    · intro j hj
      rw [hans, Function.update_of_ne hj]
    · intro chunk hc
      obtain rfl : answer = chunk := Except.ok.inj (hr.symm.trans hc)
      rw [hans, Function.update_self]
      exact List.mem_append_right _ (.head _)

lemma diffStrategy_safe (h : Encoded call.dagJson) : Safe (proto i a)
    (fun r t => ∀ chunk, r = .ok chunk → (call, chunk) ∈ t.answered i) (w.diffStrategy call) t := by
  have hf : ∀ t, Safe (proto i a) (fun r t => ∀ chunk, r = .ok chunk → (call, chunk) ∈ t.answered i)
      (w.recordDiffFailure.bind fun _ => (.raise .diffFailure : Gw Bool)) t := by
    intro t
    have hu : Uses Plain w.recordDiffFailure :=
      (DiffContext.uses_recordDiffFailure w).mono fun _ ho => plain_of_quiet ho
    refine Safe.bind_iff.2 ((fine_of_plain hu t).mono ?_)
    intro r t _
    cases r <;> exact fun chunk hc => by cases hc
  refine Safe.tryExcept_iff.2 (Safe.bind_iff.2 ((ask_diff h).mono ?_))
  intro r t₁ h₁
  cases r with
  | error x => exact hf t₁
  | ok answer =>
    have hr : Uses Plain (ask (.resetFailCount w.id)) := Uses.perform ⟨trivial, rfl⟩
    refine Safe.bind_iff.2 ((safe_of_plain (K := fun answers => (call, answer) ∈ answers) hr
      (h₁ answer rfl)).mono ?_)
    intro r t₂ h₂
    cases r with
    | error x => exact hf t₂
    | ok u =>
      intro chunk hc
      cases hc
      exact h₂

lemma complete_safe {chunk : Bool} (hsid : call.strategyId = sid) (h : (call, chunk) ∈ t.answered i) :
    Safe (proto i (.runOnce w)) (fun _ _ => True) ((w.broadcastQueueMap sid chunk).bind fun _ =>
      (w.invokeHandler sid).bind fun _ => (w.transition sid .complete).bind fun _ => (.ret true : Gw Bool)) t := by
  have hb : Uses Plain (w.broadcastQueueMap sid chunk) := by
    unfold Worker.broadcastQueueMap
    split
    · split
      · exact Uses.perform ⟨trivial, rfl⟩
      · trivial
    · trivial
  have hh : Uses Plain (w.invokeHandler sid) := by
    unfold Worker.invokeHandler
    split
    · exact Uses.perform ⟨trivial, rfl⟩
    · trivial
  by_cases hhub : w.hub ∧ chunk = false
  · -- `None` has no queue map, and the worker raises here
    have hr : w.broadcastQueueMap sid chunk = .raise .attributeError := by
      unfold Worker.broadcastQueueMap
      rw [if_pos hhub.1, hhub.2]
      rfl
    rw [hr]
    trivial
  · have hans : Answered (.runOnce w) (t.answered i) sid := by
      refine ⟨w, call, chunk, rfl, h, hsid, ?_⟩
      intro hw
      simpa [hw] using hhub
    let K : List (DiffCall × Bool) → Prop := fun answers => Answered (.runOnce w) answers sid
    refine Safe.bind_iff.2 ((safe_of_plain (K := K) hb hans).mono ?_)
    intro r t₁ h₁
    cases r with
    | error x => trivial
    | ok u =>
      refine Safe.bind_iff.2 ((safe_of_plain (K := K) hh h₁).mono ?_)
      intro r t₂ h₂
      cases r with
      | error x => trivial
      | ok u =>
        have hm : Uses (fun o => Stores o ∧ ∀ x, completes o = some x → ∀ answers, K answers →
            Answered (.runOnce w) answers x) (w.transition sid .complete) := by
          refine (uses_transition w sid .complete).mono ?_
          intro o ho
          refine ⟨ho.1, ?_⟩
          intro x hx answers hK
          rw [(ho.2 x hx).1]
          exact hK
        refine Safe.bind_iff.2 ((safe_of_uses (K := K) hm h₂).mono ?_)
        intro r t₃ _
        cases r <;> trivial

lemma fine_processOwned : Fine (proto i (.runOnce w)) (w.processOwned sid) := by
  refine Fine.bind (fine_of_plain (plain_transition w sid (by decide))) ?_
  intro _ t
  refine Safe.bind_iff.2 ((loadContext_safe sid).mono ?_)
  intro r t₁ h₁
  cases r with
  | error x => trivial
  | ok call =>
    obtain ⟨hsid, henc⟩ := h₁ call rfl
    refine Safe.bind_iff.2 ((diffStrategy_safe w henc).mono ?_)
    intro r t₂ h₂
    cases r with
    | error x => trivial
    | ok chunk => exact complete_safe w sid hsid (h₂ chunk rfl)

lemma fine_process : Fine (proto i (.runOnce w)) (w.process sid) := by
  have hq : ∀ o : Op, o.ofOwnership → Plain o := fun o ho =>
    plain_of_quiet (DiffContext.quiet_of_ofOwnership ho)
  refine Fine.bind (fine_of_plain ((w.manager.uses_acquire _ _).mono hq)) ?_
  intro acquired
  split
  · refine Fine.tryFinally (Fine.tryExcept (fine_processOwned w sid) ?_) ?_
    · intro _
      exact Fine.bind (fine_of_plain (plain_transition w sid (by decide))) fun _ => fine_of_plain trivial
    · intro _
      exact fine_of_plain ((w.manager.uses_release _).mono hq)
  · exact fine_of_plain trivial

lemma fine_runOnce : Fine (proto i (.runOnce w)) w.runOnce := by
  have hq : ∀ o : Op, RedisQueue.ofQueue o → Plain o := fun o ho =>
    plain_of_quiet (DiffContext.quiet_of_ofQueue ho)
  refine Fine.bind (fine_of_plain ((RedisQueue.uses_pop _).mono hq)) ?_
  intro popped
  cases popped with
  | none => exact fine_of_plain trivial
  | some sid =>
    refine Fine.tryFinally (Fine.bind (fine_process w sid) fun _ => fine_of_plain trivial) ?_
    intro outcome
    refine Fine.bind (fine_of_plain (RedisQueue.uses_release _ _ ⟨trivial, rfl⟩ ⟨trivial, rfl⟩)) ?_
    intro _
    have hp : Fine (proto i (.runOnce w)) ((RedisQueue.push sid).bind fun _ => .ret ()) :=
      fine_of_plain (Uses.bind ((RedisQueue.uses_push _).mono hq) fun _ => trivial)
    match outcome with
    | .ok (some _) => exact fine_of_plain trivial
    | .ok none => exact hp
    | .error _ => exact hp

end Worker

section Submit

variable {sub : Submission}

lemma plain_of_early {o : Op} (henc : Encoded sub.dag) (ho : DiffContext.Early sub o) : Plain o := by
  cases ho with
  | eval => exact ⟨henc, rfl⟩
  | hset =>
    refine ⟨?_, rfl⟩
    intro v hv
    exact Option.some.inj hv ▸ henc
  | _ => exact ⟨trivial, rfl⟩

lemma uses_create (sid : String) : Uses Plain (Fsm.create sid) := by
  refine .bind (Worker.uses_exceptRedis (.perform ⟨trivial, rfl⟩) trivial) fun _ => .tryExcept ?_ fun _ => trivial
  refine .bind (.bind (.perform ⟨trivial, rfl⟩) fun _ => .perform ⟨trivial, rfl⟩) fun _ => .perform ⟨trivial, rfl⟩

lemma uses_submit (henc : Encoded sub.dag) : Uses Plain (submit sub) := by
  have her : ∀ o, DiffContext.Early sub o → Plain o := fun o ho => plain_of_early henc ho
  refine .bind ((uses_saveUnique .eval .get .set .hset).mono her) ?_
  intro r
  split
  · trivial
  · refine .bind (.bind (DiffContext.early_publishSubmission.mono her) fun _ =>
      .bind (DiffContext.early_enqueueWithRollback.mono her) fun _ => .bind ?_ fun _ => uses_create _) fun _ => trivial
    unfold persistContext
    split
    · trivial
    · refine .perform ⟨?_, rfl⟩
      intro v hv
      rw [sub.ctx.lookup_redisMapping_dag] at hv
      cases hv

end Submit

/-! ### Runs -/

section Runs

variable (codec : Codec) (insertSentinel : Bool)

lemma fine_code (i : ℕ) (a : Call) : Fine (proto i a) (code codec insertSentinel a) := by
  cases a with
  | submit r =>
    cases hdec : decodeDag codec insertSentinel r with
    | error x =>
      refine fine_of_plain ?_
      simp only [code, hdec]
      trivial
    | ok decoded =>
      have henc : Encoded (r.submission decoded).dag := ⟨_, encodedDag_of_decodeDag hdec⟩
      have hu : Uses Plain (code codec insertSentinel (.submit r)) := by
        simp only [code, hdec, Coro.bind_eq, Coro.ofExcept_ok, Coro.bind_ret]
        exact .bind (uses_submit henc) fun _ => trivial
      exact fine_of_plain hu
  | runOnce w => exact Fine.bind (fine_runOnce w) fun _ => fine_of_plain trivial

lemma composes (kind : DbKind) : System.Composes (system codec insertSentinel) (fun _ _ => True) (init kind) proto
    AllEncoded (fun _ _ => True) (fun _ _ _ _ => True) where
  inv _ _ := rfl
  perform _ _ := rfl
  calls := rfl
  init := by
    refine ⟨⟨?_, ?_⟩, trivial⟩
    · intro x v hv
      cases hv
    · intro i y hy
      cases hy
  ok _ _ _ _ _ _ _ _ _ := trivial
  stable _ _ _ _ _ _ h := h
  start c a _ _ _ _ := ⟨trivial, fine_code codec insertSentinel _ a c.store⟩
  disturb c x _ _ hJ _ := by
    refine ⟨⟨?_, hJ.diffed⟩, trivial, fun _ _ _ => rfl⟩
    intro y v hv
    cases x <;> exact hJ.stored y v hv
  keep _ _ _ _ _ _ _ _ _ _ := trivial
  others _ _ _ _ _ _ _ _ _ _ _ hij hG _ := hG _ hij.symm

variable {codec insertSentinel}

/-- **No strategy is completed on a real diff.** In every run, whenever a call is about to write `completed`
for a strategy, it is a worker that was answered to a diff of the strategy, with a chunk if it has a hub;
and the text of no diff it made is read as a DAG. -/
theorem completed_never_real {kind : DbKind} {c : Cfg}
    (h : (system codec insertSentinel).Run (fun _ _ => True) (init kind) c) {i : ℕ} {a : Call} {o : Op}
    {k : Except Exc o.Ans → Gw DiffContext.Ret} {sid : String} (hi : c.calls[i]? = some (a, .await o k))
    (ho : completes o = some sid) :
    ¬ RealDiff codec insertSentinel c i sid ∧ Answered a (c.store.answered i) sid := by
  obtain ⟨hJ, -, hsafe⟩ := h.safe (composes codec insertSentinel kind)
  refine ⟨?_, ?_⟩
  · rintro ⟨call, fields, hmem, -, hloads, -⟩
    exact (hJ.diffed i _ hmem).not_object codec fields hloads
  · exact (hsafe i a _ hi c.store rfl hJ).1 sid ho

end Runs

def emptyDagText : String := "\x7b\"nodes\": []\x7d"

def emptyDagCodec : Codec where
  loads text := if text = emptyDagText then .ok (.obj [("nodes", .arr [])]) else .error "Expecting value"
  brace text fields h := by
    split at h
    · rename_i heq
      subst heq
      decide
    · cases h
  b64decode text := if text = "eyJub2RlcyI6IFtdfQ==" then some emptyDagText else none
  dagHash _ := "h"

def emptyDagRequest : Request :=
  ⟨"eyJub2RlcyI6IFtdfQ==", none, "s", ContextService.build .ascii [" w1 "] (fun _ => .none) .noClient, false⟩

def completingEvents (chunk : Bool) : List Ev :=
  .start (.submit emptyDagRequest) :: List.replicate 8 (.resume 0 .ok) ++
    .start (.runOnce DiffContext.plainWorker) :: List.replicate 13 (.resume 1 .ok) ++
    [.resume 1 ⟨.ok, 0, chunk⟩, .resume 1 .ok, .resume 1 .ok]

def completing (answers : List Bool) (c : Cfg) : Bool :=
  (c.calls[1]?.any fun
    | (_, .await o _) => completes o = some "s"
    | _ => false) && (c.store.answered 1).map Prod.snd = answers

lemma exists_completing (chunk : Bool) :
    ∃ (c : Cfg) (a : Call) (o : Op) (k : Except Exc o.Ans → Gw DiffContext.Ret),
      (system emptyDagCodec true).Run (fun _ _ => True) (init .postgres) c ∧ c.calls[1]? = some (a, .await o k) ∧
        completes o = some "s" ∧ (c.store.answered 1).map Prod.snd = [chunk] := by
  obtain ⟨c, hrun, hq⟩ := exists_run (system emptyDagCodec true).step (init .postgres) (fun _ _ => true)
    (completingEvents chunk) (completing [chunk]) (by cases chunk <;> decide)
  have hrun : (system emptyDagCodec true).Run (fun _ _ => True) (init .postgres) c := hrun.mono fun _ _ _ => trivial
  simp only [completing, Bool.and_eq_true, decide_eq_true_eq, Option.any_eq_true] at hq
  obtain ⟨⟨⟨a, m⟩, hm, hq⟩, hans⟩ := hq
  split at hq
  · rename_i a' o k heq
    cases heq
    exact ⟨c, a, o, k, hrun, hm, of_decide_eq_true hq, hans⟩
  · cases hq

/-- A worker whose diff was answered with a chunk. -/
theorem completed_never_real_chunk : ∃ c a, (system emptyDagCodec true).Run (fun _ _ => True) (init .postgres) c ∧
      (c.store.answered 1).map Prod.snd = [true] ∧ ¬ RealDiff emptyDagCodec true c 1 "s" ∧
      Answered a (c.store.answered 1) "s" := by
  obtain ⟨c, a, o, k, hrun, hi, ho, hans⟩ := exists_completing true
  obtain ⟨hreal, hanswered⟩ := completed_never_real hrun hi ho
  exact ⟨c, a, hrun, hans, hreal, hanswered⟩

/-- A worker without a hub completes a strategy though the only diff was answered `None`. -/
theorem completed_without_chunk : ∃ (c : Cfg) (a : Call) (o : Op) (k : Except Exc o.Ans → Gw DiffContext.Ret),
      (system emptyDagCodec true).Run (fun _ _ => True) (init .postgres) c ∧ c.calls[1]? = some (a, .await o k) ∧
        completes o = some "s" ∧ (c.store.answered 1).map Prod.snd = [false] ∧
        ¬ RealDiff emptyDagCodec true c 1 "s" := by
  obtain ⟨c, a, o, k, hrun, hi, ho, hans⟩ := exists_completing false
  refine ⟨c, a, o, k, hrun, hi, ho, hans, ?_⟩
  rintro ⟨call, fields, hmem, -⟩
  have hsnd : true ∈ (c.store.answered 1).map Prod.snd := List.mem_map_of_mem (f := Prod.snd) hmem
  rw [hans] at hsnd
  simp at hsnd

end Qmtl.Gateway.CompletedDiff

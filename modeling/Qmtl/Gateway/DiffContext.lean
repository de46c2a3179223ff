import Qmtl.Gateway.StrategyManager
import Qmtl.Gateway.Worker

/-! Submissions and workers over one store: under which compute context a strategy is diffed. -/

namespace Qmtl.Gateway.DiffContext

open Lib Gateway.StrategyManager

/-! ### Submitters and workers -/

inductive Call where
  | submit (sub : Submission)
  | runOnce (w : Worker)

inductive Ret where
  | submitted (r : String × Bool)
  | ran (sid : Option String)

def code : Call → Gw Ret
  | .submit sub => submit sub >>= fun r => pure (.submitted r)
  | .runOnce w => w.runOnce >>= fun r => pure (.ran r)

/-- What changes the store from outside: a lock expires, the degradation level changes, the
partitions of the ownership topic or their assignment change. -/
inductive Outside where
  | expire (item : String)
  | degrade (d : Option Degradation)
  | partitions (ps : List ℕ)
  | rebalance (assigned : ℕ → List (String × ℕ))

def disturb : Outside → Store → Store
  | .expire item, s => { s with lock := Function.update s.lock item none }
  | .degrade d, s => { s with degradation := d }
  | .partitions ps, s => { s with partitions := ps }
  | .rebalance a, s => { s with assigned := a }

abbrev Cfg := Config Op Op.Ans Exc Ret Store Call
abbrev Ev := Event Env Outside Call

/-- Every submission draws an id of its own. -/
def may (c : Cfg) : Ev → Bool
  | .start (.submit sub) => c.calls.all fun
    | (.submit b, _) => b.sid ≠ sub.sid
    | _ => true
  | _ => true

def system : System Op Op.Ans Exc Ret Store Env Outside Call where
  code := code
  perform := perform
  disturb := disturb
  may := may

def init (kind : DbKind) : Cfg := ⟨{ Store.empty with dbKind := kind }, []⟩

/-! ### Entries of the state machine -/

def Entry (s : Store) (x : String) : Prop := (s.state x).isSome ∨ (s.row x).isSome

/-- **Diffs run under the submitted context**, and of strategies the state machine has an entry for. -/
def DiffsMatch (c : Cfg) : Prop :=
  ∀ (i : ℕ) (a : Call) (call : DiffCall) k, c.calls[i]? = some (a, .await (.diff call) k) →
    Entry c.store call.strategyId ∧
      ∃ (j : ℕ) (sub : Submission) (m : _), c.calls[j]? = some (.submit sub, m) ∧
        sub.sid = call.strategyId ∧ call = sub.ctx.diffCall call.strategyId call.dagJson

def Keeps (x : String) (s s' : Store) : Prop := (Entry s' x ↔ Entry s x) ∧ s'.field x = s.field x

def Lasting (s s' : Store) : Prop := ∀ x, Entry s x → Entry s' x ∧ s'.field x = s.field x

def ownId : Call → Option String
  | .submit sub => some sub.sid
  | .runOnce _ => none

section Proto

variable (subs : Submission → Prop)

def Filled (s : Store) : Prop := ∀ x, Entry s x → ∃ sub, subs sub ∧ sub.sid = x ∧
  ∀ f ∈ StrategyComputeContext.readFields, s.field x f = sub.ctx.value f

def Matches (call : DiffCall) : Prop := ∃ sub, subs sub ∧ sub.sid = call.strategyId ∧
  call = sub.ctx.diffCall call.strategyId call.dagJson

def proto (i : ℕ) (a : Call) : Protocol Op Op.Ans Exc Store Env where
  perform := perform i
  Ok _ _ _ := True
  J := Filled subs
  Rely s s' := Lasting s s' ∧ ∀ x ∈ ownId a, Keeps x s s'
  Guar s s' := Lasting s s' ∧ ∀ x, x ∉ ownId a → Keeps x s s'
  At o s := ∀ call, o = .diff call → Entry s call.strategyId ∧ Matches subs call
  rely_refl s := ⟨fun _ h => ⟨h, rfl⟩, fun _ _ => ⟨Iff.rfl, rfl⟩⟩
  rely_trans h h' := by
    constructor
    · intro x hx
      obtain ⟨h1, h2⟩ := h.1 x hx
      obtain ⟨h3, h4⟩ := h'.1 x h1
      exact ⟨h3, h4.trans h2⟩
    · intro x hx
      obtain ⟨h1, h2⟩ := h.2 x hx
      obtain ⟨h3, h4⟩ := h'.2 x hx
      exact ⟨h3.trans h1, h4.trans h2⟩

end Proto

section Steps

variable {subs : Submission → Prop} {i : ℕ} {a : Call} {s s' : Store}

lemma Keeps.of_recordPart (h : s'.recordPart = s.recordPart) (x : String) : Keeps x s s' := by
  simp only [Store.recordPart, Prod.mk.injEq] at h
  simp [Keeps, Entry, h]

lemma keeps_all (hJ : Filled subs s) (h : ∀ x, Keeps x s s') :
    Filled subs s' ∧ Lasting s s' ∧ ∀ x, x ∉ ownId a → Keeps x s s' := by
  refine ⟨?_, fun x hx => ⟨(h x).1.2 hx, (h x).2⟩, fun x _ => h x⟩
  intro x hx
  rw [(h x).2]
  exact hJ x ((h x).1.1 hx)

variable {o : Op} {sid : String}

lemma ask_keeps {Q : Except Exc o.Ans → Store → Prop}
    (hd : ∀ s', (proto subs i a).Rely s s' → (proto subs i a).At o s')
    (hk : ∀ s' e, (proto subs i a).Rely s s' → Filled subs s' → ∀ x, Keeps x s' (perform i o e s').2)
    (hQ : ∀ s' e, (proto subs i a).Rely s s' → Filled subs s' → Q (perform i o e s').1 (perform i o e s').2) :
    Safe (proto subs i a) Q (ask o) s := by
  refine Safe.perform_iff.2 fun s' hR hJ => ⟨hd s' hR, ?_⟩
  intro e _
  obtain ⟨h1, h2⟩ := keeps_all (a := a) hJ (hk s' e hR hJ)
  exact ⟨h1, h2, hQ s' e hR hJ⟩

def Quiet (o : Op) : Prop := o.onRecords = false ∧ ∀ call, o ≠ .diff call

lemma quiet_safe {α : Type} {m : Gw α} {K : Store → Prop}
    (hK : ∀ s s', Lasting s s' → K s → K s') (hm : Uses Quiet m) (h : K s) :
    Safe (proto subs i a) (fun _ s => K s) m s := by
  refine Uses.safe (p := proto subs i a) (fun s s' hR h => hK s s' hR.1 h) ?_ hm h
  intro o ho s hJ h
  refine ⟨fun call hc => absurd hc (ho.2 call), ?_⟩
  intro e _
  have hk : ∀ x, Keeps x s (perform i o e s).2 := Keeps.of_recordPart (perform_recordPart ho.1)
  obtain ⟨h1, h2⟩ := keeps_all (a := a) hJ hk
  exact ⟨h1, h2, hK _ _ h2.1 h⟩

lemma Entry.lasting {x : String} (hL : Lasting s s') (h : Entry s x) : Entry s' x := (hL x h).1

/-- An operation of the state machine on a strategy that has an entry. -/
inductive OnEntry (sid : String) : Op → Prop
  | hsetState (st : StrategyState) (seen : Option StrategyState) : OnEntry sid (.hsetState sid st seen)
  | insertRow : OnEntry sid (.insertRow sid)
  | setStatus (st : StrategyState) : OnEntry sid (.setStatus sid st)
  | append (x : LogEntry) : OnEntry sid (.appendEvent sid x)

lemma Keeps.reply {α : Type} {x : String} {exc : Exc} {f : Fate} {v : α} (h : Keeps x s s') :
    Keeps x s (reply exc f s v s').2 := by
  cases f
  exacts [h, ⟨Iff.rfl, rfl⟩, h]

lemma Keeps.of_entry (h : Entry s sid) (h' : Entry s' sid) (hf : s'.field = s.field)
    (hst : ∀ x, x ≠ sid → s'.state x = s.state x) (hrow : ∀ x, x ≠ sid → s'.row x = s.row x) (x : String) :
    Keeps x s s' := by
  refine ⟨?_, by rw [hf]⟩
  by_cases hx : x = sid
  · subst hx
    exact ⟨fun _ => h, fun _ => h'⟩
  · simp [Entry, hst x hx, hrow x hx]

lemma OnEntry.keeps {e : Env} (ho : OnEntry sid o) (h : Entry s sid) (x : String) :
    Keeps x s (perform i o e s).2 := by
  cases ho with
  | hsetState st seen =>
    apply Keeps.reply
    refine Keeps.of_entry h (.inl ?_) ?_ ?_ ?_ x
    · simp
    · rfl
    · intro y hy
      simp [Function.update_of_ne hy]
    · intro y _
      rfl
  | insertRow =>
    have hk : Keeps x s (s.insertRow sid).2 := by
      unfold Store.insertRow
      split
      · exact ⟨Iff.rfl, rfl⟩
      · refine Keeps.of_entry h (.inr ?_) ?_ ?_ ?_ x
        · simp
        · rfl
        · intro y _
          rfl
        · intro y hy
          simp [Function.update_of_ne hy]
    cases hf : e.fate <;> simp [perform, hf]
    exacts [hk, ⟨Iff.rfl, rfl⟩, hk]
  | setStatus st =>
    apply Keeps.reply
    unfold Store.setStatus
    split
    · refine Keeps.of_entry h (.inr ?_) ?_ ?_ ?_ x
      · simp
      · rfl
      · intro y _
        rfl
      · intro y hy
        simp [Function.update_of_ne hy]
    · exact ⟨Iff.rfl, rfl⟩
  | append y => exact Keeps.reply ⟨Iff.rfl, rfl⟩

lemma ask_entry (ho : OnEntry sid o) (h : Entry s sid) :
    Safe (proto subs i a) (fun _ s => Entry s sid) (ask o) s := by
  refine ask_keeps ?_ (fun s' e hR _ => ho.keeps (h.lasting hR.1)) ?_
  · intro s' _ call hc
    subst hc; cases ho
  · intro s' e hR _
    exact ((ho.keeps (h.lasting hR.1)) sid).1.2 (h.lasting hR.1)

end Steps

/-! ### A worker -/

section Worker

variable {subs : Submission → Prop} {i : ℕ} {a : Call} {s : Store} {sid : String}

variable {o : Op}

lemma ask_read {Q : Except Exc o.Ans → Store → Prop} (ho : Quiet o) (hs : ∀ e s, (perform i o e s).2 = s)
    (hQ : ∀ s' e, Lasting s s' → Filled subs s' → Q (perform i o e s').1 s') :
    Safe (proto subs i a) Q (ask o) s := by
  refine ask_keeps (fun s' _ call hc => absurd hc (ho.2 call)) ?_ ?_
  · intro s' e _ _
    rw [hs]
    exact fun x => ⟨Iff.rfl, rfl⟩
  · intro s' e hR hJ
    rw [hs]
    exact hQ s' e hR.1 hJ

lemma get_safe : Safe (proto subs i a) (fun r s => ∀ st, r = .ok (some st) → Entry s sid) (Fsm.get sid) s := by
  refine Safe.bind_iff.2 (Safe.tryExcept_iff.2 (ask_read ⟨rfl, by simp⟩ (fun e s => ?_) fun s₁ e _ _ => ?_))
  · cases hf : e.fate <;> simp [perform, reply, hf]
  have hdb : ∀ s, Safe (proto subs i a)
      (fun r s => ∀ st, r = .ok (some st) → Entry s sid) (Fsm.getFromDatabase sid) s := by
    intro s
    refine Safe.bind_iff.2 (Safe.tryExcept_iff.2 (ask_read ⟨rfl, by simp⟩ (fun e s => ?_) fun s₂ e _ _ => ?_))
    · cases hf : e.fate <;> simp [perform, reply, hf]
    cases hf : e.fate <;> simp only [perform, hf]
    case ok =>
      cases hrow : s₂.row sid with
      | none => exact fun st hst => by cases hst
      | some st =>
        have h₂ : Entry s₂ sid := .inr (by simp [hrow])
        refine Safe.bind_iff.2 (Safe.tryExcept_iff.2 ((ask_entry (.hsetState _ _) h₂).mono ?_))
        intro r s h
        cases r with
        | ok u => exact fun _ _ => h
        | error x => cases x <;> exact fun _ _ => h
    all_goals exact fun st hst => by cases hst
  cases hf : e.fate <;> simp [perform, hf]
  case ok =>
    cases hst : s₁.state sid with
    | none => exact hdb s₁
    | some st => exact fun _ _ => .inl (by simp [hst])
  all_goals exact hdb s₁

lemma transition_safe {ev : StrategyEvent} : Safe (proto subs i a)
    (fun r s => ∀ st, r = .ok st → Entry s sid) (Fsm.transition sid ev) s := by
  refine Safe.bind_iff.2 (Safe.tryExcept_iff.2 (get_safe.mono ?_))
  intro r s₁ h₁
  cases r with
  | error x => cases x <;> exact fun st hst => by cases hst
  | ok current =>
    cases current with
    | none => exact fun st hst => by cases hst
    | some cur =>
      have h₁ := h₁ cur rfl
      simp only [Coro.bind_eq]
      cases hm : Fsm.Machine.transition cur ev with
      | error x => exact fun st hst => by cases hst
      | ok new =>
        simp only [Coro.ofExcept_ok, Coro.bind_ret, Fsm.exceptRedis]
        refine Safe.bind_iff.2 (Safe.tryExcept_iff.2 ((ask_entry (.hsetState _ _) h₁).mono ?_))
        intro r s₂ h₂
        cases r with
        | error x => cases x <;> exact fun st hst => by cases hst
        | ok u =>
          refine Safe.bind_iff.2 (Safe.tryExcept_iff.2 (Safe.bind_iff.2
            ((ask_entry (.setStatus _) h₂).mono ?_)))
          intro r s₃ h₃
          cases r with
          | error x => exact fun st hst => by cases hst
          | ok u =>
            refine (ask_entry (.append _) h₃).mono ?_
            intro r s₄ h₄
            cases r with
            | error x => exact fun st hst => by cases hst
            | ok u => exact fun _ _ => h₄

lemma loadContext_safe (h : Entry s sid) : Safe (proto subs i a)
    (fun r s => ∀ call, r = .ok call → Entry s call.strategyId ∧ Matches subs call) (Worker.loadContext sid) s := by
  refine Safe.bind_iff.2 (ask_read ⟨rfl, by simp⟩ (fun e s => ?_) fun s₁ e hL _ => ?_)
  · cases hf : e.fate <;> simp [perform, reply, hf]
  have h₁ := h.lasting hL
  cases hf : e.fate <;> simp only [perform, hf]
  case ok =>
    cases s₁.field sid .dag with
    | none => exact fun call hc => by cases hc
    | some dag =>
      refine Safe.bind_iff.2 (ask_read ⟨rfl, by simp⟩ (fun e s => ?_) fun s₂ e hL hJ => ?_)
      · cases hf : e.fate <;> simp [perform, reply, hf]
      have h₂ := h₁.lasting hL
      cases hf : e.fate <;> simp only [perform, hf]
      case ok =>
        intro call hc
        obtain ⟨sub, hsub, hsid, hfl⟩ := hJ sid h₂
        have hdec : ∀ f ∈ StrategyComputeContext.readFields,
            (s₂.field sid f).bind stripped = sub.ctx.value f := by
          intro f hf
          rw [hfl f hf, sub.ctx.value_decode hf]
        obtain rfl := (Except.ok.inj hc).symm
        refine ⟨h₂, sub, hsub, hsid, ?_⟩
        simp only [StrategyComputeContext.diffCall, StrategyComputeContext.readFields, List.map_cons,
          List.map_nil, List.getD_cons_zero, List.getD_cons_succ]
        rw [hdec .worldId (by decide), hdec .executionDomain (by decide), hdec .asOf (by decide),
          hdec .partition (by decide), hdec .datasetFingerprint (by decide)]
      all_goals exact fun call hc => by cases hc
  all_goals exact fun call hc => by cases hc

lemma quiet_of_ofOwnership (h : o.ofOwnership = true) : Quiet o := by
  cases o <;> simp_all [Op.ofOwnership, Op.ofKafka, Quiet, Op.onRecords]

lemma quiet_of_ofQueue (h : RedisQueue.ofQueue o = true) : Quiet o := by
  cases o <;> simp_all [RedisQueue.ofQueue, Quiet, Op.onRecords]

end Worker

/-! ### The whole of a worker's call -/

section RunOnce

variable {subs : Submission → Prop} {i : ℕ} {a : Call} {α β : Type}

def Fine (subs : Submission → Prop) (i : ℕ) (a : Call) (m : Gw α) : Prop :=
  ∀ s, Safe (proto subs i a) (fun _ _ => True) m s

variable {m : Gw α}

lemma Fine.of_uses (h : Uses Quiet m) : Fine subs i a m :=
  fun _ => quiet_safe (K := fun _ => True) (fun _ _ _ h => h) h trivial

lemma Fine.bind {f : α → Gw β} (hm : Fine subs i a m) (hf : ∀ v, Fine subs i a (f v)) :
    Fine subs i a (m.bind f) :=
  Lib.Fine.bind hm hf

lemma Fine.tryExcept {h : Exc → Gw α} (hm : Fine subs i a m) (hh : ∀ e, Fine subs i a (h e)) :
    Fine subs i a (m.tryExcept h) :=
  Lib.Fine.tryExcept hm hh

lemma Fine.tryFinally {fin : Except Exc α → Gw Unit} (hm : Fine subs i a m) (hfin : ∀ r, Fine subs i a (fin r)) :
    Fine subs i a (m.tryFinally fin) :=
  Lib.Fine.tryFinally hm hfin

variable (w : Worker) (sid : String)

lemma fine_transition (ev : StrategyEvent) : Fine subs i a (w.transition sid ev) := by
  refine Fine.bind (fun s => transition_safe.mono fun _ _ _ => trivial) ?_
  intro newState
  split
  · exact .of_uses (Uses.perform ⟨rfl, by simp⟩)
  · exact .of_uses trivial

lemma uses_recordDiffFailure : Uses Quiet w.recordDiffFailure := by
  refine Uses.bind (Uses.perform ⟨rfl, by simp⟩) ?_
  intro count
  split
  · split
    · exact Uses.bind (Uses.perform ⟨rfl, by simp⟩) fun _ => Uses.perform ⟨rfl, by simp⟩
    · exact Uses.perform ⟨rfl, by simp⟩
  · trivial

lemma diffStrategy_safe {s : Store} {call : DiffCall} (h : Entry s call.strategyId)
    (hm : Matches subs call) : Safe (proto subs i a) (fun _ _ => True) (w.diffStrategy call) s := by
  unfold Worker.diffStrategy
  have hf : Fine subs i a (w.recordDiffFailure.bind fun _ => (.raise .diffFailure : Gw Bool)) :=
    .of_uses (Uses.bind (uses_recordDiffFailure w) fun _ => trivial)
  refine Safe.tryExcept_iff.2 (Safe.bind_iff.2 (ask_keeps ?_ ?_
    ?_))
  · intro s' hR c hc
    cases hc
    exact ⟨h.lasting hR.1, hm⟩
  · intro s' e _ _
    exact Keeps.of_recordPart (perform_recordPart rfl)
  · intro s' e _ _
    cases (perform i (.diff call) e s').1 with
    | error x => exact hf _
    | ok result =>
      have hr : Fine subs i a ((ask (.resetFailCount w.id)).bind fun _ => (.ret result : Gw Bool)) :=
        .of_uses (Uses.bind (Uses.perform ⟨rfl, by simp⟩) fun _ => trivial)
      refine (hr _).mono ?_
      intro r s _
      cases r with
      | ok v => trivial
      | error x => exact hf s

lemma fine_processOwned : Fine subs i a (w.processOwned sid) := by
  intro s
  unfold Worker.processOwned Worker.transition
  have hr : ∀ result, Fine subs i a ((w.broadcastQueueMap sid result).bind fun _ =>
      (w.invokeHandler sid).bind fun _ => (w.transition sid .complete).bind fun _ => (.ret true : Gw Bool)) := by
    intro result
    refine Fine.bind (.of_uses ?_) fun _ => Fine.bind (.of_uses ?_) fun _ =>
      Fine.bind (fine_transition w sid _) fun _ => .of_uses trivial
    · unfold Worker.broadcastQueueMap
      split
      · split
        · exact Uses.perform ⟨rfl, by simp⟩
        · trivial
      · trivial
    · unfold Worker.invokeHandler
      split
      · exact Uses.perform ⟨rfl, by simp⟩
      · trivial
  refine Safe.bind_iff.2 (Safe.bind_iff.2 (transition_safe.mono ?_))
  intro r s₁ h₁
  cases r with
  | error x => trivial
  | ok newState =>
    -- the strategy has an entry from here on
    have hp : Uses Quiet (if w.hub then ask (.sendProgress sid newState) else return : Gw Unit) := by
      split
      · exact Uses.perform ⟨rfl, by simp⟩
      · trivial
    refine (quiet_safe (fun _ _ hL h => Entry.lasting hL h) hp (h₁ newState rfl)).mono ?_
    intro r s₂ h₂
    cases r with
    | error x => trivial
    | ok u =>
      refine Safe.bind_iff.2 ((loadContext_safe h₂).mono ?_)
      intro r s₃ h₃
      cases r with
      | error x => trivial
      | ok call =>
        obtain ⟨hen, hm⟩ := h₃ call rfl
        refine Safe.bind_iff.2 ((diffStrategy_safe w hen hm).mono ?_)
        intro r s₄ _
        cases r with
        | error x => trivial
        | ok result => exact hr result s₄

lemma fine_process : Fine subs i a (w.process sid) := by
  refine Fine.bind (.of_uses ((w.manager.uses_acquire _ _).mono fun o ho => quiet_of_ofOwnership ho))
    ?_
  intro acquired
  split
  · refine Fine.tryFinally (Fine.tryExcept (fine_processOwned w sid) ?_) ?_
    · intro _
      exact Fine.bind (fine_transition w sid _) fun _ => .of_uses trivial
    · intro _
      exact .of_uses ((w.manager.uses_release _).mono fun o ho => quiet_of_ofOwnership ho)
  · exact .of_uses trivial

lemma fine_runOnce : Fine subs i a w.runOnce := by
  refine Fine.bind (.of_uses ((RedisQueue.uses_pop _).mono fun o ho => quiet_of_ofQueue ho)) ?_
  intro popped
  cases popped with
  | none => exact .of_uses trivial
  | some sid =>
    refine Fine.tryFinally (Fine.bind (fine_process w sid) fun _ => .of_uses trivial) ?_
    intro outcome
    refine Fine.bind (.of_uses (RedisQueue.uses_release _ _ ⟨rfl, by simp⟩ ⟨rfl, by simp⟩)) ?_
    intro _
    have hp : Fine subs i a ((RedisQueue.push sid).bind fun _ => .ret ()) :=
      .of_uses (Uses.bind ((RedisQueue.uses_push _).mono fun o ho => quiet_of_ofQueue ho) fun _ => trivial)
    match outcome with
    | .ok (some _) => exact .of_uses trivial
    | .ok none => exact hp
    | .error _ => exact hp

end RunOnce

/-! ### A submission -/

section Submit

variable {subs : Submission → Prop} {i : ℕ} {sub : Submission} {s s' : Store}

def Unfilled (sub : Submission) (s : Store) : Prop :=
  ¬ Entry s sub.sid ∧ ∀ f ∈ StrategyComputeContext.readFields, s.field sub.sid f = none

def Ready (sub : Submission) (s : Store) : Prop :=
  ¬ Entry s sub.sid ∧ ∀ f ∈ StrategyComputeContext.readFields, s.field sub.sid f = sub.ctx.value f

lemma Unfilled.keeps (h : Unfilled sub s) (hk : Keeps sub.sid s s') : Unfilled sub s' :=
  ⟨fun he => h.1 (hk.1.1 he), fun f hf => by rw [hk.2]; exact h.2 f hf⟩

lemma Ready.keeps (h : Ready sub s) (hk : Keeps sub.sid s s') : Ready sub s' :=
  ⟨fun he => h.1 (hk.1.1 he), fun f hf => by rw [hk.2]; exact h.2 f hf⟩

lemma own_step (hJ : Filled subs s) (he : ¬ Entry s sub.sid) (hne : ∀ x, x ≠ sub.sid → Keeps x s s')
    (hf : Entry s' sub.sid → subs sub ∧
      ∀ f ∈ StrategyComputeContext.readFields, s'.field sub.sid f = sub.ctx.value f) :
    Filled subs s' ∧ Lasting s s' ∧ ∀ x, x ∉ ownId (.submit sub) → Keeps x s s' := by
  refine ⟨?_, ?_, fun x hx => hne x fun h => hx (by simp [ownId, h])⟩
  · intro x hx
    by_cases hs : x = sub.sid
    · subst hs
      exact ⟨sub, (hf hx).1, rfl, (hf hx).2⟩
    · rw [(hne x hs).2]
      exact hJ x ((hne x hs).1.1 hx)
  · intro x hx
    have hs : x ≠ sub.sid := fun h => he (h ▸ hx)
    exact ⟨(hne x hs).1.2 hx, (hne x hs).2⟩

/-- The operations of a submission up to the queue, with its rollback. -/
inductive Early (sub : Submission) : Op → Prop
  | eval : Early sub (.evalDedupe sub.hash sub.sid sub.dag)
  | get (again : Bool) : Early sub (.getDagHash sub.hash again)
  | set : Early sub (.setDagHash sub.hash sub.sid)
  | hset : Early sub (.hset sub.sid [(.dag, sub.dag), (.hash, sub.hash)])
  | publish : Early sub (.publishSubmission sub.sid)
  | keep : Early sub (.localAppend sub.sid)
  | push : Early sub (.rpush sub.sid)
  | delDagHash : Early sub (.delDagHash sub.hash)
  | delStrategy : Early sub (.delStrategy sub.sid)

lemma hset_ne {x sid : String} {fs : List (Field × String)} (hx : x ≠ sid) : Keeps x s (s.hset sid fs) :=
  ⟨Iff.rfl, by simp [Store.hset, Function.update_of_ne hx]⟩

lemma Unfilled.hset_dag (h : Unfilled sub s) :
    Unfilled sub (s.hset sub.sid [(.dag, sub.dag), (.hash, sub.hash)]) := by
  refine ⟨h.1, ?_⟩
  intro f hf
  have hl : [(Field.dag, sub.dag), (.hash, sub.hash)].lookup f = none := by
    revert hf
    cases f <;> intro hf <;> first | rfl | exact absurd hf (by decide)
  simp [Store.hset, hl, h.2 f hf]

lemma reply_cases {α : Type} {exc : Exc} {f : Fate} {v : α} {P : Store → Prop} (h : P s) (h' : P s') :
    P (reply exc f s v s').2 := by
  cases f
  exacts [h', h, h']

def Clears (sub : Submission) (s s' : Store) : Prop :=
  (∀ x, x ≠ sub.sid → Keeps x s s') ∧ Unfilled sub s'

lemma Clears.congr {t : Store} (h : Clears sub s s') (hf : t.field = s'.field) (hst : t.state = s'.state)
    (hrow : t.row = s'.row) : Clears sub s t := by
  unfold Clears Keeps Unfilled Entry at h ⊢
  rw [hf, hst, hrow]
  exact h

lemma Early.clears {o : Op} {e : Env} (ho : Early sub o) (h : Unfilled sub s) :
    Clears sub s (perform i o e s).2 := by
  have hs : Clears sub s s := ⟨fun x _ => ⟨Iff.rfl, rfl⟩, h⟩
  have hdag : Clears sub s (s.hset sub.sid [(.dag, sub.dag), (.hash, sub.hash)]) :=
    ⟨fun x hx => hset_ne hx, h.hset_dag⟩
  have hq : ∀ o : Op, o.onRecords = false → Clears sub s (perform i o e s).2 := by
    intro o ho
    have hk := Keeps.of_recordPart (perform_recordPart (i := i) (e := e) (s := s) ho)
    exact ⟨fun x _ => hk x, h.keeps (hk _)⟩
  cases ho with
  | eval =>
    refine reply_cases hs ?_
    have hd : Clears sub s (s.dedupe sub.hash sub.sid sub.dag).2 := by
      unfold Store.dedupe
      split
      · exact hs
      · exact hdag.congr rfl rfl rfl
    unfold Store.tell
    split
    · exact hd.congr rfl rfl rfl
    · exact hd
  | get again => exact hq _ rfl
  | set =>
    refine reply_cases hs ?_
    split
    · exact hs.congr rfl rfl rfl
    · exact hs
  | hset => exact reply_cases hs hdag
  | publish => exact hq _ rfl
  | keep => exact hq _ rfl
  | push => exact hq _ rfl
  | delDagHash => exact reply_cases hs (hs.congr rfl rfl rfl)
  | delStrategy =>
    refine reply_cases hs ⟨?_, ?_, fun f _ => by simp⟩
    · intro x hx
      simp [Keeps, Entry, Function.update_of_ne hx]
    · have := h.1
      simp only [Entry, not_or] at this ⊢
      exact ⟨by simp, this.2⟩

lemma early_rollback : Uses (Early sub) (rollback sub) := uses_rollback .delDagHash .delStrategy

lemma early_publishSubmission : Uses (Early sub) (publishSubmission sub) := by
  unfold publishSubmission
  split
  · exact .tryExcept (.perform .publish) fun _ => .bind early_rollback fun _ => trivial
  · trivial

lemma early_enqueueWithRollback : Uses (Early sub) (enqueueWithRollback sub) := by
  refine .tryExcept (.bind (.perform .keep) ?_) fun _ => .bind early_rollback fun _ => trivial
  intro kept
  cases kept
  · exact .bind (.perform .push) fun _ => trivial
  · trivial

lemma early_safe {α : Type} {m : Gw α} (hm : Uses (Early sub) m) (h : Unfilled sub s) :
    Safe (proto subs i (.submit sub)) (fun _ s => Unfilled sub s) m s := by
  refine Uses.safe (p := proto subs i (.submit sub)) (fun s s' hR h => h.keeps (hR.2 _ rfl))
    (fun o ho s hJ h => ⟨?_, ?_⟩) hm h
  · intro call hc
    subst hc; cases ho
  · intro e _
    obtain ⟨hne, hu⟩ := ho.clears (i := i) (e := e) h
    obtain ⟨h1, h2⟩ := own_step hJ h.1 hne fun he => absurd he hu.1
    exact ⟨h1, h2, hu⟩

lemma persistContext_safe (h : Unfilled sub s) : Safe (proto subs i (.submit sub))
    (fun r s => ∀ u, r = .ok u → Ready sub s) (persistContext sub) s := by
  unfold persistContext
  split
  · rename_i hmap
    refine fun _ _ => ⟨h.1, ?_⟩
    intro f hf
    rw [h.2 f hf, ← sub.ctx.lookup_redisMapping hf, hmap]
    rfl
  · refine Safe.perform_iff.2 fun s₁ hR hJ => ⟨(fun call hc => nomatch hc), ?_⟩
    intro e _
    have h₁ := h.keeps (hR.2 _ rfl)
    have hr : Ready sub (s₁.hset sub.sid sub.ctx.redisMapping) := by
      refine ⟨h₁.1, ?_⟩
      intro f hf
      simp only [Store.hset, Function.update_self, sub.ctx.lookup_redisMapping hf, h₁.2 f hf]
      cases sub.ctx.value f <;> rfl
    have hs : ∀ s', (s' = s₁ ∨ s' = s₁.hset sub.sid sub.ctx.redisMapping) →
        Filled subs s' ∧ Lasting s₁ s' ∧ ∀ x, x ∉ ownId (.submit sub) → Keeps x s₁ s' := by
      rintro s' (rfl | rfl)
      · exact keeps_all hJ fun x => ⟨Iff.rfl, rfl⟩
      · exact own_step hJ h₁.1 (fun x hx => hset_ne hx) fun he => absurd he hr.1
    cases hf : e.fate <;> simp only [proto, perform, hf]
    case ok =>
      obtain ⟨hF, hG⟩ := hs _ (.inr rfl)
      exact ⟨hF, hG, fun _ _ => hr⟩
    case lost =>
      obtain ⟨hF, hG⟩ := hs _ (.inl rfl)
      exact ⟨hF, hG, fun u hu => by cases hu⟩
    case torn =>
      obtain ⟨hF, hG⟩ := hs _ (.inr rfl)
      exact ⟨hF, hG, fun u hu => by cases hu⟩

lemma hsetState_safe (hsub : subs sub) (h : Ready sub s) :
    Safe (proto subs i (.submit sub)) (fun r s => ∀ u, r = .ok u → Entry s sub.sid)
      (ask (.hsetState sub.sid .queued none)) s := by
  refine Safe.perform_iff.2 fun s₁ hR hJ => ⟨(fun call hc => nomatch hc), ?_⟩
  intro e _
  have h₁ := h.keeps (hR.2 _ rfl)
  have hs : ∀ s', (s' = s₁ ∨
      s' = { s₁ with state := Function.update s₁.state sub.sid (some .queued) }) →
      Filled subs s' ∧ Lasting s₁ s' ∧ ∀ x, x ∉ ownId (.submit sub) → Keeps x s₁ s' := by
    rintro s' (rfl | rfl)
    · exact keeps_all hJ fun x => ⟨Iff.rfl, rfl⟩
    · refine own_step hJ h₁.1 ?_ fun _ => ⟨hsub, h₁.2⟩
      intro x hx
      simp [Keeps, Entry, Function.update_of_ne hx]
  cases hf : e.fate <;> simp only [proto, perform, reply, hf]
  case ok =>
    obtain ⟨hF, hG⟩ := hs _ (.inr rfl)
    exact ⟨hF, hG, fun _ _ => .inl (by simp)⟩
  case lost =>
    obtain ⟨hF, hG⟩ := hs _ (.inl rfl)
    exact ⟨hF, hG, fun u hu => by cases hu⟩
  case torn =>
    obtain ⟨hF, hG⟩ := hs _ (.inr rfl)
    exact ⟨hF, hG, fun u hu => by cases hu⟩

lemma create_safe (hsub : subs sub) (h : Ready sub s) :
    Safe (proto subs i (.submit sub)) (fun _ _ => True) (Fsm.create sub.sid) s := by
  unfold Fsm.create Fsm.exceptRedis Fsm.insertStrategy
  refine Safe.bind_iff.2 (Safe.tryExcept_iff.2 ((hsetState_safe hsub h).mono ?_))
  intro r s₁ h₁
  cases r with
  | error x => cases x <;> trivial
  | ok u =>
    refine Safe.tryExcept_iff.2 (Safe.bind_iff.2 (Safe.bind_iff.2
      ((ask_entry .insertRow (h₁ u rfl)).mono ?_)))
    intro r s₂ h₂
    cases r with
    | error x => trivial
    | ok u =>
      refine (ask_entry (.append _) h₂).mono ?_
      intro r s₃ h₃
      cases r with
      | error x => trivial
      | ok u =>
        refine (ask_entry (.append _) h₃).mono ?_
        intro r s₄ _
        cases r <;> trivial

lemma submit_safe (hsub : subs sub) (h : Unfilled sub s) :
    Safe (proto subs i (.submit sub)) (fun _ _ => True) (submit sub) s := by
  unfold submit finalizeSubmission
  refine Safe.bind_iff.2 ((early_safe (uses_saveUnique .eval .get .set .hset) h).mono ?_)
  intro r s₁ h₁
  cases r with
  | error x => trivial
  | ok r =>
    dsimp only
    split
    · trivial
    · refine Safe.bind_iff.2 (Safe.bind_iff.2 ((early_safe early_publishSubmission h₁).mono ?_))
      intro r s₂ h₂
      cases r with
      | error x => trivial
      | ok u =>
        refine Safe.bind_iff.2 ((early_safe early_enqueueWithRollback h₂).mono ?_)
        intro r s₃ h₃
        cases r with
        | error x => trivial
        | ok u =>
          refine Safe.bind_iff.2 ((persistContext_safe h₃).mono ?_)
          intro r s₄ h₄
          cases r with
          | error x => trivial
          | ok u =>
            refine (create_safe hsub (h₄ u rfl)).mono ?_
            intro r s₅ _
            cases r <;> trivial

end Submit

/-! ### Runs -/

def Follows (subs : Submission → Prop) (_ : Cfg) : Ev → Prop
  | .start (.submit sub) => subs sub
  | _ => True

def KnownIds (ls : List Call) (s : Store) : Prop :=
  ls.Pairwise (fun a b => ∀ x ∈ ownId a, x ∉ ownId b) ∧
  ∀ x, (∀ a ∈ ls, x ∉ ownId a) →
    ¬ Entry s x ∧ ∀ f ∈ StrategyComputeContext.readFields, s.field x f = none

lemma composes (subs : Submission → Prop) (kind : DbKind) : System.Composes system (Follows subs)
    (init kind) (proto subs) (Filled subs) KnownIds (fun _ _ _ _ => True) where
  inv _ _ := rfl
  perform _ _ := rfl
  calls := rfl
  init := by
    have he : ∀ x, ¬ Entry (init kind).store x := by simp [Entry, init, Store.empty]
    exact ⟨fun x hx => absurd hx (he x), .nil, fun x _ => ⟨he x, fun f _ => rfl⟩⟩
  ok _ _ _ _ _ _ _ _ _ := trivial
  stable _ _ _ _ _ _ h := h
  start c a hP hmay _ hI := by
    have hnew : ∀ b ∈ c.labels, ∀ x ∈ ownId b, x ∉ ownId a := by
      cases a with
      | runOnce w => simp [ownId]
      | submit sub =>
        simp only [system, may, List.all_eq_true] at hmay
        intro b hb x hx hxa
        obtain ⟨⟨b, m⟩, hmem, rfl⟩ := List.mem_map.mp hb
        have := hmay _ hmem
        cases b with
        | runOnce w => simp [ownId] at hx
        | submit sub' =>
          simp only [ownId, Option.mem_def, Option.some.injEq] at hx hxa
          simp only [decide_eq_true_eq] at this
          exact this (hx.trans hxa.symm)
    refine ⟨⟨?_, fun x hx => hI.2 x fun b hb => hx b (List.mem_append_left _ hb)⟩, ?_⟩
    · rw [List.pairwise_append]
      refine ⟨hI.1, List.pairwise_singleton _ _, ?_⟩
      intro b hb a' ha'
      rw [List.mem_singleton.mp ha']
      exact hnew b hb
    · cases a with
      | submit sub =>
        refine Safe.bind_iff.2 ((submit_safe hP (hI.2 sub.sid ?_)).mono ?_)
        · intro b hb hx
          exact hnew b hb _ hx rfl
        · intro r s _
          cases r <;> trivial
      | runOnce w =>
        refine Safe.bind_iff.2 ((fine_runOnce w c.store).mono ?_)
        intro r s _
        cases r <;> trivial
  disturb c x _ _ hJ hI := by
    have hk : ∀ y, Keeps y c.store (disturb x c.store) := by
      intro y
      cases x <;> exact ⟨Iff.rfl, rfl⟩
    refine ⟨?_, ⟨hI.1, ?_⟩, fun i a _ => ⟨?_, fun y _ => hk y⟩⟩
    · intro y hy
      cases x <;> exact hJ y hy
    · intro y hy
      cases x <;> exact hI.2 y hy
    · intro y hy
      exact ⟨(hk y).1.2 hy, (hk y).2⟩
  keep ls i a s s' _ hI hi hG _ := by
    refine ⟨hI.1, ?_⟩
    intro x hx
    obtain ⟨h1, h2⟩ := hI.2 x hx
    have hk := hG.2 x (hx a (List.mem_of_getElem? hi))
    exact ⟨fun he => h1 (hk.1.1 he), fun f hf => by rw [hk.2]; exact h2 f hf⟩
  others ls i j a b s s' _ hI hi hj hij hG _ := by
    refine ⟨hG.1, fun x hxb => hG.2 x ?_⟩
    intro hxa
    obtain ⟨hilt, rfl⟩ := List.getElem?_eq_some_iff.mp hi
    obtain ⟨hjlt, rfl⟩ := List.getElem?_eq_some_iff.mp hj
    have hp := List.pairwise_iff_getElem.mp hI.1
    rcases Nat.lt_or_gt_of_ne hij with h | h
    · exact hp i j hilt hjlt h x hxa hxb
    · exact hp j i hjlt hilt h x hxb hxa

lemma follows_of_run {subs : Submission → Prop} {P : Cfg → Ev → Prop} {kind : DbKind} {c : Cfg}
    (h : system.Run P (init kind) c) (hs : ∀ sub, .submit sub ∈ c.labels → subs sub) :
    system.Run (Follows subs) (init kind) c := by
  induction h with
  | init => exact .init
  | next _ _ hst ih =>
    obtain ⟨-, ⟨a, rfl, rfl⟩ | ⟨j, e, a, o, k, rfl, hj, rfl⟩ | ⟨x, rfl, rfl⟩⟩ := System.step_cases hst
    · refine .next (ih fun sub h => hs sub ?_) ?_ hst
      · simp only [Config.labels, List.map_append] at h ⊢
        exact List.mem_append_left _ h
      · cases a with
        | submit sub => exact hs sub (by simp [Config.labels])
        | runOnce w => trivial
    · refine .next (ih fun sub h => hs sub ?_) ?_ hst
      · simp only [Config.labels, System.set_labels hj]
        exact h
      · trivial
    · refine .next (ih hs) ?_ hst
      trivial

/-- **A worker never diffs a strategy under another context than the submitted one**, in any
interleaving of submissions and workers, whatever fails. -/
theorem diffs_match {kind : DbKind} {c : Cfg} (h : system.Run (fun _ _ => True) (init kind) c) : DiffsMatch c := by
  intro i a call k hi
  have hrun : system.Run (Follows fun sub => .submit sub ∈ c.labels) (init kind) c :=
    follows_of_run h fun _ h => h
  obtain ⟨hJ, -, hsafe⟩ := hrun.safe (composes _ kind)
  have hat := (hsafe i a _ hi c.store ((proto _ i a).rely_refl _) hJ).1
  obtain ⟨hentry, sub, hsub, hsid, hcall⟩ := hat call rfl
  obtain ⟨⟨b, m⟩, hmem, hb⟩ := List.mem_map.mp hsub
  obtain ⟨j, hj⟩ := List.mem_iff_getElem?.mp hmem
  rw [show b = .submit sub from hb] at hj
  exact ⟨hentry, j, sub, m, hj, hsid, hcall⟩

def worldSubmission : Submission :=
  ⟨"s", "h", "dag", ContextService.build .ascii [" w1 "] (fun k => if k = "partition" then .str "p" else .none)
    .noClient, false⟩

def plainWorker : Worker := ⟨"w", ⟨0, [0], none⟩, false, false, false, 3⟩

def diffing : Gw Ret → Bool
  | .await (.diff call) _ => call.worldId = some "w1" && call.partition = some "p"
  | _ => false

/-- A run that comes to a diff: the submission has gone through, the worker has popped the id, owns
its key and has loaded the context. -/
theorem diffs_match_world : ∃ c, system.Run (fun _ _ => True) (init .postgres) c ∧
    (∃ (a : Call) (call : DiffCall) (k : _), c.calls[1]? = some (a, .await (.diff call) k) ∧
      call.worldId = some "w1" ∧ call.partition = some "p") ∧ DiffsMatch c := by
  obtain ⟨c, hrun, hq⟩ := exists_run system.step (init .postgres) (fun _ _ => true)
    (.start (.submit worldSubmission) :: List.replicate 8 (.resume 0 .ok) ++
      .start (.runOnce plainWorker) :: List.replicate 13 (.resume 1 .ok))
    (fun c => c.calls[1]?.any fun x => diffing x.2) (by decide)
  have hrun : system.Run (fun _ _ => True) (init .postgres) c := hrun.mono fun _ _ _ => trivial
  refine ⟨c, hrun, ?_, diffs_match hrun⟩
  simp only [Option.any_eq_true] at hq
  obtain ⟨⟨a, m⟩, hm, hq⟩ := hq
  unfold diffing at hq
  split at hq
  · rename_i call k hawait
    have hawait : m = .await (.diff call) k := hawait
    subst hawait
    simp only [Bool.and_eq_true, decide_eq_true_eq] at hq
    exact ⟨a, call, k, hm, hq⟩
  · cases hq

end Qmtl.Gateway.DiffContext

import Qmtl.Gateway.Worker

/-! A strategy whose diff or handler failed, put back on the queue and popped again. -/

namespace Qmtl.Gateway.Retry

open Lib Fsm

/-! ### Rounds -/

inductive Failure where
  | diff | handler
  deriving DecidableEq, Repr

/-- One `run_once`: by which worker, what fails in it, and on which pool connection each operation
runs. -/
structure Round where
  worker : Worker
  failure : Option Failure
  conn : Op → ℕ

namespace Round

variable (r : Round)

/-- Everything is healthy but what the round says. -/
def fate : Op → Fate
  | .diff _ => if r.failure = some .diff then .lost else .ok
  | .invokeHandler _ => if r.failure = some .handler then .lost else .ok
  | _ => .ok

def host (o : Op) (s : Store) : Except Exc o.Ans × Store :=
  perform 0 o ⟨r.fate o, r.conn o, true⟩ s

def run (s : Store) : Except Exc (Option String) × Store := r.worker.runOnce.exec r.host s

def fails : Bool :=
  match r.failure with
  | none => false
  | some .diff => true
  | some .handler => r.worker.handler

end Round

/-- The next round pops `sid` and its key is free. -/
structure Poised (sid : String) (s : Store) : Prop where
  head : s.list.head?.map Occ.item = some sid
  unlocked : s.lock sid = none
  free : s.advisory (Worker.lockKey sid) = none

def record (sid : String) (s : Store) := (s.field sid, s.state sid, s.row sid)

/-- **A failed strategy can be retried to completion**: no round raises, it is back on the queue after each, and the next one
completes it. -/
def Retried (sid : String) (final : Round) : List Round → Store → Prop
  | [], s => (final.run s).1 = .ok (some sid) ∧ (final.run s).2.state sid = some .completed ∧
      (final.run s).2.row sid = some .completed
  | r :: rs, s => (∃ a, (r.run s).1 = .ok a) ∧ sid ∈ (r.run s).2.list.map Occ.item ∧
      ∀ s', Poised sid s' → record sid s' = record sid (r.run s).2 → Retried sid final rs s'

section Exec

variable {r : Round} {s : Store} {sid : String}

lemma recordPart_exec {α : Type} {m : Gw α} (hm : Uses (fun o => o.onRecords = false) m) :
    (m.exec r.host s).2.recordPart = s.recordPart :=
  hm.exec (K := fun t : Store => t.recordPart = s.recordPart) (fun _ ho _ ht => (perform_recordPart ho).trans ht) rfl

lemma record_eq_of_recordPart {s s' : Store} (h : s'.recordPart = s.recordPart) :
    record sid s' = record sid s := by
  simp only [Store.recordPart, Prod.mk.injEq] at h
  simp [record, h]

/-! ### The queue -/

lemma exec_pop (h : Poised sid s) (owner : String) : (RedisQueue.pop owner).exec r.host s = (.ok (some sid),
      Store.lpop { s with lock := Function.update s.lock sid (some owner) } 0) := by
  obtain ⟨o, rest, hl, rfl⟩ : ∃ o rest, s.list = o :: rest ∧ o.item = sid := by
    have := h.head
    cases hl : s.list with
    | nil => simp [hl] at this
    | cons o rest => exact ⟨o, rest, rfl, by simpa [hl] using this⟩
  unfold RedisQueue.pop
  simp [RedisQueue.safeRedisCall_eq, Round.host, Round.fate, perform, reply, hl, h.unlocked,
    Except.toOption]

@[simp] lemma lpop_recordPart (i : ℕ) : (s.lpop i).recordPart = s.recordPart := by
  unfold Store.lpop
  split <;> rfl

@[simp] lemma lpop_advisory (i : ℕ) : (s.lpop i).advisory = s.advisory := by
  unfold Store.lpop
  split <;> rfl

lemma exec_release_queue (sid owner : String) :
    ∃ s', (RedisQueue.release sid owner).exec r.host s = (.ok (), s') ∧ s'.recordPart = s.recordPart := by
  refine ⟨((RedisQueue.release sid owner).exec r.host s).2, Prod.ext ?_ rfl,
    recordPart_exec (RedisQueue.uses_release _ _ rfl rfl)⟩
  unfold RedisQueue.release
  simp only [RedisQueue.safeRedisCall_eq, Coro.bind_eq, Coro.bind_await, Coro.exec_await, Coro.bind_ret]
  split
  · rfl
  · split <;> rfl

lemma exec_push : (RedisQueue.push sid).exec r.host s = (.ok true, (s.rpush sid)) := by
  unfold RedisQueue.push
  simp [RedisQueue.safeRedisCall_eq, Round.host, Round.fate, perform, reply, Store.noteFate,
    Except.toOption]

lemma exec_acquire {key : ℕ} (m : OwnershipManager) (owner : String) (h : s.advisory key = none) :
    ∃ s', (m.acquire key owner).exec r.host s = (.ok true, s') ∧ s'.recordPart = s.recordPart := by
  refine ⟨((m.acquire key owner).exec r.host s).2, Prod.ext ?_ rfl, recordPart_exec
    ((m.uses_acquire key owner).mono fun o ho => by cases o <;> first | rfl | cases ho)⟩
  exact m.exec_acquire owner (fun o => ⟨r.fate o, r.conn o, true⟩)
    (fun o ho => by cases o <;> first | rfl | cases ho) h

lemma exec_release (m : OwnershipManager) (key : ℕ) :
    ∃ s', (m.release key).exec r.host s = (.ok (), s') ∧ s'.recordPart = s.recordPart := by
  refine ⟨((m.release key).exec r.host s).2, Prod.ext ?_ rfl, recordPart_exec
    ((m.uses_release key).mono fun o ho => by cases o <;> first | rfl | cases ho)⟩
  unfold OwnershipManager.release
  simp only [ask, Coro.perform, Coro.bind_eq, Coro.bind_await, Coro.exec_await, Round.host, perform,
    Coro.ofExcept_ok, Coro.bind_ret]
  split <;> rfl

variable {dag : String} {st : StrategyState}

lemma exec_transition_ok {st' : StrategyState} (w : Worker) (ev : StrategyEvent) (hst : s.state sid = some st)
    (hrow : (s.row sid).isSome) (hm : Machine.transition st ev = .ok st') :
    ∃ s', (w.transition sid ev).exec r.host s = (.ok (), s') ∧
      record sid s' = (s.field sid, some st', some st') := by
  refine ⟨((w.transition sid ev).exec r.host s).2, Prod.ext ?_ rfl, ?_⟩ <;>
    cases hw : w.hub <;>
    simp [Worker.transition, Fsm.transition, Fsm.get, exceptRedis, ask, Coro.perform,
      Round.host, Round.fate, perform, reply, hst, hm, hw, record, Store.setStatus, hrow]

lemma exec_transition_error {ev : StrategyEvent} {x : Exc} (w : Worker) (hst : s.state sid = some st)
    (hm : Machine.transition st ev = .error x) : (w.transition sid ev).exec r.host s = (.error x, s) := by
  simp [Worker.transition, Fsm.transition, Fsm.get, exceptRedis, ask, Coro.perform,
    Round.host, Round.fate, perform, reply, hst, hm]

/-! ### One round -/

lemma exec_loadContext (hd : s.field sid .dag = some dag) :
    ∃ call, (Worker.loadContext sid).exec r.host s = (.ok call, s) :=
  ⟨_, by simp [Worker.loadContext, ask, Coro.perform, Round.host, Round.fate, perform, reply, hd]; rfl⟩

lemma exec_recordDiffFailure (w : Worker) : (w.recordDiffFailure.exec r.host s).1 = .ok () := by
  simp only [Worker.recordDiffFailure, ask, Coro.perform, Coro.bind_eq, Coro.bind_await, Coro.exec_await,
    Round.host, perform, Coro.ofExcept_ok, Coro.bind_ret]
  split
  · split <;> rfl
  · rfl

lemma exec_diffStrategy (w : Worker) (call : DiffCall) : ∃ s', (w.diffStrategy call).exec r.host s =
      (if r.failure = some .diff then .error .diffFailure else .ok true, s') ∧ s'.recordPart = s.recordPart := by
  refine ⟨((w.diffStrategy call).exec r.host s).2, Prod.ext ?_ rfl, recordPart_exec
    ((w.uses_diffStrategy call).mono fun _ h => h.2)⟩
  by_cases hf : r.failure = some .diff
  · simp only [Worker.diffStrategy, Coro.exec_tryExcept, ask, Coro.perform, Coro.bind_eq, Coro.bind_await,
      Coro.exec_await, Round.host, Round.fate, perform, reply, hf, if_true, Coro.ofExcept_error,
      Coro.bind_raise, Coro.exec_raise]
    rw [Coro.exec_bind_ok (Prod.ext (exec_recordDiffFailure w) rfl), Coro.exec_raise]
  · simp [Worker.diffStrategy, ask, Coro.perform, Round.host, Round.fate, perform, reply, hf]

lemma exec_broadcastQueueMap : (r.worker.broadcastQueueMap sid true).exec r.host s = (.ok (), s) := by
  cases hw : r.worker.hub <;>
    simp [Worker.broadcastQueueMap, hw, ask, Coro.perform, Round.host, Round.fate, perform, reply]

lemma exec_invokeHandler (sid : String) (hf : r.failure ≠ some .diff) : (r.worker.invokeHandler sid).exec r.host s =
    (if r.fails then .error .handlerError else .ok (), s) := by
  cases hr : r.failure with
  | none =>
    cases hw : r.worker.handler <;>
      simp [Round.fails, Worker.invokeHandler, ask, Coro.perform, Round.host, Round.fate, perform, reply, hr, hw]
  | some f =>
    cases f with
    | diff => exact absurd hr hf
    | handler =>
      cases hw : r.worker.handler <;>
        simp [Round.fails, Worker.invokeHandler, ask, Coro.perform, Round.host, Round.fate, perform, reply, hr, hw]

lemma exec_processOwned (hd : s.field sid .dag = some dag) (hst : s.state sid = some .queued)
    (hrow : (s.row sid).isSome) : ∃ s', (r.worker.processOwned sid).exec r.host s = (if r.fails then
        .error (if r.failure = some .diff then .diffFailure else .handlerError) else .ok true, s') ∧
      record sid s' = (s.field sid, if r.fails then (some .processing, some .processing)
        else (some .completed, some .completed)) := by
  obtain ⟨s₁, he₁, hr₁⟩ := exec_transition_ok (r := r) r.worker .process hst hrow rfl
  have hd₁ : s₁.field sid .dag = some dag := by
    simp only [record, Prod.mk.injEq] at hr₁
    rw [hr₁.1, hd]
  obtain ⟨call, hc⟩ := exec_loadContext (r := r) hd₁
  obtain ⟨s₂, he₂, hr₂⟩ := exec_diffStrategy (r := r) (s := s₁) r.worker call
  have hr₂ : record sid s₂ = _ := (record_eq_of_recordPart hr₂).trans hr₁
  unfold Worker.processOwned
  rw [Coro.bind_eq, Coro.exec_bind_ok he₁, Coro.bind_eq, Coro.exec_bind_ok hc, Coro.bind_eq]
  by_cases hf : r.failure = some .diff
  · rw [if_pos hf] at he₂
    rw [Coro.exec_bind_error he₂]
    exact ⟨s₂, by simp [Round.fails, hf], by simp [Round.fails, hf, hr₂]⟩
  · rw [if_neg hf] at he₂
    rw [Coro.exec_bind_ok he₂]
    have hi := exec_invokeHandler (r := r) (s := s₂) sid hf
    rw [Coro.bind_eq, Coro.exec_bind_ok exec_broadcastQueueMap, Coro.bind_eq]
    by_cases hfl : r.fails
    · rw [if_pos hfl] at hi
      rw [Coro.exec_bind_error hi]
      exact ⟨s₂, by simp [hfl, hf], by simp [hfl, hr₂]⟩
    · rw [if_neg hfl] at hi
      rw [Coro.exec_bind_ok hi]
      simp only [record, Prod.mk.injEq] at hr₂
      obtain ⟨s₃, he₃, hr₃⟩ := exec_transition_ok (r := r) r.worker .complete
        hr₂.2.1 (by rw [hr₂.2.2]; rfl) rfl
      rw [Coro.bind_eq, Coro.exec_bind_ok he₃]
      refine ⟨s₃, by simp [hfl], ?_⟩
      rw [hr₃, hr₂.1]
      simp [hfl]

def Stored (sid : String) (st : StrategyState) (s : Store) : Prop :=
  s.state sid = some st ∧ s.row sid = some st

lemma Stored.of_recordPart {s s' : Store} (hs : Stored sid st s) (h : s'.recordPart = s.recordPart) :
    Stored sid st s' := by
  simp only [Store.recordPart, Prod.mk.injEq] at h
  unfold Stored
  rw [h.2.2.1, h.2.2.2.1]
  exact hs

lemma exec_process_queued (hd : s.field sid .dag = some dag) (hst : Stored sid .queued s)
    (hfr : s.advisory (Worker.lockKey sid) = none) :
    ∃ s', (r.worker.process sid).exec r.host s = (.ok (!r.fails), s') ∧
      Stored sid (if r.fails then .failed else .completed) s' := by
  obtain ⟨s₁, he₁, hr₁⟩ := exec_acquire (r := r) r.worker.manager r.worker.id hfr
  have hd₁ : s₁.field sid .dag = some dag := by
    simp only [Store.recordPart, Prod.mk.injEq] at hr₁
    rw [hr₁.2.1, hd]
  have hs₁ := hst.of_recordPart hr₁
  obtain ⟨s₂, he₂, hr₂⟩ := exec_processOwned (r := r) hd₁ hs₁.1 (by rw [hs₁.2]; rfl)
  unfold Worker.process
  rw [Coro.bind_eq, Coro.exec_bind_ok he₁, if_pos rfl, Coro.exec_tryFinally, Coro.exec_tryExcept, he₂]
  simp only [record, Prod.mk.injEq] at hr₂
  cases hf : r.fails with
  | false =>
    simp only [hf, Bool.false_eq_true, if_false, Prod.mk.injEq] at hr₂ ⊢
    obtain ⟨s₃, he₃, hr₃⟩ := exec_release (r := r) (s := s₂) r.worker.manager (Worker.lockKey sid)
    rw [he₃]
    exact ⟨s₃, rfl, Stored.of_recordPart hr₂.2 hr₃⟩
  | true =>
    simp only [hf, if_true, Prod.mk.injEq] at hr₂ ⊢
    obtain ⟨s₃, he₃, hr₃⟩ := exec_transition_ok (r := r) r.worker .fail
        hr₂.2.1 (by rw [hr₂.2.2]; rfl) rfl
    obtain ⟨s₄, he₄, hr₄⟩ := exec_release (r := r) (s := s₃) r.worker.manager (Worker.lockKey sid)
    rw [Coro.bind_eq, Coro.exec_bind_ok he₃, Coro.pure_eq, Coro.exec_ret, he₄]
    simp only [record, Prod.mk.injEq] at hr₃
    exact ⟨s₄, rfl, Stored.of_recordPart hr₃.2 hr₄⟩

lemma exec_process_failed (hst : Stored sid .failed s) (hf : s.advisory (Worker.lockKey sid) = none) :
    ∃ x, ((r.worker.process sid).exec r.host s).1 = .error x := by
  obtain ⟨s₁, he₁, hr₁⟩ := exec_acquire (r := r) r.worker.manager r.worker.id hf
  have hs₁ := hst.of_recordPart hr₁
  obtain ⟨x, hx⟩ : ∃ x, Machine.transition .failed .process = .error x := ⟨_, rfl⟩
  obtain ⟨y, hy⟩ : ∃ y, Machine.transition .failed .fail = .error y := ⟨_, rfl⟩
  have hp : (r.worker.processOwned sid).exec r.host s₁ = (.error x, s₁) := by
    unfold Worker.processOwned
    rw [Coro.bind_eq, Coro.exec_bind_error (exec_transition_error r.worker hs₁.1 hx)]
  obtain ⟨s₂, he₂, -⟩ := exec_release (r := r) (s := s₁) r.worker.manager (Worker.lockKey sid)
  refine ⟨y, ?_⟩
  unfold Worker.process
  rw [Coro.bind_eq, Coro.exec_bind_ok he₁, if_pos rfl, Coro.exec_tryFinally, Coro.exec_tryExcept, hp]
  simp [Coro.exec_bind_error (exec_transition_error r.worker hs₁.1 hy), he₂]

def popped (r : Round) (sid : String) (s : Store) : Store :=
  Store.lpop { s with lock := Function.update s.lock sid (some r.worker.id) } 0

@[simp] lemma popped_recordPart (r : Round) (sid : String) (s : Store) :
    (popped r sid s).recordPart = s.recordPart := lpop_recordPart 0

@[simp] lemma popped_advisory (r : Round) (sid : String) (s : Store) :
    (popped r sid s).advisory = s.advisory := lpop_advisory 0

@[simp] lemma rpush_recordPart : (s.rpush sid).recordPart = s.recordPart := rfl

lemma run_eq {x : Except Exc Bool} {s₁ : Store} (h : Poised sid s)
    (hx : (r.worker.process sid).exec r.host (popped r sid s) = (x, s₁)) :
    (r.run s).1 = x.map (fun b => if b then some sid else none) ∧ (r.run s).2.recordPart = s₁.recordPart ∧
      (x ≠ .ok true → sid ∈ (r.run s).2.list.map Occ.item) := by
  have hpop := exec_pop (r := r) h r.worker.id
  obtain ⟨s₂, he₂, hr₂⟩ := exec_release_queue (r := r) (s := s₁) sid r.worker.id
  unfold Round.run Worker.runOnce
  rw [Coro.bind_eq, Coro.exec_bind_ok hpop]
  simp only [Coro.exec_tryFinally, Coro.bind_eq]
  change (r.worker.process sid).exec r.host (Store.lpop _ 0) = _ at hx
  have hmem : sid ∈ (s₂.rpush sid).list.map Occ.item := by simp [Store.rpush]
  rcases x with e | b
  · rw [Coro.exec_bind_error hx]
    simp [Coro.exec_bind_ok he₂, Coro.exec_bind_ok exec_push, Except.map, hmem, hr₂]
  · rw [Coro.exec_bind_ok hx]
    cases b
    · simp [Coro.exec_bind_ok he₂, Coro.exec_bind_ok exec_push, Except.map, hmem, hr₂]
    · simp [Coro.exec_bind_ok he₂, Except.map, hr₂]

lemma run_failed (h : Poised sid s) (hst : Stored sid .failed s) : ∃ x, (r.run s).1 = .error x := by
  obtain ⟨x, hx⟩ := exec_process_failed (r := r) (hst.of_recordPart (popped_recordPart r sid s))
    (by rw [popped_advisory]; exact h.free)
  exact ⟨x, by rw [(run_eq h (Prod.ext hx rfl)).1]; rfl⟩

lemma run_queued (h : Poised sid s) (hd : s.field sid .dag = some dag) (hst : Stored sid .queued s) :
    (r.run s).1 = .ok (if r.fails then none else some sid) ∧
      Stored sid (if r.fails then .failed else .completed) (r.run s).2 ∧
      (r.fails → sid ∈ (r.run s).2.list.map Occ.item) := by
  have hrec := popped_recordPart r sid s
  have hd₁ : (popped r sid s).field sid .dag = some dag := by
    simp only [Store.recordPart, Prod.mk.injEq] at hrec
    rw [hrec.2.1, hd]
  obtain ⟨s₁, he₁, hs₁⟩ := exec_process_queued (r := r) hd₁ (hst.of_recordPart hrec)
    (by rw [popped_advisory]; exact h.free)
  obtain ⟨hres, hr₁, hmem⟩ := run_eq h he₁
  refine ⟨?_, hs₁.of_recordPart hr₁, fun hf => hmem (by simp [hf])⟩
  rw [hres]
  cases r.fails <;> rfl

end Exec

/-! ### The theorem -/

def Poised.again (sid : String) (s : Store) : Store :=
  { s with list := [⟨0, sid⟩], lock := fun _ => none, advisory := fun _ => none }

lemma Poised.again_spec (sid : String) (s : Store) : Poised sid (again sid s) :=
  ⟨rfl, rfl, rfl⟩

variable {final : Round} {s : Store} {sid : String}

lemma not_retried_of_failed {rs : List Round} (h : Poised sid s) (hst : Stored sid .failed s) :
    ¬ Retried sid final rs s := by
  cases rs with
  | nil =>
    intro hr
    obtain ⟨x, hx⟩ := run_failed (r := final) h hst
    rw [Retried, hx] at hr
    exact absurd hr.1 (by simp)
  | cons r rs =>
    rintro ⟨⟨a, ha⟩, -⟩
    obtain ⟨x, hx⟩ := run_failed (r := r) h hst
    rw [hx] at ha
    cases ha

lemma not_retried_cons {dag : String} {r : Round} {rs : List Round} (h : Poised sid s) (hst : Stored sid .queued s)
    (hd : s.field sid .dag = some dag) (hf : r.fails) : ¬ Retried sid final (r :: rs) s := by
  rintro ⟨-, -, hn⟩
  obtain ⟨-, hst', -⟩ := run_queued (r := r) h hd hst
  rw [if_pos hf] at hst'
  have hp := Poised.again_spec sid (r.run s).2
  exact not_retried_of_failed hp hst' (hn _ hp rfl)

lemma retried_nil {dag : String} (h : Poised sid s) (hst : Stored sid .queued s) (hd : s.field sid .dag = some dag)
    (hf : final.fails = false) : Retried sid final [] s := by
  obtain ⟨hres, hst', -⟩ := run_queued (r := final) h hd hst
  rw [hf] at hres hst'
  exact ⟨hres, hst'⟩

/-- **Retrying works exactly when nothing failed.** A strategy in `queued`, with its DAG stored, is
taken to `completed` by a healthy round; after one round that fails, no later round gets through. -/
theorem retried_iff {sid dag : String} {final : Round} {rounds : List Round} {s : Store}
    (hp : Poised sid s) (hst : Stored sid .queued s) (hd : s.field sid .dag = some dag)
    (hfails : ∀ r ∈ rounds, r.fails = true) (hfinal : final.failure = none) :
    Retried sid final rounds s ↔ rounds = [] := by
  constructor
  · intro h
    cases rounds with
    | nil => rfl
    | cons r rs => exact absurd h (not_retried_cons hp hst hd (hfails r (by simp)))
  · rintro rfl
    exact retried_nil hp hst hd (by simp [Round.fails, hfinal])

/-! ### One worker and one strategy -/

def worker : Worker := ⟨"w", ⟨0, [0], none⟩, false, true, false, 3⟩

def round (f : Option Failure) : Round := ⟨worker, f, fun _ => 0⟩

def waiting : Store :=
  { Store.empty with
    list := [⟨0, "s"⟩]
    field := fun _ f => if f = .dag then some "{}" else none
    state := fun _ => some .queued
    row := fun _ => some .queued }

lemma waiting_poised : Poised "s" waiting := ⟨rfl, rfl, rfl⟩

/-- A healthy round completes it. -/
theorem retried_iff_waiting : (∀ r ∈ [round (some .diff), round (some .handler)], r.fails = true) ∧
    (Retried "s" (round none) [] waiting ↔ ([] : List Round) = []) ∧
    (Retried "s" (round none) [round (some .diff), round (some .handler)] waiting ↔
      [round (some .diff), round (some .handler)] = []) :=
  have hf : ∀ r ∈ [round (some .diff), round (some .handler)], r.fails := by
    simp [round, Round.fails, worker]
  ⟨hf, retried_iff waiting_poised ⟨rfl, rfl⟩ rfl (by simp) rfl,
    retried_iff waiting_poised ⟨rfl, rfl⟩ rfl hf rfl⟩

/-- One failed diff puts the strategy back, and the next round, in which nothing fails, raises. -/
theorem not_retried_waiting : ((round (some .diff)).run waiting).1 = .ok none ∧
    ((round none).run ((round (some .diff)).run waiting).2).1 =
      .error (.valueError "invalid event 'FAIL' for state 'failed'") ∧
    ¬ Retried "s" (round none) [round (some .diff)] waiting :=
  ⟨by decide +kernel, by decide +kernel, not_retried_cons waiting_poised ⟨rfl, rfl⟩ rfl rfl⟩

end Qmtl.Gateway.Retry

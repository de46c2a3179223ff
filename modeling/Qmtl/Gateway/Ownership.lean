import Qmtl.Gateway.Backend

/-! `OwnershipManager`: ownership of a key by the assignment of a Kafka partition, or else by a Postgres
advisory lock. -/

namespace Qmtl.Gateway

structure KafkaOwner where
  consumer : ℕ
  topic : String
  partitioner : ℕ → ℕ → ℕ
  rebalanceAttempts : ℕ

structure OwnershipManager where
  memory : ℕ
  pool : List ℕ
  kafka : Option KafkaOwner

namespace KafkaOwner

variable (k : KafkaOwner)

def selectPartition (key : ℕ) (partitions : List ℕ) : ℕ :=
  if partitions = [] then 0
  else partitions.getD (k.partitioner key partitions.length % partitions.length) 0

def assignment (target key : ℕ) : ℕ → Gw (List (String × ℕ))
  | 0 => pure []
  | n + 1 => do
    let assigned : List (String × ℕ) ← ask (.assignment k.consumer k.topic target key)
    if assigned = [] then
      ask .sleep
      assignment target key n
    else return assigned

def acquire (key : ℕ) : Gw Bool := do
  ask (.consumerStart k.consumer)
  let found : List ℕ ← ask .partitionsForTopic
  let partitions := found.insertionSort (· ≤ ·)
  if partitions = [] then return false
  let target := k.selectPartition key partitions
  let assigned ← k.assignment target key k.rebalanceAttempts
  return decide ((k.topic, target) ∈ assigned)

end KafkaOwner

namespace OwnershipManager

variable (m : OwnershipManager) (key : ℕ) (owner : String)

def tryKafkaAcquire : Gw Bool :=
  match m.kafka with
  | none => pure false
  | some k =>
    Lib.Coro.tryExcept (do
      let granted ← k.acquire key
      if granted then
        ask (.recordReassignment m.memory key owner)
        ask (.rememberOwner m.memory key owner)
        return true
      else
        ask (.pendingAdd m.memory key)
        return false) fun _ => pure false

def tryDbAcquire : Gw Bool := do
  let acquired : Bool ← ask (.tryAdvisoryLock m.pool key)
  if acquired then
    ask (.recordReassignment m.memory key owner)
    ask (.rememberOwner m.memory key owner)
    return true
  else return false

def acquire : Gw Bool := do
  let byKafka ← m.tryKafkaAcquire key owner
  if byKafka then return true
  let acquired ← m.tryDbAcquire key owner
  if acquired then
    ask (.dbOwnedAdd m.memory key)
    return true
  else
    ask (.pendingAdd m.memory key)
    return false

def release : Gw Unit := do
  let dbOwned : Bool ← ask (.dropDbOwned m.memory key m.kafka.isNone)
  if dbOwned then
    let _ ← ask (.advisoryUnlock m.pool key)
    return
  else return

end OwnershipManager

/-! ### The operations of ownership -/

def Op.ofKafka : Op → Bool
  | .consumerStart _ | .partitionsForTopic | .assignment _ _ _ _ | .sleep | .pendingAdd _ _
  | .recordReassignment _ _ _ | .rememberOwner _ _ _ => true
  | _ => false

/-- The operations `acquire` and `release` come to. -/
def Op.ofOwnership : Op → Bool
  | .tryAdvisoryLock _ _ | .advisoryUnlock _ _ | .dbOwnedAdd _ _ | .dropDbOwned _ _ _ => true
  | o => o.ofKafka

section Uses

open Lib

variable (m : OwnershipManager) (k : KafkaOwner) (key : ℕ) (owner : String)

lemma KafkaOwner.uses_assignment (target n : ℕ) : Uses (fun o => o.ofKafka) (k.assignment target key n) := by
  induction n with
  | zero => trivial
  | succ n ih =>
    refine Uses.bind (Uses.perform rfl) ?_
    intro assigned
    split
    · exact Uses.bind (Uses.perform rfl) fun _ => ih
    · trivial

lemma KafkaOwner.uses_acquire : Uses (fun o => o.ofKafka = true) (k.acquire key) := by
  refine Uses.bind (Uses.perform rfl) fun _ => Uses.bind (Uses.perform rfl) ?_
  intro found
  dsimp only
  split
  · trivial
  · exact Uses.bind (k.uses_assignment key _ _) fun _ => trivial

namespace OwnershipManager

lemma uses_tryKafkaAcquire : Uses (fun o => o.ofKafka) (m.tryKafkaAcquire key owner) := by
  unfold tryKafkaAcquire
  split
  · trivial
  · refine Uses.tryExcept (Uses.bind (KafkaOwner.uses_acquire _ key) ?_) fun _ => trivial
    intro granted
    split
    · exact Uses.bind (Uses.perform rfl) fun _ => Uses.bind (Uses.perform rfl) fun _ => trivial
    · exact Uses.bind (Uses.perform rfl) fun _ => trivial

lemma ofOwnership_of_ofKafka (o : Op) (h : o.ofKafka = true) : o.ofOwnership := by
  cases o <;> first | rfl | exact h

lemma uses_tryDbAcquire : Uses (fun o => o.ofOwnership) (m.tryDbAcquire key owner) := by
  refine Uses.bind (Uses.perform rfl) ?_
  intro acquired
  split
  · exact Uses.bind (Uses.perform rfl) fun _ => Uses.bind (Uses.perform rfl) fun _ => trivial
  · trivial

lemma uses_acquire : Uses (fun o => o.ofOwnership) (m.acquire key owner) := by
  refine Uses.bind ((m.uses_tryKafkaAcquire key owner).mono ofOwnership_of_ofKafka) ?_
  intro byKafka
  split
  · trivial
  · refine Uses.bind (m.uses_tryDbAcquire key owner) ?_
    intro acquired
    split
    · exact Uses.bind (Uses.perform rfl) fun _ => trivial
    · exact Uses.bind (Uses.perform rfl) fun _ => trivial

lemma uses_release : Uses (fun o => o.ofOwnership) (m.release key) := by
  refine Uses.bind (Uses.perform rfl) ?_
  intro dbOwned
  split
  · exact Uses.bind (Uses.perform rfl) fun _ => trivial
  · trivial

end OwnershipManager

end Uses

section Acquire

open Lib

variable {i : ℕ} {s : Store} {key : ℕ}

lemma perform_advisory {o : Op} {e : Env} (h : o.ofKafka) : (perform i o e s).2.advisory = s.advisory := by
  obtain ⟨f, c, b⟩ := e
  cases o <;> simp only [Op.ofKafka, reduceCtorEq] at h <;> cases f <;>
    simp [perform, reply, Store.seeAssignment, Store.recordReassignment, Store.updateManager] <;>
    (try split) <;> (try split) <;> (try split) <;> rfl

lemma OwnershipManager.exec_tryKafkaAcquire (m : OwnershipManager) (owner : String) (env : Op → Env) (key : ℕ) :
    ∃ b s', (m.tryKafkaAcquire key owner).exec (fun o => perform i o (env o)) s = (.ok b, s') ∧
      s'.advisory = s.advisory := by
  have hadv : ((m.tryKafkaAcquire key owner).exec (fun o => perform i o (env o)) s).2.advisory = s.advisory :=
    (m.uses_tryKafkaAcquire key owner).exec
      (K := fun t : Store => t.advisory = s.advisory)
      (fun _ ho _ ht => (perform_advisory ho).trans ht) rfl
  obtain ⟨b, hb⟩ : ∃ b, ((m.tryKafkaAcquire key owner).exec (fun o => perform i o (env o)) s).1 = .ok b := by
    unfold OwnershipManager.tryKafkaAcquire
    split
    · exact ⟨_, rfl⟩
    · rw [Coro.exec_tryExcept]
      split <;> exact ⟨_, rfl⟩
  exact ⟨b, _, Prod.ext hb rfl, hadv⟩

lemma OwnershipManager.exec_acquire (m : OwnershipManager) (owner : String) (env : Op → Env)
    (hok : ∀ o, o.ofOwnership → (env o).fate = .ok) (h : s.advisory key = none) :
    ((m.acquire key owner).exec (fun o => perform i o (env o)) s).1 = .ok true := by
  obtain ⟨b, s', hb, hadv⟩ := m.exec_tryKafkaAcquire (i := i) (s := s) owner env key
  unfold OwnershipManager.acquire
  rw [Coro.bind_eq, Coro.exec_bind_ok hb]
  cases b with
  | true => rfl
  | false =>
    simp [OwnershipManager.tryDbAcquire, ask, Coro.perform, perform, reply, Store.tryLock, hadv, h,
      hok (.tryAdvisoryLock m.pool key) rfl]

end Acquire

end Qmtl.Gateway

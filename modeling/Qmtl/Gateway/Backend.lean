import Qmtl.Lib.Interleave

/-! The stores and services the gateway's coroutines talk to: Redis, the strategy database with its
session advisory locks, the Kafka consumer group, the commit log, the DAG manager and the hub. -/

namespace Qmtl.Gateway

open Lib

/-! ### Values -/

/-- How a remote operation ends: answered, failed before it took effect, or failed after. -/
inductive Fate where
  | ok | lost | torn
  deriving DecidableEq, Repr

/-- The states of `StrategyFSM`'s machine. -/
inductive StrategyState where
  | queued | processing | completed | failed
  deriving DecidableEq, Repr

/-- The events of `StrategyFSM`'s machine. -/
inductive StrategyEvent where
  | process | complete | fail | retry
  deriving DecidableEq, Repr

inductive LogEntry where
  | init (st : StrategyState)
  | event (ev : StrategyEvent)
  deriving DecidableEq, Repr

/-- The fields of the hash `strategy:{id}`, `state` apart. -/
inductive Field where
  | dag | hash
  | worldId | executionDomain | asOf | partition | datasetFingerprint | downgradeReason
  deriving DecidableEq, Repr

structure DiffCall where
  strategyId : String
  dagJson : String
  worldId : Option String
  executionDomain : Option String
  asOf : Option String
  partition : Option String
  datasetFingerprint : Option String
  deriving DecidableEq, Repr

inductive DegradationLevel where
  | normal | partial_ | minimal | static
  deriving DecidableEq, Repr

/-- What `StrategyQueue.enqueue` reads of a `DegradationManager`. -/
structure Degradation where
  level : DegradationLevel
  dagOk : Bool
  deriving DecidableEq, Repr

/-- The exceptions the modelled code raises or meets. -/
inductive Exc where
  | redisError | dbError | kafkaError | commitLogError | rpcError | hubError | handlerError | slackError
  | attributeError
  | runtimeError (msg : String)
  | valueError (msg : String)
  | fsmError (msg : String)
  | transitionError (msg : String)
  | diffFailure
  | httpException (status : ℕ) (code message : String)
  deriving DecidableEq, Repr

/-- The three implementations of `Database`; they differ on inserting a row twice. -/
inductive DbKind where
  | postgres | sqlite | memory
  deriving DecidableEq, Repr

/-- One pushed occurrence of an id: the number of the push tells it from the others. -/
structure Occ where
  tag : ℕ
  item : String
  deriving DecidableEq, Repr

/-! ### Ownership managers -/

structure Manager where
  lastOwner : ℕ → Option String
  pending : Finset ℕ
  dbOwned : Finset ℕ

def Manager.empty : Manager := ⟨fun _ => none, ∅, ∅⟩

/-- By which of the two mechanisms a key was granted: the partition that was assigned to a consumer, or the
advisory lock. -/
inductive Via where
  | kafka (consumer : ℕ) (partition : String × ℕ)
  | db
  deriving DecidableEq, Repr

/-- What a call holds of a key: it is between a successful `acquire` and its `release`, or it has
entered `release` and its advisory lock is still to be given back. -/
inductive Grip where
  | inside (key : ℕ) (via : Via)
  | leaving (key : ℕ)
  deriving DecidableEq, Repr

structure Store where
  /-- the Redis list `strategy_queue` -/
  list : List Occ
  /-- the Redis keys `lock:{item}` -/
  lock : String → Option String
  /-- the Redis keys `dag_hash:{hash}` -/
  dagHash : String → Option String
  /-- the Redis hashes `strategy:{id}` -/
  field : String → Field → Option String
  /-- the field `state` of `strategy:{id}` -/
  state : String → Option StrategyState
  dbKind : DbKind
  /-- the column `status` of the table `strategies` -/
  row : String → Option StrategyState
  /-- the table `event_log` -/
  log : List (String × LogEntry)
  /-- advisory locks: the connection that holds the key, and how often it took it -/
  advisory : ℕ → Option (ℕ × ℕ)
  /-- Kafka consumers that have started, the partitions of the ownership topic, the assignment -/
  started : ℕ → Bool
  partitions : List ℕ
  assigned : ℕ → List (String × ℕ)
  /-- the commit log's submission records -/
  ingested : List String
  /-- memory of the gateway processes -/
  manager : ℕ → Manager
  degradation : Option Degradation
  localQueue : List String
  failCount : String → ℕ
  reassigned : ℕ
  /-- every occurrence pushed, and every one removed with the call that removed it -/
  pushed : List Occ
  removed : List (ℕ × Occ)
  /-- ids answered to a submitter as already existing -/
  told : List String
  /-- ids whose submission met an error on its way into the queue -/
  doomed : List String
  /-- what each call holds of an ownership key -/
  grip : ℕ → Option Grip
  /-- the calls of `diff` -/
  diffs : List DiffCall

def Store.empty : Store where
  list := []
  lock := fun _ => none
  dagHash := fun _ => none
  field := fun _ _ => none
  state := fun _ => none
  dbKind := .postgres
  row := fun _ => none
  log := []
  advisory := fun _ => none
  started := fun _ => false
  partitions := []
  assigned := fun _ => []
  ingested := []
  manager := fun _ => .empty
  degradation := none
  localQueue := []
  failCount := fun _ => 0
  reassigned := 0
  pushed := []
  removed := []
  told := []
  doomed := []
  grip := fun _ => none
  diffs := []

/-- Partitions are looked up in an assignment. -/
instance instLawfulBEqPartition : LawfulBEq (String × ℕ) := inferInstance

/-! ### Operations -/

/-- The operations the coroutines await, in the words of the source. What `lpop` peeked, whether
`getDagHash` follows a refused `SET NX`, the state `hsetState` was computed from and what
`assignment` looks for is there for the record only. -/
inductive Op where
  -- Redis: the queue and its locks
  | rpush (item : String)
  | lindex
  | lpop (peeked : String)
  | setLock (item owner : String)
  | getLock (item : String)
  | delLock (item : String)
  -- Redis: submissions
  | evalDedupe (hash sid dag : String)
  | getDagHash (hash : String) (again : Bool)
  | setDagHash (hash sid : String)
  | delDagHash (hash : String)
  | hset (sid : String) (fields : List (Field × String))
  | hget (sid : String) (f : Field)
  | hmget (sid : String) (fs : List Field)
  | delStrategy (sid : String)
  | hsetState (sid : String) (st : StrategyState) (seen : Option StrategyState)
  | hgetState (sid : String)
  -- the database
  | insertRow (sid : String)
  | setStatus (sid : String) (st : StrategyState)
  | getStatus (sid : String)
  | appendEvent (sid : String) (entry : LogEntry)
  | tryAdvisoryLock (pool : List ℕ) (key : ℕ)
  | advisoryUnlock (pool : List ℕ) (key : ℕ)
  -- Kafka
  | consumerStart (consumer : ℕ)
  | partitionsForTopic
  | assignment (consumer : ℕ) (topic : String) (target key : ℕ)
  | sleep
  | publishSubmission (sid : String)
  -- the gateway's own memory
  | pendingAdd (m key : ℕ)
  | recordReassignment (m key : ℕ) (owner : String)
  | rememberOwner (m key : ℕ) (owner : String)
  | dbOwnedAdd (m key : ℕ)
  | dropDbOwned (m key : ℕ) (noKafka : Bool)
  | localAppend (sid : String)
  | resetFailCount (worker : String)
  | bumpFailCount (worker : String)
  -- services
  | diff (call : DiffCall)
  | sendProgress (sid : String) (st : StrategyState)
  | sendQueueMap (sid : String)
  | invokeHandler (sid : String)
  | sendSlack (msg : String)

/-- What each operation answers. `diff` answers whether it got a chunk rather than `None`. -/
abbrev Op.Ans : Op → Type
  | .rpush _ => ℕ
  | .lindex | .lpop _ | .getLock _ | .getDagHash _ _ | .hget _ _ => Option String
  | .setLock _ _ | .setDagHash _ _ | .tryAdvisoryLock _ _ | .advisoryUnlock _ _
  | .dropDbOwned _ _ _ | .localAppend _ | .diff _ => Bool
  | .evalDedupe _ _ _ => String × Bool
  | .hmget _ _ => List (Option String)
  | .hgetState _ | .getStatus _ => Option StrategyState
  | .partitionsForTopic => List ℕ
  | .assignment _ _ _ _ => List (String × ℕ)
  | .bumpFailCount _ => ℕ
  | _ => Unit

/-- What the environment chooses at an await: the fate of the operation, the pool connection it
runs on, and whether `diff` comes back with a chunk. -/
structure Env where
  fate : Fate
  conn : ℕ
  chunk : Bool
  deriving DecidableEq, Repr

def Env.ok : Env := ⟨.ok, 0, true⟩

abbrev Gw (α : Type) := Coro Op Op.Ans Exc α

def reply {α : Type} (x : Exc) (f : Fate) (s : Store) (a : α) (s' : Store) : Except Exc α × Store :=
  match f with
  | .ok => (.ok a, s')
  | .lost => (.error x, s)
  | .torn => (.error x, s')

section Effects

variable (s : Store)

def Store.rpush (item : String) : Store :=
  { s with list := s.list ++ [⟨s.pushed.length, item⟩], pushed := s.pushed ++ [⟨s.pushed.length, item⟩] }

def Store.lpop (i : ℕ) : Store :=
  match s.list with
  | [] => s
  | o :: rest => { s with list := rest, removed := s.removed ++ [(i, o)] }

def Store.hset (sid : String) (fields : List (Field × String)) : Store :=
  { s with field := Function.update s.field sid fun f =>
      match fields.lookup f with
      | some v => some v
      | none => s.field sid f }

def Store.dedupe (hash sid dag : String) : (String × Bool) × Store :=
  match s.dagHash hash with
  | some existing => ((existing, true), s)
  | none => ((sid, false),
      { s.hset sid [(.dag, dag), (.hash, hash)] with dagHash := Function.update s.dagHash hash (some sid) })

def Store.tryLock (i conn key : ℕ) : Bool × Store :=
  match s.advisory key with
  | none => (true, { s with
      advisory := Function.update s.advisory key (some (conn, 1))
      grip := Function.update s.grip i (some (.inside key .db)) })
  | some (c, n) =>
    if c = conn then (true, { s with
      advisory := Function.update s.advisory key (some (conn, n + 1))
      grip := Function.update s.grip i (some (.inside key .db)) })
    else (false, s)

def Store.unlock (i conn key : ℕ) : Bool × Store :=
  match s.advisory key with
  | none => (false, { s with grip := Function.update s.grip i none })
  | some (c, n) =>
    if c = conn then (true, { s with
      advisory := Function.update s.advisory key (if n ≤ 1 then none else some (c, n - 1))
      grip := Function.update s.grip i none })
    else (false, { s with grip := Function.update s.grip i none })

def Store.seeAssignment (i consumer : ℕ) (topic : String) (target key : ℕ) : Store :=
  if (topic, target) ∈ s.assigned consumer then
    { s with grip := Function.update s.grip i (some (.inside key (.kafka consumer (topic, target)))) }
  else s

def Store.updateManager (m : ℕ) (f : Manager → Manager) : Store :=
  { s with manager := Function.update s.manager m (f (s.manager m)) }

def Store.recordReassignment (m key : ℕ) (owner : String) : Store :=
  if key ∈ (s.manager m).pending then
    { s.updateManager m fun M => { M with pending := M.pending.erase key } with
      reassigned := s.reassigned + 1 }
  else
    match (s.manager m).lastOwner key with
    | none => s
    | some last => if last = owner then s else { s with reassigned := s.reassigned + 1 }

def Store.dropDbOwned (i m key : ℕ) (noKafka : Bool) : Bool × Store :=
  if key ∈ (s.manager m).dbOwned ∨ noKafka = true then
    (true, { s.updateManager m fun M => { M with dbOwned := M.dbOwned.erase key } with
      grip := Function.update s.grip i (some (.leaving key)) })
  else (false, { s with grip := Function.update s.grip i none })

/-- `StrategyQueue.enqueue` keeps the id in the process while the DAG manager is down. -/
def Store.degraded : Bool :=
  s.degradation.any fun d => d.level = .partial_ && !d.dagOk

def Store.insertRow (sid : String) : Except Exc Unit × Store :=
  if s.dbKind ≠ .memory ∧ (s.row sid).isSome then (.error .dbError, s)
  else (.ok (), { s with row := Function.update s.row sid (some .queued) })

def Store.setStatus (sid : String) (st : StrategyState) : Store :=
  if (s.row sid).isSome then { s with row := Function.update s.row sid (some st) } else s

def Store.tell (f : Fate) (ids : List String) : Store :=
  if f = .ok then { s with told := ids ++ s.told } else s

def Store.noteFate (f : Fate) (sid : String) : Store :=
  if f = .ok then s else { s with doomed := sid :: s.doomed }

end Effects

/-- What an operation of call `i` answers and does. -/
def perform (i : ℕ) (o : Op) (e : Env) (s : Store) : Except Exc o.Ans × Store :=
  match o with
  | .rpush item => reply .redisError e.fate (s.noteFate e.fate item) (s.list.length + 1)
      ((s.rpush item).noteFate e.fate item)
  | .lindex => reply .redisError e.fate s (s.list.head?.map Occ.item) s
  | .lpop _ => reply .redisError e.fate s (s.list.head?.map Occ.item) (s.lpop i)
  | .setLock item owner =>
    reply .redisError e.fate s ((s.lock item).isNone) (if (s.lock item).isNone then
      { s with lock := Function.update s.lock item (some owner) } else s)
  | .getLock item => reply .redisError e.fate s (s.lock item) s
  | .delLock item => reply .redisError e.fate s () { s with lock := Function.update s.lock item none }
  | .evalDedupe hash sid dag =>
    reply .redisError e.fate s (s.dedupe hash sid dag).1
      ((s.dedupe hash sid dag).2.tell e.fate (s.dagHash hash).toList)
  | .getDagHash hash _ => reply .redisError e.fate s (s.dagHash hash)
      (s.tell e.fate (s.dagHash hash).toList)
  | .setDagHash hash sid =>
    reply .redisError e.fate s ((s.dagHash hash).isNone) (if (s.dagHash hash).isNone then
      { s with dagHash := Function.update s.dagHash hash (some sid) } else s)
  | .delDagHash hash =>
    reply .redisError e.fate s () { s with dagHash := Function.update s.dagHash hash none }
  | .hset sid fields => reply .redisError e.fate s () (s.hset sid fields)
  | .hget sid f => reply .redisError e.fate s (s.field sid f) s
  | .hmget sid fs => reply .redisError e.fate s (fs.map (s.field sid)) s
  | .delStrategy sid => reply .redisError e.fate s ()
      { s with field := Function.update s.field sid fun _ => none, state := Function.update s.state sid none }
  | .hsetState sid st _ =>
    reply .redisError e.fate s () { s with state := Function.update s.state sid (some st) }
  | .hgetState sid => reply .redisError e.fate s (s.state sid) s
  | .insertRow sid =>
    match e.fate with
    | .ok => s.insertRow sid
    | .lost => (.error .dbError, s)
    | .torn => (.error .dbError, (s.insertRow sid).2)
  | .setStatus sid st => reply .dbError e.fate s () (s.setStatus sid st)
  | .getStatus sid => reply .dbError e.fate s (s.row sid) s
  | .appendEvent sid entry => reply .dbError e.fate s () { s with log := s.log ++ [(sid, entry)] }
  | .tryAdvisoryLock _ key =>
    reply .dbError e.fate s (s.tryLock i e.conn key).1 (s.tryLock i e.conn key).2
  | .advisoryUnlock _ key =>
    reply .dbError e.fate s (s.unlock i e.conn key).1 (s.unlock i e.conn key).2
  | .consumerStart c =>
    if s.started c then (.ok (), s)
    else reply .kafkaError e.fate s () { s with started := Function.update s.started c true }
  | .partitionsForTopic => (.ok s.partitions, s)
  | .assignment c topic target key => (.ok (s.assigned c), s.seeAssignment i c topic target key)
  | .sleep => (.ok (), s)
  | .publishSubmission sid => reply .commitLogError e.fate (s.noteFate e.fate sid) ()
      { s.noteFate e.fate sid with ingested := s.ingested ++ [sid] }
  | .pendingAdd m key =>
    (.ok (), s.updateManager m fun M => { M with pending := insert key M.pending })
  | .recordReassignment m key owner => (.ok (), s.recordReassignment m key owner)
  | .rememberOwner m key owner => (.ok (), s.updateManager m fun M =>
      { M with lastOwner := Function.update M.lastOwner key (some owner) })
  | .dbOwnedAdd m key =>
    (.ok (), s.updateManager m fun M => { M with dbOwned := insert key M.dbOwned })
  | .dropDbOwned m key noKafka =>
    (.ok (s.dropDbOwned i m key noKafka).1, (s.dropDbOwned i m key noKafka).2)
  | .localAppend sid =>
    if s.degraded then (.ok true, { s with localQueue := s.localQueue ++ [sid] }) else (.ok false, s)
  | .resetFailCount w => (.ok (), { s with failCount := Function.update s.failCount w 0 })
  | .bumpFailCount w =>
    (.ok (s.failCount w + 1), { s with failCount := Function.update s.failCount w (s.failCount w + 1) })
  | .diff call => reply .rpcError e.fate { s with diffs := s.diffs ++ [call] } e.chunk
      { s with diffs := s.diffs ++ [call] }
  | .sendProgress _ _ => reply .hubError e.fate s () s
  | .sendQueueMap _ => reply .hubError e.fate s () s
  | .invokeHandler _ => reply .handlerError e.fate s () s
  | .sendSlack _ => reply .slackError e.fate s () s

def ask (o : Op) : Gw o.Ans := Coro.perform o

/-! ### Which operation touches what -/

def Op.onQueue : Op → Bool
  | .rpush _ | .lpop _ => true
  | _ => false

def Op.onOwnership : Op → Bool
  | .tryAdvisoryLock _ _ | .advisoryUnlock _ _ | .assignment _ _ _ _ | .pendingAdd _ _
  | .recordReassignment _ _ _ | .rememberOwner _ _ _ | .dbOwnedAdd _ _ | .dropDbOwned _ _ _ => true
  | _ => false

def Op.onRecords : Op → Bool
  | .evalDedupe _ _ _ | .setDagHash _ _ | .delDagHash _ | .hset _ _ | .delStrategy _
  | .hsetState _ _ _ | .insertRow _ | .setStatus _ _ | .appendEvent _ _ => true
  | _ => false

def Store.queuePart (s : Store) := (s.list, s.pushed, s.removed)
def Store.ownershipPart (s : Store) := (s.advisory, s.manager, s.grip, s.assigned)
def Store.recordPart (s : Store) := (s.dagHash, s.field, s.state, s.row, s.log)

section Frames

variable {i : ℕ} {o : Op} {e : Env} {s : Store}

lemma perform_queuePart (h : o.onQueue = false) : (perform i o e s).2.queuePart = s.queuePart := by
  obtain ⟨f, c, b⟩ := e
  cases o <;> simp only [Op.onQueue, reduceCtorEq] at h <;> cases f <;>
    simp [perform, reply, Store.queuePart, Store.hset, Store.dedupe, Store.tryLock, Store.unlock,
      Store.seeAssignment, Store.updateManager, Store.recordReassignment, Store.dropDbOwned,
      Store.insertRow, Store.setStatus, Store.tell, Store.noteFate] <;>
    (try split) <;> (try split) <;> (try split) <;> simp_all

lemma perform_ownershipPart (h : o.onOwnership = false) :
    (perform i o e s).2.ownershipPart = s.ownershipPart := by
  obtain ⟨f, c, b⟩ := e
  cases o <;> simp only [Op.onOwnership, reduceCtorEq] at h <;> cases f <;>
    simp [perform, reply, Store.ownershipPart, Store.hset, Store.dedupe, Store.rpush, Store.lpop,
      Store.insertRow, Store.setStatus, Store.tell, Store.noteFate] <;>
    (try split) <;> simp_all

lemma perform_recordPart (h : o.onRecords = false) : (perform i o e s).2.recordPart = s.recordPart := by
  obtain ⟨f, c, b⟩ := e
  cases o <;> simp only [Op.onRecords, reduceCtorEq] at h <;> cases f <;>
    simp [perform, reply, Store.recordPart, Store.rpush, Store.lpop, Store.tryLock, Store.unlock,
      Store.seeAssignment, Store.updateManager, Store.recordReassignment, Store.dropDbOwned,
      Store.tell, Store.noteFate] <;>
    (try split) <;> (try split) <;> (try split) <;> simp_all

end Frames

end Qmtl.Gateway

import Qmtl.Lib.Interleave
import Qmtl.Lib.Log
import Qmtl.WorldService.RiskHubs
import Qmtl.WorldService.SnapshotContract

/-! The `RiskHubControlBusConsumer`: each message of the bus is looked at for an event, which is upserted into the hub and
handed to a callback, or skipped, or sent to the dead-letter topic. -/

namespace Qmtl.WorldService.Risk.Consumer

open Lib

section

structure Setup where
  hub : Settings
  limits : Limits
  maxAttempts : ℕ
  callback : Bool
  cache : Bool
  dedupeTtl : Option ℤ
  dlq : Bool

structure DeadLetter where
  worldId : String
  stage : String
  error : String
  attempts : ℕ
  event : Json

/-- What becomes of a message. -/
inductive Fate where
  | ignored
  | invalid
  | expired
  | duplicate (key : String) (cached : Bool)
  | processed (key : String)
  | dead (key : String)
  | raised

/-- What a consumer awaits, and the clock. A message is what is decoded of it, if it can be; the fate of a message is
no part of its commit, and is kept for the record. -/
inductive Op where
  | receive
  | isoNow
  | now
  | cacheGet (key : String)
  | upsert (s : PortfolioSnapshot)
  | onSnapshot (s : PortfolioSnapshot)
  | cacheMark (key : String) (ttl : Option ℤ)
  | sendDlq (letter : DeadLetter)
  | commit (msg : Option Json) (fate : Fate)

/-- The hub answers with the snapshot as it leaves it. -/
abbrev Op.Ans : Op → Type
  | .receive => Option Json
  | .isoNow => Timestamp
  | .now => ℤ
  | .cacheGet _ => Bool
  | .upsert _ => PortfolioSnapshot
  | .onSnapshot _ => Unit
  | .cacheMark _ _ => Unit
  | .sendDlq _ => Unit
  | .commit _ _ => Unit

abbrev Task := Coro Op Op.Ans Exn

variable (env : Env) (exnText : Exn → String) (cfg : Setup)

/-! ### Events -/

def eventOf : Option Json → Option (Json × Payload)
  | some (.obj fields) =>
    match Payload.get (Dict.ofList fields) "type", Payload.get (Dict.ofList fields) "data" with
    | .str "risk_snapshot_updated", .obj data => some (.obj fields, Dict.ofList data)
    | _, _ => none
  | _ => none

def provenanceField (d : Payload) (key : String) : Json :=
  match d.get "provenance" with
  | .obj fields => Payload.get (Dict.ofList fields) key
  | _ => .null

def extractStage (d : Payload) : String :=
  if truthy env (provenanceField d "stage") then env.toStr (provenanceField d "stage") else "unknown"

def dedupeKey (d : Payload) : String :=
  let hash := if textOf (d.get "hash") = "" then stableSnapshotHash env d else textOf (d.get "hash")
  Lib.join "|" [textOr env (d.get "world_id"), textOr env (d.get "version"), hash,
    textOr env (provenanceField d "actor"), textOr env (provenanceField d "stage")]

def keyOf (s : PortfolioSnapshot) : String := dedupeKey env (s.toDict env)

def readEvent (now : Timestamp) (data : Payload) : Except Exn PortfolioSnapshot := do
  let validated ← normalizeEvent env cfg.limits data
  PortfolioSnapshot.fromPayload env now validated

def consumerExpired (clock : ℤ) (s : PortfolioSnapshot) : Except Exn Bool :=
  let ttl := s.ttlSec.getD 10
  if ttl ≤ 0 then .ok true
  else match parseIso env s.createdAt with
    | none => .ok false
    | some created =>
      if datetimeMax < created + ttl * 1000000 then .error .overflowError
      else .ok (created + ttl * 1000000 < clock)

/-! ### Handling -/

def publishDlq (letter : DeadLetter) : Task Unit :=
  if cfg.dlq then (Coro.perform (Op.sendDlq letter)).tryExcept fun _ => .ret () else .ret ()

def dedupeCached (key : String) : Task Bool :=
  if cfg.cache then (Coro.perform (Op.cacheGet key)).tryExcept fun _ => .ret false else .ret false

def markDedupe (key : String) (ttl : Option ℤ) : Task Unit :=
  if cfg.cache then (Coro.perform (Op.cacheMark key (ttl.or cfg.dedupeTtl))).tryExcept fun _ => .ret () else .ret ()

def dequeLength : ℕ := 1000

def remember (keys : List String) (key : String) : List String := lastOf dequeLength (keys ++ [key])

def tryOnce (s : PortfolioSnapshot) : Task (Option Exn × PortfolioSnapshot) := do
  let upserted ← (Coro.perform (Op.upsert s)).attempt
  match upserted with
  | .error e => return (some e, s)
  | .ok own =>
    if cfg.callback then do
      let called ← (Coro.perform (Op.onSnapshot own)).attempt
      match called with
      | .error e => return (some e, own)
      | .ok _ => return (none, own)
    else return (none, own)

def attempts (event : Json) (stage key : String) (keys : List String) : ℕ → PortfolioSnapshot → Task (List String × Fate)
  | 0, s => do
    let r ← tryOnce cfg s
    match r.1 with
    | none => do
      markDedupe cfg key r.2.ttlSec
      return (remember keys key, .processed key)
    | some e => do
      publishDlq cfg ⟨r.2.worldId, stage, exnText e, max 1 cfg.maxAttempts, event⟩
      return (keys, .dead key)
  | n + 1, s => do
    let r ← tryOnce cfg s
    match r.1 with
    | none => do
      markDedupe cfg key r.2.ttlSec
      return (remember keys key, .processed key)
    | some _ => attempts event stage key keys n r.2

def worldLabel (data : Payload) : String :=
  if textOr env (data.get "world_id") = "" then "unknown" else textOr env (data.get "world_id")

def stageLabel (data : Payload) (s : PortfolioSnapshot) : String :=
  let stage := Payload.get (Dict.ofList s.provenance) "stage"
  if truthy env stage then env.toStr stage else extractStage env data

def handleMessage (keys : List String) (msg : Option Json) : Task (List String × Fate) :=
  match eventOf msg with
  | none => return (keys, .ignored)
  | some (event, data) => do
    let now ← Coro.perform Op.isoNow
    match readEvent env cfg now data with
    | .error e => do
      publishDlq cfg ⟨worldLabel env data, extractStage env data, "invalid snapshot payload: " ++ exnText e, 1, event⟩
      return (keys, .invalid)
    | .ok s => do
      let clock ← Coro.perform Op.now
      let old ← Coro.ofExcept (consumerExpired env clock s)
      if old then return (keys, .expired)
      else if keyOf env s ∈ keys then return (keys, .duplicate (keyOf env s) false)
      else do
        let cached ← dedupeCached cfg (keyOf env s)
        if cached then return (remember keys (keyOf env s), .duplicate (keyOf env s) true)
        else attempts exnText cfg event (stageLabel env data s) (keyOf env s) keys (cfg.maxAttempts - 1) s

def run : ℕ → List String → Task Unit
  | 0, _ => return ()
  | n + 1, keys => do
    let msg ← Coro.perform Op.receive
    let r ← (handleMessage env exnText cfg keys msg).attempt
    match r with
    | .ok (keys, fate) => do
      let _ ← Coro.perform (Op.commit msg fate)
      run n keys
    | .error e => do
      let _ ← Coro.perform (Op.commit msg .raised)
      .raise e

end

variable (env : Env) (exnText : Exn → String) (cfg : Setup)

/-! ### Consumers -/

structure Mark where
  clock : ℤ
  ttl : Option ℤ

def Mark.standing (m : Mark) (clock : ℤ) : Bool :=
  match m.ttl with
  | none => true
  | some ttl => ttl ≤ 0 || clock < m.clock + ttl * 1000000

/-- What a consumer has done with a message, and with which outcome. -/
inductive Act where
  | read (now : Timestamp)
  | time (clock : ℤ)
  | looked (key : String) (clock : ℤ) (hit : Bool)
  | upsert (key : String) (done : Bool)
  | call (key : String) (done : Bool)
  | mark (key : String) (m : Mark)
  | letter (letter : DeadLetter) (sent : Bool)

inductive Entry where
  | received (consumer : ℕ) (msg : Option Json)
  | did (consumer : ℕ) (act : Act)
  | committed (consumer : ℕ) (msg : Option Json) (fate : Fate)

structure Sys where
  cache : Dict String Mark
  hubs : ℕ → Hub
  log : List Entry

/-- What a step is given: a message, the time, and what is raised, if anything. -/
structure Choice where
  msg : Option Json
  clock : ℤ
  iso : Timestamp
  fault : Option Exn

def Sys.logged (s : Sys) (e : Entry) : Sys := { s with log := s.log ++ [e] }

def perform (i : ℕ) : (o : Op) → Choice → Sys → Except Exn o.Ans × Sys
  | .receive, e, s => (.ok e.msg, s.logged (.received i e.msg))
  | .isoNow, e, s => (.ok e.iso, s.logged (.did i (.read e.iso)))
  | .now, e, s => (.ok e.clock, s.logged (.did i (.time e.clock)))
  | .cacheGet key, e, s =>
    match e.fault with
    | some x => (.error x, s)
    | none =>
      let hit := (s.cache.get? key).any fun m => m.standing e.clock
      (.ok hit, s.logged (.did i (.looked key e.clock hit)))
  | .upsert p, e, s =>
    match e.fault with
    | some x => (.error x, s.logged (.did i (.upsert (keyOf env p) false)))
    | none =>
      match upsertSnapshot env cfg.hub e.clock e.iso (s.hubs i) p with
      | .error x => (.error x, s.logged (.did i (.upsert (keyOf env p) false)))
      | .ok (_, prepared, hub) =>
        (.ok prepared.own,
          { s with hubs := Function.update s.hubs i hub }.logged (.did i (.upsert (keyOf env p) true)))
  | .onSnapshot p, e, s =>
    match e.fault with
    | some x => (.error x, s.logged (.did i (.call (keyOf env p) false)))
    | none => (.ok (), s.logged (.did i (.call (keyOf env p) true)))
  | .cacheMark key ttl, e, s =>
    match e.fault with
    | some x => (.error x, s)
    | none => (.ok (), { s with cache := s.cache.set key ⟨e.clock, ttl⟩ }.logged (.did i (.mark key ⟨e.clock, ttl⟩)))
  | .sendDlq letter, e, s =>
    match e.fault with
    | some x => (.error x, s.logged (.did i (.letter letter false)))
    | none => (.ok (), s.logged (.did i (.letter letter true)))
  | .commit msg fate, _, s => (.ok (), s.logged (.committed i msg fate))

/-- What happens from outside: a hub changes in any way, and a mark is evicted. -/
inductive Disturbance where
  | hub (i : ℕ) (hub : Hub)
  | evict (key : String)

abbrev Consumers := Config Op Op.Ans Exn Unit Sys ℕ
abbrev Event := Lib.Event Choice Disturbance ℕ

/-- A consumer is started with the number of messages it handles. -/
def system : System Op Op.Ans Exn Unit Sys Choice Disturbance ℕ where
  code n := run env exnText cfg n []
  perform := perform env cfg
  disturb
    | .hub i hub, s => { s with hubs := Function.update s.hubs i hub }
    | .evict key, s => { s with cache := s.cache.erase key }
  may _ _ := true

def start (hubs : ℕ → Hub) : Consumers := ⟨⟨Dict.empty, hubs, []⟩, []⟩

/-! ### What is asked -/

/-- The message a consumer is at, and what it has done with it. -/
structure Current where
  msg : Option (Option Json)
  acts : List Act

def Current.step (i : ℕ) (cur : Current) : Entry → Current
  | .received j msg => if j = i then ⟨some msg, []⟩ else cur
  | .did j act => if j = i then ⟨cur.msg, cur.acts ++ [act]⟩ else cur
  | .committed _ _ _ => cur

def current (i : ℕ) (log : List Entry) : Current := log.foldl (Current.step i) ⟨none, []⟩

def Entry.remembered (i : ℕ) : Entry → Option String
  | .committed j _ (.processed key) => if j = i then some key else none
  | .committed j _ (.duplicate key true) => if j = i then some key else none
  | _ => none

def inMemory (i : ℕ) (log : List Entry) : List String := lastOf dequeLength (log.filterMap (Entry.remembered i))

def Entry.receivedBy (i : ℕ) : Entry → Option (Option Json)
  | .received j msg => if j = i then some msg else none
  | _ => none

def Entry.committedBy (i : ℕ) : Entry → Option (Option Json)
  | .committed j msg _ => if j = i then some msg else none
  | _ => none

def finish (key : String) : List Act := .upsert key true :: if cfg.callback then [.call key true] else []

def Completed (log : List Entry) (key : String) : Prop :=
  ∃ j pre, pre <+: log ∧ finish cfg key <:+ (current j pre).acts

def Marked (log : List Entry) (key : String) (m : Mark) : Prop :=
  ∃ j pre, pre ++ [.did j (.mark key m)] <+: log ∧ finish cfg key <:+ (current j pre).acts

def Known (log : List Entry) (i : ℕ) (key : String) (cached : Bool) : Prop :=
  Completed cfg log key ∧
    if cached then ∃ m clock, Marked cfg log key m ∧ m.standing clock ∧ .looked key clock true ∈ (current i log).acts
    else key ∈ inMemory i log

def Act.isFailure : Act → Bool
  | .upsert _ false => true
  | .call _ false => true
  | _ => false

def LetterFor (event : Json) (attempts : ℕ) (acts : List Act) : Prop :=
  cfg.dlq = true → ∃ letter sent, .letter letter sent ∈ acts ∧ letter.event = event ∧ letter.attempts = attempts

def Handled (log : List Entry) (i : ℕ) (event : Json) (key : String) : Fate → Prop
  | .duplicate key' cached => key' = key ∧ Known cfg log i key cached
  | .processed key' => key' = key ∧ finish cfg key <:+: (current i log).acts
  | .dead key' => key' = key ∧ (current i log).acts.countP Act.isFailure = max 1 cfg.maxAttempts ∧
      LetterFor cfg event (max 1 cfg.maxAttempts) (current i log).acts
  | _ => False

def Accounted (log : List Entry) (i : ℕ) (msg : Option Json) (fate : Fate) : Prop :=
  match eventOf msg with
  | none => fate = .ignored
  | some (event, data) => ∃ now, (current i log).acts.head? = some (.read now) ∧
    match readEvent env cfg now data with
    | .error _ => fate = .invalid ∧ LetterFor cfg event 1 (current i log).acts
    | .ok s => ∃ clock, (current i log).acts[1]? = some (.time clock) ∧
      match consumerExpired env clock s with
      | .error _ => True
      | .ok true => fate = .expired
      | .ok false => Handled cfg log i event (keyOf env s) fate

/-- **No event is dropped**: a message is a duplicate only of a known key, and all are accounted for as they are committed. -/
structure NotDropped (log : List Entry) : Prop where
  duplicates : ∀ before i msg key cached after,
    log = before ++ .committed i msg (.duplicate key cached) :: after → Known cfg before i key cached
  accounted : ∀ before i msg fate after, log = before ++ .committed i msg fate :: after →
    (current i before).msg = some msg ∧ Accounted env cfg before i msg fate
  inOrder : ∀ i, ∃ rest, rest.length ≤ 1 ∧
    log.filterMap (Entry.receivedBy i) = log.filterMap (Entry.committedBy i) ++ rest

lemma dedupeKey_congr {d d' : Payload} (hh : textOf (d.get "hash") ≠ "")
    (h : ∀ key ∈ ["world_id", "version", "hash", "provenance"], d'.get key = d.get key) :
    dedupeKey env d' = dedupeKey env d := by
  have hw := h "world_id" (by decide)
  have hv := h "version" (by decide)
  have hs := h "hash" (by decide)
  have hp := h "provenance" (by decide)
  unfold dedupeKey provenanceField
  rw [hw, hv, hs, hp, if_neg hh, if_neg hh]

variable {e : Entry} {i : ℕ} {log : List Entry} {s : PortfolioSnapshot}

lemma keyOf_congr {t : PortfolioSnapshot} (hh : s.hash ≠ "")
    (hid : t.worldId = s.worldId ∧ t.version = s.version) (hs : t.hash = s.hash)
    (hp : t.provenance = s.provenance) : keyOf env t = keyOf env s := by
  have hget : ∀ (u : PortfolioSnapshot) key, Payload.get (u.toDict env) key = (u.fieldAt env key).getD .null := by
    intro u key
    unfold Payload.get
    rw [get?_toDict]
  refine dedupeKey_congr env ?_ ?_
  · rw [hget]
    simp [PortfolioSnapshot.fieldAt, hh, textOf]
  · intro key hkey
    rw [hget, hget]
    simp only [List.mem_cons, List.not_mem_nil, or_false] at hkey
    rcases hkey with rfl | rfl | rfl | rfl <;> simp [PortfolioSnapshot.fieldAt, hid, hs, hp]

lemma hash_of_readEvent {now : Timestamp} {data : Payload} (h : readEvent env cfg now data = .ok s) :
    s.hash ≠ "" := by
  obtain ⟨validated, hn, hs⟩ := bind_ok.mp h
  rw [(fromPayload_ok env hs).hash, get_eq_of_get? (normalize_ok env hn).hash]
  exact env.digest_ne _

lemma keyOf_upsert {clock : ℤ} {now : Timestamp} {h h' : Hub} {deduped : Bool} {p : Prepared} (hh : s.hash ≠ "")
    (hu : upsertSnapshot env cfg.hub clock now h s = .ok (deduped, p, h')) :
    p.own.hash ≠ "" ∧ keyOf env p.own = keyOf env s := by
  obtain ⟨hp, -⟩ := upsertSnapshot_ok env cfg.hub hu
  obtain ⟨v, hv, -, -, hpre⟩ := prepare_ok env cfg.hub now hp
  obtain ⟨-, hid, hpr⟩ := validateSnapshot_ok env hv
  rw [(hpre.hashed hh).2]
  have hs : v.hash = s.hash := congrArg Ident.hash hid
  have hw : v.worldId = s.worldId := congrArg Ident.worldId hid
  have hvr : v.version = s.version := congrArg Ident.version hid
  refine ⟨?_, keyOf_congr env hh ⟨hw, hvr⟩ hs hpr⟩
  rwa [hs]

/-! ### Logs -/

@[simp] lemma current_append (i : ℕ) (log : List Entry) (e : Entry) :
    current i (log ++ [e]) = (current i log).step i e := by
  simp [current]

def Entry.consumer : Entry → ℕ
  | .received i _ => i
  | .did i _ => i
  | .committed i _ _ => i

lemma current_others {new : List Entry} (h : ∀ e ∈ new, e.consumer ≠ i) :
    current i (log ++ new) = current i log := by
  induction new using List.reverseRecOn with
  | nil => rw [List.append_nil]
  | append_singleton new e ih =>
    rw [← List.append_assoc, current_append, ih fun e' he' => h e' (List.mem_append_left _ he')]
    have hne : e.consumer ≠ i := h e (List.mem_append_right _ List.mem_cons_self)
    cases e with
    | committed j msg fate => rfl
    | _ => exact if_neg hne

lemma filterMap_others {α : Type} {f : Entry → Option α} (hf : ∀ e, e.consumer ≠ i → f e = none) (log : List Entry)
    {new : List Entry} (h : ∀ e ∈ new, e.consumer ≠ i) : (log ++ new).filterMap f = log.filterMap f := by
  rw [List.filterMap_append, List.filterMap_eq_nil_iff.mpr fun e he => hf e (h e he), List.append_nil]

lemma remembered_others (h : e.consumer ≠ i) : e.remembered i = none := by
  cases e with
  | committed j msg fate =>
    cases fate with
    | processed key => exact if_neg h
    | duplicate key cached =>
      cases cached with
      | true => exact if_neg h
      | false => rfl
    | _ => rfl
  | _ => rfl

lemma receivedBy_others (h : e.consumer ≠ i) : e.receivedBy i = none := by
  cases e with
  | received j msg => exact if_neg h
  | _ => rfl

lemma committedBy_others (h : e.consumer ≠ i) : e.committedBy i = none := by
  cases e with
  | committed j msg fate => exact if_neg h
  | _ => rfl

lemma lastOf_append {α : Type} (n : ℕ) (hn : n ≠ 0) (l : List α) (a : α) :
    lastOf n (lastOf n l ++ [a]) = lastOf n (l ++ [a]) := by
  unfold lastOf
  rw [if_neg hn, if_neg hn, if_neg hn]
  simp only [List.length_append, List.length_drop, List.length_singleton]
  rw [List.drop_append, List.drop_append, List.drop_drop, List.length_drop]
  congr 2 <;> omega

variable {key : String}

lemma inMemory_append (h : e.remembered i = some key) :
    inMemory i (log ++ [e]) = remember (inMemory i log) key := by
  unfold inMemory remember
  rw [lastOf_append _ (by decide), List.filterMap_append]
  simp [h]

lemma filterMap_append_none {α : Type} {f : Entry → Option α} (h : f e = none) :
    (log ++ [e]).filterMap f = log.filterMap f := by
  simp [h]

lemma inMemory_append_none (h : e.remembered i = none) : inMemory i (log ++ [e]) = inMemory i log := by
  unfold inMemory
  rw [filterMap_append_none h]

variable {env} {cfg}

lemma Completed.mono {log' : List Entry} (h : Completed cfg log key) (hle : log <+: log') :
    Completed cfg log' key := by
  obtain ⟨j, pre, hpre, hd⟩ := h
  exact ⟨j, pre, hpre.trans hle, hd⟩

lemma Marked.mono {log' : List Entry} {m : Mark} (h : Marked cfg log key m) (hle : log <+: log') :
    Marked cfg log' key m := by
  obtain ⟨j, pre, hpre, hd⟩ := h
  exact ⟨j, pre, hpre.trans hle, hd⟩

lemma Marked.completed {m : Mark} (h : Marked cfg log key m) : Completed cfg log key := by
  obtain ⟨j, pre, hpre, hd⟩ := h
  exact ⟨j, pre, (List.prefix_append _ _).trans hpre, hd⟩

/-! ### The invariant -/

variable (env) (cfg)

/-- What is asked of a message as it is committed. -/
structure Outcome (log : List Entry) (i : ℕ) (msg : Option Json) (fate : Fate) : Prop where
  duplicate : ∀ key cached, fate = .duplicate key cached → Known cfg log i key cached
  accounted : Accounted env cfg log i msg fate
  completed : ∀ key, (Entry.committed i msg fate).remembered i = some key → Completed cfg log key

/-- What holds of the store at all times. -/
structure Sound (s : Sys) : Prop where
  marks : ∀ key m, s.cache.get? key = some m → Marked cfg s.log key m
  kept : ∀ i, ∀ key ∈ inMemory i s.log, Completed cfg s.log key
  events : NotDropped env cfg s.log

/-- Consumer `i` is at a message. -/
structure Point (i : ℕ) (msg : Option Json) (acts : List Act) (keys : List String) (s : Sys) : Prop where
  cur : current i s.log = ⟨some msg, acts⟩
  keys : inMemory i s.log = keys
  order : s.log.filterMap (Entry.receivedBy i) = s.log.filterMap (Entry.committedBy i) ++ [msg]

/-- Consumer `i` is between two messages. -/
structure Between (i : ℕ) (keys : List String) (s : Sys) : Prop where
  keys : inMemory i s.log = keys
  order : s.log.filterMap (Entry.receivedBy i) = s.log.filterMap (Entry.committedBy i)

def Rely (i : ℕ) (s t : Sys) : Prop := ∃ new, t.log = s.log ++ new ∧ ∀ e ∈ new, e.consumer ≠ i

variable {env} {cfg} {i : ℕ} {msg : Option Json} {acts : List Act} {keys : List String} {s t : Sys}

lemma Rely.le (h : Rely i s t) : s.log <+: t.log := by
  obtain ⟨new, hlog, _⟩ := h
  exact ⟨new, hlog.symm⟩

lemma Rely.current (h : Rely i s t) : Consumer.current i t.log = Consumer.current i s.log := by
  obtain ⟨new, hlog, hnew⟩ := h
  rw [hlog, current_others hnew]

lemma Rely.inMemory (h : Rely i s t) : Consumer.inMemory i t.log = Consumer.inMemory i s.log := by
  obtain ⟨new, hlog, hnew⟩ := h
  unfold Consumer.inMemory
  rw [hlog, filterMap_others (fun _ => remembered_others) _ hnew]

lemma Rely.order (h : Rely i s t) : t.log.filterMap (Entry.receivedBy i) = s.log.filterMap (Entry.receivedBy i) ∧
      t.log.filterMap (Entry.committedBy i) = s.log.filterMap (Entry.committedBy i) := by
  obtain ⟨new, hlog, hnew⟩ := h
  rw [hlog]
  exact ⟨filterMap_others (fun _ => receivedBy_others) _ hnew, filterMap_others (fun _ => committedBy_others) _ hnew⟩

lemma Point.rely (h : Point i msg acts keys s) (hr : Rely i s t) : Point i msg acts keys t := by
  refine ⟨hr.current.trans h.cur, hr.inMemory.trans h.keys, ?_⟩
  rw [hr.order.1, hr.order.2]
  exact h.order

lemma Between.rely (h : Between i keys s) (hr : Rely i s t) : Between i keys t := by
  refine ⟨hr.inMemory.trans h.keys, ?_⟩
  rw [hr.order.1, hr.order.2]
  exact h.order

lemma Known.rely {cached : Bool} (h : Known cfg s.log i key cached) (hr : Rely i s t) :
    Known cfg t.log i key cached := by
  obtain ⟨hc, hw⟩ := h
  refine ⟨hc.mono hr.le, ?_⟩
  cases cached with
  | true =>
    obtain ⟨m, clock, hm, hs, hl⟩ := hw
    refine ⟨m, clock, hm.mono hr.le, hs, ?_⟩
    rw [hr.current]
    exact hl
  | false =>
    rw [hr.inMemory]
    exact hw

lemma Handled.rely {event : Json} {fate : Fate} (h : Handled cfg s.log i event key fate)
    (hr : Rely i s t) : Handled cfg t.log i event key fate := by
  cases fate with
  | duplicate key' cached => exact ⟨h.1, h.2.rely hr⟩
  | processed key' =>
    unfold Handled
    rw [hr.current]
    exact h
  | dead key' =>
    unfold Handled
    rw [hr.current]
    exact h
  | _ => exact h

lemma Outcome.rely {fate : Fate} (h : Outcome env cfg s.log i msg fate) (hr : Rely i s t) :
    Outcome env cfg t.log i msg fate := by
  refine ⟨fun key cached hf => (h.duplicate key cached hf).rely hr, ?_, fun key hk => (h.completed key hk).mono hr.le⟩
  have hac := h.accounted
  unfold Accounted at hac ⊢
  rw [hr.current]
  cases hev : eventOf msg with
  | none =>
    rw [hev] at hac
    exact hac
  | some p =>
    obtain ⟨event, data⟩ := p
    rw [hev] at hac
    obtain ⟨now, hnow, hrd⟩ := hac
    refine ⟨now, hnow, ?_⟩
    cases hs : readEvent env cfg now data with
    | error e =>
      rw [hs] at hrd
      exact hrd
    | ok snapshot =>
      rw [hs] at hrd
      obtain ⟨clock, hc, hold⟩ := hrd
      refine ⟨clock, hc, ?_⟩
      cases hex : consumerExpired env clock snapshot with
      | error e => trivial
      | ok old =>
        rw [hex] at hold
        cases old with
        | true => exact hold
        | false => exact hold.rely hr

lemma mem_remember {key k : String} (h : k ∈ remember keys key) : k ∈ keys ∨ k = key := by
  unfold remember lastOf at h
  rw [if_neg (by decide)] at h
  simpa using List.mem_of_mem_drop h

lemma Sound.logged (h : Sound env cfg s) {cache : Dict String Mark} {hubs : ℕ → Hub}
    (hm : ∀ key m, cache.get? key = some m → s.cache.get? key = some m ∨ Marked cfg (s.log ++ [e]) key m)
    (hc : ∀ j msg fate, e = .committed j msg fate →
      (current j s.log).msg = some msg ∧ Outcome env cfg s.log j msg fate) (hor : ∀ j, ∃ rest, rest.length ≤ 1 ∧
      (s.log ++ [e]).filterMap (Entry.receivedBy j) = (s.log ++ [e]).filterMap (Entry.committedBy j) ++ rest) :
    Sound env cfg ⟨cache, hubs, s.log ++ [e]⟩ := by
  have hle : s.log <+: s.log ++ [e] := List.prefix_append _ _
  constructor
  case marks =>
    intro key m hget
    rcases hm key m hget with hold | hnew
    · exact (h.marks key m hold).mono hle
    · exact hnew
  case kept =>
    intro j key hkey
    cases he : e.remembered j with
    | none => exact (h.kept j key (inMemory_append_none he ▸ hkey)).mono hle
    | some k =>
      rw [inMemory_append he] at hkey
      rcases mem_remember hkey with hkey | rfl
      · exact (h.kept j key hkey).mono hle
      · cases e with
        | committed j' msg fate =>
          have hj : j' = j := by
            by_contra hne
            rw [remembered_others (e := Entry.committed j' msg fate) hne] at he
            cases he
          subst hj
          exact ((hc j' msg fate rfl).2.completed key he).mono hle
        | _ => cases he
  case events =>
    refine ⟨?_, ?_, hor⟩
    · intro before j msg key cached after hlog
      rcases split_concat hlog with ⟨rest, hold⟩ | ⟨hb, he⟩
      · exact h.events.duplicates before j msg key cached rest hold
      · rw [hb]
        exact (hc j msg _ he.symm).2.duplicate key cached rfl
    · intro before j msg fate after hlog
      rcases split_concat hlog with ⟨rest, hold⟩ | ⟨hb, he⟩
      · exact h.events.accounted before j msg fate rest hold
      · rw [hb]
        exact ⟨(hc j msg fate he.symm).1, (hc j msg fate he.symm).2.accounted⟩

lemma Sound.did (h : Sound env cfg s) (hp : Point i msg acts keys s) (act : Act) (cache : Dict String Mark)
    (hubs : ℕ → Hub) (hm : ∀ key m, cache.get? key = some m → s.cache.get? key = some m ∨
      act = .mark key m ∧ finish cfg key <:+ acts) :
    Sound env cfg ⟨cache, hubs, s.log ++ [.did i act]⟩ ∧ Point i msg (acts ++ [act]) keys ⟨cache, hubs, s.log ++ [.did i act]⟩ := by
  refine ⟨h.logged ?_ (fun _ _ _ he => absurd he (by simp)) ?_, ?_, ?_, ?_⟩
  · intro key m hget
    rcases hm key m hget with hold | ⟨rfl, hd⟩
    · exact .inl hold
    · refine .inr ⟨i, s.log, List.prefix_rfl, ?_⟩
      rw [hp.cur]
      exact hd
  · intro j
    rw [filterMap_append_none rfl, filterMap_append_none rfl]
    exact h.events.inOrder j
  · rw [current_append, hp.cur]
    exact if_pos rfl
  · exact (inMemory_append_none rfl).trans hp.keys
  · rw [filterMap_append_none rfl, filterMap_append_none rfl]
    exact hp.order

end Qmtl.WorldService.Risk.Consumer

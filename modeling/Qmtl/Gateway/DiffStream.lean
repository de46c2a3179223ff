import Qmtl.DagManager.DiffService
import Qmtl.Lib.Run

/-! The stream of a diff: `_ChunkStreamer` on the server cuts the plan into chunks and waits for
acknowledgements, `_GrpcStream` queues the chunks and counts the acknowledgements, and
`DiffStreamClient.collect` puts the chunks together again and acknowledges each. -/

namespace Qmtl.Gateway.DiffStream

open Lib DagManager DagManager.DiffService

/-! ### Chunks -/

structure Chunk where
  index : ℕ
  queueMap : Dict String String
  sentinelId : String
  version : String
  crc32 : ℕ
  newNodes : List NodeInfo
  bufferingNodes : List BufferInstruction

def chunkSize : ℕ := 100
def ackWindow : ℕ := 10
def maxRetry : ℕ := 3

def slice {α : Type} (nodes : List α) (i : ℕ) : List α := (nodes.drop (i * chunkSize)).take chunkSize

def chunksOf (p : DiffPlan) : List Chunk :=
  let total := max p.newNodes.length p.bufferingNodes.length
  if total = 0 then [⟨0, p.queueMap, p.sentinelId, p.version, p.crc32, [], []⟩]
  else (List.range ((total + (chunkSize - 1)) / chunkSize)).map fun i =>
    ⟨i, p.queueMap, p.sentinelId, p.version, p.crc32, slice p.newNodes i, slice p.bufferingNodes i⟩

structure BufferMessage where
  nodeId : String
  nodeType : String
  codeHash : String
  schemaHash : String
  schemaCompatId : String
  interval : ℤ
  period : ℤ
  tags : List String
  lag : ℤ
  deriving DecidableEq

def toProto (b : BufferInstruction) : BufferMessage :=
  ⟨b.node.nodeId, b.node.nodeType, b.node.codeHash, b.node.schemaHash, b.node.schemaCompatId,
    b.node.interval.getD 0, b.node.period.getD 0, b.node.tags, b.lag⟩

structure Collected where
  queueMap : Dict String String := .empty
  sentinelId : String := ""
  version : String := ""
  bufferNodes : List BufferMessage := []
  crc32 : Option ℕ := none

namespace Collected

variable (acc : Collected) (c : Chunk)

def add : Collected where
  queueMap := acc.queueMap.update c.queueMap.entries
  sentinelId := c.sentinelId
  version := if c.version ≠ "" then c.version else acc.version
  bufferNodes := acc.bufferNodes ++ c.bufferingNodes.map toProto
  crc32 := acc.crc32.or (some c.crc32)

def crcOk : Bool := acc.crc32.all (· = c.crc32)

end Collected

/-! ### One call -/

/-- How a routine ended. -/
inductive Outcome where
  | returned | raised
  deriving DecidableEq, Repr

structure Session where
  plan : DiffPlan
  -- the streamer
  toSend : List Chunk
  outstanding : ℕ
  waiting : Bool
  attempts : ℕ
  ended : Option Outcome
  -- the stream, with the end of it as `none`
  queue : List (Option Chunk)
  pending : List Chunk
  pendingAck : ℕ
  finalized : Bool
  -- the collector, the chunk it is acknowledging, and the ones it has
  collected : Collected
  acking : Option ℕ
  failing : Bool
  acked : List ℕ
  closed : Option Outcome

namespace Session

def start (plan : DiffPlan) : Session where
  plan := plan
  toSend := chunksOf plan
  outstanding := 0
  waiting := false
  attempts := 0
  ended := none
  queue := []
  pending := []
  pendingAck := 0
  finalized := false
  collected := {}
  acking := none
  failing := false
  acked := []
  closed := none

variable (x : Session)

def send : Option Session :=
  match x.toSend with
  | c :: rest =>
    if x.ended = none ∧ x.waiting = false then some { x with
      toSend := rest
      outstanding := x.outstanding + 1
      waiting := x.outstanding + 1 ≥ ackWindow
      pending := x.pending ++ [c]
      queue := x.queue ++ [some c] }
    else none
  | [] => none

def awaiting : Bool := x.ended = none && (x.waiting || (x.toSend.isEmpty && x.outstanding ≠ 0))

def acknowledged : Option Session :=
  if x.awaiting ∧ 0 < x.pendingAck then some { x with
    pendingAck := x.pendingAck - 1
    outstanding := x.outstanding - 1
    waiting := false
    attempts := 0 }
  else none

def timeout (late : Bool) : Option Session :=
  if x.awaiting then
    let resumed := x.queue ++ x.pending.map some
    if x.attempts + 1 < maxRetry then some { x with queue := resumed, attempts := x.attempts + 1 }
    else if late then some { x with queue := resumed ++ [none], ended := some .raised }
    else some { x with queue := resumed, attempts := 0 }
  else none

def finish : Option Session :=
  if x.ended = none ∧ x.waiting = false ∧ x.toSend = [] ∧ x.outstanding = 0 then
    some { x with ended := some .returned, queue := x.queue ++ [none] }
  else none

def finalize : Option Session :=
  if x.ended ≠ none ∧ x.finalized = false then some { x with finalized := true } else none

def deliver : Option Session :=
  if x.closed = none ∧ x.acking = none then
    match x.queue with
    | some c :: rest => some { x with
        queue := rest
        collected := x.collected.add c
        failing := !x.collected.crcOk c
        acking := some c.index }
    | none :: rest => if x.finalized then some { x with queue := rest, closed := x.ended } else none
    | [] => none
  else none

def ack : Session := { x with pending := x.pending.tail, pendingAck := x.pendingAck + 1 }

def resume (index : ℕ) : Session :=
  { x with
    acking := none
    acked := x.acked ++ [index]
    closed := if x.failing then some .raised else x.closed }

end Session

/-! ### The system -/

/-- All calls so far, and the streams that the servicer has registered by sentinel id. -/
structure State where
  streams : String → Option ℕ
  diffs : ℕ → Option Session

def State.init : State := ⟨fun _ => none, fun _ => none⟩

inductive Event where
  | start (d : ℕ) (plan : DiffPlan)
  | send (d : ℕ)
  | acknowledged (d : ℕ)
  | timeout (d : ℕ) (late : Bool)
  | finish (d : ℕ)
  | finalize (d : ℕ)
  | deliver (d : ℕ)
  | ack (d : ℕ)

def State.modify (s : State) (d : ℕ) (f : Session → Option Session) : Option State :=
  (s.diffs d).bind fun x => (f x).map fun x' => { s with diffs := Function.update s.diffs d (some x') }

def State.ackChunk (s : State) (sentinelId : String) : State :=
  match s.streams sentinelId with
  | some d => { s with diffs := Function.update s.diffs d ((s.diffs d).map (·.ack)) }
  | none => s

def step (s : State) : Event → Option State
  | .start d plan =>
    if (s.diffs d).isSome then none
    else some ⟨Function.update s.streams plan.sentinelId (some d),
      Function.update s.diffs d (some (.start plan))⟩
  | .send d => s.modify d Session.send
  | .acknowledged d => s.modify d Session.acknowledged
  | .timeout d late => s.modify d (·.timeout late)
  | .finish d => s.modify d Session.finish
  | .finalize d => (s.diffs d).bind fun x => x.finalize.map fun x' =>
      ⟨Function.update s.streams x.plan.sentinelId none, Function.update s.diffs d (some x')⟩
  | .deliver d => s.modify d Session.deliver
  | .ack d => (s.diffs d).bind fun x => x.acking.map fun index =>
      let s' := s.ackChunk x.plan.sentinelId
      { s' with diffs := Function.update s'.diffs d ((s'.diffs d).map (·.resume index)) }

def Session.unacknowledged (x : Session) : List Chunk :=
  ((chunksOf x.plan).take ((chunksOf x.plan).length - x.toSend.length)).filter fun c => c.index ∉ x.acked

def Acknowledged (s : State) : Prop :=
  ∀ d x, s.diffs d = some x →
    (x.ended = some .returned → ∀ c ∈ chunksOf x.plan, c.index ∈ x.acked) ∧
    (x.send.isSome → x.unacknowledged.length ≤ ackWindow)

def Complete (s : State) : Prop :=
  ∀ d x, s.diffs d = some x → x.closed = some .returned →
    x.collected.queueMap = x.plan.queueMap ∧ x.collected.bufferNodes = x.plan.bufferingNodes.map toProto

/-- No wait times out while a chunk is pending, and no call starts while a stream is registered under its
sentinel id. -/
def Steady (s : State) : Event → Prop
  | .start _ plan => s.streams plan.sentinelId = none
  | .timeout d _ => ∀ x, s.diffs d = some x → x.pending = []
  | _ => True

/-! ### Chunks put together -/

lemma flatMap_slice {α : Type} (nodes : List α) (k : ℕ) :
    (List.range k).flatMap (slice nodes) = nodes.take (k * chunkSize) := by
  induction k with
  | zero => simp
  | succ k ih =>
    rw [List.range_succ, List.flatMap_append, ih, List.flatMap_singleton, slice, Nat.succ_mul, List.take_add]

lemma flatMap_chunksOf (p : DiffPlan) : (chunksOf p).flatMap (·.bufferingNodes) = p.bufferingNodes := by
  unfold chunksOf
  dsimp only
  split
  · have hlen : p.bufferingNodes.length = 0 := by omega
    rw [List.eq_nil_of_length_eq_zero hlen]
    rfl
  · rw [List.flatMap_map]
    rw [flatMap_slice, List.take_of_length_le]
    have hdiv := Nat.div_add_mod (max p.newNodes.length p.bufferingNodes.length + (chunkSize - 1)) chunkSize
    have hmod := Nat.mod_lt (max p.newNodes.length p.bufferingNodes.length + (chunkSize - 1))
      (by decide : chunkSize > 0)
    simp only [chunkSize] at hdiv hmod ⊢
    omega

lemma chunksOf_ne_nil (p : DiffPlan) : chunksOf p ≠ [] := by
  unfold chunksOf
  dsimp only
  split
  · simp
  · rw [ne_eq, List.map_eq_nil_iff, List.range_eq_nil]
    simp only [chunkSize]
    omega

lemma of_mem_chunksOf {p : DiffPlan} {c : Chunk} (h : c ∈ chunksOf p) :
    c.queueMap = p.queueMap ∧ c.crc32 = p.crc32 := by
  unfold chunksOf at h
  dsimp only at h
  split at h
  · rw [List.mem_singleton] at h
    subst h
    exact ⟨rfl, rfl⟩
  · obtain ⟨i, -, rfl⟩ := List.mem_map.mp h
    exact ⟨rfl, rfl⟩

namespace Collected

variable {acc : Collected} {cs : List Chunk}

lemma bufferNodes_foldl (acc : Collected) (cs : List Chunk) :
    (cs.foldl add acc).bufferNodes = acc.bufferNodes ++ (cs.flatMap (·.bufferingNodes)).map toProto := by
  induction cs generalizing acc with
  | nil => simp
  | cons c cs ih =>
    rw [List.foldl_cons, ih, List.flatMap_cons, List.map_append, ← List.append_assoc]
    rfl

lemma crc32_foldl {k : ℕ} (hacc : ∀ v ∈ acc.crc32, v = k) (hcs : ∀ c ∈ cs, c.crc32 = k) :
    ∀ v ∈ (cs.foldl add acc).crc32, v = k := by
  induction cs generalizing acc with
  | nil => exact hacc
  | cons c cs ih =>
    refine ih ?_ fun c' hc' => hcs c' (List.mem_cons_of_mem c hc')
    intro v hv
    have hc : c.crc32 = k := hcs c List.mem_cons_self
    cases hcrc : acc.crc32 with
    | none =>
      simp only [add, hcrc, Option.none_or, Option.mem_some_iff] at hv
      exact hv.symm.trans hc
    | some w =>
      simp only [add, hcrc, Option.some_or, Option.mem_some_iff] at hv
      exact hv.symm.trans (hacc w hcrc)

lemma queueMap_foldl {q : Dict String String} (hacc : acc.queueMap = q) (hcs : ∀ c ∈ cs, c.queueMap = q) :
    (cs.foldl add acc).queueMap = q := by
  induction cs generalizing acc with
  | nil => exact hacc
  | cons c cs ih =>
    refine ih ?_ fun c' hc' => hcs c' (List.mem_cons_of_mem c hc')
    show acc.queueMap.update c.queueMap.entries = q
    rw [hacc, hcs c List.mem_cons_self, Dict.update_self]

lemma foldl_chunksOf (p : DiffPlan) : ((chunksOf p).foldl add {}).queueMap = p.queueMap ∧
      ((chunksOf p).foldl add {}).bufferNodes = p.bufferingNodes.map toProto := by
  refine ⟨?_, ?_⟩
  · obtain ⟨c, cs, hcs⟩ := List.exists_cons_of_ne_nil (chunksOf_ne_nil p)
    have hq : ∀ c' ∈ c :: cs, c'.queueMap = p.queueMap := by
      intro c' hc'
      exact (of_mem_chunksOf (hcs ▸ hc')).1
    rw [hcs, List.foldl_cons]
    refine queueMap_foldl ?_ fun c' hc' => hq c' (List.mem_cons_of_mem c hc')
    show Dict.empty.update c.queueMap.entries = p.queueMap
    rw [hq c List.mem_cons_self, Dict.update_empty]
  · rw [bufferNodes_foldl, flatMap_chunksOf]
    rfl

end Collected

/-! ### How far a call is -/

structure Progress (x : Session) (n m a : ℕ) : Prop where
  order : a ≤ m ∧ m ≤ n ∧ n ≤ (chunksOf x.plan).length
  toSend : x.toSend = (chunksOf x.plan).drop n
  pending : x.pending = ((chunksOf x.plan).take n).drop a
  queue : x.closed = none →
    x.queue = (((chunksOf x.plan).take n).drop m).map some ++ if x.ended = none then [] else [none]
  outstanding : x.outstanding + a = n + x.pendingAck
  window : x.outstanding ≤ ackWindow ∧ (x.waiting = false → x.outstanding < ackWindow)
  ended : x.ended ≠ none → a = n
  returned : x.ended = some .returned → n = (chunksOf x.plan).length
  finalized : x.finalized = true → x.ended ≠ none
  acking : (x.acking = none ∧ m = a) ∨ ∃ c, (chunksOf x.plan)[a]? = some c ∧ x.acking = some c.index ∧ m = a + 1
  acked : x.acked = ((chunksOf x.plan).take a).map (·.index)
  collected : x.collected = ((chunksOf x.plan).take m).foldl .add {}
  failing : x.failing = false
  closed : x.closed = some .returned → m = (chunksOf x.plan).length

lemma drop_take_succ {α : Type} {cs : List α} {n k : ℕ} {c : α} (hc : cs[n]? = some c) (hk : k ≤ n) :
    (cs.take (n + 1)).drop k = (cs.take n).drop k ++ [c] := by
  have hn : n < cs.length := (List.getElem?_eq_some_iff.mp hc).1
  have hlen : k ≤ (cs.take n).length := by
    rw [List.length_take]
    omega
  rw [List.take_add_one, hc, Option.toList_some, List.drop_append_of_le_length hlen]

lemma drop_take_cons {α : Type} {cs rest : List α} {n k : ℕ} {c : α} (h : (cs.take n).drop k = c :: rest) :
    cs[k]? = some c ∧ k < n ∧ rest = (cs.take n).drop (k + 1) := by
  have hget : (cs.take n)[k]? = some c := by
    have h0 : ((cs.take n).drop k)[0]? = some c := by rw [h]; rfl
    rw [List.getElem?_drop] at h0
    exact h0
  have hk : k < n := by
    have hlt := (List.getElem?_eq_some_iff.mp hget).1
    rw [List.length_take] at hlt
    omega
  refine ⟨?_, hk, ?_⟩
  · rw [List.getElem?_take_of_lt hk] at hget
    exact hget
  · rw [← List.tail_drop, h]
    rfl

/-- A call has moved on, with its plan, and is finalized only if it was. -/
structure Moves (x x' : Session) : Prop where
  plan : x'.plan = x.plan
  finalized : x'.finalized = x.finalized
  progress : ∃ n m a, Progress x' n m a

namespace Progress

variable {x x' : Session} {n m a : ℕ}

lemma start (plan : DiffPlan) : Progress (.start plan) 0 0 0 := by
  refine ⟨by simp, by simp [Session.start], by simp [Session.start], by simp [Session.start], rfl, ?_, by simp, ?_, ?_,
    .inl ⟨rfl, rfl⟩, rfl, rfl, rfl, ?_⟩
  · exact ⟨Nat.zero_le _, fun _ => Nat.succ_pos _⟩
  · intro h
    cases h
  · intro h
    cases h
  · intro h
    cases h

lemma send (h : Progress x n m a) (hx : x.send = some x') : Moves x x' := by
  unfold Session.send at hx
  split at hx
  · rename_i c rest hs
    split at hx
    · rename_i hf
      obtain ⟨hopen, hw⟩ := hf
      cases hx
      have hd : (chunksOf x.plan).drop n = c :: rest := h.toSend ▸ hs
      have hc : (chunksOf x.plan)[n]? = some c := by
        rw [← List.head?_drop, hd]
        rfl
      have hn : n < (chunksOf x.plan).length := (List.getElem?_eq_some_iff.mp hc).1
      obtain ⟨ham, hmn, -⟩ := h.order
      have hout := h.outstanding
      have hlt := h.window.2 hw
      refine ⟨rfl, rfl, n + 1, m, a, ⟨ham, by omega, hn⟩, ?_, ?_, ?_, ?_, ?_, ?_, ?_, h.finalized, h.acking,
        h.acked, h.collected, h.failing, h.closed⟩
      · rw [← List.tail_drop, hd]
        rfl
      · rw [h.pending, drop_take_succ hc (by omega)]
      · intro hcl
        have hq := h.queue hcl
        rw [if_pos hopen, List.append_nil] at hq
        rw [if_pos hopen, List.append_nil, hq, drop_take_succ hc hmn, List.map_append]
        rfl
      · show x.outstanding + 1 + a = n + 1 + x.pendingAck
        omega
      · show x.outstanding + 1 ≤ ackWindow ∧ (decide (x.outstanding + 1 ≥ ackWindow) = false → _)
        refine ⟨by omega, ?_⟩
        intro hfl
        have hf' := of_decide_eq_false hfl
        show x.outstanding + 1 < ackWindow
        omega
      · intro hend
        exact absurd hopen hend
      · intro hend
        rw [show x.ended = some .returned from hend] at hopen
        cases hopen
    · cases hx
  · cases hx

lemma acknowledged (h : Progress x n m a) (hx : x.acknowledged = some x') : Moves x x' := by
  unfold Session.acknowledged at hx
  split at hx
  · cases hx
    obtain ⟨ham, hmn, -⟩ := h.order
    have hout := h.outstanding
    have hwin := h.window.1
    refine ⟨rfl, rfl, n, m, a, h.order, h.toSend, h.pending, h.queue, ?_, ?_, h.ended, h.returned, h.finalized,
      h.acking, h.acked, h.collected, h.failing, h.closed⟩
    · show x.outstanding - 1 + a = n + (x.pendingAck - 1)
      omega
    · show x.outstanding - 1 ≤ ackWindow ∧ (false = false → x.outstanding - 1 < ackWindow)
      omega
  · cases hx

lemma timeout (h : Progress x n m a) {late : Bool} (hx : x.timeout late = some x') (hp : x.pending = []) :
    Moves x x' := by
  have han : a = n := by
    have hlen := congrArg List.length h.pending
    rw [hp, List.length_drop, List.length_take] at hlen
    obtain ⟨ham, hmn, hn⟩ := h.order
    simp only [List.length_nil] at hlen
    omega
  unfold Session.timeout at hx
  split at hx
  · rename_i hw
    have hopen : x.ended = none := by
      simpa using (Bool.and_eq_true_iff.mp hw).1
    simp only [hp, List.map_nil, List.append_nil] at hx
    split at hx
    · cases hx
      exact ⟨rfl, rfl, n, m, a, h.order, h.toSend, hp ▸ h.pending, h.queue, h.outstanding, h.window, h.ended,
        h.returned, h.finalized, h.acking, h.acked, h.collected, h.failing, h.closed⟩
    · split at hx
      · cases hx
        refine ⟨rfl, rfl, n, m, a, h.order, h.toSend, hp ▸ h.pending, ?_, h.outstanding, h.window,
          fun _ => han, ?_, ?_, h.acking, h.acked, h.collected, h.failing, h.closed⟩
        · intro hc
          have hq := h.queue hc
          rw [if_pos hopen, List.append_nil] at hq
          show x.queue ++ [none] = _ ++ [none]
          rw [hq]
        · intro hend
          cases hend
        · intro _ hend
          cases hend
      · cases hx
        exact ⟨rfl, rfl, n, m, a, h.order, h.toSend, hp ▸ h.pending, h.queue, h.outstanding, h.window,
          h.ended, h.returned, h.finalized, h.acking, h.acked, h.collected, h.failing, h.closed⟩
  · cases hx

lemma finish (h : Progress x n m a) (hx : x.finish = some x') : Moves x x' := by
  unfold Session.finish at hx
  split at hx
  · rename_i hd
    obtain ⟨hopen, -, hs, hz⟩ := hd
    cases hx
    have hout := h.outstanding
    obtain ⟨ham, hmn, hn⟩ := h.order
    have hall : n = (chunksOf x.plan).length := by
      have hlen : (chunksOf x.plan).length ≤ n := List.drop_eq_nil_iff.mp (h.toSend ▸ hs)
      omega
    refine ⟨rfl, rfl, n, m, a, h.order, h.toSend, h.pending, ?_, h.outstanding, h.window, ?_, fun _ => hall, ?_,
      h.acking, h.acked, h.collected, h.failing, h.closed⟩
    · intro hc
      have hq := h.queue hc
      rw [if_pos hopen, List.append_nil] at hq
      show x.queue ++ [none] = _ ++ [none]
      rw [hq]
    · intro _
      omega
    · intro _ hend
      cases hend
  · cases hx

lemma finalize (h : Progress x n m a) (hx : x.finalize = some x') : Progress x' n m a := by
  unfold Session.finalize at hx
  split at hx
  · rename_i hd
    cases hx
    exact ⟨h.order, h.toSend, h.pending, h.queue, h.outstanding, h.window, h.ended, h.returned, fun _ => hd.1,
      h.acking, h.acked, h.collected, h.failing, h.closed⟩
  · cases hx

lemma deliver (h : Progress x n m a) (hx : x.deliver = some x') : Moves x x' := by
  unfold Session.deliver at hx
  split at hx
  · rename_i hf
    obtain ⟨hopen, hid⟩ := hf
    have hma : m = a := by
      rcases h.acking with ⟨-, hma⟩ | ⟨c, -, hc, -⟩
      · exact hma
      · rw [hc] at hid
        cases hid
    obtain ⟨ham, hmn, hn⟩ := h.order
    have hq := h.queue hopen
    split at hx
    · rename_i c rest hqu
      cases hx
      obtain ⟨c', rest', hd⟩ : ∃ c' rest', ((chunksOf x.plan).take n).drop m = c' :: rest' := by
        refine List.exists_cons_of_ne_nil ?_
        intro hnil
        rw [hnil, hqu, List.map_nil, List.nil_append] at hq
        split at hq <;> cases hq
      rw [hqu, hd, List.map_cons, List.cons_append] at hq
      obtain ⟨rfl, hr⟩ : c = c' ∧ rest = rest'.map some ++ if x.ended = none then [] else [none] := by
        simpa using hq
      obtain ⟨hc, hlt, hr'⟩ := drop_take_cons hd
      have hcrc : x.collected.crcOk c := by
        have hmem : ∀ c' ∈ (chunksOf x.plan).take m, c'.crc32 = x.plan.crc32 := fun c' hc' =>
          (of_mem_chunksOf (List.mem_of_mem_take hc')).2
        have hall : ∀ v ∈ x.collected.crc32, v = x.plan.crc32 := by
          rw [h.collected]
          exact Collected.crc32_foldl (by simp) hmem
        unfold Collected.crcOk
        rw [(of_mem_chunksOf (List.mem_of_getElem? hc)).2, Option.all_eq_true]
        intro v hv
        exact decide_eq_true (hall v hv)
      refine ⟨rfl, rfl, n, m + 1, a, ⟨by omega, hlt, hn⟩, h.toSend, h.pending, ?_, h.outstanding, h.window, h.ended,
        h.returned, h.finalized, .inr ⟨c, hma ▸ hc, rfl, by omega⟩, h.acked, ?_, ?_, ?_⟩
      · intro _
        rw [hr, hr']
      · rw [h.collected, List.take_add_one, hc, List.foldl_append]
        rfl
      · rw [hcrc]
        rfl
      · intro hcl
        rw [show x.closed = some .returned from hcl] at hopen
        cases hopen
    · rename_i rest hqu
      split at hx
      · cases hx
        have hl : ((chunksOf x.plan).take n).drop m = [] := by
          by_contra hne
          obtain ⟨c', rest', hd⟩ := List.exists_cons_of_ne_nil hne
          rw [hqu, hd] at hq
          cases hq
        have hnm : n ≤ m := by
          have hlen := List.drop_eq_nil_iff.mp hl
          rw [List.length_take] at hlen
          omega
        rename_i hfin
        refine ⟨rfl, rfl, n, m, a, h.order, h.toSend, h.pending, ?_, h.outstanding, h.window, h.ended, h.returned,
          h.finalized, h.acking, h.acked, h.collected, h.failing, ?_⟩
        · intro hcl
          exact absurd hcl (h.finalized hfin)
        · intro hcl
          have hret := h.returned hcl
          show m = (chunksOf x.plan).length
          omega
      · cases hx
    · cases hx
  · cases hx

lemma ack (h : Progress x n m a) {index : ℕ} (hidx : x.acking = some index) : Moves x (x.ack.resume index) := by
  obtain ⟨c, hc, hac, hm⟩ : ∃ c, (chunksOf x.plan)[a]? = some c ∧ x.acking = some c.index ∧ m = a + 1 := by
    rcases h.acking with ⟨hnn, -⟩ | hs
    · rw [hnn] at hidx
      cases hidx
    · exact hs
  obtain rfl : c.index = index := Option.some.inj (hac.symm.trans hidx)
  obtain ⟨ham, hmn, hn⟩ := h.order
  have hout := h.outstanding
  have hcl : (x.ack.resume c.index).closed = x.closed := by
    show (if x.failing then some .raised else x.closed) = x.closed
    rw [h.failing]
    rfl
  refine ⟨rfl, rfl, n, m, a + 1, ⟨by omega, hmn, hn⟩, h.toSend, ?_, ?_, ?_, h.window, ?_, h.returned, h.finalized,
    .inl ⟨rfl, hm⟩, ?_, h.collected, h.failing, ?_⟩
  · show x.pending.tail = _
    rw [h.pending, List.tail_drop]
    rfl
  · rw [hcl]
    exact h.queue
  · show x.outstanding + (a + 1) = n + (x.pendingAck + 1)
    omega
  · intro hend
    have han := h.ended hend
    omega
  · show x.acked ++ [c.index] = _
    rw [h.acked, List.take_add_one, show (chunksOf (x.ack.resume c.index).plan)[a]? = some c from hc,
      List.map_append]
    rfl
  · rw [hcl]
    exact h.closed

lemma ended_eq_none (h : Progress x n m a) (hack : x.acking ≠ none) : x.ended = none := by
  by_contra hend
  have han := h.ended hend
  obtain ⟨ham, hmn, -⟩ := h.order
  rcases h.acking with ⟨hn, -⟩ | ⟨c, -, -, hm⟩
  · exact hack hn
  · omega

lemma mem_acked (h : Progress x n m a) (hret : x.ended = some .returned) :
    ∀ c ∈ chunksOf x.plan, c.index ∈ x.acked := by
  intro c hc
  have hend : x.ended ≠ none := by
    rw [hret]
    exact Option.some_ne_none _
  have hlen : (chunksOf x.plan).length ≤ a := by
    rw [h.ended hend, ← h.returned hret]
  rw [h.acked, List.take_of_length_le hlen]
  exact List.mem_map_of_mem hc

lemma length_unacknowledged_le (h : Progress x n m a) : x.unacknowledged.length ≤ x.outstanding := by
  obtain ⟨ham, hmn, hn⟩ := h.order
  have hout := h.outstanding
  have hsn : (chunksOf x.plan).length - x.toSend.length = n := by
    rw [h.toSend, List.length_drop]
    omega
  have hs : (chunksOf x.plan).take n = (chunksOf x.plan).take a ++ ((chunksOf x.plan).take n).drop a := by
    have ht : ((chunksOf x.plan).take n).take a = (chunksOf x.plan).take a := by
      rw [List.take_take, min_eq_left (by omega)]
    calc (chunksOf x.plan).take n = ((chunksOf x.plan).take n).take a ++ ((chunksOf x.plan).take n).drop a :=
          (List.take_append_drop a _).symm
      _ = _ := by rw [ht]
  have hfirst : ((chunksOf x.plan).take a).filter (fun c => c.index ∉ x.acked) = [] := by
    rw [List.filter_eq_nil_iff]
    intro c hc
    have hmem : c.index ∈ x.acked := by
      rw [h.acked]
      exact List.mem_map_of_mem hc
    simpa using hmem
  have hr : (((chunksOf x.plan).take n).drop a).length = n - a := by
    rw [List.length_drop, List.length_take, min_eq_left hn]
  have hle := List.length_filter_le (fun c : Chunk => decide (c.index ∉ x.acked)) (((chunksOf x.plan).take n).drop a)
  unfold Session.unacknowledged
  rw [hsn, hs, List.filter_append, hfirst, List.nil_append]
  omega

end Progress

/-! ### Steady runs -/

variable {s s' : State} {e : Event} {d : ℕ} {x x' : Session}

structure Orderly (s : State) : Prop where
  progress : ∀ d x, s.diffs d = some x → ∃ n m a, Progress x n m a
  registered : ∀ d x, s.diffs d = some x → x.finalized = false → s.streams x.plan.sentinelId = some d

lemma Orderly.update (h : Orderly s) (hd : s.diffs d = some x) (hx : Moves x x') :
    Orderly { s with diffs := Function.update s.diffs d (some x') } := by
  refine ⟨?_, ?_⟩
  · intro d' y hy
    by_cases hdd : d' = d
    · subst hdd
      obtain rfl : x' = y := by simpa using hy
      exact hx.progress
    · exact h.progress d' y (by simpa [hdd] using hy)
  · intro d' y hy hopen
    by_cases hdd : d' = d
    · subst hdd
      obtain rfl : x' = y := by simpa using hy
      rw [hx.plan]
      exact h.registered d' x hd (hx.finalized ▸ hopen)
    · exact h.registered d' y (by simpa [hdd] using hy) hopen

lemma Orderly.modify (h : Orderly s) {f : Session → Option Session} (hs : s.modify d f = some s')
    (hf : ∀ x x' n m a, s.diffs d = some x → Progress x n m a → f x = some x' → Moves x x') : Orderly s' := by
  obtain ⟨x, hd, hx⟩ := Option.bind_eq_some_iff.mp hs
  obtain ⟨x', hx', rfl⟩ := Option.map_eq_some_iff.mp hx
  obtain ⟨n, m, a, hp⟩ := h.progress d x hd
  exact h.update hd (hf x x' n m a hd hp hx')

lemma Orderly.start (h : Orderly s) {plan : DiffPlan} (hnew : s.streams plan.sentinelId = none) :
    Orderly ⟨Function.update s.streams plan.sentinelId (some d),
      Function.update s.diffs d (some (.start plan))⟩ := by
  refine ⟨?_, ?_⟩
  · intro d' y hy
    by_cases hdd : d' = d
    · subst hdd
      obtain rfl : Session.start plan = y := by simpa using hy
      exact ⟨0, 0, 0, .start plan⟩
    · exact h.progress d' y (by simpa [hdd] using hy)
  · intro d' y hy hopen
    by_cases hdd : d' = d
    · subst hdd
      obtain rfl : Session.start plan = y := by simpa using hy
      exact Function.update_self _ _ _
    · have hreg := h.registered d' y (by simpa [hdd] using hy) hopen
      have hne : y.plan.sentinelId ≠ plan.sentinelId := by
        intro heq
        rw [heq, hnew] at hreg
        cases hreg
      show Function.update s.streams plan.sentinelId (some d) y.plan.sentinelId = some d'
      rw [Function.update_of_ne hne]
      exact hreg

lemma Orderly.finalize (h : Orderly s) (hd : s.diffs d = some x) (hx : x.finalize = some x') :
    Orderly ⟨Function.update s.streams x.plan.sentinelId none, Function.update s.diffs d (some x')⟩ := by
  obtain ⟨n, m, a, hp⟩ := h.progress d x hd
  have hp' := hp.finalize hx
  unfold Session.finalize at hx
  split at hx
  · rename_i hdn
    cases hx
    have hreg := h.registered d x hd hdn.2
    refine ⟨?_, ?_⟩
    · intro d' y hy
      by_cases hdd : d' = d
      · subst hdd
        obtain rfl := Option.some.inj ((Function.update_self d' _ s.diffs).symm.trans hy)
        exact ⟨n, m, a, hp'⟩
      · exact h.progress d' y (by simpa [hdd] using hy)
    · intro d' y hy hopen
      by_cases hdd : d' = d
      · subst hdd
        obtain rfl := Option.some.inj ((Function.update_self d' _ s.diffs).symm.trans hy)
        cases hopen
      · have hr' := h.registered d' y (by simpa [hdd] using hy) hopen
        have hne : y.plan.sentinelId ≠ x.plan.sentinelId := by
          intro heq
          rw [heq, hreg] at hr'
          exact hdd (Option.some.inj hr').symm
        show Function.update s.streams x.plan.sentinelId none y.plan.sentinelId = some d'
        rw [Function.update_of_ne hne]
        exact hr'
  · cases hx

lemma Orderly.ack (h : Orderly s) (hd : s.diffs d = some x) {index : ℕ} (hidx : x.acking = some index) :
    Orderly { s with diffs := Function.update s.diffs d (some (x.ack.resume index)) } ∧
      s.ackChunk x.plan.sentinelId = { s with diffs := Function.update s.diffs d (some x.ack) } := by
  obtain ⟨n, m, a, hp⟩ := h.progress d x hd
  have hopen : x.ended = none := hp.ended_eq_none (by rw [hidx]; exact Option.some_ne_none _)
  have hfin : x.finalized = false := by
    rw [Bool.eq_false_iff]
    intro hfin
    exact hp.finalized hfin hopen
  refine ⟨h.update hd (hp.ack hidx), ?_⟩
  unfold State.ackChunk
  rw [h.registered d x hd hfin]
  dsimp only
  rw [hd]
  rfl

lemma Orderly.step (h : Orderly s) (hst : Steady s e) (hs : step s e = some s') : Orderly s' := by
  cases e with
  | start d plan =>
    simp only [DiffStream.step] at hs
    split at hs
    · cases hs
    · cases hs
      exact h.start hst
  | send d => exact h.modify hs fun _ _ _ _ _ _ hp hx => hp.send hx
  | acknowledged d => exact h.modify hs fun _ _ _ _ _ _ hp hx => hp.acknowledged hx
  | timeout d late => exact h.modify hs fun x _ _ _ _ hd hp hx => hp.timeout hx (hst x hd)
  | finish d => exact h.modify hs fun _ _ _ _ _ _ hp hx => hp.finish hx
  | finalize d =>
    obtain ⟨x, hd, hx⟩ := Option.bind_eq_some_iff.mp hs
    obtain ⟨x', hx', rfl⟩ := Option.map_eq_some_iff.mp hx
    exact h.finalize hd hx'
  | deliver d => exact h.modify hs fun _ _ _ _ _ _ hp hx => hp.deliver hx
  | ack d =>
    obtain ⟨x, hd, hx⟩ := Option.bind_eq_some_iff.mp hs
    obtain ⟨index, hidx, rfl⟩ := Option.map_eq_some_iff.mp hx
    obtain ⟨hor, hack⟩ := h.ack hd hidx
    rw [hack]
    dsimp only
    rw [Function.update_self, Function.update_idem]
    exact hor

lemma orderly_init : Orderly .init := by
  refine ⟨?_, ?_⟩
  · intro d x hd
    cases hd
  · intro d x hd
    cases hd

/-- **A diff is streamed exactly once.** In every run in which no wait times out while a chunk is pending
and no call starts while another is registered under its sentinel id, a streamer that has returned has every
chunk acknowledged, none sends with more than the window open, and a collector that has returned has the
queue map and the buffering nodes of the plan, each once and in order. -/
theorem stream_exact_of_steady (s : State) (h : Run step Steady .init s) : Acknowledged s ∧ Complete s := by
  have horderly : Orderly s := h.invariant orderly_init fun _ _ _ ho hsteady hs => ho.step hsteady hs
  refine ⟨?_, ?_⟩
  · intro d x hd
    obtain ⟨n, m, a, hprog⟩ := horderly.progress d x hd
    refine ⟨hprog.mem_acked, fun _ => ?_⟩
    have hle := hprog.length_unacknowledged_le
    have hwin := hprog.window.1
    omega
  · intro d x hd hclosed
    obtain ⟨n, m, a, hprog⟩ := horderly.progress d x hd
    have hall : (chunksOf x.plan).take m = chunksOf x.plan :=
      List.take_of_length_le (by rw [hprog.closed hclosed])
    rw [hprog.collected, hall]
    exact Collected.foldl_chunksOf x.plan

def samplePlan : DiffPlan where
  queueMap := Dict.ofList [("key0", "topic0")]
  sentinelId := "s0-sentinel"
  version := "v1"
  crc32 := 7
  newNodes := []
  bufferingNodes := [⟨⟨"node0", "StreamNode", "code0", "schema0", "schema0", some 60, some 2, [], none, "key0"⟩, 2⟩]

/-- The chunk is sent, delivered and acknowledged, and the collector returns. -/
theorem stream_exact_of_steady_sample :
    ∃ s x, Run step Steady .init s ∧ s.diffs 0 = some x ∧ x.closed = some .returned ∧
      x.collected.bufferNodes.length = 1 ∧ Acknowledged s ∧ Complete s := by
  have h₀ : Run step Steady .init .init := .init
  have h₁ := h₀.next (e := Event.start 0 samplePlan) rfl rfl
  have h₂ := h₁.next (e := Event.send 0) trivial rfl
  have h₃ := h₂.next (e := Event.deliver 0) trivial rfl
  have h₄ := h₃.next (e := Event.ack 0) trivial rfl
  have h₅ := h₄.next (e := Event.acknowledged 0) trivial rfl
  have h₆ := h₅.next (e := Event.finish 0) trivial rfl
  have h₇ := h₆.next (e := Event.finalize 0) trivial rfl
  have h₈ := h₇.next (e := Event.deliver 0) trivial rfl
  obtain ⟨hack, hcomplete⟩ := stream_exact_of_steady _ h₈
  exact ⟨_, _, h₈, rfl, rfl, rfl, hack, hcomplete⟩

/-- A wait times out before the client has the chunk: the chunk is queued again, and the buffering node is
collected twice. -/
theorem resume_collects_twice :
    ∃ s x, Run step (fun _ _ => True) .init s ∧ s.diffs 0 = some x ∧ x.closed = some .returned ∧
      x.collected.bufferNodes.length = 2 ∧ x.plan.bufferingNodes.length = 1 ∧ ¬ Complete s := by
  have h₀ : Run step (fun _ _ => True) .init .init := .init
  have h₁ := h₀.next (e := Event.start 0 samplePlan) trivial rfl
  have h₂ := h₁.next (e := Event.send 0) trivial rfl
  have h₃ := h₂.next (e := Event.timeout 0 false) trivial rfl
  have h₄ := h₃.next (e := Event.deliver 0) trivial rfl
  have h₅ := h₄.next (e := Event.ack 0) trivial rfl
  have h₆ := h₅.next (e := Event.acknowledged 0) trivial rfl
  have h₇ := h₆.next (e := Event.finish 0) trivial rfl
  have h₈ := h₇.next (e := Event.deliver 0) trivial rfl
  have h₉ := h₈.next (e := Event.ack 0) trivial rfl
  have h₁₀ := h₉.next (e := Event.finalize 0) trivial rfl
  have h₁₁ := h₁₀.next (e := Event.deliver 0) trivial rfl
  refine ⟨_, _, h₁₁, rfl, rfl, rfl, rfl, ?_⟩
  intro hcomplete
  have hlen := congrArg List.length (hcomplete 0 _ rfl rfl).2
  exact absurd hlen (by decide)

end Qmtl.Gateway.DiffStream

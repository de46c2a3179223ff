import Qmtl.Foundation.Keys
import Qmtl.Gateway.Backend
import Qmtl.Lib.TtlCache

/-! The commit log: `CommitLogWriter.publish_bucket` on one side, `CommitLogConsumer` with its
`CommitLogDeduplicator` on the other, and Kafka's partitions, positions and committed offsets
between them. -/

namespace Qmtl.Gateway.CommitLog

open Lib

variable {κ π τ : Type}

/-! ### Messages -/

structure Rec (κ π τ : Type) where
  key : κ
  payload : π
  tag : τ
  deriving DecidableEq, Repr

/-- What `json.loads` and the unpacking make of a message's value. -/
inductive Message (κ π τ : Type) where
  /-- `JSONDecodeError` -/
  | undecodable
  /-- another exception, or not four elements -/
  | misshapen
  /-- four elements, of which the first three cannot be hashed -/
  | unhashable
  | record (r : Rec κ π τ)
  deriving DecidableEq, Repr

inductive Raised where
  | unpack | unhashable | tooLarge
  deriving DecidableEq, Repr

def pollRaw : List (Message κ π τ) → Except Raised (List (Option (Rec κ π τ)))
  | [] => .ok []
  | .undecodable :: ms => pollRaw ms
  | .misshapen :: _ => .error .unpack
  | .unhashable :: ms => (pollRaw ms).map (none :: ·)
  | .record r :: ms => (pollRaw ms).map (some r :: ·)

inductive Verdict where
  | forward | duplicate
  deriving DecidableEq, Repr

def filter [DecidableEq κ] (clock : ℕ → ℕ × ℕ) (n : ℕ) (seen : TtlCache κ) :
    List (Option (Rec κ π τ)) → List (Rec κ π τ × Verdict) × Option Raised × TtlCache κ
  | [] => ([], none, seen)
  | none :: _ => ([], some .unhashable, seen)
  | some r :: rs =>
    if seen.contains (clock n).1 r.key then
      let out := filter clock (n + 1) seen rs
      ((r, .duplicate) :: out.1, out.2)
    else
      match seen.set (clock n).2 r.key with
      | none => ([], some .tooLarge, seen)
      | some seen' =>
        let out := filter clock (n + 1) seen' rs
        ((r, .forward) :: out.1, out.2)

def forwards (vs : List (Rec κ π τ × Verdict)) : List (Rec κ π τ) :=
  (vs.filter fun v => v.2 = .forward).map Prod.fst

/-! ### The consumer -/

structure State (κ π τ : Type) where
  /-- the partitions of the topic -/
  log : ℕ → List (Message κ π τ)
  position : ℕ → ℕ
  committed : ℕ → ℕ
  /-- the deduplicator's `_seen` -/
  seen : TtlCache κ
  /-- every record appended to a partition -/
  written : List (Rec κ π τ)
  /-- the verdict on every polled record -/
  trace : List (Rec κ π τ × Verdict)
  /-- every record handed to the processor -/
  forwarded : List (Rec κ π τ)
  /-- those handed to it in a call that returned -/
  done : List (Rec κ π τ)

namespace State

variable (s : State κ π τ)

def append (p : ℕ) (m : Message κ π τ) : State κ π τ :=
  { s with
    log := Function.update s.log p (s.log p ++ [m])
    written := match m with
      | .record r => s.written ++ [r]
      | _ => s.written }

def take (p n : ℕ) : List (Message κ π τ) := ((s.log p).drop (s.position p)).take n

def polled (batch : List (ℕ × ℕ)) : List (Message κ π τ) := batch.flatMap fun b => s.take b.1 b.2

def advance (batch : List (ℕ × ℕ)) : State κ π τ :=
  { s with position := fun p => s.position p + ((batch.lookup p).elim 0 fun n => (s.take p n).length) }

def rewind : State κ π τ := { s with position := s.committed }

def commit (f : Fate) : State κ π τ :=
  match f with
  | .ok => { s with committed := s.position }
  | .lost => s.rewind
  | .torn => { s with committed := s.position }

def process (records : List (Rec κ π τ)) (ok : Bool) : State κ π τ :=
  { s with
    forwarded := s.forwarded ++ records
    done := if ok then s.done ++ records else s.done }

def consume [DecidableEq κ] (commitOffsets : Bool) (batch : List (ℕ × ℕ)) (clock : ℕ → ℕ × ℕ) (processorOk : Bool)
    (f : Fate) : State κ π τ :=
  let s₁ := s.advance batch
  match pollRaw (s.polled batch) with
  | .error _ => s₁.rewind
  | .ok raw =>
    let out := filter clock 0 s.seen raw
    let s₂ := { s₁ with seen := out.2.2, trace := s.trace ++ out.1 }
    match out.2.1 with
    | some _ => s₂.rewind
    | none =>
      let records := forwards out.1
      let s₃ := if records = [] then s₂ else s₂.process records processorOk
      if records ≠ [] ∧ processorOk = false then s₃.rewind
      else if commitOffsets then s₃.commit f
      else s₃

end State

/-- What can happen: a message is appended; messages up to the committed offset are delivered again;
the consumer starts anew, with an empty deduplicator; or `consume` is called. -/
inductive Event (κ π τ : Type) where
  | append (p : ℕ) (m : Message κ π τ)
  | redeliver (p offset : ℕ)
  | restart
  | consume (batch : List (ℕ × ℕ)) (clock : ℕ → ℕ × ℕ) (processorOk : Bool) (f : Fate)

def step [DecidableEq κ] (commitOffsets : Bool) (s : State κ π τ) : Event κ π τ → Option (State κ π τ)
  | .append p m => some (s.append p m)
  | .redeliver p offset =>
    if offset ≤ s.committed p then some { s with position := Function.update s.position p offset } else none
  | .restart => some { s.rewind with seen := { s.seen with items := [] } }
  | .consume batch clock processorOk f =>
    if (batch.map Prod.fst).Nodup then some (s.consume commitOffsets batch clock processorOk f) else none

def init (maxsize ttl : ℕ) : State κ π τ where
  log _ := []
  position _ := 0
  committed _ := 0
  seen := ⟨maxsize, ttl, []⟩
  written := []
  trace := []
  forwarded := []
  done := []

/-! ### Reading them -/

lemma mem_of_pollRaw {ms : List (Message κ π τ)} {raw : List (Option (Rec κ π τ))} (h : pollRaw ms = .ok raw) :
    (∀ r, some r ∈ raw ↔ .record r ∈ ms) ∧ (none ∈ raw → .unhashable ∈ ms) := by
  induction ms generalizing raw with
  | nil =>
    cases h
    simp
  | cons m ms ih =>
    cases m with
    | undecodable =>
      simpa using ih h
    | misshapen => cases h
    | unhashable =>
      simp only [pollRaw] at h
      cases hp : pollRaw ms with
      | error e => simp [hp, Except.map] at h
      | ok raw' =>
        rw [hp] at h
        cases h
        simp [(ih hp).1]
    | record r' =>
      simp only [pollRaw] at h
      cases hp : pollRaw ms with
      | error e => simp [hp, Except.map] at h
      | ok raw' =>
        rw [hp] at h
        cases h
        simpa [(ih hp).1] using (ih hp).2

lemma mem_forwards {vs : List (Rec κ π τ × Verdict)} {r : Rec κ π τ} : r ∈ forwards vs ↔ (r, .forward) ∈ vs := by
  simp [forwards]

lemma forwards_append (vs vs' : List (Rec κ π τ × Verdict)) :
    forwards (vs ++ vs') = forwards vs ++ forwards vs' := by
  simp [forwards]

section Consume

variable [DecidableEq κ] {s : State κ π τ} {commitOffsets processorOk : Bool} {batch : List (ℕ × ℕ)}
  {clock : ℕ → ℕ × ℕ} {f : Fate}

lemma consume_frame : (s.consume commitOffsets batch clock processorOk f).log = s.log ∧
    (s.consume commitOffsets batch clock processorOk f).written = s.written := by
  unfold State.consume
  dsimp only
  split
  · exact ⟨rfl, rfl⟩
  · split
    · exact ⟨rfl, rfl⟩
    · -- whether or not anything is processed, and however the commit ends
      cases f <;> (repeat' split) <;> exact ⟨rfl, rfl⟩

@[simp] lemma consume_log : (s.consume commitOffsets batch clock processorOk f).log = s.log := consume_frame.1

@[simp] lemma consume_written :
    (s.consume commitOffsets batch clock processorOk f).written = s.written := consume_frame.2

end Consume

end Qmtl.Gateway.CommitLog

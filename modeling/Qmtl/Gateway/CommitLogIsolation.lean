import Qmtl.Gateway.CommitLog
import Qmtl.Lib.Log

/-! Isolation of compute contexts across the commit log. -/

namespace Qmtl.Gateway.CommitLog

open Lib Foundation

structure Identity where
  nodeId : String
  bucketTs : ℤ
  inputWindowHash : String
  deriving DecidableEq, Repr

/-- An element of the records passed to `publish_bucket`: a tuple of three, of four, or one that the
loop raises on. -/
inductive BucketRecord (π : Type) where
  | three (nodeId inputWindowHash : String) (payload : π)
  | four (nodeId inputWindowHash : String) (payload : π) (computeKey : Option String)
  | other
  deriving DecidableEq, Repr

variable {π : Type}

abbrev Published (π : Type) := Rec Identity π (Option String)

def message (bucketTs : ℤ) (interval : Option ℤ) (nodeId inputWindowHash : String) (payload : π)
    (computeKey : Option String) : String × Published π :=
  (partitionKey nodeId interval (some bucketTs) computeKey ++ ":" ++ inputWindowHash,
    ⟨⟨nodeId, bucketTs, inputWindowHash⟩, payload, computeKey⟩)

def publishBucket (bucketTs : ℤ) (interval : Option ℤ) : List (BucketRecord π) → List (String × Published π)
  | [] => []
  | .three nodeId hash payload :: rs =>
    message bucketTs interval nodeId hash payload none :: publishBucket bucketTs interval rs
  | .four nodeId hash payload computeKey :: rs =>
    message bucketTs interval nodeId hash payload computeKey :: publishBucket bucketTs interval rs
  | .other :: _ => []

/-! ### Writer and consumer together -/

abbrev Log (π : Type) := State Identity π (Option String)

/-- A bucket is published, of which the first messages reach the consumer (all of them when the
transaction commits), or the consumer does something. -/
inductive Action (π : Type) where
  | publish (bucketTs : ℤ) (interval : Option ℤ) (records : List (BucketRecord π)) (visible : ℕ)
  | redeliver (p offset : ℕ)
  | restart
  | consume (batch : List (ℕ × ℕ)) (clock : ℕ → ℕ × ℕ) (processorOk : Bool) (f : Fate)

def Action.messages : Action π → List (String × Published π)
  | .publish bucketTs interval records visible => (publishBucket bucketTs interval records).take visible
  | _ => []

def appendAll (partitioner : String → ℕ) (s : Log π) (ms : List (String × Published π)) : Log π :=
  ms.foldl (fun s m => s.append (partitioner m.1) (.record m.2)) s

def act (partitioner : String → ℕ) (commitOffsets : Bool) (s : Log π) : Action π → Option (Log π)
  | .publish bucketTs interval records visible =>
    some (appendAll partitioner s (Action.publish bucketTs interval records visible).messages)
  | .redeliver p offset => step commitOffsets s (.redeliver p offset)
  | .restart => step commitOffsets s .restart
  | .consume batch clock processorOk f => step commitOffsets s (.consume batch clock processorOk f)

def Same (r r' : Published π) : Prop := r.key = r'.key ∧ r.tag = r'.tag

/-- **Compute contexts are isolated**: every polled record, or one of the same identity and compute key, reaches the processor. -/
def Isolated (s : Log π) : Prop :=
  (∀ before r after, s.trace = before ++ (r, .duplicate) :: after →
    ∃ r', (r', .forward) ∈ before ∧ Same r' r) ∧
  s.forwarded = forwards s.trace ∧
  ∀ r v, (r, v) ∈ s.trace → ∃ r' ∈ s.forwarded, Same r' r

/-- What is published agrees with everything published so far: records of one identity have one
compute key. -/
def coherent (s : Log π) (a : Action π) : Bool :=
  let all := s.written ++ a.messages.map Prod.snd
  a.messages.all fun m => all.all fun r => r.key ≠ m.2.key || r.tag = m.2.tag

section Filter

variable {κ τ : Type} [DecidableEq κ] {clock : ℕ → ℕ × ℕ} {n : ℕ} {seen : TtlCache κ}
  {raw : List (Option (Rec κ π τ))}

lemma mem_raw_of_filter {r : Rec κ π τ} {v : Verdict} (h : (r, v) ∈ (filter clock n seen raw).1) :
    some r ∈ raw := by
  induction raw generalizing n seen with
  | nil => cases h
  | cons x rs ih =>
    cases x with
    | none => cases h
    | some r₀ =>
      simp only [filter] at h
      split at h
      · rcases List.mem_cons.mp h with h | h
        · cases h
          exact .head _
        · exact .tail _ (ih h)
      · split at h
        · cases h
        · rcases List.mem_cons.mp h with h | h
          · cases h
            exact .head _
          · exact .tail _ (ih h)

lemma mem_seen_of_filter {q : κ × ℕ} (h : q ∈ (filter clock n seen raw).2.2.items) :
    q ∈ seen.items ∨ ∃ r, (r, .forward) ∈ (filter clock n seen raw).1 ∧ r.key = q.1 := by
  induction raw generalizing n seen with
  | nil => exact .inl h
  | cons x rs ih =>
    cases x with
    | none => exact .inl h
    | some r₀ =>
      simp only [filter] at h ⊢
      split at h
      · rename_i hc
        rw [if_pos hc]
        exact (ih h).imp_right fun ⟨r, hr, hk⟩ => ⟨r, .tail _ hr, hk⟩
      · rename_i hc
        rw [if_neg hc]
        split at h
        · exact .inl h
        · rename_i seen' hset
          rcases ih h with hq | ⟨r, hr, hk⟩
          · rcases TtlCache.mem_of_set hset hq with hq | hq
            · exact .inl hq
            · exact .inr ⟨r₀, (.head _), hq.symm⟩
          · exact .inr ⟨r, .tail _ hr, hk⟩

lemma dropped_of_filter {before after : List (Rec κ π τ × Verdict)} {r : Rec κ π τ}
    (h : (filter clock n seen raw).1 = before ++ (r, .duplicate) :: after) :
    (∃ q ∈ seen.items, q.1 = r.key) ∨ ∃ r', (r', .forward) ∈ before ∧ r'.key = r.key := by
  induction raw generalizing n seen before with
  | nil => simp [filter] at h
  | cons x rs ih =>
    cases x with
    | none => simp [filter] at h
    | some r₀ =>
      simp only [filter] at h
      split at h
      · rename_i hc
        cases before with
        | nil =>
          simp only [List.nil_append, List.cons.injEq, Prod.mk.injEq] at h
          obtain ⟨q, hq, hk, -⟩ := TtlCache.contains_iff.mp hc
          exact .inl ⟨q, hq, by rw [hk, h.1.1]⟩
        | cons b before =>
          simp only [List.cons_append, List.cons.injEq] at h
          exact (ih h.2).imp_right fun ⟨r', hr, hk⟩ => ⟨r', .tail _ hr, hk⟩
      · split at h
        · simp at h
        · rename_i seen' hset
          cases before with
          | nil => simp at h
          | cons b before =>
            simp only [List.cons_append, List.cons.injEq] at h
            obtain ⟨rfl, h⟩ := h
            rcases ih h with ⟨q, hq, hk⟩ | ⟨r', hr, hk⟩
            · rcases TtlCache.mem_of_set hset hq with hq | hq
              · exact .inl ⟨q, hq, hk⟩
              · exact .inr ⟨r₀, (.head _), by rw [← hq, hk]⟩
            · exact .inr ⟨r', .tail _ hr, hk⟩

lemma not_raised_of_filter (hraw : none ∉ raw) (hm : seen.maxsize ≠ 0) :
    (filter clock n seen raw).2.1 = none := by
  induction raw generalizing n seen with
  | nil => rfl
  | cons x rs ih =>
    simp only [List.mem_cons, not_or] at hraw
    cases x with
    | none => exact absurd rfl hraw.1
    | some r₀ =>
      simp only [filter]
      split
      · exact ih hraw.2 hm
      · split
        · rename_i hset
          simp [TtlCache.set, hm] at hset
        · rename_i seen' hset
          exact ih hraw.2 ((TtlCache.set_maxsize hset).1 ▸ hm)

lemma forwards_of_filter (hm : seen.maxsize = 0) : forwards (filter clock n seen raw).1 = [] := by
  induction raw generalizing n with
  | nil => rfl
  | cons x rs ih =>
    cases x with
    | none => rfl
    | some r₀ =>
      simp only [filter]
      split
      · simpa [forwards] using ih (n := n + 1)
      · split
        · rfl
        · rename_i seen' hset
          exact absurd hm (TtlCache.set_maxsize hset).2

end Filter

/-! ### One step -/

section Consume

variable {κ τ : Type} [DecidableEq κ] (s : State κ π τ) (commitOffsets processorOk : Bool)
  (batch : List (ℕ × ℕ)) (clock : ℕ → ℕ × ℕ) (f : Fate)

lemma consume_filters : ((s.consume commitOffsets batch clock processorOk f).seen = s.seen ∧
      (s.consume commitOffsets batch clock processorOk f).trace = s.trace ∧
      (s.consume commitOffsets batch clock processorOk f).forwarded = s.forwarded) ∨
    ∃ raw, pollRaw (s.polled batch) = .ok raw ∧
      (s.consume commitOffsets batch clock processorOk f).seen = (filter clock 0 s.seen raw).2.2 ∧
      (s.consume commitOffsets batch clock processorOk f).trace = s.trace ++ (filter clock 0 s.seen raw).1 ∧
      (s.consume commitOffsets batch clock processorOk f).forwarded =
        s.forwarded ++ (if (filter clock 0 s.seen raw).2.1 = none then forwards (filter clock 0 s.seen raw).1
          else []) := by
  unfold State.consume
  cases hp : pollRaw (s.polled batch) with
  | error e => exact .inl ⟨rfl, rfl, rfl⟩
  | ok raw =>
    right
    refine ⟨raw, rfl, ?_⟩
    dsimp only
    cases he : (filter clock 0 s.seen raw).2.1 with
    | some e => simp [State.rewind, State.advance]
    | none =>
      by_cases hr : forwards (filter clock 0 s.seen raw).1 = []
      · rw [if_pos hr, if_neg (by simp [hr]), hr]
        cases commitOffsets <;> cases f <;> simp [State.commit, State.rewind, State.advance]
      · cases processorOk <;> cases commitOffsets <;> cases f <;>
          simp [hr, State.commit, State.rewind, State.advance, State.process]

end Consume

/-- The invariant of writer and consumer. -/
structure Coherent (s : Log π) : Prop where
  agree : ∀ r ∈ s.written, ∀ r' ∈ s.written, r.key = r'.key → r.tag = r'.tag
  logged : ∀ p, ∀ m ∈ s.log p, ∃ r ∈ s.written, m = .record r
  traced : ∀ r v, (r, v) ∈ s.trace → r ∈ s.written
  seen : ∀ q ∈ s.seen.items, ∃ r, (r, .forward) ∈ s.trace ∧ r.key = q.1
  dropped : ∀ before r after, s.trace = before ++ (r, .duplicate) :: after →
    ∃ r', (r', .forward) ∈ before ∧ r'.key = r.key
  handed : s.forwarded = forwards s.trace

namespace Coherent

variable {s : Log π} {partitioner : String → ℕ} {commitOffsets : Bool}

lemma isolated (h : Coherent s) : Isolated s := by
  have hd : ∀ before r after, s.trace = before ++ (r, .duplicate) :: after →
      ∃ r', (r', .forward) ∈ before ∧ Same r' r := by
    intro before r after heq
    obtain ⟨r', hr', hk⟩ := h.dropped before r after heq
    have hw' : r' ∈ s.written := h.traced r' .forward (by rw [heq]; exact List.mem_append_left _ hr')
    have hw : r ∈ s.written := h.traced r .duplicate (by simp [heq])
    exact ⟨r', hr', hk, h.agree r' hw' r hw hk⟩
  refine ⟨hd, h.handed, ?_⟩
  intro r v hr
  rw [h.handed]
  cases v with
  | forward => exact ⟨r, mem_forwards.mpr hr, rfl, rfl⟩
  | duplicate =>
    obtain ⟨before, after, heq⟩ := List.append_of_mem hr
    obtain ⟨r', hr', hs⟩ := hd before r after heq
    exact ⟨r', mem_forwards.mpr (by rw [heq]; exact List.mem_append_left _ hr'), hs⟩

lemma mem_written_of_polled (h : Coherent s) {batch : List (ℕ × ℕ)}
    {m : Message Identity π (Option String)} (hm : m ∈ s.polled batch) : ∃ r ∈ s.written, m = .record r := by
  obtain ⟨b, -, hb⟩ := List.mem_flatMap.mp hm
  exact h.logged b.1 m (List.mem_of_mem_drop (List.mem_of_mem_take hb))

lemma dropped_append (h : Coherent s) {clock : ℕ → ℕ × ℕ} {raw : List (Option (Published π))}
    {before after : List (Published π × Verdict)} {r : Published π}
    (heq : s.trace ++ (filter clock 0 s.seen raw).1 = before ++ (r, .duplicate) :: after) :
    ∃ r', (r', .forward) ∈ before ∧ r'.key = r.key := by
  rcases split_append heq with ⟨rest, hold⟩ | ⟨mid, hb, hfil⟩
  · -- dropped by an earlier filter
    exact h.dropped before r rest hold
  · rw [hb]
    rcases dropped_of_filter hfil with ⟨q, hq, hk⟩ | ⟨r', hr', hk⟩
    · obtain ⟨r', hr', hk'⟩ := h.seen q hq
      exact ⟨r', List.mem_append_left _ hr', hk'.trans hk⟩
    · exact ⟨r', List.mem_append_right _ hr', hk⟩

lemma consume (h : Coherent s) (batch : List (ℕ × ℕ)) (clock : ℕ → ℕ × ℕ) (processorOk : Bool)
    (f : Fate) : Coherent (s.consume commitOffsets batch clock processorOk f) := by
  rcases consume_filters s commitOffsets processorOk batch clock f with
    ⟨hs, ht, hf⟩ | ⟨raw, hp, hs, ht, hf⟩
  · refine ⟨?_, ?_, ?_, ?_, ?_, ?_⟩
    · simpa using h.agree
    · simpa using h.logged
    · simpa [ht] using h.traced
    · simpa [hs, ht] using h.seen
    · simpa [ht] using h.dropped
    · rw [hf, ht, h.handed]
  · have hmem := mem_of_pollRaw hp
    have hh : none ∉ raw := by
      intro hn
      obtain ⟨r, -, hr⟩ := h.mem_written_of_polled (hmem.2 hn)
      cases hr
    refine ⟨?_, ?_, ?_, ?_, ?_, ?_⟩
    · simpa using h.agree
    · simpa using h.logged
    · intro r v hr
      rw [consume_written]
      rw [ht] at hr
      rcases List.mem_append.mp hr with hr | hr
      · exact h.traced r v hr
      · obtain ⟨r', hr', heq⟩ := h.mem_written_of_polled ((hmem.1 r).mp (mem_raw_of_filter hr))
        cases heq
        exact hr'
    · intro q hq
      rw [hs] at hq
      rw [ht]
      rcases mem_seen_of_filter hq with hq | ⟨r, hr, hk⟩
      · obtain ⟨r, hr, hk⟩ := h.seen q hq
        exact ⟨r, List.mem_append_left _ hr, hk⟩
      · exact ⟨r, List.mem_append_right _ hr, hk⟩
    · intro before r after heq
      rw [ht] at heq
      exact h.dropped_append heq
    · rw [hf, ht, h.handed, forwards_append]
      by_cases hz : s.seen.maxsize = 0
      · rw [forwards_of_filter hz, ite_self]
      · rw [if_pos (not_raised_of_filter hh hz)]

lemma append (h : Coherent s) (p : ℕ) {r : Published π}
    (hr : ∀ r' ∈ s.written, r'.key = r.key → r'.tag = r.tag) : Coherent (s.append p (.record r)) := by
  refine ⟨?_, ?_, ?_, h.seen, h.dropped, h.handed⟩
  · intro r₁ h₁ r₂ h₂ hk
    simp only [State.append, List.mem_append, List.mem_singleton] at h₁ h₂
    rcases h₁ with h₁ | rfl <;> rcases h₂ with h₂ | rfl
    · exact h.agree r₁ h₁ r₂ h₂ hk
    · exact hr r₁ h₁ hk
    · exact (hr r₂ h₂ hk.symm).symm
    · rfl
  · intro p' m hm
    simp only [State.append] at hm ⊢
    by_cases hp : p' = p
    · subst hp
      rw [Function.update_self] at hm
      rcases List.mem_append.mp hm with hm | hm
      · obtain ⟨r', hr', rfl⟩ := h.logged p' m hm
        exact ⟨r', List.mem_append_left _ hr', rfl⟩
      · exact ⟨r, by simp, by simpa using hm⟩
    · rw [Function.update_of_ne hp] at hm
      obtain ⟨r', hr', rfl⟩ := h.logged p' m hm
      exact ⟨r', List.mem_append_left _ hr', rfl⟩
  · intro r' v hv
    exact List.mem_append_left _ (h.traced r' v hv)

lemma appendAll (h : Coherent s) {ms : List (String × Published π)}
    (hms : ∀ m ∈ ms, ∀ r ∈ s.written ++ ms.map Prod.snd, r.key = m.2.key → r.tag = m.2.tag) :
    Coherent (appendAll partitioner s ms) := by
  induction ms generalizing s with
  | nil => exact h
  | cons m ms ih =>
    refine ih (h.append (partitioner m.1) fun r' hr' => hms m (by simp) r' (by simp [hr'])) ?_
    intro m' hm' r hr
    refine hms m' (by simp [hm']) r ?_
    simpa [State.append] using hr

lemma act {s' : Log π} {a : Action π} (h : Coherent s) (hc : coherent s a)
    (hs : act partitioner commitOffsets s a = some s') : Coherent s' := by
  cases a with
  | publish bucketTs interval records visible =>
    cases hs
    apply h.appendAll
    intro m hm r hr hk
    simp only [coherent, List.all_eq_true, Bool.or_eq_true, decide_eq_true_eq] at hc
    exact (hc m hm r hr).resolve_left (not_not.mpr hk)
  | redeliver p offset =>
    simp only [CommitLog.act, CommitLog.step] at hs
    split at hs
    · cases hs
      exact ⟨h.agree, h.logged, h.traced, h.seen, h.dropped, h.handed⟩
    · cases hs
  | restart =>
    cases hs
    exact ⟨h.agree, h.logged, h.traced, nofun, h.dropped, h.handed⟩
  | consume batch clock processorOk f =>
    simp only [CommitLog.act, CommitLog.step] at hs
    split at hs
    · cases hs
      exact h.consume batch clock processorOk f
    · cases hs

end Coherent

/-- **Compute contexts are isolated in every run that publishes each identity under one compute
key.** -/
theorem isolated_of_coherent {partitioner : String → ℕ} {commitOffsets : Bool} {maxsize ttl : ℕ} {s : Log π}
    (h : Run (act partitioner commitOffsets) (fun s a => coherent s a = true) (init maxsize ttl) s) :
    Isolated s := by
  have h₀ : Coherent (init maxsize ttl : Log π) :=
    ⟨nofun, nofun, nofun, nofun, fun before r after heq => by simp [init] at heq, rfl⟩
  exact (h.invariant h₀ fun _ _ _ hI hP hs => hI.act hP hs).isolated

def consumeAll : Action Unit := .consume [(0, 10)] (fun _ => (0, 0)) true .ok

/-- Two input windows, one of them published twice. -/
theorem isolated_of_coherent_repeat : ∃ s : Log Unit,
    Run (act (fun _ => 0) true) (fun s a => coherent s a = true) (init 1024 60) s ∧
      s.trace.map Prod.snd = [.forward, .forward, .duplicate] ∧ Isolated s := by
  obtain ⟨s, hrun, hq⟩ := exists_run (act (fun _ => 0) true) (init 1024 60 : Log Unit) coherent
    [.publish 60 (some 60) [.four "n" "h1" () (some "live"), .three "n" "h2" ()] 2,
      .publish 60 (some 60) [.four "n" "h1" () (some "live")] 1, consumeAll]
    (fun s => s.trace.map Prod.snd = [.forward, .forward, .duplicate]) (by decide)
  exact ⟨s, hrun, by simpa using hq, isolated_of_coherent hrun⟩

/-- Two records that differ only in their compute key: the second is dropped. -/
theorem contexts_mixed : ∃ s, execIf (act (fun _ => 0) true) (fun _ _ => true) (init 1024 60 : Log Unit)
    [.publish 60 (some 60) [.four "n" "h" () (some "live"), .four "n" "h" () (some "shadow")] 2,
      consumeAll] = some s ∧ ¬ Isolated s := by
  refine exists_execIf (fun s => s.forwarded = [⟨⟨"n", 60, "h"⟩, (), some "live"⟩] &&
      s.trace.any fun v => v.1.tag = some "shadow") (by decide) ?_
  intro s hq h
  simp only [Bool.and_eq_true, decide_eq_true_eq, List.any_eq_true] at hq
  obtain ⟨hf, ⟨r, v⟩, hr, htag⟩ := hq
  obtain ⟨r', hr', -, hsame⟩ := h.2.2 r v hr
  rw [hf, List.mem_singleton] at hr'
  subst hr'
  rw [htag] at hsame
  simp at hsame

end Qmtl.Gateway.CommitLog

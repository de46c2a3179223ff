import Qmtl.Gateway.CommitLog

/-! At-least-once delivery of the commit log.

The deduplicator remembers a record when it lets it through, before the processor has seen it, and
does not forget it when the processor fails. -/

namespace Qmtl.Gateway.CommitLog

open Lib

variable {κ π τ : Type}

/-- **At-least-once**: the committed offset of a partition is past a record only if a processor call
with that record, or one of the same identity, has returned. -/
def AtLeastOnce (s : State κ π τ) : Prop :=
  ∀ p offset r, offset < s.committed p → (s.log p)[offset]? = some (.record r) →
    ∃ d ∈ s.done, d.key = r.key

variable {commitOffsets : Bool} {s : State κ π τ}

lemma mem_polled_of_advance {batch : List (ℕ × ℕ)} {p offset : ℕ} {m : Message κ π τ}
    (hm : (s.log p)[offset]? = some m) (ho : offset < (s.advance batch).position p) :
    offset < s.position p ∨ m ∈ s.polled batch := by
  rcases Nat.lt_or_ge offset (s.position p) with h | h
  · exact .inl h
  · right
    simp only [State.advance] at ho
    cases hl : batch.lookup p with
    | none => simp [hl] at ho; omega
    | some n =>
      simp only [hl, Option.elim_some, State.take, List.length_take] at ho
      obtain ⟨l₁, l₂, rfl, -⟩ := List.lookup_eq_some_iff.mp hl
      refine List.mem_flatMap.mpr ⟨(p, n), by simp, List.mem_iff_getElem?.mpr ⟨offset - s.position p, ?_⟩⟩
      dsimp only [State.take]
      rw [List.getElem?_take_of_lt (by omega), List.getElem?_drop, ← hm]
      congr 1
      omega

lemma advance_within (batch : List (ℕ × ℕ)) {p : ℕ} (h : s.position p ≤ (s.log p).length) :
    (s.advance batch).position p ≤ (s.log p).length := by
  simp only [State.advance]
  cases batch.lookup p with
  | none => simpa using h
  | some n =>
    simp only [Option.elim_some, State.take, List.length_take, List.length_drop]
    omega

/-- The invariant of the consumer's runs. -/
structure Delivered (commitOffsets : Bool) (s : State κ π τ) : Prop where
  processed : AtLeastOnce s
  behind : commitOffsets = true → ∀ p, s.position p ≤ s.committed p
  within : ∀ p, s.committed p ≤ (s.log p).length ∧ s.position p ≤ (s.log p).length

lemma Delivered.append (h : Delivered commitOffsets s) (p : ℕ) (m : Message κ π τ) :
    Delivered commitOffsets (s.append p m) := by
  refine ⟨fun p' offset r ho hr => h.processed p' offset r ho ?_, h.behind, ?_⟩
  · by_cases hp : p' = p
    · subst hp
      have hlt : offset < (s.log p').length := lt_of_lt_of_le ho (h.within p').1
      simpa [State.append, List.getElem?_append_left hlt] using hr
    · simpa [State.append, hp] using hr
  · intro p'
    obtain ⟨h₁, h₂⟩ := h.within p'
    by_cases hp : p' = p
    · subst hp
      simp only [State.append, Function.update_self, List.length_append, List.length_singleton]
      exact ⟨by omega, by omega⟩
    · simpa [State.append, hp] using h.within p'

lemma Delivered.of_committed {s' : State κ π τ} (h : Delivered commitOffsets s) (hlog : s'.log = s.log)
    (hc : s'.committed = s.committed) (hd : s.done ⊆ s'.done)
    (hb : commitOffsets → ∀ p, s'.position p ≤ s.committed p) (hw : ∀ p, s'.position p ≤ (s.log p).length) :
    Delivered commitOffsets s' := by
  refine ⟨?_, fun hco p => hc ▸ hb hco p, ?_⟩
  · intro p offset r ho hr
    rw [hc] at ho
    rw [hlog] at hr
    obtain ⟨d, hmem, hk⟩ := h.processed p offset r ho hr
    exact ⟨d, hd hmem, hk⟩
  · intro p
    rw [hc, hlog]
    exact ⟨(h.within p).1, hw p⟩

variable [DecidableEq κ]

def remembered (s : State κ π τ) (clock : ℕ → ℕ × ℕ) (n : ℕ) (r : Rec κ π τ) : Bool :=
  s.seen.contains (clock n).1 r.key

def settled (commitOffsets : Bool) (s : State κ π τ) : Event κ π τ → Bool
  | .consume batch clock processorOk f =>
    match pollRaw (s.polled batch) with
    | .error _ => true
    | .ok raw =>
      !commitOffsets || f = .lost || raw.any Option.isNone ||
      (!processorOk && raw.zipIdx.any fun p => p.1.any fun r => !remembered s clock p.2 r) ||
      raw.zipIdx.all fun p => p.1.all fun r => !remembered s clock p.2 r || s.done.any fun d => d.key = r.key
  | _ => true

section Filter

variable {clock : ℕ → ℕ × ℕ} {seen : TtlCache κ} {raw : List (Option (Rec κ π τ))}

lemma filter_covers {n : ℕ} (h : (filter clock n seen raw).2.1 = none) {i : ℕ} {r : Rec κ π τ}
    (hi : raw[i]? = some (some r)) : seen.contains (clock (n + i)).1 r.key ∨
      ∃ d ∈ forwards (filter clock n seen raw).1, d.key = r.key := by
  induction raw generalizing n seen i with
  | nil => simp at hi
  | cons x rs ih =>
    cases x with
    | none => simp [filter] at h
    | some r₀ =>
      simp only [filter] at h ⊢
      split at h
      · -- dropped
        rename_i hc
        rw [if_pos hc]
        cases i with
        | zero =>
          simp only [List.getElem?_cons_zero, Option.some.injEq] at hi
          subst hi
          exact .inl hc
        | succ i =>
          rcases ih h hi with hl | ⟨d, hd, hk⟩
          · exact .inl (by rwa [show n + (i + 1) = n + 1 + i by omega])
          · exact .inr ⟨d, mem_forwards.mpr (.tail _ (mem_forwards.mp hd)), hk⟩
      · rename_i hc
        rw [if_neg hc]
        split at h
        · cases h
        · rename_i seen' hset
          have hr₀ : r₀ ∈ forwards ((r₀, Verdict.forward) :: (filter clock (n + 1) seen' rs).1) :=
            mem_forwards.mpr (.head _)
          cases i with
          | zero =>
            simp only [List.getElem?_cons_zero, Option.some.injEq] at hi
            subst hi
            exact .inr ⟨r₀, hr₀, rfl⟩
          | succ i =>
            rcases ih h hi with hl | ⟨d, hd, hk⟩
            · rcases TtlCache.contains_of_set hset hl with hl | hl
              · exact .inl (by rwa [show n + (i + 1) = n + 1 + i by omega])
              · exact .inr ⟨r₀, hr₀, hl.symm⟩
            · exact .inr ⟨d, mem_forwards.mpr (.tail _ (mem_forwards.mp hd)), hk⟩

lemma filter_hashable {n : ℕ} (h : (filter clock n seen raw).2.1 = none) : none ∉ raw := by
  induction raw generalizing n seen with
  | nil => simp
  | cons x rs ih =>
    cases x with
    | none => simp [filter] at h
    | some r =>
      simp only [filter] at h
      simp only [List.mem_cons, reduceCtorEq, false_or]
      split at h
      · exact ih h
      · split at h
        · cases h
        · exact ih h

end Filter

section Step

variable {s s' : State κ π τ} {commitOffsets processorOk : Bool} {batch : List (ℕ × ℕ)}
  {clock : ℕ → ℕ × ℕ} {f : Fate}

lemma consume_cases : ((s.consume commitOffsets batch clock processorOk f).committed = s.committed ∧
      ((s.consume commitOffsets batch clock processorOk f).position = s.committed ∨ commitOffsets = false ∧
        (s.consume commitOffsets batch clock processorOk f).position = (s.advance batch).position) ∧
      s.done ⊆ (s.consume commitOffsets batch clock processorOk f).done) ∨
    (∃ raw, pollRaw (s.polled batch) = .ok raw ∧ (filter clock 0 s.seen raw).2.1 = none ∧
      commitOffsets ∧ f ≠ .lost ∧ (forwards (filter clock 0 s.seen raw).1 = [] ∨ processorOk) ∧
      (s.consume commitOffsets batch clock processorOk f).position = (s.advance batch).position ∧
      (s.consume commitOffsets batch clock processorOk f).committed = (s.advance batch).position ∧
      (s.consume commitOffsets batch clock processorOk f).done =
        s.done ++ forwards (filter clock 0 s.seen raw).1) := by
  unfold State.consume
  cases hp : pollRaw (s.polled batch) with
  | error e => exact .inl ⟨rfl, .inl rfl, fun _ h => h⟩
  | ok raw =>
    dsimp only
    cases he : (filter clock 0 s.seen raw).2.1 with
    | some e => exact .inl ⟨rfl, .inl rfl, fun _ h => h⟩
    | none =>
      by_cases hr : forwards (filter clock 0 s.seen raw).1 = []
      · -- nothing to process
        rw [if_pos hr, if_neg (by simp [hr])]
        cases commitOffsets with
        | false => exact .inl ⟨rfl, .inr ⟨rfl, rfl⟩, fun _ h => h⟩
        | true =>
          cases f with
          | lost => exact .inl ⟨rfl, .inl rfl, fun _ h => h⟩
          | ok => exact .inr ⟨raw, rfl, he, rfl, nofun, .inl hr, rfl, rfl, by simp [hr]; rfl⟩
          | torn => exact .inr ⟨raw, rfl, he, rfl, nofun, .inl hr, rfl, rfl, by simp [hr]; rfl⟩
      · rw [if_neg hr]
        cases processorOk with
        | false =>
          rw [if_pos ⟨hr, rfl⟩]
          exact .inl ⟨rfl, .inl rfl, fun _ h => h⟩
        | true =>
          rw [if_neg (by simp)]
          cases commitOffsets with
          | false => exact .inl ⟨rfl, .inr ⟨rfl, rfl⟩, List.subset_append_left _ _⟩
          | true =>
            cases f with
            | lost => exact .inl ⟨rfl, .inl rfl, List.subset_append_left _ _⟩
            | ok => exact .inr ⟨raw, rfl, he, rfl, nofun, .inr rfl, rfl, rfl, rfl⟩
            | torn => exact .inr ⟨raw, rfl, he, rfl, nofun, .inr rfl, rfl, rfl, rfl⟩

lemma processed_of_settled {raw : List (Option (Rec κ π τ))}
    (hset : settled commitOffsets s (.consume batch clock processorOk f))
    (hp : pollRaw (s.polled batch) = .ok raw) (he : (filter clock 0 s.seen raw).2.1 = none)
    (hc : commitOffsets) (hf : f ≠ .lost)
    (hrec : forwards (filter clock 0 s.seen raw).1 = [] ∨ processorOk) {r : Rec κ π τ}
    (hr : .record r ∈ s.polled batch) : ∃ d ∈ s.done ++ forwards (filter clock 0 s.seen raw).1, d.key = r.key := by
  obtain ⟨i, hi⟩ := List.mem_iff_getElem?.mp (((mem_of_pollRaw hp).1 r).mpr hr)
  rcases filter_covers he hi with hl | ⟨d, hd, hk⟩
  · rw [Nat.zero_add] at hl
    simp only [settled, hp, hc, hf, Bool.not_true, Bool.false_or, decide_false, Bool.or_eq_true,
      Bool.and_eq_true] at hset
    rcases hset with (hn | ⟨hno, hnew⟩) | hall
    · -- a record that cannot be hashed would have raised
      obtain ⟨x, hx, hx'⟩ := List.any_eq_true.mp hn
      rw [Option.isNone_iff_eq_none.mp hx'] at hx
      exact absurd hx (filter_hashable he)
    · -- a new record would have been forwarded to a processor that fails
      obtain ⟨⟨x, j⟩, hxj, hx⟩ := List.any_eq_true.mp hnew
      obtain ⟨r', rfl, hr'⟩ := Option.any_eq_true _ _ |>.mp hx
      have hj : raw[j]? = some (some r') := List.mem_zipIdx_iff_getElem?.mp hxj
      rcases filter_covers he hj with hl' | ⟨d, hd, -⟩
      · rw [Nat.zero_add] at hl'
        simp [remembered, hl'] at hr'
      · rcases hrec with hrec | hrec
        · rw [hrec] at hd
          cases hd
        · rw [hrec] at hno
          cases hno
    · have := List.all_eq_true.mp hall (some r, i) (List.mem_zipIdx_iff_getElem?.mpr hi)
      simp only [Option.all_some, remembered, hl, Bool.not_true, Bool.false_or, List.any_eq_true,
        decide_eq_true_eq] at this
      obtain ⟨d, hd, hk⟩ := this
      exact ⟨d, List.mem_append_left _ hd, hk⟩
  · exact ⟨d, List.mem_append_right _ hd, hk⟩

end Step

lemma Delivered.consume {processorOk : Bool} {batch : List (ℕ × ℕ)} {clock : ℕ → ℕ × ℕ} {f : Fate}
    (h : Delivered commitOffsets s) (hset : settled commitOffsets s (.consume batch clock processorOk f)) :
    Delivered commitOffsets (s.consume commitOffsets batch clock processorOk f) := by
  rcases consume_cases (s := s) (f := f) with
    ⟨hc, hpos, hd⟩ | ⟨raw, hp, he, hco, hf, hrec, hpos, hcom, hd⟩
  · refine h.of_committed consume_log hc hd ?_ ?_
    · intro hco p
      rcases hpos with hpos | ⟨hno, -⟩
      · rw [hpos]
      · rw [hco] at hno
        cases hno
    · intro p
      rcases hpos with hpos | ⟨-, hpos⟩
      · rw [hpos]
        exact (h.within p).1
      · rw [hpos]
        exact advance_within batch (h.within p).2
  · refine ⟨?_, fun _ p => by rw [hpos, hcom], ?_⟩
    · intro p offset r ho hr
      rw [hcom] at ho
      rw [consume_log] at hr
      rw [hd]
      rcases mem_polled_of_advance hr ho with hlt | hmem
      · obtain ⟨d, hmem, hk⟩ := h.processed p offset r (lt_of_lt_of_le hlt (h.behind hco p)) hr
        exact ⟨d, List.mem_append_left _ hmem, hk⟩
      · exact processed_of_settled hset hp he hco hf hrec hmem
    · intro p
      rw [hpos, hcom, consume_log]
      exact ⟨advance_within batch (h.within p).2, advance_within batch (h.within p).2⟩

lemma Delivered.step {s' : State κ π τ} {ev : Event κ π τ} (h : Delivered commitOffsets s)
    (hset : settled commitOffsets s ev) (hs : step commitOffsets s ev = some s') : Delivered commitOffsets s' := by
  cases ev with
  | append p m =>
    cases hs
    exact h.append p m
  | redeliver p offset =>
    simp only [CommitLog.step] at hs
    split at hs
    · rename_i hle
      cases hs
      refine h.of_committed rfl rfl (fun _ h => h) ?_ ?_
      · intro hco p'
        by_cases hp : p' = p
        · subst hp
          simpa using hle
        · simpa [hp] using h.behind hco p'
      · intro p'
        by_cases hp : p' = p
        · subst hp
          simpa using hle.trans (h.within p').1
        · simpa [hp] using (h.within p').2
    · cases hs
  | restart =>
    cases hs
    exact h.of_committed rfl rfl (fun _ h => h) (fun _ _ => le_rfl) fun p => (h.within p).1
  | consume batch clock processorOk f =>
    simp only [CommitLog.step] at hs
    split at hs
    · cases hs
      exact h.consume hset
    · cases hs

/-- **The commit log is at-least-once in every run of settled steps.** -/
theorem atLeastOnce_of_settled {maxsize ttl : ℕ} {commitOffsets : Bool} {s : State κ π τ}
    (h : Run (step commitOffsets) (fun s ev => settled commitOffsets s ev = true) (init maxsize ttl) s) :
    AtLeastOnce s := by
  have h₀ : Delivered commitOffsets (init maxsize ttl : State κ π τ) :=
    ⟨fun _ _ _ ho => absurd ho (Nat.not_lt_zero _), fun _ _ => le_rfl, fun _ => ⟨le_rfl, le_rfl⟩⟩
  exact (h.invariant h₀ fun _ _ _ hI hP hs => hI.step hP hs).processed

def consumeOnce (n : ℕ) (processorOk : Bool) : Event String Unit Unit :=
  .consume [(0, 1)] (fun _ => (n, n)) processorOk .ok

def recordOf (k : String) : Message String Unit Unit := .record ⟨k, (), ()⟩

/-- The processor fails on a record, which comes again when the deduplicator has forgotten it. -/
theorem atLeastOnce_of_settled_expired :
    ∃ s : State String Unit Unit, Run (step true) (fun s ev => settled true s ev = true) (init 1024 60) s ∧
      s.committed 0 = 2 ∧ AtLeastOnce s := by
  obtain ⟨s, hrun, hq⟩ := exists_run (step true) (init 1024 60 : State String Unit Unit) (settled true)
    [.append 0 (recordOf "a"), .append 0 (recordOf "b"), consumeOnce 0 false, consumeOnce 60 true,
      consumeOnce 61 true] (fun s => s.committed 0 = 2) (by decide)
  exact ⟨s, hrun, by simpa using hq, atLeastOnce_of_settled hrun⟩

/-- The processor fails, the record comes again within the cached time, is dropped, and its offset
is committed. -/
theorem committed_unprocessed : ∃ s, execIf (step true) (fun _ _ => true) (init 1024 60 : State String Unit Unit)
      [.append 0 (recordOf "a"), consumeOnce 0 false, consumeOnce 1 true] = some s ∧ ¬ AtLeastOnce s := by
  refine exists_execIf (fun s => s.committed 0 = 1 && (s.log 0)[0]? = some (recordOf "a") && s.done.isEmpty)
    (by decide) ?_
  intro s hq h
  simp only [Bool.and_eq_true, decide_eq_true_eq, List.isEmpty_iff] at hq
  obtain ⟨⟨hc, hl⟩, hd⟩ := hq
  obtain ⟨d, hmem, -⟩ := h 0 0 _ (by rw [hc]; exact Nat.one_pos) hl
  rw [hd] at hmem
  cases hmem

end Qmtl.Gateway.CommitLog

import Mathlib.Data.List.Infix
import Mathlib.Data.Rat.Defs
import Mathlib.Tactic

/-!
`AsyncCircuitBreaker`: the calls it lets pass run side by side, and it sees them end one after another.
Its callbacks return: an `on_failure` that raises, which skips the opening, is left out.
-/

namespace Qmtl.Foundation.CircuitBreaker

inductive Callback where
  | onFailure (failures : ℕ)
  | onOpen
  | onClose
  deriving DecidableEq

structure Breaker where
  maxFailures : ℤ
  failures : ℕ := 0
  openedAt : Option ℚ := none

/-- How a call ends. What is no `Exception`, such as a cancellation, passes the breaker by. -/
inductive Ending where
  | returned
  | failed (now : ℚ)
  | cancelled

namespace Breaker

variable (b : Breaker)

def isOpen : Bool := b.openedAt.isSome

def reset : Breaker × List Callback :=
  ({ b with openedAt := none, failures := 0 }, if b.isOpen then [.onClose] else [])

def failed (now : ℚ) : Breaker × List Callback :=
  let b := { b with failures := b.failures + 1 }
  if b.maxFailures ≤ b.failures ∧ b.openedAt = none then
    ({ b with openedAt := some now }, [.onFailure b.failures, .onOpen])
  else (b, [.onFailure b.failures])

def ended : Ending → Breaker × List Callback
  | .returned => ({ b with failures := 0 }, [])
  | .failed now => b.failed now
  | .cancelled => (b, [])

end Breaker

inductive Event where
  | call
  | finish (ending : Ending)
  | reset

structure State where
  breaker : Breaker
  running : ℕ := 0
  callbacks : List Callback := []

def State.after (s : State) (r : Breaker × List Callback) (running : ℕ) : State :=
  ⟨r.1, running, s.callbacks ++ r.2⟩

/-- One step of the callers; `none` where no call is running that could end. -/
def step (s : State) : Event → Option State
  | .call => if s.breaker.isOpen then some s else some { s with running := s.running + 1 }
  | .finish ending => if s.running = 0 then none else some (s.after (s.breaker.ended ending) (s.running - 1))
  | .reset => some (s.after s.breaker.reset s.running)

def exec (s : State) (es : List Event) : Option State := es.foldlM step s

def noted (os : List Bool) : Event → List Bool
  | .reset => []
  | .finish .returned => os ++ [false]
  | .finish (.failed _) => os ++ [true]
  | _ => os

/-- Which of the calls that returned or failed since the last reset failed. -/
def outcomes (es : List Event) : List Bool := es.foldl noted []

def toggles (cs : List Callback) : List Callback := cs.filter fun c => c = .onOpen ∨ c = .onClose

/-- `on_open` and `on_close` in turn. -/
def alternating (n : ℕ) : List Callback := (List.range n).map fun i => if i % 2 = 0 then .onOpen else .onClose

def threshold (maxFailures : ℤ) : ℕ := max 1 maxFailures.toNat

section Outcomes

variable {k n : ℕ} {os : List Bool}

lemma replicate_suffix_concat_true : List.replicate (k + 1) true <:+ os ++ [true] ↔ List.replicate k true <:+ os := by
  rw [List.replicate_succ', List.suffix_concat_iff]
  simp

lemma replicate_suffix_concat_false : List.replicate k true <:+ os ++ [false] ↔ k = 0 := by
  cases k with
  | zero => simp
  | succ k => simp [List.replicate_succ', List.suffix_concat_iff]

lemma replicate_infix_concat_true : List.replicate (n + 1) true <:+: os ++ [true] ↔
    List.replicate (n + 1) true <:+: os ∨ List.replicate n true <:+ os := by
  rw [List.infix_concat_iff, replicate_suffix_concat_true, or_comm]

lemma replicate_infix_concat_false :
    List.replicate (n + 1) true <:+: os ++ [false] ↔ List.replicate (n + 1) true <:+: os := by
  rw [List.infix_concat_iff, replicate_suffix_concat_false]
  simp

end Outcomes

lemma alternating_succ (n : ℕ) :
    alternating (n + 1) = alternating n ++ [if n % 2 = 0 then Callback.onOpen else .onClose] := by
  rw [alternating, List.range_succ, List.map_append]
  rfl

structure Tracks (b : Breaker) (maxFailures : ℤ) (os : List Bool) (callbacks : List Callback) : Prop where
  limit : b.maxFailures = maxFailures
  count : ∀ k, k ≤ b.failures ↔ List.replicate k true <:+ os
  trips : b.isOpen = true ↔ List.replicate (threshold maxFailures) true <:+: os
  turns : ∃ n, toggles callbacks = alternating n ∧ (b.isOpen = true ↔ n % 2 = 1)

variable {b : Breaker} {maxFailures : ℤ} {os : List Bool} {callbacks : List Callback}

lemma toggles_append (cs ds : List Callback) : toggles (cs ++ ds) = toggles cs ++ toggles ds := List.filter_append ..

lemma Tracks.reset (h : Tracks b maxFailures os callbacks) :
    Tracks b.reset.1 maxFailures [] (callbacks ++ b.reset.2) := by
  obtain ⟨n, hn, hodd⟩ := h.turns
  refine ⟨h.limit, fun k => ?_, ?_, ?_⟩
  · simp [Breaker.reset]
  · have hpos : threshold maxFailures ≠ 0 := by unfold threshold; omega
    simp [Breaker.reset, Breaker.isOpen, List.infix_nil, hpos]
  · rw [toggles_append, hn]
    cases hopen : b.isOpen with
    | true =>
      refine ⟨n + 1, ?_, ?_⟩
      · rw [alternating_succ, if_neg (by have := hodd.mp hopen; omega)]
        simp [Breaker.reset, hopen, toggles]
      · have := hodd.mp hopen
        simp [Breaker.reset, Breaker.isOpen]
        omega
    | false =>
      refine ⟨n, ?_, ?_⟩
      · simp [Breaker.reset, hopen, toggles]
      · rw [hopen] at hodd
        simpa [Breaker.reset, Breaker.isOpen] using hodd

lemma Tracks.returned (h : Tracks b maxFailures os callbacks) :
    Tracks { b with failures := 0 } maxFailures (os ++ [false]) callbacks := by
  obtain ⟨n, hn⟩ : ∃ n, threshold maxFailures = n + 1 := ⟨_, (Nat.succ_pred (by unfold threshold; omega)).symm⟩
  refine ⟨h.limit, fun k => ?_, ?_, h.turns⟩
  · rw [replicate_suffix_concat_false]
    exact Nat.le_zero
  · have ht := h.trips
    rw [hn] at ht ⊢
    rw [replicate_infix_concat_false]
    exact ht

lemma Tracks.failed (h : Tracks b maxFailures os callbacks) (now : ℚ) :
    Tracks (b.failed now).1 maxFailures (os ++ [true]) (callbacks ++ (b.failed now).2) := by
  obtain ⟨n, hn⟩ : ∃ n, threshold maxFailures = n + 1 := ⟨_, (Nat.succ_pred (by unfold threshold; omega)).symm⟩
  have hl := h.limit
  have ht := h.trips
  obtain ⟨m, hm, hodd⟩ := h.turns
  have hcn : ∀ k, k ≤ b.failures + 1 ↔ List.replicate k true <:+ os ++ [true] := by
    intro k
    cases k with
    | zero => simp
    | succ k => rw [replicate_suffix_concat_true, ← h.count, Nat.succ_le_succ_iff]
  -- the threshold is reached with this failure or was before
  have hr : maxFailures ≤ (b.failures + 1 : ℕ) ↔ List.replicate n true <:+ os := by
    rw [← h.count]
    unfold threshold at hn
    omega
  unfold Breaker.failed
  dsimp only
  split
  · rename_i hop
    rw [hl] at hop
    have hc : b.isOpen = false := by rw [Breaker.isOpen, hop.2]; rfl
    refine ⟨hl, hcn, ?_, m + 1, ?_, ?_⟩
    · rw [hn, replicate_infix_concat_true]
      exact iff_of_true rfl (.inr (hr.mp hop.1))
    · rw [alternating_succ, toggles_append, hm, if_pos (by rw [hc] at hodd; simp at hodd; omega)]
      rfl
    · rw [hc] at hodd
      simp only [Breaker.isOpen, Option.isSome_some, true_iff]
      simp at hodd
      omega
  · rename_i hk
    rw [hl] at hk
    refine ⟨hl, hcn, ?_, m, ?_, hodd⟩
    · rw [hn, replicate_infix_concat_true, ← hn, ← ht]
      refine ⟨.inl, fun hor => hor.elim id fun hs => ?_⟩
      by_contra hc
      refine hk ⟨hr.mpr hs, ?_⟩
      simpa [Breaker.isOpen] using hc
    · rw [toggles_append, hm]
      exact List.append_nil _

variable {es : List Event}

lemma exec_concat {s : State} {e : Event} : exec s (es ++ [e]) = (exec s es).bind fun s => step s e := by
  simp [exec, List.foldlM_append]

lemma outcomes_concat (es : List Event) (e : Event) : outcomes (es ++ [e]) = noted (outcomes es) e := by
  rw [outcomes, List.foldl_append]
  rfl

lemma tracks_exec {s : State} (h : exec ⟨{ maxFailures }, 0, []⟩ es = some s) :
    Tracks s.breaker maxFailures (outcomes es) s.callbacks := by
  induction es using List.reverseRecOn generalizing s with
  | nil =>
    cases h
    refine ⟨rfl, fun k => ?_, ?_, 0, rfl, by simp [Breaker.isOpen]⟩
    · simp [outcomes]
    · have hpos : threshold maxFailures ≠ 0 := by unfold threshold; omega
      simp [outcomes, Breaker.isOpen, List.infix_nil, hpos]
  | append_singleton es e ih =>
    rw [exec_concat] at h
    obtain ⟨s₁, hs₁, hs⟩ := Option.bind_eq_some_iff.mp h
    have hb := ih hs₁
    rw [outcomes_concat]
    cases e with
    | call =>
      simp only [step] at hs
      split at hs <;> cases hs <;> exact hb
    | reset =>
      cases hs
      exact hb.reset
    | finish ending =>
      simp only [step] at hs
      split at hs
      · cases hs
      · cases hs
        cases ending with
        | returned => simpa [State.after, Breaker.ended, noted] using hb.returned
        | failed now => exact hb.failed now
        | cancelled => simpa [State.after, Breaker.ended, noted] using hb

/-- **The breaker is open exactly when, since the last reset, as many calls in a row have failed as it allows**,
whatever ran side by side, and `on_open` and `on_close` are called in turn. -/
theorem breaker_open_iff {s : State} (h : exec ⟨{ maxFailures }, 0, []⟩ es = some s) :
    (s.breaker.isOpen = true ↔ List.replicate (threshold maxFailures) true <:+: outcomes es) ∧
      ∃ n, toggles s.callbacks = alternating n ∧ (s.breaker.isOpen = true ↔ n % 2 = 1) :=
  ⟨(tracks_exec h).trips, (tracks_exec h).turns⟩

/-- Two of three calls side by side fail, and the third returns behind them: the breaker stays open. -/
theorem breaker_open_iff_two : ∃ s, exec ⟨{ maxFailures := 2 }, 0, []⟩
    [.call, .call, .call, .finish (.failed 1), .finish (.failed 2), .finish .returned] = some s ∧
      s.breaker.isOpen := by
  obtain ⟨s, h⟩ : ∃ s, exec ⟨{ maxFailures := 2 }, 0, []⟩
    [.call, .call, .call, .finish (.failed 1), .finish (.failed 2), .finish .returned] = some s := ⟨_, rfl⟩
  exact ⟨s, h, (breaker_open_iff h).1.mpr ⟨[], [false], rfl⟩⟩

end Qmtl.Foundation.CircuitBreaker

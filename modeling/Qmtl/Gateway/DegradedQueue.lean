import Qmtl.Gateway.Backend

/-! The local queue of a degraded gateway: any number of `StrategyQueue.enqueue` calls and the
`DegradationManager.update` cycles on one event loop, suspended at every Redis call and at the health
checks. `_loop` alone calls `update`, and awaits it before the next, so that one cycle at most is in
flight. -/

namespace Qmtl.Gateway.DegradedQueue

open Lib

/-! ### The program -/

/-- The flags that `_check_dependencies` sets. -/
structure Health where
  redisOk : Bool
  dbOk : Bool
  dagOk : Bool
  worldOk : Bool
  deriving DecidableEq, Repr

def Health.failures (h : Health) : ℕ := [h.redisOk, h.dbOk, h.dagOk, h.worldOk].countP (! ·)

def evaluate (h : Health) (cpu : ℚ) : DegradationLevel :=
  if cpu > 95 ∨ h.failures ≥ 3 then .static
  else if cpu > 85 ∨ h.failures ≥ 2 then .minimal
  else if h.failures ≥ 1 then .partial_
  else .normal

/-- A queued strategy, with the number of the `enqueue` call that queued it. -/
abbrev Item := ℕ × String

/-- An `enqueue` call: its `RPUSH` is under way, and has reached Redis or not; it has returned, or
raised. -/
inductive Call where
  | pushing (sid : String) (arrived : Bool)
  | returned (sid : String)
  | raised (sid : String)
  deriving DecidableEq, Repr

/-- An `update` in flight: at the health checks, or at the `RPUSH` of the flush. -/
inductive Cycle where
  | checking
  | flushing (newLevel : DegradationLevel) (pushed : List Item) (arrived : Bool)
  deriving DecidableEq, Repr

structure State where
  level : DegradationLevel
  health : Health
  localQueue : List Item
  redis : List Item
  calls : ℕ → Option Call
  cycle : Option Cycle

def State.init : State := ⟨.normal, ⟨true, true, true, true⟩, [], [], fun _ => none, none⟩

inductive Event where
  | enqueue (c : ℕ) (sid : String)
  | pushArrives (c : ℕ)
  | pushEnds (c : ℕ) (ok : Bool)
  | update
  | checked (health : Health) (cpu : ℚ)
  | flushArrives
  | flushEnds (ok : Bool)

/-- One stretch of the event loop, from one suspension to the next. An `RPUSH` that returns has reached
Redis; one that fails may have. -/
def step (s : State) : Event → Option State
  | .enqueue c sid =>
    if (s.calls c).isSome then none
    else if s.level = .partial_ ∧ s.health.dagOk = false then
      some { s with
        localQueue := s.localQueue ++ [(c, sid)]
        calls := Function.update s.calls c (some (.returned sid)) }
    else some { s with calls := Function.update s.calls c (some (.pushing sid false)) }
  | .pushArrives c =>
    match s.calls c with
    | some (.pushing sid false) =>
      some { s with
        redis := s.redis ++ [(c, sid)]
        calls := Function.update s.calls c (some (.pushing sid true)) }
    | _ => none
  | .pushEnds c ok =>
    match s.calls c with
    | some (.pushing sid arrived) =>
      if ok && !arrived then none
      else some { s with
        calls := Function.update s.calls c (some (if ok then .returned sid else .raised sid)) }
    | _ => none
  | .update => if s.cycle.isSome then none else some { s with cycle := some .checking }
  | .checked health cpu =>
    match s.cycle with
    | some .checking =>
      if s.localQueue = [] ∨ health.dagOk = false ∨ health.redisOk = false then
        -- nothing to flush, or nowhere: the cycle ends without another suspension
        some { s with health := health, level := evaluate health cpu, cycle := none }
      else some { s with
        health := health
        cycle := some (.flushing (evaluate health cpu) s.localQueue false) }
    | _ => none
  | .flushArrives =>
    match s.cycle with
    | some (.flushing newLevel pushed false) =>
      some { s with redis := s.redis ++ pushed, cycle := some (.flushing newLevel pushed true) }
    | _ => none
  | .flushEnds ok =>
    match s.cycle with
    | some (.flushing newLevel _ arrived) =>
      if ok && !arrived then none
      else some { s with
        localQueue := if ok then [] else s.localQueue
        level := newLevel
        cycle := none }
    | _ => none

/-! ### What is asked of it -/

/-- Every strategy whose `enqueue` has returned is in Redis or in the local queue. -/
def NoLoss (s : State) : Prop :=
  ∀ c sid, s.calls c = some (.returned sid) → (c, sid) ∈ s.redis ∨ (c, sid) ∈ s.localQueue

/-- No `enqueue` was pushed twice. -/
def AtMostOnce (s : State) : Prop := (s.redis.map Prod.fst).Nodup

/-- An `RPUSH` that fails has not reached Redis. -/
def Effectless (s : State) : Event → Prop
  | .pushEnds c false => ∀ sid, s.calls c ≠ some (.pushing sid true)
  | .flushEnds false => ∀ newLevel pushed, s.cycle ≠ some (.flushing newLevel pushed true)
  | _ => True

/-- What each step can do, case by case. -/
inductive Step (s : State) : Event → State → Prop
  | queued {c : ℕ} {sid : String} (new : s.calls c = none) (down : s.health.dagOk = false) :
    Step s (.enqueue c sid) { s with
      localQueue := s.localQueue ++ [(c, sid)]
      calls := Function.update s.calls c (some (.returned sid)) }
  | push {c : ℕ} {sid : String} (new : s.calls c = none) :
    Step s (.enqueue c sid) { s with calls := Function.update s.calls c (some (.pushing sid false)) }
  | pushArrives {c : ℕ} {sid : String} (under : s.calls c = some (.pushing sid false)) :
    Step s (.pushArrives c) { s with
      redis := s.redis ++ [(c, sid)]
      calls := Function.update s.calls c (some (.pushing sid true)) }
  | returns {c : ℕ} {sid : String} (under : s.calls c = some (.pushing sid true)) :
    Step s (.pushEnds c true) { s with calls := Function.update s.calls c (some (.returned sid)) }
  | raises {c : ℕ} {sid : String} {a : Bool} (under : s.calls c = some (.pushing sid a)) :
    Step s (.pushEnds c false) { s with calls := Function.update s.calls c (some (.raised sid)) }
  | update (idle : s.cycle = none) : Step s .update { s with cycle := some .checking }
  | ends {health : Health} {cpu : ℚ} (under : s.cycle = some .checking) :
    Step s (.checked health cpu) { s with health := health, level := evaluate health cpu, cycle := none }
  | flush {health : Health} {cpu : ℚ} (under : s.cycle = some .checking) (up : health.dagOk = true) :
    Step s (.checked health cpu) { s with
      health := health
      cycle := some (.flushing (evaluate health cpu) s.localQueue false) }
  | flushArrives {level : DegradationLevel} {pushed : List Item}
    (under : s.cycle = some (.flushing level pushed false)) :
    Step s .flushArrives { s with
      redis := s.redis ++ pushed
      cycle := some (.flushing level pushed true) }
  | flushed {level : DegradationLevel} {pushed : List Item}
    (under : s.cycle = some (.flushing level pushed true)) :
    Step s (.flushEnds true) { s with localQueue := [], level := level, cycle := none }
  | fails {level : DegradationLevel} {pushed : List Item} {a : Bool}
    (under : s.cycle = some (.flushing level pushed a)) :
    Step s (.flushEnds false) { s with level := level, cycle := none }

variable {s s' : State} {e : Event}

lemma step_cases (h : step s e = some s') : Step s e s' := by
  cases e with
  | enqueue c sid =>
    simp only [step] at h
    split at h
    · cases h
    · rename_i hnew
      have hnew : s.calls c = none := by simpa using hnew
      split at h
      · rename_i hd
        cases h
        exact .queued hnew hd.2
      · cases h
        exact .push hnew
  | pushArrives c =>
    simp only [step] at h
    split at h
    · rename_i hu
      cases h
      exact .pushArrives hu
    · cases h
  | pushEnds c ok =>
    simp only [step] at h
    split at h
    · rename_i sid arrived hu
      split at h
      · cases h
      · rename_i hok
        cases h
        cases ok with
        | true =>
          obtain rfl : arrived := by simpa using hok
          exact .returns hu
        | false => exact .raises hu
    · cases h
  | update =>
    simp only [step] at h
    split at h
    · cases h
    · rename_i hidle
      cases h
      exact .update (by simpa using hidle)
  | checked health cpu =>
    simp only [step] at h
    split at h
    · rename_i hu
      split at h
      · cases h
        exact .ends hu
      · rename_i hf
        push Not at hf
        cases h
        exact .flush hu (by simpa using hf.2.1)
    · cases h
  | flushArrives =>
    simp only [step] at h
    split at h
    · rename_i hu
      cases h
      exact .flushArrives hu
    · cases h
  | flushEnds ok =>
    simp only [step] at h
    split at h
    · rename_i level pushed arrived hu
      split at h
      · cases h
      · rename_i hok
        cases h
        cases ok with
        | true =>
          obtain rfl : arrived := by simpa using hok
          exact .flushed hu
        | false => exact .fails hu
    · cases h

/-- The invariant: while a flush is under way the DAG Manager is well, so that nothing is queued behind
its snapshot and what it clears is what it pushed. -/
structure Kept (s : State) : Prop where
  snapshot : ∀ level pushed a, s.cycle = some (.flushing level pushed a) →
    s.health.dagOk = true ∧ pushed = s.localQueue
  flushed : ∀ level pushed, s.cycle = some (.flushing level pushed true) → ∀ x ∈ pushed, x ∈ s.redis
  pushed : ∀ c sid, s.calls c = some (.pushing sid true) → (c, sid) ∈ s.redis
  noLoss : NoLoss s

lemma Kept.call (h : Kept s) {c : ℕ} {call : Call} (hcl : s'.calls = Function.update s.calls c (some call))
    (hcc : s'.cycle = s.cycle) (hh : s'.health = s.health) (hq : s'.localQueue = s.localQueue)
    (hm : ∀ x ∈ s.redis, x ∈ s'.redis)
    (hca : ∀ sid, call = .pushing sid true ∨ call = .returned sid → (c, sid) ∈ s'.redis) : Kept s' := by
  refine ⟨?_, ?_, ?_, ?_⟩
  · rw [hcc, hh, hq]
    exact h.snapshot
  · rw [hcc]
    exact fun level pushed hk x hx => hm x (h.flushed level pushed hk x hx)
  · intro c' sid hc
    rw [hcl] at hc
    by_cases heq : c' = c
    · subst heq
      rw [Function.update_self] at hc
      exact hca sid (.inl (Option.some.inj hc))
    · rw [Function.update_of_ne heq] at hc
      exact hm _ (h.pushed c' sid hc)
  · intro c' sid hc
    rw [hcl] at hc
    by_cases heq : c' = c
    · subst heq
      rw [Function.update_self] at hc
      exact .inl (hca sid (.inr (Option.some.inj hc)))
    · rw [Function.update_of_ne heq] at hc
      rw [hq]
      exact (h.noLoss c' sid hc).imp (hm _) id

lemma Kept.move (h : Kept s) (hcl : s'.calls = s.calls) (hm : ∀ x ∈ s.redis, x ∈ s'.redis)
    (hq : ∀ x ∈ s.localQueue, x ∈ s'.redis ∨ x ∈ s'.localQueue)
    (hf : ∀ level pushed a, s'.cycle = some (.flushing level pushed a) →
      s'.health.dagOk ∧ pushed = s'.localQueue ∧ (a → ∀ x ∈ pushed, x ∈ s'.redis)) : Kept s' := by
  refine ⟨?_, ?_, ?_, ?_⟩
  · intro level pushed a hc
    obtain ⟨hup, heq, -⟩ := hf level pushed a hc
    exact ⟨hup, heq⟩
  · intro level pushed hc
    exact (hf level pushed true hc).2.2 rfl
  · intro c sid hc
    rw [hcl] at hc
    exact hm _ (h.pushed c sid hc)
  · intro c sid hc
    rw [hcl] at hc
    rcases h.noLoss c sid hc with hr | hl
    · exact .inl (hm _ hr)
    · exact hq _ hl

lemma Kept.step (h : Kept s) (hs : Step s e s') : Kept s' := by
  cases hs with
  | @queued c sid new down =>
    -- no flush is under way while the DAG Manager is not well
    have hid : ∀ level pushed a, s.cycle ≠ some (.flushing level pushed a) := by
      intro level pushed a hk
      have hup := (h.snapshot level pushed a hk).1
      rw [down] at hup
      cases hup
    refine ⟨fun level pushed a hk => absurd hk (hid level pushed a),
      fun level pushed hk => absurd hk (hid level pushed true), ?_, ?_⟩
    · intro c' sid' hc
      by_cases heq : c' = c
      · subst heq
        simp at hc
      · exact h.pushed c' sid' (by simpa [heq] using hc)
    · intro c' sid' hc
      by_cases heq : c' = c
      · subst heq
        obtain rfl : sid = sid' := by simpa using hc
        exact .inr (by simp)
      · rcases h.noLoss c' sid' (by simpa [heq] using hc) with hr | hl
        · exact .inl hr
        · exact .inr (List.mem_append_left _ hl)
  | push new => exact h.call rfl rfl rfl rfl (fun _ hx => hx) (by simp)
  | pushArrives under =>
    refine h.call rfl rfl rfl rfl (fun _ hx => List.mem_append_left _ hx) ?_
    intro sid hsid
    simp only [Call.pushing.injEq, and_true, reduceCtorEq, or_false] at hsid
    simp [hsid]
  | @returns c sid under =>
    refine h.call rfl rfl rfl rfl (fun _ hx => hx) ?_
    intro sid' hsid
    simp only [reduceCtorEq, Call.returned.injEq, false_or] at hsid
    exact hsid ▸ h.pushed c sid under
  | raises under => exact h.call rfl rfl rfl rfl (fun _ hx => hx) (by simp)
  | update idle => exact h.move rfl (fun _ hx => hx) (fun _ hx => .inr hx) (by simp)
  | ends under => exact h.move rfl (fun _ hx => hx) (fun _ hx => .inr hx) (by simp)
  | flush under up =>
    refine h.move rfl (fun _ hx => hx) (fun _ hx => .inr hx) ?_
    intro level pushed a hc
    obtain ⟨-, rfl, rfl⟩ := Cycle.flushing.inj (Option.some.inj hc)
    exact ⟨up, rfl, by simp⟩
  | flushArrives under =>
    obtain ⟨hup, hsn⟩ := h.snapshot _ _ _ under
    refine h.move rfl (fun _ hx => List.mem_append_left _ hx) (fun _ hx => .inr hx) ?_
    intro level' pushed' a hc
    obtain ⟨-, rfl, -⟩ := Cycle.flushing.inj (Option.some.inj hc)
    exact ⟨hup, hsn, fun _ x hx => List.mem_append_right _ hx⟩
  | flushed under =>
    -- what is cleared is what was pushed
    obtain ⟨-, hsn⟩ := h.snapshot _ _ _ under
    refine h.move rfl (fun _ hx => hx) ?_ (by simp)
    intro x hx
    rw [← hsn] at hx
    exact .inl (h.flushed _ _ under x hx)
  | fails under => exact h.move rfl (fun _ hx => hx) (fun _ hx => .inr hx) (by simp)

/-! ### Nothing is pushed twice -/

def Unflushed (s : State) : Prop := ∀ level pushed, s.cycle ≠ some (.flushing level pushed true)

def Waiting (s : State) (c : ℕ) : Prop := s.calls c = none ∨ ∃ sid, s.calls c = some (.pushing sid false)

/-- The invariant of runs in which failures have no effect besides: what is queued is not in Redis, unless
its flush has just got there. -/
structure Once (s : State) : Prop where
  kept : Kept s
  redis : (s.redis.map Prod.fst).Nodup
  queue : (s.localQueue.map Prod.fst).Nodup
  apart : Unflushed s → ∀ c ∈ s.localQueue.map Prod.fst, c ∉ s.redis.map Prod.fst
  waiting : ∀ c, Waiting s c → c ∉ s.redis.map Prod.fst ∧ c ∉ s.localQueue.map Prod.fst

lemma waiting_of_update {c c' : ℕ} {call : Call} (hca : s'.calls = Function.update s.calls c (some call))
    (hold : Waiting s c ∨ ∀ sid, call ≠ .pushing sid false) (h : Waiting s' c') :
    Waiting s c' ∧ (c' = c → ∃ sid, call = .pushing sid false) := by
  unfold Waiting at h
  rw [hca] at h
  by_cases heq : c' = c
  · subst heq
    rw [Function.update_self] at h
    obtain ⟨sid, hsid⟩ := h.resolve_left (by simp)
    have hcl := Option.some.inj hsid
    exact ⟨hold.resolve_right fun hne => hne sid hcl, fun _ => ⟨sid, hcl⟩⟩
  · rw [Function.update_of_ne heq] at h
    exact ⟨h, fun hc => absurd hc heq⟩

lemma Once.frame (h : Once s) (hk : Kept s') (hr : s'.redis = s.redis)
    (hq : s'.localQueue = s.localQueue) (hun : Unflushed s' → Unflushed s)
    (hw : ∀ c, Waiting s' c → Waiting s c) : Once s' := by
  refine ⟨hk, ?_, ?_, ?_, ?_⟩
  · rw [hr]
    exact h.redis
  · rw [hq]
    exact h.queue
  · rw [hr, hq]
    exact fun hs => h.apart (hun hs)
  · rw [hr, hq]
    exact fun c hc => h.waiting c (hw c hc)

lemma Once.step (h : Once s) (heff : Effectless s e) (hs : Step s e s') : Once s' := by
  have hk := h.kept.step hs
  cases hs with
  | @queued c sid new down =>
    obtain ⟨hrd, hqu⟩ := h.waiting c (.inl new)
    refine ⟨hk, h.redis, ?_, ?_, ?_⟩
    · simp only [List.map_append, List.map_cons, List.map_nil]
      exact List.Nodup.append h.queue (List.nodup_singleton c) (by simpa using hqu)
    · intro hun c' hc'
      simp only [List.map_append, List.map_cons, List.map_nil, List.mem_append, List.mem_singleton] at hc'
      rcases hc' with hc' | rfl
      · exact h.apart hun c' hc'
      · exact hrd
    · intro c' hc'
      obtain ⟨hw, hcl⟩ := waiting_of_update rfl (.inr (by simp)) hc'
      obtain ⟨hr, hq⟩ := h.waiting c' hw
      refine ⟨hr, ?_⟩
      simp only [List.map_append, List.map_cons, List.map_nil, List.mem_append, List.mem_singleton, not_or]
      refine ⟨hq, ?_⟩
      rintro rfl
      obtain ⟨sid', habs⟩ := hcl rfl
      cases habs
  | push new =>
    exact h.frame hk rfl rfl (fun hun => hun)
      fun c' hc' => (waiting_of_update rfl (.inl (.inl new)) hc').1
  | @pushArrives c sid under =>
    obtain ⟨hrd, hqu⟩ := h.waiting c (.inr ⟨sid, under⟩)
    refine ⟨hk, ?_, h.queue, ?_, ?_⟩
    · simp only [List.map_append, List.map_cons, List.map_nil]
      exact List.Nodup.append h.redis (List.nodup_singleton c) (by simpa using hrd)
    · intro hun c' hc'
      simp only [List.map_append, List.map_cons, List.map_nil, List.mem_append, List.mem_singleton, not_or]
      refine ⟨h.apart hun c' hc', ?_⟩
      rintro rfl
      exact hqu hc'
    · intro c' hc'
      obtain ⟨hw, hcl⟩ := waiting_of_update rfl (.inr (by simp)) hc'
      obtain ⟨hr, hq⟩ := h.waiting c' hw
      refine ⟨?_, hq⟩
      simp only [List.map_append, List.map_cons, List.map_nil, List.mem_append, List.mem_singleton, not_or]
      refine ⟨hr, ?_⟩
      rintro rfl
      obtain ⟨sid', habs⟩ := hcl rfl
      cases habs
  | returns under =>
    exact h.frame hk rfl rfl (fun hun => hun) fun c' hc' => (waiting_of_update rfl (.inr (by simp)) hc').1
  | raises under =>
    exact h.frame hk rfl rfl (fun hun => hun) fun c' hc' => (waiting_of_update rfl (.inr (by simp)) hc').1
  | update idle => exact h.frame hk rfl rfl (by simp [Unflushed, idle]) fun _ hc => hc
  | ends under => exact h.frame hk rfl rfl (by simp [Unflushed, under]) fun _ hc => hc
  | flush under up => exact h.frame hk rfl rfl (by simp [Unflushed, under]) fun _ hc => hc
  | @flushArrives level pushed under =>
    obtain ⟨-, rfl⟩ := h.kept.snapshot _ _ _ under
    have hun : Unflushed s := by simp [Unflushed, under]
    refine ⟨hk, ?_, h.queue, ?_, ?_⟩
    · rw [List.map_append]
      exact List.Nodup.append h.redis h.queue fun c hr hq => h.apart hun c hq hr
    · intro hun'
      exact absurd rfl (hun' level s.localQueue)
    · intro c' hc'
      obtain ⟨hr, hq⟩ := h.waiting c' hc'
      rw [List.map_append, List.mem_append, not_or]
      exact ⟨⟨hr, hq⟩, hq⟩
  | flushed under =>
    refine ⟨hk, h.redis, List.nodup_nil, ?_, ?_⟩
    · intro _ c hc
      cases hc
    · intro c' hc'
      exact ⟨(h.waiting c' hc').1, List.not_mem_nil⟩
  | fails under => exact h.frame hk rfl rfl (fun _ => heff) fun _ hc => hc

/-! ### Runs -/

lemma kept_init : Kept .init := by
  refine ⟨?_, ?_, ?_, ?_⟩ <;> simp [State.init, NoLoss]

lemma once_init : Once .init := by
  refine ⟨kept_init, List.nodup_nil, List.nodup_nil, ?_, ?_⟩
  · intro _ c hc
    cases hc
  · intro c _
    exact ⟨List.not_mem_nil, List.not_mem_nil⟩

/-- **No strategy is lost while degraded.** In every run, every strategy whose `enqueue` has returned is in
Redis or in the local queue; and if failed pushes have no effect, none is pushed twice. -/
theorem queue_safe (s : State) :
    (Run step (fun _ _ => True) .init s → NoLoss s) ∧ (Run step Effectless .init s → AtMostOnce s) := by
  refine ⟨?_, ?_⟩
  · intro h
    exact (h.invariant kept_init fun s e s' hk _ hs => hk.step (step_cases hs)).noLoss
  · intro h
    exact (h.invariant once_init fun s e s' ho heff hs => ho.step heff (step_cases hs)).redis

def dagDown : Health := ⟨true, true, false, true⟩

def allUp : Health := ⟨true, true, true, true⟩

/-- While a strategy that was queued is flushed, another is enqueued: it goes to Redis by itself. -/
theorem queue_safe_flush :
    ∃ s, Run step Effectless .init s ∧ s.redis = [(0, "s0"), (1, "s1")] ∧ s.localQueue = [] ∧ NoLoss s ∧
      AtMostOnce s := by
  have h₁ : Run step Effectless .init { State.init with cycle := some .checking } :=
    Run.next (e := Event.update) .init trivial rfl
  have h₂ := h₁.next (e := Event.checked dagDown 0) trivial rfl
  have h₃ := h₂.next (e := Event.enqueue 0 "s0") trivial rfl
  have h₄ := h₃.next (e := Event.update) trivial rfl
  have h₅ := h₄.next (e := Event.checked allUp 0) trivial rfl
  have h₆ := h₅.next (e := Event.enqueue 1 "s1") trivial rfl
  have h₇ := h₆.next (e := Event.flushArrives) trivial rfl
  have h₈ := h₇.next (e := Event.pushArrives 1) trivial rfl
  have h₉ := h₈.next (e := Event.flushEnds true) trivial rfl
  exact ⟨_, h₉, rfl, rfl, (queue_safe _).1 (h₉.mono fun _ _ _ => trivial), (queue_safe _).2 h₉⟩

end Qmtl.Gateway.DegradedQueue

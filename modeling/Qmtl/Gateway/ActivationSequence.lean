import Qmtl.Gateway.ControlBus
import Qmtl.Lib.Run

/-! The sequencer of activations in `ControlBusConsumer`.

Activations of one `(world_id, run_id)` are handed on in the order of their numbers: one that comes
early is buffered, and a timeout skips a gap. -/

namespace Qmtl.Gateway.ActivationSequence

open Lib ControlBus

/-! ### The state of one key -/

/-- The `gap_timeout_task`: none, still asleep, or done. -/
inductive Timer where
  | none | asleep | done
  deriving DecidableEq, Repr

structure SequenceState where
  nextSequence : ℤ
  buffered : List (ℤ × ControlBusMessage)
  timer : Timer
  token : ℕ
  first : ℤ
  past : List ℤ
  handed : List ℤ
  skipped : List (ℤ × ℤ)
  received : List ℤ
  deriving DecidableEq, Repr

namespace SequenceState

variable (st : SequenceState)

def new (sequence : ℤ) : SequenceState := ⟨sequence, [], .none, 0, sequence, [], [], [], []⟩

def schedule : SequenceState :=
  if st.timer = .asleep then st else { st with timer := .asleep, token := st.token + 1 }

def clear : SequenceState := { st with timer := .none, token := st.token + 1 }

def advance (n : ℤ) : SequenceState := { st with nextSequence := n, past := st.nextSequence :: st.past }

def hand (n : ℤ) : SequenceState := { st with handed := st.handed ++ [n] }

def arrive (n : ℤ) : SequenceState := { st with received := st.received ++ [n] }

def buffer (n : ℤ) (msg : ControlBusMessage) : SequenceState :=
  if n ∈ st.buffered.map Prod.fst then st else { st with buffered := st.buffered ++ [(n, msg)] }

def popNext : Option SequenceState :=
  if st.nextSequence ∈ st.buffered.map Prod.fst then
    some ({ st with buffered := st.buffered.filter fun b => b.1 ≠ st.nextSequence }.hand st.nextSequence)
  else none

def earliest : Option ℤ := (st.buffered.map Prod.fst).min?

end SequenceState

/-! ### The consumer -/

abbrev Key := String × String

/-- The two tasks that hand messages on. -/
inductive Task where
  | broker | worker
  deriving DecidableEq, Repr

/-- A task waits for a message, waits for the handler inside
`_drain_sequenced_activation_messages`, or has ended. -/
inductive Phase where
  | idle
  | draining (key : Key) (sequence : ℤ)
  | dead
  deriving DecidableEq, Repr

/-- An item of the consumer's queue. -/
inductive Item where
  | message (msg : ControlBusMessage)
  | gapTimeout (key : Key) (token : ℕ)
  deriving DecidableEq, Repr

structure State where
  states : Key → Option SequenceState
  queue : List Item
  phase : Task → Phase

namespace State

variable (s : State)

def put (key : Key) (st : SequenceState) : State := { s with states := Function.update s.states key (some st) }

def goto (t : Task) (p : Phase) : State := { s with phase := Function.update s.phase t p }

def processSequenced (t : Task) (key : Key) (sequence : ℤ) (msg : ControlBusMessage) : State :=
  let st := ((s.states key).getD (.new sequence)).arrive sequence
  if sequence < st.nextSequence then s.put key st
  else if st.nextSequence < sequence then s.put key (st.buffer sequence msg).schedule
  else (s.put key (st.clear.hand sequence)).goto t (.draining key sequence)

def handleMessage (t : Task) (msg : ControlBusMessage) : State :=
  match msg.sequencedActivationContext with
  | some (key, sequence) => s.processSequenced t key sequence msg
  | none => s

def drainNext (t : Task) (key : Key) (sequence : ℤ) : State :=
  match s.states key with
  | none => s
  | some st =>
    let st := st.advance (sequence + 1)
    match st.popNext with
    | some st => (s.put key st).goto t (.draining key st.nextSequence)
    | none => (s.put key (if st.buffered = [] then st.clear else st.schedule)).goto t .idle

def handleGapTimeout (key : Key) (token : ℕ) : State :=
  match s.states key with
  | none => s
  | some st =>
    if token ≠ st.token then s
    else
      let st := { st with timer := .none }
      match st.earliest with
      | none => s.put key st
      | some next =>
        let st := if st.nextSequence < next then
          { st.advance next with skipped := st.skipped ++ [(st.nextSequence, next)] } else st
        match st.popNext with
        | some st => (s.put key st).goto .worker (.draining key st.nextSequence)
        | none => s.put key (if st.buffered = [] then st else st.schedule)

end State

/-- What can happen: a message is published to the queue; the idle broker gets a message; the idle
worker takes the next item of the queue; a timer wakes up; a handler returns or raises. -/
inductive Event where
  | publish (msg : ControlBusMessage)
  | receive (msg : ControlBusMessage)
  | get
  | wake (key : Key)
  | complete (t : Task) (ok : Bool)

def step (s : State) : Event → Option State
  | .publish msg => some { s with queue := s.queue ++ [.message msg] }
  | .receive msg => if s.phase .broker = .idle then some (s.handleMessage .broker msg) else none
  | .get =>
    if s.phase .worker = .idle then
      match s.queue with
      | [] => none
      | .message msg :: rest => some ({ s with queue := rest }.handleMessage .worker msg)
      | .gapTimeout key token :: rest => some ({ s with queue := rest }.handleGapTimeout key token)
    else none
  | .wake key =>
    match s.states key with
    | some st =>
      if st.timer = .asleep then
        some { s.put key { st with timer := .done } with queue := s.queue ++ [.gapTimeout key st.token] }
      else none
    | none => none
  | .complete t ok =>
    match s.phase t with
    | .draining key sequence =>
      if ok then some (s.drainNext t key sequence)
      -- the broker's loop logs an exception and goes on; the worker's task ends with it
      else some (s.goto t (if t = .worker then .dead else .idle))
    | _ => none

def init : State := ⟨fun _ => none, [], fun _ => .idle⟩

/-- **Activations are handed on in order**: the numbers handed on increase, and one that arrived is handed on, was skipped
by a timeout, or is buffered. -/
structure Sequenced (st : SequenceState) : Prop where
  increasing : st.handed.Pairwise (· < ·)
  monotone : (st.nextSequence :: st.past).Pairwise (· ≥ ·)
  ahead : ∀ b ∈ st.buffered, st.nextSequence ≤ b.1
  accounted : ∀ n ∈ st.received, st.first ≤ n →
    n ∈ st.handed ∨ (∃ g ∈ st.skipped, g.1 ≤ n ∧ n < g.2) ∨ n ∈ st.buffered.map Prod.fst

def notHanded (s : State) (msg : ControlBusMessage) : Bool :=
  match msg.sequencedActivationContext with
  | none => true
  | some (key, sequence) =>
    (s.states key).all fun st => sequence ≠ st.nextSequence || sequence ∉ st.handed

def quiet (s : State) (key : Key) : Bool :=
  [Task.broker, Task.worker].all fun t =>
    match s.phase t with
    | .draining key' _ => key' ≠ key
    | _ => true

def orderly (s : State) : Event → Bool
  | .receive msg => notHanded s msg
  | .get =>
    match s.queue with
    | .message msg :: _ => notHanded s msg
    | .gapTimeout key token :: _ =>
      (s.states key).all (fun st => token ≠ st.token || st.buffered = []) || quiet s key
    | [] => true
  | _ => true

/-! ### The invariant of one key -/

/-- What holds of a state between two changes of the number that is due. -/
structure Ok (st : SequenceState) : Prop where
  increasing : st.handed.Pairwise (· < ·)
  bounded : ∀ n ∈ st.handed, n ≤ st.nextSequence
  monotone : (st.nextSequence :: st.past).Pairwise (· ≥ ·)
  ahead : ∀ b ∈ st.buffered, st.nextSequence < b.1
  covered : ∀ n, st.first ≤ n → n < st.nextSequence → n ∈ st.handed ∨ ∃ g ∈ st.skipped, g.1 ≤ n ∧ n < g.2
  known : ∀ n ∈ st.received, st.first ≤ n →
    n < st.nextSequence ∨ n ∈ st.handed ∨ n ∈ st.buffered.map Prod.fst

structure Moved (st : SequenceState) : Prop where
  increasing : st.handed.Pairwise (· < ·)
  bounded : ∀ n ∈ st.handed, n < st.nextSequence
  monotone : (st.nextSequence :: st.past).Pairwise (· ≥ ·)
  ahead : ∀ b ∈ st.buffered, st.nextSequence ≤ b.1
  covered : ∀ n, st.first ≤ n → n < st.nextSequence → n ∈ st.handed ∨ ∃ g ∈ st.skipped, g.1 ≤ n ∧ n < g.2
  known : ∀ n ∈ st.received, st.first ≤ n →
    n < st.nextSequence ∨ n ∈ st.handed ∨ n ∈ st.buffered.map Prod.fst

section Key

variable {st st' : SequenceState} {n : ℤ}

lemma Ok.sequenced (h : Ok st) : Sequenced st where
  increasing := h.increasing
  monotone := h.monotone
  ahead b hb := (h.ahead b hb).le
  accounted n hn hf := by
    rcases h.known n hn hf with hlt | hh | hb
    · exact (h.covered n hf hlt).imp_right .inl
    · exact .inl hh
    · exact .inr (.inr hb)

lemma Ok.new (n : ℤ) : Ok (.new n) where
  increasing := .nil
  bounded m hm := by cases hm
  monotone := List.pairwise_singleton _ _
  ahead b hb := by cases hb
  covered m h₁ h₂ := absurd h₂ (not_lt.mpr h₁)
  known m hm := by cases hm

lemma Ok.timer (h : Ok st) (timer : Timer) (token : ℕ) : Ok { st with timer, token } :=
  ⟨h.increasing, h.bounded, h.monotone, h.ahead, h.covered, h.known⟩

lemma Ok.clear (h : Ok st) : Ok st.clear := h.timer _ _

lemma Ok.schedule (h : Ok st) : Ok st.schedule := by
  unfold SequenceState.schedule
  split
  · exact h
  · exact h.timer _ _

lemma Ok.drop (h : Ok st) (hn : n < st.nextSequence) : Ok (st.arrive n) where
  increasing := h.increasing
  bounded := h.bounded
  monotone := h.monotone
  ahead := h.ahead
  covered := h.covered
  known m hm hf := by
    rcases List.mem_append.mp hm with hm | hm
    · exact h.known m hm hf
    · rw [List.mem_singleton] at hm
      subst hm
      exact .inl hn

lemma Ok.buffer (h : Ok st) (hn : st.nextSequence < n) (msg : ControlBusMessage) :
    Ok ((st.arrive n).buffer n msg) := by
  unfold SequenceState.buffer
  split
  · rename_i hmem
    refine ⟨h.increasing, h.bounded, h.monotone, h.ahead, h.covered, ?_⟩
    intro m hm hf
    rcases List.mem_append.mp hm with hm | hm
    · exact h.known m hm hf
    · rw [List.mem_singleton] at hm
      subst hm
      exact .inr (.inr hmem)
  · refine ⟨h.increasing, h.bounded, h.monotone, ?_, h.covered, ?_⟩
    · intro b hb
      rcases List.mem_append.mp hb with hb | hb
      · exact h.ahead b hb
      · rw [List.mem_singleton] at hb
        subst hb
        exact hn
    · intro m hm hf
      rcases List.mem_append.mp hm with hm | hm
      · refine (h.known m hm hf).imp_right fun hk => hk.imp_right ?_
        intro hb
        exact List.map_append ▸ List.mem_append_left _ hb
      · rw [List.mem_singleton] at hm
        subst hm
        exact .inr (.inr (by simp))

lemma pairwise_append_singleton {l : List ℤ} (hl : l.Pairwise (· < ·)) (hn : ∀ m ∈ l, m < n) :
    (l ++ [n]).Pairwise (· < ·) :=
  List.pairwise_append.mpr ⟨hl, List.pairwise_singleton _ _, fun m hm k hk => by
    rw [List.mem_singleton] at hk
    subst hk
    exact hn m hm⟩

lemma Ok.take (h : Ok st) (hn : st.nextSequence ∉ st.handed) :
    Ok ((st.arrive st.nextSequence).hand st.nextSequence) where
  increasing := pairwise_append_singleton h.increasing fun m hm =>
    lt_of_le_of_ne (h.bounded m hm) fun heq => hn (heq ▸ hm)
  bounded m hm := by
    rcases List.mem_append.mp hm with hm | hm
    · exact h.bounded m hm
    · exact (List.mem_singleton.mp hm).le
  monotone := h.monotone
  ahead := h.ahead
  covered m h₁ h₂ := (h.covered m h₁ h₂).imp_left (List.mem_append_left _)
  known m hm hf := by
    rcases List.mem_append.mp hm with hm | hm
    · exact (h.known m hm hf).imp_right fun hk => hk.imp_left (List.mem_append_left _)
    · exact .inr (.inl (List.mem_append_right _ hm))

lemma Ok.monotone_advance (h : Ok st) (hn : st.nextSequence ≤ n) :
    (n :: st.nextSequence :: st.past).Pairwise (· ≥ ·) := by
  refine List.pairwise_cons.mpr ⟨?_, h.monotone⟩
  intro m hm
  rcases List.mem_cons.mp hm with rfl | hm
  · exact hn
  · exact le_trans ((List.pairwise_cons.mp h.monotone).1 m hm) hn

lemma Ok.advance (h : Ok st) (hn : st.nextSequence ∈ st.handed) :
    Moved (st.advance (st.nextSequence + 1)) where
  increasing := h.increasing
  bounded m hm := Int.lt_add_one_iff.mpr (h.bounded m hm)
  monotone := h.monotone_advance (Int.le_add_one le_rfl)
  ahead b hb := Int.add_one_le_iff.mpr (h.ahead b hb)
  covered m h₁ h₂ := by
    rcases lt_or_eq_of_le (Int.lt_add_one_iff.mp h₂) with hlt | rfl
    · exact h.covered m h₁ hlt
    · exact .inl hn
  known m hm hf := (h.known m hm hf).imp_left fun h => h.trans (lt_add_one _)

lemma Ok.skip (h : Ok st) {next : ℤ} (he : st.earliest = some next) : st.nextSequence < next ∧
      Moved { st.advance next with skipped := st.skipped ++ [(st.nextSequence, next)] } := by
  obtain ⟨hmem, hmin⟩ := List.min?_eq_some_iff.mp he
  have hlt : st.nextSequence < next := by
    obtain ⟨b, hb, rfl⟩ := List.mem_map.mp hmem
    exact h.ahead b hb
  refine ⟨hlt, h.increasing, fun m hm => (h.bounded m hm).trans_lt hlt, h.monotone_advance hlt.le,
    fun b hb => hmin b.1 (List.mem_map_of_mem hb), ?_,
    fun m hm hf => (h.known m hm hf).imp_left fun h => h.trans hlt⟩
  intro m h₁ h₂
  rcases lt_or_ge m st.nextSequence with hm | hm
  · refine (h.covered m h₁ hm).imp_right ?_
    rintro ⟨g, hg, hr⟩
    exact ⟨g, List.mem_append_left _ hg, hr⟩
  · exact .inr ⟨(st.nextSequence, next), by simp, hm, h₂⟩

lemma Moved.popNext_some (h : Moved st) (hp : st.popNext = some st') :
    Ok st' ∧ st'.nextSequence ∈ st'.handed := by
  unfold SequenceState.popNext at hp
  split at hp
  · cases hp
    refine ⟨⟨pairwise_append_singleton h.increasing h.bounded, fun m hm => ?_, h.monotone, fun b hb => ?_,
      fun m h₁ h₂ => (h.covered m h₁ h₂).imp_left (List.mem_append_left _), fun m hm hf => ?_⟩, by
        simp [SequenceState.hand]⟩
    · rcases List.mem_append.mp hm with hm | hm
      · exact (h.bounded m hm).le
      · exact (List.mem_singleton.mp hm).le
    · obtain ⟨hb, hne⟩ := List.mem_filter.mp hb
      have hne : b.1 ≠ st.nextSequence := by simpa using hne
      exact lt_of_le_of_ne (h.ahead b hb) hne.symm
    · rcases h.known m hm hf with hlt | hh | hb
      · exact .inl hlt
      · exact .inr (.inl (List.mem_append_left _ hh))
      · by_cases heq : m = st.nextSequence
        · exact .inr (.inl (by simp [SequenceState.hand, heq]))
        · obtain ⟨b, hb', rfl⟩ := List.mem_map.mp hb
          exact .inr (.inr (List.mem_map_of_mem (List.mem_filter.mpr ⟨hb', by simpa using heq⟩)))
  · cases hp

lemma popNext_eq_none : st.popNext = none ↔ st.nextSequence ∉ st.buffered.map Prod.fst := by
  unfold SequenceState.popNext
  split <;> simp_all

lemma Moved.popNext_none (h : Moved st) (hp : st.popNext = none) : Ok st := by
  have hno := popNext_eq_none.mp hp
  refine ⟨h.increasing, fun m hm => (h.bounded m hm).le, h.monotone, ?_, h.covered, h.known⟩
  intro b hb
  exact lt_of_le_of_ne (h.ahead b hb) fun heq => hno (heq ▸ List.mem_map_of_mem hb)

end Key

/-! ### The invariant of the consumer -/

structure Inv (s : State) : Prop where
  ok : ∀ key st, s.states key = some st → Ok st
  due : ∀ t key n, s.phase t = .draining key n →
    ∃ st, s.states key = some st ∧ n = st.nextSequence ∧ n ∈ st.handed
  single : ∀ t t' key n n', s.phase t = .draining key n → s.phase t' = .draining key n' → t = t'

namespace Inv

variable {s : State} {t : Task} {key : Key} {st : SequenceState} {n : ℤ}

lemma put (h : Inv s) (hok : Ok st)
    (hdue : ∀ st₀, s.states key = some st₀ → st.nextSequence = st₀.nextSequence ∧ st₀.handed ⊆ st.handed) :
    Inv (s.put key st) := by
  refine ⟨?_, ?_, h.single⟩
  · intro key' st' hst
    by_cases hk : key' = key
    · subst hk
      simp only [State.put, Function.update_self, Option.some.injEq] at hst
      exact hst ▸ hok
    · simp only [State.put, Function.update_of_ne hk] at hst
      exact h.ok key' st' hst
  · intro t key' n hp
    obtain ⟨st₀, hst, hn, hh⟩ := h.due t key' n hp
    by_cases hk : key' = key
    · subst hk
      obtain ⟨hnx, hsub⟩ := hdue st₀ hst
      exact ⟨st, by simp [State.put], hn.trans hnx.symm, hsub hh⟩
    · exact ⟨st₀, by simp [State.put, hk, hst], hn, hh⟩

lemma retime (h : Inv s) (hst : s.states key = some st) (timer : Timer) : Inv (s.put key { st with timer }) := by
  refine h.put ((h.ok key st hst).timer timer st.token) ?_
  intro st₀ hst₀
  rw [hst] at hst₀
  cases hst₀
  exact ⟨rfl, fun _ h => h⟩

/-- A task takes hold of a key, or lets go of it, while no other task has it. -/
theorem putGoto {p : Phase} (h : Inv s) (hok : Ok st) (hot : ∀ t', t' ≠ t → ∀ n, s.phase t' ≠ .draining key n)
    (hp : p = .idle ∨ p = .draining key st.nextSequence ∧ st.nextSequence ∈ st.handed) :
    Inv ((s.put key st).goto t p) := by
  have hph : ∀ t', t' ≠ t → ((s.put key st).goto t p).phase t' = s.phase t' := fun t' ht =>
    Function.update_of_ne ht _ _
  have hs : ((s.put key st).goto t p).phase t = p := Function.update_self ..
  have hkey : ∀ key' n, p = .draining key' n → key' = key := by
    rintro key' n rfl
    rcases hp with hp | ⟨hp, -⟩ <;> cases hp
    rfl
  refine ⟨?_, ?_, ?_⟩
  · intro key' st' hst
    by_cases hk : key' = key
    · subst hk
      simp only [State.put, State.goto, Function.update_self, Option.some.injEq] at hst
      exact hst ▸ hok
    · simp only [State.put, State.goto, Function.update_of_ne hk] at hst
      exact h.ok key' st' hst
  · intro t' key' n hd
    by_cases ht : t' = t
    · subst ht
      rw [hs] at hd
      rcases hp with rfl | ⟨rfl, hh⟩
      · cases hd
      · cases hd
        exact ⟨st, by simp [State.put, State.goto], rfl, hh⟩
    · rw [hph t' ht] at hd
      obtain ⟨st₀, hst, hn, hh⟩ := h.due t' key' n hd
      have hk : key' ≠ key := fun hk => hot t' ht n (hk ▸ hd)
      exact ⟨st₀, by simp [State.put, State.goto, hk, hst], hn, hh⟩
  · intro t₁ t₂ key' n₁ n₂ h₁ h₂
    by_cases ht₁ : t₁ = t <;> by_cases ht₂ : t₂ = t
    · rw [ht₁, ht₂]
    · rw [ht₁, hs] at h₁
      rw [hph t₂ ht₂, hkey key' n₁ h₁] at h₂
      exact absurd h₂ (hot t₂ ht₂ n₂)
    · rw [ht₂, hs] at h₂
      rw [hph t₁ ht₁, hkey key' n₂ h₂] at h₁
      exact absurd h₁ (hot t₁ ht₁ n₁)
    · rw [hph t₁ ht₁] at h₁
      rw [hph t₂ ht₂] at h₂
      exact h.single t₁ t₂ key' n₁ n₂ h₁ h₂

lemma queue (h : Inv s) (q : List Item) : Inv { s with queue := q } := ⟨h.ok, h.due, h.single⟩

lemma goto (h : Inv s) {p : Phase} (hp : ∀ key n, p ≠ .draining key n) : Inv (s.goto t p) := by
  have hph : ∀ t' key n, (s.goto t p).phase t' = .draining key n → s.phase t' = .draining key n := by
    intro t' key n hd
    by_cases ht : t' = t
    · subst ht
      simp only [State.goto, Function.update_self] at hd
      exact absurd hd (hp key n)
    · simpa [State.goto, ht] using hd
  exact ⟨h.ok, fun t' key n hd => h.due t' key n (hph t' key n hd),
    fun t₁ t₂ key n₁ n₂ h₁ h₂ => h.single t₁ t₂ key n₁ n₂ (hph _ _ _ h₁) (hph _ _ _ h₂)⟩

lemma processSequenced (h : Inv s) (msg : ControlBusMessage)
    (hn : ∀ st, s.states key = some st → n = st.nextSequence → n ∉ st.handed) :
    Inv (s.processSequenced t key n msg) := by
  have hok : Ok ((s.states key).getD (.new n)) := by
    cases hst : s.states key with
    | none => exact .new n
    | some st => exact h.ok key st hst
  have hs : ∀ st₀, s.states key = some st₀ → (s.states key).getD (.new n) = st₀ := by
    intro st₀ hst
    rw [hst]
    rfl
  have hf : n = ((s.states key).getD (.new n)).nextSequence → n ∉ ((s.states key).getD (.new n)).handed := by
    cases hst : s.states key with
    | none => exact fun _ hm => by cases hm
    | some st => exact hn st hst
  unfold State.processSequenced
  dsimp only
  generalize (s.states key).getD (.new n) = st at hok hs hf
  split
  · rename_i hlt
    exact h.put (hok.drop hlt) fun st₀ hst => hs st₀ hst ▸ ⟨rfl, fun _ h => h⟩
  · split
    · rename_i hgt
      refine h.put (hok.buffer hgt msg).schedule ?_
      intro st₀ hst
      have := hs st₀ hst
      subst this
      unfold SequenceState.schedule SequenceState.buffer
      constructor
      · split <;> split <;> rfl
      · split <;> split <;> exact fun _ h => h
    · rename_i hlt hgt
      obtain rfl : n = st.nextSequence := le_antisymm (not_lt.mp hgt) (not_lt.mp hlt)
      refine h.putGoto ((hok.take (hf rfl)).timer _ _) ?_
        (.inr ⟨rfl, List.mem_append_right _ (List.mem_singleton_self _)⟩)
      intro t' _ n' hd
      -- a task at work on the key has handed on what is due
      obtain ⟨st₀, hst, rfl, hh⟩ := h.due t' key n' hd
      obtain rfl := hs st₀ hst
      exact hf rfl hh

lemma handleMessage (h : Inv s) {msg : ControlBusMessage} (hn : notHanded s msg) :
    Inv (s.handleMessage t msg) := by
  unfold State.handleMessage
  unfold notHanded at hn
  split
  · rename_i key n hctx
    rw [hctx] at hn
    refine h.processSequenced msg ?_
    intro st hst heq
    simp only [hst, Option.all_some, Bool.or_eq_true, decide_eq_true_eq] at hn
    exact hn.resolve_left (not_not.mpr heq)
  · exact h

lemma drainNext (h : Inv s) (hd : s.phase t = .draining key n) : Inv (s.drainNext t key n) := by
  obtain ⟨st, hst, rfl, hh⟩ := h.due t key n hd
  have hm := (h.ok key st hst).advance hh
  have hot : ∀ t', t' ≠ t → ∀ n, s.phase t' ≠ .draining key n := fun t' ht n' hd' =>
    ht (h.single t' t key n' _ hd' hd)
  unfold State.drainNext
  rw [hst]
  dsimp only
  split
  · rename_i st' hp
    obtain ⟨hok, hh'⟩ := hm.popNext_some hp
    exact h.putGoto hok hot (.inr ⟨rfl, hh'⟩)
  · rename_i hp
    have hok := hm.popNext_none hp
    split
    · exact h.putGoto hok.clear hot (.inl rfl)
    · exact h.putGoto hok.schedule hot (.inl rfl)

lemma handleGapTimeout {token : ℕ} (h : Inv s)
    (hq : (∀ st, s.states key = some st → token ≠ st.token ∨ st.buffered = []) ∨
      ∀ t n, s.phase t ≠ .draining key n) : Inv (s.handleGapTimeout key token) := by
  unfold State.handleGapTimeout
  split
  · exact h
  · rename_i st hst
    split
    · exact h
    · rename_i htok
      have htok : token = st.token := not_not.mp htok
      have hok : Ok { st with timer := .none } := (h.ok key st hst).timer _ _
      have hput : Inv (s.put key { st with timer := .none }) := h.retime hst .none
      dsimp only
      split
      · exact hput
      · rename_i next he
        have hne : st.buffered ≠ [] := by
          rintro hnil
          simp [SequenceState.earliest, hnil] at he
        have hot : ∀ t n, s.phase t ≠ .draining key n := by
          apply hq.resolve_left
          intro hv
          rcases hv st hst with hv | hv
          · exact hv htok
          · exact hne hv
        obtain ⟨hlt, hm⟩ := hok.skip he
        rw [if_pos hlt]
        split
        · rename_i st' hp
          obtain ⟨hok', hh'⟩ := hm.popNext_some hp
          exact h.putGoto hok' (fun t' _ => hot t') (.inr ⟨rfl, hh'⟩)
        · rename_i hp
          -- the earliest number is there to be popped
          have hmem : next ∈ st.buffered.map Prod.fst := (List.min?_eq_some_iff.mp he).1
          exact absurd hmem (popNext_eq_none.mp hp)

lemma step {s' : State} {ev : Event} (h : Inv s) (ho : orderly s ev) (hs : step s ev = some s') : Inv s' := by
  cases ev with
  | publish msg =>
    cases hs
    exact h.queue _
  | receive msg =>
    simp only [ActivationSequence.step] at hs
    split at hs
    · cases hs
      exact h.handleMessage ho
    · cases hs
  | get =>
    simp only [ActivationSequence.step] at hs
    split at hs
    · split at hs
      · cases hs
      · rename_i msg rest hq
        cases hs
        simp only [orderly, hq] at ho
        exact (h.queue rest).handleMessage ho
      · rename_i key token rest hq
        cases hs
        simp only [orderly, hq, Bool.or_eq_true] at ho
        refine (h.queue rest).handleGapTimeout (ho.imp ?_ ?_)
        · intro hv st hst
          have hst : s.states key = some st := hst
          simpa [hst] using hv
        · intro hqt t n hd
          have hd : s.phase t = .draining key n := hd
          have := List.all_eq_true.mp hqt t (by cases t <;> simp)
          simp [hd] at this
    · cases hs
  | wake key =>
    simp only [ActivationSequence.step] at hs
    split at hs
    · rename_i st hst
      split at hs
      · cases hs
        exact (h.retime hst .done).queue _
      · cases hs
    · cases hs
  | complete t ok =>
    simp only [ActivationSequence.step] at hs
    split at hs
    · rename_i key n hd
      split at hs
      · cases hs
        exact h.drainNext hd
      · cases hs
        exact h.goto fun key n => by split <;> simp
    · cases hs

end Inv

/-- **Activations are handed on in order in every run of orderly steps.** -/
theorem sequenced_of_orderly {s : State} (h : Run step (fun s ev => orderly s ev = true) init s) {key : Key}
    {st : SequenceState} (hst : s.states key = some st) : Sequenced st := by
  have h₀ : Inv init := ⟨nofun, nofun, nofun⟩
  exact ((h.invariant h₀ fun _ _ _ hI hP hs => hI.step hP hs).ok key st hst).sequenced

def activation (n : ℤ) : ControlBusMessage :=
  ⟨"activation", "w", "", "r", ⟨true, some n, some "w", some "r", .null, .null, .num 1, false, [], 0,
    "", none, none⟩⟩

/-- Number 1 is handed on, 3 comes early, the gap times out, and 3 is handed on. -/
theorem sequenced_of_orderly_gap : ∃ s st, Run step (fun s ev => orderly s ev = true) init s ∧
    s.states ("w", "r") = some st ∧ st.handed = [1, 3] ∧ Sequenced st := by
  obtain ⟨s, hrun, hq⟩ := exists_run step init orderly
    [.receive (activation 1), .publish (activation 3), .get, .complete .broker true, .wake ("w", "r"), .get,
      .complete .worker true]
    (fun s => (s.states ("w", "r")).any fun st => st.handed = [1, 3]) (by decide)
  simp only [Option.any_eq_true, decide_eq_true_eq] at hq
  obtain ⟨st, hst, hh⟩ := hq
  exact ⟨s, st, hrun, hst, hh, sequenced_of_orderly hrun hst⟩

/-- While the broker waits for the handler of 1, the worker takes a second 1, and it is handed on
twice; or the worker takes 5, a timeout skips to it, and the return of the first handler sets the
number that is due back from 6 to 2. -/
theorem out_of_order :
    (∃ s, execIf step (fun _ _ => true) init [.receive (activation 1), .publish (activation 1), .get] = some s ∧
      ∃ st, s.states ("w", "r") = some st ∧ st.handed = [1, 1] ∧ ¬ Sequenced st) ∧
    ∃ s, execIf step (fun _ _ => true) init [.receive (activation 1), .publish (activation 5), .get,
        .wake ("w", "r"), .get, .complete .worker true, .complete .broker true] = some s ∧
      ∃ st, s.states ("w", "r") = some st ∧ st.nextSequence = 2 ∧ st.past = [6, 5, 1] ∧ ¬ Sequenced st := by
  constructor
  · refine exists_execIf (fun s => (s.states ("w", "r")).any fun st => st.handed = [1, 1]) (by decide)
      ?_
    intro s hq
    simp only [Option.any_eq_true, decide_eq_true_eq] at hq
    obtain ⟨st, hst, hh⟩ := hq
    refine ⟨st, hst, hh, ?_⟩
    intro h
    have hinc := h.increasing
    simp [hh] at hinc
  · refine exists_execIf (fun s => (s.states ("w", "r")).any fun st =>
      st.nextSequence = 2 && st.past = [6, 5, 1]) (by decide) ?_
    intro s hq
    simp only [Option.any_eq_true, Bool.and_eq_true, decide_eq_true_eq] at hq
    obtain ⟨st, hst, hn, hp⟩ := hq
    refine ⟨st, hst, hn, hp, ?_⟩
    intro h
    have hmono := h.monotone
    simp [hn, hp] at hmono

end Qmtl.Gateway.ActivationSequence

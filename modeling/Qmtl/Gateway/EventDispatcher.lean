import Qmtl.Gateway.WsConnections
import Qmtl.Lib.Log
import Qmtl.Lib.Run

/-!
The queue between the hub and its clients: `EventDispatcher` with its sentinel, and the `DuplicateTracker` that the events
pass on their way out.
-/

namespace Qmtl.Gateway.Ws

open Lib Gateway.EventToken

/-! ### Duplicates -/

structure DuplicateTracker where
  ids : List String
  seen : Finset String

namespace DuplicateTracker

def init : DuplicateTracker := ⟨[], ∅⟩

def ask (window : ℕ) (t : DuplicateTracker) : Option String → Bool × DuplicateTracker
  | none => (false, t)
  | some id =>
    if id ∈ t.seen then (true, t)
    else
      let ids := (id :: t.ids).take window
      (false, ⟨ids, if ids.length = window then ids.toFinset else insert id t.seen⟩)

end DuplicateTracker

def admitted (answers : List (Option String × Bool)) : List String :=
  (answers.filterMap fun a => if a.2 then none else a.1).reverse

def recent (window : ℕ) (answers : List (Option String × Bool)) : List String := (admitted answers).take window

def Answered (window : ℕ) (answers : List (Option String × Bool)) : Prop :=
  ∀ before id answer after, answers = before ++ (id, answer) :: after →
    (recent window before).Nodup ∧ (answer = true ↔ ∃ x, id = some x ∧ x ∈ recent window before)

/-! ### The queue -/

structure QueuedEvent where
  seq : ℕ
  envelope : Option (List (String × Json))
  topic : Option String

def QueuedEvent.eventId (e : QueuedEvent) : Option String :=
  match e.envelope.bind fun fields => field fields "id" with
  | some (.str id) => some id
  | _ => none

inductive Item where
  | event (e : QueuedEvent)
  | sentinel

def events (q : List Item) : List QueuedEvent :=
  q.filterMap fun item => match item with
    | .event e => some e
    | .sentinel => none

def sentinels (q : List Item) : ℕ :=
  q.countP fun item => match item with
    | .event _ => false
    | .sentinel => true

structure Limits where
  maxsize : ℕ
  window : ℕ
  maxsize_pos : 0 < maxsize
  window_pos : 0 < window

def putNowait (maxsize : ℕ) (q : List Item) (item : Item) : Option (List Item) :=
  if maxsize ≤ q.length then none else some (q ++ [item])

structure Enqueued where
  queue : List Item
  dropped : Option QueuedEvent
  put : Bool

def makeRoom (maxsize : ℕ) : List Item → List Item × Option QueuedEvent
  | [] => ([], none)
  | .event old :: rest => (rest, some old)
  | .sentinel :: rest => ((putNowait maxsize rest .sentinel).getD rest, none)

def enqueue (maxsize : ℕ) (q : List Item) (e : QueuedEvent) : Enqueued :=
  match putNowait maxsize q (.event e) with
  | some q => ⟨q, none, true⟩
  | none =>
    let room := makeRoom maxsize q
    match putNowait maxsize room.1 (.event e) with
    | some q => ⟨q, room.2, true⟩
    | none => ⟨room.1, room.2, false⟩

/-! ### The dispatcher -/

inductive Consumer where
  | absent
  | waiting
  | handling
  | done
  deriving DecidableEq

structure Drop where
  queue : List Item
  event : QueuedEvent

structure Dispatcher where
  queue : List Item
  consumer : Consumer
  stops : ℕ
  tracker : DuplicateTracker
  put : List QueuedEvent
  handled : List QueuedEvent
  drops : List Drop
  answers : List (Option String × Bool)
  signalled : ℕ
  taken : ℕ
  raised : Bool

def Dispatcher.init : Dispatcher := ⟨[], .absent, 0, .init, [], [], [], [], 0, 0, false⟩

inductive DispatcherEvent where
  | enqueue (envelope : Option (List (String × Json))) (topic : Option String)
  | start
  | stop
  | signal
  | take
  | finish
  | stopped

variable (limits : Limits)

/-- One step: an event is enqueued, the task is started, a `stop` is called, puts the sentinel when there is room, or is
through; or the task takes an item or finishes with an event. -/
def dispatcherStep (s : Dispatcher) : DispatcherEvent → Option Dispatcher
  | .enqueue envelope topic =>
    let e : QueuedEvent := ⟨s.put.length, envelope, topic⟩
    let r := enqueue limits.maxsize s.queue e
    some { s with
      queue := r.queue
      put := if r.put then s.put ++ [e] else s.put
      drops := s.drops ++ (r.dropped.map fun old => ⟨s.queue, old⟩).toList
      raised := s.raised || !r.put }
  | .start => match s.consumer with
    | .absent => some { s with consumer := .waiting }
    | .done => some { s with consumer := .waiting }
    | _ => some s
  | .stop => if s.consumer = .absent then some s else some { s with stops := s.stops + 1 }
  | .signal =>
    if s.stops = 0 then none
    else (putNowait limits.maxsize s.queue .sentinel).map fun q =>
      { s with queue := q, stops := s.stops - 1, signalled := s.signalled + 1 }
  | .take => match s.consumer, s.queue with
    | .waiting, .sentinel :: rest => some { s with queue := rest, consumer := .done, taken := s.taken + 1 }
    | .waiting, .event e :: rest =>
      let (answer, tracker) := s.tracker.ask limits.window e.eventId
      some { s with
        queue := rest
        consumer := .handling
        tracker
        handled := s.handled ++ [e]
        answers := s.answers ++ [(e.eventId, answer)] }
    | _, _ => none
  | .finish => if s.consumer = .handling then some { s with consumer := .waiting } else none
  | .stopped => if s.consumer = .done then some { s with consumer := .absent } else none

/-- **The queue is faithful**: an event that was put is handled in its order, queued, or dropped as the oldest of a full queue,
no sentinel is lost, and the tracker answers as it should. -/
structure Faithful (s : Dispatcher) : Prop where
  enqueued : s.raised = false
  signals : s.signalled = s.taken + sentinels s.queue
  kept : (s.handled ++ s.drops.map Drop.event ++ events s.queue).Perm s.put
  oldest : ∀ d ∈ s.drops, d.queue.length = limits.maxsize ∧ (events d.queue).head? = some d.event
  ordered : (s.handled ++ events s.queue).Sublist s.put
  answered : Answered limits.window s.answers ∧ s.answers.map Prod.fst = s.handled.map QueuedEvent.eventId

def Open (s : Dispatcher) : DispatcherEvent → Prop
  | .enqueue _ _ => s.queue.length = limits.maxsize → ∀ rest, s.queue ≠ .sentinel :: rest
  | _ => True

variable {limits : Limits}

/-- What a tracker knows: the last ids, once as a list and once as a set. -/
structure Tracks (window : ℕ) (answers : List (Option String × Bool)) (t : DuplicateTracker) : Prop where
  ids : t.ids = recent window answers
  seen : t.seen = t.ids.toFinset
  nodup : t.ids.Nodup

lemma admitted_concat (answers : List (Option String × Bool)) (id : Option String) (answer : Bool) :
    admitted (answers ++ [(id, answer)]) = (if answer then none else id).toList ++ admitted answers := by
  unfold admitted
  rw [List.filterMap_append, List.reverse_append]
  cases answer <;> cases id <;> rfl

/-- One question, and what is known after it. -/
theorem Tracks.ask {window : ℕ} {answers : List (Option String × Bool)} {t : DuplicateTracker} (h : Tracks window answers t)
    (id : Option String) : ((t.ask window id).1 ↔ ∃ x, id = some x ∧ x ∈ recent window answers) ∧
      Tracks window (answers ++ [(id, (t.ask window id).1)]) (t.ask window id).2 := by
  have hs : ∀ id answer, (if answer then none else id) = (none : Option String) →
      recent window (answers ++ [(id, answer)]) = recent window answers := by
    intro id answer hn
    rw [recent, admitted_concat, hn]
    rfl
  cases id with
  | none =>
    refine ⟨⟨fun h => absurd h Bool.false_ne_true, fun ⟨x, hx, _⟩ => absurd hx (Option.some_ne_none x).symm⟩, ?_⟩
    exact ⟨h.ids.trans (hs none false rfl).symm, h.seen, h.nodup⟩
  | some x =>
    have hmem : x ∈ t.seen ↔ x ∈ recent window answers := by rw [h.seen, List.mem_toFinset, h.ids]
    by_cases hx : x ∈ t.seen
    · have hask : t.ask window (some x) = (true, t) := if_pos hx
      rw [hask]
      refine ⟨⟨fun _ => ⟨x, rfl, hmem.mp hx⟩, fun _ => rfl⟩, ?_⟩
      exact ⟨h.ids.trans (hs (some x) true rfl).symm, h.seen, h.nodup⟩
    · have hask : t.ask window (some x) = (false, ⟨(x :: t.ids).take window,
          if ((x :: t.ids).take window).length = window then ((x :: t.ids).take window).toFinset else insert x t.seen⟩) :=
        if_neg hx
      rw [hask]
      refine ⟨⟨fun h => absurd h Bool.false_ne_true, fun ⟨y, hy, hr⟩ => ?_⟩, ?_, ?_, ?_⟩
      · rw [← Option.some.inj hy] at hr
        exact absurd (hmem.mpr hr) hx
      · rw [recent, admitted_concat, h.ids, recent]
        show _ = (x :: admitted answers).take window
        cases window with
        | zero => rfl
        | succ n => rw [List.take_succ_cons, List.take_succ_cons, List.take_take, min_eq_left (Nat.le_succ n)]
      · split
        · rfl
        · -- the window is not full yet, so nothing is cut off
          rename_i hlen
          have hall : (x :: t.ids).take window = x :: t.ids := by
            rw [List.take_eq_self_iff]
            rw [List.length_take] at hlen
            omega
          rw [hall, List.toFinset_cons, h.seen]
      · refine List.Nodup.sublist (List.take_sublist _ _) (List.nodup_cons.mpr ⟨fun hin => hx ?_, h.nodup⟩)
        rw [h.seen]
        exact List.mem_toFinset.mpr hin

lemma tracks_init (window : ℕ) : Tracks window [] .init := ⟨by simp [recent, admitted, DuplicateTracker.init], rfl, List.nodup_nil⟩

lemma Answered.ask {window : ℕ} {answers : List (Option String × Bool)} {t : DuplicateTracker}
    (h : Answered window answers) (ht : Tracks window answers t) (id : Option String) :
    Answered window (answers ++ [(id, (t.ask window id).1)]) := by
  intro before id' answer after hs
  rcases split_concat hs with ⟨rest, hold⟩ | ⟨rfl, heq⟩
  · exact h before id' answer rest hold
  · obtain ⟨rfl, rfl⟩ := Prod.mk.inj heq
    exact ⟨ht.ids ▸ ht.nodup, (ht.ask id').1⟩

/-! ### The queue -/

variable {maxsize : ℕ} {q q' : List Item} {item : Item} {e old : QueuedEvent} {rest : List Item}

lemma putNowait_eq_some (h : putNowait maxsize q item = some q') : q.length < maxsize ∧ q' = q ++ [item] := by
  unfold putNowait at h
  split at h
  · cases h
  · exact ⟨not_le.mp ‹_›, (Option.some.inj h).symm⟩

lemma putNowait_of_lt (h : q.length < maxsize) : putNowait maxsize q item = some (q ++ [item]) := if_neg (not_le.mpr h)

lemma putNowait_of_le (h : maxsize ≤ q.length) : putNowait maxsize q item = none := if_pos h

lemma enqueue_room (h : q.length < maxsize) : enqueue maxsize q e = ⟨q ++ [.event e], none, true⟩ := by
  unfold enqueue
  rw [putNowait_of_lt h]

lemma enqueue_full (h : (Item.event old :: rest).length = maxsize) :
    enqueue maxsize (.event old :: rest) e = ⟨rest ++ [.event e], some old, true⟩ := by
  have hr : putNowait maxsize rest (.event e) = some (rest ++ [.event e]) := by
    apply putNowait_of_lt
    rw [List.length_cons] at h
    omega
  unfold enqueue
  rw [putNowait_of_le h.ge]
  simp [makeRoom, hr]

lemma enqueue_sentinel (h : (Item.sentinel :: rest).length = maxsize) :
    enqueue maxsize (.sentinel :: rest) e = ⟨rest ++ [.sentinel], none, false⟩ := by
  rw [List.length_cons] at h
  have hb : putNowait maxsize rest .sentinel = some (rest ++ [.sentinel]) := by
    apply putNowait_of_lt
    omega
  have hf : putNowait maxsize (rest ++ [.sentinel]) (.event e) = none := by
    apply putNowait_of_le
    rw [List.length_append, List.length_singleton]
    omega
  unfold enqueue
  rw [putNowait_of_le (by rw [List.length_cons]; omega)]
  simp [makeRoom, hb, hf]

@[simp] lemma events_append (q q' : List Item) : events (q ++ q') = events q ++ events q' := List.filterMap_append ..

@[simp] lemma sentinels_append (q q' : List Item) : sentinels (q ++ q') = sentinels q + sentinels q' := List.countP_append ..

@[simp] lemma events_event (e : QueuedEvent) (q : List Item) : events (.event e :: q) = e :: events q := rfl

@[simp] lemma events_sentinel (q : List Item) : events (.sentinel :: q) = events q := rfl

@[simp] lemma events_nil : events [] = [] := rfl

@[simp] lemma sentinels_event (e : QueuedEvent) (q : List Item) : sentinels (.event e :: q) = sentinels q := by
  simp [sentinels]

@[simp] lemma sentinels_sentinel (q : List Item) : sentinels (.sentinel :: q) = sentinels q + 1 := by
  simp [sentinels]

@[simp] lemma sentinels_nil : sentinels [] = 0 := rfl

lemma enqueue_cases (hpos : 0 < maxsize) (hlen : q.length ≤ maxsize) (e : QueuedEvent) :
    (q.length < maxsize ∧ enqueue maxsize q e = ⟨q ++ [.event e], none, true⟩) ∨
    (∃ old rest, q = .event old :: rest ∧ q.length = maxsize ∧
      enqueue maxsize q e = ⟨rest ++ [.event e], some old, true⟩) ∨
    ∃ rest, q = .sentinel :: rest ∧ q.length = maxsize ∧ enqueue maxsize q e = ⟨rest ++ [.sentinel], none, false⟩ := by
  rcases hlen.lt_or_eq with hlt | hf
  · exact .inl ⟨hlt, enqueue_room hlt⟩
  · cases q with
    | nil => exact absurd hf (ne_of_lt hpos)
    | cons item rest =>
      cases item with
      | event old => exact .inr (.inl ⟨old, rest, rfl, hf, enqueue_full hf⟩)
      | sentinel => exact .inr (.inr ⟨rest, rfl, hf, enqueue_sentinel hf⟩)

/-! ### What every step keeps -/

variable {s s' : Dispatcher} {envelope : Option (List (String × Json))} {topic : Option String}

/-- What holds in every state, whether or not an `enqueue` has raised. -/
structure Inv (limits : Limits) (s : Dispatcher) : Prop where
  room : s.queue.length ≤ limits.maxsize
  signals : s.signalled = s.taken + sentinels s.queue
  kept : (s.handled ++ s.drops.map Drop.event ++ events s.queue).Perm s.put
  oldest : ∀ d ∈ s.drops, d.queue.length = limits.maxsize ∧ (events d.queue).head? = some d.event
  ordered : (s.handled ++ events s.queue).Sublist s.put
  answered : Answered limits.window s.answers
  ids : s.answers.map Prod.fst = s.handled.map QueuedEvent.eventId
  tracks : Tracks limits.window s.answers s.tracker

lemma inv_init (limits : Limits) : Inv limits .init where
  room := Nat.zero_le _
  signals := rfl
  kept := .refl _
  oldest _ hd := absurd hd List.not_mem_nil
  ordered := .refl _
  answered before id answer after h := absurd h.symm (by simp [Dispatcher.init])
  ids := rfl
  tracks := tracks_init limits.window

lemma Inv.enqueue (h : Inv limits s) (hst : dispatcherStep limits s (.enqueue envelope topic) = some s') :
    Inv limits s' := by
  cases hst
  rcases enqueue_cases limits.maxsize_pos h.room ⟨s.put.length, envelope, topic⟩ with
    ⟨hlt, henq⟩ | ⟨old, rest, hq, hf, henq⟩ | ⟨rest, hq, hf, henq⟩
  · rw [henq]
    refine { h with room := ?_, signals := ?_, kept := ?_, oldest := ?_, ordered := ?_ }
    · simp only [List.length_append, List.length_singleton]
      omega
    · simpa using h.signals
    · simp only [Option.map_none, Option.toList_none, List.append_nil, events_append, events_event, events_nil, if_true]
      rw [← List.append_assoc]
      exact h.kept.append_right _
    · simpa using h.oldest
    · simp only [events_append, events_event, events_nil, if_true]
      rw [← List.append_assoc]
      exact h.ordered.append (.refl _)
  · rw [henq]
    refine { h with room := ?_, signals := ?_, kept := ?_, oldest := ?_, ordered := ?_ }
    · rw [hq, List.length_cons] at hf
      simp only [List.length_append, List.length_singleton]
      omega
    · have hs := h.signals
      rw [hq, sentinels_event] at hs
      simpa using hs
    · -- the oldest event goes from the head of the queue to the end of the drops
      have hk := h.kept
      rw [hq, events_event] at hk
      simp only [Option.map_some, Option.toList_some, List.map_append, List.map_cons, List.map_nil, events_append,
        events_event, events_nil, if_true]
      have hsm : s.handled ++ (s.drops.map Drop.event ++ [old]) ++ (events rest ++ [⟨s.put.length, envelope, topic⟩]) =
          s.handled ++ s.drops.map Drop.event ++ old :: events rest ++ [⟨s.put.length, envelope, topic⟩] := by simp
      rw [hsm]
      exact hk.append_right _
    · intro d hd
      rcases List.mem_append.mp hd with hd | hd
      · exact h.oldest d hd
      · obtain rfl := List.mem_singleton.mp hd
        exact ⟨hf, by rw [hq]; rfl⟩
    · have hor := h.ordered
      rw [hq, events_event] at hor
      simp only [events_append, events_event, events_nil, if_true]
      rw [← List.append_assoc]
      refine List.Sublist.append (.trans ?_ hor) (.refl _)
      exact (List.Sublist.refl _).append (List.sublist_cons_self old _)
  · rw [henq]
    have hs := h.signals
    have hk := h.kept
    have hor := h.ordered
    rw [hq] at hs hk hor
    refine { h with room := ?_, signals := ?_, kept := ?_, oldest := ?_, ordered := ?_ }
    · rw [hq, List.length_cons] at hf
      simp only [List.length_append, List.length_singleton]
      omega
    · simpa using hs
    · simpa using hk
    · simpa using h.oldest
    · simpa using hor

lemma Inv.take (h : Inv limits s) (hst : dispatcherStep limits s .take = some s') : Inv limits s' := by
  simp only [dispatcherStep] at hst
  split at hst
  · rename_i rest _ hq
    cases hst
    have hr := h.room
    have hs := h.signals
    have hk := h.kept
    have hor := h.ordered
    rw [hq] at hr hs hk hor
    refine { h with room := ?_, signals := ?_, kept := hk, ordered := hor }
    · exact (Nat.le_succ _).trans hr
    · rw [sentinels_sentinel] at hs
      show s.signalled = s.taken + 1 + sentinels rest
      omega
  · rename_i e rest _ hq
    cases hst
    have hr := h.room
    have hs := h.signals
    have hk := h.kept
    have hor := h.ordered
    rw [hq] at hr hs hk hor
    refine { h with
      room := (Nat.le_succ _).trans hr, signals := ?_, kept := ?_, ordered := ?_, answered := ?_, ids := ?_, tracks := ?_ }
    · rwa [sentinels_event] at hs
    · -- the event goes from the head of the queue to the end of the handled ones
      refine .trans ?_ hk
      rw [List.append_assoc, List.append_assoc, List.append_assoc, List.singleton_append]
      exact List.Perm.append_left _ List.perm_middle.symm
    · rw [List.append_assoc]
      exact hor
    · exact h.answered.ask h.tracks e.eventId
    · rw [List.map_append, List.map_append, h.ids]
      rfl
    · exact (h.tracks.ask e.eventId).2
  · cases hst

lemma Inv.signal (h : Inv limits s) (hs : dispatcherStep limits s .signal = some s') : Inv limits s' := by
  simp only [dispatcherStep] at hs
  split at hs
  · cases hs
  · obtain ⟨q, hput, rfl⟩ := Option.map_eq_some_iff.mp hs
    obtain ⟨hlt, rfl⟩ := putNowait_eq_some hput
    refine { h with room := ?_, signals := ?_, kept := ?_, ordered := ?_ }
    · simp only [List.length_append, List.length_singleton]
      omega
    · have hsg := h.signals
      simp only [sentinels_append, sentinels_sentinel, sentinels_nil]
      omega
    · simpa using h.kept
    · simpa using h.ordered

lemma Inv.step {ev : DispatcherEvent} (h : Inv limits s) (hs : dispatcherStep limits s ev = some s') :
    Inv limits s' := by
  cases ev with
  | enqueue envelope topic => exact h.enqueue hs
  | take => exact h.take hs
  | signal => exact h.signal hs
  | start =>
    simp only [dispatcherStep] at hs
    split at hs <;> cases hs
    · exact { h with }
    · exact { h with }
    · exact h
  | stop =>
    simp only [dispatcherStep] at hs
    split at hs <;> cases hs
    · exact h
    · exact { h with }
  | finish =>
    simp only [dispatcherStep] at hs
    split at hs <;> cases hs
    exact { h with }
  | stopped =>
    simp only [dispatcherStep] at hs
    split at hs <;> cases hs
    exact { h with }

/-- **An `enqueue` raises** exactly where the sentinel is in its way; no other step does. -/
theorem raised_step {ev : DispatcherEvent} (h : Inv limits s) (hs : dispatcherStep limits s ev = some s') :
    s'.raised = false ↔ s.raised = false ∧ Open limits s ev := by
  cases ev with
  | enqueue envelope topic =>
    cases hs
    rcases enqueue_cases limits.maxsize_pos h.room ⟨s.put.length, envelope, topic⟩ with
      ⟨hlt, henq⟩ | ⟨old, rest, hq, hf, henq⟩ | ⟨rest, hq, hf, henq⟩
    · rw [henq]
      simp only [Bool.not_true, Bool.or_false]
      exact (and_iff_left fun hf => absurd hf (ne_of_lt hlt)).symm
    · rw [henq]
      simp only [Bool.not_true, Bool.or_false]
      refine (and_iff_left fun _ rest' hq' => ?_).symm
      cases hq.symm.trans hq'
    · rw [henq]
      simp only [Bool.not_false, Bool.or_true, Bool.true_eq_false, false_iff]
      exact fun hopen => hopen.2 hf rest hq
  | take =>
    simp only [dispatcherStep] at hs
    split at hs
    · cases hs
      exact (and_iff_left trivial).symm
    · cases hs
      exact (and_iff_left trivial).symm
    · cases hs
  | signal =>
    simp only [dispatcherStep] at hs
    split at hs
    · cases hs
    · obtain ⟨q, -, rfl⟩ := Option.map_eq_some_iff.mp hs
      exact (and_iff_left trivial).symm
  | start =>
    simp only [dispatcherStep] at hs
    split at hs <;> cases hs <;> exact (and_iff_left trivial).symm
  | stop =>
    simp only [dispatcherStep] at hs
    split at hs <;> cases hs <;> exact (and_iff_left trivial).symm
  | finish =>
    simp only [dispatcherStep] at hs
    split at hs <;> cases hs
    exact (and_iff_left trivial).symm
  | stopped =>
    simp only [dispatcherStep] at hs
    split at hs <;> cases hs
    exact (and_iff_left trivial).symm

lemma inv_of_run {P : Dispatcher → DispatcherEvent → Prop} (h : Run (dispatcherStep limits) P .init s) : Inv limits s :=
  h.invariant (inv_init limits) fun _ _ _ hinv _ hs => hinv.step hs

lemma faithful_iff (h : Inv limits s) : Faithful limits s ↔ s.raised = false :=
  ⟨Faithful.enqueued, fun hr => ⟨hr, h.signals, h.kept, h.oldest, h.ordered, h.answered, h.ids⟩⟩

/-- **Every run** is faithful exactly where none of its events is enqueued while the queue is full and the sentinel is
next. -/
theorem open_iff (limits : Limits) (s : Dispatcher) : Run (dispatcherStep limits) (Open limits) .init s ↔
    Run (dispatcherStep limits) (fun _ _ => True) .init s ∧ Faithful limits s := by
  constructor
  · intro h
    refine ⟨h.mono fun _ _ _ => trivial, (faithful_iff (inv_of_run h)).mpr ?_⟩
    have hboth : Inv limits s ∧ s.raised = false := by
      refine h.invariant (I := fun s => Inv limits s ∧ s.raised = false) ⟨inv_init limits, rfl⟩ ?_
      intro s e s' hI hopen hstep
      exact ⟨hI.1.step hstep, (raised_step hI.1 hstep).mpr ⟨hI.2, hopen⟩⟩
    exact hboth.2
  · rintro ⟨h, hfaithful⟩
    have hraised := hfaithful.enqueued
    clear hfaithful
    induction h with
    | init => exact .init
    | next hrun _ hstep ih =>
      obtain ⟨hold, hopen⟩ := (raised_step (inv_of_run hrun) hstep).mp hraised
      exact (ih hold).next hopen hstep

def single : Limits := ⟨1, 1, Nat.one_pos, Nat.one_pos⟩

/-- **An `enqueue` raises**: the sentinel is the one item of a full queue. -/
theorem sentinel_in_the_way : ∃ s, Run (dispatcherStep single) (fun _ _ => True) .init s ∧ ¬Faithful single s := by
  have hexec : (execIf (dispatcherStep single) (fun _ _ => true) .init
      [.start, .stop, .signal, .enqueue none none]).any Dispatcher.raised := by decide +kernel
  obtain ⟨s, hrun, hs⟩ := exists_run _ _ _ _ _ hexec
  exact ⟨s, hrun.mono fun _ _ _ => trivial, fun h => Bool.false_ne_true (h.enqueued.symm.trans hs)⟩

end Qmtl.Gateway.Ws

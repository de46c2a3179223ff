import Qmtl.Gateway.ControlBus
import Qmtl.Lib.Interleave

/-! Delivery of ControlBus messages to the WebSocket hub.

`_track_delivery` remembers a message's marker before the message is dispatched, and nothing takes
the marker back when the dispatch raises. -/

namespace Qmtl.Gateway.ControlBus

open Lib

/-! ### The store and its operations -/

/-- What `_last_seen` compares: the topic and key of a message, and its marker. -/
abbrev Tag := (String × String) × List Value

/-- The consumer's memory. The last three fields record what happened: which calls are dispatching
what, which calls have completed what, and what was dropped, with what was completed by then. -/
structure Store where
  lastSeen : String × String → Option (List Value)
  knownTagIntervals : List (List String × ℤ × String)
  inFlight : List (ℕ × Tag)
  done : List (ℕ × Tag)
  dropped : List (Tag × List (ℕ × Tag))

inductive Exc where
  | hubError | ackError | policyError
  deriving DecidableEq, Repr

/-- What the coroutines await: the memory's `_track_delivery` and `_known_tag_intervals`, the
acknowledgement, a `send_*` of the hub, and the rebalancing policy. `completed` is for the record
only. -/
inductive Op where
  | trackDelivery (tag : Tag)
  | noteTagInterval (key : List String × ℤ × String)
  | publishAck
  | send (event : String)
  | shouldExecute
  | execute
  | completed (tag : Tag)

/-- `trackDelivery` answers whether the message is new, `noteTagInterval` whether the tags are
known. -/
abbrev Op.Ans : Op → Type
  | .trackDelivery _ | .noteTagInterval _ | .shouldExecute => Bool
  | _ => Unit

/-- What the environment chooses: whether the operation raises, and what the policy answers. -/
structure Env where
  ok : Bool
  answer : Bool

abbrev Bus (α : Type) := Coro Op Op.Ans Exc α

def perform (i : ℕ) (o : Op) (e : Env) (s : Store) : Except Exc o.Ans × Store :=
  match o with
  | .trackDelivery tag =>
    if s.lastSeen tag.1 = some tag.2 then (.ok false, { s with dropped := s.dropped ++ [(tag, s.done)] })
    else (.ok true, { s with
      lastSeen := Function.update s.lastSeen tag.1 (some tag.2)
      inFlight := s.inFlight ++ [(i, tag)] })
  | .noteTagInterval key =>
    if key ∈ s.knownTagIntervals then (.ok true, s)
    else (.ok false, { s with knownTagIntervals := key :: s.knownTagIntervals })
  | .publishAck => (if e.ok then .ok () else .error .ackError, s)
  | .send _ =>
    if e.ok then (.ok (), s)
    else (.error .hubError, { s with inFlight := s.inFlight.filter fun p => p.1 ≠ i })
  | .shouldExecute => (if e.ok then .ok e.answer else .error .policyError, s)
  | .execute => (if e.ok then .ok () else .error .policyError, s)
  | .completed tag => (.ok (), { s with
      done := s.done ++ [(i, tag)]
      inFlight := s.inFlight.filter fun p => p ≠ (i, tag) })

def ask (o : Op) : Bus o.Ans := Coro.perform o

/-! ### The code -/

structure Consumer where
  wsHub : Bool
  rebalancingPolicy : Bool
  ackProducer : Bool
  sha256 : String → String

def tracked (tag : Tag) (dispatch : Bus Unit) : Bus Unit := do
  let fresh : Bool ← ask (.trackDelivery tag)
  if fresh then
    dispatch
    ask (.completed tag)
  else return

namespace Consumer

variable (c : Consumer) (msg : ControlBusMessage)

def notifyRebalancing : Bus Unit := if c.wsHub then ask (.send "rebalancing_planned") else return

def maybeExecuteRebalance : Bus Unit :=
  if c.rebalancingPolicy then do
    let shouldExecute : Bool ← (ask .shouldExecute).tryExcept fun _ => pure false
    if shouldExecute then (ask .execute).tryExcept fun _ => pure () else return
  else return

def processRebalancingPlanned : Bus Unit :=
  match msg.data.planned with
  | none => return
  | some payload => tracked ((msg.topic, msg.key), payload.marker c.sha256) do
      c.notifyRebalancing
      c.maybeExecuteRebalance

def processSentinelWeight : Bus Unit :=
  match msg.data.sentinel with
  | none => return
  | some payload => tracked ((msg.topic, msg.key), payload.marker)
      (if c.wsHub then ask (.send "sentinel_weight") else return)

def recordApplyAckMetrics (awaitPublish : Bool) : Bus Unit :=
  if msg.data.requiresAck && awaitPublish && c.ackProducer then
    (ask .publishAck).tryExcept fun _ => pure ()
  else return

def handleQueueUpdate : Bus Unit := do
  ask (.send "queue_update")
  let known : Bool ← ask (.noteTagInterval
    (msg.data.tags.insertionSort (· ≤ ·), msg.data.interval, msg.data.executionDomain))
  if known then return else ask (.send "tagquery.upsert")

def dispatchGenericMessage : Bus Unit :=
  if msg.data.version ≠ .num 1 then return
  else if msg.topic = "activation" then ask (.send "activation_updated")
  else if msg.topic = "policy" then ask (.send "policy_updated")
  else if msg.topic = "queue" then
    if msg.data.isQueueLifecycle then ask (.send "queue_lifecycle") else handleQueueUpdate msg
  else return

def processGenericMessageNow (awaitActivationAck : Bool) (activationSequence : Option ℤ) : Bus Unit :=
  tracked ((msg.topic, msg.key), msg.genericMarker activationSequence) do
    (if msg.topic = "activation" then c.recordApplyAckMetrics msg awaitActivationAck else pure ())
    (if c.wsHub then dispatchGenericMessage msg else pure ())

def processGenericMessage : Bus Unit :=
  if msg.shouldDropInvalidAckSequence then return
  else if msg.sequencedActivationContext.isSome then return
  else c.processGenericMessageNow msg false none

def handleMessage : Bus Unit :=
  if msg.topic = "rebalancing_planned" then c.processRebalancingPlanned msg
  else if msg.topic = "sentinel_weight" then c.processSentinelWeight msg
  else c.processGenericMessage msg

end Consumer

/-! ### Any number of deliveries -/

/-- A message comes from the broker or the queue, or the sequencer hands one on. -/
inductive Delivery where
  | handle (msg : ControlBusMessage)
  | handOn (msg : ControlBusMessage) (sequence : ℤ)

abbrev Cfg := Config Op Op.Ans Exc Unit Store Delivery
abbrev Ev := Event Env Empty Delivery

def system (c : Consumer) : System Op Op.Ans Exc Unit Store Env Empty Delivery where
  code
    | .handle msg => c.handleMessage msg
    | .handOn msg sequence => c.processGenericMessageNow msg true (some sequence)
  perform := perform
  disturb x _ := x.elim
  may _ _ := true

def init : Cfg := ⟨⟨fun _ => none, [], [], [], []⟩, []⟩

/-- **Dispatch is at-least-once**: what is dropped as a duplicate has the tag of a delivery that had
completed its dispatch by then, and that delivery has returned. -/
def AtLeastOnce (c : Cfg) : Prop :=
  ∀ d ∈ c.store.dropped, ∃ j, (j, d.1) ∈ d.2 ∧ ∃ a, c.calls[j]? = some (a, .ret ())

def isDone (s : Store) (tag : Tag) : Bool := s.done.any fun p => p.2 = tag

def soundOp (i : ℕ) (o : Op) (e : Env) (s : Store) : Bool :=
  match o with
  | .send _ => e.ok || s.inFlight.all fun p => p.1 ≠ i || isDone s p.2
  | .trackDelivery tag => isDone s tag || s.inFlight.all fun p => p.2 ≠ tag
  | _ => true

def sound (c : Cfg) : Ev → Bool
  | .resume i e =>
    match c.calls[i]? with
    | some (_, .await o _) => soundOp i o e c.store
    | _ => true
  | _ => true

/-! ### The memory -/

structure Remembered (s : Store) : Prop where
  seen : ∀ key marker, s.lastSeen key = some marker →
    isDone s (key, marker) = true ∨ ∃ p ∈ s.inFlight, p.2 = (key, marker)
  dropped : ∀ d ∈ s.dropped, (∃ j, (j, d.1) ∈ d.2) ∧ d.2 ⊆ s.done

section Memory

variable {s : Store} {i : ℕ} {o : Op} {e : Env}

variable {tag : Tag}

lemma isDone_iff : isDone s tag ↔ ∃ j, (j, tag) ∈ s.done := by
  simp [isDone]

lemma Remembered.trackDelivery (h : Remembered s) (hs : soundOp i (.trackDelivery tag) e s) :
    Remembered (perform i (.trackDelivery tag) e s).2 := by
  simp only [perform]
  split
  · rename_i hsn
    refine ⟨h.seen, ?_⟩
    intro d hd
    rcases List.mem_append.mp hd with hd | hd
    · exact h.dropped d hd
    · -- the new duplicate: its tag is remembered, and no dispatch of it is under way
      rw [List.mem_singleton] at hd
      subst hd
      refine ⟨isDone_iff.mp ?_, fun _ h => h⟩
      simp only [soundOp, Bool.or_eq_true, List.all_eq_true, decide_eq_true_eq] at hs
      rcases hs with hs | hs
      · exact hs
      · refine (h.seen tag.1 tag.2 hsn).resolve_right ?_
        rintro ⟨p, hp, hpt⟩
        exact hs p hp hpt
  · refine ⟨?_, h.dropped⟩
    intro key marker hk
    by_cases hkey : key = tag.1
    · subst hkey
      simp only [Function.update_self, Option.some.injEq] at hk
      subst hk
      exact .inr ⟨(i, tag), by simp, rfl⟩
    · simp only [Function.update_of_ne hkey] at hk
      refine (h.seen key marker hk).imp_right ?_
      rintro ⟨p, hp, hpt⟩
      exact ⟨p, List.mem_append_left _ hp, hpt⟩

lemma Remembered.filter (h : Remembered s) {done : List (ℕ × Tag)} {q : ℕ × Tag → Bool}
    (hsub : s.done ⊆ done) (hq : ∀ p ∈ s.inFlight, q p = false → ∃ j, (j, p.2) ∈ done) :
    Remembered { s with done, inFlight := s.inFlight.filter q } := by
  constructor
  · intro key marker hk
    rcases h.seen key marker hk with hd | ⟨p, hp, hpt⟩
    · obtain ⟨j, hj⟩ := isDone_iff.mp hd
      exact .inl (isDone_iff.mpr ⟨j, hsub hj⟩)
    · cases hqp : q p with
      | false =>
        obtain ⟨j, hj⟩ := hq p hp hqp
        exact .inl (isDone_iff.mpr ⟨j, hpt ▸ hj⟩)
      | true => exact .inr ⟨p, List.mem_filter.mpr ⟨hp, hqp⟩, hpt⟩
  · intro d hd
    obtain ⟨hj, hd⟩ := h.dropped d hd
    exact ⟨hj, fun _ h => hsub (hd h)⟩

lemma Remembered.send {event : String} (h : Remembered s) (hs : soundOp i (.send event) e s) :
    Remembered (perform i (.send event) e s).2 := by
  simp only [perform]
  split
  · exact h
  · rename_i hok
    refine h.filter (fun _ h => h) ?_
    intro p hp hpi
    simp only [soundOp, hok, Bool.false_or, List.all_eq_true, Bool.or_eq_true] at hs
    exact isDone_iff.mp ((hs p hp).resolve_left (by simp [hpi]))

lemma Remembered.completed (h : Remembered s) : Remembered (perform i (.completed tag) e s).2 := by
  refine h.filter (List.subset_append_left _ _) ?_
  intro p _ hpi
  have hp : p = (i, tag) := by simpa using hpi
  exact ⟨i, by simp [hp]⟩

lemma Remembered.perform (h : Remembered s) (hs : soundOp i o e s) : Remembered (perform i o e s).2 := by
  cases o with
  | trackDelivery tag => exact h.trackDelivery hs
  | noteTagInterval key =>
    simp only [ControlBus.perform]
    split
    · exact h
    · exact ⟨h.seen, h.dropped⟩
  | publishAck => exact h
  | send event => exact h.send hs
  | shouldExecute => exact h
  | execute => exact h
  | completed tag => exact h.completed

lemma perform_done : (perform i o e s).2.done = s.done ∨
    ∃ tag, o = .completed tag ∧ (perform i o e s).2.done = s.done ++ [(i, tag)] := by
  cases o with
  | completed tag => exact .inr ⟨tag, rfl, rfl⟩
  | _ =>
    left
    simp only [perform]
    try split
    all_goals rfl

end Memory

/-! ### The code -/

/-- After `completed` there is nothing left to do. -/
def EndsCompleted (m : Bus Unit) : Prop :=
  ∀ tag k, m = .await (.completed tag) k → k (.ok ()) = .ret ()

def Op.isCompleted : Op → Bool
  | .completed _ => true
  | _ => false

lemma EndsCompleted.of_other {o : Op} {k : Except Exc o.Ans → Bus Unit} (ho : o.isCompleted = false) :
    EndsCompleted (.await o k) := by
  intro tag k' heq
  cases heq
  cases ho

lemma always_tracked {tag : Tag} {dispatch : Bus Unit}
    (hd : Uses (fun o => o.isCompleted = false) dispatch) : Always EndsCompleted (tracked tag dispatch) := by
  refine Always.bind (.of_uses (fun o k ho => .of_other ho) (Uses.perform rfl)) ?_
  intro fresh
  split
  · refine Always.bind (.of_uses (fun o k ho => .of_other ho) hd) fun _ => Always.perform ?_
    intro tag' k heq
    cases heq
    rfl
  · trivial

namespace Consumer

variable (c : Consumer) (msg : ControlBusMessage)

lemma uses_send (event : String) : Uses (fun o => o.isCompleted = false) (ask (.send event)) :=
  Uses.perform rfl

lemma uses_maybeExecuteRebalance : Uses (fun o => o.isCompleted = false) c.maybeExecuteRebalance := by
  unfold maybeExecuteRebalance
  split
  · refine Uses.bind (Uses.tryExcept (Uses.perform rfl) fun _ => trivial) ?_
    intro shouldExecute
    split
    · exact Uses.tryExcept (Uses.perform rfl) fun _ => trivial
    · trivial
  · trivial

lemma uses_dispatchGenericMessage : Uses (fun o => o.isCompleted = false) (dispatchGenericMessage msg) := by
  unfold dispatchGenericMessage
  split
  · trivial
  · split
    · exact uses_send _
    · split
      · exact uses_send _
      · split
        · split
          · exact uses_send _
          · refine Uses.bind (uses_send _) fun _ => Uses.bind (Uses.perform rfl) ?_
            intro known
            split
            · trivial
            · exact uses_send _
        · trivial

lemma always_processGenericMessageNow (awaitAck : Bool) (sequence : Option ℤ) :
    Always EndsCompleted (c.processGenericMessageNow msg awaitAck sequence) := by
  refine always_tracked (Uses.bind ?_ ?_)
  · unfold recordApplyAckMetrics
    split
    · split
      · exact Uses.tryExcept (Uses.perform rfl) fun _ => trivial
      · trivial
    · trivial
  · intro _
    split
    · exact uses_dispatchGenericMessage msg
    · trivial

lemma always_handleMessage : Always EndsCompleted (c.handleMessage msg) := by
  unfold handleMessage
  split
  · unfold processRebalancingPlanned
    split
    · trivial
    · refine always_tracked (Uses.bind ?_ fun _ => c.uses_maybeExecuteRebalance)
      unfold notifyRebalancing
      split
      · exact uses_send _
      · trivial
  · split
    · unfold processSentinelWeight
      split
      · trivial
      · apply always_tracked
        split
        · exact uses_send _
        · trivial
    · unfold processGenericMessage
      split
      · trivial
      · split
        · trivial
        · exact c.always_processGenericMessageNow msg _ _

lemma always_code (a : Delivery) : Always EndsCompleted ((system c).code a) := by
  cases a with
  | handle msg => exact c.always_handleMessage msg
  | handOn msg sequence => exact c.always_processGenericMessageNow msg _ _

end Consumer

def Returned (c : Cfg) : Prop :=
  ∀ p ∈ c.store.done, ∃ a, c.calls[p.1]? = some (a, .ret ())

lemma returned_of_run {consumer : Consumer} {P : Cfg → Ev → Prop} {c : Cfg}
    (h : (system consumer).Run P init c) : Returned c := by
  induction h with
  | init => exact fun p hp => by cases hp
  | @next c c' ev hrun hP hs ih =>
    obtain ⟨-, ⟨a, rfl, rfl⟩ | ⟨i, e, a, o, k, rfl, hi, rfl⟩ | ⟨x, rfl, -⟩⟩ := System.step_cases hs
    · intro p hp
      obtain ⟨b, hb⟩ := ih p hp
      have hlt := (List.getElem?_eq_some_iff.mp hb).1
      exact ⟨b, by rw [List.getElem?_append_left hlt, hb]⟩
    · have hlt := (List.getElem?_eq_some_iff.mp hi).1
      -- a call that has returned is not the one that goes on
      have hk : ∀ p ∈ c.store.done, ∃ b,
          (c.calls.set i (a, k ((system consumer).perform i o e c.store).1))[p.1]? = some (b, .ret ()) := by
        intro p hp
        obtain ⟨b, hb⟩ := ih p hp
        have hne : i ≠ p.1 := by
          rintro rfl
          rw [hi] at hb
          cases hb
        exact ⟨b, by rw [List.getElem?_set_ne hne, hb]⟩
      intro p hp
      rcases perform_done (i := i) (o := o) (e := e) (s := c.store) with hd | ⟨tag, rfl, hd⟩
      · exact hk p (hd ▸ hp)
      · have hp : p ∈ c.store.done ++ [(i, tag)] := hd ▸ hp
        rcases List.mem_append.mp hp with hp | hp
        · exact hk p hp
        · rw [List.mem_singleton] at hp
          subst hp
          have hen := (System.Run.always consumer.always_code rfl hrun hi).1 tag k rfl
          exact ⟨a, by rw [List.getElem?_set_self hlt]; exact congrArg (fun m => some (a, m)) hen⟩
    · exact x.elim

lemma remembered_of_run {consumer : Consumer} {c : Cfg}
    (h : (system consumer).Run (fun c ev => sound c ev) init c) : Remembered c.store := by
  have h₀ : Remembered init.store := ⟨nofun, nofun⟩
  refine h.invariant (I := fun c => Remembered c.store) h₀ ?_
  intro c ev c' hI hP hs
  obtain ⟨-, ⟨a, rfl, rfl⟩ | ⟨i, e, a, o, k, rfl, hi, rfl⟩ | ⟨x, rfl, -⟩⟩ := System.step_cases hs
  · exact hI
  · simp only [sound, hi] at hP
    exact hI.perform hP
  · exact x.elim

/-- **Dispatch is at-least-once in every run of sound steps.** -/
theorem atLeastOnce_of_sound {consumer : Consumer} {c : Cfg}
    (h : (system consumer).Run (fun c ev => sound c ev = true) init c) : AtLeastOnce c := by
  intro d hd
  obtain ⟨⟨j, hj⟩, hsub⟩ := (remembered_of_run h).dropped d hd
  exact ⟨j, hj, returned_of_run h (j, d.1) (hsub hj)⟩

def consumer : Consumer := ⟨true, false, false, id⟩

def policy : ControlBusMessage :=
  ⟨"policy", "w", "", "", ⟨false, none, none, none, .str "sum", .num 1, .num 1, false, [], 0, "", none, none⟩⟩

/-- The second delivery is dropped after the first has completed. -/
theorem atLeastOnce_of_sound_twice : ∃ c, (system consumer).Run (fun c ev => sound c ev = true) init c ∧
    c.store.dropped.length = 1 ∧ AtLeastOnce c := by
  obtain ⟨c, hrun, hq⟩ := exists_run (system consumer).step init sound
    [.start (.handle policy), .resume 0 ⟨true, true⟩, .resume 0 ⟨true, true⟩, .resume 0 ⟨true, true⟩,
      .start (.handle policy), .resume 1 ⟨true, true⟩]
    (fun c => c.store.dropped.length = 1) (by decide)
  exact ⟨c, hrun, by simpa using hq, atLeastOnce_of_sound hrun⟩

/-- The hub raises on the first delivery, and the second is dropped. -/
theorem delivery_lost : ∃ c, execIf (system consumer).step (fun _ _ => true) init
    [.start (.handle policy), .resume 0 ⟨true, true⟩, .resume 0 ⟨false, true⟩, .start (.handle policy),
      .resume 1 ⟨true, true⟩] = some c ∧ ¬ AtLeastOnce c := by
  refine exists_execIf (fun c => c.store.dropped.any fun d => d.2.isEmpty) (by decide) ?_
  intro c hq h
  simp only [List.any_eq_true, List.isEmpty_iff] at hq
  obtain ⟨d, hd, hnil⟩ := hq
  obtain ⟨j, hj, -⟩ := h d hd
  rw [hnil] at hj
  cases hj

end Qmtl.Gateway.ControlBus

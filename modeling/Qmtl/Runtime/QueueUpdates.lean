import Qmtl.Lib.Run
import Qmtl.Runtime.TagQueryManager

/-!
A `TagQueryManager` at work: nodes come and go, messages arrive, and polls ask for one key after another. What an update
was to bring about is compared with what the nodes then have.
-/

namespace Qmtl.Runtime.TagQuery

open Lib Foundation

/-! ### The system -/

structure Poll where
  size : ℕ
  key : Key
  list : ℕ

/-- What was announced for a key, and what the nodes registered under it have after that. -/
structure Effect where
  queues : List String
  seen : List (List String)

structure System where
  manager : Manager
  polls : List Poll
  log : List Effect

def System.init : System := ⟨.init, [], []⟩

/-- A message arrives, nodes come and go, the cache is read, or a poll (there may be several) goes on: it asks for its
first key, has an answer or none, or ends with another exception. -/
inductive Event where
  | register (node : Node)
  | unregister (node : Node)
  | message (data : Fields)
  | offline (cache : Dict String (List String))
  | poll (first : Option Key)
  | answer (i : ℕ) (raw : Value) (next : Option Key)
  | unreachable (i : ℕ) (next : Option Key)
  | fail (i : ℕ)

def goOn (m : Manager) (size : ℕ) (next : Option Key) : Option (List Poll) :=
  if m.nodes.entries.length ≠ size then some []
  else match next with
    | none => some []
    | some key => (m.nodes.get? key).map fun r => [⟨size, key, r.id⟩]

def Manager.put (m : Manager) (poll : Poll) (queues : List String) : Manager :=
  match m.nodes.get? poll.key with
  | some r => if r.id = poll.list then m.updateAll r.members queues else m
  | none => m

def System.replace (s : System) (i : ℕ) (polls : List Poll) : System :=
  { s with polls := s.polls.take i ++ polls ++ s.polls.drop (i + 1) }

def System.note (s : System) (key : Key) (queues : List String) : System :=
  { s with log := s.log ++ [⟨queues, (s.manager.registered key).map fun n => (s.manager.state n).upstreams⟩] }

section Steps

variable (B : Builtins)

def updateOf (data : Fields) : Option (Key × List String) :=
  match extractMessagePayload data with
  | some (.str "queue_update", payload) =>
    match canonicalKeyFromPayload B payload, queuesOf B payload with
    | .ok (some key), .ok queues => some (key, queues)
    | _, _ => none
  | _ => none

def step (s : System) : Event → Option System
  | .register node => some { s with manager := (s.manager.register B node).2 }
  | .unregister node => some { s with manager := (s.manager.unregister B node).2 }
  | .message data =>
    let s := { s with manager := (s.manager.handleMessage B data).2 }
    match updateOf B data with
    | some (key, queues) => some (s.note key queues)
    | none => some s
  | .offline cache => some { s with manager := s.manager.resolveOffline cache }
  | .poll first => (goOn s.manager s.manager.nodes.entries.length first).map fun polls =>
      { s with polls := s.polls ++ polls }
  | .answer i raw next => match s.polls[i]? with
    | none => none
    | some poll => match normalizeQueues B raw with
      | .error _ => some (s.replace i [])
      | .ok queues =>
        let s := { s with manager := s.manager.put poll queues }.note poll.key queues
        (goOn s.manager poll.size next).map fun polls => s.replace i polls
  | .unreachable i next => match s.polls[i]? with
    | none => none
    | some poll =>
      let s := { s with manager := s.manager.put poll [] }
      (goOn s.manager poll.size next).map fun polls => s.replace i polls
  | .fail i => some (s.replace i [])

/-- **Updates take effect**: after each of them, every node registered under its key has exactly its queues. -/
def TakeEffect (s : System) : Prop := ∀ e ∈ s.log, ∀ us ∈ e.seen, us.toFinset = e.queues.toFinset

def Manager.Have (m : Manager) (key : Key) (queues : List String) : Prop :=
  ∀ n ∈ m.registered key, (m.state n).upstreams.toFinset = queues.toFinset

/-- A message says anything new of its key, and an answer comes to the list its key has now, or else the nodes have the
queues already. -/
def Ready (s : System) : Event → Prop
  | .message data => ∀ key queues, updateOf B data = some (key, queues) →
    s.manager.isDuplicate key queues = true → s.manager.Have key queues
  | .answer i raw _ => ∀ poll queues r, s.polls[i]? = some poll → normalizeQueues B raw = .ok queues →
    s.manager.nodes.get? poll.key = some r → r.id ≠ poll.list → s.manager.Have poll.key queues
  | _ => True

end Steps

/-! ### One step -/

variable {B : Builtins} {s s' : System} {key : Key} {queues : List String}

lemma handleMessage_update {data : Fields} (m : Manager) (h : updateOf B data = some (key, queues)) :
    (m.handleMessage B data).2 = m.applyUpdate key queues := by
  unfold updateOf at h
  split at h
  · rename_i payload hex
    split at h
    · rename_i hkey hq
      cases h
      simp only [Manager.handleMessage, hex, Value.or, Value.truthy]
      simp only [Manager.handleQueueUpdate, hkey, hq]
      rfl
    · cases h
  · cases h

lemma have_applyUpdate (m : Manager) :
    (m.applyUpdate key queues).Have key queues ↔ (m.isDuplicate key queues → m.Have key queues) := by
  cases hdup : m.isDuplicate key queues with
  | true =>
    rw [applyUpdate_duplicate hdup]
    exact ⟨fun h _ => h, fun h => h rfl⟩
  | false =>
    refine ⟨fun _ h => absurd h Bool.false_ne_true, fun _ n hn => ?_⟩
    rw [registered_applyUpdate] at hn
    rw [upstreams_applyUpdate hdup hn]

lemma nodes_put (m : Manager) (poll : Poll) (queues : List String) : (m.put poll queues).nodes = m.nodes := by
  unfold Manager.put
  split
  · split <;> rfl
  · rfl

lemma have_put (m : Manager) (poll : Poll) : (m.put poll queues).Have poll.key queues ↔
    ∀ r, m.nodes.get? poll.key = some r → r.id ≠ poll.list → m.Have poll.key queues := by
  have hrg : (m.put poll queues).registered poll.key = m.registered poll.key := by
    unfold Manager.registered
    rw [nodes_put]
  cases hlist : m.nodes.get? poll.key with
  | none =>
    refine ⟨fun _ r hr => absurd hr (Option.some_ne_none r).symm, fun _ n hn => ?_⟩
    rw [hrg, Manager.registered, hlist] at hn
    cases hn
  | some r =>
    by_cases hid : r.id = poll.list
    · refine ⟨fun _ r' hr' hne => absurd (Option.some.inj hr' ▸ hid) hne, fun _ n hn => ?_⟩
      rw [hrg, Manager.registered, hlist] at hn
      unfold Manager.put
      rw [hlist]
      simp only [hid, if_true, state_updateAll]
      exact congrArg List.toFinset (if_pos hn)
    · have hput : m.put poll queues = m := by
        unfold Manager.put
        rw [hlist]
        exact if_neg hid
      rw [hput]
      exact ⟨fun h _ _ _ => h, fun h => h r rfl hid⟩

lemma takeEffect_note : TakeEffect (s.note key queues) ↔ TakeEffect s ∧ s.manager.Have key queues := by
  constructor
  · intro h
    refine ⟨fun e he => h e (List.mem_append_left _ he), fun n hn => ?_⟩
    exact h _ (List.mem_append_right _ List.mem_cons_self) _ (List.mem_map_of_mem hn)
  · rintro ⟨hold, hh⟩ e he us hus
    rcases List.mem_append.mp he with he | he
    · exact hold e he us hus
    · obtain rfl := List.mem_singleton.mp he
      obtain ⟨n, hn, rfl⟩ := List.mem_map.mp hus
      exact hh n hn

/-- **One step** keeps what took effect exactly where it is ready to. -/
theorem takeEffect_step {e : Event} (hs : step B s e = some s') : TakeEffect s' ↔ TakeEffect s ∧ Ready B s e := by
  cases e with
  | register node => cases hs; exact (and_iff_left trivial).symm
  | unregister node => cases hs; exact (and_iff_left trivial).symm
  | offline cache => cases hs; exact (and_iff_left trivial).symm
  | fail i => cases hs; exact (and_iff_left trivial).symm
  | poll first =>
    obtain ⟨polls, -, rfl⟩ := Option.map_eq_some_iff.mp hs
    exact (and_iff_left trivial).symm
  | unreachable i next =>
    simp only [step] at hs
    split at hs
    · cases hs
    · obtain ⟨polls, -, rfl⟩ := Option.map_eq_some_iff.mp hs
      exact (and_iff_left trivial).symm
  | message data =>
    simp only [step] at hs
    split at hs
    · rename_i key queues hu
      cases hs
      rw [takeEffect_note]
      refine and_congr Iff.rfl ?_
      rw [handleMessage_update _ hu, have_applyUpdate]
      constructor
      · intro h key' queues' hu' hdup
        obtain ⟨rfl, rfl⟩ : key = key' ∧ queues = queues' := by simpa using hu.symm.trans hu'
        exact h hdup
      · intro h
        exact h key queues hu
    · rename_i hu
      cases hs
      refine (and_iff_left fun key queues h => ?_).symm
      rw [hu] at h
      cases h
  | answer i raw next =>
    simp only [step] at hs
    split at hs
    · cases hs
    rename_i poll hp
    split at hs
    · rename_i hraw
      cases hs
      refine (and_iff_left fun poll' queues r _ h => ?_).symm
      rw [hraw] at h
      cases h
    · rename_i queues hraw
      obtain ⟨polls, -, rfl⟩ := Option.map_eq_some_iff.mp hs
      show TakeEffect (System.note _ poll.key queues) ↔ _
      rw [takeEffect_note]
      refine and_congr Iff.rfl ?_
      rw [have_put]
      constructor
      · intro h poll' queues' r hp' hr' hr hne
        obtain rfl : poll = poll' := Option.some.inj (hp.symm.trans hp')
        obtain rfl : queues = queues' := Except.ok.inj (hraw.symm.trans hr')
        exact h r hr hne
      · intro h r hr hne
        exact h poll queues r hp hraw hr hne

/-- **Every run**: its updates take effect exactly where each of its steps was ready to. -/
theorem ready_iff (B : Builtins) (s : System) :
    Run (step B) (Ready B) .init s ↔ Run (step B) (fun _ _ => True) .init s ∧ TakeEffect s := by
  constructor
  · intro h
    refine ⟨h.mono fun _ _ _ => trivial, ?_⟩
    refine Run.invariant (I := TakeEffect) (fun e he => absurd he List.not_mem_nil) ?_ h
    intro s e s' hI hready hstep
    exact (takeEffect_step hstep).mpr ⟨hI, hready⟩
  · rintro ⟨h, heffect⟩
    induction h with
    | init => exact .init
    | next _ _ hstep ih =>
      obtain ⟨hold, hready⟩ := (takeEffect_step hstep).mp heffect
      exact (ih hold).next hready hstep

def early : Node := ⟨0, ["t1"], some 60, .any⟩

def earlyUpdate : Fields := Dict.ofList [("event", .str "queue_update"), ("data", .dict [
  (.str "tags", .list [.str "t1"]), (.str "interval", .int 60), (.str "match_mode", .str "any"),
  (.str "queues", .list [.dict [(.str "queue", .str "q1"), (.str "global", .bool false)]]), (.str "version", .int 1)])]

/-- **An update is suppressed**: it came before the node, and again after it. -/
theorem update_suppressed : ∃ s, Run (step .ascii) (fun _ _ => True) .init s ∧ ¬TakeEffect s := by
  have hexec : (execIf (step .ascii) (fun _ _ => true) .init
      [.message earlyUpdate, .register early, .message earlyUpdate]).any
        (fun s => decide (¬∀ e ∈ s.log, ∀ us ∈ e.seen, us.toFinset = e.queues.toFinset)) := by decide +kernel
  obtain ⟨s, hrun, hs⟩ := exists_run _ _ _ _ _ hexec
  have hnot : ¬∀ e ∈ s.log, ∀ us ∈ e.seen, us.toFinset = e.queues.toFinset := of_decide_eq_true hs
  exact ⟨s, hrun.mono fun _ _ _ => trivial, hnot⟩

end Qmtl.Runtime.TagQuery

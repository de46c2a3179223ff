import Qmtl.Lib.Log
import Qmtl.Lib.Run
import Qmtl.Runtime.ActivationManager

/-!
The two feeds of an `ActivationManager`: the events that are pushed to it, and the polls that ask the WorldService.
-/

namespace Qmtl.Runtime

open Lib

variable (env : Env)

/-! ### What is announced -/

def Announces (side : Side) (t : SideState) (data : Fields) : Prop :=
  ∃ payload u, extractActivationPayload data = some payload ∧ parseActivationUpdate env payload = .ok u ∧
    selectSide u.side = some side ∧
    u.active = some t.active ∧ u.weight = some t.weight ∧ u.freeze = some t.freeze ∧ u.drain = some t.drain

def reconciled (data : Value) : Fields := Dict.ofList [("event", .str "activation_updated"), ("data", data)]

/-- The activation of a strategy at the WorldService, version by version: what a version is, the event that is pushed
for it, and the answer to a GET that reads it. -/
structure Feed where
  state : Side → ℕ → SideState
  pushed : Side → ℕ → Fields
  answer : Side → ℕ → Value
  pushed_announces : ∀ side v, Announces env side (state side v) (pushed side v)
  answer_announces : ∀ side v, Announces env side (state side v) (reconciled (answer side v))

variable {env}

structure Delivery where
  version : ℕ
  before : SideState
  after : SideState

/-- Where a poll is: about to ask for a side, or with the answer still on its way. -/
inductive Poll where
  | asking (side : Side)
  | answered (side : Side) (version : ℕ)

structure Feeds where
  manager : ActivationState
  current : Side → ℕ
  poll : Option Poll
  received : Side → List Delivery

def Feeds.init : Feeds := ⟨.init, fun _ => 0, none, fun _ => []⟩

def nextPoll : Side → Option Poll
  | .long => some (.asking .short)
  | .short => none

def Feeds.deliver (env : Env) (s : Feeds) (side : Side) (version : ℕ) (data : Fields) : Feeds :=
  let manager := (onMessage env data s.manager).2
  { s with
    manager
    received := Function.update s.received side
      (s.received side ++ [⟨version, s.manager.side side, manager.side side⟩]) }

inductive FeedEvent where
  | write (side : Side)
  | push (side : Side) (version : ℕ)
  | poll
  | get
  | refused
  | failed
  | answer

def feedStep (feed : Feed env) (s : Feeds) : FeedEvent → Option Feeds
  | .write side => some { s with current := Function.update s.current side (s.current side + 1) }
  | .push side v => if 0 < v ∧ v ≤ s.current side then some (s.deliver env side v (feed.pushed side v)) else none
  | .poll => match s.poll with
    | none => some { s with poll := some (.asking .long) }
    | some _ => none
  | .get => match s.poll with
    | some (.asking side) =>
      if s.current side = 0 then some { s with poll := nextPoll side }
      else some { s with poll := some (.answered side (s.current side)) }
    | _ => none
  | .refused => match s.poll with
    | some (.asking side) => some { s with poll := nextPoll side }
    | _ => none
  | .failed => some { s with poll := none }
  | .answer => match s.poll with
    | some (.answered side v) => some ({ s with poll := nextPoll side }.deliver env side v (reconciled (feed.answer side v)))
    | _ => none

def Feeds.versions (s : Feeds) (side : Side) : List ℕ := (s.received side).map Delivery.version

/-- **The activation does not go back**: no message of an older version than one that was applied changes its side, and
each side is as the greatest version applied to it says. -/
structure Forward (feed : Feed env) (s : Feeds) : Prop where
  kept : ∀ side before d after, s.received side = before ++ d :: after → (∃ e ∈ before, d.version < e.version) →
    d.after = d.before
  newest : ∀ side v, IsGreatest {x | x ∈ s.versions side} v → s.manager.side side = feed.state side v

/-! ### One message -/

variable {feed : Feed env} {s s' : Feeds}

variable {side : Side} {data : Fields}

lemma side_onMessage {t : SideState} (h : Announces env side t data) (m : ActivationState)
    (side' : Side) : (onMessage env data m).2.side side' = if side = side' then t else m.side side' := by
  obtain ⟨payload, u, hp, hu, hside, hactive, hw, hf, hd⟩ := h
  have hm : (onMessage env data m).2 = applyActivationUpdate m u := by
    simp [onMessage, hp, hu]
  rw [hm, side_applyActivationUpdate, hside]
  by_cases heq : side = side'
  · simp only [heq, applySideUpdate, hactive, hw, hf, hd, Option.getD_some]
  · simp only [heq, if_false]

structure Applied (feed : Feed env) (s : Feeds) (side : Side) : Prop where
  holds : s.manager.side side = Newest.held (feed.state side) .init (s.versions side)
  each : ∀ before d after, s.received side = before ++ d :: after →
    d.before = Newest.held (feed.state side) .init (before.map Delivery.version) ∧ d.after = feed.state side d.version

lemma Applied.deliver {v : ℕ} (h : ∀ side, Applied feed s side)
    (hd : Announces env side (feed.state side v) data) (side' : Side) :
    Applied feed (s.deliver env side v data) side' := by
  have hm := side_onMessage hd s.manager
  by_cases hside : side' = side
  · subst hside
    have hr : (s.deliver env side' v data).received side' =
        s.received side' ++ [⟨v, s.manager.side side', feed.state side' v⟩] := by
      simp [Feeds.deliver, hm]
    refine ⟨?_, fun before d after hs => ?_⟩
    · rw [Feeds.versions, hr, List.map_append, List.map_singleton, Newest.held_concat]
      simp [Feeds.deliver, hm]
    · rw [hr] at hs
      rcases split_concat hs with ⟨rest, hold⟩ | ⟨rfl, rfl⟩
      · exact (h side').each before d rest hold
      · exact ⟨(h side').holds, rfl⟩
  · have hr : (s.deliver env side v data).received side' = s.received side' := by
      simp [Feeds.deliver, hside]
    refine ⟨?_, ?_⟩
    · rw [Feeds.versions, hr]
      simpa [Feeds.deliver, hm, Ne.symm hside, Feeds.versions] using (h side').holds
    · rw [hr]
      exact (h side').each

lemma applied_step {e : FeedEvent} (h : ∀ side, Applied feed s side) (hs : feedStep feed s e = some s') :
    ∀ side, Applied feed s' side := by
  have hp : ∀ p side, Applied feed { s with poll := p } side := fun p side => ⟨(h side).holds, (h side).each⟩
  cases e with
  | write side =>
    cases hs
    exact fun side' => ⟨(h side').holds, (h side').each⟩
  | push side v =>
    simp only [feedStep] at hs
    split at hs
    · cases hs
      exact Applied.deliver h (feed.pushed_announces side v)
    · cases hs
  | poll =>
    simp only [feedStep] at hs
    split at hs
    · cases hs
      exact hp _
    · cases hs
  | get =>
    simp only [feedStep] at hs
    split at hs
    · split at hs <;> cases hs <;> exact hp _
    · cases hs
  | refused =>
    simp only [feedStep] at hs
    split at hs
    · cases hs
      exact hp _
    · cases hs
  | failed =>
    cases hs
    exact hp _
  | answer =>
    simp only [feedStep] at hs
    split at hs
    · rename_i side v _
      cases hs
      exact Applied.deliver (hp (nextPoll side)) (feed.answer_announces side v)
    · cases hs

lemma applied_init (feed : Feed env) (side : Side) : Applied feed .init side := by
  refine ⟨?_, fun before d after h => absurd h.symm (by simp [Feeds.init])⟩
  cases side <;> rfl

lemma applied_of_run (h : Run (feedStep feed) (fun _ _ => True) .init s) : ∀ side, Applied feed s side :=
  Run.invariant (applied_init feed) (fun _ _ _ hI _ hs => applied_step hI hs) h

lemma kept_iff_kept (h : Applied feed s side) :
    (∀ before d after, s.received side = before ++ d :: after → (∃ e ∈ before, d.version < e.version) →
      d.after = d.before) ↔ Newest.Kept (feed.state side) .init (s.versions side) := by
  constructor
  · intro hk before v after hs hn
    obtain ⟨before', rest, hr, rfl, hrs⟩ := List.map_eq_append_iff.mp hs
    obtain ⟨d, after', rfl, rfl, rfl⟩ := List.map_eq_cons_iff.mp hrs
    obtain ⟨w, hw, hlt⟩ := hn
    obtain ⟨e, he, rfl⟩ := List.mem_map.mp hw
    obtain ⟨hb, haf⟩ := h.each before' d after' hr
    rw [← haf, ← hb]
    exact hk before' d after' hr ⟨e, he, hlt⟩
  · intro hk before d after hr hn
    obtain ⟨hb, haf⟩ := h.each before d after hr
    obtain ⟨e, he, hlt⟩ := hn
    rw [haf, hb]
    refine hk _ _ (after.map Delivery.version) ?_ ⟨e.version, List.mem_map_of_mem he, hlt⟩
    rw [Feeds.versions, hr, List.map_append, List.map_cons]

/-- **The activation does not go back** exactly where every message that is older than the newest one applied to its side
says the same as that one. -/
theorem forward_iff (feed : Feed env) {s : Feeds} (h : Run (feedStep feed) (fun _ _ => True) .init s) :
    Forward feed s ↔ ∀ side, Newest.InOrder (feed.state side) (s.versions side) := by
  have happlied := applied_of_run h
  constructor
  · intro hforward side
    exact Newest.kept_iff.mp ((kept_iff_kept (happlied side)).mp (hforward.kept side))
  · intro horder
    refine ⟨fun side => (kept_iff_kept (happlied side)).mpr (Newest.kept_iff.mpr (horder side)), fun side v hv => ?_⟩
    rw [(happlied side).holds]
    exact Newest.held_newest (horder side) hv

/-! ### A freeze that is lifted by a poll -/

def Side.text : Side → String
  | .long => "long"
  | .short => "short"

/-- With the version that `WebSocketClient` asks for. -/
def sent (side : Side) (frozen : Bool) : List (Value × Value) :=
  [(.str "side", .str side.text), (.str "active", .bool true), (.str "weight", .int 1), (.str "freeze", .bool frozen),
    (.str "drain", .bool false), (.str "version", .int 1)]

lemma announces_sent {frozen : Bool} (hd : data.get? "data" = some (.dict (sent side frozen)))
    (hev : isText ((data.get "event").or (data.get "type")) "activation_updated") :
    Announces .ascii side ⟨true, .finite 1, frozen, false⟩ data := by
  have hone : Env.ascii.float (.int 1) = .ok (.finite 1) := by
    have hs : (1 : ℤ).natAbs < 2 ^ 1024 - 2 ^ 970 := by decide +kernel
    simp only [Env.ascii, if_pos hs, Int.cast_one]
  have hw : normalizeWeight (some (.finite 1)) (some true) = some (.finite 1) := by
    simp [normalizeWeight, Num.negative, Num.aboveOne]
  have hr : readWeight .ascii (fun key => (Value.lookup key (sent side frozen)).getD .none) =
      .ok (some (.finite 1)) := by
    simp [readWeight, sent, Value.lookup, Value.isNone, hone, caught, coerceOptionalBool, Value.truthy, hw, bind,
      Except.bind, pure, Except.pure]
  refine ⟨fun key => (Value.lookup key (sent side frozen)).getD .none,
    ⟨some side.text, some true, some (.finite 1), some frozen, some false, ⟨some 1, none, none, none, none, none⟩⟩,
    ?_, ?_, ?_⟩
  · simp only [extractActivationPayload, hd, hev, Bool.true_or, Option.filter_some, if_true]
  · have hside : stripped side.text = some side.text ∧ Env.ascii.builtins.lower.fn side.text = side.text := by
      cases side <;> decide +kernel
    unfold parseActivationUpdate
    rw [hr]
    simp [sent, Value.lookup, cleanStr, coerceOptionalBool, coerceOptionalInt, Value.isNone, Value.truthy, bind,
      Except.bind, pure, Except.pure]
    have hv : caught (Value.toInt Env.ascii.builtins (.int 1)) = .ok (some 1) := rfl
    rw [hv]
    simp [Value.toStr, hside.1, hside.2]
  · cases side <;> exact ⟨rfl, rfl, rfl, rfl, rfl⟩

def frozenLater : Feed .ascii where
  state _ v := ⟨true, .finite 1, decide (2 ≤ v), false⟩
  pushed side v := Dict.ofList [("type", .str "activation_updated"), ("data", .dict (sent side (2 ≤ v)))]
  answer side v := .dict (sent side (2 ≤ v))
  pushed_announces _ _ := announces_sent rfl rfl
  answer_announces _ _ := announces_sent rfl rfl

lemma run_of_exec (feed : Feed env) (es : List FeedEvent) (q : Feeds → Bool)
    (h : (execIf (feedStep feed) (fun _ _ => true) .init es).any q) :
    ∃ s, Run (feedStep feed) (fun _ _ => True) .init s ∧ q s := by
  obtain ⟨s, hrun, hq⟩ := exists_run _ _ _ _ q h
  exact ⟨s, hrun.mono fun _ _ _ => trivial, hq⟩

/-- In order the freeze arrives, and stays. -/
theorem forward_in_order : ∃ s, Run (feedStep frozenLater) (fun _ _ => True) .init s ∧ s.versions .long = [1, 1, 2] ∧
    Forward frozenLater s := by
  have hexec : (execIf (feedStep frozenLater) (fun _ _ => true) .init
      [.write .long, .poll, .push .long 1, .get, .answer, .write .long, .push .long 2]).any
        (fun s => decide (s.versions .long = [1, 1, 2] ∧ s.versions .short = [])) := by decide +kernel
  obtain ⟨s, hrun, hs⟩ := run_of_exec frozenLater _ _ hexec
  obtain ⟨hlong, hshort⟩ := of_decide_eq_true hs
  refine ⟨s, hrun, hlong, (forward_iff frozenLater hrun).mpr fun side => Newest.inOrder_of_pairwise ?_⟩
  cases side with
  | long => rw [hlong]; decide
  | short => rw [hshort]; exact List.Pairwise.nil

/-- **A freeze is lifted by a poll**: the answer that was read before the freeze is applied after it. -/
theorem freeze_lifted : ∃ s, Run (feedStep frozenLater) (fun _ _ => True) .init s ∧ ¬Forward frozenLater s := by
  have hexec : (execIf (feedStep frozenLater) (fun _ _ => true) .init
      [.write .long, .poll, .get, .write .long, .push .long 2, .answer]).any
        (fun s => decide (s.versions .long = [2, 1])) := by decide +kernel
  obtain ⟨s, hrun, hs⟩ := run_of_exec frozenLater _ _ hexec
  have hversions : s.versions .long = [2, 1] := of_decide_eq_true hs
  refine ⟨s, hrun, fun h => ?_⟩
  have hgreatest : IsGreatest {x | x ∈ s.versions .long} 2 := by
    rw [hversions]
    exact ⟨.head _, fun x hx => by
      rcases List.mem_pair.mp hx with rfl | rfl <;> omega⟩
  have hnewest := h.newest .long 2 hgreatest
  rw [(applied_of_run hrun .long).holds, hversions] at hnewest
  exact Bool.false_ne_true (congrArg SideState.freeze hnewest)

end Qmtl.Runtime

import Qmtl.Lib.Coroutine
import Qmtl.Lib.Dict
import Qmtl.Lib.Text

/-! What the WorldService stores of one world, in memory: its decisions, the activation of its strategies,
the overrides of its edges, and the run of `apply` that is registered for it; and the calls to the store
and the bus the service awaits. -/

namespace Qmtl.WorldService

open Lib

def executionDomains : List String := ["backtest", "dryrun", "live", "shadow"]

/-- `HTTPException`, and the exceptions that are none. -/
inductive Exn where
  | http (status : ℕ) (detail : String)
  | error (message : String)

def Exn.isHttp : Exn → Bool
  | http _ _ => true
  | error _ => false

/-! ### Activations -/

structure ActivationEntry where
  active : Bool
  weight : ℚ
  freeze : Bool
  drain : Bool
  effectiveMode : Option String
  runId : Option String
  ts : String
  etag : String
deriving DecidableEq

structure ActivationPayload where
  strategyId : String
  side : String
  active : Bool
  weight : Option (Option ℚ)
  freeze : Option Bool
  drain : Option Bool
  effectiveMode : Option String
  runId : Option String
  ts : Option String

abbrev Sides := Dict String (Dict String ActivationEntry)

structure Activation where
  version : ℕ
  state : Sides

def Sides.entryAt (state : Sides) (strategyId side : String) : Option ActivationEntry :=
  (state.get? strategyId).bind fun sides => sides.get? side

def Sides.put (state : Sides) (strategyId side : String) (entry : ActivationEntry) : Sides :=
  state.set strategyId (((state.get? strategyId).getD Dict.empty).set side entry)

def Sides.items (state : Sides) : List (String × String × ActivationEntry) :=
  state.entries.flatMap fun e => e.2.entries.map fun f => (e.1, f.1, f.2)

def etagOf (worldId strategyId side : String) (version : ℕ) : String :=
  "act:" ++ worldId ++ ":" ++ strategyId ++ ":" ++ side ++ ":" ++ toString version

def ActivationPayload.entry (p : ActivationPayload) (weight : ℚ) (now etag : String) : ActivationEntry where
  active := p.active
  weight := weight
  freeze := p.freeze.getD false
  drain := p.drain.getD false
  effectiveMode := p.effectiveMode
  runId := p.runId
  ts := match p.ts with
    | some ts => if ts = "" then now else ts
    | none => now
  etag := etag

def Activation.update (a : Activation) (worldId now : String) (p : ActivationPayload) :
    Except Exn (ℕ × ActivationEntry) × Activation :=
  let version := a.version + 1
  let etag := etagOf worldId p.strategyId p.side version
  match p.weight with
  | some none => (.error (.error "float() argument must be a string or a real number, not 'NoneType'"),
      { a with version })
  | some (some w) =>
    let entry := p.entry w now etag
    (.ok (version, entry), ⟨version, a.state.put p.strategyId p.side entry⟩)
  | none =>
    let entry := p.entry 1 now etag
    (.ok (version, entry), ⟨version, a.state.put p.strategyId p.side entry⟩)

structure Override where
  active : Bool
  reason : Option String
  clean : ∀ r ∈ reason, Clean r

lemma Override.ext {o o' : Override} (ha : o.active = o'.active) (hr : o.reason = o'.reason) : o = o' := by
  obtain ⟨a, r, _⟩ := o
  subst ha
  subst hr
  rfl

def Override.make (active : Bool) (reason : Option String) : Override where
  active
  reason := reason.bind stripped
  clean := by
    intro r hr
    obtain ⟨t, -, ht⟩ := Option.bind_eq_some_iff.mp hr
    exact stripped_eq_some ht

lemma Override.make_self (o : Override) : Override.make o.active o.reason = o := by
  refine Override.ext rfl ?_
  show o.reason.bind stripped = o.reason
  cases h : o.reason with
  | none => rfl
  | some r => exact (o.clean r (by rw [h]; rfl)).stripped

inductive ApplyStage where
  | requested
  | freeze
  | switch
  | unfreeze
  | completed
  | rolledBack
deriving DecidableEq

structure ApplyRunState where
  runId : String
  active : List String
  stage : ApplyStage
  completed : Bool
  sequence : ℕ

def ApplyRunState.mark (st : ApplyRunState) (stage : ApplyStage) (completed : Option Bool)
    (active : Option (List String)) : ApplyRunState :=
  { st with stage, completed := completed.getD st.completed, active := active.getD st.active }

structure ApplyPlan where
  activate : List String
  deactivate : List String

structure ApplyRequest where
  runId : String
  plan : Option ApplyPlan
  previous : Option (List String)

/-! ### The store, the bus and the memory of the service -/

structure ActivationEvent where
  strategyId : String
  side : String
  phase : Option String
  entry : ActivationEntry
  version : ℕ
  requiresAck : Bool
  sequence : Option ℕ

structure World where
  decisions : List String
  activation : Activation
  overrides : Dict (String × String) Override
  events : List ActivationEvent

structure Memory where
  run : Option ApplyRunState
  saved : Dict (String × String) (Option Override)

/-- The calls that are awaited. The evaluator is one call: it reads the store and raises or answers. -/
inductive Call where
  | determineActive (payload : ApplyRequest)
  | getDecisions
  | setDecisions (strategies : List String)
  | snapshotActivation
  | restoreActivation (snapshot : Activation)
  | updateActivation (payload : ActivationPayload)
  | getActivation
  | recordApplyStage (stage : ApplyStage)
  | defaultPolicyVersion
  | publishPolicyUpdate (active : List String)
  | publishActivationUpdate (event : ActivationEvent)
  | publishSnapshot
  /- `self._restore[key] = await store.get_edge_override(...)` -/
  | saveOverride (key : String × String)
  | upsertEdgeOverride (key : String × String) (active : Bool) (reason : Option String)
  | deleteEdgeOverride (key : String × String)

/-- An awaited call, or a step in memory. -/
inductive Op where
  | call (c : Call)
  | read
  | write (f : Memory → Memory)

abbrev Call.Ans : Call → Type
  | determineActive _ => List String
  | getDecisions => List String
  | snapshotActivation => Activation
  | updateActivation _ => ℕ × ActivationEntry
  | _ => Unit

abbrev Op.Ans : Op → Type
  | call c => c.Ans
  | read => Memory
  | write _ => Unit

structure Env where
  worldId : String
  bus : Bool
  lower : Lower
  evaluate : World → ApplyRequest → Except Exn (List String)
  now : World → String
  iterate : List String → List String
  iterate_perm : ∀ l, (iterate l).Perm l.dedup

def Env.still (bus : Bool) (selected : List String) : Env where
  worldId := "w"
  bus
  lower := Lower.ascii
  evaluate := fun _ _ => .ok selected
  now := fun _ => "2025-01-01T00:00:00Z"
  iterate := List.dedup
  iterate_perm := fun _ => .rfl

structure Sys where
  world : World
  memory : Memory
  faults : List (Option Exn)
  raised : List (Call × Exn)

def World.fresh : World := ⟨[], ⟨0, Dict.empty⟩, Dict.empty, []⟩

def Sys.fresh (faults : List (Option Exn)) : Sys := ⟨World.fresh, ⟨none, Dict.empty⟩, faults, []⟩

variable (env : Env)

def determineActive (w : World) (payload : ApplyRequest) : Except Exn (List String) :=
  match payload.plan with
  | none => env.evaluate w payload
  | some plan =>
    let given := payload.previous.getD []
    let prev := if given.isEmpty then w.decisions else given
    .ok (((prev.filter fun sid => !plan.deactivate.contains sid) ++ plan.activate).dedup.insertionSort (· ≤ ·))

def Call.effect (c : Call) (w : World) (m : Memory) : Except Exn c.Ans × World × Memory :=
  match c with
  | determineActive payload => (WorldService.determineActive env w payload, w, m)
  | getDecisions => (.ok w.decisions, w, m)
  | setDecisions strategies => (.ok (), { w with decisions := strategies }, m)
  | snapshotActivation => (.ok w.activation, w, m)
  | restoreActivation snapshot => (.ok (), { w with activation := snapshot }, m)
  | updateActivation payload =>
    let r := w.activation.update env.worldId (env.now w) payload
    (r.1, { w with activation := r.2 }, m)
  | getActivation => (.ok (), w, m)
  | recordApplyStage _ => (.ok (), w, m)
  | defaultPolicyVersion => (.ok (), w, m)
  | publishPolicyUpdate _ => (.ok (), w, m)
  | publishActivationUpdate event => (.ok (), { w with events := w.events ++ [event] }, m)
  | publishSnapshot => (.ok (), w, m)
  | saveOverride key => (.ok (), w, { m with saved := m.saved.set key (w.overrides.get? key) })
  | upsertEdgeOverride key active reason =>
    (.ok (), { w with overrides := w.overrides.set key (Override.make active reason) }, m)
  | deleteEdgeOverride key => (.ok (), { w with overrides := w.overrides.erase key }, m)

/-- Perform an operation. -/
def host : (o : Op) → Sys → Except Exn o.Ans × Sys
  | .read, s => (.ok s.memory, s)
  | .write f, s => (.ok (), { s with memory := f s.memory })
  | .call c, s =>
    match s.faults with
    | some e :: rest => (.error e, { s with faults := rest, raised := s.raised ++ [(c, e)] })
    | faults =>
      let r := c.effect env s.world s.memory
      (r.1, { s with world := r.2.1, memory := r.2.2, faults := faults.tail })

abbrev Task (α : Type) := Coro Op Op.Ans Exn α

def call (c : Call) : Task c.Ans := Coro.perform (Op.call c)

def memory : Task Memory := Coro.perform Op.read

def modify (f : Memory → Memory) : Task Unit := Coro.perform (Op.write f)

end Qmtl.WorldService

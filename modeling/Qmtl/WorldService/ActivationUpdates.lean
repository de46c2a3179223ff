import Qmtl.WorldService.ActivationEvents

/-! `PersistentActivationRepository.update`: the activation of a world as one document in Redis, that every
update reads, changes and writes back, with other calls running at each of these awaits. -/

namespace Qmtl.WorldService.ActivationUpdates

open Lib WorldService

/-! ### The program -/

/-- A document an update has made: the one it has read, with a new entry and the version counted up. -/
structure Change where
  loaded : Activation
  strategyId : String
  side : String
  entry : ActivationEntry

def Change.document (u : Change) : Activation :=
  ⟨u.loaded.version + 1, u.loaded.state.put u.strategyId u.side u.entry⟩

/-- The awaits: `redis.get`, `redis.set` and the audit log. -/
inductive Op where
  | get
  | set (u : Change)
  | audit

abbrev Op.Ans : Op → Type
  | get => Option Activation
  | _ => Unit

abbrev Task (α : Type) := Coro Op Op.Ans Exn α

def ask (o : Op) : Task o.Ans := Coro.perform o

def load : Task Activation := do
  let raw ← ask .get
  return raw.getD ⟨0, Dict.empty⟩

def update (worldId now : String) (payload : ActivationPayload) : Task (ℕ × ActivationEntry) := do
  let state ← load
  let (version, entry) ← Coro.ofExcept (state.update worldId now payload).1
  ask (.set ⟨state, payload.strategyId, payload.side, entry⟩)
  ask .audit
  return (version, entry)

/-- The calls: one update of `upsert_activation`, or those of an `apply`, each with its time. -/
inductive Request where
  | upsert (now : String) (payload : ActivationPayload)
  | apply (updates : List (String × ActivationPayload))

def updateAndPublish (worldId : String) (bus : Bool) (u : String × ActivationPayload) : Task Unit := do
  let _ ← update worldId u.1 u.2
  if bus then
    let _ ← load

def code (worldId : String) (bus : Bool) : Request → Task Unit
  | .upsert now payload => updateAndPublish worldId bus (now, payload)
  | .apply updates => Coro.forEach (updateAndPublish worldId bus) updates

/-- Redis, and the entries that were written, in their order. -/
structure Store where
  raw : Option Activation
  writes : List (String × String × ActivationEntry)

def Store.document (s : Store) : Activation := s.raw.getD ⟨0, Dict.empty⟩

def perform (_ : ℕ) (o : Op) (_ : Unit) (s : Store) : Except Exn o.Ans × Store :=
  match o with
  | .get => (.ok s.raw, s)
  | .set u => (.ok (), ⟨some u.document, s.writes ++ [(u.strategyId, u.side, u.entry)]⟩)
  | .audit => (.ok (), s)

def holdsLock : Request × Task Unit → Bool
  | (.apply _, .await _ _) => true
  | _ => false

def system (worldId : String) (bus : Bool) : System Op Op.Ans Exn Unit Store Unit Empty Request where
  code := code worldId bus
  perform := perform
  disturb := fun x => x.elim
  may := fun c ev => match ev with
    | .start (.apply _) => !c.calls.any holdsLock
    | _ => true

def start (raw : Option Activation) : Config Op Op.Ans Exn Unit Store Request := ⟨⟨raw, []⟩, []⟩

def lastWrite (writes : List (String × String × ActivationEntry)) (sid side : String) : Option ActivationEntry :=
  ((writes.filter fun w => w.1 = sid && w.2.1 = side).getLast?).map fun w => w.2.2

/-- Every entry is the last one that was written for it, and every update has counted. -/
structure NoneLost (first : Activation) (s : Store) : Prop where
  entries : ∀ sid side, s.document.state.entryAt sid side =
    (lastWrite s.writes sid side).or (first.state.entryAt sid side)
  version : s.document.version = first.version + s.writes.length

deriving instance DecidableEq for Dict
deriving instance DecidableEq for Activation

def writesOnRead (c : Config Op Op.Ans Exn Unit Store Request) : Event Unit Empty Request → Bool
  | .resume i _ => match c.calls[i]? with
    | some (_, .await (.set u) _) => c.store.document = u.loaded
    | _ => true
  | _ => true

/-! ### While nobody writes in between -/

lemma lastWrite_snoc (writes : List (String × String × ActivationEntry)) (w : String × String × ActivationEntry)
    (sid side : String) :
    lastWrite (writes ++ [w]) sid side = if w.1 = sid ∧ w.2.1 = side then some w.2.2 else lastWrite writes sid side := by
  unfold lastWrite
  by_cases h : w.1 = sid ∧ w.2.1 = side
  · simp [h]
  · have hf : (decide (w.1 = sid) && decide (w.2.1 = side)) = false := by simpa using h
    simp [h, hf]

lemma NoneLost.set {first : Activation} {s : Store} {u : Change} (h : NoneLost first s) (hu : s.document = u.loaded) :
    NoneLost first ⟨some u.document, s.writes ++ [(u.strategyId, u.side, u.entry)]⟩ where
  entries := by
    intro sid side
    show u.document.state.entryAt sid side = _
    rw [Change.document, Sides.entryAt_put, lastWrite_snoc, ← hu, h.entries]
    by_cases hk : u.strategyId = sid ∧ u.side = side
    · rw [if_pos hk, if_pos hk]
      rfl
    · rw [if_neg hk, if_neg hk]
  version := by
    show u.loaded.version + 1 = _
    rw [← hu, h.version, List.length_append]
    rfl

/-- **No update is lost** in any state of a run whose updates all write back onto the document they have
read. -/
theorem run_noneLost (worldId : String) (bus : Bool) (raw : Option Activation)
    (c : Config Op Op.Ans Exn Unit Store Request)
    (h : (system worldId bus).Run (fun c ev => writesOnRead c ev = true) (start raw) c) :
    NoneLost (raw.getD ⟨0, Dict.empty⟩) c.store := by
  refine h.invariant (I := fun c => NoneLost (raw.getD ⟨0, .empty⟩) c.store) ?_ ?_
  · exact ⟨fun _ _ => rfl, rfl⟩
  · intro c ev c' hinv hfresh hstep
    obtain ⟨-, ⟨a, rfl, rfl⟩ | ⟨i, e, a, o, k, rfl, hi, rfl⟩ | ⟨x, rfl, rfl⟩⟩ := System.step_cases hstep
    · exact hinv
    · cases o with
      | get => exact hinv
      | audit => exact hinv
      | set u =>
        simp only [writesOnRead, hi] at hfresh
        exact hinv.set (of_decide_eq_true hfresh)
    · exact x.elim

def activeEntry : ActivationEntry := ⟨true, 1, false, false, none, none, "2025-01-01T00:00:00Z", "act:w:a:long:1"⟩

def oneActive : Activation := ⟨1, Dict.empty.set "a" (Dict.empty.set "long" activeEntry)⟩

def freezing : Request := .apply [("2025-01-01T00:00:01Z", freezePayload "r" ("a", "long", activeEntry))]

def unrelated : Request := .upsert "2025-01-01T00:00:01Z" ⟨"b", "long", true, none, none, none, none, none, none⟩

def finished : Request × Task Unit → Bool
  | (_, .await _ _) => false
  | _ => true

/-- One after the other, nothing is lost. -/
theorem run_noneLost_in_turn : ∃ c : Config Op Op.Ans Exn Unit Store Request,
      c.calls.all finished = true ∧ c.store.writes.length = 2 ∧ NoneLost oneActive c.store := by
  obtain ⟨c, hrun, hcheck⟩ := exists_run (system "w" false).step (start (some oneActive)) writesOnRead
    ([.start freezing, .resume 0 (), .resume 0 (), .resume 0 (),
      .start unrelated, .resume 1 (), .resume 1 (), .resume 1 ()])
    (fun c => decide (c.calls.all finished ∧ c.store.writes.length = 2)) (by decide +kernel)
  obtain ⟨hdone, hlen⟩ := of_decide_eq_true hcheck
  exact ⟨c, hdone, hlen, run_noneLost _ _ _ c hrun⟩

/-- The upsert has read the document before the freeze and writes it after: the strategy is active again,
and two updates have counted once. -/
theorem freeze_overwritten :
    ∃ c, (system "w" false).Run (fun _ _ => True) (start (some oneActive)) c ∧ c.calls.all finished = true ∧
      ¬NoneLost oneActive c.store ∧ c.store.document.state.entryAt "a" "long" = some activeEntry ∧
      (lastWrite c.store.writes "a" "long").any ActivationEntry.freeze = true := by
  obtain ⟨c, hrun, hcheck⟩ := exists_run (system "w" false).step (start (some oneActive)) (fun _ _ => true)
    ([.start freezing, .start unrelated, .resume 0 (), .resume 1 (), .resume 0 (), .resume 1 (),
      .resume 0 (), .resume 1 ()])
    (fun c => decide (c.calls.all finished ∧ c.store.document.version ≠ 1 + c.store.writes.length ∧
      c.store.document.state.entryAt "a" "long" = some activeEntry ∧
      (lastWrite c.store.writes "a" "long").any ActivationEntry.freeze)) (by decide +kernel)
  obtain ⟨hdone, hversion, hentry, hfreeze⟩ := of_decide_eq_true hcheck
  exact ⟨c, hrun.mono fun _ _ _ => trivial, hdone, fun h => hversion h.version, hentry, hfreeze⟩

end Qmtl.WorldService.ActivationUpdates

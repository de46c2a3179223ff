import Qmtl.WorldService.ActivationEvents

/-! The versions and the etags of a world's activation, over any run of `upsert_activation`, `snapshot`,
`restore` and `apply`, interleaved at their awaits. -/

namespace Qmtl.WorldService.ActivationVersions

open Lib WorldService

/-! ### The system -/

inductive Request where
  | upsert (payload : ActivationPayload)
  /- a snapshot, and `n` restores of it -/
  | restore (n : ℕ)
  | apply (payload : ApplyRequest) (gating : Option GatingPolicy)

def code (env : Env) : Request → Task Unit
  | .upsert payload => upsertActivation env payload
  | .restore n => do
    let snapshot ← call .snapshotActivation
    Coro.forEach (fun _ => call (.restoreActivation snapshot)) (List.range n)
  | .apply payload gating => do
    let _ ← WorldService.apply env payload gating

structure Ledger where
  sys : Sys
  versions : List ℕ
  issued : List (String × Content)

def Ledger.version (s : Ledger) : ℕ := s.sys.world.activation.version

def issuedBy : (o : Op) → Except Exn o.Ans → List (String × Content)
  | .call (.updateActivation _), .ok (_, entry) => [(entry.etag, entry.content)]
  | _, _ => []

def perform (env : Env) (_ : ℕ) (o : Op) (fault : Option Exn) (s : Ledger) : Except Exn o.Ans × Ledger :=
  let r := host env o { s.sys with faults := [fault] }
  (r.1, ⟨r.2, s.versions ++ [r.2.world.activation.version], s.issued ++ issuedBy o r.1⟩)

def holdsLock : Request × Task Unit → Bool
  | (.apply _ _, .await _ _) => true
  | _ => false

def system (env : Env) : System Op Op.Ans Exn Unit Ledger (Option Exn) Empty Request where
  code := code env
  perform := perform env
  disturb := fun x => x.elim
  may := fun c ev => match ev with
    | .start (.apply _ _) => !c.calls.any holdsLock
    | _ => true

def start (world : World) (memory : Memory) : Config Op Op.Ans Exn Unit Ledger Request :=
  ⟨⟨⟨world, memory, [], []⟩, [world.activation.version], []⟩, []⟩

/-- The version has never decreased, and no etag was issued for two contents. -/
structure Identifies (s : Ledger) : Prop where
  versions : s.versions.Pairwise (· ≤ ·)
  etags : ∀ a ∈ s.issued, ∀ b ∈ s.issued, a.1 = b.1 → a.2 = b.2

def restoresForward (c : Config Op Op.Ans Exn Unit Ledger Request) : Event (Option Exn) Empty Request → Bool
  | .resume i none => match c.calls[i]? with
    | some (_, .await (.call (.restoreActivation snapshot)) _) => c.store.version ≤ snapshot.version
    | _ => true
  | _ => true

lemma etagOf_version {worldId sid side sid' side' : String} {v v' : ℕ}
    (h : etagOf worldId sid side v = etagOf worldId sid' side' v') : v = v' := by
  have hc : ∀ n : ℕ, ':' ∉ n.repr.toList := by
    intro n hmem
    exact absurd (isDigit_of_mem_repr hmem) (by decide)
  -- the last colon stands before the version
  have hcut : ∀ (sid side : String) (v : ℕ), (etagOf worldId sid side v).toList =
      ("act:" ++ worldId ++ ":" ++ sid ++ ":" ++ side).toList ++ ':' :: v.repr.toList := by
    intro sid side v
    show ("act:" ++ worldId ++ ":" ++ sid ++ ":" ++ side ++ ":" ++ v.repr).toList = _
    rw [String.toList_append, String.toList_append, List.append_assoc]
    rfl
  have hl := congrArg String.toList h
  rw [hcut, hcut] at hl
  exact repr_injective (String.toList_injective (append_cons_inj (hc v) (hc v') hl).2)

/-! ### The invariant -/

structure Inv (env : Env) (s : Ledger) : Prop where
  sorted : s.versions.Pairwise (· ≤ ·)
  bound : ∀ v ∈ s.versions, v ≤ s.version
  issued : ∀ a ∈ s.issued, ∃ sid side v, a.1 = etagOf env.worldId sid side v ∧ v ≤ s.version
  distinct : s.issued.Pairwise fun a b => a.1 ≠ b.1

variable {env : Env} {s : Ledger}

lemma Inv.identifies (h : Inv env s) : Identifies s where
  versions := h.sorted
  etags := by
    intro a ha b hb hab
    by_contra hne
    have hd := (List.pairwise_iff_getElem.mp h.distinct)
    obtain ⟨i, hi, rfl⟩ := List.mem_iff_getElem.mp ha
    obtain ⟨j, hj, rfl⟩ := List.mem_iff_getElem.mp hb
    rcases Nat.lt_trichotomy i j with hij | rfl | hij
    · exact hd i j hi hj hij hab
    · exact hne rfl
    · exact hd j i hj hi hij hab.symm

lemma Inv.grow {sys : Sys} (h : Inv env s) (hv : s.version ≤ sys.world.activation.version) :
    Inv env ⟨sys, s.versions ++ [sys.world.activation.version], s.issued⟩ where
  sorted := by
    refine List.pairwise_append.mpr ⟨h.sorted, List.pairwise_singleton _ _, ?_⟩
    intro v hmem v' hv'
    rw [List.mem_singleton.mp hv']
    exact (h.bound v hmem).trans hv
  bound := by
    intro v hmem
    rcases List.mem_append.mp hmem with hmem | hmem
    · exact (h.bound v hmem).trans hv
    · exact (List.mem_singleton.mp hmem).le
  issued := by
    intro a ha
    obtain ⟨sid, side, v, heq, hle⟩ := h.issued a ha
    exact ⟨sid, side, v, heq, hle.trans hv⟩
  distinct := h.distinct

lemma Inv.issue {sys : Sys} {sid side : String} {content : Content} (h : Inv env s)
    (hv : sys.world.activation.version = s.version + 1) :
    Inv env ⟨sys, s.versions ++ [sys.world.activation.version],
      s.issued ++ [(etagOf env.worldId sid side (s.version + 1), content)]⟩ := by
  have hg : Inv env ⟨sys, s.versions ++ [sys.world.activation.version], s.issued⟩ := h.grow (by omega)
  refine ⟨hg.sorted, hg.bound, ?_, ?_⟩
  · intro a ha
    rcases List.mem_append.mp ha with ha | ha
    · exact hg.issued a ha
    · rw [List.mem_singleton.mp ha]
      exact ⟨sid, side, s.version + 1, rfl, hv.ge⟩
  · refine List.pairwise_append.mpr ⟨h.distinct, List.pairwise_singleton _ _, ?_⟩
    intro a ha b hb heq
    rw [List.mem_singleton.mp hb] at heq
    obtain ⟨sid', side', v, het, hle⟩ := h.issued a ha
    have := etagOf_version (het.symm.trans heq)
    omega

lemma update_cases (a : Activation) (worldId now : String) (p : ActivationPayload) :
    (a.update worldId now p).2.version = a.version + 1 ∧ ((∃ e, (a.update worldId now p).1 = .error e) ∨
        ∃ v entry, (a.update worldId now p).1 = .ok (v, entry) ∧
          entry.etag = etagOf worldId p.strategyId p.side (a.version + 1)) := by
  unfold Activation.update
  rcases p.weight with - | - | w
  · exact ⟨rfl, .inr ⟨_, _, rfl, rfl⟩⟩
  · exact ⟨rfl, .inl ⟨_, rfl⟩⟩
  · exact ⟨rfl, .inr ⟨_, _, rfl, rfl⟩⟩

/-- **One step**: a call that raises leaves everything as it was, an update counts up, and a restore is
asked not to go back. -/
theorem perform_inv {i : ℕ} {o : Op} {fault : Option Exn} (h : Inv env s)
    (hr : ∀ snapshot, o = .call (.restoreActivation snapshot) → fault = none → s.version ≤ snapshot.version) :
    Inv env (perform env i o fault s).2 := by
  have hk : ∀ sys : Sys, sys.world.activation = s.sys.world.activation →
      Inv env ⟨sys, s.versions ++ [sys.world.activation.version], s.issued ++ []⟩ := by
    intro sys hsys
    rw [List.append_nil]
    refine h.grow ?_
    rw [hsys]
    exact le_rfl
  cases o with
  | read => exact hk _ rfl
  | write f => exact hk _ rfl
  | call c =>
    cases fault with
    | some e =>
      cases c <;> exact hk _ rfl
    | none =>
      cases c with
      | updateActivation p =>
        obtain ⟨hv, han⟩ := update_cases s.sys.world.activation env.worldId (env.now s.sys.world) p
        show Inv env ⟨_, _, s.issued ++ issuedBy (.call (.updateActivation p))
          (s.sys.world.activation.update env.worldId (env.now s.sys.world) p).1⟩
        rcases han with ⟨e, he⟩ | ⟨v, entry, he, het⟩
        · rw [he]
          show Inv env ⟨_, _, s.issued ++ []⟩
          rw [List.append_nil]
          refine h.grow ?_
          show s.version ≤ (s.sys.world.activation.update env.worldId (env.now s.sys.world) p).2.version
          rw [hv]
          exact Nat.le_succ _
        · rw [he]
          show Inv env ⟨_, _, s.issued ++ [(entry.etag, entry.content)]⟩
          rw [het]
          exact h.issue hv
      | restoreActivation snapshot =>
        show Inv env ⟨_, _, s.issued ++ []⟩
        rw [List.append_nil]
        exact h.grow (hr snapshot rfl rfl)
      | _ => exact hk _ rfl

/-- **Versions and etags identify content** in every state of a run whose restores do not go back behind
the version that is stored. -/
theorem run_identifies (env : Env) (world : World) (memory : Memory) (c : Config Op Op.Ans Exn Unit Ledger Request)
    (h : (system env).Run (fun c ev => restoresForward c ev = true) (start world memory) c) : Identifies c.store := by
  suffices hinv : Inv env c.store from hinv.identifies
  refine h.invariant (I := fun c => Inv env c.store) ?_ ?_
  · refine ⟨List.pairwise_singleton _ _, ?_, fun a ha => (nomatch ha), List.Pairwise.nil⟩
    intro v hv
    exact (List.mem_singleton.mp hv).le
  · intro c ev c' hinv hforward hstep
    obtain ⟨-, ⟨a, rfl, rfl⟩ | ⟨i, fault, a, o, k, rfl, hi, rfl⟩ | ⟨x, rfl, rfl⟩⟩ := System.step_cases hstep
    · exact hinv
    · refine perform_inv (i := i) hinv ?_
      rintro snapshot rfl rfl
      simp only [restoresForward, hi] at hforward
      exact of_decide_eq_true hforward
    · exact x.elim

def deactivate : ActivationPayload := ⟨"a", "long", false, none, none, none, none, none, none⟩

/-- An `apply` that is rolled back as its update raises, and two upserts after it. -/
theorem run_identifies_apply_upsert :
    ∃ c : Config Op Op.Ans Exn Unit Ledger Request, c.store.issued.length = 2 ∧ Identifies c.store := by
  obtain ⟨c, hrun, hcheck⟩ := exists_run (system (.still false ["a"])).step (start .fresh ⟨none, .empty⟩)
    restoresForward
    (.start (.apply ⟨"r", none, none⟩ none) :: List.replicate 16 (.resume 0 none) ++
      .resume 0 (some (.error "store is down")) :: List.replicate 6 (.resume 0 none) ++
      [.start (.upsert deactivate), .resume 1 none, .start (.upsert deactivate), .resume 2 none])
    (fun c => decide (c.store.issued.length = 2)) (by decide +kernel)
  exact ⟨c, of_decide_eq_true hcheck, run_identifies _ _ _ c hrun⟩

def rolledBackRun : List (Event (Option Exn) Empty Request) :=
  .start (.apply ⟨"r", none, none⟩ none) :: List.replicate 18 (.resume 0 none) ++
    .resume 0 (some (.error "store is down")) :: List.replicate 6 (.resume 0 none) ++
    [.start (.upsert deactivate), .resume 1 none]

/-- The version goes back, and the etag of the activation that was undone is issued for the upsert. -/
theorem rollback_reissues_etag :
    ∃ c, (system (.still false ["a"])).Run (fun _ _ => True) (start .fresh ⟨none, Dict.empty⟩) c ∧
      ¬c.store.versions.Pairwise (· ≤ ·) ∧ ∃ a ∈ c.store.issued, ∃ b ∈ c.store.issued, a.1 = b.1 ∧ a.2 ≠ b.2 := by
  obtain ⟨c, hrun, hcheck⟩ := exists_run (system (.still false ["a"])).step (start .fresh ⟨none, .empty⟩)
    (fun _ _ => true) rolledBackRun
    (fun c => decide (¬c.store.versions.Pairwise (· ≤ ·) ∧
      ∃ a ∈ c.store.issued, ∃ b ∈ c.store.issued, a.1 = b.1 ∧ a.2 ≠ b.2)) (by decide +kernel)
  exact ⟨c, hrun.mono fun _ _ _ => trivial, of_decide_eq_true hcheck⟩

end Qmtl.WorldService.ActivationVersions

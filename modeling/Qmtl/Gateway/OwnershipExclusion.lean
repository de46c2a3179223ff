import Qmtl.Gateway.Worker

/-! Workers that own strategies through the assignment of partitions and through advisory locks at once.

Each mechanism excludes by itself: a session lock is granted to no second connection, and a partition
is assigned to one consumer. They know nothing of each other, a lock is granted again on the connection
that holds it, and a rebalance may take a partition from under the call it was granted to; `sound` asks
that a step does none of this, and `Guarded` is the invariant from which exclusion follows. -/

namespace Qmtl.Gateway.OwnershipExclusion

open Lib

/-! ### Any number of workers -/

structure Call where
  worker : Worker
  sid : String

/-- What happens from outside: the group's coordinator assigns partitions anew, each to at most one
consumer, or the topic gets other partitions. -/
inductive Outside where
  | rebalance (assignment : List ((String × ℕ) × ℕ))
  | repartition (partitions : List ℕ)

abbrev Cfg := Config Op Op.Ans Exc Bool Store Call
abbrev Ev := Event Env Outside Call

def disturb : Outside → Store → Store
  | .rebalance assignment, s => { s with
      assigned := fun c => (assignment.filter fun p => p.2 = c).map Prod.fst }
  | .repartition partitions, s => { s with partitions }

def may (c : Cfg) : Ev → Bool
  | .start _ => true
  | .resume i e =>
    match c.calls[i]? with
    | some (_, .await (.tryAdvisoryLock pool _) _) => e.conn ∈ pool
    | some (_, .await (.advisoryUnlock pool _) _) => e.conn ∈ pool
    | _ => true
  | .disturb (.rebalance assignment) => (assignment.map Prod.fst).Nodup
  | .disturb (.repartition _) => true

def system : System Op Op.Ans Exc Bool Store Env Outside Call where
  code a := a.worker.process a.sid
  perform := perform
  disturb := disturb
  may := may

/-- A run begins before the group's coordinator has assigned anything. -/
def init (s : Store) : Cfg :=
  ⟨{ s with advisory := fun _ => none, assigned := fun _ => [], manager := fun _ => .empty,
            grip := fun _ => none }, []⟩

/-- The call is between a successful `acquire` of the key and its `release`. -/
def Inside (s : Store) (i key : ℕ) : Prop := ∃ via, s.grip i = some (.inside key via)

/-- One of the grants of the advisory lock is the call's. -/
def Locks (s : Store) (i key : ℕ) : Prop :=
  s.grip i = some (.inside key .db) ∨ s.grip i = some (.leaving key)

/-- Any worker acquires the key, when nothing fails on the way. -/
def Acquirable (s : Store) (key : ℕ) : Prop :=
  ∀ (m : OwnershipManager) (owner : String) (i : ℕ) (env : Op → Env), (∀ o, (env o).fate = .ok) →
    ((m.acquire key owner).exec (fun o => perform i o (env o)) s).1 = .ok true

/-- At most one call is inside a key, none that has returned is, and a key that nobody is inside and
whose lock has been given back can be acquired. -/
def Exclusive (c : Cfg) : Prop :=
  (∀ key i j, Inside c.store i key → Inside c.store j key → i = j) ∧
  (∀ i a r, c.calls[i]? = some (a, Coro.ofExcept r) → c.store.grip i = none) ∧
  ∀ key, (∀ i, ¬ Inside c.store i key ∧ ¬ Locks c.store i key) → Acquirable c.store key

/-! ### The condition of a step -/

/-- The key is granted by the lock, or by the assignment to this consumer or of another partition. -/
def clashes (consumer : ℕ) (partition : String × ℕ) : Via → Bool
  | .db => true
  | .kafka c p => c = consumer || p ≠ partition

def isKafka : Via → Bool
  | .kafka _ _ => true
  | .db => false

def Grip.isInside (key : ℕ) (p : Via → Bool) : Grip → Bool
  | .inside key' via => key' = key && p via
  | .leaving _ => false

/-- One of the first `n` calls is inside the key in one of these ways. -/
def anyInside (n : ℕ) (s : Store) (key : ℕ) (p : Via → Bool) : Bool :=
  (List.range n).any fun j => (s.grip j).any (Grip.isInside key p)

/-- The partition that a call was granted stays with its consumer. -/
def Grip.keptBy (assignment : List ((String × ℕ) × ℕ)) : Grip → Bool
  | .inside _ (.kafka c p) => (p, c) ∈ assignment
  | _ => true

/-- The two mechanisms do not meet on a key, and the pool neither hands out the connection that holds the
key to lock it again nor another one to unlock it. -/
def soundOp (n : ℕ) (i : ℕ) (o : Op) (e : Env) (s : Store) : Bool :=
  match o with
  | .assignment c topic target key =>
    (topic, target) ∉ s.assigned c || !anyInside n s key (clashes c (topic, target))
  | .tryAdvisoryLock _ key =>
    -- session locks are re-entrant: the connection must not be the one that holds the key
    e.fate = .lost || ((s.advisory key).all fun h => h.1 ≠ e.conn) &&
      (!(s.tryLock i e.conn key).1 || e.fate = .ok && !anyInside n s key isKafka)
  | .advisoryUnlock _ key => e.fate ≠ .lost && (s.advisory key).any fun h => h.1 = e.conn
  | _ => true

def sound (c : Cfg) : Ev → Bool
  | .resume i e =>
    match c.calls[i]? with
    | some (_, .await o _) => soundOp c.calls.length i o e c.store
    | _ => true
  | .disturb (.rebalance assignment) =>
    (List.range c.calls.length).all fun j => (c.store.grip j).all (Grip.keptBy assignment)
  | _ => true

def depth (s : Store) (key : ℕ) : ℕ := (s.advisory key).elim 0 Prod.snd

/-- A call that the assignment granted a key still has its partition, and no other consumer has it. -/
structure Placed (s : Store) : Prop where
  here : ∀ i key c p, s.grip i = some (.inside key (.kafka c p)) → p ∈ s.assigned c
  single : ∀ c c' p, p ∈ s.assigned c → p ∈ s.assigned c' → c = c'

/-- The invariant: the lock's count is the number of the calls it was granted to. -/
structure Guarded (s : Store) : Prop where
  unique : ∀ key i j, Inside s i key → Inside s j key → i = j
  count : ∀ key, ∃ F : Finset ℕ, (∀ i, i ∈ F ↔ Locks s i key) ∧ F.card = depth s key
  taken : ∀ key h, s.advisory key = some h → 1 ≤ h.2
  owned : ∀ key m, key ∈ (s.manager m).dbOwned → ∃ i, s.grip i = some (.inside key .db)
  placed : Placed s

def Rely (i : ℕ) (s s' : Store) : Prop :=
  s'.grip i = s.grip i ∧
    ∀ key, Inside s i key → ∀ m, key ∈ (s'.manager m).dbOwned ↔ key ∈ (s.manager m).dbOwned

/-- The condition of a step, on the whole of the grips. -/
def Sound (i : ℕ) (o : Op) (e : Env) (s : Store) : Prop :=
  match o with
  | .assignment c topic target key => (topic, target) ∈ s.assigned c →
      ∀ j via, s.grip j = some (.inside key via) → clashes c (topic, target) via = false
  | .tryAdvisoryLock _ key => e.fate ≠ .lost → (∀ h, s.advisory key = some h → h.1 ≠ e.conn) ∧
      ((s.tryLock i e.conn key).1 = true →
        e.fate = .ok ∧ ∀ j via, s.grip j = some (.inside key via) → via = .db)
  | .advisoryUnlock _ key => e.fate ≠ .lost ∧ ∃ n, s.advisory key = some (e.conn, n)
  | _ => True

def proto (i : ℕ) : Protocol Op Op.Ans Exc Store Env where
  perform := perform i
  Ok o e s := Sound i o e s
  J := Guarded
  Rely := Rely i
  Guar s s' := ∀ j, j ≠ i → Rely j s s'
  At _ _ := True
  rely_refl s := ⟨rfl, fun _ _ _ => Iff.rfl⟩
  rely_trans := by
    rintro s t u ⟨h1, h2⟩ ⟨h3, h4⟩
    refine ⟨h3.trans h1, ?_⟩
    intro key hin m
    have hin' : Inside t i key := by
      obtain ⟨via, hv⟩ := hin
      exact ⟨via, by rw [h1, hv]⟩
    exact (h4 key hin' m).trans (h2 key hin m)

/-! ### What steps do to the invariant -/

def core (s : Store) := (s.advisory, s.grip, s.assigned, fun m => (s.manager m).dbOwned)

/-- The operations that change it. -/
def onCore : Op → Bool
  | .tryAdvisoryLock _ _ | .advisoryUnlock _ _ | .assignment _ _ _ _ | .dbOwnedAdd _ _
  | .dropDbOwned _ _ _ => true
  | _ => false

section Steps

variable {s s' : Store} {i j key : ℕ}

lemma core_updateManager (m : ℕ) {f : Manager → Manager} (hf : ∀ M, (f M).dbOwned = M.dbOwned) :
    core (s.updateManager m f) = core s := by
  simp only [core, Store.updateManager, Prod.mk.injEq, true_and]
  funext m'
  by_cases hm : m' = m
  · subst hm
    rw [Function.update_self, hf]
  · rw [Function.update_of_ne hm]

lemma perform_core {o : Op} {e : Env} (h : onCore o = false) : core (perform i o e s).2 = core s := by
  by_cases ho : o.onOwnership = false
  · have := perform_ownershipPart (i := i) (e := e) (s := s) ho
    simp only [Store.ownershipPart, Prod.mk.injEq] at this
    simp [core, this]
  · cases o <;> simp only [Op.onOwnership, onCore, not_true_eq_false, reduceCtorEq] at ho h
    case pendingAdd => exact core_updateManager _ fun _ => rfl
    case rememberOwner => exact core_updateManager _ fun _ => rfl
    case recordReassignment m key owner =>
      simp only [perform, Store.recordReassignment]
      split
      · change core (s.updateManager m fun M => { M with pending := M.pending.erase key }) = core s
        exact core_updateManager m fun _ => rfl
      · split
        · rfl
        · split <;> rfl

lemma Guarded.of_core (h : Guarded s) (hc : core s' = core s) : Guarded s' := by
  simp only [core, Prod.mk.injEq] at hc
  obtain ⟨ha, hg, has, hm⟩ := hc
  have hm' : ∀ m, (s'.manager m).dbOwned = (s.manager m).dbOwned := congrFun hm
  refine ⟨?_, ?_, ?_, ?_, ⟨?_, ?_⟩⟩
  · simpa [Inside, hg] using h.unique
  · simpa [Locks, hg, depth, ha] using h.count
  · simpa [ha] using h.taken
  · simpa [hg, hm'] using h.owned
  · simpa [hg, has] using h.placed.here
  · simpa [has] using h.placed.single

lemma Rely.of_core (hc : core s' = core s) : Rely j s s' := by
  simp only [core, Prod.mk.injEq] at hc
  obtain ⟨-, hg, -, hm⟩ := hc
  exact ⟨by rw [hg], fun key _ m => by rw [show (s'.manager m).dbOwned = _ from congrFun hm m]⟩

variable {g : Option Grip}

lemma Rely.of_grip (hg : s'.grip = Function.update s.grip i g) (hm : s'.manager = s.manager) (hj : j ≠ i) :
    Rely j s s' :=
  ⟨by rw [hg, Function.update_of_ne hj], fun key _ m => by rw [hm]⟩

lemma inside_update (hg : s'.grip = Function.update s.grip i g) :
    Inside s' j key ↔ (j = i ∧ ∃ via, g = some (.inside key via)) ∨ (j ≠ i ∧ Inside s j key) := by
  by_cases hj : j = i
  · subst hj
    simp [Inside, hg]
  · simp [Inside, hg, hj]

lemma locks_update (hg : s'.grip = Function.update s.grip i g) :
    Locks s' j key ↔ (j = i ∧ (g = some (.inside key .db) ∨ g = some (.leaving key))) ∨
      (j ≠ i ∧ Locks s j key) := by
  by_cases hj : j = i
  · subst hj
    simp [Locks, hg]
  · simp [Locks, hg, hj]

lemma Placed.of_grip (h : Placed s) (hg : s'.grip = Function.update s.grip i g) (has : s'.assigned = s.assigned)
    (hn : ∀ key c p, g = some (.inside key (.kafka c p)) → p ∈ s.assigned c) : Placed s' := by
  refine ⟨?_, by simpa [has] using h.single⟩
  intro j key c p hj
  rw [has]
  by_cases hij : j = i
  · subst hij
    rw [hg, Function.update_self] at hj
    exact hn key c p hj
  · rw [hg, Function.update_of_ne hij] at hj
    exact h.here j key c p hj

lemma Guarded.unique_enter {via : Via} (h : Guarded s)
    (hg : s'.grip = Function.update s.grip i (some (.inside key via))) (hn : ∀ j, ¬ Inside s j key) :
    ∀ key' j j', Inside s' j key' → Inside s' j' key' → j = j' := by
  intro key' j j' hj hj'
  rw [inside_update hg] at hj hj'
  rcases hj with ⟨rfl, via₁, h₁⟩ | ⟨hne, h₁⟩ <;> rcases hj' with ⟨rfl, via₂, h₂⟩ | ⟨hne', h₂⟩
  · rfl
  · simp only [Option.some.injEq, Grip.inside.injEq] at h₁
    exact absurd (h₁.1 ▸ h₂) (hn _)
  · simp only [Option.some.injEq, Grip.inside.injEq] at h₂
    exact absurd (h₂.1 ▸ h₁) (hn _)
  · exact h.unique key' j j' h₁ h₂

lemma Guarded.unique_leave (h : Guarded s) (hg : s'.grip = Function.update s.grip i g)
    (hn : ∀ key via, g ≠ some (.inside key via)) : ∀ key' j j', Inside s' j key' → Inside s' j' key' → j = j' := by
  intro key' j j' hj hj'
  rw [inside_update hg] at hj hj'
  rcases hj with ⟨rfl, via₁, h₁⟩ | ⟨hne, h₁⟩
  · exact absurd h₁ (hn _ _)
  · rcases hj' with ⟨rfl, via₂, h₂⟩ | ⟨hne', h₂⟩
    · exact absurd h₂ (hn _ _)
    · exact h.unique key' j j' h₁ h₂

lemma Guarded.owned_grip (h : Guarded s) (hi : ∀ key, s.grip i ≠ some (.inside key .db))
    (hg : s'.grip = Function.update s.grip i g) (hm : s'.manager = s.manager) :
    ∀ key m, key ∈ (s'.manager m).dbOwned → ∃ j, s'.grip j = some (.inside key .db) := by
  intro key m hmem
  obtain ⟨j, hj⟩ := h.owned key m (by rwa [hm] at hmem)
  have hne : j ≠ i := by
    rintro rfl
    exact hi key hj
  exact ⟨j, by rw [hg, Function.update_of_ne hne, hj]⟩

variable {p : String × ℕ}

lemma Guarded.enterKafka {c : ℕ} (h : Guarded s) (hi : s.grip i = none)
    (hn : ∀ j, ¬ Inside s j key) (hp : p ∈ s.assigned c)
    (hg : s'.grip = Function.update s.grip i (some (.inside key (.kafka c p))))
    (ha : s'.advisory = s.advisory) (has : s'.assigned = s.assigned) (hm : s'.manager = s.manager) :
    Guarded s' := by
  have hl : ∀ key' j, Locks s' j key' ↔ Locks s j key' := by
    intro key' j
    rw [locks_update hg]
    by_cases hj : j = i
    · subst hj
      simp [Locks, hi]
    · simp [hj]
  refine ⟨h.unique_enter hg hn, ?_, by simpa [ha] using h.taken, h.owned_grip (by simp [hi]) hg hm,
    h.placed.of_grip hg has ?_⟩
  · intro key'
    obtain ⟨F, hF, hc⟩ := h.count key'
    exact ⟨F, fun j => (hF j).trans (hl key' j).symm, by simpa [depth, ha] using hc⟩
  · rintro _ _ _ ⟨⟩
    exact hp

lemma Guarded.enterDb {conn : ℕ} (h : Guarded s) (hi : s.grip i = none) (hn : ∀ j, ¬ Inside s j key)
    (hg : s'.grip = Function.update s.grip i (some (.inside key .db)))
    (ha : s'.advisory = Function.update s.advisory key (some (conn, depth s key + 1)))
    (has : s'.assigned = s.assigned) (hm : s'.manager = s.manager) : Guarded s' := by
  refine ⟨h.unique_enter hg hn, ?_, ?_, h.owned_grip (by simp [hi]) hg hm,
    h.placed.of_grip hg has (by simp)⟩
  · intro key'
    obtain ⟨F, hF, hc⟩ := h.count key'
    by_cases hk : key' = key
    · subst hk
      have hiF : i ∉ F := by simp [hF, Locks, hi]
      refine ⟨insert i F, ?_, by simp [Finset.card_insert_of_notMem hiF, hc, depth, ha]⟩
      intro j
      rw [Finset.mem_insert, hF, locks_update hg]
      by_cases hj : j = i <;> simp [hj]
    · refine ⟨F, ?_, by simpa [depth, ha, hk] using hc⟩
      intro j
      rw [hF, locks_update hg]
      by_cases hj : j = i
      · subst hj
        simp [Locks, hi, Ne.symm hk]
      · simp [hj]
  · intro key' n hk
    by_cases hk' : key' = key
    · subst hk'
      rw [ha, Function.update_self] at hk
      cases hk
      simp
    · rw [ha, Function.update_of_ne hk'] at hk
      exact h.taken key' n hk

lemma Guarded.unlock {conn n : ℕ} (h : Guarded s) (hi : s.grip i = some (.leaving key))
    (hk : s.advisory key = some (conn, n)) (hg : s'.grip = Function.update s.grip i none)
    (ha : s'.advisory = Function.update s.advisory key (if n ≤ 1 then none else some (conn, n - 1)))
    (has : s'.assigned = s.assigned) (hm : s'.manager = s.manager) : Guarded s' := by
  refine ⟨h.unique_leave hg (by simp), ?_, ?_, h.owned_grip (by simp [hi]) hg hm,
    h.placed.of_grip hg has (by simp)⟩
  · intro key'
    obtain ⟨F, hF, hc⟩ := h.count key'
    by_cases hkk : key' = key
    · subst hkk
      have hiF : i ∈ F := by simp [hF, Locks, hi]
      refine ⟨F.erase i, ?_, ?_⟩
      · intro j
        rw [Finset.mem_erase, hF, locks_update hg]
        by_cases hj : j = i <;> simp [hj]
      · have hn : F.card = n := by simpa [depth, hk] using hc
        rw [Finset.card_erase_of_mem hiF, hn]
        simp only [depth, ha, Function.update_self]
        split
        · simp; omega
        · rfl
    · refine ⟨F, ?_, by simpa [depth, ha, hkk] using hc⟩
      intro j
      rw [hF, locks_update hg]
      by_cases hj : j = i
      · subst hj
        simp [Locks, hi, Ne.symm hkk]
      · simp [hj]
  · intro key' t hk'
    by_cases hkk : key' = key
    · subst hkk
      rw [ha, Function.update_self] at hk'
      split at hk'
      · cases hk'
      · cases hk'
        omega
    · rw [ha, Function.update_of_ne hkk] at hk'
      exact h.taken key' t hk'

lemma Guarded.leaveKafka {c : ℕ} (h : Guarded s) (hi : s.grip i = some (.inside key (.kafka c p)))
    (hg : s'.grip = Function.update s.grip i none) (ha : s'.advisory = s.advisory)
    (has : s'.assigned = s.assigned) (hm : s'.manager = s.manager) : Guarded s' := by
  refine ⟨h.unique_leave hg (by simp), ?_, by simpa [ha] using h.taken,
    h.owned_grip (by simp [hi]) hg hm, h.placed.of_grip hg has (by simp)⟩
  · intro key'
    obtain ⟨F, hF, hc⟩ := h.count key'
    refine ⟨F, ?_, by simpa [depth, ha] using hc⟩
    intro j
    rw [hF, locks_update hg]
    by_cases hj : j = i
    · subst hj
      simp [Locks, hi]
    · simp [hj]

lemma dbOwned_updateManager (m m' : ℕ) (f : Manager → Manager) : ((s.updateManager m f).manager m').dbOwned =
      if m' = m then (f (s.manager m)).dbOwned else (s.manager m').dbOwned := by
  unfold Store.updateManager
  by_cases hm : m' = m
  · subst hm
    simp
  · simp [hm]

lemma Guarded.add {m : ℕ} (h : Guarded s) (hi : s.grip i = some (.inside key .db))
    (ha : s'.advisory = s.advisory) (has : s'.assigned = s.assigned) (hg : s'.grip = s.grip)
    (hm : ∀ m', (s'.manager m').dbOwned =
      if m' = m then insert key (s.manager m).dbOwned else (s.manager m').dbOwned) :
    Guarded s' ∧ ∀ j, j ≠ i → Rely j s s' := by
  refine ⟨⟨by simpa [Inside, hg] using h.unique, by simpa [Locks, hg, depth, ha] using h.count,
    by simpa [ha] using h.taken, ?_, by simpa [hg, has] using h.placed.here,
    by simpa [has] using h.placed.single⟩, fun j hj => ⟨by rw [hg], ?_⟩⟩
  · intro key' m' hmem
    rw [hg]
    rw [hm] at hmem
    split at hmem
    · rcases Finset.mem_insert.mp hmem with rfl | hmem
      · exact ⟨i, hi⟩
      · exact h.owned key' m hmem
    · exact h.owned key' m' hmem
  · intro key' hin m'
    -- another call is inside another key
    have hne : key' ≠ key := by
      rintro rfl
      exact hj (h.unique _ _ _ hin ⟨_, hi⟩)
    rw [hm]
    split
    · rename_i hmm
      simp [hmm, hne]
    · rfl

lemma Guarded.drop {m : ℕ} (h : Guarded s) (hi : s.grip i = some (.inside key .db))
    (hon : ∀ m', m' ≠ m → key ∉ (s.manager m').dbOwned)
    (ha : s'.advisory = s.advisory) (has : s'.assigned = s.assigned)
    (hg : s'.grip = Function.update s.grip i (some (.leaving key))) (hm : ∀ m', (s'.manager m').dbOwned =
      if m' = m then (s.manager m).dbOwned.erase key else (s.manager m').dbOwned) :
    Guarded s' ∧ ∀ j, j ≠ i → Rely j s s' := by
  refine ⟨⟨h.unique_leave hg (by simp), ?_, by simpa [ha] using h.taken, ?_,
    h.placed.of_grip hg has (by simp)⟩, fun j hj => ⟨by rw [hg, Function.update_of_ne hj], ?_⟩⟩
  · intro key'
    obtain ⟨F, hF, hc⟩ := h.count key'
    refine ⟨F, ?_, by simpa [depth, ha] using hc⟩
    intro j
    rw [hF, locks_update hg]
    by_cases hj : j = i
    · subst hj
      simp [Locks, hi]
    · simp [hj]
  · intro key' m' hmem
    have hkey : key' ≠ key := by
      rintro rfl
      rw [hm] at hmem
      split at hmem
      · simp at hmem
      · rename_i hmm
        exact hon m' hmm hmem
    have hm' : key' ∈ (s.manager m').dbOwned := by
      rw [hm] at hmem
      split at hmem
      · rename_i hmm
        rw [hmm]
        exact Finset.mem_of_mem_erase hmem
      · exact hmem
    obtain ⟨j, hj⟩ := h.owned key' m' hm'
    have hne : j ≠ i := by
      rintro rfl
      rw [hi] at hj
      cases hj
      exact hkey rfl
    exact ⟨j, by rw [hg, Function.update_of_ne hne, hj]⟩
  · intro key' hin m'
    have hne : key' ≠ key := by
      rintro rfl
      exact hj (h.unique _ _ _ hin ⟨_, hi⟩)
    rw [hm]
    split
    · rename_i hmm
      simp [hmm, hne]
    · rfl

lemma Guarded.nobody_of_lock {conn : ℕ} (h : Guarded s) (hc : ∀ h, s.advisory key = some h → h.1 ≠ conn)
    (hl : (s.tryLock i conn key).1) (hdb : ∀ j via, s.grip j = some (.inside key via) → via = .db)
    (j : ℕ) : ¬ Inside s j key := by
  -- a connection that did not hold the key is granted it only while no session holds it
  have hfree : s.advisory key = none := by
    cases ha : s.advisory key with
    | none => rfl
    | some t => simp [Store.tryLock, ha, hc t ha] at hl
  rintro ⟨via, hv⟩
  obtain ⟨F, hF, hcard⟩ := h.count key
  have hmem : j ∈ F := (hF j).mpr (.inl (by rw [hv, hdb j via hv]))
  have : 0 < F.card := Finset.card_pos.mpr ⟨j, hmem⟩
  simp [hcard, depth, hfree] at this

lemma Guarded.nobody_of_assignment {c : ℕ} (h : Guarded s) (hp : p ∈ s.assigned c)
    (hs : ∀ j via, s.grip j = some (.inside key via) → clashes c p via = false) (j : ℕ) : ¬ Inside s j key := by
  rintro ⟨via, hv⟩
  have hk := hs j via hv
  cases via with
  | db => cases hk
  | kafka c' p' =>
    simp only [clashes, ne_eq, Bool.or_eq_false_iff, decide_eq_false_iff_not, not_not] at hk
    obtain ⟨hne, rfl⟩ := hk
    exact hne (h.placed.single c' c p' (h.placed.here j key c' p' hv) hp)

end Steps

/-! ### The code keeps the protocol -/

def Holding (i key : ℕ) (via : Via) (D : ℕ → Prop) (s : Store) : Prop :=
  s.grip i = some (.inside key via) ∧ ∀ m, key ∈ (s.manager m).dbOwned ↔ D m

def Free (i : ℕ) (s : Store) : Prop := s.grip i = none

section Code

variable {s s' : Store} {i key : ℕ} {via : Via} {V : Set Via} {D : ℕ → Prop}

lemma Holding.rely (h : Holding i key via D s) (hR : Rely i s s') : Holding i key via D s' :=
  ⟨hR.1.trans h.1, fun m => (hR.2 key ⟨via, h.1⟩ m).trans (h.2 m)⟩

lemma Free.rely (h : Free i s) (hR : Rely i s s') : Free i s' := hR.1.trans h

lemma quiet {α : Type} {m : Gw α} {K : Store → Prop} (hK : ∀ s s', Rely i s s' → K s → K s')
    (hm : Uses (fun o => onCore o = false) m) (h : K s) : Safe (proto i) (fun _ s => K s) m s :=
  hm.safe (p := proto i) hK (fun _ ho _ (hJ : Guarded _) hs => ⟨trivial, fun _ _ => ⟨hJ.of_core (perform_core ho),
    fun _ _ => .of_core (perform_core ho), hK _ _ (.of_core (perform_core ho)) hs⟩⟩) h

lemma quiet_free {α : Type} {m : Gw α} (hm : Uses (fun o => onCore o = false) m) (h : Free i s) :
    Safe (proto i) (fun _ s => Free i s) m s :=
  quiet (fun _ _ hR h => h.rely hR) hm h

variable {o : Op}

lemma memory {K : Store → Prop} (hK : ∀ s s', Rely i s s' → K s → K s') (ho : onCore o = false)
    (hok : ∀ e s, ∃ a, (perform i o e s).1 = .ok a) (h : K s) :
    Safe (proto i) (fun r s => (∃ a, r = .ok a) ∧ K s) (ask o) s :=
  Safe.perform_iff.mpr fun _ hR (hJ : Guarded _) => ⟨trivial, fun e _ => ⟨hJ.of_core (perform_core ho),
    fun _ _ => .of_core (perform_core ho), hok e _, hK _ _ (.of_core (perform_core ho)) (hK _ _ hR h)⟩⟩

lemma Guarded.not_owned (h : Guarded s) (hn : ∀ j, ¬ Inside s j key) (m : ℕ) :
    key ∈ (s.manager m).dbOwned ↔ False := by
  refine ⟨?_, False.elim⟩
  intro hmem
  obtain ⟨j, hj⟩ := h.owned key m hmem
  exact hn j ⟨_, hj⟩

/-- What `_assignment` and `KafkaPartitionOwnership.acquire` leave behind. -/
def Granted (i key : ℕ) (V : Set Via) (D : ℕ → Prop) (granted : Bool) (s : Store) : Prop :=
  if granted then ∃ via ∈ V, Holding i key via D s else Free i s

variable (via) in
lemma Granted.of_true {b : Bool} (hb : b) (hv : via ∈ V) (h : Holding i key via D s) : Granted i key V D b s := by
  subst hb
  exact ⟨via, hv, h⟩

lemma Granted.of_false {b : Bool} (hb : b = false) (h : Free i s) : Granted i key V D b s := by
  subst hb
  exact h

def byKafka : Set Via := {via | isKafka via = true}

lemma assignment_safe (k : KafkaOwner) (target n : ℕ) (h : Free i s) :
    Safe (proto i) (fun r s => match r with
      | .ok assigned => Granted i key byKafka (fun _ => False) (decide ((k.topic, target) ∈ assigned)) s
      | .error _ => Free i s) (k.assignment target key n) s := by
  induction n generalizing s with
  | zero => exact h
  | succ n ih =>
    refine Safe.bind_iff.mpr (Safe.perform_iff.mpr fun s₁ hR hJ => ⟨trivial, ?_⟩)
    intro e hok
    have h₁ := h.rely hR
    simp only [proto, perform, Store.seeAssignment] at hJ hok ⊢
    by_cases hmem : (k.topic, target) ∈ s₁.assigned k.consumer
    · have hn := Guarded.nobody_of_assignment hJ hmem (hok hmem)
      rw [if_pos hmem]
      refine ⟨hJ.enterKafka h₁ hn hmem rfl rfl rfl rfl, fun j hj => .of_grip rfl rfl hj, ?_⟩
      have hne : s₁.assigned k.consumer ≠ [] := List.ne_nil_of_mem hmem
      rw [if_neg hne]
      exact .of_true (.kafka k.consumer (k.topic, target)) (decide_eq_true hmem) rfl
        ⟨by simp, fun m => hJ.not_owned hn m⟩
    · rw [if_neg hmem]
      refine ⟨hJ, fun j _ => .of_core rfl, ?_⟩
      split
      · refine Safe.bind_iff.mpr ((quiet_free (Uses.perform rfl) h₁).mono ?_)
        intro r s₂ h₂
        cases r with
        | ok _ => exact ih h₂
        | error _ => exact h₂
      · exact .of_false (decide_eq_false hmem) h₁

def Outcome (i key : ℕ) (V : Set Via) (D : ℕ → Prop) : Except Exc Bool → Store → Prop
  | .ok granted, s => Granted i key V D granted s
  | .error _, s => Free i s

lemma kafkaAcquire_safe (k : KafkaOwner) (h : Free i s) :
    Safe (proto i) (Outcome i key byKafka fun _ => False) (k.acquire key) s := by
  refine Safe.bind_iff.mpr ((quiet_free (Uses.perform rfl) h).mono ?_)
  intro r s₁ h₁
  cases r with
  | error _ => exact h₁
  | ok _ =>
    refine Safe.bind_iff.mpr ((quiet_free (Uses.perform rfl) h₁).mono ?_)
    intro r s₂ h₂
    cases r with
    | error _ => exact h₂
    | ok found =>
      dsimp only
      split
      · exact h₂
      · refine Safe.bind_iff.mpr ((assignment_safe k _ _ h₂).mono ?_)
        intro r s₃ h₃
        cases r with
        | error _ => exact h₃
        | ok assigned => exact h₃

variable (m : OwnershipManager) (owner : String)

lemma remember_safe (h : Holding i key via D s) :
    Safe (proto i) (fun r s => r = .ok true ∧ Holding i key via D s) (do
      ask (.recordReassignment m.memory key owner)
      ask (.rememberOwner m.memory key owner)
      return true) s := by
  refine Safe.bind_iff.mpr ((memory (fun _ _ hR h => h.rely hR) rfl (fun _ _ => ⟨_, rfl⟩) h).mono ?_)
  rintro _ s₁ ⟨⟨_, rfl⟩, h₁⟩
  refine Safe.bind_iff.mpr ((memory (fun _ _ hR h => h.rely hR) rfl (fun _ _ => ⟨_, rfl⟩) h₁).mono ?_)
  rintro _ s₂ ⟨⟨_, rfl⟩, h₂⟩
  exact ⟨rfl, h₂⟩

lemma pend_safe (h : Free i s) :
    Safe (proto i) (fun r s => r = .ok false ∧ Free i s) (do
      ask (.pendingAdd m.memory key)
      return false) s := by
  refine Safe.bind_iff.mpr ((memory (fun _ _ hR h => h.rely hR) rfl (fun _ _ => ⟨_, rfl⟩) h).mono ?_)
  rintro _ s₁ ⟨⟨_, rfl⟩, h₁⟩
  exact ⟨rfl, h₁⟩

lemma tryKafkaAcquire_safe (h : Free i s) :
    Safe (proto i) (fun r s => Outcome i key byKafka (fun _ => False) r s ∧ (r = .ok true → m.kafka.isSome))
      (m.tryKafkaAcquire key owner) s := by
  unfold OwnershipManager.tryKafkaAcquire
  split
  · exact ⟨h, by simp⟩
  · rename_i k hk
    rw [hk]
    refine Safe.tryExcept_iff.mpr (Safe.bind_iff.mpr ((kafkaAcquire_safe k h).mono ?_))
    intro r s₁ h₁
    cases r with
    | error _ => exact ⟨h₁, by simp⟩
    | ok granted =>
      cases granted with
      | true =>
        obtain ⟨via, hv, h₁⟩ := h₁
        refine (remember_safe m owner h₁).mono ?_
        rintro _ s₂ ⟨rfl, h₂⟩
        exact ⟨⟨via, hv, h₂⟩, fun _ => rfl⟩
      | false =>
        refine (pend_safe m h₁).mono ?_
        rintro _ s₂ ⟨rfl, h₂⟩
        exact ⟨h₂, by simp⟩

lemma tryLock_cases (s : Store) (i conn key : ℕ) : ((s.tryLock i conn key).1 ∧
      (s.tryLock i conn key).2.grip = Function.update s.grip i (some (.inside key .db)) ∧
      (s.tryLock i conn key).2.advisory = Function.update s.advisory key (some (conn, depth s key + 1)) ∧
      (s.tryLock i conn key).2.assigned = s.assigned ∧ (s.tryLock i conn key).2.manager = s.manager) ∨
      s.tryLock i conn key = (false, s) := by
  unfold Store.tryLock
  split
  · rename_i ha
    exact .inl ⟨rfl, rfl, by simp [depth, ha], rfl, rfl⟩
  · rename_i c n ha
    split
    · exact .inl ⟨rfl, rfl, by simp [depth, ha], rfl, rfl⟩
    · exact .inr rfl

lemma tryLock_step {pool : List ℕ} {e : Env} (hJ : Guarded s) (h : Free i s)
    (hok : Sound i (.tryAdvisoryLock pool key) e s) : Guarded (perform i (.tryAdvisoryLock pool key) e s).2 ∧
      (∀ j, j ≠ i → Rely j s (perform i (.tryAdvisoryLock pool key) e s).2) ∧
      Outcome i key {.db} (fun _ => False) (perform i (.tryAdvisoryLock pool key) e s).1
        (perform i (.tryAdvisoryLock pool key) e s).2 := by
  by_cases hl : e.fate = .lost
  · simp only [perform, reply, hl]
    exact ⟨hJ, fun j _ => .of_core rfl, h⟩
  · rcases tryLock_cases s i e.conn key with ⟨hg, hgr, hadv, has, hman⟩ | hg
    · obtain ⟨hc, hs⟩ := hok hl
      obtain ⟨hf, hdb⟩ := hs hg
      have hn := hJ.nobody_of_lock hc hg hdb
      simp only [perform, reply, hf]
      refine ⟨hJ.enterDb h hn hgr hadv has hman, fun j hj => .of_grip hgr hman hj, ?_⟩
      refine .of_true .db hg rfl ⟨by rw [hgr, Function.update_self], ?_⟩
      intro m'
      rw [hman]
      exact hJ.not_owned hn m'
    · simp only [perform, hg]
      cases hf : e.fate with
      | ok => exact ⟨hJ, fun j _ => .of_core rfl, h⟩
      | lost => exact absurd hf hl
      | torn => exact ⟨hJ, fun j _ => .of_core rfl, h⟩

lemma tryDbAcquire_safe (h : Free i s) :
    Safe (proto i) (Outcome i key {.db} fun _ => False) (m.tryDbAcquire key owner) s := by
  refine Safe.bind_iff.mpr (Safe.perform_iff.mpr fun s₁ hR hJ => ⟨trivial, ?_⟩)
  intro e hok
  obtain ⟨hJ', hG, ho⟩ := tryLock_step hJ (h.rely hR) hok
  refine ⟨hJ', hG, ?_⟩
  change Outcome i key {.db} (fun _ => False) ((proto i).perform (.tryAdvisoryLock m.pool key) e s₁).1
    ((proto i).perform (.tryAdvisoryLock m.pool key) e s₁).2 at ho
  revert ho
  generalize (proto i).perform (.tryAdvisoryLock m.pool key) e s₁ = p
  obtain ⟨_ | _ | _, s₂⟩ := p
  · exact id
  · exact id
  · rintro ⟨via, hv, ho⟩
    refine (remember_safe m owner ho).mono ?_
    rintro _ s₃ ⟨rfl, h₃⟩
    exact ⟨via, hv, h₃⟩

def Owning (i key : ℕ) (m : OwnershipManager) (s : Store) : Prop :=
  ((∃ c p, Holding i key (.kafka c p) (fun _ => False) s) ∧ m.kafka.isSome) ∨
    Holding i key .db (· = m.memory) s

lemma Owning.rely {m : OwnershipManager} (h : Owning i key m s) (hR : Rely i s s') : Owning i key m s' :=
  h.imp (fun ⟨⟨c, p, h⟩, hk⟩ => ⟨⟨c, p, h.rely hR⟩, hk⟩) fun h => h.rely hR

lemma acquire_safe (h : Free i s) :
    Safe (proto i) (fun r s => match r with
      | .ok true => Owning i key m s
      | _ => Free i s) (m.acquire key owner) s := by
  refine Safe.bind_iff.mpr ((tryKafkaAcquire_safe m owner h).mono ?_)
  rintro (_ | _ | _) s₁ ⟨h₁, hk⟩
  · exact h₁
  · -- not by the assignment: the lock
    refine Safe.bind_iff.mpr ((tryDbAcquire_safe m owner h₁).mono ?_)
    rintro (_ | _ | _) s₂ h₂
    · exact h₂
    · refine (pend_safe m h₂).mono ?_
      rintro _ s₃ ⟨rfl, h₃⟩
      exact h₃
    · refine Safe.bind_iff.mpr (Safe.perform_iff.mpr fun s₃ hR hJ => ⟨trivial, ?_⟩)
      intro e _
      obtain ⟨_, rfl, h₂⟩ := h₂
      have h₃ : Holding i key .db (fun _ => False) s₃ := h₂.rely hR
      have hm := fun m' => dbOwned_updateManager (s := s₃) m.memory m'
        fun M => { M with dbOwned := insert key M.dbOwned }
      have hadd : Guarded (perform i (.dbOwnedAdd m.memory key) e s₃).2 ∧
          ∀ j, j ≠ i → Rely j s₃ (perform i (.dbOwnedAdd m.memory key) e s₃).2 :=
        Guarded.add hJ h₃.1 rfl rfl rfl hm
      refine ⟨hadd.1, hadd.2, .inr ⟨h₃.1, ?_⟩⟩
      intro m'
      have := h₃.2 m'
      by_cases hmm : m' = m.memory <;> simp [proto, perform, hm, hmm, this]
  · obtain ⟨via, hv, h₁⟩ := h₁
    cases via with
    | kafka c p => exact .inl ⟨⟨c, p, h₁⟩, hk rfl⟩
    | db => cases hv

lemma unlock_safe (h : s.grip i = some (.leaving key)) :
    Safe (proto i) (fun _ s => Free i s) (ask (.advisoryUnlock m.pool key)) s := by
  refine Safe.perform_iff.mpr fun s₁ hR hJ => ⟨trivial, ?_⟩
  intro e hok
  have h₁ : s₁.grip i = some (.leaving key) := hR.1.trans h
  obtain ⟨hf, n, hn⟩ := hok
  have hu : s₁.unlock i e.conn key = (true, { s₁ with
      advisory := Function.update s₁.advisory key (if n ≤ 1 then none else some (e.conn, n - 1))
      grip := Function.update s₁.grip i none }) := by
    simp [Store.unlock, hn]
  have hp : ((proto i).perform (.advisoryUnlock m.pool key) e s₁).2 = (s₁.unlock i e.conn key).2 := by
    simp only [proto, perform, reply]
    cases hfe : e.fate with
    | lost => exact absurd hfe hf
    | ok => rfl
    | torn => rfl
  rw [hp, hu]
  exact ⟨Guarded.unlock hJ h₁ hn rfl rfl rfl rfl, fun j hj => .of_grip rfl rfl hj, Function.update_self ..⟩

lemma release_safe (h : Owning i key m s) : Safe (proto i) (fun _ s => Free i s) (m.release key) s := by
  refine Safe.bind_iff.mpr (Safe.perform_iff.mpr fun s₁ hR hJ => ⟨trivial, ?_⟩)
  intro e _
  have h₁ := h.rely hR
  simp only [proto, perform, Store.dropDbOwned]
  rcases h₁ with ⟨⟨c, p, hg, hown⟩, hk⟩ | ⟨hg, hown⟩
  · -- granted by the assignment: nothing to give back
    have hno : ¬ (key ∈ (s₁.manager m.memory).dbOwned ∨ m.kafka.isNone) := by
      simp only [hown, false_or, Option.isNone_iff_eq_none]
      exact Option.isSome_iff_ne_none.mp hk
    rw [if_neg hno]
    exact ⟨Guarded.leaveKafka hJ hg rfl rfl rfl rfl, fun j hj => .of_grip rfl rfl hj, Function.update_self ..⟩
  · have hyes : key ∈ (s₁.manager m.memory).dbOwned ∨ m.kafka.isNone := .inl ((hown _).mpr rfl)
    rw [if_pos hyes]
    have hm := fun m' => dbOwned_updateManager (s := s₁) m.memory m'
      fun M => { M with dbOwned := M.dbOwned.erase key }
    have hd : Guarded (s₁.dropDbOwned i m.memory key m.kafka.isNone).2 ∧
        ∀ j, j ≠ i → Rely j s₁ (s₁.dropDbOwned i m.memory key m.kafka.isNone).2 := by
      simp only [Store.dropDbOwned, if_pos hyes]
      exact Guarded.drop hJ hg (fun m' hne => (hown m').not.mpr hne) rfl rfl rfl hm
    simp only [Store.dropDbOwned, if_pos hyes] at hd
    refine ⟨hd.1, hd.2, ?_⟩
    refine Safe.bind_iff.mpr ((unlock_safe m (Function.update_self ..)).mono ?_)
    rintro (_ | _) s₂ h₂ <;> exact h₂

lemma onCore_of_ofOwnership (h : o.ofOwnership = false) : onCore o = false := by
  cases o <;> first | rfl | cases h

lemma process_safe (w : Worker) (sid : String) (h : Free i s) :
    Safe (proto i) (fun _ s => Free i s) (w.process sid) s := by
  refine Safe.bind_iff.mpr ((acquire_safe w.manager w.id h).mono ?_)
  rintro (_ | _ | _) s₁ h₁
  · exact h₁
  · exact h₁
  · have hb : Uses (fun o => onCore o = false) ((w.processOwned sid).tryExcept fun _ => do
        w.transition sid .fail
        return false) :=
      Uses.tryExcept ((w.uses_processOwned sid).mono fun _ => onCore_of_ofOwnership) fun _ =>
        Uses.bind ((w.uses_transition sid .fail).mono fun _ => onCore_of_ofOwnership) fun _ => Uses.ret _
    have hs : ∀ s s', Rely i s s' → Owning i (Worker.lockKey sid) w.manager s →
        Owning i (Worker.lockKey sid) w.manager s' := fun _ _ hR h => h.rely hR
    refine Safe.tryFinally_iff.mpr ((quiet hs hb h₁).mono ?_)
    intro r s₂ h₂
    refine (release_safe w.manager h₂).mono ?_
    rintro (_ | _) s₃ h₃ <;> exact h₃

lemma perform_grip {e : Env} {j : ℕ} (hj : j ≠ i) : (perform i o e s).2.grip j = s.grip j := by
  by_cases ho : onCore o = false
  · have := perform_core (i := i) (e := e) (s := s) ho
    simp only [core, Prod.mk.injEq] at this
    rw [this.2.1]
  · obtain ⟨f, c, b⟩ := e
    cases o <;> simp only [onCore, not_true_eq_false, reduceCtorEq] at ho
    case dbOwnedAdd => rfl
    case assignment =>
      simp only [perform, Store.seeAssignment]
      split <;> simp [hj]
    case dropDbOwned =>
      simp only [perform, Store.dropDbOwned]
      split <;> simp [hj]
    case tryAdvisoryLock =>
      cases f <;> simp only [perform, reply, Store.tryLock] <;> split <;> (try split) <;> simp [hj]
    case advisoryUnlock =>
      cases f <;> simp only [perform, reply, Store.unlock] <;> split <;> (try split) <;> simp [hj]

end Code

/-! ### Any number of calls -/

lemma grip_of_run {P : Cfg → Ev → Prop} {s₀ : Store} {c : Cfg} (h : system.Run P (init s₀) c) :
    ∀ j, c.calls.length ≤ j → c.store.grip j = none := by
  induction h with
  | init => exact fun _ _ => rfl
  | next _ _ hs ih =>
    obtain ⟨-, ⟨a, rfl, rfl⟩ | ⟨i, e, a, o, k, rfl, hi, rfl⟩ | ⟨x, rfl, rfl⟩⟩ := System.step_cases hs
    · intro j hj
      simp only [List.length_append, List.length_singleton] at hj
      exact ih j (by omega)
    · intro j hj
      simp only [List.length_set] at hj
      have hlt : i < _ := (List.getElem?_eq_some_iff.mp hi).1
      exact (perform_grip (by omega)).trans (ih j hj)
    · intro j hj
      cases x <;> exact ih j hj

variable {s : Store}

lemma not_of_anyInside {n key : ℕ} {p : Via → Bool} (hn : ∀ j, n ≤ j → s.grip j = none)
    (h : anyInside n s key p = false) (j : ℕ) (via : Via) (hv : s.grip j = some (.inside key via)) :
    p via = false := by
  rcases Nat.lt_or_ge j n with hlt | hge
  · have := List.any_eq_false.mp h j (List.mem_range.mpr hlt)
    simpa [hv, Grip.isInside] using this
  · rw [hn j hge] at hv
    cases hv

lemma sound_of_soundOp {n i : ℕ} {o : Op} {e : Env} (hn : ∀ j, n ≤ j → s.grip j = none) (h : soundOp n i o e s) :
    Sound i o e s := by
  cases o <;> try trivial
  case assignment =>
    simp only [soundOp, Bool.or_eq_true, decide_eq_true_eq, Bool.not_eq_true'] at h
    exact fun hmem => not_of_anyInside hn (h.resolve_left (by simpa using hmem))
  case tryAdvisoryLock =>
    simp only [soundOp, Bool.or_eq_true, Bool.and_eq_true, decide_eq_true_eq, Bool.not_eq_true'] at h
    intro hl
    obtain ⟨hc, hs⟩ := h.resolve_left hl
    refine ⟨fun t ht => by simpa [ht] using hc, ?_⟩
    intro hg
    obtain ⟨hf, hk⟩ := hs.resolve_left (by simp [hg])
    refine ⟨hf, ?_⟩
    intro j via hv
    have := not_of_anyInside hn hk j via hv
    cases via with
    | db => rfl
    | kafka c p => cases this
  case advisoryUnlock =>
    simp only [soundOp, Bool.and_eq_true, decide_eq_true_eq, Option.any_eq_true] at h
    obtain ⟨hf, ⟨c, n'⟩, hc, rfl⟩ := h
    exact ⟨hf, n', hc⟩

lemma guarded_init (s₀ : Store) : Guarded (init s₀).store where
  unique key i j hi := by
    obtain ⟨_, h⟩ := hi
    cases h
  count key := ⟨∅, fun i => by simp [Locks, init], rfl⟩
  taken _ _ h := by cases h
  owned key m hmem := by simp [init, Manager.empty] at hmem
  placed := ⟨fun _ _ _ _ h => (by cases h), fun _ _ _ h => (by cases h)⟩

variable {assignment : List ((String × ℕ) × ℕ)}

lemma mem_assigned {c : ℕ} {p : String × ℕ} :
    p ∈ (disturb (.rebalance assignment) s).assigned c ↔ (p, c) ∈ assignment := by
  simp [disturb]

/-- A rebalance gives each partition to one consumer and leaves the calls inside theirs. -/
theorem Placed.rebalance {n : ℕ} (hn : ∀ j, n ≤ j → s.grip j = none) (hnd : (assignment.map Prod.fst).Nodup)
    (hk : (List.range n).all (fun j => (s.grip j).all (Grip.keptBy assignment))) :
    Placed (disturb (.rebalance assignment) s) := by
  refine ⟨?_, ?_⟩
  · intro j key c p hj
    have hj' : s.grip j = some (.inside key (.kafka c p)) := hj
    have hlt : j < n := by
      by_contra hge
      rw [hn j (by omega)] at hj'
      cases hj'
    have := List.all_eq_true.mp hk j (List.mem_range.mpr hlt)
    exact mem_assigned.mpr (by simpa [hj', Grip.keptBy] using this)
  · intro c c' p hc hc'
    rw [mem_assigned] at hc hc'
    exact congrArg Prod.snd (List.inj_on_of_nodup_map hnd hc hc' rfl)

lemma composes (s₀ : Store) : System.Composes system (fun c ev => sound c ev) (init s₀)
    (fun i _ => proto i) Guarded (fun ls s => ∀ j, ls.length ≤ j → Free j s) (fun i _ _ s => Free i s) where
  inv _ _ := rfl
  perform _ _ := rfl
  calls := rfl
  init := ⟨guarded_init s₀, fun _ _ => rfl⟩
  ok c i e a o k hrun hP hi := by
    simp only [sound, hi] at hP
    exact sound_of_soundOp (grip_of_run hrun) hP
  stable i a r s s' hR h := h.rely hR
  start c a _ _ hJ hI := by
    refine ⟨fun j hj => hI j ?_, process_safe _ _ (hI _ ?_)⟩
    · simp only [List.length_append, List.length_singleton] at hj
      omega
    · simp [Config.labels]
  disturb c x hP hmay hJ hI := by
    refine ⟨?_, fun j hj => (hI j hj).rely ?_, fun i a _ => ?_⟩
    · cases x with
      | rebalance assignment =>
        have hg : ∀ j, c.calls.length ≤ j → c.store.grip j = none :=
          fun j hj => hI j (by simpa [Config.labels] using hj)
        exact { hJ with placed := .rebalance hg (by simpa [system, may] using hmay) hP }
      | repartition _ => exact hJ.of_core rfl
    all_goals cases x <;> exact ⟨rfl, fun _ _ _ => Iff.rfl⟩
  keep ls i a s s' hJ hI hi hG hJ' := by
    have hlt := (List.getElem?_eq_some_iff.mp hi).1
    exact fun j hj => (hI j hj).rely (hG j (by omega))
  others ls i j a b s s' hJ hI hi hj hij hG hJ' := hG j (Ne.symm hij)

lemma acquirable_of_guarded {key : ℕ} (h : Guarded s) (hn : ∀ i, ¬ Locks s i key) : Acquirable s key := by
  have hf : s.advisory key = none := by
    obtain ⟨F, hF, hc⟩ := h.count key
    have hF0 : F = ∅ := Finset.eq_empty_of_forall_notMem fun i hi => hn i ((hF i).mp hi)
    cases ha : s.advisory key with
    | none => rfl
    | some t =>
      have ht := h.taken key t ha
      simp [hF0, depth, ha] at hc
      omega
  intro m owner i env hok
  exact m.exec_acquire owner env (fun o _ => hok o) hf

/-- **Ownership is exclusive in every run of sound steps.** -/
theorem exclusive_of_sound {s₀ : Store} {c : Cfg}
    (h : system.Run (fun c ev => sound c ev = true) (init s₀) c) : Exclusive c := by
  obtain ⟨hJ, -, hsafe⟩ := h.safe (composes s₀)
  refine ⟨hJ.unique, ?_, fun key hn => acquirable_of_guarded hJ fun i => (hn i).2⟩
  intro i a r hi
  have := hsafe i a _ hi
  cases r <;> exact this

/-! ### Two workers and one strategy -/

def kafkaWorker (n : ℕ) : Worker :=
  ⟨"w", ⟨n, [n], some ⟨n, "owners", fun key count => key % count, 3⟩⟩, false, false, false, 3⟩

def lockWorker (n : ℕ) : Worker := ⟨"w", ⟨n, [n], none⟩, false, false, false, 3⟩

def holds (c : Cfg) (i : ℕ) : Bool := (c.store.grip i).any (Grip.isInside (Worker.lockKey "s") fun _ => true)

lemma inside_of_holds {c : Cfg} {i : ℕ} (h : holds c i) : Inside c.store i (Worker.lockKey "s") := by
  simp only [holds, Option.any_eq_true] at h
  obtain ⟨g, hg, hin⟩ := h
  cases g with
  | inside key via =>
    simp only [Grip.isInside, Bool.and_true, decide_eq_true_eq] at hin
    exact ⟨via, by rw [← hin]; exact hg⟩
  | leaving key => cases hin

/-- The first worker takes the lock, fails on the unknown strategy and gives the lock back; then the only
partition is assigned to the second worker's consumer, which is granted the key. -/
theorem exclusive_of_sound_handover : ∃ c, system.Run (fun c ev => sound c ev = true) (init .empty) c ∧
    Exclusive c ∧ holds c 1 = true := by
  obtain ⟨c, hrun, hq⟩ := exists_run system.step (init .empty) sound
    ([.start ⟨lockWorker 0, "s"⟩, .start ⟨kafkaWorker 1, "s"⟩] ++ List.replicate 10 (.resume 0 .ok) ++
      [.disturb (.repartition [0]), .disturb (.rebalance [(("owners", 0), 1)])] ++
      List.replicate 3 (.resume 1 .ok))
    (fun c => holds c 1) (by decide +kernel)
  exact ⟨c, hrun, exclusive_of_sound hrun, hq⟩

/-- The consumer of the first worker is assigned the only partition, so the first worker is inside
without a lock; the second is refused by the assignment, asks for the lock and gets it. -/
theorem two_owners : ∃ c, execIf system.step (fun _ _ => true) (init .empty)
    ([.disturb (.repartition [0]), .disturb (.rebalance [(("owners", 0), 0)]),
        .start ⟨kafkaWorker 0, "s"⟩, .start ⟨kafkaWorker 1, "s"⟩] ++
      List.replicate 3 (.resume 0 .ok) ++ List.replicate 9 (.resume 1 .ok) ++
      [.resume 1 ⟨.ok, 1, true⟩]) = some c ∧ ¬ Exclusive c := by
  refine exists_execIf (fun c => holds c 0 && holds c 1) (by decide +kernel) ?_
  intro c hq hex
  simp only [Bool.and_eq_true] at hq
  have := hex.1 _ 0 1 (inside_of_holds hq.1) (inside_of_holds hq.2)
  cases this

end Qmtl.Gateway.OwnershipExclusion

import Qmtl.Lib.Dict
import Qmtl.Lib.Run

/-! The background backfills of a provider: a guard entry for every key, the claim at the coordinator, the
task and what it takes back at its end. A call is suspended at the claim of another coordinator; that of this
process answers at once. -/

namespace Qmtl.Runtime.Seamless.BackgroundBackfill

open Lib (Dict Run execIf)

structure Lease where
  key : String
  token : String
  leaseUntilMs : ℤ
deriving DecidableEq

/-- A stored lease, and the call it was granted to, which the code does not keep. -/
structure HeldLease where
  lease : Lease
  holder : ℕ
deriving DecidableEq

/-- `f"\x7bnow:x\x7d"`. -/
def hexText (n : ℤ) : String :=
  if n < 0 then "-" ++ String.ofList (Nat.toDigits 16 n.natAbs) else String.ofList (Nat.toDigits 16 n.natAbs)

def claim (leases : Dict String HeldLease) (key : String) (leaseMs now : ℤ) : Option Lease :=
  let new : Lease := ⟨key, hexText now, now + leaseMs⟩
  match leases.get? key with
  | some held => if held.lease.leaseUntilMs > now then none else some new
  | none => some new

def completed (leases : Dict String HeldLease) (lease : Lease) : Option HeldLease :=
  (leases.get? lease.key).filter fun held => held.lease.token = lease.token

/-! ### Calls and their records -/

structure Entry where
  expiresAt : ℚ
  token : ℕ
deriving DecidableEq

/-- Where a call is. The task is created at `scheduled`; at `closing` it waits for the coordinator, with the
reason where it failed. -/
inductive Phase
  | claiming
  | scheduled (lease : Option Lease)
  | executing (lease : Option Lease)
  | closing (lease : Lease) (failure : Option String)
  | done
deriving DecidableEq

def Phase.lease : Phase → Option Lease
  | .scheduled lease => lease
  | .executing lease => lease
  | .closing lease _ => some lease
  | .claiming => none
  | .done => none

structure Call where
  key : String
  phase : Phase
deriving DecidableEq

inductive Remover
  | cleanup
  | call (token : ℕ)
deriving DecidableEq

inductive Record
  | entryRemoved (entry : Entry) (remover : Remover) (time : ℚ)
  | taskStarted (token : ℕ) (found : Option Entry) (time : ℚ)
  | leaseRemoved (holder remover : ℕ)
deriving DecidableEq

def Record.starter : Record → Option ℕ
  | .taskStarted token _ _ => some token
  | .entryRemoved _ _ _ => none
  | .leaseRemoved _ _ => none

structure State where
  clock : ℚ
  active : Dict String Entry
  calls : List Call
  leases : Dict String HeldLease
  log : List Record

def State.initial : State := ⟨0, .empty, [], .empty, []⟩

/-- Which coordinator the provider was given: none, the one of this process, or one whose answers are its
own. -/
inductive Coordinator
  | absent
  | inMemory
  | external
deriving DecidableEq

structure Config where
  singleFlightTtlMs : ℕ
  distributedLeaseTtlMs : ℕ
  coordinator : Coordinator
  backfiller : Bool

/-! ### The pieces of a call -/

def expiredEntries (s : State) : List (String × Entry) :=
  s.active.entries.filter fun e => e.2.expiresAt ≤ s.clock

def cleanupExpiredBackfills (s : State) : State :=
  { s with
    active := (expiredEntries s).foldl (fun active e => active.erase e.1) s.active
    log := s.log ++ (expiredEntries s).map fun e => .entryRemoved e.2 .cleanup s.clock }

def popEntry (token : ℕ) (key : String) (s : State) : State :=
  { s with
    active := s.active.erase key
    log := s.log ++ (s.active.get? key).toList.map fun e => .entryRemoved e (.call token) s.clock }

def setPhase (token : ℕ) (call : Call) (phase : Phase) (s : State) : State :=
  { s with calls := s.calls.set token { call with phase := phase } }

/-- A new entry under `key`; one that is there goes. -/
def setEntry (token : ℕ) (key : String) (expiry : ℚ) (s : State) : State :=
  { s with
    active := s.active.set key ⟨expiry, token⟩
    log := s.log ++ (s.active.get? key).toList.map fun e => .entryRemoved e (.call token) s.clock }

/-- The task starts, with the entry that the call has found under its key. -/
def createTask (token : ℕ) (call : Call) (lease : Option Lease) (found : Option Entry) (s : State) : State :=
  let s := setPhase token call (.scheduled lease) s
  { s with log := s.log ++ [.taskStarted token found s.clock] }

def finish (token : ℕ) (call : Call) (s : State) : State :=
  let s := setPhase token call .done s
  match s.active.get? call.key with
  | some current => if current.token = token then popEntry token call.key s else s
  | none => s

/-- What comes back from the claim of another coordinator. -/
inductive Answer
  | granted (lease : Lease)
  | refused
  | failed
deriving DecidableEq

/-- What a call makes of the claim. -/
inductive Outcome
  | proceed (lease : Option Lease)
  | skip
deriving DecidableEq

def outcome : Answer → Outcome
  | .granted lease => .proceed (some lease)
  | .refused => .skip
  | .failed => .proceed none

/-- The claim at the coordinator of this process, whose clock reads `reading`. -/
def claimed (config : Config) (s : State) (key : String) (reading : ℤ) : Outcome :=
  match claim s.leases key config.distributedLeaseTtlMs reading with
  | some lease => .proceed (some lease)
  | none => .skip

def store (config : Config) (token : ℕ) (key : String) (lease : Option Lease) (s : State) : State :=
  match config.coordinator, lease with
  | .inMemory, some lease => { s with leases := s.leases.set key ⟨lease, token⟩ }
  | _, _ => s

@[simp] lemma store_calls (config : Config) (token : ℕ) (key : String) (lease : Option Lease) (s : State) :
    (store config token key lease s).calls = s.calls := by
  unfold store
  split <;> rfl

@[simp] lemma store_active (config : Config) (token : ℕ) (key : String) (lease : Option Lease) (s : State) :
    (store config token key lease s).active = s.active := by
  unfold store
  split <;> rfl

@[simp] lemma store_clock (config : Config) (token : ℕ) (key : String) (lease : Option Lease) (s : State) :
    (store config token key lease s).clock = s.clock := by
  unfold store
  split <;> rfl

/-- `_start_background_backfill` after the claim. -/
def resume (config : Config) (token : ℕ) (call : Call) (found : Option Entry) (s : State) : Outcome → State
  | .skip => setPhase token call .done (popEntry token call.key s)
  | .proceed lease => createTask token call lease found (store config token call.key lease s)

def start (config : Config) (key : String) (elapsed : ℚ) (reading : ℤ) (s : State) : State :=
  let s := cleanupExpiredBackfills s
  let found := s.active.get? key
  if found.isSome then s
  else
    let ttlSeconds : ℚ := config.singleFlightTtlMs / 1000
    let now := s.clock + elapsed
    let expiry := if ttlSeconds > 0 then now + ttlSeconds else now
    let token := s.calls.length
    let call : Call := ⟨key, .claiming⟩
    let s := setEntry token key expiry { s with clock := now, calls := s.calls ++ [call] }
    match config.coordinator with
    | .absent => createTask token call none found s
    | .inMemory => resume config token call found s (claimed config s key reading)
    | .external => s

def settle (token : ℕ) (call : Call) (lease : Option Lease) (failure : Option String) (s : State) : State :=
  match lease with
  | some lease => setPhase token call (.closing lease failure) s
  | none => finish token call s

def run (config : Config) (token : ℕ) (call : Call) (lease : Option Lease) (s : State) : State :=
  if config.backfiller then setPhase token call (.executing lease) s
  else settle token call lease (some "no_backfiller") s

def complete (config : Config) (token : ℕ) (lease : Lease) (s : State) : State :=
  match config.coordinator, completed s.leases lease with
  | .inMemory, some held =>
    { s with leases := s.leases.erase lease.key, log := s.log ++ [.leaseRemoved held.holder token] }
  | _, _ => s

@[simp] lemma complete_active (config : Config) (token : ℕ) (lease : Lease) (s : State) :
    (complete config token lease s).active = s.active := by
  unfold complete
  split <;> rfl

@[simp] lemma complete_calls (config : Config) (token : ℕ) (lease : Lease) (s : State) :
    (complete config token lease s).calls = s.calls := by
  unfold complete
  split <;> rfl

/-- What happens next: time passes, a call starts (with what the clock of the coordinator of this process
reads), hears from another coordinator, or its task goes on. A backfill that has raised does so with the name
and the text of its error. -/
inductive Event
  | tick (elapsed : ℚ)
  | start (key : String) (elapsed : ℚ) (reading : ℤ)
  | answer (token : ℕ) (answer : Answer)
  | run (token : ℕ)
  | executed (token : ℕ) (raised : Option (String × String))
  | close (token : ℕ)
deriving DecidableEq

def step (config : Config) (s : State) : Event → Option State
  | .tick elapsed => if 0 ≤ elapsed then some { s with clock := s.clock + elapsed } else none
  | .start key elapsed reading => if 0 ≤ elapsed then some (start config key elapsed reading s) else none
  | .answer token answer =>
    match config.coordinator, s.calls[token]? with
    | .external, some ⟨key, .claiming⟩ =>
      some (resume config token ⟨key, .claiming⟩ (s.active.get? key) s (outcome answer))
    | _, _ => none
  | .run token =>
    match s.calls[token]? with
    | some ⟨key, .scheduled lease⟩ => some (run config token ⟨key, .scheduled lease⟩ lease s)
    | _ => none
  | .executed token raised =>
    match s.calls[token]? with
    | some ⟨key, .executing lease⟩ =>
      let failure := raised.map fun error => "background_backfill_failed (" ++ error.1 ++ "): " ++ error.2
      some (settle token ⟨key, .executing lease⟩ lease failure s)
    | _ => none
  | .close token =>
    match s.calls[token]? with
    | some ⟨key, .closing lease failure⟩ =>
      some (finish token ⟨key, .closing lease failure⟩ (complete config token lease s))
    | _ => none

/-! ### Single flight -/

def Record.Proper : Record → Prop
  | .entryRemoved entry .cleanup time => entry.expiresAt ≤ time
  | .entryRemoved entry (.call token) _ => entry.token = token
  | .taskStarted token found time => ∀ entry ∈ found, entry.token = token ∨ entry.expiresAt ≤ time
  | .leaseRemoved holder remover => holder = remover

def starters (s : State) : List ℕ := s.log.filterMap Record.starter

/-- Every removal and every start of a task is proper, and no call starts a task twice. -/
structure SingleFlight (s : State) : Prop where
  proper : ∀ r ∈ s.log, r.Proper
  once : (starters s).Nodup

def InTime (s : State) (token : ℕ) (key : String) : Outcome → Prop
  | .skip => ∀ entry ∈ s.active.get? key, entry.token = token
  | .proceed _ => ∀ entry ∈ s.active.get? key, entry.token = token ∨ entry.expiresAt ≤ s.clock

/-- No call of the key holds a lease with the token of the one that is granted. -/
def FreshLease (s : State) (key : String) : Outcome → Prop
  | .skip => True
  | .proceed lease => ∀ new ∈ lease, ∀ call ∈ s.calls, call.key = key →
      ∀ held ∈ call.phase.lease, held.token ≠ new.token

instance decidableInTime (s : State) (token : ℕ) (key : String) (o : Outcome) : Decidable (InTime s token key o) := by
  cases o <;> (unfold InTime; infer_instance)

instance decidableFreshLease (s : State) (key : String) (o : Outcome) : Decidable (FreshLease s key o) := by
  cases o <;> (unfold FreshLease; infer_instance)

def Timely (config : Config) (s : State) : Event → Prop
  | .start key _ reading => config.coordinator = .inMemory → (cleanupExpiredBackfills s).active.get? key = none →
      FreshLease s key (claimed config s key reading)
  | .answer token answer => ∀ call ∈ s.calls[token]?, InTime s token call.key (outcome answer)
  | _ => True

instance decidableTimely (config : Config) (s : State) (e : Event) : Decidable (Timely config s e) := by
  cases e <;> (unfold Timely; infer_instance)

variable {config : Config} {s : State} {i : ℕ} {call : Call}

/-! ### What a run keeps -/

def Fits (config : Config) (s : State) (i : ℕ) (key : String) (lease : Lease) : Prop :=
  config.coordinator = .inMemory →
    lease.key = key ∧ ∀ held, s.leases.get? key = some held → lease.token = held.lease.token → held.holder = i

structure Inv (config : Config) (s : State) : Prop where
  proper : ∀ r ∈ s.log, r.Proper
  once : (starters s).Nodup
  started : ∀ i ∈ starters s, ∃ call, s.calls[i]? = some call ∧ call.phase ≠ .claiming
  fits : ∀ i call, s.calls[i]? = some call → ∀ lease ∈ call.phase.lease, Fits config s i call.key lease

namespace Inv

lemma initial : Inv config State.initial where
  proper := by simp [State.initial]
  once := by simp [starters, State.initial]
  started := by simp [starters, State.initial]
  fits := by simp [State.initial]

variable {s' : State}

lemma logged {removals : List Record} (h : Inv config s) (hlog : s'.log = s.log ++ removals)
    (hc : s'.calls = s.calls) (hl : s'.leases = s.leases) (hp : ∀ r ∈ removals, r.Proper)
    (hs : ∀ r ∈ removals, r.starter = none) : Inv config s' := by
  have hsm : starters s' = starters s := by
    simp [starters, hlog, List.filterMap_eq_nil_iff.mpr hs]
  refine ⟨?_, hsm ▸ h.once, ?_, ?_⟩
  · intro r hr
    rw [hlog] at hr
    rcases List.mem_append.mp hr with hr | hr
    · exact h.proper r hr
    · exact hp r hr
  · rw [hsm, hc]
    exact h.started
  · intro j other hother lease hls
    unfold Fits
    rw [hl]
    exact h.fits j other (hc ▸ hother) lease hls

lemma of_eq (h : Inv config s) (hlog : s'.log = s.log) (hc : s'.calls = s.calls)
    (hl : s'.leases = s.leases) : Inv config s' :=
  h.logged (hlog.trans (List.append_nil s.log).symm) hc hl (by simp) (by simp)

lemma setPhase {phase : Phase} (h : Inv config s) (hc : s.calls[i]? = some call)
    (hp : phase ≠ .claiming) (hfits : ∀ lease ∈ phase.lease, Fits config s i call.key lease) :
    Inv config (setPhase i call phase s) := by
  have hlt : i < s.calls.length := (List.getElem?_eq_some_iff.mp hc).1
  refine ⟨h.proper, h.once, ?_, ?_⟩
  · intro j hj
    obtain ⟨other, hother, hps⟩ := h.started j hj
    by_cases hij : i = j
    · subst hij
      exact ⟨{ call with phase := phase }, List.getElem?_set_self hlt, hp⟩
    · exact ⟨other, (List.getElem?_set_ne hij).trans hother, hps⟩
  · intro j other hother lease hl
    by_cases hij : i = j
    · subst hij
      obtain rfl := Option.some.inj ((List.getElem?_set_self hlt).symm.trans hother)
      exact hfits lease hl
    · exact h.fits j other ((List.getElem?_set_ne hij).symm.trans hother) lease hl

variable {lease : Option Lease}

lemma createTask {found : Option Entry} (h : Inv config s) (hc : s.calls[i]? = some call)
    (hcl : call.phase = .claiming) (hf : ∀ entry ∈ found, entry.token = i ∨ entry.expiresAt ≤ s.clock)
    (hfits : ∀ l ∈ lease, Fits config s i call.key l) : Inv config (createTask i call lease found s) := by
  have hs := h.setPhase hc (by simp : Phase.scheduled lease ≠ .claiming) hfits
  have hst : starters (BackgroundBackfill.createTask i call lease found s) = starters s ++ [i] := by
    simp [starters, BackgroundBackfill.createTask, BackgroundBackfill.setPhase, Record.starter]
  have hlt : i < s.calls.length := (List.getElem?_eq_some_iff.mp hc).1
  -- a call that has started a task is past its claim, and this one is not
  have hnew : i ∉ starters s := by
    intro hi
    obtain ⟨other, hother, hp⟩ := h.started i hi
    rw [hc, Option.some.injEq] at hother
    exact hp (hother ▸ hcl)
  refine ⟨?_, ?_, ?_, hs.fits⟩
  · intro r hr
    rcases List.mem_append.mp hr with hr | hr
    · exact h.proper r hr
    · obtain rfl := List.mem_singleton.mp hr
      exact hf
  · rw [hst]
    exact List.nodup_append.mpr ⟨h.once, List.nodup_singleton i, by
      intro a ha b hb hab
      obtain rfl := List.mem_singleton.mp hb
      exact hnew (hab ▸ ha)⟩
  · intro j hj
    rw [hst] at hj
    rcases List.mem_append.mp hj with hj | hj
    · exact hs.started j hj
    · obtain rfl := List.mem_singleton.mp hj
      exact ⟨_, List.getElem?_set_self hlt, by simp⟩

lemma append (h : Inv config s) (key : String) : Inv config { s with calls := s.calls ++ [⟨key, .claiming⟩] } := by
  refine ⟨h.proper, h.once, ?_, ?_⟩
  · intro j hj
    obtain ⟨other, hother, hp⟩ := h.started j hj
    have hlt : j < s.calls.length := (List.getElem?_eq_some_iff.mp hother).1
    exact ⟨other, (List.getElem?_append_left hlt).trans hother, hp⟩
  · intro j other hother lease hl
    rcases Nat.lt_or_ge j s.calls.length with hlt | hle
    · exact h.fits j other ((List.getElem?_append_left hlt).symm.trans hother) lease hl
    · have hmem := List.mem_of_getElem? (((List.getElem?_append_right hle).symm.trans hother))
      obtain rfl := List.mem_singleton.mp hmem
      simp [Phase.lease] at hl

lemma cleanup (h : Inv config s) : Inv config (cleanupExpiredBackfills s) := by
  refine h.logged rfl rfl rfl ?_ ?_
  · intro r hr
    obtain ⟨e, he, rfl⟩ := List.mem_map.mp hr
    simpa [Record.Proper] using (List.mem_filter.mp he).2
  · intro r hr
    obtain ⟨e, -, rfl⟩ := List.mem_map.mp hr
    rfl

lemma popEntry {key : String} (h : Inv config s) (hown : ∀ entry ∈ s.active.get? key, entry.token = i) :
    Inv config (popEntry i key s) := by
  refine h.logged rfl rfl rfl ?_ ?_
  · intro r hr
    obtain ⟨e, he, rfl⟩ := List.mem_map.mp hr
    exact hown e (Option.mem_toList.mp he)
  · intro r hr
    obtain ⟨e, -, rfl⟩ := List.mem_map.mp hr
    rfl

lemma finish (h : Inv config s) (hcl : s.calls[i]? = some call) : Inv config (finish i call s) := by
  have hs : Inv config (BackgroundBackfill.setPhase i call .done s) :=
    h.setPhase hcl (by simp) (by simp [Phase.lease])
  unfold BackgroundBackfill.finish
  simp only
  split
  · rename_i current hc
    split
    · rename_i hown
      refine hs.popEntry ?_
      intro entry hen
      rw [Option.mem_def, hc, Option.some.injEq] at hen
      exact hen ▸ hown
    · exact hs
  · exact hs

lemma store (h : Inv config s)
    (hnew : config.coordinator = .inMemory → ∀ new ∈ lease, ∀ other ∈ s.calls, other.key = call.key →
      ∀ held ∈ other.phase.lease, held.token ≠ new.token) : Inv config (store config i call.key lease s) := by
  unfold BackgroundBackfill.store
  split
  · rename_i new hmem
    refine ⟨h.proper, h.once, h.started, ?_⟩
    intro j other hother l hl hin
    obtain ⟨hkey, hhl⟩ := h.fits j other hother l hl hin
    refine ⟨hkey, ?_⟩
    intro held hh htoken
    rw [Dict.get?_set] at hh
    split at hh
    · rename_i hs
      rw [Option.some.injEq] at hh
      subst hh
      exact absurd htoken (hnew hin new rfl other (List.mem_of_getElem? hother) hs l hl)
    · exact hhl held hh htoken
  · exact h

lemma complete {lease : Lease} {failure : Option String} (h : Inv config s) (hc : s.calls[i]? = some call)
    (hp : call.phase = .closing lease failure) : Inv config (complete config i lease s) := by
  unfold BackgroundBackfill.complete
  split
  · rename_i held hin hhl
    obtain ⟨hstored, htoken⟩ := Option.filter_eq_some_iff.mp hhl
    have hls : lease ∈ call.phase.lease := by simp [hp, Phase.lease]
    obtain ⟨hkey, hh⟩ := h.fits i call hc lease hls hin
    have hown : held.holder = i := hh held (hkey ▸ hstored) (of_decide_eq_true htoken).symm
    have hlg : Inv config { s with log := s.log ++ [.leaseRemoved held.holder i] } :=
      h.logged rfl rfl rfl (by simpa [Record.Proper] using hown) (by simp [Record.starter])
    refine ⟨hlg.proper, hlg.once, hlg.started, ?_⟩
    intro j other hother l hl hin'
    obtain ⟨hk', hhl'⟩ := h.fits j other hother l hl hin'
    refine ⟨hk', ?_⟩
    intro he' hh' htoken'
    rw [Dict.get?_erase] at hh'
    split at hh'
    · cases hh'
    · exact hhl' he' hh' htoken'
  · exact h

lemma fits_store {key : String} (hkey : ∀ l ∈ lease, config.coordinator = .inMemory → l.key = key) :
    ∀ l ∈ lease, Fits config (BackgroundBackfill.store config i key lease s) i key l := by
  rintro l rfl hin
  refine ⟨hkey l rfl hin, ?_⟩
  intro held hh _
  simp only [BackgroundBackfill.store, hin, Dict.get?_set, if_true, Option.some.injEq] at hh
  exact hh ▸ rfl

lemma resume {o : Outcome} {found : Option Entry} (h : Inv config s) (hcl : s.calls[i]? = some call)
    (hc : call.phase = .claiming) (hpop : o = .skip → ∀ entry ∈ s.active.get? call.key, entry.token = i)
    (hf : ∀ lease, o = .proceed lease → ∀ entry ∈ found, entry.token = i ∨ entry.expiresAt ≤ s.clock)
    (hfresh : config.coordinator = .inMemory → FreshLease s call.key o)
    (hkey : ∀ l, o = .proceed (some l) → config.coordinator = .inMemory → l.key = call.key) :
    Inv config (resume config i call found s o) := by
  cases o with
  | skip => exact (h.popEntry (hpop rfl)).setPhase hcl (by simp) (by simp [Phase.lease])
  | proceed lease =>
    refine (h.store hfresh).createTask ?_ hc ?_ (fits_store fun l hl => hkey l (by rw [Option.mem_def.mp hl]))
    · rw [store_calls]
      exact hcl
    · rw [store_clock]
      exact hf lease rfl

lemma claimed_key {key : String} {reading : ℤ} {l : Lease} (h : claimed config s key reading = .proceed (some l)) :
    l.key = key := by
  unfold claimed at h
  split at h
  · rename_i granted hg
    simp only [Outcome.proceed.injEq, Option.some.injEq] at h
    subst h
    unfold claim at hg
    split at hg
    · split at hg
      · cases hg
      · exact (Option.some.inj hg) ▸ rfl
    · exact (Option.some.inj hg) ▸ rfl
  · cases h

lemma start {key : String} {elapsed : ℚ} {reading : ℤ} (h : Inv config s)
    (hfresh : config.coordinator = .inMemory → (cleanupExpiredBackfills s).active.get? key = none →
      FreshLease s key (claimed config s key reading)) : Inv config (start config key elapsed reading s) := by
  unfold BackgroundBackfill.start
  simp only
  split
  · exact h.cleanup
  · rename_i hfree
    have hfree : (cleanupExpiredBackfills s).active.get? key = none := by simpa using hfree
    have hset : Inv config (setEntry s.calls.length key
        (if (0 : ℚ) < config.singleFlightTtlMs / 1000 then s.clock + elapsed + config.singleFlightTtlMs / 1000 else
          s.clock + elapsed)
        { cleanupExpiredBackfills s with
          clock := s.clock + elapsed, calls := s.calls ++ [⟨key, .claiming⟩] }) :=
      (h.cleanup.append key).logged (by simp [setEntry, hfree]; rfl) rfl rfl (by simp) (by simp)
    have hcall : (s.calls ++ [(⟨key, .claiming⟩ : Call)])[s.calls.length]? = some ⟨key, .claiming⟩ := by simp
    have hnone : ∀ entry ∈ (cleanupExpiredBackfills s).active.get? key,
        entry.token = s.calls.length ∨ entry.expiresAt ≤ s.clock + elapsed := by
      rw [hfree]
      simp
    split
    · exact hset.createTask hcall rfl hnone (by simp)
    · rename_i hin
      refine hset.resume hcall rfl ?_ (fun _ _ => hnone) (fun _ => ?_) fun l hl _ => claimed_key hl
      · intro _ entry hen
        rw [Option.mem_def, setEntry, Dict.get?_set, if_pos rfl, Option.some.injEq] at hen
        exact hen ▸ rfl
      · -- the call itself holds no lease yet
        have hf := hfresh hin hfree
        show FreshLease _ key (claimed config s key reading)
        cases ho : claimed config s key reading with
        | skip => trivial
        | proceed lease =>
          rw [ho] at hf
          intro new hnew other hmem hk held hheld
          rcases List.mem_append.mp hmem with hold | hown
          · exact hf new hnew other hold hk held hheld
          · obtain rfl := List.mem_singleton.mp hown
            simp [Phase.lease] at hheld
    · exact hset

lemma settle {failure : Option String} (h : Inv config s)
    (hc : s.calls[i]? = some call) (hls : call.phase.lease = lease) :
    Inv config (settle i call lease failure s) := by
  unfold BackgroundBackfill.settle
  split
  · exact h.setPhase hc (by simp) fun l hl => h.fits i call hc l (hls ▸ hl)
  · exact h.finish hc

lemma run (h : Inv config s) (hc : s.calls[i]? = some call)
    (hls : call.phase.lease = lease) : Inv config (run config i call lease s) := by
  unfold BackgroundBackfill.run
  split
  · exact h.setPhase hc (by simp) fun l hl => h.fits i call hc l (hls ▸ hl)
  · exact h.settle hc hls

/-- **One piece** keeps the invariant where claims are answered in time. -/
theorem step {e : Event} (h : Inv config s) (ht : Timely config s e)
    (hs : step config s e = some s') : Inv config s' := by
  cases e with
  | tick elapsed =>
    obtain ⟨-, hs'⟩ := Option.ite_none_right_eq_some.mp hs
    exact (Option.some.inj hs') ▸ h.of_eq rfl rfl rfl
  | start key elapsed reading =>
    obtain ⟨-, hs'⟩ := Option.ite_none_right_eq_some.mp hs
    exact (Option.some.inj hs') ▸ h.start ht
  | answer token answer =>
    simp only [BackgroundBackfill.step] at hs
    split at hs
    · rename_i key hex hc
      have htm := ht _ hc
      have hno : ¬ config.coordinator = .inMemory := by simp [hex]
      refine (Option.some.inj hs) ▸ h.resume hc rfl ?_ ?_ (fun hin => absurd hin hno) fun _ _ hin => absurd hin hno
      · intro ho
        rw [ho] at htm
        exact htm
      · intro lease ho
        rw [ho] at htm
        exact htm
    · cases hs
  | run token =>
    simp only [BackgroundBackfill.step] at hs
    split at hs
    · rename_i key lease hc
      exact (Option.some.inj hs) ▸ h.run hc rfl
    · cases hs
  | executed token raised =>
    simp only [BackgroundBackfill.step] at hs
    split at hs
    · rename_i key lease hc
      exact (Option.some.inj hs) ▸ h.settle hc rfl
    · cases hs
  | close token =>
    simp only [BackgroundBackfill.step] at hs
    split at hs
    · rename_i key lease failure hc
      refine (Option.some.inj hs) ▸ (h.complete hc rfl).finish ?_
      rw [complete_calls]
      exact hc
    · cases hs

end Inv

/-! ### What happens to an entry -/

/-- The call whose turn it is. -/
def Event.caller : Event → Option ℕ
  | .answer token _ => some token
  | .run token => some token
  | .executed token _ => some token
  | .close token => some token
  | .tick _ => none
  | .start _ _ _ => none

variable {key : String} {entry : Entry}

lemma get?_cleanup (h : s.active.get? key = some entry) (hopen : s.clock < entry.expiresAt) :
    (cleanupExpiredBackfills s).active.get? key = some entry := by
  have hgen : ∀ (es : List (String × Entry)) (d : Dict String Entry), d.get? key = some entry →
      (∀ e ∈ es, e.1 ≠ key) → (es.foldl (fun active e => active.erase e.1) d).get? key = some entry := by
    intro es
    induction es with
    | nil => exact fun _ hd _ => hd
    | cons e es ih =>
      intro d hd hes
      refine ih _ ?_ fun e' he' => hes e' (.tail _ he')
      rw [Dict.get?_erase, if_neg (hes e List.mem_cons_self).symm]
      exact hd
  refine hgen _ _ h ?_
  rintro ⟨k, e⟩ he rfl
  obtain ⟨hmem, hexpired⟩ := List.mem_filter.mp he
  have hsame : s.active.get? k = some e := Dict.get?_eq_some.mpr hmem
  rw [h, Option.some.injEq] at hsame
  exact absurd (of_decide_eq_true hexpired) (not_le.mpr (hsame ▸ hopen))

lemma get?_start {elapsed : ℚ} {reading : ℤ} (h : s.active.get? key = some entry) (hopen : s.clock < entry.expiresAt)
    (key' : String) : (start config key' elapsed reading s).active.get? key = some entry := by
  have hc := get?_cleanup h hopen
  unfold start
  simp only
  split
  · exact hc
  · rename_i hfree
    -- the guard has seen no entry, so the key is another one
    have hne : key ≠ key' := by
      rintro rfl
      rw [hc] at hfree
      exact hfree rfl
    have hset : ((cleanupExpiredBackfills s).active.set key' ⟨if (config.singleFlightTtlMs : ℚ) / 1000 > 0 then
        s.clock + elapsed + config.singleFlightTtlMs / 1000 else s.clock + elapsed, s.calls.length⟩).get? key = some entry := by
      rw [Dict.get?_set_ne _ _ hne]
      exact hc
    split
    · exact hset
    · cases claimed config _ key' reading with
      | skip =>
        show (Dict.erase _ key').get? key = some entry
        rw [Dict.get?_erase, if_neg hne]
        exact hset
      | proceed lease =>
        show (store config _ key' lease _).active.get? key = some entry
        rw [store_active]
        exact hset
    · exact hset

lemma le_clock_start {elapsed : ℚ} {reading : ℤ} (hpos : 0 ≤ elapsed) (key' : String) :
    s.clock ≤ (start config key' elapsed reading s).clock := by
  have hle : s.clock ≤ s.clock + elapsed := le_add_of_nonneg_right hpos
  unfold start
  simp only
  split
  · exact le_rfl
  · split
    · exact hle
    · cases claimed config _ key' reading with
      | skip => exact hle
      | proceed lease =>
        show s.clock ≤ (store config _ key' lease _).clock
        rw [store_clock]
        exact hle
    · exact hle

lemma get?_finish (h : s.active.get? key = some entry) :
    (finish i call s).active.get? key = some entry ∨ entry.token = i := by
  unfold finish
  simp only
  split
  · rename_i current hc
    split
    · rename_i hown
      by_cases hk : key = call.key
      · subst hk
        exact .inr (by rw [show s.active.get? call.key = some current from hc, Option.some.injEq] at h; exact h ▸ hown)
      · refine .inl ?_
        show (s.active.erase call.key).get? key = some entry
        rw [Dict.get?_erase, if_neg hk]
        exact h
    · exact .inl h
  · exact .inl h

lemma get?_settle {lease : Option Lease} {failure : Option String} (h : s.active.get? key = some entry) :
    (settle i call lease failure s).active.get? key = some entry ∨ entry.token = i := by
  unfold settle
  split
  · exact .inl h
  · exact get?_finish h

/-- **An unexpired entry keeps its key** in every step but those of its own call. -/
theorem entry_kept {s' : State} {e : Event} (ht : Timely config s e) (hs : step config s e = some s')
    (h : s.active.get? key = some entry) (hopen : s'.clock < entry.expiresAt) :
    s'.active.get? key = some entry ∨ e.caller = some entry.token := by
  have hown : ∀ {token : ℕ}, s'.active.get? key = some entry ∨ entry.token = token →
      s'.active.get? key = some entry ∨ some token = some entry.token :=
    fun hor => hor.imp_right fun heq => congrArg some heq.symm
  cases e with
  | tick elapsed =>
    obtain ⟨-, hs'⟩ := Option.ite_none_right_eq_some.mp hs
    exact .inl ((Option.some.inj hs') ▸ h)
  | start key' elapsed reading =>
    obtain ⟨hpos, hs'⟩ := Option.ite_none_right_eq_some.mp hs
    cases hs'
    exact .inl (get?_start h ((le_clock_start hpos key').trans_lt hopen) key')
  | answer token answer =>
    simp only [step] at hs
    split at hs
    · rename_i key' hex hc
      have htm := ht _ hc
      cases hs
      refine hown ?_
      cases ho : outcome answer with
      | skip =>
        rw [ho] at htm
        by_cases hk : key = key'
        · subst hk
          exact .inr (htm entry h)
        · refine .inl ?_
          show (s.active.erase key').get? key = some entry
          rw [Dict.get?_erase, if_neg hk]
          exact h
      | proceed lease =>
        refine .inl ?_
        show (store config token key' lease s).active.get? key = some entry
        rw [store_active]
        exact h
    · cases hs
  | run token =>
    simp only [step] at hs
    split at hs
    · cases hs
      refine hown ?_
      unfold run
      split
      · exact .inl h
      · exact get?_settle h
    · cases hs
  | executed token raised =>
    simp only [step] at hs
    split at hs
    · cases hs
      exact hown (get?_settle h)
    · cases hs
  | close token =>
    simp only [step] at hs
    split at hs
    · cases hs
      exact hown (get?_finish (by rw [complete_active]; exact h))
    · cases hs

/-- **Single flight**: in every run of calls whose claims are answered in time, entries go by their expiry
or by their own calls, leases by their holders, and no second task of a key is started while an entry is
unexpired; and in each further such step an unexpired entry keeps its key, unless its own call takes it. -/
theorem single_flight_of_timely (config : Config) (s : State)
    (h : Run (step config) (Timely config) State.initial s) : SingleFlight s ∧
      ∀ e s' key entry, Timely config s e → step config s e = some s' → s.active.get? key = some entry →
        s'.clock < entry.expiresAt → s'.active.get? key = some entry ∨ e.caller = some entry.token := by
  have hinv : Inv config s := h.invariant (I := Inv config) .initial fun _ _ _ hI hP hs => hI.step hP hs
  exact ⟨⟨hinv.proper, hinv.once⟩, fun _ _ _ _ => entry_kept⟩

/-- Two backfills of one key after one another: each takes its lease, runs and gives it back. -/
def twice : List Event :=
  [.start "k" 0 1000, .run 0, .executed 0 none, .close 0,
    .tick 1, .start "k" 0 2000, .run 1, .executed 1 (some ("RuntimeError", "down")), .close 1]

theorem single_flight_twice : ∃ s, Run (step ⟨60000, 120000, .inMemory, true⟩)
    (Timely ⟨60000, 120000, .inMemory, true⟩) State.initial s ∧ starters s = [0, 1] ∧ SingleFlight s := by
  obtain ⟨s, hs, hstarters⟩ := Qmtl.Lib.exists_run (step ⟨60000, 120000, .inMemory, true⟩) State.initial
    (fun s e => decide (Timely ⟨60000, 120000, .inMemory, true⟩ s e)) twice
    (fun s => decide (starters s = [0, 1])) (by decide +kernel)
  have hrun := hs.mono (Q := Timely ⟨60000, 120000, .inMemory, true⟩) fun _ _ h => of_decide_eq_true h
  exact ⟨s, hrun, of_decide_eq_true hstarters, (single_flight_of_timely _ s hrun).1⟩

/-- A claim that is answered after its entry has expired: the refusal takes the entry of the next call
away, and a third call starts a task next to that of the second. -/
def refusedLate : List Event :=
  [.start "k" 0 0, .tick 61, .start "k" 0 0, .answer 1 (.granted ⟨"k", "b", 200000⟩), .answer 0 .refused,
    .start "k" 0 0, .answer 2 (.granted ⟨"k", "c", 200001⟩)]

/-- Two leases without a lifetime, granted in one millisecond: the first call gives back that of the second. -/
def sameMillisecond : List Event := [.start "k" 0 1000, .start "k" 0 1000, .run 0, .executed 0 none, .close 0]

theorem calls_take_from_others :
    (∃ s, Run (step ⟨60000, 120000, .external, true⟩) (fun _ _ => True) State.initial s ∧
      .entryRemoved ⟨121, 1⟩ (.call 0) 61 ∈ s.log ∧ starters s = [1, 2] ∧ ¬ SingleFlight s) ∧
    ∃ s, Run (step ⟨0, 0, .inMemory, true⟩) (fun _ _ => True) State.initial s ∧
      .leaseRemoved 1 0 ∈ s.log ∧ ¬ SingleFlight s := by
  refine ⟨?_, ?_⟩
  · obtain ⟨s, hs, hq⟩ := Qmtl.Lib.exists_run (step ⟨60000, 120000, .external, true⟩) State.initial
      (fun _ _ => true) refusedLate
      (fun s => decide (.entryRemoved ⟨121, 1⟩ (.call 0) 61 ∈ s.log ∧ starters s = [1, 2])) (by decide +kernel)
    obtain ⟨hmem, hstarters⟩ := of_decide_eq_true hq
    refine ⟨s, hs.mono fun _ _ _ => trivial, hmem, hstarters, ?_⟩
    intro h
    have hproper : (1 : ℕ) = 0 := h.proper _ hmem
    omega
  · obtain ⟨s, hs, hq⟩ := Qmtl.Lib.exists_run (step ⟨0, 0, .inMemory, true⟩) State.initial
      (fun _ _ => true) sameMillisecond (fun s => decide (.leaseRemoved 1 0 ∈ s.log)) (by decide +kernel)
    have hmem := of_decide_eq_true hq
    refine ⟨s, hs.mono fun _ _ _ => trivial, hmem, ?_⟩
    intro h
    have hproper : (1 : ℕ) = 0 := h.proper _ hmem
    omega

end Qmtl.Runtime.Seamless.BackgroundBackfill

import Mathlib.Algebra.Order.Floor.Semifield
import Qmtl.Lib.Run
import Qmtl.Lib.TokenBucket

/-!
`_RedisTokenBucketLimiter`: calls of any number of processes on one bucket, command by command. Amounts are rational; the
Redis clock counts microseconds.
-/

namespace Qmtl.Runtime.RateLimit

open Lib

structure Limiter where
  rate : ℚ
  cap : ℕ
  rate_pos : 0 < rate
  cap_pos : 1 ≤ cap

def Limiter.create (tokensPerSec : ℚ) (capacity : ℤ) : Limiter where
  rate := max (1 / 10 ^ 6) tokensPerSec
  cap := (max 1 capacity).toNat
  rate_pos := lt_max_of_lt_left (by norm_num)
  cap_pos := by omega

/-! ### Redis -/

/-- A call of `_reserve_token`, by the command it has done last. -/
inductive Call where
  | begun
  | timed (now : ℕ)
  | read (now : ℕ) (tokens : ℚ) (last writes : ℕ)
  | stored (now : ℕ) (grant : Option ℕ)
  | kept (now : ℕ) (grant : Option ℕ)
  | ended

/-- A token that was taken: the time its call had read (milliseconds), and when the call returned. -/
structure Grant where
  stamp : ℕ
  returned : Option ℕ

structure Cluster where
  clock : ℕ
  fields : Option (ℚ × ℕ)
  deadline : Option ℕ
  writes : ℕ
  calls : List Call
  granted : List Grant

def Cluster.init (clock : ℕ) : Cluster := ⟨clock, none, none, 0, [], []⟩

namespace Cluster

variable (s : Cluster)

def live : Bool := s.deadline.all fun d => s.clock < d

def stamps : List ℕ := s.granted.map Grant.stamp

def setCall (i : ℕ) (c : Call) : Cluster := { s with calls := s.calls.set i c }

end Cluster

variable (l : Limiter)

def hget (s : Cluster) (now : ℕ) : ℚ × ℕ :=
  match s.fields with
  | some (tokens, ts) => if s.live then (tokens, ts) else (l.cap, now)
  | none => (l.cap, now)

def refilled (now : ℕ) (tokens : ℚ) (last : ℕ) : ℚ := min l.cap (tokens + ((now - last : ℕ) : ℚ) / 1000 * l.rate)

def hset (s : Cluster) (i now : ℕ) (tokens : ℚ) (grant : Option ℕ) : Cluster :=
  { s with
    fields := some (tokens, now)
    deadline := if s.live then s.deadline else none
    writes := s.writes + 1
    calls := s.calls.set i (.stored now grant) }

inductive Event where
  | tick (us : ℕ)
  | call
  | time (i : ℕ)
  | hget (i : ℕ)
  | hset (i : ℕ)
  | expire (i : ℕ)
  | ret (i : ℕ)
  | fail (i : ℕ)

/-- One step: time passes, a call begins, or a call does its next command or returns; any call may fail. -/
def step (s : Cluster) : Event → Option Cluster
  | .tick us => some { s with clock := s.clock + us }
  | .call => some { s with calls := s.calls ++ [.begun] }
  | .time i => match s.calls[i]? with
    | some .begun => some (s.setCall i (.timed (s.clock / 1000)))
    | _ => none
  | .hget i => match s.calls[i]? with
    | some (.timed now) => some (s.setCall i (.read now (hget l s now).1 (hget l s now).2 s.writes))
    | _ => none
  | .hset i => match s.calls[i]? with
    | some (.read now tokens last _) =>
      let tokens := refilled l now tokens last
      if 1 ≤ tokens then
        some { hset s i now (tokens - 1) (some s.granted.length) with granted := s.granted ++ [⟨now, none⟩] }
      else some (hset s i now tokens none)
    | _ => none
  | .expire i => match s.calls[i]? with
    | some (.stored now grant) =>
      some { s.setCall i (.kept now grant) with deadline := if s.live then some (s.clock + 600 * 10 ^ 6) else s.deadline }
    | _ => none
  | .ret i => match s.calls[i]? with
    | some (.kept _ (some k)) =>
      some { s.setCall i .ended with granted := s.granted.modify k fun g => { g with returned := some s.clock } }
    | some (.kept _ none) => some (s.setCall i .ended)
    | _ => none
  | .fail i => some (s.setCall i .ended)

def returnedWithin (s : Cluster) (t d : ℚ) : ℕ :=
  s.granted.countP fun g => g.returned.any fun us : ℕ => t ≤ (us : ℚ) / 10 ^ 6 ∧ (us : ℚ) / 10 ^ 6 ≤ t + d

/-- **The limit holds**: in any window, no more calls return true than the capacity and what flows in, give or take a
millisecond. -/
def LimitHolds (s : Cluster) : Prop :=
  ∀ t d : ℚ, 0 ≤ d → (returnedWithin s t d : ℚ) ≤ l.cap + l.rate * (d + 1 / 1000)

def Ready (s : Cluster) : Event → Prop
  | .hget i => ∀ now tokens ts, s.calls[i]? = some (.timed now) → s.fields = some (tokens, ts) → s.live = false →
    (l.cap : ℚ) ≤ tokens + l.rate / 1000 * (now - ts)
  | .hset i => ∀ now tokens last writes, s.calls[i]? = some (.read now tokens last writes) →
    s.writes = writes ∧ last ≤ now
  | .ret i => ∀ now k, s.calls[i]? = some (.kept now (some k)) → s.clock / 1000 = now
  | _ => True

/-- What a step meets where a call may return as late as it likes. -/
def Reserving (s : Cluster) : Event → Prop
  | .ret _ => True
  | e => Ready l s e

/-! ### The invariant -/

open TokenBucket

def CallFits (l : Limiter) (stamps : List ℕ) (writes : ℕ) : Call → Prop
  | .read now tokens last w => w ≤ writes ∧
    (w = writes → last ≤ now → Stands (l.rate / 1000) l.cap stamps now (refilled l now tokens last))
  | .stored now (some k) => stamps[k]? = some now
  | .kept now (some k) => stamps[k]? = some now
  | _ => True

structure Inv (l : Limiter) (s : Cluster) : Prop where
  fresh : s.fields = none → s.stamps = []
  bucket : ∀ tokens ts, s.fields = some (tokens, ts) →
    Stands (l.rate / 1000) l.cap s.stamps ts tokens ∧ tokens ≤ l.cap
  calls : ∀ c ∈ s.calls, CallFits l s.stamps s.writes c

/-- Every token that was handed out was so in the millisecond it was taken in. -/
def Prompt (s : Cluster) : Prop := ∀ g ∈ s.granted, ∀ us, g.returned = some us → us / 1000 = g.stamp

variable {l} {s s' : Cluster} {i now last w k : ℕ} {tokens : ℚ} {c : Call} {grant : Option ℕ}

lemma rate_nonneg (l : Limiter) : 0 ≤ l.rate / 1000 := div_nonneg l.rate_pos.le (by norm_num)

lemma CallFits.write {stamps : List ℕ} {writes : ℕ} (h : CallFits l stamps writes c) (new : List ℕ) :
    CallFits l (stamps ++ new) (writes + 1) c := by
  have hin : ∀ {now : ℕ} (k : ℕ), stamps[k]? = some now → (stamps ++ new)[k]? = some now := by
    intro now k hk
    rw [List.getElem?_append_left (List.getElem?_eq_some_iff.mp hk).1, hk]
  cases c with
  | begun => exact trivial
  | timed now => exact trivial
  | ended => exact trivial
  | read now tokens last w =>
    obtain ⟨hle, -⟩ := h
    exact ⟨by omega, fun heq => absurd hle (by omega)⟩
  | stored now grant =>
    cases grant with
    | none => exact trivial
    | some k => exact hin k h
  | kept now grant =>
    cases grant with
    | none => exact trivial
    | some k => exact hin k h

lemma Inv.setCall (h : Inv l s) (hc : CallFits l s.stamps s.writes c) (clock : ℕ) (deadline : Option ℕ) :
    Inv l { s.setCall i c with clock, deadline } := by
  refine ⟨h.fresh, h.bucket, fun c' hc' => ?_⟩
  rcases List.mem_or_eq_of_mem_set hc' with hmem | rfl
  · exact h.calls c' hmem
  · exact hc

lemma Inv.hget (h : Inv l s) (hr : ∀ tokens ts, s.fields = some (tokens, ts) → s.live = false →
    (l.cap : ℚ) ≤ tokens + l.rate / 1000 * (now - ts)) (hl : (hget l s now).2 ≤ now) :
    Stands (l.rate / 1000) l.cap s.stamps now (refilled l now (RateLimit.hget l s now).1 (RateLimit.hget l s now).2) := by
  have hfl : ∀ hs : Stands (l.rate / 1000) l.cap s.stamps now l.cap,
      Stands (l.rate / 1000) l.cap s.stamps now (refilled l now l.cap now) := by
    intro hs
    rw [refilled, Nat.sub_self]
    simpa using hs
  unfold RateLimit.hget at hl ⊢
  cases hf : s.fields with
  | none =>
    refine hfl ?_
    rw [h.fresh hf]
    exact stands_nil (rate_nonneg l) (Nat.cast_nonneg _) now
  | some bucket =>
    obtain ⟨tokens, ts⟩ := bucket
    obtain ⟨hs, hcap⟩ := h.bucket tokens ts hf
    rw [hf] at hl
    dsimp only at hl ⊢
    cases hlv : s.live with
    | true =>
      rw [hlv, if_pos rfl] at hl
      rw [if_pos rfl]
      have hrf := hs.refill (rate_nonneg l) hl
      have heq : refilled l now tokens ts = min (l.cap : ℚ) (tokens + l.rate / 1000 * (now - ts)) := by
        rw [refilled, Nat.cast_sub hl]
        congr 2
        ring
      rwa [heq]
    | false =>
      have hen := hr tokens ts hf hlv
      have hts : ts ≤ now := by
        -- the level is at most the capacity, so that time must have passed
        have hrt : 0 < l.rate / 1000 := div_pos l.rate_pos (by norm_num)
        by_contra hlt
        have hneg : ((now : ℚ) - ts) < 0 := sub_neg.mpr (Nat.cast_lt.mpr (not_le.mp hlt))
        have hp := mul_neg_of_pos_of_neg hrt hneg
        linarith
      exact hfl (hs.full (rate_nonneg l) hts hen)

/-- **A write** of what was read, refilled, and with a token taken if there is one. -/
theorem Inv.hset (h : Inv l s) (hmem : Call.read now tokens last s.writes ∈ s.calls) (hl : last ≤ now) :
    (1 ≤ refilled l now tokens last → Inv l { RateLimit.hset s i now (refilled l now tokens last - 1)
      (some s.granted.length) with granted := s.granted ++ [⟨now, none⟩] }) ∧
    (refilled l now tokens last < 1 → Inv l (RateLimit.hset s i now (refilled l now tokens last) none)) := by
  have hs := (h.calls _ hmem).2 rfl hl
  have hcap : refilled l now tokens last ≤ l.cap := min_le_left _ _
  constructor
  · intro hone
    have hst : (s.granted ++ [Grant.mk now none]).map Grant.stamp = s.stamps ++ [now] := by simp [Cluster.stamps]
    refine ⟨fun hn => absurd hn (Option.some_ne_none _), fun tokens' ts hf => ?_, fun c hc => ?_⟩
    · obtain ⟨rfl, rfl⟩ : refilled l now tokens last - 1 = tokens' ∧ now = ts := by simpa [RateLimit.hset] using hf
      refine ⟨?_, by linarith⟩
      show Stands _ _ ((s.granted ++ [Grant.mk now none]).map Grant.stamp) _ _
      rw [hst]
      exact hs.take (rate_nonneg l) hone
    · show CallFits l ((s.granted ++ [Grant.mk now none]).map Grant.stamp) (s.writes + 1) c
      rw [hst]
      rcases List.mem_or_eq_of_mem_set hc with hc | rfl
      · exact (h.calls c hc).write [now]
      · show (s.stamps ++ [now])[s.granted.length]? = some now
        simp [Cluster.stamps]
  · intro hls
    refine ⟨fun hn => absurd hn (Option.some_ne_none _), fun tokens' ts hf => ?_, fun c hc => ?_⟩
    · obtain ⟨rfl, rfl⟩ : refilled l now tokens last = tokens' ∧ now = ts := by simpa [RateLimit.hset] using hf
      exact ⟨hs, hcap⟩
    · rcases List.mem_or_eq_of_mem_set hc with hc | rfl
      · have hfits := (h.calls c hc).write []
        rwa [List.append_nil] at hfits
      · exact trivial

lemma map_stamp_modify (gs : List Grant) (k : ℕ) (us : Option ℕ) :
    (gs.modify k fun g => { g with returned := us }).map Grant.stamp = gs.map Grant.stamp := by
  induction gs generalizing k with
  | nil => simp
  | cons g gs ih =>
    cases k with
    | zero => simp
    | succ k => simp [ih]

lemma mem_modify {gs : List Grant} {k : ℕ} {us : Option ℕ} {g : Grant}
    (h : g ∈ gs.modify k fun g => { g with returned := us }) :
    g ∈ gs ∨ g.returned = us ∧ gs[k]?.map Grant.stamp = some g.stamp := by
  induction gs generalizing k with
  | nil => simp at h
  | cons g' gs ih =>
    cases k with
    | zero =>
      rcases List.mem_cons.mp (by simpa using h) with rfl | h
      · exact .inr ⟨rfl, rfl⟩
      · exact .inl (.tail _ h)
    | succ k =>
      rcases List.mem_cons.mp (by simpa using h) with rfl | h
      · exact .inl List.mem_cons_self
      · exact (ih h).imp_left (List.mem_cons_of_mem _)

lemma Inv.ret (h : Inv l s) : Inv l { s.setCall i .ended with
    granted := s.granted.modify k fun g => { g with returned := some s.clock } } := by
  have hs : ({ s.setCall i .ended with
      granted := s.granted.modify k fun g => { g with returned := some s.clock } } : Cluster).stamps = s.stamps :=
    map_stamp_modify _ _ _
  refine ⟨?_, ?_, ?_⟩
  · rw [hs]
    exact h.fresh
  · rw [hs]
    exact h.bucket
  · rw [hs]
    exact (h.setCall (i := i) (c := .ended) trivial s.clock s.deadline).calls

lemma Inv.step {e : Event} (h : Inv l s) (hr : Reserving l s e) (hs : RateLimit.step l s e = some s') : Inv l s' := by
  cases e with
  | tick us =>
    cases hs
    exact ⟨h.fresh, h.bucket, h.calls⟩
  | call =>
    cases hs
    refine ⟨h.fresh, h.bucket, fun c hc => ?_⟩
    rcases List.mem_append.mp hc with hc | hc
    · exact h.calls c hc
    · rw [List.mem_singleton.mp hc]
      exact trivial
  | time i =>
    simp only [RateLimit.step] at hs
    split at hs
    · cases hs
      exact h.setCall (c := .timed (s.clock / 1000)) trivial s.clock s.deadline
    · cases hs
  | hget i =>
    simp only [RateLimit.step] at hs
    split at hs
    · rename_i now hcl
      cases hs
      have hfits : CallFits l s.stamps s.writes (.read now (RateLimit.hget l s now).1 (RateLimit.hget l s now).2 s.writes) :=
        ⟨le_refl _, fun _ hl => h.hget (fun tokens ts => hr now tokens ts hcl) hl⟩
      exact h.setCall hfits s.clock s.deadline
    · cases hs
  | hset i =>
    simp only [RateLimit.step] at hs
    split at hs
    · rename_i now tokens last w hcl
      obtain ⟨rfl, hl⟩ := hr now tokens last w hcl
      obtain ⟨hg, hrf⟩ := h.hset (i := i) (List.mem_of_getElem? hcl) hl
      split at hs
      · rename_i hone
        cases hs
        exact hg hone
      · rename_i hls
        cases hs
        exact hrf (not_le.mp hls)
    · cases hs
  | expire i =>
    simp only [RateLimit.step] at hs
    split at hs
    · rename_i now grant hcl
      cases hs
      have hfits := h.calls _ (List.mem_of_getElem? hcl)
      refine h.setCall (c := .kept now grant) ?_ s.clock _
      cases grant with
      | none => exact trivial
      | some k => exact hfits
    · cases hs
  | ret i =>
    simp only [RateLimit.step] at hs
    split at hs
    · cases hs
      exact h.ret
    · cases hs
      exact h.setCall (c := .ended) trivial s.clock s.deadline
    · cases hs
  | fail i =>
    cases hs
    exact h.setCall (c := .ended) trivial s.clock s.deadline

lemma Prompt.step {e : Event} (hp : Prompt s) (h : Inv l s) (hr : Ready l s e)
    (hs : RateLimit.step l s e = some s') : Prompt s' := by
  cases e with
  | tick us =>
    cases hs
    exact hp
  | call =>
    cases hs
    exact hp
  | fail i =>
    cases hs
    exact hp
  | hset i =>
    simp only [RateLimit.step] at hs
    split at hs
    · split at hs
      · cases hs
        intro g hg us hus
        rcases List.mem_append.mp hg with hg | hg
        · exact hp g hg us hus
        · rw [List.mem_singleton.mp hg] at hus
          cases hus
      · cases hs
        exact hp
    · cases hs
  | ret i =>
    simp only [RateLimit.step] at hs
    split at hs
    · rename_i now k hcl
      cases hs
      intro g hg us hus
      rcases mem_modify hg with hold | ⟨hret, hst⟩
      · exact hp g hold us hus
      · obtain rfl : s.clock = us := Option.some.inj (hret.symm.trans hus)
        have hfits : (s.granted.map Grant.stamp)[k]? = some now := h.calls _ (List.mem_of_getElem? hcl)
        rw [List.getElem?_map, hst] at hfits
        rw [hr now k hcl, ← Option.some.inj hfits]
    · cases hs
      exact hp
    · cases hs
  | _ i =>
    simp only [RateLimit.step] at hs
    split at hs <;> cases hs
    exact hp

lemma inv_init (l : Limiter) (clock : ℕ) : Inv l (.init clock) :=
  ⟨fun _ => rfl, fun _ _ h => absurd h (Option.some_ne_none _).symm, fun _ h => absurd h List.not_mem_nil⟩

lemma Ready.reserving {e : Event} (h : Ready l s e) : Reserving l s e := by
  cases e with
  | ret i => exact trivial
  | _ => exact h

lemma Inv.limited (h : Inv l s) : Limited (l.rate / 1000) l.cap s.stamps := by
  cases hf : s.fields with
  | none =>
    rw [h.fresh hf]
    exact (stands_nil (rate_nonneg l) (Nat.cast_nonneg _) 0).limited
  | some bucket => exact (h.bucket bucket.1 bucket.2 hf).1.limited

lemma returnedWithin_le (h : Prompt s) (t d : ℚ) :
    returnedWithin s t d ≤ within s.stamps ⌊t * 1000⌋₊ ⌊(t + d) * 1000⌋₊ := by
  unfold returnedWithin within Cluster.stamps
  rw [List.countP_map]
  refine List.countP_mono_left fun g hg hw => ?_
  obtain ⟨us, hus, hin⟩ := (Option.any_eq_true _ g.returned).mp hw
  have hw : t ≤ (us : ℚ) / 10 ^ 6 ∧ (us : ℚ) / 10 ^ 6 ≤ t + d := of_decide_eq_true hin
  have hs := h g hg us hus
  refine decide_eq_true ?_
  have hf : g.stamp = ⌊(us : ℚ) / 1000⌋₊ := by
    rw [← hs]
    exact_mod_cast (Nat.floor_div_eq_div (K := ℚ) us 1000).symm
  rw [hf]
  constructor
  · refine Nat.floor_le_floor ?_
    linarith
  · refine Nat.floor_le_floor ?_
    linarith

lemma Inv.limitHolds (h : Inv l s) (hp : Prompt s) : LimitHolds l s := by
  intro t d hd
  have hm : ⌊t * 1000⌋₊ ≤ ⌊(t + d) * 1000⌋₊ := Nat.floor_le_floor (by linarith)
  have hc : (returnedWithin s t d : ℚ) ≤ within s.stamps ⌊t * 1000⌋₊ ⌊(t + d) * 1000⌋₊ :=
    Nat.cast_le.mpr (returnedWithin_le hp t d)
  have hl := h.limited _ _ hm
  have hs : ((⌊(t + d) * 1000⌋₊ : ℚ) - ⌊t * 1000⌋₊) ≤ d * 1000 + 1 := by
    have hlow := Nat.lt_floor_add_one (t * 1000)
    rcases le_or_gt 0 ((t + d) * 1000) with hpos | hneg
    · have hh := Nat.floor_le hpos
      linarith
    · rw [Nat.floor_of_nonpos hneg.le]
      push_cast
      linarith
  have hf : l.rate / 1000 * ((⌊(t + d) * 1000⌋₊ : ℚ) - ⌊t * 1000⌋₊) ≤ l.rate / 1000 * (d * 1000 + 1) :=
    mul_le_mul_of_nonneg_left hs (rate_nonneg l)
  calc (returnedWithin s t d : ℚ) ≤ l.cap + l.rate / 1000 * ((⌊(t + d) * 1000⌋₊ : ℚ) - ⌊t * 1000⌋₊) := hc.trans hl
    _ ≤ l.cap + l.rate / 1000 * (d * 1000 + 1) := by linarith
    _ = l.cap + l.rate * (d + 1 / 1000) := by ring

/-- However late the calls return, the tokens they take are within the limit by the times they have read. -/
theorem stamps_limited (l : Limiter) (clock : ℕ) {s : Cluster} (h : Run (step l) (Reserving l) (.init clock) s) :
    Limited (l.rate / 1000) l.cap s.stamps :=
  (h.invariant (I := Inv l) (inv_init l clock) fun _ _ _ hI hready hstep => hI.step hready hstep).limited

/-- **The cluster rate limit** holds in every run in which no write is lost, no time goes back, no token is handed out
late, and the bucket does not expire before it would be full. -/
theorem limit_holds (l : Limiter) (clock : ℕ) {s : Cluster} (h : Run (step l) (Ready l) (.init clock) s) : LimitHolds l s := by
  have hI := h.invariant (I := fun s => Inv l s ∧ Prompt s) ⟨inv_init l clock, fun _ hg => absurd hg List.not_mem_nil⟩
    fun _ _ _ hI hready hstep => ⟨hI.1.step hready.reserving hstep, hI.2.step hI.1 hready hstep⟩
  exact hI.1.limitHolds hI.2

def oneASecond : Limiter := .create 1 1

/-- A check for the runs in which the bucket does not expire. -/
def undisturbed (s : Cluster) : Event → Bool
  | .hget _ => s.live
  | .hset i => match s.calls[i]? with
    | some (.read now _ last w) => s.writes = w && last ≤ now
    | _ => true
  | .ret i => match s.calls[i]? with
    | some (.kept now _) => s.clock / 1000 = now
    | _ => true
  | _ => true

lemma ready_of_undisturbed {e : Event} (h : undisturbed s e = true) : Ready l s e := by
  cases e with
  | hget i =>
    intro now tokens ts _ _ hl
    exact absurd (hl.symm.trans h) Bool.false_ne_true
  | hset i =>
    intro now tokens last w hc
    simp only [undisturbed, hc, Bool.and_eq_true, decide_eq_true_eq] at h
    exact h
  | ret i =>
    intro now k hc
    simp only [undisturbed, hc, decide_eq_true_eq] at h
    exact h
  | tick us => exact trivial
  | call => exact trivial
  | time i => exact trivial
  | expire i => exact trivial
  | fail i => exact trivial

/-- Two calls one after the other: the second is refused. -/
theorem limit_holds_twice : ∃ s, Run (step oneASecond) (Ready oneASecond) (.init 0) s ∧ s.granted.length = 1 ∧
    LimitHolds oneASecond s := by
  have hexec : (execIf (step oneASecond) undisturbed (.init 0) [.call, .time 0, .hget 0, .hset 0, .expire 0, .ret 0,
      .tick 5000, .call, .time 1, .hget 1, .hset 1, .expire 1, .ret 1]).any (fun s => s.granted.length = 1) := by
    decide +kernel
  obtain ⟨s, hrun, hs⟩ := exists_run _ _ _ _ _ hexec
  have hready := hrun.mono fun _ _ h => ready_of_undisturbed (l := oneASecond) h
  exact ⟨s, hready, of_decide_eq_true hs, limit_holds oneASecond 0 hready⟩

/-- **Two tokens at once**: two calls read the bucket before either writes it. -/
theorem two_at_once : ∃ s, Run (step oneASecond) (fun _ _ => True) (.init 0) s ∧ ¬LimitHolds oneASecond s := by
  have hexec : (execIf (step oneASecond) (fun _ _ => true) (.init 0) [.call, .call, .time 0, .time 1, .hget 0, .hget 1,
      .hset 0, .hset 1, .expire 0, .expire 1, .ret 0, .ret 1]).any (fun s => returnedWithin s 0 0 = 2) := by
    decide +kernel
  obtain ⟨s, hrun, hs⟩ := exists_run _ _ _ _ _ hexec
  have htwo : returnedWithin s 0 0 = 2 := of_decide_eq_true hs
  refine ⟨s, hrun.mono fun _ _ _ => trivial, fun h => ?_⟩
  have hlimit := h 0 0 (le_refl 0)
  rw [htwo] at hlimit
  norm_num [oneASecond, Limiter.create] at hlimit

end Qmtl.Runtime.RateLimit

import Qmtl.Gateway.Backend

/-! `RedisTaskQueue`: a FIFO queue on a Redis list with one lock per item, and the bookkeeping of what
was pushed and who took it out. -/

namespace Qmtl.Gateway.RedisQueue

open Lib

/-! ### The code -/

def safeRedisCall (o : Op) : Gw (Option o.Ans) :=
  (ask o >>= fun a => pure (some a)).tryExcept fun _ => pure none

def push (item : String) : Gw Bool := do
  let result ← safeRedisCall (.rpush item)
  return result.isSome

def release (item owner : String) : Gw Unit := do
  let currentOwner : Option (Option String) ← safeRedisCall (.getLock item)
  match currentOwner.join with
  | none => return
  | some current =>
    if current ≠ owner then return
    let _ ← safeRedisCall (.delLock item)
    return

def pop (owner : String) : Gw (Option String) := do
  let head : Option (Option String) ← safeRedisCall .lindex
  match head.join with
  | none => return none
  | some item =>
    let locked : Option Bool ← safeRedisCall (.setLock item owner)
    if locked ≠ some true then return none
    let data : Option (Option String) ← safeRedisCall (.lpop item)
    match data.join with
    | none =>
      release item owner
      return none
    | some value =>
      if value ≠ item then
        release item owner
        return none
      return some value

lemma safeRedisCall_eq (o : Op) : safeRedisCall o = .await o fun r => .ret r.toOption := by
  unfold safeRedisCall ask Coro.perform
  simp only [Coro.bind_eq, Coro.bind_await, Coro.tryExcept_await, Coro.pure_eq]
  congr
  funext r
  cases r <;> rfl

section Uses

variable {F : Op → Prop}

lemma uses_safeRedisCall {o : Op} (ho : F o) : Uses F (safeRedisCall o) := by
  rw [safeRedisCall_eq]
  exact ⟨ho, fun _ => trivial⟩

lemma uses_release (item owner : String) (hg : F (.getLock item)) (hd : F (.delLock item)) :
    Uses F (release item owner) := by
  refine Uses.bind (uses_safeRedisCall hg) ?_
  intro cur
  split
  · trivial
  · split
    · trivial
    · exact Uses.bind (uses_safeRedisCall hd) fun _ => trivial

def ofQueue : Op → Bool
  | .rpush _ | .lindex | .lpop _ | .setLock _ _ | .getLock _ | .delLock _ => true
  | _ => false

lemma uses_push (item : String) : Uses (fun o => ofQueue o) (push item) :=
  Uses.bind (uses_safeRedisCall rfl) fun _ => trivial

lemma uses_pop (owner : String) : Uses (fun o => ofQueue o) (pop owner) := by
  refine Uses.bind (uses_safeRedisCall rfl) ?_
  intro head
  split
  · trivial
  · refine Uses.bind (uses_safeRedisCall rfl) ?_
    intro locked
    split
    · trivial
    · refine Uses.bind (uses_safeRedisCall rfl) ?_
      intro data
      split
      · exact Uses.bind (uses_release _ _ rfl rfl) fun _ => trivial
      · split
        · exact Uses.bind (uses_release _ _ rfl rfl) fun _ => trivial
        · trivial

end Uses

/-! ### Any number of workers on one queue -/

inductive Call where
  | push (item : String)
  | pop (owner : String)
  | release (item owner : String)

inductive Ret where
  | pushed (ok : Bool)
  | popped (item : Option String)
  | released

def code : Call → Gw Ret
  | .push item => push item >>= fun ok => pure (.pushed ok)
  | .pop owner => pop owner >>= fun item => pure (.popped item)
  | .release item owner => release item owner >>= fun _ => pure .released

abbrev Cfg := Config Op Op.Ans Exc Ret Store Call
abbrev Ev := Event Env String Call

def may (c : Cfg) : Ev → Bool
  | .start (.release item owner) => c.calls.any fun
    | (.pop w, .ret (.popped (some x))) => w = owner && x = item
    | _ => false
  | _ => true

def system : System Op Op.Ans Exc Ret Store Env String Call where
  code := code
  perform := perform
  disturb item s := { s with lock := Function.update s.lock item none }
  may := may

def init : Cfg := ⟨.empty, []⟩

def healthy (_ : Cfg) : Ev → Bool
  | .resume _ e => e.fate = .ok
  | _ => true

def headKept (c : Cfg) : Ev → Bool
  | .resume i _ =>
    match c.calls[i]? with
    | some (_, .await (.lpop item) _) => c.store.list.head?.all fun o => o.item = item
    | _ => true
  | _ => true

/-- Whatever the answers, what is left of the call returns `v`. -/
def WillReturn (v : Ret) : Gw Ret → Prop
  | .ret a => a = v
  | .raise _ => False
  | .await _ k => ∀ r, WillReturn v (k r)

def Delivers (c : Cfg) (i : ℕ) (o : Occ) : Prop :=
  (i, o) ∈ c.store.removed ∧
    ∃ owner m, c.calls[i]? = some (.pop owner, m) ∧ WillReturn (.popped (some o.item)) m

/-- **No work is lost**: a pushed occurrence is still in the list, or exactly one pop delivers it,
and no pop removed an occurrence it does not deliver. -/
def NoLoss (c : Cfg) : Prop :=
  (∀ o ∈ c.store.pushed, (o ∈ c.store.list ∧ ∀ i, (i, o) ∉ c.store.removed) ∨
    (o ∉ c.store.list ∧ ∃! i, Delivers c i o)) ∧
  ∀ i o, (i, o) ∈ c.store.removed → Delivers c i o

def Balanced (s : Store) : Prop :=
  s.pushed.map Occ.tag = List.range s.pushed.length ∧
    (s.list ++ s.removed.map Prod.snd).Perm s.pushed

variable {i : ℕ} {s : Store}

lemma Balanced.rpush (h : Balanced s) (item : String) : Balanced (s.rpush item) := by
  obtain ⟨ht, hp⟩ := h
  refine ⟨by simp [Store.rpush, ht, List.range_succ], ?_⟩
  refine List.Perm.trans ?_ (hp.append_right [Occ.mk s.pushed.length item])
  simp only [Store.rpush, List.append_assoc]
  exact List.Perm.append_left _ List.perm_append_comm

lemma Balanced.lpop (h : Balanced s) (i : ℕ) : Balanced (s.lpop i) := by
  obtain ⟨ht, hp⟩ := h
  unfold Store.lpop
  split
  · exact ⟨ht, hp⟩
  · rename_i o rest hl
    refine ⟨ht, ?_⟩
    rw [hl] at hp
    refine List.Perm.trans ?_ hp
    simp only [List.map_append, List.map_cons, List.map_nil, ← List.append_assoc, List.cons_append]
    exact List.perm_append_singleton _ _

lemma Balanced.pushed_nodup (h : Balanced s) : s.pushed.Nodup := by
  have : (s.pushed.map Occ.tag).Nodup := h.1 ▸ List.nodup_range
  exact this.of_map

lemma Balanced.cases (h : Balanced s) {o : Occ} (ho : o ∈ s.pushed) : (o ∈ s.list ∧ ∀ i, (i, o) ∉ s.removed) ∨
      (o ∉ s.list ∧ ∃ i, (i, o) ∈ s.removed ∧ ∀ j, (j, o) ∈ s.removed → j = i) := by
  have hnd : (s.list ++ s.removed.map Prod.snd).Nodup := h.2.nodup_iff.mpr h.pushed_nodup
  obtain ⟨-, hndr, hdis⟩ := List.nodup_append'.mp hnd
  rcases List.mem_append.mp (h.2.mem_iff.mpr ho) with hl | hr
  · exact .inl ⟨hl, fun i hi => hdis hl (List.mem_map.mpr ⟨_, hi, rfl⟩)⟩
  · obtain ⟨⟨i, o'⟩, hi, rfl⟩ := List.mem_map.mp hr
    refine .inr ⟨fun hl => hdis hl hr, i, hi, ?_⟩
    intro j hj
    have := List.inj_on_of_nodup_map hndr hj hi rfl
    simpa using this

/-! ### The protocol of a call -/

/-- Call `i` has removed nothing. -/
def Clean (i : ℕ) (s : Store) : Prop := ∀ o, (i, o) ∉ s.removed

/-- The removals of the other calls are theirs; a suspended call has removed nothing yet. -/
def proto (i : ℕ) : Protocol Op Op.Ans Exc Store Env where
  perform := perform i
  Ok o e s := e.fate = .ok ∧ ∀ item, o = .lpop item → ∀ x ∈ s.list.head?, x.item = item
  J := Balanced
  Rely s s' := ∀ o, (i, o) ∈ s'.removed ↔ (i, o) ∈ s.removed
  Guar s s' := ∀ j, j ≠ i → ∀ o, (j, o) ∈ s'.removed ↔ (j, o) ∈ s.removed
  At _ := Clean i
  rely_refl _ _ := Iff.rfl
  rely_trans h₁ h₂ o := (h₂ o).trans (h₁ o)

/-- A pop returns what it removed; the other calls remove nothing. -/
def post (i : ℕ) : Call → Except Exc Ret → Store → Prop
  | .pop _, .ok (.popped v), s => ∀ o, (i, o) ∈ s.removed → v = some o.item
  | _, _, s => Clean i s

lemma Clean.rely {s' : Store} (hR : (proto i).Rely s s') (h : Clean i s) : Clean i s' :=
  fun o ho => h o ((hR o).1 ho)

lemma post_stable {a : Call} {r : Except Exc Ret} {s' : Store} (hR : (proto i).Rely s s') (h : post i a r s) :
    post i a r s' := by
  unfold post at h ⊢
  split at h
  · exact fun o ho => h o ((hR o).1 ho)
  · exact Clean.rely hR h

lemma quiet_step {o : Op} (ho : o.onQueue = false) (hb : Balanced s) (hc : Clean i s) :
    (proto i).At o s ∧ ∀ e, (proto i).Ok o e s → Balanced (perform i o e s).2 ∧
      (proto i).Guar s (perform i o e s).2 ∧ Clean i (perform i o e s).2 := by
  refine ⟨hc, ?_⟩
  intro e _
  have hq := perform_queuePart (i := i) (e := e) (s := s) ho
  simp only [Store.queuePart, Prod.mk.injEq] at hq
  obtain ⟨hl, hp, hr⟩ := hq
  refine ⟨?_, fun j _ x => by rw [hr], fun x hx => hc x (hr ▸ hx)⟩
  unfold Balanced
  rw [hl, hp, hr]
  exact hb

lemma release_safe (item owner : String) (hc : Clean i s) :
    Safe (proto i) (fun _ s => Clean i s) (release item owner) s :=
  (uses_release (F := fun o => o.onQueue = false) item owner rfl rfl).safe
    (fun _ _ hR h => Clean.rely hR h) (fun _ ho _ hJ hK => quiet_step ho hJ hK) hc

lemma code_release_safe (item owner : String) (hc : Clean i s) :
    Safe (proto i) (post i (.release item owner)) (code (.release item owner)) s := by
  refine Safe.bind_iff.2 ((release_safe item owner hc).mono ?_)
  intro r s h
  cases r <;> exact h

lemma code_push_safe (item : String) (hc : Clean i s) :
    Safe (proto i) (post i (.push item)) (code (.push item)) s := by
  simp only [code, push, safeRedisCall_eq, Coro.bind_eq, Coro.bind_await, Coro.bind_ret, Coro.pure_eq]
  intro s' hR hb
  have hc' := Clean.rely hR hc
  refine ⟨hc', ?_⟩
  intro e he
  have hs : (perform i (.rpush item) e s').2 = s'.rpush item := by
    simp [perform, reply, he.1, Store.noteFate]
  refine ⟨by rw [show (proto i).perform = perform i from rfl, hs]; exact hb.rpush item, ?_, ?_⟩
  · rw [show (proto i).perform = perform i from rfl, hs]
    exact fun _ _ _ => Iff.rfl
  · rw [show (proto i).perform = perform i from rfl, hs]
    exact hc'

lemma quiet_call_safe {o : Op} {β : Type} {f : Option o.Ans → Gw β} {Q : Except Exc β → Store → Prop}
    (ho : o.onQueue = false) (hc : Clean i s) (hf : ∀ a s', Clean i s' → Safe (proto i) Q (f a) s') :
    Safe (proto i) Q ((safeRedisCall o).bind f) s := by
  rw [safeRedisCall_eq]
  intro s' hR hb
  obtain ⟨hA, hs⟩ := quiet_step ho hb (Clean.rely hR hc)
  refine ⟨hA, ?_⟩
  intro e he
  obtain ⟨hJ, hG, hc'⟩ := hs e he
  exact ⟨hJ, hG, hf _ _ hc'⟩

/-- What `pop` owes, before its result is wrapped. -/
def popPost (i : ℕ) : Except Exc (Option String) → Store → Prop
  | .ok v, s => ∀ o, (i, o) ∈ s.removed → v = some o.item
  | .error _, s => Clean i s

lemma Clean.popPost (h : Clean i s) (r : Except Exc (Option String)) : popPost i r s := by
  cases r with
  | error e => exact h
  | ok v => exact fun o ho => absurd ho (h o)

lemma miss_safe (item owner : String) (hc : Clean i s) :
    Safe (proto i) (popPost i) ((release item owner).bind fun _ => .ret none) s := by
  refine Safe.bind_iff.2 ((release_safe item owner hc).mono ?_)
  intro r s h
  cases r <;> exact h.popPost _

lemma pop_safe (owner : String) (hc : Clean i s) : Safe (proto i) (popPost i) (pop owner) s := by
  refine quiet_call_safe rfl hc ?_
  intro head s₁ hc₁
  split
  · exact hc₁.popPost _
  · rename_i item _
    refine quiet_call_safe rfl hc₁ ?_
    intro locked s₂ hc₂
    split
    · exact hc₂.popPost _
    · simp only [Coro.bind_eq, Coro.pure_eq, safeRedisCall_eq, Coro.bind_await, Coro.bind_ret]
      intro s₃ hR hb
      have hc₃ := Clean.rely hR hc₂
      refine ⟨hc₃, fun e ⟨he, hh⟩ => ?_⟩
      have hs : (perform i (.lpop item) e s₃).2 = s₃.lpop i := by simp [perform, reply, he]
      have ha : (perform i (.lpop item) e s₃).1 = .ok (s₃.list.head?.map Occ.item) := by
        simp [perform, reply, he]
      rw [show (proto i).perform = perform i from rfl, hs, ha]
      refine ⟨hb.lpop i, ?_, ?_⟩
      · intro j hj o
        unfold Store.lpop
        split <;> simp [hj]
      · cases hl : s₃.list with
        | nil =>
          have : s₃.lpop i = s₃ := by simp [Store.lpop, hl]
          rw [this]
          exact miss_safe item owner hc₃
        | cons x rest =>
          -- the condition on the step: the removed occurrence is of the item peeked
          have hx : x.item = item := hh item rfl x (by simp [hl])
          simp only [List.head?_cons, Option.map_some, Except.toOption, Option.join_some, hx,
            ne_eq, not_true_eq_false, if_false]
          intro o ho
          simp only [Store.lpop, hl, List.mem_append, List.mem_singleton, Prod.mk.injEq, true_and] at ho
          rcases ho with ho | rfl
          · exact absurd ho (hc₃ o)
          · rw [hx]

lemma code_pop_safe (owner : String) (hc : Clean i s) :
    Safe (proto i) (post i (.pop owner)) (code (.pop owner)) s := by
  refine Safe.bind_iff.2 ((pop_safe owner hc).mono ?_)
  intro r s h
  cases r <;> exact h

lemma code_safe (a : Call) (hc : Clean i s) : Safe (proto i) (post i a) (code a) s := by
  cases a with
  | push item => exact code_push_safe item hc
  | pop owner => exact code_pop_safe owner hc
  | release item owner => exact code_release_safe item owner hc

/-! ### Runs -/

/-- No Redis error, and no `LPOP` of another item than the one peeked. -/
def Kept (c : Cfg) (ev : Ev) : Prop := (healthy c ev && headKept c ev) = true

def RemovedByCalls (ls : List Call) (s : Store) : Prop := ∀ i o, (i, o) ∈ s.removed → i < ls.length

lemma balanced_empty : Balanced Store.empty := ⟨rfl, List.Perm.refl _⟩

lemma composes : System.Composes system Kept init (fun i _ => proto i) Balanced RemovedByCalls post where
  inv _ _ := rfl
  perform _ _ := rfl
  calls := rfl
  init := ⟨balanced_empty, fun i o h => by simp [init, Store.empty] at h⟩
  ok c i e a o k _ hP hi := by
    simp only [Kept, healthy, headKept, Bool.and_eq_true, decide_eq_true_eq, hi] at hP
    refine ⟨hP.1, ?_⟩
    intro item ho x hx
    subst ho
    simpa [Option.mem_def.mp hx] using hP.2
  stable _ _ _ _ _ := post_stable
  start c a _ _ _ hI := by
    refine ⟨?_, code_safe a ?_⟩
    · intro i o h
      have := hI i o h
      simp only [List.length_append, List.length_singleton]
      omega
    · intro o ho
      have := hI _ o ho
      simp [Config.labels] at this
  disturb c x _ _ hb hI := ⟨hb, hI, fun _ _ _ _ => Iff.rfl⟩
  keep ls i a s s' _ hI hi hG _ := by
    intro j o h
    by_cases hj : j = i
    · exact hj ▸ (List.getElem?_eq_some_iff.mp hi).1
    · exact hI j o ((hG j hj o).1 h)
  others ls i j a b s s' _ _ _ _ hij hG _ o := hG j (Ne.symm hij) o

lemma delivers_of_removed {c : Cfg} (h : system.Run Kept init c) {o : Occ} (hio : (i, o) ∈ c.store.removed) :
    Delivers c i o := by
  obtain ⟨hb, hI, hsf⟩ := h.safe composes
  obtain ⟨a, m, hget⟩ := Config.exists_call (hI i o hio)
  have hs := hsf i a m hget
  refine ⟨hio, ?_⟩
  cases m with
  | await op k =>
    -- a suspended call has removed nothing
    exact absurd hio ((hs c.store ((proto i).rely_refl _) hb).1 o)
  | raise e => exact absurd hio (by cases a <;> exact hs o)
  | ret v =>
    cases a with
    | push item => exact absurd hio (hs o)
    | release item owner => exact absurd hio (hs o)
    | pop owner =>
      cases v with
      | pushed b => exact absurd hio (hs o)
      | released => exact absurd hio (hs o)
      | popped v => exact ⟨owner, _, hget, congrArg Ret.popped (hs o hio)⟩

/-- **No work is lost in a run whose `LPOP`s all find the item that was peeked at the head**, with
any number of workers, in any order of the commands, whichever locks expire. -/
theorem noLoss_of_kept {c : Cfg} (h : system.Run Kept init c) : NoLoss c := by
  refine ⟨?_, fun i o hio => delivers_of_removed h hio⟩
  intro o ho
  rcases (h.safe composes).1.cases ho with hl | ⟨hl, i, hi, huniq⟩
  · exact .inl hl
  · refine .inr ⟨hl, i, delivers_of_removed h hi, fun j hj => huniq j hj.1⟩

/-- Two workers, two items: each takes one. -/
theorem noLoss_of_kept_two : ∃ c, system.Run Kept init c ∧
    c.store.pushed = [⟨0, "x"⟩, ⟨1, "y"⟩] ∧ c.store.list = [] ∧ NoLoss c := by
  obtain ⟨c, hrun, hq⟩ := exists_run system.step init
    (fun c ev => healthy c ev && headKept c ev)
    [.start (.push "x"), .resume 0 .ok, .start (.push "y"), .resume 1 .ok,
      .start (.pop "a"), .resume 2 .ok, .resume 2 .ok, .start (.pop "b"), .resume 2 .ok,
      .resume 3 .ok, .resume 3 .ok, .resume 3 .ok]
    (fun c => c.store.pushed = [⟨0, "x"⟩, ⟨1, "y"⟩] && c.store.list = []) (by decide)
  simp only [Bool.and_eq_true, decide_eq_true_eq] at hq
  exact ⟨c, hrun, hq.1, hq.2, noLoss_of_kept hrun⟩

/-- **Work can be lost without any Redis error.** Worker `a` peeks at `x`; `b` pops `x` and releases
it; `a` then gets the lock of `x`, removes `y`, sees that it is not `x` and returns nothing. -/
theorem work_lost : ∃ c, execIf system.step healthy init
    [.start (.push "x"), .resume 0 .ok, .start (.push "y"), .resume 1 .ok, .start (.pop "a"), .resume 2 .ok,
      .start (.pop "b"), .resume 3 .ok, .resume 3 .ok, .resume 3 .ok,
      .start (.release "x" "b"), .resume 4 .ok, .resume 4 .ok,
      .resume 2 .ok, .resume 2 .ok, .resume 2 .ok, .resume 2 .ok] = some c ∧ ¬ NoLoss c := by
  refine exists_execIf (fun c => decide ((2, ⟨1, "y"⟩) ∈ c.store.removed) && c.calls[2]?.any fun
      | (.pop _, .ret (.popped none)) => true
      | _ => false) (by decide) ?_
  intro c hq hno
  simp only [Bool.and_eq_true, decide_eq_true_eq] at hq
  obtain ⟨-, owner, m, hm, hw⟩ := hno.2 2 ⟨1, "y"⟩ hq.1
  rw [hm] at hq
  cases m with
  | ret v => simp only [WillReturn] at hw; subst hw; simp at hq
  | raise e => exact hw
  | await o k => simp at hq

end Qmtl.Gateway.RedisQueue

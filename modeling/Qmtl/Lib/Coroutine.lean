import Mathlib.Tactic

/-! Coroutines over an arbitrary set of operations.

A coroutine computes between two awaits; at an await it hands an operation to its host and goes on
with the answer, a value or an exception. -/

namespace Qmtl.Lib

/-- A coroutine that returns an `α`, raises an `ε`, or awaits an operation `o : Op`, whose answer
is an `Ans o` or an exception. -/
inductive Coro (Op : Type) (Ans : Op → Type) (ε α : Type) where
  | ret (a : α)
  | raise (e : ε)
  | await (o : Op) (k : Except ε (Ans o) → Coro Op Ans ε α)

namespace Coro

variable {Op : Type} {Ans : Op → Type} {ε α β γ σ : Type}

/-- Sequencing: an exception of the first part skips the second. -/
def bind : Coro Op Ans ε α → (α → Coro Op Ans ε β) → Coro Op Ans ε β
  | ret a, f => f a
  | raise e, _ => raise e
  | await o k, f => await o fun r => (k r).bind f

def tryExcept : Coro Op Ans ε α → (ε → Coro Op Ans ε α) → Coro Op Ans ε α
  | ret a, _ => ret a
  | raise e, h => h e
  | await o k, h => await o fun r => (k r).tryExcept h

def attempt (m : Coro Op Ans ε α) : Coro Op Ans ε (Except ε α) :=
  (m.bind fun a => ret (.ok a)).tryExcept fun e => ret (.error e)

def ofExcept : Except ε α → Coro Op Ans ε α
  | .ok a => ret a
  | .error e => raise e

def tryFinally (m : Coro Op Ans ε α) (fin : Except ε α → Coro Op Ans ε Unit) : Coro Op Ans ε α :=
  m.attempt.bind fun r => (fin r).bind fun _ => ofExcept r

def perform (o : Op) : Coro Op Ans ε (Ans o) :=
  await o ofExcept

instance : Monad (Coro Op Ans ε) where
  pure := ret
  bind := bind

@[simp] lemma pure_eq (a : α) : (pure a : Coro Op Ans ε α) = ret a := rfl
@[simp] lemma bind_eq (m : Coro Op Ans ε α) (f : α → Coro Op Ans ε β) : (m >>= f) = m.bind f := rfl
@[simp] lemma bind_ret (a : α) (f : α → Coro Op Ans ε β) : (ret a).bind f = f a := rfl
@[simp] lemma bind_raise (e : ε) (f : α → Coro Op Ans ε β) : (raise e).bind f = raise e := rfl
@[simp] lemma bind_await (o : Op) (k : Except ε (Ans o) → Coro Op Ans ε α)
    (f : α → Coro Op Ans ε β) : (await o k).bind f = await o fun r => (k r).bind f := rfl
@[simp] lemma tryExcept_ret (a : α) (h : ε → Coro Op Ans ε α) : (ret a).tryExcept h = ret a := rfl
@[simp] lemma tryExcept_raise (e : ε) (h : ε → Coro Op Ans ε α) : (raise e).tryExcept h = h e := rfl
@[simp] lemma tryExcept_await (o : Op) (k : Except ε (Ans o) → Coro Op Ans ε α) (h : ε → Coro Op Ans ε α) :
    (await o k).tryExcept h = await o fun r => (k r).tryExcept h := rfl
@[simp] lemma ofExcept_ok (a : α) : (ofExcept (.ok a) : Coro Op Ans ε α) = ret a := rfl
@[simp] lemma ofExcept_error (e : ε) : (ofExcept (.error e) : Coro Op Ans ε α) = raise e := rfl

lemma bind_assoc (m : Coro Op Ans ε α) (f : α → Coro Op Ans ε β) (g : β → Coro Op Ans ε γ) :
    (m.bind f).bind g = m.bind fun a => (f a).bind g := by
  induction m with
  | ret a => rfl
  | raise e => rfl
  | await o k ih => simp [ih]

/-! ### Running one coroutine alone -/

def run {η : Type} (host : (o : Op) → η → σ → Except ε (Ans o) × σ) (d : η) :
    List η → Coro Op Ans ε α → σ → Except ε α × σ
  | _, ret a, s => (.ok a, s)
  | _, raise e, s => (.error e, s)
  | es, await o k, s =>
    let r := host o (es.headD d) s
    run host d es.tail (k r.1) r.2

section Exec

variable (host : (o : Op) → σ → Except ε (Ans o) × σ)

def exec : Coro Op Ans ε α → σ → Except ε α × σ
  | ret a, s => (.ok a, s)
  | raise e, s => (.error e, s)
  | await o k, s => exec (k (host o s).1) (host o s).2

@[simp] lemma exec_ret (a : α) (s : σ) : exec host (ret a) s = (.ok a, s) := rfl
@[simp] lemma exec_raise (e : ε) (s : σ) : exec host (raise e : Coro Op Ans ε α) s = (.error e, s) := rfl
@[simp] lemma exec_await (o : Op) (k : Except ε (Ans o) → Coro Op Ans ε α) (s : σ) :
    exec host (await o k) s = exec host (k (host o s).1) (host o s).2 := rfl

lemma exec_bind (m : Coro Op Ans ε α) (f : α → Coro Op Ans ε β) (s : σ) :
    exec host (m.bind f) s = match exec host m s with
      | (.ok a, s') => exec host (f a) s'
      | (.error e, s') => (.error e, s') := by
  induction m generalizing s with
  | ret a => rfl
  | raise e => rfl
  | await o k ih => exact ih _ _

lemma exec_tryExcept (m : Coro Op Ans ε α) (h : ε → Coro Op Ans ε α) (s : σ) :
    exec host (m.tryExcept h) s = match exec host m s with
      | (.ok a, s') => (.ok a, s')
      | (.error e, s') => exec host (h e) s' := by
  induction m generalizing s with
  | ret a => rfl
  | raise e => rfl
  | await o k ih => exact ih _ _

lemma exec_tryFinally (m : Coro Op Ans ε α) (fin : Except ε α → Coro Op Ans ε Unit) (s : σ) :
    exec host (m.tryFinally fin) s = match exec host (fin (exec host m s).1) (exec host m s).2 with
      | (.ok _, s') => ((exec host m s).1, s')
      | (.error e, s') => (.error e, s') := by
  unfold tryFinally attempt
  rw [exec_bind, exec_tryExcept, exec_bind]
  obtain ⟨r, s'⟩ := exec host m s
  cases r with
  | ok a =>
    simp only [exec_ret, exec_bind, ofExcept_ok]
    obtain ⟨_ | _, _⟩ := exec host (fin (.ok a)) s' <;> rfl
  | error e =>
    simp only [exec_ret, exec_bind, ofExcept_error, exec_raise]
    obtain ⟨_ | _, _⟩ := exec host (fin (.error e)) s' <;> rfl

@[simp] lemma exec_ofExcept (r : Except ε α) (s : σ) : exec host (ofExcept r) s = (r, s) := by
  cases r <;> rfl

lemma exec_perform (o : Op) (s : σ) : exec host (perform o) s = host o s := by
  unfold perform
  rw [exec_await, exec_ofExcept]

variable {host} {m : Coro Op Ans ε α} {f : α → Coro Op Ans ε β} {s s' : σ}

lemma exec_bind_ok {a : α} (h : exec host m s = (.ok a, s')) : exec host (m.bind f) s = exec host (f a) s' := by
  rw [exec_bind, h]

lemma exec_bind_error {e : ε} (h : exec host m s = (.error e, s')) : exec host (m.bind f) s = (.error e, s') := by
  rw [exec_bind, h]

lemma exec_bind_eq_ok {b : β} (h : exec host (m.bind f) s = (.ok b, s')) :
    ∃ a s₁, exec host m s = (.ok a, s₁) ∧ exec host (f a) s₁ = (.ok b, s') := by
  rw [exec_bind] at h
  rcases hm : exec host m s with ⟨r, s₁⟩
  rw [hm] at h
  cases r with
  | ok a => exact ⟨a, s₁, rfl, h⟩
  | error e => cases h

end Exec

end Coro

end Qmtl.Lib

import Qmtl.Lib.Interleave

/-!
Weakest preconditions of coroutines that run alone. `wp host m Q s` says that `m`, run from the store
`s`, ends with an outcome and a store that meet `Q`; an exception is an outcome like any other.
-/

namespace Qmtl.Lib.Coro

variable {Op : Type} {Ans : Op → Type} {ε α β σ τ : Type} {host : (o : Op) → σ → Except ε (Ans o) × σ}
  {Q R : Except ε α → σ → Prop} {s : σ}

def wp (host : (o : Op) → σ → Except ε (Ans o) × σ) (m : Coro Op Ans ε α) (Q : Except ε α → σ → Prop) (s : σ) : Prop :=
  Q (exec host m s).1 (exec host m s).2

/-- A postcondition by cases: what is asked of a value, and of an exception. -/
def ends (Q : α → σ → Prop) (E : ε → σ → Prop) : Except ε α → σ → Prop
  | .ok a, s => Q a s
  | .error e, s => E e s

variable {E : ε → σ → Prop}

@[simp] lemma ends_ok {Q : α → σ → Prop} {a : α} : ends Q E (.ok a) s ↔ Q a s := Iff.rfl

@[simp] lemma ends_error {Q : α → σ → Prop} {e : ε} : ends Q E (.error e) s ↔ E e s := Iff.rfl

lemma ends_mono {Q Q' : α → σ → Prop} {E E' : ε → σ → Prop} {r : Except ε α} (h : ends Q E r s)
    (hQ : ∀ a, Q a s → Q' a s) (hE : ∀ e, E e s → E' e s) : ends Q' E' r s := by
  cases r with
  | ok a => exact hQ a h
  | error e => exact hE e h

@[simp] lemma wp_ret {a : α} : wp host (ret a) Q s ↔ Q (.ok a) s := Iff.rfl

@[simp] lemma wp_raise {e : ε} : wp host (raise e) Q s ↔ Q (.error e) s := Iff.rfl

variable {m : Coro Op Ans ε α}

lemma wp_mono (h : wp host m Q s) (hQR : ∀ r s', Q r s' → R r s') : wp host m R s :=
  hQR _ _ h

lemma wp.of_exec {r : Except ε α} {s' : σ} (h : wp host m Q s) (he : exec host m s = (r, s')) : Q r s' := by
  unfold wp at h
  rw [he] at h
  exact h

lemma wp_perform {o : Op} {Q : Except ε (Ans o) → σ → Prop} :
    wp host (perform o) Q s ↔ Q (host o s).1 (host o s).2 := by
  unfold wp perform
  rw [exec_await]
  cases (host o s).1 <;> rfl

lemma wp_bind {f : α → Coro Op Ans ε β} {Q : Except ε β → σ → Prop} : wp host (m.bind f) Q s ↔
      wp host m (ends (fun a s' => wp host (f a) Q s') fun e s' => Q (.error e) s') s := by
  unfold wp
  rw [exec_bind]
  obtain ⟨r, s'⟩ := exec host m s
  cases r <;> rfl

/-- **Sequencing**: what the first part is known to end in is enough for the second, and for the exceptions. -/
theorem wp_seq {f : α → Coro Op Ans ε β} {M : Except ε α → σ → Prop} {Q : Except ε β → σ → Prop}
    (hm : wp host m M s) (hok : ∀ a s', M (.ok a) s' → wp host (f a) Q s')
    (her : ∀ e s', M (.error e) s' → Q (.error e) s') : wp host (m.bind f) Q s := by
  refine wp_bind.mpr (wp_mono hm ?_)
  intro r s' hr
  cases r with
  | ok a => exact hok a s' hr
  | error e => exact her e s' hr

lemma wp_perform_bind {o : Op} {f : Ans o → Coro Op Ans ε β} {Q : Except ε β → σ → Prop} {a : Ans o}
    (h : (host o s).1 = .ok a) : wp host ((perform o).bind f) Q s ↔ wp host (f a) Q (host o s).2 := by
  rw [wp_bind, wp_perform, h]
  rfl

lemma wp_tryExcept {h : ε → Coro Op Ans ε α} : wp host (m.tryExcept h) Q s ↔
      wp host m (ends (fun a s' => Q (.ok a) s') fun e s' => wp host (h e) Q s') s := by
  unfold wp
  rw [exec_tryExcept]
  obtain ⟨r, s'⟩ := exec host m s
  cases r <;> rfl

lemma wp_tryFinally {fin : Except ε α → Coro Op Ans ε Unit} : wp host (m.tryFinally fin) Q s ↔
      wp host m (fun r s' => wp host (fin r) (ends (fun _ s'' => Q r s'') fun e s'' => Q (.error e) s'') s') s := by
  unfold wp
  rw [exec_tryFinally]
  show _ ↔ ends _ _ (exec host (fin (exec host m s).1) (exec host m s).2).1
    (exec host (fin (exec host m s).1) (exec host m s).2).2
  obtain ⟨r, s'⟩ := exec host (fin (exec host m s).1) (exec host m s).2
  cases r <;> rfl

lemma wp_of_uses {F : Op → Prop} {K : σ → Prop} (hm : Uses F m)
    (hF : ∀ o, F o → ∀ s, K s → K (host o s).2) (h : K s) : wp host m (fun _ s' => K s') s :=
  hm.exec hF h

def choosing {η : Type} (perform : (o : Op) → η → σ → Except ε (Ans o) × σ) (d : η) (o : Op) (s : σ × List η) :
    Except ε (Ans o) × σ × List η :=
  let r := perform o (s.2.headD d) s.1
  (r.1, r.2, s.2.tail)

def forEach (f : τ → Coro Op Ans ε Unit) : List τ → Coro Op Ans ε Unit
  | [] => ret ()
  | a :: as => (f a).bind fun _ => forEach f as

variable {f : τ → Coro Op Ans ε Unit}

lemma uses_forEach {F : Op → Prop} {as : List τ} (h : ∀ a ∈ as, Uses F (f a)) : Uses F (forEach f as) := by
  induction as with
  | nil => trivial
  | cons a as ih =>
    refine Uses.bind (h a List.mem_cons_self) ?_
    intro _
    exact ih fun a' ha' => h a' (.tail _ ha')

/-- **Loops**: an invariant of what is done and what is left, kept by every round that returns. -/
theorem wp_forEach {I : List τ → List τ → σ → Prop} {as : List τ} (hs : ∀ done a rest s, I done (a :: rest) s →
      wp host (f a) (ends (fun _ s' => I (done ++ [a]) rest s') E) s) (h : I [] as s) :
    wp host (forEach f as) (ends (fun _ s' => I as [] s') E) s := by
  suffices hgen : ∀ (as done : List τ) (s : σ), I done as s →
      wp host (forEach f as) (ends (fun _ s' => I (done ++ as) [] s') E) s from hgen as [] s h
  intro as
  induction as with
  | nil =>
    intro done s hI
    rw [List.append_nil]
    exact hI
  | cons a as ih =>
    intro done s hI
    rw [forEach, wp_bind]
    refine wp_mono (hs done a as s hI) ?_
    intro r s' hr
    refine ends_mono hr ?_ fun e he => he
    intro _ hI'
    have := ih (done ++ [a]) s' hI'
    rw [List.append_assoc] at this
    exact this

end Qmtl.Lib.Coro

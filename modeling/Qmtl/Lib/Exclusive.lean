import Qmtl.Lib.Interleave

/-! Calls that exclude each other by a key. A call enters with its first await; while it is inside, no call
with the same key enters. -/

namespace Qmtl.Lib

variable {Op : Type} {Ans : Op → Type} {ε α β σ η χ l κ : Type}

def Coro.inside (entry : Op → Bool) : Coro Op Ans ε α → Bool
  | .await o _ => !entry o
  | _ => false

def Coro.suspended : Coro Op Ans ε α → Bool
  | .await _ _ => true
  | _ => false

section Vacant

variable [DecidableEq κ] (key : l → κ) (entry : Op → Bool)

def Config.vacant (c : Config Op Ans ε α σ l) (k : κ) : Bool :=
  c.calls.all fun e => !(decide (key e.1 = k) && e.2.inside entry)

def Config.entersAlone (c : Config Op Ans ε α σ l) : Event η χ l → Bool
  | .resume i _ =>
    match c.calls[i]? with
    | some (a, .await o _) => !entry o || c.vacant key entry (key a)
    | _ => true
  | _ => true

variable {key entry} {c : Config Op Ans ε α σ l} {k : κ} {a : l} {m : Coro Op Ans ε α}

lemma Config.vacant_iff : c.vacant key entry k ↔
    ∀ (i : ℕ) (a : l) (m : Coro Op Ans ε α), c.calls[i]? = some (a, m) → key a = k → m.inside entry = false := by
  unfold vacant
  rw [List.all_eq_true]
  constructor
  · intro h i a m hi hk
    have := h _ (List.mem_of_getElem? hi)
    simpa [hk] using this
  · intro h e he
    obtain ⟨i, hi⟩ := List.mem_iff_getElem?.mp he
    by_cases hk : key e.1 = k
    · simp [h i e.1 e.2 hi hk]
    · simp [hk]

lemma Config.vacant_of_entersAlone {i : ℕ} {e : η} {o : Op} {r : Except ε (Ans o) → Coro Op Ans ε α}
    (h : c.entersAlone key entry (.resume i e : Event η χ l)) (hi : c.calls[i]? = some (a, .await o r))
    (ho : entry o) : c.vacant key entry (key a) := by
  unfold entersAlone at h
  simpa [hi, ho, Bool.false_or] using h

end Vacant

namespace System

variable {S : System Op Ans ε α σ η χ l} {c₀ c c' : Config Op Ans ε α σ l} [DecidableEq κ] {key : l → κ}
  {entry : Op → Bool} {proto : ℕ → l → Protocol Op Ans ε σ η} {Inv : κ → σ → Prop}

/-- What it takes: nothing is asked of the choices of the environment or of the store as a whole, calls
enter with their first await and then no more, the first step of a call takes the invariant of its key to
a safe rest, and what a call guarantees lies in the relies of the calls with other keys and keeps their
invariants. -/
structure Excludes (S : System Op Ans ε α σ η χ l) (key : l → κ) (entry : Op → Bool)
    (proto : ℕ → l → Protocol Op Ans ε σ η) (Inv : κ → σ → Prop) : Prop where
  perform : ∀ i a, (proto i a).perform = S.perform i
  ok : ∀ i a o e s, (proto i a).Ok o e s
  free : ∀ i a s, (proto i a).J s
  code : ∀ a o k, S.code a = .await o k → entry o = true ∧ ∀ r, Uses (fun o => entry o = false) (k r)
  enter : ∀ i a o k e s, S.code a = .await o k → Inv (key a) s →
    (proto i a).Guar s (S.perform i o e s).2 ∧
      Safe (proto i a) (fun _ => Inv (key a)) (k (S.perform i o e s).1) (S.perform i o e s).2
  others : ∀ i j a b s s', (proto i a).Guar s s' → key a ≠ key b → (proto j b).Rely s s'
  frame : ∀ i a k s s', (proto i a).Guar s s' → key a ≠ k → Inv k s → Inv k s'
  calm : ∀ x s, S.disturb x s = s

structure Excluded (S : System Op Ans ε α σ η χ l) (key : l → κ) (entry : Op → Bool)
    (proto : ℕ → l → Protocol Op Ans ε σ η) (Inv : κ → σ → Prop) (c : Config Op Ans ε α σ l) : Prop where
  once : ∀ (i : ℕ) (a : l) (m : Coro Op Ans ε α), c.calls[i]? = some (a, m) →
    m = S.code a ∨ Uses (fun o => entry o = false) m
  safe : ∀ (i : ℕ) (a : l) (m : Coro Op Ans ε α), c.calls[i]? = some (a, m) → m.inside entry = true →
    Safe (proto i a) (fun _ => Inv (key a)) m c.store
  alone : ∀ (i j : ℕ) (a b : l) (m m' : Coro Op Ans ε α), c.calls[i]? = some (a, m) → c.calls[j]? = some (b, m') →
    m.inside entry = true → m'.inside entry = true → key a = key b → i = j
  inv : ∀ k, c.vacant key entry k = true → Inv k c.store

namespace Excluded

lemma init (hc : c₀.calls = []) (hinv : ∀ k, Inv k c₀.store) : Excluded S key entry proto Inv c₀ where
  once i a m h := by rw [hc] at h; exact nomatch h
  safe i a m h := by rw [hc] at h; exact nomatch h
  alone i j a b m m' h := by rw [hc] at h; exact nomatch h
  inv k _ := hinv k

lemma ended {p : Protocol Op Ans ε σ η} {I : σ → Prop} {m : Coro Op Ans ε α} {s : σ}
    (hm : Uses (fun o => entry o = false) m) (hout : m.inside entry = false) (h : Safe p (fun _ => I) m s) : I s := by
  cases m with
  | ret a => exact h
  | raise e => exact h
  | await o k =>
    rw [Coro.inside, hm.1] at hout
    exact nomatch hout

lemma uses_rest (hS : Excludes S key entry proto Inv) (h : Excluded S key entry proto Inv c) {i : ℕ} {a : l} {o : Op}
    {k : Except ε (Ans o) → Coro Op Ans ε α} (hi : c.calls[i]? = some (a, .await o k)) (r : Except ε (Ans o)) :
    Uses (fun o => entry o = false) (k r) := by
  rcases h.once i a _ hi with hc | hu
  · exact (hS.code a o k hc.symm).2 r
  · exact hu.2 r

lemma resume (hS : Excludes S key entry proto Inv) (h : Excluded S key entry proto Inv c) {i : ℕ} {e : η} {a : l}
    {o : Op} {k : Except ε (Ans o) → Coro Op Ans ε α}
    (hen : c.entersAlone key entry (.resume i e : Event η χ l)) (hi : c.calls[i]? = some (a, .await o k)) :
    (proto i a).Guar c.store (S.perform i o e c.store).2 ∧
      Safe (proto i a) (fun _ => Inv (key a)) (k (S.perform i o e c.store).1) (S.perform i o e c.store).2 := by
  cases ho : entry o with
  | true =>
    rcases h.once i a _ hi with hc | hu
    · exact hS.enter i a o k e _ hc.symm (h.inv _ (Config.vacant_of_entersAlone hen hi ho))
    · rw [hu.1] at ho
      exact nomatch ho
  | false =>
    have hs := h.safe i a _ hi (by rw [Coro.inside, ho]; rfl)
    obtain ⟨-, hst⟩ := hs c.store ((proto i a).rely_refl _) (hS.free i a _)
    obtain ⟨-, hg, hr⟩ := hst e (hS.ok i a o e _)
    rw [hS.perform] at hg hr
    exact ⟨hg, hr⟩

lemma others_outside (h : Excluded S key entry proto Inv c) {i j : ℕ} {e : η} {a b : l} {o : Op}
    {k : Except ε (Ans o) → Coro Op Ans ε α} {m : Coro Op Ans ε α}
    (hen : c.entersAlone key entry (.resume i e : Event η χ l)) (hi : c.calls[i]? = some (a, .await o k))
    (hj : c.calls[j]? = some (b, m)) (hij : i ≠ j) (hm : m.inside entry) : key a ≠ key b := by
  intro hkey
  cases ho : entry o with
  | true =>
    have := Config.vacant_iff.mp (Config.vacant_of_entersAlone hen hi ho) j b m hj hkey.symm
    rw [hm] at this
    exact nomatch this
  | false => exact hij (h.alone i j a b _ m hi hj (by rw [Coro.inside, ho]; rfl) hm hkey)

lemma step (hS : Excludes S key entry proto Inv) (h : Excluded S key entry proto Inv c) {ev : Event η χ l}
    (hen : c.entersAlone key entry ev) (hs : S.step c ev = some c') : Excluded S key entry proto Inv c' := by
  obtain ⟨-, ⟨a, rfl, rfl⟩ | ⟨i, e, a, o, k, rfl, hi, rfl⟩ | ⟨x, rfl, rfl⟩⟩ := step_cases hs
  · -- the new call has not entered
    have hout : (S.code a).inside entry = false := by
      cases hc : S.code a with
      | ret _ => rfl
      | raise _ => rfl
      | await o k => rw [Coro.inside, (hS.code a o k hc).1]; rfl
    refine ⟨?_, ?_, ?_, ?_⟩
    · intro j b m hj
      rcases getElem?_start hj with hj | ⟨-, rfl, rfl⟩
      · exact h.once j b m hj
      · exact .inl rfl
    · intro j b m hj hm
      rcases getElem?_start hj with hj | ⟨-, rfl, rfl⟩
      · exact h.safe j b m hj hm
      · rw [hout] at hm
        exact nomatch hm
    · intro i j b b' m m' hi hj hm hm' hkey
      rcases getElem?_start hi with hi | ⟨-, rfl, rfl⟩
      · rcases getElem?_start hj with hj | ⟨-, rfl, rfl⟩
        · exact h.alone i j b b' m m' hi hj hm hm' hkey
        · rw [hout] at hm'
          exact nomatch hm'
      · rw [hout] at hm
        exact nomatch hm
    · intro k hk
      refine h.inv k (Config.vacant_iff.mpr ?_)
      intro j b m hj
      exact Config.vacant_iff.mp hk j b m (List.getElem?_append_left (List.getElem?_eq_some_iff.mp hj).1 ▸ hj)
  · have hlt : i < c.calls.length := (List.getElem?_eq_some_iff.mp hi).1
    obtain ⟨hg, hsf⟩ := h.resume hS hen hi
    have hu := h.uses_rest hS hi (S.perform i o e c.store).1
    refine ⟨?_, ?_, ?_, ?_⟩
    · intro j b m hj
      rcases getElem?_resume hj with ⟨rfl, rfl, rfl⟩ | ⟨-, hj⟩
      · exact .inr hu
      · exact h.once j b m hj
    · intro j b m hj hm
      rcases getElem?_resume hj with ⟨rfl, rfl, rfl⟩ | ⟨hij, hj⟩
      · exact hsf
      · have hr := hS.others i j a b _ _ hg (h.others_outside hen hi hj hij hm)
        cases m with
        | ret _ => exact nomatch hm
        | raise _ => exact nomatch hm
        | await _ _ => exact fun t ht => h.safe j b _ hj hm t ((proto j b).rely_trans hr ht)
    · intro j j' b b' m m' hj hj' hm hm' hkey
      rcases getElem?_resume hj with ⟨rfl, rfl, rfl⟩ | ⟨hij, hold⟩
      · rcases getElem?_resume hj' with ⟨rfl, -, -⟩ | ⟨hij', ho'⟩
        · rfl
        · exact absurd hkey (h.others_outside hen hi ho' hij' hm')
      · rcases getElem?_resume hj' with ⟨rfl, rfl, rfl⟩ | ⟨-, ho'⟩
        · exact absurd hkey.symm (h.others_outside hen hi hold hij hm)
        · exact h.alone j j' b b' m m' hold ho' hm hm' hkey
    · intro k' hk'
      have hv := Config.vacant_iff.mp hk'
      by_cases hkey : key a = k'
      · -- the call has ended, for nobody with its key is inside
        subst hkey
        exact ended hu (hv i a _ (List.getElem?_set_self hlt) rfl) hsf
      · refine hS.frame i a k' _ _ hg hkey (h.inv k' (Config.vacant_iff.mpr ?_))
        intro j b m hj hb
        have hij : i ≠ j := by
          rintro rfl
          rw [hi] at hj
          exact hkey ((Prod.mk.inj (Option.some.inj hj)).1 ▸ hb)
        refine hv j b m ?_ hb
        rw [List.getElem?_set_ne hij]
        exact hj
  · rw [hS.calm]
    exact h

lemma of_run {P : Config Op Ans ε α σ l → Event η χ l → Prop} (hS : Excludes S key entry proto Inv)
    (hP : ∀ c ev, P c ev → c.entersAlone key entry ev) (h₀ : Excluded S key entry proto Inv c₀)
    (h : S.Run P c₀ c) : Excluded S key entry proto Inv c := by
  induction h with
  | init => exact h₀
  | next _ hp hs ih => exact ih.step hS (hP _ _ hp) hs

end Excluded

end System

end Qmtl.Lib

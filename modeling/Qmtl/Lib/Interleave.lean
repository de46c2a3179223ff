import Qmtl.Lib.Coroutine
import Qmtl.Lib.Run

/-! Coroutines interleaved at their awaits over one store, and rely/guarantee reasoning about them.

A system runs any number of calls. -/

namespace Qmtl.Lib

variable {Op : Type} {Ans : Op → Type} {ε α β σ η χ l : Type}

/-! ### Systems and their runs -/

structure Config (Op : Type) (Ans : Op → Type) (ε α σ l : Type) where
  store : σ
  calls : List (l × Coro Op Ans ε α)

def Config.labels (c : Config Op Ans ε α σ l) : List l := c.calls.map Prod.fst

lemma Config.labels_getElem? {c : Config Op Ans ε α σ l} {i : ℕ} {a : l} {m : Coro Op Ans ε α}
    (h : c.calls[i]? = some (a, m)) : c.labels[i]? = some a := by
  simp [Config.labels, h]

lemma Config.exists_call {c : Config Op Ans ε α σ l} {i : ℕ} (h : i < c.labels.length) :
    ∃ a m, c.calls[i]? = some (a, m) := by
  simp only [Config.labels, List.length_map] at h
  exact ⟨_, _, List.getElem?_eq_getElem h⟩

/-- One scheduling decision. -/
inductive Event (η χ l : Type) where
  | start (a : l)
  | resume (i : ℕ) (e : η)
  | disturb (x : χ)

structure System (Op : Type) (Ans : Op → Type) (ε α σ η χ l : Type) where
  code : l → Coro Op Ans ε α
  perform : ℕ → (o : Op) → η → σ → Except ε (Ans o) × σ
  disturb : χ → σ → σ
  may : Config Op Ans ε α σ l → Event η χ l → Bool

namespace System

variable (S : System Op Ans ε α σ η χ l)

def step (c : Config Op Ans ε α σ l) (ev : Event η χ l) : Option (Config Op Ans ε α σ l) :=
  if S.may c ev then
    match ev with
    | .start a => some { c with calls := c.calls ++ [(a, S.code a)] }
    | .resume i e =>
      match c.calls[i]? with
      | some (a, .await o k) =>
        let r := S.perform i o e c.store
        some ⟨r.2, c.calls.set i (a, k r.1)⟩
      | _ => none
    | .disturb x => some { c with store := S.disturb x c.store }
  else none

/-- The configurations reached from `c₀` by events that all meet `P`. -/
abbrev Run (P : Config Op Ans ε α σ l → Event η χ l → Prop) (c₀ : Config Op Ans ε α σ l) :
    Config Op Ans ε α σ l → Prop :=
  Lib.Run S.step P c₀

variable {S} {c c' : Config Op Ans ε α σ l}

lemma step_cases {ev : Event η χ l} (h : S.step c ev = some c') : S.may c ev ∧
    ((∃ a, ev = .start a ∧ c' = { c with calls := c.calls ++ [(a, S.code a)] }) ∨
     (∃ i e a o k, ev = .resume i e ∧ c.calls[i]? = some (a, .await o k) ∧
        c' = ⟨(S.perform i o e c.store).2,
          c.calls.set i (a, k (S.perform i o e c.store).1)⟩) ∨
     (∃ x, ev = .disturb x ∧ c' = { c with store := S.disturb x c.store })) := by
  unfold step at h
  split at h
  · rename_i hm
    refine ⟨hm, ?_⟩
    cases ev with
    | start a => exact .inl ⟨a, rfl, by simpa using h.symm⟩
    | resume i e =>
      simp only at h
      split at h
      · rename_i a o k hi
        exact .inr (.inl ⟨i, e, a, o, k, rfl, hi, by simpa using h.symm⟩)
      · cases h
    | disturb x => exact .inr (.inr ⟨x, rfl, by simpa using h.symm⟩)
  · cases h

lemma Run.and_may {P : Config Op Ans ε α σ l → Event η χ l → Prop} {c₀ : Config Op Ans ε α σ l} (h : S.Run P c₀ c) :
    S.Run (fun c ev => P c ev ∧ S.may c ev) c₀ c := by
  induction h with
  | init => exact .init
  | next _ hP hs ih => exact ih.next ⟨hP, (step_cases hs).1⟩ hs

variable {a : l} {i : ℕ} {m m' : Coro Op Ans ε α}

variable {calls : List (l × Coro Op Ans ε α)}

lemma getElem?_start {b : l} (h : (calls ++ [(a, m)])[i]? = some (b, m')) :
    calls[i]? = some (b, m') ∨ i = calls.length ∧ b = a ∧ m' = m := by
  rw [List.getElem?_append] at h
  split at h
  · exact .inl h
  · obtain ⟨hlt, hget⟩ := List.getElem?_eq_some_iff.mp h
    rw [List.length_singleton] at hlt
    have hz : i - calls.length = 0 := by omega
    simp only [hz, List.getElem_cons_zero, Prod.mk.injEq] at hget
    exact .inr ⟨by omega, hget.1.symm, hget.2.symm⟩

lemma getElem?_resume {b : l} {j : ℕ}
    (h : (calls.set i (a, m))[j]? = some (b, m')) : i = j ∧ b = a ∧ m' = m ∨ i ≠ j ∧ calls[j]? = some (b, m') := by
  by_cases hij : i = j
  · subst hij
    rw [List.getElem?_set_self'] at h
    cases hget : calls[i]? with
    | none =>
      rw [hget] at h
      exact nomatch h
    | some e =>
      rw [hget] at h
      cases Option.some.inj h
      exact .inl ⟨rfl, rfl, rfl⟩
  · rw [List.getElem?_set_ne hij] at h
    exact .inr ⟨hij, h⟩

lemma set_labels (h : calls[i]? = some (a, m)) : (calls.set i (a, m')).map Prod.fst = calls.map Prod.fst := by
  rw [List.map_set]
  refine List.ext_getElem? ?_
  intro j
  by_cases hij : i = j
  · subst hij
    have hlt := (List.getElem?_eq_some_iff.mp h).1
    rw [List.getElem?_set_self (by simpa using hlt), List.getElem?_map, h]
    rfl
  · rw [List.getElem?_set_ne hij]

end System

/-! ### Protocols -/

structure Protocol (Op : Type) (Ans : Op → Type) (ε σ η : Type) where
  perform : (o : Op) → η → σ → Except ε (Ans o) × σ
  Ok : Op → η → σ → Prop
  J : σ → Prop
  Rely : σ → σ → Prop
  Guar : σ → σ → Prop
  At : Op → σ → Prop
  rely_refl : ∀ s, Rely s s
  rely_trans : ∀ {s t u}, Rely s t → Rely t u → Rely s u

def Safe (p : Protocol Op Ans ε σ η) (Q : Except ε α → σ → Prop) : Coro Op Ans ε α → σ → Prop
  | .ret a, s => Q (.ok a) s
  | .raise e, s => Q (.error e) s
  | .await o k, s => ∀ s', p.Rely s s' → p.J s' → p.At o s' ∧ ∀ e, p.Ok o e s' →
      p.J (p.perform o e s').2 ∧ p.Guar s' (p.perform o e s').2 ∧
        Safe p Q (k (p.perform o e s').1) (p.perform o e s').2

namespace Safe

variable {p : Protocol Op Ans ε σ η} {Q Q' : Except ε α → σ → Prop} {m : Coro Op Ans ε α} {s s' : σ}

@[simp] lemma ret_iff {a : α} : Safe p Q (.ret a) s ↔ Q (.ok a) s := Iff.rfl
@[simp] lemma raise_iff {e : ε} : Safe p Q (.raise e) s ↔ Q (.error e) s := Iff.rfl

lemma await_iff {o : Op} {k : Except ε (Ans o) → Coro Op Ans ε α} :
    Safe p Q (.await o k) s ↔ ∀ s', p.Rely s s' → p.J s' → p.At o s' ∧ ∀ e, p.Ok o e s' →
      p.J (p.perform o e s').2 ∧ p.Guar s' (p.perform o e s').2 ∧
        Safe p Q (k (p.perform o e s').1) (p.perform o e s').2 := Iff.rfl

lemma mono (hQ : ∀ r s, Q r s → Q' r s) (h : Safe p Q m s) : Safe p Q' m s := by
  induction m generalizing s with
  | ret a => exact hQ _ _ h
  | raise e => exact hQ _ _ h
  | await o k ih =>
    intro s' hR hJ
    obtain ⟨hA, hs⟩ := h s' hR hJ
    refine ⟨hA, ?_⟩
    intro e he
    obtain ⟨hJ', hG, hk⟩ := hs e he
    exact ⟨hJ', hG, ih _ hk⟩

lemma stable (hQ : ∀ r s s', p.Rely s s' → Q r s → Q r s') (hR : p.Rely s s') (h : Safe p Q m s) :
    Safe p Q m s' := by
  cases m with
  | ret a => exact hQ _ _ _ hR h
  | raise e => exact hQ _ _ _ hR h
  | await o k => exact fun t ht hJ => h t (p.rely_trans hR ht) hJ

variable {Qb : Except ε β → σ → Prop} {f : α → Coro Op Ans ε β}

lemma bind_iff : Safe p Qb (m.bind f) s ↔
    Safe p (fun r s => match r with | .ok a => Safe p Qb (f a) s | .error e => Qb (.error e) s) m s := by
  induction m generalizing s with
  | ret a => rfl
  | raise e => rfl
  | await o k ih => simp [await_iff, ih]

lemma tryExcept_iff {h : ε → Coro Op Ans ε α} : Safe p Q (m.tryExcept h) s ↔
    Safe p (fun r s => match r with | .ok a => Q (.ok a) s | .error e => Safe p Q (h e) s) m s := by
  induction m generalizing s with
  | ret a => rfl
  | raise e => rfl
  | await o k ih => simp only [Coro.tryExcept_await, await_iff, ih]

lemma attempt_iff {Q : Except ε (Except ε α) → σ → Prop} :
    Safe p Q m.attempt s ↔ Safe p (fun r s => Q (.ok r) s) m s := by
  unfold Coro.attempt
  rw [tryExcept_iff, bind_iff]
  constructor <;> refine mono ?_ <;> intro r s h <;> cases r <;> exact h

lemma tryFinally_iff {fin : Except ε α → Coro Op Ans ε Unit} : Safe p Q (m.tryFinally fin) s ↔
    Safe p (fun r s => Safe p (fun u s => match u with
      | .ok _ => Q r s
      | .error e => Q (.error e) s) (fin r) s) m s := by
  unfold Coro.tryFinally Coro.attempt
  rw [bind_iff, tryExcept_iff, bind_iff]
  have key : ∀ r : Except ε α, ∀ s, Safe p Q ((fin r).bind fun _ => Coro.ofExcept r) s ↔
      Safe p (fun u s => match u with | .ok _ => Q r s | .error e => Q (.error e) s) (fin r) s := by
    intro r s
    rw [bind_iff]
    constructor <;> refine mono ?_ <;> intro u s h <;> cases u <;> cases r <;> exact h
  constructor <;> refine mono ?_ <;> intro r s h
  · cases r <;> exact (key _ _).1 h
  · cases r <;> exact (key _ _).2 h

lemma perform_iff {o : Op} {Q : Except ε (Ans o) → σ → Prop} : Safe p Q (Coro.perform o) s ↔
    ∀ s', p.Rely s s' → p.J s' → p.At o s' ∧ ∀ e, p.Ok o e s' →
      p.J (p.perform o e s').2 ∧ p.Guar s' (p.perform o e s').2 ∧ Q (p.perform o e s').1 (p.perform o e s').2 := by
  unfold Coro.perform
  constructor <;> intro h s' hR hJ <;> obtain ⟨hA, hs⟩ := h s' hR hJ <;>
    refine ⟨hA, fun e he => ?_⟩ <;> obtain ⟨h1, h2, h3⟩ := hs e he <;> refine ⟨h1, h2, ?_⟩
  · cases hr : (p.perform o e s').1 <;> rw [hr] at h3 <;> exact h3
  · cases hr : (p.perform o e s').1 <;> rw [hr] at h3 <;> exact h3

end Safe

/-! ### Frames -/

/-- Every operation the coroutine can come to await is in `F`. -/
def Uses (F : Op → Prop) : Coro Op Ans ε α → Prop
  | .ret _ => True
  | .raise _ => True
  | .await o k => F o ∧ ∀ r, Uses F (k r)

namespace Uses

variable {F : Op → Prop} {m : Coro Op Ans ε α} {f : α → Coro Op Ans ε β}

@[simp] lemma ret (a : α) : Uses F (.ret a : Coro Op Ans ε α) := trivial
@[simp] lemma raise (e : ε) : Uses F (.raise e : Coro Op Ans ε α) := trivial

lemma bind (hm : Uses F m) (hf : ∀ a, Uses F (f a)) : Uses F (m.bind f) := by
  induction m with
  | ret a => exact hf a
  | raise e => trivial
  | await o k ih => exact ⟨hm.1, fun r => ih r (hm.2 r)⟩

lemma tryExcept {h : ε → Coro Op Ans ε α} (hm : Uses F m) (hh : ∀ e, Uses F (h e)) : Uses F (m.tryExcept h) := by
  induction m with
  | ret a => trivial
  | raise e => exact hh e
  | await o k ih => exact ⟨hm.1, fun r => ih r (hm.2 r)⟩

lemma tryFinally {fin : Except ε α → Coro Op Ans ε Unit} (hm : Uses F m) (hfin : ∀ r, Uses F (fin r)) :
    Uses F (m.tryFinally fin) := by
  refine bind (tryExcept (bind hm fun _ => ret _) fun _ => ret _) ?_
  intro r
  refine bind (hfin r) fun _ => ?_
  cases r <;> trivial

lemma mono {G : Op → Prop} (hFG : ∀ o, F o → G o) (hm : Uses F m) : Uses G m := by
  induction m with
  | ret a => trivial
  | raise e => trivial
  | await o k ih => exact ⟨hFG o hm.1, fun r => ih r (hm.2 r)⟩

lemma ofExcept (r : Except ε α) : Uses F (Coro.ofExcept r : Coro Op Ans ε α) := by
  cases r <;> trivial

lemma perform {o : Op} (ho : F o) : Uses F (Coro.perform o : Coro Op Ans ε (Ans o)) :=
  ⟨ho, ofExcept⟩

lemma safe {p : Protocol Op Ans ε σ η} {K : σ → Prop} (hK : ∀ s s', p.Rely s s' → K s → K s')
    (hF : ∀ o, F o → ∀ s, p.J s → K s → p.At o s ∧ ∀ e, p.Ok o e s →
      p.J (p.perform o e s).2 ∧ p.Guar s (p.perform o e s).2 ∧ K (p.perform o e s).2)
    (hm : Uses F m) {s : σ} (h : K s) : Safe p (fun _ s => K s) m s := by
  induction m generalizing s with
  | ret a => exact h
  | raise e => exact h
  | await o k ih =>
    intro s' hR hJ
    obtain ⟨hA, hs⟩ := hF o hm.1 s' hJ (hK _ _ hR h)
    refine ⟨hA, ?_⟩
    intro e he
    obtain ⟨h1, h2, h3⟩ := hs e he
    exact ⟨h1, h2, ih _ (hm.2 _) h3⟩

lemma exec {host : (o : Op) → σ → Except ε (Ans o) × σ} {K : σ → Prop}
    (hF : ∀ o, F o → ∀ s, K s → K (host o s).2) (hm : Uses F m) {s : σ} (h : K s) : K (m.exec host s).2 := by
  induction m generalizing s with
  | ret a => exact h
  | raise e => exact h
  | await o k ih => exact ih _ (hm.2 _) (hF o hm.1 s h)

end Uses

def Fine (p : Protocol Op Ans ε σ η) (m : Coro Op Ans ε α) : Prop := ∀ s, Safe p (fun _ _ => True) m s

namespace Fine

variable {p : Protocol Op Ans ε σ η} {m : Coro Op Ans ε α}

lemma bind {f : α → Coro Op Ans ε β} (hm : Fine p m) (hf : ∀ v, Fine p (f v)) : Fine p (m.bind f) := by
  refine fun s => Safe.bind_iff.2 ((hm s).mono ?_)
  intro r s _
  cases r with
  | ok v => exact hf v s
  | error e => trivial

lemma tryExcept {h : ε → Coro Op Ans ε α} (hm : Fine p m) (hh : ∀ e, Fine p (h e)) : Fine p (m.tryExcept h) := by
  refine fun s => Safe.tryExcept_iff.2 ((hm s).mono ?_)
  intro r s _
  cases r with
  | ok v => trivial
  | error e => exact hh e s

lemma tryFinally {fin : Except ε α → Coro Op Ans ε Unit} (hm : Fine p m) (hfin : ∀ r, Fine p (fin r)) :
    Fine p (m.tryFinally fin) := by
  refine fun s => Safe.tryFinally_iff.2 ((hm s).mono fun r s _ => (hfin r s).mono ?_)
  intro u s _
  cases u <;> trivial

end Fine

def Always (P : Coro Op Ans ε α → Prop) : Coro Op Ans ε α → Prop
  | .ret _ => True
  | .raise _ => True
  | .await o k => P (.await o k) ∧ ∀ r, Always P (k r)

namespace Always

variable {P : Coro Op Ans ε α → Prop} {m : Coro Op Ans ε α}

lemma bind {P : Coro Op Ans ε β → Prop} {f : α → Coro Op Ans ε β}
    (hm : Always (fun m => P (m.bind f)) m) (hf : ∀ a, Always P (f a)) : Always P (m.bind f) := by
  induction m with
  | ret a => exact hf a
  | raise e => trivial
  | await o k ih => exact ⟨hm.1, fun r => ih r (hm.2 r)⟩

lemma tryExcept {h : ε → Coro Op Ans ε α} (hm : Always (fun m => P (m.tryExcept h)) m)
    (hh : ∀ e, Always P (h e)) : Always P (m.tryExcept h) := by
  induction m with
  | ret a => trivial
  | raise e => exact hh e
  | await o k ih => exact ⟨hm.1, fun r => ih r (hm.2 r)⟩

lemma perform {o : Op} {P : Coro Op Ans ε (Ans o) → Prop} (h : P (Coro.perform o)) : Always P (Coro.perform o) :=
  ⟨h, fun r => by cases r <;> trivial⟩

lemma of_uses {F : Op → Prop} (hP : ∀ o k, F o → P (.await o k)) (h : Uses F m) : Always P m := by
  induction m with
  | ret a => trivial
  | raise e => trivial
  | await o k ih => exact ⟨hP o k h.1, fun r => ih r (h.2 r)⟩

end Always

namespace System

variable {S : System Op Ans ε α σ η χ l} {P : Config Op Ans ε α σ l → Event η χ l → Prop}
  {c₀ c : Config Op Ans ε α σ l}

lemma Run.always {Q : l → Coro Op Ans ε α → Prop} (hcd : ∀ a, Always (Q a) (S.code a))
    (hc : c₀.calls = []) (h : S.Run P c₀ c) {i : ℕ} {a : l} {m : Coro Op Ans ε α}
    (hi : c.calls[i]? = some (a, m)) : Always (Q a) m := by
  induction h generalizing i a m with
  | init => simp [hc] at hi
  | next _ _ hs ih =>
    obtain ⟨-, ⟨b, rfl, rfl⟩ | ⟨j, e, b, o, k, rfl, hj, rfl⟩ | ⟨x, rfl, rfl⟩⟩ := step_cases hs
    · rcases getElem?_start hi with hi | ⟨-, rfl, rfl⟩
      · exact ih hi
      · exact hcd _
    · rcases getElem?_resume hi with ⟨rfl, rfl, rfl⟩ | ⟨-, hi⟩
      · exact (ih hj).2 _
      · exact ih hi
    · exact ih hi

structure Composes (S : System Op Ans ε α σ η χ l) (P : Config Op Ans ε α σ l → Event η χ l → Prop)
    (c₀ : Config Op Ans ε α σ l) (proto : ℕ → l → Protocol Op Ans ε σ η) (J : σ → Prop)
    (I : List l → σ → Prop) (post : ℕ → l → Except ε α → σ → Prop) : Prop where
  inv : ∀ i a, (proto i a).J = J
  perform : ∀ i a, (proto i a).perform = S.perform i
  calls : c₀.calls = []
  init : J c₀.store ∧ I [] c₀.store
  ok : ∀ c i e a o k, S.Run P c₀ c → P c (.resume i e) → c.calls[i]? = some (a, .await o k) →
    (proto i a).Ok o e c.store
  stable : ∀ i a r s s', (proto i a).Rely s s' → post i a r s → post i a r s'
  start : ∀ c a, P c (.start a) → S.may c (.start a) = true → J c.store → I c.labels c.store →
    I (c.labels ++ [a]) c.store ∧ Safe (proto c.calls.length a) (post c.calls.length a) (S.code a) c.store
  disturb : ∀ c x, P c (.disturb x) → S.may c (.disturb x) = true → J c.store → I c.labels c.store →
    J (S.disturb x c.store) ∧ I c.labels (S.disturb x c.store) ∧
      ∀ i a, c.labels[i]? = some a → (proto i a).Rely c.store (S.disturb x c.store)
  keep : ∀ ls i a s s', J s → I ls s → ls[i]? = some a → (proto i a).Guar s s' → J s' → I ls s'
  others : ∀ ls i j a b s s', J s → I ls s → ls[i]? = some a → ls[j]? = some b → i ≠ j →
    (proto i a).Guar s s' → J s' → (proto j b).Rely s s'

/-- **Parallel composition.** The invariants hold in every reachable configuration, and every call
in it is safe. -/
theorem Run.safe {proto : ℕ → l → Protocol Op Ans ε σ η} {J : σ → Prop} {I : List l → σ → Prop}
    {post : ℕ → l → Except ε α → σ → Prop} (hc : Composes S P c₀ proto J I post) (h : S.Run P c₀ c) :
    J c.store ∧ I c.labels c.store ∧
      ∀ i a m, c.calls[i]? = some (a, m) → Safe (proto i a) (post i a) m c.store := by
  induction h with
  | init =>
    refine ⟨hc.init.1, ?_, by simp [hc.calls]⟩
    simpa [Config.labels, hc.calls] using hc.init.2
  | @next c c' ev hrun hP hs ih =>
    obtain ⟨hj, hI, hsf⟩ := ih
    obtain ⟨hmay, hcs⟩ := step_cases hs
    obtain ⟨a, rfl, rfl⟩ | ⟨i, e, a, o, k, rfl, hi, rfl⟩ | ⟨x, rfl, rfl⟩ := hcs
    · obtain ⟨hI', hnew⟩ := hc.start c a hP hmay hj hI
      refine ⟨hj, by simpa [Config.labels] using hI', ?_⟩
      intro j b m hjb
      rcases getElem?_start hjb with hjb | ⟨rfl, rfl, rfl⟩
      · exact hsf j b m hjb
      · exact hnew
    · have hsi := hsf i a _ hi c.store ((proto i a).rely_refl _) (by rw [hc.inv]; exact hj)
      obtain ⟨hj', hg, hk⟩ := hsi.2 e (hc.ok c i e a o k hrun hP hi)
      rw [hc.perform] at hj' hg hk
      rw [hc.inv] at hj'
      have hli : c.labels[i]? = some a := Config.labels_getElem? hi
      have hlab : Config.labels ⟨(S.perform i o e c.store).2,
          c.calls.set i (a, k (S.perform i o e c.store).1)⟩ = c.labels := set_labels hi
      refine ⟨hj', hlab ▸ hc.keep _ i a _ _ hj hI hli hg hj', ?_⟩
      intro j b m hjb
      rcases getElem?_resume hjb with ⟨rfl, rfl, rfl⟩ | ⟨hij, hjb⟩
      · exact hk
      · have hR := hc.others _ i j a b _ _ hj hI hli (Config.labels_getElem? hjb) hij hg hj'
        exact (hsf j b m hjb).stable (hc.stable j b) hR
    · obtain ⟨hj', hI', hR⟩ := hc.disturb c x hP hmay hj hI
      refine ⟨hj', hI', ?_⟩
      intro j b m hjb
      exact (hsf j b m hjb).stable (hc.stable j b) (hR j b (Config.labels_getElem? hjb))

end System

end Qmtl.Lib

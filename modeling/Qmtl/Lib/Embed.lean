import Qmtl.Lib.Interleave

/-!
Coroutines inside others: a coroutine over one set of operations, awaited by code over a larger one; and coroutines
whose operations are all answered.
-/

namespace Qmtl.Lib

variable {Op Op' : Type} {Ans : Op → Type} {Ans' : Op' → Type} {ε α β σ η τ : Type}

/-- A coroutine whose operations are those of a larger set. -/
def Coro.embed (inj : Op → Op') (back : ∀ o, Ans' (inj o) → Ans o) : Coro Op Ans ε α → Coro Op' Ans' ε α
  | .ret a => .ret a
  | .raise e => .raise e
  | .await o k => .await (inj o) fun r => (k (r.map (back o))).embed inj back

def Protocol.comap (p : Protocol Op' Ans' ε σ η) (inj : Op → Op') (back : ∀ o, Ans' (inj o) → Ans o) :
    Protocol Op Ans ε σ η where
  perform o e s := ((p.perform (inj o) e s).1.map (back o), (p.perform (inj o) e s).2)
  Ok o := p.Ok (inj o)
  J := p.J
  Rely := p.Rely
  Guar := p.Guar
  At o := p.At (inj o)
  rely_refl := p.rely_refl
  rely_trans := p.rely_trans

lemma Safe.embed_iff {p : Protocol Op' Ans' ε σ η} {inj : Op → Op'} {back : ∀ o, Ans' (inj o) → Ans o}
    {Q : Except ε α → σ → Prop} {m : Coro Op Ans ε α} {s : σ} :
    Safe p Q (m.embed inj back) s ↔ Safe (p.comap inj back) Q m s := by
  induction m generalizing s with
  | ret a => rfl
  | raise e => rfl
  | await o k ih =>
    simp only [Coro.embed, Safe.await_iff, ih]
    rfl

def Calm (F : Op → Prop) : Coro Op Ans ε α → Prop
  | .ret _ => True
  | .raise _ => False
  | .await o k => F o ∧ ∀ a, Calm F (k (.ok a))

namespace Calm

variable {F : Op → Prop} {m : Coro Op Ans ε α} {f : α → Coro Op Ans ε β}

@[simp] lemma ret (a : α) : Calm F (.ret a : Coro Op Ans ε α) := trivial

lemma bind (hm : Calm F m) (hf : ∀ a, Calm F (f a)) : Calm F (m.bind f) := by
  induction m with
  | ret a => exact hf a
  | raise e => exact hm.elim
  | await o k ih => exact ⟨hm.1, fun a => ih (.ok a) (hm.2 a)⟩

lemma perform {o : Op} (ho : F o) : Calm F (Coro.perform o : Coro Op Ans ε (Ans o)) := ⟨ho, fun _ => trivial⟩

lemma safe {p : Protocol Op Ans ε σ η} {K : σ → Prop} (hK : ∀ s s', p.Rely s s' → K s → K s')
    (hF : ∀ o, F o → ∀ s, p.J s → K s → p.At o s ∧ ∀ e, p.Ok o e s →
      p.J (p.perform o e s).2 ∧ p.Guar s (p.perform o e s).2 ∧ K (p.perform o e s).2 ∧
        ∃ a, (p.perform o e s).1 = .ok a)
    (hm : Calm F m) {s : σ} (h : K s) : Safe p (fun r s => K s ∧ ∃ a, r = .ok a) m s := by
  induction m generalizing s with
  | ret a => exact ⟨h, a, rfl⟩
  | raise e => exact hm.elim
  | await o k ih =>
    intro s' hR hJ
    obtain ⟨hA, hs⟩ := hF o hm.1 s' hJ (hK _ _ hR h)
    refine ⟨hA, ?_⟩
    intro e he
    obtain ⟨h1, h2, h3, a, ha⟩ := hs e he
    refine ⟨h1, h2, ?_⟩
    rw [ha]
    exact ih (.ok a) (hm.2 a) h3

end Calm

end Qmtl.Lib

import Mathlib.Tactic

/-!
Computations that may raise: what is known when they return.
-/

namespace Qmtl.Lib

variable {ε α β : Type}

variable {f : α → Except ε β} {l : List α} {r : List β} {x : Except ε α}

lemma bind_ok {b : β} : (x >>= f) = .ok b ↔ ∃ a, x = .ok a ∧ f a = .ok b := by
  cases x with
  | error e => simp [bind, Except.bind]
  | ok a => simp [bind, Except.bind]

lemma bind_error {e : ε} : (x >>= f) = .error e ↔ x = .error e ∨ ∃ a, x = .ok a ∧ f a = .error e := by
  cases x with
  | error e => simp [bind, Except.bind]
  | ok a => simp [bind, Except.bind]

lemma map_error {f : α → β} {e : ε} : x.map f = .error e ↔ x = .error e := by
  cases x <;> simp [Except.map]

lemma pure_ok {a b : α} : (pure a : Except ε α) = .ok b ↔ a = b := by
  simp [pure, Except.pure]

lemma mapM_ok (h : l.mapM f = .ok r) : List.Forall₂ (fun a b => f a = .ok b) l r := by
  induction l generalizing r with
  | nil =>
    rw [List.mapM_nil, pure_ok] at h
    subst h
    exact .nil
  | cons a l ih =>
    rw [List.mapM_cons] at h
    obtain ⟨b, hb, h⟩ := bind_ok.mp h
    obtain ⟨bs, hbs, h⟩ := bind_ok.mp h
    obtain rfl := pure_ok.mp h
    exact .cons hb (ih hbs)

lemma mem_mapM_ok (h : l.mapM f = .ok r) {b : β} (hb : b ∈ r) : ∃ a ∈ l, f a = .ok b := by
  have hall := mapM_ok h
  clear h
  induction hall with
  | nil => cases hb
  | cons hab _ ih =>
    rcases List.mem_cons.mp hb with rfl | hb
    · exact ⟨_, (.head _), hab⟩
    · obtain ⟨a, ha, hf⟩ := ih hb
      exact ⟨a, .tail _ ha, hf⟩

lemma mapM_congr {g : α → Except ε β} (h : ∀ a ∈ l, f a = g a) : l.mapM f = l.mapM g := by
  induction l with
  | nil => rfl
  | cons a l ih =>
    rw [List.mapM_cons, List.mapM_cons, h a (.head _), ih fun b hb => h b (List.mem_cons_of_mem a hb)]

lemma mapM_ok_unique {g : α → Except ε β} {r' : List β} (h : ∀ a b b', f a = .ok b → g a = .ok b' → b = b')
    (hr : l.mapM f = .ok r) (hr' : l.mapM g = .ok r') : r = r' := by
  have hall := mapM_ok hr
  have ha' := mapM_ok hr'
  clear hr hr'
  induction hall generalizing r' with
  | nil => cases ha' with
    | nil => rfl
  | cons hab _ ih => cases ha' with
    | cons hab' hrs => rw [h _ _ _ hab hab', ih hrs]

lemma exists_ok (q : α → Bool) (h : x.toOption.any q) : ∃ a, x = .ok a ∧ q a := by
  cases x with
  | error e => cases h
  | ok a => exact ⟨a, rfl, h⟩

end Qmtl.Lib

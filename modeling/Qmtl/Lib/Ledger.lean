import Mathlib.Algebra.BigOperators.Ring.List
import Mathlib.Algebra.Order.BigOperators.Group.List
import Mathlib.Algebra.Order.Group.Abs

/-!
What a list of postings adds up to, account by account.
-/

namespace Qmtl.Lib.Ledger

variable {κ α : Type*} [DecidableEq κ]

section AddCommMonoid

variable [AddCommMonoid α]

def total (es : List (κ × α)) (k : κ) : α := (es.map fun e => if e.1 = k then e.2 else 0).sum

@[simp] lemma total_nil (k : κ) : total ([] : List (κ × α)) k = 0 := rfl

@[simp] lemma total_cons (e : κ × α) (es : List (κ × α)) (k : κ) :
    total (e :: es) k = (if e.1 = k then e.2 else 0) + total es k := by
  simp [total]

@[simp] lemma total_append (es es' : List (κ × α)) (k : κ) : total (es ++ es') k = total es k + total es' k := by
  simp [total]

lemma total_perm {es es' : List (κ × α)} (h : es.Perm es') (k : κ) : total es k = total es' k := (h.map _).sum_eq

lemma total_filter_add {β : Type*} (f : β → κ × α) (p : β → Bool) (xs : List β) (k : κ) :
    total ((xs.filter p).map f) k + total ((xs.filter fun x => !p x).map f) k = total (xs.map f) k := by
  rw [← total_append, ← List.map_append]
  exact total_perm ((List.filter_append_perm p xs).map f) k

lemma total_of_notMem {es : List (κ × α)} {k : κ} (h : k ∉ es.map Prod.fst) : total es k = 0 := by
  induction es with
  | nil => rfl
  | cons e es ih =>
    rw [List.map_cons, List.mem_cons, not_or] at h
    rw [total_cons, if_neg fun heq => h.1 heq.symm, ih h.2, add_zero]

lemma total_of_mem {es : List (κ × α)} (hn : (es.map Prod.fst).Nodup) {e : κ × α} (he : e ∈ es) :
    total es e.1 = e.2 := by
  induction es with
  | nil => cases he
  | cons e' es ih =>
    rw [List.map_cons, List.nodup_cons] at hn
    rw [total_cons]
    rcases List.mem_cons.mp he with rfl | he
    · rw [if_pos rfl, total_of_notMem hn.1, add_zero]
    · have hne : e'.1 ≠ e.1 := by
        intro heq
        rw [heq] at hn
        exact hn.1 (List.mem_map_of_mem he)
      rw [if_neg hne, ih hn.2 he, zero_add]

lemma total_flatMap {β : Type*} (f : β → List (κ × α)) (xs : List β) (k : κ) :
    total (xs.flatMap f) k = (xs.map fun x => total (f x) k).sum := by
  induction xs with
  | nil => rfl
  | cons x xs ih => rw [List.flatMap_cons, total_append, ih, List.map_cons, List.sum_cons]

lemma total_filter {β μ : Type*} [DecidableEq μ] (f : β → μ) (g : β → κ × α) (xs : List β) (m : μ) (k : κ) :
    total ((xs.filter fun x => f x = m).map g) k = total (xs.map fun x => ((f x, (g x).1), (g x).2)) (m, k) := by
  induction xs with
  | nil => rfl
  | cons x xs ih =>
    rw [List.filter_cons, List.map_cons, total_cons, ← ih]
    by_cases hm : f x = m
    · simp [hm]
    · simp [hm]

lemma sum_filter {β : Type*} (f : β → κ) (g : β → α) (xs : List β) (k : κ) :
    ((xs.filter fun x => f x = k).map g).sum = total (xs.map fun x => (f x, g x)) k := by
  induction xs with
  | nil => rfl
  | cons x xs ih =>
    rw [List.filter_cons, List.map_cons, total_cons, ← ih]
    by_cases hk : f x = k
    · rw [if_pos (decide_eq_true hk), if_pos hk, List.map_cons, List.sum_cons]
    · rw [if_neg (by simpa using hk), if_neg hk, zero_add]

end AddCommMonoid

lemma total_mul [Semiring α] {β : Type*} {f g : β → κ × α} {xs : List β} {c : α} {k : κ}
    (h : ∀ x ∈ xs, (f x).1 = (g x).1 ∧ ((f x).1 = k → (f x).2 = c * (g x).2)) :
    total (xs.map f) k = c * total (xs.map g) k := by
  induction xs with
  | nil => simp
  | cons x xs ih =>
    obtain ⟨hkey, hval⟩ := h x List.mem_cons_self
    rw [List.map_cons, List.map_cons, total_cons, total_cons, ih fun y hy => h y (List.mem_cons_of_mem x hy), mul_add,
      ← hkey]
    split
    · rw [hval ‹_›]
    · rw [mul_zero]

section Ordered

variable [AddCommGroup α] [LinearOrder α] [IsOrderedAddMonoid α]

lemma total_le_total {β : Type*} {f g : β → κ × α} {xs : List β} (h : ∀ x ∈ xs, (f x).1 = (g x).1 ∧ (f x).2 ≤ (g x).2)
    (k : κ) : total (xs.map f) k ≤ total (xs.map g) k := by
  induction xs with
  | nil => simp
  | cons x xs ih =>
    obtain ⟨hkey, hle⟩ := h x List.mem_cons_self
    simp only [List.map_cons, total_cons, hkey]
    refine add_le_add ?_ (ih fun y hy => h y (List.mem_cons_of_mem x hy))
    split
    · exact hle
    · exact le_refl _

lemma eq_of_total_eq {β : Type*} {f g : β → κ × α} {xs : List β} (h : ∀ x ∈ xs, (f x).1 = (g x).1 ∧ (f x).2 ≤ (g x).2)
    (heq : ∀ k, total (xs.map f) k = total (xs.map g) k) : ∀ x ∈ xs, f x = g x := by
  induction xs with
  | nil => exact fun _ hx => absurd hx List.not_mem_nil
  | cons x xs ih =>
    have ht : ∀ y ∈ xs, (f y).1 = (g y).1 ∧ (f y).2 ≤ (g y).2 := fun y hy => h y (List.mem_cons_of_mem x hy)
    obtain ⟨hkey, hle⟩ := h x List.mem_cons_self
    have hh : (f x).2 = (g x).2 := by
      have hsum := heq (g x).1
      simp only [List.map_cons, total_cons, hkey, if_true] at hsum
      have hr := total_le_total ht (g x).1
      by_contra hne
      exact absurd hsum (ne_of_lt (add_lt_add_of_lt_of_le (lt_of_le_of_ne hle hne) hr))
    have hfg : f x = g x := Prod.ext hkey hh
    intro y hy
    rcases List.mem_cons.mp hy with rfl | hy
    · exact hfg
    · refine ih ht (fun k => ?_) y hy
      have hsum := heq k
      simp only [List.map_cons, total_cons, hfg] at hsum
      exact add_left_cancel hsum

end Ordered

end Qmtl.Lib.Ledger

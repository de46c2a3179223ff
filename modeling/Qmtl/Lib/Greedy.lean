import Mathlib.Data.List.Basic
import Mathlib.Data.List.Nodup

/-!
Greedy choice: the items are gone through in order, and one is kept unless an item kept before blocks it.
-/

namespace Qmtl.Lib.Greedy

variable {α : Type*} (blocked : α → α → Bool)

def keep (kept : List α) : List α → List α
  | [] => kept
  | x :: rest => if kept.any (blocked x) then keep kept rest else keep (kept ++ [x]) rest

variable {blocked} {kept : List α}

lemma keep_append (l l' : List α) : keep blocked kept (l ++ l') = keep blocked (keep blocked kept l) l' := by
  induction l generalizing kept with
  | nil => rfl
  | cons x l ih =>
    rw [List.cons_append, keep, keep]
    split
    · exact ih
    · exact ih

lemma keep_eq_append (l : List α) : ∃ new, keep blocked kept l = kept ++ new ∧ new.Sublist l := by
  induction l generalizing kept with
  | nil => exact ⟨[], (List.append_nil _).symm, .slnil⟩
  | cons x l ih =>
    rw [keep]
    split
    · obtain ⟨new, hnew, hsub⟩ := @ih kept
      exact ⟨new, hnew, hsub.cons x⟩
    · obtain ⟨new, hnew, hsub⟩ := @ih (kept ++ [x])
      exact ⟨x :: new, by rw [hnew, List.append_assoc, List.singleton_append], hsub.cons_cons x⟩

lemma keep_sublist (l : List α) : (keep blocked [] l).Sublist l := by
  obtain ⟨new, hnew, hsub⟩ := @keep_eq_append α blocked [] l
  rw [hnew]
  exact hsub

lemma pairwise_keep (l : List α) (h : kept.Pairwise fun y x => blocked x y = false) :
    (keep blocked kept l).Pairwise fun y x => blocked x y = false := by
  induction l generalizing kept with
  | nil => exact h
  | cons x l ih =>
    rw [keep]
    split
    · exact ih h
    · rename_i hf
      refine ih (List.pairwise_append.mpr ⟨h, List.pairwise_singleton _ x, ?_⟩)
      intro y hy x' hx'
      obtain rfl := List.mem_singleton.mp hx'
      by_contra hno
      exact hf (List.any_eq_true.mpr ⟨y, hy, by simpa using hno⟩)

/-- **An item is kept** unless one that was kept before it blocks it. -/
theorem mem_keep_iff {l l' : List α} {x : α} (h : (l ++ x :: l').Nodup) :
    x ∈ keep blocked [] (l ++ x :: l') ↔ ∀ y ∈ keep blocked [] l, blocked x y = false := by
  have hx : x ∉ keep blocked [] l := by
    intro hmem
    have hl := (keep_sublist l).subset hmem
    exact (List.nodup_append.mp h).2.2 x hl x (.head _) rfl
  have hx' : x ∉ l' := (List.nodup_cons.mp (List.nodup_append.mp h).2.1).1
  rw [keep_append, keep]
  by_cases hany : (keep blocked [] l).any (blocked x)
  · rw [if_pos hany]
    obtain ⟨new, hnew, hsub⟩ := @keep_eq_append α blocked (keep blocked [] l) l'
    refine iff_of_false ?_ ?_
    · rw [hnew, List.mem_append]
      rintro (hmem | hmem)
      · exact hx hmem
      · exact hx' (hsub.subset hmem)
    · intro hf
      obtain ⟨y, hy, hb⟩ := List.any_eq_true.mp hany
      rw [hf y hy] at hb
      cases hb
  · rw [if_neg hany]
    obtain ⟨new, hnew, -⟩ := @keep_eq_append α blocked (keep blocked [] l ++ [x]) l'
    refine iff_of_true ?_ ?_
    · rw [hnew]
      simp
    · intro y hy
      by_contra hno
      exact hany (List.any_eq_true.mpr ⟨y, hy, by simpa using hno⟩)

end Qmtl.Lib.Greedy

import Mathlib.Data.List.Sort
import Qmtl.Lib.Double

/-! `list.sort(key=..., reverse=True)` on numbers. How keys that are `nan` come to stand is left open; the
others come in descending order, and equal ones in the order they had. -/

namespace Qmtl.Lib

section

structure Sorter where
  positions : List Double → List ℕ
  perm : ∀ keys, (positions keys).Perm (List.range keys.length)
  sorted : ∀ keys, (∀ x ∈ keys, x ≠ .nan) → (positions keys).Pairwise fun i j =>
    ∀ x ∈ keys[i]?, ∀ y ∈ keys[j]?, Double.lt y x = true ∨ x = y ∧ i ≤ j

lemma filterMap_range_getElem? {α : Type*} (l : List α) :
    (List.range l.length).filterMap (fun i => l[i]?) = l := by
  induction l with
  | nil => rfl
  | cons a l ih =>
    rw [List.length_cons, List.range_succ_eq_map, List.filterMap_cons_some (List.getElem?_cons_zero), List.filterMap_map]
    exact congrArg (a :: ·) ih

namespace Sorter

section

variable {α : Type*} (s : Sorter) (key : α → Double)

def sortDesc (l : List α) : List α := (s.positions (l.map key)).filterMap fun i => l[i]?

lemma sortDesc_perm (l : List α) : (s.sortDesc key l).Perm l := by
  have hp := (s.perm (l.map key)).filterMap fun i => l[i]?
  rw [List.length_map, filterMap_range_getElem?] at hp
  exact hp

lemma pairwise_sortDesc {l : List α} (h : ∀ a ∈ l, key a ≠ .nan) :
    (s.sortDesc key l).Pairwise fun a b => Double.lt (key a) (key b) = false := by
  have hsr := s.sorted (l.map key) (by simpa using h)
  unfold sortDesc
  rw [List.pairwise_filterMap]
  refine hsr.imp ?_
  intro i j hij a ha b hb
  rcases hij (key a) (by simp [ha]) (key b) (by simp [hb]) with hlt | ⟨heq, -⟩
  · by_contra hno
    have hs := Double.lt_trans (Bool.not_eq_false _ ▸ hno) hlt
    rw [Double.lt_irrefl] at hs
    cases hs
  · rw [heq]
    exact Double.lt_irrefl _

end

/-! ### A sort that puts `nan` last -/

def above (x y : Double) : Bool := Double.lt y x || (decide (y = .nan) && !decide (x = .nan))

lemma above_trichotomy (x y : Double) : above x y ∨ x = y ∨ above y x := by
  unfold above
  by_cases hx : x = .nan
  · by_cases hy : y = .nan
    · exact .inr (.inl (hx.trans hy.symm))
    · simp [hx, hy]
  · by_cases hy : y = .nan
    · simp [hx, hy]
    · rcases Double.trichotomy hx hy with h | h | h
      · simp [h]
      · simp [h]
      · simp [h]

lemma above_trans {x y z : Double} (hxy : above x y) (hyz : above y z) : above x z := by
  unfold above at *
  cases x <;> cases y <;> simp [Double.lt] at hxy <;> cases z <;> simp [Double.lt] at hyz ⊢
  exact hyz.trans hxy

def Before (keys : List Double) (i j : ℕ) : Prop :=
  above (keys.getD i .nan) (keys.getD j .nan) = true ∨ keys.getD i .nan = keys.getD j .nan ∧ i ≤ j

instance decidableBefore (keys : List Double) : DecidableRel (Before keys) := fun i j => by
  unfold Before
  infer_instance

instance total_before (keys : List Double) : Std.Total (Before keys) where
  total i j := by
    rcases above_trichotomy (keys.getD i .nan) (keys.getD j .nan) with h | h | h
    · exact .inl (.inl h)
    · rcases le_total i j with hle | hle
      · exact .inl (.inr ⟨h, hle⟩)
      · exact .inr (.inr ⟨h.symm, hle⟩)
    · exact .inr (.inl h)

instance trans_before (keys : List Double) : IsTrans ℕ (Before keys) where
  trans i j k := by
    rintro (hij | ⟨hij, hle⟩) (hjk | ⟨hjk, hle'⟩)
    · exact .inl (above_trans hij hjk)
    · exact .inl (hjk ▸ hij)
    · exact .inl (hij ▸ hjk)
    · exact .inr ⟨hij.trans hjk, hle.trans hle'⟩

def stable : Sorter where
  positions keys := (List.range keys.length).insertionSort (Before keys)
  perm keys := List.perm_insertionSort _ _
  sorted keys hkeys := by
    refine (List.pairwise_insertionSort (Before keys) _).imp ?_
    intro i j hij x hx y hy
    have hi : keys.getD i .nan = x := by rw [List.getD_eq_getElem?_getD, hx]; rfl
    have hj : keys.getD j .nan = y := by rw [List.getD_eq_getElem?_getD, hy]; rfl
    unfold Before at hij
    rw [hi, hj] at hij
    have hnan : y ≠ .nan := hkeys y (List.mem_of_getElem? hy)
    simpa [above, hnan] using hij

end Sorter

end

variable {α : Type*} (r : α → α → Prop) [DecidableRel r] [IsTrans α r]

lemma filter_orderedInsert (p : α → Bool) (a : α) {l : List α} (hl : l.Pairwise r) :
    (l.orderedInsert r a).filter p = if p a then (l.filter p).orderedInsert r a else l.filter p := by
  induction l with
  | nil => cases hp : p a <;> simp [hp]
  | cons b l ih =>
    obtain ⟨hb, hl⟩ := List.pairwise_cons.mp hl
    rw [List.orderedInsert_cons]
    by_cases hab : r a b
    · rw [if_pos hab, List.filter_cons]
      split
      · -- all the kept items come after `a`
        have hle : ∀ c ∈ (b :: l).filter p, r a c := by
          intro c hc
          rcases List.mem_cons.mp (List.mem_of_mem_filter hc) with rfl | hc
          · exact hab
          · exact Trans.trans hab (hb c hc)
        cases hk : (b :: l).filter p with
        | nil => rfl
        | cons c cs =>
          rw [List.orderedInsert_cons_of_le r cs (hle c (by rw [hk]; exact .head _))]
      · rfl
    · rw [if_neg hab, List.filter_cons, ih hl, List.filter_cons]
      split
      · split
        · rw [List.orderedInsert_of_not_le r _ hab]
        · rfl
      · rfl

lemma filter_insertionSort [Std.Total r] (p : α → Bool) (l : List α) :
    (l.insertionSort r).filter p = (l.filter p).insertionSort r := by
  induction l with
  | nil => rfl
  | cons a l ih =>
    rw [List.insertionSort_cons, filter_orderedInsert r p a (List.pairwise_insertionSort r l), ih, List.filter_cons]
    split
    · rw [List.insertionSort_cons]
    · rfl

lemma rel_getLast?_of_pairwise {r : α → α → Prop} (hr : ∀ a, r a a) {l : List α} (h : l.Pairwise r) {a : α}
    (hl : l.getLast? = some a) : ∀ b ∈ l, r b a := by
  obtain ⟨init, rfl⟩ := List.getLast?_eq_some_iff.mp hl
  intro b hb
  rcases List.mem_append.mp hb with hb | hb
  · exact (List.pairwise_append.mp h).2.2 b hb a (List.mem_singleton_self a)
  · rw [List.mem_singleton.mp hb]
    exact hr a

end Qmtl.Lib

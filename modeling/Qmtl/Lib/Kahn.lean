import Qmtl.Lib.Dict

/-! Kahn's algorithm with a first-in first-out queue, over a dictionary from each node to its inputs. -/

namespace Qmtl.Lib.Kahn

variable {α : Type} [DecidableEq α]

def relax (n : α) (deps : List (α × List α)) : List (α × List α) :=
  deps.map fun d => (d.1, d.2.filter (· ≠ n))

def released (n : α) (deps : List (α × List α)) : List α :=
  (deps.filter fun d => n ∈ d.2 ∧ d.2.filter (· ≠ n) = []).map Prod.fst

def roots (deps : List (α × List α)) : List α := (deps.filter fun d => d.2 = []).map Prod.fst

def loop : ℕ → List (α × List α) → List α → List α → List α
  | 0, _, _, ordered => ordered
  | _ + 1, _, [], ordered => ordered
  | fuel + 1, deps, n :: ready, ordered =>
    loop fuel (relax n deps) (ready ++ released n deps) (ordered ++ [n])

def sorted (D : Dict α (List α)) : List α := loop D.entries.length D.entries (roots D.entries) []

def order (D : Dict α (List α)) : List α :=
  if (sorted D).length ≠ D.entries.length then D.keys else sorted D

def last (l ys : List α) : ℕ := ys.foldr (fun y m => max (l.idxOf y + 1) m) 0

variable {k : ℕ}

lemma last_le {l ys : List α} : last l ys ≤ k ↔ ∀ y ∈ ys, l.idxOf y < k := by
  induction ys with
  | nil => simp [last]
  | cons y ys ih =>
    show max (l.idxOf y + 1) (last l ys) ≤ k ↔ _
    rw [max_le_iff, ih]
    simp

lemma last_append {l m ys : List α} (h : ∀ y ∈ ys, y ∈ l) : last (l ++ m) ys = last l ys := by
  induction ys with
  | nil => rfl
  | cons y ys ih =>
    show max ((l ++ m).idxOf y + 1) (last (l ++ m) ys) = max (l.idxOf y + 1) (last l ys)
    rw [ih fun z hz => h z (by simp [hz]), List.idxOf_append_of_mem (h y (by simp))]

variable {l : List α}

lemma mem_of_idxOf_lt {y : α} (h : l.idxOf y < k) (hk : k ≤ l.length) : y ∈ l.take k := by
  have hlt : l.idxOf y < l.length := lt_of_lt_of_le h hk
  have hget : l[l.idxOf y] = y := List.getElem_idxOf hlt
  rw [List.mem_take_iff_getElem]
  exact ⟨l.idxOf y, by omega, hget⟩

lemma idxOf_of_getElem? (hl : l.Nodup) {i : ℕ} {x : α} (h : l[i]? = some x) : l.idxOf x = i := by
  obtain ⟨hi, rfl⟩ := List.getElem?_eq_some_iff.mp h
  exact hl.idxOf_getElem i hi

/-! ### What holds while the loop runs -/

section Invariant

variable (D : Dict α (List α))

def inputs (x : α) : List α := (D.get? x).getD []

def after (o : List α) : List (α × List α) := D.entries.map fun d => (d.1, d.2.filter (· ∉ o))

def Before (o : List α) (x y : α) : Prop :=
  last o (inputs D x) < last o (inputs D y) ∨
    (last o (inputs D x) = last o (inputs D y) ∧ D.keys.idxOf x < D.keys.idxOf y)

structure Inv (ready o : List α) : Prop where
  nodup : (o ++ ready).Nodup
  mem : ∀ x, x ∈ o ++ ready ↔ x ∈ D.keys ∧ ∀ y ∈ inputs D x, y ∈ o
  due : (o ++ ready).Pairwise (Before D o)
  early : ∀ i x, o[i]? = some x → last o (inputs D x) ≤ i

variable {D} {ready o : List α} {n x : α}

lemma inputs_eq {d : α × List α} (h : d ∈ D.entries) : inputs D d.1 = d.2 := by
  rw [inputs, Dict.get?_eq_some.mpr h, Option.getD_some]

lemma relax_after (n : α) (o : List α) : relax n (after D o) = after D (o ++ [n]) := by
  unfold relax after
  rw [List.map_map]
  refine List.map_congr_left ?_
  intro d _
  simp only [Function.comp_apply, List.filter_filter, Prod.mk.injEq, true_and]
  refine List.filter_congr ?_
  intro y _
  simp [and_comm]

lemma filter_notMem_eq_nil {o ys : List α} : ys.filter (· ∉ o) = [] ↔ ∀ y ∈ ys, y ∈ o := by
  simp [List.filter_eq_nil_iff]

lemma released_sublist (n : α) (o : List α) : (released n (after D o)).Sublist D.keys := by
  have h : (after D o).map Prod.fst = D.keys := by simp [after, Dict.keys]
  rw [← h]
  exact List.filter_sublist.map Prod.fst

lemma mem_released (hn : n ∉ o) :
    x ∈ released n (after D o) ↔ x ∈ D.keys ∧ n ∈ inputs D x ∧ ∀ y ∈ inputs D x, y ∈ o ++ [n] := by
  have hf (ys : List α) : (ys.filter (· ∉ o)).filter (· ≠ n) = ys.filter (· ∉ o ++ [n]) := by
    rw [List.filter_filter]
    refine List.filter_congr ?_
    intro y _
    simp [and_comm]
  unfold released after Dict.keys
  simp only [List.mem_map, List.mem_filter, decide_eq_true_eq]
  constructor
  · rintro ⟨_, ⟨⟨d, hd, rfl⟩, hmem, hnil⟩, rfl⟩
    rw [hf, filter_notMem_eq_nil] at hnil
    refine ⟨⟨d, hd, rfl⟩, ?_, ?_⟩
    · rw [inputs_eq hd]
      exact (List.mem_filter.mp hmem).1
    · rw [inputs_eq hd]
      exact hnil
  · rintro ⟨⟨d, hd, rfl⟩, hmem, hall⟩
    rw [inputs_eq hd] at hmem hall
    refine ⟨_, ⟨⟨d, hd, rfl⟩, ?_, ?_⟩, rfl⟩
    · exact List.mem_filter.mpr ⟨hmem, by simpa using hn⟩
    · rw [hf, filter_notMem_eq_nil]
      exact hall

lemma pairwise_idxOf {l : List α} (h : l.Sublist D.keys) :
    l.Pairwise fun x y => D.keys.idxOf x < D.keys.idxOf y := by
  refine List.Pairwise.sublist h ?_
  rw [List.pairwise_iff_getElem]
  intro i j hi hj hij
  rw [D.keys_nodup.idxOf_getElem i hi, D.keys_nodup.idxOf_getElem j hj]
  exact hij

lemma Inv.last_le_length (h : Inv D ready o) (hx : x ∈ o ++ ready) : last o (inputs D x) ≤ o.length := by
  rw [last_le]
  intro y hy
  exact List.idxOf_lt_length_of_mem (((h.mem x).mp hx).2 y hy)

lemma Inv.last_append (h : Inv D ready o) (hx : x ∈ o ++ ready) (m : List α) :
    last (o ++ m) (inputs D x) = last o (inputs D x) :=
  Kahn.last_append ((h.mem x).mp hx).2

lemma last_released (hn : n ∉ o) (hx : x ∈ released n (after D o)) :
    last (o ++ [n]) (inputs D x) = o.length + 1 := by
  obtain ⟨-, hmem, hall⟩ := (mem_released hn).mp hx
  have hidx : (o ++ [n]).idxOf n = o.length := by
    rw [List.idxOf_append_of_notMem hn, List.idxOf_cons_self, Nat.add_zero]
  refine le_antisymm ?_ ?_
  · rw [last_le]
    intro y hy
    have hlt := List.idxOf_lt_length_of_mem (hall y hy)
    simpa using hlt
  · by_contra hlt
    have hle : last (o ++ [n]) (inputs D x) ≤ o.length := by omega
    have hbad := last_le.mp hle n hmem
    omega

lemma Inv.step_mem (h : Inv D (n :: ready) o) (x : α) : x ∈ o ++ [n] ++ (ready ++ released n (after D o)) ↔
      x ∈ D.keys ∧ ∀ y ∈ inputs D x, y ∈ o ++ [n] := by
  have hn : n ∉ o := by
    intro hmem
    exact (List.disjoint_of_nodup_append h.nodup) hmem (by simp)
  have hs : x ∈ o ++ [n] ++ (ready ++ released n (after D o)) ↔
      x ∈ o ++ (n :: ready) ∨ x ∈ released n (after D o) := by
    simp only [List.mem_append, List.mem_cons, List.not_mem_nil, or_false]
    tauto
  rw [hs, h.mem x, mem_released hn]
  constructor
  · rintro (⟨hk, hall⟩ | ⟨hk, -, hall⟩)
    · exact ⟨hk, fun y hy => List.mem_append_left _ (hall y hy)⟩
    · exact ⟨hk, hall⟩
  · rintro ⟨hk, hall⟩
    by_cases hin : n ∈ inputs D x
    · exact .inr ⟨hk, hin, hall⟩
    · refine .inl ⟨hk, ?_⟩
      intro y hy
      rcases List.mem_append.mp (hall y hy) with h | h
      · exact h
      · have hyn : y = n := by simpa using h
        exact absurd (hyn ▸ hy) hin

/-- **One round of the loop keeps the invariant.** -/
theorem Inv.step (h : Inv D (n :: ready) o) : Inv D (ready ++ released n (after D o)) (o ++ [n]) := by
  have happ : o ++ [n] ++ (ready ++ released n (after D o)) = (o ++ (n :: ready)) ++ released n (after D o) := by
    simp
  have hn : n ∉ o := by
    intro hmem
    exact (List.disjoint_of_nodup_append h.nodup) hmem (by simp)
  have hf : ∀ x ∈ released n (after D o), x ∉ o ++ (n :: ready) := by
    intro x hx hold
    exact hn (((h.mem x).mp hold).2 n ((mem_released hn).mp hx).2.1)
  refine ⟨?_, h.step_mem, ?_, ?_⟩
  · rw [happ]
    refine List.Nodup.append h.nodup ((released_sublist n o).nodup D.nodup) ?_
    intro x hold hnew
    exact hf x hnew hold
  · rw [happ, List.pairwise_append]
    refine ⟨?_, ?_, ?_⟩
    · refine h.due.imp_of_mem ?_
      intro x y hx hy hxy
      unfold Before at hxy ⊢
      rw [h.last_append hx, h.last_append hy]
      exact hxy
    · refine (pairwise_idxOf (released_sublist n o)).imp_of_mem ?_
      intro x y hx hy hxy
      exact .inr ⟨by rw [last_released hn hx, last_released hn hy], hxy⟩
    · intro x hx y hy
      left
      rw [h.last_append hx, last_released hn hy]
      exact Nat.lt_succ_of_le (h.last_le_length hx)
  · intro i x hx
    rcases Nat.lt_or_ge i o.length with hi | hi
    · rw [List.getElem?_append_left hi] at hx
      have hmem : x ∈ o ++ (n :: ready) := List.mem_append_left _ (List.mem_of_getElem? hx)
      rw [h.last_append hmem]
      exact h.early i x hx
    · rw [List.getElem?_append_right hi] at hx
      have hxn : x = n := by
        have hmem := List.mem_of_getElem? hx
        simpa using hmem
      have hmem : x ∈ o ++ (n :: ready) := by simp [hxn]
      rw [h.last_append hmem]
      exact le_trans (h.last_le_length hmem) hi

lemma inv_init : Inv D (roots D.entries) [] := by
  have hmem : ∀ x, x ∈ roots D.entries ↔ x ∈ D.keys ∧ ∀ y ∈ inputs D x, y ∈ ([] : List α) := by
    intro x
    unfold roots Dict.keys
    simp only [List.mem_map, List.mem_filter, decide_eq_true_eq]
    constructor
    · rintro ⟨d, ⟨hd, hnil⟩, rfl⟩
      refine ⟨⟨d, hd, rfl⟩, ?_⟩
      rw [inputs_eq hd, hnil]
      exact fun y hy => hy
    · rintro ⟨⟨d, hd, rfl⟩, hall⟩
      rw [inputs_eq hd] at hall
      exact ⟨d, ⟨hd, List.eq_nil_iff_forall_not_mem.mpr fun y hy => by simpa using hall y hy⟩, rfl⟩
  have hsub : (roots D.entries).Sublist D.keys := List.filter_sublist.map Prod.fst
  refine ⟨hsub.nodup D.nodup, hmem, ?_, by simp⟩
  refine (pairwise_idxOf hsub).imp_of_mem ?_
  intro x y hx hy hxy
  have hnil : ∀ z ∈ roots D.entries, inputs D z = [] := by
    intro z hz
    exact List.eq_nil_iff_forall_not_mem.mpr fun y hy => by simpa using ((hmem z).mp hz).2 y hy
  refine .inr ⟨?_, hxy⟩
  rw [hnil x hx, hnil y hy]

lemma Inv.length_le (h : Inv D ready o) : (o ++ ready).length ≤ D.keys.length :=
  (h.nodup.subperm fun x hx => ((h.mem x).mp hx).1).length_le

lemma loop_inv {fuel : ℕ} (h : Inv D ready o) (hf : o.length + fuel = D.keys.length) :
    Inv D [] (loop fuel (after D o) ready o) := by
  induction fuel generalizing ready o with
  | zero =>
    have hlen := h.length_le
    rw [List.length_append] at hlen
    have hnil : ready = [] := List.length_eq_zero_iff.mp (by omega)
    subst hnil
    exact h
  | succ fuel ih =>
    cases ready with
    | nil => exact h
    | cons n ready =>
      show Inv D [] (loop fuel (relax n (after D o)) (ready ++ released n (after D o)) (o ++ [n]))
      rw [relax_after]
      exact ih h.step (by rw [List.length_append, List.length_singleton]; omega)

lemma sorted_inv (D : Dict α (List α)) : Inv D [] (sorted D) := by
  have h0 : after D [] = D.entries := by simp [after]
  have hlen : D.entries.length = D.keys.length := by simp [Dict.keys]
  unfold sorted
  nth_rewrite 2 [← h0]
  rw [hlen]
  exact loop_inv inv_init (by simp)

end Invariant

/-! ### What the result is -/

variable {D : Dict α (List α)}

lemma sorted_nodup (D : Dict α (List α)) : (sorted D).Nodup := by
  have h := (sorted_inv D).nodup
  rwa [List.append_nil] at h

lemma sorted_subset : sorted D ⊆ D.keys := by
  intro x hx
  exact (((sorted_inv D).mem x).mp (by simpa using hx)).1

lemma order_nodup (D : Dict α (List α)) : (order D).Nodup := by
  unfold order
  split
  · exact D.nodup
  · exact sorted_nodup D

lemma order_perm (D : Dict α (List α)) : (order D).Perm D.keys := by
  unfold order
  split
  · exact List.Perm.refl _
  · rename_i hlen
    refine List.Subperm.perm_of_length_le ((sorted_nodup D).subperm sorted_subset) ?_
    have hlen : (sorted D).length = D.entries.length := by simpa using hlen
    rw [hlen]
    simp [Dict.keys]

def Orderable (D : Dict α (List α)) : Prop :=
  ∃ l : List α, l.Perm D.keys ∧ ∀ x ∈ l, ∀ y ∈ inputs D x, l.idxOf y < l.idxOf x

structure BreadthFirst (D : Dict α (List α)) : Prop where
  early : ∀ i x, D.keys[i]? = some x → last D.keys (inputs D x) ≤ i
  mono : D.keys.Pairwise fun x y => last D.keys (inputs D x) ≤ last D.keys (inputs D y)

lemma perm_of_length (h : (sorted D).length = D.entries.length) : (sorted D).Perm D.keys := by
  have hp := order_perm D
  unfold order at hp
  rwa [if_neg (by simpa using h)] at hp

lemma length_sorted_iff : (sorted D).length = D.entries.length ↔ Orderable D := by
  constructor
  · intro h
    refine ⟨sorted D, perm_of_length h, ?_⟩
    intro x hx y hy
    obtain ⟨i, hi⟩ := List.getElem?_of_mem hx
    rw [idxOf_of_getElem? (sorted_nodup D) hi]
    exact last_le.mp ((sorted_inv D).early i x hi) y hy
  · rintro ⟨l, hp, haf⟩
    -- the first node of `l` that was left over has all its inputs listed
    have hall : ∀ k, ∀ x ∈ l, l.idxOf x = k → x ∈ sorted D := by
      intro k
      induction k using Nat.strong_induction_on with
      | _ k ih =>
        intro x hx hk
        have hl : x ∈ sorted D ++ [] := by
          refine ((sorted_inv D).mem x).mpr ⟨hp.subset hx, ?_⟩
          intro y hy
          have hlt := haf x hx y hy
          have hyl : y ∈ l := by
            rw [← List.idxOf_lt_length_iff]
            exact lt_trans hlt (List.idxOf_lt_length_of_mem hx)
          exact ih (l.idxOf y) (hk ▸ hlt) y hyl rfl
        simpa using hl
    have hsub : D.keys ⊆ sorted D := fun x hx => hall _ x (hp.symm.subset hx) rfl
    have hle := (D.keys_nodup.subperm hsub).length_le
    have hge := ((sorted_nodup D).subperm sorted_subset).length_le
    have hlen : D.keys.length = D.entries.length := by simp [Dict.keys]
    omega

lemma last_congr {a b ys : List α} (hab : a.take k = b.take k) (ha : last a ys ≤ k)
    (hk : k ≤ a.length) : last a ys = last b ys := by
  have hmem : ∀ y ∈ ys, y ∈ a.take k := fun y hy => mem_of_idxOf_lt (last_le.mp ha y hy) hk
  calc last a ys = last (a.take k ++ a.drop k) ys := by rw [List.take_append_drop]
    _ = last (a.take k) ys := last_append hmem
    _ = last (b.take k) ys := by rw [hab]
    _ = last (b.take k ++ b.drop k) ys := (last_append (hab ▸ hmem)).symm
    _ = last b ys := by rw [List.take_append_drop]

lemma getElem?_idxOf_gt {x : α} (hx : x ∈ l) (hlt : x ∉ l.take k) (hk : l[k]? ≠ some x) : k < l.idxOf x := by
  by_contra hle
  have hget : l[l.idxOf x]? = some x := List.getElem?_idxOf hx
  rcases Nat.lt_or_eq_of_le (Nat.le_of_not_lt hle) with h | h
  · refine hlt (List.mem_take_iff_getElem.mpr ⟨l.idxOf x, ?_, List.getElem_idxOf _⟩)
    have := List.idxOf_lt_length_of_mem hx
    omega
  · exact hk (h ▸ hget)

omit [DecidableEq α] in
lemma notMem_take (hl : l.Nodup) {x : α} (h : l[k]? = some x) : x ∉ l.take k := by
  intro hmem
  obtain ⟨i, hi, hget⟩ := List.mem_take_iff_getElem.mp hmem
  obtain ⟨hk, hx⟩ := List.getElem?_eq_some_iff.mp h
  have := hl.getElem_inj_iff.mp (hget.trans hx.symm)
  omega

lemma pairwise_at {R : α → α → Prop} (h : l.Pairwise R) {x y : α}
    (hx : l[k]? = some x) (hy : y ∈ l) (hlt : k < l.idxOf y) : R x y := by
  obtain ⟨hk, rfl⟩ := List.getElem?_eq_some_iff.mp hx
  have hlen := List.idxOf_lt_length_of_mem hy
  have hR := List.pairwise_iff_getElem.mp h k (l.idxOf y) hk hlen hlt
  rwa [List.getElem_idxOf hlen] at hR

lemma sorted_next (hD : BreadthFirst D) (hp : (sorted D).Perm D.keys) {x r : α}
    (hpre : (sorted D).take k = D.keys.take k) (hx : D.keys[k]? = some x) (hr : (sorted D)[k]? = some r) :
    r = x := by
  by_contra hne
  have hxm : x ∈ D.keys := List.mem_of_getElem? hx
  have hrm : r ∈ sorted D := List.mem_of_getElem? hr
  have hk : k < D.keys.length := (List.getElem?_eq_some_iff.mp hx).1
  have hlen := hp.length_eq
  -- `x` comes later among the sorted ones, and `r` later in the dictionary
  have hxs : k < (sorted D).idxOf x := by
    refine getElem?_idxOf_gt (hp.symm.subset hxm) ?_ ?_
    · rw [hpre]
      exact notMem_take D.keys_nodup hx
    · rw [hr]
      simpa using hne
  have hrd : k < D.keys.idxOf r := by
    refine getElem?_idxOf_gt (hp.subset hrm) ?_ ?_
    · rw [← hpre]
      exact notMem_take (sorted_nodup D) hr
    · rw [hx]
      simpa using fun h => hne h.symm
  have hex : last D.keys (inputs D x) = last (sorted D) (inputs D x) :=
    last_congr hpre.symm (hD.early k x hx) (by omega)
  have her : last (sorted D) (inputs D r) = last D.keys (inputs D r) :=
    last_congr hpre ((sorted_inv D).early k r hr) (by omega)
  have hdue : (sorted D).Pairwise (Before D (sorted D)) := by
    have h := (sorted_inv D).due
    rwa [List.append_nil] at h
  have hb : Before D (sorted D) r x := pairwise_at hdue hr (hp.symm.subset hxm) hxs
  have hm : last D.keys (inputs D x) ≤ last D.keys (inputs D r) :=
    pairwise_at hD.mono hx (hp.subset hrm) hrd
  have hix : D.keys.idxOf x = k := idxOf_of_getElem? D.keys_nodup hx
  rcases hb with h | ⟨-, h⟩ <;> omega

lemma sorted_eq_keys (hD : BreadthFirst D) (hp : (sorted D).Perm D.keys) : sorted D = D.keys := by
  have hlen := hp.length_eq
  have ht : ∀ k ≤ D.keys.length, (sorted D).take k = D.keys.take k := by
    intro k
    induction k with
    | zero => simp
    | succ k ih =>
      intro hk
      have hpre := ih (by omega)
      have hx : D.keys[k]? = some (D.keys[k]) := List.getElem?_eq_getElem (by omega)
      have hr : (sorted D)[k]? = some ((sorted D)[k]) := List.getElem?_eq_getElem (by omega)
      rw [List.take_add_one, List.take_add_one, hpre, hx, hr, sorted_next hD hp hpre hx hr]
  have h := ht D.keys.length le_rfl
  rwa [List.take_length, List.take_of_length_le (by omega)] at h

/-- **The order is the dictionary's own** exactly when there is no order at all, or the dictionary is
breadth-first already. -/
theorem order_eq_keys : order D = D.keys ↔ (Orderable D → BreadthFirst D) := by
  rw [← length_sorted_iff]
  unfold order
  by_cases hlen : (sorted D).length = D.entries.length
  · rw [if_neg (by simpa using hlen)]
    constructor
    · intro h _
      have hinv := sorted_inv D
      rw [h] at hinv
      refine ⟨hinv.early, ?_⟩
      have hdue := hinv.due
      rw [List.append_nil] at hdue
      refine hdue.imp ?_
      rintro x y (hlt | ⟨heq, -⟩)
      · exact hlt.le
      · exact heq.le
    · intro h
      exact sorted_eq_keys (h hlen) (perm_of_length hlen)
  · rw [if_pos hlen]
    exact iff_of_true rfl fun h => absurd h hlen

/-! ### Cycles -/

def Feeds (D : Dict α (List α)) (y x : α) : Prop := x ∈ D.keys ∧ y ∈ D.keys ∧ y ∈ inputs D x

def Acyclic (D : Dict α (List α)) : Prop := ∀ x, ¬ Relation.TransGen (Feeds D) x x

def Closed (D : Dict α (List α)) : Prop := ∀ x ∈ D.keys, ∀ y ∈ inputs D x, y ∈ D.keys

def InputsFirst (D : Dict α (List α)) (l : List α) : Prop :=
  ∀ x ∈ D.keys, ∀ y ∈ inputs D x, y ∈ D.keys → l.idxOf y < l.idxOf x

lemma idxOf_lt_of_transGen (hl : InputsFirst D l) {x y : α} (h : Relation.TransGen (Feeds D) y x) :
    l.idxOf y < l.idxOf x := by
  induction h with
  | single h => exact hl _ h.1 _ h.2.2 h.2.1
  | tail _ h ih => exact ih.trans (hl _ h.1 _ h.2.2 h.2.1)

lemma wellFounded_feeds (h : Acyclic D) :
    WellFounded fun y x : {x // x ∈ D.keys} => Relation.TransGen (Feeds D) y.1 x.1 := by
  have hir : Std.Irrefl fun y x : {x // x ∈ D.keys} => Relation.TransGen (Feeds D) y.1 x.1 :=
    ⟨fun x => h x.1⟩
  exact Finite.wellFounded_of_trans_of_irrefl _

/-- **There is an order exactly when all inputs are listed and there is no cycle.** -/
theorem orderable_iff : Orderable D ↔ Closed D ∧ Acyclic D := by
  constructor
  · rintro ⟨l, hp, haf⟩
    have hfirst : InputsFirst D l := fun x hx y hy _ => haf x (hp.symm.subset hx) y hy
    refine ⟨?_, fun x h => lt_irrefl _ (idxOf_lt_of_transGen hfirst h)⟩
    intro x hx y hy
    have hlt := haf x (hp.symm.subset hx) y hy
    have hlen : l.idxOf x < l.length := List.idxOf_lt_length_of_mem (hp.symm.subset hx)
    exact hp.subset (List.idxOf_lt_length_iff.mp (hlt.trans hlen))
  · rintro ⟨hc, hac⟩
    rw [← length_sorted_iff]
    have hall : ∀ x : {x // x ∈ D.keys}, x.1 ∈ sorted D := by
      intro x
      induction x using (wellFounded_feeds hac).induction with
      | _ x ih =>
        have hl : x.1 ∈ sorted D ++ [] := by
          refine ((sorted_inv D).mem x.1).mpr ⟨x.2, ?_⟩
          intro y hy
          have hmem := hc x.1 x.2 y hy
          exact ih ⟨y, hmem⟩ (.single ⟨x.2, hmem, hy⟩)
        simpa using hl
    have hsub : D.keys ⊆ sorted D := fun x hx => hall ⟨x, hx⟩
    have hle := (D.keys_nodup.subperm hsub).length_le
    have hge := ((sorted_nodup D).subperm sorted_subset).length_le
    have hlen : D.keys.length = D.entries.length := by simp [Dict.keys]
    omega

lemma inputsFirst_sorted : (sorted D).length = D.entries.length → InputsFirst D (sorted D) := by
  intro h x hx y hy _
  obtain ⟨i, hi⟩ := List.getElem?_of_mem ((perm_of_length h).symm.subset hx)
  rw [idxOf_of_getElem? (sorted_nodup D) hi]
  exact last_le.mp ((sorted_inv D).early i x hi) y hy

/-- **Without cycles, nodes come after their listed inputs** exactly when no input is missing, or they stand
so in the dictionary. -/
theorem inputsFirst_order_iff (h : Acyclic D) : InputsFirst D (order D) ↔ Closed D ∨ InputsFirst D D.keys := by
  unfold order
  by_cases hlen : (sorted D).length = D.entries.length
  · rw [if_neg (by simpa using hlen)]
    exact iff_of_true (inputsFirst_sorted hlen) (.inl (orderable_iff.mp (length_sorted_iff.mp hlen)).1)
  · rw [if_pos hlen]
    have hopen : ¬ Closed D := fun hc => hlen (length_sorted_iff.mpr (orderable_iff.mpr ⟨hc, h⟩))
    exact ⟨.inr, fun hor => hor.resolve_left hopen⟩

end Qmtl.Lib.Kahn

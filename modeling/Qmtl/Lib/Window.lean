import Mathlib.Data.List.Rotate
import Mathlib.Data.List.DropRight
import Mathlib.Tactic.Ring

/-!
The last `n` items of a list: kept by a list that is cut after each push, and by a ring that overwrites its oldest cell.
-/

namespace Qmtl.Lib

variable {α β : Type*}

def lastItems (n : ℕ) (xs : List α) : List α := if n = 0 then xs else xs.drop (xs.length - n)

lemma lastItems_sublist (n : ℕ) (xs : List α) : (lastItems n xs).Sublist xs := by
  unfold lastItems
  split
  · exact List.Sublist.refl xs
  · exact List.drop_sublist _ _

variable {n o : ℕ} {xs : List α}

lemma length_lastItems (h : 0 < n) (xs : List α) : (lastItems n xs).length = min xs.length n := by
  rw [lastItems, if_neg (by omega), List.length_drop]
  omega

lemma lastItems_of_length_le (h : xs.length ≤ n) : lastItems n xs = xs := by
  unfold lastItems
  split
  · rfl
  · rw [Nat.sub_eq_zero_of_le h, List.drop_zero]

def push (n : ℕ) (xs : List α) (x : α) : List α := (xs ++ [x]).drop (xs.length + 1 - n)

lemma push_of_length_lt (h : xs.length < n) (x : α) : push n xs x = xs ++ [x] := by
  rw [push, Nat.sub_eq_zero_of_le h, List.drop_zero]

lemma push_of_length_eq (h : xs.length = n) (hpos : 0 < n) (x : α) : push n xs x = xs.tail ++ [x] := by
  have hone : xs.length + 1 - n = 1 := by omega
  cases xs with
  | nil =>
    rw [List.length_nil] at h
    omega
  | cons y ys => rw [push, hone, List.cons_append, List.drop_succ_cons, List.drop_zero, List.tail_cons]

lemma length_push (hpos : 0 < n) (xs : List α) (x : α) : (push n xs x).length = min (xs.length + 1) n := by
  rw [push, List.length_drop, List.length_append, List.length_singleton]
  omega

lemma mem_push {x y : α} (h : y ∈ push n xs x) : y ∈ xs ∨ y = x := by
  have hmem := List.mem_of_mem_drop h
  rwa [List.mem_append, List.mem_singleton] at hmem

/-! ### Rings -/

lemma rotate_set_succ {cells : List α} (h : o < cells.length) (x : α) :
    (cells.set o x).rotate (o + 1) = (cells.rotate o).tail ++ [x] := by
  have hset : cells.set o x = cells.take o ++ x :: cells.drop (o + 1) := List.set_eq_take_append_cons_drop.trans (if_pos h)
  have hlen : (cells.take o ++ [x]).length = o + 1 := by
    rw [List.length_append, List.length_take, List.length_singleton]
    omega
  have hs : cells.set o x = (cells.take o ++ [x]) ++ cells.drop (o + 1) := by
    rw [hset, List.append_assoc, List.singleton_append]
  calc (cells.set o x).rotate (o + 1)
      = ((cells.take o ++ [x]) ++ cells.drop (o + 1)).rotate (cells.take o ++ [x]).length := by rw [hs, hlen]
    _ = cells.drop (o + 1) ++ (cells.take o ++ [x]) := List.rotate_append_length_eq _ _
    _ = (cells.rotate o).tail ++ [x] := by
      rw [List.rotate_eq_drop_append_take h.le, List.drop_eq_getElem_cons h, List.cons_append, List.tail_cons,
        List.append_assoc]

lemma getLast?_rotate {cells : List α} (h : o < cells.length) :
    (cells.rotate o).getLast? = cells[(o + cells.length - 1) % cells.length]? := by
  rw [List.getLast?_eq_getElem?, List.length_rotate, List.getElem?_rotate (by omega)]
  congr 2
  omega

/-- What a ring of `n` cells holds from its oldest cell to its newest: the cells never written, then the items. -/
def padded (n : ℕ) (xs : List α) : List (Option α) := List.replicate (n - xs.length) none ++ xs.map some

lemma length_padded (h : xs.length ≤ n) : (padded n xs).length = n := by
  rw [padded, List.length_append, List.length_replicate, List.length_map]
  omega

lemma filterMap_padded (n : ℕ) (xs : List α) : (padded n xs).filterMap id = xs := by
  have hn : ∀ k, (List.replicate k (none : Option α)).filterMap id = [] := by
    intro k
    rw [List.filterMap_eq_nil_iff]
    exact fun x hx => List.eq_of_mem_replicate hx
  rw [padded, List.filterMap_append, hn, List.nil_append, List.filterMap_map]
  exact List.filterMap_some

lemma tail_padded (hpos : 0 < n) (hlen : xs.length ≤ n) (x : α) :
    (padded n xs).tail ++ [some x] = padded n (push n xs x) := by
  rcases Nat.lt_or_ge xs.length n with hlt | hge
  · obtain ⟨k, hk⟩ : ∃ k, n - xs.length = k + 1 := ⟨n - xs.length - 1, by omega⟩
    have hk' : n - (xs ++ [x]).length = k := by
      rw [List.length_append, List.length_singleton]
      omega
    rw [push_of_length_lt hlt, padded, padded, hk, hk', List.replicate_succ, List.cons_append, List.tail_cons,
      List.map_append, List.map_singleton, List.append_assoc]
  · have heq : xs.length = n := le_antisymm hlen hge
    have hf : n - (xs.tail ++ [x]).length = 0 := by
      rw [List.length_append, List.length_tail, List.length_singleton]
      omega
    rw [push_of_length_eq heq hpos, padded, padded, hf, heq, Nat.sub_self, List.replicate_zero, List.nil_append,
      List.nil_append, List.map_append, List.map_singleton, List.map_tail]

lemma rotate_append {cells : List (Option α)} (hlen : cells.length = n) (ho : o < n) (hxs : xs.length ≤ n)
    (h : cells.rotate o = padded n xs) (x : α) :
    (cells.set o (some x)).rotate ((o + 1) % n) = padded n (push n xs x) := by
  have hset : (cells.set o (some x)).length = n := by rw [List.length_set, hlen]
  calc (cells.set o (some x)).rotate ((o + 1) % n)
      = (cells.set o (some x)).rotate (o + 1) := by
        conv_lhs => rw [← hset, List.rotate_mod]
    _ = padded n (push n xs x) := by rw [rotate_set_succ (hlen ▸ ho), h, tail_padded (by omega) hxs]

lemma rotate_fill (hxs : xs.length ≤ n) (ho : o = xs.length % n) :
    (xs.map some ++ List.replicate (n - xs.length) none).rotate o = padded n xs := by
  have hlen : (xs.map some ++ List.replicate (n - xs.length) none).length = n := by
    rw [List.length_append, List.length_map, List.length_replicate]
    omega
  have ho' : o = (xs.map some).length % (xs.map some ++ List.replicate (n - xs.length) none).length := by
    rw [hlen, ho, List.length_map]
  rw [ho', List.rotate_mod, List.rotate_append_length_eq, padded]

end Qmtl.Lib

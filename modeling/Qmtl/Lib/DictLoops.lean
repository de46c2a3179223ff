import Qmtl.Lib.Dict

/-!
Loops over a snapshot of a dictionary's items that write or delete the entry they are at.
-/

namespace Qmtl.Lib.Dict

variable {κ ν : Type} [DecidableEq κ]

variable {es : List (κ × ν)} {k : κ}

lemma setEntry_append_of_notMem (v : ν) (h : k ∉ es.map Prod.fst) (es' : List (κ × ν)) :
    setEntry k v (es ++ es') = es ++ setEntry k v es' := by
  induction es with
  | nil => rfl
  | cons e es ih =>
    rw [List.map_cons, List.mem_cons, not_or] at h
    rw [List.cons_append, setEntry, if_neg fun he => h.1 he.symm, ih h.2, List.cons_append]

lemma filter_ne_of_notMem (h : k ∉ es.map Prod.fst) : (es.filter fun e => e.1 ≠ k) = es := by
  refine List.filter_eq_self.mpr ?_
  intro e he
  have hne : e.1 ≠ k := fun heq => h (heq ▸ List.mem_map_of_mem (f := Prod.fst) he)
  exact decide_eq_true hne

def alterEntries (f : κ → ν → Option ν) (es : List (κ × ν)) : List (κ × ν) :=
  es.filterMap fun e => (f e.1 e.2).map (e.1, ·)

omit [DecidableEq κ] in
lemma mem_keys_alterEntries {f : κ → ν → Option ν} (h : k ∈ (alterEntries f es).map Prod.fst) :
    k ∈ es.map Prod.fst := by
  obtain ⟨e, he, rfl⟩ := List.mem_map.mp h
  obtain ⟨e₀, h₀, hf⟩ := List.mem_filterMap.mp he
  obtain ⟨v, -, rfl⟩ := Option.map_eq_some_iff.mp hf
  exact List.mem_map.mpr ⟨e₀, h₀, rfl⟩

section Turns

variable {d : Dict κ ν} {k : κ} {v : ν} {xs ys : List (κ × ν)}

omit [DecidableEq κ] in
lemma notMem_of_split (h : d.entries = xs ++ (k, v) :: ys) : k ∉ xs.map Prod.fst ∧ k ∉ ys.map Prod.fst := by
  have hn := d.nodup
  rw [h, List.map_append, List.map_cons, List.nodup_middle, List.nodup_cons, List.mem_append, not_or] at hn
  exact hn.1

lemma entries_set_of_split (h : d.entries = xs ++ (k, v) :: ys) (w : ν) :
    (d.set k w).entries = xs ++ (k, w) :: ys := by
  show setEntry k w d.entries = _
  rw [h, setEntry_append_of_notMem w (notMem_of_split h).1, setEntry, if_pos rfl]

lemma entries_erase_of_split (h : d.entries = xs ++ (k, v) :: ys) : (d.erase k).entries = xs ++ ys := by
  show (d.entries.filter fun e => e.1 ≠ k) = _
  obtain ⟨hxs, hys⟩ := notMem_of_split h
  rw [h, List.filter_append, List.filter_cons, if_neg (by simp), filter_ne_of_notMem hxs, filter_ne_of_notMem hys]

end Turns

omit [DecidableEq κ] in
lemma entries_foldl_turns {α : Type*} (dict : α → Dict κ ν) (body : α → κ × ν → α) (f : κ → ν → Option ν)
    (ht : ∀ a k v xs ys, (dict a).entries = xs ++ (k, v) :: ys →
      (dict (body a (k, v))).entries = xs ++ ((f k v).map (k, ·)).toList ++ ys) (a : α) :
    (dict ((dict a).entries.foldl body a)).entries = alterEntries f (dict a).entries := by
  have hgen : ∀ (es xs : List (κ × ν)) (a : α), (dict a).entries = xs ++ es →
      (dict (es.foldl body a)).entries = xs ++ alterEntries f es := by
    intro es
    induction es with
    | nil =>
      intro xs a h
      simpa [alterEntries] using h
    | cons e es ih =>
      intro xs a h
      have hb := ht a e.1 e.2 xs es h
      rw [List.foldl_cons, ih _ _ hb, List.append_assoc]
      cases hf : f e.1 e.2 <;> simp [alterEntries, hf]
  simpa using hgen (dict a).entries [] a rfl

lemma lookup_alterEntries (f : κ → ν → Option ν) (h : (es.map Prod.fst).Nodup) (k : κ) :
    (alterEntries f es).lookup k = (es.lookup k).bind (f k) := by
  induction es with
  | nil => rfl
  | cons e es ih =>
    rw [List.map_cons, List.nodup_cons] at h
    have hc : alterEntries f (e :: es) = ((f e.1 e.2).map (e.1, ·)).toList ++ alterEntries f es := by
      cases hf : f e.1 e.2 <;> simp [alterEntries, hf]
    rw [hc, lookup_cons]
    by_cases hk : k = e.1
    · subst hk
      cases hf : f e.1 e.2 with
      | some v => simp [hf]
      | none =>
        have hnot : e.1 ∉ (alterEntries f es).map Prod.fst := fun hm => h.1 (mem_keys_alterEntries hm)
        have hl : (alterEntries f es).lookup e.1 = none := by
          rw [List.lookup_eq_none_iff]
          intro p hp
          have hne : e.1 ≠ p.1 := fun he => hnot (he ▸ List.mem_map_of_mem (f := Prod.fst) hp)
          simpa using hne
        simp [hf, hl]
    · rw [if_neg hk, ← ih h.2]
      cases f e.1 e.2 with
      | some v => rw [Option.map_some, Option.toList_some, List.singleton_append, lookup_cons, if_neg hk]
      | none => rfl

omit [DecidableEq κ] in
lemma filterMap_cons_toList {α β : Type*} (f : α → Option β) (x : α) (xs : List α) :
    (x :: xs).filterMap f = (f x).toList ++ xs.filterMap f := by
  cases h : f x <;> simp [h]

lemma perm_filterMap_setEntry {β : Type*} (f : κ × ν → Option β) (k : κ) (v : ν) (es : List (κ × ν)) :
    ((setEntry k v es).filterMap f ++ ((es.lookup k).bind fun w => f (k, w)).toList).Perm
      (es.filterMap f ++ (f (k, v)).toList) := by
  induction es with
  | nil => simp [setEntry, filterMap_cons_toList]
  | cons e es ih =>
    obtain ⟨k', w⟩ := e
    rw [setEntry, lookup_cons]
    by_cases hk : k' = k
    · subst hk
      rw [if_pos rfl, if_pos rfl, Option.bind_some, filterMap_cons_toList, filterMap_cons_toList]
      refine List.perm_append_comm.trans ?_
      rw [List.append_assoc]
      exact List.perm_append_comm.append_left _
    · rw [if_neg hk, if_neg fun h => hk h.symm, filterMap_cons_toList, filterMap_cons_toList, List.append_assoc,
        List.append_assoc]
      exact ih.append_left _

lemma perm_filterMap_set {β : Type*} (f : κ × ν → Option β) (d : Dict κ ν) (k : κ) (v : ν) :
    ((d.set k v).entries.filterMap f ++ ((d.get? k).bind fun w => f (k, w)).toList).Perm
      (d.entries.filterMap f ++ (f (k, v)).toList) :=
  perm_filterMap_setEntry f k v d.entries

lemma map_entries_set {β : Type*} (p : κ × ν → β) {d : Dict κ ν} {v w : ν} (hget : d.get? k = some w)
    (hp : p (k, v) = p (k, w)) : (d.set k v).entries.map p = d.entries.map p := by
  have hgen : ∀ es : List (κ × ν), es.lookup k = some w → (setEntry k v es).map p = es.map p := by
    intro es
    induction es with
    | nil => intro h; cases h
    | cons e es ih =>
      intro h
      rw [lookup_cons] at h
      rw [setEntry]
      by_cases he : e.1 = k
      · rw [if_pos he.symm] at h
        cases h
        rw [if_pos he, List.map_cons, List.map_cons, hp, ← he]
      · rw [if_neg fun heq => he heq.symm] at h
        rw [if_neg he, List.map_cons, List.map_cons, ih h]
  exact hgen d.entries hget

/-- **The last write counts**: a dictionary made from entries has those that no later entry replaces. -/
theorem mem_entries_ofList_iff {e : κ × ν} :
    e ∈ (ofList es).entries ↔ ∃ before after, es = before ++ e :: after ∧ ∀ e' ∈ after, e'.1 ≠ e.1 := by
  induction es using List.reverseRecOn with
  | nil => exact iff_of_false List.not_mem_nil fun ⟨before, after, h, _⟩ => by simp at h
  | append_singleton es last ih =>
    have hset : ofList (es ++ [last]) = (ofList es).set last.1 last.2 := by
      unfold ofList update
      rw [List.foldl_append, List.foldl_cons, List.foldl_nil]
    have hget : e ∈ ((ofList es).set last.1 last.2).entries ↔ if e.1 = last.1 then last.2 = e.2 else
        e ∈ (ofList es).entries := by
      refine (@get?_eq_some _ _ _ ((ofList es).set last.1 last.2) e.1 e.2).symm.trans ?_
      rw [get?_set]
      split
      · exact Option.some_inj
      · exact get?_eq_some
    rw [hset, hget]
    by_cases hkey : e.1 = last.1
    · rw [if_pos hkey]
      constructor
      · intro hval
        exact ⟨es, [], by rw [show e = last from Prod.ext hkey hval.symm], fun e' h => absurd h List.not_mem_nil⟩
      · rintro ⟨before, after, hs, hl⟩
        rcases List.eq_nil_or_concat' after with rfl | ⟨init, x, rfl⟩
        · rw [List.singleton_inj.mp (List.append_inj_right' hs rfl)]
        · rw [← List.cons_append, ← List.append_assoc] at hs
          obtain rfl : last = x := List.singleton_inj.mp (List.append_inj_right' hs rfl)
          exact absurd hkey.symm (hl last (by simp))
    · rw [if_neg hkey, ih]
      constructor
      · rintro ⟨before, after, rfl, hl⟩
        refine ⟨before, after ++ [last], by simp, ?_⟩
        intro e' he'
        rcases List.mem_append.mp he' with h | h
        · exact hl e' h
        · rw [List.mem_singleton.mp h]
          exact Ne.symm hkey
      · rintro ⟨before, after, hs, hl⟩
        rcases List.eq_nil_or_concat' after with rfl | ⟨init, x, rfl⟩
        · obtain rfl : last = e := List.singleton_inj.mp (List.append_inj_right' hs rfl)
          exact absurd rfl hkey
        · rw [← List.cons_append, ← List.append_assoc] at hs
          refine ⟨before, init, List.append_inj_left' hs rfl, ?_⟩
          exact fun e' he' => hl e' (List.mem_append_left _ he')

end Qmtl.Lib.Dict

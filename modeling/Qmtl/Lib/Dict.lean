import Mathlib.Tactic

/-!
Dictionaries as Python has them: every key once, in the order of the first insertion. Writing a key
that is there changes its value and leaves its place.
-/

namespace Qmtl.Lib

/-- A dictionary from `κ` to `ν`. -/
structure Dict (κ ν : Type) where
  entries : List (κ × ν)
  nodup : (entries.map Prod.fst).Nodup

namespace Dict

variable {κ ν μ : Type} [DecidableEq κ]

def setEntry (k : κ) (v : ν) : List (κ × ν) → List (κ × ν)
  | [] => [(k, v)]
  | e :: es => if e.1 = k then (k, v) :: es else e :: setEntry k v es

lemma map_fst_setEntry (k : κ) (v : ν) (es : List (κ × ν)) : (setEntry k v es).map Prod.fst =
      if k ∈ es.map Prod.fst then es.map Prod.fst else es.map Prod.fst ++ [k] := by
  induction es with
  | nil => simp [setEntry]
  | cons e es ih =>
    unfold setEntry
    by_cases he : e.1 = k
    · simp [he]
    · have he' : k ≠ e.1 := fun h => he h.symm
      by_cases hk : k ∈ es.map Prod.fst
      · rw [if_pos hk] at ih
        rw [if_neg he, if_pos (by simp only [List.map_cons, List.mem_cons]; exact .inr hk), List.map_cons, ih,
          List.map_cons]
      · rw [if_neg hk] at ih
        have hk' : k ∉ (e :: es).map Prod.fst := by
          simp only [List.map_cons, List.mem_cons, not_or]
          exact ⟨he', hk⟩
        rw [if_neg he, if_neg hk', List.map_cons, ih, List.map_cons, List.cons_append]

variable {d : Dict κ ν} {e : κ × ν} {es : List (κ × ν)} {k : κ} {v : ν}

lemma nodup_setEntry (k : κ) (v : ν) (h : (es.map Prod.fst).Nodup) : ((setEntry k v es).map Prod.fst).Nodup := by
  rw [map_fst_setEntry]
  split
  · exact h
  · rename_i hk
    exact List.Nodup.append h (List.nodup_singleton k) (by simpa using hk)

def empty : Dict κ ν := ⟨[], List.nodup_nil⟩

def get? (d : Dict κ ν) (k : κ) : Option ν := d.entries.lookup k

def set (d : Dict κ ν) (k : κ) (v : ν) : Dict κ ν := ⟨setEntry k v d.entries, nodup_setEntry k v d.nodup⟩

def erase (d : Dict κ ν) (k : κ) : Dict κ ν where
  entries := d.entries.filter fun e => e.1 ≠ k
  nodup := d.nodup.sublist (List.Sublist.map _ List.filter_sublist)

def keys (d : Dict κ ν) : List κ := d.entries.map Prod.fst

def values (d : Dict κ ν) : List ν := d.entries.map Prod.snd

def update (d : Dict κ ν) (es : List (κ × ν)) : Dict κ ν := es.foldl (fun d e => d.set e.1 e.2) d

def ofList (es : List (κ × ν)) : Dict κ ν := update empty es

def mapValues (d : Dict κ ν) (f : ν → μ) : Dict κ μ where
  entries := d.entries.map fun e => (e.1, f e.2)
  nodup := by
    rw [List.map_map]
    exact d.nodup

omit [DecidableEq κ] in
@[ext] lemma ext {d' : Dict κ ν} (h : d.entries = d'.entries) : d = d' := by
  cases d
  cases d'
  simpa using h

lemma lookup_cons (k : κ) (e : κ × ν) (es : List (κ × ν)) :
    (e :: es).lookup k = if k = e.1 then some e.2 else es.lookup k := by
  rw [List.lookup_cons]
  by_cases h : k = e.1
  · simp [h]
  · have hb : (k == e.1) = false := by simpa using h
    rw [hb, if_neg h]

lemma lookup_setEntry (k k' : κ) (v : ν) (es : List (κ × ν)) :
    (setEntry k v es).lookup k' = if k' = k then some v else es.lookup k' := by
  induction es with
  | nil => rw [setEntry, lookup_cons]
  | cons e es ih =>
    unfold setEntry
    by_cases he : e.1 = k
    · rw [if_pos he, lookup_cons, lookup_cons, he]
      by_cases h : k' = k <;> simp [h]
    · rw [if_neg he, lookup_cons, lookup_cons, ih]
      by_cases h : k' = e.1
      · have hk : k' ≠ k := fun hk => he (h.symm.trans hk)
        rw [if_pos h, if_neg hk, if_pos h]
      · rw [if_neg h, if_neg h]

@[simp] lemma get?_empty (k : κ) : (empty : Dict κ ν).get? k = none := rfl

lemma get?_set (d : Dict κ ν) (k k' : κ) (v : ν) : (d.set k v).get? k' = if k' = k then some v else d.get? k' :=
  lookup_setEntry k k' v d.entries

@[simp] lemma get?_set_self (d : Dict κ ν) (k : κ) (v : ν) : (d.set k v).get? k = some v := by
  simp [get?_set]

lemma get?_set_ne (d : Dict κ ν) {k' : κ} (v : ν) (h : k' ≠ k) : (d.set k v).get? k' = d.get? k' := by
  simp [get?_set, h]

omit [DecidableEq κ] in
lemma keys_nodup (d : Dict κ ν) : d.keys.Nodup := d.nodup

lemma keys_set (d : Dict κ ν) (k : κ) (v : ν) : (d.set k v).keys = if k ∈ d.keys then d.keys else d.keys ++ [k] :=
  map_fst_setEntry k v d.entries

lemma mem_keys_set {k' : κ} : k' ∈ (d.set k v).keys ↔ k' = k ∨ k' ∈ d.keys := by
  rw [keys_set]
  split
  · rename_i hk
    constructor
    · exact .inr
    · rintro (rfl | h)
      · exact hk
      · exact h
  · rw [List.mem_append, List.mem_singleton, or_comm]

lemma lookup_eq_some (h : (es.map Prod.fst).Nodup) : es.lookup k = some v ↔ (k, v) ∈ es := by
  induction es with
  | nil => simp
  | cons e es ih =>
    rw [List.map_cons, List.nodup_cons] at h
    rw [lookup_cons, List.mem_cons]
    by_cases hk : k = e.1
    · have hout : (k, v) ∉ es := by
        intro hm
        exact h.1 (hk ▸ List.mem_map_of_mem (f := Prod.fst) hm)
      rw [if_pos hk, or_iff_left hout, Prod.ext_iff, Option.some_inj]
      simp [hk, eq_comm]
    · have hne : (k, v) ≠ e := fun he => hk (by rw [← he])
      rw [if_neg hk, ih h.2, or_iff_right hne]

lemma get?_eq_some : d.get? k = some v ↔ (k, v) ∈ d.entries :=
  lookup_eq_some d.nodup

lemma get?_eq_none : d.get? k = none ↔ k ∉ d.keys := by
  rw [Option.eq_none_iff_forall_ne_some, keys]
  constructor
  · intro h hk
    obtain ⟨e, he, rfl⟩ := List.mem_map.mp hk
    exact h e.2 (get?_eq_some.mpr he)
  · intro h v hv
    exact h (List.mem_map_of_mem (f := Prod.fst) (get?_eq_some.mp hv))

lemma filter_key_eq (h : (es.map Prod.fst).Nodup) (k : κ) :
    (es.filter fun e => e.1 = k) = (es.lookup k).toList.map fun v => (k, v) := by
  induction es with
  | nil => rfl
  | cons e es ih =>
    rw [List.map_cons, List.nodup_cons] at h
    rw [lookup_cons, List.filter_cons]
    by_cases hk : k = e.1
    · subst hk
      have hr : (es.filter fun e' => e'.1 = e.1) = [] := by
        refine List.filter_eq_nil_iff.mpr ?_
        intro e' he' heq
        exact h.1 (of_decide_eq_true heq ▸ List.mem_map_of_mem (f := Prod.fst) he')
      rw [if_pos (decide_eq_true rfl), if_pos rfl, hr]
      rfl
    · rw [if_neg fun h => hk (of_decide_eq_true h).symm, if_neg hk, ih h.2]

lemma entries_filter_key (d : Dict κ ν) (k : κ) :
    (d.entries.filter fun e => e.1 = k) = (d.get? k).toList.map fun v => (k, v) :=
  filter_key_eq d.nodup k

omit [DecidableEq κ] in
private lemma perm_middle_append (xs ys zs : List ν) : (xs ++ ys ++ zs).Perm (xs ++ zs ++ ys) := by
  rw [List.append_assoc, List.append_assoc]
  exact (List.perm_append_comm).append_left xs

lemma perm_flatMap_setEntry_append (k : κ) (xs : List ν) (es : List (κ × List ν)) :
    ((setEntry k ((es.lookup k).getD [] ++ xs) es).flatMap Prod.snd).Perm (es.flatMap Prod.snd ++ xs) := by
  induction es with
  | nil => simp [setEntry]
  | cons e es ih =>
    rw [setEntry, lookup_cons]
    by_cases he : e.1 = k
    · rw [if_pos he, if_pos he.symm, List.flatMap_cons, List.flatMap_cons]
      exact perm_middle_append _ _ _
    · rw [if_neg he, if_neg fun h => he h.symm, List.flatMap_cons, List.flatMap_cons, List.append_assoc]
      exact ih.append_left e.2

lemma perm_flatMap_extend (d : Dict κ (List ν)) (k : κ) (xs : List ν) :
    ((d.set k ((d.get? k).getD [] ++ xs)).entries.flatMap Prod.snd).Perm (d.entries.flatMap Prod.snd ++ xs) :=
  perm_flatMap_setEntry_append k xs d.entries

lemma entries_set_of_notMem (v : ν) (h : k ∉ d.keys) : (d.set k v).entries = d.entries ++ [(k, v)] := by
  obtain ⟨es, hn⟩ := d
  unfold keys at h
  simp only [set] at h ⊢
  clear hn
  induction es with
  | nil => rfl
  | cons e es ih =>
    rw [List.map_cons, List.mem_cons, not_or] at h
    rw [setEntry, if_neg fun he => h.1 he.symm, ih h.2, List.cons_append]

lemma entries_update_of_nodup (hn : (es.map Prod.fst).Nodup) (hd : ∀ e ∈ es, e.1 ∉ d.keys) :
    (d.update es).entries = d.entries ++ es := by
  induction es generalizing d with
  | nil => simp [update]
  | cons e es ih =>
    rw [List.map_cons, List.nodup_cons] at hn
    have he : e.1 ∉ d.keys := hd e (by simp)
    have hr : ∀ e' ∈ es, e'.1 ∉ (d.set e.1 e.2).keys := by
      intro e' he' hmem
      rcases mem_keys_set.mp hmem with h | h
      · exact hn.1 (h ▸ List.mem_map_of_mem (f := Prod.fst) he')
      · exact hd e' (by simp [he']) h
    show ((d.set e.1 e.2).update es).entries = d.entries ++ e :: es
    rw [ih hn.2 hr, entries_set_of_notMem e.2 he, List.append_assoc]
    rfl

lemma mem_keys_update : k ∈ (d.update es).keys ↔ k ∈ d.keys ∨ k ∈ es.map Prod.fst := by
  induction es generalizing d with
  | nil => simp [update]
  | cons e es ih =>
    show k ∈ ((d.set e.1 e.2).update es).keys ↔ _
    rw [ih, mem_keys_set, List.map_cons, List.mem_cons]
    tauto

lemma mem_keys_ofList : k ∈ (ofList es).keys ↔ k ∈ es.map Prod.fst := by
  rw [ofList, mem_keys_update]
  simp [keys, empty]

lemma length_keys_update_le (d : Dict κ ν) (es : List (κ × ν)) :
    (d.update es).keys.length ≤ d.keys.length + es.length := by
  induction es generalizing d with
  | nil => simp [update]
  | cons e es ih =>
    have hset : (d.set e.1 e.2).keys.length ≤ d.keys.length + 1 := by
      rw [keys_set]
      split <;> simp
    have h := ih (d.set e.1 e.2)
    show ((d.set e.1 e.2).update es).keys.length ≤ _
    rw [List.length_cons]
    omega

lemma length_keys_ofList_le (es : List (κ × ν)) : (ofList es).keys.length ≤ es.length := by
  have h := length_keys_update_le (empty : Dict κ ν) es
  have h0 : (empty : Dict κ ν).keys.length = 0 := rfl
  rw [h0, Nat.zero_add] at h
  exact h

lemma entries_ofList (hn : (es.map Prod.fst).Nodup) : (ofList es).entries = es := by
  rw [ofList, entries_update_of_nodup hn fun e _ => by simp [keys, empty]]
  rfl

lemma update_empty (d : Dict κ ν) : empty.update d.entries = d := ext (entries_ofList d.nodup)

lemma setEntry_of_mem (hn : (es.map Prod.fst).Nodup) (h : e ∈ es) : setEntry e.1 e.2 es = es := by
  induction es with
  | nil => cases h
  | cons e' es ih =>
    rw [List.map_cons, List.nodup_cons] at hn
    unfold setEntry
    rcases List.mem_cons.mp h with rfl | h
    · rw [if_pos rfl]
    · have hne : e'.1 ≠ e.1 := by
        intro heq
        exact hn.1 (heq ▸ List.mem_map_of_mem (f := Prod.fst) h)
      rw [if_neg hne, ih hn.2 h]

lemma set_of_get? (h : d.get? k = some v) : d.set k v = d :=
  ext (setEntry_of_mem d.nodup (get?_eq_some.mp h))

lemma update_self (d : Dict κ ν) : d.update d.entries = d := by
  have hgen : ∀ es : List (κ × ν), (∀ e ∈ es, e ∈ d.entries) → d.update es = d := by
    intro es hes
    induction es with
    | nil => rfl
    | cons e es ih =>
      have hset : d.set e.1 e.2 = d := set_of_get? (get?_eq_some.mpr (hes e (.head _)))
      show (d.set e.1 e.2).update es = d
      rw [hset]
      exact ih fun e' he' => hes e' (List.mem_cons_of_mem e he')
  exact hgen d.entries fun _ he => he

lemma mem_entries_update (h : e ∈ (d.update es).entries) : e ∈ d.entries ∨ e ∈ es := by
  induction es generalizing d with
  | nil => exact .inl h
  | cons e' es ih =>
    rcases ih h with hd | hes
    · have hget : (d.set e'.1 e'.2).get? e.1 = some e.2 := get?_eq_some.mpr hd
      by_cases hk : e.1 = e'.1
      · rw [hk, get?_set_self] at hget
        have he : e = e' := Prod.ext hk (Option.some.inj hget).symm
        exact .inr (by simp [he])
      · rw [get?_set_ne _ _ hk] at hget
        exact .inl (get?_eq_some.mp hget)
    · exact .inr (.tail _ hes)

lemma mem_entries_ofList (h : e ∈ (ofList es).entries) : e ∈ es := by
  rcases mem_entries_update h with h | h
  · cases h
  · exact h

lemma pairwise_keys_update {r : κ → κ → Prop} (h : (d.keys ++ es.map Prod.fst).Pairwise r) :
    (d.update es).keys.Pairwise r := by
  induction es generalizing d with
  | nil => simpa [update] using h
  | cons e es ih =>
    refine ih (d := d.set e.1 e.2) ?_
    rw [keys_set]
    split
    · exact h.sublist (List.Sublist.append_left (List.sublist_cons_self _ _) _)
    · simpa [List.append_assoc] using h

lemma get?_update (hn : (es.map Prod.fst).Nodup) (k : κ) :
    (d.update es).get? k = (es.lookup k).orElse fun _ => d.get? k := by
  induction es generalizing d with
  | nil => rfl
  | cons e es ih =>
    rw [List.map_cons, List.nodup_cons] at hn
    show ((d.set e.1 e.2).update es).get? k = _
    rw [ih hn.2, lookup_cons, get?_set]
    by_cases hk : k = e.1
    · have hout : es.lookup k = none := by
        rw [List.lookup_eq_none_iff]
        intro p hp
        have : k ≠ p.1 := fun he => hn.1 (hk ▸ he ▸ List.mem_map_of_mem (f := Prod.fst) hp)
        simpa using this
      rw [if_pos hk, hout, if_pos hk]
      rfl
    · rw [if_neg hk, if_neg hk]

lemma lookup_filter (p : κ → Bool) (es : List (κ × ν)) (k : κ) :
    (es.filter fun e => p e.1).lookup k = if p k then es.lookup k else none := by
  induction es with
  | nil => simp
  | cons e es ih =>
    rw [List.filter_cons, lookup_cons]
    by_cases hk : k = e.1
    · subst hk
      by_cases hp : p e.1
      · rw [if_pos hp, lookup_cons, if_pos rfl, if_pos rfl, if_pos hp]
      · rw [if_neg hp, ih, if_neg hp, if_neg hp]
    · split
      · rw [lookup_cons, if_neg hk, ih]
      · exact ih

lemma get?_erase (d : Dict κ ν) (k k' : κ) : (d.erase k).get? k' = if k' = k then none else d.get? k' := by
  show (d.entries.filter fun e => e.1 ≠ k).lookup k' = if k' = k then none else d.entries.lookup k'
  rw [lookup_filter fun x => decide (x ≠ k)]
  by_cases h : k' = k <;> simp [h]

omit [DecidableEq κ] in
lemma values_mapValues (d : Dict κ ν) (f : ν → μ) : (d.mapValues f).values = d.values.map f := by
  show (d.entries.map fun e => (e.1, f e.2)).map Prod.snd = (d.entries.map Prod.snd).map f
  rw [List.map_map, List.map_map]
  rfl

lemma values_ofList_zip {ks : List κ} {vs : List ν} (hn : ks.Nodup) (hlen : vs.length = ks.length) :
    (ofList (ks.zip vs)).values = vs := by
  have hfst : ((ks.zip vs).map Prod.fst) = ks := List.map_fst_zip (by omega)
  unfold values
  rw [entries_ofList (by rw [hfst]; exact hn)]
  exact List.map_snd_zip (by omega)

lemma get?_mapValues (d : Dict κ ν) (f : ν → μ) (k : κ) : (d.mapValues f).get? k = (d.get? k).map f := by
  show (d.entries.map fun e => (e.1, f e.2)).lookup k = (d.entries.lookup k).map f
  induction d.entries with
  | nil => rfl
  | cons e es ih =>
    rw [List.map_cons, lookup_cons, lookup_cons, ih]
    by_cases hk : k = e.1 <;> simp [hk]

lemma mapValues_set (d : Dict κ ν) (f : ν → μ) (k : κ) (v : ν) :
    (d.set k v).mapValues f = (d.mapValues f).set k (f v) := by
  refine ext ?_
  show (setEntry k v d.entries).map _ = setEntry k (f v) (d.entries.map _)
  induction d.entries with
  | nil => rfl
  | cons e es ih =>
    rw [List.map_cons, setEntry, setEntry]
    by_cases hk : e.1 = k
    · rw [if_pos hk, if_pos hk, List.map_cons]
    · rw [if_neg hk, if_neg hk, List.map_cons, ih]

lemma mapValues_erase (d : Dict κ ν) (f : ν → μ) (k : κ) : (d.erase k).mapValues f = (d.mapValues f).erase k := by
  refine ext ?_
  show (d.entries.filter _).map _ = (d.entries.map _).filter _
  rw [List.filter_map]
  rfl

omit [DecidableEq κ] in
lemma keys_mapValues (d : Dict κ ν) (f : ν → μ) : (d.mapValues f).keys = d.keys := by
  show (d.entries.map _).map Prod.fst = d.entries.map Prod.fst
  rw [List.map_map]
  rfl

end Dict

end Qmtl.Lib

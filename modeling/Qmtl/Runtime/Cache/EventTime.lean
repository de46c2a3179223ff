import Qmtl.Runtime.Cache.CacheIsolation
import Qmtl.Lib.StableSort
import Mathlib.Data.List.ReduceOption

/-!
The event time of a pair: the last timestamp that is kept beside its window, what a call does to both, and the watermark
over all pairs.
-/

namespace Qmtl.Runtime.Cache

open Lib

variable {P : Type} {period : ℕ}

/-! ### What is read of a pair -/

lemma get?_setNested {ν : Type} (acc : Dict String (Dict ℕ ν)) (u u' : String) (i i' : ℕ) (v : ν) :
    ((acc.set u' (((acc.get? u').getD Dict.empty).set i' v)).get? u).bind (·.get? i) =
      if (u, i) = (u', i') then some v else (acc.get? u).bind (·.get? i) := by
  rw [Dict.get?_set]
  by_cases hu : u = u'
  · subst hu
    rw [if_pos rfl, Option.bind_some, Dict.get?_set]
    by_cases hi : i = i'
    · rw [if_pos hi, if_pos (by rw [hi])]
    · rw [if_neg hi, if_neg fun h => hi (Prod.mk.inj h).2]
      cases acc.get? u with
      | none => rfl
      | some inner => rfl
  · rw [if_neg hu, if_neg fun h => hu (Prod.mk.inj h).1]

lemma get?_byUpstream {ν : Type} (d : Dict Pair ν) (u : String) (i : ℕ) :
    ((byUpstream d).get? u).bind (·.get? i) = d.get? (u, i) := by
  have hgen : ∀ (es : List (Pair × ν)) (acc : Dict String (Dict ℕ ν)), (es.map Prod.fst).Nodup → ∀ v,
      ((es.foldl (fun result e => result.set e.1.1 (((result.get? e.1.1).getD .empty).set e.1.2 e.2)) acc).get? u).bind
          (·.get? i) = some v ↔
        ((u, i), v) ∈ es ∨ (u, i) ∉ es.map Prod.fst ∧ (acc.get? u).bind (·.get? i) = some v := by
    intro es
    induction es with
    | nil => exact fun acc _ v => ⟨fun h => .inr ⟨List.not_mem_nil, h⟩, fun h => (h.resolve_left List.not_mem_nil).2⟩
    | cons e es ih =>
      intro acc hn v
      obtain ⟨⟨u', i'⟩, v'⟩ := e
      obtain ⟨hnot, hn⟩ := List.nodup_cons.mp hn
      rw [List.foldl_cons, ih _ hn, get?_setNested, List.map_cons, List.mem_cons, List.mem_cons, not_or]
      by_cases hp : (u, i) = (u', i')
      · rw [if_pos hp, hp]
        simp only [Prod.mk.injEq, true_and, not_true_eq_false, false_and, or_false, Option.some.injEq]
        constructor
        · rintro (h | ⟨-, h⟩)
          · exact absurd (List.mem_map_of_mem h) hnot
          · exact .inl h.symm
        · rintro (h | h)
          · exact .inr ⟨hnot, h.symm⟩
          · exact .inl h
      · rw [if_neg hp]
        constructor
        · rintro (h | ⟨h, hacc⟩)
          · exact .inl (.inr h)
          · exact .inr ⟨⟨hp, h⟩, hacc⟩
        · rintro ((h | h) | ⟨⟨-, h⟩, hacc⟩)
          · exact absurd (congrArg Prod.fst h) hp
          · exact .inl h
          · exact .inr ⟨h, hacc⟩
  ext v
  rw [byUpstream, hgen d.entries .empty d.nodup v, Dict.get?_empty, Option.bind_none, Dict.get?_eq_some]
  simp

namespace NodeCache

def lastOf (c : NodeCache P period) (pair : Pair) : Option ℤ :=
  ((c.lastTimestamps.get? pair.1).bind (·.get? pair.2)).join

def itemsOf (c : NodeCache P period) (pair : Pair) : List (Item P) :=
  ((c.buffers.get? pair).map RingBuffer.items).getD []

lemma lastOf_eq (c : NodeCache P period) (pair : Pair) : c.lastOf pair = (c.lastTs.get? pair).join := by
  rw [lastOf, lastTimestamps, get?_byUpstream]

lemma mem_lastTs {c : NodeCache P period} {t : ℤ} :
    t ∈ c.lastTs.values.reduceOption ↔ ∃ pair, c.lastOf pair = some t := by
  rw [List.reduceOption_mem_iff]
  constructor
  · intro ht
    obtain ⟨⟨pair, last⟩, hen, hl⟩ := List.mem_map.mp ht
    exact ⟨pair, by rw [lastOf_eq, Dict.get?_eq_some.mpr hen, Option.join_some, ← hl]⟩
  · rintro ⟨pair, hp⟩
    rw [lastOf_eq] at hp
    obtain ⟨last, hget, rfl⟩ := Option.bind_eq_some_iff.mp hp
    exact List.mem_map.mpr ⟨_, Dict.get?_eq_some.mp hget, rfl⟩

lemma watermark_eq_some {c : NodeCache P period} {lateness w : ℤ} :
    c.watermark lateness = some w ↔ IsLeast {t | ∃ pair, c.lastOf pair = some t} (w + lateness) := by
  have hl : ∀ t, c.lastTs.values.reduceOption.min? = some t ↔ IsLeast {t | ∃ pair, c.lastOf pair = some t} t := by
    intro t
    rw [List.min?_eq_some_iff]
    simp only [IsLeast, lowerBounds, mem_lastTs, Set.mem_ofPred_eq]
  unfold watermark
  rw [Option.map_eq_some_iff]
  constructor
  · rintro ⟨t, ht, rfl⟩
    rw [sub_add_cancel]
    exact (hl t).mp ht
  · intro h
    exact ⟨w + lateness, (hl _).mpr h, add_sub_cancel_right _ _⟩

end NodeCache

/-! ### What a backfill leaves -/

lemma getLast?_lastItems (hp : 0 < period) (xs : List (Item P)) : (lastItems period xs).getLast? = xs.getLast? := by
  rw [lastItems, if_neg hp.ne', List.getLast?_drop]
  split
  · have hnil : xs = [] := List.eq_nil_of_length_eq_zero (by omega)
    rw [hnil, List.getLast?_nil]
  · rfl

lemma mem_keys_setDefaults {d : Dict ℤ P} {items : List (Item P)} {t : ℤ} :
    t ∈ (setDefaults d items).keys ↔ t ∈ d.keys ∨ t ∈ items.map Prod.fst := by
  induction items generalizing d with
  | nil => exact ⟨.inl, fun h => h.resolve_right List.not_mem_nil⟩
  | cons e items ih =>
    rw [setDefaults, List.foldl_cons, ← setDefaults, ih, List.map_cons, List.mem_cons]
    split
    · rename_i hget
      obtain ⟨v, hv⟩ := Option.isSome_iff_exists.mp hget
      have hmem : e.1 ∈ d.keys := List.mem_map.mpr ⟨_, Dict.get?_eq_some.mp hv, rfl⟩
      constructor
      · rintro (h | h)
        · exact .inl h
        · exact .inr (.inr h)
      · rintro (h | rfl | h)
        · exact .inl h
        · exact .inl hmem
        · exact .inr h
    · rw [Dict.mem_keys_set, or_comm (a := t = e.1), or_assoc]

def mergedItems (period : ℕ) (existing items : List (Item P)) : List (Item P) :=
  lastItems period (sortedItems (setDefaults (Dict.ofList existing) items))

variable {existing items : List (Item P)}

lemma le_last_of_mem_merged (hp : 0 < period) {e : Item P}
    (h : e ∈ existing ∨ e ∈ items) : ∃ last, (mergedItems period existing items).getLast? = some last ∧ e.1 ≤ last.1 := by
  have : IsTrans (Item P) fun e e' => e.1 ≤ e'.1 := ⟨fun _ _ _ => le_trans⟩
  have : Std.Total fun e e' : Item P => e.1 ≤ e'.1 := ⟨fun _ _ => le_total _ _⟩
  have hkey : e.1 ∈ (setDefaults (Dict.ofList existing) items).keys := by
    rw [mem_keys_setDefaults, Dict.mem_keys_ofList]
    exact h.imp List.mem_map_of_mem List.mem_map_of_mem
  obtain ⟨e', he', hfst⟩ := List.mem_map.mp hkey
  have hmem := mem_sortedItems.mpr he'
  have hs : (sortedItems (setDefaults (Dict.ofList existing) items)).Pairwise fun e e' => e.1 ≤ e'.1 :=
    List.pairwise_insertionSort _ _
  rw [mergedItems, getLast?_lastItems hp]
  cases hl : (sortedItems (setDefaults (Dict.ofList existing) items)).getLast? with
  | none =>
    rw [List.getLast?_eq_none_iff.mp hl] at hmem
    cases hmem
  | some last =>
    have hle := rel_getLast?_of_pairwise (r := fun e e' : Item P => e.1 ≤ e'.1) (fun _ => le_rfl) hs hl e' hmem
    exact ⟨last, rfl, hfst ▸ hle⟩

lemma mem_of_mem_merged {e : Item P} (h : e ∈ mergedItems period existing items) :
    e ∈ existing ∨ e ∈ items := mem_merged h

lemma mergedItems_nil : mergedItems period ([] : List (Item P)) [] = [] := by
  refine List.eq_nil_iff_forall_not_mem.mpr fun e he => ?_
  rcases mem_of_mem_merged he with he | he
  · exact List.not_mem_nil he
  · exact List.not_mem_nil he

/-! ### What a call writes -/

namespace NodeCache

structure Written (c c' : NodeCache P period) (pair : Pair) (items : List (Item P)) (last : Option ℤ) : Prop where
  items : c'.itemsOf pair = items
  last : c'.lastOf pair = last
  others : ∀ other, other ≠ pair →
    c'.buffers.get? other = c.buffers.get? other ∧ c'.lastTs.get? other = c.lastTs.get? other

def SamePairs (c : NodeCache P period) : Prop :=
  ∀ pair, (c.buffers.get? pair).isSome = (c.lastTs.get? pair).isSome

lemma Written.refl (c : NodeCache P period) (pair : Pair) : Written c c pair (c.itemsOf pair) (c.lastOf pair) :=
  ⟨rfl, rfl, fun _ _ => ⟨rfl, rfl⟩⟩

variable {c c' : NodeCache P period} {i : ℕ}

variable {pair : Pair} {buffer : RingBuffer P period}

lemma itemsOf_of_get? (h : c.buffers.get? pair = some buffer) : c.itemsOf pair = buffer.items := by
  rw [itemsOf, h, Option.map_some, Option.getD_some]

lemma ensureBuffer_written (hpr : c.SamePairs) (h : c.ensureBuffer pair = some (buffer, c')) :
    buffer.items = c.itemsOf pair ∧ Written c c' pair (c.itemsOf pair) (c.lastOf pair) ∧ c'.SamePairs ∧
      (c'.lastTs.get? pair).isSome := by
  have hp := hpr pair
  unfold ensureBuffer at h
  split at h
  · rename_i buffer' hget
    cases h
    rw [hget] at hp
    exact ⟨(itemsOf_of_get? hget).symm, .refl c pair, hpr, hp.symm⟩
  · rename_i hget
    obtain ⟨buffer', hnew, he⟩ := Option.map_eq_some_iff.mp h
    cases he
    have hempty := RingBuffer.items_new hnew
    have hit : c.itemsOf pair = [] := by rw [itemsOf, hget, Option.map_none, Option.getD_none]
    have hl : c.lastOf pair = none := by
      rw [hget] at hp
      have hn : c.lastTs.get? pair = none := Option.not_isSome_iff_eq_none.mp fun hs => by
        rw [← hp] at hs
        cases hs
      rw [lastOf_eq, hn, Option.join_none]
    refine ⟨hempty.trans hit.symm, ⟨?_, ?_, ?_⟩, ?_, ?_⟩
    · rw [itemsOf_of_get? (Dict.get?_set_self _ _ _), hempty, hit]
    · rw [lastOf_eq, Dict.get?_set_self, hl]
      rfl
    · exact fun other hne => ⟨Dict.get?_set_ne _ _ hne, Dict.get?_set_ne _ _ hne⟩
    · intro other
      rw [Dict.get?_set, Dict.get?_set]
      split
      · rfl
      · exact hpr other
    · rw [Dict.get?_set_self]
      rfl

lemma Written.after {c₁ : NodeCache P period} {xs₁ xs : List (Item P)} {l₁ l : Option ℤ}
    (h : Written c c₁ pair xs₁ l₁) (h' : Written c₁ c' pair xs l) : Written c c' pair xs l where
  items := h'.items
  last := h'.last
  others := fun other hne =>
    ⟨(h'.others other hne).1.trans (h.others other hne).1, (h'.others other hne).2.trans (h.others other hne).2⟩

lemma Written.samePairs {xs : List (Item P)} {l : Option ℤ} (h : Written c c' pair xs l)
    (hp : c.SamePairs) (hpr : (c'.buffers.get? pair).isSome = (c'.lastTs.get? pair).isSome) : c'.SamePairs := by
  intro other
  by_cases hne : other = pair
  · rw [hne]
    exact hpr
  · rw [(h.others other hne).1, (h.others other hne).2]
    exact hp other

lemma lastTs_trackAppend (c : NodeCache P period) (pair : Pair) (bucket : ℤ) :
    (c.trackAppend pair bucket).lastTs.get? pair = some (some ((c.lastOf pair).elim bucket (max bucket))) ∧
      ∀ other, other ≠ pair → (c.trackAppend pair bucket).lastTs.get? other = c.lastTs.get? other := by
  rw [lastOf_eq]
  unfold trackAppend
  cases hl : (c.lastTs.get? pair).join with
  | none => exact ⟨Dict.get?_set_self _ _ _, fun other hne => Dict.get?_set_ne _ _ hne⟩
  | some prev =>
    dsimp only
    split
    · rename_i hlt
      refine ⟨?_, fun _ _ => rfl⟩
      rw [Option.elim_some, max_eq_right hlt.le]
      exact Option.join_eq_some_iff.mp hl
    · rename_i hge
      refine ⟨?_, fun other hne => Dict.get?_set_ne _ _ hne⟩
      rw [Dict.get?_set_self, Option.elim_some, max_eq_left (not_lt.mp hge)]

lemma append_written (hpr : c.SamePairs) (u : String) (t : ℤ) (payload : P) (hi : i ≠ 0) (hp : 0 < period) :
    Written c (c.append u i t payload).state (u, i) (push period (c.itemsOf (u, i)) (bucketOf i t, payload))
      (some ((c.lastOf (u, i)).elim (bucketOf i t) (max (bucketOf i t)))) ∧
    (c.append u i t payload).state.SamePairs := by
  obtain ⟨buffer, c₁, hen⟩ := c.exists_ensureBuffer hp (u, i)
  obtain ⟨hit, hw, hp₁, hk⟩ := ensureBuffer_written hpr hen
  obtain ⟨hl, hot⟩ := c₁.lastTs_trackAppend (u, i) (bucketOf i t)
  rw [append, hen]
  dsimp only
  rw [if_neg hi]
  have hs : Written c₁ { c₁.trackAppend (u, i) (bucketOf i t) with
      buffers := (c₁.trackAppend (u, i) (bucketOf i t)).buffers.set (u, i) (buffer.append (bucketOf i t) payload) } (u, i)
      (push period (c.itemsOf (u, i)) (bucketOf i t, payload))
      (some ((c.lastOf (u, i)).elim (bucketOf i t) (max (bucketOf i t)))) := by
    refine ⟨?_, ?_, fun other hne => ⟨?_, hot other hne⟩⟩
    · rw [itemsOf_of_get? (Dict.get?_set_self _ _ _), RingBuffer.items_append, hit]
    · rw [lastOf_eq]
      rw [hl, Option.join_some, hw.last]
    · rw [Dict.get?_set_ne _ _ hne, (of_trackAppend _ _ _).2.2]
  refine ⟨hw.after hs, hs.samePairs hp₁ ?_⟩
  rw [Dict.get?_set_self, hl]
  rfl

lemma append_raised (hp : c.SamePairs) (u : String) (t : ℤ) (payload : P) (h : i = 0 ∨ period = 0) :
    Written c (c.append u i t payload).state (u, i) (c.itemsOf (u, i)) (c.lastOf (u, i)) ∧
      (c.append u i t payload).state.SamePairs := by
  unfold append
  cases hen : c.ensureBuffer (u, i) with
  | none => exact ⟨.refl c _, hp⟩
  | some e =>
    obtain ⟨buffer, c₁⟩ := e
    obtain ⟨-, hw, hp₁, -⟩ := ensureBuffer_written hp hen
    dsimp only
    rw [if_pos (h.resolve_right buffer.pos.ne')]
    exact ⟨hw, hp₁⟩

lemma lastTs_trackBackfill (c : NodeCache P period) (pair : Pair) (merged : List (Item P)) :
    (c.trackBackfill pair merged).lastTs.get? pair =
        (merged.getLast?.map fun last => some last.1).or (c.lastTs.get? pair) ∧
      ∀ other, other ≠ pair → (c.trackBackfill pair merged).lastTs.get? other = c.lastTs.get? other := by
  unfold trackBackfill
  cases merged.getLast? with
  | none => exact ⟨rfl, fun _ _ => rfl⟩
  | some last =>
    rw [Option.map_some, Option.some_or, Dict.get?_set_self]
    refine ⟨rfl, fun other hne => ?_⟩
    rw [Dict.get?_set_ne _ _ hne]
    split
    · rfl
    · split <;> rfl

def bucketed (i : ℕ) (items : List (Item P)) : List (Item P) := items.map fun e => (bucketOf i e.1, e.2)

lemma backfillBulk_written (hpr : c.SamePairs) (u : String) {items : List (Item P)} (hi : ¬ (i = 0 ∧ items ≠ []))
    (hp : 0 < period) :
    Written c (c.backfillBulk u i items).state (u, i) (mergedItems period (c.itemsOf (u, i)) (bucketed i items))
      (((mergedItems period (c.itemsOf (u, i)) (bucketed i items)).getLast?.map Prod.fst).or (c.lastOf (u, i))) ∧
    (c.backfillBulk u i items).state.SamePairs := by
  obtain ⟨buffer, c₁, hen⟩ := c.exists_ensureBuffer hp (u, i)
  obtain ⟨hit, hw, hp₁, hk⟩ := ensureBuffer_written hpr hen
  have hb : bucketize i items = some (bucketed i items) := if_neg hi
  unfold backfillBulk mergeBackfill
  dsimp only
  rw [hen, hb]
  dsimp only [Option.map_some]
  rw [hit, ← mergedItems]
  generalize hm : mergedItems period (c.itemsOf (u, i)) (bucketed i items) = merged
  generalize hmr : c₁.markBackfill (u, i) _ = c₂
  have hc₂ : c₂.buffers = c₁.buffers ∧ c₂.lastTs = c₁.lastTs := by
    rw [← hmr]
    exact ⟨rfl, rfl⟩
  obtain ⟨hl, hot⟩ :=
    { c₂ with buffers := c₂.buffers.set (u, i) (buffer.replace merged) }.lastTs_trackBackfill (u, i) merged
  have hlen : lastItems period merged = merged := by
    refine lastItems_of_length_le ?_
    rw [← hm, mergedItems, length_lastItems hp]
    exact Nat.min_le_right _ _
  have hs : Written c₁ ({ c₂ with buffers := c₂.buffers.set (u, i) (buffer.replace merged) }.trackBackfill (u, i)
      merged) (u, i) merged ((merged.getLast?.map Prod.fst).or (c.lastOf (u, i))) := by
    refine ⟨?_, ?_, fun other hne => ⟨?_, ?_⟩⟩
    · refine (@itemsOf_of_get? _ _ _ _ (buffer.replace merged) ?_).trans ?_
      · rw [(of_trackBackfill _ _ _).2.2]
        exact Dict.get?_set_self _ _ _
      · rw [RingBuffer.items_replace, hlen]
    · rw [lastOf_eq, hl, ← hw.last, lastOf_eq]
      rw [hc₂.2]
      cases merged.getLast? with
      | none => rfl
      | some last => rfl
    · rw [(of_trackBackfill _ _ _).2.2]
      rw [Dict.get?_set_ne _ _ hne, hc₂.1]
    · rw [hot other hne]
      rw [hc₂.2]
  refine ⟨hw.after hs, hs.samePairs hp₁ ?_⟩
  rw [(of_trackBackfill _ _ _).2.2, hl]
  rw [Dict.get?_set_self, hc₂.2]
  cases merged.getLast? with
  | none => exact hk.symm
  | some last => rfl

lemma backfillBulk_raised (hp : c.SamePairs) (u : String) {items : List (Item P)}
    (h : i = 0 ∧ items ≠ [] ∨ period = 0) :
    Written c (c.backfillBulk u i items).state (u, i) (c.itemsOf (u, i)) (c.lastOf (u, i)) ∧
      (c.backfillBulk u i items).state.SamePairs := by
  unfold backfillBulk
  dsimp only
  cases hen : c.ensureBuffer (u, i) with
  | none => exact ⟨.refl c _, hp⟩
  | some e =>
    obtain ⟨buffer, c₁⟩ := e
    obtain ⟨-, hw, hp₁, -⟩ := ensureBuffer_written hp hen
    have hb : bucketize i items = none := if_pos (h.resolve_right buffer.pos.ne')
    dsimp only [mergeBackfill]
    rw [hb]
    exact ⟨hw, hp₁⟩

end NodeCache

end Qmtl.Runtime.Cache

import Qmtl.Runtime.Cache.Watermarks
import Mathlib.Data.Finset.Sort

/-!
The window of a pair as a log that is cut to its newest entries: what `RingBuffer` holds after any calls, and what a
backfill leaves of the window and of its own items.
-/

namespace Qmtl.Runtime.Cache

open Lib

variable {P : Type} {period : ℕ}

/-! ### The log -/

def timestampsOf (old new : List (Item P)) : Finset ℤ := ((old ++ new).map Prod.fst).toFinset

def payloadAt (old new : List (Item P)) (t : ℤ) : Option P :=
  ((old.reverse.find? fun e => e.1 = t).or (new.find? fun e => e.1 = t)).map Prod.snd

def mergedLog (period : ℕ) (old new : List (Item P)) : List (Item P) :=
  (lastItems period (timestampsOf old new).sort).filterMap fun t => (payloadAt old new t).map (t, ·)

/-- What is asked of a ring buffer; a merge replaces its contents by what `BackfillMerger` makes of them. -/
inductive BufferCall (P : Type) where
  | append (timestamp : ℤ) (payload : P)
  | replace (items : List (Item P))
  | merge (interval : ℕ) (items : List (Item P))

def RingBuffer.call (b : RingBuffer P period) : BufferCall P → RingBuffer P period
  | .append timestamp payload => b.append timestamp payload
  | .replace items => b.replace items
  | .merge interval items =>
    match mergeBackfill b interval items with
    | none => b
    | some result => b.replace result.mergedItems

def logCall (period : ℕ) (log : List (Item P)) : BufferCall P → List (Item P)
  | .append timestamp payload => log ++ [(timestamp, payload)]
  | .replace items => items
  | .merge interval items =>
    match bucketize interval items with
    | none => log
    | some bucketed => mergedLog period (lastItems period log) bucketed

/-- A ring buffer holds the newest entries of a log. -/
structure RingBuffer.Holds (b : RingBuffer P period) (log : List (Item P)) : Prop where
  items : b.items = lastItems period log
  latest : b.latest = log.getLast?
  ordered : b.orderedArray = List.replicate (period - b.items.length) none ++ b.items.map some
  offset : b.offset < period

/-- A window that a backfill leaves: the greatest timestamps of the old entries and of the new ones, each with the payload
it had where it was there. -/
structure MergedWindow (period : ℕ) (old new window : List (Item P)) : Prop where
  timestamps : window.map Prod.fst = lastItems period (timestampsOf old new).sort
  increasing : (window.map Prod.fst).Pairwise (· < ·)
  payloads : ∀ e ∈ window, payloadAt old new e.1 = some e.2
  kept : ∀ e ∈ window, e.1 ∈ old.map Prod.fst → e ∈ old

/-! ### What a merge leaves -/

lemma mem_timestampsOf {old new : List (Item P)} {t : ℤ} :
    t ∈ timestampsOf old new ↔ t ∈ old.map Prod.fst ∨ t ∈ new.map Prod.fst := by
  rw [timestampsOf, List.mem_toFinset, List.map_append, List.mem_append]

lemma get?_ofList_items (es : List (Item P)) (t : ℤ) :
    (Dict.ofList es).get? t = (es.reverse.find? fun e => e.1 = t).map Prod.snd := by
  induction es using List.reverseRecOn with
  | nil => rfl
  | append_singleton es e ih =>
    have hset : Dict.ofList (es ++ [e]) = (Dict.ofList es).set e.1 e.2 := List.foldl_concat ..
    rw [hset, Dict.get?_set, ih, List.reverse_append, List.reverse_singleton, List.singleton_append, List.find?_cons]
    by_cases h : t = e.1
    · simp [h]
    · simp [h, Ne.symm h]

lemma get?_setDefaults (d : Dict ℤ P) (items : List (Item P)) (t : ℤ) :
    (setDefaults d items).get? t = (d.get? t).or ((items.find? fun e => e.1 = t).map Prod.snd) := by
  induction items generalizing d with
  | nil => rw [List.find?_nil, Option.map_none, Option.or_none]; rfl
  | cons e items ih =>
    rw [setDefaults, List.foldl_cons, ← setDefaults, ih, List.find?_cons]
    by_cases h : e.1 = t
    · subst h
      cases hget : d.get? e.1 with
      | none => simp
      | some v => simp [hget]
    · have hother : (d.set e.1 e.2).get? t = d.get? t := Dict.get?_set_ne d e.2 (Ne.symm h)
      simp only [h, decide_false]
      split
      · rfl
      · rw [hother]

lemma get?_merged (old new : List (Item P)) (t : ℤ) :
    (setDefaults (Dict.ofList old) new).get? t = payloadAt old new t := by
  rw [get?_setDefaults, get?_ofList_items, payloadAt, Option.map_or]

lemma map_fst_sortedItems (d : Dict ℤ P) : (sortedItems d).map Prod.fst = d.keys.toFinset.sort := by
  have hp : ((sortedItems d).map Prod.fst).Perm d.keys := (List.perm_insertionSort _ _).map _
  have hle : ((sortedItems d).map Prod.fst).Pairwise (· ≤ ·) := by
    have : IsTrans (Item P) fun e e' => e.1 ≤ e'.1 := ⟨fun _ _ _ => le_trans⟩
    have : Std.Total fun e e' : Item P => e.1 ≤ e'.1 := ⟨fun _ _ => le_total _ _⟩
    rw [List.pairwise_map]
    exact List.pairwise_insertionSort _ _
  have hlt := hle.sortedLE.sortedLT_of_nodup (hp.nodup_iff.mpr d.keys_nodup)
  refine hlt.eq_of_mem_iff (Finset.sortedLT_sort _) fun t => ?_
  rw [hp.mem_iff, Finset.mem_sort, List.mem_toFinset]

lemma map_lastItems {α β : Type} (f : α → β) (n : ℕ) (xs : List α) : (lastItems n xs).map f = lastItems n (xs.map f) := by
  unfold lastItems
  split
  · rfl
  · rw [List.map_drop, List.length_map]

lemma mergedWindow_mergedItems (old new : List (Item P)) : MergedWindow period old new (mergedItems period old new) := by
  have hkeys : (setDefaults (Dict.ofList old) new).keys.toFinset = timestampsOf old new := by
    ext t
    rw [List.mem_toFinset, mem_keys_setDefaults, Dict.mem_keys_ofList, mem_timestampsOf]
  have ht : (mergedItems period old new).map Prod.fst = lastItems period (timestampsOf old new).sort := by
    rw [mergedItems, map_lastItems, map_fst_sortedItems, hkeys]
  have hp : ∀ e ∈ mergedItems period old new, payloadAt old new e.1 = some e.2 := by
    intro e he
    rw [← get?_merged, Dict.get?_eq_some]
    exact mem_sortedItems.mp ((lastItems_sublist _ _).subset he)
  refine ⟨ht, ?_, hp, ?_⟩
  · rw [ht]
    exact (Finset.sortedLT_sort _).pairwise.sublist (lastItems_sublist _ _)
  · intro e he hold
    have hpl := hp e he
    cases hf : old.reverse.find? fun o => o.1 = e.1 with
    | none =>
      obtain ⟨o, ho, hfst⟩ := List.mem_map.mp hold
      have hn := List.find?_eq_none.mp hf o (List.mem_reverse.mpr ho)
      exact absurd (decide_eq_true hfst) hn
    | some o =>
      rw [payloadAt, hf, Option.some_or, Option.map_some] at hpl
      have hfst : o.1 = e.1 := of_decide_eq_true (@List.find?_some _ (fun q : Item P => decide (q.1 = e.1)) _ _ hf)
      have hsnd : o.2 = e.2 := Option.some.inj hpl
      have ho := List.mem_reverse.mp (List.mem_of_find?_eq_some hf)
      rwa [← Prod.ext hfst hsnd]

lemma filterMap_payloads {window : List (Item P)} {payload : ℤ → Option P}
    (h : ∀ e ∈ window, payload e.1 = some e.2) :
    (window.map Prod.fst).filterMap (fun t => (payload t).map (t, ·)) = window := by
  induction window with
  | nil => rfl
  | cons e window ih =>
    rw [List.map_cons, List.filterMap_cons, h e List.mem_cons_self, Option.map_some,
      ih fun e' he' => h e' (.tail _ he')]

lemma mergedItems_eq_mergedLog (old new : List (Item P)) : mergedItems period old new = mergedLog period old new := by
  obtain ⟨ht, -, hp, -⟩ := @mergedWindow_mergedItems _ period old new
  rw [mergedLog, ← ht, filterMap_payloads hp]

/-! ### What a ring buffer holds -/

lemma lastItems_concat (hp : 0 < period) (log : List (Item P)) (e : Item P) :
    lastItems period (log ++ [e]) = push period (lastItems period log) e := by
  have hlen := length_lastItems hp log
  rcases Nat.lt_or_ge log.length period with hlt | hge
  · rw [lastItems_of_length_le hlt.le, push_of_length_lt hlt, lastItems_of_length_le]
    rw [List.length_append, List.length_singleton]
    exact hlt
  · have hs : (log ++ [e]).length - period = (log.length - period) + 1 := by
      rw [List.length_append, List.length_singleton]
      omega
    rw [push_of_length_eq (by omega) hp, lastItems, lastItems, if_neg hp.ne', if_neg hp.ne', hs,
      ← List.drop_drop, List.drop_append_of_le_length (by omega), List.drop_one, List.tail_append_of_ne_nil]
    intro hnil
    rw [List.drop_eq_nil_iff] at hnil
    omega

namespace RingBuffer

variable {b : RingBuffer P period} {log : List (Item P)}

lemma holds_of_items (h : b.items = lastItems period log) :
    b.Holds log where
  items := h
  latest := by rw [latest_eq, h, getLast?_lastItems b.pos]
  ordered := b.orderedArray_eq
  offset := b.offset_lt

lemma Holds.call (h : b.Holds log) (call : BufferCall P) : (b.call call).Holds (logCall period log call) := by
  cases call with
  | append timestamp payload =>
    refine holds_of_items ?_
    rw [RingBuffer.call, logCall, items_append, h.items, lastItems_concat b.pos]
  | replace items =>
    refine holds_of_items ?_
    rw [RingBuffer.call, logCall, items_replace]
  | merge interval items =>
    rw [RingBuffer.call, logCall, mergeBackfill]
    cases hb : bucketize interval items with
    | none => exact h
    | some bucketed =>
      refine holds_of_items ?_
      dsimp only [Option.map_some]
      rw [items_replace, h.items, ← mergedItems_eq_mergedLog, mergedItems]

lemma Holds.run (h : b.Holds log) (calls : List (BufferCall P)) :
    (calls.foldl RingBuffer.call b).Holds (calls.foldl (logCall period) log) := by
  induction calls generalizing b log with
  | nil => exact h
  | cons call calls ih => exact ih (h.call call)

end RingBuffer

lemma raised_backfillBulk (hp : 0 < period) (c : NodeCache P period) (u : String) {i : ℕ} (hi : i ≠ 0)
    (items : List (Item P)) : (c.backfillBulk u i items).raised = none := by
  obtain ⟨buffer, c', hen⟩ := c.exists_ensureBuffer hp (u, i)
  have hb : bucketize i items = some (NodeCache.bucketed i items) := if_neg fun h => hi h.1
  rw [NodeCache.backfillBulk, hen]
  dsimp only [mergeBackfill]
  rw [hb]
  rfl

/-- A ring buffer of any positive period holds the newest entries of its log after every run of appends, replacements and
merges, and every backfill of a cache that has gone through any calls leaves the greatest distinct buckets of the window
and of its own items, in order, with the payloads that were there. -/
theorem window_refines_log (hperiod : 0 < period) : (∃ b : RingBuffer P period, RingBuffer.new? P period = some b ∧
      ∀ calls : List (BufferCall P), (calls.foldl RingBuffer.call b).Holds (calls.foldl (logCall period) [])) ∧
    ∀ (calls : List (CacheCall P)) (u : String) (i : ℕ) (items : List (Item P)), i ≠ 0 →
      ((NodeCache.run calls : NodeCache P period).backfillBulk u i items).raised = none ∧
      MergedWindow period ((NodeCache.run calls : NodeCache P period).itemsOf (u, i)) (NodeCache.bucketed i items)
        (((NodeCache.run calls : NodeCache P period).backfillBulk u i items).state.itemsOf (u, i)) := by
  constructor
  · obtain ⟨b, hb⟩ : ∃ b, RingBuffer.new? P period = some b := ⟨_, dif_pos hperiod⟩
    have hempty : b.Holds [] := by
      refine RingBuffer.holds_of_items ?_
      rw [RingBuffer.items_new hb, lastItems_of_length_le (Nat.zero_le _)]
    exact ⟨b, hb, fun calls => hempty.run calls⟩
  · intro calls u i items hi
    have hraises : ¬ (i = 0 ∧ items ≠ []) := fun h => hi h.1
    have hwritten := (NodeCache.backfillBulk_written (NodeCache.timed_run calls).pairs u hraises hperiod).1
    refine ⟨raised_backfillBulk hperiod _ u hi items, ?_⟩
    rw [hwritten.items]
    exact mergedWindow_mergedItems _ _

/-- Three entries in a ring of two: the last two are held. -/
theorem window_refines_log_three : ∃ b : RingBuffer ℕ 2, RingBuffer.new? ℕ 2 = some b ∧
    ([.append 10 1, .append 20 2, .append 30 3].foldl RingBuffer.call b).items = [(20, 2), (30, 3)] := by
  obtain ⟨b, hb, hholds⟩ := (@window_refines_log ℕ 2 (by decide)).1
  exact ⟨b, hb, (hholds _).items⟩

end Qmtl.Runtime.Cache

import Qmtl.Runtime.Cache.CacheCalls

/-! The backfilled ranges of both caches over a run, as the instants that they cover. -/

namespace Qmtl.Runtime.Cache

open Lib

variable {P B : Type} {period : ℕ}

def CoversBars (s : BackfillState) (bars : Pair → List ℤ) : Prop :=
  ∀ pair, Marks pair.2 (s.rangesOf pair) (InBars pair.2 (bars pair))

lemma CoversBars.empty : CoversBars .empty fun _ => [] :=
  fun _ => Marks.nil fun _ ⟨_, hb, _⟩ => absurd hb List.not_mem_nil

lemma inBars_append {interval : ℕ} {bs bs' : List ℤ} {t : ℤ} :
    InBars interval (bs ++ bs') t ↔ InBars interval bs t ∨ InBars interval bs' t := by
  constructor
  · rintro ⟨b, hb, h⟩
    rcases List.mem_append.mp hb with hb | hb
    · exact .inl ⟨b, hb, h⟩
    · exact .inr ⟨b, hb, h⟩
  · rintro (⟨b, hb, h⟩ | ⟨b, hb, h⟩)
    · exact ⟨b, List.mem_append_left _ hb, h⟩
    · exact ⟨b, List.mem_append_right _ hb, h⟩

variable {bars : Pair → List ℤ} {i : ℕ} {s : BackfillState}

lemma CoversBars.markRanges (h : CoversBars s bars) {u : String} (hi : i ≠ 0) (items : List (Item P)) {ts : List ℤ}
    (hts : ∀ b, b ∈ ts ↔ b ∈ items.map fun e => bucketOf i e.1) :
    CoversBars (s.markRanges (u, i) (consecutiveRanges i ts)) fun pair =>
      bars pair ++ (CacheCall.backfillBulk u i items).backfilled pair := by
  have hle : ∀ r ∈ consecutiveRanges i ts, r.1 ≤ r.2 := fun r hr => le_of_mem_consecutiveRanges hr
  intro pair
  by_cases hpr : (u, i) = pair
  · subst hpr
    refine (BackfillState.marks_markRanges (h (u, i)) hle (Nat.pos_of_ne_zero hi)).congr fun t => ?_
    rw [inBars_append, CacheCall.backfilled, if_pos ⟨rfl, hi⟩, hits_consecutiveRanges]
    unfold InBars
    simp only [hts]
  · have hn : (CacheCall.backfillBulk u i items).backfilled pair = [] := if_neg fun hp => hpr hp.1
    show Marks pair.2 _ (InBars pair.2 (bars pair ++ (CacheCall.backfillBulk u i items).backfilled pair))
    rw [BackfillState.rangesOf_markRanges_ne s hle fun hp => hpr hp.symm, hn, List.append_nil]
    exact h pair

lemma CoversBars.forget (h : CoversBars s bars) (dropped : Pair) :
    CoversBars (s.forget dropped) fun pair => if pair = dropped then [] else bars pair := by
  intro pair
  dsimp only
  rw [BackfillState.rangesOf_forget]
  split
  · exact Marks.nil fun _ ⟨_, hb, _⟩ => absurd hb List.not_mem_nil
  · exact h pair

lemma backfilled_eq_nil {u : String} {items : List (Item P)} (h : i = 0 ∨ items = []) (pair : Pair) :
    (CacheCall.backfillBulk u i items).backfilled pair = [] := by
  rw [CacheCall.backfilled]
  split
  · rename_i hp
    rw [h.resolve_left hp.2, List.map_nil]
  · rfl

lemma bucketize_eq_none {items : List (Item P)} (h : bucketize i items = none) : i = 0 := by
  unfold bucketize at h
  split at h
  · rename_i hz
    exact hz.1
  · cases h

lemma bucketize_ne_nil {items bucketed : List (Item P)} (h : bucketize i items = some bucketed) (hne : bucketed ≠ []) :
    i ≠ 0 := by
  have hmap := bucketize_eq_some h
  unfold bucketize at h
  split at h
  · cases h
  · rename_i hz
    rintro rfl
    refine hz ⟨rfl, ?_⟩
    rintro rfl
    exact hne hmap

lemma CoversBars.backfill (h : CoversBars s bars) (u : String) {items bucketed : List (Item P)}
    (hb : bucketize i items = some bucketed) {ts : List ℤ} (hts : ∀ b, b ∈ ts ↔ b ∈ bucketed.map Prod.fst) :
    CoversBars (if bucketed = [] then s else s.markRanges (u, i) (consecutiveRanges i ts)) fun pair =>
      bars pair ++ (CacheCall.backfillBulk u i items).backfilled pair := by
  have hmap := bucketize_eq_some hb
  split
  · rename_i hnil
    intro pair
    rw [hnil, eq_comm, List.map_eq_nil_iff] at hmap
    dsimp only
    rw [backfilled_eq_nil (.inr hmap), List.append_nil]
    exact h pair
  · rename_i hne
    refine h.markRanges (bucketize_ne_nil hb hne) items fun b => ?_
    rw [hts, hmap, List.map_map]
    rfl

lemma backfilledBy_noted {call : CacheCall P} (hd : ∀ pair, call.drops pair = false) (since : List (CacheCall P)) :
    (fun pair => backfilledBy pair (sinceDrop pair (since ++ [call]))) =
      fun pair => backfilledBy pair (sinceDrop pair since) ++ call.backfilled pair := by
  funext pair
  rw [sinceDrop_concat, hd, if_neg Bool.false_ne_true, backfilledBy_concat]

lemma backfilledBy_quiet {call : CacheCall P} (hd : ∀ pair, call.drops pair = false)
    (hq : ∀ pair, call.backfilled pair = []) (since : List (CacheCall P)) :
    (fun pair => backfilledBy pair (sinceDrop pair (since ++ [call]))) =
      fun pair => backfilledBy pair (sinceDrop pair since) := by
  rw [backfilledBy_noted hd]
  funext pair
  rw [hq, List.append_nil]

lemma backfilledBy_dropped (u : String) (i : ℕ) (since : List (CacheCall P)) :
    (fun pair => backfilledBy pair (sinceDrop pair (since ++ [CacheCall.drop u i]))) =
      fun pair => if pair = (u, i) then [] else backfilledBy pair (sinceDrop pair since) := by
  funext pair
  rw [sinceDrop_concat]
  by_cases hp : pair = (u, i)
  · rw [if_pos hp, if_pos (show (CacheCall.drop u i : CacheCall P).drops pair from decide_eq_true hp.symm),
      backfilledBy_nil]
  · rw [if_neg hp, if_neg fun hd => hp (of_decide_eq_true hd).symm, backfilledBy_concat,
      CacheCall.backfilled, List.append_nil]

/-! ### The in-memory cache -/

namespace NodeCache

variable (c : NodeCache P period)

lemma of_ensureBuffer {c c' : NodeCache P period} {key : Pair} {buffer : RingBuffer P period}
    (h : c.ensureBuffer key = some (buffer, c')) :
    c'.backfillState = c.backfillState ∧ c'.contextStrategy = c.contextStrategy := by
  unfold ensureBuffer at h
  split at h
  · obtain ⟨-, rfl⟩ := Prod.mk.inj (Option.some.inj h)
    exact ⟨rfl, rfl⟩
  · obtain ⟨_, -, he⟩ := Option.map_eq_some_iff.mp h
    obtain ⟨-, rfl⟩ := Prod.mk.inj he
    exact ⟨rfl, rfl⟩

lemma exists_ensureBuffer (hp : 0 < period) (key : Pair) :
    ∃ buffer c', c.ensureBuffer key = some (buffer, c') := by
  unfold ensureBuffer
  split
  · exact ⟨_, _, rfl⟩
  · rw [RingBuffer.new?, dif_pos hp]
    exact ⟨_, _, rfl⟩

lemma of_trackAppend (key : Pair) (bucket : ℤ) : (c.trackAppend key bucket).backfillState = c.backfillState ∧
    (c.trackAppend key bucket).contextStrategy = c.contextStrategy ∧ (c.trackAppend key bucket).buffers = c.buffers := by
  unfold trackAppend
  split
  · exact ⟨rfl, rfl, rfl⟩
  · split <;> exact ⟨rfl, rfl, rfl⟩

lemma of_trackBackfill (key : Pair) (merged : List (Item P)) :
    (c.trackBackfill key merged).backfillState = c.backfillState ∧
      (c.trackBackfill key merged).contextStrategy = c.contextStrategy ∧
      (c.trackBackfill key merged).buffers = c.buffers := by
  unfold trackBackfill
  split
  · exact ⟨rfl, rfl, rfl⟩
  · split
    · exact ⟨rfl, rfl, rfl⟩
    · split <;> exact ⟨rfl, rfl, rfl⟩

lemma of_append (u : String) (i : ℕ) (t : ℤ) (payload : P) :
    (c.append u i t payload).state.backfillState = c.backfillState ∧
      (c.append u i t payload).state.contextStrategy = c.contextStrategy := by
  unfold append
  cases hen : c.ensureBuffer (u, i) with
  | none => exact ⟨rfl, rfl⟩
  | some e =>
    obtain ⟨buffer, c'⟩ := e
    have hc' := of_ensureBuffer hen
    dsimp only
    split
    · exact hc'
    · have ht := c'.of_trackAppend (u, i) (bucketOf i t)
      exact ⟨ht.1.trans hc'.1, ht.2.1.trans hc'.2⟩

lemma contextStrategy_backfillBulk (u : String) (i : ℕ) (items : List (Item P)) :
    (c.backfillBulk u i items).state.contextStrategy = c.contextStrategy := by
  unfold backfillBulk
  dsimp only
  cases hen : c.ensureBuffer (u, i) with
  | none => rfl
  | some e =>
    obtain ⟨buffer, c'⟩ := e
    have hc' := of_ensureBuffer hen
    dsimp only
    cases mergeBackfill buffer i items with
    | none => exact hc'.2
    | some result =>
      exact (of_trackBackfill _ _ _).2.1.trans hc'.2

lemma coversBars_backfillBulk (hp : 0 < period) {bars : Pair → List ℤ} (h : CoversBars c.backfillState bars)
    (u : String) (i : ℕ) (items : List (Item P)) :
    CoversBars (c.backfillBulk u i items).state.backfillState fun pair =>
      bars pair ++ (CacheCall.backfillBulk u i items).backfilled pair := by
  unfold backfillBulk mergeBackfill
  dsimp only
  obtain ⟨buffer, c', hen⟩ := c.exists_ensureBuffer hp (u, i)
  have hc' := (of_ensureBuffer hen).1
  rw [hen]
  cases hb : bucketize i items with
  | none =>
    intro pair
    dsimp only [Option.map_none]
    rw [backfilled_eq_nil (.inl (bucketize_eq_none hb)), List.append_nil, hc']
    exact h pair
  | some bucketed =>
    have hm := h.backfill u hb fun _ => Iff.rfl
    dsimp only [Option.map_some]
    rw [(of_trackBackfill _ _ _).1]
    dsimp only [markBackfill]
    rw [hc']
    exact hm

end NodeCache

/-! ### The Arrow cache -/

namespace NodeCacheArrow

variable (pickle : Pickle P B) (c : NodeCacheArrow B)

lemma of_ensure (key : Pair) : (c.ensure key).2.backfillState = c.backfillState ∧
    (c.ensure key).2.activeComputeKey = c.activeComputeKey := by
  unfold ensure
  split <;> exact ⟨rfl, rfl⟩

lemma of_trackAppend (key : Pair) (bucket : ℤ) : (c.trackAppend key bucket).backfillState = c.backfillState ∧
    (c.trackAppend key bucket).activeComputeKey = c.activeComputeKey ∧ (c.trackAppend key bucket).slices = c.slices := by
  unfold trackAppend
  split
  · exact ⟨rfl, rfl, rfl⟩
  · split <;> exact ⟨rfl, rfl, rfl⟩

lemma of_updateBackfillTracking (key : Pair) (merged : List (Item P)) :
    (updateBackfillTracking period c key merged).backfillState = c.backfillState ∧
      (updateBackfillTracking period c key merged).activeComputeKey = c.activeComputeKey ∧
      (updateBackfillTracking period c key merged).slices = c.slices := by
  unfold updateBackfillTracking trackBackfill
  split
  · exact ⟨rfl, rfl, rfl⟩
  · dsimp only
    split
    · exact ⟨rfl, rfl, rfl⟩
    · split <;> exact ⟨rfl, rfl, rfl⟩

lemma of_append (u : String) (i : ℕ) (t : ℤ) (payload : P) :
    (c.append pickle period u i t payload).state.backfillState = c.backfillState ∧
      (c.append pickle period u i t payload).state.activeComputeKey = c.activeComputeKey := by
  have hen := c.of_ensure (u, i)
  have ht := (c.ensure (u, i)).2.of_trackAppend (u, i) (bucketOf i t)
  unfold append
  dsimp only
  split
  · exact hen
  · split
    · exact ⟨ht.1.trans hen.1, ht.2.1.trans hen.2⟩
    · exact ⟨ht.1.trans hen.1, ht.2.1.trans hen.2⟩

lemma key_backfillBulk (u : String) (i : ℕ) (items : List (Item P)) :
    (c.backfillBulk pickle period u i items).state.activeComputeKey = c.activeComputeKey := by
  have hkey := (c.of_ensure (u, i)).2
  unfold backfillBulk
  cases bucketize i items with
  | none => exact hkey
  | some bucketed =>
    dsimp only
    split
    · exact hkey
    · exact (of_updateBackfillTracking _ _ _).2.1.trans hkey

lemma coversBars_backfillBulk {bars : Pair → List ℤ} (h : CoversBars c.backfillState bars) (u : String) (i : ℕ)
    (items : List (Item P)) : CoversBars (c.backfillBulk pickle period u i items).state.backfillState fun pair =>
      bars pair ++ (CacheCall.backfillBulk u i items).backfilled pair := by
  have hs := (c.of_ensure (u, i)).1
  unfold backfillBulk
  cases hb : bucketize i items with
  | none =>
    intro pair
    dsimp only
    rw [backfilled_eq_nil (.inl (bucketize_eq_none hb)), List.append_nil, hs]
    exact h pair
  | some bucketed =>
    have hts : ∀ b, b ∈ (bucketed.map Prod.fst).dedup.insertionSort (· ≤ ·) ↔ b ∈ bucketed.map Prod.fst := by
      intro b
      rw [List.mem_insertionSort, List.mem_dedup]
    have hm := h.backfill u hb hts
    rw [← sortedRanges, ← hs] at hm
    dsimp only
    split
    · exact hm
    · rw [(of_updateBackfillTracking _ _ _).1]
      exact hm

end NodeCacheArrow

end Qmtl.Runtime.Cache

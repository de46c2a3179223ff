import Qmtl.Runtime.Cache.SameCache

/-!
Backfill progress: what `BackfillState` says to be complete after any marks on a grid, and which bars a backfill marks.
-/

namespace Qmtl.Runtime.Cache

open Lib Runtime.Seamless

variable {P B : Type} {period : ℕ}

def ordered (r : Range) : Range := (min r.1 r.2, max r.1 r.2)

namespace BackfillState

def isComplete (s : BackfillState) (pair : Pair) (start stop : ℤ) : Bool :=
  (s.rangesOf pair).any fun r => start ≥ r.1 ∧ stop ≤ r.2

inductive Mark where
  | range (pair : Pair) (start stop : ℤ)
  | ranges (pair : Pair) (rng : List Range)

def mark (s : BackfillState) : Mark → BackfillState
  | .range pair start stop => s.markRange pair start stop
  | .ranges pair rng => s.markRanges pair rng

def run (marks : List Mark) : BackfillState := marks.foldl mark empty

def Mark.marked (pair : Pair) : Mark → List Range
  | .range pair' start stop => if pair' = pair then [(start, stop)] else []
  | .ranges pair' rng => if pair' = pair then rng else []

def markedBy (pair : Pair) (marks : List Mark) : List Range := marks.flatMap (Mark.marked pair)

end BackfillState

/-- The ranges of a pair are in order and more than an interval apart, and a span of the grid is complete just when each
of its points was marked. -/
structure ExactProgress (s : BackfillState) (pair : Pair) (origin : ℤ) (marked : List Range) : Prop where
  sorted : (s.rangesOf pair).Pairwise fun r r' => r.1 < r'.1
  apart : (s.rangesOf pair).Pairwise fun r r' => r.2 + (pair.2 : ℤ) < r'.1
  complete : ∀ start stop, start ≤ stop → (pair.2 : ℤ) ∣ start - origin → (pair.2 : ℤ) ∣ stop - origin →
    (s.isComplete pair start stop = true ↔
      ∀ t, start ≤ t → t ≤ stop → (pair.2 : ℤ) ∣ t - origin → Contains (marked.map ordered) t)

/-! ### Marks -/

lemma markRange_ordered (s : BackfillState) (pair : Pair) (r : Range) :
    s.markRange pair r.1 r.2 = s.markRange pair (ordered r).1 (ordered r).2 := by
  have hle : ¬ (ordered r).1 > (ordered r).2 := not_lt.mpr min_le_max
  unfold BackfillState.markRange
  rw [if_neg hle]
  by_cases h : r.1 > r.2
  · rw [if_pos h, ordered, min_eq_right h.le, max_eq_left h.le]
  · rw [if_neg h, ordered, min_eq_left (not_lt.mp h), max_eq_right (not_lt.mp h)]

variable {i interval : ℕ} {ts : List ℤ}

lemma onGrid_ordered {origin : ℤ} {rs : List Range} (h : OnGrid interval origin rs) :
    OnGrid interval origin (rs.map ordered) := by
  intro q hq
  obtain ⟨r, hr, rfl⟩ := List.mem_map.mp hq
  obtain ⟨hs, hst⟩ := h r hr
  unfold ordered
  rcases le_total r.1 r.2 with hle | hle
  · rw [min_eq_left hle, max_eq_right hle]
    exact ⟨hs, hst⟩
  · rw [min_eq_right hle, max_eq_left hle]
    exact ⟨hst, hs⟩

/-- What is known of the ranges of a pair after marks on a grid. -/
structure MarkedOnGrid (interval : ℕ) (origin : ℤ) (rs marked : List Range) : Prop where
  le : ∀ r ∈ rs, r.1 ≤ r.2
  apart : rs.Pairwise fun r r' => r.2 + (interval : ℤ) < r'.1
  grid : OnGrid interval origin rs
  points : ∀ t, (interval : ℤ) ∣ t - origin → (Contains rs t ↔ Contains (marked.map ordered) t)

namespace MarkedOnGrid

variable {interval : ℕ} {origin : ℤ} {rs marked : List Range}

lemma nil : MarkedOnGrid interval origin [] [] :=
  ⟨fun _ h => absurd h List.not_mem_nil, List.Pairwise.nil, fun _ h => absurd h List.not_mem_nil, fun _ _ => .rfl⟩

lemma mark (hpos : 0 < interval) (h : MarkedOnGrid interval origin rs marked) {r : Range}
    (hgrid : OnGrid interval origin [r]) :
    MarkedOnGrid interval origin (mergeClosed interval (rs ++ [ordered r])) (marked ++ [r]) := by
  have hone : OnGrid interval origin [ordered r] := onGrid_ordered hgrid
  have hb : OnGrid interval origin (rs ++ [ordered r]) := List.forall_mem_append.mpr ⟨h.grid, hone⟩
  refine ⟨?_, apart_mergeClosed _ _, onGrid_mergeClosed hb, ?_⟩
  · refine (mergeClosed_spec ?_).1
    intro q hq
    rcases List.mem_append.mp hq with hq | hq
    · exact h.le q hq
    · obtain rfl := List.mem_singleton.mp hq
      exact min_le_max
  · intro t ht
    rw [contains_mergeClosed hpos hb ht, contains_append, h.points t ht, List.map_append, contains_append,
      List.map_singleton]

lemma exists_range_iff (hpos : 0 < interval) (h : MarkedOnGrid interval origin rs marked) {start stop : ℤ}
    (hle : start ≤ stop) (hs : (interval : ℤ) ∣ start - origin) (hst : (interval : ℤ) ∣ stop - origin) :
    (∃ r ∈ rs, r.1 ≤ start ∧ stop ≤ r.2) ↔
      ∀ t, start ≤ t → t ≤ stop → (interval : ℤ) ∣ t - origin → Contains rs t := by
  constructor
  · rintro ⟨r, hr, hlow, hh⟩ t ht ht' -
    exact ⟨r, hr, by omega, by omega⟩
  · intro hall
    obtain ⟨r, hr, hlow, hh⟩ := hall start le_rfl hle hs
    refine ⟨r, hr, hlow, ?_⟩
    by_contra hsh
    -- the next point of the grid lies in a range that begins too close to the end of this one
    have hend := (h.grid r hr).2
    have hdvd := dvd_sub hst hend
    rw [sub_sub_sub_cancel_right] at hdvd
    have hn : (interval : ℤ) ∣ r.2 + interval - origin := by
      rw [add_sub_right_comm]
      exact dvd_add hend dvd_rfl
    obtain ⟨r', hr', hl', hh'⟩ :=
      hall (r.2 + interval) (by omega) (add_le_of_dvd hdvd (not_le.mp hsh)) hn
    rcases eq_or_rel_of_pairwise h.apart hr hr' with rfl | hap | hap
    · omega
    · omega
    · omega

end MarkedOnGrid

namespace BackfillState

variable {pair : Pair} {origin : ℤ}

variable {s : BackfillState}

lemma marked_markRange (hpos : 0 < pair.2) {marked : List Range}
    (h : MarkedOnGrid pair.2 origin (s.rangesOf pair) marked) {r : Range} (hgrid : OnGrid pair.2 origin [r]) :
    MarkedOnGrid pair.2 origin ((s.markRange pair r.1 r.2).rangesOf pair) (marked ++ [r]) := by
  rw [markRange_ordered, rangesOf_markRange s min_le_max, if_pos rfl]
  exact h.mark hpos hgrid

lemma marked_markRanges (hpos : 0 < pair.2) {marked rng : List Range}
    (h : MarkedOnGrid pair.2 origin (s.rangesOf pair) marked) (hgrid : OnGrid pair.2 origin rng) :
    MarkedOnGrid pair.2 origin ((s.markRanges pair rng).rangesOf pair) (marked ++ rng) := by
  induction rng generalizing s marked with
  | nil => rwa [List.append_nil]
  | cons r rng ih =>
    have hs := marked_markRange hpos h (r := r) fun q hq => hgrid q (List.mem_singleton.mp hq ▸ .head _)
    have hr := ih hs fun q hq => hgrid q (.tail _ hq)
    rwa [List.append_assoc] at hr

lemma rangesOf_markRange_ne (s : BackfillState) {pair' : Pair} (hne : pair ≠ pair') (r : Range) :
    (s.markRange pair' r.1 r.2).rangesOf pair = s.rangesOf pair := by
  rw [markRange_ordered, rangesOf_markRange s min_le_max, if_neg hne]

lemma marked_mark (hpos : 0 < pair.2) {marked : List Range} (h : MarkedOnGrid pair.2 origin (s.rangesOf pair) marked)
    {m : Mark} (hgrid : OnGrid pair.2 origin (m.marked pair)) :
    MarkedOnGrid pair.2 origin ((s.mark m).rangesOf pair) (marked ++ m.marked pair) := by
  cases m with
  | range pair' start stop =>
    rw [Mark.marked] at hgrid ⊢
    by_cases hp : pair' = pair
    · subst hp
      rw [if_pos rfl] at hgrid ⊢
      exact marked_markRange (r := (start, stop)) hpos h hgrid
    · rw [if_neg hp, List.append_nil, mark, rangesOf_markRange_ne s (Ne.symm hp) (start, stop)]
      exact h
  | ranges pair' rng =>
    rw [Mark.marked] at hgrid ⊢
    by_cases hp : pair' = pair
    · subst hp
      rw [if_pos rfl] at hgrid ⊢
      exact marked_markRanges hpos h hgrid
    · have hother : (s.markRanges pair' rng).rangesOf pair = s.rangesOf pair := by
        rw [markRanges]
        clear hgrid h
        induction rng generalizing s with
        | nil => rfl
        | cons r rng ih => rw [List.foldl_cons, ih, rangesOf_markRange_ne s (Ne.symm hp) r]
      rw [if_neg hp, List.append_nil, mark, hother]
      exact h

lemma marked_run (hpos : 0 < pair.2) {marks : List Mark} (hgrid : OnGrid pair.2 origin (markedBy pair marks)) :
    MarkedOnGrid pair.2 origin ((run marks).rangesOf pair) (markedBy pair marks) := by
  induction marks using List.reverseRecOn with
  | nil => exact .nil
  | append_singleton marks m ih =>
    have hs : markedBy pair (marks ++ [m]) = markedBy pair marks ++ m.marked pair := by
      rw [markedBy, List.flatMap_append, List.flatMap_singleton, markedBy]
    rw [hs] at hgrid ⊢
    obtain ⟨hb, hl⟩ := List.forall_mem_append.mp hgrid
    have hrun : run (marks ++ [m]) = (run marks).mark m := List.foldl_concat ..
    rw [hrun]
    exact marked_mark hpos (ih hb) hl

lemma isComplete_iff (s : BackfillState) (pair : Pair) (start stop : ℤ) :
    s.isComplete pair start stop ↔ ∃ r ∈ s.rangesOf pair, r.1 ≤ start ∧ stop ≤ r.2 := by
  rw [isComplete, List.any_eq_true]
  simp [ge_iff_le]

end BackfillState

lemma MarkedOnGrid.exact {s : BackfillState} {pair : Pair} {origin : ℤ} {marked : List Range} (hpos : 0 < pair.2)
    (h : MarkedOnGrid pair.2 origin (s.rangesOf pair) marked) : ExactProgress s pair origin marked where
  sorted := h.apart.imp_of_mem fun {r r'} hr _ hlt => by
    have := h.le r hr
    omega
  apart := h.apart
  complete start stop hle hstart hstop := by
    rw [BackfillState.isComplete_iff, h.exists_range_iff hpos hle hstart hstop]
    exact forall₄_congr fun t _ _ ht => h.points t ht

/-! ### Backfills -/

lemma onGrid_consecutiveRanges (h : ∀ t ∈ ts, (interval : ℤ) ∣ t) :
    OnGrid interval 0 (consecutiveRanges interval ts) := by
  have hf : ∀ (ts : List ℤ) (start prev : ℤ), (interval : ℤ) ∣ start → (interval : ℤ) ∣ prev →
      (∀ t ∈ ts, (interval : ℤ) ∣ t) → OnGrid interval 0 (rangesFrom interval start prev ts) := by
    intro ts
    induction ts with
    | nil =>
      intro start prev hs hp _ r hr
      obtain rfl := List.mem_singleton.mp hr
      simpa using ⟨hs, hp⟩
    | cons t ts ih =>
      intro start prev hs hp hts
      have ht := hts t List.mem_cons_self
      have hrs : ∀ t ∈ ts, (interval : ℤ) ∣ t := fun t ht => hts t (.tail _ ht)
      rw [rangesFrom]
      split
      · exact ih start t hs ht hrs
      · refine List.forall_mem_cons.mpr ⟨?_, ih t t ht ht hrs⟩
        simpa using ⟨hs, hp⟩
  cases ts with
  | nil => exact fun _ hr => absurd hr List.not_mem_nil
  | cons t ts =>
    have ht := h t List.mem_cons_self
    exact hf ts t t ht ht fun t ht => h t (.tail _ ht)

lemma contains_consecutiveRanges (hpos : 0 < interval) (h : ∀ t ∈ ts, (interval : ℤ) ∣ t) {t : ℤ}
    (ht : (interval : ℤ) ∣ t) : Contains (consecutiveRanges interval ts) t ↔ t ∈ ts := by
  rw [← hits_bars_iff hpos (onGrid_consecutiveRanges h) (by rwa [sub_zero]), hits_consecutiveRanges]
  constructor
  · exact mem_of_inBars h ⟨hpos, ht⟩
  · exact fun hmem => ⟨t, hmem, le_rfl, by omega⟩

def MarksBuckets (s s' : BackfillState) (pair : Pair) (items : List (Item P)) : Prop :=
  ∃ rng, s' = s.markRanges pair rng ∧
    ∀ t, (pair.2 : ℤ) ∣ t → (Contains rng t ↔ ∃ e ∈ items, bucketOf pair.2 e.1 = t)

lemma marksBuckets_of (s : BackfillState) {pair : Pair} (hpos : 0 < pair.2) {items bucketed : List (Item P)}
    (hb : bucketize pair.2 items = some bucketed) (hts : ∀ t, t ∈ ts ↔ t ∈ bucketed.map Prod.fst) :
    MarksBuckets s (if bucketed = [] then s else s.markRanges pair (consecutiveRanges pair.2 ts)) pair items := by
  have hmem : ∀ t, t ∈ ts ↔ ∃ e ∈ items, bucketOf pair.2 e.1 = t := by
    intro t
    rw [hts, bucketize_eq_some hb, List.map_map]
    exact List.mem_map
  have hdvd : ∀ t ∈ ts, (pair.2 : ℤ) ∣ t := by
    intro t ht
    obtain ⟨e, -, rfl⟩ := (hmem t).mp ht
    exact dvd_bucketOf pair.2 e.1
  refine ⟨consecutiveRanges pair.2 ts, ?_, fun t ht => by rw [contains_consecutiveRanges hpos hdvd ht, hmem]⟩
  split
  · rename_i hnil
    have hempty : ts = [] := by
      refine List.eq_nil_iff_forall_not_mem.mpr fun t ht => ?_
      rw [hts, hnil] at ht
      cases ht
    rw [hempty]
    rfl
  · rfl

lemma exists_bucketize (hi : 0 < i) (items : List (Item P)) : ∃ bucketed, bucketize i items = some bucketed :=
  ⟨_, if_neg fun h => hi.ne' h.1⟩

lemma NodeCache.marksBuckets (hp : 0 < period) (c : NodeCache P period) (u : String) (hi : 0 < i)
    (items : List (Item P)) :
    MarksBuckets c.backfillState (c.backfillBulk u i items).state.backfillState (u, i) items := by
  obtain ⟨buffer, c', hen⟩ := c.exists_ensureBuffer hp (u, i)
  obtain ⟨bucketed, hb⟩ := exists_bucketize hi items
  have hm := marksBuckets_of c.backfillState (show 0 < ((u, i) : Pair).2 from hi) hb fun t => .rfl
  have hs : (c.backfillBulk u i items).state.backfillState = if bucketed = [] then c.backfillState
      else c.backfillState.markRanges (u, i) (consecutiveRanges i (bucketed.map Prod.fst)) := by
    rw [backfillBulk, hen]
    dsimp only [mergeBackfill]
    rw [hb]
    dsimp only [Option.map_some]
    rw [(of_trackBackfill _ _ _).1]
    dsimp only [markBackfill]
    rw [(of_ensureBuffer hen).1]
  rwa [hs]

lemma NodeCacheArrow.marksBuckets (pickle : Pickle P B) (period : ℕ) (c : NodeCacheArrow B) (u : String) (hi : 0 < i)
    (items : List (Item P)) :
    MarksBuckets c.backfillState (c.backfillBulk pickle period u i items).state.backfillState (u, i) items := by
  obtain ⟨bucketed, hb⟩ := exists_bucketize hi items
  have hs : ∀ t, t ∈ (bucketed.map Prod.fst).dedup.insertionSort (· ≤ ·) ↔ t ∈ bucketed.map Prod.fst := by
    intro t
    rw [List.mem_insertionSort, List.mem_dedup]
  have hm := marksBuckets_of c.backfillState (show 0 < ((u, i) : Pair).2 from hi) hb hs
  have hst : (c.backfillBulk pickle period u i items).state.backfillState = if bucketed = [] then c.backfillState
      else c.backfillState.markRanges (u, i) (sortedRanges i bucketed) := by
    rw [backfillBulk]
    rw [hb]
    dsimp only
    split
    · rw [markBackfillRanges, (c.of_ensure (u, i)).1]
    · rw [(of_updateBackfillTracking _ _ _).1, markBackfillRanges, (c.of_ensure (u, i)).1]
  rwa [hst]

/-- After any marks on one grid the ranges of a pair are exact; and a backfill of either cache, from any state and with
items in any order, marks exactly the buckets of its items. -/
theorem backfill_progress_exact {pair : Pair} (hpos : 0 < pair.2) :
    (∀ (marks : List BackfillState.Mark) (origin : ℤ), OnGrid pair.2 origin (BackfillState.markedBy pair marks) →
      ExactProgress (BackfillState.run marks) pair origin (BackfillState.markedBy pair marks)) ∧
    ∀ (P : Type) (items : List (Item P)), (∀ period, 0 < period → ∀ c : NodeCache P period,
        MarksBuckets c.backfillState (c.backfillBulk pair.1 pair.2 items).state.backfillState pair items) ∧
      ∀ (B : Type) (pickle : Pickle P B) (period : ℕ) (c : NodeCacheArrow B),
        MarksBuckets c.backfillState (c.backfillBulk pickle period pair.1 pair.2 items).state.backfillState pair items :=
  ⟨fun _ _ hgrid => (BackfillState.marked_run hpos hgrid).exact hpos,
    fun _ items => ⟨fun _ hperiod c => c.marksBuckets hperiod pair.1 hpos items,
      fun _ pickle period c => c.marksBuckets pickle period pair.1 hpos items⟩⟩

/-- Two marks that touch on a grid of 60 make one complete span. -/
theorem backfill_progress_exact_touching :
    (BackfillState.run [.range ("btc", 60) 0 60, .range ("btc", 60) 180 120]).isComplete ("btc", 60) 0 180 = true := by
  have hgrid : OnGrid 60 0 [(0, 60), (180, 120)] := by
    intro r hr
    simp only [List.mem_cons, List.not_mem_nil, or_false] at hr
    rcases hr with rfl | rfl <;> decide
  refine (((@backfill_progress_exact ("btc", 60) (by decide)).1
    [.range ("btc", 60) 0 60, .range ("btc", 60) 180 120] 0 hgrid).complete 0 180 (by decide) (by decide) (by decide)).mpr ?_
  intro t hlow hhigh hdvd
  by_cases h : t ≤ 60
  · exact ⟨(0, 60), by decide, hlow, h⟩
  · exact ⟨(120, 180), by decide, by dsimp only at *; omega, hhigh⟩

end Qmtl.Runtime.Cache

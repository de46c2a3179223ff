import Mathlib.Algebra.Ring.Divisibility.Basic
import Mathlib.Data.Int.Basic
import Mathlib.Data.List.Count
import Mathlib.Data.List.Pairwise
import Mathlib.Data.List.Sort
import Mathlib.Tactic.Linarith

/-! The fetch planner of `SeamlessDataProvider`: the range arithmetic of `_RangeOperations`, the coverage and the half-open
fetches of a source, and `_SeamlessFetchPlanner` without a backfiller. -/

namespace Qmtl.Runtime.Seamless

/-- A pair of timestamps. Whether its end belongs to it depends on who reads it. -/
abbrev Range := ℤ × ℤ

/-! ### `_RangeOperations` -/

def rangeLe (r r' : Range) : Prop := r.1 < r'.1 ∨ r.1 = r'.1 ∧ r.2 ≤ r'.2

instance rangeLe.decidable (r r' : Range) : Decidable (rangeLe r r') :=
  inferInstanceAs (Decidable (r.1 < r'.1 ∨ r.1 = r'.1 ∧ r.2 ≤ r'.2))

def sortRanges (ranges : List Range) : List Range := ranges.insertionSort rangeLe

def mergeInto (last : Range) : List Range → List Range
  | [] => [last]
  | current :: rest =>
    if current.1 ≤ last.2 then mergeInto (last.1, max last.2 current.2) rest
    else last :: mergeInto current rest

def merge (ranges : List Range) : List Range :=
  match sortRanges ranges with
  | [] => []
  | first :: rest => mergeInto first rest

def intersectPairs (ranges1 ranges2 : List Range) : List Range :=
  ranges1.flatMap fun r1 => ranges2.filterMap fun r2 =>
    if max r1.1 r2.1 < min r1.2 r2.2 then some (max r1.1 r2.1, min r1.2 r2.2) else none

def intersect (ranges1 ranges2 : List Range) : List Range := merge (intersectPairs ranges1 ranges2)

def subtractPlain (sub : Range) (r : Range) : List Range :=
  if sub.2 ≤ r.1 ∨ sub.1 ≥ r.2 then [r]
  else (if r.1 < sub.1 then [(r.1, sub.1)] else []) ++ if r.2 > sub.2 then [(sub.2, r.2)] else []

def subtractWithoutInterval (fromRanges subtractRanges : List Range) : List Range :=
  subtractRanges.foldl (fun result sub => result.flatMap (subtractPlain sub)) fromRanges

def segmentsOverlap (seg sub : Range) : Bool := !(sub.2 < seg.1 || sub.1 > seg.2)

def isAligned (segStart subStart interval : ℤ) : Bool := (segStart - subStart) % interval = 0

def alignedFirst (seg sub : Range) (interval : ℤ) : Option ℤ :=
  let first := max seg.1 sub.1
  let remainder := (first - seg.1) % interval
  let first := if remainder ≠ 0 then first + (interval - remainder) else first
  if first > seg.2 ∨ first > sub.2 then none else some first

def alignedLast (seg : Range) (subEnd interval : ℤ) : Option ℤ :=
  let last := min seg.2 subEnd
  let remainder := (last - seg.1) % interval
  let last := last - remainder
  if last < seg.1 then none else some last

def subtractSegment (interval : ℤ) (sub : Range) (seg : Range) : List Range :=
  if !segmentsOverlap seg sub then [seg]
  else if !isAligned seg.1 sub.1 interval then [seg]
  else match alignedFirst seg sub interval, alignedLast seg sub.2 interval with
    | some first, some last =>
      if last < first then [seg]
      else (if first > seg.1 then [(seg.1, first - interval)] else []) ++
        if last < seg.2 then [(last + interval, seg.2)] else []
    | _, _ => [seg]

def subtractSegments (interval : ℤ) (segments : List Range) : List Range → List Range
  | [] => segments
  | sub :: subs =>
    if sub.1 > sub.2 then subtractSegments interval segments subs
    else
      let segments := segments.flatMap (subtractSegment interval sub)
      if segments = [] then [] else subtractSegments interval segments subs

def subtractWithInterval (fromRanges subtractRanges : List Range) (interval : ℤ) : List Range :=
  merge (sortRanges (fromRanges.flatMap fun r => subtractSegments interval [r] subtractRanges))

def subtract (fromRanges subtractRanges : List Range) (interval : ℤ) : List Range :=
  if subtractRanges = [] then fromRanges
  else if interval ≤ 0 then subtractWithoutInterval fromRanges subtractRanges
  else subtractWithInterval fromRanges subtractRanges interval

structure DataSource where
  priority : ℕ
  bars : List ℤ
  sorted : bars.Pairwise (· < ·)

def coverageFrom (interval start prev : ℤ) : List ℤ → List Range
  | [] => [(start, prev)]
  | ts :: rest =>
    if ts = prev + interval then coverageFrom interval start ts rest
    else (start, prev) :: coverageFrom interval ts ts rest

def DataSource.coverage (s : DataSource) (interval : ℤ) : List Range :=
  match s.bars with
  | [] => []
  | ts :: rest => coverageFrom interval ts ts rest

def DataSource.fetch (s : DataSource) (range : Range) : List ℤ :=
  s.bars.filter fun ts => range.1 ≤ ts ∧ ts < range.2

def getOrderedSources (cache storage : Option DataSource) : List DataSource :=
  (cache.toList ++ storage.toList).insertionSort fun s s' => s.priority ≤ s'.priority

/-! ### `_SeamlessFetchPlanner` -/

def fetchAvailable (s : DataSource) (available : List Range) : List (List ℤ) :=
  (available.map s.fetch).filter (· ≠ [])

def consumeSource (interval : ℤ) (s : DataSource) (ranges : List Range) (frames : List (List ℤ)) :
    List Range × List (List ℤ) :=
  ranges.foldl (fun acc r =>
    let available := intersect [r] (s.coverage interval)
    if available ≠ [] then
      (acc.1 ++ subtract [r] available interval, acc.2 ++ fetchAvailable s available)
    else (acc.1 ++ [r], acc.2)) ([], frames)

def consumeSources (interval : ℤ) : List DataSource → List Range → List (List ℤ) → List (List ℤ)
  | [], _, frames => frames
  | s :: sources, ranges, frames =>
    if ranges = [] then frames
    else
      let (ranges, frames) := consumeSource interval s ranges frames
      consumeSources interval sources ranges frames

def fetch (interval : ℤ) (cache storage : Option DataSource) (start stop : ℤ) : List ℤ :=
  (consumeSources interval (getOrderedSources cache storage) [(start, stop)] []).flatten.insertionSort (· ≤ ·)

def Hits (ranges : List Range) (t : ℤ) : Prop := ∃ r ∈ ranges, r.1 ≤ t ∧ t < r.2

instance Hits.decidable (ranges : List Range) (t : ℤ) : Decidable (Hits ranges t) :=
  inferInstanceAs (Decidable (∃ r ∈ ranges, r.1 ≤ t ∧ t < r.2))

lemma hits_nil (t : ℤ) : ¬ Hits [] t := fun ⟨_, h, _⟩ => absurd h List.not_mem_nil

variable {r : Range} {rs rs' : List Range} {t : ℤ}

lemma hits_cons : Hits (r :: rs) t ↔ (r.1 ≤ t ∧ t < r.2) ∨ Hits rs t := by
  unfold Hits
  simp [exists_eq_or_imp]

lemma hits_singleton : Hits [r] t ↔ r.1 ≤ t ∧ t < r.2 := by
  rw [hits_cons, or_iff_left (hits_nil t)]

lemma hits_append : Hits (rs ++ rs') t ↔ Hits rs t ∨ Hits rs' t := by
  unfold Hits
  simp [or_and_right, exists_or]

lemma hits_perm (h : rs.Perm rs') : Hits rs t ↔ Hits rs' t :=
  exists_congr fun _ => and_congr_left fun _ => h.mem_iff

lemma hits_flatMap {f : Range → List Range} : Hits (rs.flatMap f) t ↔ ∃ r ∈ rs, Hits (f r) t := by
  constructor
  · rintro ⟨q, hq, h⟩
    obtain ⟨r, hr, hq⟩ := List.mem_flatMap.mp hq
    exact ⟨r, hr, q, hq, h⟩
  · rintro ⟨r, hr, q, hq, h⟩
    exact ⟨q, List.mem_flatMap.mpr ⟨r, hr, hq⟩, h⟩

def Contains (ranges : List Range) (t : ℤ) : Prop := ∃ r ∈ ranges, r.1 ≤ t ∧ t ≤ r.2

instance Contains.decidable (ranges : List Range) (t : ℤ) : Decidable (Contains ranges t) :=
  inferInstanceAs (Decidable (∃ r ∈ ranges, r.1 ≤ t ∧ t ≤ r.2))

lemma contains_nil (t : ℤ) : ¬ Contains [] t := fun ⟨_, h, _⟩ => absurd h List.not_mem_nil

lemma contains_cons : Contains (r :: rs) t ↔ (r.1 ≤ t ∧ t ≤ r.2) ∨ Contains rs t := by
  simp [Contains, exists_eq_or_imp]

lemma contains_append : Contains (rs ++ rs') t ↔ Contains rs t ∨ Contains rs' t := by
  simp [Contains, or_and_right, exists_or]

lemma contains_perm (h : rs.Perm rs') : Contains rs t ↔ Contains rs' t :=
  exists_congr fun _ => and_congr_left fun _ => h.mem_iff

/-! ### Merging -/

instance rangeLe.total : Std.Total rangeLe where
  total r r' := by
    unfold rangeLe
    omega

instance rangeLe.trans : IsTrans Range rangeLe where
  trans r r' r'' h h' := by
    unfold rangeLe at *
    omega

lemma perm_sortRanges (rs : List Range) : (sortRanges rs).Perm rs := List.perm_insertionSort rangeLe rs

lemma pairwise_sortRanges (rs : List Range) : (sortRanges rs).Pairwise fun r r' => r.1 ≤ r'.1 := by
  refine (List.pairwise_insertionSort rangeLe rs).imp ?_
  intro r r' h
  unfold rangeLe at h
  omega

variable {last : Range}

lemma hits_mergeInto (h : (last :: rs).Pairwise fun r r' => r.1 ≤ r'.1) (t : ℤ) :
    Hits (mergeInto last rs) t ↔ Hits (last :: rs) t := by
  induction rs generalizing last with
  | nil => rfl
  | cons current rest ih =>
    rw [List.pairwise_cons, List.pairwise_cons] at h
    obtain ⟨hl, hc, hrs⟩ := h
    have hle := hl current List.mem_cons_self
    rw [mergeInto]
    split
    · have hs : ((last.1, max last.2 current.2) :: rest).Pairwise fun r r' => r.1 ≤ r'.1 :=
        List.pairwise_cons.mpr ⟨fun r hr => hl r (.tail _ hr), hrs⟩
      rw [ih hs, hits_cons, hits_cons, hits_cons, ← or_assoc]
      refine or_congr_left ?_
      omega
    · rw [hits_cons, ih (List.pairwise_cons.mpr ⟨hc, hrs⟩), ← hits_cons]

lemma ends_mergeInto (h : r ∈ mergeInto last rs) :
    (∃ q ∈ last :: rs, r.1 = q.1) ∧ ∃ q ∈ last :: rs, r.2 = q.2 := by
  induction rs generalizing last with
  | nil =>
    obtain rfl := List.mem_singleton.mp h
    exact ⟨⟨r, .head _, rfl⟩, r, .head _, rfl⟩
  | cons current rest ih =>
    rw [mergeInto] at h
    split at h
    · obtain ⟨⟨q, hq, hs⟩, q', hq', hend⟩ := ih h
      constructor
      · rcases List.mem_cons.mp hq with rfl | hq
        · exact ⟨last, .head _, hs⟩
        · exact ⟨q, .tail _ (.tail _ hq), hs⟩
      · rcases List.mem_cons.mp hq' with rfl | hq'
        · rcases max_choice last.2 current.2 with hmax | hmax
          · exact ⟨last, .head _, hend.trans hmax⟩
          · exact ⟨current, .tail _ List.mem_cons_self, hend.trans hmax⟩
        · exact ⟨q', .tail _ (.tail _ hq'), hend⟩
    · rcases List.mem_cons.mp h with rfl | h
      · exact ⟨⟨r, .head _, rfl⟩, r, .head _, rfl⟩
      · obtain ⟨⟨q, hq, hs⟩, q', hq', hend⟩ := ih h
        exact ⟨⟨q, .tail _ hq, hs⟩, q', .tail _ hq', hend⟩

lemma pairwise_mergeInto (h : (last :: rs).Pairwise fun r r' => r.1 ≤ r'.1) :
    (mergeInto last rs).Pairwise fun r r' => r.2 < r'.1 := by
  induction rs generalizing last with
  | nil => exact List.pairwise_singleton _ _
  | cons current rest ih =>
    rw [List.pairwise_cons, List.pairwise_cons] at h
    obtain ⟨hl, hc, hrs⟩ := h
    rw [mergeInto]
    split
    · exact ih (List.pairwise_cons.mpr ⟨fun r hr => hl r (.tail _ hr), hrs⟩)
    · refine List.pairwise_cons.mpr ⟨fun r hr => ?_, ih (List.pairwise_cons.mpr ⟨hc, hrs⟩)⟩
      obtain ⟨⟨q, hq, hs⟩, -⟩ := ends_mergeInto hr
      rcases List.mem_cons.mp hq with rfl | hq
      · omega
      · have := hc q hq
        omega

lemma contains_mergeInto (h : (last :: rs).Pairwise fun r r' => r.1 ≤ r'.1) (t : ℤ) :
    Contains (mergeInto last rs) t ↔ Contains (last :: rs) t := by
  induction rs generalizing last with
  | nil => rfl
  | cons current rest ih =>
    rw [List.pairwise_cons, List.pairwise_cons] at h
    obtain ⟨hl, hc, hrs⟩ := h
    have hle := hl current List.mem_cons_self
    rw [mergeInto]
    split
    · have hs : ((last.1, max last.2 current.2) :: rest).Pairwise fun r r' => r.1 ≤ r'.1 :=
        List.pairwise_cons.mpr ⟨fun r hr => hl r (.tail _ hr), hrs⟩
      rw [ih hs, contains_cons, contains_cons, contains_cons, ← or_assoc]
      refine or_congr_left ?_
      omega
    · rw [contains_cons, ih (List.pairwise_cons.mpr ⟨hc, hrs⟩), ← contains_cons]

lemma covered_mergeInto (h : (last :: rs).Pairwise fun r r' => r.1 ≤ r'.1) {c : Range}
    (hc : c ∈ last :: rs) (hle : c.1 ≤ c.2) : ∃ r ∈ mergeInto last rs, r.1 ≤ c.1 ∧ c.2 ≤ r.2 := by
  induction rs generalizing last c with
  | nil =>
    obtain rfl := List.mem_singleton.mp hc
    exact ⟨c, .head _, le_rfl, le_rfl⟩
  | cons current rest ih =>
    rw [List.pairwise_cons, List.pairwise_cons] at h
    obtain ⟨hl, hcr, hrs⟩ := h
    have hst := hl current List.mem_cons_self
    rw [mergeInto]
    split
    · have hs : ((last.1, max last.2 current.2) :: rest).Pairwise fun r r' => r.1 ≤ r'.1 :=
        List.pairwise_cons.mpr ⟨fun r hr => hl r (.tail _ hr), hrs⟩
      have hj : ∀ c : Range, last.1 ≤ c.1 → c.2 ≤ max last.2 current.2 → c.1 ≤ c.2 →
          ∃ r ∈ mergeInto (last.1, max last.2 current.2) rest, r.1 ≤ c.1 ∧ c.2 ≤ r.2 := by
        intro c hlow hh hle
        obtain ⟨r, hr, hs', hsto⟩ := ih hs (.head _) (show last.1 ≤ max last.2 current.2 by omega)
        exact ⟨r, hr, hs'.trans hlow, hh.trans hsto⟩
      rcases List.mem_cons.mp hc with rfl | hc
      · exact hj c le_rfl (le_max_left _ _) hle
      · rcases List.mem_cons.mp hc with rfl | hc
        · exact hj c hst (le_max_right _ _) hle
        · exact ih hs (.tail _ hc) hle
    · rcases List.mem_cons.mp hc with rfl | hc
      · exact ⟨c, .head _, le_rfl, le_rfl⟩
      · obtain ⟨r, hr, hin⟩ := ih (List.pairwise_cons.mpr ⟨hcr, hrs⟩) hc hle
        exact ⟨r, .tail _ hr, hin⟩

lemma start_mergeInto (h : r ∈ mergeInto last rs) : ∃ q ∈ last :: rs, q.1 = r.1 ∧ q.2 ≤ r.2 := by
  induction rs generalizing last with
  | nil => exact ⟨r, h, rfl, le_rfl⟩
  | cons current rest ih =>
    rw [mergeInto] at h
    split at h
    · obtain ⟨q, hq, hs, hst⟩ := ih h
      rcases List.mem_cons.mp hq with rfl | hq
      · exact ⟨last, .head _, hs, (le_max_left _ _).trans hst⟩
      · exact ⟨q, .tail _ (.tail _ hq), hs, hst⟩
    · rcases List.mem_cons.mp h with rfl | h
      · exact ⟨r, .head _, rfl, le_rfl⟩
      · obtain ⟨q, hq, hin⟩ := ih h
        exact ⟨q, .tail _ hq, hin⟩

lemma sorted_mergeInto (h : (last :: rs).Pairwise fun r r' => r.1 ≤ r'.1) :
    (mergeInto last rs).Pairwise fun r r' => r.1 ≤ r'.1 := by
  induction rs generalizing last with
  | nil => exact List.pairwise_singleton _ _
  | cons current rest ih =>
    rw [List.pairwise_cons] at h
    obtain ⟨hl, hrs⟩ := h
    rw [mergeInto]
    split
    · exact ih (List.pairwise_cons.mpr
        ⟨fun r hr => hl r (.tail _ hr), (List.pairwise_cons.mp hrs).2⟩)
    · refine List.pairwise_cons.mpr ⟨fun r hr => ?_, ih hrs⟩
      obtain ⟨q, hq, hs, -⟩ := start_mergeInto hr
      rw [← hs]
      exact hl q hq

lemma hits_merge (rs : List Range) (t : ℤ) : Hits (merge rs) t ↔ Hits rs t := by
  have hs := pairwise_sortRanges rs
  rw [← hits_perm (perm_sortRanges rs)]
  unfold merge
  cases h : sortRanges rs with
  | nil => rfl
  | cons first rest =>
    rw [h] at hs
    exact hits_mergeInto hs t

lemma pairwise_merge (rs : List Range) : (merge rs).Pairwise fun r r' => r.2 < r'.1 := by
  have hs := pairwise_sortRanges rs
  unfold merge
  cases h : sortRanges rs with
  | nil => exact List.Pairwise.nil
  | cons first rest =>
    rw [h] at hs
    exact pairwise_mergeInto hs

lemma ends_merge (h : r ∈ merge rs) : (∃ q ∈ rs, r.1 = q.1) ∧ ∃ q ∈ rs, r.2 = q.2 := by
  have hmem : ∀ q, q ∈ sortRanges rs ↔ q ∈ rs := fun q => (perm_sortRanges rs).mem_iff
  unfold merge at h
  cases hs : sortRanges rs with
  | nil =>
    rw [hs] at h
    cases h
  | cons first rest =>
    rw [hs] at h hmem
    obtain ⟨⟨q, hq, hst⟩, q', hq', hend⟩ := ends_mergeInto h
    exact ⟨⟨q, (hmem q).mp hq, hst⟩, q', (hmem q').mp hq', hend⟩

lemma eq_or_rel_of_pairwise {α : Type*} {rel : α → α → Prop} {l : List α} (h : l.Pairwise rel) {a b : α} (ha : a ∈ l)
    (hb : b ∈ l) : a = b ∨ rel a b ∨ rel b a := by
  have : Std.Symm fun a b => rel a b ∨ rel b a := ⟨fun _ _ => Or.symm⟩
  have hs : l.Pairwise fun a b => rel a b ∨ rel b a := h.imp Or.inl
  by_cases heq : a = b
  · exact .inl heq
  · exact .inr (hs.forall ha hb heq)

lemma contains_merge (rs : List Range) (t : ℤ) : Contains (merge rs) t ↔ Contains rs t := by
  have hs := pairwise_sortRanges rs
  rw [← contains_perm (perm_sortRanges rs)]
  unfold merge
  cases h : sortRanges rs with
  | nil => rfl
  | cons first rest =>
    rw [h] at hs
    exact contains_mergeInto hs t

lemma covered_merge {c : Range} (hc : c ∈ rs) (hle : c.1 ≤ c.2) : ∃ r ∈ merge rs, r.1 ≤ c.1 ∧ c.2 ≤ r.2 := by
  have hs := pairwise_sortRanges rs
  rw [← (perm_sortRanges rs).mem_iff] at hc
  unfold merge
  cases h : sortRanges rs with
  | nil =>
    rw [h] at hc
    cases hc
  | cons first rest =>
    rw [h] at hs hc
    exact covered_mergeInto hs hc hle

lemma start_merge (h : r ∈ merge rs) : ∃ q ∈ rs, q.1 = r.1 ∧ q.2 ≤ r.2 := by
  have hmem : ∀ q, q ∈ sortRanges rs ↔ q ∈ rs := fun q => (perm_sortRanges rs).mem_iff
  unfold merge at h
  cases hs : sortRanges rs with
  | nil =>
    rw [hs] at h
    cases h
  | cons first rest =>
    rw [hs] at h hmem
    obtain ⟨q, hq, hin⟩ := start_mergeInto h
    exact ⟨q, (hmem q).mp hq, hin⟩

lemma sorted_merge (rs : List Range) : (merge rs).Pairwise fun r r' => r.1 ≤ r'.1 := by
  have hs := pairwise_sortRanges rs
  unfold merge
  cases h : sortRanges rs with
  | nil => exact List.Pairwise.nil
  | cons first rest =>
    rw [h] at hs
    exact sorted_mergeInto hs

lemma pos_merge (hpos : ∀ r ∈ rs, r.1 < r.2) (h : r ∈ merge rs) : r.1 < r.2 := by
  have hgen : ∀ {rest : List Range} {last : Range}, last.1 < last.2 → (∀ r ∈ rest, r.1 < r.2) →
      ∀ r ∈ mergeInto last rest, r.1 < r.2 := by
    intro rest
    induction rest with
    | nil =>
      intro last hl _ r hr
      obtain rfl := List.mem_singleton.mp hr
      exact hl
    | cons current rest ih =>
      intro last hl hrs r hr
      rw [mergeInto] at hr
      have hc := hrs current List.mem_cons_self
      have ht : ∀ r ∈ rest, r.1 < r.2 := fun r hr => hrs r (.tail _ hr)
      split at hr
      · have hj : last.1 < max last.2 current.2 := lt_of_lt_of_le hl (le_max_left _ _)
        exact ih hj ht r hr
      · rcases List.mem_cons.mp hr with rfl | hr
        · exact hl
        · exact ih hc ht r hr
  have hmem : ∀ q ∈ sortRanges rs, q.1 < q.2 := fun q hq => hpos q ((perm_sortRanges rs).mem_iff.mp hq)
  unfold merge at h
  cases hs : sortRanges rs with
  | nil =>
    rw [hs] at h
    cases h
  | cons first rest =>
    rw [hs] at h hmem
    exact hgen (hmem first List.mem_cons_self) (fun r hr => hmem r (.tail _ hr)) r h

lemma count_fetch_one (s : DataSource) (r : Range) (t : ℤ) :
    (s.fetch r).count t = if t ∈ s.bars ∧ r.1 ≤ t ∧ t < r.2 then 1 else 0 := by
  have hn : (s.fetch r).Nodup := s.sorted.nodup.filter _
  rw [List.Nodup.count hn]
  unfold DataSource.fetch
  simp [decide_eq_true_eq]

lemma count_flatMap_apart {read : Range → List ℤ} {P : Prop} [Decidable P]
    (hrd : ∀ r : Range, (read r).count t = if P ∧ r.1 ≤ t ∧ t < r.2 then 1 else 0)
    (h : rs.Pairwise fun r r' => r.2 < r'.1) : (rs.flatMap read).count t = if P ∧ Hits rs t then 1 else 0 := by
  induction rs with
  | nil => simp [hits_nil]
  | cons r rs ih =>
    rw [List.pairwise_cons] at h
    rw [List.flatMap_cons, List.count_append, hrd, ih h.2]
    by_cases hr : r.1 ≤ t ∧ t < r.2
    · -- a later range starts after this one ends
      have hlater : ¬ Hits rs t := by
        rintro ⟨q, hq, hle, -⟩
        have := h.1 q hq
        omega
      simp [hits_cons, hr, hlater]
    · simp [hits_cons, hr]

/-! ### Subtracting -/

section Subtract

variable {interval : ℤ}

lemma add_le_of_dvd {t u : ℤ} (hdvd : interval ∣ u - t) (hlt : t < u) : t + interval ≤ u := by
  have := Int.le_of_dvd (by omega) hdvd
  omega

lemma emod_le_self (hpos : 0 < interval) {x : ℤ} (hx : 0 ≤ x) : x % interval ≤ x := by
  have hdiv := Int.ediv_nonneg hx (le_of_lt hpos)
  have hsum := Int.emod_add_mul_ediv x interval
  have hmul := Int.mul_nonneg (le_of_lt hpos) hdiv
  omega

variable {seg sub : Range}

lemma alignedFirst_eq (h : interval ∣ sub.1 - seg.1) (hseg : seg.1 ≤ seg.2) (hsub : sub.1 ≤ sub.2)
    (hov : seg.1 ≤ sub.2 ∧ sub.1 ≤ seg.2) : alignedFirst seg sub interval = some (max seg.1 sub.1) := by
  have hrem : (max seg.1 sub.1 - seg.1) % interval = 0 := by
    rcases max_choice seg.1 sub.1 with hmax | hmax
    · rw [hmax, sub_self, Int.zero_emod]
    · rw [hmax]
      exact Int.emod_eq_zero_of_dvd h
  unfold alignedFirst
  simp only [hrem, ne_eq, not_true_eq_false, if_false]
  rw [if_neg]
  omega

lemma alignedLast_eq (hpos : 0 < interval) (hseg : seg.1 ≤ seg.2) (hov : seg.1 ≤ sub.2) :
    ∃ last, alignedLast seg sub.2 interval = some last ∧ interval ∣ last - seg.1 ∧ last ≤ min seg.2 sub.2 ∧
      min seg.2 sub.2 < last + interval := by
  have hlow := Int.emod_nonneg (min seg.2 sub.2 - seg.1) (ne_of_gt hpos)
  have hh := Int.emod_lt_of_pos (min seg.2 sub.2 - seg.1) hpos
  have hle := emod_le_self hpos (show 0 ≤ min seg.2 sub.2 - seg.1 by omega)
  refine ⟨min seg.2 sub.2 - (min seg.2 sub.2 - seg.1) % interval, ?_, ?_, by omega, by omega⟩
  · unfold alignedLast
    rw [if_neg]
    omega
  · rw [sub_right_comm]
    exact Int.dvd_self_sub_emod

lemma alignedFirst_of_inverted (hpos : 0 < interval) (h : seg.2 < seg.1) :
    alignedFirst seg sub interval = none := by
  have hh := Int.emod_lt_of_pos (max seg.1 sub.1 - seg.1) hpos
  unfold alignedFirst
  rw [if_pos]
  split
  · omega
  · omega

lemma subtractSegment_cases (hpos : 0 < interval) (hsub : sub.1 ≤ sub.2) (hal : interval ∣ sub.1 - seg.1) :
    subtractSegment interval sub seg = [seg] ∧ (sub.2 < seg.1 ∨ seg.2 < sub.1 ∨ seg.2 < seg.1) ∨
    ∃ last, subtractSegment interval sub seg =
        (if max seg.1 sub.1 > seg.1 then [(seg.1, max seg.1 sub.1 - interval)] else []) ++
          (if last < seg.2 then [(last + interval, seg.2)] else []) ∧
      interval ∣ last - seg.1 ∧ last ≤ min seg.2 sub.2 ∧ min seg.2 sub.2 < last + interval ∧
      max seg.1 sub.1 ≤ last := by
  have hali : isAligned seg.1 sub.1 interval := by
    unfold isAligned
    rw [decide_eq_true_eq]
    exact Int.emod_eq_zero_of_dvd (dvd_sub_comm.mp hal)
  by_cases hov : seg.1 ≤ sub.2 ∧ sub.1 ≤ seg.2
  · have hove : segmentsOverlap seg sub := by
      unfold segmentsOverlap
      rw [Bool.not_eq_true', Bool.or_eq_false_iff, decide_eq_false_iff_not, decide_eq_false_iff_not]
      omega
    unfold subtractSegment
    simp only [hove, hali, Bool.not_true, Bool.false_eq_true, if_false]
    by_cases hseg : seg.1 ≤ seg.2
    · obtain ⟨last, hl, hdvd, hle, hlt⟩ := alignedLast_eq hpos hseg hov.1
      have hfirst : interval ∣ max seg.1 sub.1 - last := by
        have hmax : interval ∣ max seg.1 sub.1 - seg.1 := by
          rcases max_choice seg.1 sub.1 with hmax | hmax
          · rw [hmax, sub_self]
            exact dvd_zero interval
          · rw [hmax]
            exact hal
        have := dvd_sub hmax hdvd
        rwa [sub_sub_sub_cancel_right] at this
      have hge : ¬ last < max seg.1 sub.1 := by
        intro hc
        have := add_le_of_dvd hfirst hc
        omega
      rw [alignedFirst_eq hal hseg hsub hov, hl]
      exact .inr ⟨last, if_neg hge, hdvd, hle, hlt, not_lt.mp hge⟩
    · rw [alignedFirst_of_inverted hpos (not_le.mp hseg)]
      exact .inl ⟨rfl, .inr (.inr (not_le.mp hseg))⟩
  · have hove : segmentsOverlap seg sub = false := by
      unfold segmentsOverlap
      rw [Bool.not_eq_false', Bool.or_eq_true, decide_eq_true_eq, decide_eq_true_eq]
      omega
    unfold subtractSegment
    rw [hove]
    exact .inl ⟨rfl, by omega⟩

/-- A range that is on the grid of a segment takes its own timestamps and, read without ends, the one before them. -/
theorem hits_subtractSegment (hpos : 0 < interval) {t : ℤ} (hsub : sub.1 ≤ sub.2) (hal : interval ∣ sub.1 - seg.1)
    (hend : sub.2 < seg.2 → interval ∣ t - sub.2) (hb : seg.2 < sub.1 → interval ∣ seg.2 - t) :
    Hits (subtractSegment interval sub seg) t ↔ (seg.1 ≤ t ∧ t < seg.2) ∧ (t + interval < sub.1 ∨ sub.2 < t) := by
  rcases subtractSegment_cases hpos hsub hal with ⟨hs, hap⟩ | ⟨last, hl, -, hle, hlt, hge⟩
  · rw [hs, hits_singleton]
    refine ⟨fun hin => ⟨hin, ?_⟩, And.left⟩
    by_cases hlow : seg.2 < sub.1
    · have := add_le_of_dvd (hb hlow) hin.2
      omega
    · omega
  · rw [hl, hits_append]
    constructor
    · rintro (h | h)
      · split at h
        · rw [hits_singleton] at h
          omega
        · exact absurd h (hits_nil t)
      · split at h
        · rw [hits_singleton] at h
          omega
        · exact absurd h (hits_nil t)
    · rintro ⟨hin, hlow | hh⟩
      · left
        rw [if_pos (by omega), hits_singleton]
        omega
      · right
        have hst := add_le_of_dvd (hend (by omega)) hh
        rw [if_pos (by omega), hits_singleton]
        omega

structure SegmentOf (interval origin stop t : ℤ) (seg : Range) : Prop where
  start_dvd : interval ∣ seg.1 - origin
  start_ge : origin ≤ seg.1
  end_le : seg.2 ≤ stop
  end_dvd : seg.2 = stop ∨ interval ∣ seg.2 - t

/-- A range that is taken away from such segments. -/
structure TakenFrom (interval origin stop t : ℤ) (sub : Range) : Prop where
  pos : sub.1 < sub.2
  end_le : sub.2 ≤ stop
  end_dvd : sub.2 = stop ∨ interval ∣ t - sub.2
  start_dvd : interval ∣ sub.1 - origin → interval ∣ sub.1 - t ∨ sub.1 ≤ origin

lemma not_aligned (h : ¬ interval ∣ sub.1 - seg.1) : subtractSegment interval sub seg = [seg] := by
  have hal : isAligned seg.1 sub.1 interval = false := by
    unfold isAligned
    rw [decide_eq_false_iff_not]
    exact fun hz => h (dvd_sub_comm.mp (Int.dvd_of_emod_eq_zero hz))
  unfold subtractSegment
  rw [hal]
  simp

variable {origin stop t : ℤ}

lemma SegmentOf.dvd_iff (hseg : SegmentOf interval origin stop t seg) :
    interval ∣ sub.1 - seg.1 ↔ interval ∣ sub.1 - origin := by
  have hsum : sub.1 - origin = (sub.1 - seg.1) + (seg.1 - origin) := (sub_add_sub_cancel _ _ _).symm
  rw [hsum]
  exact (dvd_add_left hseg.start_dvd).symm

lemma SegmentOf.subtract (hpos : 0 < interval) (hseg : SegmentOf interval origin stop t seg)
    (hsub : TakenFrom interval origin stop t sub) {r : Range} (hr : r ∈ subtractSegment interval sub seg) :
    SegmentOf interval origin stop t r := by
  have hge := hseg.start_ge
  have hend := hseg.end_le
  by_cases hal : interval ∣ sub.1 - seg.1
  · rcases subtractSegment_cases hpos (le_of_lt hsub.pos) hal with ⟨hsl, -⟩ | ⟨last, hl, hdvd, hle, hlt, hmax⟩
    · rw [hsl] at hr
      obtain rfl := List.mem_singleton.mp hr
      exact hseg
    · rw [hl] at hr
      rcases List.mem_append.mp hr with hr | hr
      · split at hr
        · obtain rfl := List.mem_singleton.mp hr
          have hs : max seg.1 sub.1 = sub.1 := by omega
          have hgrid : interval ∣ sub.1 - t := (hsub.start_dvd (hseg.dvd_iff.mp hal)).resolve_right (by omega)
          refine ⟨hseg.start_dvd, hge, by dsimp only; omega, .inr ?_⟩
          rw [hs, sub_right_comm]
          exact dvd_sub_self_right.mpr hgrid
        · cases hr
      · split at hr
        · obtain rfl := List.mem_singleton.mp hr
          refine ⟨?_, by dsimp only; omega, hend, hseg.end_dvd⟩
          have hsum : last + interval - origin = (last - seg.1) + (seg.1 - origin) + interval := by omega
          rw [hsum]
          exact dvd_add (dvd_add hdvd hseg.start_dvd) dvd_rfl
        · cases hr
  · rw [not_aligned hal] at hr
    obtain rfl := List.mem_singleton.mp hr
    exact hseg

/-- After all of them, a fetch reads what lay in a segment and next to none of those on its grid. -/
theorem hits_subtractSegments (hpos : 0 < interval) {subs : List Range}
    (hsb : ∀ sub ∈ subs, TakenFrom interval origin stop t sub) {segs : List Range}
    (hsg : ∀ seg ∈ segs, SegmentOf interval origin stop t seg) : Hits (subtractSegments interval segs subs) t ↔
      Hits segs t ∧ ∀ sub ∈ subs, interval ∣ sub.1 - origin → t + interval < sub.1 ∨ sub.2 < t := by
  induction subs generalizing segs with
  | nil => exact ⟨fun h => ⟨h, fun _ hs => absurd hs List.not_mem_nil⟩, And.left⟩
  | cons sub subs ih =>
    have hsub := hsb sub List.mem_cons_self
    have hrs : ∀ sub ∈ subs, TakenFrom interval origin stop t sub := fun q hq => hsb q (.tail _ hq)
    have hl : ∀ r ∈ segs.flatMap (subtractSegment interval sub), SegmentOf interval origin stop t r := by
      intro r hr
      obtain ⟨seg, hseg, hr⟩ := List.mem_flatMap.mp hr
      exact (hsg seg hseg).subtract hpos hsub hr
    have hst : Hits (segs.flatMap (subtractSegment interval sub)) t ↔
        Hits segs t ∧ (interval ∣ sub.1 - origin → t + interval < sub.1 ∨ sub.2 < t) := by
      rw [hits_flatMap]
      have hone : ∀ seg ∈ segs, Hits (subtractSegment interval sub seg) t ↔
          (seg.1 ≤ t ∧ t < seg.2) ∧ (interval ∣ sub.1 - origin → t + interval < sub.1 ∨ sub.2 < t) := by
        intro seg hmem
        have hseg := hsg seg hmem
        by_cases hal : interval ∣ sub.1 - seg.1
        · have hor := hseg.dvd_iff.mp hal
          have hle := hsub.pos
          have hsu := hsub.end_le
          have hse := hseg.end_le
          have hend : sub.2 < seg.2 → interval ∣ t - sub.2 := fun hlt => hsub.end_dvd.resolve_left (by omega)
          have hb : seg.2 < sub.1 → interval ∣ seg.2 - t := fun hlt => hseg.end_dvd.resolve_left (by omega)
          rw [hits_subtractSegment hpos (le_of_lt hle) hal hend hb]
          exact and_congr_right fun _ => ⟨fun h _ => h, fun h => h hor⟩
        · have hor : ¬ interval ∣ sub.1 - origin := fun h => hal (hseg.dvd_iff.mpr h)
          rw [not_aligned hal, hits_singleton]
          exact ⟨fun h => ⟨h, fun hd => absurd hd hor⟩, And.left⟩
      constructor
      · rintro ⟨seg, hseg, h⟩
        obtain ⟨hin, ht⟩ := (hone seg hseg).mp h
        exact ⟨⟨seg, hseg, hin⟩, ht⟩
      · rintro ⟨⟨seg, hseg, hin⟩, ht⟩
        exact ⟨seg, hseg, (hone seg hseg).mpr ⟨hin, ht⟩⟩
    have hn : Hits (subtractSegments interval segs (sub :: subs)) t ↔
        Hits (subtractSegments interval (segs.flatMap (subtractSegment interval sub)) subs) t := by
      have hle := hsub.pos
      rw [subtractSegments, if_neg (by omega)]
      dsimp only
      split
      · rename_i hnil
        rw [hnil, ih hrs (fun _ h => absurd h List.not_mem_nil)]
        exact ⟨fun h => absurd h (hits_nil t), fun h => absurd h.1 (hits_nil t)⟩
      · rfl
    rw [hn, ih hrs hl, hst, List.forall_mem_cons, and_assoc]

lemma hits_subtract (hpos : 0 < interval) {start : ℤ} {available : List Range}
    (h : ∀ sub ∈ available, TakenFrom interval start stop t sub) :
    Hits (subtract [(start, stop)] available interval) t ↔
      (start ≤ t ∧ t < stop) ∧ ∀ sub ∈ available, interval ∣ sub.1 - start → t + interval < sub.1 ∨ sub.2 < t := by
  unfold subtract
  by_cases hnil : available = []
  · rw [if_pos hnil, hits_singleton, hnil]
    exact ⟨fun h => ⟨h, fun _ hs => absurd hs List.not_mem_nil⟩, And.left⟩
  · rw [if_neg hnil, if_neg (by omega)]
    unfold subtractWithInterval
    rw [hits_merge, hits_perm (perm_sortRanges _), List.flatMap_singleton]
    have hseg : ∀ seg ∈ [(start, stop)], SegmentOf interval start stop t seg := by
      intro seg hseg
      obtain rfl := List.mem_singleton.mp hseg
      exact ⟨by rw [sub_self]; exact dvd_zero interval, le_refl _, le_refl _, .inl rfl⟩
    rw [hits_subtractSegments hpos h hseg, hits_singleton]

lemma pairwise_subtract (hpos : 0 < interval) (r : Range) (available : List Range) :
    (subtract [r] available interval).Pairwise fun q q' => q.2 < q'.1 := by
  unfold subtract
  split
  · exact List.pairwise_singleton _ _
  · rw [if_neg (by omega)]
    exact pairwise_merge _

end Subtract

end Qmtl.Runtime.Seamless

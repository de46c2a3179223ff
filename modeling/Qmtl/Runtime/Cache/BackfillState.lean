import Qmtl.Lib.DictLoops
import Qmtl.Runtime.Seamless.FetchPlanner

/-! `BackfillState` and the ranges that both caches mark in it. -/

namespace Qmtl.Runtime.Cache

open Lib Runtime.Seamless

/-- `(upstream_id, interval)`. -/
abbrev Pair := String × ℕ

/-! ### `_merge` -/

def mergeClosedInto (interval : ℕ) (last : Range) : List Range → List Range
  | [] => [last]
  | r :: rest =>
    if r.1 ≤ last.2 + interval then mergeClosedInto interval (last.1, max last.2 r.2) rest
    else last :: mergeClosedInto interval r rest

def mergeClosed (interval : ℕ) (ranges : List Range) : List Range :=
  match sortRanges ranges with
  | [] => []
  | first :: rest => mergeClosedInto interval first rest

/-- The loop over sorted timestamps that joins the consecutive ones. -/
def rangesFrom (interval : ℕ) (start prev : ℤ) : List ℤ → List Range
  | [] => [(start, prev)]
  | ts :: rest =>
    if ts = prev + interval then rangesFrom interval start ts rest
    else (start, prev) :: rangesFrom interval ts ts rest

def consecutiveRanges (interval : ℕ) : List ℤ → List Range
  | [] => []
  | ts :: rest => rangesFrom interval ts ts rest

structure BackfillState where
  ranges : Dict Pair (List Range)

namespace BackfillState

def empty : BackfillState := ⟨Dict.empty⟩

def rangesOf (s : BackfillState) (pair : Pair) : List Range := (s.ranges.get? pair).getD []

def markRange (s : BackfillState) (pair : Pair) (start stop : ℤ) : BackfillState :=
  let r := if start > stop then (stop, start) else (start, stop)
  ⟨s.ranges.set pair (mergeClosed pair.2 (s.rangesOf pair ++ [r]))⟩

def markRanges (s : BackfillState) (pair : Pair) (rng : List Range) : BackfillState :=
  rng.foldl (fun s r => s.markRange pair r.1 r.2) s

def forget (s : BackfillState) (pair : Pair) : BackfillState := ⟨s.ranges.erase pair⟩

end BackfillState

/-! ### The instants that ranges cover -/

def barsOf (interval : ℕ) (r : Range) : Range := (r.1, r.2 + interval)

lemma barsOf_injective (interval : ℕ) : Function.Injective (barsOf interval) := by
  rintro ⟨s, e⟩ ⟨s', e'⟩ h
  obtain ⟨rfl, hend⟩ := Prod.mk.inj h
  exact Prod.ext rfl (add_right_cancel hend)

lemma map_mergeClosedInto (interval : ℕ) (rest : List Range) (last : Range) :
    (mergeClosedInto interval last rest).map (barsOf interval) =
      mergeInto (barsOf interval last) (rest.map (barsOf interval)) := by
  induction rest generalizing last with
  | nil => rfl
  | cons r rest ih =>
    have hmax : barsOf interval (last.1, max last.2 r.2) =
        ((barsOf interval last).1, max (barsOf interval last).2 (barsOf interval r).2) :=
      Prod.ext rfl (max_add_add_right last.2 r.2 (interval : ℤ)).symm
    rw [mergeClosedInto, List.map_cons, mergeInto]
    by_cases hj : r.1 ≤ last.2 + interval
    · rw [if_pos hj, if_pos (show (barsOf interval r).1 ≤ (barsOf interval last).2 from hj), ih, hmax]
    · rw [if_neg hj, if_neg (show ¬ (barsOf interval r).1 ≤ (barsOf interval last).2 from hj), List.map_cons, ih]

lemma map_mergeClosed (interval : ℕ) (ranges : List Range) :
    (mergeClosed interval ranges).map (barsOf interval) = merge (ranges.map (barsOf interval)) := by
  have hs : (sortRanges ranges).map (barsOf interval) = sortRanges (ranges.map (barsOf interval)) := by
    refine List.map_insertionSort _ _ _ _ ?_
    intro r _ r' _
    unfold rangeLe barsOf
    omega
  rw [mergeClosed, merge, ← hs]
  cases sortRanges ranges with
  | nil => rfl
  | cons first rest => exact map_mergeClosedInto interval rest first

lemma eq_of_hits {rs rs' : List Range} (hap : rs.Pairwise fun r r' => r.2 < r'.1)
    (ha' : rs'.Pairwise fun r r' => r.2 < r'.1) (hpos : ∀ r ∈ rs, r.1 < r.2) (hp' : ∀ r ∈ rs', r.1 < r.2)
    (h : ∀ t, Hits rs t ↔ Hits rs' t) : rs = rs' := by
  -- where a list begins, and where its first range ends
  have hfirst : ∀ {r : Range} {rs : List Range}, (r :: rs).Pairwise (fun r r' => r.2 < r'.1) → (∀ q ∈ r :: rs, q.1 < q.2) →
      (∀ t, Hits (r :: rs) t → r.1 ≤ t) ∧ Hits (r :: rs) r.1 ∧ ¬ Hits (r :: rs) r.2 ∧ ∀ t, Hits rs t → r.2 < t := by
    intro r rs hp hq
    rw [List.pairwise_cons] at hp
    have hr := hq r List.mem_cons_self
    have hlater : ∀ t, Hits rs t → r.2 < t := by
      rintro t ⟨q, hmem, hle, -⟩
      exact (hp.1 q hmem).trans_le hle
    refine ⟨fun t ht => ?_, hits_cons.mpr (.inl ⟨le_rfl, hr⟩), fun ht => ?_, hlater⟩
    · rcases hits_cons.mp ht with ⟨hle, -⟩ | ht
      · exact hle
      · exact hr.le.trans (hlater t ht).le
    · rcases hits_cons.mp ht with ⟨-, hlt⟩ | ht
      · exact lt_irrefl _ hlt
      · exact lt_irrefl _ (hlater _ ht)
  induction rs generalizing rs' with
  | nil =>
    cases rs' with
    | nil => rfl
    | cons r' rs' => exact absurd ((h r'.1).mpr (hfirst ha' hp').2.1) (hits_nil _)
  | cons r rs ih =>
    cases rs' with
    | nil => exact absurd ((h r.1).mp (hfirst hap hpos).2.1) (hits_nil _)
    | cons r' rs' =>
      obtain ⟨hmin, hs, hst, hlater⟩ := hfirst hap hpos
      obtain ⟨hm', hs', hst', hl'⟩ := hfirst ha' hp'
      have hone : r.1 = r'.1 := le_antisymm (hmin _ ((h _).mpr hs')) (hm' _ ((h _).mp hs))
      have hr := hpos r List.mem_cons_self
      have hr' := hp' r' List.mem_cons_self
      have htwo : r.2 = r'.2 := by
        rcases lt_trichotomy r.2 r'.2 with hlt | heq | hgt
        · exact absurd ((h _).mpr (hits_cons.mpr (.inl ⟨hone ▸ hr.le, hlt⟩))) hst
        · exact heq
        · exact absurd ((h _).mp (hits_cons.mpr (.inl ⟨hone ▸ hr'.le, hgt⟩))) hst'
      have hrr : r = r' := Prod.ext hone htwo
      subst hrr
      have hrs : ∀ t, Hits rs t ↔ Hits rs' t := by
        intro t
        constructor
        · intro ht
          rcases hits_cons.mp ((h t).mp (hits_cons.mpr (.inr ht))) with ⟨-, hlt⟩ | ht'
          · exact absurd (hlater t ht) hlt.not_gt
          · exact ht'
        · intro ht
          rcases hits_cons.mp ((h t).mpr (hits_cons.mpr (.inr ht))) with ⟨-, hlt⟩ | ht'
          · exact absurd (hl' t ht) hlt.not_gt
          · exact ht'
      rw [ih (List.pairwise_cons.mp hap).2 (List.pairwise_cons.mp ha').2
        (fun q hq => hpos q (.tail _ hq)) (fun q hq => hp' q (.tail _ hq)) hrs]

/-- Merged closed ranges that cover exactly the instants of `covered`. -/
structure Marks (interval : ℕ) (rs : List Range) (covered : ℤ → Prop) : Prop where
  apart : (rs.map (barsOf interval)).Pairwise fun r r' => r.2 < r'.1
  pos : ∀ r ∈ rs.map (barsOf interval), r.1 < r.2
  hits : ∀ t, Hits (rs.map (barsOf interval)) t ↔ covered t

namespace Marks

variable {interval : ℕ} {rs rs' : List Range} {covered covered' : ℤ → Prop}

lemma nil (h : ∀ t, ¬ covered t) : Marks interval [] covered where
  apart := List.Pairwise.nil
  pos _ hr := absurd hr List.not_mem_nil
  hits t := iff_of_false (hits_nil t) (h t)

lemma congr (h : Marks interval rs covered) (hiff : ∀ t, covered t ↔ covered' t) : Marks interval rs covered' :=
  ⟨h.apart, h.pos, fun t => (h.hits t).trans (hiff t)⟩

lemma eq_iff (h : Marks interval rs covered) (h' : Marks interval rs' covered') :
    rs = rs' ↔ ∀ t, covered t ↔ covered' t := by
  constructor
  · rintro rfl t
    rw [← h.hits, h'.hits]
  · intro hiff
    refine List.map_injective_iff.mpr (barsOf_injective interval) ?_
    exact eq_of_hits h.apart h'.apart h.pos h'.pos fun t => by rw [h.hits, h'.hits, hiff]

lemma mark (h : Marks interval rs covered) {r : Range} (hr : r.1 < r.2 + interval) :
    Marks interval (mergeClosed interval (rs ++ [r])) fun t => covered t ∨ (r.1 ≤ t ∧ t < r.2 + interval) := by
  have hmap : (mergeClosed interval (rs ++ [r])).map (barsOf interval) =
      merge (rs.map (barsOf interval) ++ [barsOf interval r]) := by
    rw [map_mergeClosed, List.map_append, List.map_singleton]
  refine ⟨?_, ?_, ?_⟩
  · rw [hmap]
    exact pairwise_merge _
  · rw [hmap]
    intro q hq
    refine pos_merge ?_ hq
    intro q hq
    rcases List.mem_append.mp hq with hq | hq
    · exact h.pos q hq
    · obtain rfl := List.mem_singleton.mp hq
      exact hr
  · intro t
    rw [hmap, hits_merge, hits_append, h.hits, hits_singleton]
    rfl

end Marks

namespace BackfillState

variable {s : BackfillState} {pair : Pair} {covered : ℤ → Prop}

@[simp] lemma rangesOf_empty (pair : Pair) : empty.rangesOf pair = [] := rfl

lemma rangesOf_forget (s : BackfillState) (pair pair' : Pair) :
    (s.forget pair).rangesOf pair' = if pair' = pair then [] else s.rangesOf pair' := by
  rw [rangesOf, forget, Dict.get?_erase]
  split <;> rfl

lemma rangesOf_markRange (s : BackfillState) {r : Range} (h : r.1 ≤ r.2) (pair pair' : Pair) :
    (s.markRange pair r.1 r.2).rangesOf pair' =
      if pair' = pair then mergeClosed pair.2 (s.rangesOf pair ++ [r]) else s.rangesOf pair' := by
  rw [rangesOf, markRange, Dict.get?_set, if_neg h.not_gt]
  split <;> rfl

lemma rangesOf_markRanges_ne (s : BackfillState) {rng : List Range} (h : ∀ r ∈ rng, r.1 ≤ r.2) {pair pair' : Pair}
    (hne : pair' ≠ pair) : (s.markRanges pair rng).rangesOf pair' = s.rangesOf pair' := by
  induction rng generalizing s with
  | nil => rfl
  | cons r rng ih =>
    rw [markRanges, List.foldl_cons, ← markRanges, ih _ fun q hq => h q (.tail _ hq),
      rangesOf_markRange s (h r List.mem_cons_self), if_neg hne]

lemma marks_markRanges (hm : Marks pair.2 (s.rangesOf pair) covered) {rng : List Range} (h : ∀ r ∈ rng, r.1 ≤ r.2)
    (hin : 0 < pair.2) :
    Marks pair.2 ((s.markRanges pair rng).rangesOf pair) fun t => covered t ∨ Hits (rng.map (barsOf pair.2)) t := by
  induction rng generalizing s covered with
  | nil => exact hm.congr fun t => (or_iff_left (hits_nil t)).symm
  | cons r rng ih =>
    have hr := h r List.mem_cons_self
    have hs := hm.mark (r := r) (by omega)
    have hset : mergeClosed pair.2 (s.rangesOf pair ++ [r]) = (s.markRange pair r.1 r.2).rangesOf pair := by
      rw [rangesOf_markRange s hr, if_pos rfl]
    rw [hset] at hs
    refine (ih hs fun q hq => h q (.tail _ hq)).congr fun t => ?_
    rw [List.map_cons, hits_cons, or_assoc]
    rfl

end BackfillState

def InBars (interval : ℕ) (bars : List ℤ) (t : ℤ) : Prop := ∃ b ∈ bars, b ≤ t ∧ t < b + interval

lemma le_of_mem_rangesFrom {interval : ℕ} {start prev : ℤ} (hle : start ≤ prev) {ts : List ℤ} {r : Range}
    (h : r ∈ rangesFrom interval start prev ts) : r.1 ≤ r.2 := by
  induction ts generalizing start prev with
  | nil =>
    obtain rfl := List.mem_singleton.mp h
    exact hle
  | cons t ts ih =>
    rw [rangesFrom] at h
    split at h
    · exact ih (by omega) h
    · rcases List.mem_cons.mp h with rfl | h
      · exact hle
      · exact ih le_rfl h

lemma hits_rangesFrom {interval : ℕ} {start prev : ℤ} (hle : start ≤ prev) (ts : List ℤ) (t : ℤ) :
    Hits ((rangesFrom interval start prev ts).map (barsOf interval)) t ↔
      (start ≤ t ∧ t < prev + interval) ∨ InBars interval ts t := by
  induction ts generalizing start prev with
  | nil =>
    rw [rangesFrom, List.map_singleton, hits_singleton, or_iff_left]
    · rfl
    · rintro ⟨b, hb, -⟩
      cases hb
  | cons ts rest ih =>
    have hc : InBars interval (ts :: rest) t ↔ (ts ≤ t ∧ t < ts + interval) ∨ InBars interval rest t := by
      simp [InBars]
    rw [rangesFrom, hc]
    split
    · rw [ih (by omega), ← or_assoc]
      refine or_congr_left ?_
      omega
    · rw [List.map_cons, hits_cons, ih le_rfl]
      rfl

lemma le_of_mem_consecutiveRanges {interval : ℕ} {ts : List ℤ} {r : Range} (h : r ∈ consecutiveRanges interval ts) :
    r.1 ≤ r.2 := by
  cases ts with
  | nil => cases h
  | cons t ts => exact le_of_mem_rangesFrom le_rfl h

lemma hits_consecutiveRanges (interval : ℕ) (ts : List ℤ) (t : ℤ) :
    Hits ((consecutiveRanges interval ts).map (barsOf interval)) t ↔ InBars interval ts t := by
  cases ts with
  | nil =>
    refine iff_of_false (hits_nil t) ?_
    rintro ⟨b, hb, -⟩
    cases hb
  | cons ts rest =>
    rw [consecutiveRanges, hits_rangesFrom le_rfl]
    simp [InBars]

/-! ### Closed ranges on a grid -/

def OnGrid (interval : ℕ) (origin : ℤ) (rs : List Range) : Prop :=
  ∀ r ∈ rs, (interval : ℤ) ∣ r.1 - origin ∧ (interval : ℤ) ∣ r.2 - origin

section MergeClosed

variable {interval : ℕ} {rs : List Range}

lemma hits_bars_iff {origin : ℤ} (hpos : 0 < interval) (hgrid : OnGrid interval origin rs) {t : ℤ}
    (ht : (interval : ℤ) ∣ t - origin) : Hits (rs.map (barsOf interval)) t ↔ Contains rs t := by
  constructor
  · rintro ⟨q, hq, hle, hlt⟩
    obtain ⟨r, hr, rfl⟩ := List.mem_map.mp hq
    refine ⟨r, hr, hle, ?_⟩
    by_contra hlater
    have hdvd := dvd_sub ht (hgrid r hr).2
    rw [sub_sub_sub_cancel_right] at hdvd
    have hn := add_le_of_dvd hdvd (not_le.mp hlater)
    dsimp only [barsOf] at hlt
    omega
  · rintro ⟨r, hr, hle, hle'⟩
    refine ⟨barsOf interval r, List.mem_map_of_mem hr, hle, ?_⟩
    dsimp only [barsOf]
    omega

lemma apart_mergeClosed (interval : ℕ) (rs : List Range) :
    (mergeClosed interval rs).Pairwise fun r r' : Range => r.2 + interval < r'.1 := by
  have h := pairwise_merge (rs.map (barsOf interval))
  rw [← map_mergeClosed, List.pairwise_map] at h
  exact h

lemma ends_mergeClosed {r : Range} (h : r ∈ mergeClosed interval rs) :
    (∃ q ∈ rs, r.1 = q.1) ∧ ∃ q ∈ rs, r.2 = q.2 := by
  have hmem : barsOf interval r ∈ merge (rs.map (barsOf interval)) := by
    rw [← map_mergeClosed]
    exact List.mem_map_of_mem h
  obtain ⟨⟨q, hq, hs⟩, q', hq', hend⟩ := ends_merge hmem
  obtain ⟨p, hp, rfl⟩ := List.mem_map.mp hq
  obtain ⟨p', hp', rfl⟩ := List.mem_map.mp hq'
  exact ⟨⟨p, hp, hs⟩, p', hp', add_right_cancel hend⟩

lemma onGrid_mergeClosed {origin : ℤ} (h : OnGrid interval origin rs) : OnGrid interval origin (mergeClosed interval rs) := by
  intro r hr
  obtain ⟨⟨q, hq, hs⟩, q', hq', hend⟩ := ends_mergeClosed hr
  rw [hs, hend]
  exact ⟨(h q hq).1, (h q' hq').2⟩

lemma contains_mergeClosed {origin : ℤ} (hpos : 0 < interval) (hgrid : OnGrid interval origin rs) {t : ℤ}
    (ht : (interval : ℤ) ∣ t - origin) : Contains (mergeClosed interval rs) t ↔ Contains rs t := by
  rw [← hits_bars_iff hpos (onGrid_mergeClosed hgrid) ht, map_mergeClosed, hits_merge, hits_bars_iff hpos hgrid ht]

lemma mergeClosed_spec (hle : ∀ r ∈ rs, r.1 ≤ r.2) :
    (∀ r ∈ mergeClosed interval rs, r.1 ≤ r.2) ∧ ∀ r ∈ rs, ∃ q ∈ mergeClosed interval rs, q.1 ≤ r.1 ∧ r.2 ≤ q.2 := by
  constructor
  · intro r hr
    have hmem : barsOf interval r ∈ merge (rs.map (barsOf interval)) := by
      rw [← map_mergeClosed]
      exact List.mem_map_of_mem hr
    obtain ⟨q, hq, hs, hst⟩ := start_merge hmem
    obtain ⟨p, hp, rfl⟩ := List.mem_map.mp hq
    have := hle p hp
    dsimp only [barsOf] at hs hst
    omega
  · intro r hr
    have := hle r hr
    obtain ⟨q, hq, hs, hst⟩ := covered_merge (List.mem_map_of_mem (f := barsOf interval) hr)
      (show r.1 ≤ r.2 + interval by omega)
    rw [← map_mergeClosed] at hq
    obtain ⟨p, hp, rfl⟩ := List.mem_map.mp hq
    dsimp only [barsOf] at hs hst
    exact ⟨p, hp, hs, by omega⟩

end MergeClosed

end Qmtl.Runtime.Cache

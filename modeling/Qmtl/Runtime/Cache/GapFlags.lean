import Qmtl.Runtime.Cache.Watermarks
import Mathlib.Order.Bounds.Basic

/-!
The missing flag of a pair: what an append and a backfill write into it, and what it says of the buckets that were seen.
-/

namespace Qmtl.Runtime.Cache

open Lib

variable {P : Type} {period : ℕ}

inductive PairCall (P : Type) where
  | append (timestamp : ℤ) (payload : P)
  | backfill (items : List (Item P))

namespace PairCall

def on (pair : Pair) : PairCall P → CacheCall P
  | append timestamp payload => .append pair.1 pair.2 timestamp payload
  | backfill items => .backfillBulk pair.1 pair.2 items

def buckets (interval : ℕ) : PairCall P → List ℤ
  | append timestamp _ => [bucketOf interval timestamp]
  | backfill items => items.map fun e => bucketOf interval e.1

end PairCall

def seen (interval : ℕ) (calls : List (PairCall P)) : List ℤ := calls.flatMap (PairCall.buckets interval)

def GapBelowNewest (interval : ℕ) (buckets : List ℤ) : Prop :=
  ∃ newest second, IsGreatest {b | b ∈ buckets} newest ∧ IsGreatest {b | b ∈ buckets ∧ b < newest} second ∧
    ∃ b, (interval : ℤ) ∣ b ∧ second < b ∧ b < newest

namespace NodeCache

def runOn (pair : Pair) (calls : List (PairCall P)) : NodeCache P period := run (calls.map (PairCall.on pair))

def flagOf (c : NodeCache P period) (pair : Pair) : Option Bool := (c.missingFlags.get? pair.1).bind (·.get? pair.2)

def NeverBack (period : ℕ) (pair : Pair) (calls : List (PairCall P)) : Prop :=
  ∀ earlier items later, calls = earlier ++ .backfill items :: later → ∀ last,
    (runOn pair earlier : NodeCache P period).lastOf pair = some last →
      ∃ last', (runOn pair (earlier ++ [.backfill items]) : NodeCache P period).lastOf pair = some last' ∧ last ≤ last'

lemma runOn_concat (pair : Pair) (calls : List (PairCall P)) (call : PairCall P) :
    (runOn pair (calls ++ [call]) : NodeCache P period) = ((runOn pair calls).call (call.on pair)).state := by
  rw [runOn, List.map_append, List.map_singleton, run_concat, runOn]

lemma timed_runOn (pair : Pair) (calls : List (PairCall P)) : (runOn pair calls : NodeCache P period).Timed :=
  timed_run _

/-! ### What a call writes -/

lemma flagOf_eq (c : NodeCache P period) (pair : Pair) : c.flagOf pair = c.missing.get? pair := by
  rw [flagOf, missingFlags, get?_byUpstream]

lemma flagOf_ensureBuffer {c c' : NodeCache P period} {pair : Pair} {buffer : RingBuffer P period}
    (h : c.ensureBuffer pair = some (buffer, c')) :
    c'.flagOf pair = c.flagOf pair ∨ c.buffers.get? pair = none ∧ c'.flagOf pair = some false := by
  unfold ensureBuffer at h
  split at h
  · obtain ⟨-, rfl⟩ := Prod.mk.inj (Option.some.inj h)
    exact .inl rfl
  · rename_i hget
    obtain ⟨_, -, he⟩ := Option.map_eq_some_iff.mp h
    obtain ⟨-, rfl⟩ := Prod.mk.inj he
    exact .inr ⟨hget, by rw [flagOf_eq, Dict.get?_set_self]⟩

lemma flagOf_trackAppend (c : NodeCache P period) (pair : Pair) (bucket : ℤ) :
    (c.trackAppend pair bucket).flagOf pair = some true ↔
      ∃ last, c.lastOf pair = some last ∧ last ≤ bucket ∧ bucket ≠ last + pair.2 := by
  rw [flagOf_eq, lastOf_eq]
  unfold trackAppend
  cases hl : (c.lastTs.get? pair).join with
  | none => simp
  | some prev =>
    dsimp only
    split
    · simp only [Dict.get?_set_self, Option.some.injEq, Bool.false_eq_true, false_iff, not_exists, not_and]
      rintro last rfl hle
      omega
    · rename_i hge
      simp only [Dict.get?_set_self, Option.some.injEq, decide_eq_true_eq, exists_eq_left', not_lt.mp hge, true_and]
      exact ne_comm

lemma flagOf_trackBackfill (c : NodeCache P period) (pair : Pair) (merged : List (Item P)) :
    (c.trackBackfill pair merged).flagOf pair = some true ↔ merged.getLast? = none ∧ c.flagOf pair = some true ∨
      ∃ newest last, merged.getLast? = some newest ∧ c.lastOf pair = some last ∧
        (newest.1 = last ∧ c.flagOf pair = some true ∨ newest.1 ≠ last ∧ newest.1 ≠ last + pair.2) := by
  rw [flagOf_eq, flagOf_eq, lastOf_eq]
  unfold trackBackfill
  cases merged.getLast? with
  | none => simp
  | some newest =>
    cases hl : (c.lastTs.get? pair).join with
    | none => simp
    | some last =>
      by_cases heq : newest.1 = last
      · simp [heq]
      · simpa [heq] using ne_comm

lemma flagOf_append {c : NodeCache P period} (hpr : c.SamePairs) (u : String) {i : ℕ} (t : ℤ) (payload : P)
    (hi : i ≠ 0) (hp : 0 < period) : (c.append u i t payload).state.flagOf (u, i) = some true ↔
      ∃ last, c.lastOf (u, i) = some last ∧ last ≤ bucketOf i t ∧ bucketOf i t ≠ last + i := by
  obtain ⟨buffer, c', hen⟩ := c.exists_ensureBuffer hp (u, i)
  obtain ⟨-, hw, -, -⟩ := ensureBuffer_written hpr hen
  have ht := flagOf_trackAppend c' (u, i) (bucketOf i t)
  rw [hw.last, flagOf_eq] at ht
  rw [flagOf_eq, append, hen]
  dsimp only
  rw [if_neg hi]
  exact ht

lemma flagOf_backfillBulk {c : NodeCache P period} (hp : c.SamePairs) (u : String) {i : ℕ} (items : List (Item P))
    (hi : i ≠ 0) (hpr : 0 < period) (hn : c.lastOf (u, i) = none → c.flagOf (u, i) ≠ some true) :
    (c.backfillBulk u i items).state.flagOf (u, i) = some true ↔
      ∃ last newest, c.lastOf (u, i) = some last ∧ (c.backfillBulk u i items).state.lastOf (u, i) = some newest ∧
        (newest = last ∧ c.flagOf (u, i) = some true ∨ newest ≠ last ∧ newest ≠ last + i) := by
  obtain ⟨buffer, c', hen⟩ := c.exists_ensureBuffer hpr (u, i)
  obtain ⟨hit, hens, -, -⟩ := ensureBuffer_written hp hen
  have hb : bucketize i items = some (bucketed i items) := if_neg fun h => hi h.1
  have hr : ¬ (i = 0 ∧ items ≠ []) := fun h => hi h.1
  obtain ⟨hw, -⟩ := backfillBulk_written hp u hr hpr
  have hf : c'.flagOf (u, i) = some true ↔ c.flagOf (u, i) = some true := by
    rcases flagOf_ensureBuffer hen with h | ⟨hbf, h⟩
    · rw [h]
    · have hl : c.lastTs.get? (u, i) = none := by
        rw [← Option.not_isSome_iff_eq_none, ← hp, hbf]
        simp
      rw [h]
      exact iff_of_false (by simp) (hn (lastOf_empty hl))
  have hs : (c.backfillBulk u i items).state.flagOf (u, i) = some true ↔
      (c'.trackBackfill (u, i) (mergedItems period (c.itemsOf (u, i)) (bucketed i items))).flagOf (u, i) = some true := by
    rw [backfillBulk, hen]
    dsimp only [mergeBackfill]
    rw [hb]
    dsimp only [Option.map_some]
    rw [hit, ← mergedItems, flagOf_trackBackfill, flagOf_trackBackfill]
    rfl
  rw [hs, flagOf_trackBackfill, hens.last, hf, hw.last]
  cases (mergedItems period (c.itemsOf (u, i)) (bucketed i items)).getLast? with
  | none =>
    cases hl : c.lastOf (u, i) with
    | none => simpa using hn hl
    | some last => simp
  | some newest =>
    cases c.lastOf (u, i) with
    | none => simp
    | some last => simp

/-! ### Runs -/

variable {u : String} {i : ℕ}

lemma last_of_flag (hp : 0 < period) (hi : i ≠ 0) (calls : List (PairCall P))
    (hl : (runOn (u, i) calls : NodeCache P period).lastOf (u, i) = none) :
    (runOn (u, i) calls : NodeCache P period).flagOf (u, i) ≠ some true := by
  induction calls using List.reverseRecOn with
  | nil =>
    intro h
    cases h
  | append_singleton calls call ih =>
    have hpr := (@timed_runOn P period (u, i) calls).pairs
    rw [runOn_concat] at hl ⊢
    cases call with
    | append t payload =>
      rw [PairCall.on, NodeCache.call, (append_written hpr u t payload hi hp).1.last] at hl
      cases hl
    | backfill items =>
      rw [PairCall.on, NodeCache.call] at hl ⊢
      rw [Ne, flagOf_backfillBulk hpr u items hi hp (fun h => ih h), hl]
      rintro ⟨_, _, -, hn, -⟩
      cases hn

lemma seen_concat (calls : List (PairCall P)) (call : PairCall P) :
    seen i (calls ++ [call]) = seen i calls ++ call.buckets i := by
  rw [seen, List.flatMap_append, List.flatMap_singleton, seen]

variable {calls : List (PairCall P)}

lemma NeverBack.before {pair : Pair} {call : PairCall P}
    (h : NeverBack period pair (calls ++ [call])) : NeverBack period pair calls := by
  intro earlier items later hc
  refine h earlier items (later ++ [call]) ?_
  rw [hc, List.append_assoc, List.cons_append]

lemma mem_buckets_backfill {items : List (Item P)} {b : ℤ} :
    b ∈ (PairCall.backfill items).buckets i ↔ ∃ e ∈ bucketed i items, e.1 = b := by
  have hmap : (PairCall.backfill items).buckets i = (bucketed i items).map Prod.fst := by
    rw [PairCall.buckets, bucketed, List.map_map]
    rfl
  rw [hmap, List.mem_map]

lemma newest_runOn (hp : 0 < period) (hi : i ≠ 0) (h : NeverBack period (u, i) calls) :
    (runOn (u, i) calls : NodeCache P period).lastOf (u, i) = none ∧ seen i calls = [] ∨
      ∃ last, (runOn (u, i) calls : NodeCache P period).lastOf (u, i) = some last ∧
        IsGreatest {b | b ∈ seen i calls} last := by
  induction calls using List.reverseRecOn with
  | nil => exact .inl ⟨rfl, rfl⟩
  | append_singleton calls call ih =>
    have ht : (runOn (u, i) calls : NodeCache P period).Timed := timed_runOn _ _
    have hbf := ih h.before
    rw [runOn_concat, seen_concat]
    cases call with
    | append t payload =>
      have hl := (append_written ht.pairs u t payload hi hp).1.last
      refine .inr ⟨_, hl, ?_⟩
      rcases hbf with ⟨hn, hsn⟩ | ⟨last, hs, hg⟩
      · rw [hn, hsn]
        simp [PairCall.buckets]
      · have hset : {b | b ∈ seen i calls ++ (PairCall.append t payload).buckets i} =
            insert (bucketOf i t) {b | b ∈ seen i calls} := by
          ext b
          simp [PairCall.buckets, or_comm]
        rw [hs, hset]
        exact hg.insert _
    | backfill items =>
      have hr : ¬ (i = 0 ∧ items ≠ []) := fun h => hi h.1
      obtain ⟨hw, -⟩ := backfillBulk_written ht.pairs u hr hp
      by_cases hn : (runOn (u, i) calls : NodeCache P period).itemsOf (u, i) = [] ∧ bucketed i items = []
      · -- nothing was there and nothing is backfilled
        have hempty : (PairCall.backfill items).buckets i = [] := by
          refine List.eq_nil_iff_forall_not_mem.mpr fun b hb => ?_
          obtain ⟨e, he, -⟩ := mem_buckets_backfill.mp hb
          rw [hn.2] at he
          cases he
        have hl := hw.last
        rw [hn.1, hn.2, mergedItems_nil, List.getLast?_nil, Option.map_none, Option.none_or] at hl
        rw [hempty, List.append_nil, PairCall.on, NodeCache.call, hl]
        exact hbf
      · obtain ⟨newest, hmem, hnw, hle⟩ := exists_merged hp (not_and_or.mp hn)
        have hl := hw.last
        rw [hnw, Option.map_some, Option.some_or] at hl
        have hf : ∀ last, (runOn (u, i) calls : NodeCache P period).lastOf (u, i) = some last → last ≤ newest.1 := by
          intro last hs
          obtain ⟨last', hl', hle'⟩ := h calls items [] rfl last hs
          rw [runOn_concat, PairCall.on, NodeCache.call, hl] at hl'
          cases hl'
          exact hle'
        refine .inr ⟨newest.1, hl, ?_, ?_⟩
        · rcases mem_of_mem_merged hmem with hold | hnew
          · -- an item of the window is not after the last timestamp, and the backfill not before it
            obtain ⟨last, hs, hbn⟩ := ht.bound _ _ hold
            rcases hbf with ⟨hn, -⟩ | ⟨last', hs', hg⟩
            · rw [hn] at hs
              cases hs
            · cases hs.symm.trans hs'
              rw [le_antisymm hbn (hf last hs)]
              exact List.mem_append_left _ hg.1
          · exact List.mem_append_right _ (mem_buckets_backfill.mpr ⟨newest, hnew, rfl⟩)
        · intro b hb
          rcases List.mem_append.mp hb with hb | hb
          · rcases hbf with ⟨-, hsn⟩ | ⟨last, hs, hg⟩
            · rw [hsn] at hb
              cases hb
            · exact (hg.2 hb).trans (hf last hs)
          · obtain ⟨e, he, rfl⟩ := mem_buckets_backfill.mp hb
            exact hle e (.inr he)

lemma gap_of_newer {last b : ℤ} (hi : 0 < i) {buckets : List ℤ} (hg : IsGreatest {b | b ∈ buckets} last)
    (hl : (i : ℤ) ∣ last) (hb : (i : ℤ) ∣ b) (hnw : last < b) :
    GapBelowNewest i (buckets ++ [b]) ↔ b ≠ last + i := by
  have hn : IsGreatest {x | x ∈ buckets ++ [b]} b := by
    refine ⟨List.mem_append_right _ List.mem_cons_self, fun x hx => ?_⟩
    rcases List.mem_append.mp hx with hx | hx
    · exact (hg.2 hx).trans hnw.le
    · exact (List.mem_singleton.mp hx).le
  have hsecond : IsGreatest {x | x ∈ buckets ++ [b] ∧ x < b} last := by
    refine ⟨⟨List.mem_append_left _ hg.1, hnw⟩, ?_⟩
    rintro x ⟨hx, hlt⟩
    rcases List.mem_append.mp hx with hx | hx
    · exact hg.2 hx
    · exact absurd (List.mem_singleton.mp hx) hlt.ne
  have hdvd : ∀ {x}, (i : ℤ) ∣ x → (i : ℤ) ∣ x - last := fun hx => dvd_sub hx hl
  constructor
  · rintro ⟨newest, second, hn', hs', x, hx, hlow, hh⟩ heq
    obtain rfl := hn'.unique hn
    obtain rfl := hs'.unique hsecond
    have := Int.le_of_dvd (by omega) (hdvd hx)
    omega
  · intro hne
    have := Int.le_of_dvd (by omega) (hdvd hb)
    exact ⟨b, last, hn, hsecond, last + i, dvd_add hl dvd_rfl, by omega, by omega⟩

lemma not_gap_singleton (b : ℤ) : ¬ GapBelowNewest i [b] := by
  rintro ⟨newest, second, hn, ⟨⟨hsecond, hlt⟩, -⟩, -⟩
  have hone := List.mem_singleton.mp hn.1
  have htwo := List.mem_singleton.mp hsecond
  omega

lemma dvd_of_mem_seen {b : ℤ} (h : b ∈ seen i calls) : (i : ℤ) ∣ b := by
  obtain ⟨call, -, hb⟩ := List.mem_flatMap.mp h
  cases call with
  | append t payload =>
    obtain rfl := List.mem_singleton.mp hb
    exact Int.dvd_self_sub_emod
  | backfill items =>
    obtain ⟨e, -, rfl⟩ := List.mem_map.mp hb
    exact Int.dvd_self_sub_emod

/-- After each call on a pair the missing flag says how the call moved its last timestamp. An append raises it where its
bucket is not late and not the next of the grid; a backfill raises it where it moves the last timestamp to another than the
next, and leaves it where the last timestamp stays. As long as no backfill takes the last timestamp back, the flag of an
append that brings a newer bucket says whether the grid between the two greatest buckets has one that is absent. -/
theorem missing_flag_follows_last (hperiod : 0 < period) (hi : 0 < i) (calls : List (PairCall P)) :
    (∀ t payload, (runOn (u, i) (calls ++ [.append t payload]) : NodeCache P period).flagOf (u, i) = some true ↔
      ∃ last, (runOn (u, i) calls : NodeCache P period).lastOf (u, i) = some last ∧
        last ≤ bucketOf i t ∧ bucketOf i t ≠ last + i) ∧
    (∀ items, (runOn (u, i) (calls ++ [.backfill items]) : NodeCache P period).flagOf (u, i) = some true ↔
      ∃ last newest, (runOn (u, i) calls : NodeCache P period).lastOf (u, i) = some last ∧
        (runOn (u, i) (calls ++ [.backfill items]) : NodeCache P period).lastOf (u, i) = some newest ∧
        (newest = last ∧ (runOn (u, i) calls : NodeCache P period).flagOf (u, i) = some true ∨
          newest ≠ last ∧ newest ≠ last + i)) ∧
    (NeverBack period (u, i) calls → ∀ t payload, (∀ b ∈ seen i calls, b < bucketOf i t) →
      ((runOn (u, i) (calls ++ [.append t payload]) : NodeCache P period).flagOf (u, i) = some true ↔
        GapBelowNewest i (seen i (calls ++ [.append t payload])))) := by
  have hpairs := (@timed_runOn P period (u, i) calls).pairs
  have happend : ∀ t payload, (runOn (u, i) (calls ++ [.append t payload]) : NodeCache P period).flagOf (u, i) = some true ↔
      ∃ last, (runOn (u, i) calls : NodeCache P period).lastOf (u, i) = some last ∧
        last ≤ bucketOf i t ∧ bucketOf i t ≠ last + i := by
    intro t payload
    rw [runOn_concat]
    exact flagOf_append hpairs u t payload hi.ne' hperiod
  refine ⟨happend, fun items => ?_, fun hback t payload hnewer => ?_⟩
  · rw [runOn_concat]
    exact flagOf_backfillBulk hpairs u items hi.ne' hperiod (last_of_flag hperiod hi.ne' calls)
  · rw [happend, seen_concat]
    rcases newest_runOn hperiod hi.ne' hback with ⟨hnone, hseen⟩ | ⟨last, hsome, hgreatest⟩
    · rw [hnone, hseen]
      exact iff_of_false (fun ⟨_, h, _⟩ => by cases h) (not_gap_singleton _)
    · have hlt := hnewer last hgreatest.1
      have hdvd : (i : ℤ) ∣ bucketOf i t := Int.dvd_self_sub_emod
      rw [PairCall.buckets, gap_of_newer hi hgreatest (dvd_of_mem_seen hgreatest.1) hdvd hlt, hsome]
      simp [hlt.le]

/-- A newer bucket that skips one raises the flag. -/
theorem missing_flag_follows_last_skip :
    (runOn ("btc", 60) [.append 60 (), .append 190 ()] : NodeCache Unit 2).flagOf ("btc", 60) = some true := by
  refine ((@missing_flag_follows_last Unit 2 "btc" 60 (by decide) (by decide) [.append 60 ()]).1 190 ()).mpr ?_
  exact ⟨60, by decide +kernel, by decide, by decide⟩

/-- A second item of the same bucket raises the flag, although no bucket is absent. -/
theorem repeated_bucket_flagged : ¬ ∀ (period i : ℕ) (u : String) (calls : List (PairCall Unit)), 0 < period → 0 < i →
    ((runOn (u, i) calls : NodeCache Unit period).flagOf (u, i) = some true ↔ GapBelowNewest i (seen i calls)) := by
  intro hall
  have hflag : (runOn ("btc", 60) [.append 60 (), .append 70 ()] : NodeCache Unit 2).flagOf ("btc", 60) = some true := by
    decide +kernel
  obtain ⟨newest, second, hnewest, ⟨⟨hsecond, hlt⟩, -⟩, -⟩ :=
    (hall 2 60 "btc" [.append 60 (), .append 70 ()] (by decide) (by decide)).mp hflag
  have hseen : seen 60 [PairCall.append 60 (), .append 70 ()] = [60, 60] := by decide
  rw [hseen] at hsecond
  have hone : newest ∈ [60, 60] := hseen ▸ hnewest.1
  simp only [List.mem_cons, List.not_mem_nil, or_false, or_self] at hone hsecond
  omega

end NodeCache

end Qmtl.Runtime.Cache

import Qmtl.Runtime.Cache.CacheRanges

/-!
Contexts are isolated: what either cache holds, and every range it reports, came in after the compute key that is active
was switched to.
-/

namespace Qmtl.Runtime.Cache

open Lib Runtime.Seamless

variable {P B : Type} {period : ℕ}

def Sliced.returned : Sliced P → List (Item P)
  | items xs => xs
  | array rows => rows.filterMap Prod.snd

lemma mem_byUpstream {ν : Type} {d : Dict Pair ν} {u : String} {i : ℕ} {inner : Dict ℕ ν} {v : ν}
    (hu : (byUpstream d).get? u = some inner) (hi : inner.get? i = some v) : d.get? (u, i) = some v := by
  have hgen : ∀ (es : List (Pair × ν)) (acc : Dict String (Dict ℕ ν)) {inner : Dict ℕ ν},
      (es.foldl (fun result e => result.set e.1.1 (((result.get? e.1.1).getD .empty).set e.1.2 e.2)) acc).get? u =
        some inner → inner.get? i = some v → ((u, i), v) ∈ es ∨ ∃ inner, acc.get? u = some inner ∧ inner.get? i = some v := by
    intro es
    induction es with
    | nil => exact fun _ _ hu hi => .inr ⟨_, hu, hi⟩
    | cons e es ih =>
      intro acc inner hu hi
      rcases ih _ hu hi with hmem | ⟨inner', hu', hi'⟩
      · exact .inl (.tail _ hmem)
      · obtain ⟨⟨u', i'⟩, v'⟩ := e
        rw [Dict.get?_set] at hu'
        by_cases hu₀ : u = u'
        · rw [if_pos hu₀] at hu'
          cases hu'
          rw [Dict.get?_set] at hi'
          by_cases hi₀ : i = i'
          · rw [if_pos hi₀] at hi'
            cases hi'
            subst hu₀ hi₀
            exact .inl List.mem_cons_self
          · rw [if_neg hi₀] at hi'
            right
            cases hacc : acc.get? u' with
            | none =>
              rw [hacc, Option.getD_none, Dict.get?_empty] at hi'
              cases hi'
            | some inner₀ =>
              rw [hacc, Option.getD_some] at hi'
              exact ⟨inner₀, hu₀ ▸ hacc, hi'⟩
        · rw [if_neg hu₀] at hu'
          exact .inr ⟨inner', hu', hi'⟩
  rcases hgen d.entries .empty hu hi with hmem | ⟨inner', hu', -⟩
  · exact Dict.get?_eq_some.mpr hmem
  · cases hu'

lemma mem_newest {count : ℤ} {items : List (Item P)} {e : Item P} (h : e ∈ newest count items) : e ∈ items :=
  (lastItems_sublist _ _).subset h

lemma mem_iselRows {rows : List (Option (Item P))} {start stop : Option ℤ} {e : Item P}
    (h : e ∈ (Sliced.array (iselRows period rows start stop)).returned) : some e ∈ rows := by
  obtain ⟨⟨p, row⟩, hmem, rfl⟩ := List.mem_filterMap.mp h
  exact (List.of_mem_zip (List.mem_of_mem_filter hmem)).2

lemma mem_padded {items : List (Item P)} {e : Item P} (h : some e ∈ padded period items) : e ∈ items := by
  rw [← filterMap_padded period items]
  exact List.mem_filterMap.mpr ⟨some e, h, rfl⟩

def AddedBy (pair : Pair) (e : Item P) (calls : List (CacheCall P)) : Prop := ∃ call ∈ calls, e ∈ call.added pair

lemma AddedBy.mono {pair : Pair} {e : Item P} {calls : List (CacheCall P)} (h : AddedBy pair e calls)
    (calls' : List (CacheCall P)) : AddedBy pair e (calls ++ calls') := by
  obtain ⟨call, hmem, he⟩ := h
  exact ⟨call, List.mem_append_left _ hmem, he⟩

lemma AddedBy.last {pair : Pair} {e : Item P} {call : CacheCall P} (h : e ∈ call.added pair)
    (calls : List (CacheCall P)) : AddedBy pair e (calls ++ [call]) :=
  ⟨call, List.mem_append_right _ List.mem_cons_self, h⟩

lemma mem_added_of_bucketize {u : String} {i : ℕ} {items bucketed : List (Item P)}
    (hb : bucketize i items = some bucketed) {e : Item P} (he : e ∈ bucketed) :
    e ∈ (CacheCall.backfillBulk u i items).added (u, i) := by
  rw [CacheCall.added, if_pos ⟨rfl, bucketize_ne_nil hb (List.ne_nil_of_mem he)⟩, ← bucketize_eq_some hb]
  exact he

/-! ### The in-memory cache -/

namespace NodeCache

def Holds (c : NodeCache P period) (pair : Pair) (e : Item P) : Prop :=
  ∃ buffer, c.buffers.get? pair = some buffer ∧ e ∈ buffer.items

def Returns (c : NodeCache P period) (pair : Pair) (e : Item P) : Prop :=
  c.latest pair.1 pair.2 = some e ∨
    (∃ count start stop s, c.getSlice pair.1 pair.2 count start stop = .ok s ∧ e ∈ s.returned) ∨
    ∃ inner window, c.viewData.get? pair.1 = some inner ∧ inner.get? pair.2 = some window ∧ e ∈ window

lemma Returns.holds {c : NodeCache P period} {pair : Pair} {e : Item P} (h : c.Returns pair e) : c.Holds pair e := by
  rcases h with hl | ⟨count, start, stop, s, hs, hmem⟩ | ⟨inner, window, hu, hi, hmem⟩
  · unfold latest at hl
    split at hl
    · cases hl
    · rename_i buffer hget
      rw [RingBuffer.latest_eq] at hl
      exact ⟨buffer, hget, List.mem_of_getLast? hl⟩
  · unfold getSlice at hs
    cases hget : c.buffers.get? (pair.1, pair.2) with
    | none =>
      rw [hget] at hs
      cases count <;> obtain rfl := Except.ok.inj hs <;> cases hmem
    | some buffer =>
      rw [hget] at hs
      refine ⟨buffer, hget, ?_⟩
      cases count with
      | none =>
        cases hs
        refine @mem_padded _ period _ _ ?_
        rw [← buffer.orderedArray_eq]
        exact mem_iselRows hmem
      | some count =>
        cases hs
        split at hmem
        · cases hmem
        · exact mem_newest hmem
  · have hget := mem_byUpstream hu hi
    rw [Dict.get?_mapValues] at hget
    obtain ⟨buffer, hb, rfl⟩ := Option.map_eq_some_iff.mp hget
    exact ⟨buffer, hb, hmem⟩

lemma holds_of_ensureBuffer {c c' : NodeCache P period} {key : Pair} {buffer : RingBuffer P period}
    (h : c.ensureBuffer key = some (buffer, c')) {pair : Pair} {e : Item P} :
    (e ∈ buffer.items → c.Holds key e) ∧ (c'.Holds pair e → c.Holds pair e) := by
  unfold ensureBuffer at h
  split at h
  · rename_i buffer' hget
    cases h
    exact ⟨fun he => ⟨_, hget, he⟩, id⟩
  · obtain ⟨buffer', hnew, he⟩ := Option.map_eq_some_iff.mp h
    cases he
    have hempty := RingBuffer.items_new hnew
    refine ⟨fun he => absurd (hempty ▸ he) List.not_mem_nil, ?_⟩
    rintro ⟨b, hget, hmem⟩
    rw [Dict.get?_set] at hget
    split at hget
    · cases hget
      cases hempty ▸ hmem
    · exact ⟨b, hget, hmem⟩

lemma holds_append {c : NodeCache P period} {u : String} {i : ℕ} {t : ℤ} {payload : P} {pair : Pair} {e : Item P}
    (h : (c.append u i t payload).state.Holds pair e) :
    c.Holds pair e ∨ e ∈ (CacheCall.append u i t payload).added pair := by
  unfold append at h
  cases hen : c.ensureBuffer (u, i) with
  | none =>
    rw [hen] at h
    exact .inl h
  | some ensured =>
    obtain ⟨buffer, c'⟩ := ensured
    obtain ⟨hb, hk⟩ := @holds_of_ensureBuffer _ _ _ _ _ _ hen pair e
    rw [hen] at h
    dsimp only at h
    split at h
    · exact .inl (hk h)
    · rename_i hi
      obtain ⟨b, hget, hmem⟩ := h
      rw [(c'.of_trackAppend _ _).2.2, Dict.get?_set] at hget
      split at hget
      · rename_i hp
        subst hp
        cases hget
        rw [RingBuffer.items_append] at hmem
        rcases mem_push hmem with hmem | rfl
        · exact .inl (hb hmem)
        · refine .inr ?_
          rw [CacheCall.added, if_pos ⟨rfl, hi⟩]
          exact .head _
      · exact .inl (hk ⟨b, hget, hmem⟩)

lemma holds_backfillBulk {c : NodeCache P period} {u : String} {i : ℕ} {items : List (Item P)} {pair : Pair}
    {e : Item P} (h : (c.backfillBulk u i items).state.Holds pair e) :
    c.Holds pair e ∨ e ∈ (CacheCall.backfillBulk u i items).added pair := by
  unfold backfillBulk mergeBackfill at h
  dsimp only at h
  cases hen : c.ensureBuffer (u, i) with
  | none =>
    rw [hen] at h
    exact .inl h
  | some ensured =>
    obtain ⟨hbf, hk⟩ := @holds_of_ensureBuffer _ _ _ _ _ _ hen pair e
    rw [hen] at h
    cases hb : bucketize i items with
    | none =>
      rw [hb] at h
      exact .inl (hk h)
    | some bucketed =>
      rw [hb] at h
      obtain ⟨b, hget, hmem⟩ := h
      dsimp only [Option.map_some] at hget
      rw [(of_trackBackfill _ _ _).2.2, Dict.get?_set] at hget
      split at hget
      · rename_i hp
        subst hp
        cases hget
        rw [RingBuffer.items_replace] at hmem
        rcases mem_merged ((lastItems_sublist _ _).subset hmem) with hmem | hmem
        · exact .inl (hbf hmem)
        · exact .inr (mem_added_of_bucketize hb hmem)
      · exact .inl (hk ⟨b, hget, hmem⟩)

structure Within (c : NodeCache P period) (h : History P) : Prop where
  key : c.contextStrategy.key? = h.active
  holds : ∀ {pair e}, c.Holds pair e → AddedBy pair e h.since
  covers : 0 < period → CoversBars c.backfillState fun pair => backfilledBy pair (sinceDrop pair h.since)

lemma within_run (calls : List (CacheCall P)) : (run calls : NodeCache P period).Within (History.of calls) := by
  induction calls using List.reverseRecOn with
  | nil =>
    refine ⟨rfl, ?_, fun _ => CoversBars.empty⟩
    rintro _ _ ⟨buffer, hget, -⟩
    cases hget
  | append_singleton calls call ih =>
    rw [run_concat, History.of_concat]
    generalize (run calls : NodeCache P period) = c at ih ⊢
    generalize History.of calls = h at ih ⊢
    cases call with
    | append u i t payload =>
      refine ⟨(congrArg _ (c.of_append u i t payload).2).trans ih.key, ?_, fun hp => ?_⟩
      · rintro _ _ hadd
        rcases holds_append hadd with hh | hadd
        · exact (ih.holds hh).mono _
        · exact AddedBy.last hadd _
      · dsimp only [call, History.next]
        rw [backfilledBy_quiet (fun _ => rfl) fun _ => rfl, (c.of_append u i t payload).1]
        exact ih.covers hp
    | backfillBulk u i items =>
      refine ⟨(congrArg _ (c.contextStrategy_backfillBulk u i items)).trans ih.key, ?_, fun hp => ?_⟩
      · rintro _ _ hadd
        rcases holds_backfillBulk hadd with hh | hadd
        · exact (ih.holds hh).mono _
        · exact AddedBy.last hadd _
      · dsimp only [call, History.next]
        rw [backfilledBy_noted fun _ => rfl]
        exact c.coversBars_backfillBulk hp (ih.covers hp) u i items
    | drop u i =>
      refine ⟨ih.key, ?_, fun hp => ?_⟩
      · rintro _ _ ⟨buffer, hget, hmem⟩
        dsimp only [call, drop] at hget
        rw [Dict.get?_erase] at hget
        split at hget
        · cases hget
        · exact (ih.holds ⟨buffer, hget, hmem⟩).mono _
      · dsimp only [call, History.next]
        rw [backfilledBy_dropped]
        exact (ih.covers hp).forget (u, i)
    | activateComputeKey a =>
      dsimp only [call, History.next]
      by_cases hs : h.active = none ∨ h.active = some a.key
      · rw [activateComputeKey_same (ih.key ▸ hs), if_pos hs]
        refine ⟨rfl, fun hh => (ih.holds hh).mono _, fun hp => ?_⟩
        rw [backfilledBy_quiet (fun _ => rfl) fun _ => rfl]
        exact ih.covers hp
      · obtain ⟨hits, hsw⟩ := activateComputeKey_switch (ih.key ▸ hs)
        rw [hsw, if_neg hs]
        refine ⟨rfl, ?_, fun _ => CoversBars.empty⟩
        rintro _ _ ⟨buffer, hget, -⟩
        cases hget

/-- Without a positive period nothing is ever marked. -/
theorem ranges_of_zero (calls : List (CacheCall P)) (pair : Pair) :
    (run calls : NodeCache P 0).backfillState.rangesOf pair = [] := by
  have hen : ∀ (c : NodeCache P 0) (key : Pair), c.ensureBuffer key = none := by
    intro c key
    unfold ensureBuffer
    split
    · rename_i buffer _
      exact absurd buffer.offset_lt (Nat.not_lt_zero _)
    · rfl
  induction calls using List.reverseRecOn with
  | nil => rfl
  | append_singleton calls call ih =>
    rw [run_concat]
    cases call with
    | append u i t payload =>
      dsimp only [NodeCache.call]
      rw [((run calls).of_append u i t payload).1]
      exact ih
    | backfillBulk u i items =>
      dsimp only [NodeCache.call, backfillBulk]
      rw [hen]
      exact ih
    | drop u i =>
      dsimp only [NodeCache.call, drop]
      rw [BackfillState.rangesOf_forget, ih, ite_self]
    | activateComputeKey a =>
      dsimp only [NodeCache.call]
      by_cases hs : (run calls : NodeCache P 0).contextStrategy.key? = none ∨
          (run calls : NodeCache P 0).contextStrategy.key? = some a.key
      · rw [activateComputeKey_same hs]
        exact ih
      · obtain ⟨hits, hsw⟩ := activateComputeKey_switch hs
        rw [hsw]
        rfl

end NodeCache

/-! ### The Arrow cache -/

namespace NodeCacheArrow

variable {pickle : Pickle P B} {c : NodeCacheArrow B} {pair : Pair} {e : Item P}

def Holds (pickle : Pickle P B) (c : NodeCacheArrow B) (pair : Pair) (e : Item P) : Prop :=
  ∃ sl, c.slices.get? pair = some sl ∧ e ∈ sl.getList pickle

def Returns (pickle : Pickle P B) (period : ℕ) (c : NodeCacheArrow B) (pair : Pair) (e : Item P) : Prop :=
  c.latest pickle pair.1 pair.2 = some e ∨
    (∃ count start stop s, c.getSlice pickle period pair.1 pair.2 count start stop = .ok s ∧ e ∈ s.returned) ∨
    ∃ inner window, (c.viewData pickle).get? pair.1 = some inner ∧ inner.get? pair.2 = some window ∧ e ∈ window

lemma mem_fillRows {items : List (Item P)} {rows : List (Option (Item P))} (h : fillRows period items = some rows)
    (he : some e ∈ rows) : e ∈ items := by
  unfold fillRows at h
  split at h
  · cases h
    rcases List.mem_append.mp he with he | he
    · obtain ⟨e', hmem, heq⟩ := List.mem_map.mp he
      exact Option.some.inj heq ▸ hmem
    · cases List.eq_of_mem_replicate he
  · cases h

lemma Returns.holds (h : c.Returns pickle period pair e) : c.Holds pickle pair e := by
  rcases h with hl | ⟨count, start, stop, s, hs, hmem⟩ | ⟨inner, window, hu, hi, hmem⟩
  · unfold latest at hl
    split at hl
    · cases hl
    · rename_i sl hget
      rw [Slice.latest_eq] at hl
      exact ⟨sl, hget, List.mem_of_getLast? hl⟩
  · unfold getSlice at hs
    cases hget : c.slices.get? (pair.1, pair.2) with
    | none =>
      rw [hget] at hs
      cases count <;> obtain rfl := Except.ok.inj hs <;> cases hmem
    | some sl =>
      rw [hget] at hs
      refine ⟨sl, hget, ?_⟩
      cases count with
      | none =>
        dsimp only at hs
        split at hs
        · cases hs
        · rename_i rows hrows
          cases hs
          exact (lastItems_sublist _ _).subset (mem_fillRows hrows (mem_iselRows hmem))
      | some count =>
        cases hs
        split at hmem
        · cases hmem
        · exact mem_newest hmem
  · have hget := mem_byUpstream hu hi
    rw [Dict.get?_mapValues] at hget
    obtain ⟨sl, hsl, rfl⟩ := Option.map_eq_some_iff.mp hget
    exact ⟨sl, hsl, hmem⟩

lemma holds_of_ensure (key : Pair) : (e ∈ (c.ensure key).1.getList pickle → c.Holds pickle key e) ∧
    ((c.ensure key).2.Holds pickle pair e → c.Holds pickle pair e) := by
  unfold ensure
  split
  · rename_i sl hget
    exact ⟨fun he => ⟨sl, hget, he⟩, id⟩
  · refine ⟨fun he => absurd he List.not_mem_nil, ?_⟩
    rintro ⟨sl, hget, hmem⟩
    rw [Dict.get?_set] at hget
    split at hget
    · cases hget
      cases hmem
    · exact ⟨sl, hget, hmem⟩

lemma holds_append {u : String} {i : ℕ} {t : ℤ} {payload : P}
    (h : (c.append pickle period u i t payload).state.Holds pickle pair e) :
    c.Holds pickle pair e ∨ e ∈ (CacheCall.append u i t payload).added pair := by
  obtain ⟨hs, hk⟩ := @holds_of_ensure P B pickle c pair e (u, i)
  unfold append at h
  dsimp only at h
  split at h
  · exact .inl (hk h)
  · rename_i hi
    split at h
    · obtain ⟨sl, hget, hmem⟩ := h
      rw [((c.ensure (u, i)).2.of_trackAppend _ _).2.2] at hget
      exact .inl (hk ⟨sl, hget, hmem⟩)
    · rename_i sl' hap
      obtain ⟨sl, hget, hmem⟩ := h
      rw [((c.ensure (u, i)).2.of_trackAppend _ _).2.2, Dict.get?_set] at hget
      split at hget
      · rename_i hp
        subst hp
        cases hget
        rw [Slice.append?_eq_some pickle hap] at hmem
        rcases mem_push hmem with hmem | rfl
        · exact .inl (hs hmem)
        · refine .inr ?_
          rw [CacheCall.added, if_pos ⟨rfl, hi⟩]
          exact .head _
      · exact .inl (hk ⟨sl, hget, hmem⟩)

lemma holds_backfillBulk {u : String} {i : ℕ} {items : List (Item P)}
    (h : (c.backfillBulk pickle period u i items).state.Holds pickle pair e) :
    c.Holds pickle pair e ∨ e ∈ (CacheCall.backfillBulk u i items).added pair := by
  obtain ⟨hs, hk⟩ := @holds_of_ensure P B pickle c pair e (u, i)
  unfold backfillBulk at h
  cases hb : bucketize i items with
  | none =>
    rw [hb] at h
    exact .inl (hk h)
  | some bucketed =>
    rw [hb] at h
    dsimp only at h
    split at h
    · exact .inl (hk h)
    · rename_i sl' hst
      obtain ⟨sl, hget, hmem⟩ := h
      rw [(of_updateBackfillTracking _ _ _).2.2, Dict.get?_set] at hget
      split at hget
      · rename_i hp
        subst hp
        cases hget
        rw [Slice.ofItems?_eq_some pickle hst] at hmem
        rcases mem_merged hmem with hmem | hmem
        · exact .inl (hs hmem)
        · exact .inr (mem_added_of_bucketize hb hmem)
      · exact .inl (hk ⟨sl, hget, hmem⟩)

/-- As for the in-memory cache, but that a drop leaves the ranges. -/
structure Within (pickle : Pickle P B) (c : NodeCacheArrow B) (h : History P) : Prop where
  key : c.activeComputeKey = h.active
  holds : ∀ {pair e}, c.Holds pickle pair e → AddedBy pair e h.since
  covers : CoversBars c.backfillState fun pair => backfilledBy pair h.since

lemma within_run (calls : List (CacheCall P)) : (run pickle period calls).Within pickle (History.of calls) := by
  induction calls using List.reverseRecOn with
  | nil =>
    refine ⟨rfl, ?_, CoversBars.empty⟩
    rintro _ _ ⟨sl, hget, -⟩
    cases hget
  | append_singleton calls call ih =>
    rw [run_concat, History.of_concat]
    generalize run pickle period calls = c at ih ⊢
    generalize History.of calls = h at ih ⊢
    have hn : ∀ call : CacheCall P, (fun pair => backfilledBy pair (h.since ++ [call])) =
        fun pair => backfilledBy pair h.since ++ call.backfilled pair :=
      fun call => funext fun pair => backfilledBy_concat pair _ _
    have hq : ∀ call : CacheCall P, (∀ pair, call.backfilled pair = []) →
        (fun pair => backfilledBy pair (h.since ++ [call])) = fun pair => backfilledBy pair h.since := by
      intro call hq
      rw [hn]
      funext pair
      rw [hq, List.append_nil]
    cases call with
    | append u i t payload =>
      refine ⟨(of_append pickle c u i t payload).2.trans ih.key, ?_, ?_⟩
      · rintro _ _ hadd
        rcases holds_append hadd with hh | hadd
        · exact (ih.holds hh).mono _
        · exact AddedBy.last hadd _
      · dsimp only [call, History.next]
        rw [hq _ fun _ => rfl, (of_append pickle c u i t payload).1]
        exact ih.covers
    | backfillBulk u i items =>
      refine ⟨(key_backfillBulk pickle c u i items).trans ih.key, ?_, ?_⟩
      · rintro _ _ hadd
        rcases holds_backfillBulk hadd with hh | hadd
        · exact (ih.holds hh).mono _
        · exact AddedBy.last hadd _
      · dsimp only [call, History.next]
        rw [hn]
        exact coversBars_backfillBulk pickle _ ih.covers u i items
    | drop u i =>
      refine ⟨ih.key, ?_, ?_⟩
      · rintro _ _ ⟨sl, hget, hmem⟩
        dsimp only [call, drop] at hget
        rw [Dict.get?_erase] at hget
        split at hget
        · cases hget
        · exact (ih.holds ⟨sl, hget, hmem⟩).mono _
      · dsimp only [call, History.next]
        rw [hq _ fun _ => rfl]
        exact ih.covers
    | activateComputeKey a =>
      dsimp only [call, History.next]
      by_cases hs : h.active = none ∨ h.active = some a.key
      · rw [activateComputeKey_same (ih.key ▸ hs), if_pos hs]
        refine ⟨rfl, fun hh => (ih.holds hh).mono _, ?_⟩
        rw [hq _ fun _ => rfl]
        exact ih.covers
      · obtain ⟨hits, hsw⟩ := activateComputeKey_switch (ih.key ▸ hs)
        rw [hsw, if_neg hs]
        refine ⟨rfl, ?_, CoversBars.empty⟩
        rintro _ _ ⟨sl, hget, -⟩
        cases hget

end NodeCacheArrow

def MarkedBy (pair : Pair) (r : Range) (calls : List (CacheCall P)) : Prop :=
  r.1 < r.2 + pair.2 ∧ ∀ t, r.1 ≤ t → t < r.2 + pair.2 → ∃ call ∈ calls, InBars pair.2 (call.backfilled pair) t

lemma CoversBars.markedBy {s : BackfillState} {calls : Pair → List (CacheCall P)} {pair : Pair}
    (h : CoversBars s fun pair => backfilledBy pair (calls pair)) {r : Range} (hr : r ∈ s.rangesOf pair) :
    MarkedBy pair r (calls pair) := by
  refine ⟨(h pair).pos _ (List.mem_map_of_mem hr), fun t hle hlt => ?_⟩
  obtain ⟨b, hb, hin⟩ := ((h pair).hits t).mp ⟨barsOf pair.2 r, List.mem_map_of_mem hr, hle, hlt⟩
  obtain ⟨call, hc, hmem⟩ := List.mem_flatMap.mp hb
  exact ⟨call, hc, b, hmem, hin⟩

/-- The active key is that of the history, and whatever is returned or reported came in since the key was switched to. -/
structure NodeCache.IsolatedSince (c : NodeCache P period) (h : History P) : Prop where
  key : c.contextStrategy.key? = h.active
  items : ∀ pair e, c.Returns pair e → AddedBy pair e h.since
  ranges : ∀ pair, ∀ r ∈ c.backfillState.rangesOf pair, MarkedBy pair r h.since

structure NodeCacheArrow.IsolatedSince (pickle : Pickle P B) (period : ℕ) (c : NodeCacheArrow B) (h : History P) :
    Prop where
  key : c.activeComputeKey = h.active
  items : ∀ pair e, c.Returns pickle period pair e → AddedBy pair e h.since
  ranges : ∀ pair, ∀ r ∈ c.backfillState.rangesOf pair, MarkedBy pair r h.since

lemma NodeCache.isolated (calls : List (CacheCall P)) :
    (run calls : NodeCache P period).IsolatedSince (History.of calls) where
  key := (within_run calls).key
  items _ _ h := (within_run calls).holds h.holds
  ranges pair r hr := by
    rcases Nat.eq_zero_or_pos period with rfl | hpos
    · rw [ranges_of_zero] at hr
      cases hr
    · obtain ⟨hne, hm⟩ := ((within_run calls).covers hpos).markedBy hr
      refine ⟨hne, fun t hle hlt => ?_⟩
      obtain ⟨call, hc, hin⟩ := hm t hle hlt
      exact ⟨call, mem_sinceDrop hc, hin⟩

lemma NodeCacheArrow.isolated (pickle : Pickle P B) (calls : List (CacheCall P)) :
    (run pickle period calls).IsolatedSince pickle period (History.of calls) where
  key := (@within_run P B period pickle calls).key
  items _ _ h := (within_run calls).holds h.holds
  ranges _ _ hr := (@within_run P B period pickle calls).covers.markedBy hr

/-- In a run that begins with an activation, either cache returns only items, and reports only ranges, of the calls since
its compute key was last switched. -/
theorem contexts_isolated (pickle : Pickle P B) (period : ℕ) (first : Activation) (calls : List (CacheCall P)) :
    (NodeCache.run (.activateComputeKey first :: calls) : NodeCache P period).IsolatedSince
        (History.of (.activateComputeKey first :: calls)) ∧
      (NodeCacheArrow.run pickle period (.activateComputeKey first :: calls)).IsolatedSince pickle period
        (History.of (.activateComputeKey first :: calls)) :=
  ⟨NodeCache.isolated _, NodeCacheArrow.isolated pickle _⟩

end Qmtl.Runtime.Cache

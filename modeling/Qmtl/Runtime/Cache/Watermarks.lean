import Qmtl.Runtime.Cache.EventTime

/-!
When event time moves forward: an append keeps the greatest timestamp of its pair, a backfill takes that of the last item
it keeps, which is earlier once the greatest has been pushed out of the window.
-/

namespace Qmtl.Runtime.Cache

open Lib

variable {P : Type} {period : ℕ}

def CacheCall.writes : CacheCall P → Bool
  | append _ _ _ _ => true
  | backfillBulk _ _ _ => true
  | drop _ _ => false
  | activateComputeKey _ => false

namespace NodeCache

/-- From one state to the next no last timestamp goes back, none is before an item of its buffer, and the watermark does
not go back unless there are other pairs. -/
structure Forward (c c' : NodeCache P period) : Prop where
  last : ∀ pair t, c.lastOf pair = some t → ∃ t', c'.lastOf pair = some t' ∧ t ≤ t'
  bound : ∀ pair, ∀ e ∈ c'.itemsOf pair, ∃ t, c'.lastOf pair = some t ∧ e.1 ≤ t
  watermark : (∀ pair, (c'.lastTs.get? pair).isSome = (c.lastTs.get? pair).isSome) → ∀ lateness w,
    c.watermark lateness = some w → ∃ w', c'.watermark lateness = some w' ∧ w ≤ w'

/-- A backfill finds the last timestamp of its pair in the buffer, or brings an item that is not before it. -/
def KeepsTime (c : NodeCache P period) : CacheCall P → Prop
  | .append u i t _ => i ≠ 0 → c.lastTs.get? (u, i) = some none → ∀ w, c.watermark 0 = some w → w ≤ bucketOf i t
  | .backfillBulk u i items =>
    (∀ t, c.lastOf (u, i) = some t → (∃ e ∈ c.itemsOf (u, i), e.1 = t) ∨ ∃ e ∈ items, t ≤ bucketOf i e.1) ∧
      (i ≠ 0 → items ≠ [] → c.lastTs.get? (u, i) = some none → ∀ w, c.watermark 0 = some w →
        ∃ e ∈ items, w ≤ bucketOf i e.1)
  | .drop _ _ => True
  | .activateComputeKey _ => True

/-! ### The invariant of a run -/

/-- What holds of the last timestamps of a cache that is reached. -/
structure Timed (c : NodeCache P period) : Prop where
  pairs : c.SamePairs
  bound : ∀ pair, ∀ e ∈ c.itemsOf pair, ∃ t, c.lastOf pair = some t ∧ e.1 ≤ t
  held : ∀ pair t, c.lastOf pair = some t → c.itemsOf pair ≠ []
  interval : ∀ u, c.lastOf (u, 0) = none

variable {c c' : NodeCache P period} {t : ℤ}

variable {pair : Pair}

lemma lastOf_congr (h : c'.lastTs.get? pair = c.lastTs.get? pair) :
    c'.lastOf pair = c.lastOf pair := by rw [lastOf_eq, lastOf_eq, h]

lemma itemsOf_congr (h : c'.buffers.get? pair = c.buffers.get? pair) :
    c'.itemsOf pair = c.itemsOf pair := by rw [itemsOf, itemsOf, h]

lemma lastOf_empty (h : c.lastTs.get? pair = none) : c.lastOf pair = none := by
  rw [lastOf_eq, h, Option.join_none]

lemma itemsOf_empty (h : c.buffers.get? pair = none) : c.itemsOf pair = [] := by
  rw [itemsOf, h, Option.map_none, Option.getD_none]

lemma Timed.written (h : c.Timed) {xs : List (Item P)} {l : Option ℤ} (hw : Written c c' pair xs l)
    (hp : c'.SamePairs) (hb : ∀ e ∈ xs, ∃ t, l = some t ∧ e.1 ≤ t) (hh : ∀ t, l = some t → xs ≠ [])
    (hin : pair.2 = 0 → l = none) : c'.Timed where
  pairs := hp
  bound := by
    intro other
    by_cases hne : other = pair
    · rw [hne, hw.items, hw.last]
      exact hb
    · rw [itemsOf_congr (hw.others other hne).1, lastOf_congr (hw.others other hne).2]
      exact h.bound other
  held := by
    intro other
    by_cases hne : other = pair
    · rw [hne, hw.items, hw.last]
      exact hh
    · rw [itemsOf_congr (hw.others other hne).1, lastOf_congr (hw.others other hne).2]
      exact h.held other
  interval := by
    intro u
    by_cases hne : (u, 0) = pair
    · rw [hne, hw.last]
      exact hin (hne ▸ rfl)
    · rw [lastOf_congr (hw.others _ hne).2]
      exact h.interval u

lemma Timed.unchanged (h : c.Timed) (hw : Written c c' pair (c.itemsOf pair) (c.lastOf pair))
    (hp : c'.SamePairs) : c'.Timed := by
  refine h.written hw hp (h.bound pair) (h.held pair) fun hz => ?_
  obtain ⟨u, i⟩ := pair
  obtain rfl : i = 0 := hz
  exact h.interval u

lemma Timed.itemsOf_of_none (h : c.Timed) (hl : c.lastOf pair = none) : c.itemsOf pair = [] := by
  refine List.eq_nil_iff_forall_not_mem.mpr fun e he => ?_
  obtain ⟨t, ht, -⟩ := h.bound pair e he
  rw [hl] at ht
  cases ht

lemma Timed.append (h : c.Timed) (u : String) (i : ℕ) (t : ℤ) (payload : P) :
    (c.append u i t payload).state.Timed := by
  by_cases hr : i = 0 ∨ period = 0
  · obtain ⟨hw, hp⟩ := append_raised h.pairs u t payload hr
    exact h.unchanged hw hp
  · obtain ⟨hi, hpr⟩ := not_or.mp hr
    obtain ⟨hw, hp⟩ := append_written h.pairs u t payload hi (Nat.pos_of_ne_zero hpr)
    refine h.written hw hp (fun e he => ⟨_, rfl, ?_⟩) (fun _ _ hnil => ?_) fun hz => absurd hz hi
    · rcases mem_push he with he | rfl
      · obtain ⟨last, hl, hle⟩ := h.bound _ e he
        rw [hl, Option.elim_some]
        exact hle.trans (le_max_right _ _)
      · cases c.lastOf (u, i) with
        | none => exact le_rfl
        | some last => exact le_max_left _ _
    · have hlen := length_push (Nat.pos_of_ne_zero hpr) (c.itemsOf (u, i)) (bucketOf i t, payload)
      rw [hnil, List.length_nil] at hlen
      omega

lemma exists_merged {existing items : List (Item P)} (hp : 0 < period) (h : existing ≠ [] ∨ items ≠ []) :
    ∃ last ∈ mergedItems period existing items, (mergedItems period existing items).getLast? = some last ∧
      ∀ e, e ∈ existing ∨ e ∈ items → e.1 ≤ last.1 := by
  obtain ⟨e, he⟩ : ∃ e, e ∈ existing ∨ e ∈ items := by
    rcases h with h | h
    · obtain ⟨e, he⟩ := List.exists_mem_of_ne_nil _ h
      exact ⟨e, .inl he⟩
    · obtain ⟨e, he⟩ := List.exists_mem_of_ne_nil _ h
      exact ⟨e, .inr he⟩
  obtain ⟨last, hl, -⟩ := le_last_of_mem_merged hp he
  refine ⟨last, List.mem_of_getLast? hl, hl, fun e he => ?_⟩
  obtain ⟨last', hl', hle⟩ := le_last_of_mem_merged hp he
  cases hl.symm.trans hl'
  exact hle

lemma Timed.backfillBulk (h : c.Timed) (u : String) (i : ℕ) (items : List (Item P)) :
    (c.backfillBulk u i items).state.Timed := by
  by_cases hr : i = 0 ∧ items ≠ [] ∨ period = 0
  · obtain ⟨hw, hpr⟩ := backfillBulk_raised h.pairs u hr
    exact h.unchanged hw hpr
  · obtain ⟨hi, hp⟩ := not_or.mp hr
    have hp := Nat.pos_of_ne_zero hp
    obtain ⟨hw, hpr⟩ := backfillBulk_written h.pairs u hi hp
    by_cases hn : c.itemsOf (u, i) = [] ∧ bucketed i items = []
    · have hm : mergedItems period (c.itemsOf (u, i)) (bucketed i items) = [] := by
        rw [hn.1, hn.2, mergedItems_nil]
      rw [hm, List.getLast?_nil, Option.map_none, Option.none_or, ← hn.1] at hw
      exact h.unchanged hw hpr
    · obtain ⟨last, hmem, hl, hle⟩ := exists_merged hp (not_and_or.mp hn)
      refine h.written hw hpr (fun e he => ⟨last.1, ?_, hle e (mem_of_mem_merged he)⟩)
        (fun _ _ => List.ne_nil_of_mem hmem) fun hz => ?_
      · rw [hl]
        rfl
      · obtain rfl : i = 0 := hz
        have hit : items = [] := not_not.mp fun hne => hi ⟨rfl, hne⟩
        exact absurd ⟨h.itemsOf_of_none (h.interval u), by rw [hit]; rfl⟩ hn

lemma Timed.drop (h : c.Timed) (u : String) (i : ℕ) : (c.drop u i).Timed := by
  have hget : ∀ pair, (pair = (u, i) ∧ (c.drop u i).buffers.get? pair = none ∧ (c.drop u i).lastTs.get? pair = none) ∨
      ((c.drop u i).buffers.get? pair = c.buffers.get? pair ∧ (c.drop u i).lastTs.get? pair = c.lastTs.get? pair) := by
    intro pair
    unfold NodeCache.drop
    rw [Dict.get?_erase, Dict.get?_erase]
    by_cases hp : pair = (u, i)
    · rw [if_pos hp, if_pos hp]
      exact .inl ⟨hp, rfl, rfl⟩
    · rw [if_neg hp, if_neg hp]
      exact .inr ⟨rfl, rfl⟩
  refine ⟨fun pair => ?_, fun pair => ?_, fun pair => ?_, fun u' => ?_⟩
  · rcases hget pair with ⟨-, hb, hl⟩ | ⟨hb, hl⟩
    · rw [hb, hl]
      rfl
    · rw [hb, hl]
      exact h.pairs pair
  · rcases hget pair with ⟨-, hb, -⟩ | ⟨hb, hl⟩
    · rw [itemsOf_empty hb]
      exact fun e he => absurd he List.not_mem_nil
    · rw [itemsOf_congr hb, lastOf_congr hl]
      exact h.bound pair
  · rcases hget pair with ⟨-, -, hl⟩ | ⟨hb, hl⟩
    · rw [lastOf_empty hl]
      exact fun t ht => by cases ht
    · rw [itemsOf_congr hb, lastOf_congr hl]
      exact h.held pair
  · rcases hget (u', 0) with ⟨-, -, hl⟩ | ⟨-, hl⟩
    · exact lastOf_empty hl
    · rw [lastOf_congr hl]
      exact h.interval u'

lemma Timed.empty (hb : c.buffers = Dict.empty) (hl : c.lastTs = Dict.empty) : c.Timed := by
  have hn : ∀ pair, c.lastOf pair = none := fun pair => lastOf_empty (by rw [hl]; rfl)
  refine ⟨fun pair => by rw [hb, hl]; rfl, fun pair e he => ?_, fun pair t ht => ?_, fun u => hn _⟩
  · rw [itemsOf_empty (by rw [hb]; rfl)] at he
    cases he
  · rw [hn] at ht
    cases ht

lemma Timed.call (h : c.Timed) (call : CacheCall P) : (c.call call).state.Timed := by
  cases call with
  | append u i t payload => exact h.append u i t payload
  | backfillBulk u i items => exact h.backfillBulk u i items
  | drop u i => exact h.drop u i
  | activateComputeKey a =>
    dsimp only [NodeCache.call]
    by_cases hs : c.contextStrategy.key? = none ∨ c.contextStrategy.key? = some a.key
    · rw [activateComputeKey_same hs]
      exact ⟨h.pairs, h.bound, h.held, h.interval⟩
    · obtain ⟨hits, hsw⟩ := activateComputeKey_switch hs
      rw [hsw]
      exact .empty rfl rfl

lemma timed_run (calls : List (CacheCall P)) : (run calls : NodeCache P period).Timed := by
  induction calls using List.reverseRecOn with
  | nil => exact .empty rfl rfl
  | append_singleton calls call ih =>
    rw [run_concat]
    exact ih.call call

/-! ### One step forward -/

lemma exists_watermark (h : c.lastOf pair = some t) (lateness : ℤ) : ∃ w, c.watermark lateness = some w := by
  have hmem := mem_lastTs.mpr ⟨pair, h⟩
  obtain ⟨m, hm⟩ := Option.isSome_iff_exists.mp (List.isSome_min?_iff.mpr (List.ne_nil_of_mem hmem))
  exact ⟨m - lateness, by rw [watermark, hm, Option.map_some]⟩

lemma isSome_of_lastOf (h : c.lastOf pair = some t) : (c.lastTs.get? pair).isSome := by
  rw [lastOf_eq] at h
  obtain ⟨last, hget, -⟩ := Option.bind_eq_some_iff.mp h
  rw [hget]
  rfl

lemma watermarks_forward_iff (hc' : c'.Timed) {xs : List (Item P)} {l : Option ℤ} (hw : Written c c' pair xs l) :
    Forward c c' ↔ (∀ t, c.lastOf pair = some t → ∃ t', l = some t' ∧ t ≤ t') ∧
      (c.lastTs.get? pair = some none → ∀ t', l = some t' → ∀ w, c.watermark 0 = some w → w ≤ t') := by
  constructor
  · intro hf
    refine ⟨fun t ht => hw.last ▸ hf.last pair t ht, fun hfirst t' ht' w hwm => ?_⟩
    have hl : c'.lastOf pair = some t' := hw.last.trans ht'
    have hs : ∀ other, (c'.lastTs.get? other).isSome = (c.lastTs.get? other).isSome := by
      intro other
      by_cases hne : other = pair
      · rw [hne, isSome_of_lastOf hl, hfirst]
        rfl
      · rw [(hw.others other hne).2]
    obtain ⟨w', hwm', hle⟩ := hf.watermark hs 0 w hwm
    have hls := (watermark_eq_some.mp hwm').2 ⟨pair, hl⟩
    omega
  · rintro ⟨hk, hfirst⟩
    have hl : ∀ other t, c.lastOf other = some t → ∃ t', c'.lastOf other = some t' ∧ t ≤ t' := by
      intro other t ht
      by_cases hne : other = pair
      · subst hne
        rw [hw.last]
        exact hk t ht
      · exact ⟨t, (lastOf_congr (hw.others other hne).2).trans ht, le_rfl⟩
    refine ⟨hl, hc'.bound, fun hs lateness w hwm => ?_⟩
    obtain ⟨⟨other, hother⟩, hls⟩ := watermark_eq_some.mp hwm
    obtain ⟨t, ht, -⟩ := hl other _ hother
    obtain ⟨w', hwm'⟩ := exists_watermark ht lateness
    refine ⟨w', hwm', ?_⟩
    -- the pair of the new watermark is another one, or had a timestamp, or gets its first one
    obtain ⟨⟨least, hlt⟩, -⟩ := watermark_eq_some.mp hwm'
    suffices hle : w + lateness ≤ w' + lateness by omega
    by_cases hne : least = pair
    · subst hne
      cases hold : c.lastOf least with
      | some t =>
        obtain ⟨t', ht', hle⟩ := hl least t hold
        cases hlt.symm.trans ht'
        exact (hls ⟨least, hold⟩).trans hle
      | none =>
        have hkn : (c.lastTs.get? least).isSome := by
          rw [← hs]
          exact isSome_of_lastOf hlt
        obtain ⟨last, hget⟩ := Option.isSome_iff_exists.mp hkn
        rw [lastOf_eq, hget, Option.join_some] at hold
        rw [hold] at hget
        refine hfirst hget _ (hw.last.symm.trans hlt) _ ?_
        rw [watermark_eq_some, add_zero]
        exact ⟨⟨other, hother⟩, hls⟩
    · exact hls ⟨least, (lastOf_congr (hw.others least hne).2).symm.trans hlt⟩

lemma forward_unchanged (hc' : c'.Timed) (hw : Written c c' pair (c.itemsOf pair) (c.lastOf pair)) :
    Forward c c' := by
  refine (watermarks_forward_iff hc' hw).mpr ⟨fun t ht => ⟨t, ht, le_rfl⟩, fun hfirst t ht => ?_⟩
  rw [lastOf_eq, hfirst] at ht
  cases ht

lemma period_ne_zero (hp : c.SamePairs) (h : (c.lastTs.get? pair).isSome) : period ≠ 0 := by
  rw [← hp] at h
  obtain ⟨buffer, -⟩ := Option.isSome_iff_exists.mp h
  exact buffer.pos.ne'

lemma forward_append_iff (hc : c.Timed) (u : String) (i : ℕ) (t : ℤ) (payload : P) :
    Forward c (c.append u i t payload).state ↔ c.KeepsTime (.append u i t payload) := by
  have hc' := hc.append u i t payload
  by_cases hr : i = 0 ∨ period = 0
  · obtain ⟨hw, -⟩ := append_raised hc.pairs u t payload hr
    refine iff_of_true (forward_unchanged hc' hw) fun hi hfirst => ?_
    exact absurd (hr.resolve_left hi) (period_ne_zero hc.pairs (by rw [hfirst]; rfl))
  · obtain ⟨hi, hp⟩ := not_or.mp hr
    obtain ⟨hw, -⟩ := append_written hc.pairs u t payload hi (Nat.pos_of_ne_zero hp)
    rw [watermarks_forward_iff hc' hw]
    have hk : ∀ t', c.lastOf (u, i) = some t' →
        ∃ t'', some ((c.lastOf (u, i)).elim (bucketOf i t) (max (bucketOf i t))) = some t'' ∧ t' ≤ t'' := by
      intro t' ht'
      rw [ht']
      exact ⟨_, rfl, le_max_right _ _⟩
    have hn : c.lastTs.get? (u, i) = some none → c.lastOf (u, i) = none := fun hfirst => by
      rw [lastOf_eq, hfirst, Option.join_some]
    constructor
    · rintro ⟨-, hf⟩ - hfirst w hwm
      exact hf hfirst _ (by rw [hn hfirst]; rfl) w hwm
    · intro hkp
      refine ⟨hk, fun hfirst t' ht' w hwm => ?_⟩
      rw [hn hfirst] at ht'
      cases ht'
      exact hkp hi hfirst w hwm

lemma mem_bucketed {i : ℕ} {items : List (Item P)} :
    (∃ e ∈ bucketed i items, t ≤ e.1) ↔ ∃ e ∈ items, t ≤ bucketOf i e.1 := by
  constructor
  · rintro ⟨e', he', hle⟩
    obtain ⟨e, he, rfl⟩ := List.mem_map.mp he'
    exact ⟨e, he, hle⟩
  · rintro ⟨e, he, hle⟩
    exact ⟨_, List.mem_map_of_mem he, hle⟩

lemma bucketed_ne_nil {i : ℕ} {items : List (Item P)} (h : items ≠ []) : bucketed i items ≠ [] :=
  fun hnil => h (List.map_eq_nil_iff.mp hnil)

lemma forward_backfillBulk_iff (hc : c.Timed) (u : String) (i : ℕ) (items : List (Item P)) :
    Forward c (c.backfillBulk u i items).state ↔ c.KeepsTime (.backfillBulk u i items) := by
  have hc' := hc.backfillBulk u i items
  by_cases hr : i = 0 ∧ items ≠ [] ∨ period = 0
  · obtain ⟨hw, -⟩ := backfillBulk_raised hc.pairs u hr
    refine iff_of_true (forward_unchanged hc' hw) ⟨fun t ht => ?_, fun hi _ hfirst => ?_⟩
    · obtain ⟨rfl, -⟩ := hr.resolve_right (period_ne_zero hc.pairs (isSome_of_lastOf ht))
      rw [hc.interval] at ht
      cases ht
    · have hz := hr.resolve_right (period_ne_zero hc.pairs (by rw [hfirst]; rfl))
      exact absurd hz.1 hi
  · obtain ⟨hi, hp⟩ := not_or.mp hr
    have hp := Nat.pos_of_ne_zero hp
    obtain ⟨hw, -⟩ := backfillBulk_written hc.pairs u hi hp
    rw [watermarks_forward_iff hc' hw]
    refine and_congr (forall₂_congr fun t ht => ?_) ?_
    · -- the greatest timestamp that is kept was in the window or is backfilled
      obtain ⟨last, hmem, hl, hle⟩ := exists_merged hp (.inl (hc.held _ t ht))
      rw [hl, ← mem_bucketed]
      constructor
      · rintro ⟨t', ht', hle'⟩
        cases ht'
        rcases mem_of_mem_merged hmem with hold | hnew
        · obtain ⟨t', ht', hb⟩ := hc.bound _ _ hold
          cases ht.symm.trans ht'
          exact .inl ⟨last, hold, le_antisymm hb hle'⟩
        · exact .inr ⟨last, hnew, hle'⟩
      · rintro (⟨e, he, rfl⟩ | ⟨e, he, hle'⟩)
        · exact ⟨last.1, rfl, hle e (.inl he)⟩
        · exact ⟨last.1, rfl, hle'.trans (hle e (.inr he))⟩
    · constructor
      · intro hf _ hne hfirst w hwm
        obtain ⟨last, hmem, hl, -⟩ :=
          @exists_merged _ _ (c.itemsOf (u, i)) _ hp (.inr (bucketed_ne_nil (i := i) hne))
        have hold : c.itemsOf (u, i) = [] := hc.itemsOf_of_none (by rw [lastOf_eq, hfirst, Option.join_some])
        have hnew := (mem_of_mem_merged hmem).resolve_left (by rw [hold]; exact List.not_mem_nil)
        exact mem_bucketed.mp ⟨last, hnew, hf hfirst last.1 (by rw [hl]; rfl) w hwm⟩
      · intro hk hfirst t' ht' w hwm
        have hn : c.lastOf (u, i) = none := by rw [lastOf_eq, hfirst, Option.join_some]
        by_cases hne : items = []
        · rw [hn, hc.itemsOf_of_none hn, hne, bucketed, List.map_nil, mergedItems_nil] at ht'
          cases ht'
        · obtain ⟨e, he, hle⟩ := mem_bucketed.mpr (hk (fun hz => hi ⟨hz, hne⟩) hne hfirst w hwm)
          obtain ⟨last, hl, hl'⟩ := @le_last_of_mem_merged _ _ (c.itemsOf (u, i)) _ hp _ (.inr he)
          rw [hl] at ht'
          cases ht'
          exact hle.trans hl'

lemma forward_call_iff (hc : c.Timed) {call : CacheCall P} (hw : call.writes) :
    Forward c (c.call call).state ↔ c.KeepsTime call := by
  cases call with
  | append u i t payload => exact forward_append_iff hc u i t payload
  | backfillBulk u i items => exact forward_backfillBulk_iff hc u i items
  | drop u i => cases hw
  | activateComputeKey a => cases hw

/-- Event time moves forward at each step of a run of appends and backfills, whatever was called before it, just when each
of them keeps the time of the state it is made in. -/
theorem event_time_forward (before calls : List (CacheCall P)) (hwrites : ∀ call ∈ calls, call.writes = true) :
    (∀ earlier call later, calls = earlier ++ call :: later →
      Forward (run (before ++ earlier) : NodeCache P period) (run (before ++ earlier ++ [call]))) ↔
    ∀ earlier call later, calls = earlier ++ call :: later →
      (run (before ++ earlier) : NodeCache P period).KeepsTime call := by
  have hstep : ∀ earlier call later, calls = earlier ++ call :: later →
      (Forward (run (before ++ earlier) : NodeCache P period) (run (before ++ earlier ++ [call])) ↔
        (run (before ++ earlier) : NodeCache P period).KeepsTime call) := by
    intro earlier call later hcalls
    rw [run_concat]
    refine forward_call_iff (timed_run _) (hwrites call ?_)
    rw [hcalls]
    exact List.mem_append_right _ List.mem_cons_self
  exact forall₄_congr hstep

def lateItems : List (CacheCall Unit) :=
  [.append "btc" 60 300 (), .append "btc" 60 60 (), .append "btc" 60 120 ()]

/-- A backfill that brings a later bar moves time forward. -/
theorem event_time_forward_late :
    Forward (run lateItems : NodeCache Unit 2) (run (lateItems ++ [.backfillBulk "btc" 60 [(360, ())]])) := by
  have hwrites : ∀ call ∈ [(.backfillBulk "btc" 60 [(360, ())] : CacheCall Unit)], call.writes :=
    fun call hcall => by rw [List.mem_singleton.mp hcall]; rfl
  refine (event_time_forward lateItems [.backfillBulk "btc" 60 [(360, ())]] hwrites).mpr ?_ [] _ [] rfl
  intro earlier call later hcalls
  obtain ⟨rfl, rfl, -⟩ : earlier = [] ∧ call = .backfillBulk "btc" 60 [(360, ())] ∧ later = [] := by
    cases earlier with
    | nil => exact ⟨rfl, (List.cons.inj hcalls).1.symm, (List.cons.inj hcalls).2.symm⟩
    | cons call' earlier => cases earlier <;> cases (List.cons.inj hcalls).2
  have hlast : (run lateItems : NodeCache Unit 2).lastOf ("btc", 60) = some 300 := by decide +kernel
  refine ⟨fun t ht => .inr ⟨_, .head _, ?_⟩, fun _ _ hfirst => ?_⟩
  · cases hlast.symm.trans ht
    decide
  · rw [List.append_nil] at hfirst
    rw [lastOf_eq, hfirst] at hlast
    cases hlast

/-- A backfill of an earlier bar takes the last timestamp back from 300 to 180. -/
theorem backfill_goes_back : ¬ ∀ (period : ℕ) (calls : List (CacheCall Unit)), (∀ call ∈ calls, call.writes = true) →
    ∀ earlier call later, calls = earlier ++ call :: later →
      Forward (run earlier : NodeCache Unit period) (run (earlier ++ [call])) := by
  intro hall
  have hforward := hall 2 (lateItems ++ [.backfillBulk "btc" 60 [(180, ())]]) (by decide) lateItems _ [] rfl
  have hlast : (run lateItems : NodeCache Unit 2).lastOf ("btc", 60) = some 300 := by decide +kernel
  have hafter : (run (lateItems ++ [.backfillBulk "btc" 60 [(180, ())]]) : NodeCache Unit 2).lastOf ("btc", 60) =
      some 180 := by decide +kernel
  obtain ⟨t, ht, hle⟩ := hforward.last _ _ hlast
  cases hafter.symm.trans ht
  exact absurd hle (by decide)

end NodeCache

end Qmtl.Runtime.Cache

import Qmtl.Runtime.Cache.CacheIsolation

/-! The Arrow cache mirrors the in-memory cache: but for the backfilled ranges, and for where a slice is padded, each holds
what the other holds after every call. -/

namespace Qmtl.Runtime.Cache

open Lib

variable {P B : Type} {period : ℕ} {pickle : Pickle P B} {c : NodeCache P period} {a : NodeCacheArrow B}

/-- What the two caches hold in common. -/
structure Mirrors (pickle : Pickle P B) (c : NodeCache P period) (a : NodeCacheArrow B) : Prop where
  windows : a.slices.mapValues (Slice.getList pickle) = c.buffers.mapValues RingBuffer.items
  filled : a.filled = c.buffers.mapValues RingBuffer.filled
  lastTs : a.lastTs = c.lastTs
  missing : a.missing = c.missing
  context : a.activeContext = c.contextStrategy.active

namespace Mirrors

lemma new : Mirrors pickle (NodeCache.new : NodeCache P period) NodeCacheArrow.new := ⟨rfl, rfl, rfl, rfl, rfl⟩

lemma get? (h : Mirrors pickle c a) (key : Pair) :
    (a.slices.get? key).map (Slice.getList pickle) = (c.buffers.get? key).map RingBuffer.items := by
  rw [← Dict.get?_mapValues, ← Dict.get?_mapValues, h.windows]

lemma get?_filled (h : Mirrors pickle c a) (key : Pair) :
    a.filled.get? key = (c.buffers.get? key).map RingBuffer.filled := by
  rw [h.filled, Dict.get?_mapValues]

lemma track (h : Mirrors pickle c a) {lastTs lastTs' : Dict Pair (Option ℤ)} {missing missing' : Dict Pair Bool}
    (hl : lastTs' = lastTs) (hm : missing' = missing) :
    Mirrors pickle { c with lastTs := lastTs, missing := missing } { a with lastTs := lastTs', missing := missing' } :=
  ⟨h.windows, h.filled, hl, hm, h.context⟩

lemma store (h : Mirrors pickle c a) {buffer : RingBuffer P period} {sl : Slice B} {n : ℕ}
    (hit : sl.getList pickle = buffer.items) (hn : n = buffer.filled) (key : Pair) (seen : Dict Pair ℤ) :
    Mirrors pickle { c with buffers := c.buffers.set key buffer }
      { a with slices := a.slices.set key sl, filled := a.filled.set key n, lastSeen := seen } where
  windows := by rw [Dict.mapValues_set, Dict.mapValues_set, h.windows, hit]
  filled := by rw [Dict.mapValues_set, h.filled, hn]
  lastTs := h.lastTs
  missing := h.missing
  context := h.context

lemma marks (h : Mirrors pickle c a) (s s' : BackfillState) :
    Mirrors pickle { c with backfillState := s } { a with backfillState := s' } :=
  ⟨h.windows, h.filled, h.lastTs, h.missing, h.context⟩

/-- What both have once a pair is there. -/
structure Ensured (pickle : Pickle P B) (c : NodeCache P period) (a : NodeCacheArrow B) (key : Pair)
    (buffer : RingBuffer P period) (c' : NodeCache P period) : Prop where
  ensure : c.ensureBuffer key = some (buffer, c')
  items : (a.ensure key).1.getList pickle = buffer.items
  filled : (a.ensure key).2.filled.get? key = some buffer.filled
  mirrors : Mirrors pickle c' (a.ensure key).2

lemma ensured (hp : 0 < period) (h : Mirrors pickle c a) (key : Pair) :
    ∃ buffer c', Ensured pickle c a key buffer c' := by
  have hget := h.get? key
  have hfilled := h.get?_filled key
  cases hc : c.buffers.get? key with
  | some buffer =>
    rw [hc] at hget hfilled
    obtain ⟨sl, hsl, hit⟩ := Option.map_eq_some_iff.mp hget
    have ha : a.ensure key = (sl, a) := by rw [NodeCacheArrow.ensure, hsl]
    refine ⟨buffer, c, by rw [NodeCache.ensureBuffer, hc], ?_, ?_, ?_⟩ <;> rw [ha]
    · exact hit
    · exact hfilled
    · exact h
  | none =>
    rw [hc] at hget
    have hsl : a.slices.get? key = none := Option.map_eq_none_iff.mp hget
    obtain ⟨buffer, hb⟩ : ∃ buffer, RingBuffer.new? P period = some buffer := ⟨_, dif_pos hp⟩
    have hempty := RingBuffer.items_new hb
    have hz : 0 = buffer.filled := by rw [← buffer.length_items, hempty, List.length_nil]
    have hens : c.ensureBuffer key = some (buffer,
        { c with
          buffers := c.buffers.set key buffer
          lastTs := c.lastTs.set key none
          missing := c.missing.set key false }) := by rw [NodeCache.ensureBuffer, hc, hb, Option.map_some]
    have ha : a.ensure key = (Slice.new B,
        { a with
          slices := a.slices.set key (Slice.new B)
          lastTs := a.lastTs.set key none
          missing := a.missing.set key false
          filled := a.filled.set key 0
          lastSeen := a.lastSeen.set key 0 }) := by rw [NodeCacheArrow.ensure, hsl]
    refine ⟨buffer, _, hens, ?_, ?_, ?_⟩ <;> rw [ha]
    · rw [hempty]
      rfl
    · rw [← hz]
      exact Dict.get?_set_self ..
    · have hnew : (Slice.new B).getList pickle = buffer.items := by
        rw [hempty]
        rfl
      exact (h.track (congrArg (Dict.set · key none) h.lastTs) (congrArg (Dict.set · key false) h.missing)).store hnew
        hz key _

/-! ### One call -/

lemma trackAppend (h : Mirrors pickle c a) (key : Pair) (bucket : ℤ) :
    Mirrors pickle (c.trackAppend key bucket) (a.trackAppend key bucket) := by
  have hm := fun v => congrArg (Dict.set · key v) h.missing
  rw [NodeCache.trackAppend, NodeCacheArrow.trackAppend, h.lastTs]
  cases (c.lastTs.get? key).join with
  | none => exact h.track rfl (hm _)
  | some prev =>
    dsimp only
    split
    · exact h.track rfl (hm _)
    · exact h.track rfl (hm _)

lemma trackBackfill (h : Mirrors pickle c a) (key : Pair) (merged : List (Item P)) :
    Mirrors pickle (c.trackBackfill key merged) (a.trackBackfill key merged) := by
  have hl := fun v => congrArg (Dict.set · key v) h.lastTs
  have hm := fun v => congrArg (Dict.set · key v) h.missing
  rw [NodeCache.trackBackfill, NodeCacheArrow.trackBackfill, h.lastTs]
  cases merged.getLast? with
  | none => exact h
  | some last =>
    cases (c.lastTs.get? key).join with
    | none => exact h.track rfl (hm _)
    | some prev =>
      dsimp only
      split
      · exact h.track rfl (hm _)
      · exact h.track (hl _) h.missing

lemma append (hp : 0 < period) (h : Mirrors pickle c a) (u : String) (i : ℕ) (t : ℤ) (payload : P)
    (hfits : fitsInt64 (bucketOf i t)) :
    Mirrors pickle (c.append u i t payload).state (a.append pickle period u i t payload).state := by
  obtain ⟨buffer, c', hen, hit, hfilled, hm⟩ := h.ensured hp (u, i)
  unfold NodeCache.append NodeCacheArrow.append
  rw [hen]
  dsimp only
  by_cases hi : i = 0
  · rw [if_pos hi, if_pos hi]
    exact hm
  · obtain ⟨sl', hsl'⟩ := Option.isSome_iff_exists.mp
      (@Slice.append?_isSome P B period pickle (a.ensure (u, i)).1 _ payload hfits)
    have hnew : sl'.getList pickle = (buffer.append (bucketOf i t) payload).items := by
      rw [Slice.append?_eq_some pickle hsl', RingBuffer.items_append, hit]
    have hc : (((a.ensure (u, i)).2.trackAppend (u, i) (bucketOf i t)).filled.get? (u, i)).getD 0 = buffer.filled := by
      rw [NodeCacheArrow.filled_trackAppend, hfilled, Option.getD_some]
    rw [if_neg hi, if_neg hi, hsl', hc]
    exact (hm.trackAppend _ _).store hnew rfl _ _

lemma backfillBulk (hp : 0 < period) (h : Mirrors pickle c a) (u : String) (i : ℕ) (items : List (Item P))
    (hfits : ∀ e ∈ items, fitsInt64 (bucketOf i e.1)) :
    Mirrors pickle (c.backfillBulk u i items).state (a.backfillBulk pickle period u i items).state := by
  obtain ⟨buffer, c', hen, hit, hfilled, hm⟩ := h.ensured hp (u, i)
  unfold NodeCache.backfillBulk NodeCacheArrow.backfillBulk mergeBackfill
  dsimp only
  rw [hen]
  dsimp only
  rw [hit]
  cases hb : bucketize i items with
  | none => exact hm
  | some bucketed =>
    rw [Option.map_some]
    dsimp only
    rw [NodeCacheArrow.mergeInto]
    generalize hmr : lastItems period (sortedItems (setDefaults (Dict.ofList buffer.items) bucketed)) = merged
    have hlen : merged.length ≤ period := by
      rw [← hmr, length_lastItems hp]
      exact Nat.min_le_right _ _
    have hall : ∀ e ∈ merged, fitsInt64 e.1 := by
      intro e he
      rcases mem_merged (hmr ▸ he) with he | he
      · exact Slice.fits_getList pickle (a.ensure (u, i)).1 (hit ▸ he)
      · rw [bucketize_eq_some hb] at he
        obtain ⟨e₀, he₀, rfl⟩ := List.mem_map.mp he
        exact hfits e₀ he₀
    obtain ⟨sl', hsl'⟩ := Option.isSome_iff_exists.mp (Slice.ofItems?_isSome pickle hall)
    rw [hsl']
    have hnew : sl'.getList pickle = (buffer.replace merged).items := by
      rw [Slice.ofItems?_eq_some pickle hsl', RingBuffer.items_replace, lastItems_of_length_le hlen]
    have hc : min merged.length period = (buffer.replace merged).filled := by
      rw [← RingBuffer.length_items, RingBuffer.items_replace, lastItems_of_length_le hlen, Nat.min_eq_left hlen]
    have hma : Mirrors pickle (c'.markBackfill (u, i) ⟨bucketed, consecutiveRanges i (bucketed.map Prod.fst), merged⟩)
        ((a.ensure (u, i)).2.markBackfillRanges (u, i) bucketed) := hm.marks _ _
    have hstored := (hma.store hnew hc (u, i) (a.ensure (u, i)).2.lastSeen).trackBackfill (u, i) merged
    exact ⟨hstored.windows, hstored.filled, hstored.lastTs, hstored.missing, hstored.context⟩

lemma drop (h : Mirrors pickle c a) (u : String) (i : ℕ) : Mirrors pickle (c.drop u i) (a.drop u i) where
  windows := by
    show (a.slices.erase _).mapValues _ = (c.buffers.erase _).mapValues _
    rw [Dict.mapValues_erase, Dict.mapValues_erase, h.windows]
  filled := by
    show a.filled.erase _ = (c.buffers.erase _).mapValues _
    rw [Dict.mapValues_erase, h.filled]
  lastTs := congrArg (Dict.erase · _) h.lastTs
  missing := congrArg (Dict.erase · _) h.missing
  context := h.context

lemma key (h : Mirrors pickle c a) : c.contextStrategy.key? = a.activeComputeKey := by
  rw [ContextSwitchStrategy.key?, ← h.context, NodeCacheArrow.activeContext, Option.map_map]
  exact Option.map_id'

lemma activateComputeKey (h : Mirrors pickle c a) (act : Activation) :
    Mirrors pickle (c.activateComputeKey act) (a.activateComputeKey act) := by
  by_cases hs : c.contextStrategy.key? = none ∨ c.contextStrategy.key? = some act.key
  · rw [NodeCache.activateComputeKey_same hs, NodeCacheArrow.activateComputeKey_same (h.key ▸ hs)]
    exact ⟨h.windows, h.filled, h.lastTs, h.missing, rfl⟩
  · obtain ⟨_, hc⟩ := NodeCache.activateComputeKey_switch hs
    obtain ⟨_, ha⟩ := NodeCacheArrow.activateComputeKey_switch (h.key ▸ hs)
    rw [hc, ha]
    exact ⟨rfl, rfl, rfl, rfl, rfl⟩

lemma call (hp : 0 < period) (h : Mirrors pickle c a) {call : CacheCall P} (hfits : call.FitsInt64) :
    Mirrors pickle (c.call call).state (a.call pickle period call).state := by
  cases call with
  | append u i t payload => exact h.append hp u i t payload hfits
  | backfillBulk u i items => exact h.backfillBulk hp u i items hfits
  | drop u i => exact h.drop u i
  | activateComputeKey act => exact h.activateComputeKey act

lemma run (hp : 0 < period) {calls : List (CacheCall P)} (hfits : ∀ call ∈ calls, call.FitsInt64) :
    Mirrors pickle (NodeCache.run calls : NodeCache P period) (NodeCacheArrow.run pickle period calls) := by
  induction calls using List.reverseRecOn with
  | nil => exact new
  | append_singleton calls call ih =>
    rw [NodeCache.run_concat, NodeCacheArrow.run_concat]
    exact (ih fun x hx => hfits x (List.mem_append_left _ hx)).call hp
      (hfits call (List.mem_append_right _ List.mem_cons_self))

/-! ### The reads -/

lemma ready (h : Mirrors pickle c a) : a.ready period = c.ready := by
  have hempty : a.slices.entries.isEmpty = c.buffers.entries.isEmpty := by
    have hen := congrArg (fun d => d.entries.isEmpty) h.windows
    simpa [Dict.mapValues] using hen
  rw [NodeCacheArrow.ready, NodeCache.ready, hempty, h.filled, Dict.values_mapValues, List.all_map]
  rfl

lemma latest (h : Mirrors pickle c a) (u : String) (i : ℕ) : a.latest pickle u i = c.latest u i := by
  have hget := h.get? (u, i)
  rw [NodeCacheArrow.latest, NodeCache.latest]
  cases hc : c.buffers.get? (u, i) with
  | none =>
    rw [hc, Option.map_none, Option.map_eq_none_iff] at hget
    rw [hget]
  | some buffer =>
    rw [hc] at hget
    obtain ⟨sl, hsl, hit⟩ := Option.map_eq_some_iff.mp hget
    rw [hsl]
    dsimp only
    rw [Slice.latest_eq, RingBuffer.latest_eq, hit]

lemma getSlice_count (h : Mirrors pickle c a) (u : String) (i : ℕ) (count : ℤ) (start stop : Option ℤ) :
    a.getSlice pickle period u i (some count) start stop = c.getSlice u i (some count) start stop := by
  have hget := h.get? (u, i)
  unfold NodeCacheArrow.getSlice NodeCache.getSlice
  cases hc : c.buffers.get? (u, i) with
  | none =>
    rw [hc, Option.map_none, Option.map_eq_none_iff] at hget
    rw [hget]
  | some buffer =>
    rw [hc] at hget
    obtain ⟨sl, hsl, hit⟩ := Option.map_eq_some_iff.mp hget
    rw [hsl]
    dsimp only
    rw [hit]

lemma getSlice_range (h : Mirrors pickle c a) {u : String} {i : ℕ} {buffer : RingBuffer P period}
    (hc : c.buffers.get? (u, i) = some buffer) (start stop : Option ℤ) :
    a.getSlice pickle period u i none start stop = .ok (.array (iselRows period
        (buffer.items.map some ++ List.replicate (period - buffer.items.length) none) start stop)) ∧
      c.getSlice u i none start stop = .ok (.array (iselRows period (padded period buffer.items) start stop)) := by
  have hget := h.get? (u, i)
  rw [hc] at hget
  obtain ⟨sl, hsl, hit⟩ := Option.map_eq_some_iff.mp hget
  have hle : buffer.items.length ≤ period := buffer.length_items ▸ buffer.filled_le
  constructor
  · unfold NodeCacheArrow.getSlice
    rw [hsl]
    dsimp only
    rw [hit, lastItems_of_length_le hle, fillRows, if_pos hle]
  · unfold NodeCache.getSlice
    rw [hc]
    dsimp only
    rw [buffer.orderedArray_eq]

end Mirrors

lemma iselRows_none {rows : List (Option (Item P))} (h : rows.length = period) :
    (iselRows period rows none none).map Prod.snd = rows := by
  have hall : ∀ e ∈ (List.range period).zip rows,
      decide (sliceBound period none 0 ≤ e.1 ∧ (e.1 : ℤ) < sliceBound period none period) := by
    intro e he
    have hlt := List.mem_range.mp (List.of_mem_zip he).1
    simp only [sliceBound, Option.getD_none, decide_eq_true_eq]
    omega
  rw [iselRows, List.filter_eq_self.mpr hall]
  exact List.map_snd_zip (by rw [h, List.length_range])

def PartlyFilled (buffer : RingBuffer P period) : Prop := 0 < buffer.filled ∧ buffer.filled < period

variable {buffer : RingBuffer P period}

lemma padded_eq_of_not_partlyFilled (h : ¬ PartlyFilled buffer) :
    buffer.items.map some ++ List.replicate (period - buffer.items.length) none = padded period buffer.items := by
  have hlen := buffer.length_items
  unfold PartlyFilled at h
  rcases Nat.eq_zero_or_pos buffer.filled with hz | hpos
  · have hnil : buffer.items = [] := List.eq_nil_of_length_eq_zero (by omega)
    rw [padded, hnil, List.map_nil, List.nil_append, List.append_nil]
  · have hf : period - buffer.items.length = 0 := by omega
    rw [padded, hf, List.replicate_zero, List.append_nil, List.nil_append]

lemma padded_ne_of_partlyFilled (h : PartlyFilled buffer) :
    buffer.items.map some ++ List.replicate (period - buffer.items.length) none ≠ padded period buffer.items := by
  intro heq
  have hlen := buffer.length_items
  obtain ⟨hpos, hlt⟩ := h
  obtain ⟨k, hk⟩ : ∃ k, period - buffer.items.length = k + 1 := ⟨period - buffer.items.length - 1, by omega⟩
  cases hit : buffer.items with
  | nil =>
    rw [hit, List.length_nil] at hlen
    omega
  | cons e items =>
    rw [hit] at heq hk
    have hh := congrArg List.head? heq
    rw [padded, hk, List.replicate_succ, List.map_cons, List.cons_append, List.cons_append, List.head?_cons,
      List.head?_cons] at hh
    cases hh

lemma Mirrors.read_eq (h : Mirrors pickle c a)
    (hw : ∀ pair buffer, c.buffers.get? pair = some buffer → ¬ PartlyFilled buffer)
    (hr : ∀ pair, a.backfillState.rangesOf pair = c.backfillState.rangesOf pair) (r : CacheRead) :
    a.read pickle period r = c.read r := by
  cases r with
  | ready => exact congrArg ReadResult.ready h.ready
  | latest u i => exact congrArg ReadResult.latest (h.latest u i)
  | lastTimestamps => exact congrArg (fun d => ReadResult.lastTimestamps (byUpstream d)) h.lastTs
  | missingFlags => exact congrArg (fun d => ReadResult.missingFlags (byUpstream d)) h.missing
  | watermark lateness =>
    exact congrArg (fun d : Dict Pair (Option ℤ) => ReadResult.watermark ((d.values.reduceOption.min?).map (· - lateness)))
      h.lastTs
  | ranges u i => exact congrArg ReadResult.ranges (hr (u, i))
  | getSlice u i count start stop =>
    refine congrArg ReadResult.slice ?_
    cases count with
    | some count => exact h.getSlice_count u i count start stop
    | none =>
      cases hc : c.buffers.get? (u, i) with
      | some buffer =>
        obtain ⟨ha, hc'⟩ := h.getSlice_range hc start stop
        rw [ha, hc', padded_eq_of_not_partlyFilled (hw _ _ hc)]
      | none =>
        have hget := h.get? (u, i)
        rw [hc, Option.map_none, Option.map_eq_none_iff] at hget
        unfold NodeCacheArrow.getSlice NodeCache.getSlice
        rw [hget, hc]

lemma Mirrors.not_partlyFilled (h : Mirrors pickle c a) (hr : ∀ r, a.read pickle period r = c.read r) {pair : Pair}
    (hc : c.buffers.get? pair = some buffer) : ¬ PartlyFilled buffer := by
  intro hp
  obtain ⟨u, i⟩ := pair
  obtain ⟨ha, hc'⟩ := h.getSlice_range hc none none
  have hs := ReadResult.slice.inj (hr (.getSlice u i none none none))
  rw [ha, hc'] at hs
  have hrows := congrArg (List.map Prod.snd) (Sliced.array.inj (Except.ok.inj hs))
  have hle : buffer.items.length ≤ period := buffer.length_items ▸ buffer.filled_le
  rw [iselRows_none (length_padded hle), iselRows_none] at hrows
  · exact padded_ne_of_partlyFilled hp hrows
  · rw [List.length_append, List.length_map, List.length_replicate]
    omega

/-! ### Buckets -/

lemma dvd_bucketOf (interval : ℕ) (t : ℤ) : (interval : ℤ) ∣ bucketOf interval t := by
  exact Int.dvd_self_sub_emod

variable {calls : List (CacheCall P)}

lemma dvd_of_mem_backfilledBy {pair : Pair} {b : ℤ} (h : b ∈ backfilledBy pair calls) :
    0 < pair.2 ∧ (pair.2 : ℤ) ∣ b := by
  obtain ⟨call, -, hb⟩ := List.mem_flatMap.mp h
  cases call with
  | backfillBulk u i items =>
    rw [CacheCall.backfilled] at hb
    split at hb
    · rename_i hp
      obtain ⟨rfl, hi⟩ := hp
      obtain ⟨e, -, rfl⟩ := List.mem_map.mp hb
      exact ⟨Nat.pos_of_ne_zero hi, dvd_bucketOf i e.1⟩
    · cases hb
  | append u i t payload => cases hb
  | drop u i => cases hb
  | activateComputeKey act => cases hb

lemma mem_of_inBars {interval : ℕ} {bs : List ℤ} (hdvd : ∀ b ∈ bs, (interval : ℤ) ∣ b) {b : ℤ}
    (hb : 0 < interval ∧ (interval : ℤ) ∣ b) (h : InBars interval bs b) : b ∈ bs := by
  obtain ⟨b', hmem, hle, hlt⟩ := h
  have hz : b - b' = 0 := Int.eq_zero_of_dvd_of_nonneg_of_lt (by omega) (by omega) (dvd_sub hb.2 (hdvd b' hmem))
  rwa [show b = b' by omega]

/-- The two caches, of any positive period, read the same after a run of calls whose timestamps fit 64 bits exactly where
no window is partly filled, and where every bar that was backfilled under the active key before the last drop of its pair
was backfilled again after it. -/
theorem same_reads_iff (pickle : Pickle P B) (hperiod : 0 < period) (hfits : ∀ call ∈ calls, call.FitsInt64) :
    (∀ r, (NodeCacheArrow.run pickle period calls).read pickle period r = (NodeCache.run calls : NodeCache P period).read r) ↔
      (∀ pair buffer, (NodeCache.run calls : NodeCache P period).buffers.get? pair = some buffer → ¬ PartlyFilled buffer) ∧
      ∀ pair, ∀ b ∈ backfilledBy pair (History.of calls).since, b ∈ backfilledBy pair (sinceDrop pair (History.of calls).since) := by
  have hmirrors : Mirrors pickle (NodeCache.run calls : NodeCache P period) (NodeCacheArrow.run pickle period calls) :=
    Mirrors.run hperiod hfits
  have hbars := (@NodeCache.within_run P period calls).covers hperiod
  have hbars' := (@NodeCacheArrow.within_run P B period pickle calls).covers
  have hranges : ∀ pair, (NodeCacheArrow.run pickle period calls).backfillState.rangesOf pair =
      (NodeCache.run calls : NodeCache P period).backfillState.rangesOf pair ↔
        ∀ b ∈ backfilledBy pair (History.of calls).since, b ∈ backfilledBy pair (sinceDrop pair (History.of calls).since) := by
    intro pair
    rw [(hbars' pair).eq_iff (hbars pair)]
    constructor
    · intro hiff b hb
      obtain ⟨hpos, hdvd⟩ := dvd_of_mem_backfilledBy hb
      have hin := (hiff b).mp ⟨b, hb, le_rfl, by omega⟩
      exact mem_of_inBars (fun b' hb' => (dvd_of_mem_backfilledBy hb').2) ⟨hpos, hdvd⟩ hin
    · intro hsub t
      constructor
      · rintro ⟨b, hb, h⟩
        exact ⟨b, hsub b hb, h⟩
      · rintro ⟨b, hb, h⟩
        obtain ⟨call, hcall, hmem⟩ := List.mem_flatMap.mp hb
        exact ⟨b, List.mem_flatMap.mpr ⟨call, mem_sinceDrop hcall, hmem⟩, h⟩
  constructor
  · intro hread
    refine ⟨fun pair buffer hc => hmirrors.not_partlyFilled hread hc, fun pair => (hranges pair).mp ?_⟩
    exact ReadResult.ranges.inj (hread (.ranges pair.1 pair.2))
  · rintro ⟨hwhole, hsub⟩
    exact hmirrors.read_eq hwhole fun pair => (hranges pair).mpr (hsub pair)

def plainPickle : Pickle ℕ ℕ := ⟨id, id, fun _ => rfl⟩

/-- A period of one bar: a window is empty or full. -/
theorem same_reads_of_one :
    0 < 1 ∧ ∀ r, (NodeCacheArrow.run plainPickle 1 [.append "u1" 60 60 7]).read plainPickle 1 r =
      (NodeCache.run [.append "u1" 60 60 7] : NodeCache ℕ 1).read r := by
  have hfits : ∀ call ∈ [CacheCall.append "u1" 60 60 7], CacheCall.FitsInt64 call := by
    intro call hcall
    rw [List.mem_singleton.mp hcall]
    exact show fitsInt64 (bucketOf 60 60) by decide
  refine ⟨Nat.one_pos, (same_reads_iff plainPickle Nat.one_pos hfits).mpr ⟨?_, ?_⟩⟩
  · rintro pair buffer - ⟨hpos, hlt⟩
    omega
  · exact fun _ _ hb => absurd hb List.not_mem_nil

/-- One append into windows of two bars: the in-memory cache pads before the item, the Arrow cache after it. And after a
backfill and a drop, only the in-memory cache has forgotten the range. -/
theorem reads_differ :
    (NodeCacheArrow.run plainPickle 2 [.append "u1" 60 60 7]).read plainPickle 2 (.getSlice "u1" 60 none none none) ≠
        (NodeCache.run [.append "u1" 60 60 7] : NodeCache ℕ 2).read (.getSlice "u1" 60 none none none) ∧
      (NodeCacheArrow.run plainPickle 2 [.backfillBulk "u1" 60 [(60, 7)], .drop "u1" 60]).read plainPickle 2
          (.ranges "u1" 60) ≠
        (NodeCache.run [.backfillBulk "u1" 60 [(60, 7)], .drop "u1" 60] : NodeCache ℕ 2).read (.ranges "u1" 60) := by
  constructor
  · intro h
    have hslice : (.ok (.array [(0, some (60, 7)), (1, none)]) : Except CacheError (Sliced ℕ)) =
        .ok (.array [(0, none), (1, some (60, 7))]) := ReadResult.slice.inj h
    have hrows := Sliced.array.inj (Except.ok.inj hslice)
    exact absurd hrows (by decide)
  · intro h
    have hranges : [(60, 60)] = ([] : List Seamless.Range) := ReadResult.ranges.inj h
    exact absurd hranges (by decide)

end Qmtl.Runtime.Cache

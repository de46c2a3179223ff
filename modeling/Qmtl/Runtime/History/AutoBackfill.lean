import Qmtl.Runtime.History.HistoryCoverage

/-! Auto backfill of one node at one interval: a strategy asks its source for the missing ranges of a window, writes what the
backend does not have, and reports the coverage. -/

namespace Qmtl.Runtime.History

open Runtime.Seamless Runtime.Cache

/-! ### Frames and ranges -/

def sortTimestamps (timestamps : List ℤ) : List ℤ := timestamps.insertionSort (· ≤ ·)

def sortByStart (ranges : List Range) : List Range := ranges.insertionSort fun r r' => r.1 ≤ r'.1

def mergeRanges (existing newRanges : List Range) (interval : ℕ) : List Range :=
  match sortByStart (existing ++ newRanges) with
  | [] => []
  | first :: rest => mergeClosedInto interval first rest

def rangesFromDataframe (frame : List ℤ) (interval : ℕ) : List Range := consecutiveRanges interval (sortTimestamps frame)

def dropExisting (frame existing : List ℤ) : List ℤ × Bool :=
  if existing = [] then (frame, false)
  else
    let filtered := frame.filter fun ts => ts ∉ existing
    (filtered, filtered.length ≠ frame.length)

def normalizeFrame (frame : List ℤ) (gap : Range) : List ℤ :=
  (sortTimestamps frame).filter fun ts => gap.1 ≤ ts ∧ ts ≤ gap.2

/-! ### The backend -/

structure Write where
  had : List ℤ
  rows : List ℤ

structure Backend where
  rows : List ℤ
  writes : List Write

namespace Backend

def readRange (b : Backend) (start stop : ℤ) : List ℤ :=
  (sortTimestamps b.rows).filter fun ts => start ≤ ts ∧ ts < stop

def writeRows (b : Backend) (frame : List ℤ) : Backend := ⟨b.rows ++ frame, b.writes ++ [⟨b.rows, frame⟩]⟩

def coverage (b : Backend) (interval : ℕ) : List Range := rangesFromDataframe b.rows interval

end Backend

structure Report where
  updated : List Range
  refresh : Bool

structure Outcome where
  returned : List Range
  cached : List Range
  backend : Backend

def finish (interval : ℕ) (s : Report × Backend) : Outcome :=
  let updated := if s.1.refresh then mergeRanges [] (s.2.coverage interval) interval else s.1.updated
  ⟨updated, updated, s.2⟩

structure Recorder where
  replay : Option (ℤ → ℤ → List ℤ)
  readRange : Option (ℤ → ℤ → List ℤ)
  buffer : Option (List ℤ)

def Recorder.collect (r : Recorder) (start stop : ℤ) : List ℤ :=
  match r.replay with
  | some replay => replay start stop
  | none =>
    match r.readRange with
    | some read => read start stop
    | none => []

def Recorder.collectFromBuffer (r : Recorder) (start stop : ℤ) : List ℤ :=
  match r.buffer with
  | none => []
  | some items => items.filter fun ts => start ≤ ts ∧ ts ≤ stop

structure EventSource where
  replaySource : Option (ℤ → ℤ → List ℤ)
  recorder : Option Recorder
  normalizer : List ℤ → List ℤ := id

def EventSource.collectEvents (e : EventSource) (start stop : ℤ) : List ℤ :=
  match e.replaySource with
  | some replay => replay start stop
  | none =>
    match e.recorder with
    | none => []
    | some recorder =>
      let events := recorder.collect start stop
      if events ≠ [] then events else recorder.collectFromBuffer start stop

def EventSource.frame (e : EventSource) (start stop : ℤ) : List ℤ := e.normalizer (e.collectEvents start stop)

section Frames

variable {interval : ℕ} {frame existing : List ℤ} {gap : Range} {t : ℤ}

lemma mem_sortTimestamps {ts : List ℤ} : t ∈ sortTimestamps ts ↔ t ∈ ts := (List.perm_insertionSort _ ts).mem_iff

lemma mem_normalizeFrame : t ∈ normalizeFrame frame gap ↔ t ∈ frame ∧ gap.1 ≤ t ∧ t ≤ gap.2 := by
  rw [normalizeFrame, List.mem_filter, mem_sortTimestamps, decide_eq_true_eq]

lemma mem_readRange {b : Backend} {start stop : ℤ} : t ∈ b.readRange start stop ↔ t ∈ b.rows ∧ start ≤ t ∧ t < stop := by
  rw [Backend.readRange, List.mem_filter, mem_sortTimestamps, decide_eq_true_eq]

lemma mem_dropExisting : t ∈ (dropExisting frame existing).1 ↔ t ∈ frame ∧ t ∉ existing := by
  unfold dropExisting
  split_ifs with hnil
  · simp [hnil]
  · simp

lemma dropExisting_snd : (dropExisting frame existing).2 = true ↔ ∃ t ∈ frame, t ∈ existing := by
  unfold dropExisting
  split_ifs with hnil
  · simp [hnil]
  · simp

lemma contains_rangesFrom {start prev : ℤ} (hle : start ≤ prev) {ts : List ℤ}
    (h : (start ≤ t ∧ t ≤ prev) ∨ t ∈ ts) : Contains (rangesFrom interval start prev ts) t := by
  induction ts generalizing start prev with
  | nil => exact ⟨(start, prev), List.mem_singleton_self _, h.resolve_right List.not_mem_nil⟩
  | cons u rest ih =>
    rw [rangesFrom]
    split_ifs with hn
    · refine ih (by omega) ?_
      rcases h with h | h
      · exact .inl (by omega)
      · exact (List.mem_cons.mp h).imp_left fun h => (by omega)
    · rw [contains_cons]
      refine h.imp_right fun h => ih le_rfl ?_
      exact (List.mem_cons.mp h).imp_left fun h => (by omega)

lemma contains_rangesFromDataframe (h : t ∈ frame) : Contains (rangesFromDataframe frame interval) t := by
  rw [← mem_sortTimestamps] at h
  unfold rangesFromDataframe
  cases hs : sortTimestamps frame with
  | nil =>
    rw [hs] at h
    cases h
  | cons u rest =>
    rw [hs] at h
    exact contains_rangesFrom le_rfl ((List.mem_cons.mp h).imp_left fun h => (by omega))

lemma ends_rangesFrom {start prev : ℤ} {ts : List ℤ} {r : Range} (h : r ∈ rangesFrom interval start prev ts) :
    (r.1 = start ∨ r.1 ∈ ts) ∧ (r.2 = prev ∨ r.2 ∈ ts) := by
  induction ts generalizing start prev with
  | nil =>
    obtain rfl := List.mem_singleton.mp h
    exact ⟨.inl rfl, .inl rfl⟩
  | cons u rest ih =>
    rw [rangesFrom] at h
    simp only [List.mem_cons]
    split_ifs at h
    · obtain ⟨hs, hst⟩ := ih h
      exact ⟨hs.imp_right .inr, .inr hst⟩
    · rcases List.mem_cons.mp h with rfl | h
      · exact ⟨.inl rfl, .inl rfl⟩
      · obtain ⟨hs, hst⟩ := ih h
        exact ⟨.inr hs, .inr hst⟩

lemma ends_rangesFromDataframe {r : Range} (h : r ∈ rangesFromDataframe frame interval) :
    r.1 ∈ frame ∧ r.2 ∈ frame := by
  rw [← @mem_sortTimestamps r.1 frame, ← @mem_sortTimestamps r.2 frame]
  unfold rangesFromDataframe at h
  cases hs : sortTimestamps frame with
  | nil =>
    rw [hs] at h
    cases h
  | cons u rest =>
    rw [hs] at h
    simpa [List.mem_cons] using ends_rangesFrom h

/-- The instant lies between two ranges that merging joins. -/
def Bridged (interval : ℕ) (rs : List Range) (t : ℤ) : Prop :=
  ∃ r ∈ rs, ∃ r' ∈ rs, r.2 < t ∧ t < r'.1 ∧ r'.1 ≤ r.2 + interval

/-- A range whose bars are all hit by others contains, besides what they contain, what lies between two of
them that are no bar apart. -/
theorem contains_or_bridged {rs : List Range} {q : Range} (hle : ∀ r ∈ rs, r.1 ≤ r.2)
    (hq : ∀ x, q.1 ≤ x → x < q.2 + interval → Hits (rs.map (barsOf interval)) x) (hend : ∃ r ∈ rs, q.2 = r.2)
    (ht : q.1 ≤ t ∧ t ≤ q.2) : Contains rs t ∨ Bridged interval rs t := by
  by_cases hc : Contains rs t
  · exact .inl hc
  · right
    have hout : ∀ r ∈ rs, r.1 ≤ t → r.2 < t := fun r hr h => by
      by_contra hn
      exact hc ⟨r, hr, h, not_lt.mp hn⟩
    obtain ⟨r₀, hr₀, h₀⟩ := hend
    have hlt : t < r₀.1 := by
      by_contra hn
      have := hout r₀ hr₀ (not_lt.mp hn)
      omega
    -- the first range after `t`, and what hits the instant before it
    obtain ⟨r', hr', hmin⟩ := Finset.exists_min_image (rs.toFinset.filter fun r => t < r.1) Prod.fst
      ⟨r₀, by simp [hr₀, hlt]⟩
    simp only [Finset.mem_filter, List.mem_toFinset] at hr' hmin
    have h₁ := hmin r₀ ⟨hr₀, hlt⟩
    have h₂ := hle r₀ hr₀
    obtain ⟨b, hb, hge, hlt'⟩ := hq (r'.1 - 1) (by omega) (by omega)
    obtain ⟨r, hr, rfl⟩ := List.mem_map.mp hb
    dsimp only [barsOf] at hge hlt'
    have hrt : r.1 ≤ t := by
      by_contra hn
      have := hmin r ⟨hr, not_le.mp hn⟩
      omega
    exact ⟨r, hr, r', hr'.1, hout r hr hrt, hr'.2, by omega⟩

lemma contains_or_bridged_of_mergeClosed {rs : List Range} (hle : ∀ r ∈ rs, r.1 ≤ r.2)
    (h : Contains (mergeClosed interval rs) t) : Contains rs t ∨ Bridged interval rs t := by
  obtain ⟨q, hq, ht⟩ := h
  refine contains_or_bridged hle (fun x hge hlt => ?_) (ends_mergeClosed hq).2 ht
  rw [← hits_merge, ← map_mergeClosed]
  exact ⟨barsOf interval q, List.mem_map_of_mem hq, hge, hlt⟩

lemma mem_or_bridged_of_rangesFromDataframe (h : Contains (rangesFromDataframe frame interval) t) :
    t ∈ frame ∨ ∃ u ∈ frame, ∃ v ∈ frame, u < t ∧ t < v ∧ v ≤ u + interval := by
  obtain ⟨q, hq, ht⟩ := h
  have hmem : ∀ u, u ∈ sortTimestamps frame ↔ u ∈ frame := fun u => mem_sortTimestamps
  have hb : Contains (frame.map fun u => (u, u)) t ∨ Bridged interval (frame.map fun u => (u, u)) t := by
    refine contains_or_bridged (q := q) (by simp) (fun x hge hlt => ?_) ?_ ht
    · obtain ⟨b, hb, hin⟩ := (hits_consecutiveRanges interval (sortTimestamps frame) x).mp
        ⟨barsOf interval q, List.mem_map_of_mem hq, hge, hlt⟩
      exact ⟨(b, b + interval), by simpa [barsOf] using (hmem b).mp hb, hin⟩
    · have := (ends_rangesFromDataframe hq).2
      exact ⟨(q.2, q.2), by simpa using this, rfl⟩
  rcases hb with ⟨r, hr, hge, hle⟩ | ⟨r, hr, r', hr', h⟩
  · obtain ⟨u, hu, rfl⟩ := List.mem_map.mp hr
    exact .inl (le_antisymm hle hge ▸ hu)
  · obtain ⟨u, hu, rfl⟩ := List.mem_map.mp hr
    obtain ⟨v, hv, rfl⟩ := List.mem_map.mp hr'
    exact .inr ⟨u, hu, v, hv, h⟩

lemma ordered_rangesFromDataframe {r : Range} (h : r ∈ rangesFromDataframe frame interval) : r.1 ≤ r.2 :=
  le_of_mem_consecutiveRanges h

lemma mergeRanges_eq {existing newRanges : List Range} (hpos : 0 < interval)
    (hle : ∀ r ∈ existing ++ newRanges, r.1 ≤ r.2) :
    mergeRanges existing newRanges interval = mergeClosed interval (existing ++ newRanges) := by
  unfold mergeRanges
  generalize existing ++ newRanges = rs at hle
  have hb : ∀ r ∈ rs.map (barsOf interval), r.1 < r.2 := by
    intro r hr
    obtain ⟨q, hq, rfl⟩ := List.mem_map.mp hr
    have := hle q hq
    dsimp only [barsOf]
    omega
  -- both are the ranges, apart and not empty, that cover the instants of the bars
  have hp : ((sortByStart rs).map (barsOf interval)).Perm (rs.map (barsOf interval)) :=
    (List.perm_insertionSort _ rs).map _
  have hs : ((sortByStart rs).map (barsOf interval)).Pairwise fun r r' => r.1 ≤ r'.1 := by
    rw [List.pairwise_map]
    exact List.pairwise_insertionSort _ rs
  have hh : ∀ t, Hits ((sortByStart rs).map (barsOf interval)) t ↔ Hits (rs.map (barsOf interval)) t :=
    fun t => hits_perm hp
  refine List.map_injective_iff.mpr (barsOf_injective interval) ?_
  rw [map_mergeClosed]
  cases hsr : sortByStart rs with
  | nil =>
    have := (List.perm_insertionSort (fun r r' : Range => r.1 ≤ r'.1) rs).length_eq
    rw [← sortByStart, hsr] at this
    rw [List.length_eq_zero_iff.mp this.symm]
    rfl
  | cons first rest =>
    rw [hsr, List.map_cons] at hs hh hp
    rw [map_mergeClosedInto]
    refine eq_of_hits (pairwise_mergeInto hs) (pairwise_merge _) ?_ (fun r hr => pos_merge hb hr) ?_
    · intro r hr
      obtain ⟨q, hq, hst, hsto⟩ := start_mergeInto hr
      have := hb q (hp.mem_iff.mp hq)
      omega
    · intro t
      rw [hits_mergeInto hs, hh, hits_merge]

end Frames

def fillGap (late : Bool) (frames : ℤ → ℤ → List ℤ) (interval : ℕ) (s : Report × Backend) (gap : Range) :
    Report × Backend :=
  let frame := normalizeFrame (frames gap.1 gap.2) gap
  let dropped := dropExisting frame (s.2.readRange gap.1 (gap.2 + interval))
  if dropped.1 = [] then (⟨s.1.updated, s.1.refresh || (dropped.2 && !late)⟩, s.2)
  else
    (⟨mergeRanges s.1.updated (rangesFromDataframe dropped.1 interval) interval, s.1.refresh || dropped.2⟩,
      s.2.writeRows dropped.1)

section Loops

variable {late : Bool} {frames : ℤ → ℤ → List ℤ} {interval : ℕ}

end Loops

/-! ### What is filled -/

def Supplies (frames : ℤ → ℤ → List ℤ) (held : List ℤ) : Prop :=
  ∀ gap : Range, normalizeFrame (frames gap.1 gap.2) gap = normalizeFrame held gap

/-- A bar of the window. -/
def GridPoint (window : WarmupWindow) (t : ℤ) : Prop :=
  (window.interval : ℤ) ∣ t - window.start ∧ window.start ≤ t ∧ t ≤ window.stop

/-- What lies in the window is one of its bars; outside the window there is no grid to keep to. -/
def HeldOnGrid (window : WarmupWindow) (held : List ℤ) : Prop :=
  ∀ t ∈ held, window.start ≤ t → t ≤ window.stop → (window.interval : ℤ) ∣ t - window.start

def ends (ranges : List Range) : List ℤ := ranges.flatMap fun r => [r.1, r.2]

structure Stored (window : WarmupWindow) (rows : List ℤ) (cached : List Range) : Prop where
  rows_grid : HeldOnGrid window rows
  ranges_grid : HeldOnGrid window (ends cached)
  ordered : ∀ r ∈ cached, r.1 ≤ r.2
  within : ∀ t, GridPoint window t → Contains cached t → t ∈ rows

/-- No two of these that lie on either side of the window are so near that merging joins them. -/
def Clear (window : WarmupWindow) (ts : List ℤ) : Prop :=
  ∀ u ∈ ts, ∀ v ∈ ts, u < window.start → window.stop < v → u + window.interval < v

/-- A gap after which the coverage is read anew: the source holds a row there that the backend has, and for a late
strategy also one that it does not have. -/
def Refreshes (late : Bool) (rows held : List ℤ) (gap : Range) : Prop :=
  (∃ t ∈ normalizeFrame held gap, t ∈ rows) ∧ (late = true → ∃ t ∈ normalizeFrame held gap, t ∉ rows)

structure Filled (late : Bool) (window : WarmupWindow) (rows : List ℤ) (cached : List Range) (held : List ℤ)
    (gaps : List Range) (s : Report × Backend) : Prop where
  mem_rows : ∀ t, t ∈ s.2.rows ↔ t ∈ rows ∨ ∃ g ∈ gaps, t ∈ normalizeFrame held g
  grid : HeldOnGrid window (ends s.1.updated)
  clear : Clear window (ends s.1.updated)
  ordered : ∀ r ∈ s.1.updated, r.1 ≤ r.2
  contains : ∀ t, GridPoint window t →
    (Contains s.1.updated t ↔ Contains cached t ∨ (t ∈ s.2.rows ∧ t ∉ rows))
  refresh : s.1.refresh = true ↔ ∃ g ∈ gaps, Refreshes late rows held g
  writes : ∀ w ∈ s.2.writes, ∀ t ∈ w.rows, t ∉ w.had

section Fill

variable {late : Bool} {window : WarmupWindow} {frames : ℤ → ℤ → List ℤ} {rows held : List ℤ} {cached gaps : List Range}
  {s : Report × Backend}

lemma mem_ends {rs : List Range} {t : ℤ} : t ∈ ends rs ↔ ∃ r ∈ rs, t = r.1 ∨ t = r.2 := by
  simp [ends]

lemma HeldOnGrid.gridPoint (h : HeldOnGrid window held) {t : ℤ} (ht : t ∈ held) (hge : window.start ≤ t)
    (hle : t ≤ window.stop) : GridPoint window t := ⟨h t ht hge hle, hge, hle⟩

/-- A bar of the window is bridged only from outside. -/
theorem GridPoint.outside {ts : List ℤ} (hts : HeldOnGrid window ts) {t u v : ℤ} (ht : GridPoint window t)
    (hu : u ∈ ts) (hv : v ∈ ts) (hut : u < t) (htv : t < v) (h : v ≤ u + window.interval) :
    u < window.start ∧ window.stop < v := by
  obtain ⟨hdvd, hge, hle⟩ := ht
  have hstep : ∀ {a b : ℤ}, (window.interval : ℤ) ∣ a - window.start → (window.interval : ℤ) ∣ b - window.start →
      a < b → a + window.interval ≤ b := by
    intro a b ha hb hab
    have := dvd_sub hb ha
    rw [sub_sub_sub_cancel_right] at this
    exact add_le_of_dvd this hab
  have hus : u < window.start := by
    by_contra hn
    have := hstep (hts u hu (not_lt.mp hn) (by omega)) hdvd hut
    omega
  refine ⟨hus, ?_⟩
  by_contra hn
  have := hstep hdvd (hts v hv (by omega) (not_lt.mp hn)) htv
  omega

lemma mergeRanges_spec {existing : List Range} {frame : List ℤ} (hpos : 0 < window.interval)
    (hgrid : HeldOnGrid window (ends existing)) (hor : ∀ r ∈ existing, r.1 ≤ r.2) (hf : HeldOnGrid window frame) :
    (∀ u ∈ ends (mergeRanges existing (rangesFromDataframe frame window.interval) window.interval),
      u ∈ ends existing ++ frame) ∧
    (∀ r ∈ mergeRanges existing (rangesFromDataframe frame window.interval) window.interval, r.1 ≤ r.2) ∧
    ∀ t, GridPoint window t → (Contains existing t ∨ t ∈ frame →
        Contains (mergeRanges existing (rangesFromDataframe frame window.interval) window.interval) t) ∧
      (Contains (mergeRanges existing (rangesFromDataframe frame window.interval) window.interval) t →
        (Contains existing t ∨ t ∈ frame) ∨ ¬ Clear window (ends existing ++ frame)) := by
  have ho' : ∀ r ∈ existing ++ rangesFromDataframe frame window.interval, r.1 ≤ r.2 := by
    intro r hr
    rcases List.mem_append.mp hr with hr | hr
    · exact hor r hr
    · exact ordered_rangesFromDataframe hr
  have hall : HeldOnGrid window (ends existing ++ frame) := fun t ht =>
    (List.mem_append.mp ht).elim (hgrid t) (hf t)
  have hends : ∀ r ∈ existing ++ rangesFromDataframe frame window.interval,
      r.1 ∈ ends existing ++ frame ∧ r.2 ∈ ends existing ++ frame := by
    intro r hr
    rcases List.mem_append.mp hr with hr | hr
    · exact ⟨List.mem_append_left _ (mem_ends.mpr ⟨r, hr, .inl rfl⟩),
        List.mem_append_left _ (mem_ends.mpr ⟨r, hr, .inr rfl⟩)⟩
    · exact (ends_rangesFromDataframe hr).imp (List.mem_append_right _) (List.mem_append_right _)
  rw [mergeRanges_eq hpos ho']
  refine ⟨?_, (mergeClosed_spec ho').1, fun t ht => ⟨fun h => ?_, fun h => ?_⟩⟩
  · intro u hu
    obtain ⟨r, hr, hru⟩ := mem_ends.mp hu
    obtain ⟨⟨q, hq, hs⟩, q', hq', he⟩ := ends_mergeClosed hr
    rcases hru with rfl | rfl
    · exact hs ▸ (hends q hq).1
    · exact he ▸ (hends q' hq').2
  · have hc : Contains (existing ++ rangesFromDataframe frame window.interval) t :=
      contains_append.mpr (h.imp_right contains_rangesFromDataframe)
    obtain ⟨r, hr, hge, hle⟩ := hc
    obtain ⟨q, hq, hs, he⟩ := (mergeClosed_spec ho').2 r hr
    exact ⟨q, hq, hs.trans hge, hle.trans he⟩
  · have hbridge : ∀ {u v : ℤ}, u ∈ ends existing ++ frame → v ∈ ends existing ++ frame → u < t → t < v →
        v ≤ u + window.interval → ¬ Clear window (ends existing ++ frame) := by
      intro u v hu hv hut htv hle hclear
      obtain ⟨hus, hvs⟩ := ht.outside hall hu hv hut htv hle
      have := hclear u hu v hv hus hvs
      omega
    rcases contains_or_bridged_of_mergeClosed ho' h with h | ⟨r, hr, r', hr', hut, htv, hle⟩
    · rcases contains_append.mp h with h | h
      · exact .inl (.inl h)
      · rcases mem_or_bridged_of_rangesFromDataframe h with h | ⟨u, hu, v, hv, hut, htv, hle⟩
        · exact .inl (.inr h)
        · exact .inr (hbridge (List.mem_append_right _ hu) (List.mem_append_right _ hv) hut htv hle)
    · exact .inr (hbridge (hends r hr).2 (hends r' hr').1 hut htv hle)

lemma Filled.step (hpos : 0 < window.interval) (hs : Supplies frames held) (hh : HeldOnGrid window held)
    (h : Filled late window rows cached held gaps s) {gap : Range} (hb : ∀ g ∈ gaps, g.2 < gap.1)
    (hin : window.start ≤ gap.1 ∧ gap.2 ≤ window.stop) :
    Filled late window rows cached held (gaps ++ [gap]) (fillGap late frames window.interval s gap) := by
  have hmem : ∀ {t}, t ∈ normalizeFrame held gap → t ∈ held ∧ gap.1 ≤ t ∧ t ≤ gap.2 := mem_normalizeFrame.mp
  -- no earlier gap has written where this one is
  have hold : ∀ t ∈ normalizeFrame held gap, (t ∈ s.2.rows ↔ t ∈ rows) := by
    intro t ht
    rw [h.mem_rows, or_iff_left]
    rintro ⟨g, hg, hh⟩
    have := hb g hg
    have := (mem_normalizeFrame.mp hh).2
    have := (hmem ht).2
    omega
  have hex : ∀ t ∈ normalizeFrame held gap,
      (t ∈ s.2.readRange gap.1 (gap.2 + window.interval) ↔ t ∈ rows) := by
    intro t ht
    have := (hmem ht).2
    rw [mem_readRange, hold t ht, and_iff_left (by omega)]
  have hl : ∀ P : Range → Prop, (∃ g ∈ gaps ++ [gap], P g) ↔ (∃ g ∈ gaps, P g) ∨ P gap := by
    intro P
    simp [or_and_right, exists_or]
  have hfr : normalizeFrame (frames gap.1 gap.2) gap = normalizeFrame held gap := hs gap
  have hf : ∀ t, t ∈ (dropExisting (normalizeFrame held gap) (s.2.readRange gap.1 (gap.2 + window.interval))).1 ↔
      t ∈ normalizeFrame held gap ∧ t ∉ rows := by
    intro t
    rw [mem_dropExisting]
    exact and_congr_right fun ht => not_congr (hex t ht)
  have hd : (dropExisting (normalizeFrame held gap) (s.2.readRange gap.1 (gap.2 + window.interval))).2 ↔
      ∃ t ∈ normalizeFrame held gap, t ∈ rows := by
    rw [dropExisting_snd]
    exact exists_congr fun t => and_congr_right fun ht => hex t ht
  unfold fillGap
  dsimp only
  rw [hfr]
  generalize dropExisting (normalizeFrame held gap) (s.2.readRange gap.1 (gap.2 + window.interval)) = dropped at *
  split_ifs with hnil
  · have hn : ∀ t ∈ normalizeFrame held gap, t ∈ rows := by
      intro t ht
      by_contra hnot
      have := (hf t).mpr ⟨ht, hnot⟩
      rw [hnil] at this
      cases this
    refine ⟨fun t => ?_, h.grid, h.clear, h.ordered, h.contains, ?_, h.writes⟩
    · rw [h.mem_rows, hl, ← or_assoc]
      exact (or_iff_left_of_imp fun ht => .inl (hn t ht)).symm
    · rw [hl, ← h.refresh, Bool.or_eq_true, Bool.and_eq_true, hd, Refreshes]
      refine or_congr_right (and_congr_right fun _ => ?_)
      cases late with
      | false => simp
      | true =>
        simp only [Bool.not_true, Bool.false_eq_true, true_implies, false_iff, not_exists, not_and, not_not]
        exact hn
  · obtain ⟨t₀, ht₀⟩ := List.exists_mem_of_ne_nil _ hnil
    have hwin : ∀ t ∈ dropped.1, GridPoint window t := by
      intro t ht
      obtain ⟨hh', hge, hle⟩ := hmem ((hf t).mp ht).1
      exact hh.gridPoint hh' (hin.1.trans hge) (hle.trans hin.2)
    obtain ⟨hg', ho', hc'⟩ := mergeRanges_spec hpos h.grid h.ordered fun t ht _ _ => (hwin t ht).1
    -- what is written lies in the window and bridges nothing
    have hclear : Clear window (ends s.1.updated ++ dropped.1) := by
      intro u hu v hv hus hvs
      have hout : ∀ x ∈ ends s.1.updated ++ dropped.1, x < window.start ∨ window.stop < x → x ∈ ends s.1.updated := by
        intro x hx ho
        refine (List.mem_append.mp hx).resolve_right fun hx => ?_
        obtain ⟨-, hge, hle⟩ := hwin x hx
        omega
      exact h.clear u (hout u hu (.inl hus)) v (hout v hv (.inr hvs)) hus hvs
    have hrows : ∀ t, t ∈ (s.2.writeRows dropped.1).rows ↔ t ∈ s.2.rows ∨ t ∈ dropped.1 := fun t => List.mem_append
    refine ⟨fun t => ?_, fun t ht => ?_, fun u hu v hv => hclear u (hg' u hu) v (hg' v hv), ho', fun t ht => ?_, ?_, ?_⟩
    · rw [hrows, h.mem_rows, hl, hf, ← or_assoc]
      by_cases hrow : t ∈ rows <;> simp [hrow]
    · exact (List.mem_append.mp (hg' t ht)).elim (h.grid t) fun ht _ _ => (hwin t ht).1
    · rw [show Contains _ t ↔ _ from ⟨fun hc => ((hc' t ht).2 hc).resolve_right (not_not_intro hclear), (hc' t ht).1⟩,
        h.contains t ht, hrows, hf]
      by_cases hrow : t ∈ rows <;> simp [hrow, or_assoc]
    · rw [hl, ← h.refresh, Bool.or_eq_true, hd, Refreshes]
      refine or_congr_right (and_iff_left fun _ => ?_).symm
      exact ⟨t₀, (hf t₀).mp ht₀⟩
    · intro w hw t ht
      rcases List.mem_append.mp hw with hw | hw
      · exact h.writes w hw t ht
      · obtain rfl := List.mem_singleton.mp hw
        obtain ⟨hf', hnot⟩ := (hf t).mp ht
        exact fun hhad => hnot ((hold t hf').mp hhad)

end Fill

/-! ### `ensure_range` -/

section Ensure

variable {late : Bool} {window : WarmupWindow} {frames : ℤ → ℤ → List ℤ} {rows held : List ℤ} {cached : List Range}

end Ensure

end Qmtl.Runtime.History

import Qmtl.Runtime.Seamless.Coverage
import Mathlib.Data.List.Induction

/-! Whether the fetch planner returns every bar that a source holds, once. -/

namespace Qmtl.Runtime.Seamless

/-! ### The planner -/

section Planner

variable (interval : ℤ)

def leftOf (s : DataSource) (r : Range) : List Range := subtract [r] (intersect [r] (s.coverage interval)) interval

def readOf (s : DataSource) (r : Range) : List ℤ := (intersect [r] (s.coverage interval)).flatMap s.fetch

lemma flatten_fetchAvailable (s : DataSource) (available : List Range) :
    (fetchAvailable s available).flatten = available.flatMap s.fetch := by
  unfold fetchAvailable
  rw [List.flatten_filter_ne_nil, List.flatMap_def]

lemma consumeSource_spec (s : DataSource) (ranges : List Range) (frames : List (List ℤ)) :
    (consumeSource interval s ranges frames).1 = ranges.flatMap (leftOf interval s) ∧
      (consumeSource interval s ranges frames).2.flatten = frames.flatten ++ ranges.flatMap (readOf interval s) := by
  unfold consumeSource
  induction ranges using List.reverseRecOn with
  | nil => exact ⟨rfl, (List.append_nil _).symm⟩
  | append_singleton ranges r ih =>
    rw [List.foldl_append, List.foldl_cons, List.foldl_nil, List.flatMap_append, List.flatMap_append,
      List.flatMap_singleton, List.flatMap_singleton, ← List.append_assoc, ← ih.1, ← ih.2]
    dsimp only
    split
    · rw [List.flatten_append, flatten_fetchAvailable]
      exact ⟨rfl, rfl⟩
    · rename_i hnil
      have hnil := not_not.mp hnil
      unfold leftOf readOf
      rw [hnil, List.flatMap_nil, List.append_nil]
      exact ⟨rfl, rfl⟩

def barsFrom : List DataSource → List Range → List ℤ
  | [], _ => []
  | s :: sources, ranges => ranges.flatMap (readOf interval s) ++ barsFrom sources (ranges.flatMap (leftOf interval s))

lemma barsFrom_nil (sources : List DataSource) : barsFrom interval sources [] = [] := by
  induction sources with
  | nil => rfl
  | cons s sources ih => exact ih

lemma flatten_consumeSources (sources : List DataSource) (ranges : List Range) (frames : List (List ℤ)) :
    (consumeSources interval sources ranges frames).flatten = frames.flatten ++ barsFrom interval sources ranges := by
  induction sources generalizing ranges frames with
  | nil => exact (List.append_nil _).symm
  | cons s sources ih =>
    rw [consumeSources]
    split
    · rename_i hnil
      rw [hnil, barsFrom_nil, List.append_nil]
    · obtain ⟨hl, hf⟩ := consumeSource_spec interval s ranges frames
      rw [ih, hf, hl, barsFrom, List.append_assoc]

lemma count_planner (cache storage : Option DataSource) (start stop t : ℤ) :
    (fetch interval cache storage start stop).count t =
      (barsFrom interval (getOrderedSources cache storage) [(start, stop)]).count t := by
  unfold fetch
  rw [(List.perm_insertionSort _ _).count_eq, flatten_consumeSources]
  rfl

variable {interval} {origin : ℤ} (hpos : 0 < interval) {s : DataSource} (hgrid : ∀ t ∈ s.bars, interval ∣ t - origin)

include hpos hgrid

lemma count_readOf {t : ℤ} (ht : interval ∣ t - origin) (r : Range) : (readOf interval s r).count t =
      if (t ∈ s.bars ∧ t + interval ∈ s.bars) ∧ r.1 ≤ t ∧ t < r.2 then 1 else 0 := by
  unfold readOf
  rw [count_flatMap_apart (fun r => count_fetch_one s r t) (pairwise_intersect _)]
  refine if_congr ?_ rfl rfl
  rw [hits_available hpos hgrid ht]
  constructor
  · rintro ⟨hmem, hin, -, hn⟩
    exact ⟨⟨hmem, hn⟩, hin⟩
  · rintro ⟨⟨hmem, hn⟩, hin⟩
    exact ⟨hmem, hin, hmem, hn⟩

end Planner

/-! ### Both sources -/

structure Setup where
  interval : ℤ
  origin : ℤ
  cache : Option DataSource
  storage : Option DataSource
  pos : 0 < interval
  grid : ∀ s ∈ getOrderedSources cache storage, ∀ t ∈ s.bars, interval ∣ t - origin

def Supplies (interval : ℤ) (source : Option DataSource) (t : ℤ) : Prop :=
  ∃ s ∈ source, t ∈ s.bars ∧ t + interval ∈ s.bars

/-- A source holds the bars on both sides of a start that is not on the grid. -/
def Spans (interval start : ℤ) (source : Option DataSource) : Prop :=
  ∃ s ∈ source, ∃ t ∈ s.bars, t < start ∧ start < t + interval ∧ t + interval ∈ s.bars

lemma not_supplies_none (interval t : ℤ) : ¬ Supplies interval none t := fun ⟨_, h, _⟩ => absurd h (Option.not_mem_none _)

namespace Setup

variable (p : Setup)

def first : Option DataSource := (getOrderedSources p.cache p.storage)[0]?

def second : Option DataSource := (getOrderedSources p.cache p.storage)[1]?

def Held (start stop t : ℤ) : Prop :=
  start ≤ t ∧ t < stop ∧ ∃ s ∈ getOrderedSources p.cache p.storage, t ∈ s.bars

def Complete (start stop : ℤ) : Prop :=
  ∀ t, p.Held start stop t → (fetch p.interval p.cache p.storage start stop).count t = 1

/-- Where the planner gets every bar once. -/
def SuppliedOnce (start stop : ℤ) : Prop :=
  ((∀ t, p.Held start stop t → Supplies p.interval p.first t) ∧
      (p.interval ∣ start - p.origin ∨ Spans p.interval start p.first)) ∨
    (∀ t, p.Held start stop t → Xor (Supplies p.interval p.first t) (Supplies p.interval p.second t)) ∧
      ¬ Spans p.interval start p.first ∧
      (p.interval ∣ start - p.origin → ∀ t, start ≤ t → t < stop → ¬ Supplies p.interval p.first t)

def available (start stop : ℤ) (source : Option DataSource) : List Range :=
  match source with
  | none => []
  | some s => intersect [(start, stop)] (s.coverage p.interval)

/-- Read without its end, a bar is in none of the ranges that are taken from a request. -/
def Left (start stop t : ℤ) : Prop :=
  ∀ q ∈ p.available start stop p.first, p.interval ∣ q.1 - start → t + p.interval < q.1 ∨ q.2 < t

lemma length_sources : (getOrderedSources p.cache p.storage).length ≤ 2 := by
  unfold getOrderedSources
  rw [List.length_insertionSort, List.length_append]
  have hone : ∀ o : Option DataSource, o.toList.length ≤ 1 := by
    intro o
    cases o with
    | none => exact Nat.zero_le 1
    | some s => exact le_refl 1
  have hc := hone p.cache
  have hs := hone p.storage
  omega

lemma held_dvd {start stop t : ℤ} (h : p.Held start stop t) : p.interval ∣ t - p.origin := by
  obtain ⟨-, -, s, hs, ht⟩ := h
  exact p.grid s hs t ht

lemma count_fetch {start stop t : ℤ} (h : p.Held start stop t) :
    (fetch p.interval p.cache p.storage start stop).count t = 1 ↔
      Xor (Supplies p.interval p.first t) (Supplies p.interval p.second t ∧ p.Left start stop t) := by
  have ht := p.held_dvd h
  have hlen := p.length_sources
  have hgrid := p.grid
  obtain ⟨hst, hsto, s, hs, hmem⟩ := h
  have hin : (start, stop).1 ≤ t ∧ t < (start, stop).2 := ⟨hst, hsto⟩
  rw [count_planner]
  unfold Left first second
  cases hsr : getOrderedSources p.cache p.storage with
  | nil =>
    rw [hsr] at hs
    cases hs
  | cons s₁ rest =>
    rw [hsr] at hlen hgrid
    have hg₁ := hgrid s₁ List.mem_cons_self
    have hc₁ := count_readOf p.pos hg₁ ht (start, stop)
    have hfirst : Supplies p.interval (s₁ :: rest)[0]? t ↔ t ∈ s₁.bars ∧ t + p.interval ∈ s₁.bars := by
      simp [Supplies]
    rw [barsFrom, List.flatMap_singleton, List.flatMap_singleton, List.count_append, hc₁, hfirst]
    cases rest with
    | nil =>
      have hsecond := not_supplies_none p.interval t
      by_cases hsp : t ∈ s₁.bars ∧ t + p.interval ∈ s₁.bars
      · simp [barsFrom, hsp, hin, hsecond, Xor]
      · simp [barsFrom, hsp, hsecond, Xor]
    | cons s₂ rest =>
      obtain rfl : rest = [] := by
        cases rest with
        | nil => rfl
        | cons s rest =>
          simp only [List.length_cons] at hlen
          omega
      have hg₂ := hgrid s₂ (.tail _ List.mem_cons_self)
      have hsecond : Supplies p.interval [s₁, s₂][1]? t ↔ t ∈ s₂.bars ∧ t + p.interval ∈ s₂.bars := by
        simp [Supplies]
      have hl : Hits (leftOf p.interval s₁ (start, stop)) t ↔
          ∀ q ∈ p.available start stop [s₁, s₂][0]?, p.interval ∣ q.1 - start → t + p.interval < q.1 ∨ q.2 < t := by
        unfold leftOf
        rw [hits_subtract p.pos fun q hq => taken_available p.pos hg₁ ht hq, and_iff_right hin]
        rfl
      have hc₂ := count_flatMap_apart (count_readOf p.pos hg₂ ht)
        (pairwise_subtract p.pos (start, stop) (intersect [(start, stop)] (s₁.coverage p.interval)))
      rw [barsFrom, barsFrom, List.append_nil, hsecond, ← hl]
      unfold leftOf at hc₂ ⊢
      rw [hc₂]
      by_cases hsp : t ∈ s₁.bars ∧ t + p.interval ∈ s₁.bars
      · by_cases hother : (t ∈ s₂.bars ∧ t + p.interval ∈ s₂.bars) ∧
            Hits (subtract [(start, stop)] (intersect [(start, stop)] (s₁.coverage p.interval)) p.interval) t
        · simp [hsp, hin, hother, Xor]
        · simp [hsp, hin, hother, Xor]
      · by_cases hother : (t ∈ s₂.bars ∧ t + p.interval ∈ s₂.bars) ∧
            Hits (subtract [(start, stop)] (intersect [(start, stop)] (s₁.coverage p.interval)) p.interval) t
        · simp [hsp, hother, Xor]
        · simp [hsp, hother, Xor]

section Available

variable {p} {start stop : ℤ}

variable {q : Range}

lemma available_of_first (h : q ∈ p.available start stop p.first) :
    ∃ s, p.first = some s ∧ (∀ t ∈ s.bars, p.interval ∣ t - p.origin) ∧
      s ∈ getOrderedSources p.cache p.storage ∧ q ∈ intersect [(start, stop)] (s.coverage p.interval) := by
  cases hfirst : p.first with
  | none =>
    rw [hfirst] at h
    cases h
  | some s =>
    rw [hfirst] at h
    have hmem : s ∈ getOrderedSources p.cache p.storage := List.mem_of_getElem? hfirst
    exact ⟨s, rfl, p.grid s hmem, hmem, h⟩

lemma supplies_first_iff {t : ℤ} (hs : start ≤ t) (hst : t < stop) (ht : p.interval ∣ t - p.origin) :
    Supplies p.interval p.first t ↔ Hits (p.available start stop p.first) t := by
  cases hfirst : p.first with
  | none => exact ⟨fun h => absurd h (not_supplies_none _ _), fun h => absurd h (hits_nil t)⟩
  | some s =>
    have hmem : s ∈ getOrderedSources p.cache p.storage := List.mem_of_getElem? hfirst
    have hiff := @hits_available _ start stop _ _ p.pos (p.grid s hmem) _ ht
    unfold available Supplies
    rw [hiff, and_iff_right ⟨hs, hst⟩]
    simp

lemma lost_end (hq : q ∈ p.available start stop p.first) (hend : q.2 ≠ stop) (hal : p.interval ∣ q.1 - start) :
    p.Held start stop q.2 ∧ ¬ Supplies p.interval p.first q.2 ∧ ¬ p.Left start stop q.2 := by
  obtain ⟨s, hfirst, hgrid, hmem, hq'⟩ := available_of_first hq
  have hlt := (ends_intersect hq').1
  have hst := start_available p.pos hgrid hq'
  have hpos := p.pos
  rcases end_available p.pos hgrid hq' with heq | ⟨hs, hbar, haf⟩
  · exact absurd heq hend
  · refine ⟨⟨by omega, hs, s, hmem, hbar⟩, ?_, fun hl => ?_⟩
    · rintro ⟨s', hs', -, hn⟩
      rw [hfirst] at hs'
      cases hs'
      exact haf hn
    · rcases hl q hq hal with h | h
      · omega
      · omega

lemma exists_available_of_spans (hst : start < stop) (h : Spans p.interval start p.first) :
    ∃ q ∈ p.available start stop p.first, q.1 = start := by
  obtain ⟨s, hs, t, ht, hlow, hh, hn⟩ := h
  have hfirst : p.first = some s := hs
  have hgrid := p.grid s (List.mem_of_getElem? hfirst)
  obtain ⟨hrn, hc⟩ := coverage_isRun p.pos s hgrid
  obtain ⟨r, hr, hle, hge⟩ := hc _ hn
  have hrun := hrn r hr
  have hb : r.1 ≤ t := by
    by_contra hlt
    have hmem := hrun.within r.1 (le_refl _) hrun.le (by rw [sub_self]; exact dvd_zero _)
    have hdvd : p.interval ∣ r.1 - t := by
      rw [← sub_sub_sub_cancel_right r.1 t p.origin]
      exact dvd_sub (hgrid _ hmem) (hgrid _ ht)
    have hste := add_le_of_dvd hdvd (not_le.mp hlt)
    have heq : r.1 - p.interval = t := by omega
    exact hrun.before (heq ▸ ht)
  obtain ⟨q, hq, hqle, hqlt⟩ :=
    (@hits_intersect _ _ (s.coverage p.interval) start).mpr ⟨⟨le_refl start, hst⟩, r, hr, by omega⟩
  rw [hfirst]
  refine ⟨q, hq, ?_⟩
  have := start_available p.pos hgrid hq
  omega

lemma spans_of_available (hal : ¬ p.interval ∣ start - p.origin)
    (hq : q ∈ p.available start stop p.first) (hs : q.1 = start) : Spans p.interval start p.first := by
  obtain ⟨s, hfirst, hgrid, -, hq⟩ := available_of_first hq
  obtain ⟨hrn, -⟩ := coverage_isRun p.pos s hgrid
  obtain ⟨-, ⟨r, hr, hmax, hlt⟩, -⟩ := ends_intersect hq
  have hrun := hrn r hr
  have hmem := hrun.within r.1 (le_refl _) hrun.le (by rw [sub_self]; exact dvd_zero _)
  have hrem : (start - r.1) % p.interval ≠ 0 := by
    intro hz
    refine hal ?_
    rw [← sub_add_sub_cancel start r.1 p.origin]
    exact dvd_add (Int.dvd_of_emod_eq_zero hz) (hgrid _ hmem)
  have hlow := Int.emod_nonneg (start - r.1) (ne_of_gt p.pos)
  have hh := Int.emod_lt_of_pos (start - r.1) p.pos
  have hle := emod_le_self p.pos (show 0 ≤ start - r.1 by omega)
  have hdvd : p.interval ∣ start - (start - r.1) % p.interval - r.1 := by
    rw [sub_right_comm]
    exact Int.dvd_self_sub_emod
  have hend : start - (start - r.1) % p.interval + p.interval ≤ r.2 := by
    refine add_le_of_dvd ?_ (by omega)
    rw [← sub_sub_sub_cancel_right r.2 _ r.1]
    exact dvd_sub hrun.dvd hdvd
  refine ⟨s, hfirst, start - (start - r.1) % p.interval, hrun.within _ (by omega) (by omega) hdvd, by omega, by omega, ?_⟩
  refine hrun.within _ (by omega) hend ?_
  rw [add_sub_right_comm]
  exact dvd_add hdvd dvd_rfl

lemma not_spans_of_dvd (hal : p.interval ∣ start - p.origin) : ¬ Spans p.interval start p.first := by
  rintro ⟨s, hs, t, ht, hlow, hh, -⟩
  have hgrid := p.grid s (List.mem_of_getElem? hs)
  have hdvd : p.interval ∣ start - t := by
    rw [← sub_sub_sub_cancel_right start t p.origin]
    exact dvd_sub hal (hgrid t ht)
  have := add_le_of_dvd hdvd hlow
  omega

lemma dvd_available (hal : p.interval ∣ start - p.origin)
    (hq : q ∈ p.available start stop p.first) : p.interval ∣ q.1 - p.origin ∧ p.interval ∣ q.1 - start := by
  obtain ⟨s, -, hgrid, -, hq⟩ := available_of_first hq
  rcases start_available p.pos hgrid hq with heq | ⟨-, hmem, -⟩
  · rw [heq, sub_self]
    exact ⟨hal, dvd_zero _⟩
  · refine ⟨hgrid _ hmem, ?_⟩
    rw [← sub_sub_sub_cancel_right q.1 start p.origin]
    exact dvd_sub (hgrid _ hmem) hal

lemma left_of_not_spans (hal : ¬ p.interval ∣ start - p.origin) (hs : ¬ Spans p.interval start p.first)
    (t : ℤ) : p.Left start stop t := by
  intro q hq hdvd
  obtain ⟨s, -, hgrid, -, hq'⟩ := available_of_first hq
  rcases start_available p.pos hgrid hq' with heq | ⟨-, hmem, -⟩
  · exact absurd (spans_of_available hal hq heq) hs
  · have hb := dvd_sub (hgrid _ hmem) hdvd
    rw [sub_sub_sub_cancel_left] at hb
    exact absurd hb hal

lemma pos_available (hq : q ∈ p.available start stop p.first) : start ≤ q.1 ∧ q.1 < q.2 ∧ q.2 ≤ stop := by
  obtain ⟨s, -, hgrid, -, hq⟩ := available_of_first hq
  have hlt := (ends_intersect hq).1
  have hs := start_available p.pos hgrid hq
  have hend := end_available p.pos hgrid hq
  omega

lemma not_left_of_supplies (hal : p.interval ∣ start - p.origin) {t : ℤ} (hs : start ≤ t) (hst : t < stop)
    (ht : p.interval ∣ t - p.origin) (h : Supplies p.interval p.first t) : ¬ p.Left start stop t := by
  intro hl
  obtain ⟨q, hq, hle, hlt⟩ := (supplies_first_iff hs hst ht).mp h
  have hpos := p.pos
  rcases hl q hq (dvd_available hal hq).2 with h | h
  · omega
  · omega

lemma no_bar_before (hal : p.interval ∣ start - p.origin) (hc : p.Complete start stop)
    (hq : q ∈ p.available start stop p.first) (n : ℕ) {v : ℤ} (hn : (q.1 - v).toNat = n) (hv : p.Held start stop v)
    (hnot : ¬ Supplies p.interval p.first v) : ¬ v < q.1 := by
  induction n using Nat.strong_induction_on generalizing v with
  | _ n ih =>
    intro hlt
    have hpos := p.pos
    obtain ⟨hqs, hqlt, hqst⟩ := pos_available hq
    rcases (p.count_fetch hv).mp (hc v hv) with ⟨h, -⟩ | ⟨⟨hsecond, hl⟩, -⟩
    · exact hnot h
    · have hst : v + p.interval < q.1 := (hl q hq (dvd_available hal hq).2).resolve_right (by omega)
      obtain ⟨s, hs, -, hnx⟩ := hsecond
      have hsta := hv.1
      have hh : p.Held start stop (v + p.interval) :=
        ⟨by omega, by omega, s, List.mem_of_getElem? hs, hnx⟩
      have hn' : ¬ Supplies p.interval p.first (v + p.interval) := by
        intro h
        obtain ⟨q', hq', hle', hlt'⟩ := (supplies_first_iff hh.1 hh.2.1 (p.held_dvd hh)).mp h
        rcases hl q' hq' (dvd_available hal hq').2 with h | h
        · omega
        · omega
      exact ih _ (by omega) rfl hh hn' hst

end Available

lemma suppliedOnce_of_complete {start stop : ℤ} (h : p.Complete start stop) : p.SuppliedOnce start stop := by
  have hls : ∀ q ∈ p.available start stop p.first, p.interval ∣ q.1 - start → q.2 = stop := by
    intro q hq hal
    by_contra hend
    obtain ⟨hh, hnot, hl⟩ := lost_end hq hend hal
    rcases (p.count_fetch hh).mp (h _ hh) with ⟨hc, -⟩ | ⟨⟨-, hc⟩, -⟩
    · exact hnot hc
    · exact hl hc
  by_cases hal : p.interval ∣ start - p.origin
  · by_cases hsm : ∃ q, q ∈ p.available start stop p.first
    · -- the first source gives something, and so it has to give everything
      obtain ⟨q, hq⟩ := hsm
      refine .inl ⟨fun u hu => ?_, .inl hal⟩
      by_contra hnot
      have hb := no_bar_before hal h hq _ rfl hu hnot
      have hend := hls q hq (dvd_available hal hq).2
      have hhit : Hits (p.available start stop p.first) u := ⟨q, hq, not_lt.mp hb, hend ▸ hu.2.1⟩
      exact hnot ((supplies_first_iff hu.1 hu.2.1 (p.held_dvd hu)).mpr hhit)
    · have hn : ∀ t, start ≤ t → t < stop → ¬ Supplies p.interval p.first t := by
        rintro t hst hsto ⟨s, hs, hmem, hnx⟩
        have ht := p.grid s (List.mem_of_getElem? hs) t hmem
        obtain ⟨q, hq, -⟩ := (supplies_first_iff hst hsto ht).mp ⟨s, hs, hmem, hnx⟩
        exact hsm ⟨q, hq⟩
      refine .inr ⟨fun t ht => ?_, not_spans_of_dvd hal, fun _ => hn⟩
      rcases (p.count_fetch ht).mp (h t ht) with ⟨hc, -⟩ | ⟨⟨hsecond, -⟩, hnot⟩
      · exact absurd hc (hn t ht.1 ht.2.1)
      · exact .inr ⟨hsecond, hn t ht.1 ht.2.1⟩
  · by_cases hsp : Spans p.interval start p.first
    · refine .inl ⟨fun t ht => ?_, .inr hsp⟩
      obtain ⟨q, hq, hst⟩ := exists_available_of_spans (lt_of_le_of_lt ht.1 ht.2.1) hsp
      have hend := hls q hq (by rw [hst, sub_self]; exact dvd_zero _)
      have hhit : Hits (p.available start stop p.first) t := ⟨q, hq, hst ▸ ht.1, hend ▸ ht.2.1⟩
      exact (supplies_first_iff ht.1 ht.2.1 (p.held_dvd ht)).mpr hhit
    · refine .inr ⟨fun t ht => ?_, hsp, fun hc => absurd hc hal⟩
      have hl : p.Left start stop t := left_of_not_spans hal hsp t
      exact ((p.count_fetch ht).mp (h t ht)).imp (And.imp_right fun hc h2 => hc ⟨h2, hl⟩) (And.imp_left And.left)

lemma complete_of_suppliedOnce {start stop : ℤ} (h : p.SuppliedOnce start stop) : p.Complete start stop := by
  intro t ht
  refine (p.count_fetch ht).mpr ?_
  rcases h with ⟨hall, hs⟩ | ⟨hone, hsp, hn⟩
  · refine .inl ⟨hall t ht, fun hc => ?_⟩
    rcases hs with hal | hsp
    · exact not_left_of_supplies hal ht.1 ht.2.1 (p.held_dvd ht) (hall t ht) hc.2
    · obtain ⟨q, hq, hs⟩ := exists_available_of_spans (lt_of_le_of_lt ht.1 ht.2.1) hsp
      have hdvd : p.interval ∣ q.1 - start := by
        rw [hs, sub_self]
        exact dvd_zero _
      have hend : q.2 = stop := by
        by_contra hend
        obtain ⟨hh, hnot, -⟩ := lost_end hq hend hdvd
        exact hnot (hall _ hh)
      have hpos := p.pos
      obtain ⟨hlow, hhg, -⟩ := ht
      rcases hc.2 q hq hdvd with h | h
      · omega
      · omega
  · have hl : p.Left start stop t := by
      by_cases hal : p.interval ∣ start - p.origin
      · intro q hq _
        obtain ⟨hqs, hqlt, hqst⟩ := pos_available hq
        have hhit : Hits (p.available start stop p.first) q.1 := ⟨q, hq, le_refl _, hqlt⟩
        have hsu := (supplies_first_iff hqs (by omega) (dvd_available hal hq).1).mpr hhit
        exact absurd hsu (hn hal q.1 hqs (by omega))
      · exact left_of_not_spans hal hsp t
    exact (hone t ht).imp (And.imp_right fun hc h2 => hc h2.1) (And.imp_left fun h2 => ⟨h2, hl⟩)

/-- For every cache, storage and request, every bar that a source holds is returned once exactly when one of these holds.
The first source gives them all, and the start is on the grid or inside a run of the first source. Or each is given by one
source alone, where the start is off the grid and in no run of the first source, or on the grid and the first source gives
nothing. A source gives a bar when it holds the next one, too. -/
theorem seamless_fetch_complete_iff (start stop : ℤ) : p.Complete start stop ↔ p.SuppliedOnce start stop :=
  ⟨p.suppliedOnce_of_complete, p.complete_of_suppliedOnce⟩

end Setup

def tenBars : DataSource := ⟨1, [0, 1, 2, 3, 4, 5, 6, 7, 8, 9], by decide⟩

def cacheOnly : Setup where
  interval := 1
  origin := 0
  cache := some tenBars
  storage := none
  pos := by decide
  grid := fun _ _ t _ => one_dvd (t - 0)

def threeBars (priority : ℕ) : DataSource := ⟨priority, [10, 20, 30], by decide⟩

/-- The last bar of `[0, 10)` is not returned, although the cache holds the whole range. Off the grid, bars that both
sources hold are returned twice. -/
theorem last_bar_lost : cacheOnly.Held 0 10 9 ∧ fetch 1 (some tenBars) none 0 10 = [0, 1, 2, 3, 4, 5, 6, 7, 8] ∧
    ¬ cacheOnly.Complete 0 10 ∧ fetch 10 (some (threeBars 1)) (some (threeBars 2)) 5 25 = [10, 10, 20, 20] := by
  have hheld : cacheOnly.Held 0 10 9 :=
    ⟨by decide, by decide, tenBars, List.mem_singleton.mpr rfl, by decide⟩
  have hfetch : fetch 1 (some tenBars) none 0 10 = [0, 1, 2, 3, 4, 5, 6, 7, 8] := by decide +kernel
  refine ⟨hheld, hfetch, fun h => ?_, by decide +kernel⟩
  have hcount : (fetch 1 (some tenBars) none 0 10).count 9 = 1 := h 9 hheld
  exact absurd hcount (by decide)

end Qmtl.Runtime.Seamless

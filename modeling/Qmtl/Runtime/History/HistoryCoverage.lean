import Qmtl.Lib.Except
import Qmtl.Runtime.Cache.BackfillState

/-!
The coverage of a node's history: which ranges of a window are missing, and which history strict mode accepts. Ranges are
closed: `(start, end)` stands for the bars that begin from `start` to `end`.
-/

namespace Qmtl.Runtime.History

open Lib Runtime.Seamless Runtime.Cache

structure WarmupWindow where
  start : ℤ
  stop : ℤ
  interval : ℕ

def mergeCoverage (coverage : List Range) (interval : ℕ) : List Range := mergeClosed interval coverage

/-! ### `compute_missing_ranges` -/

def gapBefore (window : WarmupWindow) (cursor : ℤ) (rng : Range) : List Range :=
  if cursor < rng.1 then [(cursor, min (rng.1 - window.interval) window.stop)] else []

def lastGap (window : WarmupWindow) (cursor : ℤ) : List Range :=
  if cursor ≤ window.stop then [(cursor, window.stop)] else []

def gapsFrom (window : WarmupWindow) (cursor : ℤ) : List Range → List Range
  | [] => lastGap window cursor
  | rng :: rest =>
    if rng.2 < window.start then gapsFrom window cursor rest
    else if window.stop < rng.1 then lastGap window cursor
    else
      let next := max cursor (rng.2 + window.interval)
      gapBefore window cursor rng ++ if window.stop < next then lastGap window next else gapsFrom window next rest

def computeMissingRanges (coverage : List Range) (window : WarmupWindow) : List Range :=
  (gapsFrom window window.start (mergeCoverage coverage window.interval)).filter fun gap => gap.1 ≤ gap.2

def findMissingRanges (start stop : ℤ) (availableRanges : List Range) (interval : ℕ) : List Range :=
  computeMissingRanges availableRanges ⟨start, stop, interval⟩

section Gaps

variable {window : WarmupWindow} {cursor : ℤ} {rs : List Range}

def Meets (window : WarmupWindow) (r : Range) : Prop := window.start ≤ r.2 ∧ r.1 ≤ window.stop

lemma mem_gapBefore {r g : Range} (h : g ∈ gapBefore window cursor r) :
    cursor < r.1 ∧ g = (cursor, min (r.1 - window.interval) window.stop) := by
  unfold gapBefore at h
  split at h
  · exact ⟨‹_›, List.mem_singleton.mp h⟩
  · cases h

lemma contains_gapBefore (window : WarmupWindow) (cursor : ℤ) (r : Range) (t : ℤ) :
    Contains (gapBefore window cursor r) t ↔
      cursor < r.1 ∧ cursor ≤ t ∧ t ≤ r.1 - window.interval ∧ t ≤ window.stop := by
  unfold gapBefore
  split <;> simp [Contains, *]

lemma mem_lastGap {g : Range} (h : g ∈ lastGap window cursor) : g = (cursor, window.stop) := by
  unfold lastGap at h
  split at h
  · exact List.mem_singleton.mp h
  · cases h

lemma contains_lastGap (window : WarmupWindow) (cursor t : ℤ) :
    Contains (lastGap window cursor) t ↔ cursor ≤ t ∧ t ≤ window.stop := by
  unfold lastGap
  split
  · simp [Contains]
  · simp [Contains]
    omega

lemma gapsFrom_cons (window : WarmupWindow) (cursor : ℤ) (r : Range) (rest : List Range) :
    (r.2 < window.start ∧ gapsFrom window cursor (r :: rest) = gapsFrom window cursor rest) ∨
    (window.stop < r.1 ∧ gapsFrom window cursor (r :: rest) = lastGap window cursor) ∨
    (Meets window r ∧ window.stop < max cursor (r.2 + window.interval) ∧
      gapsFrom window cursor (r :: rest) = gapBefore window cursor r) ∨
    (Meets window r ∧ gapsFrom window cursor (r :: rest) =
      gapBefore window cursor r ++ gapsFrom window (max cursor (r.2 + window.interval)) rest) := by
  rw [gapsFrom]
  dsimp only
  split_ifs with hb haf hs
  · exact .inl ⟨hb, rfl⟩
  · exact .inr (.inl ⟨haf, rfl⟩)
  · refine .inr (.inr (.inl ⟨⟨not_lt.mp hb, not_lt.mp haf⟩, hs, ?_⟩))
    rw [lastGap, if_neg hs.not_ge, List.append_nil]
  · exact .inr (.inr (.inr ⟨⟨not_lt.mp hb, not_lt.mp haf⟩, rfl⟩))

lemma bounds_gapsFrom {g : Range} (h : g ∈ gapsFrom window cursor rs) : cursor ≤ g.1 ∧ g.2 ≤ window.stop := by
  induction rs generalizing cursor with
  | nil =>
    obtain rfl := mem_lastGap h
    exact ⟨le_rfl, le_rfl⟩
  | cons r rest ih =>
    have hgap : ∀ g ∈ gapBefore window cursor r, cursor ≤ g.1 ∧ g.2 ≤ window.stop := by
      intro g hg
      obtain ⟨-, rfl⟩ := mem_gapBefore hg
      exact ⟨le_rfl, min_le_right _ _⟩
    rcases gapsFrom_cons window cursor r rest with ⟨-, heq⟩ | ⟨-, heq⟩ | ⟨-, -, heq⟩ | ⟨-, heq⟩ <;> rw [heq] at h
    · exact ih h
    · obtain rfl := mem_lastGap h
      exact ⟨le_rfl, le_rfl⟩
    · exact hgap g h
    · rcases List.mem_append.mp h with h | h
      · exact hgap g h
      · exact ⟨(le_max_left _ _).trans (ih h).1, (ih h).2⟩

lemma pairwise_gapsFrom (hpos : 0 < window.interval) (hle : ∀ r ∈ rs, r.1 ≤ r.2) :
    (gapsFrom window cursor rs).Pairwise fun g g' : Range => g.2 < g'.1 := by
  have hl : ∀ cursor, (lastGap window cursor).Pairwise fun g g' : Range => g.2 < g'.1 := by
    intro cursor
    unfold lastGap
    split <;> simp
  have hgap : ∀ cursor r, (gapBefore window cursor r).Pairwise fun g g' : Range => g.2 < g'.1 := by
    intro cursor r
    unfold gapBefore
    split <;> simp
  induction rs generalizing cursor with
  | nil => exact hl cursor
  | cons r rest ih =>
    have hrs := fun cursor => @ih cursor fun q hq => hle q (.tail _ hq)
    rcases gapsFrom_cons window cursor r rest with ⟨-, heq⟩ | ⟨-, heq⟩ | ⟨-, -, heq⟩ | ⟨-, heq⟩ <;> rw [heq]
    · exact hrs cursor
    · exact hl cursor
    · exact hgap cursor r
    · refine List.pairwise_append.mpr ⟨hgap cursor r, hrs _, ?_⟩
      intro g hg g' hg'
      obtain ⟨-, rfl⟩ := mem_gapBefore hg
      have hr := hle r List.mem_cons_self
      have haf := (bounds_gapsFrom hg').1
      omega

lemma contains_gapsFrom (hpos : 0 < window.interval) (hle : ∀ r ∈ rs, r.1 ≤ r.2)
    (hap : rs.Pairwise fun r r' : Range => r.2 + window.interval < r'.1) (t : ℤ) :
    Contains (gapsFrom window cursor rs) t ↔ (cursor ≤ t ∧ t ≤ window.stop) ∧
        ∀ r ∈ rs, Meets window r → t ≤ r.1 - window.interval ∨ r.2 + window.interval ≤ t := by
  induction rs generalizing cursor with
  | nil => simp [gapsFrom, contains_lastGap]
  | cons r rest ih =>
    have hr := hle r List.mem_cons_self
    obtain ⟨hlater, hrs⟩ := List.pairwise_cons.mp hap
    have ih := fun cursor => @ih cursor (fun q hq => hle q (.tail _ hq)) hrs
    -- a point that the gap before `r` contains is before all later ranges
    have hb : t ≤ r.1 - window.interval →
        ∀ q ∈ rest, Meets window q → t ≤ q.1 - window.interval ∨ q.2 + window.interval ≤ t := by
      intro ht q hq _
      have := hlater q hq
      omega
    simp only [List.forall_mem_cons]
    rcases gapsFrom_cons window cursor r rest with ⟨hout, heq⟩ | ⟨hout, heq⟩ | ⟨hm, hs, heq⟩ | ⟨hm, heq⟩ <;>
      rw [heq]
    · have hr : ¬ Meets window r := fun h => absurd h.1 hout.not_ge
      simp only [ih cursor, hr, false_implies, true_and]
    · rw [contains_lastGap, iff_self_and]
      refine fun _ => ⟨fun h => absurd h.2 hout.not_ge, ?_⟩
      intro q hq h
      have := hlater q hq
      omega
    · rw [contains_gapBefore]
      constructor
      · rintro ⟨hlt, hc, ht, hend⟩
        exact ⟨⟨hc, hend⟩, fun _ => .inl ht, hb ht⟩
      · rintro ⟨⟨hc, hend⟩, hone, -⟩
        have := hone hm
        omega
    · rw [contains_append, contains_gapBefore, ih]
      constructor
      · rintro (⟨hlt, hc, ht, hend⟩ | ⟨⟨hc, hend⟩, hall⟩)
        · exact ⟨⟨hc, hend⟩, fun _ => .inl ht, hb ht⟩
        · exact ⟨⟨(le_max_left _ _).trans hc, hend⟩, fun _ => .inr ((le_max_right _ _).trans hc), hall⟩
      · rintro ⟨⟨hc, hend⟩, hone, hall⟩
        rcases hone hm with ht | ht
        · exact .inl ⟨by omega, hc, ht, hend⟩
        · exact .inr ⟨⟨max_le hc ht, hend⟩, hall⟩

end Gaps

/-! ### How a window is divided -/

section Window

variable {coverage : List Range} {window : WarmupWindow}

/-- What the gaps of a window are to the coverage, and which points each of the two has. -/
structure Divides (window : WarmupWindow) (coverage gaps : List Range) : Prop where
  disjoint : gaps.Pairwise fun g g' : Range => g.2 < g'.1
  inside : ∀ g ∈ gaps, window.start ≤ g.1 ∧ g.1 ≤ g.2 ∧ g.2 ≤ window.stop
  uncovered : ∀ g ∈ gaps, ∀ r ∈ coverage, r.2 < g.1 ∨ g.2 < r.1
  gap_iff : ∀ t, Contains gaps t ↔ (window.start ≤ t ∧ t ≤ window.stop) ∧
    ∀ r ∈ mergeCoverage coverage window.interval, Meets window r → t ≤ r.1 - window.interval ∨ r.2 + window.interval ≤ t

lemma divides_computeMissingRanges (hle : ∀ r ∈ coverage, r.1 ≤ r.2) (hpos : 0 < window.interval) :
    Divides window coverage (computeMissingRanges coverage window) := by
  obtain ⟨hm, hl⟩ : (∀ r ∈ mergeCoverage coverage window.interval, r.1 ≤ r.2) ∧
      ∀ r ∈ coverage, ∃ q ∈ mergeCoverage coverage window.interval, q.1 ≤ r.1 ∧ r.2 ≤ q.2 := mergeClosed_spec hle
  have hap : (mergeCoverage coverage window.interval).Pairwise fun r r' : Range => r.2 + window.interval < r'.1 :=
    apart_mergeClosed _ _
  have hmem : ∀ g, g ∈ computeMissingRanges coverage window ↔
      g ∈ gapsFrom window window.start (mergeCoverage coverage window.interval) ∧ g.1 ≤ g.2 := by
    intro g
    rw [computeMissingRanges, List.mem_filter, decide_eq_true_eq]
  have hiff : ∀ t, Contains (computeMissingRanges coverage window) t ↔ (window.start ≤ t ∧ t ≤ window.stop) ∧
      ∀ r ∈ mergeCoverage coverage window.interval, Meets window r →
        t ≤ r.1 - window.interval ∨ r.2 + window.interval ≤ t := by
    intro t
    rw [← contains_gapsFrom hpos hm hap]
    constructor
    · rintro ⟨g, hg, hge, hle⟩
      exact ⟨g, ((hmem g).mp hg).1, hge, hle⟩
    · rintro ⟨g, hg, hge, hle⟩
      exact ⟨g, (hmem g).mpr ⟨hg, hge.trans hle⟩, hge, hle⟩
  refine ⟨(pairwise_gapsFrom hpos hm).filter _, ?_, ?_, hiff⟩
  · intro g hg
    obtain ⟨hg, hor⟩ := (hmem g).mp hg
    obtain ⟨hs, hst⟩ := bounds_gapsFrom hg
    exact ⟨hs, hor, hst⟩
  · intro g hg r hr
    by_contra hmt
    obtain ⟨q, hq, hs, hst⟩ := hl r hr
    obtain ⟨-, hor⟩ := (hmem g).mp hg
    have hrle := hle r hr
    -- the first point of the two that both have
    obtain ⟨⟨haf, hb⟩, hall⟩ := (hiff (max g.1 r.1)).mp ⟨g, hg, le_max_left _ _, by omega⟩
    have := hall q hq ⟨by omega, by omega⟩
    omega

namespace Divides

variable {gaps : List Range}

lemma existsUnique_gap_iff (h : Divides window coverage gaps) (t : ℤ) :
    (∃! g, g ∈ gaps ∧ g.1 ≤ t ∧ t ≤ g.2) ↔ Contains gaps t := by
  constructor
  · exact fun hone => hone.exists
  · rintro ⟨g, hg, hin⟩
    refine ⟨g, ⟨hg, hin⟩, ?_⟩
    rintro g' ⟨hg', hin'⟩
    rcases eq_or_rel_of_pairwise h.disjoint hg hg' with heq | hlt | hlt
    · exact heq.symm
    · omega
    · omega

lemma contains_iff_of_onGrid (h : Divides window coverage gaps) (hpos : 0 < window.interval) {origin : ℤ}
    (hgrid : OnGrid window.interval origin coverage) {t : ℤ} (ht : (window.interval : ℤ) ∣ t - origin)
    (hin : window.start ≤ t ∧ t ≤ window.stop) : Contains gaps t ↔ ¬ Contains coverage t := by
  have hm : OnGrid window.interval origin (mergeCoverage coverage window.interval) := onGrid_mergeClosed hgrid
  have hsm : Contains (mergeCoverage coverage window.interval) t ↔ Contains coverage t :=
    contains_mergeClosed hpos hgrid ht
  rw [h.gap_iff, and_iff_right hin, ← hsm]
  constructor
  · rintro hall ⟨r, hr, hs, hst⟩
    have := hall r hr ⟨by omega, by omega⟩
    omega
  · intro hnot r hr _
    obtain ⟨hone, htwo⟩ := hm r hr
    by_contra hn
    push Not at hn
    have hs : r.1 ≤ t := by
      by_contra hlt
      have hdvd := dvd_sub hone ht
      rw [sub_sub_sub_cancel_right] at hdvd
      have := add_le_of_dvd hdvd (not_le.mp hlt)
      omega
    have hst : t ≤ r.2 := by
      by_contra hlt
      have hdvd := dvd_sub ht htwo
      rw [sub_sub_sub_cancel_right] at hdvd
      have := add_le_of_dvd hdvd (not_le.mp hlt)
      omega
    exact hnot ⟨r, hr, hs, hst⟩

end Divides

/-- The missing ranges never meet the coverage, and on the grid of the coverage's bounds they have what it lacks. -/
theorem missing_ranges_divide (hle : ∀ r ∈ coverage, r.1 ≤ r.2) (hpos : 0 < window.interval) :
    Divides window coverage (computeMissingRanges coverage window) ∧
    ∀ origin, OnGrid window.interval origin coverage → ∀ t, (window.interval : ℤ) ∣ t - origin →
      (Contains (mergeCoverage coverage window.interval) t ↔ Contains coverage t) ∧
      (window.start ≤ t → t ≤ window.stop → Xor (Contains coverage t)
        (∃! g, g ∈ computeMissingRanges coverage window ∧ g.1 ≤ t ∧ t ≤ g.2)) := by
  have hdiv := divides_computeMissingRanges hle hpos
  refine ⟨hdiv, fun origin hgrid t ht => ⟨contains_mergeClosed hpos hgrid ht, fun hstart hstop => ?_⟩⟩
  rw [hdiv.existsUnique_gap_iff, hdiv.contains_iff_of_onGrid hpos hgrid ht ⟨hstart, hstop⟩]
  by_cases h : Contains coverage t
  · exact .inl ⟨h, not_not_intro h⟩
  · exact .inr ⟨h, h⟩

theorem missing_ranges_divide_day :
    Divides ⟨0, 50, 10⟩ [(10, 20), (40, 40)] (computeMissingRanges [(10, 20), (40, 40)] ⟨0, 50, 10⟩) ∧
    ∀ origin, OnGrid 10 origin [(10, 20), (40, 40)] → ∀ t, (10 : ℤ) ∣ t - origin →
      (Contains (mergeCoverage [(10, 20), (40, 40)] 10) t ↔ Contains [(10, 20), (40, 40)] t) ∧
      (0 ≤ t → t ≤ 50 → Xor (Contains [(10, 20), (40, 40)] t)
        (∃! g, g ∈ computeMissingRanges [(10, 20), (40, 40)] ⟨0, 50, 10⟩ ∧ g.1 ≤ t ∧ t ≤ g.2)) :=
  missing_ranges_divide (by decide) (by decide)

/-- A window that begins at a clock time, off the grid of the coverage: merging covers its point 15, and its point 35 is
neither covered nor missing. -/
theorem window_off_grid :
    (∀ r ∈ [((0 : ℤ), (10 : ℤ)), (20, 30)], r.1 ≤ r.2) ∧ (15 : ℤ) = 5 + 1 * 10 ∧ (35 : ℤ) = 5 + 3 * 10 ∧
    mergeCoverage [(0, 10), (20, 30)] 10 = [(0, 30)] ∧ ¬ Contains [(0, 10), (20, 30)] 15 ∧
    computeMissingRanges [(0, 10), (20, 30)] ⟨5, 55, 10⟩ = [(40, 55)] ∧ ¬ Contains [(0, 10), (20, 30)] 35 := by
  refine ⟨by decide, rfl, rfl, ?_, by decide, ?_, by decide⟩ <;> decide +kernel

end Window

/-! ### `ensure_strict_history` -/

def coverageBounds : List Range → Option Range
  | [] => none
  | r :: rest => some ((rest.map Prod.fst).foldl min r.1, (rest.map Prod.snd).foldl max r.2)

def formatCoverageBounds : Option Range → String
  | none => "none"
  | some bounds => "[" ++ toString bounds.1 ++ ", " ++ toString bounds.2 ++ "]"

def formatInterval : Option ℤ → String
  | none => "None"
  | some interval => toString interval

def computeRequiredPoints : Option ℤ → ℤ
  | none => 1
  | some n => if n = 0 then 1 else n

def ensureHistoryPresent (timestamps : List ℤ) (required : ℤ) (interval : Option ℤ) (coverageSummary : String) :
    Except String Unit :=
  if timestamps = [] then
    .error ("history missing in strict mode: no timestamps received (required>=" ++ toString required ++
      ", interval=" ++ formatInterval interval ++ ", coverage=" ++ coverageSummary ++ ")")
  else .ok ()

def ensureCoverageConsistent (timestamps : List ℤ) (bounds : Range) (interval : ℤ) : Except String Unit :=
  let expected := (bounds.2 - bounds.1).fdiv interval + 1
  let actual := timestamps.countP fun ts => bounds.1 ≤ ts ∧ ts ≤ bounds.2
  if expected ≤ actual then .ok ()
  else
    .error ("history gap detected in strict mode: expected " ++ toString expected ++ " points in [" ++
      toString bounds.1 ++ ", " ++ toString bounds.2 ++ "] at interval " ++ toString interval ++
      " but received " ++ toString actual ++ " (total=" ++ toString timestamps.length ++ ")")

def ensureGaplessSequence (interval : ℤ) : List ℤ → Except String Unit
  | [] => .ok ()
  | [_] => .ok ()
  | a :: b :: rest =>
    if b - a ≠ interval then
      .error ("history gap detected in strict mode: expected step of " ++ toString interval ++
        " between timestamps but saw " ++ toString a ++ "->" ++ toString b)
    else ensureGaplessSequence interval (b :: rest)

def applyCoverageRules (timestamps : List ℤ) (coverage : List Range) (interval : Option ℤ) : Except String Unit :=
  match interval, coverageBounds coverage with
  | none, _ => .ok ()
  | some interval, some bounds =>
    if interval = 0 then .ok () else ensureCoverageConsistent timestamps bounds interval
  | some interval, none => if interval = 0 then .ok () else ensureGaplessSequence interval timestamps

def ensureMinimumPoints (totalPoints : ℕ) (required : ℤ) (interval : Option ℤ) (coverageSummary : String) :
    Except String Unit :=
  if required ≤ totalPoints then .ok ()
  else
    .error ("history missing in strict mode: expected at least " ++ toString required ++ " point(s) but received " ++
      toString totalPoints ++ " (interval=" ++ formatInterval interval ++ ", coverage=" ++ coverageSummary ++ ")")

def ensureStrictHistory (timestamps : List ℤ) (interval requiredPoints : Option ℤ) (coverage : List Range) :
    Except String Unit := do
  let required := computeRequiredPoints requiredPoints
  let coverageSummary := formatCoverageBounds (coverageBounds coverage)
  ensureHistoryPresent timestamps required interval coverageSummary
  applyCoverageRules timestamps coverage interval
  ensureMinimumPoints timestamps.length required interval coverageSummary

/-! ### The bars that strict history counts -/

def barsWithin (bounds : Range) (interval : ℤ) : List ℤ :=
  (List.range ((bounds.2 - bounds.1).fdiv interval + 1).toNat).map fun k : ℕ => bounds.1 + k * interval

def missingBars (timestamps : List ℤ) (bounds : Range) (interval : ℤ) : ℕ :=
  (barsWithin bounds interval).countP fun bar => ¬ bar ∈ timestamps

def standIns (timestamps : List ℤ) (bounds : Range) (interval : ℤ) : ℕ :=
  (timestamps.countP fun ts => bounds.1 ≤ ts ∧ ts ≤ bounds.2) -
    (barsWithin bounds interval).countP fun bar => bar ∈ timestamps

def repeats (timestamps : List ℤ) : ℕ := timestamps.length - timestamps.dedup.length

/-- The history that strict mode is for. -/
structure GaplessHistory (timestamps : List ℤ) (interval : ℤ) (requiredPoints : Option ℤ) (coverage : List Range) :
    Prop where
  points : computeRequiredPoints requiredPoints ≤ timestamps.dedup.length
  covered : ∀ bounds ∈ coverageBounds coverage, ∀ k : ℕ, bounds.1 + k * interval ≤ bounds.2 →
    bounds.1 + k * interval ∈ timestamps
  gapless : coverage = [] → timestamps.IsChain fun a b => b - a = interval

section Strict

variable {timestamps : List ℤ} {interval : ℤ} {requiredPoints : Option ℤ} {coverage : List Range} {bounds : Range}

lemma coverageBounds_eq_none : coverageBounds coverage = none ↔ coverage = [] := by
  cases coverage <;> simp [coverageBounds]

lemma ensureGaplessSequence_ok : ensureGaplessSequence interval timestamps = .ok () ↔
    timestamps.IsChain fun a b => b - a = interval := by
  fun_induction ensureGaplessSequence interval timestamps with
  | case1 => simp
  | case2 a => simp
  | case3 a b rest hne => simp [hne]
  | case4 a b rest heq ih => simp_all

lemma length_barsWithin (bounds : Range) (interval : ℤ) :
    (barsWithin bounds interval).length = ((bounds.2 - bounds.1).fdiv interval + 1).toNat := by
  rw [barsWithin, List.length_map, List.length_range]

lemma mem_barsWithin (hpos : 0 < interval) {t : ℤ} :
    t ∈ barsWithin bounds interval ↔ ∃ k : ℕ, bounds.1 + k * interval ≤ bounds.2 ∧ bounds.1 + k * interval = t := by
  have hl : ∀ k : ℕ, k < ((bounds.2 - bounds.1).fdiv interval + 1).toNat ↔ bounds.1 + k * interval ≤ bounds.2 := by
    intro k
    have hdiv : (k : ℤ) ≤ (bounds.2 - bounds.1).fdiv interval ↔ k * interval ≤ bounds.2 - bounds.1 := by
      rw [Int.fdiv_eq_ediv_of_nonneg _ hpos.le]
      exact Int.le_ediv_iff_mul_le hpos
    omega
  simp [barsWithin, hl]

lemma nodup_barsWithin (bounds : Range) (hpos : 0 < interval) : (barsWithin bounds interval).Nodup := by
  refine List.Nodup.map ?_ List.nodup_range
  intro k k' h
  exact_mod_cast mul_right_cancel₀ hpos.ne' (add_left_cancel h)

lemma present_le_actual (timestamps : List ℤ) (bounds : Range) (hpos : 0 < interval) :
    ((barsWithin bounds interval).countP fun bar => bar ∈ timestamps) ≤
      timestamps.countP fun ts => bounds.1 ≤ ts ∧ ts ≤ bounds.2 := by
  rw [List.countP_eq_length_filter, List.countP_eq_length_filter]
  refine (List.Nodup.subperm ((nodup_barsWithin bounds hpos).filter _) ?_).length_le
  intro t ht
  obtain ⟨hbar, hmem⟩ := List.mem_filter.mp ht
  obtain ⟨k, hle, rfl⟩ := (mem_barsWithin hpos).mp hbar
  have hs : bounds.1 ≤ bounds.1 + k * interval := le_add_of_nonneg_right (by positivity)
  exact List.mem_filter.mpr ⟨of_decide_eq_true hmem, decide_eq_true ⟨hs, hle⟩⟩

lemma missingBars_eq_zero (hpos : 0 < interval) : missingBars timestamps bounds interval = 0 ↔
    ∀ k : ℕ, bounds.1 + k * interval ≤ bounds.2 → bounds.1 + k * interval ∈ timestamps := by
  simp only [missingBars, List.countP_eq_zero, mem_barsWithin hpos, decide_eq_true_eq, not_not, forall_exists_index,
    and_imp, forall_apply_eq_imp_iff₂]

lemma dedup_eq_of_gapless (hpos : 0 < interval) (h : timestamps.IsChain fun a b => b - a = interval) :
    timestamps.dedup = timestamps := by
  have hlt : timestamps.IsChain (· < ·) := h.imp fun a b hab => by omega
  exact List.dedup_eq_self.mpr (List.isChain_iff_pairwise.mp hlt).nodup

lemma ensureStrictHistory_ok (hpos : 0 < interval) :
    ensureStrictHistory timestamps (some interval) requiredPoints coverage = .ok () ↔
      timestamps ≠ [] ∧ (∀ bounds ∈ coverageBounds coverage, missingBars timestamps bounds interval ≤
        standIns timestamps bounds interval) ∧ (coverage = [] → timestamps.IsChain fun a b => b - a = interval) ∧
      computeRequiredPoints requiredPoints ≤ timestamps.length := by
  have hr : applyCoverageRules timestamps coverage (some interval) = .ok () ↔
      (∀ bounds ∈ coverageBounds coverage, missingBars timestamps bounds interval ≤
        standIns timestamps bounds interval) ∧ (coverage = [] → timestamps.IsChain fun a b => b - a = interval) := by
    unfold applyCoverageRules
    rw [← coverageBounds_eq_none]
    cases hb : coverageBounds coverage with
    | none => simp [hpos.ne', ensureGaplessSequence_ok]
    | some bounds =>
      have hs := List.length_eq_countP_add_countP (l := barsWithin bounds interval) fun bar => bar ∈ timestamps
      have hle := present_le_actual timestamps bounds hpos
      rw [length_barsWithin] at hs
      simp only [hpos.ne', if_false, ensureCoverageConsistent, Option.mem_def, Option.some.injEq, forall_eq',
        missingBars, standIns, reduceCtorEq, false_implies, and_true]
      simp only [decide_eq_true_eq] at hs
      split_ifs with hex
      · simp only [true_iff]
        omega
      · simp only [false_iff]
        omega
  have hp : ∀ required summary, ensureHistoryPresent timestamps required (some interval) summary = .ok () ↔
      timestamps ≠ [] := by
    intro required summary
    unfold ensureHistoryPresent
    split_ifs with h <;> simp [h]
  have hm : ∀ required summary, ensureMinimumPoints timestamps.length required (some interval) summary = .ok () ↔
      required ≤ timestamps.length := by
    intro required summary
    unfold ensureMinimumPoints
    split_ifs with h <;> simp [h]
  simp only [ensureStrictHistory, bind_ok, hp, hr, hm, exists_const]
  tauto

/-- Strict mode accepts only gapless history, unless bars are missing and as many timestamps within the bounds stand in for
them, or repeated timestamps fill the required number. -/
theorem strict_history_gapless_iff (timestamps : List ℤ) {interval : ℤ} (requiredPoints : Option ℤ)
    (coverage : List Range) (hpos : 0 < interval) :
    (ensureStrictHistory timestamps (some interval) requiredPoints coverage = .ok () →
      GaplessHistory timestamps interval requiredPoints coverage) ↔
    coverage = [] ∨ timestamps.length < computeRequiredPoints requiredPoints ∨ ∀ bounds ∈ coverageBounds coverage,
      standIns timestamps bounds interval < missingBars timestamps bounds interval ∨
      (missingBars timestamps bounds interval = 0 ∧
        repeats timestamps ≤ timestamps.length - computeRequiredPoints requiredPoints) := by
  rw [ensureStrictHistory_ok hpos]
  cases hbounds : coverageBounds coverage with
  | none =>
    obtain rfl := coverageBounds_eq_none.mp hbounds
    refine iff_of_true ?_ (.inl rfl)
    rintro ⟨-, -, hrun, hpoints⟩
    exact ⟨(dedup_eq_of_gapless hpos (hrun rfl)).symm ▸ hpoints, fun _ h => by simp [coverageBounds] at h, hrun⟩
  | some bounds =>
    have hne : coverage ≠ [] := by
      rintro rfl
      simp [coverageBounds] at hbounds
    have hhistory : GaplessHistory timestamps interval requiredPoints coverage ↔
        computeRequiredPoints requiredPoints ≤ timestamps.dedup.length ∧ missingBars timestamps bounds interval = 0 := by
      rw [missingBars_eq_zero hpos]
      constructor
      · intro h
        exact ⟨h.points, h.covered bounds hbounds⟩
      · rintro ⟨hpoints, hcovered⟩
        refine ⟨hpoints, ?_, fun h => absurd h hne⟩
        intro bounds' h
        cases hbounds.symm.trans h
        exact hcovered
    have hactual : standIns timestamps bounds interval ≤ timestamps.length :=
      (Nat.sub_le _ _).trans List.countP_le_length
    have hnil : timestamps ≠ [] ↔ 0 < timestamps.length := List.length_pos_iff.symm
    simp only [hhistory, hnil, hne, Option.mem_def, Option.some.injEq, forall_eq', false_implies, true_and, false_or,
      repeats]
    omega

theorem strict_history_gapless_iff_day : GaplessHistory [0, 10, 20, 30] 10 (some 4) [(0, 10), (20, 30)] :=
  (strict_history_gapless_iff [0, 10, 20, 30] (some 4) [(0, 10), (20, 30)] (by decide)).mpr
    (.inr (.inr (by decide))) rfl

/-- A timestamp that is there twice stands in for the missing bar 10, and counts twice for the required number. -/
theorem strict_history_repeats : ensureStrictHistory [0, 0, 20] (some 10) (some 3) [(0, 20)] = .ok () ∧
    ¬ GaplessHistory [0, 0, 20] 10 (some 3) [(0, 20)] := by
  refine ⟨rfl, ?_⟩
  intro h
  exact absurd (h.covered (0, 20) rfl 1 (by decide)) (by decide)

end Strict

end Qmtl.Runtime.History

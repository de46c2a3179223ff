import Qmtl.Lib.Double
import Qmtl.Runtime.History.HistoryCoverage
import Qmtl.Runtime.Seamless.FetchCache

/-!
The budget of bars that one call may fill synchronously: `_AvailabilityPipeline` counts the bars of the missing ranges by
dividing their lengths.
-/

namespace Qmtl.Runtime.Seamless

open Lib Lib.Double Runtime.History

structure SlaTracker where
  onViolation : Mode
  violation : Option ViolationDetail

/-- What `_AvailabilityPipeline.ensure` raises, where `raised` is what the sources and the backfill do. -/
inductive EnsureError (ε : Type) where
  | slaExceeded (nodeId : String) (detail : ViolationDetail)
  | overflow
  | raised (e : ε)

section Gate

variable {ε : Type}

def SlaTracker.handleViolation (tracker : SlaTracker) (nodeId : String) (detail : ViolationDetail) :
    Except (EnsureError ε) Unit × SlaTracker :=
  (if tracker.onViolation = .failFast then .error (.slaExceeded nodeId detail) else .ok (),
    { tracker with violation := some (tracker.violation.getD detail) })

def barsCounted (interval : ℕ) (gap : Range) : Option ℤ :=
  if interval = 0 then some 0 else (trueDivide (gap.2 - gap.1) interval).map fun q => max 0 (truncate q)

def missingBarsCounted (interval : ℕ) (gaps : List Range) : Option ℤ :=
  gaps.foldlM (fun missingBars gap => (barsCounted interval gap).map (missingBars + ·)) 0

def respectSyncGap (maxSyncGapBars : Option ℤ) (tracker : Option SlaTracker) (missingRanges : List Range)
    (interval : ℕ) (nodeId : String) : Except (EnsureError ε) Bool × Option SlaTracker :=
  match maxSyncGapBars with
  | none => (.ok true, tracker)
  | some maxBars =>
    if missingRanges = [] then (.ok true, tracker)
    else
      match missingBarsCounted interval missingRanges with
      | none => (.error .overflow, tracker)
      | some missingBars =>
        if missingBars ≤ maxBars then (.ok true, tracker)
        else
          let intervalMs : ℤ := interval * 1000
          match trueDivide (missingBars * intervalMs) 1 with
          | none => (.error .overflow, tracker)
          | some elapsedMs =>
            let detail : ViolationDetail :=
              ⟨"sync_gap", elapsedMs, if intervalMs = 0 then none else some (maxBars * intervalMs)⟩
            match tracker with
            | none => (.error (.slaExceeded nodeId detail), none)
            | some tracker =>
              match tracker.handleViolation nodeId detail with
              | (.error e, tracker) => (.error e, some tracker)
              | (.ok (), tracker) => (.ok false, some tracker)

def Proceeds (ε : Type) (maxSyncGapBars : Option ℤ) (tracker : Option SlaTracker) (missingRanges : List Range)
    (interval : ℕ) (nodeId : String) : Prop :=
  (respectSyncGap (ε := ε) maxSyncGapBars tracker missingRanges interval nodeId).1 = .ok true

variable {maxSyncGapBars : Option ℤ} {tracker : Option SlaTracker} {missingRanges : List Range} {interval : ℕ}
  {nodeId : String}

lemma proceeds_iff : Proceeds ε maxSyncGapBars tracker missingRanges interval nodeId ↔
    ∀ maxBars ∈ maxSyncGapBars, missingRanges = [] ∨
      ∃ missingBars ∈ missingBarsCounted interval missingRanges, missingBars ≤ maxBars := by
  unfold Proceeds respectSyncGap
  cases maxSyncGapBars with
  | none => simp
  | some maxBars =>
    by_cases hnil : missingRanges = []
    · simp [hnil]
    · cases hc : missingBarsCounted interval missingRanges with
      | none => simp [hnil]
      | some missingBars =>
        by_cases hle : missingBars ≤ maxBars
        · simp [hnil, hle]
        · simp only [hnil, hle, if_false, Option.mem_def, Option.some.injEq, forall_eq', exists_eq_left', false_or,
            iff_false]
          cases trueDivide (missingBars * (interval * 1000)) 1 with
          | none => simp
          | some elapsedMs =>
            cases tracker with
            | none => simp
            | some tracker =>
              dsimp only [SlaTracker.handleViolation]
              split_ifs <;> simp

end Gate

/-! ### What the count leaves out -/

section Count

variable {interval : ℕ} {gaps : List Range}

def missingGridBars (interval : ℕ) (gaps : List Range) : List ℤ := gaps.flatMap fun gap => barsWithin gap interval

def lostBars (interval : ℕ) : List Range → Option ℤ
  | [] => some 0
  | gap :: rest => do
    let quotient ← trueDivide (gap.2 - gap.1) interval
    let lost ← lostBars interval rest
    return (barsWithin gap interval).length - truncate quotient + lost

/-- The budget does not lie where the count and the bars are on its two sides. -/
def BudgetClear (interval : ℕ) (gaps : List Range) (maxBars : ℤ) : Prop :=
  (gaps = [] → 0 ≤ maxBars) ∧
  match lostBars interval gaps with
  | none => maxBars < (missingGridBars interval gaps).length
  | some lost =>
    maxBars ∉ Set.Ico ((missingGridBars interval gaps).length - lost) (missingGridBars interval gaps).length ∧
    maxBars ∉ Set.Ico ((missingGridBars interval gaps).length : ℤ) ((missingGridBars interval gaps).length - lost)

lemma length_missingGridBars_cons (interval : ℕ) (gap : Range) (gaps : List Range) :
    (missingGridBars interval (gap :: gaps)).length =
      (barsWithin gap interval).length + (missingGridBars interval gaps).length := by
  rw [missingGridBars, List.flatMap_cons, List.length_append, missingGridBars]

lemma barsCounted_eq {gap : Range} (h : gap.1 ≤ gap.2) :
    barsCounted interval gap = (trueDivide (gap.2 - gap.1) interval).map truncate := by
  unfold barsCounted
  split_ifs with hz
  · simp [hz]
  · cases hq : trueDivide (gap.2 - gap.1) interval with
    | none => rfl
    | some q =>
      have hn := truncate_nonneg (by omega) (by omega) hq
      simp [hn]

lemma missingBarsCounted_eq (hle : ∀ gap ∈ gaps, gap.1 ≤ gap.2) : missingBarsCounted interval gaps =
      (lostBars interval gaps).map fun lost : ℤ => ((missingGridBars interval gaps).length : ℤ) - lost := by
  have hf : ∀ (gaps : List Range) (acc : ℤ), (∀ gap ∈ gaps, gap.1 ≤ gap.2) →
      gaps.foldlM (fun missingBars gap => (barsCounted interval gap).map (missingBars + ·)) acc =
        (lostBars interval gaps).map fun lost => acc + (missingGridBars interval gaps).length - lost := by
    intro gaps
    induction gaps with
    | nil => simp [lostBars, missingGridBars]
    | cons gap rest ih =>
      intro acc hle
      rw [List.foldlM_cons, barsCounted_eq (hle gap List.mem_cons_self), lostBars, length_missingGridBars_cons]
      cases trueDivide (gap.2 - gap.1) interval with
      | none => rfl
      | some q =>
        have hr := ih (acc + truncate q) fun g hg => hle g (.tail _ hg)
        simp only [Option.map_some, Option.bind_eq_bind, Option.bind_some, hr]
        cases lostBars interval rest with
        | none => rfl
        | some lost =>
          simp
          ring
  rw [missingBarsCounted, hf gaps 0 hle]
  simp

lemma lostBars_eq (hle : ∀ gap ∈ gaps, gap.1 ≤ gap.2) (hs : ∀ gap ∈ gaps, gap.2 - gap.1 < 2 ^ 53) :
    lostBars interval gaps = some (gaps.length : ℤ) := by
  induction gaps with
  | nil => rfl
  | cons gap rest ih =>
    have hgap := hle gap List.mem_cons_self
    have hr := ih (fun g hg => hle g (.tail _ hg)) fun g hg => hs g (.tail _ hg)
    have hone : ∃ q, trueDivide (gap.2 - gap.1) interval = some q ∧
        (barsWithin gap interval).length - truncate q = 1 := by
      rw [length_barsWithin]
      rcases Nat.eq_zero_or_pos interval with rfl | hpos
      · exact ⟨0, by simp, by simp⟩
      · have hc : (0 : ℤ) < interval := by exact_mod_cast hpos
        obtain ⟨q, hq, ht⟩ := trueDivide_eq_some (by omega) (hs gap List.mem_cons_self) hc
        have hqt : 0 ≤ (gap.2 - gap.1) / (interval : ℤ) := Int.ediv_nonneg (by omega) hc.le
        refine ⟨q, hq, ?_⟩
        rw [ht, Int.fdiv_eq_ediv_of_nonneg _ hc.le]
        omega
    obtain ⟨q, hq, hl⟩ := hone
    rw [lostBars, hq, hr]
    simp only [Option.bind_eq_bind, Option.bind_some, hl, List.length_cons]
    simp
    ring

lemma budgetClear_iff (hle : ∀ gap ∈ gaps, gap.1 ≤ gap.2) (hs : ∀ gap ∈ gaps, gap.2 - gap.1 < 2 ^ 53)
    (maxBars : ℤ) : BudgetClear interval gaps maxBars ↔ (gaps = [] → 0 ≤ maxBars) ∧
      maxBars ∉ Set.Ico ((missingGridBars interval gaps).length - gaps.length : ℤ) (missingGridBars interval gaps).length := by
  rw [BudgetClear, lostBars_eq hle hs]
  refine and_congr_right fun _ => ?_
  simp only [Set.mem_Ico]
  omega

end Count

/-- The gate lets a call go on with no more missing bars than its budget and with no others, unless the budget lies between
the bars of the gaps and the count; for gaps shorter than `2 ^ 53` the count has one bar less for each gap. -/
theorem sync_gap_counts_bars_iff (ε : Type) (maxSyncGapBars : Option ℤ) (tracker : Option SlaTracker) (start stop : ℤ)
    (availableRanges : List Range) (interval : ℕ) (nodeId : String) :
    ((Proceeds ε maxSyncGapBars tracker (findMissingRanges start stop availableRanges interval) interval nodeId ↔
        ∀ maxBars ∈ maxSyncGapBars,
          ((missingGridBars interval (findMissingRanges start stop availableRanges interval)).length : ℤ) ≤ maxBars) ↔
      ∀ maxBars ∈ maxSyncGapBars,
        BudgetClear interval (findMissingRanges start stop availableRanges interval) maxBars) ∧
    ((∀ gap ∈ findMissingRanges start stop availableRanges interval, gap.2 - gap.1 < 2 ^ 53) → ∀ maxBars : ℤ,
      (BudgetClear interval (findMissingRanges start stop availableRanges interval) maxBars ↔
        (findMissingRanges start stop availableRanges interval = [] → 0 ≤ maxBars) ∧ maxBars ∉ Set.Ico
          ((missingGridBars interval (findMissingRanges start stop availableRanges interval)).length -
            (findMissingRanges start stop availableRanges interval).length : ℤ)
          (missingGridBars interval (findMissingRanges start stop availableRanges interval)).length)) := by
  have hle : ∀ gap ∈ findMissingRanges start stop availableRanges interval, gap.1 ≤ gap.2 := by
    intro gap hgap
    exact of_decide_eq_true (List.mem_filter.mp hgap).2
  refine ⟨?_, fun hshort maxBars => budgetClear_iff hle hshort maxBars⟩
  generalize findMissingRanges start stop availableRanges interval = gaps at hle
  rw [proceeds_iff]
  cases maxSyncGapBars with
  | none => simp
  | some maxBars =>
    simp only [Option.mem_def, Option.some.injEq, forall_eq', missingBarsCounted_eq hle, BudgetClear]
    by_cases hnil : gaps = []
    · subst hnil
      simp [lostBars, missingGridBars]
    · cases lostBars interval gaps with
      | none => simp [hnil]
      | some lost =>
        simp only [hnil, false_or, Option.map_some, Option.some.injEq, exists_eq_left', false_implies, true_and,
          Set.mem_Ico]
        omega

/-- Bars that are missing one at a time count as none: two are missing, and a budget of none lets the call go on. -/
theorem isolated_bars_uncounted :
    Proceeds Unit (some 0) none (findMissingRanges 0 40 [(0, 0), (20, 20), (40, 40)] 10) 10 "node" ∧
    (missingGridBars 10 (findMissingRanges 0 40 [(0, 0), (20, 20), (40, 40)] 10)).length = 2 := by
  have hgaps : findMissingRanges 0 40 [(0, 0), (20, 20), (40, 40)] 10 = [(10, 10), (30, 30)] := by decide +kernel
  rw [hgaps, proceeds_iff]
  refine ⟨?_, by decide⟩
  intro maxBars h
  cases h
  exact .inr ⟨0, by simp [missingBarsCounted, barsCounted], le_rfl⟩

end Qmtl.Runtime.Seamless

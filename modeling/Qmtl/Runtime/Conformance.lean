import Mathlib.Data.Rat.Floor
import Qmtl.Lib.Dict

/-!
`ConformancePipeline`: how the unit of integer timestamps is inferred, how repeated rows are dropped and gaps counted, and
what the report says of it.
-/

namespace Qmtl.Runtime.Conformance

open Lib

variable {α : Type}

/-! ### Frames and reports -/

/-- A cell of a column other than `ts`; `nan` and `inf` are of float columns. -/
inductive Cell (α : Type) where
  | null
  | nan
  | inf
  | value (x : α)

structure Row (α : Type) where
  ts : Option ℤ
  cells : List (Bool × Cell α)

structure ConformanceReport where
  warnings : List String
  flagsCounts : Dict String ℕ

namespace ConformanceReport

def warn (report : ConformanceReport) (text : String) : ConformanceReport :=
  { report with warnings := report.warnings ++ [text] }

def bump (report : ConformanceReport) (key : String) (n : ℕ) : ConformanceReport :=
  { report with flagsCounts := report.flagsCounts.set key ((report.flagsCounts.get? key).getD 0 + n) }

def count (report : ConformanceReport) (key : String) : ℕ := (report.flagsCounts.get? key).getD 0

variable {report : ConformanceReport} {key : String} {n : ℕ}

@[simp] lemma count_warn (text : String) : (report.warn text).count key = report.count key := rfl

lemma count_bump (other : String) :
    (report.bump other n).count key = report.count key + if key = other then n else 0 := by
  unfold count bump
  by_cases h : key = other
  · subst h
    simp
  · simp [Dict.get?_set_ne _ _ h, h]

end ConformanceReport

structure Frame (α : Type) where
  rows : List (Row α)
  report : ConformanceReport

def Frame.ts (df : Frame α) : List (Option ℤ) := df.rows.map Row.ts

/-! ### `_normalize_integer_epoch` -/

def castInt64 (v : ℤ) : Option ℤ := if -2 ^ 63 ≤ v ∧ v < 2 ^ 63 then some v else none

def absInt64 (v : ℤ) : ℤ := if v = -2 ^ 63 then v else |v|

def nonZeroEpochValues (series : List (Option ℤ)) : Option (List ℤ) :=
  (series.mapM id).map fun raw => (raw.map absInt64).filter (0 < ·)

def unique (values : List ℤ) : List ℤ := values.dedup.insertionSort (· ≤ ·)

def diff (values : List ℤ) : List ℤ := values.zipWith (fun a b => b - a) values.tail

def candidateDivisorFromDiffs (values : List ℤ) : Option ℤ :=
  if (unique values).length < 2 then none
  else
    match ((diff (unique values)).filter (0 < ·)).min? with
    | none => none
    | some minDiff => [10 ^ 9, 10 ^ 6, 10 ^ 3].find? fun divisor => minDiff % divisor = 0

def divisorFromMagnitude (maxValue : ℤ) : ℤ :=
  if maxValue ≥ 10 ^ 16 then 10 ^ 9
  else if maxValue ≥ 10 ^ 13 then 10 ^ 6
  else if maxValue ≥ 10 ^ 10 then 10 ^ 3
  else 1

def inferEpochDivisor (values : List ℤ) : ℤ :=
  match values.max? with
  | none => 1
  | some maxValue =>
    if maxValue < 10 ^ 10 then 1
    else
      match candidateDivisorFromDiffs values with
      | some divisor => divisor
      | none => divisorFromMagnitude maxValue

def invalidText (n : ℕ) : String := "dropped " ++ toString n ++ " rows with invalid timestamps"

def dropInvalid (df : Frame α) : Frame α :=
  let invalid := (df.rows.filter fun r => r.ts.isNone).length
  if invalid = 0 then df
  else
    { rows := df.rows.filter fun r => r.ts.isSome
      report := (df.report.warn (invalidText invalid)).bump "invalid_timestamp" invalid }

def Row.mapTs (r : Row α) (f : ℤ → Option ℤ) : Row α := { r with ts := r.ts.bind f }

def normalizeIntegerEpoch (df : Frame α) : Option (ℕ × Frame α) :=
  let df := dropInvalid df
  let cast := { df with rows := df.rows.map fun r => r.mapTs castInt64 }
  if df.rows.isEmpty then some (0, df)
  else
    (nonZeroEpochValues cast.ts).map fun values =>
      let divisor := inferEpochDivisor values
      if divisor = 1 then (0, cast)
      else (cast.rows.length, { cast with rows := cast.rows.map fun r => r.mapTs fun v => some (v / divisor) })

/-! ### The least gap -/

/-- `g` is the least distance of two different values. -/
structure LeastGap (vs : List ℤ) (g : ℤ) : Prop where
  pos : 0 < g
  met : ∃ a ∈ vs, a + g ∈ vs
  least : ∀ a ∈ vs, ∀ b ∈ vs, a < b → g ≤ b - a

lemma LeastGap.eq {vs : List ℤ} {g g' : ℤ} (h : LeastGap vs g) (h' : LeastGap vs g') : g = g' := by
  obtain ⟨a, ha, hag⟩ := h.met
  obtain ⟨b, hb, hbg⟩ := h'.met
  have hle := h.least b hb _ hbg (by have := h'.pos; omega)
  have hge := h'.least a ha _ hag (by have := h.pos; omega)
  omega

lemma diff_cons (a b : ℤ) (l : List ℤ) : diff (a :: b :: l) = (b - a) :: diff (b :: l) := rfl

variable {g : ℤ} {l : List ℤ}

lemma mem_of_mem_diff (h : g ∈ diff l) : ∃ a ∈ l, a + g ∈ l := by
  induction l with
  | nil => simp [diff] at h
  | cons a l ih =>
    cases l with
    | nil => simp [diff] at h
    | cons b l =>
      rw [diff_cons, List.mem_cons] at h
      rcases h with rfl | h
      · exact ⟨a, by simp, by simp⟩
      · obtain ⟨c, hc, hcg⟩ := ih h
        exact ⟨c, .tail _ hc, .tail _ hcg⟩

lemma pos_of_mem_diff (hs : l.Pairwise (· < ·)) (h : g ∈ diff l) : 0 < g := by
  induction l with
  | nil => simp [diff] at h
  | cons a l ih =>
    cases l with
    | nil => simp [diff] at h
    | cons b l =>
      rw [List.pairwise_cons] at hs
      rw [diff_cons, List.mem_cons] at h
      rcases h with rfl | h
      · have := hs.1 b (by simp)
        omega
      · exact ih hs.2 h

lemma le_of_le_diff (hs : l.Pairwise (· < ·)) (hle : ∀ d ∈ diff l, g ≤ d) :
    ∀ a ∈ l, ∀ b ∈ l, a < b → g ≤ b - a := by
  induction l with
  | nil => simp
  | cons x l ih =>
    intro a ha b hb hlt
    rw [List.pairwise_cons] at hs
    cases l with
    | nil =>
      simp only [List.mem_singleton] at ha hb
      omega
    | cons y l =>
      have hxy : g ≤ y - x := hle _ (by simp [diff_cons])
      have hy : ∀ c ∈ y :: l, y ≤ c := by
        intro c hc
        rcases List.mem_cons.mp hc with rfl | hc
        · exact le_refl _
        · exact le_of_lt ((List.pairwise_cons.mp hs.2).1 c hc)
      rcases List.mem_cons.mp hb with rfl | hb'
      · rcases List.mem_cons.mp ha with rfl | ha'
        · omega
        · have := hs.1 a ha'
          omega
      · rcases List.mem_cons.mp ha with rfl | ha'
        · have := hy b hb'
          omega
        · exact ih hs.2 (fun d hd => hle d (by simp [diff_cons, hd])) a ha' b hb' hlt

lemma mem_unique {vs : List ℤ} {v : ℤ} : v ∈ unique vs ↔ v ∈ vs := by simp [unique]

lemma unique_sorted (vs : List ℤ) : (unique vs).Pairwise (· < ·) := by
  have hle : (unique vs).Pairwise (· ≤ ·) := by
    exact vs.dedup.pairwise_insertionSort (· ≤ ·)
  have hn : (unique vs).Nodup := (vs.dedup.perm_insertionSort _).nodup_iff.mpr vs.nodup_dedup
  exact (hle.and hn).imp fun h => lt_of_le_of_ne h.1 h.2

lemma leastGap_of_min {vs : List ℤ} (h : ((diff (unique vs)).filter (0 < ·)).min? = some g) : LeastGap vs g := by
  obtain ⟨hmem, hmin⟩ := List.min?_eq_some_iff.mp h
  simp only [List.mem_filter, decide_eq_true_eq] at hmem hmin
  refine ⟨hmem.2, ?_, ?_⟩
  · obtain ⟨a, ha, hag⟩ := mem_of_mem_diff hmem.1
    exact ⟨a, mem_unique.mp ha, mem_unique.mp hag⟩
  · intro a ha b hb
    have hs := unique_sorted vs
    exact le_of_le_diff hs (fun d hd => hmin d ⟨hd, pos_of_mem_diff hs hd⟩) a (mem_unique.mpr ha) b
      (mem_unique.mpr hb)

lemma not_leastGap_of_min {vs : List ℤ} (h : ((diff (unique vs)).filter (0 < ·)).min? = none) (g : ℤ) :
    ¬ LeastGap vs g := by
  intro hg
  obtain ⟨a, ha, hag⟩ := hg.met
  have hnil : ∀ d ∈ diff (unique vs), g + 1 ≤ d := by
    intro d hd
    have hpos := pos_of_mem_diff (unique_sorted vs) hd
    have : d ∈ (diff (unique vs)).filter (0 < ·) := by simp [hd, hpos]
    simp [List.min?_eq_none_iff.mp h] at this
  have := le_of_le_diff (unique_sorted vs) hnil a (mem_unique.mpr ha) _ (mem_unique.mpr hag) (by have := hg.pos; omega)
  omega

lemma candidateDivisorFromDiffs_eq {vs : List ℤ} (h : LeastGap vs g) :
    candidateDivisorFromDiffs vs = [10 ^ 9, 10 ^ 6, 10 ^ 3].find? fun divisor => g % divisor = 0 := by
  have hlen : ¬ (unique vs).length < 2 := by
    intro hlt
    obtain ⟨a, ha, hag⟩ := h.met
    have hpos := h.pos
    rw [← mem_unique] at ha hag
    cases hu : unique vs with
    | nil => simp [hu] at ha
    | cons x l =>
      have hl : l = [] := by simpa [hu] using hlt
      simp only [hu, hl, List.mem_singleton] at ha hag
      omega
  rw [candidateDivisorFromDiffs, if_neg hlen]
  cases hmin : ((diff (unique vs)).filter (0 < ·)).min? with
  | none => exact absurd h (not_leastGap_of_min hmin g)
  | some m => rw [(leastGap_of_min hmin).eq h]

lemma candidateDivisorFromDiffs_eq_none {vs : List ℤ} (h : ∀ g, ¬ LeastGap vs g) : candidateDivisorFromDiffs vs = none := by
  unfold candidateDivisorFromDiffs
  split
  · rfl
  · cases hmin : ((diff (unique vs)).filter (0 < ·)).min? with
    | none => rfl
    | some m => exact absurd (leastGap_of_min hmin) (h m)

/-! ### Units -/

inductive EpochUnit where
  | seconds
  | milliseconds
  | microseconds
  | nanoseconds

def EpochUnit.perSecond : EpochUnit → ℕ
  | seconds => 1
  | milliseconds => 10 ^ 3
  | microseconds => 10 ^ 6
  | nanoseconds => 10 ^ 9

/-- Instants from 2001-09-09 to 2286-11-20 in the unit. -/
def EpochUnit.Spans (u : EpochUnit) (vs : List ℤ) : Prop :=
  ∀ v ∈ vs, 10 ^ 9 * (u.perSecond : ℤ) ≤ v ∧ v < 10 ^ 10 * (u.perSecond : ℤ)

/-- Seconds, or values whose least gap is divisible by the unit and by no larger one, or not even by 1000. -/
def EpochUnit.Regular (u : EpochUnit) (vs : List ℤ) : Prop :=
  u.perSecond = 1 ∨ ∀ g, LeastGap vs g → (10 ^ 3 : ℤ) ∣ g →
    (u.perSecond : ℤ) ∣ g ∧ (u.perSecond = 10 ^ 9 ∨ ¬ (10 ^ 3 * (u.perSecond : ℤ)) ∣ g)

section Units

variable {u : EpochUnit} {vs : List ℤ}

lemma inferEpochDivisor_of_max {m : ℤ} (hmax : vs.max? = some m) : inferEpochDivisor vs =
      if m < 10 ^ 10 then 1 else (candidateDivisorFromDiffs vs).getD (divisorFromMagnitude m) := by
  simp only [inferEpochDivisor, hmax]
  cases candidateDivisorFromDiffs vs <;> rfl

lemma divisorFromMagnitude_eq {m : ℤ} (h : 10 ^ 9 * (u.perSecond : ℤ) ≤ m ∧ m < 10 ^ 10 * (u.perSecond : ℤ)) :
    divisorFromMagnitude m = u.perSecond := by
  unfold divisorFromMagnitude
  cases u <;> simp only [EpochUnit.perSecond] at h ⊢ <;> push_cast at h ⊢ <;> split_ifs <;> omega

lemma candidateDivisorFromDiffs_getD {g : ℤ} (hg : LeastGap vs g) (other : ℤ) :
    (candidateDivisorFromDiffs vs).getD other =
      if (10 ^ 9 : ℤ) ∣ g then 10 ^ 9 else if (10 ^ 6 : ℤ) ∣ g then 10 ^ 6 else if (10 ^ 3 : ℤ) ∣ g then 10 ^ 3
      else other := by
  simp only [candidateDivisorFromDiffs_eq hg, List.find?_cons, List.find?_nil, Int.dvd_iff_emod_eq_zero]
  by_cases h9 : g % 10 ^ 9 = 0
  · simp only [h9, decide_true, if_true, Option.getD_some]
  · by_cases h6 : g % 10 ^ 6 = 0
    · simp only [h9, h6, decide_false, decide_true, if_true, if_false, Option.getD_some]
    · by_cases h3 : g % 10 ^ 3 = 0
      · simp only [h9, h6, h3, decide_false, decide_true, if_true, if_false, Option.getD_some]
      · simp only [h9, h6, h3, decide_false, if_false, Option.getD_none]

lemma inferEpochDivisor_eq_iff (hne : vs ≠ []) (hs : u.Spans vs) :
    inferEpochDivisor vs = u.perSecond ↔ u.Regular vs := by
  obtain ⟨m, hmax⟩ : ∃ m, vs.max? = some m := Option.isSome_iff_exists.mp (by simpa using hne)
  have hm := hs m (List.max?_eq_some_iff.mp hmax).1
  have hmag := divisorFromMagnitude_eq hm
  rw [inferEpochDivisor_of_max hmax, hmag]
  unfold EpochUnit.Regular
  by_cases hgap : ∃ g, LeastGap vs g
  · obtain ⟨g, hg⟩ := hgap
    have hall : (∀ g', LeastGap vs g' → (10 ^ 3 : ℤ) ∣ g' →
        (u.perSecond : ℤ) ∣ g' ∧ (u.perSecond = 10 ^ 9 ∨ ¬ (10 ^ 3 * (u.perSecond : ℤ)) ∣ g')) ↔
        ¬ (10 ^ 3 : ℤ) ∣ g ∨ (u.perSecond : ℤ) ∣ g ∧ (u.perSecond = 10 ^ 9 ∨ ¬ (10 ^ 3 * (u.perSecond : ℤ)) ∣ g) := by
      rw [← imp_iff_not_or]
      exact ⟨fun h => h g hg, fun h g' hg' => hg.eq hg' ▸ h⟩
    rw [hall, candidateDivisorFromDiffs_getD hg]
    cases u <;> norm_num [EpochUnit.perSecond] at hm ⊢ <;> split_ifs <;> omega
  · have hn : ∀ g, ¬ LeastGap vs g := fun g hg => hgap ⟨g, hg⟩
    rw [candidateDivisorFromDiffs_eq_none hn, Option.getD_none]
    simp only [hn, false_imp_iff, implies_true, or_true, iff_true]
    split
    · cases u <;> simp only [EpochUnit.perSecond] at hm ⊢ <;> push_cast at hm ⊢ <;> omega
    · rfl

lemma ediv_eq_iff {v : ℤ} (hs : u.Spans [v]) (d : ℤ) (hd : d ∈ [1, 10 ^ 3, 10 ^ 6, 10 ^ 9]) :
    v / d = v / u.perSecond ↔ d = u.perSecond := by
  have hv := hs v (by simp)
  constructor
  · intro h
    simp only [List.mem_cons, List.not_mem_nil, or_false] at hd
    cases u <;> simp only [EpochUnit.perSecond] at hv h ⊢ <;> push_cast at hv h ⊢ <;>
      rcases hd with rfl | rfl | rfl | rfl <;> omega
  · rintro rfl
    rfl

lemma inferEpochDivisor_mem (vs : List ℤ) : inferEpochDivisor vs ∈ [(1 : ℤ), 10 ^ 3, 10 ^ 6, 10 ^ 9] := by
  cases hmax : vs.max? with
  | none => simp [inferEpochDivisor, hmax]
  | some m =>
    rw [inferEpochDivisor_of_max hmax]
    split
    · simp
    · by_cases hgap : ∃ g, LeastGap vs g
      · obtain ⟨g, hg⟩ := hgap
        rw [candidateDivisorFromDiffs_getD hg]
        unfold divisorFromMagnitude
        split_ifs <;> simp
      · rw [candidateDivisorFromDiffs_eq_none fun g hg => hgap ⟨g, hg⟩]
        simp only [Option.getD_none, divisorFromMagnitude]
        split_ifs <;> simp

end Units

/-! ### The column as a whole -/

section Column

variable {df : Frame α} {vs : List ℤ}

lemma castInt64_of_fits {v : ℤ} (h : -2 ^ 63 ≤ v ∧ v < 2 ^ 63) : castInt64 v = some v := if_pos h

lemma isSome_castInt64 {v : ℤ} : (castInt64 v).isSome ↔ -2 ^ 63 ≤ v ∧ v < 2 ^ 63 := by
  unfold castInt64
  split_ifs with h
  · exact iff_of_true rfl h
  · exact iff_of_false (by simp) h

lemma dropInvalid_eq (hts : df.ts = vs.map some) : dropInvalid df = df := by
  have hn : df.rows.filter (fun r => r.ts.isNone) = [] := by
    rw [List.filter_eq_nil_iff]
    intro r hr
    have : r.ts ∈ df.ts := List.mem_map_of_mem hr
    rw [hts, List.mem_map] at this
    obtain ⟨v, -, hv⟩ := this
    simp [← hv]
  simp [dropInvalid, hn]

lemma ts_mapTs (rows : List (Row α)) (f : ℤ → Option ℤ) :
    (rows.map fun r => r.mapTs f).map Row.ts = (rows.map Row.ts).map fun t => t.bind f := by
  simp [Row.mapTs]

lemma mapM_castInt64 : ((vs.map castInt64).mapM id) = if ∀ v ∈ vs, (castInt64 v).isSome then some vs else none := by
  induction vs with
  | nil => rfl
  | cons v vs ih =>
    rw [List.map_cons, List.mapM_cons, ih]
    simp only [List.forall_mem_cons]
    by_cases hv : (castInt64 v).isSome
    · have hc := castInt64_of_fits (isSome_castInt64.mp hv)
      by_cases hall : ∀ w ∈ vs, (castInt64 w).isSome
      · rw [if_pos hall, if_pos ⟨hv, hall⟩, id, hc]
        rfl
      · rw [if_neg hall, if_neg (not_and_of_not_right _ hall), id, hc]
        rfl
    · have hc : castInt64 v = none := by simpa using hv
      rw [if_neg (not_and_of_not_left _ hv), id, hc]
      rfl

lemma normalizeIntegerEpoch_ts (hts : df.ts = vs.map some) (hne : vs ≠ []) (hpos : ∀ v ∈ vs, 0 < v) :
    (normalizeIntegerEpoch df).map (fun r => r.2.ts) =
      if ∀ v ∈ vs, v < 2 ^ 63 then some (vs.map fun v => some (v / inferEpochDivisor vs)) else none := by
  have hempty : df.rows.isEmpty = false := by
    cases hrows : df.rows with
    | nil =>
      rw [Frame.ts, hrows, List.map_nil] at hts
      exact absurd (List.map_eq_nil_iff.mp hts.symm) hne
    | cons r rows => rfl
  have hc : (df.rows.map fun r => r.mapTs castInt64).map Row.ts = vs.map castInt64 := by
    rw [ts_mapTs, show df.rows.map Row.ts = vs.map some from hts, List.map_map]
    rfl
  have hs : (∀ v ∈ vs, (castInt64 v).isSome) ↔ ∀ v ∈ vs, v < 2 ^ 63 := by
    refine forall₂_congr fun v hv => ?_
    have := hpos v hv
    rw [isSome_castInt64]
    omega
  simp only [normalizeIntegerEpoch, dropInvalid_eq hts, hempty, Bool.false_eq_true, if_false, nonZeroEpochValues,
    Frame.ts, hc, mapM_castInt64, hs]
  by_cases hfit : ∀ v ∈ vs, v < 2 ^ 63
  · have habs : (vs.map absInt64).filter (0 < ·) = vs := by
      have hid : vs.map absInt64 = vs := by
        conv_rhs => rw [← List.map_id vs]
        refine List.map_congr_left fun v hv => ?_
        have := hpos v hv
        rw [absInt64, if_neg (by omega), abs_of_pos this]
        rfl
      rw [hid, List.filter_eq_self]
      simpa using hpos
    have hall : vs.map castInt64 = vs.map some := List.map_congr_left fun v hv =>
      castInt64_of_fits ⟨by have := hpos v hv; omega, hfit v hv⟩
    rw [if_pos hfit, if_pos hfit]
    simp only [Option.map_some, habs]
    by_cases hone : inferEpochDivisor vs = 1
    · simp [hc, hall, hone]
    · rw [if_neg hone]
      simp only [ts_mapTs, hc, hall]
      simp
  · rw [if_neg hfit, if_neg hfit]
    rfl

/-- **Epoch normalisation keeps the instants** exactly where the values fit into 64 bits and are regular. -/
theorem normalizeIntegerEpoch_floor_iff (u : EpochUnit) (hts : df.ts = vs.map some) (hne : vs ≠ [])
    (hspan : u.Spans vs) :
    (normalizeIntegerEpoch df).map (fun r => r.2.ts) = some (vs.map fun v : ℤ => some ⌊(v : ℚ) / u.perSecond⌋) ↔
      (∀ v ∈ vs, v < 2 ^ 63) ∧ u.Regular vs := by
  have hpos : ∀ v ∈ vs, 0 < v := by
    intro v hv
    have := (hspan v hv).1
    cases u <;> norm_num [EpochUnit.perSecond] at this <;> omega
  rw [normalizeIntegerEpoch_ts hts hne hpos, ← inferEpochDivisor_eq_iff hne hspan]
  by_cases hfit : ∀ v ∈ vs, v < 2 ^ 63
  · rw [if_pos hfit, and_iff_right hfit]
    simp only [Rat.floor_intCast_div_natCast, Option.some.injEq]
    constructor
    · intro h
      obtain ⟨v, hv⟩ := List.exists_mem_of_ne_nil vs hne
      have heq := List.map_inj_left.mp h v hv
      have hone : u.Spans [v] := by simpa [EpochUnit.Spans] using hspan v hv
      exact (ediv_eq_iff hone _ (inferEpochDivisor_mem vs)).mp (Option.some.inj heq)
    · intro h
      rw [h]
  · rw [if_neg hfit]
    exact iff_of_false (by simp) fun h => hfit h.1

def bare (vs : List ℤ) : Frame Unit := ⟨vs.map fun v => ⟨some v, []⟩, ⟨[], Dict.empty⟩⟩

lemma ts_bare (vs : List ℤ) : (bare vs).ts = vs.map some := by
  simp [bare, Frame.ts]

theorem normalizeIntegerEpoch_floor_iff_minute :
    (normalizeIntegerEpoch (bare [1700000000000, 1700000060000])).map (fun r => r.2.ts) =
      some ([1700000000000, 1700000060000].map fun v : ℤ => some ⌊(v : ℚ) / EpochUnit.milliseconds.perSecond⌋) := by
  have hgap : LeastGap [1700000000000, 1700000060000] 60000 := by
    refine ⟨by norm_num, ⟨1700000000000, by simp, by simp⟩, ?_⟩
    simp
  refine (normalizeIntegerEpoch_floor_iff .milliseconds (ts_bare _) (by simp)
    (by simp [EpochUnit.Spans, EpochUnit.perSecond])).mpr ⟨by simp, .inr fun g hg _ => ?_⟩
  rw [hg.eq hgap]
  exact ⟨by decide, .inr (by decide)⟩

/-- Bars of 1000 s in milliseconds: their distance is taken for a second in microseconds. -/
theorem milliseconds_misread : EpochUnit.milliseconds.Spans [1700000000000, 1700001000000] ∧
      (normalizeIntegerEpoch (bare [1700000000000, 1700001000000])).map (fun r => r.2.ts) =
        some [some 1700000, some 1700001] ∧
      ⌊((1700000000000 : ℤ) : ℚ) / EpochUnit.milliseconds.perSecond⌋ = 1700000000 := by
  refine ⟨by simp [EpochUnit.Spans, EpochUnit.perSecond], ?_, ?_⟩
  · have hgap : LeastGap [1700000000000, 1700001000000] 1000000 := by
      refine ⟨by norm_num, ⟨1700000000000, by simp, by simp⟩, ?_⟩
      simp
    have hmax : [(1700000000000 : ℤ), 1700001000000].max? = some 1700001000000 := rfl
    have hdiv : inferEpochDivisor [1700000000000, 1700001000000] = 10 ^ 6 := by
      rw [inferEpochDivisor_of_max hmax, candidateDivisorFromDiffs_getD hgap]
      norm_num
    rw [normalizeIntegerEpoch_ts (ts_bare _) (by simp) (by simp), hdiv]
    simp
  · norm_num [EpochUnit.perSecond]

end Column

/-! ### `_sort_and_dedupe_timestamps`, `_detect_interval_gaps` -/

def keepLast : List (Row α) → List (Row α)
  | [] => []
  | r :: rows => if r.ts ∈ rows.map Row.ts then keepLast rows else r :: keepLast rows

/-- Nulls are sorted first. -/
def Row.tsKey (r : Row α) : WithBot ℤ := r.ts

def sortByTs (rows : List (Row α)) : List (Row α) := rows.insertionSort fun r s => r.tsKey ≤ s.tsKey

def duplicated (ts : List (Option ℤ)) : ℕ := (ts.filter fun t => 1 < ts.count t).length

def duplicateText (n : ℕ) : String := "dropped " ++ toString n ++ " duplicate bars"

def sortAndDedupeTimestamps (df : Frame α) : Frame α :=
  let df := { df with rows := sortByTs df.rows }
  let duplicates := duplicated df.ts
  if duplicates = 0 then df
  else
    { rows := sortByTs (keepLast df.rows)
      report := (df.report.bump "duplicate_ts" duplicates).warn (duplicateText duplicates) }

def detectIntervalGaps (arr : List ℤ) (interval : ℤ) : ℕ × ℕ :=
  (diff arr).foldl (fun acc delta =>
    if delta ≤ 0 then acc
    else if delta > interval then
      (acc.1 + ((delta - interval) / interval).toNat, acc.2 + if (delta - interval) % interval = 0 then 0 else 1)
    else acc) (0, 0)

def missingText (n : ℕ) (interval : ℤ) : String :=
  "detected " ++ toString n ++ " missing bars for interval=" ++ toString interval

def misalignedText (n : ℕ) (interval : ℤ) : String :=
  "detected " ++ toString n ++ " gaps with misaligned boundaries for interval=" ++ toString interval

/-! ### `normalize` -/

def reportGaps (report : ConformanceReport) (gapBars misaligned : ℕ) (interval : ℤ) : ConformanceReport :=
  let report := if gapBars = 0 then report else (report.bump "gap" gapBars).warn (missingText gapBars interval)
  if misaligned = 0 then report else report.warn (misalignedText misaligned interval)

/-- The end of `_normalize_timestamps`. -/
def checkGaps (df : Frame α) : Option ℤ → Frame α
  | none => df
  | some interval =>
    if interval ≤ 0 ∨ df.rows.length < 2 then df
    else
      let gaps := detectIntervalGaps (df.ts.filterMap id) interval
      { df with report := reportGaps df.report gaps.1 gaps.2 interval }

def normalizeTimestamps (df : Frame α) (interval : Option ℤ) : Option (Frame α) :=
  (normalizeIntegerEpoch df).map fun cast =>
    let df := if cast.1 = 0 then cast.2 else { cast.2 with report := cast.2.report.bump "ts_cast" cast.1 }
    if df.rows.isEmpty then df else checkGaps (sortAndDedupeTimestamps df) interval

def Cell.isInf : Cell α → Bool
  | .inf => true
  | _ => false

def Cell.isMissing : Cell α → Bool
  | .null | .nan => true
  | _ => false

def Cell.replaceInf : Cell α → Cell α
  | .inf => .null
  | c => c

def normalizeNonFiniteValues (df : Frame α) : Frame α :=
  let numeric := (df.rows.flatMap Row.cells).filter Prod.fst
  let replacements := (numeric.filter fun c => c.2.isInf).length
  let total := replacements + (numeric.filter fun c => c.2.isMissing).length + (df.rows.filter fun r => r.ts.isNone).length
  let report := if replacements = 0 then df.report
    else df.report.warn ("replaced " ++ toString replacements ++ " +/-inf values with NaN for numeric columns")
  { rows := df.rows.map fun r => { r with cells := r.cells.map fun c => (c.1, if c.1 then c.2.replaceInf else c.2) }
    report := if total = 0 then report else report.bump "non_finite" total }

def normalize (rows : List (Row α)) (interval : Option ℤ) : Option (Frame α) :=
  normalizeTimestamps (normalizeNonFiniteValues ⟨rows, ⟨[], Dict.empty⟩⟩) interval

/-! ### What the passes do to seconds -/

/-- The timestamps that are there. -/
def seconds (rows : List (Row α)) : List ℤ := rows.filterMap Row.ts

def absentBars (a b interval : ℤ) : ℕ :=
  ((Finset.range (b - a).toNat).filter fun k : ℕ => a + (k + 1) * interval < b).card

def gapBetween (interval : ℤ) (p : ℤ × ℤ) : ℕ :=
  if interval ∣ p.2 - p.1 then absentBars p.1 p.2 interval else absentBars p.1 p.2 interval - 1

section Passes

variable {rows : List (Row α)} {vs : List ℤ} {interval : ℤ}

lemma absentBars_eq {a b : ℤ} (hI : 0 < interval) (hab : a < b) :
    absentBars a b interval = ((b - a - 1) / interval).toNat := by
  have hset : (Finset.range (b - a).toNat).filter (fun k : ℕ => a + (k + 1) * interval < b) =
      Finset.range ((b - a - 1) / interval).toNat := by
    ext k
    simp only [Finset.mem_filter, Finset.mem_range]
    have hiff : (k : ℤ) + 1 ≤ (b - a - 1) / interval ↔ ((k : ℤ) + 1) * interval ≤ b - a - 1 :=
      Int.le_ediv_iff_mul_le hI
    have hle : (k : ℤ) + 1 ≤ ((k : ℤ) + 1) * interval := le_mul_of_one_le_right (by omega) (by omega)
    omega
  rw [absentBars, hset, Finset.card_range]

lemma gap_eq_gapBetween {a b : ℤ} (hI : 0 < interval) (hab : a < b) :
    (if b - a > interval then ((b - a - interval) / interval).toNat else 0) = gapBetween interval (a, b) := by
  have hs := Int.mul_ediv_add_emod (b - a) interval
  have hr := Int.emod_lt_of_pos (b - a) hI
  have hr0 := Int.emod_nonneg (b - a) (by omega : interval ≠ 0)
  have hc : (if b - a > interval then ((b - a - interval) / interval).toNat else 0) =
      ((b - a) / interval - 1).toNat := by
    have hsub : (b - a - interval) / interval = (b - a) / interval - 1 := by
      rw [sub_eq_add_neg (b - a), show -interval = interval * (-1) by ring, Int.add_mul_ediv_left _ _ (by omega)]
      rfl
    split_ifs with hgt
    · rw [hsub]
    · have : (b - a) / interval ≤ 1 := by
        rw [← Int.ediv_self (by omega : interval ≠ 0)]
        exact Int.ediv_le_ediv hI (by omega)
      omega
  rw [hc, gapBetween, absentBars_eq hI hab]
  split_ifs with hdvd
  · obtain ⟨k, hk⟩ := hdvd
    have h1 : (b - a - 1) / interval = k - 1 := by
      rw [show b - a - 1 = (interval - 1) + interval * (k - 1) by simp only at hk; rw [hk]; ring,
        Int.add_mul_ediv_left _ _ (by omega), Int.ediv_eq_zero_of_lt (by omega) (by omega), zero_add]
    rw [h1, hk, Int.mul_ediv_cancel_left _ (by omega)]
  · have hne : (b - a) % interval ≠ 0 := fun h => hdvd (Int.dvd_of_emod_eq_zero h)
    have h1 : (b - a - 1) / interval = (b - a) / interval := by
      conv_lhs => rw [← hs]
      rw [show interval * ((b - a) / interval) + (b - a) % interval - 1 =
          ((b - a) % interval - 1) + interval * ((b - a) / interval) by ring,
        Int.add_mul_ediv_left _ _ (by omega), Int.ediv_eq_zero_of_lt (by omega) (by omega), zero_add]
    omega

lemma detectIntervalGaps_fst (hI : 0 < interval) (hs : vs.Pairwise (· < ·)) :
    (detectIntervalGaps vs interval).1 = ((vs.zip vs.tail).map (gapBetween interval)).sum := by
  have hf : ∀ (ds : List ℤ) (acc : ℕ × ℕ), (∀ d ∈ ds, 0 < d) →
      (ds.foldl (fun acc delta =>
        if delta ≤ 0 then acc
        else if delta > interval then
          (acc.1 + ((delta - interval) / interval).toNat, acc.2 + if (delta - interval) % interval = 0 then 0 else 1)
        else acc) acc).1 =
      acc.1 + (ds.map fun d => if d > interval then ((d - interval) / interval).toNat else 0).sum := by
    intro ds
    induction ds with
    | nil => simp
    | cons d ds ih =>
      intro acc hpos
      rw [List.foldl_cons, ih _ fun d hd => hpos d (.tail _ hd), List.map_cons, List.sum_cons,
        if_neg (not_le.mpr (hpos d (by simp)))]
      by_cases hgt : d > interval
      · rw [if_pos hgt, if_pos hgt, Nat.add_assoc]
      · rw [if_neg hgt, if_neg hgt, zero_add]
  rw [detectIntervalGaps, hf _ _ fun d hd => pos_of_mem_diff hs hd, zero_add]
  congr 1
  induction vs with
  | nil => rfl
  | cons a vs ih =>
    cases vs with
    | nil => rfl
    | cons b vs =>
      rw [List.pairwise_cons] at hs
      have hab := hs.1 b (by simp)
      have hc := ih hs.2
      rw [List.tail_cons, List.zip_cons_cons, diff_cons, List.map_cons, List.map_cons, gap_eq_gapBetween hI hab, hc]
      rfl

lemma seconds_cons {r : Row α} {t : ℤ} (ht : r.ts = some t) : seconds (r :: rows) = t :: seconds rows :=
  List.filterMap_cons_some ht

lemma ts_eq_seconds (h : ∀ r ∈ rows, r.ts.isSome) : rows.map Row.ts = (seconds rows).map some := by
  induction rows with
  | nil => rfl
  | cons r rows ih =>
    obtain ⟨t, ht⟩ := Option.isSome_iff_exists.mp (h r (by simp))
    rw [List.map_cons, ih fun s hs => h s (.tail _ hs), seconds_cons ht, ht, List.map_cons]

lemma seconds_keepLast (h : ∀ r ∈ rows, r.ts.isSome) : seconds (keepLast rows) = (seconds rows).dedup := by
  induction rows with
  | nil => rfl
  | cons r rows ih =>
    have hr : ∀ s ∈ rows, s.ts.isSome := fun s hs => h s (.tail _ hs)
    obtain ⟨t, ht⟩ := Option.isSome_iff_exists.mp (h r (by simp))
    have hmem : r.ts ∈ rows.map Row.ts ↔ t ∈ seconds rows := by
      rw [ts_eq_seconds hr, ht]
      simp
    rw [keepLast, seconds_cons ht]
    by_cases hin : r.ts ∈ rows.map Row.ts
    · rw [if_pos hin, ih hr, List.dedup_cons_of_mem (hmem.mp hin)]
    · rw [if_neg hin, List.dedup_cons_of_notMem fun h => hin (hmem.mpr h), ← ih hr]
      exact seconds_cons ht

lemma keepLast_subset (rows : List (Row α)) : keepLast rows ⊆ rows := by
  induction rows with
  | nil => simp [keepLast]
  | cons r rows ih =>
    rw [keepLast]
    split
    · exact fun s hs => .tail _ (ih hs)
    · exact List.cons_subset_cons _ ih

lemma sortByTs_perm (rows : List (Row α)) : (sortByTs rows).Perm rows := List.perm_insertionSort _ rows

lemma seconds_sortByTs (rows : List (Row α)) :
    (seconds (sortByTs rows)).Perm (seconds rows) ∧ (seconds (sortByTs rows)).Pairwise (· ≤ ·) := by
  refine ⟨(sortByTs_perm rows).filterMap _, ?_⟩
  have hs : (sortByTs rows).Pairwise fun r s => r.tsKey ≤ s.tsKey := List.pairwise_insertionSort _ rows
  rw [seconds, List.pairwise_filterMap]
  refine hs.imp fun {r s} hle a ha b hb => ?_
  simp only [Row.tsKey, ha, hb] at hle
  exact WithBot.coe_le_coe.mp hle

lemma duplicated_eq (vs : List ℤ) : (vs.filter fun t => 1 < vs.count t).length =
      (vs.length - vs.dedup.length) + (vs.dedup.filter fun t => 1 < vs.count t).length := by
  have hs : (vs.dedup.filter fun t => ¬ 1 < vs.count t).Perm (vs.filter fun t => ¬ 1 < vs.count t) := by
    refine (List.perm_ext_iff_of_nodup (vs.nodup_dedup.filter _) ?_).mpr fun t => by simp
    rw [List.nodup_iff_count_le_one]
    intro t
    by_cases ht : 1 < vs.count t
    · rw [List.count_eq_zero_of_not_mem (by simp [ht])]
      omega
    · have := (List.filter_sublist (p := fun t => ¬ 1 < vs.count t) (l := vs)).count_le t
      omega
  have hlen := hs.length_eq
  have h1 := List.length_eq_length_filter_add (l := vs) fun t => decide (1 < vs.count t)
  have h2 := List.length_eq_length_filter_add (l := vs.dedup) fun t => decide (1 < vs.count t)
  have hle : vs.dedup.length ≤ vs.length := vs.dedup_sublist.length_le
  simp only [← decide_not] at h1 h2
  omega

lemma duplicated_map_some (vs : List ℤ) : duplicated (vs.map some) = (vs.filter fun t => 1 < vs.count t).length := by
  have hc : ∀ t : ℤ, (vs.map some).count (some t) = vs.count t :=
    fun t => List.count_map_of_injective vs some (Option.some_injective ℤ) t
  rw [duplicated, List.filter_map, List.length_map]
  simp [Function.comp_def, hc]

lemma sortAndDedupeTimestamps_spec (df : Frame α) (h : ∀ r ∈ df.rows, r.ts.isSome) :
    (∀ r ∈ (sortAndDedupeTimestamps df).rows, r.ts.isSome) ∧
      (seconds (sortAndDedupeTimestamps df).rows).Perm (seconds df.rows).dedup ∧
      (seconds (sortAndDedupeTimestamps df).rows).Pairwise (· < ·) ∧
      ∀ key, (sortAndDedupeTimestamps df).report.count key = df.report.count key + if key = "duplicate_ts" then
          ((seconds df.rows).filter fun t => 1 < (seconds df.rows).count t).length else 0 := by
  set sorted := sortByTs df.rows with hsr
  obtain ⟨hp, hle⟩ := seconds_sortByTs df.rows
  have hs : ∀ r ∈ sorted, r.ts.isSome := fun r hr => h r ((sortByTs_perm _).mem_iff.mp hr)
  have hdup : duplicated (sorted.map Row.ts) =
      ((seconds df.rows).filter fun t => 1 < (seconds df.rows).count t).length := by
    rw [ts_eq_seconds hs, duplicated_map_some]
    have hc : ∀ t, (seconds sorted).count t = (seconds df.rows).count t := fun t => hp.count_eq t
    simp only [hc]
    exact (hp.filter _).length_eq
  have hst : ∀ {us : List ℤ}, us.Pairwise (· ≤ ·) → us.Nodup → us.Pairwise (· < ·) := fun hus hn =>
    (hus.and hn).imp fun h => lt_of_le_of_ne h.1 h.2
  rw [sortAndDedupeTimestamps]
  simp only [Frame.ts, ← hsr, hdup]
  split_ifs with hz
  · have hn : (seconds df.rows).Nodup := by
      rw [List.nodup_iff_count_le_one]
      intro t
      by_contra hlt
      have hmem : t ∈ (seconds df.rows).filter fun t => 1 < (seconds df.rows).count t := by
        rw [List.mem_filter]
        exact ⟨List.count_pos_iff.mp (by omega), by simpa using hlt⟩
      rw [List.eq_nil_of_length_eq_zero hz] at hmem
      simp at hmem
    refine ⟨hs, ?_, hst hle (hp.nodup_iff.mpr hn), fun key => by simp [hz]⟩
    rw [hn.dedup]
    exact hp
  · obtain ⟨hp', hle'⟩ := seconds_sortByTs (keepLast sorted)
    rw [seconds_keepLast hs] at hp'
    refine ⟨fun r hr => hs r (keepLast_subset _ ((sortByTs_perm _).mem_iff.mp hr)), ?_, ?_, fun key => ?_⟩
    · exact hp'.trans hp.dedup
    · exact hst hle' (hp'.nodup_iff.mpr (List.nodup_dedup _))
    · rw [ConformanceReport.count_warn, ConformanceReport.count_bump]

/-- Seconds before 2286-11-20, of both signs. -/
def WholeSeconds (rows : List (Row α)) : Prop := ∀ r ∈ rows, ∃ t, r.ts = some t ∧ |t| < 10 ^ 10

lemma normalizeIntegerEpoch_seconds {df : Frame α} (h : WholeSeconds df.rows) :
    normalizeIntegerEpoch df = some (0, df) := by
  have hs : ∀ r ∈ df.rows, r.ts.isSome := by
    intro r hr
    obtain ⟨t, ht, -⟩ := h r hr
    simp [ht]
  have hts : df.ts = (seconds df.rows).map some := ts_eq_seconds hs
  have hsec : ∀ t ∈ seconds df.rows, |t| < 10 ^ 10 := by
    intro t ht
    obtain ⟨r, hr, hrt⟩ := List.mem_filterMap.mp ht
    obtain ⟨t', ht', hlt⟩ := h r hr
    rw [ht', Option.some.injEq] at hrt
    rwa [← hrt]
  have hc : df.rows.map (fun r => r.mapTs castInt64) = df.rows := by
    conv_rhs => rw [← List.map_id df.rows]
    refine List.map_congr_left fun r hr => ?_
    obtain ⟨t, ht, hlt⟩ := h r hr
    have hfit := abs_lt.mp hlt
    have hrow : r = { r with ts := some t } := by rw [← ht]
    rw [Row.mapTs, ht, Option.bind_some, castInt64_of_fits ⟨by omega, by omega⟩, id, ← hrow]
  have hdiv : inferEpochDivisor (((seconds df.rows).map absInt64).filter (0 < ·)) = 1 := by
    cases hmax : (((seconds df.rows).map absInt64).filter (0 < ·)).max? with
    | none => simp [inferEpochDivisor, hmax]
    | some m =>
      obtain ⟨t, ht, htm⟩ := List.mem_map.mp (List.mem_of_mem_filter (List.max?_eq_some_iff.mp hmax).1)
      have hlt := hsec t ht
      rw [absInt64, if_neg (by have := abs_lt.mp hlt; omega)] at htm
      rw [inferEpochDivisor_of_max hmax, if_pos (by omega)]
  have hmm : ((seconds df.rows).map some).mapM id = some (seconds df.rows) := by
    induction seconds df.rows with
    | nil => rfl
    | cons t ts ih => rw [List.map_cons, List.mapM_cons, ih]; rfl
  simp only [normalizeIntegerEpoch, dropInvalid_eq hts, hc]
  split_ifs with hempty
  · rfl
  · simp only [nonZeroEpochValues, hts, hmm, Option.map_some, hdiv, if_true]

lemma ts_normalizeNonFiniteValues (df : Frame α) : (normalizeNonFiniteValues df).ts = df.ts := by
  simp [normalizeNonFiniteValues, Frame.ts]

lemma count_normalizeNonFiniteValues (df : Frame α) {key : String} (h : key ≠ "non_finite") :
    (normalizeNonFiniteValues df).report.count key = df.report.count key := by
  unfold normalizeNonFiniteValues
  simp only
  split_ifs <;> simp [ConformanceReport.count_bump, h]

/-- What the report says of the rows: the dropped and repeated ones, and the bars of the grid that are absent between two. -/
structure Reported (rows : List (Row α)) (interval : ℤ) (out : Frame α) : Prop where
  dense : out.ts = (seconds out.rows).map some
  increasing : (seconds out.rows).Pairwise (· < ·)
  kept : ∀ t, t ∈ seconds out.rows ↔ t ∈ seconds rows
  duplicates : out.report.count "duplicate_ts" = (rows.length - out.rows.length) +
    ((seconds out.rows).filter fun t => 1 < (seconds rows).count t).length
  gaps : out.report.count "gap" = (((seconds out.rows).zip (seconds out.rows).tail).map (gapBetween interval)).sum

lemma count_reportGaps (report : ConformanceReport) (gapBars misaligned : ℕ) (interval : ℤ) (key : String) :
    (reportGaps report gapBars misaligned interval).count key =
      report.count key + if key = "gap" then gapBars else 0 := by
  unfold reportGaps
  by_cases h : gapBars = 0
  · by_cases h' : misaligned = 0
    · simp [h, h']
    · simp [h, h']
  · by_cases h' : misaligned = 0
    · simp [h, h', ConformanceReport.count_bump]
    · simp [h, h', ConformanceReport.count_bump]

lemma isSome_of_wholeSeconds (h : WholeSeconds rows) : ∀ r ∈ rows, r.ts.isSome := by
  intro r hr
  obtain ⟨t, ht, -⟩ := h r hr
  rw [ht]
  rfl

lemma length_seconds (h : ∀ r ∈ rows, r.ts.isSome) : (seconds rows).length = rows.length := by
  have := congrArg List.length (ts_eq_seconds h)
  simpa using this.symm

lemma checkGaps_spec (df : Frame α) (hI : 0 < interval) (h : ∀ r ∈ df.rows, r.ts.isSome)
    (hsr : (seconds df.rows).Pairwise (· < ·)) :
    (checkGaps df (some interval)).rows = df.rows ∧ ∀ key, (checkGaps df (some interval)).report.count key =
      df.report.count key + if key = "gap" then
        (((seconds df.rows).zip (seconds df.rows).tail).map (gapBetween interval)).sum else 0 := by
  have hids : df.ts.filterMap id = seconds df.rows := by simp [Frame.ts, seconds, List.filterMap_map]
  unfold checkGaps
  by_cases hs : df.rows.length < 2
  · have ht : (seconds df.rows).tail = [] := by
      rw [← List.length_eq_zero_iff, List.length_tail, length_seconds h]
      omega
    simp [hs, ht]
  · simp only [not_le.mpr hI, hs, or_self, if_false, hids, count_reportGaps, detectIntervalGaps_fst hI hsr]
    exact ⟨trivial, fun key => trivial⟩

lemma normalizeTimestamps_reported {df : Frame α} (hI : 0 < interval) (h : WholeSeconds df.rows)
    (hdup : df.report.count "duplicate_ts" = 0) (hgap : df.report.count "gap" = 0) :
    ∃ out, normalizeTimestamps df (some interval) = some out ∧ Reported df.rows interval out := by
  have hs := isSome_of_wholeSeconds h
  simp only [normalizeTimestamps, normalizeIntegerEpoch_seconds h, Option.map_some, if_true]
  split_ifs with hempty
  · have hnil : df.rows = [] := List.isEmpty_iff.mp hempty
    refine ⟨df, rfl, ⟨ts_eq_seconds hs, ?_, fun t => Iff.rfl, ?_, ?_⟩⟩ <;> simp [hnil, seconds, hdup, hgap]
  · obtain ⟨hs', hp, hsr, hc⟩ := sortAndDedupeTimestamps_spec df hs
    obtain ⟨hrows, hg⟩ := checkGaps_spec _ hI hs' hsr
    refine ⟨_, rfl, ⟨?_, ?_, fun t => ?_, ?_, ?_⟩⟩
    · rw [Frame.ts, hrows]
      exact ts_eq_seconds hs'
    · rw [hrows]
      exact hsr
    · rw [hrows, hp.mem_iff, List.mem_dedup]
    · rw [hg, hrows, hc, hdup, if_pos rfl, if_neg (by decide), zero_add, add_zero, duplicated_eq,
        length_seconds hs, ← length_seconds hs', hp.length_eq, (hp.filter _).length_eq]
    · rw [hg, hrows, hc, hgap, if_neg (by decide), if_pos rfl, zero_add, zero_add]

end Passes

/-- **The report says what was dropped and what is absent**, as it counts them. -/
theorem normalize_reported (rows : List (Row α)) {interval : ℤ} (hI : 0 < interval) (h : WholeSeconds rows) :
    ∃ out, normalize rows (some interval) = some out ∧ Reported rows interval out := by
  set df := normalizeNonFiniteValues (⟨rows, ⟨[], .empty⟩⟩ : Frame α) with hdf
  have hts : df.rows.map Row.ts = rows.map Row.ts := ts_normalizeNonFiniteValues _
  have hlen : df.rows.length = rows.length := by simpa using congrArg List.length hts
  have hsec : seconds df.rows = seconds rows := by
    have := congrArg (List.filterMap id) hts
    simpa [seconds, List.filterMap_map] using this
  have hwhole : WholeSeconds df.rows := by
    intro r hr
    have hmem : r.ts ∈ rows.map Row.ts := hts ▸ List.mem_map_of_mem hr
    obtain ⟨s, hs, hst⟩ := List.mem_map.mp hmem
    exact hst ▸ h s hs
  have hcount : ∀ key, key ≠ "non_finite" → df.report.count key = 0 :=
    fun key hkey => count_normalizeNonFiniteValues _ hkey
  obtain ⟨out, hout, hrep⟩ := normalizeTimestamps_reported hI hwhole (hcount _ (by decide)) (hcount _ (by decide))
  refine ⟨out, hout, ⟨hrep.dense, hrep.increasing, ?_, ?_, hrep.gaps⟩⟩
  · rw [← hsec]
    exact hrep.kept
  · rw [← hsec, ← hlen]
    exact hrep.duplicates

theorem normalize_reported_repeated :
    ∃ out, normalize (bare [1, 2, 2, 3]).rows (some 1) = some out ∧ Reported (bare [1, 2, 2, 3]).rows 1 out :=
  normalize_reported _ (by decide) (by simp [WholeSeconds, bare])

/-- One row of four is dropped, and two are counted; between 0 and 25 no bar of the grid is absent from an aligned
distance, and one is counted; a second of the year 2286 is read as a millisecond. -/
theorem report_not_exact_counts :
    (normalize (bare [1, 2, 2, 3]).rows (some 1)).map (fun out => (out.ts, out.report.count "duplicate_ts")) =
        some ([some 1, some 2, some 3], 2) ∧
      (normalize (bare [0, 25]).rows (some 10)).map (fun out => (out.ts, out.report.count "gap")) =
        some ([some 0, some 25], 1) ∧
      (normalize (bare [10 ^ 10]).rows (some 10)).map Frame.ts = some [some (10 ^ 7)] := by
  decide +kernel

end Qmtl.Runtime.Conformance

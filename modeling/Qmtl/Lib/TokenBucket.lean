import Mathlib.Tactic

/-! Token buckets: a level that refills at a rate up to a capacity, and from which each grant takes one. -/

namespace Qmtl.Lib.TokenBucket

variable {rate cap level : ℚ} {grants : List ℕ} {now later : ℕ}

def within (grants : List ℕ) (a b : ℕ) : ℕ := grants.countP fun g => a ≤ g ∧ g ≤ b

def Limited (rate cap : ℚ) (grants : List ℕ) : Prop :=
  ∀ a b : ℕ, a ≤ b → (within grants a b : ℚ) ≤ cap + rate * (b - a)

structure Stands (rate cap : ℚ) (grants : List ℕ) (now : ℕ) (level : ℚ) : Prop where
  past : ∀ g ∈ grants, g ≤ now
  since : ∀ a ≤ now, (within grants a now : ℚ) + level ≤ cap + rate * (now - a)
  limited : Limited rate cap grants

lemma within_concat (grants : List ℕ) (g a b : ℕ) :
    within (grants ++ [g]) a b = within grants a b + if a ≤ g ∧ g ≤ b then 1 else 0 := by
  unfold within
  simp

lemma within_eq_zero {a b : ℕ} (h : ∀ g ∈ grants, g < a) : within grants a b = 0 := by
  unfold within
  refine List.countP_eq_zero.mpr fun g hg => ?_
  have hlt := h g hg
  simp only [decide_eq_true_eq]
  omega

lemma within_eq_of_past {a b : ℕ} (h : ∀ g ∈ grants, g ≤ now) (hb : now ≤ b) : within grants a b = within grants a now := by
  unfold within
  refine List.countP_congr fun g hg => ?_
  have hle := h g hg
  simp only [decide_eq_true_eq]
  omega

lemma stands_nil (hr : 0 ≤ rate) (hcap : 0 ≤ cap) (now : ℕ) : Stands rate cap [] now cap := by
  have hf : ∀ a b : ℕ, a ≤ b → (0 : ℚ) ≤ rate * (b - a) := fun a b hab =>
    mul_nonneg hr (sub_nonneg.mpr (Nat.cast_le.mpr hab))
  refine ⟨fun g hg => absurd hg List.not_mem_nil, fun a ha => ?_, fun a b hab => ?_⟩
  · have h := hf a now ha
    simp only [within, List.countP_nil, Nat.cast_zero]
    linarith
  · have h := hf a b hab
    simp only [within, List.countP_nil, Nat.cast_zero]
    linarith

/-- **Time passes**: the bucket fills up, but no higher than its capacity. -/
theorem Stands.refill (h : Stands rate cap grants now level) (hr : 0 ≤ rate) (hlater : now ≤ later) :
    Stands rate cap grants later (min cap (level + rate * (later - now))) := by
  refine ⟨fun g hg => (h.past g hg).trans hlater, fun a ha => ?_, h.limited⟩
  rw [within_eq_of_past h.past hlater]
  rcases le_or_gt a now with ha' | ha'
  · have hs := h.since a ha'
    have hmin := min_le_right cap (level + rate * (later - now))
    linarith
  · have hz : within grants a now = 0 := within_eq_zero fun g hg => (h.past g hg).trans_lt ha'
    have hmin := min_le_left cap (level + rate * (later - now))
    have hf : (0 : ℚ) ≤ rate * (later - a) := mul_nonneg hr (sub_nonneg.mpr (Nat.cast_le.mpr ha))
    rw [hz, Nat.cast_zero]
    linarith

lemma Stands.full (h : Stands rate cap grants now level) (hrt : 0 ≤ rate) (hlater : now ≤ later)
    (hf : cap ≤ level + rate * (later - now)) : Stands rate cap grants later cap := by
  have hr := h.refill hrt hlater
  rwa [min_eq_left hf] at hr

lemma Stands.take (h : Stands rate cap grants now level) (hr : 0 ≤ rate) (hl : 1 ≤ level) :
    Stands rate cap (grants ++ [now]) now (level - 1) := by
  have hs : ∀ a ≤ now, (within (grants ++ [now]) a now : ℚ) + (level - 1) ≤ cap + rate * (now - a) := by
    intro a ha
    have hold := h.since a ha
    rw [within_concat, if_pos ⟨ha, le_refl now⟩]
    push_cast
    linarith
  refine ⟨fun g hg => ?_, hs, fun a b hab => ?_⟩
  · rcases List.mem_append.mp hg with hg | hg
    · exact h.past g hg
    · exact le_of_eq (List.mem_singleton.mp hg)
  · by_cases hin : a ≤ now ∧ now ≤ b
    · have hp : ∀ g ∈ grants ++ [now], g ≤ now := by
        intro g hg
        rcases List.mem_append.mp hg with hg | hg
        · exact h.past g hg
        · exact le_of_eq (List.mem_singleton.mp hg)
      have hnow := hs a hin.1
      have hf : rate * ((now : ℚ) - a) ≤ rate * (b - a) := by
        refine mul_le_mul_of_nonneg_left ?_ hr
        have hc : (now : ℚ) ≤ b := Nat.cast_le.mpr hin.2
        linarith
      rw [within_eq_of_past hp hin.2]
      linarith
    · rw [within_concat, if_neg hin, Nat.add_zero]
      exact h.limited a b hab

end Qmtl.Lib.TokenBucket

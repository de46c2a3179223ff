import Mathlib.Data.Rat.Defs
import Mathlib.Algebra.Order.Ring.Rat
import Mathlib.Data.Int.Log
import Mathlib.Data.Rat.Floor
import Mathlib.Tactic

/-!
Floating-point numbers as comparisons see them: rationals, the two infinities and `nan`, which no
comparison holds of. The quotient of two integers is rounded to such a number.
-/

namespace Qmtl.Lib

inductive Double where
  | finite (q : ℚ)
  | posInf
  | negInf
  | nan
  deriving DecidableEq

namespace Double

def lt : Double → Double → Bool
  | finite a, finite b => a < b
  | finite _, posInf => true
  | negInf, finite _ => true
  | negInf, posInf => true
  | _, _ => false

def le (a b : Double) : Bool := a ≠ nan && b ≠ nan && !lt b a

def abs : Double → Double
  | finite a => finite |a|
  | negInf => posInf
  | x => x

/-- Neither infinite nor `nan`. -/
def IsFinite : Double → Prop
  | finite _ => True
  | _ => False

lemma lt_irrefl (a : Double) : lt a a = false := by
  cases a <;> simp [lt]

lemma lt_trans {a b c : Double} (hab : lt a b) (hbc : lt b c) : lt a c := by
  cases a <;> cases b <;> simp [lt] at hab <;> cases c <;> simp [lt] at hbc ⊢
  exact hab.trans hbc

lemma trichotomy {a b : Double} (ha : a ≠ nan) (hb : b ≠ nan) : lt a b ∨ a = b ∨ lt b a := by
  cases a <;> cases b <;> simp [lt] at ha hb ⊢
  exact lt_trichotomy _ _

/-! ### Rounding -/

def roundEven (q : ℚ) : ℤ :=
  if q - ⌊q⌋ < 1 / 2 then ⌊q⌋
  else if 1 / 2 < q - ⌊q⌋ then ⌊q⌋ + 1
  else if ⌊q⌋ % 2 = 0 then ⌊q⌋ else ⌊q⌋ + 1

def lastBit (q : ℚ) : ℤ := max (Int.log 2 |q| - 52) (-1074)

def nearest (q : ℚ) : ℚ := roundEven (q / 2 ^ lastBit q) * 2 ^ lastBit q

def trueDivide (a b : ℤ) : Option ℚ :=
  let q := nearest (a / b)
  if |q| < 2 ^ 1024 then some q else none

def truncate (q : ℚ) : ℤ := if 0 ≤ q then ⌊q⌋ else ⌈q⌉

lemma le_roundEven {n : ℤ} {q : ℚ} (h : n ≤ q) : n ≤ roundEven q := by
  have hf : n ≤ ⌊q⌋ := Int.le_floor.mpr h
  unfold roundEven
  split_ifs <;> omega

lemma roundEven_lt {n : ℤ} {q : ℚ} (h : q < n - 1 / 2) : roundEven q < n := by
  have hf : ⌊q⌋ < n := Int.floor_lt.mpr (by linarith)
  have hn : ¬ q - ⌊q⌋ < 1 / 2 → ⌊q⌋ + 1 < n := by
    intro hh
    have : ((⌊q⌋ + 1 : ℤ) : ℚ) < n := by
      push_cast
      linarith
    exact_mod_cast this
  unfold roundEven
  split_ifs with hlow
  · exact hf
  · exact hn hlow
  · exact hf
  · exact hn hlow

lemma nearest_nonneg {q : ℚ} (h : 0 ≤ q) : 0 ≤ nearest q := by
  have hs : ((0 : ℤ) : ℚ) ≤ q / 2 ^ lastBit q := by
    positivity
  have hr : (0 : ℚ) ≤ roundEven (q / 2 ^ lastBit q) := by exact_mod_cast le_roundEven hs
  exact mul_nonneg hr (by positivity)

@[simp] lemma nearest_zero : nearest 0 = 0 := by simp [nearest, roundEven]

lemma floor_nearest {a b : ℤ} (ha : 0 ≤ a) (hlt : a < 2 ^ 53) (hb : 0 < b) : ⌊nearest (a / b)⌋ = a / b := by
  have hbq : (0 : ℚ) < b := by exact_mod_cast hb
  have hb1 : (1 : ℚ) ≤ b := by exact_mod_cast hb
  have haq : (a : ℚ) < 2 ^ 53 := by exact_mod_cast hlt
  rcases ha.eq_or_lt with rfl | hap
  · simp
  have ha' : (0 : ℚ) < a := by exact_mod_cast hap
  have hx : (0 : ℚ) < a / b := div_pos ha' hbq
  -- the bits of the rounded quotient reach below the point
  have hlog : Int.log 2 ((a : ℚ) / b) < 53 := by
    rw [← Int.lt_zpow_iff_log_lt (by norm_num) hx]
    calc (a : ℚ) / b ≤ a := div_le_self ha'.le hb1
      _ < 2 ^ 53 := haq
      _ = ((2 : ℕ) : ℚ) ^ (53 : ℤ) := by norm_num
  obtain ⟨k, hk⟩ : ∃ k : ℕ, lastBit ((a : ℚ) / b) = -(k : ℤ) := by
    refine ⟨(-lastBit ((a : ℚ) / b)).toNat, ?_⟩
    unfold lastBit
    rw [abs_of_pos hx]
    omega
  have hr : nearest ((a : ℚ) / b) = (roundEven ((a : ℚ) / b * 2 ^ k) : ℚ) / 2 ^ k := by
    rw [nearest, hk, zpow_neg, zpow_natCast, div_inv_eq_mul, div_eq_mul_inv _ ((2 : ℚ) ^ k)]
  have hpow : (0 : ℚ) < 2 ^ k := by positivity
  have hf : ((a / b : ℤ) : ℚ) ≤ a / b := by
    rw [le_div_iff₀ hbq]
    exact_mod_cast Int.ediv_mul_le a hb.ne'
  have hbl : (a : ℚ) / b ≤ (a / b : ℤ) + 1 - 1 / b := by
    have : a ≤ (a / b + 1) * b - 1 := by
      have := Int.lt_ediv_add_one_mul_self a hb
      omega
    have : (a : ℚ) ≤ (((a / b : ℤ) : ℚ) + 1) * b - 1 := by exact_mod_cast this
    field_simp
    linarith
  -- the scaled quotient is more than one half below the next integer
  have hnx : (a : ℚ) / b * 2 ^ k < ((a / b + 1) * 2 ^ k : ℤ) - 1 / 2 := by
    push_cast
    by_cases hn : (b : ℚ) < 2 ^ (k + 1)
    · have hhl : 1 / 2 < 1 / (b : ℚ) * 2 ^ k := by
        rw [one_div_mul_eq_div, lt_div_iff₀ hbq]
        rw [pow_succ] at hn
        linarith
      have := mul_le_mul_of_nonneg_right hbl hpow.le
      linarith
    · have hs : 53 ≤ k := by
        by_contra hne
        have hl : Int.log 2 ((a : ℚ) / b) = 52 - k := by
          unfold lastBit at hk
          rw [abs_of_pos hx] at hk
          omega
        have hle := Int.zpow_log_le_self (b := 2) (by norm_num) hx
        rw [hl, le_div_iff₀ hbq] at hle
        have hsp : ((2 : ℕ) : ℚ) ^ ((52 : ℤ) - k) * 2 ^ (k + 1) = 2 ^ 53 := by
          rw [← zpow_natCast (2 : ℚ) (k + 1), Nat.cast_ofNat, ← zpow_add₀ (by norm_num)]
          rw [show (52 : ℤ) - k + (k + 1 : ℕ) = (53 : ℕ) by push_cast; ring, zpow_natCast]
        have := mul_le_mul_of_nonneg_left (not_lt.mp hn) (zpow_nonneg (by norm_num : (0 : ℚ) ≤ (2 : ℕ)) (52 - k))
        linarith
      have hsm : (a : ℚ) / b * 2 ^ k < 2 ^ 52 := by
        rw [div_mul_eq_mul_div, div_lt_iff₀ hbq]
        have := mul_lt_mul_of_pos_right haq hpow
        rw [not_lt, pow_succ] at hn
        linarith
      have hq : (0 : ℚ) ≤ (a / b : ℤ) := by exact_mod_cast Int.ediv_nonneg ha hb.le
      have := mul_nonneg hq hpow.le
      have : (2 : ℚ) ^ 53 ≤ 2 ^ k := pow_le_pow_right₀ (by norm_num) hs
      linarith
  have hlow : (a / b) * 2 ^ k ≤ roundEven ((a : ℚ) / b * 2 ^ k) := by
    refine le_roundEven ?_
    push_cast
    exact mul_le_mul_of_nonneg_right hf hpow.le
  have hh := roundEven_lt hnx
  rw [hr, Int.floor_eq_iff, le_div_iff₀ hpow, div_lt_iff₀ hpow]
  exact ⟨by exact_mod_cast hlow, by exact_mod_cast hh⟩

@[simp] lemma trueDivide_zero (a : ℤ) : trueDivide a 0 = some 0 := by simp [trueDivide]

@[simp] lemma zero_trueDivide (b : ℤ) : trueDivide 0 b = some 0 := by simp [trueDivide]

@[simp] lemma truncate_zero : truncate 0 = 0 := by simp [truncate]

lemma truncate_nonneg {a b : ℤ} (ha : 0 ≤ a) (hb : 0 ≤ b) {q : ℚ} (h : trueDivide a b = some q) : 0 ≤ truncate q := by
  unfold trueDivide at h
  dsimp only at h
  split_ifs at h
  have hpos : 0 ≤ nearest (a / b) := nearest_nonneg (div_nonneg (by exact_mod_cast ha) (by exact_mod_cast hb))
  rw [← Option.some.inj h, truncate, if_pos hpos]
  exact Int.floor_nonneg.mpr hpos

lemma trueDivide_eq_some {a b : ℤ} (ha : 0 ≤ a) (hlt : a < 2 ^ 53) (hb : 0 < b) :
    ∃ q, trueDivide a b = some q ∧ truncate q = a / b := by
  have hf := floor_nearest ha hlt hb
  have hpos : 0 ≤ nearest (a / b) := nearest_nonneg (div_nonneg (by exact_mod_cast ha) (by exact_mod_cast hb.le))
  have hle : a / b ≤ a := Int.ediv_le_self b ha
  have hbn : nearest (a / b) < 2 ^ 1024 := by
    have hn := Int.lt_floor_add_one (nearest ((a : ℚ) / b))
    rw [hf] at hn
    have hmax : a / b + 1 ≤ (2 : ℤ) ^ 53 := by omega
    calc nearest ((a : ℚ) / b) < (a / b : ℤ) + 1 := hn
      _ ≤ 2 ^ 53 := by exact_mod_cast hmax
      _ < 2 ^ 1024 := pow_lt_pow_right₀ (by norm_num) (by norm_num)
  refine ⟨nearest (a / b), ?_, ?_⟩
  · simp [trueDivide, abs_of_nonneg hpos, if_pos hbn]
  · rw [truncate, if_pos hpos, hf]

end Double

end Qmtl.Lib

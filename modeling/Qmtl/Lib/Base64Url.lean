import Mathlib.Tactic

/-!
Base64 with the alphabet that is safe in URLs, and without padding.
-/

namespace Qmtl.Lib.Base64Url

def alphabet : List Char := "ABCDEFGHIJKLMNOPQRSTUVWXYZabcdefghijklmnopqrstuvwxyz0123456789-_".toList

def symbol (n : ℕ) : Char := alphabet.getD n 'A'

def value (c : Char) : Option ℕ := alphabet.idxOf? c

def encode : List UInt8 → List Char
  | [] => []
  | [a] => [symbol (a.toNat / 4), symbol (a.toNat % 4 * 16)]
  | [a, b] => [symbol (a.toNat / 4), symbol (a.toNat % 4 * 16 + b.toNat / 16), symbol (b.toNat % 16 * 4)]
  | a :: b :: c :: rest =>
    symbol (a.toNat / 4) :: symbol (a.toNat % 4 * 16 + b.toNat / 16) ::
      symbol (b.toNat % 16 * 4 + c.toNat / 64) :: symbol (c.toNat % 64) :: encode rest

def decode : List Char → Option (List UInt8)
  | [] => some []
  | [_] => none
  | [p, q] => do
    let a ← value p
    let b ← value q
    return [UInt8.ofNat (a * 4 + b / 16)]
  | [p, q, r] => do
    let a ← value p
    let b ← value q
    let c ← value r
    return [UInt8.ofNat (a * 4 + b / 16), UInt8.ofNat (b % 16 * 16 + c / 4)]
  | p :: q :: r :: t :: rest => do
    let a ← value p
    let b ← value q
    let c ← value r
    let d ← value t
    let bytes ← decode rest
    return UInt8.ofNat (a * 4 + b / 16) :: UInt8.ofNat (b % 16 * 16 + c / 4) :: UInt8.ofNat (c % 4 * 64 + d) :: bytes

lemma alphabet_codes : alphabet.map Char.toNat =
    List.range' 65 26 ++ (List.range' 97 26 ++ (List.range' 48 10 ++ [45, 95])) := by
  have hletters : alphabet = _ := String.toList_ofList
  rw [hletters]
  decide +kernel

lemma alphabet_nodup : alphabet.Nodup := by
  refine List.Nodup.of_map Char.toNat ?_
  rw [alphabet_codes]
  simp only [List.nodup_append, List.mem_append, List.mem_range'_1, List.mem_cons, List.not_mem_nil, or_false]
  have hr : ∀ s n, (List.range' s n).Nodup := fun s n => List.nodup_range' 1
  refine ⟨hr _ _, ⟨hr _ _, ⟨hr _ _, by simp, ?_⟩, ?_⟩, ?_⟩ <;> omega

lemma value_symbol : ∀ n < 64, value (symbol n) = some n := by
  intro n hn
  have hlen : n < alphabet.length := by rwa [← List.length_map Char.toNat, alphabet_codes]
  rw [value, symbol, List.getD_eq_getElem?_getD, List.getElem?_eq_getElem hlen, Option.getD_some,
    List.idxOf?_eq_some_iff]
  refine ⟨hlen, rfl, fun j hj heq => ?_⟩
  exact hj.ne (alphabet_nodup.getElem_inj_iff.mp heq)

lemma symbol_mem (n : ℕ) : symbol n ∈ alphabet := by
  unfold symbol
  rw [List.getD_eq_getElem?_getD]
  cases h : alphabet[n]? with
  | none =>
    have hletters : alphabet = _ := String.toList_ofList
    rw [hletters]
    exact .head _
  | some c => exact List.mem_of_getElem? h

lemma mem_of_mem_encode {bytes : List UInt8} {c : Char} (h : c ∈ encode bytes) : c ∈ alphabet := by
  fun_induction encode bytes with
  | case1 => cases h
  | case2 a =>
    simp only [List.mem_cons, List.not_mem_nil, or_false] at h
    rcases h with rfl | rfl <;> exact symbol_mem _
  | case3 a b =>
    simp only [List.mem_cons, List.not_mem_nil, or_false] at h
    rcases h with rfl | rfl | rfl <;> exact symbol_mem _
  | case4 a b c' rest ih =>
    simp only [List.mem_cons] at h
    rcases h with rfl | rfl | rfl | rfl | h
    exacts [symbol_mem _, symbol_mem _, symbol_mem _, symbol_mem _, ih h]

lemma ofNat_eq {a : UInt8} {n : ℕ} (h : n = a.toNat) : UInt8.ofNat n = a := by
  rw [h, UInt8.ofNat_toNat]

lemma decode_encode (bytes : List UInt8) : decode (encode bytes) = some bytes := by
  fun_induction encode bytes with
  | case1 => rfl
  | case2 a =>
    have ha := a.toNat_lt
    simp only [decode, value_symbol (a.toNat / 4) (by omega), value_symbol (a.toNat % 4 * 16) (by omega),
      Option.bind_eq_bind, Option.bind_some, Option.pure_def]
    rw [ofNat_eq (by omega : a.toNat / 4 * 4 + a.toNat % 4 * 16 / 16 = a.toNat)]
  | case3 a b =>
    have ha := a.toNat_lt
    have hb := b.toNat_lt
    simp only [decode, value_symbol (a.toNat / 4) (by omega),
      value_symbol (a.toNat % 4 * 16 + b.toNat / 16) (by omega), value_symbol (b.toNat % 16 * 4) (by omega),
      Option.bind_eq_bind, Option.bind_some, Option.pure_def]
    rw [ofNat_eq (by omega : a.toNat / 4 * 4 + (a.toNat % 4 * 16 + b.toNat / 16) / 16 = a.toNat),
      ofNat_eq (by omega : (a.toNat % 4 * 16 + b.toNat / 16) % 16 * 16 + b.toNat % 16 * 4 / 4 = b.toNat)]
  | case4 a b c rest ih =>
    have ha := a.toNat_lt
    have hb := b.toNat_lt
    have hc := c.toNat_lt
    simp only [decode, value_symbol (a.toNat / 4) (by omega),
      value_symbol (a.toNat % 4 * 16 + b.toNat / 16) (by omega),
      value_symbol (b.toNat % 16 * 4 + c.toNat / 64) (by omega), value_symbol (c.toNat % 64) (by omega), ih,
      Option.bind_eq_bind, Option.bind_some, Option.pure_def]
    rw [ofNat_eq (by omega : a.toNat / 4 * 4 + (a.toNat % 4 * 16 + b.toNat / 16) / 16 = a.toNat),
      ofNat_eq (by omega : (a.toNat % 4 * 16 + b.toNat / 16) % 16 * 16 + (b.toNat % 16 * 4 + c.toNat / 64) / 4 = b.toNat),
      ofNat_eq (by omega : (b.toNat % 16 * 4 + c.toNat / 64) % 4 * 64 + c.toNat % 64 = c.toNat)]

end Qmtl.Lib.Base64Url

import Qmtl.Lib.Text

/-!
The keys that tell work apart: `partition_key`, and its CRC as the number of an advisory lock.
-/

namespace Qmtl.Foundation

open Lib

def crc32 (s : String) : ℕ :=
  let bit (c : ℕ) : ℕ := if c % 2 = 1 then (c / 2) ^^^ 0xEDB88320 else c / 2
  let byte (c : ℕ) (b : UInt8) : ℕ := bit^[8] (c ^^^ b.toNat)
  s.toUTF8.data.toList.foldl byte 0xFFFFFFFF ^^^ 0xFFFFFFFF

def crc32OfList (items : List String) : ℕ :=
  let bit (c : ℕ) : ℕ := if c % 2 = 1 then (c / 2) ^^^ 0xEDB88320 else c / 2
  let byte (c : ℕ) (b : UInt8) : ℕ := bit^[8] (c ^^^ b.toNat)
  let update (crc : ℕ) (item : String) : ℕ :=
    item.toUTF8.data.toList.foldl byte (crc ^^^ 0xFFFFFFFF) ^^^ 0xFFFFFFFF
  items.foldl update 0 % 2 ^ 32

def partitionKey (nodeId : String) (interval bucket : Option ℤ) (computeKey : Option String) : String :=
  let base := nodeId ++ ":" ++ toString (interval.getD 0) ++ ":" ++ toString (bucket.getD 0)
  match computeKey with
  | some k => if k = "" then base else base ++ "#ck=" ++ k
  | none => base

lemma separator_notMem_toString (z : ℤ) {c : Char} (hc : c = ':' ∨ c = '#') : c ∉ (toString z).toList := by
  intro hmem
  rcases toString_int_char hmem with h | h <;> rcases hc with rfl | rfl <;> revert h <;> decide

lemma partitionKey_toList (nodeId : String) (interval bucket : Option ℤ) (computeKey : Option String) :
    ∃ rest : List Char, (rest = [] ∨ rest.head? = some '#') ∧
      (partitionKey nodeId interval bucket computeKey).toList =
        nodeId.toList ++ ':' :: (toString (interval.getD 0)).toList ++
          ':' :: (toString (bucket.getD 0)).toList ++ rest := by
  have hb : (nodeId ++ ":" ++ toString (interval.getD 0) ++ ":" ++ toString (bucket.getD 0)).toList =
      nodeId.toList ++ ':' :: (toString (interval.getD 0)).toList ++
        ':' :: (toString (bucket.getD 0)).toList := by
    simp
  unfold partitionKey
  split
  · rename_i k
    split
    · exact ⟨[], .inl rfl, by rw [List.append_nil]; exact hb⟩
    · refine ⟨"#ck=".toList ++ k.toList, .inr rfl, ?_⟩
      rw [String.toList_append, String.toList_append, hb, List.append_assoc]
  · exact ⟨[], .inl rfl, by rw [List.append_nil]; exact hb⟩

lemma hash_mem_partitionKey (nodeId : String) (interval bucket : Option ℤ) {k : String} (hk : k ≠ "") :
    '#' ∈ (partitionKey nodeId interval bucket (some k)).toList := by
  have h : partitionKey nodeId interval bucket (some k) =
      nodeId ++ ":" ++ toString (interval.getD 0) ++ ":" ++ toString (bucket.getD 0) ++ "#ck=" ++ k := if_neg hk
  rw [h]
  simp

lemma partitionKey_inj {id id' k k' : String} {i i' b b' : Option ℤ} (hk : k ≠ "") (hk' : k' ≠ "")
    (hh : '#' ∉ k.toList) (hh' : '#' ∉ k'.toList)
    (h : partitionKey id i b (some k) = partitionKey id' i' b' (some k')) : id = id' ∧ k = k' := by
  have htext : ∀ (id : String) (i b : Option ℤ) {k : String}, k ≠ "" →
      (partitionKey id i b (some k)).toList =
        ((id.toList ++ ':' :: (toString (i.getD 0)).toList) ++ ':' :: (toString (b.getD 0)).toList) ++
          '#' :: ("ck=".toList ++ k.toList) := by
    intro id i b k hk
    have hkey : partitionKey id i b (some k) =
        id ++ ":" ++ toString (i.getD 0) ++ ":" ++ toString (b.getD 0) ++ "#ck=" ++ k := if_neg hk
    rw [hkey]
    simp
  have h := congrArg String.toList h
  rw [htext id i b hk, htext id' i' b' hk'] at h
  have hck : ∀ {k : String}, '#' ∉ k.toList → '#' ∉ "ck=".toList ++ k.toList := by
    intro k hk hmem
    rcases List.mem_append.mp hmem with hc | hc
    · revert hc
      decide
    · exact hk hc
  obtain ⟨hb, hkey⟩ := append_cons_inj (hck hh) (hck hh') h
  have hcl (z : ℤ) : ':' ∉ (toString z).toList := separator_notMem_toString z (.inl rfl)
  obtain ⟨hb, -⟩ := append_cons_inj (hcl _) (hcl _) hb
  obtain ⟨hid, -⟩ := append_cons_inj (hcl _) (hcl _) hb
  refine ⟨String.toList_injective hid, String.toList_injective ?_⟩
  exact List.append_cancel_left hkey

end Qmtl.Foundation

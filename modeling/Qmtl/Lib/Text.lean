import Mathlib.Tactic
import Mathlib.Data.List.DropRight

/-! Text as Python's `str` treats it: whitespace, `strip`, splitting, and lowercasing.

Lowercasing follows the Unicode tables, which are not reproduced here. -/

namespace Qmtl.Lib

/-- `str.isspace` of one character. -/
def isSpace (c : Char) : Bool :=
  let n := c.toNat
  (0x09 ≤ n && n ≤ 0x0d) || (0x1c ≤ n && n ≤ 0x20) || n = 0x85 || n = 0xa0 || n = 0x1680 ||
    (0x2000 ≤ n && n ≤ 0x200a) || n = 0x2028 || n = 0x2029 || n = 0x202f || n = 0x205f || n = 0x3000

def strip (s : String) : String :=
  String.ofList ((s.toList.dropWhile isSpace).rdropWhile isSpace)

def stripped (s : String) : Option String :=
  if strip s = "" then none else some (strip s)

def Clean (s : String) : Prop := s ≠ "" ∧ strip s = s

instance (s : String) : Decidable (Clean s) := inferInstanceAs (Decidable (_ ∧ _))

def splitAt (p : Char → Bool) (s : String) : List String :=
  (s.toList.splitOnP p).map String.ofList

def join (sep : String) : List String → String
  | [] => ""
  | [s] => s
  | s :: t :: rest => s ++ sep ++ join sep (t :: rest)

lemma strip_strip (s : String) : strip (strip s) = strip s := by
  unfold strip
  rw [String.toList_ofList]
  congr 1
  set l := s.toList.dropWhile isSpace with hl
  -- stripping the back leaves the front as it is
  have hf : (l.rdropWhile isSpace).dropWhile isSpace = l.rdropWhile isSpace := by
    rw [List.dropWhile_eq_self_iff]
    intro hpos
    have hlen : 0 < l.length := lt_of_lt_of_le hpos (List.rdropWhile_prefix isSpace l).length_le
    have hget : (l.rdropWhile isSpace)[0] = l[0] := (List.rdropWhile_prefix isSpace l).getElem hpos
    rw [hget]
    exact List.dropWhile_get_zero_not isSpace s.toList hlen
  rw [hf, List.rdropWhile_idempotent]

variable {c : Char} {s : String}

lemma stripped_eq_some {t : String} (h : stripped s = some t) : Clean t := by
  unfold stripped at h
  split at h
  · cases h
  · rename_i hne
    cases h
    exact ⟨hne, strip_strip s⟩

lemma Clean.stripped (h : Clean s) : stripped s = some s := by
  simp [Lib.stripped, h.2, h.1]

/-! ### Lowercasing -/

structure Lower where
  fn : String → String
  clean : ∀ s, Clean s → Clean (fn s)
  onAscii : ∀ s, (∀ c ∈ s.toList, c.toNat < 128) → fn s = String.ofList (s.toList.map Char.toLower)

lemma ascii_of_all (h : (s.toList.all fun c => c.toNat < 128)) : ∀ c ∈ s.toList, c.toNat < 128 :=
  fun c hc => of_decide_eq_true (List.all_eq_true.mp h c hc)

lemma toLower_cases (c : Char) :
    (65 ≤ c.toNat ∧ c.toNat ≤ 90 ∧ c.toLower.toNat = c.toNat + 32) ∨ c.toLower = c := by
  unfold Char.toLower
  split
  · rename_i h
    obtain ⟨h1, h2⟩ := h
    have h1 : 65 ≤ c.toNat := h1
    have h2 : c.toNat ≤ 90 := h2
    refine .inl ⟨h1, h2, ?_⟩
    show (c.val + ('a'.val - 'A'.val)).toNat = c.toNat + 32
    show (c.toNat + 32) % 2 ^ 32 = c.toNat + 32
    omega
  · exact .inr rfl

lemma isSpace_toLower (c : Char) : isSpace c.toLower = isSpace c := by
  rcases toLower_cases c with ⟨h1, h2, h3⟩ | h
  · have hc : isSpace c = false := by
      simp [isSpace]; omega
    have hl : isSpace c.toLower = false := by
      simp [isSpace, h3]; omega
    rw [hc, hl]
  · rw [h]

def Lower.ascii : Lower where
  fn s := String.ofList (s.toList.map Char.toLower)
  clean s h := by
    refine ⟨fun h0 => h.1 ?_, ?_⟩
    · have := congrArg String.toList h0
      simpa using this
    · have hs := congrArg String.toList h.2
      simp only [strip, String.toList_ofList] at hs ⊢
      have hp : isSpace ∘ Char.toLower = isSpace := funext isSpace_toLower
      congr 1
      rw [List.dropWhile_map, hp, List.rdropWhile, ← List.map_reverse, List.dropWhile_map, hp,
        ← List.map_reverse, ← List.rdropWhile, hs]
  onAscii s _ := rfl

lemma isDigit_of_mem_repr {n : ℕ} (h : c ∈ n.repr.toList) : c.isDigit := by
  rw [Nat.toList_repr] at h
  exact Nat.isDigit_of_mem_toDigits (by norm_num) (by norm_num) h

lemma repr_injective {m n : ℕ} (h : m.repr = n.repr) : m = n := by
  have hd := congrArg String.toList h
  rw [Nat.toList_repr, Nat.toList_repr] at hd
  rw [← Nat.ofDigitChars_ten_toDigits (n := m), hd, Nat.ofDigitChars_ten_toDigits]

lemma toString_int_char {z : ℤ} (h : c ∈ (toString z).toList) : c.isDigit ∨ c = '-' := by
  cases z with
  | ofNat n => exact .inl (isDigit_of_mem_repr h)
  | negSucc n =>
    have h : c ∈ ("-" ++ (n + 1).repr).toList := h
    rw [String.toList_append, List.mem_append] at h
    rcases h with h | h
    · right
      simpa using h
    · exact .inl (isDigit_of_mem_repr h)

lemma toString_int_injective {a b : ℤ} (h : toString a = toString b) : a = b := by
  have hs : ∀ m n : ℕ, m.repr ≠ "-" ++ (n + 1).repr := by
    intro m n hmn
    have hmem : '-' ∈ m.repr.toList := by
      rw [hmn, String.toList_append]
      exact .head _
    exact absurd (isDigit_of_mem_repr hmem) (by decide)
  cases a with
  | ofNat m =>
    cases b with
    | ofNat n => rw [repr_injective h]
    | negSucc n => exact absurd h (hs m n)
  | negSucc m =>
    cases b with
    | ofNat n => exact absurd h.symm (hs n m)
    | negSucc n =>
      have h : "-" ++ (m + 1).repr = "-" ++ (n + 1).repr := h
      have hl := congrArg String.toList h
      rw [String.toList_append, String.toList_append] at hl
      have := repr_injective (String.toList_injective (List.append_cancel_left hl))
      rw [show m = n by omega]

lemma append_cons_inj {a a' b b' : List Char} (hb : c ∉ b) (hb' : c ∉ b') (h : a ++ c :: b = a' ++ c :: b') :
    a = a' ∧ b = b' := by
  have hrev := congrArg List.reverse h
  simp only [List.reverse_append, List.reverse_cons, List.append_assoc, List.singleton_append] at hrev
  obtain ⟨h1, h2⟩ := List.append_inj hrev (by
    -- the tails are as long as what stands before the first place from behind
    have hlen : ∀ {x y : List Char}, c ∉ x → (x.reverse ++ c :: y).idxOf c = x.length := by
      intro x y hx
      rw [List.idxOf_append_of_notMem (by simpa using hx), List.idxOf_cons_self, List.length_reverse]
      rfl
    rw [List.length_reverse, List.length_reverse, ← hlen hb, hrev, hlen hb'])
  refine ⟨?_, ?_⟩
  · simpa using h2
  · simpa using h1

lemma cut_inj {a a' b b' : List Char} (ha : c ∉ a) (ha' : c ∉ a') (h : a ++ c :: b = a' ++ c :: b') :
    a = a' ∧ b = b' := by
  have hlen : ∀ {x y : List Char}, c ∉ x → (x ++ c :: y).idxOf c = x.length := by
    intro x y hx
    rw [List.idxOf_append_of_notMem hx, List.idxOf_cons_self]
    rfl
  have h1 := hlen (y := b) ha
  rw [h, hlen ha'] at h1
  obtain ⟨rfl, h2⟩ := List.append_inj h h1.symm
  exact ⟨rfl, (List.cons.inj h2).2⟩

lemma join_inj {sep : String} (hsep : sep.toList = [c]) {xs ys : List String} (hx : ∀ x ∈ xs, x ≠ "" ∧ c ∉ x.toList)
    (hy : ∀ y ∈ ys, y ≠ "" ∧ c ∉ y.toList) (h : join sep xs = join sep ys) : xs = ys := by
  have hcut : ∀ (a b : String) (rest : List String),
      (join sep (a :: b :: rest)).toList = a.toList ++ c :: (join sep (b :: rest)).toList := by
    intro a b rest
    rw [join, String.toList_append, String.toList_append, hsep, List.append_assoc]
    rfl
  have hnil : ∀ {y : String} {zs : List String}, y ≠ "" → join sep (y :: zs) ≠ "" := by
    intro y zs hne h0
    cases zs with
    | nil => exact hne h0
    | cons z zs =>
      have h1 := hcut y z zs
      rw [h0] at h1
      simp at h1
  have hone : ∀ {x y z : String} {zs : List String}, c ∉ x.toList → join sep [x] ≠ join sep (y :: z :: zs) := by
    intro x y z zs hc h1
    have h2 := hcut y z zs
    rw [← h1] at h2
    refine hc ?_
    show c ∈ (join sep [x]).toList
    rw [h2]
    simp
  induction xs generalizing ys with
  | nil =>
    cases ys with
    | nil => rfl
    | cons y ys => exact absurd h.symm (hnil (hy y (.head _)).1)
  | cons x xs ih =>
    cases ys with
    | nil => exact absurd h (hnil (hx x (.head _)).1)
    | cons y ys =>
      cases xs with
      | nil =>
        cases ys with
        | nil => exact congrArg (fun t => [t]) h
        | cons z zs => exact absurd h (hone (hx x (.head _)).2)
      | cons x' xs =>
        cases ys with
        | nil => exact absurd h.symm (hone (hy y (.head _)).2)
        | cons y' ys =>
          have hl := congrArg String.toList h
          rw [hcut, hcut] at hl
          obtain ⟨h1, h2⟩ := cut_inj (hx x (.head _)).2 (hy y (.head _)).2 hl
          rw [String.toList_injective h1, ih (fun z hz => hx z (.tail _ hz))
            (fun z hz => hy z (.tail _ hz)) (String.toList_injective h2)]

lemma join_inj_of_length {sep : String} (hsep : sep.toList = [c]) {xs ys : List String} (hlen : xs.length = ys.length)
    (hx : ∀ x ∈ xs, c ∉ x.toList) (hy : ∀ y ∈ ys, c ∉ y.toList) (h : join sep xs = join sep ys) : xs = ys := by
  induction xs generalizing ys with
  | nil => exact (List.length_eq_zero_iff.mp hlen.symm).symm
  | cons x xs ih =>
    cases ys with
    | nil => cases hlen
    | cons y ys =>
      have hl' : xs.length = ys.length := Nat.succ.inj hlen
      cases xs with
      | nil =>
        obtain rfl := List.length_eq_zero_iff.mp hl'.symm
        exact congrArg (fun t => [t]) h
      | cons x' xs =>
        cases ys with
        | nil => cases hl'
        | cons y' ys =>
          have hl := congrArg String.toList h
          rw [join, join, String.toList_append, String.toList_append, String.toList_append, String.toList_append, hsep,
            List.append_assoc, List.append_assoc, List.singleton_append, List.singleton_append] at hl
          obtain ⟨h1, h2⟩ := cut_inj (hx x (.head _)) (hy y (.head _)) hl
          rw [String.toList_injective h1, ih hl' (fun z hz => hx z (.tail _ hz))
            (fun z hz => hy z (.tail _ hz)) (String.toList_injective h2)]

end Qmtl.Lib

import Qmtl.Lib.Dict
import Qmtl.Lib.Json

/-! The compact texts of JSON values, `json.dumps(value, separators=(",", ":"))` with either value of
`ensure_ascii`. -/

namespace Qmtl.Lib.Json

section

/-- A character in a string written with `ensure_ascii=False`. -/
def escapeBare (c : Char) : List Char :=
  if c = '"' ∨ c = '\\' then ['\\', c]
  else if c = '\n' then ['\\', 'n']
  else if c = '\r' then ['\\', 'r']
  else if c = '\t' then ['\\', 't']
  else if c = '\x0c' then ['\\', 'f']
  else if c = '\x08' then ['\\', 'b']
  else if c.toNat < 0x20 then '\\' :: 'u' :: hex4 c.toNat
  else [c]

def quoted (text : List Char) : List Char := text.flatMap escapeBare ++ ['"']

mutual

def compact : Json → List Char
  | null => "null".toList
  | bool b => if b then "true".toList else "false".toList
  | num text => text.toList
  | str text => '"' :: quoted text.toList
  | arr [] => ['[', ']']
  | arr (v :: vs) => '[' :: compact v ++ compactItems vs
  | obj [] => ['\x7b', '\x7d']
  | obj ((k, v) :: rest) => '\x7b' :: '"' :: quoted k.toList ++ ':' :: compact v ++ compactFields rest

def compactItems : List Json → List Char
  | [] => [']']
  | v :: vs => ',' :: compact v ++ compactItems vs

def compactFields : List (String × Json) → List Char
  | [] => ['\x7d']
  | (k, v) :: rest => ',' :: '"' :: quoted k.toList ++ ':' :: compact v ++ compactFields rest

end

/-! ### Ways to write strings -/

structure Escaping where
  esc : Char → List Char
  read : List Char → Option (Char × List Char)
  read_esc : ∀ c rest, read (esc c ++ rest) = some (c, rest)
  read_quote : ∀ rest, read ('"' :: rest) = some ('"', rest)
  esc_quote : esc '"' = ['\\', '"']

namespace Escaping

variable (e : Escaping)

def quoted (text : List Char) : List Char := text.flatMap e.esc ++ ['"']

mutual

def compact : Json → List Char
  | null => "null".toList
  | bool b => if b then "true".toList else "false".toList
  | num text => text.toList
  | str text => '"' :: e.quoted text.toList
  | arr [] => ['[', ']']
  | arr (v :: vs) => '[' :: compact v ++ compactItems vs
  | obj [] => ['\x7b', '\x7d']
  | obj ((k, v) :: rest) => '\x7b' :: '"' :: e.quoted k.toList ++ ':' :: compact v ++ compactFields rest

def compactItems : List Json → List Char
  | [] => [']']
  | v :: vs => ',' :: compact v ++ compactItems vs

def compactFields : List (String × Json) → List Char
  | [] => ['\x7d']
  | (k, v) :: rest => ',' :: '"' :: e.quoted k.toList ++ ':' :: compact v ++ compactFields rest

end

end Escaping

mutual

def sortKeys : Json → Json
  | arr items => arr (sortItems items)
  | obj fields => obj ((sortFields fields).insertionSort fun a b => a.1 ≤ b.1)
  | v => v

def sortItems : List Json → List Json
  | [] => []
  | v :: vs => sortKeys v :: sortItems vs

def sortFields : List (String × Json) → List (String × Json)
  | [] => []
  | (k, v) :: rest => (k, sortKeys v) :: sortFields rest

end

/-! ### What a value begins with -/

def isNumChar (c : Char) : Bool := c.isAlphanum || c = '+' || c = '-' || c = '.'

def kindOf (c : Char) : Option ℕ :=
  if c = 'n' then some 0
  else if c = 't' ∨ c = 'f' then some 1
  else if c.isDigit ∨ c = '-' ∨ c = 'N' ∨ c = 'I' then some 2
  else if c = '"' then some 3
  else if c = '[' then some 4
  else if c = '\x7b' then some 5
  else none

def kind : Json → ℕ
  | null => 0
  | bool _ => 1
  | num _ => 2
  | str _ => 3
  | arr _ => 4
  | obj _ => 5

def isNumText (text : String) : Bool :=
  text.toList.all isNumChar && text.toList.head?.bind kindOf == some 2

mutual

/-- Every number of a value has the text of a number. -/
def Valid : Json → Prop
  | num text => isNumText text = true
  | arr items => ValidItems items
  | obj fields => ValidFields fields
  | _ => True

def ValidItems : List Json → Prop
  | [] => True
  | v :: vs => Valid v ∧ ValidItems vs

def ValidFields : List (String × Json) → Prop
  | [] => True
  | (_, v) :: rest => Valid v ∧ ValidFields rest

end

lemma isNumText_toString (n : ℤ) : isNumText (toString n) := by
  have hch : ∀ c ∈ (toString n).toList, isNumChar c := by
    intro c hc
    rcases toString_int_char hc with h | rfl
    · simp [isNumChar, Char.isAlphanum, h]
    · rfl
  have hne : (toString n).toList ≠ [] := by
    intro h
    cases n with
    | ofNat m =>
      have h : m.repr.toList = [] := h
      rw [Nat.toList_repr] at h
      exact Nat.toDigits_ne_nil h
    | negSucc m =>
      have h : ("-" ++ (m + 1).repr).toList = [] := h
      rw [String.toList_append] at h
      cases h
  obtain ⟨c, cs, hcs⟩ := List.exists_cons_of_ne_nil hne
  have hh : kindOf c = some 2 := by
    have hc : c ∈ (toString n).toList := by rw [hcs]; exact .head _
    have hd : c.isDigit ∨ c = '-' := toString_int_char hc
    have hn : c ≠ 'n' ∧ c ≠ 't' ∧ c ≠ 'f' := by
      refine ⟨?_, ?_, ?_⟩ <;> (rintro rfl; rcases hd with h | h <;> revert h <;> decide)
    rcases hd with h | h <;> simp [kindOf, hn, h]
  rw [isNumText, Bool.and_eq_true, List.all_eq_true, hcs]
  refine ⟨fun d hd => hch d (hcs ▸ hd), ?_⟩
  simp [hh]

def Stops (r : List Char) : Prop := ∀ c ∈ r.head?, isNumChar c = false

def hexVal (c : Char) : ℕ := if c.isDigit then c.toNat - 48 else c.toNat - 87

/-- Read one character of a string back. -/
def unescape : List Char → Option (Char × List Char)
  | '\\' :: 'u' :: _ :: _ :: a :: b :: rest => some (Char.ofNat (16 * hexVal a + hexVal b), rest)
  | '\\' :: c :: rest =>
    some (if c = 'n' then '\n' else if c = 'r' then '\r' else if c = 't' then '\t' else
      if c = 'f' then '\x0c' else if c = 'b' then '\x08' else c, rest)
  | c :: rest => some (c, rest)
  | [] => none

lemma unescape_control : ∀ n < 0x20, ∀ rest,
    unescape ('\\' :: 'u' :: hex4 n ++ rest) = some (Char.ofNat n, rest) := by
  intro n hn rest
  interval_cases n <;> rfl

lemma unescape_escapeBare (c : Char) (rest : List Char) : unescape (escapeBare c ++ rest) = some (c, rest) := by
  unfold escapeBare
  split_ifs with h1 h2 h3 h4 h5 h6 h7
  · rcases h1 with rfl | rfl <;> rfl
  · subst h2; rfl
  · subst h3; rfl
  · subst h4; rfl
  · subst h5; rfl
  · subst h6; rfl
  · have := unescape_control c.toNat h7 rest
    rw [Char.ofNat_toNat] at this
    exact this
  · have hc : c ≠ '\\' := fun h => h1 (.inr h)
    unfold unescape
    split
    · rename_i heq
      exact absurd (List.cons.inj heq).1 hc
    · rename_i heq
      exact absurd (List.cons.inj heq).1 hc
    · rename_i heq
      obtain ⟨rfl, rfl⟩ := List.cons.inj heq
      rfl
    · rename_i heq
      cases heq

/-- `ensure_ascii=False`. -/
def Escaping.bare : Escaping := ⟨escapeBare, unescape, unescape_escapeBare, fun _ => rfl, rfl⟩

/-! #### ASCII -/

def hexVal4 (a b c d : Char) : ℕ := 4096 * hexVal a + 256 * hexVal b + 16 * hexVal c + hexVal d

def unescapePair (n : ℕ) : List Char → Option (Char × List Char)
  | _ :: _ :: a :: b :: c :: d :: rest =>
    some (Char.ofNat (0x10000 + 1024 * (n - 0xd800) + (hexVal4 a b c d - 0xdc00)), rest)
  | _ => none

def unescapeAscii : List Char → Option (Char × List Char)
  | '\\' :: 'u' :: a :: b :: c :: d :: rest =>
    let n := hexVal4 a b c d
    if 0xd800 ≤ n ∧ n < 0xdc00 then unescapePair n rest else some (Char.ofNat n, rest)
  | '\\' :: c :: rest =>
    some (if c = 'n' then '\n' else if c = 'r' then '\r' else if c = 't' then '\t' else
      if c = 'f' then '\x0c' else if c = 'b' then '\x08' else c, rest)
  | c :: rest => some (c, rest)
  | [] => none

lemma hexVal_digitChar : ∀ k < 16, hexVal (Nat.digitChar k) = k := by
  intro k hk
  interval_cases k <;> rfl

lemma hexVal4_hex4 {n : ℕ} (h : n < 0x10000) (rest : List Char) :
    ∃ a b c d, hex4 n ++ rest = a :: b :: c :: d :: rest ∧ hexVal4 a b c d = n := by
  refine ⟨_, _, _, _, rfl, ?_⟩
  unfold hexVal4
  rw [hexVal_digitChar _ (Nat.mod_lt _ (by omega)), hexVal_digitChar _ (Nat.mod_lt _ (by omega)),
    hexVal_digitChar _ (Nat.mod_lt _ (by omega)), hexVal_digitChar _ (Nat.mod_lt _ (by omega))]
  omega

lemma not_surrogate (c : Char) : ¬ (0xd800 ≤ c.toNat ∧ c.toNat < 0xdc00) := by
  rintro ⟨h1, h2⟩
  rcases c.valid with h | ⟨h, -⟩
  · have h : c.toNat < 0xd800 := h
    omega
  · have h : 0xdfff < c.toNat := h
    omega

lemma unescapeAscii_escape (c : Char) (rest : List Char) : unescapeAscii (escape c ++ rest) = some (c, rest) := by
  unfold escape
  split_ifs with h1 h2 h3 h4 h5 h6 h7 h8
  · rcases h1 with rfl | rfl <;> rfl
  · subst h2; rfl
  · subst h3; rfl
  · subst h4; rfl
  · subst h5; rfl
  · subst h6; rfl
  · have hc : c ≠ '\\' := fun h => h1 (.inr h)
    unfold unescapeAscii
    split
    · rename_i heq
      exact absurd (List.cons.inj heq).1 hc
    · rename_i heq
      exact absurd (List.cons.inj heq).1 hc
    · rename_i heq
      obtain ⟨rfl, rfl⟩ := List.cons.inj heq
      rfl
    · rename_i heq
      cases heq
  · obtain ⟨a, b, d, e, htext, hval⟩ := hexVal4_hex4 h8 rest
    rw [List.cons_append, List.cons_append, htext, unescapeAscii, hval, if_neg (not_surrogate c), Char.ofNat_toNat]
  · have hmax : c.toNat < 0x110000 := by
      rcases c.valid with h | ⟨-, h⟩
      · have h : c.toNat < 0xd800 := h
        omega
      · exact h
    generalize hn : c.toNat - 0x10000 = n
    obtain ⟨a, b, d, e, hlow, hlv⟩ := @hexVal4_hex4 (0xdc00 + n % 1024) (by omega) rest
    obtain ⟨a', b', d', e', hh, hhv⟩ := @hexVal4_hex4 (0xd800 + n / 1024) (by omega)
      ('\\' :: 'u' :: hex4 (0xdc00 + n % 1024) ++ rest)
    have hsum : 0x10000 + 1024 * (0xd800 + n / 1024 - 0xd800) + (0xdc00 + n % 1024 - 0xdc00) = c.toNat := by
      omega
    show unescapeAscii ('\\' :: 'u' :: (hex4 (0xd800 + n / 1024) ++ '\\' :: 'u' :: hex4 (0xdc00 + n % 1024) ++ rest)) = _
    rw [List.append_assoc, hh, List.cons_append, List.cons_append, hlow, unescapeAscii, hhv,
      if_pos ⟨by omega, by omega⟩, unescapePair, hlv, hsum, Char.ofNat_toNat]

def Escaping.ascii : Escaping := ⟨escape, unescapeAscii, unescapeAscii_escape, fun _ => rfl, rfl⟩

/-! ### Values -/

lemma num_inj {s t : String} {r r' : List Char} (hs : isNumText s) (ht : isNumText t)
    (hr : Stops r) (hr' : Stops r') (h : s.toList ++ r = t.toList ++ r') : s = t ∧ r = r' := by
  have htk : ∀ {u : String} {q : List Char}, isNumText u → Stops q →
      (u.toList ++ q).takeWhile isNumChar = u.toList := by
    intro u q hu hq
    have hall : ∀ c ∈ u.toList, isNumChar c := by
      simp only [isNumText, Bool.and_eq_true, List.all_eq_true] at hu
      exact hu.1
    rw [List.takeWhile_append_of_pos hall]
    have hq0 : q.takeWhile isNumChar = [] := by
      cases q with
      | nil => rfl
      | cons c q => simp [hq c rfl]
    rw [hq0, List.append_nil]
  have heq := htk hs hr
  rw [h, htk ht hr'] at heq
  have hst : s = t := String.toList_injective heq.symm
  subst hst
  exact ⟨rfl, List.append_cancel_left h⟩

namespace Escaping

variable {e : Escaping}

lemma head_compact {v : Json} (hv : Valid v) : (e.compact v).head?.bind kindOf = some (kind v) := by
  cases v with
  | null => rfl
  | bool b => cases b <;> rfl
  | num text =>
    simp only [Valid, isNumText, Bool.and_eq_true, beq_iff_eq] at hv
    exact hv.2
  | str text => rfl
  | arr items => cases items <;> rfl
  | obj fields => cases fields <;> rfl

lemma kind_eq {v w : Json} {r r' : List Char} (hv : Valid v) (hw : Valid w)
    (h : e.compact v ++ r = e.compact w ++ r') : kind v = kind w := by
  have hh : ∀ {u : Json} (q : List Char), Valid u → (e.compact u ++ q).head?.bind kindOf = some (kind u) := by
    intro u q hu
    have := @head_compact e u hu
    cases hc : e.compact u with
    | nil =>
      rw [hc] at this
      cases this
    | cons c cs =>
      rw [hc] at this
      exact this
  have h1 := hh r hv
  rw [h, hh r' hw] at h1
  exact (Option.some.inj h1).symm

lemma compact_ne {v : Json} (hv : Valid v) {c : Char} (hc : kindOf c = none) (r q : List Char) :
    c :: q ≠ e.compact v ++ r := by
  intro h
  have hh := @head_compact e v hv
  cases hcv : e.compact v with
  | nil =>
    rw [hcv] at hh
    cases hh
  | cons d ds =>
    rw [hcv] at hh h
    obtain rfl : c = d := (List.cons.inj h).1
    rw [List.head?_cons, Option.bind_some, hc] at hh
    cases hh

lemma esc_head (c : Char) (x r : List Char) : '"' :: r ≠ e.esc c ++ x := by
  intro h
  have hc := e.read_esc c x
  rw [← h, e.read_quote, Option.some_inj, Prod.mk.injEq] at hc
  obtain ⟨rfl, rfl⟩ := hc
  have hlen := congrArg List.length h
  rw [e.esc_quote] at hlen
  simp at hlen

lemma quoted_inj {s t r r' : List Char} (h : e.quoted s ++ r = e.quoted t ++ r') : s = t ∧ r = r' := by
  induction s generalizing t with
  | nil =>
    cases t with
    | nil => exact ⟨rfl, (List.cons.inj h).2⟩
    | cons d t =>
      have h : '"' :: r = e.esc d ++ (t.flatMap e.esc ++ ['"'] ++ r') := by
        simpa [quoted, List.append_assoc] using h
      exact absurd h (esc_head d _ _)
  | cons c s ih =>
    cases t with
    | nil =>
      have h : '"' :: r' = e.esc c ++ (s.flatMap e.esc ++ ['"'] ++ r) := by
        simpa [quoted, List.append_assoc] using h.symm
      exact absurd h (esc_head c _ _)
    | cons d t =>
      have h : e.esc c ++ (e.quoted s ++ r) = e.esc d ++ (e.quoted t ++ r') := by
        simpa [quoted, List.append_assoc] using h
      have hc := e.read_esc c (e.quoted s ++ r)
      rw [h, e.read_esc, Option.some_inj, Prod.mk.injEq] at hc
      obtain ⟨rfl, hr⟩ := hc
      obtain ⟨rfl, rfl⟩ := ih hr.symm
      exact ⟨rfl, rfl⟩

lemma stops_items (vs : List Json) (r : List Char) : Stops (e.compactItems vs ++ r) := by
  intro c hc
  cases vs <;> (obtain rfl : _ = c := Option.some.inj hc; decide)

lemma stops_fields (fs : List (String × Json)) (r : List Char) : Stops (e.compactFields fs ++ r) := by
  intro c hc
  cases fs <;> (obtain rfl : _ = c := Option.some.inj hc; decide)

mutual

/-- **Compact texts are self-delimiting**: the text of a value, with what stands behind it, gives the
value and what stands behind it. -/
theorem compact_inj : ∀ (v w : Json) {r r' : List Char}, Valid v → Valid w → Stops r → Stops r' →
    e.compact v ++ r = e.compact w ++ r' → v = w ∧ r = r'
  | null, w, r, r', hv, hw, _, _, h => by
    have hk := kind_eq hv hw h
    cases w <;> simp [kind] at hk
    exact ⟨rfl, List.append_cancel_left h⟩
  | bool b, w, r, r', hv, hw, _, _, h => by
    have hk := kind_eq hv hw h
    cases w <;> simp [kind] at hk
    rename_i b'
    cases b <;> cases b' <;> simp [compact] at h <;> exact ⟨rfl, h⟩
  | num s, w, r, r', hv, hw, hr, hr', h => by
    have hk := kind_eq hv hw h
    cases w <;> simp [kind] at hk
    obtain ⟨rfl, hrs⟩ := num_inj hv hw hr hr' h
    exact ⟨rfl, hrs⟩
  | str s, w, r, r', hv, hw, _, _, h => by
    have hk := kind_eq hv hw h
    cases w <;> simp [kind] at hk
    obtain ⟨hst, h⟩ := quoted_inj (List.cons.inj h).2
    exact ⟨by rw [String.toList_injective hst], h⟩
  | arr [], w, r, r', hv, hw, _, _, h => by
    have hk := kind_eq hv hw h
    cases w <;> simp [kind] at hk
    rename_i ws
    cases ws with
    | nil => exact ⟨rfl, List.append_cancel_left h⟩
    | cons w ws =>
      have h : ']' :: r = e.compact w ++ (e.compactItems ws ++ r') := by
        simpa [compact, List.append_assoc] using h
      exact absurd h (compact_ne hw.1 (by decide) _ _)
  | arr (v :: vs), w, r, r', hv, hw, _, _, h => by
    have hk := kind_eq hv hw h
    cases w <;> simp [kind] at hk
    rename_i ws
    cases ws with
    | nil =>
      have h : ']' :: r' = e.compact v ++ (e.compactItems vs ++ r) := by
        simpa [compact, List.append_assoc] using h.symm
      exact absurd h (compact_ne hv.1 (by decide) _ _)
    | cons w ws =>
      -- but for its first character, the text is that of the items
      obtain ⟨heq, hrs⟩ := compactItems_inj (v :: vs) (w :: ws) hv hw (congrArg (',' :: ·) (List.cons.inj h).2)
      exact ⟨by rw [heq], hrs⟩
  | obj [], w, r, r', hv, hw, _, _, h => by
    have hk := kind_eq hv hw h
    cases w <;> simp [kind] at hk
    rename_i ws
    cases ws with
    | nil => exact ⟨rfl, List.append_cancel_left h⟩
    | cons w ws => simp [compact] at h
  | obj ((k, v) :: fs), w, r, r', hv, hw, _, _, h => by
    have hk := kind_eq hv hw h
    cases w <;> simp [kind] at hk
    rename_i ws
    cases ws with
    | nil => simp [compact] at h
    | cons w ws =>
      obtain ⟨heq, hrs⟩ :=
        compactFields_inj ((k, v) :: fs) (w :: ws) hv hw (congrArg (',' :: ·) (List.cons.inj h).2)
      exact ⟨by rw [heq], hrs⟩

theorem compactItems_inj : ∀ (vs ws : List Json) {r r' : List Char}, ValidItems vs → ValidItems ws →
    e.compactItems vs ++ r = e.compactItems ws ++ r' → vs = ws ∧ r = r'
  | [], [], r, r', _, _, h => ⟨rfl, List.append_cancel_left h⟩
  | [], w :: ws, r, r', _, _, h => by simp [compactItems] at h
  | v :: vs, [], r, r', _, _, h => by simp [compactItems] at h
  | v :: vs, w :: ws, r, r', hv, hw, h => by
    have h : e.compact v ++ (e.compactItems vs ++ r) = e.compact w ++ (e.compactItems ws ++ r') := by
      simpa [compactItems, List.append_assoc] using h
    obtain ⟨rfl, ht⟩ := compact_inj v w hv.1 hw.1 (stops_items vs r) (stops_items ws r') h
    obtain ⟨rfl, hr⟩ := compactItems_inj vs ws hv.2 hw.2 ht
    exact ⟨rfl, hr⟩

theorem compactFields_inj : ∀ (fs gs : List (String × Json)) {r r' : List Char}, ValidFields fs → ValidFields gs →
    e.compactFields fs ++ r = e.compactFields gs ++ r' → fs = gs ∧ r = r'
  | [], [], r, r', _, _, h => ⟨rfl, List.append_cancel_left h⟩
  | [], w :: ws, r, r', _, _, h => by simp [compactFields] at h
  | v :: vs, [], r, r', _, _, h => by simp [compactFields] at h
  | (k, v) :: fs, (k', w) :: gs, r, r', hv, hw, h => by
    have h : e.quoted k.toList ++ (':' :: e.compact v ++ (e.compactFields fs ++ r)) =
        e.quoted k'.toList ++ (':' :: e.compact w ++ (e.compactFields gs ++ r')) := by
      simpa [compactFields, List.append_assoc] using h
    obtain ⟨hkk, hval⟩ := quoted_inj h
    obtain rfl : k = k' := String.toList_injective hkk
    obtain ⟨rfl, ht⟩ :=
      compact_inj v w hv.1 hw.1 (stops_fields fs r) (stops_fields gs r') (List.cons.inj hval).2
    obtain ⟨rfl, hr⟩ := compactFields_inj fs gs hv.2 hw.2 ht
    exact ⟨rfl, hr⟩

end

end Escaping

mutual

theorem compact_eq_bare : ∀ v : Json, compact v = Escaping.bare.compact v
  | null => rfl
  | bool _ => rfl
  | num _ => rfl
  | str _ => rfl
  | arr [] => rfl
  | arr (v :: vs) => by
    rw [compact, Escaping.compact, compact_eq_bare v, compactItems_eq_bare vs]
  | obj [] => rfl
  | obj ((k, v) :: fs) => by
    rw [compact, Escaping.compact, compact_eq_bare v, compactFields_eq_bare fs]
    rfl

theorem compactItems_eq_bare : ∀ vs : List Json, compactItems vs = Escaping.bare.compactItems vs
  | [] => rfl
  | v :: vs => by rw [compactItems, Escaping.compactItems, compact_eq_bare v, compactItems_eq_bare vs]

theorem compactFields_eq_bare : ∀ fs : List (String × Json), compactFields fs = Escaping.bare.compactFields fs
  | [] => rfl
  | (k, v) :: fs => by
    rw [compactFields, Escaping.compactFields, compact_eq_bare v, compactFields_eq_bare fs]
    rfl

end

lemma compact_inj (v w : Json) {r r' : List Char} (hv : Valid v) (hw : Valid w) (hr : Stops r) (hr' : Stops r')
    (h : compact v ++ r = compact w ++ r') : v = w ∧ r = r' := by
  rw [compact_eq_bare, compact_eq_bare] at h
  exact Escaping.compact_inj v w hv hw hr hr' h

/-! ### Values in order -/

lemma sortItems_eq (vs : List Json) : sortItems vs = vs.map sortKeys := by
  induction vs with
  | nil => rfl
  | cons v vs ih => rw [sortItems, ih, List.map_cons]

lemma sortFields_eq (fs : List (String × Json)) : sortFields fs = fs.map fun f => (f.1, sortKeys f.2) := by
  induction fs with
  | nil => rfl
  | cons f fs ih => rw [sortFields, ih, List.map_cons]

lemma validItems_iff {vs : List Json} : ValidItems vs ↔ ∀ v ∈ vs, Valid v := by
  induction vs with
  | nil => simp [ValidItems]
  | cons v vs ih => rw [ValidItems, ih, List.forall_mem_cons]

lemma validFields_iff {fs : List (String × Json)} : ValidFields fs ↔ ∀ f ∈ fs, Valid f.2 := by
  induction fs with
  | nil => simp [ValidFields]
  | cons f fs ih => rw [ValidFields, ih, List.forall_mem_cons]

def Tidy (v : Json) : Prop := Valid v ∧ sortKeys v = v

lemma tidy_arr {vs : List Json} (h : ∀ v ∈ vs, Tidy v) : Tidy (arr vs) := by
  refine ⟨validItems_iff.mpr fun v hv => (h v hv).1, ?_⟩
  rw [sortKeys, sortItems_eq, List.map_congr_left fun v hv => (h v hv).2, List.map_id']

lemma tidy_obj {fs : List (String × Json)} (hs : fs.Pairwise fun a b => a.1 ≤ b.1)
    (h : ∀ f ∈ fs, Tidy f.2) : Tidy (obj fs) := by
  refine ⟨validFields_iff.mpr fun f hf => (h f hf).1, ?_⟩
  have hid : (fs.map fun f => (f.1, sortKeys f.2)) = fs := by
    conv_rhs => rw [← List.map_id' fs]
    exact List.map_congr_left fun f hf => Prod.ext rfl (h f hf).2
  rw [sortKeys, sortFields_eq, hid, hs.insertionSort_eq]

lemma sortKeys_entries (d : Dict String Json) :
    sortKeys (obj d.entries) = obj ((d.mapValues sortKeys).entries.insertionSort fun a b => a.1 ≤ b.1) := by
  rw [sortKeys, sortFields_eq]
  rfl

lemma sortKeys_entries_eq_iff {d e : Dict String Json} : sortKeys (obj d.entries) = sortKeys (obj e.entries) ↔
      ∀ key, (d.get? key).map sortKeys = (e.get? key).map sortKeys := by
  simp only [sortKeys_entries, obj.injEq, ← Dict.get?_mapValues]
  generalize d.mapValues sortKeys = d
  generalize e.mapValues sortKeys = e
  have hd := d.entries.perm_insertionSort fun a b => a.1 ≤ b.1
  have he := e.entries.perm_insertionSort fun a b => a.1 ≤ b.1
  constructor
  · intro h key
    have hp : d.entries.Perm e.entries := hd.symm.trans (h ▸ he)
    refine Option.ext fun v => ?_
    rw [Dict.get?_eq_some, Dict.get?_eq_some, hp.mem_iff]
  · intro h
    have hmem : ∀ f : String × Json, f ∈ d.entries ↔ f ∈ e.entries := fun f => by
      rw [← Dict.get?_eq_some, ← Dict.get?_eq_some, h f.1]
    have hp : d.entries.Perm e.entries :=
      (List.perm_ext_iff_of_nodup d.nodup.of_map e.nodup.of_map).mpr hmem
    refine List.Perm.eq_of_pairwise ?_ (List.pairwise_insertionSort _ _) (List.pairwise_insertionSort _ _)
      (hd.trans (hp.trans he.symm))
    -- one value stands under a key
    intro a b ha hb hab hba
    have hk : a.1 = b.1 := String.le_antisymm hab hba
    have ha' := Dict.get?_eq_some.mpr ((hmem a).mp (hd.mem_iff.mp ha))
    have hb' := Dict.get?_eq_some.mpr (he.mem_iff.mp hb)
    rw [hk, hb'] at ha'
    exact Prod.ext hk (Option.some.inj ha').symm

end

def record (fields : List (String × Option Json)) : Json :=
  obj (fields.filterMap fun f => f.2.map fun v => (f.1, v))

def ofDict {α : Type} (f : α → Json) (d : Dict String α) : Json := obj (d.mapValues f).entries

def Same (v w : Json) : Prop := v.sortKeys = w.sortKeys

lemma same_str {s t : String} : Same (str s) (str t) ↔ s = t := by
  simp [Same, sortKeys]

lemma same_num {s t : String} : Same (num s) (num t) ↔ s = t := by
  simp [Same, sortKeys]

/-! ### What is under a key -/

lemma nodup_present {fields : List (String × Option Json)} (h : (fields.map Prod.fst).Nodup) :
    ((fields.filterMap fun f => f.2.map fun v => (f.1, v)).map Prod.fst).Nodup := by
  refine List.Nodup.sublist ?_ h
  induction fields with
  | nil => exact .slnil
  | cons f fields ih =>
    obtain ⟨key, v⟩ := f
    have ih := ih (List.nodup_cons.mp h).2
    cases v with
    | none => exact ih.cons key
    | some v => exact ih.cons_cons key

lemma mem_present {fields : List (String × Option Json)} {key : String} {v : Json} :
    (key, v) ∈ (fields.filterMap fun f => f.2.map fun v => (f.1, v)) ↔ (key, some v) ∈ fields := by
  rw [List.mem_filterMap]
  constructor
  · rintro ⟨⟨key', o⟩, hmem, heq⟩
    obtain ⟨w, rfl, hw⟩ := Option.map_eq_some_iff.mp heq
    cases hw
    exact hmem
  · exact fun hmem => ⟨(key, some v), hmem, rfl⟩

lemma get?_present {fields : List (String × Option Json)} (hn : (fields.map Prod.fst).Nodup)
    {f : String × Option Json} (hf : f ∈ fields) : Dict.get? ⟨_, nodup_present hn⟩ f.1 = f.2 := by
  refine Option.ext fun v => ?_
  rw [Dict.get?_eq_some, mem_present]
  constructor
  · intro hmem
    have heq : (f.1, some v) = f := List.inj_on_of_nodup_map hn hmem hf rfl
    rw [← heq]
  · intro hv
    rw [← hv]
    exact hf

/-- Two lists of fields have the same in every place. -/
def Agree : List (String × Option Json) → List (String × Option Json) → Prop
  | (_, v) :: fs, (_, w) :: gs => v.map sortKeys = w.map sortKeys ∧ Agree fs gs
  | _, _ => True

lemma Same.fields {fs gs : List (String × Option Json)} (h : Same (record fs) (record gs)) (keys : List String)
    (hfs : fs.map Prod.fst = keys) (hgs : gs.map Prod.fst = keys) (hkeys : keys.Nodup) : Agree fs gs := by
  have hn : (fs.map Prod.fst).Nodup := hfs ▸ hkeys
  have hkeys := hfs.trans hgs.symm
  have hget := (@sortKeys_entries_eq_iff ⟨_, nodup_present hn⟩ ⟨_, nodup_present (hkeys ▸ hn)⟩).mp h
  have hs : ∀ f ∈ fs, ∀ g ∈ gs, f.1 = g.1 → f.2.map sortKeys = g.2.map sortKeys := by
    intro f hf g hg hfg
    rw [← get?_present hn hf, hget, hfg, get?_present (hkeys ▸ hn) hg]
  clear h hfs hgs hn hget
  induction fs generalizing gs with
  | nil => trivial
  | cons f fs ih =>
    cases gs with
    | nil => trivial
    | cons g gs =>
      obtain ⟨hkey, hkeys⟩ := List.cons.inj hkeys
      exact ⟨hs f (.head _) g (.head _) hkey, ih hkeys fun f' hf g' hg =>
        hs f' (.tail _ hf) g' (.tail _ hg)⟩

variable {α : Type}

/-- **Dictionaries that are the same** have the same under every key. -/
theorem Same.get? {f : α → Json} {d e : Dict String α} (h : Same (ofDict f d) (ofDict f e)) (key : String) :
    ((d.get? key).map f).map sortKeys = ((e.get? key).map f).map sortKeys := by
  have hget := sortKeys_entries_eq_iff.mp h key
  rwa [Dict.get?_mapValues, Dict.get?_mapValues] at hget

lemma rel_of_same {f : α → Json} {r : α → α → Prop} (hf : ∀ a b, Same (f a) (f b) → r a b)
    {v w : Option α} (h : (v.map f).map sortKeys = (w.map f).map sortKeys) : Option.Rel r v w := by
  cases v with
  | none =>
    cases w with
    | none => exact .none
    | some b => cases h
  | some a =>
    cases w with
    | none => cases h
    | some b => exact .some (hf a b (Option.some.inj h))

lemma option_eq {f : α → Json} (hf : ∀ a b, Same (f a) (f b) → a = b) {v w : Option α}
    (h : (v.map f).map sortKeys = (w.map f).map sortKeys) : v = w := by
  cases rel_of_same hf h with
  | none => rfl
  | some hab => rw [hab]

/-! ### Numbers -/

@[simp] lemma valid_record_nil : Valid (record []) := trivial

@[simp] lemma valid_record_cons {key : String} {o : Option Json} {fields : List (String × Option Json)} :
    Valid (record ((key, o) :: fields)) ↔ (∀ v ∈ o, Valid v) ∧ Valid (record fields) := by
  cases o <;> simp [record, Valid, ValidFields]

@[simp] lemma valid_str (text : String) : Valid (str text) := trivial

lemma valid_ofDict {f : α → Json} {d : Dict String α} (h : ∀ a, Valid (f a)) : Valid (ofDict f d) := by
  refine validFields_iff.mpr fun e he => ?_
  obtain ⟨e, -, rfl⟩ := List.mem_map.mp he
  exact h e.2

mutual

theorem valid_sortKeys : ∀ v : Json, Valid v → Valid v.sortKeys
  | null, _ => trivial
  | bool _, _ => trivial
  | num _, h => h
  | str _, _ => trivial
  | arr items, h => validItems_sortItems items h
  | obj fields, h => by
    refine validFields_iff.mpr fun f hf => ?_
    exact validFields_iff.mp (validFields_sortFields fields h) f ((List.mem_insertionSort _).mp hf)

theorem validItems_sortItems : ∀ vs : List Json, ValidItems vs → ValidItems (sortItems vs)
  | [], _ => trivial
  | v :: vs, h => ⟨valid_sortKeys v h.1, validItems_sortItems vs h.2⟩

theorem validFields_sortFields : ∀ fs : List (String × Json), ValidFields fs → ValidFields (sortFields fs)
  | [], _ => trivial
  | (_, v) :: fs, h => ⟨valid_sortKeys v h.1, validFields_sortFields fs h.2⟩

end

lemma same_of_compact {e : Escaping} {v w : Json} (hv : Valid v) (hw : Valid w)
    (h : e.compact v.sortKeys = e.compact w.sortKeys) : Same v w := by
  have hstops : Stops [] := fun c hc => by cases hc
  exact (Escaping.compact_inj v.sortKeys w.sortKeys (valid_sortKeys v hv) (valid_sortKeys w hw) hstops hstops
    (by rw [h])).1

end Qmtl.Lib.Json

import Qmtl.Lib.Text

/-!
JSON values as `json.dumps` writes them, and base64. A decoder is not fixed: all that is asked of it is
that an object begins with a brace.
-/

namespace Qmtl.Lib

/-- A JSON value; a number is kept as it is written. -/
inductive Json where
  | null
  | bool (b : Bool)
  | num (text : String)
  | str (text : String)
  | arr (items : List Json)
  | obj (fields : List (String × Json))

namespace Json

/-- `'{0:04x}'`. -/
def hex4 (n : ℕ) : List Char :=
  [n / 4096 % 16, n / 256 % 16, n / 16 % 16, n % 16].map Nat.digitChar

/-- A character in a string of `json.dumps`, which keeps to printable ASCII. -/
def escape (c : Char) : List Char :=
  if c = '"' ∨ c = '\\' then ['\\', c]
  else if c = '\n' then ['\\', 'n']
  else if c = '\r' then ['\\', 'r']
  else if c = '\t' then ['\\', 't']
  else if c = '\x0c' then ['\\', 'f']
  else if c = '\x08' then ['\\', 'b']
  else if ' ' ≤ c ∧ c ≤ '~' then [c]
  else if c.toNat < 0x10000 then '\\' :: 'u' :: hex4 c.toNat
  else
    -- a surrogate pair
    let n := c.toNat - 0x10000
    '\\' :: 'u' :: hex4 (0xd800 + n / 1024) ++ '\\' :: 'u' :: hex4 (0xdc00 + n % 1024)

def quote (text : String) : List Char := '"' :: text.toList.flatMap escape ++ ['"']

mutual

def dumps : Json → List Char
  | null => "null".toList
  | bool b => if b then "true".toList else "false".toList
  | num text => text.toList
  | str text => quote text
  | arr items => '[' :: dumpsItems items ++ [']']
  | obj fields => '\x7b' :: dumpsFields fields ++ ['\x7d']

def dumpsItems : List Json → List Char
  | [] => []
  | v :: vs => dumps v ++ (if vs.isEmpty then [] else ", ".toList) ++ dumpsItems vs

def dumpsFields : List (String × Json) → List Char
  | [] => []
  | (k, v) :: rest =>
    quote k ++ ": ".toList ++ dumps v ++ (if rest.isEmpty then [] else ", ".toList) ++ dumpsFields rest

end

def isBlank (c : Char) : Bool := c = ' ' || c = '\t' || c = '\n' || c = '\r'

structure Decoder where
  loads : String → Except String Json
  brace : ∀ text fields, loads text = .ok (.obj fields) → (text.toList.dropWhile isBlank).head? = some '\x7b'

end Json

namespace Base64

def alphabet : List Char :=
  "ABCDEFGHIJKLMNOPQRSTUVWXYZabcdefghijklmnopqrstuvwxyz0123456789+/".toList

def symbol (n : ℕ) : Char := alphabet.getD n '='

def b64encode : List UInt8 → List Char
  | [] => []
  | [a] => [symbol (a.toNat / 4), symbol (a.toNat % 4 * 16), '=', '=']
  | [a, b] =>
    [symbol (a.toNat / 4), symbol (a.toNat % 4 * 16 + b.toNat / 16), symbol (b.toNat % 16 * 4), '=']
  | a :: b :: c :: rest =>
    symbol (a.toNat / 4) :: symbol (a.toNat % 4 * 16 + b.toNat / 16) ::
      symbol (b.toNat % 16 * 4 + c.toNat / 64) :: symbol (c.toNat % 64) :: b64encode rest

lemma symbol_mem (n : ℕ) : symbol n ∈ '=' :: alphabet := by
  unfold symbol
  rw [List.getD_eq_getElem?_getD]
  cases h : alphabet[n]? with
  | none => exact .head _
  | some c => exact .tail _ (List.mem_of_getElem? h)

lemma mem_of_mem_b64encode {bytes : List UInt8} {c : Char} (h : c ∈ b64encode bytes) : c ∈ '=' :: alphabet := by
  have hpad : '=' ∈ '=' :: alphabet := (.head _)
  fun_induction b64encode bytes with
  | case1 => cases h
  | case2 a =>
    simp only [List.mem_cons, List.not_mem_nil, or_false] at h
    rcases h with rfl | rfl | rfl | rfl
    exacts [symbol_mem _, symbol_mem _, hpad, hpad]
  | case3 a b =>
    simp only [List.mem_cons, List.not_mem_nil, or_false] at h
    rcases h with rfl | rfl | rfl | rfl
    exacts [symbol_mem _, symbol_mem _, symbol_mem _, hpad]
  | case4 a b c' rest ih =>
    simp only [List.mem_cons] at h
    rcases h with rfl | rfl | rfl | rfl | h
    exacts [symbol_mem _, symbol_mem _, symbol_mem _, symbol_mem _, ih h]

end Base64

lemma Json.Decoder.loads_b64encode (d : Json.Decoder) (bytes : List UInt8) (fields : List (String × Json)) :
    d.loads (String.ofList (Base64.b64encode bytes)) ≠ .ok (.obj fields) := by
  intro h
  have hh := d.brace _ _ h
  rw [String.toList_ofList] at hh
  have hmem : '\x7b' ∈ Base64.b64encode bytes :=
    List.dropWhile_subset _ (List.mem_of_head? hh)
  have hletters : Base64.alphabet = _ := String.toList_ofList
  refine absurd (Base64.mem_of_mem_b64encode hmem) ?_
  rw [hletters]
  decide +kernel

end Qmtl.Lib

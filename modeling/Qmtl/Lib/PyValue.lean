import Qmtl.Lib.Dict
import Qmtl.Lib.Text

/-! Values as Python passes them about: `None`, numbers, texts, bytes and containers, with their truth
value, `str`, `int` and iteration. -/

namespace Qmtl.Lib

def isFloatText (text : String) : Bool :=
  let cs := if text.toList.head? = some '-' then text.toList.tail else text.toList
  cs.all (fun c => c.isDigit || c = '.' || c = 'e' || c = '+' || c = '-') &&
    cs.head?.any Char.isDigit && (cs.contains '.' || cs.contains 'e')

structure FloatLit where
  text : String
  valid : isFloatText text = true

inductive PyFloat where
  | finite (lit : FloatLit)
  | inf (neg : Bool)
  | nan

/-- The exceptions of the built-ins, and a `ValueError` with a text of its own. -/
inductive Raised where
  | typeError
  | valueError
  | attributeError
  | overflowError
  | unicodeDecodeError
  | invalid (message : String)

/-- A value; a set and a dictionary in the order of their iteration. -/
inductive Value where
  | none
  | bool (b : Bool)
  | int (n : ℤ)
  | float (x : PyFloat)
  | str (text : String)
  | bytes (data : List UInt8)
  | list (items : List Value)
  | set (items : List Value)
  | dict (items : List (Value × Value))

structure Builtins where
  lower : Lower
  parseInt : String → Option ℤ
  parseInt_empty : parseInt "" = Option.none
  repr : Value → String

def readDigits (cs : List Char) : ℕ := cs.foldl (fun n c => 10 * n + (c.toNat - 48)) 0

def readDecimal (text : String) : Option ℤ :=
  match text.toList with
  | '-' :: ds => if !ds.isEmpty && ds.all Char.isDigit then some (-(readDigits ds : ℤ)) else Option.none
  | ds => if !ds.isEmpty && ds.all Char.isDigit then some (readDigits ds : ℤ) else Option.none

def Builtins.ascii : Builtins where
  lower := Lower.ascii
  parseInt := readDecimal
  parseInt_empty := by decide
  repr _ := "..."

namespace FloatLit

def trunc (x : FloatLit) : ℤ :=
  let neg := x.text.toList.head? = some '-'
  let cs := if neg then x.text.toList.tail else x.text.toList
  let mantissa := cs.takeWhile (· ≠ 'e')
  let exponent := (cs.dropWhile (· ≠ 'e')).tail
  let whole := mantissa.takeWhile (· ≠ '.')
  let fraction := (mantissa.dropWhile (· ≠ '.')).tail
  let e : ℤ := match exponent with
    | '-' :: ds => -(readDigits ds : ℤ)
    | '+' :: ds => readDigits ds
    | ds => readDigits ds
  let scale := e - fraction.length
  let n := readDigits (whole ++ fraction)
  let size : ℕ := if 0 ≤ scale then n * 10 ^ scale.toNat else n / 10 ^ (-scale).toNat
  if neg then -(size : ℤ) else size

end FloatLit

namespace PyFloat

def isZero : PyFloat → Bool
  | finite x => x.text = "0.0" || x.text = "-0.0"
  | _ => false

def text : PyFloat → String
  | finite x => x.text
  | inf neg => if neg then "-inf" else "inf"
  | nan => "nan"

def toInt : PyFloat → Except Raised ℤ
  | finite x => .ok x.trunc
  | inf _ => .error .overflowError
  | nan => .error .valueError

end PyFloat

/-! ### Values -/

namespace Value

def truthy : Value → Bool
  | none => false
  | bool b => b
  | int n => n != 0
  | float x => !x.isZero
  | str s => s != ""
  | bytes bs => !bs.isEmpty
  | list vs => !vs.isEmpty
  | set vs => !vs.isEmpty
  | dict es => !es.isEmpty

def or (v w : Value) : Value := if v.truthy then v else w

def isNone : Value → Bool
  | none => true
  | _ => false

def toStr (B : Builtins) : Value → String
  | none => "None"
  | bool b => if b then "True" else "False"
  | int n => toString n
  | float x => x.text
  | str s => s
  | bytes [] => "b''"
  | list [] => "[]"
  | set [] => "set()"
  | dict [] => "\x7b\x7d"
  | v => B.repr v

def toInt (B : Builtins) : Value → Except Raised ℤ
  | bool b => .ok (if b then 1 else 0)
  | int n => .ok n
  | float x => x.toInt
  | str s => match B.parseInt s with
    | some n => .ok n
    | Option.none => .error .valueError
  | bytes bs =>
    -- only ASCII bytes are read
    if bs.all (· < 128) then
      match B.parseInt (String.ofList (bs.map fun b => Char.ofNat b.toNat)) with
      | some n => .ok n
      | Option.none => .error .valueError
    else .error .valueError
  | _ => .error .typeError

def iter : Value → Except Raised (List Value)
  | str s => .ok (s.toList.map fun c => .str (String.ofList [c]))
  | bytes bs => .ok (bs.map fun b => .int b.toNat)
  | list vs => .ok vs
  | set vs => .ok vs
  | dict es => .ok (es.map Prod.fst)
  | _ => .error .typeError

def lookup (key : String) : List (Value × Value) → Option Value
  | [] => Option.none
  | (.str k, v) :: rest => if k = key then some v else lookup key rest
  | _ :: rest => lookup key rest

def falseTexts : List String :=
  ["None", "False", "0", "0.0", "-0.0", "b''", "[]", "set()", "\x7b\x7d"]

lemma toStr_of_not_truthy {B : Builtins} {v : Value} (h : v.truthy = false) :
    v = .str "" ∨ v.toStr B ∈ falseTexts := by
  have hmem : ∀ {t : String}, v.toStr B = t → t ∈ falseTexts → v = .str "" ∨ v.toStr B ∈ falseTexts := by
    rintro t rfl ht
    exact .inr ht
  cases v with
  | none => exact hmem (t := "None") rfl (by decide)
  | bool b =>
    obtain rfl : b = false := h
    exact hmem (t := "False") rfl (by decide)
  | int n =>
    obtain rfl : n = 0 := by simpa [truthy] using h
    exact hmem (t := "0") rfl (by decide)
  | float x =>
    cases x with
    | finite x =>
      simp only [truthy, PyFloat.isZero, Bool.not_eq_false', Bool.or_eq_true, decide_eq_true_eq] at h
      rcases h with h | h
      · exact hmem (t := "0.0") h (by decide)
      · exact hmem (t := "-0.0") h (by decide)
    | inf neg => cases h
    | nan => cases h
  | str s =>
    obtain rfl : s = "" := by simpa [truthy] using h
    exact .inl rfl
  | bytes bs =>
    obtain rfl : bs = [] := by simpa [truthy] using h
    exact hmem (t := "b''") rfl (by decide)
  | list vs =>
    obtain rfl : vs = [] := by simpa [truthy] using h
    exact hmem (t := "[]") rfl (by decide)
  | set vs =>
    obtain rfl : vs = [] := by simpa [truthy] using h
    exact hmem (t := "set()") rfl (by decide)
  | dict es =>
    obtain rfl : es = [] := by simpa [truthy] using h
    exact hmem (t := "\x7b\x7d") rfl (by decide)

end Value

abbrev Fields := Dict String Value

def Fields.get (d : Fields) (key : String) : Value := (d.get? key).getD .none

end Qmtl.Lib

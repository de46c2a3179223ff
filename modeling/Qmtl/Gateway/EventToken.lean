import Qmtl.Lib.Base64Url
import Qmtl.Lib.CompactJson

/-!
The token of an event stream: `event_descriptor.py`.
-/

namespace Qmtl.Gateway.EventToken

open Lib

/-- A text, a number or a list of texts: the values of a token. -/
def Plain : Json → Prop
  | .str _ => True
  | .num text => Json.isNumText text = true
  | .arr items => ∀ v ∈ items, ∃ text, v = .str text
  | _ => False

structure Codec where
  dumps : List (String × Json) → List UInt8
  loads : List UInt8 → Option Json
  loads_dumps : ∀ fields, (fields.map Prod.fst).Pairwise (· < ·) → (∀ f ∈ fields, Plain f.2) →
    loads (dumps fields) = some (.obj fields)

def field (fields : List (String × Json)) (key : String) : Option Json :=
  (fields.lookup key).filter fun v => match v with
    | .null => false
    | _ => true

structure Config where
  keys : Dict String String
  activeKid : String
  ttl : ℕ

/-! ### Signing -/

def b64urlEncode (data : List UInt8) : String := String.ofList (Base64Url.encode data)

def b64urlDecode (data : String) : Option (List UInt8) := Base64Url.decode data.toList

variable (codec : Codec) (hmac : String → String → List UInt8)

def signingInput (header payload : String) : String := header ++ "." ++ payload

def signEventToken (claims : List (String × Json)) (cfg : Config) : Option String := do
  let secret ← cfg.keys.get? cfg.activeKid
  let header := b64urlEncode (codec.dumps [("alg", .str "HS256"), ("kid", .str cfg.activeKid), ("typ", .str "JWT")])
  let payload := b64urlEncode (codec.dumps claims)
  let sig := b64urlEncode (hmac secret (signingInput header payload))
  return signingInput header payload ++ "." ++ sig

def kidText : Json → Option String
  | .str text => some text
  | .num text => some text
  | .bool b => some (if b then "True" else "False")
  | _ => none

def expired (claims : List (String × Json)) (now : ℕ) : Bool :=
  match field claims "exp" with
  | none => false
  | some (.num text) => !text.toList.all Char.isDigit || Nat.ofDigitChars 10 text.toList 0 < now
  | some _ => true

def validateEventToken (token : String) (cfg : Config) (now : ℕ) : Option (List (String × Json)) :=
  match splitAt (· = '.') token with
  | [header, payload, sig] => do
    let headerJson ← (b64urlDecode header).bind codec.loads
    let kid ← match headerJson with
      | .obj fields => (field fields "kid").bind kidText
      | _ => none
    let secret ← cfg.keys.get? kid
    if b64urlDecode sig ≠ some (hmac secret (signingInput header payload)) then none
    else
      let payloadJson ← (b64urlDecode payload).bind codec.loads
      match payloadJson with
      | .obj claims =>
        match field claims "aud" with
        | some (.str "controlbus") => if expired claims now then none else some claims
        | _ => none
      | _ => none
  | _ => none

variable {codec hmac} {claims : List (String × Json)} {cfg : Config} {token : String} {now : ℕ}

lemma b64urlDecode_encode (data : List UInt8) : b64urlDecode (b64urlEncode data) = some data := by
  rw [b64urlDecode, b64urlEncode, String.toList_ofList, Base64Url.decode_encode]

lemma dot_notMem (data : List UInt8) : ∀ c ∈ (b64urlEncode data).toList, decide (c = '.') = false := by
  intro c hc
  rw [b64urlEncode, String.toList_ofList] at hc
  have hdot : '.' ∉ Base64Url.alphabet := by
    have hletters : Base64Url.alphabet = _ := String.toList_ofList
    rw [hletters]
    decide +kernel
  exact decide_eq_false fun heq => hdot (heq ▸ Base64Url.mem_of_mem_encode hc)

lemma splitAt_token (a b c : List UInt8) :
    splitAt (· = '.') (signingInput (b64urlEncode a) (b64urlEncode b) ++ "." ++ b64urlEncode c) =
      [b64urlEncode a, b64urlEncode b, b64urlEncode c] := by
  have hlist : (signingInput (b64urlEncode a) (b64urlEncode b) ++ "." ++ b64urlEncode c).toList =
      (b64urlEncode a).toList ++ '.' :: ((b64urlEncode b).toList ++ '.' :: (b64urlEncode c).toList) := by
    simp [signingInput]
  unfold splitAt
  rw [hlist, List.splitOnP_append_cons_of_forall_mem (dot_notMem a) _ (by decide),
    List.splitOnP_append_cons_of_forall_mem (dot_notMem b) _ (by decide), List.splitOnP_eq_singleton (dot_notMem c)]
  simp

/-- **What was signed is valid** until it expires, and says what was claimed. -/
theorem validate_sign (hkeys : (claims.map Prod.fst).Pairwise (· < ·)) (hplain : ∀ f ∈ claims, Plain f.2)
    (haud : field claims "aud" = some (.str "controlbus")) (h : signEventToken codec hmac claims cfg = some token) :
    validateEventToken codec hmac token cfg now = if expired claims now then none else some claims := by
  unfold signEventToken at h
  obtain ⟨secret, hs, h⟩ := Option.bind_eq_some_iff.mp h
  cases h
  have hh : codec.loads (codec.dumps [("alg", .str "HS256"), ("kid", .str cfg.activeKid), ("typ", .str "JWT")]) =
      some (.obj [("alg", .str "HS256"), ("kid", .str cfg.activeKid), ("typ", .str "JWT")]) := by
    have hsr : (["alg", "kid", "typ"] : List String).Pairwise (· < ·) := by decide
    refine codec.loads_dumps _ hsr fun f hf => ?_
    simp only [List.mem_cons, List.not_mem_nil, or_false] at hf
    rcases hf with rfl | rfl | rfl <;> exact trivial
  have hkid : (field [("alg", .str "HS256"), ("kid", .str cfg.activeKid), ("typ", .str "JWT")] "kid").bind kidText =
      some cfg.activeKid := rfl
  unfold validateEventToken
  rw [splitAt_token]
  simp only [b64urlDecode_encode, Option.bind_some, hh, hkid, hs, Option.bind_eq_bind,
    codec.loads_dumps claims hkeys hplain, haud, ne_eq, not_true_eq_false, if_false]

end Qmtl.Gateway.EventToken

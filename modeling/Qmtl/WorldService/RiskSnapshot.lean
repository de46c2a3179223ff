import Qmtl.Lib.CompactJson
import Qmtl.Lib.Except

/-!
The contract of risk snapshots: `normalize_and_validate_snapshot` on a decoded payload, the stable hash, and
`PortfolioSnapshot` with its dictionary.
-/

namespace Qmtl.WorldService.Risk

open Lib

inductive Exn where
  | valueError (message : String)
  | typeError
  | keyError (key : String)
  | overflowError
  | conflict (message : String)

abbrev Payload := Dict String Json

def Payload.get (d : Payload) (key : String) : Json := (d.get? key).getD .null

structure Env where
  isZero : String → Bool
  toStr : Json → String
  toStr_str : ∀ text, toStr (.str text) = text
  toStr_ne : ∀ v, (v matches .null | .str _) = false → toStr v ≠ ""
  toInt : Json → Option ℤ
  toInt_null : toInt .null = none
  toInt_repr : ∀ n : ℤ, toInt (.num (toString n)) = some n
  finiteFloat : String → Json → Except Exn String
  finiteFloat_num : ∀ context context' v text,
    finiteFloat context v = .ok text → finiteFloat context' (.num text) = .ok text
  dictOfList : List Json → Except Exn (List (String × Json))
  checkWeights : List (String × Json) → Except Exn Unit
  checkWeightSum : List (String × Json) → Except Exn Unit
  digest : Json → String
  digest_ne : ∀ v, digest v ≠ ""
  fromisoformat : String → Option ℤ

variable (env : Env)

def isNull : Json → Bool
  | .null => true
  | _ => false

/-- The truth of a value. -/
def truthy : Json → Bool
  | .null => false
  | .bool b => b
  | .num text => !env.isZero text
  | .str text => text ≠ ""
  | .arr items => !items.isEmpty
  | .obj fields => !fields.isEmpty

abbrev Timestamp := { text : String // text ≠ "" }

lemma toStr_ne_of_truthy {v : Json} (h : truthy env v) : env.toStr v ≠ "" := by
  cases v with
  | null => cases h
  | str text =>
    rw [env.toStr_str]
    simpa [truthy] using h
  | _ => exact env.toStr_ne _ rfl

def textOr (v : Json) : String := if truthy env v then env.toStr v else ""

def dictOf (v : Json) : Except Exn (List (String × Json)) :=
  if truthy env v then
    match v with
    | .obj fields => .ok fields
    | .arr items => env.dictOfList items
    | _ => .error .typeError
  else .ok []

def parseTimestamp (text : String) : Option ℤ :=
  match text.toList.reverse with
  | 'Z' :: rest => env.fromisoformat (String.ofList rest.reverse ++ "+00:00")
  | _ => env.fromisoformat text

def datetimeMin : ℤ := -62135596800000000
def datetimeMax : ℤ := 253402300799999999

def parseIso (text : String) : Option ℤ :=
  (parseTimestamp env text).filter fun t => datetimeMin ≤ t && t ≤ datetimeMax

def canonical (d : Payload) : Json := (Json.obj ((d.erase "hash").erase "created_at").entries).sortKeys

def stableSnapshotHash (d : Payload) : String := env.digest (canonical d)

/-! ### Realized returns -/

def maxPointsPerSeries : ℕ := 200000
def maxPointsTotal : ℕ := 1000000

def pointCount : Json → ℕ
  | .arr items => items.length
  | _ => 0

def seriesPoints (fields : List (String × Json)) : ℕ := (fields.map fun f => pointCount f.2).sum

def normalizePoint (context : String) : Json → Except Exn Json
  | .bool _ => .error (.valueError (context ++ " contains invalid boolean value"))
  | v => .num <$> env.finiteFloat context v

def normalizeFloatSeries (context : String) : Json → Except Exn (List Json)
  | .arr [] => .error (.valueError (context ++ " must be non-empty"))
  | .arr items => items.mapM (normalizePoint env context)
  | _ => .error (.valueError (context ++ " must be a sequence of finite floats"))

def normalizeSeries : List (String × Json) → ℕ → Payload → Except Exn Payload
  | [], _, normalized => .ok normalized
  | (rawKey, rawSeries) :: rest, total, normalized =>
    match stripped rawKey with
    | none => .error (.valueError "realized_returns keys must be non-empty strings")
    | some key => do
      let series ← normalizeFloatSeries env ("realized_returns[" ++ key ++ "]") rawSeries
      if maxPointsPerSeries < series.length then
        .error (.valueError ("realized_returns series too long for '" ++ key ++ "'"))
      else if maxPointsTotal < total + series.length then
        .error (.valueError "realized_returns total points exceed limit")
      else normalizeSeries rest (total + series.length) (normalized.set key (.arr series))

def normalizeRealizedReturns : Json → Except Exn Json
  | .obj [] => .error (.valueError "realized_returns must be non-empty when provided")
  | .obj fields => do
    let normalized ← normalizeSeries env fields 0 Dict.empty
    return .obj normalized.entries
  | .arr items => do
    let series ← normalizeFloatSeries env "realized_returns" (.arr items)
    if maxPointsTotal < series.length then .error (.valueError "realized_returns series too long")
    else return .arr series
  | _ => .error (.valueError "realized_returns must be a mapping[str, sequence[float]] or a sequence[float]")

/-! ### Normalization -/

/-- What `normalize_and_validate_snapshot` is configured with. -/
structure Limits where
  ttlDefault : ℤ
  ttlMax : ℤ
  allowedActors : Option (List String)
  allowedStages : Option (List String)

def requireText (key : String) (v : Json) : Except Exn String :=
  match v with
  | .str text => if text = "" then .error (.valueError (key ++ " is required")) else .ok text
  | _ => .error (.valueError (key ++ " is required"))

def normalizeTtl (limits : Limits) (d : Payload) : Except Exn Payload :=
  match (d.get? "ttl_sec").getD (.num (toString limits.ttlDefault)) with
  | .null => .ok d
  | v =>
    match env.toInt v with
    | none => .error (.valueError "ttl_sec must be an integer")
    | some ttl =>
      if ttl ≤ 0 then .error (.valueError "ttl_sec must be positive")
      else if limits.ttlMax < ttl then
        .error (.valueError ("ttl_sec must be <= " ++ toString limits.ttlMax))
      else .ok (d.set "ttl_sec" (.num (toString ttl)))

def normalizeRef (d : Payload) : Except Exn Payload :=
  match d.get "realized_returns_ref" with
  | .null => .ok d
  | .str text =>
    match stripped text with
    | some ref => .ok (d.set "realized_returns_ref" (.str ref))
    | none => .error (.valueError "realized_returns_ref must be a non-empty string when provided")
  | _ => .error (.valueError "realized_returns_ref must be a non-empty string when provided")

def normalizeRealized (d : Payload) : Except Exn Payload := do
  let d ← normalizeRef d
  match d.get "realized_returns" with
  | .null => .ok d
  | realized => do
    let normalized ← normalizeRealizedReturns env realized
    return d.set "realized_returns" normalized

def claimField (key : String) (header : Option String) (provenance : Payload) : Except Exn Payload :=
  match header with
  | none => .ok provenance
  | some value =>
    match provenance.get key with
    | .null => .ok (provenance.set key (.str value))
    | existing =>
      if env.toStr existing = value then .ok (provenance.set key (.str value))
      else .error (.valueError (key ++ " mismatch between payload and header"))

def validateField (key : String) (allowed : Option (List String)) (provenance : Payload) : Except Exn Unit :=
  let value := textOr env (provenance.get key)
  if value = "" then .error (.valueError (key ++ " is required"))
  else match allowed with
    | none => .ok ()
    | some values => if value ∈ values then .ok () else .error (.valueError (key ++ " '" ++ value ++ "' not allowed"))

def normalizeProvenance (limits : Limits) (actor stage : Option String) (d : Payload) : Except Exn Payload := do
  let fields := match d.get "provenance" with
    | .obj fields => fields
    | _ => []
  let withActor ← claimField env "actor" actor (Dict.ofList fields)
  let provenance ← claimField env "stage" stage withActor
  validateField env "actor" limits.allowedActors provenance
  validateField env "stage" limits.allowedStages provenance
  return d.set "provenance" (.obj provenance.entries)

def normalizeHash (d : Payload) : Except Exn Payload :=
  let computed := stableSnapshotHash env d
  match d.get "hash" with
  | .null => .ok (d.set "hash" (.str computed))
  | .str existing =>
    if existing = "" then .ok (d.set "hash" (.str computed))
    else if existing = computed then .ok (d.set "hash" (.str existing))
    else .error (.valueError "hash mismatch")
  | _ => .error (.valueError "hash must be a string when provided")

def checkRequired (d : Payload) : Except Exn Unit := do
  let asOf ← requireText "as_of" (d.get "as_of")
  if (parseTimestamp env asOf).isNone then .error (.valueError ("invalid as_of timestamp: " ++ asOf))
  else do
    let _ ← requireText "version" (d.get "version")
    match d.get "weights" with
    | .obj [] => .error (.valueError "weights are required")
    | .obj weights => env.checkWeights weights
    | _ => .error (.valueError "weights are required")

def withWorld (worldId : String) (d : Payload) : Except Exn Payload :=
  if worldId ≠ "" then .ok (d.set "world_id" (.str worldId))
  else if textOr env (d.get "world_id") = "" then .error (.valueError "world_id is required")
  else .ok d

def normalizeAndValidateSnapshot (limits : Limits) (worldId : String) (payload : Payload)
    (actor stage : Option String) : Except Exn Payload := do
  let data ← withWorld env worldId payload
  checkRequired env data
  let data ← normalizeTtl env limits data
  let data ← normalizeRealized env data
  let data ← normalizeProvenance env limits actor stage data
  normalizeHash env data

def normalizeEvent (limits : Limits) (event : Payload) : Except Exn Payload :=
  normalizeAndValidateSnapshot env limits (textOr env (event.get "world_id")) event none none

/-! ### Snapshots -/

structure PortfolioSnapshot where
  worldId : String
  asOf : String
  version : String
  weights : List (String × Json)
  covariance : List (String × Json)
  covarianceRef : Json
  realizedReturns : Json
  realizedReturnsRef : Json
  stressRef : Json
  stress : List (String × Json)
  constraints : List (String × Json)
  provenance : List (String × Json)
  hash : String
  ttlSec : Option ℤ
  createdAt : String
  createdAt_ne : createdAt ≠ ""

def fieldIf (c : Bool) (key : String) (v : Json) : List (String × Json) := if c then [(key, v)] else []

def PortfolioSnapshot.fields (s : PortfolioSnapshot) : List (String × Json) :=
  [("world_id", .str s.worldId), ("as_of", .str s.asOf), ("version", .str s.version), ("weights", .obj s.weights),
    ("provenance", .obj s.provenance), ("created_at", .str s.createdAt)] ++
  fieldIf (!s.covariance.isEmpty) "covariance" (.obj s.covariance) ++
  fieldIf (truthy env s.covarianceRef) "covariance_ref" s.covarianceRef ++
  fieldIf (!isNull s.realizedReturns) "realized_returns" s.realizedReturns ++
  fieldIf (truthy env s.realizedReturnsRef) "realized_returns_ref" s.realizedReturnsRef ++
  fieldIf (truthy env s.stressRef) "stress_ref" s.stressRef ++
  fieldIf (!s.stress.isEmpty) "stress" (.obj s.stress) ++
  fieldIf (!s.constraints.isEmpty) "constraints" (.obj s.constraints) ++
  fieldIf (s.hash ≠ "") "hash" (.str s.hash) ++
  fieldIf s.ttlSec.isSome "ttl_sec" (.num (toString (s.ttlSec.getD 0)))

def PortfolioSnapshot.toDict (s : PortfolioSnapshot) : Payload := Dict.ofList (s.fields env)

def createdAtOf (now : Timestamp) (v : Json) : Timestamp :=
  if h : truthy env v = true then ⟨env.toStr v, toStr_ne_of_truthy env h⟩ else now

def textOf : Json → String
  | .str text => text
  | _ => ""

/-- `PortfolioSnapshot.from_payload`; a hash that is no text does not come out of a normalization. -/
def PortfolioSnapshot.fromPayload (now : Timestamp) (d : Payload) : Except Exn PortfolioSnapshot :=
  match d.get? "world_id", d.get? "as_of", d.get? "version" with
  | some worldId, some asOf, some version => do
    let weights ← dictOf env (d.get "weights")
    let covariance ← dictOf env (d.get "covariance")
    let stress ← dictOf env (d.get "stress")
    let constraints ← dictOf env (d.get "constraints")
    let provenance ← dictOf env (d.get "provenance")
    return {
      worldId := env.toStr worldId
      asOf := env.toStr asOf
      version := env.toStr version
      weights := weights
      covariance := covariance
      covarianceRef := d.get "covariance_ref"
      realizedReturns := d.get "realized_returns"
      realizedReturnsRef := d.get "realized_returns_ref"
      stressRef := d.get "stress_ref"
      stress := stress
      constraints := constraints
      provenance := provenance
      hash := textOf (d.get "hash")
      ttlSec := env.toInt (d.get "ttl_sec")
      createdAt := (createdAtOf env now (d.get "created_at")).val
      createdAt_ne := (createdAtOf env now (d.get "created_at")).property }
  | none, _, _ => .error (.keyError "world_id")
  | _, none, _ => .error (.keyError "as_of")
  | _, _, none => .error (.keyError "version")

/-! ### The dictionary of a snapshot -/

section ToDict

variable (s : PortfolioSnapshot)

def snapshotKeys : List String :=
  ["world_id", "as_of", "version", "weights", "provenance", "created_at", "covariance", "covariance_ref",
    "realized_returns", "realized_returns_ref", "stress_ref", "stress", "constraints", "hash", "ttl_sec"]

lemma fieldIf_keys_sublist (c : Bool) (key : String) (v : Json) : ((fieldIf c key v).map Prod.fst).Sublist [key] := by
  cases c
  · exact List.nil_sublist _
  · exact List.Sublist.refl _

lemma nodup_fields : ((s.fields env).map Prod.fst).Nodup := by
  have hsub : ((s.fields env).map Prod.fst).Sublist snapshotKeys := by
    have hb : ["world_id", "as_of", "version", "weights", "provenance", "created_at"].Sublist
        ["world_id", "as_of", "version", "weights", "provenance", "created_at"] := .refl _
    simp only [PortfolioSnapshot.fields, List.map_append]
    exact ((((((((hb.append (fieldIf_keys_sublist _ _ _)).append (fieldIf_keys_sublist _ _ _)).append
      (fieldIf_keys_sublist _ _ _)).append (fieldIf_keys_sublist _ _ _)).append (fieldIf_keys_sublist _ _ _)).append
      (fieldIf_keys_sublist _ _ _)).append (fieldIf_keys_sublist _ _ _)).append (fieldIf_keys_sublist _ _ _)).append
      (fieldIf_keys_sublist _ _ _)
  exact hsub.nodup (by decide)

lemma lookup_fieldIf (c : Bool) (key key' : String) (v : Json) :
    (fieldIf c key v).lookup key' = if key' = key ∧ c then some v else none := by
  cases c with
  | false => simp [fieldIf]
  | true =>
    show ([(key, v)] : List (String × Json)).lookup key' = _
    by_cases h : key' = key <;> simp [h]

def PortfolioSnapshot.fieldAt (key : String) : Option Json :=
  if key = "world_id" then some (.str s.worldId)
  else if key = "as_of" then some (.str s.asOf)
  else if key = "version" then some (.str s.version)
  else if key = "weights" then some (.obj s.weights)
  else if key = "provenance" then some (.obj s.provenance)
  else if key = "created_at" then some (.str s.createdAt)
  else if key = "covariance" then if s.covariance.isEmpty then none else some (.obj s.covariance)
  else if key = "covariance_ref" then if truthy env s.covarianceRef then some s.covarianceRef else none
  else if key = "realized_returns" then if isNull s.realizedReturns then none else some s.realizedReturns
  else if key = "realized_returns_ref" then if truthy env s.realizedReturnsRef then some s.realizedReturnsRef else none
  else if key = "stress_ref" then if truthy env s.stressRef then some s.stressRef else none
  else if key = "stress" then if s.stress.isEmpty then none else some (.obj s.stress)
  else if key = "constraints" then if s.constraints.isEmpty then none else some (.obj s.constraints)
  else if key = "hash" then if s.hash = "" then none else some (.str s.hash)
  else if key = "ttl_sec" then s.ttlSec.map fun ttl => .num (toString ttl)
  else none

lemma get?_toDict (key : String) : (s.toDict env).get? key = s.fieldAt env key := by
  have hget : (s.toDict env).get? key = (s.fields env).lookup key := by
    unfold PortfolioSnapshot.toDict Dict.get?
    rw [Dict.entries_ofList (nodup_fields env s)]
  rw [hget]
  simp only [PortfolioSnapshot.fields, List.lookup_append, lookup_fieldIf, Dict.lookup_cons]
  by_cases hk : key ∈ snapshotKeys
  · simp only [snapshotKeys, List.mem_cons, List.not_mem_nil, or_false] at hk
    rcases hk with rfl | rfl | rfl | rfl | rfl | rfl | rfl | rfl | rfl | rfl | rfl | rfl | rfl | rfl | rfl <;>
      simp [PortfolioSnapshot.fieldAt]
    · by_cases hn : isNull s.realizedReturns <;> simp [hn]
    · cases s.ttlSec <;> rfl
  · simp only [snapshotKeys, List.mem_cons, List.not_mem_nil, or_false, not_or] at hk
    simp [PortfolioSnapshot.fieldAt, hk]

end ToDict

def readInt (text : String) : ℤ :=
  match text.toList with
  | '-' :: digits => -(Nat.ofDigitChars 10 digits 0 : ℤ)
  | digits => Nat.ofDigitChars 10 digits 0

lemma readInt_toString (n : ℤ) : readInt (toString n) = n := by
  cases n with
  | ofNat m =>
    show readInt m.repr = _
    have hd : ∀ ds, m.repr.toList ≠ '-' :: ds := fun ds h => by
      have hc := isDigit_of_mem_repr (h ▸ (.head _) : '-' ∈ m.repr.toList)
      revert hc
      decide
    unfold readInt
    split
    · rename_i ds h
      exact absurd h (hd ds)
    · rw [Nat.toList_repr, Nat.ofDigitChars_ten_toDigits]
      rfl
  | negSucc m =>
    have htext : (toString (Int.negSucc m)).toList = '-' :: Nat.toDigits 10 (m + 1) := by
      show ("-" ++ (m + 1).repr).toList = _
      rw [String.toList_append, Nat.toList_repr]
      rfl
    unfold readInt
    rw [htext]
    show -(Nat.ofDigitChars 10 (Nat.toDigits 10 (m + 1)) 0 : ℤ) = _
    rw [Nat.ofDigitChars_ten_toDigits]
    rfl

/-- Conversions of values as they are written, with the instants that some texts name; the digest of a value is its text. -/
def Env.plain (times : List (String × ℤ)) : Env where
  isZero text := text = "0"
  toStr
    | .str text => text
    | v => String.ofList ('#' :: v.compact)
  toStr_str _ := rfl
  toStr_ne v h := by
    cases v with
    | str text => cases h
    | _ => exact fun he => absurd (congrArg String.toList he) (by simp)
  toInt
    | .num text => some (readInt text)
    | _ => none
  toInt_null := rfl
  toInt_repr n := congrArg some (readInt_toString n)
  finiteFloat context
    | .num text => .ok text
    | _ => .error (.valueError (context ++ " contains non-numeric value"))
  finiteFloat_num context context' v text h := by
    cases v with
    | num t =>
      obtain rfl : t = text := Except.ok.inj h
      rfl
    | _ => cases h
  dictOfList _ := .error .typeError
  checkWeights _ := .ok ()
  checkWeightSum _ := .ok ()
  digest v := String.ofList ('#' :: v.compact)
  digest_ne v he := absurd (congrArg String.toList he) (by simp)
  fromisoformat text := times.lookup text

end Qmtl.WorldService.Risk

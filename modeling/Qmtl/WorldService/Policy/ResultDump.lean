import Qmtl.Lib.PyValue
import Qmtl.WorldService.Policy.Rules

/-!
Results and metrics as the values that a run is stored with: `model_dump` of a result, which no other result has, and
the payload that `_flatten_metrics` finds in the metrics of a run.
-/

namespace Qmtl.WorldService.PolicyEngine

open Lib

/-! ### Results -/

section

variable (write : Double → PyFloat)

mutual

def Datum.dump : Datum → Value
  | .none => .none
  | .number x => .float (write x)
  | .int n => .int n
  | .bool b => .bool b
  | .text s => .str s
  | .list items => .list (Datum.dumpAll items)
  | .dict fields => .dict (Datum.dumpFields fields)

def Datum.dumpAll : List Datum → List Value
  | [] => []
  | d :: ds => d.dump :: Datum.dumpAll ds

def Datum.dumpFields : List (String × Datum) → List (Value × Value)
  | [] => []
  | (k, d) :: fields => (.str k, d.dump) :: Datum.dumpFields fields

end

def Status.text : Status → String
  | .pass => "pass"
  | .warn => "warn"
  | .fail => "fail"

def RuleResult.dump (result : RuleResult) : Value :=
  .dict [(.str "status", .str result.status.text), (.str "severity", .str result.severity),
    (.str "owner", .str result.owner), (.str "reason_code", .str result.reasonCode),
    (.str "reason", .str result.reason), (.str "tags", .list (result.tags.map .str)),
    (.str "details", .dict (Datum.dumpFields write result.details.entries))]

variable {write}

mutual

theorem Datum.dump_injective (hw : Function.Injective write) {d d' : Datum} (h : d.dump write = d'.dump write) :
    d = d' := by
  cases d with
  | none => cases d' with
    | none => rfl
    | _ => cases h
  | number x => cases d' with
    | number y => rw [hw (Value.float.inj h)]
    | _ => cases h
  | int n => cases d' with
    | int m => rw [Value.int.inj h]
    | _ => cases h
  | bool b => cases d' with
    | bool c => rw [Value.bool.inj h]
    | _ => cases h
  | text s => cases d' with
    | text t => rw [Value.str.inj h]
    | _ => cases h
  | list items => cases d' with
    | list items' => rw [Datum.dumpAll_injective hw (Value.list.inj h)]
    | _ => cases h
  | dict fields => cases d' with
    | dict fields' => rw [Datum.dumpFields_injective hw (Value.dict.inj h)]
    | _ => cases h

theorem Datum.dumpAll_injective (hw : Function.Injective write) {ds ds' : List Datum}
    (h : Datum.dumpAll write ds = Datum.dumpAll write ds') : ds = ds' := by
  cases ds with
  | nil => cases ds' with
    | nil => rfl
    | cons d' ds' => cases h
  | cons d ds => cases ds' with
    | nil => cases h
    | cons d' ds' =>
      obtain ⟨hd, hds⟩ := List.cons.inj h
      rw [Datum.dump_injective hw hd, Datum.dumpAll_injective hw hds]

theorem Datum.dumpFields_injective (hw : Function.Injective write) {fields fields' : List (String × Datum)}
    (h : Datum.dumpFields write fields = Datum.dumpFields write fields') : fields = fields' := by
  cases fields with
  | nil => cases fields' with
    | nil => rfl
    | cons field' fields' => cases h
  | cons field fields => cases fields' with
    | nil => cases h
    | cons field' fields' =>
      obtain ⟨hfl, hf⟩ := List.cons.inj h
      obtain ⟨hkey, hd⟩ := Prod.mk.inj hfl
      rw [Datum.dumpFields_injective hw hf,
        show field = field' from Prod.ext (Value.str.inj hkey) (Datum.dump_injective hw hd)]

end

lemma Status.text_injective : Function.Injective Status.text := by
  intro s t h
  cases s <;> cases t <;> first | rfl | exact absurd h (by decide)

lemma RuleResult.dump_injective (hw : Function.Injective write) : Function.Injective (RuleResult.dump write) := by
  intro r r' h
  simp only [RuleResult.dump, Value.dict.injEq, List.cons.injEq, Prod.mk.injEq, Value.str.injEq, Value.list.injEq,
    true_and, and_true] at h
  obtain ⟨hst, hs, how, hc, hr, ht, hd⟩ := h
  have ht : r.tags = r'.tags := List.map_injective_iff.mpr (fun _ _ h => Value.str.inj h) ht
  have hd : r.details = r'.details := Dict.ext (Datum.dumpFields_injective hw hd)
  obtain ⟨status, severity, owner, reasonCode, reason, tags, details⟩ := r
  obtain rfl : status = r'.status := Status.text_injective hst
  obtain rfl : severity = r'.severity := hs
  obtain rfl : owner = r'.owner := how
  obtain rfl : reasonCode = r'.reasonCode := hc
  obtain rfl : reason = r'.reason := hr
  obtain rfl : tags = r'.tags := ht
  obtain rfl : details = r'.details := hd
  rfl

end

section

variable (builtins : Builtins) (float : ℤ → Double) (read : PyFloat → Double)

mutual

def payloadOf : Value → Payload
  | .int n => .number (float n)
  | .float x => .number (read x)
  | .dict items => .mapping (payloadFields items)
  | _ => .other

def payloadFields : List (Value × Value) → List (String × Payload)
  | [] => []
  | (k, v) :: items => (k.toStr builtins, payloadOf v) :: payloadFields items

end

end

end Qmtl.WorldService.PolicyEngine

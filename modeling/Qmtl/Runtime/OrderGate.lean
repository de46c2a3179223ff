import Qmtl.Lib.Except
import Qmtl.Runtime.TradeDispatch

/-!
The gate of an `ActivationManager` on both ways an order goes out, and the orders that get past it when it is closed.
-/

namespace Qmtl.Runtime

open Lib

variable (env : Env)

/-! ### The direction of an order -/

def direction (o : Fields) : Option String :=
  if (o.get "side").truthy then some (env.builtins.lower.fn ((o.get "side").toStr env.builtins))
  else (inferByNumeric env o ["quantity", "value", "percent", "target_percent"]).toOption.join

def gateOpen (m : ActivationState) : Payload → Bool
  | .dict o => (direction env o).any (allowSide env m)
  | .other => false

def sideless : Payload → Bool
  | .dict o => !(o.get "side").truthy
  | .other => true

def calls (log : List Entry) : List (Sink × Payload) :=
  log.filterMap fun e => match e with
    | .call sink order _ => some (sink, order)
    | .suppressed _ => none

def published (r : Except Raised (Option Fields × List (Target × Fields))) : List (Target × Fields) :=
  match r with
  | .ok (_, targets) => targets
  | .error _ => []

/-- **No order leaves through a closed gate**: a dispatch calls no sink and a node publishes nothing, unless the gate is
open for the order; and the two decide alike on a side they both know. -/
structure GateHolds (cfg : Dispatcher) (node : PublishNode) (m : ActivationState) (order : Payload) : Prop where
  dispatched : ∀ faults cache, calls (dispatch env cfg (some m) faults order ⟨cache, []⟩).2.log ≠ [] →
    gateOpen env m order = true
  published : ∀ o, order = .dict o → published (publish env node (some m) o) ≠ [] → gateOpen env m order = true
  agree : ∀ o text, order = .dict o → o.get "side" = .str text →
    env.builtins.lower.fn text ∈ ["buy", "long", "sell", "short"] → ∀ s,
      (activationBlocksOrder env (some m) o = .ok false ↔ (activationGateStep env (some m) order s).1 = .ok false)

def PublishNode.publishes (node : PublishNode) : Bool :=
  (node.commitLog || node.submitOrder) && !node.interval.isNone &&
    match caught (node.interval.toInt env.builtins) with
    | .ok (some _) => true
    | _ => false

def passesBySize (m : ActivationState) (o : Fields) : Bool :=
  match inferByNumeric env o ["quantity", "value", "percent", "target_percent"] with
  | .ok side => side.all (allowSide env m)
  | .error _ => false

/-- The gate is open for an order without a side where a custom service takes it, and for one whose side is not known
where it passes by its size and is published. -/
structure Guarded (cfg : Dispatcher) (node : PublishNode) (m : ActivationState) (order : Payload) : Prop where
  service : cfg.service = true → sideless order = true → gateOpen env m order = true
  size : ∀ o, order = .dict o → node.publishes env = true → normalizeTradeSide env (o.get "side") = none →
    passesBySize env m o = true → gateOpen env m order = true

variable {env} {cfg : Dispatcher} {node : PublishNode} {m : ActivationState} {order : Payload} {o : Fields}

lemma activationGateStep_sideless (h : sideless order) (s : DispatchState) :
    activationGateStep env (some m) order s = (.ok false, s) := by
  cases order with
  | other => rfl
  | dict o =>
    have hempty : env.builtins.lower.fn "" = "" := by rw [env.builtins.lower.onAscii _ (ascii_of_all rfl)]; rfl
    have hside : (o.get "side").truthy = false := by simpa [sideless] using h
    simp only [activationGateStep, Value.or, hside, Bool.false_eq_true, if_false, hempty, if_true]

lemma activationGateStep_side (h : sideless order = false) (s : DispatchState)
    (hp : (activationGateStep env (some m) order s).1 = .ok false) : gateOpen env m order := by
  cases order with
  | other => cases h
  | dict o =>
    have hside : (o.get "side").truthy := by simpa [sideless] using h
    simp only [activationGateStep, Value.or, hside, if_true] at hp
    simp only [gateOpen, direction, hside, if_true, Option.any_some]
    split at hp
    · rename_i text htext
      rw [htext] at hside ⊢
      rw [if_neg (env.lower_ne text (by simpa [Value.truthy] using hside))] at hp
      have hal := Except.ok.inj hp
      rw [Bool.not_eq_false'] at hal
      exact hal
    · cases hp
    · cases hp

lemma calls_dispatch {faults : Faults} {cache : List String}
    (h : calls (dispatch env cfg (some m) faults order ⟨cache, []⟩).2.log ≠ []) :
    (activationGateStep env (some m) order ⟨cache, []⟩).1 = .ok false ∧ (cfg.service ∨ sideless order = false) := by
  have hs := activationGateStep_state env (some m) order ⟨cache, []⟩
  unfold dispatch pipeline at h
  rw [runSteps] at h
  rcases hg : activationGateStep env (some m) order ⟨cache, []⟩ with ⟨r, s⟩
  rw [hg] at h hs
  obtain rfl : s = ⟨cache, []⟩ := hs
  cases r with
  | error e => exact absurd rfl h
  | ok stopped =>
    cases stopped with
    | true => exact absurd rfl h
    | false =>
      refine ⟨rfl, ?_⟩
      by_contra hnot
      rw [not_or, Bool.not_eq_true, Bool.not_eq_false] at hnot
      obtain ⟨hsr, hside⟩ := hnot
      refine h ?_
      have hst : payloadValidationStep order ⟨cache, []⟩ = (.ok true, ⟨cache, []⟩) := by
        cases order with
        | other => rfl
        | dict o => exact congrArg (fun b => (Except.ok b, _)) hside
      simp only [runSteps, customServiceDispatchStep, hsr, Bool.false_eq_true, if_false, hst]
      rfl

lemma calls_service (hs : cfg.service) {cache : List String}
    (hp : (activationGateStep env (some m) order ⟨cache, []⟩).1 = .ok false) (faults : Faults) :
    calls (dispatch env cfg (some m) faults order ⟨cache, []⟩).2.log ≠ [] := by
  have hst := activationGateStep_state env (some m) order ⟨cache, []⟩
  have hg : activationGateStep env (some m) order ⟨cache, []⟩ = (.ok false, ⟨cache, []⟩) := Prod.ext hp hst
  unfold dispatch pipeline
  simp only [runSteps, hg, customServiceDispatchStep, hs, if_true]
  cases faults.service <;> simp [calls, DispatchState.note]

/-! ### The node -/

lemma get_applyAlias {key target source : String} (h : key ≠ target) : (applyAlias o target source).get key = o.get key := by
  unfold applyAlias
  split
  · split
    · rfl
    · unfold Fields.get
      rw [Dict.get?_set_ne _ _ h]
  · rfl

lemma get_attach {key target : String} {value : Option String} (h : key ≠ target) :
    (attach o target value).get key = o.get key := by
  unfold attach
  split
  · rfl
  · split
    · rfl
    · unfold Fields.get
      rw [Dict.get?_set_ne _ _ h]

lemma get_prepareGatewayPayload {key : String} (h : key ∉ ["world_id", "strategy_id", "type", "time_in_force"]) :
    (prepareGatewayPayload node o).get key = o.get key := by
  simp only [List.mem_cons, List.not_mem_nil, or_false, not_or] at h
  obtain ⟨hw, hs, ht, htif⟩ := h
  unfold prepareGatewayPayload
  simp only [get_applyAlias htif, get_applyAlias ht]
  split
  · rw [get_attach hs, get_attach hw]
  · rfl

lemma inferByNumeric_congr {o o' : Fields} {keys : List String} (h : ∀ key ∈ keys, o.get key = o'.get key) :
    inferByNumeric env o keys = inferByNumeric env o' keys := by
  induction keys with
  | nil => rfl
  | cons key keys ih =>
    simp [inferByNumeric, h key List.mem_cons_self, ih fun k hk => h k (.tail _ hk)]

lemma inferByNumeric_append (o : Fields) (keys keys' : List String) :
    inferByNumeric env o (keys ++ keys') = (do
      let side ← inferByNumeric env o keys
      match side with
      | some side => return some side
      | none => inferByNumeric env o keys') := by
  induction keys with
  | nil => rfl
  | cons key keys ih =>
    simp only [List.cons_append, inferByNumeric]
    split
    · exact ih
    · split
      · rfl
      · exact ih
      · exact ih
      · rfl

lemma inferActivationSide_eq (o : Fields) : inferActivationSide env o =
    match normalizeTradeSide env (o.get "side") with
    | some side => .ok (some side)
    | none => inferByNumeric env o ["quantity", "value", "percent", "target_percent"] := by
  unfold inferActivationSide
  cases normalizeTradeSide env (o.get "side") with
  | some side => rfl
  | none => exact (inferByNumeric_append o ["quantity"] ["value", "percent", "target_percent"]).symm

lemma activationBlocksOrder_prepared (manager : Option ActivationState) :
    activationBlocksOrder env manager (prepareGatewayPayload node o) = activationBlocksOrder env manager o := by
  have hside : inferActivationSide env (prepareGatewayPayload node o) = inferActivationSide env o := by
    have hn : inferByNumeric env (prepareGatewayPayload node o) ["quantity", "value", "percent", "target_percent"] =
        inferByNumeric env o ["quantity", "value", "percent", "target_percent"] := by
      refine inferByNumeric_congr fun key hkey => get_prepareGatewayPayload fun hmem => ?_
      revert hkey hmem
      simp only [List.mem_cons, List.not_mem_nil, or_false]
      rintro (rfl | rfl | rfl | rfl) <;> simp
    rw [inferActivationSide_eq, inferActivationSide_eq, get_prepareGatewayPayload (by decide), hn]
  unfold activationBlocksOrder
  rw [hside]

lemma published_ne_nil : published (publish env node (some m) o) ≠ [] ↔
    node.publishes env ∧ activationBlocksOrder env (some m) o = .ok false := by
  unfold publish PublishNode.publishes
  simp only [activationBlocksOrder_prepared]
  rcases activationBlocksOrder env (some m) o with e | blocked
  · simp [published, bind, Except.bind]
  cases blocked with
  | true => simp [published, bind, Except.bind, pure, Except.pure]
  | false =>
    by_cases hn : node.interval.isNone
    · simp [published, bind, Except.bind, pure, Except.pure, hn]
    rcases caught (node.interval.toInt env.builtins) with e | interval
    · simp [published, bind, Except.bind, hn]
    cases interval with
    | none => simp [published, bind, Except.bind, pure, Except.pure, hn]
    | some n => cases node.commitLog <;> cases node.submitOrder <;>
        simp [published, bind, Except.bind, pure, Except.pure, hn]

lemma not_blocked_iff : activationBlocksOrder env (some m) o = .ok false ↔
    (∃ side, normalizeTradeSide env (o.get "side") = some side ∧ allowSide env m side) ∨
      (normalizeTradeSide env (o.get "side") = none ∧ passesBySize env m o) := by
  unfold activationBlocksOrder passesBySize
  rw [inferActivationSide_eq]
  cases normalizeTradeSide env (o.get "side") with
  | some side => simp [bind, Except.bind, pure, Except.pure]
  | none =>
    rcases inferByNumeric env o ["quantity", "value", "percent", "target_percent"] with e | side
    · simp [bind, Except.bind]
    · cases side <;> simp [bind, Except.bind, pure, Except.pure]

/-! ### Known sides -/

lemma lower_ascii {text : String} (h : (text.toList.all fun c => c.toNat < 128)) :
    env.builtins.lower.fn text = String.ofList (text.toList.map Char.toLower) :=
  env.builtins.lower.onAscii _ (ascii_of_all h)

lemma allowSide_known {text : String} : (text ∈ ["buy", "long"] → allowSide env m text = allowSide env m "buy") ∧
      (text ∈ ["sell", "short"] → allowSide env m text = allowSide env m "sell") := by
  have hlower : ∀ name ∈ ["buy", "long", "sell", "short"], env.builtins.lower.fn name = name := by
    have hnm : ∀ name ∈ ["buy", "long", "sell", "short"], (name.toList.all fun c => c.toNat < 128) ∧
        String.ofList (name.toList.map Char.toLower) = name := by decide
    intro name hn
    rw [lower_ascii (hnm name hn).1, (hnm name hn).2]
  have hside : ∀ name ∈ ["buy", "long", "sell", "short"], normalizeSide env name = sideAliases.lookup name := by
    intro name hn
    unfold normalizeSide
    rw [hlower name hn]
  constructor
  · intro htext
    unfold allowSide
    rcases List.mem_pair.mp htext with rfl | rfl
    · rfl
    · rw [hside "long" (by decide), hside "buy" (by decide)]
      rfl
  · intro htext
    unfold allowSide
    rcases List.mem_pair.mp htext with rfl | rfl
    · rfl
    · rw [hside "short" (by decide), hside "sell" (by decide)]
      rfl

lemma normalizeTradeSide_eq_some {v : Value} {side : String} (h : normalizeTradeSide env v = some side) :
    v.truthy ∧ env.builtins.lower.fn (v.toStr env.builtins) ∈ ["buy", "long", "sell", "short"] ∧
      ∀ m, allowSide env m (env.builtins.lower.fn (v.toStr env.builtins)) = allowSide env m side := by
  unfold normalizeTradeSide at h
  by_cases hn : v.isNone
  · rw [if_pos hn] at h
    cases h
  rw [if_neg hn] at h
  dsimp only at h
  have htext : env.builtins.lower.fn (v.toStr env.builtins) ∈ ["buy", "long", "sell", "short"] ∧
      ∀ m, allowSide env m (env.builtins.lower.fn (v.toStr env.builtins)) = allowSide env m side := by
    split at h
    · rename_i hbuy
      rw [← Option.some.inj h]
      refine ⟨?_, fun m => allowSide_known.1 hbuy⟩
      rcases List.mem_pair.mp hbuy with heq | heq <;> rw [heq] <;> decide
    split at h
    · rename_i hs
      rw [← Option.some.inj h]
      refine ⟨?_, fun m => allowSide_known.2 hs⟩
      rcases List.mem_pair.mp hs with heq | heq <;> rw [heq] <;> decide
    · cases h
  refine ⟨?_, htext⟩
  -- what counts as false is not the name of a side
  by_contra hf
  rw [Bool.not_eq_true] at hf
  have hfr : ∀ text ∈ "" :: Value.falseTexts, (text.toList.all fun c => c.toNat < 128) ∧
      String.ofList (text.toList.map Char.toLower) ∉ ["buy", "long", "sell", "short"] := by decide
  have hmem : v.toStr env.builtins ∈ "" :: Value.falseTexts := by
    rcases Value.toStr_of_not_truthy (B := env.builtins) hf with rfl | hmem
    · exact .head _
    · exact .tail _ hmem
  obtain ⟨hasc, hnot⟩ := hfr _ hmem
  rw [lower_ascii hasc] at htext
  exact hnot htext.1

lemma gateOpen_known {side : String} (h : normalizeTradeSide env (o.get "side") = some side) :
    gateOpen env m (.dict o) = allowSide env m side := by
  obtain ⟨ht, -, hal⟩ := normalizeTradeSide_eq_some h
  simp only [gateOpen, direction, ht, if_true, Option.any_some, hal m]

lemma normalizeTradeSide_known {text : String} (h : env.builtins.lower.fn text ∈ ["buy", "long", "sell", "short"]) :
    ∃ side, normalizeTradeSide env (.str text) = some side := by
  simp only [List.mem_cons, List.not_mem_nil, or_false] at h
  rcases h with h | h | h | h <;> simp [normalizeTradeSide, Value.isNone, Value.toStr, h]

/-- **The gate holds** exactly where no service takes an order without a side past it, and no node publishes an order
whose side is not known past it by its size. -/
theorem gateHolds_iff (cfg : Dispatcher) (node : PublishNode) (m : ActivationState) (order : Payload) :
    GateHolds env cfg node m order ↔ Guarded env cfg node m order := by
  constructor
  · intro h
    refine ⟨fun hservice hside => ?_, fun o ho hnode hnone hsize => ?_⟩
    · refine h.dispatched ⟨false, (false, false), false⟩ [] (calls_service hservice ?_ _)
      rw [activationGateStep_sideless hside]
    · exact h.published o ho (published_ne_nil.mpr ⟨hnode, not_blocked_iff.mpr (.inr ⟨hnone, hsize⟩)⟩)
  · intro h
    refine ⟨fun faults cache hcalls => ?_, ?_, ?_⟩
    · obtain ⟨hpass, hservice⟩ := calls_dispatch hcalls
      cases hside : sideless order with
      | false => exact activationGateStep_side hside _ hpass
      | true => exact h.service (hservice.resolve_right (by rw [hside]; decide)) hside
    · rintro o rfl hpublished
      obtain ⟨hnode, hblocked⟩ := published_ne_nil.mp hpublished
      rcases not_blocked_iff.mp hblocked with ⟨side, hside, hallowed⟩ | ⟨hnone, hsize⟩
      · rw [gateOpen_known hside]
        exact hallowed
      · exact h.size o rfl hnode hnone hsize
    · rintro o text rfl hget htext s
      obtain ⟨side, hside⟩ := normalizeTradeSide_known htext
      have hne : env.builtins.lower.fn text ≠ "" := fun heq => absurd (heq ▸ htext) (by decide)
      rw [← hget] at hside
      obtain ⟨htruthy, -, hallow⟩ := normalizeTradeSide_eq_some hside
      rw [hget] at htruthy hallow
      have hgate : (activationGateStep env (some m) (.dict o) s).1 = .ok (!allowSide env m side) := by
        rw [← hallow m]
        simp only [activationGateStep, hget, Value.or, htruthy, if_true, if_neg hne]
        rfl
      rw [hgate, not_blocked_iff]
      constructor
      · rintro (⟨side', hside', hallowed⟩ | ⟨hnone, -⟩)
        · rw [hside] at hside'
          rw [Option.some.inj hside', hallowed]
          rfl
        · rw [hside] at hnone
          cases hnone
      · intro heq
        have hallowed := Except.ok.inj heq
        rw [Bool.not_eq_false'] at hallowed
        exact .inl ⟨side, hside, hallowed⟩

def fiveSold : Fields := Dict.ofList [("symbol", .str "AAPL"), ("quantity", .int (-5))]

/-- **A service gets an order through a closed gate**: the order gives no side, and no one has activated a side. -/
theorem service_called_closed :
    ¬GateHolds .ascii ⟨true, true, false, false⟩ ⟨false, false, .int 60, none, none⟩ .init (.dict fiveSold) := by
  intro h
  have hclosed : gateOpen .ascii .init (.dict fiveSold) = false := by decide +kernel
  refine absurd (h.dispatched ⟨false, (false, false), false⟩ [] ?_) (by rw [hclosed]; exact Bool.false_ne_true)
  exact List.cons_ne_nil (Sink.service, Payload.dict fiveSold) []

end Qmtl.Runtime

import Mathlib.Data.String.Basic
import Qmtl.Lib.Text
import Qmtl.Runtime.Seamless.FetchCache

/-!
The progress of `as_of` on the live path: how two of them are compared, and which one is recorded for a world and a node.
-/

namespace Qmtl.Runtime.Seamless

open Lib

/-! ### `_compare_as_of` -/

inductive IsoTime where
  | naive (micros : ℤ)
  | aware (micros : ℤ)

structure AsOfBuiltins where
  isdigit : String → Bool
  int : String → Option ℤ
  float : String → Option (WithTop ℚ)
  fromisoformat : String → Option IsoTime

inductive AsOfKind where
  | number
  | naive
  | aware
  deriving DecidableEq

/-- What `_parse_as_of_value` returns with `True`: an `int` or a `float`, or the microseconds of a `datetime`. -/
structure AsOfValue where
  kind : AsOfKind
  value : WithTop ℚ

def IsoTime.toValue : IsoTime → AsOfValue
  | naive micros => ⟨.naive, (micros : ℚ)⟩
  | aware micros => ⟨.aware, (micros : ℚ)⟩

def replaceZ (text : String) : String :=
  String.ofList (text.toList.flatMap fun c => if c = 'Z' then ['+', '0', '0', ':', '0', '0'] else [c])

def parseAsOfValue (env : AsOfBuiltins) (value : String) : Option AsOfValue :=
  let text := strip value
  if text = "" then none
  else if env.isdigit text then
    match env.int text with
    | some n => some ⟨.number, (n : ℚ)⟩
    | none => (env.float text).map fun x => ⟨.number, x⟩
  else (env.fromisoformat (replaceZ text)).map IsoTime.toValue

def threeWay {α : Type} [LinearOrder α] (left right : α) : ℤ :=
  if left < right then -1 else if right < left then 1 else 0

inductive GateError where
  | missingAsOf
  | missingArtifact
  | typeError
  deriving DecidableEq

def compareAsOf (env : AsOfBuiltins) (left right : String) : Except GateError ℤ :=
  match parseAsOfValue env left, parseAsOfValue env right with
  | some x, some y => if x.kind = y.kind then .ok (threeWay x.value y.value) else .error .typeError
  | _, _ => .ok (threeWay left right)

/-! ### The gate -/

def checkLiveAsOf (env : AsOfBuiltins) (live : LiveState) (context : RequestContext) (nodeId : String)
    (coverageRatio stalenessMs : Option ℚ) : Except GateError (Option DowngradeDecision × LiveState) :=
  match context.requestedAsOf with
  | none => .ok (none, live)
  | some requested =>
    match live.get? (context.worldId, nodeId) with
    | none => .ok (none, live.set (context.worldId, nodeId) requested)
    | some previous =>
      match compareAsOf env requested previous with
      | .error e => .error e
      | .ok comparison =>
        if comparison < 0 then
          .ok (some ⟨.hold, "as_of_regression", none, coverageRatio, stalenessMs⟩, live)
        else .ok (none, live.set (context.worldId, nodeId) requested)

structure GateRequest where
  context : RequestContext
  metadata : Metadata
  nodeId : String
  nowMs : ℚ

namespace GateRequest

def key (r : GateRequest) : String × String := (r.context.worldId, r.nodeId)

def IsLive (r : GateRequest) : Prop := r.context.executionDomain = "live" ∨ r.context.executionDomain = "shadow"

instance (r : GateRequest) : Decidable r.IsLive := inferInstanceAs (Decidable (_ ∨ _))

end GateRequest

def evaluateGate (env : AsOfBuiltins) (live : LiveState) (r : GateRequest) :
    Except GateError (Metadata × Option DowngradeDecision) × LiveState :=
  if r.context.executionDomain = "backtest" ∨ r.context.executionDomain = "dryrun" then
    if r.context.requestedAsOf = none then (.error .missingAsOf, live)
    else if r.metadata.artifact = none ∧ r.metadata.manifestUri = none then (.error .missingArtifact, live)
    else (.ok (r.metadata, none), live)
  else if r.IsLive then
    let m := withMetrics r.metadata r.nowMs
    match checkLiveAsOf env live r.context r.nodeId m.coverageRatio m.stalenessMs with
    | .error e => (.error e, live)
    | .ok (decision, live) => (.ok (m, checkBounds r.context decision m.coverageRatio m.stalenessMs), live)
  else (.ok (r.metadata, none), live)

def recordedAfter (env : AsOfBuiltins) (live : LiveState) (requests : List GateRequest) : LiveState :=
  requests.foldl (fun live r => (evaluateGate env live r).2) live

/-! ### The order of `as_of`s -/

section Order

variable {env : AsOfBuiltins} {S : Set String} {a b c : String}

/-- `a` comes before `b`, or with it. -/
def NotAfter (env : AsOfBuiltins) (a b : String) : Prop := ∃ n ≤ 0, compareAsOf env a b = .ok n

/-- The comparison is a total preorder on these texts. -/
structure Ordered (env : AsOfBuiltins) (S : Set String) : Prop where
  total : ∀ a ∈ S, ∀ b ∈ S, ∃ n, compareAsOf env a b = .ok n
  antisymm : ∀ a ∈ S, ∀ b ∈ S, ∀ n, compareAsOf env a b = .ok n → compareAsOf env b a = .ok (-n)
  trans : ∀ a ∈ S, ∀ b ∈ S, ∀ c ∈ S, NotAfter env a b → NotAfter env b c → NotAfter env a c

/-- The texts that parse are of one kind, and one that does not parse never lies between two that are not in its order. -/
structure OneKind (env : AsOfBuiltins) (S : Set String) : Prop where
  kinds : ∀ a ∈ S, ∀ b ∈ S, ∀ x ∈ parseAsOfValue env a, ∀ y ∈ parseAsOfValue env b, x.kind = y.kind
  between : ∀ a ∈ S, ∀ u ∈ S, ∀ b ∈ S, ∀ x ∈ parseAsOfValue env a, ∀ y ∈ parseAsOfValue env b,
    parseAsOfValue env u = none → a < u → u < b → x.value < y.value

lemma threeWay_neg {α : Type} [LinearOrder α] (left right : α) : threeWay right left = -threeWay left right := by
  rcases lt_trichotomy left right with h | rfl | h
  · simp [threeWay, h, h.not_gt]
  · simp [threeWay]
  · simp [threeWay, h, h.not_gt]

lemma threeWay_nonpos {α : Type} [LinearOrder α] {left right : α} : threeWay left right ≤ 0 ↔ left ≤ right := by
  rcases lt_trichotomy left right with h | rfl | h
  · simp [threeWay, h, h.le]
  · simp [threeWay]
  · simp [threeWay, h, h.not_gt]

lemma compareAsOf_some {x y : AsOfValue} (ha : parseAsOfValue env a = some x) (hb : parseAsOfValue env b = some y)
    (h : x.kind = y.kind) : compareAsOf env a b = .ok (threeWay x.value y.value) := by
  simp [compareAsOf, ha, hb, if_pos h]

lemma compareAsOf_none (h : parseAsOfValue env a = none ∨ parseAsOfValue env b = none) :
    compareAsOf env a b = .ok (threeWay a b) := by
  unfold compareAsOf
  rcases h with h | h
  · rw [h]
  · rw [h]
    cases parseAsOfValue env a <;> rfl

lemma notAfter_some {x y : AsOfValue} (ha : parseAsOfValue env a = some x) (hb : parseAsOfValue env b = some y)
    (h : x.kind = y.kind) : NotAfter env a b ↔ x.value ≤ y.value := by
  simp [NotAfter, compareAsOf_some ha hb h, threeWay_nonpos]

lemma notAfter_none (h : parseAsOfValue env a = none ∨ parseAsOfValue env b = none) : NotAfter env a b ↔ a ≤ b := by
  simp [NotAfter, compareAsOf_none h, threeWay_nonpos]

lemma compareAsOf_cases (h : OneKind env S) (ha : a ∈ S) (hb : b ∈ S) :
    (∃ x y, parseAsOfValue env a = some x ∧ parseAsOfValue env b = some y ∧ x.kind = y.kind) ∨
    parseAsOfValue env a = none ∨ parseAsOfValue env b = none := by
  cases hx : parseAsOfValue env a with
  | none => exact .inr (.inl rfl)
  | some x =>
    cases hy : parseAsOfValue env b with
    | none => exact .inr (.inr rfl)
    | some y => exact .inl ⟨x, y, rfl, rfl, h.kinds a ha b hb x hx y hy⟩

lemma OneKind.notAfter_trans (h : OneKind env S) (ha : a ∈ S) (hb : b ∈ S) (hc : c ∈ S) (hab : NotAfter env a b)
    (hbc : NotAfter env b c) : NotAfter env a c := by
  have hne : ∀ {s t : String} {x : AsOfValue}, parseAsOfValue env s = some x → parseAsOfValue env t = none → s ≠ t := by
    intro s t x hs ht heq
    rw [heq, ht] at hs
    cases hs
  cases hx : parseAsOfValue env a with
  | none =>
    rw [notAfter_none (.inl hx)] at hab ⊢
    cases hy : parseAsOfValue env b with
    | none =>
      rw [notAfter_none (.inl hy)] at hbc
      exact hab.trans hbc
    | some y =>
      cases hz : parseAsOfValue env c with
      | none =>
        rw [notAfter_none (.inr hz)] at hbc
        exact hab.trans hbc
      | some z =>
        rw [notAfter_some hy hz (h.kinds b hb c hc y hy z hz)] at hbc
        by_contra hlt
        exact absurd hbc (h.between c hc a ha b hb z hz y hy hx (not_le.mp hlt) (hab.lt_of_ne (hne hy hx).symm)).not_ge
  | some x =>
    cases hy : parseAsOfValue env b with
    | none =>
      rw [notAfter_none (.inr hy)] at hab
      rw [notAfter_none (.inl hy)] at hbc
      cases hz : parseAsOfValue env c with
      | none =>
        rw [notAfter_none (.inr hz)]
        exact hab.trans hbc
      | some z =>
        rw [notAfter_some hx hz (h.kinds a ha c hc x hx z hz)]
        exact (h.between a ha b hb c hc x hx z hz hy (hab.lt_of_ne (hne hx hy)) (hbc.lt_of_ne (hne hz hy).symm)).le
    | some y =>
      rw [notAfter_some hx hy (h.kinds a ha b hb x hx y hy)] at hab
      cases hz : parseAsOfValue env c with
      | none =>
        rw [notAfter_none (.inr hz)] at hbc ⊢
        by_contra hlt
        exact absurd hab (h.between b hb c hc a ha y hy x hx hz (hbc.lt_of_ne (hne hy hz)) (not_le.mp hlt)).not_ge
      | some z =>
        rw [notAfter_some hy hz (h.kinds b hb c hc y hy z hz)] at hbc
        rw [notAfter_some hx hz (h.kinds a ha c hc x hx z hz)]
        exact hab.trans hbc

lemma Ordered.refl (h : Ordered env S) (ha : a ∈ S) : NotAfter env a a := by
  obtain ⟨n, hn⟩ := h.total a ha a ha
  have hneg := h.antisymm a ha a ha n hn
  rw [hn] at hneg
  have := Except.ok.inj hneg
  exact ⟨n, by omega, hn⟩

lemma Ordered.before_trans (h : Ordered env S) (ha : a ∈ S) (hb : b ∈ S) (hc : c ∈ S)
    (hab : ∃ n < 0, compareAsOf env a b = .ok n) (hbc : NotAfter env b c) :
    ∃ n, compareAsOf env a c = .ok n ∧ n < 0 := by
  obtain ⟨n, hneg, hn⟩ := hab
  obtain ⟨k, hk⟩ := h.total a ha c hc
  refine ⟨k, hk, ?_⟩
  by_contra hpos
  -- otherwise `c` does not come after `a`, and so `b` does not either
  have hca : NotAfter env c a := ⟨-k, by omega, h.antisymm a ha c hc k hk⟩
  obtain ⟨m, hm, hba⟩ := h.trans b hb c hc a ha hbc hca
  rw [h.antisymm a ha b hb n hn] at hba
  have := Except.ok.inj hba
  omega

lemma ordered_iff : Ordered env S ↔ OneKind env S := by
  constructor
  · intro h
    have hkn : ∀ a ∈ S, ∀ b ∈ S, ∀ x ∈ parseAsOfValue env a, ∀ y ∈ parseAsOfValue env b, x.kind = y.kind := by
      intro a ha b hb x hx y hy
      by_contra hne
      obtain ⟨n, hn⟩ := h.total a ha b hb
      rw [Option.mem_def] at hx hy
      simp only [compareAsOf, hx, hy, if_neg hne, reduceCtorEq] at hn
    refine ⟨hkn, fun a ha u hu b hb x hx y hy hnn hau hub => ?_⟩
    have hk := hkn a ha b hb x hx y hy
    have hle := h.trans a ha u hu b hb ((notAfter_none (.inr hnn)).mpr hau.le) ((notAfter_none (.inl hnn)).mpr hub.le)
    refine ((notAfter_some hx hy hk).mp hle).lt_of_not_ge fun hge => ?_
    -- with equal values `b` would come before `u` by way of `a`
    have hbc := h.trans b hb a ha u hu ((notAfter_some hy hx hk.symm).mpr hge)
      ((notAfter_none (.inr hnn)).mpr hau.le)
    exact absurd ((notAfter_none (.inr hnn)).mp hbc) hub.not_ge
  · intro h
    refine ⟨fun a ha b hb => ?_, fun a ha b hb n hn => ?_, fun a ha b hb c hc => h.notAfter_trans ha hb hc⟩
    · rcases compareAsOf_cases h ha hb with ⟨x, y, hx, hy, hk⟩ | hnn
      · exact ⟨_, compareAsOf_some hx hy hk⟩
      · exact ⟨_, compareAsOf_none hnn⟩
    · rcases compareAsOf_cases h ha hb with ⟨x, y, hx, hy, hk⟩ | hnn
      · rw [compareAsOf_some hx hy hk] at hn
        rw [compareAsOf_some hy hx hk.symm, threeWay_neg, Except.ok.inj hn]
      · rw [compareAsOf_none hnn] at hn
        rw [compareAsOf_none hnn.symm, threeWay_neg, Except.ok.inj hn]

end Order

/-! ### The recorded `as_of` -/

section Gate

variable {env : AsOfBuiltins} {live : LiveState} {r : GateRequest} {S : Set String} {key : String × String}

def Records (env : AsOfBuiltins) (live : LiveState) (r : GateRequest) (a : String) : Prop :=
  r.IsLive ∧ r.context.requestedAsOf = some a ∧
    ∀ previous ∈ live.get? r.key, ∃ n, compareAsOf env a previous = .ok n ∧ 0 ≤ n

lemma evaluateGate_cases (env : AsOfBuiltins) (live : LiveState) (r : GateRequest) :
    (evaluateGate env live r).2 = live ∨
      ∃ a, Records env live r a ∧ (evaluateGate env live r).2 = live.set r.key a := by
  unfold evaluateGate
  split_ifs with hof hao har hl
  · exact .inl rfl
  · exact .inl rfl
  · exact .inl rfl
  · unfold checkLiveAsOf
    cases hreq : r.context.requestedAsOf with
    | none => exact .inl rfl
    | some a =>
      cases hp : live.get? (r.context.worldId, r.nodeId) with
      | none =>
        refine .inr ⟨a, ⟨hl, hreq, fun previous h => ?_⟩, rfl⟩
        cases (hp.symm.trans h)
      | some previous =>
        cases hcmp : compareAsOf env a previous with
        | error e =>
          simp [hcmp]
        | ok n =>
          simp only [hcmp]
          split_ifs with hneg
          · exact .inl rfl
          · refine .inr ⟨a, ⟨hl, hreq, fun p h => ?_⟩, rfl⟩
            cases hp.symm.trans h
            exact ⟨n, hcmp, not_lt.mp hneg⟩
  · exact .inl rfl

lemma evaluateGate_of_records {a : String} (h : Records env live r a) :
    (evaluateGate env live r).2 = live.set r.key a := by
  obtain ⟨hl, hreq, hnx⟩ := h
  have hof : ¬ (r.context.executionDomain = "backtest" ∨ r.context.executionDomain = "dryrun") := by
    rcases hl with h | h <;> simp [h]
  unfold evaluateGate checkLiveAsOf
  rw [if_neg hof, if_pos hl]
  rw [GateRequest.key] at hnx ⊢
  cases hp : live.get? (r.context.worldId, r.nodeId) with
  | none => simp [hreq]
  | some previous =>
    obtain ⟨n, hn, hpos⟩ := hnx previous hp
    simp [hreq, hn, if_neg hpos.not_gt]

def Holds (decision : Option DowngradeDecision) : Prop := ∃ d, decision = some d ∧ d.mode = .hold

lemma holds_checkBounds {context : RequestContext} {decision : Option DowngradeDecision} (h : Holds decision)
    (coverageRatio stalenessMs : Option ℚ) : Holds (checkBounds context decision coverageRatio stalenessMs) := by
  have hm : ∀ (decision : Option DowngradeDecision) (reason : String), Holds decision →
      Holds (mergeDecisions decision (some ⟨.hold, reason, none, coverageRatio, stalenessMs⟩)) := by
    rintro decision reason ⟨d, rfl, hd⟩
    simp [mergeDecisions, hd, Holds]
  unfold checkBounds
  dsimp only
  split
  · split
    · refine hm _ _ ?_
      split
      · split
        · exact hm _ _ h
        · exact h
      · exact h
    · split
      · split
        · exact hm _ _ h
        · exact h
      · exact h
  · split
    · split
      · exact hm _ _ h
      · exact h
    · exact h

lemma hold_of_before (hl : r.IsLive) {a previous : String} (hreq : r.context.requestedAsOf = some a)
    (hp : live.get? r.key = some previous) {n : ℤ} (hcmp : compareAsOf env a previous = .ok n) (hneg : n < 0) :
    ∃ m d, (evaluateGate env live r).1 = .ok (m, some d) ∧ d.mode = .hold := by
  have hof : ¬ (r.context.executionDomain = "backtest" ∨ r.context.executionDomain = "dryrun") := by
    rcases hl with h | h <;> simp [h]
  rw [GateRequest.key] at hp
  unfold evaluateGate
  rw [if_neg hof, if_pos hl]
  simp only [checkLiveAsOf, hreq, hp, hcmp, if_pos hneg]
  have hh : Holds (some ⟨.hold, "as_of_regression", none, (withMetrics r.metadata r.nowMs).coverageRatio,
      (withMetrics r.metadata r.nowMs).stalenessMs⟩) := ⟨_, rfl, rfl⟩
  obtain ⟨d, hd, hmode⟩ := @holds_checkBounds r.context _ hh
    (withMetrics r.metadata r.nowMs).coverageRatio (withMetrics r.metadata r.nowMs).stalenessMs
  exact ⟨_, d, by rw [hd], hmode⟩

/-- The live requests of the world and the node ask for these `as_of`s. -/
def Within (S : Set String) (key : String × String) (requests : List GateRequest) : Prop :=
  ∀ r ∈ requests, r.IsLive → r.key = key → ∀ a ∈ r.context.requestedAsOf, a ∈ S

/-- What is recorded never goes back, and no live request that does is let through. -/
structure LiveProgress (env : AsOfBuiltins) (S : Set String) : Prop where
  never_back : ∀ key before after, Within S key (before ++ after) →
    ∀ a ∈ (recordedAfter env Dict.empty before).get? key,
      ∃ b ∈ (recordedAfter env Dict.empty (before ++ after)).get? key, NotAfter env a b
  held : ∀ key before earlier between later, Within S key (before ++ earlier :: between ++ [later]) →
    earlier.key = key → later.key = key → later.IsLive →
    ∀ a, Records env (recordedAfter env Dict.empty before) earlier a →
    ∀ b ∈ later.context.requestedAsOf, (∃ n < 0, compareAsOf env b a = .ok n) →
      ∃ m d, (evaluateGate env (recordedAfter env Dict.empty (before ++ earlier :: between)) later).1 = .ok (m, some d) ∧
        d.mode = .hold

lemma recordedAfter_append (env : AsOfBuiltins) (live : LiveState) (before after : List GateRequest) :
    recordedAfter env live (before ++ after) = recordedAfter env (recordedAfter env live before) after :=
  List.foldl_append

lemma evaluateGate_progress (h : Ordered env S) (hmem : ∀ a ∈ live.get? key, a ∈ S)
    (hreq : r.IsLive → r.key = key → ∀ a ∈ r.context.requestedAsOf, a ∈ S) :
    (∀ a ∈ (evaluateGate env live r).2.get? key, a ∈ S) ∧
    ∀ a ∈ live.get? key, ∃ b ∈ (evaluateGate env live r).2.get? key, NotAfter env a b := by
  have hs : ∀ a ∈ live.get? key, ∃ b ∈ live.get? key, NotAfter env a b := fun a ha => ⟨a, ha, h.refl (hmem a ha)⟩
  rcases evaluateGate_cases env live r with heq | ⟨b, ⟨hl, hb, hnx⟩, heq⟩
  · rw [heq]
    exact ⟨hmem, hs⟩
  · rw [heq]
    by_cases hkey : r.key = key
    · subst hkey
      have hbS := hreq hl rfl b hb
      simp only [Dict.get?_set_self, Option.mem_def, Option.some.injEq, forall_eq', exists_eq_left']
      refine ⟨hbS, fun a ha => ?_⟩
      obtain ⟨n, hn, hpos⟩ := hnx a ha
      exact ⟨-n, by omega, h.antisymm b hbS a (hmem a ha) n hn⟩
    · rw [Dict.get?_set_ne _ _ (Ne.symm hkey)]
      exact ⟨hmem, hs⟩

lemma recordedAfter_progress (h : Ordered env S) (hmem : ∀ a ∈ live.get? key, a ∈ S) {requests : List GateRequest}
    (hreq : Within S key requests) : (∀ a ∈ (recordedAfter env live requests).get? key, a ∈ S) ∧
    ∀ a ∈ live.get? key, ∃ b ∈ (recordedAfter env live requests).get? key, NotAfter env a b := by
  induction requests generalizing live with
  | nil =>
    exact ⟨hmem, fun a ha => ⟨a, ha, h.refl (hmem a ha)⟩⟩
  | cons r rest ih =>
    obtain ⟨hm', hn⟩ := evaluateGate_progress h hmem (hreq r List.mem_cons_self)
    obtain ⟨hall, hlater⟩ := ih hm' fun q hq => hreq q (.tail _ hq)
    refine ⟨hall, fun a ha => ?_⟩
    obtain ⟨b, hb, hab⟩ := hn a ha
    obtain ⟨c, hc, hbc⟩ := hlater b hb
    exact ⟨c, hc, h.trans a (hmem a ha) b (hm' b hb) c (hall c hc) hab hbc⟩

lemma Ordered.liveProgress (h : Ordered env S) : LiveProgress env S := by
  have hempty : ∀ key : String × String, ∀ a ∈ (.empty : LiveState).get? key, a ∈ S := by simp
  refine ⟨fun key before after hw a ha => ?_, fun key before earlier between later hw hkey hk' hl a
    hrc b hb hbf => ?_⟩
  · obtain ⟨hmem, -⟩ := @recordedAfter_progress env _ S key h (hempty key) before
      fun r hr => hw r (List.mem_append_left _ hr)
    rw [recordedAfter_append]
    exact (recordedAfter_progress h hmem fun r hr => hw r (List.mem_append_right _ hr)).2 a ha
  · subst hkey
    have hp : ∀ q ∈ before, q.IsLive → q.key = earlier.key → ∀ a ∈ q.context.requestedAsOf, a ∈ S :=
      fun q hq => hw q (by simp [hq])
    have haS : a ∈ S := hw earlier (by simp) hrc.1 rfl a hrc.2.1
    have hbS : b ∈ S := hw later (by simp) hl hk' b hb
    obtain ⟨hmem, -⟩ := recordedAfter_progress h (hempty earlier.key) hp
    -- `earlier` is recorded, and what is recorded later does not come before it
    have hset : a ∈ (evaluateGate env (recordedAfter env .empty before) earlier).2.get? earlier.key := by
      rw [evaluateGate_of_records hrc, Dict.get?_set_self]
      rfl
    obtain ⟨hm', -⟩ := evaluateGate_progress (r := earlier) h hmem fun _ _ => by
      intro x hx
      cases hrc.2.1.symm.trans hx
      exact haS
    obtain ⟨hall, hlater⟩ := @recordedAfter_progress env _ S _ h hm' between
      fun q hq => hw q (by simp [hq])
    obtain ⟨c, hc, hac⟩ := hlater a hset
    rw [recordedAfter_append]
    obtain ⟨k, hcmp, hk⟩ := h.before_trans hbS haS (hall c hc) hbf hac
    exact hold_of_before hl hb (hk' ▸ hc) hcmp hk

end Gate

/-- The comparison is a total preorder on the `as_of`s in play, and what is recorded never goes back, exactly when those that
parse are of one kind and none that does not parse lies between two of them that are not in its order. -/
theorem live_as_of_progress_iff (env : AsOfBuiltins) (S : Set String) :
    Ordered env S ∧ LiveProgress env S ↔ OneKind env S := by
  rw [← ordered_iff]
  exact ⟨And.left, fun h => ⟨h, h.liveProgress⟩⟩

def sampleBuiltins : AsOfBuiltins where
  isdigit text := text.toList.all fun c => '0' ≤ c && c ≤ '9'
  int text := some (text.toList.foldl (fun n c => 10 * n + (c.toNat - 48 : ℤ)) 0)
  float _ := none
  fromisoformat text := if text = "2024-01-01T00:00:00+00:00" then some (.aware 1704067200000000) else none

def sampleRequest (asOf : String) (h : some asOf ≠ some "") : GateRequest where
  context := ⟨"w", "live", some asOf, none, none, h⟩
  metadata := { interval := 60, requestedRange := (0, 600), rows := 11, coverageBounds := some (0, 600),
                manifestUri := none, artifact := none }
  nodeId := "n"
  nowMs := 600000

/-- A number and a time cannot be compared; and the numbers 10 and 9 come before and after a text that is none, so that
the recorded `as_of` goes back from 10 to 9. -/
theorem as_of_goes_back :
    compareAsOf sampleBuiltins "1704067200" "2024-01-01T00:00:00Z" = .error .typeError ∧
    compareAsOf sampleBuiltins "9" "10" = .ok (-1) ∧
    (recordedAfter sampleBuiltins Dict.empty [sampleRequest "10" (by decide)]).get? ("w", "n") = some "10" ∧
    (recordedAfter sampleBuiltins Dict.empty [sampleRequest "10" (by decide), sampleRequest "5m" (by decide),
      sampleRequest "9" (by decide)]).get? ("w", "n") = some "9" := by
  refine ⟨?_, ?_, ?_, ?_⟩ <;> decide +kernel

end Qmtl.Runtime.Seamless

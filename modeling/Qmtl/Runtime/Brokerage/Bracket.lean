import Qmtl.Lib.Log
import Qmtl.Lib.Run
import Qmtl.Runtime.Brokerage.BrokerageModel

/-!
A bracket: an entry order, and a take-profit and a stop-loss of which one cancels the other.
-/

namespace Qmtl.Runtime.Brokerage

open Lib

def BrokerageModel.withFills (m : BrokerageModel) (k : FillModel) : BrokerageModel :=
  { m with fill := fun order bar => some (k.fill order bar) }

def BrokerageModel.returned (m : BrokerageModel) (s : Books) (order : Order) (c : Call) : Option (Fill × Order × Books) :=
  (m.executeOrder s order c).1.map fun r => (r.1, r.2, (m.executeOrder s order c).2)

structure OCOOrder where
  first : Order
  second : Order
  deriving DecidableEq

def OCOOrder.execute (m : BrokerageModel) (o : OCOOrder) (s : Books) (c : Call) : Option ((Fill × Fill) × OCOOrder × Books) := do
  let (fillFirst, first, s) ← m.returned s o.first c
  if fillFirst.quantity ≠ 0 then
    return ((fillFirst, ⟨o.second.symbol, 0, c.marketPrice, 0⟩), ⟨first, o.second⟩, s)
  let (fillSecond, second, s) ← m.returned s o.second c
  if fillSecond.quantity ≠ 0 then
    return ((⟨o.first.symbol, 0, c.marketPrice, 0⟩, fillSecond), ⟨first, second⟩, s)
  return ((fillFirst, fillSecond), ⟨first, second⟩, s)

/-! ### The bracket -/

structure BracketOrder where
  entry : Order
  takeProfit : Order
  stopLoss : Order
  oco : Option OCOOrder
  filledQty : ℚ

namespace BracketOrder

variable (m : BrokerageModel) (b : BracketOrder) (s : Books) (c : Call)

def remaining : ℚ := b.entry.quantity - b.filledQty

def entryOrder : Order := { b.entry with quantity := b.remaining }

def withEntry (quantity : ℚ) : BracketOrder :=
  if quantity = 0 then b
  else { b with
    filledQty := b.filledQty + quantity
    oco := some ⟨{ b.takeProfit with quantity := -(b.filledQty + quantity) },
      { b.stopLoss with quantity := -(b.filledQty + quantity) }⟩ }

def executeEntry : Option (Fill × BracketOrder × Books) :=
  if b.remaining = 0 then some (⟨b.entry.symbol, 0, c.marketPrice, 0⟩, b, s)
  else (m.returned s b.entryOrder c).map fun r => (r.1, b.withEntry r.1.quantity, r.2.2)

def executeExits : Option ((Fill × Fill) × BracketOrder × Books) :=
  match b.oco with
  | none => some ((⟨b.takeProfit.symbol, 0, c.marketPrice, 0⟩, ⟨b.stopLoss.symbol, 0, c.marketPrice, 0⟩), b, s)
  | some o => do
    let ((fillTp, fillSl), o, s) ← o.execute m s c
    return ((fillTp, fillSl), { b with oco := if fillTp.quantity ≠ 0 ∨ fillSl.quantity ≠ 0 then none else some o }, s)

def execute : Option ((Fill × Fill × Fill) × BracketOrder × Books) := do
  let (fillEntry, b, s) ← b.executeEntry m s c
  let ((fillTp, fillSl), b, s) ← b.executeExits m s c
  return ((fillEntry, fillTp, fillSl), b, s)

end BracketOrder

/-! ### Runs -/

/-- What a call filled, and the pair that is active after it. -/
structure Outcome where
  entry : ℚ
  takeProfit : ℚ
  stopLoss : ℚ
  oco : Option OCOOrder

structure Bracketed where
  bracket : BracketOrder
  books : Books
  log : List Outcome

def Bracketed.init (entry takeProfit stopLoss : Order) (books : Books) : Bracketed :=
  ⟨⟨entry, takeProfit, stopLoss, none, 0⟩, books, []⟩

def bracketStep (m : BrokerageModel) (s : Bracketed) (c : Call) : Option Bracketed :=
  (s.bracket.execute m s.books c).map fun r => {
    bracket := r.2.1
    books := r.2.2
    log := s.log ++ [⟨r.1.1.quantity, r.1.2.1.quantity, r.1.2.2.quantity, r.2.1.oco⟩] }

def entered (log : List Outcome) : ℚ := (log.map Outcome.entry).sum

def exited (log : List Outcome) : ℚ := (log.map fun o => o.takeProfit + o.stopLoss).sum

def Left (log : List Outcome) : Prop := ∃ o ∈ log, o.takeProfit ≠ 0 ∨ o.stopLoss ≠ 0

def Matched (log : List Outcome) : Prop := Left log ∧ entered log + exited log = 0

structure Fine (before : List Outcome) (o : Outcome) : Prop where
  opposite : exited (before ++ [o]) * entered (before ++ [o]) ≤ 0
  covered : |exited (before ++ [o])| ≤ |entered (before ++ [o])|
  guarded : |exited (before ++ [o])| < |entered (before ++ [o])| → ∃ oco, o.oco = some oco ∧
    oco.first.quantity = -(entered (before ++ [o]) + exited (before ++ [o])) ∧
    oco.second.quantity = -(entered (before ++ [o]) + exited (before ++ [o]))
  finished : ∀ earlier, earlier <+: before → Matched earlier → o.entry = 0 ∧ o.takeProfit = 0 ∧ o.stopLoss = 0

/-- **A position is protected** after each call. -/
def Protected (log : List Outcome) : Prop := ∀ before o after, log = before ++ o :: after → Fine before o

/-! ### What a bar offers -/

section

variable (k : FillModel) (m : BrokerageModel) (order : Order) (c : Call)

def barOf : Option Bar := (m.slippage order c.marketPrice).map fun price => ⟨price, c.ts, m.hours, c.barVolume⟩

def offered : ℚ := ((barOf m order c).map fun bar => (k.fill order bar).1.quantity).getD 0

def Idle : Prop := ∀ bar ∈ barOf m order c, (priceOf (k.handler order) order bar).isSome →
  k.caps.applyTif order bar |order.quantity| = 0

/-- Where the price of an order is met, all of it is available, or nothing. -/
def Whole : Prop := ∀ bar ∈ barOf m order c, (priceOf (k.handler order) order bar).isSome →
  k.caps.applyTif order bar |order.quantity| = 0 ∨ k.caps.applyTif order bar |order.quantity| = |order.quantity|

end

def afterEntry (k : FillModel) (m : BrokerageModel) (b : BracketOrder) (c : Call) : BracketOrder :=
  if b.remaining = 0 then b else b.withEntry (offered k m b.entryOrder c)

/-- No exit leg fills partially, and nothing of the entry fills after an exit leg has. -/
def Unbroken (k : FillModel) (m : BrokerageModel) (s : Bracketed) (c : Call) : Prop :=
  (Left s.log → s.bracket.remaining = 0 ∨ Idle k m s.bracket.entryOrder c) ∧
  (¬Left s.log → ∀ o, (afterEntry k m s.bracket c).oco = some o →
    Whole k m o.first c ∧ (Idle k m o.first c → Whole k m o.second c))

/-! ### What an execution fills -/

variable {k : FillModel} {m : BrokerageModel} {s s' : Books} {order order' : Order} {c : Call} {fill : Fill} {bar : Bar}

lemma quantity_fill (k : FillModel) (order : Order) (bar : Bar) : (k.fill order bar).1.quantity =
    if (priceOf (k.handler order) order bar).isSome then
      if 0 ≤ order.quantity then k.caps.applyTif order bar |order.quantity| else -k.caps.applyTif order bar |order.quantity|
    else 0 := by
  unfold FillModel.fill BaseFillModel.fillAt
  cases priceOf (k.handler order) order bar <;> rfl

lemma quantity_orderAfter (type : OrderType) (order : Order) (bar : Bar) :
    (orderAfter type order bar).quantity = order.quantity := by
  cases type <;> rfl

lemma fill_eq_zero : (k.fill order bar).1.quantity = 0 ↔ ((priceOf (k.handler order) order bar).isSome →
    k.caps.applyTif order bar |order.quantity| = 0) := by
  rw [quantity_fill]
  split
  · rename_i hprice
    split <;> simp [hprice]
  · rename_i hprice
    simp [hprice]

lemma fill_eq_all (h : (priceOf (k.handler order) order bar).isSome) :
    (k.fill order bar).1.quantity = order.quantity ↔ k.caps.applyTif order bar |order.quantity| = |order.quantity| := by
  rw [quantity_fill, if_pos h]
  split
  · rename_i hpos
    rw [abs_of_nonneg hpos]
  · rename_i hneg
    rw [abs_of_neg (not_le.mp hneg), neg_eq_iff_eq_neg]

lemma idle_iff : Idle k m order c ↔ offered k m order c = 0 := by
  unfold Idle offered
  cases barOf m order c with
  | none => simp
  | some bar => simpa using fill_eq_zero.symm

lemma whole_iff : Whole k m order c ↔ offered k m order c = 0 ∨ offered k m order c = order.quantity := by
  unfold Whole offered
  cases barOf m order c with
  | none => simp
  | some bar =>
    simp only [Option.mem_def, Option.some.injEq, forall_eq', Option.map_some, Option.getD_some]
    by_cases h : (priceOf (k.handler order) order bar).isSome
    · rw [fill_eq_zero, fill_eq_all h]
      simp [h]
    · rw [fill_eq_zero]
      simp [h]

lemma returned_fill (h : (m.withFills k).returned s order c = some (fill, order', s')) : ∃ bar, barOf m order c = some bar ∧
    fill.quantity = (k.fill order bar).1.quantity ∧ order' = (k.fill order bar).2 := by
  obtain ⟨⟨fill', order''⟩, hex, heq⟩ := Option.map_eq_some_iff.mp h
  obtain ⟨rfl, rfl, -⟩ : fill' = fill ∧ order'' = order' ∧ _ := by simpa using heq
  obtain ⟨f, fee, hfilled, rfl⟩ := BrokerageModel.filled_of_executeOrder hex
  unfold BrokerageModel.filled at hfilled
  split at hfilled
  · obtain ⟨price, hprice, hf⟩ := Option.bind_eq_some_iff.mp hfilled
    have hr : k.fill order ⟨price, c.ts, m.hours, c.barVolume⟩ = (f, order'') := Option.some.inj hf
    refine ⟨⟨price, c.ts, m.hours, c.barVolume⟩, ?_, by rw [hr], by rw [hr]⟩
    unfold barOf
    rw [show m.slippage order c.marketPrice = some price from hprice]
    rfl
  · cases hfilled

lemma returned_offered (h : (m.withFills k).returned s order c = some (fill, order', s')) :
    fill.quantity = offered k m order c ∧ order'.quantity = order.quantity := by
  obtain ⟨bar, hbar, hq, rfl⟩ := returned_fill h
  unfold offered
  rw [hbar, Option.map_some, Option.getD_some]
  exact ⟨hq, quantity_orderAfter _ order _⟩

/-- Where a pair stands after a call, and what its legs have filled: one at most. -/
inductive Exits (k : FillModel) (m : BrokerageModel) (c : Call) : Option OCOOrder → ℚ → ℚ → Option OCOOrder → Prop
  | none : Exits k m c none 0 0 none
  | first {o : OCOOrder} (h : offered k m o.first c ≠ 0) : Exits k m c (some o) (offered k m o.first c) 0 none
  | second {o : OCOOrder} (h : offered k m o.first c = 0) (h' : offered k m o.second c ≠ 0) :
      Exits k m c (some o) 0 (offered k m o.second c) none
  | open {o o' : OCOOrder} (h : offered k m o.first c = 0) (h' : offered k m o.second c = 0)
      (hfirst : o'.first.quantity = o.first.quantity) (hsecond : o'.second.quantity = o.second.quantity) :
      Exits k m c (some o) 0 0 (some o')

variable {b b' : BracketOrder} {fills : Fill × Fill}

lemma executeExits_cases (h : b.executeExits (m.withFills k) s c = some (fills, b', s')) :
    ∃ oco, b' = { b with oco } ∧ Exits k m c b.oco fills.1.quantity fills.2.quantity oco := by
  unfold BracketOrder.executeExits at h
  split at h
  · rename_i hoco
    cases h
    exact ⟨none, by rw [← hoco], by rw [hoco]; exact .none⟩
  · rename_i o hoco
    rw [hoco]
    obtain ⟨⟨⟨fillTp, fillSl⟩, o', s₁⟩, hex, heq⟩ := Option.bind_eq_some_iff.mp h
    cases heq
    refine ⟨_, rfl, ?_⟩
    obtain ⟨⟨fillFirst, first, s₂⟩, hfirst, hex⟩ := Option.bind_eq_some_iff.mp hex
    obtain ⟨hq, hs⟩ := returned_offered hfirst
    dsimp only at hex
    split at hex
    · rename_i hne
      cases hex
      simp only [hq, ne_eq] at hne ⊢
      rw [if_pos (.inl hne)]
      exact .first hne
    · rename_i hz
      have hid : offered k m o.first c = 0 := by
        rw [← hq]
        exact not_not.mp hz
      obtain ⟨⟨fillSecond, second, s₃⟩, hsecond, hex⟩ := Option.bind_eq_some_iff.mp hex
      obtain ⟨hq', hs'⟩ := returned_offered hsecond
      split at hex
      · rename_i hne
        cases hex
        simp only [hq', ne_eq] at hne ⊢
        rw [if_pos (.inr hne)]
        exact .second hid hne
      · rename_i hz'
        have hi' : offered k m o.second c = 0 := by
          rw [← hq']
          exact not_not.mp hz'
        cases hex
        simp only [hq, hq', hid, hi', ne_eq, not_true_eq_false, or_self, if_false]
        exact .open hid hi' hs hs'

lemma executeEntry_cases {entry : Fill} (h : b.executeEntry (m.withFills k) s c = some (entry, b', s')) :
    b' = afterEntry k m b c ∧ b' = b.withEntry entry.quantity ∧
      (entry.quantity = 0 ↔ b.remaining = 0 ∨ Idle k m b.entryOrder c) := by
  unfold BracketOrder.executeEntry at h
  unfold afterEntry
  split at h
  · rename_i hremaining
    cases h
    rw [if_pos hremaining]
    exact ⟨rfl, (if_pos rfl).symm, iff_of_true rfl (.inl hremaining)⟩
  · rename_i hremaining
    obtain ⟨⟨fill, order', s₁⟩, hr, heq⟩ := Option.map_eq_some_iff.mp h
    cases heq
    rw [if_neg hremaining, ← (returned_offered hr).1, idle_iff, ← (returned_offered hr).1]
    exact ⟨rfl, rfl, (or_iff_right hremaining).symm⟩

/-! ### One call -/

variable {log before : List Outcome} {o : Outcome} {t t' : Bracketed}

@[simp] lemma entered_concat (log : List Outcome) (o : Outcome) : entered (log ++ [o]) = entered log + o.entry := by
  simp [entered]

@[simp] lemma exited_concat (log : List Outcome) (o : Outcome) :
    exited (log ++ [o]) = exited log + (o.takeProfit + o.stopLoss) := by
  simp [exited]

lemma left_concat : Left (log ++ [o]) ↔ Left log ∨ o.takeProfit ≠ 0 ∨ o.stopLoss ≠ 0 := by
  simp [Left, or_and_right, exists_or]

lemma protected_concat : Protected (log ++ [o]) ↔ Protected log ∧ Fine log o := by
  constructor
  · intro h
    refine ⟨fun before o' after hlog => ?_, h log o [] rfl⟩
    exact h before o' (after ++ [o]) (by rw [hlog, List.append_assoc, List.cons_append])
  · rintro ⟨hold, hf⟩ before o' after hlog
    rcases split_concat hlog with ⟨rest, hlog⟩ | ⟨rfl, rfl⟩
    · exact hold before o' rest hlog
    · exact hf

structure Stands (t : Bracketed) : Prop where
  filled : t.bracket.filledQty = entered t.log
  waiting : ¬Left t.log → exited t.log = 0 ∧ (entered t.log ≠ 0 → t.bracket.oco ≠ none) ∧
    ∀ o, t.bracket.oco = some o → o.first.quantity = -entered t.log ∧ o.second.quantity = -entered t.log
  done : Left t.log → entered t.log + exited t.log = 0 ∧ t.bracket.oco = none

lemma stands_init (entry takeProfit stopLoss : Order) (books : Books) :
    Stands (.init entry takeProfit stopLoss books) where
  filled := rfl
  waiting _ := ⟨rfl, fun h => absurd rfl h, fun o h => absurd h.symm (Option.some_ne_none o)⟩
  done h := by
    obtain ⟨o, ho, -⟩ := h
    cases ho

lemma bracketStep_cases (h : bracketStep (m.withFills k) t c = some t') :
    ∃ e tp sl oco, t'.log = t.log ++ [⟨e, tp, sl, oco⟩] ∧ t'.bracket = { t.bracket.withEntry e with oco } ∧
      afterEntry k m t.bracket c = t.bracket.withEntry e ∧
      (e = 0 ↔ t.bracket.remaining = 0 ∨ Idle k m t.bracket.entryOrder c) ∧
      Exits k m c (t.bracket.withEntry e).oco tp sl oco := by
  obtain ⟨⟨⟨entry, tp, sl⟩, b', s'⟩, hex, rfl⟩ := Option.map_eq_some_iff.mp h
  obtain ⟨⟨entry', b₁, s₁⟩, hen, hex⟩ := Option.bind_eq_some_iff.mp hex
  obtain ⟨⟨⟨tp', sl'⟩, b₂, s₂⟩, hexi, heq⟩ := Option.bind_eq_some_iff.mp hex
  cases heq
  obtain ⟨haf, hw, hz⟩ := executeEntry_cases hen
  obtain ⟨oco, hb, hc⟩ := executeExits_cases hexi
  rw [hw] at hb hc
  exact ⟨entry.quantity, tp.quantity, sl.quantity, oco, by rw [hb], hb, haf.symm.trans hw, hz, hc⟩

lemma Stands.withEntry (h : Stands t) (hl : ¬Left t.log) (e : ℚ) :
    (t.bracket.withEntry e).filledQty = entered t.log + e ∧
    (entered t.log + e ≠ 0 → (t.bracket.withEntry e).oco ≠ none) ∧ ∀ o, (t.bracket.withEntry e).oco = some o →
      o.first.quantity = -(entered t.log + e) ∧ o.second.quantity = -(entered t.log + e) := by
  obtain ⟨-, hs, hsz⟩ := h.waiting hl
  unfold BracketOrder.withEntry
  split
  · rename_i hz
    rw [hz, add_zero]
    exact ⟨h.filled, hs, hsz⟩
  · rw [h.filled]
    refine ⟨rfl, fun _ => (Option.some_ne_none _), fun o ho => ?_⟩
    cases ho
    exact ⟨rfl, rfl⟩

lemma eq_neg_of_abs {x y : ℚ} (hs : x * y ≤ 0) (habs : |x| = |y|) : x = -y := by
  rcases abs_eq_abs.mp habs with h | h
  · rw [h] at hs ⊢
    have hz : y = 0 := by nlinarith [mul_self_nonneg y]
    rw [hz, neg_zero]
  · exact h

lemma fine_exit {e tp sl : ℚ} (hl : ¬Left log) (hex : exited log = 0) :
    Fine log ⟨e, tp, sl, none⟩ ↔ tp + sl = -(entered log + e) := by
  constructor
  · intro h
    have hs := h.opposite
    have hle := h.covered
    have hg := h.guarded
    simp only [entered_concat, exited_concat, hex, zero_add] at hs hle hg
    refine eq_neg_of_abs hs (le_antisymm hle (not_lt.mp fun hlt => ?_))
    obtain ⟨oco, hoco, -⟩ := hg hlt
    exact absurd hoco.symm (Option.some_ne_none oco)
  · intro h
    refine ⟨?_, ?_, ?_, ?_⟩
    · rw [entered_concat, exited_concat, hex, zero_add, h]
      nlinarith [mul_self_nonneg (entered log + e)]
    · rw [entered_concat, exited_concat, hex, zero_add, h, abs_neg]
    · rw [entered_concat, exited_concat, hex, zero_add, h, abs_neg]
      exact fun hlt => absurd hlt (lt_irrefl _)
    · rintro earlier ⟨rest, rfl⟩ ⟨⟨o, ho, hfilled⟩, -⟩
      exact absurd ⟨o, List.mem_append_left rest ho, hfilled⟩ hl

lemma fine_open {e : ℚ} {oco : OCOOrder} (hl : ¬Left log) (hex : exited log = 0)
    (hfirst : oco.first.quantity = -(entered log + e)) (hsecond : oco.second.quantity = -(entered log + e)) :
    Fine log ⟨e, 0, 0, some oco⟩ := by
  refine ⟨?_, ?_, ?_, ?_⟩
  · simp [hex]
  · simp [hex]
  · intro _
    refine ⟨oco, rfl, ?_, ?_⟩
    · simpa [hex] using hfirst
    · simpa [hex] using hsecond
  · rintro earlier ⟨rest, rfl⟩ ⟨⟨o, ho, hfilled⟩, -⟩
    exact absurd ⟨o, List.mem_append_left rest ho, hfilled⟩ hl

lemma fine_done {e : ℚ} (hl : Left log) (hm : entered log + exited log = 0) :
    Fine log ⟨e, 0, 0, none⟩ ↔ e = 0 := by
  constructor
  · intro h
    exact (h.finished log (List.prefix_refl log) ⟨hl, hm⟩).1
  · rintro rfl
    have hex : exited log = -entered log := by linarith
    refine ⟨?_, ?_, ?_, fun _ _ _ => ⟨rfl, rfl, rfl⟩⟩
    · simp only [entered_concat, exited_concat, hex, add_zero]
      nlinarith [mul_self_nonneg (entered log)]
    · simp [hex]
    · intro hlt
      simp [hex] at hlt

lemma fine_step_left (h : Stands t) (hl : Left t.log) (hs : bracketStep (m.withFills k) t c = some t') :
    ∃ o, t'.log = t.log ++ [o] ∧ (Fine t.log o ↔ Unbroken k m t c) ∧ (Fine t.log o → Stands t') := by
  obtain ⟨e, tp, sl, oco, hlog, hb, -, hz, hex⟩ := bracketStep_cases hs
  obtain ⟨hm, hoco⟩ := h.done hl
  have hun : Unbroken k m t c ↔ e = 0 :=
    ⟨fun hu => hz.mpr (hu.1 hl), fun he => ⟨fun _ => hz.mp he, fun hnot => absurd hl hnot⟩⟩
  refine ⟨⟨e, tp, sl, oco⟩, hlog, ?_⟩
  by_cases he : e = 0
  · subst he
    have hsm : t.bracket.withEntry 0 = t.bracket := if_pos rfl
    rw [hsm] at hb hex
    rw [hoco] at hex
    cases hex
    refine ⟨(fine_done hl hm).trans hun.symm, fun _ => ⟨?_, ?_, ?_⟩⟩
    · rw [hb, hlog, entered_concat, add_zero]
      exact h.filled
    · rw [hlog]
      exact fun hnot => absurd (left_concat.mpr (.inl hl)) hnot
    · rw [hb, hlog, entered_concat, exited_concat]
      exact fun _ => ⟨by simpa using hm, rfl⟩
  · -- the entry fills on: that is neither fine nor unbroken
    have hnot : ¬Fine t.log ⟨e, tp, sl, oco⟩ := fun hf =>
      he (hf.finished t.log (List.prefix_refl t.log) ⟨hl, hm⟩).1
    exact ⟨iff_of_false hnot fun hu => he (hun.mp hu), fun hf => absurd hf hnot⟩

lemma closed_step (h : Stands t) (hl : ¬Left t.log) {e tp sl : ℚ} (hne : tp ≠ 0 ∨ sl ≠ 0)
    (hlog : t'.log = t.log ++ [⟨e, tp, sl, none⟩]) (hb : t'.bracket = { t.bracket.withEntry e with oco := none })
    (hf : Fine t.log ⟨e, tp, sl, none⟩) : Stands t' := by
  obtain ⟨hex, -⟩ := h.waiting hl
  have hfilled := (fine_exit hl hex).mp hf
  refine ⟨?_, ?_, ?_⟩
  · rw [hb, hlog, entered_concat]
    exact (h.withEntry hl e).1
  · rw [hlog]
    exact fun hnot => absurd (left_concat.mpr (.inr hne)) hnot
  · rw [hb, hlog, entered_concat, exited_concat, hex, hfilled]
    exact fun _ => ⟨by ring, rfl⟩

lemma fine_step_waiting (h : Stands t) (hlf : ¬Left t.log) (hst : bracketStep (m.withFills k) t c = some t') :
    ∃ o, t'.log = t.log ++ [o] ∧ (Fine t.log o ↔ Unbroken k m t c) ∧ (Fine t.log o → Stands t') := by
  obtain ⟨e, tp, sl, oco, hlog, hb, haf, hz, hexi⟩ := bracketStep_cases hst
  obtain ⟨hex, -⟩ := h.waiting hlf
  obtain ⟨hfilled, hsm, hs⟩ := h.withEntry hlf e
  have hun : Unbroken k m t c ↔ ∀ o, (t.bracket.withEntry e).oco = some o →
      Whole k m o.first c ∧ (Idle k m o.first c → Whole k m o.second c) := by
    unfold Unbroken
    rw [haf]
    exact ⟨fun hu => hu.2 hlf, fun hu => ⟨fun hl => absurd hl hlf, fun _ => hu⟩⟩
  refine ⟨⟨e, tp, sl, oco⟩, hlog, ?_⟩
  rw [hun]
  generalize hpr : (t.bracket.withEntry e).oco = pair at hexi hsm hs
  cases hexi with
  | none =>
    -- there is no pair, since nothing has been entered
    have hen : entered t.log + e = 0 := by
      by_contra hne
      exact hsm hne rfl
    have hf : Fine t.log ⟨e, 0, 0, none⟩ := (fine_exit hlf hex).mpr (by rw [hen]; norm_num)
    refine ⟨iff_of_true hf fun o ho => absurd ho.symm (Option.some_ne_none o), fun _ => ⟨?_, ?_, ?_⟩⟩
    · rw [hb, hlog, entered_concat]
      exact hfilled
    · rw [hb, hlog, entered_concat, exited_concat, hex, hen]
      exact fun _ => ⟨by norm_num, fun hne => absurd rfl hne, fun o ho => absurd ho.symm (Option.some_ne_none o)⟩
    · rw [hlog]
      exact fun hl => absurd (left_concat.mp hl) (by simp [hlf])
  | @first o hne =>
    obtain ⟨hfirst, -⟩ := hs o rfl
    refine ⟨?_, closed_step h hlf (.inl hne) hlog hb⟩
    rw [fine_exit hlf hex, add_zero, ← hfirst]
    constructor
    · intro hall o' ho'
      cases ho'
      exact ⟨whole_iff.mpr (.inr hall), fun hid => absurd (idle_iff.mp hid) hne⟩
    · intro hu
      exact (whole_iff.mp (hu o rfl).1).resolve_left hne
  | @second o hid hne =>
    obtain ⟨-, hsecond⟩ := hs o rfl
    refine ⟨?_, closed_step h hlf (.inr hne) hlog hb⟩
    rw [fine_exit hlf hex, zero_add, ← hsecond]
    constructor
    · intro hall o' ho'
      cases ho'
      exact ⟨whole_iff.mpr (.inl hid), fun _ => whole_iff.mpr (.inr hall)⟩
    · intro hu
      exact (whole_iff.mp ((hu o rfl).2 (idle_iff.mpr hid))).resolve_left hne
  | @«open» o o' hid hi' hsa hs' =>
    obtain ⟨hfirst, hsecond⟩ := hs o rfl
    rw [← hsa] at hfirst
    rw [← hs'] at hsecond
    refine ⟨iff_of_true (fine_open hlf hex hfirst hsecond) fun p hp => ?_, fun _ => ⟨?_, ?_, ?_⟩⟩
    · cases hp
      exact ⟨whole_iff.mpr (.inl hid), fun _ => whole_iff.mpr (.inl hi')⟩
    · rw [hb, hlog, entered_concat]
      exact hfilled
    · rw [hb, hlog, entered_concat, exited_concat, hex]
      refine fun _ => ⟨by norm_num, fun _ => Option.some_ne_none o', fun p hp => ?_⟩
      cases hp
      exact ⟨hfirst, hsecond⟩
    · rw [hlog]
      exact fun hl => absurd (left_concat.mp hl) (by simp [hlf])

/-- **One call** is fine exactly where it is unbroken, and the bracket stands after it. -/
theorem fine_step (h : Stands t) (hs : bracketStep (m.withFills k) t c = some t') :
    ∃ o, t'.log = t.log ++ [o] ∧ (Fine t.log o ↔ Unbroken k m t c) ∧ (Fine t.log o → Stands t') := by
  by_cases hl : Left t.log
  · exact fine_step_left h hl hs
  · exact fine_step_waiting h hl hs

/-- **Every run** of a bracket is protected exactly where each of its calls is unbroken. -/
theorem unbroken_iff (k : FillModel) (m : BrokerageModel) (entry takeProfit stopLoss : Order) (books : Books)
    (t : Bracketed) : Run (bracketStep (m.withFills k)) (Unbroken k m) (.init entry takeProfit stopLoss books) t ↔
      Run (bracketStep (m.withFills k)) (fun _ _ => True) (.init entry takeProfit stopLoss books) t ∧ Protected t.log := by
  constructor
  · intro h
    refine ⟨h.mono fun _ _ _ => trivial, ?_⟩
    have hboth : Stands t ∧ Protected t.log := by
      refine h.invariant (I := fun t => Stands t ∧ Protected t.log) ⟨stands_init entry takeProfit stopLoss books, ?_⟩ ?_
      · exact fun before o after hlog => absurd hlog.symm (by simp [Bracketed.init])
      · intro t c t' hI hunbroken hstep
        obtain ⟨o, hlog, hiff, hstands⟩ := fine_step hI.1 hstep
        have hfine := hiff.mpr hunbroken
        rw [hlog]
        exact ⟨hstands hfine, protected_concat.mpr ⟨hI.2, hfine⟩⟩
    exact hboth.2
  · rintro ⟨h, hprotected⟩
    have hboth : Stands t ∧ Run (bracketStep (m.withFills k)) (Unbroken k m) (.init entry takeProfit stopLoss books) t := by
      induction h with
      | init => exact ⟨stands_init entry takeProfit stopLoss books, .init⟩
      | next _ _ hstep ih =>
        obtain ⟨e, tp, sl, oco, hlog, -⟩ := bracketStep_cases hstep
        rw [hlog] at hprotected
        obtain ⟨hold, hfine⟩ := protected_concat.mp hprotected
        obtain ⟨hstands, hrun⟩ := ih hold
        obtain ⟨o, hlog', hiff, hnext⟩ := fine_step hstands hstep
        obtain rfl : ⟨e, tp, sl, oco⟩ = o := by simpa using hlog.symm.trans hlog'
        exact ⟨hnext hfine, hrun.next (hiff.mp hfine) hstep⟩
    exact hboth.2

/-! ### A partial exit -/

def plainBrokerage : BrokerageModel where
  baseCurrency := "USD"
  hasSufficientBuyingPower _ _ := some true
  fee _ _ := some 0
  slippage _ price := some price
  fill _ _ := none
  symbols := none
  hours := none
  shortable := none
  settlement := none

def fiftyAtATime : FillModel := .unified ⟨some 50, none⟩

def entryOf100 : Order := ⟨"AAPL", 100, 100, .limit, .day, some 100, none, none, none, none⟩

def takeProfitAt110 : Order := ⟨"AAPL", -100, 100, .limit, .day, some 110, none, none, none, none⟩

def stopLossAt90 : Order := ⟨"AAPL", -100, 100, .stop, .day, none, some 90, none, none, none⟩

def noBooks : Books := ⟨.empty, [], .empty, .empty⟩

def callAt (price : ℚ) : Call := ⟨price, none, none, 0, 0⟩

/-- **A position is left unprotected**: the take-profit fills half of it, and the pair is gone. -/
theorem unprotected_after_partial_exit : ∃ t, Run (bracketStep (plainBrokerage.withFills fiftyAtATime)) (fun _ _ => True)
    (.init entryOf100 takeProfitAt110 stopLossAt90 noBooks) t ∧ ¬Protected t.log := by
  have hexec : (execIf (bracketStep (plainBrokerage.withFills fiftyAtATime)) (fun _ _ => true)
      (.init entryOf100 takeProfitAt110 stopLossAt90 noBooks) [callAt 100, callAt 100, callAt 110]).any
        (fun t => decide (∃ o ∈ t.log.getLast?, o.oco = none ∧ |exited t.log| < |entered t.log|)) := by decide +kernel
  obtain ⟨t, hrun, ht⟩ := exists_run _ _ _ _ _ hexec
  obtain ⟨o, ho, hnone, hlt⟩ := of_decide_eq_true ht
  refine ⟨t, hrun.mono fun _ _ _ => trivial, fun hprotected => ?_⟩
  have hlog : t.log = t.log.dropLast ++ [o] := (List.dropLast_append_getLast? o ho).symm
  have hfine := hprotected t.log.dropLast o [] hlog
  obtain ⟨oco, hoco, -⟩ := hfine.guarded (by rwa [← hlog])
  exact absurd (hnone.symm.trans hoco).symm (Option.some_ne_none oco)

end Qmtl.Runtime.Brokerage

import Qmtl.Runtime.Brokerage.Bracket

/-!
What an order is charged: the fee models, and an order that is worked through fills of a part of it.
-/

namespace Qmtl.Runtime.Brokerage

open Lib

/-! ### The fee models -/

inductive FeeModel where
  | percent (rate minimum : ℚ)
  | perShare (feePerShare minimum : ℚ) (maximum : Option ℚ)
  | composite (components : List FeeModel)
  | ibkr (tiers : List (ℤ × ℚ)) (minimum exchangeFeeRemove exchangeFeeAdd regulatoryFeeRemove regulatoryFeeAdd : ℚ)
  | makerTaker (makerRate takerRate minimum : ℚ)
  | tieredExchange (tiers : List (ℚ × ℚ)) (minimum : ℚ)
  | borrow (rate : ℚ)

/-- The bands of `IBKRFeeModel.calculate`: what remains, the fee so far and the last threshold. -/
def ibkrBand (st : ℚ × ℚ × ℤ) (tier : ℤ × ℚ) : ℚ × ℚ × ℤ :=
  let band := max 0 (min st.1 ((tier.1 : ℚ) - st.2.2))
  if 0 < band then (st.1 - band, st.2.1 + band * tier.2, tier.1) else st

def ibkrBrokerFee (tiers : List (ℤ × ℚ)) (minimum shares : ℚ) : ℚ :=
  let (remaining, fee, _) := tiers.foldl ibkrBand (shares, 0, 0)
  max (if 0 < remaining then fee + remaining * (1 / 500) else fee) minimum

def perShareFee (feePerShare minimum : ℚ) (maximum : Option ℚ) (shares : ℚ) : ℚ :=
  let fee := if shares * feePerShare < minimum then minimum else shares * feePerShare
  match maximum with
  | some maximum => if maximum < fee then maximum else fee
  | none => fee

mutual

def FeeModel.calculate : FeeModel → Order → ℚ → Option ℚ
  | .percent rate minimum, order, fillPrice => some (max (|order.quantity| * fillPrice * rate) minimum)
  | .perShare feePerShare minimum maximum, order, _ => some (perShareFee feePerShare minimum maximum |order.quantity|)
  | .composite components, order, fillPrice => calculateAll components order fillPrice
  | .ibkr tiers minimum exchangeFeeRemove exchangeFeeAdd regulatoryFeeRemove regulatoryFeeAdd, order, _ =>
    let addsLiquidity := order.addsLiquidity.getD (order.type != .market)
    let perShare := if addsLiquidity then exchangeFeeAdd + regulatoryFeeAdd else exchangeFeeRemove + regulatoryFeeRemove
    some (ibkrBrokerFee tiers minimum |order.quantity| + |order.quantity| * perShare)
  | .makerTaker makerRate takerRate minimum, order, fillPrice =>
    some (max (|order.quantity| * fillPrice * if order.type = .market then takerRate else makerRate) minimum)
  | .tieredExchange tiers minimum, order, fillPrice =>
    let notional := |order.quantity| * fillPrice
    tiers.getLast?.map fun last =>
      max (notional * ((tiers.find? fun tier => notional ≤ tier.1).getD last).2) minimum
  | .borrow rate, order, fillPrice => some (if 0 ≤ order.quantity then 0 else |order.quantity| * fillPrice * rate)

def calculateAll : List FeeModel → Order → ℚ → Option ℚ
  | [], _, _ => some 0
  | f :: fs, order, fillPrice => do
    let fee ← f.calculate order fillPrice
    let rest ← calculateAll fs order fillPrice
    return fee + rest

end

/-- A percentage or a fee for each share, without a minimum or a maximum. -/
def FeeModel.Proportional (f : FeeModel) : Prop := ∃ rate, f = .percent rate 0 ∨ f = .perShare rate 0 none

lemma FeeModel.Proportional.calculate_eq {f : FeeModel} (h : f.Proportional) (price : ℚ) :
    ∃ unit, 0 ≤ unit ∧ ∀ order : Order, f.calculate order price = some (|order.quantity| * unit) := by
  obtain ⟨rate, rfl | rfl⟩ := h
  · refine ⟨max (price * rate) 0, le_max_right _ _, fun order => ?_⟩
    rw [FeeModel.calculate, mul_assoc, mul_max_of_nonneg _ _ (abs_nonneg _), mul_zero]
  · refine ⟨max rate 0, le_max_right _ _, fun order => ?_⟩
    have hfee : perShareFee rate 0 none |order.quantity| = max (|order.quantity| * rate) 0 := by
      unfold perShareFee
      grind
    rw [FeeModel.calculate, hfee, mul_max_of_nonneg _ _ (abs_nonneg _), mul_zero]

/-! ### What an execution charges -/

namespace BrokerageModel

def withFees (m : BrokerageModel) (f : FeeModel) : BrokerageModel := { m with fee := f.calculate }

def withImmediate (m : BrokerageModel) : BrokerageModel :=
  { m with fill := fun order bar => some (⟨order.symbol, order.quantity, bar.price, 0⟩, order) }

variable {m : BrokerageModel} {s s' : Books} {order order' : Order} {c : Call} {fill : Fill} {f : FeeModel}

lemma fee_of_idle (h : m.returned s order c = some (fill, order', s')) (hz : fill.quantity = 0) : fill.fee = 0 := by
  obtain ⟨⟨fill', order''⟩, hex, heq⟩ := Option.map_eq_some_iff.mp h
  obtain ⟨rfl, rfl, -⟩ : fill' = fill ∧ order'' = order' ∧ _ := by simpa using heq
  obtain ⟨f, fee, hfilled, rfl⟩ := filled_of_executeOrder hex
  unfold executeOrder at hex
  rw [hfilled] at hex
  dsimp only at hex
  rw [if_pos hz] at hex
  cases hex
  rfl

lemma applySettlement_fee (s : Books) (c : Call) (fill : Fill) (fee : ℚ) (currency : String) :
    (m.applySettlement s c { fill with fee } currency).1 = (m.applySettlement s c fill currency).1 := by
  unfold applySettlement
  cases m.settlement with
  | none => rfl
  | some settlement =>
    simp only [SettlementModel.record]
    cases settlement.addBusinessDays c.now settlement.days <;> rfl

lemma returned_eq (hfilled : m.filled s order c = some (fill, order')) (hne : fill.quantity ≠ 0)
    (hb : ¬m.Borrows fill) : m.returned s order c = (m.fee order' fill.price).bind fun fee =>
      if (m.applySettlement s c fill (m.resolveCurrency order')).1 then
        some ({ fill with fee }, order', (m.applySettlement s c { fill with fee } (m.resolveCurrency order')).2)
      else none := by
  have hz : m.borrowFee s order' c fill = some (0, s) := by
    unfold borrowFee
    split
    · rfl
    · rename_i p hp
      exact if_pos (not_lt.mp fun hlt => hb ⟨by rw [hp]; rfl, hlt⟩)
  unfold returned executeOrder
  rw [hfilled]
  simp only [if_neg hne, hz]
  cases m.fee order' fill.price with
  | none => rfl
  | some fee =>
    simp only [add_zero, Option.bind_some, applySettlement_fee]
    split <;> rfl

lemma returned_withFees (h : (m.withFees f).returned s order c = some (fill, order', s')) (hne : fill.quantity ≠ 0)
    (hb : ¬m.Borrows fill) : f.calculate order' fill.price = some fill.fee ∧
      ∀ (g : FeeModel) (fee : ℚ), g.calculate order' fill.price = some fee →
        ∃ s'', (m.withFees g).returned s order c = some ({ fill with fee }, order', s'') := by
  obtain ⟨⟨fill', order''⟩, hex, heq⟩ := Option.map_eq_some_iff.mp h
  obtain ⟨rfl, rfl, -⟩ : fill' = fill ∧ order'' = order' ∧ _ := by simpa using heq
  obtain ⟨f₀, fee, hfilled, rfl⟩ := filled_of_executeOrder hex
  rw [returned_eq hfilled hne hb] at h
  obtain ⟨fee', hfee, h⟩ := Option.bind_eq_some_iff.mp h
  split at h
  · rename_i hs
    cases h
    refine ⟨hfee, fun g fee hg => ?_⟩
    have hf' : (m.withFees g).filled s order c = some (f₀, order'') := hfilled
    have hg' : (m.withFees g).fee order'' f₀.price = some fee := hg
    rw [returned_eq hf' hne hb, hg', Option.bind_some]
    exact ⟨_, if_pos hs⟩
  · cases h

end BrokerageModel

/-! ### An order that is worked -/

structure Worked where
  remaining : ℚ
  books : Books
  fills : List Fill

def Worked.submitted (order : Order) (w : Worked) (stopPrice : Option ℚ) : Order :=
  { order with quantity := w.remaining, stopPrice }

def workStep (m : BrokerageModel) (order : Order) (w : Worked) (e : Option ℚ × Call) : Option Worked :=
  (m.returned w.books (w.submitted order e.1) e.2).map fun r => ⟨w.remaining - r.1.quantity, r.2.2, w.fills ++ [r.1]⟩

def charged (fills : List Fill) : ℚ := (fills.map Fill.fee).sum

variable {k : FillModel} {m : BrokerageModel} {order : Order} {f : FeeModel} {price unit : ℚ} {w w' : Worked}
  {e : Option ℚ × Call}

def WholeStep (k : FillModel) (m : BrokerageModel) (order : Order) (w : Worked) (e : Option ℚ × Call) : Prop :=
  Whole k m (w.submitted order e.1) e.2

lemma workStep_cases (h : workStep ((m.withFees f).withFills k) order w e = some w')
    (hu : ∀ order : Order, f.calculate order price = some (|order.quantity| * unit))
    (hf : ∀ x ∈ w'.fills, x.quantity ≠ 0 → x.price = price ∧ ¬m.Borrows x) :
    (∀ x ∈ w.fills, x ∈ w'.fills) ∧ w'.remaining = w.remaining - offered k m (w.submitted order e.1) e.2 ∧
      charged w'.fills = charged w.fills +
        if offered k m (w.submitted order e.1) e.2 = 0 then 0 else |w.remaining| * unit := by
  obtain ⟨⟨fill, order', s'⟩, hr, rfl⟩ := Option.map_eq_some_iff.mp h
  obtain ⟨hq, hs⟩ := returned_offered hr
  have hq' : fill.quantity = offered k m (w.submitted order e.1) e.2 := hq
  refine ⟨fun x hx => List.mem_append_left _ hx, by rw [hq'], ?_⟩
  have hsum : charged (w.fills ++ [fill]) = charged w.fills + fill.fee := by simp [charged]
  rw [hsum, ← hq']
  split
  · rename_i hz
    rw [BrokerageModel.fee_of_idle hr hz]
  · rename_i hne
    obtain ⟨hprice, hb⟩ := hf fill (by simp) hne
    obtain ⟨hfee, -⟩ := BrokerageModel.returned_withFees (m := m.withFills k) hr hne hb
    rw [hprice, hu order', hs] at hfee
    rw [← Option.some.inj hfee]
    rfl

def Worked.init (order : Order) (books : Books) : Worked := ⟨order.quantity, books, []⟩

/-- Where a worked order stands that is charged for each share: nothing is filled yet, or all of it at once; or what is
charged will be too much when it is complete. -/
inductive Standing (k : FillModel) (m : BrokerageModel) (order : Order) (books : Books) (unit : ℚ) (w : Worked) : Prop
  | waiting (hremaining : w.remaining = order.quantity) (hcharged : charged w.fills = 0)
      (hrun : Run (workStep m order) (WholeStep k m order) (.init order books) w)
  | complete (hremaining : w.remaining = 0) (hcharged : charged w.fills = |order.quantity| * unit)
      (hrun : Run (workStep m order) (WholeStep k m order) (.init order books) w)
  | partly (hremaining : w.remaining ≠ 0) (hcharged : |order.quantity| * unit ≤ charged w.fills)
  | exceeded (hcharged : |order.quantity| * unit < charged w.fills)

lemma offered_of_complete (h : w.remaining = 0) : offered k m (w.submitted order e.1) e.2 = 0 := by
  unfold offered
  cases barOf m (w.submitted order e.1) e.2 with
  | none => rfl
  | some bar =>
    refine fill_eq_zero.mpr fun _ => if_pos ?_
    show |w.remaining| ≤ 0
    rw [h, abs_zero]

/-- **One submission** of an order that is charged for each share. -/
theorem standing_step {books : Books} (h : Standing k m order books unit w) (hpos : 0 < unit)
    (hs : workStep m order w e = some w')
    (hremaining : w'.remaining = w.remaining - offered k m (w.submitted order e.1) e.2)
    (hcharged : charged w'.fills = charged w.fills +
      if offered k m (w.submitted order e.1) e.2 = 0 then 0 else |w.remaining| * unit) :
    Standing k m order books unit w' := by
  by_cases hid : offered k m (w.submitted order e.1) e.2 = 0
  · have hw : WholeStep k m order w e := whole_iff.mpr (.inl hid)
    rw [if_pos hid, add_zero] at hcharged
    rw [hid, sub_zero] at hremaining
    cases h with
    | waiting hr hc hrun => exact .waiting (hremaining.trans hr) (hcharged.trans hc) (hrun.next hw hs)
    | complete hr hc hrun => exact .complete (hremaining.trans hr) (hcharged.trans hc) (hrun.next hw hs)
    | partly hr hc => exact .partly (by rwa [hremaining]) (by rwa [hcharged])
    | exceeded hc => exact .exceeded (by rwa [hcharged])
  · rw [if_neg hid] at hcharged
    have hne : w.remaining ≠ 0 := fun hz => hid (offered_of_complete hz)
    have hm : 0 < |w.remaining| * unit := mul_pos (abs_pos.mpr hne) hpos
    cases h with
    | waiting hr hc hrun =>
      rw [hc, hr, zero_add] at hcharged
      by_cases hz : w'.remaining = 0
      · have hall : offered k m (w.submitted order e.1) e.2 = (w.submitted order e.1).quantity := by
          rw [hz] at hremaining
          exact (sub_eq_zero.mp hremaining.symm).symm
        exact .complete hz hcharged (hrun.next (whole_iff.mpr (.inr hall)) hs)
      · exact .partly hz hcharged.ge
    | complete hr => exact absurd hr hne
    | partly _ hc => exact .exceeded (by linarith)
    | exceeded hc => exact .exceeded (by linarith)

lemma charged_of_whole {books : Books} (hu : ∀ order : Order, f.calculate order price = some (|order.quantity| * unit))
    (h : Run (workStep ((m.withFees f).withFills k) order) (WholeStep k m order) (.init order books) w)
    (hf : ∀ x ∈ w.fills, x.quantity ≠ 0 → x.price = price ∧ ¬m.Borrows x) :
    (w.remaining = order.quantity ∧ charged w.fills = 0) ∨
      (w.remaining = 0 ∧ charged w.fills = |order.quantity| * unit) := by
  induction h with
  | init => exact .inl ⟨rfl, rfl⟩
  | @next w w' e _ hw hs ih =>
    obtain ⟨hmem, hremaining, hcharged⟩ := workStep_cases hs hu hf
    specialize ih fun x hx => hf x (hmem x hx)
    by_cases hid : offered k m (w.submitted order e.1) e.2 = 0
    · rw [if_pos hid, add_zero] at hcharged
      rw [hid, sub_zero] at hremaining
      rwa [hremaining, hcharged]
    · rw [if_neg hid] at hcharged
      have hall : offered k m (w.submitted order e.1) e.2 = w.remaining := (whole_iff.mp hw).resolve_left hid
      rcases ih with ⟨hr, hc⟩ | ⟨hr, -⟩
      · rw [hc, hr, zero_add] at hcharged
        exact .inr ⟨by rw [hremaining, hall, sub_self], hcharged⟩
      · exact absurd (offered_of_complete hr) hid

lemma charged_eq_zero {books : Books} (hfr : ∀ order : Order, f.calculate order price = some 0)
    (h : Run (workStep ((m.withFees f).withFills k) order) (fun _ _ => True) (.init order books) w)
    (hf : ∀ x ∈ w.fills, x.quantity ≠ 0 → x.price = price ∧ ¬m.Borrows x) : charged w.fills = 0 := by
  induction h with
  | init => rfl
  | next _ _ hs ih =>
    have hu : ∀ order : Order, f.calculate order price = some (|order.quantity| * 0) := fun order => by
      rw [hfr, mul_zero]
    obtain ⟨hmem, -, hcharged⟩ := workStep_cases hs hu hf
    rw [hcharged, ih fun x hx => hf x (hmem x hx)]
    simp

/-- **Working an order** costs what filling it at once does exactly where nothing is filled in part. -/
theorem charged_eq_iff {books : Books} (hu : ∀ order : Order, f.calculate order price = some (|order.quantity| * unit))
    (hpos : 0 < unit) (h : Run (workStep ((m.withFees f).withFills k) order) (fun _ _ => True) (.init order books) w)
    (hcm : w.remaining = 0) (hf : ∀ x ∈ w.fills, x.quantity ≠ 0 → x.price = price ∧ ¬m.Borrows x) :
    charged w.fills = |order.quantity| * unit ↔
      Run (workStep ((m.withFees f).withFills k) order) (WholeStep k m order) (.init order books) w := by
  constructor
  · intro heq
    have hs : Standing k ((m.withFees f).withFills k) order books unit w := by
      clear hcm heq
      induction h with
      | init => exact .waiting rfl rfl .init
      | next _ _ hst ih =>
        obtain ⟨hmem, hremaining, hcharged⟩ := workStep_cases hst hu hf
        exact standing_step (ih fun x hx => hf x (hmem x hx)) hpos hst hremaining hcharged
    cases hs with
    | waiting _ _ hrun => exact hrun
    | complete _ _ hrun => exact hrun
    | partly hne => exact absurd hcm hne
    | exceeded hlt => exact absurd heq hlt.ne'
  · intro hrun
    rcases charged_of_whole hu hrun hf with ⟨hr, hc⟩ | ⟨-, hc⟩
    · rw [hc, ← hr, hcm, abs_zero, zero_mul]
    · exact hc

/-- **Fees follow the filled quantity** exactly where an order is filled whole or not at all: for every fee model, and for
a fee on each share over all the submissions of an order. -/
theorem fees_follow_fill_iff (k : FillModel) (m : BrokerageModel) (order : Order) (s : Books) :
    (∀ c f fill order' s', ((m.withFees f).withFills k).returned s order c = some (fill, order', s') →
      0 < fill.quantity * order.quantity → ¬m.Borrows fill →
      ((∀ g fill' order'' s'', ((m.withFees g).withFills k).returned s order c = some (fill', order'', s'') →
        g.calculate { order'' with quantity := fill'.quantity } fill'.price = some fill'.fee) ↔ Whole k m order c)) ∧
    (∀ c f fill order' s', (m.withFees f).withImmediate.returned s order c = some (fill, order', s') →
      fill.quantity ≠ 0 → ¬m.Borrows fill →
      f.calculate { order' with quantity := fill.quantity } fill.price = some fill.fee) ∧
    (∀ f price w, f.Proportional →
      Run (workStep ((m.withFees f).withFills k) order) (fun _ _ => True) (.init order s) w → w.remaining = 0 →
      (∀ x ∈ w.fills, x.quantity ≠ 0 → x.price = price ∧ ¬m.Borrows x) →
      (f.calculate order price = some (charged w.fills) ↔ f.calculate { order with quantity := 1 } price = some 0 ∨
        Run (workStep ((m.withFees f).withFills k) order) (WholeStep k m order) (.init order s) w)) := by
  refine ⟨fun c f fill order' s' h hsign hborrow => ?_, fun c f fill order' s' h hne hborrow => ?_, ?_⟩
  · obtain ⟨hq, hsize⟩ := returned_offered h
    have hne : fill.quantity ≠ 0 := left_ne_zero_of_mul hsign.ne'
    obtain ⟨-, hother⟩ := BrokerageModel.returned_withFees (m := m.withFills k) h hne hborrow
    constructor
    · intro hall
      -- a fee on each share tells the size
      have hfee : (FeeModel.perShare 1 0 none).calculate order' fill.price = some |order'.quantity| := by
        simp [FeeModel.calculate, perShareFee]
      obtain ⟨s'', hreturned⟩ := hother _ _ hfee
      have habs : |fill.quantity| = |order'.quantity| := by
        simpa [FeeModel.calculate, perShareFee, not_lt.mpr (abs_nonneg fill.quantity)] using hall (.perShare 1 0 none) _ _ _ hreturned
      rw [hsize] at habs
      refine whole_iff.mpr (.inr (hq.symm.trans ?_))
      rcases abs_eq_abs.mp habs with heq | heq
      · exact heq
      · nlinarith [mul_self_nonneg order.quantity]
    · intro hwhole g fill' order'' s'' hreturned
      obtain ⟨hq', hsize'⟩ := returned_offered hreturned
      have hsame : fill'.quantity = fill.quantity := hq'.trans hq.symm
      have hall : fill'.quantity = order''.quantity := by
        rw [hsize', hq']
        exact (whole_iff.mp hwhole).resolve_left fun hzero => hne (hq.trans hzero)
      have hborrow' : ¬m.Borrows fill' := fun hb => hborrow ⟨hb.1, hsame ▸ hb.2⟩
      rw [hall]
      exact (BrokerageModel.returned_withFees (m := m.withFills k) hreturned (hsame ▸ hne) hborrow').1
  · have hall : fill.quantity = order'.quantity := by
      obtain ⟨⟨fill', order''⟩, hexec, heq⟩ := Option.map_eq_some_iff.mp h
      obtain ⟨rfl, rfl, -⟩ : fill' = fill ∧ order'' = order' ∧ _ := by simpa using heq
      obtain ⟨f₀, fee, hfilled, rfl⟩ := BrokerageModel.filled_of_executeOrder hexec
      unfold BrokerageModel.filled at hfilled
      split at hfilled
      · obtain ⟨price, -, hfill⟩ := Option.bind_eq_some_iff.mp hfilled
        cases hfill
        rfl
      · cases hfilled
    rw [hall]
    exact (BrokerageModel.returned_withFees (m := m.withImmediate) h hne hborrow).1
  · intro f price w hf h hcomplete hfills
    obtain ⟨unit, hunit⟩ := hf.calculate_eq price
    rw [hunit.2 order, hunit.2 { order with quantity := 1 }, Option.some.injEq, Option.some.injEq, abs_one, one_mul, eq_comm]
    rcases hunit.1.eq_or_lt' with hzero | hpos
    · refine iff_of_true ?_ (.inl hzero)
      rw [hzero, mul_zero]
      exact charged_eq_zero (fun order => by rw [hunit.2, hzero, mul_zero]) h hfills
    · rw [charged_eq_iff hunit.2 hpos h hcomplete hfills]
      exact (or_iff_right hpos.ne').symm

/-! ### An order in two fills -/

def percentFee : FeeModel := .percent (1 / 1000) 0

def chargingBrokerage : BrokerageModel := (plainBrokerage.withFees percentFee).withFills fiftyAtATime

lemma not_borrows_plain (x : Fill) : ¬plainBrokerage.Borrows x := fun h => Bool.false_ne_true h.1

lemma first_fill : ∃ fill order' s', chargingBrokerage.returned noBooks entryOf100 (callAt 100) = some (fill, order', s') ∧
    fill = ⟨"AAPL", 50, 100, 10⟩ ∧ order' = entryOf100 := by
  have hany : (chargingBrokerage.returned noBooks entryOf100 (callAt 100)).any (fun r =>
      decide (r.1 = ⟨"AAPL", 50, 100, 10⟩ ∧ r.2.1 = entryOf100)) := by decide +kernel
  obtain ⟨⟨fill, order', s'⟩, hrt, hr⟩ := (Option.any_eq_true _ _).mp hany
  exact ⟨fill, order', s', hrt, of_decide_eq_true hr⟩

lemma both_fills : ∃ w, Run (workStep chargingBrokerage entryOf100) (fun _ _ => True) (.init entryOf100 noBooks) w ∧
    w.remaining = 0 ∧ (∀ x ∈ w.fills, x.price = 100) ∧ charged w.fills = 15 := by
  have hex : (execIf (workStep chargingBrokerage entryOf100) (fun _ _ => true) (.init entryOf100 noBooks)
      [(none, callAt 100), (none, callAt 100)]).any (fun w =>
        decide (w.remaining = 0 ∧ (∀ x ∈ w.fills, x.price = 100) ∧ charged w.fills = 15)) := by decide +kernel
  obtain ⟨w, hrun, hw⟩ := exists_run _ _ _ _ _ hex
  exact ⟨w, hrun.mono fun _ _ _ => trivial, of_decide_eq_true hw⟩

theorem fees_follow_fill_iff_fifty : ¬Whole fiftyAtATime plainBrokerage entryOf100 (callAt 100) ∧
    ∃ w, w.remaining = 0 ∧
      ¬Run (workStep chargingBrokerage entryOf100) (WholeStep fiftyAtATime plainBrokerage entryOf100) (.init entryOf100 noBooks) w := by
  obtain ⟨hcall, -, hruns⟩ := fees_follow_fill_iff fiftyAtATime plainBrokerage entryOf100 noBooks
  constructor
  · obtain ⟨fill, order', s', hreturned, rfl, rfl⟩ := first_fill
    intro hwhole
    have hfee := (hcall _ percentFee _ _ _ hreturned (by decide +kernel) (not_borrows_plain _)).mpr hwhole percentFee _ _ _ hreturned
    exact absurd hfee (by decide +kernel)
  · obtain ⟨w, hrun, hremaining, hprice, hcharged⟩ := both_fills
    refine ⟨w, hremaining, fun hwhole => ?_⟩
    have hfee := (hruns percentFee 100 w ⟨1 / 1000, .inl rfl⟩ hrun hremaining
      fun x hx _ => ⟨hprice x hx, not_borrows_plain x⟩).mpr (.inr hwhole)
    rw [hcharged] at hfee
    exact absurd hfee (by decide +kernel)

/-- **An order of 100 pays more in two fills**: 10 for the first 50, which are charged 5 by themselves, and 15 in all. -/
theorem worked_order_pays_more :
    (∃ fill order' s', chargingBrokerage.returned noBooks entryOf100 (callAt 100) = some (fill, order', s') ∧
      fill.quantity = 50 ∧ ¬plainBrokerage.Borrows fill ∧ fill.fee = 10 ∧
      percentFee.calculate { order' with quantity := fill.quantity } fill.price = some 5) ∧
    ∃ w, Run (workStep chargingBrokerage entryOf100) (fun _ _ => True) (.init entryOf100 noBooks) w ∧ w.remaining = 0 ∧
      (∀ x ∈ w.fills, x.price = 100 ∧ ¬plainBrokerage.Borrows x) ∧ charged w.fills = 15 ∧
      percentFee.calculate entryOf100 100 = some 10 := by
  constructor
  · obtain ⟨fill, order', s', hreturned, rfl, rfl⟩ := first_fill
    exact ⟨_, _, s', hreturned, rfl, not_borrows_plain _, rfl, by decide +kernel⟩
  · obtain ⟨w, hrun, hremaining, hprice, hcharged⟩ := both_fills
    exact ⟨w, hrun, hremaining, fun x hx => ⟨hprice x hx, not_borrows_plain x⟩, hcharged, by decide +kernel⟩

end Qmtl.Runtime.Brokerage

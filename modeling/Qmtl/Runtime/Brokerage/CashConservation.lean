import Qmtl.Lib.Run
import Qmtl.Runtime.Brokerage.BrokerageModel

/-!
What becomes of the cash of an account: whether it is settled at once or later, its fills are what it loses.
-/

namespace Qmtl.Runtime.Brokerage

open Lib

/-! ### Runs -/

structure Executed where
  fill : Fill
  currency : String
  time : DateTime

structure Account where
  books : Books
  fills : List Executed
  recorded : List PendingSettlement
  settled : List (PendingSettlement × DateTime)
  dues : List (DateTime × List PendingSettlement)
  failures : List (Books × Books)

def opening (balances : List (String × ℚ × ℚ)) : Cashbook :=
  balances.foldl (fun c b => Cashbook.setBalance c b.1 b.2.1 b.2.2) .empty

def Account.init (balances : List (String × ℚ × ℚ)) (borrowed : Dict (String × ℕ) ℚ) : Account :=
  ⟨⟨opening balances, [], .empty, borrowed⟩, [], [], [], [], []⟩

inductive AccountEvent where
  | execute (order : Order) (c : Call)
  | applyDue (now : DateTime)

/-- One call. -/
def accountStep (m : BrokerageModel) (s : Account) : AccountEvent → Option Account
  | .execute order c =>
    let r := m.executeOrder s.books order c
    match r.1 with
    | none => some { s with books := r.2, failures := s.failures ++ [(s.books, r.2)] }
    | some (fill, order) =>
      if fill.quantity = 0 then some { s with books := r.2 }
      else some { s with
        books := r.2
        fills := s.fills ++ [⟨fill, m.resolveCurrency order, c.now⟩]
        recorded := s.recorded ++ r.2.pending.drop s.books.pending.length }
  | .applyDue now => m.settlement.map fun settlement =>
    let books := (settlement.applyDue s.books now).2
    { s with
      books
      settled := s.settled ++ (s.books.pending.filter fun p => p.settlesAt ≤ now).map fun p => (p, now)
      dues := s.dues ++ [(now, books.pending)] }

/-! ### Conservation -/

def costs (fills : List Executed) : List (String × ℚ) := fills.map fun f => (f.currency, f.fill.cost)

def amounts (ps : List PendingSettlement) : List (String × ℚ) := ps.map fun p => (p.currency, p.amount)

def debits (ps : List PendingSettlement) : List (String × ℚ) :=
  ps.map fun p => (p.currency, if p.amount < 0 then -p.amount else 0)

def paid (c : Cashbook) (fills : List Executed) : Cashbook :=
  fills.foldl (fun c f => Cashbook.adjust c f.currency (-f.fill.cost)) c

structure SettlementModel.Records (m : SettlementModel) (f : Executed) (p : PendingSettlement) : Prop where
  symbol : p.symbol = f.fill.symbol
  currency : p.currency = f.currency
  amount : p.amount = -f.fill.cost
  date : m.days ≤ ((Finset.Ioc f.time.date p.settlesAt.date).filter fun day => m.business day = true).card
  time : p.settlesAt.time = f.time.time

/-- Books that answer the same. -/
structure Books.Same (s s' : Books) : Prop where
  cash : ∀ currency, Cashbook.get s.cashbook currency = Cashbook.get s'.cashbook currency
  pending : s.pending = s'.pending
  reserved : ∀ currency, s.reserved.get? currency = s'.reserved.get? currency
  borrowed : ∀ symbol day, s.borrowedOf symbol day = s'.borrowedOf symbol day

def BrokerageModel.Deferred (m : BrokerageModel) : Prop := ∃ settlement, m.settlement = some settlement ∧ settlement.deferCash = true

/-- **Cash is conserved**: what was filled is paid or pending, a fill is settled once and when it is due, and an `execute_order`
that raised has changed nothing. -/
structure Conserved (m : BrokerageModel) (c : Cashbook) (s : Account) : Prop where
  balance : ¬m.Deferred → ∀ k, (Cashbook.get s.books.cashbook k).balance = (Cashbook.get c k).balance - Ledger.total (costs s.fills) k
  both : m.Deferred → ∀ k, (Cashbook.get s.books.cashbook k).balance + (Cashbook.get s.books.cashbook k).pending =
    (Cashbook.get c k).balance - Ledger.total (costs s.fills) k
  value : ∀ base, Cashbook.totalValue s.books.cashbook base = Cashbook.totalValue (paid c s.fills) base
  pending : m.Deferred → ∀ k, (Cashbook.get s.books.cashbook k).pending = Ledger.total (amounts s.books.pending) k
  reserved : m.Deferred → ∀ k, s.books.reservedFor k = Ledger.total (debits s.books.pending) k
  recorded : ∀ settlement, m.settlement = some settlement → List.Forall₂ settlement.Records s.fills s.recorded
  once : (s.settled.map Prod.fst ++ s.books.pending).Perm s.recorded
  due : ∀ p ∈ s.settled, p.1.settlesAt ≤ p.2
  prompt : ∀ d ∈ s.dues, ∀ p ∈ d.2, d.1 < p.settlesAt
  unchanged : ∀ f ∈ s.failures, f.1.Same f.2

/-- Every debit is at least `1e-9`. -/
def Debits (m : BrokerageModel) (s : Account) : AccountEvent → Prop
  | .execute order c => ∀ r ∈ (m.executeOrder s.books order c).1, 0 < r.1.cost → 1 / 1000000000 ≤ r.1.cost
  | .applyDue _ => True

/-- Nothing raises once something has been borrowed or paid. -/
def Settles (m : BrokerageModel) (s : Account) : AccountEvent → Prop
  | .execute order c => ∀ fill order', m.filled s.books order c = some (fill, order') → fill.quantity ≠ 0 →
    (m.borrowFee s.books order' c fill).isSome →
      (m.fee order' fill.price = none → ¬m.Borrows fill) ∧
      ∀ settlement, m.settlement = some settlement → settlement.addBusinessDays c.now settlement.days = none →
        ∀ fee, m.fee order' fill.price = some fee →
          ¬m.Borrows fill ∧ (settlement.deferCash = true ∨ fill.price * fill.quantity + fee = 0)
  | .applyDue _ => True

variable {m : BrokerageModel} {s s' : Books} {order order' : Order} {c : Call} {fill : Fill} {currency : String}

/-- What a fill does to the books: it is paid at once, or queued, or both. -/
inductive Booked (m : BrokerageModel) (s : Books) (fill : Fill) (currency : String) (now : DateTime) : Books → Prop
  | paid (borrowed : Dict (String × ℕ) ℚ) (h : m.settlement = none) :
      Booked m s fill currency now { s with
        borrowed, cashbook := Cashbook.adjust s.cashbook currency (-fill.cost) }
  | queued (borrowed : Dict (String × ℕ) ℚ) (settlement : SettlementModel) (t : DateTime) (h : m.settlement = some settlement)
      (hpaid : settlement.deferCash = false) (ht : settlement.addBusinessDays now settlement.days = some t) :
      Booked m s fill currency now { s with
        borrowed
        cashbook := Cashbook.adjust s.cashbook currency (-fill.cost)
        pending := s.pending ++ [⟨fill.symbol, currency, -fill.cost, t⟩] }
  | deferred (borrowed : Dict (String × ℕ) ℚ) (settlement : SettlementModel) (t : DateTime) (h : m.settlement = some settlement)
      (hdefer : settlement.deferCash = true) (ht : settlement.addBusinessDays now settlement.days = some t) :
      Booked m s fill currency now { s with
        borrowed
        cashbook := Cashbook.reserve s.cashbook currency (-fill.cost)
        pending := s.pending ++ [⟨fill.symbol, currency, -fill.cost, t⟩]
        reserved := if -fill.cost < 0 then SettlementModel.addReserved s.reserved currency (- -fill.cost) else s.reserved }

lemma booked_of_applySettlement {borrowed : Dict (String × ℕ) ℚ}
    (h : m.applySettlement { s with borrowed } c fill currency = (true, s')) : Booked m s fill currency c.now s' := by
  unfold BrokerageModel.applySettlement SettlementModel.record at h
  split at h
  · rename_i hn
    cases h
    exact .paid borrowed hn
  · rename_i settlement hs
    dsimp only at h
    cases ht : settlement.addBusinessDays c.now settlement.days with
    | none =>
      rw [ht] at h
      cases h
    | some t =>
      rw [ht, Option.map_some] at h
      by_cases hdefer : settlement.deferCash
      · simp only [hdefer, if_true] at h
        cases h
        exact .deferred borrowed settlement t hs hdefer ht
      · simp only [hdefer] at h
        cases h
        exact .queued borrowed settlement t hs (Bool.eq_false_iff.mpr hdefer) ht

lemma booked_of_executeOrder (h : (m.executeOrder s order c).1 = some (fill, order')) :
    (fill.quantity = 0 ∧ (m.executeOrder s order c).2 = s) ∨
      (fill.quantity ≠ 0 ∧ Booked m s fill (m.resolveCurrency order') c.now (m.executeOrder s order c).2) := by
  unfold BrokerageModel.executeOrder at h ⊢
  split at h
  · cases h
  · split at h
    · rename_i hz
      cases h
      simp only [hz, if_true, true_and, true_or]
    · rename_i hne
      split at h
      · cases h
      · rename_i borrowFee s₁ hb
        split at h
        · cases h
        · dsimp only at h
          split at h
          · rename_i hr
            cases h
            refine .inr ⟨hne, ?_⟩
            simp only [hne, if_false]
            obtain ⟨borrowed, rfl⟩ : ∃ borrowed, s₁ = { s with borrowed } := by
              rcases BrokerageModel.borrowFee_cases hb with ⟨-, -, rfl⟩ | ⟨-, rfl⟩
              · exact ⟨s₁.borrowed, rfl⟩
              · exact ⟨_, rfl⟩
            exact booked_of_applySettlement (Prod.ext hr rfl)
          · cases h

lemma Books.Same.refl (s : Books) : s.Same s := ⟨fun _ => rfl, rfl, fun _ => rfl, fun _ _ => rfl⟩

lemma not_borrows_of_same {fee : ℚ} {cashbook : Cashbook} (h : m.borrowFee s order c fill = some (fee, s'))
    (hs : s.Same { s' with cashbook }) : ¬m.Borrows fill := by
  intro hbr
  rcases BrokerageModel.borrowFee_cases h with ⟨hnot, -⟩ | ⟨-, rfl⟩
  · exact hnot hbr
  · have hb := hs.borrowed order.symbol c.day
    unfold Books.borrowedOf at hb
    rw [Dict.get?_set_self, Option.getD_some] at hb
    have hneg := hbr.2
    linarith

lemma same_borrow {fee : ℚ} (h : m.borrowFee s order c fill = some (fee, s')) : s.Same s' ↔ ¬m.Borrows fill := by
  refine ⟨not_borrows_of_same h, fun hnot => ?_⟩
  rcases BrokerageModel.borrowFee_cases h with ⟨-, -, rfl⟩ | ⟨hb, -⟩
  · exact .refl s'
  · exact absurd hb hnot

lemma same_paid {fee amount : ℚ} (h : m.borrowFee s order c fill = some (fee, s')) :
    s.Same { s' with cashbook := Cashbook.adjust s'.cashbook currency amount } ↔ ¬m.Borrows fill ∧ amount = 0 := by
  have hc : s'.cashbook = s.cashbook := by
    rcases BrokerageModel.borrowFee_cases h with ⟨-, -, rfl⟩ | ⟨-, rfl⟩ <;> rfl
  constructor
  · intro hs
    have hb := congrArg CashEntry.balance (hs.cash currency)
    rw [hc] at hb
    simp only [Cashbook.balance_adjust, if_true] at hb
    exact ⟨not_borrows_of_same h hs, by linarith⟩
  · rintro ⟨hbr, rfl⟩
    have hs := (same_borrow h).mpr hbr
    refine ⟨fun k => ?_, hs.pending, hs.reserved, hs.borrowed⟩
    refine (hs.cash k).trans ?_
    unfold Cashbook.adjust
    rw [Cashbook.get_set]
    split
    · rename_i hk
      rw [hk, add_zero]
    · rfl

/-- **An `execute_order`** leaves the books as they were, if it raises, exactly where nothing is borrowed or paid before. -/
theorem settles_iff (t : Account) (order : Order) (c : Call) : Settles m t (.execute order c) ↔
    ((m.executeOrder t.books order c).1 = none → t.books.Same (m.executeOrder t.books order c).2) := by
  unfold BrokerageModel.executeOrder Settles
  dsimp only
  cases hfilled : m.filled t.books order c with
  | none =>
    refine iff_of_true (fun fill order' h => ?_) fun _ => .refl _
    cases h
  | some r =>
    obtain ⟨fill, order'⟩ := r
    simp only [Option.some.injEq, Prod.mk.injEq, and_imp, forall_apply_eq_imp_iff, forall_eq']
    by_cases hz : fill.quantity = 0
    · simp only [hz, if_true]
      exact iff_of_true (fun h => absurd rfl h) fun h => absurd h (Option.some_ne_none _)
    simp only [hz, if_false, ne_eq, not_false_eq_true, forall_const]
    cases hb : m.borrowFee t.books order' c fill with
    | none => exact iff_of_true (fun h => absurd h Bool.false_ne_true) fun _ => .refl _
    | some r =>
      obtain ⟨borrowFee, s₁⟩ := r
      simp only [Option.isSome_some, forall_const]
      cases hfee : m.fee order' fill.price with
      | none =>
        simp only [forall_const]
        rw [same_borrow hb]
        refine and_iff_left fun _ _ _ fee h => ?_
        cases h
      | some fee =>
        simp only [reduceCtorEq, false_imp_iff, true_and, Option.some.injEq, forall_eq']
        unfold BrokerageModel.applySettlement SettlementModel.record
        cases hs : m.settlement with
        | none =>
          refine iff_of_true (fun settlement h => ?_) fun h => ?_
          · cases h
          · simp at h
        | some settlement =>
          simp only [Option.some.injEq, forall_eq']
          cases ht : settlement.addBusinessDays c.now settlement.days with
          | some t =>
            refine iff_of_true (fun h => ?_) fun h => ?_
            · cases h
            · simp at h
          | none =>
            simp only [Option.map_none, Bool.false_eq_true, if_false, forall_const]
            cases hdefer : settlement.deferCash with
            | true =>
              simp only [if_true, true_or, and_true]
              exact (same_borrow hb).symm
            | false =>
              simp only [Bool.false_eq_true, if_false, false_or]
              refine Iff.trans ?_ (same_paid hb).symm
              refine and_congr_right fun hnot => ?_
              have hn : borrowFee = 0 := by
                rcases BrokerageModel.borrowFee_cases hb with ⟨-, hf, -⟩ | ⟨hbr, -⟩
                · exact hf
                · exact absurd hbr hnot
              rw [hn]
              unfold Fill.cost
              rw [neg_eq_zero, add_zero]

/-! ### What settling does -/

def held (reserved : Dict String ℚ) (k : String) : ℚ := (reserved.get? k).getD 0

variable {settlement : SettlementModel} {now : DateTime} {reserved : Dict String ℚ} {k : String} {amount : ℚ}

@[simp] lemma held_addReserved : held (SettlementModel.addReserved reserved currency amount) k =
    held reserved k + if currency = k then amount else 0 := by
  unfold SettlementModel.addReserved held
  rw [Dict.get?_set]
  by_cases h : k = currency
  · simp [h]
  · simp [h, Ne.symm h]

@[simp] lemma costs_concat (fills : List Executed) (f : Executed) :
    Ledger.total (costs (fills ++ [f])) k = Ledger.total (costs fills) k + if f.currency = k then f.fill.cost else 0 := by
  simp [costs]

@[simp] lemma amounts_concat (ps : List PendingSettlement) (p : PendingSettlement) :
    Ledger.total (amounts (ps ++ [p])) k = Ledger.total (amounts ps) k + if p.currency = k then p.amount else 0 := by
  simp [amounts]

@[simp] lemma debits_concat (ps : List PendingSettlement) (p : PendingSettlement) :
    Ledger.total (debits (ps ++ [p])) k =
      Ledger.total (debits ps) k + if p.currency = k then (if p.amount < 0 then -p.amount else 0) else 0 := by
  simp [debits]

lemma foldl_settle (hdefer : settlement.deferCash) (ps : List PendingSettlement) (s : Books) (k : String) :
    (Cashbook.get (ps.foldl settlement.settle s).cashbook k).balance =
      (Cashbook.get s.cashbook k).balance + Ledger.total (amounts ps) k ∧
    (Cashbook.get (ps.foldl settlement.settle s).cashbook k).pending =
      (Cashbook.get s.cashbook k).pending - Ledger.total (amounts ps) k ∧
    (Cashbook.get (ps.foldl settlement.settle s).cashbook k).rate = (Cashbook.get s.cashbook k).rate ∧
    held (ps.foldl settlement.settle s).reserved k = held s.reserved k - Ledger.total (debits ps) k := by
  induction ps generalizing s with
  | nil => simp [amounts, debits]
  | cons p ps ih =>
    obtain ⟨hb, hp, hr, hh⟩ := ih (settlement.settle s p)
    have hs : settlement.settle s p = { s with
        cashbook := Cashbook.reserve (Cashbook.adjust s.cashbook p.currency p.amount) p.currency (-p.amount)
        reserved := if p.amount < 0 then SettlementModel.addReserved s.reserved p.currency p.amount else s.reserved } := by
      unfold SettlementModel.settle
      rw [if_pos hdefer, Cashbook.release_eq]
    have ham : Ledger.total (amounts (p :: ps)) k =
        (if p.currency = k then p.amount else 0) + Ledger.total (amounts ps) k := Ledger.total_cons _ _ k
    have hd : Ledger.total (debits (p :: ps)) k =
        (if p.currency = k then (if p.amount < 0 then -p.amount else 0) else 0) + Ledger.total (debits ps) k :=
      Ledger.total_cons _ _ k
    rw [List.foldl_cons, hb, hp, hr, hh, hs, ham, hd]
    refine ⟨?_, ?_, by simp, ?_⟩
    · simp [add_assoc]
    · simp only [Cashbook.pending_reserve, Cashbook.pending_adjust]
      split <;> ring
    · by_cases hneg : p.amount < 0
      · simp only [hneg, if_true, held_addReserved]
        split <;> ring
      · simp only [hneg, if_false, ite_self, zero_add]

lemma foldl_settle_paid (hpaid : settlement.deferCash = false) (ps : List PendingSettlement) (s : Books) :
    ps.foldl settlement.settle s = s := by
  induction ps generalizing s with
  | nil => rfl
  | cons p ps ih =>
    rw [List.foldl_cons, ih]
    unfold SettlementModel.settle
    rw [hpaid]
    rfl

/-- What is not nearly nothing stays. -/
theorem held_cleanup (h : held reserved k = 0 ∨ 1 / 1000000000 ≤ held reserved k) :
    held (SettlementModel.cleanup reserved) k = held reserved k := by
  have hmem : ∀ v, (SettlementModel.cleanup reserved).get? k = some v ↔ reserved.get? k = some v ∧ ¬|v| < 1 / 1000000000 := by
    intro v
    rw [Dict.get?_eq_some, Dict.get?_eq_some]
    unfold SettlementModel.cleanup
    simp
  cases hnew : (SettlementModel.cleanup reserved).get? k with
  | some v =>
    obtain ⟨hold, -⟩ := (hmem v).mp hnew
    unfold held
    rw [hnew, hold]
  | none =>
    cases hold : reserved.get? k with
    | none =>
      unfold held
      rw [hnew, hold]
    | some v =>
      have hv : held reserved k = v := by
        unfold held
        rw [hold, Option.getD_some]
      have hs : |v| < 1 / 1000000000 := by
        by_contra hl
        rw [(hmem v).mpr ⟨hold, hl⟩] at hnew
        cases hnew
      have hz : held reserved k = 0 := by
        rcases h with h | h
        · exact h
        · rw [hv] at h
          exact absurd hs (not_lt.mpr (h.trans (le_abs_self v)))
      rw [hz]
      unfold held
      rw [hnew, Option.getD_none]

lemma total_debits_large {ps : List PendingSettlement} (h : ∀ p ∈ ps, p.amount < 0 → 1 / 1000000000 ≤ -p.amount) (k : String) :
    Ledger.total (debits ps) k = 0 ∨ 1 / 1000000000 ≤ Ledger.total (debits ps) k := by
  induction ps with
  | nil => exact .inl rfl
  | cons p ps ih =>
    have hd : Ledger.total (debits (p :: ps)) k =
        (if p.currency = k then (if p.amount < 0 then -p.amount else 0) else 0) + Ledger.total (debits ps) k :=
      Ledger.total_cons _ _ k
    have hr := ih fun q hq => h q (List.mem_cons_of_mem p hq)
    rw [hd]
    split
    · split
      · rename_i hneg
        have hl := h p (.head _) hneg
        rcases hr with hr | hr
        · rw [hr, add_zero]
          exact .inr hl
        · exact .inr (by linarith)
      · rwa [zero_add]
    · rwa [zero_add]

/-! ### What every step keeps -/

variable {c₀ : Cashbook} {t t' : Account}

/-- What holds of the books whatever has raised so far. -/
structure Inv (m : BrokerageModel) (c₀ : Cashbook) (t : Account) : Prop where
  sum : ∀ k, (Cashbook.get t.books.cashbook k).balance + (Cashbook.get t.books.cashbook k).pending =
    (Cashbook.get c₀ k).balance - Ledger.total (costs t.fills) k
  rate : ∀ k, (Cashbook.get t.books.cashbook k).rate = (Cashbook.get c₀ k).rate
  deferred : m.Deferred → ∀ k, (Cashbook.get t.books.cashbook k).pending = Ledger.total (amounts t.books.pending) k
  immediate : ¬m.Deferred → ∀ k, (Cashbook.get t.books.cashbook k).pending = 0
  held : m.Deferred → ∀ k, held t.books.reserved k = Ledger.total (debits t.books.pending) k
  large : ∀ p ∈ t.books.pending, p.amount < 0 → 1 / 1000000000 ≤ -p.amount
  recorded : ∀ settlement, m.settlement = some settlement → List.Forall₂ settlement.Records t.fills t.recorded
  once : (t.settled.map Prod.fst ++ t.books.pending).Perm t.recorded
  due : ∀ p ∈ t.settled, p.1.settlesAt ≤ p.2
  prompt : ∀ d ∈ t.dues, ∀ p ∈ d.2, d.1 < p.settlesAt

lemma opening_pending (balances : List (String × ℚ × ℚ)) (k : String) :
    (Cashbook.get (opening balances) k).pending = 0 := by
  have hf : ∀ c : Cashbook, (Cashbook.get c k).pending = 0 →
      (Cashbook.get (balances.foldl (fun c b => Cashbook.setBalance c b.1 b.2.1 b.2.2) c) k).pending = 0 := by
    induction balances with
    | nil => exact fun c h => h
    | cons b bs ih =>
      intro c h
      refine ih _ ?_
      unfold Cashbook.setBalance
      rw [Cashbook.get_set]
      split
      · rename_i hk
        rw [← hk]
        exact h
      · exact h
  exact hf .empty rfl

lemma inv_init (m : BrokerageModel) (balances : List (String × ℚ × ℚ)) (borrowed : Dict (String × ℕ) ℚ) :
    Inv m (opening balances) (.init balances borrowed) where
  sum k := by
    rw [show (Account.init balances borrowed).books.cashbook = opening balances from rfl, opening_pending]
    exact (add_zero _).trans (sub_zero _).symm
  rate _ := rfl
  deferred _ k := opening_pending balances k
  immediate _ k := opening_pending balances k
  held _ _ := rfl
  large _ h := absurd h List.not_mem_nil
  recorded _ _ := .nil
  once := .refl _
  due _ h := absurd h List.not_mem_nil
  prompt _ h := absurd h List.not_mem_nil

lemma records_entry {t : DateTime} (ht : settlement.addBusinessDays now settlement.days = some t) :
    settlement.Records ⟨fill, currency, now⟩ ⟨fill.symbol, currency, -fill.cost, t⟩ :=
  ⟨rfl, rfl, rfl, (SettlementModel.card_of_addBusinessDays ht).1, (SettlementModel.card_of_addBusinessDays ht).2⟩

lemma Inv.entry (h : Inv m c₀ t) (hs : m.settlement = some settlement)
    (hl : 0 < fill.cost → 1 / 1000000000 ≤ fill.cost) {settles : DateTime}
    (ht : settlement.addBusinessDays now settlement.days = some settles) (p : PendingSettlement)
    (hp : p = ⟨fill.symbol, currency, -fill.cost, settles⟩) :
    (∀ q ∈ t.books.pending ++ [p], q.amount < 0 → 1 / 1000000000 ≤ -q.amount) ∧
    (∀ settlement, m.settlement = some settlement →
      List.Forall₂ settlement.Records (t.fills ++ [⟨fill, currency, now⟩]) (t.recorded ++ [p])) ∧
    (t.settled.map Prod.fst ++ (t.books.pending ++ [p])).Perm (t.recorded ++ [p]) := by
  subst hp
  refine ⟨?_, ?_, ?_⟩
  · intro q hq hneg
    rcases List.mem_append.mp hq with hq | hq
    · exact h.large q hq hneg
    · obtain rfl := List.mem_singleton.mp hq
      rw [neg_neg]
      exact hl (neg_lt_zero.mp hneg)
  · intro settlement' hs'
    obtain rfl : settlement = settlement' := Option.some.inj (hs.symm.trans hs')
    exact List.rel_append (h.recorded settlement hs) (.cons (records_entry ht) .nil)
  · rw [← List.append_assoc]
    exact h.once.append_right _

lemma Inv.booked (h : Inv m c₀ t) {b' : Books} (hb : Booked m t.books fill currency now b')
    (hl : 0 < fill.cost → 1 / 1000000000 ≤ fill.cost) : Inv m c₀ { t with
      books := b'
      fills := t.fills ++ [⟨fill, currency, now⟩]
      recorded := t.recorded ++ b'.pending.drop t.books.pending.length } := by
  cases hb with
  | paid borrowed hn =>
    have hnot : ¬m.Deferred := by
      rintro ⟨settlement, hsm, -⟩
      cases hn.symm.trans hsm
    refine { h with
      sum := fun k => ?_, rate := fun k => ?_, deferred := fun hdefer => absurd hdefer hnot, immediate := fun _ k => ?_
      held := fun hdefer => absurd hdefer hnot, recorded := fun settlement hsm => ?_, once := ?_ }
    · simp only [Cashbook.balance_adjust, Cashbook.pending_adjust, costs_concat]
      have hsum := h.sum k
      split <;> linarith
    · simpa using h.rate k
    · simpa using h.immediate hnot k
    · cases hn.symm.trans hsm
    · simpa using h.once
  | queued borrowed settlement settles hs hpaid hst =>
    have hnot : ¬m.Deferred := by
      rintro ⟨settlement', hsm, hdefer⟩
      obtain rfl : settlement = settlement' := Option.some.inj (hs.symm.trans hsm)
      exact absurd hdefer (by simp [hpaid])
    obtain ⟨hl, hr, hon⟩ := h.entry hs hl hst _ rfl
    refine { h with
      sum := fun k => ?_, rate := fun k => ?_, deferred := fun hdefer => absurd hdefer hnot, immediate := fun _ k => ?_
      held := fun hdefer => absurd hdefer hnot, large := hl, recorded := ?_, once := ?_ }
    · simp only [Cashbook.balance_adjust, Cashbook.pending_adjust, costs_concat]
      have hsum := h.sum k
      split <;> linarith
    · simpa using h.rate k
    · simpa using h.immediate hnot k
    · simpa [List.drop_left] using hr
    · simpa [List.drop_left] using hon
  | deferred borrowed settlement settles hs hdefer hst =>
    have hd : m.Deferred := ⟨settlement, hs, hdefer⟩
    obtain ⟨hl, hr, hon⟩ := h.entry hs hl hst _ rfl
    refine { h with
      sum := fun k => ?_, rate := fun k => ?_, deferred := fun _ k => ?_
      immediate := fun hnot => absurd hd hnot, held := fun _ k => ?_, large := hl, recorded := ?_, once := ?_ }
    · simp only [Cashbook.balance_reserve, Cashbook.pending_reserve, costs_concat]
      have hsum := h.sum k
      split <;> linarith
    · simpa using h.rate k
    · simp [h.deferred hd k]
    · simp only [debits_concat]
      rw [← h.held hd k]
      by_cases hneg : -fill.cost < 0
      · simp only [hneg, if_true, held_addReserved]
      · simp only [hneg, if_false, ite_self, add_zero]
    · simpa [List.drop_left] using hr
    · simpa [List.drop_left] using hon

lemma Inv.applyDue (h : Inv m c₀ t) (hst : accountStep m t (.applyDue now) = some t') : Inv m c₀ t' := by
  obtain ⟨settlement, hs, rfl⟩ := Option.map_eq_some_iff.mp hst
  have hlf : ∀ p ∈ t.books.pending.filter fun p => !decide (p.settlesAt ≤ now), p ∈ t.books.pending ∧ now < p.settlesAt := by
    intro p hp
    obtain ⟨hmem, hlater⟩ := List.mem_filter.mp hp
    exact ⟨hmem, by simpa using hlater⟩
  have hl : ∀ p ∈ t.books.pending.filter fun p => !decide (p.settlesAt ≤ now), p.amount < 0 →
      1 / 1000000000 ≤ -p.amount := fun p hp => h.large p (hlf p hp).1
  have hon : ((t.settled ++ (t.books.pending.filter fun p => p.settlesAt ≤ now).map fun p => (p, now)).map Prod.fst ++
      t.books.pending.filter fun p => !decide (p.settlesAt ≤ now)).Perm t.recorded := by
    refine .trans ?_ h.once
    rw [List.map_append, List.map_map, List.append_assoc]
    refine List.Perm.append_left _ ?_
    have hid : (Prod.fst ∘ fun p : PendingSettlement => (p, now)) = id := rfl
    rw [hid, List.map_id]
    exact List.filter_append_perm _ t.books.pending
  have hdue : ∀ p ∈ t.settled ++ (t.books.pending.filter fun p => p.settlesAt ≤ now).map fun p => (p, now),
      p.1.settlesAt ≤ p.2 := by
    intro p hp
    rcases List.mem_append.mp hp with hp | hp
    · exact h.due p hp
    · obtain ⟨q, hq, rfl⟩ := List.mem_map.mp hp
      exact of_decide_eq_true (List.mem_filter.mp hq).2
  have hpr : ∀ d ∈ t.dues ++ [(now, t.books.pending.filter fun p => !decide (p.settlesAt ≤ now))], ∀ p ∈ d.2,
      d.1 < p.settlesAt := by
    intro d hd p hp
    rcases List.mem_append.mp hd with hd | hd
    · exact h.prompt d hd p hp
    · obtain rfl := List.mem_singleton.mp hd
      exact (hlf p hp).2
  cases hdefer : settlement.deferCash with
  | false =>
    have hnot : ¬m.Deferred := by
      rintro ⟨settlement', hsm, ht⟩
      obtain rfl : settlement = settlement' := Option.some.inj (hs.symm.trans hsm)
      cases hdefer.symm.trans ht
    have hb : (settlement.applyDue t.books now).2.cashbook = t.books.cashbook := by
      unfold SettlementModel.applyDue
      dsimp only
      rw [foldl_settle_paid hdefer]
    refine { h with
      sum := fun k => ?_, rate := fun k => ?_, deferred := fun hd => absurd hd hnot, immediate := fun _ k => ?_
      held := fun hd => absurd hd hnot, large := hl, once := hon, due := hdue, prompt := hpr }
    · rw [hb]
      exact h.sum k
    · rw [hb]
      exact h.rate k
    · rw [hb]
      exact h.immediate hnot k
  | true =>
    have hdf : m.Deferred := ⟨settlement, hs, hdefer⟩
    have hf := foldl_settle hdefer (t.books.pending.filter fun p => p.settlesAt ≤ now) t.books
    have ham : ∀ k, Ledger.total (amounts (t.books.pending.filter fun p => p.settlesAt ≤ now)) k +
        Ledger.total (amounts (t.books.pending.filter fun p => !decide (p.settlesAt ≤ now))) k =
          Ledger.total (amounts t.books.pending) k :=
      fun k => Ledger.total_filter_add _ _ t.books.pending k
    have hdb : ∀ k, Ledger.total (debits (t.books.pending.filter fun p => p.settlesAt ≤ now)) k +
        Ledger.total (debits (t.books.pending.filter fun p => !decide (p.settlesAt ≤ now))) k =
          Ledger.total (debits t.books.pending) k :=
      fun k => Ledger.total_filter_add _ _ t.books.pending k
    refine { h with
      sum := fun k => ?_, rate := fun k => ?_, deferred := fun _ k => ?_
      immediate := fun hnot => absurd hdf hnot, held := fun _ k => ?_
      large := hl, once := hon, due := hdue, prompt := hpr }
    · refine Eq.trans ?_ (h.sum k)
      obtain ⟨hbl, hpn, -, -⟩ := hf k
      unfold SettlementModel.applyDue
      rw [hbl, hpn]
      ring
    · exact (hf k).2.2.1.trans (h.rate k)
    · obtain ⟨-, hpn, -, -⟩ := hf k
      unfold SettlementModel.applyDue
      rw [hpn, h.deferred hdf k, ← ham k]
      ring
    · obtain ⟨-, -, -, hh⟩ := hf k
      have hremaining : Qmtl.Runtime.Brokerage.held ((t.books.pending.filter fun p => p.settlesAt ≤ now).foldl settlement.settle
          t.books).reserved k = Ledger.total (debits (t.books.pending.filter fun p => !decide (p.settlesAt ≤ now))) k := by
        rw [hh, h.held hdf k, ← hdb k]
        ring
      unfold SettlementModel.applyDue
      rw [held_cleanup, hremaining]
      rw [hremaining]
      exact total_debits_large hl k

lemma Inv.same (h : Inv m c₀ t) {b' : Books} (hs : t.books.Same b') (failures : List (Books × Books)) :
    Inv m c₀ { t with books := b', failures } := by
  refine { h with
    sum := fun k => ?_, rate := fun k => ?_, deferred := fun hd k => ?_, immediate := fun hn k => ?_
    held := fun hd k => ?_, large := ?_, once := ?_ }
  · rw [← hs.cash k]
    exact h.sum k
  · rw [← hs.cash k]
    exact h.rate k
  · rw [← hs.cash k, ← hs.pending]
    exact h.deferred hd k
  · rw [← hs.cash k]
    exact h.immediate hn k
  · show (b'.reserved.get? k).getD 0 = _
    rw [← hs.reserved k, ← hs.pending]
    exact h.held hd k
  · rw [← hs.pending]
    exact h.large
  · rw [← hs.pending]
    exact h.once

def Unchanged (t : Account) : Prop := ∀ f ∈ t.failures, f.1.Same f.2

lemma unchanged_step {e : AccountEvent} (hs : accountStep m t e = some t') :
    Unchanged t' ↔ Unchanged t ∧ Settles m t e := by
  cases e with
  | applyDue now =>
    obtain ⟨settlement, -, rfl⟩ := Option.map_eq_some_iff.mp hs
    exact (and_iff_left trivial).symm
  | execute order c =>
    rw [settles_iff]
    simp only [accountStep] at hs
    split at hs
    · rename_i hn
      cases hs
      unfold Unchanged
      simp only [List.forall_mem_append, List.forall_mem_singleton, hn, forall_const]
    · rename_i hsm
      have hr : (m.executeOrder t.books order c).1 = none → t.books.Same (m.executeOrder t.books order c).2 := by
        intro hn
        cases hn.symm.trans hsm
      split at hs
      · cases hs
        exact (and_iff_left hr).symm
      · cases hs
        exact (and_iff_left hr).symm

/-- **One call** keeps what holds of the books, if it changes nothing where it raises. -/
theorem Inv.step {e : AccountEvent} (h : Inv m c₀ t) (hd : Debits m t e) (hst : Settles m t e)
    (hs : accountStep m t e = some t') : Inv m c₀ t' := by
  cases e with
  | applyDue now => exact h.applyDue hs
  | execute order c =>
    rw [settles_iff] at hst
    simp only [accountStep] at hs
    split at hs
    · rename_i hn
      cases hs
      exact h.same (hst hn) _
    · rename_i fill order' hsm
      rcases booked_of_executeOrder hsm with ⟨hz, hbk⟩ | ⟨hne, hb⟩
      · rw [if_pos hz] at hs
        cases hs
        rw [hbk]
        exact h
      · rw [if_neg hne] at hs
        cases hs
        exact h.booked hb (hd _ hsm)

lemma get_paid (c : Cashbook) (fills : List Executed) (k : String) :
    (Cashbook.get (paid c fills) k).balance = (Cashbook.get c k).balance - Ledger.total (costs fills) k ∧
    (Cashbook.get (paid c fills) k).pending = (Cashbook.get c k).pending ∧
    (Cashbook.get (paid c fills) k).rate = (Cashbook.get c k).rate := by
  induction fills using List.reverseRecOn with
  | nil => simp [paid, costs]
  | append_singleton fills f ih =>
    obtain ⟨hb, hp, hr⟩ := ih
    have hpaid : paid c (fills ++ [f]) = Cashbook.adjust (paid c fills) f.currency (-f.fill.cost) := by
      unfold paid
      rw [List.foldl_append]
      rfl
    rw [hpaid, costs_concat]
    refine ⟨?_, by simpa using hp, by simpa using hr⟩
    rw [Cashbook.balance_adjust, hb]
    split <;> ring

lemma conserved_of_inv (h : Inv m c₀ t) (hop : ∀ k, (Cashbook.get c₀ k).pending = 0) (hu : Unchanged t) :
    Conserved m c₀ t where
  balance hnot k := by
    have hsum := h.sum k
    rwa [h.immediate hnot k, add_zero] at hsum
  both _ k := h.sum k
  value base := by
    refine Cashbook.totalValue_congr base (fun k => ?_) fun k => ?_
    · rw [h.rate k, (get_paid c₀ t.fills k).2.2]
    · rw [h.sum k, (get_paid c₀ t.fills k).1, (get_paid c₀ t.fills k).2.1, hop k, add_zero]
  pending := h.deferred
  reserved hd k := by
    have hn : 0 ≤ Ledger.total (debits t.books.pending) k := by
      rcases total_debits_large h.large k with hz | hl
      · exact hz.ge
      · exact le_trans (by norm_num) hl
    show max 0 (held t.books.reserved k) = _
    rw [h.held hd k, max_eq_right hn]
  recorded := h.recorded
  once := h.once
  due := h.due
  prompt := h.prompt
  unchanged := hu

/-- **Every run** conserves the cash of the account, whatever it is settled with, exactly where no call raises once it has
borrowed or paid. -/
theorem settles_run_iff (m : BrokerageModel) (balances : List (String × ℚ × ℚ)) (borrowed : Dict (String × ℕ) ℚ)
    (t : Account) : Run (accountStep m) (fun t e => Debits m t e ∧ Settles m t e) (.init balances borrowed) t ↔
      Run (accountStep m) (Debits m) (.init balances borrowed) t ∧ Conserved m (opening balances) t := by
  constructor
  · intro h
    have hboth : Inv m (opening balances) t ∧ Unchanged t := by
      refine h.invariant (I := fun t => Inv m (opening balances) t ∧ Unchanged t)
        ⟨inv_init m balances borrowed, fun f hf => absurd hf List.not_mem_nil⟩ ?_
      intro t e t' hI he hstep
      exact ⟨hI.1.step he.1 he.2 hstep, (unchanged_step hstep).mpr ⟨hI.2, he.2⟩⟩
    exact ⟨h.mono fun _ _ he => he.1, conserved_of_inv hboth.1 (opening_pending balances) hboth.2⟩
  · rintro ⟨h, hconserved⟩
    have hunchanged : Unchanged t := hconserved.unchanged
    clear hconserved
    induction h with
    | init => exact .init
    | next _ hdebits hstep ih =>
      obtain ⟨hold, hsettles⟩ := (unchanged_step hstep).mp hunchanged
      exact (ih hold).next ⟨hdebits, hsettles⟩ hstep

def feelessBrokerage : BrokerageModel where
  baseCurrency := "USD"
  hasSufficientBuyingPower _ _ := some true
  fee _ _ := none
  slippage _ price := some price
  fill order bar := some (FillModel.fill (.single .market ⟨none, none⟩) order bar)
  symbols := none
  hours := none
  shortable := some ⟨.ofList [("AAPL", .always ⟨100, 1 / 100⟩)]⟩
  settlement := none

def shortSale : Order := ⟨"AAPL", -10, 100, .market, .day, none, none, none, none, none⟩

def saleAt100 : Call := ⟨100, some (738000 * oneDay), none, 738000 * oneDay, 738000⟩

/-- **Shares stay borrowed** for a sale that raised. -/
theorem borrowed_for_nothing : ∃ t, Run (accountStep feelessBrokerage) (Debits feelessBrokerage)
    (.init [("USD", 1000, 1)] .empty) t ∧ ¬Conserved feelessBrokerage (opening [("USD", 1000, 1)]) t := by
  have hraised : (feelessBrokerage.executeOrder (Account.init [("USD", 1000, 1)] .empty).books shortSale saleAt100).1 = none := by
    decide +kernel
  have hborrowed : (feelessBrokerage.executeOrder (Account.init [("USD", 1000, 1)] .empty).books shortSale saleAt100).2.borrowedOf
      "AAPL" 738000 = 10 := by decide +kernel
  have hstep : accountStep feelessBrokerage (.init [("USD", 1000, 1)] .empty) (.execute shortSale saleAt100) =
      some { Account.init [("USD", 1000, 1)] .empty with
        books := (feelessBrokerage.executeOrder (Account.init [("USD", 1000, 1)] .empty).books shortSale saleAt100).2
        failures := [((Account.init [("USD", 1000, 1)] .empty).books,
          (feelessBrokerage.executeOrder (Account.init [("USD", 1000, 1)] .empty).books shortSale saleAt100).2)] } := by
    simp only [accountStep, hraised]
    rfl
  have hdebits : Debits feelessBrokerage (.init [("USD", 1000, 1)] .empty) (.execute shortSale saleAt100) := by
    intro r hr
    rw [hraised] at hr
    cases hr
  refine ⟨_, Run.init.next hdebits hstep, fun hconserved => ?_⟩
  have hsame := hconserved.unchanged _ List.mem_cons_self
  have hzero := hsame.borrowed "AAPL" 738000
  exact absurd hzero (by decide +kernel)

end Qmtl.Runtime.Brokerage

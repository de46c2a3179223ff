import Qmtl.Runtime.Labeling.LabelRuns

/-!
A barrier of returns and the barrier of prices it stands for: two machines that differ in this label the same.
-/

namespace Qmtl.Runtime.Labeling

open Lib

/-! ### Barriers -/

def BarrierSpec.atPrice (b : BarrierSpec) (entryPrice : ℚ) : Side → BarrierSpec
  | .long => {
      profitTarget := b.profitTarget.map fun pt => entryPrice * (1 + pt)
      stopLoss := b.stopLoss.map fun sl => entryPrice * (1 - sl)
      mode := .price
      frozenAt := b.frozenAt }
  | .short => {
      profitTarget := b.profitTarget.map fun pt => entryPrice * (1 - pt)
      stopLoss := b.stopLoss.map fun sl => entryPrice * (1 + sl)
      mode := .price
      frozenAt := b.frozenAt }

def BarrierSpec.Priced (b b' : BarrierSpec) (entryPrice : ℚ) (side : Side) : Prop :=
  b' = b ∨ b.mode = .returns ∧ b' = b.atPrice entryPrice side

variable {entryPrice : ℚ} {es es' : List (String × EntryState)} {m m' : TripleBarrierStateMachine}

lemma BarrierSpec.Priced.frozenAt {b b' : BarrierSpec} {side : Side} (h : b.Priced b' entryPrice side) :
    b'.frozenAt = b.frozenAt := by
  rcases h with rfl | ⟨-, rfl⟩
  · rfl
  · cases side <;> rfl

lemma any_map_congr {level : Option ℚ} {f : ℚ → ℚ} {p q : ℚ → Bool} (h : ∀ l, p (f l) = q l) :
    (level.map f).any p = level.any q := by
  cases level with
  | none => rfl
  | some l => exact h l

lemma priceOutcome_atPrice (b : BarrierSpec) (hprice : 0 < entryPrice) (side : Side) (observedPrice : ℚ) :
    priceOutcome (b.atPrice entryPrice side) side observedPrice =
      returnOutcome b (signedReturn entryPrice observedPrice side) := by
  cases side with
  | long =>
    have htarget : ∀ pt, entryPrice * (1 + pt) ≤ observedPrice ↔ pt ≤ (observedPrice - entryPrice) / entryPrice := by
      intro pt
      rw [le_div_iff₀ hprice]
      constructor <;> intro h <;> linarith
    have hs : ∀ sl, observedPrice ≤ entryPrice * (1 - sl) ↔ (observedPrice - entryPrice) / entryPrice ≤ -sl := by
      intro sl
      rw [div_le_iff₀ hprice]
      constructor <;> intro h <;> linarith
    exact congrArg₂ firstOf (any_map_congr fun pt => decide_eq_decide.mpr (htarget pt))
      (any_map_congr fun sl => decide_eq_decide.mpr (hs sl))
  | short =>
    have htarget : ∀ pt, observedPrice ≤ entryPrice * (1 - pt) ↔ pt ≤ (entryPrice - observedPrice) / entryPrice := by
      intro pt
      rw [le_div_iff₀ hprice]
      constructor <;> intro h <;> linarith
    have hs : ∀ sl, entryPrice * (1 + sl) ≤ observedPrice ↔ (entryPrice - observedPrice) / entryPrice ≤ -sl := by
      intro sl
      rw [div_le_iff₀ hprice]
      constructor <;> intro h <;> linarith
    exact congrArg₂ firstOf (any_map_congr fun pt => decide_eq_decide.mpr (htarget pt))
      (any_map_congr fun sl => decide_eq_decide.mpr (hs sl))

lemma signedReturn_netAdjustedPrice (hprice : 0 < entryPrice) (observedPrice : ℚ) (side : Side) (adjustment : ℚ) :
    signedReturn entryPrice (netAdjustedPrice entryPrice observedPrice side adjustment) side =
      signedReturn entryPrice observedPrice side - adjustment := by
  cases side <;> simp only [signedReturn, netAdjustedPrice] <;> field_simp <;> ring

/-! ### Entries -/

/-- Two entries that differ in the barrier, which is the same one in prices. -/
structure Twin (st st' : EntryState) : Prop where
  entry : st'.entry = st.entry
  horizon : st'.horizon = st.horizon
  cost : st'.cost = st.cost
  barsObserved : st'.barsObserved = st.barsObserved
  barrier : st.barrier.Priced st'.barrier st.entry.entryPrice st.entry.side

def TripleBarrierLabel.withoutBarrier (l : TripleBarrierLabel) : TripleBarrierLabel where
  __ := l
  barrier := ⟨none, none, .returns, none⟩
  barrier_frozen := fun _ h => absurd h (by simp)

namespace Twin

variable {st st' : EntryState} {o : TripleBarrierObservation}

lemma counting (h : Twin st st') (n : ℕ) : Twin (st.counting n) (st'.counting n) :=
  ⟨h.entry, h.horizon, h.cost, rfl, h.barrier⟩

lemma grossOutcome (h : Twin st st') (o : TripleBarrierObservation) : st'.grossOutcome o = st.grossOutcome o := by
  unfold EntryState.grossOutcome EntryState.grossReturn barrierOutcome
  rw [h.entry]
  rcases h.barrier with hb | ⟨hmode, hb⟩
  · rw [hb]
  · have hprice : (st.barrier.atPrice st.entry.entryPrice st.entry.side).mode = .price := by
      cases st.entry.side <;> rfl
    rw [hb, hprice, hmode]
    exact priceOutcome_atPrice st.barrier st.entry.entryPrice_pos st.entry.side o.price

lemma netOutcome (h : Twin st st') (o : TripleBarrierObservation) : st'.netOutcome o = st.netOutcome o := by
  unfold EntryState.netOutcome EntryState.netReturn EntryState.grossReturn netBarrierOutcome
  rw [h.entry, h.cost]
  rcases h.barrier with hb | ⟨hmode, hb⟩
  · rw [hb]
  · have hprice : (st.barrier.atPrice st.entry.entryPrice st.entry.side).mode = .price := by
      cases st.entry.side <;> rfl
    rw [hb, hprice, hmode]
    rw [priceOutcome_atPrice st.barrier st.entry.entryPrice_pos, signedReturn_netAdjustedPrice st.entry.entryPrice_pos]

lemma sees_iff (h : Twin st st') : st'.Sees o ↔ st.Sees o := by
  constructor
  · rintro ⟨hs, hl⟩
    rw [h.entry] at hs hl
    exact ⟨hs, hl⟩
  · rintro ⟨hs, hl⟩
    rw [← h.entry] at hs hl
    exact ⟨hs, hl⟩

lemma ends_iff (h : Twin st st') (n : ℕ) : st'.Ends n o ↔ st.Ends n o := by
  unfold EntryState.Ends EntryState.Elapsed
  rw [h.netOutcome, h.entry, h.horizon]

lemma withoutBarrier_label (h : Twin st st') (hl : st.entry.entryTime < o.observedTime)
    (hl' : st'.entry.entryTime < o.observedTime) :
    (st'.label o hl').withoutBarrier = (st.label o hl).withoutBarrier := by
  have hg := h.grossOutcome o
  have hnet := h.netOutcome o
  obtain ⟨entry', barrier', ho', cost', n', hb', hh'⟩ := st'
  obtain ⟨rfl, rfl, rfl, rfl, -⟩ := h
  simp only [EntryState.label, TripleBarrierLabel.withoutBarrier, hg, hnet]
  rfl

lemma resolve (h : Twin st st') (o : TripleBarrierObservation) :
    (resolve o st').map TripleBarrierLabel.withoutBarrier = (resolve o st).map TripleBarrierLabel.withoutBarrier := by
  have hc : st' = st'.counting st.barsObserved := by
    rw [← h.barsObserved]
    rfl
  rw [hc]
  show _ = (Labeling.resolve o (st.counting st.barsObserved)).map _
  by_cases hs : st.Sees o
  · have hs' := h.sees_iff.mpr hs
    by_cases he : st.Ends (st.barsObserved + 1) o
    · rw [resolve_of_ends hs he, resolve_of_ends hs' ((h.ends_iff _).mpr he), Option.map_some, Option.map_some,
        h.withoutBarrier_label hs.later hs'.later]
    · rw [resolve_of_not_ends hs he, resolve_of_not_ends hs' (mt (h.ends_iff _).mp he)]
  · rw [resolve_of_not_sees hs, resolve_of_not_sees (mt h.sees_iff.mp hs)]

lemma kept (h : Twin st st') (o : TripleBarrierObservation) : Option.Rel Twin (kept o st) (kept o st') := by
  have hc : st' = st'.counting st.barsObserved := by
    rw [← h.barsObserved]
    rfl
  rw [hc]
  show Option.Rel Twin (Labeling.kept o (st.counting st.barsObserved)) _
  by_cases hs : st.Sees o
  · have hs' := h.sees_iff.mpr hs
    by_cases he : st.Ends (st.barsObserved + 1) o
    · rw [kept_of_ends hs he, kept_of_ends hs' ((h.ends_iff _).mpr he)]
      exact .none
    · rw [kept_of_not_ends hs he, kept_of_not_ends hs' (mt (h.ends_iff _).mp he)]
      exact .some (h.counting _)
  · rw [kept_of_not_sees hs, kept_of_not_sees (mt h.sees_iff.mp hs)]
    exact .some (h.counting _)

end Twin

/-! ### Machines -/

/-- Two machines with the same entries, up to their barriers. -/
structure Alike (m m' : TripleBarrierStateMachine) : Prop where
  entries : List.Forall₂ (fun e e' => e'.1 = e.1 ∧ Twin e.2 e'.2) m.entries.entries m'.entries.entries
  resolved : m'.resolved = m.resolved
  sequence : m'.sequence = m.sequence

lemma alike_init : Alike .init .init := ⟨.nil, rfl, rfl⟩

lemma forall₂_alterEntries (o : TripleBarrierObservation)
    (h : List.Forall₂ (fun e e' => e'.1 = e.1 ∧ Twin e.2 e'.2) es es') :
    List.Forall₂ (fun e e' => e'.1 = e.1 ∧ Twin e.2 e'.2) (Dict.alterEntries (fun _ => kept o) es)
      (Dict.alterEntries (fun _ => kept o) es') := by
  induction h with
  | nil => exact .nil
  | @cons e e' es es' he _ ih =>
    unfold Dict.alterEntries at ih ⊢
    rw [List.filterMap_cons, List.filterMap_cons]
    dsimp only
    rcases h₁ : kept o e.2 with _ | st <;> rcases h₂ : kept o e'.2 with _ | st' <;>
      have hk := he.2.kept o <;> rw [h₁, h₂] at hk
    · exact ih
    · cases hk
    · cases hk
    · cases hk with
      | some ht => exact .cons ⟨he.1, ht⟩ ih

lemma forall₂_resolve (o : TripleBarrierObservation)
    (h : List.Forall₂ (fun e e' => e'.1 = e.1 ∧ Twin e.2 e'.2) es es') :
    (es'.filterMap fun e => resolve o e.2).map TripleBarrierLabel.withoutBarrier =
      (es.filterMap fun e => resolve o e.2).map TripleBarrierLabel.withoutBarrier := by
  rw [List.map_filterMap, List.map_filterMap]
  induction h with
  | nil => rfl
  | cons he _ ih => rw [List.filterMap_cons, List.filterMap_cons, he.2.resolve o, ih]

lemma forall₂_isSome (o : TripleBarrierObservation) (k : String)
    (h : List.Forall₂ (fun e e' => e'.1 = e.1 ∧ Twin e.2 e'.2) es es') :
    (∃ st, (k, st) ∈ es' ∧ (resolve o st).isSome) ↔ ∃ st, (k, st) ∈ es ∧ (resolve o st).isSome := by
  induction h with
  | nil => simp
  | @cons e e' es es' he _ ih =>
    obtain ⟨key, st⟩ := e
    obtain ⟨key', st'⟩ := e'
    obtain ⟨rfl, ht⟩ : key' = key ∧ Twin st st' := he
    have hs : (resolve o st').isSome = (resolve o st).isSome := by
      simpa using congrArg Option.isSome (ht.resolve o)
    simp only [List.mem_cons, Prod.mk.injEq, or_and_right, exists_or, ih]
    refine or_congr_left ⟨?_, ?_⟩
    · rintro ⟨_, ⟨hk, rfl⟩, h⟩
      exact ⟨st, ⟨hk, rfl⟩, hs ▸ h⟩
    · rintro ⟨_, ⟨hk, rfl⟩, h⟩
      exact ⟨st', ⟨hk, rfl⟩, hs ▸ h⟩

namespace Alike

variable {m m' : TripleBarrierStateMachine}

lemma keys (h : Alike m m') : m'.entries.keys = m.entries.keys := by
  unfold Dict.keys
  have hes := h.entries
  generalize m.entries.entries = es at hes
  generalize m'.entries.entries = es' at hes
  induction hes with
  | nil => rfl
  | cons he _ ih => rw [List.map_cons, List.map_cons, he.1, ih]

lemma set (h : Alike m m') {st st' : EntryState} (ht : Twin st st') {k : String} (hk : k ∉ m.entries.keys) (n : ℕ) :
    Alike { m with sequence := n, entries := m.entries.set k st }
      { m' with sequence := n, entries := m'.entries.set k st' } := by
  refine ⟨?_, h.resolved, rfl⟩
  rw [Dict.entries_set_of_notMem st hk, Dict.entries_set_of_notMem st' (h.keys ▸ hk)]
  exact List.rel_append h.entries (.cons ⟨rfl, ht⟩ .nil)

lemma sweep_sequence (m : TripleBarrierStateMachine) (o : TripleBarrierObservation) :
    (sweep m o).2.sequence = m.sequence := by
  have hgen : ∀ (es : List (String × EntryState)) acc, (es.foldl (sweepEntry o) acc).2.sequence = acc.2.sequence := by
    intro es
    induction es with
    | nil => exact fun acc => rfl
    | cons e es ih =>
      intro acc
      rw [List.foldl_cons, ih]
      obtain ⟨-, -, h⟩ | ⟨_, -, -, h⟩ | ⟨_, -, -, h⟩ := sweepEntry_cases o acc.1 acc.2 e.1 e.2
      all_goals rw [h]
  exact hgen m.entries.entries ([], m)

lemma update (h : Alike m m') (o : TripleBarrierObservation) : Alike (sweep m o).2 (sweep m' o).2 := by
  refine ⟨?_, ?_, ?_⟩
  · rw [sweep_entries, sweep_entries]
    exact forall₂_alterEntries o h.entries
  · ext k
    rw [sweep_resolved, sweep_resolved, h.resolved]
    simp [Dict.get?_eq_some, forall₂_isSome o k h.entries]
  · rw [sweep_sequence, sweep_sequence, h.sequence]

lemma register (h : Alike m m') (env : Env) (r : Registration) {barrier : BarrierSpec}
    (hf : barrier.frozenAt = r.barrier.frozenAt)
    (hbr : ∀ side, normalizeSide env r.entry.side = .ok side → r.barrier.Priced barrier r.entry.entryPrice side) :
    Alike (r.apply env m).2 ({ r with barrier := barrier }.apply env m').2 := by
  unfold Registration.apply registerEntry
  by_cases hprice : 0 < r.entry.entryPrice
  · rw [dif_pos hprice, dif_pos hprice]
    rcases hside : normalizeSide env r.entry.side with e | side
    · exact h
    dsimp only
    by_cases hb : FrozenAt r.barrier.frozenAt r.entry.entryTime
    · have hb' : FrozenAt barrier.frozenAt r.entry.entryTime := by rwa [hf]
      rw [dif_pos hb, dif_pos hb']
      by_cases hh : FrozenAt r.horizon.frozenAt r.entry.entryTime
      · rw [dif_pos hh, dif_pos hh]
        rcases validateHorizon r.horizon with e | _
        · exact h
        rw [h.sequence, h.keys, h.resolved]
        rcases entryIdFor env r.entry m.sequence with ⟨entryId, sequence⟩
        by_cases ht : entryId ∈ m.entries.keys ∨ entryId ∈ m.resolved
        · rw [if_pos ht, if_pos ht]
          exact ⟨h.entries, rfl, rfl⟩
        · rw [if_neg ht, if_neg ht]
          rcases r.estimate _ with e | cost
          · exact ⟨h.entries, rfl, rfl⟩
          · have hset := h.set (⟨rfl, rfl, rfl, rfl, hbr side hside⟩ : Twin
                ⟨⟨r.entry.entryTime, r.entry.entryPrice, side, entryId, r.entry.symbol, r.entry.metadata, hprice⟩,
                  r.barrier, r.horizon, cost, 0, hb, hh⟩
                ⟨⟨r.entry.entryTime, r.entry.entryPrice, side, entryId, r.entry.symbol, r.entry.metadata, hprice⟩,
                  barrier, r.horizon, cost, 0, hb', hh⟩) (not_or.mp ht).1 sequence
            exact ⟨hset.entries, rfl, rfl⟩
      · rw [dif_neg hh, dif_neg hh]
        exact h
    · have hb' : ¬ FrozenAt barrier.frozenAt r.entry.entryTime := by rwa [hf]
      rw [dif_neg hb, dif_neg hb']
      exact h
  · rw [dif_neg hprice, dif_neg hprice]
    exact h

end Alike

/-- Two operations that are the same, or register an entry with a barrier and the one of prices it stands for. -/
inductive Op.Priced (env : Env) : Op → Op → Prop
  | same (op : Op) : Priced env op op
  | register (r : Registration) (side : Side) (hside : normalizeSide env r.entry.side = .ok side)
      (hmode : r.barrier.mode = .returns) :
      Priced env (.register r) (.register { r with barrier := r.barrier.atPrice r.entry.entryPrice side })

variable {env : Env}

lemma Alike.next (h : Alike m m') {op op' : Op} (hop : op.Priced env op') :
    Alike (Sweep.next env m op) (Sweep.next env m' op') := by
  cases hop with
  | same =>
    cases op with
    | register r => exact h.register env r rfl fun _ _ => .inl rfl
    | update o => exact h.update o
  | register r side hside hmode =>
    have hb : ∀ side', normalizeSide env r.entry.side = .ok side' →
        r.barrier.Priced (r.barrier.atPrice r.entry.entryPrice side) r.entry.entryPrice side' := by
      intro side' hs'
      rw [hside] at hs'
      cases hs'
      exact .inr ⟨hmode, rfl⟩
    exact h.register env r (hb side hside).frozenAt hb

lemma Alike.emitted (h : Alike m m') {op op' : Op} (hop : op.Priced env op') :
    (Sweep.emitted m' op').map TripleBarrierLabel.withoutBarrier = (Sweep.emitted m op).map TripleBarrierLabel.withoutBarrier := by
  cases hop with
  | register => rfl
  | same =>
    cases op with
    | register => rfl
    | update o =>
      show (sweep m' o).1.map _ = (sweep m o).1.map _
      rw [sweep_labels, sweep_labels]
      exact forall₂_resolve o h.entries

/-- **Barriers of prices label as the barriers of returns do**, step by step. -/
theorem Alike.outputs (h : Alike m m') {ops ops' : List Op} (hops : List.Forall₂ (Op.Priced env) ops ops') :
    (Sweep.outputs env m' ops').map (·.map TripleBarrierLabel.withoutBarrier) =
      (Sweep.outputs env m ops).map (·.map TripleBarrierLabel.withoutBarrier) := by
  induction hops generalizing m m' with
  | nil => rfl
  | cons hop _ ih =>
    rw [Sweep.outputs, Sweep.outputs, List.map_cons, List.map_cons, h.emitted hop, ih (h.next hop)]

lemma Alike.timely (h : Alike m m') {o : TripleBarrierObservation} (ht : Timely m o) : Timely m' o := by
  have hes := h.entries
  unfold Timely at ht ⊢
  generalize m.entries.entries = es at hes ht
  generalize m'.entries.entries = es' at hes
  induction hes with
  | nil => exact ht
  | @cons e e' es es' he _ ih =>
    rw [List.forall_mem_cons] at ht ⊢
    refine ⟨fun hs => ?_, ih ht.2⟩
    have hin := ht.1 (he.2.sees_iff.mp hs)
    unfold EntryState.InRange at hin ⊢
    rwa [he.2.horizon, he.2.entry]

lemma Alike.clear (h : Alike m m') {ops ops' : List Op} (hops : List.Forall₂ (Op.Priced env) ops ops')
    (hc : Clear env m ops) : Clear env m' ops' := by
  induction hops generalizing m m' with
  | nil => trivial
  | @cons op op' ops ops' hop _ ih =>
    have ht : ∀ o, op' = .update o → Timely m' o := by
      rintro o rfl
      cases hop with
      | same => exact h.timely (hc.1 o rfl)
    refine ⟨ht, ih ?_ hc.2⟩
    rw [(next_eq hc.1).1, (next_eq ht).1]
    exact h.next hop

/-- What the labels of a run are to be: a registration that is valid succeeds, and no other; every update returns the
labels of the entries for which its observation is the first one that ends them; no entry has two labels; a net profit
is a gross one and a gross stop a net one; and barriers of prices label as the barriers of returns that they stand for. -/
structure Exact (env : Env) (ops : List Op) : Prop where
  registered : ∀ before r rest, ops = before ++ .register r :: rest →
    (∀ st, Registers env (after env before) r st → (r.apply env (after env before)).1 = .ok st.entry.entryId) ∧
      ((∀ st, ¬ Registers env (after env before) r st) → ∃ e, (r.apply env (after env before)).1 = .error e)
  emitted : ∀ before o rest, ops = before ++ .update o :: rest → ∃ ls, (update (after env before) o).1 = .ok ls ∧
    ∀ l, l ∈ ls ↔ ∃ before' r rest' st, before = before' ++ .register r :: rest' ∧
      Registers env (after env before') r st ∧ ∃ h : st.FirstEnd (observations rest') o, l = st.label o h.sees.later
  once : ((labels env ops).map TripleBarrierLabel.entryId).Nodup
  ordered : ∀ l ∈ labels env ops, (l.outcome = .profitTarget → l.outcomeGross = some .profitTarget) ∧
    (l.outcomeGross = some .stopLoss → l.outcome = .stopLoss)
  priced : ∀ ops', List.Forall₂ (Op.Priced env) ops ops' →
    (outputs env .init ops').map (·.map (·.map TripleBarrierLabel.withoutBarrier)) =
      (outputs env .init ops).map (·.map (·.map TripleBarrierLabel.withoutBarrier))

lemma registered_or_raises (r : Registration) :
    (∀ st, Registers env m r st → (r.apply env m).1 = .ok st.entry.entryId) ∧
      ((∀ st, ¬ Registers env m r st) → ∃ e, (r.apply env m).1 = .error e) := by
  refine ⟨fun st h => h.returned, fun hno => ?_⟩
  rcases register_cases env m r with ⟨e, he, -⟩ | ⟨st, h, -⟩
  · exact ⟨e, he⟩
  · exact absurd h (hno st)

lemma ordered_of_mem {l : TripleBarrierLabel} {ops : List Op} (hl : l ∈ Sweep.labels env ops) :
    (l.outcome = .profitTarget → l.outcomeGross = some .profitTarget) ∧
      (l.outcomeGross = some .stopLoss → l.outcome = .stopLoss) := by
  obtain ⟨before, o, rest, -, hl⟩ := Sweep.emitted_of_mem hl
  obtain ⟨-, -, -, st, -, -, hend, rfl⟩ := Sweep.mem_labels_sweep.mp hl
  obtain ⟨hprofit, hstop⟩ : NoBetter (st.netOutcome o) (st.grossOutcome o) :=
    noBetter_net st.entry.entryPrice_pos st.cost.totalAdjustment_nonneg
  constructor
  · intro h
    refine hprofit ?_
    rcases EntryState.netOutcome_cases st o with hnet | hnet | hnet
    · simp [EntryState.label, hnet] at h
    · exact hnet
    · simp [EntryState.label, hnet] at h
  · intro h
    simp only [EntryState.label]
    rw [hstop h]
    rfl

/-- **When the labels are exact**: in every run in which no observation meets an entry whose last time is out of the
range of `datetime`. -/
theorem labels_exact_iff (env : Env) (ops : List Op) : Exact env ops ↔ Clear env .init ops := by
  constructor
  · intro h
    refine clear_of_returns fun before o rest hops => ?_
    obtain ⟨ls, hls, -⟩ := h.emitted before o rest hops
    exact ⟨ls, hls⟩
  · intro hc
    refine ⟨fun before r rest _ => registered_or_raises r, ?_, ?_, ?_, ?_⟩
    · rintro before o rest rfl
      obtain ⟨hb, ht, -⟩ := clear_append.mp hc
      have hu := update_of_timely (ht o rfl)
      refine ⟨_, congrArg Prod.fst hu, fun l => ?_⟩
      show l ∈ (sweep (after env before) o).1 ↔ _
      rw [after_eq hb, Sweep.mem_labels_sweep]
      refine exists_congr fun before' => exists_congr fun r => exists_congr fun rest' => exists_congr fun st => ?_
      refine and_congr_right ?_
      rintro rfl
      rw [after_eq (clear_append.mp hb).1]
    · rw [labels_eq hc]
      exact Sweep.nodup_ids env ops
    · intro l hl
      rw [labels_eq hc] at hl
      exact ordered_of_mem hl
    · intro ops' hops
      have ho := congrArg (List.map (@Except.ok String _)) (alike_init.outputs hops)
      rw [(run_eq (alike_init.clear hops hc)).2, (run_eq hc).2]
      simpa [List.map_map, Function.comp_def, Except.map] using ho

/-! ### A horizon without an end -/

def plain : Env := ⟨fun _ => "", id, id⟩

/-- An entry of the first of January 2025, long at 100. -/
def entered (entryId : String) (horizon : HorizonSpec) : Registration where
  entry := ⟨63871286400000000, 100, "long", some entryId, none, []⟩
  barrier := ⟨some (1 / 10), some (1 / 20), .returns, none⟩
  horizon := horizon
  estimate _ := .ok ⟨0, 0, none, none, le_rfl, le_rfl⟩

def oneSecondLater (price : ℚ) : TripleBarrierObservation := ⟨63871286401000000, price, none⟩

def oneHour : List Op := [.register (entered "a" ⟨some 3600000000, none, none⟩), .update (oneSecondLater 110)]

/-- An entry that waits for one bar, and one whose horizon is `timedelta.max`. -/
def endless : List Op :=
  [.register (entered "a" ⟨none, some 1, none⟩), .register (entered "b" ⟨some 86399999999999999999, none, none⟩)]

theorem labels_exact_iff_profit :
    Exact plain oneHour ∧ (labels plain oneHour).map TripleBarrierLabel.outcome = [.profitTarget] := by
  refine ⟨(labels_exact_iff _ _).mpr ⟨fun o h => (by cases h), ?_, trivial⟩, by decide +kernel⟩
  rintro o - e he - d hd
  obtain rfl := List.mem_singleton.mp (show e ∈ [("a", _)] from he)
  cases hd
  decide

/-- The update raises for the endless entry, and the label of the other, which is among the resolved ones already, is
never returned. -/
theorem label_lost : "a" ∈ (after plain (endless ++ [.update (oneSecondLater 100)])).resolved ∧
    ¬ Exact plain (endless ++ [.update (oneSecondLater 100)]) := by
  refine ⟨by decide +kernel, fun h => ?_⟩
  obtain ⟨ls, hls, -⟩ := h.emitted endless (oneSecondLater 100) [] rfl
  have hraises : (update (after plain endless) (oneSecondLater 100)).1.toOption = none := by decide +kernel
  rw [hls] at hraises
  cases hraises

end Qmtl.Runtime.Labeling

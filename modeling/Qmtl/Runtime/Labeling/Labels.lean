import Qmtl.Lib.Log
import Qmtl.Runtime.Labeling.TripleBarrier

/-!
One observation: the outcomes, net and gross, and the pass over the entries as it is where no addition of times
overflows, with no exceptions (`sweep`). `update` is that pass exactly when each entry that sees the observation has
its last time in range.
-/

namespace Qmtl.Runtime.Labeling

open Lib

/-! ### Net and gross outcomes -/

section Outcomes

lemma firstOf_eq_target {target stop : Bool} : firstOf target stop = some .profitTarget ↔ target := by
  cases target <;> cases stop <;> simp [firstOf]

lemma firstOf_eq_stop {target stop : Bool} : firstOf target stop = some .stopLoss ↔ target = false ∧ stop := by
  cases target <;> cases stop <;> simp [firstOf]

lemma any_le_mono {level : Option ℚ} {x y : ℚ} (hxy : x ≤ y) (h : (level.any fun l => l ≤ x)) :
    (level.any fun l => l ≤ y) := by
  cases level with
  | none => cases h
  | some l => simpa using le_trans (by simpa using h) hxy

lemma any_ge_mono {level : Option ℚ} {x y : ℚ} (hyx : y ≤ x) (h : (level.any fun l => x ≤ l)) :
    (level.any fun l => y ≤ l) := by
  cases level with
  | none => cases h
  | some l => simpa using le_trans hyx (by simpa using h)

def NoBetter (a b : Option LabelOutcome) : Prop :=
  (a = some .profitTarget → b = some .profitTarget) ∧ (b = some .stopLoss → a = some .stopLoss)

lemma noBetter_firstOf {t t' s s' : Bool} (ht : t → t') (hs : s' → s) :
    NoBetter (firstOf t s) (firstOf t' s') := by
  constructor
  · rw [firstOf_eq_target, firstOf_eq_target]
    exact ht
  · rw [firstOf_eq_stop, firstOf_eq_stop]
    rintro ⟨htarget, hst⟩
    refine ⟨?_, hs hst⟩
    cases t with
    | false => rfl
    | true => rw [ht rfl] at htarget; cases htarget

lemma noBetter_return {barrier : BarrierSpec} {net gross : ℚ} (h : net ≤ gross) :
    NoBetter (returnOutcome barrier net) (returnOutcome barrier gross) :=
  noBetter_firstOf (any_le_mono h) fun hs => by
    cases hsl : barrier.stopLoss with
    | none => simp [hsl] at hs
    | some sl =>
      have hg : gross ≤ -sl := by simpa [hsl] using hs
      simpa using le_trans h hg

lemma noBetter_price {barrier : BarrierSpec} {side : Side} {entryPrice observedPrice adjustment : ℚ}
    (hprice : 0 < entryPrice) (hadj : 0 ≤ adjustment) :
    NoBetter (priceOutcome barrier side (netAdjustedPrice entryPrice observedPrice side adjustment))
      (priceOutcome barrier side observedPrice) := by
  have hc : 0 ≤ entryPrice * adjustment := mul_nonneg hprice.le hadj
  cases side with
  | long =>
    have hnet : netAdjustedPrice entryPrice observedPrice .long adjustment ≤ observedPrice := by
      simp only [netAdjustedPrice]
      linarith
    exact noBetter_firstOf (any_le_mono hnet) (any_ge_mono hnet)
  | short =>
    have hnet : observedPrice ≤ netAdjustedPrice entryPrice observedPrice .short adjustment := by
      simp only [netAdjustedPrice]
      linarith
    exact noBetter_firstOf (any_ge_mono hnet) (any_le_mono hnet)

lemma noBetter_net {barrier : BarrierSpec} {side : Side} {entryPrice observedPrice realizedReturn adjustment : ℚ}
    (hprice : 0 < entryPrice) (hadj : 0 ≤ adjustment) :
    NoBetter (netBarrierOutcome barrier side entryPrice observedPrice (realizedReturn - adjustment) adjustment)
      (barrierOutcome barrier side observedPrice realizedReturn) := by
  unfold netBarrierOutcome barrierOutcome
  cases barrier.mode with
  | price => exact noBetter_price hprice hadj
  | returns => exact noBetter_return (by linarith)

end Outcomes

/-! ### One observation -/

def elapses (state : EntryState) (observedTime : ℤ) : Bool :=
  (state.horizon.maxDuration.any fun d => state.entry.entryTime + d ≤ observedTime) ||
    (state.horizon.maxBars.any fun n => n ≤ (state.barsObserved : ℤ))

def resolveNow (state : EntryState) (o : TripleBarrierObservation) : Option TripleBarrierLabel × EntryState :=
  if hlater : state.entry.entryTime < o.observedTime then
    let state' := { state with barsObserved := state.barsObserved + 1 }
    (labelFor state' o hlater (elapses state' o.observedTime), state')
  else (none, state)

namespace EntryState

variable (st : EntryState)

def grossReturn (o : TripleBarrierObservation) : ℚ := signedReturn st.entry.entryPrice o.price st.entry.side

def netReturn (o : TripleBarrierObservation) : ℚ := st.grossReturn o - st.cost.totalAdjustment

def grossOutcome (o : TripleBarrierObservation) : Option LabelOutcome :=
  barrierOutcome st.barrier st.entry.side o.price (st.grossReturn o)

def netOutcome (o : TripleBarrierObservation) : Option LabelOutcome :=
  netBarrierOutcome st.barrier st.entry.side st.entry.entryPrice o.price (st.netReturn o) st.cost.totalAdjustment

structure Sees (o : TripleBarrierObservation) : Prop where
  symbol : st.entry.symbol = o.symbol
  later : st.entry.entryTime < o.observedTime

instance decidableSees (o : TripleBarrierObservation) : Decidable (st.Sees o) :=
  decidable_of_iff (st.entry.symbol = o.symbol ∧ st.entry.entryTime < o.observedTime)
    ⟨fun h => ⟨h.1, h.2⟩, fun h => ⟨h.symbol, h.later⟩⟩

variable {st} in
lemma Sees.symbolsMatch {o : TripleBarrierObservation} (h : st.Sees o) :
    symbolsMatch st.entry.symbol o.symbol := decide_eq_true h.symbol

def Elapsed (n : ℕ) (o : TripleBarrierObservation) : Prop :=
  (∃ d ∈ st.horizon.maxDuration, st.entry.entryTime + d ≤ o.observedTime) ∨ ∃ b ∈ st.horizon.maxBars, b ≤ (n : ℤ)

/-- The `n`th observation that counts ends the entry. -/
def Ends (n : ℕ) (o : TripleBarrierObservation) : Prop :=
  st.netOutcome o = some .profitTarget ∨ st.netOutcome o = some .stopLoss ∨ st.Elapsed n o

def label (o : TripleBarrierObservation) (h : st.entry.entryTime < o.observedTime) : TripleBarrierLabel where
  entryId := st.entry.entryId
  entryTime := st.entry.entryTime
  resolvedTime := o.observedTime
  entryPrice := st.entry.entryPrice
  resolvedPrice := o.price
  side := st.entry.side
  outcome := (st.netOutcome o).getD .timeout
  barrier := st.barrier
  horizon := st.horizon
  realizedReturn := st.grossReturn o
  pnlGross := st.grossReturn o
  pnlNet := st.netReturn o
  reason := ((st.netOutcome o).getD .timeout).value
  outcomeGross := st.grossOutcome o
  netOnlyStop := st.netOutcome o = some .stopLoss && st.grossOutcome o = none
  cost := st.cost.totalCost
  minEdge := st.cost.minEdge
  costModelId := st.cost.costModelId
  slippageModelId := st.cost.slippageModelId
  symbol := st.entry.symbol
  metadata := st.entry.metadata
  resolved_later := h
  barrier_frozen := st.barrier_frozen
  horizon_frozen := st.horizon_frozen

def counting (n : ℕ) : EntryState := { st with barsObserved := n }

@[simp] lemma counting_entry (n : ℕ) : (st.counting n).entry = st.entry := rfl

variable (o : TripleBarrierObservation)

lemma netOutcome_cases : st.netOutcome o = none ∨ st.netOutcome o = some .profitTarget ∨
    st.netOutcome o = some .stopLoss := by
  have hfirst : ∃ target stop, st.netOutcome o = firstOf target stop := by
    unfold netOutcome netBarrierOutcome priceOutcome returnOutcome
    cases st.barrier.mode <;> cases st.entry.side <;> exact ⟨_, _, rfl⟩
  obtain ⟨target, stop, h⟩ := hfirst
  rw [h]
  cases target <;> cases stop <;> simp [firstOf]

lemma elapses_counting (n : ℕ) : elapses (st.counting n) o.observedTime ↔ st.Elapsed n o := by
  simp only [elapses, Bool.or_eq_true, Option.any_eq_true, decide_eq_true_eq]
  rfl

variable {o}

lemma resolveNow_of_early (h : ¬ st.entry.entryTime < o.observedTime) : resolveNow st o = (none, st) := by
  unfold resolveNow
  rw [dif_neg h]

variable (o) in
lemma resolveOutcomes_eq (n : ℕ) :
    resolveOutcomes st.barrier st.entry.side st.entry.entryPrice o.price (st.grossReturn o) (st.netReturn o)
        st.cost.totalAdjustment (elapses (st.counting n) o.observedTime) = open Classical in if st.Ends n o then
        some ⟨(st.netOutcome o).getD .timeout, st.grossOutcome o,
          st.netOutcome o = some .stopLoss && st.grossOutcome o = none⟩ else none := by
  have ht : elapses (st.counting n) o.observedTime ↔ st.Elapsed n o := elapses_counting st o n
  have hnet : netBarrierOutcome st.barrier st.entry.side st.entry.entryPrice o.price (st.netReturn o)
    st.cost.totalAdjustment = st.netOutcome o := rfl
  have hg : barrierOutcome st.barrier st.entry.side o.price (st.grossReturn o) = st.grossOutcome o := rfl
  unfold resolveOutcomes Ends
  rw [hnet, hg]
  rcases netOutcome_cases st o with h | h | h
  · by_cases he : st.Elapsed n o
    · simp [h, he, ht.mpr he]
    · simp [h, he, mt ht.mp he]
  · simp [h]
  · simp [h]

variable {st}

lemma resolveNow_of_ends {n : ℕ} (h : st.entry.entryTime < o.observedTime) (hen : st.Ends (n + 1) o) :
    (resolveNow (st.counting n) o).1 = some (st.label o h) := by
  have hres := resolveOutcomes_eq st o (n + 1)
  rw [if_pos hen] at hres
  unfold resolveNow
  rw [dif_pos (show (st.counting n).entry.entryTime < o.observedTime from h)]
  exact congrArg (Option.map _) hres

lemma resolveNow_of_not_ends {n : ℕ} (h : st.entry.entryTime < o.observedTime) (hen : ¬ st.Ends (n + 1) o) :
    resolveNow (st.counting n) o = (none, st.counting (n + 1)) := by
  have hres := resolveOutcomes_eq st o (n + 1)
  rw [if_neg hen] at hres
  have hnone : labelFor (st.counting (n + 1)) o h (elapses (st.counting (n + 1)) o.observedTime) = none :=
    congrArg (Option.map _) hres
  unfold resolveNow
  rw [dif_pos (show (st.counting n).entry.entryTime < o.observedTime from h)]
  exact congrArg (fun l => (l, st.counting (n + 1))) hnone

end EntryState

/-! ### One pass -/

section Sweep

variable (o : TripleBarrierObservation)

def sweepEntry (acc : List TripleBarrierLabel × TripleBarrierStateMachine) (item : String × EntryState) :
    List TripleBarrierLabel × TripleBarrierStateMachine :=
  let (labels, m) := acc
  let (entryId, state) := item
  if symbolsMatch state.entry.symbol o.symbol then
    match resolveNow state o with
    | (none, state) => (labels, { m with entries := m.entries.set entryId state })
    | (some label, _) =>
      (labels ++ [label], { m with entries := m.entries.erase entryId, resolved := insert entryId m.resolved })
  else acc

def sweep (m : TripleBarrierStateMachine) (o : TripleBarrierObservation) :
    List TripleBarrierLabel × TripleBarrierStateMachine :=
  m.entries.entries.foldl (sweepEntry o) ([], m)

def resolve (st : EntryState) : Option TripleBarrierLabel :=
  if symbolsMatch st.entry.symbol o.symbol then (resolveNow st o).1 else none

def kept (st : EntryState) : Option EntryState :=
  if symbolsMatch st.entry.symbol o.symbol then
    match resolveNow st o with
    | (none, st) => some st
    | (some _, _) => none
  else some st

variable {o} {m : TripleBarrierStateMachine}

lemma sweepEntry_cases (o : TripleBarrierObservation) (labels : List TripleBarrierLabel)
    (m : TripleBarrierStateMachine) (k : String) (st : EntryState) :
    (resolve o st = none ∧ kept o st = some st ∧ sweepEntry o (labels, m) (k, st) = (labels, m)) ∨
    (∃ st', resolve o st = none ∧ kept o st = some st' ∧
      sweepEntry o (labels, m) (k, st) = (labels, { m with entries := m.entries.set k st' })) ∨
    ∃ label, resolve o st = some label ∧ kept o st = none ∧ sweepEntry o (labels, m) (k, st) =
      (labels ++ [label], { m with entries := m.entries.erase k, resolved := insert k m.resolved }) := by
  unfold resolve kept
  dsimp only [sweepEntry]
  by_cases hs : symbolsMatch st.entry.symbol o.symbol
  · rw [if_pos hs, if_pos hs, if_pos hs]
    rcases resolveNow st o with ⟨_ | label, st'⟩
    · exact .inr (.inl ⟨st', rfl, rfl, rfl⟩)
    · exact .inr (.inr ⟨label, rfl, rfl, rfl⟩)
  · rw [if_neg hs, if_neg hs, if_neg hs]
    exact .inl ⟨rfl, rfl, rfl⟩

lemma sweepEntry_labels (acc : List TripleBarrierLabel × TripleBarrierStateMachine) (item : String × EntryState) :
    (sweepEntry o acc item).1 = acc.1 ++ (resolve o item.2).toList := by
  obtain ⟨hr, -, h⟩ | ⟨_, hr, -, h⟩ | ⟨label, hr, -, h⟩ := sweepEntry_cases o acc.1 acc.2 item.1 item.2
  all_goals simp [h, hr]

lemma sweepEntry_resolved (acc : List TripleBarrierLabel × TripleBarrierStateMachine) (item : String × EntryState)
    (k : String) : k ∈ (sweepEntry o acc item).2.resolved ↔
      k ∈ acc.2.resolved ∨ (item.1 = k ∧ (resolve o item.2).isSome) := by
  obtain ⟨hr, -, h⟩ | ⟨_, hr, -, h⟩ | ⟨label, hr, -, h⟩ := sweepEntry_cases o acc.1 acc.2 item.1 item.2
  · simp [h, hr]
  · simp [h, hr]
  · simp [h, hr, or_comm, eq_comm]

lemma sweepEntry_entries (acc : List TripleBarrierLabel × TripleBarrierStateMachine) (k : String) (st : EntryState)
    (xs ys : List (String × EntryState)) (h : acc.2.entries.entries = xs ++ (k, st) :: ys) :
    (sweepEntry o acc (k, st)).2.entries.entries = xs ++ ((kept o st).map (k, ·)).toList ++ ys := by
  obtain ⟨-, hk, hu⟩ | ⟨st', -, hk, hu⟩ | ⟨label, -, hk, hu⟩ := sweepEntry_cases o acc.1 acc.2 k st
  · rw [hu, hk, h]
    simp
  · rw [hu, hk]
    simpa using Dict.entries_set_of_split h st'
  · rw [hu, hk]
    simpa using Dict.entries_erase_of_split h

lemma sweep_entries (m : TripleBarrierStateMachine) :
    (sweep m o).2.entries.entries = Dict.alterEntries (fun _ => kept o) m.entries.entries :=
  Dict.entries_foldl_turns (fun acc => acc.2.entries) (sweepEntry o) (fun _ => kept o) sweepEntry_entries ([], m)

lemma sweep_labels (m : TripleBarrierStateMachine) :
    (sweep m o).1 = m.entries.entries.filterMap fun e => resolve o e.2 := by
  have hgen : ∀ (es : List (String × EntryState)) acc, (es.foldl (sweepEntry o) acc).1 =
      acc.1 ++ es.filterMap fun e => resolve o e.2 := by
    intro es
    induction es with
    | nil => simp
    | cons e es ih =>
      intro acc
      rw [List.foldl_cons, ih, sweepEntry_labels, List.append_assoc]
      cases h : resolve o e.2 <;> simp [h]
  exact hgen m.entries.entries ([], m)

lemma sweep_resolved (m : TripleBarrierStateMachine) (k : String) : k ∈ (sweep m o).2.resolved ↔
    k ∈ m.resolved ∨ ∃ st, m.entries.get? k = some st ∧ (resolve o st).isSome := by
  have hgen : ∀ (es : List (String × EntryState)) acc, k ∈ (es.foldl (sweepEntry o) acc).2.resolved ↔
      k ∈ acc.2.resolved ∨ ∃ st, (k, st) ∈ es ∧ (resolve o st).isSome := by
    intro es
    induction es with
    | nil => simp
    | cons e es ih =>
      intro acc
      rw [List.foldl_cons, ih, sweepEntry_resolved, or_assoc]
      refine or_congr_right ?_
      simp only [List.mem_cons]
      constructor
      · rintro (⟨rfl, h⟩ | ⟨st, hst, h⟩)
        · exact ⟨e.2, .inl rfl, h⟩
        · exact ⟨st, .inr hst, h⟩
      · rintro ⟨st, rfl | hst, h⟩
        · exact .inl ⟨rfl, h⟩
        · exact .inr ⟨st, hst, h⟩
  simp only [Dict.get?_eq_some]
  exact hgen m.entries.entries ([], m)

lemma get?_sweep (m : TripleBarrierStateMachine) (k : String) :
    (sweep m o).2.entries.get? k = (m.entries.get? k).bind (kept o) := by
  unfold Dict.get?
  rw [sweep_entries]
  exact Dict.lookup_alterEntries _ m.entries.nodup k

variable {st : EntryState} {n : ℕ}

lemma resolve_of_not_sees (h : ¬ st.Sees o) : resolve o (st.counting n) = none := by
  unfold resolve
  by_cases hs : symbolsMatch st.entry.symbol o.symbol
  · have her : ¬ st.entry.entryTime < o.observedTime := fun ht => h ⟨of_decide_eq_true hs, ht⟩
    rw [EntryState.counting_entry, if_pos hs, EntryState.resolveNow_of_early (st.counting n) her]
  · rw [EntryState.counting_entry, if_neg hs]

lemma kept_of_not_sees (h : ¬ st.Sees o) : kept o (st.counting n) = some (st.counting n) := by
  unfold kept
  by_cases hs : symbolsMatch st.entry.symbol o.symbol
  · have her : ¬ st.entry.entryTime < o.observedTime := fun ht => h ⟨of_decide_eq_true hs, ht⟩
    rw [EntryState.counting_entry, if_pos hs, EntryState.resolveNow_of_early (st.counting n) her]
  · rw [EntryState.counting_entry, if_neg hs]

lemma resolve_of_ends (h : st.Sees o) (hen : st.Ends (n + 1) o) :
    resolve o (st.counting n) = some (st.label o h.later) := by
  unfold resolve
  rw [EntryState.counting_entry, if_pos h.symbolsMatch, EntryState.resolveNow_of_ends h.later hen]

lemma kept_of_ends (h : st.Sees o) (hen : st.Ends (n + 1) o) : kept o (st.counting n) = none := by
  have hl := EntryState.resolveNow_of_ends h.later hen
  unfold kept
  rw [EntryState.counting_entry, if_pos h.symbolsMatch]
  rcases hr : resolveNow (st.counting n) o with ⟨_ | label, st'⟩
  · rw [hr] at hl; cases hl
  · rfl

lemma resolve_of_not_ends (h : st.Sees o) (hen : ¬ st.Ends (n + 1) o) : resolve o (st.counting n) = none := by
  unfold resolve
  rw [EntryState.counting_entry, if_pos h.symbolsMatch, EntryState.resolveNow_of_not_ends h.later hen]

lemma kept_of_not_ends (h : st.Sees o) (hen : ¬ st.Ends (n + 1) o) :
    kept o (st.counting n) = some (st.counting (n + 1)) := by
  unfold kept
  rw [EntryState.counting_entry, if_pos h.symbolsMatch, EntryState.resolveNow_of_not_ends h.later hen]

end Sweep

/-! ### Times in range -/

section InRange

/-- The last time of the horizon is one. -/
def EntryState.InRange (st : EntryState) : Prop := ∀ d ∈ st.horizon.maxDuration, st.entry.entryTime + d ≤ datetimeMax

/-- Each entry that sees the observation has its last time in range. -/
def Timely (m : TripleBarrierStateMachine) (o : TripleBarrierObservation) : Prop :=
  ∀ e ∈ m.entries.entries, e.2.Sees o → e.2.InRange

variable {st : EntryState} {o : TripleBarrierObservation} {m : TripleBarrierStateMachine}

lemma isTimeout_of_inRange (h : st.InRange) (t : ℤ) : isTimeout st t = .ok (elapses st t) := by
  unfold isTimeout elapses
  cases hd : st.horizon.maxDuration with
  | none => rfl
  | some d =>
    have hle := h d hd
    simp [addDuration, hle, Except.map]

lemma isTimeout_of_not_inRange (h : ¬ st.InRange) (t : ℤ) : isTimeout st t = .error "date value out of range" := by
  unfold EntryState.InRange at h
  push Not at h
  obtain ⟨d, hd, hlt⟩ := h
  unfold isTimeout
  rw [Option.mem_def.mp hd]
  simp [addDuration, not_le.mpr hlt, Except.map]

lemma updateEntry_of_inRange (h : st.Sees o → st.InRange) (labels : List TripleBarrierLabel)
    (m : TripleBarrierStateMachine) (k : String) : updateEntry o (.ok labels, m) (k, st) =
      (.ok (sweepEntry o (labels, m) (k, st)).1, (sweepEntry o (labels, m) (k, st)).2) := by
  unfold updateEntry sweepEntry
  by_cases hs : symbolsMatch st.entry.symbol o.symbol
  · simp only [hs, if_true]
    by_cases hl : st.entry.entryTime < o.observedTime
    · have hin : EntryState.InRange { st with barsObserved := st.barsObserved + 1 } := h ⟨of_decide_eq_true hs, hl⟩
      unfold maybeResolve resolveNow
      rw [dif_pos hl, dif_pos hl]
      simp only [isTimeout_of_inRange hin, Except.map]
      generalize labelFor _ o _ _ = l
      cases l <;> rfl
    · unfold maybeResolve resolveNow
      rw [dif_neg hl, dif_neg hl]
  · simp only [hs, Bool.false_eq_true, if_false]

lemma updateEntry_of_not_inRange (hs : st.Sees o) (h : ¬ st.InRange) (labels : List TripleBarrierLabel)
    (m : TripleBarrierStateMachine) (k : String) :
    (updateEntry o (.ok labels, m) (k, st)).1 = .error "date value out of range" := by
  have hout : ¬ EntryState.InRange { st with barsObserved := st.barsObserved + 1 } := h
  unfold updateEntry maybeResolve
  simp only [hs.symbolsMatch, if_true, dif_pos hs.later, isTimeout_of_not_inRange hout, Except.map]

lemma foldl_updateEntry_error (es : List (String × EntryState)) (e : String) (m : TripleBarrierStateMachine) :
    es.foldl (updateEntry o) (.error e, m) = (.error e, m) := by
  induction es with
  | nil => rfl
  | cons _ _ ih => exact ih

lemma update_of_timely (h : Timely m o) : update m o = (.ok (sweep m o).1, (sweep m o).2) := by
  have hgen : ∀ (es : List (String × EntryState)) acc, (∀ e ∈ es, e.2.Sees o → e.2.InRange) →
      es.foldl (updateEntry o) (.ok acc.1, acc.2) =
        (.ok (es.foldl (sweepEntry o) acc).1, (es.foldl (sweepEntry o) acc).2) := by
    intro es
    induction es with
    | nil => exact fun _ _ => rfl
    | cons e es ih =>
      intro acc hes
      rw [List.foldl_cons, updateEntry_of_inRange (hes e List.mem_cons_self)]
      exact ih _ fun e' he' => hes e' (.tail _ he')
  exact hgen m.entries.entries ([], m) h

lemma timely_of_returns {ls : List TripleBarrierLabel} (h : (update m o).1 = .ok ls) : Timely m o := by
  have hgen : ∀ (es : List (String × EntryState)) labels m, (es.foldl (updateEntry o) (.ok labels, m)).1 = .ok ls →
      ∀ e ∈ es, e.2.Sees o → e.2.InRange := by
    intro es
    induction es with
    | nil => exact fun _ _ _ e he => absurd he List.not_mem_nil
    | cons e es ih =>
      intro labels m hok
      rw [List.foldl_cons] at hok
      have he : e.2.Sees o → e.2.InRange := by
        intro hs
        by_contra hout
        have hr := updateEntry_of_not_inRange hs hout labels m e.1
        rcases hu : updateEntry o (.ok labels, m) (e.1, e.2) with ⟨r, m'⟩
        rw [hu] at hr
        obtain rfl : r = _ := hr
        rw [show updateEntry o (.ok labels, m) e = _ from hu, foldl_updateEntry_error] at hok
        cases hok
      rw [show updateEntry o (.ok labels, m) e = _ from updateEntry_of_inRange he labels m e.1] at hok
      intro e' he'
      rcases List.mem_cons.mp he' with rfl | he'
      · exact he
      · exact ih _ _ hok e' he'
  exact hgen m.entries.entries [] m h

end InRange

end Qmtl.Runtime.Labeling

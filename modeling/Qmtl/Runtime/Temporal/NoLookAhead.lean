import Qmtl.Runtime.Temporal.Alignment
import Qmtl.Lib.Except
import Qmtl.Lib.StableSort

/-!
Two views with the same entries up to the trigger are aligned alike, and nothing later than the trigger is shown.
-/

namespace Qmtl.Runtime.Temporal

open Lib

variable (B : TemporalBuiltins)

def upTo (t : ℤ) (entries : List Entry) : List Entry := entries.filter fun e => e.1 ≤ t

def AgreeUpTo (t : ℤ) (v v' : View) : Prop :=
  ∀ nodeId interval, upTo t (v.entriesOf nodeId interval) = upTo t (v'.entriesOf nodeId interval)

variable {args : AlignArgs} {es : List Entry} {partition : Dict String Value} {spec : JoinSpec} {t : ℤ} {v v' : View}

lemma filter_upTo {p : Entry → Bool} (h : ∀ e, p e = true → e.1 ≤ t) (entries : List Entry) :
    (upTo t entries).filter p = entries.filter p := by
  rw [upTo, List.filter_filter]
  refine List.filter_congr fun e _ => ?_
  cases hp : p e with
  | false => rw [Bool.false_and]
  | true => rw [Bool.true_and, decide_eq_true (h e hp)]

lemma selectEntries_upTo (entries : List Entry) (spec : JoinSpec) (t : ℤ) :
    selectEntries B (upTo t entries) spec t = selectEntries B entries spec t := by
  have hex : (upTo t entries).filter (fun e => decide (e.1 = t)) = entries.filter fun e => decide (e.1 = t) :=
    filter_upTo (fun e he => le_of_eq (of_decide_eq_true he)) entries
  have haso : (upTo t entries).filter (fun e => decide (e.1 ≤ t)) = entries.filter fun e => decide (e.1 ≤ t) :=
    filter_upTo (fun e he => of_decide_eq_true he) entries
  have hr : ∀ lower : ℤ, (upTo t entries).filter (fun e => decide (lower ≤ e.1 ∧ e.1 ≤ t)) =
      entries.filter fun e => decide (lower ≤ e.1 ∧ e.1 ≤ t) :=
    fun lower => filter_upTo (fun e he => (of_decide_eq_true he).2) entries
  unfold selectEntries
  cases spec.mode with
  | exact => simp [hex]
  | asof => simp [haso]
  | temporal => simp [haso]
  | interval => simp only [selectIntervalEntries, hex, hr]

lemma mem_selectEntries {entries selected : List Entry} (h : selectEntries B entries spec t = .ok selected)
    {e : Entry} (he : e ∈ selected) : e ∈ entries ∧ e.1 ≤ t := by
  rw [← selectEntries_upTo] at h
  have hsub : e ∈ upTo t entries := by
    unfold selectEntries at h
    cases hm : spec.mode with
    | exact =>
      rw [hm] at h
      cases h
      exact List.mem_of_mem_filter he
    | asof =>
      rw [hm] at h
      cases h
      exact List.mem_of_mem_filter (List.mem_of_getLast? (Option.mem_toList.mp he))
    | temporal =>
      rw [hm] at h
      cases h
      exact List.mem_of_mem_filter (List.mem_of_getLast? (Option.mem_toList.mp he))
    | interval =>
      rw [hm] at h
      obtain ⟨lookback, -, h⟩ := bind_ok.mp h
      cases lookback with
      | none =>
        cases h
        exact List.mem_of_mem_filter he
      | some ms =>
        cases h
        exact List.mem_of_mem_filter he
  obtain ⟨hmem, hle⟩ := List.mem_filter.mp hsub
  exact ⟨hmem, of_decide_eq_true hle⟩

/-! ### The entries of a spec in two views -/

lemma upTo_matchingEntries (spec : JoinSpec) (partition : Dict String Value) (t : ℤ) (entries : List Entry) :
    upTo t (matchingEntries B spec partition entries) = matchingEntries B spec partition (upTo t entries) := by
  have : IsTrans Entry fun e e' => e.1 ≤ e'.1 := ⟨fun _ _ _ => le_trans⟩
  have : Std.Total fun e e' : Entry => e.1 ≤ e'.1 := ⟨fun _ _ => le_total _ _⟩
  rw [upTo, matchingEntries, filter_insertionSort, matchingEntries, upTo, List.filter_filter, List.filter_filter]
  refine congrArg _ (List.filter_congr fun e _ => Bool.and_comm _ _)

lemma matchingEntries_nil (spec : JoinSpec) (partition : Dict String Value) :
    matchingEntries B spec partition [] = [] := rfl

variable {view : View}

lemma filteredEntries_of_interval {interval : ℤ} (hint : spec.intervalValue B = .ok interval)
    (partition : Dict String Value) : filteredEntries B view spec partition =
      .ok (matchingEntries B spec partition (view.entriesOf spec.node.nodeId interval)) := by
  unfold filteredEntries View.entriesOf
  cases view.get? spec.node.nodeId with
  | none => rfl
  | some series =>
    cases hs : series.get? interval with
    | none => simp [hint, hs, matchingEntries_nil, bind, Except.bind]
    | some entries => simp [hint, hs, bind, Except.bind]

lemma filteredEntries_of_error {e : AlignError} (hint : spec.intervalValue B = .error e)
    (partition : Dict String Value) : filteredEntries B view spec partition =
      if (view.get? spec.node.nodeId).isSome then .error e else .ok [] := by
  unfold filteredEntries
  cases view.get? spec.node.nodeId with
  | none => rfl
  | some series =>
    simp only [hint]
    rfl

lemma filteredEntries_agree (hag : AgreeUpTo t v v') {es' : List Entry}
    (h : filteredEntries B v spec partition = .ok es) (h' : filteredEntries B v' spec partition = .ok es') :
    upTo t es = upTo t es' := by
  cases hint : spec.intervalValue B with
  | ok interval =>
    rw [filteredEntries_of_interval B hint] at h h'
    rw [← Except.ok.inj h, ← Except.ok.inj h', upTo_matchingEntries, upTo_matchingEntries, hag]
  | error e =>
    rw [filteredEntries_of_error B hint] at h h'
    split at h
    · cases h
    · split at h'
      · cases h'
      · rw [← Except.ok.inj h, ← Except.ok.inj h']

def SameLookup (v v' : View) (spec : JoinSpec) : Prop :=
  (∃ interval, spec.intervalValue B = .ok interval) ∨
    (v.get? spec.node.nodeId).isSome = (v'.get? spec.node.nodeId).isSome

lemma filteredEntries_same (hs : SameLookup B v v' spec) (partition : Dict String Value) :
    (∃ es es', filteredEntries B v spec partition = .ok es ∧ filteredEntries B v' spec partition = .ok es') ∨
      filteredEntries B v spec partition = filteredEntries B v' spec partition := by
  cases hint : spec.intervalValue B with
  | ok interval =>
    exact .inl ⟨_, _, filteredEntries_of_interval B hint partition, filteredEntries_of_interval B hint partition⟩
  | error e =>
    rcases hs with ⟨interval, hok⟩ | hk
    · rw [hint] at hok
      cases hok
    · right
      rw [filteredEntries_of_error B hint, filteredEntries_of_error B hint, hk]

/-! ### One input -/

variable {B} in
lemma alignOne_congr {es' : List Entry} (h : filteredEntries B v spec partition = .ok es)
    (h' : filteredEntries B v' spec partition = .ok es') (heq : upTo t es = upTo t es') (name : String) (now : ℤ)
    (policy : WatermarkPolicy) :
    alignOne B v name spec t now partition policy = alignOne B v' name spec t now partition policy := by
  have hs : selectEntries B es spec t = selectEntries B es' spec t := by
    rw [← selectEntries_upTo, heq, selectEntries_upTo]
  unfold alignOne
  rw [h, h']
  change (selectEntries B es spec t >>= _) = (selectEntries B es' spec t >>= _)
  rw [hs]

variable {policy : WatermarkPolicy}

lemma alignOne_unique (hag : AgreeUpTo t v v') {name : String} {now : ℤ}
    {one one' : AlignedValue × AlignmentInputStatus} (h : alignOne B v name spec t now partition policy = .ok one)
    (h' : alignOne B v' name spec t now partition policy = .ok one') : one = one' := by
  have hes : ∃ es, filteredEntries B v spec partition = .ok es := by
    obtain ⟨es, hes, -⟩ := bind_ok.mp h
    exact ⟨es, hes⟩
  have hes' : ∃ es, filteredEntries B v' spec partition = .ok es := by
    obtain ⟨es, hes, -⟩ := bind_ok.mp h'
    exact ⟨es, hes⟩
  obtain ⟨es, hes⟩ := hes
  obtain ⟨es', hes'⟩ := hes'
  rw [alignOne_congr hes hes' (filteredEntries_agree B hag hes hes'), h'] at h
  exact (Except.ok.inj h).symm

lemma alignOne_same (hag : AgreeUpTo t v v') (hs : SameLookup B v v' spec) (name : String) (now : ℤ)
    (partition : Dict String Value) (policy : WatermarkPolicy) :
    alignOne B v name spec t now partition policy = alignOne B v' name spec t now partition policy := by
  rcases filteredEntries_same B hs partition with ⟨es, es', hes, hes'⟩ | heq
  · exact alignOne_congr hes hes' (filteredEntries_agree B hag hes hes') name now policy
  · unfold alignOne
    rw [heq]

def AlignedValue.ShownOf (entries : List Entry) (t : ℤ) : AlignedValue → Prop
  | .none => True
  | .payload p => ∃ ts ≤ t, (ts, p) ∈ entries
  | .entries es => ∀ e ∈ es, e ∈ entries ∧ e.1 ≤ t

lemma mem_filteredEntries (h : filteredEntries B view spec partition = .ok es) :
    ∃ interval, ∀ e ∈ es, e ∈ view.entriesOf spec.node.nodeId interval := by
  cases hint : spec.intervalValue B with
  | ok interval =>
    rw [filteredEntries_of_interval B hint] at h
    cases h
    refine ⟨interval, fun e he => ?_⟩
    exact List.mem_of_mem_filter ((List.mem_insertionSort _).mp he)
  | error e =>
    rw [filteredEntries_of_error B hint] at h
    split at h
    · cases h
    · cases h
      exact ⟨0, fun e he => absurd he List.not_mem_nil⟩

lemma alignOne_shown {name : String} {now : ℤ}
    {one : AlignedValue × AlignmentInputStatus} (h : alignOne B view name spec t now partition policy = .ok one) :
    (∃ interval, one.1.ShownOf (view.entriesOf spec.node.nodeId interval) t) ∧
      ∀ ts, one.2.selectedTs = some ts → ts ≤ t := by
  obtain ⟨es, hes, h⟩ := bind_ok.mp h
  obtain ⟨selected, hsel, h⟩ := bind_ok.mp h
  obtain ⟨interval, hmem⟩ := mem_filteredEntries B hes
  cases hl : selected.getLast? with
  | none =>
    rw [hl] at h
    cases h
    exact ⟨⟨interval, trivial⟩, fun ts hts => by cases hts⟩
  | some e =>
    have hs := mem_selectEntries B hsel (List.mem_of_getLast? hl)
    rw [hl] at h
    obtain ⟨stale, -, h⟩ := bind_ok.mp h
    obtain ⟨late, -, h⟩ := bind_ok.mp h
    cases h
    refine ⟨⟨interval, ?_⟩, fun ts hts => ?_⟩
    · by_cases hm : spec.mode ≠ .interval
      · rw [if_pos hm]
        exact ⟨e.1, hs.2, hmem e hs.1⟩
      · rw [if_neg hm]
        intro x hx
        have hx := mem_selectEntries B hsel hx
        exact ⟨hmem x hx.1, hx.2⟩
    · cases hts
      exact hs.2

/-! ### The whole view -/

structure AlignedView.NotLater (aligned : AlignedView) (view : View) (t : ℤ) : Prop where
  data : ∀ e ∈ aligned.data, ∃ nodeId interval, e.2.ShownOf (view.entriesOf nodeId interval) t
  selectedTs : ∀ e ∈ aligned.status.selectedTs, ∀ ts, e.2 = some ts → ts ≤ t

lemma buildStatus_selectedTs {statuses : List (String × AlignmentInputStatus)}
    {status : AlignmentStatus} (h : buildStatus B statuses t policy = .ok status) :
    status.selectedTs = statuses.map fun e => (e.1, e.2.selectedTs) := by
  obtain ⟨drift, -, h⟩ := bind_ok.mp h
  cases h
  rfl

lemma alignTemporal_notLater {r : AlignedView} (h : alignTemporal B view args = .ok r) :
    r.NotLater view args.triggerTs := by
  obtain ⟨specs, -, h⟩ := bind_ok.mp h
  obtain ⟨aligned, hal, h⟩ := bind_ok.mp h
  obtain ⟨status, hs, h⟩ := bind_ok.mp h
  cases h
  -- every item comes from the alignment of one spec
  have hone : ∀ a ∈ aligned, (∃ nodeId interval, a.2.1.ShownOf (view.entriesOf nodeId interval) args.triggerTs) ∧
      ∀ ts, a.2.2.selectedTs = some ts → ts ≤ args.triggerTs := by
    intro a ha
    obtain ⟨e, -, he⟩ := mem_mapM_ok hal ha
    obtain ⟨one, hone, he⟩ := bind_ok.mp he
    cases he
    obtain ⟨⟨interval, hsh⟩, hts⟩ := alignOne_shown B hone
    exact ⟨⟨_, interval, hsh⟩, hts⟩
  constructor
  · intro e he
    obtain ⟨a, ha, rfl⟩ := List.mem_map.mp he
    exact (hone a ha).1
  · intro e he
    rw [buildStatus_selectedTs B hs, List.map_map] at he
    obtain ⟨a, ha, rfl⟩ := List.mem_map.mp he
    exact (hone a ha).2

lemma alignTemporal_unique (hag : AgreeUpTo args.triggerTs v v') {r r' : AlignedView}
    (h : alignTemporal B v args = .ok r) (h' : alignTemporal B v' args = .ok r') : r = r' := by
  obtain ⟨specs, hs, h⟩ := bind_ok.mp h
  obtain ⟨specs', hs', h'⟩ := bind_ok.mp h'
  rw [hs] at hs'
  cases hs'
  obtain ⟨aligned, hal, h⟩ := bind_ok.mp h
  obtain ⟨aligned', hal', h'⟩ := bind_ok.mp h'
  have heq : aligned = aligned' := by
    refine mapM_ok_unique ?_ hal hal'
    intro e a a' ha ha'
    obtain ⟨one, hone, ha⟩ := bind_ok.mp ha
    obtain ⟨one', ho', ha'⟩ := bind_ok.mp ha'
    rw [← Except.ok.inj ha, ← Except.ok.inj ha', alignOne_unique B hag hone ho']
  rw [heq, h'] at h
  exact (Except.ok.inj h).symm

def LookupsAlike (v v' : View) (args : AlignArgs) : Prop :=
  ∀ specs, inferJoinSpecs B args.inputs args.trigger args.partitionKey args.overrides = .ok specs →
    ∀ e ∈ specs, SameLookup B v v' e.2

lemma alignTemporal_same (hag : AgreeUpTo args.triggerTs v v') (hsm : LookupsAlike B v v' args) :
    alignTemporal B v args = alignTemporal B v' args := by
  unfold alignTemporal
  cases hs : inferJoinSpecs B args.inputs args.trigger args.partitionKey args.overrides with
  | error e => rfl
  | ok specs =>
    change Except.bind (specs.mapM _) _ = Except.bind (specs.mapM _) _
    refine congrArg₂ Except.bind (mapM_congr fun e he => ?_) rfl
    rw [alignOne_same B hag (hsm specs hs e he)]

/-- No look-ahead: two views with the same entries up to the trigger give the same data and statuses wherever both are
aligned, and the same outcome, exceptions included, when the specs are looked up alike; what is shown is never later
than the trigger. -/
theorem no_look_ahead (v v' : View) (args : AlignArgs) (hagree : AgreeUpTo args.triggerTs v v') :
    (∀ r r', alignTemporal B v args = .ok r → alignTemporal B v' args = .ok r' → r = r') ∧
      (LookupsAlike B v v' args → alignTemporal B v args = alignTemporal B v' args) ∧
      ∀ r, alignTemporal B v args = .ok r → r.NotLater v args.triggerTs :=
  ⟨fun _ _ h h' => alignTemporal_unique B hagree h h', alignTemporal_same B hagree,
    fun _ h => alignTemporal_notLater B h⟩

/-! ### A series with one more bar -/

def TemporalBuiltins.ascii : TemporalBuiltins where
  toBuiltins := Builtins.ascii
  eq
    | .str s, .str s' => s = s'
    | .int n, .int n' => n = n'
    | _, _ => false
  digit := Char.isDigit
  millisOfInt n := .ok (n * 1000)
  millisOfFloat _ := .error .valueError
  scale amount factor := .ok (readDigits amount.toList * factor)

def seriesView (nodeId : String) (interval : ℤ) (entries : List Entry) : View :=
  Dict.empty.set nodeId (Dict.empty.set interval entries)

lemma agreeUpTo_seriesView {entries entries' : List Entry} (h : upTo t entries = upTo t entries') (nodeId : String)
    (interval : ℤ) : AgreeUpTo t (seriesView nodeId interval entries) (seriesView nodeId interval entries') := by
  intro n i
  unfold View.entriesOf seriesView
  rw [Dict.get?_set, Dict.get?_set]
  split
  · rw [Option.bind_some, Option.bind_some, Dict.get?_set, Dict.get?_set]
    split
    · exact h
    · rfl
  · rfl

def latestBar (nodeId : String) (interval : Option ℤ) : Dict String InputArg :=
  Dict.empty.set "price" (.spec { node := .name nodeId, interval := interval.map .int })

/-- The bar after the trigger changes nothing. -/
theorem no_look_ahead_next_bar :
    alignTemporal .ascii (seriesView "bars" 60 [(60, .int 1)]) { inputs := latestBar "bars" (some 60), triggerTs := 100 } =
      alignTemporal .ascii (seriesView "bars" 60 [(60, .int 1), (120, .int 2)])
        { inputs := latestBar "bars" (some 60), triggerTs := 100 } := by
  have hagree := @agreeUpTo_seriesView 100 [(60, .int 1)] [(60, .int 1), (120, .int 2)] rfl "bars" 60
  refine (no_look_ahead .ascii _ _ { inputs := latestBar "bars" (some 60), triggerTs := 100 } hagree).2.1 ?_
  intro specs _ e _
  right
  unfold seriesView
  rw [Dict.get?_set, Dict.get?_set]
  split
  · rfl
  · rfl

/-- A spec without an interval is missing from a view that does not know its node, and raises on one that does, though
neither view has an entry up to the trigger. -/
theorem interval_missing_late : AgreeUpTo 100 Dict.empty (seriesView "bars" 60 [(120, .int 2)]) ∧
      (alignTemporal .ascii Dict.empty { inputs := latestBar "bars" none, triggerTs := 100 }).toOption.map
        (fun r => r.status.missingInputs) = some ["price"] ∧
      (alignTemporal .ascii (seriesView "bars" 60 [(120, .int 2)])
        { inputs := latestBar "bars" none, triggerTs := 100 }).toOption.isNone := by
  refine ⟨?_, by decide +kernel, by decide +kernel⟩
  intro n i
  unfold View.entriesOf seriesView
  rw [Dict.get?_set, Dict.get?_empty]
  split
  · rw [Option.bind_some, Dict.get?_set]
    split
    · rfl
    · rfl
  · rfl

end Qmtl.Runtime.Temporal

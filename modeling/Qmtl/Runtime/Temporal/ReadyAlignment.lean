import Qmtl.Runtime.Temporal.NoLookAhead
import Mathlib.Data.List.ReduceOption

/-!
What a ready alignment promises of its required inputs: age and lateness are those of the newest entry that an input
is shown, a bad mark blocks wherever it stands, and the inputs that are ready stay within the drift.
-/

namespace Qmtl.Runtime.Temporal

open Lib

variable (B : TemporalBuiltins)

/-! ### What is asked of an entry -/

def entryAgeMs (t : ℤ) (e : Entry) : ℤ := max 0 (t - e.1) * 1000

def AgeBound (spec : JoinSpec) (ms : ℤ) : Prop :=
  durationToMs B spec.maxAge none = .ok (some ms) ∨ durationToMs B spec.tolerance none = .ok (some ms)

def Fresh (spec : JoinSpec) (triggerTs nowTs : ℤ) (e : Entry) : Prop :=
  ∀ ms, AgeBound B spec ms → entryAgeMs triggerTs e ≤ ms ∧ entryAgeMs nowTs e ≤ ms

def JoinSpec.receivedField (spec : JoinSpec) : Option String :=
  (match spec.temporal with
    | none => some "received_ts"
    | some temporal => temporal.receivedTs).filter (· ≠ "")

def JoinSpec.outOfOrderMs (spec : JoinSpec) : Except AlignError ℤ :=
  match spec.temporal with
  | none => .ok 0
  | some temporal => (·.getD 0) <$> durationToMs B temporal.maxOutOfOrder (some 0)

/-- A payload has no received timestamp, or one that is not past the trigger by more than the allowance. -/
def InTime (spec : JoinSpec) (triggerTs : ℤ) (payload : Value) : Prop :=
  ∀ value, spec.receivedField.bind (field? · payload) = some value →
    ∃ received ms, value.toInt B.toBuiltins = .ok received ∧ spec.outOfOrderMs B = .ok ms ∧
      received ≤ triggerTs + wholeSeconds ms

def MarkedBad (payload : Value) : Prop :=
  field? "sequence_gap" payload = some (.bool true) ∨
    ∃ quality, field? "quality" payload = some quality ∧ quality.isNone = false ∧
      B.lower.fn (quality.toStr B.toBuiltins) ∈ badQualityValues

/-- What a ready alignment promises of the entries that a required input is shown. -/
structure ReadyInput (spec : JoinSpec) (triggerTs nowTs : ℤ) (es : List Entry) : Prop where
  shown : es ≠ []
  single : spec.mode ≠ .interval → ∃ e, es = [e]
  newest : ∀ e, es.getLast? = some e →
    (∀ e' ∈ es, e'.1 ≤ e.1) ∧ Fresh B spec triggerTs nowTs e ∧ InTime B spec triggerTs e.2
  lookback : ∀ e ∈ es, ∀ ms, lookbackMs B spec = .ok (some ms) → entryAgeMs triggerTs e ≤ ms
  unmarked : ∀ e ∈ es, ¬ MarkedBad B e.2

/-! ### The checks of an input -/

variable {B}

variable {ms t : ℤ} {partition : Dict String Value} {spec : JoinSpec}

lemma isStale_false {now : ℤ} {e : Entry} (h : isStale B spec e.1 t (entryAgeMs now e) = .ok false) :
    Fresh B spec t now e := by
  obtain ⟨maxAge, hmax, h⟩ := bind_ok.mp h
  obtain ⟨tolerance, htol, h⟩ := bind_ok.mp h
  have hb : ∀ ms ∈ [maxAge, tolerance].reduceOption, entryAgeMs t e ≤ ms ∧ entryAgeMs now e ≤ ms := by
    intro ms hms
    have hnot := List.any_eq_false.mp (Except.ok.inj h) ms hms
    simp only [Bool.or_eq_true, decide_eq_true_eq, not_or, not_lt] at hnot
    exact hnot
  intro ms hms
  refine hb ms (List.reduceOption_mem_iff.mpr ?_)
  rcases hms with hms | hms
  · rw [hmax] at hms
    rw [Except.ok.inj hms]
    exact .head _
  · rw [htol] at hms
    rw [Except.ok.inj hms]
    exact .tail _ List.mem_cons_self

lemma ageBound_of_lookback (h : lookbackMs B spec = .ok (some ms)) : AgeBound B spec ms := by
  obtain ⟨tolerance, htol, h⟩ := bind_ok.mp h
  cases tolerance with
  | none => exact .inl h
  | some ms' =>
    cases Except.ok.inj h
    exact .inr htol

variable {value : AlignedValue}

lemma receivedTs_of_field {payload received : Value} (hl : (statusPayloads value).getLast? = some payload)
    (hf : spec.receivedField.bind (field? · payload) = some received) :
    receivedTs B spec value = some <$> lift (received.toInt B.toBuiltins) := by
  obtain ⟨field, hn, hf⟩ := Option.bind_eq_some_iff.mp hf
  obtain ⟨hn, hne⟩ := Option.filter_eq_some_iff.mp hn
  unfold receivedTs
  cases ht : spec.temporal with
  | none =>
    rw [ht] at hn
    cases hn
    simp only [if_neg (of_decide_eq_true hne), hl, Option.bind_some, hf]
  | some temporal =>
    rw [ht] at hn
    simp [hn, if_neg (of_decide_eq_true hne), hl, hf]

lemma isLate_of_received {received : ℤ} (h : receivedTs B spec value = .ok (some received)) (t : ℤ) :
    isLate B spec value t = (spec.outOfOrderMs B >>= fun ms => .ok (decide (received > t + wholeSeconds ms))) := by
  unfold isLate JoinSpec.outOfOrderMs
  rw [h]
  cases spec.temporal <;> rfl

variable {payload : Value}

lemma isLate_false (h : isLate B spec value t = .ok false)
    (hl : (statusPayloads value).getLast? = some payload) : InTime B spec t payload := by
  intro v hv
  have hr := receivedTs_of_field (B := B) hl hv
  cases hint : v.toInt B.toBuiltins with
  | error r =>
    rw [hint] at hr
    obtain ⟨received, hok, -⟩ := bind_ok.mp h
    rw [hr] at hok
    cases hok
  | ok received =>
    rw [hint] at hr
    rw [isLate_of_received hr] at h
    obtain ⟨ms, hms, h⟩ := bind_ok.mp h
    exact ⟨received, ms, rfl, hms, not_lt.mp (of_decide_eq_false (Except.ok.inj h))⟩

lemma lower_empty : B.lower.fn "" = "" :=
  B.lower.onAscii "" fun _ hc => absurd hc List.not_mem_nil

lemma qualityForPayload_of_markedBad (h : MarkedBad B payload) :
    ∃ text, qualityForPayload B payload = some text ∧ text ≠ "" := by
  unfold qualityForPayload
  split
  · exact ⟨"sequence_gap", rfl, by decide⟩
  · rename_i hgap
    rcases h with h | ⟨quality, hq, hn, hbad⟩
    · exact absurd h (hgap · )
    · rw [hq]
      cases quality with
      | none => cases hn
      | _ =>
        refine ⟨_, if_pos hbad, fun hempty => ?_⟩
        rw [hempty, lower_empty] at hbad
        exact absurd hbad (by decide)

lemma qualityFor_none (h : qualityFor B value = none) :
    ∀ payload ∈ statusPayloads value, ¬ MarkedBad B payload := by
  intro payload hmem hbad
  obtain ⟨text, htext, hne⟩ := qualityForPayload_of_markedBad hbad
  have hnot := List.find?_eq_none.mp h text (List.mem_filterMap.mpr ⟨payload, hmem, htext⟩)
  exact hnot (decide_eq_true hne)

variable {policy : WatermarkPolicy}

lemma inputReason_none {stale late : Bool} {quality : Option String}
    (hp : policy.late ≠ .recompute) (h : inputReason stale late quality policy = none) :
    stale = false ∧ late = false ∧ quality = none := by
  unfold inputReason at h
  cases quality with
  | some q => cases h
  | none =>
    cases stale with
    | true => cases h
    | false =>
      cases late with
      | true => simp [hp] at h
      | false => exact ⟨rfl, rfl, rfl⟩

/-! ### One input -/

def exposedEntries (value : AlignedValue) (selectedTs : Option ℤ) : List Entry :=
  match value with
  | .none => []
  | .payload v => selectedTs.toList.map (·, v)
  | .entries es => es

variable {view : View}

lemma filteredEntries_pairwise {es : List Entry} (h : filteredEntries B view spec partition = .ok es) :
    es.Pairwise fun e e' => e.1 ≤ e'.1 := by
  have : IsTrans Entry fun e e' => e.1 ≤ e'.1 := ⟨fun _ _ _ => le_trans⟩
  have : Std.Total fun e e' : Entry => e.1 ≤ e'.1 := ⟨fun _ _ => le_total _ _⟩
  cases hint : spec.intervalValue B with
  | ok interval =>
    rw [filteredEntries_of_interval B hint] at h
    cases h
    exact List.pairwise_insertionSort _ _
  | error e =>
    rw [filteredEntries_of_error B hint] at h
    split at h
    · cases h
    · cases h
      exact .nil

variable {entries selected : List Entry}

lemma selectEntries_sublist (h : selectEntries B entries spec t = .ok selected)
    (hm : spec.mode = .interval) : selected.Sublist entries := by
  unfold selectEntries at h
  rw [hm] at h
  obtain ⟨lookback, -, h⟩ := bind_ok.mp h
  cases lookback with
  | none =>
    cases h
    exact List.filter_sublist
  | some ms =>
    cases h
    exact List.filter_sublist

lemma selectEntries_lookback (h : selectEntries B entries spec t = .ok selected)
    (hm : spec.mode = .interval) (hms : lookbackMs B spec = .ok (some ms)) (hpos : 0 ≤ ms) :
    ∀ e ∈ selected, entryAgeMs t e ≤ ms := by
  intro e he
  unfold selectEntries at h
  simp only [hm, selectIntervalEntries, hms] at h
  cases h
  obtain ⟨hlower, -⟩ := of_decide_eq_true (List.mem_filter.mp he).2
  have hw : wholeSeconds ms * 1000 ≤ ms := by
    rw [wholeSeconds, Int.tdiv_eq_ediv_of_nonneg hpos]
    omega
  unfold entryAgeMs
  omega

lemma inTime_of_list (h : looksLikeCacheEntries payload) : InTime B spec t payload := by
  intro v hv
  obtain ⟨field, -, hv⟩ := Option.bind_eq_some_iff.mp hv
  cases payload with
  | list items => cases hv
  | _ => cases h

lemma not_markedBad_of_list (h : looksLikeCacheEntries payload) : ¬ MarkedBad B payload := by
  cases payload with
  | list items =>
    rintro (hgap | ⟨quality, hq, -⟩)
    · cases hgap
    · cases hq
  | _ => cases h

variable {one : AlignedValue × AlignmentInputStatus}

lemma alignOne_ready {name : String} {now : ℤ} (hpl : policy.late ≠ .recompute)
    (h : alignOne B view name spec t now partition policy = .ok one) (hr : one.2.ready) :
    ReadyInput B spec t now (exposedEntries one.1 one.2.selectedTs) := by
  obtain ⟨es, hes, h⟩ := bind_ok.mp h
  obtain ⟨selected, hsel, h⟩ := bind_ok.mp h
  cases hl : selected.getLast? with
  | none =>
    rw [hl] at h
    cases h
    cases hr
  | some e =>
    rw [hl] at h
    obtain ⟨stale, hst, h⟩ := bind_ok.mp h
    obtain ⟨late, hlt, h⟩ := bind_ok.mp h
    cases h
    obtain ⟨rfl, rfl, hq⟩ := inputReason_none hpl (Option.isNone_iff_eq_none.mp hr)
    have hf : Fresh B spec t now e := isStale_false hst
    have hmr := qualityFor_none hq
    by_cases hm : spec.mode ≠ .interval
    · simp only [if_pos hm] at hlt hmr ⊢
      have hp : InTime B spec t e.2 ∧ ¬ MarkedBad B e.2 := by
        cases hlist : looksLikeCacheEntries e.2 with
        | true => exact ⟨inTime_of_list hlist, not_markedBad_of_list hlist⟩
        | false =>
          have hs : statusPayloads (.payload e.2) = [e.2] := if_neg (by rw [hlist]; decide)
          rw [hs] at hmr
          exact ⟨isLate_false hlt (by rw [hs]; rfl), hmr e.2 (List.mem_singleton_self _)⟩
      have hone : ∀ e' ∈ [e], e' = e := fun e' he' => List.mem_singleton.mp he'
      exact {
        shown := List.cons_ne_nil _ _
        single := fun _ => ⟨e, rfl⟩
        newest := fun e' he' => by
          cases he'
          exact ⟨fun e'' he'' => le_of_eq (congrArg Prod.fst (hone e'' he'')), hf, hp.1⟩
        lookback := fun e' he' ms hms => by
          rw [hone e' he']
          exact (hf ms (ageBound_of_lookback hms)).1
        unmarked := fun e' he' => by
          rw [hone e' he']
          exact hp.2 }
    · simp only [if_neg hm] at hlt hmr ⊢
      have hm : spec.mode = .interval := not_not.mp hm
      have hn := rel_getLast?_of_pairwise (r := fun e e' : Entry => e.1 ≤ e'.1) (fun _ => le_rfl)
        ((filteredEntries_pairwise hes).sublist (selectEntries_sublist hsel hm)) hl
      have hp : (statusPayloads (.entries selected)).getLast? = some e.2 := by
        change (selected.map Prod.snd).getLast? = some e.2
        rw [List.getLast?_map, hl]
        rfl
      change ReadyInput B spec t now selected
      exact {
        shown := fun hnil => by
          rw [hnil] at hl
          cases hl
        single := fun hne => absurd hm hne
        newest := fun e' he' => by
          cases hl.symm.trans he'
          exact ⟨hn, hf, isLate_false hlt hp⟩
        lookback := fun e' he' ms hms => by
          have hpos : 0 ≤ entryAgeMs t e := by
            unfold entryAgeMs
            omega
          exact selectEntries_lookback hsel hm hms
            (hpos.trans (hf ms (ageBound_of_lookback hms)).1) e' he'
        unmarked := fun e' he' => hmr e'.2 (List.mem_map_of_mem he') }

def readyAges (inputs : List (String × AlignmentInputStatus)) : List (String × ℤ) :=
  inputs.filterMap fun e => if e.2.ready then e.2.ageMs.map (e.1, ·) else none

def WithinDrift (B : TemporalBuiltins) (policy : WatermarkPolicy) (inputs : List (String × AlignmentInputStatus)) : Prop :=
  ∀ ms, durationToMs B policy.maxDrift none = .ok (some ms) →
    (readyAges inputs).Pairwise fun a b => |a.2 - b.2| ≤ ms

variable {inputs : List (String × AlignmentInputStatus)}

lemma driftBlocking_eq {fastest : ℤ} (hms : durationToMs B policy.maxDrift none = .ok (some ms))
    (hmin : ((readyAges inputs).map Prod.snd).min? = some fastest) (hlen : 2 ≤ (readyAges inputs).length) :
    driftBlocking B inputs policy = .ok (((readyAges inputs).filter fun e => e.2 - fastest > ms).map Prod.fst) := by
  unfold readyAges at hmin hlen
  simp only [driftBlocking, hms, bind, Except.bind, hmin, if_neg (not_lt.mpr hlen)]
  rfl

lemma driftBlocking_nil (h : driftBlocking B inputs policy = .ok []) : WithinDrift B policy inputs := by
  intro ms hms
  by_cases hlen : 2 ≤ (readyAges inputs).length
  · obtain ⟨fastest, hmin⟩ : ∃ fastest, ((readyAges inputs).map Prod.snd).min? = some fastest := by
      refine Option.isSome_iff_exists.mp (List.isSome_min?_iff.mpr fun hnil => ?_)
      rw [List.map_eq_nil_iff.mp hnil] at hlen
      exact absurd hlen (by decide)
    rw [driftBlocking_eq hms hmin hlen] at h
    have hlow : ∀ a ∈ readyAges inputs, fastest ≤ a.2 := fun a ha =>
      (List.min?_eq_some_iff.mp hmin).2 a.2 (List.mem_map_of_mem ha)
    have hh : ∀ a ∈ readyAges inputs, a.2 - fastest ≤ ms := fun a ha => by
      have hnot := List.filter_eq_nil_iff.mp (List.map_eq_nil_iff.mp (Except.ok.inj h)) a ha
      simpa using hnot
    refine List.pairwise_of_forall_mem_list fun a ha b hb => abs_sub_le_iff.mpr ⟨?_, ?_⟩
    · have := hlow b hb
      have := hh a ha
      omega
    · have := hlow a ha
      have := hh b hb
      omega
  · match hages : readyAges inputs with
    | [] => exact .nil
    | [a] => exact List.pairwise_singleton _ _
    | a :: b :: rest =>
      rw [hages] at hlen
      exact absurd (by simp) hlen

lemma buildStatus_ready
    {status : AlignmentStatus} (h : buildStatus B inputs t policy = .ok status) (hrd : status.ready) :
    driftBlocking B inputs policy = .ok [] ∧ ∀ e ∈ inputs, e.2.required → e.2.ready := by
  obtain ⟨drift, hd, h⟩ := bind_ok.mp h
  cases h
  have hr : overallReason inputs drift = none := Option.isNone_iff_eq_none.mp hrd
  unfold overallReason at hr
  split at hr
  · cases hr
  · rename_i hnil
    refine ⟨by rw [hd, not_not.mp hnil], fun e he hrq => ?_⟩
    simp only at hr
    split at hr
    · rename_i hempty
      have hnot := List.filter_eq_nil_iff.mp (List.isEmpty_iff.mp hempty) e.2 (List.mem_map_of_mem he)
      simpa [hrq] using hnot
    · cases hr

def AlignedView.shown (r : AlignedView) : List (String × List Entry) :=
  List.zipWith (fun d s => (d.1, exposedEntries d.2 s.2)) r.data r.status.selectedTs

/-- Input by input, the entries that a required one is shown have a property. -/
def RequiredShown (p : JoinSpec → List Entry → Prop) (specs : List (String × JoinSpec)) (r : AlignedView) : Prop :=
  List.Forall₂ (fun spec shown => shown.1 = spec.1 ∧ (spec.2.required = true → p spec.2 shown.2)) specs r.shown

lemma alignOne_required {name : String} {now : ℤ}
    (h : alignOne B view name spec t now partition policy = .ok one) : one.2.required = spec.required := by
  obtain ⟨es, -, h⟩ := bind_ok.mp h
  obtain ⟨selected, -, h⟩ := bind_ok.mp h
  cases hl : selected.getLast? with
  | none =>
    rw [hl] at h
    cases h
    rfl
  | some e =>
    rw [hl] at h
    obtain ⟨stale, -, h⟩ := bind_ok.mp h
    obtain ⟨late, -, h⟩ := bind_ok.mp h
    cases h
    rfl

/-- A ready alignment: every required input is shown entries, the newest of them within the bounds on the age and
received in time, none marked bad and none beyond the look-back; the inputs that are ready are within the drift. -/
theorem ready_alignment (view : View) (args : AlignArgs) (specs : List (String × JoinSpec)) (r : AlignedView)
    (hpolicy : args.watermarkPolicy.late ≠ .recompute)
    (hspecs : inferJoinSpecs B args.inputs args.trigger args.partitionKey args.overrides = .ok specs)
    (h : alignTemporal B view args = .ok r) (hready : r.status.ready = true) :
    RequiredShown (fun spec es => ReadyInput B spec args.triggerTs (args.nowTs.getD args.triggerTs) es) specs r ∧
      WithinDrift B args.watermarkPolicy r.status.inputs := by
  obtain ⟨specs', hspecs', h⟩ := bind_ok.mp h
  rw [hspecs] at hspecs'
  cases hspecs'
  obtain ⟨aligned, haligned, h⟩ := bind_ok.mp h
  obtain ⟨status, hstatus, h⟩ := bind_ok.mp h
  cases h
  obtain ⟨hdrift, hrequired⟩ := buildStatus_ready hstatus hready
  have hinputs : status.inputs = aligned.map fun e => (e.1, e.2.2) := by
    obtain ⟨_, -, hstatus⟩ := bind_ok.mp hstatus
    cases hstatus
    rfl
  refine ⟨?_, by rw [hinputs]; exact driftBlocking_nil hdrift⟩
  have hshown : List.zipWith (fun (d : String × AlignedValue) (s : String × Option ℤ) => (d.1, exposedEntries d.2 s.2))
      (aligned.map fun e => (e.1, e.2.1)) status.selectedTs =
      aligned.map fun e => (e.1, exposedEntries e.2.1 e.2.2.selectedTs) := by
    rw [buildStatus_selectedTs B hstatus, List.map_map, List.zipWith_map, List.zipWith_self]
    rfl
  unfold RequiredShown AlignedView.shown
  rw [hshown, List.forall₂_map_right_iff]
  have hall := List.forall₂_iff_zip.mp (mapM_ok haligned)
  refine List.forall₂_iff_zip.mpr ⟨hall.1, fun {spec a} hmem => ?_⟩
  obtain ⟨one, hone, ha⟩ := bind_ok.mp (hall.2 hmem)
  cases ha
  refine ⟨rfl, fun hspec => alignOne_ready hpolicy hone ?_⟩
  refine hrequired (spec.1, one.2) (List.mem_map.mpr ⟨_, (List.of_mem_zip hmem).2, rfl⟩) ?_
  rw [alignOne_required hone, hspec]

/-! ### An interval with an old entry -/

def tickSpec : JoinSpec where
  node := .name "ticks"
  interval := some (.int 60)
  mode := .interval
  tolerance := .int 100
  maxAge := .int 10

def ticks : List Entry := [(40, .dict [(.str "received_ts", .int 200)]), (100, .dict [])]

def tickArgs : AlignArgs where
  inputs := Dict.empty.set "ticks" (.spec tickSpec)
  triggerTs := 100

lemma ticks_ready :
    inferJoinSpecs .ascii tickArgs.inputs tickArgs.trigger tickArgs.partitionKey tickArgs.overrides =
      .ok [("ticks", tickSpec)] ∧
    ∃ r, alignTemporal .ascii (seriesView "ticks" 60 ticks) tickArgs = .ok r ∧ r.status.ready ∧
      r.shown = [("ticks", ticks)] :=
  ⟨rfl, _, rfl, rfl, rfl⟩

/-- The promise holds of an interval with an old entry. -/
theorem ready_alignment_ticks : ∃ r, alignTemporal .ascii (seriesView "ticks" 60 ticks) tickArgs = .ok r ∧
    RequiredShown (fun spec es => ReadyInput .ascii spec 100 100 es) [("ticks", tickSpec)] r := by
  obtain ⟨hspecs, r, h, hready, -⟩ := ticks_ready
  exact ⟨r, h, (ready_alignment _ tickArgs _ r (by decide) hspecs h hready).1⟩

/-- The old entry is past the greatest age, and is received past the trigger. -/
theorem not_all_fresh :
    (¬ ∀ (B : TemporalBuiltins) (view : View) (args : AlignArgs) (specs : List (String × JoinSpec)) (r : AlignedView),
      args.watermarkPolicy.late ≠ .recompute →
      inferJoinSpecs B args.inputs args.trigger args.partitionKey args.overrides = .ok specs →
      alignTemporal B view args = .ok r → r.status.ready = true →
      RequiredShown (fun spec es => ∀ e ∈ es, Fresh B spec args.triggerTs (args.nowTs.getD args.triggerTs) e) specs r) ∧
    ¬ ∀ (B : TemporalBuiltins) (view : View) (args : AlignArgs) (specs : List (String × JoinSpec)) (r : AlignedView),
      args.watermarkPolicy.late ≠ .recompute →
      inferJoinSpecs B args.inputs args.trigger args.partitionKey args.overrides = .ok specs →
      alignTemporal B view args = .ok r → r.status.ready = true →
      RequiredShown (fun spec es => ∀ e ∈ es, InTime B spec args.triggerTs e.2) specs r := by
  obtain ⟨hspecs, r, h, hready, hshown⟩ := ticks_ready
  constructor
  · intro hall
    have hrequired := hall .ascii _ tickArgs _ r (by decide) hspecs h hready
    unfold RequiredShown at hrequired
    rw [hshown] at hrequired
    have hold := ((List.forall₂_cons.mp hrequired).1.2 rfl _ (.head _) 10000 (.inl rfl)).1
    exact absurd hold (by decide)
  · intro hall
    have hrequired := hall .ascii _ tickArgs _ r (by decide) hspecs h hready
    unfold RequiredShown at hrequired
    rw [hshown] at hrequired
    obtain ⟨received, ms, hreceived, hms, hle⟩ :=
      (List.forall₂_cons.mp hrequired).1.2 rfl _ (.head _) (.int 200) rfl
    cases hreceived
    cases hms
    exact absurd hle (by decide)

end Qmtl.Runtime.Temporal

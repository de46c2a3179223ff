import Qmtl.Runtime.Labeling.Labels

/-!
Runs of the triple barrier machine: registrations and observations in any order. What is proved of runs of passes
without exceptions (`Sweep`) holds of the machine's own runs where no observation meets a last time out of range.
-/

namespace Qmtl.Runtime.Labeling

open Lib

/-! ### Runs -/

structure Registration where
  entry : TripleBarrierEntry
  barrier : BarrierSpec
  horizon : HorizonSpec
  estimate : CostContext → Except String CostEstimate

inductive Op
  | register (r : Registration)
  | update (o : TripleBarrierObservation)

def Registration.apply (env : Env) (r : Registration) (m : TripleBarrierStateMachine) :
    Except String String × TripleBarrierStateMachine :=
  registerEntry env m r.entry r.barrier r.horizon r.estimate

def next (env : Env) (m : TripleBarrierStateMachine) : Op → TripleBarrierStateMachine
  | .register r => (r.apply env m).2
  | .update o => (update m o).2

def after (env : Env) (ops : List Op) : TripleBarrierStateMachine := ops.foldl (next env) .init

def emitted (m : TripleBarrierStateMachine) : Op → Except String (List TripleBarrierLabel)
  | .register _ => .ok []
  | .update o => (update m o).1

def outputs (env : Env) (m : TripleBarrierStateMachine) : List Op → List (Except String (List TripleBarrierLabel))
  | [] => []
  | op :: ops => emitted m op :: outputs env (next env m op) ops

/-- All that the updates of a run return. -/
def labels (env : Env) (ops : List Op) : List TripleBarrierLabel :=
  (outputs env .init ops).flatMap fun r => r.toOption.getD []

def observations (ops : List Op) : List TripleBarrierObservation :=
  ops.filterMap fun
    | .register _ => none
    | .update o => some o

/-- What a registration needs: a price, a side, specifications that fit, an id that is free and an estimate. -/
structure Valid (env : Env) (m : TripleBarrierStateMachine) (r : Registration) (side : Side) (cost : CostEstimate) :
    Prop where
  price : 0 < r.entry.entryPrice
  sided : normalizeSide env r.entry.side = .ok side
  barrier : FrozenAt r.barrier.frozenAt r.entry.entryTime
  horizon : FrozenAt r.horizon.frozenAt r.entry.entryTime
  maxBars : ∀ n ∈ r.horizon.maxBars, 0 < n
  maxDuration : ∀ d ∈ r.horizon.maxDuration, 0 < d
  unused : (entryIdFor env r.entry m.sequence).1 ∉ m.entries.keys ∧ (entryIdFor env r.entry m.sequence).1 ∉ m.resolved
  cost : r.estimate ⟨r.entry.entryTime, r.entry.entryPrice, side, r.entry.symbol, r.entry.metadata⟩ = .ok cost

/-- The entry that a valid registration makes. -/
def Valid.state {env : Env} {m : TripleBarrierStateMachine} {r : Registration} {side : Side} {cost : CostEstimate}
    (h : Valid env m r side cost) : EntryState where
  entry := ⟨r.entry.entryTime, r.entry.entryPrice, side, (entryIdFor env r.entry m.sequence).1, r.entry.symbol,
    r.entry.metadata, h.price⟩
  barrier := r.barrier
  horizon := r.horizon
  cost := cost
  barsObserved := 0
  barrier_frozen := h.barrier
  horizon_frozen := h.horizon

def Registers (env : Env) (m : TripleBarrierStateMachine) (r : Registration) (st : EntryState) : Prop :=
  ∃ side cost, ∃ h : Valid env m r side cost, st = h.state

namespace EntryState

variable (st : EntryState)

def seen (os : List TripleBarrierObservation) : List TripleBarrierObservation := os.filter fun o => st.Sees o

def Waits (os : List TripleBarrierObservation) : Prop :=
  ∀ before o after, os = before ++ o :: after → st.Sees o → ¬ st.Ends ((st.seen before).length + 1) o

structure FirstEnd (os : List TripleBarrierObservation) (o : TripleBarrierObservation) : Prop where
  sees : st.Sees o
  ends : st.Ends ((st.seen os).length + 1) o
  first : st.Waits os

variable {st} {os : List TripleBarrierObservation} {o : TripleBarrierObservation}

lemma seen_concat : (st.seen (os ++ [o])).length = (st.seen os).length + if st.Sees o then 1 else 0 := by
  unfold seen
  by_cases h : st.Sees o <;> simp [h]

lemma waits_nil : st.Waits [] := fun before o after h => absurd h.symm (by simp)

lemma waits_concat :
    st.Waits (os ++ [o]) ↔ st.Waits os ∧ (st.Sees o → ¬ st.Ends ((st.seen os).length + 1) o) := by
  constructor
  · intro h
    refine ⟨fun before o' after hos => h before o' (after ++ [o]) (by rw [hos, List.append_assoc, List.cons_append]), ?_⟩
    exact h os o [] rfl
  · rintro ⟨hos, ho⟩ before o' after h
    rcases split_concat h with ⟨rest, hr⟩ | ⟨rfl, rfl⟩
    · exact hos before o' rest hr
    · exact ho

end EntryState

section Runs

variable {env : Env} {m : TripleBarrierStateMachine} {r : Registration} {st : EntryState}

lemma validateHorizon_iff {h : HorizonSpec} :
    validateHorizon h = .ok () ↔ (∀ n ∈ h.maxBars, 0 < n) ∧ ∀ d ∈ h.maxDuration, 0 < d := by
  unfold validateHorizon
  constructor
  · intro hv
    split at hv
    · cases hv
    · rename_i hn
      split at hv
      · cases hv
      · rename_i hd
        simp only [Option.any_eq_true, decide_eq_true_eq, not_exists, not_and, not_le] at hn hd
        exact ⟨hn, hd⟩
  · rintro ⟨hn, hd⟩
    rw [if_neg ?_, if_neg ?_]
    · simpa [Option.any_eq_true] using hd
    · simpa [Option.any_eq_true] using hn

lemma Valid.apply {side : Side} {cost : CostEstimate} (h : Valid env m r side cost) :
    r.apply env m = (.ok h.state.entry.entryId, { m with
      entries := m.entries.set h.state.entry.entryId h.state
      sequence := (entryIdFor env r.entry m.sequence).2 }) := by
  unfold Registration.apply registerEntry
  rw [dif_pos h.price, h.sided]
  dsimp only
  rw [dif_pos h.barrier, dif_pos h.horizon, validateHorizon_iff.mpr ⟨h.maxBars, h.maxDuration⟩]
  rw [if_neg (not_or.mpr h.unused), h.cost]
  rfl

lemma Registers.returned (h : Registers env m r st) : (r.apply env m).1 = .ok st.entry.entryId := by
  obtain ⟨side, cost, h, rfl⟩ := h
  rw [h.apply]

lemma Registers.stored (h : Registers env m r st) : (r.apply env m).2.entries.get? st.entry.entryId = some st := by
  obtain ⟨side, cost, h, rfl⟩ := h
  rw [h.apply]
  exact Dict.get?_set_self _ _ _

lemma Registers.counts (h : Registers env m r st) : st.counting 0 = st := by
  obtain ⟨side, cost, h, rfl⟩ := h
  rfl

lemma register_cases (env : Env) (m : TripleBarrierStateMachine) (r : Registration) :
    (∃ e, (r.apply env m).1 = .error e ∧ (r.apply env m).2.entries = m.entries ∧
      (r.apply env m).2.resolved = m.resolved) ∨
    ∃ st, Registers env m r st ∧ st.entry.entryId ∉ m.entries.keys ∧ st.entry.entryId ∉ m.resolved ∧
      (r.apply env m).2.entries = m.entries.set st.entry.entryId st ∧ (r.apply env m).2.resolved = m.resolved := by
  unfold Registration.apply registerEntry
  split
  · rename_i hprice
    split
    · exact .inl ⟨_, rfl, rfl, rfl⟩
    · rename_i side hside
      split
      · rename_i hb
        split
        · rename_i hh
          split
          · exact .inl ⟨_, rfl, rfl, rfl⟩
          · rename_i hv
            dsimp only
            split
            · exact .inl ⟨_, rfl, rfl, rfl⟩
            · rename_i ht
              rw [not_or] at ht
              split
              · exact .inl ⟨_, rfl, rfl, rfl⟩
              · rename_i cost hc
                obtain ⟨hn, hd⟩ := validateHorizon_iff.mp hv
                have hvalid : Valid env m r side cost := ⟨hprice, hside, hb, hh, hn, hd, ht, hc⟩
                exact .inr ⟨hvalid.state, ⟨side, cost, hvalid, rfl⟩, ht.1, ht.2, rfl, rfl⟩
        · exact .inl ⟨_, rfl, rfl, rfl⟩
      · exact .inl ⟨_, rfl, rfl, rfl⟩
  · exact .inl ⟨_, rfl, rfl, rfl⟩

lemma get?_register_of_used (env : Env) (r : Registration) {k : String} (h : k ∈ m.entries.keys ∨ k ∈ m.resolved) :
    (r.apply env m).2.entries.get? k = m.entries.get? k := by
  rcases register_cases env m r with ⟨_, -, hen, -⟩ | ⟨st', -, hkeys, hresolved, hen, -⟩
  · rw [hen]
  · have hne : k ≠ st'.entry.entryId := by
      rintro rfl
      exact h.elim hkeys hresolved
    rw [hen, Dict.get?_set_ne _ _ hne]

lemma resolved_register (env : Env) (m : TripleBarrierStateMachine) (r : Registration) :
    (r.apply env m).2.resolved = m.resolved := by
  rcases register_cases env m r with ⟨_, -, -, h⟩ | ⟨_, -, -, -, -, h⟩
  · exact h
  · exact h

/-! ### Runs of passes -/

namespace Sweep

def next (env : Env) (m : TripleBarrierStateMachine) : Op → TripleBarrierStateMachine
  | .register r => (r.apply env m).2
  | .update o => (sweep m o).2

def after (env : Env) (ops : List Op) : TripleBarrierStateMachine := ops.foldl (next env) .init

def emitted (m : TripleBarrierStateMachine) : Op → List TripleBarrierLabel
  | .register _ => []
  | .update o => (sweep m o).1

def outputs (env : Env) (m : TripleBarrierStateMachine) : List Op → List (List TripleBarrierLabel)
  | [] => []
  | op :: ops => emitted m op :: outputs env (next env m op) ops

def labels (env : Env) (ops : List Op) : List TripleBarrierLabel := (outputs env .init ops).flatten

/-- Where an entry is after the observations `os` that followed its registration. -/
inductive Stands (st : EntryState) (os : List TripleBarrierObservation) (m : TripleBarrierStateMachine) : Prop
  | waiting (h : st.Waits os) (hstored : m.entries.get? st.entry.entryId = some (st.counting (st.seen os).length))
  | ended (h : ¬ st.Waits os) (hgone : m.entries.get? st.entry.entryId = none) (hresolved : st.entry.entryId ∈ m.resolved)

variable {l : TripleBarrierLabel} {ops : List Op} {os : List TripleBarrierObservation}

lemma Stands.used (h : Stands st os m) : st.entry.entryId ∈ m.entries.keys ∨ st.entry.entryId ∈ m.resolved := by
  cases h with
  | waiting h hstored =>
    refine .inl ?_
    by_contra hk
    rw [Dict.get?_eq_none.mpr hk] at hstored
    cases hstored
  | ended h hgone hresolved => exact .inr hresolved

lemma Stands.register (h : Stands st os m) (r : Registration) : Stands st os (r.apply env m).2 := by
  have hget := get?_register_of_used env r h.used
  cases h with
  | waiting h hstored => exact .waiting h (hget.trans hstored)
  | ended h hgone hresolved => exact .ended h (hget.trans hgone) (by rwa [resolved_register])

lemma Stands.update (h : Stands st os m) (o : TripleBarrierObservation) :
    Stands st (os ++ [o]) (sweep m o).2 := by
  cases h with
  | waiting h hstored =>
    have hget : (Labeling.sweep m o).2.entries.get? st.entry.entryId = kept o (st.counting (st.seen os).length) := by
      rw [get?_sweep, hstored, Option.bind_some]
    by_cases hss : st.Sees o
    · by_cases hen : st.Ends ((st.seen os).length + 1) o
      · refine .ended (fun hw => (EntryState.waits_concat.mp hw).2 hss hen) ?_ ?_
        · rw [hget, kept_of_ends hss hen]
        · refine (sweep_resolved m _).mpr (.inr ⟨_, hstored, ?_⟩)
          rw [resolve_of_ends hss hen]
          rfl
      · refine .waiting (EntryState.waits_concat.mpr ⟨h, fun _ => hen⟩) ?_
        rw [hget, kept_of_not_ends hss hen, EntryState.seen_concat, if_pos hss]
    · refine .waiting (EntryState.waits_concat.mpr ⟨h, fun hs => absurd hs hss⟩) ?_
      rw [hget, kept_of_not_sees hss, EntryState.seen_concat, if_neg hss, Nat.add_zero]
  | ended h hgone hresolved =>
    refine .ended (fun hw => h (EntryState.waits_concat.mp hw).1) ?_ ((sweep_resolved m _).mpr (.inl hresolved))
    rw [get?_sweep, hgone, Option.bind_none]

lemma after_concat (env : Env) (ops : List Op) (op : Op) :
    after env (ops ++ [op]) = next env (after env ops) op := by
  simp [after]

lemma stands_registered (h : Registers env (after env ops) r st) (ops' : List Op) :
    Stands st (observations ops') (after env (ops ++ .register r :: ops')) := by
  induction ops' using List.reverseRecOn with
  | nil =>
    refine .waiting EntryState.waits_nil ?_
    show (after env (ops ++ [.register r])).entries.get? st.entry.entryId = some (st.counting 0)
    rw [after_concat, h.counts]
    exact h.stored
  | append_singleton ops' op ih =>
    have haf : after env (ops ++ .register r :: (ops' ++ [op])) =
        next env (after env (ops ++ .register r :: ops')) op := by
      rw [← after_concat, List.append_assoc, List.cons_append]
    rw [haf]
    cases op with
    | register r' =>
      have hobs : observations (ops' ++ [.register r']) = observations ops' := by simp [observations]
      rw [hobs]
      exact ih.register r'
    | update o =>
      have hobs : observations (ops' ++ [.update o]) = observations ops' ++ [o] := by simp [observations]
      rw [hobs]
      exact ih.update o

lemma registered_of_mem {k : String} (h : k ∈ (after env ops).entries.keys) :
    ∃ before r rest st, ops = before ++ .register r :: rest ∧ Registers env (after env before) r st ∧
      st.entry.entryId = k := by
  induction ops using List.reverseRecOn with
  | nil => cases h
  | append_singleton ops op ih =>
    rw [after_concat] at h
    have hg : k ∈ (after env ops).entries.keys → ∃ before r rest st, ops ++ [op] = before ++ .register r :: rest ∧
        Registers env (after env before) r st ∧ st.entry.entryId = k := by
      intro hk
      obtain ⟨before, r, rest, st, hops, hr⟩ := ih hk
      exact ⟨before, r, rest ++ [op], st, by rw [hops, List.append_assoc, List.cons_append], hr⟩
    cases op with
    | register r =>
      rcases register_cases env (after env ops) r with ⟨_, -, hen, -⟩ | ⟨st, hr, -, -, hen, -⟩
      · exact hg (by rw [← hen]; exact h)
      · have hk : k ∈ ((after env ops).entries.set st.entry.entryId st).keys := by rw [← hen]; exact h
        rcases Dict.mem_keys_set.mp hk with hid | hold
        · exact ⟨ops, r, [], st, rfl, hr, hid.symm⟩
        · exact hg hold
    | update o =>
      refine hg ?_
      have hk : k ∈ (Dict.alterEntries (fun _ => kept o) (after env ops).entries.entries).map Prod.fst := by
        rw [← sweep_entries]
        exact h
      exact Dict.mem_keys_alterEntries hk

lemma firstEnd_of_resolve {o : TripleBarrierObservation} {e : String × EntryState}
    (hmem : e ∈ (after env ops).entries.entries) (hl : resolve o e.2 = some l) :
    ∃ before r rest st, ops = before ++ .register r :: rest ∧ Registers env (after env before) r st ∧
      st.entry.entryId = e.1 ∧ ∃ h : st.FirstEnd (observations rest) o, l = st.label o h.sees.later := by
  have hkey : e.1 ∈ (after env ops).entries.keys := List.mem_map_of_mem (f := Prod.fst) hmem
  obtain ⟨before, r, rest, st, rfl, hr, hk⟩ := registered_of_mem hkey
  have hget := Dict.get?_eq_some.mpr hmem
  rw [← hk] at hget
  refine ⟨before, r, rest, st, rfl, hr, hk, ?_⟩
  cases stands_registered hr rest with
  | waiting h hstored =>
    have hst : st.counting _ = e.2 := Option.some.inj (hstored.symm.trans hget)
    rw [← hst] at hl
    by_cases hs : st.Sees o
    · by_cases hen : st.Ends ((st.seen (observations rest)).length + 1) o
      · rw [resolve_of_ends hs hen] at hl
        exact ⟨⟨hs, hen, h⟩, (Option.some.inj hl).symm⟩
      · rw [resolve_of_not_ends hs hen] at hl
        cases hl
    · rw [resolve_of_not_sees hs] at hl
      cases hl
  | ended h hgone hresolved =>
    rw [hgone] at hget
    cases hget

/-- **Which labels an sweep emits**: those of the entries for which the observation is the first one that ends
them. -/
theorem mem_labels_sweep {o : TripleBarrierObservation} :
    l ∈ (sweep (after env ops) o).1 ↔ ∃ before r rest st, ops = before ++ .register r :: rest ∧
      Registers env (after env before) r st ∧ ∃ h : st.FirstEnd (observations rest) o, l = st.label o h.sees.later := by
  rw [sweep_labels, List.mem_filterMap]
  constructor
  · rintro ⟨e, hmem, hl⟩
    obtain ⟨before, r, rest, st, hops, hr, -, h⟩ := firstEnd_of_resolve hmem hl
    exact ⟨before, r, rest, st, hops, hr, h⟩
  · rintro ⟨before, r, rest, st, rfl, hr, h, rfl⟩
    cases stands_registered hr rest with
    | waiting hw hstored =>
      exact ⟨(st.entry.entryId, _), Dict.get?_eq_some.mp hstored, resolve_of_ends h.sees h.ends⟩
    | ended hw => exact absurd h.first hw

/-! ### One label at most -/

lemma outputs_append (env : Env) (m : TripleBarrierStateMachine) (ops ops' : List Op) :
    outputs env m (ops ++ ops') = outputs env m ops ++ outputs env (ops.foldl (next env) m) ops' := by
  induction ops generalizing m with
  | nil => rfl
  | cons op ops ih => simp [outputs, ih]

lemma labels_concat (env : Env) (ops : List Op) (op : Op) :
    labels env (ops ++ [op]) = labels env ops ++ emitted (after env ops) op := by
  simp [labels, outputs_append, outputs, after]

lemma emitted_of_mem (h : l ∈ labels env ops) :
    ∃ before o rest, ops = before ++ .update o :: rest ∧ l ∈ (sweep (after env before) o).1 := by
  induction ops using List.reverseRecOn with
  | nil => cases h
  | append_singleton ops op ih =>
    rw [labels_concat, List.mem_append] at h
    rcases h with h | h
    · obtain ⟨before, o, rest, hops, hl⟩ := ih h
      exact ⟨before, o, rest ++ [op], by rw [hops, List.append_assoc, List.cons_append], hl⟩
    · cases op with
      | register r => cases h
      | update o => exact ⟨ops, o, [], rfl, h⟩

lemma gone_of_mem (h : l ∈ labels env ops) : (after env ops).entries.get? l.entryId = none := by
  obtain ⟨before, o, rest, rfl, hl⟩ := emitted_of_mem h
  obtain ⟨ops₁, r, ops₂, st, rfl, hr, hend, rfl⟩ := mem_labels_sweep.mp hl
  have hs := stands_registered hr (ops₂ ++ .update o :: rest)
  rw [← List.cons_append, ← List.append_assoc] at hs
  cases hs with
  | waiting hw =>
    have hobs : observations (ops₂ ++ .update o :: rest) = observations ops₂ ++ o :: observations rest := by
      simp [observations]
    exact absurd hend.ends (hw _ _ _ hobs hend.sees)
  | ended _ hgone => exact hgone

lemma ids_sweep_sublist (env : Env) (ops : List Op) (o : TripleBarrierObservation) :
    ((sweep (after env ops) o).1.map TripleBarrierLabel.entryId).Sublist (after env ops).entries.keys := by
  have hid : ∀ e ∈ (after env ops).entries.entries, ∀ l ∈ resolve o e.2, l.entryId = e.1 := by
    intro e he l hl
    obtain ⟨before, r, rest, st, -, -, hk, h, rfl⟩ := firstEnd_of_resolve he hl
    exact hk
  rw [sweep_labels]
  unfold Dict.keys
  generalize (after env ops).entries.entries = es at hid
  induction es with
  | nil => exact List.Sublist.refl _
  | cons e es ih =>
    have hes := ih fun e' he' => hid e' (.tail _ he')
    cases hl : resolve o e.2 with
    | none =>
      rw [List.filterMap_cons]
      simp only [hl]
      exact hes.cons _
    | some l =>
      rw [List.filterMap_cons]
      simp only [hl]
      rw [List.map_cons, List.map_cons, hid e (.head _) l hl]
      exact hes.cons_cons _

lemma nodup_ids (env : Env) (ops : List Op) : ((labels env ops).map TripleBarrierLabel.entryId).Nodup := by
  induction ops using List.reverseRecOn with
  | nil => exact List.nodup_nil
  | append_singleton ops op ih =>
    rw [labels_concat, List.map_append]
    cases op with
    | register r => simpa [emitted] using ih
    | update o =>
      have hsub := ids_sweep_sublist env ops o
      refine ih.append (hsub.nodup (Dict.keys_nodup _)) ?_
      intro k hold hnew
      obtain ⟨l, hl, rfl⟩ := List.mem_map.mp hold
      exact Dict.get?_eq_none.mp (gone_of_mem hl) (hsub.subset hnew)

end Sweep

/-! ### The runs of the machine -/

/-- No observation of a run from `m` is seen by an entry whose last time is out of range. -/
def Clear (env : Env) (m : TripleBarrierStateMachine) : List Op → Prop
  | [] => True
  | op :: ops => (∀ o, op = .update o → Timely m o) ∧ Clear env (next env m op) ops

lemma clear_append {ops' : List Op} :
    Clear env m (ops ++ ops') ↔ Clear env m ops ∧ Clear env (ops.foldl (next env) m) ops' := by
  induction ops generalizing m with
  | nil => simp [Clear]
  | cons op ops ih => simp [Clear, ih, and_assoc]

lemma next_eq {op : Op} (h : ∀ o, op = .update o → Timely m o) :
    next env m op = Sweep.next env m op ∧ emitted m op = .ok (Sweep.emitted m op) := by
  cases op with
  | register r => exact ⟨rfl, rfl⟩
  | update o =>
    have hu := update_of_timely (h o rfl)
    exact ⟨congrArg Prod.snd hu, congrArg Prod.fst hu⟩

lemma run_eq (h : Clear env m ops) : ops.foldl (next env) m = ops.foldl (Sweep.next env) m ∧
    outputs env m ops = (Sweep.outputs env m ops).map .ok := by
  induction ops generalizing m with
  | nil => exact ⟨rfl, rfl⟩
  | cons op ops ih =>
    obtain ⟨hn, he⟩ := @next_eq env _ _ h.1
    obtain ⟨hf, ho⟩ := ih h.2
    refine ⟨?_, ?_⟩
    · rw [List.foldl_cons, List.foldl_cons, hf, hn]
    · rw [outputs, Sweep.outputs, List.map_cons, ho, he, hn]

lemma after_eq (h : Clear env .init ops) : after env ops = Sweep.after env ops := (run_eq h).1

lemma labels_eq (h : Clear env .init ops) : labels env ops = Sweep.labels env ops := by
  unfold labels Sweep.labels
  rw [(run_eq h).2, List.flatMap_map]
  exact List.flatMap_id

lemma clear_of_returns
    (h : ∀ before o rest, ops = before ++ .update o :: rest → ∃ ls, (update (after env before) o).1 = .ok ls) :
    Clear env .init ops := by
  induction ops using List.reverseRecOn with
  | nil => trivial
  | append_singleton ops op ih =>
    refine clear_append.mpr ⟨ih ?_, ?_, trivial⟩
    · intro before o rest hops
      exact h before o (rest ++ [op]) (by rw [hops, List.append_assoc, List.cons_append])
    · rintro o rfl
      obtain ⟨ls, hls⟩ := h ops o [] rfl
      exact timely_of_returns hls

end Runs

end Qmtl.Runtime.Labeling

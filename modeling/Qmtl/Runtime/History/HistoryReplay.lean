import Qmtl.Lib.Dict

/-!
`HistoryReplayer._replay_timestamp`: passes over the nodes of a strategy until one of them executes nothing.
-/

namespace Qmtl.Runtime.Replay

open Lib

structure Source where
  nodeId : Option String
  interval : Option ℤ

def Source.key (s : Source) : Option (String × ℤ) := s.nodeId.bind fun id => s.interval.map fun interval => (id, interval)

/-- `event_values`, by the id and the interval. -/
abbrev EventValues (V : Type) := Dict (String × ℤ) (List (ℤ × V))

structure Node (V : Type) extends Source where
  computeFn : Option (EventValues V → V)
  execute : Bool
  inputs : List (Option Source)

variable {V : Type}

def append (values : EventValues V) (key : String × ℤ) (x : ℤ × V) : EventValues V :=
  values.set key ((values.get? key).getD [] ++ [x])

def initializeEventValues (ts : ℤ) (seeds : List (Source × V)) : EventValues V :=
  seeds.foldl (fun values s => s.1.key.elim values fun key => append values key (ts, s.2)) Dict.empty

def shouldProcessNode (node : Node V) (done : List String) : Bool :=
  node.computeFn.isSome && node.execute && !node.inputs.isEmpty && node.nodeId.any (· ∉ done)

def nodeInputsReady (node : Node V) (values : EventValues V) : Bool :=
  node.inputs.all fun upstream => (upstream.bind Source.key).all (· ∈ values.keys)

structure State (V : Type) where
  eventValues : EventValues V
  done : List String
  executed : List ℕ

def recordNodeResult (node : Node V) (ts : ℤ) (result : V) (s : State V) : State V :=
  match node.nodeId, node.interval with
  | some id, some interval =>
    { s with eventValues := append s.eventValues (id, interval) (ts, result), done := s.done ++ [id] }
  | _, _ => s

/-- One round of the inner loop, with `progressed`. -/
def visit (ts : ℤ) (acc : State V × Bool) (place : Node V × ℕ) : State V × Bool :=
  match place.1.computeFn with
  | some compute =>
    if shouldProcessNode place.1 acc.1.done && nodeInputsReady place.1 acc.1.eventValues then
      let s := recordNodeResult place.1 ts (compute acc.1.eventValues) acc.1
      ({ s with executed := s.executed ++ [place.2] }, true)
    else acc
  | none => acc

def pass (ts : ℤ) (nodes : List (Node V)) (s : State V) : State V × Bool := nodes.zipIdx.foldl (visit ts) (s, false)

def passes (ts : ℤ) (nodes : List (Node V)) : ℕ → State V → Option (State V)
  | 0, _ => none
  | n + 1, s => if (pass ts nodes s).2 then passes ts nodes n (pass ts nodes s).1 else some (pass ts nodes s).1

def start (ts : ℤ) (seeds : List (Source × V)) : State V := ⟨initializeEventValues ts seeds, [], []⟩

def replayTimestamp (ts : ℤ) (nodes : List (Node V)) (seeds : List (Source × V)) (n : ℕ) : Option (State V) :=
  passes ts nodes n (start ts seeds)

section Replay

variable (nodes : List (Node V)) (seeds : List (Source × V))

def Fed (places : List ℕ) (node : Node V) : Prop :=
  ∀ upstream ∈ node.inputs, ∀ key, upstream.bind Source.key = some key →
    (∃ s ∈ seeds, s.1.key = some key) ∨ ∃ j ∈ places, ∃ m, nodes[j]? = some m ∧ m.key = some key

/-- The replay comes to an end, every place is executed at most once, and after what feeds it. -/
def Proper (ts : ℤ) : Prop :=
  ∃ n final, replayTimestamp ts nodes seeds n = some final ∧ final.executed.Nodup ∧
    ∀ before i, before ++ [i] <+: final.executed → ∃ node, nodes[i]? = some node ∧ Fed nodes seeds before node

/-! ### Turns -/

/-- The nodes take turns, pass after pass. -/
def nodeAt (t : ℕ) : Option (Node V) := nodes[t % nodes.length]?

/-- What the nodes with an interval have settled: the keys there are values for, and the ids that are done. -/
structure Settled where
  keys : List (String × ℤ)
  ids : List String

def Node.mayRun (node : Node V) (c : Settled) : Bool :=
  shouldProcessNode node c.ids && node.inputs.all fun upstream => (upstream.bind Source.key).all (· ∈ c.keys)

def Settled.record (c : Settled) (node : Node V) : Settled :=
  match node.nodeId, node.interval with
  | some id, some interval => ⟨(id, interval) :: c.keys, id :: c.ids⟩
  | _, _ => c

/-- What is settled before turn `t`. The nodes without an interval settle nothing. -/
def settled : ℕ → Settled
  | 0 => ⟨seeds.filterMap fun s => s.1.key, []⟩
  | t + 1 =>
    match nodeAt nodes t with
    | none => settled t
    | some node => if node.mayRun (settled t) then (settled t).record node else settled t

def runsAt (t : ℕ) : Bool := (nodeAt nodes t).any fun node => node.mayRun (settled nodes seeds t)

/-- A node without an interval that may run at its turn finds its id done at its next one, by a namesake that has an
interval. -/
def InTime : Prop :=
  ∀ t node id, nodeAt nodes t = some node → node.interval = none → node.nodeId = some id →
    node.mayRun (settled nodes seeds t) = true → id ∈ (settled nodes seeds (t + nodes.length)).ids

def executedBy (t : ℕ) : List ℕ := ((List.range t).filter fun t' => runsAt nodes seeds t').map (· % nodes.length)

/-- What holds before turn `t`. -/
structure Inv (t : ℕ) (s : State V) : Prop where
  keys : ∀ key, key ∈ s.eventValues.keys ↔ key ∈ (settled nodes seeds t).keys
  done : ∀ id, id ∈ s.done ↔ id ∈ (settled nodes seeds t).ids
  executed : s.executed = executedBy nodes seeds t
  known : ∀ key ∈ s.eventValues.keys, (∃ x ∈ seeds, x.1.key = some key) ∨
    ∃ j ∈ s.executed, ∃ m, nodes[j]? = some m ∧ m.key = some key
  fed : ∀ before i, before ++ [i] <+: s.executed → ∃ node, nodes[i]? = some node ∧ Fed nodes seeds before node

end Replay

variable {nodes : List (Node V)} {seeds : List (Source × V)} {s : State V} {ts : ℤ} {t t' : ℕ}

lemma mem_keys_append {values : EventValues V} {key k : String × ℤ} {x : ℤ × V} :
    k ∈ (append values key x).keys ↔ k = key ∨ k ∈ values.keys := Dict.mem_keys_set

lemma runsAt_iff {node : Node V} (hn : nodeAt nodes t = some node) :
    runsAt nodes seeds t ↔ node.mayRun (settled nodes seeds t) := by
  rw [runsAt, hn, Option.any_some]

lemma node_of_runs (h : runsAt nodes seeds t) :
    ∃ node, nodeAt nodes t = some node ∧ node.mayRun (settled nodes seeds t) := by
  cases hn : nodeAt nodes t with
  | none => simp [runsAt, hn] at h
  | some node => exact ⟨node, rfl, (runsAt_iff hn).mp h⟩

lemma settled_of_runs {node : Node V} (hn : nodeAt nodes t = some node) (hr : runsAt nodes seeds t) :
    settled nodes seeds (t + 1) = (settled nodes seeds t).record node := by
  rw [settled, hn]
  exact if_pos ((runsAt_iff hn).mp hr)

lemma settled_of_idle (hr : ¬ runsAt nodes seeds t = true) : settled nodes seeds (t + 1) = settled nodes seeds t := by
  rw [settled]
  cases hn : nodeAt nodes t with
  | none => rfl
  | some node => exact if_neg (mt (runsAt_iff hn).mpr hr)

lemma mem_record {c : Settled} {node : Node V} {id : String} (hid : node.nodeId = some id) :
    (∀ k, k ∈ (c.record node).keys ↔ node.key = some k ∨ k ∈ c.keys) ∧
      ∀ id', id' ∈ (c.record node).ids ↔ (node.interval.isSome ∧ id' = id) ∨ id' ∈ c.ids := by
  unfold Settled.record Source.key
  rw [hid]
  cases node.interval with
  | none => simp
  | some interval => simp [eq_comm]

lemma mayRun_iff {node : Node V} {c : Settled} : node.mayRun c ↔ shouldProcessNode node c.ids ∧
    ∀ upstream ∈ node.inputs, ∀ k, upstream.bind Source.key = some k → k ∈ c.keys := by
  simp [Node.mayRun, Option.all_eq_true]

lemma process_iff {node : Node V} {done : List String} : shouldProcessNode node done = true ↔
    node.computeFn.isSome ∧ node.execute ∧ node.inputs.isEmpty = false ∧
      ∃ id, node.nodeId = some id ∧ id ∉ done := by
  simp [shouldProcessNode, Option.any_eq_true, and_assoc]

/-- **What is settled stays.** -/
theorem settled_mono (h : t ≤ t') : (settled nodes seeds t).keys ⊆ (settled nodes seeds t').keys ∧
    (settled nodes seeds t).ids ⊆ (settled nodes seeds t').ids := by
  induction h with
  | refl => exact ⟨List.Subset.refl _, List.Subset.refl _⟩
  | @step t' _ ih =>
    by_cases hr : runsAt nodes seeds t'
    · obtain ⟨node, hn, hmay⟩ := node_of_runs hr
      obtain ⟨-, -, -, id, hid, -⟩ := process_iff.mp (mayRun_iff.mp hmay).1
      obtain ⟨hk, hi⟩ := @mem_record V (settled nodes seeds t') node id hid
      rw [Nat.succ_eq_add_one, settled_of_runs hn hr]
      exact ⟨fun k hmem => (hk k).mpr (.inr (ih.1 hmem)), fun id' hmem => (hi id').mpr (.inr (ih.2 hmem))⟩
    · rw [Nat.succ_eq_add_one, settled_of_idle hr]
      exact ih

lemma executedBy_succ : executedBy nodes seeds (t + 1) =
    executedBy nodes seeds t ++ if runsAt nodes seeds t then [t % nodes.length] else [] := by
  unfold executedBy
  rw [List.range_succ, List.filter_append, List.map_append]
  by_cases h : runsAt nodes seeds t <;> simp [h]

/-- **One turn.** -/
theorem Inv.visit (h : Inv nodes seeds t s) {node : Node V} (hn : nodeAt nodes t = some node) (progressed : Bool) :
    Inv nodes seeds (t + 1) (visit ts (s, progressed) (node, t % nodes.length)).1 ∧
      ((visit ts (s, progressed) (node, t % nodes.length)).2 ↔ progressed ∨ runsAt nodes seeds t) := by
  have hen : (shouldProcessNode node s.done && nodeInputsReady node s.eventValues) = runsAt nodes seeds t := by
    rw [Bool.eq_iff_iff, runsAt_iff hn, mayRun_iff, Bool.and_eq_true, process_iff, process_iff]
    simp [nodeInputsReady, Option.all_eq_true, h.keys, h.done]
  unfold Replay.visit
  cases hr : runsAt nodes seeds t with
  | false =>
    have hidle : ¬ runsAt nodes seeds t := by simp [hr]
    have hv : Inv nodes seeds (t + 1) s := by
      refine ⟨?_, ?_, ?_, h.known, h.fed⟩
      · rw [settled_of_idle hidle]
        exact h.keys
      · rw [settled_of_idle hidle]
        exact h.done
      · rw [executedBy_succ, if_neg hidle, List.append_nil]
        exact h.executed
    cases hc : node.computeFn with
    | none => simpa using hv
    | some compute =>
      rw [hr] at hen
      simpa [hen] using hv
  | true =>
    obtain ⟨hp, hinputs⟩ := mayRun_iff.mp ((runsAt_iff hn).mp hr)
    obtain ⟨hc, -, -, id, hid, hnew⟩ := process_iff.mp hp
    obtain ⟨compute, hc⟩ := Option.isSome_iff_exists.mp hc
    rw [hr] at hen
    simp only [hc, hen, if_true, or_true, and_true]
    obtain ⟨hk, hi⟩ := @mem_record V (settled nodes seeds t) node id hid
    have hkeys : ∀ k, k ∈ (recordNodeResult node ts (compute s.eventValues) s).eventValues.keys ↔
        node.key = some k ∨ k ∈ s.eventValues.keys := by
      intro k
      unfold recordNodeResult Source.key
      rw [hid]
      cases node.interval with
      | none => simp
      | some interval => simp [mem_keys_append, eq_comm]
    have hdone : ∀ id', id' ∈ (recordNodeResult node ts (compute s.eventValues) s).done ↔
        (node.interval.isSome ∧ id' = id) ∨ id' ∈ s.done := by
      intro id'
      unfold recordNodeResult
      rw [hid]
      cases node.interval with
      | none => simp
      | some interval => simp [or_comm]
    have hexec : (recordNodeResult node ts (compute s.eventValues) s).executed = s.executed := by
      unfold recordNodeResult
      rw [hid]
      cases node.interval <;> rfl
    refine ⟨fun k => ?_, fun id' => ?_, ?_, fun k hmem => ?_, fun before i hpre => ?_⟩
    · rw [settled_of_runs hn hr, hk, ← h.keys]
      exact hkeys k
    · rw [settled_of_runs hn hr, hi, ← h.done]
      exact hdone id'
    · rw [executedBy_succ, if_pos hr, ← h.executed]
      exact congrArg (· ++ _) hexec
    · rw [hexec]
      rcases (hkeys k).mp hmem with hown | hmem
      · exact .inr ⟨_, List.mem_append_right _ (List.mem_singleton_self _), node, hn, hown⟩
      · rcases h.known k hmem with hs | ⟨j, hj, hm⟩
        · exact .inl hs
        · exact .inr ⟨j, List.mem_append_left _ hj, hm⟩
    · rw [hexec] at hpre
      rcases List.prefix_concat_iff.mp hpre with heq | hpre
      · obtain ⟨rfl, hi⟩ := List.append_inj' heq rfl
        obtain rfl := List.singleton_inj.mp hi
        exact ⟨node, hn, fun upstream hup k hkey => h.known k ((h.keys k).mpr (hinputs upstream hup k hkey))⟩
      · exact h.fed before i hpre

lemma foldl_visit (l : List (Node V × ℕ)) (progressed : Bool) (h : Inv nodes seeds t s)
    (hl : ∀ j place, l[j]? = some place → nodeAt nodes (t + j) = some place.1 ∧ place.2 = (t + j) % nodes.length) :
    Inv nodes seeds (t + l.length) (l.foldl (visit ts) (s, progressed)).1 ∧
      ((l.foldl (visit ts) (s, progressed)).2 ↔ progressed ∨ ∃ j < l.length, runsAt nodes seeds (t + j)) := by
  induction l generalizing t s progressed with
  | nil => exact ⟨h, by simp⟩
  | cons place l ih =>
    obtain ⟨hn, hi⟩ := hl 0 place rfl
    obtain ⟨node, i⟩ := place
    obtain rfl : i = t % nodes.length := hi
    obtain ⟨hv, hp⟩ := @Inv.visit V nodes seeds s ts t h node hn progressed
    have hrest := ih (Replay.visit ts (s, progressed) (node, t % nodes.length)).2 hv fun j place hj => by
      have hj' := hl (j + 1) place hj
      rwa [show t + (j + 1) = t + 1 + j by omega] at hj'
    rw [List.foldl_cons, List.length_cons, show t + (l.length + 1) = t + 1 + l.length by omega]
    refine ⟨hrest.1, hrest.2.trans ?_⟩
    rw [hp, or_assoc]
    refine or_congr_right ⟨?_, ?_⟩
    · rintro (hr | ⟨j, hj, hr⟩)
      · exact ⟨0, by omega, hr⟩
      · exact ⟨j + 1, by omega, by rwa [show t + (j + 1) = t + 1 + j by omega]⟩
    · rintro ⟨_ | j, hj, hr⟩
      · exact .inl hr
      · exact .inr ⟨j, by omega, by rwa [show t + 1 + j = t + (j + 1) by omega]⟩

/-- **One pass** takes as many turns as there are nodes, and has progressed exactly if one of them ran. -/
theorem pass_spec {q : ℕ} (h : Inv nodes seeds (q * nodes.length) s) :
    Inv nodes seeds ((q + 1) * nodes.length) (pass ts nodes s).1 ∧ ((pass ts nodes s).2 ↔
      ∃ j < nodes.length, runsAt nodes seeds (q * nodes.length + j)) := by
  have hf := @foldl_visit V nodes seeds s ts (q * nodes.length) nodes.zipIdx false h (by
    rintro j ⟨node, i⟩ hj
    rw [List.getElem?_zipIdx, Option.map_eq_some_iff] at hj
    obtain ⟨node', hj, heq⟩ := hj
    simp only [Nat.zero_add, Prod.mk.injEq] at heq
    obtain ⟨rfl, rfl⟩ := heq
    have hlt := (List.getElem?_eq_some_iff.mp hj).1
    have hmod : (q * nodes.length + j) % nodes.length = j := by
      rw [Nat.mul_comm, Nat.mul_add_mod, Nat.mod_eq_of_lt hlt]
    exact ⟨by rw [nodeAt, hmod]; exact hj, hmod.symm⟩)
  rw [List.length_zipIdx] at hf
  refine ⟨?_, hf.2.trans (by simp)⟩
  rw [show (q + 1) * nodes.length = q * nodes.length + nodes.length by ring]
  exact hf.1

lemma inv_start : Inv nodes seeds 0 (start ts seeds) := by
  have hkeys : ∀ key, key ∈ (initializeEventValues ts seeds).keys ↔ ∃ x ∈ seeds, x.1.key = some key := by
    intro key
    have hf : ∀ values : EventValues V, key ∈ (seeds.foldl (fun values s => s.1.key.elim values fun key =>
        append values key (ts, s.2)) values).keys ↔ key ∈ values.keys ∨ ∃ x ∈ seeds, x.1.key = some key := by
      induction seeds with
      | nil => simp
      | cons x seeds ih =>
        intro values
        rw [List.foldl_cons, ih]
        cases hx : x.1.key with
        | none => simp [hx]
        | some k => simp [hx, mem_keys_append, or_assoc, or_left_comm, eq_comm]
    rw [initializeEventValues, hf]
    simp [Dict.keys, Dict.empty]
  refine ⟨fun key => ?_, fun id => by simp [start, settled], rfl, fun key hkey => .inl ((hkeys key).mp hkey), ?_⟩
  · rw [settled, List.mem_filterMap]
    exact hkeys key
  · intro before i hp
    simp [start] at hp

/-! ### Whole replays -/

lemma runsAt_congr (hs : settled nodes seeds t = settled nodes seeds t') (hm : t % nodes.length = t' % nodes.length) :
    runsAt nodes seeds t = runsAt nodes seeds t' := by
  rw [runsAt, runsAt, nodeAt, nodeAt, hs, hm]

/-- **After an idle pass** no node ever runs. -/
theorem idle_after {q : ℕ} (h : ∀ j < nodes.length, ¬ runsAt nodes seeds (q * nodes.length + j)) (k : ℕ) :
    settled nodes seeds (q * nodes.length + k) = settled nodes seeds (q * nodes.length) ∧
      ¬ runsAt nodes seeds (q * nodes.length + k) := by
  induction k using Nat.strong_induction_on with
  | _ k ih =>
    have hs : settled nodes seeds (q * nodes.length + k) = settled nodes seeds (q * nodes.length) := by
      cases k with
      | zero => rfl
      | succ k =>
        obtain ⟨hs, hr⟩ := ih k (Nat.lt_succ_self k)
        rw [← Nat.add_assoc, settled_of_idle hr, hs]
    refine ⟨hs, ?_⟩
    rcases Nat.eq_zero_or_pos nodes.length with h0 | hpos
    · have hnone : nodeAt nodes (q * nodes.length + k) = none := List.getElem?_eq_none (by omega)
      simp [runsAt, hnone]
    · rcases Nat.lt_or_ge k nodes.length with hlt | hge
      · exact h k hlt
      · -- the turn of the same node one pass earlier
        obtain ⟨hs', hr'⟩ := ih (k - nodes.length) (by omega)
        rwa [runsAt_congr (hs.trans hs'.symm)]
        rw [show q * nodes.length + k = q * nodes.length + (k - nodes.length) + nodes.length by omega,
          Nat.add_mod_right]

lemma passes_spec {n q : ℕ} {s final : State V} (h : Inv nodes seeds (q * nodes.length) s)
    (hrun : passes ts nodes n s = some final) : ∃ q, Inv nodes seeds ((q + 1) * nodes.length) final ∧
      ∀ j < nodes.length, ¬ runsAt nodes seeds (q * nodes.length + j) := by
  induction n generalizing q s with
  | zero => cases hrun
  | succ n ih =>
    obtain ⟨hinv, hp⟩ := @pass_spec V nodes seeds s ts q h
    rw [passes] at hrun
    split_ifs at hrun with ht
    · exact ih hinv hrun
    · cases hrun
      exact ⟨q, hinv, fun j hj hr => ht (hp.mpr ⟨j, hj, hr⟩)⟩

lemma executedBy_le (h : t ≤ t') : executedBy nodes seeds t <+: executedBy nodes seeds t' := by
  induction h with
  | refl => exact List.prefix_refl _
  | step _ ih =>
    rw [Nat.succ_eq_add_one, executedBy_succ]
    exact ih.trans (List.prefix_append _ _)

lemma length_executedBy_lt {j : ℕ} (hlt : t + j < t') (hr : runsAt nodes seeds (t + j)) :
    (executedBy nodes seeds t).length < (executedBy nodes seeds t').length := by
  have hle := (@executedBy_le V nodes seeds _ _ (Nat.le_add_right t j)).length_le
  have hge := (@executedBy_le V nodes seeds _ _ (Nat.succ_le_of_lt hlt)).length_le
  rw [Nat.succ_eq_add_one, executedBy_succ, if_pos hr, List.length_append, List.length_singleton] at hge
  omega

lemma length_executedBy_le (hnodup : (executedBy nodes seeds t).Nodup) :
    (executedBy nodes seeds t).length ≤ nodes.length := by
  have hsub : executedBy nodes seeds t ⊆ List.range nodes.length := by
    intro i hi
    obtain ⟨t', ht, rfl⟩ := List.mem_map.mp hi
    obtain ⟨node, hn, -⟩ := node_of_runs (List.mem_filter.mp ht).2
    exact List.mem_range.mpr (List.getElem?_eq_some_iff.mp hn).1
  simpa using (hnodup.subperm hsub).length_le

lemma exists_passes (hnodup : ∀ t, (executedBy nodes seeds t).Nodup) {n q : ℕ} {s : State V}
    (h : Inv nodes seeds (q * nodes.length) s)
    (hn : nodes.length < n + (executedBy nodes seeds (q * nodes.length)).length) :
    ∃ final, passes ts nodes n s = some final := by
  induction n generalizing q s with
  | zero =>
    have := length_executedBy_le (hnodup (q * nodes.length))
    omega
  | succ n ih =>
    obtain ⟨hinv, hp⟩ := @pass_spec V nodes seeds s ts q h
    rw [passes]
    split_ifs with ht
    · obtain ⟨j, hj, hr⟩ := hp.mp ht
      have hlt := @length_executedBy_lt V nodes seeds _ ((q + 1) * nodes.length) j (by nlinarith) hr
      exact ih hinv (by omega)
    · exact ⟨_, rfl⟩

/-- **In time, no node runs twice.** -/
theorem InTime.once (h : InTime nodes seeds) (hlt : t < t') (hm : t % nodes.length = t' % nodes.length)
    (hr : runsAt nodes seeds t) : ¬ runsAt nodes seeds t' := by
  obtain ⟨node, hn, hmay⟩ := node_of_runs hr
  have hn' : nodeAt nodes t' = some node := by rw [nodeAt, ← hm]; exact hn
  obtain ⟨-, -, -, id, hid, -⟩ := process_iff.mp (mayRun_iff.mp hmay).1
  have hdone : id ∈ (settled nodes seeds t').ids := by
    cases hint : node.interval with
    | none =>
      have hle : t + nodes.length ≤ t' := by
        have hdvd : nodes.length ∣ t' - t := (Nat.modEq_iff_dvd' hlt.le).mp hm
        have := Nat.le_of_dvd (by omega) hdvd
        omega
      exact (settled_mono hle).2 (h t node id hn hint hid hmay)
    | some interval =>
      refine (settled_mono (Nat.succ_le_of_lt hlt)).2 ?_
      rw [Nat.succ_eq_add_one, settled_of_runs hn hr]
      exact ((mem_record hid).2 id).mpr (.inl ⟨by simp [hint], rfl⟩)
  intro hr'
  obtain ⟨-, -, -, id', hid', hnew⟩ := process_iff.mp (mayRun_iff.mp ((runsAt_iff hn').mp hr')).1
  rw [hid] at hid'
  cases hid'
  exact hnew hdone

/-- **The replay ends and respects the inputs** exactly if the nodes without an interval are stopped in time. -/
theorem replay_proper_iff (nodes : List (Node V)) (seeds : List (Source × V)) (ts : ℤ) :
    Proper nodes seeds ts ↔ InTime nodes seeds := by
  have hstart : Inv nodes seeds (0 * nodes.length) (start ts seeds) := by rw [Nat.zero_mul]; exact inv_start
  constructor
  · rintro ⟨n, final, hrun, hnodup, -⟩ t node id hn hint hid hmay
    obtain ⟨q, hinv, hidle⟩ := passes_spec hstart hrun
    by_contra hopen
    have hr : runsAt nodes seeds t := (runsAt_iff hn).mpr hmay
    have hn' : nodeAt nodes (t + nodes.length) = some node := by rw [nodeAt, Nat.add_mod_right]; exact hn
    -- its inputs are still there at the next turn, and its id is not done
    have hr' : runsAt nodes seeds (t + nodes.length) := by
      obtain ⟨hp, hinputs⟩ := mayRun_iff.mp hmay
      obtain ⟨hc, he, hi, -⟩ := process_iff.mp hp
      refine (runsAt_iff hn').mpr (mayRun_iff.mpr ⟨process_iff.mpr ⟨hc, he, hi, id, hid, hopen⟩, ?_⟩)
      exact fun upstream hup k hk => (settled_mono (Nat.le_add_right _ _)).1 (hinputs upstream hup k hk)
    have hbefore : t + nodes.length < q * nodes.length := by
      by_contra hge
      refine (idle_after hidle (t + nodes.length - q * nodes.length)).2 ?_
      rwa [Nat.add_sub_cancel' (by omega)]
    have hmem : ∀ t', t' < q * nodes.length → runsAt nodes seeds t' →
        t' ∈ (List.range ((q + 1) * nodes.length)).filter fun t' => runsAt nodes seeds t' :=
      fun t' hlt hrt => List.mem_filter.mpr ⟨List.mem_range.mpr (by nlinarith), hrt⟩
    rw [hinv.executed] at hnodup
    have heq := List.inj_on_of_nodup_map hnodup (hmem t (by omega) hr) (hmem _ hbefore hr')
      (by rw [Nat.add_mod_right])
    have hpos := (List.getElem?_eq_some_iff.mp hn).1
    omega
  · intro h
    have hnodup : ∀ t, (executedBy nodes seeds t).Nodup := by
      intro t
      refine (List.nodup_range.filter _).map_on ?_
      intro x hx y hy hxy
      by_contra hne
      rcases Nat.lt_or_gt_of_ne hne with hlt | hlt
      · exact h.once hlt hxy (List.mem_filter.mp hx).2 (List.mem_filter.mp hy).2
      · exact h.once hlt hxy.symm (List.mem_filter.mp hy).2 (List.mem_filter.mp hx).2
    obtain ⟨final, hrun⟩ := @exists_passes V nodes seeds ts hnodup (nodes.length + 1) 0 _ hstart (by omega)
    obtain ⟨q, hinv, -⟩ := passes_spec hstart hrun
    exact ⟨_, final, hrun, by rw [hinv.executed]; exact hnodup _, hinv.fed⟩

def unclocked : Node Unit where
  nodeId := some "n"
  interval := none
  computeFn := some fun _ => ()
  execute := true
  inputs := [some ⟨some "s", some 60⟩]

/-- It is executed in every pass. -/
theorem replay_forever : ¬ ∃ n result, replayTimestamp 0 [unclocked] [(⟨some "s", some 60⟩, ())] n = some result := by
  have hpass : ∀ executed, pass 0 [unclocked] ⟨initializeEventValues 0 [(⟨some "s", some 60⟩, ())], [], executed⟩ =
      (⟨initializeEventValues 0 [(⟨some "s", some 60⟩, ())], [], executed ++ [0]⟩, true) := fun _ => rfl
  have hloop : ∀ n executed,
      passes 0 [unclocked] n ⟨initializeEventValues 0 [(⟨some "s", some 60⟩, ())], [], executed⟩ = none := by
    intro n
    induction n with
    | zero => exact fun _ => rfl
    | succ n ih => exact fun executed => by rw [passes, hpass, if_pos rfl, ih]
  rintro ⟨n, result, h⟩
  cases (hloop n []).symm.trans h

end Qmtl.Runtime.Replay

import Qmtl.DagManager.DiffPlan

/-! Whether diffs under different compute contexts keep apart. -/

namespace Qmtl.DagManager.DiffService

open Lib Foundation

variable {env : Env} {dag : Dag}

def hashed (env : Env) (c : ComputeContext) : String := hashPayload env "" (keyContext env c)

lemma hashPayload_keyContext (nodeId : String) (c : ComputeContext) :
    hashPayload env nodeId (keyContext env c) = nodeId ++ hashed env c := by
  simp [hashed, hashPayload, Lib.join, String.append_assoc]

def Keyed (env : Env) (dag : Dag) (c : ComputeContext) (plan : DiffPlan) : Prop :=
  ∀ k, k ∈ plan.queueMap.keys ↔ k ∈ dagKeys env dag c

def NoCollision (env : Env) (dag : Dag) (cs : List ComputeContext) : Prop :=
  ∀ id ∈ topologicallyOrderNodes (nodeMap dag), ∀ c ∈ cs, ∀ c' ∈ cs,
    env.blake3 (id ++ hashed env c) = env.blake3 (id ++ hashed env c') → hashed env c = hashed env c'

lemma computeKey_congr {c c' : ComputeContext} (h : hashed env c = hashed env c') (id : String) :
    computeKey env id c = computeKey env id c' := by
  unfold computeKey
  rw [hashPayload_keyContext, hashPayload_keyContext, h]

lemma keyed_inferred {request : DiffRequest} {st : State} {r : DiffPlan × State}
    (hl : env.loads request.dagJson = some dag) (h : prepareDiff env request st = .ok r) :
    Keyed env dag (extractComputeContext env dag) r.1 := by
  obtain ⟨dag', pre, topics, hl', hs, hlen, hmap, -⟩ := prepareDiff_queueMap h
  obtain rfl : dag = dag' := Option.some.inj (hl.symm.trans hl')
  intro k
  rw [hmap, Dict.mem_keys_ofList, List.map_fst_zip (by rw [List.length_map]; omega), hs.partitionKeys,
    hs.context]

/-- **Keyed by the merged context** exactly when there is no node, or the context hashes like the DAG's
own. -/
theorem keyed_iff (hhex : ∀ s, '#' ∉ (env.blake3 s).toList) {plan : DiffPlan} {c c' : ComputeContext}
    (hc : NoCollision env dag [c, c']) (h : Keyed env dag c plan) :
    Keyed env dag c' plan ↔ topologicallyOrderNodes (nodeMap dag) = [] ∨ hashed env c = hashed env c' := by
  constructor
  · intro h'
    by_contra hneg
    push Not at hneg
    obtain ⟨hids, hne⟩ := hneg
    obtain ⟨id, rest, hcn⟩ := List.exists_cons_of_ne_nil hids
    have hid : id ∈ topologicallyOrderNodes (nodeMap dag) := by simp [hcn]
    -- the key of a node under `c` is one under `c'`, so its digest is the same
    have hkey : partitionKey id (dagNode dag id).interval (dagNode dag id).bucket
        (some (computeKey env id c)) ∈ dagKeys env dag c' :=
      (h' _).mp ((h _).mpr (List.mem_map_of_mem (f := fun id => partitionKey id (dagNode dag id).interval
        (dagNode dag id).bucket (some (computeKey env id c))) hid))
    obtain ⟨id', -, heq⟩ := List.mem_map.mp hkey
    obtain ⟨rfl, hck⟩ := partitionKey_inj (computeKey_ne _ _) (computeKey_ne _ _)
      (hash_notMem_computeKey hhex _ _) (hash_notMem_computeKey hhex _ _) heq
    unfold computeKey at hck
    rw [hashPayload_keyContext, hashPayload_keyContext, String.append_right_inj] at hck
    exact hne (hc id' hid c (by simp) c' (by simp) hck.symm)
  · intro hor k
    have hs : dagKeys env dag c = dagKeys env dag c' := by
      rcases hor with hnil | heq
      · simp [dagKeys, hnil]
      · refine List.map_congr_left ?_
        intro id _
        rw [computeKey_congr heq id]
    rw [← hs]
    exact h k

/-! ### Two requests -/

def Differ (c c' : ComputeContext) : Prop :=
  c.worldId ≠ c'.worldId ∨ c.executionDomain ≠ c'.executionDomain ∨ c.asOf ≠ c'.asOf ∨
    c.partition ≠ c'.partition

instance (c c' : ComputeContext) : Decidable (Differ c c') :=
  inferInstanceAs (Decidable (_ ∨ _ ∨ _ ∨ _))

def Made (st st' : State) (id key : String) (b : CachedBinding) : Prop :=
  (st'.bindings id).get? key = some b ∧ (st.bindings id).get? key ≠ some b

def merged (env : Env) (dag : Dag) (request : DiffRequest) : ComputeContext :=
  mergeContext env (extractComputeContext env dag) request

/-- The isolation of two diffs of one DAG: keys and namespace come from the merged contexts, and where
these differ the two share no key and no binding. -/
structure Isolated (env : Env) (dag : Dag) (q₁ q₂ : DiffRequest) (s₁ s₂ : State)
    (r₁ r₂ : DiffPlan × State) : Prop where
  keyed₁ : Keyed env dag (merged env dag q₁) r₁.1
  keyed₂ : Keyed env dag (merged env dag q₂) r₂.1
  ns₁ : resolveNamespace env dag (extractComputeContext env dag) = resolveNamespace env dag (merged env dag q₁)
  ns₂ : resolveNamespace env dag (extractComputeContext env dag) = resolveNamespace env dag (merged env dag q₂)
  disjoint : Differ (merged env dag q₁) (merged env dag q₂) →
    ∀ k ∈ r₁.1.queueMap.keys, k ∉ r₂.1.queueMap.keys
  unshared : Differ (merged env dag q₁) (merged env dag q₂) →
    ∀ id key b b', Made s₁ r₁.2 id key b → ¬ Made s₂ r₂.2 id key b'

/-- The namespace does not hang on the request: namespaces are off, the DAG names its own, or the
context gives the same segments as the DAG's. -/
def NamespaceKept (env : Env) (dag : Dag) (c : ComputeContext) : Prop :=
  env.namespaceEnabled = false ∨
    normalizeNamespace env.u ((dag.metaObj.map (·.topicNamespace)).getD .none) ≠ none ∨
    namespaceOf env dag (extractComputeContext env dag) = namespaceOf env dag c

lemma namespace_kept_iff (c : ComputeContext) :
    resolveNamespace env dag (extractComputeContext env dag) = resolveNamespace env dag c ↔
      NamespaceKept env dag c := by
  unfold NamespaceKept resolveNamespace
  cases env.namespaceEnabled with
  | false => simp
  | true =>
    cases normalizeNamespace env.u ((dag.metaObj.map (·.topicNamespace)).getD .none) with
    | none => simp
    | some ns => simp

lemma bindings_of_no_nodes {request : DiffRequest} {st : State} {r : DiffPlan × State}
    (hl : env.loads request.dagJson = some dag) (h : prepareDiff env request st = .ok r)
    (hids : topologicallyOrderNodes (nodeMap dag) = []) : r.2.bindings = st.bindings := by
  obtain ⟨dag', pre, entries, bindings, out, st₁, hl', hs, hplan, hex, -, -, -, -, hb, -⟩ :=
    prepareDiff_ok h
  obtain rfl : dag = dag' := Option.some.inj (hl.symm.trans hl')
  have hn : pre.nodes = [] := by
    have hlen := congrArg List.length (hs.ids.trans hids)
    rw [List.length_map] at hlen
    exact List.eq_nil_of_length_eq_zero hlen
  rw [hn] at hplan
  cases Except.ok.inj hplan
  obtain ⟨-, rfl⟩ := Prod.mk.inj (Except.ok.inj hex)
  exact hb

lemma shares_key {plan plan' : DiffPlan} {c : ComputeContext} (h : Keyed env dag c plan)
    (h' : Keyed env dag c plan') (hids : topologicallyOrderNodes (nodeMap dag) ≠ []) :
    ∃ k ∈ plan.queueMap.keys, k ∈ plan'.queueMap.keys := by
  have hne : dagKeys env dag c ≠ [] := by
    unfold dagKeys
    simpa using hids
  obtain ⟨k, rest, hc⟩ := List.exists_cons_of_ne_nil hne
  have hk : k ∈ dagKeys env dag c := by simp [hc]
  exact ⟨k, (h k).mpr hk, (h' k).mpr hk⟩

/-- **Isolation of diffs.** Two diffs of one DAG are isolated by their merged contexts exactly when
neither request moves the namespace, and the DAG has no node or neither request changes a hashed value of
the DAG's own context. -/
theorem diff_isolated_iff (hhex : ∀ s, '#' ∉ (env.blake3 s).toList) {q₁ q₂ : DiffRequest} {s₁ s₂ : State}
    {r₁ r₂ : DiffPlan × State}
    (hcoll : NoCollision env dag [extractComputeContext env dag, merged env dag q₁, merged env dag q₂])
    (hload₁ : env.loads q₁.dagJson = some dag) (hload₂ : env.loads q₂.dagJson = some dag)
    (h₁ : prepareDiff env q₁ s₁ = .ok r₁) (h₂ : prepareDiff env q₂ s₂ = .ok r₂) :
    Isolated env dag q₁ q₂ s₁ s₂ r₁ r₂ ↔ (topologicallyOrderNodes (nodeMap dag) = [] ∨
        (hashed env (extractComputeContext env dag) = hashed env (merged env dag q₁) ∧
          hashed env (extractComputeContext env dag) = hashed env (merged env dag q₂) ∧
          ¬ Differ (merged env dag q₁) (merged env dag q₂))) ∧
      NamespaceKept env dag (merged env dag q₁) ∧ NamespaceKept env dag (merged env dag q₂) := by
  have hcoll₁ : NoCollision env dag [extractComputeContext env dag, merged env dag q₁] := by
    intro id hid c hc c' hc'
    exact hcoll id hid c (by grind) c' (by grind)
  have hcoll₂ : NoCollision env dag [extractComputeContext env dag, merged env dag q₂] := by
    intro id hid c hc c' hc'
    exact hcoll id hid c (by grind) c' (by grind)
  have hown₁ := keyed_inferred hload₁ h₁
  have hown₂ := keyed_inferred hload₂ h₂
  have hkeyed₁ := keyed_iff hhex hcoll₁ hown₁
  have hkeyed₂ := keyed_iff hhex hcoll₂ hown₂
  constructor
  · intro h
    refine ⟨?_, (namespace_kept_iff _).mp h.ns₁, (namespace_kept_iff _).mp h.ns₂⟩
    by_cases hids : topologicallyOrderNodes (nodeMap dag) = []
    · exact .inl hids
    · refine .inr ⟨(hkeyed₁.mp h.keyed₁).resolve_left hids, (hkeyed₂.mp h.keyed₂).resolve_left hids, ?_⟩
      intro hdiffer
      obtain ⟨k, hk, hk'⟩ := shares_key hown₁ hown₂ hids
      exact h.disjoint hdiffer k hk hk'
  · rintro ⟨hcond, hns₁, hns₂⟩
    refine ⟨?_, ?_, (namespace_kept_iff _).mpr hns₁, (namespace_kept_iff _).mpr hns₂, ?_, ?_⟩
    · exact hkeyed₁.mpr (hcond.imp_right fun h => h.1)
    · exact hkeyed₂.mpr (hcond.imp_right fun h => h.2.1)
    · intro hdiffer k hk
      rcases hcond with hids | hsame
      · have hnone := (hown₁ k).mp hk
        simp [dagKeys, hids] at hnone
      · exact absurd hdiffer hsame.2.2
    · intro hdiffer id key b b' hmade
      rcases hcond with hids | hsame
      · have hkept := bindings_of_no_nodes hload₁ h₁ hids
        exact absurd (hkept ▸ hmade.1) hmade.2
      · exact absurd hdiffer hsame.2.2

def plainDag : Dag :=
  { nodes := [some {
      nodeId := some "n1", nodeType := "Indicator", codeHash := some "c0de", schemaHash := some "5c4e",
      interval := some 60 }] }

def plainEnv : Env where
  u := Unicode.ascii
  blake3 s :=
    if s = "n1\x1fw1\x1flive\x1f\x1f" then
      "f864b74f3c6a79bb9dedc5532380250fe0e1f7b608b6cea663221ea538ae8cb6"
    else if s = "n1\x1fw2\x1flive\x1f\x1f" then
      "c88f7f3943052ce719c7ff6c989ed3b905eb82fb992155b3674adfeb5b4772b6"
    else "fa6e63077b22c2e9066ac5f2a93e70c5ec441c10f07b6bc4df3b2c70eaa84a1c"
  loads _ := some plainDag
  namespaceEnabled := true

lemma plainEnv_hex (s : String) : '#' ∉ (plainEnv.blake3 s).toList := by
  unfold plainEnv
  dsimp only
  split
  · decide
  · split
    · decide
    · decide

/-- Two requests that leave the DAG's context alone. -/
theorem diff_isolated_without_overrides :
    ∃ r, prepareDiff plainEnv { strategyId := "s", dagJson := "" } State.empty = .ok r ∧
      Isolated plainEnv plainDag { strategyId := "s", dagJson := "" } { strategyId := "s", dagJson := "" }
        State.empty State.empty r r := by
  obtain ⟨r, hr, -⟩ := exists_ok (x := prepareDiff plainEnv { strategyId := "s", dagJson := "" }
    State.empty) (fun _ => true) (by decide +kernel)
  have hsame : hashed plainEnv (extractComputeContext plainEnv plainDag) =
      hashed plainEnv (merged plainEnv plainDag { strategyId := "s", dagJson := "" }) := by
    decide +kernel
  have hcoll : NoCollision plainEnv plainDag [extractComputeContext plainEnv plainDag,
      merged plainEnv plainDag { strategyId := "s", dagJson := "" },
      merged plainEnv plainDag { strategyId := "s", dagJson := "" }] := by
    intro id _ c hc c' hc' _
    simp only [List.mem_cons, List.not_mem_nil, or_false, or_self] at hc hc'
    rcases hc with rfl | rfl <;> rcases hc' with rfl | rfl <;> simp [hsame]
  refine ⟨r, hr, (diff_isolated_iff plainEnv_hex hcoll rfl rfl hr hr).mpr ⟨.inr ⟨hsame, hsame, ?_⟩, ?_, ?_⟩⟩
  · decide +kernel
  · exact .inr (.inr (by decide +kernel))
  · exact .inr (.inr (by decide +kernel))

/-- Requests for two worlds get the same keys. -/
theorem diff_of_two_worlds_not_isolated :
    let q₁ : DiffRequest := ⟨"s", "", some "w1", some "live", none, none, none⟩
    let q₂ : DiffRequest := ⟨"s", "", some "w2", some "live", none, none, none⟩
    ∃ r₁ r₂, prepareDiff plainEnv q₁ State.empty = .ok r₁ ∧ prepareDiff plainEnv q₂ State.empty = .ok r₂ ∧
      (merged plainEnv plainDag q₁).worldId ≠ (merged plainEnv plainDag q₂).worldId ∧
      (∃ k ∈ r₁.1.queueMap.keys, k ∈ r₂.1.queueMap.keys) ∧
      ¬ Isolated plainEnv plainDag q₁ q₂ State.empty State.empty r₁ r₂ := by
  intro q₁ q₂
  obtain ⟨r₁, h₁, -⟩ := exists_ok (x := prepareDiff plainEnv q₁ State.empty) (fun _ => true)
    (by decide +kernel)
  obtain ⟨r₂, h₂, -⟩ := exists_ok (x := prepareDiff plainEnv q₂ State.empty) (fun _ => true)
    (by decide +kernel)
  have hworld : (merged plainEnv plainDag q₁).worldId ≠ (merged plainEnv plainDag q₂).worldId := by
    decide +kernel
  have hload : ∀ text, plainEnv.loads text = some plainDag := fun _ => rfl
  have hshared := shares_key (keyed_inferred (hload _) h₁) (keyed_inferred (hload _) h₂) (by decide +kernel)
  refine ⟨r₁, r₂, h₁, h₂, hworld, hshared, ?_⟩
  intro h
  obtain ⟨k, hk, hk'⟩ := hshared
  exact h.disjoint (.inl hworld) k hk hk'

end Qmtl.DagManager.DiffService

import Qmtl.DagManager.DiffPlan

/-!
The diff of a fresh service, which has no bindings of its own: the repository alone decides which nodes
have a topic, and the broker alone which topics the others get.
-/

namespace Qmtl.DagManager.DiffService

open Lib Foundation

variable {env : Env}

def fresh (st : State) : State := { st with bindings := fun _ => .empty }

/-! ### The plan -/

def record (repo : Repository) (n : NodeInfo) : Option NodeRecord :=
  (repo.getNode n.nodeId).filter fun r => r.codeHash = n.codeHash

def entryOf (repo : Repository) (n : NodeInfo) : PlanEntry :=
  ⟨n, (record repo n).map (·.topic), (record repo n).any fun r => r.schemaHash ≠ n.schemaHash⟩

def Crossed (repo : Repository) (n : NodeInfo) : Prop :=
  ∃ r, record repo n = some r ∧ n.computeKey ∉ r.computeKeys ∧ r.computeKeys ≠ []

lemma record_of_getNode {repo : Repository} {n : NodeInfo} {r : NodeRecord} (h : repo.getNode n.nodeId = some r) :
    record repo n = if r.codeHash = n.codeHash then some r else none := by
  unfold record
  rw [h]
  by_cases hc : r.codeHash = n.codeHash <;> simp [Option.filter, hc]

section Plan

variable {repo : Repository} {context : ComputeContext} {bindings bindings' : String → Dict String CachedBinding}
  {n : NodeInfo}

variable (env repo context) in
lemma planEntry_fresh (hkey : n.computeKey ≠ "") (hown : bindings n.nodeId = .empty) :
    (Crossed repo n ∧ ∃ e, planEntry env repo context bindings n = .error e) ∨
    (¬ Crossed repo n ∧ ∃ b, planEntry env repo context bindings n = .ok (entryOf repo n, b) ∧
      ∀ id ≠ n.nodeId, b id = bindings id) := by
  have hens : ensureComputeKey env n context = n := if_pos hkey
  unfold planEntry
  simp only [hens, hown, Dict.get?_empty]
  cases hget : repo.getNode n.nodeId with
  | none =>
    have hrec : record repo n = none := by simp [record, hget]
    refine .inr ⟨?_, bindings, ?_, fun _ _ => rfl⟩
    · rintro ⟨r, hr, -⟩
      rw [hrec] at hr
      cases hr
    · simp [entryOf, hrec]
  | some r =>
    have hrec := record_of_getNode hget
    dsimp only
    by_cases hcd : r.codeHash = n.codeHash
    · rw [if_pos hcd] at hrec ⊢
      by_cases hcr : n.computeKey ∉ r.computeKeys ∧ r.computeKeys ≠ []
      · refine .inl ⟨⟨r, hrec, hcr⟩, ?_⟩
        rw [if_pos ⟨hcr.1, .inl hcr.2⟩]
        exact ⟨_, rfl⟩
      · refine .inr ⟨?_, ?_⟩
        · rintro ⟨r', hr', hc⟩
          cases hrec.symm.trans hr'
          exact hcr hc
        · rw [if_neg (by
            rintro ⟨hmem, hkeys | ho'⟩
            · exact hcr ⟨hmem, hkeys⟩
            · exact ho'.1 rfl)]
          refine ⟨Function.update bindings n.nodeId (Dict.empty.set n.computeKey
            ⟨r.topic, r.codeHash, r.schemaHash, context⟩), by simp [entryOf, hrec], ?_⟩
          intro id hid
          rw [Function.update_of_ne hid]
    · rw [if_neg hcd] at hrec ⊢
      refine .inr ⟨?_, bindings, by simp [entryOf, hrec], fun _ _ => rfl⟩
      rintro ⟨r', hr', -⟩
      rw [hrec] at hr'
      cases hr'

variable (env repo context bindings) in
/-- **The plan of a fresh service** is that of the repository, unless a record is kept for others. -/
theorem plan_fresh {nodes : List NodeInfo} (hkeys : ∀ n ∈ nodes, n.computeKey ≠ "")
    (hn : (nodes.map (·.nodeId)).Nodup) (hown : ∀ n ∈ nodes, bindings n.nodeId = .empty) :
    ((∃ n ∈ nodes, Crossed repo n) ∧ ∃ e, buildTopicBindingPlan env repo context nodes bindings = .error e) ∨
    ((∀ n ∈ nodes, ¬ Crossed repo n) ∧
      ∃ b, buildTopicBindingPlan env repo context nodes bindings = .ok (nodes.map (entryOf repo), b)) := by
  induction nodes generalizing bindings with
  | nil => exact .inr ⟨by simp, bindings, rfl⟩
  | cons n nodes ih =>
    rw [List.map_cons, List.nodup_cons] at hn
    rcases planEntry_fresh env repo context (hkeys n (by simp)) (hown n (by simp)) with
      ⟨hcr, e, he⟩ | ⟨hcr, b, he, hf⟩
    · exact .inl ⟨⟨n, by simp, hcr⟩, e, by simp [buildTopicBindingPlan, he, bind, Except.bind]⟩
    · -- the entry touched the bindings of its own node only
      have ho' : ∀ m ∈ nodes, b m.nodeId = .empty := by
        intro m hm
        have hne : m.nodeId ≠ n.nodeId := by
          intro heq
          exact hn.1 (heq ▸ List.mem_map_of_mem hm)
        rw [hf _ hne]
        exact hown m (by simp [hm])
      rcases ih b (fun m hm => hkeys m (by simp [hm])) hn.2 ho' with ⟨⟨m, hm, hc⟩, e, herr⟩ | ⟨hall, b', hok⟩
      · exact .inl ⟨⟨m, by simp [hm], hc⟩, e, by simp [buildTopicBindingPlan, he, herr, bind, Except.bind]⟩
      · refine .inr ⟨?_, b', by simp [buildTopicBindingPlan, he, hok, bind, Except.bind, pure, Except.pure]⟩
        intro m hm
        rcases List.mem_cons.mp hm with rfl | hm
        · exact hcr
        · exact hall m hm

end Plan

/-! ### The topics -/

def bindTopics (env : Env) (version : String) (ns : Option String) :
    List PlanEntry → Broker → Except DiffError (List String × Broker)
  | [], broker => .ok ([], broker)
  | e :: plan, broker => do
    let (topic, broker) ← bindTopic env version ns broker e
    let (topics, broker) ← bindTopics env version ns plan broker
    return (topic :: topics, broker)

def bindKeys (repo : Repository) (nodes : List NodeInfo) : Repository :=
  nodes.foldl (fun r n => r.addComputeBinding n.nodeId n.computeKey) repo

section Execute

variable {version : String} {ns : Option String} {context : ComputeContext}

variable {b b' : Broker} {plan : List PlanEntry}

variable {topics : List String}

lemma bindTopics_cons {e : PlanEntry} : bindTopics env version ns (e :: plan) b = .ok (topics, b') ↔
      ∃ t b₁ ts, bindTopic env version ns b e = .ok (t, b₁) ∧
        bindTopics env version ns plan b₁ = .ok (ts, b') ∧ topics = t :: ts := by
  constructor
  · intro h
    obtain ⟨⟨t, b₁⟩, ht, h⟩ := bind_ok.mp h
    obtain ⟨⟨ts, b₂⟩, hts, h⟩ := bind_ok.mp h
    cases pure_ok.mp h
    exact ⟨t, b₁, ts, ht, hts, rfl⟩
  · rintro ⟨t, b₁, ts, ht, hts, rfl⟩
    exact bind_ok.mpr ⟨(t, b₁), ht, bind_ok.mpr ⟨(ts, b'), hts, rfl⟩⟩

lemma length_bindTopics (h : bindTopics env version ns plan b = .ok (topics, b')) :
    topics.length = plan.length := by
  induction plan generalizing b topics with
  | nil =>
    obtain ⟨rfl, -⟩ := Prod.mk.inj (Except.ok.inj h)
    rfl
  | cons e plan ih =>
    obtain ⟨t, b₁, ts, -, hts, rfl⟩ := bindTopics_cons.mp h
    rw [List.length_cons, List.length_cons, ih hts]

lemma bind_of_execute {st st' : State} {out out' : Bound}
    (h : executeTopicBindingPlan env version ns context plan st out = .ok (out', st')) :
    ∃ topics, bindTopics env version ns plan st.broker = .ok (topics, st'.broker) ∧
      out'.queueMap = out.queueMap.update ((plan.map fun e => partitionKeyFor e.node).zip topics) ∧
      st'.repo = bindKeys st.repo (plan.map (·.node)) := by
  induction plan generalizing st out with
  | nil =>
    cases Except.ok.inj h
    exact ⟨[], rfl, rfl, rfl⟩
  | cons e plan ih =>
    obtain ⟨out₁, st₁, he, hr⟩ := execute_cons h
    obtain ⟨topic, hb, hmap, -, hrp⟩ := executeEntry_ok he
    obtain ⟨topics, hts, hout, hr'⟩ := ih hr
    refine ⟨topic :: topics, bindTopics_cons.mpr ⟨topic, _, topics, hb, hts, rfl⟩, ?_, ?_⟩
    · rw [hout, hmap]
      rfl
    · rw [hr', hrp]
      rfl

variable (context) in
lemma execute_of_bind {st : State} (out : Bound)
    (h : bindTopics env version ns plan st.broker = .ok (topics, b)) :
    ∃ out' st', executeTopicBindingPlan env version ns context plan st out = .ok (out', st') := by
  induction plan generalizing st out topics with
  | nil => exact ⟨out, st, rfl⟩
  | cons e plan ih =>
    obtain ⟨t, b₁, ts, ht, hts, rfl⟩ := bindTopics_cons.mp h
    have hen : ∃ out₁ st₁, executeEntry env version ns context st out e = .ok (out₁, st₁) ∧
        st₁.broker = b₁ := ⟨_, _, bind_ok.mpr ⟨(t, b₁), ht, rfl⟩, rfl⟩
    obtain ⟨out₁, st₁, he, rfl⟩ := hen
    obtain ⟨out', st', hr⟩ := ih out₁ hts
    exact ⟨out', st', bind_ok.mpr ⟨(out₁, st₁), he, hr⟩⟩

lemma exists_bindTopic (h : bindTopics env version ns plan b = .ok (topics, b')) :
    ∀ p ∈ plan.zip topics, ∃ b₁ b₂, bindTopic env version ns b₁ p.1 = .ok (p.2, b₂) := by
  induction plan generalizing b topics with
  | nil => simp
  | cons e plan ih =>
    obtain ⟨t, b₁, ts, ht, hts, rfl⟩ := bindTopics_cons.mp h
    intro p hp
    rcases List.mem_cons.mp hp with rfl | hp
    · exact ⟨b, b₁, ht⟩
    · exact ih hts p hp

end Execute

/-! ### The diff -/

def InsertsSentinel (env : Env) (pre : PreScan) (request : DiffRequest) : Prop :=
  pre.sentinelRequested = true ∧ (mergeContext env pre.context request).safeMode = false

/-- What the diff of a fresh service has done. -/
structure FreshDiff (env : Env) (pre : PreScan) (request : DiffRequest) (st : State) (topics : List String)
    (r : DiffPlan × State) : Prop where
  uncrossed : ∀ n ∈ pre.nodes, ¬ Crossed st.repo n
  bound : bindTopics env pre.version pre.ns (pre.nodes.map (entryOf st.repo)) st.broker =
    .ok (topics, r.2.broker)
  queueMap : r.1.queueMap = Dict.ofList ((pre.nodes.map partitionKeyFor).zip topics)
  newNodes : r.1.newNodes = pre.nodes.filter fun n => (record st.repo n).isNone
  inserted : InsertsSentinel env pre request →
    r.2.repo = (bindKeys st.repo pre.nodes).insertSentinel (buildSentinelId request.strategyId)
      (r.1.newNodes.map (·.nodeId))
  kept : ¬ InsertsSentinel env pre request → r.2.repo = bindKeys st.repo pre.nodes

lemma map_node_entryOf (repo : Repository) (nodes : List NodeInfo) :
    (nodes.map (entryOf repo)).map (·.node) = nodes := by
  rw [List.map_map]
  exact List.map_id nodes

lemma newNodes_entryOf (repo : Repository) (nodes : List NodeInfo) :
    ((nodes.map (entryOf repo)).filter (·.needsNewQueue)).map (·.node) =
      nodes.filter fun n => (record repo n).isNone := by
  rw [List.filter_map, List.map_map]
  have hf : ((fun e : PlanEntry => e.needsNewQueue) ∘ entryOf repo) =
      fun n => (record repo n).isNone := by
    funext n
    simp [entryOf, PlanEntry.needsNewQueue]
  rw [hf]
  exact List.map_id _

section Diff

variable {pre : PreScan} {request : DiffRequest} {st : State}

lemma scanned_of_preScan {dagJson : String} (h : preScan env dagJson = .ok pre) :
    (∀ n ∈ pre.nodes, n.computeKey ≠ "") ∧ (pre.nodes.map (·.nodeId)).Nodup := by
  obtain ⟨dag, -, hs⟩ := preScan_ok h
  exact ⟨fun n hn => hs.computeKey_ne hn, hs.nodup⟩

lemma freshDiff_of_ok {r : DiffPlan × State} (hpre : preScan env request.dagJson = .ok pre)
    (h : prepareDiff env request (fresh st) = .ok r) : ∃ topics, FreshDiff env pre request st topics r := by
  obtain ⟨hkeys, hn⟩ := scanned_of_preScan hpre
  obtain ⟨pre', hp', h⟩ := bind_ok.mp h
  cases hpre.symm.trans hp'
  obtain ⟨⟨out, st₁⟩, hcmp, h⟩ := bind_ok.mp h
  obtain ⟨⟨entries, bindings⟩, hplan, hex⟩ := bind_ok.mp hcmp
  obtain rfl := pure_ok.mp h
  rcases plan_fresh env st.repo (mergeContext env pre.context request) (fresh st).bindings hkeys hn
    fun _ _ => rfl with ⟨-, e, herr⟩ | ⟨hunc, b, hok⟩
  · exact absurd (herr.symm.trans hplan) (by simp)
  · obtain ⟨rfl, rfl⟩ := Prod.mk.inj (Except.ok.inj (hok.symm.trans hplan))
    obtain ⟨topics, hb, hmap, hr⟩ := bind_of_execute hex
    rw [map_node_entryOf] at hr
    refine ⟨topics, hunc, hb, ?_, ?_, ?_, ?_⟩
    · rw [List.map_map] at hmap
      exact hmap
    · rw [execute_newNodes hex, List.nil_append, newNodes_entryOf]
    · intro hins
      refine (if_pos hins).trans ?_
      rw [hr]
      rfl
    · intro hins
      refine (if_neg hins).trans ?_
      rw [hr]
      rfl

variable (st) in
lemma freshDiff_exists {topics : List String} {b : Broker} (hpre : preScan env request.dagJson = .ok pre)
    (hunc : ∀ n ∈ pre.nodes, ¬ Crossed st.repo n)
    (hb : bindTopics env pre.version pre.ns (pre.nodes.map (entryOf st.repo)) st.broker = .ok (topics, b)) :
    ∃ r, prepareDiff env request (fresh st) = .ok r ∧ FreshDiff env pre request st topics r := by
  obtain ⟨hkeys, hnd⟩ := scanned_of_preScan hpre
  rcases plan_fresh env st.repo (mergeContext env pre.context request) (fresh st).bindings hkeys hnd
    fun _ _ => rfl with ⟨⟨n, hn, hc⟩, -⟩ | ⟨-, bindings, hok⟩
  · exact absurd hc (hunc n hn)
  · have hbr : bindTopics env pre.version pre.ns (pre.nodes.map (entryOf st.repo))
        { fresh st with bindings := bindings }.broker = .ok (topics, b) := hb
    obtain ⟨out, st₁, hex⟩ := execute_of_bind (mergeContext env pre.context request) ⟨.empty, [], []⟩ hbr
    have hd : ∃ r, prepareDiff env request (fresh st) = .ok r :=
      ⟨_, bind_ok.mpr ⟨pre, hpre, bind_ok.mpr ⟨(out, st₁), bind_ok.mpr ⟨_, hok, hex⟩, rfl⟩⟩⟩
    obtain ⟨r, hr⟩ := hd
    obtain ⟨topics', hf⟩ := freshDiff_of_ok hpre hr
    obtain ⟨rfl, -⟩ := Prod.mk.inj (Except.ok.inj (hb.symm.trans hf.bound))
    exact ⟨r, hr, hf⟩

lemma partitionKeys_nodup (hhex : ∀ s, '#' ∉ (env.blake3 s).toList) {dagJson : String}
    (hpre : preScan env dagJson = .ok pre) : (pre.nodes.map partitionKeyFor).Nodup := by
  obtain ⟨dag, -, hs⟩ := preScan_ok hpre
  have hnd := hs.nodup
  refine List.Nodup.map_on ?_ hnd.of_map
  intro n hn m hm heq
  unfold partitionKeyFor at heq
  rw [hs.keys n hn, hs.keys m hm] at heq
  obtain ⟨hid, -⟩ := partitionKey_inj (computeKey_ne _ _) (computeKey_ne _ _) (hash_notMem_computeKey hhex _ _)
    (hash_notMem_computeKey hhex _ _) heq
  exact List.inj_on_of_nodup_map hnd hn hm hid

lemma length_topics {topics : List String} {r : DiffPlan × State}
    (h : FreshDiff env pre request st topics r) : topics.length = pre.nodes.length := by
  rw [length_bindTopics h.bound, List.length_map]

end Diff

end Qmtl.DagManager.DiffService

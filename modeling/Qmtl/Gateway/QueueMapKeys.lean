import Qmtl.DagManager.DiffPlan
import Qmtl.Gateway.DiffExecutor

/-! The keys of the queue map, from the diff service that writes them to their readers. -/

namespace Qmtl.Gateway

open Lib Foundation DagManager DagManager.DiffService

variable {env : DagManager.Env}

def HashFree (env : DagManager.Env) (dagJson : String) : Prop :=
  ∀ dag, env.loads dagJson = some dag → ∀ id ∈ (nodeMap dag).keys, '#' ∉ id.toList

def BoundTo (c : DiffChunk) (nodeId topic : String) : Prop :=
  ∃ interval bucket computeKey, (partitionKey nodeId interval bucket computeKey, topic) ∈ c.queueMap.entries

def Written (env : DagManager.Env) (c : DiffChunk) : Prop :=
  ∃ request st plan st' rename, HashFree env request.dagJson ∧
    prepareDiff env request st = .ok (plan, st') ∧ c.queueMap = plan.queueMap.mapValues rename

/-! ### The keys of a plan -/

lemma nodeIdFromPartitionKey_partitionKeyFor {n : NodeInfo} (h : '#' ∉ n.nodeId.toList) :
    nodeIdFromPartitionKey (partitionKeyFor n) = n.nodeId :=
  nodeIdFromPartitionKey_partitionKey h _ _ _

lemma scanned_hashFree {dagJson : String} {dag : Dag} {pre : PreScan} (hf : HashFree env dagJson)
    (hl : env.loads dagJson = some dag) (hs : Scanned env dag pre) : ∀ n ∈ pre.nodes, '#' ∉ n.nodeId.toList := by
  intro n hn
  have hid : n.nodeId ∈ topologicallyOrderNodes (nodeMap dag) := by
    rw [← hs.ids]
    exact List.mem_map_of_mem hn
  have hkey : n.nodeId ∈ (inputsOf (nodeMap dag)).keys := (Kahn.order_perm _).subset hid
  refine hf dag hl n.nodeId ?_
  simpa [inputsOf, Dict.keys, Dict.mapValues] using hkey

variable {request : DiffRequest} {plan : DiffPlan} {st st' : State}

lemma plan_entries (hf : HashFree env request.dagJson) (h : prepareDiff env request st = .ok (plan, st')) :
    ∃ (nodes : List NodeInfo) (topics : List String), topics.length = nodes.length ∧
      (nodes.map (·.nodeId)).Nodup ∧ (∀ n ∈ nodes, '#' ∉ n.nodeId.toList ∧ n.computeKey ≠ "") ∧
      plan.queueMap.entries = (nodes.map partitionKeyFor).zip topics ∧ ∀ n ∈ plan.newNodes, n ∈ nodes := by
  obtain ⟨dag, pre, topics, hl, hs, hlen, hmap, hnew⟩ := prepareDiff_queueMap h
  have hplain := scanned_hashFree hf hl hs
  refine ⟨pre.nodes, topics, hlen, hs.nodup,
    fun n hn => ⟨hplain n hn, hs.computeKey_ne hn⟩, ?_, hnew⟩
  rw [hmap]
  refine Dict.entries_ofList ?_
  rw [List.map_fst_zip (by rw [List.length_map]; omega)]
  -- a key tells its node, so different nodes have different keys
  refine List.Nodup.of_map nodeIdFromPartitionKey ?_
  rw [List.map_map]
  have hb : pre.nodes.map (nodeIdFromPartitionKey ∘ partitionKeyFor) = pre.nodes.map (·.nodeId) :=
    List.map_congr_left fun n hn => nodeIdFromPartitionKey_partitionKeyFor (hplain n hn)
  rw [hb]
  exact hs.nodup

structure ReadBack (c : DiffChunk) : Prop where
  nodup : (c.queueMap.entries.map fun e => nodeIdFromPartitionKey e.1).Nodup
  bound : ∀ e ∈ c.queueMap.entries, BoundTo c (nodeIdFromPartitionKey e.1) e.2

lemma readBack_of_written {c : DiffChunk} (h : Written env c) : ReadBack c := by
  obtain ⟨request, st, plan, st', rename, hf, hd, hmap⟩ := h
  obtain ⟨nodes, topics, hlen, hnd, hplain, hen, -⟩ := plan_entries hf hd
  have hzip : (nodes.map partitionKeyFor).length ≤ topics.length := by rw [List.length_map]; omega
  have hkeys : c.queueMap.entries.map Prod.fst = nodes.map partitionKeyFor := by
    rw [hmap]
    show (plan.queueMap.entries.map fun e => (e.1, rename e.2)).map Prod.fst = _
    rw [List.map_map, hen]
    exact List.map_fst_zip hzip
  refine ⟨?_, ?_⟩
  · have hc : (c.queueMap.entries.map fun e => nodeIdFromPartitionKey e.1) =
        (c.queueMap.entries.map Prod.fst).map nodeIdFromPartitionKey := by rw [List.map_map]; rfl
    rw [hc, hkeys, List.map_map]
    have hb : nodes.map (nodeIdFromPartitionKey ∘ partitionKeyFor) = nodes.map (·.nodeId) :=
      List.map_congr_left fun n hn => nodeIdFromPartitionKey_partitionKeyFor (hplain n hn).1
    rw [hb]
    exact hnd
  · intro e he
    have hmem : e.1 ∈ nodes.map partitionKeyFor := by
      rw [← hkeys]
      exact List.mem_map_of_mem he
    obtain ⟨n, hn, hkey⟩ := List.mem_map.mp hmem
    refine ⟨n.interval, n.bucket, some n.computeKey, ?_⟩
    have hr : nodeIdFromPartitionKey e.1 = n.nodeId := by
      rw [← hkey]
      exact nodeIdFromPartitionKey_partitionKeyFor (hplain n hn).1
    rw [hr]
    show (partitionKeyFor n, e.2) ∈ _
    rw [hkey]
    exact he

lemma readsAs_iff_boundTo {c : DiffChunk} (h : ReadBack c) {nodeId topic : String}
    (hid : '#' ∉ nodeId.toList) : ReadsAs c nodeId topic ↔ BoundTo c nodeId topic := by
  constructor
  · rintro ⟨e, he, rfl, rfl⟩
    exact h.bound e he
  · rintro ⟨interval, bucket, key, hmem⟩
    exact ⟨_, hmem, nodeIdFromPartitionKey_partitionKey hid _ _ _, rfl⟩

/-! ### The executor's queue map -/

lemma topics_addChunk_addQueue (m : QueueMap) (c : DiffChunk) (k : String) :
    topics (addChunk addQueue m c) k = topics m k ++
      (c.queueMap.entries.filter fun e => nodeIdFromPartitionKey e.1 = k).map Prod.snd := by
  unfold addChunk
  induction c.queueMap.entries generalizing m with
  | nil => simp
  | cons e es ih =>
    rw [List.foldl_cons, ih, topics_addQueue]
    by_cases hk : k = nodeIdFromPartitionKey e.1
    · simp [hk]
    · have hk' : nodeIdFromPartitionKey e.1 ≠ k := fun h => hk h.symm
      simp [hk, hk']

lemma length_filter_le_one {α : Type} {f : α → String} {l : List α} (h : (l.map f).Nodup) (k : String) :
    (l.filter fun x => f x = k).length ≤ 1 := by
  induction l with
  | nil => simp
  | cons a l ih =>
    rw [List.map_cons, List.nodup_cons] at h
    by_cases hk : f a = k
    · have hnil : (l.filter fun x => f x = k) = [] := by
        rw [List.filter_eq_nil_iff]
        intro x hx hxk
        have hxk : f x = k := by simpa using hxk
        exact h.1 (hk ▸ hxk ▸ List.mem_map_of_mem hx)
      simp [hk, hnil]
    · simpa [hk] using ih h.2

lemma nodup_of_length_le_one {α : Type} {l : List α} (h : l.length ≤ 1) : l.Nodup := by
  match l, h with
  | [], _ => exact List.nodup_nil
  | [a], _ => exact List.nodup_singleton a

def askedWorlds (worlds : List String) (fallback : Option String) : List (Option String) :=
  if 1 < worlds.length then worlds.map some else [worlds.head?.or fallback]

def ListsExactly (m : QueueMap) (received : List DiffChunk) : Prop :=
  ∀ nodeId, '#' ∉ nodeId.toList → (topics m nodeId).Nodup ∧
    ∀ topic, topic ∈ topics m nodeId ↔ ∃ c ∈ received, BoundTo c nodeId topic

lemma run_listsExactly {worlds : List String} {fallback : Option String} {expected : Option ℕ}
    {invoke : Option String → DiffAnswer} {out : DiffOutcome} {m : QueueMap}
    (hwr : ∀ w ∈ askedWorlds worlds fallback, ∀ c, invoke w = .chunk c → ReadBack c)
    (h : diffExecutorRun worlds fallback expected true invoke = .ok out) (hm : out.queueMap = some m) :
    ListsExactly m (chunks ((askedWorlds worlds fallback).map invoke)) := by
  intro nodeId hid
  unfold diffExecutorRun at h
  unfold askedWorlds at hwr ⊢
  by_cases hlen : 1 < worlds.length
  · rw [if_pos ⟨rfl, hlen⟩] at h
    rw [if_pos hlen] at hwr ⊢
    obtain ⟨-, m', hm', hmem, hnd⟩ := aggregate_ok h
    obtain rfl : m = m' := Option.some.inj (hm.symm.trans hm')
    rw [List.map_map]
    refine ⟨hnd nodeId List.nodup_nil, ?_⟩
    intro topic
    rw [hmem]
    simp only [topics_empty, List.not_mem_nil, false_or]
    refine exists_congr fun c => and_congr_right fun hc => ?_
    obtain ⟨w, hw, hcw⟩ := List.mem_map.mp (mem_chunks.mp hc)
    exact readsAs_iff_boundTo (hwr (some w) (List.mem_map_of_mem hw) c hcw) hid
  · rw [if_neg fun h => hlen h.2] at h
    rw [if_neg hlen] at hwr ⊢
    unfold singleWorldExecute at h
    dsimp only at h
    cases ha : invoke (worlds.head?.or fallback) with
    | raised =>
      rw [ha] at h
      cases h
    | nothing =>
      rw [ha] at h
      cases h
      have hempty : m = .empty := by
        split at hm
        · exact (Option.some.inj hm).symm
        · cases hm
      subst hempty
      simp [chunks, ha]
    | chunk c =>
      rw [ha] at h
      obtain ⟨_, -, h⟩ := bind_ok.mp h
      obtain rfl := pure_ok.mp h
      obtain rfl : addChunk addQueue .empty c = m := Option.some.inj hm
      have hb : ReadBack c := hwr _ (by simp) c ha
      refine ⟨?_, ?_⟩
      · rw [topics_addChunk_addQueue, topics_empty, List.nil_append]
        refine nodup_of_length_le_one ?_
        rw [List.length_map]
        exact length_filter_le_one hb.nodup nodeId
      · intro topic
        rw [mem_topics_addChunk adds_addQueue, readsAs_iff_boundTo hb hid]
        simp [chunks, ha]

/-! ### What is published for new nodes -/

def exactUpdate (queueMap : Dict String String) (node : NodeInfo) : Option QueueUpdate :=
  node.interval.bind fun interval =>
    if node.tags = [] then none
    else some ⟨node.tags, interval, (queueMap.get? (partitionKeyFor node)).toList.map fun t => (t, false),
      "any"⟩

def Announced (node : NodeInfo) : Prop := node.tags ≠ [] ∧ node.interval ≠ none

lemma filterMap_congr_iff {α β : Type} {f g : α → Option β} {l : List α}
    (hdom : ∀ x ∈ l, (f x).isSome = (g x).isSome) : l.filterMap f = l.filterMap g ↔ ∀ x ∈ l, f x = g x := by
  constructor
  · intro h
    induction l with
    | nil => simp
    | cons a l ih =>
      have hr : ∀ x ∈ l, (f x).isSome = (g x).isSome := fun x hx => hdom x (by simp [hx])
      cases hf : f a with
      | none =>
        have hg : g a = none := by simpa [hf] using hdom a (by simp)
        rw [List.filterMap_cons_none hf, List.filterMap_cons_none hg] at h
        intro x hx
        rcases List.mem_cons.mp hx with rfl | hx
        · rw [hf, hg]
        · exact ih hr h x hx
      | some b =>
        obtain ⟨b', hg⟩ : ∃ b', g a = some b' := Option.isSome_iff_exists.mp (by
          rw [← hdom a (by simp), hf]
          rfl)
        rw [List.filterMap_cons_some hf, List.filterMap_cons_some hg, List.cons.injEq] at h
        intro x hx
        rcases List.mem_cons.mp hx with rfl | hx
        · rw [hf, hg, h.1]
        · exact ih hr h.2 x hx
  · intro h
    exact List.filterMap_congr h

lemma lookup_newNode (hf : HashFree env request.dagJson) (h : prepareDiff env request st = .ok (plan, st'))
    {node : NodeInfo} (hnd : node ∈ plan.newNodes) :
    plan.queueMap.get? node.nodeId = none ∧ ∃ topic, plan.queueMap.get? (partitionKeyFor node) = some topic := by
  obtain ⟨nodes, topics, hlen, -, hplain, hen, hnew⟩ := plan_entries hf h
  have hkeys : plan.queueMap.keys = nodes.map partitionKeyFor := by
    rw [Dict.keys, hen, List.map_fst_zip (by rw [List.length_map]; omega)]
  refine ⟨?_, ?_⟩
  · rw [Dict.get?_eq_none, hkeys]
    intro hmem
    obtain ⟨n, hn, hkey⟩ := List.mem_map.mp hmem
    refine (hplain node (hnew node hnd)).1 ?_
    rw [← hkey]
    exact hash_mem_partitionKey _ _ _ (hplain n hn).2
  · have hmem : partitionKeyFor node ∈ plan.queueMap.keys := by
      rw [hkeys]
      exact List.mem_map_of_mem (hnew node hnd)
    by_contra hnn
    push Not at hnn
    have hget : plan.queueMap.get? (partitionKeyFor node) = none := Option.eq_none_iff_forall_ne_some.mpr hnn
    exact Dict.get?_eq_none.mp hget hmem

lemma publish_exact_iff
    (hf : HashFree env request.dagJson) (h : prepareDiff env request st = .ok (plan, st')) (bus : Bool)
    {newNodes : List NodeInfo} (hsub : ∀ n ∈ newNodes, n ∈ plan.newNodes) :
    publishNewNodeUpdates bus plan.queueMap newNodes =
        (if bus then newNodes.filterMap (exactUpdate plan.queueMap) else []) ↔
      ¬ (bus ∧ ∃ n ∈ newNodes, Announced n) := by
  cases bus with
  | false => simp [publishNewNodeUpdates]
  | true =>
    unfold publishNewNodeUpdates exactUpdate
    simp only [if_true, true_and]
    rw [filterMap_congr_iff]
    · constructor
      · rintro hall ⟨n, hn, ht, hin⟩
        obtain ⟨i, hi⟩ := Option.ne_none_iff_exists'.mp hin
        obtain ⟨hnn, topic, htp⟩ := lookup_newNode hf h (hsub n hn)
        have heq := hall n hn
        simp [hi, ht, hnn, htp] at heq
      · intro hnn n hn
        by_cases ht : n.tags = []
        · simp [ht]
        · have hin : n.interval = none := by
            by_contra hi
            exact hnn ⟨n, hn, ht, hi⟩
          simp [hin]
    · intro n _
      cases n.interval with
      | none => rfl
      | some i => by_cases ht : n.tags = [] <;> simp [ht]

/-- **Readers of the queue map.** Partition keys are read back as their nodes; the gateway's queue map
lists for each node the topics bound to it in the received chunks, each once; and the updates published
for the new nodes of a chunk name the topics bound to them exactly when there is none to publish. -/
theorem queueMap_keys_readers (env : DagManager.Env) :
    (∀ (nodeId : String), '#' ∉ nodeId.toList → ∀ interval bucket computeKey,
      nodeIdFromPartitionKey (partitionKey nodeId interval bucket computeKey) = nodeId) ∧
    (∀ (worlds : List String) (fallback : Option String) (expected : Option ℕ)
      (invoke : Option String → DiffAnswer) (out : DiffOutcome) (m : QueueMap),
      (∀ w ∈ askedWorlds worlds fallback, ∀ c, invoke w = .chunk c → Written env c) →
      diffExecutorRun worlds fallback expected true invoke = .ok out → out.queueMap = some m →
        ListsExactly m (chunks ((askedWorlds worlds fallback).map invoke))) ∧
    (∀ (bus : Bool) (request : DiffRequest) (st st' : State) (plan : DiffPlan) (newNodes : List NodeInfo),
      HashFree env request.dagJson → prepareDiff env request st = .ok (plan, st') →
      (∀ n ∈ newNodes, n ∈ plan.newNodes) → (publishNewNodeUpdates bus plan.queueMap newNodes =
            (if bus then newNodes.filterMap (exactUpdate plan.queueMap) else []) ↔
          ¬ (bus = true ∧ ∃ n ∈ newNodes, Announced n))) := by
  refine ⟨?_, ?_, ?_⟩
  · intro nodeId hid interval bucket computeKey
    exact nodeIdFromPartitionKey_partitionKey hid interval bucket computeKey
  · intro worlds fallback expected invoke out m hwritten h hm
    exact run_listsExactly (fun w hw c hc => readBack_of_written (hwritten w hw c hc)) h hm
  · intro bus request st st' plan newNodes hfree h hsub
    exact publish_exact_iff hfree h bus hsub

def loneNodeEnv : DagManager.Env where
  u := Unicode.ascii
  blake3 _ := "fa6e63077b22c2e9066ac5f2a93e70c5ec441c10f07b6bc4df3b2c70eaa84a1c"
  loads _ := some { nodes := [some {
    nodeId := some "n1", nodeType := "Indicator", codeHash := some "c0de", schemaHash := some "5c4e",
    interval := some 60, tags := ["btc"] }] }
  namespaceEnabled := true

lemma loneNode_hashFree : HashFree loneNodeEnv "" := by
  intro dag hl id hid
  cases hl
  have hid : id ∈ ["n1"] := hid
  rw [List.mem_singleton] at hid
  subst hid
  decide

/-- The diff of one new node: its update is the exact one only if it has no tags or no interval. -/
theorem queueMap_keys_readers_loneNode :
    ∃ r, prepareDiff loneNodeEnv { strategyId := "s", dagJson := "" } State.empty = .ok r ∧
      (publishNewNodeUpdates true r.1.queueMap r.1.newNodes =
          r.1.newNodes.filterMap (exactUpdate r.1.queueMap) ↔
        ¬ (true ∧ ∃ n ∈ r.1.newNodes, Announced n)) := by
  obtain ⟨r, hr, -⟩ := exists_ok (x := prepareDiff loneNodeEnv { strategyId := "s", dagJson := "" }
    State.empty) (fun r => r.1.newNodes.length = 1) (by decide +kernel)
  exact ⟨r, hr, (queueMap_keys_readers loneNodeEnv).2.2 true _ _ r.2 r.1 r.1.newNodes loneNode_hashFree hr
    fun _ hn => hn⟩

/-- The new node is bound to a topic, and the update published for it names no queue. -/
theorem update_names_no_queue :
    ∃ r, prepareDiff loneNodeEnv { strategyId := "s", dagJson := "" } State.empty = .ok r ∧
      publishNewNodeUpdates true r.1.queueMap r.1.newNodes = [⟨["btc"], 60, [], "any"⟩] ∧
      publishNewNodeUpdates true r.1.queueMap r.1.newNodes ≠
        r.1.newNodes.filterMap (exactUpdate r.1.queueMap) := by
  obtain ⟨r, hr, h⟩ := exists_ok (x := prepareDiff loneNodeEnv { strategyId := "s", dagJson := "" }
    State.empty) (fun r => publishNewNodeUpdates true r.1.queueMap r.1.newNodes = [⟨["btc"], 60, [], "any"⟩] ∧
      publishNewNodeUpdates true r.1.queueMap r.1.newNodes ≠
        r.1.newNodes.filterMap (exactUpdate r.1.queueMap)) (by decide +kernel)
  exact ⟨r, hr, of_decide_eq_true h⟩

end Qmtl.Gateway

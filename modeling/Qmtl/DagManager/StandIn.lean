import Qmtl.DagManager.RepositoryViews

/-!
When the in-memory repository stands in for Neo4j. The two agree on a view of a query as long as the operations before it
meet a condition on what is stored; without it they part.
-/

namespace Qmtl.DagManager.Repositories

open Lib

/-! ### What an operation does to the store -/

namespace Neo4j

variable (s : Store)

lemma get?_setNode (x : String) (f : ComputeNode → ComputeNode) (id : String) :
    (setNode s x f).get? id = if id = x then (s.get? x).map f else s.get? id := by
  unfold setNode
  cases h : s.get? x with
  | none =>
    by_cases hid : id = x
    · rw [if_pos hid, hid]
      exact h
    · rw [if_neg hid]
  | some c => exact Dict.get?_set s x id _

lemma since_markBuffering (x : String) (computeKey : Option String) (t : Option ℤ) (now : ℤ) (id : String) :
    since (markBuffering s x computeKey t now) id =
      if id = x ∧ x ∈ s.keys then (since s id).or (some (stamp t now)) else since s id := by
  unfold since markBuffering
  rw [get?_setNode]
  by_cases hid : id = x
  · subst hid
    cases hget : s.get? id with
    | none =>
      have hnot := Dict.get?_eq_none.mp hget
      simp [hnot]
    | some c =>
      have hmem : id ∈ s.keys := by
        by_contra hnot
        rw [Dict.get?_eq_none.mpr hnot] at hget
        cases hget
      simp [hmem]
  · simp [hid]

lemma since_clearBuffering (x : String) (computeKey : Option String) (id : String) :
    since (clearBuffering s x computeKey) id = if id = x then none else since s id := by
  unfold since clearBuffering
  rw [get?_setNode]
  by_cases hid : id = x
  · subst hid
    cases s.get? id <;> simp
  · simp [hid]

lemma since_addComputeBinding (x key : String) (id : String) :
    since (addComputeBinding s x key) id = since s id := by
  unfold since addComputeBinding
  split
  · rfl
  · rw [get?_setNode]
    by_cases hid : id = x
    · subst hid
      cases s.get? id <;> simp
    · simp [hid]

lemma recordOf_setNode_since (x : String) (f : ComputeNode → Option ℤ) (id : String) :
    recordOf (setNode s x fun c => { c with bufferingSince := f c }) id = recordOf s id := by
  unfold recordOf
  rw [get?_setNode]
  by_cases hid : id = x
  · subst hid
    rw [if_pos rfl]
    cases s.get? id with
    | none => rfl
    | some c => rfl
  · simp [hid]

lemma recordOf_addComputeBinding (x key : String) (id : String) : recordOf (addComputeBinding s x key) id =
      if key ≠ "" ∧ id = x then (recordOf s id).map (·.bind key) else recordOf s id := by
  unfold recordOf addComputeBinding
  by_cases hkey : key = ""
  · simp [hkey]
  · rw [if_neg hkey, get?_setNode]
    by_cases hid : id = x
    · subst hid
      rw [if_pos rfl, if_pos ⟨hkey, rfl⟩]
      cases s.get? id with
      | none => rfl
      | some c =>
        rw [Option.map_some, Option.bind_some, Option.bind_some, Option.map_map]
        refine congrArg (fun f => c.emits.getLast?.map f) (funext fun q => ?_)
        cases hkeys : c.computeKeys with
        | none => simp [record, NodeRecord.bind, hkeys]
        | some keys =>
          by_cases hmem : key ∈ keys
          · simp [record, NodeRecord.bind, hkeys, hmem]
          · simp [record, NodeRecord.bind, hkeys, hmem]
    · simp [hid]

lemma getQueuesByTag_setNode (x : String) {f : ComputeNode → ComputeNode}
    (hf : ∀ c, (f c).tags = c.tags ∧ (f c).isGlobal = c.isGlobal ∧ (f c).emits = c.emits) (tags : List String)
    (interval : ℤ) (matchMode : String) :
    getQueuesByTag (setNode s x f) tags interval matchMode = getQueuesByTag s tags interval matchMode := by
  unfold setNode
  cases hget : s.get? x with
  | none => rfl
  | some c =>
    obtain ⟨ht, hg, hem⟩ := hf c
    have hmap := Dict.map_entries_set
      (fun e : String × ComputeNode => (e.2.tags, e.2.isGlobal, e.2.emits)) (v := f c) hget
      (by simp [ht, hg, hem])
    have hr : ∀ s : Store, getQueuesByTag s tags interval matchMode = if tags = [] then [] else
        (s.entries.map fun e => (e.2.tags, e.2.isGlobal, e.2.emits)).flatMap fun row => row.2.2.filterMap fun q =>
          if matchesTags tags matchMode row.1 && q.interval = some interval then some (q.topic, row.2.1.getD false)
          else none := by
      intro s
      unfold getQueuesByTag emitting
      rw [List.filterMap_flatMap, List.flatMap_map]
      simp only [List.filterMap_map, Function.comp_def]
    rw [hr, hr, hmap]

lemma getQueuesByTag_neo4j (op : Op) (tags : List String) (interval : ℤ) (matchMode : String) :
    getQueuesByTag (op.neo4j s) tags interval matchMode = getQueuesByTag s tags interval matchMode := by
  cases op with
  | markBuffering x computeKey t now =>
    refine getQueuesByTag_setNode s x ?_ tags interval matchMode
    exact fun _ => ⟨rfl, rfl, rfl⟩
  | clearBuffering x computeKey =>
    refine getQueuesByTag_setNode s x ?_ tags interval matchMode
    exact fun _ => ⟨rfl, rfl, rfl⟩
  | addComputeBinding x key =>
    rw [Op.neo4j, addComputeBinding]
    split
    · rfl
    · refine getQueuesByTag_setNode s x ?_ tags interval matchMode
      exact fun _ => ⟨rfl, rfl, rfl⟩
  | insertSentinel sentinelId ids version => rfl

end Neo4j

/-! ### Views -/

/-- What a query asks about: the marks under a compute key, the record of a node, or the queues of some tags. -/
inductive View
  | buffering (computeKey : Option String)
  | node (nodeId : String)
  | queues (tags : List String) (interval : ℤ) (matchMode : String)

/-- Both repositories answer the same to every query about the view. -/
def View.Same (g : Memory.Graph) (s : Neo4j.Store) : View → Prop
  | .buffering computeKey => ∀ cutoff, (Query.bufferingNodes cutoff computeKey).Same g s
  | .node nodeId => (Query.nodes [nodeId]).Same g s
  | .queues tags interval matchMode => (Query.queuesByTag tags interval matchMode).Same g s

def Query.views : Query → List View
  | .bufferingNodes _ computeKey => [.buffering computeKey]
  | .nodes nodeIds => nodeIds.map .node
  | .queuesByTag tags interval matchMode => [.queues tags interval matchMode]

structure Stored where
  records : List NodeRecord
  nodup : (records.map (·.nodeId)).Nodup

def View.StartOk (stored : Stored) : View → Prop
  | .buffering _ => True
  | .node nodeId => ∀ r ∈ stored.records, r.nodeId = nodeId → r.isGlobal = false ∧ r.bucket = none
  | .queues tags interval _ => tags = [] → ∀ r ∈ stored.records, r.interval ≠ some interval

def otherMarks (g : Memory.Graph) (seenKey computeKey : Option String) (id : String) : Set ℤ :=
  {v | ∃ slot, slot ≠ given computeKey ∧ Memory.Sees seenKey slot ∧ Memory.markOf g id slot = some v}

/-- What has to hold before an operation for the view to stay the same. -/
def View.StepOk (g : Memory.Graph) (s : Neo4j.Store) : View → Op → Prop
  | .buffering seenKey, .markBuffering x computeKey t now =>
    (Memory.Sees seenKey (given computeKey) → x ∈ g.keys →
      x ∈ s.keys ∧ ∀ first ∈ Neo4j.since s x, first ≤ stamp t now ∧
        (stamp t now = first ∨ first ∈ otherMarks g seenKey computeKey x)) ∧
    (¬ Memory.Sees seenKey (given computeKey) → x ∈ s.keys → Neo4j.since s x ≠ none)
  | .buffering seenKey, .clearBuffering x computeKey =>
    given computeKey ≠ none → otherMarks g seenKey computeKey x = ∅
  | .node nodeId, .addComputeBinding x computeKey => x = nodeId → computeKey ≠ "" → x ∈ g.keys
  | .node nodeId, .insertSentinel sentinelId _ _ => sentinelId = nodeId → Memory.recordOf g nodeId = none
  | .queues tags interval matchMode, .insertSentinel sentinelId _ _ =>
    (g.get? sentinelId).bind (Memory.row tags interval matchMode) = none
  | _, _ => True

def Stored.after (stored : Stored) (ops : List Op) : Memory.Graph × Neo4j.Store :=
  (ops.foldl Op.memory (memoryOf stored.records), ops.foldl Op.neo4j (neo4jOf stored.records))

variable {g : Memory.Graph} {s : Neo4j.Store}

lemma same_buffering {computeKey : Option String} : (View.buffering computeKey).Same g s ↔
      ∀ id, Earliest (Memory.marks g computeKey id) (Neo4j.since s id) := by
  have hc : ∀ cutoff, (Query.bufferingNodes cutoff computeKey).Same g s ↔
      ∀ id, (∃ v ∈ Memory.marks g computeKey id, v < cutoff) ↔ ∃ v ∈ Neo4j.since s id, v < cutoff := by
    intro cutoff
    refine (List.perm_ext_iff_of_nodup (Memory.nodup_getBufferingNodes g cutoff computeKey)
      (Neo4j.nodup_getBufferingNodes s cutoff computeKey)).trans (forall_congr' fun id => ?_)
    rw [Memory.mem_getBufferingNodes, Neo4j.mem_getBufferingNodes]
  unfold View.Same
  simp only [hc, ← earliest_iff]
  exact forall_comm

lemma same_nodes {ids : List String} :
    (Query.nodes ids).Same g s ↔ ∀ id ∈ ids, Memory.recordOf g id = Neo4j.recordOf s id := by
  refine forall_congr' fun id => ?_
  rw [Memory.get?_getNodes, Neo4j.get?_getNodes]
  by_cases hid : id ∈ ids
  · simp [hid]
  · simp [hid]

lemma same_node {id : String} : (View.node id).Same g s ↔ Memory.recordOf g id = Neo4j.recordOf s id := by
  rw [View.Same, same_nodes]
  exact ⟨fun h => h id (List.mem_singleton_self id), fun h i hi => List.mem_singleton.mp hi ▸ h⟩

lemma Query.same_of_views {q : Query} (h : ∀ view ∈ q.views, view.Same g s) : q.Same g s := by
  cases q with
  | bufferingNodes cutoff computeKey => exact h _ (List.mem_singleton_self _) cutoff
  | nodes ids =>
    exact same_nodes.mpr fun id hid => same_node.mp (h _ (List.mem_map_of_mem hid))
  | queuesByTag tags interval matchMode => exact h _ (List.mem_singleton_self _)

/-! ### One operation -/

section Step

variable {g : Memory.Graph} {s : Neo4j.Store}

lemma earliest_insert_iff {before others : Set ℤ} {first : Option ℤ} {ts : ℤ} (h : Earliest before first)
    (hsub : others ⊆ before) :
    Earliest (insert ts others) (first.or (some ts)) ↔ ∀ v ∈ first, v ≤ ts ∧ (ts = v ∨ v ∈ others) := by
  cases first with
  | none =>
    have hn : others = ∅ := Set.subset_eq_empty hsub h
    rw [hn]
    refine ⟨fun _ v hv => absurd hv (Option.not_mem_none v), fun _ => ?_⟩
    simp [Earliest, isLeast_singleton]
  | some first =>
    simp only [Option.some_or, Option.mem_some_iff, forall_eq']
    constructor
    · rintro ⟨hmem, hlow⟩
      exact ⟨hlow (Set.mem_insert ts others), hmem.imp Eq.symm id⟩
    · rintro ⟨hle, hmem⟩
      refine ⟨hmem.imp Eq.symm id, ?_⟩
      rintro v (rfl | hv)
      · exact hle
      · exact h.2 (hsub hv)

lemma otherMarks_subset (seenKey computeKey : Option String) (id : String) :
    otherMarks g seenKey computeKey id ⊆ Memory.marks g seenKey id :=
  fun _ ⟨slot, _, hs, hv⟩ => ⟨slot, hs, hv⟩

variable {op : Op} {seenKey : Option String} {x : String}

variable {computeKey : Option String}

lemma marks_markBuffering_self (hx : x ∈ g.keys)
    (hss : Memory.Sees seenKey (given computeKey)) (t : Option ℤ) (now : ℤ) :
    Memory.marks (Memory.markBuffering g x computeKey t now) seenKey x =
      insert (stamp t now) (otherMarks g seenKey computeKey x) := by
  unfold Memory.marks
  simp only [Memory.markOf_markBuffering]
  ext v
  constructor
  · rintro ⟨slot, hs, hv⟩
    by_cases hsm : slot = given computeKey
    · rw [if_pos ⟨trivial, hx, hsm⟩] at hv
      exact .inl (Option.some.inj hv).symm
    · rw [if_neg fun h => hsm h.2.2] at hv
      exact .inr ⟨slot, hsm, hs, hv⟩
  · rintro (rfl | ⟨slot, hne, hs, hv⟩)
    · exact ⟨given computeKey, hss, if_pos ⟨trivial, hx, rfl⟩⟩
    · refine ⟨slot, hs, ?_⟩
      rw [if_neg fun h => hne h.2.2]
      exact hv

lemma marks_markBuffering_other {id : String}
    (h : ¬ (id = x ∧ x ∈ g.keys ∧ Memory.Sees seenKey (given computeKey))) (t : Option ℤ) (now : ℤ) :
    Memory.marks (Memory.markBuffering g x computeKey t now) seenKey id = Memory.marks g seenKey id := by
  unfold Memory.marks
  simp only [Memory.markOf_markBuffering]
  ext v
  refine exists_congr fun slot => and_congr_right fun hs => ?_
  rw [if_neg]
  rintro ⟨hid, hmem, rfl⟩
  exact h ⟨hid, hmem, hs⟩

lemma marks_clearBuffering (seenKey : Option String) (x : String) (computeKey : Option String) (id : String) :
    Memory.marks (Memory.clearBuffering g x computeKey) seenKey id =
      if id = x then if given computeKey = none then ∅ else otherMarks g seenKey computeKey id
      else Memory.marks g seenKey id := by
  unfold Memory.marks otherMarks
  simp only [Memory.markOf_clearBuffering]
  by_cases hid : id = x
  · rw [if_pos hid]
    by_cases hn : given computeKey = none
    · simp [hid, hn]
    · rw [if_neg hn]
      ext v
      refine exists_congr fun slot => ?_
      by_cases hs : slot = given computeKey
      · simp [hid, hs]
      · simp [hid, hs, hn]
  · simp [hid]

def Covered (g : Memory.Graph) (s : Neo4j.Store) : Prop := ∀ id ∈ s.keys, id ∈ g.keys

lemma same_mark_iff {t : Option ℤ} {now : ℤ} (hcov : Covered g s) (h : (View.buffering seenKey).Same g s) :
    (View.buffering seenKey).Same (Memory.markBuffering g x computeKey t now)
        (Neo4j.markBuffering s x computeKey t now) ↔
      (View.buffering seenKey).StepOk g s (.markBuffering x computeKey t now) := by
  rw [same_buffering] at h ⊢
  have hx : (∀ id, Earliest (Memory.marks (Memory.markBuffering g x computeKey t now) seenKey id)
      (Neo4j.since (Neo4j.markBuffering s x computeKey t now) id)) ↔
      Earliest (Memory.marks (Memory.markBuffering g x computeKey t now) seenKey x)
        (if x ∈ s.keys then (Neo4j.since s x).or (some (stamp t now)) else Neo4j.since s x) := by
    simp only [Neo4j.since_markBuffering]
    constructor
    · intro hall
      simpa using hall x
    · intro hone id
      by_cases hid : id = x
      · subst hid
        simpa using hone
      · rw [if_neg fun hc => hid hc.1, marks_markBuffering_other fun hc => hid hc.1]
        exact h id
  rw [hx]
  unfold View.StepOk
  by_cases hss : Memory.Sees seenKey (given computeKey)
  · by_cases hg : x ∈ g.keys
    · rw [marks_markBuffering_self hg hss]
      by_cases hs : x ∈ s.keys
      · rw [if_pos hs, earliest_insert_iff (h x) (otherMarks_subset seenKey computeKey x)]
        simp [hss, hg, hs]
      · have hsn : Neo4j.since s x = none := by simp [Neo4j.since, Dict.get?_eq_none.mpr hs]
        have hp : ¬ Earliest (insert (stamp t now) (otherMarks g seenKey computeKey x)) none :=
          (Set.insert_nonempty _ _).ne_empty
        rw [if_neg hs, hsn]
        simp [hss, hg, hs, hp]
    · have hs : x ∉ s.keys := fun hs => hg (hcov x hs)
      rw [marks_markBuffering_other fun hc => hg hc.2.1, if_neg hs]
      simp [hg, hs, h x]
  · rw [marks_markBuffering_other fun hc => hss hc.2.2]
    by_cases hs : x ∈ s.keys
    · cases hsn : Neo4j.since s x with
      | none =>
        have hempty := h x
        rw [hsn] at hempty
        have hp : ¬ Earliest (Memory.marks g seenKey x) (some (stamp t now)) := by
          rw [show Memory.marks g seenKey x = ∅ from hempty]
          exact fun hc => hc.1
        simp [hss, hs, hp, hsn]
      | some first =>
        have hfirst := h x
        rw [hsn] at hfirst
        simp [hss, hfirst, hsn]
    · simp [hss, hs, h x]

lemma same_clear_iff (h : (View.buffering seenKey).Same g s) :
    (View.buffering seenKey).Same (Memory.clearBuffering g x computeKey) (Neo4j.clearBuffering s x computeKey) ↔
      (View.buffering seenKey).StepOk g s (.clearBuffering x computeKey) := by
  rw [same_buffering] at h ⊢
  simp only [marks_clearBuffering, Neo4j.since_clearBuffering, View.StepOk]
  constructor
  · intro hall hg
    have hx := hall x
    rw [if_pos rfl, if_neg hg, if_pos rfl] at hx
    exact hx
  · intro hok id
    by_cases hid : id = x
    · rw [if_pos hid, if_pos hid]
      by_cases hg : given computeKey = none
      · rw [if_pos hg]
        rfl
      · rw [if_neg hg, hid]
        exact hok hg
    · rw [if_neg hid, if_neg hid]
      exact h id

lemma marks_congr {g g' : Memory.Graph} (seenKey : Option String) (id : String)
    (h : ∀ slot, Memory.markOf g' id slot = Memory.markOf g id slot) :
    Memory.marks g' seenKey id = Memory.marks g seenKey id := by
  unfold Memory.marks
  simp [h]

lemma same_buffering_step (hcov : Covered g s) (h : (View.buffering seenKey).Same g s) :
    (View.buffering seenKey).Same (op.memory g) (op.neo4j s) ↔ (View.buffering seenKey).StepOk g s op := by
  cases op with
  | markBuffering x computeKey t now => exact same_mark_iff hcov h
  | clearBuffering x computeKey => exact same_clear_iff h
  | addComputeBinding x key =>
    refine ⟨fun _ => trivial, fun _ => ?_⟩
    rw [same_buffering] at h ⊢
    intro id
    unfold Op.memory Op.neo4j
    rw [marks_congr seenKey id fun slot => Memory.markOf_addComputeBinding g x key id slot,
      Neo4j.since_addComputeBinding]
    exact h id
  | insertSentinel sentinelId ids version =>
    refine ⟨fun _ => trivial, fun _ => ?_⟩
    rw [same_buffering] at h ⊢
    intro id
    unfold Op.memory Op.neo4j
    rw [marks_congr seenKey id fun slot => Memory.markOf_insertSentinel g sentinelId ids id slot]
    exact h id

lemma same_node_step {id : String} (h : (View.node id).Same g s) :
    (View.node id).Same (op.memory g) (op.neo4j s) ↔ (View.node id).StepOk g s op := by
  rw [same_node] at h ⊢
  cases op with
  | markBuffering x computeKey t now =>
    refine ⟨fun _ => trivial, fun _ => ?_⟩
    unfold Op.memory Op.neo4j Neo4j.markBuffering
    rw [Memory.recordOf_markBuffering, Neo4j.recordOf_setNode_since]
    exact h
  | clearBuffering x computeKey =>
    refine ⟨fun _ => trivial, fun _ => ?_⟩
    unfold Op.memory Op.neo4j Neo4j.clearBuffering
    rw [Memory.recordOf_clearBuffering, Neo4j.recordOf_setNode_since]
    exact h
  | addComputeBinding x key =>
    unfold Op.memory Op.neo4j View.StepOk
    rw [Neo4j.recordOf_addComputeBinding, ← h]
    by_cases hx : x ∈ g.keys
    · rw [Memory.recordOf_addComputeBinding g hx]
      exact ⟨fun _ _ _ => hx, fun _ => rfl⟩
    · have hget := Dict.get?_eq_none.mpr hx
      by_cases hs : key ≠ "" ∧ id = x
      · -- the graph has a node now, and the store has none
        obtain ⟨hkey, rfl⟩ := hs
        have hn : Memory.recordOf g id = none := by simp [Memory.recordOf, hget]
        have hsm : Memory.recordOf (Memory.addComputeBinding g id key) id ≠ none := by
          unfold Memory.recordOf
          rw [Memory.get?_addComputeBinding, if_pos ⟨hkey, rfl⟩, hget]
          simp [Memory.bindData]
        rw [if_pos ⟨hkey, rfl⟩, hn]
        exact ⟨fun hc => absurd hc hsm, fun hc => absurd (hc rfl hkey) hx⟩
      · have hk : Memory.recordOf (Memory.addComputeBinding g x key) id = Memory.recordOf g id := by
          unfold Memory.recordOf
          rw [Memory.get?_addComputeBinding, if_neg hs]
        rw [if_neg hs, hk]
        exact ⟨fun _ hid hkey => absurd ⟨hkey, hid.symm⟩ hs, fun _ => rfl⟩
  | insertSentinel sentinelId ids version =>
    unfold Op.memory Op.neo4j View.StepOk Neo4j.insertSentinel
    rw [Memory.recordOf_insertSentinel, ← h]
    by_cases hid : id = sentinelId
    · rw [if_pos hid]
      exact ⟨fun hc _ => hc.symm, fun hc => (hc hid.symm).symm⟩
    · rw [if_neg hid]
      exact ⟨fun _ hc => absurd hc.symm hid, fun _ => rfl⟩

lemma same_queues_step {tags : List String} {interval : ℤ} {matchMode : String}
    (h : (View.queues tags interval matchMode).Same g s) :
    (View.queues tags interval matchMode).Same (op.memory g) (op.neo4j s) ↔
      (View.queues tags interval matchMode).StepOk g s op := by
  have hq : ∀ (g : Memory.Graph) (s : Neo4j.Store), (View.queues tags interval matchMode).Same g s ↔
      (Memory.getQueuesByTag g tags interval matchMode).Perm (Neo4j.getQueuesByTag s tags interval matchMode) :=
    fun _ _ => Iff.rfl
  rw [hq] at h ⊢
  rw [Neo4j.getQueuesByTag_neo4j]
  cases op with
  | markBuffering x computeKey t now =>
    rw [Op.memory, Memory.getQueuesByTag_markBuffering]
    exact ⟨fun _ => trivial, fun _ => h⟩
  | clearBuffering x computeKey =>
    rw [Op.memory, Memory.getQueuesByTag_clearBuffering]
    exact ⟨fun _ => trivial, fun _ => h⟩
  | addComputeBinding x key =>
    rw [Op.memory, Memory.getQueuesByTag_addComputeBinding]
    exact ⟨fun _ => trivial, fun _ => h⟩
  | insertSentinel sentinelId ids version =>
    unfold Op.memory View.StepOk
    have hp := (Memory.perm_getQueuesByTag_insertSentinel g tags interval matchMode sentinelId ids).trans h
    constructor
    · intro hs
      have hlen := hp.length_eq
      rw [List.length_append, hs.length_eq] at hlen
      exact Option.toList_eq_nil_iff.mp (List.eq_nil_of_length_eq_zero (by omega))
    · intro hn
      rw [hn, Option.toList_none, List.append_nil] at hp
      exact hp

lemma View.same_step {view : View} (hcov : Covered g s) (h : view.Same g s) :
    view.Same (op.memory g) (op.neo4j s) ↔ view.StepOk g s op := by
  cases view with
  | buffering seenKey => exact same_buffering_step hcov h
  | node id => exact same_node_step h
  | queues tags interval matchMode => exact same_queues_step h

end Step

lemma Covered.step (h : Covered g s) (op : Op) : Covered (op.memory g) (op.neo4j s) := by
  have hset : ∀ x f, ∀ id ∈ (Neo4j.setNode s x f).keys, id ∈ s.keys := by
    intro x f id hid
    by_contra hnot
    have hget := Dict.get?_eq_none.mpr hnot
    refine absurd hid (Dict.get?_eq_none.mp ?_)
    rw [Neo4j.get?_setNode]
    by_cases hx : id = x
    · rw [if_pos hx, ← hx, hget]
      rfl
    · rw [if_neg hx, hget]
  have hb : ∀ id ∈ (op.neo4j s).keys, id ∈ s.keys := by
    intro id hid
    cases op with
    | markBuffering x computeKey t now => exact hset x _ id hid
    | clearBuffering x computeKey => exact hset x _ id hid
    | addComputeBinding x key =>
      rw [Op.neo4j, Neo4j.addComputeBinding] at hid
      split at hid
      · exact hid
      · exact hset x _ id hid
    | insertSentinel sentinelId ids version => exact hid
  have hg : ∀ id ∈ g.keys, id ∈ (op.memory g).keys := by
    intro id hid
    by_contra hnot
    have hget := Dict.get?_eq_none.mpr hnot
    refine absurd hid (Dict.get?_eq_none.mp ?_)
    cases op with
    | markBuffering x computeKey t now =>
      rw [Op.memory, Memory.get?_markBuffering] at hget
      split at hget
      · rename_i hx
        rw [hx]
        exact Option.map_eq_none_iff.mp hget
      · exact hget
    | clearBuffering x computeKey =>
      rw [Op.memory, Memory.get?_clearBuffering] at hget
      split at hget
      · rename_i hx
        rw [hx]
        exact Option.map_eq_none_iff.mp hget
      · exact hget
    | addComputeBinding x key =>
      rw [Op.memory, Memory.get?_addComputeBinding] at hget
      split at hget
      · cases hget
      · exact hget
    | insertSentinel sentinelId ids version =>
      rw [Op.memory] at hget
      rcases Memory.get?_insertSentinel g sentinelId ids id with hs | ⟨hn, -⟩
      · rw [hget] at hs
        split at hs
        · cases hs
        · exact hs.symm
      · exact hn
  exact fun id hid => hg id (h id (hb id hid))

/-! ### The stored nodes -/

def dataOf (r : NodeRecord) : Memory.NodeData where
  kind := some .compute
  nodeType := some r.nodeType
  codeHash := some r.codeHash
  schemaHash := some r.schemaHash
  schemaCompatId := some r.schemaCompatId
  interval := r.interval
  period := r.period
  tags := some r.tags
  bucket := r.bucket
  topic := some r.topic
  computeKeys := some r.computeKeys
  isGlobal := some r.isGlobal

def nodeOf (r : NodeRecord) : Neo4j.ComputeNode where
  nodeType := r.nodeType
  codeHash := r.codeHash
  schemaHash := r.schemaHash
  schemaCompatId := some r.schemaCompatId
  period := r.period
  tags := r.tags
  isGlobal := some r.isGlobal
  computeKeys := some r.computeKeys
  emits := [⟨r.topic, r.interval⟩]

lemma entries_foldl_set {ν : Type} (make : NodeRecord → ν) (add : Dict String ν → NodeRecord → Dict String ν)
    (hadd : ∀ d r, d.get? r.nodeId = none → add d r = d.set r.nodeId (make r)) {records : List NodeRecord}
    (h : (records.map (·.nodeId)).Nodup) :
    (records.foldl add .empty).entries = records.map fun r => (r.nodeId, make r) := by
  induction records using List.reverseRecOn with
  | nil => rfl
  | append_singleton records r ih =>
    rw [List.map_append, List.map_singleton, List.nodup_append] at h
    obtain ⟨hn, -, hne⟩ := h
    have hnot : r.nodeId ∉ (records.foldl add .empty).keys := by
      unfold Dict.keys
      rw [ih hn, List.map_map]
      intro hmem
      exact hne r.nodeId hmem r.nodeId (List.mem_singleton_self _) rfl
    rw [List.foldl_append, List.foldl_cons, List.foldl_nil, hadd _ _ (Dict.get?_eq_none.mpr hnot),
      Dict.entries_set_of_notMem _ hnot, ih hn, List.map_append]
    rfl

namespace Stored

variable (stored : Stored)

lemma entries_memoryOf : (memoryOf stored.records).entries = stored.records.map fun r => (r.nodeId, dataOf r) := by
  refine entries_foldl_set dataOf Memory.addNode ?_ stored.nodup
  intro g r hget
  rw [Memory.addNode, Memory.addAttrs, hget]
  rfl

lemma entries_neo4jOf : (neo4jOf stored.records).entries = stored.records.map fun r => (r.nodeId, nodeOf r) :=
  entries_foldl_set nodeOf Neo4j.addNode (fun _ _ _ => rfl) stored.nodup

lemma get?_start (id : String) :
    (∃ r ∈ stored.records, r.nodeId = id ∧ (memoryOf stored.records).get? id = some (dataOf r) ∧
      (neo4jOf stored.records).get? id = some (nodeOf r)) ∨
    (∀ r ∈ stored.records, r.nodeId ≠ id) ∧ (memoryOf stored.records).get? id = none ∧
      (neo4jOf stored.records).get? id = none := by
  by_cases h : ∃ r ∈ stored.records, r.nodeId = id
  · obtain ⟨r, hr, rfl⟩ := h
    refine .inl ⟨r, hr, rfl, ?_, ?_⟩
    · rw [Dict.get?_eq_some, entries_memoryOf]
      exact List.mem_map_of_mem hr
    · rw [Dict.get?_eq_some, entries_neo4jOf]
      exact List.mem_map_of_mem hr
  · have hne : ∀ r ∈ stored.records, r.nodeId ≠ id := fun r hr hid => h ⟨r, hr, hid⟩
    refine .inr ⟨hne, ?_, ?_⟩
    · rw [Dict.get?_eq_none, Dict.keys, entries_memoryOf, List.map_map]
      intro hmem
      obtain ⟨r, hr, hid⟩ := List.mem_map.mp hmem
      exact hne r hr hid
    · rw [Dict.get?_eq_none, Dict.keys, entries_neo4jOf, List.map_map]
      intro hmem
      obtain ⟨r, hr, hid⟩ := List.mem_map.mp hmem
      exact hne r hr hid

lemma covered_start : Covered (memoryOf stored.records) (neo4jOf stored.records) := by
  intro id hid
  unfold Dict.keys at hid ⊢
  rw [entries_memoryOf, List.map_map]
  rw [entries_neo4jOf, List.map_map] at hid
  exact hid

lemma covered_after (ops : List Op) : Covered (stored.after ops).1 (stored.after ops).2 := by
  induction ops using List.reverseRecOn with
  | nil => exact stored.covered_start
  | append_singleton ops op ih =>
    unfold after
    rw [List.foldl_append, List.foldl_append]
    exact ih.step op

lemma same_start_buffering (computeKey : Option String) :
    (View.buffering computeKey).Same (memoryOf stored.records) (neo4jOf stored.records) := by
  rw [same_buffering]
  intro id
  have hm : ∀ slot, Memory.markOf (memoryOf stored.records) id slot = none := by
    intro slot
    unfold Memory.markOf
    rcases stored.get?_start id with ⟨r, -, -, hg, -⟩ | ⟨-, hg, -⟩
    · rw [hg]
      cases slot <;> rfl
    · rw [hg]
      rfl
  have hsn : Neo4j.since (neo4jOf stored.records) id = none := by
    unfold Neo4j.since
    rcases stored.get?_start id with ⟨r, -, -, -, hs⟩ | ⟨-, -, hs⟩
    · rw [hs]
      rfl
    · rw [hs]
      rfl
  rw [hsn]
  refine Set.eq_empty_of_forall_notMem ?_
  rintro v ⟨slot, -, hv⟩
  rw [hm] at hv
  cases hv

lemma record_dataOf (r : NodeRecord) : Memory.record r.nodeId (dataOf r) = r := by
  obtain ⟨⟩ := r
  simp only [Memory.record, dataOf, Option.getD_some, NodeRecord.mk.injEq, true_and, and_true]
  split
  · rename_i h
    cases h
  · rename_i h
    exact (Option.some.inj h).symm
  · rename_i h
    exact (Option.some.inj h).symm

lemma same_start_node (id : String) :
    (View.node id).Same (memoryOf stored.records) (neo4jOf stored.records) ↔ (View.node id).StartOk stored := by
  rw [same_node]
  unfold View.StartOk Memory.recordOf Neo4j.recordOf
  rcases stored.get?_start id with ⟨r, hr, rfl, hg, hs⟩ | ⟨hne, hg, hs⟩
  · have hother : ∀ r' ∈ stored.records, r'.nodeId = r.nodeId → r' = r := by
      intro r' hr' hid
      exact List.inj_on_of_nodup_map stored.nodup hr' hr hid
    have hneo : Neo4j.record r.nodeId (nodeOf r) ⟨r.topic, r.interval⟩ = { r with isGlobal := false, bucket := none } := by
      simp [Neo4j.record, nodeOf]
    rw [hg, hs]
    have hrow : (some (nodeOf r)).bind (fun c => c.emits.getLast?.map (Neo4j.record r.nodeId c)) =
        some { r with isGlobal := false, bucket := none } := congrArg some hneo
    rw [hrow, Option.bind_some, if_pos (show (dataOf r).kind = some .compute from rfl), record_dataOf,
      Option.some.injEq]
    constructor
    · intro heq r' hr' hid
      rw [hother r' hr' hid, heq]
      exact ⟨rfl, rfl⟩
    · intro hall
      obtain ⟨hgl, hb⟩ := hall r hr rfl
      rw [← hgl, ← hb]
  · rw [hg, hs]
    exact ⟨fun _ r hr hid => absurd hid (hne r hr), fun _ => rfl⟩

lemma matchesTags_eq {tags : List String} (h : tags ≠ []) (matchMode : String) (nodeTags : List String) :
    Memory.matchesTags tags matchMode nodeTags = Neo4j.matchesTags tags matchMode nodeTags := by
  unfold Memory.matchesTags Neo4j.matchesTags
  rw [if_neg h]
  split
  · rfl
  · rw [Bool.eq_iff_iff, List.any_eq_true, List.any_eq_true]
    simp only [decide_eq_true_eq]
    exact ⟨fun ⟨t, ht, hn⟩ => ⟨t, hn, ht⟩, fun ⟨t, hn, ht⟩ => ⟨t, ht, hn⟩⟩

lemma same_start_queues (tags : List String) (interval : ℤ) (matchMode : String) :
    (View.queues tags interval matchMode).Same (memoryOf stored.records) (neo4jOf stored.records) ↔
      (View.queues tags interval matchMode).StartOk stored := by
  have hm : Memory.getQueuesByTag (memoryOf stored.records) tags interval matchMode =
      stored.records.filterMap fun r => if r.interval = some interval ∧ Memory.matchesTags tags matchMode r.tags then
        some (r.topic, r.isGlobal) else none := by
    rw [Memory.getQueuesByTag_eq, entries_memoryOf, List.filterMap_map]
    refine List.filterMap_congr fun r _ => ?_
    by_cases hi : r.interval = some interval
    · simp [Memory.row, dataOf, hi]
    · simp [Memory.row, dataOf, hi]
  have hq : (View.queues tags interval matchMode).Same (memoryOf stored.records) (neo4jOf stored.records) ↔
      (Memory.getQueuesByTag (memoryOf stored.records) tags interval matchMode).Perm
        (Neo4j.getQueuesByTag (neo4jOf stored.records) tags interval matchMode) := Iff.rfl
  rw [hq, hm]
  unfold View.StartOk
  by_cases ht : tags = []
  · have hneo : Neo4j.getQueuesByTag (neo4jOf stored.records) tags interval matchMode = [] := by
      unfold Neo4j.getQueuesByTag
      rw [if_pos ht]
    rw [hneo, List.perm_nil, List.filterMap_eq_nil_iff]
    simp [Memory.matchesTags, ht]
  · have hneo : Neo4j.getQueuesByTag (neo4jOf stored.records) tags interval matchMode =
        stored.records.filterMap fun r => if r.interval = some interval ∧ Memory.matchesTags tags matchMode r.tags then
          some (r.topic, r.isGlobal) else none := by
      have hrows : Neo4j.emitting (neo4jOf stored.records) =
          stored.records.map fun r => (r.nodeId, nodeOf r, ⟨r.topic, r.interval⟩) := by
        unfold Neo4j.emitting
        rw [entries_neo4jOf, List.flatMap_map, List.map_eq_flatMap]
        rfl
      unfold Neo4j.getQueuesByTag
      rw [if_neg ht, hrows, List.filterMap_map]
      refine List.filterMap_congr fun r _ => ?_
      rw [matchesTags_eq ht]
      by_cases hi : r.interval = some interval
      · simp [nodeOf, hi]
      · simp [nodeOf, hi]
    rw [hneo]
    simp [ht]

end Stored

/-! ### Runs -/

lemma View.same_start (stored : Stored) (view : View) :
    view.Same (stored.after []).1 (stored.after []).2 ↔ view.StartOk stored := by
  cases view with
  | buffering computeKey => exact ⟨fun _ => trivial, fun _ => stored.same_start_buffering computeKey⟩
  | node id => exact stored.same_start_node id
  | queues tags interval matchMode => exact stored.same_start_queues tags interval matchMode

def View.RunOk (stored : Stored) (view : View) (ops : List Op) : Prop :=
  view.StartOk stored ∧
    ∀ before op, before ++ [op] <+: ops → view.StepOk (stored.after before).1 (stored.after before).2 op

lemma Stored.after_concat (stored : Stored) (ops : List Op) (op : Op) :
    stored.after (ops ++ [op]) = (op.memory (stored.after ops).1, op.neo4j (stored.after ops).2) := by
  unfold Stored.after
  rw [List.foldl_append, List.foldl_append]
  rfl

lemma View.same_run {stored : Stored} {view : View} {ops : List Op} (h : view.RunOk stored ops) :
    view.Same (stored.after ops).1 (stored.after ops).2 := by
  obtain ⟨hst, hs⟩ := h
  induction ops using List.reverseRecOn with
  | nil => exact (View.same_start stored view).mpr hst
  | append_singleton ops op ih =>
    have hb := ih fun before op' hpre => hs before op' (hpre.trans (List.prefix_append ops [op]))
    rw [stored.after_concat]
    exact (View.same_step (stored.covered_after ops) hb).mpr (hs ops op (List.prefix_refl _))

/-- From the same stored compute nodes, a query has the same answer from both repositories after every run that meets the
conditions of its views at each step; and where the answers to a view's queries agree before an operation, they agree
after it exactly when the condition holds. -/
theorem stands_in_while (stored : Stored) :
    (∀ (q : Query) (ops : List Op), (∀ view ∈ q.views, view.RunOk stored ops) →
      q.Same (stored.after ops).1 (stored.after ops).2) ∧
    (∀ view : View, view.Same (stored.after []).1 (stored.after []).2 ↔ view.StartOk stored) ∧
    ∀ (view : View) (ops : List Op) (op : Op), view.Same (stored.after ops).1 (stored.after ops).2 →
      (view.Same (stored.after (ops ++ [op])).1 (stored.after (ops ++ [op])).2 ↔
        view.StepOk (stored.after ops).1 (stored.after ops).2 op) := by
  refine ⟨fun q ops h => ?_, View.same_start stored, fun view ops op h => ?_⟩
  · exact Query.same_of_views fun view hview => View.same_run (h view hview)
  · rw [stored.after_concat]
    exact View.same_step (stored.covered_after ops) h

def storedNode (isGlobal : Bool) : NodeRecord where
  nodeId := "n1"
  nodeType := "ProcessingNode"
  codeHash := "c"
  schemaHash := "s"
  schemaCompatId := "s-major"
  interval := some 60
  period := some 2
  tags := ["t"]
  isGlobal := isGlobal
  topic := "q1"

def oneStored (isGlobal : Bool) : Stored := ⟨[storedNode isGlobal], List.nodup_singleton _⟩

/-- The only node stored is not given out before a mark, nor after it is cleared. -/
theorem stands_in_for_one_mark : (Query.bufferingNodes 15 none).Same
    ((oneStored false).after [.markBuffering "n1" none (some 10) 0, .clearBuffering "n1" none]).1
    ((oneStored false).after [.markBuffering "n1" none (some 10) 0, .clearBuffering "n1" none]).2 := by
  refine (stands_in_while (oneStored false)).1 _ _ fun view hview => ?_
  obtain rfl := List.mem_singleton.mp hview
  refine ⟨trivial, fun before op hpre => ?_⟩
  obtain ⟨rest, hrest⟩ := hpre
  rcases before with _ | ⟨first, _ | ⟨second, before⟩⟩
  · obtain ⟨rfl, -⟩ := List.cons.inj hrest
    have hmem : "n1" ∈ ((oneStored false).after []).2.keys := by decide +kernel
    refine ⟨fun _ _ => ⟨hmem, fun v hv => ?_⟩, fun hsees => absurd ?_ hsees⟩
    · cases hv
    · exact fun key hkey => absurd hkey (Option.not_mem_none key)
  · obtain ⟨-, hrest⟩ := List.cons.inj hrest
    obtain ⟨rfl, -⟩ := List.cons.inj hrest
    exact fun hgiven => absurd rfl hgiven
  · have hlen := congrArg List.length hrest
    simp only [List.length_append, List.length_cons, List.length_nil] at hlen
    omega

/-- The empty tag list asks for every queue of one and for none of the other. A mark that is repeated moves in the graph
and stays in Neo4j; a mark under one compute key is seen under another in Neo4j only; a binding makes a node of an id that
is not stored in the graph only; and the global flag of a record is not returned by Neo4j. -/
theorem stand_in_differs :
    ¬ (Query.queuesByTag [] 60 "any").Same ((oneStored false).after []).1 ((oneStored false).after []).2 ∧
    (¬ (Query.bufferingNodes 15 none).Same
      ((oneStored false).after [.markBuffering "n1" none (some 10) 0, .markBuffering "n1" none (some 20) 0]).1
      ((oneStored false).after [.markBuffering "n1" none (some 10) 0, .markBuffering "n1" none (some 20) 0]).2) ∧
    (¬ (Query.bufferingNodes 15 (some "k2")).Same
      ((oneStored false).after [.markBuffering "n1" (some "k1") (some 10) 0]).1
      ((oneStored false).after [.markBuffering "n1" (some "k1") (some 10) 0]).2) ∧
    (¬ (Query.nodes ["n2"]).Same ((oneStored false).after [.addComputeBinding "n2" "k1"]).1
      ((oneStored false).after [.addComputeBinding "n2" "k1"]).2) ∧
    ¬ (Query.nodes ["n1"]).Same ((oneStored true).after []).1 ((oneStored true).after []).2 := by
  unfold Query.Same
  refine ⟨by decide +kernel, by decide +kernel, by decide +kernel, fun h => ?_, fun h => ?_⟩
  · exact absurd (h "n2") (by decide +kernel)
  · exact absurd (h "n1") (by decide +kernel)

end Qmtl.DagManager.Repositories

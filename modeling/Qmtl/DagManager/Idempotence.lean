import Qmtl.DagManager.TopicBinding

/-! Whether a diff can be repeated.

A diff tells the repository the compute key of each node and nothing else: a node it has not known
before gets no code hash and no topic. -/

namespace Qmtl.DagManager

open Lib Foundation

def placed (u : Unicode) : List TopicSpec → List String → List (TopicSpec × String)
  | [], _ => []
  | t :: ts, taken =>
    match topicName u t taken with
    | .ok name => (t, name) :: placed u ts (name :: taken)
    | .error _ => []

namespace DiffService

variable {env : Env} {version : String} {ns : Option String}

def moved (env : Env) (repo : Repository) (ns : Option String) (n : NodeInfo) : Bool :=
  ns ≠ none && ns ≠ some "" && (record repo n).any fun r => ensureNamespace env.u r.topic ns ≠ r.topic

variable {n : NodeInfo}

lemma bindTopic_recorded {repo : Repository} {r : NodeRecord} (hr : record repo n = some r) (b : Broker) :
    bindTopic env version ns b (entryOf repo n) =
      if moved env repo ns n then b.upsert env.u (topicSpec env n version ns) else .ok (r.topic, b) := by
  have hb : bindTopic env version ns b (entryOf repo n) = applyNamespace env b r.topic n version ns := by
    simp [bindTopic, entryOf, hr, bind, Except.bind]
  rw [hb]
  unfold applyNamespace moved
  rw [hr]
  by_cases hns : ns = none ∨ ns = some ""
  · rcases hns with rfl | rfl <;> simp
  · push Not at hns
    by_cases ht : ensureNamespace env.u r.topic ns = r.topic
    · simp [ht]
    · simp [ht, hns.1, hns.2]

section Recorded

variable {repo : Repository} {nodes : List NodeInfo} {b b' : Broker} {topics : List String}

lemma bound_recorded (hrec : ∀ n ∈ nodes, (record repo n).isSome)
    (h : bindTopics env version ns (nodes.map (entryOf repo)) b = .ok (topics, b')) : ∀ p ∈ nodes.zip topics,
      (moved env repo ns p.1 → b'.breakerOpen = false ∧
        Broker.Verified env.u b' p.2 (topicConfig env.u p.1.nodeType)) ∧
      (moved env repo ns p.1 = false → (record repo p.1).map (·.topic) = some p.2) := by
  induction nodes generalizing b topics with
  | nil => simp
  | cons n nodes ih =>
    obtain ⟨t, b₁, ts, ht, hts, rfl⟩ := bindTopics_cons.mp h
    obtain ⟨r, hr⟩ := Option.isSome_iff_exists.mp (hrec n (by simp))
    rw [bindTopic_recorded hr] at ht
    intro p hp
    rcases List.mem_cons.mp hp with rfl | hp
    · refine ⟨?_, ?_⟩
      · intro hm
        rw [if_pos hm] at ht
        obtain ⟨hopen, hext, hver, -⟩ := Broker.createTopicIfNeeded_ok (Broker.upsert_ok.mp ht).2
        have hlater := bindTopics_extends hts
        exact ⟨(hext.trans hlater).breaker.trans hopen, hlater.verified _ _ hver⟩
      · intro hm
        rw [if_neg (by simp [hm])] at ht
        obtain ⟨rfl, -⟩ := Prod.mk.inj (Except.ok.inj ht)
        rw [hr]
        rfl
    · exact ih (fun m hm => hrec m (by simp [hm])) hts p hp

lemma placed_of_bound {taken : List String} (hrec : ∀ n ∈ nodes, (record repo n).isSome)
    (h : bindTopics env version ns (nodes.map (entryOf repo)) b = .ok (topics, b'))
    (htk : ∀ x, x ∈ taken ↔ x ∈ b.topics.keys) :
    placed env.u ((nodes.filter (moved env repo ns)).map (topicSpec env · version ns)) taken =
        ((nodes.zip topics).filter (moved env repo ns ·.1)).map (fun p => (topicSpec env p.1 version ns, p.2)) ∧
      ∀ x, x ∈ b'.topics.keys ↔ x ∈ taken ∨ ∃ p ∈ nodes.zip topics, moved env repo ns p.1 ∧ p.2 = x := by
  induction nodes generalizing b topics taken with
  | nil =>
    cases Except.ok.inj h
    exact ⟨rfl, fun x => by simp [htk x]⟩
  | cons n nodes ih =>
    obtain ⟨t, b₁, ts, ht, hts, rfl⟩ := bindTopics_cons.mp h
    obtain ⟨r, hr⟩ := Option.isSome_iff_exists.mp (hrec n (by simp))
    rw [bindTopic_recorded hr] at ht
    have hrs : ∀ m ∈ nodes, (record repo m).isSome := fun m hm => hrec m (by simp [hm])
    cases hm : moved env repo ns n with
    | false =>
      rw [if_neg (by simp [hm])] at ht
      cases Except.ok.inj ht
      obtain ⟨hp, hkeys⟩ := ih hrs hts htk
      refine ⟨by simpa [hm] using hp, ?_⟩
      intro x
      rw [hkeys x]
      simp [hm]
    | true =>
      rw [if_pos hm] at ht
      obtain ⟨hn, hc⟩ := Broker.upsert_ok.mp ht
      obtain ⟨-, -, -, hk₁⟩ := Broker.createTopicIfNeeded_ok hc
      have ht₁ : ∀ x, x ∈ t :: taken ↔ x ∈ b₁.topics.keys := by
        intro x
        rw [hk₁ x, List.mem_cons, htk x, or_comm]
      obtain ⟨hp, hkeys⟩ := ih hrs hts ht₁
      refine ⟨?_, ?_⟩
      · rw [← topicName_congr htk] at hn
        simp only [List.filter_cons, hm, if_true, List.map_cons, List.zip_cons_cons, placed, hn, hp]
      · intro x
        rw [hkeys x, List.mem_cons]
        simp only [List.zip_cons_cons, List.mem_cons, exists_eq_or_imp, hm, true_and]
        rw [or_comm (a := x = t), or_assoc, eq_comm (a := x)]

end Recorded

/-! ### The repository after a diff -/

section Repo

variable {repo : Repository} {nodes : List NodeInfo} {n : NodeInfo}

def boundNode (key : String) : Option GraphNode → GraphNode
  | none => { kind := some .compute, computeKeys := [key] }
  | some g => { g with computeKeys := if key ∈ g.computeKeys then g.computeKeys else g.computeKeys ++ [key] }

lemma addComputeBinding_eq (repo : Repository) (id : String) {key : String} (hkey : key ≠ "") :
    repo.addComputeBinding id key = Function.update repo id (some (boundNode key (repo id))) := by
  unfold Repository.addComputeBinding
  rw [if_neg hkey]
  cases hid : repo id with
  | none => rfl
  | some g =>
    by_cases hmem : key ∈ g.computeKeys
    · simp [hmem, boundNode, hid]
    · simp [hmem, boundNode]

lemma bindKeys_of_notMem (hkeys : ∀ m ∈ nodes, m.computeKey ≠ "") {id : String}
    (h : id ∉ nodes.map (·.nodeId)) : bindKeys repo nodes id = repo id := by
  induction nodes generalizing repo with
  | nil => rfl
  | cons m nodes ih =>
    rw [List.map_cons, List.mem_cons, not_or] at h
    show bindKeys (repo.addComputeBinding m.nodeId m.computeKey) nodes id = _
    rw [ih (fun m hm => hkeys m (by simp [hm])) h.2, addComputeBinding_eq repo _ (hkeys m (by simp)),
      Function.update_of_ne h.1]

variable (repo) in
lemma bindKeys_of_mem (hkeys : ∀ m ∈ nodes, m.computeKey ≠ "") (hnd : (nodes.map (·.nodeId)).Nodup)
    (hn : n ∈ nodes) : bindKeys repo nodes n.nodeId = some (boundNode n.computeKey (repo n.nodeId)) := by
  induction nodes generalizing repo with
  | nil => cases hn
  | cons m nodes ih =>
    rw [List.map_cons, List.nodup_cons] at hnd
    have hr : ∀ m ∈ nodes, m.computeKey ≠ "" := fun m hm => hkeys m (by simp [hm])
    show bindKeys (repo.addComputeBinding m.nodeId m.computeKey) nodes n.nodeId = _
    rw [addComputeBinding_eq repo _ (hkeys m (by simp))]
    rcases List.mem_cons.mp hn with rfl | hn
    · rw [bindKeys_of_notMem hr hnd.1, Function.update_self]
    · have hne : n.nodeId ≠ m.nodeId := by
        intro heq
        exact hnd.1 (heq ▸ List.mem_map_of_mem hn)
      rw [ih _ hr hnd.2 hn, Function.update_of_ne hne]

lemma insertSentinel_of_some {sentinelId id : String} {ids : List String} {g : GraphNode}
    (hg : repo id = some g) : repo.insertSentinel sentinelId ids id =
      some (if id = sentinelId then { g with kind := some .sentinel } else g) := by
  have hed : ∀ (ids : List String) (r : Repository) {g : GraphNode}, r id = some g →
      ids.foldl (fun r id => if (r id).isSome then r else Function.update r id (some {})) r id = some g := by
    intro ids
    induction ids with
    | nil => exact fun r g h => h
    | cons i ids ih =>
      intro r g h
      refine ih _ ?_
      by_cases hs : (r i).isSome
      · simpa [hs] using h
      · have hne : id ≠ i := by
          rintro rfl
          simp [h] at hs
        simpa [hs, Function.update_of_ne hne] using h
  refine hed ids _ ?_
  by_cases hid : id = sentinelId
  · subst hid
    simp [hg]
  · simp [hid, hg]

lemma record_of_some {g : GraphNode} (hg : repo n.nodeId = some g) :
    record repo n = if g.kind = some .compute ∧ g.codeHash.getD "" = n.codeHash then
      some ⟨g.codeHash.getD "", g.schemaHash.getD "", g.topic.getD "", g.computeKeys⟩ else none := by
  unfold record Repository.getNode
  rw [hg, Option.bind_some]
  by_cases hk : g.kind = some .compute
  · by_cases hc : g.codeHash.getD "" = n.codeHash <;> simp [hk, hc, Option.filter]
  · simp [hk]

lemma record_of_none (hg : repo n.nodeId = none) : record repo n = none := by
  unfold record Repository.getNode
  rw [hg]
  rfl

end Repo

section After

variable {pre : PreScan} {request : DiffRequest} {st : State} {topics : List String} {r : DiffPlan × State}
  {n : NodeInfo}

lemma repo_after (hpre : preScan env request.dagJson = .ok pre) (h : FreshDiff env pre request st topics r)
    (hn : n ∈ pre.nodes) : (¬ (InsertsSentinel env pre request ∧ n.nodeId = buildSentinelId request.strategyId) ∧
      r.2.repo n.nodeId = some (boundNode n.computeKey (st.repo n.nodeId))) ∨
    ((InsertsSentinel env pre request ∧ n.nodeId = buildSentinelId request.strategyId) ∧
      ∃ g, r.2.repo n.nodeId = some g ∧ g.kind = some .sentinel) := by
  obtain ⟨hkeys, hnd⟩ := scanned_of_preScan hpre
  have hb := bindKeys_of_mem st.repo hkeys hnd hn
  by_cases hins : InsertsSentinel env pre request
  · rw [h.inserted hins, insertSentinel_of_some hb]
    by_cases hid : n.nodeId = buildSentinelId request.strategyId
    · rw [if_pos hid]
      exact .inr ⟨⟨hins, hid⟩, _, rfl, rfl⟩
    · rw [if_neg hid]
      exact .inl ⟨fun h => hid h.2, rfl⟩
  · rw [h.kept hins, hb]
    exact .inl ⟨fun h => hins h.1, rfl⟩

lemma record_after (hpre : preScan env request.dagJson = .ok pre) (h : FreshDiff env pre request st topics r)
    (hn : n ∈ pre.nodes) {rec : NodeRecord} (hrec : record r.2.repo n = some rec) :
    ¬ (InsertsSentinel env pre request ∧ n.nodeId = buildSentinelId request.strategyId) ∧
      n.computeKey ∈ rec.computeKeys ∧ ((record st.repo n).map (·.topic) = some rec.topic ∨
        (record st.repo n = none ∧ n.codeHash = "" ∧ rec.topic = "")) := by
  rcases repo_after hpre h hn with ⟨hs, hg⟩ | ⟨-, g, hg, hk⟩
  · rw [record_of_some hg] at hrec
    split at hrec
    · rename_i hc
      cases hrec
      refine ⟨hs, ?_, ?_⟩
      · cases hid : st.repo n.nodeId with
        | none => simp [boundNode]
        | some g =>
          by_cases hmem : n.computeKey ∈ g.computeKeys <;> simp [boundNode, hmem]
      · cases hid : st.repo n.nodeId with
        | none =>
          rw [hid] at hc
          exact .inr ⟨record_of_none hid, hc.2.symm, rfl⟩
        | some g =>
          rw [hid] at hc
          have hc : g.kind = some .compute ∧ g.codeHash.getD "" = n.codeHash := hc
          left
          rw [record_of_some hid, if_pos hc]
          rfl
    · cases hrec
  · rw [record_of_some hg, hk, if_neg (by simp)] at hrec
    cases hrec

lemma record_stays (hpre : preScan env request.dagJson = .ok pre) (h : FreshDiff env pre request st topics r)
    (hn : n ∈ pre.nodes) {rec : NodeRecord} (hrec : record st.repo n = some rec)
    (hs : ¬ (InsertsSentinel env pre request ∧ n.nodeId = buildSentinelId request.strategyId)) :
    ∃ rec', record r.2.repo n = some rec' ∧ rec'.topic = rec.topic ∧ n.computeKey ∈ rec'.computeKeys := by
  rcases repo_after hpre h hn with ⟨-, hg⟩ | ⟨hins, -⟩
  · cases hid : st.repo n.nodeId with
    | none =>
      rw [record_of_none hid] at hrec
      cases hrec
    | some g =>
      rw [record_of_some hid] at hrec
      split at hrec
      · rename_i hc
        cases hrec
        rw [hid] at hg
        refine ⟨_, (record_of_some hg).trans (if_pos hc), rfl, ?_⟩
        by_cases hmem : n.computeKey ∈ g.computeKeys <;> simp [boundNode, hmem]
      · cases hrec
  · exact absurd hins hs

end After

lemma mem_ensureNamespace (u : Unicode) {topic : String} {c : Char} (h : c ∈ topic.toList) (ns : Option String) :
    c ∈ (ensureNamespace u topic ns).toList := by
  unfold ensureNamespace
  split
  · exact h
  · split
    · exact h
    · rw [String.toList_append]
      exact List.mem_append_right _ h

lemma freshName_ne {u : Unicode} {t : TopicSpec} {taken : List String} {name : String}
    (h : t.freshName u taken = some name) : name ≠ "" := by
  have hb : ∀ hash, '_' ∈ (ensureNamespace u (t.base hash) t.ns).toList := by
    intro hash
    refine mem_ensureNamespace u ?_ _
    simp [TopicSpec.base]
  have hmem : '_' ∈ name.toList := by
    rcases Option.or_eq_some_iff.mp h with h | ⟨-, h⟩
    · obtain ⟨len, -, rfl⟩ := List.mem_map.mp (List.mem_of_find?_eq_some h)
      exact hb _
    · rcases List.mem_cons.mp (List.mem_of_find?_eq_some h) with rfl | hnum
      · exact hb _
      · obtain ⟨i, -, rfl⟩ := List.mem_map.mp hnum
        rw [String.toList_append, String.toList_append, List.append_assoc]
        exact List.mem_append_left _ (hb _)
  rintro rfl
  simp at hmem

lemma legacyMatch_of_no_code (hc : n.codeHash = "") (u : Unicode) (taken : List String) :
    (topicSpec env n version ns).legacyMatch u taken = none := by
  have hb : (topicSpec env n version ns).legacyBases = [] := if_pos hc
  unfold TopicSpec.legacyMatch
  rw [hb]
  rfl

lemma upsert_ne (hc : n.codeHash = "") {b b' : Broker} {name : String}
    (h : b.upsert env.u (topicSpec env n version ns) = .ok (name, b')) : name ≠ "" := by
  have hn := (Broker.upsert_ok.mp h).1
  unfold topicName at hn
  rw [legacyMatch_of_no_code hc] at hn
  dsimp only at hn
  split at hn
  · rename_i hf
    cases hn
    exact freshName_ne hf
  · cases hn

lemma ghost_not_refound (hc : n.codeHash = "") {b b' b'' : Broker} {topic : String}
    {buffering buffering' : Bool} (h : bindTopic env version ns b ⟨n, none, buffering⟩ = .ok (topic, b')) :
    bindTopic env version ns b'' ⟨n, some "", buffering'⟩ ≠ .ok (topic, b'') := by
  have hap : ∀ {b b' : Broker} {t t' : String}, t ≠ "" →
      applyNamespace env b t n version ns = .ok (t', b') → t' ≠ "" := by
    intro b b' t t' ht h
    unfold applyNamespace at h
    split at h
    · obtain ⟨rfl, -⟩ := Prod.mk.inj (Except.ok.inj h)
      exact ht
    · split at h
      · obtain ⟨rfl, -⟩ := Prod.mk.inj (Except.ok.inj h)
        exact ht
      · exact upsert_ne hc h
  have hne : topic ≠ "" := by
    obtain ⟨⟨t, b₁⟩, hup, h⟩ := bind_ok.mp h
    exact hap (upsert_ne hc hup) h
  intro hag
  have hag : applyNamespace env b'' "" n version ns = .ok (topic, b'') := hag
  unfold applyNamespace at hag
  split at hag
  · exact hne (Prod.mk.inj (Except.ok.inj hag)).1.symm
  · split at hag
    · exact hne (Prod.mk.inj (Except.ok.inj hag)).1.symm
    · obtain ⟨hn, hcr⟩ := Broker.upsert_ok.mp hag
      obtain ⟨-, -, -, hkeys⟩ := Broker.createTopicIfNeeded_ok hcr
      have hl := legacyMatch_of_taken hn ((hkeys topic).mpr (.inr rfl))
      rw [legacyMatch_of_no_code hc] at hl
      cases hl

/-! ### Twice -/

def Repeats (env : Env) (request : DiffRequest) (r : DiffPlan × State) : Prop :=
  ∃ r', prepareDiff env request (fresh r.2) = .ok r' ∧ r'.1.queueMap = r.1.queueMap ∧ r'.1.newNodes = [] ∧
    r'.2.broker.topics = r.2.broker.topics

/-- The topics that are looked for anew, since the recorded ones do not carry the namespace. -/
def movedSpecs (env : Env) (pre : PreScan) (repo : Repository) : List TopicSpec :=
  (pre.nodes.filter (moved env repo pre.ns)).map (topicSpec env · pre.version pre.ns)

structure Settled (env : Env) (pre : PreScan) (request : DiffRequest) (st : State) : Prop where
  recorded : ∀ n ∈ pre.nodes, (record st.repo n).isSome
  sentinel : ∀ n ∈ pre.nodes, ¬ (InsertsSentinel env pre request ∧
    n.nodeId = buildSentinelId request.strategyId)
  refound : ∀ p ∈ placed env.u (movedSpecs env pre st.repo) st.broker.topics.keys,
    p.1.legacyMatch env.u (st.broker.topics.keys ++
      (placed env.u (movedSpecs env pre st.repo) st.broker.topics.keys).map Prod.snd) = some p.2

section Twice

variable {pre : PreScan} {request : DiffRequest} {st : State} {topics : List String} {r : DiffPlan × State}

lemma topics_eq (hhex : ∀ s, '#' ∉ (env.blake3 s).toList) (hpre : preScan env request.dagJson = .ok pre)
    {st' : State} {topics' : List String} {r' : DiffPlan × State}
    (h : FreshDiff env pre request st topics r) (h' : FreshDiff env pre request st' topics' r')
    (heq : r'.1.queueMap = r.1.queueMap) : topics' = topics := by
  have hn := partitionKeys_nodup hhex hpre
  have hlen := length_topics h
  have hl' := length_topics h'
  have hfst : ∀ ts : List String, ts.length = pre.nodes.length →
      ((pre.nodes.map partitionKeyFor).zip ts).map Prod.fst = pre.nodes.map partitionKeyFor := by
    intro ts hts
    exact List.map_fst_zip (by rw [List.length_map, hts])
  have hsnd : ∀ ts : List String, ts.length = pre.nodes.length →
      ((pre.nodes.map partitionKeyFor).zip ts).map Prod.snd = ts := by
    intro ts hts
    exact List.map_snd_zip (by rw [List.length_map, hts])
  rw [h.queueMap, h'.queueMap] at heq
  have hen := congrArg Dict.entries heq
  rw [Dict.entries_ofList (by rw [hfst _ hl']; exact hn),
    Dict.entries_ofList (by rw [hfst _ hlen]; exact hn)] at hen
  rw [← hsnd _ hl', hen, hsnd _ hlen]

lemma moved_after {n : NodeInfo} {rec rec' : NodeRecord} {repo repo' : Repository} (hrec : record repo n = some rec)
    (hr' : record repo' n = some rec') (ht : rec'.topic = rec.topic) (ns : Option String) :
    moved env repo' ns n = moved env repo ns n := by
  unfold moved
  rw [hrec, hr', Option.any_some, Option.any_some, ht]

lemma repeats_of_settled (hpre : preScan env request.dagJson = .ok pre)
    (h : FreshDiff env pre request st topics r) (hs : Settled env pre request st) : Repeats env request r := by
  obtain ⟨hp, hkeys⟩ := placed_of_bound hs.recorded h.bound fun _ => Iff.rfl
  have hf := bound_recorded hs.recorded h.bound
  -- the second plan binds each node in the state the first has left, and to the same topic
  have hb : bindTopics env pre.version pre.ns (pre.nodes.map (entryOf r.2.repo)) r.2.broker =
      .ok (topics, r.2.broker) := by
    refine bindTopics_of_forall₂ (List.forall₂_map_left_iff.mpr (List.forall₂_iff_zip.mpr ⟨(length_topics h).symm, ?_⟩))
    intro n t hnt
    have hn := (List.of_mem_zip hnt).1
    obtain ⟨rec, hrec⟩ := Option.isSome_iff_exists.mp (hs.recorded n hn)
    obtain ⟨rec', hrc', htp, -⟩ := record_stays hpre h hn hrec (hs.sentinel n hn)
    obtain ⟨hmv, hst⟩ := hf (n, t) hnt
    rw [bindTopic_recorded hrc', moved_after hrec hrc' htp]
    cases hm : moved env st.repo pre.ns n with
    | true =>
      obtain ⟨hopen, hver⟩ := hmv hm
      have hmem : (topicSpec env n pre.version pre.ns, t) ∈
          placed env.u (movedSpecs env pre st.repo) st.broker.topics.keys := by
        unfold movedSpecs
        rw [hp]
        exact List.mem_map_of_mem (f := fun p : NodeInfo × String => (topicSpec env p.1 pre.version pre.ns, p.2))
          (List.mem_filter.mpr ⟨hnt, hm⟩)
      have hfn := hs.refound _ hmem
      refine Broker.upsert_ok.mpr ⟨topicName_of_legacyMatch (Eq.trans (legacyMatch_congr ?_) hfn),
        Broker.createTopicIfNeeded_self hopen hver⟩
      intro x
      unfold movedSpecs
      rw [hkeys x, hp, List.mem_append]
      simp
    | false =>
      rw [if_neg (by simp)]
      have ht := hst hm
      rw [hrec] at ht
      have ht : rec.topic = t := Option.some.inj ht
      rw [htp, ht]
  have hunc : ∀ n ∈ pre.nodes, ¬ Crossed r.2.repo n := by
    rintro n hn ⟨rec', hrc', hnot, -⟩
    exact hnot (record_after hpre h hn hrc').2.1
  obtain ⟨r', hr', h'⟩ := freshDiff_exists _ hpre hunc hb
  refine ⟨r', hr', by rw [h'.queueMap, h.queueMap], ?_, ?_⟩
  · rw [h'.newNodes, List.filter_eq_nil_iff]
    intro n hn
    obtain ⟨rec, hrec⟩ := Option.isSome_iff_exists.mp (hs.recorded n hn)
    obtain ⟨rec', hrc', -⟩ := record_stays hpre h hn hrec (hs.sentinel n hn)
    simp [hrc']
  · obtain ⟨-, hbr⟩ := Prod.mk.inj (Except.ok.inj (hb.symm.trans h'.bound))
    rw [← hbr]

lemma settled_of_repeats (hhex : ∀ s, '#' ∉ (env.blake3 s).toList) (hpre : preScan env request.dagJson = .ok pre)
    (h : FreshDiff env pre request st topics r) (hr : Repeats env request r) : Settled env pre request st := by
  obtain ⟨r', hr', hmap, hnew, hsm⟩ := hr
  obtain ⟨topics', h'⟩ := freshDiff_of_ok hpre hr'
  obtain rfl := topics_eq hhex hpre h h' hmap
  -- no topic is made, so every node is bound in the state that the first diff has left
  have hb := forall₂_of_bindTopics h'.bound hsm
  rw [List.forall₂_map_left_iff, List.forall₂_iff_zip] at hb
  have hbf := exists_bindTopic h.bound
  have hzip : ∀ n ∈ pre.nodes, ∃ t, (n, t) ∈ pre.nodes.zip topics' := by
    intro n hn
    have hmem : n ∈ (pre.nodes.zip topics').map Prod.fst := by
      rw [List.map_fst_zip (by rw [length_topics h])]
      exact hn
    obtain ⟨p, hp, rfl⟩ := List.mem_map.mp hmem
    exact ⟨p.2, hp⟩
  have haf : ∀ n ∈ pre.nodes, ∃ rec', record r.2.repo n = some rec' := by
    intro n hn
    rw [h'.newNodes, List.filter_eq_nil_iff] at hnew
    have hs := hnew n hn
    rw [Option.isNone_iff_eq_none, ← ne_eq, Option.ne_none_iff_exists'] at hs
    exact hs
  have hrc : ∀ n ∈ pre.nodes, ∀ rec', record r.2.repo n = some rec' →
      ∃ rec, record st.repo n = some rec ∧ rec'.topic = rec.topic := by
    intro n hn rec' hrc'
    obtain ⟨-, -, hor⟩ := record_after hpre h hn hrc'
    rcases hor with htp | ⟨hnn, hcd, hempty⟩
    · obtain ⟨rec, hrec, heq⟩ := Option.map_eq_some_iff.mp htp
      exact ⟨rec, hrec, heq.symm⟩
    · exfalso
      obtain ⟨t, ht⟩ := hzip n hn
      have hfirst : (entryOf st.repo n, t) ∈ (pre.nodes.map (entryOf st.repo)).zip topics' := by
        rw [List.zip_map_left]
        exact List.mem_map_of_mem (f := Prod.map (entryOf st.repo) id) ht
      obtain ⟨b₁, b₂, hfirst⟩ := hbf _ hfirst
      have hsecond := hb.2 ht
      unfold entryOf at hfirst hsecond
      rw [hnn] at hfirst
      rw [hrc', Option.map_some, hempty] at hsecond
      exact ghost_not_refound hcd hfirst hsecond
  have hiss : ∀ n ∈ pre.nodes, (record st.repo n).isSome := by
    intro n hn
    obtain ⟨rec', hrc'⟩ := haf n hn
    obtain ⟨rec, hrec, -⟩ := hrc n hn rec' hrc'
    rw [hrec]
    rfl
  refine ⟨hiss, ?_, ?_⟩
  · intro n hn
    obtain ⟨rec', hrc'⟩ := haf n hn
    exact (record_after hpre h hn hrc').1
  · obtain ⟨hpl, hkeys⟩ := placed_of_bound hiss h.bound fun _ => Iff.rfl
    unfold movedSpecs
    rw [hpl]
    intro p hp
    obtain ⟨⟨n, t⟩, hf, rfl⟩ := List.mem_map.mp hp
    obtain ⟨hnt, hm⟩ := List.mem_filter.mp hf
    have hn := (List.of_mem_zip hnt).1
    obtain ⟨rec', hrc'⟩ := haf n hn
    obtain ⟨rec, hrec, htp⟩ := hrc n hn rec' hrc'
    have hsecond := hb.2 hnt
    rw [bindTopic_recorded hrc', moved_after hrec hrc' htp, if_pos hm] at hsecond
    obtain ⟨hnm, hc⟩ := Broker.upsert_ok.mp hsecond
    have hmem : t ∈ r.2.broker.topics.keys :=
      ((Broker.createTopicIfNeeded_ok hc).2.2.2 t).mpr (.inr rfl)
    refine Eq.trans (legacyMatch_congr ?_) (legacyMatch_of_taken hnm hmem)
    intro x
    rw [hkeys x, List.mem_append]
    simp

/-- **Repeating a diff.** After a diff that returns, the same diff returns the same queue map and no new
node and makes no topic, exactly when there was nothing to record before the first one. -/
theorem diff_repeats_iff (hhex : ∀ s, '#' ∉ (env.blake3 s).toList)
    (hpre : preScan env request.dagJson = .ok pre) (h : prepareDiff env request (fresh st) = .ok r) :
    Repeats env request r ↔ Settled env pre request st := by
  obtain ⟨topics, hfresh⟩ := freshDiff_of_ok hpre h
  exact ⟨settled_of_repeats hhex hpre hfresh, repeats_of_settled hpre hfresh⟩

end Twice

def singleEnv : Env where
  u := Unicode.ascii
  blake3 _ := "65761fb188d5f6a04e596cc3d0e63e9fb259ed0f1fd021b0f5e46242975c012f"
  loads _ := some { nodes := [some {
    nodeId := some "blake3:0f1e2d3c4b5a6978", nodeType := "Indicator", codeHash := some "c0de01",
    schemaHash := some "5c4e", interval := some 60, tags := ["btc"] }] }
  namespaceEnabled := true

/-- The repository after the node has been written to it by other means than a diff. -/
def recordedState : State where
  repo := Function.update (fun _ => none) "blake3:0f1e2d3c4b5a6978" (some {
    kind := some .compute, codeHash := some "c0de01", schemaHash := some "5c4e",
    topic := some "btc_Indicator_0f1e2d3c_v1" })
  broker := ⟨.empty, false⟩
  bindings _ := .empty

/-- A diff of a recorded node can be repeated. -/
theorem diff_repeats_recorded :
    ∃ r, prepareDiff singleEnv ⟨"s", "", none, none, none, none, none⟩ (fresh recordedState) = .ok r ∧
      Repeats singleEnv ⟨"s", "", none, none, none, none, none⟩ r := by
  obtain ⟨r, hr, -⟩ := exists_ok (x := prepareDiff singleEnv ⟨"s", "", none, none, none, none, none⟩
    (fresh recordedState)) (fun _ => true) (by decide +kernel)
  obtain ⟨pre, hpre, hcheck⟩ := exists_ok (x := preScan singleEnv "") (fun pre =>
    (pre.nodes.all fun n => (record recordedState.repo n).isSome) && !pre.sentinelRequested &&
      (movedSpecs singleEnv pre recordedState.repo).isEmpty) (by decide +kernel)
  simp only [Bool.and_eq_true, List.all_eq_true, Bool.not_eq_true', List.isEmpty_iff] at hcheck
  obtain ⟨⟨hrecorded, hnone⟩, hmoved⟩ := hcheck
  have hhex : ∀ s, '#' ∉ (singleEnv.blake3 s).toList := by
    intro s
    show '#' ∉ "65761fb188d5f6a04e596cc3d0e63e9fb259ed0f1fd021b0f5e46242975c012f".toList
    decide
  refine ⟨r, hr, (diff_repeats_iff hhex hpre hr).mpr ⟨hrecorded, ?_, ?_⟩⟩
  · rintro n - ⟨hins, -⟩
    exact absurd hins.1 (by simp [hnone])
  · rw [hmoved]
    intro p hp
    cases hp

/-- The diff of a new node: the second one finds it new again, and makes another topic for it. -/
theorem diff_of_new_node_not_repeated :
    ∃ r, prepareDiff singleEnv ⟨"s", "", none, none, none, none, none⟩ (fresh State.empty) = .ok r ∧
      r.2.broker.topics.keys = ["btc_Indicator_0f1e2d3c_v1"] ∧
      (∃ r', prepareDiff singleEnv ⟨"s", "", none, none, none, none, none⟩ (fresh r.2) = .ok r' ∧
        r'.1.newNodes.map (·.nodeId) = ["blake3:0f1e2d3c4b5a6978"] ∧
        r'.2.broker.topics.keys = ["btc_Indicator_0f1e2d3c_v1", "btc_Indicator_0f1e2d3c4b_v1"]) ∧
      ¬ Repeats singleEnv ⟨"s", "", none, none, none, none, none⟩ r := by
  obtain ⟨r, hr, hcheck⟩ := exists_ok (x := prepareDiff singleEnv ⟨"s", "", none, none, none, none, none⟩
    (fresh State.empty)) (fun r => r.2.broker.topics.keys = ["btc_Indicator_0f1e2d3c_v1"] &&
      (prepareDiff singleEnv ⟨"s", "", none, none, none, none, none⟩ (fresh r.2)).toOption.any fun r' =>
        r'.1.newNodes.map (·.nodeId) = ["blake3:0f1e2d3c4b5a6978"] ∧
        r'.2.broker.topics.keys = ["btc_Indicator_0f1e2d3c_v1", "btc_Indicator_0f1e2d3c4b_v1"])
      (by decide +kernel)
  obtain ⟨htopics, hagain⟩ := Bool.and_eq_true_iff.mp hcheck
  obtain ⟨r', hr', hcheck'⟩ := exists_ok _ hagain
  have hcheck' := of_decide_eq_true hcheck'
  refine ⟨r, hr, of_decide_eq_true htopics, ⟨r', hr', hcheck'⟩, ?_⟩
  rintro ⟨r'', hr'', -, hnew, -⟩
  cases hr'.symm.trans hr''
  rw [hnew] at hcheck'
  exact absurd hcheck'.1 (by simp)

end DiffService

end Qmtl.DagManager

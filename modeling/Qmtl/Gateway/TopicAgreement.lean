import Qmtl.DagManager.TopicBinding
import Qmtl.DagManager.DiffService

/-! Whether the topics that the client hands out are topics that the server has bound.

The client, `DagManagerClient.diff` of the gateway, puts the namespace it has inferred from the request
before every topic that lacks it. -/

namespace Qmtl.Gateway

open Lib Foundation DagManager

structure DiffNamespace where
  ns : Option String
  domain : Option String
  worldId : Option String

section Client

variable (env : DagManager.Env)

def present (v : Option String) : Option String := v.bind ComputeContext.orNone

def inferNamespace (dagJson : String) (worldId : Option String) : Option String × Option String :=
  let metaObj := (env.loads dagJson).bind (·.metaObj)
  let named := metaObj.bind fun m => normalizeNamespace env.u m.topicNamespace
  let domain := metaObj.bind fun m =>
    match m.values "execution_domain" with
    | .str s => stripped s
    | _ => none
  match present named, present worldId with
  | none, some w => (buildNamespace env.u (.str w) ((domain.map Value.str).getD .null), domain)
  | _, _ => (named, domain)

def buildDiffNamespace (dagJson : String) (worldId executionDomain : Option String) : DiffNamespace :=
  if env.namespaceEnabled then
    let (ns, inferred) := inferNamespace env dagJson worldId
    ⟨ns, (present executionDomain).or (inferred.or executionDomain), worldId⟩
  else ⟨none, executionDomain, worldId⟩

namespace DiffNamespace

variable (d : DiffNamespace)

def applied : Option String :=
  if env.namespaceEnabled then
    match present d.ns, present d.worldId with
    | some ns, _ => some ns
    | none, some w => buildNamespace env.u (.str w) (.str ((present d.domain).getD "live"))
    | none, none => none
  else none

def apply (queueMap : Dict String String) : Dict String String :=
  match present (d.applied env) with
  | some ns => queueMap.mapValues fun topic => ensureNamespace env.u topic (some ns)
  | none => queueMap

def buildDiffRequest (strategyId dagJson : String) (asOf partition datasetFingerprint : Option String) :
    DiffRequest where
  strategyId := strategyId
  dagJson := dagJson
  worldId := present d.worldId
  executionDomain := present d.domain
  asOf := present asOf
  partition := present partition
  datasetFingerprint := present datasetFingerprint

end DiffNamespace

def diffRequest (strategyId dagJson : String)
    (worldId executionDomain asOf partition datasetFingerprint : Option String) : DiffRequest :=
  (buildDiffNamespace env dagJson worldId executionDomain).buildDiffRequest strategyId dagJson asOf partition
    datasetFingerprint

end Client

open DagManager.DiffService

variable {env : DagManager.Env} {u : Unicode}

/-! ### Prefixes -/

variable {n : NodeInfo} {ns : Option String} {pre topic : String}

lemma startsWith_iff {s : String} : startsWith pre s ↔ ∃ rest, s = pre ++ rest := by
  unfold startsWith
  rw [List.isPrefixOf_iff_prefix]
  constructor
  · rintro ⟨rest, hr⟩
    refine ⟨String.ofList rest, String.toList_injective ?_⟩
    rw [String.toList_append, String.toList_ofList, hr]
  · rintro ⟨rest, rfl⟩
    exact ⟨rest.toList, String.toList_append.symm⟩

lemma startsWith_append (pre s : String) : startsWith pre (pre ++ s) := startsWith_iff.mpr ⟨s, rfl⟩

lemma startsWith_trans {p q s : String} (h : startsWith p q) (h' : startsWith q s) : startsWith p s := by
  obtain ⟨r, rfl⟩ := startsWith_iff.mp h
  obtain ⟨r', rfl⟩ := startsWith_iff.mp h'
  rw [String.append_assoc]
  exact startsWith_append _ _

lemma namespacePrefix_ne (h : namespacePrefix u ns = some pre) : pre.length ≠ 0 := by
  obtain ⟨name, -, rfl⟩ := Option.map_eq_some_iff.mp h
  simp

lemma ensureNamespace_of_none (h : namespacePrefix u ns = none) : ensureNamespace u topic ns = topic := by
  unfold ensureNamespace
  rw [h]

lemma ensureNamespace_of_some (h : namespacePrefix u ns = some pre) :
    ensureNamespace u topic ns = if startsWith pre topic then topic else pre ++ topic := by
  unfold ensureNamespace
  rw [h]

lemma startsWith_ensureNamespace (h : namespacePrefix u ns = some pre) :
    startsWith pre (ensureNamespace u topic ns) := by
  rw [ensureNamespace_of_some h]
  split
  · assumption
  · exact startsWith_append _ _

lemma ensureNamespace_eq_self (h : namespacePrefix u ns = some pre) :
    ensureNamespace u topic ns = topic ↔ startsWith pre topic := by
  rw [ensureNamespace_of_some h]
  constructor
  · intro heq
    by_contra hnot
    rw [if_neg hnot] at heq
    have hlen := congrArg String.length heq
    rw [String.length_append] at hlen
    have hne := namespacePrefix_ne h
    omega
  · intro hs
    rw [if_pos hs]

/-! ### What the server binds -/

lemma topicName_prefixed {t : TopicSpec} {taken : List String} {name : String}
    (hpre : namespacePrefix u t.ns = some pre) (h : topicName u t taken = .ok name) :
    startsWith pre name ∨ (name ∈ t.legacyBases ∧ name ∈ taken) := by
  unfold topicName at h
  split at h
  · rename_i found hfn
    obtain rfl := Except.ok.inj h
    have ht : found ∈ taken := by simpa using List.find?_some hfn
    obtain ⟨base, hb, hc⟩ := List.mem_flatMap.mp (List.mem_of_find?_eq_some hfn)
    unfold TopicSpec.candidates at hc
    dsimp only at hc
    split at hc
    · rcases List.mem_cons.mp hc with rfl | hc
      · exact .inl (startsWith_ensureNamespace hpre)
      · obtain rfl := List.mem_singleton.mp hc
        exact .inr ⟨hb, ht⟩
    · obtain rfl := List.mem_singleton.mp hc
      exact .inl (startsWith_ensureNamespace hpre)
  · split at h
    · rename_i fresh hf
      cases h
      left
      rcases Option.or_eq_some_iff.mp hf with hf | ⟨-, hf⟩
      · obtain ⟨len, -, rfl⟩ := List.mem_map.mp (List.mem_of_find?_eq_some hf)
        exact startsWith_ensureNamespace hpre
      · rcases List.mem_cons.mp (List.mem_of_find?_eq_some hf) with rfl | hnum
        · exact startsWith_ensureNamespace hpre
        · obtain ⟨i, -, rfl⟩ := List.mem_map.mp hnum
          rw [String.append_assoc]
          exact startsWith_trans (startsWith_ensureNamespace hpre) (startsWith_append _ _)
    · cases h

section Bound

variable {version : String} {ns : Option String} {pre : String} {taken : List String} {b b' : Broker}

/-- Every topic of the broker was there at first, or carries the namespace. -/
def Added (pre : String) (taken : List String) (b : Broker) : Prop :=
  ∀ x ∈ b.topics.keys, x ∈ taken ∨ startsWith pre x = true

lemma upsert_prefixed {n : NodeInfo} {name : String} (hpre : namespacePrefix env.u ns = some pre)
    (hadd : Added pre taken b) (h : b.upsert env.u (topicSpec env n version ns) = .ok (name, b')) :
    Added pre taken b' ∧
      (startsWith pre name ∨ (name ∈ (topicSpec env n version ns).legacyBases ∧ name ∈ taken)) := by
  obtain ⟨hn, hc⟩ := Broker.upsert_ok.mp h
  have hk : startsWith pre name ∨
      (name ∈ (topicSpec env n version ns).legacyBases ∧ name ∈ taken) := by
    rcases topicName_prefixed hpre hn with hs | ⟨hb, ht⟩
    · exact .inl hs
    · rcases hadd name ht with hfirst | hs
      · exact .inr ⟨hb, hfirst⟩
      · exact .inl hs
  refine ⟨?_, hk⟩
  intro x hx
  obtain ⟨-, -, -, hkeys⟩ := Broker.createTopicIfNeeded_ok hc
  rcases (hkeys x).mp hx with hx | rfl
  · exact hadd x hx
  · rcases hk with hs | ⟨-, hfirst⟩
    · exact .inr hs
    · exact .inl hfirst

lemma applyNamespace_prefixed {n : NodeInfo} {topic name : String} (hpre : namespacePrefix env.u ns = some pre)
    (hadd : Added pre taken b) (h : applyNamespace env b topic n version ns = .ok (name, b')) : Added pre taken b' ∧
      (startsWith pre name ∨ (name ∈ (topicSpec env n version ns).legacyBases ∧ name ∈ taken)) := by
  unfold applyNamespace at h
  split at h
  · rename_i hn
    rcases hn with rfl | rfl
    · cases hpre
    · cases hpre
  · split at h
    · rename_i hs
      cases Except.ok.inj h
      exact ⟨hadd, .inl ((ensureNamespace_eq_self hpre).mp hs)⟩
    · exact upsert_prefixed hpre hadd h

lemma bindTopic_prefixed {e : PlanEntry} {name : String} (hpre : namespacePrefix env.u ns = some pre)
    (hadd : Added pre taken b) (h : bindTopic env version ns b e = .ok (name, b')) : Added pre taken b' ∧
      (startsWith pre name ∨ (name ∈ (topicSpec env e.node version ns).legacyBases ∧ name ∈ taken)) := by
  unfold bindTopic at h
  split at h
  · exact applyNamespace_prefixed hpre hadd h
  · obtain ⟨⟨first, b₁⟩, hfirst, h⟩ := bind_ok.mp h
    exact applyNamespace_prefixed hpre (upsert_prefixed hpre hadd hfirst).1 h

/-- **The topics of a diff under a namespace** carry it, or are bare ones that were there before. -/
theorem bindTopics_prefixed {plan : List PlanEntry} {topics : List String}
    (hpre : namespacePrefix env.u ns = some pre) (hadd : Added pre taken b)
    (h : bindTopics env version ns plan b = .ok (topics, b')) : ∀ p ∈ plan.zip topics, startsWith pre p.2 ∨
      (p.2 ∈ (topicSpec env p.1.node version ns).legacyBases ∧ p.2 ∈ taken) := by
  induction plan generalizing b topics with
  | nil => simp
  | cons e plan ih =>
    obtain ⟨t, b₁, ts, ht, hts, rfl⟩ := bindTopics_cons.mp h
    obtain ⟨ha₁, hk⟩ := bindTopic_prefixed hpre hadd ht
    intro p hp
    rcases List.mem_cons.mp hp with rfl | hp
    · exact hk
    · exact ih ha₁ hts p hp

end Bound

def Served (env : DagManager.Env) (d : DiffNamespace) (queueMap : Dict String String) : Prop :=
  ∀ t ∈ (d.apply env queueMap).values, t ∈ queueMap.values

/-- The client's namespace does no harm: it has none, or there is nothing to rewrite, or the server's
namespace starts with it and so does every bare name that a node may find among the topics. -/
def Harmless (env : DagManager.Env) (applied : Option String) (pre : PreScan) (taken : List String) : Prop :=
  namespacePrefix env.u (present applied) = none ∨ pre.nodes = [] ∨
    ∃ p p', namespacePrefix env.u (present applied) = some p ∧ namespacePrefix env.u pre.ns = some p' ∧
      startsWith p p' = true ∧ ∀ n ∈ pre.nodes, ∀ base ∈ (topicSpec env n pre.version pre.ns).legacyBases,
        base ∈ taken → startsWith p base = true

variable {pre : PreScan} {request : DiffRequest} {st : State} {topics : List String} {r : DiffPlan × State}
  {d : DiffNamespace}

lemma apply_values (d : DiffNamespace) (m : Dict String String) :
    (d.apply env m).values = m.values.map fun t => ensureNamespace env.u t (present (d.applied env)) := by
  unfold DiffNamespace.apply
  cases hns : present (d.applied env) with
  | none =>
    have hid : (fun t => ensureNamespace env.u t none) = id := by
      funext t
      exact ensureNamespace_of_none rfl
    rw [hid, List.map_id]
  | some ns => rw [Dict.values_mapValues]

lemma mem_topics {t : String} (h : FreshDiff env pre request st topics r) (ht : t ∈ r.1.queueMap.values) :
    t ∈ topics := by
  rw [h.queueMap] at ht
  obtain ⟨⟨k, t'⟩, hmem, rfl⟩ := List.mem_map.mp ht
  exact (List.of_mem_zip (Dict.mem_entries_ofList hmem)).2

lemma served_of_harmless (h : FreshDiff env pre request st topics r)
    (hh : Harmless env (d.applied env) pre st.broker.topics.keys) : Served env d r.1.queueMap := by
  intro t ht
  rw [apply_values] at ht
  obtain ⟨v, hv, rfl⟩ := List.mem_map.mp ht
  rcases hh with hnn | hnd | ⟨p, p', hp, hp', hst, hbs⟩
  · rw [ensureNamespace_of_none hnn]
    exact hv
  · have hmem := mem_topics h hv
    have hlen := length_topics h
    rw [hnd] at hlen
    rw [List.eq_nil_of_length_eq_zero hlen] at hmem
    cases hmem
  · have hv' : startsWith p v := by
      have hadd : Added p' st.broker.topics.keys st.broker := fun x hx => .inl hx
      have hall := bindTopics_prefixed hp' hadd h.bound
      have hsnd : v ∈ ((pre.nodes.map (entryOf st.repo)).zip topics).map Prod.snd := by
        rw [List.map_snd_zip (by rw [List.length_map, length_topics h])]
        exact mem_topics h hv
      obtain ⟨q, hq, rfl⟩ := List.mem_map.mp hsnd
      rcases hall q hq with hs | ⟨hb, htk⟩
      · exact startsWith_trans hst hs
      · obtain ⟨n, hn, hen⟩ := List.mem_map.mp (List.of_mem_zip hq).1
        rw [← hen] at hb
        exact hbs n hn _ hb htk
    rw [(ensureNamespace_eq_self hp).mpr hv']
    exact hv

/-! ### States in which the client's topics are not served -/

def recordAll (nodes : List NodeInfo) (q : NodeInfo → Bool) (topic : String) : Repository := fun id =>
  ((nodes.find? (·.nodeId = id)).filter q).map fun n =>
    { kind := some .compute, codeHash := some n.codeHash, topic := some topic }

lemma record_recordAll {nodes : List NodeInfo} (hnd : (nodes.map (·.nodeId)).Nodup) (hn : n ∈ nodes)
    (q : NodeInfo → Bool) (topic : String) :
    record (recordAll nodes q topic) n = if q n then some ⟨n.codeHash, "", topic, []⟩ else none := by
  have hf : nodes.find? (·.nodeId = n.nodeId) = some n := by
    obtain ⟨m, hm⟩ := Option.isSome_iff_exists.mp
      (List.find?_isSome.mpr ⟨n, hn, by simp⟩ : (nodes.find? (·.nodeId = n.nodeId)).isSome)
    have hid : m.nodeId = n.nodeId := by simpa using List.find?_some hm
    rw [hm, List.inj_on_of_nodup_map hnd (List.mem_of_find?_eq_some hm) hn hid]
  by_cases hq : q n
  · simp [record, Repository.getNode, recordAll, hf, hq, Option.filter]
  · simp [record, Repository.getNode, recordAll, hf, hq, Option.filter]

lemma not_crossed_recordAll {nodes : List NodeInfo} (hnd : (nodes.map (·.nodeId)).Nodup) (hn : n ∈ nodes)
    (q : NodeInfo → Bool) (topic : String) : ¬ Crossed (recordAll nodes q topic) n := by
  rintro ⟨rec, hrec, -, hkeys⟩
  rw [record_recordAll hnd hn] at hrec
  split at hrec
  · cases hrec
    exact hkeys rfl
  · cases hrec

lemma bindTopic_kept {version : String} {buffering : Bool}
    (ht : ∀ pre, namespacePrefix env.u ns = some pre → startsWith pre topic) (b : Broker) :
    bindTopic env version ns b ⟨n, some topic, buffering⟩ = .ok (topic, b) := by
  show applyNamespace env b topic n version ns = .ok (topic, b)
  have hs : ensureNamespace env.u topic ns = topic := by
    cases hns : namespacePrefix env.u ns with
    | none => exact ensureNamespace_of_none hns
    | some pre => exact (ensureNamespace_eq_self hns).mpr (ht pre hns)
  unfold applyNamespace
  rw [if_pos hs, ite_self]

def oneTopic (u : Unicode) (name nodeType : String) : Broker where
  topics := Dict.empty.set name ⟨some (topicConfig u nodeType).partitions,
    some (topicConfig u nodeType).replicationFactor, some (topicConfig u nodeType).retentionMs,
    (topicConfig u nodeType).cleanupPolicy⟩
  breakerOpen := false

lemma oneTopic_verified (u : Unicode) (name nodeType : String) :
    Broker.Verified u (oneTopic u name nodeType) name (topicConfig u nodeType) := by
  refine ⟨_, Dict.get?_set_self _ _ _, Broker.verifyTopic_ok.mpr ⟨?_, ?_⟩⟩
  · intro existing hex _
    rcases Dict.mem_keys_set.mp hex with h | h
    · exact h
    · cases h
  · unfold Broker.validateMetadata
    simp only [Option.any_some, ne_eq, not_true_eq_false, decide_false, Bool.false_eq_true, if_false]
    rw [if_neg]
    rintro ⟨hs, hne⟩
    split at hne
    · rename_i hn
      rw [hn.1] at hs
      cases hs
    · exact hne rfl

lemma bindTopic_bare {version : String} {base : String} {buffering : Bool}
    (hb : base ∈ (topicSpec env n version ns).legacyBases) :
    bindTopic env version ns (oneTopic env.u base n.nodeType) ⟨n, none, buffering⟩ =
      .ok (base, oneTopic env.u base n.nodeType) := by
  have hkeys : ∀ x, x ∈ (oneTopic env.u base n.nodeType).topics.keys ↔ x = base := by
    intro x
    rw [oneTopic, Dict.mem_keys_set]
    simp [Dict.keys, Dict.empty]
  have hm : (topicSpec env n version ns).legacyMatch env.u (oneTopic env.u base n.nodeType).topics.keys =
      some base := by
    unfold TopicSpec.legacyMatch
    have hc : base ∈ (topicSpec env n version ns).legacyBases.flatMap
        ((topicSpec env n version ns).candidates env.u) := by
      refine List.mem_flatMap.mpr ⟨base, hb, ?_⟩
      unfold TopicSpec.candidates
      dsimp only
      split
      · simp
      · rename_i hs
        simp [not_not.mp hs]
    obtain ⟨found, hf⟩ := Option.isSome_iff_exists.mp (List.find?_isSome
      (p := fun x => decide (x ∈ (oneTopic env.u base n.nodeType).topics.keys)) |>.mpr
      ⟨base, hc, decide_eq_true ((hkeys base).mpr rfl)⟩)
    rw [hf, (hkeys found).mp (by simpa using List.find?_some hf)]
  have hup : (oneTopic env.u base n.nodeType).upsert env.u (topicSpec env n version ns) =
      .ok (base, oneTopic env.u base n.nodeType) :=
    Broker.upsert_ok.mpr ⟨topicName_of_legacyMatch hm,
      Broker.createTopicIfNeeded_self rfl (oneTopic_verified _ _ _)⟩
  have hap : applyNamespace env (oneTopic env.u base n.nodeType) base n version ns =
      .ok (base, oneTopic env.u base n.nodeType) := by
    unfold applyNamespace
    split
    · rfl
    · split
      · rfl
      · exact hup
  exact bind_ok.mpr ⟨_, hup, hap⟩

section Always

variable (hhex : ∀ s, '#' ∉ (env.blake3 s).toList) (hpre : preScan env request.dagJson = .ok pre)
  (hall : ∀ st r, prepareDiff env request (fresh st) = .ok r → Served env d r.1.queueMap)

include hhex hpre hall

lemma rewritten_of_always (repo : Repository) (b : Broker) (f : NodeInfo → String)
    (hunc : ∀ n ∈ pre.nodes, ¬ Crossed repo n)
    (hbn : ∀ n ∈ pre.nodes, bindTopic env pre.version pre.ns b (entryOf repo n) = .ok (f n, b)) :
    ∀ n ∈ pre.nodes, ∃ m ∈ pre.nodes, ensureNamespace env.u (f n) (present (d.applied env)) = f m := by
  have hb : bindTopics env pre.version pre.ns (pre.nodes.map (entryOf repo)) b =
      .ok (pre.nodes.map f, b) := by
    refine bindTopics_of_forall₂ ?_
    rw [List.forall₂_map_left_iff, List.forall₂_map_right_iff, List.forall₂_same]
    exact hbn
  obtain ⟨r, hr, hf⟩ := freshDiff_exists ⟨repo, b, fun _ => .empty⟩ hpre hunc hb
  have hv : r.1.queueMap.values = pre.nodes.map f := by
    rw [hf.queueMap]
    exact Dict.values_ofList_zip (partitionKeys_nodup hhex hpre) (by simp)
  have hs := hall _ r hr
  unfold Served at hs
  rw [apply_values, hv, List.map_map] at hs
  intro n hn
  obtain ⟨m, hm, heq⟩ := List.mem_map.mp (hs _ (List.mem_map_of_mem hn))
  exact ⟨m, hm, heq.symm⟩

lemma startsWith_of_always {p : String} (hp : namespacePrefix env.u (present (d.applied env)) = some p)
    (hno : pre.nodes ≠ []) : ∃ p', namespacePrefix env.u pre.ns = some p' ∧ startsWith p p' := by
  obtain ⟨-, hnd⟩ := scanned_of_preScan hpre
  -- all nodes are recorded under the bare prefix of the server
  let topic := (namespacePrefix env.u pre.ns).getD ""
  have ht : ∀ p', namespacePrefix env.u pre.ns = some p' → startsWith p' topic := by
    intro p' hp'
    have htop : topic = p' := by simp [topic, hp']
    rw [htop]
    exact startsWith_iff.mpr ⟨"", by simp⟩
  obtain ⟨n, rest, hc⟩ := List.exists_cons_of_ne_nil hno
  have hn : n ∈ pre.nodes := by simp [hc]
  obtain ⟨m, -, heq⟩ := rewritten_of_always hhex hpre hall (recordAll pre.nodes (fun _ => true) topic)
    ⟨.empty, false⟩ (fun _ => topic)
    (fun n hn => not_crossed_recordAll hnd hn _ _)
    (fun n hn => by
      unfold entryOf
      rw [record_recordAll hnd hn]
      exact bindTopic_kept ht _) n hn
  have hs : startsWith p topic := (ensureNamespace_eq_self hp).mp heq
  cases hp' : namespacePrefix env.u pre.ns with
  | none =>
    obtain ⟨rest, hr⟩ := startsWith_iff.mp hs
    have hlen := congrArg String.length hr
    rw [String.length_append, show topic = "" by simp [topic, hp'], String.length_empty] at hlen
    have hne := namespacePrefix_ne hp
    omega
  | some p' =>
    refine ⟨p', rfl, ?_⟩
    have htop : topic = p' := by simp [topic, hp']
    rw [← htop]
    exact hs

lemma bare_of_always {p p' : String} (hp : namespacePrefix env.u (present (d.applied env)) = some p)
    (hp' : namespacePrefix env.u pre.ns = some p') {n : NodeInfo} (hn : n ∈ pre.nodes) {base : String}
    (hb : base ∈ (topicSpec env n pre.version pre.ns).legacyBases) : startsWith p base := by
  obtain ⟨-, hnd⟩ := scanned_of_preScan hpre
  -- the node is new and finds the bare topic, the others are recorded under a longer one
  let topic := p' ++ (p ++ base)
  obtain ⟨m, hm, heq⟩ := rewritten_of_always hhex hpre hall
    (recordAll pre.nodes (fun m => m.nodeId ≠ n.nodeId) topic) (oneTopic env.u base n.nodeType)
    (fun m => if m.nodeId = n.nodeId then base else topic) (fun n hn => not_crossed_recordAll hnd hn _ _)
    (fun m hm => by
      unfold entryOf
      rw [record_recordAll hnd hm]
      by_cases hid : m.nodeId = n.nodeId
      · obtain rfl := List.inj_on_of_nodup_map hnd hm hn hid
        simpa using bindTopic_bare hb
      · rw [if_pos (by simpa using hid), if_neg hid]
        refine bindTopic_kept ?_ _
        intro pre' hpr'
        cases hp'.symm.trans hpr'
        exact startsWith_append _ _) n hn
  rw [if_pos rfl] at heq
  by_contra hnot
  rw [ensureNamespace_of_some hp, if_neg hnot] at heq
  have hlen := congrArg String.length heq
  have hne := namespacePrefix_ne hp
  have hne' := namespacePrefix_ne hp'
  by_cases hid : m.nodeId = n.nodeId
  · rw [if_pos hid, String.length_append] at hlen
    omega
  · rw [if_neg hid] at hlen
    simp only [topic, String.length_append] at hlen
    omega

end Always

/-- **Topics of the client.** Whatever its state, the server has bound every topic that the client
returns if the namespace of the client does no harm there; and it has done so in all states exactly when
that namespace does no harm whatever topics there are. -/
theorem client_topics_served (hhex : ∀ s, '#' ∉ (env.blake3 s).toList) (dagJson : String)
    (worldId executionDomain : Option String) (strategyId : String)
    (asOf partition datasetFingerprint : Option String) :
    (∀ st r, prepareDiff env (diffRequest env strategyId dagJson worldId executionDomain asOf partition
        datasetFingerprint) (fresh st) = .ok r → (∀ pre, preScan env dagJson = .ok pre →
        Harmless env ((buildDiffNamespace env dagJson worldId executionDomain).applied env) pre
          st.broker.topics.keys) →
      Served env (buildDiffNamespace env dagJson worldId executionDomain) r.1.queueMap) ∧
    ((∀ st r, prepareDiff env (diffRequest env strategyId dagJson worldId executionDomain asOf partition
        datasetFingerprint) (fresh st) = .ok r →
      Served env (buildDiffNamespace env dagJson worldId executionDomain) r.1.queueMap) ↔
      ∀ pre, preScan env dagJson = .ok pre → ∀ taken,
        Harmless env ((buildDiffNamespace env dagJson worldId executionDomain).applied env) pre taken) := by
  unfold diffRequest
  generalize buildDiffNamespace env dagJson worldId executionDomain = d
  let request := d.buildDiffRequest strategyId dagJson asOf partition datasetFingerprint
  have hsuff : ∀ st r, prepareDiff env request (fresh st) = .ok r →
      (∀ pre, preScan env dagJson = .ok pre → Harmless env (d.applied env) pre st.broker.topics.keys) →
        Served env d r.1.queueMap := by
    intro st r hr hharm
    obtain ⟨pre, hpre, -⟩ := bind_ok.mp hr
    obtain ⟨topics, hfresh⟩ := freshDiff_of_ok hpre hr
    exact served_of_harmless hfresh (hharm pre hpre)
  refine ⟨hsuff, ?_, ?_⟩
  · intro hall pre hpre taken
    have hpre : preScan env request.dagJson = .ok pre := hpre
    cases hp : namespacePrefix env.u (present (d.applied env)) with
    | none => exact .inl hp
    | some p =>
      by_cases hnodes : pre.nodes = []
      · exact .inr (.inl hnodes)
      · obtain ⟨p', hp', hstart⟩ := startsWith_of_always hhex hpre hall hp hnodes
        refine .inr (.inr ⟨p, p', hp, hp', hstart, ?_⟩)
        intro n hn base hbase _
        exact bare_of_always hhex hpre hall hp hp' hn hbase
  · intro hharm st r hr
    exact hsuff st r hr fun pre hpre => hharm pre hpre _

def namedEnv (ns : TopicNamespace) : DagManager.Env where
  u := Unicode.ascii
  blake3 _ := "65761fb188d5f6a04e596cc3d0e63e9fb259ed0f1fd021b0f5e46242975c012f"
  loads _ := some {
    nodes := [some {
      nodeId := some "blake3:0f1e2d3c4b5a6978", nodeType := "Indicator", codeHash := some "c0de01",
      schemaHash := some "5c4e", interval := some 60, tags := ["btc"] }],
    metaObj := some ⟨fun _ => .null, ns, none⟩ }
  namespaceEnabled := true

/-- Both sides take the namespace that the DAG names. -/
theorem client_topics_served_named :
    let env := namedEnv (.str "alpha.beta")
    let d := buildDiffNamespace env "" (some "w1") (some "live")
    ∃ r, prepareDiff env (diffRequest env "s" "" (some "w1") (some "live") none none none) (fresh State.empty) = .ok r ∧
      r.1.queueMap.values = ["alpha.beta.btc_Indicator_0f1e2d3c_v1"] ∧ Served env d r.1.queueMap := by
  intro env d
  obtain ⟨r, hr, hvalues⟩ := exists_ok (x := prepareDiff env (diffRequest env "s" "" (some "w1") (some "live") none none none)
    (fresh State.empty)) (fun r => r.1.queueMap.values = ["alpha.beta.btc_Indicator_0f1e2d3c_v1"])
    (by decide +kernel)
  have hhex : ∀ s, '#' ∉ (env.blake3 s).toList := by
    intro s
    show '#' ∉ "65761fb188d5f6a04e596cc3d0e63e9fb259ed0f1fd021b0f5e46242975c012f".toList
    decide
  refine ⟨r, hr, of_decide_eq_true hvalues,
    (client_topics_served hhex "" (some "w1") (some "live") "s" none none none).1 State.empty r hr ?_⟩
  intro pre hpre
  obtain ⟨pre', hpre', hns⟩ := exists_ok (x := preScan env "") (fun pre => pre.ns = some "alpha.beta")
    (by decide +kernel)
  cases hpre'.symm.trans hpre
  refine .inr (.inr ⟨"alpha.beta.", "alpha.beta.", by decide +kernel, ?_, by decide +kernel, ?_⟩)
  · rw [of_decide_eq_true hns]
    decide +kernel
  · intro n _ base _ htaken
    cases htaken

/-- The DAG names no namespace and no world, the request does: the client's topic is not the one that
the server has made. -/
theorem client_invents_topic :
    let env := namedEnv .none
    let d := buildDiffNamespace env "" (some "w1") (some "live")
    ∃ r, prepareDiff env (diffRequest env "s" "" (some "w1") (some "live") none none none) (fresh State.empty) = .ok r ∧
      r.1.queueMap.values = ["btc_Indicator_0f1e2d3c_v1"] ∧
      (d.apply env r.1.queueMap).values = ["w1.live.btc_Indicator_0f1e2d3c_v1"] ∧
      ¬ Served env d r.1.queueMap := by
  intro env d
  obtain ⟨r, hr, hcheck⟩ := exists_ok (x := prepareDiff env (diffRequest env "s" "" (some "w1") (some "live") none none none)
    (fresh State.empty)) (fun r => r.1.queueMap.values = ["btc_Indicator_0f1e2d3c_v1"] ∧
      (d.apply env r.1.queueMap).values = ["w1.live.btc_Indicator_0f1e2d3c_v1"]) (by decide +kernel)
  obtain ⟨hserver, hclient⟩ := of_decide_eq_true hcheck
  refine ⟨r, hr, hserver, hclient, ?_⟩
  intro hserved
  have hmem := hserved "w1.live.btc_Indicator_0f1e2d3c_v1" (by simp [hclient])
  rw [hserver] at hmem
  exact absurd hmem (by decide)

end Qmtl.Gateway

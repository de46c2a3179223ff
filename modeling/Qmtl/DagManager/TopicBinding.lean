import Qmtl.DagManager.FreshDiff

/-!
Topics as the broker keeps them: a topic that was made stays and passes its checks again, and a name that
is taken already is given once more only if it was found by the code hash.
-/

namespace Qmtl.DagManager

open Lib Foundation

/-! ### The broker -/

namespace Broker

variable {u : Unicode} {b b' b'' : Broker}

def Verified (u : Unicode) (b : Broker) (name : String) (config : TopicConfig) : Prop :=
  ∃ info, b.topics.get? name = some info ∧ b.verifyTopic u name info config = .ok ()

structure Extends (u : Unicode) (b b' : Broker) : Prop where
  breaker : b'.breakerOpen = b.breakerOpen
  topics : b.topics.entries <+: b'.topics.entries
  verified : ∀ name config, Verified u b name config → Verified u b' name config

lemma Extends.refl (b : Broker) : Extends u b b := ⟨rfl, List.prefix_rfl, fun _ _ h => h⟩

lemma Extends.trans (h : Extends u b b') (h' : Extends u b' b'') : Extends u b b'' :=
  ⟨h'.breaker.trans h.breaker, h.topics.trans h'.topics,
    fun name config hv => h'.verified name config (h.verified name config hv)⟩

lemma Extends.eq_left (h : Extends u b b') (h' : Extends u b' b'') (heq : b''.topics = b.topics) : b' = b := by
  have hen : b'.topics.entries = b.topics.entries := by
    have hle := h.topics.length_le
    have hle' := h'.topics.length_le
    rw [heq] at hle'
    exact (h.topics.eq_of_length (by omega)).symm
  obtain ⟨topics, breaker⟩ := b
  obtain ⟨topics', breaker'⟩ := b'
  obtain rfl : breaker' = breaker := h.breaker
  obtain rfl : topics' = topics := Dict.ext hen
  rfl

variable {config : TopicConfig}

variable {name : String}

lemma verifyTopic_ok {info : TopicInfo} : b.verifyTopic u name info config = .ok () ↔
      (∀ existing ∈ b.topics.keys, u.lower.fn existing = u.lower.fn name → existing = name) ∧
        validateMetadata name info config = .ok () := by
  unfold verifyTopic
  split
  · rename_i hany
    obtain ⟨existing, hmem, hcol⟩ := List.any_eq_true.mp hany
    have hcol := of_decide_eq_true hcol
    constructor
    · intro h
      cases h
    · intro h
      exact absurd (h.1 existing hmem hcol.1) hcol.2
  · rename_i hn
    refine ⟨fun h => ⟨?_, h⟩, fun h => h.2⟩
    intro existing hmem hlower
    by_contra hne
    exact hn (List.any_eq_true.mpr ⟨existing, hmem, decide_eq_true ⟨hlower, hne⟩⟩)

lemma verified_set {name name' : String} {config' : TopicConfig} {info made : TopicInfo}
    (hv : Verified u b name config) (hnew : name' ∉ b.topics.keys)
    (hm : ({ b with topics := b.topics.set name' made } : Broker).verifyTopic u name' info config' = .ok ()) :
    Verified u { b with topics := b.topics.set name' made } name config := by
  obtain ⟨own, hget, hown⟩ := hv
  obtain ⟨hl, hvalid⟩ := verifyTopic_ok.mp hown
  have hmem : name ∈ b.topics.keys := by
    by_contra hnot
    rw [Dict.get?_eq_none.mpr hnot] at hget
    cases hget
  have hne : name ≠ name' := fun h => hnew (h ▸ hmem)
  refine ⟨own, (Dict.get?_set_ne _ _ hne).trans hget, verifyTopic_ok.mpr ⟨?_, hvalid⟩⟩
  intro existing hex hlower
  rcases Dict.mem_keys_set.mp hex with rfl | hex
  · -- the check of the new topic has looked at this one
    exact absurd ((verifyTopic_ok.mp hm).1 name (Dict.mem_keys_set.mpr (.inr hmem)) hlower.symm) hne
  · exact hl existing hex hlower

lemma createTopicIfNeeded_ok (h : b.createTopicIfNeeded u name config = .ok b') :
    b.breakerOpen = false ∧ Extends u b b' ∧ Verified u b' name config ∧
      (∀ x, x ∈ b'.topics.keys ↔ x ∈ b.topics.keys ∨ x = name) := by
  unfold createTopicIfNeeded at h
  split at h
  · cases h
  · rename_i hopen
    cases hget : b.topics.get? name with
    | some info =>
      simp only [hget, Option.isSome_some, if_true, Option.getD_some] at h
      cases hv : b.verifyTopic u name info config with
      | error e =>
        rw [hv] at h
        cases h
      | ok _ =>
        rw [hv] at h
        cases h
        refine ⟨by simpa using hopen, .refl b, ⟨info, hget, hv⟩, ?_⟩
        intro x
        have hmem : name ∈ b.topics.keys := by
          by_contra hnot
          rw [Dict.get?_eq_none.mpr hnot] at hget
          cases hget
        constructor
        · exact .inl
        · rintro (hx | rfl)
          · exact hx
          · exact hmem
    | none =>
      have hnew : name ∉ b.topics.keys := Dict.get?_eq_none.mp hget
      simp only [hget, Option.isSome_none, Bool.false_eq_true, if_false, Option.getD_none] at h
      generalize hm : TopicInfo.mk (some config.partitions) (some config.replicationFactor)
        (some config.retentionMs) config.cleanupPolicy = made at h
      cases hv : verifyTopic u { b with topics := b.topics.set name made } name made config with
      | error e =>
        rw [hv] at h
        cases h
      | ok _ =>
        rw [hv] at h
        cases h
        refine ⟨by simpa using hopen, ⟨rfl, ?_, ?_⟩, ⟨made, Dict.get?_set_self _ _ _, hv⟩, ?_⟩
        · rw [Dict.entries_set_of_notMem made hnew]
          exact List.prefix_append _ _
        · intro name' config' hv'
          exact verified_set hv' hnew hv
        · intro x
          rw [or_comm]
          exact Dict.mem_keys_set

lemma createTopicIfNeeded_self (hopen : b.breakerOpen = false) (hv : Verified u b name config) :
    b.createTopicIfNeeded u name config = .ok b := by
  obtain ⟨info, hget, hok⟩ := hv
  unfold createTopicIfNeeded
  simp [hopen, hget, hok, Except.map]

lemma upsert_ok {t : TopicSpec} : b.upsert u t = .ok (name, b') ↔ topicName u t b.topics.keys = .ok name ∧
      b.createTopicIfNeeded u name (topicConfig u t.nodeType) = .ok b' := by
  constructor
  · intro h
    obtain ⟨name', hn, h⟩ := bind_ok.mp h
    obtain ⟨b₁, hc, h⟩ := bind_ok.mp h
    cases pure_ok.mp h
    exact ⟨hn, hc⟩
  · rintro ⟨hn, hc⟩
    exact bind_ok.mpr ⟨name, hn, bind_ok.mpr ⟨b', hc, rfl⟩⟩

end Broker

section Names

variable {u : Unicode} {t : TopicSpec} {taken taken' : List String} {name : String}

lemma freshName_notMem (h : t.freshName u taken = some name) : name ∉ taken := by
  rcases Option.or_eq_some_iff.mp h with h | ⟨-, h⟩
  · simpa using List.find?_some h
  · simpa using List.find?_some h

lemma legacyMatch_of_taken (h : topicName u t taken = .ok name) (hmem : name ∈ taken) :
    t.legacyMatch u taken = some name := by
  unfold topicName at h
  split at h
  · rename_i found hf
    cases h
    exact hf
  · split at h
    · rename_i hfr
      cases h
      exact absurd hmem (freshName_notMem hfr)
    · cases h

lemma topicName_of_legacyMatch (h : t.legacyMatch u taken = some name) : topicName u t taken = .ok name := by
  unfold topicName
  rw [h]

lemma legacyMatch_congr (h : ∀ x, x ∈ taken ↔ x ∈ taken') : t.legacyMatch u taken = t.legacyMatch u taken' := by
  unfold TopicSpec.legacyMatch
  simp [h]

lemma topicName_congr (h : ∀ x, x ∈ taken ↔ x ∈ taken') : topicName u t taken = topicName u t taken' := by
  unfold topicName TopicSpec.freshName
  rw [legacyMatch_congr h]
  simp [h]

end Names

namespace DiffService

variable {env : Env} {version : String} {ns : Option String}

variable {b b' : Broker} {plan : List PlanEntry}

lemma applyNamespace_extends {topic topic' : String} {node : NodeInfo}
    (h : applyNamespace env b topic node version ns = .ok (topic', b')) : Broker.Extends env.u b b' := by
  unfold applyNamespace at h
  split at h
  · obtain ⟨-, rfl⟩ := Prod.mk.inj (Except.ok.inj h)
    exact .refl b
  · split at h
    · obtain ⟨-, rfl⟩ := Prod.mk.inj (Except.ok.inj h)
      exact .refl b
    · exact (Broker.createTopicIfNeeded_ok (Broker.upsert_ok.mp h).2).2.1

lemma bindTopic_extends {topic : String} {e : PlanEntry} (h : bindTopic env version ns b e = .ok (topic, b')) :
    Broker.Extends env.u b b' := by
  unfold bindTopic at h
  split at h
  · exact applyNamespace_extends h
  · obtain ⟨⟨topic₁, b₁⟩, hfirst, h⟩ := bind_ok.mp h
    exact (Broker.createTopicIfNeeded_ok (Broker.upsert_ok.mp hfirst).2).2.1.trans (applyNamespace_extends h)

variable {topics : List String}

lemma bindTopics_extends (h : bindTopics env version ns plan b = .ok (topics, b')) :
    Broker.Extends env.u b b' := by
  induction plan generalizing b topics with
  | nil =>
    obtain ⟨-, rfl⟩ := Prod.mk.inj (Except.ok.inj h)
    exact .refl b
  | cons e plan ih =>
    obtain ⟨t, b₁, ts, ht, hts, rfl⟩ := bindTopics_cons.mp h
    exact (bindTopic_extends ht).trans (ih hts)

lemma forall₂_of_bindTopics (h : bindTopics env version ns plan b = .ok (topics, b'))
    (hs : b'.topics = b.topics) :
    List.Forall₂ (fun e t => bindTopic env version ns b e = .ok (t, b)) plan topics := by
  induction plan generalizing topics with
  | nil =>
    obtain ⟨rfl, -⟩ := Prod.mk.inj (Except.ok.inj h)
    exact .nil
  | cons e plan ih =>
    obtain ⟨t, b₁, ts, ht, hts, rfl⟩ := bindTopics_cons.mp h
    obtain rfl := (bindTopic_extends ht).eq_left (bindTopics_extends hts) hs
    exact .cons ht (ih hts)

lemma bindTopics_of_forall₂
    (h : List.Forall₂ (fun e t => bindTopic env version ns b e = .ok (t, b)) plan topics) :
    bindTopics env version ns plan b = .ok (topics, b) := by
  induction h with
  | nil => rfl
  | cons ht _ ih => exact bindTopics_cons.mpr ⟨_, b, _, ht, ih, rfl⟩

end DiffService

end Qmtl.DagManager

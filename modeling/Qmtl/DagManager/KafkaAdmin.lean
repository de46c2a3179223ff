import Mathlib.Data.Finset.Sort
import Mathlib.Data.String.Basic
import Qmtl.Lib.Dict
import Qmtl.Lib.Text

/-! `KafkaAdmin.create_topic_if_needed`: up to five times the topic is created and the broker's metadata is
verified. -/

namespace Qmtl.DagManager.KafkaAdmin

open Lib

structure TopicConfig where
  partitions : ℤ
  replicationFactor : ℤ
  retentionMs : ℤ
  cleanupPolicy : Option String

/-- A value that a broker may report, as `int` takes it. -/
inductive Reported where
  | none
  | int (n : ℤ)
  | unreadable
  deriving DecidableEq

structure TopicSettings where
  retentionMs : Reported
  cleanupPolicy : Option String
  deriving DecidableEq

structure TopicInfo where
  numPartitions : Reported
  replicationFactor : Reported
  config : Option TopicSettings
  deriving DecidableEq

/-- What `list_topics` returns; an entry that is no mapping is `none`. -/
abbrev Listing := Dict String (Option TopicInfo)

/-- What a client raises. -/
inductive ClientError where
  | topicExists
  | other (text : String)
  deriving DecidableEq

/-- A `TopicExistsError`: of the client, or of the verification. -/
inductive TopicExists where
  | client
  | collision (name : String) (collisions : List String)
  | mismatch (what name : String)
  deriving DecidableEq

def TopicExists.message : TopicExists → String
  | client => ""
  | collision name _ => "name collision for topic '" ++ name ++ "'"
  | mismatch what name => what ++ " mismatch for topic '" ++ name ++ "'"

/-- What a call raises. -/
inductive AdminError where
  | topicExists (error : TopicExists)
  | runtimeError (message : String)
  | valueError
  | client (text : String)
  deriving DecidableEq

def ClientError.raised : ClientError → AdminError
  | topicExists => .topicExists .client
  | other text => .client text

section

variable (lower : Lower)

def policyTokens (value : String) : List String :=
  ((splitAt (· = ',') value).filter fun token => strip token ≠ "").map fun token => lower.fn (strip token)

def normalizeCleanupPolicy (value : Option String) : Option (List String) :=
  value.bind fun text =>
    let tokens := (policyTokens lower text).toFinset.sort (· ≤ ·)
    if tokens = [] then none else some tokens

/-! ### Verification -/

/-- `TopicEnsureResult`. -/
inductive Verdict where
  | verified
  | missing
  | failure (error : TopicExists)
  deriving DecidableEq

def findCollisions (name : String) (listing : Listing) : List String :=
  listing.keys.filter fun existing => lower.fn existing = lower.fn name ∧ existing ≠ name

def checkNumber (what name : String) (reported : Reported) (expected : ℤ) (next : Except AdminError Verdict) :
    Except AdminError Verdict :=
  match reported with
  | .none => next
  | .unreadable => .error .valueError
  | .int n => if n ≠ expected then .ok (.failure (.mismatch what name)) else next

def checkCleanup (name : String) (observed expected : Option String) : Except AdminError Verdict :=
  match normalizeCleanupPolicy lower expected with
  | none => .ok .verified
  | some policy =>
    let seen := match normalizeCleanupPolicy lower observed with
      | none => if policy = ["delete"] then some ["delete"] else none
      | some seen => some seen
    if seen ≠ some policy then .ok (.failure (.mismatch "cleanup policy" name)) else .ok .verified

def validateMetadata (name : String) (info : TopicInfo) (config : TopicConfig) : Except AdminError Verdict :=
  let settings := info.config.getD ⟨.none, none⟩
  checkNumber "partition" name info.numPartitions config.partitions <|
  checkNumber "replication" name info.replicationFactor config.replicationFactor <|
  checkNumber "retention" name settings.retentionMs config.retentionMs <|
  checkCleanup lower name settings.cleanupPolicy config.cleanupPolicy

def evaluate (name : String) (listing : Listing) (config : TopicConfig) : Except AdminError Verdict :=
  if findCollisions lower name listing ≠ [] then
    .ok (.failure (.collision name (findCollisions lower name listing)))
  else match listing.get? name with
    | some (some info) => validateMetadata lower name info config
    | _ => .ok .missing

end

structure TopicRequest where
  name : String
  numPartitions : ℤ
  replicationFactor : ℤ
  retentionMs : ℤ
  cleanupPolicy : Option String

structure Client (σ : Type) where
  topics : σ → Finset String
  listTopics : σ → Except ClientError Listing × σ
  createTopic : TopicRequest → σ → Option ClientError × σ
  topics_list : ∀ s, topics (listTopics s).2 = topics s
  topics_create : ∀ r s, topics (createTopic r s).2 = topics s ∨ topics (createTopic r s).2 = insert r.name (topics s)

def inMemory : Client (Dict String TopicInfo) where
  topics s := s.keys.toFinset
  listTopics s := (.ok (s.mapValues some), s)
  createTopic r s :=
    if (s.get? r.name).isSome then (some .topicExists, s)
    else (none, s.set r.name ⟨.int r.numPartitions, .int r.replicationFactor,
      some ⟨.int r.retentionMs, r.cleanupPolicy⟩⟩)
  topics_list _ := rfl
  topics_create r s := by
    split
    · exact .inl rfl
    · right
      ext id
      simp [Dict.mem_keys_set]

/-! ### The retries -/

section

variable {σ : Type} (client : Client σ) (lower : Lower) (name : String) (config : TopicConfig)

structure Breaker where
  maxFailures : ℕ
  failures : ℕ
  isOpen : Bool

def Breaker.fail (b : Breaker) : Breaker :=
  { b with failures := b.failures + 1, isOpen := b.isOpen || b.maxFailures ≤ b.failures + 1 }

structure Admin (σ : Type) where
  state : σ
  breaker : Breaker
  requests : List σ := []
  listing : Option Listing := none

def topicRequest : TopicRequest :=
  ⟨name, config.partitions, config.replicationFactor, config.retentionMs,
    (normalizeCleanupPolicy lower config.cleanupPolicy).map (Lib.join ",")⟩

structure Progress where
  skipCreate : Bool
  lastError : Option AdminError

/-- The first half of a round. -/
def createStep (p : Progress) (a : Admin σ) : Progress × Admin σ :=
  if p.skipCreate then (p, a)
  else
    let (raised, state) := client.createTopic (topicRequest lower name config) a.state
    let a := { a with state := state, requests := a.requests ++ [a.state] }
    match raised with
    | none => (⟨false, none⟩, a)
    | some e => (⟨e = .topicExists, some e.raised⟩, a)

def verifyStep (a : Admin σ) : Except AdminError Verdict × Admin σ :=
  match client.listTopics a.state with
  | (.error e, state) => (.error e.raised, { a with state := state })
  | (.ok listing, state) =>
    (evaluate lower name listing config, { a with state := state, listing := some listing })

def rounds (attempts : ℤ) : ℕ → Progress → Admin σ → Except AdminError Unit × Admin σ
  | 0, p, a => (.error (p.lastError.getD (.runtimeError
      ("failed to create topic '" ++ name ++ "' after " ++ toString attempts ++ " attempts"))), a)
  | n + 1, p, a =>
    let (p, a) := createStep client lower name config p a
    match verifyStep client lower name config a with
    | (.error e, a) => (.error e, a)
    | (.ok .verified, a) => (.ok (), a)
    | (.ok (.failure e), a) => (.error (.topicExists e), a)
    | (.ok .missing, a) => rounds attempts n p a

def createTopicIfNeeded (maxAttempts : ℤ) (a : Admin σ) : Except AdminError Unit × Admin σ :=
  let a := { a with requests := [], listing := none }
  if a.breaker.isOpen then (.error (.runtimeError "circuit open"), a)
  else match rounds client lower name config maxAttempts (max 1 maxAttempts).toNat ⟨false, none⟩ a with
    | (.error e, a) => (.error e, { a with breaker := a.breaker.fail })
    | (.ok (), a) => (.ok (), { a with breaker := { a.breaker with failures := 0 } })

end

/-! ### What is verified -/

section

variable {lower : Lower} {name : String} {config : TopicConfig}

def policy (lower : Lower) (value : Option String) : Finset String :=
  ((value.map (policyTokens lower)).getD []).toFinset

def effectivePolicy (lower : Lower) (value : Option String) : Finset String :=
  if policy lower value = ∅ then {"delete"} else policy lower value

def Reported.Agrees (reported : Reported) (expected : ℤ) : Prop := reported = .none ∨ reported = .int expected

/-- What is reported of a topic matches a configuration. -/
structure Matches (lower : Lower) (info : TopicInfo) (config : TopicConfig) : Prop where
  partitions : info.numPartitions.Agrees config.partitions
  replication : info.replicationFactor.Agrees config.replicationFactor
  retention : ∀ settings ∈ info.config, settings.retentionMs.Agrees config.retentionMs
  cleanup : policy lower config.cleanupPolicy ≠ ∅ →
    effectivePolicy lower (info.config.bind (·.cleanupPolicy)) = policy lower config.cleanupPolicy

lemma normalizeCleanupPolicy_eq (lower : Lower) (value : Option String) : normalizeCleanupPolicy lower value =
      if policy lower value = ∅ then none else some ((policy lower value).sort (· ≤ ·)) := by
  have hs : ∀ s : Finset String, s.sort (· ≤ ·) = [] ↔ s = ∅ := by
    intro s
    rw [← List.length_eq_zero_iff, Finset.length_sort, Finset.card_eq_zero]
  unfold normalizeCleanupPolicy policy
  cases value with
  | none => rfl
  | some text => simp [hs]

lemma sort_inj {s t : Finset String} : s.sort (· ≤ ·) = t.sort (· ≤ ·) ↔ s = t := by
  constructor
  · intro h
    rw [← Finset.sort_toFinset s (· ≤ ·), h, Finset.sort_toFinset]
  · rintro rfl
    rfl

lemma checkNumber_verified {what : String} {reported : Reported} {expected : ℤ} {next : Except AdminError Verdict} :
    checkNumber what name reported expected next = .ok .verified ↔
      reported.Agrees expected ∧ next = .ok .verified := by
  unfold checkNumber Reported.Agrees
  cases reported with
  | none => simp
  | unreadable => simp
  | int n =>
    by_cases h : n = expected
    · simp [h]
    · simp [h]

lemma checkCleanup_verified {observed expected : Option String} :
    checkCleanup lower name observed expected = .ok .verified ↔
      (policy lower expected ≠ ∅ → effectivePolicy lower observed = policy lower expected) := by
  have hdl : (policy lower expected).sort (· ≤ ·) = ["delete"] ↔ policy lower expected = {"delete"} := by
    rw [← sort_inj, Finset.sort_singleton]
  unfold checkCleanup effectivePolicy
  rw [normalizeCleanupPolicy_eq, normalizeCleanupPolicy_eq]
  by_cases hex : policy lower expected = ∅
  · simp [hex]
  · rw [if_neg hex]
    by_cases hob : policy lower observed = ∅
    · by_cases hd : policy lower expected = {"delete"}
      · simp [hob, hd]
      · simp only [hob, if_true, hdl, hd, if_false]
        simp [hex, Ne.symm hd]
    · simp [hob, hex, sort_inj]

/-- **What is verified**: the topic is listed and matches, and no other one differs in case only. -/
theorem evaluate_verified {listing : Listing} : evaluate lower name listing config = .ok .verified ↔
      (∀ other ∈ listing.keys, lower.fn other = lower.fn name → other = name) ∧
        ∃ info, listing.get? name = some (some info) ∧ Matches lower info config := by
  have hcl : findCollisions lower name listing = [] ↔
      ∀ other ∈ listing.keys, lower.fn other = lower.fn name → other = name := by
    unfold findCollisions
    rw [List.filter_eq_nil_iff]
    refine forall₂_congr fun other _ => ?_
    simp only [decide_eq_true_eq, not_and, not_not]
  unfold evaluate
  rw [← hcl]
  by_cases hn : findCollisions lower name listing = []
  · rw [if_neg (not_not.mpr hn)]
    rcases hget : listing.get? name with _ | _ | info
    · simp
    · simp
    · have hiff : validateMetadata lower name info config = .ok .verified ↔ Matches lower info config := by
        unfold validateMetadata
        rw [checkNumber_verified, checkNumber_verified, checkNumber_verified, checkCleanup_verified]
        constructor
        · rintro ⟨h1, h2, h3, h4⟩
          cases hc : info.config with
          | none =>
            rw [hc] at h4
            refine ⟨h1, h2, by simp [hc], ?_⟩
            rw [hc]
            exact h4
          | some settings =>
            rw [hc] at h3 h4
            refine ⟨h1, h2, ?_, ?_⟩
            · rw [hc]
              rintro _ ⟨⟩
              exact h3
            · rw [hc]
              exact h4
        · rintro ⟨h1, h2, h3, h4⟩
          refine ⟨h1, h2, ?_, ?_⟩
          · cases hc : info.config with
            | none => exact .inl rfl
            | some settings => exact h3 settings hc
          · cases hc : info.config with
            | none =>
              rw [hc] at h4
              exact h4
            | some settings =>
              rw [hc] at h4
              exact h4
      simp [hiff, hn]
  · simp [hn]

end

/-! ### What is created -/

section

variable {σ : Type} {client : Client σ} {lower : Lower} {name : String} {config : TopicConfig}

/-- What the requests of a call did to the broker: its topics gain this one at most, and stay the same if
and only if no request took effect. -/
structure Requested (client : Client σ) (request : TopicRequest) (requests : List σ) (s s' : σ) : Prop where
  kept : client.topics s ⊆ client.topics s'
  only : client.topics s' ⊆ insert request.name (client.topics s)
  same : client.topics s' = client.topics s ↔
    ∀ r ∈ requests, client.topics (client.createTopic request r).2 = client.topics r

variable {request : TopicRequest}

lemma Requested.refl (s : σ) : Requested client request [] s s where
  kept := subset_rfl
  only := Finset.subset_insert _ _
  same := iff_of_true rfl fun _ h => absurd h List.not_mem_nil

lemma Requested.trans {l l' : List σ} {s s' s'' : σ} (h : Requested client request l s s')
    (h' : Requested client request l' s' s'') : Requested client request (l ++ l') s s'' where
  kept := h.kept.trans h'.kept
  only := by
    refine h'.only.trans ?_
    rw [Finset.insert_subset_iff]
    exact ⟨Finset.mem_insert_self _ _, h.only⟩
  same := by
    rw [List.forall_mem_append, ← h.same, ← h'.same]
    constructor
    · intro heq
      have hfirst : client.topics s' = client.topics s := subset_antisymm (heq ▸ h'.kept) h.kept
      exact ⟨hfirst, heq.trans hfirst.symm⟩
    · rintro ⟨hfirst, hr⟩
      exact hr.trans hfirst

lemma Requested.of_topics_eq {s s' : σ} (h : client.topics s' = client.topics s) :
    Requested client request [] s s' where
  kept := h ▸ subset_rfl
  only := h ▸ Finset.subset_insert _ _
  same := iff_of_true h fun _ h => absurd h List.not_mem_nil

lemma Requested.one (s : σ) : Requested client request [s] s (client.createTopic request s).2 where
  kept := by
    rcases client.topics_create request s with h | h
    · rw [h]
    · rw [h]
      exact Finset.subset_insert _ _
  only := by
    rcases client.topics_create request s with h | h
    · rw [h]
      exact Finset.subset_insert _ _
    · rw [h]
  same := by rw [List.forall_mem_singleton]

lemma createStep_requested (p : Progress) (a : Admin σ) :
    ∃ requests, (createStep client lower name config p a).2.requests = a.requests ++ requests ∧
      Requested client (topicRequest lower name config) requests a.state
        (createStep client lower name config p a).2.state := by
  unfold createStep
  split
  · exact ⟨[], (List.append_nil _).symm, .refl _⟩
  · have hone := @Requested.one σ client (topicRequest lower name config) a.state
    rcases hc : client.createTopic (topicRequest lower name config) a.state with ⟨_ | e, state⟩
    all_goals
      rw [hc] at hone
      exact ⟨[a.state], rfl, hone⟩

lemma verifyStep_requested (a : Admin σ) : (verifyStep client lower name config a).2.requests = a.requests ∧
      client.topics (verifyStep client lower name config a).2.state = client.topics a.state ∧
      ((verifyStep client lower name config a).1 = .ok .verified →
        ∃ listing, (verifyStep client lower name config a).2.listing = some listing ∧
          evaluate lower name listing config = .ok .verified) := by
  have ht := client.topics_list a.state
  unfold verifyStep
  rcases hlist : client.listTopics a.state with ⟨e | listing, state⟩
  · rw [hlist] at ht
    exact ⟨rfl, ht, fun h => by cases h⟩
  · rw [hlist] at ht
    exact ⟨rfl, ht, fun h => ⟨listing, rfl, h⟩⟩

/-- **The retries**: the requests did this to the broker, and a normal return saw the topic verified. -/
theorem rounds_spec (attempts : ℤ) (n : ℕ) (p : Progress) (a : Admin σ) :
    (∃ requests, (rounds client lower name config attempts n p a).2.requests = a.requests ++ requests ∧
      Requested client (topicRequest lower name config) requests a.state
        (rounds client lower name config attempts n p a).2.state) ∧
    ((rounds client lower name config attempts n p a).1 = .ok () →
      ∃ listing, (rounds client lower name config attempts n p a).2.listing = some listing ∧
        evaluate lower name listing config = .ok .verified) := by
  induction n generalizing p a with
  | zero => exact ⟨⟨[], (List.append_nil _).symm, .refl _⟩, fun h => by cases h⟩
  | succ n ih =>
    obtain ⟨l, hl, hc⟩ := @createStep_requested σ client lower name config p a
    unfold rounds
    rcases hs : createStep client lower name config p a with ⟨p', a'⟩
    rw [hs] at hl hc
    obtain ⟨hrq, ht, hv⟩ := @verifyStep_requested σ client lower name config a'
    dsimp only at hl hc ⊢
    rcases hvr : verifyStep client lower name config a' with ⟨e | _ | _ | e, a''⟩
    all_goals
      rw [hvr] at hrq ht hv
      have hr : Requested client (topicRequest lower name config) l a.state a''.state := by
        simpa using hc.trans (.of_topics_eq ht)
      have hl' : a''.requests = a.requests ++ l := hrq.trans hl
    · exact ⟨⟨l, hl', hr⟩, fun h => by cases h⟩
    · exact ⟨⟨l, hl', hr⟩, fun _ => hv rfl⟩
    · obtain ⟨⟨rest, hrs, hlater⟩, hok⟩ := ih p' a''
      exact ⟨⟨l ++ rest, by rw [hrs, hl', List.append_assoc], hr.trans hlater⟩, hok⟩
    · exact ⟨⟨l, hl', hr⟩, fun h => by cases h⟩

/-- **A topic is created before it is verified**: a normal return means that the last listing has the topic
as requested and no other one that differs in case only, and when a name collision is raised the broker's
topics are the former ones and this one if a request of the call took effect. -/
theorem createTopicIfNeeded_spec (client : Client σ) (lower : Lower) (name : String) (config : TopicConfig)
    (maxAttempts : ℤ) (a : Admin σ) : ((createTopicIfNeeded client lower name config maxAttempts a).1 = .ok () →
      ∃ listing, (createTopicIfNeeded client lower name config maxAttempts a).2.listing = some listing ∧
        (∃ info, listing.get? name = some (some info) ∧ Matches lower info config) ∧
        ∀ other ∈ listing.keys, lower.fn other = lower.fn name → other = name) ∧
    (∀ collisions, (createTopicIfNeeded client lower name config maxAttempts a).1 =
        .error (.topicExists (.collision name collisions)) → Requested client (topicRequest lower name config)
        (createTopicIfNeeded client lower name config maxAttempts a).2.requests a.state
        (createTopicIfNeeded client lower name config maxAttempts a).2.state) := by
  have hspec := @rounds_spec σ client lower name config maxAttempts (max 1 maxAttempts).toNat ⟨false, none⟩
    { a with requests := [], listing := none }
  unfold createTopicIfNeeded
  by_cases hopen : a.breaker.isOpen
  · rw [if_pos hopen]
    exact ⟨fun h => (by cases h), fun _ _ => .refl _⟩
  · rw [if_neg hopen]
    rcases hrounds : rounds client lower name config maxAttempts (max 1 maxAttempts).toNat ⟨false, none⟩
      { a with requests := [], listing := none } with ⟨e | ⟨⟩, a'⟩
    all_goals rw [hrounds] at hspec
    · obtain ⟨⟨l, hl, hrequested⟩, -⟩ := hspec
      refine ⟨fun h => (by cases h), fun _ _ => ?_⟩
      rw [hl]
      exact hrequested
    · obtain ⟨-, hok⟩ := hspec
      obtain ⟨listing, hlisting, hverified⟩ := hok rfl
      obtain ⟨hnames, hinfo⟩ := evaluate_verified.mp hverified
      exact ⟨fun _ => ⟨listing, hlisting, hinfo, hnames⟩, fun _ h => by cases h⟩

end

def otherCase : Dict String TopicInfo :=
  Dict.ofList [("Prices", ⟨.int 1, .int 2, some ⟨.int 86400000, some "delete"⟩⟩)]

/-- The collision is raised when the second topic is there. -/
theorem collision_after_create :
    (createTopicIfNeeded inMemory Lower.ascii "prices" ⟨1, 2, 86400000, some "delete"⟩ 5
      ⟨otherCase, ⟨3, 0, false⟩, [], none⟩).1 = .error (.topicExists (.collision "prices" ["Prices"])) ∧
    (createTopicIfNeeded inMemory Lower.ascii "prices" ⟨1, 2, 86400000, some "delete"⟩ 5
      ⟨otherCase, ⟨3, 0, false⟩, [], none⟩).2.state.keys = ["Prices", "prices"] ∧
    inMemory.topics (createTopicIfNeeded inMemory Lower.ascii "prices" ⟨1, 2, 86400000, some "delete"⟩ 5
      ⟨otherCase, ⟨3, 0, false⟩, [], none⟩).2.state ≠ inMemory.topics otherCase := by
  refine ⟨by decide +kernel, by decide +kernel, by decide +kernel⟩

end Qmtl.DagManager.KafkaAdmin

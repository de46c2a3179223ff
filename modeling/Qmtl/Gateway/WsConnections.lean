import Qmtl.Gateway.EventToken

/-!
The WebSocket connections of the gateway: what a token registers one with, what the hub broadcasts, and whom it reaches.
-/

namespace Qmtl.Gateway.Ws

open Lib Gateway.EventToken

/-! ### The registry -/

structure ConnectionFilters where
  worldId : Option Json
  strategyId : Option Json

structure Client where
  topics : Option (List String)
  filters : ConnectionFilters

abbrev Registry := Dict ℕ Client

namespace Registry

variable (r : Registry)

def add (ws : ℕ) (topics : Option (List String)) : Registry :=
  r.set ws ⟨topics, ((r.get? ws).map Client.filters).getD ⟨none, none⟩⟩

def updateFilters (ws : ℕ) (worldId strategyId : Option Json) : Registry :=
  match r.get? ws with
  | none => r
  | some c => r.set ws { c with filters := ⟨worldId.or c.filters.worldId, strategyId.or c.filters.strategyId⟩ }

def clientsForTopic (topic : Option String) : List (ℕ × Client) :=
  r.entries.filter fun e => topic.all fun t => e.2.topics.all fun topics => t ∈ topics

end Registry

def worldMatch (filters : ConnectionFilters) (worldId : String) : Bool :=
  match filters.worldId with
  | none => true
  | some (.str w) => w = worldId
  | some _ => false

def filterClients (clients : List (ℕ × Client)) (worldId : Option String) : List (ℕ × Client) :=
  match worldId with
  | none => clients
  | some worldId => clients.filter fun e => worldMatch e.2.filters worldId

/-! ### Broadcasts -/

structure Broadcast where
  topic : Option String
  type : String
  data : List (String × Json)

def Broadcast.worldId (b : Broadcast) : Option String :=
  match List.lookup "world_id" b.data with
  | some (.str w) => some w
  | _ => none

def optional (key : String) (value : Option String) : List (String × Json) := (value.map fun text => (key, Json.str text)).toList

def sendQueueUpdate (tags : List String) (interval : ℤ) (queues : Json) (matchMode : String)
    (worldId executionDomain etag ts : Option String) : Broadcast where
  topic := some "queue"
  type := "queue_update"
  data := [("tags", .arr (tags.map .str)), ("interval", .num (toString interval)), ("queues", queues),
    ("match_mode", .str matchMode)] ++ optional "world_id" (worldId.filter (· ≠ "")) ++
    optional "execution_domain" (executionDomain.filter (· ≠ "")) ++ optional "etag" etag ++ optional "ts" ts ++
    [("version", .num "1")]

def sendTagqueryUpsert (tags : List String) (interval : ℤ) (queues : Json) : Broadcast where
  topic := some "queue"
  type := "tagquery.upsert"
  data := [("tags", .arr (tags.map .str)), ("interval", .num (toString interval)), ("queues", queues), ("version", .num "1")]

def sendActivationUpdated (payload : List (String × Json)) : Broadcast where
  topic := some "activation"
  type := "activation_updated"
  data := if (List.lookup "version" payload).isSome then payload else payload ++ [("version", .num "1")]

def audience (r : Registry) (b : Broadcast) : List ℕ := (filterClients (r.clientsForTopic b.topic) b.worldId).map Prod.fst

/-! ### Opening a connection -/

def topicNormalizationMap : List (String × String) :=
  [("queues", "queue"), ("queue", "queue"), ("activation", "activation"), ("policy", "policy"), ("deprecation", "deprecation")]

def normalizeTopics (rawTopics : List String) : List String := rawTopics.filterMap fun topic => topicNormalizationMap.lookup topic

def rawTopics (claims : List (String × Json)) : Option (List String) :=
  match field claims "topics" with
  | none => some []
  | some (.arr items) => items.foldr (fun v texts => match v with
    | .str text => texts.map (text :: ·)
    | .arr _ => none
    | .obj _ => none
    | _ => texts) (some [])
  | some (.str text) => some (text.toList.map fun c => String.ofList [c])
  | some (.obj fields) => some (fields.map Prod.fst)
  | some (.bool false) => some []
  | some (.num text) => if text = "0" ∨ text = "0.0" then some [] else none
  | some _ => none

structure EventSubscribeRequest where
  worldId : String
  strategyId : String
  topics : List String

section

variable (codec : Codec) (hmac : String → String → List UInt8) (cfg : Config)

def subscriptionClaims (req : EventSubscribeRequest) (jti : String) (iat exp : ℕ) : List (String × Json) :=
  [("aud", .str "controlbus"), ("exp", .num (toString exp)), ("iat", .num (toString iat)), ("jti", .str jti),
    ("strategy_id", .str req.strategyId), ("sub", .str req.strategyId), ("topics", .arr (req.topics.map .str)),
    ("world_id", .str req.worldId)]

def eventsSubscribe (req : EventSubscribeRequest) (jti : String) (now : ℕ) : Option String :=
  signEventToken codec hmac (subscriptionClaims req jti now (now + cfg.ttl)) cfg

def wsEvtEndpoint (token : String) (now : ℕ) (ws : ℕ) (r : Registry) : Option Registry := do
  let claims ← validateEventToken codec hmac token cfg now
  let topics ← rawTopics claims
  return (r.add ws (some (normalizeTopics topics))).updateFilters ws (field claims "world_id") (field claims "strategy_id")

end

variable {r : Registry} {ws : ℕ} {b : Broadcast}

lemma get?_updateFilters_add (topics : Option (List String)) (worldId strategyId : Json) :
    ((r.add ws topics).updateFilters ws (some worldId) (some strategyId)).get? ws =
      some ⟨topics, ⟨some worldId, some strategyId⟩⟩ := by
  unfold Registry.updateFilters Registry.add
  simp

lemma mem_filterClients {topic worldId : Option String} : ws ∈ (filterClients (r.clientsForTopic topic) worldId).map Prod.fst ↔
    ∃ c, r.get? ws = some c ∧ (∀ t, topic = some t → ∀ topics, c.topics = some topics → t ∈ topics) ∧
      ∀ w, worldId = some w → worldMatch c.filters w := by
  have htp : ∀ c : Client, (topic.all fun t => c.topics.all fun topics => t ∈ topics) ↔
      ∀ t, topic = some t → ∀ topics, c.topics = some topics → t ∈ topics := by
    intro c
    cases topic <;> cases c.topics <;> simp
  have hw : ∀ e : ℕ × Client, e ∈ filterClients (r.clientsForTopic topic) worldId ↔
      e ∈ r.clientsForTopic topic ∧ ∀ w, worldId = some w → worldMatch e.2.filters w := by
    intro e
    unfold filterClients
    cases worldId <;> simp
  constructor
  · intro h
    obtain ⟨e, he, rfl⟩ := List.mem_map.mp h
    obtain ⟨hmem, hm⟩ := (hw e).mp he
    obtain ⟨hen, ht⟩ := List.mem_filter.mp hmem
    exact ⟨e.2, Dict.get?_eq_some.mpr hen, (htp e.2).mp ht, hm⟩
  · rintro ⟨c, hc, ht, hm⟩
    refine List.mem_map.mpr ⟨(ws, c), (hw (ws, c)).mpr ⟨?_, hm⟩, rfl⟩
    exact List.mem_filter.mpr ⟨Dict.get?_eq_some.mp hc, (htp c).mpr ht⟩

lemma mem_audience : ws ∈ audience r b ↔ ∃ c, r.get? ws = some c ∧
    (∀ t, b.topic = some t → ∀ topics, c.topics = some topics → t ∈ topics) ∧
    ∀ w, b.worldId = some w → worldMatch c.filters w := mem_filterClients

variable {codec : Codec} {hmac : String → String → List UInt8} {cfg : Config} {req : EventSubscribeRequest} {jti : String}
  {issued now : ℕ} {r' : Registry} {token : String}

def registered (req : EventSubscribeRequest) (ws : ℕ) (r : Registry) : Registry :=
  (r.add ws (some (normalizeTopics req.topics))).updateFilters ws (some (.str req.worldId)) (some (.str req.strategyId))

lemma rawTopics_subscriptionClaims (req : EventSubscribeRequest) (jti : String) (iat exp : ℕ) :
    rawTopics (subscriptionClaims req jti iat exp) = some req.topics := by
  have ht : field (subscriptionClaims req jti iat exp) "topics" = some (.arr (req.topics.map .str)) := rfl
  unfold rawTopics
  rw [ht]
  dsimp only
  induction req.topics with
  | nil => rfl
  | cons t ts ih => rw [List.map_cons, List.foldr_cons, ih]; rfl

lemma plain_subscriptionClaims (req : EventSubscribeRequest) (jti : String) (iat exp : ℕ) :
    ∀ f ∈ subscriptionClaims req jti iat exp, Plain f.2 := by
  intro f hf
  simp only [subscriptionClaims, List.mem_cons, List.not_mem_nil, or_false] at hf
  rcases hf with rfl | rfl | rfl | rfl | rfl | rfl | rfl | rfl
  · exact trivial
  · exact Json.isNumText_toString exp
  · exact Json.isNumText_toString iat
  · exact trivial
  · exact trivial
  · exact trivial
  · intro v hv
    obtain ⟨t, -, rfl⟩ := List.mem_map.mp hv
    exact ⟨t, rfl⟩
  · exact trivial

/-- **A connection** with the token of a request is registered with its topics and filters until the token expires. -/
theorem wsEvtEndpoint_issued (h : eventsSubscribe codec hmac cfg req jti issued = some token) :
    wsEvtEndpoint codec hmac cfg token now ws r = if issued + cfg.ttl < now then none else some (registered req ws r) := by
  have hkeys : ((subscriptionClaims req jti issued (issued + cfg.ttl)).map Prod.fst).Pairwise (· < ·) := by
    have hs : (["aud", "exp", "iat", "jti", "strategy_id", "sub", "topics", "world_id"] : List String).Pairwise
        (· < ·) := by decide
    exact hs
  have hvalid : validateEventToken codec hmac token cfg now = if expired (subscriptionClaims req jti issued (issued + cfg.ttl)) now
      then none else some (subscriptionClaims req jti issued (issued + cfg.ttl)) :=
    validate_sign hkeys (plain_subscriptionClaims req jti issued (issued + cfg.ttl)) rfl h
  have hex : expired (subscriptionClaims req jti issued (issued + cfg.ttl)) now = decide (issued + cfg.ttl < now) := by
    have hexp : field (subscriptionClaims req jti issued (issued + cfg.ttl)) "exp" =
        some (.num (toString (issued + cfg.ttl))) := rfl
    have hd : ((issued + cfg.ttl).repr.toList.all Char.isDigit) :=
      List.all_eq_true.mpr fun c hc => isDigit_of_mem_repr hc
    unfold expired
    show (!(issued + cfg.ttl).repr.toList.all Char.isDigit || _) = _
    rw [hd, Bool.not_true, Bool.false_or]
    show decide (Nat.ofDigitChars 10 (issued + cfg.ttl).repr.toList 0 < now) = _
    rw [Nat.toList_repr, Nat.ofDigitChars_ten_toDigits]
  unfold wsEvtEndpoint
  rw [hvalid, hex]
  by_cases hnow : issued + cfg.ttl < now
  · simp [hnow]
  · simp only [hnow, decide_false, Bool.false_eq_true, if_false, Option.bind_eq_bind, Option.bind_some,
      rawTopics_subscriptionClaims]
    rfl

end Qmtl.Gateway.Ws

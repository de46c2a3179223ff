import Qmtl.Gateway.WsConnections

/-!
The event streams that `TagQueryManager` and `ActivationManager` ask for, and the broadcasts that reach them.
-/

namespace Qmtl.Runtime.EventStreams

open Lib Gateway.EventToken Gateway.Ws

/-! ### The managers -/

inductive Kind where
  | tagQuery
  | activation

structure StreamManager where
  kind : Kind
  worldId : Option String
  strategyId : Option String

def orEmpty (value : Option String) : String := value.getD ""

def queueTopic (worldId : Option String) : String :=
  if orEmpty worldId = "" then "queues" else "w/" ++ orEmpty worldId ++ "/queues"

def StreamManager.request (m : StreamManager) : EventSubscribeRequest where
  topics := match m.kind with
    | .tagQuery => [queueTopic m.worldId]
    | .activation => ["activation"]
  worldId := orEmpty m.worldId
  strategyId := orEmpty m.strategyId

/-- The broadcasts a manager is for. -/
inductive Wanted : Kind → Broadcast → Prop where
  | queueUpdate (tags interval queues matchMode worldId executionDomain etag ts) :
    Wanted .tagQuery (sendQueueUpdate tags interval queues matchMode worldId executionDomain etag ts)
  | tagqueryUpsert (tags interval queues) : Wanted .tagQuery (sendTagqueryUpsert tags interval queues)
  | activationUpdated (payload) : Wanted .activation (sendActivationUpdated payload)

/-- **A subscription matches the hub**: all that is broadcast for the manager's world, or for none, reaches it, and
nothing of another world does. -/
structure Matches (m : StreamManager) (r : Registry) (ws : ℕ) : Prop where
  reached : ∀ b, Wanted m.kind b → b.worldId = none ∨ b.worldId = m.worldId → ws ∈ audience r b
  apart : ∀ w w', m.worldId = some w → ∀ b : Broadcast, b.worldId = some w' → w' ≠ w → ws ∉ audience r b

def Served (m : StreamManager) : Prop :=
  match m.kind with
  | .activation => True
  | .tagQuery => orEmpty m.worldId = ""

variable {m : StreamManager} {r : Registry} {ws : ℕ} {b : Broadcast}

lemma topic_wanted (h : Wanted m.kind b) : b.topic = match m.kind with
    | .tagQuery => some "queue"
    | .activation => some "activation" := by
  generalize m.kind = kind at h ⊢
  cases h <;> rfl

lemma lookup_queueTopic (h : orEmpty m.worldId ≠ "") : topicNormalizationMap.lookup (queueTopic m.worldId) = none := by
  refine List.lookup_eq_none_iff.mpr fun e he => ?_
  rw [bne_iff_ne, ne_eq, queueTopic, if_neg h]
  intro heq
  have hh : e.1.toList.head? = some 'w' := by
    rw [← heq]
    simp
  have hkeys : ∀ e ∈ topicNormalizationMap, e.1.toList.head? ≠ some 'w' := by decide
  exact hkeys e he hh

lemma normalizeTopics_request : normalizeTopics m.request.topics = match m.kind with
    | .activation => ["activation"]
    | .tagQuery => if orEmpty m.worldId = "" then ["queue"] else [] := by
  unfold StreamManager.request
  cases m.kind with
  | activation => rfl
  | tagQuery =>
    by_cases h : orEmpty m.worldId = ""
    · rw [if_pos h, queueTopic, if_pos h]
      rfl
    · rw [if_neg h, normalizeTopics, List.filterMap_cons, lookup_queueTopic h]
      rfl

lemma mem_audience_registered : ws ∈ audience (registered m.request ws r) b ↔
    (∀ t, b.topic = some t → t ∈ normalizeTopics m.request.topics) ∧
      ∀ w, b.worldId = some w → orEmpty m.worldId = w := by
  have hget : (registered m.request ws r).get? ws =
      some ⟨some (normalizeTopics m.request.topics), ⟨some (.str (orEmpty m.worldId)), some (.str (orEmpty m.strategyId))⟩⟩ :=
    get?_updateFilters_add _ _ _
  rw [mem_audience]
  constructor
  · rintro ⟨c, hc, htp, hwr⟩
    cases hget.symm.trans hc
    exact ⟨fun t ht => htp t ht _ rfl, fun w hw => of_decide_eq_true (hwr w hw)⟩
  · rintro ⟨htp, hwr⟩
    refine ⟨_, hget, fun t ht topics h => ?_, fun w hw => decide_eq_true (hwr w hw)⟩
    rw [← Option.some.inj h]
    exact htp t ht

/-- **A subscription matches the hub** exactly where the manager is one of activations or has no world. -/
theorem matches_iff {codec : Codec} {hmac : String → String → List UInt8} {cfg : Config} (m : StreamManager) {jti : String}
    {issued now ws : ℕ} {r r' : Registry} {token : String}
    (htoken : eventsSubscribe codec hmac cfg m.request jti issued = some token)
    (hopen : wsEvtEndpoint codec hmac cfg token now ws r = some r') : Matches m r' ws ↔ Served m := by
  obtain rfl : registered m.request ws r = r' := by
    rw [wsEvtEndpoint_issued htoken] at hopen
    split at hopen
    · cases hopen
    · exact Option.some.inj hopen
  constructor
  · intro h
    unfold Served
    cases hkind : m.kind with
    | activation => exact trivial
    | tagQuery =>
      by_contra hworld
      -- an upsert has no world and should reach it
      have hmem := h.reached (sendTagqueryUpsert [] 0 .null) (hkind ▸ .tagqueryUpsert _ _ _) (.inl rfl)
      have htopics := (mem_audience_registered.mp hmem).1 "queue" rfl
      rw [normalizeTopics_request, hkind] at htopics
      rw [if_neg hworld] at htopics
      cases htopics
  · intro h
    refine ⟨fun b hwanted hworld => mem_audience_registered.mpr ⟨fun t ht => ?_, fun w hw => ?_⟩, ?_⟩
    · rw [topic_wanted hwanted] at ht
      unfold Served at h
      rw [normalizeTopics_request]
      cases hkind : m.kind with
      | activation =>
        rw [hkind] at ht
        rw [← Option.some.inj ht]
        exact .head _
      | tagQuery =>
        rw [hkind] at ht h
        rw [if_pos h, ← Option.some.inj ht]
        exact .head _
    · rcases hworld with hnone | hown
      · rw [hnone] at hw
        cases hw
      · rw [← hown, hw]
        rfl
    · intro w w' hw b hb hne hmem
      have heq := (mem_audience_registered.mp hmem).2 w' hb
      rw [hw] at heq
      exact hne heq.symm

/-! ### One gateway -/

def utf8 (cs : List Char) : List UInt8 := (String.ofList cs).toByteArray.data.toList

lemma utf8_inj {cs cs' : List Char} (h : utf8 cs = utf8 cs') : cs = cs' := by
  have hb : (String.ofList cs).toByteArray = (String.ofList cs').toByteArray := ByteArray.ext (Array.toList_inj.mp h)
  have htext := congrArg String.toList (String.toByteArray_inj.mp hb)
  rwa [String.toList_ofList, String.toList_ofList] at htext

lemma valid_of_plain {v : Json} (h : Plain v) : Json.Valid v := by
  cases v with
  | null => exact trivial
  | bool b => exact trivial
  | num text => exact h
  | str text => exact trivial
  | obj fields => exact absurd h id
  | arr items =>
    refine Json.validItems_iff.mpr fun v hv => ?_
    obtain ⟨text, rfl⟩ := h v hv
    exact trivial

open Classical in
noncomputable def compactCodec : Codec where
  dumps fields := utf8 (Json.compact (.obj fields))
  loads data := if h : ∃ v, Json.Valid v ∧ utf8 (Json.compact v) = data then some h.choose else none
  loads_dumps fields _ hplain := by
    have hvalid : Json.Valid (.obj fields) := Json.validFields_iff.mpr fun f hf => valid_of_plain (hplain f hf)
    have h : ∃ v, Json.Valid v ∧ utf8 (Json.compact v) = utf8 (Json.compact (.obj fields)) := ⟨_, hvalid, rfl⟩
    rw [dif_pos h]
    obtain ⟨hchosen, htext⟩ := h.choose_spec
    have hstops : Json.Stops [] := fun c hc => absurd hc (by simp)
    have heq : Json.compact h.choose ++ [] = Json.compact (.obj fields) ++ [] := by rw [utf8_inj htext]
    rw [(Json.compact_inj h.choose (.obj fields) hchosen hvalid hstops hstops heq).1]

def oneKey : Config := ⟨Dict.ofList [("k1", "secret")], "k1", 300⟩

def signature (secret input : String) : List UInt8 := utf8 (secret ++ input).toList

lemma exists_opened (req : EventSubscribeRequest) (ws : ℕ) (r : Registry) :
    ∃ token, eventsSubscribe compactCodec signature oneKey req "j" 100 = some token ∧
      wsEvtEndpoint compactCodec signature oneKey token 200 ws r = some (registered req ws r) := by
  have hkey : oneKey.keys.get? oneKey.activeKid = some "secret" := rfl
  have htoken : ∃ token, eventsSubscribe compactCodec signature oneKey req "j" 100 = some token := by
    unfold eventsSubscribe signEventToken
    exact ⟨_, rfl⟩
  obtain ⟨token, htoken⟩ := htoken
  refine ⟨token, htoken, ?_⟩
  rw [wsEvtEndpoint_issued htoken]
  exact if_neg (by decide)

/-- The stream of an activation manager. -/
theorem activations_reached : ∃ token r', eventsSubscribe compactCodec signature oneKey
    (StreamManager.mk .activation (some "w1") (some "s1")).request "j" 100 = some token ∧
    wsEvtEndpoint compactCodec signature oneKey token 200 1 .empty = some r' ∧
    Matches ⟨.activation, some "w1", some "s1"⟩ r' 1 := by
  obtain ⟨token, htoken, hopen⟩ := exists_opened (StreamManager.mk .activation (some "w1") (some "s1")).request 1 .empty
  exact ⟨token, _, htoken, hopen, (matches_iff _ htoken hopen).mpr trivial⟩

/-- **An empty stream**: a manager of queues that has a world gets nothing. -/
theorem world_stream_empty : ∃ token r', eventsSubscribe compactCodec signature oneKey
    (StreamManager.mk .tagQuery (some "w1") (some "s1")).request "j" 100 = some token ∧
    wsEvtEndpoint compactCodec signature oneKey token 200 1 .empty = some r' ∧
    ¬Matches ⟨.tagQuery, some "w1", some "s1"⟩ r' 1 := by
  obtain ⟨token, htoken, hopen⟩ := exists_opened (StreamManager.mk .tagQuery (some "w1") (some "s1")).request 1 .empty
  refine ⟨token, _, htoken, hopen, fun h => ?_⟩
  have hmem := h.reached (sendTagqueryUpsert ["t1"] 60 (.arr [])) (.tagqueryUpsert _ _ _) (.inl rfl)
  have htopics := (mem_audience_registered.mp hmem).1 "queue" rfl
  have hnone : normalizeTopics (StreamManager.mk .tagQuery (some "w1") (some "s1")).request.topics = [] := by decide
  cases htopics

end Qmtl.Runtime.EventStreams

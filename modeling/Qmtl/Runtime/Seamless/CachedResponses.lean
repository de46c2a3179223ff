import Qmtl.Runtime.Seamless.Verdicts
import Qmtl.Foundation.Keys

/-! Which call a response from the cache comes from. -/

namespace Qmtl.Runtime.Seamless

open Lib

variable {F : Type}

/-! ### Provenance -/

section Provenance

variable (cfg : Config)

/-- The seven values that a request is made of. -/
structure SameRequest (c c' : Call F) : Prop where
  nodeId : c.nodeId = c'.nodeId
  start : c.start = c'.start
  stop : c.stop = c'.stop
  interval : c.interval = c'.interval
  worldId : c.context.worldId = c'.context.worldId
  asOf : c.context.requestedAsOf = c'.context.requestedAsOf
  executionDomain : c.context.executionDomain = c'.context.executionDomain

def StoredIn (calls : List (Call F)) (key : String) (e : CacheEntry F) : Prop :=
  key = cacheKey cfg.template e.storedBy ∧ ∃ before later outcome, calls = before ++ e.storedBy :: later ∧
    ((Provider.after cfg before).fetch cfg e.storedBy).1 = .ok (e.result, none) ∧ e.storedBy.outcome = .ok outcome ∧
    ∃ live, (applySlaAndDomain cfg live e.storedBy (finalize e.storedBy outcome)).1 = .ok e.result

def Provenance (calls : List (Call F)) (p : Provider F) : Prop :=
  ∀ cache ∈ p.cache, ∀ q ∈ cache.data, StoredIn cfg calls q.1 q.2.value

variable {cfg} {calls : List (Call F)}

lemma StoredIn.concat {key : String} {e : CacheEntry F} (h : StoredIn cfg calls key e) (c : Call F) :
    StoredIn cfg (calls ++ [c]) key e := by
  obtain ⟨hkey, before, later, outcome, hs, hr⟩ := h
  refine ⟨hkey, before, later ++ [c], outcome, ?_, hr⟩
  rw [hs, List.append_assoc, List.cons_append]

lemma after_concat (calls : List (Call F)) (c : Call F) :
    Provider.after cfg (calls ++ [c]) = ((Provider.after cfg calls).fetch cfg c).2 := by
  unfold Provider.after
  rw [List.foldl_append]
  rfl

variable {p : Provider F}

lemma cacheLookup_spec {key : String} {c : Call F} (h : Provenance cfg calls p) :
    Provenance cfg calls (cacheLookup p key c).2 ∧
      ∀ e, (cacheLookup p key c).1 = some e → StoredIn cfg calls key e := by
  unfold cacheLookup
  cases hcc : p.cache with
  | none =>
    refine ⟨fun cache hc => ?_, fun e he => by cases he⟩
    rw [hcc] at hc
    cases hc
  | some cache =>
    have hall := h cache hcc
    cases hget : cache.get key c.getAt with
    | mk found cache' =>
      have hsub : ∀ q ∈ cache'.data, q ∈ cache.data := by
        intro q hq
        refine @LruCache.mem_of_get _ _ _ _ key _ c.getAt ?_
        rw [hget]
        exact hq
      dsimp only
      rw [hget]
      cases found with
      | none =>
        refine ⟨fun _ hc q hq => ?_, fun e he => by cases he⟩
        cases hc
        exact hall q (hsub q (LruCache.mem_of_prune hq))
      | some e =>
        refine ⟨fun _ hc q hq => ?_, fun e' he => ?_⟩
        · cases hc
          exact hall q (hsub q hq)
        · cases he
          obtain ⟨entry, hf, -, rfl⟩ := LruCache.get_eq_some.mp (congrArg Prod.fst hget)
          exact hall _ (LruCache.mem_of_find? hf)

lemma cacheLookup_live (p : Provider F) (key : String) (c : Call F) : (cacheLookup p key c).2.live = p.live := by
  unfold cacheLookup
  split
  · rfl
  · split <;> rfl

lemma cacheLookup_of_get {key : String} {c : Call F} {cache : LruCache String (CacheEntry F)}
    {e : CacheEntry F} (hc : p.cache = some cache) (hget : (cache.get key c.getAt).1 = some e) :
    (cacheLookup p key c).1 = some e := by
  unfold cacheLookup
  rw [hc]
  dsimp only
  cases h : cache.get key c.getAt with
  | mk found cache' =>
    rw [h] at hget
    subst hget
    rfl

lemma fetch_of_hit {c : Call F} (hadm : admitted c) {e : CacheEntry F}
    (hf : (cacheLookup p (cacheKey cfg.template c) c).1 = some e) : ∃ live, p.fetch cfg c =
      ((applySlaAndDomain cfg p.live c (materialize e c.wallMs)).1.map fun r => (r, some e),
        { (cacheLookup p (cacheKey cfg.template c) c).2 with live := live }) := by
  have hl := cacheLookup_live p (cacheKey cfg.template c) c
  unfold Provider.fetch
  rw [if_pos hadm]
  cases hlk : cacheLookup p (cacheKey cfg.template c) c with
  | mk found p' =>
    rw [hlk] at hl hf
    subst hf
    dsimp only
    rw [hl]
    cases hap : applySlaAndDomain cfg p.live c (materialize e c.wallMs) with
    | mk result live => cases result <;> exact ⟨live, rfl⟩

lemma fetch_of_miss {c : Call F} (hadm : admitted c) {outcome : Finalized F}
    (hf : (cacheLookup p (cacheKey cfg.template c) c).1 = none) (hot : c.outcome = .ok outcome) : ∃ live,
      (∀ err, (applySlaAndDomain cfg p.live c (finalize c outcome)).1 = .error err → p.fetch cfg c =
        (.error err, { (cacheLookup p (cacheKey cfg.template c) c).2 with live := live })) ∧
      ∀ r, (applySlaAndDomain cfg p.live c (finalize c outcome)).1 = .ok r → p.fetch cfg c =
        (.ok (r, none), cacheSnapshot { (cacheLookup p (cacheKey cfg.template c) c).2 with live := live }
          (cacheKey cfg.template c) c r) := by
  have hl := cacheLookup_live p (cacheKey cfg.template c) c
  unfold Provider.fetch
  rw [if_pos hadm]
  cases hlk : cacheLookup p (cacheKey cfg.template c) c with
  | mk found p' =>
    rw [hlk] at hl hf
    subst hf
    rw [hot]
    dsimp only
    rw [hl]
    cases hrs : applySlaAndDomain cfg p.live c (finalize c outcome) with
    | mk result live =>
      refine ⟨live, fun err herr => ?_, fun r hr => ?_⟩
      · dsimp only at herr
        rw [herr]
      · dsimp only at hr
        rw [hr]

lemma fetch_cases (p : Provider F) (c : Call F) : (∃ err live, (p.fetch cfg c).1 = .error err ∧
      ((p.fetch cfg c).2 = p ∨ (p.fetch cfg c).2 = { (cacheLookup p (cacheKey cfg.template c) c).2 with live := live })) ∨
    (∃ e r live, (cacheLookup p (cacheKey cfg.template c) c).1 = some e ∧
      p.fetch cfg c = (.ok (r, some e), { (cacheLookup p (cacheKey cfg.template c) c).2 with live := live }) ∧
      (applySlaAndDomain cfg p.live c (materialize e c.wallMs)).1 = .ok r) ∨
    ∃ outcome r live, c.outcome = .ok outcome ∧ (applySlaAndDomain cfg p.live c (finalize c outcome)).1 = .ok r ∧
      p.fetch cfg c = (.ok (r, none), cacheSnapshot
        { (cacheLookup p (cacheKey cfg.template c) c).2 with live := live } (cacheKey cfg.template c) c r) := by
  cases hadm : admitted c with
  | false =>
    unfold Provider.fetch
    rw [hadm]
    exact .inl ⟨.missingAsOf, p.live, rfl, .inl rfl⟩
  | true =>
    cases hf : (cacheLookup p (cacheKey cfg.template c) c).1 with
    | some e =>
      obtain ⟨live, hft⟩ := @fetch_of_hit _ cfg _ _ hadm _ hf
      rw [hft]
      cases hap : (applySlaAndDomain cfg p.live c (materialize e c.wallMs)).1 with
      | error err => exact .inl ⟨err, live, rfl, .inr rfl⟩
      | ok r => exact .inr (.inl ⟨e, r, live, rfl, rfl, hap⟩)
    | none =>
      cases hot : c.outcome with
      | error err =>
        have hft : ((p.fetch cfg c).1 = .error err) ∧ (p.fetch cfg c).2 = (cacheLookup p (cacheKey cfg.template c) c).2 := by
          unfold Provider.fetch
          rw [if_pos hadm]
          cases hl : cacheLookup p (cacheKey cfg.template c) c with
          | mk found p' =>
            rw [hl] at hf
            subst hf
            rw [hot]
            exact ⟨rfl, rfl⟩
        exact .inl ⟨err, _, hft.1, .inr hft.2⟩
      | ok outcome =>
        obtain ⟨live, herr, hok⟩ := @fetch_of_miss _ cfg _ _ hadm _ hf hot
        cases hap : (applySlaAndDomain cfg p.live c (finalize c outcome)).1 with
        | error err =>
          rw [herr err hap]
          exact .inl ⟨err, live, rfl, .inr rfl⟩
        | ok r => exact .inr (.inr ⟨outcome, r, live, rfl, hap, hok r hap⟩)

lemma Provenance.fetch (h : Provenance cfg calls (Provider.after cfg calls)) (c : Call F) :
    Provenance cfg (calls ++ [c]) (Provider.after cfg (calls ++ [c])) := by
  obtain ⟨hl, -⟩ := @cacheLookup_spec _ _ _ _ (cacheKey cfg.template c) c h
  have hk : ∀ {p : Provider F}, Provenance cfg calls p → Provenance cfg (calls ++ [c]) p :=
    fun hp cache hc q hq => (hp cache hc q hq).concat c
  rw [after_concat]
  rcases @fetch_cases _ cfg (Provider.after cfg calls) c with ⟨err, live, -, hp | hp⟩ | ⟨e, r, live, -, hp, -⟩ |
    ⟨outcome, r, live, hot, hap, hp⟩
  · rw [hp]
    exact hk h
  · rw [hp]
    exact hk hl
  · rw [hp]
    exact hk hl
  · have hstored := congrArg Prod.fst hp
    rw [hp]
    intro cache' hc q hq
    obtain ⟨cache, hcc, rfl⟩ := Option.map_eq_some_iff.mp hc
    rcases LruCache.mem_of_set (LruCache.mem_of_prune hq) with hq | rfl
    · exact hk hl cache hcc q hq
    · exact ⟨rfl, calls, [], outcome, rfl, hstored, hot, _, hap⟩

lemma provenance_after (calls : List (Call F)) : Provenance cfg calls (Provider.after cfg calls) := by
  induction calls using List.reverseRecOn with
  | nil =>
    intro cache hc q hq
    unfold Provider.after Provider.init at hc
    split at hc
    · cases hc
      cases hq
    · cases hc
  | append_singleton calls c ih => exact ih.fetch c

end Provenance

variable (cfg : Config)

/-- What is served from the cache was stored for the same request, with the verdict that a miss would get. -/
def InContext (calls : List (Call F)) (c : Call F) : Prop :=
  ∀ r e, ((Provider.after cfg calls).fetch cfg c).1 = .ok (r, some e) →
    SameRequest e.storedBy c ∧
    ∃ before later outcome stored, calls = before ++ e.storedBy :: later ∧ e.storedBy.outcome = .ok outcome ∧
      ((Provider.after cfg before).fetch cfg e.storedBy).1 = .ok (stored, none) ∧ stored.frame = r.frame ∧
      verdict (.ok r) = verdict (applySlaAndDomain cfg (Provider.after cfg calls).live c
        (refresh (finalize e.storedBy outcome) c.wallMs)).1

lemma served_spec {calls : List (Call F)} {c : Call F} {r : Response F} {e : CacheEntry F}
    (h : ((Provider.after cfg calls).fetch cfg c).1 = .ok (r, some e)) :
    cacheKey cfg.template e.storedBy = cacheKey cfg.template c ∧
    ∃ before later outcome stored, calls = before ++ e.storedBy :: later ∧ e.storedBy.outcome = .ok outcome ∧
      ((Provider.after cfg before).fetch cfg e.storedBy).1 = .ok (stored, none) ∧ stored.frame = r.frame ∧
      verdict (.ok r) = verdict (applySlaAndDomain cfg (Provider.after cfg calls).live c
        (refresh (finalize e.storedBy outcome) c.wallMs)).1 := by
  obtain ⟨-, hf⟩ := @cacheLookup_spec _ _ _ _ (cacheKey cfg.template c) c (@provenance_after _ cfg calls)
  rcases @fetch_cases _ cfg (Provider.after cfg calls) c with ⟨err, live, herr, -⟩ | ⟨e', r', live, hl, hp, hap⟩ |
    ⟨outcome, r', live, -, -, hp⟩
  · rw [herr] at h
    cases h
  · rw [hp] at h
    obtain ⟨rfl, he⟩ := Prod.mk.inj (Except.ok.inj h)
    obtain rfl := Option.some.inj he
    obtain ⟨hkey, before, later, outcome, hs, hstored, hot, live', ha'⟩ := hf e' hl
    refine ⟨hkey.symm, before, later, outcome, e'.result, hs, hot, hstored, ?_, ?_⟩
    · exact (applySlaAndDomain_ok hap).1.symm
    · rw [← hap]
      exact (alike_materialize ha' c.wallMs).verdict_eq cfg _ c
  · rw [hp] at h
    cases h

lemma admitted_of_ok {p : Provider F} {c : Call F} {x : Response F × Option (CacheEntry F)}
    (h : (p.fetch cfg c).1 = .ok x) : admitted c := by
  unfold Provider.fetch at h
  split at h
  · assumption
  · cases h

lemma inContext_iff {calls : List (Call F)} {c : Call F} : InContext cfg calls c ↔
    ∀ r e, ((Provider.after cfg calls).fetch cfg c).1 = .ok (r, some e) → SameRequest e.storedBy c :=
  ⟨fun h r e hs => (h r e hs).1, fun h r e hs => ⟨h r e hs, (served_spec cfg hs).2⟩⟩

/-! ### Keys -/

section Keys

def plain [Inhabited F] (c : Call F) : Call F where
  nodeId := c.nodeId
  start := c.start
  stop := c.stop
  interval := c.interval
  context := c.context
  outcome := .ok (.rows default 1 none (some "uri") (some "artifact"))

lemma applySlaAndDomain_isOk (live : LiveState) {c : Call F} {r : Response F} (hadm : admitted c)
    (hv : c.violation = none) (har : r.metadata.artifact ≠ none) :
    ∃ r', (applySlaAndDomain cfg live c r).1 = .ok r' := by
  have hr : ∃ m decision, resolveDowngrade cfg c r.metadata = .ok (m, decision) ∧ m.artifact ≠ none := by
    unfold resolveDowngrade
    cases cfg.sla with
    | none => exact ⟨r.metadata, none, rfl, har⟩
    | some sla =>
      dsimp only
      rw [if_neg fun h => h.2 hv]
      exact ⟨_, _, rfl, har⟩
  obtain ⟨m, downgrade, hm, har⟩ := hr
  have hg : ∃ m' decision live', domainGate cfg.compareAsOf live c.context m c.nodeId c.wallMs =
      (.ok (m', decision), live') := by
    unfold domainGate
    split
    · rename_i hof
      have hao : c.context.requestedAsOf ≠ none := by
        intro hn
        unfold admitted at hadm
        rcases hof with h | h
        · simp [h, hn] at hadm
        · simp [h, hn] at hadm
      rw [if_neg hao, if_neg fun h => har h.1]
      exact ⟨_, _, _, rfl⟩
    · split
      · exact ⟨_, _, _, rfl⟩
      · exact ⟨_, _, _, rfl⟩
  obtain ⟨m', decision, live', hg⟩ := hg
  unfold applySlaAndDomain
  rw [hm]
  dsimp only
  rw [hg]
  dsimp only
  split
  · exact ⟨_, rfl⟩
  · exact ⟨_, rfl⟩

lemma get_set_empty {ν : Type} {n : ℕ} {ttl : ℚ} (hn : 0 < n) (httl : 0 ≤ ttl) (key : String) (v : ν) :
    ((((⟨n, ttl, []⟩ : LruCache String ν).set key v 0).prune 0).get key 0).1 = some v := by
  have hf : LruEntry.expired (⟨v, (⟨n, ttl, []⟩ : LruCache String ν).expiresAt 0⟩ : LruEntry ν) 0 = false := by
    unfold LruEntry.expired LruCache.expiresAt
    by_cases hz : ttl = 0
    · simp [hz]
    · have hpos : 0 < ttl := lt_of_le_of_ne httl (Ne.symm hz)
      simp [hz, hpos]
  have hone : 1 - n = 0 := by omega
  rw [LruCache.get_eq_some]
  refine ⟨_, ?_, hf, rfl⟩
  simp [LruCache.find?, LruCache.set, LruCache.push, LruCache.pop, LruCache.prune, LruCache.evict, hf, hone]

lemma served_of_key_eq [Inhabited F] (hen : cfg.cacheEnabled) {m c : Call F} (hm : admitted m)
    (hc : admitted c) (hkey : cacheKey cfg.template m = cacheKey cfg.template c) :
    ∃ r e, ((Provider.after cfg [plain m]).fetch cfg (plain c)).1 = .ok (r, some e) ∧ e.storedBy = plain m := by
  have hm' : admitted (plain m) := hm
  have hc' : admitted (plain c) := hc
  have hk : cacheKey cfg.template (plain m) = cacheKey cfg.template m := rfl
  have hkc : cacheKey cfg.template (plain c) = cacheKey cfg.template c := rfl
  have hin : (Provider.init cfg : Provider F).cache = some ⟨max 1 cfg.maxShards, (cfg.ttlMs : ℚ) / 1000, []⟩ := by
    unfold Provider.init
    rw [if_pos hen]
  -- the first call misses, and stores
  have hmi : (cacheLookup (Provider.init cfg) (cacheKey cfg.template (plain m)) (plain m)).1 = none := by
    unfold cacheLookup
    rw [hin]
    rfl
  have hms : (cacheLookup (Provider.init cfg) (cacheKey cfg.template (plain m)) (plain m)).2.cache =
      some ⟨max 1 cfg.maxShards, (cfg.ttlMs : ℚ) / 1000, []⟩ := by
    unfold cacheLookup
    rw [hin]
    rfl
  obtain ⟨stored, hstored⟩ := applySlaAndDomain_isOk cfg (Provider.init cfg : Provider F).live
    (r := finalize (plain m) (.rows default 1 none (some "uri") (some "artifact"))) hm' rfl (Option.some_ne_none _)
  obtain ⟨live, -, hf⟩ := @fetch_of_miss _ cfg _ _ hm' _ hmi rfl
  have haf : Provider.after cfg [plain m] = _ := congrArg Prod.snd (hf stored hstored)
  -- the second one finds it
  have hhit : (cacheLookup (Provider.after cfg [plain m]) (cacheKey cfg.template (plain c)) (plain c)).1 =
      some ⟨stored, plain m⟩ := by
    rw [haf, hkc, ← hkey, ← hk]
    have hget := @get_set_empty _ (max 1 cfg.maxShards) ((cfg.ttlMs : ℚ) / 1000) (by omega) (by positivity)
      (cacheKey cfg.template (plain m)) (⟨stored, plain m⟩ : CacheEntry F)
    refine cacheLookup_of_get ?_ hget
    exact congrArg (Option.map _) hms
  obtain ⟨r, hr⟩ := applySlaAndDomain_isOk cfg (Provider.after cfg [plain m]).live
    (r := materialize ⟨stored, plain m⟩ (plain c).wallMs) hc' rfl
    (by
      show stored.metadata.artifact ≠ none
      rw [(applySlaAndDomain_ok hstored).2.artifact]
      exact Option.some_ne_none _)
  obtain ⟨live', hs⟩ := @fetch_of_hit _ cfg _ _ hc' _ hhit
  refine ⟨r, ⟨stored, plain m⟩, ?_, rfl⟩
  rw [hs, hr]
  rfl

lemma cacheKey_templateDefault {m c : Call F} (hm : ':' ∉ m.nodeId.toList ∧ ':' ∉ m.context.worldId.toList)
    (hc : ':' ∉ c.nodeId.toList ∧ ':' ∉ c.context.worldId.toList)
    (h : cacheKey templateDefault m = cacheKey templateDefault c)
    (hd : m.context.executionDomain = c.context.executionDomain) : SameRequest m c := by
  have htext : ∀ c : Call F, (cacheKey templateDefault c).toList = c.nodeId.toList ++ ':' :: ((toString c.start).toList ++
      ':' :: ((toString c.stop).toList ++ ':' :: ((toString c.interval).toList ++ ':' :: (CONFORMANCE_VERSION.toList ++
        ':' :: (c.context.worldId.toList ++ ':' :: (c.context.requestedAsOf.getD "").toList))))) := by
    intro c
    simp [cacheKey, templateDefault, keyValues, RequestContext.keyComponents, String.toList_append]
  have hint : ∀ z : ℤ, ':' ∉ (toString z).toList := fun z => Foundation.separator_notMem_toString z (.inl rfl)
  have ht := congrArg String.toList h
  rw [htext, htext] at ht
  obtain ⟨hnd, ht⟩ := cut_inj hm.1 hc.1 ht
  obtain ⟨hs, ht⟩ := cut_inj (hint _) (hint _) ht
  obtain ⟨hst, ht⟩ := cut_inj (hint _) (hint _) ht
  obtain ⟨hin, ht⟩ := cut_inj (hint _) (hint _) ht
  obtain ⟨-, ht⟩ := cut_inj (by decide) (by decide) ht
  obtain ⟨hw, hao⟩ := cut_inj hm.2 hc.2 ht
  have hn : ∀ {a b : ℤ}, (toString a).toList = (toString b).toList → a = b :=
    fun h => toString_int_injective (String.toList_injective h)
  refine ⟨String.toList_injective hnd, hn hs, hn hst, hn hin,
    String.toList_injective hw, ?_, hd⟩
  have hao := String.toList_injective hao
  have hm := m.context.asOf_ne
  have hc := c.context.asOf_ne
  cases hmas : m.context.requestedAsOf with
  | none =>
    cases hcas : c.context.requestedAsOf with
    | none => rfl
    | some text =>
      rw [hmas, hcas] at hao
      exact absurd (congrArg some hao.symm) (hcas ▸ hc)
  | some text =>
    cases hcas : c.context.requestedAsOf with
    | none =>
      rw [hmas, hcas] at hao
      exact absurd (congrArg some hao) (hmas ▸ hm)
    | some text' =>
      rw [hmas, hcas] at hao
      exact congrArg some hao

end Keys

/-- In every run whose keys tell the requests apart, what is served from the cache is of the same request and judged anew.
A provider does so for every run exactly when its template renders different keys for different requests. The default one
does not look at the domain, and tells requests apart up to it where node and world have no colon. -/
theorem cached_responses_in_context [Inhabited F] : (∀ (calls : List (Call F)) (c : Call F),
      (∀ m ∈ calls, cacheKey cfg.template m = cacheKey cfg.template c → SameRequest m c) → InContext cfg calls c) ∧
    (cfg.cacheEnabled = true → ((∀ (calls : List (Call F)) (c : Call F), InContext cfg calls c) ↔
      ∀ m c : Call F, admitted m = true → admitted c = true →
        cacheKey cfg.template m = cacheKey cfg.template c → SameRequest m c)) ∧
    ∀ m c : Call F, ':' ∉ m.nodeId.toList ∧ ':' ∉ m.context.worldId.toList →
      ':' ∉ c.nodeId.toList ∧ ':' ∉ c.context.worldId.toList →
      cacheKey templateDefault m = cacheKey templateDefault c →
      m.context.executionDomain = c.context.executionDomain → SameRequest m c := by
  refine ⟨fun calls c hkeys => ?_, fun henabled => ⟨fun hall m c hm hc hkey => ?_, fun hsep calls c => ?_⟩,
    fun m c hm hc hkey hdomain => cacheKey_templateDefault hm hc hkey hdomain⟩
  · rw [inContext_iff]
    intro r e hserved
    obtain ⟨hkey, before, later, outcome, stored, hsplit, -⟩ := served_spec cfg hserved
    refine hkeys e.storedBy ?_ hkey
    rw [hsplit]
    exact List.mem_append_right _ List.mem_cons_self
  · obtain ⟨r, e, hserved, hby⟩ := served_of_key_eq cfg henabled hm hc hkey
    obtain ⟨h1, h2, h3, h4, h5, h6, h7⟩ := hby ▸ (hall [plain m] (plain c) r e hserved).1
    exact ⟨h1, h2, h3, h4, h5, h6, h7⟩
  · rw [inContext_iff]
    intro r e hserved
    obtain ⟨hkey, before, later, outcome, stored, -, -, hstored, -⟩ := served_spec cfg hserved
    exact hsep _ _ (admitted_of_ok cfg hstored) (admitted_of_ok cfg hserved) hkey

def defaultConfig : Config where
  compareAsOf := fun left right => if left < right then -1 else if right < left then 1 else 0

def hourOf (context : RequestContext) : Call String :=
  plain ⟨"node", 0, 3600, 60, context, .error (.failed ""), none, 0, 0, 0, 0, 0⟩

def liveContext : RequestContext := ⟨"w1", "live", some "2024-01-01", none, none, by decide⟩

def backtestContext : RequestContext := ⟨"w1", "backtest", some "2024-01-01", none, none, by decide⟩

/-- A repeated request is served what it stored. -/
theorem repeated_in_context : InContext defaultConfig [hourOf liveContext] (hourOf liveContext) :=
  (cached_responses_in_context defaultConfig).1 _ _ fun m hm _ => by
    obtain rfl := List.mem_singleton.mp hm
    exact ⟨rfl, rfl, rfl, rfl, rfl, rfl, rfl⟩

/-- A backtest is served what a live request stored. So is a request whose world and time, put together, render as those of
another one; and where the template raises, the domain is not in the key, either. -/
theorem cached_across_contexts :
    ¬ InContext defaultConfig [hourOf liveContext] (hourOf backtestContext) ∧
    ¬ InContext defaultConfig [hourOf ⟨"w1:a", "live", some "b", none, none, by decide⟩]
      (hourOf ⟨"w1", "live", some "a:b", none, none, by decide⟩) ∧
    ¬ InContext { defaultConfig with template := fun _ => none } [hourOf liveContext] (hourOf backtestContext) := by
  have hserved : ∀ (cfg : Config) (m c : RequestContext), cfg.cacheEnabled → admitted (hourOf m) →
      admitted (hourOf c) → cacheKey cfg.template (hourOf m) = cacheKey cfg.template (hourOf c) →
      InContext cfg [hourOf m] (hourOf c) → SameRequest (hourOf m) (hourOf c) := by
    intro cfg m c henabled hm hc hkey hall
    obtain ⟨r, e, hserved, hby⟩ := served_of_key_eq cfg henabled hm hc hkey
    have hsame := (hall r e hserved).1
    rw [hby] at hsame
    exact hsame
  refine ⟨fun h => ?_, fun h => ?_, fun h => ?_⟩
  · have hsame := hserved defaultConfig _ _ rfl (by decide) (by decide) (by decide +kernel) h
    exact absurd hsame.executionDomain (by decide)
  · have hsame := hserved defaultConfig _ _ rfl (by decide) (by decide) (by decide +kernel) h
    exact absurd hsame.worldId (by decide)
  · have hsame := hserved { defaultConfig with template := fun _ => none } liveContext backtestContext rfl (by decide)
      (by decide) (by decide +kernel) h
    exact absurd hsame.executionDomain (by decide)

end Qmtl.Runtime.Seamless

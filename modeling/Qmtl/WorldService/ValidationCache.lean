import Qmtl.Lib.Run
import Qmtl.WorldService.Storage

/-! `ValidationCacheRepository` of the in-memory `Storage`, over any run of its calls. -/

namespace Qmtl.WorldService.InMemory.ValidationCache

open Lib

/-! ### The calls -/

/-- `cache`: the entries by world, node and domain. -/
abbrev Cache := Dict String (Dict String (Dict String ValidationCacheEntry))

structure SetRequest where
  worldId : String
  nodeId : String
  executionDomain : String
  context : EvalContext
  result : String
  metrics : Fields
  timestamp : Option String
  now : String

/-- What `get` is called with. -/
structure Query where
  worldId : String
  nodeId : String
  executionDomain : String
  context : EvalContext

def Cache.put (c : Cache) (worldId : String) (bucket : Dict String (Dict String ValidationCacheEntry)) : Cache :=
  if bucket.entries.isEmpty then c.erase worldId else c.set worldId bucket

section

variable (env : Env)

def SetRequest.entry (r : SetRequest) (domain : String) : ValidationCacheEntry where
  evalKey := computeEvalKey env r.worldId r.nodeId domain r.context
  nodeId := r.nodeId
  executionDomain := domain
  context := r.context
  result := r.result
  metrics := r.metrics
  timestamp := orText r.timestamp r.now

def set (c : Cache) (r : SetRequest) : Except Exn ValidationCacheEntry × Cache :=
  match normalizeExecutionDomain env (some r.executionDomain) with
  | .error e => (.error e, c)
  | .ok domain =>
    let bucket := (c.get? r.worldId).getD Dict.empty
    let entries := (bucket.get? r.nodeId).getD Dict.empty
    (.ok (r.entry env domain), c.set r.worldId (bucket.set r.nodeId (entries.set domain (r.entry env domain))))

def get (c : Cache) (q : Query) : Except Exn (Option ValidationCacheEntry) × Cache :=
  let bucket := (c.get? q.worldId).getD Dict.empty
  if bucket.entries.isEmpty then (.ok none, c)
  else
    let (answer, rest) := getValidationCache env bucket q.worldId q.nodeId q.executionDomain q.context
    (answer, c.put q.worldId rest)

def invalidate (c : Cache) (worldId : String) (nodeId executionDomain : Option String) : Except Exn Unit × Cache :=
  let bucket := (c.get? worldId).getD Dict.empty
  if bucket.entries.isEmpty then (.ok (), c)
  else
    match nodeId with
    | none => (.ok (), c.erase worldId)
    | some nodeId =>
      let entries := (bucket.get? nodeId).getD Dict.empty
      let ensured := bucket.set nodeId entries
      if entries.entries.isEmpty then (.ok (), c.set worldId ensured)
      else
        match executionDomain with
        | none => (.ok (), c.put worldId (ensured.erase nodeId))
        | some executionDomain =>
          match normalizeExecutionDomain env (some executionDomain) with
          | .error e => (.error e, c.set worldId ensured)
          | .ok domain =>
            let rest := entries.erase domain
            (.ok (), c.put worldId (if rest.entries.isEmpty then ensured.erase nodeId else ensured.set nodeId rest))

def clear (c : Cache) (worldId : String) : Cache := c.erase worldId

inductive Call where
  | set (r : SetRequest)
  | get (q : Query)
  | invalidate (worldId : String) (nodeId executionDomain : Option String)
  | clear (worldId : String)

def step (c : Cache) : Call → Cache
  | .set r => (set env c r).2
  | .get q => (get env c q).2
  | .invalidate worldId nodeId executionDomain => (invalidate env c worldId nodeId executionDomain).2
  | .clear worldId => clear c worldId

abbrev Key := String × String × String

/-- A call sets or invalidates what is under a key: each of its arguments names the key's own part. -/
def Call.Touches : Call → Key → Prop
  | .set r, k => k.1 = r.worldId ∧ k.2.1 = r.nodeId ∧ normalizeExecutionDomain env (some r.executionDomain) = .ok k.2.2
  | .get _, _ => False
  | .invalidate worldId nodeId executionDomain, k => k.1 = worldId ∧ ∀ n, nodeId = some n → k.2.1 = n ∧
      ∀ d, executionDomain = some d → normalizeExecutionDomain env (some d) = .ok k.2.2
  | .clear worldId, k => k.1 = worldId

def Call.Writes : Call → Key → ValidationCacheEntry → Prop
  | .set r, k, entry => Call.Touches env (.set r) k ∧ entry = r.entry env k.2.2
  | _, _, _ => False

end

/-! ### What is under a key -/

def find (c : Cache) (k : Key) : Option ValidationCacheEntry :=
  ((c.get? k.1).getD Dict.empty |>.get? k.2.1).bind fun entries => entries.get? k.2.2

def findIn (bucket : Dict String (Dict String ValidationCacheEntry)) (nodeId domain : String) :
    Option ValidationCacheEntry := (bucket.get? nodeId).bind fun entries => entries.get? domain

lemma find_set (c : Cache) (worldId : String) (bucket : Dict String (Dict String ValidationCacheEntry)) (k : Key) :
    find (c.set worldId bucket) k = if k.1 = worldId then findIn bucket k.2.1 k.2.2 else find c k := by
  unfold find
  rw [Dict.get?_set]
  split <;> rfl

lemma find_erase (c : Cache) (worldId : String) (k : Key) :
    find (c.erase worldId) k = if k.1 = worldId then none else find c k := by
  unfold find
  rw [Dict.get?_erase]
  split <;> rfl

lemma eq_empty {κ ν : Type} [DecidableEq κ] {d : Dict κ ν} (h : d.entries.isEmpty) : d = Dict.empty :=
  Dict.ext (List.isEmpty_iff.mp h)

lemma find_put (c : Cache) (worldId : String) (bucket : Dict String (Dict String ValidationCacheEntry)) (k : Key) :
    find (c.put worldId bucket) k = if k.1 = worldId then findIn bucket k.2.1 k.2.2 else find c k := by
  unfold Cache.put
  split
  · rename_i hempty
    rw [find_erase, eq_empty hempty]
    rfl
  · exact find_set c worldId bucket k

lemma findIn_set (bucket : Dict String (Dict String ValidationCacheEntry)) (nodeId : String)
    (entries : Dict String ValidationCacheEntry) (n d : String) :
    findIn (bucket.set nodeId entries) n d = if n = nodeId then entries.get? d else findIn bucket n d := by
  unfold findIn
  rw [Dict.get?_set]
  split <;> rfl

lemma findIn_ensured (bucket : Dict String (Dict String ValidationCacheEntry)) (nodeId n d : String) :
    findIn (bucket.set nodeId ((bucket.get? nodeId).getD Dict.empty)) n d = findIn bucket n d := by
  rw [findIn_set]
  split
  · rename_i h
    subst h
    unfold findIn
    cases bucket.get? n <;> rfl
  · rfl

lemma findIn_dropped (bucket : Dict String (Dict String ValidationCacheEntry)) (nodeId : String)
    (rest : Dict String ValidationCacheEntry) (n d : String) :
    findIn (if rest.entries.isEmpty then bucket.erase nodeId else bucket.set nodeId rest) n d =
      if n = nodeId then rest.get? d else findIn bucket n d := by
  split
  · rename_i hempty
    unfold findIn
    rw [Dict.get?_erase, eq_empty hempty]
    split <;> rfl
  · exact findIn_set bucket nodeId rest n d

lemma find_eq (c : Cache) (k : Key) : find c k = findIn ((c.get? k.1).getD Dict.empty) k.2.1 k.2.2 := rfl

/-! ### What each call does to what is under a key -/

section

variable {env : Env} {c : Cache} {k : Key} {v : ValidationCacheEntry}

lemma getValidationCache_spec (bucket : Dict String (Dict String ValidationCacheEntry))
    (worldId nodeId executionDomain : String) (context : EvalContext) :
    (∀ entry, (getValidationCache env bucket worldId nodeId executionDomain context).1 = .ok (some entry) →
      ∃ domain, normalizeExecutionDomain env (some executionDomain) = .ok domain ∧
        findIn bucket nodeId domain = some entry ∧ entry.evalKey = computeEvalKey env worldId nodeId domain context) ∧
    ∀ n d entry, findIn (getValidationCache env bucket worldId nodeId executionDomain context).2 n d = some entry →
      findIn bucket n d = some entry := by
  have hnn : ∀ {P : ValidationCacheEntry → Prop},
      ∀ entry, (.ok none : Except Exn (Option ValidationCacheEntry)) = .ok (some entry) → P entry :=
    fun _ h => by cases h
  unfold getValidationCache
  split
  · exact ⟨hnn, fun _ _ _ h => h⟩
  · have hen : ∀ n d entry,
        findIn (bucket.set nodeId ((bucket.get? nodeId).getD .empty)) n d = some entry → findIn bucket n d = some entry :=
      fun n d entry h => (findIn_ensured bucket nodeId n d).symm.trans h
    dsimp only
    split
    · exact ⟨hnn, hen⟩
    · cases hd : normalizeExecutionDomain env (some executionDomain) with
      | error e => exact ⟨fun _ h => (by cases h), hen⟩
      | ok domain =>
        dsimp only
        cases hget : ((bucket.get? nodeId).getD .empty).get? domain with
        | none => exact ⟨hnn, hen⟩
        | some stored =>
          have hstored : findIn bucket nodeId domain = some stored := by
            rw [← findIn_ensured bucket nodeId, findIn_set, if_pos rfl, hget]
          dsimp only
          split
          · rename_i hkey
            refine ⟨fun entry h => ?_, hen⟩
            cases Except.ok.inj h
            exact ⟨domain, rfl, hstored, hkey⟩
          · refine ⟨hnn, fun n d entry h => ?_⟩
            rw [findIn_dropped, Dict.get?_erase, findIn_ensured] at h
            split at h
            · rename_i hn
              split at h
              · cases h
              · subst hn
                rw [← findIn_ensured bucket n, findIn_set, if_pos rfl]
                exact h
            · exact h

lemma find_get {q : Query} (h : find (get env c q).2 k = some v) : find c k = some v := by
  unfold get at h
  dsimp only at h
  split at h
  · exact h
  · rw [find_put] at h
    split at h
    · rename_i hw
      rw [find_eq, hw]
      exact (getValidationCache_spec _ _ _ _ _).2 _ _ _ h
    · exact h

lemma find_set_call {r : SetRequest} (h : find (set env c r).2 k = some v) :
    Call.Writes env (.set r) k v ∨ (find c k = some v ∧ ¬ Call.Touches env (.set r) k) := by
  unfold set at h
  cases hdm : normalizeExecutionDomain env (some r.executionDomain) with
  | error e =>
    rw [hdm] at h
    refine .inr ⟨h, fun ht => ?_⟩
    rw [Call.Touches, hdm] at ht
    cases ht.2.2
  | ok domain =>
    simp only [hdm, find_set, findIn_set] at h
    by_cases hkey : k = (r.worldId, r.nodeId, domain)
    · subst hkey
      rw [if_pos rfl, if_pos rfl, Dict.get?_set, if_pos rfl] at h
      exact .inl ⟨⟨rfl, rfl, hdm⟩, (Option.some.inj h).symm⟩
    · right
      refine ⟨?_, ?_⟩
      · split at h
        · rename_i hw
          rw [find_eq, hw]
          split at h
          · rename_i hn
            rw [Dict.get?_set_ne _ _ fun hd => hkey (Prod.ext hw (Prod.ext hn hd))] at h
            rw [← findIn_ensured _ r.nodeId, findIn_set, if_pos hn]
            exact h
          · exact h
        · exact h
      · rintro ⟨hw, hn, hd⟩
        rw [hdm] at hd
        exact hkey (Prod.ext hw (Prod.ext hn (Except.ok.inj hd).symm))

lemma find_clear {worldId : String} (h : find (clear c worldId) k = some v) : find c k = some v ∧ k.1 ≠ worldId := by
  rw [clear, find_erase] at h
  split at h
  · cases h
  · exact ⟨h, ‹_›⟩

lemma find_invalidate {worldId : String} {nodeId executionDomain : Option String}
    (h : find (invalidate env c worldId nodeId executionDomain).2 k = some v) :
    find c k = some v ∧ ¬ Call.Touches env (.invalidate worldId nodeId executionDomain) k := by
  by_cases hw : k.1 = worldId
  · subst hw
    unfold invalidate at h
    dsimp only at h
    split at h
    · -- there is nothing under the world
      rename_i hempty
      rw [find_eq, eq_empty hempty] at h
      cases h
    · cases nodeId with
      | none =>
        rw [find_erase, if_pos rfl] at h
        cases h
      | some nodeId =>
        dsimp only at h
        split at h
        · rename_i hen
          rw [find_set, if_pos rfl, findIn_ensured, ← find_eq] at h
          refine ⟨h, fun ht => ?_⟩
          have hn := (ht.2 nodeId rfl).1
          rw [find_eq, ← findIn_ensured _ nodeId, findIn_set, if_pos hn, eq_empty hen] at h
          cases h
        · cases executionDomain with
          | none =>
            rw [find_put, if_pos rfl, findIn, Dict.get?_erase] at h
            split at h
            · cases h
            · rename_i hn
              exact ⟨(findIn_ensured _ nodeId _ _).symm.trans h, fun ht => hn (ht.2 nodeId rfl).1⟩
          | some executionDomain =>
            cases hdm : normalizeExecutionDomain env (some executionDomain) with
            | error e =>
              simp only [hdm] at h
              rw [find_set, if_pos rfl, findIn_ensured, ← find_eq] at h
              refine ⟨h, fun ht => ?_⟩
              have hd := (ht.2 nodeId rfl).2 executionDomain rfl
              rw [hdm] at hd
              cases hd
            | ok domain =>
              simp only [hdm] at h
              rw [find_put, if_pos rfl, findIn_dropped, Dict.get?_erase, findIn_ensured, ← find_eq] at h
              split at h
              · rename_i hn
                split at h
                · cases h
                · rename_i hd
                  refine ⟨?_, fun ht => hd ?_⟩
                  · rw [find_eq, ← findIn_ensured _ nodeId, findIn_set, if_pos hn]
                    exact h
                  · exact (Except.ok.inj (hdm.symm.trans ((ht.2 nodeId rfl).2 executionDomain rfl))).symm
              · rename_i hn
                exact ⟨h, fun ht => hn (ht.2 nodeId rfl).1⟩
  · refine ⟨?_, fun ht => hw ht.1⟩
    unfold invalidate at h
    dsimp only at h
    split at h
    · exact h
    · cases nodeId with
      | none => rwa [find_erase, if_neg hw] at h
      | some nodeId =>
        dsimp only at h
        split at h
        · rwa [find_set, if_neg hw] at h
        · cases executionDomain with
          | none => rwa [find_put, if_neg hw] at h
          | some executionDomain =>
            cases hdm : normalizeExecutionDomain env (some executionDomain) with
            | error e =>
              simp only [hdm] at h
              rwa [find_set, if_neg hw] at h
            | ok domain =>
              simp only [hdm] at h
              rwa [find_put, if_neg hw] at h

lemma traced_step : Traced (step env) find (Call.Writes env) (Call.Touches env) := by
  intro c call k v h
  cases call with
  | set r => exact find_set_call h
  | get q => exact .inr ⟨find_get h, not_false⟩
  | invalidate worldId nodeId executionDomain => exact .inr (find_invalidate h)
  | clear worldId => exact .inr (find_clear h)

def parts (context : EvalContext) : List String :=
  [context.contractId, context.datasetFingerprint, context.codeVersion, context.resourcePolicy]

def Plain (context : EvalContext) : Prop := ∀ part ∈ parts context, '\x00' ∉ part.toList

instance decidablePlain (context : EvalContext) : Decidable (Plain context) :=
  decidable_of_iff (((parts context).all fun part => !part.toList.contains '\x00') = true) (by
    simp only [List.all_eq_true, Bool.not_eq_true', List.contains_eq_mem, decide_eq_false_iff_not]
    rfl)

lemma parts_injective {context context' : EvalContext} (h : parts context = parts context') : context = context' := by
  obtain ⟨a', b', c', d'⟩ := context'
  obtain ⟨rfl, rfl, rfl, rfl⟩ := h
  rfl

lemma context_of_evalKey (hh : Function.Injective env.hash) {worldId nodeId domain : String}
    {context context' : EvalContext} (hplain : Plain context) (hp' : Plain context')
    (h : computeEvalKey env worldId nodeId domain context = computeEvalKey env worldId nodeId domain context') :
    context = context' := by
  have hj : "validation-cache" ++ "\x00" ++ (worldId ++ "\x00" ++ (nodeId ++ "\x00" ++
      (domain ++ "\x00" ++ join "\x00" (parts context)))) = "validation-cache" ++ "\x00" ++ (worldId ++ "\x00" ++
        (nodeId ++ "\x00" ++ (domain ++ "\x00" ++ join "\x00" (parts context')))) := hh h
  have hlist := congrArg String.toList hj
  simp only [String.toList_append, List.append_assoc, List.append_cancel_left_eq] at hlist
  exact parts_injective (join_inj_of_length rfl rfl hplain hp' (String.toList_injective hlist))

/-! ### Runs -/

def after (env : Env) (calls : List Call) : Cache := calls.foldl (step env) Dict.empty

lemma find_after {calls : List Call} (h : find (after env calls) k = some v) :
    ∃ before r later, calls = before ++ .set r :: later ∧ Call.Touches env (.set r) k ∧ v = r.entry env k.2.2 ∧
      ∀ call ∈ later, ¬ Call.Touches env call k := by
  obtain ⟨before, call, later, hc, hw, hlater⟩ := traced_step.exists_write (fun _ => rfl) h
  cases call with
  | set r => exact ⟨before, r, later, hc, hw.1, hw.2, hlater⟩
  | get q => exact hw.elim
  | invalidate worldId nodeId executionDomain => exact hw.elim
  | clear worldId => exact hw.elim

/-- **The cache never serves a stale verdict.** What a read returns after any calls is the entry of the latest `set`
of the same world, node and domain, which was made in the same context, and no call since has invalidated it. -/
theorem get_latest (hhash : Function.Injective env.hash) {calls : List Call} {q : Query}
    (hcalls : ∀ r, .set r ∈ calls → Plain r.context) (hq : Plain q.context) {entry : ValidationCacheEntry}
    (h : (get env (after env calls) q).1 = .ok (some entry)) :
    ∃ before r later domain, calls = before ++ .set r :: later ∧
      normalizeExecutionDomain env (some q.executionDomain) = .ok domain ∧
      normalizeExecutionDomain env (some r.executionDomain) = .ok domain ∧ r.worldId = q.worldId ∧
      r.nodeId = q.nodeId ∧ r.context = q.context ∧ entry = r.entry env domain ∧
      ∀ call ∈ later, ¬ Call.Touches env call (q.worldId, q.nodeId, domain) := by
  unfold get at h
  dsimp only at h
  split at h
  · cases h
  · obtain ⟨domain, hdomain, hfind, hkey⟩ := (getValidationCache_spec _ _ _ _ _).1 entry h
    have hfind : find (after env calls) (q.worldId, q.nodeId, domain) = some entry := hfind
    obtain ⟨before, r, later, rfl, ⟨hworld, hnode, hset⟩, rfl, hlater⟩ := find_after hfind
    have hworld : q.worldId = r.worldId := hworld
    have hnode : q.nodeId = r.nodeId := hnode
    refine ⟨before, r, later, domain, rfl, hdomain, hset, hworld.symm, hnode.symm, ?_, rfl, hlater⟩
    rw [hworld, hnode] at hkey
    exact context_of_evalKey hhash (hcalls r (by simp)) hq hkey

end

def plainEnv : Env := ⟨Builtins.ascii, id, id, fun _ => none⟩

def verdictFor (executionDomain version result : String) : SetRequest where
  worldId := "w"
  nodeId := "n"
  executionDomain := executionDomain
  context := ⟨"contract", "dataset", version, "policy"⟩
  result := result
  metrics := Dict.empty
  timestamp := none
  now := "2025-01-01T00:00:00Z"

def twoDomains : List Call :=
  [.set (verdictFor "live" "v1" "invalid"), .set (verdictFor "backtest" "v1" "valid"), .set (verdictFor " Live " "v2" "valid"),
    .invalidate "w" (some "n") (some "default")]

theorem get_latest_live : ∃ entry r, entry.result = "valid" ∧ .set r ∈ twoDomains ∧ r.context.codeVersion = "v2" ∧
    entry = r.entry plainEnv "live" := by
  obtain ⟨answer, hget, hvalid⟩ := exists_ok
    (x := (get plainEnv (after plainEnv twoDomains) ⟨"w", "n", "live", ⟨"contract", "dataset", "v2", "policy"⟩⟩).1)
    (fun answer => answer.any fun entry => entry.result = "valid") (by decide +kernel)
  obtain ⟨entry, rfl, hresult⟩ := (Option.any_eq_true _ _).mp hvalid
  have hplain : ∀ r, .set r ∈ twoDomains → Plain r.context := by
    intro r hr
    simp only [twoDomains, List.mem_cons, Call.set.injEq, List.not_mem_nil, or_false, reduceCtorEq] at hr
    rcases hr with rfl | rfl | rfl <;> decide +kernel
  obtain ⟨before, r, later, domain, hcalls, hdomain, -, -, -, hcontext, hentry, -⟩ :=
    get_latest (fun _ _ h => h) hplain (by decide +kernel) hget
  obtain ⟨_, hlive, hname⟩ := exists_ok (x := normalizeExecutionDomain plainEnv (some "live")) (fun d => d = "live")
    (by decide +kernel)
  cases hdomain.symm.trans hlive
  obtain rfl := of_decide_eq_true hname
  exact ⟨entry, r, of_decide_eq_true hresult, by rw [hcalls]; simp, by rw [hcontext], hentry⟩

end Qmtl.WorldService.InMemory.ValidationCache

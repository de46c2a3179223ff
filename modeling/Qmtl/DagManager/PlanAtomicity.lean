import Qmtl.DagManager.BindingCache
import Qmtl.Lib.Except

/-! What a refused diff leaves behind. A node is refused when its record, for the same code, is known under
other compute keys only. -/

namespace Qmtl.DagManager.DiffService

open Lib Foundation

section

variable (env : Env) (existing : String → Option NodeRecord) (context : ComputeContext) (cache : BindingCache)

def keyOf (node : NodeInfo) : String := (ensureComputeKey env node context).computeKey

def CachedSame (node : NodeInfo) : Prop :=
  ∃ cached, (cache.own node.nodeId).get? (keyOf env context node) = some cached ∧ cached.codeHash = node.codeHash

def knownKeys (record : NodeRecord) (nodeId : String) : List String :=
  if record.computeKeys ≠ [] then record.computeKeys else (cache.own nodeId).keys

/-- The node's code is recorded, under other compute keys. -/
def Violates (node : NodeInfo) : Prop :=
  ∃ record, existing node.nodeId = some record ∧ record.codeHash = node.codeHash ∧
    knownKeys cache record node.nodeId ≠ [] ∧ keyOf env context node ∉ knownKeys cache record node.nodeId ∧
      ¬ CachedSame env context cache node

def Quiet (node : NodeInfo) : Prop :=
  CachedSame env context cache node ∨ ∀ record, existing node.nodeId = some record → record.codeHash ≠ node.codeHash

/-- One node under two compute keys, recorded under none and not in the cache: the first one's binding
stands against the second. -/
structure FreshPair (n m : NodeInfo) : Prop where
  sameNode : n.nodeId = m.nodeId
  otherKey : keyOf env context n ≠ keyOf env context m
  notCached : (cache.own n.nodeId).keys = []
  recorded : ∃ record, existing n.nodeId = some record ∧ record.computeKeys = [] ∧ record.codeHash = n.codeHash ∧
    record.codeHash = m.codeHash

end

variable {env : Env} {existing : String → Option NodeRecord} {context : ComputeContext} {cache : BindingCache}

/-! ### One node -/

lemma ensureComputeKey_eq (node : NodeInfo) :
    ensureComputeKey env node context = { node with computeKey := keyOf env context node } := by
  unfold keyOf ensureComputeKey
  split <;> rfl

variable {d : Dict String CachedBinding}

lemma keys_eq_nil : d.keys = [] ↔ d.entries = [] := List.map_eq_nil_iff

lemma isNone_get? {k : String} : (d.get? k).isNone ↔ k ∉ d.keys := by
  rw [Option.isNone_iff_eq_none, Dict.get?_eq_none]

variable {record : NodeRecord} {own : Dict String CachedBinding}

lemma test_iff {key : String} :
    (key ∉ record.computeKeys ∧ (record.computeKeys ≠ [] ∨ (own.entries ≠ [] ∧ (own.get? key).isNone))) ↔
      (if record.computeKeys ≠ [] then record.computeKeys else own.keys) ≠ [] ∧
        key ∉ (if record.computeKeys ≠ [] then record.computeKeys else own.keys) := by
  have hkeys : own.entries ≠ [] ↔ own.keys ≠ [] := not_congr keys_eq_nil.symm
  rw [isNone_get?, hkeys]
  by_cases h : record.computeKeys = []
  · simp [h]
  · simp [h]

def bindingOf (context : ComputeContext) (record : NodeRecord) : CachedBinding :=
  ⟨record.topic, record.codeHash, record.schemaHash, context⟩

def bindRecord (env : Env) (context : ComputeContext) (record : NodeRecord) (node : NodeInfo) (cache : BindingCache) :
    BindingCache :=
  (cache.touch node.nodeId).set node.nodeId
    ((cache.own node.nodeId).set (keyOf env context node) (bindingOf context record))

/-- **What planning one node does**: it is refused, or planned without its record, or bound to its record. -/
theorem planNode_cases (node : NodeInfo) (cache : BindingCache) : (Violates env existing context cache node ∧
      ∃ held, planNode env existing context node cache =
        (.error (.crossContextTopicReuse node.nodeId context held), cache.touch node.nodeId)) ∨
    (Quiet env existing context cache node ∧
      ∃ entry, planNode env existing context node cache = (.ok entry, cache.touch node.nodeId)) ∨
    (¬ Violates env existing context cache node ∧ ¬ CachedSame env context cache node ∧
      ∃ record, existing node.nodeId = some record ∧ record.codeHash = node.codeHash ∧
        ∃ entry, planNode env existing context node cache = (.ok entry, bindRecord env context record node cache)) := by
  have hrn : ¬ CachedSame env context cache node →
      planNode env existing context node cache =
        (existing node.nodeId).elim (.ok ⟨ensureComputeKey env node context, none, false⟩, cache.touch node.nodeId)
          fun record => if record.codeHash = node.codeHash then
            if keyOf env context node ∉ record.computeKeys ∧ (record.computeKeys ≠ [] ∨
                ((cache.own node.nodeId).entries ≠ [] ∧ ((cache.own node.nodeId).get? (keyOf env context node)).isNone)) then
              (.error (.crossContextTopicReuse node.nodeId context
                ((cache.own node.nodeId).entries.head?.map fun e => e.2.context)), cache.touch node.nodeId)
            else (.ok ⟨ensureComputeKey env node context, some record.topic, record.schemaHash ≠ node.schemaHash⟩,
              bindRecord env context record node cache)
          else (.ok ⟨ensureComputeKey env node context, none, false⟩, cache.touch node.nodeId) := by
    intro hc
    unfold planNode
    simp only [ensureComputeKey_eq, BindingCache.own_touch]
    cases hget : (cache.own node.nodeId).get? (keyOf env context node) with
    | none => cases existing node.nodeId <;> rfl
    | some cached =>
      dsimp only
      rw [if_neg fun heq => hc ⟨cached, hget, heq⟩]
      cases existing node.nodeId <;> rfl
  by_cases hc : CachedSame env context cache node
  · obtain ⟨cached, hget, heq⟩ := hc
    refine .inr (.inl ⟨.inl ⟨cached, hget, heq⟩,
      ⟨ensureComputeKey env node context, some cached.topic, cached.schemaHash ≠ node.schemaHash⟩, ?_⟩)
    unfold planNode
    simp only [ensureComputeKey_eq, BindingCache.own_touch, hget]
    rw [if_pos heq]
  · rw [hrn hc]
    cases hr : existing node.nodeId with
    | none =>
      refine .inr (.inl ⟨.inr ?_, _, rfl⟩)
      intro record h
      rw [hr] at h
      cases h
    | some record =>
      rw [Option.elim_some]
      by_cases hcd : record.codeHash = node.codeHash
      · rw [if_pos hcd]
        by_cases ht : keyOf env context node ∉ record.computeKeys ∧ (record.computeKeys ≠ [] ∨
            ((cache.own node.nodeId).entries ≠ [] ∧ ((cache.own node.nodeId).get? (keyOf env context node)).isNone))
        · rw [if_pos ht]
          obtain ⟨hne, hnot⟩ := test_iff.mp ht
          exact .inl ⟨⟨record, hr, hcd, hne, hnot, hc⟩, _, rfl⟩
        · rw [if_neg ht]
          refine .inr (.inr ⟨?_, hc, record, rfl, hcd, _, rfl⟩)
          rintro ⟨record', hr', -, hne, hnot, -⟩
          rw [hr] at hr'
          cases hr'
          exact ht (test_iff.mpr ⟨hne, hnot⟩)
      · rw [if_neg hcd]
        refine .inr (.inl ⟨.inr ?_, _, rfl⟩)
        intro record' h
        rw [hr] at h
        cases h
        exact hcd

variable {cache' : BindingCache} {e : DiffError} {m n node : NodeInfo} {nodes : List NodeInfo} {ns : Option String}
  {u : Unicode}

lemma violates_iff (hr : existing node.nodeId = some record) :
    Violates env existing context cache node ↔ record.codeHash = node.codeHash ∧
      knownKeys cache record node.nodeId ≠ [] ∧ keyOf env context node ∉ knownKeys cache record node.nodeId ∧
        ¬ CachedSame env context cache node := by
  constructor
  · rintro ⟨record', hr', h⟩
    cases hr.symm.trans hr'
    exact h
  · exact fun h => ⟨record, hr, h⟩

lemma freshPair_iff (hid : n.nodeId = m.nodeId) (hr : existing n.nodeId = some record)
    (hc : record.codeHash = n.codeHash) :
    FreshPair env existing context cache n m ↔ keyOf env context n ≠ keyOf env context m ∧
      (cache.own n.nodeId).keys = [] ∧ record.computeKeys = [] ∧ record.codeHash = m.codeHash := by
  constructor
  · rintro ⟨-, hother, hempty, record', hr', hkeys, -, hc'⟩
    cases hr.symm.trans hr'
    exact ⟨hother, hempty, hkeys, hc'⟩
  · exact fun ⟨hother, hempty, hkeys, hc'⟩ => ⟨hid, hother, hempty, record, hr, hkeys, hc, hc'⟩

lemma not_cachedSame (h : keyOf env context node ∉ (cache.own node.nodeId).keys) :
    ¬ CachedSame env context cache node := by
  rintro ⟨cached, hget, -⟩
  rw [Dict.get?_eq_none.mpr h] at hget
  cases hget

lemma not_violates_of_quiet (h : Quiet env existing context cache node) :
    ¬ Violates env existing context cache node := by
  rintro ⟨record, hr, hcd, -, -, hc⟩
  rcases h with h | h
  · exact hc h
  · exact h record hr hcd

/-! ### The next nodes -/

lemma own_bindRecord {id : String} : BindingCache.own (bindRecord env context record node cache) id =
      if id = node.nodeId then (cache.own node.nodeId).set (keyOf env context node) (bindingOf context record)
      else cache.own id := by
  rw [bindRecord, BindingCache.own_set, BindingCache.own_touch]

lemma violates_touch {id : String} :
    Violates env existing context (cache.touch id) node ↔ Violates env existing context cache node := by
  simp [Violates, knownKeys, CachedSame]

lemma freshPair_touch {id : String} :
    FreshPair env existing context (cache.touch id) n m ↔ FreshPair env existing context cache n m := by
  constructor <;> rintro ⟨h1, h2, h3, h4⟩ <;> exact ⟨h1, h2, by simpa using h3, h4⟩

lemma not_freshPair_of_quiet (h : Quiet env existing context cache n) :
    ¬ FreshPair env existing context cache n m := by
  rintro ⟨-, -, hempty, record, hr, -, hcd, -⟩
  rcases h with hc | h
  · exact not_cachedSame (by rw [hempty]; exact List.not_mem_nil) hc
  · exact h record hr hcd

lemma keys_set_ne_nil {key : String} {binding : CachedBinding} : (own.set key binding).keys ≠ [] :=
  List.ne_nil_of_mem (Dict.mem_keys_set.mpr (.inl rfl))

lemma violates_bindRecord (hn : ¬ Violates env existing context cache n)
    (hcc : ¬ CachedSame env context cache n) (hr : existing n.nodeId = some record)
    (hc : record.codeHash = n.codeHash) : Violates env existing context (bindRecord env context record n cache) m ↔
      Violates env existing context cache m ∨ FreshPair env existing context cache n m := by
  by_cases hid : m.nodeId = n.nodeId
  · have hr' : existing m.nodeId = some record := hid ▸ hr
    have hc' : (CachedSame env context (bindRecord env context record n cache) m ↔
        if keyOf env context m = keyOf env context n then record.codeHash = m.codeHash
        else CachedSame env context cache m) := by
      unfold CachedSame
      rw [own_bindRecord, if_pos hid, Dict.get?_set]
      by_cases heq : keyOf env context m = keyOf env context n
      · rw [if_pos heq, if_pos heq]
        simp [bindingOf]
      · rw [if_neg heq, if_neg heq, hid]
    have hk : knownKeys cache record n.nodeId ≠ [] → keyOf env context n ∈ knownKeys cache record n.nodeId :=
      fun hne => by_contra fun hnot => hn ⟨record, hr, hc, hne, hnot, hcc⟩
    have hnn := @not_cachedSame env context cache m
    rw [violates_iff hr', violates_iff hr', freshPair_iff hid.symm hr hc, hc']
    unfold knownKeys at hk ⊢
    rw [own_bindRecord, if_pos hid]
    rw [hid] at hnn ⊢
    by_cases hkeys : record.computeKeys = []
    · -- the known keys are those of the cache, and the node's own key is among them now
      simp only [hkeys, ne_eq, not_true_eq_false, if_false, keys_set_ne_nil, not_false_eq_true, true_and,
        Dict.mem_keys_set] at hk ⊢
      grind
    · -- the record has keys of its own, the node's among them
      simp only [hkeys, ne_eq, not_false_eq_true, if_true, true_and, false_and, and_false, or_false] at hk ⊢
      grind
  · have hnf : ¬ FreshPair env existing context cache n m := fun h => hid h.sameNode.symm
    simp [Violates, knownKeys, CachedSame, own_bindRecord, if_neg hid, hnf]

lemma freshPair_bindRecord {m' : NodeInfo} :
    FreshPair env existing context (bindRecord env context record n cache) m m' ↔
      FreshPair env existing context cache m m' ∧ m.nodeId ≠ n.nodeId := by
  constructor
  · rintro ⟨h1, h2, h3, h4⟩
    rw [own_bindRecord] at h3
    by_cases hid : m.nodeId = n.nodeId
    · rw [if_pos hid] at h3
      exact absurd h3 keys_set_ne_nil
    · rw [if_neg hid] at h3
      exact ⟨⟨h1, h2, h3, h4⟩, hid⟩
  · rintro ⟨⟨h1, h2, h3, h4⟩, hid⟩
    refine ⟨h1, h2, ?_, h4⟩
    rw [own_bindRecord, if_neg hid]
    exact h3

variable {entry : PlanEntry}

lemma planNodes_cons_ok (h : planNode env existing context node cache = (.ok entry, cache')) :
    planNodes env existing context (node :: nodes) cache =
      ((planNodes env existing context nodes cache').1.map (entry :: ·),
        (planNodes env existing context nodes cache').2) := by
  rw [planNodes, h]
  dsimp only
  rcases planNodes env existing context nodes cache' with ⟨e | plan, cache''⟩ <;> rfl

lemma planNodes_cons_error (h : planNode env existing context node cache = (.error e, cache')) :
    planNodes env existing context (node :: nodes) cache = (.error e, cache') := by
  rw [planNodes, h]

def Rejects (env : Env) (existing : String → Option NodeRecord) (context : ComputeContext) (nodes : List NodeInfo)
    (cache : BindingCache) : Prop :=
  ∃ id held, (planNodes env existing context nodes cache).1 = .error (.crossContextTopicReuse id context held)

lemma rejects_cons_ok (h : planNode env existing context node cache = (.ok entry, cache')) :
    Rejects env existing context (node :: nodes) cache ↔ Rejects env existing context nodes cache' := by
  unfold Rejects
  rw [planNodes_cons_ok h]
  cases (planNodes env existing context nodes cache').1 <;> simp [Except.map]

/-- **Planning is refused** exactly when a node violates its record, or two of the nodes are a fresh
pair. -/
theorem rejects_iff (nodes : List NodeInfo) (cache : BindingCache) : Rejects env existing context nodes cache ↔
      (∃ node ∈ nodes, Violates env existing context cache node) ∨
        ¬ nodes.Pairwise fun n m => ¬ FreshPair env existing context cache n m := by
  induction nodes generalizing cache with
  | nil => simp [Rejects, planNodes]
  | cons node nodes ih =>
    rw [List.pairwise_cons]
    rcases @planNode_cases env existing context node cache with
      ⟨hvl, held, hplan⟩ | ⟨hq, entry, hplan⟩ | ⟨hnot, hcc, record, hr, hc, entry, hplan⟩
    · refine iff_of_true ⟨node.nodeId, held, ?_⟩ (.inl ⟨node, (.head _), hvl⟩)
      rw [planNodes_cons_error hplan]
    · rw [rejects_cons_ok hplan, ih]
      simp only [violates_touch, freshPair_touch, List.exists_mem_cons_iff, not_violates_of_quiet hq, false_or,
        not_freshPair_of_quiet hq, not_false_eq_true, implies_true, true_and]
    · rw [rejects_cons_ok hplan, ih]
      simp only [violates_bindRecord hnot hcc hr hc, freshPair_bindRecord, List.exists_mem_cons_iff, hnot,
        false_or]
      constructor
      · rintro (⟨m, hm, hv | hf⟩ | hp)
        · exact .inl ⟨m, hm, hv⟩
        · exact .inr fun h => h.1 m hm hf
        · refine .inr fun h => hp (h.2.imp fun hn hf => hn hf.1)
      · rintro (⟨m, hm, hv⟩ | hp)
        · exact .inl ⟨m, hm, .inl hv⟩
        · by_cases hfirst : ∃ m ∈ nodes, FreshPair env existing context cache node m
          · obtain ⟨m, hm, hf⟩ := hfirst
            exact .inl ⟨m, hm, .inr hf⟩
          · refine .inr fun h => hp ⟨fun m hm hf => hfirst ⟨m, hm, hf⟩, ?_⟩
            refine h.imp_of_mem ?_
            intro m m' hm hm' hnn hf
            -- of two nodes with the id of the recorded one, one has another key than it
            by_cases hid : m.nodeId = node.nodeId
            · obtain ⟨hs, hother, hempty, record', hr', hkeys, hc₁, hc₂⟩ := hf
              have hr'' := hr'
              rw [hid, hr] at hr''
              cases hr''
              rw [hid] at hempty
              by_cases hkey : keyOf env context node = keyOf env context m
              · exact hfirst ⟨m', hm', hid.symm.trans hs, fun heq => hother (hkey.symm.trans heq), hempty, record,
                  hr, hkeys, hc, hc₂⟩
              · exact hfirst ⟨m, hm, hid.symm, hkey, hempty, record, hr, hkeys, hc, hc₁⟩
            · exact hnn ⟨hf, hid⟩

lemma kept_planNodes (hr : existing n.nodeId = some record)
    (hc : record.codeHash = n.codeHash) (nodes : List NodeInfo) (cache : BindingCache)
    (h : CachedSame env context cache n) :
    CachedSame env context (planNodes env existing context nodes cache).2 n := by
  induction nodes generalizing cache with
  | nil => exact h
  | cons node nodes ih =>
    have ht : CachedSame env context (cache.touch node.nodeId) n := by
      simpa [CachedSame] using h
    rcases @planNode_cases env existing context node cache with
      ⟨-, held, hplan⟩ | ⟨-, entry, hplan⟩ | ⟨-, -, record', hr', -, entry, hplan⟩
    · rw [planNodes_cons_error hplan]
      exact ht
    · rw [planNodes_cons_ok hplan]
      exact ih _ ht
    · rw [planNodes_cons_ok hplan]
      refine ih _ ?_
      obtain ⟨cached, hget, hs⟩ := h
      unfold CachedSame
      rw [own_bindRecord]
      by_cases hid : n.nodeId = node.nodeId
      · rw [← hid, hr] at hr'
        cases hr'
        rw [if_pos hid, Dict.get?_set]
        split
        · exact ⟨_, rfl, hc⟩
        · exact ⟨cached, hid ▸ hget, hs⟩
      · rw [if_neg hid]
        exact ⟨cached, hget, hs⟩

lemma keys_planNodes {id : String} (nodes : List NodeInfo) (cache : BindingCache) (h : id ∈ cache.keys) :
    id ∈ (planNodes env existing context nodes cache).2.keys := by
  induction nodes generalizing cache with
  | nil => exact h
  | cons node nodes ih =>
    have ht : id ∈ (cache.touch node.nodeId).keys := BindingCache.mem_keys_touch.mpr (.inr h)
    rcases @planNode_cases env existing context node cache with
      ⟨-, held, hplan⟩ | ⟨-, entry, hplan⟩ | ⟨-, -, record', -, -, entry, hplan⟩
    · rw [planNodes_cons_error hplan]
      exact ht
    · rw [planNodes_cons_ok hplan]
      exact ih _ ht
    · rw [planNodes_cons_ok hplan]
      exact ih _ (Dict.mem_keys_set.mpr (.inr ht))

def FirstViolatorSeen (env : Env) (existing : String → Option NodeRecord) (context : ComputeContext)
    (nodes : List NodeInfo) (cache : BindingCache) : Prop :=
  ∃ before node after, nodes = before ++ node :: after ∧ Violates env existing context cache node ∧
    node.nodeId ∈ cache.keys ∧ ∀ n ∈ before, Quiet env existing context cache n ∧ n.nodeId ∈ cache.keys

/-- **A refused plan leaves the cache as it was** exactly when nothing had to be written before. -/
theorem cache_eq_iff {cache : BindingCache} (h : Rejects env existing context nodes cache) :
    (planNodes env existing context nodes cache).2 = cache ↔ FirstViolatorSeen env existing context nodes cache := by
  induction nodes generalizing cache with
  | nil => simp [Rejects, planNodes] at h
  | cons node nodes ih =>
    rcases @planNode_cases env existing context node cache with
      ⟨hvl, held, hplan⟩ | ⟨hq, entry, hplan⟩ | ⟨hnot, hc, record, hrc, hcd, entry, hplan⟩
    · rw [planNodes_cons_error hplan]
      constructor
      · intro heq
        have hmem : node.nodeId ∈ (cache.touch node.nodeId).keys := BindingCache.mem_keys_touch.mpr (.inl rfl)
        have heq : cache.touch node.nodeId = cache := heq
        rw [heq] at hmem
        exact ⟨[], node, nodes, rfl, hvl, hmem, fun n hn => absurd hn List.not_mem_nil⟩
      · rintro ⟨before, first, after, heq, -, hs, hb⟩
        cases before with
        | nil =>
          obtain ⟨rfl, rfl⟩ := List.cons.inj heq
          exact BindingCache.touch_of_mem hs
        | cons n before =>
          obtain ⟨rfl, rfl⟩ := List.cons.inj heq
          exact absurd hvl (not_violates_of_quiet (hb node (.head _)).1)
    · rw [planNodes_cons_ok hplan]
      have hr := (rejects_cons_ok hplan).mp h
      constructor
      · intro heq
        have hmem : node.nodeId ∈ cache.keys := by
          rw [← heq]
          exact keys_planNodes nodes _ (BindingCache.mem_keys_touch.mpr (.inl rfl))
        rw [BindingCache.touch_of_mem hmem] at heq hr
        obtain ⟨before, first, after, rfl, hv, hs, hb⟩ := (ih hr).mp heq
        exact ⟨node :: before, first, after, rfl, hv, hs, List.forall_mem_cons.mpr ⟨⟨hq, hmem⟩, hb⟩⟩
      · rintro ⟨before, first, after, heq, hv, hs, hb⟩
        cases before with
        | nil =>
          obtain ⟨rfl, rfl⟩ := List.cons.inj heq
          exact absurd hv (not_violates_of_quiet hq)
        | cons n before =>
          obtain ⟨rfl, rfl⟩ := List.cons.inj heq
          have hmem := (hb node (.head _)).2
          rw [BindingCache.touch_of_mem hmem] at hr ⊢
          exact (ih hr).mpr ⟨before, first, after, rfl, hv, hs, fun m hm => hb m (.tail _ hm)⟩
    · rw [planNodes_cons_ok hplan]
      refine iff_of_false ?_ ?_
      · intro heq
        have hnow : CachedSame env context (bindRecord env context record node cache) node := by
          unfold CachedSame
          rw [own_bindRecord, if_pos rfl, Dict.get?_set_self]
          exact ⟨_, rfl, hcd⟩
        have hk := kept_planNodes hrc hcd nodes _ hnow
        have heq : (planNodes env existing context nodes (bindRecord env context record node cache)).2 = cache := heq
        rw [heq] at hk
        exact hc hk
      · rintro ⟨before, first, after, heq, hv, hs, hb⟩
        cases before with
        | nil =>
          obtain ⟨rfl, rfl⟩ := List.cons.inj heq
          exact hnot hv
        | cons n before =>
          obtain ⟨rfl, rfl⟩ := List.cons.inj heq
          rcases (hb node (.head _)).1 with hsm | hother
          · exact hc hsm
          · exact hother record hrc hcd

/-! ### The diff -/

def IsCrossContext : DiffError → Prop
  | .crossContextTopicReuse _ _ _ => True
  | _ => False

lemma verifyTopic_error {b : Broker} {name : String} {info : TopicInfo} {config : TopicConfig}
    (h : b.verifyTopic u name info config = .error e) : ¬ IsCrossContext e := by
  unfold Broker.verifyTopic Broker.validateMetadata at h
  split_ifs at h
  all_goals
    obtain rfl := Except.error.inj h
    exact id

lemma topicName_error {t : TopicSpec} {taken : List String} (h : topicName u t taken = .error e) :
    ¬ IsCrossContext e := by
  unfold topicName at h
  cases hl : t.legacyMatch u taken with
  | some name =>
    rw [hl] at h
    cases h
  | none =>
    rw [hl] at h
    cases hf : t.freshName u taken with
    | some name =>
      rw [hf] at h
      cases h
    | none =>
      rw [hf] at h
      obtain rfl := Except.error.inj h
      exact id

lemma upsert_error {b : Broker} {t : TopicSpec} (h : b.upsert u t = .error e) : ¬ IsCrossContext e := by
  rcases bind_error.mp h with ht | ⟨topic, -, h⟩
  · exact topicName_error ht
  rcases bind_error.mp h with hc | ⟨b', -, h⟩
  · unfold Broker.createTopicIfNeeded at hc
    split at hc
    · obtain rfl := Except.error.inj hc
      exact id
    · exact verifyTopic_error (map_error.mp hc)
  · cases h

variable {version : String}

lemma applyNamespace_error {broker : Broker} {topic : String}
    (h : applyNamespace env broker topic node version ns = .error e) : ¬ IsCrossContext e := by
  unfold applyNamespace at h
  split at h
  · cases h
  · split at h
    · cases h
    · exact upsert_error h

lemma executeEntry_error {st : State} {out : Bound}
    (h : executeEntry env version ns context st out entry = .error e) : ¬ IsCrossContext e := by
  rcases bind_error.mp h with hb | ⟨_, -, h⟩
  · unfold bindTopic at hb
    cases hen : entry.topic with
    | none =>
      rw [hen] at hb
      rcases bind_error.mp hb with ht | ⟨_, -, hns⟩
      · exact upsert_error ht
      · exact applyNamespace_error hns
    | some topic =>
      rw [hen] at hb
      exact applyNamespace_error hb
  · cases h

lemma executeTopicBindingPlan_error {plan : List PlanEntry} {st : State} {out : Bound}
    (h : executeTopicBindingPlan env version ns context plan st out = .error e) : ¬ IsCrossContext e := by
  induction plan generalizing st out with
  | nil => cases h
  | cons entry plan ih =>
    rcases bind_error.mp h with hen | ⟨_, -, hr⟩
    · exact executeEntry_error hen
    · exact ih hr

def Compared.Refused (c : Compared) : Prop := ∃ id attempted held, c.result = .error (.crossContextTopicReuse id attempted held)

def Compared.Untouched (c : Compared) (service : Service) : Prop :=
  c.Refused → ∀ error service', c = .rejected error service' → service' = service

lemma planNodes_error {cache : BindingCache} (h : planNodes env existing context nodes cache = (.error e, cache')) :
    Rejects env existing context nodes cache := by
  induction nodes generalizing cache with
  | nil => cases h
  | cons node nodes ih =>
    rcases @planNode_cases env existing context node cache with
      ⟨-, held, hplan⟩ | ⟨-, entry, hplan⟩ | ⟨-, -, record, -, -, entry, hplan⟩
    · exact ⟨node.nodeId, held, by rw [planNodes_cons_error hplan]⟩
    all_goals
      rw [rejects_cons_ok hplan]
      rw [planNodes_cons_ok hplan] at h
      obtain ⟨h1, h2⟩ := Prod.mk.inj h
      exact ih (Prod.ext (map_error.mp h1) h2)

lemma refused_iff {service : Service} :
    (compare env existing context nodes version ns service).Refused ↔ Rejects env existing context nodes service.cache := by
  unfold compare Compared.Refused
  rcases hplan : planNodes env existing context nodes service.cache with ⟨e | plan, cache⟩
  · have hr := planNodes_error hplan
    refine iff_of_true ?_ hr
    obtain ⟨id, held, heq⟩ := hr
    rw [hplan] at heq
    obtain rfl := Except.error.inj heq
    exact ⟨id, context, held, rfl⟩
  · refine iff_of_false ?_ ?_
    · rintro ⟨id, attempted, held, heq⟩
      exact executeTopicBindingPlan_error heq trivial
    · rintro ⟨id, held, heq⟩
      rw [hplan] at heq
      cases heq

lemma untouched_iff {service : Service} :
    (compare env existing context nodes version ns service).Untouched service ↔
      (Rejects env existing context nodes service.cache →
        FirstViolatorSeen env existing context nodes service.cache) := by
  unfold Compared.Untouched
  rw [refused_iff]
  refine forall_congr' fun hr => ?_
  rw [← cache_eq_iff hr]
  obtain ⟨id, held, heq⟩ := hr
  unfold compare
  rcases hplan : planNodes env existing context nodes service.cache with ⟨e | plan, cache⟩
  · obtain ⟨repo, broker, cache₀⟩ := service
    simp [Service.mk.injEq]
  · rw [hplan] at heq
    cases heq

/-- **Planning is atomic only where nothing is planned before the refusal**: `_hash_compare` leaves the
service as it was whenever it refuses a diff, and refuses one exactly for a violating node, if and only if
no node violates its record and no two are a fresh pair, or the nodes up to a violating one have entries in
the cache and those before it need no record. -/
theorem compare_atomic_iff (nodes : List NodeInfo) (version : String) (ns : Option String) (service : Service) :
    ((compare env existing context nodes version ns service).Untouched service ∧
      ((compare env existing context nodes version ns service).Refused ↔
        ∃ node ∈ nodes, Violates env existing context service.cache node)) ↔
      ((∀ node ∈ nodes, ¬ Violates env existing context service.cache node) ∧
        nodes.Pairwise fun n m => ¬ FreshPair env existing context service.cache n m) ∨
      FirstViolatorSeen env existing context nodes service.cache := by
  rw [untouched_iff, refused_iff]
  have hreject := @rejects_iff env existing context nodes service.cache
  have hseen : FirstViolatorSeen env existing context nodes service.cache →
      ∃ node ∈ nodes, Violates env existing context service.cache node := by
    rintro ⟨before, node, after, rfl, hv, -⟩
    exact ⟨node, by simp, hv⟩
  constructor
  · rintro ⟨huntouched, hiff⟩
    by_cases hrejects : Rejects env existing context nodes service.cache
    · exact .inr (huntouched hrejects)
    · rw [hreject, not_or, not_not] at hrejects
      exact .inl ⟨fun node hnode hv => hrejects.1 ⟨node, hnode, hv⟩, hrejects.2⟩
  · rintro (⟨hnone, hpair⟩ | hfirst)
    · have hnorejects : ¬ Rejects env existing context nodes service.cache := by
        rw [hreject, not_or, not_not]
        exact ⟨fun ⟨node, hnode, hv⟩ => hnone node hnode hv, hpair⟩
      exact ⟨fun h => absurd h hnorejects, iff_of_false hnorejects fun ⟨node, hnode, hv⟩ => hnone node hnode hv⟩
    · exact ⟨fun _ => hfirst, iff_of_true (hreject.mpr (.inl (hseen hfirst))) (hseen hfirst)⟩

def recordedNodes : String → Option NodeRecord
  | "n1" => some ⟨"c0de01", "5c4e", "btc_Indicator_n1_v1", []⟩
  | "n2" => some ⟨"c0de02", "5c4e", "btc_Indicator_n2_v1", ["blake3:02"]⟩
  | _ => none

def plannedNode (id codeHash : String) : NodeInfo :=
  ⟨id, "Indicator", codeHash, "5c4e", "s1", some 60, some 1, ["btc"], none, "blake3:01"⟩

/-- The second node is refused, and the first one stays in the cache. -/
theorem refused_changes_cache : ¬ (compare ⟨Unicode.ascii, id, fun _ => none, false⟩ recordedNodes
        ⟨"w1", "live", none, none, none, false, none, false⟩
        [plannedNode "n1" "c0de01", plannedNode "n2" "c0de02"] "v1" none
        ⟨fun _ => none, ⟨.empty, false⟩, .empty⟩).Untouched ⟨fun _ => none, ⟨.empty, false⟩, .empty⟩ := by
  intro h
  have heq := h ⟨"n2", _, _, rfl⟩ _ _ rfl
  have hkeys := congrArg (fun s : Service => s.cache.keys.length) heq
  revert hkeys
  decide

end Qmtl.DagManager.DiffService

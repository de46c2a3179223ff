import Qmtl.DagManager.NodeRepositories
import Qmtl.Lib.DictLoops
import Qmtl.Lib.Log

/-!
What the queries can see of the two repositories: the marks of a node under a compute key, the record of a node, and the
queues with their tags. The answers agree where these views do.
-/

namespace Qmtl.DagManager.Repositories

open Lib

/-! ### Marks -/

section Marks

def Earliest (marks : Set ℤ) : Option ℤ → Prop
  | none => marks = ∅
  | some first => IsLeast marks first

lemma earliest_iff (marks : Set ℤ) (first : Option ℤ) :
    (∀ cutoff, (∃ v ∈ marks, v < cutoff) ↔ ∃ v ∈ first, v < cutoff) ↔ Earliest marks first := by
  constructor
  · intro h
    cases first with
    | none =>
      refine Set.eq_empty_of_forall_notMem fun v hv => ?_
      obtain ⟨w, hw, -⟩ := (h (v + 1)).mp ⟨v, hv, by omega⟩
      cases hw
    | some first =>
      have hlow : ∀ w ∈ marks, first ≤ w := by
        intro w hw
        obtain ⟨v, hv, hlt⟩ := (h (w + 1)).mp ⟨w, hw, by omega⟩
        cases hv
        omega
      obtain ⟨v, hv, hlt⟩ := (h (first + 1)).mpr ⟨first, rfl, by omega⟩
      have hle := hlow v hv
      obtain rfl : v = first := by omega
      exact ⟨hv, hlow⟩
  · intro h cutoff
    cases first with
    | none =>
      rw [show marks = ∅ from h]
      constructor
      · rintro ⟨v, hv, -⟩
        cases hv
      · rintro ⟨v, hv, -⟩
        cases hv
    | some first =>
      obtain ⟨hmem, hlow⟩ := h
      constructor
      · rintro ⟨v, hv, hlt⟩
        exact ⟨first, rfl, lt_of_le_of_lt (hlow hv) hlt⟩
      · rintro ⟨v, hv, hlt⟩
        cases hv
        exact ⟨first, hmem, hlt⟩

end Marks

namespace Memory

def markIn (d : NodeData) : Option String → Option ℤ
  | none => d.bufferingSince
  | some key => (d.bufferingSinceCtx.getD .empty).get? key

def markOf (g : Graph) (id : String) (slot : Option String) : Option ℤ := (g.get? id).bind fun d => markIn d slot

def Sees (computeKey slot : Option String) : Prop := ∀ key ∈ given computeKey, slot = some key

def marks (g : Graph) (computeKey : Option String) (id : String) : Set ℤ :=
  {v | ∃ slot, Sees computeKey slot ∧ markOf g id slot = some v}

def recordOf (g : Graph) (id : String) : Option NodeRecord :=
  (g.get? id).bind fun d => if d.kind = some .compute then some (record id d) else none

lemma isBuffering_iff (d : NodeData) (cutoff : ℤ) (computeKey : Option String) : isBuffering d cutoff computeKey ↔
      ∃ v, (∃ slot, Sees computeKey slot ∧ markIn d slot = some v) ∧ v < cutoff := by
  unfold isBuffering Sees
  cases given computeKey with
  | some key => simp [markIn, Option.any_eq_true]
  | none =>
    simp only [Bool.or_eq_true, List.any_eq_true, Option.any_eq_true, decide_eq_true_eq]
    constructor
    · rintro (⟨v, hv, hlt⟩ | ⟨v, hv, hlt⟩)
      · obtain ⟨e, he, rfl⟩ := List.mem_map.mp hv
        exact ⟨e.2, ⟨some e.1, by simp, Dict.get?_eq_some.mpr he⟩, hlt⟩
      · exact ⟨v, ⟨none, by simp, hv⟩, hlt⟩
    · rintro ⟨v, ⟨slot, -, hv⟩, hlt⟩
      cases slot with
      | none => exact .inr ⟨v, hv, hlt⟩
      | some key => exact .inl ⟨v, List.mem_map.mpr ⟨(key, v), Dict.get?_eq_some.mp hv, rfl⟩, hlt⟩

lemma mem_getBufferingNodes {g : Graph} {cutoff : ℤ} {computeKey : Option String} {id : String} :
    id ∈ getBufferingNodes g cutoff computeKey ↔ ∃ v ∈ marks g computeKey id, v < cutoff := by
  have hmem : id ∈ getBufferingNodes g cutoff computeKey ↔
      ∃ d, g.get? id = some d ∧ isBuffering d cutoff computeKey := by
    unfold getBufferingNodes
    rw [List.mem_map]
    constructor
    · rintro ⟨e, he, rfl⟩
      obtain ⟨he, hb⟩ := List.mem_filter.mp he
      exact ⟨e.2, Dict.get?_eq_some.mpr he, hb⟩
    · rintro ⟨d, hd, hb⟩
      exact ⟨(id, d), List.mem_filter.mpr ⟨Dict.get?_eq_some.mp hd, hb⟩, rfl⟩
  rw [hmem]
  unfold marks markOf
  cases hget : g.get? id with
  | none => simp
  | some d =>
    simp only [Option.some.injEq, exists_eq_left', Option.bind_some, Set.mem_ofPred_eq]
    exact isBuffering_iff d cutoff computeKey

lemma nodup_getBufferingNodes (g : Graph) (cutoff : ℤ) (computeKey : Option String) :
    (getBufferingNodes g cutoff computeKey).Nodup :=
  (g.nodup.sublist (List.Sublist.map _ List.filter_sublist))

lemma get?_getNodes (g : Graph) (ids : List String) (id : String) :
    (getNodes g ids).get? id = if id ∈ ids then recordOf g id else none := by
  induction ids using List.reverseRecOn with
  | nil => rfl
  | append_singleton ids nid ih =>
    unfold getNodes at ih ⊢
    rw [List.foldl_append, List.foldl_cons, List.foldl_nil]
    have hkp : recordOf g nid = none →
        (if id ∈ ids then recordOf g id else none) = if id ∈ ids ++ [nid] then recordOf g id else none := by
      intro hn
      by_cases hid : id = nid
      · subst hid
        simp [hn]
      · simp [hid]
    cases hget : g.get? nid with
    | none => exact ih.trans (hkp (by simp [recordOf, hget]))
    | some d =>
      dsimp only
      by_cases hk : d.kind = some .compute
      · rw [if_pos hk, Dict.get?_set, ih]
        by_cases hid : id = nid
        · subst hid
          simp [recordOf, hget, hk]
        · simp [hid]
      · rw [if_neg hk]
        exact ih.trans (hkp (by simp [recordOf, hget, hk]))

end Memory

namespace Neo4j

def since (s : Store) (id : String) : Option ℤ := (s.get? id).bind (·.bufferingSince)

def recordOf (s : Store) (id : String) : Option NodeRecord :=
  (s.get? id).bind fun c => c.emits.getLast?.map (record id c)

lemma mem_getBufferingNodes {s : Store} {cutoff : ℤ} {computeKey : Option String} {id : String} :
    id ∈ getBufferingNodes s cutoff computeKey ↔ ∃ v ∈ since s id, v < cutoff := by
  unfold getBufferingNodes since
  rw [List.mem_map]
  constructor
  · rintro ⟨e, he, rfl⟩
    obtain ⟨he, hb⟩ := List.mem_filter.mp he
    obtain ⟨v, hv, hlt⟩ := (Option.any_eq_true _ _).mp hb
    refine ⟨v, ?_, of_decide_eq_true hlt⟩
    rw [Dict.get?_eq_some.mpr he]
    exact hv
  · rintro ⟨v, hv, hlt⟩
    obtain ⟨c, hc, hv⟩ := Option.bind_eq_some_iff.mp hv
    refine ⟨(id, c), List.mem_filter.mpr ⟨Dict.get?_eq_some.mp hc, ?_⟩, rfl⟩
    exact (Option.any_eq_true _ _).mpr ⟨v, hv, decide_eq_true hlt⟩

lemma nodup_getBufferingNodes (s : Store) (cutoff : ℤ) (computeKey : Option String) :
    (getBufferingNodes s cutoff computeKey).Nodup :=
  (s.nodup.sublist (List.Sublist.map _ List.filter_sublist))

lemma get?_getNodes (s : Store) (ids : List String) (id : String) :
    (getNodes s ids).get? id = if id ∈ ids then recordOf s id else none := by
  have hl : ∀ rows : List (String × ComputeNode × Queue),
      ((rows.foldl (fun records row => records.set row.1 (record row.1 row.2.1 row.2.2))
        (.empty : Dict String NodeRecord)).get? id) =
      (rows.filter fun row => row.1 = id).getLast?.map fun row => record row.1 row.2.1 row.2.2 := by
    intro rows
    induction rows using List.reverseRecOn with
    | nil => rfl
    | append_singleton rows row ih =>
      rw [List.foldl_append, List.foldl_cons, List.foldl_nil, Dict.get?_set, ih, List.filter_append]
      by_cases hid : row.1 = id
      · simp [hid]
      · have hid' : id ≠ row.1 := fun h => hid h.symm
        simp [hid, hid']
  have hrows : (emitting s).filter (fun row => row.1 = id) =
      (s.get? id).toList.flatMap fun c => c.emits.map fun q => (id, c, q) := by
    have hgen : ∀ es : List (String × ComputeNode),
        (es.flatMap fun e => e.2.emits.map fun q => (e.1, e.2, q)).filter (fun row => row.1 = id) =
        (es.filter fun e => e.1 = id).flatMap fun e => e.2.emits.map fun q => (e.1, e.2, q) := by
      intro es
      induction es with
      | nil => rfl
      | cons e es ih =>
        rw [List.flatMap_cons, List.filter_append, ih, List.filter_cons, List.filter_map]
        by_cases hid : e.1 = id
        · simp [hid, Function.comp_def]
        · simp [hid, Function.comp_def]
    unfold emitting
    rw [hgen, Dict.entries_filter_key]
    cases s.get? id <;> simp
  have han : ∀ rows : List (String × ComputeNode × Queue), id ∈ ids →
      (rows.filter fun row => row.1 ∈ ids).filter (fun row => row.1 = id) = rows.filter fun row => row.1 = id := by
    intro rows hid
    rw [List.filter_filter]
    refine List.filter_congr fun row _ => ?_
    by_cases h : row.1 = id
    · simp [h, hid]
    · simp [h]
  unfold getNodes
  split
  · rename_i hnil
    simp [hnil]
  · rw [hl]
    by_cases hid : id ∈ ids
    · rw [if_pos hid, han _ hid, hrows]
      unfold recordOf
      cases s.get? id with
      | none => rfl
      | some c => simp [List.getLast?_map, Option.map_map, Function.comp_def]
    · have hn : ((emitting s).filter fun row => row.1 ∈ ids).filter (fun row => row.1 = id) = [] := by
        rw [List.filter_filter, List.filter_eq_nil_iff]
        rintro row - hrow
        simp only [Bool.and_eq_true, decide_eq_true_eq] at hrow
        exact hid (hrow.1 ▸ hrow.2)
      rw [if_neg hid, hn]
      rfl

end Neo4j

/-! ### What an operation does to the graph -/

namespace Memory

variable (g : Graph)

lemma markIn_markData (d : NodeData) (computeKey slot : Option String) (ts : ℤ) :
    markIn (markData d computeKey ts) slot = if slot = given computeKey then some ts else markIn d slot := by
  unfold markData
  cases h : given computeKey with
  | none => cases slot <;> simp [markIn]
  | some key =>
    cases slot with
    | none => simp [markIn]
    | some key' => simp [markIn, Dict.get?_set]

lemma markIn_clearData (d : NodeData) (computeKey slot : Option String) : markIn (clearData d computeKey) slot =
      if given computeKey = none ∨ slot = given computeKey then none else markIn d slot := by
  unfold clearData
  cases h : given computeKey with
  | none =>
    cases slot with
    | none => rfl
    | some key => cases hctx : d.bufferingSinceCtx <;> simp [markIn, Dict.get?, Dict.empty]
  | some key =>
    cases hctx : d.bufferingSinceCtx with
    | none =>
      cases slot <;> simp [markIn, hctx, Dict.get?, Dict.empty]
    | some ctx =>
      cases slot with
      | none => simp [markIn]
      | some key' =>
        simp only [markIn, hctx, Option.getD_some, reduceCtorEq, false_or, Option.some.injEq]
        rw [← Dict.get?_erase]
        split
        · rename_i hnil
          simp [Dict.get?, hnil, Dict.empty]
        · rfl

lemma get?_markBuffering (x : String) (computeKey : Option String) (t : Option ℤ) (now : ℤ) (id : String) :
    (markBuffering g x computeKey t now).get? id =
      if id = x then (g.get? x).map fun d => markData d computeKey (stamp t now) else g.get? id := by
  unfold markBuffering
  cases h : g.get? x with
  | none =>
    by_cases hid : id = x
    · rw [if_pos hid, hid]
      exact h
    · rw [if_neg hid]
  | some d => exact Dict.get?_set g x id _

lemma get?_clearBuffering (x : String) (computeKey : Option String) (id : String) :
    (clearBuffering g x computeKey).get? id =
      if id = x then (g.get? x).map fun d => clearData d computeKey else g.get? id := by
  unfold clearBuffering
  cases h : g.get? x with
  | none =>
    by_cases hid : id = x
    · rw [if_pos hid, hid]
      exact h
    · rw [if_neg hid]
  | some d => exact Dict.get?_set g x id _

def bindData (computeKey : String) : Option NodeData → NodeData
  | none => { kind := some .compute, computeKeys := some [computeKey] }
  | some d => { d with computeKeys := some (if computeKey ∈ d.computeKeys.getD [] then d.computeKeys.getD []
      else d.computeKeys.getD [] ++ [computeKey]) }

lemma get?_addComputeBinding (x key : String) (id : String) : (addComputeBinding g x key).get? id =
      if key ≠ "" ∧ id = x then some (bindData key (g.get? x)) else g.get? id := by
  unfold addComputeBinding
  by_cases hkey : key = ""
  · simp [hkey]
  · rw [if_neg hkey]
    cases h : g.get? x with
    | none => simp [Dict.get?_set, hkey, bindData]
    | some d =>
      dsimp only
      cases hkeys : d.computeKeys with
      | none => simp [Dict.get?_set, hkey, bindData, hkeys]
      | some keys =>
        dsimp only
        by_cases hmem : key ∈ keys
        · rw [if_pos hmem]
          by_cases hid : id = x
          · subst hid
            have hs : bindData key (some d) = d := by
              obtain ⟨⟩ := d
              simp_all [bindData]
            rw [if_pos ⟨hkey, rfl⟩, hs]
            exact h
          · simp [hid]
        · rw [if_neg hmem, Dict.get?_set]
          simp [hkey, bindData, hkeys, hmem]

lemma get?_edges (ids : List String) (id : String) :
    (ids.foldl (fun g nid => addAttrs g nid fun d => d) g).get? id = g.get? id ∨
      g.get? id = none ∧ (ids.foldl (fun g nid => addAttrs g nid fun d => d) g).get? id = some {} := by
  induction ids using List.reverseRecOn with
  | nil => exact .inl rfl
  | append_singleton ids nid ih =>
    rw [List.foldl_append, List.foldl_cons, List.foldl_nil]
    unfold addAttrs at ih ⊢
    rw [Dict.get?_set]
    by_cases hid : id = nid
    · subst hid
      rw [if_pos rfl]
      rcases ih with h | ⟨hn, h⟩
      · rw [h]
        cases hget : g.get? id with
        | none => exact .inr ⟨rfl, rfl⟩
        | some d => exact .inl rfl
      · exact .inr ⟨hn, by rw [h]; rfl⟩
    · rw [if_neg hid]
      exact ih

lemma get?_insertSentinel (sentinelId : String) (ids : List String) (id : String) :
    (insertSentinel g sentinelId ids).get? id = (if id = sentinelId then
        some { (g.get? sentinelId).getD {} with kind := some .sentinel } else g.get? id) ∨
      g.get? id = none ∧ (insertSentinel g sentinelId ids).get? id = some {} := by
  have hs : (addAttrs g sentinelId fun d => { d with kind := some .sentinel }).get? id =
      if id = sentinelId then some { (g.get? sentinelId).getD {} with kind := some .sentinel } else g.get? id :=
    Dict.get?_set g sentinelId id _
  rcases get?_edges (addAttrs g sentinelId fun d => { d with kind := some .sentinel }) ids id with h | ⟨hn, h⟩
  · exact .inl (h.trans hs)
  · rw [hs] at hn
    split at hn
    · cases hn
    · exact .inr ⟨hn, h⟩

lemma markOf_markBuffering (x : String) (computeKey : Option String) (t : Option ℤ) (now : ℤ) (id : String)
    (slot : Option String) : markOf (markBuffering g x computeKey t now) id slot =
      if id = x ∧ x ∈ g.keys ∧ slot = given computeKey then some (stamp t now) else markOf g id slot := by
  unfold markOf
  rw [get?_markBuffering]
  by_cases hid : id = x
  · subst hid
    cases hget : g.get? id with
    | none =>
      have hnot := Dict.get?_eq_none.mp hget
      simp [hnot]
    | some d =>
      have hmem : id ∈ g.keys := by
        by_contra hnot
        rw [Dict.get?_eq_none.mpr hnot] at hget
        cases hget
      simp [hmem, markIn_markData]
  · simp [hid]

lemma markOf_clearBuffering (x : String) (computeKey : Option String) (id : String) (slot : Option String) :
    markOf (clearBuffering g x computeKey) id slot =
      if id = x ∧ (given computeKey = none ∨ slot = given computeKey) then none else markOf g id slot := by
  unfold markOf
  rw [get?_clearBuffering]
  by_cases hid : id = x
  · subst hid
    cases g.get? id with
    | none => simp
    | some d => simp [markIn_clearData]
  · simp [hid]

lemma markOf_addComputeBinding (x key : String) (id : String) (slot : Option String) :
    markOf (addComputeBinding g x key) id slot = markOf g id slot := by
  unfold markOf
  rw [get?_addComputeBinding]
  split
  · rename_i h
    rw [h.2]
    cases g.get? x with
    | none => cases slot <;> rfl
    | some d => cases slot <;> rfl
  · rfl

lemma markOf_insertSentinel (sentinelId : String) (ids : List String) (id : String) (slot : Option String) :
    markOf (insertSentinel g sentinelId ids) id slot = markOf g id slot := by
  have hempty : markIn {} slot = none := by cases slot <;> rfl
  unfold markOf
  rcases get?_insertSentinel g sentinelId ids id with h | ⟨hn, h⟩
  · rw [h]
    split
    · rename_i hid
      rw [hid]
      cases g.get? sentinelId with
      | none => exact hempty
      | some d => cases slot <;> rfl
    · rfl
  · rw [h, hn]
    exact hempty

/-! #### Records -/

lemma recordOf_markBuffering (x : String) (computeKey : Option String) (t : Option ℤ) (now : ℤ) (id : String) :
    recordOf (markBuffering g x computeKey t now) id = recordOf g id := by
  unfold recordOf
  rw [get?_markBuffering]
  split
  · rename_i hid
    rw [hid]
    cases g.get? x with
    | none => rfl
    | some d =>
      unfold markData
      cases given computeKey <;> rfl
  · rfl

lemma clearData_eq (d : NodeData) (computeKey : Option String) : ∃ since ctx,
    clearData d computeKey = { d with bufferingSince := since, bufferingSinceCtx := ctx } := by
  unfold clearData
  split
  · split
    · exact ⟨d.bufferingSince, d.bufferingSinceCtx, rfl⟩
    · exact ⟨d.bufferingSince, _, rfl⟩
  · exact ⟨none, _, rfl⟩

lemma recordOf_clearBuffering (x : String) (computeKey : Option String) (id : String) :
    recordOf (clearBuffering g x computeKey) id = recordOf g id := by
  unfold recordOf
  rw [get?_clearBuffering]
  split
  · rename_i hid
    rw [hid]
    cases g.get? x with
    | none => rfl
    | some d =>
      obtain ⟨since, ctx, h⟩ := clearData_eq d computeKey
      rw [Option.map_some, h]
      rfl
  · rfl

end Memory

def NodeRecord.bind (computeKey : String) (r : NodeRecord) : NodeRecord :=
  { r with computeKeys := if computeKey ∈ r.computeKeys then r.computeKeys else r.computeKeys ++ [computeKey] }

namespace Memory

variable (g : Graph)

lemma recordOf_addComputeBinding {x key : String} (hx : x ∈ g.keys) (id : String) :
    recordOf (addComputeBinding g x key) id =
      if key ≠ "" ∧ id = x then (recordOf g id).map (·.bind key) else recordOf g id := by
  unfold recordOf
  rw [get?_addComputeBinding]
  split
  · rename_i h
    rw [h.2]
    cases hget : g.get? x with
    | none => exact absurd hx (Dict.get?_eq_none.mp hget)
    | some d =>
      by_cases hk : d.kind = some .compute
      · simp [bindData, record, NodeRecord.bind, hk]
      · simp [bindData, hk]
  · rfl

lemma recordOf_insertSentinel (sentinelId : String) (ids : List String) (id : String) :
    recordOf (insertSentinel g sentinelId ids) id = if id = sentinelId then none else recordOf g id := by
  unfold recordOf
  rcases get?_insertSentinel g sentinelId ids id with h | ⟨hn, h⟩
  · rw [h]
    split
    · simp
    · rfl
  · simp [h, hn]

/-! #### Queues -/

def row (tags : List String) (interval : ℤ) (matchMode : String) (d : NodeData) : Option (String × Bool) :=
  if d.kind ≠ some .compute then none
  else if d.interval ≠ some interval then none
  else if matchesTags tags matchMode (d.tags.getD []) then d.topic.map fun topic => (topic, d.isGlobal.getD false)
  else none

variable (tags : List String) (interval : ℤ) (matchMode : String)

lemma getQueuesByTag_eq :
    getQueuesByTag g tags interval matchMode = g.entries.filterMap fun e => row tags interval matchMode e.2 := by
  unfold getQueuesByTag Dict.values
  rw [List.filterMap_map]
  rfl

lemma getQueuesByTag_set {x : String} {d d' : NodeData} (hget : g.get? x = some d)
    (hrow : row tags interval matchMode d' = row tags interval matchMode d) :
    getQueuesByTag (g.set x d') tags interval matchMode = getQueuesByTag g tags interval matchMode := by
  have hmap := Dict.map_entries_set (fun e : String × NodeData => row tags interval matchMode e.2) hget hrow
  have hid : ∀ g : Graph, getQueuesByTag g tags interval matchMode =
      (g.entries.map fun e => row tags interval matchMode e.2).filterMap id := by
    intro g
    rw [getQueuesByTag_eq, List.filterMap_map]
    rfl
  rw [hid, hid, hmap]

lemma getQueuesByTag_set_new {x : String} {d : NodeData} (hget : g.get? x = none)
    (hrow : row tags interval matchMode d = none) :
    getQueuesByTag (g.set x d) tags interval matchMode = getQueuesByTag g tags interval matchMode := by
  rw [getQueuesByTag_eq, getQueuesByTag_eq, Dict.entries_set_of_notMem d (Dict.get?_eq_none.mp hget),
    List.filterMap_append]
  simp [hrow]

lemma getQueuesByTag_markBuffering (x : String) (computeKey : Option String) (t : Option ℤ) (now : ℤ) :
    getQueuesByTag (markBuffering g x computeKey t now) tags interval matchMode =
      getQueuesByTag g tags interval matchMode := by
  unfold markBuffering
  cases hget : g.get? x with
  | none => rfl
  | some d =>
    refine getQueuesByTag_set g tags interval matchMode hget ?_
    unfold markData
    cases given computeKey <;> rfl

lemma getQueuesByTag_clearBuffering (x : String) (computeKey : Option String) :
    getQueuesByTag (clearBuffering g x computeKey) tags interval matchMode =
      getQueuesByTag g tags interval matchMode := by
  unfold clearBuffering
  cases hget : g.get? x with
  | none => rfl
  | some d =>
    refine getQueuesByTag_set g tags interval matchMode hget ?_
    obtain ⟨since, ctx, h⟩ := clearData_eq d computeKey
    rw [h]
    rfl

lemma getQueuesByTag_addComputeBinding (x key : String) :
    getQueuesByTag (addComputeBinding g x key) tags interval matchMode =
      getQueuesByTag g tags interval matchMode := by
  unfold addComputeBinding
  by_cases hkey : key = ""
  · rw [if_pos hkey]
  · rw [if_neg hkey]
    cases hget : g.get? x with
    | none => exact getQueuesByTag_set_new g tags interval matchMode hget (by simp [row])
    | some d =>
      dsimp only
      split
      · split
        · rfl
        · exact getQueuesByTag_set g tags interval matchMode hget rfl
      · exact getQueuesByTag_set g tags interval matchMode hget rfl

lemma perm_getQueuesByTag_insertSentinel (sentinelId : String) (ids : List String) :
    (getQueuesByTag (insertSentinel g sentinelId ids) tags interval matchMode ++
        ((g.get? sentinelId).bind (row tags interval matchMode)).toList).Perm
      (getQueuesByTag g tags interval matchMode) := by
  have hed : ∀ g : Graph, getQueuesByTag (ids.foldl (fun g nid => addAttrs g nid id) g) tags interval matchMode =
      getQueuesByTag g tags interval matchMode := by
    induction ids with
    | nil => intro g; rfl
    | cons nid ids ih =>
      intro g
      rw [List.foldl_cons, ih]
      unfold addAttrs
      cases hget : g.get? nid with
      | none => exact getQueuesByTag_set_new g tags interval matchMode hget (by simp [row])
      | some d => exact getQueuesByTag_set g tags interval matchMode hget rfl
  have hs := Dict.perm_filterMap_set (fun e : String × NodeData => row tags interval matchMode e.2) g sentinelId
    { (g.get? sentinelId).getD {} with kind := some .sentinel }
  have hgone : row tags interval matchMode { (g.get? sentinelId).getD {} with kind := some .sentinel } = none := by
    simp [row]
  rw [hgone, Option.toList_none, List.append_nil] at hs
  unfold insertSentinel
  rw [hed, getQueuesByTag_eq, getQueuesByTag_eq]
  exact hs

end Memory

end Qmtl.DagManager.Repositories

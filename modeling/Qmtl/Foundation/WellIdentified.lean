import Qmtl.Foundation.NodeValidation

/-!
When a report on node identities is valid. The loop is taken node by node: what one node has to be for
no finding, and for the check to come back at all.
-/

namespace Qmtl.Foundation.NodeValidation

open Lib Foundation

/-! ### JSON values -/

mutual

def isJson : Value → Bool
  | .bytes _ => false
  | .set _ => false
  | .list items => areJson items
  | .dict items => fieldsAreJson items
  | _ => true

def areJson : List Value → Bool
  | [] => true
  | v :: vs => isJson v && areJson vs

def fieldsAreJson : List (Value × Value) → Bool
  | [] => true
  | (.str _, v) :: rest => isJson v && fieldsAreJson rest
  | _ => false

end

def IsJsonNode (node : Payload) : Prop := ∀ key, isJson (node.get key) = true

lemma isJsonNode_of_entries {node : Payload} (h : (node.entries.all fun e => isJson e.2)) : IsJsonNode node := by
  intro key
  unfold Payload.get
  cases hget : node.get? key with
  | none => rfl
  | some v => exact List.all_eq_true.mp h _ (Dict.get?_eq_some.mp hget)

section

variable {B : Builtins}

mutual

theorem canonicalizeParams_isOk : ∀ {v : Value}, isJson v → ∃ j, canonicalizeParams B v = .ok j
  | .none, _ => ⟨_, rfl⟩
  | .bool _, _ => ⟨_, rfl⟩
  | .int _, _ => ⟨_, rfl⟩
  | .float _, _ => ⟨_, rfl⟩
  | .str _, _ => ⟨_, rfl⟩
  | .bytes _, h => absurd h (by simp [isJson])
  | .set _, h => absurd h (by simp [isJson])
  | .list items, h => by
    obtain ⟨js, hjs⟩ := canonicalizeItems_isOk h
    rw [canonicalizeParams, hjs]
    exact ⟨_, rfl⟩
  | .dict items, h => by
    obtain ⟨fs, hfs⟩ := canonicalizeMapping_isOk h
    rw [canonicalizeParams, hfs]
    exact ⟨_, rfl⟩

theorem canonicalizeItems_isOk : ∀ {vs : List Value}, areJson vs → ∃ js, canonicalizeItems B vs = .ok js
  | [], _ => ⟨_, rfl⟩
  | v :: vs, h => by
    rw [areJson, Bool.and_eq_true] at h
    obtain ⟨j, hj⟩ := canonicalizeParams_isOk h.1
    obtain ⟨js, hjs⟩ := canonicalizeItems_isOk h.2
    rw [canonicalizeItems, hj, hjs]
    exact ⟨_, rfl⟩

theorem canonicalizeMapping_isOk : ∀ {es : List (Value × Value)}, fieldsAreJson es →
    ∃ fs, canonicalizeMapping B es = .ok fs
  | [], _ => ⟨_, rfl⟩
  | (k, v) :: rest, h => by
    have hr : isJson v ∧ fieldsAreJson rest := by
      cases k <;> simp [fieldsAreJson] at h
      exact h
    obtain ⟨j, hj⟩ := canonicalizeParams_isOk hr.1
    obtain ⟨fs, hfs⟩ := canonicalizeMapping_isOk hr.2
    rw [canonicalizeMapping]
    split
    · exact ⟨fs, hfs⟩
    · rw [hj, hfs]
      exact ⟨_, rfl⟩

end

end

/-! ### What a node has to be -/

section

variable (B : Builtins) (digest : ByteArray → String)

def tagsOfNode (node : Payload) : Value := orElse (tagsOf (node.get "params")) (node.get "tags")

def intervalOfNode (node : Payload) : Value := orElse (node.get "interval") (intervalOf (node.get "params"))

def matchModeOfNode (node : Payload) : Value := orElse (matchModeOf (node.get "params")) (node.get "match_mode")

def IsTagQuery (node : Payload) : Prop := nodeTypeOf B node = "TagQueryNode"

def schemaText (node : Payload) (key : String) : String := strip (textOr B (node.get key))

def SchemaIdsAgree (node : Payload) : Prop :=
  schemaText B node "schema_compat_id" = "" ∨ schemaText B node "schema_id" = "" ∨
    schemaText B node "schema_compat_id" = schemaText B node "schema_id"

/-- The required fields are there, the schema id perhaps in the legacy field. -/
structure HasFields (node : Payload) : Prop where
  nodeType : (node.get "node_type").truthy = true
  codeHash : (node.get "code_hash").truthy = true
  configHash : (node.get "config_hash").truthy = true
  schemaHash : (node.get "schema_hash").truthy = true
  schemaCompatId : (node.get "schema_compat_id").truthy = true ∨ schemaText B node "schema_id" ≠ ""

/-- At least one tag, and an interval that is read as an integer. -/
structure HasTagQuery (node : Payload) : Prop where
  tags : ∃ tags, splitTags B (tagsOfNode node) = .ok tags ∧ tags ≠ []
  interval : ∃ n, (intervalOfNode node).toInt B = .ok n

/-- Nothing that the hash of the node needs is missing. -/
structure Complete (node : Payload) : Prop where
  fields : HasFields B node
  tagQuery : IsTagQuery B node → HasTagQuery B node

/-- A node that is named by its own hash. -/
structure WellIdentified (node : Payload) : Prop where
  nodeId : ∃ id, node.get "node_id" = .str id ∧ id ≠ "" ∧ computeNodeId B digest node = .ok id
  schemaIds : SchemaIdsAgree B node
  complete : Complete B node

/-- What the check of a node iterates over or reads as a number lets itself be: the tags of a tag query
and then its mode, and the interval, the period and the inputs of a node that is complete. -/
structure Coercible (node : Payload) : Prop where
  tags : IsTagQuery B node → ∃ tags, splitTags B (tagsOfNode node) = .ok tags
  matchMode : IsTagQuery B node → HasTagQuery B node → ∃ mode, normalizeMatchMode B (matchModeOfNode node) = .ok mode
  interval : Complete B node → ∃ n, intOr B (node.get "interval") = .ok n
  period : Complete B node → ∃ n, intOr B (node.get "period") = .ok n
  inputs : Complete B node → ∃ deps, sortedDeps B node = .ok deps

def ReachesFields (node : Payload) : Prop := (nodeIdOf node).isSome = true ∧ SchemaIdsAgree B node

end

variable {B : Builtins} {digest : ByteArray → String}

/-! ### The schema id -/

lemma textOr_of_not_truthy {v : Value} (h : v.truthy = false) : textOr B v = "" := by
  rw [textOr, Value.or, h]
  rfl

lemma strip_empty : strip "" = "" := by decide

lemma schemaText_of_not_truthy {node : Payload} {key : String} (h : (node.get key).truthy = false) :
    schemaText B node key = "" := by
  rw [schemaText, textOr_of_not_truthy h, strip_empty]

lemma truthy_of_isNone {v : Value} (h : v.isNone) : v.truthy = false := by
  cases v <;> first | rfl | cases h

lemma schemaCompatIdOf_eq (node : Payload) :
    schemaCompatIdOf B node =
      if (node.get "schema_id").isNone then .ok (schemaText B node "schema_compat_id")
      else if schemaText B node "schema_compat_id" ≠ "" ∧ schemaText B node "schema_id" ≠ "" ∧
          schemaText B node "schema_compat_id" ≠ schemaText B node "schema_id" then
        .error (.invalid ("Validation error: schema_compat_id ('" ++ schemaText B node "schema_compat_id" ++
          "') and schema_id ('" ++ schemaText B node "schema_id" ++ "') must match if both are provided."))
      else .ok (if schemaText B node "schema_compat_id" = "" then schemaText B node "schema_id"
        else schemaText B node "schema_compat_id") := rfl

lemma schemaCompatIdOf_ok {node : Payload} (h : SchemaIdsAgree B node) :
    ∃ compat, schemaCompatIdOf B node = .ok compat ∧
      (compat = "" ↔ schemaText B node "schema_compat_id" = "" ∧ schemaText B node "schema_id" = "") := by
  rw [schemaCompatIdOf_eq]
  by_cases hn : (node.get "schema_id").isNone
  · rw [if_pos hn]
    have hl : schemaText B node "schema_id" = "" := schemaText_of_not_truthy (truthy_of_isNone hn)
    exact ⟨_, rfl, by simp [hl]⟩
  · rw [if_neg hn]
    have hag : ¬ (schemaText B node "schema_compat_id" ≠ "" ∧ schemaText B node "schema_id" ≠ "" ∧
        schemaText B node "schema_compat_id" ≠ schemaText B node "schema_id") := by
      rintro ⟨h1, h2, h3⟩
      rcases h with h | h | h
      · exact h1 h
      · exact h2 h
      · exact h3 h
    rw [if_neg hag]
    refine ⟨_, rfl, ?_⟩
    by_cases hempty : schemaText B node "schema_compat_id" = ""
    · simp [hempty]
    · simp [hempty]

lemma schemaCompatIdOf_error {node : Payload} (h : ¬ SchemaIdsAgree B node) :
    ∃ e, schemaCompatIdOf B node = .error e := by
  unfold SchemaIdsAgree at h
  push Not at h
  rw [schemaCompatIdOf_eq]
  have hs : ¬ (node.get "schema_id").isNone := fun hn =>
    h.2.1 (schemaText_of_not_truthy (truthy_of_isNone hn))
  rw [if_neg hs, if_pos h]
  exact ⟨_, rfl⟩

variable {compat : String}

lemma missingRequired_eq_nil_iff {fields : List String} (hn : fields.Nodup) {node : Payload} :
    missingRequired fields node compat = [] ↔
      ∀ f ∈ fields, (node.get f).truthy ∨ f = "schema_compat_id" ∧ compat ≠ "" := by
  unfold missingRequired
  have hm : (fields.filter fun field => !(node.get field).truthy).Nodup := hn.filter _
  have hmem : ∀ f, f ∈ (fields.filter fun field => !(node.get field).truthy) ↔
      f ∈ fields ∧ (node.get f).truthy = false := by simp
  generalize (fields.filter fun field => !(node.get field).truthy) = missing at *
  dsimp only
  rw [List.eq_nil_iff_forall_not_mem]
  split
  · rename_i h
    constructor
    · intro hnil f hf
      by_contra hnot
      push Not at hnot
      have hfl : (node.get f).truthy = false := by simpa using hnot.1
      have hne : f ≠ "schema_compat_id" := fun heq => h.2 (hnot.2 heq)
      exact hnil f (hm.mem_erase_iff.mpr ⟨hne, (hmem f).mpr ⟨hf, hfl⟩⟩)
    · intro hall f hf
      obtain ⟨hne, hf⟩ := hm.mem_erase_iff.mp hf
      obtain ⟨hf, hfl⟩ := (hmem f).mp hf
      rcases hall f hf with ht | ⟨heq, -⟩
      · rw [hfl] at ht
        cases ht
      · exact hne heq
  · rename_i h
    constructor
    · intro hnil f hf
      left
      by_contra hfl
      exact hnil f ((hmem f).mpr ⟨hf, by simpa using hfl⟩)
    · intro hall f hf
      obtain ⟨hfi, hfl⟩ := (hmem f).mp hf
      rcases hall f hfi with ht | ⟨rfl, hne⟩
      · rw [hfl] at ht
        cases ht
      · exact h ⟨hf, hne⟩

lemma missingRequired_eq_nil {node : Payload}
    (h : compat = "" ↔ schemaText B node "schema_compat_id" = "" ∧ schemaText B node "schema_id" = "") :
    missingRequired requiredNodeFields node compat = [] ↔ HasFields B node := by
  have hn : requiredNodeFields.Nodup := by decide
  rw [missingRequired_eq_nil_iff hn]
  have hother : ∀ {f : String}, f ≠ "schema_compat_id" →
      ((node.get f).truthy ∨ f = "schema_compat_id" ∧ compat ≠ "" ↔ (node.get f).truthy) := by
    intro f hne
    simp [hne]
  simp only [requiredNodeFields, List.forall_mem_cons, List.not_mem_nil, false_implies, implies_true, and_true]
  rw [hother (by decide), hother (by decide), hother (by decide), hother (by decide)]
  have hs : (node.get "schema_compat_id").truthy ∨ True ∧ compat ≠ "" ↔
      (node.get "schema_compat_id").truthy ∨ schemaText B node "schema_id" ≠ "" := by
    cases ht : (node.get "schema_compat_id").truthy with
    | true => simp
    | false => simp [h, schemaText_of_not_truthy ht]
  rw [hs]
  exact ⟨fun h => ⟨h.1, h.2.1, h.2.2.1, h.2.2.2.1, h.2.2.2.2⟩,
    fun h => ⟨h.nodeType, h.codeHash, h.configHash, h.schemaHash, h.schemaCompatId⟩⟩

/-! ### Tag queries -/

lemma sortedSet_eq_nil {tags : List String} : sortedSet tags = [] ↔ tags = [] := by
  rw [sortedSet, ← List.length_eq_zero_iff, List.length_insertionSort, List.length_eq_zero_iff, List.dedup_eq_nil]

lemma canonicalTagQueryParams_isOk {tags interval matchMode : Value} {ts : List String} {mode : MatchMode}
    (htg : splitTags B tags = .ok ts) (hmode : normalizeMatchMode B matchMode = .ok mode) :
    ∃ v, canonicalTagQueryParams B tags interval matchMode false false = .ok v ∧ isJson v := by
  have ht : ∀ ts : List String, areJson (ts.map .str) := by
    intro ts
    induction ts with
    | nil => rfl
    | cons t ts ih => exact ih
  unfold canonicalTagQueryParams
  rw [htg, hmode]
  refine ⟨_, rfl, ?_⟩
  cases interval.toInt B <;> simp [isJson, fieldsAreJson, ht]

lemma missing_of_noTags {node : Payload} (h : splitTags B (tagsOfNode node) = .ok []) :
    missingTagqueryRequirements B node = .ok ["tags"] := by
  have hr : canonicalTagQueryParamsFromNode B node true true =
      .error (.invalid "TagQuery requires at least one tag") := by
    show canonicalTagQueryParams B (tagsOfNode node) _ _ true true = _
    unfold canonicalTagQueryParams
    rw [h]
    rfl
  rw [missingTagqueryRequirements, hr]
  simp only [B.lower.onAscii _ (ascii_of_all (by decide +kernel : ("TagQuery requires at least one tag".toList.all
    fun c => c.toNat < 128)))]
  rfl

lemma missing_of_noInterval {node : Payload} {ts : List String} {e : Raised}
    (ht : splitTags B (tagsOfNode node) = .ok ts) (hne : ts ≠ []) (h : (intervalOfNode node).toInt B = .error e) :
    missingTagqueryRequirements B node = .ok ["tags", "interval"] := by
  have hr : canonicalTagQueryParamsFromNode B node true true = .error (.invalid "TagQuery interval is required") := by
    show canonicalTagQueryParams B (tagsOfNode node) (intervalOfNode node) _ true true = _
    have hempty : (sortedSet ts).isEmpty = false := by
      rw [List.isEmpty_eq_false_iff]
      exact fun hnil => hne (sortedSet_eq_nil.mp hnil)
    unfold canonicalTagQueryParams
    rw [ht, h]
    simp [bind, Except.bind, hempty, Value.isNone, throw, throwThe, MonadExceptOf.throw]
  rw [missingTagqueryRequirements, hr]
  simp only [B.lower.onAscii _ (ascii_of_all (by decide +kernel : ("TagQuery interval is required".toList.all
    fun c => c.toNat < 128)))]
  rfl

lemma missing_of_hasTagQuery {node : Payload} {mode : MatchMode} (h : HasTagQuery B node)
    (hmode : normalizeMatchMode B (matchModeOfNode node) = .ok mode) :
    missingTagqueryRequirements B node = .ok [] := by
  obtain ⟨ts, ht, hne⟩ := h.tags
  obtain ⟨n, hn⟩ := h.interval
  have hempty : (sortedSet ts).isEmpty = false := by
    rw [List.isEmpty_eq_false_iff]
    exact fun hnil => hne (sortedSet_eq_nil.mp hnil)
  have hok : ∃ v, canonicalTagQueryParamsFromNode B node true true = .ok v := by
    show ∃ v, canonicalTagQueryParams B (tagsOfNode node) (intervalOfNode node) (matchModeOfNode node) true true = .ok v
    unfold canonicalTagQueryParams
    rw [ht, hn, hmode]
    simp [bind, Except.bind, hempty, Value.isNone, pure, Except.pure]
  obtain ⟨v, hv⟩ := hok
  rw [missingTagqueryRequirements, hv]

lemma missingTagqueryRequirements_isOk {node : Payload} (h : Coercible B node) (hq : IsTagQuery B node) :
    ∃ missing, missingTagqueryRequirements B node = .ok missing ∧ (missing = [] ↔ HasTagQuery B node) := by
  obtain ⟨ts, ht⟩ := h.tags hq
  by_cases hne : ts = []
  · subst hne
    refine ⟨_, missing_of_noTags ht, iff_of_false (by simp) ?_⟩
    intro hhas
    obtain ⟨ts, hts, hne⟩ := hhas.tags
    rw [ht] at hts
    exact hne (Except.ok.inj hts).symm
  · cases hin : (intervalOfNode node).toInt B with
    | error e =>
      refine ⟨_, missing_of_noInterval ht hne hin, iff_of_false (by simp) ?_⟩
      intro hhas
      obtain ⟨n, hn⟩ := hhas.interval
      rw [hin] at hn
      cases hn
    | ok n =>
      have hhas : HasTagQuery B node := ⟨⟨ts, ht, hne⟩, ⟨n, hin⟩⟩
      obtain ⟨mode, hmode⟩ := h.matchMode hq hhas
      exact ⟨[], missing_of_hasTagQuery hhas hmode, iff_of_true rfl hhas⟩

lemma missingList_isOk {node : Payload} (h : Coercible B node)
    (hc : compat = "" ↔ schemaText B node "schema_compat_id" = "" ∧ schemaText B node "schema_id" = "") :
    ∃ missing, missingList B requiredNodeFields node compat = .ok missing ∧ (missing = [] ↔ Complete B node) := by
  unfold missingList
  by_cases hqr : IsTagQuery B node
  · have ht : nodeTypeOf B node = "TagQueryNode" := hqr
    obtain ⟨missing, hok, hiff⟩ := missingTagqueryRequirements_isOk h hqr
    rw [if_pos ht, hok]
    refine ⟨_, rfl, ?_⟩
    rw [List.append_eq_nil_iff, missingRequired_eq_nil hc, hiff]
    exact ⟨fun h => ⟨h.1, fun _ => h.2⟩, fun h => ⟨h.fields, h.tagQuery hqr⟩⟩
  · have ht : nodeTypeOf B node ≠ "TagQueryNode" := hqr
    rw [if_neg ht]
    refine ⟨_, rfl, ?_⟩
    rw [missingRequired_eq_nil hc]
    exact ⟨fun h => ⟨h, fun hq => absurd hq hqr⟩, fun h => h.fields⟩

lemma isTagQuery_of_textField {node : Payload} (h : textField B node "node_type" = "TagQueryNode") :
    IsTagQuery B node := by
  unfold textField at h
  unfold IsTagQuery nodeTypeOf Payload.get textOr
  cases hget : node.get? "node_type" with
  | none =>
    rw [hget] at h
    have h : "" = "TagQueryNode" := h
    exact absurd h (by decide)
  | some v =>
    rw [hget] at h
    rw [Option.getD_some, Value.or]
    cases ht : v.truthy with
    | true => exact h
    | false =>
      -- no value that counts as false has this text
      have h : v.toStr B = "TagQueryNode" := h
      rcases @Value.toStr_of_not_truthy B _ ht with rfl | hmem
      · exact absurd h (show ("" : String) ≠ _ by decide)
      · rw [h] at hmem
        exact absurd hmem (by decide)

lemma computeNodeId_isOk {node : Payload} (hjs : IsJsonNode node) (h : Coercible B node)
    (hs : SchemaIdsAgree B node) (hc : Complete B node) : ∃ id, computeNodeId B digest node = .ok id := by
  obtain ⟨interval, hin⟩ := h.interval hc
  obtain ⟨period, hp⟩ := h.period hc
  obtain ⟨deps, hd⟩ := h.inputs hc
  obtain ⟨compat, hcm, -⟩ := schemaCompatIdOf_ok hs
  have hpr : ∃ v, paramsOfNode B node = .ok v ∧ isJson v := by
    unfold paramsOfNode
    split
    · rename_i ht
      have hq := isTagQuery_of_textField ht
      have hhas := hc.tagQuery hq
      obtain ⟨ts, htg, -⟩ := hhas.tags
      obtain ⟨mode, hmode⟩ := h.matchMode hq hhas
      exact canonicalTagQueryParams_isOk htg hmode
    · refine ⟨_, rfl, ?_⟩
      unfold paramsSourceFromNode orElse
      split
      · exact hjs "config"
      · exact hjs "params"
  obtain ⟨v, hv, hvj⟩ := hpr
  obtain ⟨j, hj⟩ := @canonicalizeParams_isOk B _ hvj
  unfold schemaCompatIdOf at hcm
  have hb : canonicalParamsBlob B node = .ok (dumpsSorted j) := by
    rw [canonicalParamsBlob, hv]
    show canonicalParamsBlobFromValue B v = _
    rw [canonicalParamsBlobFromValue, hj]
    rfl
  rw [computeNodeId, serializeNodespec, nodeFields, hin, hp, hd, hcm, hb]
  exact ⟨_, rfl⟩

lemma nodeIdOf_eq_some {node : Payload} {id : String} :
    nodeIdOf node = some id ↔ node.get "node_id" = .str id ∧ id ≠ "" := by
  unfold nodeIdOf
  split
  · rename_i text heq
    rw [heq]
    by_cases hempty : text = ""
    · subst hempty
      simp
    · rw [if_neg hempty]
      constructor
      · intro h
        cases h
        exact ⟨rfl, hempty⟩
      · intro h
        rw [Value.str.inj h.1]
  · rename_i hne
    exact iff_of_false (by simp) fun h => hne _ h.1

/-- **The check of one node** comes back, and finds nothing exactly when the node is well identified. -/
theorem inspectNode_isOk {node : Payload} (index : ℕ) (hj : IsJsonNode node)
    (h : ReachesFields B node → Coercible B node) :
    ∃ finding, inspectNode B digest requiredNodeFields index node = .ok finding ∧
      (finding = none ↔ WellIdentified B digest node) := by
  unfold inspectNode
  cases hid : nodeIdOf node with
  | none =>
    refine ⟨_, rfl, iff_of_false (by simp) ?_⟩
    intro hw
    obtain ⟨id, hget, hne, -⟩ := hw.nodeId
    rw [nodeIdOf_eq_some.mpr ⟨hget, hne⟩] at hid
    cases hid
  | some nodeId =>
    by_cases hs : SchemaIdsAgree B node
    · have hcr := h ⟨by rw [hid]; rfl, hs⟩
      obtain ⟨compat, hco, hempty⟩ := schemaCompatIdOf_ok hs
      obtain ⟨missing, hm, hc⟩ := missingList_isOk hcr hempty
      rw [hco]
      dsimp only
      rw [hm]
      by_cases hnil : missing = []
      · obtain ⟨expected, hex⟩ := @computeNodeId_isOk _ digest _ hj hcr hs (hc.mp hnil)
        subst hnil
        rw [hex]
        refine ⟨_, rfl, ?_⟩
        by_cases heq : nodeId = expected
        · rw [if_neg (fun hne => hne heq)]
          obtain ⟨hget, hne⟩ := nodeIdOf_eq_some.mp hid
          exact iff_of_true rfl ⟨⟨nodeId, hget, hne, heq ▸ hex⟩, hs, hc.mp rfl⟩
        · rw [if_pos heq]
          refine iff_of_false (by simp) ?_
          intro hw
          obtain ⟨id, hget, hne, hcm⟩ := hw.nodeId
          rw [nodeIdOf_eq_some.mpr ⟨hget, hne⟩] at hid
          rw [hex] at hcm
          exact heq ((Option.some.inj hid).symm.trans (Except.ok.inj hcm).symm)
      · refine ⟨some (.missing ⟨index, missing.eraseDups, some nodeId⟩), ?_, iff_of_false (by simp) ?_⟩
        · simp [bind, Except.bind, hnil, pure, Except.pure]
        · exact fun hw => hnil (hc.mpr hw.complete)
    · obtain ⟨e, he⟩ := schemaCompatIdOf_error hs
      rw [he]
      exact ⟨_, rfl, iff_of_false (by simp) fun hw => hs hw.schemaIds⟩

/-! ### The loop -/

namespace Findings

lemma clean_add {out : Findings} {id : String} {finding : Option Finding} :
    ((out.addId id).add finding).clean ↔ out.clean ∧ finding = none := by
  rcases finding with _ | f | c | m <;> simp [add, addId, clean]

lemma nodeIds_add {out : Findings} {id : String} {finding : Option Finding} :
    ((out.addId id).add finding).nodeIds = out.nodeIds ++ [id] := by
  rcases finding with _ | f | c | m <;> rfl

end Findings

variable {nodes : List (Option Payload)}

lemma inspectNodes_isOk (hj : ∀ node, some node ∈ nodes → IsJsonNode node)
    (h : ∀ node, some node ∈ nodes → ReachesFields B node → Coercible B node) (index : ℕ) (out : Findings) :
    ∃ out', inspectNodes B digest requiredNodeFields index nodes out = .ok out' ∧
      out'.nodeIds = out.nodeIds ++ (nodes.filterMap id).map (crcId B) ∧
      (out'.clean ↔ out.clean ∧ ∀ node, some node ∈ nodes → WellIdentified B digest node) := by
  induction nodes generalizing index out with
  | nil => exact ⟨out, rfl, by simp, by simp⟩
  | cons element nodes ih =>
    have ih := ih (fun node hmem => hj node (.tail _ hmem))
      fun node hmem => h node (.tail _ hmem)
    cases element with
    | none =>
      obtain ⟨out', hok, hids, hc⟩ := ih (index + 1) out
      exact ⟨out', hok, by simpa using hids, by simpa using hc⟩
    | some node =>
      obtain ⟨finding, hf, hn⟩ := @inspectNode_isOk _ digest _ index
        (hj node (.head _)) (h node (.head _))
      obtain ⟨out', hok, hids, hc⟩ := ih (index + 1) ((out.addId (crcId B node)).add finding)
      refine ⟨out', ?_, ?_, ?_⟩
      · rw [inspectNodes, hf]
        exact hok
      · rw [hids, Findings.nodeIds_add]
        simp
      · rw [hc, Findings.clean_add, hn]
        simp only [List.mem_cons, Option.some.injEq, forall_eq_or_imp]
        tauto

lemma crcId_eq {node : Payload} {id : String} (h : nodeIdOf node = some id) : crcId B node = id := by
  obtain ⟨hget, hne⟩ := nodeIdOf_eq_some.mp h
  have ht : (Value.str id).truthy := by simpa [Value.truthy] using hne
  rw [crcId, hget, textOr, Value.or, if_pos ht]
  rfl

lemma crcIds_eq {nodes : List Payload} (h : ∀ node ∈ nodes, WellIdentified B digest node) :
    nodes.map (crcId B) = nodes.filterMap nodeIdOf := by
  induction nodes with
  | nil => rfl
  | cons node nodes ih =>
    obtain ⟨id, hget, hne, -⟩ := (h node (.head _)).nodeId
    have hid := nodeIdOf_eq_some.mpr ⟨hget, hne⟩
    rw [List.map_cons, List.filterMap_cons, hid, crcId_eq hid, ih fun node hmem => h node (.tail _ hmem)]

/-- **A report comes back, and is valid for well identified nodes only**: for JSON values whose hashed
fields can be coerced, `validate_node_identity` reports, and the report is valid exactly when every
object is named by its own hash and has all that goes into it, and the checksum is that of the ids in
their order. -/
theorem report_isValid_iff (provided : ℤ) (hjson : ∀ node, some node ∈ nodes → IsJsonNode node)
    (hcoerce : ∀ node, some node ∈ nodes → ReachesFields B node → Coercible B node) :
    ∃ report, validateNodeIdentity B digest requiredNodeFields nodes provided = .ok report ∧
      (report.isValid = true ↔ (∀ node, some node ∈ nodes → WellIdentified B digest node) ∧
        provided = crc32OfList ((nodes.filterMap id).filterMap nodeIdOf)) := by
  obtain ⟨out, hok, hids, hclean⟩ := @inspectNodes_isOk _ digest _ hjson hcoerce 0 .empty
  rw [validateNodeIdentity, hok]
  refine ⟨_, rfl, ?_⟩
  have hvalid : ∀ computed, NodeValidationReport.isValid ⟨provided, computed, out.nodeIds, out.missingFields,
      out.mismatches, out.schemaConflicts⟩ ↔ out.clean ∧ provided = computed := by
    intro computed
    simp only [NodeValidationReport.isValid, NodeValidationReport.checksumValid, Findings.clean, Bool.and_eq_true,
      decide_eq_true_eq]
    tauto
  refine (hvalid _).trans ?_
  rw [hclean, hids]
  have hempty : Findings.empty.clean := rfl
  simp only [hempty, true_and]
  refine and_congr_right fun hwell => ?_
  have hmem : ∀ node ∈ nodes.filterMap id, WellIdentified B digest node := by
    intro node hmem
    obtain ⟨element, helement, heq⟩ := List.mem_filterMap.mp hmem
    obtain rfl : element = some node := heq
    exact hwell node helement
  rw [crcIds_eq hmem]
  rfl

def plainNode : Payload := Dict.ofList
  [("node_id", .str "blake3:ea9bec3b8aa42ecce3bf3de2039aa51169235f2fdb095b9a0a755fc75b4cbeef"),
    ("node_type", .str "Indicator"), ("code_hash", .str "c0de01"), ("config_hash", .str "cf01"),
    ("schema_hash", .str "5c4e01"), ("schema_compat_id", .str "s1"), ("interval", .int 60), ("period", .int 4)]

def plainDigest (_ : ByteArray) : String := "ea9bec3b8aa42ecce3bf3de2039aa51169235f2fdb095b9a0a755fc75b4cbeef"

theorem plainNode_isValid :
    ∃ report, validateNodeIdentity .ascii plainDigest requiredNodeFields [some plainNode] 2284056290 = .ok report ∧
      report.isValid = true := by
  have honly : ∀ node, some node ∈ [some plainNode] → node = plainNode := by
    intro node hmem
    exact Option.some.inj (List.mem_singleton.mp hmem)
  have hjson : ∀ node, some node ∈ [some plainNode] → IsJsonNode node := by
    intro node hmem
    rw [honly node hmem]
    exact isJsonNode_of_entries (by decide)
  have hcoerce : ∀ node, some node ∈ [some plainNode] → ReachesFields .ascii node → Coercible .ascii node := by
    intro node hmem _
    rw [honly node hmem]
    have hquery : ¬ IsTagQuery .ascii plainNode := show nodeTypeOf .ascii plainNode ≠ _ by decide
    exact ⟨fun h => absurd h hquery, fun h => absurd h hquery, fun _ => ⟨60, rfl⟩, fun _ => ⟨4, rfl⟩, fun _ => ⟨[], rfl⟩⟩
  obtain ⟨report, hreport, hiff⟩ := @report_isValid_iff _ plainDigest _ 2284056290 hjson hcoerce
  refine ⟨report, hreport, hiff.mpr ⟨?_, by decide +kernel⟩⟩
  intro node hmem
  rw [honly node hmem]
  exact ⟨⟨_, rfl, by decide, rfl⟩, .inr (.inl (by decide)), ⟨by decide, by decide, by decide, by decide, .inl (by decide)⟩,
    fun h => absurd h (show nodeTypeOf .ascii plainNode ≠ _ by decide)⟩

/-- A list with a text in it is accepted, a tag query is with a text for its interval, and an interval that
is no number raises what is no report. -/
theorem report_not_exact :
    (∃ report, validateNodeIdentity .ascii plainDigest requiredNodeFields [none] 0 = .ok report ∧
        report.isValid = true) ∧ (∃ report, validateNodeIdentity .ascii
          (fun _ => "2c18f1974a7029befd9f0f99a68fdcbbaf4b08b1ce0d82a08d797bf05ea95373") requiredNodeFields
          [some (Dict.ofList
            [("node_id", .str "blake3:2c18f1974a7029befd9f0f99a68fdcbbaf4b08b1ce0d82a08d797bf05ea95373"),
              ("node_type", .str "TagQueryNode"), ("code_hash", .str "c0de01"), ("config_hash", .str "cf01"),
              ("schema_hash", .str "5c4e01"), ("schema_compat_id", .str "s1"), ("interval", .str "60"),
              ("params", .dict [(.str "tags", .list [.str "btc"])])])] 250891787 = .ok report ∧
        report.isValid = true) ∧
      validateNodeIdentity .ascii plainDigest requiredNodeFields [some (plainNode.set "interval" (.str "1h"))] 0 =
        .error .valueError :=
  ⟨exists_ok NodeValidationReport.isValid (by decide +kernel), exists_ok NodeValidationReport.isValid (by decide +kernel), rfl⟩

end Qmtl.Foundation.NodeValidation

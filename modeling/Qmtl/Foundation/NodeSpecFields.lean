import Qmtl.Foundation.NodeSpec

/-!
What a payload, the `CanonicalNodeSpec` built of it and the payload that spec writes hand to
`serialize_nodespec`, field by field.
-/

namespace Qmtl.Foundation.NodeSpecPaths

open Lib Foundation

variable (p : Payload)

def specParams : Value := if (p.get? "params").isSome then p.get "params" else p.get "config"

def mappingTags : Value := orElse (tagsOf (p.get "params")) (p.get "tags")

def specTags : Value := orElse (orElse (tagsOf (specParams p)) (p.get "tags")) (specParams p)

def mappingMatchMode : Value := orElse (matchModeOf (p.get "params")) (p.get "match_mode")

def specMatchMode : Value := orElse (matchModeOf (specParams p)) (p.get "match_mode")

def specDeps : Value := orElse (p.get "dependencies") (p.get "inputs")

variable {B : Builtins} {p}

/-! ### The values found -/

def tagJson (tags : List String) (mode : MatchMode) (interval : Option ℤ) : Json :=
  .obj [("interval", match interval with | some n => .num (toString n) | none => .null),
    ("match_mode", .str mode.value), ("query_tags", .arr (tags.map .str))]

def readInterval (B : Builtins) (interval : Value) : Option ℤ := (interval.toInt B).toOption

lemma not_excluded {key : String} (hasc : key.toList.all (·.toNat < 128))
    (h : isExcludedParamKey (String.ofList (key.toList.map Char.toLower)) = false) :
    isExcludedParamKey (B.lower.fn key) = false := by
  rw [B.lower.onAscii key (ascii_of_all hasc)]
  exact h

lemma canonicalizeItems_str (tags : List String) : canonicalizeItems B (tags.map .str) = .ok (tags.map .str) := by
  induction tags with
  | nil => rfl
  | cons t tags ih =>
    rw [List.map_cons, canonicalizeItems, ih]
    rfl

lemma canonicalize_tagQuery (tags interval matchMode : Value) :
    (canonicalTagQueryParams B tags interval matchMode false false >>= canonicalizeParams B) = (do
      let ts ← splitTags B tags
      let mode ← normalizeMatchMode B matchMode
      return tagJson (sortedSet ts) mode (readInterval B interval)) := by
  unfold canonicalTagQueryParams readInterval
  simp only [Bool.false_and, Bool.false_eq_true, if_false, bind_assoc, pure_bind]
  congr 1
  funext ts
  cases normalizeMatchMode B matchMode with
  | error e => rfl
  | ok mode =>
    have hq : isExcludedParamKey (B.lower.fn "query_tags") = false := not_excluded (by decide) (by decide)
    have hm : isExcludedParamKey (B.lower.fn "match_mode") = false := not_excluded (by decide) (by decide)
    have hi : isExcludedParamKey (B.lower.fn "interval") = false := not_excluded (by decide) (by decide)
    have hs : ∀ a b c : Json, canonicalFields [("query_tags", a), ("match_mode", b), ("interval", c)] =
        [("interval", c), ("match_mode", b), ("query_tags", a)] := by
      intro a b c
      have h1 : ¬ "match_mode" ≤ "interval" := by decide
      have h2 : ¬ "query_tags" ≤ "interval" := by decide
      have h3 : ¬ "query_tags" ≤ "match_mode" := by decide
      unfold canonicalFields
      simp only [List.insertionSort_cons, List.insertionSort_nil, List.orderedInsert_cons, List.orderedInsert_nil,
        h1, h2, h3, if_false]
      exact Dict.entries_ofList (by simp)
    have hc : ∀ (v : Value) (j : Json), canonicalizeParams B v = .ok j →
        canonicalizeParams B (.dict [(.str "query_tags", .list ((sortedSet ts).map .str)),
          (.str "match_mode", .str mode.value), (.str "interval", v)]) =
        .ok (.obj [("interval", j), ("match_mode", .str mode.value),
          ("query_tags", .arr ((sortedSet ts).map .str))]) := by
      intro v j hv
      simp only [canonicalizeParams, canonicalizeMapping, Value.toStr, hq, hm, hi, Bool.false_eq_true, if_false,
        hv, canonicalizeItems_str, hs, bind, Except.bind, pure, Except.pure]
    cases hint : interval.toInt B with
    | ok n => exact hc (.int n) (.num (toString n)) rfl
    | error e => exact hc .none .null rfl

lemma tagJson_inj {ts us : List String} {m n : MatchMode} {i j : Option ℤ}
    (h : tagJson ts m i = tagJson us n j) : ts = us ∧ m = n ∧ i = j := by
  simp only [tagJson, Json.obj.injEq, List.cons.injEq, Prod.mk.injEq, true_and, and_true, Json.str.injEq,
    Json.arr.injEq] at h
  obtain ⟨hi, hm, ht⟩ := h
  refine ⟨?_, ?_, ?_⟩
  · exact List.map_injective_iff.mpr (fun a b hab => by simpa using hab) ht
  · cases m <;> cases n <;> first | rfl | exact absurd hm (by decide)
  · cases i with
    | none =>
      cases j with
      | none => rfl
      | some n => cases hi
    | some m =>
      cases j with
      | none => cases hi
      | some n => rw [toString_int_injective (Json.num.inj hi)]

/-! ### What `from_payload` and `to_payload` keep -/

def fieldName (p : Payload) : String :=
  if (p.get? "params").isSome then "params" else if (p.get? "config").isSome then "config" else "params"

def extrasOf (p : Payload) : Payload :=
  Dict.ofList (p.entries.filter fun e => !(fieldName p :: reservedExtraKeys).contains e.1)

def specOf (B : Builtins) (p : Payload) (i period : ℤ) (ds : List String) (sc : String) : CanonicalNodeSpec where
  nodeType := textOr B (p.get "node_type")
  interval := i
  period := period
  intervalPayload := p.get "interval"
  intervalPayloadIsSet := (p.get? "interval").isSome
  periodPayload := p.get "period"
  periodPayloadIsSet := (p.get? "period").isSome
  paramsValue := p.get (fieldName p)
  paramsField := fieldName p
  paramsFieldPresent := (p.get? (fieldName p)).isSome
  dependencies := ds
  schemaCompatId := sc
  codeHash := textOr B (p.get "code_hash")
  extras := extrasOf p

lemma fromPayload_eq : CanonicalNodeSpec.fromPayload B p = (do
    let i ← intOr B (p.get "interval")
    let period ← intOr B (p.get "period")
    let ds ← normalizeDependencies B (specDeps p)
    let sc ← normalizeSchemaCompatId B (p.get "schema_compat_id") (p.get "schema_id")
    return specOf B p i period ds sc) := rfl

lemma fieldName_cases (p : Payload) : fieldName p = "params" ∨ fieldName p = "config" := by
  unfold fieldName
  split_ifs <;> simp

lemma get_fieldName (p : Payload) : p.get (fieldName p) = specParams p := by
  unfold fieldName specParams
  split_ifs with h1 h2
  · rfl
  · rfl
  · have hn : p.get? "params" = none := by simpa using h1
    have hc : p.get? "config" = none := by simpa using h2
    rw [Payload.get, Payload.get, hn, hc]

lemma get?_extrasOf (p : Payload) (k : String) :
    (extrasOf p).get? k = if (fieldName p :: reservedExtraKeys).contains k then none else p.get? k := by
  have hnd : ((p.entries.filter fun e => !(fieldName p :: reservedExtraKeys).contains e.1).map Prod.fst).Nodup :=
    p.nodup.sublist (List.Sublist.map _ List.filter_sublist)
  rw [Dict.get?, extrasOf, Dict.entries_ofList hnd,
    Dict.lookup_filter (fun k => !(fieldName p :: reservedExtraKeys).contains k)]
  cases hc : (fieldName p :: reservedExtraKeys).contains k <;> simp [Dict.get?]

def baseOf (B : Builtins) (p : Payload) (i period : ℤ) (ds : List String) (sc : String) : Payload :=
  Dict.ofList
    [("node_type", .str (textOr B (p.get "node_type"))),
      ("interval", if (p.get? "interval").isSome then p.get "interval" else .int i),
      ("period", if (p.get? "period").isSome then p.get "period" else .int period),
      ("dependencies", .list (ds.map .str)),
      ("schema_compat_id", .str sc),
      ("code_hash", .str (textOr B (p.get "code_hash")))]

lemma get?_toPayload (i period : ℤ) (ds : List String) (sc : String) (k : String) :
    (specOf B p i period ds sc).toPayload.get? k = if (fieldName p :: reservedExtraKeys).contains k then
        if k = fieldName p ∧ (p.get? (fieldName p)).isSome then p.get? k else (baseOf B p i period ds sc).get? k
      else (p.get? k).orElse fun _ => (baseOf B p i period ds sc).get? k := by
  have hn : (if (specOf B p i period ds sc).paramsField = "" then "params"
      else (specOf B p i period ds sc).paramsField) = fieldName p := by
    rcases fieldName_cases p with h | h <;> simp [specOf, h]
  have hupd : (specOf B p i period ds sc).toPayload.get? k = ((extrasOf p).get? k).orElse fun _ =>
      (if (p.get? (fieldName p)).isSome then (baseOf B p i period ds sc).set (fieldName p) (p.get (fieldName p))
        else baseOf B p i period ds sc).get? k := by
    unfold CanonicalNodeSpec.toPayload
    simp only [hn]
    exact Dict.get?_update (extrasOf p).nodup k
  rw [hupd, get?_extrasOf]
  by_cases hr : (fieldName p :: reservedExtraKeys).contains k
  · rw [if_pos hr, if_pos hr, Option.orElse_none]
    by_cases hs : (p.get? (fieldName p)).isSome
    · rw [if_pos hs, Dict.get?_set]
      by_cases hk : k = fieldName p
      · rw [if_pos hk, if_pos ⟨hk, hs⟩, hk]
        obtain ⟨v, hv⟩ := Option.isSome_iff_exists.mp hs
        rw [Payload.get, hv, Option.getD_some]
      · rw [if_neg hk, if_neg fun h => hk h.1]
    · rw [if_neg hs, if_neg fun h => hs h.2]
  · rw [if_neg hr, if_neg hr]
    have hk : k ≠ fieldName p := by
      rintro rfl
      exact hr (by simp)
    congr 1
    funext _
    split
    · rw [Dict.get?_set_ne _ _ hk]
    · rfl

lemma get?_baseOf (i period : ℤ) (ds : List String) (sc : String) (k : String) :
    (baseOf B p i period ds sc).get? k = if k = "node_type" then some (.str (textOr B (p.get "node_type")))
      else if k = "interval" then some (if (p.get? "interval").isSome then p.get "interval" else .int i)
      else if k = "period" then some (if (p.get? "period").isSome then p.get "period" else .int period)
      else if k = "dependencies" then some (.list (ds.map .str)) else if k = "schema_compat_id" then some (.str sc)
      else if k = "code_hash" then some (.str (textOr B (p.get "code_hash"))) else none := by
  rw [Dict.get?, baseOf, Dict.entries_ofList (by simp)]
  simp [Dict.lookup_cons]

section RoundTrip

variable (i period : ℤ) (ds : List String) (sc : String)

lemma get?_toPayload_base {k : String} (h1 : k ≠ "params") (h2 : k ≠ "config") (h3 : k ∈ reservedExtraKeys) :
    (specOf B p i period ds sc).toPayload.get? k = (baseOf B p i period ds sc).get? k := by
  have hk : k ≠ fieldName p := by
    rcases fieldName_cases p with h | h <;> rw [h] <;> assumption
  rw [get?_toPayload, if_pos (by simp [h3]), if_neg fun h => hk h.1]

lemma get?_toPayload_extra {k : String} (h : k ∉ reservedExtraKeys) :
    (specOf B p i period ds sc).toPayload.get? k = p.get? k := by
  have hk : k ≠ fieldName p := by
    rcases fieldName_cases p with h' | h' <;> rw [h'] <;> rintro rfl <;> exact h (by decide)
  have hb : (baseOf B p i period ds sc).get? k = none := by
    rw [get?_baseOf]
    split_ifs with h1 h2 h3 h4 h5 h6
    · exact absurd (by rw [h1]; decide) h
    · exact absurd (by rw [h2]; decide) h
    · exact absurd (by rw [h3]; decide) h
    · exact absurd (by rw [h4]; decide) h
    · exact absurd (by rw [h5]; decide) h
    · exact absurd (by rw [h6]; decide) h
    · rfl
  rw [get?_toPayload, if_neg (by simp [h, hk]), hb]
  cases p.get? k <;> rfl

lemma get?_toPayload_params : (specOf B p i period ds sc).toPayload.get? "params" = p.get? "params" := by
  have hb : (baseOf B p i period ds sc).get? "params" = none := by
    rfl
  rw [get?_toPayload, if_pos (by simp [reservedExtraKeys]), hb]
  by_cases hp : (p.get? "params").isSome
  · have hf : fieldName p = "params" := by simp [fieldName, hp]
    rw [hf, if_pos ⟨rfl, hp⟩]
  · have hn : p.get? "params" = none := by simpa using hp
    rw [hn, ite_self]

lemma get?_toPayload_config : (specOf B p i period ds sc).toPayload.get? "config" =
      if (p.get? "params").isSome then none else p.get? "config" := by
  have hb : (baseOf B p i period ds sc).get? "config" = none := by
    rfl
  rw [get?_toPayload, if_pos (by simp [reservedExtraKeys]), hb]
  by_cases hp : (p.get? "params").isSome
  · have hf : fieldName p = "params" := by simp [fieldName, hp]
    rw [hf, if_neg fun h => by simp at h, if_pos hp]
  · rw [if_neg hp]
    by_cases hc : (p.get? "config").isSome
    · have hf : fieldName p = "config" := by simp [fieldName, hp, hc]
      rw [hf, if_pos ⟨rfl, hc⟩]
    · have hn : p.get? "config" = none := by simpa using hc
      rw [hn, ite_self]

lemma paramsSource_toPayload : paramsSourceFromNode (specOf B p i period ds sc).toPayload = specParams p := by
  unfold paramsSourceFromNode specParams Payload.get
  rw [get?_toPayload_params, get?_toPayload_config]
  cases p.get? "params" with
  | none => rfl
  | some v =>
    cases v <;> rfl

end RoundTrip

/-! ### The fields of the three ways -/

def mappingJson (B : Builtins) (p : Payload) : Except Raised Json := do
  canonicalizeParams B (← paramsOfNode B p)

def specValue (B : Builtins) (p : Payload) (i : ℤ) : Except Raised Value :=
  if textOr B (p.get "node_type") = "TagQueryNode" then
    canonicalTagQueryParams B (specTags p) (.int i) (specMatchMode p) false false
  else .ok (specParams p)

def specJson (B : Builtins) (p : Payload) (i : ℤ) : Except Raised Json := do
  canonicalizeParams B (← specValue B p i)

def roundTripInterval (p : Payload) (i : ℤ) : Value :=
  orElse (if (p.get? "interval").isSome then p.get "interval" else .int i) (intervalOf (p.get "params"))

def roundTripValue (B : Builtins) (p : Payload) (i : ℤ) : Except Raised Value :=
  if textOr B (p.get "node_type") = "TagQueryNode" then
    canonicalTagQueryParams B (mappingTags p) (roundTripInterval p i) (mappingMatchMode p) false false
  else .ok (specParams p)

def roundTripJson (B : Builtins) (p : Payload) (i : ℤ) : Except Raised Json := do
  canonicalizeParams B (← roundTripValue B p i)

lemma mapping_eq : nodeFields B (.mapping p) = (do
    let i ← intOr B (p.get "interval")
    let period ← intOr B (p.get "period")
    let ds ← sortedDeps B p
    let sc ← normalizeSchemaCompatId B (p.get "schema_compat_id") (p.get "schema_id")
    let j ← mappingJson B p
    return ⟨textField B p "node_type", i, period, dumpsSorted j, ds, sc, textField B p "code_hash"⟩) := by
  simp only [nodeFields, canonicalParamsBlob, canonicalParamsBlobFromValue, mappingJson, bind_assoc, pure_bind]

lemma spec_eq (i period : ℤ) (ds : List String) (sc : String) :
    nodeFields B (.spec (specOf B p i period ds sc)) = (do
      let j ← specJson B p i
      return ⟨textOr B (p.get "node_type"), i, period, dumpsSorted j, ds, sc, textOr B (p.get "code_hash")⟩) := by
  have hp : (specOf B p i period ds sc).params B = specValue B p i := by
    have ht : (extrasOf p).get "tags" = p.get "tags" := by
      rw [Payload.get, get?_extrasOf, if_neg, Payload.get]
      rcases fieldName_cases p with h | h <;> rw [h] <;> decide
    have hmode : (extrasOf p).get "match_mode" = p.get "match_mode" := by
      rw [Payload.get, get?_extrasOf, if_neg, Payload.get]
      rcases fieldName_cases p with h | h <;> rw [h] <;> decide
    unfold CanonicalNodeSpec.params specValue
    simp [specOf, get_fieldName, ht, hmode, specTags, specMatchMode]
  simp only [nodeFields, hp, canonicalParamsBlobFromValue, specJson, bind_assoc, pure_bind]
  rfl

lemma intOr_int (n : ℤ) : intOr B (.int n) = .ok n := by
  by_cases hn : n = 0
  · subst hn
    rfl
  · have ht : (Value.int n).truthy := by simpa [Value.truthy] using hn
    rw [intOr, Value.or, if_pos ht]
    rfl

lemma normalizeSchemaCompatId_again {value fallback : Value} {sc : String}
    (h : normalizeSchemaCompatId B value fallback = .ok sc) :
    normalizeSchemaCompatId B (.str sc) fallback = .ok sc := by
  have htext : ∀ t : String, textOr B (.str t) = t := by
    intro t
    by_cases ht : t = ""
    · subst ht
      rfl
    · have : (Value.str t).truthy := by simpa [Value.truthy] using ht
      rw [textOr, Value.or, if_pos this]
      rfl
  unfold normalizeSchemaCompatId at h ⊢
  dsimp only at h
  simp only [htext]
  split at h
  · rename_i hn
    cases h
    rw [if_pos hn, strip_strip]
  · rename_i hn
    rw [if_neg hn]
    split at h
    · cases h
    · rename_i hcla
      cases h
      by_cases hc : strip (textOr B value) = ""
      · rw [if_pos hc, strip_strip, if_neg fun hcl => hcl.2.2 rfl, ite_self]
      · rw [if_neg hc, strip_strip, if_neg hcla, if_neg hc]

lemma roundTrip_eq {i period : ℤ} {ds : List String} {sc : String}
    (hi : intOr B (p.get "interval") = .ok i) (hp : intOr B (p.get "period") = .ok period)
    (hs : normalizeSchemaCompatId B (p.get "schema_compat_id") (p.get "schema_id") = .ok sc) :
    nodeFields B (.mapping (specOf B p i period ds sc).toPayload) = (do
      let es ← normalizeDependencies B ((p.get "inputs").or (.list (ds.map .str)))
      let j ← roundTripJson B p i
      return ⟨textOr B (p.get "node_type"), i, period, dumpsSorted j, es, sc, textOr B (p.get "code_hash")⟩) := by
  have hex : ∀ k ∉ reservedExtraKeys, (specOf B p i period ds sc).toPayload.get k = p.get k := by
    intro k hk
    rw [Payload.get, get?_toPayload_extra _ _ _ _ hk, Payload.get]
  have hb : ∀ k, k ≠ "params" → k ≠ "config" → k ∈ reservedExtraKeys →
      (specOf B p i period ds sc).toPayload.get? k = (baseOf B p i period ds sc).get? k :=
    fun k h1 h2 h3 => get?_toPayload_base i period ds sc h1 h2 h3
  have hget : ∀ (k : String) (v : Value), k ≠ "params" → k ≠ "config" → k ∈ reservedExtraKeys →
      (baseOf B p i period ds sc).get? k = some v → (specOf B p i period ds sc).toPayload.get k = v := by
    intro k v h1 h2 h3 hv
    rw [Payload.get, hb k h1 h2 h3, hv, Option.getD_some]
  have hnum : ∀ (k : String) (n : ℤ), intOr B (p.get k) = .ok n →
      intOr B (if (p.get? k).isSome then p.get k else .int n) = .ok n := by
    intro k n hn
    split
    · exact hn
    · exact intOr_int n
  have hin := hget "interval" _ (by decide) (by decide) (by decide) (get?_baseOf ..)
  have hpr := hget "period" _ (by decide) (by decide) (by decide) (get?_baseOf ..)
  have hd := hget "dependencies" _ (by decide) (by decide) (by decide) (get?_baseOf ..)
  have hsc := hget "schema_compat_id" _ (by decide) (by decide) (by decide) (get?_baseOf ..)
  have ht : textField B (specOf B p i period ds sc).toPayload "node_type" = textOr B (p.get "node_type") := by
    rw [textField, hb _ (by decide) (by decide) (by decide), get?_baseOf]
    rfl
  have hh : textField B (specOf B p i period ds sc).toPayload "code_hash" = textOr B (p.get "code_hash") := by
    rw [textField, hb _ (by decide) (by decide) (by decide), get?_baseOf]
    rfl
  have hpa : paramsOfNode B (specOf B p i period ds sc).toPayload = roundTripValue B p i := by
    have hp' : (specOf B p i period ds sc).toPayload.get "params" = p.get "params" := by
      rw [Payload.get, get?_toPayload_params, Payload.get]
    unfold paramsOfNode roundTripValue canonicalTagQueryParamsFromNode
    rw [ht, paramsSource_toPayload, hp', hin, hex "tags" (by decide), hex "match_mode" (by decide)]
    rfl
  have hdep : sortedDeps B (specOf B p i period ds sc).toPayload =
      normalizeDependencies B ((p.get "inputs").or (.list (ds.map .str))) := by
    unfold sortedDeps
    rw [hex "inputs" (by decide), hd]
    cases ds <;> rfl
  rw [mapping_eq, hin, hnum _ _ hi, hpr, hnum _ _ hp, hdep, hsc, hex "schema_id" (by decide),
    normalizeSchemaCompatId_again hs, ht, hh]
  simp only [mappingJson, hpa]
  rfl

end Qmtl.Foundation.NodeSpecPaths

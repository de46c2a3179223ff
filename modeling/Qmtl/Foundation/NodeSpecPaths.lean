import Qmtl.Foundation.NodeSpecFields

/-! The three ways to the text of a node id: from the payload itself, from the `CanonicalNodeSpec` built of
it, and from the payload that spec writes. -/

namespace Qmtl.Foundation.NodeSpecPaths

open Lib Foundation

variable (B : Builtins) (p : Payload)

def viaSpec : Except Raised ByteArray := do serializeNodespec B (.spec (← CanonicalNodeSpec.fromPayload B p))

def viaRoundTrip : Except Raised ByteArray := do
  serializeNodespec B (.mapping (← CanonicalNodeSpec.fromPayload B p).toPayload)

/-- The three ways give the same bytes, or all raise. -/
def Agree : Prop :=
  (∃ bytes, serializeNodespec B (.mapping p) = .ok bytes ∧ viaSpec B p = .ok bytes ∧
    viaRoundTrip B p = .ok bytes) ∨
  ((∃ e, serializeNodespec B (.mapping p) = .error e) ∧ (∃ e, viaSpec B p = .error e) ∧
    ∃ e, viaRoundTrip B p = .error e)

/-! ### Where the rules find the same -/

def Fails {α : Type} : Except Raised α → Prop
  | .ok _ => False
  | .error _ => True

def Plain : Option Value → Prop
  | none => True
  | some v => v.truthy = true ∨ v = .str ""

def IsTagQuery : Prop := textField B p "node_type" = "TagQueryNode"

def Refused : Prop :=
  Fails (intOr B (p.get "interval")) ∨ Fails (intOr B (p.get "period")) ∨
    Fails (normalizeSchemaCompatId B (p.get "schema_compat_id") (p.get "schema_id"))

def MappingParamsFail : Prop :=
  (IsTagQuery B p → Fails (splitTags B (mappingTags p)) ∨ Fails (normalizeMatchMode B (mappingMatchMode p))) ∧
    (¬ IsTagQuery B p → Fails (canonicalizeParams B (paramsSourceFromNode p)))

def SpecParamsFail : Prop :=
  (IsTagQuery B p → Fails (splitTags B (specTags p)) ∨ Fails (normalizeMatchMode B (specMatchMode p))) ∧
    (¬ IsTagQuery B p → Fails (canonicalizeParams B (specParams p)))

def RoundTripParamsFail : Prop :=
  (IsTagQuery B p → Fails (splitTags B (mappingTags p)) ∨ Fails (normalizeMatchMode B (mappingMatchMode p))) ∧
    (¬ IsTagQuery B p → Fails (canonicalizeParams B (specParams p)))

def MappingRaises : Prop := Refused B p ∨ Fails (sortedDeps B p) ∨ MappingParamsFail B p

def SpecRaises : Prop := Refused B p ∨ Fails (normalizeDependencies B (specDeps p)) ∨ SpecParamsFail B p

def RoundTripRaises : Prop :=
  Refused B p ∨ Fails (normalizeDependencies B (specDeps p)) ∨
    Fails (normalizeDependencies B (p.get "inputs")) ∨ RoundTripParamsFail B p

def SameDeps (v w : Value) : Prop :=
  ∃ ds es, normalizeDependencies B v = .ok ds ∧ normalizeDependencies B w = .ok es ∧ join "," ds = join "," es

structure TagQueryMeets : Prop where
  interval : (p.get "interval").truthy = true ∨
    (orElse (p.get "interval") (intervalOf (p.get "params"))).toInt B = .ok 0
  tags : ∃ ts us, splitTags B (mappingTags p) = .ok ts ∧ splitTags B (specTags p) = .ok us ∧
    sortedSet ts = sortedSet us
  mode : normalizeMatchMode B (mappingMatchMode p) = normalizeMatchMode B (specMatchMode p)

/-- The fields leave the three ways no choice. -/
structure Meets : Prop where
  nodeType : Plain (p.get? "node_type")
  codeHash : Plain (p.get? "code_hash")
  deps : (p.get "inputs").truthy = false ∨ (p.get "dependencies").isNone = true ∨
    SameDeps B (p.get "inputs") (p.get "dependencies")
  tagQuery : IsTagQuery B p → TagQueryMeets B p
  params : ¬ IsTagQuery B p → ¬ (p.get? "params" = some .none ∧ (p.get "config").isNone = false)

section

variable {α β : Type} {x : Except Raised α}

lemma fails_iff : Fails x ↔ ∃ e, x = .error e := by
  cases x <;> simp [Fails]

lemma not_fails_iff : ¬ Fails x ↔ ∃ a, x = .ok a := by
  cases x <;> simp [Fails]

lemma fails_bind {f : α → Except Raised β} : Fails (x >>= f) ↔ Fails x ∨ ∃ a, x = .ok a ∧ Fails (f a) := by
  cases x <;> simp [Fails, bind, Except.bind]

end

variable {B p}

/-! ### Comparing the ways -/

def Edged (t : String) : Prop :=
  t.toList.head?.any (· ≠ '|') = true ∧ t.toList.getLast?.any (· ≠ '|') = true

lemma textField_cases (B : Builtins) (p : Payload) (key : String) :
    (Plain (p.get? key) ∧ textField B p key = textOr B (p.get key)) ∨
      (¬ Plain (p.get? key) ∧ textOr B (p.get key) = "" ∧ textField B p key ∈ Value.falseTexts) := by
  unfold textField Payload.get
  cases hv : p.get? key with
  | none => exact .inl ⟨trivial, rfl⟩
  | some v =>
    by_cases ht : v.truthy
    · left
      refine ⟨.inl ht, ?_⟩
      rw [Option.getD_some, textOr, Value.or, if_pos ht]
    · have ht : v.truthy = false := by simpa using ht
      have hor : textOr B v = "" := by
        rw [textOr, Value.or, if_neg (by rw [ht]; exact Bool.false_ne_true)]
        rfl
      by_cases hs : v = .str ""
      · left
        subst hs
        exact ⟨.inr rfl, rfl⟩
      · right
        refine ⟨?_, hor, (Value.toStr_of_not_truthy ht).resolve_left hs⟩
        rintro (h | h)
        · rw [ht] at h
          cases h
        · exact hs h

lemma edged_of_mem {t : String} (h : t ∈ Value.falseTexts) : Edged t := by
  have hall : Value.falseTexts.all fun t =>
      t.toList.head?.any (· ≠ '|') && t.toList.getLast?.any (· ≠ '|') := by decide
  simpa [Edged] using List.all_eq_true.mp hall t h

lemma textField_eq_iff {key : String} : textField B p key = textOr B (p.get key) ↔ Plain (p.get? key) := by
  rcases textField_cases B p key with ⟨h1, h2⟩ | ⟨h1, h2, h3⟩
  · exact iff_of_true h2 h1
  · refine iff_of_false ?_ h1
    intro h
    rw [h, h2] at h3
    exact absurd h3 (by decide)

lemma isTagQuery_iff : IsTagQuery B p ↔ textOr B (p.get "node_type") = "TagQueryNode" := by
  unfold IsTagQuery
  rcases textField_cases B p "node_type" with ⟨-, h⟩ | ⟨-, h2, h3⟩
  · rw [h]
  · refine iff_of_false ?_ (by rw [h2]; decide)
    intro htag
    rw [htag] at h3
    exact absurd h3 (by decide)

/-- Two ways that share interval, period and schema id give the same bytes when they share the rest. -/
theorem encode_eq_iff_of (i period : ℤ) (sc : String) (ds ds' : List String) {nt nt' ch ch' : String} {j j' : Json}
    (hj : j.Tidy) (hj' : j'.Tidy) (hn : nt = nt' ∨ nt' = "" ∧ Edged nt) (hc : ch = ch' ∨ ch' = "" ∧ Edged ch) :
    NodeFields.encode ⟨nt, i, period, dumpsSorted j, ds, sc, ch⟩ =
        NodeFields.encode ⟨nt', i, period, dumpsSorted j', ds', sc, ch'⟩ ↔
      nt = nt' ∧ ch = ch' ∧ join "," ds = join "," ds' ∧ j = j' := by
  rw [NodeFields.encode_eq_iff]
  constructor
  · intro h
    simp only [NodeFields.chars] at h
    have hnt : nt = nt' := by
      rcases hn with rfl | ⟨rfl, hh, -⟩
      · rfl
      · obtain ⟨c, hc, hcb⟩ := (Option.any_eq_true _ _).mp hh
        obtain ⟨x, hx⟩ := List.head?_eq_some_iff.mp hc
        rw [hx] at h
        exact absurd (List.cons.inj h).1 (by simpa using hcb)
    subst hnt
    have hch : ch = ch' := by
      rcases hc with rfl | ⟨rfl, -, hl⟩
      · rfl
      · -- one text ends with a bar, the other does not
        obtain ⟨d, hd, hdb⟩ := (Option.any_eq_true _ _).mp hl
        have heq := congrArg List.getLast? h
        simp only [List.getLast?_append, List.getLast?_cons, hd, String.toList_empty, List.getLast?_nil] at heq
        exact absurd (Option.some.inj heq) (by simpa using hdb)
    subst hch
    have h1 := (List.cons.inj (List.append_cancel_left h)).2
    have h2 := (List.cons.inj (List.append_cancel_left h1)).2
    have h3 := (List.cons.inj (List.append_cancel_left h2)).2
    obtain ⟨rfl, h4⟩ := dumpsSorted_inj hj hj' h3
    exact ⟨rfl, rfl, String.toList_injective (List.append_cancel_right h4), rfl⟩
  · rintro ⟨rfl, rfl, hds, rfl⟩
    simp [NodeFields.chars, hds]

/-! ### The parameters of the three ways -/

section Params

variable {i : ℤ}

lemma mappingJson_tag (h : IsTagQuery B p) : mappingJson B p = (do
    let ts ← splitTags B (mappingTags p)
    let mode ← normalizeMatchMode B (mappingMatchMode p)
    return tagJson (sortedSet ts) mode
      (readInterval B (orElse (p.get "interval") (intervalOf (p.get "params"))))) := by
  unfold mappingJson paramsOfNode
  unfold IsTagQuery at h
  rw [if_pos h]
  exact canonicalize_tagQuery _ _ _

lemma mappingJson_plain (h : ¬ IsTagQuery B p) :
    mappingJson B p = canonicalizeParams B (paramsSourceFromNode p) := by
  unfold mappingJson paramsOfNode
  unfold IsTagQuery at h
  rw [if_neg h]
  rfl

lemma specJson_tag (h : IsTagQuery B p) : specJson B p i = (do
    let ts ← splitTags B (specTags p)
    let mode ← normalizeMatchMode B (specMatchMode p)
    return tagJson (sortedSet ts) mode (some i)) := by
  unfold specJson specValue
  rw [if_pos (isTagQuery_iff.mp h)]
  exact canonicalize_tagQuery _ _ _

lemma specJson_plain (h : ¬ IsTagQuery B p) : specJson B p i = canonicalizeParams B (specParams p) := by
  unfold specJson specValue
  rw [if_neg fun h' => h (isTagQuery_iff.mpr h')]
  rfl

lemma roundTripJson_tag (h : IsTagQuery B p) : roundTripJson B p i = (do
    let ts ← splitTags B (mappingTags p)
    let mode ← normalizeMatchMode B (mappingMatchMode p)
    return tagJson (sortedSet ts) mode (readInterval B (roundTripInterval p i))) := by
  unfold roundTripJson roundTripValue
  rw [if_pos (isTagQuery_iff.mp h)]
  exact canonicalize_tagQuery _ _ _

lemma roundTripJson_plain (h : ¬ IsTagQuery B p) : roundTripJson B p i = canonicalizeParams B (specParams p) := by
  unfold roundTripJson roundTripValue
  rw [if_neg fun h' => h (isTagQuery_iff.mpr h')]
  rfl

lemma fails_tag {x : Except Raised (List String)} {y : Except Raised MatchMode} {n : Option ℤ} :
    Fails (do
      let ts ← x
      let mode ← y
      return tagJson (sortedSet ts) mode n : Except Raised Json) ↔ Fails x ∨ Fails y := by
  cases x <;> cases y <;> simp [Fails, bind, Except.bind, pure, Except.pure]

lemma fails_mappingJson : Fails (mappingJson B p) ↔ MappingParamsFail B p := by
  unfold MappingParamsFail
  by_cases h : IsTagQuery B p
  · rw [mappingJson_tag h, fails_tag]
    simp [h]
  · rw [mappingJson_plain h]
    simp [h]

lemma fails_specJson : Fails (specJson B p i) ↔ SpecParamsFail B p := by
  unfold SpecParamsFail
  by_cases h : IsTagQuery B p
  · rw [specJson_tag h, fails_tag]
    simp [h]
  · rw [specJson_plain h]
    simp [h]

lemma fails_roundTripJson : Fails (roundTripJson B p i) ↔ RoundTripParamsFail B p := by
  unfold RoundTripParamsFail
  by_cases h : IsTagQuery B p
  · rw [roundTripJson_tag h, fails_tag]
    simp [h]
  · rw [roundTripJson_plain h]
    simp [h]

lemma tidy_of_bind {x : Except Raised Value} {j : Json} (h : (x >>= canonicalizeParams B) = .ok j) : j.Tidy := by
  obtain ⟨v, -, hv⟩ := bind_ok.mp h
  exact canonicalizeParams_tidy hv

lemma canonicalize_null {v : Value} (h : canonicalizeParams B v = .ok .null) : v = .none := by
  cases v with
  | none => rfl
  | dict items =>
    obtain ⟨a, -, h⟩ := bind_ok.mp (by rw [canonicalizeParams] at h; exact h)
    cases h
  | set items =>
    obtain ⟨a, -, h⟩ := bind_ok.mp (by rw [canonicalizeParams] at h; exact h)
    cases h
  | list items =>
    obtain ⟨a, -, h⟩ := bind_ok.mp (by rw [canonicalizeParams] at h; exact h)
    cases h
  | bytes data =>
    obtain ⟨a, -, h⟩ := bind_ok.mp (by rw [canonicalizeParams] at h; exact h)
    cases h
  | bool b => cases h
  | int n => cases h
  | float x => cases h
  | str t => cases h

lemma params_eq_iff {j₁ j₂ : Json} (h₁ : canonicalizeParams B (paramsSourceFromNode p) = .ok j₁)
    (h₂ : canonicalizeParams B (specParams p) = .ok j₂) :
    j₁ = j₂ ↔ ¬ (p.get? "params" = some .none ∧ (p.get "config").isNone = false) := by
  have hs : paramsSourceFromNode p = specParams p → j₁ = j₂ := by
    intro h
    rw [h, h₂] at h₁
    exact (Except.ok.inj h₁).symm
  unfold paramsSourceFromNode specParams Payload.get at *
  cases hp : p.get? "params" with
  | none =>
    rw [hp] at hs
    exact iff_of_true (hs rfl) (by simp)
  | some v =>
    by_cases hv : v = .none
    · subst hv
      rw [hp] at h₁ h₂ hs
      cases hc : ((p.get? "config").getD .none).isNone with
      | true =>
        refine iff_of_true (hs ?_) (by simp)
        generalize (p.get? "config").getD .none = c at hc
        cases c <;> first | rfl | cases hc
      | false =>
        refine iff_of_false ?_ (by simp)
        rintro rfl
        obtain rfl : j₁ = .null := (Except.ok.inj h₂).symm
        have hn : (p.get? "config").getD .none = .none := canonicalize_null h₁
        rw [hn] at hc
        cases hc
    · rw [hp] at hs
      refine iff_of_true (hs ?_) (by simp [hv])
      cases v <;> first | rfl | exact absurd rfl hv

end Params

/-! ### The dependencies of the three ways -/

lemma normalizeDependencies_false {v : Value} (h : v.truthy = false) : normalizeDependencies B v = .ok [] := by
  unfold normalizeDependencies
  rw [if_neg (by rw [h]; exact Bool.false_ne_true)]

variable {ds : List String}

lemma normalizeDependencies_again {v : Value} (h : normalizeDependencies B v = .ok ds) :
    normalizeDependencies B (.list (ds.map .str)) = .ok ds := by
  have hds := normalizeDependencies_sorted h
  have hk : (ds.map Value.str).filterMap (dependencyId B) = ds := by
    rw [List.filterMap_map]
    conv_rhs => rw [← List.filterMap_some (l := ds)]
    refine List.filterMap_congr fun d hd => ?_
    show (if d = "" then none else some d) = some d
    rw [if_neg (hds.1 d hd)]
  unfold normalizeDependencies
  split
  · show Except.ok (((ds.map Value.str).filterMap (dependencyId B)).insertionSort (· ≤ ·)) = .ok ds
    rw [hk, hds.2.insertionSort_eq]
  · rename_i ht
    have : ds = [] := by simpa [Value.truthy] using ht
    rw [this]

lemma roundTripDeps_eq (hd : normalizeDependencies B (specDeps p) = .ok ds) :
    normalizeDependencies B ((p.get "inputs").or (.list (ds.map .str))) =
      if (p.get "inputs").truthy then normalizeDependencies B (p.get "inputs") else .ok ds := by
  unfold Value.or
  split
  · rfl
  · exact normalizeDependencies_again hd

lemma fails_roundTripDeps (hd : normalizeDependencies B (specDeps p) = .ok ds) :
    Fails (normalizeDependencies B ((p.get "inputs").or (.list (ds.map .str)))) ↔
      Fails (normalizeDependencies B (p.get "inputs")) := by
  rw [roundTripDeps_eq hd]
  split
  · exact Iff.rfl
  · rename_i h
    rw [normalizeDependencies_false (by simpa using h)]
    exact Iff.rfl

lemma sortedDeps_eq : sortedDeps B p = if (p.get "inputs").truthy then normalizeDependencies B (p.get "inputs")
    else normalizeDependencies B (p.get "dependencies") := by
  unfold sortedDeps Value.or
  by_cases hi : (p.get "inputs").truthy
  · rw [if_pos hi, if_pos hi]
  · rw [if_neg hi, if_neg hi]
    split
    · rfl
    · rename_i hd
      rw [normalizeDependencies_false (v := .list []) rfl, normalizeDependencies_false (by simpa using hd)]

lemma specDeps_none (h : (p.get "dependencies").isNone) : specDeps p = p.get "inputs" := by
  rw [specDeps, orElse, if_pos h]

lemma specDeps_some (h : (p.get "dependencies").isNone = false) : specDeps p = p.get "dependencies" := by
  rw [specDeps, orElse, if_neg (by rw [h]; exact Bool.false_ne_true)]

lemma deps_eq_iff {d₁ d₂ d₃ : List String} (h₁ : sortedDeps B p = .ok d₁)
    (h₂ : normalizeDependencies B (specDeps p) = .ok d₂)
    (h₃ : normalizeDependencies B ((p.get "inputs").or (.list (d₂.map .str))) = .ok d₃) :
    (join "," d₁ = join "," d₂ ∧ join "," d₃ = join "," d₂) ↔
      (p.get "inputs").truthy = false ∨ (p.get "dependencies").isNone ∨
        SameDeps B (p.get "inputs") (p.get "dependencies") := by
  rw [sortedDeps_eq] at h₁
  rw [roundTripDeps_eq h₂] at h₃
  cases hi : (p.get "inputs").truthy with
  | false =>
    rw [hi] at h₁ h₃
    cases h₃
    refine iff_of_true ⟨?_, rfl⟩ (.inl rfl)
    -- without inputs both take the dependencies
    have hs : normalizeDependencies B (specDeps p) = normalizeDependencies B (p.get "dependencies") := by
      cases hd : (p.get "dependencies").isNone with
      | false => rw [specDeps_some hd]
      | true =>
        rw [specDeps_none hd, normalizeDependencies_false hi, normalizeDependencies_false]
        generalize p.get "dependencies" = v at hd
        cases v <;> first | rfl | cases hd
    rw [← hs, h₂] at h₁
    rw [Except.ok.inj h₁]
  | true =>
    rw [hi] at h₁ h₃
    have h13 : d₃ = d₁ := Except.ok.inj (h₃.symm.trans h₁)
    subst h13
    rw [and_self]
    cases hd : (p.get "dependencies").isNone with
    | true =>
      rw [specDeps_none hd] at h₂
      cases h₂.symm.trans h₁
      exact iff_of_true rfl (.inr (.inl rfl))
    | false =>
      rw [specDeps_some hd] at h₂
      constructor
      · intro h
        exact .inr (.inr ⟨d₃, d₂, h₁, h₂, h⟩)
      · rintro (h | h | ⟨ds, es, hds, hes, h⟩)
        · cases h
        · cases h
        · cases hds.symm.trans h₁
          cases hes.symm.trans h₂
          exact h

lemma fails_serialize {node : NodeSource} :
    (∃ e, serializeNodespec B node = .error e) ↔ Fails (nodeFields B node) := by
  rw [← fails_iff, serializeNodespec, fails_bind]
  simp [Fails, pure, Except.pure]

lemma mapping_raises : (∃ e, serializeNodespec B (.mapping p) = .error e) ↔ MappingRaises B p := by
  rw [fails_serialize, mapping_eq]
  unfold MappingRaises Refused
  rw [← fails_mappingJson]
  cases intOr B (p.get "interval") <;> cases intOr B (p.get "period") <;> cases sortedDeps B p <;>
    cases normalizeSchemaCompatId B (p.get "schema_compat_id") (p.get "schema_id") <;>
    cases mappingJson B p <;> simp [Fails, bind, Except.bind, pure, Except.pure]

lemma spec_raises : (∃ e, viaSpec B p = .error e) ↔ SpecRaises B p := by
  have hf : Fails (viaSpec B p) ↔ Refused B p ∨ Fails (normalizeDependencies B (specDeps p)) ∨
      Fails (specJson B p ((intOr B (p.get "interval")).toOption.getD 0)) := by
    unfold viaSpec Refused
    rw [fromPayload_eq]
    cases hi : intOr B (p.get "interval") with
    | error e => simp [Fails, bind, Except.bind]
    | ok i =>
      cases hp : intOr B (p.get "period") with
      | error e => simp [Fails, bind, Except.bind]
      | ok period =>
        cases hd : normalizeDependencies B (specDeps p) with
        | error e => simp [Fails, bind, Except.bind]
        | ok ds =>
          cases hs : normalizeSchemaCompatId B (p.get "schema_compat_id") (p.get "schema_id") with
          | error e => simp [Fails, bind, Except.bind]
          | ok sc =>
            have hser : Fails (serializeNodespec B (.spec (specOf B p i period ds sc))) ↔
                Fails (specJson B p i) := by
              rw [fails_iff, fails_serialize, spec_eq]
              cases specJson B p i <;> simp [Fails, bind, Except.bind, pure, Except.pure]
            simpa [Fails, bind, Except.bind, pure, Except.pure, Except.toOption] using hser
  rw [← fails_iff, hf, fails_specJson]
  rfl

lemma roundTrip_raises : (∃ e, viaRoundTrip B p = .error e) ↔ RoundTripRaises B p := by
  have hf : Fails (viaRoundTrip B p) ↔ Refused B p ∨ Fails (normalizeDependencies B (specDeps p)) ∨
      Fails (normalizeDependencies B (p.get "inputs")) ∨
      Fails (roundTripJson B p ((intOr B (p.get "interval")).toOption.getD 0)) := by
    unfold viaRoundTrip Refused
    rw [fromPayload_eq]
    cases hi : intOr B (p.get "interval") with
    | error e => simp [Fails, bind, Except.bind]
    | ok i =>
      cases hp : intOr B (p.get "period") with
      | error e => simp [Fails, bind, Except.bind]
      | ok period =>
        cases hd : normalizeDependencies B (specDeps p) with
        | error e => simp [Fails, bind, Except.bind]
        | ok ds =>
          cases hs : normalizeSchemaCompatId B (p.get "schema_compat_id") (p.get "schema_id") with
          | error e => simp [Fails, bind, Except.bind]
          | ok sc =>
            have hser : Fails (serializeNodespec B (.mapping (specOf B p i period ds sc).toPayload)) ↔
                Fails (normalizeDependencies B (p.get "inputs")) ∨ Fails (roundTripJson B p i) := by
              rw [fails_iff, fails_serialize, roundTrip_eq hi hp hs, ← fails_roundTripDeps hd]
              cases normalizeDependencies B ((p.get "inputs").or (.list (ds.map .str))) <;>
                cases roundTripJson B p i <;> simp [Fails, bind, Except.bind, pure, Except.pure]
            simpa [Fails, bind, Except.bind, pure, Except.pure, Except.toOption] using hser
  rw [← fails_iff, hf, fails_roundTripJson]
  rfl

/-! ### Agreement -/

lemma tag_ok {x : Except Raised (List String)} {y : Except Raised MatchMode} {n : Option ℤ} {j : Json}
    (h : (do
      let ts ← x
      let mode ← y
      return tagJson (sortedSet ts) mode n : Except Raised Json) = .ok j) :
    ∃ ts mode, x = .ok ts ∧ y = .ok mode ∧ j = tagJson (sortedSet ts) mode n := by
  obtain ⟨ts, hts, h⟩ := bind_ok.mp h
  obtain ⟨mode, hm, h⟩ := bind_ok.mp h
  exact ⟨ts, mode, hts, hm, (pure_ok.mp h).symm⟩

lemma readInterval_iff {i : ℤ} (hi : intOr B (p.get "interval") = .ok i) :
    (readInterval B (orElse (p.get "interval") (intervalOf (p.get "params"))) = some i ∧
        readInterval B (roundTripInterval p i) = some i) ↔ ((p.get "interval").truthy ∨
        (orElse (p.get "interval") (intervalOf (p.get "params"))).toInt B = .ok 0) := by
  have hr : ∀ {v : Value} {n : ℤ}, readInterval B v = some n ↔ v.toInt B = .ok n := by
    intro v n
    unfold readInterval
    cases v.toInt B <;> simp [Except.toOption]
  simp only [hr]
  by_cases ht : (p.get "interval").truthy
  · have hn : (p.get "interval").isNone = false := by
      generalize p.get "interval" = v at ht
      cases v <;> first | rfl | cases ht
    have hint : (p.get "interval").toInt B = .ok i := by
      rw [intOr, Value.or, if_pos ht] at hi
      exact hi
    have hset : (p.get? "interval").isSome := by
      rw [Payload.get] at hn
      cases hv : p.get? "interval" with
      | none =>
        rw [hv] at hn
        cases hn
      | some v => rfl
    refine iff_of_true ⟨?_, ?_⟩ (.inl ht)
    · rw [orElse, if_neg (by rw [hn]; exact Bool.false_ne_true)]
      exact hint
    · rw [roundTripInterval, if_pos hset, orElse, if_neg (by rw [hn]; exact Bool.false_ne_true)]
      exact hint
  · have hz : i = 0 := by
      rw [intOr, Value.or, if_neg ht] at hi
      exact (Except.ok.inj hi).symm
    subst hz
    rw [or_iff_right ht]
    constructor
    · exact fun h => h.1
    · intro h
      refine ⟨h, ?_⟩
      unfold roundTripInterval
      split
      · exact h
      · rfl

/-- The canonical parameters of the three ways are the same exactly where the fields leave no choice. -/
theorem json_eq_iff {i : ℤ} (hi : intOr B (p.get "interval") = .ok i) {j₁ j₂ j₃ : Json}
    (h₁ : mappingJson B p = .ok j₁) (h₂ : specJson B p i = .ok j₂) (h₃ : roundTripJson B p i = .ok j₃) :
    (j₁ = j₂ ∧ j₃ = j₂) ↔ (IsTagQuery B p → TagQueryMeets B p) ∧
      (¬ IsTagQuery B p → ¬ (p.get? "params" = some .none ∧ (p.get "config").isNone = false)) := by
  by_cases htag : IsTagQuery B p
  · rw [mappingJson_tag htag] at h₁
    rw [specJson_tag htag] at h₂
    rw [roundTripJson_tag htag] at h₃
    obtain ⟨ts, m, hts, hm, rfl⟩ := tag_ok h₁
    obtain ⟨us, n, hus, hn, rfl⟩ := tag_ok h₂
    obtain ⟨ts', m', hts', hm', rfl⟩ := tag_ok h₃
    cases hts'.symm.trans hts
    cases hm'.symm.trans hm
    simp only [htag, forall_const, not_true_eq_false, false_imp_iff, and_true]
    constructor
    · rintro ⟨h12, h32⟩
      obtain ⟨ht, hmode, hi1⟩ := tagJson_inj h12
      obtain ⟨-, -, hi3⟩ := tagJson_inj h32
      exact ⟨(readInterval_iff hi).mp ⟨hi1, hi3⟩, ⟨_, _, hts, hus, ht⟩, by rw [hm, hn, hmode]⟩
    · rintro ⟨hint, ⟨as, bs, has, hbs, hab⟩, hmode⟩
      cases has.symm.trans hts
      cases hbs.symm.trans hus
      rw [hm, hn] at hmode
      cases hmode
      obtain ⟨hi1, hi3⟩ := (readInterval_iff hi).mpr hint
      rw [hi1, hi3, hab]
      exact ⟨rfl, rfl⟩
  · rw [mappingJson_plain htag] at h₁
    rw [specJson_plain htag] at h₂
    rw [roundTripJson_plain htag] at h₃
    cases h₃.symm.trans h₂
    simp only [htag, false_imp_iff, not_false_eq_true, forall_const, true_and, and_true]
    exact params_eq_iff h₁ h₂

lemma same_iff (hm : ¬ MappingRaises B p) (hs : ¬ SpecRaises B p) (hr : ¬ RoundTripRaises B p) :
    (∃ bytes, serializeNodespec B (.mapping p) = .ok bytes ∧ viaSpec B p = .ok bytes ∧
      viaRoundTrip B p = .ok bytes) ↔ Meets B p := by
  simp only [MappingRaises, SpecRaises, RoundTripRaises, Refused, not_or] at hm hs hr
  obtain ⟨⟨hi, hp, hsc⟩, hd1, hj1⟩ := hm
  obtain ⟨-, hd2, hj2⟩ := hs
  obtain ⟨-, -, hd3, hj3⟩ := hr
  obtain ⟨i, hi⟩ := not_fails_iff.mp hi
  obtain ⟨period, hp⟩ := not_fails_iff.mp hp
  obtain ⟨sc, hsc⟩ := not_fails_iff.mp hsc
  obtain ⟨d₁, hd1⟩ := not_fails_iff.mp hd1
  obtain ⟨d₂, hd2⟩ := not_fails_iff.mp hd2
  obtain ⟨d₃, hd3⟩ := not_fails_iff.mp ((not_congr (fails_roundTripDeps hd2)).mpr hd3)
  obtain ⟨j₁, hj1⟩ := not_fails_iff.mp ((not_congr fails_mappingJson).mpr hj1)
  obtain ⟨j₂, hj2⟩ := not_fails_iff.mp ((not_congr (fails_specJson (i := i))).mpr hj2)
  obtain ⟨j₃, hj3⟩ := not_fails_iff.mp ((not_congr (fails_roundTripJson (i := i))).mpr hj3)
  have h1 : serializeNodespec B (.mapping p) = .ok (NodeFields.encode
      ⟨textField B p "node_type", i, period, dumpsSorted j₁, d₁, sc, textField B p "code_hash"⟩) := by
    rw [serializeNodespec, mapping_eq, hi, hp, hd1, hsc, hj1]
    rfl
  have hsp : CanonicalNodeSpec.fromPayload B p = .ok (specOf B p i period d₂ sc) := by
    rw [fromPayload_eq, hi, hp, hd2, hsc]
    rfl
  have h2 : viaSpec B p = .ok (NodeFields.encode
      ⟨textOr B (p.get "node_type"), i, period, dumpsSorted j₂, d₂, sc, textOr B (p.get "code_hash")⟩) := by
    show (CanonicalNodeSpec.fromPayload B p >>= fun s => serializeNodespec B (.spec s)) = _
    rw [hsp]
    show serializeNodespec B (.spec (specOf B p i period d₂ sc)) = _
    rw [serializeNodespec, spec_eq, hj2]
    rfl
  have h3 : viaRoundTrip B p = .ok (NodeFields.encode
      ⟨textOr B (p.get "node_type"), i, period, dumpsSorted j₃, d₃, sc, textOr B (p.get "code_hash")⟩) := by
    show (CanonicalNodeSpec.fromPayload B p >>= fun s => serializeNodespec B (.mapping s.toPayload)) = _
    rw [hsp]
    show serializeNodespec B (.mapping (specOf B p i period d₂ sc).toPayload) = _
    rw [serializeNodespec, roundTrip_eq hi hp hsc, hd3, hj3]
    rfl
  have htext : ∀ key, textField B p key = textOr B (p.get key) ∨
      textOr B (p.get key) = "" ∧ Edged (textField B p key) := by
    intro key
    rcases textField_cases B p key with ⟨-, h⟩ | ⟨-, h, hf⟩
    · exact .inl h
    · exact .inr ⟨h, edged_of_mem hf⟩
  have ht1 : j₁.Tidy := tidy_of_bind hj1
  have ht2 : j₂.Tidy := tidy_of_bind hj2
  have ht3 : j₃.Tidy := tidy_of_bind hj3
  have h12 := encode_eq_iff_of i period sc d₁ d₂ ht1 ht2
    (htext "node_type") (htext "code_hash")
  have h32 := encode_eq_iff_of i period sc d₃ d₂ ht3 ht2
    (.inl (rfl : textOr B (p.get "node_type") = _)) (.inl (rfl : textOr B (p.get "code_hash") = _))
  have hdp := deps_eq_iff hd1 hd2 hd3
  have hj := json_eq_iff hi hj1 hj2 hj3
  rw [h1, h2, h3]
  constructor
  · rintro ⟨bytes, hb1, hb2, hb3⟩
    cases hb1
    obtain ⟨hnt, hch, hd12, hj12⟩ := h12.mp (Except.ok.inj hb2).symm
    obtain ⟨-, -, hd32, hj32⟩ := h32.mp ((Except.ok.inj hb3).trans (Except.ok.inj hb2).symm)
    obtain ⟨htag, hplain⟩ := hj.mp ⟨hj12, hj32⟩
    exact ⟨textField_eq_iff.mp hnt, textField_eq_iff.mp hch, hdp.mp ⟨hd12, hd32⟩, htag, hplain⟩
  · rintro ⟨hnt, hch, hd, htag, hplain⟩
    obtain ⟨hd12, hd32⟩ := hdp.mpr hd
    obtain ⟨hj12, hj32⟩ := hj.mpr ⟨htag, hplain⟩
    have he12 := h12.mpr ⟨textField_eq_iff.mpr hnt, textField_eq_iff.mpr hch, hd12, hj12⟩
    have he32 := h32.mpr ⟨rfl, rfl, hd32, hj32⟩
    exact ⟨_, rfl, by rw [he12], by rw [he32, he12]⟩

/-- **When the three ways agree**: all of them raise, or none does and the fields leave no choice. -/
theorem paths_agree_iff (B : Builtins) (p : Payload) :
    Agree B p ↔ (MappingRaises B p ∧ SpecRaises B p ∧ RoundTripRaises B p) ∨
      (¬ MappingRaises B p ∧ ¬ SpecRaises B p ∧ ¬ RoundTripRaises B p ∧ Meets B p) := by
  unfold Agree
  rw [mapping_raises, spec_raises, roundTrip_raises]
  constructor
  · rintro (h | h)
    · have hne : ∀ {x : Except Raised ByteArray} {b : ByteArray}, x = .ok b → ¬ ∃ e, x = .error e := by
        rintro x b rfl ⟨e, he⟩
        cases he
      obtain ⟨bytes, h1, h2, h3⟩ := h
      have hm := (not_congr mapping_raises).mp (hne h1)
      have hs := (not_congr spec_raises).mp (hne h2)
      have hr := (not_congr roundTrip_raises).mp (hne h3)
      exact .inr ⟨hm, hs, hr, (same_iff hm hs hr).mp ⟨bytes, h1, h2, h3⟩⟩
    · exact .inl h
  · rintro (h | ⟨hm, hs, hr, h⟩)
    · exact .inr h
    · exact .inl ((same_iff hm hs hr).mpr h)

def nullCodeHash : Payload := ⟨[("node_type", .str "ProcessingNode"), ("code_hash", .none)], by decide⟩

/-- A null code hash is `None` in the mapping and empty in the spec. -/
theorem nullCodeHash_disagrees : ¬ ∀ p : Payload, Agree Builtins.ascii p := by
  intro hall
  have h1 : nodeFields Builtins.ascii (.mapping nullCodeHash) =
      .ok ⟨"ProcessingNode", 0, 0, "null", [], "", "None"⟩ := rfl
  have h2 : (CanonicalNodeSpec.fromPayload Builtins.ascii nullCodeHash >>= fun s =>
      nodeFields Builtins.ascii (.spec s)) = .ok ⟨"ProcessingNode", 0, 0, "null", [], "", ""⟩ := rfl
  have hs1 : serializeNodespec Builtins.ascii (.mapping nullCodeHash) =
      .ok (NodeFields.encode ⟨"ProcessingNode", 0, 0, "null", [], "", "None"⟩) := by
    rfl
  have hs2 : viaSpec Builtins.ascii nullCodeHash =
      .ok (NodeFields.encode ⟨"ProcessingNode", 0, 0, "null", [], "", ""⟩) := by
    have hassoc : viaSpec Builtins.ascii nullCodeHash = ((CanonicalNodeSpec.fromPayload Builtins.ascii nullCodeHash
        >>= fun s => nodeFields Builtins.ascii (.spec s)) >>= fun f => pure f.encode) := by
      rfl
    rfl
  rcases hall nullCodeHash with ⟨bytes, hb1, hb2, -⟩ | ⟨⟨e, he⟩, -⟩
  · rw [hs2] at hb2
    have heq := NodeFields.encode_eq_iff.mp ((Except.ok.inj hb1).trans (Except.ok.inj hb2).symm)
    exact absurd heq (by decide)
  · cases he

end Qmtl.Foundation.NodeSpecPaths

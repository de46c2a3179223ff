import Qmtl.Foundation.NodeSpecFields

/-! The text a node id is hashed from says what the node is: two payloads have the same text exactly when
they have the same canonical spec. -/

namespace Qmtl.Foundation.NodeIdentity

open Lib Foundation Foundation.NodeSpecPaths

variable {B : Builtins}

/-! ### The canonical spec -/

structure CanonicalSpec where
  nodeType : String
  interval : ℤ
  period : ℤ
  params : Json
  deps : List String
  schemaCompatId : String
  codeHash : String

def canonicalSpec (B : Builtins) (p : Payload) : Except Raised CanonicalSpec := do
  let interval ← intOr B (p.get "interval")
  let period ← intOr B (p.get "period")
  let deps ← sortedDeps B p
  let schemaCompatId ← normalizeSchemaCompatId B (p.get "schema_compat_id") (p.get "schema_id")
  let params ← mappingJson B p
  return ⟨textField B p "node_type", interval, period, params, deps, schemaCompatId, textField B p "code_hash"⟩

/-- The texts have no bar, the dependencies no comma either. -/
structure Separable (s : CanonicalSpec) : Prop where
  nodeType : '|' ∉ s.nodeType.toList
  schemaCompatId : '|' ∉ s.schemaCompatId.toList
  codeHash : '|' ∉ s.codeHash.toList
  deps : ∀ d ∈ s.deps, '|' ∉ d.toList ∧ ',' ∉ d.toList

def CanonicalSpec.fields (s : CanonicalSpec) : NodeFields :=
  ⟨s.nodeType, s.interval, s.period, dumpsSorted s.params, s.deps, s.schemaCompatId, s.codeHash⟩

lemma serialize_eq {p : Payload} {s : CanonicalSpec} (h : canonicalSpec B p = .ok s) :
    serializeNodespec B (.mapping p) = .ok s.fields.encode := by
  obtain ⟨interval, hi, h⟩ := bind_ok.mp h
  obtain ⟨period, hp, h⟩ := bind_ok.mp h
  obtain ⟨deps, hd, h⟩ := bind_ok.mp h
  obtain ⟨schema, hs, h⟩ := bind_ok.mp h
  obtain ⟨params, hj, h⟩ := bind_ok.mp h
  obtain rfl := pure_ok.mp h
  rw [serializeNodespec, mapping_eq, hi, hp, hd, hs, hj]
  rfl

lemma canonicalSpec_of_serialize {p : Payload} {bytes : ByteArray}
    (h : serializeNodespec B (.mapping p) = .ok bytes) : ∃ s, canonicalSpec B p = .ok s := by
  rw [serializeNodespec, mapping_eq] at h
  obtain ⟨f, hf, -⟩ := bind_ok.mp h
  obtain ⟨interval, hi, hf⟩ := bind_ok.mp hf
  obtain ⟨period, hp, hf⟩ := bind_ok.mp hf
  obtain ⟨deps, hd, hf⟩ := bind_ok.mp hf
  obtain ⟨schema, hs, hf⟩ := bind_ok.mp hf
  obtain ⟨params, hj, -⟩ := bind_ok.mp hf
  unfold canonicalSpec
  rw [hi, hp, hd, hs, hj]
  exact ⟨_, rfl⟩

lemma canonicalSpec_params {p : Payload} {s : CanonicalSpec} (h : canonicalSpec B p = .ok s) :
    s.params.Tidy ∧ ∀ d ∈ s.deps, d ≠ "" := by
  obtain ⟨interval, -, h⟩ := bind_ok.mp h
  obtain ⟨period, -, h⟩ := bind_ok.mp h
  obtain ⟨deps, hd, h⟩ := bind_ok.mp h
  obtain ⟨schema, -, h⟩ := bind_ok.mp h
  obtain ⟨params, hj, h⟩ := bind_ok.mp h
  obtain rfl := pure_ok.mp h
  obtain ⟨v, -, hv⟩ := bind_ok.mp hj
  exact ⟨canonicalizeParams_tidy hv, (normalizeDependencies_sorted hd).1⟩

lemma bar_notMem_toString (n : ℤ) : '|' ∉ (toString n).toList := by
  intro h
  rcases toString_int_char h with h | h <;> revert h <;> decide

lemma bar_notMem_join {ds : List String} (h : ∀ d ∈ ds, '|' ∉ d.toList) : '|' ∉ (join "," ds).toList := by
  induction ds with
  | nil => simp [join]
  | cons d ds ih =>
    have hd := h d (.head _)
    cases ds with
    | nil => exact hd
    | cons e ds =>
      have hr := ih fun d hd => h d (.tail _ hd)
      rw [join, String.toList_append, String.toList_append]
      simp only [List.mem_append, not_or]
      exact ⟨⟨hd, by decide⟩, hr⟩

lemma fields_inj {s t : CanonicalSpec} (hs : Separable s) (ht : Separable t)
    (hs' : s.params.Tidy ∧ ∀ d ∈ s.deps, d ≠ "") (ht' : t.params.Tidy ∧ ∀ d ∈ t.deps, d ≠ "")
    (h : s.fields.encode = t.fields.encode) : s = t := by
  have h := NodeFields.encode_eq_iff.mp h
  obtain ⟨hnt, h⟩ := cut_inj hs.nodeType ht.nodeType h
  obtain ⟨hi, h⟩ := cut_inj (bar_notMem_toString _) (bar_notMem_toString _) h
  obtain ⟨hp, h⟩ := cut_inj (bar_notMem_toString _) (bar_notMem_toString _) h
  obtain ⟨hj, h⟩ := dumpsSorted_inj hs'.1 ht'.1 h
  obtain ⟨hd, h⟩ := cut_inj (bar_notMem_join fun d hd => (hs.deps d hd).1)
    (bar_notMem_join fun d hd => (ht.deps d hd).1) h
  obtain ⟨hsc, hch⟩ := cut_inj hs.schemaCompatId ht.schemaCompatId h
  have hdp : s.deps = t.deps :=
    join_inj (c := ',') rfl (fun d hd => ⟨hs'.2 d hd, (hs.deps d hd).2⟩)
      (fun d hd => ⟨ht'.2 d hd, (ht.deps d hd).2⟩) (String.toList_injective hd)
  obtain ⟨a, b, c, d, e, f, g⟩ := s
  obtain ⟨a', b', c', d', e', f', g'⟩ := t
  simp only [CanonicalSpec.mk.injEq]
  exact ⟨String.toList_injective hnt, toString_int_injective (String.toList_injective hi),
    toString_int_injective (String.toList_injective hp), hj, hdp, String.toList_injective hsc,
    String.toList_injective hch⟩

/-! ### Parameters that are alike -/

def Excluded (B : Builtins) (key : Value) : Prop := isExcludedParamKey (B.lower.fn (key.toStr B)) = true

mutual

/-- Values that differ at any depth in the order of their keys and in keys that are left out. -/
inductive Alike (B : Builtins) : Value → Value → Prop
  | refl (v) : Alike B v v
  | list {vs ws} : AlikeItems B vs ws → Alike B (.list vs) (.list ws)
  | dict {es fs} : AlikeFields B es fs → Alike B (.dict es) (.dict fs)

inductive AlikeItems (B : Builtins) : List Value → List Value → Prop
  | nil : AlikeItems B [] []
  | cons {v w vs ws} : Alike B v w → AlikeItems B vs ws → AlikeItems B (v :: vs) (w :: ws)

inductive AlikeFields (B : Builtins) : List (Value × Value) → List (Value × Value) → Prop
  | nil : AlikeFields B [] []
  | cons {k v w es fs} : Alike B v w → AlikeFields B es fs → AlikeFields B ((k, v) :: es) ((k, w) :: fs)
  | drop {k v es fs} : Excluded B k → AlikeFields B es fs → AlikeFields B ((k, v) :: es) fs
  | add {k v es fs} : Excluded B k → AlikeFields B es fs → AlikeFields B es ((k, v) :: fs)
  | perm {es fs} : es.Perm fs → (es.map fun e => e.1.toStr B).Nodup → AlikeFields B es fs
  | trans {es fs gs} : AlikeFields B es fs → AlikeFields B fs gs → AlikeFields B es gs

end

def lastOf (items : List (String × Json)) (k : String) : Option Json :=
  ((items.filter fun e => e.1 = k).getLast?).map Prod.snd

lemma filter_orderedInsert (e : String × Json) (items : List (String × Json)) (k : String) :
    (items.orderedInsert (fun a b => a.1 ≤ b.1) e).filter (fun e => e.1 = k) =
      (e :: items).filter fun e => e.1 = k := by
  induction items with
  | nil => rfl
  | cons f items ih =>
    rw [List.orderedInsert_cons]
    split
    · rfl
    · rename_i hle
      rw [List.filter_cons, ih]
      by_cases he : e.1 = k
      · have hf : f.1 ≠ k := fun hf => hle ((he.trans hf.symm) ▸ String.le_refl e.1)
        simp [he, hf]
      · simp [List.filter_cons, he]

lemma filter_insertionSort (items : List (String × Json)) (k : String) :
    (items.insertionSort fun a b => a.1 ≤ b.1).filter (fun e => e.1 = k) = items.filter fun e => e.1 = k := by
  induction items with
  | nil => rfl
  | cons e items ih => rw [List.insertionSort_cons, filter_orderedInsert, List.filter_cons, List.filter_cons, ih]

lemma get?_update_last (d : Dict String Json) (items : List (String × Json)) (k : String) :
    (d.update items).get? k = (lastOf items k).orElse fun _ => d.get? k := by
  induction items generalizing d with
  | nil => rfl
  | cons e items ih =>
    show ((d.set e.1 e.2).update items).get? k = _
    rw [ih, Dict.get?_set, lastOf, lastOf, List.filter_cons]
    by_cases hk : e.1 = k
    · rw [if_pos hk.symm, if_pos (by simpa using hk), List.getLast?_cons]
      cases (items.filter fun e => e.1 = k).getLast? <;> rfl
    · rw [if_neg fun h => hk h.symm, if_neg (by simpa using hk)]

lemma mem_canonicalFields {items : List (String × Json)} {k : String} {v : Json} :
    (k, v) ∈ canonicalFields items ↔ lastOf items k = some v := by
  rw [canonicalFields, ← Dict.get?_eq_some, Dict.ofList, get?_update_last, lastOf, filter_insertionSort, ← lastOf,
    Dict.get?_empty]
  cases lastOf items k <;> simp

variable {r r' : List (String × Json)}

lemma canonicalFields_congr (h : ∀ k, lastOf r k = lastOf r' k) : canonicalFields r = canonicalFields r' := by
  have hkeys : ∀ items : List (String × Json), ((canonicalFields items).map Prod.fst).Nodup :=
    fun items => (Dict.ofList _).nodup
  have hp : (canonicalFields r).Perm (canonicalFields r') := by
    refine (List.perm_ext_iff_of_nodup (hkeys r).of_map (hkeys r').of_map).mpr ?_
    rintro ⟨k, v⟩
    rw [mem_canonicalFields, mem_canonicalFields, h]
  refine List.Perm.eq_of_pairwise ?_ (pairwise_canonicalFields r) (pairwise_canonicalFields r') hp
  intro a b ha hb hab hba
  have hk : a.1 = b.1 := String.le_antisymm hab hba
  have hb' : (a.1, b.2) ∈ canonicalFields r := by
    rw [hk]
    exact hp.mem_iff.mpr hb
  have h1 : lastOf r a.1 = some a.2 := mem_canonicalFields.mp ha
  have h2 : lastOf r a.1 = some b.2 := mem_canonicalFields.mp hb'
  rw [h1] at h2
  exact Prod.ext hk (Option.some.inj h2)

/-! ### What canonical parameters forget -/

variable {es : List (Value × Value)}

lemma canonicalizeMapping_cons {k v : Value} {r : List (String × Json)}
    (hk : ¬ Excluded B k) (h : canonicalizeMapping B ((k, v) :: es) = .ok r) :
    ∃ a as, canonicalizeParams B v = .ok a ∧ canonicalizeMapping B es = .ok as ∧ r = (k.toStr B, a) :: as := by
  unfold Excluded at hk
  rw [canonicalizeMapping, if_neg hk] at h
  obtain ⟨a, ha, h⟩ := bind_ok.mp h
  obtain ⟨as, has, h⟩ := bind_ok.mp h
  exact ⟨a, as, ha, has, (pure_ok.mp h).symm⟩

lemma canonicalizeMapping_cons_ok {k v : Value} {a : Json} {as : List (String × Json)}
    (hk : ¬ Excluded B k) (ha : canonicalizeParams B v = .ok a) (has : canonicalizeMapping B es = .ok as) :
    canonicalizeMapping B ((k, v) :: es) = .ok ((k.toStr B, a) :: as) := by
  unfold Excluded at hk
  rw [canonicalizeMapping, if_neg hk, ha, has]
  rfl

lemma canonicalizeMapping_excluded {k v : Value} (hk : Excluded B k) :
    canonicalizeMapping B ((k, v) :: es) = canonicalizeMapping B es := by
  unfold Excluded at hk
  rw [canonicalizeMapping, if_pos hk]

lemma canonicalizeMapping_names {r : List (String × Json)}
    (h : canonicalizeMapping B es = .ok r) : (r.map Prod.fst).Sublist (es.map fun e => e.1.toStr B) := by
  induction es generalizing r with
  | nil =>
    cases h
    exact List.Sublist.slnil
  | cons e es ih =>
    obtain ⟨k, v⟩ := e
    by_cases hk : Excluded B k
    · rw [canonicalizeMapping_excluded hk] at h
      exact (ih h).cons _
    · obtain ⟨a, as, -, has, rfl⟩ := canonicalizeMapping_cons hk h
      exact (ih has).cons_cons _

lemma canonicalizeMapping_perm {es fs : List (Value × Value)} (hp : es.Perm fs) :
    ∀ r, canonicalizeMapping B es = .ok r → ∃ r', canonicalizeMapping B fs = .ok r' ∧ r.Perm r' := by
  induction hp with
  | nil => exact fun r h => ⟨r, h, .refl r⟩
  | cons e _ ih =>
    intro r h
    obtain ⟨k, v⟩ := e
    by_cases hk : Excluded B k
    · rw [canonicalizeMapping_excluded hk] at h ⊢
      exact ih r h
    · obtain ⟨a, as, ha, has, rfl⟩ := canonicalizeMapping_cons hk h
      obtain ⟨bs, hbs, hp⟩ := ih as has
      exact ⟨_, canonicalizeMapping_cons_ok hk ha hbs, hp.cons _⟩
  | swap e f es =>
    intro r h
    obtain ⟨k, v⟩ := e
    obtain ⟨l, w⟩ := f
    by_cases hk : Excluded B k
    · by_cases hl : Excluded B l
      · rw [canonicalizeMapping_excluded hl, canonicalizeMapping_excluded hk] at h
        rw [canonicalizeMapping_excluded hk, canonicalizeMapping_excluded hl]
        exact ⟨r, h, .refl r⟩
      · obtain ⟨b, bs, hb, hbs, rfl⟩ := canonicalizeMapping_cons hl h
        rw [canonicalizeMapping_excluded hk] at hbs ⊢
        exact ⟨_, canonicalizeMapping_cons_ok hl hb hbs, .refl _⟩
    · by_cases hl : Excluded B l
      · rw [canonicalizeMapping_excluded hl] at h
        obtain ⟨a, as, ha, has, rfl⟩ := canonicalizeMapping_cons hk h
        refine ⟨_, canonicalizeMapping_cons_ok hk ha ?_, .refl _⟩
        rw [canonicalizeMapping_excluded hl]
        exact has
      · obtain ⟨b, bs, hb, hbs, rfl⟩ := canonicalizeMapping_cons hl h
        obtain ⟨a, as, ha, has, rfl⟩ := canonicalizeMapping_cons hk hbs
        exact ⟨_, canonicalizeMapping_cons_ok hk ha (canonicalizeMapping_cons_ok hl hb has), .swap ..⟩
  | trans _ _ ih₁ ih₂ =>
    intro r h
    obtain ⟨r₁, h₁, hp₁⟩ := ih₁ r h
    obtain ⟨r₂, h₂, hp₂⟩ := ih₂ r₁ h₁
    exact ⟨r₂, h₂, hp₁.trans hp₂⟩

/-- Among different names the order does not matter. -/
theorem lastOf_perm (hp : r.Perm r') (hn : (r.map Prod.fst).Nodup) (k : String) : lastOf r k = lastOf r' k := by
  have hlen : (r.filter fun e => e.1 = k).length ≤ 1 := by
    by_contra hgt
    have hsub : ((r.filter fun e => e.1 = k).map Prod.fst).Nodup :=
      hn.sublist (List.Sublist.map _ List.filter_sublist)
    match hf : r.filter fun e => e.1 = k with
    | [] => rw [hf] at hgt; simp at hgt
    | [_] => rw [hf] at hgt; simp at hgt
    | a :: b :: rest =>
      have ha : a.1 = k := by
        have := (List.mem_filter.mp (hf ▸ (.head _) : a ∈ r.filter fun e => e.1 = k)).2
        simpa using this
      have hb : b.1 = k := by
        have hmem : b ∈ r.filter fun e => e.1 = k := by rw [hf]; simp
        simpa using (List.mem_filter.mp hmem).2
      rw [hf] at hsub
      simp [ha, hb] at hsub
  have hfp := hp.filter fun e => decide (e.1 = k)
  unfold lastOf
  match hf : r.filter fun e => e.1 = k with
  | [] =>
    rw [hf] at hfp
    rw [hf, hfp.symm.eq_nil]
  | [a] =>
    rw [hf] at hfp
    rw [hf, ← List.singleton_perm.mp hfp]
  | a :: b :: rest =>
    rw [hf] at hlen
    simp at hlen

lemma lastOf_cons {e : String × Json} (h : ∀ k, lastOf r k = lastOf r' k) (k : String) :
    lastOf (e :: r) k = lastOf (e :: r') k := by
  have hf : ∀ r : List (String × Json), lastOf (e :: r) k =
      (lastOf r k).orElse fun _ => if e.1 = k then some e.2 else none := by
    intro r
    rw [lastOf, lastOf, List.filter_cons]
    by_cases hk : e.1 = k
    · rw [if_pos (by simpa using hk), if_pos hk, List.getLast?_cons]
      cases (r.filter fun e => e.1 = k).getLast? <;> rfl
    · rw [if_neg (by simpa using hk), if_neg hk]
      cases (r.filter fun e => e.1 = k).getLast? <;> rfl
  rw [hf, hf, h]

mutual

/-- **Canonical parameters forget** the order of the keys and the keys that are left out, at any depth. -/
theorem canonicalize_of_alike : ∀ {v w : Value}, Alike B v w → ∀ j, canonicalizeParams B v = .ok j →
    canonicalizeParams B w = .ok j
  | _, _, .refl _, _, h => h
  | .list _, .list _, .list hvs, j, h => by
    rw [canonicalizeParams] at h ⊢
    obtain ⟨js, hjs, h⟩ := bind_ok.mp h
    rw [canonicalizeItems_of_alike hvs js hjs]
    exact h
  | .dict _, .dict _, .dict hes, j, h => by
    rw [canonicalizeParams] at h ⊢
    obtain ⟨r, hr, h⟩ := bind_ok.mp h
    obtain ⟨r', hr', hs⟩ := canonicalizeMapping_of_alike hes r hr
    rw [hr']
    obtain rfl := pure_ok.mp h
    rw [canonicalFields_congr hs]
    rfl

theorem canonicalizeItems_of_alike : ∀ {vs ws : List Value}, AlikeItems B vs ws → ∀ js,
    canonicalizeItems B vs = .ok js → canonicalizeItems B ws = .ok js
  | _, _, .nil, _, h => h
  | _ :: _, _ :: _, .cons hv hvs, js, h => by
    rw [canonicalizeItems] at h ⊢
    obtain ⟨a, ha, h⟩ := bind_ok.mp h
    obtain ⟨as, has, h⟩ := bind_ok.mp h
    rw [canonicalize_of_alike hv a ha, canonicalizeItems_of_alike hvs as has]
    exact h

theorem canonicalizeMapping_of_alike : ∀ {es fs : List (Value × Value)}, AlikeFields B es fs → ∀ r,
    canonicalizeMapping B es = .ok r → ∃ r', canonicalizeMapping B fs = .ok r' ∧ ∀ k, lastOf r k = lastOf r' k
  | _, _, .nil, r, h => ⟨r, h, fun _ => rfl⟩
  | _, _, .cons (k := k) hv hes, r, h => by
    by_cases hk : Excluded B k
    · rw [canonicalizeMapping_excluded hk] at h ⊢
      exact canonicalizeMapping_of_alike hes r h
    · obtain ⟨a, as, ha, has, rfl⟩ := canonicalizeMapping_cons hk h
      obtain ⟨bs, hbs, hs⟩ := canonicalizeMapping_of_alike hes as has
      exact ⟨_, canonicalizeMapping_cons_ok hk (canonicalize_of_alike hv a ha) hbs, lastOf_cons hs⟩
  | _, _, .drop hk hes, r, h => by
    rw [canonicalizeMapping_excluded hk] at h
    exact canonicalizeMapping_of_alike hes r h
  | _, _, .add hk hes, r, h => by
    rw [canonicalizeMapping_excluded hk]
    exact canonicalizeMapping_of_alike hes r h
  | _, _, .perm hp hn, r, h => by
    obtain ⟨r', hr', hp'⟩ := canonicalizeMapping_perm hp r h
    exact ⟨r', hr', lastOf_perm hp' (hn.sublist (canonicalizeMapping_names h))⟩
  | _, _, .trans h₁ h₂, r, h => by
    obtain ⟨r₁, hr₁, hs₁⟩ := canonicalizeMapping_of_alike h₁ r h
    obtain ⟨r₂, hr₂, hs₂⟩ := canonicalizeMapping_of_alike h₂ r₁ hr₁
    exact ⟨r₂, hr₂, fun k => (hs₁ k).trans (hs₂ k)⟩

end

mutual

theorem Alike.symm : ∀ {v w : Value}, Alike B v w → Alike B w v
  | _, _, .refl v => .refl v
  | _, _, .list h => .list h.symm
  | _, _, .dict h => .dict h.symm

theorem AlikeItems.symm : ∀ {vs ws : List Value}, AlikeItems B vs ws → AlikeItems B ws vs
  | _, _, .nil => .nil
  | _, _, .cons h hs => .cons h.symm hs.symm

theorem AlikeFields.symm : ∀ {es fs : List (Value × Value)}, AlikeFields B es fs → AlikeFields B fs es
  | _, _, .nil => .nil
  | _, _, .cons h hs => .cons h.symm hs.symm
  | _, _, .drop hk hs => .add hk hs.symm
  | _, _, .add hk hs => .drop hk hs.symm
  | _, _, .perm hp hn => .perm hp.symm ((hp.map _).nodup_iff.mp hn)
  | _, _, .trans h₁ h₂ => .trans h₂.symm h₁.symm

end

/-! ### What they keep -/

mutual

/-- No key that is left out occurs at any depth. -/
def Pruned (B : Builtins) : Json → Prop
  | .arr items => PrunedItems B items
  | .obj fields => PrunedFields B fields
  | _ => True

def PrunedItems (B : Builtins) : List Json → Prop
  | [] => True
  | v :: vs => Pruned B v ∧ PrunedItems B vs

def PrunedFields (B : Builtins) : List (String × Json) → Prop
  | [] => True
  | (k, v) :: rest => isExcludedParamKey (B.lower.fn k) = false ∧ Pruned B v ∧ PrunedFields B rest

end

lemma prunedItems_iff {vs : List Json} : PrunedItems B vs ↔ ∀ v ∈ vs, Pruned B v := by
  induction vs with
  | nil => simp [PrunedItems]
  | cons v vs ih => rw [PrunedItems, ih, List.forall_mem_cons]

lemma prunedFields_iff {fs : List (String × Json)} :
    PrunedFields B fs ↔ ∀ f ∈ fs, isExcludedParamKey (B.lower.fn f.1) = false ∧ Pruned B f.2 := by
  induction fs with
  | nil => simp [PrunedFields]
  | cons f fs ih => rw [PrunedFields, ih, List.forall_mem_cons, and_assoc]

mutual

theorem canonicalize_pruned : ∀ {v : Value} {j : Json}, canonicalizeParams B v = .ok j → Pruned B j
  | .dict items, j, h => by
    obtain ⟨fields, hf, h⟩ := bind_ok.mp h
    obtain rfl := pure_ok.mp h
    exact prunedFields_iff.mpr fun f hmem => canonicalizeMapping_pruned hf f (mem_of_mem_canonicalFields hmem)
  | .set items, j, h => by
    obtain ⟨vs, hvs, h⟩ := bind_ok.mp h
    obtain rfl := pure_ok.mp h
    exact prunedItems_iff.mpr fun v hv => canonicalizeItems_pruned hvs v (List.mem_insertionSort _ |>.mp hv)
  | .list items, j, h => by
    obtain ⟨vs, hvs, h⟩ := bind_ok.mp h
    obtain rfl := pure_ok.mp h
    exact prunedItems_iff.mpr (canonicalizeItems_pruned hvs)
  | .bytes data, j, h => by
    obtain ⟨text, -, h⟩ := bind_ok.mp h
    obtain rfl := pure_ok.mp h
    trivial
  | .none, j, h => by obtain rfl := Except.ok.inj h; trivial
  | .bool b, j, h => by obtain rfl := Except.ok.inj h; trivial
  | .int n, j, h => by obtain rfl := Except.ok.inj h; trivial
  | .float x, j, h => by obtain rfl := Except.ok.inj h; trivial
  | .str s, j, h => by obtain rfl := Except.ok.inj h; trivial

theorem canonicalizeItems_pruned : ∀ {vs : List Value} {js : List Json}, canonicalizeItems B vs = .ok js →
    ∀ j ∈ js, Pruned B j
  | [], js, h, j, hj => by
    cases h
    cases hj
  | v :: vs, js, h, j, hj => by
    obtain ⟨a, ha, h⟩ := bind_ok.mp h
    obtain ⟨as, has, h⟩ := bind_ok.mp h
    obtain rfl := pure_ok.mp h
    rcases List.mem_cons.mp hj with rfl | hj
    · exact canonicalize_pruned ha
    · exact canonicalizeItems_pruned has j hj

theorem canonicalizeMapping_pruned : ∀ {items : List (Value × Value)} {fs : List (String × Json)},
    canonicalizeMapping B items = .ok fs →
    ∀ f ∈ fs, isExcludedParamKey (B.lower.fn f.1) = false ∧ Pruned B f.2
  | [], fs, h, f, hf => by
    cases h
    cases hf
  | (k, v) :: rest, fs, h, f, hf => by
    by_cases hk : Excluded B k
    · rw [canonicalizeMapping_excluded hk] at h
      exact canonicalizeMapping_pruned h f hf
    · obtain ⟨a, as, ha, has, rfl⟩ := canonicalizeMapping_cons hk h
      rcases List.mem_cons.mp hf with rfl | hf
      · exact ⟨by simpa [Excluded] using hk, canonicalize_pruned ha⟩
      · exact canonicalizeMapping_pruned has f hf

end

/-! ### Tags -/

lemma sortedSet_congr {ts us : List String} (h : ∀ t, t ∈ ts ↔ t ∈ us) : sortedSet ts = sortedSet us := by
  have hp : ts.dedup.Perm us.dedup := by
    refine (List.perm_ext_iff_of_nodup ts.nodup_dedup us.nodup_dedup).mpr fun t => ?_
    rw [List.mem_dedup, List.mem_dedup, h]
  refine List.Perm.eq_of_pairwise (fun a b _ _ hab hba => String.le_antisymm hab hba)
    (List.pairwise_insertionSort _ _) (List.pairwise_insertionSort _ _) ?_
  exact (List.perm_insertionSort _ _).trans (hp.trans (List.perm_insertionSort _ _).symm)

def tagInterval (p : Payload) : Value := orElse (p.get "interval") (intervalOf (p.get "params"))

/-- A payload of a tag query that names the same tags as another one, in any order and number. -/
structure SameQuery (B : Builtins) (p q : Payload) : Prop where
  left : textField B p "node_type" = "TagQueryNode"
  right : textField B q "node_type" = "TagQueryNode"
  interval : tagInterval p = tagInterval q
  matchMode : mappingMatchMode p = mappingMatchMode q
  tags : ∃ ts us, splitTags B (mappingTags p) = .ok ts ∧ splitTags B (mappingTags q) = .ok us ∧
    ∀ t, t ∈ ts ↔ t ∈ us

lemma mappingJson_of_sameQuery {p q : Payload} (h : SameQuery B p q) : mappingJson B p = mappingJson B q := by
  obtain ⟨ts, us, hts, hus, ht⟩ := h.tags
  have hf : ∀ r : Payload, textField B r "node_type" = "TagQueryNode" → mappingJson B r = (do
      let ts ← splitTags B (mappingTags r)
      let mode ← normalizeMatchMode B (mappingMatchMode r)
      return tagJson (sortedSet ts) mode (readInterval B (tagInterval r))) := by
    intro r hr
    unfold mappingJson paramsOfNode
    rw [if_pos hr]
    exact canonicalize_tagQuery _ _ _
  rw [hf p h.left, hf q h.right, hts, hus, h.matchMode, h.interval]
  show (normalizeMatchMode B (mappingMatchMode q) >>= fun mode => _) = _
  rw [sortedSet_congr ht]
  rfl

/-- **Canonical parameters keep all else**: those of two dictionaries are the same exactly if the last value under each
name that is kept has the same canonical form, and those of two lists exactly if the items have. -/
theorem canonicalizeParams_inj :
    (∀ es fs r r', canonicalizeMapping B es = .ok r → canonicalizeMapping B fs = .ok r' →
      (canonicalizeParams B (.dict es) = canonicalizeParams B (.dict fs) ↔ ∀ k, lastOf r k = lastOf r' k)) ∧
    ∀ vs ws js js', canonicalizeItems B vs = .ok js → canonicalizeItems B ws = .ok js' →
      (canonicalizeParams B (.list vs) = canonicalizeParams B (.list ws) ↔ js = js') := by
  refine ⟨fun es fs r r' hr hr' => ?_, fun vs ws js js' hjs hjs' => ?_⟩
  · rw [canonicalizeParams, canonicalizeParams, hr, hr']
    constructor
    · intro h k
      have hf : canonicalFields r = canonicalFields r' := Json.obj.inj (Except.ok.inj h)
      refine Option.ext fun v => ?_
      rw [← mem_canonicalFields, ← mem_canonicalFields, hf]
    · intro h
      exact congrArg (Except.ok ∘ Json.obj) (canonicalFields_congr h)
  · rw [canonicalizeParams, canonicalizeParams, hjs, hjs']
    exact ⟨fun h => Json.arr.inj (Except.ok.inj h), fun h => h ▸ rfl⟩
/-- **The text of a node id is its canonical spec.** Payloads whose texts have no separators have the
same bytes exactly when they have the same canonical spec; the parameters in it forget the order of the
keys and the keys left out at every depth, hold none of these, and forget the order and number of the
tags of a tag query. -/
theorem nodeId_preimage (B : Builtins) :
    (∀ p, (∃ bytes, serializeNodespec B (.mapping p) = .ok bytes) ↔ ∃ s, canonicalSpec B p = .ok s) ∧
    (∀ p q s t, canonicalSpec B p = .ok s → canonicalSpec B q = .ok t → Separable s → Separable t →
      (serializeNodespec B (.mapping p) = serializeNodespec B (.mapping q) ↔ s = t)) ∧
    (∀ v w j, Alike B v w → (canonicalizeParams B v = .ok j ↔ canonicalizeParams B w = .ok j)) ∧
    (∀ v j, canonicalizeParams B v = .ok j → Pruned B j) ∧
    (∀ p q, SameQuery B p q → mappingJson B p = mappingJson B q) := by
  refine ⟨?_, ?_, ?_, ?_, ?_⟩
  · intro p
    constructor
    · rintro ⟨bytes, h⟩
      exact canonicalSpec_of_serialize h
    · rintro ⟨s, h⟩
      exact ⟨_, serialize_eq h⟩
  · intro p q s t hp hq hs ht
    rw [serialize_eq hp, serialize_eq hq]
    constructor
    · intro h
      exact fields_inj hs ht (canonicalSpec_params hp) (canonicalSpec_params hq) (Except.ok.inj h)
    · rintro rfl
      rfl
  · intro v w j h
    exact ⟨canonicalize_of_alike h j, canonicalize_of_alike h.symm j⟩
  · exact fun v j => canonicalize_pruned
  · exact fun p q => mappingJson_of_sameQuery

def twoParams (swap : Bool) : Payload :=
  let a : Value × Value := (.str "a", .str "x|y,z")
  let b : Value × Value := (.str "b", .int 1)
  ⟨[("node_type", .str "N"), ("params", .dict (if swap then [b, a] else [a, b]))], by simp⟩

theorem twoParams_same_bytes : serializeNodespec Builtins.ascii (.mapping (twoParams false)) =
      serializeNodespec Builtins.ascii (.mapping (twoParams true)) := by
  have hspec : ∀ swap, canonicalSpec Builtins.ascii (twoParams swap) =
      .ok ⟨"N", 0, 0, .obj [("a", .str "x|y,z"), ("b", .num "1")], [], "", ""⟩ := by
    intro swap
    cases swap <;> rfl
  have hsep : Separable ⟨"N", 0, 0, .obj [("a", .str "x|y,z"), ("b", .num "1")], [], "", ""⟩ :=
    ⟨by decide, by decide, by decide, by simp⟩
  exact ((nodeId_preimage Builtins.ascii).2.1 _ _ _ _ (hspec false) (hspec true) hsep hsep).mpr rfl

end Qmtl.Foundation.NodeIdentity

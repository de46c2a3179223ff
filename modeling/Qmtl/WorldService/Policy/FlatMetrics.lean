import Qmtl.Lib.Dict
import Qmtl.Lib.Double
import Qmtl.Lib.Text

/-! `_flatten_metrics`: every number of a nested payload is kept under its last key and under its path, and the
first one to take a name keeps it. -/

namespace Qmtl.WorldService.PolicyEngine

open Lib

/-- A metric payload: a number as `float` takes it, a mapping with the texts of its keys, or what is
neither. -/
inductive Payload where
  | number (x : Double)
  | mapping (fields : List (String × Payload))
  | other

def setDefault (flat : Dict String Double) (name : String) (x : Double) : Dict String Double :=
  if (flat.get? name).isSome then flat else flat.set name x

mutual

def visit (path : List String) : Payload → Dict String Double → Dict String Double
  | .number x, flat => setDefault (setDefault flat (path.getLastD "") x) (Lib.join "." path) x
  | .mapping fields, flat => visitFields path fields flat
  | .other, flat => flat

def visitFields (path : List String) : List (String × Payload) → Dict String Double → Dict String Double
  | [], flat => flat
  | (k, v) :: fields, flat => visitFields path fields (visit (path ++ [k]) v flat)

end

def flattenMetrics (values : List (String × Payload)) : Dict String Double := visitFields [] values .empty

def normalizeMetrics (metrics : Dict String (List (String × Payload))) : Dict String (Dict String Double) :=
  metrics.mapValues flattenMetrics

/-! ### The numbers of a payload -/

def At : Payload → List String → Double → Prop
  | .number y, [], x => y = x
  | .mapping fields, k :: path, x => ∃ v, (k, v) ∈ fields ∧ At v path x
  | _, _, _ => False

mutual

def leaves (path : List String) : Payload → List (List String × Double)
  | .number x => [(path, x)]
  | .mapping fields => leavesOf path fields
  | .other => []

def leavesOf (path : List String) : List (String × Payload) → List (List String × Double)
  | [] => []
  | (k, v) :: fields => leaves (path ++ [k]) v ++ leavesOf path fields

end

def names (path : List String) : List String := [path.getLastD "", Lib.join "." path]

def write (flat : Dict String Double) (leaf : List String × Double) : Dict String Double :=
  (names leaf.1).foldl (fun flat name => setDefault flat name leaf.2) flat

mutual

theorem visit_eq (path : List String) (p : Payload) (flat : Dict String Double) :
    visit path p flat = (leaves path p).foldl write flat := by
  cases p with
  | number x => rfl
  | mapping fields => exact visitFields_eq path fields flat
  | other => rfl

theorem visitFields_eq (path : List String) (fields : List (String × Payload)) (flat : Dict String Double) :
    visitFields path fields flat = (leavesOf path fields).foldl write flat := by
  cases fields with
  | nil => rfl
  | cons field fields =>
    obtain ⟨k, v⟩ := field
    rw [visitFields, leavesOf, List.foldl_append, visitFields_eq path fields, visit_eq (path ++ [k]) v]

end

lemma get?_setDefault (flat : Dict String Double) (name name' : String) (x : Double) :
    (setDefault flat name x).get? name' =
      if name' = name then some ((flat.get? name).getD x) else flat.get? name' := by
  unfold setDefault
  cases hget : flat.get? name with
  | none => simp [Dict.get?_set]
  | some y =>
    by_cases h : name' = name
    · simp [h, hget]
    · simp [h]

lemma get?_write (flat : Dict String Double) (leaf : List String × Double) (name : String) :
    (write flat leaf).get? name =
      if name ∈ names leaf.1 then some ((flat.get? name).getD leaf.2) else flat.get? name := by
  unfold write names
  generalize leaf.1.getLastD "" = last
  generalize Lib.join "." leaf.1 = dotted
  rw [List.foldl_cons, List.foldl_cons, List.foldl_nil, get?_setDefault, get?_setDefault, get?_setDefault]
  by_cases hd : name = dotted
  · subst hd
    by_cases hl : name = last
    · simp [hl]
    · simp [hl]
  · by_cases hl : name = last
    · subst hl
      simp [hd]
    · simp [hl, hd]

lemma get?_foldl_write (l : List (List String × Double)) (flat : Dict String Double) (name : String) :
    (l.foldl write flat).get? name = (flat.get? name).or ((l.find? fun leaf => name ∈ names leaf.1).map (·.2)) := by
  induction l generalizing flat with
  | nil => simp
  | cons leaf l ih =>
    rw [List.foldl_cons, ih, get?_write, List.find?_cons]
    by_cases h : name ∈ names leaf.1
    · cases hget : flat.get? name <;> simp [h]
    · simp [h]

lemma get?_flattenMetrics (values : List (String × Payload)) (name : String) : (flattenMetrics values).get? name =
      ((leavesOf [] values).find? fun leaf => name ∈ names leaf.1).map (·.2) := by
  unfold flattenMetrics
  rw [visitFields_eq, get?_foldl_write]
  rfl

mutual

theorem mem_leaves {path q : List String} {p : Payload} {x : Double} :
    (q, x) ∈ leaves path p ↔ ∃ rest, q = path ++ rest ∧ At p rest x := by
  cases p with
  | number y =>
    constructor
    · intro h
      cases List.mem_singleton.mp h
      exact ⟨[], (List.append_nil _).symm, rfl⟩
    · rintro ⟨rest, rfl, hat⟩
      cases rest with
      | nil =>
        obtain rfl : y = x := hat
        exact List.mem_singleton.mpr (by rw [List.append_nil])
      | cons k rest => exact hat.elim
  | mapping fields => exact mem_leavesOf
  | other =>
    constructor
    · intro h
      cases h
    · rintro ⟨rest, -, hat⟩
      cases rest <;> exact hat.elim

theorem mem_leavesOf {path q : List String} {fields : List (String × Payload)} {x : Double} :
    (q, x) ∈ leavesOf path fields ↔ ∃ rest, q = path ++ rest ∧ At (.mapping fields) rest x := by
  cases fields with
  | nil =>
    constructor
    · intro h
      cases h
    · rintro ⟨rest, -, hat⟩
      cases rest with
      | nil => exact hat.elim
      | cons k rest =>
        obtain ⟨v, hv, -⟩ := hat
        cases hv
  | cons field fields =>
    obtain ⟨k, v⟩ := field
    rw [leavesOf, List.mem_append, mem_leaves (p := v), @mem_leavesOf path q fields]
    constructor
    · rintro (⟨rest, rfl, hat⟩ | ⟨rest, rfl, hat⟩)
      · exact ⟨k :: rest, by simp, v, .head _, hat⟩
      · refine ⟨rest, rfl, ?_⟩
        cases rest with
        | nil => exact hat.elim
        | cons k' rest =>
          obtain ⟨w, hw, hat⟩ := hat
          exact ⟨w, .tail _ hw, hat⟩
    · rintro ⟨rest, rfl, hat⟩
      cases rest with
      | nil => exact hat.elim
      | cons k' rest =>
        obtain ⟨w, hw, hat⟩ := hat
        rcases List.mem_cons.mp hw with heq | hw
        · cases heq
          exact .inl ⟨rest, by simp, hat⟩
        · exact .inr ⟨k' :: rest, rfl, w, hw, hat⟩

end

/-! ### Payloads up to the order of keys -/

mutual

/-- The same payload with its keys in another order, at any level. -/
inductive Reordered : Payload → Payload → Prop
  | number (x : Double) : Reordered (.number x) (.number x)
  | mapping {fields fields' : List (String × Payload)} (h : ReorderedFields fields fields') :
      Reordered (.mapping fields) (.mapping fields')
  | other : Reordered .other .other

inductive ReorderedFields : List (String × Payload) → List (String × Payload) → Prop
  | nil : ReorderedFields [] []
  | cons {k : String} {v v' : Payload} {fields fields' : List (String × Payload)} (hv : Reordered v v')
      (h : ReorderedFields fields fields') : ReorderedFields ((k, v) :: fields) ((k, v') :: fields')
  | swap (a b : String × Payload) (fields : List (String × Payload)) :
      ReorderedFields (a :: b :: fields) (b :: a :: fields)
  | trans {fields₁ fields₂ fields₃ : List (String × Payload)} (h : ReorderedFields fields₁ fields₂)
      (h' : ReorderedFields fields₂ fields₃) : ReorderedFields fields₁ fields₃

end

mutual

theorem Reordered.perm_leaves : ∀ {p p' : Payload}, Reordered p p' → ∀ path : List String,
    (leaves path p).Perm (leaves path p')
  | _, _, .number _, _ => .refl _
  | _, _, .mapping h, path => h.perm_leavesOf path
  | _, _, .other, _ => .refl _

theorem ReorderedFields.perm_leavesOf : ∀ {fields fields' : List (String × Payload)}, ReorderedFields fields fields' →
    ∀ path : List String, (leavesOf path fields).Perm (leavesOf path fields')
  | _, _, .nil, _ => .refl _
  | _, _, .cons hv h, path => (hv.perm_leaves _).append (h.perm_leavesOf path)
  | _, _, .swap a b fields, path => by
    rw [leavesOf, leavesOf, leavesOf, leavesOf, ← List.append_assoc, ← List.append_assoc]
    exact List.perm_append_comm.append_right _
  | _, _, .trans h h', path => (h.perm_leavesOf path).trans (h'.perm_leavesOf path)

end

mutual

theorem Reordered.refl (p : Payload) : Reordered p p := by
  cases p with
  | number x => exact .number x
  | mapping fields => exact .mapping (ReorderedFields.refl fields)
  | other => exact .other

theorem ReorderedFields.refl (fields : List (String × Payload)) : ReorderedFields fields fields := by
  cases fields with
  | nil => exact .nil
  | cons field fields =>
    obtain ⟨k, v⟩ := field
    exact .cons (Reordered.refl v) (ReorderedFields.refl fields)

end

mutual

theorem exists_first {path q : List String} {p : Payload} {x : Double} (h : (q, x) ∈ leaves path p) :
    ∃ p' l, Reordered p p' ∧ leaves path p' = (q, x) :: l := by
  cases p with
  | number y =>
    cases List.mem_singleton.mp h
    exact ⟨.number x, [], .number x, rfl⟩
  | mapping fields =>
    obtain ⟨k, v, fields', l, hf, hl⟩ := exists_firstOf h
    refine ⟨.mapping ((k, v) :: fields'), l ++ leavesOf path fields', .mapping hf, ?_⟩
    rw [leaves, leavesOf, hl]
    rfl
  | other => cases h

theorem exists_firstOf {path q : List String} {fields : List (String × Payload)} {x : Double}
    (h : (q, x) ∈ leavesOf path fields) :
    ∃ k v fields' l, ReorderedFields fields ((k, v) :: fields') ∧ leaves (path ++ [k]) v = (q, x) :: l := by
  cases fields with
  | nil => cases h
  | cons field fields =>
    obtain ⟨k, v⟩ := field
    rcases List.mem_append.mp h with h | h
    · obtain ⟨v', l, hv, hl⟩ := exists_first h
      exact ⟨k, v', fields, l, .cons hv (.refl fields), hl⟩
    · -- the field that it is in goes before this one
      obtain ⟨k', v', fields', l, hf, hl⟩ := exists_firstOf h
      exact ⟨k', v', (k, v) :: fields', l, .trans (.cons (.refl v) hf) (.swap (k, v) (k', v') fields'), hl⟩

end

/-! ### Names -/

/-- A name stands for the number that goes by it, in every order of the keys. -/
structure Unambiguous (values : List (String × Payload)) : Prop where
  top : ∀ k x, (k, Payload.number x) ∈ values → (flattenMetrics values).get? k = some x
  dotted : ∀ path x, At (.mapping values) path x → (flattenMetrics values).get? (Lib.join "." path) = some x
  order : ∀ values', ReorderedFields values values' →
    ∀ name, (flattenMetrics values').get? name = (flattenMetrics values).get? name

def NamesAgree (values : List (String × Payload)) : Prop :=
  ∀ path path' x x' name, At (.mapping values) path x → At (.mapping values) path' x' →
    name ∈ names path → name ∈ names path' → x = x'

variable {values : List (String × Payload)} {x : Double}

lemma at_iff_mem {path : List String} : At (.mapping values) path x ↔ (path, x) ∈ leavesOf [] values := by
  rw [mem_leavesOf]
  constructor
  · intro h
    exact ⟨path, rfl, h⟩
  · rintro ⟨rest, rfl, h⟩
    exact h

lemma NamesAgree.get?_eq_some (h : NamesAgree values) {name : String} :
    (flattenMetrics values).get? name = some x ↔ ∃ path, At (.mapping values) path x ∧ name ∈ names path := by
  rw [get?_flattenMetrics]
  constructor
  · intro hget
    obtain ⟨⟨path, y⟩, hf, rfl⟩ := Option.map_eq_some_iff.mp hget
    have hn := List.find?_some hf
    exact ⟨path, at_iff_mem.mpr (List.mem_of_find?_eq_some hf), of_decide_eq_true hn⟩
  · rintro ⟨path, hat, hn⟩
    cases hf : (leavesOf [] values).find? fun leaf => name ∈ names leaf.1 with
    | none =>
      have hno := List.find?_eq_none.mp hf (path, x) (at_iff_mem.mp hat)
      exact absurd (decide_eq_true hn) hno
    | some leaf =>
      obtain ⟨path', y⟩ := leaf
      have hy := at_iff_mem.mpr (List.mem_of_find?_eq_some hf)
      have hn' := List.find?_some hf
      rw [h path path' x y name hat hy hn (of_decide_eq_true hn')]
      rfl

lemma at_reordered {values values' : List (String × Payload)} (h : ReorderedFields values values')
    {path : List String} : At (.mapping values') path x ↔ At (.mapping values) path x := by
  rw [at_iff_mem, at_iff_mem]
  exact (h.perm_leavesOf []).mem_iff.symm

/-- **Flattened metrics are unambiguous** exactly when any two numbers with a name in common, be it the last
key or the dotted path of the one and of the other, are the same. -/
theorem unambiguous_iff (values : List (String × Payload)) : Unambiguous values ↔ NamesAgree values := by
  constructor
  · rintro ⟨-, -, horder⟩ path path' x x' name hat hat' hname hname'
    have hfirst : ∀ {q : List String} {y : Double}, At (.mapping values) q y → name ∈ names q →
        (flattenMetrics values).get? name = some y := by
      intro q y hq hmem
      obtain ⟨k, v, rest, l, hreordered, hl⟩ := exists_firstOf (at_iff_mem.mp hq)
      rw [← horder _ hreordered, get?_flattenMetrics, leavesOf, hl, List.cons_append, List.find?_cons,
        decide_eq_true hmem]
      rfl
    exact Option.some.inj ((hfirst hat hname).symm.trans (hfirst hat' hname'))
  · intro h
    refine ⟨fun k x hk => ?_, fun path x hat => ?_, fun values' hreordered name => ?_⟩
    · exact h.get?_eq_some.mpr ⟨[k], ⟨_, hk, rfl⟩, .head _⟩
    · exact h.get?_eq_some.mpr ⟨path, hat, .tail _ List.mem_cons_self⟩
    · have h' : NamesAgree values' := by
        intro path path' x x' name hat hat'
        exact h path path' x x' name ((at_reordered hreordered).mp hat) ((at_reordered hreordered).mp hat')
      refine Option.ext fun x => ?_
      rw [h'.get?_eq_some, h.get?_eq_some]
      exact exists_congr fun path => and_congr_left' (at_reordered hreordered)

def sectionFirst : List (String × Payload) :=
  [("paper", .mapping [("sharpe", .number (.finite (1 / 2)))]), ("sharpe", .number (.finite 2))]

/-- The metric at top level is not what its name stands for. -/
theorem section_shadows_metric : ("sharpe", Payload.number (.finite 2)) ∈ sectionFirst ∧
      (flattenMetrics sectionFirst).get? "sharpe" = some (.finite (1 / 2)) ∧ ¬ Unambiguous sectionFirst := by
  have hget : (flattenMetrics sectionFirst).get? "sharpe" = some (.finite (1 / 2)) := by
    decide +kernel
  refine ⟨by simp [sectionFirst], hget, fun h => ?_⟩
  have htop := h.top "sharpe" (.finite 2) (by simp [sectionFirst])
  exact absurd htop (by decide +kernel)

end Qmtl.WorldService.PolicyEngine

import Qmtl.Gateway.InstrumentConstraints

/-! The names of an instrument and its limits. -/

namespace Qmtl.Gateway.Instruments

open Lib Gateway.Rebalancing

/-! ### What is asked -/

def limits : List (InstrumentConstraint → Option ℚ) :=
  [InstrumentConstraint.lotSize, InstrumentConstraint.minNotional, InstrumentConstraint.tickSize]

section

variable (lower : Lower) (fold : String → String)

def ConstraintRule.names (r : ConstraintRule) : List String :=
  (r.specific.toList ++ r.canonical.toList ++ r.aliases).map (normalizeSymbol fold)

structure RuleFor (rules : List ConstraintRule) (venue : Option String) (r : ConstraintRule) (symbol canonical : String)
    (others : List ConstraintRule) : Prop where
  among : ∃ before after, rules = before ++ r :: after ∧ others = before ++ after
  symbol : r.specific = some symbol
  canonical : r.canonical = some canonical
  venue : normalizeVenue lower r.venue = normalizeVenue lower venue

def NotRedefined (r : ConstraintRule) (others : List ConstraintRule) (name : String) : Prop :=
  ∀ r' ∈ others, r'.key lower fold ≠ r.key lower fold ∧
    (normalizeVenue lower r'.venue = normalizeVenue lower r.venue → normalizeSymbol fold name ∈ r'.names fold →
      r'.canonical = r.canonical)

def HasLimits (r : ConstraintRule) (constraint : InstrumentConstraint) : Prop :=
  ∀ limit ∈ limits, ∀ x, limit r.constraint = some x → limit constraint = some x

structure RulesApply (rules : List ConstraintRule) (venue : Option String) : Prop where
  named : ∀ r symbol canonical others name, RuleFor lower rules venue r symbol canonical others →
    (∃ limit ∈ limits, (limit r.constraint).isSome) → normalizeSymbol fold name ∈ r.names fold →
    NotRedefined lower fold r others name →
      (resolve lower fold (ofRules lower fold rules) venue name).symbol = canonical ∧
        HasLimits r (resolve lower fold (ofRules lower fold rules) venue name).constraint
  idempotent : ∀ name,
    (resolve lower fold (ofRules lower fold rules) venue (resolve lower fold (ofRules lower fold rules) venue name).symbol).symbol =
      (resolve lower fold (ofRules lower fold rules) venue name).symbol ∧
    (resolve lower fold (ofRules lower fold rules) venue (resolve lower fold (ofRules lower fold rules) venue name).symbol).constraint =
      (resolve lower fold (ofRules lower fold rules) venue name).constraint

def Unruled (table : InstrumentConstraints) (venue : Option String) (key : String) : Prop :=
  key ≠ "*" → ∀ venueKey ∈ [normalizeVenue lower venue, "", "*"], table.rules.get? (venueKey, key) = none

structure WellNamed (rules : List ConstraintRule) (venue : Option String) : Prop where
  /-- The canonical symbol of a rule is its symbol in some letter case, or other rules lead the name to its symbol. -/
  canonical : ∀ r symbol canonical others name, RuleFor lower rules venue r symbol canonical others →
    normalizeSymbol fold name ∈ r.names fold → NotRedefined lower fold r others name →
      normalizeSymbol fold canonical = normalizeSymbol fold symbol ∨
        lookupKey lower fold (ofRules lower fold rules) venue name = normalizeSymbol fold symbol
  /-- The canonical symbol that governs a name is looked up as the name is, or both have rules for all symbols only. -/
  settled : ∀ name symbol,
    governing lower (ofRules lower fold rules) Prod.fst venue (lookupKey lower fold (ofRules lower fold rules) venue name) =
      some symbol →
    lookupKey lower fold (ofRules lower fold rules) venue symbol = lookupKey lower fold (ofRules lower fold rules) venue name ∨
      (Unruled lower (ofRules lower fold rules) venue (lookupKey lower fold (ofRules lower fold rules) venue name) ∧
        Unruled lower (ofRules lower fold rules) venue (lookupKey lower fold (ofRules lower fold rules) venue symbol))
  /-- Where none governs, what a name leads to leads to itself. -/
  direct : ∀ name,
    governing lower (ofRules lower fold rules) Prod.fst venue (lookupKey lower fold (ofRules lower fold rules) venue name) =
      none →
    lookupName lower fold (ofRules lower fold rules) venue (lookupName lower fold (ofRules lower fold rules) venue name) =
      lookupName lower fold (ofRules lower fold rules) venue name

end

variable {lower : Lower} {fold : String → String} {venue : Option String}

variable {r : ConstraintRule} {rules : List ConstraintRule} {table : InstrumentConstraints}

lemma canonical_ne_empty {canonical : String} (h : r.canonical = some canonical) : canonical ≠ "" := by
  rcases Option.or_eq_some_iff.mp h with h | ⟨-, h⟩
  · exact of_decide_eq_true (Option.filter_eq_some_iff.mp h).2
  · exact (of_decide_eq_true (Option.filter_eq_some_iff.mp h).2).2

lemma key_of_specific {symbol : String} (h : r.specific = some symbol) :
    r.key lower fold = (normalizeVenue lower r.venue, normalizeSymbol fold symbol) := by
  have hs : r.symbol = some symbol := (Option.filter_eq_some_iff.mp h).1
  unfold ConstraintRule.key
  rw [hs, Option.getD_some]

lemma mem_names_of_writes {key : Key} (h : r.Writes lower fold key) : key.2 ∈ r.names fold := by
  obtain ⟨name, hn, hkey⟩ := List.mem_map.mp h.2
  exact List.mem_map.mpr ⟨name, List.mem_append_right _ hn, hkey⟩

lemma mem_names_of_specific {symbol : String} (h : r.specific = some symbol) :
    normalizeSymbol fold symbol ∈ r.names fold := by
  refine List.mem_map_of_mem (List.mem_append_left _ (List.mem_append_left _ ?_))
  rw [h]
  exact List.mem_singleton.mpr rfl

/-! ### The rules in turn -/

lemma get?_rules (r : ConstraintRule) (before after : List ConstraintRule)
    (h : ∀ r' ∈ after, r'.key lower fold ≠ r.key lower fold) :
    (ofRules lower fold (before ++ r :: after)).rules.get? (r.key lower fold) = some (r.canonical, r.constraint) := by
  induction after using List.reverseRecOn with
  | nil =>
    rw [ofRules, List.foldl_append, List.foldl_cons, List.foldl_nil]
    exact Dict.get?_set_self _ _ _
  | append_singleton after r' ih =>
    have hne := h r' (List.mem_append_right _ (List.mem_singleton.mpr rfl))
    have hs := ih fun r'' hr'' => h r'' (List.mem_append_left _ hr'')
    rw [← List.cons_append, ← List.append_assoc, ofRules, List.foldl_append, List.foldl_cons, List.foldl_nil]
    exact (Dict.get?_set_ne _ _ hne.symm).trans hs

def Proper (fold : String → String) (key : Key) (canonical value : String) : Prop :=
  value ≠ "" ∧ (value = canonical ∨ normalizeSymbol fold value = key.2)

section

variable {r : ConstraintRule} {canonical : String} {key : Key} {table : InstrumentConstraints}

lemma proper_addRule (hcn : ∀ value, r.canonical = some value → normalizeVenue lower r.venue = key.1 →
      key.2 ∈ r.names fold → value = canonical)
    (hsm : normalizeVenue lower r.venue = key.1 → key.2 ∈ r.names fold → r.canonical.isSome)
    (hp : ∀ value, table.aliases.get? key = some value → Proper fold key canonical value) {value : String}
    (h : (table.addRule lower fold r).aliases.get? key = some value) : Proper fold key canonical value := by
  by_cases hw : r.Writes lower fold key
  · have hn := mem_names_of_writes hw
    obtain ⟨c, hc⟩ := Option.isSome_iff_exists.mp (hsm hw.1 hn)
    have hwr := get?_writeAliases_of_writes hw hc table.aliases
    rcases get?_writeDefaults.mp h with hold | ⟨hnn, -⟩
    · rw [hwr, Option.some.injEq] at hold
      subst hold
      exact ⟨canonical_ne_empty hc, .inl (hcn c hc hw.1 hn)⟩
    · rw [hwr] at hnn
      cases hnn
  · have hk := get?_writeAliases_of_not hw table.aliases
    rcases get?_writeDefaults.mp h with hold | ⟨-, hc, hd⟩
    · exact hp value (hk.symm.trans hold)
    · refine ⟨canonical_ne_empty hc, ?_⟩
      rcases hd with ⟨s, hs, rfl⟩ | rfl
      · exact .inl (hcn value hc rfl (mem_names_of_specific hs))
      · exact .inr rfl

lemma kept_addRule (hc : normalizeVenue lower r.venue = key.1 → key.2 ∈ r.names fold →
      r.canonical = some canonical) {value : String} (h : table.aliases.get? key = some value) :
    (table.addRule lower fold r).aliases.get? key = some value ∨
      (table.addRule lower fold r).aliases.get? key = some canonical := by
  by_cases hw : r.Writes lower fold key
  · have hwr := get?_writeAliases_of_writes hw (hc hw.1 (mem_names_of_writes hw)) table.aliases
    exact .inr (get?_writeDefaults.mpr (.inl hwr))
  · exact .inl (get?_writeDefaults.mpr (.inl ((get?_writeAliases_of_not hw table.aliases).trans h)))

end

lemma proper_ofRules {canonical : String} {key : Key}
    (hall : ∀ r ∈ rules, normalizeVenue lower r.venue = key.1 → key.2 ∈ r.names fold → r.canonical = some canonical)
    {value : String} (h : (ofRules lower fold rules).aliases.get? key = some value) :
    Proper fold key canonical value := by
  induction rules using List.reverseRecOn generalizing value with
  | nil => cases h
  | append_singleton rules r ih =>
    rw [ofRules, List.foldl_append, List.foldl_cons, List.foldl_nil] at h
    have hl := hall r (List.mem_append_right _ (List.mem_singleton.mpr rfl))
    refine proper_addRule (fun c hc hv hn => ?_) (fun hv hn => ?_)
      (fun _ => ih fun r' hr' => hall r' (List.mem_append_left _ hr')) h
    · exact Option.some.inj (hc.symm.trans (hl hv hn))
    · rw [hl hv hn]
      rfl

def LeadsTo (fold : String → String) (table : InstrumentConstraints) (key : Key) (symbol : String) : Prop :=
  ∃ value, table.aliases.get? key = some value ∧ value ≠ "" ∧ normalizeSymbol fold value = normalizeSymbol fold symbol

lemma leadsTo_addRule {symbol canonical name : String} (hs : r.specific = some symbol)
    (hc : r.canonical = some canonical) (hcs : normalizeSymbol fold canonical = normalizeSymbol fold symbol)
    (hnm : normalizeSymbol fold name ∈ r.names fold)
    (hp : ∀ value, table.aliases.get? (normalizeVenue lower r.venue, normalizeSymbol fold name) = some value →
      Proper fold (normalizeVenue lower r.venue, normalizeSymbol fold name) canonical value) :
    LeadsTo fold (table.addRule lower fold r) (normalizeVenue lower r.venue, normalizeSymbol fold name) symbol := by
  by_cases hw : r.Writes lower fold (normalizeVenue lower r.venue, normalizeSymbol fold name)
  · exact ⟨canonical, get?_writeDefaults.mpr (.inl (get?_writeAliases_of_writes hw hc _)),
      canonical_ne_empty hc, hcs⟩
  · have hk := get?_writeAliases_of_not hw table.aliases
    have hown : normalizeSymbol fold name = normalizeSymbol fold symbol := by
      obtain ⟨n, hn, heq⟩ := List.mem_map.mp hnm
      rw [hs, hc, List.mem_append, List.mem_append] at hn
      rcases hn with (hn | hn) | hn
      · rw [← heq, List.mem_singleton.mp hn]
      · rw [← heq, List.mem_singleton.mp hn, hcs]
      · exact absurd ⟨rfl, List.mem_map.mpr ⟨n, hn, heq⟩⟩ hw
    cases hold : table.aliases.get? (normalizeVenue lower r.venue, normalizeSymbol fold name) with
    | some value =>
      obtain ⟨hne, hv⟩ := hp value hold
      refine ⟨value, get?_writeDefaults.mpr (.inl (hk.trans hold)), hne, ?_⟩
      rcases hv with rfl | hv
      · exact hcs
      · exact hv.trans hown
    | none =>
      exact ⟨canonical, get?_writeDefaults.mpr (.inr ⟨hk.trans hold, hc, .inl ⟨symbol, hs, by rw [hown]⟩⟩),
        canonical_ne_empty hc, hcs⟩

lemma leadsTo_ofRules {symbol canonical : String} {key : Key} {before after : List ConstraintRule}
    (hne : canonical ≠ "") (hc : normalizeSymbol fold canonical = normalizeSymbol fold symbol)
    (hall : ∀ r' ∈ after, normalizeVenue lower r'.venue = key.1 → key.2 ∈ r'.names fold → r'.canonical = some canonical)
    (h : LeadsTo fold ((ofRules lower fold before).addRule lower fold r) key symbol) :
    LeadsTo fold (ofRules lower fold (before ++ r :: after)) key symbol := by
  induction after using List.reverseRecOn with
  | nil =>
    rw [ofRules, List.foldl_append, List.foldl_cons, List.foldl_nil]
    exact h
  | append_singleton after r' ih =>
    obtain ⟨value, hv, hn, hf⟩ := ih fun r'' hr'' => hall r'' (List.mem_append_left _ hr'')
    have hl := hall r' (List.mem_append_right _ (List.mem_singleton.mpr rfl))
    rw [← List.cons_append, ← List.append_assoc, ofRules, List.foldl_append, List.foldl_cons, List.foldl_nil]
    rcases kept_addRule hl hv with hk | hnew
    · exact ⟨value, hk, hn, hf⟩
    · exact ⟨canonical, hnew, hne, hc⟩

/-- **A rule that stands under its canonical symbol is looked up there**, under any of its names. -/
theorem lookupKey_of_canonical {others : List ConstraintRule} {symbol canonical name : String}
    (hrl : RuleFor lower rules venue r symbol canonical others) (hnm : normalizeSymbol fold name ∈ r.names fold)
    (hr : NotRedefined lower fold r others name)
    (hcs : normalizeSymbol fold canonical = normalizeSymbol fold symbol) :
    lookupKey lower fold (ofRules lower fold rules) venue name = normalizeSymbol fold symbol := by
  obtain ⟨⟨before, after, rfl, rfl⟩, hsm, hc, hvn⟩ := hrl
  have hs : ∀ r' ∈ before ++ after, normalizeVenue lower r'.venue = normalizeVenue lower r.venue →
      normalizeSymbol fold name ∈ r'.names fold → r'.canonical = some canonical :=
    fun r' hr' hv hn => ((hr r' hr').2 hv hn).trans hc
  -- before the rule the name has a proper value, if any; the rule makes it lead to its symbol, and those after it keep it
  have hb : LeadsTo fold ((ofRules lower fold before).addRule lower fold r)
      (normalizeVenue lower r.venue, normalizeSymbol fold name) symbol :=
    leadsTo_addRule hsm hc hcs hnm fun _ =>
      proper_ofRules fun r' hr' => hs r' (List.mem_append_left _ hr')
  obtain ⟨value, hvl, hne, hfl⟩ := leadsTo_ofRules (canonical_ne_empty hc) hcs
    (fun r' hr' => hs r' (List.mem_append_right _ hr')) hb
  rw [hvn] at hvl
  have hal : resolveSymbolAlias (ofRules lower fold (before ++ r :: after)) (normalizeVenue lower venue)
      (normalizeSymbol fold name) = some value := by
    unfold resolveSymbolAlias
    rw [List.findSome?_cons, hvl]
  have hf : Option.filter (fun v => decide (v ≠ "")) (some value) = some value :=
    Option.filter_some_pos (decide_eq_true hne)
  unfold lookupKey lookupName
  rw [hal, hf, Option.getD_some, hfl]

lemma applies_of_lookupKey {others : List ConstraintRule} {symbol canonical name : String}
    (hrl : RuleFor lower rules venue r symbol canonical others) (hr : NotRedefined lower fold r others name)
    (hkey : lookupKey lower fold (ofRules lower fold rules) venue name = normalizeSymbol fold symbol) :
    standsFor lower fold (ofRules lower fold rules) venue name = canonical ∧
      HasLimits r (inForce lower (ofRules lower fold rules) venue
        (lookupKey lower fold (ofRules lower fold rules) venue name)) := by
  obtain ⟨⟨before, after, rfl, rfl⟩, hs, hc, hv⟩ := hrl
  have hstored := get?_rules r before after fun r' hr' => (hr r' (List.mem_append_right _ hr')).1
  rw [key_of_specific hs, hv] at hstored
  unfold standsFor inForce
  rw [hkey]
  refine ⟨?_, ?_⟩
  · rw [governing_of_stored hstored hc, Option.getD_some]
  · unfold HasLimits limits
    simp only [List.forall_mem_cons, List.not_mem_nil, IsEmpty.forall_iff, implies_true, and_true]
    exact ⟨fun x hx => governing_of_stored hstored hx, fun x hx => governing_of_stored hstored hx,
      fun x hx => governing_of_stored hstored hx⟩

/-! ### The same rules with other limits -/

def ConstraintRule.withLimits (r : ConstraintRule) (c : InstrumentConstraint) : ConstraintRule :=
  { r with lotSize := c.lotSize, minNotional := c.minNotional, tickSize := c.tickSize }

def relimit (limit : ConstraintRule → InstrumentConstraint) (rules : List ConstraintRule) : List ConstraintRule :=
  rules.map fun r => r.withLimits (limit r)

lemma relimit_self (rules : List ConstraintRule) : relimit ConstraintRule.constraint rules = rules :=
  List.map_id rules

section

variable {limit : ConstraintRule → InstrumentConstraint} {rules : List ConstraintRule}

lemma tables_relimit (limit : ConstraintRule → InstrumentConstraint) (rules : List ConstraintRule) :
    (ofRules lower fold (relimit limit rules)).aliases = (ofRules lower fold rules).aliases ∧
      ∀ key, ((ofRules lower fold (relimit limit rules)).rules.get? key).map Prod.fst =
        ((ofRules lower fold rules).rules.get? key).map Prod.fst := by
  induction rules using List.reverseRecOn with
  | nil => exact ⟨rfl, fun _ => rfl⟩
  | append_singleton rules r ih =>
    have hs : relimit limit (rules ++ [r]) = relimit limit rules ++ [r.withLimits (limit r)] := List.map_append
    unfold ofRules at ih ⊢
    rw [hs, List.foldl_append, List.foldl_append, List.foldl_cons, List.foldl_cons, List.foldl_nil, List.foldl_nil]
    constructor
    · show writeDefaults lower fold r (writeAliases lower fold r _) = writeDefaults lower fold r (writeAliases lower fold r _)
      rw [ih.1]
    · intro key
      show ((Dict.set _ (r.key lower fold) (r.canonical, _)).get? key).map Prod.fst =
        ((Dict.set _ (r.key lower fold) (r.canonical, _)).get? key).map Prod.fst
      rw [Dict.get?_set, Dict.get?_set]
      split
      · rfl
      · exact ih.2 key

lemma lookupName_relimit (name : String) : lookupName lower fold (ofRules lower fold (relimit limit rules)) venue name =
    lookupName lower fold (ofRules lower fold rules) venue name := by
  unfold lookupName resolveSymbolAlias
  rw [(tables_relimit limit rules).1]

lemma lookupKey_relimit (name : String) : lookupKey lower fold (ofRules lower fold (relimit limit rules)) venue name =
    lookupKey lower fold (ofRules lower fold rules) venue name :=
  congrArg _ (lookupName_relimit name)

lemma governing_relimit (key : String) : governing lower (ofRules lower fold (relimit limit rules)) Prod.fst venue key =
    governing lower (ofRules lower fold rules) Prod.fst venue key := by
  refine congrArg (fun f => List.findSome? f (candidates (normalizeVenue lower venue) key).reverse) (funext fun candidate => ?_)
  have h := (@tables_relimit lower fold limit rules).2 candidate
  cases hnew : (ofRules lower fold (relimit limit rules)).rules.get? candidate with
  | none =>
    rw [hnew, Option.map_none, eq_comm, Option.map_eq_none_iff] at h
    rw [h]
  | some stored =>
    rw [hnew, Option.map_some, eq_comm, Option.map_eq_some_iff] at h
    obtain ⟨stored', hold, hfst⟩ := h
    rw [hold, Option.bind_some, Option.bind_some, hfst]

lemma standsFor_relimit (name : String) : standsFor lower fold (ofRules lower fold (relimit limit rules)) venue name =
    standsFor lower fold (ofRules lower fold rules) venue name := by
  unfold standsFor
  rw [governing_relimit, lookupKey_relimit, lookupName_relimit]

lemma unruled_relimit {key : String} : Unruled lower (ofRules lower fold (relimit limit rules)) venue key ↔
    Unruled lower (ofRules lower fold rules) venue key := by
  have hn : ∀ k : Key, (ofRules lower fold (relimit limit rules)).rules.get? k = none ↔
      (ofRules lower fold rules).rules.get? k = none := by
    intro k
    rw [← Option.map_eq_none_iff (f := Prod.fst), (tables_relimit limit rules).2 k, Option.map_eq_none_iff]
  unfold Unruled
  simp [hn]

lemma ruleFor_relimit {r : ConstraintRule} {symbol canonical : String} {others : List ConstraintRule}
    (h : RuleFor lower rules venue r symbol canonical others) :
    RuleFor lower (relimit limit rules) venue (r.withLimits (limit r)) symbol canonical (relimit limit others) := by
  obtain ⟨⟨before, after, rfl, rfl⟩, hs, hc, hv⟩ := h
  refine ⟨⟨relimit limit before, relimit limit after, ?_, ?_⟩, hs, hc, hv⟩
  · exact List.map_append
  · exact List.map_append

lemma exists_of_ruleFor_relimit {r' : ConstraintRule} {symbol canonical : String} {others' : List ConstraintRule}
    (h : RuleFor lower (relimit limit rules) venue r' symbol canonical others') :
    ∃ r others, r' = r.withLimits (limit r) ∧ others' = relimit limit others ∧
      RuleFor lower rules venue r symbol canonical others := by
  obtain ⟨⟨before', after', hsp, rfl⟩, hs, hc, hv⟩ := h
  obtain ⟨before, rest, rfl, rfl, hr⟩ := List.map_eq_append_iff.mp hsp
  obtain ⟨r, after, rfl, rfl, rfl⟩ := List.map_eq_cons_iff.mp hr
  exact ⟨r, before ++ after, rfl, List.map_append.symm, ⟨before, after, rfl, rfl⟩, hs, hc, hv⟩

lemma notRedefined_relimit {r : ConstraintRule} {others : List ConstraintRule} {name : String}
    (c : InstrumentConstraint) :
    NotRedefined lower fold (r.withLimits c) (relimit limit others) name ↔ NotRedefined lower fold r others name :=
  List.forall_mem_map

end

/-! ### Names that are well chosen -/

lemma governing_of_unruled {key : String} (h : Unruled lower table venue key) {α : Type} (part : Stored → Option α) :
    governing lower table part venue key = governing lower table part venue "*" := by
  by_cases hkey : key = "*"
  · rw [hkey]
  · have hn := h hkey
    simp only [List.forall_mem_cons, List.not_mem_nil, IsEmpty.forall_iff, implies_true, and_true] at hn
    obtain ⟨hown, hempty, hs⟩ := hn
    simp only [governing, candidates, List.reverse_cons, List.reverse_nil, List.nil_append, List.cons_append,
      List.findSome?_cons, List.findSome?_nil, hown, hempty, hs, Option.bind_none]
    cases (table.rules.get? (normalizeVenue lower venue, "*")).bind part with
    | some a => rfl
    | none => cases (table.rules.get? ("", "*")).bind part <;> cases (table.rules.get? ("*", "*")).bind part <;> rfl

lemma inForce_of_unruled {key : String} (h : Unruled lower table venue key) :
    inForce lower table venue key = inForce lower table venue "*" := by
  unfold inForce
  rw [governing_of_unruled h, governing_of_unruled h, governing_of_unruled h]

lemma governing_star {key : String} {α : Type} {part : Stored → Option α}
    (h : governing lower table part venue key = none) : governing lower table part venue "*" = none := by
  have hall := List.findSome?_eq_none_iff.mp h
  refine List.findSome?_eq_none_iff.mpr fun candidate hc => hall candidate ?_
  simp only [candidates, List.mem_reverse, List.mem_cons, List.not_mem_nil, or_false, or_self_left] at hc ⊢
  tauto

lemma standsFor_of_some {name symbol : String}
    (h : governing lower table Prod.fst venue (lookupKey lower fold table venue name) = some symbol) :
    standsFor lower fold table venue name = symbol := by
  unfold standsFor
  rw [h, Option.getD_some]

lemma standsFor_of_none {name : String}
    (h : governing lower table Prod.fst venue (lookupKey lower fold table venue name) = none) :
    standsFor lower fold table venue name = lookupName lower fold table venue name := by
  unfold standsFor
  rw [h, Option.getD_none]

lemma standsFor_of_lookupName {name symbol : String}
    (h : lookupName lower fold table venue symbol = lookupName lower fold table venue name) :
    standsFor lower fold table venue symbol = standsFor lower fold table venue name ∧
      lookupKey lower fold table venue symbol = lookupKey lower fold table venue name := by
  unfold standsFor lookupKey
  rw [h]
  exact ⟨rfl, rfl⟩

lemma rulesApply_of_wellNamed (h : WellNamed lower fold rules venue) (limit : ConstraintRule → InstrumentConstraint) :
    RulesApply lower fold (relimit limit rules) venue := by
  refine ⟨fun r' symbol canonical others' name hrl' _ hn hr' => ?_, fun name => ?_⟩
  · rw [resolve_eq]
    obtain ⟨r, others, rfl, rfl, hrl⟩ := exists_of_ruleFor_relimit hrl'
    have hr := (notRedefined_relimit _).mp hr'
    refine applies_of_lookupKey hrl' hr' ?_
    rw [lookupKey_relimit]
    exact (h.canonical r symbol canonical others name hrl hn hr).elim
      (lookupKey_of_canonical hrl hn hr) id
  · rw [resolve_eq, resolve_eq, standsFor_relimit, standsFor_relimit, lookupKey_relimit, lookupKey_relimit]
    cases hg : governing lower (ofRules lower fold rules) Prod.fst venue
        (lookupKey lower fold (ofRules lower fold rules) venue name) with
    | none =>
      have hst := standsFor_of_none hg
      obtain ⟨hs, hkey⟩ := standsFor_of_lookupName (h.direct name hg)
      rw [hst]
      exact ⟨hs.trans hst, congrArg (inForce lower _ venue) hkey⟩
    | some symbol =>
      rw [standsFor_of_some hg]
      rcases h.settled name symbol hg with hkey | ⟨hn, hs⟩
      · exact ⟨standsFor_of_some (hkey ▸ hg), congrArg (inForce lower _ venue) hkey⟩
      · refine ⟨standsFor_of_some ?_, ?_⟩
        · rw [governing_of_unruled hs, ← governing_of_unruled hn, hg]
        · rw [inForce_of_unruled (unruled_relimit.mpr hs), inForce_of_unruled (unruled_relimit.mpr hn)]

/-! ### Limits that tell two keys apart -/

def lotAt (fold : String → String) (key : String) (r : ConstraintRule) : InstrumentConstraint :=
  ⟨if normalizeSymbol fold (r.symbol.getD "*") = key then some 1 else none, none, none⟩

lemma lotSize_lotAt {key : String} {k : Key} {stored : Stored}
    (h : (ofRules lower fold (relimit (lotAt fold key) rules)).rules.get? k = some stored) :
    stored.2.lotSize = if k.2 = key then some 1 else none := by
  induction rules using List.reverseRecOn with
  | nil => cases h
  | append_singleton rules r ih =>
    have hs : relimit (lotAt fold key) (rules ++ [r]) = relimit (lotAt fold key) rules ++ [r.withLimits (lotAt fold key r)] :=
      List.map_append
    rw [hs, ofRules, List.foldl_append, List.foldl_cons, List.foldl_nil] at h
    change (Dict.set _ (r.key lower fold) (r.canonical, lotAt fold key r)).get? k = some stored at h
    rw [Dict.get?_set] at h
    split at h
    · rename_i hk
      cases h
      rw [hk]
      rfl
    · exact ih h

lemma snd_of_mem_candidates {venueKey key : String} {candidate : Key} (h : candidate ∈ candidates venueKey key) :
    candidate.2 = "*" ∨ candidate.2 = key := by
  simp only [candidates, List.mem_cons, List.not_mem_nil, or_false] at h
  rcases h with rfl | rfl | rfl | rfl | rfl | rfl <;> simp

lemma lotSize_of_ne {key key' : String} (hs : key ≠ "*") (hne : key' ≠ key) :
    (inForce lower (ofRules lower fold (relimit (lotAt fold key) rules)) venue key').lotSize = none := by
  show List.findSome? _ _ = none
  rw [List.findSome?_eq_none_iff]
  intro candidate hc
  have hother : candidate.2 ≠ key := by
    rcases snd_of_mem_candidates (List.mem_reverse.mp hc) with h | h
    · exact h ▸ hs.symm
    · exact h ▸ hne
  cases hget : (ofRules lower fold (relimit (lotAt fold key) rules)).rules.get? candidate with
  | none => rfl
  | some stored =>
    rw [Option.bind_some, lotSize_lotAt hget, if_neg hother]

lemma lotSize_of_ruled {key : String} (h : ¬ Unruled lower (ofRules lower fold rules) venue key) :
    key ≠ "*" ∧ (inForce lower (ofRules lower fold (relimit (lotAt fold key) rules)) venue key).lotSize ≠ none := by
  rw [← @unruled_relimit lower fold venue (lotAt fold key) rules key, Unruled] at h
  push Not at h
  obtain ⟨hs, venueKey, hv, hsm⟩ := h
  refine ⟨hs, fun hn => ?_⟩
  obtain ⟨stored, hget⟩ := Option.ne_none_iff_exists'.mp hsm
  have hmem : (venueKey, key) ∈ (candidates (normalizeVenue lower venue) key).reverse := by
    simp only [candidates, List.mem_reverse, List.mem_cons, List.not_mem_nil, or_false] at hv ⊢
    rcases hv with rfl | rfl | rfl <;> simp
  have hall := List.findSome?_eq_none_iff.mp hn _ hmem
  rw [hget, Option.bind_some, lotSize_lotAt hget, if_pos rfl] at hall
  cases hall

lemma inForce_ne {key key' : String} (hne : key' ≠ key) (h : ¬ Unruled lower (ofRules lower fold rules) venue key) :
    inForce lower (ofRules lower fold (relimit (lotAt fold key) rules)) venue key' ≠
      inForce lower (ofRules lower fold (relimit (lotAt fold key) rules)) venue key := by
  obtain ⟨hst, hs⟩ := lotSize_of_ruled h
  intro heq
  rw [← heq] at hs
  exact hs (lotSize_of_ne hst hne)

lemma wellNamed_of_rulesApply (hfl : ∀ s, fold s = "*" → s = "*")
    (h : ∀ limit, RulesApply lower fold (relimit limit rules) venue) : WellNamed lower fold rules venue := by
  have hid : ∀ limit name symbol, standsFor lower fold (ofRules lower fold rules) venue name = symbol →
      standsFor lower fold (ofRules lower fold rules) venue symbol = symbol ∧
        inForce lower (ofRules lower fold (relimit limit rules)) venue
            (lookupKey lower fold (ofRules lower fold rules) venue symbol) =
          inForce lower (ofRules lower fold (relimit limit rules)) venue
            (lookupKey lower fold (ofRules lower fold rules) venue name) := by
    intro limit name symbol hs
    have hbt := (h limit).idempotent name
    rwa [resolve_eq, resolve_eq, standsFor_relimit, standsFor_relimit, lookupKey_relimit, lookupKey_relimit, hs] at hbt
  refine ⟨?_, ?_, ?_⟩
  · intro r symbol canonical others name hrl hnm hrd
    right
    by_contra hkey
    have hsta : normalizeSymbol fold symbol ≠ "*" := by
      have hne : symbol ≠ "*" := of_decide_eq_true (Option.filter_eq_some_iff.mp hrl.symbol).2
      unfold normalizeSymbol
      rw [if_neg hne]
      exact fun hf => hne (hfl symbol hf)
    have hlot : (r.withLimits (lotAt fold (normalizeSymbol fold symbol) r)).constraint.lotSize = some 1 := by
      have hs : r.symbol = some symbol := (Option.filter_eq_some_iff.mp hrl.symbol).1
      show (if normalizeSymbol fold (r.symbol.getD "*") = _ then some (1 : ℚ) else none) = some 1
      rw [hs, Option.getD_some, if_pos rfl]
    have hn := (h (lotAt fold (normalizeSymbol fold symbol))).named _ symbol canonical _ name (ruleFor_relimit hrl)
      ⟨_, .head _, by rw [hlot]; rfl⟩ hnm ((notRedefined_relimit _).mpr hrd)
    rw [resolve_eq, lookupKey_relimit] at hn
    have hset := hn.2 _ (.head _) 1 hlot
    rw [lotSize_of_ne hsta hkey] at hset
    cases hset
  · intro name symbol hg
    have hst := standsFor_of_some hg
    by_cases hkey : lookupKey lower fold (ofRules lower fold rules) venue symbol =
        lookupKey lower fold (ofRules lower fold rules) venue name
    · exact .inl hkey
    · right
      constructor
      · by_contra hr
        exact inForce_ne hkey hr (hid _ name symbol hst).2
      · by_contra hr
        exact inForce_ne (Ne.symm hkey) hr (hid _ name symbol hst).2.symm
  · intro name hg
    have hst := standsFor_of_none hg
    have hb := hid (lotAt fold (lookupKey lower fold (ofRules lower fold rules) venue
      (lookupName lower fold (ofRules lower fold rules) venue name))) name _ hst
    generalize hs : lookupName lower fold (ofRules lower fold rules) venue name = symbol at hb ⊢
    cases hag : governing lower (ofRules lower fold rules) Prod.fst venue
        (lookupKey lower fold (ofRules lower fold rules) venue symbol) with
    | none =>
      exact (standsFor_of_none hag).symm.trans hb.1
    | some symbol' =>
      -- a rule of its own stands under the key of the symbol, and not under that of the name
      exfalso
      have hkey : lookupKey lower fold (ofRules lower fold rules) venue symbol ≠
          lookupKey lower fold (ofRules lower fold rules) venue name := by
        intro heq
        rw [heq, hg] at hag
        cases hag
      have hr : ¬ Unruled lower (ofRules lower fold rules) venue
          (lookupKey lower fold (ofRules lower fold rules) venue symbol) := by
        intro hu
        rw [governing_of_unruled hu, governing_star hg] at hag
        cases hag
      exact inForce_ne (Ne.symm hkey) hr hb.2.symm

/-- **Instrument rules apply under every name, whatever their limits are, exactly where the names are well chosen**:
then these rules do, with the more specific ones over the others. -/
theorem rulesApply_iff (lower : Lower) {fold : String → String} (hfold : ∀ s, fold s = "*" → s = "*")
    (rules : List ConstraintRule) (venue : Option String) :
    ((∀ limit, RulesApply lower fold (relimit limit rules) venue) ↔ WellNamed lower fold rules venue) ∧
    (WellNamed lower fold rules venue → RulesApply lower fold rules venue) ∧
    ∀ name, resolve lower fold (ofRules lower fold rules) venue name =
      ⟨venue, name, standsFor lower fold (ofRules lower fold rules) venue name,
        inForce lower (ofRules lower fold rules) venue (lookupKey lower fold (ofRules lower fold rules) venue name)⟩ := by
  refine ⟨⟨wellNamed_of_rulesApply hfold, rulesApply_of_wellNamed⟩, fun h => ?_, fun name => resolve_eq venue name⟩
  rw [← relimit_self rules]
  exact rulesApply_of_wellNamed h _

lemma ascii_eq_star {s : String} (h : Lower.ascii.fn s = "*") : s = "*" := by
  have hlist : s.toList.map Char.toLower = ['*'] := by
    have h' := congrArg String.toList h
    rwa [Lower.ascii, String.toList_ofList] at h'
  obtain ⟨c, hc, hlower⟩ := List.map_eq_singleton_iff.mp hlist
  rcases toLower_cases c with ⟨hu, -, hm⟩ | hs
  · rw [hlower] at hm
    have hcd : ('*' : Char).toNat = 42 := rfl
    omega
  · rw [hlower] at hs
    rw [← String.ofList_toList (s := s), hc, ← hs]

def spot : ConstraintRule := ⟨some "binance", some "BTCUSDT", none, some (1 / 1000), none, none, ["btc/usdt"]⟩

lemma wellNamed_spot : WellNamed Lower.ascii Lower.ascii.fn [spot] (some "binance") := by
  have hv : ∀ key value, (ofRules Lower.ascii Lower.ascii.fn [spot]).aliases.get? key = some value →
      value = "BTCUSDT" := by
    intro key value h
    have hall : (ofRules Lower.ascii Lower.ascii.fn [spot]).aliases.values.all (· = "BTCUSDT") := by decide +kernel
    exact of_decide_eq_true (List.all_eq_true.mp hall value (List.mem_map_of_mem (Dict.get?_eq_some.mp h)))
  have hkey : lookupKey Lower.ascii Lower.ascii.fn (ofRules Lower.ascii Lower.ascii.fn [spot]) (some "binance") "BTCUSDT" =
      "btcusdt" := by decide +kernel
  have hstored : governing Lower.ascii (ofRules Lower.ascii Lower.ascii.fn [spot]) Prod.fst (some "binance") "btcusdt" =
      some "BTCUSDT" := by decide +kernel
  have hrl : ∀ k stored, (ofRules Lower.ascii Lower.ascii.fn [spot]).rules.get? k = some stored →
      k = ("binance", "btcusdt") ∧ stored.1 = some "BTCUSDT" := by
    intro k stored h
    have hone : (ofRules Lower.ascii Lower.ascii.fn [spot]).rules.entries =
        [(("binance", "btcusdt"), (some "BTCUSDT", spot.constraint))] := by decide +kernel
    have hmem := Dict.get?_eq_some.mp h
    rw [hone, List.mem_singleton, Prod.mk.injEq] at hmem
    exact ⟨hmem.1, by rw [hmem.2]⟩
  refine ⟨?_, ?_, ?_⟩
  · intro r symbol canonical others name hru _ _
    left
    obtain ⟨⟨before, after, hsp, -⟩, hs, hc, -⟩ := hru
    have hr : r ∈ [spot] := by
      rw [hsp]
      exact List.mem_append_right _ List.mem_cons_self
    rw [List.mem_singleton.mp hr] at hs hc
    have hb : spot.specific = spot.canonical := by decide +kernel
    rw [Option.some.inj (hc.symm.trans (hb.symm.trans hs))]
  · intro name symbol hg
    left
    obtain ⟨candidate, hcn, hss⟩ := List.exists_of_findSome?_eq_some hg
    obtain ⟨stored, hget, hfst⟩ := Option.bind_eq_some_iff.mp hss
    obtain ⟨rfl, hc⟩ := hrl _ _ hget
    cases hc.symm.trans hfst
    exact (snd_of_mem_candidates (List.mem_reverse.mp hcn)).resolve_left (by decide)
  · intro name hg
    have hn : lookupName Lower.ascii Lower.ascii.fn (ofRules Lower.ascii Lower.ascii.fn [spot]) (some "binance") name =
        "BTCUSDT" ∨ lookupName Lower.ascii Lower.ascii.fn (ofRules Lower.ascii Lower.ascii.fn [spot]) (some "binance") name =
          name := by
      unfold lookupName
      cases hal : resolveSymbolAlias (ofRules Lower.ascii Lower.ascii.fn [spot])
          (normalizeVenue Lower.ascii (some "binance")) (normalizeSymbol Lower.ascii.fn name) with
      | none => exact .inr rfl
      | some value =>
        obtain ⟨key, -, hget⟩ := List.exists_of_findSome?_eq_some hal
        rw [hv key value hget]
        exact .inl rfl
    rcases hn with h | h
    · unfold lookupKey at hg hkey
      rw [h] at hg
      have hf : normalizeSymbol Lower.ascii.fn "BTCUSDT" = "btcusdt" := by decide +kernel
      cases hg
    · rw [h, h]

/-- The lot size applies under the alias. -/
theorem rulesApply_spot : RulesApply Lower.ascii Lower.ascii.fn [spot] (some "binance") ∧
    resolve Lower.ascii Lower.ascii.fn (ofRules Lower.ascii Lower.ascii.fn [spot]) (some "binance") "BTC/USDT" =
      ⟨some "binance", "BTC/USDT", "BTCUSDT", ⟨some (1 / 1000), none, none⟩⟩ :=
  ⟨(rulesApply_iff Lower.ascii (fun _ => ascii_eq_star) [spot] (some "binance")).2.1 wellNamed_spot, by decide +kernel⟩

/-- The lot size of a rule with a canonical symbol of its own is never found. -/
theorem not_rulesApply_canonical :
    ¬ RulesApply Lower.ascii Lower.ascii.fn [⟨some "binance", some "BTC", some "BTCUSDT", some (1 / 1000), none, none, []⟩]
      (some "binance") := by
  intro h
  have hnamed := h.named ⟨some "binance", some "BTC", some "BTCUSDT", some (1 / 1000), none, none, []⟩ "BTC" "BTCUSDT" [] "BTC"
    ⟨⟨[], [], rfl, rfl⟩, by decide +kernel, by decide +kernel, rfl⟩ ⟨_, .head _, rfl⟩ (by decide +kernel)
    (fun _ hr' => absurd hr' List.not_mem_nil)
  exact absurd (hnamed.2 _ (.head _) (1 / 1000) rfl) (by decide +kernel)

end Qmtl.Gateway.Instruments

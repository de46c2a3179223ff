import Qmtl.Gateway.RebalancingOrders

/-! `InstrumentConstraints`: rules for venues and symbols, the names a symbol is known by, and what a venue and a name
resolve to. -/

namespace Qmtl.Gateway.Instruments

open Lib Gateway.Rebalancing

/-! ### Rules -/

structure ConstraintRule where
  venue : Option String
  symbol : Option String
  canonicalSymbol : Option String
  lotSize : Option ℚ
  minNotional : Option ℚ
  tickSize : Option ℚ
  aliases : List String

def merge (base override : InstrumentConstraint) : InstrumentConstraint :=
  ⟨override.lotSize.or base.lotSize, override.minNotional.or base.minNotional, override.tickSize.or base.tickSize⟩

def ConstraintRule.constraint (r : ConstraintRule) : InstrumentConstraint := ⟨r.lotSize, r.minNotional, r.tickSize⟩

abbrev Key := String × String

abbrev Stored := Option String × InstrumentConstraint

structure InstrumentConstraints where
  rules : Dict Key Stored
  aliases : Dict Key String

def InstrumentConstraints.empty : InstrumentConstraints := ⟨Dict.empty, Dict.empty⟩

def ConstraintRule.canonical (r : ConstraintRule) : Option String :=
  (r.canonicalSymbol.filter (· ≠ "")).or (r.symbol.filter fun s => s ≠ "*" ∧ s ≠ "")

def ConstraintRule.specific (r : ConstraintRule) : Option String := r.symbol.filter (· ≠ "*")

section

-- `str.casefold`
variable (lower : Lower) (fold : String → String)

def normalizeVenue : Option String → String
  | none => ""
  | some venue => if venue = "*" then "*" else lower.fn venue

def normalizeSymbol (symbol : String) : String := if symbol = "*" then "*" else fold symbol

def ConstraintRule.key (r : ConstraintRule) : Key := (normalizeVenue lower r.venue, normalizeSymbol fold (r.symbol.getD "*"))

def setDefault (aliases : Dict Key String) (key : Key) (value : String) : Dict Key String :=
  match aliases.get? key with
  | some _ => aliases
  | none => aliases.set key value

def writeAliases (r : ConstraintRule) (aliases : Dict Key String) : Dict Key String :=
  r.aliases.foldl (fun acc name =>
    acc.set (normalizeVenue lower r.venue, normalizeSymbol fold name) (r.canonical.getD name)) aliases

def writeDefaults (r : ConstraintRule) (aliases : Dict Key String) : Dict Key String :=
  match r.canonical with
  | none => aliases
  | some canonical =>
    let own :=
      match r.specific with
      | none => aliases
      | some symbol => setDefault aliases (normalizeVenue lower r.venue, normalizeSymbol fold symbol) canonical
    setDefault own ("*", normalizeSymbol fold canonical) canonical

def InstrumentConstraints.addRule (table : InstrumentConstraints) (r : ConstraintRule) : InstrumentConstraints where
  rules := table.rules.set (r.key lower fold) (r.canonical, r.constraint)
  aliases := writeDefaults lower fold r (writeAliases lower fold r table.aliases)

def ofRules (rules : List ConstraintRule) : InstrumentConstraints :=
  rules.foldl (InstrumentConstraints.addRule lower fold) .empty

/-! ### Resolving a name -/

variable (table : InstrumentConstraints)

def resolveSymbolAlias (venueKey symbolKey : String) : Option String :=
  [(venueKey, symbolKey), ("", symbolKey), ("*", symbolKey)].findSome? table.aliases.get?

def lookupName (venue : Option String) (symbol : String) : String :=
  ((resolveSymbolAlias table (normalizeVenue lower venue) (normalizeSymbol fold symbol)).filter (· ≠ "")).getD symbol

def lookupKey (venue : Option String) (symbol : String) : String :=
  normalizeSymbol fold (lookupName lower fold table venue symbol)

def candidates (venueKey lookupKey : String) : List Key :=
  [("*", "*"), ("*", lookupKey), ("", "*"), ("", lookupKey), (venueKey, "*"), (venueKey, lookupKey)]

def overlay (acc rule : Stored) : Stored := (rule.1.or acc.1, merge acc.2 rule.2)

def resolve (venue : Option String) (symbol : String) : ResolvedInstrument :=
  let canonical := lookupName lower fold table venue symbol
  let found := (candidates (normalizeVenue lower venue) (normalizeSymbol fold canonical)).filterMap table.rules.get?
  let (override, constraint) := found.foldl overlay (none, ⟨none, none, none⟩)
  ⟨venue, symbol, override.getD canonical, constraint⟩

/-! ### The rule that governs -/

def governing {α : Type} (part : Stored → Option α) (venue : Option String) (key : String) : Option α :=
  (candidates (normalizeVenue lower venue) key).reverse.findSome? fun candidate => (table.rules.get? candidate).bind part

def standsFor (venue : Option String) (symbol : String) : String :=
  (governing lower table Prod.fst venue (lookupKey lower fold table venue symbol)).getD
    (lookupName lower fold table venue symbol)

def inForce (venue : Option String) (key : String) : InstrumentConstraint :=
  ⟨governing lower table (fun rule => rule.2.lotSize) venue key,
    governing lower table (fun rule => rule.2.minNotional) venue key,
    governing lower table (fun rule => rule.2.tickSize) venue key⟩

end

def Overlays {α : Type} (part : Stored → Option α) : Prop :=
  part (none, ⟨none, none, none⟩) = none ∧ ∀ acc rule, part (overlay acc rule) = (part rule).or (part acc)

lemma foldl_overlay {α : Type} {part : Stored → Option α} (h : Overlays part) (rules : List Stored) :
    part (rules.foldl overlay (none, ⟨none, none, none⟩)) = rules.reverse.findSome? part := by
  induction rules using List.reverseRecOn with
  | nil => exact h.1
  | append_singleton rules rule ih =>
    rw [List.foldl_append, List.foldl_cons, List.foldl_nil, h.2, ih, List.reverse_append, List.reverse_singleton,
      List.singleton_append, List.findSome?_cons]
    cases part rule <;> rfl

lemma findSome?_filterMap {α β γ : Type} (f : α → Option β) (g : β → Option γ) (xs : List α) :
    (xs.filterMap f).findSome? g = xs.findSome? fun x => (f x).bind g := by
  induction xs with
  | nil => rfl
  | cons x xs ih =>
    rw [List.findSome?_cons, ← ih]
    cases h : f x with
    | none => rw [List.filterMap_cons_none h]; rfl
    | some y => rw [List.filterMap_cons_some h, List.findSome?_cons]; rfl

variable {lower : Lower} {fold : String → String} {table : InstrumentConstraints}

/-- **The most specific rule governs**, for each limit and for the symbol. -/
theorem resolve_eq (venue : Option String) (symbol : String) : resolve lower fold table venue symbol =
    ⟨venue, symbol, standsFor lower fold table venue symbol,
      inForce lower table venue (lookupKey lower fold table venue symbol)⟩ := by
  have hp : ∀ {α : Type} (part : Stored → Option α), Overlays part →
      part (((candidates (normalizeVenue lower venue) (lookupKey lower fold table venue symbol)).filterMap
        table.rules.get?).foldl overlay (none, ⟨none, none, none⟩)) =
          governing lower table part venue (lookupKey lower fold table venue symbol) := by
    intro α part h
    rw [foldl_overlay h, ← List.filterMap_reverse, findSome?_filterMap]
    rfl
  have hs := hp Prod.fst ⟨rfl, fun _ _ => rfl⟩
  have hlot := hp (fun rule => rule.2.lotSize) ⟨rfl, fun _ _ => rfl⟩
  have hmin := hp (fun rule => rule.2.minNotional) ⟨rfl, fun _ _ => rfl⟩
  have ht := hp (fun rule => rule.2.tickSize) ⟨rfl, fun _ _ => rfl⟩
  unfold standsFor inForce
  rw [← hs, ← hlot, ← hmin, ← ht]
  rfl

lemma governing_of_stored {α : Type} {part : Stored → Option α} {venue : Option String} {key : String} {rule : Stored}
    {a : α} (h : table.rules.get? (normalizeVenue lower venue, key) = some rule) (ha : part rule = some a) :
    governing lower table part venue key = some a := by
  show List.findSome? _ ((normalizeVenue lower venue, key) :: _) = some a
  rw [List.findSome?_cons, h, Option.bind_some, ha]

/-! ### What a rule writes -/

def ConstraintRule.Writes (lower : Lower) (fold : String → String) (r : ConstraintRule) (key : Key) : Prop :=
  normalizeVenue lower r.venue = key.1 ∧ key.2 ∈ r.aliases.map (normalizeSymbol fold)

/-- A rule gives a name a meaning where it has none. -/
def ConstraintRule.Defaults (lower : Lower) (fold : String → String) (r : ConstraintRule) (key : Key) (value : String) :
    Prop :=
  r.canonical = some value ∧ ((∃ s, r.specific = some s ∧ key = (normalizeVenue lower r.venue, normalizeSymbol fold s)) ∨
    key = ("*", normalizeSymbol fold value))

lemma get?_setDefault (aliases : Dict Key String) (k key : Key) (value : String) :
    (setDefault aliases k value).get? key = (aliases.get? key).or (if key = k then some value else none) := by
  unfold setDefault
  cases hk : aliases.get? k with
  | some v =>
    by_cases hkey : key = k
    · rw [hkey, hk]
      rfl
    · rw [if_neg hkey, Option.or_none]
  | none =>
    rw [Dict.get?_set]
    by_cases hkey : key = k
    · rw [if_pos hkey, if_pos hkey, hkey, hk]
      rfl
    · rw [if_neg hkey, if_neg hkey, Option.or_none]

variable {r : ConstraintRule} {key : Key}

lemma get?_writeAliases_of_not (h : ¬ r.Writes lower fold key)
    (aliases : Dict Key String) : (writeAliases lower fold r aliases).get? key = aliases.get? key := by
  have hnm : ∀ name ∈ r.aliases, key ≠ (normalizeVenue lower r.venue, normalizeSymbol fold name) := by
    rintro name hna rfl
    exact h ⟨rfl, List.mem_map_of_mem hna⟩
  unfold writeAliases
  generalize r.aliases = names at hnm
  induction names generalizing aliases with
  | nil => rfl
  | cons name names ih =>
    rw [List.foldl_cons, ih _ (fun n hn => hnm n (.tail _ hn)),
      Dict.get?_set_ne _ _ (hnm name List.mem_cons_self)]

lemma get?_writeAliases_of_writes {canonical : String} (h : r.Writes lower fold key)
    (hc : r.canonical = some canonical) (aliases : Dict Key String) :
    (writeAliases lower fold r aliases).get? key = some canonical := by
  obtain ⟨hv, hn⟩ := h
  unfold writeAliases
  rw [hc]
  generalize r.aliases = names at hn
  induction names using List.reverseRecOn with
  | nil => cases hn
  | append_singleton names name ih =>
    rw [List.foldl_append, List.foldl_cons, List.foldl_nil, Dict.get?_set]
    split
    · rfl
    · rename_i hne
      rw [List.map_append, List.mem_append, List.map_singleton, List.mem_singleton] at hn
      refine ih (hn.resolve_right fun hl => hne ?_)
      rw [hv, ← hl]

lemma get?_writeDefaults {value : String} {aliases : Dict Key String} :
    (writeDefaults lower fold r aliases).get? key = some value ↔
      aliases.get? key = some value ∨ (aliases.get? key = none ∧ r.Defaults lower fold key value) := by
  unfold writeDefaults ConstraintRule.Defaults
  cases hc : r.canonical with
  | none => simp
  | some canonical =>
    rw [get?_setDefault]
    cases hs : r.specific with
    | none =>
      cases hget : aliases.get? key with
      | some v => simp
      | none =>
        simp only [Option.none_or, Option.ite_none_right_eq_some, Option.some.injEq, reduceCtorEq, false_or, true_and,
          false_and, exists_const]
        constructor
        · rintro ⟨rfl, rfl⟩
          exact ⟨rfl, rfl⟩
        · rintro ⟨rfl, rfl⟩
          exact ⟨rfl, rfl⟩
    | some symbol =>
      rw [get?_setDefault]
      cases hget : aliases.get? key with
      | some v => simp
      | none =>
        by_cases hown : key = (normalizeVenue lower r.venue, normalizeSymbol fold symbol)
        · subst hown
          simp
        · simp only [Option.none_or, if_neg hown, Option.ite_none_right_eq_some, Option.some.injEq, reduceCtorEq, false_or,
            true_and, exists_eq_left']
          rw [or_iff_right hown]
          constructor
          · rintro ⟨rfl, rfl⟩
            exact ⟨rfl, rfl⟩
          · rintro ⟨rfl, rfl⟩
            exact ⟨rfl, rfl⟩

end Qmtl.Gateway.Instruments

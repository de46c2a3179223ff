import Mathlib.Tactic

/-!
`cachetools.TTLCache` of unit-sized items: a key expires a fixed time after it was set, and when
there is no room the key set longest ago makes place. The timer's readings are passed in.
-/

namespace Qmtl.Lib

/-- The keys with the times they expire at, in the order they were set. -/
structure TtlCache (κ : Type) where
  maxsize : ℕ
  ttl : ℕ
  items : List (κ × ℕ)
  deriving DecidableEq, Repr

namespace TtlCache

variable {κ : Type} [DecidableEq κ] (c : TtlCache κ)

def contains (now : ℕ) (key : κ) : Bool := c.items.any fun p => p.1 = key && now < p.2

def set (now : ℕ) (key : κ) : Option (TtlCache κ) :=
  if c.maxsize = 0 then none
  else
    let kept := c.items.filter fun p => now < p.2
    let room := if key ∈ kept.map Prod.fst then kept.filter fun p => p.1 ≠ key
      else kept.drop (kept.length + 1 - c.maxsize)
    some { c with items := room ++ [(key, now + c.ttl)] }

variable {c} {c' : TtlCache κ} {now : ℕ} {key : κ}

lemma set_maxsize (h : c.set now key = some c') : c'.maxsize = c.maxsize ∧ c.maxsize ≠ 0 := by
  unfold set at h
  split at h
  · cases h
  · rename_i h0
    cases h
    exact ⟨rfl, h0⟩

lemma mem_of_set (h : c.set now key = some c') {p : κ × ℕ} (hp : p ∈ c'.items) : p ∈ c.items ∨ p.1 = key := by
  unfold set at h
  split at h
  · cases h
  · cases h
    simp only [List.mem_append, List.mem_singleton] at hp
    rcases hp with hp | rfl
    · left
      split at hp
      · exact List.mem_of_mem_filter (List.mem_of_mem_filter hp)
      · exact List.mem_of_mem_filter (List.mem_of_mem_drop hp)
    · exact .inr rfl

lemma contains_iff {t : ℕ} : c.contains t key ↔ ∃ p ∈ c.items, p.1 = key ∧ t < p.2 := by
  simp [contains]

lemma contains_of_set (h : c.set now key = some c') {t : ℕ} {k : κ} (hk : c'.contains t k) :
    c.contains t k ∨ k = key := by
  obtain ⟨p, hp, rfl, ht⟩ := contains_iff.mp hk
  rcases mem_of_set h hp with hp | hp
  · exact .inl (contains_iff.mpr ⟨p, hp, rfl, ht⟩)
  · exact .inr hp

end TtlCache

end Qmtl.Lib

import Mathlib.Tactic

/-!
Logs that grow: the places in them, and the newest of the versions that arrive one after another.
-/

namespace Qmtl.Lib

lemma split_append {α : Type*} {log new before after : List α} {e : α} (h : log ++ new = before ++ e :: after) :
    (∃ rest, log = before ++ e :: rest) ∨ ∃ rest, before = log ++ rest ∧ new = rest ++ e :: after := by
  rcases List.append_eq_append_iff.mp h with ⟨rest, hb, hnew⟩ | ⟨rest, hlog, hnew⟩
  · exact .inr ⟨rest, hb, hnew⟩
  · cases rest with
    | nil => exact .inr ⟨[], by rw [hlog]; simp, hnew.symm⟩
    | cons x rest =>
      obtain rfl : e = x := (List.cons.inj hnew).1
      exact .inl ⟨rest, hlog⟩

lemma split_concat {α : Type*} {log before after : List α} {e x : α} (h : log ++ [x] = before ++ e :: after) :
    (∃ rest, log = before ++ e :: rest) ∨ before = log ∧ e = x := by
  rcases split_append h with hold | ⟨rest, hb, hnew⟩
  · exact .inl hold
  · cases rest with
    | nil => exact .inr ⟨by rw [hb, List.append_nil], (List.cons.inj hnew).1.symm⟩
    | cons y rest => exact absurd (congrArg List.length hnew) (by simp)

lemma forall_split_concat {α : Type*} {log : List α} {x : α} {Q : List α → α → Prop} :
    (∀ before e after, log ++ [x] = before ++ e :: after → Q before e) ↔
      (∀ before e after, log = before ++ e :: after → Q before e) ∧ Q log x := by
  constructor
  · exact fun h => ⟨fun before e after hlog => h before e (after ++ [x]) (by simp [hlog]), h log x [] rfl⟩
  · rintro ⟨hold, hnew⟩ before e after hlog
    rcases split_concat hlog with ⟨rest, hlog⟩ | ⟨rfl, rfl⟩
    · exact hold before e rest hlog
    · exact hnew

/-! ### Versions -/

namespace Newest

variable {ν α : Type*} (f : ν → α) (a : α)

def held (vs : List ν) : α := (vs.getLast?.map f).getD a

@[simp] lemma held_nil : held f a [] = a := rfl

@[simp] lemma held_concat (vs : List ν) (v : ν) : held f a (vs ++ [v]) = f v := by
  simp [held]

variable [LinearOrder ν]

def Kept (vs : List ν) : Prop :=
  ∀ before v after, vs = before ++ v :: after → (∃ w ∈ before, v < w) → f v = held f a before

/-- An older version than the newest that has arrived says the same as that one. -/
def InOrder (vs : List ν) : Prop :=
  ∀ before v after w, vs = before ++ v :: after → IsGreatest {x | x ∈ before} w → v < w → f v = f w

variable {f a} {vs : List ν} {v w : ν}

lemma InOrder.left {vs' : List ν} (h : InOrder f (vs ++ vs')) : InOrder f vs := by
  intro before v after w hvs
  exact h before v (after ++ vs') w (by rw [hvs, List.append_assoc, List.cons_append])

/-- **The newest version is held** where the older ones say the same as it. -/
theorem held_newest (h : InOrder f vs) (hw : IsGreatest {x | x ∈ vs} w) : held f a vs = f w := by
  rcases List.eq_nil_or_concat vs with rfl | ⟨vs, v, rfl⟩
  · cases hw.1
  rw [List.concat_eq_append] at h hw ⊢
  rw [held_concat]
  rcases (hw.2 (List.mem_append_right vs (.head _))).eq_or_lt with rfl | hlt
  · rfl
  · refine h vs v [] w rfl ⟨?_, fun x hx => hw.2 (List.mem_append_left _ hx)⟩ hlt
    rcases List.mem_append.mp hw.1 with hmem | hmem
    · exact hmem
    · exact absurd (List.mem_singleton.mp hmem) (ne_of_gt hlt)

lemma inOrder_of_pairwise (h : vs.Pairwise (· ≤ ·)) : InOrder f vs := by
  intro before v after w hvs hw hlt
  rw [hvs] at h
  exact absurd ((List.pairwise_append.mp h).2.2 w hw.1 v (.head _)) (not_le_of_gt hlt)

lemma exists_isGreatest (h : v ∈ vs) : ∃ w, IsGreatest {x | x ∈ vs} w := by
  have hfin : {x | x ∈ vs}.Finite := vs.finite_toSet
  exact hfin.exists_maximal ⟨v, h⟩ |>.imp fun w hw => ⟨hw.1, fun x hx => (le_total x w).elim id fun hle => hw.2 hx hle⟩

/-- **Nothing goes back** exactly where the older versions say the same as the newest. -/
theorem kept_iff : Kept f a vs ↔ InOrder f vs := by
  constructor
  · intro h
    induction vs using List.reverseRecOn with
    | nil => exact fun before v after w hvs => absurd hvs.symm (by simp)
    | append_singleton vs x ih =>
      have hold : InOrder f vs := ih fun before v after hvs =>
        h before v (after ++ [x]) (by rw [hvs, List.append_assoc, List.cons_append])
      intro before v after w hvs hw hlt
      rcases split_concat hvs with ⟨rest, hvs⟩ | ⟨rfl, rfl⟩
      · exact hold before v rest w hvs hw hlt
      · rw [h before v after hvs ⟨w, hw.1, hlt⟩, held_newest hold hw]
  · intro h before v after hvs hn
    obtain ⟨x, hx, hlt⟩ := hn
    obtain ⟨w, hw⟩ := exists_isGreatest hx
    have hb : InOrder f before := (hvs ▸ h : InOrder f (before ++ v :: after)).left
    rw [held_newest hb hw]
    exact h before v after w hvs hw (lt_of_lt_of_le hlt (hw.2 hx))

end Newest

end Qmtl.Lib

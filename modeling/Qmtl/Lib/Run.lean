import Mathlib.Tactic

/-! Runs of a state machine: `step` answers the next state, or `none` where the event is not possible. -/

namespace Qmtl.Lib

section

variable {σ ev : Type} {step : σ → ev → Option σ} {P Q : σ → ev → Prop} {s₀ s : σ}

/-- The states reached from `s₀` by events that all meet `P`. -/
inductive Run (step : σ → ev → Option σ) (P : σ → ev → Prop) (s₀ : σ) : σ → Prop
  | init : Run step P s₀ s₀
  | next {s s' e} : Run step P s₀ s → P s e → step s e = some s' → Run step P s₀ s'

def execIf (step : σ → ev → Option σ) (p : σ → ev → Bool) (s : σ) : List ev → Option σ
  | [] => some s
  | e :: es => if p s e then (step s e).bind fun s' => execIf step p s' es else none

namespace Run

lemma trans {s₁ : σ} (h₁ : Run step P s₀ s₁) (h₂ : Run step P s₁ s) : Run step P s₀ s := by
  induction h₂ with
  | init => exact h₁
  | next _ hP hs ih => exact ih.next hP hs

lemma mono (hPQ : ∀ s e, P s e → Q s e) (h : Run step P s₀ s) : Run step Q s₀ s := by
  induction h with
  | init => exact .init
  | next _ hP hs ih => exact ih.next (hPQ _ _ hP) hs

/-- **Invariants**: what holds at first and is kept by every step holds in every state reached. -/
theorem invariant {I : σ → Prop} (h₀ : I s₀)
    (hst : ∀ s e s', I s → P s e → step s e = some s' → I s') (h : Run step P s₀ s) : I s := by
  induction h with
  | init => exact h₀
  | next _ hP hs ih => exact hst _ _ _ ih hP hs

lemma of_execIf {p : σ → ev → Bool} {es : List ev} (h : execIf step p s₀ es = some s) :
    Run step (fun s e => p s e) s₀ s := by
  induction es generalizing s₀ with
  | nil => simp only [execIf, Option.some.injEq] at h; exact h ▸ .init
  | cons e es ih =>
    simp only [execIf] at h
    split at h
    · rename_i hp
      obtain ⟨s₁, hs, hr⟩ := Option.bind_eq_some_iff.mp h
      exact trans (next .init hp hs) (ih hr)
    · cases h

end Run

lemma exists_execIf {p : σ → ev → Bool} {es : List ev} {Q : σ → Prop} (q : σ → Bool)
    (h : (execIf step p s₀ es).any q) (hQ : ∀ s, q s → Q s) : ∃ s, execIf step p s₀ es = some s ∧ Q s := by
  obtain ⟨s, hs, hq⟩ := (Option.any_eq_true q _).mp h
  exact ⟨s, hs, hQ s hq⟩

lemma exists_run (step : σ → ev → Option σ) (s₀ : σ) (p : σ → ev → Bool) (es : List ev) (q : σ → Bool)
    (h : (execIf step p s₀ es).any q) : ∃ s, Run step (fun s e => p s e) s₀ s ∧ q s := by
  obtain ⟨s, hs, hq⟩ := exists_execIf q h fun _ hq => hq
  exact ⟨s, .of_execIf hs, hq⟩

end

variable {σ ev κ ν : Type*} (step : σ → ev → σ) (look : σ → κ → Option ν) (writes : ev → κ → ν → Prop)
  (touches : ev → κ → Prop)

def Traced : Prop :=
  ∀ s e k v, look (step s e) k = some v → writes e k v ∨ (look s k = some v ∧ ¬ touches e k)

variable {step look writes touches} {s₀ : σ}

/-- **The latest write**: a value that is found was written, and its key has not been touched since. -/
theorem Traced.exists_write (h : Traced step look writes touches) (hn : ∀ k, look s₀ k = none) {es : List ev}
    {k : κ} {v : ν} (hl : look (es.foldl step s₀) k = some v) :
    ∃ before e after, es = before ++ e :: after ∧ writes e k v ∧ ∀ e' ∈ after, ¬ touches e' k := by
  induction es using List.reverseRecOn with
  | nil =>
    rw [List.foldl_nil, hn] at hl
    cases hl
  | append_singleton es e ih =>
    rw [List.foldl_append, List.foldl_cons, List.foldl_nil] at hl
    rcases h _ e k v hl with hw | ⟨hb, hu⟩
    · exact ⟨es, e, [], rfl, hw, fun e' he' => absurd he' List.not_mem_nil⟩
    · obtain ⟨before, e₁, after, rfl, hw, haf⟩ := ih hb
      refine ⟨before, e₁, after ++ [e], by simp, hw, ?_⟩
      intro e' he'
      rcases List.mem_append.mp he' with he' | he'
      · exact haf e' he'
      · obtain rfl := List.mem_singleton.mp he'
        exact hu

end Qmtl.Lib

import Qmtl.WorldService.ApplyFlow

/-!
What `freeze_world` and `unfreeze_world` leave behind: the entries by what they say, the events with
their sequence numbers, and, where a call raises on the way, the part that was done.
-/

namespace Qmtl.WorldService

open Lib Lib.Coro

variable {env : Env}

variable {c : Call} {evs : List ActivationEvent} {p : ActivationPayload} {phase : String} {ps : List ActivationPayload}
  {s s₁ s₂ : Sys}

/-- **One awaited call**: it raises without an effect, or has its effect. -/
theorem wp_call {Q : Except Exn c.Ans → Sys → Prop}
    (hr : ∀ e s', s'.world = s.world → s'.memory = s.memory → s'.raised = s.raised ++ [(c, e)] → Q (.error e) s')
    (hd : ∀ s', s'.world = (c.effect env s.world s.memory).2.1 →
      s'.memory = (c.effect env s.world s.memory).2.2 → s'.raised = s.raised →
      Q (c.effect env s.world s.memory).1 s') : wp (host env) (call c) Q s := by
  refine wp_perform.mpr ?_
  obtain ⟨world, memory, faults, raised⟩ := s
  rcases faults with - | ⟨- | e, rest⟩
  · exact hd _ rfl rfl rfl
  · exact hd _ rfl rfl rfl
  · exact hr _ _ rfl rfl rfl

lemma wp_call_bind {a : c.Ans} {β : Type} {f : c.Ans → Task β} {Q : Except Exn β → Sys → Prop}
    (ha : (c.effect env s.world s.memory).1 = .ok a)
    (hrs : ∀ e s', s'.world = s.world → s'.memory = s.memory → s'.raised = s.raised ++ [(c, e)] → Q (.error e) s')
    (hd : ∀ s', s'.world = (c.effect env s.world s.memory).2.1 →
      s'.memory = (c.effect env s.world s.memory).2.2 → s'.raised = s.raised → wp (host env) (f a) Q s') :
    wp (host env) ((call c).bind f) Q s := by
  refine wp_bind.mpr (wp_call hrs ?_)
  intro s' hw hmem hr
  rw [ha]
  exact hd s' hw hmem hr

lemma wp_memory {Q : Except Exn Memory → Sys → Prop} (h : Q (.ok s.memory) s) : wp (host env) memory Q s :=
  wp_perform.mpr h

lemma wp_modify {f : Memory → Memory} {Q : Except Exn Unit → Sys → Prop}
    (h : Q (.ok ()) { s with memory := f s.memory }) : wp (host env) (modify f) Q s :=
  wp_perform.mpr h

/-! ### What an entry says -/

/-- What an activation entry says, without its run, time and etag. -/
structure Content where
  active : Bool
  weight : ℚ
  freeze : Bool
  drain : Bool
  effectiveMode : Option String
deriving DecidableEq

def ActivationEntry.content (e : ActivationEntry) : Content :=
  ⟨e.active, e.weight, e.freeze, e.drain, e.effectiveMode⟩

def Activation.contentAt (a : Activation) (strategyId side : String) : Option Content :=
  (a.state.entryAt strategyId side).map ActivationEntry.content

def ActivationPayload.content (p : ActivationPayload) : Content where
  active := p.active
  weight := (p.weight.getD (some 1)).getD 1
  freeze := p.freeze.getD false
  drain := p.drain.getD false
  effectiveMode := p.effectiveMode

def ActivationPayload.isFor (p : ActivationPayload) (strategyId side : String) : Bool :=
  p.strategyId = strategyId && p.side = side

lemma Sides.entryAt_put (state : Sides) (sid side sid' side' : String) (e : ActivationEntry) :
    (state.put sid side e).entryAt sid' side' =
      if sid = sid' ∧ side = side' then some e else state.entryAt sid' side' := by
  unfold Sides.entryAt Sides.put
  rw [Dict.get?_set]
  by_cases hs : sid' = sid
  · subst hs
    rw [if_pos rfl, Option.bind_some, Dict.get?_set]
    by_cases hd : side' = side
    · subst hd
      rw [if_pos rfl, if_pos ⟨rfl, rfl⟩]
    · rw [if_neg hd, if_neg fun h => hd h.2.symm]
      cases state.get? sid' <;> rfl
  · rw [if_neg hs, if_neg fun h => hs h.1.symm]

lemma Activation.update_ok (a : Activation) (worldId now : String) {w : ℚ} (hw : p.weight = some (some w)) :
    ∃ entry, entry.content = p.content ∧
      a.update worldId now p = (.ok (a.version + 1, entry), ⟨a.version + 1, a.state.put p.strategyId p.side entry⟩) := by
  refine ⟨p.entry w now (etagOf worldId p.strategyId p.side (a.version + 1)), ?_, ?_⟩
  · simp [ActivationEntry.content, ActivationPayload.entry, ActivationPayload.content, hw]
  · unfold Activation.update
    rw [hw]

lemma Activation.contentAt_put {a : Activation} {entry : ActivationEntry} {version : ℕ}
    (h : entry.content = p.content) (sid side : String) :
    Activation.contentAt ⟨version, a.state.put p.strategyId p.side entry⟩ sid side =
      if p.isFor sid side then some p.content else a.contentAt sid side := by
  unfold Activation.contentAt
  rw [Sides.entryAt_put]
  by_cases hfor : p.strategyId = sid ∧ p.side = side
  · rw [if_pos hfor, if_pos (by simpa [ActivationPayload.isFor] using hfor), Option.map_some, h]
  · rw [if_neg hfor, if_neg (by simpa [ActivationPayload.isFor] using hfor)]

def lastFor (ps : List ActivationPayload) (sid side : String) : Option ActivationPayload :=
  (ps.filter fun p => p.isFor sid side).getLast?

lemma lastFor_append_singleton (ps : List ActivationPayload) (p : ActivationPayload) (sid side : String) :
    lastFor (ps ++ [p]) sid side = if p.isFor sid side then some p else lastFor ps sid side := by
  unfold lastFor
  by_cases h : p.isFor sid side
  · simp [h]
  · simp [h]

lemma lastFor_singleton (p : ActivationPayload) (sid side : String) :
    lastFor [p] sid side = if p.isFor sid side then some p else none :=
  lastFor_append_singleton [] p sid side

lemma lastFor_eq_some {sid side : String} (h : lastFor ps sid side = some p) : p ∈ ps ∧ p.isFor sid side :=
  List.mem_filter.mp (List.mem_of_getLast? h)

/-! ### Publishing -/

def Numbered (env : Env) (phase : String) (n : ℕ) (ps : List ActivationPayload) (es : List ActivationEvent) : Prop :=
  es.map (fun e => (e.strategyId, e.side, e.phase, e.sequence)) =
    if env.bus then ps.mapIdx fun i p => (p.strategyId, p.side, some phase, some (n + i + 1)) else []

def Memory.sequence (m : Memory) : ℕ := (m.run.map ApplyRunState.sequence).getD 0

def Memory.advance (m : Memory) (n : ℕ) : Memory :=
  { m with run := m.run.map fun st => { st with sequence := st.sequence + n } }

lemma Memory.advance_zero (m : Memory) : m.advance 0 = m := by
  obtain ⟨run, saved⟩ := m
  cases run <;> rfl

lemma Memory.advance_advance (m : Memory) (a b : ℕ) : (m.advance a).advance b = m.advance (a + b) := by
  obtain ⟨run, saved⟩ := m
  cases run with
  | none => rfl
  | some st => simp [Memory.advance, Nat.add_assoc]

structure Published (env : Env) (phase : String) (ps : List ActivationPayload) (s s' : Sys) : Prop where
  raised : s'.raised = s.raised
  memory : s'.memory = s.memory.advance ps.length
  decisions : s'.world.decisions = s.world.decisions
  overrides : s'.world.overrides = s.world.overrides
  content : ∀ sid side, s'.world.activation.contentAt sid side =
    ((lastFor ps sid side).map ActivationPayload.content).or (s.world.activation.contentAt sid side)
  events : s.memory.run.isSome = true →
    ∃ es, s'.world.events = s.world.events ++ es ∧ Numbered env phase s.memory.sequence ps es

def Call.publishes : Call → Bool
  | updateActivation _ => true
  | getActivation => true
  | publishActivationUpdate _ => true
  | publishSnapshot => true
  | _ => false

structure PublishFailed (ps : List ActivationPayload) (s s' : Sys) (e : Exn) : Prop where
  raised : ∃ c, c.publishes = true ∧ s'.raised = s.raised ++ [(c, e)]
  memory : ∃ n, s'.memory = s.memory.advance n
  decisions : s'.world.decisions = s.world.decisions
  overrides : s'.world.overrides = s.world.overrides
  content : ∀ sid side, s'.world.activation.contentAt sid side = s.world.activation.contentAt sid side ∨
    ∃ p ∈ ps, p.isFor sid side = true ∧ s'.world.activation.contentAt sid side = some p.content

lemma Published.refl (env : Env) (phase : String) (s : Sys) : Published env phase [] s s where
  raised := rfl
  memory := (Memory.advance_zero _).symm
  decisions := rfl
  overrides := rfl
  content := fun _ _ => rfl
  events := fun _ => ⟨[], by simp, by simp [Numbered]⟩

lemma Published.snoc (h₁ : Published env phase ps s s₁) (h₂ : Published env phase [p] s₁ s₂) :
    Published env phase (ps ++ [p]) s s₂ where
  raised := h₂.raised.trans h₁.raised
  memory := by rw [h₂.memory, h₁.memory, Memory.advance_advance, List.length_append]
  decisions := h₂.decisions.trans h₁.decisions
  overrides := h₂.overrides.trans h₁.overrides
  content := by
    intro sid side
    rw [h₂.content, h₁.content, lastFor_append_singleton, lastFor_singleton]
    split <;> rfl
  events := by
    intro hrun
    obtain ⟨es, hes, hn⟩ := h₁.events hrun
    have hr₁ : s₁.memory.run.isSome := by
      rw [h₁.memory]
      simpa [Memory.advance] using hrun
    obtain ⟨fs, hfs, hm⟩ := h₂.events hr₁
    refine ⟨es ++ fs, by rw [hfs, hes, List.append_assoc], ?_⟩
    have hseq : s₁.memory.sequence = s.memory.sequence + ps.length := by
      rw [h₁.memory]
      obtain ⟨st, hst⟩ := Option.isSome_iff_exists.mp hrun
      simp [Memory.sequence, Memory.advance, hst]
    unfold Numbered at hn hm ⊢
    rw [List.map_append, hn, hm, hseq]
    by_cases hb : env.bus
    · simp [hb, List.mapIdx_append]
    · simp [hb]

lemma Published.failed {rest : List ActivationPayload} {e : Exn} (h₁ : Published env phase ps s s₁)
    (h₂ : PublishFailed [p] s₁ s₂ e) :
    PublishFailed (ps ++ p :: rest) s s₂ e where
  raised := by
    obtain ⟨c, hc, hr⟩ := h₂.raised
    exact ⟨c, hc, by rw [hr, h₁.raised]⟩
  memory := by
    obtain ⟨n, hn⟩ := h₂.memory
    exact ⟨ps.length + n, by rw [hn, h₁.memory, Memory.advance_advance]⟩
  decisions := h₂.decisions.trans h₁.decisions
  overrides := h₂.overrides.trans h₁.overrides
  content := by
    intro sid side
    rcases h₂.content sid side with h | ⟨q, hq, hfor, h⟩
    · rw [h, h₁.content]
      cases hl : lastFor ps sid side with
      | none => exact .inl rfl
      | some q =>
        obtain ⟨hmem, hfor⟩ := lastFor_eq_some hl
        exact .inr ⟨q, by simp [hmem], hfor, rfl⟩
    · obtain rfl : q = p := by simpa using hq
      exact .inr ⟨q, by simp, hfor, h⟩

/-- The entry of a payload is written, and the events `evs` are on the bus. -/
structure Written (p : ActivationPayload) (evs : List ActivationEvent) (s s' : Sys) : Prop where
  memory : s'.memory = s.memory.advance 1
  decisions : s'.world.decisions = s.world.decisions
  overrides : s'.world.overrides = s.world.overrides
  events : s'.world.events = s.world.events ++ evs
  content : ∀ sid side, s'.world.activation.contentAt sid side =
    if p.isFor sid side then some p.content else s.world.activation.contentAt sid side

lemma Written.failed {e : Exn} (h : Written p evs s s₁) (hc : c.publishes = true) (hw : s₂.world = s₁.world)
    (hmem : s₂.memory = s₁.memory) (hr : s₂.raised = s.raised ++ [(c, e)]) : PublishFailed [p] s s₂ e where
  raised := ⟨c, hc, hr⟩
  memory := ⟨1, hmem.trans h.memory⟩
  decisions := by rw [hw, h.decisions]
  overrides := by rw [hw, h.overrides]
  content := by
    intro sid side
    rw [hw, h.content]
    by_cases hfor : p.isFor sid side
    · exact .inr ⟨p, by simp, hfor, if_pos hfor⟩
    · exact .inl (if_neg hfor)

lemma Written.published (h : Written p evs s s₁) (hw : s₂.world = s₁.world) (hmem : s₂.memory = s₁.memory)
    (hr : s₂.raised = s.raised) (hevs : s.memory.run.isSome → Numbered env phase s.memory.sequence [p] evs) :
    Published env phase [p] s s₂ where
  raised := hr
  memory := hmem.trans h.memory
  decisions := by rw [hw, h.decisions]
  overrides := by rw [hw, h.overrides]
  content := by
    intro sid side
    rw [hw, h.content, lastFor_singleton]
    split <;> rfl
  events := fun hrun => ⟨evs, by rw [hw, h.events], hevs hrun⟩

lemma wp_publishSnapshot (h : Written p evs s s₁) (hrs : s₁.raised = s.raised)
    (hevs : s.memory.run.isSome → Numbered env phase s.memory.sequence [p] evs) :
    wp (host env) (call .publishSnapshot)
      (ends (fun _ s' => Published env phase [p] s s') fun e s' => PublishFailed [p] s s' e) s₁ := by
  refine wp_call ?_ ?_
  · intro e s' hw hmem hr
    exact h.failed rfl hw hmem (by rw [hr, hrs])
  · intro s' hw hmem hr
    exact h.published hw hmem (by rw [hr, hrs]) hevs

lemma Written.event {ev : ActivationEvent} (h : Written p [] s s₁)
    (hw : s₂.world = { s₁.world with events := s₁.world.events ++ [ev] }) (hmem : s₂.memory = s₁.memory) :
    Written p [ev] s s₂ where
  memory := hmem.trans h.memory
  decisions := by rw [hw, h.decisions]
  overrides := by rw [hw, h.overrides]
  events := by rw [hw, h.events, List.append_nil]
  content := by
    intro sid side
    rw [hw]
    exact h.content sid side

lemma wp_publishEntry {ev : ActivationEvent} (h : Written p [] s s₁) (hrs : s₁.raised = s.raised)
    (hsid : ev.strategyId = p.strategyId) (hside : ev.side = p.side) (hp : ev.phase = some phase)
    (hseq : s.memory.run.isSome → ev.sequence = some (s.memory.sequence + 1)) : wp (host env) (publishEntry env ev)
      (ends (fun _ s' => Published env phase [p] s s') fun e s' => PublishFailed [p] s s' e) s₁ := by
  unfold publishEntry
  by_cases hb : env.bus
  · rw [if_pos hb]
    refine wp_call_bind rfl ?_ ?_
    · intro e s' hw hm hr
      exact h.failed rfl hw hm (by rw [hr, hrs])
    · intro s₂ hw₂ hm₂ hr₂
      refine wp_call_bind rfl ?_ ?_
      · intro e s' hw hm hr
        exact h.failed rfl (hw.trans hw₂) (hm.trans hm₂) (by rw [hr, hr₂, hrs])
      · intro s₃ hw₃ hm₃ hr₃
        have hw : s₃.world = { s₁.world with events := s₁.world.events ++ [ev] } := by
          simp [hw₃, hw₂, Call.effect]
        refine wp_publishSnapshot (h.event hw (hm₃.trans hm₂)) (by rw [hr₃, hr₂, hrs]) ?_
        intro hrun
        simp [Numbered, hb, hsid, hside, hp, hseq hrun]
  · rw [if_neg hb]
    refine wp_publishSnapshot h hrs ?_
    intro _
    simp [Numbered, hb]

/-- **One round** of the loops. -/
theorem wp_publishUpdate {w : ℚ} (hw : p.weight = some (some w)) (s : Sys) :
    wp (host env) (publishUpdate env phase p)
      (ends (fun _ s' => Published env phase [p] s s') fun e s' => PublishFailed [p] s s' e) s := by
  obtain ⟨entry, hc, hu⟩ := Activation.update_ok s.world.activation env.worldId (env.now s.world) hw
  unfold publishUpdate nextSequence updateActivationState
  simp only [bind_eq, pure_eq]
  rw [wp_bind, wp_bind]
  refine wp_modify ?_
  rw [ends_ok, wp_bind]
  refine wp_memory ?_
  rw [ends_ok, wp_ret, ends_ok, wp_bind]
  refine wp_call ?_ ?_
  · intro e s' hwr hmem hr
    exact ⟨⟨_, rfl, hr⟩, ⟨1, hmem⟩, by rw [hwr], by rw [hwr], fun sid side => .inl (by rw [hwr])⟩
  · intro s₁ hwr hmem hr
    simp only [Call.effect, hu] at hwr hmem ⊢
    have hwri : Written p [] s s₁ := by
      refine ⟨hmem, by rw [hwr], by rw [hwr], by rw [hwr, List.append_nil], ?_⟩
      intro sid side
      rw [hwr]
      exact Activation.contentAt_put hc sid side
    refine wp_publishEntry hwri hr rfl rfl rfl ?_
    intro hrun
    obtain ⟨st, hst⟩ := Option.isSome_iff_exists.mp hrun
    simp [Memory.sequence, hst]

/-- **The loops**: all payloads are published in order, or a call raises on the way. -/
theorem wp_publishAll (hw : ∀ p ∈ ps, ∃ w, p.weight = some (some w)) (s : Sys) :
    wp (host env) (forEach (publishUpdate env phase) ps)
      (ends (fun _ s' => Published env phase ps s s') fun e s' => PublishFailed ps s s' e) s := by
  have hs : ∀ done p rest s₁, (ps = done ++ p :: rest ∧ Published env phase done s s₁) →
      wp (host env) (publishUpdate env phase p) (ends
        (fun _ s' => ps = (done ++ [p]) ++ rest ∧ Published env phase (done ++ [p]) s s')
        fun e s' => PublishFailed ps s s' e) s₁ := by
    intro done p rest s₁ h
    obtain ⟨hps, hd⟩ := h
    obtain ⟨w, hpw⟩ := hw p (by simp [hps])
    refine wp_mono (wp_publishUpdate hpw s₁) ?_
    intro r s' hr
    refine ends_mono hr ?_ ?_
    · intro _ hp
      exact ⟨by simp [hps], hd.snoc hp⟩
    · intro e hp
      rw [hps]
      exact hd.failed hp
  refine wp_mono (wp_forEach (I := fun done rest s' => ps = done ++ rest ∧ Published env phase done s s')
    hs ⟨rfl, Published.refl env phase s⟩) ?_
  intro r s' hr
  exact ends_mono hr (fun _ h => h.2) fun _ h => h

end Qmtl.WorldService

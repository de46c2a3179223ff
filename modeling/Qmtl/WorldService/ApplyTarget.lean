import Qmtl.WorldService.ApplyOutcome

/-!
A run that succeeds installs its target: the decisions, the activation of every entry, and the events
that say so. A call for the run that is registered is answered from the registry, whatever became of that
run.
-/

namespace Qmtl.WorldService

open Lib Lib.Coro

variable {env : Env} {ctx : ApplyContext}

/-! ### The entries -/

variable {es : List ActivationEvent} {n : ℕ} {o₀ : Dict (String × String) Override} {phase sid : String}
  {ps : List ActivationPayload} {s s' : Sys}

lemma Sides.mem_items {state : Sides} {side : String} {e : ActivationEntry} :
    (sid, side, e) ∈ state.items ↔ state.entryAt sid side = some e := by
  unfold Sides.items Sides.entryAt
  rw [List.mem_flatMap, Option.bind_eq_some_iff]
  constructor
  · rintro ⟨⟨sid', sides⟩, hs, hmem⟩
    obtain ⟨⟨side', e'⟩, he', heq⟩ := List.mem_map.mp hmem
    obtain ⟨rfl, rfl, rfl⟩ := heq
    exact ⟨sides, Dict.get?_eq_some.mpr hs, Dict.get?_eq_some.mpr he'⟩
  · rintro ⟨sides, hs, he⟩
    exact ⟨(sid, sides), Dict.get?_eq_some.mp hs, List.mem_map.mpr ⟨(side, e), Dict.get?_eq_some.mp he, rfl⟩⟩

def Activation.Unseen (a : Activation) (sid : String) : Prop := ∀ side, a.state.entryAt sid side = none

/-- What a run that succeeds leaves under a strategy and a side. -/
structure Installs (target : List String) (a : Activation) (sid side : String) (c : Option Content) : Prop where
  seen : ∀ e, a.state.entryAt sid side = some e → c = some ⟨target.contains sid, e.weight, false, false, e.effectiveMode⟩
  unseen : a.Unseen sid → sid ∈ target → side = "long" → c = some ⟨true, 1, false, false, none⟩
  none : a.state.entryAt sid side = none → ¬(a.Unseen sid ∧ sid ∈ target ∧ side = "long") → c = none

lemma ActivationPayload.isFor_iff {p : ActivationPayload} {side : String} :
    p.isFor sid side ↔ p.strategyId = sid ∧ p.side = side := by
  simp [ActivationPayload.isFor]

lemma lastFor_eq_none {side : String} (h : lastFor ps sid side = none) :
    ∀ p ∈ ps, ¬(p.strategyId = sid ∧ p.side = side) := by
  intro p hp hfor
  have hmem : p ∈ ps.filter fun p => p.isFor sid side :=
    List.mem_filter.mpr ⟨hp, ActivationPayload.isFor_iff.mpr hfor⟩
  rw [List.getLast?_eq_none_iff.mp h] at hmem
  exact nomatch hmem

lemma mem_unfreezePayloads {runId : String} {state : Sides} {target : List String} {p : ActivationPayload} :
    p ∈ unfreezePayloads env runId state target ↔ (∃ item ∈ state.items, p = unfreezePayload runId target item) ∨
      (∃ sid ∈ target, (∀ side, state.entryAt sid side = none) ∧ p = activatePayload runId sid) := by
  have hite : ∀ sid, sid ∈ env.iterate target ↔ sid ∈ target := by
    intro sid
    rw [(env.iterate_perm target).mem_iff, List.mem_dedup]
  have hs : ∀ sid, (state.items.all fun item => item.1 ≠ sid) ↔ ∀ side, state.entryAt sid side = none := by
    intro sid
    rw [List.all_eq_true]
    constructor
    · intro h side
      by_contra hne
      obtain ⟨e, he⟩ := Option.ne_none_iff_exists'.mp hne
      have := h _ (Sides.mem_items.mpr he)
      simp at this
    · intro h item hit
      have he := Sides.mem_items.mp hit
      simp only [decide_eq_true_eq]
      rintro rfl
      rw [h] at he
      exact nomatch he
  unfold unfreezePayloads
  rw [List.mem_append, List.mem_map, List.mem_map]
  refine or_congr ?_ ?_
  · constructor
    · rintro ⟨item, hit, rfl⟩
      exact ⟨item, hit, rfl⟩
    · rintro ⟨item, hit, rfl⟩
      exact ⟨item, hit, rfl⟩
  · constructor
    · rintro ⟨sid, hsid, rfl⟩
      obtain ⟨hmem, hall⟩ := List.mem_filter.mp hsid
      exact ⟨sid, (hite sid).mp hmem, (hs sid).mp hall, rfl⟩
    · rintro ⟨sid, hmem, hall, rfl⟩
      exact ⟨sid, List.mem_filter.mpr ⟨(hite sid).mpr hmem, (hs sid).mpr hall⟩, rfl⟩

lemma StagesDone.installs (h : StagesDone env ctx o₀ s s') (hs : ctx.snapshot = s.world.activation)
    (sid side : String) :
    Installs ctx.target s.world.activation sid side (s'.world.activation.contentAt sid side) := by
  have hc := h.content sid side
  rw [hs] at hc
  rw [hc]
  cases hl : lastFor (unfreezePayloads env ctx.runId s.world.activation.state ctx.target) sid side with
  | some p =>
    obtain ⟨hp, hfor⟩ := lastFor_eq_some hl
    obtain ⟨hsid, hside⟩ := ActivationPayload.isFor_iff.mp hfor
    rcases mem_unfreezePayloads.mp hp with ⟨⟨sid', side', e⟩, hit, rfl⟩ | ⟨sid', htarget, hun, rfl⟩
    · -- the strategy had an entry on this side
      obtain rfl : sid' = sid := hsid
      obtain rfl : side' = side := hside
      have he := Sides.mem_items.mp hit
      refine ⟨?_, ?_, ?_⟩
      · intro e' he'
        rw [he] at he'
        rw [← Option.some.inj he']
        rfl
      · intro hu
        rw [hu side'] at he
        exact nomatch he
      · intro hn
        rw [hn] at he
        exact nomatch he
    · -- it had none at all
      obtain rfl : sid' = sid := hsid
      obtain rfl : "long" = side := hside
      refine ⟨?_, ?_, ?_⟩
      · intro e he
        rw [hun] at he
        exact nomatch he
      · intro _ _ _
        rfl
      · intro _ hnot
        exact absurd ⟨hun, htarget, rfl⟩ hnot
  | none =>
    have hn := lastFor_eq_none hl
    have hen : s.world.activation.state.entryAt sid side = none := by
      by_contra hne
      obtain ⟨e, he⟩ := Option.ne_none_iff_exists'.mp hne
      exact hn _ (mem_unfreezePayloads.mpr (.inl ⟨_, Sides.mem_items.mpr he, rfl⟩)) ⟨rfl, rfl⟩
    have hfr : lastFor (s.world.activation.state.items.map (freezePayload ctx.runId)) sid side = none := by
      cases hf : lastFor (s.world.activation.state.items.map (freezePayload ctx.runId)) sid side with
      | none => rfl
      | some p =>
        obtain ⟨hp, hfor⟩ := lastFor_eq_some hf
        obtain ⟨⟨sid', side', e⟩, hit, rfl⟩ := List.mem_map.mp hp
        obtain ⟨hsid, hside⟩ := ActivationPayload.isFor_iff.mp hfor
        obtain rfl : sid' = sid := hsid
        obtain rfl : side' = side := hside
        rw [Sides.mem_items, hen] at hit
        exact nomatch hit
    refine ⟨?_, ?_, ?_⟩
    · intro e he
      rw [hen] at he
      exact nomatch he
    · rintro hun htarget rfl
      exact (hn _ (mem_unfreezePayloads.mpr (.inr ⟨sid, htarget, hun, rfl⟩)) ⟨rfl, rfl⟩).elim
    · intro _ _
      rw [hfr]
      simp [Activation.contentAt, hen]

/-! ### The events -/

lemma Numbered.length (h : Numbered env phase n ps es) : es.length = if env.bus then ps.length else 0 := by
  have := congrArg List.length h
  rw [List.length_map] at this
  rw [this]
  split
  · exact List.length_mapIdx
  · rfl

lemma Numbered.sequences (h : Numbered env phase n ps es) :
    es.map ActivationEvent.sequence = (List.range' (n + 1) es.length).map some := by
  have hseq : es.map ActivationEvent.sequence =
      (es.map fun e => (e.strategyId, e.side, e.phase, e.sequence)).map fun q => q.2.2.2 := by
    rw [List.map_map]
    rfl
  rw [hseq, h, h.length]
  by_cases hb : env.bus
  · rw [if_pos hb, if_pos hb]
    refine List.ext_getElem (by simp) ?_
    intro i _ _
    simp
    omega
  · rw [if_neg hb, if_neg hb]
    rfl

lemma Numbered.phases (h : Numbered env phase n ps es) : ∀ e ∈ es, e.phase = some phase := by
  intro e he
  have hmem := List.mem_map_of_mem (f := fun e : ActivationEvent => (e.strategyId, e.side, e.phase, e.sequence)) he
  rw [h] at hmem
  split at hmem
  · obtain ⟨i, hi, heq⟩ := List.mem_mapIdx.mp hmem
    simp only [Prod.mk.injEq] at heq
    exact heq.2.2.1.symm
  · exact nomatch hmem

/-- The world stands at `target`. -/
structure StandsAt (target : List String) (w : World) : Prop where
  decisions : w.decisions = target
  entries : ∀ sid side e, w.activation.state.entryAt sid side = some e →
    e.freeze = false ∧ e.drain = false ∧ (e.active = true ↔ sid ∈ target)
  covered : ∀ sid ∈ target, ∃ side e, w.activation.state.entryAt sid side = some e ∧ e.active = true

/-- What a call that succeeds makes of the world `w`. -/
structure Installed (target : List String) (w w' : World) : Prop extends StandsAt target w' where
  weights : ∀ sid side e, w.activation.state.entryAt sid side = some e →
    ∃ e', w'.activation.state.entryAt sid side = some e' ∧ e'.weight = e.weight
  events : ∃ fs us, w'.events = w.events ++ (fs ++ us) ∧
    (fs ++ us).map ActivationEvent.sequence = (List.range' 1 (fs ++ us).length).map some ∧
    (∀ e ∈ fs, e.phase = some "freeze") ∧ ∀ e ∈ us, e.phase = some "unfreeze"

lemma StagesDone.numbered (h : StagesDone env ctx o₀ s s') :
    ∃ fs us, s'.world.events = s.world.events ++ (fs ++ us) ∧
      (fs ++ us).map ActivationEvent.sequence = (List.range' 1 (fs ++ us).length).map some ∧
      (∀ e ∈ fs, e.phase = some "freeze") ∧ ∀ e ∈ us, e.phase = some "unfreeze" := by
  obtain ⟨fs, us, hev, hf, hu⟩ := h.events
  refine ⟨fs, us, hev, ?_, hf.phases, hu.phases⟩
  rw [List.map_append, hf.sequences, hu.sequences, List.length_append, ← List.range'_append_1, List.map_append]
  congr 2
  -- the unfreezes go on where the freezes have ended, if there are any
  have hfl := hf.length
  have hul := hu.length
  by_cases hb : env.bus
  · rw [if_pos hb, List.length_map] at hfl
    rw [hfl, Nat.add_comm]
  · rw [if_neg hb] at hul
    rw [hul]
    rfl

lemma StagesDone.installed (h : StagesDone env ctx o₀ s s') (hs : ctx.snapshot = s.world.activation) :
    Installed ctx.target s.world s'.world where
  decisions := h.decisions
  entries := by
    intro sid side e he
    have hat := h.installs hs sid side
    have hc : s'.world.activation.contentAt sid side = some e.content := by
      simp [Activation.contentAt, he]
    rw [hc] at hat
    cases hb : s.world.activation.state.entryAt sid side with
    | some e₀ =>
      have := Option.some.inj (hat.seen e₀ hb)
      simp only [ActivationEntry.content, Content.mk.injEq] at this
      obtain ⟨hactive, -, hf, hd, -⟩ := this
      exact ⟨hf, hd, by rw [hactive]; simp⟩
    | none =>
      by_cases hu : s.world.activation.Unseen sid ∧ sid ∈ ctx.target ∧ side = "long"
      · have := Option.some.inj (hat.unseen hu.1 hu.2.1 hu.2.2)
        simp only [ActivationEntry.content, Content.mk.injEq] at this
        obtain ⟨hactive, -, hf, hd, -⟩ := this
        exact ⟨hf, hd, by simp [hactive, hu.2.1]⟩
      · exact absurd (hat.none hb hu) (Option.some_ne_none _)
  covered := by
    intro sid hsid
    have hactive : ∃ side c, s'.world.activation.contentAt sid side = some c ∧ c.active := by
      by_cases hu : s.world.activation.Unseen sid
      · exact ⟨"long", _, (h.installs hs sid "long").unseen hu hsid rfl, rfl⟩
      · obtain ⟨side, hne⟩ := not_forall.mp hu
        obtain ⟨e, he⟩ := Option.ne_none_iff_exists'.mp hne
        exact ⟨side, _, (h.installs hs sid side).seen e he, List.contains_iff_mem.mpr hsid⟩
    obtain ⟨side, c, hc, hca⟩ := hactive
    obtain ⟨e, he, rfl⟩ := Option.map_eq_some_iff.mp hc
    exact ⟨side, e, he, hca⟩
  weights := by
    intro sid side e he
    have hc := (h.installs hs sid side).seen e he
    obtain ⟨e', he', hc'⟩ := Option.map_eq_some_iff.mp hc
    exact ⟨e', he', congrArg Content.weight hc'⟩
  events := h.numbered

lemma installed_self {target : List String} {w : World} : Installed target w w ↔ StandsAt target w := by
  constructor
  · intro h
    exact h.toStandsAt
  · intro h
    exact ⟨h, fun _ _ e he => ⟨e, he, rfl⟩, [], [], by simp, rfl, by simp, by simp⟩

/-- The target of a call: that of the run registered under its id, or what the evaluator picks. -/
def targetOf (env : Env) (payload : ApplyRequest) (s : Sys) : Except Exn (List String) :=
  match s.memory.run with
  | some st => if st.runId = payload.runId then .ok st.active else determineActive env s.world payload
  | none => determineActive env s.world payload

lemma targetOf_other {payload : ApplyRequest} (h : ∀ st ∈ s.memory.run, st.runId ≠ payload.runId) :
    targetOf env payload s = determineActive env s.world payload := by
  unfold targetOf
  cases hr : s.memory.run with
  | none => rfl
  | some st => exact if_neg (h st hr)

/-- **When `apply` installs its target.** A call that succeeds has installed the target, and the same run
is from then on answered the same, exactly if its run id is not the registered one or the world stands at
the target of that run already: the registry answers also for a run that failed before it installed
anything. -/
theorem apply_installs_iff (env : Env) (payload : ApplyRequest) (gating : Option GatingPolicy) (s s' : Sys)
    (ack : ApplyAck) (h : exec (host env) (apply env payload gating) s = (.ok ack, s')) (hok : ack.ok = true) :
    (targetOf env payload s = .ok ack.active ∧ Installed ack.active s.world s'.world ∧
      ∀ (payload' : ApplyRequest) (gating' : Option GatingPolicy) (s'' : Sys), payload'.runId = payload.runId →
        s''.memory.run = s'.memory.run → exec (host env) (apply env payload' gating') s'' = (.ok ack, s'')) ↔
      ∀ st, s.memory.run = some st → st.runId = payload.runId → StandsAt st.active s.world := by
  have hwp := (wp_apply payload gating s).of_exec h
  rcases hwp with ⟨st, hrun, hid, rfl, rfl⟩ | ⟨s₀, h₀, plan, target, -, htarget, hdone⟩
  · have hactive : (answerOf st).active = st.active := by
      unfold answerOf
      split <;> rfl
    rw [hactive, installed_self]
    constructor
    · rintro ⟨-, hst, -⟩ st' hrun' -
      rw [hrun] at hrun'
      rwa [← Option.some.inj hrun']
    · intro hst
      refine ⟨by simp [targetOf, hrun, hid], hst st hrun hid, ?_⟩
      intro payload' gating' s'' hid' hrun'
      exact exec_apply_of_registered (hrun'.trans hrun) (hid.trans hid'.symm)
  · obtain ⟨s₁, s₂, hstarted, hstages, hworld⟩ := hdone.stages
    obtain ⟨n, hrun⟩ := hdone.run
    rw [hdone.ack]
    have hw₁ : s₁.world = s.world := hstarted.world.trans h₀.world
    refine iff_of_true ⟨?_, ?_, ?_⟩ fun st hst hid => absurd hid (h₀.other st hst)
    · rw [targetOf_other h₀.other, ← h₀.world]
      exact htarget
    · rw [hworld, ← hw₁]
      exact hstages.installed (by rw [hstarted.world]; rfl)
    · intro payload' gating' s'' hid hrun''
      rw [hrun] at hrun''
      rw [exec_apply_of_registered hrun'' hid.symm]
      rfl

/-- A strategy gives way to another. -/
def handover : Sys :=
  { Sys.fresh [] with
    world := ⟨["a"], ⟨1, Dict.empty.set "a" (Dict.empty.set "long"
      ⟨true, 1 / 2, false, false, none, none, "2025-01-01T00:00:00Z", "act:w:a:long:1"⟩)⟩, Dict.empty, []⟩ }

theorem apply_installs_handover : Installed ["b"] handover.world
      (exec (host (.still true ["b"])) (apply (.still true ["b"]) ⟨"r", none, none⟩ none) handover).2.world := by
  have h := apply_installs_iff (.still true ["b"]) ⟨"r", none, none⟩ none handover _ ⟨true, "r", ["b"], .completed⟩
    (Prod.ext rfl rfl) rfl
  refine (h.mpr ?_).2.1
  intro st hrun
  cases hrun

/-- The record of the request raises, and the run is stuck; a second call for it succeeds, with nothing
installed. -/
theorem apply_answers_stuck :
    ∃ e s ack, exec (host (.still true ["b"])) (apply (.still true ["b"]) ⟨"r", none, none⟩ none)
        { handover with faults := [none, none, none, some (.error "store is down")] } = (.error e, s) ∧
      exec (host (.still true ["b"])) (apply (.still true ["b"]) ⟨"r", none, none⟩ none) s = (.ok ack, s) ∧
      ack.ok ∧ ack.active = ["b"] ∧ ¬Installed ack.active s.world s.world := by
  refine ⟨_, _, ⟨true, "r", ["b"], .requested⟩, rfl, rfl, rfl, rfl, ?_⟩
  intro h
  have hd : ["a"] = ["b"] := h.decisions
  simp at hd

end Qmtl.WorldService

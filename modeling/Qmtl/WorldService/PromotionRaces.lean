import Qmtl.WorldService.Promotions

/-! Any number of promotion requests on a world. -/

namespace Qmtl.WorldService.Promotion

open Lib WorldService

section

variable (env : Env)

/-! ### Requests -/

/-- A request; an apply is made without force. -/
inductive Request where
  | approve (key : Key) (reason actor : String) (timestamp : Option String)
  | reject (key : Key) (reason actor timestamp : Option String)
  | apply (key : Key) (applyRunId : String)
  | autoApply

def Request.code : Request → Task Response
  | approve key reason actor timestamp => do
    let run ← postLivePromotionApprove env key reason actor timestamp
    return .run run
  | reject key reason actor timestamp => do
    let run ← postLivePromotionReject env key reason actor timestamp
    return .run run
  | apply key applyRunId => postLivePromotionApply env key applyRunId false
  | autoApply => postLivePromotionAutoApply env

/-- What has been done: a run was read, a status was recorded as an override, the decisions were set, or an apply was
recorded as completed. -/
inductive Entry where
  | read (call : ℕ) (key : Key) (run : EvaluationRun)
  | overridden (key : Key) (status : String)
  | switched
  | completed

structure Runs where
  table : Dict Key EvaluationRun
  keyed : ∀ key run, table.get? key = some run → (run.strategyId, run.runId) = key

def Runs.get? (runs : Runs) (key : Key) : Option EvaluationRun := runs.table.get? key

def Runs.put (runs : Runs) (run : EvaluationRun) : Runs where
  table := runs.table.set (run.strategyId, run.runId) run
  keyed := by
    intro key run' h
    rw [Dict.get?_set] at h
    split at h
    · rename_i hkey
      rw [← Option.some.inj h, hkey]
    · exact runs.keyed key run' h

structure Switch where
  decisions : List String
  runs : Runs
  completed : List ℤ
  clock : ℤ

structure Sys where
  world : World
  memory : Memory
  locked : Bool
  runs : Runs
  completed : List ℤ
  clock : ℤ
  log : List Entry
  switches : List Switch

/-- What a step is given: the time, its text, and whether the hub has a fresh snapshot. -/
structure Choice where
  now : ℤ
  iso : String
  fresh : Bool

def overrideRun (now : String) (run : EvaluationRun) (override : Fields) : EvaluationRun :=
  run.overridden override (((override.get "timestamp").or (.str now)).toStr env.builtins)

def Sys.note (s : Sys) (e : Entry) : Sys := { s with log := s.log ++ [e] }

def Sys.record (s : Sys) : Call → Sys
  | .setDecisions strategies =>
    { s with switches := s.switches ++ [Switch.mk strategies s.runs s.completed s.clock] }.note .switched
  | .recordApplyStage .completed => { s with completed := s.completed ++ [s.clock / 1000000 * 1000000] }.note .completed
  | _ => s

/-- A step of `apply`. -/
def performService (o : WorldService.Op) (s : Sys) : Except Exn o.Ans × Sys :=
  match o with
  | .read => (.ok s.memory, s)
  | .write f => (.ok (), { s with memory := f s.memory })
  | .call c =>
    let r := c.effect env.service s.world s.memory
    (r.1, { s.record c with world := r.2.1, memory := r.2.2 })

def perform (i : ℕ) (o : Op) (e : Choice) (s₀ : Sys) : Except Exn o.Ans × Sys :=
  let s := { s₀ with clock := e.now }
  match o with
  | .getDefaultPolicy => (.ok env.governance, s)
  | .getEvaluationRun key =>
    match s.runs.get? key with
    | none => (.ok none, s)
    | some run => (.ok (some run), s.note (.read i key run))
  | .listEvaluationRuns => (.ok (s.runs.table.entries.map Prod.snd), s)
  | .getAudit => (.ok (s.completed, e.now), s)
  | .latestSnapshot => (.ok e.fresh, s)
  | .recordEvaluationOverride key override =>
    match s.runs.get? key with
    | none => (.error (.error "evaluation run not found"), s)
    | some old =>
      let run := overrideRun env e.iso old override
      (.ok run, { s with runs := s.runs.put run }.note (.overridden key (overrideStatus env run.summary)))
  | .publishEvaluationRunUpdated => (.ok (), s)
  | .utcNow => (.ok e.iso, s)
  | .acquire => (.ok (), { s with locked := true })
  | .release => (.ok (), { s with locked := false })
  | .service o => performService env o s

abbrev Requests := Config Op Op.Ans Exn Response Sys Request
abbrev Event := Lib.Event Choice Empty Request

def system : System Op Op.Ans Exn Response Sys Choice Empty Request where
  code := Request.code env
  perform := perform env
  disturb x := nomatch x
  may c ev :=
    match ev with
    | .resume i e => decide (c.store.clock ≤ e.now) &&
      match c.calls[i]? with
      | some (_, .await .acquire _) => !c.store.locked
      | _ => true
    | _ => true

def start (world : World) (memory : Memory) (runs : Runs) (completed : List ℤ) (clock : ℤ) : Requests :=
  ⟨⟨world, memory, false, runs, completed, clock, [], []⟩, []⟩

/-- A run that may be promoted, with the decisions it is promoted to. -/
structure Promotable (run : EvaluationRun) (decisions : List String) : Prop where
  paper : lower env run.stage = "paper"
  passed : summaryStatus env run.summary ∈ ["pass", "warn"]
  active : ∃ active, activeSet run.summary = some active ∧ decisions = names active
  notRejected : overrideStatus env run.summary ≠ "rejected"
  approved : modeOf env env.governance = "manual_approval" → overrideStatus env run.summary = "approved"

/-- **The policy allows a switch**: the decisions are those of a run that may be promoted as it is then, they are not
too many, and the completed applies are long enough ago. -/
structure Allowed (sw : Switch) : Prop where
  run : ∃ key run, sw.runs.get? key = some run ∧ Promotable env run sw.decisions
  slots : ∀ n ∈ env.governance.maxLiveSlots, (sw.decisions.length : ℤ) ≤ n
  cooldown : ∀ seconds, cooldownSeconds env env.governance = .ok (some seconds) → 0 < seconds →
    ∀ t ∈ sw.completed, t + seconds * 1000000 ≤ sw.clock

def Entry.isReadBy (i : ℕ) : Entry → Bool
  | .read j _ _ => j = i
  | _ => false

def sinceRead (i : ℕ) (log : List Entry) : List Entry := log.dropWhile fun e => !e.isReadBy i

/-- What may come between a promotion's first look at its run and its change of the decisions: no rejection of the run,
no change of the decisions, and no apply that completes. -/
def Entry.isQuiet (key : Key) : Entry → Bool
  | .read _ _ _ => true
  | .overridden key' status => !(key' = key && status = "rejected")
  | .switched => false
  | .completed => false

def steady (s : Sys) (i : ℕ) : Bool :=
  (match sinceRead i s.log with
    | .read _ key run :: rest => overrideStatus env run.summary ≠ "rejected" && rest.all (Entry.isQuiet key)
    | _ => true) && s.world.decisions.all fun sid => strip sid ≠ ""

def switchesSteady (c : Requests) : Event → Bool
  | .resume i _ =>
    match c.calls[i]? with
    | some (_, .await (.service (.call (.setDecisions _))) _) => steady env c.store i
    | _ => true
  | _ => true

end

variable (env : Env)

/-! ### How the store goes on -/

/-- An override leaves the evidence of a run. -/
structure Evolved (run run' : EvaluationRun) : Prop where
  stage : run'.stage = run.stage
  status : run'.summary.get "status" = run.summary.get "status"
  active : run'.summary.get "active_set" = run.summary.get "active_set"

lemma Evolved.refl (run : EvaluationRun) : Evolved run run := ⟨rfl, rfl, rfl⟩

lemma Evolved.trans {a b c : EvaluationRun} (h : Evolved a b) (h' : Evolved b c) : Evolved a c :=
  ⟨h'.stage.trans h.stage, h'.status.trans h.status, h'.active.trans h.active⟩

structure Grows (s t : Sys) (new : List Entry) : Prop where
  log : t.log = s.log ++ new
  clock : s.clock ≤ t.clock
  decisions : .switched ∉ new → t.world.decisions = s.world.decisions
  completed : .completed ∉ new → t.completed = s.completed
  statuses : ∀ key status, .overridden key status ∈ new → status = "approved" ∨ status = "rejected"
  runs : ∀ key run, s.runs.get? key = some run → ∃ run', t.runs.get? key = some run' ∧ Evolved run run' ∧
    (overrideStatus env run'.summary = overrideStatus env run.summary ∨
      .overridden key (overrideStatus env run'.summary) ∈ new)

variable {env} {s t u : Sys} {new new' : List Entry}

lemma Grows.refl (s : Sys) : Grows env s s [] where
  log := (List.append_nil _).symm
  clock := le_rfl
  decisions _ := rfl
  completed _ := rfl
  statuses _ _ h := absurd h List.not_mem_nil
  runs _ run h := ⟨run, h, .refl run, .inl rfl⟩

lemma Grows.trans (h : Grows env s t new) (h' : Grows env t u new') : Grows env s u (new ++ new') where
  log := by rw [h'.log, h.log, List.append_assoc]
  clock := h.clock.trans h'.clock
  decisions hn := (h'.decisions fun hm => hn (List.mem_append_right _ hm)).trans
    (h.decisions fun hm => hn (List.mem_append_left _ hm))
  completed hn := (h'.completed fun hm => hn (List.mem_append_right _ hm)).trans
    (h.completed fun hm => hn (List.mem_append_left _ hm))
  statuses key status hm := by
    rcases List.mem_append.mp hm with hm | hm
    · exact h.statuses key status hm
    · exact h'.statuses key status hm
  runs key run hget := by
    obtain ⟨run₁, hg₁, he₁, hs₁⟩ := h.runs key run hget
    obtain ⟨run₂, hg₂, he₂, hs₂⟩ := h'.runs key run₁ hg₁
    refine ⟨run₂, hg₂, he₁.trans he₂, ?_⟩
    rcases hs₂ with hs₂ | hs₂
    · rw [hs₂]
      exact hs₁.imp_right (List.mem_append_left _)
    · exact .inr (List.mem_append_right _ hs₂)

/-! ### What a promotion knows -/

lemma quiet_append {key : Key} {l l' : List Entry} :
    (l ++ l').all (Entry.isQuiet key) ↔ l.all (Entry.isQuiet key) ∧ l'.all (Entry.isQuiet key) := by
  rw [List.all_append, Bool.and_eq_true]

lemma not_mem_of_quiet {key : Key} {e : Entry} (he : e.isQuiet key = false) (h : new.all (Entry.isQuiet key)) :
    e ∉ new := by
  intro hmem
  have := List.all_eq_true.mp h e hmem
  rw [he] at this
  cases this

variable (env) in
def Lasting (key : Key) (A : Sys → Prop) : Prop :=
  ∀ s t new, Grows env s t new → new.all (Entry.isQuiet key) = true → A s → A t

lemma Lasting.and {key : Key} {A B : Sys → Prop} (hA : Lasting env key A) (hB : Lasting env key B) :
    Lasting env key fun s => A s ∧ B s :=
  fun s t new hg hq h => ⟨hA s t new hg hq h.1, hB s t new hg hq h.2⟩

lemma Lasting.const {key : Key} (P : Prop) : Lasting env key fun _ => P := fun _ _ _ _ _ h => h

lemma Lasting.imp {key : Key} {P : Prop} {A : Sys → Prop} (hA : Lasting env key A) :
    Lasting env key fun s => P → A s :=
  fun s t new hg hq h hp => hA s t new hg hq (h hp)

variable (env) in
def SameRun (key : Key) (run : EvaluationRun) (s : Sys) : Prop :=
  ∃ run', s.runs.get? key = some run' ∧ Evolved run run' ∧
    (overrideStatus env run'.summary = overrideStatus env run.summary ∨ overrideStatus env run'.summary = "approved")

variable (env) in
lemma lasting_sameRun (key : Key) (run : EvaluationRun) : Lasting env key (SameRun env key run) := by
  rintro s t new hg hq ⟨run₁, hg₁, he₁, hs₁⟩
  obtain ⟨run₂, hg₂, he₂, hs₂⟩ := hg.runs key run₁ hg₁
  refine ⟨run₂, hg₂, he₁.trans he₂, ?_⟩
  rcases hs₂ with hs₂ | hs₂
  · rw [hs₂]
    exact hs₁
  · refine .inr ((hg.statuses key _ hs₂).resolve_right fun hr => ?_)
    rw [hr] at hs₂
    exact not_mem_of_quiet (by simp [Entry.isQuiet]) hq hs₂

lemma lasting_decisions (key : Key) (d : List String) : Lasting env key fun s => s.world.decisions = d :=
  fun _ _ _ hg hq h => (hg.decisions (not_mem_of_quiet rfl hq)).trans h

variable (env) in
def Cooled (s : Sys) : Prop :=
  ∀ seconds, cooldownSeconds env env.governance = .ok (some seconds) → 0 < seconds →
    ∀ t ∈ s.completed, t + seconds * 1000000 ≤ s.clock

variable (env) in
lemma lasting_cooled (key : Key) : Lasting env key (Cooled env) := by
  intro s t new hg hq h seconds hs hpos at' hat
  rw [hg.completed (not_mem_of_quiet rfl hq)] at hat
  exact (h seconds hs hpos at' hat).trans hg.clock

def Knows (i : ℕ) (key : Key) (run : EvaluationRun) (A : Sys → Prop) (s : Sys) : Prop :=
  ∃ rest, sinceRead i s.log = .read i key run :: rest ∧ (rest.all (Entry.isQuiet key) = true → A s)

variable {i : ℕ} {key : Key} {run : EvaluationRun} {A B : Sys → Prop}

lemma Knows.grows (hA : Lasting env key A) (h : Knows i key run A s) (hg : Grows env s t new) : Knows i key run A t := by
  obtain ⟨rest, hs, hqt⟩ := h
  have hap : sinceRead i t.log = sinceRead i s.log ++ new := by
    unfold sinceRead
    rw [hg.log, List.dropWhile_append, if_neg]
    unfold sinceRead at hs
    rw [hs]
    exact Bool.false_ne_true
  refine ⟨rest ++ new, by rw [hap, hs]; rfl, fun hq => ?_⟩
  obtain ⟨hr, hnew⟩ := quiet_append.mp hq
  exact hA s t new hg hnew (hqt hr)

lemma Knows.and (h : Knows i key run A s) (hB : B s) : Knows i key run (fun s => A s ∧ B s) s := by
  obtain ⟨rest, hs, hqt⟩ := h
  exact ⟨rest, hs, fun hq => ⟨hqt hq, hB⟩⟩

lemma Knows.imp (h : Knows i key run A s) (hAB : A s → B s) : Knows i key run B s := by
  obtain ⟨rest, hs, hqt⟩ := h
  exact ⟨rest, hs, fun hq => hAB (hqt hq)⟩

/-- Call `i` has read no run. -/
def Unread (i : ℕ) (s : Sys) : Prop := ∀ e ∈ s.log, e.isReadBy i = false

lemma sinceRead_of_unread (h : Unread i s) (run : EvaluationRun) :
    sinceRead i (s.log ++ [.read i key run]) = [.read i key run] := by
  unfold sinceRead
  rw [List.dropWhile_append_of_pos fun e he => by rw [h e he]; rfl]
  simp [Entry.isReadBy]

variable (env) in
def From (key : Key) (run : EvaluationRun) (s : Sys) : Prop := ∃ run', s.runs.get? key = some run' ∧ Evolved run run'

lemma From.grows (h : From key run s) (hg : Grows env s t new) : From key run t := by
  obtain ⟨run₁, hg₁, he₁⟩ := h
  obtain ⟨run₂, hg₂, he₂, _⟩ := hg.runs key run₁ hg₁
  exact ⟨run₂, hg₂, he₁.trans he₂⟩

/-! ### Steps -/

def setsDecisions : Op → Bool
  | .service (.call (.setDecisions _)) => true
  | _ => false

/-- An override is an approval or a rejection. -/
def Fair : Op → Prop
  | .recordEvaluationOverride _ override =>
    override.get "status" = .str "approved" ∨ override.get "status" = .str "rejected"
  | _ => True

lemma overrideStatus_overridden (run : EvaluationRun) (override : Fields) (timestamp : String) :
    overrideStatus env (run.overridden override timestamp).summary =
      lower env (((override.get "status").or (.str "none")).toStr env.builtins) := by
  have hget : Fields.get (run.overridden override timestamp).summary "override_status" = override.get "status" := by
    show Fields.get (run.summary.update (InMemory.overrideFields override timestamp)) "override_status" = _
    unfold Fields.get
    rw [Dict.get?_update (InMemory.nodup_overrideFields override timestamp)]
    rfl
  unfold overrideStatus
  rw [hget]

lemma evolved_overridden (run : EvaluationRun) (override : Fields) (timestamp : String) :
    Evolved run (run.overridden override timestamp) := by
  have hget : ∀ key, (InMemory.overrideFields override timestamp).lookup key = none →
      Fields.get (run.overridden override timestamp).summary key = run.summary.get key := by
    intro key hkey
    show Fields.get (run.summary.update (InMemory.overrideFields override timestamp)) key = _
    unfold Fields.get
    rw [Dict.get?_update (InMemory.nodup_overrideFields override timestamp), hkey]
    rfl
  exact ⟨rfl, hget _ rfl, hget _ rfl⟩

lemma lower_approved : lower env "approved" = "approved" := by
  unfold lower
  rw [env.builtins.lower.onAscii _ (ascii_of_all (by decide))]
  decide

lemma lower_rejected : lower env "rejected" = "rejected" := by
  unfold lower
  rw [env.builtins.lower.onAscii _ (ascii_of_all (by decide))]
  decide

lemma status_of_fair (key : Key) {run : EvaluationRun} {override : Fields} {timestamp : String}
    (h : Fair (.recordEvaluationOverride key override)) :
    overrideStatus env (run.overridden override timestamp).summary = "approved" ∨
      overrideStatus env (run.overridden override timestamp).summary = "rejected" := by
  rw [overrideStatus_overridden]
  rcases h with h | h
  · rw [h]
    exact .inl lower_approved
  · rw [h]
    exact .inr lower_rejected

lemma get?_put (runs : Runs) (run : EvaluationRun) (key : Key) :
    (runs.put run).get? key = if key = (run.strategyId, run.runId) then some run else runs.get? key :=
  Dict.get?_set _ _ _ _

lemma Grows.of_same {now : ℤ} (hcl : s.clock ≤ now) (hlog : t.log = s.log) (ht : t.clock = now)
    (hd : t.world.decisions = s.world.decisions) (hc : t.completed = s.completed)
    (hr : t.runs = s.runs) : Grows env s t [] where
  log := by rw [hlog, List.append_nil]
  clock := by rw [ht]; exact hcl
  decisions _ := hd
  completed _ := hc
  statuses _ _ h := absurd h List.not_mem_nil
  runs key run h := ⟨run, by rw [hr]; exact h, .refl run, .inl rfl⟩

lemma Grows.of_noted {now : ℤ} {e : Entry} (hcl : s.clock ≤ now) (hlog : t.log = s.log ++ [e]) (ht : t.clock = now)
    (hd : e = .switched ∨ t.world.decisions = s.world.decisions)
    (hc : e = .completed ∨ t.completed = s.completed) (hr : t.runs = s.runs)
    (hs : ∀ key status, e ≠ .overridden key status) : Grows env s t [e] where
  log := hlog
  clock := by rw [ht]; exact hcl
  decisions hnone := hd.resolve_left fun he => hnone (he ▸ .head _)
  completed hnone := hc.resolve_left fun he => hnone (he ▸ .head _)
  statuses key status hm := absurd (List.mem_singleton.mp hm).symm (hs key status)
  runs key run h := ⟨run, by rw [hr]; exact h, .refl run, .inl rfl⟩

/-- **What a step does**: the store grows, and what is read is read by the call. -/
theorem perform_grows (i : ℕ) (o : Op) (e : Choice) (s : Sys) (hc : s.clock ≤ e.now) (hf : Fair o) :
    ∃ new, Grows env s (perform env i o e s).2 new ∧ ∀ j, j ≠ i → ∀ x ∈ new, x.isReadBy j = false := by
  have hs : ∀ {t : Sys}, Grows env s t [] →
      ∃ new, Grows env s t new ∧ ∀ j, j ≠ i → ∀ x ∈ new, x.isReadBy j = false :=
    fun h => ⟨[], h, fun _ _ _ hx => absurd hx List.not_mem_nil⟩
  cases o with
  | getEvaluationRun key =>
    cases hget : s.runs.get? key with
    | none =>
      simp only [perform, hget]
      exact hs (.of_same hc rfl rfl rfl rfl rfl)
    | some run =>
      simp only [perform, hget]
      refine ⟨_, .of_noted hc rfl rfl (.inr rfl) (.inr rfl) rfl fun _ _ he => Entry.noConfusion he, ?_⟩
      intro j hj x hx
      rw [List.mem_singleton.mp hx]
      exact decide_eq_false fun h => hj h.symm
  | recordEvaluationOverride key override =>
    cases hget : s.runs.get? key with
    | none =>
      simp only [perform, hget]
      exact hs (.of_same hc rfl rfl rfl rfl rfl)
    | some old =>
      simp only [perform, hget]
      have hkey : (old.strategyId, old.runId) = key := s.runs.keyed key old hget
      refine ⟨[.overridden key (overrideStatus env (overrideRun env e.iso old override).summary)],
        ⟨rfl, hc, fun _ => rfl, fun _ => rfl, ?_, ?_⟩, ?_⟩
      · intro key' status hm
        cases List.mem_singleton.mp hm
        exact status_of_fair key hf
      · intro key' run hrun
        by_cases hk : key' = key
        · subst hk
          obtain rfl : old = run := Option.some.inj (hget.symm.trans hrun)
          refine ⟨overrideRun env e.iso old override, ?_, evolved_overridden _ _ _, .inr List.mem_cons_self⟩
          exact (get?_put _ _ _).trans (if_pos hkey.symm)
        · refine ⟨run, ?_, .refl run, .inl rfl⟩
          exact ((get?_put _ _ _).trans (if_neg fun h => hk (h.trans hkey))).trans hrun
      · intro j _ x hx
        rw [List.mem_singleton.mp hx]
        rfl
  | service o =>
    cases o with
    | read => exact hs (.of_same hc rfl rfl rfl rfl rfl)
    | write f => exact hs (.of_same hc rfl rfl rfl rfl rfl)
    | call c =>
      cases c with
      | setDecisions strategies =>
        refine ⟨[.switched], .of_noted hc rfl rfl (.inl rfl) (.inr rfl) rfl fun _ _ he => Entry.noConfusion he, ?_⟩
        intro j _ x hx
        rw [List.mem_singleton.mp hx]
        rfl
      | recordApplyStage stage =>
        cases stage with
        | completed =>
          refine ⟨[.completed], .of_noted hc rfl rfl (.inr rfl) (.inl rfl) rfl fun _ _ he => Entry.noConfusion he, ?_⟩
          intro j _ x hx
          rw [List.mem_singleton.mp hx]
          rfl
        | _ => exact hs (.of_same hc rfl rfl rfl rfl rfl)
      | _ => exact hs (.of_same hc rfl rfl rfl rfl rfl)
  | _ => exact hs (.of_same hc rfl rfl rfl rfl rfl)

variable {K : Sys → Prop} {o : Op} {run' : EvaluationRun}

lemma perform_switches (i : ℕ) (ho : setsDecisions o = false) (e : Choice) (s : Sys) :
    (perform env i o e s).2.switches = s.switches := by
  cases o with
  | getEvaluationRun key =>
    simp only [perform]
    split <;> rfl
  | recordEvaluationOverride key override =>
    simp only [perform]
    split <;> rfl
  | service o =>
    cases o with
    | call c =>
      cases c with
      | setDecisions strategies => cases ho
      | recordApplyStage stage => cases stage <;> rfl
      | _ => rfl
    | _ => rfl
  | _ => rfl

/-! ### What a request awaits -/

variable (env) in
def proto (i : ℕ) : Protocol Op Op.Ans Exn Sys Choice where
  perform := perform env i
  Ok o e s := s.clock ≤ e.now ∧ (setsDecisions o = true → steady env s i = true)
  J s := ∀ sw ∈ s.switches, Allowed env sw
  Rely s t := ∃ new, Grows env s t new ∧ ∀ e ∈ new, e.isReadBy i = false
  Guar s t := ∃ new, Grows env s t new ∧ ∀ j, j ≠ i → ∀ e ∈ new, e.isReadBy j = false
  At _ _ := True
  rely_refl s := ⟨[], .refl s, fun _ h => absurd h List.not_mem_nil⟩
  rely_trans := by
    rintro s t u ⟨new, hg, hnew⟩ ⟨new', hg', hnew'⟩
    refine ⟨new ++ new', hg.trans hg', ?_⟩
    intro e he
    rcases List.mem_append.mp he with he | he
    · exact hnew e he
    · exact hnew' e he

variable (env) in
def Stable (K : Sys → Prop) : Prop := ∀ s t new, Grows env s t new → K s → K t

lemma stable_knows (i : ℕ) (run : EvaluationRun) (hA : Lasting env key A) : Stable env (Knows i key run A) := fun _ _ _ hg h => h.grows hA hg

def Plain (o : Op) : Prop := setsDecisions o = false ∧ Fair o

lemma step_plain (ho : Plain o) {e : Choice} (hs : ∀ sw ∈ s.switches, Allowed env sw) (hc : s.clock ≤ e.now) :
    (∀ sw ∈ (perform env i o e s).2.switches, Allowed env sw) ∧ (proto env i).Guar s (perform env i o e s).2 := by
  refine ⟨?_, perform_grows i o e s hc ho.2⟩
  rw [perform_switches i ho.1]
  exact hs

lemma safe_plain {Q : Except Exn o.Ans → Sys → Prop} (ho : Plain o) (hK : ∀ s t, (proto env i).Rely s t → K s → K t)
    (hk : K s) (h : ∀ t e new, K t → t.clock ≤ e.now → Grows env t (perform env i o e t).2 new →
      Q (perform env i o e t).1 (perform env i o e t).2) : Safe (proto env i) Q (Coro.perform o) s := by
  refine Safe.perform_iff.mpr fun t hr ht => ⟨trivial, fun e he => ?_⟩
  obtain ⟨hj, new, hg, hby⟩ := step_plain (i := i) ho ht he.1
  exact ⟨hj, ⟨new, hg, hby⟩, h t e new (hK s t hr hk) he.1 hg⟩

lemma safe_uses {α : Type} {m : Task α} (hK : Stable env K) (hm : Uses Plain m) (h : K s) :
    Safe (proto env i) (fun _ s => K s) m s := by
  refine Uses.safe ?_ ?_ hm h
  · rintro s t ⟨new, hg, _⟩ hs
    exact hK s t new hg hs
  · intro o ho s hs hk
    refine ⟨trivial, fun e he => ?_⟩
    obtain ⟨hj, new, hgr, hby⟩ := step_plain (i := i) ho hs he.1
    exact ⟨hj, ⟨new, hgr, hby⟩, hK s _ new hgr hk⟩

lemma uses_recordEvaluationOverride (key : Key) {override : Fields} (h : Fair (.recordEvaluationOverride key override)) :
    Uses Plain (recordEvaluationOverride env key override) := by
  refine Uses.bind (Uses.perform ⟨rfl, trivial⟩) fun existing => ?_
  cases existing with
  | none => trivial
  | some run =>
    dsimp only
    split
    · trivial
    · refine Uses.bind (Uses.tryExcept (Uses.perform ⟨rfl, h⟩) fun _ => trivial) fun recorded => ?_
      split
      · exact Uses.bind (Uses.perform ⟨rfl, trivial⟩) fun _ => trivial
      · trivial

lemma uses_postOverride {status : String} (hs : status = "approved" ∨ status = "rejected") (key : Key)
    (reason actor timestamp : Option String) : Uses Plain (postOverride env status key reason actor timestamp) := by
  refine Uses.bind (Uses.perform ⟨rfl, trivial⟩) fun governance => ?_
  split
  · trivial
  · refine Uses.bind (Uses.ofExcept _) fun _ => Uses.bind (Uses.perform ⟨rfl, trivial⟩) fun now => ?_
    refine uses_recordEvaluationOverride key ?_
    rcases hs with rfl | rfl
    · exact .inl rfl
    · exact .inr rfl

/-! ### Plans -/

lemma cooled_of_remaining {seconds : ℕ} {completed : List ℤ} {now : ℤ} (hpos : 0 < seconds)
    (h : remainingOf seconds completed now ≤ 0) : ∀ t ∈ completed, t + seconds * 1000000 ≤ now := by
  intro t ht
  unfold remainingOf at h
  cases hmax : completed.max? with
  | none =>
    rw [List.max?_eq_none_iff.mp hmax] at ht
    cases ht
  | some last =>
    have hle : t ≤ last := (List.max?_eq_some_iff.mp hmax).2 t ht
    rw [hmax] at h
    dsimp only at h
    omega

lemma safe_cooldown {Q : Except Exn (Option ℤ) → Sys → Prop} (hK : Stable env K) (hk : K s)
    (hQ : ∀ r t, K t → (r.getD 0 ≤ 0 → Cooled env t) → Q (.ok r) t) (her : ∀ e t, Q (.error e) t) :
    Safe (proto env i) Q (cooldownRemainingSeconds env env.governance) s := by
  unfold cooldownRemainingSeconds
  cases hsc : cooldownSeconds env env.governance with
  | error e => exact her e s
  | ok seconds =>
    rw [Coro.ofExcept_ok, Coro.bind_eq, Coro.bind_ret]
    cases seconds with
    | none =>
      refine hQ none s hk fun _ seconds' hs => ?_
      rw [hsc] at hs
      cases hs
    | some seconds =>
      dsimp only
      rw [Coro.bind_eq, Safe.bind_iff]
      refine safe_plain ⟨rfl, trivial⟩ (fun s t ⟨new, hg, _⟩ => hK s t new hg) hk fun t e new ht _ hg => ?_
      refine hQ _ _ (hK _ _ new hg ht) fun hr seconds' hs hpos => ?_
      rw [hsc] at hs
      cases hs
      exact cooled_of_remaining hpos hr

-- what follows knows the cooldown by `safe_cooldown` only
attribute [local irreducible] cooldownRemainingSeconds

variable (env) in
structure Reasons (run : EvaluationRun) (targetActive : List String) (reasons : List String) : Prop where
  paper : "not_paper_stage" ∉ reasons → lower env run.stage = "paper"
  passed : "validation_failed" ∉ reasons → summaryStatus env run.summary ∈ ["pass", "warn"]
  room : "max_live_slots_exceeded" ∉ reasons → ∀ n ∈ env.governance.maxLiveSlots, (targetActive.length : ℤ) ≤ n

lemma safe_blockReasons {Q : Except Exn (List String) → Sys → Prop} (hK : Stable env K) (hk : K s)
    (run : EvaluationRun) (targetActive : List String)
    (hQ : ∀ reasons t, K t → Reasons env run targetActive reasons → ("cooldown_active" ∉ reasons → Cooled env t) →
      Q (.ok reasons) t) (her : ∀ e t, Q (.error e) t) :
    Safe (proto env i) Q (computePromotionBlockReasons env run env.governance targetActive) s := by
  unfold computePromotionBlockReasons
  rw [Coro.bind_eq, Safe.bind_iff]
  refine safe_plain ⟨rfl, trivial⟩ (fun s t ⟨new, hg, _⟩ => hK s t new hg) hk fun t e new ht _ hg => ?_
  show Safe _ Q ((cooldownRemainingSeconds env env.governance).bind _) _
  rw [Safe.bind_iff]
  apply safe_cooldown hK (hK _ _ new hg ht) _ fun e u => her e u
  intro r u hu hc
  refine hQ _ u hu ⟨?_, ?_, ?_⟩ ?_
  · intro hnot
    by_contra hne
    exact hnot (by simp [hne])
  · intro hnot
    by_contra hne
    exact hnot (by simp only [if_pos hne, List.mem_append, List.mem_singleton, true_or, or_true])
  · intro hnot n hn
    by_contra hlt
    have hany : env.governance.maxLiveSlots.any (fun n => n < (targetActive.length : ℤ)) := by
      rw [Option.mem_def.mp hn]
      simpa using hlt
    exact hnot (by simp only [if_pos hany, List.mem_append, List.mem_singleton, true_or, or_true])
  · intro hnot
    refine hc (not_lt.mp fun hpos => hnot ?_)
    simp only [if_pos hpos, List.mem_append, List.mem_singleton, true_or, or_true]

lemma Evolved.summaryStatus {run : EvaluationRun} (h : Evolved run run') :
    Promotion.summaryStatus env run'.summary = Promotion.summaryStatus env run.summary := by
  unfold Promotion.summaryStatus
  rw [h.status]

lemma Evolved.activeSet {run : EvaluationRun} (h : Evolved run run') :
    Promotion.activeSet run'.summary = Promotion.activeSet run.summary := by
  unfold Promotion.activeSet
  rw [h.active]

variable (env) in
structure PlanOf (run : EvaluationRun) (active current : List String) (p : PlanResponse) : Prop where
  plan : p.plan = planTo (names current) (names active)
  evidence : activeSet run.summary = some active
  target : p.targetActive = names active
  slots : p.maxLiveSlots = env.governance.maxLiveSlots
  reasons : Reasons env run (names active) p.blockedReasons

variable (env) in
def Planned (key : Key) (run : EvaluationRun) (current : List String) (p : PlanResponse) (s : Sys) : Prop :=
  (SameRun env key run s ∧ s.world.decisions = current) ∧
    (p.cooldownRemaining.getD 0 ≤ 0 ∨ "cooldown_active" ∉ p.blockedReasons → Cooled env s)

/-- **A plan** is made for the run that was read first, as far as the evidence goes. -/
theorem safe_planFrom {Q : Except Exn PlanResponse → Sys → Prop} (hk : Knows i key run (SameRun env key run) s)
    (he : Evolved run run')
    (hQ : ∀ p active current t, PlanOf env run active current p → Knows i key run (Planned env key run current p) t →
      Q (.ok p) t) (her : ∀ e t, Q (.error e) t) : Safe (proto env i) Q (planFrom env (some run')) s := by
  have hl := lasting_sameRun env key run
  unfold planFrom
  cases hactive : activeSet run'.summary with
  | none =>
    simp only [hactive]
    exact her _ s
  | some active =>
    simp only [hactive]
    rw [Coro.bind_eq, Safe.bind_iff]
    have hs := stable_knows i run hl
    refine safe_plain ⟨rfl, trivial⟩ (fun s t ⟨new, hg, _⟩ => hs s t new hg) hk fun t e new ht _ hg => ?_
    -- the decisions are those the plan starts from
    have hrd : (perform env i (.service (.call .getDecisions)) e t).1 = .ok t.world.decisions := rfl
    have hsm : (perform env i (.service (.call .getDecisions)) e t).2.world.decisions = t.world.decisions := rfl
    have hkn := (hs _ _ new hg ht).and (B := fun s => s.world.decisions = t.world.decisions) hsm
    have hl' := hl.and (lasting_decisions key t.world.decisions)
    have hs' := stable_knows i run hl'
    show Safe _ Q ((Coro.perform Op.getDefaultPolicy).bind _) _
    rw [Safe.bind_iff]
    refine safe_plain ⟨rfl, trivial⟩ (fun s t ⟨new, hg, _⟩ => hs' s t new hg) hkn fun u e' new' hu _ hg' => ?_
    show Safe _ Q ((cooldownRemainingSeconds env env.governance).bind _) _
    rw [Safe.bind_iff]
    apply safe_cooldown hs' (hs' _ _ new' hg' hu) _ fun e t => her e t
    intro r v hv hc
    show Safe _ Q ((computePromotionBlockReasons env run' env.governance (names active)).bind _) _
    rw [Safe.bind_iff]
    have hl'' := hl'.and ((lasting_cooled env key).imp (P := r.getD 0 ≤ 0))
    have hs'' := stable_knows i run hl''
    refine safe_blockReasons hs'' (hv.and hc) run' (names active) (fun reasons w hw hr hc' => ?_)
      fun e t => her e t
    refine hQ _ active t.world.decisions w ⟨rfl, he.activeSet.symm.trans hactive, rfl, rfl, ⟨?_, ?_, hr.room⟩⟩ ?_
    · intro hnot
      rw [← he.stage]
      exact hr.paper hnot
    · intro hnot
      rw [← he.summaryStatus]
      exact hr.passed hnot
    · refine (hw.and (B := fun s => "cooldown_active" ∉ reasons → Cooled env s) hc').imp ?_
      rintro ⟨⟨hp, hfirst⟩, hsecond⟩
      exact ⟨hp, fun h => h.elim hfirst hsecond⟩

end Qmtl.WorldService.Promotion

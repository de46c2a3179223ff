import Qmtl.Lib.Run
import Qmtl.WorldService.Decide

/-! On what evidence a world is decided `live`. -/

namespace Qmtl.WorldService.Decide

open Lib Foundation

/-- A fingerprint with coverage, flags or rows. -/
structure Evidence (metadata : Metadata) (fp : String) : Prop where
  fingerprint : metadata.datasetFingerprint = some fp
  nonempty : fp ≠ ""
  metrics : metadata.metricsOk = true

/-- What a call must have read to be live. -/
structure Allowed (inputs : Inputs) : Prop where
  allowLive : inputs.allowLive = true
  bindings : inputs.hasBindings = true
  decisions : inputs.hasDecisions = true

lemma evidence_of_fingerprinted {m : Metadata} (h : m.fingerprinted) (hm : m.metricsOk) :
    ∃ fp, Evidence m fp := by
  obtain ⟨fp, hfp, hne⟩ := (Option.any_eq_true _ _).mp h
  exact ⟨fp, hfp, of_decide_eq_true hne, hm⟩

lemma canonicalizeWorldMode_chosen (lower : Lower) (inputs : Inputs) (previous : Option DecisionState) :
    canonicalizeWorldMode lower (.str (chooseMode inputs previous).1) = (chooseMode inputs previous).1 := by
  have hchosen : (chooseMode inputs previous).1 ∈ ["validate", "compute-only", "live"] := by
    unfold chooseMode
    dsimp only
    split
    · simp
    split
    · simp
    split
    · simp
    split <;> simp
  have hc : ∀ mode ∈ ["validate", "compute-only", "live"],
      canonicalizeWorldMode lower (.str mode) = mode := by
    have hf : ∀ mode ∈ ["validate", "compute-only", "live"],
        ((strip mode).toList.all fun c => c.toNat < 128) ∧
          (worldModeAliases.lookup (String.ofList ((strip mode).toList.map Char.toLower))).getD "validate" = mode := by
      decide
    intro mode hmode
    obtain ⟨hasc, hmode⟩ := hf mode hmode
    unfold canonicalizeWorldMode canonicalizeWorldModeAlias
    simp only [lower.onAscii _ (ascii_of_all hasc)]
    exact hmode
  exact hc _ hchosen

/-- **Why a call is live**: on evidence of its own, or as the memory was. -/
theorem live_of_chooseMode {inputs : Inputs} {previous : Option DecisionState}
    (h : (chooseMode inputs previous).1 = "live") : Allowed inputs ∧ ((∃ fp, Evidence inputs.metadata fp) ∨
        ∃ p, previous = some p ∧ p.effectiveMode = "live" ∧ p.datasetFingerprint = inputs.metadata.datasetFingerprint) := by
  have hv : "validate" ≠ "live" := by decide
  have hc : "compute-only" ≠ "live" := by decide
  unfold chooseMode at h
  dsimp only at h
  by_cases hb : inputs.hasBindings
  swap
  · rw [if_pos (by simpa using hb)] at h
    exact absurd h hv
  rw [if_neg (by simpa using hb)] at h
  by_cases hd : inputs.hasDecisions
  swap
  · rw [if_pos (by simpa using hd)] at h
    exact absurd h hv
  rw [if_neg (by simpa using hd)] at h
  by_cases hev : (inputs.allowLive && inputs.metadata.fingerprinted && inputs.metadata.metricsOk)
  · obtain ⟨⟨hl, hfp⟩, hm⟩ : (inputs.allowLive ∧ inputs.metadata.fingerprinted) ∧
        inputs.metadata.metricsOk := by simpa using hev
    exact ⟨⟨hl, hb, hd⟩, .inl (evidence_of_fingerprinted hfp hm)⟩
  rw [if_neg hev] at h
  by_cases hh : (inputs.allowLive && previous.any fun p => Decidable.decide
      (p.effectiveMode = "live" ∧ p.datasetFingerprint = inputs.metadata.datasetFingerprint))
  · obtain ⟨hl, hany⟩ := Bool.and_eq_true_iff.mp hh
    obtain ⟨p, hp, hdec⟩ := (Option.any_eq_true _ _).mp hany
    exact ⟨⟨hl, hb, hd⟩, .inr ⟨p, hp, of_decide_eq_true hdec⟩⟩
  · rw [if_neg hh] at h
    exact absurd h hc

/-! ### Runs -/

/-- What a call has evaluated. -/
structure Record where
  worldId : String
  inputs : Inputs
  effectiveMode : String

structure State where
  memory : Memory
  records : List Record

def State.init : State := ⟨Dict.empty, []⟩

def recordOf (env : Env) (c : Call) (memory : Memory) : List Record :=
  match readInputs env c with
  | .error _ => []
  | .ok (_, _, inputs) => [⟨c.worldId, inputs, (evaluatePolicy env c.worldId inputs memory).1.effectiveMode⟩]

def step (env : Env) (s : State) (c : Call) : Option State :=
  some ⟨(decide env c s.memory).2, s.records ++ recordOf env c s.memory⟩

abbrev Reached (env : Env) (s : State) : Prop := Run (step env) (fun _ _ => True) State.init s

def HeldSince (records : List Record) (worldId fp : String) : Prop :=
  ∃ front r since, records = front ++ r :: since ∧ r.worldId = worldId ∧ r.effectiveMode = "live" ∧
    Allowed r.inputs ∧ Evidence r.inputs.metadata fp ∧
    ∀ r' ∈ since, r'.worldId = worldId → r'.effectiveMode = "live" ∧ r'.inputs.metadata.datasetFingerprint = some fp

lemma HeldSince.append {records : List Record} {worldId fp : String} (h : HeldSince records worldId fp) {r : Record}
    (hr : r.worldId = worldId → r.effectiveMode = "live" ∧ r.inputs.metadata.datasetFingerprint = some fp) :
    HeldSince (records ++ [r]) worldId fp := by
  obtain ⟨front, v, since, rfl, hw, hl, hal, hev, hs⟩ := h
  refine ⟨front, v, since ++ [r], by simp, hw, hl, hal, hev, ?_⟩
  intro r' hr'
  rcases List.mem_append.mp hr' with hr' | hr'
  · exact hs r' hr'
  · rw [List.mem_singleton.mp hr']
    exact hr

lemma HeldSince.verified {records : List Record} {r : Record} {fp : String} (hl : r.effectiveMode = "live")
    (hal : Allowed r.inputs) (hev : Evidence r.inputs.metadata fp) : HeldSince (records ++ [r]) r.worldId fp :=
  ⟨records, r, [], rfl, rfl, hl, hal, hev, fun _ h => absurd h List.not_mem_nil⟩

def LiveHeld (s : State) : Prop :=
  ∀ worldId st, s.memory.get? worldId = some st → st.effectiveMode = "live" →
    ∃ fp, st.datasetFingerprint = some fp ∧ fp ≠ "" ∧ HeldSince s.records worldId fp

section Step

variable {env : Env} {s : State} {c : Call} {asOf : Option String} {version : ℤ} {inputs : Inputs}

lemma evaluatePolicy_effectiveMode (env : Env) (inputs : Inputs) (worldId : String) (memory : Memory) :
    (evaluatePolicy env worldId inputs memory).1.effectiveMode = (chooseMode inputs (memory.get? worldId)).1 :=
  canonicalizeWorldMode_chosen _ _ _

lemma evaluatePolicy_memory (env : Env) (inputs : Inputs) (worldId : String) (memory : Memory) :
    (evaluatePolicy env worldId inputs memory).2 =
      memory.set worldId ⟨(chooseMode inputs (memory.get? worldId)).1, inputs.metadata.datasetFingerprint⟩ := by
  unfold evaluatePolicy
  simp [canonicalizeWorldMode_chosen]

lemma live_relies (hs : LiveHeld s) (h : (chooseMode inputs (s.memory.get? c.worldId)).1 = "live") :
    Allowed inputs ∧ ∃ fp, inputs.metadata.datasetFingerprint = some fp ∧ fp ≠ "" ∧
      (inputs.metadata.metricsOk ∨ HeldSince s.records c.worldId fp) := by
  obtain ⟨hal, ⟨fp, hev⟩ | ⟨p, hp, hl, hfp⟩⟩ := live_of_chooseMode h
  · exact ⟨hal, fp, hev.fingerprint, hev.nonempty, .inl hev.metrics⟩
  · obtain ⟨fp, hr, hne, hh⟩ := hs _ p hp hl
    exact ⟨hal, fp, hfp.symm.trans hr, hne, .inr hh⟩

lemma step_of_raise {e : Exn} (h : readInputs env c = .error e) : step env s c = some s := by
  unfold step decide recordOf
  rw [h, List.append_nil]

lemma step_of_read (h : readInputs env c = .ok (asOf, version, inputs)) : step env s c =
    some ⟨s.memory.set c.worldId ⟨(chooseMode inputs (s.memory.get? c.worldId)).1, inputs.metadata.datasetFingerprint⟩,
      s.records ++ [⟨c.worldId, inputs, (chooseMode inputs (s.memory.get? c.worldId)).1⟩]⟩ := by
  unfold step decide recordOf
  rw [h, ← evaluatePolicy_memory env, ← evaluatePolicy_effectiveMode env]

lemma liveHeld_step {s' : State} (hs : LiveHeld s) (hste : step env s c = some s') : LiveHeld s' := by
  cases hr : readInputs env c with
  | error e =>
    rw [step_of_raise hr] at hste
    rw [← Option.some.inj hste]
    exact hs
  | ok read =>
    rw [step_of_read hr] at hste
    rw [← Option.some.inj hste]
    intro worldId st hst hl
    simp only [Dict.get?_set] at hst
    by_cases hw : worldId = c.worldId
    · subst hw
      rw [if_pos rfl] at hst
      have hst := Option.some.inj hst
      rw [← hst] at hl
      rw [← hst]
      obtain ⟨hal, fp, hfp, hne, hm | hh⟩ := live_relies hs hl
      · exact ⟨fp, hfp, hne, HeldSince.verified hl hal ⟨hfp, hne, hm⟩⟩
      · exact ⟨fp, hfp, hne, hh.append fun _ => ⟨hl, hfp⟩⟩
    · rw [if_neg hw] at hst
      obtain ⟨fp, hfp, hne, hh⟩ := hs worldId st hst hl
      exact ⟨fp, hfp, hne, hh.append fun h => absurd h.symm hw⟩

lemma liveHeld_of_reached (h : Reached env s) : LiveHeld s := by
  refine Run.invariant ?_ (fun s c s' hs _ hste => liveHeld_step hs hste) h
  intro worldId st hst
  cases hst

end Step

/-- **No call is live without evidence**: its world allows it and has bindings and decisions, and its metadata have a
fingerprint with metrics, or one that has been held since it was verified. -/
theorem live_has_evidence (env : Env) (s : State) (c : Call) (envelope : DecisionEnvelope) (hs : Reached env s)
    (hreturned : (decide env c s.memory).1 = .ok envelope) (hlive : envelope.effectiveMode = "live") :
    ∃ asOf version inputs, readInputs env c = .ok (asOf, version, inputs) ∧ Allowed inputs ∧
      ∃ fp, inputs.metadata.datasetFingerprint = some fp ∧ fp ≠ "" ∧
        (inputs.metadata.metricsOk = true ∨ HeldSince s.records c.worldId fp) := by
  unfold decide at hreturned
  cases hread : readInputs env c with
  | error e =>
    rw [hread] at hreturned
    cases hreturned
  | ok read =>
    obtain ⟨asOf, version, inputs⟩ := read
    rw [hread] at hreturned
    obtain ⟨_, -, henvelope⟩ := bind_ok.mp hreturned
    have hmode : (chooseMode inputs (s.memory.get? c.worldId)).1 = "live" := by
      rw [← evaluatePolicy_effectiveMode env, ← hlive, ← pure_ok.mp henvelope]
      rfl
    obtain ⟨hallowed, hfp⟩ := live_relies (liveHeld_of_reached hs) hmode
    exact ⟨asOf, version, inputs, rfl, hallowed, hfp⟩

def firstDay : Env where
  builtins := Builtins.ascii
  fromisoformat _ := none
  isoformat _ := "0001-01-01T00:00:00Z"
  validateArtifact _ := .error (.validation "not asked")
  validateEnvelope _ := .ok ()

def askWith (metadata : Fields) : Call where
  worldId := "w1"
  asOf := none
  now := 0
  answers :=
    { world := .ok (some (Dict.empty.set "allow_live" (.bool true)))
      defaultPolicyVersion := .ok 1
      bindings := .ok ["s1"]
      decisions := .ok ["s1"]
      latestHistoryMetadata := .ok (some metadata)
      historyMetadata := .ok [metadata] }

def fingerprintOnly : Fields := Dict.empty.set "dataset_fingerprint" (.str "fp1")

def fingerprintWithRows : Fields := fingerprintOnly.set "rows" (.int 10)

/-- After a call that has found rows, one that finds none is live as well. -/
theorem live_has_evidence_held : ∃ s envelope, Reached firstDay s ∧
    (decide firstDay (askWith fingerprintOnly) s.memory).1 = .ok envelope ∧ envelope.effectiveMode = "live" ∧
    ∃ asOf version inputs, readInputs firstDay (askWith fingerprintOnly) = .ok (asOf, version, inputs) ∧ Allowed inputs ∧
      ∃ fp, inputs.metadata.datasetFingerprint = some fp ∧ fp ≠ "" ∧
        (inputs.metadata.metricsOk = true ∨ HeldSince s.records "w1" fp) := by
  obtain ⟨s, hrun, hlive⟩ := exists_run (step firstDay) State.init (fun _ _ => true) [askWith fingerprintWithRows]
    (fun s => (decide firstDay (askWith fingerprintOnly) s.memory).1.toOption.any fun e => e.effectiveMode = "live")
    (by decide +kernel)
  have hs : Reached firstDay s := hrun.mono fun _ _ _ => trivial
  obtain ⟨envelope, hreturned, hmode⟩ := exists_ok _ hlive
  have hmode := of_decide_eq_true hmode
  exact ⟨s, envelope, hs, hreturned, hmode,
    live_has_evidence firstDay s (askWith fingerprintOnly) envelope hs hreturned hmode⟩

end Qmtl.WorldService.Decide

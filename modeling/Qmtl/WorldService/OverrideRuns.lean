import Qmtl.WorldService.OverrideRaces

/-! The calls of a run, one by one: what each relies on, and what the worker knows of the runs it has listed. -/

namespace Qmtl.WorldService.ExtendedValidation

open Lib WorldService.InMemory

variable (env : Env)

/-! ### What a call relies on -/

def Entry.isBy (i : ℕ) : Entry → Bool
  | .listed j => j = i
  | .recorded _ _ _ => false
  | .wrote j _ _ => j = i

def Grown (s s' : Sys) (new : List Entry) : Prop :=
  s'.log = s.log ++ new ∧ ∀ key, (∀ e ∈ new, e.records key = false) → summaryAt s' key = summaryAt s key

lemma Grown.refl (s : Sys) : Grown s s [] := ⟨(List.append_nil _).symm, fun _ _ => rfl⟩

variable {i : ℕ} {o : Op} {runs : List EvaluationRunRecord} {s s' : Sys}

lemma Grown.trans {t u : Sys} {new new' : List Entry} (h : Grown s t new) (h' : Grown t u new') :
    Grown s u (new ++ new') := by
  refine ⟨by rw [h'.1, h.1, List.append_assoc], ?_⟩
  intro key hn
  rw [h'.2 key fun e he => hn e (List.mem_append_right _ he),
    h.2 key fun e he => hn e (List.mem_append_left _ he)]

def proto (i : ℕ) : Protocol Op Op.Ans InMemory.Exn Sys Choice where
  perform := perform env i
  Ok o _ s := match o with
    | .recordEvaluationRun r => untouched s.log i r.key = true
    | _ => True
  J := Kept env
  Rely s s' := ∃ new, Grown s s' new ∧ ∀ e ∈ new, e.isBy i = false
  Guar s s' := ∃ new, Grown s s' new ∧ ∀ e ∈ new, ∀ j, e.isBy j = true → j = i
  At _ _ := True
  rely_refl s := ⟨[], .refl s, fun _ h => absurd h List.not_mem_nil⟩
  rely_trans := by
    rintro s t u ⟨new, hnew, hby⟩ ⟨new', hnew', hby'⟩
    refine ⟨new ++ new', hnew.trans hnew', ?_⟩
    intro e he
    rcases List.mem_append.mp he with he | he
    · exact hby e he
    · exact hby' e he

lemma isWriteOf_of_isBy {e : Entry} (h : e.isBy i = false) : e.isWriteOf i = false := by
  cases e with
  | listed j => rfl
  | recorded key a n => rfl
  | wrote j key validation => exact h

/-- As far as the writes of call `i` go, nothing has happened. -/
def Steady (i : ℕ) (s s' : Sys) : Prop := ∃ new, Grown s s' new ∧ ∀ e ∈ new, e.isWriteOf i = false

lemma Steady.refl (i : ℕ) (s : Sys) : Steady i s s := ⟨[], .refl s, fun _ h => absurd h List.not_mem_nil⟩

lemma Steady.trans {t u : Sys} (h : Steady i s t) (h' : Steady i t u) : Steady i s u := by
  obtain ⟨new, hnew, hno⟩ := h
  obtain ⟨new', hnew', hno'⟩ := h'
  refine ⟨new ++ new', hnew.trans hnew', ?_⟩
  intro e he
  rcases List.mem_append.mp he with he | he
  · exact hno e he
  · exact hno' e he

lemma Steady.of_rely (h : (proto env i).Rely s s') : Steady i s s' := by
  obtain ⟨new, hnew, hby⟩ := h
  exact ⟨new, hnew, fun e he => isWriteOf_of_isBy (hby e he)⟩

lemma Steady.count (h : Steady i s s') :
    s'.log.countP (Entry.isWriteOf i) = s.log.countP (Entry.isWriteOf i) := by
  obtain ⟨new, hnew, hno⟩ := h
  have hz : new.countP (Entry.isWriteOf i) = 0 := by
    rw [List.countP_eq_zero]
    intro e he
    rw [hno e he]
    exact Bool.false_ne_true
  rw [hnew.1, List.countP_append, hz, Nat.add_zero]

/-! ### Reading -/

def Op.isRead : Op → Bool
  | .recordEvaluationRun _ | .recordEvaluationOverride _ _ | .recordExPostFailure _ _ => false
  | _ => true

lemma perform_of_isRead (h : o.isRead) (e : Choice) (s : Sys) :
    (perform env i o e s).2 = s ∨ (perform env i o e s).2 = { s with log := s.log ++ [.listed i] } := by
  cases o with
  | getDefaultPolicy _ => exact .inl rfl
  | listEvaluationRuns _ => exact .inr rfl
  | latestHubSnapshot _ => exact .inl rfl
  | getDecisions _ => exact .inl rfl
  | snapshotActivation _ => exact .inl rfl
  | recordEvaluationRun _ => cases h
  | recordEvaluationOverride _ _ => cases h
  | recordExPostFailure _ _ => cases h

lemma grown_list (i : ℕ) (s : Sys) : Grown s { s with log := s.log ++ [.listed i] } [.listed i] :=
  ⟨rfl, fun _ _ => rfl⟩

lemma read_step (h : o.isRead) (e : Choice) (hs : Kept env s) :
    Kept env (perform env i o e s).2 ∧ (proto env i).Guar s (perform env i o e s).2 ∧
      Steady i s (perform env i o e s).2 := by
  rcases perform_of_isRead env h e s with heq | heq <;> rw [heq]
  · exact ⟨hs, ⟨[], .refl s, fun _ h => absurd h List.not_mem_nil⟩, .refl i s⟩
  · refine ⟨hs.list env i, ⟨[.listed i], grown_list i s, ?_⟩, [.listed i], grown_list i s, ?_⟩
    · intro e he j hj
      obtain rfl := List.mem_singleton.mp he
      exact (of_decide_eq_true hj).symm
    · intro e he
      obtain rfl := List.mem_singleton.mp he
      rfl

lemma safe_of_reads {α : Type} {m : Task α} (hm : Uses (fun o => o.isRead) m) (s : Sys) :
    Safe (proto env i) (fun _ s' => Steady i s s') m s := by
  refine hm.safe (K := fun s' => Steady i s s') ?_ ?_ (.refl i s)
  · intro s₁ s₂ hr hs
    exact hs.trans (.of_rely env hr)
  · intro o ho s₁ hs₁ hs
    refine ⟨trivial, ?_⟩
    intro e _
    obtain ⟨hk, hg, hst⟩ := read_step env ho e hs₁
    exact ⟨hk, hg, hs.trans hst⟩

lemma uses_resolvePolicy (job : Job) : Uses (fun o => o.isRead) (resolvePolicy env job) := by
  unfold resolvePolicy
  split
  · exact (.perform rfl)
  · trivial
  · trivial
  · trivial

lemma uses_latestHubSnapshot (worldId : String) : Uses (fun o => o.isRead) (latestHubSnapshot env worldId) := by
  unfold latestHubSnapshot
  split
  · exact (.perform rfl)
  · trivial

lemma uses_portfolioBaseline (worldId excluded : String) :
    Uses (fun o => o.isRead) (portfolioBaseline env worldId excluded) := by
  refine Uses.bind (uses_latestHubSnapshot env worldId) ?_
  intro hub
  refine Uses.bind (Uses.ofExcept _) ?_
  intro fromHub
  split
  · refine Uses.bind (.perform rfl) ?_
    intro decisions
    dsimp only
    split
    · trivial
    · refine Uses.bind (.perform rfl) ?_
      intro activation
      refine Uses.bind (.perform rfl) ?_
      intro runs
      exact Uses.ofExcept _
  · trivial

/-! ### The worker -/

def Fresh (i : ℕ) (s : Sys) (key : RunKey) (summary : Fields) : Prop :=
  (∃ e ∈ s.log, e.isListingOf i = true) ∧ (untouched s.log i key = true → summaryAt s key = some summary)

lemma Fresh.grown {key : RunKey} {summary : Fields} {new : List Entry} (h : Fresh i s key summary)
    (hg : Grown s s' new) : Fresh i s' key summary := by
  obtain ⟨⟨e, he, hlist⟩, hs⟩ := h
  refine ⟨⟨e, by rw [hg.1]; exact List.mem_append_left _ he, hlist⟩, ?_⟩
  intro hu
  have hne : s.log.dropWhile (fun e => !e.isListingOf i) ≠ [] := by
    intro hnil
    have := List.dropWhile_eq_nil_iff.mp hnil e he
    rw [hlist] at this
    cases this
  rw [untouched, hg.1, List.dropWhile_append, if_neg (by simpa using hne), List.all_append, Bool.and_eq_true] at hu
  rw [hg.2 key ?_]
  · exact hs hu.1
  · intro e' he'
    simpa using List.all_eq_true.mp hu.2 e' he'

def AllFresh (i : ℕ) (worldId : String) (s : Sys) (runs : List EvaluationRunRecord) : Prop :=
  ∀ run ∈ runs, run.worldId = worldId ∧ Fresh i s run.key run.summary

variable {worldId : String}

lemma AllFresh.grown {new : List Entry} (h : AllFresh i worldId s runs) (hg : Grown s s' new) :
    AllFresh i worldId s' runs :=
  fun run hrun => ⟨(h run hrun).1, (h run hrun).2.grown hg⟩

lemma AllFresh.steady (h : AllFresh i worldId s runs) (hs : Steady i s s') : AllFresh i worldId s' runs := by
  obtain ⟨new, hg, -⟩ := hs
  exact h.grown hg

def SameRun (run run' : EvaluationRunRecord) : Prop :=
  run'.worldId = run.worldId ∧ run'.key = run.key ∧ run'.summary = run.summary

lemma AllFresh.same {runs' : List EvaluationRunRecord} (h : AllFresh i worldId s runs)
    (hsm : List.Forall₂ SameRun runs runs') : AllFresh i worldId s runs' := by
  induction hsm with
  | nil => exact h
  | @cons run run' runs runs' hrun _ ih =>
    intro run₁ hmem
    rcases List.mem_cons.mp hmem with rfl | hmem
    · obtain ⟨hw, hkey, hs⟩ := hrun
      rw [hw, hkey, hs]
      exact h run List.mem_cons_self
    · exact ih (fun run₂ hm₂ => h run₂ (.tail _ hm₂)) run₁ hmem

lemma mem_listEvaluationRuns {storage : Storage} (hne : worldId ≠ "")
    {run : EvaluationRunRecord} (h : run ∈ storage.listEvaluationRuns worldId none) :
    run.worldId = worldId ∧ storage.evaluationRuns.get? run.key = some run := by
  unfold Storage.listEvaluationRuns at h
  rw [List.mem_insertionSort] at h
  obtain ⟨⟨key, run'⟩, he, rfl⟩ := List.mem_map.mp h
  obtain ⟨hmem, hsel⟩ := List.mem_filter.mp he
  rw [Bool.and_eq_true, Bool.or_eq_true, decide_eq_true_eq, decide_eq_true_eq] at hsel
  have hget : storage.evaluationRuns.get? key = some run' := Dict.get?_eq_some.mpr hmem
  obtain rfl := storage.keyed key run' hget
  exact ⟨hsel.1.resolve_left hne, hget⟩

lemma allFresh_list (i : ℕ) (hne : worldId ≠ "") (s : Sys) :
    AllFresh i worldId { s with log := s.log ++ [.listed i] } (s.storage.listEvaluationRuns worldId none) := by
  intro run hrun
  obtain ⟨hw, hget⟩ := mem_listEvaluationRuns hne hrun
  refine ⟨hw, ⟨.listed i, by simp, by simp [Entry.isListingOf]⟩, ?_⟩
  intro _
  show (s.storage.evaluationRuns.get? run.key).map (·.summary) = _
  rw [hget]
  rfl

lemma filterRuns_subset (job : Job) (runs : List EvaluationRunRecord) : filterRuns env job runs ⊆ runs := by
  intro run h
  unfold filterRuns at h
  grind

lemma sameRun_enrichRun {job : Job} {hub : Option Fields} {run run' : EvaluationRunRecord}
    (h : enrichRun env job hub run = .ok run') : SameRun run run' := by
  unfold enrichRun at h
  split at h
  · cases h
    exact ⟨rfl, rfl, rfl⟩
  · obtain ⟨metrics, -, h⟩ := bind_ok.mp h
    obtain rfl := pure_ok.mp h
    exact ⟨rfl, rfl, rfl⟩

section Worker

variable {i : ℕ} {s : Sys} {job : Job} {hub : Option Fields} {fromHub : Fields}

lemma safe_augmentRun (run : EvaluationRunRecord) (s : Sys) :
    Safe (proto env i) (fun r s' => Steady i s s' ∧ ∀ run', r = .ok run' → SameRun run run')
      (augmentRun env job hub fromHub run) s := by
  unfold augmentRun
  split
  · refine ⟨.refl i s, ?_⟩
    intro run' h
    cases h
    exact ⟨rfl, rfl, rfl⟩
  · refine Safe.bind_iff.mpr ((safe_of_reads env ?_ s).mono ?_)
    · split
      · exact uses_portfolioBaseline env _ _
      · trivial
    · intro r s₁ hs₁
      cases r with
      | error e => exact ⟨hs₁, fun _ h => by cases h⟩
      | ok baseline =>
        show Safe (proto env i) _ ((Coro.ofExcept (env.augmentMetrics hub fromHub baseline run)).bind _) s₁
        cases env.augmentMetrics hub fromHub baseline run with
        | error e => exact ⟨hs₁, fun _ h => by cases h⟩
        | ok metrics =>
          refine ⟨hs₁, ?_⟩
          intro run' h
          cases h
          exact ⟨rfl, rfl, rfl⟩

lemma safe_augmentRuns (runs : List EvaluationRunRecord) (s : Sys) :
    Safe (proto env i) (fun r s' => Steady i s s' ∧ ∀ runs', r = .ok runs' → List.Forall₂ SameRun runs runs')
      (augmentRuns env job hub fromHub runs) s := by
  induction runs generalizing s with
  | nil =>
    refine ⟨.refl i s, ?_⟩
    intro runs' h
    cases h
    exact .nil
  | cons run runs ih =>
    refine Safe.bind_iff.mpr ((safe_augmentRun env run s).mono ?_)
    rintro r s₁ ⟨hs₁, hr⟩
    cases r with
    | error e => exact ⟨hs₁, fun _ h => by cases h⟩
    | ok run' =>
      refine Safe.bind_iff.mpr ((ih s₁).mono ?_)
      rintro r s₂ ⟨hs₂, hr'⟩
      cases r with
      | error e => exact ⟨hs₁.trans hs₂, fun _ h => by cases h⟩
      | ok runs' =>
        refine ⟨hs₁.trans hs₂, ?_⟩
        intro l h
        cases h
        exact .cons (hr run' rfl) (hr' runs' rfl)

lemma lookup_setItem (name key : String) (v : Value) (items : List (Value × Value)) :
    Value.lookup key (setItem name v items) = if key = name then some v else Value.lookup key items := by
  induction items with
  | nil => simp [setItem, Value.lookup, eq_comm]
  | cons item items ih =>
    obtain ⟨k, w⟩ := item
    cases k with
    | str k =>
      rw [setItem]
      by_cases hk : k = name
      · subst hk
        by_cases hkey : k = key
        · simp [hkey, Value.lookup]
        · have hk' : ¬key = k := fun h => hkey h.symm
          simp [hkey, hk', Value.lookup]
      · by_cases hkey : key = name
        · subst hkey
          simp [hk, Value.lookup, ih]
        · simp [hk, hkey, Value.lookup, ih]
    | _ => exact ih

lemma lookup_mergeResults (entries : List (String × Value)) (hn : (entries.map Prod.fst).Nodup)
    (items : List (Value × Value)) (key : String) :
    Value.lookup key (entries.foldl (fun merged e => setItem e.1 e.2 merged) items) =
      (entries.lookup key).orElse fun _ => Value.lookup key items := by
  induction entries generalizing items with
  | nil => rfl
  | cons e entries ih =>
    rw [List.map_cons, List.nodup_cons] at hn
    rw [List.foldl_cons, ih hn.2, lookup_setItem, Dict.lookup_cons]
    by_cases hkey : key = e.1
    · have hnn : entries.lookup key = none := by
        rw [List.lookup_eq_none_iff]
        intro p hp
        have hne : key ≠ p.1 := fun he => hn.1 (hkey ▸ he ▸ List.mem_map_of_mem (f := Prod.fst) hp)
        simpa using hne
      rw [hnn, if_pos hkey, if_pos hkey]
      rfl
    · rw [if_neg hkey, if_neg hkey]

lemma carries_withResults (validation : Fields) (results : Dict String Value) (evaluatedAt : String) :
    CarriesResults results (withResults env validation results evaluatedAt) := by
  intro name v hv
  have hget : Fields.get (withResults env validation results evaluatedAt) "results" =
      .dict (mergeResults (validation.get "results") results) := by
    unfold withResults
    rw [get_set_ne _ (by decide), get_set_ne _ (by decide), get_set_ne _ (by decide)]
    unfold Fields.get
    rw [Dict.get?_set_self]
    rfl
  rw [hget]
  show Value.lookup name (mergeResults (validation.get "results") results) = some v
  rw [mergeResults, lookup_mergeResults _ results.nodup, show results.entries.lookup name = some v from hv]
  rfl

lemma grown_write (now : String) {r : RunRequest} (h : summaryAt s r.key = some r.summary) :
    Grown s ⟨s.storage.recordEvaluationRun now r, s.log ++ [.wrote i r.key r.validation]⟩
      [.wrote i r.key r.validation] := by
  refine ⟨rfl, ?_⟩
  intro key _
  show ((s.storage.recordEvaluationRun now r).evaluationRuns.get? key).map (·.summary) = summaryAt s key
  rw [Storage.recordEvaluationRun, get?_putRun]
  split
  · rename_i hkey
    obtain rfl : key = r.key := hkey
    exact h.symm
  · rfl

variable {extended : Dict String (Dict String Value)} {augmented : List EvaluationRunRecord} {policy : Value}

lemma safe_persist (times : RunKey → String) (heva : env.evaluate augmented policy job.stage = .ok extended)
    (run : EvaluationRunRecord) (hrun : AllFresh i job.worldId s [run]) :
    Safe (proto env i) (fun r s' => (∃ new, Grown s s' new) ∧ ∀ n, r = .ok n →
        s'.log.countP (Entry.isWriteOf i) = s.log.countP (Entry.isWriteOf i) + n)
      (persistExtendedResults env times job extended run) s := by
  have hn : (∃ new, Grown s s new) ∧ ∀ n, (.ok 0 : Except InMemory.Exn ℕ) = .ok n →
      s.log.countP (Entry.isWriteOf i) = s.log.countP (Entry.isWriteOf i) + n := by
    refine ⟨⟨[], .refl s⟩, ?_⟩
    intro n h
    cases h
    rfl
  unfold persistExtendedResults
  split
  · exact hn
  · split
    · exact hn
    · rename_i results hr
      refine Safe.bind_iff.mpr (Safe.perform_iff.mpr ?_)
      intro s₁ hrl hs₁
      refine ⟨trivial, ?_⟩
      intro e hu
      have hst := Steady.of_rely env hrl
      obtain ⟨hw, hf⟩ := hrun.steady hst run List.mem_cons_self
      have hkey : (requestOf env job run results (times run.key)).key = run.key := by
        show (job.worldId, run.strategyId, run.runId) = (run.worldId, run.strategyId, run.runId)
        rw [hw]
      have hs : summaryAt s₁ (requestOf env job run results (times run.key)).key = some run.summary := by
        rw [hkey]
        refine hf.2 ?_
        rw [← hkey]
        exact hu
      have hev : Evaluated env (requestOf env job run results (times run.key)).key
          (requestOf env job run results (times run.key)).validation :=
        ⟨augmented, policy, job.stage, extended, results, heva, hr, carries_withResults env _ results _⟩
      have hg := grown_write (i := i) e.now (r := requestOf env job run results (times run.key)) hs
      refine ⟨hs₁.write env i e.now hs hev, ⟨_, hg, ?_⟩, ?_⟩
      · intro entry hen j hj
        obtain rfl := List.mem_singleton.mp hen
        exact (of_decide_eq_true hj).symm
      · obtain ⟨new, hnew, -⟩ := hst
        refine ⟨⟨_, hnew.trans hg⟩, ?_⟩
        intro n h
        cases h
        rw [← (Steady.of_rely env hrl).count]
        show (s₁.log ++ [Entry.wrote i _ _]).countP (Entry.isWriteOf i) = _
        simp [Entry.isWriteOf]

lemma safe_persistAll (times : RunKey → String) (hev : env.evaluate augmented policy job.stage = .ok extended)
    (runs : List EvaluationRunRecord) (hrn : AllFresh i job.worldId s runs) :
    Safe (proto env i) (fun r s' => ∀ n, r = .ok n →
        s'.log.countP (Entry.isWriteOf i) = s.log.countP (Entry.isWriteOf i) + n)
      (persistAll env times job extended runs) s := by
  induction runs generalizing s with
  | nil =>
    intro n h
    cases h
    rfl
  | cons run runs ih =>
    have hrun : AllFresh i job.worldId s [run] := by
      intro run' h
      obtain rfl := List.mem_singleton.mp h
      exact hrn run' List.mem_cons_self
    refine Safe.bind_iff.mpr ((safe_persist env times hev run hrun).mono ?_)
    rintro r s₁ ⟨⟨new, hg⟩, hr⟩
    cases r with
    | error e =>
      intro n h
      cases h
    | ok n =>
      have hrs : AllFresh i job.worldId s₁ runs :=
        fun run' h => hrn.grown hg run' (.tail _ h)
      refine Safe.bind_iff.mpr ((ih hrs).mono ?_)
      intro r s₂ hr'
      cases r with
      | error e =>
        intro n h
        cases h
      | ok m =>
        intro n' h
        cases h
        rw [hr' m rfl, hr n rfl, Nat.add_assoc]

lemma safe_run (times : RunKey → String) (job : Job) (s : Sys) (hz : s.log.countP (Entry.isWriteOf i) = 0) :
    Safe (proto env i) (fun r s' => ∀ n, r = .ok n → n = s'.log.countP (Entry.isWriteOf i)) (run env times job) s := by
  have her : ∀ (e : InMemory.Exn) (s' : Sys) (n : ℕ), (.error e : Except InMemory.Exn ℕ) = .ok n →
      n = s'.log.countP (Entry.isWriteOf i) := by
    intro e s' n h
    cases h
  have hnt : ∀ s', Steady i s s' → ∀ n, (.ok 0 : Except InMemory.Exn ℕ) = .ok n →
      n = s'.log.countP (Entry.isWriteOf i) := by
    intro s' hs n h
    cases h
    rw [hs.count, hz]
  refine Safe.bind_iff.mpr ((safe_of_reads env (uses_resolvePolicy env job) s).mono ?_)
  intro r s₁ hs₁
  rcases r with e | _ | policy
  · exact her e s₁
  · exact hnt s₁ hs₁
  refine Safe.bind_iff.mpr (Safe.perform_iff.mpr ?_)
  intro s₂ hrl hs₂
  refine ⟨trivial, ?_⟩
  intro e _
  obtain ⟨hk, hg, hst⟩ := read_step (i := i) env (o := .listEvaluationRuns job.worldId) rfl e hs₂
  refine ⟨hk, hg, ?_⟩
  have hs₃ := (hs₁.trans (.of_rely env hrl)).trans hst
  have hl := allFresh_list i job.named s₂
  have hfl : AllFresh i job.worldId { s₂ with log := s₂.log ++ [.listed i] }
      (filterRuns env job (s₂.storage.listEvaluationRuns job.worldId none)) :=
    fun run hrun => hl run (filterRuns_subset env job _ hrun)
  show Safe (proto env i) _ (if _ then _ else _) { s₂ with log := s₂.log ++ [.listed i] }
  split
  · exact hnt _ hs₃
  refine Safe.bind_iff.mpr ((safe_of_reads env (uses_latestHubSnapshot env job.worldId) _).mono ?_)
  intro r s₄ hs₄
  cases r with
  | error e => exact her e s₄
  | ok hub =>
    show Safe (proto env i) _ ((Coro.ofExcept _).bind _) s₄
    cases hen : (filterRuns env job (s₂.storage.listEvaluationRuns job.worldId none)).mapM
        (enrichRun env job hub) with
    | error e => exact her e s₄
    | ok enriched =>
      have hsm : List.Forall₂ SameRun (filterRuns env job (s₂.storage.listEvaluationRuns job.worldId none)) enriched :=
        (mapM_ok hen).imp fun _ _ h => sameRun_enrichRun env h
      have hf := (hfl.same hsm).steady hs₄
      cases env.baselineFromHub hub with
      | error e => exact her e s₄
      | ok fromHub =>
        show Safe (proto env i) _ ((augmentRuns env job hub fromHub enriched).bind _) s₄
        refine Safe.bind_iff.mpr ((safe_augmentRuns env enriched s₄).mono ?_)
        rintro r s₅ ⟨hs₅, hr⟩
        cases r with
        | error e => exact her e s₅
        | ok augmented =>
          have hf := (hf.steady hs₅).same (hr augmented rfl)
          show Safe (proto env i) _ ((Coro.ofExcept (env.evaluate augmented policy job.stage)).bind _) s₅
          cases hev : env.evaluate augmented policy job.stage with
          | error e => exact her e s₅
          | ok extended =>
            have hs := (hs₃.trans hs₄).trans hs₅
            show Safe (proto env i) _ (if _ then _ else _) s₅
            split
            · exact hnt s₅ hs
            · refine (safe_persistAll env times hev augmented hf).mono ?_
              intro r s₆ hr n hn
              rw [hr n hn, hs.count, hz, Nat.zero_add]

end Worker

/-! ### All calls together -/

def Done (i : ℕ) (a : Call) (r : Except InMemory.Exn ℕ) (s : Sys) : Prop :=
  ∀ n, r = .ok n → match a with
    | .worker _ _ => n = s.log.countP (Entry.isWriteOf i)
    | .override key fields => .recorded key (.override fields) n ∈ s.log
    | .exPost key failure => ∃ time caseId, .recorded key (.failure (exPostEvent failure time caseId)) n ∈ s.log

lemma Done.stable {a : Call} {r : Except InMemory.Exn ℕ} (hr : (proto env i).Rely s s') (h : Done i a r s) :
    Done i a r s' := by
  intro n hn
  have hd := h n hn
  have hmem : ∀ e ∈ s.log, e ∈ s'.log := by
    intro e he
    obtain ⟨new, ⟨hlog, -⟩, -⟩ := hr
    rw [hlog]
    exact List.mem_append_left _ he
  cases a with
  | worker times job => exact hd.trans (Steady.of_rely env hr).count.symm
  | override key fields => exact hmem _ hd
  | exPost key failure =>
    obtain ⟨time, caseId, he⟩ := hd
    exact ⟨time, caseId, hmem _ he⟩

lemma Records.guar {key : RunKey} {a : Action} {n : ℕ} (h : Records s s' key a n) (i : ℕ) :
    (proto env i).Guar s s' := by
  obtain ⟨⟨run, updated, time, -, rfl, -, -, -, rfl⟩, -⟩ := h
  refine ⟨[.recorded updated.key a n], ⟨rfl, ?_⟩, ?_⟩
  · intro key hn
    have hne : key ≠ updated.key := by
      rintro rfl
      have := hn _ List.mem_cons_self
      simp [Entry.records] at this
    show ((s.storage.putRun updated time).evaluationRuns.get? key).map (·.summary) = summaryAt s key
    rw [get?_putRun, if_neg hne]
    rfl
  · intro e he j hj
    obtain rfl := List.mem_singleton.mp he
    cases hj

lemma safe_recording {Q : Except InMemory.Exn o.Ans → Sys → Prop} (hrs : ∀ err t, Q (.error err) t)
    (h : ∀ e t, (∃ r key a n, (perform env i o e t).1 = .ok r ∧ Records t (perform env i o e t).2 key a n ∧
      (.recorded key a n ∈ (perform env i o e t).2.log → Q (.ok r) (perform env i o e t).2)) ∨
      ∃ err, perform env i o e t = (.error err, t)) : Safe (proto env i) Q (Coro.perform o) s := by
  refine Safe.perform_iff.mpr ?_
  intro t _ ht
  refine ⟨trivial, ?_⟩
  intro e _
  show Kept env (perform env i o e t).2 ∧ (proto env i).Guar t (perform env i o e t).2 ∧
    Q (perform env i o e t).1 (perform env i o e t).2
  rcases h e t with ⟨r, key, a, n, hr, hrc, hd⟩ | ⟨err, herr⟩
  · refine ⟨ht.record env hrc, hrc.guar env i, ?_⟩
    rw [hr]
    apply hd
    obtain ⟨⟨run, updated, time, -, -, -, -, -, haf⟩, -⟩ := hrc
    rw [haf]
    exact List.mem_append_right _ List.mem_cons_self
  · rw [herr]
    exact ⟨ht, ⟨[], .refl t, fun _ h => absurd h List.not_mem_nil⟩, hrs err t⟩

lemma safe_override (i : ℕ) (key : RunKey) (fields : Fields) (s : Sys) :
    Safe (proto env i) (Done i (.override key fields)) (Call.code env (.override key fields)) s := by
  refine Safe.bind_iff.mpr (safe_recording env (fun err t n hn => by cases hn) fun e t => ?_)
  rcases perform_override env i key fields e t with ⟨r, hr, hrc⟩ | herr
  · refine .inl ⟨r, key, _, _, hr, hrc, ?_⟩
    intro hmem n hn
    cases hn
    exact hmem
  · exact .inr herr

lemma safe_exPost (i : ℕ) (key : RunKey) (failure : Fields) (s : Sys) :
    Safe (proto env i) (Done i (.exPost key failure)) (Call.code env (.exPost key failure)) s := by
  refine Safe.bind_iff.mpr (safe_recording env (fun err t n hn => by cases hn) fun e t => ?_)
  rcases perform_exPost env i key failure e t with ⟨r, time, caseId, hr, hrc⟩ | herr
  · refine .inl ⟨r, key, _, _, hr, hrc, ?_⟩
    intro hmem n hn
    cases hn
    exact ⟨time, caseId, hmem⟩
  · exact .inr herr

lemma composes (storage : Storage) :
    System.Composes (system env) (fun c ev => writesUntouched c ev) (start storage) (fun i _ => proto env i)
      (Kept env) (fun labels s => ∀ e ∈ s.log, ∀ j, e.isBy j → j < labels.length) Done where
  inv _ _ := rfl
  perform _ _ := rfl
  calls := rfl
  init := by
    refine ⟨⟨?_, ?_, ?_⟩, fun _ h => absurd h List.not_mem_nil⟩
    · intro key a n h
      cases h
    · intro key a n h
      cases h
    · intro key validation h
      cases h
  ok := by
    intro c i e a o k _ hp hi
    cases o with
    | recordEvaluationRun r =>
      simp only [writesUntouched, hi] at hp
      exact hp
    | _ => trivial
  stable _ _ _ _ _ hrely h := h.stable env hrely
  start := by
    intro c a _ _ hs hI
    have hn : c.store.log.countP (Entry.isWriteOf c.calls.length) = 0 := by
      rw [List.countP_eq_zero]
      intro e he hw
      have hby : e.isBy c.calls.length := by
        cases e with
        | wrote j key validation => exact hw
        | _ => cases hw
      have := hI e he _ hby
      simp [Config.labels] at this
    refine ⟨?_, ?_⟩
    · intro e he j hj
      have := hI e he j hj
      rw [List.length_append]
      omega
    · cases a with
      | worker times job => exact safe_run env times job c.store hn
      | override key fields => exact safe_override env _ key fields c.store
      | exPost key failure => exact safe_exPost env _ key failure c.store
  disturb _ x := x.elim
  keep := by
    rintro ls i a s s' _ hI hi ⟨new, ⟨hlog, -⟩, hby⟩ _ e he j hj
    rw [hlog] at he
    rcases List.mem_append.mp he with he | he
    · exact hI e he j hj
    · obtain rfl := hby e he j hj
      exact (List.getElem?_eq_some_iff.mp hi).1
  others := by
    rintro ls i j a b s s' _ _ _ _ hij ⟨new, hnew, hby⟩ _
    refine ⟨new, hnew, ?_⟩
    intro e he
    rw [Bool.eq_false_iff]
    intro hj
    exact hij (hby e he j hj).symm

/-- **Overrides and failures stay** in every run in which each write of the worker finds nothing recorded on the
evaluation run since the worker has listed it. -/
theorem run_nothingLost (storage : Storage) (c : Calls)
    (h : (system env).Run (fun c ev => writesUntouched c ev = true) (start storage) c) : NothingLost env c := by
  obtain ⟨hkept, -, hsafe⟩ := System.Run.safe (composes env storage) h
  refine ⟨hkept.revisions, fun _ _ _ => hkept.stored env, hkept.results, ?_, ?_, ?_⟩
  · intro i key fields n hi
    exact hsafe i _ _ hi n rfl
  · intro i key failure n hi
    exact hsafe i _ _ hi n rfl
  · intro i times job n hi
    exact hsafe i _ _ hi n rfl

def plainEnv : Env where
  store := ⟨Builtins.ascii, id, id, fun _ => none⟩
  hub := true
  validatePolicy := some
  enrichMetrics _ _ run := .ok run.metrics
  baselineFromHub _ := .ok (Dict.ofList [("var_99", .int 1)])
  baselineFromSnapshot _ := .ok Dict.empty
  baselineFromRuns _ _ _ := .ok Dict.empty
  augmentMetrics _ _ _ run := .ok run.metrics
  evaluate runs _ _ := .ok (Dict.ofList (runs.map fun run => (run.strategyId, Dict.ofList [("live", .bool true)])))

def worker : Call := .worker (fun _ => "2025-01-02T00:00:00Z") ⟨"w", by decide, none, .policy .none, none, none⟩

def approval : Call := .override ("w", "s", "r")
  (Dict.ofList [("status", .str "approved"), ("reason", .str "reviewed"), ("actor", .str "risk")])

def oneRun : Storage :=
  Storage.empty.recordEvaluationRun "2025-01-01T00:00:00Z"
    ⟨"w", "s", "r", "paper", "low", none, Dict.empty, Dict.empty, Dict.empty, none, none⟩

def noon : Choice := ⟨"2025-01-02T12:00:00Z", "case", none⟩

def statusOf (summary : Fields) : Option String :=
  match summary.get "override_status" with
  | .str s => some s
  | _ => none

def returned (c : Calls) : List (Option ℕ) := c.calls.map fun e =>
  match e.2 with
  | .ret n => some n
  | _ => none

def statuses (c : Calls) : List (Option String) × Option (Option String) :=
  ((c.store.storage.history ("w", "s", "r")).map fun rev => statusOf rev.payload.summary,
    (c.store.storage.evaluationRuns.get? ("w", "s", "r")).map fun run => statusOf run.summary)

/-- The override is recorded before the worker lists the runs. -/
theorem run_nothingLost_approvedFirst : ∃ c, returned c = [some 1, some 2] ∧
      statuses c = ([none, some "approved", some "approved"], some (some "approved")) ∧ NothingLost plainEnv c := by
  obtain ⟨c, hrun, hcheck⟩ := exists_run (system plainEnv).step (start oneRun) writesUntouched
    [.start worker, .start approval, .resume 1 noon, .resume 0 noon, .resume 0 noon, .resume 0 noon]
    (fun c => decide (returned c = [some 1, some 2] ∧
      statuses c = ([none, some "approved", some "approved"], some (some "approved")))) (by decide +kernel)
  obtain ⟨hreturned, hstatuses⟩ := of_decide_eq_true hcheck
  exact ⟨c, hreturned, hstatuses, run_nothingLost plainEnv oneRun c hrun⟩

def Entry.isApproval (n : ℕ) : Entry → Bool
  | .recorded key (.override fields) n' =>
    key = ("w", "s", "r") && n' = n && (match fields.get "status" with
      | .str s => s = "approved"
      | _ => false)
  | _ => false

def Entry.overridesUpTo (n : ℕ) : Entry → Bool
  | .recorded _ (.override _) n' => n' ≤ n
  | _ => true

lemma exists_approval {log : List Entry} {n : ℕ} (h : log.any (Entry.isApproval n)) :
    ∃ fields, .recorded ("w", "s", "r") (.override fields) n ∈ log ∧ fields.get "status" = .str "approved" := by
  obtain ⟨e, he, hap⟩ := List.any_eq_true.mp h
  cases e with
  | listed i => cases hap
  | wrote i key validation => cases hap
  | recorded key a n' =>
    cases a with
    | failure event => cases hap
    | override fields =>
      simp only [Entry.isApproval, Bool.and_eq_true, decide_eq_true_eq] at hap
      obtain ⟨⟨rfl, rfl⟩, hs⟩ := hap
      refine ⟨fields, he, ?_⟩
      split at hs
      · rename_i text htext
        rw [htext, of_decide_eq_true hs]
      · cases hs

/-- The override is recorded after the worker has listed the runs: the write takes it back. -/
theorem approval_lost :
    ∃ c, (system plainEnv).Run (fun _ _ => True) (start oneRun) c ∧ returned c = [some 1, some 2] ∧
      statuses c = ([none, some "approved", none], some none) ∧ ¬ NothingLost plainEnv c := by
  obtain ⟨c, hrun, hcheck⟩ := exists_run (system plainEnv).step (start oneRun) (fun _ _ => true)
    [.start worker, .start approval, .resume 0 noon, .resume 1 noon, .resume 0 noon, .resume 0 noon]
    (fun c => decide (returned c = [some 1, some 2] ∧ statuses c = ([none, some "approved", none], some none)) &&
      c.store.log.any (Entry.isApproval 2) &&
      c.store.log.all (Entry.overridesUpTo 2)) (by decide +kernel)
  rw [Bool.and_eq_true, Bool.and_eq_true] at hcheck
  obtain ⟨⟨hstate, hany⟩, hall⟩ := hcheck
  obtain ⟨hreturned, hstatuses⟩ := of_decide_eq_true hstate
  refine ⟨c, hrun.mono fun _ _ _ => trivial, hreturned, hstatuses, ?_⟩
  intro h
  obtain ⟨fields, hmem, hstatus⟩ := exists_approval hany
  have hstand : Standing c.store.log ("w", "s", "r") (.override fields) 2
      (c.store.storage.history ("w", "s", "r")).length := by
    intro fields' n' hmem' hlt
    have hle := of_decide_eq_true (List.all_eq_true.mp hall _ hmem')
    omega
  obtain ⟨run, hget, hshown, -⟩ := h.stored _ _ _ hmem hstand
  have hstored : (some (statusOf run.summary) : Option (Option String)) = some none := by
    have := (Prod.mk.inj hstatuses).2
    rw [hget] at this
    exact this
  unfold statusOf at hstored
  rw [hshown, hstatus] at hstored
  cases hstored

end Qmtl.WorldService.ExtendedValidation

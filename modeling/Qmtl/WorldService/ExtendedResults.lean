import Qmtl.Lib.Hoare
import Qmtl.WorldService.OverrideRuns
import Qmtl.WorldService.Policy.ExtendedLayers
import Qmtl.WorldService.Policy.ResultDump

/-! The worker with the extended layers of the policy engine, running alone: it prepares the runs of a world, evaluates
them together, and writes each with the results of its strategy. -/

namespace Qmtl.WorldService.ExtendedValidation

open Lib WorldService.InMemory

structure LayerEnv where
  engine : PolicyEngine.Env
  divide : Double → Double → Double
  policyOf : Value → PolicyEngine.Policy
  readFloat : PyFloat → Double
  writeFloat : Double → PyFloat
  writeFloat_injective : Function.Injective writeFloat

section

variable (env : Env) (layers : LayerEnv)

def runMetrics (run : EvaluationRunRecord) : PolicyEngine.RunMetrics :=
  (run.strategyId, run.metrics.entries.map fun e =>
    (e.1, PolicyEngine.payloadOf env.store.builtins layers.engine.float layers.readFloat e.2))

def metricsOf (run : EvaluationRunRecord) : PolicyEngine.Metrics :=
  PolicyEngine.flattenEvaluationMetrics layers.divide (runMetrics env layers run).2

def evaluateRuns (runs : List EvaluationRunRecord) (policy : Value) (stage : Option String) :
    Dict String (Dict String Value) :=
  (PolicyEngine.evaluateExtendedLayers layers.engine layers.divide (runs.map (runMetrics env layers))
    (layers.policyOf policy) stage).mapValues fun results =>
      results.mapValues (PolicyEngine.RuleResult.dump layers.writeFloat)

def withLayers : Env :=
  { env with evaluate := fun runs policy stage => .ok (evaluateRuns env layers runs policy stage) }

/-! ### The worker alone -/

def prepare (job : Job) : Task (Option (Value × List EvaluationRunRecord)) := do
  let policy ← resolvePolicy env job
  match policy with
  | none => return none
  | some policy =>
    let runs ← Coro.perform (Op.listEvaluationRuns job.worldId)
    let filtered := filterRuns env job runs
    if filtered.isEmpty then return none
    else
      let hub ← latestHubSnapshot env job.worldId
      let enriched ← Coro.ofExcept (filtered.mapM (enrichRun env job hub))
      let fromHub ← Coro.ofExcept (env.baselineFromHub hub)
      let augmented ← augmentRuns env job hub fromHub enriched
      return some (policy, augmented)

def finish (times : RunKey → String) (job : Job) : Option (Value × List EvaluationRunRecord) → Task ℕ
  | none => return 0
  | some (policy, augmented) => do
    let extended ← Coro.ofExcept (env.evaluate augmented policy job.stage)
    if extended.entries.isEmpty then return 0
    else persistAll env times job extended augmented

lemma run_eq (times : RunKey → String) (job : Job) :
    run env times job = (prepare env job).bind (finish env times job) := by
  unfold run prepare
  simp only [Coro.bind_eq, Coro.bind_assoc]
  congr 1
  funext policy
  cases policy with
  | none => rfl
  | some policy =>
    simp only [Coro.bind_assoc]
    congr 1
    funext runs
    split
    · rfl
    · simp only [Coro.bind_assoc]
      rfl

/-- The operations answered one after the other; `choose` says what the time is and what the hub answers. -/
def alone (choose : Op → Sys → Choice) (o : Op) (s : Sys) : Except InMemory.Exn o.Ans × Sys :=
  perform env 0 o (choose o s) s

def prepared (choose : Op → Sys → Choice) (job : Job) (s : Sys) : Option (Value × List EvaluationRunRecord) :=
  match (Coro.exec (alone env choose) (prepare env job) s).1 with
  | .ok p => p
  | .error _ => none

def after (choose : Op → Sys → Choice) (times : RunKey → String) (job : Job) (s : Sys) : Sys :=
  (Coro.exec (alone env choose) (run env times job) s).2

def lastRun (runs : List EvaluationRunRecord) (sid : String) : Option EvaluationRunRecord :=
  (runs.filter fun r => r.strategyId = sid).getLast?

def OwnResults (policy : Value) (stage : Option String) (stored : EvaluationRunRecord) : Prop :=
  ∀ e ∈ PolicyEngine.ownLayerResults layers.engine (layers.policyOf policy) stage (metricsOf env layers stored),
    Value.lookup e.1 (mappingOf (stored.validation.get "results")) = some (e.2.dump layers.writeFloat)

/-- Every run of a strategy that the worker has evaluated ends up with results of its own. -/
def ResultsOwned (choose : Op → Sys → Choice) (times : RunKey → String) (job : Job) (s : Sys) : Prop :=
  ∀ policy runs, prepared (withLayers env layers) choose job s = some (policy, runs) → ∀ r ∈ runs, r.strategyId ≠ "" →
    ∃ stored, (after (withLayers env layers) choose times job s).storage.evaluationRuns.get? r.key = some stored ∧
      OwnResults env layers policy job.stage stored

def RunsAlike (choose : Op → Sys → Choice) (job : Job) (s : Sys) : Prop :=
  ∀ policy runs, prepared (withLayers env layers) choose job s = some (policy, runs) → ∀ r ∈ runs, r.strategyId ≠ "" →
    ∀ last, lastRun runs r.strategyId = some last →
      PolicyEngine.ReadAlike layers.engine (layers.policyOf policy) job.stage (metricsOf env layers r)
        (metricsOf env layers last)

/-! ### What is prepared -/

variable {choose : Op → Sys → Choice}

structure Listed (storage : Storage) (worldId : String) (runs : List EvaluationRunRecord) : Prop where
  distinct : (runs.map EvaluationRunRecord.key).Nodup
  world : ∀ r ∈ runs, r.worldId = worldId
  stored : ∀ r ∈ runs, ∃ r', storage.evaluationRuns.get? r.key = some r'

variable {storage : Storage} {worldId : String}

lemma listed_listEvaluationRuns (hne : worldId ≠ "") :
    Listed storage worldId (storage.listEvaluationRuns worldId none) := by
  have hmem : ∀ r ∈ storage.listEvaluationRuns worldId none,
      r.worldId = worldId ∧ storage.evaluationRuns.get? r.key = some r := fun r h => mem_listEvaluationRuns hne h
  refine ⟨?_, fun r h => (hmem r h).1, fun r h => ⟨r, (hmem r h).2⟩⟩
  have hkeys : ∀ es : List (RunKey × EvaluationRunRecord), (∀ e ∈ es, e ∈ storage.evaluationRuns.entries) →
      (es.map Prod.snd).map EvaluationRunRecord.key = es.map Prod.fst := by
    intro es hes
    rw [List.map_map]
    exact List.map_congr_left fun e he => storage.keyed e.1 e.2 (Dict.get?_eq_some.mpr (hes e he))
  refine ((List.perm_insertionSort _ _).map _).nodup_iff.mpr ?_
  rw [hkeys _ fun e he => (List.mem_filter.mp he).1]
  exact storage.evaluationRuns.nodup.sublist (List.filter_sublist.map _)

lemma Listed.sublist {runs runs' : List EvaluationRunRecord}
    (h : Listed storage worldId runs) (hsub : runs'.Sublist runs) : Listed storage worldId runs' where
  distinct := h.distinct.sublist (hsub.map _)
  world r hr := h.world r (hsub.subset hr)
  stored r hr := h.stored r (hsub.subset hr)

lemma Listed.same {runs runs' : List EvaluationRunRecord}
    (h : Listed storage worldId runs) (hs : List.Forall₂ SameRun runs runs') : Listed storage worldId runs' := by
  have hkeys : runs'.map EvaluationRunRecord.key = runs.map EvaluationRunRecord.key := by
    induction hs with
    | nil => rfl
    | cons hrun _ ih =>
      rw [List.map_cons, List.map_cons, hrun.2.1, ih (h.sublist (List.sublist_cons_self _ _))]
  have hof : ∀ r' ∈ runs', ∃ r ∈ runs, SameRun r r' := by
    intro r' hr'
    obtain ⟨i, hi, rfl⟩ := List.mem_iff_getElem.mp hr'
    have hi' : i < runs.length := hs.length_eq ▸ hi
    exact ⟨runs[i], List.getElem_mem hi', hs.get hi' hi⟩
  refine ⟨by rw [hkeys]; exact h.distinct, fun r' hr' => ?_, fun r' hr' => ?_⟩
  · obtain ⟨r, hr, hs⟩ := hof r' hr'
    rw [hs.1]
    exact h.world r hr
  · obtain ⟨r, hr, hs⟩ := hof r' hr'
    rw [hs.2.1]
    exact h.stored r hr

lemma filterRuns_sublist (job : Job) (runs : List EvaluationRunRecord) : (filterRuns env job runs).Sublist runs := by
  unfold filterRuns
  have hf : ∀ (p : EvaluationRunRecord → Bool) {l : List EvaluationRunRecord}, l.Sublist runs →
      (l.filter p).Sublist runs := fun _ _ h => List.filter_sublist.trans h
  grind

lemma storage_alone {o : Op} (h : o.isRead) (s : Sys) : (alone env choose o s).2.storage = s.storage := by
  unfold alone
  rcases perform_of_isRead env (i := 0) h (choose o s) s with heq | heq <;> rw [heq]

lemma uses_augmentRun (job : Job) (hub : Option Fields) (fromHub : Fields) (r : EvaluationRunRecord) :
    Uses (fun o => o.isRead) (augmentRun env job hub fromHub r) := by
  unfold augmentRun
  split
  · trivial
  · refine Uses.bind ?_ fun baseline => Uses.bind (Uses.ofExcept _) fun metrics => trivial
    split
    · exact uses_portfolioBaseline env _ _
    · trivial

lemma uses_augmentRuns (job : Job) (hub : Option Fields) (fromHub : Fields) (runs : List EvaluationRunRecord) :
    Uses (fun o => o.isRead) (augmentRuns env job hub fromHub runs) := by
  induction runs with
  | nil => trivial
  | cons r runs ih => exact Uses.bind (uses_augmentRun env job hub fromHub r) fun r' => Uses.bind ih fun runs' => trivial

lemma uses_prepare (job : Job) : Uses (fun o => o.isRead) (prepare env job) := by
  refine Uses.bind (uses_resolvePolicy env job) fun policy => ?_
  cases policy with
  | none => trivial
  | some policy =>
    refine Uses.bind (Uses.perform rfl) fun runs => ?_
    dsimp only
    split
    · trivial
    · refine Uses.bind (uses_latestHubSnapshot env _) fun hub => Uses.bind (Uses.ofExcept _) fun enriched => ?_
      refine Uses.bind (Uses.ofExcept _) fun fromHub => ?_
      exact Uses.bind (uses_augmentRuns env job hub fromHub enriched) fun augmented => trivial

lemma wp_reads {α : Type} {m : Task α} (hm : Uses (fun o => o.isRead) m) (s : Sys) :
    Coro.wp (alone env choose) m (fun _ s' => s'.storage = s.storage) s :=
  Coro.wp_of_uses (K := fun s' => s'.storage = s.storage) hm (fun _ ho s' hs' => (storage_alone env ho s').trans hs') rfl

lemma wp_augmentRun {job : Job} {hub : Option Fields} {fromHub : Fields} (r : EvaluationRunRecord) (s : Sys) :
    Coro.wp (alone env choose) (augmentRun env job hub fromHub r) (fun a _ => ∀ r', a = .ok r' → SameRun r r') s := by
  unfold augmentRun
  split
  · intro r' h
    cases h
    exact ⟨rfl, rfl, rfl⟩
  · refine Coro.wp_seq (M := fun _ _ => True) trivial (fun baseline s₁ _ => ?_) fun e s₁ _ r' h => by cases h
    cases env.augmentMetrics hub fromHub baseline r with
    | error e => exact fun _ h => by cases h
    | ok metrics =>
      intro r' h
      cases h
      exact ⟨rfl, rfl, rfl⟩

lemma wp_augmentRuns {job : Job} {hub : Option Fields} {fromHub : Fields} (runs : List EvaluationRunRecord) (s : Sys) :
    Coro.wp (alone env choose) (augmentRuns env job hub fromHub runs)
      (fun a _ => ∀ runs', a = .ok runs' → List.Forall₂ SameRun runs runs') s := by
  induction runs generalizing s with
  | nil =>
    intro runs' h
    cases h
    exact .nil
  | cons r runs ih =>
    refine Coro.wp_seq (wp_augmentRun env r s) (fun r' s₁ hr => ?_) fun e s₁ _ l h => by cases h
    refine Coro.wp_seq (ih s₁) (fun runs' s₂ hrn => ?_) fun e s₂ _ l h => by cases h
    intro l h
    cases h
    exact .cons (hr r' rfl) (hrn runs' rfl)

lemma listed_of_prepared {job : Job} {s : Sys} {policy : Value} {runs : List EvaluationRunRecord}
    (h : prepared env choose job s = some (policy, runs)) : Listed s.storage job.worldId runs := by
  have hwp : Coro.wp (alone env choose) (prepare env job)
      (fun a _ => ∀ policy runs, a = .ok (some (policy, runs)) → Listed s.storage job.worldId runs) s := by
    refine Coro.wp_seq (wp_reads env (uses_resolvePolicy env job) s) (fun policy s₁ hs₁ => ?_)
      fun e s₁ _ p l h => by cases h
    cases policy with
    | none => exact fun p l h => by cases h
    | some policy =>
      refine (Coro.wp_perform_bind (a := s₁.storage.listEvaluationRuns job.worldId none) rfl).mpr ?_
      dsimp only
      split
      · exact fun p l h => by cases h
      refine Coro.wp_seq (M := fun _ _ => True) trivial (fun hub s₂ _ => ?_) fun e s₂ _ p l h => by cases h
      cases hen : (filterRuns env job (s₁.storage.listEvaluationRuns job.worldId none)).mapM
          (enrichRun env job hub) with
      | error e => exact fun p l h => by cases h
      | ok enriched =>
        cases env.baselineFromHub hub with
        | error e => exact fun p l h => by cases h
        | ok fromHub =>
          have hl : Listed s.storage job.worldId (s₁.storage.listEvaluationRuns job.worldId none) := by
            rw [hs₁]
            exact listed_listEvaluationRuns job.named
          have hs := (mapM_ok hen).imp fun _ _ h => sameRun_enrichRun env h
          have hl := (hl.sublist (filterRuns_sublist env job _)).same hs
          show Coro.wp _ ((augmentRuns env job hub fromHub enriched).bind _) _ s₂
          refine Coro.wp_seq (wp_augmentRuns env enriched s₂) (fun augmented s₃ ha => ?_) fun e s₃ _ p l h => by cases h
          intro policy' runs' h
          cases Except.ok.inj h
          exact hl.same (ha augmented rfl)
  unfold prepared at h
  split at h
  · rename_i p hp
    obtain rfl : p = some (policy, runs) := h
    exact hwp policy runs hp
  · cases h

/-! ### What is written -/

variable {times : RunKey → String} {extended : Dict String (Dict String Value)} {job : Job}

structure Persisted (times : RunKey → String) (extended : Dict String (Dict String Value)) (storage storage' : Storage)
    (runs : List EvaluationRunRecord) : Prop where
  others : ∀ key, key ∉ runs.map EvaluationRunRecord.key →
    storage'.evaluationRuns.get? key = storage.evaluationRuns.get? key
  kept : ∀ key r, storage.evaluationRuns.get? key = some r → ∃ r', storage'.evaluationRuns.get? key = some r'
  written : ∀ r ∈ runs, r.strategyId ≠ "" → ∀ results, extended.get? r.strategyId = some results →
    ∃ stored, storage'.evaluationRuns.get? r.key = some stored ∧ stored.metrics = r.metrics ∧
      stored.validation = withResults env r.validation results (times r.key)

lemma Persisted.nothing {runs : List EvaluationRunRecord} (storage : Storage)
    (h : ∀ r ∈ runs, r.strategyId ≠ "" → extended.get? r.strategyId = none) :
    Persisted env times extended storage storage runs where
  others _ _ := rfl
  kept _ r hr := ⟨r, hr⟩
  written r hr hne results hrs := by
    rw [h r hr hne] at hrs
    cases hrs

lemma Persisted.cons {storage storage₁ storage₂ : Storage} {r : EvaluationRunRecord} {runs : List EvaluationRunRecord}
    (h : Persisted env times extended storage storage₁ [r]) (h' : Persisted env times extended storage₁ storage₂ runs)
    (hr : r.key ∉ runs.map EvaluationRunRecord.key) : Persisted env times extended storage storage₂ (r :: runs) where
  others key hkey := by
    rw [List.map_cons, List.mem_cons, not_or] at hkey
    refine (h'.others key hkey.2).trans (h.others key ?_)
    rw [List.map_singleton, List.mem_singleton]
    exact hkey.1
  kept key r₀ hr₀ := by
    obtain ⟨r₁, hr₁⟩ := h.kept key r₀ hr₀
    exact h'.kept key r₁ hr₁
  written r' hr' hne results hrs := by
    rcases List.mem_cons.mp hr' with rfl | hmem
    · obtain ⟨stored, hget, hstored⟩ := h.written r' (.head _) hne results hrs
      exact ⟨stored, (h'.others _ hr).trans hget, hstored⟩
    · exact h'.written r' hmem hne results hrs

lemma get?_recordEvaluationRun (storage : Storage) (now : String) (request : RunRequest) :
    ∃ stored, stored.metrics = request.metrics ∧ stored.validation = request.validation ∧
      ∀ key, (storage.recordEvaluationRun now request).evaluationRuns.get? key =
        if key = request.key then some stored else storage.evaluationRuns.get? key :=
  ⟨_, rfl, rfl, get?_putRun storage _ _⟩

lemma wp_persist {r : EvaluationRunRecord} (hw : r.worldId = job.worldId) (s : Sys) :
    Coro.wp (alone env choose) (persistExtendedResults env times job extended r)
      (fun a s' => (∃ n, a = .ok n) ∧ Persisted env times extended s.storage s'.storage [r]) s := by
  unfold persistExtendedResults
  split
  · rename_i hempty
    refine ⟨⟨0, rfl⟩, .nothing env s.storage fun r' hr' hne => absurd ?_ hne⟩
    rw [List.mem_singleton.mp hr']
    exact hempty
  split
  · rename_i hn
    refine ⟨⟨0, rfl⟩, .nothing env s.storage fun r' hr' _ => ?_⟩
    rw [List.mem_singleton.mp hr']
    exact hn
  · rename_i results hr
    refine (Coro.wp_perform_bind (a := ()) rfl).mpr ⟨⟨1, rfl⟩, ?_⟩
    have hkey : (requestOf env job r results (times r.key)).key = r.key := by
      show (job.worldId, r.strategyId, r.runId) = (r.worldId, r.strategyId, r.runId)
      rw [hw]
    obtain ⟨stored, hm, hv, hget⟩ := get?_recordEvaluationRun s.storage
      (choose (.recordEvaluationRun (requestOf env job r results (times r.key))) s).now
      (requestOf env job r results (times r.key))
    rw [hkey] at hget
    refine ⟨fun key hne => ?_, fun key r₀ hr₀ => ?_, fun r' hr' _ results' hrs' => ?_⟩
    · rw [List.map_singleton, List.mem_singleton] at hne
      exact (hget key).trans (if_neg hne)
    · by_cases hs : key = r.key
      · exact ⟨stored, (hget key).trans (if_pos hs)⟩
      · exact ⟨r₀, (hget key).trans ((if_neg hs).trans hr₀)⟩
    · obtain rfl := List.mem_singleton.mp hr'
      cases hr.symm.trans hrs'
      exact ⟨stored, (hget r'.key).trans (if_pos rfl), hm, hv⟩

lemma wp_persistAll {runs : List EvaluationRunRecord} (h : Listed storage job.worldId runs) (s : Sys) :
    Coro.wp (alone env choose) (persistAll env times job extended runs)
      (fun _ s' => Persisted env times extended s.storage s'.storage runs) s := by
  induction runs generalizing s with
  | nil => exact .nothing env s.storage fun r hr => absurd hr List.not_mem_nil
  | cons r runs ih =>
    have hrs := h.sublist (List.sublist_cons_self r runs)
    have hnot : r.key ∉ runs.map EvaluationRunRecord.key := (List.nodup_cons.mp h.distinct).1
    refine Coro.wp_seq (wp_persist env (h.world r List.mem_cons_self) s) (fun n s₁ hs₁ => ?_) fun e s₁ hs₁ => ?_
    · refine Coro.wp_seq (ih hrs s₁) (fun m s₂ hs₂ => hs₁.2.cons env hs₂ hnot) fun e s₂ hs₂ => hs₁.2.cons env hs₂ hnot
    · obtain ⟨n, hn⟩ := hs₁.1
      cases hn

end

variable (env : Env) (layers : LayerEnv) {choose : Op → Sys → Choice} {times : RunKey → String} {job : Job} {s : Sys}
  {policy : Value} {runs : List EvaluationRunRecord}

lemma persisted_after (h : prepared (withLayers env layers) choose job s = some (policy, runs)) :
    Persisted (withLayers env layers) times (evaluateRuns env layers runs policy job.stage) s.storage
      (after (withLayers env layers) choose times job s).storage runs := by
  have hl := listed_of_prepared (withLayers env layers) h
  have hs : (Coro.exec (alone (withLayers env layers) choose) (prepare (withLayers env layers) job) s).2.storage =
      s.storage := wp_reads (withLayers env layers) (uses_prepare (withLayers env layers) job) s
  have hf : ∀ s₁ : Sys, Coro.wp (alone (withLayers env layers) choose)
      (finish (withLayers env layers) times job (some (policy, runs))) (fun _ s' =>
        Persisted (withLayers env layers) times (evaluateRuns env layers runs policy job.stage) s₁.storage s'.storage
          runs) s₁ := by
    intro s₁
    show Coro.wp _ (if (evaluateRuns env layers runs policy job.stage).entries.isEmpty then _ else _) _ s₁
    split
    · rename_i hempty
      refine .nothing (withLayers env layers) s₁.storage fun r _ _ => ?_
      unfold Dict.get?
      rw [List.isEmpty_iff.mp hempty]
      rfl
    · exact wp_persistAll (withLayers env layers) hl s₁
  unfold after
  rw [run_eq, Coro.exec_bind]
  unfold prepared at h
  rcases hex : Coro.exec (alone (withLayers env layers) choose) (prepare (withLayers env layers) job) s with ⟨a, s₁⟩
  rw [hex] at h hs
  cases a with
  | error e => cases h
  | ok p =>
    obtain rfl : p = some (policy, runs) := h
    rw [← show s₁.storage = s.storage from hs]
    exact hf s₁

/-! ### The results of a strategy -/

lemma lastMetrics_map (sid : String) : PolicyEngine.lastMetrics (runs.map (runMetrics env layers)) sid =
      (lastRun runs sid).map fun last => (runMetrics env layers last).2 := by
  unfold PolicyEngine.lastMetrics lastRun
  rw [List.filter_map, List.getLast?_map, Option.map_map]
  rfl

lemma exists_lastRun {r : EvaluationRunRecord} (hr : r ∈ runs) : ∃ last, lastRun runs r.strategyId = some last := by
  have hmem : r ∈ runs.filter fun r' => r'.strategyId = r.strategyId := List.mem_filter.mpr ⟨hr, decide_eq_true rfl⟩
  exact Option.isSome_iff_exists.mp (List.getLast?_isSome.mpr (List.ne_nil_of_mem hmem))

lemma eq_of_found {α β : Type} {f : α → β} (hf : Function.Injective f) {find : String → Option β}
    {l l' : List (String × α)} (hn : l.map Prod.fst = l'.map Prod.fst) (h : ∀ e ∈ l, find e.1 = some (f e.2))
    (h' : ∀ e ∈ l', find e.1 = some (f e.2)) : l = l' := by
  induction l generalizing l' with
  | nil => exact (List.map_eq_nil_iff.mp hn.symm).symm
  | cons e l ih =>
    cases l' with
    | nil => cases hn
    | cons e' l' =>
      rw [List.map_cons, List.map_cons, List.cons.injEq] at hn
      rw [List.forall_mem_cons] at h h'
      have hv : some (f e.2) = some (f e'.2) := by
        rw [← h.1, ← h'.1, hn.1]
      rw [ih hn.2 h.2 h'.2, show e = e' from Prod.ext hn.1 (hf (Option.some.inj hv))]

variable {r last : EvaluationRunRecord}

lemma get?_evaluateRuns (hl : lastRun runs r.strategyId = some last)
    (hne : r.strategyId ≠ "") (stage : Option String) :
    (∃ results, (evaluateRuns env layers runs policy stage).get? r.strategyId = some results ∧
      ∀ e ∈ PolicyEngine.ownLayerResults layers.engine (layers.policyOf policy) stage (metricsOf env layers last),
        results.get? e.1 = some (e.2.dump layers.writeFloat)) ∨
      (evaluateRuns env layers runs policy stage).get? r.strategyId = none ∧
        PolicyEngine.ownLayerResults layers.engine (layers.policyOf policy) stage (metricsOf env layers last) = [] := by
  have hget : (PolicyEngine.metricsMap layers.divide (runs.map (runMetrics env layers))).get? r.strategyId =
      some (metricsOf env layers last) := by
    rw [PolicyEngine.get?_metricsMap _ _ hne, lastMetrics_map, hl]
    rfl
  unfold evaluateRuns PolicyEngine.evaluateExtendedLayers
  rw [Dict.get?_mapValues, PolicyEngine.get?_mergeCrossStrategyLayers, hget, Option.map_some]
  have hs := @PolicyEngine.ownLayerResults_subset layers.engine r.strategyId stage (metricsOf env layers last)
    (layers.policyOf policy) (PolicyEngine.metricsMap layers.divide (runs.map (runMetrics env layers)))
  have hn := (@PolicyEngine.layerResults_sublist layers.engine (layers.policyOf policy)
    (PolicyEngine.metricsMap layers.divide (runs.map (runMetrics env layers))) stage r.strategyId
    (metricsOf env layers last)).nodup (by decide)
  generalize PolicyEngine.layerResults layers.engine _ _ stage _ _ = all at hs hn ⊢
  by_cases hempty : all = []
  · refine .inr ⟨by rw [hempty]; rfl, ?_⟩
    rw [hempty] at hs
    exact List.subset_nil.mp hs
  · refine .inl ⟨(Dict.ofList all).mapValues (PolicyEngine.RuleResult.dump layers.writeFloat), ?_, fun e he => ?_⟩
    · rw [Option.filter_some_pos (by rw [Dict.entries_ofList hn]; simpa using hempty), Option.map_some]
    · rw [Dict.get?_mapValues, Dict.get?_eq_some.mpr (by rw [Dict.entries_ofList hn]; exact hs he)]
      rfl

lemma ownResults_iff (h : prepared (withLayers env layers) choose job s = some (policy, runs))
    (hr : r ∈ runs) (hne : r.strategyId ≠ "") (hl : lastRun runs r.strategyId = some last) :
    (∃ stored, (after (withLayers env layers) choose times job s).storage.evaluationRuns.get? r.key = some stored ∧
      OwnResults env layers policy job.stage stored) ↔
      PolicyEngine.ReadAlike layers.engine (layers.policyOf policy) job.stage (metricsOf env layers r)
        (metricsOf env layers last) := by
  have hp := @persisted_after env layers choose times job s policy runs h
  rw [← PolicyEngine.ownLayerResults_eq_iff]
  rcases get?_evaluateRuns env layers hl hne job.stage with ⟨results, hrs, hf⟩ | ⟨hnn, hnil⟩
  · obtain ⟨stored, hget, hm, hv⟩ := hp.written r hr hne results hrs
    have hown : metricsOf env layers stored = metricsOf env layers r := by
      unfold metricsOf runMetrics
      rw [hm]
    have hc : ∀ e ∈ PolicyEngine.ownLayerResults layers.engine (layers.policyOf policy) job.stage
        (metricsOf env layers last),
        Value.lookup e.1 (mappingOf (stored.validation.get "results")) = some (e.2.dump layers.writeFloat) := by
      intro e he
      rw [hv]
      exact carries_withResults (withLayers env layers) r.validation results (times r.key) e.1 _ (hf e he)
    constructor
    · rintro ⟨stored', hg', hr'⟩
      cases hget.symm.trans hg'
      unfold OwnResults at hr'
      rw [hown] at hr'
      exact @eq_of_found _ _ _ (PolicyEngine.RuleResult.dump_injective layers.writeFloat_injective)
        (fun name => Value.lookup name (mappingOf (stored.validation.get "results"))) _ _
        (PolicyEngine.names_ownLayerResults _ _) hr' hc
    · intro hs
      refine ⟨stored, hget, ?_⟩
      unfold OwnResults
      rw [hown, hs]
      exact hc
  · -- no layer is configured, so that nothing is asked of any metrics
    have hall : ∀ vals, PolicyEngine.ownLayerResults layers.engine (layers.policyOf policy) job.stage vals = [] := by
      intro vals
      have hn := @PolicyEngine.names_ownLayerResults layers.engine job.stage (layers.policyOf policy) vals
        (metricsOf env layers last)
      rw [hnil] at hn
      exact List.map_eq_nil_iff.mp hn
    refine iff_of_true ?_ (by rw [hall, hall])
    obtain ⟨r', hget⟩ := (listed_of_prepared (withLayers env layers) h).stored r hr
    obtain ⟨stored, hstored⟩ := hp.kept r.key r' hget
    refine ⟨stored, hstored, fun e he => ?_⟩
    rw [hall] at he
    cases he

/-- **Results belong to the last run of a strategy**: every run ends up with what the portfolio, benchmark, stress and
paper/shadow layers compute with its own metrics, exactly when they read it as they read the last run of its
strategy. -/
theorem results_owned_iff (env : Env) (layers : LayerEnv) (choose : Op → Sys → Choice) (times : RunKey → String)
    (job : Job) (s : Sys) : ResultsOwned env layers choose times job s ↔ RunsAlike env layers choose job s := by
  constructor
  · intro howned policy runs h r hr hne last hlast
    exact (ownResults_iff env layers h hr hne hlast).mp (howned policy runs h r hr hne)
  · intro halike policy runs h r hr hne
    obtain ⟨last, hlast⟩ := exists_lastRun hr
    exact (ownResults_iff env layers h hr hne hlast).mpr (halike policy runs h r hr hne last hlast)

/-! ### Two runs of one strategy -/

/-- A number by its numerator and its denominator, so that a whole number is written as `repr` writes it. -/
def fractionText (q : ℚ) : String := toString q.num ++ "." ++ (q.den - 1).repr

lemma isFloatText_fraction (sign : List Char) (hs : sign = [] ∨ sign = ['-']) (n m : ℕ) :
    isFloatText (String.ofList (sign ++ (n.repr.toList ++ '.' :: m.repr.toList))) := by
  obtain ⟨c, cs, hn⟩ : ∃ c cs, n.repr.toList = c :: cs :=
    List.exists_cons_of_ne_nil fun h => Nat.repr_ne_empty (String.toList_injective (h.trans rfl))
  have hc : c.isDigit := isDigit_of_mem_repr (n := n) (by rw [hn]; exact .head _)
  have hm : c ≠ '-' := fun h => by rw [h] at hc; exact absurd hc (by decide)
  have hb : (n.repr.toList ++ '.' :: m.repr.toList).all
      (fun d => d.isDigit || d = '.' || d = 'e' || d = '+' || d = '-') := by
    rw [List.all_eq_true]
    intro d hd
    rcases List.mem_append.mp hd with hd | hd
    · simp [isDigit_of_mem_repr hd]
    · rcases List.mem_cons.mp hd with rfl | hd
      · decide
      · simp [isDigit_of_mem_repr hd]
  have hdot : (n.repr.toList ++ '.' :: m.repr.toList).contains '.' := by simp
  have hh : (n.repr.toList ++ '.' :: m.repr.toList).head? = some c := by rw [hn]; rfl
  unfold isFloatText
  rw [String.toList_ofList]
  rcases hs with rfl | rfl
  · rw [List.nil_append, hh, if_neg fun h => hm (Option.some.inj h)]
    simp only [hb, hdot, hh, Option.any_some, hc, Bool.true_or, Bool.and_self]
  · rw [List.singleton_append, List.head?_cons, if_pos rfl, List.tail_cons]
    simp only [hb, hdot, hh, Option.any_some, hc, Bool.true_or, Bool.and_self]

lemma toList_fractionText (q : ℚ) :
    (fractionText q).toList = (toString q.num).toList ++ '.' :: (q.den - 1).repr.toList := by
  simp [fractionText]

lemma isFloatText_fractionText (q : ℚ) : isFloatText (fractionText q) := by
  rw [← String.ofList_toList (s := fractionText q), toList_fractionText]
  cases q.num with
  | ofNat n =>
    have hnum : toString (Int.ofNat n) = n.repr := rfl
    exact isFloatText_fraction [] (.inl rfl) n (q.den - 1)
  | negSucc n =>
    have hnum : toString (Int.negSucc n) = "-" ++ (n + 1).repr := rfl
    rw [hnum, String.toList_append, List.append_assoc]
    exact isFloatText_fraction ['-'] (.inr rfl) (n + 1) (q.den - 1)

lemma fractionText_injective : Function.Injective fractionText := by
  intro q q' h
  have hdot : ∀ n : ℕ, '.' ∉ n.repr.toList := by
    intro n hmem
    have hd : '.'.isDigit := isDigit_of_mem_repr hmem
    exact absurd hd (by decide)
  have hl := congrArg String.toList h
  rw [toList_fractionText, toList_fractionText] at hl
  obtain ⟨hnum, hden⟩ := append_cons_inj (hdot (q.den - 1)) (hdot (q'.den - 1)) hl
  refine Rat.ext (toString_int_injective (String.toList_injective hnum)) ?_
  have hden := repr_injective (String.toList_injective hden)
  have hpos := q.den_pos
  have hp' := q'.den_pos
  omega

def writeFraction : Double → PyFloat
  | .finite q => .finite ⟨fractionText q, isFloatText_fractionText q⟩
  | .posInf => .inf false
  | .negInf => .inf true
  | .nan => .nan

lemma writeFraction_injective : Function.Injective writeFraction := by
  intro x y h
  cases x <;> cases y <;> try cases h
  case finite.finite q q' => rw [fractionText_injective (FloatLit.mk.inj (PyFloat.finite.inj h))]
  all_goals rfl

def boundedPolicy : PolicyEngine.Policy := { portfolio := some { maxIncrementalVar99 := some (.finite 2) } }

def plainLayers : LayerEnv where
  engine := PolicyEngine.plainEnv
  divide x y := match x, y with
    | .finite a, .finite b => .finite (a / b)
    | _, _ => .nan
  policyOf _ := boundedPolicy
  readFloat x := match x with
    | .finite lit => .finite lit.trunc
    | .inf neg => if neg then .negInf else .posInf
    | .nan => .nan
  writeFloat := writeFraction
  writeFloat_injective := writeFraction_injective

def riskRun (runId : String) (risk : ℤ) : RunRequest :=
  ⟨"w", "s", runId, "paper", "low", none, Dict.ofList [("risk", .dict [(.str "incremental_var_99", .int risk)])],
    Dict.empty, Dict.empty, none, none⟩

def twoRuns : Sys where
  storage := (Storage.empty.recordEvaluationRun "2025-01-01T00:00:00Z" (riskRun "r1" 1)).recordEvaluationRun
    "2025-01-01T01:00:00Z" (riskRun "r2" 3)
  log := []

lemma named_w : "w" ≠ "" := by decide

def plainJob : Job := ⟨"w", named_w, none, .policy .none, none, none⟩

def portfolioStatus (s : Sys) (key : RunKey) : Option String :=
  match (s.storage.evaluationRuns.get? key).map fun r =>
      Value.lookup "portfolio" (mappingOf (r.validation.get "results")) with
  | some (some (.dict items)) => match Value.lookup "status" items with
    | some (.str status) => some status
    | _ => none
  | _ => none

/-- **The first run fails for the second**: its own incremental value at risk is within the bound. -/
theorem first_run_failed :
    portfolioStatus (after (withLayers plainEnv plainLayers) (fun _ _ => noon) (fun _ => "2025-01-02T00:00:00Z") plainJob
        twoRuns) ("w", "s", "r1") = some "fail" ∧
      ¬ ResultsOwned plainEnv plainLayers (fun _ _ => noon) (fun _ => "2025-01-02T00:00:00Z") plainJob twoRuns := by
  have hfail : portfolioStatus (after (withLayers plainEnv plainLayers) (fun _ _ => noon)
      (fun _ => "2025-01-02T00:00:00Z") plainJob twoRuns) ("w", "s", "r1") = some "fail" := by decide +kernel
  have hpass : ((after (withLayers plainEnv plainLayers) (fun _ _ => noon) (fun _ => "2025-01-02T00:00:00Z") plainJob
      twoRuns).storage.evaluationRuns.get? ("w", "s", "r1")).map (fun r =>
        (PolicyEngine.evaluatePortfolioRules { maxIncrementalVar99 := some (.finite 2) }
          (metricsOf plainEnv plainLayers r)).status) = some .pass := by decide +kernel
  have hruns : (prepared (withLayers plainEnv plainLayers) (fun _ _ => noon) plainJob twoRuns).map
      (fun p => p.2.map EvaluationRunRecord.key) = some [("w", "s", "r1"), ("w", "s", "r2")] := by decide +kernel
  refine ⟨hfail, fun howned => ?_⟩
  obtain ⟨⟨policy, runs⟩, hprepared, hkeys⟩ := Option.map_eq_some_iff.mp hruns
  obtain ⟨r, hr, hkey⟩ : ∃ r ∈ runs, r.key = ("w", "s", "r1") := by
    rw [← List.mem_map, show runs.map EvaluationRunRecord.key = _ from hkeys]
    exact .head _
  have hne : r.strategyId ≠ "" := by
    rw [show r.strategyId = "s" from congrArg (fun key => key.2.1) hkey]
    decide
  obtain ⟨stored, hget, hresults⟩ := howned policy runs hprepared r hr hne
  rw [hkey] at hget
  rw [hget, Option.map_some] at hpass
  have hmem : ("portfolio", PolicyEngine.evaluatePortfolioRules { maxIncrementalVar99 := some (.finite 2) }
      (metricsOf plainEnv plainLayers stored)) ∈ PolicyEngine.ownLayerResults plainLayers.engine
        (plainLayers.policyOf policy) plainJob.stage (metricsOf plainEnv plainLayers stored) := .head _
  have hdump := hresults _ hmem
  unfold portfolioStatus at hfail
  rw [hget, Option.map_some, show Value.lookup "portfolio" _ = _ from hdump] at hfail
  have htext : some (PolicyEngine.evaluatePortfolioRules { maxIncrementalVar99 := some (.finite 2) }
      (metricsOf plainEnv plainLayers stored)).status.text = some "fail" := hfail
  rw [Option.some.inj hpass] at htext
  exact absurd htext (by decide)

end Qmtl.WorldService.ExtendedValidation

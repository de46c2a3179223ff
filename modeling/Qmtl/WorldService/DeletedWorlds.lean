import Qmtl.WorldService.Storage

/-!
A world that is deleted and made again, against one that is made for the first time. `delete_world` leaves the
evaluation runs and the allocation of the world in their tables, and nothing else.
-/

namespace Qmtl.WorldService.InMemory

open Lib Foundation

variable (env : Env)

/-- Two storages hold the same of a world. -/
structure SameAt (s s' : Storage) (w : String) : Prop where
  worlds : s.worlds.get? w = s'.worlds.get? w
  policies : s.policies.get? w = s'.policies.get? w
  bindings : s.bindings.get? w = s'.bindings.get? w
  decisions : s.decisions.get? w = s'.decisions.get? w
  activations : s.activations.get? w = s'.activations.get? w
  worldNodes : s.worldNodes.get? w = s'.worldNodes.get? w
  validationCache : s.validationCache.get? w = s'.validationCache.get? w
  edgeOverrides : s.edgeOverrides.get? w = s'.edgeOverrides.get? w
  worldAllocations : s.worldAllocations.get? w = s'.worldAllocations.get? w
  evaluationRuns : ∀ strategyId runId,
    s.evaluationRuns.get? (w, strategyId, runId) = s'.evaluationRuns.get? (w, strategyId, runId)
  listed : ∀ strategyId, s.listEvaluationRuns w strategyId = s'.listEvaluationRuns w strategyId
  evaluationRunHistory : ∀ strategyId runId,
    s.evaluationRunHistory.get? (w, strategyId, runId) = s'.evaluationRunHistory.get? (w, strategyId, runId)
  historyMetadata : s.historyMetadata.get? w = s'.historyMetadata.get? w

lemma SameAt.read_eq {s s' : Storage} {w : String} (h : SameAt s s' w) (r : Read) :
    s.read env w r = s'.read env w r := by
  cases r with
  | getWorld => exact h.worlds
  | listPolicies => simp [Storage.read, h.policies]
  | getPolicy version => simp [Storage.read, h.policies]
  | getDefaultPolicy => simp [Storage.read, h.policies]
  | defaultPolicyVersion => simp [Storage.read, h.policies]
  | listBindings => simp [Storage.read, h.bindings]
  | getDecisions => simp [Storage.read, h.decisions]
  | getActivation strategyId side => simp [Storage.read, h.activations]
  | snapshotActivation => simp [Storage.read, h.activations]
  | getWorldNode nodeId domain => simp [Storage.read, h.worldNodes]
  | listWorldNodes domain => simp [Storage.read, h.worldNodes]
  | getValidationCache nodeId domain context => simp [Storage.read, h.validationCache]
  | getEdgeOverride src dst => simp [Storage.read, h.edgeOverrides]
  | listEdgeOverrides => simp [Storage.read, h.edgeOverrides]
  | getEvaluationRun strategyId runId => exact h.evaluationRuns strategyId runId
  | listEvaluationRuns strategyId => exact h.listed strategyId
  | listEvaluationRunHistory strategyId runId => simp [Storage.read, Storage.history, h.evaluationRunHistory]
  | listHistoryMetadata => simp [Storage.read, h.historyMetadata]
  | latestHistoryMetadata => simp [Storage.read, h.historyMetadata]
  | getWorldAllocationState => exact h.worldAllocations

/-- Nothing of the world is stored: it has never been there. -/
structure Lacks (s : Storage) (w : String) : Prop where
  worlds : s.worlds.get? w = none
  policies : s.policies.get? w = none
  bindings : s.bindings.get? w = none
  decisions : s.decisions.get? w = none
  activations : s.activations.get? w = none
  worldNodes : s.worldNodes.get? w = none
  validationCache : s.validationCache.get? w = none
  edgeOverrides : s.edgeOverrides.get? w = none
  worldAllocations : s.worldAllocations.get? w = none
  evaluationRuns : ∀ strategyId runId, s.evaluationRuns.get? (w, strategyId, runId) = none
  evaluationRunHistory : ∀ strategyId runId, s.evaluationRunHistory.get? (w, strategyId, runId) = none
  historyMetadata : s.historyMetadata.get? w = none

lemma lacks_empty (w : String) : Lacks Storage.empty w where
  worlds := rfl
  policies := rfl
  bindings := rfl
  decisions := rfl
  activations := rfl
  worldNodes := rfl
  validationCache := rfl
  edgeOverrides := rfl
  worldAllocations := rfl
  evaluationRuns _ _ := rfl
  evaluationRunHistory _ _ := rfl
  historyMetadata := rfl

lemma listEvaluationRuns_eq_nil {s : Storage} {w : String} (hw : w ≠ "")
    (h : ∀ strategyId runId, s.evaluationRuns.get? (w, strategyId, runId) = none) (strategyId : Option String) :
    s.listEvaluationRuns w strategyId = [] := by
  have hn : (s.evaluationRuns.entries.filter fun e =>
      (w = "" || e.1.1 = w) && (strategyId.getD "" = "" || e.1.2.1 = strategyId.getD "")) = [] := by
    refine List.filter_eq_nil_iff.mpr ?_
    rintro ⟨⟨w', sid, rid⟩, record⟩ he hsel
    rw [Bool.and_eq_true, Bool.or_eq_true, decide_eq_true_eq, decide_eq_true_eq] at hsel
    obtain rfl : w' = w := hsel.1.resolve_left hw
    have hget : s.evaluationRuns.get? (w', sid, rid) = some record := Dict.get?_eq_some.mpr he
    rw [h] at hget
    cases hget
  rw [Storage.listEvaluationRuns, hn]
  rfl

lemma get?_withoutWorld {ν : Type} (w : String) (d : Dict RunKey ν) (key : RunKey) :
    (withoutWorld w d).get? key = if key.1 = w then none else d.get? key := by
  unfold Dict.get? withoutWorld
  rw [Dict.lookup_filter fun k : RunKey => decide (k.1 ≠ w)]
  by_cases h : key.1 = w <;> simp [h]

lemma sameAt_recreated_of_ne (s : Storage) (now : String) (record : WorldRecord) {v : String}
    (hv : v ≠ record.id) : SameAt ((s.deleteWorld record.id).putWorld now record) s v where
  worlds := by
    show ((s.worlds.erase record.id).set record.id record).get? v = _
    rw [Dict.get?_set_ne _ _ hv, Dict.get?_erase, if_neg hv]
  policies := by
    show (s.policies.erase record.id).get? v = _
    rw [Dict.get?_erase, if_neg hv]
  bindings := by
    show (s.bindings.erase record.id).get? v = _
    rw [Dict.get?_erase, if_neg hv]
  decisions := by
    show (s.decisions.erase record.id).get? v = _
    rw [Dict.get?_erase, if_neg hv]
  activations := by
    show (s.activations.erase record.id).get? v = _
    rw [Dict.get?_erase, if_neg hv]
  worldNodes := by
    show (s.worldNodes.erase record.id).get? v = _
    rw [Dict.get?_erase, if_neg hv]
  validationCache := by
    show (s.validationCache.erase record.id).get? v = _
    rw [Dict.get?_erase, if_neg hv]
  edgeOverrides := by
    show ((s.edgeOverrides.erase record.id).set record.id _).get? v = _
    rw [Dict.get?_set_ne _ _ hv, Dict.get?_erase, if_neg hv]
  worldAllocations := rfl
  evaluationRuns _ _ := rfl
  listed _ := rfl
  evaluationRunHistory strategyId runId := by
    show (withoutWorld record.id s.evaluationRunHistory).get? (v, strategyId, runId) = _
    rw [get?_withoutWorld, if_neg hv]
  historyMetadata := by
    show (s.historyMetadata.erase record.id).get? v = _
    rw [Dict.get?_erase, if_neg hv]

lemma lacks_deleteWorld {s : Storage} {w : String}
    (hr : ∀ strategyId runId, s.evaluationRuns.get? (w, strategyId, runId) = none)
    (hal : s.worldAllocations.get? w = none) : Lacks (s.deleteWorld w) w where
  worlds := (Dict.get?_erase ..).trans (if_pos rfl)
  policies := (Dict.get?_erase ..).trans (if_pos rfl)
  bindings := (Dict.get?_erase ..).trans (if_pos rfl)
  decisions := (Dict.get?_erase ..).trans (if_pos rfl)
  activations := (Dict.get?_erase ..).trans (if_pos rfl)
  worldNodes := (Dict.get?_erase ..).trans (if_pos rfl)
  validationCache := (Dict.get?_erase ..).trans (if_pos rfl)
  edgeOverrides := (Dict.get?_erase ..).trans (if_pos rfl)
  worldAllocations := hal
  evaluationRuns := hr
  evaluationRunHistory _ _ := (get?_withoutWorld ..).trans (if_pos rfl)
  historyMetadata := (Dict.get?_erase ..).trans (if_pos rfl)

lemma sameAt_putWorld {s s' : Storage} (now : String) {record : WorldRecord} (hid : record.id ≠ "")
    (h : Lacks s record.id) (h' : Lacks s' record.id) :
    SameAt (s.putWorld now record) (s'.putWorld now record) record.id where
  worlds := by
    show (s.worlds.set record.id record).get? record.id = (s'.worlds.set record.id record).get? record.id
    rw [Dict.get?_set_self, Dict.get?_set_self]
  policies := h.policies.trans h'.policies.symm
  bindings := h.bindings.trans h'.bindings.symm
  decisions := h.decisions.trans h'.decisions.symm
  activations := h.activations.trans h'.activations.symm
  worldNodes := h.worldNodes.trans h'.worldNodes.symm
  validationCache := h.validationCache.trans h'.validationCache.symm
  edgeOverrides := by
    show (s.edgeOverrides.set record.id (ensureDefaults now ((s.edgeOverrides.get? record.id).getD .empty))).get?
      record.id = (s'.edgeOverrides.set record.id
        (ensureDefaults now ((s'.edgeOverrides.get? record.id).getD .empty))).get? record.id
    rw [Dict.get?_set_self, Dict.get?_set_self, h.edgeOverrides, h'.edgeOverrides]
  worldAllocations := h.worldAllocations.trans h'.worldAllocations.symm
  evaluationRuns strategyId runId := (h.evaluationRuns strategyId runId).trans (h'.evaluationRuns strategyId runId).symm
  listed strategyId := by
    show s.listEvaluationRuns record.id strategyId = s'.listEvaluationRuns record.id strategyId
    rw [listEvaluationRuns_eq_nil hid h.evaluationRuns, listEvaluationRuns_eq_nil hid h'.evaluationRuns]
  evaluationRunHistory strategyId runId :=
    (h.evaluationRunHistory strategyId runId).trans (h'.evaluationRunHistory strategyId runId).symm
  historyMetadata := h.historyMetadata.trans h'.historyMetadata.symm

lemma WorldRecord.id_ne_empty {now : String} {payload : Fields} {record : WorldRecord}
    (h : WorldRecord.fromPayload env now payload = .ok record) : record.id ≠ "" := by
  unfold WorldRecord.fromPayload at h
  split at h
  · cases h
  · split at h
    · cases h
    · rename_i worldId hid
      obtain ⟨labels, -, h⟩ := bind_ok.mp h
      obtain ⟨state, -, h⟩ := bind_ok.mp h
      obtain ⟨version, -, h⟩ := bind_ok.mp h
      obtain ⟨name, -, h⟩ := bind_ok.mp h
      obtain ⟨description, -, h⟩ := bind_ok.mp h
      obtain ⟨owner, -, h⟩ := bind_ok.mp h
      obtain rfl := pure_ok.mp h
      exact (stripped_eq_some hid).1
  · cases h

/-! ### Deleted worlds -/

/-- After the world is deleted and made again, every read of it answers as where it is made for the first time,
and every read of another world as before. -/
def Forgotten (s : Storage) (w now : String) (payload : Fields) : Prop :=
  ∀ s₀ t t₀, Lacks s₀ w → (s.deleteWorld w).createWorld env now payload = .ok t →
    s₀.createWorld env now payload = .ok t₀ →
    (∀ r, t.read env w r = t₀.read env w r) ∧ ∀ v ≠ w, ∀ r, t.read env v r = s.read env v r

/-- A world is forgotten exactly when no evaluation run and no allocation of it is stored as it is deleted. -/
theorem forgotten_iff (s : Storage) (now : String) (payload : Fields) (record : WorldRecord)
    (h : WorldRecord.fromPayload env now payload = .ok record) : Forgotten env s record.id now payload ↔
      (∀ strategyId runId, s.evaluationRuns.get? (record.id, strategyId, runId) = none) ∧
        s.worldAllocations.get? record.id = none := by
  have hcreate : ∀ s' : Storage, s'.createWorld env now payload = .ok (s'.putWorld now record) := by
    intro s'
    rw [Storage.createWorld, h]
  constructor
  · intro hf
    obtain ⟨hsame, -⟩ := hf Storage.empty _ _ (lacks_empty record.id) (hcreate _) (hcreate _)
    constructor
    · intro strategyId runId
      exact hsame (.getEvaluationRun strategyId runId)
    · exact hsame .getWorldAllocationState
  · rintro ⟨hruns, halloc⟩ s₀ t t₀ hlacks ht ht₀
    obtain rfl := Except.ok.inj ((hcreate _).symm.trans ht)
    obtain rfl := Except.ok.inj ((hcreate _).symm.trans ht₀)
    constructor
    · intro r
      have hsame := sameAt_putWorld now (WorldRecord.id_ne_empty env h) (lacks_deleteWorld hruns halloc) hlacks
      exact hsame.read_eq env r
    · intro v hv r
      exact (sameAt_recreated_of_ne s now record hv).read_eq env r

def Env.ascii : Env := ⟨Builtins.ascii, id, id, fun _ => none⟩

def nameOnly (worldId : String) : Fields := Dict.ofList [("id", .str worldId)]

def plainWorld (worldId now : String) : WorldRecord :=
  ⟨worldId, none, none, none, [], "ACTIVE", false, false, none, now, now, Dict.empty⟩

def backtestRun (worldId : String) : RunRequest :=
  ⟨worldId, "s", "r", "backtest", "low", none, Dict.empty, Dict.empty, Dict.empty, none, none⟩

def Storage.used (now : String) : Storage :=
  ((Storage.empty.putWorld now (plainWorld "w" now)).recordEvaluationRun now (backtestRun "w")).setWorldAllocations now
    (Dict.ofList [("w", 1 / 2)]) "a" "e" none none

/-- A world without runs or allocations is forgotten, beside one that has both. -/
theorem forgotten_iff_freshWorld :
    Forgotten Env.ascii ((Storage.used "2025-01-01T00:00:00Z").putWorld "2025-01-01T00:00:00Z"
      (plainWorld "v" "2025-01-01T00:00:00Z")) "v" "2025-01-01T00:00:00Z" (nameOnly "v") :=
  (forgotten_iff Env.ascii _ _ (nameOnly "v") (plainWorld "v" "2025-01-01T00:00:00Z") rfl).mpr
    ⟨fun _ _ => rfl, rfl⟩

/-- The world made again has the run and the allocation of the one that was deleted. -/
theorem remade_world_keeps_run_and_allocation :
    Storage.empty.createWorld Env.ascii "2025-01-01T00:00:00Z" (nameOnly "w") =
        .ok (Storage.empty.putWorld "2025-01-01T00:00:00Z" (plainWorld "w" "2025-01-01T00:00:00Z")) ∧
      ¬ Forgotten Env.ascii (Storage.used "2025-01-01T00:00:00Z") "w" "2025-01-02T00:00:00Z" (nameOnly "w") ∧
      ∃ t, ((Storage.used "2025-01-01T00:00:00Z").deleteWorld "w").createWorld Env.ascii "2025-01-02T00:00:00Z"
          (nameOnly "w") = .ok t ∧
        (t.read Env.ascii "w" .getWorldAllocationState).map AllocationState.allocation = some (1 / 2) ∧
        (t.read Env.ascii "w" (.listEvaluationRuns none)).map EvaluationRunRecord.runId = ["r"] := by
  refine ⟨rfl, ?_, _, rfl, rfl, rfl⟩
  intro hf
  obtain ⟨hsame, -⟩ := hf Storage.empty _ _ (lacks_empty "w") rfl rfl
  have halloc := hsame .getWorldAllocationState
  cases halloc

end Qmtl.WorldService.InMemory

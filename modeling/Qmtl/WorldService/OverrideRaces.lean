import Qmtl.WorldService.ExtendedValidation

/-! Extended validation against the recording of overrides and ex-post failures. -/

namespace Qmtl.WorldService.ExtendedValidation

open Lib WorldService.InMemory

variable (env : Env)

/-! ### Any number of calls -/

inductive Call where
  | worker (times : RunKey → String) (job : Job)
  | override (key : RunKey) (override : Fields)
  | exPost (key : RunKey) (failure : Fields)

def Call.code : Call → Task ℕ
  | worker times job => run env times job
  | override key fields => do
    let r ← Coro.perform (Op.recordEvaluationOverride key fields)
    return r.2
  | exPost key failure => do
    let r ← Coro.perform (Op.recordExPostFailure key failure)
    return r.2

/-- What a step is given: the time, an identifier, and an answer of the hub. -/
structure Choice where
  now : String
  uuid : String
  hub : Option Fields

/-- What is recorded on a run. -/
inductive Action where
  | override (fields : Fields)
  | failure (event : List (Value × Value))

/-- What has been done: the runs were listed by a call, something was recorded as a revision, or a call of the
worker wrote a run. -/
inductive Entry where
  | listed (call : ℕ)
  | recorded (key : RunKey) (action : Action) (revision : ℕ)
  | wrote (call : ℕ) (key : RunKey) (validation : Fields)

structure Sys where
  storage : Storage
  log : List Entry

def perform (i : ℕ) : (o : Op) → Choice → Sys → Except InMemory.Exn o.Ans × Sys
  | .getDefaultPolicy worldId, _, s => (.ok (s.storage.read env.store worldId .getDefaultPolicy), s)
  | .listEvaluationRuns worldId, _, s =>
    (.ok (s.storage.listEvaluationRuns worldId none), { s with log := s.log ++ [.listed i] })
  | .latestHubSnapshot _, e, s => (.ok e.hub, s)
  | .getDecisions worldId, _, s => (.ok (s.storage.read env.store worldId .getDecisions), s)
  | .snapshotActivation worldId, _, s => (.ok (s.storage.read env.store worldId .snapshotActivation), s)
  | .recordEvaluationRun r, e, s =>
    (.ok (), ⟨s.storage.recordEvaluationRun e.now r, s.log ++ [.wrote i r.key r.validation]⟩)
  | .recordEvaluationOverride key fields, e, s =>
    match s.storage.recordEvaluationOverride env.store e.now key fields with
    | (.ok r, storage) => (.ok r, ⟨storage, s.log ++ [.recorded key (.override fields) r.2]⟩)
    | (.error err, storage) => (.error err, ⟨storage, s.log⟩)
  | .recordExPostFailure key failure, e, s =>
    match s.storage.recordExPostFailure env.store e.now e.uuid key failure with
    | (.ok r, storage) =>
      let event := exPostEvent failure (failureTime env.store e.now failure) (failureCase env.store e.uuid failure)
      (.ok r, ⟨storage, s.log ++ [.recorded key (.failure event) r.2]⟩)
    | (.error err, storage) => (.error err, ⟨storage, s.log⟩)

abbrev Calls := Config Op Op.Ans InMemory.Exn ℕ Sys Call
abbrev Event := Lib.Event Choice Empty Call

def system : System Op Op.Ans InMemory.Exn ℕ Sys Choice Empty Call where
  code := Call.code env
  perform := perform env
  disturb x := nomatch x
  may _ _ := true

def start (storage : Storage) : Calls := ⟨⟨storage, []⟩, []⟩

/-! ### What is asked -/

/-- A summary carries what was recorded. -/
def Shown (a : Action) (summary : Fields) : Prop :=
  match a with
  | .override fields =>
    summary.get "override_status" = fields.get "status" ∧ summary.get "override_reason" = fields.get "reason" ∧
      summary.get "override_actor" = fields.get "actor"
  | .failure event => Value.dict event ∈ exPostFailures summary

def Standing (log : List Entry) (key : RunKey) (a : Action) (n m : ℕ) : Prop :=
  match a with
  | .override _ => ∀ fields n', .recorded key (.override fields) n' ∈ log → n < n' → m < n'
  | .failure _ => True

def lastWritten (log : List Entry) (key : RunKey) : Option Fields :=
  (log.filterMap fun
    | .wrote _ key' validation => if key' = key then some validation else none
    | _ => none).getLast?

def CarriesResults (results : Dict String Value) (validation : Fields) : Prop :=
  ∀ name v, results.get? name = some v → Value.lookup name (mappingOf (validation.get "results")) = some v

def Evaluated (key : RunKey) (validation : Fields) : Prop :=
  ∃ runs policy stage extended results,
    env.evaluate runs policy stage = .ok extended ∧ extended.get? key.2.1 = some results ∧
      CarriesResults results validation

def Entry.isWriteOf (i : ℕ) : Entry → Bool
  | .wrote j _ _ => j = i
  | _ => false

structure NothingLost (c : Calls) : Prop where
  revisions : ∀ key a n, .recorded key a n ∈ c.store.log → ∀ m rev, n ≤ m →
    (c.store.storage.history key)[m - 1]? = some rev → Standing c.store.log key a n m → Shown a rev.payload.summary
  stored : ∀ key a n, .recorded key a n ∈ c.store.log →
    Standing c.store.log key a n (c.store.storage.history key).length →
    ∃ run, c.store.storage.evaluationRuns.get? key = some run ∧ Shown a run.summary
  results : ∀ key validation, lastWritten c.store.log key = some validation →
    Evaluated env key validation ∧
      ∃ run, c.store.storage.evaluationRuns.get? key = some run ∧ run.validation = validation
  overrides : ∀ (i : ℕ) key fields n, c.calls[i]? = some (Call.override key fields, Coro.ret n) →
    .recorded key (.override fields) n ∈ c.store.log
  failures : ∀ (i : ℕ) key failure n, c.calls[i]? = some (Call.exPost key failure, Coro.ret n) →
    ∃ time caseId, .recorded key (.failure (exPostEvent failure time caseId)) n ∈ c.store.log
  writes : ∀ (i : ℕ) times job n, c.calls[i]? = some (Call.worker times job, Coro.ret n) →
    n = c.store.log.countP (Entry.isWriteOf i)

def Entry.isListingOf (i : ℕ) : Entry → Bool
  | .listed j => j = i
  | _ => false

def Entry.records (key : RunKey) : Entry → Bool
  | .recorded key' _ _ => key' = key
  | _ => false

def untouched (log : List Entry) (i : ℕ) (key : RunKey) : Bool :=
  (log.dropWhile fun e => !e.isListingOf i).all fun e => !e.records key

def writesUntouched (c : Calls) : Event → Bool
  | .resume i _ =>
    match c.calls[i]? with
    | some (_, .await (.recordEvaluationRun r) _) => untouched c.store.log i r.key
    | _ => true
  | _ => true

section Summaries

variable {summary : Fields}

lemma get_update {es : List (String × Value)} (hn : (es.map Prod.fst).Nodup) (key : String) :
    Fields.get (summary.update es) key = (es.lookup key).getD (summary.get key) := by
  unfold Fields.get
  rw [Dict.get?_update hn]
  cases es.lookup key <;> rfl

lemma get_set_ne (v : Value) {key key' : String} (h : key' ≠ key) :
    Fields.get (summary.set key v) key' = summary.get key' := by
  unfold Fields.get
  rw [Dict.get?_set_ne _ _ h]

lemma shown_override (fields : Fields) (timestamp : String) :
    Shown (.override fields) (summary.update (overrideFields fields timestamp)) := by
  refine ⟨?_, ?_, ?_⟩ <;> rw [get_update (nodup_overrideFields fields timestamp)] <;> rfl

lemma exPostFailures_override (fields : Fields) (timestamp : String) :
    exPostFailures (summary.update (overrideFields fields timestamp)) = exPostFailures summary := by
  unfold exPostFailures
  rw [get_update (nodup_overrideFields fields timestamp)]
  rfl

lemma exPostFailures_set (event : List (Value × Value)) :
    exPostFailures (summary.set "ex_post_failures" (.list (exPostFailures summary ++ [.dict event]))) =
      exPostFailures summary ++ [.dict event] := by
  have hd : ∀ v ∈ exPostFailures summary, isDict v := by
    intro v hv
    unfold exPostFailures at hv
    split at hv
    · exact (List.mem_filter.mp hv).2
    · cases hv
  have hget : Fields.get (summary.set "ex_post_failures" (.list (exPostFailures summary ++ [.dict event])))
      "ex_post_failures" = .list (exPostFailures summary ++ [.dict event]) := by
    unfold Fields.get
    rw [Dict.get?_set_self]
    rfl
  rw [exPostFailures, hget]
  show (exPostFailures summary ++ [Value.dict event]).filter isDict = _
  rw [List.filter_append, List.filter_eq_self.mpr hd]
  rfl

end Summaries

def Action.isOverride : Action → Bool
  | .override _ => true
  | .failure _ => false

structure Records (s s' : Sys) (key : RunKey) (a : Action) (n : ℕ) : Prop where
  put : ∃ run updated time, s.storage.evaluationRuns.get? key = some run ∧ updated.key = key ∧
    updated.validation = run.validation ∧ Shown a updated.summary ∧
    (∀ a', (a'.isOverride && a.isOverride) = false → Shown a' run.summary → Shown a' updated.summary) ∧
    s' = ⟨s.storage.putRun updated time, s.log ++ [.recorded key a n]⟩
  revision : n = (s.storage.history key).length + 1

lemma perform_override (i : ℕ) (key : RunKey) (fields : Fields) (e : Choice) (s : Sys) :
    (∃ r, (perform env i (.recordEvaluationOverride key fields) e s).1 = .ok r ∧
      Records s (perform env i (.recordEvaluationOverride key fields) e s).2 key (.override fields) r.2) ∨
    (∃ err, perform env i (.recordEvaluationOverride key fields) e s = (.error err, s)) := by
  simp only [perform, Storage.recordEvaluationOverride]
  cases hget : s.storage.evaluationRuns.get? key with
  | none => exact .inr ⟨_, rfl⟩
  | some run =>
    refine .inl ⟨_, rfl, ⟨run, run.overridden fields _, _, hget, s.storage.keyed key run hget, rfl,
      shown_override fields _, ?_, rfl⟩, rfl⟩
    rintro (fields' | event) hk hs
    · cases hk
    · show Value.dict event ∈ exPostFailures (run.summary.update (overrideFields fields _))
      rw [exPostFailures_override]
      exact hs

lemma perform_exPost (i : ℕ) (key : RunKey) (failure : Fields) (e : Choice) (s : Sys) :
    (∃ r time caseId, (perform env i (.recordExPostFailure key failure) e s).1 = .ok r ∧
      Records s (perform env i (.recordExPostFailure key failure) e s).2 key
        (.failure (exPostEvent failure time caseId)) r.2) ∨
    (∃ err, perform env i (.recordExPostFailure key failure) e s = (.error err, s)) := by
  simp only [perform, Storage.recordExPostFailure]
  cases hget : s.storage.evaluationRuns.get? key with
  | none => exact .inr ⟨_, rfl⟩
  | some run =>
    refine .inl ⟨_, _, _, rfl, ⟨run, run.failed _ _, _, hget, s.storage.keyed key run hget, rfl, ?_, ?_, rfl⟩, rfl⟩
    · show Value.dict _ ∈ exPostFailures (run.summary.set _ _)
      rw [exPostFailures_set]
      exact List.mem_append_right _ List.mem_cons_self
    · rintro (fields' | event) - hs
      · obtain ⟨hst, hr, hac⟩ := hs
        refine ⟨?_, ?_, ?_⟩
        · exact (get_set_ne _ (by decide)).trans hst
        · exact (get_set_ne _ (by decide)).trans hr
        · exact (get_set_ne _ (by decide)).trans hac
      · show Value.dict event ∈ exPostFailures (run.summary.set _ _)
        rw [exPostFailures_set]
        exact List.mem_append_left _ hs

/-! ### The invariant -/

lemma history_putRun (storage : Storage) (run : EvaluationRunRecord) (time : String) (key : RunKey) :
    (storage.putRun run time).history key = if key = run.key then
      storage.history run.key ++ [⟨(storage.history run.key).length + 1, time, run⟩] else storage.history key := by
  show ((storage.evaluationRunHistory.set run.key _).get? key).getD [] = _
  rw [Dict.get?_set]
  split <;> rfl

lemma get?_putRun (storage : Storage) (run : EvaluationRunRecord) (time : String) (key : RunKey) :
    (storage.putRun run time).evaluationRuns.get? key =
      if key = run.key then some run else storage.evaluationRuns.get? key :=
  Dict.get?_set _ _ _ _

structure Kept (s : Sys) : Prop where
  revisions : ∀ key a n, .recorded key a n ∈ s.log → ∀ m rev, n ≤ m →
    (s.storage.history key)[m - 1]? = some rev → Standing s.log key a n m → Shown a rev.payload.summary
  last : ∀ key a n, .recorded key a n ∈ s.log → 1 ≤ n ∧ n ≤ (s.storage.history key).length ∧
    ∃ run rev, s.storage.evaluationRuns.get? key = some run ∧
      (s.storage.history key)[(s.storage.history key).length - 1]? = some rev ∧ rev.payload = run
  results : ∀ key validation, lastWritten s.log key = some validation → Evaluated env key validation ∧
    ∃ run, s.storage.evaluationRuns.get? key = some run ∧ run.validation = validation

variable {a : Action} {n : ℕ} {s : Sys}

lemma Kept.stored (h : Kept env s) {key : RunKey} (hmem : .recorded key a n ∈ s.log)
    (hs : Standing s.log key a n (s.storage.history key).length) :
    ∃ run, s.storage.evaluationRuns.get? key = some run ∧ Shown a run.summary := by
  obtain ⟨-, hle, run, rev, hrun, hrev, rfl⟩ := h.last key a n hmem
  exact ⟨_, hrun, h.revisions key a n hmem _ rev hle hrev hs⟩

lemma Standing.of_append {log new : List Entry} {key : RunKey} {m m' : ℕ} (h : Standing (log ++ new) key a n m)
    (hm : m' ≤ m) : Standing log key a n m' := by
  cases a with
  | override fields =>
    intro fields' n' hmem hlt
    exact lt_of_le_of_lt hm (h fields' n' (List.mem_append_left _ hmem) hlt)
  | failure event => trivial

lemma Kept.put (h : Kept env s) (run : EvaluationRunRecord) (time : String) (e : Entry)
    (hold : ∀ a n, .recorded run.key a n ∈ s.log →
      Standing (s.log ++ [e]) run.key a n ((s.storage.history run.key).length + 1) → Shown a run.summary)
    (hnew : ∀ key a n, e = .recorded key a n →
      key = run.key ∧ n = (s.storage.history run.key).length + 1 ∧ Shown a run.summary)
    (hv : ∀ validation, lastWritten (s.log ++ [e]) run.key = some validation →
      Evaluated env run.key validation ∧ run.validation = validation)
    (hot : ∀ key, key ≠ run.key → lastWritten (s.log ++ [e]) key = lastWritten s.log key) :
    Kept env ⟨s.storage.putRun run time, s.log ++ [e]⟩ where
  revisions := by
    intro key a n hmem m rev hle hrev hs
    replace hrev : ((s.storage.putRun run time).history key)[m - 1]? = some rev := hrev
    rw [history_putRun] at hrev
    rcases List.mem_append.mp hmem with hmem | hmem
    · obtain ⟨hpos, hlen, -⟩ := h.last key a n hmem
      split at hrev
      · rename_i hkey
        subst hkey
        rw [List.getElem?_append] at hrev
        split at hrev
        · exact h.revisions _ a n hmem m rev hle hrev (hs.of_append le_rfl)
        · obtain ⟨hlt, hget⟩ := List.getElem?_eq_some_iff.mp hrev
          rw [List.length_singleton] at hlt
          have hm : m = (s.storage.history run.key).length + 1 := by omega
          rw [hm] at hs
          have hsh := hold a n hmem hs
          rw [List.getElem_singleton] at hget
          rw [← hget]
          exact hsh
      · exact h.revisions key a n hmem m rev hle hrev (hs.of_append le_rfl)
    · obtain ⟨rfl, rfl, hsh⟩ := hnew key a n (List.mem_singleton.mp hmem).symm
      rw [if_pos rfl, List.getElem?_append_right (by omega)] at hrev
      obtain ⟨hlt, hget⟩ := List.getElem?_eq_some_iff.mp hrev
      rw [List.getElem_singleton] at hget
      rw [← hget]
      exact hsh
  last := by
    intro key a n hmem
    rw [history_putRun, get?_putRun]
    by_cases hkey : key = run.key
    · subst hkey
      rw [if_pos rfl, if_pos rfl]
      have hn : 1 ≤ n ∧ n ≤ (s.storage.history run.key).length + 1 := by
        rcases List.mem_append.mp hmem with hmem | hmem
        · obtain ⟨hpos, hlen, -⟩ := h.last _ a n hmem
          omega
        · obtain ⟨-, rfl, -⟩ := hnew _ a n (List.mem_singleton.mp hmem).symm
          omega
      refine ⟨hn.1, by simpa using hn.2, run, ⟨(s.storage.history run.key).length + 1, time, run⟩, rfl, ?_, rfl⟩
      simp
    · rw [if_neg hkey, if_neg hkey]
      rcases List.mem_append.mp hmem with hmem | hmem
      · exact h.last key a n hmem
      · exact absurd (hnew key a n (List.mem_singleton.mp hmem).symm).1 hkey
  results := by
    intro key validation hl
    rw [get?_putRun]
    by_cases hkey : key = run.key
    · subst hkey
      obtain ⟨hev, hval⟩ := hv validation hl
      exact ⟨hev, run, if_pos rfl, hval⟩
    · rw [if_neg hkey]
      exact h.results key validation ((hot key hkey).symm.trans hl)

lemma lastWritten_append (log : List Entry) (e : Entry) (key : RunKey) :
    lastWritten (log ++ [e]) key = match e with
      | .wrote _ key' validation => if key' = key then some validation else lastWritten log key
      | _ => lastWritten log key := by
  unfold lastWritten
  rw [List.filterMap_append, List.getLast?_append]
  cases e with
  | listed i => rfl
  | recorded key' a n => rfl
  | wrote i key' validation =>
    by_cases hkey : key' = key <;> simp [hkey]

lemma Kept.record {s' : Sys} (h : Kept env s) {key : RunKey} (hr : Records s s' key a n) : Kept env s' := by
  obtain ⟨⟨old, run, time, hget, rfl, hv, hsh, hk, rfl⟩, rfl⟩ := hr
  refine h.put env run time _ ?_ ?_ ?_ ?_
  · intro a' n' hmem hs
    obtain ⟨-, hlen, -⟩ := h.last _ a' n' hmem
    refine hk a' ?_ ?_
    · cases a' with
      | failure event => rfl
      | override fields =>
        cases a with
        | failure event => rfl
        | override fields' =>
          -- the override that is recorded now replaces the earlier one
          have := hs fields' _ (List.mem_append_right _ List.mem_cons_self) (by omega)
          omega
    · obtain ⟨run', hr', hs'⟩ := h.stored env hmem (hs.of_append (by omega))
      cases hget.symm.trans hr'
      exact hs'
  · intro key' a' n' he
    obtain ⟨rfl, rfl, rfl⟩ := Entry.recorded.inj he
    exact ⟨rfl, rfl, hsh⟩
  · intro validation hl
    rw [lastWritten_append] at hl
    obtain ⟨hev, run', hr', hval⟩ := h.results _ validation hl
    cases hget.symm.trans hr'
    exact ⟨hev, hv.trans hval⟩
  · intro key' _
    rw [lastWritten_append]

def summaryAt (s : Sys) (key : RunKey) : Option Fields := (s.storage.evaluationRuns.get? key).map (·.summary)

lemma Kept.write (h : Kept env s) (i : ℕ) (now : String) {r : RunRequest}
    (hs : summaryAt s r.key = some r.summary) (hev : Evaluated env r.key r.validation) :
    Kept env ⟨s.storage.recordEvaluationRun now r, s.log ++ [.wrote i r.key r.validation]⟩ := by
  refine h.put env _ _ _ ?_ ?_ ?_ ?_
  · intro a n hmem hst
    obtain ⟨run, hrun, hsh⟩ := h.stored env hmem (hst.of_append (by omega))
    obtain ⟨run', hr', hsum⟩ := Option.map_eq_some_iff.mp hs
    cases hrun.symm.trans hr'
    rw [← hsum]
    exact hsh
  · intro key a n he
    cases he
  · intro validation hl
    rw [lastWritten_append] at hl
    have hl : (if r.key = r.key then some r.validation else lastWritten s.log r.key) = some validation := hl
    rw [if_pos rfl] at hl
    cases hl
    exact ⟨hev, rfl⟩
  · intro key hne
    rw [lastWritten_append]
    exact if_neg fun h => hne h.symm

lemma Kept.list (h : Kept env s) (i : ℕ) : Kept env { s with log := s.log ++ [.listed i] } where
  revisions := by
    intro key a n hmem m rev hle hrev hs
    rcases List.mem_append.mp hmem with hmem | hmem
    · exact h.revisions key a n hmem m rev hle hrev (hs.of_append le_rfl)
    · cases List.mem_singleton.mp hmem
  last := by
    intro key a n hmem
    rcases List.mem_append.mp hmem with hmem | hmem
    · exact h.last key a n hmem
    · cases List.mem_singleton.mp hmem
  results := by
    intro key validation hl
    rw [lastWritten_append] at hl
    exact h.results key validation hl

end Qmtl.WorldService.ExtendedValidation

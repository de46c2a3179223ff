import Mathlib.Data.List.Induction
import Qmtl.WorldService.RunHistory

/-! The numbers of the revisions of an evaluation run. -/

namespace Qmtl.WorldService

open Lib WorldService.InMemory

/-- Every revision that is recorded has a larger number than all that were recorded of its run before. -/
def Increasing (recorded : List (RunKey × ℕ)) : Prop := recorded.Pairwise fun a b => a.1 = b.1 → a.2 < b.2

lemma Increasing.append {recorded : List (RunKey × ℕ)} (h : Increasing recorded) {key : RunKey} {n : ℕ}
    (hn : ∀ m, (key, m) ∈ recorded → m < n) : Increasing (recorded ++ [(key, n)]) := by
  refine List.pairwise_append.mpr ⟨h, List.pairwise_singleton _ _, ?_⟩
  rintro ⟨k, m⟩ hm b hb hkey
  obtain rfl := List.mem_singleton.mp hb
  obtain rfl : k = key := hkey
  exact hn m hm

/-! ### In memory -/

namespace InMemory

/-- The calls on the history, with their times. -/
inductive HistoryCall where
  | run (now : String) (r : RunRequest)
  | override (now : String) (key : RunKey) (fields : Fields)
  | exPost (now uuid : String) (key : RunKey) (failure : Fields)
  | purge (r : PurgeRequest)

structure Recording where
  storage : Storage
  recorded : List (RunKey × ℕ)

def lastNumber (s : Storage) (key : RunKey) : List (RunKey × ℕ) :=
  (s.history key).getLast?.toList.map fun item => (key, item.revision)

def Recording.step (env : Env) (c : Recording) : HistoryCall → Option Recording
  | .run now r =>
    let storage := c.storage.recordEvaluationRun now r
    some ⟨storage, c.recorded ++ lastNumber storage r.key⟩
  | .override now key fields =>
    match c.storage.recordEvaluationOverride env now key fields with
    | (.ok _, storage) => some ⟨storage, c.recorded ++ lastNumber storage key⟩
    | (.error _, storage) => some ⟨storage, c.recorded⟩
  | .exPost now uuid key failure =>
    match c.storage.recordExPostFailure env now uuid key failure with
    | (.ok _, storage) => some ⟨storage, c.recorded ++ lastNumber storage key⟩
    | (.error _, storage) => some ⟨storage, c.recorded⟩
  | .purge r => some ⟨(c.storage.purgeEvaluationRunHistory r).2, c.recorded⟩

def Recording.complete (c : Recording) (key : RunKey) : Bool :=
  (c.storage.history key).length = c.recorded.countP fun e => e.1 = key

def findsComplete (c : Recording) : HistoryCall → Bool
  | .run _ r => c.complete r.key
  | .override _ key _ => c.complete key
  | .exPost _ _ key _ => c.complete key
  | .purge _ => true

lemma lastNumber_putRun (s : Storage) (run : EvaluationRunRecord) (recordedAt : String) :
    lastNumber (s.putRun run recordedAt) run.key = [(run.key, (s.history run.key).length + 1)] := by
  have hh : (s.putRun run recordedAt).history run.key =
      s.history run.key ++ [⟨(s.history run.key).length + 1, recordedAt, run⟩] := by
    show ((s.evaluationRunHistory.set run.key _).get? run.key).getD [] = _
    rw [Dict.get?_set_self, Option.getD_some]
  unfold lastNumber
  rw [hh, List.getLast?_concat]
  rfl

lemma Recording.step_cases {env : Env} {c c' : Recording} {call : HistoryCall} (h : c.step env call = some c') :
    (∃ key, (findsComplete c call → c.complete key) ∧
      c'.recorded = c.recorded ++ [(key, (c.storage.history key).length + 1)]) ∨ c'.recorded = c.recorded := by
  cases call with
  | run now r =>
    cases h
    exact .inl ⟨r.key, id, congrArg (c.recorded ++ ·) (lastNumber_putRun c.storage _ _)⟩
  | override now key fields =>
    cases hrun : c.storage.evaluationRuns.get? key with
    | none =>
      simp only [Recording.step, Storage.recordEvaluationOverride, hrun] at h
      cases h
      exact .inr rfl
    | some run =>
      simp only [Recording.step, Storage.recordEvaluationOverride, hrun] at h
      cases h
      have hkey := c.storage.keyed key run hrun
      refine .inl ⟨key, id, congrArg (c.recorded ++ ·) ?_⟩
      rw [← hkey]
      exact lastNumber_putRun c.storage (run.overridden fields _) _
  | exPost now uuid key failure =>
    cases hrun : c.storage.evaluationRuns.get? key with
    | none =>
      simp only [Recording.step, Storage.recordExPostFailure, hrun] at h
      cases h
      exact .inr rfl
    | some run =>
      simp only [Recording.step, Storage.recordExPostFailure, hrun] at h
      cases h
      have hkey := c.storage.keyed key run hrun
      refine .inl ⟨key, id, congrArg (c.recorded ++ ·) ?_⟩
      rw [← hkey]
      exact lastNumber_putRun c.storage (run.failed _ _) _
  | purge r =>
    cases h
    exact .inr rfl

def Recording.Counted (c : Recording) : Prop :=
  Increasing c.recorded ∧ ∀ key m, (key, m) ∈ c.recorded → m ≤ c.recorded.countP fun e => e.1 = key

lemma Recording.Counted.step {env : Env} {c c' : Recording} {call : HistoryCall} (hc : c.Counted)
    (hcm : findsComplete c call) (h : c.step env call = some c') : c'.Counted := by
  rcases Recording.step_cases h with ⟨key, hkey, hr⟩ | hr
  · have hlength : (c.storage.history key).length = c.recorded.countP fun e => e.1 = key :=
      of_decide_eq_true (hkey hcm)
    rw [hlength] at hr
    unfold Recording.Counted
    rw [hr]
    refine ⟨hc.1.append fun m hm => Nat.lt_succ_of_le (hc.2 key m hm), ?_⟩
    intro key' m hm
    rw [List.countP_append]
    rcases List.mem_append.mp hm with hm | hm
    · exact (hc.2 key' m hm).trans (Nat.le_add_right _ _)
    · cases List.mem_singleton.mp hm
      simp
  · unfold Recording.Counted
    rw [hr]
    exact hc

end InMemory

/-! ### In the database -/

namespace Persistent

/-- The calls on the history, with their times. -/
inductive Call where
  | run (now : String) (r : RunRequest)
  | override (now : String) (key : RunKey) (fields : Fields)
  | exPost (now uuid : String) (key : RunKey) (failure : Fields)
  | purge (r : PurgeRequest) (vacuum : Bool)

def Call.code (env : InMemory.Env) : Call → Task Unit
  | run now r => (recordEvaluationRun now r).bind fun _ => .ret ()
  | override now key fields => (recordEvaluationOverride env now key fields).bind fun _ => .ret ()
  | exPost now uuid key failure => (recordExPostFailure env now uuid key failure).bind fun _ => .ret ()
  | purge r vacuum => (purgeEvaluationRunHistory r vacuum).bind fun _ => .ret ()

/-- What has been done: a call has read the largest number of a run, or a revision was recorded. -/
inductive Entry where
  | read (call : ℕ) (key : RunKey) (found : Option ℕ)
  | recorded (key : RunKey) (revision : ℕ)

structure Sys where
  tables : Tables
  log : List Entry

def noted (i : ℕ) : (o : Op) → Except Failure o.Ans → List Entry
  | .selectMaxRevision key, .ok found => [.read i key found]
  | .insertHistory row, .ok _ => [.recorded row.key row.revision]
  | _, _ => []

def perform (i : ℕ) (o : Op) (fails : Bool) (s : Sys) : Except Failure o.Ans × Sys :=
  if fails then (.error .driver, s)
  else
    let r := s.tables.execute o
    (r.1, ⟨r.2, s.log ++ noted i o r.1⟩)

abbrev Calls := Config Op Op.Ans Failure Unit Sys Call

def system (env : InMemory.Env) : System Op Op.Ans Failure Unit Sys Bool Empty Call where
  code := Call.code env
  perform := perform
  disturb x := nomatch x
  may _ _ := true

def start (tables : Tables) : Calls := ⟨⟨tables, []⟩, []⟩

def recordedOf (log : List Entry) : List (RunKey × ℕ) :=
  log.filterMap fun
    | .recorded key revision => some (key, revision)
    | .read _ _ _ => none

def Entry.isReadBy (i : ℕ) : Entry → Bool
  | .read j _ _ => j = i
  | .recorded _ _ => false

def lastRecorded (log : List Entry) (key : RunKey) : Option ℕ :=
  ((recordedOf log).filter fun e => e.1 = key).getLast?.map Prod.snd

def readLast (log : List Entry) (i : ℕ) (key : RunKey) : Bool :=
  match log.dropWhile fun e => !e.isReadBy i with
  | .read _ _ found :: since =>
    lastRecorded (log.takeWhile fun e => !e.isReadBy i) key = found && (recordedOf since).all fun e => e.1 ≠ key
  | _ => true

def insertsNext (c : Calls) : Event Bool Empty Call → Bool
  | .resume i false =>
    match c.calls[i]? with
    | some (_, .await (.insertHistory row) _) =>
      decide (row.revision ∈ c.store.tables.revisions row.key) || readLast c.store.log i row.key
    | _ => true
  | _ => true

lemma recordedOf_append (log new : List Entry) : recordedOf (log ++ new) = recordedOf log ++ recordedOf new :=
  List.filterMap_append

/-! ### One call -/

/-- The log grows by entries in which only call `i` reads. -/
def GrownBy (i : ℕ) (s s' : Sys) : Prop :=
  ∃ new, s'.log = s.log ++ new ∧ ∀ e ∈ new, ∀ j, e.isReadBy j = true → j = i

/-- The log grows by entries in which call `i` reads nothing. -/
def Undisturbed (i : ℕ) (s s' : Sys) : Prop :=
  ∃ new, s'.log = s.log ++ new ∧ ∀ e ∈ new, e.isReadBy i = false

/-- The number of a row follows the one that call `i` has read. -/
def Numbered (i : ℕ) (row : HistoryRow) (s : Sys) : Prop :=
  ∃ found since, (s.log.dropWhile fun e => !e.isReadBy i) = .read i row.key found :: since ∧
    row.revision = found.getD 0 + 1

variable {i : ℕ} {s : Sys}

lemma Numbered.undisturbed {row : HistoryRow} {s' : Sys} (h : Numbered i row s) (hs : Undisturbed i s s') :
    Numbered i row s' := by
  obtain ⟨found, since, hr, hrow⟩ := h
  obtain ⟨new, hlog, -⟩ := hs
  refine ⟨found, since ++ new, ?_, hrow⟩
  rw [hlog, List.dropWhile_append, hr]
  rfl

lemma Undisturbed.trans {t u : Sys} (h : Undisturbed i s t) (h' : Undisturbed i t u) : Undisturbed i s u := by
  obtain ⟨new, hlog, hnew⟩ := h
  obtain ⟨new', hlog', hnew'⟩ := h'
  refine ⟨new ++ new', by rw [hlog', hlog, List.append_assoc], ?_⟩
  intro e he
  exact (List.mem_append.mp he).elim (hnew e) (hnew' e)

def proto (i : ℕ) : Protocol Op Op.Ans Failure Sys Bool where
  perform := perform i
  Ok o fails s := ∀ row, o = .insertHistory row → fails = false →
    row.revision ∈ s.tables.revisions row.key ∨ readLast s.log i row.key = true
  J s := Increasing (recordedOf s.log)
  Rely := Undisturbed i
  Guar := GrownBy i
  At o s := ∀ row, o = .insertHistory row → Numbered i row s
  rely_refl _ := ⟨[], (List.append_nil _).symm, fun _ h => absurd h List.not_mem_nil⟩
  rely_trans := .trans

lemma lt_of_lastRecorded {log : List Entry} (h : Increasing (recordedOf log)) {key : RunKey} {m : ℕ}
    (hm : (key, m) ∈ recordedOf log) : m < (lastRecorded log key).getD 0 + 1 := by
  unfold lastRecorded
  generalize recordedOf log = recorded at h hm
  have hmem : (key, m) ∈ recorded.filter fun e => e.1 = key := List.mem_filter.mpr ⟨hm, decide_eq_true rfl⟩
  have hp := h.filter fun e => decide (e.1 = key)
  have hkeys : ∀ e ∈ recorded.filter fun e => e.1 = key, e.1 = key :=
    fun e he => of_decide_eq_true (List.mem_filter.mp he).2
  generalize (recorded.filter fun e => e.1 = key) = mine at hmem hp hkeys
  rcases List.eq_nil_or_concat mine with rfl | ⟨before, ⟨k, n⟩, rfl⟩
  · cases hmem
  · rw [List.concat_eq_append] at hmem hp hkeys ⊢
    rw [List.getLast?_concat, Option.map_some, Option.getD_some]
    rcases List.mem_append.mp hmem with hb | hl
    · have hlt := (List.pairwise_append.mp hp).2.2 _ hb _ List.mem_cons_self
      exact (hlt (hkeys _ hmem |>.trans (hkeys (k, n) (by simp)).symm)).trans (Nat.lt_succ_self n)
    · obtain ⟨-, rfl⟩ := Prod.mk.inj (List.mem_singleton.mp hl)
      exact Nat.lt_succ_self m

lemma increasing_insert {row : HistoryRow} (h : Increasing (recordedOf s.log)) (hn : Numbered i row s)
    (hl : readLast s.log i row.key) : Increasing (recordedOf (s.log ++ [.recorded row.key row.revision])) := by
  obtain ⟨found, since, hr, hrow⟩ := hn
  unfold readLast at hl
  rw [hr] at hl
  rw [Bool.and_eq_true, decide_eq_true_eq, List.all_eq_true] at hl
  obtain ⟨hf, hnn⟩ := hl
  -- the log is what was recorded before the call read, and what was since
  have hs : recordedOf s.log = recordedOf (s.log.takeWhile fun e => !e.isReadBy i) ++ recordedOf since := by
    conv_lhs => rw [← List.takeWhile_append_dropWhile (p := fun e => !e.isReadBy i) (l := s.log), hr]
    exact recordedOf_append _ _
  rw [recordedOf_append]
  refine h.append fun m hm => ?_
  rw [hrow, ← hf]
  rw [hs] at hm h
  rcases List.mem_append.mp hm with hb | haf
  · exact lt_of_lastRecorded (List.pairwise_append.mp h).1 hb
  · exact absurd rfl (of_decide_eq_true (hnn _ haf))

/-! ### The calls are safe -/

def Op.isInsert : Op → Bool
  | .insertHistory _ => true
  | _ => false

def Unread (i : ℕ) (s : Sys) : Prop := ∀ e ∈ s.log, e.isReadBy i = false

lemma Unread.undisturbed {s' : Sys} (h : Unread i s) (hs : Undisturbed i s s') : Unread i s' := by
  obtain ⟨new, hlog, hnew⟩ := hs
  intro e he
  rw [hlog] at he
  exact (List.mem_append.mp he).elim (h e) (hnew e)

lemma noted_quiet {o : Op} (h : o.isInsert = false) (r : Except Failure o.Ans) :
    recordedOf (noted i o r) = [] ∧ ∀ e ∈ noted i o r, ∀ j, e.isReadBy j → j = i := by
  have hnil : recordedOf [] = [] ∧ ∀ e ∈ ([] : List Entry), ∀ j, e.isReadBy j → j = i :=
    ⟨rfl, fun _ he => absurd he List.not_mem_nil⟩
  cases r with
  | error _ => cases o <;> exact hnil
  | ok answer =>
    cases o with
    | insertHistory _ => cases h
    | selectMaxRevision key =>
      refine ⟨rfl, fun e he j hj => ?_⟩
      obtain rfl := List.mem_singleton.mp he
      exact (of_decide_eq_true hj).symm
    | _ => exact hnil

lemma quiet_step {o : Op} (h : o.isInsert = false) (fails : Bool) (hs : (proto i).J s) :
    (proto i).J (perform i o fails s).2 ∧ (proto i).Guar s (perform i o fails s).2 := by
  cases fails with
  | true => exact ⟨hs, [], (List.append_nil _).symm, fun _ he => absurd he List.not_mem_nil⟩
  | false =>
    obtain ⟨hn, hr⟩ := noted_quiet (i := i) h (s.tables.execute o).1
    refine ⟨?_, _, rfl, hr⟩
    show Increasing (recordedOf (s.log ++ _))
    rw [recordedOf_append, hn, List.append_nil]
    exact hs

lemma safe_quiet {α : Type} {m : Task α} (hm : Uses (fun o => o.isInsert = false) m) (s : Sys) :
    Safe (proto i) (fun _ _ => True) m s := by
  refine hm.safe (K := fun _ => True) (fun _ _ _ _ => trivial) ?_ trivial
  intro o ho s' hs' _
  refine ⟨fun row hrow => ?_, fun fails _ => ?_⟩
  · rw [hrow] at ho
    cases ho
  · obtain ⟨hk, hg⟩ := quiet_step ho fails hs'
    exact ⟨hk, hg, trivial⟩

lemma insert_step {row : HistoryRow} (fails : Bool) (hs : (proto i).J s) (hnm : Numbered i row s)
    (hok : fails = false → row.revision ∈ s.tables.revisions row.key ∨ readLast s.log i row.key) :
    (proto i).J (perform i (.insertHistory row) fails s).2 ∧
      (proto i).Guar s (perform i (.insertHistory row) fails s).2 := by
  have hn : (proto i).J s ∧ (proto i).Guar s s :=
    ⟨hs, [], (List.append_nil _).symm, fun _ he => absurd he List.not_mem_nil⟩
  cases fails with
  | true => exact hn
  | false =>
    by_cases ht : row.revision ∈ s.tables.revisions row.key
    · have hex : s.tables.execute (.insertHistory row) = (.error .driver, s.tables) := if_pos ht
      have hp : (perform i (.insertHistory row) false s).2 = ⟨s.tables, s.log ++ []⟩ := by
        unfold perform
        rw [hex]
        rfl
      rw [hp, List.append_nil]
      exact hn
    · have hex : s.tables.execute (.insertHistory row) =
          (.ok (), { s.tables with history := s.tables.history ++ [row] }) := if_neg ht
      have hp : (perform i (.insertHistory row) false s).2 =
          ⟨{ s.tables with history := s.tables.history ++ [row] }, s.log ++ [.recorded row.key row.revision]⟩ := by
        unfold perform
        rw [hex]
        rfl
      rw [hp]
      refine ⟨increasing_insert hs hnm ((hok rfl).resolve_left ht), _, rfl, fun e he j hj => ?_⟩
      obtain rfl := List.mem_singleton.mp he
      cases hj

lemma safe_upsert (now : String) (record : EvaluationRunRecord) (hs : Unread i s) :
    Safe (proto i) (fun _ _ => True) (upsert now record) s := by
  refine Safe.bind_iff.mpr (Safe.perform_iff.mpr ?_)
  intro s₁ hr₁ hs₁
  refine ⟨fun row hrow => (by cases hrow), fun fails _ => ?_⟩
  obtain ⟨hk, hg⟩ := quiet_step (o := .selectMaxRevision record.key) rfl fails hs₁
  refine ⟨hk, hg, ?_⟩
  cases fails with
  | true => trivial
  | false =>
    -- the row that is inserted follows what was read
    have hr : ∀ row : HistoryRow, row.key = record.key →
        row.revision = (s₁.tables.revisions record.key).max?.getD 0 + 1 →
          Numbered i row (perform i (.selectMaxRevision record.key) false s₁).2 := by
      intro row hkey hrow
      refine ⟨(s₁.tables.revisions record.key).max?, [], ?_, hrow⟩
      show (s₁.log ++ [Entry.read i record.key _]).dropWhile _ = _
      have hu := hs.undisturbed hr₁
      rw [List.dropWhile_append, List.dropWhile_eq_nil_iff.mpr fun e he => by rw [hu e he]; rfl]
      simp [Entry.isReadBy, hkey]
    refine Safe.bind_iff.mpr (Safe.perform_iff.mpr ?_)
    intro s₂ hr₂ hs₂
    have hn := (hr ⟨record.key, (s₁.tables.revisions record.key).max?.getD 0 + 1, record,
      orText record.updatedAt (orText record.createdAt now)⟩ rfl rfl).undisturbed hr₂
    refine ⟨fun row hrow => ?_, fun fails hok => ?_⟩
    · obtain rfl := Op.insertHistory.inj hrow
      exact hn
    obtain ⟨hk, hg⟩ := insert_step fails hs₂ hn fun hf => hok _ rfl hf
    refine ⟨hk, hg, ?_⟩
    have hrs : Uses (fun o => o.isInsert = false)
        ((Coro.perform (Op.upsertRun record)).bind fun _ => Coro.perform (Op.appendAudit record.worldId) : Task Unit) :=
      Uses.bind (.perform rfl) fun _ => .perform rfl
    split
    · exact safe_quiet hrs _
    · trivial

lemma safe_recordChange (now : String) (record : EvaluationRunRecord) (hs : Unread i s) :
    Safe (proto i) (fun _ _ => True) (recordChange now record) s := by
  refine Safe.bind_iff.mpr ((safe_upsert now record hs).mono ?_)
  intro r t _
  cases r with
  | error _ => trivial
  | ok _ => exact safe_quiet (Uses.bind (.perform rfl) fun _ => Uses.bind (.perform rfl) fun _ => Uses.ret _) t

lemma safe_selectRun {α : Type} (key : RunKey) (f : Option EvaluationRunRecord → Task α)
    (hf : ∀ found s, Unread i s → Safe (proto i) (fun _ _ => True) (f found) s) (hs : Unread i s) :
    Safe (proto i) (fun _ _ => True) ((Coro.perform (Op.selectRun key)).bind f) s := by
  refine Safe.bind_iff.mpr (Safe.perform_iff.mpr ?_)
  intro s₁ hr hs₁
  refine ⟨fun row hrow => (by cases hrow), fun fails _ => ?_⟩
  obtain ⟨hk, hg⟩ := quiet_step (o := .selectRun key) rfl fails hs₁
  refine ⟨hk, hg, ?_⟩
  cases fails with
  | true => trivial
  | false =>
    refine hf _ _ ?_
    intro e he
    exact hs.undisturbed hr e ((List.mem_append.mp he).resolve_right List.not_mem_nil)

lemma safe_code (env : InMemory.Env) (call : Call) (hs : Unread i s) :
    Safe (proto i) (fun _ _ => True) (call.code env) s := by
  have hd : ∀ {α : Type} {m : Task α}, Safe (proto i) (fun _ _ => True) m s →
      Safe (proto i) (fun _ _ => True) (m.bind fun _ => .ret ()) s := by
    intro α m hm
    refine Safe.bind_iff.mpr (hm.mono ?_)
    intro r t _
    cases r <;> trivial
  cases call with
  | run now r =>
    refine hd (safe_selectRun r.key _ (fun found t ht => ?_) hs)
    refine Safe.bind_iff.mpr ((safe_upsert now _ ht).mono ?_)
    intro r t _
    cases r <;> trivial
  | override now key fields =>
    refine hd (safe_selectRun key _ (fun found t ht => ?_) hs)
    cases found with
    | none => trivial
    | some existing => exact safe_recordChange now _ ht
  | exPost now uuid key failure =>
    refine hd (safe_selectRun key _ (fun found t ht => ?_) hs)
    cases found with
    | none => trivial
    | some existing => exact safe_recordChange now _ ht
  | purge r vacuum =>
    refine hd (safe_quiet (Uses.bind (.perform rfl) fun candidates => ?_) s)
    split
    · trivial
    · refine Uses.bind (.perform rfl) fun _ => Uses.bind (.perform rfl) fun _ => ?_
      split
      · exact Uses.bind (Uses.tryExcept (.perform rfl) fun _ => trivial) fun _ => trivial
      · trivial

lemma composes (env : InMemory.Env) {tables : Tables} :
    System.Composes (system env) (fun c ev => insertsNext c ev) (start tables) (fun i _ => proto i)
      (fun s => Increasing (recordedOf s.log)) (fun labels s => ∀ e ∈ s.log, ∀ j, e.isReadBy j → j < labels.length)
      (fun _ _ _ _ => True) where
  inv _ _ := rfl
  perform _ _ := rfl
  calls := rfl
  init := ⟨List.Pairwise.nil, fun _ h => absurd h List.not_mem_nil⟩
  ok c i fails call o k _ hP hi row ho hfails := by
    subst ho hfails
    simpa [insertsNext, hi, decide_eq_true_eq] using hP
  stable _ _ _ _ _ _ _ := trivial
  start c call _ _ _ hl := by
    refine ⟨fun e he j hj => ?_, safe_code env call fun e he => ?_⟩
    · rw [List.length_append]
      exact (hl e he j hj).trans_le (Nat.le_add_right _ _)
    · by_contra hr
      rw [Bool.not_eq_false] at hr
      have hlt := hl e he _ hr
      rw [Config.labels, List.length_map] at hlt
      exact lt_irrefl _ hlt
  disturb _ x := nomatch x
  keep labels i call s s' _ hl hi hg _ := by
    obtain ⟨new, hlog, hnew⟩ := hg
    intro e he j hj
    rw [hlog] at he
    rcases List.mem_append.mp he with he | he
    · exact hl e he j hj
    · rw [hnew e he j hj]
      exact (List.getElem?_eq_some_iff.mp hi).1
  others _ i j _ _ s s' _ _ _ _ hij hg _ := by
    obtain ⟨new, hlog, hnew⟩ := hg
    refine ⟨new, hlog, fun e he => ?_⟩
    by_contra hr
    rw [Bool.not_eq_false] at hr
    exact hij (hnew e he j hr).symm

end Persistent

/-- **Revisions are unique and increasing**, in memory in every run whose recordings find the history complete, and
in the database in every run whose insertions follow the number that was recorded last. -/
theorem revisions_increase (env : InMemory.Env) :
    (∀ storage c, Run (Recording.step env) (fun c call => findsComplete c call = true) ⟨storage, []⟩ c → Increasing c.recorded) ∧
    ∀ tables c, (Persistent.system env).Run (fun c ev => Persistent.insertsNext c ev = true) (Persistent.start tables) c →
      Increasing (Persistent.recordedOf c.store.log) := by
  constructor
  · intro storage c hrun
    have hstart : (Recording.mk storage []).Counted := ⟨List.Pairwise.nil, fun _ _ h => absurd h List.not_mem_nil⟩
    exact (hrun.invariant hstart fun _ _ _ hc hcomplete hstep => hc.step hcomplete hstep).1
  · intro tables c hrun
    exact (System.Run.safe (Persistent.composes env) hrun).1

/-! ### Before and after a purge -/

def historyEnv : InMemory.Env := ⟨Builtins.ascii, id, id, fun _ => none⟩

def backtest : RunRequest := ⟨"w", "s", "r", "backtest", "low", none, Dict.empty, Dict.empty, Dict.empty, none, none⟩

def recordedAround (olderThan : String) : List InMemory.HistoryCall :=
  [.run "2025-01-01T00:00:00Z" backtest, .run "2025-02-01T00:00:00Z" backtest,
    .purge ⟨olderThan, none, false⟩, .run "2025-03-01T00:00:00Z" backtest]

def inTurn (i : ℕ) (call : Persistent.Call) (statements : ℕ) : List (Event Bool Empty Persistent.Call) :=
  .start call :: List.replicate statements (.resume i false)

def insertedAround (olderThan : String) : List (Event Bool Empty Persistent.Call) :=
  inTurn 0 (.run "2025-01-01T00:00:00Z" backtest) 5 ++ inTurn 1 (.purge ⟨olderThan, none, false⟩ false) 3 ++
    inTurn 2 (.run "2025-03-01T00:00:00Z" backtest) 5

def noTables : Persistent.Tables := ⟨Dict.empty, []⟩

/-- A purge of nothing leaves the numbers as they are. -/
theorem revisions_increase_kept :
    (∃ c : Recording, c.recorded = [(backtest.key, 1), (backtest.key, 2), (backtest.key, 3)] ∧ Increasing c.recorded) ∧
    ∃ c : Persistent.Calls, Persistent.recordedOf c.store.log = [(backtest.key, 1), (backtest.key, 2)] ∧
      Increasing (Persistent.recordedOf c.store.log) := by
  constructor
  · obtain ⟨c, hrun, hcheck⟩ := exists_run (Recording.step historyEnv) ⟨Storage.empty, []⟩ findsComplete
      (recordedAround "2024-01-01T00:00:00Z")
      (fun c => c.recorded = [(backtest.key, 1), (backtest.key, 2), (backtest.key, 3)]) (by decide +kernel)
    exact ⟨c, of_decide_eq_true hcheck, (revisions_increase historyEnv).1 Storage.empty c hrun⟩
  · obtain ⟨c, hrun, hcheck⟩ := exists_run (Persistent.system historyEnv).step (Persistent.start noTables)
      Persistent.insertsNext (insertedAround "2024-01-01T00:00:00Z")
      (fun c => Persistent.recordedOf c.store.log = [(backtest.key, 1), (backtest.key, 2)]) (by decide +kernel)
    exact ⟨c, of_decide_eq_true hcheck, (revisions_increase historyEnv).2 noTables c hrun⟩

/-- After a purge a number is given out again, in memory and in the database. -/
theorem purge_repeats_revisions :
    (¬ ∀ c, Run (Recording.step historyEnv) (fun _ _ => True) ⟨Storage.empty, []⟩ c → Increasing c.recorded) ∧
    ¬ ∀ c, (Persistent.system historyEnv).Run (fun _ _ => True) (Persistent.start noTables) c →
      Increasing (Persistent.recordedOf c.store.log) := by
  constructor
  · intro h
    obtain ⟨c, hrun, hcheck⟩ := exists_run (Recording.step historyEnv) ⟨Storage.empty, []⟩ (fun _ _ => true)
      (recordedAround "2025-01-15T00:00:00Z")
      (fun c => c.recorded = [(backtest.key, 1), (backtest.key, 2), (backtest.key, 2)]) (by decide +kernel)
    have hincreasing := h c (hrun.mono fun _ _ _ => trivial)
    rw [of_decide_eq_true hcheck] at hincreasing
    simp [Increasing] at hincreasing
  · intro h
    obtain ⟨c, hrun, hcheck⟩ := exists_run (Persistent.system historyEnv).step (Persistent.start noTables)
      (fun _ _ => true) (insertedAround "2025-01-15T00:00:00Z")
      (fun c => Persistent.recordedOf c.store.log = [(backtest.key, 1), (backtest.key, 1)]) (by decide +kernel)
    have hincreasing := h c (hrun.mono fun _ _ _ => trivial)
    rw [of_decide_eq_true hcheck] at hincreasing
    simp [Increasing] at hincreasing

end Qmtl.WorldService

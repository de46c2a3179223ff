import Qmtl.Lib.Interleave
import Qmtl.WorldService.Storage

/-!
The history of evaluation runs: its purging in the in-memory `Storage`, and `PersistentStorage` with
`PersistentEvaluationRunRepository`, one SQL statement at each await.
-/

namespace Qmtl.WorldService.InMemory

open Lib

structure PurgeRequest where
  olderThan : String
  worldId : Option String
  dryRun : Bool

def PurgeRequest.covers (r : PurgeRequest) (worldId recordedAt : String) : Bool :=
  (r.worldId.filter (· ≠ "")).all (· = worldId) && decide (recordedAt < r.olderThan)

structure PurgeReport where
  candidates : ℕ
  deleted : ℕ

def Storage.purgeEvaluationRunHistory (s : Storage) (r : PurgeRequest) : PurgeReport × Storage :=
  let candidates := (s.evaluationRunHistory.entries.map fun e =>
    e.2.countP fun item => r.covers e.1.1 item.recordedAt).sum
  let kept : Dict RunKey (List Revision) :=
    { entries := s.evaluationRunHistory.entries.map fun e =>
        (e.1, e.2.filter fun item => !r.covers e.1.1 item.recordedAt)
      nodup := by
        rw [List.map_map]
        exact s.evaluationRunHistory.nodup }
  if r.dryRun then (⟨candidates, 0⟩, s) else (⟨candidates, candidates⟩, { s with evaluationRunHistory := kept })

end Qmtl.WorldService.InMemory

namespace Qmtl.WorldService.Persistent

open Lib WorldService.InMemory

/-! ### Statements -/

structure HistoryRow where
  key : RunKey
  revision : ℕ
  payload : EvaluationRunRecord
  recordedAt : String

structure Tables where
  evaluationRuns : Dict RunKey EvaluationRunRecord
  history : List HistoryRow

/-- The statements that calls await. -/
inductive Op where
  | selectRun (key : RunKey)
  | selectMaxRevision (key : RunKey)
  | insertHistory (row : HistoryRow)
  | upsertRun (record : EvaluationRunRecord)
  | appendAudit (worldId : String)
  | countHistory (r : PurgeRequest)
  | deleteHistory (r : PurgeRequest)
  | vacuum

def Op.Ans : Op → Type
  | selectRun _ => Option EvaluationRunRecord
  | selectMaxRevision _ => Option ℕ
  | insertHistory _ => Unit
  | upsertRun _ => Unit
  | appendAudit _ => Unit
  | countHistory _ => ℕ
  | deleteHistory _ => Unit
  | vacuum => Unit

/-- What a call may raise: an evaluation run that is not found, or an error of the driver, as where the key of a row
is taken. -/
inductive Failure where
  | keyError (message : String)
  | driver

def Tables.revisions (t : Tables) (key : RunKey) : List ℕ := (t.history.filter fun row => row.key = key).map HistoryRow.revision

def Tables.execute (t : Tables) : (o : Op) → Except Failure o.Ans × Tables
  | .selectRun key => (.ok (t.evaluationRuns.get? key), t)
  | .selectMaxRevision key => (.ok (t.revisions key).max?, t)
  | .insertHistory row =>
    -- the primary key is world, strategy, run and revision
    if row.revision ∈ t.revisions row.key then (.error .driver, t)
    else (.ok (), { t with history := t.history ++ [row] })
  | .upsertRun record => (.ok (), { t with evaluationRuns := t.evaluationRuns.set record.key record })
  | .appendAudit _ => (.ok (), t)
  | .countHistory r => (.ok (t.history.countP fun row => r.covers row.key.1 row.recordedAt), t)
  | .deleteHistory r =>
    (.ok (), { t with history := t.history.filter fun row => !r.covers row.key.1 row.recordedAt })
  | .vacuum => (.ok (), t)

abbrev Task (α : Type) := Coro Op Op.Ans Failure α

/-! ### Calls -/

def upsert (now : String) (record : EvaluationRunRecord) : Task Unit := do
  let previous : Option ℕ ← Coro.perform (Op.selectMaxRevision record.key)
  let recordedAt := orText record.updatedAt (orText record.createdAt now)
  Coro.perform (Op.insertHistory ⟨record.key, previous.getD 0 + 1, record, recordedAt⟩)
  Coro.perform (Op.upsertRun record)
  Coro.perform (Op.appendAudit record.worldId)

def recordEvaluationRun (now : String) (r : RunRequest) : Task EvaluationRunRecord := do
  let existing : Option EvaluationRunRecord ← Coro.perform (Op.selectRun r.key)
  let record : EvaluationRunRecord :=
    { runId := r.runId
      worldId := r.worldId
      strategyId := r.strategyId
      stage := r.stage
      riskTier := r.riskTier
      modelCardVersion := r.modelCardVersion.or (existing.bind EvaluationRunRecord.modelCardVersion)
      metrics := r.metrics
      validation := r.validation
      summary := r.summary
      createdAt := match existing with | some run => run.createdAt | none => some now
      updatedAt := some now }
  upsert now record
  return record

def recordChange (now : String) (record : EvaluationRunRecord) : Task (EvaluationRunRecord × ℕ) := do
  upsert now record
  Coro.perform (Op.appendAudit record.worldId)
  let revision : Option ℕ ← Coro.perform (Op.selectMaxRevision record.key)
  return (record, revision.getD 0)

variable (env : InMemory.Env)

def recordEvaluationOverride (now : String) (key : RunKey) (override : Fields) : Task (EvaluationRunRecord × ℕ) := do
  let found : Option EvaluationRunRecord ← Coro.perform (Op.selectRun key)
  match found with
  | none => .raise (.keyError "evaluation run not found")
  | some existing =>
    let timestamp := ((override.get "timestamp").or (.str now)).toStr env.builtins
    recordChange now (existing.overridden override timestamp)

def recordExPostFailure (now uuid : String) (key : RunKey) (failure : Fields) : Task (EvaluationRunRecord × ℕ) := do
  let found : Option EvaluationRunRecord ← Coro.perform (Op.selectRun key)
  match found with
  | none => .raise (.keyError "evaluation run not found")
  | some existing =>
    let recordedAt := failureTime env now failure
    recordChange now (existing.failed (exPostEvent failure recordedAt (failureCase env uuid failure)) recordedAt)

def purgeEvaluationRunHistory (r : PurgeRequest) (vacuum : Bool) : Task PurgeReport := do
  let candidates : ℕ ← Coro.perform (Op.countHistory r)
  if r.dryRun then return ⟨candidates, 0⟩
  else
    Coro.perform (Op.deleteHistory r)
    let remaining : ℕ ← Coro.perform (Op.countHistory r)
    if vacuum then (Coro.perform Op.vacuum).tryExcept fun _ => .ret ()
    return ⟨candidates, candidates - remaining⟩

end Qmtl.WorldService.Persistent

import Qmtl.Lib.Embed
import Qmtl.WorldService.ApplyFlow
import Qmtl.WorldService.Storage

/-!
The router of live promotions: overrides of evaluation runs, the plan of a promotion with the reasons that block it,
and the two requests that apply a plan.
-/

namespace Qmtl.WorldService.Promotion

open Lib WorldService

abbrev EvaluationRun := InMemory.EvaluationRunRecord

abbrev Key := String × String

structure Governance where
  mode : Option String
  cooldown : Option String
  maxLiveSlots : Option ℤ
  canaryFraction : Option ℚ
  approvers : Option (List String)

structure Env where
  service : WorldService.Env
  builtins : Builtins
  governance : Governance
  duration : String → Except String ℕ
  fractionScore : Key → ℚ
  fromisoformat : String → Option ℤ

/-- What a request awaits, and the clock. A step of `apply` is one of its own. -/
inductive Op where
  | getDefaultPolicy
  | getEvaluationRun (key : Key)
  | listEvaluationRuns
  | getAudit
  | latestSnapshot
  | recordEvaluationOverride (key : Key) (override : Fields)
  | publishEvaluationRunUpdated
  | utcNow
  | acquire
  | release
  | service (o : WorldService.Op)

/-- The audit log is answered with the times of the completed applies, and the time that is read then. -/
abbrev Op.Ans : Op → Type
  | .getDefaultPolicy => Governance
  | .getEvaluationRun _ => Option EvaluationRun
  | .listEvaluationRuns => List EvaluationRun
  | .getAudit => List ℤ × ℤ
  | .latestSnapshot => Bool
  | .recordEvaluationOverride _ _ => EvaluationRun
  | .utcNow => String
  | .service o => o.Ans
  | _ => Unit

abbrev Task := Coro Op Op.Ans Exn

variable (env : Env)

/-! ### What is read from a policy and a run -/

def lower (text : String) : String := env.builtins.lower.fn text

def modeOf (governance : Governance) : String := lower env (governance.mode.getD "")

def cooldownSeconds (governance : Governance) : Except Exn (Option ℕ) :=
  match stripped (governance.cooldown.getD "") with
  | none => .ok none
  | some text =>
    match env.duration text with
    | .ok seconds => .ok (some seconds)
    | .error message => .error (.http 422 message)

def summaryStatus (summary : Fields) : String :=
  match summary.get "status" with
  | .none => ""
  | status => lower env (status.toStr env.builtins)

def overrideStatus (summary : Fields) : String :=
  lower env (((summary.get "override_status").or (.str "none")).toStr env.builtins)

def activeSet (summary : Fields) : Option (List String) :=
  match summary.get "active_set" with
  | .list items => items.mapM fun
    | .str text => some text
    | _ => none
  | _ => none

def names (texts : List String) : List String :=
  (texts.filter fun text => strip text ≠ "").dedup.insertionSort (· ≤ ·)

def ensureActorAllowed (governance : Governance) (actor : Option String) : Except Exn Unit :=
  match governance.approvers.getD [] with
  | [] => .ok ()
  | approvers =>
    match stripped (actor.getD "") with
    | none => .error (.http 422 "actor is required by policy")
    | some value =>
      if value ∈ approvers.filterMap stripped then .ok ()
      else .error (.http 403 "actor is not allowed by policy")

def canaryAllows (canaryFraction : Option ℚ) (key : Key) : Bool :=
  match canaryFraction with
  | none => true
  | some fraction =>
    if fraction ≤ 0 then false
    else if 1 ≤ fraction then true
    else env.fractionScore key < fraction

def overrideOf (status : String) (reason actor : Option String) (timestamp : String) : Fields :=
  let text (v : Option String) : Value := match v with
    | none => .none
    | some t => .str t
  Dict.ofList [("status", .str status), ("reason", text reason), ("actor", text actor), ("timestamp", .str timestamp)]

def recordEvaluationOverride (key : Key) (override : Fields) : Task EvaluationRun := do
  let existing ← Coro.perform (Op.getEvaluationRun key)
  match existing with
  | none => .raise (.http 404 "evaluation run not found")
  | some run =>
    let current := lower env (((run.summary.get "override_status").or (.str "")).toStr env.builtins)
    let requested := lower env (((override.get "status").or (.str "")).toStr env.builtins)
    if current ≠ "" ∧ current = requested then return run
    else do
      let recorded ← (Coro.perform (Op.recordEvaluationOverride key override)).tryExcept fun _ =>
        .raise (.http 404 "evaluation run not found")
      if env.service.bus then
        Coro.perform Op.publishEvaluationRunUpdated
      return recorded

def postOverride (status : String) (key : Key) (reason actor timestamp : Option String) : Task EvaluationRun := do
  let governance ← Coro.perform Op.getDefaultPolicy
  if modeOf env governance = "disabled" then .raise (.http 409 "live promotion is disabled by policy")
  else do
    let _ ← Coro.ofExcept (ensureActorAllowed governance actor)
    let now ← Coro.perform Op.utcNow
    let stamp := match timestamp with
      | some t => if t = "" then now else t
      | none => now
    recordEvaluationOverride env key (overrideOf status reason actor stamp)

def postLivePromotionApprove (key : Key) (reason actor : String) (timestamp : Option String) : Task EvaluationRun :=
  postOverride env "approved" key (some reason) (some actor) timestamp

def postLivePromotionReject (key : Key) (reason actor timestamp : Option String) : Task EvaluationRun :=
  postOverride env "rejected" key reason actor timestamp

/-! ### Plans -/

def remainingOf (seconds : ℕ) (completed : List ℤ) (now : ℤ) : ℤ :=
  match completed.max? with
  | none => 0
  | some last => max 0 (seconds - max 0 ((now - last) / 1000000))

def cooldownRemainingSeconds (governance : Governance) : Task (Option ℤ) := do
  let seconds ← Coro.ofExcept (cooldownSeconds env governance)
  match seconds with
  | none => return none
  | some seconds => do
    let (completed, now) ← Coro.perform Op.getAudit
    return some (remainingOf seconds completed now)

def computePromotionBlockReasons (run : EvaluationRun) (governance : Governance) (targetActive : List String) :
    Task (List String) := do
  let disabled := if modeOf env governance = "disabled" then ["promotion_disabled"] else []
  let stage := if lower env run.stage ≠ "paper" then ["not_paper_stage"] else []
  let validation := if summaryStatus env run.summary ∉ ["pass", "warn"] then ["validation_failed"] else []
  let fresh ← Coro.perform Op.latestSnapshot
  let risk := if fresh then [] else ["risk_snapshot_missing_or_expired"]
  let remaining ← cooldownRemainingSeconds env governance
  let cooldown := if 0 < remaining.getD 0 then ["cooldown_active"] else []
  let slots := if governance.maxLiveSlots.any (fun n => n < (targetActive.length : ℤ)) then ["max_live_slots_exceeded"] else []
  let approval := if modeOf env governance = "manual_approval" ∧ overrideStatus env run.summary ≠ "approved" then
    ["manual_approval_required"] else []
  return disabled ++ stage ++ validation ++ risk ++ cooldown ++ slots ++ approval

structure PlanResponse where
  plan : ApplyPlan
  targetActive : List String
  blockedReasons : List String
  cooldownRemaining : Option ℤ
  maxLiveSlots : Option ℤ
  canaryFraction : Option ℚ

def planTo (current target : List String) : ApplyPlan where
  activate := target.filter fun sid => sid ∉ current
  deactivate := current.filter fun sid => sid ∉ target

def planFrom (record : Option EvaluationRun) : Task PlanResponse :=
  match record with
  | none => .raise (.http 404 "evaluation run not found")
  | some run =>
    match activeSet run.summary with
    | none => .raise (.http 422 "evaluation run missing summary.active_set")
    | some active => do
      let current ← Coro.perform (Op.service (.call .getDecisions))
      let governance ← Coro.perform Op.getDefaultPolicy
      let remaining ← cooldownRemainingSeconds env governance
      let reasons ← computePromotionBlockReasons env run governance (names active)
      return ⟨planTo (names current) (names active), names active, reasons, remaining, governance.maxLiveSlots,
        governance.canaryFraction⟩

def getLivePromotionPlan (key : Key) : Task PlanResponse := do
  let record ← Coro.perform (Op.getEvaluationRun key)
  planFrom env record

/-! ### Applying a plan -/

def serviceApply (payload : ApplyRequest) : Task Unit :=
  (Coro.perform Op.acquire).bind fun _ =>
    (((apply env.service payload none).embed Op.service fun _ answer => answer).bind fun _ => .ret ()).tryFinally fun _ =>
      Coro.perform Op.release

/-- What the two requests answer. -/
inductive Response where
  | run (run : EvaluationRun)
  | auto (applied : Bool) (reason : String)

def refusalOf (blocked : List String) (force : Bool) : Option Exn :=
  if "not_paper_stage" ∈ blocked then some (.http 409 "promotion requires paper-stage evaluation run")
  else if "validation_failed" ∈ blocked ∧ force = false then some (.http 409 "promotion requires passing validation")
  else if "risk_snapshot_missing_or_expired" ∈ blocked then some (.http 409 "risk snapshot missing or expired")
  else if "cooldown_active" ∈ blocked then some (.http 409 "cooldown active")
  else if "max_live_slots_exceeded" ∈ blocked then some (.http 409 "max live slots exceeded")
  else none

def postLivePromotionApply (key : Key) (applyRunId : String) (force : Bool) : Task Response := do
  let governance ← Coro.perform Op.getDefaultPolicy
  if modeOf env governance = "disabled" then .raise (.http 409 "live promotion is disabled by policy")
  else do
    let record ← Coro.perform (Op.getEvaluationRun key)
    match record with
    | none => .raise (.http 404 "evaluation run not found")
    | some run =>
      if modeOf env governance = "manual_approval" ∧ overrideStatus env run.summary ≠ "approved" ∧ force = false then
        .raise (.http 409 "manual approval required before applying live promotion")
      else do
        let plan ← getLivePromotionPlan env key
        match refusalOf plan.blockedReasons force with
        | some e => .raise e
        | none => do
          serviceApply env ⟨applyRunId, some plan.plan, none⟩
          let updated ← Coro.perform (Op.getEvaluationRun key)
          match updated with
          | none => .raise (.http 404 "evaluation run not found")
          | some run => return .run run

def datetimeMin : ℤ := -62135596800000000

def parseIso (text : String) : ℤ :=
  let candidate := strip text
  let plain := match candidate.toList.reverse with
    | 'Z' :: rest => String.ofList rest.reverse ++ "+00:00"
    | _ => candidate
  if candidate = "" then datetimeMin else (env.fromisoformat plain).getD datetimeMin

def rank (run : EvaluationRun) : ℤ × ℤ :=
  (parseIso env (run.updatedAt.getD ""), parseIso env (run.createdAt.getD ""))

def freshest : List EvaluationRun → Option EvaluationRun
  | [] => none
  | run :: runs => some (runs.foldl (fun best r =>
      let a := rank env best
      let b := rank env r
      if a.1 < b.1 ∨ a.1 = b.1 ∧ a.2 < b.2 then r else best) run)

def autoRefusal (plan : PlanResponse) (key : Key) : Option String :=
  if "validation_failed" ∈ plan.blockedReasons then some "validation_failed"
  else if "risk_snapshot_missing_or_expired" ∈ plan.blockedReasons then some "risk_snapshot_missing_or_expired"
  else if plan.maxLiveSlots.any (fun n => n < (plan.targetActive.length : ℤ)) then some "max_live_slots_exceeded"
  else if 0 < plan.cooldownRemaining.getD 0 then some "cooldown_active"
  else if !canaryAllows env plan.canaryFraction key then some "canary_skipped"
  else none

def postLivePromotionAutoApply : Task Response := do
  let governance ← Coro.perform Op.getDefaultPolicy
  if modeOf env governance ≠ "auto_apply" then
    .raise (.http 409 "live promotion auto-apply is not enabled by policy")
  else do
    let runs ← Coro.perform Op.listEvaluationRuns
    if runs.isEmpty then return .auto false "no_evaluation_runs"
    else match freshest env (runs.filter fun run => lower env run.stage = "paper") with
    | none => return .auto false "no_paper_runs"
    | some source =>
      if source.strategyId = "" ∨ source.runId = "" then return .auto false "missing_source_identifiers"
      else do
        let key := (source.strategyId, source.runId)
        let plan ← getLivePromotionPlan env key
        match autoRefusal env plan key with
        | some reason => return .auto false reason
        | none => do
          let now ← Coro.perform Op.utcNow
          let stamp := String.ofList (now.toList.filter fun c => c ≠ ':' ∧ c ≠ '-')
          serviceApply env ⟨"auto-live-" ++ source.runId ++ "-" ++ stamp, some plan.plan, none⟩
          return .auto true "applied"

end Qmtl.WorldService.Promotion

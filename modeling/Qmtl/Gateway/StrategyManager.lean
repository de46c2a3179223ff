import Qmtl.Gateway.ContextService
import Qmtl.Gateway.Fsm
import Qmtl.Lib.Except
import Qmtl.Lib.Json

/-! `StrategyManager.submit` with `StrategyStorage` and `StrategyQueue`: a submission is deduplicated by
its DAG's hash, recorded in the commit log, enqueued, and only then gets its context fields and its
entry in the state machine. -/

namespace Qmtl.Gateway

open Lib

structure Submission where
  sid : String
  hash : String
  dag : String
  ctx : StrategyComputeContext
  commitLog : Bool

namespace StrategyManager

variable (sub : Submission)

def fallbackDedupe : Gw (String × Bool) := do
  let existing : Option String ← ask (.getDagHash sub.hash false)
  match existing with
  | some x => return (x, true)
  | none =>
    let inserted : Bool ← ask (.setDagHash sub.hash sub.sid)
    if inserted then
      ask (.hset sub.sid [(.dag, sub.dag), (.hash, sub.hash)])
      return (sub.sid, false)
    else
      let existing : Option String ← ask (.getDagHash sub.hash true)
      return (existing.getD "", true)

def saveUnique : Gw (String × Bool) :=
  (ask (.evalDedupe sub.hash sub.sid sub.dag)).tryExcept fun _ => fallbackDedupe sub

def rollback : Gw Unit :=
  (do ask (.delDagHash sub.hash)
      ask (.delStrategy sub.sid)).tryExcept fun _ => pure ()

def publishSubmission : Gw Unit :=
  if sub.commitLog then
    (ask (.publishSubmission sub.sid)).tryExcept fun _ => do
      rollback sub
      .raise (.httpException 503 "E_COMMITLOG" "commit log unavailable")
  else pure ()

def enqueue : Gw Unit := do
  let kept : Bool ← ask (.localAppend sub.sid)
  if kept then return
  let _ ← ask (.rpush sub.sid)
  return

def enqueueWithRollback : Gw Unit :=
  (enqueue sub).tryExcept fun e => do
    rollback sub
    .raise e

def persistContext : Gw Unit :=
  if sub.ctx.redisMapping = [] then pure ()
  else ask (.hset sub.sid sub.ctx.redisMapping)

def finalizeSubmission : Gw Unit := do
  publishSubmission sub
  enqueueWithRollback sub
  persistContext sub
  Fsm.create sub.sid

def submit : Gw (String × Bool) := do
  let r ← saveUnique sub
  if r.2 then return (r.1, true)
  finalizeSubmission sub
  return (r.1, false)

/-! ### The stored DAG -/

structure Codec extends Json.Decoder where
  b64decode : String → Option String
  dagHash : Json → String

structure Request where
  dagJson : String
  metaObj : Option (List (String × Json))
  sid : String
  ctx : StrategyComputeContext
  commitLog : Bool

def parseDagPayload (codec : Codec) (r : Request) : Except Exc Json :=
  match (codec.b64decode r.dagJson).map codec.loads with
  | some (.ok dag) => .ok dag
  | _ =>
    match codec.loads r.dagJson with
    | .ok dag => .ok dag
    | .error msg => .error (.valueError msg)

def versionMeta (metaObj : Option (List (String × Json))) : Option String :=
  ["version", "strategy_version", "build_version"].findSome? fun key =>
    match (metaObj.getD []).lookup key with
    | some (.str val) => stripped val
    | _ => none

def sentinelNode (sid : String) (metaObj : Option (List (String × Json))) : Json :=
  .obj ([("node_type", .str "VersionSentinel"), ("node_id", .str (sid ++ "-sentinel"))] ++
    (versionMeta metaObj).toList.map fun v => ("version", .str v))

def appendNode (sentinel : Json) : List (String × Json) → Except Exc (List (String × Json))
  | [] => .ok [("nodes", .arr [sentinel])]
  | (k, v) :: rest =>
    if k = "nodes" then
      match v with
      | .arr nodes => .ok ((k, .arr (nodes ++ [sentinel])) :: rest)
      | _ => .error .attributeError
    else (appendNode sentinel rest).map ((k, v) :: ·)

def injectVersionSentinel (insertSentinel : Bool) (sid : String) (dag : Json)
    (metaObj : Option (List (String × Json))) : Except Exc Json :=
  if insertSentinel then
    match dag with
    | .obj fields => (appendNode (sentinelNode sid metaObj) fields).map .obj
    | _ => .error .attributeError
  else .ok dag

def encodeDag (dag : Json) : String := String.ofList (Base64.b64encode (dag.dumps.flatMap String.utf8EncodeChar))

structure DecodedDag where
  strategyId : String
  dag : Json
  dagForStorage : Json
  encodedDag : String
  dagHash : String

def decodeDag (codec : Codec) (insertSentinel : Bool) (r : Request) : Except Exc DecodedDag := do
  let dag ← parseDagPayload codec r
  let stored ← injectVersionSentinel insertSentinel r.sid dag r.metaObj
  return ⟨r.sid, dag, stored, encodeDag stored, codec.dagHash dag⟩

def Request.submission (r : Request) (decoded : DecodedDag) : Submission :=
  ⟨decoded.strategyId, decoded.dagHash, decoded.encodedDag, r.ctx, r.commitLog⟩

lemma encodedDag_of_decodeDag {codec : Codec} {insertSentinel : Bool} {r : Request} {decoded : DecodedDag}
    (h : decodeDag codec insertSentinel r = .ok decoded) : decoded.encodedDag = encodeDag decoded.dagForStorage := by
  unfold decodeDag at h
  obtain ⟨dag, -, h⟩ := bind_ok.mp h
  obtain ⟨stored, -, h⟩ := bind_ok.mp h
  obtain rfl := pure_ok.mp h
  rfl

/-- The operations of a submission are about its own id and hash. -/
inductive Own (sub : Submission) : Op → Prop
  | eval : Own sub (.evalDedupe sub.hash sub.sid sub.dag)
  | get (again : Bool) : Own sub (.getDagHash sub.hash again)
  | set : Own sub (.setDagHash sub.hash sub.sid)
  | hset (fs : List (Field × String)) : Own sub (.hset sub.sid fs)
  | publish : Own sub (.publishSubmission sub.sid)
  | keep : Own sub (.localAppend sub.sid)
  | push : Own sub (.rpush sub.sid)
  | delDagHash : Own sub (.delDagHash sub.hash)
  | delStrategy : Own sub (.delStrategy sub.sid)
  | hsetState (st : StrategyState) (seen : Option StrategyState) : Own sub (.hsetState sub.sid st seen)
  | insertRow : Own sub (.insertRow sub.sid)
  | append (x : LogEntry) : Own sub (.appendEvent sub.sid x)

variable {sub} {F : Op → Prop}

lemma uses_rollback (hn : F (.delDagHash sub.hash)) (hdel : F (.delStrategy sub.sid)) : Uses F (rollback sub) :=
  .tryExcept (.bind (.perform hn) fun _ => .perform hdel) fun _ => trivial

lemma uses_saveUnique (hev : F (.evalDedupe sub.hash sub.sid sub.dag))
    (hget : ∀ again, F (.getDagHash sub.hash again)) (hset : F (.setDagHash sub.hash sub.sid))
    (hs : F (.hset sub.sid [(.dag, sub.dag), (.hash, sub.hash)])) : Uses F (saveUnique sub) := by
  refine .tryExcept (.perform hev) fun _ => .bind (.perform (hget _)) ?_
  intro existing
  cases existing with
  | some x => trivial
  | none =>
    refine .bind (.perform hset) ?_
    intro inserted
    cases inserted
    · exact .bind (.perform (hget _)) fun _ => trivial
    · exact .bind (.perform hs) fun _ => trivial

end StrategyManager

end Qmtl.Gateway

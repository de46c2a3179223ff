import Qmtl.WorldService.RiskSnapshot

/-!
The `RiskSignalHub`: snapshots by world, each list in the order of `as_of` and version; behind it a repository, and
before it a cache of the snapshot that was written last.
-/

namespace Qmtl.WorldService.Risk

open Lib

structure Settings where
  maxCached : Option ℕ
  inlineCovThreshold : Option ℕ
  blobStore : Option ((String → Json → Timestamp) × (Json → Option Json))
  covarianceResolver : Option (Json → Option Json)
  ttlDefault : ℤ
  ttlMax : ℤ

structure CachedPayload where
  payload : Payload
  deadline : ℤ

structure Hub where
  snapshots : Dict String (List PortfolioSnapshot)
  repository : Option (Dict (String × String) Payload)
  cache : Option (Dict String CachedPayload)

variable (env : Env) (cfg : Settings)

def validateSnapshot (s : PortfolioSnapshot) : Except Exn PortfolioSnapshot :=
  if s.worldId = "" then .error (.valueError "world_id is required")
  else if s.asOf = "" then .error (.valueError "as_of is required")
  else if s.version = "" then .error (.valueError "version is required")
  else if s.weights.isEmpty then .error (.valueError "weights are required")
  else do
    env.checkWeightSum s.weights
    let ref ← (match s.realizedReturnsRef with
      | .null => .ok .null
      | .str text =>
        match stripped text with
        | some ref => .ok (.str ref)
        | none => .error (.valueError "realized_returns_ref must be a non-empty string when provided")
      | _ => .error (.valueError "realized_returns_ref must be a non-empty string when provided"))
    let realized ← (if isNull s.realizedReturns then .ok .null else normalizeRealizedReturns env s.realizedReturns)
    return { s with realizedReturnsRef := ref, realizedReturns := realized }

def withTtl (s : PortfolioSnapshot) : Except Exn PortfolioSnapshot :=
  let ttl := s.ttlSec.getD cfg.ttlDefault
  if ttl ≤ 0 then .error (.valueError "ttl_sec must be positive")
  else if cfg.ttlMax < ttl then .error (.valueError ("ttl_sec must be <= " ++ toString cfg.ttlMax))
  else .ok { s with ttlSec := some ttl }

def PortfolioSnapshot.deadline (s : PortfolioSnapshot) : Option ℤ :=
  match s.ttlSec, parseIso env s.createdAt with
  | some ttl, some created => some (created + ttl * 1000000)
  | _, _ => none

def expired (now : ℤ) (s : PortfolioSnapshot) : Except Exn Bool :=
  match s.deadline env with
  | none => .ok false
  | some deadline => if datetimeMax < deadline then .error .overflowError else .ok (deadline < now)

/-! ### Large fields -/

def maybeOffloadCovariance (now : Timestamp) (s : PortfolioSnapshot) : Except Exn (Option PortfolioSnapshot) :=
  match cfg.blobStore, cfg.inlineCovThreshold with
  | some (write, _), some threshold =>
    if threshold < s.covariance.length ∧ truthy env s.covarianceRef = false then
      let ref := write s.version (.obj s.covariance)
      some <$> PortfolioSnapshot.fromPayload env now
        (((s.toDict env).set "covariance" .null).set "covariance_ref" (.str ref.val))
    else .ok none
  | _, _ => .ok none

def realizedPoints : Json → Option ℕ
  | .obj fields => some (if seriesPoints fields = 0 then fields.length else seriesPoints fields)
  | .arr items => some items.length
  | _ => none

def offloadRealized (write : String → Json → Timestamp) (threshold : ℕ) (version : String) (d : Payload) :
    Option Payload :=
  if isNull (d.get "realized_returns_ref") && (realizedPoints (d.get "realized_returns")).any (threshold < ·) then
    let ref := write (version ++ "-realized") (d.get "realized_returns")
    some ((d.set "realized_returns_ref" (.str ref.val)).erase "realized_returns")
  else none

def offloadStress (write : String → Json → Timestamp) (threshold : ℕ) (version : String) (d : Payload) :
    Option Payload :=
  match d.get "stress" with
  | .obj stress =>
    if isNull (d.get "stress_ref") && decide (threshold < stress.length) then
      let ref := write (version ++ "-stress") (.obj stress)
      some ((d.set "stress_ref" (.str ref.val)).erase "stress")
    else none
  | _ => none

def maybeOffloadAuxiliary (now : Timestamp) (s : PortfolioSnapshot) : Except Exn (Option PortfolioSnapshot) :=
  match cfg.blobStore, cfg.inlineCovThreshold with
  | some (write, _), some threshold =>
    let d := s.toDict env
    let realized := offloadRealized write threshold s.version d
    let stress := offloadStress write threshold s.version (realized.getD d)
    if realized.isSome || stress.isSome then
      some <$> PortfolioSnapshot.fromPayload env now (stress.getD (realized.getD d))
    else .ok none
  | _, _ => .ok none

def withHash (s : PortfolioSnapshot) : PortfolioSnapshot :=
  if s.hash = "" then { s with hash := stableSnapshotHash env (s.toDict env) } else s

/-! ### Versions -/

def collision (s : PortfolioSnapshot) : Exn :=
  .conflict ("snapshot version collision for world_id=" ++ s.worldId ++ " version=" ++ s.version)

def versionDeduped (entries : List PortfolioSnapshot) (s : PortfolioSnapshot) : Except Exn Bool :=
  match entries.find? fun e => e.version = s.version with
  | none => .ok false
  | some existing => if existing.hash = s.hash then .ok true else .error (collision s)

def rowHash (row : Payload) : String := textOr env (row.get "hash")

def enforceVersionIdempotency (h : Hub) (s : PortfolioSnapshot) : Except Exn Bool :=
  match h.repository.bind fun rows => rows.get? (s.worldId, s.version) with
  | none => .ok false
  | some row =>
    if row.entries.isEmpty then .ok false
    else if rowHash env row ≠ "" ∧ rowHash env row = s.hash then .ok true
    else .error (collision s)

def snapshotLe (a b : PortfolioSnapshot) : Bool := a.asOf < b.asOf || (a.asOf = b.asOf && a.version ≤ b.version)

def lastOf {α : Type} (n : ℕ) (l : List α) : List α := if n = 0 then l else l.drop (l.length - n)

def keepLast (l : List PortfolioSnapshot) : List PortfolioSnapshot :=
  match cfg.maxCached with
  | none => l
  | some n => lastOf n l

def Hub.entries (h : Hub) (worldId : String) : List PortfolioSnapshot := (h.snapshots.get? worldId).getD []

def cacheSnapshot (h : Hub) (s : PortfolioSnapshot) : Except Exn (Bool × Hub) := do
  let entries := h.entries s.worldId
  if ← versionDeduped entries s then
    return (true, { h with snapshots := h.snapshots.set s.worldId entries })
  else
    let sorted := (entries ++ [s]).insertionSort fun a b => snapshotLe a b
    return (false, { h with snapshots := h.snapshots.set s.worldId (keepLast cfg sorted) })

def cacheLatest (now : ℤ) (h : Hub) (s : PortfolioSnapshot) : Hub :=
  match h.cache, s.ttlSec with
  | some cache, some ttl =>
    if ttl ≤ 0 then h
    else { h with cache := some (cache.set s.worldId ⟨s.toDict env, now + ttl * 1000000⟩) }
  | _, _ => h

def persist (h : Hub) (s : PortfolioSnapshot) : Hub :=
  { h with repository := h.repository.map fun rows => rows.set (s.worldId, s.version) (s.toDict env) }

structure Prepared where
  stored : PortfolioSnapshot
  own : PortfolioSnapshot

def prepare (now : Timestamp) (s : PortfolioSnapshot) : Except Exn Prepared := do
  let valid ← validateSnapshot env s
  let own ← withTtl cfg valid
  let first ← maybeOffloadCovariance env cfg now own
  let second ← maybeOffloadAuxiliary env cfg now (first.getD own)
  let stored := withHash env (second.getD (first.getD own))
  -- the hash is written into the snapshot that is stored, which is the caller's where nothing was offloaded
  return ⟨stored, if first.isNone && second.isNone then stored else own⟩

def upsertSnapshot (clock : ℤ) (now : Timestamp) (h : Hub) (s : PortfolioSnapshot) :
    Except Exn (Bool × Prepared × Hub) := do
  let p ← prepare env cfg now s
  if ← expired env clock p.stored then .error (.valueError "snapshot is expired")
  else do
    let localDeduped ← versionDeduped (h.entries p.stored.worldId) p.stored
    let repoDeduped ← enforceVersionIdempotency env h p.stored
    let persisted := if repoDeduped then h else persist env h p.stored
    let (cachedDeduped, hub) ← cacheSnapshot cfg persisted p.stored
    return (cachedDeduped || localDeduped || repoDeduped, p, cacheLatest env clock hub p.stored)

/-! ### Reading -/

def materialize (s : PortfolioSnapshot) : PortfolioSnapshot :=
  if !s.covariance.isEmpty || !truthy env s.covarianceRef then s
  else match cfg.covarianceResolver.or (cfg.blobStore.map Prod.snd) with
    | none => s
    | some resolve =>
      match resolve s.covarianceRef with
      | some (.obj fields) => { s with covariance := fields }
      | _ => s

def firstFresh (clock : ℤ) (p : PortfolioSnapshot → Bool) : List PortfolioSnapshot → Except Exn (Option PortfolioSnapshot)
  | [] => .ok none
  | s :: rest =>
    if p s then do
      if ← expired env clock s then firstFresh clock p rest
      else return some s
    else firstFresh clock p rest

def latestFresh (clock : ℤ) (entries : List PortfolioSnapshot) : Except Exn (Option PortfolioSnapshot) :=
  firstFresh env clock (fun _ => true) entries.reverse

def cachedLatest (clock : ℤ) (now : Timestamp) (h : Hub) (worldId : String) : Option PortfolioSnapshot :=
  match h.cache.bind fun cache => cache.get? worldId with
  | none => none
  | some cached =>
    if clock < cached.deadline then
      match PortfolioSnapshot.fromPayload env now cached.payload with
      | .error _ => none
      | .ok s =>
        match expired env clock s with
        | .ok false => some s
        | _ => none
    else none

def rowsOf (rows : Dict (String × String) Payload) (worldId : String) : List Payload :=
  ((rows.entries.filter fun e => e.1.1 = worldId).map Prod.snd).insertionSort fun a b =>
    textOf (b.get "as_of") < textOf (a.get "as_of") ||
      (textOf (a.get "as_of") = textOf (b.get "as_of") && textOf (b.get "version") ≤ textOf (a.get "version"))

def cacheRow (now : Timestamp) (h : Hub) (row : Payload) : Except Exn Hub := do
  let s ← PortfolioSnapshot.fromPayload env now row
  let (_, hub) ← cacheSnapshot cfg h s
  return hub

def latestSnapshot (clock : ℤ) (now : Timestamp) (h : Hub) (worldId : String) :
    Except Exn (Option PortfolioSnapshot) × Hub :=
  match cachedLatest env clock now h worldId with
  | some s => (.ok (some (materialize env cfg s)), h)
  | none =>
    match latestFresh env clock (h.entries worldId) with
    | .error e => (.error e, h)
    | .ok (some s) => (.ok (some (materialize env cfg s)), h)
    | .ok none =>
      match h.repository.bind fun rows => (rowsOf rows worldId).head? with
      | none => (.ok none, h)
      | some row =>
        if row.entries.isEmpty then (.ok none, h)
        else match cacheRow env cfg now h row with
          | .error _ => (.ok none, h)
          | .ok hub =>
            match latestFresh env clock (hub.entries worldId) with
            | .error _ => (.ok none, hub)
            | .ok fresh => (.ok (fresh.map (materialize env cfg)), hub)

def cacheRows (now : Timestamp) (h : Hub) : List Payload → Bool × Hub
  | [] => (true, h)
  | row :: rows =>
    match cacheRow env cfg now h row with
    | .error _ => (false, h)
    | .ok hub => cacheRows now hub rows

def snapshotForAsOf (clock : ℤ) (now : Timestamp) (h : Hub) (worldId asOf : String) :
    Except Exn (Option PortfolioSnapshot) × Hub :=
  let loaded := if (h.entries worldId).isEmpty then
      cacheRows env cfg now h ((h.repository.map fun rows => (rowsOf rows worldId).take 50).getD [])
    else (true, h)
  let entries := if loaded.1 then loaded.2.entries worldId else []
  match firstFresh env clock (fun s => s.asOf ≤ asOf) entries.reverse with
  | .error e => (.error e, loaded.2)
  | .ok found => (.ok (found.map (materialize env cfg)), loaded.2)

def snapshotOfVersion (clock : ℤ) (now : Timestamp) (h : Hub) (worldId version : String) :
    Except Exn (Option PortfolioSnapshot) × Hub :=
  match firstFresh env clock (fun s => s.version = version) (h.entries worldId).reverse with
  | .error e => (.error e, h)
  | .ok (some s) => (.ok (some (materialize env cfg s)), h)
  | .ok none =>
    match h.repository.bind fun rows => rows.get? (worldId, version) with
    | none => (.ok none, h)
    | some row =>
      if row.entries.isEmpty then (.ok none, h)
      else match PortfolioSnapshot.fromPayload env now row with
        | .error e => (.error e, h)
        | .ok s =>
          match cacheSnapshot cfg h s with
          | .error e => (.error e, h)
          | .ok (_, hub) => ((expired env clock s).map fun old => if old then none else some (materialize env cfg s), hub)

def freshDicts (clock : ℤ) : List PortfolioSnapshot → Except Exn (List Payload)
  | [] => .ok []
  | s :: rest => do
    let old ← expired env clock s
    let dicts ← freshDicts clock rest
    return if old then dicts else s.toDict env :: dicts

def listSnapshots (clock : ℤ) (now : Timestamp) (h : Hub) (worldId : String) (limit : ℕ) :
    Except Exn (List Payload) × Hub :=
  let entries := h.entries worldId
  let hub := if entries.isEmpty || entries.length < limit then
      (cacheRows env cfg now h ((h.repository.map fun rows => (rowsOf rows worldId).take limit).getD [])).2
    else h
  (freshDicts env clock (lastOf limit (hub.entries worldId)), hub)

end Qmtl.WorldService.Risk

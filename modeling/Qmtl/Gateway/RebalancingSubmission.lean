import Qmtl.Lib.Except
import Qmtl.Gateway.RebalancingRoute

/-! What `_submit_rebalance_orders` does, as one sequence of batches: those of the worlds, of the shared account
and of the strategies, sent in turn until one is refused. -/

namespace Qmtl.Gateway.Rebalancing

open Lib Lib.Coro

structure Sent where
  batches : List Submission
  left : List (Option Exn)
  outcome : Except Exn Unit

def send (lower : Lower) : List (Option Exn) → List Submission → Sent
  | faults, [] => ⟨[], faults, .ok ()⟩
  | faults, b :: bs =>
    if b.inShadow lower then ⟨[], faults, .error shadowBlocked⟩
    else if b.orders.isEmpty then send lower faults bs
    else
      match faults.headD none with
      | some _ => ⟨[], faults.tail, .error commitLogUnavailable⟩
      | none =>
        let rest := send lower faults.tail bs
        ⟨b :: rest.batches, rest.left, rest.outcome⟩

def Sent.andThen (p : Sent) (next : List (Option Exn) → Sent) : Sent :=
  match p.outcome with
  | .error _ => p
  | .ok _ => ⟨p.batches ++ (next p.left).batches, (next p.left).left, (next p.left).outcome⟩

variable {lower : Lower}

lemma Sent.cons_andThen (b : Submission) (p : Sent) (next : List (Option Exn) → Sent) :
    Sent.andThen ⟨b :: p.batches, p.left, p.outcome⟩ next =
      ⟨b :: (p.andThen next).batches, (p.andThen next).left, (p.andThen next).outcome⟩ := by
  obtain ⟨batches, left, outcome⟩ := p
  cases outcome <;> rfl

lemma send_append (as bs : List Submission) (faults : List (Option Exn)) :
    send lower faults (as ++ bs) = (send lower faults as).andThen fun faults' => send lower faults' bs := by
  induction as generalizing faults with
  | nil => rfl
  | cons a as ih =>
    rw [List.cons_append, send, send]
    by_cases hs : a.inShadow lower
    · rw [if_pos hs, if_pos hs]
      rfl
    · rw [if_neg hs, if_neg hs]
      by_cases hempty : a.orders.isEmpty
      · rw [if_pos hempty, if_pos hempty]
        exact ih faults
      · rw [if_neg hempty, if_neg hempty]
        cases faults.headD none with
        | some e => rfl
        | none =>
          simp only [ih]
          exact (Sent.cons_andThen a _ _).symm

/-! ### The code sends them so -/

variable {env : Env}

def Sends (env : Env) (bs : List Submission) (m : Task Bool) : Prop :=
  ∀ log, ((m.exec (perform env) log).1.map fun _ => ()) = (send env.lower log.faults bs).outcome ∧
    (m.exec (perform env) log).2 =
      ⟨log.written ++ (send env.lower log.faults bs).batches.map Submission.batch, (send env.lower log.faults bs).left⟩

lemma Sends.ret (submitted : Bool) : Sends env [] (ret submitted) := by
  intro log
  exact ⟨rfl, by rw [exec_ret, send, List.map_nil, List.append_nil]⟩

lemma Sends.bind {as bs : List Submission} {m : Task Bool} {f : Bool → Task Bool} (hm : Sends env as m)
    (hf : ∀ submitted, Sends env bs (f submitted)) : Sends env (as ++ bs) (m.bind f) := by
  intro log
  obtain ⟨hout, hlog⟩ := hm log
  rw [exec_bind, send_append]
  rcases hex : m.exec (perform env) log with ⟨r, log'⟩
  rw [hex] at hout hlog
  obtain rfl : log' = _ := hlog
  cases r with
  | error e =>
    have hp : (send env.lower log.faults as).outcome = .error e := hout.symm
    unfold Sent.andThen
    rw [hp]
    exact ⟨hp.symm ▸ rfl, rfl⟩
  | ok submitted =>
    have hp : (send env.lower log.faults as).outcome = .ok () := hout.symm
    obtain ⟨ho', hlog'⟩ := hf submitted
      ⟨log.written ++ (send env.lower log.faults as).batches.map Submission.batch, (send env.lower log.faults as).left⟩
    unfold Sent.andThen
    rw [hp]
    refine ⟨ho', hlog'.trans ?_⟩
    rw [List.map_append, List.append_assoc]

lemma exec_tryExcept_quiet (o : Op) (handler : Exn → o.Ans) {log : Log} (h : (perform env o log).2 = log) :
    ∃ a, ((ask o).tryExcept fun e => Coro.ret (handler e)).exec (perform env) log = (.ok a, log) := by
  unfold ask Coro.perform
  rw [exec_tryExcept, exec_await, h]
  cases (perform env o log).1 with
  | ok a => exact ⟨a, rfl⟩
  | error e => exact ⟨handler e, rfl⟩

lemma exec_quietly {α : Type} (o : Op) (handler : Exn → o.Ans) {log : Log} (h : (perform env o log).2 = log)
    (asked : Bool) (a : α) :
    exec (perform env) (if asked then ((ask o).tryExcept fun e => Coro.ret (handler e)).bind fun _ => pure a
      else pure a) log = (.ok a, log) := by
  cases asked with
  | false => rfl
  | true =>
    obtain ⟨_, hq⟩ := exec_tryExcept_quiet o handler h
    exact exec_bind_ok hq

lemma Sends.map {bs : List Submission} {m : Task Bool} (hm : Sends env bs m) (g : Bool → Bool) :
    Sends env bs (m.bind fun submitted => Coro.ret (g submitted)) := by
  have h : Sends env (bs ++ []) (m.bind fun submitted => Coro.ret (g submitted)) := hm.bind fun _ => Sends.ret _
  rw [List.append_nil] at h
  exact h

lemma sends_publishBatch (b : Submission) : Sends env [b] (publishBatch env b) := by
  intro log
  unfold publishBatch
  rw [send]
  by_cases hs : b.inShadow env.lower
  · rw [if_pos hs, if_pos hs]
    exact ⟨rfl, by rw [List.map_nil, List.append_nil]; rfl⟩
  · rw [if_neg hs, if_neg hs]
    by_cases hempty : b.orders.isEmpty
    · rw [if_pos hempty, if_pos hempty]
      exact Sends.ret false log
    · rw [if_neg hempty, if_neg hempty]
      simp only [bind_eq]
      rw [exec_bind, exec_tryExcept]
      cases hf : log.faults.headD none with
      | some e =>
        have hp : (ask (.publishRebalanceBatch b.batch)).exec (perform env) log =
            (.error e, { log with faults := log.faults.tail }) := by
          unfold ask Coro.perform
          rw [exec_await]
          simp only [perform, hf]
          rfl
        rw [hp]
        exact ⟨rfl, by rw [List.map_nil, List.append_nil]; rfl⟩
      | none =>
        have hp : (ask (.publishRebalanceBatch b.batch)).exec (perform env) log =
            (.ok (), ⟨log.written ++ [b.batch], log.faults.tail⟩) := by
          unfold ask Coro.perform
          rw [exec_await]
          simp only [perform, hf]
          rfl
        have hau : ∀ log' : Log, exec (perform env) (if env.database then
            ((ask (.appendEvent b.batch)).tryExcept fun _ => Coro.ret ()).bind fun _ => pure true
            else pure true) log' = (.ok true, log') := fun log' =>
          exec_quietly (.appendEvent b.batch) (fun _ => ()) rfl env.database true
        rw [hp]
        simp only [hau]
        exact ⟨rfl, rfl⟩

lemma sends_publishAll (bs : List Submission) (submittedAny : Bool) : Sends env bs (publishAll env submittedAny bs) := by
  induction bs generalizing submittedAny with
  | nil => exact Sends.ret submittedAny
  | cons b bs ih => exact (sends_publishBatch b).bind fun submitted => ih (submittedAny || submitted)

def readMode (env : Env) (worldId : String) : Option WorldMode :=
  if worldId = "" then none
  else
    match env.worlds worldId with
    | .ok (some data) => worldModeOf env data
    | _ => none

lemma exec_getWorld (env : Env) {worldId : String} (h : worldId ≠ "") (log : Log) :
    ∃ data, ((ask (.getWorld worldId)).tryExcept fun _ => Coro.ret none).exec (perform env) log = (.ok data, log) ∧
      data.bind (worldModeOf env) = readMode env worldId := by
  have hp : perform env (.getWorld worldId) log = (env.worlds worldId, log) := rfl
  unfold ask Coro.perform readMode
  rw [exec_tryExcept, exec_await, hp, if_neg h]
  cases env.worlds worldId with
  | error e => exact ⟨none, rfl, rfl⟩
  | ok data => cases data <;> exact ⟨_, rfl, rfl⟩

lemma exec_resolveWorldModes (env : Env) (wids : List String) (modes : Dict String WorldMode) (log : Log) :
    ∃ found, (resolveWorldModes env modes wids).exec (perform env) log = (.ok found, log) ∧
      ∀ wid, found.get? wid = if wid ∈ wids then (readMode env wid).or (modes.get? wid) else modes.get? wid := by
  induction wids generalizing modes with
  | nil => exact ⟨modes, rfl, fun wid => (if_neg List.not_mem_nil).symm⟩
  | cons w wids ih =>
    -- a world whose mode is not read leaves the modes as they are
    have hs : readMode env w = none → ∀ {found : Dict String WorldMode},
        (∀ wid, found.get? wid = if wid ∈ wids then (readMode env wid).or (modes.get? wid) else modes.get? wid) →
        ∀ wid, found.get? wid = if wid ∈ w :: wids then (readMode env wid).or (modes.get? wid) else modes.get? wid := by
      intro hn found hf wid
      rw [hf]
      by_cases hwid : wid = w
      · rw [hwid, hn, Option.none_or, ite_self, ite_self]
      · simp [hwid]
    unfold resolveWorldModes
    by_cases hw : w = ""
    · rw [if_pos hw]
      obtain ⟨found, hex, hf⟩ := ih modes
      exact ⟨found, hex, hs (by unfold readMode; exact if_pos hw) hf⟩
    · rw [if_neg hw]
      simp only [bind_eq]
      obtain ⟨data, hget, hd⟩ := exec_getWorld env hw log
      rw [exec_bind_ok hget, hd]
      cases hmode : readMode env w with
      | none =>
        obtain ⟨found, hex, hf⟩ := ih modes
        exact ⟨found, hex, hs hmode hf⟩
      | some mode =>
        obtain ⟨found, hex, hf⟩ := ih (modes.set w mode)
        refine ⟨found, hex, ?_⟩
        intro wid
        rw [hf, Dict.get?_set]
        by_cases hwid : wid = w
        · subst hwid
          rw [if_pos rfl, hmode, if_pos List.mem_cons_self, Option.some_or, Option.some_or, ite_self]
        · simp only [List.mem_cons, hwid, false_or, if_false]

section All

variable (env : Env) (perWorldOrders : Dict String (List Order)) (ordersGlobal : Option (List Order))
  (ordersPerStrategy : Option (List StrategyOrder)) (sharedAccount globalScopeSharedAccount : Bool)
  (globalScopeMode : Option String)

lemma mem_keys_entriesByWorld {items : List StrategyOrder} {wid : String}
    (h : wid ∈ (entriesByWorld items).keys) : wid ∈ items.map StrategyOrder.worldId := by
  suffices hgen : ∀ (items : List StrategyOrder) (acc : Dict String (List StrategyOrder)),
      wid ∈ (items.foldl (fun acc item => acc.set item.worldId ((acc.get? item.worldId).getD [] ++ [item])) acc).keys →
        wid ∈ items.map StrategyOrder.worldId ∨ wid ∈ acc.keys by
    refine (hgen items .empty h).resolve_right ?_
    exact List.not_mem_nil
  intro items
  induction items with
  | nil => exact fun acc h => .inr h
  | cons item items ih =>
    intro acc h
    rw [List.map_cons, List.mem_cons]
    rcases ih _ h with h | h
    · exact .inl (.inr h)
    · rcases Dict.mem_keys_set.mp h with h | h
      · exact .inl (.inl h)
      · exact .inr h

def submissions : List Submission :=
  perWorldSubmissions (readMode env) perWorldOrders sharedAccount ++
    (globalSubmissions ordersGlobal globalScopeSharedAccount globalScopeMode ++
      perStrategySubmissions (readMode env) ordersPerStrategy)

/-- **`_submit_rebalance_orders` sends its batches in turn**, where there is a commit log. -/
theorem sends_submitRebalanceOrders (hw : env.writer) :
    Sends env (submissions env perWorldOrders ordersGlobal ordersPerStrategy sharedAccount globalScopeSharedAccount
      globalScopeMode)
      (submitRebalanceOrders env perWorldOrders ordersGlobal ordersPerStrategy sharedAccount globalScopeSharedAccount
        globalScopeMode) := by
  intro log
  unfold submitRebalanceOrders
  rw [hw]
  obtain ⟨modes, hex, hm⟩ := exec_resolveWorldModes env
    (collectWorldIds perWorldOrders ordersPerStrategy) .empty log
  have hr : ∀ wid ∈ perWorldOrders.keys ++ (ordersPerStrategy.getD []).map StrategyOrder.worldId,
      modes.get? wid = readMode env wid := by
    intro wid hwid
    rw [hm, Dict.get?_empty, Option.or_none]
    by_cases hempty : wid = ""
    · rw [show readMode env wid = none by unfold readMode; exact if_pos hempty, ite_self]
    · rw [if_pos]
      exact List.mem_dedup.mpr (List.mem_filter.mpr ⟨hwid, decide_eq_true hempty⟩)
  have hpw : perWorldSubmissions modes.get? perWorldOrders sharedAccount =
      perWorldSubmissions (readMode env) perWorldOrders sharedAccount := by
    refine List.map_congr_left ?_
    intro e he
    have hkey := hr e.1 (List.mem_append_left _ (List.mem_map_of_mem (f := Prod.fst) he))
    simp [hkey]
  have hps : perStrategySubmissions modes.get? ordersPerStrategy =
      perStrategySubmissions (readMode env) ordersPerStrategy := by
    refine List.map_congr_left ?_
    intro e he
    have hkey := hr e.1 (List.mem_append_right _
      (mem_keys_entriesByWorld (List.mem_map_of_mem (f := Prod.fst) he)))
    simp [hkey]
  simp only [Bool.not_true, Bool.false_eq_true, if_false, bind_eq]
  rw [exec_bind_ok hex, hpw, hps]
  refine (sends_publishAll _ false).bind (fun perWorld => ?_) log
  refine (sends_publishAll _ false).bind fun global => ?_
  exact (sends_publishAll _ false).map _

end All

/-! ### What is written -/

def beforeShadow (lower : Lower) (bs : List Submission) : List Submission :=
  (bs.takeWhile fun b => !b.inShadow lower).filter fun b => !b.orders.isEmpty

/-- Those before the first publication that raises. -/
def accepted : List (Option Exn) → List Submission → List Submission
  | [], bs => bs
  | some _ :: _, _ => []
  | none :: _, [] => []
  | none :: faults, b :: bs => b :: accepted faults bs

lemma accepted_nil (faults : List (Option Exn)) : accepted faults [] = [] := by
  rcases faults with _ | ⟨_ | _, _⟩ <;> rfl

lemma accepted_cons_of_raises {faults : List (Option Exn)} {e : Exn} (h : faults.headD none = some e)
    (bs : List Submission) : accepted faults bs = [] := by
  rcases faults with _ | ⟨_ | _, _⟩
  · exact nomatch h
  · exact nomatch h
  · rfl

lemma accepted_cons_of_answers {faults : List (Option Exn)} (h : faults.headD none = none) (b : Submission)
    (bs : List Submission) : accepted faults (b :: bs) = b :: accepted faults.tail bs := by
  rcases faults with _ | ⟨_ | _, _⟩
  · rfl
  · rfl
  · exact nomatch h

lemma beforeShadow_cons (b : Submission) (bs : List Submission) : beforeShadow lower (b :: bs) =
    if b.inShadow lower then [] else if b.orders.isEmpty then beforeShadow lower bs else b :: beforeShadow lower bs := by
  unfold beforeShadow
  rw [List.takeWhile_cons]
  by_cases hs : b.inShadow lower
  · rw [if_pos hs, hs]
    rfl
  · rw [if_neg hs, Bool.eq_false_iff.mpr hs]
    by_cases hempty : b.orders.isEmpty
    · rw [if_pos hempty, if_pos (by rfl), List.filter_cons_of_neg (by simpa using hempty)]
    · rw [if_neg hempty, if_pos (by rfl), List.filter_cons_of_pos (by simpa using hempty)]

/-- **What is sent.** -/
theorem send_batches (faults : List (Option Exn)) (bs : List Submission) :
    (send lower faults bs).batches = accepted faults (beforeShadow lower bs) := by
  induction bs generalizing faults with
  | nil => exact (accepted_nil faults).symm
  | cons b bs ih =>
    rw [send, beforeShadow_cons]
    by_cases hs : b.inShadow lower
    · rw [if_pos hs, if_pos hs, accepted_nil]
    · rw [if_neg hs, if_neg hs]
      by_cases hempty : b.orders.isEmpty
      · rw [if_pos hempty, if_pos hempty]
        exact ih faults
      · rw [if_neg hempty, if_neg hempty]
        cases hf : faults.headD none with
        | some e => rw [accepted_cons_of_raises hf]
        | none =>
          rw [accepted_cons_of_answers hf, ← ih]

lemma send_outcome_eq_shadowBlocked (faults : List (Option Exn)) (bs : List Submission) :
    (send lower faults bs).outcome = .error shadowBlocked ↔
      (∃ b ∈ bs, b.inShadow lower) ∧ accepted faults (beforeShadow lower bs) = beforeShadow lower bs := by
  induction bs generalizing faults with
  | nil => exact iff_of_false (fun h => nomatch h) fun h => nomatch h.1
  | cons b bs ih =>
    rw [send, beforeShadow_cons]
    by_cases hs : b.inShadow lower
    · rw [if_pos hs, if_pos hs]
      exact iff_of_true rfl ⟨⟨b, .head _, hs⟩, accepted_nil faults⟩
    · have hex : (∃ b' ∈ b :: bs, b'.inShadow lower) ↔ ∃ b' ∈ bs, b'.inShadow lower := by
        simp [hs]
      rw [if_neg hs, if_neg hs, hex]
      by_cases hempty : b.orders.isEmpty
      · rw [if_pos hempty, if_pos hempty]
        exact ih faults
      · rw [if_neg hempty, if_neg hempty]
        cases hf : faults.headD none with
        | some e =>
          rw [accepted_cons_of_raises hf]
          exact iff_of_false (fun h => nomatch h) fun h => nomatch h.2
        | none =>
          rw [accepted_cons_of_answers hf, List.cons_inj_right]
          exact ih faults.tail

/-! ### Rejections -/

def WorldMode.inShadow (lower : Lower) (mode : WorldMode) : Bool :=
  mode.mode = some "shadow" || lower.fn (mode.executionDomain.getD "") = "shadow"

/-- A submission that is refused for a world in shadow mode has written nothing, and what is written for a
world is so for one whose mode was read and is not shadow. -/
structure RejectsWhole (env : Env) (log : Log) (out : Except Exn Bool × Log) : Prop where
  rejected : out.1 = .error shadowBlocked → out.2.written = log.written
  known : ∀ batch ∈ out.2.written.drop log.written.length, batch.scope ≠ "global" →
    ∃ mode, readMode env batch.worldId = some mode ∧ mode.inShadow env.lower = false

section Rejections

variable {perWorldOrders : Dict String (List Order)} {ordersGlobal : Option (List Order)}
  {ordersPerStrategy : Option (List StrategyOrder)} {sharedAccount globalScopeSharedAccount : Bool}
  {globalScopeMode : Option String}

variable {b : Submission} {bs : List Submission}

lemma submission_of_world
    (hb : b ∈ submissions env perWorldOrders ordersGlobal ordersPerStrategy sharedAccount globalScopeSharedAccount
      globalScopeMode) (hs : b.scope ≠ "global") : b.mode = (readMode env b.worldId).bind WorldMode.mode ∧
      b.executionDomain = (readMode env b.worldId).bind WorldMode.executionDomain := by
  rcases List.mem_append.mp hb with hb | hb
  · obtain ⟨e, -, rfl⟩ := List.mem_map.mp hb
    exact ⟨rfl, rfl⟩
  rcases List.mem_append.mp hb with hb | hb
  · unfold globalSubmissions at hb
    cases hor : ordersGlobal.getD [] with
    | nil =>
      rw [hor] at hb
      exact nomatch hb
    | cons o os =>
      rw [hor] at hb
      rw [List.mem_singleton.mp hb] at hs
      exact absurd rfl hs
  · obtain ⟨e, -, rfl⟩ := List.mem_map.mp hb
    exact ⟨rfl, rfl⟩

lemma mem_accepted {faults : List (Option Exn)} (h : b ∈ accepted faults bs) : b ∈ bs := by
  induction bs generalizing faults with
  | nil =>
    rw [accepted_nil] at h
    exact nomatch h
  | cons b' bs ih =>
    cases hf : faults.headD none with
    | some e =>
      rw [accepted_cons_of_raises hf] at h
      exact nomatch h
    | none =>
      rw [accepted_cons_of_answers hf, List.mem_cons] at h
      exact List.mem_cons.mpr (h.imp id ih)

lemma of_mem_beforeShadow (h : b ∈ beforeShadow lower bs) : b ∈ bs ∧ b.inShadow lower = false := by
  have ht := List.mem_of_mem_filter h
  exact ⟨(List.takeWhile_sublist _).subset ht, by simpa using List.mem_takeWhile_imp ht⟩

/-- Before a world in shadow mode no batch with orders stands, unless a publication raises first. -/
structure RejectedFirst (env : Env) (log : Log) (bs : List Submission) : Prop where
  read : ∀ b ∈ accepted log.faults (beforeShadow env.lower bs), b.scope ≠ "global" →
    (readMode env b.worldId).isSome = true
  first : (∃ b ∈ bs, b.inShadow env.lower = true) →
    accepted log.faults (beforeShadow env.lower bs) = beforeShadow env.lower bs → beforeShadow env.lower bs = []

lemma rejectsWhole_iff_of_sends {m : Task Bool} (hsn : Sends env bs m)
    (hmode : ∀ b ∈ bs, b.scope ≠ "global" → b.mode = (readMode env b.worldId).bind WorldMode.mode ∧
      b.executionDomain = (readMode env b.worldId).bind WorldMode.executionDomain) (log : Log) :
    RejectsWhole env log (m.exec (perform env) log) ↔ RejectedFirst env log bs := by
  obtain ⟨hout, hlog⟩ := hsn log
  rw [send_batches] at hlog
  have hw : (m.exec (perform env) log).2.written =
      log.written ++ (accepted log.faults (beforeShadow env.lower bs)).map Submission.batch := by
    rw [hlog]
  have hsh : (m.exec (perform env) log).1 = .error shadowBlocked ↔
      (∃ b ∈ bs, b.inShadow env.lower) ∧
        accepted log.faults (beforeShadow env.lower bs) = beforeShadow env.lower bs := by
    rw [← send_outcome_eq_shadowBlocked, ← hout]
    cases (m.exec (perform env) log).1 with
    | ok _ => exact iff_of_false (fun h => nomatch h) fun h => nomatch h
    | error e => exact ⟨fun h => congrArg Except.error (Except.error.inj h), fun h => congrArg Except.error (Except.error.inj h)⟩
  constructor
  · rintro ⟨hrj, hk⟩
    rw [hw, List.drop_left] at hk
    refine ⟨?_, ?_⟩
    · intro b hb hs
      obtain ⟨mode, hr, -⟩ := hk b.batch (List.mem_map_of_mem hb) hs
      exact Option.isSome_iff_exists.mpr ⟨mode, hr⟩
    · intro hex hall
      have hn := hrj (hsh.mpr ⟨hex, hall⟩)
      rw [hw, hall] at hn
      simpa using hn
  · rintro ⟨hr, hfirst⟩
    refine ⟨?_, ?_⟩
    · intro hbl
      obtain ⟨hex, hall⟩ := hsh.mp hbl
      rw [hw, hall, hfirst hex hall, List.map_nil, List.append_nil]
    · rw [hw, List.drop_left]
      intro batch hbt hs
      obtain ⟨b, hb, rfl⟩ := List.mem_map.mp hbt
      obtain ⟨mode, hmr⟩ := Option.isSome_iff_exists.mp (hr b hb hs)
      obtain ⟨hmem, hout⟩ := of_mem_beforeShadow (mem_accepted hb)
      obtain ⟨hm, hd⟩ := hmode b hmem hs
      refine ⟨mode, hmr, ?_⟩
      unfold Submission.inShadow at hout
      rw [hm, hd, hmr] at hout
      exact hout

end Rejections

/-- **When a submission rejects as a whole**, or writes for known worlds only. -/
theorem submit_rejectsWhole_iff (env : Env) (perWorldOrders : Dict String (List Order)) (ordersGlobal : Option (List Order))
    (ordersPerStrategy : Option (List StrategyOrder)) (sharedAccount globalScopeSharedAccount : Bool)
    (globalScopeMode : Option String) (log : Log) :
    RejectsWhole env log ((submitRebalanceOrders env perWorldOrders ordersGlobal ordersPerStrategy sharedAccount
        globalScopeSharedAccount globalScopeMode).exec (perform env) log) ↔
      (env.writer = true → RejectedFirst env log (submissions env perWorldOrders ordersGlobal ordersPerStrategy
        sharedAccount globalScopeSharedAccount globalScopeMode)) := by
  cases hwriter : env.writer with
  | false =>
    refine iff_of_true ?_ fun h => nomatch h
    have hexec : (submitRebalanceOrders env perWorldOrders ordersGlobal ordersPerStrategy sharedAccount
        globalScopeSharedAccount globalScopeMode).exec (perform env) log =
        (.error (.http 503 (.coded "E_COMMITLOG_DISABLED" "commit log unavailable")), log) := by
      unfold submitRebalanceOrders
      rw [hwriter]
      rfl
    rw [hexec]
    refine ⟨fun _ => rfl, ?_⟩
    intro batch hbatch
    rw [List.drop_length] at hbatch
    exact nomatch hbatch
  | true =>
    rw [rejectsWhole_iff_of_sends (sends_submitRebalanceOrders env perWorldOrders ordersGlobal ordersPerStrategy
      sharedAccount globalScopeSharedAccount globalScopeMode hwriter) fun b hb => submission_of_world hb]
    exact ⟨fun h _ => h, fun h => h rfl⟩

/-! ### A shadow world behind another -/

def threeWorlds : Env where
  lower := .ascii
  enforceLiveGuard := false
  policy := none
  venuePolicies := Dict.empty
  writer := true
  database := false
  plan := .error (.error "not asked")
  worlds wid :=
    if wid = "w1" then .ok (some ⟨none, fun k => if k = "mode" then .str "paper" else .none⟩)
    else if wid = "w2" then .ok (some ⟨none, fun k => if k = "mode" then .str "shadow" else .none⟩)
    else .error (.error "world service unavailable")
  audit _ := .ok ()
  riskHub := .ok ()

def buy (symbol : String) (qty : ℚ) (venue : String) : Order := ⟨symbol, qty, "buy", "GTC", some venue, false, none⟩

def submitThree (perWorldOrders : Dict String (List Order)) : Except Exn Bool × Log :=
  (submitRebalanceOrders threeWorlds perWorldOrders none none false false none).exec (perform threeWorlds) ⟨[], []⟩

def paperThenShadow : Dict String (List Order) :=
  (Dict.empty.set "w1" [buy "BTC" 1 "binance"]).set "w2" [buy "ETH" 1 "binance"]

def unreadable : Dict String (List Order) := Dict.empty.set "w3" [buy "BTC" 1 "binance"]

/-- The order of `w1` is written, and then the request is refused for `w2`; the order of a world that cannot
be read is written. -/
theorem shadow_rejected_behind_written_batch : ¬RejectsWhole threeWorlds ⟨[], []⟩ (submitThree paperThenShadow) ∧
      (submitThree paperThenShadow).1 = .error shadowBlocked ∧
      (submitThree paperThenShadow).2.written.map Batch.worldId = ["w1"] ∧
      ¬RejectsWhole threeWorlds ⟨[], []⟩ (submitThree unreadable) ∧
      (submitThree unreadable).2.written.map Batch.worldId = ["w3"] := by
  have hblocked : (submitThree paperThenShadow).1 = .error shadowBlocked := by decide +kernel
  have hwritten : (submitThree paperThenShadow).2.written.map Batch.worldId = ["w1"] := by decide +kernel
  have hunread : (submitThree unreadable).2.written.map Batch.worldId = ["w3"] := by decide +kernel
  refine ⟨?_, hblocked, hwritten, ?_, hunread⟩
  · intro h
    rw [h.rejected hblocked] at hwritten
    exact nomatch hwritten
  · intro h
    obtain ⟨batch, hbatch, hid⟩ := List.mem_map.mp (hunread ▸ (.head _) : "w3" ∈ (submitThree unreadable).2.written.map Batch.worldId)
    have hscope : (submitThree unreadable).2.written.all (fun b => decide (b.scope ≠ "global")) := by decide +kernel
    obtain ⟨mode, hmode, -⟩ := h.known batch hbatch (of_decide_eq_true (List.all_eq_true.mp hscope batch hbatch))
    rw [hid] at hmode
    exact nomatch hmode

end Qmtl.Gateway.Rebalancing

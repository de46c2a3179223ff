import Qmtl.WorldService.RiskConsumer

/-!
Risk hub consumers, operation by operation: each leaves the store sound, and every message is committed with an outcome
that is asked for.
-/

namespace Qmtl.WorldService.Risk.Consumer

open Lib

variable {env : Env} (exnText : Exn → String) {cfg : Setup} {i : ℕ} {msg : Option Json} {acts : List Act}
  {keys : List String} {s : Sys}

/-! ### What a consumer awaits -/

variable (env) (cfg) in
def proto (i : ℕ) : Protocol Op Op.Ans Exn Sys Choice where
  perform := perform env cfg i
  Ok _ _ _ := True
  J := Sound env cfg
  Rely := Rely i
  Guar s t := ∃ new, t.log = s.log ++ new ∧ ∀ e ∈ new, e.consumer = i
  At _ _ := True
  rely_refl _ := ⟨[], (List.append_nil _).symm, fun _ h => absurd h List.not_mem_nil⟩
  rely_trans := by
    rintro s t u ⟨new, hlog, hnew⟩ ⟨new', hlog', hnew'⟩
    refine ⟨new ++ new', by rw [hlog', hlog, List.append_assoc], ?_⟩
    intro e he
    rcases List.mem_append.mp he with he | he
    · exact hnew e he
    · exact hnew' e he

lemma safe_act {o : Op} {Q : Except Exn o.Ans → Sys → Prop} (hp : Point i msg acts keys s)
    (h : ∀ t, Sound env cfg t → Point i msg acts keys t → ∀ e, ∃ r,
      (∃ act cache hubs, perform env cfg i o e t = (r, ⟨cache, hubs, t.log ++ [.did i act]⟩) ∧
        (∀ key m, cache.get? key = some m →
          t.cache.get? key = some m ∨ act = .mark key m ∧ finish cfg key <:+ acts) ∧
        ∀ u, u = ⟨cache, hubs, t.log ++ [.did i act]⟩ → Sound env cfg u → Point i msg (acts ++ [act]) keys u → Q r u) ∨
      perform env cfg i o e t = (r, t) ∧ Q r t) : Safe (proto env cfg i) Q (Coro.perform o) s := by
  rw [Safe.perform_iff]
  intro t hr ht
  refine ⟨trivial, fun e _ => ?_⟩
  have hpt := hp.rely hr
  show Sound env cfg (perform env cfg i o e t).2 ∧ _ ∧ Q (perform env cfg i o e t).1 (perform env cfg i o e t).2
  obtain ⟨r, ⟨act, cache, hubs, hpr, hm, hQ⟩ | ⟨hpr, hQ⟩⟩ := h t ht hpt e
  · obtain ⟨hs, hpn⟩ := Sound.did ht hpt act cache hubs hm
    have hg : (proto env cfg i).Guar t ⟨cache, hubs, t.log ++ [.did i act]⟩ := by
      refine ⟨[.did i act], rfl, fun e he => ?_⟩
      rw [List.mem_singleton.mp he]
      rfl
    have hp' : (proto env cfg i).perform o e t = (r, ⟨cache, hubs, t.log ++ [.did i act]⟩) := hpr
    rw [hp', hpr]
    exact ⟨hs, hg, hQ _ rfl hs hpn⟩
  · have hp' : (proto env cfg i).perform o e t = (r, t) := hpr
    rw [hp', hpr]
    exact ⟨ht, ⟨[], (List.append_nil _).symm, fun _ h => absurd h List.not_mem_nil⟩, hQ⟩

lemma safe_isoNow {Q : Except Exn Timestamp → Sys → Prop} (hp : Point i msg acts keys s)
    (hQ : ∀ iso u, Sound env cfg u → Point i msg (acts ++ [.read iso]) keys u → Q (.ok iso) u) :
    Safe (proto env cfg i) Q (Coro.perform Op.isoNow) s := by
  refine safe_act hp fun t _ _ e => ⟨_, .inl ⟨_, _, _, rfl, fun _ _ h => .inl h, ?_⟩⟩
  intro u _ hs hpn
  exact hQ _ u hs hpn

lemma safe_now {Q : Except Exn ℤ → Sys → Prop} (hp : Point i msg acts keys s)
    (hQ : ∀ clock u, Sound env cfg u → Point i msg (acts ++ [.time clock]) keys u → Q (.ok clock) u) :
    Safe (proto env cfg i) Q (Coro.perform Op.now) s := by
  refine safe_act hp fun t _ _ e => ⟨_, .inl ⟨_, _, _, rfl, fun _ _ h => .inl h, ?_⟩⟩
  intro u _ hs hpn
  exact hQ _ u hs hpn

variable {key : String}

lemma safe_dedupeCached {Q : Except Exn Bool → Sys → Prop} (hs : Sound env cfg s) (hp : Point i msg acts keys s)
    (hQ : ∀ hit u rest, Sound env cfg u → Point i msg (acts ++ rest) keys u → rest.countP Act.isFailure = 0 →
      (hit = true → Known cfg u.log i key true) → Q (.ok hit) u) :
    Safe (proto env cfg i) Q (dedupeCached cfg key) s := by
  have hms : ∀ u, Sound env cfg u → Point i msg acts keys u → Q (.ok false) u := by
    intro u hsn hpn
    refine hQ false u [] hsn ?_ rfl (fun h => absurd h Bool.false_ne_true)
    rwa [List.append_nil]
  unfold dedupeCached
  split
  · rw [Safe.tryExcept_iff]
    refine safe_act hp fun t ht hpt e => ?_
    cases hf : e.fault with
    | some x =>
      refine ⟨.error x, .inr ⟨by simp [perform, hf], ?_⟩⟩
      exact hms t ht hpt
    | none =>
      refine ⟨_, .inl ⟨_, _, _, by simp only [perform, hf]; rfl, fun _ _ h => .inl h, ?_⟩⟩
      intro u hu hsn hpn
      refine hQ _ u _ hsn hpn rfl ?_
      intro hhit
      cases hget : t.cache.get? key with
      | none =>
        rw [hget] at hhit
        cases hhit
      | some m =>
        rw [hget] at hhit hpn
        have hm : Marked cfg u.log key m := by
          rw [hu]
          exact (ht.marks key m hget).mono (List.prefix_append _ _)
        refine ⟨hm.completed, m, e.clock, hm, hhit, ?_⟩
        rw [hpn.cur]
        have hst : (some m).any (fun m => m.standing e.clock) := hhit
        rw [hst]
        exact List.mem_append_right _ List.mem_cons_self
  · exact hms s hs hp

variable {Q : Except Exn Unit → Sys → Prop} {clock : ℤ} {data : Payload} {p : PortfolioSnapshot} {rest : List Act}

lemma safe_publishDlq {letter : DeadLetter} (hs : Sound env cfg s) (hp : Point i msg acts keys s)
    (hQ : ∀ u rest, Sound env cfg u → Point i msg (acts ++ rest) keys u → rest.countP Act.isFailure = 0 →
      LetterFor cfg letter.event letter.attempts (acts ++ rest) → Q (.ok ()) u) :
    Safe (proto env cfg i) Q (publishDlq cfg letter) s := by
  have hse : ∀ u sent, Sound env cfg u → Point i msg (acts ++ [.letter letter sent]) keys u → Q (.ok ()) u := by
    intro u sent hsn hpn
    refine hQ u _ hsn hpn rfl fun _ => ⟨letter, sent, ?_, rfl, rfl⟩
    exact List.mem_append_right _ List.mem_cons_self
  unfold publishDlq
  split
  · rw [Safe.tryExcept_iff]
    refine safe_act hp fun t ht hpt e => ?_
    cases hf : e.fault with
    | some x =>
      refine ⟨.error x, .inl ⟨.letter letter false, t.cache, t.hubs, ?_, fun _ _ h => .inl h, ?_⟩⟩
      · simp only [perform, hf]
        rfl
      · intro u _ hsn hpn
        exact hse u false hsn hpn
    | none =>
      refine ⟨.ok (), .inl ⟨.letter letter true, t.cache, t.hubs, ?_, fun _ _ h => .inl h, ?_⟩⟩
      · simp only [perform, hf]
        rfl
      · intro u _ hsn hpn
        exact hse u true hsn hpn
  · rename_i hoff
    refine hQ s [] hs ?_ rfl (fun h => absurd h hoff)
    rwa [List.append_nil]

lemma safe_markDedupe {ttl : Option ℤ} (hs : Sound env cfg s) (hp : Point i msg acts keys s)
    (hd : finish cfg key <:+ acts)
    (hQ : ∀ u rest, Sound env cfg u → Point i msg (acts ++ rest) keys u → Completed cfg u.log key → Q (.ok ()) u) :
    Safe (proto env cfg i) Q (markDedupe cfg key ttl) s := by
  have hc : ∀ u, Point i msg acts keys u → Completed cfg u.log key := by
    intro u hpn
    refine ⟨i, u.log, List.prefix_rfl, ?_⟩
    rw [hpn.cur]
    exact hd
  have hun : ∀ u, Sound env cfg u → Point i msg acts keys u → Q (.ok ()) u := by
    intro u hsn hpn
    refine hQ u [] hsn ?_ (hc u hpn)
    rwa [List.append_nil]
  unfold markDedupe
  split
  · rw [Safe.tryExcept_iff]
    refine safe_act hp fun t ht hpt e => ?_
    cases hf : e.fault with
    | some x =>
      refine ⟨.error x, .inr ⟨by simp [perform, hf], ?_⟩⟩
      exact hun t ht hpt
    | none =>
      refine ⟨_, .inl ⟨_, _, _, by simp only [perform, hf]; rfl, ?_, ?_⟩⟩
      · intro k m hget
        rw [Dict.get?_set] at hget
        split at hget
        · rename_i hk
          subst hk
          cases hget
          exact .inr ⟨rfl, hd⟩
        · exact .inl hget
      · intro u hu hsn hpn
        refine hQ u _ hsn hpn ?_
        rw [hu]
        exact (hc t hpt).mono (List.prefix_append _ _)
  · exact hun s hs hp

/-! ### Attempts -/

variable (env) in
def Keyed (key : String) (p : PortfolioSnapshot) : Prop := p.hash ≠ "" ∧ keyOf env p = key

lemma safe_upsert {Q : Except Exn PortfolioSnapshot → Sys → Prop} (hkey : Keyed env key p)
    (hp : Point i msg acts keys s)
    (hok : ∀ own u, Keyed env key own → Sound env cfg u → Point i msg (acts ++ [.upsert key true]) keys u → Q (.ok own) u)
    (her : ∀ x u, Sound env cfg u → Point i msg (acts ++ [.upsert key false]) keys u → Q (.error x) u) :
    Safe (proto env cfg i) Q (Coro.perform (Op.upsert p)) s := by
  obtain ⟨hh, rfl⟩ := hkey
  refine safe_act hp fun t ht hpt e => ?_
  cases hf : e.fault with
  | some x =>
    refine ⟨.error x, .inl ⟨.upsert (keyOf env p) false, t.cache, t.hubs, ?_, fun _ _ h => .inl h, ?_⟩⟩
    · simp only [perform, hf]
      rfl
    · intro u _ hs hpn
      exact her x u hs hpn
  | none =>
    cases hu : upsertSnapshot env cfg.hub e.clock e.iso (t.hubs i) p with
    | error x =>
      refine ⟨.error x, .inl ⟨.upsert (keyOf env p) false, t.cache, t.hubs, ?_, fun _ _ h => .inl h, ?_⟩⟩
      · simp only [perform, hf, hu]
        rfl
      · intro u _ hs hpn
        exact her x u hs hpn
    | ok r =>
      obtain ⟨deduped, prepared, hub⟩ := r
      refine ⟨.ok prepared.own, .inl ⟨.upsert (keyOf env p) true, t.cache, Function.update t.hubs i hub, ?_,
        fun _ _ h => .inl h, ?_⟩⟩
      · simp only [perform, hf, hu]
        rfl
      · intro u _ hs hpn
        exact hok prepared.own u (keyOf_upsert env cfg hh hu) hs hpn

lemma safe_onSnapshot (hp : Point i msg acts keys s)
    (hok : ∀ u, Sound env cfg u → Point i msg (acts ++ [.call (keyOf env p) true]) keys u → Q (.ok ()) u)
    (her : ∀ x u, Sound env cfg u → Point i msg (acts ++ [.call (keyOf env p) false]) keys u → Q (.error x) u) :
    Safe (proto env cfg i) Q (Coro.perform (Op.onSnapshot p)) s := by
  refine safe_act hp fun t ht hpt e => ?_
  cases hf : e.fault with
  | some x =>
    refine ⟨.error x, .inl ⟨.call (keyOf env p) false, t.cache, t.hubs, ?_, fun _ _ h => .inl h, ?_⟩⟩
    · simp only [perform, hf]
      rfl
    · intro u _ hs hpn
      exact her x u hs hpn
  | none =>
    refine ⟨.ok (), .inl ⟨.call (keyOf env p) true, t.cache, t.hubs, ?_, fun _ _ h => .inl h, ?_⟩⟩
    · simp only [perform, hf]
      rfl
    · intro u _ hs hpn
      exact hok u hs hpn

lemma safe_tryOnce {Q : Except Exn (Option Exn × PortfolioSnapshot) → Sys → Prop}
    (hkey : Keyed env key p) (hp : Point i msg acts keys s)
    (hd : ∀ own u rest, Sound env cfg u → Point i msg (acts ++ rest) keys u → finish cfg key <:+ acts ++ rest →
      Q (.ok (none, own)) u)
    (hf : ∀ x own u rest, Keyed env key own → Sound env cfg u → Point i msg (acts ++ rest) keys u →
      rest.countP Act.isFailure = 1 → Q (.ok (some x, own)) u) : Safe (proto env cfg i) Q (tryOnce cfg p) s := by
  unfold tryOnce
  rw [Coro.bind_eq, Safe.bind_iff, Safe.attempt_iff]
  refine safe_upsert hkey hp ?_ ?_
  · intro own u hown hu hpu
    cases hc : cfg.callback with
    | true =>
      simp only [if_true]
      rw [Coro.bind_eq, Safe.bind_iff, Safe.attempt_iff]
      refine safe_onSnapshot hpu ?_ ?_
      · intro v hv hpv
        rw [hown.2, List.append_assoc] at hpv
        refine hd own v _ hv hpv ?_
        unfold finish
        rw [if_pos hc]
        exact List.suffix_append _ _
      · intro x v hv hpv
        rw [hown.2, List.append_assoc] at hpv
        exact hf x own v _ hown hv hpv rfl
    | false =>
      refine hd own u _ hu hpu ?_
      unfold finish
      rw [if_neg (by simp [hc])]
      exact List.suffix_append _ _
  · intro x u hu hpu
    exact hf x p u _ hkey hu hpu rfl

variable (cfg) in
inductive Attempted (event : Json) (key : String) (log : List Entry) (acts : List Act) (keys : List String) :
    List String × Fate → Prop
  | processed : finish cfg key <:+: acts → Completed cfg log key →
      Attempted event key log acts keys (remember keys key, .processed key)
  | dead : acts.countP Act.isFailure = max 1 cfg.maxAttempts → LetterFor cfg event (max 1 cfg.maxAttempts) acts →
      Attempted event key log acts keys (keys, .dead key)

lemma safe_processed {Q : Except Exn (List String × Fate) → Sys → Prop} (event : Json) {ttl : Option ℤ}
    (hs : Sound env cfg s) (hp : Point i msg acts keys s) (hd : finish cfg key <:+ acts)
    (hQ : ∀ r u rest, Sound env cfg u → Point i msg (acts ++ rest) keys u →
      Attempted cfg event key u.log (acts ++ rest) keys r → Q (.ok r) u) :
    Safe (proto env cfg i) Q ((markDedupe cfg key ttl).bind fun _ => .ret (remember keys key, .processed key)) s := by
  rw [Safe.bind_iff]
  refine safe_markDedupe hs hp hd fun u rest hu hpu hc => ?_
  refine hQ _ u rest hu hpu (.processed ?_ hc)
  exact hd.isInfix.trans (List.prefix_append acts rest).isInfix

variable {event : Json}

lemma safe_attempts {Q : Except Exn (List String × Fate) → Sys → Prop} {stage key : String} (n : ℕ)
    (hkey : Keyed env key p) (hp : Point i msg acts keys s)
    (hc : acts.countP Act.isFailure + (n + 1) = max 1 cfg.maxAttempts)
    (hQ : ∀ r u rest, Sound env cfg u → Point i msg (acts ++ rest) keys u →
      Attempted cfg event key u.log (acts ++ rest) keys r → Q (.ok r) u) :
    Safe (proto env cfg i) Q (attempts exnText cfg event stage key keys n p) s := by
  induction n generalizing acts p s with
  | zero =>
    unfold attempts
    rw [Coro.bind_eq, Safe.bind_iff]
    refine safe_tryOnce hkey hp ?_ ?_
    · intro own u rest hu hpu hd
      refine safe_processed event hu hpu hd fun r v rest' hv hpv ha => ?_
      rw [List.append_assoc] at hpv ha
      exact hQ r v _ hv hpv ha
    · intro x own u rest _ hu hpu hf
      show Safe _ Q ((publishDlq cfg ⟨own.worldId, stage, exnText x, max 1 cfg.maxAttempts, event⟩).bind
        fun _ => .ret (keys, .dead key)) u
      rw [Safe.bind_iff]
      refine safe_publishDlq hu hpu fun v rest' hv hpv hn hl => ?_
      rw [List.append_assoc] at hpv hl
      refine hQ _ v _ hv hpv (.dead ?_ hl)
      rw [List.countP_append, List.countP_append]
      omega
  | succ n ih =>
    unfold attempts
    rw [Coro.bind_eq, Safe.bind_iff]
    refine safe_tryOnce hkey hp ?_ ?_
    · intro own u rest hu hpu hd
      refine safe_processed event hu hpu hd fun r v rest' hv hpv ha => ?_
      rw [List.append_assoc] at hpv ha
      exact hQ r v _ hv hpv ha
    · intro x own u rest hown hu hpu hf
      refine ih hown hpu ?_ ?_
      · rw [List.countP_append]
        omega
      · intro r v rest' hv hpv ha
        rw [List.append_assoc] at hpv ha
        exact hQ r v _ hv hpv ha

/-! ### Messages -/

variable {now : Timestamp} {fate : Fate}

lemma accounted_of_handled (hev : eventOf msg = some (event, data))
    (hr : readEvent env cfg now data = .ok p) (hex : consumerExpired env clock p = .ok false)
    (hcur : current i s.log = ⟨some msg, .read now :: .time clock :: rest⟩)
    (h : Handled cfg s.log i event (keyOf env p) fate) : Accounted env cfg s.log i msg fate := by
  unfold Accounted
  rw [hev, hcur]
  refine ⟨now, rfl, ?_⟩
  rw [hr]
  refine ⟨clock, rfl, ?_⟩
  rw [hex]
  exact h

def Fate.plain : Fate → Bool
  | .duplicate _ _ => false
  | .processed _ => false
  | _ => true

lemma outcome_of_plain {log : List Entry} (hplain : fate.plain = true)
    (h : Accounted env cfg log i msg fate) : Outcome env cfg log i msg fate := by
  refine ⟨?_, h, ?_⟩
  · rintro key cached rfl
    cases hplain
  · intro key hkey
    cases fate with
    | duplicate key cached => cases hplain
    | processed key => cases hplain
    | _ => cases hkey

lemma outcome_known {cached : Bool} (hev : eventOf msg = some (event, data))
    (hr : readEvent env cfg now data = .ok p) (hex : consumerExpired env clock p = .ok false)
    (hcur : current i s.log = ⟨some msg, .read now :: .time clock :: rest⟩) (h : Known cfg s.log i (keyOf env p) cached) :
    Outcome env cfg s.log i msg (.duplicate (keyOf env p) cached) := by
  refine ⟨?_, accounted_of_handled hev hr hex hcur ⟨rfl, h⟩, ?_⟩
  · intro key cached' heq
    obtain ⟨hkey, hc⟩ := Fate.duplicate.inj heq
    rw [← hkey, ← hc]
    exact h
  · intro key hkey
    cases cached with
    | true =>
      have heq : some (keyOf env p) = some key := (if_pos rfl).symm.trans hkey
      cases heq
      exact h.1
    | false => cases hkey

lemma outcome_attempted {r : List String × Fate}
    (hev : eventOf msg = some (event, data)) (hr : readEvent env cfg now data = .ok p)
    (hex : consumerExpired env clock p = .ok false)
    (hcur : current i s.log = ⟨some msg, .read now :: .time clock :: rest⟩)
    (h : Attempted cfg event (keyOf env p) s.log (.read now :: .time clock :: rest) keys r) :
    Outcome env cfg s.log i msg r.2 ∧ r.1 = ((Entry.committed i msg r.2).remembered i).elim keys (remember keys) := by
  cases h with
  | processed hd hc =>
    refine ⟨⟨fun _ _ heq => Fate.noConfusion heq, accounted_of_handled hev hr hex hcur ⟨rfl, ?_⟩, ?_⟩, ?_⟩
    · rw [hcur]
      exact hd
    · intro key hkey
      have heq : some (keyOf env p) = some key := (if_pos rfl).symm.trans hkey
      cases heq
      exact hc
    · simp [Entry.remembered]
  | dead hcn hl =>
    refine ⟨outcome_of_plain rfl (accounted_of_handled hev hr hex hcur ⟨rfl, ?_, ?_⟩), rfl⟩
    · rw [hcur]
      exact hcn
    · rw [hcur]
      exact hl

lemma safe_handleMessage {Q : Except Exn (List String × Fate) → Sys → Prop} (hs : Sound env cfg s)
    (hp : Point i msg [] keys s)
    (hok : ∀ r u acts, Sound env cfg u → Point i msg acts keys u → Outcome env cfg u.log i msg r.2 →
      r.1 = ((Entry.committed i msg r.2).remembered i).elim keys (remember keys) → Q (.ok r) u)
    (her : ∀ x u acts, Sound env cfg u → Point i msg acts keys u → Outcome env cfg u.log i msg .raised →
      Q (.error x) u) : Safe (proto env cfg i) Q (handleMessage env exnText cfg keys msg) s := by
  unfold handleMessage
  cases hev : eventOf msg with
  | none =>
    refine hok (keys, .ignored) s _ hs hp (outcome_of_plain rfl ?_) rfl
    unfold Accounted
    rw [hev]
  | some ed =>
    obtain ⟨event, data⟩ := ed
    dsimp only
    rw [Coro.bind_eq, Safe.bind_iff]
    refine safe_isoNow hp fun iso u hu hpu => ?_
    cases hr : readEvent env cfg iso data with
    | error e =>
      simp only [hr]
      rw [Coro.bind_eq, Safe.bind_iff]
      refine safe_publishDlq hu hpu fun v rest hv hpv _ hl => ?_
      refine hok (keys, .invalid) v _ hv hpv (outcome_of_plain rfl ?_) rfl
      unfold Accounted
      rw [hev, hpv.cur]
      refine ⟨iso, rfl, ?_⟩
      rw [hr]
      exact ⟨rfl, hl⟩
    | ok p =>
      simp only [hr]
      rw [Coro.bind_eq, Safe.bind_iff]
      refine safe_now hpu fun clock v hv hpv => ?_
      dsimp only
      cases hex : consumerExpired env clock p with
      | error x =>
        refine her x v _ hv hpv (outcome_of_plain rfl ?_)
        unfold Accounted
        rw [hev, hpv.cur]
        refine ⟨iso, rfl, ?_⟩
        rw [hr]
        refine ⟨clock, rfl, ?_⟩
        rw [hex]
        trivial
      | ok old =>
        rw [Coro.ofExcept_ok, Coro.bind_eq, Coro.bind_ret]
        cases old with
        | true =>
          refine hok (keys, .expired) v _ hv hpv (outcome_of_plain rfl ?_) rfl
          unfold Accounted
          rw [hev, hpv.cur]
          refine ⟨iso, rfl, ?_⟩
          rw [hr]
          refine ⟨clock, rfl, ?_⟩
          rw [hex]
        | false =>
          simp only [Bool.false_eq_true, if_false]
          by_cases hmem : keyOf env p ∈ keys
          · rw [if_pos hmem]
            rw [← hpv.keys] at hmem
            refine hok _ v _ hv hpv (outcome_known hev hr hex hpv.cur ⟨hv.kept i _ hmem, hmem⟩) rfl
          · rw [if_neg hmem, Coro.bind_eq, Safe.bind_iff]
            refine safe_dedupeCached hv hpv fun hit w rest hw hpw hn hhit => ?_
            cases hit with
            | true =>
              refine hok _ w _ hw hpw (outcome_known hev hr hex hpw.cur (hhit rfl)) ?_
              simp [Entry.remembered]
            | false =>
              have hk : Keyed env (keyOf env p) p := ⟨hash_of_readEvent env cfg hr, rfl⟩
              refine safe_attempts exnText (cfg.maxAttempts - 1) hk hpw ?_ fun r x rest' hx hpx ha => ?_
              · rw [List.countP_append, hn]
                show 0 + 0 + _ = _
                omega
              · obtain ⟨hot, hkeys⟩ := outcome_attempted hev hr hex hpx.cur ha
                exact hok r x _ hx hpx hot hkeys

/-! ### Runs -/

lemma inOrder_of_others {log : List Entry} {e : Entry} (h : NotDropped env cfg log)
    (hi : ∃ rest, rest.length ≤ 1 ∧ (log ++ [e]).filterMap (Entry.receivedBy e.consumer) =
      (log ++ [e]).filterMap (Entry.committedBy e.consumer) ++ rest) (j : ℕ) : ∃ rest, rest.length ≤ 1 ∧
      (log ++ [e]).filterMap (Entry.receivedBy j) = (log ++ [e]).filterMap (Entry.committedBy j) ++ rest := by
  by_cases hj : e.consumer = j
  · subst hj
    exact hi
  · rw [filterMap_append_none (receivedBy_others hj), filterMap_append_none (committedBy_others hj)]
    exact h.inOrder j

lemma safe_receive {Q : Except Exn (Option Json) → Sys → Prop} (hb : Between i keys s)
    (hQ : ∀ msg u, Sound env cfg u → Point i msg [] keys u → Q (.ok msg) u) :
    Safe (proto env cfg i) Q (Coro.perform Op.receive) s := by
  refine Safe.perform_iff.mpr ?_
  intro t hr ht
  refine ⟨trivial, fun e _ => ?_⟩
  have hbt := hb.rely hr
  have hrc : (t.log ++ [Entry.received i e.msg]).filterMap (Entry.receivedBy i) =
      t.log.filterMap (Entry.receivedBy i) ++ [e.msg] := by
    simp [Entry.receivedBy]
  have hor : (t.log ++ [Entry.received i e.msg]).filterMap (Entry.receivedBy i) =
      (t.log ++ [Entry.received i e.msg]).filterMap (Entry.committedBy i) ++ [e.msg] := by
    rw [hrc, filterMap_append_none rfl, hbt.order]
  have hs : Sound env cfg (t.logged (.received i e.msg)) :=
    ht.logged (fun _ _ h => .inl h) (fun _ _ _ he => Entry.noConfusion he)
      (inOrder_of_others ht.events ⟨[e.msg], le_rfl, hor⟩)
  refine ⟨hs, ⟨[Entry.received i e.msg], rfl, ?_⟩, hQ e.msg _ hs ⟨?_, ?_, hor⟩⟩
  · intro e' he'
    rw [List.mem_singleton.mp he']
    rfl
  · show current i (t.log ++ [Entry.received i e.msg]) = _
    rw [current_append]
    exact if_pos rfl
  · exact (inMemory_append_none rfl).trans hbt.keys

lemma safe_commit (hp : Point i msg acts keys s) (ho : Outcome env cfg s.log i msg fate)
    (hQ : ∀ u, Sound env cfg u →
      Between i (((Entry.committed i msg fate).remembered i).elim keys (remember keys)) u → Q (.ok ()) u) :
    Safe (proto env cfg i) Q (Coro.perform (Op.commit msg fate)) s := by
  refine Safe.perform_iff.mpr ?_
  intro t hr ht
  refine ⟨trivial, fun e _ => ?_⟩
  have hpt := hp.rely hr
  have hc : (t.log ++ [Entry.committed i msg fate]).filterMap (Entry.committedBy i) =
      t.log.filterMap (Entry.committedBy i) ++ [msg] := by
    simp [Entry.committedBy]
  have hor : (t.log ++ [Entry.committed i msg fate]).filterMap (Entry.receivedBy i) =
      (t.log ++ [Entry.committed i msg fate]).filterMap (Entry.committedBy i) := by
    rw [hc, filterMap_append_none rfl, hpt.order]
  have hs : Sound env cfg (t.logged (.committed i msg fate)) := by
    refine ht.logged (fun _ _ h => .inl h) ?_
      (inOrder_of_others ht.events ⟨[], Nat.zero_le _, by rw [List.append_nil]; exact hor⟩)
    intro j msg' fate' he
    cases he
    exact ⟨by rw [hpt.cur], ho.rely hr⟩
  refine ⟨hs, ⟨[Entry.committed i msg fate], rfl, ?_⟩, hQ _ hs ⟨?_, hor⟩⟩
  · intro e' he'
    rw [List.mem_singleton.mp he']
    rfl
  · show inMemory i (t.log ++ [Entry.committed i msg fate]) = _
    cases hkey : (Entry.committed i msg fate).remembered i with
    | none => exact (inMemory_append_none hkey).trans hpt.keys
    | some key => rw [Option.elim_some, inMemory_append hkey, hpt.keys]

/-- **The messages of a consumer**, by induction on how many are left. -/
theorem safe_run (n : ℕ) (hb : Between i keys s) :
    Safe (proto env cfg i) (fun _ _ => True) (run env exnText cfg n keys) s := by
  induction n generalizing keys s with
  | zero => trivial
  | succ n ih =>
    unfold run
    rw [Coro.bind_eq, Safe.bind_iff]
    refine safe_receive hb fun msg t ht hpt => ?_
    dsimp only
    rw [Coro.bind_eq, Safe.bind_iff, Safe.attempt_iff]
    refine safe_handleMessage exnText ht hpt ?_ ?_
    · rintro ⟨keys', fate⟩ u acts hu hpu ho hkeys
      dsimp only at ho hkeys ⊢
      rw [Coro.bind_eq, Safe.bind_iff]
      refine safe_commit hpu ho fun v hv hbv => ?_
      exact ih (hkeys ▸ hbv)
    · intro x u acts hu hpu ho
      dsimp only
      rw [Coro.bind_eq, Safe.bind_iff]
      exact safe_commit hpu ho fun v hv _ => trivial

variable (env) (cfg)

lemma sound_start (hubs : ℕ → Hub) : Sound env cfg (start hubs).store := by
  refine ⟨fun key m h => ?_, fun i key h => ?_, ⟨?_, ?_, fun i => ⟨[], Nat.zero_le _, rfl⟩⟩⟩
  · exact absurd h (by simp [start])
  · exact absurd h (by simp [start, inMemory, lastOf])
  · intro before i msg key cached after h
    exact absurd h (by simp [start])
  · intro before i msg fate after h
    exact absurd h (by simp [start])

lemma composes (hubs : ℕ → Hub) : System.Composes (system env exnText cfg) (fun _ _ => True) (start hubs)
    (fun i _ => proto env cfg i) (Sound env cfg) (fun ls s => ∀ i, ls.length ≤ i → ∀ e ∈ s.log, e.consumer ≠ i)
    (fun _ _ _ _ => True) where
  inv _ _ := rfl
  perform _ _ := rfl
  calls := rfl
  init := ⟨sound_start env cfg hubs, fun _ _ _ h => absurd h List.not_mem_nil⟩
  ok _ _ _ _ _ _ _ _ _ := trivial
  stable _ _ _ _ _ _ _ := trivial
  start := by
    intro c n _ _ _ hnew
    refine ⟨?_, safe_run exnText n ?_⟩
    · intro i hi
      rw [List.length_append] at hi
      exact hnew i (by omega)
    · -- nothing in the log is by the new consumer
      have hn : ∀ e ∈ c.store.log, e.consumer ≠ c.calls.length := hnew _ (by simp [Config.labels])
      have hrc := filterMap_others (fun _ => receivedBy_others) [] hn
      have hc := filterMap_others (fun _ => committedBy_others) [] hn
      have hr := filterMap_others (fun _ => remembered_others) [] hn
      refine ⟨?_, hrc.trans hc.symm⟩
      have hkeys : inMemory c.calls.length c.store.log = lastOf dequeLength [] := congrArg (lastOf dequeLength) hr
      exact hkeys
  disturb := by
    intro c x _ _ hs hnew
    have hrl : ∀ i, Rely i c.store ((system env exnText cfg).disturb x c.store) := by
      intro i
      refine ⟨[], ?_, fun _ h => absurd h List.not_mem_nil⟩
      rw [List.append_nil]
      cases x <;> rfl
    cases x with
    | hub i hub => exact ⟨⟨hs.marks, hs.kept, hs.events⟩, hnew, fun i _ _ => hrl i⟩
    | evict key =>
      refine ⟨⟨?_, hs.kept, hs.events⟩, hnew, fun i _ _ => hrl i⟩
      intro k m hget
      have hg' : (c.store.cache.erase key).get? k = some m := hget
      rw [Dict.get?_erase] at hg'
      split at hg'
      · cases hg'
      · exact hs.marks k m hg'
  keep := by
    rintro ls i n s s' _ hnew hi ⟨new, hlog, hby⟩ _ j hj e he
    rw [hlog] at he
    rcases List.mem_append.mp he with he | he
    · exact hnew j hj e he
    · rw [hby e he]
      have hlt := (List.getElem?_eq_some_iff.mp hi).1
      omega
  others := by
    rintro ls i j n n' s s' _ _ _ _ hij ⟨new, hlog, hby⟩ _
    refine ⟨new, hlog, fun e he => ?_⟩
    rw [hby e he]
    exact hij

/-- **No event is dropped**, whatever fails and however often a message is delivered. -/
theorem events_not_dropped (hubs : ℕ → Hub) {c : Consumers}
    (h : (system env exnText cfg).Run (fun _ _ => True) (start hubs) c) : NotDropped env cfg c.store.log :=
  (System.Run.safe (composes env exnText cfg hubs) h).1.events

/-! ### A snapshot in an event -/

def dayOne : String × ℤ := ("2025-01-01T00:00:00+00:00", 1735689600000000)

def dayEnv : Env := Env.plain [dayOne]

def daySetup : Setup where
  hub := ⟨some 100, none, none, none, 900, 86400⟩
  limits := ⟨900, 86400, none, none⟩
  maxAttempts := 3
  callback := true
  cache := true
  dedupeTtl := some 900
  dlq := true

def dayHub : Hub := ⟨Dict.empty, none, none⟩

def dayData : List (String × Json) :=
  [("world_id", .str "w"), ("as_of", .str dayOne.1), ("version", .str "v1"), ("weights", .obj [("s1", .num "1.0")]),
    ("provenance", .obj [("actor", .str "gateway"), ("stage", .str "paper")]), ("created_at", .str dayOne.1),
    ("ttl_sec", .num "900")]

def dayEvent : Json := .obj [("type", .str "risk_snapshot_updated"), ("data", .obj dayData)]

def dayNow : Timestamp := ⟨dayOne.1, by decide⟩

def delivered (n : ℕ) (clock : ℤ) : List Event := List.replicate n (.resume 0 ⟨some dayEvent, clock, dayNow, none⟩)

def Entry.isProcessed : Entry → Bool
  | .committed _ _ (.processed _) => true
  | _ => false

def Entry.isDuplicate : Entry → Bool
  | .committed _ _ (.duplicate _ _) => true
  | _ => false

def readable (env : Env) (cfg : Setup) (now : Timestamp) (msg : Option Json) : Bool :=
  (eventOf msg).any fun e => (readEvent env cfg now e.2).toOption.isSome

def Entry.isExpired : Entry → Bool
  | .committed _ msg .expired => readable dayEnv daySetup dayNow msg
  | _ => false

def Entry.isEffort : Entry → Bool
  | .did _ (.upsert _ _) => true
  | .did _ (.letter _ _) => true
  | _ => false

/-- An event that comes twice is processed, and then a duplicate. -/
theorem events_not_dropped_twice :
    ∃ c, (system dayEnv (fun _ => "") daySetup).Run (fun _ _ => True) (start fun _ => dayHub) c ∧
      c.store.log.countP Entry.isProcessed = 1 ∧ c.store.log.countP Entry.isDuplicate = 1 ∧
      NotDropped dayEnv daySetup c.store.log := by
  have hexec : (execIf (system dayEnv (fun _ => "") daySetup).step (fun _ _ => true) (start fun _ => dayHub)
      (.start 2 :: delivered 12 dayOne.2)).any (fun c => decide (c.store.log.countP Entry.isProcessed = 1 ∧
        c.store.log.countP Entry.isDuplicate = 1)) := by decide +kernel
  obtain ⟨c, hrun, hcheck⟩ := exists_run _ _ _ _ _ hexec
  have hrun' := hrun.mono fun _ _ _ => trivial
  obtain ⟨hprocessed, hduplicate⟩ := of_decide_eq_true hcheck
  exact ⟨c, hrun', hprocessed, hduplicate, events_not_dropped dayEnv (fun _ => "") daySetup (fun _ => dayHub) hrun'⟩

/-- An event that can be read is skipped where it has expired: it is neither processed nor a dead letter. -/
theorem expired_event_skipped :
    ∃ c, (system dayEnv (fun _ => "") daySetup).Run (fun _ _ => True) (start fun _ => dayHub) c ∧
      (∃ i msg, .committed i msg .expired ∈ c.store.log ∧ readable dayEnv daySetup dayNow msg = true) ∧
      ∀ e ∈ c.store.log, e.isEffort = false := by
  have hexec : (execIf (system dayEnv (fun _ => "") daySetup).step (fun _ _ => true) (start fun _ => dayHub)
      (.start 1 :: delivered 4 (dayOne.2 + 901000000))).any (fun c => c.store.log.any Entry.isExpired &&
        c.store.log.all fun e => !e.isEffort) := by decide +kernel
  obtain ⟨c, hrun, hcheck⟩ := exists_run _ _ _ _ _ hexec
  rw [Bool.and_eq_true, List.any_eq_true, List.all_eq_true] at hcheck
  obtain ⟨⟨e, he, hexpired⟩, hnone⟩ := hcheck
  refine ⟨c, hrun.mono fun _ _ _ => trivial, ?_, fun e he => by simpa using hnone e he⟩
  cases e with
  | committed i msg fate =>
    cases fate with
    | expired => exact ⟨i, msg, he, hexpired⟩
    | _ => cases hexpired
  | _ => cases hexpired

end Qmtl.WorldService.Risk.Consumer

import Qmtl.Gateway.Fsm

/-! The three places of a strategy's state, and when they agree. -/

namespace Qmtl.Gateway.FsmStores

open Lib Gateway.Fsm

/-! ### The three places -/

section Places

variable (s : Store) (sid : String)

/-- What `get` answers when Redis and the database do. -/
def view : Option StrategyState := (s.state sid).or (s.row sid)

def replayEntry : Option StrategyState → LogEntry → Option StrategyState
  | _, .init st => some st
  | st, .event ev => st.bind fun st => (Machine.transition st ev).toOption

def replay (log : List (String × LogEntry)) : Option StrategyState :=
  ((log.filter fun x => x.1 = sid).map Prod.snd).foldl replayEntry none

def places : Option StrategyState × Option StrategyState × Option StrategyState :=
  (view s sid, s.row sid, replay sid s.log)

def Agree : Prop := view s sid = s.row sid ∧ s.row sid = replay sid s.log

instance : Decidable (Agree s sid) := inferInstanceAs (Decidable (_ ∧ _))

variable {s sid} {s' : Store}

lemma agree_congr (h : places s' sid = places s sid) : Agree s' sid ↔ Agree s sid := by
  simp only [places, Prod.mk.injEq] at h
  simp [Agree, h]

lemma view_eq_row : view s sid = s.row sid ↔ s.state sid = none ∨ s.state sid = s.row sid := by
  unfold view
  cases s.state sid with
  | none => simp
  | some st => simp

lemma places_hset_row {st : StrategyState} (hv : view s sid = s.row sid) (hrow : s.row sid = some st) :
    places { s with state := Function.update s.state sid (some st) } sid = places s sid := by
  simp only [places, hv]
  simp [view, hrow]

lemma replay_append {log : List (String × LogEntry)} {sid' : String} {x : LogEntry} :
    replay sid (log ++ [(sid', x)]) = if sid' = sid then replayEntry (replay sid log) x else replay sid log := by
  by_cases h : sid' = sid <;> simp [replay, h]

end Places

structure Traced where
  store : Store
  writer : String → Option ℕ
  changed : List ℕ

def writes : Op → Option String
  | .hsetState sid _ _ | .insertRow sid | .setStatus sid _ | .appendEvent sid _ => some sid
  | _ => none

def Traced.mark (t : Traced) (i : ℕ) (sid : String) (s' : Store) : Traced where
  store := s'
  writer := Function.update t.writer sid <|
    if t.writer sid = none ∨ t.writer sid = some i then (if Agree s' sid then none else some i)
    else t.writer sid
  changed := if places s' sid = places t.store sid then t.changed else i :: t.changed

def performTraced (i : ℕ) (o : Op) (e : Env) (t : Traced) : Except Exc o.Ans × Traced :=
  let r := perform i o e t.store
  match writes o with
  | some sid => (r.1, t.mark i sid r.2)
  | none => (r.1, { t with store := r.2 })

def sound (i : ℕ) (o : Op) (e : Env) (t : Traced) : Bool :=
  match o with
  | .hsetState sid st seen =>
    e.fate = .lost || t.store.state sid = some st || (t.writer sid = none &&
      (t.store.row sid = some st || (e.fate = .ok && (seen = none || t.store.row sid = seen))))
  | .insertRow sid =>
    if t.writer sid = some i then e.fate = .ok && (t.store.dbKind = .memory || t.store.row sid = none)
    else e.fate = .lost || t.store.row sid = some .queued ||
      (t.store.dbKind ≠ .memory && (t.store.row sid).isSome)
  | .setStatus sid st =>
    if t.writer sid = some i then e.fate = .ok
    else e.fate = .lost || t.store.row sid = none || t.store.row sid = some st
  | .appendEvent sid (.init st) =>
    if t.writer sid = some i then e.fate ≠ .lost
    else e.fate = .lost || replay sid t.store.log = some st
  | .appendEvent sid (.event _) =>
    if t.writer sid = some i then e.fate = .ok else e.fate = .lost
  | _ => true

/-! ### Calls on any number of strategies -/

inductive Call where
  | create (sid : String)
  | transition (sid : String) (ev : StrategyEvent)
  | get (sid : String)

inductive Ret where
  | created
  | moved (st : StrategyState)
  | got (st : Option StrategyState)

def code : Call → Gw Ret
  | .create sid => create sid >>= fun _ => pure .created
  | .transition sid ev => transition sid ev >>= fun st => pure (.moved st)
  | .get sid => get sid >>= fun st => pure (.got st)

abbrev Cfg := Config Op Op.Ans Exc Ret Traced Call
abbrev Ev := Event Env String Call

def forget (sid : String) (t : Traced) : Traced :=
  { t with store := { t.store with state := Function.update t.store.state sid none } }

def system : System Op Op.Ans Exc Ret Traced Env String Call where
  code := code
  perform := performTraced
  disturb := forget
  may _ _ := true

def init (kind : DbKind) : Cfg :=
  ⟨⟨{ Store.empty with dbKind := kind }, fun _ => none, []⟩, []⟩

def soundStep (c : Cfg) : Ev → Bool
  | .resume i e =>
    match c.calls[i]? with
    | some (_, .await o _) => sound i o e c.store
    | _ => true
  | _ => true

def finished {α : Type} : Gw α → Bool
  | .await _ _ => false
  | _ => true

/-- **The three stores agree** while no call is in progress, and a `transition` that raised changed none of them. -/
def StoresAgree (c : Cfg) : Prop :=
  ((∀ x ∈ c.calls, finished x.2 = true) → ∀ sid es v,
    (Coro.run (perform 0) Env.ok es (get sid) c.store.store).1 = .ok v →
      v = c.store.store.row sid ∧ v = replay sid c.store.store.log) ∧
  ∀ i sid ev x, c.calls[i]? = some (.transition sid ev, .raise x) → i ∉ c.store.changed

/-! ### What one write does -/

section Step

variable {i : ℕ} {o : Op} {e : Env} {t : Traced} {sid : String} {s' : Store}

def Settled (t : Traced) : Prop := ∀ sid, t.writer sid = none → Agree t.store sid

/-- Call `i` is in the middle of no write. -/
def Idle (i : ℕ) (t : Traced) : Prop := ∀ sid, t.writer sid ≠ some i

def Rely (i : ℕ) (t t' : Traced) : Prop :=
  (∀ sid, t'.writer sid = some i ↔ t.writer sid = some i) ∧
  (∀ sid, t.writer sid = some i → t'.store.row sid = t.store.row sid ∧
    replay sid t'.store.log = replay sid t.store.log ∧
    (t'.store.state sid = t.store.state sid ∨ t'.store.state sid = none)) ∧
  (i ∈ t'.changed ↔ i ∈ t.changed)

def part (s : Store) (sid : String) : Option StrategyState × Option StrategyState × Option StrategyState :=
  (s.state sid, s.row sid, replay sid s.log)

lemma places_of_part (h : part s' sid = part t.store sid) : places s' sid = places t.store sid := by
  simp only [part, Prod.mk.injEq] at h
  simp [places, view, h]

lemma part_of_ne {sid' : String} {s : Store} (ho : writes o = some sid) (hne : sid' ≠ sid) :
    part (perform i o e s).2 sid' = part s sid' := by
  cases o <;> simp only [writes, Option.some.injEq, reduceCtorEq] at ho <;> subst ho <;>
    cases hf : e.fate <;>
    simp only [perform, reply, hf, part, Function.update_of_ne hne, Store.insertRow, Store.setStatus,
      replay_append, Ne.symm hne, if_false] <;>
    split <;> simp [Function.update_of_ne hne]

lemma mark_settled (hJ : Settled t) (hne : ∀ sid', sid' ≠ sid → part s' sid' = part t.store sid') :
    Settled (t.mark i sid s') := by
  intro sid' hw
  by_cases h : sid' = sid
  · subst h
    simp only [Traced.mark, Function.update_self] at hw
    split at hw
    · split at hw
      · assumption
      · cases hw
    · rename_i hnot
      exact absurd (.inl hw) hnot
  · simp only [Traced.mark, Function.update_of_ne h] at hw
    exact (agree_congr (places_of_part (hne sid' h))).2 (hJ sid' hw)

lemma mark_rely (hne : ∀ sid', sid' ≠ sid → part s' sid' = part t.store sid')
    (hsid : ∀ j, j ≠ i → t.writer sid = some j → part s' sid = part t.store sid) :
    ∀ j, j ≠ i → Rely j t (t.mark i sid s') := by
  intro j hj
  have hp : ∀ sid', t.writer sid' = some j → part s' sid' = part t.store sid' := by
    intro sid' hw
    by_cases h : sid' = sid
    · subst h; exact hsid j hj hw
    · exact hne sid' h
  refine ⟨?_, ?_, ?_⟩
  · intro sid'
    by_cases h : sid' = sid
    · subst h
      simp only [Traced.mark, Function.update_self]
      split
      · -- call `i` or nobody is the writer, before and after
        rename_i hw
        have : t.writer sid' ≠ some j := by
          rcases hw with hw | hw <;> rw [hw] <;> simp [Ne.symm hj]
        split <;> simp [this, Ne.symm hj]
      · rfl
    · simp [Traced.mark, Function.update_of_ne h]
  · intro sid' hw
    have := hp sid' hw
    simp only [part, Prod.mk.injEq] at this
    exact ⟨this.2.1, this.2.2, .inl this.1⟩
  · simp only [Traced.mark]
    split
    · rfl
    · simp [hj]

lemma mark_quiet (hJ : Settled t) (hi : t.writer sid ≠ some i) (h : places s' sid = places t.store sid) :
    (t.mark i sid s').writer = t.writer ∧ (t.mark i sid s').changed = t.changed := by
  refine ⟨?_, by simp [Traced.mark, h]⟩
  simp only [Traced.mark]
  by_cases hw : t.writer sid = none
  · have : Agree s' sid := (agree_congr h).2 (hJ sid hw)
    simp only [hw, true_or, if_true, this]
    rw [← hw, Function.update_eq_self]
  · simp [hw, hi, Function.update_eq_self]

lemma sound_quiet (ho : writes o = some sid) (hs : sound i o e t)
    (hi : t.writer sid ≠ some i) (hr : (∃ st seen, o = .hsetState sid st seen) → t.writer sid ≠ none) :
    part (perform i o e t.store).2 sid = part t.store sid := by
  cases o <;> simp only [writes, Option.some.injEq, reduceCtorEq] at ho <;> subst ho
  case hsetState sid st seen =>
    have hw := hr ⟨st, seen, rfl⟩
    simp only [sound, hw, decide_false, Bool.false_and, Bool.or_false, Bool.or_eq_true,
      decide_eq_true_eq] at hs
    cases hf : e.fate <;> simp_all [perform, reply, part]
  case insertRow sid =>
    simp only [sound, hi, if_false, Bool.or_eq_true, Bool.and_eq_true, decide_eq_true_eq] at hs
    cases hf : e.fate <;> simp only [perform, hf, part, Store.insertRow] <;> split <;> simp_all
  case setStatus sid st =>
    simp only [sound, hi, if_false, Bool.or_eq_true, decide_eq_true_eq] at hs
    rcases hs with (hs | hs) | hs
    · simp [perform, reply, hs]
    · cases hf : e.fate <;> simp [perform, reply, hf, Store.setStatus, hs]
    · cases hf : e.fate <;> simp [perform, reply, hf, Store.setStatus, hs, part]
  case appendEvent sid x =>
    cases x <;> simp only [sound, hi, if_false, Bool.or_eq_true, decide_eq_true_eq] at hs <;>
      cases hf : e.fate <;> simp_all [perform, reply, part, replay_append, replayEntry]

lemma sound_hset {st : StrategyState} {seen : Option StrategyState} (hJ : Settled t)
    (hs : sound i (.hsetState sid st seen) e t) :
    places (perform i (.hsetState sid st seen) e t.store).2 sid = places t.store sid ∨
      (e.fate = .ok ∧ t.writer sid = none ∧ (seen = none ∨ t.store.row sid = seen)) := by
  simp only [sound, Bool.or_eq_true, Bool.and_eq_true, decide_eq_true_eq, or_assoc] at hs
  rcases hs with hf | hst | ⟨hw, hrow | hok⟩
  · left; simp [perform, reply, hf]
  · left
    apply places_of_part
    cases hf : e.fate <;> simp [perform, reply, hf, part, hst]
  · -- the row says so already, so `get` would answer it before as after
    left
    have hv := (hJ sid hw).1
    cases hf : e.fate <;> simp [perform, reply, hf, places_hset_row hv hrow]
  · exact .inr ⟨hok.1, hw, hok.2⟩

end Step

/-! ### The protocol of a call -/

def proto (i : ℕ) : Protocol Op Op.Ans Exc Traced Env where
  perform := performTraced i
  Ok o e t := sound i o e t = true
  J := Settled
  Rely := Rely i
  Guar t t' := ∀ j, j ≠ i → Rely j t t'
  At _ _ := True
  rely_refl _ := ⟨fun _ => Iff.rfl, fun _ _ => ⟨rfl, rfl, .inl rfl⟩, Iff.rfl⟩
  rely_trans := by
    rintro t u v ⟨hw, hp, hc⟩ ⟨hw', hp', hc'⟩
    refine ⟨fun sid => (hw' sid).trans (hw sid), ?_, hc'.trans hc⟩
    intro sid h
    obtain ⟨h1, h2, h3⟩ := hp sid h
    obtain ⟨h1', h2', h3'⟩ := hp' sid ((hw sid).2 h)
    refine ⟨h1'.trans h1, h2'.trans h2, ?_⟩
    rcases h3' with h3' | h3'
    · rw [h3']; exact h3
    · exact .inr h3'

section Programs

variable {i : ℕ} {t : Traced} {sid : String}

variable {b : Bool} {cur : StrategyState} {e : Env} {ev : StrategyEvent} {o : Op} {t' : Traced}

lemma write_step (ho : writes o = some sid) (hJ : Settled t) (hs : sound i o e t) :
    performTraced i o e t = ((perform i o e t.store).1, t.mark i sid (perform i o e t.store).2) ∧
      Settled (t.mark i sid (perform i o e t.store).2) ∧
      ∀ j, j ≠ i → Rely j t (t.mark i sid (perform i o e t.store).2) := by
  have hne : ∀ sid', sid' ≠ sid → part (perform i o e t.store).2 sid' = part t.store sid' :=
    fun sid' hne => part_of_ne ho hne
  refine ⟨by simp [performTraced, ho], mark_settled hJ hne, mark_rely hne ?_⟩
  intro j hj hw
  refine sound_quiet ho hs ?_ ?_
  · rw [hw]; simpa using hj
  · intro _
    simp [hw]

lemma ask_write {Q : Except Exc o.Ans → Traced → Prop} (ho : writes o = some sid)
    (h : ∀ t' e, Rely i t t' → Settled t' → sound i o e t' →
      Q (perform i o e t'.store).1 (t'.mark i sid (perform i o e t'.store).2)) : Safe (proto i) Q (ask o) t := by
  refine Safe.perform_iff.2 fun t' hR hJ => ⟨trivial, ?_⟩
  intro e hs
  obtain ⟨heq, hJ', hG⟩ := write_step ho hJ hs
  simp only [proto, heq]
  exact ⟨hJ', hG, h t' e hR hJ hs⟩

/-- Call `i` has changed nothing. -/
def Fresh (i : ℕ) (t : Traced) : Prop := Idle i t ∧ i ∉ t.changed

lemma Idle.rely (hR : Rely i t t') (h : Idle i t) : Idle i t' :=
  fun sid hw => h sid ((hR.1 sid).1 hw)

lemma Fresh.rely (hR : Rely i t t') (h : Fresh i t) : Fresh i t' :=
  ⟨h.1.rely hR, fun hc => h.2 (hR.2.2.1 hc)⟩

lemma Fresh.quiet {s' : Store} (hJ : Settled t) (h : Fresh i t)
    (hp : places s' sid = places t.store sid) : Fresh i (t.mark i sid s') := by
  obtain ⟨hw, hc⟩ := mark_quiet hJ (h.1 sid) hp
  exact ⟨fun sid' => by rw [hw]; exact h.1 sid', by rw [hc]; exact h.2⟩

lemma Idle.quiet {s' : Store} (hJ : Settled t) (h : Idle i t)
    (hp : places s' sid = places t.store sid) : Idle i (t.mark i sid s') := by
  obtain ⟨hw, -⟩ := mark_quiet hJ (h sid) hp
  exact fun sid' => by rw [hw]; exact h sid'

/-- The operations of `get`: two reads, and a write of what the row said. -/
def OfGet (sid : String) (o : Op) : Prop :=
  o = .hgetState sid ∨ o = .getStatus sid ∨ ∃ st, o = .hsetState sid st (some st)

lemma get_uses : Uses (OfGet sid) (get sid) := by
  refine Uses.bind (Uses.tryExcept (Uses.perform (.inl rfl)) fun e => ?_) fun data => ?_
  · cases e <;> trivial
  cases data with
  | some st => trivial
  | none =>
    refine Uses.bind (Uses.tryExcept (Uses.perform (.inr (.inl rfl))) fun _ => trivial) ?_
    intro state
    cases state with
    | none => trivial
    | some st =>
      refine Uses.bind (Uses.tryExcept (Uses.perform (.inr (.inr ⟨st, rfl⟩))) ?_) fun _ => trivial
      intro e
      cases e <;> trivial

lemma OfGet.step (ho : OfGet sid o) (hJ : Settled t) (h : Fresh i t) (hs : sound i o e t) :
    Settled (performTraced i o e t).2 ∧
      (∀ j, j ≠ i → Rely j t (performTraced i o e t).2) ∧ Fresh i (performTraced i o e t).2 := by
  rcases ho with rfl | rfl | ⟨st, rfl⟩
  · have : (performTraced i (.hgetState sid) e t).2 = t := by
      cases hf : e.fate <;> simp [performTraced, writes, perform, reply, hf]
    rw [this]
    exact ⟨hJ, fun j _ => (proto j).rely_refl t, h⟩
  · have : (performTraced i (.getStatus sid) e t).2 = t := by
      cases hf : e.fate <;> simp [performTraced, writes, perform, reply, hf]
    rw [this]
    exact ⟨hJ, fun j _ => (proto j).rely_refl t, h⟩
  · have hw : writes (.hsetState sid st (some st)) = some sid := rfl
    obtain ⟨heq, hJ', hG⟩ := write_step (i := i) (e := e) hw hJ hs
    refine ⟨hJ', hG, h.quiet hJ ?_⟩
    rcases sound_hset hJ hs with hp | ⟨hf, hw, hrow⟩
    · exact hp
    · obtain ⟨hv, -⟩ := hJ sid hw
      simp only [reduceCtorEq, false_or] at hrow
      simp only [perform, reply, hf]
      exact places_hset_row hv hrow

lemma get_safe (h : Fresh i t) : Safe (proto i) (fun _ t => Fresh i t) (get sid) t :=
  get_uses.safe (fun _ _ hR h => h.rely hR)
    (fun _ ho _ hJ hK => ⟨trivial, fun _ hs => ho.step hJ hK hs⟩) h

structure Moving (i : ℕ) (sid : String) (cur new row : StrategyState) (t : Traced) : Prop where
  writer : t.writer sid = some i
  only : ∀ sid', t.writer sid' = some i → sid' = sid
  row : t.store.row sid = some row
  log : replay sid t.store.log = some cur
  state : t.store.state sid = some new ∨ t.store.state sid = none

lemma Moving.rely {new row : StrategyState} (hR : Rely i t t') (h : Moving i sid cur new row t) :
    Moving i sid cur new row t' := by
  obtain ⟨hw, hp, -⟩ := hR
  obtain ⟨hrow, hlog, hst⟩ := hp sid h.writer
  refine ⟨(hw sid).2 h.writer, fun sid' h' => h.only sid' ((hw sid').1 h'), hrow.trans h.row,
    hlog.trans h.log, ?_⟩
  rcases hst with hst | hst
  · rw [hst]; exact h.state
  · exact .inr hst

variable {new : StrategyState}

lemma hset_move (hm : Machine.transition cur ev = .ok new) (hJ : Settled t) (h : Fresh i t)
    (hs : sound i (.hsetState sid new (some cur)) e t) :
    let r := perform i (.hsetState sid new (some cur)) e t.store
    Fresh i (t.mark i sid r.2) ∨ (r.1 = .ok () ∧ Moving i sid cur new cur (t.mark i sid r.2)) := by
  rcases sound_hset hJ hs with hp | ⟨hf, hw, hrow⟩
  · exact .inl (h.quiet hJ hp)
  · simp only [reduceCtorEq, false_or] at hrow
    obtain ⟨-, hlog⟩ := hJ sid hw
    have hne := Machine.transition_ne hm
    simp only [perform, reply, hf]
    refine .inr ⟨trivial, ?_, ?_, hrow, hlog.symm.trans hrow, .inl (by simp [Traced.mark])⟩
    · -- Redis is ahead of the row
      simp [Traced.mark, hw, Agree, view, hrow, hne]
    · intro sid' hw'
      by_contra hs'
      simp only [Traced.mark, Function.update_of_ne hs'] at hw'
      exact h.1 sid' hw'

lemma setStatus_move (hm : Machine.transition cur ev = .ok new) (h : Moving i sid cur new cur t)
    (hs : sound i (.setStatus sid new) e t) :
    let r := perform i (.setStatus sid new) e t.store
    r.1 = .ok () ∧ Moving i sid cur new new (t.mark i sid r.2) := by
  simp only [sound, h.writer, if_true, decide_eq_true_eq] at hs
  have hne := Machine.transition_ne hm
  simp only [perform, reply, hs, Store.setStatus, h.row, Option.isSome_some, if_true]
  refine ⟨trivial, ?_, ?_, by simp [Traced.mark], h.log, h.state⟩
  · simp [Traced.mark, h.writer, Agree, h.log, hne]
  · intro sid' hw'
    by_contra hs'
    simp only [Traced.mark, Function.update_of_ne hs'] at hw'
    exact hs' (h.only sid' hw')

lemma appendEvent_move (hm : Machine.transition cur ev = .ok new)
    (h : Moving i sid cur new new t) (hs : sound i (.appendEvent sid (.event ev)) e t) :
    let r := perform i (.appendEvent sid (.event ev)) e t.store
    r.1 = .ok () ∧ Idle i (t.mark i sid r.2) := by
  simp only [sound, h.writer, if_true, decide_eq_true_eq] at hs
  simp only [perform, reply, hs]
  refine ⟨trivial, ?_⟩
  intro sid'
  by_cases hs' : sid' = sid
  · subst hs'
    have hv : view t.store sid' = some new := by
      rcases h.state with hst | hst <;> simp [view, hst, h.row]
    have : Agree { t.store with log := t.store.log ++ [(sid', .event ev)] } sid' := by
      refine ⟨hv.trans h.row.symm, ?_⟩
      simp [replay_append, replayEntry, h.log, hm, h.row, Except.toOption]
    simp [Traced.mark, h.writer, this]
  · simp only [Traced.mark, Function.update_of_ne hs']
    exact fun hw => hs' (h.only sid' hw)

def transitionPost {α : Type} (i : ℕ) (r : Except Exc α) (t : Traced) : Prop :=
  Idle i t ∧ ∀ x, r = .error x → i ∉ t.changed

lemma Fresh.post {α : Type} (h : Fresh i t) (r : Except Exc α) : transitionPost i r t :=
  ⟨h.1, fun _ _ => h.2⟩

lemma dbWrites_safe (hm : Machine.transition cur ev = .ok new) (h : Fresh i t ∨ Moving i sid cur new cur t) :
    Safe (proto i) (transitionPost i)
      ((ask (.setStatus sid new)).bind fun _ => ask (.appendEvent sid (.event ev))) t := by
  refine Safe.bind_iff.2 (ask_write rfl ?_)
  intro t₁ e hR hJ hs
  have h₁ : Fresh i t₁ ∨ Moving i sid cur new cur t₁ := h.imp (·.rely hR) (·.rely hR)
  have h₂ : Fresh i (t₁.mark i sid (perform i (.setStatus sid new) e t₁.store).2) ∨
      ((perform i (.setStatus sid new) e t₁.store).1 = .ok () ∧
        Moving i sid cur new new (t₁.mark i sid (perform i (.setStatus sid new) e t₁.store).2)) := by
    rcases h₁ with h₁ | h₁
    · exact .inl (h₁.quiet hJ (places_of_part (sound_quiet rfl hs (h₁.1 sid) (by simp))))
    · exact .inr (setStatus_move hm h₁ hs)
  cases hr : (perform i (.setStatus sid new) e t₁.store).1 with
  | error x =>
    rcases h₂ with h₂ | ⟨hok, -⟩
    · exact h₂.post _
    · rw [hr] at hok; cases hok
  | ok u =>
    refine ask_write rfl ?_
    intro t₃ e hR hJ hs
    rcases h₂ with h₂ | ⟨-, h₂⟩
    · have h₃ := h₂.rely hR
      exact (h₃.quiet hJ (places_of_part (sound_quiet rfl hs (h₃.1 sid) (by simp)))).post _
    · obtain ⟨hok, hid⟩ := appendEvent_move hm (h₂.rely hR) hs
      refine ⟨hid, ?_⟩
      intro x hx
      rw [hok] at hx
      cases hx

lemma transition_safe (h : Fresh i t) : Safe (proto i) (transitionPost i) (transition sid ev) t := by
  refine Safe.bind_iff.2 (Safe.tryExcept_iff.2 ((get_safe h).mono ?_))
  intro r t₁ h₁
  cases r with
  | error x => cases x <;> exact h₁.post _
  | ok current =>
    cases current with
    | none => exact h₁.post _
    | some cur =>
      simp only [Coro.bind_eq]
      cases hm : Machine.transition cur ev with
      | error x => exact h₁.post _
      | ok new =>
        simp only [Coro.ofExcept_ok, Coro.bind_ret, exceptRedis]
        refine Safe.bind_iff.2 (Safe.tryExcept_iff.2 (ask_write rfl ?_))
        intro t₂ e hR hJ hs
        have h₂ := hset_move hm hJ (h₁.rely hR) hs
        cases hr : (perform i (.hsetState sid new (some cur)) e t₂.store).1 with
        | error x =>
          rcases h₂ with h₂ | ⟨hok, -⟩
          · cases x <;> exact h₂.post _
          · rw [hr] at hok; cases hok
        | ok u =>
          refine Safe.bind_iff.2 (Safe.tryExcept_iff.2 ((dbWrites_safe hm ?_).mono ?_))
          · exact h₂.imp id And.right
          · intro r t₃ h₃
            cases r with
            | error x => exact ⟨h₃.1, fun _ _ => h₃.2 x rfl⟩
            | ok u => exact ⟨h₃.1, fun x hx => by cases hx⟩

def Creating (i : ℕ) (sid : String) (inserted : Bool) (t : Traced) : Prop :=
  ∀ sid', t.writer sid' = some i → sid' = sid ∧
    (t.store.state sid = some .queued ∨ t.store.state sid = none) ∧
    (inserted = true → t.store.row sid = some .queued)

lemma Creating.rely (hR : Rely i t t') (h : Creating i sid b t) : Creating i sid b t' := by
  intro sid' hw
  obtain ⟨hw', hp, -⟩ := hR
  obtain ⟨rfl, hst, hrow⟩ := h sid' ((hw' sid').1 hw)
  obtain ⟨hr', -, hst'⟩ := hp sid' ((hw' sid').1 hw)
  refine ⟨rfl, ?_, fun hb => hr'.trans (hrow hb)⟩
  rcases hst' with hst' | hst'
  · rw [hst']; exact hst
  · exact .inr hst'

lemma Idle.creating (h : Idle i t) : Creating i sid b t :=
  fun sid' hw => absurd hw (h sid')

lemma Creating.idle (h : Creating i sid b t) (hw : t.writer sid ≠ some i) : Idle i t :=
  fun sid' hw' => hw ((h sid' hw').1 ▸ hw')

lemma hset_create (hJ : Settled t) (h : Idle i t) (hs : sound i (.hsetState sid .queued none) e t) :
    let r := perform i (.hsetState sid .queued none) e t.store
    Idle i (t.mark i sid r.2) ∨ (r.1 = .ok () ∧ Creating i sid false (t.mark i sid r.2)) := by
  rcases sound_hset hJ hs with hp | ⟨hf, hw, -⟩
  · exact .inl (h.quiet hJ hp)
  · simp only [perform, reply, hf]
    refine .inr ⟨trivial, ?_⟩
    intro sid' hw'
    by_cases hs' : sid' = sid
    · exact ⟨hs', .inl (by simp [Traced.mark]), by simp⟩
    · simp only [Traced.mark, Function.update_of_ne hs'] at hw'
      exact absurd hw' (h sid')

lemma insertRow_create (hJ : Settled t) (h : Creating i sid false t) (hs : sound i (.insertRow sid) e t) :
    let r := perform i (.insertRow sid) e t.store
    Idle i (t.mark i sid r.2) ∨ (r.1 = .ok () ∧ Creating i sid true (t.mark i sid r.2)) := by
  by_cases hw : t.writer sid = some i
  · obtain ⟨-, hst, -⟩ := h sid hw
    simp only [sound, hw, if_true, Bool.and_eq_true, Bool.or_eq_true, decide_eq_true_eq] at hs
    obtain ⟨hf, hfr⟩ := hs
    have hins : ¬ (t.store.dbKind ≠ .memory ∧ (t.store.row sid).isSome) := by
      rcases hfr with hk | hk <;> simp [hk]
    simp only [perform, hf, Store.insertRow, hins, if_false]
    refine .inr ⟨trivial, ?_⟩
    intro sid' hw'
    by_cases hs' : sid' = sid
    · exact ⟨hs', hst, fun _ => by simp [Traced.mark]⟩
    · simp only [Traced.mark, Function.update_of_ne hs'] at hw'
      exact absurd (h sid' hw').1 hs'
  · have hi := h.idle hw
    exact .inl (hi.quiet hJ (places_of_part (sound_quiet rfl hs hw (by simp))))

lemma appendInit_create (hJ : Settled t) (h : Creating i sid true t)
    (hs : sound i (.appendEvent sid (.init .queued)) e t) :
    Idle i (t.mark i sid (perform i (.appendEvent sid (.init .queued)) e t.store).2) := by
  by_cases hw : t.writer sid = some i
  · obtain ⟨-, hst, hrow⟩ := h sid hw
    have hrow := hrow rfl
    simp only [sound, hw, if_true, decide_eq_true_eq] at hs
    have hs' : (perform i (.appendEvent sid (.init .queued)) e t.store).2 =
        { t.store with log := t.store.log ++ [(sid, .init .queued)] } := by
      cases hf : e.fate <;> simp_all [perform, reply]
    rw [hs']
    intro sid' hw'
    by_cases hne : sid' = sid
    · subst hne
      have hv : view t.store sid' = some .queued := by
        rcases hst with hst | hst <;> simp [view, hst, hrow]
      have : Agree { t.store with log := t.store.log ++ [(sid', .init .queued)] } sid' := by
        refine ⟨hv.trans hrow.symm, ?_⟩
        simp [replay_append, replayEntry, hrow]
      simp [Traced.mark, hw, this] at hw'
    · simp only [Traced.mark, Function.update_of_ne hne] at hw'
      exact hne (h sid' hw').1
  · have hi := h.idle hw
    exact hi.quiet hJ (places_of_part (sound_quiet rfl hs hw (by simp)))

lemma create_safe (h : Idle i t) : Safe (proto i) (fun _ t => Idle i t) (create sid) t := by
  refine Safe.bind_iff.2 (Safe.tryExcept_iff.2 (ask_write rfl ?_))
  intro t₁ e hR hJ hs
  have h₁ := hset_create hJ (h.rely hR) hs
  cases hr : (perform i (.hsetState sid .queued none) e t₁.store).1 with
  | error x =>
    rcases h₁ with h₁ | ⟨hok, -⟩
    · cases x <;> exact h₁
    · rw [hr] at hok; cases hok
  | ok u =>
    have h₁ : Creating i sid false _ := h₁.elim Idle.creating And.right
    refine Safe.tryExcept_iff.2 (Safe.bind_iff.2 (Safe.bind_iff.2 (ask_write rfl ?_)))
    intro t₂ e hR hJ hs
    have h₂ := insertRow_create hJ (h₁.rely hR) hs
    cases hr : (perform i (.insertRow sid) e t₂.store).1 with
    | error x =>
      rcases h₂ with h₂ | ⟨hok, -⟩
      · exact h₂
      · rw [hr] at hok; cases hok
    | ok u =>
      have h₂ : Creating i sid true _ := h₂.elim Idle.creating And.right
      refine ask_write rfl ?_
      intro t₃ e hR hJ hs
      have h₃ := appendInit_create hJ (h₂.rely hR) hs
      cases (perform i (.appendEvent sid (.init .queued)) e t₃.store).1 with
      | error x => exact h₃
      | ok u =>
        -- the second entry says the same again
        refine ask_write rfl ?_
        intro t₄ e hR hJ hs
        have h₄ : Creating i sid true t₄ := (h₃.rely hR).creating
        have := appendInit_create hJ h₄ hs
        cases (perform i (.appendEvent sid (.init .queued)) e t₄.store).1 <;> exact this

end Programs

/-! ### Runs -/

def post (i : ℕ) : Call → Except Exc Ret → Traced → Prop
  | .transition _ _, r, t => transitionPost i r t
  | _, _, t => Idle i t

variable {i : ℕ} {t : Traced}

lemma post_idle {a : Call} {r : Except Exc Ret} (h : post i a r t) : Idle i t := by
  cases a
  case transition => exact h.1
  all_goals exact h

lemma post_stable {a : Call} {r : Except Exc Ret} {t' : Traced} (hR : Rely i t t') (h : post i a r t) :
    post i a r t' := by
  cases a
  case transition => exact ⟨h.1.rely hR, fun x hx hc => h.2 x hx (hR.2.2.1 hc)⟩
  all_goals exact Idle.rely hR h

lemma code_safe (a : Call) (h : Fresh i t) : Safe (proto i) (post i a) (code a) t := by
  cases a with
  | create sid =>
    exact Safe.bind_iff.2 ((create_safe h.1).mono fun r t h => by cases r <;> exact h)
  | transition sid ev =>
    refine Safe.bind_iff.2 (transition_safe h |>.mono ?_)
    intro r t h
    cases r with
    | error x => exact ⟨h.1, fun _ _ => h.2 x rfl⟩
    | ok st => exact ⟨h.1, fun x hx => by cases hx⟩
  | get sid =>
    exact Safe.bind_iff.2 ((get_safe h).mono fun r t h => by cases r <;> exact h.1)

lemma forget_step (sid : String) (hJ : Settled t) : Settled (forget sid t) ∧ ∀ i, Rely i t (forget sid t) := by
  have hst : ∀ sid', (forget sid t).store.state sid' = t.store.state sid' ∨
      (forget sid t).store.state sid' = none := by
    intro sid'
    by_cases h : sid' = sid
    · subst h; right; simp [forget]
    · left; simp [forget, Function.update_of_ne h]
  refine ⟨?_, fun i => ⟨fun _ => Iff.rfl, fun sid' _ => ⟨rfl, rfl, hst sid'⟩, Iff.rfl⟩⟩
  intro sid' hw
  obtain ⟨hv, hl⟩ := hJ sid' hw
  refine ⟨view_eq_row.2 ?_, hl⟩
  rcases hst sid' with h | h
  · rw [h]; exact view_eq_row.1 hv
  · exact .inl h

def RecordedCalls (ls : List Call) (t : Traced) : Prop :=
  ∀ i, ((∃ sid, t.writer sid = some i) ∨ i ∈ t.changed) → i < ls.length

lemma composes (kind : DbKind) : System.Composes system (fun c ev => soundStep c ev) (init kind)
    (fun i _ => proto i) Settled RecordedCalls post where
  inv _ _ := rfl
  perform _ _ := rfl
  calls := rfl
  init := ⟨fun sid _ => ⟨rfl, rfl⟩, fun i hi => by simp [init] at hi⟩
  ok c i e a o k _ hP hi := by
    simp only [soundStep, hi] at hP
    exact hP
  stable _ _ _ _ _ := post_stable
  start c a _ _ _ hI := by
    refine ⟨?_, code_safe a ⟨?_, ?_⟩⟩
    · intro i hi
      have := hI i hi
      simp only [List.length_append, List.length_singleton]
      omega
    · intro sid hw
      have := hI _ (.inl ⟨sid, hw⟩)
      simp [Config.labels] at this
    · intro hc
      have := hI _ (.inr hc)
      simp [Config.labels] at this
  disturb c x _ _ hJ hI := ⟨(forget_step x hJ).1, hI, fun i _ _ => (forget_step x hJ).2 i⟩
  keep ls i a t t' _ hI hi hG _ := by
    intro j hj
    by_cases hji : j = i
    · exact hji ▸ (List.getElem?_eq_some_iff.mp hi).1
    · obtain ⟨hw, -, hc⟩ := hG j hji
      refine hI j ?_
      rcases hj with ⟨sid, hsid⟩ | hch
      · exact .inl ⟨sid, (hw sid).1 hsid⟩
      · exact .inr (hc.1 hch)
  others ls i j a b t t' _ _ _ _ hij hG _ := hG j (Ne.symm hij)

lemma getFromDatabase_answer {s : Store} {sid : String} {es : List Env} {v : Option StrategyState}
    (hr : (Coro.run (perform 0) Env.ok es (getFromDatabase sid) s).1 = .ok v) : v = s.row sid := by
  simp only [getFromDatabase, exceptRedis, ask, Coro.perform, Coro.bind_eq, Coro.tryExcept_await,
    Coro.bind_await, Coro.run] at hr
  cases hf : (es.headD Env.ok).fate
  case ok =>
    simp only [perform, reply, hf] at hr
    cases hrow : s.row sid with
    | none => simpa [hrow, Coro.run, eq_comm] using hr
    | some st =>
      simp only [hrow, Coro.ofExcept_ok, Coro.tryExcept_ret, Coro.bind_ret, Coro.run] at hr
      cases hf' : (es.tail.headD Env.ok).fate <;> simp only [perform, reply, hf'] at hr <;>
        exact (Except.ok.inj hr).symm
  all_goals
    simp only [perform, reply, hf] at hr
    cases hr

lemma get_answer {s : Store} {sid : String} {es : List Env} {v : Option StrategyState}
    (h : Agree s sid) (hr : (Coro.run (perform 0) Env.ok es (get sid) s).1 = .ok v) : v = s.row sid := by
  simp only [Fsm.get, exceptRedis, ask, Coro.perform, Coro.bind_eq, Coro.tryExcept_await, Coro.bind_await,
    Coro.run] at hr
  cases hf : (es.headD Env.ok).fate
  case ok =>
    simp only [perform, reply, hf] at hr
    cases hst : s.state sid with
    | none =>
      simp only [hst, Coro.ofExcept_ok, Coro.tryExcept_ret, Coro.bind_ret] at hr
      exact getFromDatabase_answer hr
    | some st =>
      have hv : v = some st := by simpa [hst, Coro.run, eq_comm] using hr
      rcases view_eq_row.1 h.1 with h' | h'
      · rw [hst] at h'; cases h'
      · rw [hv, ← hst, h']
  all_goals
    simp only [perform, reply, hf, Coro.ofExcept_error, Coro.tryExcept_raise, Coro.pure_eq,
      Coro.bind_ret] at hr
    exact getFromDatabase_answer hr

/-- **The three stores agree in every run whose writes are sound**, with any calls on any strategies
interleaved, any failures of reads and any losses of Redis state. -/
theorem agree_of_sound {kind : DbKind} {c : Cfg}
    (h : system.Run (fun c ev => soundStep c ev = true) (init kind) c) : StoresAgree c := by
  obtain ⟨hJ, hI, hsafe⟩ := h.safe (composes kind)
  constructor
  · intro hfin sid es v hr
    have hw : c.store.writer sid = none := by
      rw [Option.eq_none_iff_forall_ne_some]
      intro i hw
      -- a call on record as the writer has not finished
      obtain ⟨a, m, hget⟩ := Config.exists_call (hI i (.inl ⟨sid, hw⟩))
      have hm := hfin _ (List.mem_of_getElem? hget)
      cases m with
      | await o k => simp [finished] at hm
      | ret r => exact post_idle (hsafe i a _ hget) sid hw
      | raise x => exact post_idle (hsafe i a _ hget) sid hw
    have hv := get_answer (hJ sid hw) hr
    exact ⟨hv, hv.trans (hJ sid hw).2⟩
  · intro i sid ev x hi
    exact (hsafe i _ _ hi).2 x rfl

/-- A strategy created and moved on by one `transition`. -/
theorem agree_of_sound_process : ∃ c, system.Run (fun c ev => soundStep c ev = true) (init .postgres) c ∧
      c.store.store.row "s" = some .processing ∧ StoresAgree c := by
  obtain ⟨c, hrun, hq⟩ := exists_run system.step (init .postgres) soundStep
    [.start (.create "s"), .resume 0 .ok, .resume 0 .ok, .resume 0 .ok, .resume 0 .ok,
      .start (.transition "s" .process), .resume 1 .ok, .resume 1 .ok, .resume 1 .ok, .resume 1 .ok]
    (fun c => c.store.store.row "s" = some .processing) (by decide)
  exact ⟨c, hrun, by simpa using hq, agree_of_sound hrun⟩

/-- **One failed database write parts the stores for good.** The status update of a `transition` is
lost: the call raises, Redis and `get` say `processing`, the row says `queued`. -/
theorem stores_part : ∃ c, execIf system.step (fun _ _ => true) (init .postgres)
    [.start (.create "s"), .resume 0 .ok, .resume 0 .ok, .resume 0 .ok, .resume 0 .ok,
      .start (.transition "s" .process), .resume 1 .ok, .resume 1 .ok, .resume 1 ⟨.lost, 0, true⟩] =
      some c ∧ ¬ StoresAgree c := by
  refine exists_execIf (fun c => decide ((∀ x ∈ c.calls, finished x.2) ∧ c.store.store.row "s" = some .queued) &&
      match (Coro.run (perform 0) Env.ok [] (get "s") c.store.store).1 with
      | .ok v => v = some .processing
      | .error _ => false) (by decide) ?_
  intro c hq hall
  simp only [Bool.and_eq_true, decide_eq_true_eq] at hq
  obtain ⟨⟨hfin, hrow⟩, hget⟩ := hq
  split at hget
  · rename_i v hv
    have := (hall.1 hfin "s" [] v hv).1
    rw [hrow] at this
    simp [this] at hget
  · simp at hget

end Qmtl.Gateway.FsmStores

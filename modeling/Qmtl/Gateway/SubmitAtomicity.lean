import Qmtl.Gateway.StrategyManager

/-! Submissions interleaved with each other: what a submission leaves behind when it raises, and what
it promises when it returns.

A submission owns what is stored under its own id. -/

namespace Qmtl.Gateway.SubmitAtomicity

open Lib Gateway.StrategyManager

abbrev Cfg := Config Op Op.Ans Exc (String × Bool) Store Submission
abbrev Ev := Event Env (Option Degradation) Submission

def may (c : Cfg) : Ev → Bool
  | .start sub => c.calls.all fun x => x.1.sid ≠ sub.sid
  | _ => true

def system : System Op Op.Ans Exc (String × Bool) Store Env (Option Degradation) Submission where
  code := submit
  perform := perform
  disturb d s := { s with degradation := d }
  may := may

def init (kind : DbKind) : Cfg := ⟨{ Store.empty with dbKind := kind }, []⟩

/-! ### What is promised -/

def Stored (s : Store) (x : String) : Prop := (s.field x .dag).isSome

def Listed (s : Store) (x : String) : Prop := ∃ o ∈ s.list, o.item = x

def Queued (s : Store) (x : String) : Prop := (∃ o ∈ s.pushed, o.item = x) ∨ x ∈ s.localQueue

def WillEnqueue (x : String) {α : Type} : Gw α → Prop
  | .ret _ => False
  | .raise _ => False
  | .await (.rpush y) _ => y = x
  | .await (.localAppend y) k => y = x ∧ WillEnqueue x (k (.ok false))
  | .await _ k => ∀ a, WillEnqueue x (k (.ok a))

/-- **All or nothing**: a submission that raised has left nothing of its id, and an id that was returned is stored and is
enqueued, or will be. -/
def AllOrNothing (c : Cfg) : Prop :=
  (∀ (i : ℕ) (sub : Submission) e, c.calls[i]? = some (sub, .raise e) →
    c.store.dagHash sub.hash ≠ some sub.sid ∧ (∀ f, c.store.field sub.sid f = none) ∧
      c.store.state sub.sid = none ∧ ¬ Listed c.store sub.sid ∧ ¬ Queued c.store sub.sid) ∧
  ∀ (i : ℕ) (sub : Submission) x existed, c.calls[i]? = some (sub, .ret (x, existed)) →
    Stored c.store x ∧ (Queued c.store x ∨
      ∃ (j : ℕ) (sub' : Submission) (m : _), c.calls[j]? = some (sub', m) ∧ sub'.sid = x ∧ WillEnqueue x m)

def reliable (s : Store) (x : String) : Bool := (s.field x .dag).isSome && x ∉ s.doomed

def steady (o : Op) (e : Env) (s : Store) : Bool :=
  match o with
  | .evalDedupe hash _ _ =>
    match e.fate with
    | .ok => (s.dagHash hash).all (reliable s)
    | .lost => true
    | .torn => (s.dagHash hash).isSome
  | .getDagHash hash again => e.fate ≠ .ok ||
    match s.dagHash hash with
    | some x => reliable s x
    | none => !again
  | .setDagHash hash _ => e.fate ≠ .torn || (s.dagHash hash).isSome
  | .publishSubmission sid => e.fate = .ok || sid ∉ s.told
  | .rpush sid => e.fate = .ok || (e.fate = .lost && sid ∉ s.told)
  | .insertRow sid => e.fate = .ok && (s.dbKind = .memory || (s.row sid).isNone)
  | .hset _ _ | .delDagHash _ | .delStrategy _ | .hsetState _ _ _ | .appendEvent _ _ => e.fate = .ok
  | _ => true

def steadyStep (c : Cfg) : Ev → Bool
  | .resume i e =>
    match c.calls[i]? with
    | some (_, .await o _) => steady o e c.store
    | _ => true
  | _ => true

/-! ### The protocol of a submission -/

structure SameFor (x : String) (s s' : Store) : Prop where
  named : ∀ h, s'.dagHash h = some x ↔ s.dagHash h = some x
  field : s'.field x = s.field x
  state : s'.state x = s.state x
  listed : Listed s' x ↔ Listed s x
  queued : Queued s' x ↔ Queued s x
  doomed : x ∈ s'.doomed ↔ x ∈ s.doomed
  told : x ∈ s'.told → x ∈ s.told ∨ ((∃ h, s.dagHash h = some x) ∧ Stored s x ∧ x ∉ s.doomed)

lemma SameFor.refl (x : String) (s : Store) : SameFor x s s :=
  ⟨fun _ => Iff.rfl, rfl, rfl, Iff.rfl, Iff.rfl, Iff.rfl, .inl⟩

lemma SameFor.trans {x : String} {s t u : Store} (h : SameFor x s t) (h' : SameFor x t u) :
    SameFor x s u where
  named k := (h'.named k).trans (h.named k)
  field := h'.field.trans h.field
  state := h'.state.trans h.state
  listed := h'.listed.trans h.listed
  queued := h'.queued.trans h.queued
  doomed := h'.doomed.trans h.doomed
  told hx := by
    rcases h'.told hx with hx | ⟨⟨k, hk⟩, hst, hd⟩
    · exact h.told hx
    · refine .inr ⟨⟨k, (h.named k).1 hk⟩, ?_, fun hx => hd (h.doomed.2 hx)⟩
      unfold Stored at hst ⊢
      rwa [h.field] at hst

def beforeQueue : Op → Bool
  | .publishSubmission _ | .localAppend _ | .rpush _ => true
  | _ => false

def proto (i : ℕ) (sub : Submission) : Protocol Op Op.Ans Exc Store Env where
  perform := perform i
  Ok o e s := steady o e s = true
  J _ := True
  Rely s s' := SameFor sub.sid s s' ∧ s.told ⊆ s'.told
  Guar s s' := (∀ x, x ≠ sub.sid → SameFor x s s') ∧ s.told ⊆ s'.told
  At o s := sub.sid ∈ s.told → Stored s sub.sid ∧ (Queued s sub.sid ∨ beforeQueue o = true)
  rely_refl s := ⟨.refl _ s, fun _ h => h⟩
  rely_trans h h' := ⟨h.1.trans h'.1, fun _ hx => h'.2 (h.2 hx)⟩

section Frame

variable {x : String} {s s' : Store}

lemma SameFor.of_eq (h1 : ∀ h, s'.dagHash h = some x ↔ s.dagHash h = some x)
    (h2 : s'.field x = s.field x) (h3 : s'.state x = s.state x) (h4 : s'.list = s.list)
    (h5 : s'.pushed = s.pushed) (h6 : s'.localQueue = s.localQueue) (h7 : x ∈ s'.doomed ↔ x ∈ s.doomed)
    (h8 : s'.told = s.told) : SameFor x s s' :=
  ⟨h1, h2, h3, by simp [Listed, h4], by simp [Queued, h5, h6], h7, by rw [h8]; exact .inl⟩

lemma SameFor.hset {sid : String} {fs : List (Field × String)} (hx : x ≠ sid) : SameFor x s (s.hset sid fs) :=
  .of_eq (fun _ => Iff.rfl) (by simp [Store.hset, Function.update_of_ne hx]) rfl rfl rfl rfl Iff.rfl rfl

lemma SameFor.noteFate {sid : String} {f : Fate} (hx : x ≠ sid) : SameFor x s (s.noteFate f sid) := by
  unfold Store.noteFate
  split
  · exact .refl x s
  · exact .of_eq (fun _ => Iff.rfl) rfl rfl rfl rfl rfl (by simp [hx]) rfl

lemma SameFor.tell {hash : String} {f : Fate} (hr : f = .ok → ∀ y ∈ s.dagHash hash, reliable s y) :
    SameFor x s (s.tell f (s.dagHash hash).toList) := by
  unfold Store.tell
  split
  · rename_i hf
    refine ⟨fun _ => Iff.rfl, rfl, rfl, Iff.rfl, Iff.rfl, Iff.rfl, ?_⟩
    intro hx
    rcases List.mem_append.mp hx with hx | hx
    · have hd : s.dagHash hash = some x := by simpa using hx
      have := hr hf x hd
      simp only [reliable, Bool.and_eq_true, decide_eq_true_eq] at this
      exact .inr ⟨⟨hash, hd⟩, this.1, this.2⟩
    · exact .inl hx
  · exact .refl x s

end Frame

def Spares (sub : Submission) (s s' : Store) : Prop :=
  (∀ x, x ≠ sub.sid → SameFor x s s') ∧ s.told ⊆ s'.told

section Spares

variable {sub : Submission} {s s' : Store}

lemma Spares.refl (s : Store) : Spares sub s s := ⟨fun x _ => .refl x s, fun _ h => h⟩

lemma Spares.trans {t : Store} (h : Spares sub s t) (h' : Spares sub t s') : Spares sub s s' :=
  ⟨fun x hx => (h.1 x hx).trans (h'.1 x hx), fun _ hx => h'.2 (h.2 hx)⟩

lemma Spares.reply {α : Type} {x : Exc} {f : Fate} {a : α} {sL : Store} (hL : Spares sub s sL)
    (h : f ≠ .lost → Spares sub s s') : Spares sub s (reply x f sL a s').2 := by
  cases f with
  | ok => exact h (by simp)
  | lost => exact hL
  | torn => exact h (by simp)

lemma Spares.noteFate {f : Fate} : Spares sub s (s.noteFate f sub.sid) := by
  refine ⟨fun x hx => .noteFate hx, ?_⟩
  unfold Store.noteFate
  split <;> exact fun _ h => h

lemma Spares.tell {hash : String} {f : Fate} (hr : f = .ok → ∀ y ∈ s.dagHash hash, reliable s y) :
    Spares sub s (s.tell f (s.dagHash hash).toList) := by
  refine ⟨fun x _ => .tell hr, ?_⟩
  intro y hy
  unfold Store.tell
  split
  · exact List.mem_append_right _ hy
  · exact hy

lemma Spares.dagHash {v : Option String} (hv : ∀ y ∈ v, y = sub.sid) (h : ∀ y ∈ s.dagHash sub.hash, y = sub.sid) :
    Spares sub s { s with dagHash := Function.update s.dagHash sub.hash v } := by
  refine ⟨fun x hx => .of_eq ?_ rfl rfl rfl rfl rfl Iff.rfl rfl, fun _ h => h⟩
  intro k
  by_cases hk : k = sub.hash
  · subst hk
    simp only [Function.update_self]
    exact ⟨fun hx' => absurd (hv x hx') hx, fun hx' => absurd (h x hx') hx⟩
  · simp [Function.update_of_ne hk]

lemma Spares.hset {fs : List (Field × String)} : Spares sub s (s.hset sub.sid fs) :=
  ⟨fun _ hx => .hset hx, fun _ h => h⟩

lemma Spares.rpush : Spares sub s (s.rpush sub.sid) := by
  refine ⟨fun x hx => ⟨fun _ => Iff.rfl, rfl, rfl, ?_, ?_, Iff.rfl, .inl⟩, fun _ h => h⟩
  · simp [Listed, Store.rpush, or_and_right, exists_or, Ne.symm hx]
  · simp [Queued, Store.rpush, or_and_right, exists_or, Ne.symm hx]

lemma own_spares {i : ℕ} {o : Op} {e : Env} (ho : Own sub o) (hs : steady o e s)
    (hdel : o = .delDagHash sub.hash → s.dagHash sub.hash = some sub.sid) : Spares sub s (perform i o e s).2 := by
  cases ho with
  | eval =>
    refine .reply (.refl s) ?_
    intro hl
    cases hd : s.dagHash sub.hash with
    | some y =>
      simp only [Store.dedupe, hd]
      have : Spares sub s (s.tell e.fate (s.dagHash sub.hash).toList) := .tell fun hf y' hy' => by
        simp only [steady, hf, hd, Option.all_some] at hs
        rw [hd] at hy'
        cases hy'
        exact hs
      rwa [hd] at this
    | none =>
      simp only [Store.dedupe, hd, Option.toList_none, Store.tell, List.nil_append]
      have h1 : Spares sub s (s.hset sub.sid [(.dag, sub.dag), (.hash, sub.hash)]) := .hset
      have h2 := h1.trans (Spares.dagHash (v := some sub.sid) (by simp) (by simp [Store.hset, hd]))
      split <;> exact h2
  | get again =>
    refine .reply (.refl s) fun _ => .tell ?_
    intro hf y hy
    simpa [steady, hf, Option.mem_def.mp hy] using hs
  | set =>
    refine .reply (.refl s) ?_
    intro _
    split
    · rename_i hn
      exact .dagHash (by simp) (by simp [Option.isNone_iff_eq_none.mp hn])
    · exact .refl s
  | hset fs => exact .reply (.refl s) fun _ => .hset
  | publish =>
    refine .reply .noteFate fun _ => Spares.noteFate.trans ⟨?_, fun _ h => h⟩
    intro x _
    exact .of_eq (fun _ => Iff.rfl) rfl rfl rfl rfl rfl Iff.rfl rfl
  | keep =>
    simp only [perform]
    split
    · refine ⟨fun x hx => ⟨fun _ => Iff.rfl, rfl, rfl, Iff.rfl, ?_, Iff.rfl, .inl⟩, fun _ h => h⟩
      simp [Queued, hx]
    · exact .refl s
  | push => exact .reply .noteFate fun _ => Spares.rpush.trans .noteFate
  | delDagHash => exact .reply (.refl s) fun _ => .dagHash (by simp) (by simp [hdel rfl])
  | delStrategy =>
    refine .reply (.refl s) fun _ => ⟨?_, fun _ h => h⟩
    intro x hx
    exact .of_eq (fun _ => Iff.rfl) (by simp [Function.update_of_ne hx])
      (by simp [Function.update_of_ne hx]) rfl rfl rfl Iff.rfl rfl
  | hsetState st seen =>
    refine .reply (.refl s) fun _ => ⟨?_, fun _ h => h⟩
    intro x hx
    exact .of_eq (fun _ => Iff.rfl) rfl (by simp [Function.update_of_ne hx]) rfl rfl rfl Iff.rfl rfl
  | insertRow =>
    have h : Spares sub s (s.insertRow sub.sid).2 := by
      unfold Store.insertRow
      split
      · exact .refl s
      · exact ⟨fun x _ => .of_eq (fun _ => Iff.rfl) rfl rfl rfl rfl rfl Iff.rfl rfl, fun _ h => h⟩
    cases hf : e.fate <;> simp [perform, hf]
    exacts [h, .refl s, h]
  | append y =>
    exact .reply (.refl s) fun _ =>
      ⟨fun x _ => .of_eq (fun _ => Iff.rfl) rfl rfl rfl rfl rfl Iff.rfl rfl, fun _ h => h⟩

end Spares

/-! ### The stages of a submission -/

/-- How far a submission has come: nothing of it is stored, its id is under the hash, its DAG is
stored too, it met an error on its way into the queue, the rollback has freed the hash, it is in
the queue. -/
inductive Stage where
  | gone | fresh | named | stored | failed | freed | queued

section Stages

variable (sub : Submission) (s : Store)

def Unnamed : Prop := ∀ h, s.dagHash h ≠ some sub.sid
def Named : Prop := ∀ h, s.dagHash h = some sub.sid ↔ h = sub.hash
def Blank : Prop := s.state sub.sid = none ∧ ¬ Listed s sub.sid ∧ ¬ Queued s sub.sid
def NoFields : Prop := ∀ f, s.field sub.sid f = none

def Stage.Holds : Stage → Prop
  | .gone => Unnamed sub s ∧ NoFields sub s ∧ Blank sub s ∧ sub.sid ∉ s.told
  | .fresh => Unnamed sub s ∧ NoFields sub s ∧ Blank sub s ∧ sub.sid ∉ s.told ∧ sub.sid ∉ s.doomed
  | .named => Named sub s ∧ NoFields sub s ∧ Blank sub s ∧ sub.sid ∉ s.told ∧ sub.sid ∉ s.doomed
  | .stored => Named sub s ∧ Stored s sub.sid ∧ Blank sub s ∧ sub.sid ∉ s.doomed
  | .failed => Named sub s ∧ Blank sub s ∧ sub.sid ∉ s.told ∧ sub.sid ∈ s.doomed
  | .freed => Unnamed sub s ∧ Blank sub s ∧ sub.sid ∉ s.told
  | .queued => Stored s sub.sid ∧ Queued s sub.sid

end Stages

section Rely

variable {sub : Submission} {s s' : Store}

lemma SameFor.blank (h : SameFor sub.sid s s') : Blank sub s' ↔ Blank sub s := by
  simp [Blank, h.state, h.listed, h.queued]

lemma SameFor.namedIff (h : SameFor sub.sid s s') : Named sub s' ↔ Named sub s := by
  simp [Named, h.named]

lemma SameFor.unnamed (h : SameFor sub.sid s s') : Unnamed sub s' ↔ Unnamed sub s := by
  simp [Unnamed, h.named]

lemma SameFor.stored (h : SameFor sub.sid s s') : Stored s' sub.sid ↔ Stored s sub.sid := by
  simp [Stored, h.field]

lemma SameFor.noFields (h : SameFor sub.sid s s') : NoFields sub s' ↔ NoFields sub s := by
  simp [NoFields, h.field]

lemma SameFor.notTold (h : SameFor sub.sid s s') (ht : sub.sid ∉ s.told)
    (hr : Unnamed sub s ∨ NoFields sub s ∨ sub.sid ∈ s.doomed) : sub.sid ∉ s'.told := by
  intro hx
  rcases h.told hx with hx | ⟨⟨k, hk⟩, hst, hd⟩
  · exact ht hx
  · rcases hr with hr | hr | hr
    · exact hr k hk
    · simp [Stored, hr .dag] at hst
    · exact hd hr

lemma Stage.Holds.rely {g : Stage} (hR : SameFor sub.sid s s') (h : g.Holds sub s) : g.Holds sub s' := by
  cases g
  case gone =>
    obtain ⟨h1, h2, h3, h4⟩ := h
    exact ⟨hR.unnamed.2 h1, hR.noFields.2 h2, hR.blank.2 h3, hR.notTold h4 (.inl h1)⟩
  case fresh =>
    obtain ⟨h1, h2, h3, h4, h5⟩ := h
    exact ⟨hR.unnamed.2 h1, hR.noFields.2 h2, hR.blank.2 h3, hR.notTold h4 (.inl h1),
      fun hd => h5 (hR.doomed.1 hd)⟩
  case named =>
    obtain ⟨h1, h2, h3, h4, h5⟩ := h
    exact ⟨hR.namedIff.2 h1, hR.noFields.2 h2, hR.blank.2 h3, hR.notTold h4 (.inr (.inl h2)),
      fun hd => h5 (hR.doomed.1 hd)⟩
  case stored =>
    obtain ⟨h1, h2, h3, h4⟩ := h
    exact ⟨hR.namedIff.2 h1, hR.stored.2 h2, hR.blank.2 h3, fun hd => h4 (hR.doomed.1 hd)⟩
  case failed =>
    obtain ⟨h1, h2, h3, h4⟩ := h
    exact ⟨hR.namedIff.2 h1, hR.blank.2 h2, hR.notTold h3 (.inr (.inr h4)), hR.doomed.2 h4⟩
  case freed =>
    obtain ⟨h1, h2, h3⟩ := h
    exact ⟨hR.unnamed.2 h1, hR.blank.2 h2, hR.notTold h3 (.inl h1)⟩
  case queued => exact ⟨hR.stored.2 h.1, hR.queued.2 h.2⟩

lemma Stage.Holds.at {g : Stage} {i : ℕ} {o : Op} (h : g.Holds sub s)
    (ho : g = .stored → beforeQueue o) : (proto i sub).At o s := by
  intro ht
  cases g
  case stored => exact ⟨h.2.1, .inr (ho rfl)⟩
  case queued => exact ⟨h.1, .inl h.2⟩
  case gone => exact absurd ht h.2.2.2
  case fresh => exact absurd ht h.2.2.2.1
  case named => exact absurd ht h.2.2.2.1
  case failed => exact absurd ht h.2.2.1
  case freed => exact absurd ht h.2.2

lemma ask_safe {i : ℕ} {o : Op} {g : Stage} {Q : Except Exc o.Ans → Store → Prop}
    (h : g.Holds sub s) (ho : Own sub o) (hat : g = .stored → beforeQueue o)
    (hdel : o = .delDagHash sub.hash → g = .failed)
    (hQ : ∀ s' e, s.told ⊆ s'.told → g.Holds sub s' → steady o e s' →
      Q (perform i o e s').1 (perform i o e s').2) : Safe (proto i sub) Q (ask o) s := by
  refine Safe.perform_iff.2 ?_
  intro s' hR _
  have h' := h.rely hR.1
  refine ⟨h'.at hat, fun e hs => ⟨trivial, own_spares ho hs ?_, hQ s' e hR.2 h' hs⟩⟩
  intro hd
  have hg := hdel hd
  subst hg
  exact (h'.1 sub.hash).2 rfl

end Rely

/-! ### The parts of `submit` -/

section Parts

variable {i : ℕ} {sub : Submission} {s : Store}

lemma rollback_safe (h : Stage.failed.Holds sub s) :
    Safe (proto i sub) (fun r s => r = .ok () ∧ Stage.gone.Holds sub s) (rollback sub) s := by
  unfold rollback
  refine Safe.tryExcept_iff.2 (Safe.bind_iff.2 (ask_safe h .delDagHash (by simp) (fun _ => rfl) ?_))
  intro s₁ e _ h₁ hs
  simp only [steady, decide_eq_true_eq] at hs
  simp only [perform, reply, hs]
  have hf : Stage.freed.Holds sub { s₁ with dagHash := Function.update s₁.dagHash sub.hash none } := by
    refine ⟨?_, h₁.2.1, h₁.2.2.1⟩
    intro k hk
    by_cases hkh : k = sub.hash
    · simp [hkh] at hk
    · simp only [Function.update_of_ne hkh] at hk
      exact hkh ((h₁.1 k).1 hk)
  refine ask_safe hf .delStrategy (by simp) (by simp) ?_
  intro s₂ e _ h₂ hs
  simp only [steady, decide_eq_true_eq] at hs
  simp only [perform, reply, hs]
  obtain ⟨hu, ⟨-, hl, hq⟩, ht⟩ := h₂
  exact ⟨trivial, hu, fun f => by simp, ⟨by simp, hl, hq⟩, ht⟩

lemma rollback_raise_safe {α : Type} {Q : Except Exc α → Store → Prop} {x : Exc}
    (h : Stage.failed.Holds sub s) (hQ : ∀ s, Stage.gone.Holds sub s → Q (.error x) s) :
    Safe (proto i sub) Q ((rollback sub).bind fun _ => .raise x) s := by
  refine Safe.bind_iff.2 ((rollback_safe h).mono ?_)
  intro r s h
  obtain ⟨rfl, h⟩ := h
  exact hQ s h

def Reaches {α : Type} (sub : Submission) (g : Stage) (r : Except Exc α) (s : Store) : Prop :=
  match r with
  | .ok _ => g.Holds sub s
  | .error _ => Stage.gone.Holds sub s

lemma publishSubmission_safe (h : Stage.stored.Holds sub s) :
    Safe (proto i sub) (Reaches sub .stored) (publishSubmission sub) s := by
  unfold publishSubmission
  split
  · refine Safe.tryExcept_iff.2 (ask_safe h .publish (fun _ => rfl) (by simp) ?_)
    intro s₁ e _ h₁ hs
    simp only [steady, Bool.or_eq_true, decide_eq_true_eq] at hs
    by_cases hf : e.fate = .ok
    · simp only [perform, reply, hf, Store.noteFate, if_true]
      exact h₁
    · have ht := hs.resolve_left hf
      have hfl : ∀ ing, Stage.failed.Holds sub { s₁ with doomed := sub.sid :: s₁.doomed, ingested := ing } :=
        fun _ => ⟨h₁.1, h₁.2.2.1, ht, by simp⟩
      cases hf' : e.fate <;> simp only [perform, hf', Store.noteFate, reduceCtorEq]
      case ok => exact absurd hf' hf
      all_goals exact rollback_raise_safe (hfl _) fun _ h => h
  · exact h

lemma enqueue_safe (h : Stage.stored.Holds sub s) : Safe (proto i sub) (fun r s => match r with
    | .ok _ => Stage.queued.Holds sub s
    | .error _ => Stage.failed.Holds sub s) (enqueue sub) s := by
  refine Safe.bind_iff.2 (ask_safe h .keep (fun _ => rfl) (by simp) ?_)
  intro s₁ e _ h₁ _
  simp only [perform]
  cases hd : s₁.degraded
  · refine Safe.bind_iff.2 (ask_safe h₁ .push (fun _ => rfl) (by simp) ?_)
    intro s₂ e _ h₂ hs
    simp only [steady, Bool.or_eq_true, Bool.and_eq_true, decide_eq_true_eq] at hs
    rcases hs with hf | ⟨hf, ht⟩
    · simp only [perform, reply, hf, Store.noteFate, if_true]
      exact ⟨h₂.2.1, .inl ⟨⟨s₂.pushed.length, sub.sid⟩, by simp [Store.rpush]⟩⟩
    · simp only [perform, reply, hf, Store.noteFate, reduceCtorEq, if_false]
      exact ⟨h₂.1, h₂.2.2.1, ht, by simp⟩
  · exact ⟨h₁.2.1, .inr (by simp)⟩

lemma enqueueWithRollback_safe (h : Stage.stored.Holds sub s) :
    Safe (proto i sub) (Reaches sub .queued) (enqueueWithRollback sub) s := by
  refine Safe.tryExcept_iff.2 ((enqueue_safe h).mono ?_)
  intro r s h
  cases r with
  | ok u => exact h
  | error x => exact rollback_raise_safe h fun _ h => h

lemma persistContext_safe (h : Stage.queued.Holds sub s) :
    Safe (proto i sub) (fun r s => r = .ok () ∧ Stage.queued.Holds sub s) (persistContext sub) s := by
  unfold persistContext
  split
  · exact ⟨rfl, h⟩
  · refine ask_safe h (.hset _) (by simp) (by simp) ?_
    intro s₁ e _ h₁ hs
    simp only [steady, decide_eq_true_eq] at hs
    simp only [perform, reply, hs]
    refine ⟨trivial, ?_, h₁.2⟩
    have hst := h₁.1
    simp only [Stored, Store.hset, Function.update_self] at hst ⊢
    split
    · rfl
    · exact hst

lemma create_safe (h : Stage.queued.Holds sub s) :
    Safe (proto i sub) (fun r s => r = .ok () ∧ Stage.queued.Holds sub s) (Fsm.create sub.sid) s := by
  unfold Fsm.create Fsm.exceptRedis Fsm.insertStrategy
  have hap : ∀ s, Stage.queued.Holds sub s → Safe (proto i sub)
      (fun r s => r = .ok () ∧ Stage.queued.Holds sub s) (ask (.appendEvent sub.sid (.init .queued))) s := by
    intro s h
    refine ask_safe h (.append _) (by simp) (by simp) ?_
    intro s₁ e _ h₁ hs
    simp only [steady, decide_eq_true_eq] at hs
    simp only [perform, reply, hs]
    exact ⟨trivial, h₁⟩
  refine Safe.bind_iff.2 (Safe.tryExcept_iff.2 (ask_safe h (.hsetState _ _) (by simp) (by simp) ?_))
  intro s₁ e _ h₁ hs
  simp only [steady, decide_eq_true_eq] at hs
  simp only [perform, reply, hs]
  have h₁ : Stage.queued.Holds sub { s₁ with state := Function.update s₁.state sub.sid (some .queued) } := h₁
  refine Safe.tryExcept_iff.2 (Safe.bind_iff.2 (Safe.bind_iff.2 (ask_safe h₁ .insertRow (by simp) (by simp) ?_)))
  intro s₂ e _ h₂ hs
  simp only [steady, Bool.and_eq_true, Bool.or_eq_true, decide_eq_true_eq, Option.isNone_iff_eq_none] at hs
  obtain ⟨hf, hrow⟩ := hs
  have hins : ¬ (s₂.dbKind ≠ .memory ∧ (s₂.row sub.sid).isSome) := by
    rcases hrow with hk | hk <;> simp [hk]
  simp only [perform, hf, Store.insertRow, hins, if_false]
  have h₂ : Stage.queued.Holds sub { s₂ with row := Function.update s₂.row sub.sid (some .queued) } := h₂
  refine (hap _ h₂).mono ?_
  intro r s₃ h₃
  obtain ⟨rfl, h₃⟩ := h₃
  exact (hap _ h₃).mono fun r s₄ h₄ => by obtain ⟨rfl, h₄⟩ := h₄; exact ⟨trivial, h₄⟩

def Registers (sub : Submission) (r : Except Exc (String × Bool)) (s : Store) : Prop :=
  match r with
  | .ok (x, true) => Stage.fresh.Holds sub s ∧ x ∈ s.told
  | .ok (x, false) => x = sub.sid ∧ Stage.stored.Holds sub s
  | .error _ => Stage.gone.Holds sub s

lemma Stage.Holds.gone (h : Stage.fresh.Holds sub s) : Stage.gone.Holds sub s :=
  ⟨h.1, h.2.1, h.2.2.1, h.2.2.2.1⟩

lemma Stage.Holds.tell (h : Stage.fresh.Holds sub s) {y : String} (hy : s.dagHash sub.hash = some y) :
    Stage.fresh.Holds sub { s with told := [y] ++ s.told } := by
  obtain ⟨h1, h2, h3, h4, h5⟩ := h
  refine ⟨h1, h2, h3, ?_, h5⟩
  simp only [List.singleton_append, List.mem_cons, not_or]
  exact ⟨fun hs => h1 sub.hash (hs ▸ hy), h4⟩

lemma Stage.Holds.store {s' : Store} (h : Stage.named.Holds sub s)
    (hs' : s' = s.hset sub.sid [(.dag, sub.dag), (.hash, sub.hash)]) : Stage.stored.Holds sub s' := by
  subst hs'
  exact ⟨h.1, by simp [Stored, Store.hset], h.2.2.1, h.2.2.2.2⟩

lemma Stage.Holds.name (h : Stage.fresh.Holds sub s) :
    Stage.named.Holds sub { s with dagHash := Function.update s.dagHash sub.hash (some sub.sid) } := by
  obtain ⟨h1, h2, h3, h4, h5⟩ := h
  refine ⟨?_, h2, h3, h4, h5⟩
  intro k
  by_cases hk : k = sub.hash
  · simp [hk]
  · simp [hk, h1 k]

lemma getAgain_safe (h : Stage.fresh.Holds sub s) : Safe (proto i sub) (Registers sub)
    ((ask (.getDagHash sub.hash true)).bind fun existing : Option String => .ret (existing.getD "", true)) s := by
  refine Safe.bind_iff.2 (ask_safe h (.get true) (by simp) (by simp) ?_)
  intro s₁ e _ h₁ hs
  cases hf : e.fate <;> simp [perform, reply, hf]
  case ok =>
    cases hd : s₁.dagHash sub.hash with
    | some y =>
      simp only [Store.tell, if_true, Option.toList_some]
      exact ⟨h₁.tell hd, by simp⟩
    | none => simp [steady, hf, hd] at hs
  all_goals exact h₁.gone

lemma setDagHash_safe (h : Stage.fresh.Holds sub s) : Safe (proto i sub) (Registers sub)
    ((ask (.setDagHash sub.hash sub.sid)).bind fun inserted : Bool =>
      if inserted then (ask (.hset sub.sid [(.dag, sub.dag), (.hash, sub.hash)])).bind fun _ =>
        .ret (sub.sid, false) else (ask (.getDagHash sub.hash true)).bind fun existing : Option String =>
        .ret (existing.getD "", true)) s := by
  refine Safe.bind_iff.2 (ask_safe h .set (by simp) (by simp) ?_)
  intro s₁ e _ h₁ hs
  cases hn : (s₁.dagHash sub.hash).isNone
  · cases hf : e.fate <;> simp only [perform, hf, hn, Bool.false_eq_true]
    case ok => exact getAgain_safe h₁
    all_goals exact h₁.gone
  · cases hf : e.fate <;> simp only [perform, hf, hn]
    case ok =>
      refine Safe.bind_iff.2 (ask_safe h₁.name (.hset _) (by simp) (by simp) ?_)
      intro s₂ e _ h₂ hs
      simp only [steady, decide_eq_true_eq] at hs
      simp only [perform, reply, hs]
      exact ⟨rfl, h₂.store rfl⟩
    case lost => exact h₁.gone
    case torn => simp [steady, hf, Option.isNone_iff_eq_none.mp hn] at hs

lemma fallbackDedupe_safe (h : Stage.fresh.Holds sub s) :
    Safe (proto i sub) (Registers sub) (fallbackDedupe sub) s := by
  refine Safe.bind_iff.2 (ask_safe h (.get false) (by simp) (by simp) ?_)
  intro s₁ e _ h₁ hs
  cases hf : e.fate <;> simp [perform, reply, hf]
  case ok =>
    cases hd : s₁.dagHash sub.hash with
    | some y =>
      simp only [Store.tell, if_true, Option.toList_some]
      exact ⟨h₁.tell hd, by simp⟩
    | none =>
      exact setDagHash_safe h₁
  all_goals exact h₁.gone

lemma saveUnique_safe (h : Stage.fresh.Holds sub s) : Safe (proto i sub) (Registers sub) (saveUnique sub) s := by
  refine Safe.tryExcept_iff.2 (ask_safe h .eval (by simp) (by simp) ?_)
  intro s₁ e _ h₁ hs
  cases hd : s₁.dagHash sub.hash with
  | some y =>
    cases hf : e.fate <;> simp only [perform, reply, hf, Store.dedupe, hd, Store.tell, reduceCtorEq,
      if_false]
    case ok => exact ⟨h₁.tell hd, by simp⟩
    all_goals exact fallbackDedupe_safe h₁
  | none =>
    cases hf : e.fate <;> simp only [perform, hf, Store.dedupe, hd, Store.tell, Option.toList_none]
    case ok => exact ⟨rfl, h₁.name.store rfl⟩
    case lost => exact fallbackDedupe_safe h₁
    case torn => simp [steady, hf, hd] at hs

/-- What `submit` owes. -/
def Submits (sub : Submission) (r : Except Exc (String × Bool)) (s : Store) : Prop :=
  match r with
  | .ok (x, true) => Stage.gone.Holds sub s ∧ x ∈ s.told
  | .ok (x, false) => x = sub.sid ∧ Stage.queued.Holds sub s
  | .error _ => Stage.gone.Holds sub s

lemma submit_safe (h : Stage.fresh.Holds sub s) : Safe (proto i sub) (Submits sub) (submit sub) s := by
  unfold submit finalizeSubmission
  refine Safe.bind_iff.2 ((saveUnique_safe h).mono ?_)
  intro r s₁ h₁
  match r, h₁ with
  | .error x, h₁ => exact h₁
  | .ok (x, true), h₁ => exact ⟨h₁.1.gone, h₁.2⟩
  | .ok (x, false), h₁ =>
    obtain ⟨rfl, h₁⟩ := h₁
    refine Safe.bind_iff.2 (Safe.bind_iff.2 ((publishSubmission_safe h₁).mono ?_))
    intro r s₂ h₂
    cases r with
    | error x => exact h₂
    | ok u =>
      refine Safe.bind_iff.2 ((enqueueWithRollback_safe h₂).mono ?_)
      intro r s₃ h₃
      cases r with
      | error x => exact h₃
      | ok u =>
        refine Safe.bind_iff.2 ((persistContext_safe h₃).mono ?_)
        intro r s₄ h₄
        obtain ⟨rfl, h₄⟩ := h₄
        refine (create_safe h₄).mono ?_
        intro r s₅ h₅
        obtain ⟨rfl, h₅⟩ := h₅
        exact ⟨rfl, h₅⟩

end Parts

/-! ### What the code can come to -/

section Code

variable {sub : Submission}

def OnWay (sub : Submission) {α : Type} : Gw α → Prop
  | .await o k => Own sub o ∧ (beforeQueue o = true → WillEnqueue sub.sid (.await o k))
  | _ => True

def Aside (sub : Submission) (o : Op) : Prop := Own sub o ∧ beforeQueue o = false

lemma Aside.onWay {o : Op} (h : Aside sub o) {α : Type} (k : Except Exc o.Ans → Gw α) : OnWay sub (.await o k) :=
  ⟨h.1, fun hb => absurd hb (by simp [h.2])⟩

lemma aside_rollback : Uses (Aside sub) (rollback sub) := uses_rollback ⟨.delDagHash, rfl⟩ ⟨.delStrategy, rfl⟩

lemma aside_saveUnique : Uses (Aside sub) (saveUnique sub) :=
  uses_saveUnique ⟨.eval, rfl⟩ (fun again => ⟨.get again, rfl⟩) ⟨.set, rfl⟩ ⟨.hset _, rfl⟩

lemma aside_persistContext : Uses (Aside sub) (persistContext sub) := by
  unfold persistContext
  split
  · trivial
  · exact .perform ⟨.hset _, rfl⟩

lemma aside_create : Uses (Aside sub) (Fsm.create sub.sid) := by
  refine .bind (.tryExcept (.perform ⟨.hsetState _ _, rfl⟩) ?_) ?_
  · intro e
    cases e <;> trivial
  · intro _
    exact .tryExcept (.bind (.bind (.perform ⟨.insertRow, rfl⟩) fun _ => .perform ⟨.append _, rfl⟩)
      fun _ => .perform ⟨.append _, rfl⟩) fun _ => trivial

variable {α : Type}

lemma always_ask (o : Op) {P : Gw o.Ans → Prop} (h : P (ask o)) : Always P (ask o) :=
  Always.perform h

lemma always_enqueueWithRollback (f : Unit → Gw α) (hf : ∀ u, Always (OnWay sub) (f u)) :
    Always (OnWay sub) ((enqueueWithRollback sub).bind f) := by
  refine Always.bind ?_ hf
  refine Always.tryExcept ?_ ?_
  · refine Always.bind ?_ ?_
    · exact always_ask (.localAppend sub.sid) ⟨.keep, fun _ => ⟨rfl, rfl⟩⟩
    · intro kept
      cases kept
      · refine Always.bind ?_ fun _ => trivial
        exact always_ask (.rpush sub.sid) ⟨.push, fun _ => rfl⟩
      · trivial
  · intro e
    exact Always.bind (.of_uses (fun _ _ h => h.onWay _) aside_rollback) fun _ => trivial

lemma always_finalizeSubmission (f : Unit → Gw α) (hf : ∀ u, Always (OnWay sub) (f u)) :
    Always (OnWay sub) ((finalizeSubmission sub).bind f) := by
  have hr : Always (OnWay sub) (((enqueueWithRollback sub).bind fun _ =>
      (persistContext sub).bind fun _ => Fsm.create sub.sid).bind f) := by
    rw [Coro.bind_assoc]
    refine always_enqueueWithRollback _ ?_
    intro _
    rw [Coro.bind_assoc]
    refine Always.bind (.of_uses (fun _ _ h => h.onWay _) aside_persistContext) ?_
    intro _
    exact Always.bind (.of_uses (fun _ _ h => h.onWay _) aside_create) hf
  unfold finalizeSubmission publishSubmission
  simp only [Coro.bind_eq]
  split
  · rw [Coro.bind_assoc]
    refine Always.bind ?_ fun _ => hr
    refine Always.tryExcept ?_ ?_
    · exact always_ask (.publishSubmission sub.sid) ⟨.publish, fun _ _ => ⟨rfl, rfl⟩⟩
    · intro e
      exact Always.bind (.of_uses (fun _ _ h => h.onWay _) aside_rollback) fun _ => trivial
  · exact hr

lemma always_submit (sub : Submission) : Always (OnWay sub) (submit sub) := by
  refine Always.bind (.of_uses (fun _ _ h => h.onWay _) aside_saveUnique) ?_
  intro r
  split
  · trivial
  · exact always_finalizeSubmission _ fun _ => trivial

end Code

/-! ### Runs -/

/-- The store holds something of the id `x`. -/
def Mentions (s : Store) (x : String) : Prop :=
  (∃ h, s.dagHash h = some x) ∨ (∃ f, s.field x f ≠ none) ∨ s.state x ≠ none ∨ Listed s x ∨
    Queued s x ∨ x ∈ s.told ∨ x ∈ s.doomed

lemma SameFor.mentions {x : String} {s s' : Store} (h : SameFor x s s') (hm : Mentions s' x) : Mentions s x := by
  unfold Mentions at hm ⊢
  simp only [h.named, h.field, h.state, h.listed, h.queued, h.doomed] at hm
  rcases hm with hm | hm | hm | hm | hm | hm | hm
  case inr.inr.inr.inr.inr.inl =>
    rcases h.told hm with hm | ⟨hm, -⟩
    · simp [hm]
    · exact .inl hm
  all_goals simp [hm]

abbrev Steady (c : Cfg) (ev : Ev) : Prop := steadyStep c ev = true

lemma own_of_run {kind : DbKind} {P : Cfg → Ev → Prop} {c : Cfg} (h : system.Run P (init kind) c)
    {i : ℕ} {sub : Submission} {o : Op} {k : Except Exc o.Ans → Gw (String × Bool)}
    (hi : c.calls[i]? = some (sub, .await o k)) : OnWay sub (.await o k) :=
  (h.always (Q := fun sub => OnWay sub) always_submit rfl hi).1

def KnownIds (ls : List Submission) (s : Store) : Prop :=
  (ls.map Submission.sid).Nodup ∧ ∀ x, Mentions s x → x ∈ ls.map Submission.sid

lemma submits_stable {sub : Submission} {r : Except Exc (String × Bool)} {s s' : Store}
    (hR : SameFor sub.sid s s' ∧ s.told ⊆ s'.told) (h : Submits sub r s) : Submits sub r s' := by
  match r, h with
  | .error _, h => exact Stage.Holds.rely (g := .gone) hR.1 h
  | .ok (x, true), h => exact ⟨Stage.Holds.rely (g := .gone) hR.1 h.1, hR.2 h.2⟩
  | .ok (x, false), h => exact ⟨h.1, Stage.Holds.rely (g := .queued) hR.1 h.2⟩

lemma composes (kind : DbKind) : System.Composes system Steady (init kind) proto (fun _ => True) KnownIds
    (fun _ sub => Submits sub) where
  inv _ _ := rfl
  perform _ _ := rfl
  calls := rfl
  init := ⟨trivial, by simp, fun x hx => by simp [init, Mentions, Store.empty, Listed, Queued] at hx⟩
  ok c i e a o k _ hP hi := by
    simp only [Steady, steadyStep, hi] at hP
    exact hP
  stable _ _ _ _ _ := submits_stable
  start c sub _ hmay _ hI := by
    have hnew : sub.sid ∉ c.labels.map Submission.sid := by
      simp only [system, may, List.all_eq_true, decide_eq_true_eq] at hmay
      simp only [Config.labels, List.map_map, List.mem_map, Function.comp_apply, not_exists, not_and]
      exact hmay
    refine ⟨⟨?_, ?_⟩, submit_safe ?_⟩
    · rw [List.map_append, List.nodup_append]
      refine ⟨hI.1, by simp, fun x hx y hy hxy => hnew ?_⟩
      rw [List.map_cons, List.map_nil, List.mem_singleton] at hy
      rwa [← hy, ← hxy]
    · intro x hx
      rw [List.map_append]
      exact List.mem_append_left _ (hI.2 x hx)
    · -- nothing in the store mentions an id that no submission has
      have hm : ¬ Mentions c.store sub.sid := fun hm => hnew (hI.2 _ hm)
      simp only [Mentions, not_or, not_exists, not_not] at hm
      obtain ⟨h1, h2, h3, h4, h5, h6, h7⟩ := hm
      exact ⟨h1, h2, ⟨h3, h4, h5⟩, h6, h7⟩
  disturb c d _ _ _ hI := by
    refine ⟨trivial, ⟨hI.1, fun x hx => hI.2 x hx⟩, fun i a _ => ⟨?_, fun _ h => h⟩⟩
    exact .of_eq (fun _ => Iff.rfl) rfl rfl rfl rfl rfl Iff.rfl rfl
  keep ls i sub s s' _ hI hi hG _ := by
    refine ⟨hI.1, ?_⟩
    intro x hx
    by_cases hs : x = sub.sid
    · exact hs ▸ List.mem_map.mpr ⟨sub, List.mem_of_getElem? hi, rfl⟩
    · exact hI.2 x ((hG.1 x hs).mentions hx)
  others ls i j a b s s' _ hI hi hj hij hG _ := by
    refine ⟨hG.1 b.sid fun hsid => hij ?_, hG.2⟩
    have hlt := (List.getElem?_eq_some_iff.mp hi).1
    refine (List.getElem?_inj (by simpa using hlt) hI.1).1 ?_
    simp [hi, hj, hsid]

lemma told_kept {kind : DbKind} {c : Cfg} (h : system.Run Steady (init kind) c) {x : String}
    (hx : x ∈ c.store.told) : Stored c.store x ∧ (Queued c.store x ∨
      ∃ (j : ℕ) (sub' : Submission) (m : _), c.calls[j]? = some (sub', m) ∧ sub'.sid = x ∧ WillEnqueue x m) := by
  have hm : Mentions c.store x := by simp [Mentions, hx]
  obtain ⟨-, hI, hs⟩ := h.safe (composes kind)
  obtain ⟨sub, hsub, rfl⟩ := List.mem_map.mp (hI.2 x hm)
  obtain ⟨⟨sub, m⟩, hmem, rfl⟩ := List.mem_map.mp hsub
  obtain ⟨j, hj⟩ := List.mem_iff_getElem?.mp hmem
  have hs := hs j sub m hj
  match m, hs with
  | .await o k, hs =>
    obtain ⟨hst, hq⟩ := (hs c.store ((proto j sub).rely_refl _) trivial).1 hx
    exact ⟨hst, hq.imp id fun hb => ⟨j, sub, _, hj, rfl, (own_of_run h hj).2 hb⟩⟩
  | .raise e, hs => exact absurd hx hs.2.2.2
  | .ret (y, true), hs => exact absurd hx hs.1.2.2.2
  | .ret (y, false), hs => exact ⟨hs.2.1, .inl hs.2.2⟩

/-- **Submissions are all-or-nothing in every steady run.** -/
theorem allOrNothing_of_steady {kind : DbKind} {c : Cfg} (h : system.Run Steady (init kind) c) :
    AllOrNothing c := by
  obtain ⟨-, -, hsafe⟩ := h.safe (composes kind)
  constructor
  · intro i sub e hi
    obtain ⟨hu, hn, ⟨hst, hl, hq⟩, -⟩ := hsafe i sub _ hi
    exact ⟨hu sub.hash, hn, hst, hl, hq⟩
  · intro i sub x existed hi
    cases existed with
    | true => exact told_kept h (hsafe i sub _ hi).2
    | false =>
      obtain ⟨rfl, hst, hq⟩ := hsafe i sub _ hi
      exact ⟨hst, .inl hq⟩

def bareSubmission (sid : String) : Submission :=
  ⟨sid, "h", "dag", ContextService.build .ascii [] (fun _ => .none) .noClient, true⟩

/-- Two submissions of one DAG: the second is answered with the id of the first, which goes on to
the queue. -/
theorem allOrNothing_of_steady_pair : ∃ c, system.Run Steady (init .postgres) c ∧
    (c.store.told = ["a"] ∧ c.store.pushed = [⟨0, "a"⟩]) ∧ AllOrNothing c := by
  obtain ⟨c, hrun, hq⟩ := exists_run system.step (init .postgres) steadyStep
    [.start (bareSubmission "a"), .start (bareSubmission "b"), .resume 0 .ok, .resume 1 .ok,
      .resume 0 .ok, .resume 0 .ok, .resume 0 .ok, .resume 0 .ok, .resume 0 .ok, .resume 0 .ok,
      .resume 0 .ok]
    (fun c => c.store.told = ["a"] && c.store.pushed = [⟨0, "a"⟩]) (by decide)
  simp only [Bool.and_eq_true, decide_eq_true_eq] at hq
  exact ⟨c, hrun, hq, allOrNothing_of_steady hrun⟩

/-- **A failed write of the context leaves the submission half done.** The id is in the queue when
the write fails; `submit` raises, and nothing takes the id out again. -/
theorem submission_half_done : ∃ c, execIf system.step (fun _ _ => true) (init .postgres)
    [.start (bareSubmission "a"), .resume 0 .ok, .resume 0 .ok, .resume 0 .ok, .resume 0 .ok,
      .resume 0 ⟨.lost, 0, true⟩] = some c ∧ ¬ AllOrNothing c := by
  refine exists_execIf (fun c => c.store.list = [⟨0, "a"⟩] && c.calls[0]?.any fun
      | (sub, .raise _) => sub.sid = "a"
      | _ => false) (by decide) ?_
  intro c hq hall
  simp only [Bool.and_eq_true, decide_eq_true_eq, Option.any_eq_true] at hq
  obtain ⟨hlist, ⟨sub, m⟩, h0, hm⟩ := hq
  cases m with
  | raise e =>
    obtain ⟨-, -, -, hl, -⟩ := hall.1 0 sub e h0
    refine hl ⟨⟨0, "a"⟩, by simp [hlist], ?_⟩
    simpa [eq_comm] using hm
  | ret r => simp at hm
  | await o k => simp at hm

end Qmtl.Gateway.SubmitAtomicity

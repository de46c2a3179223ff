import Qmtl.Lib.Log
import Qmtl.Lib.Run
import Qmtl.Runtime.TradeDispatch

/-! Dispatches one after the other, whose sinks may fail: a duplicate is suppressed by its key, which is recorded before the
order is delivered. -/

namespace Qmtl.Runtime

open Lib

variable (env : Env)

/-! ### Runs -/

structure Dispatch where
  manager : Option ActivationState
  faults : Faults
  order : Payload

def sinksOnly (http kafka : Bool) : Dispatcher := ⟨true, false, http, kafka⟩

def dispatchStep (http kafka : Bool) (s : DispatchState) (d : Dispatch) : Option DispatchState :=
  some (dispatch env (sinksOnly http kafka) d.manager d.faults d.order s).2

def SameOrder (o o' : Fields) : Prop := ∀ key, o.get? key = o'.get? key

def Entry.deliveredTo (sink : Sink) : Entry → Option Fields
  | .call sink' (.dict o) true => if sink' = sink then some o else none
  | _ => none

def delivered (sink : Sink) (log : List Entry) : List Fields := log.filterMap (Entry.deliveredTo sink)

def configured (http kafka : Bool) : List Sink := (if http then [.http] else []) ++ if kafka then [.kafka] else []

/-- **Nothing is lost or repeated**: what is suppressed has been delivered to every sink, and no sink gets an order
twice. -/
structure Delivers (http kafka : Bool) (log : List Entry) : Prop where
  suppressed : ∀ before o after, log = before ++ .suppressed o :: after → ∀ sink ∈ configured http kafka,
    ∃ o' ∈ delivered sink before, SameOrder o o'
  once : ∀ sink, (delivered sink log).Pairwise fun o o' => ¬SameOrder o o'

def Faults.taken (http kafka : Bool) (f : Faults) : Bool := !(http && f.http.1 && f.http.2) && !(kafka && f.kafka)

/-- A dispatch in which the sinks take a new order that the gate lets through, and no other order with its key was
delivered. -/
def Sound (http kafka : Bool) (s : DispatchState) (d : Dispatch) : Prop :=
  ∀ o, d.order = .dict o → (activationGateStep env d.manager d.order s).1 = .ok false → ∀ key, dedupKey env o = some key →
    (key ∉ s.cache → d.faults.taken http kafka = true) ∧
      ∀ sink, ∀ o' ∈ delivered sink s.log, dedupKey env o' = some key → SameOrder o o'

def handed (http kafka : Bool) (f : Faults) (o : Fields) : List Entry :=
  (if http then
    if f.http.1 then [.call .http (.dict o) false, .call .http (.dict o) !f.http.2] else [.call .http (.dict o) true]
  else []) ++ if kafka then [.call .kafka (.dict o) !f.kafka] else []

variable {env} {http kafka : Bool} {s s' : DispatchState} {d : Dispatch} {o o' : Fields} {key : String} {sink : Sink}

lemma exists_dedupKey (h : (o.get "side").truthy) : ∃ key, dedupKey env o = some key := by
  have hn : (o.get "side").isNone = false := by
    cases hside : o.get "side" with
    | none =>
      rw [hside] at h
      cases h
    | _ => rfl
  unfold dedupKey
  simp only [hn, Bool.false_eq_true, if_false]
  exact ⟨_, rfl⟩

/-- **What a dispatch does**: nothing, or it suppresses an order whose key is in the cache, or it records the key of a new
order and hands it to the sinks. -/
theorem dispatch_cases (h : dispatchStep env http kafka s d = some s') :
    s' = s ∨ ∃ o key, d.order = .dict o ∧ (activationGateStep env d.manager d.order s).1 = .ok false ∧
      dedupKey env o = some key ∧ ((key ∈ s.cache ∧ s' = s.note [.suppressed o]) ∨
        (key ∉ s.cache ∧ s' = ⟨s.cache ++ [key], s.log ++ handed http kafka d.faults o⟩)) := by
  obtain ⟨manager, faults, order⟩ := d
  have hs := activationGateStep_state env manager order s
  rw [← Option.some.inj h]
  unfold dispatch pipeline
  rw [runSteps]
  rcases hg : activationGateStep env manager order s with ⟨r, s₁⟩
  rw [hg] at hs
  obtain rfl : s₁ = s := hs
  cases r with
  | error e => exact .inl rfl
  | ok stopped =>
    cases stopped with
    | true => exact .inl rfl
    | false =>
      cases order with
      | other => exact .inl rfl
      | dict o =>
        cases hside : (o.get "side").truthy with
        | false =>
          left
          simp [runSteps, customServiceDispatchStep, sinksOnly, payloadValidationStep, hside]
        | true =>
          obtain ⟨key, hkey⟩ : ∃ key, dedupKey env o = some key := exists_dedupKey hside
          refine .inr ⟨o, key, rfl, rfl, hkey, ?_⟩
          by_cases hmem : key ∈ s₁.cache
          · refine .inl ⟨hmem, ?_⟩
            simp [runSteps, customServiceDispatchStep, sinksOnly, payloadValidationStep, hside, deduplicationStep, hkey,
              hmem]
          · refine .inr ⟨hmem, ?_⟩
            obtain ⟨fservice, ⟨first, second⟩, fkafka⟩ := faults
            cases http <;> cases kafka <;> cases first <;> cases fkafka <;>
              simp [runSteps, customServiceDispatchStep, sinksOnly, payloadValidationStep, hside, deduplicationStep,
                hkey, hmem, httpSubmitStep, kafkaSubmitStep, handed, DispatchState.note]

/-! ### One dispatch -/

lemma delivered_append (log log' : List Entry) : delivered sink (log ++ log') = delivered sink log ++ delivered sink log' :=
  List.filterMap_append

lemma delivered_handed_http (http kafka : Bool) (f : Faults) (o : Fields) :
    delivered .http (handed http kafka f o) = if http && !(f.http.1 && f.http.2) then [o] else [] := by
  obtain ⟨fservice, ⟨first, second⟩, fkafka⟩ := f
  have hk : delivered .http (if kafka then [.call .kafka (.dict o) !fkafka] else []) = [] := by
    cases kafka <;> cases fkafka <;> rfl
  unfold handed
  rw [delivered_append, hk, List.append_nil]
  cases http <;> cases first <;> cases second <;> rfl

lemma delivered_handed_kafka (http kafka : Bool) (f : Faults) (o : Fields) :
    delivered .kafka (handed http kafka f o) = if kafka && !f.kafka then [o] else [] := by
  obtain ⟨fservice, ⟨first, second⟩, fkafka⟩ := f
  have hh : delivered .kafka (if http then
      if first then [.call .http (.dict o) false, .call .http (.dict o) !second] else [.call .http (.dict o) true]
      else []) = [] := by
    cases http <;> cases first <;> cases second <;> rfl
  unfold handed
  rw [delivered_append, hh, List.nil_append]
  cases kafka <;> cases fkafka <;> rfl

lemma delivered_handed_service (http kafka : Bool) (f : Faults) (o : Fields) :
    delivered .service (handed http kafka f o) = [] := by
  obtain ⟨fservice, ⟨first, second⟩, fkafka⟩ := f
  cases http <;> cases kafka <;> cases first <;> cases second <;> cases fkafka <;> rfl

lemma delivered_handed (http kafka : Bool) (f : Faults) (o : Fields) (sink : Sink) :
    (delivered sink (handed http kafka f o) = [] ∨ delivered sink (handed http kafka f o) = [o]) ∧
      (f.taken http kafka → sink ∈ configured http kafka → o ∈ delivered sink (handed http kafka f o)) := by
  cases sink with
  | service =>
    exact ⟨.inl (delivered_handed_service http kafka f o), fun _ hs => by
      cases http <;> cases kafka <;> simp [configured] at hs⟩
  | http =>
    rw [delivered_handed_http]
    cases http with
    | false => exact ⟨.inl rfl, fun _ hs => by cases kafka <;> simp [configured] at hs⟩
    | true => cases hb : f.http.1 && f.http.2 <;> simp [Faults.taken, hb]
  | kafka =>
    rw [delivered_handed_kafka]
    cases kafka with
    | false => exact ⟨.inl rfl, fun _ hs => by cases http <;> simp [configured] at hs⟩
    | true => cases hk : f.kafka <;> simp [Faults.taken, hk]

lemma handed_not_suppressed {f : Faults} {o o' : Fields} : .suppressed o' ∉ handed http kafka f o := by
  unfold handed
  cases http <;> cases kafka <;> cases f.http.1 <;> simp

lemma SameOrder.dedupKey_eq (h : SameOrder o o') : dedupKey env o = dedupKey env o' := by
  have hget : ∀ key, o.get key = o'.get key := by
    intro key
    unfold Fields.get
    rw [h key]
  unfold dedupKey
  rw [hget "side", hget "quantity", hget "timestamp", hget "symbol"]

variable (env) in
structure Recorded (http kafka : Bool) (s : DispatchState) : Prop where
  keys : ∀ sink, ∀ o ∈ delivered sink s.log, ∃ key ∈ s.cache, dedupKey env o = some key
  complete : ∀ key ∈ s.cache, ∀ sink ∈ configured http kafka, ∃ o ∈ delivered sink s.log, dedupKey env o = some key

variable (env) in
structure Inv (http kafka : Bool) (s : DispatchState) : Prop where
  recorded : Recorded env http kafka s
  delivers : Delivers http kafka s.log

lemma Inv.suppress (h : Inv env http kafka s) (hmem : key ∈ s.cache)
    (hsm : ∀ sink, ∀ o' ∈ delivered sink s.log, dedupKey env o' = some key → SameOrder o o') :
    Inv env http kafka (s.note [.suppressed o]) := by
  have hd : ∀ sink, delivered sink (s.note [.suppressed o]).log = delivered sink s.log := fun sink =>
    (delivered_append _ _).trans (List.append_nil _)
  refine ⟨⟨?_, ?_⟩, ⟨?_, ?_⟩⟩
  · intro sink o' ho'
    rw [hd] at ho'
    exact h.recorded.keys sink o' ho'
  · intro key' hk' sink hs
    rw [hd]
    exact h.recorded.complete key' hk' sink hs
  · intro before o₁ after hlog sink hs
    rcases split_append hlog with ⟨rest, hold⟩ | ⟨rest, hb, hnew⟩
    · exact h.delivers.suppressed before o₁ rest hold sink hs
    · cases rest with
      | nil =>
        obtain rfl : o = o₁ := by
          have heq := (List.cons.inj hnew).1
          exact Entry.suppressed.inj heq
        obtain ⟨o', ho', hk'⟩ := h.recorded.complete key hmem sink hs
        rw [hb, List.append_nil]
        exact ⟨o', ho', hsm sink o' ho' hk'⟩
      | cons x rest =>
        have hlength := congrArg List.length hnew
        simp at hlength
  · intro sink
    rw [hd]
    exact h.delivers.once sink

lemma Inv.hand {f : Faults} (h : Inv env http kafka s) (hkey : dedupKey env o = some key) (hmem : key ∉ s.cache)
    (ht : f.taken http kafka) : Inv env http kafka ⟨s.cache ++ [key], s.log ++ handed http kafka f o⟩ := by
  refine ⟨⟨?_, ?_⟩, ⟨?_, ?_⟩⟩
  · intro sink o' ho'
    rw [delivered_append] at ho'
    rcases List.mem_append.mp ho' with hold | hnew
    · obtain ⟨key', hk', hd⟩ := h.recorded.keys sink o' hold
      exact ⟨key', List.mem_append_left _ hk', hd⟩
    · refine ⟨key, List.mem_append_right _ List.mem_cons_self, ?_⟩
      rcases (delivered_handed http kafka f o sink).1 with hn | hone
      · rw [hn] at hnew
        cases hnew
      · rw [hone] at hnew
        rw [List.mem_singleton.mp hnew]
        exact hkey
  · intro key' hk' sink hs
    rw [delivered_append]
    rcases List.mem_append.mp hk' with hold | hnew
    · obtain ⟨o', ho', hd⟩ := h.recorded.complete key' hold sink hs
      exact ⟨o', List.mem_append_left _ ho', hd⟩
    · rw [List.mem_singleton.mp hnew]
      exact ⟨o, List.mem_append_right _ ((delivered_handed http kafka f o sink).2 ht hs), hkey⟩
  · intro before o₁ after hlog sink hs
    rcases split_append hlog with ⟨rest, hold⟩ | ⟨rest, -, hnew⟩
    · exact h.delivers.suppressed before o₁ rest hold sink hs
    · exact absurd (hnew ▸ List.mem_append_right _ List.mem_cons_self) handed_not_suppressed
  · intro sink
    rw [delivered_append]
    rcases (delivered_handed http kafka f o sink).1 with hn | hone
    · rw [hn, List.append_nil]
      exact h.delivers.once sink
    · rw [hone]
      refine List.pairwise_append.mpr ⟨h.delivers.once sink, List.pairwise_singleton _ _, ?_⟩
      intro o' ho' o₁ ho₁ hsm
      rw [List.mem_singleton.mp ho₁] at hsm
      obtain ⟨key', hk', hd⟩ := h.recorded.keys sink o' ho'
      rw [hsm.dedupKey_eq, hkey] at hd
      rw [Option.some.inj hd] at hmem
      exact hmem hk'

lemma Inv.step (h : Inv env http kafka s) (hs : Sound env http kafka s d)
    (hst : dispatchStep env http kafka s d = some s') : Inv env http kafka s' := by
  obtain rfl | ⟨o, key, ho, hg, hkey, ⟨hmem, rfl⟩ | ⟨hmem, rfl⟩⟩ := dispatch_cases hst
  · exact h
  · exact h.suppress hmem (hs o ho hg key hkey).2
  · exact h.hand hkey hmem ((hs o ho hg key hkey).1 hmem)

lemma inv_init : Inv env http kafka ⟨[], []⟩ := by
  refine ⟨⟨fun _ _ h => absurd h List.not_mem_nil, fun _ h => absurd h List.not_mem_nil⟩, ?_, fun _ => List.Pairwise.nil⟩
  intro before o after hlog
  exact absurd hlog.symm (by simp)

/-- **Deduplication loses and repeats nothing**, as long as the sinks take every new order and no two orders share a
key. -/
theorem dedup_delivers (env : Env) (http kafka : Bool) {s : DispatchState}
    (h : Run (dispatchStep env http kafka) (Sound env http kafka) ⟨[], []⟩ s) : Delivers http kafka s.log :=
  (Run.invariant (I := Inv env http kafka) inv_init (fun _ _ _ hinv hsound hstep => hinv.step hsound hstep) h).delivers

/-! ### A sink that fails -/

def oneBought : Fields :=
  Dict.ofList [("symbol", .str "AAPL"), ("side", .str "buy"), ("quantity", .int 1), ("timestamp", .int 1)]

def bought (faults : Faults) : Dispatch := ⟨none, faults, .dict oneBought⟩

def suppressedAfter (kafka : Bool) (log : List Entry) : Bool :=
  match log with
  | [.call .http (.dict _) true, .call .kafka (.dict _) delivered, .suppressed _] => delivered == kafka
  | _ => false

lemma dispatch_new (faults : Faults) : dispatchStep .ascii true true ⟨[], []⟩ (bought faults) =
    some ⟨["buy|1|1|AAPL"], handed true true faults oneBought⟩ := by
  obtain ⟨service, ⟨first, second⟩, kafka⟩ := faults
  cases first <;> cases kafka <;> rfl

/-- An order that comes again is suppressed, as both sinks have it. -/
theorem dedup_delivers_twice : ∃ s, Run (dispatchStep .ascii true true) (Sound .ascii true true) ⟨[], []⟩ s ∧
      suppressedAfter true s.log = true ∧ Delivers true true s.log := by
  have hkey : dedupKey .ascii oneBought = some "buy|1|1|AAPL" := by decide +kernel
  -- the order is new, and then the one that was delivered
  have hnew : Sound .ascii true true ⟨[], []⟩ (bought ⟨false, (false, false), false⟩) :=
    fun _ _ _ _ _ => ⟨fun _ => rfl, fun _ _ h => absurd h List.not_mem_nil⟩
  have hagain : Sound .ascii true true ⟨["buy|1|1|AAPL"], handed true true ⟨false, (false, false), false⟩ oneBought⟩
      (bought ⟨false, (false, false), false⟩) := by
    intro o ho _ key hdedup
    obtain rfl : oneBought = o := Payload.dict.inj ho
    cases hdedup
    refine ⟨fun h => absurd (.head _) h, fun sink o' ho' _ => ?_⟩
    rcases (delivered_handed true true ⟨false, (false, false), false⟩ oneBought sink).1 with hnone | hone
    · rw [hnone] at ho'
      cases ho'
    · rw [hone] at ho'
      rw [List.mem_singleton.mp ho']
      exact fun _ => rfl
  have hrun := Run.next (Run.next .init hnew (dispatch_new _)) hagain rfl
  exact ⟨_, hrun, rfl, dedup_delivers .ascii true true hrun⟩

/-- **An order is lost**: Kafka fails and the dispatch raises, and the order is suppressed as it is dispatched again. -/
theorem order_lost :
    ∃ s, Run (dispatchStep .ascii true true) (fun _ _ => True) ⟨[], []⟩ s ∧ ¬Delivers true true s.log := by
  have hrun := Run.next (P := fun _ _ => True) (Run.next .init trivial (dispatch_new ⟨false, (false, false), true⟩)) trivial
    (show dispatchStep .ascii true true _ (bought ⟨false, (false, false), false⟩) = some _ from rfl)
  refine ⟨_, hrun, fun h => ?_⟩
  obtain ⟨o, ho, -⟩ := h.suppressed (handed true true ⟨false, (false, false), true⟩ oneBought) oneBought [] rfl .kafka
    (by decide)
  cases ho

end Qmtl.Runtime

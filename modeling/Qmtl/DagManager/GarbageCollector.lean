import Mathlib.Tactic
import Qmtl.Lib.Dict
import Qmtl.Lib.Run

/-!
The garbage collector drops the topics that no node is bound to once the time of their policy is past.

`collectBatch` is a round that nothing comes between. Diffs run in threads of their own and other
processes share the broker, so a round is also given step by step (`turn`): it lists the topics, looks up
their nodes one after another, selects, and drops one topic after another, among any other changes and
any other rounds. `alone_collects` relates the two.
-/

namespace Qmtl.DagManager.GarbageCollector

open Lib (Dict Run)

structure GcRule where
  ttl : ℤ
  grace : ℤ
  action : String

structure QueueInfo where
  name : String
  tag : String
  createdAt : ℤ
  interval : Option ℤ

/-- A topic as the broker lists it. -/
structure QueueMetadata where
  name : String
  tag : String
  createdAt : Option ℤ
  interval : Option ℤ

/-- A topic without a time of creation counts as made when it is listed. -/
def QueueMetadata.asQueueInfo (listedAt : ℤ) (m : QueueMetadata) : QueueInfo :=
  ⟨m.name, m.tag, m.createdAt.getD listedAt, m.interval⟩

structure CleanupReportItem where
  queue : String
  tag : String
  interval : Option ℤ
  action : String
  reason : String
  archiveStatus : Option String := none

structure CleanupReport where
  observed : ℕ
  candidates : ℕ
  processed : List QueueInfo
  skipped : List CleanupReportItem
  actions : Dict String ℕ
  byTag : Dict String ℕ
  items : List CleanupReportItem

/-- The topics in the order the broker lists them, and the ones that nodes are bound to. -/
structure Store where
  topics : List QueueMetadata
  bound : String → Bool

/-- What a round meets: for each topic, whether looking up its node raises, whether its archive is
written (`none` without a client), whether its deletion takes effect and whether it returns. -/
structure Surroundings where
  now : ℤ
  listedAt : ℤ
  messagesInPerSec : ℚ
  unreadable : String → Bool
  archive : Option (String → Bool)
  deletes : String → Bool
  answers : String → Bool

variable (policy : String → Option GcRule) (batchSize : ℕ) (r : Surroundings)

namespace Store

variable (s : Store)

def orphansAmong (topics : List QueueMetadata) : List QueueInfo :=
  (topics.filter fun m => !(s.bound m.name || r.unreadable m.name)).map (QueueMetadata.asQueueInfo r.listedAt)

def listOrphanQueues : List QueueInfo := s.orphansAmong r s.topics

def dropQueue (name : String) : Store := { s with topics := s.topics.filter fun m => m.name ≠ name }

end Store

def reportItem (q : QueueInfo) (action reason : String) (archiveStatus : Option String := none) : CleanupReportItem :=
  ⟨q.name, q.tag, q.interval, action, reason, archiveStatus⟩

def GcRule.overdue (rule : GcRule) (now : ℤ) (q : QueueInfo) : Bool := rule.ttl + rule.grace ≤ now - q.createdAt

def selectCandidates : List QueueInfo → List (QueueInfo × GcRule) × List CleanupReportItem
  | [] => ([], [])
  | q :: qs =>
    let (candidates, skipped) := selectCandidates qs
    match policy q.tag with
    | none => (candidates, reportItem q "skip" "unknown_policy" :: skipped)
    | some rule =>
      if rule.overdue r.now q then ((q, rule) :: candidates, skipped)
      else (candidates, reportItem q "skip" "within_grace" :: skipped)

def adjustBatchSize : ℕ := if 80 ≤ r.messagesInPerSec then max 1 (batchSize / 2) else batchSize

/-- What a round has done so far; `raised` once a deletion has raised, which ends the round. -/
structure Batch where
  store : Store
  processed : List QueueInfo := []
  processedItems : List CleanupReportItem := []
  skipped : List CleanupReportItem := []
  raised : Bool := false

namespace Batch

variable (b : Batch)

def drop (q : QueueInfo) (item : CleanupReportItem) : Batch :=
  let b := if r.deletes q.name then { b with store := b.store.dropQueue q.name } else b
  if r.answers q.name then
    { b with processed := b.processed ++ [q], processedItems := b.processedItems ++ [item] }
  else { b with raised := true }

def process (q : QueueInfo) (rule : GcRule) : Batch :=
  if rule.action = "drop" then b.drop r q (reportItem q "drop" "eligible")
  else if rule.action = "archive" then
    match r.archive with
    | none => b.drop r q (reportItem q "archive" "eligible" (some "missing_client"))
    | some archive =>
      if archive q.name then b.drop r q (reportItem q "archive" "eligible" (some "archived"))
      else { b with skipped := b.skipped ++ [reportItem q "skip" "archive_failed" (some "failed")] }
  else { b with processed := b.processed ++ [q] }

end Batch

def processBatch (b : Batch) : List (QueueInfo × GcRule) → Batch
  | [] => b
  | (q, rule) :: qs => if b.raised then b else processBatch (b.process r q rule) qs

def count (d : Dict String ℕ) (key : String) : Dict String ℕ := d.set key ((d.get? key).getD 0 + 1)

def countActions (items : List CleanupReportItem) : Dict String ℕ :=
  items.foldl (fun d item => count d item.action) (Dict.ofList [("drop", 0), ("archive", 0), ("skip", 0)])

def countByTag (queues : List QueueInfo) : Dict String ℕ := queues.foldl (fun d q => count d q.tag) Dict.empty

def batch (s : Store) : List (QueueInfo × GcRule) :=
  (selectCandidates policy r (s.listOrphanQueues r)).1.take (adjustBatchSize batchSize r)

def collectBatch (s : Store) : Batch := processBatch r { store := s } (batch policy batchSize r s)

/-- The report of a round; `none` where a deletion raised. -/
def collectReport (s : Store) : Option CleanupReport :=
  let queues := s.listOrphanQueues r
  let (candidates, skipped) := selectCandidates policy r queues
  let b := collectBatch policy batchSize r s
  let items := b.processedItems ++ (skipped ++ b.skipped)
  if b.raised then none
  else some ⟨queues.length, candidates.length, b.processed, skipped ++ b.skipped, countActions items,
    countByTag queues, items⟩

/-! ### Runs of the broker and the repository -/

inductive Event where
  | create (m : QueueMetadata)
  | bind (name : String)
  | unbind (name : String)
  | collect (r : Surroundings)

def step (s : Store) : Event → Option Store
  | .create m => if m.name ∈ s.topics.map QueueMetadata.name then none else some { s with topics := s.topics ++ [m] }
  | .bind name => some { s with bound := Function.update s.bound name true }
  | .unbind name => some { s with bound := Function.update s.bound name false }
  | .collect r => some (collectBatch policy batchSize r s).store

variable {policy : String → Option GcRule} {batchSize : ℕ} {r : Surroundings}

variable {rule : GcRule}

lemma mem_selectCandidates {qs : List QueueInfo} {q : QueueInfo} :
    (q, rule) ∈ (selectCandidates policy r qs).1 ↔ q ∈ qs ∧ policy q.tag = some rule ∧ rule.overdue r.now q := by
  induction qs with
  | nil => simp [selectCandidates]
  | cons p qs ih =>
    rw [selectCandidates]
    dsimp only
    split
    · rename_i hn
      rw [ih, List.mem_cons]
      constructor
      · exact fun h => ⟨.inr h.1, h.2⟩
      · rintro ⟨rfl | hm, hr, ho⟩
        · rw [hn] at hr
          cases hr
        · exact ⟨hm, hr, ho⟩
    · rename_i rule' hr'
      split
      · rename_i ho'
        rw [List.mem_cons, ih, List.mem_cons, Prod.mk.injEq]
        constructor
        · rintro (⟨rfl, rfl⟩ | h)
          · exact ⟨.inl rfl, hr', ho'⟩
          · exact ⟨.inr h.1, h.2⟩
        · rintro ⟨rfl | hm, hr, ho⟩
          · exact .inl ⟨rfl, Option.some.inj (hr.symm.trans hr')⟩
          · exact .inr ⟨hm, hr, ho⟩
      · rename_i ho'
        rw [ih, List.mem_cons]
        constructor
        · exact fun h => ⟨.inr h.1, h.2⟩
        · rintro ⟨rfl | hm, hr, ho⟩
          · rw [hr'] at hr
            cases hr
            exact absurd ho ho'
          · exact ⟨hm, hr, ho⟩

lemma mem_batch {s : Store} {e : QueueInfo × GcRule} (h : e ∈ batch policy batchSize r s) :
    ∃ m ∈ s.topics, e.1 = m.asQueueInfo r.listedAt ∧ s.bound m.name = false ∧ r.unreadable m.name = false ∧
      policy m.tag = some e.2 ∧ e.2.overdue r.now e.1 := by
  obtain ⟨q, rule⟩ := e
  obtain ⟨hq, hr, ho⟩ := mem_selectCandidates.mp (List.mem_of_mem_take h)
  obtain ⟨m, hm, rfl⟩ := List.mem_map.mp hq
  obtain ⟨hm, hf⟩ := List.mem_filter.mp hm
  simp only [Bool.not_or, Bool.and_eq_true, Bool.not_eq_true'] at hf
  exact ⟨m, hm, rfl, hf.1, hf.2, hr, ho⟩

/-- The rule has the topic dropped once its time is past, with its archive written if there is a client. -/
def GcRule.Lets (rule : GcRule) (r : Surroundings) (name : String) : Prop :=
  rule.action = "drop" ∨ rule.action = "archive" ∧ ∀ archive ∈ r.archive, archive name = true

section Process

variable {b : Batch} {q : QueueInfo} {rule : GcRule}

lemma store_drop (b : Batch) (q : QueueInfo) (item : CleanupReportItem) :
    (b.drop r q item).store = b.store ∨ (b.drop r q item).store = b.store.dropQueue q.name := by
  unfold Batch.drop
  by_cases hd : r.deletes q.name
  · rw [if_pos hd]
    right
    split <;> rfl
  · rw [if_neg hd]
    left
    split <;> rfl

lemma store_process (b : Batch) (q : QueueInfo) (rule : GcRule) : (b.process r q rule).store = b.store ∨
    rule.Lets r q.name ∧ (b.process r q rule).store = b.store.dropQueue q.name := by
  unfold Batch.process
  split
  · rename_i hd
    exact (store_drop _ _ _).imp_right fun h => ⟨.inl hd, h⟩
  · split
    · rename_i ha
      split
      · rename_i hn
        exact (store_drop _ _ _).imp_right fun h => ⟨.inr ⟨ha, by simp [hn]⟩, h⟩
      · rename_i archive hs
        split
        · rename_i hw
          exact (store_drop _ _ _).imp_right fun h => ⟨.inr ⟨ha, by simpa [hs] using hw⟩, h⟩
        · exact .inl rfl
    · exact .inl rfl

lemma topics_process (b : Batch) (q : QueueInfo) (rule : GcRule) :
    (b.process r q rule).store.bound = b.store.bound ∧ (b.process r q rule).store.topics.Sublist b.store.topics ∧
      ∀ m ∈ b.store.topics, (rule.Lets r q.name → m.name ≠ q.name) → m ∈ (b.process r q rule).store.topics := by
  rcases store_process (r := r) b q rule with hs | ⟨hl, hs⟩
  · rw [hs]
    exact ⟨rfl, .refl _, fun m hm _ => hm⟩
  · rw [hs]
    exact ⟨rfl, List.filter_sublist, fun m hm hne => List.mem_filter.mpr ⟨hm, decide_eq_true (hne hl)⟩⟩

lemma topics_processBatch (b : Batch) (l : List (QueueInfo × GcRule)) :
    (processBatch r b l).store.bound = b.store.bound ∧ (processBatch r b l).store.topics.Sublist b.store.topics ∧
      ∀ m ∈ b.store.topics, (∀ e ∈ l, e.2.Lets r e.1.name → m.name ≠ e.1.name) → m ∈ (processBatch r b l).store.topics := by
  induction l generalizing b with
  | nil => exact ⟨rfl, .refl _, fun m hm _ => hm⟩
  | cons e l ih =>
    unfold processBatch
    split
    · exact ⟨rfl, .refl _, fun m hm _ => hm⟩
    · obtain ⟨hb, hs, hm⟩ := topics_process (r := r) b e.1 e.2
      obtain ⟨hb', hs', hm'⟩ := ih (b.process r e.1 e.2)
      refine ⟨hb'.trans hb, hs'.trans hs, fun m ht hne => ?_⟩
      exact hm' m (hm m ht (hne e (.head _))) fun e' he' => hne e' (.tail _ he')

end Process

/-! ### What is not due stays -/

def Named (s : Store) : Prop := (s.topics.map QueueMetadata.name).Nodup

lemma Named.step {s s' : Store} (h : Named s) {e : Event} (hs : step policy batchSize s e = some s') : Named s' := by
  cases e with
  | create m =>
    simp only [GarbageCollector.step] at hs
    split at hs
    · cases hs
    · rename_i hn
      cases hs
      rw [Named, List.map_append]
      refine List.nodup_append.mpr ⟨h, List.nodup_singleton _, ?_⟩
      rintro a ha b hb rfl
      exact hn (List.mem_singleton.mp hb ▸ ha)
  | bind name =>
    cases hs
    exact h
  | unbind name =>
    cases hs
    exact h
  | collect r =>
    cases hs
    exact h.sublist ((topics_processBatch _ _).2.1.map _)

/-- A round may drop the topic: no node is bound to it, and its rule lets it go by now. -/
def Due (policy : String → Option GcRule) (m : QueueMetadata) (s : Store) (r : Surroundings) : Prop :=
  s.bound m.name = false ∧ r.unreadable m.name = false ∧ ∃ rule, policy m.tag = some rule ∧
    rule.overdue r.now (m.asQueueInfo r.listedAt) = true ∧ rule.Lets r m.name

/-! ### Rounds among other changes -/

/-- A round under way: the topics it has listed and not looked up yet with the orphans found so far, or
what is left of its batch. -/
inductive Round where
  | looking (r : Surroundings) (unseen : List QueueMetadata) (queues : List QueueInfo)
  | dropping (r : Surroundings) (todo : List (QueueInfo × GcRule))

/-- The broker and the repository, with every round that has begun. -/
structure Shared where
  store : Store
  rounds : List Round

inductive Turn where
  | change (e : Event)
  | list (r : Surroundings)
  | look (k : ℕ) (listedAt : ℤ)
  | select (k : ℕ)
  | drop (k : ℕ)

def turn (policy : String → Option GcRule) (batchSize : ℕ) (y : Shared) : Turn → Option Shared
  | .change (.collect _) => none
  | .change e => (step policy batchSize y.store e).map fun s => { y with store := s }
  | .list r => some { y with rounds := y.rounds ++ [.looking r y.store.topics []] }
  | .look k listedAt =>
    match y.rounds[k]? with
    | some (.looking r (m :: unseen) queues) => some { y with
        rounds := y.rounds.set k (.looking r unseen (queues ++ y.store.orphansAmong { r with listedAt } [m])) }
    | _ => none
  | .select k =>
    match y.rounds[k]? with
    | some (.looking r [] queues) => some { y with
        rounds := y.rounds.set k (.dropping r ((selectCandidates policy r queues).1.take (adjustBatchSize batchSize r))) }
    | _ => none
  | .drop k =>
    match y.rounds[k]? with
    | some (.dropping r ((q, rule) :: todo)) =>
      -- no second lookup: the node may have been bound since
      let b := Batch.process r { store := y.store } q rule
      some ⟨b.store, y.rounds.set k (.dropping r (if b.raised then [] else todo))⟩
    | _ => none

/-- No round finds the topic due when it looks it up. -/
def Spares (policy : String → Option GcRule) (m : QueueMetadata) (y : Shared) : Turn → Prop
  | .look k listedAt => ∀ r unseen queues, y.rounds[k]? = some (.looking r (m :: unseen) queues) →
      ¬ Due policy m y.store { r with listedAt }
  | _ => True

/-- The round will not drop the topic. -/
def Round.Passes (policy : String → Option GcRule) (m : QueueMetadata) : Round → Prop
  | .looking r unseen queues => (∀ p ∈ unseen, p.name = m.name → p = m) ∧
      ∀ q ∈ queues, q.name = m.name → ∀ rule, policy q.tag = some rule → rule.overdue r.now q = true →
        ¬ rule.Lets r m.name
  | .dropping r todo => ∀ e ∈ todo, e.1.name = m.name → ¬ e.2.Lets r m.name

structure Kept (policy : String → Option GcRule) (m : QueueMetadata) (y : Shared) : Prop where
  named : Named y.store
  mem : m ∈ y.store.topics
  passes : ∀ d ∈ y.rounds, d.Passes policy m

section Rounds

variable {m : QueueMetadata} {y y' : Shared}

lemma mem_of_change {s s' : Store} {e : Event} (hm : m ∈ s.topics) (he : ∀ r, e ≠ .collect r)
    (hs : step policy batchSize s e = some s') : m ∈ s'.topics := by
  cases e with
  | create p =>
    simp only [step] at hs
    split at hs <;> cases hs
    exact List.mem_append_left _ hm
  | bind name =>
    cases hs
    exact hm
  | unbind name =>
    cases hs
    exact hm
  | collect r => exact absurd rfl (he r)

lemma turn_change {e : Event} (h : turn policy batchSize y (.change e) = some y') :
    (∀ r, e ≠ .collect r) ∧ ∃ s, step policy batchSize y.store e = some s ∧ y' = { y with store := s } := by
  cases e with
  | collect r => cases h
  | _ =>
    simp only [turn, Option.map_eq_some_iff] at h
    obtain ⟨s, hs, rfl⟩ := h
    exact ⟨by simp, s, hs, rfl⟩

lemma Kept.set {d : Round} {k : ℕ} {s : Store} (h : Kept policy m y) (hn : Named s) (hm : m ∈ s.topics)
    (hd : d.Passes policy m) : Kept policy m ⟨s, y.rounds.set k d⟩ :=
  ⟨hn, hm, fun d' hd' => (List.mem_or_eq_of_mem_set hd').elim (h.passes d') fun he => he ▸ hd⟩

lemma Kept.look {r : Surroundings} {unseen : List QueueMetadata} {queues : List QueueInfo} {p : QueueMetadata}
    {listedAt : ℤ} (hd : (Round.looking r (p :: unseen) queues).Passes policy m)
    (hs : p = m → ¬ Due policy m y.store { r with listedAt }) :
    (Round.looking r unseen (queues ++ y.store.orphansAmong { r with listedAt } [p])).Passes policy m := by
  refine ⟨fun p' hp' => hd.1 p' (.tail _ hp'), ?_⟩
  intro q hq hqn rule hr ho hl
  rcases List.mem_append.mp hq with hq | hq
  · exact hd.2 q hq hqn rule hr ho hl
  · obtain ⟨p', hp', rfl⟩ := List.mem_map.mp hq
    obtain ⟨hp', hf⟩ := List.mem_filter.mp hp'
    obtain rfl := List.mem_singleton.mp hp'
    -- what is looked up under the topic's name is the topic
    obtain rfl := hd.1 p' (.head _) hqn
    simp only [Bool.not_or, Bool.and_eq_true, Bool.not_eq_true'] at hf
    exact hs rfl ⟨hf.1, hf.2, rule, hr, ho, hl⟩

lemma Kept.turn (h : Kept policy m y) {t : Turn} (hp : Spares policy m y t)
    (hs : turn policy batchSize y t = some y') : Kept policy m y' := by
  cases t with
  | change e =>
    obtain ⟨he, s, hst, rfl⟩ := turn_change hs
    exact ⟨h.named.step hst, mem_of_change h.mem he hst, h.passes⟩
  | list r =>
    cases hs
    refine ⟨h.named, h.mem, ?_⟩
    intro d hd
    rcases List.mem_append.mp hd with hd | hd
    · exact h.passes d hd
    · rw [List.mem_singleton.mp hd]
      exact ⟨fun p hp hpn => List.inj_on_of_nodup_map h.named hp h.mem hpn, by simp⟩
  | look k listedAt =>
    simp only [GarbageCollector.turn] at hs
    split at hs
    · rename_i r p unseen queues hk
      cases hs
      refine h.set h.named h.mem (Kept.look (h.passes _ (List.mem_of_getElem? hk)) ?_)
      rintro rfl
      exact hp r unseen queues hk
    · cases hs
  | select k =>
    simp only [GarbageCollector.turn] at hs
    split at hs
    · rename_i r queues hk
      cases hs
      refine h.set h.named h.mem ?_
      rintro ⟨q, rule⟩ he hqn
      obtain ⟨hq, hr, ho⟩ := mem_selectCandidates.mp (List.mem_of_mem_take he)
      exact (h.passes _ (List.mem_of_getElem? hk)).2 q hq hqn rule hr ho
    · cases hs
  | drop k =>
    simp only [GarbageCollector.turn] at hs
    split at hs
    · rename_i r q rule todo hk
      cases hs
      have hd := h.passes _ (List.mem_of_getElem? hk)
      obtain ⟨-, hsub, hmem⟩ := topics_process (r := r) { store := y.store } q rule
      refine h.set (h.named.sublist (hsub.map _)) (hmem m h.mem fun hl hn => hd _ (.head _) hn.symm (hn ▸ hl)) ?_
      split
      · simp [Round.Passes]
      · exact fun e he => hd e (.tail _ he)
    · cases hs

lemma process_store (b : Batch) (q : QueueInfo) (rule : GcRule) :
    (b.process r q rule).store = (Batch.process r { store := b.store } q rule).store ∧
      (b.process r q rule).raised = (b.raised || (Batch.process r { store := b.store } q rule).raised) := by
  unfold Batch.process Batch.drop
  split_ifs <;> (try split) <;> (try split_ifs) <;> simp

variable (policy batchSize r) in
lemma looks_alone (s : Store) (rounds : List Round) (unseen : List QueueMetadata) (queues : List QueueInfo) :
    Run (GarbageCollector.turn policy batchSize) (fun _ _ => True) ⟨s, rounds ++ [.looking r unseen queues]⟩
      ⟨s, rounds ++ [.looking r [] (queues ++ s.orphansAmong r unseen)]⟩ := by
  induction unseen generalizing queues with
  | nil => simpa [Store.orphansAmong] using Run.init
  | cons m unseen ih =>
    have hq : queues ++ s.orphansAmong r (m :: unseen) =
        queues ++ s.orphansAmong r [m] ++ s.orphansAmong r unseen := by
      rw [List.append_assoc, Store.orphansAmong, Store.orphansAmong, Store.orphansAmong, ← List.map_append,
        ← List.filter_append, List.singleton_append]
    rw [hq]
    refine (Run.init.next (e := Turn.look rounds.length r.listedAt) trivial ?_).trans (ih _)
    simp [GarbageCollector.turn]

variable (policy batchSize r) in
lemma drops_alone (rounds : List Round) (todo : List (QueueInfo × GcRule)) (b : Batch) (hb : b.raised = false) :
    ∃ d, Run (GarbageCollector.turn policy batchSize) (fun _ _ => True) ⟨b.store, rounds ++ [.dropping r todo]⟩
      ⟨(processBatch r b todo).store, rounds ++ [d]⟩ := by
  induction todo generalizing b with
  | nil => exact ⟨_, .init⟩
  | cons e todo ih =>
    obtain ⟨hs, hr⟩ := process_store (r := r) b e.1 e.2
    simp only [hb, Bool.false_or] at hr
    have hstep : GarbageCollector.turn policy batchSize ⟨b.store, rounds ++ [.dropping r (e :: todo)]⟩ (.drop rounds.length) =
        some ⟨(b.process r e.1 e.2).store,
          rounds ++ [.dropping r (if (b.process r e.1 e.2).raised then [] else todo)]⟩ := by
      simp [GarbageCollector.turn, hs, hr]
    simp only [processBatch, hb, Bool.false_eq_true, if_false]
    cases hc : (b.process r e.1 e.2).raised with
    | true =>
      have hend : processBatch r (b.process r e.1 e.2) todo = b.process r e.1 e.2 := by
        cases todo <;> simp [processBatch, hc]
      rw [hend]
      exact ⟨_, Run.init.next trivial hstep⟩
    | false =>
      obtain ⟨d, hd⟩ := ih _ hc
      simp only [hc, Bool.false_eq_true, if_false] at hstep
      exact ⟨d, (Run.init.next trivial hstep).trans hd⟩

/-- A round that nothing comes between does what `collectBatch` does. -/
theorem alone_collects (r : Surroundings) (s : Store) (rounds : List Round) :
    ∃ d, Run (GarbageCollector.turn policy batchSize) (fun _ _ => True) ⟨s, rounds⟩
      ⟨(collectBatch policy batchSize r s).store, rounds ++ [d]⟩ := by
  have hl := looks_alone policy batchSize r s rounds s.topics []
  obtain ⟨d, hd⟩ := drops_alone policy batchSize r rounds (batch policy batchSize r s) { store := s } rfl
  refine ⟨d, (((Run.init.next (e := Turn.list r) trivial rfl).trans hl).next (e := Turn.select rounds.length) trivial ?_).trans hd⟩
  simp [GarbageCollector.turn, batch, Store.listOrphanQueues]

end Rounds

def calm : Surroundings := ⟨10, 10, 0, fun _ => false, none, fun _ => true, fun _ => true⟩

def rawTopic (name : String) : QueueMetadata := ⟨name, "raw", some 0, none⟩

def dropAll : String → Option GcRule := fun _ => some ⟨7, 1, "drop"⟩

/-- A round in which nothing fails. -/
structure Smooth (r : Surroundings) : Prop where
  deletes : ∀ name, r.deletes name = true
  answers : ∀ name, r.answers name = true
  archives : ∀ archive ∈ r.archive, ∀ name, archive name = true

/-- Every rule of the policy drops or archives. -/
def Acts (policy : String → Option GcRule) : Prop :=
  ∀ tag rule, policy tag = some rule → rule.action = "drop" ∨ rule.action = "archive"

lemma process_of_smooth (h : Smooth r) (ha : rule.action = "drop" ∨ rule.action = "archive")
    (b : Batch) (q : QueueInfo) :
    (b.process r q rule).store = b.store.dropQueue q.name ∧ (b.process r q rule).raised = b.raised := by
  have hd : ∀ item, (b.drop r q item).store = b.store.dropQueue q.name ∧ (b.drop r q item).raised = b.raised := by
    intro item
    simp [Batch.drop, h.deletes, h.answers]
  unfold Batch.process
  split
  · exact hd _
  · rename_i hn
    rw [if_pos (ha.resolve_left hn)]
    split
    · exact hd _
    · rename_i archive hs
      rw [if_pos (h.archives archive hs q.name)]
      exact hd _

lemma topics_of_smooth (h : Smooth r) {l : List (QueueInfo × GcRule)}
    (hl : ∀ e ∈ l, e.2.action = "drop" ∨ e.2.action = "archive") {b : Batch} (hb : b.raised = false) :
    (processBatch r b l).store.topics = b.store.topics.filter fun m => m.name ∉ l.map fun e => e.1.name := by
  induction l generalizing b with
  | nil => simp [processBatch]
  | cons e l ih =>
    obtain ⟨hs, hr⟩ := process_of_smooth h (hl e (.head _)) b e.1
    unfold processBatch
    rw [if_neg (by simp [hb]), ih (fun e he => hl e (.tail _ he)) (hr.trans hb), hs, Store.dropQueue,
      List.filter_filter]
    congr 1
    funext m
    rw [Bool.eq_iff_iff]
    simp [and_comm]

lemma selectCandidates_append (xs ys : List QueueInfo) : (selectCandidates policy r (xs ++ ys)).1 =
    (selectCandidates policy r xs).1 ++ (selectCandidates policy r ys).1 := by
  induction xs with
  | nil => rfl
  | cons x xs ih =>
    rw [List.cons_append, selectCandidates, selectCandidates]
    dsimp only
    split
    · exact ih
    · split
      · rw [ih]
        rfl
      · exact ih

lemma selectCandidates_sublist (policy : String → Option GcRule) (r : Surroundings) (xs : List QueueInfo) :
    ((selectCandidates policy r xs).1.map Prod.fst).Sublist xs := by
  induction xs with
  | nil => exact .refl _
  | cons x xs ih =>
    rw [selectCandidates]
    dsimp only
    split
    · exact ih.cons x
    · split
      · exact ih.cons_cons x
      · exact ih.cons x

lemma length_filter_notMem {D names : List String} (h : D.Sublist names) :
    (names.filter (· ∉ D)).length + D.length ≤ names.length := by
  have hd : D.Sublist (names.filter (· ∈ D)) := by
    have := h.filter (· ∈ D)
    rwa [List.filter_eq_self.mpr (by simp)] at this
  have hs := List.length_eq_length_filter_add (l := names) fun x => decide (x ∈ D)
  have hl := hd.length_le
  simp only [decide_not] at *
  omega

/-- `n` topics are listed before this one. -/
def StandsAt (s : Store) (m : QueueMetadata) (n : ℕ) : Prop :=
  ∃ before after, s.topics = before ++ m :: after ∧ before.length = n

/-- A smooth round drops a topic that is due, or as many before it as the batch holds. -/
theorem collect_advances {s : Store} {n : ℕ} (hn : Named s) (hp : Acts policy) (hr : Smooth r)
    (hd : Due policy m s r) (hm : StandsAt s m n) :
    m.name ∉ (collectBatch policy batchSize r s).store.topics.map QueueMetadata.name ∨
      ∃ k, StandsAt (collectBatch policy batchSize r s).store m k ∧ k + adjustBatchSize batchSize r ≤ n := by
  obtain ⟨before, after, ht, rfl⟩ := hm
  obtain ⟨hb, hu, rule, hrl, ho, -⟩ := hd
  have ha : (collectBatch policy batchSize r s).store.topics =
      s.topics.filter fun m => m.name ∉ (batch policy batchSize r s).map fun e => e.1.name := by
    refine topics_of_smooth hr (fun e he => ?_) rfl
    obtain ⟨p, -, -, -, -, hr, -⟩ := mem_batch he
    exact hp _ _ hr
  have hc : ∃ early late, (selectCandidates policy r (s.listOrphanQueues r)).1 = early ++ (m.asQueueInfo r.listedAt, rule) :: late ∧
      (early.map fun e => e.1.name).Sublist (before.map QueueMetadata.name) := by
    refine ⟨(selectCandidates policy r (s.orphansAmong r before)).1, (selectCandidates policy r (s.orphansAmong r after)).1, ?_, ?_⟩
    · rw [Store.listOrphanQueues, ht, Store.orphansAmong, List.filter_append,
        List.filter_cons_of_pos (by simp [hb, hu]), List.map_append, List.map_cons, selectCandidates_append]
      congr 1
      rw [selectCandidates]
      simp only [show policy (m.asQueueInfo r.listedAt).tag = some rule from hrl, ho, if_true]
      rfl
    · have hs := (selectCandidates_sublist policy r (s.orphansAmong r before)).map QueueInfo.name
      rw [Store.orphansAmong, List.map_map, List.map_map] at hs
      exact hs.trans (List.filter_sublist.map _)
  obtain ⟨early, late, hc, hs⟩ := hc
  obtain ⟨names, hnm⟩ : ∃ names, names = (batch policy batchSize r s).map fun e => e.1.name := ⟨_, rfl⟩
  rw [← hnm] at ha
  rw [batch, hc] at hnm
  by_cases hk : adjustBatchSize batchSize r ≤ early.length
  · -- the batch ends before the topic
    right
    rw [List.take_append_of_le_length hk] at hnm
    have hsub : names.Sublist (before.map QueueMetadata.name) := hnm ▸ ((List.take_sublist _ early).map _).trans hs
    have hnot : m.name ∉ names := by
      intro hm
      have hnd : ((before ++ m :: after).map QueueMetadata.name).Nodup := ht ▸ hn
      rw [List.map_append, List.map_cons] at hnd
      exact (List.nodup_append.mp hnd).2.2 _ (hsub.subset hm) _ (.head _) rfl
    refine ⟨_, ⟨before.filter (·.name ∉ names), after.filter (·.name ∉ names), ?_, rfl⟩, ?_⟩
    · rw [ha, ht, List.filter_append, List.filter_cons_of_pos (by simpa using hnot)]
    · have hl := length_filter_notMem hsub
      rw [List.filter_map, List.length_map, List.length_map] at hl
      have hlen : names.length = adjustBatchSize batchSize r := by
        rw [hnm, List.length_map, List.length_take, min_eq_left hk]
      exact hlen ▸ hl
  · left
    rw [ha, List.mem_map]
    rintro ⟨t, ht, hna⟩
    refine of_decide_eq_true (List.mem_filter.mp ht).2 ?_
    rw [hna, hnm, List.mem_map]
    refine ⟨(m.asQueueInfo r.listedAt, rule), ?_, rfl⟩
    rw [List.take_append, List.mem_append]
    right
    obtain ⟨j, hj⟩ : ∃ j, adjustBatchSize batchSize r - early.length = j + 1 := ⟨_, (Nat.succ_pred (by omega)).symm⟩
    rw [hj, List.take_succ_cons]
    exact .head _

def exec (policy : String → Option GcRule) (batchSize : ℕ) (s : Store) (es : List Event) : Option Store :=
  es.foldlM (step policy batchSize) s

/-- How many topics a step may take. -/
def Event.capacity (batchSize : ℕ) : Event → ℕ
  | .collect r => adjustBatchSize batchSize r
  | _ => 0

def capacity (batchSize : ℕ) (es : List Event) : ℕ := (es.map (Event.capacity batchSize)).sum

/-- No node is bound to the topic, none is made under its name, and each round is smooth and finds the topic due. -/
def Abandons (policy : String → Option GcRule) (m : QueueMetadata) : Event → Prop
  | .create p => p.name ≠ m.name
  | .bind name => name ≠ m.name
  | .unbind _ => True
  | .collect r => Smooth r ∧ ∀ s : Store, s.bound m.name = false → Due policy m s r

section Abandoned

variable {s s' : Store} {m : QueueMetadata} {e : Event}

lemma unbound_of_abandons (h : Abandons policy m e) (hu : s.bound m.name = false)
    (hs : step policy batchSize s e = some s') : s'.bound m.name = false := by
  cases e with
  | create p =>
    simp only [step] at hs
    split at hs <;> cases hs
    exact hu
  | bind name =>
    cases hs
    exact (Function.update_of_ne (Ne.symm h) _ _).trans hu
  | unbind name =>
    cases hs
    by_cases hn : m.name = name
    · exact hn ▸ Function.update_self ..
    · exact (Function.update_of_ne hn _ _).trans hu
  | collect r =>
    cases hs
    rw [collectBatch, (topics_processBatch _ _).1]
    exact hu

lemma gone_of_abandons (h : Abandons policy m e) (hg : m.name ∉ s.topics.map QueueMetadata.name)
    (hs : step policy batchSize s e = some s') : m.name ∉ s'.topics.map QueueMetadata.name := by
  cases e with
  | create p =>
    simp only [step] at hs
    split at hs <;> cases hs
    rw [List.map_append, List.mem_append]
    rintro (hm | hm)
    · exact hg hm
    · exact h (List.mem_singleton.mp hm).symm
  | bind name =>
    cases hs
    exact hg
  | unbind name =>
    cases hs
    exact hg
  | collect r =>
    cases hs
    exact fun hm => hg (((topics_processBatch _ _).2.1.map _).subset hm)

lemma advances_of_abandons {n : ℕ} (hn : Named s) (hp : Acts policy) (hu : s.bound m.name = false)
    (h : Abandons policy m e) (hm : StandsAt s m n) (hs : step policy batchSize s e = some s') :
    m.name ∉ s'.topics.map QueueMetadata.name ∨ ∃ k, StandsAt s' m k ∧ k + e.capacity batchSize ≤ n := by
  cases e with
  | create p =>
    simp only [step] at hs
    split at hs <;> cases hs
    obtain ⟨before, after, ht, hl⟩ := hm
    exact .inr ⟨n, ⟨before, after ++ [p], by simp [ht], hl⟩, le_refl _⟩
  | bind name =>
    cases hs
    exact .inr ⟨n, hm, le_refl _⟩
  | unbind name =>
    cases hs
    exact .inr ⟨n, hm, le_refl _⟩
  | collect r =>
    cases hs
    exact collect_advances hn hp h.1 (h.2 s hu) hm

/-- **No topic waits forever**: one that is due at every round is gone once the rounds have room for it and
for what is listed before it, whatever else is made, bound and unbound in between. Every rule drops or
archives, as the rules of `DEFAULT_POLICY` do, and the broker lists in a stable order with new topics last,
as the in-memory client does; Kafka lists in an order of its own. -/
theorem abandoned_topics_go {n : ℕ} {es : List Event} (hn : Named s) (hp : Acts policy) (hu : s.bound m.name = false)
    (hm : StandsAt s m n) (hes : ∀ e ∈ es, Abandons policy m e) (h : exec policy batchSize s es = some s')
    (hr : n < capacity batchSize es) : m.name ∉ s'.topics.map QueueMetadata.name := by
  have hst : ∀ {es : List Event} {s : Store}, (∀ e ∈ es, Abandons policy m e) →
      m.name ∉ s.topics.map QueueMetadata.name → exec policy batchSize s es = some s' →
        m.name ∉ s'.topics.map QueueMetadata.name := by
    intro es
    induction es with
    | nil =>
      intro s _ hg h
      cases h
      exact hg
    | cons e es ih =>
      intro s hes hg h
      obtain ⟨s₁, hs, h⟩ := Option.bind_eq_some_iff.mp h
      exact ih (fun e he => hes e (.tail _ he)) (gone_of_abandons (hes e (.head _)) hg hs) h
  induction es generalizing s n with
  | nil => exact absurd hr (Nat.not_lt_zero n)
  | cons e es ih =>
    have he := hes e (.head _)
    have hrs := fun e he => hes e (.tail _ he)
    obtain ⟨s₁, hs, h⟩ := Option.bind_eq_some_iff.mp h
    rcases advances_of_abandons hn hp hu he hm hs with hg | ⟨k, hk, hle⟩
    · exact hst hrs hg h
    · refine ih (hn.step hs) (unbound_of_abandons he hu hs) hk hrs h ?_
      rw [capacity, List.map_cons, List.sum_cons] at hr
      rw [capacity]
      omega

end Abandoned

/-- Two rounds of one topic each drop the second of two. -/
theorem abandoned_topics_go_second : ∃ s, exec dropAll 1 ⟨[rawTopic "a", rawTopic "b"], fun _ => false⟩
    [.collect calm, .collect calm] = some s ∧ "b" ∉ s.topics.map QueueMetadata.name := by
  have hsm : Smooth calm := ⟨fun _ => rfl, fun _ => rfl, fun _ h => by cases h⟩
  have hdue : ∀ e ∈ [Event.collect calm, .collect calm], Abandons dropAll (rawTopic "b") e := by
    have h : Abandons dropAll (rawTopic "b") (.collect calm) :=
      ⟨hsm, fun s hs => ⟨hs, rfl, ⟨7, 1, "drop"⟩, rfl, by decide, .inl rfl⟩⟩
    simpa using h
  refine ⟨_, rfl, abandoned_topics_go (m := rawTopic "b") (n := 1) ?_ ?_ rfl ⟨[rawTopic "a"], [], rfl, rfl⟩ hdue rfl ?_⟩
  · simp [Named, rawTopic]
  · rintro tag rule ⟨⟩
    exact .inl rfl
  · norm_num [capacity, Event.capacity, adjustBatchSize, calm]

end Qmtl.DagManager.GarbageCollector

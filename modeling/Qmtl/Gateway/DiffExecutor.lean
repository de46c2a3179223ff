import Qmtl.Foundation.Keys
import Qmtl.Lib.Dict
import Qmtl.Lib.Except

/-! `DiffExecutor`: a submission's DAG is diffed once for each of its worlds, and the chunks that come back
are turned into one queue map by node. -/

namespace Qmtl.Gateway

open Lib Foundation

structure DiffChunk where
  queueMap : Dict String String
  sentinelId : String
  crc32 : Option ℕ

/-- How one call of `diff` ends: with a chunk, with `None`, or with an exception. -/
inductive DiffAnswer where
  | chunk (c : DiffChunk)
  | nothing
  | raised

structure QueueEntry where
  queue : String
  isGlobal : Bool
  deriving DecidableEq

abbrev QueueMap := Dict String (List QueueEntry)

structure DiffOutcome where
  sentinelId : Option String
  queueMap : Option QueueMap

inductive ExecutorError where
  | valueError (message : String)
  | diffFailed
  deriving DecidableEq

def ensureCrc (c : DiffChunk) (expectedCrc32 : Option ℕ) : Except ExecutorError Unit :=
  match expectedCrc32, c.crc32 with
  | none, _ => .ok ()
  | some _, none => .error (.valueError "diff chunk missing CRC32 handshake")
  | some e, some crc => if crc = e then .ok () else .error (.valueError "diff chunk CRC32 mismatch")

def beforeLastColon (cs : List Char) : List Char := ((cs.reverse.dropWhile (· ≠ ':')).drop 1).reverse

def nodeIdFromPartitionKey (identifier : String) : String :=
  let base := identifier.toList.takeWhile (· ≠ '#')
  let token := if base = [] then identifier.toList else base
  if ':' ∈ token then
    let cut := beforeLastColon token
    String.ofList (if ':' ∈ cut then beforeLastColon cut else cut)
  else String.ofList token

lemma beforeLastColon_append {x y : List Char} (hy : ':' ∉ y) : beforeLastColon (x ++ ':' :: y) = x := by
  unfold beforeLastColon
  rw [List.reverse_append, List.reverse_cons, List.append_assoc, List.singleton_append,
    List.dropWhile_append_of_pos]
  · simp
  · intro c hc
    have hne : c ≠ ':' := fun h => hy (by rw [← h]; simpa using hc)
    simpa using hne

/-- **A partition key is read back as its node**, for ids without `#`. -/
theorem nodeIdFromPartitionKey_partitionKey {nodeId : String} (h : '#' ∉ nodeId.toList)
    (interval bucket : Option ℤ) (computeKey : Option String) :
    nodeIdFromPartitionKey (partitionKey nodeId interval bucket computeKey) = nodeId := by
  obtain ⟨rest, hr, hkey⟩ := partitionKey_toList nodeId interval bucket computeKey
  set i := (toString (interval.getD 0)).toList with hi
  set b := (toString (bucket.getD 0)).toList with hb
  set base := nodeId.toList ++ ':' :: i ++ ':' :: b with hbs
  have hcl : ∀ c ∈ base, c ≠ '#' := by
    intro c hc
    rw [hbs] at hc
    simp only [List.mem_append, List.mem_cons] at hc
    rcases hc with (hc | rfl | hc) | rfl | hc
    · exact fun he => h (he ▸ hc)
    · decide
    · exact fun he => separator_notMem_toString _ (.inr rfl) (he ▸ hc)
    · decide
    · exact fun he => separator_notMem_toString _ (.inr rfl) (he ▸ hc)
  have ht : (base ++ rest).takeWhile (· ≠ '#') = base := by
    rw [List.takeWhile_append_of_pos (by simpa using hcl)]
    rcases hr with rfl | hr
    · simp
    · cases rest with
      | nil => simp
      | cons c rest =>
        obtain rfl : c = '#' := by simpa using hr
        simp
  have hcut : beforeLastColon base = nodeId.toList ++ ':' :: i :=
    beforeLastColon_append (separator_notMem_toString _ (.inl rfl))
  unfold nodeIdFromPartitionKey
  simp only [hkey, ht]
  have hne : base ≠ [] := by simp [hbs]
  have hco : ':' ∈ base := by simp [hbs]
  rw [if_neg hne, if_pos hco, hcut, if_pos (by simp), beforeLastColon_append
    (separator_notMem_toString _ (.inl rfl)), String.ofList_toList]

/-! ### The strategies -/

def addQueue (m : QueueMap) (nodeId topic : String) : QueueMap :=
  m.set nodeId ((m.get? nodeId).getD [] ++ [⟨topic, false⟩])

def addQueueOnce (m : QueueMap) (nodeId topic : String) : QueueMap :=
  let entries := (m.get? nodeId).getD []
  m.set nodeId (if topic ∈ entries.map (·.queue) then entries else entries ++ [⟨topic, false⟩])

def addChunk (add : QueueMap → String → String → QueueMap) (m : QueueMap) (c : DiffChunk) : QueueMap :=
  c.queueMap.entries.foldl (fun m e => add m (nodeIdFromPartitionKey e.1) e.2) m

def aggregate (expectedCrc32 : Option ℕ) :
    List DiffAnswer → Option String → QueueMap → Except ExecutorError DiffOutcome
  | [], sentinelId, m => .ok ⟨sentinelId, some m⟩
  | .chunk c :: answers, sentinelId, m => do
    ensureCrc c expectedCrc32
    aggregate expectedCrc32 answers
      (if sentinelId = none ∨ sentinelId = some "" then some c.sentinelId else sentinelId)
      (addChunk addQueueOnce m c)
  | _ :: answers, sentinelId, m => aggregate expectedCrc32 answers sentinelId m

def aggregationExecute (expectedCrc32 : Option ℕ) (answers : List DiffAnswer) : Except ExecutorError DiffOutcome :=
  aggregate expectedCrc32 answers none .empty

def singleWorldExecute (worlds : List String) (fallbackWorldId : Option String)
    (expectedCrc32 : Option ℕ) (preferQueueMap : Bool) (invoke : Option String → DiffAnswer) :
    Except ExecutorError DiffOutcome :=
  let world := worlds.head?.or fallbackWorldId
  let m : Option QueueMap := if world = none ∧ preferQueueMap ∧ worlds = [] then some .empty else none
  match invoke world with
  | .raised => .error .diffFailed
  | .nothing => .ok ⟨none, m⟩
  | .chunk c => do
    ensureCrc c expectedCrc32
    return ⟨some c.sentinelId, if preferQueueMap then some (addChunk addQueue .empty c) else m⟩

def diffExecutorRun (worlds : List String) (fallbackWorldId : Option String)
    (expectedCrc32 : Option ℕ) (preferQueueMap : Bool) (invoke : Option String → DiffAnswer) :
    Except ExecutorError DiffOutcome :=
  if preferQueueMap ∧ 1 < worlds.length then
    aggregationExecute expectedCrc32 (worlds.map fun w => invoke (some w))
  else singleWorldExecute worlds fallbackWorldId expectedCrc32 preferQueueMap invoke

/-! ### What the maps list -/

def topics (m : QueueMap) (nodeId : String) : List String := ((m.get? nodeId).getD []).map (·.queue)

@[simp] lemma topics_empty (nodeId : String) : topics .empty nodeId = [] := rfl

lemma topics_addQueue (m : QueueMap) (n t k : String) :
    topics (addQueue m n t) k = if k = n then topics m k ++ [t] else topics m k := by
  unfold topics addQueue
  rw [Dict.get?_set]
  by_cases hk : k = n
  · subst hk
    simp
  · rw [if_neg hk, if_neg hk]

lemma topics_addQueueOnce (m : QueueMap) (n t k : String) : topics (addQueueOnce m n t) k =
      if k = n ∧ t ∉ topics m k then topics m k ++ [t] else topics m k := by
  unfold topics addQueueOnce
  rw [Dict.get?_set]
  by_cases hk : k = n
  · subst hk
    by_cases ht : t ∈ ((m.get? k).getD []).map (·.queue)
    · rw [if_pos rfl, if_pos ht, if_neg fun h => h.2 ht]
      rfl
    · rw [if_pos rfl, if_neg ht, if_pos ⟨rfl, ht⟩]
      simp
  · rw [if_neg hk, if_neg fun h => hk h.1]

def Adds (add : QueueMap → String → String → QueueMap) : Prop :=
  ∀ m n t k x, x ∈ topics (add m n t) k ↔ x ∈ topics m k ∨ (k = n ∧ x = t)

lemma adds_addQueue : Adds addQueue := by
  intro m n t k x
  rw [topics_addQueue]
  by_cases hk : k = n <;> simp [hk]

lemma adds_addQueueOnce : Adds addQueueOnce := by
  intro m n t k x
  rw [topics_addQueueOnce]
  by_cases hk : k = n
  · by_cases ht : t ∈ topics m k
    · rw [if_neg fun h => h.2 ht]
      constructor
      · exact .inl
      · rintro (h | ⟨-, rfl⟩)
        · exact h
        · exact ht
    · rw [if_pos ⟨hk, ht⟩]
      simp [hk]
  · simp [hk]

def ReadsAs (c : DiffChunk) (nodeId topic : String) : Prop :=
  ∃ e ∈ c.queueMap.entries, nodeIdFromPartitionKey e.1 = nodeId ∧ e.2 = topic

lemma mem_topics_addChunk {add : QueueMap → String → String → QueueMap} (hadd : Adds add)
    (m : QueueMap) (c : DiffChunk) (k x : String) :
    x ∈ topics (addChunk add m c) k ↔ x ∈ topics m k ∨ ReadsAs c k x := by
  unfold addChunk ReadsAs
  induction c.queueMap.entries generalizing m with
  | nil => simp
  | cons e es ih =>
    rw [List.foldl_cons, ih, hadd]
    simp only [List.mem_cons, exists_eq_or_imp]
    rw [or_assoc]
    exact or_congr_right (or_congr_left (and_congr eq_comm eq_comm))

variable {m : QueueMap}

lemma nodup_topics_addQueueOnce {k : String} (h : (topics m k).Nodup) (n t : String) :
    (topics (addQueueOnce m n t) k).Nodup := by
  rw [topics_addQueueOnce]
  split
  · rename_i ht
    exact List.Nodup.append h (List.nodup_singleton t) (by simpa using ht.2)
  · exact h

lemma nodup_topics_addChunk {k : String} (h : (topics m k).Nodup) (c : DiffChunk) :
    (topics (addChunk addQueueOnce m c) k).Nodup := by
  unfold addChunk
  induction c.queueMap.entries generalizing m with
  | nil => exact h
  | cons e es ih => exact ih (nodup_topics_addQueueOnce h _ _)

def chunks (answers : List DiffAnswer) : List DiffChunk :=
  answers.filterMap fun a => match a with
    | .chunk c => some c
    | _ => none

lemma mem_chunks {answers : List DiffAnswer} {c : DiffChunk} : c ∈ chunks answers ↔ .chunk c ∈ answers := by
  unfold chunks
  rw [List.mem_filterMap]
  constructor
  · rintro ⟨a, ha, hc⟩
    cases a with
    | chunk c' =>
      cases hc
      exact ha
    | nothing => cases hc
    | raised => cases hc
  · intro h
    exact ⟨_, h, rfl⟩

lemma aggregate_ok {expected : Option ℕ} {answers : List DiffAnswer} {sid : Option String}
    {out : DiffOutcome} (h : aggregate expected answers sid m = .ok out) :
    (∀ c ∈ chunks answers, ensureCrc c expected = .ok ()) ∧ ∃ m', out.queueMap = some m' ∧
      (∀ k x, x ∈ topics m' k ↔ x ∈ topics m k ∨ ∃ c ∈ chunks answers, ReadsAs c k x) ∧
      ∀ k, (topics m k).Nodup → (topics m' k).Nodup := by
  induction answers generalizing sid m with
  | nil =>
    cases h
    exact ⟨by simp [chunks], m, rfl, by simp [chunks], fun _ h => h⟩
  | cons a answers ih =>
    cases a with
    | chunk c =>
      obtain ⟨⟨⟩, hcrc, h⟩ := bind_ok.mp h
      obtain ⟨hall, m', hm', hmem, hnd⟩ := ih h
      have hc : chunks (.chunk c :: answers) = c :: chunks answers := rfl
      rw [hc]
      refine ⟨?_, m', hm', ?_, fun k hk => hnd k (nodup_topics_addChunk hk c)⟩
      · intro c' hc'
        rcases List.mem_cons.mp hc' with rfl | hc'
        · exact hcrc
        · exact hall c' hc'
      · intro k x
        rw [hmem, mem_topics_addChunk adds_addQueueOnce, or_assoc]
        simp
    | nothing => exact ih h
    | raised => exact ih h

end Qmtl.Gateway

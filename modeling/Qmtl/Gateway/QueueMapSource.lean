import Qmtl.Gateway.DiffExecutor

/-! `StrategySubmissionHelper`: where the queue map of a submission comes from.

A submission that prefers the diff's queue map reports the source `diff` when the diff left a map and
no error. -/

namespace Qmtl.Gateway

open Lib Foundation

structure SubmissionConfig where
  preferDiffQueueMap : Bool
  sentinelDefault : Option String
  useCrcSentinelFallback : Bool

inductive QueueMapSource where
  | diff | tagQuery
  deriving DecidableEq, Repr

structure FlaggedOutcome where
  outcome : DiffOutcome
  error : Bool

structure QueueResolution where
  sentinelId : String
  queueMap : QueueMap
  source : QueueMapSource
  diffError : Bool
  crcFallback : Bool

section Resolve

variable (config : SubmissionConfig)

def runDiff (worlds : List String) (nodeCrc32 : ℕ) (invoke : Option String → DiffAnswer) : FlaggedOutcome :=
  match diffExecutorRun worlds worlds.head? (some nodeCrc32) config.preferDiffQueueMap invoke with
  | .ok out => ⟨out, false⟩
  | .error _ => ⟨⟨none, none⟩, true⟩

def shouldCrcFallback (out : FlaggedOutcome) (sentinelId : String) : Bool :=
  sentinelId = "" && config.useCrcSentinelFallback && (!config.preferDiffQueueMap || out.error)

def resolveQueueMap (out : FlaggedOutcome) (tagQuery : QueueMap) (crcSentinel : String) : QueueResolution :=
  let diffSentinel := out.outcome.sentinelId.getD ""
  let fallback : QueueResolution :=
    let crc := shouldCrcFallback config out diffSentinel
    ⟨if crc then crcSentinel else diffSentinel, tagQuery, .tagQuery, out.error, crc⟩
  match out.outcome.queueMap with
  | some m =>
    if config.preferDiffQueueMap && !out.error then ⟨diffSentinel, m, .diff, false, false⟩ else fallback
  | none => fallback

def buildQueueOutputs (worlds : List String) (nodeCrc32 : ℕ) (strategyId : String)
    (invoke : Option String → DiffAnswer) (tagQuery : QueueMap) (crcSentinel : String) : QueueResolution :=
  let r := resolveQueueMap config (runDiff config worlds nodeCrc32 invoke) tagQuery crcSentinel
  let default := config.sentinelDefault.getD (if strategyId = "" then "" else strategyId ++ "-sentinel")
  { r with sentinelId := if r.sentinelId = "" then default else r.sentinelId }

end Resolve

/-! ### When the source is honest -/

def diffedWorlds (worlds : List String) : List (Option String) :=
  if worlds = [] then [none] else worlds.map some

def Matched (worlds : List String) (nodeCrc32 : ℕ) (invoke : Option String → DiffAnswer) : Prop :=
  ∃ w ∈ diffedWorlds worlds, ∃ c, invoke w = .chunk c ∧ c.crc32 = some nodeCrc32

/-- The report `diff` is true, and without a chunk to use the map is that of the tag queries. -/
def Honest (r : QueueResolution) (matched : Prop) (tagQuery : QueueMap) : Prop :=
  (r.source = .diff → matched) ∧ (¬ matched → r.source = .tagQuery ∧ r.queueMap = tagQuery)

def SameResolution (r r' : QueueResolution) : Prop :=
  r.source = r'.source ∧ r.diffError = r'.diffError ∧
    ∀ node topic, topic ∈ topics r.queueMap node ↔ topic ∈ topics r'.queueMap node

def IsChunk : DiffAnswer → Prop
  | .chunk _ => True
  | _ => False

lemma isChunk_iff {a : DiffAnswer} : IsChunk a ↔ ∃ c, a = .chunk c := by
  cases a <;> simp [IsChunk]

lemma ensureCrc_iff {c : DiffChunk} {e : ℕ} : ensureCrc c (some e) = .ok () ↔ c.crc32 = some e := by
  unfold ensureCrc
  cases h : c.crc32 with
  | none => simp
  | some crc => by_cases he : crc = e <;> simp [he]

lemma aggregate_isOk (expected : Option ℕ) (answers : List DiffAnswer) (sid : Option String) (m : QueueMap)
    (h : ∀ c ∈ chunks answers, ensureCrc c expected = .ok ()) :
    ∃ out, aggregate expected answers sid m = .ok out := by
  induction answers generalizing sid m with
  | nil => exact ⟨_, rfl⟩
  | cons a answers ih =>
    cases a with
    | chunk c =>
      have hc : ensureCrc c expected = .ok () := h c (by simp [chunks])
      obtain ⟨out, hout⟩ := ih (if sid = none ∨ sid = some "" then some c.sentinelId else sid)
        (addChunk addQueueOnce m c) fun c' hc' => h c' (List.mem_cons_of_mem c hc')
      refine ⟨out, ?_⟩
      unfold aggregate
      rw [hc]
      exact hout
    | nothing => exact ih sid m h
    | raised => exact ih sid m h

section Outputs

variable (config : SubmissionConfig) {worlds : List String} {nodeCrc32 : ℕ}
  {invoke : Option String → DiffAnswer}

def preferDiff (worlds : List String) (nodeCrc32 : ℕ) (strategyId : String)
    (invoke : Option String → DiffAnswer) (tagQuery : QueueMap) (crcSentinel : String) : QueueResolution :=
  buildQueueOutputs { config with preferDiffQueueMap := true } worlds nodeCrc32 strategyId invoke tagQuery
    crcSentinel

variable (strategyId : String) (tagQuery : QueueMap) (crcSentinel : String)

lemma preferDiff_of_map {sid : Option String} {m : QueueMap}
    (h : diffExecutorRun worlds worlds.head? (some nodeCrc32) true invoke = .ok ⟨sid, some m⟩) :
    (preferDiff config worlds nodeCrc32 strategyId invoke tagQuery crcSentinel).source = .diff ∧
    (preferDiff config worlds nodeCrc32 strategyId invoke tagQuery crcSentinel).diffError = false ∧
    (preferDiff config worlds nodeCrc32 strategyId invoke tagQuery crcSentinel).queueMap = m := by
  simp [preferDiff, buildQueueOutputs, runDiff, h, resolveQueueMap]

lemma preferDiff_of_none {sid : Option String}
    (h : diffExecutorRun worlds worlds.head? (some nodeCrc32) true invoke = .ok ⟨sid, none⟩) :
    (preferDiff config worlds nodeCrc32 strategyId invoke tagQuery crcSentinel).source = .tagQuery ∧
    (preferDiff config worlds nodeCrc32 strategyId invoke tagQuery crcSentinel).diffError = false ∧
    (preferDiff config worlds nodeCrc32 strategyId invoke tagQuery crcSentinel).queueMap = tagQuery := by
  simp [preferDiff, buildQueueOutputs, runDiff, h, resolveQueueMap]

lemma preferDiff_of_error {e : ExecutorError}
    (h : diffExecutorRun worlds worlds.head? (some nodeCrc32) true invoke = .error e) :
    (preferDiff config worlds nodeCrc32 strategyId invoke tagQuery crcSentinel).source = .tagQuery ∧
    (preferDiff config worlds nodeCrc32 strategyId invoke tagQuery crcSentinel).diffError ∧
    (preferDiff config worlds nodeCrc32 strategyId invoke tagQuery crcSentinel).queueMap = tagQuery := by
  simp [preferDiff, buildQueueOutputs, runDiff, h, resolveQueueMap]

variable (nodeCrc32 invoke) in
lemma single_run (hw : worlds.length ≤ 1) :
    diffExecutorRun worlds worlds.head? (some nodeCrc32) true invoke =
      match invoke worlds.head? with
      | .raised => .error .diffFailed
      | .nothing => .ok ⟨none, if worlds = [] then some .empty else none⟩
      | .chunk c => (ensureCrc c (some nodeCrc32)).map fun _ =>
          ⟨some c.sentinelId, some (addChunk addQueue .empty c)⟩ := by
  have hwr : worlds.head?.or worlds.head? = worlds.head? := by cases worlds.head? <;> rfl
  have hnil : (worlds.head? = none ∧ True ∧ worlds = []) ↔ worlds = [] := by
    cases worlds <;> simp
  unfold diffExecutorRun singleWorldExecute
  rw [if_neg (by simp; omega), hwr]
  simp only [hnil]
  cases invoke worlds.head? with
  | raised => rfl
  | nothing => rfl
  | chunk c => cases h : ensureCrc c (some nodeCrc32) <;> rfl

variable (nodeCrc32 invoke) in
lemma multi_run (hw : 1 < worlds.length) :
    (∃ sid m, diffExecutorRun worlds worlds.head? (some nodeCrc32) true invoke = .ok ⟨sid, some m⟩ ∧
      (∀ w ∈ worlds, ∀ c, invoke (some w) = .chunk c → c.crc32 = some nodeCrc32) ∧
      ∀ k x, x ∈ topics m k ↔ ∃ w ∈ worlds, ∃ c, invoke (some w) = .chunk c ∧ ReadsAs c k x) ∨
    (∃ e, diffExecutorRun worlds worlds.head? (some nodeCrc32) true invoke = .error e ∧
      ∃ w ∈ worlds, ∃ c, invoke (some w) = .chunk c ∧ c.crc32 ≠ some nodeCrc32) := by
  have hrun : diffExecutorRun worlds worlds.head? (some nodeCrc32) true invoke =
      aggregate (some nodeCrc32) (worlds.map fun w => invoke (some w)) none .empty :=
    if_pos ⟨rfl, hw⟩
  have hmem : ∀ c, c ∈ chunks (worlds.map fun w => invoke (some w)) ↔
      ∃ w ∈ worlds, invoke (some w) = .chunk c := by
    intro c
    rw [mem_chunks, List.mem_map]
  rw [hrun]
  cases h : aggregate (some nodeCrc32) (worlds.map fun w => invoke (some w)) none .empty with
  | ok out =>
    left
    obtain ⟨sid, m⟩ := out
    obtain ⟨hcrc, m', hm', ht, -⟩ := aggregate_ok h
    obtain rfl : m = some m' := hm'
    refine ⟨sid, m', rfl, ?_, ?_⟩
    · intro w hw c hc
      exact ensureCrc_iff.mp (hcrc c ((hmem c).mpr ⟨w, hw, hc⟩))
    · intro k x
      rw [ht]
      simp only [topics_empty, List.not_mem_nil, false_or]
      constructor
      · rintro ⟨c, hc, hr⟩
        obtain ⟨w, hw, hc⟩ := (hmem c).mp hc
        exact ⟨w, hw, c, hc, hr⟩
      · rintro ⟨w, hw, c, hc, hr⟩
        exact ⟨c, (hmem c).mpr ⟨w, hw, hc⟩, hr⟩
  | error e =>
    right
    refine ⟨e, rfl, ?_⟩
    by_contra hn
    push Not at hn
    obtain ⟨out, hout⟩ := aggregate_isOk (some nodeCrc32) (worlds.map fun w => invoke (some w)) none .empty (by
        intro c hc
        obtain ⟨w, hw, hc⟩ := (hmem c).mp hc
        exact ensureCrc_iff.mpr (hn w hw c hc))
    rw [h] at hout
    cases hout

lemma diffedWorlds_of_lt (hw : 1 < worlds.length) : diffedWorlds worlds = worlds.map some := by
  refine if_neg ?_
  rintro rfl
  simp at hw

lemma diffedWorlds_of_le (hw : worlds.length ≤ 1) : diffedWorlds worlds = [worlds.head?] := by
  cases worlds with
  | nil => rfl
  | cons w rest =>
    cases rest with
    | nil => rfl
    | cons _ _ => simp at hw

lemma single_honest (hw : worlds.length ≤ 1) :
    Honest (preferDiff config worlds nodeCrc32 strategyId invoke tagQuery crcSentinel)
      (Matched worlds nodeCrc32 invoke) tagQuery ↔ ¬ (worlds = [] ∧ invoke none = .nothing) := by
  have hrun := single_run nodeCrc32 invoke hw
  have hmt : Matched worlds nodeCrc32 invoke ↔
      ∃ c, invoke worlds.head? = .chunk c ∧ c.crc32 = some nodeCrc32 := by
    unfold Matched
    rw [diffedWorlds_of_le hw]
    simp
  rw [hmt]
  cases ha : invoke worlds.head? with
  | raised =>
    rw [ha] at hrun
    obtain ⟨hs, -, hm⟩ := preferDiff_of_error config strategyId tagQuery crcSentinel hrun
    refine iff_of_true ⟨by simp [hs], fun _ => ⟨hs, hm⟩⟩ ?_
    rintro ⟨rfl, h⟩
    cases ha.symm.trans h
  | nothing =>
    rw [ha] at hrun
    by_cases hnil : worlds = []
    · subst hnil
      obtain ⟨hs, -, -⟩ := preferDiff_of_map config strategyId tagQuery crcSentinel hrun
      refine iff_of_false ?_ (by simpa using ha)
      intro h
      obtain ⟨c, hc, -⟩ := h.1 hs
      cases hc
    · simp only [hnil, if_false] at hrun
      obtain ⟨hs, -, hm⟩ := preferDiff_of_none config strategyId tagQuery crcSentinel hrun
      exact iff_of_true ⟨by simp [hs], fun _ => ⟨hs, hm⟩⟩ fun h => hnil h.1
  | chunk c =>
    rw [ha] at hrun
    have hneg : ¬ (worlds = [] ∧ invoke none = .nothing) := by
      rintro ⟨rfl, h⟩
      cases ha.symm.trans h
    refine iff_of_true ?_ hneg
    by_cases hcrc : c.crc32 = some nodeCrc32
    · exact ⟨fun _ => ⟨c, rfl, hcrc⟩, fun h => absurd ⟨c, rfl, hcrc⟩ h⟩
    · cases he : ensureCrc c (some nodeCrc32) with
      | ok x => exact absurd (ensureCrc_iff.mp he) hcrc
      | error e =>
        simp only [he, Except.map] at hrun
        obtain ⟨hs, -, hm⟩ := preferDiff_of_error config strategyId tagQuery crcSentinel hrun
        exact ⟨by simp [hs], fun _ => ⟨hs, hm⟩⟩

lemma multi_honest (hw : 1 < worlds.length) :
    Honest (preferDiff config worlds nodeCrc32 strategyId invoke tagQuery crcSentinel)
      (Matched worlds nodeCrc32 invoke) tagQuery ↔ ∃ w ∈ worlds, IsChunk (invoke (some w)) := by
  have hmt : Matched worlds nodeCrc32 invoke ↔
      ∃ w ∈ worlds, ∃ c, invoke (some w) = .chunk c ∧ c.crc32 = some nodeCrc32 := by
    unfold Matched
    rw [diffedWorlds_of_lt hw]
    simp
  rw [hmt]
  rcases multi_run nodeCrc32 invoke hw with
    ⟨sid, m, hrun, hcrc, -⟩ | ⟨e, hrun, w, hmem, c, hc, hne⟩
  · obtain ⟨hs, -, -⟩ := preferDiff_of_map config strategyId tagQuery crcSentinel hrun
    constructor
    · intro h
      obtain ⟨w, hmem, c, hc, -⟩ := h.1 hs
      exact ⟨w, hmem, isChunk_iff.mpr ⟨c, hc⟩⟩
    · rintro ⟨w, hmem, hw⟩
      obtain ⟨c, hc⟩ := isChunk_iff.mp hw
      have hex := hcrc w hmem c hc
      exact ⟨fun _ => ⟨w, hmem, c, hc, hex⟩, fun h => absurd ⟨w, hmem, c, hc, hex⟩ h⟩
  · obtain ⟨hs, -, hm⟩ := preferDiff_of_error config strategyId tagQuery crcSentinel hrun
    exact iff_of_true ⟨by simp [hs], fun _ => ⟨hs, hm⟩⟩ ⟨w, hmem, isChunk_iff.mpr ⟨c, hc⟩⟩

lemma multi_same (hw : 1 < worlds.length) {w : String} {c : DiffChunk} (hmem : w ∈ worlds)
    (hc : invoke (some w) = .chunk c) (hot : ∀ w' ∈ worlds, w' ≠ w → ¬ IsChunk (invoke (some w'))) :
    SameResolution (preferDiff config worlds nodeCrc32 strategyId invoke tagQuery crcSentinel)
      (preferDiff config [w] nodeCrc32 strategyId invoke tagQuery crcSentinel) := by
  have hon : ∀ w' ∈ worlds, ∀ c', invoke (some w') = .chunk c' → c' = c := by
    intro w' hw' c' hc'
    by_cases hne : w' = w
    · subst hne
      exact DiffAnswer.chunk.inj (hc'.symm.trans hc)
    · exact absurd (isChunk_iff.mpr ⟨c', hc'⟩) (hot w' hw' hne)
  have hone := single_run nodeCrc32 invoke (show [w].length ≤ 1 by simp)
  rw [show invoke [w].head? = .chunk c from hc] at hone
  rcases multi_run nodeCrc32 invoke hw with
    ⟨sid, m, hrun, hcrc, ht⟩ | ⟨e, hrun, w', hw', c', hc', hne⟩
  · have hex := hcrc w hmem c hc
    simp only [ensureCrc_iff.mpr hex, Except.map] at hone
    obtain ⟨hs, he, hm⟩ := preferDiff_of_map config strategyId tagQuery crcSentinel hrun
    obtain ⟨hs', he', hm'⟩ := preferDiff_of_map config strategyId tagQuery crcSentinel hone
    refine ⟨hs.trans hs'.symm, he.trans he'.symm, ?_⟩
    intro node topic
    rw [hm, hm', ht, mem_topics_addChunk adds_addQueue]
    simp only [topics_empty, List.not_mem_nil, false_or]
    constructor
    · rintro ⟨w', hw', c', hc', hr⟩
      rwa [hon w' hw' c' hc'] at hr
    · intro hr
      exact ⟨w, hmem, c, hc, hr⟩
  · have hbad : c.crc32 ≠ some nodeCrc32 := hon w' hw' c' hc' ▸ hne
    cases hcrc : ensureCrc c (some nodeCrc32) with
    | ok x => exact absurd (ensureCrc_iff.mp hcrc) hbad
    | error e' =>
      simp only [hcrc, Except.map] at hone
      obtain ⟨hs, he, hm⟩ := preferDiff_of_error config strategyId tagQuery crcSentinel hrun
      obtain ⟨hs', he', hm'⟩ := preferDiff_of_error config strategyId tagQuery crcSentinel hone
      refine ⟨hs.trans hs'.symm, he.trans he'.symm, ?_⟩
      intro node topic
      rw [hm, hm']

/-- **The source is honest**, and several worlds of which one has a chunk count as that world alone,
exactly when there is one world, or no world and an answer other than `None`, or several worlds and a
chunk for one of them. -/
theorem source_honest_iff (worlds : List String) (nodeCrc32 : ℕ) (invoke : Option String → DiffAnswer) :
    (Honest (preferDiff config worlds nodeCrc32 strategyId invoke tagQuery crcSentinel)
        (Matched worlds nodeCrc32 invoke) tagQuery ∧
      ∀ w ∈ worlds, (∀ w' ∈ worlds, w' ≠ w → ¬ IsChunk (invoke (some w'))) →
        SameResolution (preferDiff config worlds nodeCrc32 strategyId invoke tagQuery crcSentinel)
          (preferDiff config [w] nodeCrc32 strategyId invoke tagQuery crcSentinel)) ↔
    (worlds.length = 1 ∨ (worlds = [] ∧ invoke none ≠ .nothing) ∨
      (1 < worlds.length ∧ ∃ w ∈ worlds, IsChunk (invoke (some w)))) := by
  rcases Nat.lt_or_ge 1 worlds.length with hw | hw
  · rw [multi_honest config strategyId tagQuery crcSentinel hw]
    have hnil : worlds ≠ [] := by
      rintro rfl
      simp at hw
    constructor
    · rintro ⟨h, -⟩
      exact .inr (.inr ⟨hw, h⟩)
    · rintro (h | ⟨h, -⟩ | ⟨-, w₀, hmem₀, hchunk₀⟩)
      · omega
      · exact absurd h hnil
      · refine ⟨⟨w₀, hmem₀, hchunk₀⟩, ?_⟩
        intro w hmem hothers
        -- the world with the chunk is the only one left
        have hw₀ : w₀ = w := by
          by_contra hne
          exact hothers w₀ hmem₀ hne hchunk₀
        obtain ⟨c, hc⟩ := isChunk_iff.mp (hw₀ ▸ hchunk₀)
        exact multi_same config strategyId tagQuery crcSentinel hw hmem hc hothers
  · rw [single_honest config strategyId tagQuery crcSentinel hw]
    cases worlds with
    | nil => simp
    | cons w rest =>
      cases rest with
      | nil => simp [SameResolution]
      | cons _ _ => simp at hw

end Outputs

/-- Two worlds and no chunk: the empty map is reported as the diff's. -/
theorem source_dishonest_without_chunks :
    ¬ Honest (preferDiff ⟨true, none, false⟩ ["a", "b"] 0 "s" (fun _ => .nothing) .empty "")
      (Matched ["a", "b"] 0 fun _ => .nothing) .empty := by
  intro h
  obtain ⟨w, -, c, hc, -⟩ := h.1 rfl
  cases hc

end Qmtl.Gateway

import Qmtl.Lib.Dict
import Qmtl.Lib.Log
import Qmtl.Lib.Run

/-!
The schema registry: what a compatible schema is, the in-memory client, and clients of a remote registry whose requests
interleave.
-/

namespace Qmtl.Foundation.SchemaRegistry

open Lib

/-! ### Compatibility -/

/-- What `json.loads` gives, as far as its types tell. -/
inductive Parsed where
  | null
  | bool
  | int
  | float
  | str
  | list
  | dict (fields : List (String × Parsed))

def Parsed.typeName : Parsed → String
  | null => "NoneType"
  | bool => "bool"
  | int => "int"
  | float => "float"
  | str => "str"
  | list => "list"
  | dict _ => "dict"

mutual

def flattenInner (path : String) : Parsed → List (String × String)
  | .dict [] => [(path, "object")]
  | .dict (field :: fields) => flattenDict path (field :: fields)
  | inner => [(path, inner.typeName)]

def flattenDict (path : String) : List (String × Parsed) → List (String × String)
  | [] => []
  | (key, inner) :: rest => flattenInner (if path = "" then key else path ++ "." ++ key) inner ++ flattenDict path rest

end

/-- `json.loads`, or nothing where it does not decode. -/
abbrev Loads := String → Option Parsed

def flattenSchema (loads : Loads) (text : String) : Dict String String :=
  match loads text with
  | none => .ofList [("<raw>", "text")]
  | some (.dict fields) => .ofList (flattenDict "" fields)
  | some value => .ofList [("<root>", value.typeName)]

structure Schema where
  subject : String
  id : ℕ
  schema : String
  version : ℕ
  deriving DecidableEq

inductive SchemaValidationMode where
  | canary
  | strict
  deriving DecidableEq

structure SchemaValidationReport where
  subject : String
  mode : SchemaValidationMode
  compatible : Bool
  previousVersion : Option ℕ
  breakingChanges : List String
  addedFields : List String
  schemaId : Option ℕ
  registeredVersion : Option ℕ

def sorted (paths : List String) : List String := paths.insertionSort (· ≤ ·)

def breakingChanges (prev new : Dict String String) : List String :=
  sorted (prev.keys.filter fun path => (new.get? path).isNone) ++
    sorted (prev.keys.filter fun path => (new.get? path).isSome && prev.get? path != new.get? path)

def validate (loads : Loads) (subject text : String) (previous : Option Schema) (mode : SchemaValidationMode) :
    SchemaValidationReport :=
  match previous with
  | none => ⟨subject, mode, true, none, [], [], none, none⟩
  | some previous =>
    let prev := flattenSchema loads previous.schema
    let new := flattenSchema loads text
    let breaking := breakingChanges prev new
    ⟨subject, mode, breaking.isEmpty, some previous.version, breaking,
      sorted (new.keys.filter fun path => (prev.get? path).isNone), none, none⟩

/-- No path of a schema is missing in the next one or changed in type. -/
def Compatible (loads : Loads) (text text' : String) : Prop := ∀ path type,
  (flattenSchema loads text).get? path = some type → (flattenSchema loads text').get? path = some type

section

variable {loads : Loads} {subject text : String} {mode : SchemaValidationMode}

lemma mem_sorted {path : String} {paths : List String} : path ∈ sorted paths ↔ path ∈ paths := List.mem_insertionSort _

lemma breakingChanges_eq_nil {prev new : Dict String String} :
    breakingChanges prev new = [] ↔ ∀ path type, prev.get? path = some type → new.get? path = some type := by
  simp only [List.eq_nil_iff_forall_not_mem, breakingChanges, List.mem_append, mem_sorted, List.mem_filter, not_or, not_and]
  constructor
  · intro h path type ht
    have hkey : path ∈ prev.keys := by
      by_contra hkey
      rw [Dict.get?_eq_none.mpr hkey] at ht
      cases ht
    obtain ⟨hth, hs⟩ := h path
    have hs := hs hkey
    cases hnew : new.get? path <;> simp_all
  · intro h path
    constructor
    · intro hkey hm
      obtain ⟨type, ht⟩ := Option.ne_none_iff_exists'.mp (Dict.get?_eq_none.not.mpr (not_not.mpr hkey))
      rw [h path type ht] at hm
      cases hm
    · intro hkey hc
      obtain ⟨type, ht⟩ := Option.ne_none_iff_exists'.mp (Dict.get?_eq_none.not.mpr (not_not.mpr hkey))
      rw [h path type ht, ht] at hc
      simp at hc

lemma compatible_validate {previous : Option Schema} : (validate loads subject text previous mode).compatible ↔
    ∀ prev ∈ previous, Compatible loads prev.schema text := by
  cases previous with
  | none => simp [validate]
  | some previous =>
    simp [validate, breakingChanges_eq_nil, Compatible]

end

/-! ### The in-memory client -/

structure SchemaRegistryClient where
  bySubject : Dict String (List Schema)
  nextId : ℕ
  lastReports : Dict String SchemaValidationReport

namespace SchemaRegistryClient

def new : SchemaRegistryClient := ⟨.empty, 1, .empty⟩

variable (loads : Loads) (c : SchemaRegistryClient) (subject text : String) (mode : SchemaValidationMode)

def latest : Option Schema := (c.bySubject.get? subject).bind List.getLast?

def register : SchemaRegistryClient × Option Schema :=
  let report := validate loads subject text (c.latest subject) mode
  if report.compatible = false ∧ mode = .strict then
    ({ c with lastReports := c.lastReports.set subject report }, none)
  else
    let versions := (c.bySubject.get? subject).getD []
    let schema : Schema := ⟨subject, c.nextId, text, versions.length + 1⟩
    ({ bySubject := c.bySubject.set subject (versions ++ [schema])
       nextId := c.nextId + 1
       lastReports := c.lastReports.set subject
        { report with schemaId := some schema.id, registeredVersion := some schema.version } }, some schema)

def schemas : List Schema := c.bySubject.entries.flatMap Prod.snd

structure Numbered : Prop where
  ids : (c.schemas.map Schema.id).Nodup
  below : ∀ schema ∈ c.schemas, schema.id < c.nextId
  versions : ∀ subject versions, c.bySubject.get? subject = some versions →
    versions.map Schema.version = List.range' 1 versions.length

variable {loads c subject text mode}

lemma register_raised (h : (c.register loads subject text mode).2 = none) :
    (c.register loads subject text mode).1.bySubject = c.bySubject ∧ (c.register loads subject text mode).1.nextId = c.nextId := by
  unfold register at *
  dsimp only at *
  split at h
  · rename_i hr
    rw [if_pos hr]
    exact ⟨rfl, rfl⟩
  · cases h

lemma Numbered.register (h : c.Numbered) : (c.register loads subject text mode).1.Numbered := by
  unfold SchemaRegistryClient.register
  dsimp only
  split
  · exact ⟨h.ids, h.below, h.versions⟩
  · obtain ⟨hids, hb, hv⟩ := h
    have hp := Dict.perm_flatMap_extend c.bySubject subject
      [⟨subject, c.nextId, text, ((c.bySubject.get? subject).getD []).length + 1⟩]
    refine ⟨?_, fun schema hs => ?_, fun other versions hget => ?_⟩
    · refine (hp.map Schema.id).nodup_iff.mpr ?_
      rw [List.map_append, List.map_singleton, List.nodup_append]
      refine ⟨hids, List.nodup_singleton _, ?_⟩
      rintro id hid id' hid' rfl
      obtain ⟨schema, hs, rfl⟩ := List.mem_map.mp hid
      have hlt := hb schema hs
      rw [List.mem_singleton.mp hid'] at hlt
      exact absurd hlt (lt_irrefl _)
    · dsimp only
      rcases List.mem_append.mp (hp.mem_iff.mp hs) with hold | hnew
      · have hlt := hb schema hold
        omega
      · rw [List.mem_singleton.mp hnew]
        exact Nat.lt_succ_self _
    · rw [Dict.get?_set] at hget
      split at hget
      · cases hget
        rw [List.map_append, List.map_singleton, List.length_append, List.length_singleton, List.range'_concat]
        congr 1
        · cases hold : c.bySubject.get? subject with
          | none => rfl
          | some versions => exact hv subject versions hold
        · rw [one_mul, add_comm]
      · exact hv other versions hget

end SchemaRegistryClient

/-! ### Clients of a remote registry -/

/-- Where a call of `register` stands: the request it makes next, or how it has ended. -/
inductive Phase where
  | latest
  | latestAgain
  | post (previous seen : Option Schema)
  | rejected
  | readBack (previous : Option Schema) (id : ℕ)
  | returned (id : ℕ) (schema : Schema)
  deriving DecidableEq

structure RegisterCall where
  text : String
  phase : Phase
  deriving DecidableEq

structure Governance where
  versions : List Schema
  calls : List RegisterCall

inductive GovernanceEvent where
  | register (text : String)
  | request (k id : ℕ)

section

variable (loads : Loads) (subject : String)

def checked (text : String) (previous seen : Option Schema) : Phase :=
  if (validate loads subject text seen .strict).compatible then .post previous seen else .rejected

/-- One request of a call. A read-back that fails, for which the posted text is returned, is left out. -/
def request (versions : List Schema) (call : RegisterCall) (id : ℕ) : Option (List Schema × Phase) :=
  match call.phase with
  | .latest =>
    match versions.getLast? with
    | some previous => some (versions, checked loads subject call.text (some previous) (some previous))
    -- `previous_schema or self.latest(subject)`
    | none => some (versions, .latestAgain)
  | .latestAgain => some (versions, checked loads subject call.text none versions.getLast?)
  | .post previous _ =>
    if id ∈ versions.map Schema.id then none
    else some (versions ++ [⟨subject, id, call.text, versions.length + 1⟩], .readBack previous id)
  | .readBack previous sid =>
    some (versions, .returned sid (versions.getLast?.getD
      ⟨subject, sid, call.text, (previous.map fun previous => previous.version + 1).getD 1⟩))
  | .rejected => none
  | .returned _ _ => none

def governanceStep (s : Governance) : GovernanceEvent → Option Governance
  | .register text => some { s with calls := s.calls ++ [⟨text, .latest⟩] }
  | .request k id => do
    let call ← s.calls[k]?
    let (versions, phase) ← request loads subject s.versions call id
    return ⟨versions, s.calls.set k { call with phase }⟩

def Undisturbed (s : Governance) : GovernanceEvent → Prop
  | .register _ => True
  | .request k _ => ∀ call ∈ s.calls[k]?,
    (∀ previous seen, call.phase = .post previous seen → s.versions.getLast? = seen ∨
      ∀ last ∈ s.versions.getLast?, Compatible loads last.schema call.text) ∧
    ∀ previous id, call.phase = .readBack previous id → ∀ last ∈ s.versions.getLast?, last.id = id

/-- **Governed**: each two consecutive versions are compatible, and each call has returned what it has posted. -/
structure Governed (s : Governance) : Prop where
  chain : s.versions.IsChain fun v w => Compatible loads v.schema w.schema
  own : ∀ call ∈ s.calls, ∀ id schema, call.phase = .returned id schema → schema.id = id ∧ schema.schema = call.text

structure Informed (s : Governance) : Prop where
  ids : (s.versions.map Schema.id).Nodup
  seen : ∀ call ∈ s.calls, ∀ previous seen, call.phase = .post previous seen →
    ∀ prev ∈ seen, Compatible loads prev.schema call.text
  posted : ∀ call ∈ s.calls, ∀ previous id, call.phase = .readBack previous id →
    ∃ v ∈ s.versions, v.id = id ∧ v.schema = call.text

end

variable {loads : Loads} {subject : String} {s s' : Governance} {e : GovernanceEvent}

lemma checked_cases (text : String) (previous seen : Option Schema) : checked loads subject text previous seen = .rejected ∨
    (checked loads subject text previous seen = .post previous seen ∧ ∀ prev ∈ seen, Compatible loads prev.schema text) := by
  unfold checked
  split
  · rename_i h
    exact .inr ⟨rfl, compatible_validate.mp h⟩
  · exact .inl rfl

variable {k : ℕ} {call : RegisterCall} {versions : List Schema} {phase : Phase}

lemma Informed.set (h : Informed loads s) (hids : (versions.map Schema.id).Nodup) (hsub : ∀ v ∈ s.versions, v ∈ versions)
    (hs : ∀ previous seen, phase = .post previous seen → ∀ prev ∈ seen, Compatible loads prev.schema call.text)
    (hp : ∀ previous id, phase = .readBack previous id → ∃ v ∈ versions, v.id = id ∧ v.schema = call.text) :
    Informed loads ⟨versions, s.calls.set k { call with phase }⟩ := by
  refine ⟨hids, fun other hother => ?_, fun other hother => ?_⟩
  · rcases List.mem_or_eq_of_mem_set hother with hold | rfl
    · exact h.seen other hold
    · exact hs
  · rcases List.mem_or_eq_of_mem_set hother with hold | rfl
    · intro previous id hph
      obtain ⟨v, hv, hown⟩ := h.posted other hold previous id hph
      exact ⟨v, hsub v hv, hown⟩
    · exact hp

lemma Governed.set_iff (h : Governed loads s) (hcl : s.calls[k]? = some call) :
    Governed loads ⟨versions, s.calls.set k { call with phase }⟩ ↔
      versions.IsChain (fun v w => Compatible loads v.schema w.schema) ∧
      ∀ id schema, phase = .returned id schema → schema.id = id ∧ schema.schema = call.text := by
  constructor
  · intro h'
    have hmem : { call with phase } ∈ s.calls.set k { call with phase } := by
      obtain ⟨hlt, -⟩ := List.getElem?_eq_some_iff.mp hcl
      exact List.mem_set hlt _
    exact ⟨h'.chain, h'.own _ hmem⟩
  · rintro ⟨hc, hown⟩
    refine ⟨hc, fun other hother => ?_⟩
    rcases List.mem_or_eq_of_mem_set hother with hold | rfl
    · exact h.own other hold
    · exact hown

lemma undisturbed_request (hc : s.calls[k]? = some call) {id : ℕ} : Undisturbed loads s (.request k id) ↔
    (∀ previous seen, call.phase = .post previous seen → s.versions.getLast? = seen ∨
      ∀ last ∈ s.versions.getLast?, Compatible loads last.schema call.text) ∧
    ∀ previous id, call.phase = .readBack previous id → ∀ last ∈ s.versions.getLast?, last.id = id := by
  simp only [Undisturbed, hc, Option.mem_def, Option.some.injEq, forall_eq']

lemma governed_lookup (hin : Informed loads s) (hg : Governed loads s) (hc : s.calls[k]? = some call)
    (hnow : call.phase = .latest ∨ call.phase = .latestAgain)
    (hp : phase = .latestAgain ∨ ∃ previous seen, phase = checked loads subject call.text previous seen) {id : ℕ} :
    Informed loads ⟨s.versions, s.calls.set k { call with phase }⟩ ∧
      (Governed loads ⟨s.versions, s.calls.set k { call with phase }⟩ ↔ Undisturbed loads s (.request k id)) := by
  have hq : Undisturbed loads s (.request k id) := by
    rw [undisturbed_request hc]
    constructor <;> intro _ _ h <;> rcases hnow with hnow | hnow <;> rw [hnow] at h <;> cases h
  have hn : phase = .latestAgain ∨ phase = .rejected ∨
      ∃ previous seen, phase = .post previous seen ∧ ∀ prev ∈ seen, Compatible loads prev.schema call.text := by
    rcases hp with rfl | ⟨previous, seen, rfl⟩
    · exact .inl rfl
    · rcases @checked_cases loads subject call.text previous seen with h | h
      · exact .inr (.inl h)
      · exact .inr (.inr ⟨previous, seen, h⟩)
  refine ⟨hin.set hin.ids (fun _ hv => hv) ?_ ?_, iff_of_true ((hg.set_iff hc).mpr ⟨hg.chain, ?_⟩) hq⟩
  · intro previous seen h
    rcases hn with rfl | rfl | ⟨previous', seen', rfl, hs⟩
    · cases h
    · cases h
    · cases h
      exact hs
  · intro previous id h
    rcases hn with rfl | rfl | ⟨_, _, rfl, -⟩ <;> cases h
  · intro id schema h
    rcases hn with rfl | rfl | ⟨_, _, rfl, -⟩ <;> cases h

/-- **One event**: the registry stays governed exactly where the call is not disturbed. -/
theorem governed_step (hin : Informed loads s) (hg : Governed loads s)
    (hs : governanceStep loads subject s e = some s') :
    Informed loads s' ∧ (Governed loads s' ↔ Undisturbed loads s e) := by
  cases e with
  | register text =>
    cases hs
    have hnew : ∀ call ∈ s.calls ++ [⟨text, .latest⟩], call ∈ s.calls ∨ call.phase = .latest := fun call hc =>
      (List.mem_append.mp hc).imp_right fun h => by rw [List.mem_singleton.mp h]
    refine ⟨⟨hin.ids, fun call hc previous seen h => ?_, fun call hc previous id h => ?_⟩,
      iff_of_true ⟨hg.chain, fun call hc id schema h => ?_⟩ trivial⟩ <;> rcases hnew call hc with hold | hlt
    · exact hin.seen call hold previous seen h
    · cases hlt.symm.trans h
    · exact hin.posted call hold previous id h
    · cases hlt.symm.trans h
    · exact hg.own call hold id schema h
    · cases hlt.symm.trans h
  | request k id =>
    obtain ⟨call, hc, hs⟩ := Option.bind_eq_some_iff.mp hs
    obtain ⟨⟨versions, phase⟩, hr, heq⟩ := Option.bind_eq_some_iff.mp hs
    cases heq
    have hmem := List.mem_of_getElem? hc
    unfold request at hr
    split at hr
    · rename_i hnow
      split at hr
      · cases hr
        exact governed_lookup hin hg hc (.inl hnow) (.inr ⟨_, _, rfl⟩)
      · cases hr
        exact @governed_lookup loads subject _ _ _ _ hin hg hc (.inl hnow) (.inl rfl) _
    · rename_i hnow
      cases hr
      exact governed_lookup hin hg hc (.inr hnow) (.inr ⟨_, _, rfl⟩)
    · rename_i previous seen hnow
      split at hr
      · cases hr
      · rename_i hf
        cases hr
        refine ⟨hin.set ?_ (fun _ hv => List.mem_append_left _ hv) ?_ ?_, ?_⟩
        · rw [List.map_append, List.map_singleton, List.nodup_append]
          refine ⟨hin.ids, List.nodup_singleton _, ?_⟩
          rintro old hold new hnew rfl
          rw [List.mem_singleton.mp hnew] at hold
          exact hf hold
        · intro _ _ h
          cases h
        · intro _ _ h
          cases h
          exact ⟨_, List.mem_append_right _ (.head _), rfl, rfl⟩
        · rw [undisturbed_request hc, hg.set_iff hc, hnow, List.isChain_append]
          constructor
          · rintro ⟨⟨-, -, hl⟩, -⟩
            refine ⟨fun _ _ _ => .inr fun last h => hl last h _ rfl, fun _ _ h => ?_⟩
            cases h
          · rintro ⟨hp, -⟩
            refine ⟨⟨hg.chain, List.isChain_singleton _, fun last hl new hnew => ?_⟩, fun _ _ h => ?_⟩
            · cases hnew
              rcases hp previous seen rfl with hsm | hcm
              · exact hin.seen call hmem previous seen hnow last (hsm ▸ hl)
              · exact hcm last hl
            · cases h
    · rename_i previous sid hnow
      cases hr
      refine ⟨hin.set hin.ids (fun _ hv => hv) (fun _ _ h => by cases h) (fun _ _ h => by cases h), ?_⟩
      obtain ⟨v, hv, hid, htext⟩ := hin.posted call hmem previous sid hnow
      obtain ⟨last, hl⟩ : ∃ last, s.versions.getLast? = some last :=
        Option.ne_none_iff_exists'.mp fun h => List.ne_nil_of_mem hv (List.getLast?_eq_none_iff.mp h)
      rw [undisturbed_request hc, hg.set_iff hc, hnow, hl]
      constructor
      · rintro ⟨-, hown⟩
        constructor
        · intro _ _ h
          cases h
        · intro _ _ h newest hn
          cases h
          cases hn
          exact (hown sid last rfl).1
      · rintro ⟨-, hrd⟩
        refine ⟨hg.chain, fun _ _ h => ?_⟩
        cases h
        have hls := hrd previous sid rfl last rfl
        have hsm := List.inj_on_of_nodup_map hin.ids (List.mem_of_getLast? hl) hv (hls.trans hid.symm)
        exact ⟨hls, hsm ▸ htext⟩
    · cases hr
    · cases hr

lemma request_cases {call : RegisterCall} {id : ℕ} (h : request loads subject s.versions call id = some (versions, phase)) :
    (∃ new, versions = s.versions ++ new) ∧ ∀ id schema, call.phase ≠ .returned id schema := by
  unfold request at h
  split at h
  · rename_i hnow
    split at h <;> cases h <;> exact ⟨⟨[], (List.append_nil _).symm⟩, fun _ _ h => by cases hnow.symm.trans h⟩
  · rename_i hnow
    cases h
    exact ⟨⟨[], (List.append_nil _).symm⟩, fun _ _ h => by cases hnow.symm.trans h⟩
  · rename_i hnow
    split at h
    · cases h
    · cases h
      exact ⟨⟨_, rfl⟩, fun _ _ h => by cases hnow.symm.trans h⟩
  · rename_i hnow
    cases h
    exact ⟨⟨[], (List.append_nil _).symm⟩, fun _ _ h => by cases hnow.symm.trans h⟩
  · cases h
  · cases h

lemma Governed.before (h : Governed loads s') (hs : governanceStep loads subject s e = some s') : Governed loads s := by
  cases e with
  | register text =>
    cases hs
    exact ⟨h.chain, fun call hc => h.own call (List.mem_append_left _ hc)⟩
  | request k id =>
    obtain ⟨call, hc, hs⟩ := Option.bind_eq_some_iff.mp hs
    obtain ⟨⟨versions, phase⟩, hrq, heq⟩ := Option.bind_eq_some_iff.mp hs
    cases heq
    obtain ⟨⟨new, rfl⟩, hopen⟩ := request_cases hrq
    refine ⟨h.chain.left_of_append, fun other hother id schema hr => ?_⟩
    obtain ⟨j, hj⟩ := List.mem_iff_getElem?.mp hother
    have hne : k ≠ j := by
      rintro rfl
      rw [hc] at hj
      cases hj
      exact hopen id schema hr
    have hk : (s.calls.set k { call with phase })[j]? = some other := by rw [List.getElem?_set_ne hne, hj]
    exact h.own other (List.mem_of_getElem? hk) id schema hr

/-- **Every run** of clients of a remote registry is governed exactly where none of its calls is disturbed. -/
theorem undisturbed_iff {versions : List Schema} (hc : versions.IsChain fun v w => Compatible loads v.schema w.schema)
    (hids : (versions.map Schema.id).Nodup) (s : Governance) :
    Run (governanceStep loads subject) (Undisturbed loads) ⟨versions, []⟩ s ↔
      Run (governanceStep loads subject) (fun _ _ => True) ⟨versions, []⟩ s ∧ Governed loads s := by
  have hst : Informed loads ⟨versions, []⟩ ∧ Governed loads ⟨versions, []⟩ :=
    ⟨⟨hids, fun _ h => absurd h List.not_mem_nil, fun _ h => absurd h List.not_mem_nil⟩, hc,
      fun _ h => absurd h List.not_mem_nil⟩
  constructor
  · intro h
    have hbt : Informed loads s ∧ Governed loads s := by
      refine h.invariant (I := fun s => Informed loads s ∧ Governed loads s) hst ?_
      rintro s e s' ⟨hin, hg⟩ hu hs
      obtain ⟨hn, hiff⟩ := governed_step hin hg hs
      exact ⟨hn, hiff.mpr hu⟩
    exact ⟨h.mono fun _ _ _ => trivial, hbt.2⟩
  · rintro ⟨h, hg⟩
    have hbt : Informed loads s ∧ Run (governanceStep loads subject) (Undisturbed loads) ⟨versions, []⟩ s := by
      induction h with
      | init => exact ⟨hst.1, .init⟩
      | next _ _ hs ih =>
        have hb := hg.before hs
        obtain ⟨hin, hrun⟩ := ih hb
        obtain ⟨hn, hiff⟩ := governed_step hin hb hs
        exact ⟨hn, hrun.next (hiff.mp hg) hs⟩
    exact hbt.2

def registered (loads : Loads) (calls : List (String × String × SchemaValidationMode)) : SchemaRegistryClient :=
  calls.foldl (fun c call => (c.register loads call.1 call.2.1 call.2.2).1) .new

lemma numbered_registered (loads : Loads) (calls : List (String × String × SchemaValidationMode)) :
    (registered loads calls).Numbered := by
  induction calls using List.reverseRecOn with
  | nil => exact ⟨List.nodup_nil, fun _ h => absurd h List.not_mem_nil, fun _ _ h => by cases h⟩
  | append_singleton calls call ih =>
    rw [registered, List.foldl_append]
    exact ih.register

/-- **Strict schema governance**: of clients of a remote registry exactly where no call is disturbed, and of the in-memory
client always. -/
theorem schema_governance_iff (loads : Loads) (subject : String) (versions : List Schema)
    (hchain : versions.IsChain fun v w => Compatible loads v.schema w.schema) (hids : (versions.map Schema.id).Nodup) :
    (∀ s, Run (governanceStep loads subject) (Undisturbed loads) ⟨versions, []⟩ s ↔
      Run (governanceStep loads subject) (fun _ _ => True) ⟨versions, []⟩ s ∧ Governed loads s) ∧
    (∀ calls, (registered loads calls).Numbered) ∧
    ∀ calls subject text mode, ((registered loads calls).register loads subject text mode).2 = none →
      ((registered loads calls).register loads subject text mode).1.bySubject = (registered loads calls).bySubject ∧
      ((registered loads calls).register loads subject text mode).1.nextId = (registered loads calls).nextId :=
  ⟨undisturbed_iff hchain hids, numbered_registered loads, fun _ _ _ _ h => SchemaRegistryClient.register_raised h⟩

/-! ### Two writers -/

def bidText : String := "\x7b\"bid\": 1\x7d"

def askText : String := "\x7b\"ask\": 1\x7d"

def loadsQuotes : Loads := fun text =>
  if text = bidText then some (.dict [("bid", .int)]) else if text = askText then some (.dict [("ask", .int)]) else none

def disturbed : Governance where
  versions := [⟨"quotes", 1, bidText, 1⟩, ⟨"quotes", 2, askText, 2⟩]
  calls := [⟨bidText, .returned 1 ⟨"quotes", 2, askText, 2⟩⟩, ⟨askText, .readBack none 2⟩]

lemma run_disturbed : Run (governanceStep loadsQuotes "quotes") (fun _ _ => True) ⟨[], []⟩ disturbed := by
  have hex : (execIf (governanceStep loadsQuotes "quotes") (fun _ _ => true) ⟨[], []⟩ [.register bidText, .register askText,
      .request 0 0, .request 0 0, .request 1 0, .request 1 0, .request 0 1, .request 1 2, .request 0 0]).any (fun s =>
        decide (s.versions = disturbed.versions ∧ s.calls = disturbed.calls)) := by decide +kernel
  obtain ⟨⟨versions, calls⟩, hrun, hs⟩ := exists_run _ _ _ _ _ hex
  obtain ⟨rfl, rfl⟩ := of_decide_eq_true hs
  exact hrun.mono fun _ _ _ => trivial

theorem schema_governance_iff_two : ¬Run (governanceStep loadsQuotes "quotes") (Undisturbed loadsQuotes) ⟨[], []⟩ disturbed := by
  obtain ⟨hiff, -, -⟩ := schema_governance_iff loadsQuotes "quotes" [] List.isChain_nil List.nodup_nil
  rw [hiff]
  rintro ⟨-, hgoverned⟩
  have hid := (hgoverned.own _ (.head _) 1 _ rfl).1
  exact absurd hid (by decide)

/-- **Two writers break both**: the second version lacks the field of the first, and the first writer is told the id and the
text of the second. -/
theorem two_writers_ungoverned : Run (governanceStep loadsQuotes "quotes") (fun _ _ => True) ⟨[], []⟩ disturbed ∧
    ¬disturbed.versions.IsChain (fun v w => Compatible loadsQuotes v.schema w.schema) ∧
    ∃ call ∈ disturbed.calls, ∃ schema, call.phase = .returned 1 schema ∧ schema.id = 2 ∧ schema.schema ≠ call.text := by
  refine ⟨run_disturbed, fun hchain => ?_, _, .head _, _, rfl, rfl, by decide⟩
  have hfield := (List.isChain_cons_cons.mp hchain).1 "bid" "int" (by decide +kernel)
  exact absurd hfield (by decide +kernel)

end Qmtl.Foundation.SchemaRegistry

import Qmtl.WorldService.SnapshotRows

/-!
Hubs over one repository. No row of the repository is ever replaced, and each snapshot in a list of a hub has the
hash of its row.
-/

namespace Qmtl.WorldService.Risk

open Lib

variable (env : Env) (cfg : Settings)

inductive Call where
  | upsert (s : PortfolioSnapshot)
  | latest (worldId : String)
  | asOf (worldId asOf : String)
  | version (worldId version : String)
  | list (worldId : String) (limit : ℕ)

structure Timed where
  call : Call
  clock : ℤ
  now : Timestamp

def Hub.after (h : Hub) (t : Timed) : Hub :=
  match t.call with
  | .upsert s =>
    match upsertSnapshot env cfg t.clock t.now h s with
    | .ok r => r.2.2
    | .error _ => h
  | .latest worldId => (latestSnapshot env cfg t.clock t.now h worldId).2
  | .asOf worldId asOf => (snapshotForAsOf env cfg t.clock t.now h worldId asOf).2
  | .version worldId version => (snapshotOfVersion env cfg t.clock t.now h worldId version).2
  | .list worldId limit => (listSnapshots env cfg t.clock t.now h worldId limit).2

/-! ### Rows and lists -/

def RowsOk (rows : Dict (String × String) Payload) : Prop :=
  ∀ worldId version row, rows.get? (worldId, version) = some row →
    ∃ s : PortfolioSnapshot, row = s.toDict env ∧ s.worldId = worldId ∧ s.version = version ∧ s.hash ≠ ""

def Stored (rows : Dict (String × String) Payload) (s : PortfolioSnapshot) : Prop :=
  ∃ row, rows.get? (s.worldId, s.version) = some row ∧ rowHash env row = s.hash

def Grows (rows rows' : Dict (String × String) Payload) : Prop :=
  ∀ key row, rows.get? key = some row → rows'.get? key = some row

lemma Grows.refl (rows : Dict (String × String) Payload) : Grows rows rows := fun _ _ h => h

variable {clock : ℤ} {deduped : Bool} {p : Prepared} {rows rows' : Dict (String × String) Payload}
  {s : PortfolioSnapshot}

lemma Grows.trans {rows'' : Dict (String × String) Payload} (h : Grows rows rows') (h' : Grows rows' rows'') :
    Grows rows rows'' := fun key row hr => h' key row (h key row hr)

lemma Stored.mono (h : Stored env rows s) (hg : Grows rows rows') : Stored env rows' s := by
  obtain ⟨row, hrow, hh⟩ := h
  exact ⟨row, hg _ _ hrow, hh⟩

def ListsOk (rows : Dict (String × String) Payload) (h : Hub) : Prop :=
  ∀ worldId, ∀ s ∈ h.entries worldId, s.worldId = worldId ∧ Stored env rows s

variable {h : Hub}

lemma ListsOk.mono (hl : ListsOk env rows h) (hg : Grows rows rows') : ListsOk env rows' h :=
  fun worldId s hs => ⟨(hl worldId s hs).1, (hl worldId s hs).2.mono env hg⟩

structure Coherent (rows : Dict (String × String) Payload) (h : Hub) : Prop where
  repository : h.repository = some rows
  rowsOk : RowsOk env rows
  lists : ListsOk env rows h

lemma rowHash_toDict (s : PortfolioSnapshot) : rowHash env (s.toDict env) = s.hash := by
  unfold rowHash Payload.get
  rw [(holds_toDict env s).hash]
  by_cases hne : s.hash = "" <;> simp [hne, textOr, truthy, env.toStr_str]

lemma toDict_entries_ne (s : PortfolioSnapshot) : (s.toDict env).entries.isEmpty = false := by
  have hmem := Dict.get?_eq_some.mp (holds_toDict env s).worldId
  cases hen : (s.toDict env).entries with
  | nil =>
    rw [hen] at hmem
    cases hmem
  | cons e es => rfl

variable {row : Payload}

lemma fromPayload_row (hrows : RowsOk env rows) (now : Timestamp) {worldId version : String}
    (hget : rows.get? (worldId, version) = some row) :
    ∃ s, PortfolioSnapshot.fromPayload env now row = .ok s ∧ s.worldId = worldId ∧ s.version = version ∧
      Stored env rows s := by
  obtain ⟨s₀, rfl, hw, hv, _⟩ := hrows _ _ _ hget
  obtain ⟨s, hs, hid⟩ := fromPayload_of_holds env now (holds_toDict env s₀)
  have hwr : s.worldId = worldId := (congrArg Ident.worldId hid).trans hw
  have hvr : s.version = version := (congrArg Ident.version hid).trans hv
  refine ⟨s, hs, hwr, hvr, s₀.toDict env, by rw [hwr, hvr, hget], ?_⟩
  rw [rowHash_toDict]
  exact (congrArg Ident.hash hid).symm

/-! ### Lists -/

lemma Hub.entries_set (h : Hub) (worldId w : String) (entries : List PortfolioSnapshot) :
    Hub.entries { h with snapshots := h.snapshots.set worldId entries } w =
      if w = worldId then entries else h.entries w := by
  unfold Hub.entries
  rw [Dict.get?_set]
  split <;> rfl

lemma mem_of_mem_keepLast {l : List PortfolioSnapshot} (h : s ∈ keepLast cfg l) : s ∈ l := by
  unfold keepLast lastOf at h
  split at h
  · exact h
  · split at h
    · exact h
    · exact List.mem_of_mem_drop h

lemma versionDeduped_ok {entries : List PortfolioSnapshot} {b : Bool} (h : versionDeduped entries s = .ok b) :
    b ∧ (∃ e ∈ entries, e.version = s.version ∧ e.hash = s.hash) ∨
      b = false ∧ ∀ e ∈ entries, e.version ≠ s.version := by
  unfold versionDeduped at h
  split at h
  · rename_i hn
    exact .inr ⟨(Except.ok.inj h).symm, fun e he => by simpa using List.find?_eq_none.mp hn e he⟩
  · rename_i e hf
    split at h
    · rename_i hh
      exact .inl ⟨(Except.ok.inj h).symm, e, List.mem_of_find?_eq_some hf, by simpa using List.find?_some hf, hh⟩
    · cases h

def Hub.listWith (h : Hub) (s : PortfolioSnapshot) : List PortfolioSnapshot :=
  keepLast cfg ((h.entries s.worldId ++ [s]).insertionSort fun a b => snapshotLe a b)

/-- **Caching**: the version is in the list of its world already, or the snapshot is put there. -/
theorem cacheSnapshot_cases {h h' : Hub} (hc : cacheSnapshot cfg h s = .ok (deduped, h')) :
    h'.repository = h.repository ∧ h'.cache = h.cache ∧ (∀ w, w ≠ s.worldId → h'.entries w = h.entries w) ∧
      (deduped ∧ (∃ e ∈ h.entries s.worldId, e.version = s.version ∧ e.hash = s.hash) ∧
          h'.entries s.worldId = h.entries s.worldId ∨
        deduped = false ∧ (∀ e ∈ h.entries s.worldId, e.version ≠ s.version) ∧
          h'.entries s.worldId = h.listWith cfg s) := by
  obtain ⟨found, hf, hc⟩ := bind_ok.mp hc
  rcases versionDeduped_ok hf with ⟨rfl, hin⟩ | ⟨rfl, hout⟩
  · cases pure_ok.mp hc
    refine ⟨rfl, rfl, fun w hw => ?_, .inl ⟨rfl, hin, ?_⟩⟩
    · rw [Hub.entries_set, if_neg hw]
    · rw [Hub.entries_set, if_pos rfl]
  · cases pure_ok.mp hc
    refine ⟨rfl, rfl, fun w hw => ?_, .inr ⟨rfl, hout, ?_⟩⟩
    · rw [Hub.entries_set, if_neg hw]
    · rw [Hub.entries_set, if_pos rfl]
      rfl

lemma cacheSnapshot_ok {h h' : Hub} (hc : cacheSnapshot cfg h s = .ok (deduped, h')) :
    h'.repository = h.repository ∧ h'.cache = h.cache ∧
      ∀ w, ∀ t ∈ h'.entries w, t ∈ h.entries w ∨ w = s.worldId ∧ t = s := by
  obtain ⟨hr, hcc, hot, hown⟩ := cacheSnapshot_cases cfg hc
  refine ⟨hr, hcc, fun w t ht => ?_⟩
  by_cases hw : w = s.worldId
  · subst hw
    rcases hown with ⟨-, -, hsm⟩ | ⟨-, -, hlist⟩
    · exact .inl (hsm ▸ ht)
    · rw [hlist] at ht
      have hs := mem_of_mem_keepLast cfg ht
      rw [List.mem_insertionSort, List.mem_append, List.mem_singleton] at hs
      exact hs.imp_right fun h => ⟨rfl, h⟩
  · rw [hot w hw] at ht
    exact .inl ht

lemma versionDeduped_of_stored (hl : ListsOk env rows h) (hs : Stored env rows s) :
    ∃ b, versionDeduped (h.entries s.worldId) s = .ok b := by
  unfold versionDeduped
  cases hf : (h.entries s.worldId).find? fun e => e.version = s.version with
  | none => exact ⟨false, rfl⟩
  | some e =>
    obtain ⟨hw, row, hrow, hh⟩ := hl _ e (List.mem_of_find?_eq_some hf)
    obtain ⟨row', hr', hh'⟩ := hs
    have hv : e.version = s.version := by simpa using List.find?_some hf
    rw [hw, hv, hr'] at hrow
    cases hrow
    refine ⟨true, ?_⟩
    simp only [hh.symm.trans hh', if_true]

lemma cacheSnapshot_of_stored (hl : ListsOk env rows h) (hs : Stored env rows s) :
    ∃ b h', cacheSnapshot cfg h s = .ok (b, h') := by
  obtain ⟨found, hf⟩ := versionDeduped_of_stored env hl hs
  unfold cacheSnapshot
  simp only [hf, bind, Except.bind]
  cases found with
  | true => exact ⟨_, _, rfl⟩
  | false => exact ⟨_, _, rfl⟩

lemma coherent_cacheSnapshot {h h' : Hub} (hh : Coherent env rows h) (hs : Stored env rows s)
    (hc : cacheSnapshot cfg h s = .ok (deduped, h')) : Coherent env rows h' := by
  obtain ⟨hr, _, hen⟩ := cacheSnapshot_ok cfg hc
  refine ⟨hr.trans hh.repository, hh.rowsOk, fun w t ht => ?_⟩
  rcases hen w t ht with hold | ⟨rfl, rfl⟩
  · exact hh.lists w t hold
  · exact ⟨rfl, hs⟩

/-! ### Writing -/

lemma enforce_of_stored (hh : Coherent env rows h) (hne : s.hash ≠ "") (hs : Stored env rows s) :
    enforceVersionIdempotency env h s = .ok true := by
  obtain ⟨row, hrow, hhs⟩ := hs
  obtain ⟨s₀, rfl, _⟩ := hh.rowsOk _ _ _ hrow
  unfold enforceVersionIdempotency
  rw [hh.repository, Option.bind_some, hrow]
  simp only [toDict_entries_ne env s₀, hhs, Bool.false_eq_true, if_false, ne_eq, hne, not_false_eq_true, true_and, if_true]

lemma enforce_ok (hh : Coherent env rows h) {b : Bool} (he : enforceVersionIdempotency env h s = .ok b) :
    b = false ∧ rows.get? (s.worldId, s.version) = none ∨ b ∧ Stored env rows s := by
  unfold enforceVersionIdempotency at he
  rw [hh.repository, Option.bind_some] at he
  split at he
  · rename_i hn
    exact .inl ⟨(Except.ok.inj he).symm, hn⟩
  · rename_i row hrow
    obtain ⟨s₀, rfl, _⟩ := hh.rowsOk _ _ _ hrow
    rw [if_neg (by simp [toDict_entries_ne])] at he
    split at he
    · rename_i hhs
      exact .inr ⟨(Except.ok.inj he).symm, _, hrow, hhs.2⟩
    · cases he

lemma cacheLatest_frame (clock : ℤ) (h : Hub) (s : PortfolioSnapshot) :
    (cacheLatest env clock h s).repository = h.repository ∧ (cacheLatest env clock h s).snapshots = h.snapshots := by
  unfold cacheLatest
  split
  · split
    · exact ⟨rfl, rfl⟩
    · exact ⟨rfl, rfl⟩
  · exact ⟨rfl, rfl⟩

lemma coherent_cacheLatest (hh : Coherent env rows h) (clock : ℤ) (s : PortfolioSnapshot) :
    Coherent env rows (cacheLatest env clock h s) := by
  obtain ⟨hr, hs⟩ := cacheLatest_frame env clock h s
  refine ⟨hr.trans hh.repository, hh.rowsOk, fun w t ht => hh.lists w t ?_⟩
  unfold Hub.entries at ht ⊢
  rwa [hs] at ht

variable {now : Timestamp}

lemma upsertSnapshot_ok {h h' : Hub} (hu : upsertSnapshot env cfg clock now h s = .ok (deduped, p, h')) :
    prepare env cfg now s = .ok p ∧ expired env clock p.stored = .ok false ∧
      ∃ inList inRows cached h₁, versionDeduped (h.entries p.stored.worldId) p.stored = .ok inList ∧
        enforceVersionIdempotency env h p.stored = .ok inRows ∧
        cacheSnapshot cfg (if inRows then h else persist env h p.stored) p.stored = .ok (cached, h₁) ∧
        deduped = (cached || inList || inRows) ∧ h' = cacheLatest env clock h₁ p.stored := by
  obtain ⟨p', hp, hu⟩ := bind_ok.mp hu
  obtain ⟨old, hold, hu⟩ := bind_ok.mp hu
  cases old with
  | true => cases hu
  | false =>
    obtain ⟨inList, hlist, hu⟩ := bind_ok.mp hu
    obtain ⟨inRows, hrows, hu⟩ := bind_ok.mp hu
    obtain ⟨⟨cached, h₁⟩, hc, hu⟩ := bind_ok.mp hu
    cases pure_ok.mp hu
    exact ⟨hp, hold, inList, inRows, cached, h₁, hlist, hrows, hc, rfl, rfl⟩

lemma upsertSnapshot_of {h h₁ : Hub} {inList inRows cached : Bool}
    (hp : prepare env cfg now s = .ok p) (hold : expired env clock p.stored = .ok false)
    (hlist : versionDeduped (h.entries p.stored.worldId) p.stored = .ok inList)
    (hrows : enforceVersionIdempotency env h p.stored = .ok inRows)
    (hc : cacheSnapshot cfg (if inRows then h else persist env h p.stored) p.stored = .ok (cached, h₁)) :
    upsertSnapshot env cfg clock now h s =
      .ok (cached || inList || inRows, p, cacheLatest env clock h₁ p.stored) := by
  unfold upsertSnapshot
  simp only [hp, hold, hlist, hrows, hc, bind, Except.bind, Bool.false_eq_true, if_false]
  rfl

lemma rowsOk_set (hr : RowsOk env rows) (hne : s.hash ≠ "") :
    RowsOk env (rows.set (s.worldId, s.version) (s.toDict env)) := by
  intro w v row hrow
  rw [Dict.get?_set] at hrow
  split at hrow
  · rename_i hkey
    cases hkey
    exact ⟨s, (Option.some.inj hrow).symm, rfl, rfl, hne⟩
  · exact hr w v row hrow

/-- **Upserts** keep the rows that are there, and leave a row of the snapshot. -/
theorem coherent_upsert {h h' : Hub} (hh : Coherent env rows h)
    (hu : upsertSnapshot env cfg clock now h s = .ok (deduped, p, h')) :
    ∃ rows', Grows rows rows' ∧ Coherent env rows' h' ∧ Stored env rows' p.stored := by
  obtain ⟨hp, -, inList, inRows, cached, h₁, -, hen, hc, -, rfl⟩ := upsertSnapshot_ok env cfg hu
  obtain ⟨v, -, -, -, hpre⟩ := prepare_ok env cfg now hp
  rcases enforce_ok env hh hen with ⟨rfl, hn⟩ | ⟨rfl, hstored⟩
  · -- the row is new
    set rows' := rows.set (p.stored.worldId, p.stored.version) (p.stored.toDict env) with hr'
    have hg : Grows rows rows' := by
      intro key row hrow
      by_cases hkey : key = (p.stored.worldId, p.stored.version)
      · rw [hkey, hn] at hrow
        cases hrow
      · rw [hr', Dict.get?_set_ne _ _ hkey, hrow]
    have hstored : Stored env rows' p.stored := ⟨_, Dict.get?_set_self _ _ _, rowHash_toDict env _⟩
    have hpr : Coherent env rows' (persist env h p.stored) :=
      ⟨by simp [persist, hh.repository, hr'], rowsOk_set env hh.rowsOk hpre.hash_ne, hh.lists.mono env hg⟩
    exact ⟨rows', hg, coherent_cacheLatest env (coherent_cacheSnapshot env cfg hpr hstored hc) _ _, hstored⟩
  · exact ⟨rows, .refl rows, coherent_cacheLatest env (coherent_cacheSnapshot env cfg hh hstored hc) _ _, hstored⟩

/-- **Duplicates**: a snapshot that has not expired, and whose hash stands in its row, is a duplicate. -/
theorem duplicate_of_stored (hh : Coherent env rows h) (hp : prepare env cfg now s = .ok p)
    (hold : expired env clock p.stored = .ok false) (hs : Stored env rows p.stored) :
    ∃ h', upsertSnapshot env cfg clock now h s = .ok (true, p, h') := by
  obtain ⟨v, -, -, -, hpr⟩ := prepare_ok env cfg now hp
  obtain ⟨inList, hlist⟩ := versionDeduped_of_stored env hh.lists hs
  obtain ⟨cached, h₁, hc⟩ := cacheSnapshot_of_stored env cfg hh.lists hs
  have hu := upsertSnapshot_of env cfg hp hold hlist (enforce_of_stored env hh hpr.hash_ne hs) hc
  rw [Bool.or_true] at hu
  exact ⟨_, hu⟩

/-! ### Reading -/

lemma mem_rowsOf {worldId : String} (h : row ∈ rowsOf rows worldId) :
    ∃ version, rows.get? (worldId, version) = some row := by
  unfold rowsOf at h
  rw [List.mem_insertionSort, List.mem_map] at h
  obtain ⟨⟨⟨w, v⟩, r⟩, hmem, rfl⟩ := h
  rw [List.mem_filter, decide_eq_true_eq] at hmem
  obtain ⟨hmem, rfl⟩ := hmem
  exact ⟨v, Dict.get?_eq_some.mpr hmem⟩

lemma cacheRow_of_mem (hh : Coherent env rows h) (now : Timestamp) {worldId version : String}
    (hget : rows.get? (worldId, version) = some row) :
    ∃ h', cacheRow env cfg now h row = .ok h' ∧ Coherent env rows h' := by
  obtain ⟨s, hs, -, -, hstored⟩ := fromPayload_row env hh.rowsOk now hget
  obtain ⟨b, h', hc⟩ := cacheSnapshot_of_stored env cfg hh.lists hstored
  refine ⟨h', ?_, coherent_cacheSnapshot env cfg hh hstored hc⟩
  unfold cacheRow
  simp only [hs, hc, bind, Except.bind]
  rfl

lemma coherent_cacheRows (hh : Coherent env rows h) (now : Timestamp) {worldId : String} {l : List Payload}
    (hl : ∀ row ∈ l, row ∈ rowsOf rows worldId) :
    (cacheRows env cfg now h l).1 ∧ Coherent env rows (cacheRows env cfg now h l).2 := by
  induction l generalizing h with
  | nil => exact ⟨rfl, hh⟩
  | cons row l ih =>
    obtain ⟨version, hget⟩ := mem_rowsOf (hl row List.mem_cons_self)
    obtain ⟨h', hc, hh'⟩ := cacheRow_of_mem env cfg hh now hget
    unfold cacheRows
    rw [hc]
    exact ih hh' fun r hr => hl r (.tail _ hr)

lemma coherent_latest (hh : Coherent env rows h) (clock : ℤ) (now : Timestamp) (worldId : String) :
    Coherent env rows (latestSnapshot env cfg clock now h worldId).2 := by
  unfold latestSnapshot
  split
  · exact hh
  · split
    · exact hh
    · exact hh
    · rw [hh.repository, Option.bind_some]
      split
      · exact hh
      · rename_i row hhd
        obtain ⟨version, hget⟩ := mem_rowsOf (List.mem_of_mem_head? hhd)
        obtain ⟨h', hc, hh'⟩ := cacheRow_of_mem env cfg hh now hget
        split
        · exact hh
        · rw [hc]
          dsimp only
          split
          · exact hh'
          · exact hh'

lemma coherent_asOf (hh : Coherent env rows h) (clock : ℤ) (now : Timestamp) (worldId asOf : String) :
    Coherent env rows (snapshotForAsOf env cfg clock now h worldId asOf).2 := by
  have hl : Coherent env rows (if (h.entries worldId).isEmpty then
      cacheRows env cfg now h ((h.repository.map fun rows => (rowsOf rows worldId).take 50).getD [])
    else (true, h)).2 := by
    split
    · rw [hh.repository]
      exact (coherent_cacheRows env cfg hh now fun row hr => List.mem_of_mem_take hr).2
    · exact hh
  unfold snapshotForAsOf
  dsimp only
  split
  · exact hl
  · exact hl

lemma coherent_version (hh : Coherent env rows h) (clock : ℤ) (now : Timestamp) (worldId version : String) :
    Coherent env rows (snapshotOfVersion env cfg clock now h worldId version).2 := by
  unfold snapshotOfVersion
  split
  · exact hh
  · exact hh
  · rw [hh.repository, Option.bind_some]
    split
    · exact hh
    · rename_i row hget
      split
      · exact hh
      · obtain ⟨s, hs, -, -, hstored⟩ := fromPayload_row env hh.rowsOk now hget
        obtain ⟨b, h', hc⟩ := cacheSnapshot_of_stored env cfg hh.lists hstored
        rw [hs]
        dsimp only
        rw [hc]
        exact coherent_cacheSnapshot env cfg hh hstored hc

lemma coherent_list (hh : Coherent env rows h) (clock : ℤ) (now : Timestamp) (worldId : String) (limit : ℕ) :
    Coherent env rows (listSnapshots env cfg clock now h worldId limit).2 := by
  unfold listSnapshots
  dsimp only
  split
  · rw [hh.repository]
    exact (coherent_cacheRows env cfg hh now fun row hr => List.mem_of_mem_take hr).2
  · exact hh

lemma coherent_after (hh : Coherent env rows h) (t : Timed) :
    ∃ rows', Grows rows rows' ∧ Coherent env rows' (h.after env cfg t) := by
  obtain ⟨call, clock, now⟩ := t
  cases call with
  | upsert s =>
    unfold Hub.after
    dsimp only
    split
    · rename_i r hr
      obtain ⟨rows', hg, hh', -⟩ := coherent_upsert env cfg hh hr
      exact ⟨rows', hg, hh'⟩
    · exact ⟨rows, .refl rows, hh⟩
  | latest worldId => exact ⟨rows, .refl rows, coherent_latest env cfg hh clock now worldId⟩
  | asOf worldId asOf => exact ⟨rows, .refl rows, coherent_asOf env cfg hh clock now worldId asOf⟩
  | version worldId version => exact ⟨rows, .refl rows, coherent_version env cfg hh clock now worldId version⟩
  | list worldId limit => exact ⟨rows, .refl rows, coherent_list env cfg hh clock now worldId limit⟩

/-! ### Hubs that share a repository -/

structure Hubs (ι : Type) where
  rows : Dict (String × String) Payload
  cache : Dict String CachedPayload
  snapshots : ι → Dict String (List PortfolioSnapshot)

variable {ι : Type} [DecidableEq ι] (cfgs : ι → Settings) (cached : ι → Bool)

def Hubs.hub (σ : Hubs ι) (i : ι) : Hub where
  snapshots := σ.snapshots i
  repository := some σ.rows
  cache := if cached i then some σ.cache else none

def Hubs.put (σ : Hubs ι) (i : ι) (h : Hub) : Hubs ι where
  rows := h.repository.getD σ.rows
  cache := h.cache.getD σ.cache
  snapshots := Function.update σ.snapshots i h.snapshots

def Hubs.step (σ : Hubs ι) (c : ι × Timed) : Hubs ι := σ.put c.1 ((σ.hub cached c.1).after env (cfgs c.1) c.2)

def Hubs.run (σ : Hubs ι) (calls : List (ι × Timed)) : Hubs ι := calls.foldl (Hubs.step env cfgs cached) σ

def Hubs.init : Hubs ι := ⟨Dict.empty, Dict.empty, fun _ => Dict.empty⟩

def Hubs.Ok (σ : Hubs ι) : Prop := ∀ i, Coherent env σ.rows (σ.hub cached i)

omit [DecidableEq ι] in
lemma ok_init : (Hubs.init : Hubs ι).Ok env cached := by
  intro i
  refine ⟨rfl, fun w v row h => absurd h (by simp [Hubs.init]), fun w s hs => ?_⟩
  cases hs

variable {σ : Hubs ι}

lemma ok_put (hσ : σ.Ok env cached) {i : ι} (hg : Grows σ.rows rows) (hh : Coherent env rows h) :
    (σ.put i h).Ok env cached ∧ (σ.put i h).rows = rows := by
  have hrows : (σ.put i h).rows = rows := by simp [Hubs.put, hh.repository]
  refine ⟨fun j => ⟨rfl, hrows ▸ hh.rowsOk, ?_⟩, hrows⟩
  rw [hrows]
  by_cases hj : j = i
  · subst hj
    intro w s hs
    refine hh.lists w s ?_
    simpa [Hub.entries, Hubs.hub, Hubs.put] using hs
  · intro w s hs
    refine (hσ j).lists.mono env hg w s ?_
    simpa [Hub.entries, Hubs.hub, Hubs.put, Function.update_of_ne hj] using hs

lemma step_ok (hσ : σ.Ok env cached) (c : ι × Timed) :
    (σ.step env cfgs cached c).Ok env cached ∧ Grows σ.rows (σ.step env cfgs cached c).rows := by
  obtain ⟨rows, hg, hh⟩ := coherent_after env (cfgs c.1) (hσ c.1) c.2
  obtain ⟨hok, hrows⟩ := ok_put env cached hσ hg hh
  exact ⟨hok, by rw [Hubs.step, hrows]; exact hg⟩

lemma run_ok (hσ : σ.Ok env cached) (calls : List (ι × Timed)) :
    (σ.run env cfgs cached calls).Ok env cached ∧ Grows σ.rows (σ.run env cfgs cached calls).rows := by
  induction calls generalizing σ with
  | nil => exact ⟨hσ, .refl _⟩
  | cons c calls ih =>
    obtain ⟨hok, hg⟩ := step_ok env cfgs cached hσ c
    obtain ⟨hok', hg'⟩ := ih hok
    exact ⟨hok', hg.trans hg'⟩

end Qmtl.WorldService.Risk

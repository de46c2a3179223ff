import Qmtl.Lib.Run
import Qmtl.WorldService.SnapshotReads

/-! Runs of a hub, and which snapshot it serves. -/

namespace Qmtl.WorldService.Risk

open Lib

variable (env : Env) (cfg : Settings)

/-! ### Runs -/

structure HubRun where
  hub : Hub
  accepted : List PortfolioSnapshot
  clock : ℤ

def HubRun.init (persistent cached : Bool) (clock : ℤ) : HubRun where
  hub := ⟨Dict.empty, if persistent then some Dict.empty else none, if cached then some Dict.empty else none⟩
  accepted := []
  clock := clock

def HubRun.step (σ : HubRun) (t : Timed) : Option HubRun :=
  if t.clock < σ.clock then none
  else match t.call with
    | .upsert s =>
      match upsertSnapshot env cfg t.clock t.now σ.hub s with
      | .ok r => some ⟨r.2.2, r.2.1.stored :: σ.accepted, t.clock⟩
      | .error _ => none
    | _ => some ⟨σ.hub.after env cfg t, σ.accepted, t.clock⟩

def PortfolioSnapshot.instant (s : PortfolioSnapshot) : ℤ := (parseIso env s.asOf).getD 0

def Fresh (clock : ℤ) (s : PortfolioSnapshot) : Prop := expired env clock s = .ok false

def served (s : PortfolioSnapshot) : PortfolioSnapshot := { s with ttlSec := some (ttlOf cfg s) }

structure InOrder (σ : HubRun) (clock : ℤ) (s : PortfolioSnapshot) : Prop where
  parses : (parseIso env s.asOf).isSome
  texts : ∀ y ∈ σ.accepted, y.worldId = s.worldId → Fresh env clock y →
    (y.instant env < s.instant env → y.asOf < s.asOf) ∧ (s.instant env < y.instant env → s.asOf < y.asOf)
  cache : σ.hub.cache.isSome → ∀ y ∈ σ.accepted, y.worldId = s.worldId → Fresh env clock y →
    y.instant env ≤ s.instant env
  again : (∃ y ∈ σ.accepted, y.worldId = s.worldId ∧ y.version = s.version) →
    ∃ y ∈ σ.accepted, y.worldId = s.worldId ∧ y.version = s.version ∧ y.instant env = s.instant env ∧
      ∀ c, Fresh env c (served cfg s) → Fresh env c y

def AllInOrder (σ : HubRun) (t : Timed) : Prop := ∀ s, t.call = .upsert s → InOrder env cfg σ t.clock s

def HubRun.versions (σ : HubRun) (worldId : String) : List String :=
  ((σ.accepted.filter fun s => s.worldId = worldId).map fun s => s.version).dedup

def Fits (σ : HubRun) (worldId : String) : Prop := ∀ n, cfg.maxCached = some n → (σ.versions worldId).length ≤ n

structure Newest (σ : HubRun) (clock : ℤ) (worldId : String) (q : ℤ → Prop) (r : Option PortfolioSnapshot) : Prop where
  absent : r = none → ∀ y ∈ σ.accepted, y.worldId = worldId → Fresh env clock y → ¬ q (y.instant env)
  present : ∀ s, r = some s → ∃ y ∈ σ.accepted, y.worldId = worldId ∧ Fresh env clock y ∧ q (y.instant env) ∧
    SameSnapshot env s y ∧
      ∀ z ∈ σ.accepted, z.worldId = worldId → Fresh env clock z → q (z.instant env) → z.instant env ≤ y.instant env

structure Listed (σ : HubRun) (worldId : String) : Prop where
  accepted : ∀ e ∈ σ.hub.entries worldId, e ∈ σ.accepted ∧ e.worldId = worldId
  sorted : (σ.hub.entries worldId).Pairwise fun a b => snapshotLe a b = true
  versions : ((σ.hub.entries worldId).map fun e => e.version).Nodup
  every : ∀ y ∈ σ.accepted, y.worldId = worldId → ∃ e ∈ σ.hub.entries worldId,
    e.version = y.version ∧ e.instant env = y.instant env ∧ ∀ c, Fresh env c y → Fresh env c e

structure HubInv (σ : HubRun) : Prop where
  rows : ∀ rows ∈ σ.hub.repository, ∀ worldId version row, rows.get? (worldId, version) = some row →
    ∃ y ∈ σ.accepted, y.worldId = worldId ∧ y.version = version ∧ row = y.toDict env
  cache : ∀ cache ∈ σ.hub.cache, ∀ worldId c, cache.get? worldId = some c →
    ∃ y ∈ σ.accepted, y.worldId = worldId ∧ c.payload = y.toDict env ∧
      ∀ z ∈ σ.accepted, z.worldId = worldId → Fresh env σ.clock z → z.instant env ≤ y.instant env
  total : ∀ y ∈ σ.accepted, ∀ c, ∃ b, expired env c y = .ok b
  texts : ∀ y ∈ σ.accepted, ∀ z ∈ σ.accepted, y.worldId = z.worldId → Fresh env σ.clock y → Fresh env σ.clock z →
    y.instant env < z.instant env → y.asOf < z.asOf
  lists : ∀ worldId, Fits cfg σ worldId → Listed env σ worldId

variable {clock : ℤ} {s : PortfolioSnapshot}

lemma Fresh.mono {clock' : ℤ} (h : Fresh env clock s) (hle : clock' ≤ clock) : Fresh env clock' s := by
  unfold Fresh expired at h ⊢
  split at h
  · rfl
  · split at h
    · cases h
    · rename_i deadline _ hmax
      have hnot : ¬ deadline < clock := by simpa using Except.ok.inj h
      rw [if_neg hmax]
      exact congrArg Except.ok (decide_eq_false (by omega))

lemma Fresh.total (h : Fresh env clock s) (c : ℤ) : ∃ b, expired env c s = .ok b := by
  unfold Fresh expired at h
  unfold expired
  split at h
  · exact ⟨false, rfl⟩
  · split at h
    · cases h
    · rename_i hmax
      exact ⟨_, if_neg hmax⟩

lemma fresh_congr {t : PortfolioSnapshot} (hid : s.ident = t.ident) : Fresh env clock s ↔ Fresh env clock t := by
  unfold Fresh
  rw [expired_congr env hid]

lemma fresh_stored {v : PortfolioSnapshot} {p : Prepared} (hp : Prepares s v (ttlOf cfg s) p) :
    Fresh env clock p.stored ↔ Fresh env clock (served cfg s) := by
  have hc : p.stored.createdAt = s.createdAt := congrArg Ident.createdAt hp.stored
  have httl : p.stored.ttlSec = some (ttlOf cfg s) := congrArg Ident.ttlSec hp.stored
  unfold Fresh expired PortfolioSnapshot.deadline
  rw [hc, httl]
  rfl

/-! ### Reading -/

section Reads

variable {env cfg} {σ : HubRun} {clock : ℤ} {worldId : String}

/-- **The list** answers with the newest snapshot, where what is looked at in a text agrees with its instant. -/
theorem newest_of_list (hinv : HubInv env cfg σ) (hl : Listed env σ worldId) (hc : σ.clock ≤ clock)
    {p : PortfolioSnapshot → Bool} {q : ℤ → Prop}
    (hp : ∀ y ∈ σ.accepted, y.worldId = worldId → Fresh env clock y → (p y ↔ q (y.instant env))) :
    ∃ r, firstFresh env clock p (σ.hub.entries worldId).reverse = .ok r ∧ Newest env σ clock worldId q r := by
  obtain ⟨r, hr, hn, hsm⟩ := firstFresh_ok env clock (p := p) (l := (σ.hub.entries worldId).reverse)
    fun s hs => hinv.total s (hl.accepted s (List.mem_reverse.mp hs)).1 clock
  refine ⟨r, hr, fun hr y hy hw hf hq => ?_, fun s hs => ?_⟩
  · obtain ⟨e, he, -, hin, hfr⟩ := hl.every y hy hw
    obtain ⟨hacc, hew⟩ := hl.accepted e he
    have hfe := hfr clock hf
    have hpe := (hp e hacc hew hfe).mpr (hin ▸ hq)
    have hold := hn hr e (List.mem_reverse.mpr he) hpe
    unfold Fresh at hfe
    rw [hold] at hfe
    cases hfe
  · obtain ⟨hmem, hps, hold, hls⟩ := hsm s hs
    have hfs : Fresh env clock s := hold
    obtain ⟨hacc, hsw⟩ := hl.accepted s (List.mem_reverse.mp hmem)
    refine ⟨s, hacc, hsw, hfs, (hp s hacc hsw hfs).mp hps, .refl env s, fun z hz hzw hfz hqz => ?_⟩
    obtain ⟨e, he, -, hin, hfr⟩ := hl.every z hz hzw
    obtain ⟨hec, hew⟩ := hl.accepted e he
    have hfe := hfr clock hfz
    have hpe := (hp e hec hew hfe).mpr (hin ▸ hqz)
    rw [← hin]
    rcases hls (fun a b => snapshotLe a b) (List.pairwise_reverse.mpr hl.sorted) e (List.mem_reverse.mpr he) hpe hfe
      with rfl | hle
    · exact le_rfl
    · -- a text that is not after another names no later instant
      by_contra hlt
      have htext := hinv.texts s hacc e hec (hsw.trans hew.symm) (hfs.mono env hc) (hfe.mono env hc)
        (not_le.mp hlt)
      unfold snapshotLe at hle
      simp only [Bool.or_eq_true, Bool.and_eq_true, decide_eq_true_eq] at hle
      rcases hle with hlt' | ⟨heq, -⟩
      · exact String.lt_irrefl _ (String.lt_trans htext hlt')
      · exact String.lt_irrefl _ (heq ▸ htext)

lemma covered_of_listed (hinv : HubInv env cfg σ) (hl : Listed env σ worldId) : Covered σ.hub worldId := by
  intro rows hrows version row hget
  obtain ⟨y, hy, hw, hv, -⟩ := hinv.rows rows hrows worldId version row hget
  obtain ⟨e, he, hev, -⟩ := hl.every y hy hw
  exact ⟨e, he, hev.trans hv⟩

lemma rowsRead_of_inv (hinv : HubInv env cfg σ) (worldId : String) : RowsRead env σ.hub worldId := by
  intro rows hrows version row hget now s hs
  obtain ⟨y, -, hw, hv, rfl⟩ := hinv.rows rows hrows worldId version row hget
  have hid := (same_of_read env hs).2
  have hwr : s.worldId = y.worldId := congrArg Ident.worldId hid
  have hvr : s.version = y.version := congrArg Ident.version hid
  exact ⟨hwr.trans hw, hvr.trans hv⟩

lemma Newest.map_materialize {q : ℤ → Prop} {r : Option PortfolioSnapshot} (h : Newest env σ clock worldId q r) :
    Newest env σ clock worldId q (r.map (materialize env cfg)) := by
  constructor
  · intro hr
    exact h.absent (Option.map_eq_none_iff.mp hr)
  · intro s hs
    obtain ⟨s₀, hs₀, rfl⟩ := Option.map_eq_some_iff.mp hs
    obtain ⟨y, hy, hw, hf, hq, hsm, hall⟩ := h.present s₀ hs₀
    exact ⟨y, hy, hw, hf, hq, (same_materialize env cfg s₀).trans env hsm, hall⟩

lemma newest_of_cache (hinv : HubInv env cfg σ) (hcl : σ.clock ≤ clock) {now : Timestamp} {s : PortfolioSnapshot}
    (hs : cachedLatest env clock now σ.hub worldId = some s) :
    Newest env σ clock worldId (fun _ => True) (some s) := by
  unfold cachedLatest at hs
  split at hs
  · cases hs
  · rename_i c hc
    obtain ⟨cache, hcc, hget⟩ := Option.bind_eq_some_iff.mp hc
    obtain ⟨y, hy, hw, hp, hall⟩ := hinv.cache cache hcc worldId c hget
    split at hs
    · rw [hp] at hs
      split at hs
      · cases hs
      · rename_i r hr
        obtain ⟨hsm, hid⟩ := same_of_read env hr
        split at hs
        · rename_i hf
          cases hs
          refine ⟨fun h => absurd h (by simp), fun t ht => ?_⟩
          cases ht
          exact ⟨y, hy, hw, (fresh_congr env hid).mp hf, trivial, hsm,
            fun z hz hzw hfz _ => hall z hz hzw (hfz.mono env hcl)⟩
        · cases hs
    · cases hs

lemma newest_latest (hinv : HubInv env cfg σ) (hl : Listed env σ worldId) (hcl : σ.clock ≤ clock) (now : Timestamp) :
    ∃ r, (latestSnapshot env cfg clock now σ.hub worldId).1 = .ok r ∧ Newest env σ clock worldId (fun _ => True) r := by
  obtain ⟨r, hr, hn⟩ := newest_of_list hinv hl hcl (p := fun _ => true) (q := fun _ => True)
    fun _ _ _ _ => by simp
  unfold latestSnapshot
  split
  · rename_i s hs
    exact ⟨_, rfl, (newest_of_cache hinv hcl hs).map_materialize⟩
  · unfold latestFresh
    rw [hr]
    cases r with
    | some s => exact ⟨_, rfl, hn.map_materialize⟩
    | none =>
      -- nothing in the list is fresh, and the repository has nothing more
      dsimp only
      split
      · exact ⟨none, rfl, hn⟩
      · rename_i row hh
        obtain ⟨rows, hmem, hh⟩ := Option.bind_eq_some_iff.mp hh
        obtain ⟨version, hget⟩ := mem_rowsOf (List.mem_of_mem_head? hh)
        split
        · exact ⟨none, rfl, hn⟩
        · split
          · exact ⟨none, rfl, hn⟩
          · rename_i hub hc
            have ha := afterRead_cacheRow (rowsRead_of_inv hinv worldId) hmem hget hc
            rw [ha.own (covered_of_listed hinv hl), hr]
            exact ⟨none, rfl, hn⟩

def ComparesAlike (env : Env) (σ : HubRun) (clock : ℤ) (worldId asOf : String) (instant : ℤ) : Prop :=
  ∀ y ∈ σ.accepted, y.worldId = worldId → Fresh env clock y → (y.asOf ≤ asOf ↔ y.instant env ≤ instant)

/-- **The snapshot as of an instant** is the newest that was not taken after it. -/
theorem newest_asOf (hinv : HubInv env cfg σ) (hl : Listed env σ worldId) (hc : σ.clock ≤ clock) (now : Timestamp)
    {asOf : String} {instant : ℤ} (ht : ComparesAlike env σ clock worldId asOf instant) :
    ∃ r, (snapshotForAsOf env cfg clock now σ.hub worldId asOf).1 = .ok r ∧
      Newest env σ clock worldId (fun i => i ≤ instant) r := by
  obtain ⟨r, hr, hn⟩ := newest_of_list hinv hl hc (p := fun s => s.asOf ≤ asOf) (q := fun i => i ≤ instant)
    fun y hy hw hf => by simpa using ht y hy hw hf
  -- what is read from the repository is in the list
  have hen : ∀ loaded, loaded = (if (σ.hub.entries worldId).isEmpty then
      cacheRows env cfg now σ.hub ((σ.hub.repository.map fun rows => (rowsOf rows worldId).take 50).getD [])
    else (true, σ.hub)) → (if loaded.1 then loaded.2.entries worldId else []) = σ.hub.entries worldId := by
    intro loaded hld
    by_cases hempty : (σ.hub.entries worldId).isEmpty
    · rw [if_pos hempty] at hld
      have ha := afterRead_taken cfg (rowsRead_of_inv hinv worldId) now 50
      rw [hld, ha.own (covered_of_listed hinv hl), List.isEmpty_iff.mp hempty]
      split <;> rfl
    · rw [if_neg hempty] at hld
      rw [hld]
      rfl
  unfold snapshotForAsOf
  dsimp only
  rw [hen _ rfl, hr]
  exact ⟨_, rfl, hn.map_materialize⟩

end Reads

section Steps

variable {env cfg} {σ σ' : HubRun}

lemma inv_init (persistent cached : Bool) (clock : ℤ) : HubInv env cfg (HubRun.init persistent cached clock) := by
  constructor
  case rows =>
    intro rows hrows w v row hget
    cases persistent with
    | false => cases hrows
    | true =>
      obtain rfl : .empty = rows := Option.some.inj hrows
      cases hget
  case cache =>
    intro cache hc w c hget
    cases cached with
    | false => cases hc
    | true =>
      obtain rfl : .empty = cache := Option.some.inj hc
      cases hget
  case total => exact fun y hy => absurd hy List.not_mem_nil
  case texts => exact fun y hy => absurd hy List.not_mem_nil
  case lists =>
    refine fun w _ => ⟨fun e he => absurd he List.not_mem_nil, List.Pairwise.nil, List.nodup_nil, fun y hy => ?_⟩
    cases hy

variable {clock : ℤ} {h : Hub} {x : PortfolioSnapshot}

lemma inv_read (hinv : HubInv env cfg σ) {worldId : String} (hc : σ.clock ≤ clock)
    (ha : AfterRead worldId σ.hub h) : HubInv env cfg ⟨h, σ.accepted, clock⟩ := by
  constructor
  case rows =>
    intro rows hrows
    exact hinv.rows rows (by rw [← ha.repository]; exact hrows)
  case cache =>
    intro cache hcc w c hget
    obtain ⟨y, hy, hw, hp, hall⟩ := hinv.cache cache (by rw [← ha.cache]; exact hcc) w c hget
    exact ⟨y, hy, hw, hp, fun z hz hzw hfz => hall z hz hzw (hfz.mono env hc)⟩
  case total => exact hinv.total
  case texts =>
    exact fun y hy z hz hw hfy hfz => hinv.texts y hy z hz hw (hfy.mono env hc) (hfz.mono env hc)
  case lists =>
    intro w hfits
    have hl := hinv.lists w hfits
    have hs : h.entries w = σ.hub.entries w := by
      by_cases hw : w = worldId
      · subst hw
        exact ha.own (covered_of_listed hinv hl)
      · exact ha.others w hw
    exact ⟨by rw [hs]; exact hl.accepted, by rw [hs]; exact hl.sorted, by rw [hs]; exact hl.versions,
      by rw [hs]; exact hl.every⟩

/-! ### Upserts -/

lemma snapshotLe_total (a b : PortfolioSnapshot) : snapshotLe a b ∨ snapshotLe b a := by
  unfold snapshotLe
  simp only [Bool.or_eq_true, Bool.and_eq_true, decide_eq_true_eq]
  by_cases hab : a.asOf < b.asOf
  · exact .inl (.inl hab)
  · by_cases hba : b.asOf < a.asOf
    · exact .inr (.inl hba)
    · have heq : a.asOf = b.asOf := String.le_antisymm (String.not_lt.mp hba) (String.not_lt.mp hab)
      rcases String.le_total a.version b.version with h | h
      · exact .inl (.inr ⟨heq, h⟩)
      · exact .inr (.inr ⟨heq.symm, h⟩)

lemma snapshotLe_trans {a b c : PortfolioSnapshot} (hab : snapshotLe a b) (hbc : snapshotLe b c) :
    snapshotLe a c := by
  unfold snapshotLe at *
  simp only [Bool.or_eq_true, Bool.and_eq_true, decide_eq_true_eq] at *
  rcases hab with hab | ⟨hab, hab'⟩ <;> rcases hbc with hbc | ⟨hbc, hbc'⟩
  · exact .inl (String.lt_trans hab hbc)
  · exact .inl (hbc ▸ hab)
  · exact .inl (hab ▸ hbc)
  · exact .inr ⟨hab.trans hbc, String.le_trans hab' hbc'⟩

lemma pairwise_insertionSort (l : List PortfolioSnapshot) :
    (l.insertionSort fun a b => snapshotLe a b).Pairwise fun a b => snapshotLe a b := by
  have : Std.Total fun a b : PortfolioSnapshot => snapshotLe a b := ⟨snapshotLe_total⟩
  have : IsTrans PortfolioSnapshot fun a b => snapshotLe a b := ⟨fun _ _ _ => snapshotLe_trans⟩
  exact List.pairwise_insertionSort _ l

lemma keepLast_of_le {l : List PortfolioSnapshot} (h : ∀ n, cfg.maxCached = some n → l.length ≤ n) :
    keepLast cfg l = l := by
  unfold keepLast
  split
  · rfl
  · rename_i n hn
    unfold lastOf
    split
    · rfl
    · have hlen := h n hn
      rw [show l.length - n = 0 by omega]
      rfl

lemma mem_versions {worldId version : String} :
    version ∈ σ.versions worldId ↔ ∃ y ∈ σ.accepted, y.worldId = worldId ∧ y.version = version := by
  unfold HubRun.versions
  simp [and_assoc]

lemma length_le_versions {l : List PortfolioSnapshot} {worldId : String} (hn : (l.map fun e => e.version).Nodup)
    (hl : ∀ e ∈ l, e ∈ σ.accepted ∧ e.worldId = worldId) : l.length ≤ (σ.versions worldId).length := by
  rw [← List.length_map (fun e : PortfolioSnapshot => e.version)]
  refine (hn.subperm fun version hv => ?_).length_le
  obtain ⟨e, he, rfl⟩ := List.mem_map.mp hv
  exact mem_versions.mpr ⟨e, (hl e he).1, (hl e he).2, rfl⟩

lemma fits_of_cons {h' : Hub} {accepted : List PortfolioSnapshot} {clock' : ℤ} {worldId : String}
    (hfits : Fits cfg ⟨h', x :: accepted, clock'⟩ worldId) : Fits cfg ⟨h, accepted, clock⟩ worldId := by
  intro n hn
  refine le_trans ?_ (hfits n hn)
  refine ((List.nodup_dedup _).subperm fun version hv => ?_).length_le
  obtain ⟨y, hy, hw, hvr⟩ := mem_versions.mp hv
  exact mem_versions.mpr ⟨y, .tail _ hy, hw, hvr⟩

lemma listed_insert (hl : Listed env σ x.worldId) (hfits : Fits cfg ⟨h, x :: σ.accepted, clock⟩ x.worldId)
    (hout : ∀ e ∈ σ.hub.entries x.worldId, e.version ≠ x.version)
    (hen : h.entries x.worldId = σ.hub.listWith cfg x) : Listed env ⟨h, x :: σ.accepted, clock⟩ x.worldId := by
  have hac : ∀ e ∈ σ.hub.entries x.worldId ++ [x], e ∈ x :: σ.accepted ∧ e.worldId = x.worldId := by
    intro e he
    rcases List.mem_append.mp he with he | he
    · exact ⟨.tail _ (hl.accepted e he).1, (hl.accepted e he).2⟩
    · obtain rfl := List.mem_singleton.mp he
      exact ⟨.head _, rfl⟩
  have hnd : ((σ.hub.entries x.worldId ++ [x]).map fun e => e.version).Nodup := by
    rw [List.map_append, List.map_singleton, List.nodup_append]
    refine ⟨hl.versions, List.nodup_singleton _, ?_⟩
    rintro v hv w hw rfl
    obtain ⟨e, he, rfl⟩ := List.mem_map.mp hv
    exact hout e he (List.mem_singleton.mp hw)
  have hp := (σ.hub.entries x.worldId ++ [x]).perm_insertionSort fun a b => snapshotLe a b
  have hall : h.entries x.worldId = (σ.hub.entries x.worldId ++ [x]).insertionSort fun a b => snapshotLe a b := by
    rw [hen]
    refine keepLast_of_le fun n hn => ?_
    rw [hp.length_eq]
    exact (length_le_versions (σ := ⟨h, x :: σ.accepted, clock⟩) hnd hac).trans (hfits n hn)
  constructor
  case accepted =>
    intro e he
    rw [show (HubRun.mk h (x :: σ.accepted) clock).hub.entries x.worldId = h.entries x.worldId from rfl, hall,
      hp.mem_iff] at he
    exact hac e he
  case sorted =>
    rw [hall]
    exact pairwise_insertionSort _
  case versions =>
    rw [hall]
    exact (hp.map _).nodup_iff.mpr hnd
  case every =>
    intro y hy hw
    rw [hall]
    rcases List.mem_cons.mp hy with rfl | hy
    · exact ⟨y, hp.mem_iff.mpr (List.mem_append_right _ (List.mem_singleton_self y)), rfl, rfl, fun _ hf => hf⟩
    · obtain ⟨e, he, hr⟩ := hl.every y hy hw
      exact ⟨e, hp.mem_iff.mpr (List.mem_append_left _ he), hr⟩

lemma listed_again (hl : Listed env σ x.worldId)
    (hag : ∃ y ∈ σ.accepted, y.worldId = x.worldId ∧ y.version = x.version ∧ y.instant env = x.instant env ∧
      ∀ c, Fresh env c x → Fresh env c y) (hen : h.entries x.worldId = σ.hub.entries x.worldId) :
    Listed env ⟨h, x :: σ.accepted, clock⟩ x.worldId := by
  constructor
  case accepted =>
    intro e he
    have he' : e ∈ h.entries x.worldId := he
    rw [hen] at he'
    exact ⟨.tail _ (hl.accepted e he').1, (hl.accepted e he').2⟩
  case sorted =>
    rw [hen]
    exact hl.sorted
  case versions =>
    rw [hen]
    exact hl.versions
  case every =>
    intro y hy hw
    rw [hen]
    rcases List.mem_cons.mp hy with rfl | hy
    · obtain ⟨y', hy', hw', hv, hin, hf⟩ := hag
      obtain ⟨e, he, hev, hei, hef⟩ := hl.every y' hy' hw'
      exact ⟨e, he, hev.trans hv, hei.trans hin, fun c hc => hef c (hf c hc)⟩
    · exact hl.every y hy hw

lemma get?_cacheLatest {h₁ : Hub} (h₁cache : h₁.cache = h.cache) {cache : Dict String CachedPayload}
    (hcc : cache ∈ (cacheLatest env clock h₁ x).cache) (hpos : ∃ ttl, x.ttlSec = some ttl ∧ 0 < ttl) {w : String}
    {c : CachedPayload} (hget : cache.get? w = some c) :
    w = x.worldId ∧ c.payload = x.toDict env ∨ w ≠ x.worldId ∧ ∃ cache₀ ∈ h.cache, cache₀.get? w = some c := by
  obtain ⟨ttl, httl, hpos⟩ := hpos
  unfold cacheLatest at hcc
  rw [h₁cache, httl] at hcc
  cases hc : h.cache with
  | none =>
    rw [hc] at hcc
    rw [h₁cache, hc] at hcc
    cases hcc
  | some cache₀ =>
    rw [hc] at hcc
    dsimp only at hcc
    rw [if_neg (not_le.mpr hpos)] at hcc
    cases hcc
    rw [Dict.get?_set] at hget
    split at hget
    · rename_i hw
      exact .inl ⟨hw, by rw [← Option.some.inj hget]⟩
    · rename_i hw
      exact .inr ⟨hw, cache₀, rfl, hget⟩

lemma inv_upsert (hinv : HubInv env cfg σ) {now : Timestamp} {s : PortfolioSnapshot} {deduped : Bool} {p : Prepared}
    (hcl : σ.clock ≤ clock) (hor : InOrder env cfg σ clock s)
    (hu : upsertSnapshot env cfg clock now σ.hub s = .ok (deduped, p, h)) :
    HubInv env cfg ⟨h, p.stored :: σ.accepted, clock⟩ := by
  obtain ⟨hp, hfr, inList, inRows, cached, h₁, -, -, hcc, -, rfl⟩ := upsertSnapshot_ok env cfg hu
  obtain ⟨v, -, hpos, -, hpr⟩ := prepare_ok env cfg now hp
  obtain ⟨hrp, hca, hot, hown⟩ := cacheSnapshot_cases cfg hcc
  have hf := cacheLatest_frame env clock h₁ p.stored
  have hwr : p.stored.worldId = s.worldId := congrArg Ident.worldId hpr.stored
  have hao : p.stored.asOf = s.asOf := congrArg Ident.asOf hpr.stored
  have hv : p.stored.version = s.version := congrArg Ident.version hpr.stored
  have httl : p.stored.ttlSec = some (ttlOf cfg s) := congrArg Ident.ttlSec hpr.stored
  have hin : p.stored.instant env = s.instant env := by unfold PortfolioSnapshot.instant; rw [hao]
  have hen : ∀ w, (cacheLatest env clock h₁ p.stored).entries w = h₁.entries w := by
    intro w
    unfold Hub.entries
    rw [hf.2]
  have hb : ∀ w, (if inRows then σ.hub else persist env σ.hub p.stored).entries w = σ.hub.entries w := by
    intro w
    split <;> rfl
  have hc' : h₁.cache = σ.hub.cache := by
    rw [hca]
    split <;> rfl
  constructor
  case rows =>
    intro rows hrows w ver row hget
    have hr' : rows ∈ (if inRows then σ.hub else persist env σ.hub p.stored).repository := by
      rw [← hrp, ← hf.1]
      exact hrows
    cases inRows with
    | true =>
      obtain ⟨y, hy, hr⟩ := hinv.rows rows hr' w ver row hget
      exact ⟨y, .tail _ hy, hr⟩
    | false =>
      obtain ⟨rows₀, hr₀, rfl⟩ := Option.map_eq_some_iff.mp
        (show σ.hub.repository.map (fun rows => rows.set (p.stored.worldId, p.stored.version) (p.stored.toDict env)) =
          some rows from hr')
      rw [Dict.get?_set] at hget
      split at hget
      · rename_i hkey
        cases hkey
        exact ⟨p.stored, .head _, rfl, rfl, (Option.some.inj hget).symm⟩
      · obtain ⟨y, hy, hr⟩ := hinv.rows rows₀ hr₀ w ver row hget
        exact ⟨y, .tail _ hy, hr⟩
  case cache =>
    intro cache hmem w c hget
    rcases get?_cacheLatest hc' hmem ⟨_, httl, hpos⟩ hget with ⟨rfl, hpl⟩ | ⟨hw, cache₀, hc₀, hg₀⟩
    · -- the snapshot is in the cache, and no fresh one is newer
      refine ⟨p.stored, .head _, rfl, hpl, fun z hz hzw hfz => ?_⟩
      rcases List.mem_cons.mp hz with rfl | hz
      · exact le_rfl
      · rw [hin]
        refine hor.cache ?_ z hz (hzw.trans hwr) hfz
        cases hc : σ.hub.cache with
        | none =>
          unfold cacheLatest at hmem
          rw [hc', hc] at hmem
          rw [hc', hc] at hmem
          cases hmem
        | some cache₀ => rfl
    · obtain ⟨y, hy, hyw, hpl, hall⟩ := hinv.cache cache₀ hc₀ w c hg₀
      refine ⟨y, .tail _ hy, hyw, hpl, fun z hz hzw hfz => ?_⟩
      rcases List.mem_cons.mp hz with rfl | hz
      · exact absurd hzw.symm hw
      · exact hall z hz hzw (hfz.mono env hcl)
  case total =>
    intro y hy c
    rcases List.mem_cons.mp hy with rfl | hy
    · exact Fresh.total env hfr c
    · exact hinv.total y hy c
  case texts =>
    intro y hy z hz hw hfy hfz hlt
    rcases List.mem_cons.mp hy with rfl | hy <;> rcases List.mem_cons.mp hz with rfl | hz
    · exact absurd hlt (lt_irrefl _)
    · rw [hao]
      exact (hor.texts z hz (hw.symm.trans hwr) hfz).2 (hin ▸ hlt)
    · rw [hao]
      exact (hor.texts y hy (hw.trans hwr) hfy).1 (hin ▸ hlt)
    · exact hinv.texts y hy z hz hw (hfy.mono env hcl) (hfz.mono env hcl) hlt
  case lists =>
    intro w hfits
    have hl := hinv.lists w (fits_of_cons hfits)
    by_cases hw : w = p.stored.worldId
    · subst hw
      rw [hb] at hown
      rcases hown with ⟨-, ⟨e, he, hev, -⟩, hs⟩ | ⟨-, hout, hlist⟩
      · refine listed_again hl ?_ ((hen _).trans hs)
        obtain ⟨hec, hew⟩ := hl.accepted e he
        obtain ⟨y, hy, hyw, hyv, hyi, hyf⟩ := hor.again ⟨e, hec, hew.trans hwr, hev.trans hv⟩
        exact ⟨y, hy, hyw.trans hwr.symm, hyv.trans hv.symm, hyi.trans hin.symm,
          fun c hc => hyf c ((fresh_stored env cfg hpr).mp hc)⟩
      · refine listed_insert hl hfits hout ((hen _).trans (hlist.trans ?_))
        unfold Hub.listWith
        rw [hb]
    · -- the list of another world
      have hs : (cacheLatest env clock h₁ p.stored).entries w = σ.hub.entries w := by
        rw [hen, hot w hw, hb]
      refine ⟨?_, ?_, ?_, ?_⟩
      · intro e he
        rw [hs] at he
        exact ⟨.tail _ (hl.accepted e he).1, (hl.accepted e he).2⟩
      · rw [hs]
        exact hl.sorted
      · rw [hs]
        exact hl.versions
      · intro y hy hyw
        rw [hs]
        rcases List.mem_cons.mp hy with rfl | hy
        · exact absurd hyw.symm hw
        · exact hl.every y hy hyw

lemma inv_step (hinv : HubInv env cfg σ) {t : Timed} (hor : AllInOrder env cfg σ t)
    (hs : σ.step env cfg t = some σ') : HubInv env cfg σ' := by
  unfold HubRun.step at hs
  split at hs
  · cases hs
  · rename_i hc
    have hc := not_lt.mp hc
    obtain ⟨call, clock, now⟩ := t
    cases call with
    | upsert s =>
      dsimp only at hs
      split at hs
      · rename_i r hr
        cases hs
        exact inv_upsert hinv hc (hor s rfl) hr
      · cases hs
    | latest worldId =>
      cases hs
      exact inv_read hinv hc (afterRead_latest (rowsRead_of_inv hinv worldId) clock now)
    | asOf worldId asOf =>
      cases hs
      exact inv_read hinv hc (afterRead_asOf (rowsRead_of_inv hinv worldId) clock now asOf)
    | version worldId version =>
      cases hs
      exact inv_read hinv hc (afterRead_version (rowsRead_of_inv hinv worldId) clock now version)
    | list worldId limit =>
      cases hs
      exact inv_read hinv hc (afterRead_list (rowsRead_of_inv hinv worldId) clock now limit)

lemma inv_run {persistent cached : Bool}
    (hrun : Run (HubRun.step env cfg) (AllInOrder env cfg) (HubRun.init persistent cached clock) σ) :
    HubInv env cfg σ :=
  hrun.invariant (inv_init persistent cached clock) fun _ _ _ hinv hor hs => inv_step hinv hor hs

end Steps

/-- What is asked of the two reads of a world. -/
structure ServesNewest (σ : HubRun) (clock : ℤ) (now : Timestamp) (worldId : String) : Prop where
  latest : ∃ r, (latestSnapshot env cfg clock now σ.hub worldId).1 = .ok r ∧
    Newest env σ clock worldId (fun _ => True) r
  asOf : ∀ asOf instant, parseIso env asOf = some instant → ComparesAlike env σ clock worldId asOf instant →
    ∃ r, (snapshotForAsOf env cfg clock now σ.hub worldId asOf).1 = .ok r ∧
      Newest env σ clock worldId (fun i => i ≤ instant) r

/-- **The newest snapshot** is served in every state that upserts in order lead to, with or without a repository and a
cache. -/
theorem servesNewest_of_run {persistent cached : Bool} {clock₀ : ℤ} {σ : HubRun}
    (hrun : Run (HubRun.step env cfg) (AllInOrder env cfg) (HubRun.init persistent cached clock₀) σ) {clock : ℤ}
    (hclock : σ.clock ≤ clock) (now : Timestamp) {worldId : String} (hfits : Fits cfg σ worldId) :
    ServesNewest env cfg σ clock now worldId := by
  have hinv := inv_run hrun
  have hl := hinv.lists worldId hfits
  exact ⟨newest_latest hinv hl hclock now, fun asOf instant _ ht => newest_asOf hinv hl hclock now ht⟩

/-! ### Two snapshots in either order -/

def laterThanAll (σ : HubRun) (t : Timed) : Bool :=
  match t.call with
  | .upsert s => (parseIso env s.asOf).isSome && σ.accepted.all fun y =>
      decide (y.version ≠ s.version) && decide (y.instant env < s.instant env) && decide (y.asOf < s.asOf)
  | _ => true

lemma allInOrder_of_later {σ : HubRun} {t : Timed} (h : laterThanAll env σ t) : AllInOrder env cfg σ t := by
  intro s hs
  unfold laterThanAll at h
  rw [hs] at h
  simp only [Bool.and_eq_true, List.all_eq_true, decide_eq_true_eq] at h
  obtain ⟨hp, hall⟩ := h
  constructor
  case parses => exact hp
  case texts => exact fun y hy _ _ => ⟨fun _ => (hall y hy).2, fun hlt => absurd hlt (hall y hy).1.2.asymm⟩
  case cache => exact fun _ y hy _ _ => (hall y hy).1.2.le
  case again =>
    rintro ⟨y, hy, -, hv⟩
    exact absurd hv (hall y hy).1.1

def outdated (σ : HubRun) (clock : ℤ) (now : Timestamp) (worldId : String) : Bool :=
  (latestSnapshot env cfg clock now σ.hub worldId).1.toOption.join.any fun s => σ.accepted.any fun z =>
    decide (z.worldId = worldId) && decide ((expired env clock z).toOption = some false) &&
      σ.accepted.all fun y => decide (y.version ≠ s.version) || decide (y.instant env < z.instant env)

lemma not_servesNewest_of_outdated {σ : HubRun} {now : Timestamp} {worldId : String}
    (h : outdated env cfg σ clock now worldId) : ¬ ServesNewest env cfg σ clock now worldId := by
  rintro ⟨⟨r, hr, hn⟩, -⟩
  unfold outdated at h
  rw [hr] at h
  cases r with
  | none => cases h
  | some s =>
    obtain ⟨z, hz, hc⟩ := List.any_eq_true.mp (show (σ.accepted.any _) from h)
    simp only [Bool.and_eq_true, decide_eq_true_eq, List.all_eq_true, Bool.or_eq_true] at hc
    obtain ⟨⟨hw, hf⟩, hall⟩ := hc
    obtain ⟨y, hy, -, -, -, hs, hmax⟩ := hn.present s rfl
    have hfz : Fresh env clock z := by
      unfold Fresh
      cases hexp : expired env clock z with
      | error e => rw [hexp] at hf; cases hf
      | ok b =>
        rw [hexp] at hf
        cases hf
        rfl
    rcases hall y hy with hne | hlt
    · exact hne (hs.version_eq env).symm
    · exact absurd (hmax z hz hw hfz trivial) (not_le.mpr hlt)

def dayOne : String × ℤ := ("2025-01-01T00:00:00+00:00", 1735689600000000)

def dayTwo : String × ℤ := ("2025-01-02T00:00:00+00:00", 1735776000000000)

def daysEnv : Env := Env.plain [dayOne, dayTwo]

def daySnapshot (asOf version : String) : PortfolioSnapshot where
  worldId := "w"
  asOf := asOf
  version := version
  weights := [("s1", .num "1.0")]
  covariance := []
  covarianceRef := .null
  realizedReturns := .null
  realizedReturnsRef := .null
  stressRef := .null
  stress := []
  constraints := []
  provenance := []
  hash := ""
  ttlSec := some 900
  createdAt := dayTwo.1
  createdAt_ne := by decide

def daySettings : Settings := ⟨some 100, some 100, none, none, 900, 86400⟩

def daysNow : Timestamp := ⟨dayTwo.1, by decide⟩

def dayUpsert (asOf version : String) : Timed := ⟨.upsert (daySnapshot asOf version), dayTwo.2, daysNow⟩

theorem servesNewest_of_run_two_days :
    ∃ σ, Run (HubRun.step daysEnv daySettings) (AllInOrder daysEnv daySettings) (HubRun.init true true dayTwo.2) σ ∧
      σ.accepted.length = 2 ∧ ServesNewest daysEnv daySettings σ dayTwo.2 daysNow "w" := by
  have hexec : (execIf (HubRun.step daysEnv daySettings) (laterThanAll daysEnv) (HubRun.init true true dayTwo.2)
      [dayUpsert dayOne.1 "v1", dayUpsert dayTwo.1 "v2"]).any (fun σ => decide (σ.accepted.length = 2 ∧
        σ.clock ≤ dayTwo.2 ∧ (σ.versions "w").length ≤ 100)) := by decide +kernel
  obtain ⟨σ, hrun, hcheck⟩ := exists_run _ _ _ _ _ hexec
  have hrun' := hrun.mono fun _ _ => allInOrder_of_later daysEnv daySettings
  obtain ⟨hlen, hclock, hfits⟩ := of_decide_eq_true hcheck
  refine ⟨σ, hrun', hlen, servesNewest_of_run daysEnv daySettings hrun' hclock daysNow fun n hn => ?_⟩
  obtain rfl : 100 = n := Option.some.inj hn
  exact hfits

/-- The cache serves what was written last, also where it is older. -/
theorem cache_serves_older :
    ∃ σ, Run (HubRun.step daysEnv daySettings) (fun _ _ => True) (HubRun.init true true dayTwo.2) σ ∧
      Fits daySettings σ "w" ∧ ¬ ServesNewest daysEnv daySettings σ dayTwo.2 daysNow "w" := by
  have hexec : (execIf (HubRun.step daysEnv daySettings) (fun _ _ => true) (HubRun.init true true dayTwo.2)
      [dayUpsert dayTwo.1 "v2", dayUpsert dayOne.1 "v1"]).any (fun σ =>
        outdated daysEnv daySettings σ dayTwo.2 daysNow "w" && decide ((σ.versions "w").length ≤ 100)) := by
    decide +kernel
  obtain ⟨σ, hrun, hcheck⟩ := exists_run _ _ _ _ _ hexec
  rw [Bool.and_eq_true, decide_eq_true_eq] at hcheck
  refine ⟨σ, hrun.mono fun _ _ _ => trivial, fun n hn => ?_, not_servesNewest_of_outdated daysEnv daySettings hcheck.1⟩
  obtain rfl : 100 = n := Option.some.inj hn
  exact hcheck.2

end Qmtl.WorldService.Risk

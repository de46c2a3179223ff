import Qmtl.WorldService.RiskHubs

/-!
What the reads of a hub answer, and what they leave as it is.
-/

namespace Qmtl.WorldService.Risk

open Lib

variable (env : Env) (cfg : Settings)

/-! ### The same snapshot -/

def SameSnapshot (r s : PortfolioSnapshot) : Prop :=
  ∀ key, key ≠ "covariance" → (r.toDict env).get? key = (s.toDict env).get? key

lemma SameSnapshot.refl (s : PortfolioSnapshot) : SameSnapshot env s s := fun _ _ => rfl

variable {h h' : Hub} {r s : PortfolioSnapshot} {rows : Dict (String × String) Payload}

lemma SameSnapshot.trans {t : PortfolioSnapshot} (h : SameSnapshot env r s) (h' : SameSnapshot env s t) :
    SameSnapshot env r t := fun key hkey => (h key hkey).trans (h' key hkey)

lemma SameSnapshot.version_eq (h : SameSnapshot env r s) : r.version = s.version := by
  have hkey := h "version" (by decide)
  rw [(holds_toDict env r).version, (holds_toDict env s).version] at hkey
  exact Json.str.inj (Option.some.inj hkey)

lemma same_of_read {now : Timestamp} (h : PortfolioSnapshot.fromPayload env now (s.toDict env) = .ok r) :
    SameSnapshot env r s ∧ r.ident = s.ident := by
  obtain ⟨r', hr', hid⟩ := fromPayload_of_holds env now (holds_toDict env s)
  cases h.symm.trans hr'
  have hr := fromPayload_ok env h
  have hob : ∀ {key : String} {fields fields' : List (String × Json)},
      s.fieldAt env key = (if fields'.isEmpty then none else some (Json.obj fields')) →
      dictOf env (Payload.get (s.toDict env) key) = .ok fields → fields = fields' := by
    intro key fields fields' hkey hd
    rw [Payload.get, get?_toDict, hkey] at hd
    cases fields' with
    | nil => exact (Except.ok.inj hd).symm
    | cons f fs => exact (Except.ok.inj ((dictOf_obj env (f :: fs)).symm.trans hd)).symm
  have href : ∀ {v : Json}, (if truthy env ((if truthy env v then some v else none).getD .null) then
      some ((if truthy env v then some v else none).getD .null) else none) = (if truthy env v then some v else none) := by
    intro v
    by_cases hv : truthy env v
    · rw [if_pos hv]
      exact if_pos hv
    · rw [if_neg hv]
      rfl
  have hget : ∀ key, Payload.get (s.toDict env) key = (s.fieldAt env key).getD .null := by
    intro key
    rw [Payload.get, get?_toDict]
  refine ⟨fun key hkey => ?_, hid⟩
  have hw : r.weights = s.weights := by
    have h := hr.weights
    rw [hget] at h
    exact (Except.ok.inj ((dictOf_obj env s.weights).symm.trans h)).symm
  have hp : r.provenance = s.provenance := by
    have h := hr.provenance
    rw [hget] at h
    exact (Except.ok.inj ((dictOf_obj env s.provenance).symm.trans h)).symm
  have hs : r.stress = s.stress := hob rfl hr.stress
  have hc : r.constraints = s.constraints := hob rfl hr.constraints
  have hrl : r.realizedReturns = s.realizedReturns := by
    rw [hr.realizedReturns, hget]
    show (if isNull s.realizedReturns then none else some s.realizedReturns).getD .null = _
    cases s.realizedReturns <;> rfl
  by_cases hk : key ∈ snapshotKeys
  · rw [get?_toDict, get?_toDict]
    simp only [snapshotKeys, List.mem_cons, List.not_mem_nil, or_false] at hk
    rcases hk with rfl | rfl | rfl | rfl | rfl | rfl | rfl | rfl | rfl | rfl | rfl | rfl | rfl | rfl | rfl
    · exact congrArg (fun i : Ident => some (Json.str i.worldId)) hid
    · exact congrArg (fun i : Ident => some (Json.str i.asOf)) hid
    · exact congrArg (fun i : Ident => some (Json.str i.version)) hid
    · exact congrArg (fun fields => some (Json.obj fields)) hw
    · exact congrArg (fun fields => some (Json.obj fields)) hp
    · exact congrArg (fun i : Ident => some (Json.str i.createdAt)) hid
    · exact absurd rfl hkey
    · show (if truthy env r.covarianceRef then some r.covarianceRef else none) = _
      rw [hr.covarianceRef, hget]
      exact href
    · show (if isNull r.realizedReturns then none else some r.realizedReturns) = _
      rw [hrl]
      rfl
    · show (if truthy env r.realizedReturnsRef then some r.realizedReturnsRef else none) = _
      rw [hr.realizedReturnsRef, hget]
      exact href
    · show (if truthy env r.stressRef then some r.stressRef else none) = _
      rw [hr.stressRef, hget]
      exact href
    · exact congrArg (fun fields : List (String × Json) => if fields.isEmpty then none else some (Json.obj fields)) hs
    · exact congrArg (fun fields : List (String × Json) => if fields.isEmpty then none else some (Json.obj fields)) hc
    · exact congrArg (fun i : Ident => if i.hash = "" then none else some (Json.str i.hash)) hid
    · exact congrArg (fun i : Ident => i.ttlSec.map fun ttl => Json.num (toString ttl)) hid
  · rw [get?_toDict, get?_toDict]
    simp only [snapshotKeys, List.mem_cons, List.not_mem_nil, or_false, not_or] at hk
    simp [PortfolioSnapshot.fieldAt, hk]

lemma same_materialize (s : PortfolioSnapshot) : SameSnapshot env (materialize env cfg s) s := by
  intro key hkey
  rw [get?_toDict, get?_toDict]
  unfold materialize
  split
  · rfl
  · split
    · rfl
    · split
      · simp only [PortfolioSnapshot.fieldAt, hkey, if_false]
      · rfl

lemma firstFresh_ok (clock : ℤ) {p : PortfolioSnapshot → Bool} {l : List PortfolioSnapshot}
    (hl : ∀ s ∈ l, ∃ b, expired env clock s = .ok b) : ∃ r, firstFresh env clock p l = .ok r ∧
      (r = none → ∀ s ∈ l, p s → expired env clock s = .ok true) ∧
      ∀ s, r = some s → s ∈ l ∧ p s ∧ expired env clock s = .ok false ∧
        ∀ le : PortfolioSnapshot → PortfolioSnapshot → Prop, l.Pairwise (fun a b => le b a) →
          ∀ t ∈ l, p t → expired env clock t = .ok false → t = s ∨ le t s := by
  induction l with
  | nil => exact ⟨none, rfl, fun _ s hs => absurd hs List.not_mem_nil, fun s hs => absurd hs (by simp)⟩
  | cons a l ih =>
    obtain ⟨r, hr, hn, hsm⟩ := ih fun s hs => hl s (.tail _ hs)
    -- the head is left out where it does not pass or is old
    have hsk : (p a → expired env clock a = .ok true) → firstFresh env clock p (a :: l) = .ok r →
        ∃ r, firstFresh env clock p (a :: l) = .ok r ∧
          (r = none → ∀ s ∈ a :: l, p s → expired env clock s = .ok true) ∧
          ∀ s, r = some s → s ∈ a :: l ∧ p s ∧ expired env clock s = .ok false ∧
            ∀ le : PortfolioSnapshot → PortfolioSnapshot → Prop, (a :: l).Pairwise (fun a b => le b a) →
              ∀ t ∈ a :: l, p t → expired env clock t = .ok false → t = s ∨ le t s := by
      intro ha hrun
      refine ⟨r, hrun, fun hr s hs hp => ?_, fun s hs => ?_⟩
      · rcases List.mem_cons.mp hs with rfl | hs
        · exact ha hp
        · exact hn hr s hs hp
      · obtain ⟨hmem, hp, hf, hle⟩ := hsm s hs
        refine ⟨.tail _ hmem, hp, hf, fun le hpr t ht hpt hft => ?_⟩
        rcases List.mem_cons.mp ht with rfl | ht
        · rw [ha hpt] at hft
          cases hft
        · exact hle le (List.pairwise_cons.mp hpr).2 t ht hpt hft
    unfold firstFresh at hsk ⊢
    by_cases hp : p a
    · obtain ⟨b, hb⟩ := hl a List.mem_cons_self
      rw [if_pos hp] at hsk ⊢
      simp only [hb, bind, Except.bind] at hsk ⊢
      cases b with
      | true => exact hsk (fun _ => rfl) hr
      | false =>
        refine ⟨some a, rfl, fun h => absurd h (by simp), fun s hs => ?_⟩
        cases hs
        refine ⟨.head _, hp, hb, fun le hpr t ht _ _ => ?_⟩
        rcases List.mem_cons.mp ht with rfl | ht
        · exact .inl rfl
        · exact .inr ((List.pairwise_cons.mp hpr).1 t ht)
    · rw [if_neg hp] at hsk ⊢
      exact hsk (fun h => absurd h hp) hr

/-! ### What a read leaves -/

def RowsRead (h : Hub) (worldId : String) : Prop :=
  ∀ rows ∈ h.repository, ∀ version row, rows.get? (worldId, version) = some row →
    ∀ now s, PortfolioSnapshot.fromPayload env now row = .ok s → s.worldId = worldId ∧ s.version = version

def Covered (h : Hub) (worldId : String) : Prop :=
  ∀ rows ∈ h.repository, ∀ version row, rows.get? (worldId, version) = some row →
    ∃ e ∈ h.entries worldId, e.version = version

structure AfterRead (worldId : String) (h h' : Hub) : Prop where
  repository : h'.repository = h.repository
  cache : h'.cache = h.cache
  others : ∀ w, w ≠ worldId → h'.entries w = h.entries w
  own : Covered h worldId → h'.entries worldId = h.entries worldId

lemma AfterRead.refl (worldId : String) (h : Hub) : AfterRead worldId h h := ⟨rfl, rfl, fun _ _ => rfl, fun _ => rfl⟩

lemma AfterRead.rowsRead {worldId : String} (ha : AfterRead worldId h h') {w : String} (hr : RowsRead env h w) :
    RowsRead env h' w := by
  intro rows hrows
  rw [ha.repository] at hrows
  exact hr rows hrows

lemma AfterRead.covered {worldId : String} (ha : AfterRead worldId h h') (hc : Covered h worldId) :
    Covered h' worldId := by
  intro rows hrows version row hrow
  rw [ha.own hc]
  rw [ha.repository] at hrows
  exact hc rows hrows version row hrow

lemma AfterRead.trans {worldId : String} {h'' : Hub} (ha : AfterRead worldId h h') (hb : AfterRead worldId h' h'') :
    AfterRead worldId h h'' where
  repository := hb.repository.trans ha.repository
  cache := hb.cache.trans ha.cache
  others w hw := (hb.others w hw).trans (ha.others w hw)
  own hc := (hb.own (ha.covered hc)).trans (ha.own hc)

variable {env cfg} {h h' : Hub} {worldId : String}

lemma afterRead_cacheSnapshot (hrows : RowsRead env h worldId) (hmem : rows ∈ h.repository) {version : String}
    {row : Payload} (hget : rows.get? (worldId, version) = some row) {now : Timestamp}
    (hs : PortfolioSnapshot.fromPayload env now row = .ok s) {b : Bool} (hc : cacheSnapshot cfg h s = .ok (b, h')) :
    AfterRead worldId h h' := by
  obtain ⟨hw, hv⟩ := hrows rows hmem version row hget now s hs
  obtain ⟨hr, hcc, hot, hown⟩ := cacheSnapshot_cases cfg hc
  rw [hw] at hot hown
  refine ⟨hr, hcc, hot, fun hcov => ?_⟩
  rcases hown with ⟨-, -, hsm⟩ | ⟨-, hout, -⟩
  · exact hsm
  · obtain ⟨e, he, hev⟩ := hcov rows hmem version row hget
    exact absurd (hev.trans hv.symm) (hout e he)

lemma afterRead_cacheRow (hrows : RowsRead env h worldId) (hmem : rows ∈ h.repository) {version : String}
    {row : Payload} (hget : rows.get? (worldId, version) = some row) {now : Timestamp}
    (hc : cacheRow env cfg now h row = .ok h') : AfterRead worldId h h' := by
  obtain ⟨s, hs, hc⟩ := bind_ok.mp hc
  obtain ⟨⟨b, hub⟩, hcc, hc⟩ := bind_ok.mp hc
  obtain rfl := pure_ok.mp hc
  exact afterRead_cacheSnapshot hrows hmem hget hs hcc

lemma afterRead_cacheRows (hrows : RowsRead env h worldId) (hmem : rows ∈ h.repository) (now : Timestamp)
    {l : List Payload} (hl : ∀ row ∈ l, row ∈ rowsOf rows worldId) :
    AfterRead worldId h (cacheRows env cfg now h l).2 := by
  induction l generalizing h with
  | nil => exact .refl worldId h
  | cons row l ih =>
    obtain ⟨version, hget⟩ := mem_rowsOf (hl row List.mem_cons_self)
    unfold cacheRows
    split
    · exact .refl worldId h
    · rename_i hub hc
      have ha := afterRead_cacheRow hrows hmem hget hc
      exact ha.trans (ih (ha.rowsRead env hrows) (by rw [ha.repository]; exact hmem)
        fun r hr => hl r (.tail _ hr))

lemma afterRead_taken (cfg : Settings) (hrows : RowsRead env h worldId) (now : Timestamp) (n : ℕ) :
    AfterRead worldId h
      (cacheRows env cfg now h ((h.repository.map fun rows => (rowsOf rows worldId).take n).getD [])).2 := by
  cases hrp : h.repository with
  | none => exact .refl worldId h
  | some rows => exact afterRead_cacheRows hrows hrp now fun row hr => List.mem_of_mem_take hr

lemma afterRead_latest (hrows : RowsRead env h worldId) (clock : ℤ) (now : Timestamp) :
    AfterRead worldId h (latestSnapshot env cfg clock now h worldId).2 := by
  unfold latestSnapshot
  split
  · exact .refl worldId h
  · split
    · exact .refl worldId h
    · exact .refl worldId h
    · split
      · exact .refl worldId h
      · rename_i row hh
        obtain ⟨rows, hmem, hh⟩ := Option.bind_eq_some_iff.mp hh
        obtain ⟨version, hget⟩ := mem_rowsOf (List.mem_of_mem_head? hh)
        split
        · exact .refl worldId h
        · split
          · exact .refl worldId h
          · rename_i hub hc
            have ha := afterRead_cacheRow hrows hmem hget hc
            split
            · exact ha
            · exact ha

lemma afterRead_asOf (hrows : RowsRead env h worldId) (clock : ℤ) (now : Timestamp) (asOf : String) :
    AfterRead worldId h (snapshotForAsOf env cfg clock now h worldId asOf).2 := by
  have hl : AfterRead worldId h (if (h.entries worldId).isEmpty then
      cacheRows env cfg now h ((h.repository.map fun rows => (rowsOf rows worldId).take 50).getD [])
    else (true, h)).2 := by
    split
    · exact afterRead_taken cfg hrows now 50
    · exact .refl worldId h
  unfold snapshotForAsOf
  dsimp only
  split
  · exact hl
  · exact hl

lemma afterRead_version (hrows : RowsRead env h worldId) (clock : ℤ) (now : Timestamp) (version : String) :
    AfterRead worldId h (snapshotOfVersion env cfg clock now h worldId version).2 := by
  unfold snapshotOfVersion
  split
  · exact .refl worldId h
  · exact .refl worldId h
  · split
    · exact .refl worldId h
    · rename_i row hrow
      obtain ⟨rows, hmem, hget⟩ := Option.bind_eq_some_iff.mp hrow
      split
      · exact .refl worldId h
      · split
        · exact .refl worldId h
        · rename_i s hs
          split
          · exact .refl worldId h
          · rename_i b hub hc
            exact afterRead_cacheSnapshot hrows hmem hget hs hc

lemma afterRead_list (hrows : RowsRead env h worldId) (clock : ℤ) (now : Timestamp) (limit : ℕ) :
    AfterRead worldId h (listSnapshots env cfg clock now h worldId limit).2 := by
  unfold listSnapshots
  dsimp only
  split
  · exact afterRead_taken cfg hrows now limit
  · exact .refl worldId h

end Qmtl.WorldService.Risk

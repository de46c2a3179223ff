import Qmtl.Lib.Dict
import Qmtl.Lib.Text
import Qmtl.Lib.Window

/-!
`FileSystemFeatureStore`: one file of records for each directory that a key leads to, and what is loaded for a key.
-/

namespace Qmtl.Runtime.FeatureStore

open Lib

variable {P : Type}

structure FeatureArtifactKey where
  factor : String
  interval : ℤ
  params : String
  instrument : String
  timestamp : ℤ
  datasetFingerprint : String
  version : ℤ := 1

def FeatureArtifactKey.SameSeries (k l : FeatureArtifactKey) : Prop :=
  k.factor = l.factor ∧ k.interval = l.interval ∧ k.params = l.params ∧ k.instrument = l.instrument ∧
    k.datasetFingerprint = l.datasetFingerprint

instance decidableSameSeries (k l : FeatureArtifactKey) : Decidable (k.SameSeries l) :=
  inferInstanceAs (Decidable (_ ∧ _))

/-- A line of a file. What `pickle`, base64 and JSON have written they read back, so that the payload stands for itself. -/
structure Record (P : Type) where
  t : ℤ
  version : ℤ
  payload : P

/-- The files by their paths below `base_dir`. -/
abbrev Files (P : Type) := Dict (List String) (List (Record P))

def sanitizeComponent (isalnum : Char → Bool) (value : String) : String :=
  let value := strip value
  if value = "" then "_"
  else if value ∈ ["/", "\\", ".."] then "_"
  else String.ofList (value.toList.map fun c => if isalnum c ∨ c ∈ ['-', '_', '.'] then c else '_')

section Store

variable (isalnum : Char → Bool) (maxVersions : Option ℕ)

def FeatureArtifactKey.parts (key : FeatureArtifactKey) : List String :=
  [key.factor, key.datasetFingerprint, key.params, key.instrument].map (sanitizeComponent isalnum) ++
    [toString key.interval]

def artifactDir (key : FeatureArtifactKey) : List String := (key.parts isalnum).filter (· ≠ ".")

def artifactFile (key : FeatureArtifactKey) : List String := artifactDir isalnum key ++ ["artifacts.jsonl"]

def payloadToRecord (key : FeatureArtifactKey) (payload : P) : Record P := ⟨key.timestamp, key.version, payload⟩

def readRecords (files : Files P) (path : List String) : List (Record P) := (files.get? path).getD []

def sortByT (records : List (Record P)) : List (Record P) := records.insertionSort fun r s => r.t ≤ s.t

def retain (records : List (Record P)) : List (Record P) :=
  maxVersions.elim records fun m => if records.length ≤ m then records else lastItems m (sortByT records)

def enforceRetention (files : Files P) (path : List String) : Files P :=
  files.set path (retain maxVersions (readRecords files path))

def write (files : Files P) (key : FeatureArtifactKey) (payload : P) : Files P :=
  let path := artifactFile isalnum key
  let existing := sortByT (readRecords files path ++ [payloadToRecord key payload])
  enforceRetention maxVersions (files.set path existing) path

def loadSeries (files : Files P) (key : FeatureArtifactKey) (start stop : Option ℤ) : List (ℤ × P) :=
  let kept := (readRecords files (artifactFile isalnum key)).filter fun r =>
    start.all (· ≤ r.t) && stop.all (r.t ≤ ·)
  (kept.map fun r => (r.t, r.payload)).insertionSort fun x y => x.1 ≤ y.1

def written (writes : List (FeatureArtifactKey × P)) : Files P :=
  writes.foldl (fun files w => write isalnum maxVersions files w.1 w.2) Dict.empty

end Store

/-- The greatest timestamps of some pairs, at most `m` of them, in order. -/
structure Retained (maxVersions : Option ℕ) (pairs kept : List (ℤ × P)) : Prop where
  sorted : kept.Pairwise fun x y => x.1 ≤ y.1
  length : kept.length = maxVersions.elim pairs.length (min · pairs.length)
  greatest : ∃ dropped, (kept ++ dropped).Perm pairs ∧ ∀ k ∈ kept, ∀ d ∈ dropped, d.1 ≤ k.1

def under (key : FeatureArtifactKey) (writes : List (FeatureArtifactKey × P)) : List (ℤ × P) :=
  (writes.filter fun w => w.1.SameSeries key).map fun w => (w.1.timestamp, w.2)

/-- What is loaded for the key is what was retained of its series, and a last write of another series has changed nothing. -/
structure Isolated (isalnum : Char → Bool) (maxVersions : Option ℕ) (writes : List (FeatureArtifactKey × P))
    (key : FeatureArtifactKey) : Prop where
  loaded : ∃ kept, Retained maxVersions (under key writes) kept ∧ ∀ start stop,
    loadSeries isalnum (written isalnum maxVersions writes) key start stop =
      kept.filter fun x => start.all (· ≤ x.1) && stop.all (x.1 ≤ ·)
  unchanged : ∀ before k payload, writes = before ++ [(k, payload)] → ¬ k.SameSeries key → ∀ start stop,
    loadSeries isalnum (written isalnum maxVersions writes) key start stop =
      loadSeries isalnum (written isalnum maxVersions before) key start stop

/-- No key has a part that is a dot, no other series that was written leads to the directory of the key, and where no
version is to be kept nothing was written there. -/
structure Apart (isalnum : Char → Bool) (maxVersions : Option ℕ) (writes : List (FeatureArtifactKey × P))
    (key : FeatureArtifactKey) : Prop where
  plain : ∀ k ∈ key :: writes.map Prod.fst, "." ∉ k.parts isalnum
  own : ∀ w ∈ writes, artifactDir isalnum w.1 = artifactDir isalnum key → w.1.SameSeries key
  keeps : maxVersions = some 0 → ∀ w ∈ writes, artifactDir isalnum w.1 ≠ artifactDir isalnum key

/-! ### The file of a key -/

section File

variable {isalnum : Char → Bool} {maxVersions : Option ℕ} {writes : List (FeatureArtifactKey × P)}
  {key : FeatureArtifactKey}

def Record.pair (r : Record P) : ℤ × P := (r.t, r.payload)

lemma readRecords_set (files : Files P) (p path : List String) (rs : List (Record P)) :
    readRecords (files.set p rs) path = if path = p then rs else readRecords files path := by
  by_cases h : path = p
  · simp [readRecords, h]
  · simp [readRecords, Dict.get?_set_ne _ _ h, h]

lemma readRecords_write (files : Files P) (k : FeatureArtifactKey) (payload : P) (path : List String) :
    readRecords (write isalnum maxVersions files k payload) path = if path = artifactFile isalnum k then
        retain maxVersions (sortByT (readRecords files path ++ [payloadToRecord k payload]))
      else readRecords files path := by
  rw [write, enforceRetention, readRecords_set]
  split_ifs with hp
  · rw [hp, readRecords_set, if_pos rfl]
  · rw [readRecords_set, if_neg hp]

lemma artifactFile_eq_iff {k l : FeatureArtifactKey} :
    artifactFile isalnum k = artifactFile isalnum l ↔ artifactDir isalnum k = artifactDir isalnum l := by
  simp [artifactFile]

lemma sortByT_perm (rs : List (Record P)) : (sortByT rs).Perm rs := List.perm_insertionSort _ rs

lemma sortByT_sorted (rs : List (Record P)) : (sortByT rs).Pairwise fun x y => x.t ≤ y.t :=
  List.pairwise_insertionSort _ rs

variable {pairs : List (ℤ × P)} {rs : List (Record P)}

lemma Retained.add (h : Retained maxVersions pairs (rs.map Record.pair))
    (r : Record P) (hall : rs.length = pairs.length)
    (hfit : maxVersions.elim (pairs.length + 1) (min · (pairs.length + 1)) = pairs.length + 1) :
    Retained maxVersions (pairs ++ [r.pair]) ((sortByT (rs ++ [r])).map Record.pair) := by
  obtain ⟨dropped, hp, -⟩ := h.greatest
  have hnil : dropped = [] := by
    have := hp.length_eq
    simp only [List.length_append, List.length_map] at this
    exact List.eq_nil_of_length_eq_zero (by omega)
  rw [hnil, List.append_nil] at hp
  have hnew : ((sortByT (rs ++ [r])).map Record.pair).Perm (pairs ++ [r.pair]) := by
    have := (sortByT_perm (rs ++ [r])).map Record.pair
    rw [List.map_append] at this
    exact this.trans (hp.append_right _)
  refine ⟨List.pairwise_map.mpr (sortByT_sorted _), ?_, [], by rwa [List.append_nil], by simp⟩
  rw [hnew.length_eq, List.length_append, List.length_singleton, hfit]

lemma Retained.cut {m : ℕ} (h : Retained (some m) pairs (rs.map Record.pair))
    (r : Record P) (hf : rs.length = m) :
    Retained (some m) (pairs ++ [r.pair]) ((sortByT (rs ++ [r])).tail.map Record.pair) := by
  obtain ⟨dropped, hp, hle⟩ := h.greatest
  have hs := sortByT_sorted (rs ++ [r])
  have hall := sortByT_perm (rs ++ [r])
  have hlen := h.length
  have hcn := hp.length_eq
  simp only [Option.elim_some, List.length_append, List.length_map] at hlen hcn
  cases hc : sortByT (rs ++ [r]) with
  | nil => simp [hc] at hall
  | cons x rest =>
    rw [hc] at hs hall
    rw [List.pairwise_cons] at hs
    refine ⟨List.pairwise_map.mpr hs.2, ?_, x.pair :: dropped, ?_, ?_⟩
    · have := hall.length_eq
      simp only [List.length_cons, List.length_append, List.length_nil] at this
      simp only [List.tail_cons, List.length_map, Option.elim_some, List.length_append, List.length_singleton]
      omega
    · have hmap := (hall.map Record.pair).append_right dropped
      simp only [List.map_cons, List.map_append, List.map_nil] at hmap
      refine (List.perm_middle.trans hmap).trans ?_
      rw [List.append_assoc]
      exact (List.perm_append_comm.append_left _).trans (by simpa using hp.append_right [r.pair])
    · intro k hk d hd
      obtain ⟨k, hmem, rfl⟩ := List.mem_map.mp hk
      rcases List.mem_cons.mp hd with rfl | hd
      · exact hs.1 k hmem
      · rcases List.mem_append.mp (hall.mem_iff.mp List.mem_cons_self) with hx | hx
        · exact (hle x.pair (List.mem_map_of_mem hx) d hd).trans (hs.1 k hmem)
        · rw [List.mem_singleton.mp hx] at hall
          have hr : rest.Perm rs := (hall.trans List.perm_append_comm).cons_inv
          exact hle k.pair (List.mem_map_of_mem (hr.mem_iff.mp hmem)) d hd

lemma Retained.write (h : Retained maxVersions pairs (rs.map Record.pair))
    (r : Record P) (hm : maxVersions ≠ some 0) :
    Retained maxVersions (pairs ++ [r.pair]) ((retain maxVersions (sortByT (rs ++ [r]))).map Record.pair) := by
  have hlen := h.length
  have hall := (sortByT_perm (rs ++ [r])).length_eq
  rw [List.length_map] at hlen
  rw [List.length_append, List.length_singleton] at hall
  cases maxVersions with
  | none => exact h.add r hlen rfl
  | some m =>
    have hpos : m ≠ 0 := fun h => hm (h ▸ rfl)
    rw [Option.elim_some] at hlen
    simp only [retain, Option.elim_some, hall]
    split_ifs with hfit
    · exact h.add r (by omega) (by rw [Option.elim_some]; omega)
    · have hag : sortByT (sortByT (rs ++ [r])) = sortByT (rs ++ [r]) := (sortByT_sorted _).insertionSort_eq
      rw [hag, lastItems, if_neg hpos, show (sortByT (rs ++ [r])).length - m = 1 by omega, List.drop_one]
      exact h.cut r (by omega)

lemma retained_written (h : Apart isalnum maxVersions writes key) : Retained maxVersions (under key writes)
      ((readRecords (written isalnum maxVersions writes) (artifactFile isalnum key)).map Record.pair) := by
  induction writes using List.reverseRecOn with
  | nil =>
    refine ⟨by simp [written, readRecords], ?_, [], by simp [under, written, readRecords], by simp⟩
    cases maxVersions <;> simp [under, written, readRecords]
  | append_singleton writes w ih =>
    have hb := ih ⟨fun k hk => h.plain k (by simp at hk ⊢; tauto), fun v hv => h.own v (List.mem_append_left _ hv),
      fun hm v hv => h.keeps hm v (List.mem_append_left _ hv)⟩
    have hw : w ∈ writes ++ [w] := by simp
    rw [written, List.foldl_append, List.foldl_cons, List.foldl_nil, ← written, readRecords_write, under,
      List.filter_append, List.map_append, ← under]
    by_cases hdir : artifactDir isalnum w.1 = artifactDir isalnum key
    · rw [if_pos (artifactFile_eq_iff.mpr hdir.symm), List.filter_cons_of_pos (by simpa using h.own w hw hdir)]
      exact hb.write (payloadToRecord w.1 w.2) fun hm => h.keeps hm w hw hdir
    · have hne : ¬ w.1.SameSeries key := by
        rintro ⟨hf, hi, hp, hn, hd⟩
        exact hdir (by simp [artifactDir, FeatureArtifactKey.parts, hf, hi, hp, hn, hd])
      rw [if_neg fun h => hdir (artifactFile_eq_iff.mp h).symm, List.filter_cons_of_neg (by simpa using hne)]
      simpa using hb

lemma loadSeries_eq (files : Files P) (key : FeatureArtifactKey) (start stop : Option ℤ)
    (hs : ((readRecords files (artifactFile isalnum key)).map Record.pair).Pairwise fun x y => x.1 ≤ y.1) :
    loadSeries isalnum files key start stop =
      ((readRecords files (artifactFile isalnum key)).map Record.pair).filter fun x =>
        start.all (· ≤ x.1) && stop.all (x.1 ≤ ·) := by
  rw [List.filter_map]
  refine List.Pairwise.insertionSort_eq ?_
  rw [List.pairwise_map] at hs ⊢
  exact hs.filter _

/-- **Artifacts are isolated by key** where the keys are kept apart and a version is kept. -/
theorem isolated_of_apart (h : Apart isalnum maxVersions writes key) : Isolated isalnum maxVersions writes key := by
  have hkept := retained_written h
  refine ⟨⟨_, hkept, fun start stop => loadSeries_eq _ key start stop hkept.sorted⟩, ?_⟩
  intro before k payload hlast hother start stop
  have hdir : artifactDir isalnum k ≠ artifactDir isalnum key := by
    intro hdir
    have hmem : (k, payload) ∈ writes := by rw [hlast]; simp
    exact hother (h.own _ hmem hdir)
  have hread : readRecords (written isalnum maxVersions writes) (artifactFile isalnum key) =
      readRecords (written isalnum maxVersions before) (artifactFile isalnum key) := by
    have hstep : written isalnum maxVersions writes = write isalnum maxVersions (written isalnum maxVersions before) k payload := by
      rw [hlast, written, List.foldl_append]
      rfl
    rw [hstep, readRecords_write, if_neg fun h => hdir (artifactFile_eq_iff.mp h).symm]
  rw [loadSeries, loadSeries, hread]

end File

def keyOf (params : String) (timestamp : ℤ) : FeatureArtifactKey :=
  { factor := "ema", interval := 60, params, instrument := "BTC", timestamp, datasetFingerprint := "fp" }

theorem isolated_of_apart_two :
    Isolated Char.isAlphanum (some 1) [(keyOf "n=5" 60, 1), (keyOf "n=9" 60, 2), (keyOf "n=5" 120, 3)] (keyOf "n=5" 0) :=
  isolated_of_apart ⟨by decide +kernel, by decide +kernel, by decide⟩

/-- `n=5` and `n:5` lead to one directory; and where no version is to be kept, all are. -/
theorem shared_directory :
    loadSeries Char.isAlphanum (written Char.isAlphanum none [(keyOf "n=5" 60, 1)]) (keyOf "n:5" 0) none none = [(60, 1)] ∧
      under (keyOf "n:5" 0) [(keyOf "n=5" 60, 1)] = [] ∧
      loadSeries Char.isAlphanum (written Char.isAlphanum (some 0) [(keyOf "n=5" 60, 1)]) (keyOf "n=5" 0) none none =
        [(60, 1)] := by
  decide +kernel

end Qmtl.Runtime.FeatureStore

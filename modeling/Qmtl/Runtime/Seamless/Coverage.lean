import Qmtl.Runtime.Seamless.FetchPlanner

/-!
The coverage of a source is the maximal runs of its bars, and what of it is available of a request: the bars whose next
one the source holds, too.
-/

namespace Qmtl.Runtime.Seamless

/-- A maximal run of bars, with both its ends. -/
structure IsRun (interval : ℤ) (bars : List ℤ) (r : Range) : Prop where
  le : r.1 ≤ r.2
  dvd : interval ∣ r.2 - r.1
  within : ∀ t, r.1 ≤ t → t ≤ r.2 → interval ∣ t - r.1 → t ∈ bars
  before : r.1 - interval ∉ bars
  after : r.2 + interval ∉ bars

section Coverage

variable {interval : ℤ}

/-- What holds of a run, from one that has gone from `start` to `prev`. -/
structure RunFrom (interval start prev : ℤ) (rest : List ℤ) (r : Range) : Prop where
  le : r.1 ≤ r.2
  prev_le : prev ≤ r.2
  dvd : interval ∣ r.2 - r.1
  start_dvd : interval ∣ r.1 - start
  within : ∀ t, r.1 ≤ t → t ≤ r.2 → interval ∣ t - r.1 → start ≤ t ∧ t ≤ prev ∨ t ∈ rest
  before : r.1 = start ∨ prev < r.1 - interval ∧ r.1 - interval ∉ rest
  after : r.2 + interval ∉ rest

lemma coverageFrom_spec (hpos : 0 < interval) {start prev : ℤ} {rest : List ℤ} (hle : start ≤ prev)
    (hdvd : interval ∣ prev - start) (hsr : (prev :: rest).Pairwise (· < ·))
    (hgrid : ∀ t ∈ rest, interval ∣ t - start) :
    (∀ r ∈ coverageFrom interval start prev rest, RunFrom interval start prev rest r) ∧
      ∀ t ∈ prev :: rest, ∃ r ∈ coverageFrom interval start prev rest, r.1 ≤ t ∧ t ≤ r.2 := by
  induction rest generalizing start prev with
  | nil =>
    constructor
    · intro r hr
      obtain rfl := List.mem_singleton.mp hr
      exact ⟨hle, le_refl _, hdvd, by rw [sub_self]; exact dvd_zero _, fun t h h' _ => .inl ⟨h, h'⟩, .inl rfl,
        List.not_mem_nil⟩
    · intro t ht
      obtain rfl := List.mem_singleton.mp ht
      exact ⟨(start, t), .head _, hle, le_refl _⟩
  | cons ts rest ih =>
    rw [List.pairwise_cons] at hsr
    obtain ⟨hpr, hrs⟩ := hsr
    have hts := hpr ts List.mem_cons_self
    have htsd := hgrid ts List.mem_cons_self
    have hlater := (List.pairwise_cons.mp hrs).1
    have hst : prev + interval ≤ ts := by
      refine add_le_of_dvd ?_ hts
      rw [← sub_sub_sub_cancel_right ts prev start]
      exact dvd_sub htsd hdvd
    rw [coverageFrom]
    split
    · -- the run goes on
      obtain ⟨hrn, hc⟩ := ih (by omega) htsd hrs fun t ht => hgrid t (.tail _ ht)
      constructor
      · intro r hr
        obtain ⟨hle', hts', hd', hs, hw, hb, haf⟩ := hrn r hr
        refine ⟨hle', by omega, hd', hs, ?_, ?_, ?_⟩
        · intro t h h' ht
          rcases hw t h h' ht with ⟨hlow, hh⟩ | hmem
          · by_cases hp : t ≤ prev
            · exact .inl ⟨hlow, hp⟩
            · have htp : interval ∣ t - prev := by
                have hsum : t - prev = (t - r.1) + (r.1 - start) - (prev - start) := by omega
                rw [hsum]
                exact dvd_sub (dvd_add ht hs) hdvd
              have := add_le_of_dvd htp (not_le.mp hp)
              obtain rfl : t = ts := by omega
              exact .inr List.mem_cons_self
          · exact .inr (.tail _ hmem)
        · refine hb.imp_right fun ⟨hlt, hnot⟩ => ⟨by omega, ?_⟩
          rw [List.mem_cons, not_or]
          exact ⟨by omega, hnot⟩
        · rw [List.mem_cons, not_or]
          exact ⟨by omega, haf⟩
      · intro t ht
        rcases List.mem_cons.mp ht with rfl | ht
        · obtain ⟨r, hr, hlow, hh⟩ := hc ts List.mem_cons_self
          have hb := (hrn r hr).before
          exact ⟨r, hr, by omega, by omega⟩
        · exact hc t ht
    · -- a new run starts at `ts`
      rename_i hgap
      have hg' : ∀ t ∈ rest, interval ∣ t - ts := by
        intro t ht
        rw [← sub_sub_sub_cancel_right t ts start]
        exact dvd_sub (hgrid t (.tail _ ht)) htsd
      obtain ⟨hrn, hc⟩ := ih (le_refl ts) (by rw [sub_self]; exact dvd_zero _) hrs hg'
      constructor
      · intro r hr
        rcases List.mem_cons.mp hr with rfl | hr
        · refine ⟨hle, le_refl _, hdvd, by rw [sub_self]; exact dvd_zero _, fun t h h' _ => .inl ⟨h, h'⟩, .inl rfl, ?_⟩
          rw [List.mem_cons, not_or]
          refine ⟨fun h => hgap h.symm, fun hmem => ?_⟩
          have := hlater _ hmem
          omega
        · obtain ⟨hle', hts', hd', hs, hw, hb, haf⟩ := hrn r hr
          refine ⟨hle', by omega, hd', ?_, ?_, .inr ?_, ?_⟩
          · rw [← sub_add_sub_cancel r.1 ts start]
            exact dvd_add hs htsd
          · intro t h h' ht
            rcases hw t h h' ht with ⟨hlow, hh⟩ | hmem
            · obtain rfl : t = ts := le_antisymm hh hlow
              exact .inr List.mem_cons_self
            · exact .inr (.tail _ hmem)
          · rw [List.mem_cons, not_or]
            rcases hb with heq | ⟨hlt, hnot⟩
            · refine ⟨by omega, by omega, fun hmem => ?_⟩
              have := hlater _ hmem
              omega
            · exact ⟨by omega, by omega, hnot⟩
          · rw [List.mem_cons, not_or]
            exact ⟨by omega, haf⟩
      · intro t ht
        rcases List.mem_cons.mp ht with rfl | ht
        · exact ⟨(start, t), .head _, hle, le_refl _⟩
        · obtain ⟨r, hr, h⟩ := hc t ht
          exact ⟨r, .tail _ hr, h⟩

lemma coverage_isRun (hpos : 0 < interval) {origin : ℤ} (s : DataSource) (hgrid : ∀ t ∈ s.bars, interval ∣ t - origin) :
    (∀ r ∈ s.coverage interval, IsRun interval s.bars r) ∧
      ∀ t ∈ s.bars, ∃ r ∈ s.coverage interval, r.1 ≤ t ∧ t ≤ r.2 := by
  have hs := s.sorted
  unfold DataSource.coverage
  cases hbr : s.bars with
  | nil => exact ⟨fun _ h => absurd h List.not_mem_nil, fun _ h => absurd h List.not_mem_nil⟩
  | cons ts rest =>
    rw [hbr] at hs hgrid
    have hlater := (List.pairwise_cons.mp hs).1
    have hg' : ∀ t ∈ rest, interval ∣ t - ts := by
      intro t ht
      rw [← sub_sub_sub_cancel_right t ts origin]
      exact dvd_sub (hgrid t (.tail _ ht)) (hgrid ts List.mem_cons_self)
    obtain ⟨hrn, hc⟩ :=
      coverageFrom_spec hpos (le_refl ts) (by rw [sub_self]; exact dvd_zero _) hs hg'
    refine ⟨fun r hr => ?_, hc⟩
    obtain ⟨hle, hts, hdvd, -, hw, hb, haf⟩ := hrn r hr
    refine ⟨hle, hdvd, ?_, ?_, ?_⟩
    · intro t h h' ht
      rcases hw t h h' ht with ⟨hlow, hh⟩ | hmem
      · obtain rfl : t = ts := le_antisymm hh hlow
        exact .head _
      · exact .tail _ hmem
    · rw [List.mem_cons, not_or]
      rcases hb with heq | ⟨hlt, hnot⟩
      · refine ⟨by omega, fun hmem => ?_⟩
        have := hlater _ hmem
        omega
      · exact ⟨by omega, hnot⟩
    · rw [List.mem_cons, not_or]
      exact ⟨by omega, haf⟩

end Coverage

/-! ### What is available of a request -/

section Available

variable {interval start stop : ℤ} {s : DataSource}

variable {cov : List Range} {q : Range}

lemma mem_intersectPairs : q ∈ intersectPairs [(start, stop)] cov ↔
      ∃ r ∈ cov, max start r.1 < min stop r.2 ∧ q = (max start r.1, min stop r.2) := by
  unfold intersectPairs
  rw [List.flatMap_singleton, List.mem_filterMap]
  refine exists_congr fun r => and_congr_right fun _ => ?_
  split
  · rename_i h
    rw [Option.some.injEq, eq_comm]
    exact ⟨fun heq => ⟨h, heq⟩, And.right⟩
  · rename_i h
    exact ⟨fun hc => absurd hc (Option.some_ne_none _).symm, fun hc => absurd hc.1 h⟩

lemma hits_intersect (t : ℤ) :
    Hits (intersect [(start, stop)] cov) t ↔ (start ≤ t ∧ t < stop) ∧ ∃ r ∈ cov, r.1 ≤ t ∧ t < r.2 := by
  unfold intersect
  rw [hits_merge]
  constructor
  · rintro ⟨q, hq, h⟩
    obtain ⟨r, hr, -, rfl⟩ := mem_intersectPairs.mp hq
    exact ⟨by omega, r, hr, by omega⟩
  · rintro ⟨hin, r, hr, h⟩
    refine ⟨_, mem_intersectPairs.mpr ⟨r, hr, by omega, rfl⟩, ?_⟩
    omega

lemma ends_intersect (h : q ∈ intersect [(start, stop)] cov) :
    q.1 < q.2 ∧ (∃ r ∈ cov, q.1 = max start r.1 ∧ max start r.1 < min stop r.2) ∧
      ∃ r ∈ cov, q.2 = min stop r.2 ∧ max start r.1 < min stop r.2 := by
  have hpos : ∀ q ∈ intersectPairs [(start, stop)] cov, q.1 < q.2 := by
    intro q hq
    obtain ⟨r, -, hlt, rfl⟩ := mem_intersectPairs.mp hq
    exact hlt
  obtain ⟨⟨q₁, hq₁, hs⟩, q₂, hq₂, hend⟩ := ends_merge h
  obtain ⟨r₁, hr₁, hlt₁, rfl⟩ := mem_intersectPairs.mp hq₁
  obtain ⟨r₂, hr₂, hlt₂, rfl⟩ := mem_intersectPairs.mp hq₂
  exact ⟨pos_merge hpos h, ⟨r₁, hr₁, hs, hlt₁⟩, r₂, hr₂, hend, hlt₂⟩

lemma pairwise_intersect (cov : List Range) :
    (intersect [(start, stop)] cov).Pairwise fun r r' => r.2 < r'.1 := pairwise_merge _

variable {origin : ℤ} (hpos : 0 < interval) (hgrid : ∀ t ∈ s.bars, interval ∣ t - origin)

include hpos hgrid

lemma hits_available {t : ℤ} (ht : interval ∣ t - origin) :
    Hits (intersect [(start, stop)] (s.coverage interval)) t ↔
      (start ≤ t ∧ t < stop) ∧ t ∈ s.bars ∧ t + interval ∈ s.bars := by
  obtain ⟨hrn, hc⟩ := coverage_isRun hpos s hgrid
  rw [hits_intersect]
  refine and_congr_right fun _ => ⟨?_, ?_⟩
  · rintro ⟨r, hr, hle, hlt⟩
    have hrun := hrn r hr
    have hs : interval ∣ r.1 - origin := hgrid _ (hrun.within r.1 (le_refl _) hrun.le (by rw [sub_self]; exact dvd_zero _))
    have hdvd : interval ∣ t - r.1 := by
      rw [← sub_sub_sub_cancel_right t r.1 origin]
      exact dvd_sub ht hs
    have hend : interval ∣ r.2 - t := by
      rw [← sub_sub_sub_cancel_right r.2 t r.1]
      exact dvd_sub hrun.dvd hdvd
    have hst := add_le_of_dvd hend hlt
    refine ⟨hrun.within t hle (le_of_lt hlt) hdvd, hrun.within _ (by omega) hst ?_⟩
    rw [add_sub_right_comm]
    exact dvd_add hdvd dvd_rfl
  · rintro ⟨hmem, hn⟩
    obtain ⟨r, hr, hle, hh⟩ := hc t hmem
    refine ⟨r, hr, hle, lt_of_le_of_ne hh fun heq => (hrn r hr).after ?_⟩
    rw [← heq]
    exact hn

lemma start_available (h : q ∈ intersect [(start, stop)] (s.coverage interval)) :
    q.1 = start ∨ start < q.1 ∧ q.1 ∈ s.bars ∧ q.1 - interval ∉ s.bars := by
  obtain ⟨hrn, -⟩ := coverage_isRun hpos s hgrid
  obtain ⟨-, ⟨r, hr, hs, -⟩, -⟩ := ends_intersect h
  have hrun := hrn r hr
  by_cases hle : r.1 ≤ start
  · left
    omega
  · right
    have heq : q.1 = r.1 := by omega
    rw [heq]
    exact ⟨by omega, hrun.within _ (le_refl _) hrun.le (by rw [sub_self]; exact dvd_zero _), hrun.before⟩

lemma end_available (h : q ∈ intersect [(start, stop)] (s.coverage interval)) :
    q.2 = stop ∨ q.2 < stop ∧ q.2 ∈ s.bars ∧ q.2 + interval ∉ s.bars := by
  obtain ⟨hrn, -⟩ := coverage_isRun hpos s hgrid
  obtain ⟨-, -, r, hr, hend, -⟩ := ends_intersect h
  have hrun := hrn r hr
  by_cases hle : stop ≤ r.2
  · left
    omega
  · right
    have heq : q.2 = r.2 := by omega
    rw [heq]
    exact ⟨by omega, hrun.within _ hrun.le (le_refl _) hrun.dvd, hrun.after⟩

lemma taken_available {t : ℤ} (ht : interval ∣ t - origin) (h : q ∈ intersect [(start, stop)] (s.coverage interval)) :
    TakenFrom interval start stop t q := by
  have hen := (ends_intersect h).1
  have hend := end_available hpos hgrid h
  refine ⟨hen, by omega, hend.imp_right ?_, fun _ => ?_⟩
  · rintro ⟨-, hmem, -⟩
    rw [← sub_sub_sub_cancel_right t q.2 origin]
    exact dvd_sub ht (hgrid _ hmem)
  · rcases start_available hpos hgrid h with heq | ⟨-, hmem, -⟩
    · exact .inr (le_of_eq heq)
    · left
      rw [← sub_sub_sub_cancel_right q.1 t origin]
      exact dvd_sub (hgrid _ hmem) ht

end Available

end Qmtl.Runtime.Seamless

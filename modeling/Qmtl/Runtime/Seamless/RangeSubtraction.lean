import Qmtl.Runtime.Seamless.FetchPlanner

/-!
What `_RangeOperations.subtract` leaves, seen from the points of the ranges: each range has a grid of its own, anchored at
its start, and a range that is subtracted takes the points of the grids that its start lies on.
-/

namespace Qmtl.Runtime.Seamless

/-! ### What is taken and left of a range -/

def IsPoint (interval : ℤ) (r : Range) (t : ℤ) : Prop := interval ∣ t - r.1 ∧ r.1 ≤ t ∧ t ≤ r.2

def Taken (interval : ℤ) (subs : List Range) (r : Range) (t : ℤ) : Prop :=
  IsPoint interval r t ∧ ∃ sub ∈ subs, interval ∣ sub.1 - r.1 ∧ sub.1 ≤ t ∧ t ≤ sub.2

def Leaves (interval : ℤ) (subs : List Range) (r : Range) (t : ℤ) : Prop :=
  r.1 ≤ t ∧ t ≤ r.2 ∧ ∀ x, Taken interval subs r x → t + interval ≤ x ∨ x + interval ≤ t

structure Left (interval : ℤ) (r : Range) (taken : ℤ → Prop) (segs : List Range) : Prop where
  start : ∀ seg ∈ segs, seg.1 = r.1 ∨ taken (seg.1 - interval)
  stop : ∀ seg ∈ segs, seg.2 = r.2 ∨ taken (seg.2 + interval) ∧ seg.1 ≤ seg.2
  contains : ∀ t, Contains segs t ↔ r.1 ≤ t ∧ t ≤ r.2 ∧ ∀ x, taken x → t + interval ≤ x ∨ x + interval ≤ t
  inverted : (∃ seg ∈ segs, seg.2 < seg.1) ↔ ∃ x, taken x ∧ x < r.2 ∧ r.2 < x + interval

section Left

variable {interval : ℤ} {r : Range} {taken : ℤ → Prop} {segs : List Range}

lemma dvd_between {origin t u : ℤ} (ht : interval ∣ t - origin) (hu : interval ∣ u - origin) : interval ∣ u - t := by
  rw [← sub_sub_sub_cancel_right u t origin]
  exact dvd_sub hu ht

lemma le_sub_of_dvd {t u : ℤ} (hdvd : interval ∣ u - t) (hlt : t < u) : t ≤ u - interval := by
  have := add_le_of_dvd hdvd hlt
  omega

lemma subtractSegment_spec (hpos : 0 < interval) {seg sub : Range} (hsub : sub.1 ≤ sub.2) (hal : interval ∣ sub.1 - seg.1) :
    (∀ q ∈ subtractSegment interval sub seg, (q.1 = seg.1 ∨ IsPoint interval seg (q.1 - interval) ∧
        sub.1 ≤ q.1 - interval ∧ q.1 - interval ≤ sub.2) ∧
      (q.2 = seg.2 ∨ (IsPoint interval seg (q.2 + interval) ∧ sub.1 ≤ q.2 + interval ∧ q.2 + interval ≤ sub.2) ∧
        q.1 ≤ q.2)) ∧ (∀ t, Contains (subtractSegment interval sub seg) t ↔ (seg.1 ≤ t ∧ t ≤ seg.2) ∧
      ∀ x, IsPoint interval seg x → sub.1 ≤ x → x ≤ sub.2 → t + interval ≤ x ∨ x + interval ≤ t) ∧
    ((∃ q ∈ subtractSegment interval sub seg, q.2 < q.1) ↔ seg.2 < seg.1 ∨
      ∃ x, IsPoint interval seg x ∧ sub.1 ≤ x ∧ x ≤ sub.2 ∧ x < seg.2 ∧ seg.2 < x + interval) := by
  rcases subtractSegment_cases hpos hsub hal with ⟨hsl, hap⟩ | ⟨last, hl, hdvd, hle, hlt, hge⟩
  · have hn : ∀ x, IsPoint interval seg x → sub.1 ≤ x → ¬ x ≤ sub.2 := by
      rintro x ⟨-, hlow, hh⟩ hx hx'
      omega
    rw [hsl]
    refine ⟨fun q hq => ?_, fun t => ?_, ?_⟩
    · obtain rfl := List.mem_singleton.mp hq
      exact ⟨.inl rfl, .inl rfl⟩
    · rw [contains_cons, or_iff_left (contains_nil t)]
      exact (and_iff_left fun x hx h h' => absurd h' (hn x hx h)).symm
    · simp only [List.mem_singleton, exists_eq_left]
      refine (or_iff_left ?_).symm
      rintro ⟨x, hx, h, h', -⟩
      exact hn x hx h h'
  · -- what is taken are the points from `first` to `last`
    have hfirst : ∃ first, first = max seg.1 sub.1 := ⟨_, rfl⟩
    obtain ⟨first, hfirst⟩ := hfirst
    have hd' : interval ∣ first - seg.1 := by
      rcases max_choice seg.1 sub.1 with hmax | hmax
      · rw [hfirst, hmax, sub_self]
        exact dvd_zero interval
      · rw [hfirst, hmax]
        exact hal
    have hb : ∀ x, IsPoint interval seg x → x ≤ sub.2 → x ≤ last := by
      rintro x ⟨hx, -, hh⟩ hx'
      by_contra hlater
      have := add_le_of_dvd (dvd_between hdvd hx) (not_le.mp hlater)
      omega
    rw [hl, ← hfirst]
    refine ⟨fun q hq => ?_, fun t => ?_, ?_⟩
    · rcases List.mem_append.mp hq with hq | hq
      · split at hq
        · rename_i hlater
          obtain rfl := List.mem_singleton.mp hq
          have := le_sub_of_dvd hd' hlater
          refine ⟨.inl rfl, .inr ⟨?_, this⟩⟩
          rw [sub_add_cancel]
          exact ⟨⟨hd', by omega, by omega⟩, by omega, by omega⟩
        · cases hq
      · split at hq
        · obtain rfl := List.mem_singleton.mp hq
          refine ⟨.inr ?_, .inl rfl⟩
          rw [add_sub_cancel_right]
          exact ⟨⟨hdvd, by omega, by omega⟩, by omega, by omega⟩
        · cases hq
    · have hp : Contains ((if first > seg.1 then [(seg.1, first - interval)] else []) ++
          if last < seg.2 then [(last + interval, seg.2)] else []) t ↔
          (seg.1 ≤ t ∧ t + interval ≤ first) ∨ (last + interval ≤ t ∧ t ≤ seg.2) := by
        rw [contains_append]
        refine or_congr ?_ ?_
        · split
          · rw [contains_cons, or_iff_left (contains_nil t)]
            omega
          · exact iff_of_false (contains_nil t) (by omega)
        · split
          · rw [contains_cons, or_iff_left (contains_nil t)]
          · exact iff_of_false (contains_nil t) (by omega)
      rw [hp]
      constructor
      · rintro (⟨hlow, hh⟩ | ⟨hlow, hh⟩)
        · exact ⟨⟨hlow, by omega⟩, fun x hx hx' _ => .inl (by have := hx.2.1; omega)⟩
        · exact ⟨⟨by omega, hh⟩, fun x hx _ hx' => .inr (by have := hb x hx hx'; omega)⟩
      · rintro ⟨⟨hlow, hh⟩, hap⟩
        rcases hap first ⟨hd', by omega, by omega⟩ (by omega) (by omega) with h | h
        · exact .inl ⟨hlow, h⟩
        · refine .inr ⟨?_, hh⟩
          by_contra hnr
          -- the last point of the grid that is not after `t` is taken
          have hx : interval ∣ t - (t - seg.1) % interval - seg.1 := by
            rw [sub_right_comm]
            exact Int.dvd_self_sub_emod
          have hmod := Int.emod_nonneg (t - seg.1) hpos.ne'
          have hm' := Int.emod_lt_of_pos (t - seg.1) hpos
          have hm'' := emod_le_self hpos (show 0 ≤ t - seg.1 by omega)
          generalize (t - seg.1) % interval = m at hx hmod hm' hm''
          have hxl : t - m ≤ last := by
            by_contra hlater
            have := add_le_of_dvd (dvd_between hdvd hx) (not_le.mp hlater)
            omega
          have := hap (t - m) ⟨hx, by omega, by omega⟩ (by omega) (by omega)
          omega
    · constructor
      · rintro ⟨q, hq, hinv⟩
        rcases List.mem_append.mp hq with hq | hq
        · split at hq
          · rename_i hlater
            obtain rfl := List.mem_singleton.mp hq
            have := le_sub_of_dvd hd' hlater
            omega
          · cases hq
        · split at hq
          · rename_i hm
            obtain rfl := List.mem_singleton.mp hq
            exact .inr ⟨last, ⟨hdvd, by omega, by omega⟩, by omega, by omega, hm, hinv⟩
          · cases hq
      · rintro (hinv | ⟨x, hx, hlow, hh, hm, hnx⟩)
        · omega
        · have hxl := hb x hx hh
          have hs : last < seg.2 := by
            by_contra hend
            have := add_le_of_dvd (dvd_between hx.1 hdvd) (show x < last by omega)
            omega
          refine ⟨(last + interval, seg.2), List.mem_append_right _ ?_, ?_⟩
          · rw [if_pos hs]
            exact List.mem_singleton_self _
          · omega

lemma Left.whole (hr : r.1 ≤ r.2) : Left interval r (fun _ => False) [r] where
  start seg hseg := .inl (congrArg Prod.fst (List.mem_singleton.mp hseg))
  stop seg hseg := .inl (congrArg Prod.snd (List.mem_singleton.mp hseg))
  contains t := by
    rw [contains_cons, or_iff_left (contains_nil t)]
    simp
  inverted := by
    simp only [List.mem_singleton, exists_eq_left, false_and, exists_false, iff_false, not_lt]
    exact hr

lemma Left.inside (hpos : 0 < interval) (h : Left interval r taken segs) (hp : ∀ x, taken x → IsPoint interval r x)
    {seg : Range} (hseg : seg ∈ segs) :
    interval ∣ seg.1 - r.1 ∧ r.1 ≤ seg.1 ∧ (seg.2 = r.2 ∨ interval ∣ seg.2 - r.1 ∧ seg.2 + interval ≤ r.2) := by
  have hs : seg.2 = r.2 ∨ interval ∣ seg.2 - r.1 ∧ seg.2 + interval ≤ r.2 := by
    refine (h.stop seg hseg).imp_right fun ht => ?_
    obtain ⟨hdvd, -, hle⟩ := hp _ ht.1
    rw [add_sub_right_comm] at hdvd
    exact ⟨(dvd_add_left dvd_rfl).mp hdvd, hle⟩
  rcases h.start seg hseg with hst | ht
  · rw [hst, sub_self]
    exact ⟨dvd_zero interval, le_rfl, hs⟩
  · obtain ⟨hdvd, hle, -⟩ := hp _ ht
    rw [sub_right_comm] at hdvd
    exact ⟨(dvd_sub_left dvd_rfl).mp hdvd, by omega, hs⟩

lemma isPoint_segment {seg : Range} (hdvd : interval ∣ seg.1 - r.1) (hs : r.1 ≤ seg.1) (hst : seg.2 ≤ r.2) {x : ℤ} :
    IsPoint interval seg x ↔ IsPoint interval r x ∧ seg.1 ≤ x ∧ x ≤ seg.2 := by
  have hgrid : interval ∣ x - r.1 ↔ interval ∣ x - seg.1 := by
    rw [← sub_add_sub_cancel x seg.1 r.1]
    exact dvd_add_left hdvd
  unfold IsPoint
  rw [hgrid]
  constructor
  · rintro ⟨hx, hlow, hh⟩
    exact ⟨⟨hx, by omega, by omega⟩, hlow, hh⟩
  · rintro ⟨⟨hx, -, -⟩, hlow, hh⟩
    exact ⟨hx, hlow, hh⟩

lemma Left.take (hpos : 0 < interval) (h : Left interval r taken segs) (hpn : ∀ x, taken x → IsPoint interval r x)
    {sub : Range} (hsub : sub.1 ≤ sub.2) (hal : interval ∣ sub.1 - r.1) :
    Left interval r (fun x => taken x ∨ IsPoint interval r x ∧ sub.1 ≤ x ∧ x ≤ sub.2)
      (segs.flatMap (subtractSegment interval sub)) := by
  have hins := fun seg hseg => @Left.inside _ _ _ _ hpos h hpn seg hseg
  have hle : ∀ seg ∈ segs, seg.2 ≤ r.2 := fun seg hseg => by
    rcases (hins seg hseg).2.2 with heq | ⟨-, hlt⟩
    · exact heq.le
    · omega
  have hseg : ∀ seg ∈ segs, ∀ x, IsPoint interval seg x ↔ IsPoint interval r x ∧ seg.1 ≤ x ∧ x ≤ seg.2 :=
    fun seg hmem x => isPoint_segment (hins seg hmem).1 (hins seg hmem).2.1 (hle seg hmem)
  have hs := fun seg hmem => @subtractSegment_spec interval hpos seg sub hsub
    (dvd_between (hins seg hmem).1 hal)
  refine ⟨?_, ?_, fun t => ?_, ?_⟩
  · intro q hq
    obtain ⟨seg, hmem, hq⟩ := List.mem_flatMap.mp hq
    rcases ((hs seg hmem).1 q hq).1 with heq | ⟨hx, hlow, hh⟩
    · rw [heq]
      exact (h.start seg hmem).imp_right Or.inl
    · exact .inr (.inr ⟨((hseg seg hmem _).mp hx).1, hlow, hh⟩)
  · intro q hq
    obtain ⟨seg, hmem, hq⟩ := List.mem_flatMap.mp hq
    rcases ((hs seg hmem).1 q hq).2 with heq | ⟨⟨hx, hlow, hh⟩, hle'⟩
    · rw [heq]
      refine (h.stop seg hmem).imp_right fun hp => ⟨.inl hp.1, ?_⟩
      obtain ⟨ht, hp⟩ := hp
      -- a segment that ends on the grid is cut into pieces that do, too
      by_contra hinv
      rcases (hs seg hmem).2.2.mp ⟨q, hq, by omega⟩ with hi' | ⟨x, hx, -, -, hlt, hn⟩
      · omega
      · obtain ⟨hdvd, -, -⟩ := hpn _ ht
        rw [add_sub_right_comm] at hdvd
        have hgrid := dvd_between ((hseg seg hmem x).mp hx).1.1 ((dvd_add_left dvd_rfl).mp hdvd)
        have := add_le_of_dvd hgrid hlt
        omega
    · exact .inr ⟨.inr ⟨((hseg seg hmem _).mp hx).1, hlow, hh⟩, hle'⟩
  · have hfl : Contains (segs.flatMap (subtractSegment interval sub)) t ↔
        ∃ seg ∈ segs, Contains (subtractSegment interval sub seg) t := by
      simp only [Contains, List.mem_flatMap]
      constructor
      · rintro ⟨q, ⟨seg, hmem, hq⟩, hin⟩
        exact ⟨seg, hmem, q, hq, hin⟩
      · rintro ⟨seg, hmem, q, hq, hin⟩
        exact ⟨q, ⟨seg, hmem, hq⟩, hin⟩
    rw [hfl]
    constructor
    · rintro ⟨seg, hmem, hin⟩
      obtain ⟨hb, hfar⟩ := ((hs seg hmem).2.1 t).mp hin
      obtain ⟨hlow, hh, ht⟩ := (h.contains t).mp ⟨seg, hmem, hb⟩
      refine ⟨hlow, hh, fun x hx => ?_⟩
      rcases hx with hx | ⟨hx, hx', hx''⟩
      · exact ht x hx
      · -- a point that the segment does not have is a step away from it
        obtain ⟨hdvd, -, hst⟩ := hins seg hmem
        rcases lt_or_ge x seg.1 with hbf | haf
        · have := add_le_of_dvd (dvd_between hx.1 hdvd) hbf
          omega
        · rcases le_or_gt x seg.2 with hw | hbh
          · exact hfar x ((hseg seg hmem x).mpr ⟨hx, haf, hw⟩) hx' hx''
          · rcases hst with heq | ⟨hgrid, -⟩
            · have := hx.2.2
              omega
            · have := add_le_of_dvd (dvd_between hgrid hx.1) hbh
              omega
    · rintro ⟨hlow, hh, hall⟩
      obtain ⟨seg, hmem, hb⟩ := (h.contains t).mpr ⟨hlow, hh, fun x hx => hall x (.inl hx)⟩
      refine ⟨seg, hmem, ((hs seg hmem).2.1 t).mpr ⟨hb, fun x hx hx' hx'' => ?_⟩⟩
      exact hall x (.inr ⟨((hseg seg hmem x).mp hx).1, hx', hx''⟩)
  · constructor
    · rintro ⟨q, hq, hinv⟩
      obtain ⟨seg, hmem, hq⟩ := List.mem_flatMap.mp hq
      rcases (hs seg hmem).2.2.mp ⟨q, hq, hinv⟩ with hi' | ⟨x, hx, hlow, hh, hlt, hn⟩
      · obtain ⟨x, hx, hlt, hn⟩ := h.inverted.mp ⟨seg, hmem, hi'⟩
        exact ⟨x, .inl hx, hlt, hn⟩
      · have hp' := ((hseg seg hmem x).mp hx).1
        rcases (hins seg hmem).2.2 with heq | ⟨hgrid, -⟩
        · exact ⟨x, .inr ⟨hp', hlow, hh⟩, by omega, by omega⟩
        · have := add_le_of_dvd (dvd_between hp'.1 hgrid) hlt
          omega
    · rintro ⟨x, hx, hlt, hn⟩
      have hf : ∀ seg ∈ segs, (seg.2 < seg.1 ∨ ∃ x, IsPoint interval seg x ∧ sub.1 ≤ x ∧ x ≤ sub.2 ∧ x < seg.2 ∧
          seg.2 < x + interval) → ∃ q ∈ segs.flatMap (subtractSegment interval sub), q.2 < q.1 := by
        intro seg hmem hinv
        obtain ⟨q, hq, hi'⟩ := (hs seg hmem).2.2.mpr hinv
        exact ⟨q, List.mem_flatMap.mpr ⟨seg, hmem, hq⟩, hi'⟩
      by_cases ht : taken x
      · obtain ⟨seg, hmem, hinv⟩ := h.inverted.mpr ⟨x, ht, hlt, hn⟩
        exact hf seg hmem (.inl hinv)
      · obtain ⟨hx, hlow, hh⟩ := hx.resolve_left ht
        -- the last point of the range was not taken before, so it lies in a segment
        have hl : Contains segs x := by
          refine (h.contains x).mpr ⟨hx.2.1, hlt.le, fun y hy => ?_⟩
          have hy' := (hpn y hy).1
          rcases lt_trichotomy y x with hbf | rfl | haf
          · exact .inr (add_le_of_dvd (dvd_between hy' hx.1) hbf)
          · exact absurd hy ht
          · exact .inl (add_le_of_dvd (dvd_between hx.1 hy') haf)
        obtain ⟨seg, hmem, hb⟩ := hl
        refine hf seg hmem (.inr ⟨x, (hseg seg hmem x).mpr ⟨hx, hb⟩, hlow, hh, ?_, ?_⟩)
        · rcases (hins seg hmem).2.2 with heq | ⟨-, hle'⟩
          · omega
          · omega
        · have := hle seg hmem
          omega

lemma Left.congr {taken' : ℤ → Prop} (h : Left interval r taken segs) (hiff : ∀ x, taken x ↔ taken' x) :
    Left interval r taken' segs := by
  obtain rfl : taken = taken' := funext fun x => propext (hiff x)
  exact h

end Left

lemma taken_cons {interval : ℤ} {sub : Range} {subs : List Range} {r : Range} {x : ℤ} :
    Taken interval (sub :: subs) r x ↔
      (IsPoint interval r x ∧ interval ∣ sub.1 - r.1 ∧ sub.1 ≤ x ∧ x ≤ sub.2) ∨ Taken interval subs r x := by
  simp only [Taken, List.mem_cons, exists_eq_or_imp]
  exact and_or_left

lemma subtractSegments_nil (interval : ℤ) (subs : List Range) : subtractSegments interval [] subs = [] := by
  induction subs with
  | nil => rfl
  | cons sub subs ih =>
    rw [subtractSegments]
    split
    · exact ih
    · rfl

lemma left_subtractSegments {interval : ℤ} (hpos : 0 < interval) {r : Range} {taken : ℤ → Prop} {segs : List Range}
    (h : Left interval r taken segs) (hp : ∀ x, taken x → IsPoint interval r x) (subs : List Range) :
    Left interval r (fun x => taken x ∨ Taken interval subs r x) (subtractSegments interval segs subs) := by
  induction subs generalizing taken segs with
  | nil => exact h.congr fun x => (or_iff_left fun hx => absurd hx.2 (by simp)).symm
  | cons sub subs ih =>
    rw [subtractSegments]
    split
    · -- an inverted range is skipped, and has no point
      refine (ih h hp).congr fun x => ?_
      rw [taken_cons]
      refine or_congr_right (or_iff_right ?_).symm
      rintro ⟨-, -, hlow, hh⟩
      omega
    · rename_i hsub
      have hs : (if segs.flatMap (subtractSegment interval sub) = [] then []
          else subtractSegments interval (segs.flatMap (subtractSegment interval sub)) subs) =
          subtractSegments interval (segs.flatMap (subtractSegment interval sub)) subs := by
        split
        · rename_i hnil
          rw [hnil, subtractSegments_nil]
        · rfl
      rw [hs]
      by_cases hal : interval ∣ sub.1 - r.1
      · refine (ih (h.take hpos hp (not_lt.mp hsub) hal) fun x hx => ?_).congr fun x => ?_
        · exact hx.elim (hp x) And.left
        · rw [taken_cons, or_assoc]
          simp [hal]
      · have hsm : segs.flatMap (subtractSegment interval sub) = segs := by
          refine (List.flatMap_congr fun seg hseg => ?_).trans (List.flatMap_singleton' segs)
          refine not_aligned fun hdvd => hal ?_
          rw [← sub_add_sub_cancel sub.1 seg.1 r.1]
          exact dvd_add hdvd (h.inside hpos hp hseg).1
        rw [hsm]
        refine (ih h hp).congr fun x => ?_
        rw [taken_cons]
        simp [hal, false_or]

lemma mem_mergeInto_of_inverted {q : Range} {rs : List Range} (hinv : q.2 < q.1) (h : ∀ r ∈ rs, q.1 ≤ r.1) :
    q ∈ mergeInto q rs := by
  cases rs with
  | nil => exact List.mem_singleton_self q
  | cons current rest =>
    have := h current List.mem_cons_self
    rw [mergeInto, if_neg (by omega)]
    exact .head _

lemma inverted_mergeInto {q last : Range} {rs : List Range} (hinv : q.2 < q.1) (hs : rs.Pairwise rangeLe)
    (hl : last.2 < q.1) (hq : q ∈ rs) (h : ∀ c ∈ rs, c.1 < q.1 → c.2 < q.1) : ∃ r ∈ mergeInto last rs, r.2 < r.1 := by
  induction rs generalizing last with
  | nil => cases hq
  | cons current rest ih =>
    rw [List.pairwise_cons] at hs
    obtain ⟨hcr, hrs⟩ := hs
    rw [mergeInto]
    by_cases heq : q = current
    · subst heq
      rw [if_neg (by omega)]
      refine ⟨q, .tail _ (mem_mergeInto_of_inverted hinv fun r hr => ?_), hinv⟩
      have := hcr r hr
      unfold rangeLe at this
      omega
    · have hq := (List.mem_cons.mp hq).resolve_left heq
      have hsh : current.2 < q.1 := by
        have hle := hcr q hq
        rcases hle with hlt | ⟨-, hle⟩
        · exact h current (.head _) hlt
        · omega
      have hrs' : ∀ c ∈ rest, c.1 < q.1 → c.2 < q.1 := fun c hc => h c (.tail _ hc)
      split
      · exact ih hrs (max_lt hl hsh) hq hrs'
      · obtain ⟨r, hr, hr'⟩ := ih hrs hsh hq hrs'
        exact ⟨r, .tail _ hr, hr'⟩

lemma merge_ordered_iff (rs : List Range) :
    (∀ r ∈ merge rs, r.1 ≤ r.2) ↔ ∀ q ∈ rs, q.2 < q.1 → ∃ c ∈ rs, c.1 < q.1 ∧ q.1 ≤ c.2 := by
  constructor
  · intro hall q hq hinv
    by_contra hn
    have hsh : ∀ c ∈ sortRanges rs, c.1 < q.1 → c.2 < q.1 := by
      intro c hc hlt
      by_contra hle
      exact hn ⟨c, (perm_sortRanges rs).mem_iff.mp hc, hlt, not_lt.mp hle⟩
    have hs : (sortRanges rs).Pairwise rangeLe := List.pairwise_insertionSort rangeLe rs
    rw [← (perm_sortRanges rs).mem_iff] at hq
    unfold merge at hall
    cases hsr : sortRanges rs with
    | nil =>
      rw [hsr] at hq
      cases hq
    | cons first rest =>
      rw [hsr] at hq hall hs hsh
      rw [List.pairwise_cons] at hs
      obtain ⟨hfirst, hrs⟩ := hs
      rcases List.mem_cons.mp hq with rfl | hq
      · have hmem : q ∈ mergeInto q rest := mem_mergeInto_of_inverted hinv fun r hr => by
          have := hfirst r hr
          unfold rangeLe at this
          omega
        have := hall q hmem
        omega
      · have hl : first.2 < q.1 := by
          have hle := hfirst q hq
          rcases hle with hlt | ⟨-, hle⟩
          · exact hsh first (.head _) hlt
          · omega
        obtain ⟨r, hr, hr'⟩ :=
          inverted_mergeInto hinv hrs hl hq fun c hc => hsh c (.tail _ hc)
        have := hall r hr
        omega
  · intro hall o ho
    by_contra hinv
    obtain ⟨q, hq, hst, hsto⟩ := start_merge ho
    obtain ⟨c, hc, hlow, hh⟩ := hall q hq (by omega)
    obtain ⟨o', ho', hl', hh'⟩ := covered_merge hc (by omega)
    -- the two merged ranges would overlap
    rcases eq_or_rel_of_pairwise ((sorted_merge rs).and (pairwise_merge rs)) ho ho' with rfl | ⟨hle, -⟩ | ⟨-, hlt⟩
    · omega
    · omega
    · omega

/-! ### Subtracting -/

section Subtracting

variable {interval : ℤ} {fromRanges subs : List Range}

lemma eq_of_last {r : Range} {t u : ℤ} (ht : IsPoint interval r t) (hu : IsPoint interval r u) (ht' : r.2 < t + interval)
    (hu' : r.2 < u + interval) : t = u := by
  rcases lt_trichotomy t u with hlt | heq | hgt
  · have := add_le_of_dvd (dvd_between ht.1 hu.1) hlt
    have := hu.2.2
    omega
  · exact heq
  · have := add_le_of_dvd (dvd_between hu.1 ht.1) hgt
    have := ht.2.2
    omega

lemma left_of_range (hpos : 0 < interval) {r : Range} (hr : r.1 ≤ r.2) (subs : List Range) :
    Left interval r (Taken interval subs r) (subtractSegments interval [r] subs) :=
  (left_subtractSegments hpos (.whole hr) (fun _ h => h.elim) subs).congr fun _ => by rw [false_or]

lemma Left.of_inverted {r : Range} {taken : ℤ → Prop} {segs : List Range} (h : Left interval r taken segs)
    (hr : r.1 ≤ r.2) (hp : ∀ x, taken x → IsPoint interval r x) {seg : Range} (hseg : seg ∈ segs) (hinv : seg.2 < seg.1) :
    taken (seg.1 - interval) ∧ seg.1 - interval < r.2 ∧ r.2 < seg.1 := by
  have hst : seg.2 = r.2 := (h.stop seg hseg).resolve_right fun hpr => by omega
  have ht : taken (seg.1 - interval) := (h.start seg hseg).resolve_left fun hs => by omega
  obtain ⟨x, hx, hlt, hn⟩ := h.inverted.mp ⟨seg, hseg, hinv⟩
  have heq := eq_of_last (hp x hx) (hp _ ht) hn (by omega)
  exact ⟨ht, by omega, by omega⟩

/-- What `subtract` returns is right: none of its ranges is inverted, and they have of the points of each range those that
are not taken of it. -/
structure SubtractsExactly (interval : ℤ) (fromRanges subs : List Range) : Prop where
  ordered : ∀ r ∈ subtract fromRanges subs interval, r.1 ≤ r.2
  exact : ∀ r ∈ fromRanges, ∀ t, IsPoint interval r t →
    (Contains (subtract fromRanges subs interval) t ↔ ¬ Taken interval subs r t)

/-- No point that is taken of a range is left of another one, nor is an end left on its own. -/
structure CutsCleanly (interval : ℤ) (fromRanges subs : List Range) : Prop where
  apart : ∀ r ∈ fromRanges, ∀ t, Taken interval subs r t → ∀ r' ∈ fromRanges, ¬ Leaves interval subs r' t
  ends : ∀ r ∈ fromRanges, ∀ t, Taken interval subs r t → t < r.2 → r.2 < t + interval →
    ∃ r' ∈ fromRanges, Leaves interval subs r' (t + interval - 1) ∧ Leaves interval subs r' (t + interval)

def remaining (interval : ℤ) (fromRanges subs : List Range) : List Range :=
  fromRanges.flatMap fun r => subtractSegments interval [r] subs

lemma subtract_eq (hpos : 0 < interval) (hs : subs ≠ []) :
    subtract fromRanges subs interval = merge (sortRanges (remaining interval fromRanges subs)) := by
  rw [subtract, if_neg hs, if_neg (not_le.mpr hpos), subtractWithInterval, remaining]

lemma contains_remaining (hpos : 0 < interval) (hle : ∀ r ∈ fromRanges, r.1 ≤ r.2) (t : ℤ) :
    Contains (remaining interval fromRanges subs) t ↔ ∃ r ∈ fromRanges, Leaves interval subs r t := by
  constructor
  · rintro ⟨seg, hseg, hin⟩
    obtain ⟨r, hr, hseg⟩ := List.mem_flatMap.mp hseg
    exact ⟨r, hr, ((left_of_range hpos (hle r hr) subs).contains t).mp ⟨seg, hseg, hin⟩⟩
  · rintro ⟨r, hr, hl⟩
    obtain ⟨seg, hseg, hin⟩ := ((left_of_range hpos (hle r hr) subs).contains t).mpr hl
    exact ⟨seg, List.mem_flatMap.mpr ⟨r, hr, hseg⟩, hin⟩

lemma contains_subtract (hpos : 0 < interval) (hle : ∀ r ∈ fromRanges, r.1 ≤ r.2) (t : ℤ) :
    Contains (subtract fromRanges subs interval) t ↔ ∃ r ∈ fromRanges, Leaves interval subs r t := by
  by_cases hs : subs = []
  · have hl : ∀ r, Leaves interval subs r t ↔ r.1 ≤ t ∧ t ≤ r.2 := by
      intro r
      simp [Leaves, Taken, hs]
    simp only [subtract, if_pos hs, hl]
    rfl
  · rw [subtract_eq hpos hs, contains_merge, contains_perm (perm_sortRanges _), contains_remaining hpos hle]

lemma leaves_of_point {r : Range} {t : ℤ} (ht : IsPoint interval r t) (h : ¬ Taken interval subs r t) :
    Leaves interval subs r t := by
  refine ⟨ht.2.1, ht.2.2, fun x hx => ?_⟩
  rcases lt_trichotomy t x with hlt | rfl | hgt
  · exact .inl (add_le_of_dvd (dvd_between ht.1 hx.1.1) hlt)
  · exact absurd hx h
  · exact .inr (add_le_of_dvd (dvd_between hx.1.1 ht.1) hgt)

lemma exact_iff (hpos : 0 < interval) (hle : ∀ r ∈ fromRanges, r.1 ≤ r.2) :
    (∀ r ∈ fromRanges, ∀ t, IsPoint interval r t →
      (Contains (subtract fromRanges subs interval) t ↔ ¬ Taken interval subs r t)) ↔
    ∀ r ∈ fromRanges, ∀ t, Taken interval subs r t → ∀ r' ∈ fromRanges, ¬ Leaves interval subs r' t := by
  constructor
  · intro hex r hr t ht r' hr' hl
    exact (hex r hr t ht.1).mp ((contains_subtract hpos hle t).mpr ⟨r', hr', hl⟩) ht
  · intro hap r hr t ht
    rw [contains_subtract hpos hle]
    constructor
    · rintro ⟨r', hr', hl⟩ htk
      exact hap r hr t htk r' hr' hl
    · exact fun htk => ⟨r, hr, leaves_of_point ht htk⟩

lemma ordered_subtract_iff (hpos : 0 < interval) (hle : ∀ r ∈ fromRanges, r.1 ≤ r.2) (hsb : subs ≠ []) :
    (∀ r ∈ subtract fromRanges subs interval, r.1 ≤ r.2) ↔
    ∀ r ∈ fromRanges, ∀ t, Taken interval subs r t → t < r.2 → r.2 < t + interval →
      ∃ r' ∈ fromRanges, Leaves interval subs r' (t + interval - 1) ∧ Leaves interval subs r' (t + interval) := by
  have hmem : ∀ q, q ∈ sortRanges (remaining interval fromRanges subs) ↔
      ∃ r ∈ fromRanges, q ∈ subtractSegments interval [r] subs := fun q => by
    rw [(perm_sortRanges _).mem_iff, remaining, List.mem_flatMap]
  have hl := fun r hr => left_of_range hpos (hle r hr) subs
  rw [subtract_eq hpos hsb, merge_ordered_iff]
  constructor
  · intro hrc r hr t ht hlt hn
    obtain ⟨q, hq, hinv⟩ := (hl r hr).inverted.mpr ⟨t, ht, hlt, hn⟩
    obtain ⟨htk, -, hbh⟩ := (hl r hr).of_inverted (hle r hr) (fun _ h => h.1) hq hinv
    obtain ⟨c, hc, hlow, hh⟩ := hrc q ((hmem q).mpr ⟨r, hr, hq⟩) hinv
    have heq := eq_of_last ht.1 htk.1 hn (by omega)
    obtain ⟨r', hr', hc⟩ := (hmem c).mp hc
    exact ⟨r', hr', ((hl r' hr').contains _).mp ⟨c, hc, by omega, by omega⟩,
      ((hl r' hr').contains _).mp ⟨c, hc, by omega, by omega⟩⟩
  · intro hen q hq hinv
    obtain ⟨r, hr, hq⟩ := (hmem q).mp hq
    obtain ⟨htk, hlt, hbh⟩ := (hl r hr).of_inverted (hle r hr) (fun _ h => h.1) hq hinv
    obtain ⟨r', hr', hb, hat⟩ := hen r hr _ htk hlt (by omega)
    rw [sub_add_cancel] at hb hat
    obtain ⟨c, hc, hlow, hh⟩ := ((hl r' hr').contains _).mpr hat
    refine ⟨c, (hmem c).mpr ⟨r', hr', hc⟩, ?_, hh⟩
    rcases (hl r' hr').start c hc with hs | hs
    · have := hb.1
      omega
    · have := hb.2.2 _ hs
      omega

/-- Subtracting is exact, with no range inverted, just when the ranges are cut cleanly. -/
theorem subtracts_exactly_iff (hpos : 0 < interval) (hle : ∀ r ∈ fromRanges, r.1 ≤ r.2) (subs : List Range) :
    SubtractsExactly interval fromRanges subs ↔ CutsCleanly interval fromRanges subs := by
  have hexact := @exact_iff _ _ subs hpos hle
  by_cases hsubs : subs = []
  · have hnone : ∀ r t, ¬ Taken interval subs r t := fun r t ht => by
      obtain ⟨-, sub, hsub, -⟩ := ht
      rw [hsubs] at hsub
      cases hsub
    refine iff_of_true ⟨?_, hexact.mpr ?_⟩ ⟨?_, ?_⟩
    · rw [subtract, if_pos hsubs]
      exact hle
    · exact fun r _ t ht => absurd ht (hnone r t)
    · exact fun r _ t ht => absurd ht (hnone r t)
    · exact fun r _ t ht => absurd ht (hnone r t)
  · have hordered := ordered_subtract_iff hpos hle hsubs
    exact ⟨fun h => ⟨hexact.mp h.exact, hordered.mp h.ordered⟩, fun h => ⟨hordered.mpr h.ends, hexact.mpr h.apart⟩⟩

end Subtracting

/-- A range that is cut in its middle. -/
theorem subtracts_exactly_middle : SubtractsExactly 10 [(0, 30)] [(10, 20)] := by
  refine (subtracts_exactly_iff (by decide) (by decide) [(10, 20)]).mpr ⟨?_, ?_⟩
  · intro r hr t ht r' hr' hleft
    rw [List.mem_singleton.mp hr] at ht
    rw [List.mem_singleton.mp hr'] at hleft
    have := hleft.2.2 t ht
    omega
  · intro r hr t ht hlt hnext
    obtain ⟨-, sub, hsub, -, -, hle⟩ := ht
    rw [List.mem_singleton.mp hr] at hnext
    rw [List.mem_singleton.mp hsub] at hle
    omega

/-- The range `(0, 25)` without `(0, 20)` is inverted: it begins at 30 and ends at 25. -/
theorem remainder_inverted : ¬ ∀ (interval : ℤ) (fromRanges subs : List Range), 0 < interval →
    (∀ r ∈ fromRanges, r.1 ≤ r.2) → SubtractsExactly interval fromRanges subs := by
  intro hall
  have hresult : subtract [(0, 25)] [(0, 20)] 10 = [(30, 25)] := by decide
  have := (hall 10 [(0, 25)] [(0, 20)] (by decide) (by decide)).ordered (30, 25) (by rw [hresult]; decide)
  omega

end Qmtl.Runtime.Seamless

import Qmtl.Lib.Log
import Qmtl.Runtime.Cache.GapFlags

/-!
`MicroBatchNode`: what it emits while items are fed to it, and of which buckets.
-/

namespace Qmtl.Runtime.MicroBatch

open Lib Runtime.Cache

variable {P : Type} {period : ℕ}

/-! ### The node -/

/-- The timestamps of a window, each once where it follows itself. -/
def distinct (seq : List (Item P)) : List ℤ :=
  seq.foldl (fun distinct e => if distinct.getLast? = some e.1 then distinct else distinct ++ [e.1]) []

def flushTs (seq : List (Item P)) : Option ℤ := (distinct seq).dropLast.getLast?

def payloadsAt (ts : ℤ) (seq : List (Item P)) : List P := (seq.filter fun e => e.1 = ts).map Prod.snd

def compute (seq : List (Item P)) : Option (List P) := (flushTs seq).map fun ts => payloadsAt ts seq

inductive OnMissing where
  | skip
  | fail

structure Node (P : Type) (period : ℕ) where
  cache : NodeCache P period
  preWarmup : Bool
  emitted : List (List P)

def Node.new : Node P period := ⟨.new, true, []⟩

section

variable (u : String) (i : ℕ) (onMissing : OnMissing)

/-- `feed`. The policy for late events is left out, as sorted input has none. -/
def feed (n : Node P period) (timestamp : ℕ) (payload : P) : Node P period × Option Bool :=
  let cache := (n.cache.append u i timestamp payload).state
  let n := { n with cache, preWarmup := n.preWarmup && !cache.ready }
  if cache.flagOf (u, i) = some true then
    match onMissing with
    | .skip => (n, some false)
    | .fail => (n, none)
  else (n, some (!n.preWarmup && (cache.watermark 0).isSome))

def feedQueueData (n : Node P period) (e : ℕ × P) : Node P period :=
  let (n, ready) := feed u i onMissing n e.1 e.2
  if ready = some true then { n with emitted := n.emitted ++ (compute (n.cache.itemsOf (u, i))).toList } else n

def fed (items : List (ℕ × P)) : Node P period := items.foldl (feedQueueData u i onMissing) .new

end

def bucketed (i : ℕ) (items : List (ℕ × P)) : List (Item P) := items.map fun e => (bucketOf i e.1, e.2)

def followed (seq : List (Item P)) : List P := (seq.filter fun e => seq.any fun e' => e.1 < e'.1).map Prod.snd

/-- Two buckets that follow each other fit into the window together. -/
def Fits (period : ℕ) (seq : List (Item P)) : Prop := ∀ e ∈ seq, ∀ e' ∈ seq, e.1 < e'.1 →
  (∀ x ∈ seq, x.1 ≤ e.1 ∨ e'.1 ≤ x.1) → (payloadsAt e.1 seq).length + (payloadsAt e'.1 seq).length ≤ period

/-! ### Windows -/

variable {seq ws xs : List (Item P)} {e e' p : Item P}

lemma getLast?_distinct (seq : List (Item P)) : (distinct seq).getLast? = seq.getLast?.map Prod.fst := by
  induction seq using List.reverseRecOn with
  | nil => rfl
  | append_singleton seq e ih =>
    rw [distinct, List.foldl_append, ← distinct, List.foldl_cons, List.foldl_nil]
    split
    · rename_i hl
      rw [hl, List.getLast?_concat]
      rfl
    · rw [List.getLast?_concat, List.getLast?_concat]
      rfl

lemma flushTs_concat (seq : List (Item P)) (e : Item P) : flushTs (seq ++ [e]) =
    if seq.getLast?.map Prod.fst = some e.1 then flushTs seq else seq.getLast?.map Prod.fst := by
  rw [flushTs, distinct, List.foldl_append, ← distinct, List.foldl_cons, List.foldl_nil, getLast?_distinct]
  split
  · rfl
  · rw [List.dropLast_concat, getLast?_distinct]

lemma flushTs_append {b : ℤ} (hne : p.1 ≠ b) (hxs : ∀ x ∈ xs, x.1 = b) (hnil : xs ≠ []) :
    flushTs (ws ++ [p] ++ xs) = some p.1 := by
  induction xs using List.reverseRecOn with
  | nil => exact absurd rfl hnil
  | append_singleton xs x ih =>
    have hx : x.1 = b := hxs x (by simp)
    rw [← List.append_assoc, flushTs_concat, hx]
    rcases List.eq_nil_or_concat xs with rfl | ⟨xs', x', rfl⟩
    · simp [hne]
    · rw [if_pos]
      · exact ih (fun y hy => hxs y (List.mem_append_left _ hy)) (by simp)
      · rw [List.concat_eq_append, ← List.append_assoc, List.getLast?_concat]
        exact congrArg some (hxs x' (by simp))

lemma flushTs_eq_none {b : ℤ} (h : ∀ x ∈ seq, x.1 = b) : flushTs seq = none := by
  induction seq using List.reverseRecOn with
  | nil => rfl
  | append_singleton seq e ih =>
    rw [flushTs_concat, ih fun x hx => h x (List.mem_append_left _ hx), h e (by simp)]
    rcases List.eq_nil_or_concat seq with rfl | ⟨seq', x, rfl⟩
    · rfl
    · rw [if_pos]
      rw [List.concat_eq_append, List.getLast?_concat]
      exact congrArg some (h x (by simp))

def Sorted (seq : List (Item P)) : Prop := seq.Pairwise fun e e' => e.1 ≤ e'.1

lemma le_of_sorted (h : Sorted (seq ++ [e])) {x : Item P} (hx : x ∈ seq) : x.1 ≤ e.1 :=
  (List.pairwise_append.mp h).2.2 x hx e (List.mem_singleton_self e)

lemma le_getLast (h : Sorted seq) (hl : seq.getLast? = some p) {x : Item P} (hx : x ∈ seq) : x.1 ≤ p.1 := by
  rw [← List.dropLast_append_getLast? p hl] at h hx
  rcases List.mem_append.mp hx with hx | hx
  · exact le_of_sorted h hx
  · rw [List.mem_singleton.mp hx]

lemma sorted_split (h : Sorted seq) {a : ℤ} (hle : ∀ x ∈ seq, x.1 ≤ a) :
    seq = (seq.filter fun e => e.1 < a) ++ seq.filter fun e => e.1 = a := by
  induction seq with
  | nil => rfl
  | cons x seq ih =>
    obtain ⟨hx, hr⟩ := List.pairwise_cons.mp h
    have ht := ih hr fun y hy => hle y (List.mem_cons_of_mem x hy)
    rcases (hle x List.mem_cons_self).lt_or_eq with hlt | heq
    · rw [List.filter_cons_of_pos (by simpa using hlt), List.filter_cons_of_neg (by simpa using hlt.ne), List.cons_append,
        ← ht]
    · have hn : (seq.filter fun e => e.1 < a) = [] := by
        refine List.filter_eq_nil_iff.mpr fun y hy => ?_
        have hxy := hx y hy
        simp only [decide_eq_true_eq]
        omega
      rw [List.filter_cons_of_neg (by simpa using heq.ge), List.filter_cons_of_pos (by simpa using heq), hn, List.nil_append]
      rw [hn, List.nil_append] at ht
      rw [← ht]

lemma lastItems_append (hpos : 0 < period) (ws : List (Item P)) (hle : xs.length ≤ period) :
    ∃ ws', (∀ x ∈ ws', x ∈ ws) ∧ lastItems period (ws ++ xs) = ws' ++ xs := by
  refine ⟨ws.drop (ws.length + xs.length - period), fun x hx => List.mem_of_mem_drop hx, ?_⟩
  rw [lastItems, if_neg hpos.ne', List.length_append, List.drop_append_of_le_length (by omega)]

lemma fits_of_append {rest : List (Item P)} (hs : Sorted (seq ++ rest)) (h : Fits period (seq ++ rest)) :
    Fits period seq := by
  intro e he e' he' hlt hb
  have hbt := h e (List.mem_append_left rest he) e' (List.mem_append_left rest he') hlt fun x hx => by
    rcases List.mem_append.mp hx with hx | hx
    · exact hb x hx
    · exact .inr ((List.pairwise_append.mp hs).2.2 e' he' x hx)
  have hm : ∀ ts, (payloadsAt ts seq).length ≤ (payloadsAt ts (seq ++ rest)).length := fun ts => by
    simp [payloadsAt]
  have hm₁ := hm e.1
  have hm₂ := hm e'.1
  omega

lemma followed_eq (hs : Sorted seq) (hl : seq.getLast? = some p) :
    followed seq = (seq.filter fun e => e.1 < p.1).map Prod.snd := by
  unfold followed
  congr 1
  refine List.filter_congr fun e he => ?_
  rw [Bool.eq_iff_iff, List.any_eq_true]
  constructor
  · rintro ⟨e', he', hlt⟩
    have hle := le_getLast hs hl he'
    simp only [decide_eq_true_eq] at hlt ⊢
    omega
  · exact fun hlt => ⟨p, List.mem_of_getLast? hl, hlt⟩

lemma payloadsAt_append (ts : ℤ) (seq seq' : List (Item P)) :
    payloadsAt ts (seq ++ seq') = payloadsAt ts seq ++ payloadsAt ts seq' := by
  simp [payloadsAt]

lemma payloadsAt_eq_nil {ts : ℤ} (h : ∀ x ∈ seq, x.1 ≠ ts) : payloadsAt ts seq = [] := by
  rw [payloadsAt, List.filter_eq_nil_iff.mpr (by simpa using h), List.map_nil]

lemma length_payloadsAt_pos (h : e ∈ seq) : 0 < (payloadsAt e.1 seq).length := by
  rw [payloadsAt, List.length_map]
  exact List.length_pos_of_mem (List.mem_filter.mpr ⟨h, decide_eq_true rfl⟩)

lemma followed_concat (hs : Sorted (seq ++ [e])) :
    followed (seq ++ [e]) = (seq.filter fun x => x.1 < e.1).map Prod.snd := by
  rw [followed_eq hs List.getLast?_concat, List.filter_append]
  simp

lemma window_new (hpos : 0 < period) (hs : Sorted (seq ++ [e])) (hfits : Fits period (seq ++ [e]))
    (hl : seq.getLast? = some p) (hne : p.1 ≠ e.1) :
    compute (lastItems period (seq ++ [e])) = some (payloadsAt p.1 seq) ∧
      followed (seq ++ [e]) = followed seq ++ payloadsAt p.1 seq ∧ 0 < (payloadsAt p.1 seq).length := by
  have hp := List.mem_of_getLast? hl
  have hseq := hs.sublist (List.sublist_append_left seq [e])
  have hle : ∀ x ∈ seq, x.1 ≤ p.1 := fun x hx => le_getLast hseq hl hx
  have hlt : p.1 < e.1 := lt_of_le_of_ne (le_of_sorted hs hp) hne
  have hsp := sorted_split hseq hle
  have hw : (seq.filter fun x => x.1 = p.1).length + 1 ≤ period := by
    have hbt := hfits p (List.mem_append_left _ hp) e (by simp) hlt fun x hx => by
      rcases List.mem_append.mp hx with hx | hx
      · exact .inl (hle x hx)
      · rw [List.mem_singleton.mp hx]
        exact .inr le_rfl
    have hnew := length_payloadsAt_pos (List.mem_append_right seq (List.mem_singleton_self e))
    rw [payloadsAt_append, List.length_append, payloadsAt, List.length_map] at hbt
    omega
  refine ⟨?_, ?_, length_payloadsAt_pos hp⟩
  · obtain ⟨ws, hws, hit⟩ := lastItems_append hpos (seq.filter fun x => x.1 < p.1)
      (show ((seq.filter fun x => x.1 = p.1) ++ [e]).length ≤ period by simpa using hw)
    rw [← List.append_assoc, ← hsp] at hit
    have hb : payloadsAt p.1 ws = [] := payloadsAt_eq_nil fun x hx => by
      have hls := (List.mem_filter.mp (hws x hx)).2
      exact (of_decide_eq_true hls).ne
    have hf : flushTs (lastItems period (seq ++ [e])) = some p.1 := by
      rcases List.eq_nil_or_concat (seq.filter fun x => x.1 = p.1) with hnil | ⟨g, q, hg⟩
      · exact absurd hnil (List.ne_nil_of_mem (List.mem_filter.mpr ⟨hp, decide_eq_true rfl⟩))
      · rw [hit, hg, List.concat_eq_append, List.append_assoc, ← List.append_assoc, ← List.append_assoc]
        have hq : q.1 = p.1 := by
          have hmem : q ∈ seq.filter fun x => x.1 = p.1 := by simp [hg]
          exact of_decide_eq_true (List.mem_filter.mp hmem).2
        rw [← hq]
        exact flushTs_append (hq.trans_ne hne) (fun x hx => congrArg Prod.fst (List.mem_singleton.mp hx)) (List.cons_ne_nil _ _)
    rw [compute, hf, Option.map_some, hit, payloadsAt_append, payloadsAt_append, hb]
    simp [payloadsAt, Ne.symm hne]
  · rw [followed_concat hs, followed_eq hseq hl, payloadsAt, ← List.map_append, ← hsp,
      List.filter_eq_self.mpr fun x hx => decide_eq_true ((hle x hx).trans_lt hlt)]

lemma window_same (hpos : 0 < period) (hs : Sorted (seq ++ [e])) (hfits : Fits period (seq ++ [e]))
    (hl : seq.getLast? = some p) (heq : p.1 = e.1) : followed (seq ++ [e]) = followed seq ∧
      ((compute (lastItems period (seq ++ [e]))).toList.flatten = [] ↔ ∀ x ∈ seq, x.1 = e.1) := by
  have hseq := hs.sublist (List.sublist_append_left seq [e])
  have hle : ∀ x ∈ seq, x.1 ≤ e.1 := fun x hx => le_of_sorted hs hx
  refine ⟨by rw [followed_concat hs, followed_eq hseq hl, heq], ?_, fun hall => ?_⟩
  · intro hempty
    by_contra hother
    -- the last item of an earlier bucket is in the window
    obtain ⟨x, hx, hxe⟩ := not_forall₂.mp hother
    have hsp := sorted_split hseq hle
    rcases List.eq_nil_or_concat (seq.filter fun x => x.1 < e.1) with hnil | ⟨ws, q, hq⟩
    · exact List.filter_eq_nil_iff.mp hnil x hx (decide_eq_true (lt_of_le_of_ne (hle x hx) hxe))
    · rw [List.concat_eq_append] at hq
      have hmem : q ∈ seq.filter fun x => x.1 < e.1 := by simp [hq]
      obtain ⟨hqs, hlt⟩ := List.mem_filter.mp hmem
      have hlt' := of_decide_eq_true hlt
      have hbt := hfits q (List.mem_append_left _ hqs) e (by simp) hlt' fun x hx => by
        rcases List.mem_append.mp hx with hx | hx
        · by_cases her : x.1 < e.1
          · have hbf : x ∈ ws ++ [q] := hq ▸ List.mem_filter.mpr ⟨hx, decide_eq_true her⟩
            exact .inl (le_getLast (hq ▸ hseq.sublist List.filter_sublist) List.getLast?_concat hbf)
          · exact .inr (not_lt.mp her)
        · rw [List.mem_singleton.mp hx]
          exact .inr le_rfl
      have hone := length_payloadsAt_pos (List.mem_append_left [e] hqs)
      have hlength : (payloadsAt e.1 (seq ++ [e])).length = (seq.filter fun x => x.1 = e.1).length + 1 := by
        simp [payloadsAt]
      obtain ⟨ws', -, hit⟩ := lastItems_append hpos ws
        (show ([q] ++ ((seq.filter fun x => x.1 = e.1) ++ [e])).length ≤ period by
          rw [List.length_append, List.length_append, List.length_singleton, List.length_singleton]
          omega)
      rw [← List.append_assoc, ← List.append_assoc, ← hq, ← hsp, ← List.append_assoc] at hit
      have hf : flushTs (lastItems period (seq ++ [e])) = some q.1 := by
        rw [hit]
        refine flushTs_append hlt'.ne (fun x hx => ?_) (by simp)
        rcases List.mem_append.mp hx with hx | hx
        · exact of_decide_eq_true (List.mem_filter.mp hx).2
        · rw [List.mem_singleton.mp hx]
      have hb := length_payloadsAt_pos (show q ∈ lastItems period (seq ++ [e]) by simp [hit])
      rw [compute, hf, Option.map_some, Option.toList_some, List.flatten_singleton] at hempty
      rw [hempty] at hb
      exact absurd hb (lt_irrefl 0)
  · have hmem : ∀ x ∈ lastItems period (seq ++ [e]), x.1 = e.1 := fun x hx => by
      rcases List.mem_append.mp ((lastItems_sublist _ _).subset hx) with hx | hx
      · exact hall x hx
      · rw [List.mem_singleton.mp hx]
    rw [compute, flushTs_eq_none hmem]
    rfl

variable {u : String} {i : ℕ} {onMissing : OnMissing} {n : Node P period} {c : NodeCache P period}

/-- A node that has been fed a list of items. -/
structure Has (u : String) (i : ℕ) (n : Node P period) (seq : List (Item P)) : Prop where
  pairs : n.cache.SamePairs
  items : n.cache.itemsOf (u, i) = lastItems period seq
  last : n.cache.lastOf (u, i) = seq.getLast?.map Prod.fst
  others : ∀ other, other ≠ (u, i) → n.cache.buffers.get? other = none
  warmup : n.preWarmup = decide (seq.length < period)

lemma has_new (hpos : 0 < period) : Has u i (.new : Node P period) [] where
  pairs _ := rfl
  items := by
    rw [lastItems_of_length_le (Nat.zero_le _)]
    rfl
  last := rfl
  others _ _ := rfl
  warmup := (decide_eq_true hpos).symm

lemma ready_eq (hot : ∀ other, other ≠ (u, i) → c.buffers.get? other = none)
    (hs : (c.buffers.get? (u, i)).isSome) : c.ready = decide (period ≤ (c.itemsOf (u, i)).length) := by
  obtain ⟨buffer, hbf⟩ := Option.isSome_iff_exists.mp hs
  have hen := Dict.get?_eq_some.mp hbf
  have hn : c.buffers.entries.isEmpty = false := by
    rw [List.isEmpty_eq_false_iff]
    exact List.ne_nil_of_mem hen
  rw [NodeCache.itemsOf_of_get? hbf, RingBuffer.length_items, NodeCache.ready, hn, Bool.not_false, Bool.true_and,
    Bool.eq_iff_iff, List.all_eq_true, decide_eq_true_eq]
  constructor
  · intro hall
    simpa using hall buffer (List.mem_map_of_mem hen)
  · intro hf b hb
    obtain ⟨⟨pair, b'⟩, hmem, rfl⟩ := List.mem_map.mp hb
    have hget := Dict.get?_eq_some.mpr hmem
    by_cases hp : pair = (u, i)
    · rw [hp, hbf] at hget
      cases hget
      simpa using hf
    · rw [hot pair hp] at hget
      cases hget

lemma push_lastItems (hpos : 0 < period) (seq : List (Item P)) (e : Item P) :
    push period (lastItems period seq) e = lastItems period (seq ++ [e]) := by
  rw [push, length_lastItems hpos, lastItems, lastItems, if_neg hpos.ne', if_neg hpos.ne', List.length_append,
    List.length_singleton]
  rcases Nat.le_total seq.length period with hle | hle
  · rw [Nat.sub_eq_zero_of_le hle, List.drop_zero, min_eq_left hle]
  · rw [min_eq_right hle, ← List.drop_append_of_le_length (by omega), List.drop_drop]
    congr 1
    omega

/-- **One item** fed to a node: it is computed where its bucket is the next one and the node is warm. -/
theorem feedQueueData_eq (hpos : 0 < period) (hi : 0 < i) (h : Has u i n seq) (t : ℕ) (payload : P)
    (hs : Sorted (seq ++ [(bucketOf i t, payload)])) :
    Has u i (feedQueueData u i onMissing n (t, payload)) (seq ++ [(bucketOf i t, payload)]) ∧
    (feedQueueData u i onMissing n (t, payload)).emitted = n.emitted ++
      if (∀ last ∈ seq.getLast?, bucketOf i t = last.1 + i) ∧ period ≤ seq.length + 1 then
        (compute (lastItems period (seq ++ [(bucketOf i t, payload)]))).toList else [] := by
  obtain ⟨hwr, hp⟩ := NodeCache.append_written h.pairs u t payload hi.ne' hpos
  have hf := NodeCache.flagOf_append h.pairs u t payload hi.ne' hpos
  have hwt := @NodeCache.exists_watermark P period (n.cache.append u i t payload).state
  rw [h.last] at hf
  rw [h.items, h.last, push_lastItems hpos] at hwr
  generalize hcc : (n.cache.append u i t payload).state = c at hwr hp hf hwt
  generalize bucketOf i t = b at hs hwr hf ⊢
  have hle : ∀ last ∈ seq.getLast?, last.1 ≤ b := fun last hl => le_of_sorted hs (List.mem_of_getLast? hl)
  have hl : c.lastOf (u, i) = some b := by
    rw [hwr.last]
    cases hseq : seq.getLast? with
    | none => rfl
    | some last => exact congrArg some (max_eq_left (hle last hseq))
  have hot : ∀ other, other ≠ (u, i) → c.buffers.get? other = none := fun other hne =>
    (hwr.others other hne).1.trans (h.others other hne)
  have hr : c.ready = decide (period ≤ seq.length + 1) := by
    rw [ready_eq hot ((hp _).trans (NodeCache.isSome_of_lastOf hl)), hwr.items, length_lastItems hpos]
    simp
  have hwa : (n.preWarmup && !c.ready) = decide (seq.length + 1 < period) := by
    rw [h.warmup, hr]
    grind
  have hhas : ∀ emitted, Has u i (⟨c, n.preWarmup && !c.ready, emitted⟩ : Node P period) (seq ++ [(b, payload)]) := fun _ => {
    pairs := hp
    items := hwr.items
    last := by rw [hl, List.getLast?_concat, Option.map_some]
    others := hot
    warmup := by rw [hwa, List.length_append, List.length_singleton] }
  have hn : c.flagOf (u, i) = some true ↔ ¬∀ last ∈ seq.getLast?, b = last.1 + i := by
    rw [hf]
    cases hseq : seq.getLast? with
    | none => simp
    | some last => simp [hle last hseq]
  unfold feedQueueData feed
  simp only [hcc]
  by_cases hgap : c.flagOf (u, i) = some true
  · have hnn : ¬((∀ last ∈ seq.getLast?, b = last.1 + i) ∧ period ≤ seq.length + 1) := fun hc =>
      hn.mp hgap hc.1
    simp only [if_pos hgap, if_neg hnn, List.append_nil]
    cases onMissing
    · exact ⟨hhas _, rfl⟩
    · exact ⟨hhas _, rfl⟩
  · have hc : (∀ last ∈ seq.getLast?, b = last.1 + i) := not_not.mp (hn.not.mp hgap)
    obtain ⟨w, hw⟩ := hwt hl 0
    simp only [if_neg hgap, hw, Option.isSome_some, Bool.and_true, hwa] at hhas ⊢
    by_cases hfl : period ≤ seq.length + 1
    · simp only [decide_eq_false (not_lt.mpr hfl), Bool.not_false, if_true, if_pos (And.intro hc hfl), hwr.items]
        at hhas ⊢
      exact ⟨hhas _, trivial⟩
    · simp only [decide_eq_true (not_le.mp hfl), if_neg fun h => hfl (And.right h), List.append_nil] at hhas ⊢
      exact ⟨hhas _, rfl⟩

/-! ### What is emitted -/

def computed (period : ℕ) (seq : List (Item P)) : List (List P) :=
  seq.inits.filterMap fun window => compute (lastItems period window)

/-- A new bucket comes right after the last one, and not before the window is full. -/
def Prompt (period i : ℕ) (seq : List (Item P)) : Prop := ∀ before e after, seq = before ++ e :: after →
  ∀ last ∈ before.getLast?, last.1 ≠ e.1 → e.1 = last.1 + (i : ℤ) ∧ period ≤ before.length + 1

/-- A bucket with a second item is the first one. -/
def Alone (seq : List (Item P)) : Prop := ∀ before e after, seq = before ++ e :: after →
  ∀ last ∈ before.getLast?, last.1 = e.1 → ∀ x ∈ before, x.1 = e.1

lemma computed_concat (seq : List (Item P)) (e : Item P) : computed period (seq ++ [e]) =
    computed period seq ++ (compute (lastItems period (seq ++ [e]))).toList := by
  unfold computed
  rw [List.inits_append, List.filterMap_append]
  congr 1

lemma compute_first (e : Item P) : compute (lastItems period [e]) = none := by
  have hmem : ∀ x ∈ lastItems period [e], x.1 = e.1 := fun x hx => by
    rw [List.mem_singleton.mp ((lastItems_sublist _ _).subset hx)]
  rw [compute, flushTs_eq_none hmem, Option.map_none]

lemma followed_first (e : Item P) : followed [e] = [] := by
  simp [followed]

lemma computed_iff (hpos : 0 < period) (hs : Sorted seq) (hfits : Fits period seq) :
    ((computed period seq).flatten = followed seq ↔ Alone seq) ∧
      (followed seq).length ≤ (computed period seq).flatten.length := by
  induction seq using List.reverseRecOn with
  | nil =>
    have hnil : computed period ([] : List (Item P)) = [] := by
      simp [computed, lastItems_of_length_le, compute, flushTs, distinct]
    rw [hnil]
    exact ⟨iff_of_true rfl fun before e after h => absurd h.symm (by simp), Nat.zero_le _⟩
  | append_singleton seq e ih =>
    obtain ⟨hiff, hlen⟩ := ih (hs.sublist (List.sublist_append_left seq [e])) (fits_of_append hs hfits)
    have hcn : Alone (seq ++ [e]) ↔ Alone seq ∧ ∀ last ∈ seq.getLast?, last.1 = e.1 → ∀ x ∈ seq, x.1 = e.1 :=
      forall_split_concat
    rw [computed_concat, List.flatten_append, hcn]
    cases hls : seq.getLast? with
    | none =>
      obtain rfl := List.getLast?_eq_none_iff.mp hls
      rw [List.nil_append, compute_first, Option.toList_none, List.flatten_nil, List.append_nil, followed_first]
      exact ⟨hiff.trans (and_iff_left fun _ h => absurd h (Option.not_mem_none _)).symm, Nat.zero_le _⟩
    | some p =>
      by_cases heq : p.1 = e.1
      · obtain ⟨hf, hempty⟩ := window_same hpos hs hfits hls heq
        rw [hf, List.length_append]
        refine ⟨?_, by omega⟩
        by_cases hall : ∀ x ∈ seq, x.1 = e.1
        · rw [hempty.mpr hall, List.append_nil, hiff]
          exact (and_iff_left fun _ _ _ => hall).symm
        · -- the batch of the bucket before is emitted again
          refine iff_of_false (fun h => ?_) fun h => hall (h.2 p rfl heq)
          have hm := congrArg List.length h
          rw [List.length_append] at hm
          exact hall (hempty.mp (List.eq_nil_of_length_eq_zero (by omega)))
      · obtain ⟨hc, hf, -⟩ := window_new hpos hs hfits hls heq
        rw [hc, hf, Option.toList_some, List.flatten_singleton, List.append_left_inj, hiff, List.length_append,
          List.length_append]
        refine ⟨(and_iff_left fun last hl h => ?_).symm, by omega⟩
        cases hl
        exact absurd h heq

lemma fed_iff (hpos : 0 < period) (hi : 0 < i) {items : List (ℕ × P)} (hs : Sorted (bucketed i items))
    (hfits : Fits period (bucketed i items)) : Has u i (fed u i onMissing items : Node P period) (bucketed i items) ∧
      ((fed u i onMissing items : Node P period).emitted.flatten = followed (bucketed i items) ↔
        Prompt period i (bucketed i items)) ∧
      (fed u i onMissing items : Node P period).emitted.flatten.length ≤ (followed (bucketed i items)).length := by
  induction items using List.reverseRecOn with
  | nil => exact ⟨has_new hpos, iff_of_true rfl fun before e after h => absurd h.symm (by simp [bucketed]), le_rfl⟩
  | append_singleton items e ih =>
    have hsn : bucketed i (items ++ [e]) = bucketed i items ++ [(bucketOf i e.1, e.2)] := by simp [bucketed]
    rw [hsn] at hs hfits ⊢
    obtain ⟨hhas, hiff, hlen⟩ := ih (hs.sublist (List.sublist_append_left _ _)) (fits_of_append hs hfits)
    obtain ⟨hh', hem⟩ := @feedQueueData_eq _ _ _ _ _ onMissing _ hpos hi hhas e.1 e.2 hs
    rw [fed, List.foldl_append, ← fed, List.foldl_cons, List.foldl_nil, hem]
    generalize bucketed i items = seq at *
    generalize hb : bucketOf i e.1 = b at *
    refine ⟨hh', ?_⟩
    have hcn : Prompt period i (seq ++ [(b, e.2)]) ↔ Prompt period i seq ∧ ∀ last ∈ seq.getLast?, last.1 ≠ b →
        b = last.1 + (i : ℤ) ∧ period ≤ seq.length + 1 := forall_split_concat
    rw [List.flatten_append, hcn]
    cases hls : seq.getLast? with
    | none =>
      obtain rfl := List.getLast?_eq_none_iff.mp hls
      rw [List.nil_append, compute_first, Option.toList_none, ite_self, List.flatten_nil, List.append_nil, followed_first]
      exact ⟨hiff.trans (and_iff_left fun _ h => absurd h (Option.not_mem_none _)).symm, hlen⟩
    | some p =>
      by_cases heq : p.1 = b
      · have hnn : ¬((∀ last ∈ some p, b = last.1 + i) ∧ period ≤ seq.length + 1) := fun h => by
          have hn := h.1 p rfl
          omega
        rw [if_neg hnn, List.flatten_nil, List.append_nil, (window_same hpos hs hfits hls heq).1]
        refine ⟨hiff.trans (and_iff_left fun last hl h => ?_).symm, hlen⟩
        cases hl
        exact absurd heq h
      · obtain ⟨hcm, hf, hbt⟩ := window_new hpos hs hfits hls heq
        rw [hcm, hf, Option.toList_some]
        split
        · rename_i hc
          rw [List.flatten_singleton, List.append_left_inj, hiff, List.length_append, List.length_append]
          exact ⟨(and_iff_left fun last hl _ => ⟨hc.1 last hl, hc.2⟩).symm, by omega⟩
        · rename_i hc
          rw [List.flatten_nil, List.append_nil, List.length_append]
          refine ⟨iff_of_false (fun h => ?_) fun h => hc ?_, by omega⟩
          · have hle := congrArg List.length h
            rw [List.length_append] at hle
            omega
          · obtain ⟨hn, hw⟩ := h.2 p rfl heq
            refine ⟨fun last hl => ?_, hw⟩
            cases hl
            exact hn

lemma bucketOf_mono {t t' : ℤ} (hi : 0 < i) (h : t ≤ t') : bucketOf i t ≤ bucketOf i t' := by
  have hmul : ∀ t : ℤ, bucketOf i t = i * (t / i) := fun t => by
    unfold bucketOf
    rw [Int.emod_def, sub_sub_cancel]
  rw [hmul, hmul]
  exact mul_le_mul_of_nonneg_left (Int.ediv_le_ediv (by omega) h) (by omega)

/-- **Each item is emitted exactly once** where every bucket follows the one before it directly and the node is warm when it
begins; and by a node that is computed after every item, where every bucket but the first has one item. -/
theorem micro_batches_iff (u : String) (onMissing : OnMissing) (hpos : 0 < period) (hi : 0 < i) (items : List (ℕ × P))
    (hsorted : items.Pairwise fun e e' => e.1 ≤ e'.1) (hfits : Fits period (bucketed i items)) :
    ((fed u i onMissing items : Node P period).emitted.flatten = followed (bucketed i items) ↔
      Prompt period i (bucketed i items)) ∧
    ((computed period (bucketed i items)).flatten = followed (bucketed i items) ↔ Alone (bucketed i items)) := by
  have hbuckets : Sorted (bucketed i items) :=
    List.pairwise_map.mpr (hsorted.imp fun h => bucketOf_mono hi (by exact_mod_cast h))
  exact ⟨(fed_iff hpos hi hbuckets hfits).2.1, (computed_iff hpos hbuckets hfits).1⟩

theorem micro_batches_iff_four : ¬Prompt 4 1 (bucketed 1 [(0, "a"), (1, "b"), (2, "c")]) := by
  have hiff := (@micro_batches_iff String 4 1 "orders" .skip (by decide) (by decide) [(0, "a"), (1, "b"), (2, "c")]
    (by decide) (by unfold Fits; decide +kernel)).1
  rw [← hiff]
  decide +kernel

/-- **Items are lost**: three in successive buckets, fed to a node of period 4, and the batches of the first two never come.
**Items are repeated** by a node that is computed after each of them: the batch of a bucket comes with both items of the
next one. -/
theorem items_lost_and_repeated : ([(0, "a"), (1, "b"), (2, "c")].Pairwise fun e e' : ℕ × String => e.1 ≤ e'.1) ∧
    Fits 4 (bucketed 1 [(0, "a"), (1, "b"), (2, "c")]) ∧
    (fed "orders" 1 .skip [(0, "a"), (1, "b"), (2, "c")] : Node String 4).emitted = [] ∧
    followed (bucketed 1 [(0, "a"), (1, "b"), (2, "c")]) = ["a", "b"] ∧
    Fits 4 (bucketed 1 [(0, "a"), (1, "b"), (1, "c")]) ∧
    computed 4 (bucketed 1 [(0, "a"), (1, "b"), (1, "c")]) = [["a"], ["a"]] ∧
    followed (bucketed 1 [(0, "a"), (1, "b"), (1, "c")]) = ["a"] := by
  unfold Fits
  decide +kernel

end Qmtl.Runtime.MicroBatch

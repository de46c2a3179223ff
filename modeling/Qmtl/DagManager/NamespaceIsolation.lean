import Qmtl.Gateway.TopicAgreement

/-! What the topic namespaces keep apart: the pairs of a world and a domain whose segments are different once they are
sanitised. -/

namespace Qmtl.DagManager

open Lib Gateway

/-! ### Segments -/

section Segments

variable {u : Unicode}

def AlnumNotSpace (u : Unicode) : Prop := ∀ c, u.alnum c = true → isSpace c = false

variable {d : Char} {p : Char → Bool} {s : String}

lemma rdropWhile_cons (hd : p d = false) (ds : List Char) : ∃ ds', (d :: ds).rdropWhile p = d :: ds' := by
  have hne : (d :: ds).rdropWhile p ≠ [] := by
    rw [ne_eq, List.rdropWhile_eq_nil_iff]
    intro hall
    have hp := hall d (.head _)
    rw [hd] at hp
    cases hp
  obtain ⟨rest, hr⟩ := List.rdropWhile_prefix p (d :: ds)
  obtain ⟨x, xs, hx⟩ := List.exists_cons_of_ne_nil hne
  rw [hx, List.cons_append, List.cons.injEq] at hr
  exact ⟨xs, by rw [hx, hr.1]⟩

lemma mem_of_mem_stripChars {l : List Char} {c : Char} (h : c ∈ stripChars p l) : c ∈ l :=
  (List.dropWhile_sublist _).subset ((List.rdropWhile_prefix _ _).subset h)

lemma not_mem_sanitizeChar (c : Char) : '.' ∉ sanitizeChar u c := by
  unfold sanitizeChar
  split
  · rename_i h
    exact u.lowerNoDot c h
  · split
    · rename_i h
      intro hdot
      obtain rfl := List.mem_singleton.mp hdot
      revert h
      decide
    · decide

lemma dot_not_mem_sanitizeSegment (s : String) : '.' ∉ (sanitizeSegment u s).toList := by
  unfold sanitizeSegment
  rw [String.toList_ofList]
  intro hdot
  obtain ⟨c, -, hc⟩ := List.mem_flatMap.mp (mem_of_mem_stripChars hdot)
  exact not_mem_sanitizeChar c hc

lemma not_trimmed (h : u.alnum d) : (d = '-' || d = '_') = false := by
  have hne : ∀ c : Char, c.toNat < 128 → c.isAlphanum = false → d ≠ c := by
    rintro c hc hal rfl
    rw [u.onAscii d hc, hal] at h
    cases h
  simp [hne '-' (by decide) (by decide), hne '_' (by decide) (by decide)]

lemma sanitizeSegment_head (h : sanitizeSegment u s ≠ "") :
    ∃ d ds, (sanitizeSegment u s).toList = d :: ds ∧ u.alnum d := by
  have hdr : ∀ cs : List Char, (cs.flatMap (sanitizeChar u)).dropWhile (fun c => c = '-' || c = '_') = [] ∨
      ∃ d ds, (cs.flatMap (sanitizeChar u)).dropWhile (fun c => c = '-' || c = '_') = d :: ds ∧ u.alnum d := by
    intro cs
    induction cs with
    | nil => exact .inl rfl
    | cons c cs ih =>
      rw [List.flatMap_cons]
      unfold sanitizeChar
      split
      · rename_i hc
        obtain ⟨d, ds, hd, hal⟩ := u.lowerAlnum c hc
        rw [hd, List.cons_append, List.dropWhile_cons, if_neg (by rw [not_trimmed hal]; decide)]
        exact .inr ⟨d, _, rfl, hal⟩
      · split
        · rename_i hc
          rw [List.singleton_append, List.dropWhile_cons, if_pos hc]
          exact ih
        · rw [List.singleton_append, List.dropWhile_cons, if_pos (by decide)]
          exact ih
  unfold sanitizeSegment at h ⊢
  rw [String.toList_ofList]
  unfold stripChars at h ⊢
  rcases hdr (strip s).toList with h0 | ⟨d, ds, hd, hal⟩
  · rw [h0] at h
    exact absurd rfl h
  · rw [hd]
    obtain ⟨ds', h'⟩ := rdropWhile_cons (p := fun c => c = '-' || c = '_') (not_trimmed hal) ds
    exact ⟨d, ds', h', hal⟩

lemma sanitizeSegment_ne (hsp : AlnumNotSpace u) {ds : List Char} (hs : s.toList = d :: ds) (hd : u.alnum d) :
    sanitizeSegment u s ≠ "" := by
  have hf : (d :: ds).dropWhile isSpace = d :: ds := by
    rw [List.dropWhile_cons, if_neg (by rw [hsp d hd]; decide)]
  obtain ⟨es, hes⟩ := rdropWhile_cons (hsp d hd) ds
  obtain ⟨e, es', he, hal⟩ := u.lowerAlnum d hd
  have hfirst : sanitizeChar u d = e :: es' := by
    unfold sanitizeChar
    rw [if_pos hd, he]
  obtain ⟨rest, hr⟩ := rdropWhile_cons (p := fun c => c = '-' || c = '_') (not_trimmed hal) (es' ++ es.flatMap (sanitizeChar u))
  unfold sanitizeSegment strip stripChars
  rw [String.toList_ofList, hs, hf, hes, List.flatMap_cons, hfirst, List.cons_append, List.dropWhile_cons,
    if_neg (by rw [not_trimmed hal]; decide), hr]
  intro h0
  have hlist := congrArg String.toList h0
  rw [String.toList_ofList] at hlist
  cases hlist

lemma sanitizeSegment_twice_ne (hsp : AlnumNotSpace u) (h : sanitizeSegment u s ≠ "") :
    sanitizeSegment u (sanitizeSegment u s) ≠ "" := by
  obtain ⟨d, ds, hs, hd⟩ := sanitizeSegment_head h
  exact sanitizeSegment_ne hsp hs hd

def segmentsPrefix (world domain : String) : String := world ++ "." ++ domain ++ "."

lemma splitAt_two {a b : String} (ha : '.' ∉ a.toList) (hb : '.' ∉ b.toList) :
    Lib.splitAt (· = '.') (a ++ "." ++ b) = [a, b] := by
  have hnot : ∀ {s : String}, '.' ∉ s.toList → ∀ c ∈ s.toList, decide (c = '.') = false := by
    rintro s hs c hc
    exact decide_eq_false fun h => hs (h ▸ hc)
  unfold Lib.splitAt
  rw [String.toList_append, String.toList_append, List.append_assoc]
  show (List.splitOnP _ (a.toList ++ '.' :: b.toList)).map String.ofList = _
  rw [List.splitOnP_append_cons_of_forall_mem (hnot ha) '.' (by decide), List.splitOnP_eq_singleton (hnot hb)]
  simp

lemma namespacePrefix_built (hs : AlnumNotSpace u) {world domain ns : String}
    (h : buildNamespace u (.str world) (.str domain) = some ns) :
    namespacePrefix u (some ns) = some (segmentsPrefix (sanitizeSegment u (sanitizeSegment u world))
      (sanitizeSegment u (sanitizeSegment u domain))) := by
  unfold buildNamespace sanitizeNamespaceSegment at h
  dsimp only at h
  split at h
  · cases h
  · rename_i hne
    obtain rfl := Option.some.inj h
    obtain ⟨hw, hd⟩ := not_or.mp hne
    have hw2 := sanitizeSegment_twice_ne hs hw
    have hd2 := sanitizeSegment_twice_ne hs hd
    unfold namespacePrefix sanitizeNamespace
    rw [Option.bind_some, splitAt_two (dot_not_mem_sanitizeSegment world) (dot_not_mem_sanitizeSegment domain)]
    simp only [List.map_cons, List.map_nil, List.filter_cons, hw2, hd2, ne_eq, not_false_eq_true, decide_true, if_true,
      List.filter_nil, List.cons_ne_nil, if_false, Option.map_some]
    rfl

lemma segments_unique {a b a' b' topic : String} (ha : '.' ∉ a.toList) (hb : '.' ∉ b.toList) (ha' : '.' ∉ a'.toList)
    (hb' : '.' ∉ b'.toList) (h : startsWith (segmentsPrefix a b) topic)
    (h' : startsWith (segmentsPrefix a' b') topic) : a = a' ∧ b = b' := by
  have hcut : ∀ {x y r : String}, (segmentsPrefix x y ++ r).toList = x.toList ++ '.' :: (y.toList ++ '.' :: r.toList) := by
    intro x y r
    simp only [segmentsPrefix, String.toList_append, List.append_assoc]
    rfl
  obtain ⟨r, rfl⟩ := startsWith_iff.mp h
  obtain ⟨r', hr⟩ := startsWith_iff.mp h'
  have hlist := congrArg String.toList hr
  rw [hcut, hcut] at hlist
  obtain ⟨h1, h2⟩ := cut_inj ha ha' hlist
  obtain ⟨h3, -⟩ := cut_inj hb hb' h2
  exact ⟨String.toList_injective h1, String.toList_injective h3⟩

/-- What an ASCII text is sanitised to: letters and digits in lower case, hyphens and underscores. -/
structure Plain (u : Unicode) (c : Char) : Prop where
  kept : sanitizeChar u c = [c]
  notSpace : isSpace c = false

lemma plain_of_ascii {c : Char} (hc : c.toNat < 128) (hd : d ∈ sanitizeChar u c) : Plain u d := by
  have hch : ∀ n < 128, isSpace (Char.ofNat n).toLower → (Char.ofNat n).isAlphanum = false := by
    decide +kernel
  have hlower : ∀ n < 128, (Char.ofNat n).isAlphanum → (Char.ofNat n).toLower.toNat < 128 ∧
      (Char.ofNat n).toLower.isAlphanum ∧ (Char.ofNat n).toLower.toLower = (Char.ofNat n).toLower := by
    decide +kernel
  have hh : ∀ e : Char, (e = '-' ∨ e = '_') → Plain u e := by
    rintro e (rfl | rfl)
    · exact ⟨by rw [sanitizeChar, u.onAscii '-' (by decide)]; rfl, by decide⟩
    · exact ⟨by rw [sanitizeChar, u.onAscii '_' (by decide)]; rfl, by decide⟩
  have hsl := Char.ofNat_toNat c
  unfold sanitizeChar at hd
  split at hd
  · rename_i hal
    rw [u.onAscii c hc] at hal
    obtain ⟨hasc, hlow, hid⟩ := hlower c.toNat hc (by rw [hsl]; exact hal)
    have hsp := mt (hch c.toNat hc)
    rw [hsl] at hasc hlow hid hsp
    have hs : ∀ e : Char, e.toNat < 128 → (u.lower.fn (String.ofList [e])).toList = [e.toLower] := by
      intro e he
      rw [u.lower.onAscii _ (by simpa using he)]
      simp
    rw [hs c hc, List.mem_singleton] at hd
    subst hd
    refine ⟨?_, Bool.eq_false_iff.mpr (hsp (by rw [hal]; decide))⟩
    unfold sanitizeChar
    rw [if_pos (by rw [u.onAscii _ hasc]; exact hlow), hs _ hasc, hid]
  · split at hd
    · rename_i h
      obtain rfl := List.mem_singleton.mp hd
      exact hh d (by simpa using h)
    · exact hh d (.inl (List.mem_singleton.mp hd))

lemma stripChars_idem (p : Char → Bool) (l : List Char) : stripChars p (stripChars p l) = stripChars p l := by
  unfold stripChars
  cases h : l.dropWhile p with
  | nil => simp
  | cons d ds =>
    have hd : p d = false := by
      have hnot := List.dropWhile_get_zero_not p l (by rw [h]; simp)
      simpa [h] using hnot
    obtain ⟨ds', hds⟩ := rdropWhile_cons hd ds
    have hk : (d :: ds').dropWhile p = d :: ds' := by
      rw [List.dropWhile_cons, if_neg (by rw [hd]; decide)]
    rw [hds, hk, ← hds, List.rdropWhile_idempotent]

lemma stripChars_of_forall {l : List Char} (h : ∀ c ∈ l, p c = false) : stripChars p l = l := by
  have hd : l.dropWhile p = l := by
    cases l with
    | nil => rfl
    | cons c cs => rw [List.dropWhile_cons, if_neg (by rw [h c (.head _)]; decide)]
  unfold stripChars
  rw [hd, List.rdropWhile_eq_self_iff]
  intro hne hl
  rw [h _ (List.getLast_mem hne)] at hl
  cases hl

lemma sanitizeSegment_ascii (h : ∀ c ∈ s.toList, c.toNat < 128) :
    sanitizeSegment u (sanitizeSegment u s) = sanitizeSegment u s := by
  have hplain : ∀ d ∈ (sanitizeSegment u s).toList, Plain u d := by
    intro d hd
    unfold sanitizeSegment at hd
    rw [String.toList_ofList] at hd
    obtain ⟨c, hc, hd⟩ := List.mem_flatMap.mp (mem_of_mem_stripChars hd)
    unfold strip at hc
    rw [String.toList_ofList] at hc
    exact plain_of_ascii (h c (mem_of_mem_stripChars hc)) hd
  have hs : strip (sanitizeSegment u s) = sanitizeSegment u s := by
    refine String.toList_injective ?_
    unfold strip
    rw [String.toList_ofList]
    exact stripChars_of_forall fun d hd => (hplain d hd).notSpace
  have hf : ∀ l : List Char, (∀ d ∈ l, Plain u d) → l.flatMap (sanitizeChar u) = l := by
    intro l hl
    induction l with
    | nil => rfl
    | cons d l ih =>
      rw [List.flatMap_cons, (hl d (.head _)).kept, ih fun e he => hl e (.tail _ he)]
      rfl
  refine String.toList_injective ?_
  rw [sanitizeSegment, String.toList_ofList, hs, hf _ hplain]
  unfold sanitizeSegment
  rw [String.toList_ofList, stripChars_idem]

end Segments

/-! ### Topics -/

def segmentsOf (u : Unicode) (world domain : String) : String × String :=
  (sanitizeSegment u (sanitizeSegment u world), sanitizeSegment u (sanitizeSegment u domain))

def prefixOf (u : Unicode) (world domain : String) : String :=
  segmentsPrefix (segmentsOf u world domain).1 (segmentsOf u world domain).2

structure Upserts (u : Unicode) (b : Broker) (t : TopicSpec) (world domain name : String) : Prop where
  built : ∃ ns, buildNamespace u (.str world) (.str domain) = some ns ∧ t.ns = some ns
  returned : ∃ b', b.upsert u t = .ok (name, b')

/-- A topic of the earlier naming scheme, outside of the namespace, that was there already. -/
structure OldTopic (u : Unicode) (b : Broker) (t : TopicSpec) (world domain name : String) : Prop where
  base : name ∈ t.legacyBases
  taken : name ∈ b.topics.keys
  outside : startsWith (prefixOf u world domain) name = false

variable {u : Unicode}

variable {t : TopicSpec}

lemma Upserts.prefixed (hsp : AlnumNotSpace u) {b : Broker} {world domain name : String}
    (h : Upserts u b t world domain name) :
    startsWith (prefixOf u world domain) name ∨ OldTopic u b t world domain name := by
  obtain ⟨ns, hns, ht⟩ := h.built
  obtain ⟨b', hb'⟩ := h.returned
  have hpre : namespacePrefix u t.ns = some (prefixOf u world domain) := by
    rw [ht]
    exact namespacePrefix_built hsp hns
  cases hs : startsWith (prefixOf u world domain) name with
  | true => exact .inl rfl
  | false =>
    rcases topicName_prefixed hpre (Broker.upsert_ok.mp hb').1 with hyes | ⟨hb, htk⟩
    · rw [hs] at hyes
      cases hyes
    · exact .inr ⟨hb, htk, hs⟩

lemma topicName_fresh {taken : List String} {name : String} (hl : t.legacyMatch u taken = none)
    (h : topicName u t taken = .ok name) : name ∉ taken := by
  intro hmem
  rw [legacyMatch_of_taken h hmem] at hl
  cases hl

/-- **Namespaces isolate what sanitising keeps apart**: a topic has the prefix of its world and domain or is an old one,
topics of two pairs with different segments are different unless one is old, a name that no code hash has found is new,
and for ASCII worlds and domains the prefix is the namespace that was built. -/
theorem topics_isolated (u : Unicode) (hspace : AlnumNotSpace u) :
    (∀ b t world domain name, Upserts u b t world domain name →
      startsWith (prefixOf u world domain) name = true ∨ OldTopic u b t world domain name) ∧
    (∀ b t world domain name b' t' world' domain' name', Upserts u b t world domain name →
      Upserts u b' t' world' domain' name' → segmentsOf u world domain ≠ segmentsOf u world' domain' →
      ¬ OldTopic u b t world domain name → ¬ OldTopic u b' t' world' domain' name' → name ≠ name') ∧
    (∀ t taken name, TopicSpec.legacyMatch u t taken = none → topicName u t taken = .ok name → name ∉ taken) ∧
    ∀ world domain ns, (∀ c ∈ world.toList, c.toNat < 128) → (∀ c ∈ domain.toList, c.toNat < 128) →
      buildNamespace u (.str world) (.str domain) = some ns → prefixOf u world domain = ns ++ "." := by
  refine ⟨fun b t world domain name h => h.prefixed hspace, ?_, fun t taken name => topicName_fresh, ?_⟩
  · rintro b t world domain name b' t' world' domain' name' h h' hne hold hold' rfl
    have hpre := (h.prefixed hspace).resolve_right hold
    have hpre' := (h'.prefixed hspace).resolve_right hold'
    obtain ⟨hw, hd⟩ := segments_unique (dot_not_mem_sanitizeSegment _) (dot_not_mem_sanitizeSegment _)
      (dot_not_mem_sanitizeSegment _) (dot_not_mem_sanitizeSegment _) hpre hpre'
    exact hne (Prod.ext hw hd)
  · intro world domain ns hw hd h
    unfold buildNamespace sanitizeNamespaceSegment at h
    dsimp only at h
    split at h
    · cases h
    · obtain rfl := Option.some.inj h
      unfold prefixOf segmentsOf segmentsPrefix
      rw [sanitizeSegment_ascii hw, sanitizeSegment_ascii hd]

/-! ### Topics that are not kept apart -/

lemma alnumNotSpace_ascii : AlnumNotSpace Unicode.ascii := by
  intro c hc
  have hch : ∀ n < 128, (Char.ofNat n).isAlphanum → isSpace (Char.ofNat n) = false := by decide +kernel
  have hcs : (decide (c.val ≥ 65 ∧ c.val ≤ 90) || (decide (c.val ≥ 97) && decide (c.val ≤ 122)) ||
    (decide (c.val ≥ 48) && decide (c.val ≤ 57))) := hc
  have hasc : c.val.toNat < 128 := by
    simp only [Bool.or_eq_true, Bool.and_eq_true, decide_eq_true_eq, ge_iff_le, UInt32.le_iff_toNat_le] at hcs
    have h90 : (90 : UInt32).toNat = 90 := rfl
    have h122 : (122 : UInt32).toNat = 122 := rfl
    have h57 : (57 : UInt32).toNat = 57 := rfl
    omega
  have h := hch c.toNat hasc
  rw [Char.ofNat_toNat] at h
  exact h hc

def sampleSpec (ns : String) : TopicSpec where
  asset := "btc"
  nodeType := "Indicator"
  nodeId := "blake3:0f1e2d3c4b5a6978"
  version := "v1"
  legacyCodeHash := "c0de01"
  dryRun := false
  ns := some ns

def oldName : String := "btc_Indicator_c0de01_v1"

def emptyBroker : Broker := ⟨.empty, false⟩

def oldBroker : Broker := ⟨Dict.ofList [(oldName, ⟨some 1, some 2, some 2592000000, some ["delete"]⟩)], false⟩

lemma upserts_of_toOption {u : Unicode} {b : Broker} {world domain name : String} (ns : String)
    (hns : buildNamespace u (.str world) (.str domain) = some ns) (ht : t.ns = some ns)
    (h : (b.upsert u t).toOption.any (fun r => r.1 = name)) : Upserts u b t world domain name := by
  obtain ⟨⟨found, b'⟩, hok, hn⟩ := exists_ok _ h
  obtain rfl : found = name := of_decide_eq_true hn
  exact ⟨⟨ns, hns, ht⟩, b', hok⟩

/-- A topic outside of the namespace, and one topic of two worlds. -/
theorem topics_not_isolated : (Upserts Unicode.ascii oldBroker (sampleSpec "w1.live") "w1" "live" oldName ∧
      startsWith "w1.live" oldName = false) ∧ ("W1" ≠ "w1" ∧
      Upserts Unicode.ascii emptyBroker (sampleSpec "w1.live") "W1" "live" "w1.live.btc_Indicator_0f1e2d3c_v1" ∧
      Upserts Unicode.ascii emptyBroker (sampleSpec "w1.live") "w1" "live" "w1.live.btc_Indicator_0f1e2d3c_v1") := by
  refine ⟨⟨upserts_of_toOption "w1.live" ?_ rfl ?_, ?_⟩, ?_, upserts_of_toOption "w1.live" ?_ rfl ?_,
    upserts_of_toOption "w1.live" ?_ rfl ?_⟩
  all_goals decide +kernel

/-- Two worlds whose topics are kept apart. -/
theorem topics_of_two_worlds :
    Upserts Unicode.ascii emptyBroker (sampleSpec "w1.live") "w1" "live" "w1.live.btc_Indicator_0f1e2d3c_v1" ∧
      Upserts Unicode.ascii emptyBroker (sampleSpec "w2.live") "w2" "live" "w2.live.btc_Indicator_0f1e2d3c_v1" ∧
      "w1.live.btc_Indicator_0f1e2d3c_v1" ≠ "w2.live.btc_Indicator_0f1e2d3c_v1" := by
  have hupsert : Upserts Unicode.ascii emptyBroker (sampleSpec "w1.live") "w1" "live"
      "w1.live.btc_Indicator_0f1e2d3c_v1" := by
    refine upserts_of_toOption "w1.live" ?_ rfl ?_
    all_goals decide +kernel
  have hupsert' : Upserts Unicode.ascii emptyBroker (sampleSpec "w2.live") "w2" "live"
      "w2.live.btc_Indicator_0f1e2d3c_v1" := by
    refine upserts_of_toOption "w2.live" ?_ rfl ?_
    all_goals decide +kernel
  refine ⟨hupsert, hupsert', (topics_isolated Unicode.ascii alnumNotSpace_ascii).2.1 _ _ _ _ _ _ _ _ _ _
    hupsert hupsert' (by decide +kernel) ?_ ?_⟩
  all_goals exact fun h => absurd h.taken List.not_mem_nil

end Qmtl.DagManager

import SchemaModules.Proofs.Checked

/-!
# Proofs: what blanking out keeps

Blanking out keeps the length of a text, its line feeds and every byte outside the spans, wherever the
spans can be cut out of the text in turn. Those of the aliases of a source can.
-/

namespace SchemaModules

open Text Lexical Declaration

/-! ## The bytes of a text -/

namespace Text

/-- The UTF-8 form of a text. -/
def bytes (cs : List Char) : List UInt8 := cs.flatMap String.utf8EncodeChar

/-- The byte of a line feed. -/
def feedByte : UInt8 := 10

@[simp] theorem bytes_append (xs ys : List Char) : bytes (xs ++ ys) = bytes xs ++ bytes ys :=
  List.flatMap_append

@[simp] theorem bytes_singleton (c : Char) : bytes [c] = String.utf8EncodeChar c :=
  List.flatMap_singleton ..

@[simp] theorem length_bytes (cs : List Char) : (bytes cs).length = byteLength cs := by
  induction cs with
  | nil => rfl
  | cons c cs ih =>
    rw [← List.singleton_append, bytes_append, List.length_append, ih, bytes_singleton,
      String.length_utf8EncodeChar]
    rfl

/-- Among the bytes of a character there is that of a line feed only if it is a line feed. -/
theorem eq_of_feedByte_mem {c : Char} (h : feedByte ∈ String.utf8EncodeChar c) : c = '\n' := by
  have hbyte : ∀ n : Nat, feedByte = UInt8.ofNat n → n % 256 = 10 := by
    intro n hn
    have hnat := congrArg UInt8.toNat hn
    rw [UInt8.toNat_ofNat'] at hnat
    exact hnat.symm
  simp only [String.utf8EncodeChar] at h
  split at h
  · have hval := hbyte _ (List.mem_singleton.mp h)
    have hfeed : c.val.toNat = 10 := by omega
    exact Char.ext (UInt32.toNat_inj.mp hfeed)
  · -- the bytes of a longer character have their highest bit set
    exfalso
    split at h
    · simp only [List.mem_cons, List.not_mem_nil, or_false] at h
      rcases h with h | h <;> have := hbyte _ h <;> omega
    split at h
    · simp only [List.mem_cons, List.not_mem_nil, or_false] at h
      rcases h with h | h | h <;> have := hbyte _ h <;> omega
    · simp only [List.mem_cons, List.not_mem_nil, or_false] at h
      rcases h with h | h | h | h <;> have := hbyte _ h <;> omega

end Text

namespace Catalog

/-! ## Blanking out byte by byte -/

/-- Byte by byte, `copy` is the text `cs`, which starts at byte `pos`, with nothing but bytes inside the
spans exchanged, and no line feed among them. -/
structure KeepsBytes (spans : List Span) (pos : Nat) (cs copy : List Char) : Prop where
  /-- The copy is as long as the text. -/
  byteLength_eq : byteLength copy = byteLength cs
  /-- The line feeds of the two stand at the same bytes. -/
  feed_iff : ∀ i : Nat, (bytes copy)[i]? = some feedByte ↔ (bytes cs)[i]? = some feedByte
  /-- Outside the spans the bytes of the two are the same. -/
  outside : ∀ i : Nat, ¬ Covered spans (pos + i) → (bytes copy)[i]? = (bytes cs)[i]?

namespace KeepsBytes

variable {spans : List Span} {pos : Nat}

theorem refl (cs : List Char) : KeepsBytes spans pos cs cs :=
  ⟨rfl, fun _ => Iff.rfl, fun _ _ => rfl⟩

theorem append {xs xs' ys ys' : List Char} (hx : KeepsBytes spans pos xs xs')
    (hy : KeepsBytes spans (pos + byteLength xs) ys ys') :
    KeepsBytes spans pos (xs ++ ys) (xs' ++ ys') := by
  have hlen : (bytes xs').length = (bytes xs).length := by
    rw [length_bytes, length_bytes, hx.byteLength_eq]
  refine ⟨?_, fun i => ?_, fun i hi => ?_⟩
  · rw [byteLength_append, byteLength_append, hx.byteLength_eq, hy.byteLength_eq]
  · rw [bytes_append, bytes_append, List.getElem?_append, List.getElem?_append, hlen]
    split
    · exact hx.feed_iff i
    · exact hy.feed_iff _
  · rw [bytes_append, bytes_append, List.getElem?_append, List.getElem?_append, hlen]
    split
    · exact hx.outside i hi
    · rename_i hge
      refine hy.outside _ ?_
      rw [length_bytes] at hge ⊢
      rwa [Nat.add_assoc, Nat.add_sub_cancel' (Nat.not_lt.mp hge)]

/-- A character inside the spans may be blanked out: its bytes lie inside them too. -/
theorem blanked {c : Char} (h : ∀ i < c.utf8Size, Covered spans (pos + i)) :
    KeepsBytes spans pos [c] (blanked c) := by
  by_cases hc : c = '\n'
  · rw [Catalog.blanked, if_pos hc]
    exact refl [c]
  have hfeed : feedByte ∉ bytes (Catalog.blanked c) := by
    intro hmem
    obtain ⟨d, hd, hbyte⟩ := List.mem_flatMap.mp hmem
    rw [Catalog.blanked, if_neg hc] at hd
    obtain rfl := List.eq_of_mem_replicate hd
    exact absurd (eq_of_feedByte_mem hbyte) (by decide)
  have hfeed' : feedByte ∉ bytes [c] := by
    rw [bytes_singleton]
    exact fun hmem => hc (eq_of_feedByte_mem hmem)
  refine ⟨by simp, fun i => ?_, fun i hi => ?_⟩
  · exact ⟨fun h => absurd (List.mem_of_getElem? h) hfeed, fun h => absurd (List.mem_of_getElem? h) hfeed'⟩
  · have hge : c.utf8Size ≤ i := Nat.not_lt.mp fun hlt => hi (h i hlt)
    rw [List.getElem?_eq_none (by simpa using hge), List.getElem?_eq_none (by simpa using hge)]

theorem flatMap_blanked {text : List Char} (h : ∀ i < byteLength text, Covered spans (pos + i)) :
    KeepsBytes spans pos text (text.flatMap Catalog.blanked) := by
  induction text generalizing pos with
  | nil => exact refl []
  | cons c text ih =>
    rw [byteLength_cons] at h
    have hrest : KeepsBytes spans (pos + byteLength [c]) text (text.flatMap Catalog.blanked) := by
      refine ih fun i hi => ?_
      rw [byteLength_cons, byteLength_nil, Nat.add_zero, Nat.add_assoc]
      exact h _ (by omega)
    exact (blanked fun i hi => h i (by omega)).append hrest

end KeepsBytes

/-- What is cut out of the text in turn and blanked out keeps the bytes of the text. -/
theorem keepsBytes_of_blankSpansFrom? {cs copy front rest : List Char} {spans all : List Span}
    (hcs : cs = front ++ rest) (hall : ∀ s ∈ spans, s ∈ all)
    (h : blankSpansFrom? cs (byteLength front) spans = some copy) :
    KeepsBytes all (byteLength front) rest copy := by
  induction spans generalizing front rest copy with
  | nil =>
    rw [blankSpansFrom?, hcs, slice?_append] at h
    obtain rfl := Option.some.inj h
    exact .refl rest
  | cons s spans ih =>
    obtain ⟨hs, hall⟩ := List.forall_mem_cons.mp hall
    rw [blankSpansFrom?] at h
    simp only [Option.bind_eq_bind, Option.bind_eq_some_iff] at h
    obtain ⟨kept, hkept, covered, hcovered, later, hlater, hcopy⟩ := h
    obtain rfl := Option.some.inj hcopy
    obtain ⟨front', back, hsplit, hfront, hstart⟩ := slice?_eq_some_iff.mp hkept
    obtain ⟨rfl, rfl⟩ := append_inj_of_byteLength (hcs.symm.trans hsplit) hfront
    obtain ⟨before, back', hsplit', hbefore, hstop⟩ := slice?_eq_some_iff.mp hcovered
    -- the span starts behind what was kept
    rw [hcs, ← List.append_assoc] at hsplit'
    obtain ⟨rfl, rfl⟩ := append_inj_of_byteLength hsplit' (by rw [byteLength_append, ← hstart, hbefore])
    rw [← byteLength_append] at hstart
    rw [← byteLength_append] at hstop
    rw [hstop] at hlater
    have hcut : front ++ (kept ++ (covered ++ back')) = ((front ++ kept) ++ covered) ++ back' := by
      simp only [List.append_assoc]
    have hrest := ih (hcs.trans hcut) hall hlater
    rw [byteLength_append, byteLength_append] at hrest
    refine (KeepsBytes.refl kept).append (.append (.flatMap_blanked fun i hi => ?_) hrest)
    refine ⟨s, hs, ?_, ?_⟩
    · rw [hstart, byteLength_append]
      exact Nat.le_add_right ..
    · rw [hstop, byteLength_append, byteLength_append]
      omega

theorem keepsBytes_of_blankSpans? {cs copy : List Char} {spans : List Span}
    (h : blankSpans? cs spans = some copy) : KeepsBytes spans 0 cs copy :=
  keepsBytes_of_blankSpansFrom? (List.nil_append cs).symm (fun _ hs => hs) h

/-! ## Spans in order -/

/-- A span that ends by then plays no part in what follows. -/
theorem blankSpansFrom_cons_of_le {s : Span} {spans : List Span} {pos : Nat} (h : s.stop ≤ pos)
    (cs : List Char) : blankSpansFrom (s :: spans) pos cs = blankSpansFrom spans pos cs := by
  induction cs generalizing pos with
  | nil => rfl
  | cons c cs ih =>
    have hout : (decide (s.start ≤ pos) && decide (pos < s.stop)) = false := by
      simp only [Bool.and_eq_false_iff, decide_eq_false_iff_not]
      exact Or.inr (Nat.not_lt.mpr h)
    rw [blankSpansFrom, blankSpansFrom, List.any_cons, hout, Bool.false_or,
      ih (Nat.le_trans h (Nat.le_add_right ..))]

/-- Up to the first span the text is kept as it is, then the span is blanked out, and what follows is left
to the later spans. -/
theorem blankSpansFrom_cons_eq {s : Span} {spans : List Span} {pos : Nat} {kept covered : List Char}
    (hstart : s.start = pos + byteLength kept) (hstop : s.stop = s.start + byteLength covered)
    (hlater : ∀ t ∈ spans, s.stop ≤ t.start) (after : List Char) :
    blankSpansFrom (s :: spans) pos (kept ++ (covered ++ after)) =
      kept ++ (covered.flatMap blanked ++ blankSpansFrom spans s.stop after) := by
  have hkept : blankSpansFrom (s :: spans) pos kept = kept := by
    refine blankSpansFrom_of_not_covered ?_
    rintro front c back rfl ⟨t, ht, htstart, -⟩
    have hbound : s.start ≤ t.start := by
      rcases List.mem_cons.mp ht with rfl | ht
      · exact Nat.le_refl _
      · have := hlater t ht
        omega
    have hc := c.utf8Size_pos
    rw [byteLength_append, byteLength_cons] at hstart
    omega
  have hcovered : blankSpansFrom (s :: spans) s.start covered = covered.flatMap blanked := by
    refine blankSpansFrom_of_covered ?_
    rintro front c back rfl
    have hc := c.utf8Size_pos
    rw [byteLength_append, byteLength_cons] at hstop
    exact ⟨s, List.mem_cons_self .., Nat.le_add_right .., by omega⟩
  rw [blankSpansFrom_append, blankSpansFrom_append, ← hstart, ← hstop, hkept, hcovered,
    blankSpansFrom_cons_of_le (Nat.le_refl _)]

/-- The spans stand in order, one after the other, and no end of them cuts a character. -/
structure InOrder (cs : List Char) (spans : List Span) : Prop where
  /-- The text can be cut at the ends of each span. -/
  aligned : ∀ s ∈ spans, Aligned cs s.start ∧ Aligned cs s.stop ∧ s.start ≤ s.stop
  /-- A span ends before a later one starts. -/
  pairwise : spans.Pairwise fun s t => s.stop ≤ t.start

/-- Spans in order are cut out of the text in turn, and what comes of it is the working copy. -/
theorem blankSpansFrom?_eq {cs front rest : List Char} {spans : List Span} (h : InOrder cs spans)
    (hcs : cs = front ++ rest) (hfront : ∀ s ∈ spans, byteLength front ≤ s.start) :
    blankSpansFrom? cs (byteLength front) spans =
      some (blankSpansFrom spans (byteLength front) rest) := by
  induction spans generalizing front rest with
  | nil =>
    rw [blankSpansFrom?, hcs, slice?_append, blankSpansFrom_of_not_covered fun _ _ _ _ => ?_]
    rintro ⟨s, hs, -⟩
    exact absurd hs List.not_mem_nil
  | cons s spans ih =>
    obtain ⟨⟨hstart, hstop, hle⟩, haligned⟩ := List.forall_mem_cons.mp h.aligned
    obtain ⟨hlater, hpairwise⟩ := List.pairwise_cons.mp h.pairwise
    obtain ⟨before, covered, after, hsplit, hbefore, hcovered⟩ := hstart.exists_between hstop hle
    have hreach := hfront s (List.mem_cons_self ..)
    rw [hbefore] at hreach
    obtain ⟨kept, rfl, rfl⟩ := exists_between_of_byteLength_le (hcs.symm.trans hsplit) hreach
    have hkept : slice? cs (byteLength front) s.start = some kept :=
      slice?_eq_some_iff.mpr ⟨front, covered ++ after, hcs, rfl, by rw [hbefore, byteLength_append]⟩
    have hcut : slice? cs s.start s.stop = some covered :=
      slice?_eq_some_iff.mpr ⟨front ++ kept, after, hsplit, hbefore, hcovered⟩
    have hends : s.stop = byteLength ((front ++ kept) ++ covered) := by
      rw [hcovered, ← byteLength_append]
    have hrest := ih ⟨haligned, hpairwise⟩ (hsplit.trans (List.append_assoc ..).symm)
      (by rw [← hends]; exact hlater)
    rw [← hends] at hrest
    rw [← hbefore] at hcovered
    rw [byteLength_append] at hbefore
    rw [blankSpansFrom?, hkept, hcut, hrest, blankSpansFrom_cons_eq hbefore hcovered hlater]
    rfl

/-- The aliases of a source stand in order. -/
theorem inOrder_aliasSpans (source : List Char) : InOrder source (aliasSpans source) := by
  refine ⟨?_, ?_⟩
  · intro s hs
    obtain ⟨o, ho, rfl⟩ := List.mem_map.mp hs
    obtain ⟨before, rest, hsource, hoff, -⟩ := (List.mem_filter.mp ho).1 |>
      exists_of_mem_occurrences consumes_aliasStatement
    refine ⟨?_, ?_, Nat.le_add_right ..⟩
    · exact aligned_iff.mpr ⟨before, o.text ++ rest, hsource, hoff⟩
    · refine aligned_iff.mpr ⟨before ++ o.text, rest, by rw [hsource, List.append_assoc], ?_⟩
      rw [byteLength_append, ← hoff]
      rfl
  · have hstatements := pairwise_occurrencesFrom consumes_aliasStatement 0 0 source
    exact List.pairwise_map.mpr (hstatements.sublist List.filter_sublist)

theorem blankSpans?_aliasSpans (source : List Char) :
    blankSpans? source (aliasSpans source) = some (workingCopy source) :=
  blankSpansFrom?_eq (inOrder_aliasSpans source) (List.nil_append source).symm
    fun _ _ => Nat.zero_le _

end Catalog

end SchemaModules

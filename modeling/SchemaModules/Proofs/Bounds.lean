import SchemaModules.Proofs.Banners
import SchemaModules.Proofs.Blanking
import SchemaModules.Proofs.Failures

/-!
# Proofs: extraction stays in bounds

The offsets of a declaration are found in the working copy, and the source is cut at them. They are
aligned in both: a header starts and its call opens with a character that the copy keeps, and the end of
a declaration is found again in the source. Where a banner may begin, an alias or a declaration ends. So
no cut of extraction fails, and no difference falls below zero.
-/

namespace SchemaModules

open Text Lexical Declaration

namespace Declaration

/-! ## A call that has been opened -/

/-- While a bracket is open, a closer closes it or does not fit, but is not unexpected. -/
theorem balanceFrom_ne_unexpectedCloser {lx : Lexer} {stack cs : List Char} {pos : Nat}
    (hopen : stack ≠ []) (found : Char) :
    balanceFrom lx stack pos cs ≠ .faulty (.unexpectedCloser found) := by
  induction cs generalizing lx stack pos with
  | nil => simp [balanceFrom]
  | cons c cs ih =>
    obtain ⟨expected, outer, rfl⟩ := List.exists_cons_of_ne_nil hopen
    unfold balanceFrom
    dsimp only
    split
    · split
      · exact ih (by simp)
      · split
        · split
          · simp
          · split
            · simp
            · rename_i houter
              exact ih (by simpa using houter)
        · exact ih hopen
    · exact ih hopen

theorem unfinishedFault_ne_unexpectedCloser (mode : Mode) (depth : Nat) (found : Char) :
    unfinishedFault mode depth ≠ .unexpectedCloser found := by
  cases mode <;> nofun

/-- A search that starts with an opening bracket finds no unexpected closer. -/
theorem declarationEnd_ne_unexpectedCloser (front back : List Char) (found : Char) :
    declarationEnd (front ++ '(' :: back) (byteLength front) ≠ .error (.unexpectedCloser found) := by
  have hopened : balanceFrom .start [] (byteLength front) ('(' :: back) =
      balanceFrom .start [')'] (byteLength front + 1) back := rfl
  have hclosed : balanceFrom .start [')'] (byteLength front + 1) back ≠
      .faulty (.unexpectedCloser found) :=
    balanceFrom_ne_unexpectedCloser (by simp) found
  unfold declarationEnd
  dsimp only
  rw [dropBytes_append, hopened]
  split
  · simp
  · rename_i fault hfault
    rw [hfault] at hclosed
    exact fun h => hclosed (congrArg Balance.faulty (Except.error.inj h))
  · rename_i depth _
    exact fun h => unfinishedFault_ne_unexpectedCloser _ depth found (Except.error.inj h)

end Declaration

namespace Catalog

/-! ## The offsets of a declaration -/

section

variable {source : List Char} {header : Occurrence EntityHeader} {stop : Nat} {d : DeclarationParts}

/-- The source can be cut at both ends of a declaration. -/
theorem Declares.aligned (h : Declares source header stop d) :
    Aligned source header.offset ∧ Aligned source stop ∧ header.offset ≤ stop := by
  refine ⟨aligned_iff.mpr ⟨d.before, _, h.source_eq, h.offset_eq⟩, ?_, ?_⟩
  · refine aligned_iff.mpr ⟨d.before ++ d.body, d.after, ?_, ?_⟩
    · rw [h.source_eq, List.append_assoc]
    · rw [h.stop_eq, h.offset_eq, byteLength_append]
  · rw [h.stop_eq]
    exact Nat.le_add_right ..

/-- The working copy can be cut where the call of a live header opens. -/
theorem exists_call (hheader : header ∈ occurrences entityHeader (workingCopy source))
    (hlive : within (inertSpans source) header.offset = false) :
    ∃ front after, workingCopy source = front ++ '(' :: after ∧
      header.offset + byteLength header.value.lead = byteLength front := by
  obtain ⟨-, -, -, front, after, -, -, -, -, -, hworking, hfront, -⟩ := exists_of_header hheader hlive
  exact ⟨front, after, hworking, hfront.symm⟩

/-- The source can be cut where the banner of a declaration may begin, and this is above it. -/
theorem aligned_bannerBoundary {consumed start : Nat} (hconsumed : Aligned source consumed)
    (hle : consumed ≤ start) :
    Aligned source (bannerBoundary (aliasSpans source) consumed start) ∧
      bannerBoundary (aliasSpans source) consumed start ≤ start := by
  -- the boundary is one of the ends that it is the greatest of
  have hends : ∀ pos, pos < bannerBoundary (aliasSpans source) consumed start ↔
      ∃ s ∈ ⟨0, consumed⟩ :: (aliasSpans source).filter (fun s => s.stop ≤ start), pos < s.stop := by
    intro pos
    rw [lt_bannerBoundary_iff]
    simp [and_assoc]
  rcases exists_stop_eq hends with hzero | ⟨s, hs, hstop⟩
  · rw [hzero]
    exact ⟨aligned_zero source, Nat.zero_le _⟩
  · rw [← hstop]
    rcases List.mem_cons.mp hs with rfl | hs
    · exact ⟨hconsumed, hle⟩
    · obtain ⟨hs, habove⟩ := List.mem_filter.mp hs
      exact ⟨((inOrder_aliasSpans source).aligned s hs).2.1, of_decide_eq_true habove⟩

end

/-! ## The run -/

/-- No check fails on the way through the headers, when the source can be cut where the last declaration
ended: then it can be cut where the next one ends. -/
theorem collectEntities?_eq {source : List Char} {consumed : Nat}
    {headers : List (Occurrence EntityHeader)} (hconsumed : Aligned source consumed)
    (hheaders : ∀ h ∈ headers, h ∈ occurrences entityHeader (workingCopy source)) :
    collectEntities? source (workingCopy source) (inertSpans source) (aliasSpans source) consumed
        headers =
      some (collectEntities source (workingCopy source) (inertSpans source) (aliasSpans source)
        consumed headers) := by
  induction headers generalizing consumed with
  | nil => rfl
  | cons header headers ih =>
    obtain ⟨hheader, hheaders⟩ := List.forall_mem_cons.mp hheaders
    rw [collectEntities?, collectEntities]
    split
    · exact ih hconsumed hheaders
    · rename_i hlive
      simp only [Bool.or_eq_true, decide_eq_true_eq, not_or, Nat.not_lt, Bool.not_eq_true] at hlive
      obtain ⟨front, after, hworking, hcall⟩ := exists_call hheader hlive.2
      have haligned : Aligned (workingCopy source)
          (header.offset + byteLength header.value.lead) :=
        aligned_iff.mpr ⟨front, '(' :: after, hworking, hcall⟩
      rw [declarationEnd?_eq haligned]
      cases hstop : declarationEnd (workingCopy source)
          (header.offset + byteLength header.value.lead) with
      | error fault => rfl
      | ok stop =>
        obtain ⟨d, hd⟩ := exists_declares hheader hlive.2 hstop
        obtain ⟨hstart, hend, hle⟩ := hd.aligned
        obtain ⟨hboundary, habove⟩ := aligned_bannerBoundary hconsumed hlive.1
        simp only [Option.bind_eq_bind, Option.bind_some]
        rw [entityOf?_eq hboundary hstart hend habove hle, ih hend hheaders]
        simp only [Option.bind_some]
        cases collectEntities source (workingCopy source) (inertSpans source) (aliasSpans source) stop
          headers <;> rfl

theorem extract?_eq (source origin : String) :
    extract? source origin = some (extract source origin) := by
  have hcopy := blankSpans?_aliasSpans source.toList
  unfold aliasSpans at hcopy
  have hcollect := collectEntities?_eq (aligned_zero source.toList) fun h hh => hh
  unfold aliasSpans at hcollect
  unfold extract?
  dsimp only
  rw [inertSpans?_eq, extract_eq_assemble]
  simp only [Option.bind_eq_bind, Option.bind_some]
  rw [hcopy]
  simp only [Option.bind_some]
  rw [hcollect]
  rfl

/-- No source is answered with an unexpected closer. -/
theorem extract_ne_unexpectedCloser (source origin name : String) (found : Char) :
    extract source origin ≠ .error (.unterminated name (.unexpectedCloser found)) := by
  intro h
  have hverdict := verdict_of_extract source origin
  rw [h] at hverdict
  generalize hfault : Fault.unexpectedCloser found = fault at hverdict
  cases hverdict with
  | @unterminated before after header _ _ split _ live fails =>
    have hheader := List.mem_append_right before (List.mem_cons_self (a := header) (l := after))
    rw [← split] at hheader
    obtain ⟨front, rest, hworking, hcall⟩ := exists_call hheader live.1
    rw [endOf, hworking, hcall, ← hfault] at fails
    exact declarationEnd_ne_unexpectedCloser front rest found fails

/-- No cut of extraction is turned around, leaves its text or cuts a character, no difference falls
below zero, no closer is unexpected, and blanking out exchanges nothing but bytes inside the spans. -/
theorem extract_stays_in_bounds (source origin : String) :
    extract? source origin = some (extract source origin) ∧
      (∀ name found, extract source origin ≠ .error (.unterminated name (.unexpectedCloser found))) ∧
      (∀ front back found, declarationEnd (front ++ '(' :: back) (byteLength front) ≠
        .error (.unexpectedCloser found)) ∧
      ∀ cs spans copy, blankSpans? cs spans = some copy → KeepsBytes spans 0 cs copy :=
  ⟨extract?_eq source origin, extract_ne_unexpectedCloser source origin,
    declarationEnd_ne_unexpectedCloser, fun _ _ _ => keepsBytes_of_blankSpans?⟩

/-- A table with a hole in a template literal, below an alias of it, with characters of up to four
bytes. -/
def accentedSource : String :=
  "export type Größe = typeof größe.$inferSelect; // 📏\n" ++
    "// größe\nexport const größe = pgTable(\"größe\", \x7b x: \x60€$\x7b\x7b\x7d\x7d\x60 \x7d) ;\n"

theorem accentedSource_stays_in_bounds :
    ∃ c, extract? accentedSource "sample" = some (.ok c) ∧
      c.entities.map (fun e => (e.offset, e.leadingComment)) = [(70, some "// größe")] ∧
      KeepsBytes (aliasSpans accentedSource.toList) 0 accentedSource.toList
        (workingCopy accentedSource.toList) := by
  have hsome : ((extract accentedSource "sample").toOption.map fun c =>
      c.entities.map fun e => (e.offset, e.leadingComment)) = some [(70, some "// größe")] := by
    decide +kernel
  obtain ⟨c, hc, hentities⟩ := exists_eq_ok_of_map_toOption hsome
  obtain ⟨hrun, -, -, hkeeps⟩ := extract_stays_in_bounds accentedSource "sample"
  exact ⟨c, hc ▸ hrun, hentities, hkeeps _ _ _ (blankSpans?_aliasSpans _)⟩

end Catalog

end SchemaModules

import SchemaModules.Proofs.Forms
import SchemaModules.Toml.Reader
import SchemaModules.Toml.Writer

/-!
# What is written between quotes is read back

Two things have to come out for a written string: the reader must cut it at its own closing delimiter,
and decode what stands before to the text itself. Where a body is cut depends on the quotes in it that
are not escaped; a body that keeps its delimiter out is *guarded*.
-/

namespace SchemaModules.Toml

open Text

variable {quote c : Char} {escaping long : Bool} {body cs rest : List Char} {style : Style}

/-! ## Guarded bodies -/

/-- Whether `stop` begins at no character of a text that is not escaped, and the text does not end with
the backslash of an escape; `escaping` says that its first character is escaped. -/
def Guarded (quote : Char) (stop : List Char) : Bool → List Char → Prop
  | escaping, [] => escaping = false
  | escaping, c :: cs =>
    (escaping = false → ¬ stop <+: c :: cs) ∧ Guarded quote stop (escapesNext quote escaping c) cs

/-- On one line a guarded body is cut at the quote behind it. -/
theorem cutLine_of_guarded (h : Guarded quote [quote] escaping body) (hline : '\n' ∉ body) :
    cutLine quote escaping (body ++ quote :: rest) = ⟨body, true, rest⟩ := by
  induction body generalizing escaping with
  | nil =>
    have hescaping : escaping = false := h
    simp [cutLine, hescaping]
  | cons c cs ih =>
    obtain ⟨hc, htail⟩ := h
    rw [List.mem_cons, not_or] at hline
    have hstop : (c = quote && !escaping) = false := by
      cases escaping with
      | true => simp
      | false =>
        have hne : ¬ [quote] <+: c :: cs := hc rfl
        simp only [List.cons_prefix_cons, List.nil_prefix, and_true] at hne
        simp [Ne.symm hne]
    have hfeed : c ≠ '\n' := Ne.symm hline.1
    simp [cutLine, hstop, hfeed, ih htail hline.2, Cut.cons]

/-- The run of at most five quotes before another character is of all of them. -/
theorem quoteRun_replicate_append {n : Nat} (hn : n ≤ 5) (hrest : rest.head? ≠ some quote) :
    quoteRun quote (List.replicate n quote ++ rest) = n := by
  have hstops : Stops (fun c => decide (c = quote)) (rest.take (5 - n)) := by
    intro c hc
    rw [List.head?_take] at hc
    split at hc
    · contradiction
    · exact decide_eq_false fun heq => hrest (heq ▸ hc)
  rw [quoteRun, List.take_append, List.length_replicate, List.take_of_length_le (by simpa using hn),
    takeWhile_of_stops (by simp [List.mem_replicate]) hstops, List.length_replicate]

/-- A run of three quotes or more begins with three quotes. -/
theorem prefix_of_three_le_quoteRun (h : 3 ≤ quoteRun quote cs) : [quote, quote, quote] <+: cs := by
  obtain ⟨run, hrun⟩ : ∃ run, run = (cs.take 5).takeWhile fun c => decide (c = quote) := ⟨_, rfl⟩
  have hlength : 3 ≤ run.length := hrun ▸ h
  have hprefix : run <+: cs :=
    hrun ▸ (List.takeWhile_prefix _).trans (List.take_prefix ..)
  have hall : run = List.replicate run.length quote := by
    refine List.eq_replicate_iff.mpr ⟨rfl, fun c hc => ?_⟩
    rw [hrun] at hc
    exact of_decide_eq_true (List.all_eq_true.mp List.all_takeWhile c hc)
  have hthree : List.replicate 3 quote <+: run := by
    rw [hall]
    exact List.prefix_replicate_iff.mpr ⟨by simpa using hlength, by simp⟩
  exact hthree.trans hprefix

/-- Three quotes that begin before a delimiter and not in a text `cs` before it are the last of `cs` and
the delimiter. -/
theorem exists_replicate_of_prefix (h : [quote, quote, quote] <+: cs ++ quote :: quote :: quote :: rest)
    (hcs : ¬ [quote, quote, quote] <+: cs) : ∃ n ≤ 2, cs = List.replicate n quote := by
  match cs with
  | [] => exact ⟨0, by omega, rfl⟩
  | [a] => exact ⟨1, by omega, by simp_all⟩
  | [a, b] =>
    obtain ⟨rfl, rfl⟩ : quote = a ∧ quote = b := by simpa using h
    exact ⟨2, by omega, rfl⟩
  | a :: b :: d :: cs => exact absurd (by simpa using h) hcs

/-- Over several lines a guarded body is cut at the three quotes behind it, however many of its own stand
before them. -/
theorem cutLong_of_guarded (h : Guarded quote [quote, quote, quote] escaping body)
    (hrest : rest.head? ≠ some quote) :
    cutLong quote escaping (body ++ quote :: quote :: quote :: rest) = ⟨body, true, rest⟩ := by
  induction body generalizing escaping with
  | nil =>
    have hescaping : escaping = false := h
    have hrun : quoteRun quote (quote :: quote :: quote :: rest) = 3 :=
      quoteRun_replicate_append (by omega : 3 ≤ 5) hrest
    simp [cutLong, hescaping, hrun]
  | cons c cs ih =>
    obtain ⟨hc, htail⟩ := h
    rw [List.cons_append, cutLong, ih htail]
    by_cases hstop : 3 ≤ quoteRun quote (c :: (cs ++ quote :: quote :: quote :: rest)) && !escaping
    · -- Then the body is one or two quotes, and the run goes on to the end of the delimiter.
      rw [Bool.and_eq_true, Bool.not_eq_true', decide_eq_true_eq] at hstop
      have hprefix : [quote, quote, quote] <+: c :: cs ++ quote :: quote :: quote :: rest :=
        prefix_of_three_le_quoteRun hstop.1
      obtain ⟨n, hn, hbody⟩ := exists_replicate_of_prefix hprefix (hc hstop.2)
      have hall : c :: (cs ++ quote :: quote :: quote :: rest) = List.replicate (n + 3) quote ++ rest := by
        rw [← List.cons_append, hbody, ← List.replicate_append_replicate, List.append_assoc]
        rfl
      rw [hall, quoteRun_replicate_append (by omega) hrest, hbody]
      simp [hstop.2]
    · simp only [hstop, Bool.false_eq_true, if_false, Cut.cons]

/-! ## The pieces of a body with escapes -/

/-- The characters `letters` after a backslash are an escape that stands for `c`. -/
structure IsEscape (letters : List Char) (c : Char) : Prop where
  /-- The first of them keeps the backslash on its line, and the others begin nothing. -/
  letters_eq : ∃ first more, letters = first :: more ∧ first ∉ [' ', '\t', '\n', '\r'] ∧
    ∀ d ∈ more, d ∉ ['"', '\\', '\n']
  /-- They stand for `c`, whatever follows. -/
  escape?_append : ∀ rest, escape? (letters ++ rest) = some (c, letters.length)

/-- A text that stands for the character `c` between double quotes, without a line feed. -/
inductive Piece (c : Char) : List Char → Prop
  /-- The character itself. -/
  | plain (hquote : c ≠ '"') (hescape : c ≠ '\\') (h : isForbidden c = false) : Piece c [c]
  /-- An escape. -/
  | escape {letters : List Char} (h : IsEscape letters c) : Piece c ('\\' :: letters)

theorem isEscape_letter {letter : Char} (hline : letter ∉ [' ', '\t', '\n', '\r'])
    (h : ∀ rest, escape? (letter :: rest) = some (c, 1)) : IsEscape [letter] c where
  letters_eq := ⟨letter, [], rfl, hline, by simp⟩
  escape?_append := h

theorem hexDigit?_upperHexDigit {n : Nat} (hn : n < 16) : hexDigit? (upperHexDigit n) = some n := by
  have h : ∀ m : Fin 16, hexDigit? (upperHexDigit m) = some m.val := by decide
  exact h ⟨n, hn⟩

theorem upperHexDigit_not_mem {n : Nat} (hn : n < 16) : upperHexDigit n ∉ ['"', '\\', '\n'] := by
  have h : ∀ m : Fin 16, upperHexDigit m ∉ ['"', '\\', '\n'] := by decide
  exact h ⟨n, hn⟩

/-- Two hexadecimal digits write a code point below 256. -/
theorem isEscape_hex (hc : c.toNat < 256) :
    IsEscape ['u', '0', '0', upperHexDigit (c.toNat / 16), upperHexDigit (c.toNat % 16)] c where
  letters_eq := by
    have hhigh := upperHexDigit_not_mem (by omega : c.toNat / 16 < 16)
    have hlow := upperHexDigit_not_mem (by omega : c.toNat % 16 < 16)
    have hzero : '0' ∉ ['"', '\\', '\n'] := by decide
    refine ⟨'u', _, rfl, by decide, ?_⟩
    simp only [List.forall_mem_cons]
    exact ⟨hzero, hzero, hhigh, hlow, by simp⟩
  escape?_append := by
    intro rest
    have hhigh := hexDigit?_upperHexDigit (by omega : c.toNat / 16 < 16)
    have hlow := hexDigit?_upperHexDigit (by omega : c.toNat % 16 < 16)
    have hzero : hexDigit? '0' = some 0 := by decide
    have hvalue : 16 * (c.toNat / 16) + c.toNat % 16 = c.toNat := Nat.div_add_mod ..
    have hvalid : c.toNat.isValidChar := c.valid
    simp [escape?, codePoint?, hexValue?, hzero, hhigh, hlow, hvalue, hvalid]

/-- What is written for a character other than a quote stands for it. -/
theorem piece_escaped (hc : c ≠ '"') : Piece c (escaped c) := by
  unfold escaped
  split_ifs with hb ht hn hf hr hs hcontrol
  · exact .escape (isEscape_letter (by decide) fun rest => by simp [escape?, hb])
  · exact .escape (isEscape_letter (by decide) fun rest => by simp [escape?, ht])
  · exact .escape (isEscape_letter (by decide) fun rest => by simp [escape?, hn])
  · exact .escape (isEscape_letter (by decide) fun rest => by simp [escape?, hf])
  · exact .escape (isEscape_letter (by decide) fun rest => by simp [escape?, hr])
  · exact .escape (isEscape_letter (by decide) fun rest => by simp [escape?, hs])
  · have hsmall : c.toNat < 256 := by
      simp only [Bool.or_eq_true, decide_eq_true_eq] at hcontrol
      omega
    exact .escape (isEscape_hex hsmall)
  · simp only [Bool.or_eq_true, decide_eq_true_eq, not_or] at hcontrol
    exact .plain hc hs (by simp [isForbidden, hcontrol])

theorem piece_quote : Piece '"' ['\\', '"'] :=
  .escape (isEscape_letter (by decide) fun rest => by simp [escape?])

/-- The characters of an escape are left out. -/
theorem unescape_length_append (letters : List Char) :
    unescape long letters.length (letters ++ cs) = unescape long 0 cs := by
  induction letters with
  | nil => rfl
  | cons c letters ih => simpa [unescape] using ih

namespace Piece

variable {piece stop : List Char}

theorem feed_not_mem (h : Piece c piece) : '\n' ∉ piece := by
  cases h with
  | plain _ _ h =>
    have hne : c ≠ '\n' := by
      rintro rfl
      exact absurd h (by decide)
    simpa using Ne.symm hne
  | escape h =>
    obtain ⟨first, more, rfl, hfirst, hmore⟩ := h.letters_eq
    have hne : first ≠ '\n' := by
      rintro rfl
      simp at hfirst
    have hnot : '\n' ∉ more := fun hmem => hmore _ hmem (by simp)
    simp [Ne.symm hne, hnot]

/-- A piece keeps its quotes guarded. -/
theorem guarded_append (h : Piece c piece) (hcs : Guarded '"' ('"' :: stop) false cs) :
    Guarded '"' ('"' :: stop) false (piece ++ cs) := by
  -- Characters that are neither quotes nor backslashes are passed over.
  have hpass {more : List Char} (hmore : ∀ d ∈ more, d ≠ '"' ∧ d ≠ '\\') :
      Guarded '"' ('"' :: stop) false (more ++ cs) := by
    induction more with
    | nil => exact hcs
    | cons d more ih =>
      obtain ⟨hquote, hescape⟩ := hmore d (List.mem_cons_self ..)
      refine ⟨fun _ => by simp [Ne.symm hquote], ?_⟩
      have hnext : escapesNext '"' false d = false := by simp [escapesNext, hescape]
      rw [hnext]
      exact ih fun e he => hmore e (List.mem_cons_of_mem _ he)
  cases h with
  | plain hquote hescape _ => exact hpass (by simp [hquote, hescape])
  | escape h =>
    obtain ⟨first, more, rfl, -, hmore⟩ := h.letters_eq
    have hnext : escapesNext '"' true first = false := by simp [escapesNext]
    refine ⟨fun _ => by simp, fun hno => absurd hno (by simp [escapesNext]), ?_⟩
    rw [show escapesNext '"' false '\\' = true from rfl, hnext]
    exact hpass fun d hd => by simp_all

/-- A piece does not begin with a quote. -/
theorem head_ne (h : Piece c piece) (cs : List Char) : (piece ++ cs).head? ≠ some '"' := by
  cases h with
  | plain hquote _ _ => simpa using hquote
  | escape _ => simp

/-- A piece is decoded to its character. -/
theorem unescape_append (h : Piece c piece) (long : Bool) (cs : List Char) :
    unescape long 0 (piece ++ cs) = (unescape long 0 cs).map (c :: ·) := by
  cases h with
  | plain hquote hescape h => simp [unescape, hescape, mayStand, h]
  | @escape letters h =>
    have hbreak : breaksLine (letters ++ cs) = false := by
      obtain ⟨first, more, rfl, hfirst, -⟩ := h.letters_eq
      simp only [List.mem_cons, not_or] at hfirst
      simp [breaksLine, hfirst]
    have hvalue := h.escape?_append cs
    simp [unescape, hbreak, hvalue, unescape_length_append]

end Piece

/-! ## The four styles -/

theorem basicBody_cons (c : Char) (cs : List Char) :
    basicBody (c :: cs) = (if c = '"' then ['\\', '"'] else escaped c) ++ basicBody cs :=
  List.flatMap_cons

theorem piece_basic (c : Char) : Piece c (if c = '"' then ['\\', '"'] else escaped c) := by
  split_ifs with hc
  · exact hc ▸ piece_quote
  · exact piece_escaped hc

theorem guarded_basicBody (cs : List Char) : Guarded '"' ['"'] false (basicBody cs) := by
  induction cs with
  | nil => rfl
  | cons c cs ih =>
    rw [basicBody_cons]
    exact (piece_basic c).guarded_append ih

theorem feed_not_mem_basicBody (cs : List Char) : '\n' ∉ basicBody cs := by
  induction cs with
  | nil => simp [basicBody]
  | cons c cs ih =>
    rw [basicBody_cons, List.mem_append, not_or]
    exact ⟨(piece_basic c).feed_not_mem, ih⟩

theorem unescape_basicBody (cs : List Char) : unescape false 0 (basicBody cs) = some cs := by
  induction cs with
  | nil => rfl
  | cons c cs ih => rw [basicBody_cons, (piece_basic c).unescape_append, ih, Option.map_some]

/-- A body over several lines that follows `run` quotes goes on with so few that they stay below three. -/
theorem not_prefix_longBasicBody {run : Nat} (hrun : run ≤ 2) (cs : List Char) :
    ¬ List.replicate (3 - run) '"' <+: longBasicBody run cs := by
  induction cs generalizing run with
  | nil =>
    rw [longBasicBody, List.prefix_nil, List.replicate_eq_nil_iff]
    omega
  | cons c cs ih =>
    obtain ⟨n, hn⟩ : ∃ n, 3 - run = n + 1 := ⟨2 - run, by omega⟩
    rw [longBasicBody, hn, List.replicate_succ]
    split_ifs with hc hlt hfeed
    · have hnext : 3 - (run + 1) = n := by omega
      rw [List.cons_prefix_cons, not_and, ← hnext]
      exact fun _ => ih (by omega)
    · simp
    · simp
    · intro h
      have hhead := (piece_escaped hc).head_ne (longBasicBody 0 cs)
      obtain ⟨more, hmore⟩ := h
      exact hhead (by simp [← hmore])

theorem guarded_longBasicBody {run : Nat} (hrun : run ≤ 2) (cs : List Char) :
    Guarded '"' ['"', '"', '"'] false (longBasicBody run cs) := by
  induction cs generalizing run with
  | nil => rfl
  | cons c cs ih =>
    have hnot := not_prefix_longBasicBody hrun (c :: cs)
    rw [longBasicBody] at hnot ⊢
    split_ifs at hnot ⊢ with hc hlt hfeed
    · -- Three quotes from here on would be more than the run before them leaves room for.
      refine ⟨fun _ h => hnot (List.IsPrefix.trans ?_ h), ih (by omega)⟩
      exact List.prefix_replicate_iff (n := 3).mpr ⟨by simp, by simp⟩
    · exact piece_quote.guarded_append (ih (by omega))
    · exact ⟨by simp, ih (by omega)⟩
    · exact (piece_escaped hc).guarded_append (ih (by omega))

theorem feed_not_mem_longBasicBody {run : Nat} (h : '\n' ∉ cs) : '\n' ∉ longBasicBody run cs := by
  induction cs generalizing run with
  | nil => simp [longBasicBody]
  | cons c cs ih =>
    rw [List.mem_cons, not_or] at h
    rw [longBasicBody]
    split_ifs with hc hlt hfeed
    · simpa using ih h.2
    · simpa using ih h.2
    · exact absurd hfeed.symm h.1
    · rw [List.mem_append, not_or]
      exact ⟨(piece_escaped hc).feed_not_mem, ih h.2⟩

theorem unescape_longBasicBody (run : Nat) (cs : List Char) :
    unescape true 0 (longBasicBody run cs) = some cs := by
  induction cs generalizing run with
  | nil => rfl
  | cons c cs ih =>
    rw [longBasicBody]
    split_ifs with hc hlt hfeed
    · have hstands : mayStand true '"' (longBasicBody (run + 1) cs) = true := by
        simp [mayStand, show isForbidden '"' = false by decide]
      simp [unescape, hstands, ih, hc]
    · have h := piece_quote.unescape_append true (longBasicBody 0 cs)
      simpa [ih, hc] using h
    · simp [unescape, mayStand, ih, hfeed]
    · rw [(piece_escaped hc).unescape_append, ih, Option.map_some]

/-- Between single quotes a text is guarded that its delimiter does not occur in. -/
theorem guarded_of_not_isInfix {stop : List Char} (h : ¬ stop <:+: cs) :
    Guarded '\'' stop false cs := by
  induction cs with
  | nil => rfl
  | cons c cs ih =>
    refine ⟨fun _ hprefix => h hprefix.isInfix, ?_⟩
    rw [show escapesNext '\'' false c = false from rfl]
    exact ih fun hpart => h (hpart.trans (List.suffix_cons c cs).isInfix)

theorem verbatim_of_no_escape (h : ∀ c ∈ cs, needsEscape c = false)
    (hline : long = false → '\n' ∉ cs) : verbatim long cs = some cs := by
  induction cs with
  | nil => rfl
  | cons c cs ih =>
    rw [List.forall_mem_cons] at h
    have hstands : mayStand long c cs = true := by
      by_cases hfeed : c = '\n'
      · have hlong : long = true := by
          by_contra hno
          exact hline (by simpa using hno) (by simp [hfeed])
        simp [mayStand, hlong, hfeed]
      · have hallowed : isForbidden c = false := by
          have hescape := h.1
          simp_all [needsEscape, isForbidden]
        simp [mayStand, hallowed]
    have htail := ih h.2 fun hlong hmem => hline hlong (List.mem_cons_of_mem _ hmem)
    simp [verbatim, hstands, htail]

theorem dropBreak_of_not_mem (h : '\n' ∉ cs) : dropBreak cs = cs := by
  unfold dropBreak
  split
  · simp at h
  · simp at h
  · rfl

/-! ## The choice of a style -/

theorem le_longestRunFrom (q : Char) (current best : Nat) (cs : List Char) :
    best ≤ longestRunFrom q current best cs := by
  induction cs generalizing current best with
  | nil => exact Nat.le_refl _
  | cons c cs ih =>
    rw [longestRunFrom]
    split_ifs
    · exact Nat.le_trans (Nat.le_max_left ..) (ih ..)
    · exact ih ..

/-- A run that goes on counts in full. -/
theorem add_le_longestRunFrom (q : Char) {n : Nat} (hn : 0 < n) (current best : Nat)
    (cs : List Char) :
    current + n ≤ longestRunFrom q current best (List.replicate n q ++ cs) := by
  induction n generalizing current best with
  | zero => contradiction
  | succ n ih =>
    rw [List.replicate_succ, List.cons_append, longestRunFrom, if_pos rfl]
    cases n with
    | zero => exact Nat.le_trans (Nat.le_max_right ..) (le_longestRunFrom ..)
    | succ n =>
      have h := ih (by omega) (current + 1) (max best (current + 1))
      omega

/-- No run of a quote is longer than the longest. -/
theorem le_longestRun_of_isInfix {q : Char} {n : Nat} (hn : 0 < n)
    (h : List.replicate n q <:+: cs) : n ≤ longestRun q cs := by
  obtain ⟨front, back, rfl⟩ := h
  rw [longestRun]
  have hfrom (current best : Nat) :
      n ≤ longestRunFrom q current best (front ++ (List.replicate n q ++ back)) := by
    induction front generalizing current best with
    | nil => exact Nat.le_trans (Nat.le_add_left ..) (add_le_longestRunFrom q hn current best back)
    | cons c front ih =>
      rw [List.cons_append, longestRunFrom]
      split_ifs
      · exact ih ..
      · exact ih ..
  rw [List.append_assoc]
  exact hfrom 0 0

/-- What a style asks of the texts that are written in it: those without escapes hold nothing that needs
one, and not their delimiter. -/
def Style.Fits : Style → List Char → Prop
  | .basic, _ => True
  | .longBasic, _ => True
  | .literal, cs => (∀ c ∈ cs, needsEscape c = false) ∧ ¬ ['\''] <:+: cs ∧ '\n' ∉ cs
  | .longLiteral, cs => (∀ c ∈ cs, needsEscape c = false) ∧ ¬ ['\'', '\'', '\''] <:+: cs

/-- Every text is written in a style that it fits. -/
theorem fits_styleOf (cs : List Char) : (styleOf cs).Fits cs := by
  have hruns {n : Nat} (hn : longestRun '\'' cs ≤ n) : ¬ List.replicate (n + 1) '\'' <:+: cs := by
    intro h
    have := le_longestRun_of_isInfix (Nat.succ_pos n) h
    omega
  have hescapes (h : cs.any needsEscape = false) : ∀ c ∈ cs, needsEscape c = false := by
    simpa using h
  simp only [styleOf]
  split_ifs with hbasic hliteral hlongBasic hlongLiteral hbreaks
  · trivial
  · simp only [Bool.and_eq_true, Bool.not_eq_true', decide_eq_true_eq, List.contains_eq_mem,
      decide_eq_false_iff_not] at hliteral
    obtain ⟨⟨hnone, hsingles⟩, hline⟩ := hliteral
    exact ⟨hescapes hnone, hruns (Nat.le_of_eq hsingles), hline⟩
  · trivial
  · simp only [Bool.and_eq_true, Bool.not_eq_true', decide_eq_true_eq] at hlongLiteral
    exact ⟨hescapes hlongLiteral.1, hruns hlongLiteral.2⟩
  · trivial
  · trivial

/-! ## Whole strings -/

/-- What follows a string does not go on with a quote. -/
theorem head?_ne_of_stops (h : Stops isQuoteMark rest) (hquote : isQuoteMark quote = true) :
    rest.head? ≠ some quote := by
  intro hhead
  have := h quote hhead
  rw [hquote] at this
  contradiction

theorem cutQuoted_basic (h : ¬ ['"', '"'] <+: cs) :
    cutQuoted ('"' :: cs) = some (.basic, cutLine '"' false cs) := by
  unfold cutQuoted
  split <;> simp_all

theorem cutQuoted_literal (h : ¬ ['\'', '\''] <+: cs) :
    cutQuoted ('\'' :: cs) = some (.literal, cutLine '\'' false cs) := by
  unfold cutQuoted
  split <;> simp_all

/-- Behind a guarded body on one line no delimiter of several lines begins. -/
theorem not_prefix_of_guarded (h : Guarded quote [quote] false body)
    (hrest : rest.head? ≠ some quote) : ¬ [quote, quote] <+: body ++ quote :: rest := by
  cases body with
  | nil =>
    cases rest with
    | nil => simp
    | cons c rest => simpa using Ne.symm (by simpa using hrest)
  | cons c body =>
    have hc := h.1 rfl
    simp_all

/-- The line feed that a text over several lines is written behind. -/
def lead (cs : List Char) : List Char := if cs.contains '\n' then ['\n'] else []

theorem writeAs_longBasic (cs : List Char) : writeAs .longBasic cs =
    ['"', '"', '"'] ++ lead cs ++ longBasicBody 0 cs ++ ['"', '"', '"'] := rfl

theorem writeAs_longLiteral (cs : List Char) : writeAs .longLiteral cs =
    ['\'', '\'', '\''] ++ lead cs ++ cs ++ ['\'', '\'', '\''] := rfl

theorem guarded_lead_append {stop : List Char} (hquote : quote ≠ '\n')
    (h : Guarded quote (quote :: stop) false body) :
    Guarded quote (quote :: stop) false (lead cs ++ body) := by
  unfold lead
  split_ifs
  · have hnext : escapesNext quote false '\n' = false := by simp [escapesNext]
    refine ⟨fun _ => by simp [hquote], ?_⟩
    rwa [hnext]
  · exact h

theorem dropBreak_lead_append (h : '\n' ∉ cs → '\n' ∉ body) : dropBreak (lead cs ++ body) = body := by
  unfold lead
  split_ifs with hfeed
  · rfl
  · exact dropBreak_of_not_mem (h (by simpa using hfeed))

/-- A written string is cut off as a whole, and its body is decoded to its text. -/
theorem cutQuoted_writeAs (hfits : style.Fits cs) (hrest : Stops isQuoteMark rest) :
    ∃ cut, cutQuoted (writeAs style cs ++ rest) = some (style, cut) ∧ cut.closed = true ∧
      cut.rest = rest ∧ decode? style cut.body = some cs := by
  have hdouble : rest.head? ≠ some '"' := head?_ne_of_stops hrest rfl
  have hsingle : rest.head? ≠ some '\'' := head?_ne_of_stops hrest rfl
  cases style with
  | basic =>
    have hguarded := guarded_basicBody cs
    have hcut : cutLine '"' false (basicBody cs ++ '"' :: rest) = ⟨basicBody cs, true, rest⟩ :=
      cutLine_of_guarded hguarded (feed_not_mem_basicBody cs)
    have hquoted := cutQuoted_basic (not_prefix_of_guarded hguarded hdouble)
    refine ⟨⟨basicBody cs, true, rest⟩, ?_, rfl, rfl, unescape_basicBody cs⟩
    simpa [writeAs, hcut] using hquoted
  | literal =>
    obtain ⟨hescapes, hquote, hline⟩ := hfits
    have hguarded := guarded_of_not_isInfix hquote
    have hcut : cutLine '\'' false (cs ++ '\'' :: rest) = ⟨cs, true, rest⟩ :=
      cutLine_of_guarded hguarded hline
    have hquoted := cutQuoted_literal (not_prefix_of_guarded hguarded hsingle)
    refine ⟨⟨cs, true, rest⟩, ?_, rfl, rfl, verbatim_of_no_escape hescapes fun _ => hline⟩
    simpa [writeAs, hcut] using hquoted
  | longBasic =>
    have hguarded : Guarded '"' ['"', '"', '"'] false (lead cs ++ longBasicBody 0 cs) :=
      guarded_lead_append (by decide) (guarded_longBasicBody (by omega) cs)
    have hcut := cutLong_of_guarded hguarded hdouble
    refine ⟨⟨lead cs ++ longBasicBody 0 cs, true, rest⟩, ?_, rfl, rfl, ?_⟩
    · simp [writeAs_longBasic, cutQuoted, ← hcut]
    · rw [decode?, dropBreak_lead_append feed_not_mem_longBasicBody, unescape_longBasicBody]
  | longLiteral =>
    obtain ⟨hescapes, hquotes⟩ := hfits
    have hguarded : Guarded '\'' ['\'', '\'', '\''] false (lead cs ++ cs) :=
      guarded_lead_append (by decide) (guarded_of_not_isInfix hquotes)
    have hcut := cutLong_of_guarded hguarded hsingle
    refine ⟨⟨lead cs ++ cs, true, rest⟩, ?_, rfl, rfl, ?_⟩
    · simp [writeAs_longLiteral, cutQuoted, ← hcut]
    · rw [decode?, dropBreak_lead_append id, verbatim_of_no_escape hescapes (by simp)]

/-- What is written for a string reads as the string, unless a quote comes right after it. -/
theorem plainValue_writeString (s : String) (hrest : Stops isQuoteMark rest) :
    plainValue ((writeString s).toList ++ rest) = some (.ok (.string s), rest) := by
  obtain ⟨cut, hcut, hclosed, hcutrest, hdecode⟩ := cutQuoted_writeAs (fits_styleOf s.toList) hrest
  have htext : cut.text (styleOf s.toList) = .ok s := by
    simp [Cut.text, hclosed, hdecode, orMalformed, Except.map]
  rw [writeString, String.toList_ofList, plainValue, hcut]
  simp [htext, hcutrest, Except.map]

/-- A written string begins with a quote. -/
theorem exists_writeString_eq (s : String) :
    ∃ quote cs, (writeString s).toList = quote :: cs ∧ isQuoteMark quote = true := by
  rw [writeString, String.toList_ofList]
  cases styleOf s.toList with
  | basic => exact ⟨'"', _, rfl, rfl⟩
  | literal => exact ⟨'\'', _, rfl, rfl⟩
  | longBasic => exact ⟨'"', _, rfl, rfl⟩
  | longLiteral => exact ⟨'\'', _, rfl, rfl⟩

end SchemaModules.Toml

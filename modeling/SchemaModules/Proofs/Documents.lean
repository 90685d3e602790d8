import SchemaModules.Proofs.Quoting
import SchemaModules.Toml.Document

/-!
# What is written as a statement is read back

An entry is written on a line of its own, with a bare key and a value that ends with the line. The reader
settles the form of such a line whatever comes after it, so the form of a document is the forms of its
lines, one after the other.
-/

namespace SchemaModules.Toml

open Text

variable {c : Char} {cs rest : List Char} {name text : String} {v : Value}

/-! ## Where the reader stops -/

/-- A character that is neither part of a gap nor of a line break nor begins a comment. -/
def isSolid (c : Char) : Bool := !(isGap c || c = '\n' || c = '\r' || c = '#')

theorem trivia_cons_of_solid (h : isSolid c = true) (cs : List Char) :
    trivia false (c :: cs) = some (c :: cs) := by
  simp_all [isSolid, trivia]

theorem dropGap_cons_of_solid (h : isSolid c = true) (cs : List Char) :
    dropGap (c :: cs) = c :: cs := by
  simp_all [isSolid, dropGap]

theorem endsLine_cons_of_solid (h : isSolid c = true) (cs : List Char) :
    endsLine (c :: cs) = false := by
  simp_all [isSolid, endsLine]

theorem isSolid_of_isQuoteMark (h : isQuoteMark c = true) : isSolid c = true := by
  simp only [isQuoteMark, Bool.or_eq_true, decide_eq_true_eq] at h
  obtain rfl | rfl := h <;> rfl

theorem cutQuoted_cons_of_not_isQuoteMark (h : isQuoteMark c = false) (cs : List Char) :
    cutQuoted (c :: cs) = none := by
  simp only [isQuoteMark, Bool.or_eq_false_iff, decide_eq_false_iff_not] at h
  unfold cutQuoted
  split <;> simp_all

/-! ## Values -/

theorem value_writeString (depth : Nat) (s : String) (hrest : Stops isQuoteMark rest) :
    value depth ((writeString s).toList ++ rest) = some (.ok (.string s), rest) := by
  have hplain := plainValue_writeString s hrest
  cases depth with
  | zero => exact hplain
  | succ depth =>
    obtain ⟨quote, cs, heq, hquote⟩ := exists_writeString_eq s
    rw [heq, List.cons_append] at hplain ⊢
    unfold value
    split
    · simp_all [isQuoteMark]
    · simp_all [isQuoteMark]
    · exact hplain

/-- The strings of a list, as they stand between its brackets. -/
def separated (xs : List String) : List Char := (", ".intercalate (xs.map writeString)).toList

theorem writeStrings_toList (xs : List String) :
    (writeStrings xs).toList = '[' :: (separated xs ++ [']']) := by
  rw [writeStrings, String.toList_append, String.toList_append]
  rfl

theorem separated_cons_cons (x y : String) (xs : List String) :
    separated (x :: y :: xs) = (writeString x).toList ++ ',' :: ' ' :: separated (y :: xs) := by
  rw [separated, List.map_cons, List.map_cons, String.intercalate_cons_cons, String.toList_append,
    String.toList_append, List.append_assoc]
  rfl

theorem separated_singleton (x : String) : separated [x] = (writeString x).toList := by
  rw [separated, List.map_singleton, String.intercalate_singleton]

/-- The strings of a list take at least a character each. -/
theorem length_le_separated (xs : List String) : xs.length ≤ (separated xs).length := by
  induction xs with
  | nil => exact Nat.zero_le _
  | cons x xs ih =>
    obtain ⟨quote, cs, heq, -⟩ := exists_writeString_eq x
    cases xs with
    | nil => simp [separated_singleton, heq]
    | cons y xs =>
      rw [separated_cons_cons, heq]
      simp only [List.length_cons, List.length_append] at ih ⊢
      omega

theorem sequence_space {α : Type} (item : Reader α) (closer : Char) (count : Nat) (cs : List Char) :
    sequence item closer count (' ' :: cs) = sequence item closer count cs := by
  cases count with
  | zero => rfl
  | succ count => simp [sequence, trivia, isGap]

/-- The strings of a list are read one by one as far as the bracket behind them. -/
theorem sequence_separated (depth : Nat) {xs : List String} {count : Nat} (hcount : xs.length < count) :
    sequence (value depth) ']' count (separated xs ++ ']' :: rest) =
      some (xs.map fun x => .ok (.string x), rest) := by
  have hcloser : isSolid ']' = true := rfl
  have hcomma : isSolid ',' = true := rfl
  induction xs generalizing count with
  | nil =>
    obtain ⟨count, rfl⟩ := Nat.exists_eq_add_of_lt hcount
    simp [separated, sequence, trivia_cons_of_solid hcloser]
  | cons x xs ih =>
    obtain ⟨count, rfl⟩ : ∃ n, count = n + 1 := ⟨count - 1, by omega⟩
    obtain ⟨quote, cs, heq, hquote⟩ := exists_writeString_eq x
    have hne : quote ≠ ']' := by
      rintro rfl
      exact absurd hquote (by decide)
    have hstart := trivia_cons_of_solid (isSolid_of_isQuoteMark hquote)
    cases xs with
    | nil =>
      have hvalue := value_writeString depth x (stops_cons (show isQuoteMark ']' = false from rfl) rest)
      rw [heq, List.cons_append] at hvalue
      rw [separated_singleton, heq, List.cons_append]
      simp [sequence, hstart, hne, hvalue, trivia_cons_of_solid hcloser]
    | cons y xs =>
      have hvalue := value_writeString depth x
        (stops_cons (show isQuoteMark ',' = false from rfl) (' ' :: (separated (y :: xs) ++ ']' :: rest)))
      rw [heq, List.cons_append] at hvalue
      have hothers := ih (Nat.lt_of_succ_lt_succ hcount)
      rw [separated_cons_cons, heq, List.append_assoc, List.cons_append, List.cons_append,
        List.cons_append]
      simp [sequence, hstart, hne, hvalue, trivia_cons_of_solid hcomma, sequence_space, hothers]

theorem value_writeStrings (depth : Nat) (xs : List String) :
    value (depth + 1) ((writeStrings xs).toList ++ rest) =
      some (.ok (.array (xs.map .string)), rest) := by
  have hcount : xs.length < (separated xs ++ ']' :: rest).length + 1 := by
    have := length_le_separated xs
    rw [List.length_append]
    omega
  have hcollect : collect (xs.map fun x => .ok (.string x)) = .ok (xs.map Value.string) := by
    have h := collect_map_ok (xs.map Value.string)
    rwa [List.map_map] at h
  rw [writeStrings_toList, List.cons_append, List.append_assoc, List.singleton_append, value,
    sequence_separated depth hcount, Option.map_some, hcollect]
  rfl

/-- What is written for a value reads as the value where its line ends, and begins with it. -/
structure Reads (text : String) (v : Value) : Prop where
  /-- No gap, comment or line break comes before the value. -/
  exists_solid : ∃ c cs, text.toList = c :: cs ∧ isSolid c = true
  /-- The value ends with the line. -/
  value_append : ∀ rest, value maxDepth (text.toList ++ '\n' :: rest) = some (.ok v, '\n' :: rest)

theorem reads_writeString (s : String) : Reads (writeString s) (.string s) where
  exists_solid := by
    obtain ⟨quote, cs, heq, hquote⟩ := exists_writeString_eq s
    exact ⟨quote, cs, heq, isSolid_of_isQuoteMark hquote⟩
  value_append := fun rest => value_writeString _ s (stops_cons rfl rest)

theorem reads_writeBool (b : Bool) : Reads (writeBool b) (.boolean b) where
  exists_solid := by
    cases b with
    | true => exact ⟨'t', _, rfl, rfl⟩
    | false => exact ⟨'f', _, rfl, rfl⟩
  value_append := by
    intro rest
    cases b with
    | true => rfl
    | false => rfl

theorem reads_writeStrings (xs : List String) : Reads (writeStrings xs) (.array (xs.map .string)) where
  exists_solid := ⟨'[', _, writeStrings_toList xs, rfl⟩
  value_append := fun _ => value_writeStrings _ xs

/-! ## Keys -/

/-- A key of one part that can stand without quotes. -/
structure IsBare (name : String) : Prop where
  /-- There is a character in it. -/
  ne_nil : name.toList ≠ []
  /-- All of its characters can stand without quotes. -/
  all_bare : ∀ c ∈ name.toList, isBareChar c = true

instance (name : String) : Decidable (IsBare name) :=
  decidable_of_iff (name.toList ≠ [] ∧ name.toList.all isBareChar = true)
    ⟨fun h => ⟨h.1, List.all_eq_true.mp h.2⟩, fun h => ⟨h.1, List.all_eq_true.mpr h.2⟩⟩

theorem isInWord_of_isBareChar (h : isBareChar c = true) : isInWord c = true := by
  have hends : (' ' :: '\t' :: wordEnds).any isBareChar = false := by decide
  by_contra hno
  have hmem : c ∈ ' ' :: '\t' :: wordEnds := by
    simp only [isInWord, isGap, Bool.not_eq_true, Bool.not_eq_false', Bool.or_eq_true,
      decide_eq_true_eq, List.contains_iff_mem, or_assoc] at hno
    simpa only [List.mem_cons] using hno
  exact List.any_eq_false.mp hends c hmem h

theorem isSolid_of_isBareChar (h : isBareChar c = true) : isSolid c = true := by
  have hword := isInWord_of_isBareChar h
  simp_all [isInWord, wordEnds, isSolid]

theorem isQuoteMark_of_isBareChar (h : isBareChar c = true) : isQuoteMark c = false := by
  by_contra hno
  simp only [isQuoteMark, Bool.not_eq_false, Bool.or_eq_true, decide_eq_true_eq] at hno
  obtain rfl | rfl := hno
  · exact absurd h (by decide)
  · exact absurd h (by decide)

theorem IsBare.exists_cons (h : IsBare name) :
    ∃ c cs, name.toList = c :: cs ∧ isBareChar c = true := by
  obtain ⟨c, cs, heq⟩ := List.exists_cons_of_ne_nil h.ne_nil
  exact ⟨c, cs, heq, h.all_bare c (by rw [heq]; exact List.mem_cons_self ..)⟩

theorem keyPart_of_isBare (hname : IsBare name) (hrest : Stops isInWord rest) :
    keyPart (name.toList ++ rest) = (some (.ok name), rest) := by
  have hword : ∀ c ∈ name.toList, isInWord c = true := fun c hc =>
    isInWord_of_isBareChar (hname.all_bare c hc)
  have htake := takeWhile_of_stops hword hrest
  have hall : name.toList.all isBareChar = true := List.all_eq_true.mpr hname.all_bare
  have hnone : cutQuoted (name.toList ++ rest) = none := by
    obtain ⟨c, cs, heq, hc⟩ := hname.exists_cons
    rw [heq, List.cons_append]
    exact cutQuoted_cons_of_not_isQuoteMark (isQuoteMark_of_isBareChar hc) _
  simp [keyPart, hnone, htake, hname.ne_nil, hall]

/-- A bare key is all of a key, unless a dot comes after it. -/
theorem keyParts_of_isBare (hname : IsBare name) (hrest : Stops isInWord rest)
    (hdot : (dropGap rest).head? ≠ some '.') (count : Nat) :
    keyParts (count + 1) (name.toList ++ rest) = ([some (.ok name)], dropGap rest) := by
  rw [keyParts, keyPart_of_isBare hname hrest]
  simp only
  split
  · next heq => simp [heq] at hdot
  · rfl

theorem keyOf_singleton (name : String) : keyOf [some (.ok name)] = .ok [name] := rfl

/-! ## Statements -/

theorem toList_writeEntry (name text : String) : (writeEntry name text).toList =
    name.toList ++ ' ' :: '=' :: ' ' :: (text.toList ++ ['\n']) := by
  simp [writeEntry]

/-- An entry is read to the end of its value. -/
theorem entry_writeEntry (hname : IsBare name) (htext : Reads text v) (rest : List Char) :
    entry (fun cs => some (dropGap cs)) lineValue ((writeEntry name text).toList ++ rest) =
      some (.ok ([name], v), '\n' :: rest) := by
  obtain ⟨c, cs, heq, hsolid⟩ := htext.exists_solid
  have hvalue := htext.value_append rest
  have hkey (count : Nat) (more : List Char) :
      keyParts (count + 1) (name.toList ++ ' ' :: '=' :: more) = ([some (.ok name)], '=' :: more) :=
    keyParts_of_isBare hname (stops_cons rfl _) (by simp [dropGap, isGap]) count
  have hgap (more : List Char) : dropGap ('=' :: more) = '=' :: more :=
    dropGap_cons_of_solid rfl more
  have hspace : dropGap (' ' :: (c :: cs ++ '\n' :: rest)) = c :: cs ++ '\n' :: rest :=
    dropGap_cons_of_solid hsolid _
  have hline : endsLine (c :: cs ++ '\n' :: rest) = false := endsLine_cons_of_solid hsolid _
  rw [heq] at hvalue
  have hall : (writeEntry name text).toList ++ rest =
      name.toList ++ ' ' :: '=' :: ' ' :: (c :: cs ++ '\n' :: rest) := by
    simp [toList_writeEntry, heq]
  rw [entry, key, hall, hkey]
  simp only [hgap, hspace, lineValue, hline, hvalue, keyOf_singleton, pair, Option.map_some,
    Bool.false_eq_true, if_false]

/-- The form of a written entry, whatever comes after its line. -/
theorem form_writeEntry (hname : IsBare name) (htext : Reads text v) (rest : List Char) :
    form ((writeEntry name text).toList ++ rest) =
      some (.entry (.ok ([name], v)), '\n' :: rest) := by
  have hentry := entry_writeEntry hname htext rest
  obtain ⟨c, cs, heq, hc⟩ := hname.exists_cons
  have hbracket : c ≠ '[' := by
    rintro rfl
    exact absurd hc (by decide)
  rw [toList_writeEntry, heq, List.cons_append, List.cons_append] at hentry ⊢
  unfold form
  split
  · next heq => exact absurd (List.cons.inj heq).1 hbracket
  · next heq => exact absurd (List.cons.inj heq).1 hbracket
  · rw [hentry, Option.map_some]

/-- The header of an element of an array of tables, on a line of its own. -/
def elementLine (name : String) : List Char := '[' :: '[' :: (name.toList ++ [']', ']', '\n'])

/-- The form of the header of an element, whatever comes after its line. -/
theorem form_elementLine (hname : IsBare name) (rest : List Char) :
    form (elementLine name ++ rest) = some (.element (.ok [name]), '\n' :: rest) := by
  have hgap : dropGap (name.toList ++ ']' :: ']' :: '\n' :: rest) =
      name.toList ++ ']' :: ']' :: '\n' :: rest := by
    obtain ⟨c, cs, heq, hc⟩ := hname.exists_cons
    rw [heq]
    exact dropGap_cons_of_solid (isSolid_of_isBareChar hc) _
  have hkey (count : Nat) :
      keyParts (count + 1) (name.toList ++ ']' :: ']' :: '\n' :: rest) =
        ([some (.ok name)], ']' :: ']' :: '\n' :: rest) :=
    keyParts_of_isBare hname (stops_cons rfl _) (by simp [dropGap, isGap]) count
  simp [elementLine, form, header, hgap, hkey, keyOf_singleton]

/-! ## The forms of a document -/

/-- The forms of the statements of a text, whatever bound is set on their number. -/
def HasForms (cs : List Char) (found : List Form) : Prop :=
  ∀ count, cs.length < count → forms count cs = some found

theorem hasForms_nil : HasForms [] [] := by
  intro count hcount
  cases count with
  | zero => contradiction
  | succ count => rfl

section Lines

variable {line : List Char} {f : Form} {found : List Form}

/-- A line that holds a statement adds its form to those of the lines below. -/
theorem hasForms_append (hsolid : isSolid c = true)
    (hform : form (c :: line ++ cs) = some (f, '\n' :: cs)) (h : HasForms cs found) :
    HasForms (c :: line ++ cs) (f :: found) := by
  intro count hcount
  cases count with
  | zero => contradiction
  | succ count =>
    have hshort : cs.length < count := by
      simp only [List.cons_append, List.length_cons, List.length_append] at hcount
      omega
    have hend : lineEnd ('\n' :: cs) = some cs := rfl
    rw [List.cons_append] at hform ⊢
    simp [forms, trivia_cons_of_solid hsolid, hform, hend, h count hshort]

theorem hasForms_writeEntry (hname : IsBare name) (htext : Reads text v) (h : HasForms cs found) :
    HasForms ((writeEntry name text).toList ++ cs) (.entry (.ok ([name], v)) :: found) := by
  have hform := form_writeEntry hname htext cs
  obtain ⟨c, line, heq, hc⟩ := hname.exists_cons
  rw [toList_writeEntry, heq, List.cons_append] at hform ⊢
  exact hasForms_append (isSolid_of_isBareChar hc) hform h

theorem hasForms_elementLine (hname : IsBare name) (h : HasForms cs found) :
    HasForms (elementLine name ++ cs) (.element (.ok [name]) :: found) :=
  hasForms_append rfl (form_elementLine hname cs) h

/-- An empty line adds no form. -/
theorem hasForms_feed (h : HasForms cs found) : HasForms ('\n' :: cs) found := by
  intro count hcount
  rw [List.length_cons] at hcount
  have hcs := h count (by omega)
  cases count with
  | zero => contradiction
  | succ count =>
    have hfeed : trivia false ('\n' :: cs) = trivia false cs := rfl
    rwa [forms, hfeed]

end Lines

/-- A document whose lines have forms comes down to what these define. -/
theorem document_of_hasForms {found : List Form} (h : HasForms text.toList found)
    (hmark : text.toList.head? ≠ some '\uFEFF') : document text = settle [] [] found := by
  have hdrop : dropMark text.toList = text.toList := by
    unfold dropMark
    split
    · next heq => simp [heq] at hmark
    · rfl
  have hforms := h (text.toList.length + 1) (Nat.lt_succ_self _)
  rw [document, hdrop, hforms]

/-! ## What the lines of one table define -/

theorem defineValue_singleton (ds : Definitions) (here : List String) (name : String) :
    defineValue ds here [name] =
      if (ds.lookup (here ++ [name])).isSome then none else some ((here ++ [name], .value) :: ds) := by
  simp [defineValue, passAll]

theorem defineElement_singleton (ds : Definitions) (name : String) :
    defineElement ds [name] =
      if ds.lookup [name] = none ∨ ds.lookup [name] = some .elements then
        some (([name], .elements) :: ds.filter fun d => !List.isPrefixOf [name] d.1)
      else none := rfl

end SchemaModules.Toml

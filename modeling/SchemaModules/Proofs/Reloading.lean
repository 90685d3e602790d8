import SchemaModules.Config.Toml
import SchemaModules.Proofs.Documents

/-!
# A printed configuration is read back

The lines of a printed configuration are those of its fields, and then for each bucket the header of an
element and two entries. None of them defines what another has defined already, and no field is left
out, so nothing is filled in from the standard configuration when the text is read. In particular a
configuration without buckets is printed with an empty list of them.
-/

namespace SchemaModules

open Toml

namespace Config

variable {b : Bucket} {c : Config} {ds : Definitions} {here path : List String} {fields : Fields}
  {rest : List Form}

/-! ## The statements of a printed configuration -/

/-- The form of an entry that gives a field. -/
def entryForm (f : String × Toml.Value) : Form := .entry (.ok ([f.1], f.2))

/-- The statement of an entry that gives a field. -/
def entryStatement (f : String × Toml.Value) : Statement := .entry [f.1] f.2

/-- The fields before the first bucket. An empty list of buckets is a field among them. -/
def topFields (c : Config) : Fields :=
  [("default_bucket", .string c.defaultBucket), ("extension", .string c.extension),
    ("index_name", .string c.indexName), ("keep_leading_comments", .boolean c.keepLeadingComments),
    ("header", .string c.header)] ++ if c.buckets.isEmpty then [("bucket", .array [])] else []

/-- The fields of a bucket. -/
def bucketFields (b : Bucket) : Fields :=
  [("name", .string b.name), ("entities", .array (b.entities.map .string))]

/-- The forms of the lines of a bucket. -/
def bucketForms (b : Bucket) : List Form :=
  .element (.ok ["bucket"]) :: (bucketFields b).map entryForm

/-- The statements of the lines of a bucket. -/
def bucketStatements (b : Bucket) : List Statement :=
  .element ["bucket"] :: (bucketFields b).map entryStatement

theorem toList_bucketToml (b : Bucket) : (bucketToml b).toList =
    '\n' :: (elementLine "bucket" ++ ((writeEntry "name" (writeString b.name)).toList ++
      (writeEntry "entities" (writeStrings b.entities)).toList)) := by
  rw [bucketToml, String.toList_append, String.toList_append, List.append_assoc]
  rfl

theorem hasForms_bucketToml {cs : List Char} (h : HasForms cs rest) :
    HasForms ((bucketToml b).toList ++ cs) (bucketForms b ++ rest) := by
  have hentities : HasForms ((writeEntry "entities" (writeStrings b.entities)).toList ++ cs) _ :=
    hasForms_writeEntry (by decide) (reads_writeStrings b.entities) h
  have hname : HasForms ((writeEntry "name" (writeString b.name)).toList ++ _) _ :=
    hasForms_writeEntry (by decide) (reads_writeString b.name) hentities
  have hall := hasForms_feed (hasForms_elementLine (by decide : IsBare "bucket") hname)
  rw [toList_bucketToml]
  simpa [bucketForms, bucketFields, entryForm] using hall

theorem hasForms_buckets (bs : List Bucket) :
    HasForms (String.join (bs.map bucketToml)).toList (bs.flatMap bucketForms) := by
  induction bs with
  | nil => exact hasForms_nil
  | cons b bs ih =>
    have h := hasForms_bucketToml (b := b) ih
    simpa using h

/-- Every line of a printed configuration has the form of what it is written for. -/
theorem hasForms_toToml (c : Config) :
    HasForms c.toToml.toList ((topFields c).map entryForm ++ c.buckets.flatMap bucketForms) := by
  have hend : HasForms
      (if c.buckets.isEmpty then writeEntry "bucket" "[]"
        else String.join (c.buckets.map bucketToml)).toList
      ((if c.buckets.isEmpty then [("bucket", .array [])] else ([] : Fields)).map entryForm ++
        c.buckets.flatMap bucketForms) := by
    cases hbuckets : c.buckets with
    | nil =>
      have hempty : Reads "[]" (.array []) := reads_writeStrings []
      have h := hasForms_writeEntry (by decide : IsBare "bucket") hempty hasForms_nil
      simpa [entryForm] using h
    | cons b bs => exact hasForms_buckets (b :: bs)
  have hheader := hasForms_writeEntry (by decide : IsBare "header") (reads_writeString c.header) hend
  have hkeep := hasForms_writeEntry (by decide : IsBare "keep_leading_comments")
    (reads_writeBool c.keepLeadingComments) hheader
  have hindex := hasForms_writeEntry (by decide : IsBare "index_name")
    (reads_writeString c.indexName) hkeep
  have hextension := hasForms_writeEntry (by decide : IsBare "extension")
    (reads_writeString c.extension) hindex
  have hdefault := hasForms_writeEntry (by decide : IsBare "default_bucket")
    (reads_writeString c.defaultBucket) hextension
  simpa only [toToml, topFields, entryForm, String.toList_append, List.append_assoc, List.map_append,
    List.map_cons, List.map_nil, List.cons_append, List.nil_append] using hdefault

/-! ## What the statements define -/

/-- The definitions after the fields have been defined in the table at `here`. -/
def defined (here : List String) (fields : Fields) (ds : Definitions) : Definitions :=
  fields.foldl (fun ds f => (here ++ [f.1], .value) :: ds) ds

/-- The fields of a table define nothing elsewhere. -/
theorem lookup_defined (h : ∀ f ∈ fields, here ++ [f.1] ≠ path) :
    (defined here fields ds).lookup path = ds.lookup path := by
  induction fields generalizing ds with
  | nil => rfl
  | cons f fields ih =>
    rw [List.forall_mem_cons] at h
    have hne : (path == here ++ [f.1]) = false := by simpa using Ne.symm h.1
    have hfields : (defined here (f :: fields) ds).lookup path =
        List.lookup path ((here ++ [f.1], .value) :: ds) := ih h.2
    rw [hfields, List.lookup_cons, hne]

/-- Fields with keys of their own can be defined in a table that has none of them. -/
theorem settle_entries {others : List Statement} (hkeys : (fields.map Prod.fst).Nodup)
    (hfree : ∀ f ∈ fields, ds.lookup (here ++ [f.1]) = none)
    (h : settle (defined here fields ds) here rest = .ok others) :
    settle ds here (fields.map entryForm ++ rest) = .ok (fields.map entryStatement ++ others) := by
  induction fields generalizing ds with
  | nil => exact h
  | cons f fields ih =>
    obtain ⟨hfirst, hothers⟩ := List.forall_mem_cons.mp hfree
    obtain ⟨hfresh, hnodup⟩ := List.nodup_cons.mp hkeys
    have hrest : ∀ g ∈ fields, List.lookup (here ++ [g.1]) ((here ++ [f.1], .value) :: ds) = none := by
      intro g hg
      have hne : g.1 ≠ f.1 := fun heq => hfresh (heq ▸ List.mem_map_of_mem hg)
      have hpath : (here ++ [g.1] == here ++ [f.1]) = false := by simpa using hne
      rw [List.lookup_cons, hpath]
      exact hothers g hg
    have hdefine : defineValue ds here [f.1] = some ((here ++ [f.1], .value) :: ds) := by
      simp [defineValue_singleton, hfirst]
    rw [List.map_cons, List.cons_append, entryForm, settle, hdefine]
    simp only [ih hnodup hrest h]
    rfl

/-- Below a new element nothing is defined. -/
theorem lookup_filter_of_prefix (hpath : here <+: path) :
    List.lookup path (ds.filter fun d => !here.isPrefixOf d.1) = none := by
  rw [List.lookup_eq_none_iff]
  intro d hd
  have hnot := (List.mem_filter.mp hd).2
  rw [bne_iff_ne]
  rintro rfl
  rw [List.isPrefixOf_iff_prefix.mpr hpath] at hnot
  contradiction

/-- Buckets can be defined one after the other where no other kind of thing has their name. -/
theorem settle_buckets (bs : List Bucket)
    (hfree : ds.lookup ["bucket"] = none ∨ ds.lookup ["bucket"] = some .elements) :
    settle ds here (bs.flatMap bucketForms) = .ok (bs.flatMap bucketStatements) := by
  induction bs generalizing ds here with
  | nil => rfl
  | cons b bs ih =>
    have hnodup : ((bucketFields b).map Prod.fst).Nodup := by
      have hkeys : (bucketFields b).map Prod.fst = ["name", "entities"] := rfl
      rw [hkeys]
      decide
    obtain ⟨ds', hds'⟩ : ∃ ds', ds' = (["bucket"], .elements) :: ds.filter
        fun d => !List.isPrefixOf ["bucket"] d.1 := ⟨_, rfl⟩
    have helement : defineElement ds ["bucket"] = some ds' := by
      rw [defineElement_singleton, if_pos hfree, hds']
    have hpath (name : String) : (["bucket"] ++ [name] == ["bucket"]) = false := by simp
    have hnone : ∀ f ∈ bucketFields b, ds'.lookup (["bucket"] ++ [f.1]) = none := by
      intro f _
      rw [hds', List.lookup_cons, hpath]
      exact lookup_filter_of_prefix (List.prefix_append ..)
    have hothers : settle (defined ["bucket"] (bucketFields b) ds') ["bucket"]
        (bs.flatMap bucketForms) = .ok (bs.flatMap bucketStatements) := by
      refine ih (.inr ?_)
      rw [lookup_defined fun f _ => by simp, hds']
      rfl
    have hfields := settle_entries hnodup hnone hothers
    rw [List.flatMap_cons, List.flatMap_cons, bucketForms, List.cons_append, settle, helement]
    simp only [hfields]
    rfl

/-! ## What the statements say -/

theorem layout_entries (fields : Fields) {statements : List Statement} {top : Fields}
    {buckets : List Fields} (h : layout statements = some (top, buckets)) :
    layout (fields.map entryStatement ++ statements) = some (fields ++ top, buckets) := by
  induction fields with
  | nil => exact h
  | cons f fields ih => simp [entryStatement, layout, ih]

theorem layout_buckets (bs : List Bucket) :
    layout (bs.flatMap bucketStatements) = some ([], bs.map bucketFields) := by
  induction bs with
  | nil => rfl
  | cons b bs ih =>
    have h := layout_entries (bucketFields b) ih
    rw [List.flatMap_cons, bucketStatements, List.cons_append]
    simp [layout, h]

/-- What is read back one by one is read back as a list. -/
theorem mapM_map_eq_some {α β : Type} {write : α → β} {read : β → Option α}
    (h : ∀ a, read (write a) = some a) (as : List α) : (as.map write).mapM read = some as := by
  have hread : read ∘ write = fun a => pure a := funext h
  rw [List.mapM_map, hread, List.mapM_pure, List.map_id']
  rfl

theorem stringsOf?_array (xs : List String) : stringsOf? (.array (xs.map .string)) = some xs := by
  have hstring (x : String) : stringOf? (.string x) = some x := rfl
  exact mapM_map_eq_some hstring xs

theorem bucketOfFields?_bucketFields (b : Bucket) : bucketOfFields? (bucketFields b) = some b := by
  have hname : (bucketFields b).lookup "name" = some (.string b.name) := rfl
  have hentities : (bucketFields b).lookup "entities" = some (.array (b.entities.map .string)) := rfl
  have hknown : allKnown ["name", "entities"] (bucketFields b) = true := rfl
  simp [bucketOfFields?, hknown, hname, hentities, stringOf?, fieldOr, stringsOf?_array]

/-- The buckets are those of the tables, or there are none and the field says so. -/
theorem readBuckets_topFields (c : Config) :
    readBuckets c.topFields (c.buckets.map bucketFields) = some c.buckets := by
  cases hbuckets : c.buckets with
  | nil =>
    have hfield : c.topFields.lookup "bucket" = some (.array []) := by
      rw [topFields, hbuckets]
      rfl
    have hnone : bucketsOf? (.array []) = some [] := rfl
    simp [readBuckets, fieldOr, hfield, hnone]
  | cons b bs => exact mapM_map_eq_some bucketOfFields?_bucketFields (b :: bs)

/-- The fields before the first bucket have keys of their own, all of which are known. -/
theorem topFields_keys (c : Config) :
    (c.topFields.map Prod.fst).Nodup ∧ allKnown keys c.topFields = true := by
  unfold topFields
  split_ifs
  · exact ⟨by simp, by simp [allKnown, keys]⟩
  · exact ⟨by simp, by simp [allKnown, keys]⟩

/-- The statements of a printed configuration. -/
def statements (c : Config) : List Statement :=
  c.topFields.map entryStatement ++ c.buckets.flatMap bucketStatements

/-- The statements of a printed configuration are its own, whatever its texts are. -/
theorem document_toToml (c : Config) : document c.toToml = .ok c.statements := by
  have hmark : c.toToml.toList.head? ≠ some '\uFEFF' := by
    simp [toToml, toList_writeEntry]
  rw [document_of_hasForms (hasForms_toToml c) hmark]
  refine settle_entries (topFields_keys c).1 (fun _ _ => rfl) ?_
  cases hbuckets : c.buckets with
  | nil => rfl
  | cons b bs =>
    refine settle_buckets (b :: bs) (.inl ?_)
    rw [lookup_defined]
    · rfl
    · simp [topFields, hbuckets]

theorem ofStatements?_statements (c : Config) : ofStatements? c.statements = some c := by
  have hlayout : layout c.statements = some (c.topFields, c.buckets.map bucketFields) := by
    have h := layout_entries c.topFields (layout_buckets c.buckets)
    rwa [List.append_nil] at h
  have hdefault : c.topFields.lookup "default_bucket" = some (.string c.defaultBucket) := rfl
  have hextension : c.topFields.lookup "extension" = some (.string c.extension) := rfl
  have hindex : c.topFields.lookup "index_name" = some (.string c.indexName) := rfl
  have hkeep : c.topFields.lookup "keep_leading_comments" =
    some (.boolean c.keepLeadingComments) := rfl
  have hheader : c.topFields.lookup "header" = some (.string c.header) := rfl
  simp [ofStatements?, hlayout, (topFields_keys c).2, fieldOr, hdefault, hextension, hindex, hkeep,
    hheader, stringOf?, booleanOf?, readBuckets_topFields]

/-- Any configuration is read back from its text. -/
theorem ofToml_toToml (c : Config) : ofToml c.toToml = .ok c := by
  rw [ofToml, document_toToml]
  simp [ofStatements?_statements, orMalformed]

/-- A valid configuration is read back from its text, and is found valid again. -/
theorem ofText_toToml (hvalid : c.Valid) : ofText c.toToml = .ok c := by
  have hdefect : c.defect? = none := hvalid
  rw [ofText, ofToml_toToml]
  simp [hdefect]

/-- A configuration whose texts are written in all styles, with runs of quotes, backslashes, line breaks
and control characters in them, and with a bucket that has no entities. -/
def quotingConfig : Config where
  defaultBucket := "rest"
  extension := "..ts"
  indexName := "index"
  keepLeadingComments := false
  header := "\"\"\"\"\r\n\x00 '''\\ \x7f\""
  buckets := [⟨"base", ["plain", "\"", "'\"\"", "''\\", "'\x1b", "'''\n"]⟩, ⟨"none", []⟩]

theorem quotingConfig_ofText_toToml :
    quotingConfig.Valid ∧ ofText quotingConfig.toToml = .ok quotingConfig := by
  have hvalid : quotingConfig.Valid := by decide
  exact ⟨hvalid, ofText_toToml hvalid⟩

end Config

end SchemaModules

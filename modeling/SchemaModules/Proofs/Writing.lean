import SchemaModules.Output.Write
import SchemaModules.Proofs.Directories

/-!
# Proofs: writing an output

The files of an output are set at their places one after the other, up to the first one that may not be
written. What is written once may be written again, and then the tree stays as it is.
-/

namespace SchemaModules

open SchemaModules.Path Output

namespace FileTree

variable {t t' : FileTree} {out : String} {here : List String} {files : List OutputFile}

/-! ## Writing the files -/

/-- The tree with files at the place `here`. -/
def putAll (t : FileTree) (here : List String) (files : List OutputFile) : FileTree :=
  files.foldl (fun t f => t.set (here ++ [f.fileName]) (.file (.text f.contents))) t

theorem get?_set_file (t : FileTree) (here : List String) (name : String) (contents : Contents)
    (place : List String) : (t.set (here ++ [name]) (.file contents)).get? place =
      if place = here ++ [name] then some (.file contents) else t.get? place :=
  get?_set t _ place (by simp)

theorem get?_putAll_of_ne {place : List String}
    (hplace : ∀ f ∈ files, place ≠ here ++ [f.fileName]) :
    (t.putAll here files).get? place = t.get? place := by
  induction files generalizing t with
  | nil => rfl
  | cons f files ih =>
    obtain ⟨hf, hfiles⟩ := List.forall_mem_cons.mp hplace
    rw [putAll, List.foldl_cons]
    exact (ih hfiles).trans (by rw [get?_set_file, if_neg hf])

/-- Each of the files is there, unless a later one has its name. -/
theorem get?_putAll_of_mem (hnames : (files.map OutputFile.fileName).Nodup) {f : OutputFile}
    (hf : f ∈ files) :
    (t.putAll here files).get? (here ++ [f.fileName]) = some (.file (.text f.contents)) := by
  induction files generalizing t with
  | nil => simp at hf
  | cons g files ih =>
    rw [List.map_cons, List.nodup_cons] at hnames
    rw [putAll, List.foldl_cons]
    rcases List.mem_cons.mp hf with rfl | hf
    · have hother : ∀ g ∈ files, here ++ [f.fileName] ≠ here ++ [g.fileName] := by
        intro g hg heq
        have hname : f.fileName = g.fileName := by simpa using heq
        exact hnames.1 (hname ▸ List.mem_map_of_mem hg)
      exact (get?_putAll_of_ne hother).trans (by rw [get?_set_file, if_pos rfl])
    · exact ih hnames.2 hf

theorem keepsDirectories_putAll
    (hfiles : ∀ f ∈ files, t.get? (here ++ [f.fileName]) ≠ some .directory) :
    KeepsDirectories t (t.putAll here files) := by
  intro place hplace
  rw [get?_putAll_of_ne, hplace]
  rintro f hf rfl
  exact hfiles f hf hplace

/-- The nodes of the files stand before the others, in the opposite order. -/
theorem nodes_putAll (hnames : (files.map OutputFile.fileName).Nodup) :
    (t.putAll here files).nodes =
      (files.map fun f => (here ++ [f.fileName], Node.file (.text f.contents))).reverse ++
        t.nodes.filter fun n => files.all fun f => n.1 != here ++ [f.fileName] := by
  induction files generalizing t with
  | nil => simp [putAll]
  | cons f files ih =>
    rw [List.map_cons, List.nodup_cons] at hnames
    -- the node of the first file is not at the place of a later one, so it is kept
    have hkept : (files.all fun g => here ++ [f.fileName] != here ++ [g.fileName]) = true := by
      rw [List.all_eq_true]
      intro g hg
      have hne : f.fileName ≠ g.fileName := fun heq => hnames.1 (heq ▸ List.mem_map_of_mem hg)
      simpa using hne
    rw [putAll, List.foldl_cons]
    refine (ih hnames.2).trans ?_
    simp only [set, List.filter_cons, hkept, if_true, List.filter_filter, List.map_cons,
      List.reverse_cons, List.append_assoc, List.singleton_append, List.all_cons, Bool.and_comm]

/-- Files that are there already are put there again without a change. -/
theorem putAll_putAll (hnames : (files.map OutputFile.fileName).Nodup) :
    (t.putAll here files).putAll here files = t.putAll here files := by
  have hnodes : ((t.putAll here files).putAll here files).nodes = (t.putAll here files).nodes := by
    rw [nodes_putAll hnames, nodes_putAll hnames, List.filter_append, List.filter_filter]
    have hnone : ((files.map fun f =>
        (here ++ [f.fileName], Node.file (.text f.contents))).reverse.filter fun n =>
          files.all fun f => n.1 != here ++ [f.fileName]) = [] := by
      rw [List.filter_eq_nil_iff]
      intro n hn hall
      obtain ⟨f, hf, rfl⟩ := List.mem_map.mp (List.mem_reverse.mp hn)
      simpa using List.all_eq_true.mp hall f hf
    simp [hnone]
  exact congrArg FileTree.mk hnodes

/-- Whether a file may be written does not change when another one is. -/
theorem admits_set_iff {name other : String} {contents : Contents}
    (hname : t.get? (here ++ [name]) ≠ some .directory) :
    (t.set (here ++ [name]) (.file contents)).Admits out here other ↔ t.Admits out here other := by
  have hfree : (t.set (here ++ [name]) (.file contents)).get? (here ++ [other]) ≠ some .directory ↔
      t.get? (here ++ [other]) ≠ some .directory := by
    rw [get?_set_file]
    by_cases hsame : here ++ [other] = here ++ [name]
    · rw [if_pos hsame, hsame]
      simp [hname]
    · rw [if_neg hsame]
  exact ⟨fun h => ⟨h.allowed, h.short, hfree.mp h.free⟩,
    fun h => ⟨h.allowed, h.short, hfree.mpr h.free⟩⟩

theorem writeText_run (path text : String) (t : FileTree) :
    disk.writeText path text t = update (fun t => t.write path (.text text)) t := rfl

theorem writeFiles_cons_of_error {f : OutputFile} {e : DiskError}
    (h : t.write (join out f.fileName) (.text f.contents) = .error e) :
    writeFiles disk out (f :: files) t = (.error (.unwritable (join out f.fileName) e), t) := by
  rw [writeFiles, bind_run, writeText_run, update_of_error h]
  rfl

theorem writeFiles_cons_of_ok {f : OutputFile}
    (h : t.write (join out f.fileName) (.text f.contents) = .ok t') :
    writeFiles disk out (f :: files) t =
      ((writeFiles disk out files t').1.map fun paths => join out f.fileName :: paths,
        (writeFiles disk out files t').2) := by
  rw [writeFiles, bind_run, writeText_run, update_of_ok h]
  show (writeFiles disk out files >>= _) t' = _
  rw [bind_run]
  obtain ⟨result, rest⟩ := writeFiles disk out files t'
  cases result with
  | error f => rfl
  | ok paths => rfl

/-- The files are written up to the first one that may not be written. -/
theorem writeFiles_cases (hout : t.LeadsTo (parts out) here)
    (hnames : ∀ f ∈ files, isName f.fileName = true) :
    (∀ f ∈ files, t.Admits out here f.fileName) ∧
        writeFiles disk out files t =
          (.ok (files.map fun f => join out f.fileName), t.putAll here files) ∨
      ∃ front f back e, files = front ++ f :: back ∧
        (∀ g ∈ front, t.Admits out here g.fileName) ∧ ¬ t.Admits out here f.fileName ∧
        writeFiles disk out files t =
          (.error (.unwritable (join out f.fileName) e), t.putAll here front) := by
  induction files generalizing t with
  | nil => exact Or.inl ⟨by simp, rfl⟩
  | cons f files ih =>
    obtain ⟨hname, hnames⟩ := List.forall_mem_cons.mp hnames
    by_cases hadmits : t.Admits out here f.fileName
    · have hwrite := write_of_admits hout hname hadmits (.text f.contents)
      have hout' := hout.of_keepsDirectories
        (keepsDirectories_set (by simp) hadmits.free (.file (.text f.contents)))
      rw [writeFiles_cons_of_ok hwrite]
      -- the tree with this file admits the same files as before
      rcases ih hout' hnames with ⟨hall, hrest⟩ | ⟨front, g, back, e, rfl, hfront, hg, hrest⟩
      · refine Or.inl ⟨List.forall_mem_cons.mpr ⟨hadmits, fun g hg => ?_⟩, by rw [hrest]; rfl⟩
        exact (admits_set_iff hadmits.free).mp (hall g hg)
      · refine Or.inr ⟨f :: front, g, back, e, rfl, List.forall_mem_cons.mpr ⟨hadmits,
          fun g' hg' => (admits_set_iff hadmits.free).mp (hfront g' hg')⟩, ?_, by rw [hrest]; rfl⟩
        exact fun hadmits' => hg ((admits_set_iff hadmits.free).mpr hadmits')
    · obtain ⟨e, he⟩ := exists_error_of_not_admits hout hname hadmits (.text f.contents)
      exact Or.inr ⟨[], f, files, e, rfl, by simp, hadmits, writeFiles_cons_of_error he⟩

/-! ## Writing the output -/

/-- The tree has got the files in the directory `out`, which is the place `here`, and directories on
the way. -/
structure Puts (t t' : FileTree) (out : String) (here : List String) (files : List OutputFile) :
    Prop where
  /-- The output is a directory. -/
  directory : t'.LeadsTo (parts out) here
  /-- Each file is there and has its text. -/
  file : ∀ f ∈ files, t'.resolve (join out f.fileName) =
    .ok (here ++ [f.fileName], .file (.text f.contents))
  /-- No directory is lost. -/
  kept : KeepsDirectories t t'
  /-- Elsewhere nothing has changed but for directories on the way. -/
  others : ∀ place, (∀ f ∈ files, place ≠ here ++ [f.fileName]) →
    t'.get? place = t.get? place ∨ IsMade t t' out place

theorem Puts.readText (h : Puts t t' out here files) {f : OutputFile} (hf : f ∈ files) :
    t'.readText (join out f.fileName) = .ok f.contents :=
  readText_eq_ok_iff.mpr ⟨_, h.file f hf⟩

/-- The files of an output have names of their own. -/
structure Named (files : List OutputFile) : Prop where
  /-- Each can be the name of a file. -/
  isName : ∀ f ∈ files, isName f.fileName = true
  /-- No two files have the same name. -/
  nodup : (files.map OutputFile.fileName).Nodup

theorem Named.left_of_append {front back : List OutputFile} (h : Named (front ++ back)) :
    Named front where
  isName := fun f hf => h.isName f (List.mem_append_left _ hf)
  nodup := by
    have hnodup := h.nodup
    rw [List.map_append] at hnodup
    exact (List.nodup_append.mp hnodup).1

theorem puts_putAll (hgrows : Grows t t' out) (hout : t'.LeadsTo (parts out) here)
    (hnamed : Named files) (hadmits : ∀ f ∈ files, t'.Admits out here f.fileName) :
    Puts t (t'.putAll here files) out here files := by
  have hkeeps : KeepsDirectories t' (t'.putAll here files) :=
    keepsDirectories_putAll fun f hf => (hadmits f hf).free
  have hout' := hout.of_keepsDirectories hkeeps
  refine ⟨hout', fun f hf => ?_, hgrows.keepsDirectories.trans hkeeps, fun place hplace => ?_⟩
  · exact resolve_join hout' (hnamed.isName f hf) (hadmits f hf).allowed (hadmits f hf).short
      (get?_putAll_of_mem hnamed.nodup hf)
  · unfold IsMade
    rw [get?_putAll_of_ne hplace]
    rcases hgrows place with hsame | ⟨hnone, hdir, hway⟩
    · exact Or.inl hsame
    · exact Or.inr ⟨hnone, hdir, hway.of_keepsDirectories hkeeps⟩

theorem write_eq (out : String) (files : List OutputFile) (t : FileTree) :
    Output.write disk out files t =
      match disk.makeDirectories out t with
      | (.error e, grown) => (.error (.unwritable out e), grown)
      | (.ok (), grown) => writeFiles disk out files grown := by
  rw [Output.write, bind_run]
  obtain ⟨result, grown⟩ := disk.makeDirectories out t
  cases result with
  | error e => rfl
  | ok _ => rfl

/-- How writing an output may end. -/
theorem write_cases (hnamed : Named files) (out : String) (t : FileTree) :
    (∃ e t', Output.write disk out files t = (.error (.unwritable out e), t') ∧ Grows t t' out) ∨
      (∃ front f back e here t', files = front ++ f :: back ∧
        Output.write disk out files t = (.error (.unwritable (join out f.fileName) e), t') ∧
        Puts t t' out here front) ∨
      ∃ here grown, Output.write disk out files t =
          (.ok (files.map fun f => join out f.fileName), grown.putAll here files) ∧
        Grows t grown out ∧ grown.IsReady out ∧ grown.LeadsTo (parts out) here ∧
        ∀ f ∈ files, grown.Admits out here f.fileName := by
  have hgrows := grows_makeDirectories out t
  rw [write_eq]
  split
  · rename_i e grown hmade
    rw [hmade] at hgrows
    exact Or.inl ⟨e, grown, rfl, hgrows⟩
  · rename_i grown hmade
    rw [hmade] at hgrows
    have hready := isReady_of_makeDirectories hmade
    obtain ⟨here, hout⟩ := hready.exists_leadsTo
    rcases writeFiles_cases hout hnamed.isName with
      ⟨hall, hwritten⟩ | ⟨front, f, back, e, rfl, hfront, -, hwritten⟩
    · exact Or.inr (Or.inr ⟨here, grown, hwritten, hgrows, hready, hout, hall⟩)
    · exact Or.inr (Or.inl ⟨front, f, back, e, here, _, rfl, hwritten,
        puts_putAll hgrows hout hnamed.left_of_append hfront⟩)

/-- An output that is written is there, and may be written again without a change. -/
theorem puts_of_write_ok (hnamed : Named files) {paths : List String}
    (h : Output.write disk out files t = (.ok paths, t')) :
    (∃ here, Puts t t' out here files) ∧ Output.write disk out files t' = (.ok paths, t') := by
  rcases write_cases hnamed out t with
    ⟨e, _, hwrite, -⟩ | ⟨_, _, _, _, _, _, -, hwrite, -⟩ | ⟨here, grown, hwrite, hgrows, hready, hout, hall⟩
  · exact absurd (Prod.mk.inj (h.symm.trans hwrite)).1 (by simp)
  · exact absurd (Prod.mk.inj (h.symm.trans hwrite)).1 (by simp)
  · obtain ⟨hpaths, rfl⟩ := Prod.mk.inj (h.symm.trans hwrite)
    obtain rfl := Except.ok.inj hpaths
    have hputs := puts_putAll hgrows hout hnamed hall
    have hkeeps : KeepsDirectories grown (grown.putAll here files) :=
      keepsDirectories_putAll fun f hf => (hall f hf).free
    refine ⟨⟨here, hputs⟩, ?_⟩
    -- the second time the directory is there, and every file is written over itself
    rw [write_eq, makeDirectories_of_isReady (hready.of_keepsDirectories hkeeps)]
    have hagain : ∀ f ∈ files, (grown.putAll here files).Admits out here f.fileName := fun f hf =>
      ⟨(hall f hf).allowed, (hall f hf).short, by simp [get?_putAll_of_mem hnamed.nodup hf]⟩
    rcases writeFiles_cases hputs.directory hnamed.isName with
      ⟨-, hwritten⟩ | ⟨front, f, back, e, rfl, -, hf, -⟩
    · exact hwritten.trans (by rw [putAll_putAll hnamed.nodup])
    · exact absurd (hagain f (by simp)) hf

end FileTree

end SchemaModules

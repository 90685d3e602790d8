import SchemaModules.Cli.Run
import SchemaModules.Proofs.Index
import SchemaModules.Proofs.Writing

/-!
# Proofs: commands on a tree

What a command loads is read from two paths of the tree, and loading changes nothing. After that only the
command that writes the modules can change the tree, and it ends in one of six ways.
-/

namespace SchemaModules

open SchemaModules.Path Output FileTree

namespace Failure

/-- The words with which the message of a failure begins. -/
def opening : Failure → String
  | .unreadableSource .. => "Source unreadable: "
  | .extraction (.noEntities _) => "No entities found in "
  | .extraction (.duplicateName _) => "Duplicate symbol name `"
  | .extraction (.unterminated ..) => "Unterminated declaration `"
  | .configuration _ => "Config error: "
  | .unwritable .. => "Write failure: "
  | .uncheckable _ => "I/O error: "
  | .importCycles _ => "Import cycle between modules: "
  | .staleOutput .. => "Stale output: "

theorem exists_message_eq (f : Failure) : ∃ rest, f.message = f.opening ++ rest := by
  unfold message opening
  cases f with
  | extraction cause =>
    unfold ExtractError.message
    cases cause <;>
    · simp only [String.append_assoc, toString]
      exact ⟨_, rfl⟩
  | _ =>
    simp only [String.append_assoc]
    exact ⟨_, rfl⟩

/-- Two characters tell which kind of failure a message is about. -/
theorem take_opening_of_message_eq {f g : Failure} (h : f.message = g.message) :
    f.opening.toList.take 2 = g.opening.toList.take 2 := by
  have hlength : ∀ f : Failure, 2 ≤ f.opening.toList.length := by
    intro f
    unfold opening
    split <;> decide
  obtain ⟨rest, hf⟩ := f.exists_message_eq
  obtain ⟨rest', hg⟩ := g.exists_message_eq
  have htake := congrArg (fun text : String => text.toList.take 2) ((hf.symm.trans h).trans hg)
  simpa only [String.toList_append, List.take_append_of_le_length (hlength _)] using htake

/-- The output could not be written. -/
def IsUnwritable (f : Failure) : Prop := ∃ path e, f = .unwritable path e

theorem isUnwritable_of_message_eq {f : Failure} {path : String} {e : DiskError}
    (h : f.message = (Failure.unwritable path e).message) : f.IsUnwritable := by
  have htake := take_opening_of_message_eq h
  unfold opening at htake
  split at htake
  case h_6 path e => exact ⟨path, e, rfl⟩
  all_goals exact absurd htake (by decide)

end Failure

namespace Output

variable {source origin : String} {config : Config} {p : Partition}

theorem slash_not_mem_of_isFileStem {name : String} (h : isFileStem name = true) :
    '/' ∉ name.toList := by
  intro hmem
  exact absurd ((Config.isFileStem_iff.mp h).2 '/' hmem) (by decide)

/-- A stem and an extension make a name of one part. -/
theorem isName_fileName (hextension : isFileStem config.fileExtension = true) {stem : String}
    (hstem : isFileStem stem = true) : isName (fileName config stem) = true := by
  have hlist : (fileName config stem).toList =
      stem.toList ++ '.' :: config.fileExtension.toList := by
    rw [fileName, String.toList_append, String.toList_append, List.append_assoc]
    rfl
  have hslash : '/' ∉ (fileName config stem).toList := by
    rw [hlist, List.mem_append, List.mem_cons]
    rintro (hmem | hdot | hmem)
    · exact slash_not_mem_of_isFileStem hstem hmem
    · exact absurd hdot (by decide)
    · exact slash_not_mem_of_isFileStem hextension hmem
  -- with a character on each side of the dot the name is longer than `.` and `..`
  have hlength : 3 ≤ (fileName config stem).toList.length := by
    have hs := List.length_pos_iff.mpr (Config.isFileStem_iff.mp hstem).1
    have he := List.length_pos_iff.mpr (Config.isFileStem_iff.mp hextension).1
    rw [hlist, List.length_append, List.length_cons]
    omega
  have hne : ∀ text : String, text.toList.length < 3 → fileName config stem ≠ text := by
    intro text htext heq
    rw [heq] at hlength
    omega
  unfold isName
  simp [hne "" (by decide), hne "." (by decide), hne ".." (by decide), hslash]

/-- The files of a partition are named by a stem and the extension. -/
theorem exists_stem_of_mem_render (hvalid : config.Valid)
    (h : Partition.ofSource source origin config = .ok p) {f : OutputFile}
    (hf : f ∈ render p config) :
    ∃ stem, isFileStem stem = true ∧ f.fileName = fileName config stem := by
  unfold render at hf
  rcases List.mem_append.mp hf with hf | hf
  · obtain ⟨m, hm, rfl⟩ := List.mem_map.mp hf
    exact ⟨m.name, hvalid.isFileStem_of_mem_moduleOrder ((Partition.mem_modules h).mp hm).1, rfl⟩
  · rw [List.mem_singleton.mp hf]
    exact ⟨config.indexName, hvalid.checks.2.2.1, rfl⟩

theorem named_render (hvalid : config.Valid)
    (h : Partition.ofSource source origin config = .ok p) : Named (render p config) where
  isName := by
    intro f hf
    obtain ⟨stem, hstem, hname⟩ := exists_stem_of_mem_render hvalid h hf
    rw [hname]
    exact isName_fileName hvalid.checks.1 hstem
  nodup := (indexed_of_ofSource hvalid h).fileNames

end Output

namespace Config

theorem valid_standard : standard.Valid := by decide

theorem valid_of_ofText {text : String} {c : Config} (h : ofText text = .ok c) : c.Valid := by
  unfold ofText at h
  split at h
  · simp at h
  · split at h
    · simp at h
    · rename_i hdefect
      rwa [← Except.ok.inj h]

end Config

namespace Cli

variable {color : Bool} {t t' : FileTree} {input : Input} {config : Config} {p : Partition}

/-! ## Loading -/

/-- The configuration that is read from a tree. -/
def ReadsConfig (t : FileTree) (config : Config) : Option String → Prop
  | none => config = .standard
  | some path => ∃ text, t.readText path = .ok text ∧ Config.ofText text = .ok config

/-- The partition that is read from a tree. -/
def ReadsPartition (t : FileTree) (config : Config) (p : Partition) (path : String) : Prop :=
  ∃ text, t.readText path = .ok text ∧ Partition.ofSource text path config = .ok p

theorem readText_run (path : String) (t : FileTree) :
    disk.readText path t = (t.readText path, t) := rfl

theorem loadConfig_of_reads {path : Option String} (h : ReadsConfig t config path) :
    loadConfig disk path t = (.ok config, t) := by
  cases path with
  | none =>
    obtain rfl : config = .standard := h
    rfl
  | some path =>
    obtain ⟨text, hread, hconfig⟩ := h
    rw [loadConfig, bind_run, readText_run, hread]
    simp only [hconfig]
    rfl

theorem loadConfig_cases (path : Option String) (t : FileTree) :
    (∃ e, loadConfig disk path t = (.error (.configuration e), t)) ∨
      ∃ config, ReadsConfig t config path := by
  cases path with
  | none => exact Or.inr ⟨.standard, rfl⟩
  | some path =>
    rw [loadConfig, bind_run, readText_run]
    cases hread : t.readText path with
    | error e => exact Or.inl ⟨.unreadable path e, rfl⟩
    | ok text =>
      cases hconfig : Config.ofText text with
      | error e => exact Or.inl ⟨e, by simp only [hconfig]; rfl⟩
      | ok config => exact Or.inr ⟨config, text, hread, hconfig⟩

/-- With a configuration, what is loaded depends on the text of the source. -/
theorem load_eq (hconfig : ReadsConfig t config input.config) : load disk input t =
    (match t.readText input.source with
      | .error e => .error (.unreadableSource input.source e)
      | .ok text =>
        match Partition.ofSource text input.source config with
        | .error e => .error (.extraction e)
        | .ok p => .ok (config, p), t) := by
  rw [load, bind_run, loadConfig_of_reads hconfig]
  show (readSource disk input.source >>= _) t = _
  rw [bind_run, readSource, bind_run, readText_run]
  cases t.readText input.source with
  | error e => rfl
  | ok text =>
    show (match Partition.ofSource text input.source config with
      | .error e => (pure (Except.error (.extraction e)) :
        StateM FileTree (Except Failure (Config × Partition)))
      | .ok p => pure (.ok (config, p))) t = _
    cases hpartition : Partition.ofSource text input.source config with
    | error e => simp only [hpartition]; rfl
    | ok p => simp only [hpartition]; rfl

theorem load_of_reads (hconfig : ReadsConfig t config input.config)
    (hp : ReadsPartition t config p input.source) : load disk input t = (.ok (config, p), t) := by
  obtain ⟨text, hread, hpartition⟩ := hp
  rw [load_eq hconfig, hread]
  simp only [hpartition]

/-- Loading reads the two paths, and does not fail as writing does. -/
theorem load_cases (input : Input) (t : FileTree) :
    (∃ f, load disk input t = (.error f, t) ∧ ¬ f.IsUnwritable) ∨
      ∃ config p, ReadsConfig t config input.config ∧
        ReadsPartition t config p input.source := by
  rcases loadConfig_cases input.config t with ⟨e, he⟩ | ⟨config, hconfig⟩
  · refine Or.inl ⟨.configuration e, ?_, by simp [Failure.IsUnwritable]⟩
    rw [load, bind_run, he]
    rfl
  · rw [load_eq hconfig]
    cases hread : t.readText input.source with
    | error e => exact Or.inl ⟨_, rfl, by simp [Failure.IsUnwritable]⟩
    | ok text =>
      cases hpartition : Partition.ofSource text input.source config with
      | error e =>
        exact Or.inl ⟨.extraction e, by simp only [hpartition], by simp [Failure.IsUnwritable]⟩
      | ok p => exact Or.inr ⟨config, p, hconfig, text, hread, hpartition⟩

/-- Loading changes nothing. -/
theorem load_snd (input : Input) (t : FileTree) : (load disk input t).2 = t := by
  rcases load_cases input t with ⟨f, hf, -⟩ | ⟨config, p, hconfig, hp⟩
  · rw [hf]
  · rw [load_of_reads hconfig hp]

/-- What has been loaded was read from the two paths. -/
theorem reads_of_load (h : load disk input t = (.ok (config, p), t')) :
    ReadsConfig t config input.config ∧ ReadsPartition t config p input.source ∧ t' = t := by
  rcases load_cases input t with ⟨f, hf, -⟩ | ⟨config', p', hconfig, hp⟩
  · exact absurd (Prod.mk.inj (h.symm.trans hf)).1 (by simp)
  · obtain ⟨heq, rfl⟩ := Prod.mk.inj (h.symm.trans (load_of_reads hconfig hp))
    obtain ⟨rfl, rfl⟩ := Prod.mk.inj (Except.ok.inj heq)
    exact ⟨hconfig, hp, rfl⟩

theorem ReadsConfig.valid {path : Option String} (h : ReadsConfig t config path) :
    config.Valid := by
  cases path with
  | none =>
    obtain rfl : config = .standard := h
    exact Config.valid_standard
  | some path =>
    obtain ⟨text, -, hconfig⟩ := h
    exact Config.valid_of_ofText hconfig

theorem named_of_reads {path : String} {configPath : Option String}
    (hconfig : ReadsConfig t config configPath) (hp : ReadsPartition t config p path) :
    Named (render p config) := by
  obtain ⟨text, -, hpartition⟩ := hp
  exact named_render hconfig.valid hpartition

/-! ## Writing the modules -/

/-- What is said about the modules that are written, or would be. -/
def reported (color : Bool) (a : SplitArguments) (config : Config) (p : Partition) : Outcome where
  stdout := splitReport color a p (render p config)
  stderr := if a.quiet then "" else warningLines color p.warnings

/-- How the command that writes the modules may end when it has loaded them. -/
inductive SplitEnds (color : Bool) (a : SplitArguments) (t : FileTree) (config : Config)
    (p : Partition) : Outcome → FileTree → Prop
  /-- There are cycles, which was not to be. -/
  | denied (hdeny : a.denyCycles = true) (hcycles : p.cycles ≠ []) :
    SplitEnds color a t config p (failed color (.importCycles p.cycles) "") t
  /-- Nothing was to be written. -/
  | shown (hallowed : a.denyCycles = true → p.cycles = []) (hdry : a.dryRun = true) :
    SplitEnds color a t config p (reported color a config p) t
  /-- The directory cannot be made. -/
  | unmade (hallowed : a.denyCycles = true → p.cycles = []) (hdry : a.dryRun = false)
    (e : DiskError) (t' : FileTree) (hgrows : Grows t t' a.out) :
    SplitEnds color a t config p (failed color (.unwritable a.out e) "") t'
  /-- A file cannot be written. -/
  | stopped (hallowed : a.denyCycles = true → p.cycles = []) (hdry : a.dryRun = false)
    (front : List OutputFile) (f : OutputFile) (back : List OutputFile) (e : DiskError)
    (here : List String) (t' : FileTree) (hfiles : render p config = front ++ f :: back)
    (hputs : Puts t t' a.out here front) :
    SplitEnds color a t config p (failed color (.unwritable (join a.out f.fileName) e) "") t'
  /-- All files are written. -/
  | written (hallowed : a.denyCycles = true → p.cycles = []) (hdry : a.dryRun = false)
    (paths : List String) (t' : FileTree)
    (hwritten : Output.write disk a.out (render p config) t = (.ok paths, t')) :
    SplitEnds color a t config p (reported color a config p) t'

variable {a : SplitArguments}

theorem message_eq_of_failed_eq {f g : Failure} (h : failed color f "" = failed color g "") :
    f.message = g.message := by
  have hline := congrArg Outcome.stderr h
  simpa [failed, errorLine] using hline

theorem failed_unwritable_ne (path : String) (e : DiskError) (cycles : List (List String)) :
    failed color (.unwritable path e) "" ≠ failed color (.importCycles cycles) "" := by
  intro h
  have htake := Failure.take_opening_of_message_eq (message_eq_of_failed_eq h)
  change "Write failure: ".toList.take 2 = "Import cycle between modules: ".toList.take 2 at htake
  exact absurd htake (by decide)

theorem reported_ne_failed (f : Failure) : reported color a config p ≠ failed color f "" := by
  intro h
  exact absurd (congrArg Outcome.code h) Nat.zero_ne_one

theorem runSplit_of_error {f : Failure} (h : load disk a.input t = (.error f, t)) :
    runSplit disk color a t = (failed color f "", t) := by
  rw [runSplit, bind_run, h]
  rfl

/-- What is said when the files have been written, or could not be. -/
def concluded (color : Bool) (a : SplitArguments) (config : Config) (p : Partition) :
    Except Failure (List String) → Outcome
  | .error f => failed color f ""
  | .ok _ => reported color a config p

/-- Without a cycle that is not to be, the end depends on how the files can be written. -/
theorem runSplit_of_write (hconfig : ReadsConfig t config a.input.config)
    (hp : ReadsPartition t config p a.input.source)
    (hallowed : a.denyCycles = true → p.cycles = []) (hdry : a.dryRun = false)
    {result : Except Failure (List String)}
    (hwrite : Output.write disk a.out (render p config) t = (result, t')) :
    runSplit disk color a t =
      (concluded color a config p result, t') := by
  have hcycles : (a.denyCycles && !p.cycles.isEmpty) = false := by
    cases hdeny : a.denyCycles with
    | false => rfl
    | true => simp [hallowed hdeny]
  rw [runSplit, bind_run, load_of_reads hconfig hp]
  simp only [hcycles, hdry, Bool.false_eq_true, if_false]
  rw [bind_run, hwrite]
  cases result with
  | error f => rfl
  | ok _ => rfl

theorem splitEnds_runSplit (hconfig : ReadsConfig t config a.input.config)
    (hp : ReadsPartition t config p a.input.source) :
    SplitEnds color a t config p (runSplit disk color a t).1 (runSplit disk color a t).2 := by
  by_cases hcycles : (a.denyCycles && !p.cycles.isEmpty) = true
  · obtain ⟨hdeny, hne⟩ : a.denyCycles = true ∧ p.cycles ≠ [] := by simpa using hcycles
    rw [runSplit, bind_run, load_of_reads hconfig hp]
    simp only [hcycles, if_true]
    exact .denied hdeny hne
  · have hallowed : a.denyCycles = true → p.cycles = [] := by simpa using hcycles
    cases hdry : a.dryRun with
    | true =>
      rw [runSplit, bind_run, load_of_reads hconfig hp]
      simp only [hcycles, hdry, if_true]
      exact .shown hallowed hdry
    | false =>
      rcases write_cases (named_of_reads hconfig hp) a.out t with ⟨e, t', hwrite, hgrows⟩ |
        ⟨front, f, back, e, here, t', hfiles, hwrite, hputs⟩ | ⟨here, grown, hwrite, -⟩
      · rw [runSplit_of_write hconfig hp hallowed hdry hwrite]
        exact .unmade hallowed hdry e t' hgrows
      · rw [runSplit_of_write hconfig hp hallowed hdry hwrite]
        exact .stopped hallowed hdry front f back e here t' hfiles hputs
      · rw [runSplit_of_write hconfig hp hallowed hdry hwrite]
        exact .written hallowed hdry _ _ hwrite

/-! ## A sample -/

/-- A tree with a source that declares one table. -/
def sampleTree : FileTree :=
  ⟨[(["s"], .file (.text "export const users = pgTable(\"u\", \x7b\x7d);\n"))]⟩

/-- The arguments of a run that writes the modules of the source into a directory of their own. -/
def sampleArguments : SplitArguments := ⟨⟨"s", none⟩, "out", false, false, .text, false⟩

end Cli

end SchemaModules

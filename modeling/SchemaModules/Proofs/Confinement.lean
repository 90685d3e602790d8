import SchemaModules.Proofs.Commands

/-!
# Proofs: what a command may touch

Only the command that writes the modules changes the tree, and only in its output: the directory with
those on the way to it, and the files of the modules and the index. When it cannot go on, the files that
it has written are the first ones, and the others are as they were.
-/

namespace SchemaModules

open SchemaModules.Path Output FileTree

namespace FileTree

variable {t t' : FileTree} {out : String} {here : List String} {files : List OutputFile}

/-! ## Programs that only read -/

/-- The program changes no tree. -/
def Keeps {α : Type} (x : StateM FileTree α) : Prop := ∀ t, (x t).2 = t

theorem keeps_pure {α : Type} (value : α) : Keeps (pure value) := fun _ => rfl

theorem Keeps.bind {α β : Type} {x : StateM FileTree α} {f : α → StateM FileTree β} (hx : Keeps x)
    (hf : ∀ value, Keeps (f value)) : Keeps (x >>= f) := by
  intro t
  rw [bind_run, hf, hx]

theorem keeps_readText (path : String) : Keeps (disk.readText path) := fun _ => rfl

theorem keeps_isDirectory (path : String) : Keeps (disk.isDirectory path) := fun _ => rfl

theorem keeps_fileNames (path : String) : Keeps (disk.fileNames path) := fun _ => rfl

theorem keeps_compareFiles (dir : String) (files : List OutputFile) :
    Keeps (compareFiles disk dir files) := by
  induction files with
  | nil => exact keeps_pure _
  | cons f files ih =>
    refine (keeps_readText _).bind fun result => ?_
    split
    · refine ih.bind fun rest => ?_
      split <;> exact keeps_pure _
    · refine ih.bind fun rest => ?_
      split <;> exact keeps_pure _
    · exact keeps_pure _

theorem keeps_check (dir : String) (files : List OutputFile) (extension : String) :
    Keeps (check disk dir files extension) := by
  refine (keeps_compareFiles dir files).bind fun result => ?_
  split
  · exact keeps_pure _
  · refine (keeps_isDirectory dir).bind fun isDir => ?_
    split
    · exact (keeps_fileNames dir).bind fun names => keeps_pure _
    · exact keeps_pure _

/-! ## Files that are not written -/

/-- A file is as it was where nothing but directories has been made. -/
theorem file_iff_of_isMade {place : List String} {contents : Contents}
    (h : t'.get? place = t.get? place ∨ IsMade t t' out place) :
    t'.get? place = some (.file contents) ↔ t.get? place = some (.file contents) := by
  rcases h with hsame | ⟨hnone, hdir, -⟩
  · rw [hsame]
  · simp [hnone, hdir]

end FileTree

namespace Cli

variable {color : Bool} {t t' : FileTree} {config : Config} {p : Partition} {a : SplitArguments}

theorem keeps_load (input : Input) : Keeps (load disk input) := load_snd input

theorem keeps_runCheck (color : Bool) (input : Input) (out : String) :
    Keeps (runCheck disk color input out) := by
  refine (keeps_load input).bind fun loaded => ?_
  split
  · exact keeps_pure _
  · refine (keeps_check _ _ _).bind fun result => ?_
    split
    · exact keeps_pure _
    · dsimp only
      split <;> exact keeps_pure _

theorem keeps_runPlan (color : Bool) (input : Input) (format : Format) :
    Keeps (runPlan disk color input format) := by
  refine (keeps_load input).bind fun loaded => ?_
  split
  · exact keeps_pure _
  · split <;> exact keeps_pure _

/-- What a run has done that has written its output. -/
structure Wrote (t t' : FileTree) (out : String) (config : Config) (files : List OutputFile) :
    Prop where
  /-- Each file has a name of one part, made of a stem and the extension. -/
  names : ∀ f ∈ files, isName f.fileName = true ∧ ∃ stem, isFileStem stem = true ∧
    isFileStem config.fileExtension = true ∧ f.fileName = stem ++ "." ++ config.fileExtension
  /-- No two files have the same name. -/
  nodup : (files.map OutputFile.fileName).Nodup
  /-- The directory and those above it are there. -/
  directories : ∀ front, front <+: parts out → ∃ place, t'.LeadsTo front place
  /-- The files are there, in the directory, and nothing else has changed. -/
  puts : ∃ here, Puts t t' out here files

/-- What a run has done that could not write its output. -/
inductive Stopped (t t' : FileTree) (out : String) (files : List OutputFile) (path : String) : Prop
  /-- The directory could not be made, and no file is another. -/
  | unmade (hpath : path = out) (hgrows : Grows t t' out)
    (hkept : ∀ place contents,
      t'.get? place = some (.file contents) ↔ t.get? place = some (.file contents))
  /-- A file could not be written: those before it are, and no other file is another. -/
  | stopped (front : List OutputFile) (f : OutputFile) (back : List OutputFile)
    (here : List String) (hfiles : files = front ++ f :: back) (hpath : path = join out f.fileName)
    (hputs : Puts t t' out here front)
    (hkept : ∀ place, (∀ g ∈ front, place ≠ here ++ [g.fileName]) → ∀ contents,
      t'.get? place = some (.file contents) ↔ t.get? place = some (.file contents))

/-- What a command line may do to a tree. -/
structure Confined (color : Bool) (arguments : List String) (t : FileTree) (outcome : Outcome)
    (t' : FileTree) : Prop where
  /-- Only the command that writes the modules changes the tree. -/
  reading : (∀ a, command? arguments = some (.split a) → a.dryRun = true) → t' = t
  /-- A failure changes nothing, unless it is one to write. -/
  failing : outcome.code ≠ 0 → (∀ path e, outcome ≠ failed color (.unwritable path e) "") → t' = t
  /-- What is written is the output that was loaded. -/
  writing : ∀ a, command? arguments = some (.split a) → a.dryRun = false → outcome.code = 0 →
    ∃ config p, load disk a.input t = (.ok (config, p), t) ∧
      Wrote t t' a.out config (render p config)
  /-- What could not be written was the output that was loaded. -/
  stopping : ∀ a, command? arguments = some (.split a) →
    (∃ path e, outcome = failed color (.unwritable path e) "") →
    ∃ config p path e, load disk a.input t = (.ok (config, p), t) ∧
      outcome = failed color (.unwritable path e) "" ∧ Stopped t t' a.out (render p config) path

section Cases

variable {arguments : List String} {outcome : Outcome}

theorem confined_of_not_split (h : ∀ a, command? arguments ≠ some (.split a)) :
    Confined color arguments t outcome t where
  reading _ := rfl
  failing _ _ := rfl
  writing a hcommand := absurd hcommand (h a)
  stopping a hcommand := absurd hcommand (h a)

/-- A run that changes nothing is confined, if nothing was to be written and it has not tried. -/
theorem confined_of_unchanged (hcommand : command? arguments = some (.split a))
    (hsuccess : a.dryRun = false → outcome.code ≠ 0)
    (hother : ∀ path e, outcome ≠ failed color (.unwritable path e) "") :
    Confined color arguments t outcome t where
  reading _ := rfl
  failing _ _ := rfl
  writing b hb hwet hcode := by
    obtain rfl : a = b := Command.split.inj (Option.some.inj (hcommand.symm.trans hb))
    exact absurd hcode (hsuccess hwet)
  stopping _ _ := fun ⟨path, e, heq⟩ => absurd heq (hother path e)

theorem confined_of_stopped {path : String} {e : DiskError}
    (hcommand : command? arguments = some (.split a)) (hwet : a.dryRun = false)
    (hload : load disk a.input t = (.ok (config, p), t))
    (hstopped : Stopped t t' a.out (render p config) path) :
    Confined color arguments t (failed color (.unwritable path e) "") t' where
  reading hdry := absurd (hdry a hcommand) (by simp [hwet])
  failing _ hother := absurd rfl (hother path e)
  writing _ _ _ hcode := absurd hcode Nat.one_ne_zero
  stopping b hb _ := by
    obtain rfl : a = b := Command.split.inj (Option.some.inj (hcommand.symm.trans hb))
    exact ⟨config, p, path, e, hload, rfl, hstopped⟩

theorem confined_of_wrote (hcommand : command? arguments = some (.split a)) (hwet : a.dryRun = false)
    (hload : load disk a.input t = (.ok (config, p), t))
    (hwrote : Wrote t t' a.out config (render p config)) :
    Confined color arguments t (reported color a config p) t' where
  reading hdry := absurd (hdry a hcommand) (by simp [hwet])
  failing hcode := absurd rfl hcode
  writing b hb _ _ := by
    obtain rfl : a = b := Command.split.inj (Option.some.inj (hcommand.symm.trans hb))
    exact ⟨config, p, hload, hwrote⟩
  stopping _ _ := fun ⟨path, e, heq⟩ => absurd heq (reported_ne_failed _)

end Cases

theorem failed_ne_of_not_isUnwritable {f : Failure} (hf : ¬ f.IsUnwritable) (path : String)
    (e : DiskError) : failed color f "" ≠ failed color (.unwritable path e) "" := fun heq =>
  hf (Failure.isUnwritable_of_message_eq (message_eq_of_failed_eq heq))

theorem wrote_of_puts (hconfig : ReadsConfig t config a.input.config)
    (hp : ReadsPartition t config p a.input.source) {here : List String}
    (hputs : Puts t t' a.out here (render p config)) :
    Wrote t t' a.out config (render p config) where
  names := by
    intro f hf
    have hisName := (named_of_reads hconfig hp).isName f hf
    obtain ⟨text, -, hpartition⟩ := hp
    obtain ⟨stem, hstem, hname⟩ := exists_stem_of_mem_render hconfig.valid hpartition hf
    exact ⟨hisName, stem, hstem, hconfig.valid.checks.1, hname⟩
  nodup := (named_of_reads hconfig hp).nodup
  directories := by
    rintro front ⟨back, hparts⟩
    have hleads := hputs.directory
    rw [← hparts] at hleads
    exact exists_follow_of_append hleads
  puts := ⟨here, hputs⟩

/-- The command that writes the modules is confined to its output. -/
theorem confined_runSplit {arguments : List String}
    (hcommand : command? arguments = some (.split a)) :
    Confined color arguments t (runSplit disk color a t).1 (runSplit disk color a t).2 := by
  rcases load_cases a.input t with ⟨f, hf, hother⟩ | ⟨config, p, hconfig, hp⟩
  · rw [runSplit_of_error hf]
    exact confined_of_unchanged hcommand (fun _ => Nat.one_ne_zero)
      (failed_ne_of_not_isUnwritable hother)
  · have hload := load_of_reads hconfig hp
    have hends : SplitEnds color a t config p _ _ := splitEnds_runSplit hconfig hp
    generalize (runSplit disk color a t).1 = outcome at hends
    generalize (runSplit disk color a t).2 = t' at hends
    cases hends with
    | denied =>
      exact confined_of_unchanged hcommand (fun _ => Nat.one_ne_zero)
        (failed_ne_of_not_isUnwritable (by simp [Failure.IsUnwritable]))
    | shown _ hdry =>
      exact confined_of_unchanged hcommand (by simp [hdry]) fun _ _ => reported_ne_failed _
    | unmade _ hwet e _ hgrows =>
      exact confined_of_stopped hcommand hwet hload
        (.unmade rfl hgrows fun place contents => file_iff_of_isMade (hgrows place))
    | stopped _ hwet front f back e here _ hfiles hputs =>
      exact confined_of_stopped hcommand hwet hload (.stopped front f back here hfiles rfl hputs
        fun place hplace contents => file_iff_of_isMade (hputs.others place hplace))
    | written _ hwet paths _ hwritten =>
      obtain ⟨⟨here, hputs⟩, -⟩ := puts_of_write_ok (named_of_reads hconfig hp) hwritten
      exact confined_of_wrote hcommand hwet hload (wrote_of_puts hconfig hp hputs)

/-- Every command but the one that writes the modules leaves the tree alone. -/
theorem keeps_runCommand (color : Bool) (command : Command) (h : ∀ a, command ≠ .split a) :
    Keeps (runCommand disk color command) := by
  cases command with
  | split a => exact absurd rfl (h a)
  | check input out => exact keeps_runCheck color input out
  | plan input format => exact keeps_runPlan color input format
  | config => exact keeps_pure _
  | version => exact keeps_pure _

/-- Every command line is confined. -/
theorem run_confined (color : Bool) (arguments : List String) (t : FileTree) :
    Confined color arguments t (run disk color arguments t).1 (run disk color arguments t).2 := by
  unfold run
  cases hcommand : command? arguments with
  | none => exact confined_of_not_split fun a => by simp [hcommand]
  | some command =>
    by_cases hsplit : ∃ a, command = .split a
    · obtain ⟨a, rfl⟩ := hsplit
      exact confined_runSplit hcommand
    · have hnot : ∀ a, command ≠ .split a := fun a heq => hsplit ⟨a, heq⟩
      dsimp only
      rw [keeps_runCommand color command hnot t]
      exact confined_of_not_split fun a heq =>
        hnot a (Option.some.inj (hcommand.symm.trans heq))

/-- The sample with a directory where the index is to be written. -/
def blockedTree : FileTree :=
  ⟨(["out", "index.ts"], .directory) :: (["out"], .directory) :: sampleTree.nodes⟩

/-- The command line that writes the modules of the sample. -/
def sampleLine : List String := ["split", "-s", "s", "-o", "out"]

theorem sampleLine_confined :
    (∃ outcome t', run disk false sampleLine sampleTree = (outcome, t') ∧ outcome.code = 0 ∧
      ∃ config p, Wrote sampleTree t' "out" config (render p config)) ∧
    ∃ outcome t', run disk false sampleLine blockedTree = (outcome, t') ∧
      outcome = failed false (.unwritable "out/index.ts" .isDirectory) "" ∧
      ∃ config p path, Stopped blockedTree t' "out" (render p config) path := by
  have hcommand : command? sampleLine = some (.split sampleArguments) := by decide +kernel
  have hcode : (run disk false sampleLine sampleTree).1.code = 0 := by decide +kernel
  have hfailed : (run disk false sampleLine blockedTree).1 =
      failed false (.unwritable "out/index.ts" .isDirectory) "" := by
    decide +kernel
  obtain ⟨config, p, -, hwrote⟩ :=
    (run_confined false sampleLine sampleTree).writing _ hcommand rfl hcode
  obtain ⟨config', p', path, e, -, -, hstopped⟩ :=
    (run_confined false sampleLine blockedTree).stopping _ hcommand ⟨_, _, hfailed⟩
  exact ⟨⟨_, _, (Prod.eta _).symm, hcode, config, p, hwrote⟩,
    _, _, (Prod.eta _).symm, hfailed, config', p', path, hstopped⟩

end Cli

end SchemaModules

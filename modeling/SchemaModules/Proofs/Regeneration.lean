import SchemaModules.Proofs.Commands

/-!
# Proofs: regeneration

What is written is what a check looks for, and writing it again changes nothing. Both hold as long as
the inputs still have the texts that were loaded from them. A run may write over its own inputs, since
nothing keeps the output apart from them, so this is asked for where an input is one of the files that
are written.
-/

namespace SchemaModules

open SchemaModules.Path Output FileTree

namespace Output

variable {t : FileTree} {dir : String} {files : List OutputFile}

/-- Files that are there with their texts are neither missing nor stale. -/
theorem compareFiles_of_current
    (h : ∀ f ∈ files, t.readText (join dir f.fileName) = .ok f.contents) :
    compareFiles disk dir files t = (.ok {}, t) := by
  induction files with
  | nil => rfl
  | cons f files ih =>
    obtain ⟨hf, hfiles⟩ := List.forall_mem_cons.mp h
    rw [compareFiles, bind_run, Cli.readText_run, hf]
    show (compareFiles disk dir files >>= _) t = _
    rw [bind_run, ih hfiles]
    show (Except.ok (Report.note {} f (some f.contents)), t) = _
    rw [Report.note, if_pos rfl]

/-- A check of files that are there with their texts finds at most that there are others. -/
theorem check_of_current (h : ∀ f ∈ files, t.readText (join dir f.fileName) = .ok f.contents)
    (extension : String) :
    ∃ report, check disk dir files extension t = (.ok report, t) ∧ report.isCurrent = true := by
  have hrun : check disk dir files extension t =
      (.ok (if t.isDirectory dir then
        { orphaned := orphans files extension (t.fileNames dir) } else {}), t) := by
    rw [check, bind_run, compareFiles_of_current h]
    show (disk.isDirectory dir >>= _) t = _
    rw [bind_run, isDirectory_run]
    cases t.isDirectory dir with
    | false => rfl
    | true => rfl
  refine ⟨_, hrun, ?_⟩
  split <;> rfl

end Output

namespace FileTree

/-- A file that is read is still read where the directories are kept, and what is at its place. -/
theorem Puts.readText_of_spared {t t' : FileTree} {out : String} {here : List String}
    {files : List OutputFile} (h : Puts t t' out here files) {path text : String}
    (hread : t.readText path = .ok text)
    (hspared : ∀ f ∈ files, t'.resolve path = t'.resolve (join out f.fileName) →
      text = f.contents) : t'.readText path = .ok text := by
  obtain ⟨place, hplace⟩ := readText_eq_ok_iff.mp hread
  refine readText_eq_ok_iff.mpr ⟨place, ?_⟩
  -- a place where a file was written holds the text that was read, every other file is as it was
  by_cases hfile : ∃ f ∈ files, place = here ++ [f.fileName]
  · obtain ⟨f, hf, rfl⟩ := hfile
    have hresolve := resolve_of_keepsDirectories h.kept hplace (get?_of_resolve (h.file f hf))
    rw [hresolve, hspared f hf (hresolve.trans (h.file f hf).symm)]
  · have hother : ∀ f ∈ files, place ≠ here ++ [f.fileName] :=
      fun f hf heq => hfile ⟨f, hf, heq⟩
    have hnode := get?_of_resolve hplace
    rcases h.others place hother with hsame | ⟨hnone, -⟩
    · exact resolve_of_keepsDirectories h.kept hplace (hsame.trans hnode)
    · rw [hnode] at hnone
      simp at hnone

end FileTree

namespace Cli

variable {color : Bool} {t t' : FileTree} {config : Config} {p : Partition} {a : SplitArguments}

/-- The paths that a command reads. -/
def Input.paths (input : Input) : List String := input.source :: input.config.toList

/-- An input that leads to one of the files that are written holds what is written there. -/
def SparesInputs (a : SplitArguments) (t t' : FileTree) : Prop :=
  ∀ config p, load disk a.input t = (.ok (config, p), t) →
    ∀ path ∈ a.input.paths, ∀ f ∈ render p config,
      t'.resolve path = t'.resolve (join a.out f.fileName) → t.readText path = .ok f.contents

/-- From inputs that are spared the same is loaded again. -/
theorem reads_of_puts {here : List String} (hconfig : ReadsConfig t config a.input.config)
    (hp : ReadsPartition t config p a.input.source) (hspares : SparesInputs a t t')
    (hputs : Puts t t' a.out here (render p config)) :
    ReadsConfig t' config a.input.config ∧ ReadsPartition t' config p a.input.source := by
  have hkept : ∀ path ∈ a.input.paths, ∀ text, t.readText path = .ok text →
      t'.readText path = .ok text := by
    intro path hpath text hread
    refine hputs.readText_of_spared hread fun f hf hsame => ?_
    have hspared := hspares config p (load_of_reads hconfig hp) path hpath f hf hsame
    exact Except.ok.inj (hread.symm.trans hspared)
  constructor
  · cases hpath : a.input.config with
    | none =>
      rw [hpath] at hconfig
      exact hconfig
    | some path =>
      rw [hpath] at hconfig
      obtain ⟨text, hread, htext⟩ := hconfig
      exact ⟨text, hkept path (by simp [Input.paths, hpath]) text hread, htext⟩
  · obtain ⟨text, hread, htext⟩ := hp
    exact ⟨text, hkept a.input.source (by simp [Input.paths]) text hread, htext⟩

/-- Files that are there with their texts pass the check. -/
theorem runCheck_of_current {input : Input} {out : String}
    (hconfig : ReadsConfig t config input.config) (hp : ReadsPartition t config p input.source)
    (hfiles : ∀ f ∈ render p config, t.readText (join out f.fileName) = .ok f.contents) :
    ∃ checked, runCheck disk color input out t = (checked, t) ∧ checked.code = 0 := by
  obtain ⟨report, hcheck, hcurrent⟩ := check_of_current hfiles config.fileExtension
  refine ⟨{ stdout := currentLine color input out (render p config)
            stderr := orphanLines color report.orphaned }, ?_, rfl⟩
  rw [runCheck, bind_run, load_of_reads hconfig hp]
  show (check disk out (render p config) config.fileExtension >>= _) t = _
  rw [bind_run, hcheck]
  simp only [hcurrent, if_true]
  rfl

/-- A run that has written the modules and spared its inputs passes a check, and does the same again
without a change. -/
theorem regenerates {outcome : Outcome}
    (hrun : runCommand disk color (.split a) t = (outcome, t')) (hwet : a.dryRun = false)
    (hcode : outcome.code = 0) (hspares : SparesInputs a t t') :
    (∃ checked, runCommand disk color (.check a.input a.out) t' = (checked, t') ∧
        checked.code = 0) ∧
      runCommand disk color (.split a) t' = (outcome, t') := by
  change runSplit disk color a t = (outcome, t') at hrun
  rcases load_cases a.input t with ⟨f, hf, -⟩ | ⟨config, p, hconfig, hp⟩
  · obtain ⟨rfl, -⟩ := Prod.mk.inj ((runSplit_of_error hf).symm.trans hrun)
    exact absurd hcode Nat.one_ne_zero
  · have hends : SplitEnds color a t config p _ _ := splitEnds_runSplit hconfig hp
    rw [hrun] at hends
    cases hends with
    | denied => exact absurd hcode Nat.one_ne_zero
    | shown _ hdry => simp [hwet] at hdry
    | unmade => exact absurd hcode Nat.one_ne_zero
    | stopped => exact absurd hcode Nat.one_ne_zero
    | written hallowed _ paths _ hwritten =>
      obtain ⟨⟨here, hputs⟩, hagain⟩ := puts_of_write_ok (named_of_reads hconfig hp) hwritten
      obtain ⟨hconfig', hp'⟩ := reads_of_puts hconfig hp hspares hputs
      refine ⟨runCheck_of_current hconfig' hp' fun f hf => ?_,
        runSplit_of_write hconfig' hp' hallowed hwet hagain⟩
      exact hputs.readText hf

theorem sampleTree_regenerates : ∃ outcome t',
    runCommand disk false (.split sampleArguments) sampleTree = (outcome, t') ∧
    sampleArguments.dryRun = false ∧ outcome.code = 0 ∧ SparesInputs sampleArguments sampleTree t' ∧
    (∃ checked, runCommand disk false (.check sampleArguments.input sampleArguments.out) t' =
      (checked, t') ∧ checked.code = 0) ∧
    runCommand disk false (.split sampleArguments) t' = (outcome, t') := by
  have hcode : (runCommand disk false (.split sampleArguments) sampleTree).1.code = 0 := by
    decide +kernel
  have hspared : (load disk sampleArguments.input sampleTree).1.toOption.map (fun r =>
      (render r.2 r.1).all fun f =>
        let t' := (runCommand disk false (.split sampleArguments) sampleTree).2
        decide (t'.resolve "s" ≠ t'.resolve (join "out" f.fileName))) = some true := by
    decide +kernel
  have hspares : SparesInputs sampleArguments sampleTree
      (runCommand disk false (.split sampleArguments) sampleTree).2 := by
    intro config p hload path hpath f hf hsame
    obtain rfl : path = "s" := by simpa [Input.paths, sampleArguments] using hpath
    rw [hload] at hspared
    have hall := List.all_eq_true.mp (Option.some.inj hspared) f hf
    exact absurd hsame (of_decide_eq_true hall)
  have hrun : runCommand disk false (.split sampleArguments) sampleTree =
      ((runCommand disk false (.split sampleArguments) sampleTree).1,
        (runCommand disk false (.split sampleArguments) sampleTree).2) := (Prod.eta _).symm
  exact ⟨_, _, hrun, rfl, hcode, hspares, regenerates hrun rfl hcode hspares⟩

/-- A source that stands where the index is to be written. -/
def overwrittenTree : FileTree :=
  ⟨[(["index.ts"], .file (.text "export const a = pgTable(\"a\", \x7b\x7d);\n"))]⟩

/-- The arguments of a run that writes over this source. -/
def overwritingArguments : SplitArguments := ⟨⟨"index.ts", none⟩, ".", false, false, .text, false⟩

/-- A run that has written over its source need not pass a check. -/
theorem not_all_runs_regenerate :
    ¬ ∀ (color : Bool) (a : SplitArguments) (t t' : FileTree) (outcome : Outcome),
      runCommand disk color (.split a) t = (outcome, t') → a.dryRun = false → outcome.code = 0 →
      (∃ checked, runCommand disk color (.check a.input a.out) t' = (checked, t') ∧
          checked.code = 0) ∧
        ∃ again, runCommand disk color (.split a) t' = (again, t') ∧ again.code = 0 := by
  intro hall
  have hcode : (runCommand disk false (.split overwritingArguments) overwrittenTree).1.code = 0 := by
    decide +kernel
  have hchecked : (runCommand disk false (.check overwritingArguments.input overwritingArguments.out)
      (runCommand disk false (.split overwritingArguments) overwrittenTree).2).1.code = 1 := by
    decide +kernel
  obtain ⟨⟨checked, hrun, hzero⟩, -⟩ := hall _ _ _ _ _ (Prod.eta _).symm rfl hcode
  rw [hrun] at hchecked
  exact absurd (hzero.symm.trans hchecked) Nat.zero_ne_one

end Cli

end SchemaModules

import SchemaModules.Proofs.Commands
import SchemaModules.Proofs.Cycles

/-!
# Proofs: the denial of cycles

Where cycles are not to be, the modules are written only if no import statements of theirs go round in a
circle. The cycles are looked for before anything is written, so a run that finds one leaves the tree
alone.
-/

namespace SchemaModules.Cli

open SchemaModules.Path Output FileTree

variable {color : Bool} {t t' : FileTree} {config : Config} {p : Partition} {a : SplitArguments}

/-- How a run ends that must not write modules with cycles. -/
structure DeniesCycles (color : Bool) (a : SplitArguments) (t : FileTree) (config : Config)
    (p : Partition) (outcome : Outcome) (t' : FileTree) : Prop where
  /-- It fails for cycles exactly when the import statements of some module lead back to it. -/
  fails_iff : (∃ cycles, outcome = failed color (.importCycles cycles) "") ↔ p.Cyclic
  /-- Then the tree is left alone. -/
  unchanged : p.Cyclic → t' = t
  /-- If it succeeds, no import statements go round in a circle. -/
  acyclic : outcome.code = 0 → ¬ p.Cyclic
  /-- Then the files of the modules are there, with these import statements. -/
  files : outcome.code = 0 → a.dryRun = false → ∀ m ∈ p.modules,
    t'.readText (join a.out (fileName config m.name)) = .ok (moduleContents p config m)

theorem deniesCycles_of_not_cyclic {outcome : Outcome} (hnot : ¬ p.Cyclic)
    (hother : ∀ cycles, outcome ≠ failed color (.importCycles cycles) "")
    (hfiles : outcome.code = 0 → a.dryRun = false → ∀ m ∈ p.modules,
      t'.readText (join a.out (fileName config m.name)) = .ok (moduleContents p config m)) :
    DeniesCycles color a t config p outcome t' where
  fails_iff := ⟨fun ⟨cycles, heq⟩ => absurd heq (hother cycles), fun hcycle => absurd hcycle hnot⟩
  unchanged hcycle := absurd hcycle hnot
  acyclic _ := hnot
  files := hfiles

theorem deniesCycles_of_splitEnds (hdeny : a.denyCycles = true)
    (hcyclic : p.cycles ≠ [] ↔ p.Cyclic) (hnamed : Named (render p config)) {outcome : Outcome}
    (h : SplitEnds color a t config p outcome t') :
    DeniesCycles color a t config p outcome t' := by
  have hnot : (a.denyCycles = true → p.cycles = []) → ¬ p.Cyclic :=
    fun hallowed hcycle => hcyclic.mpr hcycle (hallowed hdeny)
  cases h with
  | denied _ hcycles =>
    have hcycle := hcyclic.mp hcycles
    exact ⟨⟨fun _ => hcycle, fun _ => ⟨_, rfl⟩⟩, fun _ => rfl, by simp [failed], by simp [failed]⟩
  | shown hallowed hdry =>
    exact deniesCycles_of_not_cyclic (hnot hallowed) (fun _ => reported_ne_failed _)
      fun _ hwet => by simp [hdry] at hwet
  | unmade hallowed _ e _ _ =>
    exact deniesCycles_of_not_cyclic (hnot hallowed) (failed_unwritable_ne _ _) (by simp [failed])
  | stopped hallowed _ _ _ _ e _ _ _ _ =>
    exact deniesCycles_of_not_cyclic (hnot hallowed) (failed_unwritable_ne _ _) (by simp [failed])
  | written hallowed _ paths _ hwritten =>
    obtain ⟨⟨here, hputs⟩, -⟩ := puts_of_write_ok hnamed hwritten
    refine deniesCycles_of_not_cyclic (hnot hallowed) (fun _ => reported_ne_failed _)
      fun _ _ m hm => ?_
    have hfile : (⟨fileName config m.name, moduleContents p config m⟩ : OutputFile) ∈
        render p config := List.mem_append_left _ (List.mem_map_of_mem hm)
    have hread := hputs.readText hfile
    exact hread

/-- A command line that denies cycles fails for them exactly when the modules have some, before
anything is written. -/
theorem run_denies_cycles {arguments : List String} (hcommand : command? arguments = some (.split a))
    (hdeny : a.denyCycles = true) (hload : load disk a.input t = (.ok (config, p), t)) :
    DeniesCycles color a t config p (run disk color arguments t).1 (run disk color arguments t).2 := by
  obtain ⟨hconfig, hp, -⟩ := reads_of_load hload
  have hcyclic : p.cycles ≠ [] ↔ p.Cyclic := by
    obtain ⟨text, -, hpartition⟩ := hp
    exact Partition.cycles_ne_nil_iff_cyclic hconfig.valid hpartition
  have hrun : run disk color arguments t = runSplit disk color a t := by
    rw [run, hcommand]
    rfl
  rw [hrun]
  exact deniesCycles_of_splitEnds hdeny hcyclic (named_of_reads hconfig hp)
    (splitEnds_runSplit hconfig hp)

/-- Two tables in two modules that refer to each other. -/
def mutualTree : FileTree :=
  ⟨[(["s"], .file (.text ("export const users = pgTable(\"u\", \x7b y: deals.id \x7d);\n" ++
    "export const deals = pgTable(\"d\", \x7b x: users.id \x7d);\n")))]⟩

/-- The arguments of a run that writes the modules of the file `s`, without cycles. -/
def denyingArguments : List String := ["split", "-s", "s", "-o", "out", "--deny-cycles"]

theorem mutualTree_denies_cycles : ∃ a config p,
    command? denyingArguments = some (.split a) ∧ a.denyCycles = true ∧
    load disk a.input mutualTree = (.ok (config, p), mutualTree) ∧ p.cycles = [["users", "deals"]] ∧
    DeniesCycles false a mutualTree config p (run disk false denyingArguments mutualTree).1
      (run disk false denyingArguments mutualTree).2 := by
  have hcommand : command? denyingArguments =
      some (.split ⟨⟨"s", none⟩, "out", false, true, .text, false⟩) := by decide +kernel
  have hsome : (load disk ⟨"s", none⟩ mutualTree).1.toOption.map (fun r => r.2.cycles) =
      some [["users", "deals"]] := by
    decide +kernel
  obtain ⟨⟨config, p⟩, hok, hcycles⟩ := exists_eq_ok_of_map_toOption hsome
  have hload : load disk ⟨"s", none⟩ mutualTree = (.ok (config, p), mutualTree) :=
    Prod.ext hok (load_snd _ _)
  exact ⟨_, config, p, hcommand, rfl, hload, hcycles, run_denies_cycles hcommand rfl hload⟩

end SchemaModules.Cli

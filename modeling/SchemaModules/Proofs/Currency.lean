import SchemaModules.Proofs.Commands
import SchemaModules.Proofs.Lookups

/-!
# Proofs: the check of an output

A check accepts an output exactly when every file that should be there is a file with its text. It reports
what is missing and what is stale as long as every path leads to a text or ends in a directory that does not
have its next name, and fails otherwise. What else there is in the directory is reported, and does not
count.
-/

namespace SchemaModules

open SchemaModules.Path Output FileTree

namespace Output

variable {t : FileTree} {out : String} {files : List OutputFile}

/-! ## Comparing the files -/

/-- The report on the files alone. -/
def fileReport (t : FileTree) (out : String) (files : List OutputFile) : Report where
  missing := (files.filter fun f => t.Lacks (join out f.fileName)).map OutputFile.fileName
  stale := (files.filter fun f => t.Differs (join out f.fileName) f.contents).map OutputFile.fileName

/-- A file that is found, or not found, is noted. -/
theorem compareFiles_cons {f : OutputFile} (found : Option String)
    (h : t.readText (join out f.fileName) = found.elim (.error .notFound) .ok) :
    compareFiles disk out (f :: files) t =
      ((compareFiles disk out files t).1.map fun report => report.note f found,
        (compareFiles disk out files t).2) := by
  rw [compareFiles, bind_run, Cli.readText_run, h]
  -- both answers are noted in the report on the other files
  cases found
  all_goals
    show (compareFiles disk out files >>= _) t = _
    rw [bind_run]
    rcases compareFiles disk out files t with ⟨_ | _, _⟩ <;> rfl

theorem compareFiles_cons_of_error {f : OutputFile} {e : DiskError}
    (h : t.readText (join out f.fileName) = .error e) (he : e ≠ .notFound) :
    compareFiles disk out (f :: files) t = (.error (.uncheckable e), t) := by
  rw [compareFiles, bind_run, Cli.readText_run, h]
  cases e with
  | notFound => exact absurd rfl he
  | _ => rfl

/-- Files that can be compared are: each is missing, stale or as it should be. -/
theorem compareFiles_of_comparable
    (h : ∀ f ∈ files, t.IsComparable (join out f.fileName)) :
    compareFiles disk out files t = (.ok (fileReport t out files), t) := by
  induction files with
  | nil => rfl
  | cons f files ih =>
    obtain ⟨hf, hfiles⟩ := List.forall_mem_cons.mp h
    have hrest := ih hfiles
    rcases hf with hlacks | ⟨text, htext⟩
    · have hsame : ¬ t.Differs (join out f.fileName) f.contents :=
        fun ⟨text, htext, _⟩ => hlacks.not_hasText text htext
      rw [compareFiles_cons none (readText_of_lacks hlacks), hrest]
      simp [fileReport, Except.map, Report.note, hlacks, hsame]
    · have hthere : ¬ t.Lacks (join out f.fileName) := fun hlacks => hlacks.not_hasText text htext
      rw [compareFiles_cons (some text) (hasText_iff.mp htext), hrest]
      by_cases heq : text = f.contents
      · simp [fileReport, Except.map, Report.note, hthere, differs_iff htext, heq]
      · simp [fileReport, Except.map, Report.note, hthere, differs_iff htext, heq]

/-- A file that cannot be compared ends the comparison. -/
theorem exists_error_of_not_comparable (hnames : ∀ f ∈ files, isName f.fileName = true)
    (h : ∃ f ∈ files, ¬ t.IsComparable (join out f.fileName)) :
    ∃ e, compareFiles disk out files t = (.error (.uncheckable e), t) := by
  induction files with
  | nil => simp at h
  | cons f files ih =>
    obtain ⟨hname, hnames⟩ := List.forall_mem_cons.mp hnames
    have hrest : t.IsComparable (join out f.fileName) →
        ∃ e, compareFiles disk out files t = (.error (.uncheckable e), t) := by
      intro hf
      obtain ⟨g, hg, hnot⟩ := h
      rcases List.mem_cons.mp hg with rfl | hg
      · exact absurd hf hnot
      · exact ih hnames ⟨g, hg, hnot⟩
    cases hread : t.readText (join out f.fileName) with
    | ok text =>
      obtain ⟨e, he⟩ := hrest (Or.inr ⟨text, hasText_iff.mpr hread⟩)
      exact ⟨e, by rw [compareFiles_cons (some text) hread, he]; rfl⟩
    | error e =>
      by_cases hnone : e = .notFound
      · subst hnone
        obtain ⟨e, he⟩ := hrest (Or.inl ((lacks_join_iff hname).mpr hread))
        exact ⟨e, by rw [compareFiles_cons none hread, he]; rfl⟩
      · exact ⟨e, compareFiles_cons_of_error hread hnone⟩

/-! ## The report -/

/-- What a check reports on an output. -/
structure Compares (t : FileTree) (out : String) (files : List OutputFile) (extension : String)
    (report : Report) : Prop where
  /-- The files that are not there are missing. -/
  missing : report.missing =
    (files.filter fun f => t.Lacks (join out f.fileName)).map OutputFile.fileName
  /-- The files with another text are stale. -/
  stale : report.stale =
    (files.filter fun f => t.Differs (join out f.fileName) f.contents).map OutputFile.fileName
  /-- The orphans stand in order, and each once. -/
  sorted : report.orphaned.Pairwise (· < ·)
  /-- The other files of the directory that have the extension are orphans. -/
  mem_orphaned : ∀ name, name ∈ report.orphaned ↔
    t.HoldsFile out name ∧ extension? name = some extension ∧ name ∉ files.map OutputFile.fileName

theorem mem_orphans {extension name : String} {names : List String} :
    name ∈ orphans files extension names ↔
      name ∈ names ∧ extension? name = some extension ∧ name ∉ files.map OutputFile.fileName := by
  rw [orphans, mem_stableSort, List.mem_filter]
  refine and_congr_right fun _ => ?_
  simp

theorem pairwise_orphans {names : List String} (h : names.Nodup) (extension : String) :
    (orphans files extension names).Pairwise (· < ·) := by
  have hsorted : (orphans files extension names).Pairwise fun a b => decide (a ≤ b) = true := by
    refine pairwise_stableSort _ (fun a b c hab hbc => ?_) (fun a b => ?_) _
    · exact decide_eq_true (String.le_trans (of_decide_eq_true hab) (of_decide_eq_true hbc))
    · exact (String.le_total a b).imp decide_eq_true decide_eq_true
  have hnodup : (orphans files extension names).Nodup :=
    ((stableSort_perm _ _).nodup_iff).mpr (h.filter _)
  refine (hsorted.and hnodup).imp fun {a b} hab => ?_
  by_contra hnot
  exact hab.2 (String.le_antisymm (of_decide_eq_true hab.1) (String.not_lt.mp hnot))

/-- A check of files that can be compared reports on them, and on the files of the directory. -/
theorem check_of_comparable (h : ∀ f ∈ files, t.IsComparable (join out f.fileName))
    (extension : String) : check disk out files extension t =
      (.ok { fileReport t out files with
        orphaned := orphans files extension (t.fileNames out) }, t) := by
  rw [check, bind_run, compareFiles_of_comparable h]
  show (disk.isDirectory out >>= _) t = _
  rw [bind_run, isDirectory_run]
  cases hdirectory : t.isDirectory out with
  | true => rfl
  | false =>
    rw [fileNames_of_not_isDirectory hdirectory]
    rfl

theorem exists_compares (ht : t.WellFormed)
    (h : ∀ f ∈ files, t.IsComparable (join out f.fileName)) (extension : String) :
    ∃ report, check disk out files extension t = (.ok report, t) ∧
      Compares t out files extension report := by
  refine ⟨_, check_of_comparable h extension, rfl, rfl, ?_, fun name => ?_⟩
  · exact pairwise_orphans (nodup_fileNames ht out) extension
  · rw [← mem_fileNames ht]
    exact mem_orphans

theorem check_of_not_comparable (hnames : ∀ f ∈ files, isName f.fileName = true)
    (h : ∃ f ∈ files, ¬ t.IsComparable (join out f.fileName)) (extension : String) :
    ∃ e, check disk out files extension t = (.error (.uncheckable e), t) := by
  obtain ⟨e, he⟩ := exists_error_of_not_comparable hnames h
  refine ⟨e, ?_⟩
  rw [check, bind_run, he]
  rfl

/-- A report finds nothing wrong exactly when every file has its text. -/
theorem isCurrent_iff (h : ∀ f ∈ files, t.IsComparable (join out f.fileName)) {report : Report}
    (hmissing : report.missing = (fileReport t out files).missing)
    (hstale : report.stale = (fileReport t out files).stale) :
    report.isCurrent = true ↔ ∀ f ∈ files, t.HasText (join out f.fileName) f.contents := by
  have hiff : report.isCurrent = true ↔ ∀ f ∈ files,
      ¬ t.Lacks (join out f.fileName) ∧ ¬ t.Differs (join out f.fileName) f.contents := by
    rw [Report.isCurrent, hmissing, hstale]
    simp [fileReport, List.filter_eq_nil_iff, forall_and]
  rw [hiff]
  refine forall₂_congr fun f hf => ⟨fun hfine => ?_, fun htext => ?_⟩
  · obtain ⟨text, htext⟩ := (h f hf).resolve_left hfine.1
    have heq : text = f.contents := by
      by_contra hne
      exact hfine.2 ⟨text, htext, hne⟩
    exact heq ▸ htext
  · exact ⟨fun hlacks => hlacks.not_hasText _ htext, fun ⟨_, hfound, hne⟩ => hne (hfound.eq htext)⟩

end Output

namespace Cli

variable {color : Bool} {t t' : FileTree} {config : Config} {p : Partition} {input : Input}
  {out : String}

/-! ## The command -/

/-- What is said when the files have been compared, or could not be. -/
def checked (color : Bool) (input : Input) (out : String) (files : List OutputFile) :
    Except Failure Report → Outcome
  | .error f => failed color f ""
  | .ok report =>
    if report.isCurrent then
      { stdout := currentLine color input out files, stderr := orphanLines color report.orphaned }
    else failed color (.staleOutput report.missing report.stale) (orphanLines color report.orphaned)

theorem runCheck_eq (hconfig : ReadsConfig t config input.config)
    (hp : ReadsPartition t config p input.source) {result : Except Failure Report}
    (hcheck : check disk out (render p config) config.fileExtension t = (result, t')) :
    runCheck disk color input out t = (checked color input out (render p config) result, t') := by
  rw [runCheck, bind_run, load_of_reads hconfig hp]
  show (check disk out (render p config) config.fileExtension >>= _) t = _
  rw [bind_run, hcheck]
  cases result with
  | error f => rfl
  | ok report =>
    simp only [checked]
    split <;> rfl

/-- How a check decides whether the files of an output are current. -/
structure DecidesCurrency (color : Bool) (t : FileTree) (out : String) (files : List OutputFile)
    (extension : String) (result : Except Failure Report) (outcome : Outcome) : Prop where
  /-- It accepts the output exactly when every file is there with its text. -/
  accepts_iff : outcome.code = 0 ↔ ∀ f ∈ files, t.HasText (join out f.fileName) f.contents
  /-- If every file can be compared it reports on them. -/
  reports : (∀ f ∈ files, t.IsComparable (join out f.fileName)) →
    ∃ report, result = .ok report ∧ Compares t out files extension report
  /-- If some file cannot be compared it fails. -/
  fails : (∃ f ∈ files, ¬ t.IsComparable (join out f.fileName)) →
    ∃ e, result = .error (.uncheckable e) ∧ outcome = failed color (.uncheckable e) ""

/-- A check leaves the tree alone and decides whether the output is current. -/
theorem run_decides_currency {arguments : List String}
    (hcommand : command? arguments = some (.check input out)) (ht : t.WellFormed)
    (hload : load disk input t = (.ok (config, p), t)) :
    (run disk color arguments t).2 = t ∧
      DecidesCurrency color t out (render p config) config.fileExtension
        (check disk out (render p config) config.fileExtension t).1
        (run disk color arguments t).1 := by
  obtain ⟨hconfig, hp, -⟩ := reads_of_load hload
  have hrun : run disk color arguments t = runCheck disk color input out t := by
    rw [run, hcommand]
    rfl
  rw [hrun]
  by_cases hall : ∀ f ∈ render p config, t.IsComparable (join out f.fileName)
  · obtain ⟨report, hcheck, hcompares⟩ := exists_compares ht hall config.fileExtension
    have hcurrent := isCurrent_iff hall hcompares.missing hcompares.stale
    rw [hcheck, runCheck_eq hconfig hp hcheck]
    refine ⟨rfl, ?_, fun _ => ⟨report, rfl, hcompares⟩, fun ⟨f, hf, hnot⟩ => absurd (hall f hf) hnot⟩
    rw [← hcurrent, checked]
    cases report.isCurrent with
    | true => simp
    | false => simp [failed]
  · have hsome : ∃ f ∈ render p config, ¬ t.IsComparable (join out f.fileName) := by
      simpa using hall
    obtain ⟨e, hcheck⟩ := check_of_not_comparable (named_of_reads hconfig hp).isName hsome
      config.fileExtension
    rw [hcheck, runCheck_eq hconfig hp hcheck]
    refine ⟨rfl, ?_, fun h => absurd h hall, fun _ => ⟨e, rfl, rfl⟩⟩
    refine ⟨fun hcode => absurd hcode Nat.one_ne_zero, fun htexts => ?_⟩
    exact absurd (fun f hf => Or.inr ⟨_, htexts f hf⟩) hall

instance (t : FileTree) : Decidable t.WellFormed :=
  inferInstanceAs (Decidable ((t.nodes.map Prod.fst).Nodup ∧
    ∀ n ∈ t.nodes, n.1 ≠ [] ∧ (∀ name ∈ n.1, isName name = true) ∧
      t.get? n.1.dropLast = some .directory))

/-- An output with a file that was changed by hand and one that is not of the output. -/
def editedTree : FileTree :=
  ⟨(["out"], .directory) :: (["out", "users.ts"], .file (.text "// edited\n")) ::
    (["out", "legacy.ts"], .file (.text "")) :: sampleTree.nodes⟩

/-- The arguments of a check of the directory `out`. -/
def checkingArguments : List String := ["check", "-s", "s", "-o", "out"]

theorem editedTree_decides_currency : ∃ config p,
    command? checkingArguments = some (.check ⟨"s", none⟩ "out") ∧ editedTree.WellFormed ∧
    load disk ⟨"s", none⟩ editedTree = (.ok (config, p), editedTree) ∧
    (check disk "out" (render p config) config.fileExtension editedTree).1 =
      .ok ⟨["index.ts"], ["users.ts"], ["legacy.ts"]⟩ ∧
    (run disk false checkingArguments editedTree).2 = editedTree ∧
    DecidesCurrency false editedTree "out" (render p config) config.fileExtension
      (check disk "out" (render p config) config.fileExtension editedTree).1
      (run disk false checkingArguments editedTree).1 := by
  have hcommand : command? checkingArguments = some (.check ⟨"s", none⟩ "out") := by
    decide +kernel
  have hwell : editedTree.WellFormed := by decide +kernel
  have hsome : (load disk ⟨"s", none⟩ editedTree).1.toOption.map (fun r =>
      (check disk "out" (render r.2 r.1) r.1.fileExtension editedTree).1) =
        some (.ok ⟨["index.ts"], ["users.ts"], ["legacy.ts"]⟩) := by
    decide +kernel
  obtain ⟨⟨config, p⟩, hok, hreport⟩ := exists_eq_ok_of_map_toOption hsome
  have hload : load disk ⟨"s", none⟩ editedTree = (.ok (config, p), editedTree) :=
    Prod.ext hok (load_snd _ _)
  exact ⟨config, p, hcommand, hwell, hload, hreport, run_decides_currency hcommand hwell hload⟩

/-! ## Paths that are too long -/

/-- A path to the directory where a tree starts, with as many slashes at its end as are asked for. -/
def slashedPath (slashes : Nat) : String := "." ++ String.ofList (List.replicate slashes '/')

theorem utf8ByteSize_slashes (n : Nat) :
    (String.ofList (List.replicate n '/')).utf8ByteSize = n := by
  induction n with
  | zero => rfl
  | succ n ih =>
    have hone : (String.singleton '/').utf8ByteSize = 1 := by decide
    rw [List.replicate_succ, String.ofList_cons, String.utf8ByteSize_append, ih, hone]
    omega

theorem parts_slashedPath (n : Nat) : parts (slashedPath (n + 1)) = ["."] := by
  have hnone : ∀ n, Text.runs (fun c => c = '/') (List.replicate n '/') = [] := by
    intro n
    induction n with
    | zero => rfl
    | succ n ih => exact (runs_append_slash [] (List.replicate n '/')).trans ih
  have hlist : (slashedPath (n + 1)).toList = ['.'] ++ '/' :: List.replicate n '/' := by
    simp [slashedPath, List.replicate_succ]
  rw [parts, hlist, runs_append_slash, hnone]
  rfl

theorem join_slashedPath (n : Nat) {name : String} (hname : isAbsolute name = false) :
    join (slashedPath (n + 1)) name = slashedPath (n + 1) ++ name := by
  have hne : (slashedPath (n + 1)).toList.isEmpty = false := by simp [slashedPath]
  have hlast : (slashedPath (n + 1)).toList = '.' :: List.replicate n '/' ++ ['/'] := by
    simp [slashedPath, List.replicate_succ']
  have hslash : endsWithSlash (slashedPath (n + 1)) = true := by
    rw [endsWithSlash, hlast, List.getLast?_concat]
    rfl
  rw [join, hname, hne, hslash]
  rfl

theorem refusal?_slashedPath_append (n : Nat) (name : String) (hnul : '\x00' ∉ name.toList) :
    refusal? (slashedPath (n + 1) ++ name) =
      if maxPathBytes < n + 2 + name.utf8ByteSize then some .nameTooLong else none := by
  have hsize : (slashedPath (n + 1) ++ name).utf8ByteSize = n + 2 + name.utf8ByteSize := by
    have hdot : ".".utf8ByteSize = 1 := by decide
    rw [slashedPath, String.utf8ByteSize_append, String.utf8ByteSize_append, hdot,
      utf8ByteSize_slashes]
    omega
  have hnul' : '\x00' ∉ (slashedPath (n + 1) ++ name).toList := by
    simp [slashedPath, hnul, List.mem_replicate]
  have hne : (slashedPath (n + 1) ++ name).toList ≠ [] := by simp [slashedPath]
  rw [refusal?, hsize, if_neg (by simpa using hnul'), if_neg (by simpa using hne)]

theorem refusal?_slashedPath_join (n : Nat) (name : String) (hname : isAbsolute name = false)
    (hnul : '\x00' ∉ name.toList) : refusal? (join (slashedPath (n + 1)) name) =
      if maxPathBytes < n + 2 + name.utf8ByteSize then some .nameTooLong else none := by
  rw [join_slashedPath n hname, refusal?_slashedPath_append n name hnul]

theorem resolve_slashedPath (t : FileTree) (n : Nat) (hn : n + 2 ≤ maxPathBytes) :
    t.resolve (slashedPath (n + 1)) = .ok ([], .directory) := by
  have hrefusal := refusal?_slashedPath_append n "" (by decide)
  have hsize : "".utf8ByteSize = 0 := by decide
  rw [String.append_empty, hsize, if_neg (by omega)] at hrefusal
  rw [resolve_eq_ok_directory_iff, parts_slashedPath]
  exact ⟨hrefusal, rfl⟩

/-- The next name on a path is not in the directory before it, whether or not the system takes the
path. -/
def IsAbsent (t : FileTree) (path : String) : Prop :=
  ∃ front part back here, parts path = front ++ part :: back ∧ t.LeadsTo front here ∧
    t.get? (step here part) = none

/-- A source with a file beside it that is not of its output. -/
def strayTree : FileTree := ⟨(["legacies.ts"], .file (.text "")) :: sampleTree.nodes⟩

theorem parts_slashedPath_join (n : Nat) {name : String} (hname : isName name = true) :
    parts (join (slashedPath (n + 1)) name) = ["."] ++ [name] := by
  rw [parts_join _ (isPart_of_isName hname), parts_slashedPath]

/-- A path that is refused cannot be compared. -/
theorem not_isComparable_of_refusal {path : String} {e : DiskError} (h : refusal? path = some e) :
    ¬ t.IsComparable path := by
  rintro (hlacks | ⟨text, place, hresolve⟩)
  · rw [hlacks.1] at h
    simp at h
  · rw [(resolve_eq_ok_iff.mp hresolve).1] at h
    simp at h

/-- The output for the stray tree is of two files. -/
theorem exists_load_strayTree : ∃ config p,
    load disk ⟨"s", none⟩ strayTree = (.ok (config, p), strayTree) ∧
    (render p config).map OutputFile.fileName = ["users.ts", "index.ts"] ∧
    config.fileExtension = "ts" := by
  have hsome : (load disk ⟨"s", none⟩ strayTree).1.toOption.map (fun r =>
      ((render r.2 r.1).map OutputFile.fileName, r.1.fileExtension)) =
        some (["users.ts", "index.ts"], "ts") := by
    decide +kernel
  obtain ⟨⟨config, p⟩, hok, hfiles⟩ := exists_eq_ok_of_map_toOption hsome
  obtain ⟨hnames, hextension⟩ := Prod.mk.inj hfiles
  exact ⟨config, p, Prod.ext hok (load_snd _ _), hnames, hextension⟩

/-- No file of the output stands in the stray tree, and the path to one is refused when the path of the
directory is long. -/
theorem absent_in_strayTree {files : List OutputFile}
    (hnames : files.map OutputFile.fileName = ["users.ts", "index.ts"]) :
    ∀ f ∈ files, isName f.fileName = true ∧ strayTree.get? (step [] f.fileName) = none ∧
      isTooLong f.fileName = false ∧ ∀ n, refusal? (join (slashedPath (n + 1)) f.fileName) =
        if maxPathBytes < n + 2 + 8 then some .nameTooLong else none := by
  intro f hf
  have hname : f.fileName ∈ files.map OutputFile.fileName := List.mem_map_of_mem hf
  rw [hnames, List.mem_pair] at hname
  rcases hname with hname | hname
  · rw [hname]
    exact ⟨by decide, by decide, by decide,
      fun n => refusal?_slashedPath_join n _ (by decide) (by decide)⟩
  · rw [hname]
    exact ⟨by decide, by decide, by decide,
      fun n => refusal?_slashedPath_join n _ (by decide) (by decide)⟩

/-- A check fails although no file is there. -/
theorem exists_check_strayTree_error {config : Config} {p : Partition}
    (hnames : (render p config).map OutputFile.fileName = ["users.ts", "index.ts"]) :
    (∀ f ∈ render p config, IsAbsent strayTree (join (slashedPath 4087) f.fileName)) ∧
      ∃ e, (check disk (slashedPath 4087) (render p config) config.fileExtension strayTree).1 =
        .error (.uncheckable e) := by
  have hplain := absent_in_strayTree hnames
  have habsent : ∀ f ∈ render p config, IsAbsent strayTree (join (slashedPath 4087) f.fileName) :=
    fun f hf => ⟨["."], f.fileName, [], [], parts_slashedPath_join 4086 (hplain f hf).1, rfl,
      (hplain f hf).2.1⟩
  have hsome : ∃ f ∈ render p config,
      ¬ strayTree.IsComparable (join (slashedPath 4087) f.fileName) := by
    obtain ⟨f, hf⟩ : ∃ f, f ∈ render p config :=
      List.exists_mem_of_ne_nil _ fun hnil => by simp [hnil] at hnames
    exact ⟨f, hf, not_isComparable_of_refusal ((hplain f hf).2.2.2 4086)⟩
  obtain ⟨e, hcheck⟩ := check_of_not_comparable (fun f hf => (hplain f hf).1) hsome
    config.fileExtension
  exact ⟨habsent, e, by rw [hcheck]⟩

/-- A check succeeds and does not report the stray file. -/
theorem exists_check_strayTree_ok {config : Config} {p : Partition}
    (hnames : (render p config).map OutputFile.fileName = ["users.ts", "index.ts"]) :
    ∃ report, (check disk (slashedPath 4086) (render p config) config.fileExtension strayTree).1 =
      .ok report ∧ "legacies.ts" ∉ report.orphaned := by
  have hplain := absent_in_strayTree hnames
  have hwell : strayTree.WellFormed := by decide +kernel
  have hlacks : ∀ f ∈ render p config,
      strayTree.IsComparable (join (slashedPath 4086) f.fileName) := fun f hf =>
    Or.inl ⟨(hplain f hf).2.2.2 4085, ["."], f.fileName, [], [],
      parts_slashedPath_join 4085 (hplain f hf).1, rfl, (hplain f hf).2.2.1, (hplain f hf).2.1⟩
  obtain ⟨report, hcheck, hcompares⟩ := exists_compares hwell hlacks config.fileExtension
  refine ⟨report, by rw [hcheck], fun horphan => ?_⟩
  obtain ⟨⟨here, contents, -, hfile⟩, -⟩ := (hcompares.mem_orphaned _).mp horphan
  have hrefusal := refusal?_slashedPath_join 4085 "legacies.ts" (by decide) (by decide)
  rw [(resolve_eq_ok_iff.mp hfile).1] at hrefusal
  exact absurd hrefusal (by decide)

/-- A file that is not there need not be missing, and another file of the directory need not be an
orphan, since the system takes no path that is too long. -/
theorem not_all_checks_report :
    (¬ ∀ (t : FileTree) (input : Input) (out : String) (config : Config) (p : Partition),
      t.WellFormed → load disk input t = (.ok (config, p), t) →
      (∀ f ∈ render p config, IsAbsent t (join out f.fileName) ∨
        ∃ text, t.HasText (join out f.fileName) text) →
      ∃ report, (check disk out (render p config) config.fileExtension t).1 = .ok report) ∧
    ¬ ∀ (t : FileTree) (input : Input) (out : String) (config : Config) (p : Partition)
      (report : Report), t.WellFormed → load disk input t = (.ok (config, p), t) →
      (check disk out (render p config) config.fileExtension t).1 = .ok report →
      ∀ name here contents, t.resolve out = .ok (here, .directory) →
        t.get? (here ++ [name]) = some (.file contents) →
        extension? name = some config.fileExtension →
        name ∉ (render p config).map OutputFile.fileName → name ∈ report.orphaned := by
  have hwell : strayTree.WellFormed := by decide +kernel
  obtain ⟨config, p, hload, hnames, hextension⟩ := exists_load_strayTree
  constructor
  · intro hall
    obtain ⟨habsent, e, hcheck⟩ := exists_check_strayTree_error hnames
    obtain ⟨report, hreport⟩ := hall strayTree _ (slashedPath 4087) config p hwell hload
      fun f hf => Or.inl (habsent f hf)
    rw [hcheck] at hreport
    simp at hreport
  · intro hall
    obtain ⟨report, hcheck, hnot⟩ := exists_check_strayTree_ok hnames
    have hout := resolve_slashedPath strayTree 4085 (by decide)
    exact hnot (hall strayTree _ (slashedPath 4086) config p report hwell hload hcheck "legacies.ts"
      [] (.text "") hout (by decide) (by rw [hextension]; decide) (by rw [hnames]; decide))

end Cli

end SchemaModules

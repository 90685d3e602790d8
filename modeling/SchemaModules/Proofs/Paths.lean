import SchemaModules.Disk.Tree
import SchemaModules.Proofs.Pieces

/-!
# Proofs: paths and their parts

A path is put together from names and slashes, and cutting it at the slashes gives the names back. So a
file in a directory has the parts of the directory and one more, and the directories above a path have
its parts up to one of them.
-/

namespace SchemaModules

open Text FileTree

namespace Path

/-- Whether a text can be a part of a path. -/
def IsPart (part : String) : Prop := part.toList ≠ [] ∧ '/' ∉ part.toList

theorem isPart_of_isName {name : String} (h : isName name = true) : IsPart name := by
  simp only [isName, Bool.and_eq_true, bne_iff_ne, Bool.not_eq_true', ne_eq] at h
  refine ⟨fun hnil => h.1.1.1 (String.toList_eq_nil_iff.mp hnil), fun hmem => ?_⟩
  rw [List.contains_iff_mem.mpr hmem] at h
  exact absurd h.2 (by simp)

theorem ne_dots_of_isName {name : String} (h : isName name = true) : name ≠ "." ∧ name ≠ ".." := by
  simp only [isName, Bool.and_eq_true, bne_iff_ne, ne_eq] at h
  exact ⟨h.1.1.2, h.1.2⟩

theorem isPart_of_mem_parts {path part : String} (h : part ∈ parts path) : IsPart part := by
  obtain ⟨run, hrun, rfl⟩ := List.mem_map.mp h
  obtain ⟨hpiece, hne⟩ := List.mem_filter.mp hrun
  rw [IsPart, String.toList_ofList]
  refine ⟨by simpa using hne, fun hmem => ?_⟩
  exact absurd (cut_of_mem_pieces hpiece '/' hmem) (by decide)

theorem runs_toList {part : String} (h : IsPart part) :
    runs (fun c => c = '/') part.toList = [part.toList] := by
  refine runs_of_forall (fun c hc => ?_) h.1
  have hne : c ≠ '/' := fun heq => h.2 (heq ▸ hc)
  simpa using hne

theorem runs_append_slash (xs ys : List Char) : runs (fun c => c = '/') (xs ++ '/' :: ys) =
    runs (fun c => c = '/') xs ++ runs (fun c => c = '/') ys :=
  runs_append_cons (decide_eq_true rfl) xs ys

/-! ## Files in a directory -/

/-- A name in a directory is put behind a slash, unless nothing is there to put it behind. -/
theorem join_cases (dir : String) {name : String} (h : IsPart name) :
    dir.toList = [] ∧ join dir name = name ∨
      ∃ front, (join dir name).toList = front ++ '/' :: name.toList ∧
        (dir.toList = front ∨ dir.toList = front ++ ['/']) := by
  have habsolute : isAbsolute name = false := by
    obtain ⟨c, cs, hname⟩ := List.exists_cons_of_ne_nil h.1
    have hc : c ≠ '/' := fun heq => h.2 (by simp [hname, heq])
    simpa [isAbsolute, hname] using hc
  unfold join
  rw [habsolute, Bool.false_or]
  by_cases hnil : dir.toList = []
  · exact Or.inl ⟨hnil, by rw [hnil]; rfl⟩
  · rw [if_neg (by simpa using hnil)]
    refine Or.inr ?_
    by_cases hslash : endsWithSlash dir = true
    · rw [if_pos hslash, String.toList_append]
      obtain ⟨front, hfront⟩ := List.getLast?_eq_some_iff.mp (of_decide_eq_true hslash)
      exact ⟨front, by rw [hfront, List.append_assoc, List.singleton_append], Or.inr hfront⟩
    · rw [if_neg hslash]
      refine ⟨dir.toList, ?_, Or.inl rfl⟩
      rw [String.toList_append, String.toList_append, List.append_assoc]
      rfl

/-- The parts of a file in a directory are those of the directory and its name. -/
theorem parts_join (dir : String) {name : String} (h : IsPart name) :
    parts (join dir name) = parts dir ++ [name] := by
  have hname : runs (fun c => c = '/') name.toList = [name.toList] := runs_toList h
  unfold parts
  rcases join_cases dir h with ⟨hnil, hjoin⟩ | ⟨front, hjoin, hdir⟩
  · rw [hjoin, hnil, hname]
    simp [runs, pieces]
  · have hruns : runs (fun c => c = '/') dir.toList = runs (fun c => c = '/') front := by
      rcases hdir with hdir | hdir
      · rw [hdir]
      · rw [hdir, runs_append_slash]
        simp [runs, pieces]
    rw [hjoin, hruns, runs_append_slash, hname]
    simp

/-- The path of a file in a directory does not ask for a directory. -/
theorem endsWithSlash_join (dir : String) {name : String} (h : IsPart name) :
    endsWithSlash (join dir name) = false := by
  have hlast : (join dir name).toList.getLast? = name.toList.getLast? := by
    rcases join_cases dir h with ⟨-, hjoin⟩ | ⟨front, hjoin, -⟩
    · rw [hjoin]
    · rw [hjoin, List.append_cons, List.getLast?_append_of_ne_nil _ h.1]
  have hne : name.toList.getLast? ≠ some '/' := fun heq => h.2 (List.mem_of_getLast? heq)
  rw [endsWithSlash, hlast]
  simpa using hne

/-! ## The directories above a path -/

theorem parts_slash_append (path : String) : parts ("/" ++ path) = parts path := by
  have hlist : ("/" ++ path).toList = [] ++ '/' :: path.toList := by
    rw [String.toList_append]
    rfl
  unfold parts
  rw [hlist, runs_append_slash]
  rfl

/-- Parts with slashes between them are the parts of what they make up. -/
theorem parts_intercalate {names : List String} (h : ∀ name ∈ names, IsPart name) :
    parts ("/".intercalate names) = names := by
  induction names with
  | nil => rfl
  | cons name names ih =>
    obtain ⟨hname, hnames⟩ := List.forall_mem_cons.mp h
    have hruns := runs_toList hname
    cases names with
    | nil => simp [parts, hruns]
    | cons next names =>
      have hrest := ih hnames
      have hlist : ("/".intercalate (name :: next :: names)).toList =
          name.toList ++ '/' :: ("/".intercalate (next :: names)).toList := by
        rw [String.intercalate_cons_cons, String.toList_append, String.toList_append,
          List.append_assoc]
        rfl
      unfold parts at hrest ⊢
      rw [hlist, runs_append_slash, List.map_append, hrest, hruns]
      simp

theorem properParts_subset (path : String) : properParts path ⊆ parts path := by
  unfold properParts
  intro part hpart
  split at hpart
  · simp at hpart
  · rename_i first rest hparts
    rw [hparts]
    rcases List.mem_cons.mp hpart with rfl | hpart
    · exact List.mem_cons_self ..
    · exact List.mem_cons_of_mem _ (List.mem_of_mem_filter hpart)

/-- What stands above a path has the first of its proper parts. -/
theorem parts_of_mem_ancestors {path above : String} (h : above ∈ ancestors path) :
    above = path ∨ ∃ n, parts above = (properParts path).take n := by
  unfold ancestors at h
  dsimp only at h
  rcases List.mem_cons.mp h with rfl | h
  · exact Or.inl rfl
  · obtain ⟨n, -, rfl⟩ := List.mem_map.mp h
    refine Or.inr ⟨n + 1, ?_⟩
    have hnames : ∀ name ∈ (properParts path).take (n + 1), IsPart name := fun name hname =>
      isPart_of_mem_parts (properParts_subset path (List.mem_of_mem_take hname))
    split
    · rw [parts_slash_append, parts_intercalate hnames]
    · rw [String.empty_append, parts_intercalate hnames]

end Path

end SchemaModules

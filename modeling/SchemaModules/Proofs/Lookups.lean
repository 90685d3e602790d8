import Mathlib.Data.List.Nodup
import SchemaModules.Proofs.Trees

/-!
# Proofs: what is at a path

A path leads to a text, or ends in a directory that does not have its next name, or is of no use. The files
of a directory are those to which their paths there lead.
-/

namespace SchemaModules

open SchemaModules.Path

namespace FileTree

variable {t : FileTree} {path out name : String}

/-! ## What is not there -/

/-- There is a file with this text at the path. -/
def HasText (t : FileTree) (path text : String) : Prop :=
  ∃ place, t.resolve path = .ok (place, .file (.text text))

/-- The path leads to a directory that does not have the next name on it. -/
def Lacks (t : FileTree) (path : String) : Prop :=
  refusal? path = none ∧ ∃ front part back here, parts path = front ++ part :: back ∧
    t.LeadsTo front here ∧ isTooLong part = false ∧ t.get? (step here part) = none

theorem hasText_iff {text : String} : t.HasText path text ↔ t.readText path = .ok text :=
  readText_eq_ok_iff.symm

instance (t : FileTree) (path text : String) : Decidable (t.HasText path text) :=
  decidable_of_iff (t.readText path = .ok text) hasText_iff.symm

theorem HasText.eq {text text' : String} (h : t.HasText path text) (h' : t.HasText path text') :
    text = text' :=
  Except.ok.inj ((hasText_iff.mp h).symm.trans (hasText_iff.mp h'))

theorem follow_of_none {here parts : List String} (h : t.get? here = none) :
    t.follow here parts = .error .notFound := by
  cases parts <;> simp [follow, h]

/-- Nothing is found along parts exactly when one of them is not in the directory before it. -/
theorem follow_eq_notFound_iff {here parts : List String} (h : t.get? here = some .directory) :
    t.follow here parts = .error .notFound ↔ ∃ front part back place,
      parts = front ++ part :: back ∧ t.follow here front = .ok (place, .directory) ∧
        isTooLong part = false ∧ t.get? (step place part) = none := by
  induction parts generalizing here with
  | nil => simp [follow, h]
  | cons part parts ih =>
    constructor
    · intro hnot
      have hlong : isTooLong part = false := by
        by_contra hlong
        rw [follow, h] at hnot
        simp [hlong] at hnot
      rw [follow, h] at hnot
      simp only [hlong, Bool.false_eq_true, if_false] at hnot
      cases hnode : t.get? (step here part) with
      | none => exact ⟨[], part, parts, here, rfl, follow_nil_eq_ok_iff.mpr ⟨rfl, h⟩, hlong, hnode⟩
      | some node =>
        cases node with
        | file contents => cases parts <;> simp [follow, hnode] at hnot
        | directory =>
          obtain ⟨front, part', back, place, rfl, hfront, hlong', hnone⟩ := (ih hnode).mp hnot
          exact ⟨part :: front, part', back, place, rfl,
            follow_cons_eq_ok_iff.mpr ⟨h, hlong, hfront⟩, hlong', hnone⟩
    · rintro ⟨front, part', back, place, hparts, hfront, hlong, hnone⟩
      cases front with
      | nil =>
        obtain ⟨rfl, rfl⟩ := List.cons.inj hparts
        obtain ⟨rfl, -⟩ := follow_nil_eq_ok_iff.mp hfront
        rw [follow, h]
        simp only [hlong, Bool.false_eq_true, if_false]
        exact follow_of_none hnone
      | cons first front =>
        obtain ⟨rfl, rfl⟩ := List.cons.inj hparts
        obtain ⟨-, hfirst, hrest⟩ := follow_cons_eq_ok_iff.mp hfront
        rw [follow, h]
        simp only [hfirst, Bool.false_eq_true, if_false]
        exact (ih (get?_of_follow_directory hrest)).mpr
          ⟨front, part', back, place, rfl, hrest, hlong, hnone⟩

theorem get?_nil (t : FileTree) : t.get? [] = some .directory := rfl

/-- A path of its own is lacking exactly when nothing is found at it. -/
theorem lacks_iff : t.Lacks path ↔ refusal? path = none ∧ t.resolve path = .error .notFound := by
  unfold Lacks
  refine and_congr_right fun hrefusal => ?_
  unfold resolve
  rw [hrefusal]
  show _ ↔ t.follow [] _ = .error .notFound
  rw [follow_eq_notFound_iff t.get?_nil]
  constructor
  · rintro ⟨front, part, back, here, hparts, hfront, hlong, hnone⟩
    exact ⟨front, part, _, here, by rw [hparts, List.append_assoc, List.cons_append], hfront,
      hlong, hnone⟩
  · rintro ⟨front, part, back, here, hparts, hfront, hlong, hnone⟩
    by_cases hslash : endsWithSlash path = true
    · rw [if_pos hslash] at hparts
      rcases List.eq_nil_or_concat back with rfl | ⟨middle, last, rfl⟩
      · -- the dot that a slash at the end stands for is never what is not there
        obtain ⟨-, hdot⟩ := List.append_inj' hparts rfl
        obtain rfl : "." = part := (List.cons.inj hdot).1
        rw [show step here "." = here from rfl, get?_of_follow hfront] at hnone
        simp at hnone
      · rw [List.concat_eq_append, ← List.cons_append, ← List.append_assoc] at hparts
        exact ⟨front, part, middle, here, (List.append_inj' hparts rfl).1, hfront, hlong, hnone⟩
    · rw [if_neg hslash, List.append_nil] at hparts
      exact ⟨front, part, back, here, hparts, hfront, hlong, hnone⟩

instance (t : FileTree) (path : String) : Decidable (t.Lacks path) :=
  decidable_of_iff (refusal? path = none ∧ t.resolve path = .error .notFound) lacks_iff.symm

theorem readText_of_lacks (h : t.Lacks path) : t.readText path = .error .notFound := by
  rw [readText, (lacks_iff.mp h).2]

theorem Lacks.not_hasText (h : t.Lacks path) (text : String) : ¬ t.HasText path text := by
  intro htext
  rw [hasText_iff, readText_of_lacks h] at htext
  simp at htext

/-- The path of a file in a directory is refused for other reasons than that nothing is there. -/
theorem refusal?_join_ne (hname : isName name = true) : refusal? (join out name) ≠ some .notFound := by
  have hpart := isPart_of_isName hname
  have hne : (join out name).toList ≠ [] := by
    intro hnil
    have hparts := parts_join out hpart
    rw [parts, hnil] at hparts
    simp [Text.runs, Text.pieces] at hparts
  unfold refusal?
  split
  · simp
  · rw [if_neg (by simpa using hne)]
    split <;> simp

theorem lacks_join_iff (hname : isName name = true) :
    t.Lacks (join out name) ↔ t.readText (join out name) = .error .notFound := by
  constructor
  · exact readText_of_lacks
  · intro hread
    have hresolve : t.resolve (join out name) = .error .notFound := by
      unfold readText at hread
      split at hread
      · rename_i e hresolve
        rw [hresolve, Except.error.inj hread]
      all_goals simp at hread
    refine lacks_iff.mpr ⟨?_, hresolve⟩
    cases hrefusal : refusal? (join out name) with
    | none => rfl
    | some e =>
      rw [resolve, hrefusal] at hresolve
      exact absurd (hrefusal.trans (congrArg some (Except.error.inj hresolve))) (refusal?_join_ne hname)

/-- What is at the path can be compared: a text, or nothing. -/
def IsComparable (t : FileTree) (path : String) : Prop :=
  t.Lacks path ∨ ∃ text, t.HasText path text

/-- There is a file with another text at the path. -/
def Differs (t : FileTree) (path text : String) : Prop :=
  ∃ found, t.HasText path found ∧ found ≠ text

theorem differs_iff {text found : String} (h : t.HasText path found) :
    t.Differs path text ↔ found ≠ text := by
  constructor
  · rintro ⟨other, hother, hne⟩
    rwa [h.eq hother]
  · exact fun hne => ⟨found, h, hne⟩

instance (t : FileTree) (path text : String) : Decidable (t.Differs path text) :=
  match hread : t.readText path with
  | .ok found => decidable_of_iff (found ≠ text) (differs_iff (hasText_iff.mpr hread)).symm
  | .error e => isFalse fun ⟨found, hfound, _⟩ => by
    rw [hasText_iff, hread] at hfound
    simp at hfound

/-! ## The files of a directory -/

/-- The file called `name` lies in the directory at the path `out`, and its path there leads to it. -/
def HoldsFile (t : FileTree) (out name : String) : Prop :=
  ∃ here contents, t.resolve out = .ok (here, .directory) ∧
    t.resolve (join out name) = .ok (here ++ [name], .file contents)

/-- Where no place stands twice, what is at a place is what its node says. -/
theorem get?_iff_mem_nodes (ht : t.WellFormed) {place : List String} (hplace : place ≠ [])
    {node : Node} : t.get? place = some node ↔ (place, node) ∈ t.nodes := by
  rw [get?, if_neg (by simpa using hplace)]
  constructor
  · intro h
    obtain ⟨before, after, hnodes, -⟩ := List.lookup_eq_some_iff.mp h
    rw [hnodes]
    exact List.mem_append_right _ (List.mem_cons_self ..)
  · intro h
    obtain ⟨before, after, hnodes⟩ := List.append_of_mem h
    refine List.lookup_eq_some_iff.mpr ⟨before, after, hnodes, fun n hn => ?_⟩
    have hnodup := ht.1
    rw [hnodes, List.map_append, List.map_cons] at hnodup
    have hne := (List.nodup_append.mp hnodup).2.2 n.1 (List.mem_map_of_mem hn) place
      (List.mem_cons_self ..)
    simpa using Ne.symm hne

theorem nameIn?_eq_some_iff {here : List String} {n : List String × Node} :
    nameIn? here n = some name ↔ n.1 = here ++ [name] ∧ ∃ contents, n.2 = .file contents := by
  obtain ⟨place, node⟩ := n
  cases node with
  | directory => simp [nameIn?]
  | file contents =>
    rw [nameIn?]
    constructor
    · intro h
      by_cases hhere : place.dropLast = here
      · rw [if_pos hhere] at h
        refine ⟨?_, contents, rfl⟩
        rw [← hhere]
        exact (List.dropLast_append_getLast? name h).symm
      · simp [hhere] at h
    · rintro ⟨hplace, -⟩
      have hplace' : place = here ++ [name] := hplace
      rw [hplace', List.dropLast_concat, if_pos rfl, List.getLast?_concat]

/-- The path of a file in a directory leads to its place there, if to anything. -/
theorem place_of_resolve_join {here place : List String} {node : Node} (hname : isName name = true)
    (hout : t.resolve out = .ok (here, .directory)) (h : t.resolve (join out name) = .ok (place, node)) :
    place = here ++ [name] := by
  have hpart := isPart_of_isName hname
  obtain ⟨hdot, hdots⟩ := ne_dots_of_isName hname
  have hleads : t.follow [] (parts out) = .ok (here, .directory) :=
    (resolve_eq_ok_directory_iff.mp hout).2
  have hfollow := (resolve_eq_ok_iff.mp h).2
  rw [parts_join out hpart, endsWithSlash_join out hpart, if_neg Bool.false_ne_true, List.append_nil,
    follow_append hleads, follow_cons_eq_ok_iff, step_of_ne_dots hdot hdots] at hfollow
  exact (follow_nil_eq_ok_iff.mp hfollow.2.2).1

theorem mem_fileNames (ht : t.WellFormed) : name ∈ t.fileNames out ↔ t.HoldsFile out name := by
  constructor
  · intro hmem
    unfold fileNames at hmem
    split at hmem
    · rename_i here hout
      obtain ⟨hmem, hfile⟩ := List.mem_filter.mp hmem
      obtain ⟨n, hn, hnamed⟩ := List.mem_filterMap.mp hmem
      obtain ⟨hplace, -⟩ := nameIn?_eq_some_iff.mp hnamed
      have hname : isName name = true := (ht.2 n hn).2.1 name (by simp [hplace])
      unfold isFile at hfile
      split at hfile
      · rename_i place contents hresolve
        obtain rfl := place_of_resolve_join hname hout hresolve
        exact ⟨here, contents, hout, hresolve⟩
      · simp at hfile
    · simp at hmem
  · rintro ⟨here, contents, hout, hfile⟩
    have hnode : (here ++ [name], Node.file contents) ∈ t.nodes :=
      (get?_iff_mem_nodes ht (by simp)).mp (get?_of_resolve hfile)
    unfold fileNames
    rw [hout]
    refine List.mem_filter.mpr ⟨List.mem_filterMap.mpr ⟨_, hnode, ?_⟩, ?_⟩
    · exact nameIn?_eq_some_iff.mpr ⟨rfl, contents, rfl⟩
    · rw [isFile, hfile]

theorem nodup_fileNames (ht : t.WellFormed) (out : String) : (t.fileNames out).Nodup := by
  unfold fileNames
  split
  · rename_i here _
    refine List.Nodup.filter _ ?_
    have hplaces : t.nodes.Pairwise fun n n' => n.1 ≠ n'.1 := List.pairwise_map.mp ht.1
    refine List.pairwise_filterMap.mpr (hplaces.imp fun {n n'} hne name hname name' hname' heq => ?_)
    -- the same name would be at the same place twice
    apply hne
    rw [(nameIn?_eq_some_iff.mp hname).1, (nameIn?_eq_some_iff.mp hname').1, heq]
  · exact List.nodup_nil

theorem fileNames_of_not_isDirectory (h : t.isDirectory out = false) : t.fileNames out = [] := by
  unfold isDirectory at h
  unfold fileNames
  split at h
  · simp at h
  · rfl

end FileTree

end SchemaModules

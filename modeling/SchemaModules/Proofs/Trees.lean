import SchemaModules.Proofs.Paths

/-!
# Proofs: following paths in a tree

A path is followed from directory to directory, and only the last place may be something else. So a path
leads to the same place in every tree that keeps the directories. What an operation does is said by the
place that it sets, and by what must be there before.
-/

namespace SchemaModules.FileTree

open SchemaModules.Path

variable {t t' : FileTree} {here place : List String} {node : Node}

/-- The path leads to this place, and a directory is there. -/
def LeadsTo (t : FileTree) (parts : List String) (place : List String) : Prop :=
  t.follow [] parts = .ok (place, .directory)

/-- Every directory of `t` is one of `t'`. -/
def KeepsDirectories (t t' : FileTree) : Prop :=
  ∀ place, t.get? place = some .directory → t'.get? place = some .directory

theorem KeepsDirectories.trans {t'' : FileTree} (h : KeepsDirectories t t')
    (h' : KeepsDirectories t' t'') : KeepsDirectories t t'' :=
  fun place hplace => h' place (h place hplace)

theorem keepsDirectories_set (hne : place ≠ []) (hplace : t.get? place ≠ some .directory)
    (node : Node) : KeepsDirectories t (t.set place node) := by
  intro other hother
  rw [get?_set t node other hne, if_neg]
  · exact hother
  · rintro rfl
    exact hplace hother

/-! ## Following parts -/

theorem get?_of_follow {parts : List String} (h : t.follow here parts = .ok (place, node)) :
    t.get? place = some node := by
  induction parts generalizing here with
  | nil =>
    obtain ⟨rfl, hnode⟩ := follow_nil_eq_ok_iff.mp h
    exact hnode
  | cons part parts ih => exact ih (follow_cons_eq_ok_iff.mp h).2.2

/-- What leads to a directory starts at a directory. -/
theorem get?_of_follow_directory {parts : List String}
    (h : t.follow here parts = .ok (place, .directory)) : t.get? here = some .directory := by
  cases parts with
  | nil =>
    obtain ⟨rfl, hnode⟩ := follow_nil_eq_ok_iff.mp h
    exact hnode
  | cons part parts => exact (follow_cons_eq_ok_iff.mp h).1

theorem follow_append {front : List String} (h : t.follow here front = .ok (place, .directory))
    (back : List String) : t.follow here (front ++ back) = t.follow place back := by
  induction front generalizing here with
  | nil =>
    obtain ⟨rfl, -⟩ := follow_nil_eq_ok_iff.mp h
    rfl
  | cons part front ih =>
    obtain ⟨hhere, hlong, hrest⟩ := follow_cons_eq_ok_iff.mp h
    rw [List.cons_append, follow, hhere]
    simp only [hlong, Bool.false_eq_true, if_false]
    exact ih hrest

/-- A front part of what leads to a directory leads to a directory. -/
theorem exists_follow_of_append {front back : List String}
    (h : t.follow here (front ++ back) = .ok (place, .directory)) :
    ∃ middle, t.follow here front = .ok (middle, .directory) := by
  induction front generalizing here with
  | nil => exact ⟨here, follow_nil_eq_ok_iff.mpr ⟨rfl, get?_of_follow_directory h⟩⟩
  | cons part front ih =>
    obtain ⟨hhere, hlong, hrest⟩ := follow_cons_eq_ok_iff.mp h
    obtain ⟨middle, hmiddle⟩ := ih hrest
    exact ⟨middle, follow_cons_eq_ok_iff.mpr ⟨hhere, hlong, hmiddle⟩⟩

/-- Where the directories are kept a path leads to the same place. -/
theorem follow_of_keepsDirectories (hkeeps : KeepsDirectories t t') {parts : List String}
    {node' : Node} (h : t.follow here parts = .ok (place, node)) (hnode : t'.get? place = some node') :
    t'.follow here parts = .ok (place, node') := by
  induction parts generalizing here with
  | nil =>
    obtain ⟨rfl, -⟩ := follow_nil_eq_ok_iff.mp h
    exact follow_nil_eq_ok_iff.mpr ⟨rfl, hnode⟩
  | cons part parts ih =>
    obtain ⟨hhere, hlong, hrest⟩ := follow_cons_eq_ok_iff.mp h
    exact follow_cons_eq_ok_iff.mpr ⟨hkeeps here hhere, hlong, ih hrest⟩

theorem LeadsTo.of_keepsDirectories {parts : List String} (h : t.LeadsTo parts place)
    (hkeeps : KeepsDirectories t t') : t'.LeadsTo parts place :=
  follow_of_keepsDirectories hkeeps h (hkeeps place (get?_of_follow h))

theorem follow_dot_cons {parts : List String} (h : t.get? here = some .directory) :
    t.follow here ("." :: parts) = t.follow here parts := by
  rw [follow, h]
  rfl

/-- What a path without its parts `.` leads to, the path leads to with a front part. -/
theorem exists_prefix_of_filter_dots {parts : List String} {n : Nat}
    (h : t.follow here ((parts.filter fun part => part != ".").take n) = .ok (place, .directory)) :
    ∃ front, front <+: parts ∧ t.follow here front = .ok (place, .directory) := by
  induction parts generalizing here n with
  | nil => exact ⟨[], List.nil_prefix, by simpa using h⟩
  | cons part parts ih =>
    by_cases hdot : part = "."
    -- a part that is left out stays where it is, so it may be taken along
    · subst hdot
      rw [List.filter_cons_of_neg (by simp)] at h
      obtain ⟨front, hfront, hfollow⟩ := ih h
      refine ⟨"." :: front, List.prefix_cons_inj _ |>.mpr hfront, ?_⟩
      rw [follow_dot_cons (get?_of_follow_directory hfollow), hfollow]
    · rw [List.filter_cons_of_pos (by simpa using hdot)] at h
      cases n with
      | zero => exact ⟨[], List.nil_prefix, h⟩
      | succ n =>
        obtain ⟨hhere, hlong, hrest⟩ := follow_cons_eq_ok_iff.mp h
        obtain ⟨front, hfront, hfollow⟩ := ih hrest
        exact ⟨part :: front, List.prefix_cons_inj _ |>.mpr hfront,
          follow_cons_eq_ok_iff.mpr ⟨hhere, hlong, hfollow⟩⟩

/-- The directories above a path are where its front parts lead. -/
theorem exists_prefix_of_properParts {path : String} {n : Nat}
    (h : t.LeadsTo ((properParts path).take n) place) :
    ∃ front, front <+: parts path ∧ t.LeadsTo front place := by
  unfold properParts at h
  split at h
  · exact ⟨[], List.nil_prefix, by simpa using h⟩
  · rename_i first rest hparts
    rw [hparts]
    cases n with
    | zero => exact ⟨[], List.nil_prefix, h⟩
    | succ n =>
      obtain ⟨hhere, hlong, hrest⟩ := follow_cons_eq_ok_iff.mp h
      obtain ⟨front, hfront, hfollow⟩ := exists_prefix_of_filter_dots hrest
      exact ⟨first :: front, List.prefix_cons_inj _ |>.mpr hfront,
        follow_cons_eq_ok_iff.mpr ⟨hhere, hlong, hfollow⟩⟩

/-! ## Resolving paths -/

variable {path : String}

theorem resolve_eq_ok_iff : t.resolve path = .ok (place, node) ↔ refusal? path = none ∧
    t.follow [] (parts path ++ if endsWithSlash path then ["."] else []) = .ok (place, node) := by
  unfold resolve
  cases refusal? path with
  | some e => simp
  | none => simp

/-- A slash at the end of a path to a directory changes nothing. -/
theorem resolve_eq_ok_directory_iff : t.resolve path = .ok (place, .directory) ↔
    refusal? path = none ∧ t.LeadsTo (parts path) place := by
  rw [resolve_eq_ok_iff, LeadsTo]
  by_cases hslash : endsWithSlash path = true
  · simp only [hslash, if_true]
    refine and_congr_right fun _ => ⟨fun h => ?_, fun h => ?_⟩
    · obtain ⟨middle, hmiddle⟩ := exists_follow_of_append h
      rw [follow_append hmiddle, follow_dot_cons (get?_of_follow hmiddle)] at h
      obtain ⟨rfl, -⟩ := follow_nil_eq_ok_iff.mp h
      exact hmiddle
    · rw [follow_append h, follow_dot_cons (get?_of_follow h)]
      exact follow_nil_eq_ok_iff.mpr ⟨rfl, get?_of_follow h⟩
  · simp [hslash]

theorem isDirectory_iff : t.isDirectory path = true ↔
    refusal? path = none ∧ ∃ place, t.LeadsTo (parts path) place := by
  have hresolve : t.isDirectory path = true ↔ ∃ place, t.resolve path = .ok (place, .directory) := by
    unfold isDirectory
    split
    · rename_i place hresolve
      exact ⟨fun _ => ⟨place, hresolve⟩, fun _ => rfl⟩
    · rename_i hnot
      exact ⟨fun h => Bool.noConfusion h, fun ⟨place, h⟩ => absurd h (hnot place)⟩
  simp only [hresolve, resolve_eq_ok_directory_iff, exists_and_left]

theorem resolve_of_keepsDirectories (hkeeps : KeepsDirectories t t') {node' : Node}
    (h : t.resolve path = .ok (place, node)) (hnode : t'.get? place = some node') :
    t'.resolve path = .ok (place, node') := by
  rw [resolve_eq_ok_iff] at h ⊢
  exact ⟨h.1, follow_of_keepsDirectories hkeeps h.2 hnode⟩

theorem get?_of_resolve (h : t.resolve path = .ok (place, node)) : t.get? place = some node :=
  get?_of_follow (resolve_eq_ok_iff.mp h).2

theorem readText_eq_ok_iff {text : String} :
    t.readText path = .ok text ↔ ∃ place, t.resolve path = .ok (place, .file (.text text)) := by
  unfold readText
  split <;> rename_i hresolve <;> simp [hresolve]

/-! ## Making a directory -/

theorem resolveLast_concat {front : List String} {last : String} (hrefusal : refusal? path = none)
    (hparts : parts path = front ++ [last]) :
    t.resolveLast path =
      match t.follow [] front with
      | .error e => .error e
      | .ok (_, .file _) => .error .notDirectory
      | .ok (here, .directory) => .ok (some (here, last)) := by
  unfold resolveLast
  rw [hrefusal, hparts, List.dropLast_concat, List.getLast?_append_of_ne_nil _ (by simp)]
  rfl

theorem resolveLast_eq_ok_some {front : List String} {last : String}
    (hrefusal : refusal? path = none) (hparts : parts path = front ++ [last])
    (hfront : t.LeadsTo front here) : t.resolveLast path = .ok (some (here, last)) := by
  rw [resolveLast_concat hrefusal hparts, show t.follow [] front = _ from hfront]

/-- What is the last part of a path lies in a directory to which the other parts lead. -/
theorem exists_of_resolveLast {last : String} (h : t.resolveLast path = .ok (some (here, last))) :
    refusal? path = none ∧ ∃ front, parts path = front ++ [last] ∧ t.LeadsTo front here := by
  cases hrefusal : refusal? path with
  | some e => simp [resolveLast, hrefusal] at h
  | none =>
    rcases List.eq_nil_or_concat (parts path) with hnil | ⟨front, final, hparts⟩
    · simp [resolveLast, hrefusal, hnil] at h
    · rw [List.concat_eq_append] at hparts
      rw [resolveLast_concat hrefusal hparts] at h
      split at h
      · simp at h
      · simp at h
      · rename_i middle hfollow
        obtain ⟨rfl, rfl⟩ : middle = here ∧ final = last := by simpa using h
        exact ⟨rfl, front, hparts, hfollow⟩

/-- A directory is made at a place where nothing is, in a directory that is there. -/
theorem exists_of_makeDirectory (h : t.makeDirectory path = .ok t') :
    ∃ front last here, refusal? path = none ∧ parts path = front ++ [last] ∧
      t.LeadsTo front here ∧ (last ≠ "." ∧ last ≠ ".." ∧ isTooLong last = false) ∧
      t.get? (here ++ [last]) = none ∧ t' = t.set (here ++ [last]) .directory := by
  unfold makeDirectory at h
  split at h
  · simp at h
  · simp at h
  · rename_i here last hlast
    obtain ⟨hrefusal, front, hparts, hfront⟩ := exists_of_resolveLast hlast
    split at h
    · simp at h
    · rename_i hdots
      split at h
      · simp at h
      · rename_i hlong
        split at h
        · simp at h
        · rename_i hnone
          obtain ⟨hdot, hdots⟩ : last ≠ "." ∧ last ≠ ".." := by simpa using hdots
          exact ⟨front, last, here, hrefusal, hparts, hfront, ⟨hdot, hdots, by simpa using hlong⟩,
            by simpa using hnone, (Except.ok.inj h).symm⟩

theorem step_of_ne_dots {part : String} (hdot : part ≠ ".") (hdots : part ≠ "..") :
    step here part = here ++ [part] := by
  rw [step, if_neg hdot, if_neg hdots]

theorem follow_concat {front : List String} {last : String} (hfront : t.LeadsTo front here)
    (hdot : last ≠ ".") (hdots : last ≠ "..") (hlong : isTooLong last = false)
    (hnode : t.get? (here ++ [last]) = some node) :
    t.follow [] (front ++ [last]) = .ok (here ++ [last], node) := by
  rw [follow_append hfront, follow_cons_eq_ok_iff, step_of_ne_dots hdot hdots]
  exact ⟨get?_of_follow hfront, hlong, follow_nil_eq_ok_iff.mpr ⟨rfl, hnode⟩⟩

/-- A directory that has been made is one place more, and the path leads there. -/
theorem makeDirectory_spec (h : t.makeDirectory path = .ok t') :
    refusal? path = none ∧ ∃ place, t.get? place = none ∧ t'.LeadsTo (parts path) place ∧
      ∀ other, t'.get? other = if other = place then some .directory else t.get? other := by
  obtain ⟨front, last, here, hrefusal, hparts, hfront, ⟨hdot, hdots, hlong⟩, hnone, rfl⟩ :=
    exists_of_makeDirectory h
  have hne : here ++ [last] ≠ [] := by simp
  have hget := fun other => get?_set t .directory other hne
  have hkeeps : KeepsDirectories t (t.set (here ++ [last]) .directory) :=
    keepsDirectories_set hne (by simp [hnone]) .directory
  refine ⟨hrefusal, here ++ [last], hnone, ?_, hget⟩
  rw [hparts]
  exact follow_concat (hfront.of_keepsDirectories hkeeps) hdot hdots hlong (by simp [hget])

/-- A directory that is there cannot be made again. -/
theorem makeDirectory_of_isDirectory (h : t.isDirectory path = true) :
    t.makeDirectory path = .error .alreadyExists := by
  obtain ⟨hrefusal, place, hplace⟩ := isDirectory_iff.mp h
  rcases List.eq_nil_or_concat (parts path) with hnil | ⟨front, last, hparts⟩
  · simp [makeDirectory, resolveLast, hrefusal, hnil]
  · rw [List.concat_eq_append] at hparts
    rw [hparts] at hplace
    obtain ⟨here, hhere⟩ := exists_follow_of_append hplace
    obtain ⟨-, hlong, hrest⟩ := follow_cons_eq_ok_iff.mp ((follow_append hhere [last]).symm.trans hplace)
    obtain ⟨rfl, hnode⟩ := follow_nil_eq_ok_iff.mp hrest
    unfold makeDirectory
    rw [resolveLast_eq_ok_some hrefusal hparts hhere]
    -- the dots are never made, and any other last part names the directory that is there
    by_cases hdots : last = "." ∨ last = ".."
    · simp [hdots]
    · obtain ⟨hdot, hdots'⟩ := not_or.mp hdots
      rw [step_of_ne_dots hdot hdots'] at hnode
      simp [hdot, hdots', hlong, hnode]

/-! ## Files in a directory -/

/-- The file called `name` may be written into the directory at `here`, to which `out` leads. -/
structure Admits (t : FileTree) (out : String) (here : List String) (name : String) : Prop where
  /-- Its path is not refused. -/
  allowed : refusal? (join out name) = none
  /-- Its name is not too long. -/
  short : isTooLong name = false
  /-- No directory stands there. -/
  free : t.get? (here ++ [name]) ≠ some .directory

section Files

variable {out name : String}

theorem resolve_join (hout : t.LeadsTo (parts out) here) (hname : isName name = true)
    (hrefusal : refusal? (join out name) = none) (hlong : isTooLong name = false)
    (hnode : t.get? (here ++ [name]) = some node) :
    t.resolve (join out name) = .ok (here ++ [name], node) := by
  have hpart := isPart_of_isName hname
  obtain ⟨hdot, hdots⟩ := ne_dots_of_isName hname
  rw [resolve_eq_ok_iff, parts_join out hpart, endsWithSlash_join out hpart]
  refine ⟨hrefusal, ?_⟩
  simpa using follow_concat hout hdot hdots hlong hnode

theorem write_join (hout : t.LeadsTo (parts out) here) (hname : isName name = true)
    (hrefusal : refusal? (join out name) = none) (contents : Contents) :
    t.write (join out name) contents =
      if isTooLong name then .error .nameTooLong
      else if t.get? (here ++ [name]) = some .directory then .error .isDirectory
      else .ok (t.set (here ++ [name]) (.file contents)) := by
  have hpart := isPart_of_isName hname
  obtain ⟨hdot, hdots⟩ := ne_dots_of_isName hname
  unfold write
  rw [resolveLast_eq_ok_some hrefusal (parts_join out hpart) hout]
  simp [hdot, hdots, endsWithSlash_join out hpart]

theorem write_of_admits (hout : t.LeadsTo (parts out) here) (hname : isName name = true)
    (hadmits : t.Admits out here name) (contents : Contents) :
    t.write (join out name) contents = .ok (t.set (here ++ [name]) (.file contents)) := by
  rw [write_join hout hname hadmits.allowed, hadmits.short, if_neg Bool.false_ne_true,
    if_neg hadmits.free]

theorem exists_error_of_not_admits (hout : t.LeadsTo (parts out) here) (hname : isName name = true)
    (hadmits : ¬ t.Admits out here name) (contents : Contents) :
    ∃ e, t.write (join out name) contents = .error e := by
  cases hrefusal : refusal? (join out name) with
  | some e => exact ⟨e, by simp [write, resolveLast, hrefusal]⟩
  | none =>
    rw [write_join hout hname hrefusal]
    cases hlong : isTooLong name with
    | true => exact ⟨.nameTooLong, rfl⟩
    | false =>
      have hnode : t.get? (here ++ [name]) = some .directory := by
        by_contra hnot
        exact hadmits ⟨hrefusal, hlong, hnot⟩
      exact ⟨.isDirectory, by rw [if_neg Bool.false_ne_true, if_pos hnode]⟩

end Files

end SchemaModules.FileTree

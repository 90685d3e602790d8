import SchemaModules.Proofs.Trees

/-!
# Proofs: making the directories of an output

Making directories adds directories on the way to the output and changes nothing else. Where the output
is a directory already nothing is made.
-/

namespace SchemaModules.FileTree

open SchemaModules.Path

variable {t t' : FileTree} {out : String}

/-! ## Directories on the way -/

/-- A front part of the path leads to this directory. -/
def OnWay (t : FileTree) (out : String) (place : List String) : Prop :=
  ∃ front, front <+: parts out ∧ t.LeadsTo front place

/-- There is nothing there, and then a directory on the way. -/
def IsMade (t t' : FileTree) (out : String) (place : List String) : Prop :=
  t.get? place = none ∧ t'.get? place = some .directory ∧ t'.OnWay out place

/-- The tree has got directories on the way, and nothing else has changed. -/
def Grows (t t' : FileTree) (out : String) : Prop :=
  ∀ place, t'.get? place = t.get? place ∨ IsMade t t' out place

theorem OnWay.of_keepsDirectories {place : List String} (h : t.OnWay out place)
    (hkeeps : KeepsDirectories t t') : t'.OnWay out place := by
  obtain ⟨front, hfront, hplace⟩ := h
  exact ⟨front, hfront, hplace.of_keepsDirectories hkeeps⟩

theorem Grows.refl (t : FileTree) (out : String) : Grows t t out := fun _ => Or.inl rfl

theorem Grows.keepsDirectories (h : Grows t t' out) : KeepsDirectories t t' := by
  intro place hplace
  rcases h place with hsame | ⟨hnone, -⟩
  · rw [hsame, hplace]
  · rw [hplace] at hnone
    simp at hnone

theorem Grows.trans {t'' : FileTree} (h : Grows t t' out) (h' : Grows t' t'' out) :
    Grows t t'' out := by
  intro place
  rcases h' place with hsame' | ⟨hnone', hmade'⟩
  · rcases h place with hsame | ⟨hnone, hdir, hway⟩
    · exact Or.inl (hsame'.trans hsame)
    · exact Or.inr ⟨hnone, hsame'.trans hdir, hway.of_keepsDirectories h'.keepsDirectories⟩
  · rcases h place with hsame | ⟨-, hdir, -⟩
    · exact Or.inr ⟨hsame.symm.trans hnone', hmade'⟩
    · rw [hdir] at hnone'
      simp at hnone'

theorem grows_of_makeDirectory {path : String} (hpath : path ∈ ancestors out)
    (h : t.makeDirectory path = .ok t') : Grows t t' out := by
  obtain ⟨-, place, hnone, hleads, hget⟩ := makeDirectory_spec h
  intro other
  rw [hget]
  by_cases hother : other = place
  · subst hother
    refine Or.inr ⟨hnone, by rw [hget, if_pos rfl], ?_⟩
    rcases parts_of_mem_ancestors hpath with rfl | ⟨n, hparts⟩
    · exact ⟨_, List.prefix_rfl, hleads⟩
    · rw [hparts] at hleads
      exact exists_prefix_of_properParts hleads
  · rw [if_neg hother]
    exact Or.inl rfl

theorem isDirectory_of_makeDirectory {path : String} (h : t.makeDirectory path = .ok t') :
    t'.isDirectory path = true := by
  obtain ⟨hrefusal, place, -, hleads, -⟩ := makeDirectory_spec h
  exact isDirectory_iff.mpr ⟨hrefusal, place, hleads⟩

theorem isDirectory_of_keepsDirectories {path : String} (h : t.isDirectory path = true)
    (hkeeps : KeepsDirectories t t') : t'.isDirectory path = true := by
  obtain ⟨hrefusal, place, hplace⟩ := isDirectory_iff.mp h
  exact isDirectory_iff.mpr ⟨hrefusal, place, hplace.of_keepsDirectories hkeeps⟩

/-! ## Running the operations -/

theorem bind_run {α β : Type} (x : StateM FileTree α) (f : α → StateM FileTree β) (t : FileTree) :
    (x >>= f) t = f (x t).1 (x t).2 := rfl

theorem makeDirectory_run (path : String) (t : FileTree) :
    disk.makeDirectory path t = update (fun t => t.makeDirectory path) t := rfl

theorem isDirectory_run (path : String) (t : FileTree) :
    disk.isDirectory path t = (t.isDirectory path, t) := rfl

section Update

variable {f : FileTree → Except DiskError FileTree}

theorem update_of_ok (h : f t = .ok t') : update f t = (.ok (), t') := by
  rw [update, h]

theorem update_of_error {e : DiskError} (h : f t = .error e) : update f t = (.error e, t) := by
  rw [update, h]

end Update

/-- Makes a directory that may be there already. -/
def makeOrFind (t : FileTree) (path : String) : Except DiskError Unit × FileTree :=
  match t.makeDirectory path with
  | .ok made => (.ok (), made)
  | .error e => (if t.isDirectory path then .ok () else .error e, t)

theorem makeOrFind_of_error {path : String} {e : DiskError} (h : t.makeDirectory path = .error e) :
    (do if ← disk.isDirectory path then pure (.ok ()) else pure (.error e) :
      StateM FileTree (Except DiskError Unit)) t = makeOrFind t path := by
  rw [bind_run, isDirectory_run, makeOrFind, h]
  show (if t.isDirectory path then pure (.ok ()) else pure (.error e) :
    StateM FileTree (Except DiskError Unit)) t = _
  split <;> rfl

/-- A directory is made after those above it, if they are missing. -/
theorem makeAlong_cons (path : String) (above : List String) (t : FileTree) :
    disk.makeAlong (path :: above) t =
      match t.makeDirectory path with
      | .error .notFound =>
        match disk.makeAlong above t with
        | (.error e, grown) => (.error e, grown)
        | (.ok (), grown) => makeOrFind grown path
      | _ => makeOrFind t path := by
  rw [Disk.makeAlong, bind_run, makeDirectory_run]
  cases hmade : t.makeDirectory path with
  | ok made =>
    rw [update_of_ok hmade]
    simp only [makeOrFind, hmade]
    rfl
  | error e =>
    rw [update_of_error hmade]
    cases e with
    | notFound =>
      show (disk.makeAlong above >>= _) t = _
      rw [bind_run]
      obtain ⟨result, grown⟩ := disk.makeAlong above t
      cases result with
      | error e => rfl
      | ok _ =>
        show (disk.makeDirectory path >>= _) grown = makeOrFind grown path
        rw [bind_run, makeDirectory_run]
        cases hagain : grown.makeDirectory path with
        | ok made =>
          rw [update_of_ok hagain, makeOrFind, hagain]
          rfl
        | error e =>
          rw [update_of_error hagain]
          exact makeOrFind_of_error hagain
    | _ => exact makeOrFind_of_error hmade

/-! ## Making the directories -/

theorem grows_makeOrFind {path : String} (hpath : path ∈ ancestors out) :
    Grows t (t.makeOrFind path).2 out := by
  unfold makeOrFind
  cases hmade : t.makeDirectory path with
  | ok made => exact grows_of_makeDirectory hpath hmade
  | error e => exact Grows.refl t out

theorem isDirectory_of_makeOrFind {path : String} (h : t.makeOrFind path = (.ok (), t')) :
    t'.isDirectory path = true := by
  unfold makeOrFind at h
  split at h
  · rename_i made hmade
    obtain ⟨-, rfl⟩ := Prod.mk.inj h
    exact isDirectory_of_makeDirectory hmade
  · by_cases hdir : t.isDirectory path = true
    · obtain ⟨-, rfl⟩ := Prod.mk.inj h
      exact hdir
    · simp [hdir] at h

theorem grows_makeAlong (paths : List String) (hpaths : ∀ path ∈ paths, path ∈ ancestors out)
    (t : FileTree) : Grows t (disk.makeAlong paths t).2 out := by
  induction paths with
  | nil => exact Grows.refl t out
  | cons path above ih =>
    obtain ⟨hpath, habove⟩ := List.forall_mem_cons.mp hpaths
    have hgrows := ih habove
    rw [makeAlong_cons]
    split
    · split <;> rename_i hfirst
      · rw [hfirst] at hgrows
        exact hgrows
      · rw [hfirst] at hgrows
        exact hgrows.trans (grows_makeOrFind hpath)
    · exact grows_makeOrFind hpath

/-- The last directory that is made is the first of the paths, whatever was made above it. -/
theorem isDirectory_of_makeAlong {path : String} {above : List String}
    (h : disk.makeAlong (path :: above) t = (.ok (), t')) : t'.isDirectory path = true := by
  rw [makeAlong_cons] at h
  split at h
  · split at h
    · cases h
    · exact isDirectory_of_makeOrFind h
  · exact isDirectory_of_makeOrFind h

/-- The output may be written to: nothing is to be made for it, or it is a directory. -/
def IsReady (t : FileTree) (out : String) : Prop := out.toList = [] ∨ t.isDirectory out = true

theorem IsReady.of_keepsDirectories (h : t.IsReady out) (hkeeps : KeepsDirectories t t') :
    t'.IsReady out :=
  h.imp_right fun hdir => isDirectory_of_keepsDirectories hdir hkeeps

theorem IsReady.exists_leadsTo (h : t.IsReady out) : ∃ here, t.LeadsTo (parts out) here := by
  rcases h with hnil | hdir
  · have hparts : parts out = [] := by rw [String.toList_eq_nil_iff.mp hnil]; rfl
    exact ⟨[], by rw [hparts]; rfl⟩
  · exact (isDirectory_iff.mp hdir).2

theorem grows_makeDirectories (out : String) (t : FileTree) :
    Grows t (disk.makeDirectories out t).2 out := by
  unfold Disk.makeDirectories
  split
  · exact Grows.refl t out
  · exact grows_makeAlong (ancestors out) (fun _ h => h) t

/-- Where the directories have been made the output may be written to. -/
theorem isReady_of_makeDirectories (h : disk.makeDirectories out t = (.ok (), t')) :
    t'.IsReady out := by
  unfold Disk.makeDirectories at h
  split at h
  · rename_i hnil
    exact Or.inl (by simpa using hnil)
  · exact Or.inr (isDirectory_of_makeAlong h)

/-- Nothing is made for an output that may be written to. -/
theorem makeDirectories_of_isReady (h : t.IsReady out) :
    disk.makeDirectories out t = (.ok (), t) := by
  unfold Disk.makeDirectories
  by_cases hnil : out.toList = []
  · rw [if_pos (by simpa using hnil)]
    rfl
  · have hdir := h.resolve_left hnil
    rw [if_neg (by simpa using hnil), ancestors, makeAlong_cons, makeDirectory_of_isDirectory hdir]
    simp only [makeOrFind, makeDirectory_of_isDirectory hdir, hdir, if_true]

end SchemaModules.FileTree

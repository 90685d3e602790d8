import SchemaModules.Disk.Basic
import SchemaModules.Lookup

/-!
# File trees

A file tree is a value that stands for all files and directories below a root. Every operation of a
disk has its counterpart on trees, with the same outcome and the same error. Paths are followed part by
part: each part but the last must lead to a directory, and so must the last if a slash follows it.
-/

namespace SchemaModules

/-- What a file holds. -/
inductive Contents
  /-- A text. -/
  | text (s : String)
  /-- Bytes that are no text. -/
  | binary (bytes : List UInt8)
  deriving Repr, DecidableEq

/-- What there is at a place in a tree. -/
inductive Node
  /-- A file. -/
  | file (contents : Contents)
  /-- A directory. -/
  | directory
  deriving Repr, DecidableEq

/-- The files and directories below a root. A place is the list of names that lead to it. -/
structure FileTree where
  /-- The places with what there is, each place once. -/
  nodes : List (List String × Node) := []
  deriving Repr, DecidableEq

namespace FileTree

/-- What there is at a place; at the root there is always a directory. -/
def get? (t : FileTree) (place : List String) : Option Node :=
  if place.isEmpty then some .directory else t.nodes.lookup place

/-- The tree with `node` at a place. -/
def set (t : FileTree) (place : List String) (node : Node) : FileTree :=
  ⟨(place, node) :: t.nodes.filter fun n => n.1 != place⟩

/-- Setting a place changes what there is at that place alone. -/
theorem get?_set (t : FileTree) {place : List String} (node : Node) (other : List String)
    (h : place ≠ []) :
    (t.set place node).get? other = if other = place then some node else t.get? other := by
  by_cases ho : other = []
  · subst ho
    simp [get?, Ne.symm h]
  · simp only [get?, List.isEmpty_iff, ho, if_false, set]
    exact lookup_replace other place node t.nodes

/-- Whether a text can be the name of a file or directory. -/
def isName (name : String) : Bool :=
  name != "" && name != "." && name != ".." && !name.toList.contains '/'

/-- A tree in which no place stands twice, every place has proper names, and whatever there is lies in
a directory. -/
def WellFormed (t : FileTree) : Prop :=
  (t.nodes.map Prod.fst).Nodup ∧
    ∀ n ∈ t.nodes, n.1 ≠ [] ∧ (∀ name ∈ n.1, isName name = true) ∧
      t.get? n.1.dropLast = some .directory

/-- The tree without a place and all below it. -/
def remove (t : FileTree) (place : List String) : FileTree :=
  ⟨t.nodes.filter fun n => !place.isPrefixOf n.1⟩

/-- The place that a part of a path leads to. -/
def step (here : List String) (part : String) : List String :=
  if part = "." then here else if part = ".." then here.dropLast else here ++ [part]

/-- The place that the parts of a path lead to from the place `here`, and what there is. -/
def follow (t : FileTree) : List String → List String → Except DiskError (List String × Node)
  | here, [] =>
    match t.get? here with
    | some node => .ok (here, node)
    | none => .error .notFound
  | here, part :: rest =>
    match t.get? here with
    | none => .error .notFound
    | some (.file _) => .error .notDirectory
    | some .directory =>
      if Path.isTooLong part then .error .nameTooLong else t.follow (step here part) rest

theorem follow_nil_eq_ok_iff {t : FileTree} {here place : List String} {node : Node} :
    t.follow here [] = .ok (place, node) ↔ place = here ∧ t.get? here = some node := by
  unfold follow
  cases t.get? here with
  | none => simp
  | some n => simp [eq_comm]

theorem follow_cons_eq_ok_iff {t : FileTree} {here place : List String} {node : Node} {part : String}
    {rest : List String} :
    t.follow here (part :: rest) = .ok (place, node) ↔ t.get? here = some .directory ∧
      Path.isTooLong part = false ∧ t.follow (step here part) rest = .ok (place, node) := by
  rw [follow]
  cases hhere : t.get? here with
  | none => simp
  | some n =>
    cases n with
    | file contents => simp
    | directory => cases hlong : Path.isTooLong part <;> simp

/-- The place that a path leads to, and what there is. -/
def resolve (t : FileTree) (path : String) : Except DiskError (List String × Node) :=
  match Path.refusal? path with
  | some e => .error e
  | none => t.follow [] (Path.parts path ++ if Path.endsWithSlash path then ["."] else [])

/-- The directory that holds the last part of a path, and that part; none if the path has no part. -/
def resolveLast (t : FileTree) (path : String) :
    Except DiskError (Option (List String × String)) :=
  match Path.refusal? path, (Path.parts path).getLast? with
  | some e, _ => .error e
  | none, none => .ok none
  | none, some last =>
    match t.follow [] (Path.parts path).dropLast with
    | .error e => .error e
    | .ok (_, .file _) => .error .notDirectory
    | .ok (here, .directory) => .ok (some (here, last))

/-- The text of the file at a path. -/
def readText (t : FileTree) (path : String) : Except DiskError String :=
  match t.resolve path with
  | .error e => .error e
  | .ok (_, .directory) => .error .isDirectory
  | .ok (_, .file (.binary _)) => .error .notText
  | .ok (_, .file (.text s)) => .ok s

/-- The tree after a file has been written. -/
def write (t : FileTree) (path : String) (contents : Contents) : Except DiskError FileTree :=
  match t.resolveLast path with
  | .error e => .error e
  | .ok none => .error .isDirectory
  | .ok (some (here, last)) =>
    if last = "." || last = ".." || Path.endsWithSlash path then .error .isDirectory
    else if Path.isTooLong last then .error .nameTooLong
    else if t.get? (here ++ [last]) = some .directory then .error .isDirectory
    else .ok (t.set (here ++ [last]) (.file contents))

/-- The tree after a directory has been made. -/
def makeDirectory (t : FileTree) (path : String) : Except DiskError FileTree :=
  match t.resolveLast path with
  | .error e => .error e
  | .ok none => .error .alreadyExists
  | .ok (some (here, last)) =>
    if last = "." || last = ".." then .error .alreadyExists
    else if Path.isTooLong last then .error .nameTooLong
    else if (t.get? (here ++ [last])).isSome then .error .alreadyExists
    else .ok (t.set (here ++ [last]) .directory)

/-- Whether there is a directory at a path. -/
def isDirectory (t : FileTree) (path : String) : Bool :=
  match t.resolve path with
  | .ok (_, .directory) => true
  | _ => false

/-- The name of a file that lies directly at the place `here`. -/
def nameIn? (here : List String) : List String × Node → Option String
  | (place, .file _) => if place.dropLast = here then place.getLast? else none
  | (_, .directory) => none

/-- Whether there is a file at a path. -/
def isFile (t : FileTree) (path : String) : Bool :=
  match t.resolve path with
  | .ok (_, .file _) => true
  | _ => false

/-- The names of the files in a directory, as far as their paths there lead to them. -/
def fileNames (t : FileTree) (path : String) : List String :=
  match t.resolve path with
  | .ok (here, .directory) =>
    (t.nodes.filterMap (nameIn? here)).filter fun name => t.isFile (Path.join path name)
  | _ => []

/-- An operation that changes the tree if it succeeds. -/
def update (f : FileTree → Except DiskError FileTree) : StateM FileTree (Except DiskError Unit) :=
  fun t =>
    match f t with
    | .ok changed => (.ok (), changed)
    | .error e => (.error e, t)

/-- A file tree as a disk. -/
def disk : Disk (StateM FileTree) where
  readText path := fun t => (t.readText path, t)
  writeText path text := update fun t => t.write path (.text text)
  makeDirectory path := update fun t => t.makeDirectory path
  isDirectory path := fun t => (t.isDirectory path, t)
  fileNames path := fun t => (t.fileNames path, t)

end FileTree

end SchemaModules

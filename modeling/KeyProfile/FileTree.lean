import KeyProfile.OrderedMap
import KeyProfile.Path
import KeyProfile.PathFault
import KeyProfile.Text.Utf8

/-!
All files, and how a path finds one. A path is followed name by name, from the root or from the
directory where one is at home; `.` stays, `..` goes back up as far as the root, and every step but
the last must end in a directory. Nothing has a name that is too long, and a path that is empty, too
long or holds a NUL finds nothing.

Directories are made together with those that lead to them. What a path has made stays even if it
turns out to lead nowhere.
-/

namespace KeyProfile

inductive FileNode (α : Type) where
  | directory
  | file (content : α)

structure FileTree (α : Type) where
  /-- The nodes by their places, the root itself left out. -/
  nodes : OrderedMap Place (FileNode α) := ∅
  /-- The directory where paths without a slash in front begin. -/
  home : Place := []

namespace FileTree

variable {α : Type}

/-- The most octets in a name. -/
abbrev maxName : Nat := 255

/-- The most octets in a path. -/
abbrev maxPath : Nat := 4095

def isTooLong (name : Text) : Bool := (Text.toUtf8 name).length > maxName

def isLongPath (path : Text) : Bool := (Text.toUtf8 path).length > maxPath

def nodeAt? (tree : FileTree α) (place : Place) : Option (FileNode α) :=
  if place.isEmpty then some .directory else tree.nodes.get? place

def isDirectory (tree : FileTree α) (place : Place) : Bool :=
  match tree.nodeAt? place with
  | some .directory => true
  | _ => false

/-- Why nothing can be found below a place that is no directory. -/
def outside (tree : FileTree α) (place : Place) : PathProblem :=
  if (tree.nodeAt? place).isSome then .notDirectory else .missing

/-- Where a name leads to from a place. -/
def enter (tree : FileTree α) (place : Place) (name : Text) : Except PathProblem Place :=
  if !tree.isDirectory place then .error (tree.outside place)
  else if Path.isHere name then .ok place
  else if Path.isAbove name then .ok place.dropLast
  else if isTooLong name then .error .nameTooLong
  else if (tree.nodeAt? (place ++ [name])).isSome then .ok (place ++ [name])
  else .error .missing

/-- Where names lead to from a place. -/
def follow (tree : FileTree α) (start : Place) (names : List Text) : Except PathProblem Place :=
  names.foldlM tree.enter start

/-- Where a path begins. -/
def start (tree : FileTree α) (root : Text) : Place := Path.start tree.home root

/-- What is at the end of a path. -/
def find? (tree : FileTree α) (path : Text) : Option (FileNode α) :=
  if path.isEmpty || path.contains '\x00' || isLongPath path then none
  else match tree.follow (tree.start (Path.root path)) (Path.names path) with
    | .ok place => tree.nodeAt? place
    | .error _ => none

/-- The content of the file at a path. -/
def read? (tree : FileTree α) (path : Text) : Option α :=
  match tree.find? path with
  | some (.file content) => some content
  | _ => none

def put (tree : FileTree α) (place : Place) (node : FileNode α) : FileTree α :=
  { tree with nodes := tree.nodes.insert place node }

/-- The tree with the directory that names lead to, if all but the last are there. -/
def makeDirectory (tree : FileTree α) (root : Text) (names : List Text) :
    Except PathProblem (FileTree α) :=
  match names.getLast? with
  | none => .error .taken
  | some last =>
    if isLongPath (Path.written root names) then .error .nameTooLong
    else do
      let parent ← tree.follow (tree.start root) names.dropLast
      if !tree.isDirectory parent then .error (tree.outside parent)
      else if Path.isAbove last then .error .taken
      else if isTooLong last then .error .nameTooLong
      else if (tree.nodeAt? (parent ++ [last])).isSome then .error .taken
      else .ok (tree.put (parent ++ [last]) .directory)

/-- A directory that could not be made is no fault if it is there, as far as that can be told. -/
def unlessThere (tree : FileTree α) (root : Text) (names : List Text) (problem : PathProblem) :
    Except PathFault Unit :=
  match problem, tree.follow (tree.start root) names with
  | .nameTooLong, _ => .error ⟨.nameTooLong, Path.written root names⟩
  | _, .ok place =>
    if tree.isDirectory place then .ok () else .error ⟨problem, Path.written root names⟩
  | _, .error _ => .error ⟨problem, Path.written root names⟩

/-- The tree with the directory that names lead to, the last name given first. Those that lead to it
are made only when it cannot be made without them. -/
def makeFrom (tree : FileTree α) (root : Text) : List Text → FileTree α × Except PathFault Unit
  | [] => (tree, tree.unlessThere root [] .taken)
  | last :: parents =>
    let names := (last :: parents).reverse
    match tree.makeDirectory root names with
    | .ok tree => (tree, .ok ())
    | .error .missing =>
      match makeFrom tree root parents with
      | (tree, .error fault) => (tree, .error fault)
      | (tree, .ok ()) =>
        match tree.makeDirectory root names with
        | .ok tree => (tree, .ok ())
        | .error problem => (tree, tree.unlessThere root names problem)
    | .error problem => (tree, tree.unlessThere root names problem)

/-- The tree with the directory at a path and those that lead to it, and the place of the
directory. -/
def makeDirectories (tree : FileTree α) (path : Text) : FileTree α × Except PathFault Place :=
  if path.contains '\x00' then (tree, .error ⟨.nul, path⟩)
  else
    let root := Path.root path
    let (made, result) := tree.makeFrom root (Path.steps path).reverse
    (made, result.map fun _ => Path.place (tree.start root) (Path.steps path))

/-- The tree with a file at a place, holding `content` if it was not there. The path is how the
place is written. -/
def openFile (tree : FileTree α) (place : Place) (path : Text) (content : α) :
    Except PathFault (FileTree α) :=
  if isLongPath path then .error ⟨.nameTooLong, path⟩
  else if !tree.isDirectory place.dropLast then .error ⟨tree.outside place.dropLast, path⟩
  else match tree.nodeAt? place with
    | none => .ok (tree.put place (.file content))
    | some (.file _) => .ok tree
    | some .directory => .error ⟨.isDirectory, path⟩

/-- The tree in which the content of the file at a place is another. -/
def update (tree : FileTree α) (place : Place) (f : α → α) : FileTree α :=
  { tree with nodes := tree.nodes.modify place fun
    | .file content => .file (f content)
    | .directory => .directory }

theorem nodeAt?_put (tree : FileTree α) {place : Place} (hne : place ≠ []) (node : FileNode α)
    (other : Place) :
    (tree.put place node).nodeAt? other =
      if other = place then some node else tree.nodeAt? other := by
  by_cases h : other = []
  · subst h; simp [nodeAt?, Ne.symm hne]
  · simp [nodeAt?, put, h, OrderedMap.get?_insert]

end FileTree

end KeyProfile

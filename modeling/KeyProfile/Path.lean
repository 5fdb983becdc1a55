import KeyProfile.Text.Basic

/-!
Paths with slashes: joining them, the place that the names on a path lead to, and how paths are
written. A path that begins with a slash leads from the root of all files; any other leads from the
directory where one is at home.
-/

namespace KeyProfile

/-- The names that lead from the root to what is there; none lead to the root itself. -/
abbrev Place := List Text

namespace Path

/-- A path below another. A path that begins with a slash stands for itself. -/
def join (base path : Text) : Text :=
  if path.head? = some '/' then path
  else if base.isEmpty || base.getLast? == some '/' then base ++ path
  else base ++ '/' :: path

/-- The slashes that a path is written with in front: none, one, or two if it has just two. -/
def root (path : Text) : Text :=
  match path.takeWhile (· == '/') with
  | [] => []
  | ['/', '/'] => ['/', '/']
  | _ => ['/']

/-- The names between the slashes of a path. -/
def names (path : Text) : List Text := Text.split ['/'] path

/-- The name of the directory itself, written or left out. -/
def isHere (name : Text) : Bool := name = [] ∨ name = ['.']

/-- The name of the directory above. -/
def isAbove (name : Text) : Bool := name = ['.', '.']

/-- The names on a path that lead anywhere. -/
def steps (path : Text) : List Text := (names path).filter (!isHere ·)

/-- Where a path that is written with a root begins, for someone at home in a directory. -/
def start (home : Place) (root : Text) : Place := if root.isEmpty then home else []

/-- The place that names lead to from another, every step taken as written. -/
def place (start : Place) (names : List Text) : Place :=
  names.foldl (fun place name =>
    if isHere name then place
    else if isAbove name then place.dropLast
    else place ++ [name]) start

/-- A path with a root and names. -/
def written (root : Text) (names : List Text) : Text :=
  let path := root ++ ['/'].intercalate names
  if path.isEmpty then ['.'] else path

/-- The path of a place, as it is written for a path with a root. -/
def ofPlace (root : Text) (place : Place) : Text :=
  written (if root.isEmpty then ['/'] else root) place

end Path

end KeyProfile

import KeyProfile.Text.Utf8

/-!
Files as they are found by their paths. A path leads to no file at all, to one that the system does
not let be read, or to one that holds some octets.
-/

namespace KeyProfile

inductive FileContent where
  /-- There is nothing, or something other than a file. -/
  | absent
  /-- There is a file, but it cannot be read, for a reason that the system gives. -/
  | denied (reason : Text)
  | octets (content : Text.Octets)
deriving DecidableEq, Repr

/-- What there is to read. -/
structure Files where
  /-- What the path of a file leads to. -/
  read : Text → FileContent := fun _ => .absent
  /-- How many containers a JSON document may have open at a time, if there is a limit. -/
  maxDepth : Option Nat := none

end KeyProfile

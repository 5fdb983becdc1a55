import KeyProfile.Text.Display

/-!
Why a path cannot be used. The wording is that of the operating system: its number for the problem,
its words, and the path.
-/

namespace KeyProfile

inductive PathProblem where
  /-- A directory on the way is not there. -/
  | missing
  /-- Something is there already. -/
  | taken
  /-- A name on the way is that of a file. -/
  | notDirectory
  /-- A file was wanted where a directory is. -/
  | isDirectory
  | nameTooLong
  /-- There is a NUL in the path, so it never reaches the operating system. -/
  | nul
deriving DecidableEq, Repr

structure PathFault where
  problem : PathProblem
  path : Text
deriving DecidableEq, Repr

namespace PathFault

def message (fault : PathFault) : Text :=
  let numbered (text : String) : Text := text.toList ++ ": ".toList ++ Text.quoted fault.path
  match fault.problem with
  | .missing => numbered "[Errno 2] No such file or directory"
  | .taken => numbered "[Errno 17] File exists"
  | .notDirectory => numbered "[Errno 20] Not a directory"
  | .isDirectory => numbered "[Errno 21] Is a directory"
  | .nameTooLong => numbered "[Errno 36] File name too long"
  | .nul => "embedded null byte".toList

end PathFault

end KeyProfile

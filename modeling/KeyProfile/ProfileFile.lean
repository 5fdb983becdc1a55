import KeyProfile.Compilation.Pass

/-!
Profiles kept in files. The octets are read leniently, so any file that can be read is some text; its
lines are compiled from scratch. There is no profile if there is no file, or if the system does not
let it be read, which is worth an error.
-/

namespace KeyProfile.ProfileFile

/-- The lines of a file. -/
def linesOf (content : Text.Octets) : List Text :=
  (Text.ofUtf8Lenient content).unifyLineEnds.lines

/-- What comes of loading a profile. -/
structure Loaded where
  profile : Option Profile := none
  log : List LogRecord := []

/-- The profile in the file at a path, if there is one that can be read. -/
def load (ws : Workspace) (path : Text) : Except Fault Loaded :=
  match ws.files.read path with
  | .absent => .ok {}
  | .denied reason => .ok { log := [.loadDenied path reason] }
  | .octets content => do
    let start : Compilation := { log := [.loading path ws.dataRoot] }
    let c ← start.compile ws (linesOf content)
    pure { profile := some c.profile, log := c.log }

end KeyProfile.ProfileFile

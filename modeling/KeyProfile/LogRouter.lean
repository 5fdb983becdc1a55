import KeyProfile.FileTree
import KeyProfile.LogRecord

/-!
Where log entries go: to the receivers, in order, unless they are below the level of the router.
Moving the log takes away the receiver that it was moved with before, closes its file, and opens the
log file of another directory, which goes on where it ended if it was written before. No log file is
so long that it would have to be begun anew. The level is lowered to `info` only if nothing received
entries when the log was first set up.
-/

namespace KeyProfile

structure LogEntry where
  level : LogLevel
  text : Text
deriving DecidableEq, Repr

/-- A log file that was opened. Each one is another, also if it is opened in the same place. -/
structure LogFile where
  number : Nat
  place : Place
  path : Text
deriving DecidableEq, Repr

inductive LogReceiver where
  /-- Anything but a log file. -/
  | terminal
  | logFile (file : LogFile)
deriving DecidableEq, Repr

def LogReceiver.file? : LogReceiver → Option LogFile
  | .terminal => none
  | .logFile file => some file

structure LogRouter where
  level : LogLevel := .warning
  receivers : List LogReceiver := []
  /-- The log file opened last, also when it is closed again. -/
  latest : Option LogFile := none
  /-- The log files that are open. -/
  held : List LogFile := []
  /-- How many log files were opened so far. -/
  opened : Nat := 0
  /-- The directories, and what every log file holds. -/
  files : FileTree (List LogEntry) := {}

namespace LogRouter

/-- The name of the log file in its directory. -/
def fileName : Text := "userdata.log".toList

/-- A receiver for the terminal, if nothing receives entries so far. -/
def ensureReceiver (r : LogRouter) : LogRouter :=
  if r.receivers.isEmpty then { r with receivers := [.terminal] } else r

/-- The router as it is before its log is moved, whether or not that will succeed. -/
def prepare (r : LogRouter) : LogRouter :=
  if r.receivers.isEmpty then { r with receivers := [.terminal], level := .info } else r

/-- The router without the receiver for the log file opened last, which is closed. -/
def retire (r : LogRouter) : LogRouter :=
  { r with
    receivers := r.latest.elim r.receivers fun file => r.receivers.erase (.logFile file)
    held := r.latest.elim r.held r.held.erase }

/-- The router with a receiver for the log file in a place, whose path is given. -/
def attach (r : LogRouter) (place : Place) (path : Text) : LogRouter × Except PathFault LogFile :=
  match r.files.openFile place path [] with
  | .error fault => (r, .error fault)
  | .ok files =>
    let file : LogFile := { number := r.opened, place, path }
    ({ r with
        receivers := r.receivers ++ [.logFile file]
        latest := some file
        held := r.held ++ [file]
        opened := r.opened + 1
        files },
      .ok file)

/-- The router with its log in a directory, which is made if it is not there. Only if it could be
made, the log file of before is closed, and only then the new one is opened. -/
def moveTo (r : LogRouter) (directory : Text) : LogRouter × Except PathFault LogFile :=
  let r := r.prepare
  match r.files.makeDirectories directory with
  | (files, .error fault) => ({ r with files }, .error fault)
  | (files, .ok place) =>
    let place := place ++ [fileName]
    { r with files }.retire.attach place (Path.ofPlace (Path.root directory) place)

/-- The files with an entry written where a receiver writes it. -/
def deliver (entry : LogEntry) (files : FileTree (List LogEntry)) :
    LogReceiver → FileTree (List LogEntry)
  | .terminal => files
  | .logFile file => files.update file.place (· ++ [entry])

/-- Sends an entry on its way. -/
def send (r : LogRouter) (entry : LogEntry) : LogRouter :=
  let r := r.ensureReceiver
  if r.level.severity ≤ entry.level.severity then
    { r with files := r.receivers.foldl (deliver entry) r.files }
  else r

/-- The log files that receive entries. -/
def fileReceivers (r : LogRouter) : List LogFile := r.receivers.filterMap LogReceiver.file?

/-- What the log file of a directory holds, if there is one. -/
def read? (r : LogRouter) (directory : Text) : Option (List LogEntry) :=
  r.files.read? (Path.join directory fileName)

end LogRouter

end KeyProfile

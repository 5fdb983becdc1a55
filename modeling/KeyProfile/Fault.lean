import KeyProfile.Text.Display

/-!
The ways in which an operation of the library can be asked for something impossible. Each is a cause
of its own; the wording is in `Fault.message` alone.
-/

namespace KeyProfile

inductive Fault where
  /-- Splitting at a separator of no characters. -/
  | emptySeparator
  /-- A mouse button that there is none of. -/
  | noSuchButton (bit : Int)
  /-- A second symbol claims a name. -/
  | nameTaken (name : Text)
  /-- A macro id that a driver value has no room for. -/
  | macroIdRange (id : Int)
  /-- A name was referred to but never defined. -/
  | undefinedName (name : Text)
  /-- A group header without the argument that names its subject. -/
  | missingArgument
  /-- A line of key bindings before any group was opened. -/
  | noOpenTables
  /-- A line of macro actions while no macro is open. -/
  | noOpenMacro (action : Text)
deriving DecidableEq, Repr

def Fault.message : Fault → Text
  | .emptySeparator => "empty separator".toList
  | .noSuchButton bit => Text.ofInt bit ++ " is not a valid DriverValueMouseButton".toList
  | .nameTaken name =>
    "Misconfigured: two driver values claim the same name ".toList ++ name
  | .macroIdRange id =>
    "macro id ".toList ++ Text.ofInt id ++ " does not fit in a driver value".toList
  | .undefinedName name => "undefined name ".toList ++ Text.quoted name
  | .missingArgument => "a group header names no subject".toList
  | .noOpenTables => "no group is open".toList
  | .noOpenMacro action => "no macro is open for the action ".toList ++ Text.quoted action

namespace Text

/-- The non-empty pieces of a text between the occurrences of a separator. -/
def entries (sep t : Text) : Except Fault (List Text) :=
  if sep.isEmpty then .error .emptySeparator
  else .ok ((split sep t).filter (!·.isEmpty))

end Text

end KeyProfile

import KeyProfile.Lighting.File
import KeyProfile.Profile

/-!
What is worth telling the user while profiles are read. A record keeps the facts; its level and its
wording are functions of them.
-/

namespace KeyProfile

inductive LogLevel where
  | debug
  | info
  | warning
  | error
  | critical
deriving DecidableEq, Repr

namespace LogLevel

def name : LogLevel → Text
  | .debug => "DEBUG".toList
  | .info => "INFO".toList
  | .warning => "WARNING".toList
  | .error => "ERROR".toList
  | .critical => "CRITICAL".toList

/-- Greater is more severe. -/
def severity : LogLevel → Int
  | .debug => 10
  | .info => 20
  | .warning => 30
  | .error => 40
  | .critical => 50

instance : Enumerated LogLevel :=
  ⟨[.debug, .info, .warning, .error, .critical], name, fun level => some level.severity, []⟩

end LogLevel

inductive LogRecord where
  /-- A profile file is about to be compiled. -/
  | loading (path dataRoot : Text)
  /-- There is a profile file, but the system does not let it be read. -/
  | loadDenied (path reason : Text)
  | effectLoaded (effect : Lighting.Effect)
  | effectFailed (name : Text) (failure : Lighting.LoadFailure)
  | unknownAction (action macroName : Text)
  /-- A key refers to a macro that is not defined. -/
  | macroMissing (name : Text) (key : Int)
  /-- A key refers to a macro for which no id is left. -/
  | macroUnnumbered (name : Text) (key : Int)
  | effectOverflow (count : Nat)
  | compiled (profile : Profile)

namespace LogRecord

/-- How many effects a keyboard holds. -/
abbrev maxEffects : Nat := 32

def level : LogRecord → LogLevel
  | .loading .. => .info
  | .loadDenied .. => .error
  | .effectLoaded _ => .debug
  | .effectFailed .. => .warning
  | .unknownAction .. => .warning
  | .macroMissing .. => .warning
  | .macroUnnumbered .. => .error
  | .effectOverflow _ => .warning
  | .compiled _ => .info

def message : LogRecord → Text
  | .loading path dataRoot =>
    "Loading user data ".toList ++ path ++ " (data root ".toList ++ dataRoot ++ [')']
  | .loadDenied path reason =>
    "Unable to read user data ".toList ++ path ++ ": ".toList ++ reason
  | .effectLoaded effect => "Loaded lighting effect ".toList ++ effect.describe
  | .effectFailed name failure =>
    "Failed to load lighting effect '".toList ++ name ++ "': ".toList ++ failure.message
  | .unknownAction action macroName =>
    "Unknown macro action '".toList ++ action ++ "' in macro '".toList ++ macroName ++ ['\'']
  | .macroMissing name key =>
    "Failed to find macro '".toList ++ name ++ "' bound to key ".toList ++
      SymbolTable.standard.nameOf key
  | .macroUnnumbered name key =>
    "Too many macros, unable to bind macro '".toList ++ name ++ "' to key ".toList ++
      SymbolTable.standard.nameOf key
  | .effectOverflow count =>
    Text.ofNat count ++ " lighting effects defined, the keyboard holds at most ".toList ++
      Text.ofNat maxEffects
  | .compiled profile => "Compiled user data: ".toList ++ profile.describe

end LogRecord

end KeyProfile

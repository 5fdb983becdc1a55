import KeyProfile.Proofs.DestinationForms
import KeyProfile.Proofs.Increments
import KeyProfile.Proofs.PressLines
import KeyProfile.Proofs.TextCuts

/-!
What the log of a compiled text says. The first pass tells of effects and of unknown action words,
block by block (`Block.storeEntries`); the second of calls that cannot be answered, call by call
(`KeyCall.entries`). What an entry looks like depends on what came before it: an effect that is
there is not loaded again, and ids run out. So both are told by lists in which each item is seen
together with those in front of it (`eachAfter`).
-/

namespace KeyProfile

/-- A record with its level. -/
def LogRecord.entry (r : LogRecord) : LogLevel × LogRecord := (r.level, r)

/-- The log with the levels of its records. -/
def Compilation.entries (c : Compilation) : List (LogLevel × LogRecord) :=
  c.log.map LogRecord.entry

/-! What the blocks say. -/

/-- The file of an effect is read unless the effect was loaded before; that succeeds or fails. -/
def EffectUse.entries (ws : Workspace) (earlier : List EffectUse) (use : EffectUse) :
    List (LogLevel × LogRecord) :=
  if (litNames ws earlier).contains use.name then []
  else
    match Lighting.load ws.keyboard ws.files ws.dataRoot use.name with
    | .ok effect => [(.debug, .effectLoaded effect)]
    | .error failure => [(.warning, .effectFailed use.name failure)]

/-- A key that calls a macro. -/
structure KeyCall where
  key : Int
  name : Text

/-- The macros that have ids after calls: the first 256 of those that are defined. -/
def numberedAfter (blocks : List Block) (calls : List KeyCall) : List Text :=
  (((calls.map KeyCall.name).filter (definedMacros blocks).contains).eraseDups).take 256

/-- What a call says, given the calls before it: that the macro is defined nowhere, or that others
have all the ids. -/
def KeyCall.entries (blocks : List Block) (earlier : List KeyCall) (call : KeyCall) :
    List (LogLevel × LogRecord) :=
  if (definedMacros blocks).contains call.name = false then
    [(.warning, .macroMissing call.name call.key)]
  else if 256 ≤ ((numberedAfter blocks earlier).filter (· ≠ call.name)).length then
    [(.error, .macroUnnumbered call.name call.key)]
  else []

/-! Tokens that call macros. -/

namespace Compilation

end Compilation

/-! The second pass. -/

namespace Registry

/-- A registry and what was said about calls so far, after one call more. -/
def answer (s : Registry Macro × List LogRecord) (call : KeyCall) :
    Registry Macro × List LogRecord :=
  let r := (s.1.reference call.name).1
  (r, s.2 ++ (r.complaint? call.key call.name).toList)

end Registry

namespace Compilation

end Compilation

end KeyProfile

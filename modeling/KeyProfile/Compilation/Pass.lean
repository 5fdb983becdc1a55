import KeyProfile.Compilation.Group

/-!
Compiling profile text. Lines are read in two passes: macros and lighting first, so that keys may
refer to macros defined anywhere, key tables second. A finalization then hands out the ids and
publishes what was defined.
-/

namespace KeyProfile.Compilation

/-- One line, blanks around it dropped: a comment, a header, or a line of the open group. -/
def compileLine (ws : Workspace) (groups : List GroupKind) (c : Compilation) (line : Text) :
    Except Fault Compilation :=
  let line := line.strip
  if line.head? = some '#' then .ok c
  else if line.head? = some '[' then c.openGroup ws groups line
  else match c.group with
    | .layer => c.layerLine line
    | .macros => c.macroLine line
    | _ => .ok c

/-- Reads lines for groups of some kinds, from outside any group. -/
def compilePass (ws : Workspace) (groups : List GroupKind) (lines : List Text)
    (c : Compilation) : Except Fault Compilation :=
  lines.foldlM (compileLine ws groups) { c with cursor := some {} }

/-- Hands out the ids, and publishes the macros and effects. -/
def finalize (c : Compilation) : Except Fault Compilation := do
  let macros ← c.macros.stamp fun id m => { m with id := id.map Int.ofNat }
  let effects ← c.effects.stamp fun id e => { e with id := id.map Int.ofNat }
  let c := { c with
    macros, effects
    publishedMacros := macros.items.size
    publishedEffects := effects.items.size }
  let overflow : List LogRecord :=
    if effects.items.size > LogRecord.maxEffects then [.effectOverflow effects.items.size] else []
  pure (c.record (overflow ++ [.compiled c.profile]))

def firstPass : List GroupKind := [.lighting, .macros]

def secondPass : List GroupKind := [.layer]

/-- Both passes over the lines, and a finalization. -/
def compile (ws : Workspace) (lines : List Text) (c : Compilation) :
    Except Fault Compilation := do
  let c ← c.compilePass ws firstPass lines
  let c ← c.compilePass ws secondPass lines
  c.finalize

end KeyProfile.Compilation

namespace KeyProfile

/-- The compilation of lines from scratch. -/
def compile (ws : Workspace) (lines : List Text) : Except Fault Compilation :=
  Compilation.compile ws lines {}

end KeyProfile

import KeyProfile.Compilation.Basic

/-!
Opening groups. A header closes the group before it, and each of its names then opens a group of its
own kind if the pass takes that kind; the last one to do so receives the lines that follow. Layers
without lighting are noted in every pass.
-/

namespace KeyProfile.Compilation

/-- Makes a key table one of those that the lines below bind keys in. -/
def openTable (c : Compilation) (ref : TableRef) : Compilation :=
  let c := { c with tables := c.tables.ensure ref }
  c.moveCursor fun cursor =>
    { cursor with
      group := .layer
      tables := if ref ∈ cursor.tables then cursor.tables else cursor.tables ++ [ref] }

/-- Opens the macro that the first argument names, new or not. Its settings are those of this header
alone; its actions stay. -/
def openMacro (c : Compilation) (arguments : List Text) : Except Fault Compilation :=
  match arguments with
  | [] => .error .missingArgument
  | name :: settings =>
    let items := c.macros.items.insertNew name { name }
    let items := items.modify name fun m =>
      { m with settings := MacroSettings.ofArguments settings }
    let c := { c with macros := { c.macros with items } }
    .ok (c.moveCursor fun cursor => { cursor with group := .macros, openMacro := some name })

/-- The effect used by the layers that texts name as well. -/
def attach (layers : List Text) (effect : Lighting.Effect) : Lighting.Effect :=
  { effect with layers := (layers.filterMap Layer.ofText?).foldl LayerSet.insert effect.layers }

/-- Loads the effect that the first argument names, unless it is there already, and attaches it to
the layers that the others name. -/
def useLighting (ws : Workspace) (c : Compilation) (arguments : List Text) :
    Except Fault Compilation :=
  match arguments with
  | [] => .error .missingArgument
  | name :: layers =>
    let c := c.moveCursor fun cursor => { cursor with group := .lighting }
    if c.effects.defines name then
      .ok { c with effects := c.effects.update name (attach layers) }
    else
      match Lighting.load ws.keyboard ws.files ws.dataRoot name with
      | .error failure => .ok (c.record [.effectFailed name failure])
      | .ok effect =>
        let effects := ((c.effects.add name effect).reference name).1
        let c := c.record [.effectLoaded effect]
        .ok { c with effects := effects.update name (attach layers) }

/-- Turns lighting off on the layers that arguments name, or everywhere if there are no arguments
at all. -/
def turnOff (c : Compilation) : Option (List Text) → Compilation
  | none => { c with lightsOff := { c.lightsOff with everywhere := true } }
  | some layers =>
    let layers := (layers.filterMap Layer.ofText?).foldl LayerSet.insert c.lightsOff.layers
    { c with lightsOff := { c.lightsOff with layers } }

/-- Does what one name of a header asks for, as far as the pass takes such groups. -/
def apply (ws : Workspace) (groups : List GroupKind) (header : GroupHeader) (c : Compilation)
    (name : Text) : Except Fault Compilation :=
  match Directive.ofName name with
  | .table ref => .ok (if .layer ∈ groups then c.openTable ref else c)
  | .defineMacro =>
    if .macros ∈ groups ∧ header.subject?.isSome then c.openMacro (header.arguments.getD [])
    else .ok c
  | .useLighting =>
    if .lighting ∈ groups ∧ header.subject?.isSome then
      c.useLighting ws (header.arguments.getD [])
    else .ok c
  | .noLighting => .ok (c.turnOff header.arguments)
  | .unknown => .ok c

/-- Closes the open group and opens those of a header line. -/
def openGroup (ws : Workspace) (groups : List GroupKind) (c : Compilation) (line : Text) :
    Except Fault Compilation :=
  let c := c.moveCursor fun cursor => { cursor with group := .outside, tables := [] }
  match GroupHeader.ofLine? line with
  | none => .ok c
  | some header => header.names.foldlM (apply ws groups header) c

end KeyProfile.Compilation

import KeyProfile.Compilation.Binding
import KeyProfile.Compilation.MacroLine
import KeyProfile.GroupHeader

/-!
A compilation in progress. It keeps the key tables, the two registries, the layers without lighting,
the log, and a cursor that says what the lines being read belong to. The profile is a view of it: the
macros and effects shown are those that the last finalization found.
-/

namespace KeyProfile

/-- What a compilation looks at besides the lines. -/
structure Workspace where
  keyboard : Keyboard := {}
  dataRoot : Text := []
  files : Files := {}

/-- What the lines being read belong to. -/
structure Cursor where
  group : GroupKind := .outside
  tables : List TableRef := []
  /-- The macro opened last, also after other groups were opened. -/
  openMacro : Option Text := none
deriving DecidableEq

structure Compilation where
  tables : KeyTables := {}
  lightsOff : LightsOff := {}
  macros : Registry Macro := { limit := some DriverValue.macroIds }
  effects : Registry Lighting.Effect := {}
  /-- How many macros the last finalization found. -/
  publishedMacros : Nat := 0
  /-- How many effects the last finalization found. -/
  publishedEffects : Nat := 0
  /-- There is none before the first pass or header. -/
  cursor : Option Cursor := none
  log : List LogRecord := []

namespace Compilation

/-- The profile as far as it has come. -/
def profile (c : Compilation) : Profile where
  tables := c.tables
  macros := c.macros.items.take c.publishedMacros
  effects := c.effects.items.take c.publishedEffects
  lightsOff := c.lightsOff

def group (c : Compilation) : GroupKind :=
  match c.cursor with
  | some cursor => cursor.group
  | none => .outside

def record (c : Compilation) (records : List LogRecord) : Compilation :=
  { c with log := c.log ++ records }

def moveCursor (c : Compilation) (f : Cursor → Cursor) : Compilation :=
  { c with cursor := some (f (c.cursor.getD {})) }

/-- The destination that tokens make for a key, and the compilation after their references. -/
def destination (c : Compilation) (key : Int) (tokens : List Text) :
    Except Fault (Int × Compilation) := do
  let d ← Destination.ofTokens c.macros key tokens
  pure (d.value, { c with macros := d.registry, log := c.log ++ d.log })

/-- The value of one token that calls a macro, and the compilation after the reference. -/
def reference (c : Compilation) (key : Int) (token : Text) :
    Except Fault (Option Int × Compilation) := do
  let r ← c.macros.resolve key token
  pure (r.value, { c with macros := r.registry, log := c.log ++ r.log })

/-- The key and the value that a line binds it to, and the compilation after the line's references.
A line whose source cannot be resolved is passed over, destination and all. -/
def readBinding (c : Compilation) (line : Text) :
    Except Fault (Option (Int × Int) × Compilation) :=
  match Text.fields ':' line with
  | sources :: destinations :: _ =>
    let key := sourceOf (Text.fields '+' sources)
    if key = 0 then .ok (none, c)
    else do
      let (value, c) ← c.destination key (Text.fields '+' destinations)
      pure (some (key, value), c)
  | _ => .ok (none, c)

/-- Binds a key in every table of the open group. -/
def bindKey (c : Compilation) (key value : Int) : Except Fault Compilation :=
  match c.cursor with
  | none => .error .noOpenTables
  | some cursor =>
    .ok { c with tables := cursor.tables.foldl (fun t ref => t.bind ref key value) c.tables }

/-- Reads a line of key bindings and binds its key. -/
def layerLine (c : Compilation) (line : Text) : Except Fault Compilation := do
  match ← c.readBinding line with
  | (none, c) => pure c
  | (some (key, value), c) => c.bindKey key value

/-- The name of the macro opened last. -/
def openName? (c : Compilation) : Option Text := c.cursor.bind Cursor.openMacro

/-- The macro with the actions of one more line. -/
def extend (states : List KeyState) (keys : Text) (delay : Option Text) (m : Macro) : Macro :=
  { m with actions := m.actions ++ MacroLine.expand m.settings.defaultDelay states keys delay }

/-- Adds the actions of a line to the macro opened last. -/
def macroLine (c : Compilation) (line : Text) : Except Fault Compilation :=
  match Text.fields ':' line with
  | word :: keys :: rest =>
    match c.openName? with
    | none => .error (.noOpenMacro word.strip)
    | some name =>
      match MacroLine.states? word with
      | none => .ok (c.record [.unknownAction word.strip name])
      | some states =>
        .ok { c with macros := c.macros.update name (extend states keys rest.head?) }
  | _ => .ok c

end Compilation

end KeyProfile

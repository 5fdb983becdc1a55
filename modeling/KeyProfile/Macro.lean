import KeyProfile.Enumerated
import KeyProfile.Text.Display

/-!
Macros: named sequences of key and button actions that a keyboard stores and plays back.
-/

namespace KeyProfile

inductive KeyState where
  | down
  | up
deriving DecidableEq, Repr

namespace KeyState

def name : KeyState → Text
  | .down => "Down".toList
  | .up => "Up".toList

def number : KeyState → Int
  | .down => 0
  | .up => 1

instance : Enumerated KeyState := ⟨[.down, .up], name, fun s => some s.number, []⟩

end KeyState

inductive ActionKind where
  | key
  | mouse
deriving DecidableEq, Repr

namespace ActionKind

def name : ActionKind → Text
  | .key => "Key".toList
  | .mouse => "Mouse".toList

def number : ActionKind → Int
  | .key => 1
  | .mouse => 2

instance : Enumerated ActionKind := ⟨[.key, .mouse], name, fun k => some k.number, []⟩

end ActionKind

/-- How a macro is repeated. -/
inductive RepeatKind where
  | times
  | untilReleased
  | untilPressed
deriving DecidableEq, Repr

namespace RepeatKind

def name : RepeatKind → Text
  | .times => "RepeatXTimes".toList
  | .untilReleased => "ReleaseKeyToStop".toList
  | .untilPressed => "PressKeyAgainToStop".toList

def number : RepeatKind → Int
  | .times => 1
  | .untilReleased => 2
  | .untilPressed => 3

instance : Enumerated RepeatKind :=
  ⟨[.times, .untilReleased, .untilPressed], name, fun k => some k.number, []⟩

end RepeatKind

structure MacroAction where
  state : KeyState
  kind : ActionKind := .key
  /-- The usage code of a key, or the bits of mouse buttons. -/
  code : Int := 0
  /-- Modifier bits. -/
  modifiers : Int := 0
  /-- How long to wait after the action. -/
  delay : Int := 0
deriving DecidableEq, Repr

def MacroAction.describe (a : MacroAction) : Text :=
  "MacroAction<".toList ++ a.state.name ++ [' '] ++ a.kind.name ++ " code=".toList ++
    Text.hexWord 2 a.code ++ " modifier=".toList ++ Text.ofInt a.modifiers ++ " delay=".toList ++
    Text.ofInt a.delay ++ ['>']

structure MacroSettings where
  defaultDelay : Int := 0
  repeatKind : RepeatKind := .times
  repeatCount : Int := 1
  /-- The last action waits too. -/
  trailingDelay : Bool := false
deriving DecidableEq, Repr

structure Macro where
  name : Text
  id : Option Int := none
  settings : MacroSettings := {}
  actions : List MacroAction := []
deriving DecidableEq, Repr

def Macro.describe (m : Macro) : Text :=
  "Macro<".toList ++ m.name ++ " id=".toList ++ Text.ofOption Text.ofInt m.id ++
    " repeat=".toList ++ m.settings.repeatKind.name ++ ['x'] ++
    Text.ofInt m.settings.repeatCount ++ " delay=".toList ++
    Text.ofInt m.settings.defaultDelay ++ " trailing=".toList ++
    Text.ofBool m.settings.trailingDelay ++ " actions=".toList ++
    Text.ofNat m.actions.length ++ ['>']

end KeyProfile

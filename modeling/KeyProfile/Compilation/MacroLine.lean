import KeyProfile.KeyToken
import KeyProfile.Macro
import KeyProfile.Text.Truth

/-!
What the lines of a macro group stand for. The header's arguments after the name are settings by
place; a line is an action word, keys and perhaps a delay, and expands to the actions of its keys, of
which only the last waits.
-/

namespace KeyProfile

namespace MacroSettings

abbrev maxDelay : Int := 0xFFFF

abbrev maxCount : Int := 0xFF

/-- Delay, kind of repetition, number of repetitions and trailing delay. What is missing or cannot
be read is the default; a macro that never runs would be pointless, so zero repetitions are one. -/
def ofArguments (arguments : List Text) : MacroSettings where
  defaultDelay := match arguments[0]? with
    | some t => (KeyToken.decimalWithin? 0 maxDelay t).getD 0
    | none => 0
  repeatKind := match arguments[1]? with
    | some t => (Enumerated.ofText? true t).getD .times
    | none => .times
  repeatCount := match arguments[2]? with
    | some t =>
      let count := (KeyToken.decimalWithin? 0 maxCount t).getD 0
      if count = 0 then 1 else count
    | none => 1
  trailingDelay := match arguments[3]? with
    | some t => (Text.truth? t).getD false
    | none => false

end MacroSettings

namespace MacroLine

/-- The states that an action word takes its keys through, one after another. -/
def states? (word : Text) : Option (List KeyState) :=
  [("press".toList, [KeyState.down, KeyState.up]),
   ("down".toList, [KeyState.down]),
   ("up".toList, [KeyState.up])].lookup word.strip.lower

/-- The action on the key or button that a token names exactly. -/
def action? (state : KeyState) (token : Text) : Option MacroAction :=
  (SymbolTable.standard.find? token).map fun symbol =>
    match symbol.modifier, symbol.button with
    | some bits, _ => { state, modifiers := bits }
    | none, some button => { state, kind := .mouse, code := button.bit }
    | none, none => { state, code := DriverValue.usage symbol.value }

/-- The actions of every state on every token that names something. -/
def actions (states : List KeyState) (tokens : List Text) : List MacroAction :=
  states.flatMap fun state => tokens.filterMap (action? state)

/-- The same actions, the last of them waiting. -/
def waitAfter (delay : Int) : List MacroAction → List MacroAction
  | [] => []
  | [last] => [{ last with delay }]
  | first :: rest => first :: waitAfter delay rest

/-- The delay of a line: its third field if that is one, otherwise the default. -/
def delayOf (defaultDelay : Int) (field : Option Text) : Int :=
  (field.bind (KeyToken.decimalWithin? 0 MacroSettings.maxDelay)).getD defaultDelay

/-- What a line adds to a macro. -/
def expand (defaultDelay : Int) (states : List KeyState) (keys : Text) (delay : Option Text) :
    List MacroAction :=
  waitAfter (delayOf defaultDelay delay) (actions states (Text.fields '+' keys))

end MacroLine

end KeyProfile

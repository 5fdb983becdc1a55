import KeyProfile.Symbol.Table

/-!
The symbols that profiles and lighting files may use: letters, digits, the other keys of the main
block, function keys, navigation, number pad, modifiers and mouse buttons. All names differ, so
every symbol is found under each of its names.
-/

namespace KeyProfile.Symbol

/-- A key with its usage code. -/
def key (name : String) (usage : Int) (otherNames : List String := []) : Symbol :=
  { name := name.toList
    value := DriverValue.ofUsage usage
    otherNames := otherNames.map String.toList }

/-- Keys with consecutive usage codes. -/
def keys (first : Int) : List String → List Symbol
  | [] => []
  | name :: rest => key name first :: keys (first + 1) rest

def ofModifier (m : Modifier) : Symbol :=
  { name := m.name, value := DriverValue.ofModifiers m.bit, modifier := some m.bit }

def ofButton (name : String) (button : MouseButton) : Symbol :=
  { name := name.toList, value := DriverValue.ofButtons button.bit, button := some button }

def letters : List Symbol :=
  keys 0x04 ["A", "B", "C", "D", "E", "F", "G", "H", "I", "J", "K", "L", "M",
    "N", "O", "P", "Q", "R", "S", "T", "U", "V", "W", "X", "Y", "Z"]

def digits : List Symbol :=
  keys 0x1E ["D1", "D2", "D3", "D4", "D5", "D6", "D7", "D8", "D9", "D0"]

def mainBlock : List Symbol :=
  [key "Enter" 0x28 ["Return"],
   key "Esc" 0x29 ["Escape"],
   key "Backspace" 0x2A,
   key "Tab" 0x2B,
   key "Space" 0x2C,
   key "Subtract" 0x2D ["Minus"],
   key "Add" 0x2E ["Equals"],
   key "OpenSquareBrace" 0x2F,
   key "CloseSquareBrace" 0x30,
   key "Backslash" 0x31,
   key "AltBackslash" 0x32 ["NonUsHash"],
   key "Semicolon" 0x33,
   key "Quotes" 0x34 ["Quote"],
   key "BackTick" 0x35 ["Grave"],
   key "Comma" 0x36,
   key "Period" 0x37,
   key "Slash" 0x38,
   key "CapsLock" 0x39]

def functionKeys : List Symbol :=
  keys 0x3A ["F1", "F2", "F3", "F4", "F5", "F6", "F7", "F8", "F9", "F10", "F11", "F12"] ++
  keys 0x68 ["F13", "F14", "F15", "F16", "F17", "F18", "F19", "F20", "F21", "F22", "F23", "F24"]

def navigation : List Symbol :=
  [key "PrintScreen" 0x46,
   key "ScrollLock" 0x47,
   key "Pause" 0x48 ["Break"],
   key "Insert" 0x49,
   key "Home" 0x4A,
   key "PageUp" 0x4B,
   key "Delete" 0x4C,
   key "End" 0x4D,
   key "PageDown" 0x4E,
   key "Right" 0x4F,
   key "Left" 0x50,
   key "Down" 0x51,
   key "Up" 0x52,
   key "Menu" 0x65 ["Application"],
   key "Backslash2" 0x64 ["NonUsBackslash"]]

def numberPad : List Symbol :=
  keys 0x53 ["NumLock", "NumPadSlash", "NumPadAsterisk", "NumPadSubtract", "NumPadAdd",
    "NumPadEnter", "NumPad1", "NumPad2", "NumPad3", "NumPad4", "NumPad5", "NumPad6", "NumPad7",
    "NumPad8", "NumPad9", "NumPad0", "NumPadPeriod"]

def modifierKeys : List Symbol := Modifier.all.map ofModifier

def mouseButtons : List Symbol :=
  [ofButton "MouseLClick" .left,
   ofButton "MouseRClick" .right,
   ofButton "MouseMClick" .middle,
   ofButton "MouseBack" .back,
   ofButton "MouseAdvance" .advance]

def standard : List Symbol :=
  letters ++ digits ++ mainBlock ++ functionKeys ++ navigation ++ numberPad ++ modifierKeys ++
    mouseButtons

end KeyProfile.Symbol

namespace KeyProfile.SymbolTable

/-- The table of the standard symbols. -/
def standard : SymbolTable := { claims := claimsOf Symbol.standard, symbols := Symbol.standard }

/-- A text as one number, which tells it from every other text. -/
private def textCode (t : Text) : Nat := t.foldr (fun c n => n * 0x110000 + (c.toNat + 1)) 0

/-- The standard names differ in more than case. -/
theorem nodup_standard_lower_names :
    ((Symbol.standard.flatMap Symbol.names).map Text.lower).Nodup :=
  List.Pairwise.of_map textCode (fun _ _ different same => different (congrArg textCode same))
    (by decide +kernel :
      (((Symbol.standard.flatMap Symbol.names).map Text.lower).map textCode).Nodup)

theorem nodup_standard_names : (Symbol.standard.flatMap Symbol.names).Nodup :=
  List.Pairwise.of_map Text.lower (fun _ _ different same => different (congrArg Text.lower same))
    nodup_standard_lower_names

/-- No two standard symbols claim the same name, so all of them can be registered. -/
theorem registerAll_standard : registerAll {} Symbol.standard = standard := by
  rw [registerAll_of_nodup {} _ nodup_standard_names (fun _ _ => rfl)]
  simp [standard]

end KeyProfile.SymbolTable

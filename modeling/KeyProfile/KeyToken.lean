import KeyProfile.Keyboard
import KeyProfile.Symbol.Standard
import KeyProfile.Text.Numeral

/-!
How files refer to keys. In a profile a key is a hexadecimal literal or the exact name of a symbol;
in a lighting file it may also be a location, and names are taken in any case. A text that begins
with `0x` is a literal or nothing.
-/

namespace KeyProfile.KeyToken

/-- Bare hexadecimal digits that make a 32-bit number. -/
def hexWord? (t : Text) : Option Int := do
  let n ← t.hex?
  if n ≤ 0xFFFFFFFF then some n else none

/-- The text after `0x`, blanks in front dropped. -/
def hexBody? (t : Text) : Option Text :=
  match t.strip with
  | '0' :: 'x' :: body => some body
  | _ => none

/-- A hexadecimal literal. -/
def hexLiteral? (t : Text) : Option Int := (hexBody? t).bind hexWord?

/-- A decimal numeral from `least` to `greatest`. -/
def decimalWithin? (least greatest : Int) (t : Text) : Option Int := do
  let n ← t.decimal?
  if least ≤ n ∧ n ≤ greatest then some n else none

/-- The driver value that a profile's token stands for. -/
def driverValue? (t : Text) : Option Int :=
  match hexBody? t with
  | some body => hexWord? body
  | none => SymbolTable.standard.value? t.strip

/-- The location that a lighting file's text stands for. -/
def locationOfText? (keyboard : Keyboard) (t : Text) : Option Int :=
  match hexBody? t with
  | some body => (hexWord? body).bind keyboard.locationOf?
  | none =>
    match decimalWithin? (-0x80000000) 0x7FFFFFFF t with
    | some location => some location
    | none => (SymbolTable.standard.valueAnyCase? t.strip).bind keyboard.locationOf?

/-- The location that a lighting file's value stands for; an integer is one already. -/
def location? (keyboard : Keyboard) : Json → Option Int
  | .int n => some n
  | .str t => locationOfText? keyboard t
  | _ => none

end KeyProfile.KeyToken

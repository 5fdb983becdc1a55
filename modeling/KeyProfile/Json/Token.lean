import KeyProfile.Json.Value
import KeyProfile.Text.Numeral

/-!
The tokens of a JSON text: the six marks, and the values that are not containers. The scanner goes
over the text once, one character a step; what it is in the middle of is a `Scan.Mode`. Words are
read to the next mark, blank or quote and must then be a number, a constant or one of the three
names of numbers that are not finite.
-/

namespace KeyProfile.Json

inductive Token where
  | openObject
  | closeObject
  | openArray
  | closeArray
  | colon
  | comma
  | scalar (value : Json)

/-- The number a word spells: an integer of at most `Text.maxDigits` digits, or a number with a
fraction or an exponent. -/
def number? (word : Text) : Option Json :=
  let (negative, body) := match word with
    | '-' :: rest => (true, rest)
    | _ => (false, word)
  let whole := body.takeWhile Char.isDigit
  let rest := body.dropWhile Char.isDigit
  let exponent? : Text → Bool
    | [] => true
    | c :: rest =>
      let digits := match rest with
        | '+' :: digits => digits
        | '-' :: digits => digits
        | _ => rest
      (c == 'e' || c == 'E') && !digits.isEmpty && digits.all Char.isDigit
  if whole.isEmpty || (whole.head? == some '0' && whole.length > 1) then none
  else match rest with
    | [] =>
      if whole.length > Text.maxDigits then none
      else
        let n : Int := Text.positional 10 (whole.filterMap Text.digit?)
        some (.int (if negative then -n else n))
    | '.' :: fraction =>
      let digits := fraction.takeWhile Char.isDigit
      if !digits.isEmpty && exponent? (fraction.dropWhile Char.isDigit) then some .real else none
    | _ => if exponent? rest then some .real else none

/-- The value of a word. -/
def word? (word : Text) : Option Json :=
  if word = "null".toList then some .null
  else if word = "true".toList then some (.bool true)
  else if word = "false".toList then some (.bool false)
  else if word = "NaN".toList ∨ word = "Infinity".toList ∨ word = "-Infinity".toList then
    some .real
  else number? word

namespace Scan

/-- What the scanner is in the middle of. Characters read are kept latest first. A string may have a
high surrogate waiting for its low half; in an escape with a code point the number of digits still
missing and the value so far are kept. -/
inductive Mode where
  | between
  | word (chars : Text)
  | string (chars : Text) (high : Option Nat)
  | escape (chars : Text) (high : Option Nat)
  | codePoint (chars : Text) (high : Option Nat) (missing value : Nat)

/-- A surrogate that stands alone is read as a replacement character. -/
def settle (chars : Text) : Option Nat → Text
  | none => chars
  | some _ => '\uFFFD' :: chars

def isHigh (code : Nat) : Bool := 0xD800 ≤ code && code ≤ 0xDBFF

def isLow (code : Nat) : Bool := 0xDC00 ≤ code && code ≤ 0xDFFF

/-- The string after an escape with a code point. -/
def addCodePoint (chars : Text) (high : Option Nat) (code : Nat) : Mode :=
  match high, isLow code with
  | some first, true =>
    .string (Char.ofNat (0x10000 + (first - 0xD800) * 0x400 + (code - 0xDC00)) :: chars) none
  | _, true => .string ('\uFFFD' :: settle chars high) none
  | _, false =>
    if isHigh code then .string (settle chars high) (some code)
    else .string (Char.ofNat code :: settle chars high) none

/-- The character that a one-letter escape stands for. -/
def escaped? : Char → Option Char
  | '"' => some '"'
  | '\\' => some '\\'
  | '/' => some '/'
  | 'b' => some '\x08'
  | 'f' => some '\x0c'
  | 'n' => some '\n'
  | 'r' => some '\r'
  | 't' => some '\t'
  | _ => none

def mark? : Char → Option Token
  | '\x7b' => some .openObject
  | '\x7d' => some .closeObject
  | '[' => some .openArray
  | ']' => some .closeArray
  | ':' => some .colon
  | ',' => some .comma
  | _ => none

def isSpace (c : Char) : Bool := c == ' ' || c == '\t' || c == '\n' || c == '\r'

/-- The mode and the token found, if any, when a character is read outside words and strings. -/
def outside (c : Char) : Mode × List Token :=
  if isSpace c then (.between, [])
  else if c = '"' then (.string [] none, [])
  else match mark? c with
    | some token => (.between, [token])
    | none => (.word [c], [])

/-- One character more. The tokens come out latest first. -/
def step : Mode × List Token → Char → Option (Mode × List Token)
  | (.between, found), c => let (mode, new) := outside c; some (mode, new ++ found)
  | (.word chars, found), c =>
    match outside c with
    | (.word _, _) => some (.word (c :: chars), found)
    | (mode, new) => do
      let value ← word? chars.reverse
      some (mode, new ++ .scalar value :: found)
  | (.string chars high, found), c =>
    if c = '"' then some (.between, .scalar (.str (settle chars high).reverse) :: found)
    else if c = '\\' then some (.escape chars high, found)
    else if c.toNat < 0x20 then none
    else some (.string (c :: settle chars high) none, found)
  | (.escape chars high, found), c =>
    if c = 'u' then some (.codePoint chars high 4 0, found)
    else do
      let char ← escaped? c
      some (.string (char :: settle chars high) none, found)
  | (.codePoint chars high missing value, found), c => do
    let digit ← Text.hexDigit? c
    let value := value * 16 + digit
    if missing ≤ 1 then some (addCodePoint chars high value, found)
    else some (.codePoint chars high (missing - 1) value, found)

end Scan

/-- The tokens of a text, in order. -/
def tokens? (t : Text) : Option (List Token) := do
  let (mode, found) ← t.foldlM Scan.step (.between, [])
  match mode with
  | .between => some found.reverse
  | .word chars => do
    let value ← word? chars.reverse
    some (.scalar value :: found).reverse
  | _ => none

end KeyProfile.Json

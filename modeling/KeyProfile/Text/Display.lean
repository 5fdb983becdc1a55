import KeyProfile.Text.Basic
import KeyProfile.Text.PrintTable

/-!
How values are spelled in descriptions and messages: numbers in decimal and in padded upper-case
hexadecimal, truth values, a missing value, and lists of quoted texts.
-/

namespace KeyProfile.Text

def ofNat (n : Nat) : Text := Nat.toDigits 10 n

def ofInt : Int → Text
  | .ofNat n => ofNat n
  | .negSucc n => '-' :: ofNat (n + 1)

/-- Digits filled up with zeros on the left. -/
def padded (width : Nat) (digits : Text) : Text :=
  List.replicate (width - digits.length) '0' ++ digits

def hexUpper (n : Nat) : Text := (Nat.toDigits 16 n).map Char.toUpper

/-- A number after `0x`, filled up with zeros to a width that the sign counts towards. -/
def hexWord (width : Nat) : Int → Text
  | .ofNat n => "0x".toList ++ padded width (hexUpper n)
  | .negSucc n => "0x-".toList ++ padded (width - 1) (hexUpper (n + 1))

def ofBool (b : Bool) : Text := (if b then "True" else "False").toList

def ofOption (f : α → Text) : Option α → Text
  | some a => f a
  | none => "None".toList

/-- Texts one after another with a separator between them. -/
def join (sep : Text) (parts : List Text) : Text := sep.intercalate parts

/-- The mark around a quoted text: the double one for a text that has only the single one. -/
def quoteMark (t : Text) : Char :=
  if t.contains '\'' && !t.contains '"' then '"' else '\''

/-- A character inside a quoted text. Unprintable ones are written by their code point. -/
def quoteChar (mark c : Char) : Text :=
  let code (width : Nat) := padded width (Nat.toDigits 16 c.toNat)
  if c = mark ∨ c = '\\' then ['\\', c]
  else if c = '\n' then ['\\', 'n']
  else if c = '\r' then ['\\', 'r']
  else if c = '\t' then ['\\', 't']
  else if !inSpans unprintableSpans c then [c]
  else if c.toNat < 0x100 then '\\' :: 'x' :: code 2
  else if c.toNat < 0x10000 then '\\' :: 'u' :: code 4
  else '\\' :: 'U' :: code 8

def quoted (t : Text) : Text :=
  let mark := quoteMark t
  mark :: t.flatMap (quoteChar mark) ++ [mark]

/-- Items between brackets, a comma and a space after each but the last. -/
def bracketed (items : List Text) : Text :=
  '[' :: join ", ".toList items ++ [']']

def quotedList (items : List Text) : Text := bracketed (items.map quoted)

end KeyProfile.Text

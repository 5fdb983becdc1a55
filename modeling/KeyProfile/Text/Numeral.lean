import KeyProfile.Text.Basic
import KeyProfile.Text.DigitTable

/-!
Numerals. A plain decimal numeral is a sign and ASCII digits; a liberal one also takes the digits of
any script and single underscores between digits. Both stop at `maxDigits` digits, leading zeros
included. Hexadecimal digits have no such bound.
-/

namespace KeyProfile.Text

/-- The most digits that a decimal numeral may have. -/
abbrev maxDigits : Nat := 4300

def digit? (c : Char) : Option Nat :=
  if '0' ≤ c ∧ c ≤ '9' then some (c.toNat - '0'.toNat) else none

/-- The value of a decimal digit of any script. -/
def scriptDigit? (c : Char) : Option Nat :=
  digitZeros.findSome? fun start =>
    if start ≤ c.toNat ∧ c.toNat < start + 10 then some (c.toNat - start) else none

def hexDigit? (c : Char) : Option Nat :=
  if '0' ≤ c ∧ c ≤ '9' then some (c.toNat - '0'.toNat)
  else if 'a' ≤ c ∧ c ≤ 'f' then some (c.toNat - 'a'.toNat + 10)
  else if 'A' ≤ c ∧ c ≤ 'F' then some (c.toNat - 'A'.toNat + 10)
  else none

/-- The number that digits, most significant first, stand for. -/
def positional (base : Nat) (digits : List Nat) : Nat :=
  digits.foldl (fun n d => n * base + d) 0

/-- The digits of a non-empty text that holds nothing else. -/
def digits? (digitOf? : Char → Option Nat) (t : Text) : Option (List Nat) :=
  if t.isEmpty then none else t.mapM digitOf?

/-- The rest of a liberal numeral after a digit. -/
def moreDigits? : Text → Option (List Nat)
  | [] => some []
  | '_' :: c :: rest => do
    let d ← scriptDigit? c
    let ds ← moreDigits? rest
    pure (d :: ds)
  | c :: rest => do
    let d ← scriptDigit? c
    let ds ← moreDigits? rest
    pure (d :: ds)

/-- The digits of a liberal numeral: of any script, with single underscores between them. -/
def groupedDigits? : Text → Option (List Nat)
  | [] => none
  | c :: rest => do
    let d ← scriptDigit? c
    let ds ← moreDigits? rest
    pure (d :: ds)

/-- A numeral with an optional sign in front of the digits that `digitsOf?` finds. -/
def signed? (digitsOf? : Text → Option (List Nat)) (t : Text) : Option Int := do
  let (negative, body) := match t with
    | '-' :: rest => (true, rest)
    | '+' :: rest => (false, rest)
    | _ => (false, t)
  let ds ← digitsOf? body
  if ds.length > maxDigits then none
  else
    let n : Int := positional 10 ds
    some (if negative then -n else n)

/-- A plain decimal numeral between blanks. -/
def decimal? (t : Text) : Option Int := signed? (digits? digit?) t.strip

/-- A liberal decimal numeral between blanks. -/
def integer? (t : Text) : Option Int := signed? groupedDigits? t.strip

/-- Hexadecimal digits between blanks, of any number and either case. -/
def hex? (t : Text) : Option Nat := (digits? hexDigit? t.strip).map (positional 16)

theorem positional_append (base : Nat) (front : List Nat) (d : Nat) :
    positional base (front ++ [d]) = positional base front * base + d := by
  simp [positional]

end KeyProfile.Text

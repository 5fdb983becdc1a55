import KeyProfile.Text.Basic

/-!
UTF-8. Octets are cut into units: a well-formed sequence is the character it encodes, and anything
else is cut into the longest parts that begin a well-formed sequence, a single octet at the least.
Reading strictly takes characters only; reading leniently puts a replacement character for each
ill-formed part.
-/

namespace KeyProfile.Text

abbrev Octets := List UInt8

/-- The least and the greatest octet that may follow a lead octet of a sequence of two octets or
more, and how many octets follow in all. -/
def continuation? (lead : UInt8) : Option (UInt8 × UInt8 × Nat) :=
  if lead < 0xC2 then none
  else if lead ≤ 0xDF then some (0x80, 0xBF, 1)
  else if lead = 0xE0 then some (0xA0, 0xBF, 2)
  else if lead = 0xED then some (0x80, 0x9F, 2)
  else if lead ≤ 0xEF then some (0x80, 0xBF, 2)
  else if lead = 0xF0 then some (0x90, 0xBF, 3)
  else if lead ≤ 0xF3 then some (0x80, 0xBF, 3)
  else if lead = 0xF4 then some (0x80, 0x8F, 3)
  else none

/-- The bits of the code point that a lead octet with some octets to follow carries. -/
def leadBits (lead : UInt8) : Nat → Nat
  | 1 => lead.toNat - 0xC0
  | 2 => lead.toNat - 0xE0
  | _ => lead.toNat - 0xF0

/-- What a decoder remembers between octets: nothing, or a sequence begun, with the range of the
next octet, how many octets are missing and the code point so far. -/
inductive Utf8State where
  | between
  | within (least greatest : UInt8) (missing code : Nat)

/-- The units that a new sequence's first octet completes, and the state after it. -/
def utf8Begin (octet : UInt8) : List (Option Char) × Utf8State :=
  if octet < 0x80 then ([some (Char.ofNat octet.toNat)], .between)
  else match continuation? octet with
    | none => ([none], .between)
    | some (least, greatest, missing) =>
      ([], .within least greatest missing (leadBits octet missing))

def utf8Step : Utf8State → UInt8 → List (Option Char) × Utf8State
  | .between, octet => utf8Begin octet
  | .within least greatest missing code, octet =>
    if least ≤ octet ∧ octet ≤ greatest then
      let code := code * 64 + (octet.toNat - 0x80)
      if missing ≤ 1 then ([some (Char.ofNat code)], .between)
      else ([], .within 0x80 0xBF (missing - 1) code)
    else
      let (units, state) := utf8Begin octet
      (none :: units, state)

/-- The units of octets that come after others: a character, or `none` for an ill-formed part. -/
def utf8UnitsFrom : Utf8State → Octets → List (Option Char)
  | .between, [] => []
  | .within .., [] => [none]
  | state, octet :: rest =>
    (utf8Step state octet).1 ++ utf8UnitsFrom (utf8Step state octet).2 rest

def utf8Units (octets : Octets) : List (Option Char) := utf8UnitsFrom .between octets

/-- The mark at the beginning of some files, which is no part of their text. -/
def byteOrderMark : Octets := [0xEF, 0xBB, 0xBF]

/-- The octets after a byte order mark. Nothing is left of octets that end within the mark. -/
def dropByteOrderMark (octets : Octets) : Octets :=
  if octets.isPrefixOf byteOrderMark then []
  else if byteOrderMark.isPrefixOf octets then octets.drop 3
  else octets

/-- The text of octets that are well formed throughout, a byte order mark left out. -/
def ofUtf8? (octets : Octets) : Option Text :=
  (utf8Units (dropByteOrderMark octets)).mapM id

/-- The text of any octets, a replacement character standing for each ill-formed part. -/
def ofUtf8Lenient (octets : Octets) : Text :=
  (utf8Units (dropByteOrderMark octets)).map (·.getD '\uFFFD')

/-- The octets of a text. -/
def toUtf8 (t : Text) : Octets := t.flatMap String.utf8EncodeChar

end KeyProfile.Text

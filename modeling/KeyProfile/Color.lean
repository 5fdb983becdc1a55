import KeyProfile.KeyToken

/-!
Lighting colors. Files write alpha, red, green and blue in this order after `0x` or `#`; a keyboard
takes red in the lowest eight bits, then green, blue and alpha.
-/

namespace KeyProfile

structure Color where
  red : Int
  green : Int
  blue : Int
  alpha : Int
deriving DecidableEq, Repr

namespace Color

/-- The word of a color; of every channel the lowest eight bits count. -/
def pack (c : Color) : Int :=
  c.red % 0x100 + c.green % 0x100 * 0x100 + c.blue % 0x100 * 0x10000 + c.alpha % 0x100 * 0x1000000

def unpack (word : Int) : Color where
  red := word % 0x100
  green := word / 0x100 % 0x100
  blue := word / 0x10000 % 0x100
  alpha := word / 0x1000000 % 0x100

/-- The color that a number in the order of files stands for. -/
def ofFileOrder (n : Int) : Color where
  alpha := n / 0x1000000 % 0x100
  red := n / 0x10000 % 0x100
  green := n / 0x100 % 0x100
  blue := n % 0x100

/-- A color without alpha is made opaque, unless it is black. -/
def opaqueUnlessBlack (c : Color) : Color :=
  if c.alpha = 0 ∧ ¬(c.red = 0 ∧ c.green = 0 ∧ c.blue = 0) then { c with alpha := 0xFF } else c

/-- The digits of a color text. -/
def body? : Text → Option Text
  | '0' :: 'x' :: body => some body
  | '#' :: body => some body
  | _ => none

def ofText? (t : Text) : Option Color := (body? t).bind fun body =>
  (KeyToken.hexWord? body).map ofFileOrder

/-- The word of a color text as written. -/
def parse? (t : Text) : Option Int := (ofText? t).map pack

/-- The word of a color text for a key that must stay visible. -/
def parseVisible? (t : Text) : Option Int := (ofText? t).map fun c => c.opaqueUnlessBlack.pack

/-- The word for a color that is there but cannot be read. -/
abbrev invalid : Int := 0xFFFFFFFF

theorem unpack_pack (c : Color) :
    unpack c.pack = ⟨c.red % 0x100, c.green % 0x100, c.blue % 0x100, c.alpha % 0x100⟩ := by
  simp only [unpack, pack, Color.mk.injEq]
  omega

theorem pack_unpack (word : Int) : (unpack word).pack = word % 0x100000000 := by
  simp only [unpack, pack]
  omega

end Color

end KeyProfile

import KeyProfile.Bits
import KeyProfile.Enumerated
import KeyProfile.Fault

/-!
Driver values: the 32-bit words by which a keyboard knows what a key does. From the top down a word
has a kind, first data, a usage code and second data, eight bits each. A key has its modifiers as
first data and its usage code; a mouse button has its bit as second data; a reference to a stored
macro has 1 as first data and the macro's id as second.

Any integer is read by its lowest 32 bits. Main statements: each field is below 256, and a macro id
that fits is read back from the word made of it.
-/

namespace KeyProfile

/-- The modifier keys. -/
inductive Modifier where
  | lCtrl
  | lShift
  | lAlt
  | lWin
  | rCtrl
  | rShift
  | rAlt
  | rWin
deriving DecidableEq, Repr

namespace Modifier

def all : List Modifier := [.lCtrl, .lShift, .lAlt, .lWin, .rCtrl, .rShift, .rAlt, .rWin]

def name : Modifier → Text
  | .lCtrl => "LCtrl".toList
  | .lShift => "LShift".toList
  | .lAlt => "LAlt".toList
  | .lWin => "LWin".toList
  | .rCtrl => "RCtrl".toList
  | .rShift => "RShift".toList
  | .rAlt => "RAlt".toList
  | .rWin => "RWin".toList

/-- The bit of a modifier in the first data of a key. -/
def bit : Modifier → Int
  | .lCtrl => 0x01
  | .lShift => 0x02
  | .lAlt => 0x04
  | .lWin => 0x08
  | .rCtrl => 0x10
  | .rShift => 0x20
  | .rAlt => 0x40
  | .rWin => 0x80

/-- The set of modifiers that a number stands for, as bits. A negative number leaves bits out: it is
taken in eight bits, or in as many as its amount needs. -/
def bitsOf (n : Int) : Int :=
  if 0 ≤ n then n
  else if -0x100 ≤ n then n + 0x100
  else n + (1 <<< (n.natAbs.log2 + 1) : Nat)

theorem bitsOf_nonneg (n : Int) : 0 ≤ bitsOf n := by
  have width : n.natAbs < 1 <<< (n.natAbs.log2 + 1) := by
    rw [Nat.one_shiftLeft]
    exact Nat.lt_log2_self
  simp only [bitsOf]
  omega

end Modifier

inductive MouseButton where
  | left
  | right
  | middle
  | back
  | advance
deriving DecidableEq, Repr

namespace MouseButton

def all : List MouseButton := [.left, .right, .middle, .back, .advance]

def name : MouseButton → Text
  | .left => "LButton".toList
  | .right => "RButton".toList
  | .middle => "MButton".toList
  | .back => "Back".toList
  | .advance => "Advance".toList

/-- The bit of a button in the second data of a mouse value. -/
def bit : MouseButton → Int
  | .left => 0x01
  | .right => 0x02
  | .middle => 0x04
  | .back => 0x08
  | .advance => 0x10

instance : Enumerated MouseButton := ⟨all, name, fun button => some button.bit, []⟩

/-- The button that has a bit. -/
def ofBit (n : Int) : Except Fault MouseButton :=
  match Enumerated.ofNumber? n with
  | some button => .ok button
  | none => .error (.noSuchButton n)

end MouseButton

namespace DriverValue

inductive Kind where
  | unassigned
  | mouse
  | key
  | macroCall
deriving DecidableEq, Repr

def Kind.name : Kind → Text
  | .unassigned => "NONE".toList
  | .mouse => "MOUSE".toList
  | .key => "KEY".toList
  | .macroCall => "MACRO".toList

/-- The value of a key that does nothing. -/
abbrev unused : Int := 0xFFFFFFFF

/-- The lowest 32 bits. -/
def word (v : Int) : Int := v % 0x100000000

def kindByte (v : Int) : Int := v / 0x1000000 % 0x100

def data1 (v : Int) : Int := v / 0x10000 % 0x100

/-- The usage code of a key. -/
def usage (v : Int) : Int := v / 0x100 % 0x100

def data2 (v : Int) : Int := v % 0x100

def kind (v : Int) : Kind :=
  if kindByte v = 0x01 then .mouse
  else if kindByte v = 0x02 then .key
  else if kindByte v = 0x0A then .macroCall
  else .unassigned

/-- The modifier bits of a key; other kinds have none. -/
def modifiers (v : Int) : Int := if kind v = .key then data1 v else 0

abbrev keyTag : Int := 0x02000000

abbrev mouseTag : Int := 0x01010000

abbrev macroTag : Int := 0x0A010000

def ofUsage (usage : Int) : Int := bitUnion keyTag (usage * 0x100)

def ofModifiers (bits : Int) : Int := bitUnion keyTag (bits * 0x10000)

def ofButtons (bits : Int) : Int := bitUnion mouseTag bits

/-- How many macro ids there are. -/
abbrev macroIds : Int := 256

/-- The word that runs a stored macro. -/
def ofMacroId (id : Int) : Except Fault Int :=
  if 0 ≤ id ∧ id < macroIds then .ok (macroTag + id) else .error (.macroIdRange id)

/-- The id of the macro that a word runs, if it runs one whose id is below the limit. -/
def macroId? (v : Int) (limit : Int) : Option Int :=
  if word v / 0x100 = macroTag / 0x100 ∧ data2 v < limit then some (data2 v) else none

/-- Whether a word runs a macro whose id is below the limit. -/
def runsMacro (v : Int) (limit : Int) : Bool := (macroId? v limit).isSome

theorem word_word (v : Int) : word (word v) = word v := by
  simp only [word]; omega

theorem kindByte_word (v : Int) : kindByte (word v) = kindByte v := by
  simp only [word, kindByte]; omega

theorem data1_word (v : Int) : data1 (word v) = data1 v := by
  simp only [word, data1]; omega

theorem usage_word (v : Int) : usage (word v) = usage v := by
  simp only [word, usage]; omega

theorem data2_word (v : Int) : data2 (word v) = data2 v := by
  simp only [word, data2]; omega

theorem kind_word (v : Int) : kind (word v) = kind v := by
  simp only [kind, kindByte_word]

theorem modifiers_word (v : Int) : modifiers (word v) = modifiers v := by
  simp only [modifiers, kind_word, data1_word]

theorem macroId?_word (v limit : Int) : macroId? (word v) limit = macroId? v limit := by
  simp only [macroId?, word_word, data2_word]

theorem runsMacro_word (v limit : Int) : runsMacro (word v) limit = runsMacro v limit := by
  simp only [runsMacro, macroId?_word]

/-- The four fields make up the word. -/
theorem word_eq_fields (v : Int) :
    word v = kindByte v * 0x1000000 + data1 v * 0x10000 + usage v * 0x100 + data2 v := by
  simp only [word, kindByte, data1, usage, data2]; omega

theorem ofMacroId_eq_ok_iff {id v : Int} :
    ofMacroId id = .ok v ↔ (0 ≤ id ∧ id < macroIds) ∧ macroTag + id = v := by
  unfold ofMacroId
  split
  · next hrange => simp [hrange]
  · next hout => simp [hout]

theorem ofMacroId_eq_error_iff {id : Int} {fault : Fault} :
    ofMacroId id = .error fault ↔ ¬(0 ≤ id ∧ id < macroIds) ∧ .macroIdRange id = fault := by
  unfold ofMacroId
  split
  · next hrange => simp [hrange]
  · next hout => simp [hout]

theorem macroId?_macroTag_add {id : Int} (h : 0 ≤ id ∧ id < macroIds) (limit : Int) :
    macroId? (macroTag + id) limit = if id < limit then some id else none := by
  have low : data2 (macroTag + id) = id := by
    simp only [macroTag, macroIds, data2] at *; omega
  have top : word (macroTag + id) / 0x100 = macroTag / 0x100 := by
    simp only [macroTag, macroIds, word] at *; omega
  simp [macroId?, low, top]

end DriverValue

end KeyProfile

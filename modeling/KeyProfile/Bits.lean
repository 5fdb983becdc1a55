/-!
The union of the bits of two integers, a negative one having infinitely many bits set on the left.
-/

namespace KeyProfile

/-- The bits of `a` that are not bits of `b`. -/
def bitsWithout (a b : Nat) : Nat := a ^^^ (a &&& b)

def bitUnion : Int → Int → Int
  | .ofNat a, .ofNat b => .ofNat (a ||| b)
  | .ofNat a, .negSucc b => .negSucc (bitsWithout b a)
  | .negSucc a, .ofNat b => .negSucc (bitsWithout a b)
  | .negSucc a, .negSucc b => .negSucc (a &&& b)

theorem testBit_bitsWithout (a b i : Nat) :
    (bitsWithout a b).testBit i = (a.testBit i && !b.testBit i) := by
  simp only [bitsWithout, Nat.testBit_xor, Nat.testBit_and]
  cases a.testBit i <;> cases b.testBit i <;> rfl

end KeyProfile

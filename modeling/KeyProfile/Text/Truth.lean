import KeyProfile.Text.Lower

/-!
Truth values as files spell them, in any case and between blanks.
-/

namespace KeyProfile.Text

def truth? (t : Text) : Option Bool :=
  if t.strip.lower = "true".toList then some true
  else if t.strip.lower = "false".toList then some false
  else none

end KeyProfile.Text

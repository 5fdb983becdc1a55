import KeyProfile.OrderedMap
import KeyProfile.Text.Display

/-!
A keyboard as lighting sees it: which location each key has. A key may be known and have none.
-/

namespace KeyProfile

structure Keyboard where
  model : Int := 0
  keys : OrderedMap Int (Option Int) := ∅

namespace Keyboard

/-- The keyboard with a key placed, or placed anew. -/
def place (k : Keyboard) (key : Int) (location : Option Int) : Keyboard :=
  { k with keys := k.keys.insert key location }

def ofKeys (model : Int) (keys : List (Int × Option Int)) : Keyboard :=
  keys.foldl (fun k entry => k.place entry.1 entry.2) { model }

/-- The location of the key with a driver value. -/
def locationOf? (k : Keyboard) (key : Int) : Option Int := (k.keys.get? key).join

def describe (k : Keyboard) : Text :=
  "KeyboardState<model=".toList ++ Text.hexWord 8 k.model ++ " keys=".toList ++
    Text.ofNat k.keys.size ++ ['>']

end Keyboard

end KeyProfile

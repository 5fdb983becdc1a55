import KeyProfile.OrderedMap
import KeyProfile.Text.Basic

/-!
JSON values. Integers are kept exactly; a number with a fraction or an exponent, or one that is not
finite, is only known to be there, since nothing depends on its amount. Members of an object are
kept in order.
-/

namespace KeyProfile

inductive Json where
  | null
  | bool (b : Bool)
  | int (n : Int)
  /-- A number that is not an integer. -/
  | real
  | str (t : Text)
  | arr (items : List Json)
  | obj (members : List (Text × Json))
deriving Inhabited

namespace Json

abbrev Members := List (Text × Json)

/-- The member of that name. -/
def member? (members : Members) (name : String) : Option Json :=
  members.lookup name.toList

def int? : Json → Option Int
  | .int n => some n
  | _ => none

def str? : Json → Option Text
  | .str t => some t
  | _ => none

end Json

end KeyProfile

import KeyProfile.Json.Value
import KeyProfile.Text.Lower
import KeyProfile.Text.Numeral

/-!
Closed choices that files spell by name or by number. A text is first tried as a name, with blanks
around it dropped and, unless told otherwise, in any case; what is no name at all may still be a
numeral.
-/

namespace KeyProfile

/-- A type whose members files spell by name and, where they have one, by number. -/
class Enumerated (α : Type) where
  members : List α
  name : α → Text
  number : α → Option Int
  /-- Further spellings. -/
  aliases : List (Text × α) := []

namespace Enumerated

variable {α : Type} [Enumerated α]

/-- All spellings, names before further ones. -/
def spellings : List (Text × α) :=
  (members (α := α)).map (fun m => (name m, m)) ++ aliases

def ofNumber? (n : Int) : Option α := members.find? fun m => number m == some n

def ofName? (ignoreCase : Bool) (t : Text) : Option α :=
  if ignoreCase then (spellings.map fun s => (s.1.lower, s.2)).lookup t.lower
  else spellings.lookup t

def ofText? (ignoreCase : Bool) (t : Text) : Option α :=
  (ofName? ignoreCase t.strip).or ((Text.integer? t.strip).bind ofNumber?)

theorem ofText?_strip (ignoreCase : Bool) (t : Text) :
    (ofText? ignoreCase t.strip : Option α) = ofText? ignoreCase t := by
  unfold ofText?
  rw [Text.strip_strip]

/-- The member that a JSON value names: an integer by number, a string by name or numeral. -/
def ofJson? (ignoreCase : Bool) : Json → Option α
  | .int n => ofNumber? n
  | .str t => ofText? ignoreCase t
  | _ => none

end Enumerated

end KeyProfile

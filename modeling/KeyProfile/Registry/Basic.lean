import KeyProfile.Fault
import KeyProfile.OrderedMap

/-!
Named definitions whose ids are handed out in the order of first reference. Defining an item gives it
no id. The id of a name is its place among the names referred to, so it is known from the first
reference on, and stays. Stamping writes the ids into the items; items nobody referred to have none.
-/

namespace KeyProfile

structure Registry (α : Type) where
  items : OrderedMap Text α := ∅
  /-- The names referred to, in order of first reference. -/
  referenced : List Text := []
  /-- How many names may be referred to, if that is limited. -/
  limit : Option Int := none

namespace Registry

variable {α : Type}

def add (r : Registry α) (name : Text) (item : α) : Registry α :=
  { r with items := r.items.insert name item }

/-- The registry in which the item of a name is another. -/
def update (r : Registry α) (name : Text) (f : α → α) : Registry α :=
  { r with items := r.items.modify name f }

def get? (r : Registry α) (name : Text) : Option α := r.items.get? name

def defines (r : Registry α) (name : Text) : Bool := r.items.contains name

/-- The id of a name that was referred to. -/
def idOf? (r : Registry α) (name : Text) : Option Nat :=
  if name ∈ r.referenced then some (r.referenced.idxOf name) else none

/-- No further name may be referred to. -/
def isFull (r : Registry α) : Bool :=
  match r.limit with
  | some limit => limit ≤ r.referenced.length
  | none => false

/-- Refers to a name. There is no id for a name that is not defined, nor for a new one once the
registry is full. -/
def reference (r : Registry α) (name : Text) : Registry α × Option Nat :=
  if !r.defines name then (r, none)
  else match r.idOf? name with
    | some id => (r, some id)
    | none =>
      if r.isFull then (r, none)
      else ({ r with referenced := r.referenced ++ [name] }, some r.referenced.length)

/-- The names referred to with their ids, unless one of them is not defined. -/
def numbered (r : Registry α) : Except Fault (List (Text × Nat)) :=
  r.referenced.zipIdx.mapM fun (name, id) =>
    if r.defines name then .ok (name, id) else .error (.undefinedName name)

/-- The registry with every item told its id. -/
def stamp (setId : Option Nat → α → α) (r : Registry α) : Except Fault (Registry α) := do
  let ids ← r.numbered
  pure { r with items := r.items.mapValues fun name item => setId (ids.lookup name) item }

end Registry

end KeyProfile

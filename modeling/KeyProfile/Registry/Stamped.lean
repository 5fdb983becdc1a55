import KeyProfile.Registry.Basic

/-!
A registry of items that have an identity of their own: an item may be added under several names, or
again after it was replaced, and carries the id it was last given with it. A finalization takes the
ids of the items in the registry away and hands them out anew.
-/

namespace KeyProfile

structure StampedRegistry (ι : Type) where
  registry : Registry ι := {}
  /-- The ids that items carry, in the registry or not. -/
  ids : OrderedMap ι Nat := ∅

namespace StampedRegistry

variable {ι : Type} [DecidableEq ι]

def ofLimit (limit : Option Int) : StampedRegistry ι := { registry := { limit } }

def add (r : StampedRegistry ι) (name : Text) (item : ι) : StampedRegistry ι :=
  { r with registry := r.registry.add name item }

/-- The item of a name and the id it carries. -/
def get? (r : StampedRegistry ι) (name : Text) : Option (ι × Option Nat) :=
  (r.registry.get? name).map fun item => (item, r.ids.get? item)

def reference (r : StampedRegistry ι) (name : Text) : StampedRegistry ι × Option Nat :=
  let (registry, id) := r.registry.reference name
  ({ r with registry }, id)

/-- The ids after all items of the registry lost theirs. -/
def cleared (r : StampedRegistry ι) : OrderedMap ι Nat :=
  r.registry.items.values.foldl OrderedMap.erase r.ids

/-- Gives an id to the item of a name. -/
def assign (r : StampedRegistry ι) (ids : OrderedMap ι Nat) (entry : Text × Nat) :
    Except Fault (OrderedMap ι Nat) :=
  match r.registry.get? entry.1 with
  | some item => .ok (ids.insert item entry.2)
  | none => .error (.undefinedName entry.1)

def finalize (r : StampedRegistry ι) : Except Fault (StampedRegistry ι) := do
  let ids ← r.registry.referenced.zipIdx.foldlM r.assign r.cleared
  pure { r with ids }

/-- Names, items and ids in the order in which the names were first added. -/
def entries (r : StampedRegistry ι) : List (Text × ι × Option Nat) :=
  r.registry.items.entries.map fun (name, item) => (name, item, r.ids.get? item)

end StampedRegistry

end KeyProfile

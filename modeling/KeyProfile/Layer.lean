import KeyProfile.Enumerated

/-!
The four layers of a keyboard, a value for each of them, and sets of layers. A layer has two key
tables, one of its own and one for while the Fn key is held; a `TableRef` names one of the eight.
-/

namespace KeyProfile

inductive Layer where
  | base
  | layer1
  | layer2
  | layer3
deriving DecidableEq, Repr, Inhabited

namespace Layer

def all : List Layer := [.base, .layer1, .layer2, .layer3]

def name : Layer → Text
  | .base => "Base".toList
  | .layer1 => "Layer1".toList
  | .layer2 => "Layer2".toList
  | .layer3 => "Layer3".toList

/-- The number by which files may refer to a layer. -/
def number : Layer → Int
  | .base => 1
  | .layer1 => 2
  | .layer2 => 3
  | .layer3 => 4

theorem mem_all (layer : Layer) : layer ∈ all := by cases layer <;> decide

instance : Enumerated Layer := ⟨all, name, fun layer => some layer.number, []⟩

/-- The layer that a text names, in any case or by its number. -/
def ofText? (t : Text) : Option Layer := Enumerated.ofText? true t

end Layer

/-- One value for every layer. -/
@[ext] structure PerLayer (α : Type) where
  base : α
  layer1 : α
  layer2 : α
  layer3 : α
deriving DecidableEq, Inhabited

namespace PerLayer

variable {α β : Type}

/-- The same value for every layer. -/
def const (a : α) : PerLayer α := ⟨a, a, a, a⟩

def get (p : PerLayer α) : Layer → α
  | .base => p.base
  | .layer1 => p.layer1
  | .layer2 => p.layer2
  | .layer3 => p.layer3

def set (p : PerLayer α) (layer : Layer) (a : α) : PerLayer α :=
  match layer with
  | .base => { p with base := a }
  | .layer1 => { p with layer1 := a }
  | .layer2 => { p with layer2 := a }
  | .layer3 => { p with layer3 := a }

@[simp] theorem get_const (a : α) (layer : Layer) : (const a).get layer = a := by
  cases layer <;> rfl

theorem get_set (p : PerLayer α) (layer other : Layer) (a : α) :
    (p.set layer a).get other = if other = layer then a else p.get other := by
  cases layer <;> cases other <;> rfl

theorem ext_get {p q : PerLayer α} (h : ∀ layer, p.get layer = q.get layer) : p = q :=
  PerLayer.ext (h .base) (h .layer1) (h .layer2) (h .layer3)

end PerLayer

/-- A set of layers. -/
abbrev LayerSet := PerLayer Bool

namespace LayerSet

def empty : LayerSet := PerLayer.const false

instance : EmptyCollection LayerSet := ⟨empty⟩

def insert (s : LayerSet) (layer : Layer) : LayerSet := s.set layer true

def contains (s : LayerSet) (layer : Layer) : Bool := s.get layer

/-- The members from the base layer up. -/
def toList (s : LayerSet) : List Layer := Layer.all.filter s.get

theorem contains_insert (s : LayerSet) (layer other : Layer) :
    (insert s layer).contains other = (other == layer || s.contains other) := by
  cases layer <;> cases other <;> simp [insert, contains, PerLayer.set, PerLayer.get]

theorem mem_toList (s : LayerSet) (layer : Layer) : layer ∈ toList s ↔ s.contains layer = true := by
  simp [toList, Layer.mem_all, contains]

end LayerSet

/-- The table of a layer, or the one that holds while Fn is pressed. -/
structure TableRef where
  layer : Layer
  fn : Bool
deriving DecidableEq, Repr, Inhabited

end KeyProfile

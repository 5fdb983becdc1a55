import KeyProfile.Layer
import KeyProfile.OrderedMap
import KeyProfile.Symbol.Standard

/-!
Key tables: what the keys of a layer do instead of what they did, in the order in which they were
first bound. A profile has up to eight of them, two for a layer.
-/

namespace KeyProfile

/-- From source to destination driver value. -/
abbrev KeyTable := OrderedMap Int Int

namespace KeyTable

/-- What a key is bound to. -/
def destination (table : KeyTable) (key : Int) : Int :=
  (table.get? key).getD DriverValue.unused

/-- The table with a key bound. Zero is no key and stays unbound. -/
def bind (table : KeyTable) (key destination : Int) : KeyTable :=
  if key = 0 then table else table.insert key destination

def describe (table : KeyTable) : Text :=
  "Layer<".toList ++ Text.join ", ".toList (table.entries.map fun (key, destination) =>
    SymbolTable.standard.nameOf key ++ ": ".toList ++ Text.hexWord 8 destination) ++ ['>']

end KeyTable

/-- The key tables that are there, those of the layers and those for while Fn is pressed. -/
structure KeyTables where
  plain : PerLayer (Option KeyTable) := PerLayer.const none
  fn : PerLayer (Option KeyTable) := PerLayer.const none

namespace KeyTables

def get? (tables : KeyTables) (ref : TableRef) : Option KeyTable :=
  if ref.fn then tables.fn.get ref.layer else tables.plain.get ref.layer

def set (tables : KeyTables) (ref : TableRef) (table : KeyTable) : KeyTables :=
  if ref.fn then { tables with fn := tables.fn.set ref.layer (some table) }
  else { tables with plain := tables.plain.set ref.layer (some table) }

/-- The tables with one of them there, empty if it was not. -/
def ensure (tables : KeyTables) (ref : TableRef) : KeyTables :=
  match tables.get? ref with
  | some _ => tables
  | none => tables.set ref ∅

/-- The tables with a key bound in one of them. -/
def bind (tables : KeyTables) (ref : TableRef) (key destination : Int) : KeyTables :=
  tables.set ref (((tables.get? ref).getD ∅).bind key destination)

theorem get?_set (tables : KeyTables) (ref other : TableRef) (table : KeyTable) :
    (tables.set ref table).get? other = if other = ref then some table else tables.get? other := by
  obtain ⟨layer, fn⟩ := ref
  obtain ⟨layer', fn'⟩ := other
  cases fn <;> cases fn' <;> simp [set, get?, PerLayer.get_set, TableRef.mk.injEq]

theorem get?_bind (tables : KeyTables) (ref other : TableRef) (key destination : Int) :
    (tables.bind ref key destination).get? other =
      if other = ref then some (((tables.get? ref).getD ∅).bind key destination)
      else tables.get? other :=
  get?_set ..

end KeyTables

end KeyProfile

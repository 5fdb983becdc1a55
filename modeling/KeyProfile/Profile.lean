import KeyProfile.KeyTable
import KeyProfile.KeySet
import KeyProfile.Lighting.Effect
import KeyProfile.Macro

/-!
A compiled profile: key tables, macros, lighting effects and the layers that are to be dark, and the
questions that whoever sends it to a keyboard asks about a layer.
-/

namespace KeyProfile

/-- What is to have no lighting. -/
structure LightsOff where
  everywhere : Bool := false
  layers : LayerSet := ∅
deriving DecidableEq

structure Profile where
  tables : KeyTables := {}
  macros : OrderedMap Text Macro := ∅
  effects : OrderedMap Text Lighting.Effect := ∅
  lightsOff : LightsOff := {}

namespace Profile

/-- The effects used by a layer. -/
def effectsOf (p : Profile) (layer : Layer) : List Lighting.Effect :=
  p.effects.values.filter (·.layers.contains layer)

def isDark (p : Profile) (layer : Layer) : Bool :=
  p.lightsOff.everywhere || p.lightsOff.layers.contains layer

/-- The ids of the macros that keys of a table run. -/
def idsIn (table : Option KeyTable) : List Int :=
  match table with
  | some table => table.values.filterMap (DriverValue.macroId? · DriverValue.macroIds)
  | none => []

/-- The ids of the macros that keys of a layer run, with or without Fn. -/
def macroIds (p : Profile) (layer : Layer) : KeySet :=
  KeySet.ofList (idsIn (p.tables.plain.get layer) ++ idsIn (p.tables.fn.get layer))

/-- How many macros a layer uses. -/
def macroCount (p : Profile) (layer : Layer) : Nat := (p.macroIds layer).toList.length

/-- The first macro that has the id, or that has none. -/
def macroWithId? (p : Profile) (id : Option Int) : Option Macro :=
  p.macros.values.find? (·.id == id)

/-- The macros used by a layer, in increasing order of ids. -/
def macrosOf (p : Profile) (layer : Layer) : List Macro :=
  (p.macroIds layer).toList.filterMap fun id => p.macroWithId? (some id)

/-- The names of the layers that have a table. -/
def layerNames (tables : PerLayer (Option KeyTable)) : List Text :=
  (Layer.all.filter fun layer => (tables.get layer).isSome).map Layer.name

def describe (p : Profile) : Text :=
  "CompiledProfile<layers=".toList ++ Text.quotedList (layerNames p.tables.plain) ++
    " fn_layers=".toList ++ Text.quotedList (layerNames p.tables.fn) ++
    " macros=".toList ++ Text.ofNat p.macros.size ++
    " lighting=".toList ++ Text.ofNat p.effects.size ++
    " no_lighting=".toList ++ Text.ofBool p.lightsOff.everywhere ++ ['>']

end Profile

end KeyProfile

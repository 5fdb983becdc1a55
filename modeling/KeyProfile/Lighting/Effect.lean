import KeyProfile.KeySet
import KeyProfile.Layer
import KeyProfile.OrderedMap
import KeyProfile.Text.Display

/-!
Lighting effects. A static effect colors single keys; a dynamic one plays frames, each lighting some
keys for a number of steps, in colors given by its configurations.
-/

namespace KeyProfile.Lighting

inductive EffectKind where
  | static
  | dynamic
deriving DecidableEq, Repr

namespace EffectKind

def name : EffectKind → Text
  | .static => "Static".toList
  | .dynamic => "Dynamic".toList

def number : EffectKind → Int
  | .static => 0
  | .dynamic => 1

instance : Enumerated EffectKind := ⟨[.static, .dynamic], name, fun k => some k.number, []⟩

end EffectKind

inductive ColorKind where
  | monochrome
  | rgb
  | breathing
deriving DecidableEq, Repr

namespace ColorKind

def name : ColorKind → Text
  | .monochrome => "Monochrome".toList
  | .rgb => "RGB".toList
  | .breathing => "Breathing".toList

def number : ColorKind → Int
  | .monochrome => 0
  | .rgb => 1
  | .breathing => 2

instance : Enumerated ColorKind :=
  ⟨[.monochrome, .rgb, .breathing], name, fun k => some k.number, [("rainbow".toList, .rgb)]⟩

end ColorKind

structure Frame where
  /-- For how many steps the frame is shown. -/
  count : Int := 1
  keys : KeySet := ∅
deriving DecidableEq

def Frame.describe (f : Frame) : Text :=
  "Frame<count=".toList ++ Text.ofInt f.count ++ " keys=".toList ++
    Text.bracketed (f.keys.toList.map Text.ofInt) ++ ['>']

/-- The color of some keys of a dynamic effect and how it changes. -/
structure Param where
  color : Int := 0
  kind : ColorKind := .monochrome
  keys : KeySet := ∅
  count : Int := 0
  stayCount : Int := 0
  /-- The two counts go to the keyboard as they are. -/
  raw : Bool := false
deriving DecidableEq

def Param.describe (p : Param) : Text :=
  "Param<".toList ++ p.kind.name ++ " color=".toList ++ Text.hexWord 8 p.color ++
    " val1=".toList ++ Text.ofInt p.count ++ " val2=".toList ++ Text.ofInt p.stayCount ++
    " raw=".toList ++ Text.ofBool p.raw ++ " keys=".toList ++
    Text.bracketed (p.keys.toList.map Text.ofInt) ++ ['>']

inductive Body where
  /-- The color word of each location. -/
  | static (colors : OrderedMap Int Int)
  /-- The frames, for how many steps they are shown in all, and the configurations. -/
  | dynamic (frames : List Frame) (total : Int) (params : List Param)

structure Effect where
  name : Text
  id : Option Int := none
  body : Body := .dynamic [] 0 []
  /-- The layers that use the effect. -/
  layers : LayerSet := ∅

namespace Effect

def kind (e : Effect) : EffectKind :=
  match e.body with
  | .static _ => .static
  | .dynamic .. => .dynamic

def colors (e : Effect) : OrderedMap Int Int :=
  match e.body with
  | .static colors => colors
  | .dynamic .. => ∅

def frames (e : Effect) : List Frame :=
  match e.body with
  | .static _ => []
  | .dynamic frames _ _ => frames

def params (e : Effect) : List Param :=
  match e.body with
  | .static _ => []
  | .dynamic _ _ params => params

/-- For how many steps an effect runs before it starts over. -/
def totalFrames (e : Effect) : Int :=
  match e.body with
  | .static _ => 0
  | .dynamic _ total _ => total

def describe (e : Effect) : Text :=
  "LightingEffect<".toList ++ e.name ++ " id=".toList ++ Text.ofOption Text.ofInt e.id ++
    [' '] ++ e.kind.name ++ " frames=".toList ++ Text.ofNat e.frames.length ++ ['/'] ++
    Text.ofInt e.totalFrames ++ " params=".toList ++ Text.ofNat e.params.length ++
    " colors=".toList ++ Text.ofNat e.colors.size ++ " layers=".toList ++
    Text.quotedList (e.layers.toList.map Layer.name) ++ ['>']

end Effect

end KeyProfile.Lighting

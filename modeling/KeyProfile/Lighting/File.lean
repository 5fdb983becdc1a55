import KeyProfile.Color
import KeyProfile.Files
import KeyProfile.Json.Document
import KeyProfile.Lighting.Effect
import KeyProfile.Path
import KeyProfile.Text.Lines

/-!
Lighting effect files. An effect is kept in a file of its name under the data root and holds one JSON
object. Whatever in it cannot be made sense of is left out; only a file that is missing, cannot be
read as JSON, or holds something other than an object fails to load.
-/

namespace KeyProfile.Lighting

inductive LoadFailure where
  | noName
  | notFound (path : Text)
  | notAnObject (path : Text)
  | unreadable (path : Text)
  /-- The system does not let the file be read. -/
  | denied (path reason : Text)
deriving DecidableEq, Repr

def LoadFailure.message : LoadFailure → Text
  | .noName => "no lighting effect name".toList
  | .notFound path => "file not found: ".toList ++ path
  | .notAnObject path => path ++ " doesn't hold a JSON object".toList
  | .unreadable path => "unable to load ".toList ++ path
  | .denied path reason => "unable to load ".toList ++ path ++ ": ".toList ++ reason

/-- Where the named effect is kept. -/
def effectPath (dataRoot name : Text) : Text :=
  Path.join (Path.join dataRoot "lighting".toList) (name ++ ".le".toList)

open Json (Members)

/-- The first of two members that holds an integer. -/
def firstInt? (object : Members) (name other : String) : Option Int :=
  ((Json.member? object name).bind Json.int?).or ((Json.member? object other).bind Json.int?)

/-- The member `Type` as one of a choice. -/
def typeOf? (α : Type) [Enumerated α] (object : Members) : Option α :=
  (Json.member? object "Type").bind (Enumerated.ofJson? true)

/-- The locations of the keys that can be resolved. -/
def resolvable (keyboard : Keyboard) (keys : List Json) : KeySet :=
  KeySet.ofList (keys.filterMap (KeyToken.location? keyboard))

/-- The objects among the items of an array; there are none in anything else. -/
def objectsIn : Option Json → List Members
  | some (.arr items) => items.filterMap fun
    | .obj members => some members
    | _ => none
  | _ => []

/-- The location and the color of a member, if both can be read. -/
def coloredKey? (keyboard : Keyboard) (entry : Text × Json) : Option (Int × Int) := do
  let location ← KeyToken.location? keyboard (.str entry.1)
  let color ← entry.2.str? >>= Color.parseVisible?
  some (location, color)

/-- The colors of a static effect. -/
def staticColors (keyboard : Keyboard) (object : Members) : OrderedMap Int Int :=
  match Json.member? object "Data" with
  | some (.obj members) => OrderedMap.ofList (members.filterMap (coloredKey? keyboard))
  | _ => ∅

/-- The keys that a frame lists, by themselves or as the names of members. -/
def frameKeys (object : Members) : List Json :=
  match Json.member? object "Data" with
  | some (.obj members) => members.map fun entry => .str entry.1
  | some (.arr items) => items
  | _ => []

def frameOf (keyboard : Keyboard) (object : Members) : Frame where
  count := match (Json.member? object "Count").bind Json.int? with
    | some n => if 0 < n then n else 1
    | none => 1
  keys := resolvable keyboard (frameKeys object)

/-- The frames that were read, with the sum of their counts, after one more. -/
def addFrame (keyboard : Keyboard) (read : List Frame × Int) (object : Members) :
    List Frame × Int :=
  let frame := frameOf keyboard object
  (read.1 ++ [frame], read.2 + frame.count)

/-- The color word of a configuration: black if the digits after the mark are bad, and the invalid
word if there is no mark. -/
def configColor (object : Members) : Int :=
  match Json.member? object "Color" with
  | some (.str text) =>
    match Color.parse? text with
    | some color => color
    | none => if (Color.body? text).isSome then 0 else Color.invalid
  | _ => 0

def configKeys (object : Members) : List Json :=
  match Json.member? object "Keys" with
  | some (.arr items) => items
  | _ => []

def paramOf (keyboard : Keyboard) (object : Members) : Param where
  color := configColor object
  kind := (typeOf? ColorKind object).getD .monochrome
  keys := resolvable keyboard (configKeys object)
  count := (firstInt? object "Count" "Val1").getD 0
  stayCount := (firstInt? object "StayCount" "Val2").getD 0
  raw := match Json.member? object "UseRawValues" with
    | some (.bool b) => b
    | some (.int n) => n == 1
    | _ => false

/-- The effect that an object describes. Configurations without a key are left out. -/
def effectOf (keyboard : Keyboard) (name : Text) (object : Members) : Effect :=
  match (typeOf? EffectKind object).getD .dynamic with
  | .static => { name, body := .static (staticColors keyboard object) }
  | .dynamic =>
    let (frames, total) :=
      (objectsIn (Json.member? object "Frames")).foldl (addFrame keyboard) ([], 0)
    let params := (objectsIn (Json.member? object "LEConfigs")).map (paramOf keyboard)
    { name, body := .dynamic frames total (params.filter (!·.keys.isEmpty)) }

/-- The JSON value in a file. -/
def document? (maxDepth : Option Nat) (content : Text.Octets) : Option Json :=
  (Text.ofUtf8? content).bind fun text => Json.ofText? maxDepth text.unifyLineEnds

/-- The named effect, read from the file at its path. -/
def load (keyboard : Keyboard) (files : Files) (dataRoot name : Text) :
    Except LoadFailure Effect :=
  if name.isEmpty then .error .noName
  else
    let path := effectPath dataRoot name
    match files.read path with
    | .absent => .error (.notFound path)
    | .denied reason => .error (.denied path reason)
    | .octets content =>
      match document? files.maxDepth content with
      | none => .error (.unreadable path)
      | some (.obj members) => .ok (effectOf keyboard name members)
      | some _ => .error (.notAnObject path)

/-- What is loaded was read from an object in the file of that name. -/
theorem load_eq_ok_iff {keyboard : Keyboard} {files : Files} {dataRoot name : Text}
    {effect : Effect} :
    load keyboard files dataRoot name = .ok effect ↔
      name.isEmpty = false ∧ ∃ content members,
        files.read (effectPath dataRoot name) = .octets content ∧
        document? files.maxDepth content = some (.obj members) ∧
        effectOf keyboard name members = effect := by
  unfold load
  dsimp only
  cases name.isEmpty with
  | true => simp
  | false =>
    cases files.read (effectPath dataRoot name) with
    | absent => simp
    | denied reason => simp
    | octets content =>
      cases hread : document? files.maxDepth content with
      | none => simp [hread]
      | some document => cases document <;> simp [hread]

/-- A load's outcome in words. -/
def describeLoad : Except LoadFailure Effect → Text
  | .ok effect => "LightingLoadResult<ok ".toList ++ effect.describe ++ ['>']
  | .error failure => "LightingLoadResult<failed: ".toList ++ failure.message ++ ['>']

end KeyProfile.Lighting

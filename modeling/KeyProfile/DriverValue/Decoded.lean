import KeyProfile.DriverValue.Basic
import KeyProfile.Text.Display

/-!
What a driver value does, as one record. A macro whose id is beyond the limit, and any word of an
unknown kind, counts as a plain key.
-/

namespace KeyProfile.DriverValue

inductive Category where
  | key
  | modifier
  | mouse
  | macroCall
  | unused
deriving DecidableEq, Repr

def Category.name : Category → Text
  | .key => "key".toList
  | .modifier => "modifier".toList
  | .mouse => "mouse".toList
  | .macroCall => "macro".toList
  | .unused => "unused".toList

/-- A word taken apart; what its category has no use for is zero or missing. -/
structure Decoded where
  category : Category
  raw : Int
  modifiers : Int := 0
  code : Int := 0
  macroId : Option Int := none
deriving DecidableEq

def classify (v : Int) (limit : Int) : Decoded :=
  let raw := word v
  if raw = unused then { category := .unused, raw }
  else match macroId? raw limit with
    | some id => { category := .macroCall, raw, macroId := some id }
    | none =>
      match kind raw with
      | .mouse => { category := .mouse, raw, code := data2 raw }
      | .key =>
        if usage raw = 0 ∧ data1 raw ≠ 0 then
          { category := .modifier, raw, modifiers := data1 raw }
        else { category := .key, raw, modifiers := data1 raw, code := usage raw }
      | _ => { category := .key, raw, code := usage raw }

def Decoded.describe (d : Decoded) : Text :=
  "DecodedValue<".toList ++ d.category.name ++ " raw=".toList ++ Text.hexWord 8 d.raw ++
    " modifiers=".toList ++ Text.hexWord 2 d.modifiers ++ " code=".toList ++
    Text.hexWord 2 d.code ++ " macro_id=".toList ++ Text.ofOption Text.ofInt d.macroId ++ ['>']

end KeyProfile.DriverValue

import KeyProfile.Layer
import KeyProfile.Text.Display
import KeyProfile.Text.Lower

/-!
Group headers. A line in brackets lists names, or calls one name with arguments in parentheses.
Empty entries are dropped, blanks around entries too. The header says what its group is about: key
tables, a macro, a lighting effect, or layers without lighting.
-/

namespace KeyProfile

structure GroupHeader where
  names : List Text
  /-- The arguments, if there are parentheses. -/
  arguments : Option (List Text) := none
deriving DecidableEq

namespace GroupHeader

/-- The entries of a list with commas. -/
def entries (t : Text) : List Text := (Text.fields ',' t).map Text.strip

/-- The header that stands between the first character of a line and its first `]`. -/
def ofLine? (line : Text) : Option GroupHeader := do
  let (front, _) ← line.cutAt? ']'
  match front with
  | [] | [_] => none
  | _ :: body =>
    let body := Text.strip body
    match body.call? with
    | some (name, inner) => some ⟨[name.strip], some (entries inner)⟩
    | none => some ⟨entries body, none⟩

/-- The first argument, unless it is blank. -/
def subject? (h : GroupHeader) : Option Text :=
  match h.arguments with
  | some (first :: _) => if first.isEmpty then none else some first
  | _ => none

def describe (h : GroupHeader) : Text :=
  "GroupHeader<".toList ++ Text.quotedList h.names ++ [' '] ++
    Text.ofOption Text.quotedList h.arguments ++ ['>']

end GroupHeader

/-- What a group of lines is about. -/
inductive GroupKind where
  | outside
  | layer
  | macros
  | lighting
deriving DecidableEq, Repr

namespace GroupKind

def name : GroupKind → Text
  | .outside => "NONE".toList
  | .layer => "LAYER".toList
  | .macros => "MACRO".toList
  | .lighting => "LIGHTING".toList

instance : Enumerated GroupKind :=
  ⟨[.outside, .layer, .macros, .lighting], name, fun _ => none, []⟩

end GroupKind

/-- What a header's name asks for. -/
inductive Directive where
  | table (ref : TableRef)
  | defineMacro
  | useLighting
  | noLighting
  | unknown
deriving DecidableEq, Repr

namespace Directive

/-- The names that ask for something, in lower case. -/
def names : List (Text × Directive) :=
  [("base".toList, .table ⟨.base, false⟩),
   ("layer1".toList, .table ⟨.layer1, false⟩),
   ("layer2".toList, .table ⟨.layer2, false⟩),
   ("layer3".toList, .table ⟨.layer3, false⟩),
   ("fnbase".toList, .table ⟨.base, true⟩),
   ("fnlayer1".toList, .table ⟨.layer1, true⟩),
   ("fnlayer2".toList, .table ⟨.layer2, true⟩),
   ("fnlayer3".toList, .table ⟨.layer3, true⟩),
   ("macro".toList, .defineMacro),
   ("lighting".toList, .useLighting),
   ("nolighting".toList, .noLighting)]

/-- What a name asks for, in any case. -/
def ofName (name : Text) : Directive := (names.lookup name.lower).getD .unknown

end Directive

end KeyProfile

import KeyProfile.Json.Token

/-!
JSON documents. The tokens are read one after another over a stack of the containers that are open,
innermost first; how many may be open at a time can be limited. A name that an object repeats keeps
its first place and takes the last value.
-/

namespace KeyProfile.Json

/-- A container that is not closed yet: the items so far, latest first, or the members so far and
the name whose value is awaited. -/
inductive Opened where
  | array (items : List Json)
  | object (members : Members) (name : Option Text)

/-- What may come next. -/
inductive Expected where
  | value
  | valueOrClose
  | name
  | nameOrClose
  | colon
  | commaOrClose
  | nothing (document : Json)

structure Reading where
  opened : List Opened
  expected : Expected

/-- A complete value goes into the innermost container, or is the document. -/
def Reading.put (opened : List Opened) (value : Json) : Option Reading :=
  match opened with
  | [] => some ⟨[], .nothing value⟩
  | .array items :: outer => some ⟨.array (value :: items) :: outer, .commaOrClose⟩
  | .object members (some name) :: outer =>
    some ⟨.object (insertEntry name value members) none :: outer, .commaOrClose⟩
  | .object _ none :: _ => none

/-- Opens one container more, unless the limit is reached. -/
def Reading.push (maxDepth : Option Nat) (opened : List Opened) (container : Opened)
    (expected : Expected) : Option Reading :=
  if maxDepth.all (opened.length < ·) then some ⟨container :: opened, expected⟩ else none

/-- A token where a value may stand. -/
def Reading.value (maxDepth : Option Nat) (opened : List Opened) : Token → Option Reading
  | .scalar v => put opened v
  | .openArray => push maxDepth opened (.array []) .valueOrClose
  | .openObject => push maxDepth opened (.object [] none) .nameOrClose
  | _ => none

/-- A token where a member's name may stand. -/
def Reading.name (opened : List Opened) : Token → Option Reading
  | .scalar (.str name) =>
    match opened with
    | .object members _ :: outer => some ⟨.object members (some name) :: outer, .colon⟩
    | _ => none
  | _ => none

/-- A token that closes the innermost container. -/
def Reading.close (opened : List Opened) : Token → Option Reading
  | .closeArray =>
    match opened with
    | .array items :: outer => put outer (.arr items.reverse)
    | _ => none
  | .closeObject =>
    match opened with
    | .object members none :: outer => put outer (.obj members)
    | _ => none
  | _ => none

def Reading.step (maxDepth : Option Nat) (reading : Reading) (token : Token) : Option Reading :=
  let opened := reading.opened
  match reading.expected, token with
  | .value, token => value maxDepth opened token
  | .valueOrClose, .closeArray => close opened token
  | .valueOrClose, token => value maxDepth opened token
  | .name, token => name opened token
  | .nameOrClose, .closeObject => close opened token
  | .nameOrClose, token => name opened token
  | .colon, .colon => some ⟨opened, .value⟩
  | .colon, _ => none
  | .commaOrClose, .comma =>
    match opened with
    | .array _ :: _ => some ⟨opened, .value⟩
    | .object .. :: _ => some ⟨opened, .name⟩
    | [] => none
  | .commaOrClose, token => close opened token
  | .nothing _, _ => none

/-- The document that tokens make up. -/
def ofTokens? (maxDepth : Option Nat) (tokens : List Token) : Option Json := do
  let reading ← tokens.foldlM (Reading.step maxDepth) ⟨[], .value⟩
  match reading.expected with
  | .nothing document => some document
  | _ => none

/-- The value that a text spells, its containers not open more at a time than the limit allows. -/
def ofText? (maxDepth : Option Nat) (t : Text) : Option Json := tokens? t >>= ofTokens? maxDepth

end KeyProfile.Json

import KeyProfile.DriverValue.Basic
import KeyProfile.Text.Lower

/-!
Symbols are named driver values. A table finds a symbol by any of its names, exactly or in any case,
and names a value by the first symbol that was registered with it. Names are claimed one by one, so
a registration that fails keeps those it had claimed before the clash, but its symbol never becomes
the name of a value.
-/

namespace KeyProfile

structure Symbol where
  name : Text
  value : Int
  otherNames : List Text := []
  /-- The modifier bits that the key stands for, if it is a modifier. -/
  modifier : Option Int := none
  /-- The mouse button that the symbol stands for, if it does. -/
  button : Option MouseButton := none
deriving DecidableEq

namespace Symbol

/-- All names of a symbol, the one it is shown under first. -/
def names (s : Symbol) : List Text := s.name :: s.otherNames

def describe (s : Symbol) : Text :=
  "DriverValue<".toList ++ s.name ++ ['='] ++ Text.hexWord 8 s.value ++ ['>']

end Symbol

structure SymbolTable where
  /-- Names with the symbols that claimed them, the latest claim first. -/
  claims : List (Text × Symbol) := []
  /-- The symbols whose registration succeeded, in order. -/
  symbols : List Symbol := []

namespace SymbolTable

def isTaken (table : SymbolTable) (name : Text) : Bool := (table.claims.lookup name).isSome

/-- Names claimed one after another up to the first that is taken, which is given back. -/
def claim (table : SymbolTable) (s : Symbol) : List Text → SymbolTable × Option Text
  | [] => (table, none)
  | name :: rest =>
    if table.isTaken name then (table, some name)
    else claim { table with claims := (name, s) :: table.claims } s rest

/-- The table after a registration, and the fault if it failed. -/
def register (table : SymbolTable) (s : Symbol) : SymbolTable × Except Fault Symbol :=
  match table.claim s s.names with
  | (table, some name) => (table, .error (.nameTaken name))
  | (table, none) => ({ table with symbols := table.symbols ++ [s] }, .ok s)

/-- The symbol registered under a name, blanks around it dropped. -/
def find? (table : SymbolTable) (name : Text) : Option Symbol := table.claims.lookup name.strip

/-- The symbol that last claimed a name which is the same in lower case. -/
def findAnyCase? (table : SymbolTable) (name : Text) : Option Symbol :=
  let wanted := name.strip.lower
  (table.claims.find? fun claim => claim.1.lower = wanted).map Prod.snd

/-- The driver value of a name. -/
def value? (table : SymbolTable) (name : Text) : Option Int :=
  (table.find? name).map Symbol.value

def valueAnyCase? (table : SymbolTable) (name : Text) : Option Int :=
  (table.findAnyCase? name).map Symbol.value

/-- The name of a value, or the value in hexadecimal if no symbol has it. -/
def nameOf (table : SymbolTable) (value : Int) : Text :=
  match table.symbols.find? (·.value = value) with
  | some s => s.name
  | none => Text.hexWord 8 value

/-- The table after registering symbols in order. -/
def registerAll (table : SymbolTable) (symbols : List Symbol) : SymbolTable :=
  symbols.foldl (fun table s => (table.register s).1) table

/-- The claims of symbols whose names all differ, the latest first. -/
def claimsOf (symbols : List Symbol) : List (Text × Symbol) :=
  (symbols.flatMap fun s => s.names.map fun name => (name, s)).reverse

theorem isTaken_eq_false_iff (table : SymbolTable) (name : Text) :
    table.isTaken name = false ↔ name ∉ table.claims.map Prod.fst := by
  simp only [isTaken, Option.isSome_eq_false_iff, Option.isNone_iff_eq_none,
    List.lookup_eq_none_iff, List.mem_map, not_exists, not_and]
  constructor
  · intro free claim mem same
    simpa [same] using free claim mem
  · intro free claim mem
    simpa using fun same : name = claim.1 => free claim mem same.symm

/-- Names that are free and differ are all claimed. -/
theorem claim_of_free (table : SymbolTable) (s : Symbol) {names : List Text}
    (distinct : names.Nodup) (free : ∀ name ∈ names, table.isTaken name = false) :
    table.claim s names =
      ({ table with claims := (names.map fun name => (name, s)).reverse ++ table.claims },
        none) := by
  induction names generalizing table with
  | nil => rfl
  | cons name rest ih =>
    have ⟨fresh, distinct⟩ := List.nodup_cons.mp distinct
    have still : ∀ n ∈ rest,
        isTaken { table with claims := (name, s) :: table.claims } n = false := by
      intro n hn
      have hne : n ≠ name := fun e => fresh (e ▸ hn)
      have free := (table.isTaken_eq_false_iff n).mp (free n (by simp [hn]))
      rw [isTaken_eq_false_iff]
      simpa [hne] using free
    rw [claim, if_neg (by simp [free name (by simp)]), ih _ distinct still]
    simp

/-- Symbols whose names all differ are all registered. -/
theorem registerAll_of_nodup (table : SymbolTable) (symbols : List Symbol)
    (distinct : (symbols.flatMap Symbol.names).Nodup)
    (free : ∀ name ∈ symbols.flatMap Symbol.names, table.isTaken name = false) :
    table.registerAll symbols =
      { claims := claimsOf symbols ++ table.claims, symbols := table.symbols ++ symbols } := by
  induction symbols generalizing table with
  | nil => simp [registerAll, claimsOf]
  | cons s rest ih =>
    rw [List.flatMap_cons] at distinct free
    have ⟨own, others, apart⟩ := List.nodup_append.mp distinct
    have first := claim_of_free table s own fun name hn => free name (by simp [hn])
    have still : ∀ name ∈ rest.flatMap Symbol.names,
        isTaken
          { claims := (s.names.map fun name => (name, s)).reverse ++ table.claims
            symbols := table.symbols ++ [s] } name = false := by
      intro name hn
      have old := (table.isTaken_eq_false_iff name).mp (free name (List.mem_append_right _ hn))
      have new : name ∉ s.names := fun h => apart name h name hn rfl
      rw [isTaken_eq_false_iff]
      simpa [new, Function.comp_def] using old
    have done : (table.register s).1 =
        { claims := (s.names.map fun name => (name, s)).reverse ++ table.claims
          symbols := table.symbols ++ [s] } := by
      rw [register, first]
    rw [registerAll, List.foldl_cons, done, ← registerAll, ih _ others still]
    simp [claimsOf, List.append_assoc]

end SymbolTable

end KeyProfile

import KeyProfile.LogRecord
import KeyProfile.Registry.Basic

/-!
What a line of key bindings stands for: the source key, and the destination made of keys, modifiers,
mouse buttons, literals and references to macros. References are counted in the registry of macros,
whatever its items are, and may leave records in the log.
-/

namespace KeyProfile

/-- The source of a line: the last token that can be resolved, or zero. -/
def sourceOf (tokens : List Text) : Int :=
  tokens.foldl (fun value token => (KeyToken.driverValue? token).getD value) 0

/-- A destination in the making. -/
structure Destination (α : Type) where
  registry : Registry α
  value : Int := 0
  log : List LogRecord := []

/-- The outcome of one reference. -/
structure Reference (α : Type) where
  registry : Registry α
  value : Option Int := none
  log : List LogRecord := []

/-- The value of a token that calls a macro by its name in parentheses. -/
def Registry.resolve (registry : Registry α) (key : Int) (token : Text) :
    Except Fault (Reference α) :=
  match token.call? with
  | none => .ok { registry }
  | some (_, inner) =>
    let name := Text.strip inner
    if !registry.defines name then .ok { registry, log := [.macroMissing name key] }
    else match registry.reference name with
      | (registry, none) => .ok { registry, log := [.macroUnnumbered name key] }
      | (registry, some id) => do
        let value ← DriverValue.ofMacroId id
        pure { registry, value := some value }

namespace Destination

variable {α : Type}

/-- One token more. Keys and modifiers are added to what is there; anything else replaces it. -/
def add (key : Int) (d : Destination α) (token : Text) : Except Fault (Destination α) := do
  let token := token.strip
  if (KeyToken.hexBody? token).isSome then
    pure { d with value := (KeyToken.hexLiteral? token).getD d.value }
  else if token.lower.startsWith "macro".toList then
    let reference ← d.registry.resolve key token
    pure
      { registry := reference.registry
        value := reference.value.getD d.value
        log := d.log ++ reference.log }
  else
    match SymbolTable.standard.value? token with
    | none => pure d
    | some value =>
      if DriverValue.kind value = .key then pure { d with value := bitUnion d.value value }
      else pure { d with value }

/-- The destination that tokens make for a key. -/
def ofTokens (registry : Registry α) (key : Int) (tokens : List Text) :
    Except Fault (Destination α) :=
  tokens.foldlM (add key) { registry }

end Destination

end KeyProfile

import KeyProfile.Proofs.GroupOrder
import KeyProfile.Proofs.KeptFacts

/-!
Lighting effects over a whole text. A header uses an effect: it loads it unless it is there, and
attaches it to layers. All headers of a name together load its effect once and attach it to all
layers that they list (`lit`); one that cannot be loaded leaves no trace but in the log. The effects
of a profile stand in the order in which they were first used, and their places are their ids.
-/

namespace KeyProfile

/-- The effect before it has an id. -/
def Lighting.Effect.unnumbered (e : Effect) : Effect := { e with id := none }

/-- What a header says about an effect. -/
structure EffectUse where
  name : Text
  /-- The texts that are to name the layers. -/
  layers : List Text

/-- The use that a header line makes of an effect: the name is its first argument, unless that is
blank. -/
def effectUseOf? (line : Text) : Option EffectUse :=
  match GroupHeader.ofLine? line.strip with
  | some ⟨[kind], some (name :: layers)⟩ =>
    if Directive.ofName kind = .useLighting ∧ name ≠ [] then some ⟨name, layers⟩ else none
  | _ => none

theorem effectUseOf?_eq_some_iff (line : Text) (use : EffectUse) :
    effectUseOf? line = some use ↔ topicOf line = .lighting use.name use.layers := by
  rw [topicOf_eq_lighting_iff]
  unfold effectUseOf?
  constructor
  · intro huse
    split at huse
    · next kind name layers hline =>
      split at huse
      · next hopens =>
        cases huse
        exact ⟨hopens.2, kind, hopens.1, hline⟩
      · cases huse
    · cases huse
  · rintro ⟨hname, kind, hkind, hline⟩
    rw [hline]
    exact if_pos ⟨hkind, hname⟩

/-- The uses that the headers of blocks make of effects. -/
def effectUses (blocks : List Block) : List EffectUse :=
  blocks.filterMap fun b => effectUseOf? b.header

/-- The effect that is loaded for a name, if that succeeds. -/
def Workspace.effect? (ws : Workspace) (name : Text) : Option Lighting.Effect :=
  (Lighting.load ws.keyboard ws.files ws.dataRoot name).toOption

/-- An effect is loaded for no layer, and without an id. -/
theorem Lighting.blank_load {keyboard : Keyboard} {files : Files} {dataRoot name : Text}
    {effect : Effect} (h : load keyboard files dataRoot name = .ok effect) :
    effect.layers = ∅ ∧ effect.id = none := by
  obtain ⟨-, content, members, -, -, rfl⟩ := load_eq_ok_iff.mp h
  unfold effectOf
  split <;> exact ⟨rfl, rfl⟩

theorem Workspace.load_of_effect? {ws : Workspace} {name : Text} {effect : Lighting.Effect}
    (h : ws.effect? name = some effect) :
    Lighting.load ws.keyboard ws.files ws.dataRoot name = .ok effect := by
  unfold effect? at h
  cases hload : Lighting.load ws.keyboard ws.files ws.dataRoot name with
  | error failure => simp [hload, Except.toOption] at h
  | ok loaded => simpa [hload, Except.toOption] using h

theorem Workspace.unnumbered_effect? (ws : Workspace) (name : Text) :
    (ws.effect? name).map Lighting.Effect.unnumbered = ws.effect? name := by
  cases heffect : ws.effect? name with
  | none => rfl
  | some effect =>
    have hid := (Lighting.blank_load (load_of_effect? heffect)).2
    rw [Option.map_some, Lighting.Effect.unnumbered, ← hid]

/-- The texts that are to name layers in the uses of a name. -/
def attachedTo (uses : List EffectUse) (name : Text) : List Text :=
  (uses.filter (·.name = name)).flatMap EffectUse.layers

/-- The effect that the uses of a name make together, if there are any and it can be loaded. -/
def lit (ws : Workspace) (uses : List EffectUse) (name : Text) : Option Lighting.Effect :=
  if ∃ use ∈ uses, use.name = name then
    (ws.effect? name).map (Compilation.attach (attachedTo uses name))
  else none

/-- The names used whose effects can be loaded, in the order of their first uses. -/
def litNames (ws : Workspace) (uses : List EffectUse) : List Text :=
  ((uses.map EffectUse.name).filter fun name => (ws.effect? name).isSome).eraseDups

/-- The effect that a record tells of having loaded. -/
def LogRecord.loaded? : LogRecord → Option Lighting.Effect
  | .effectLoaded effect => some effect
  | _ => none

namespace Compilation

theorem attach_attach (layers more : List Text) (effect : Lighting.Effect) :
    attach more (attach layers effect) = attach (layers ++ more) effect := by
  unfold attach
  rw [List.filterMap_append, List.foldl_append]

/-- The registry of effects after one use. -/
def useEffect (ws : Workspace) (r : Registry Lighting.Effect) (use : EffectUse) :
    Registry Lighting.Effect :=
  if r.defines use.name then r.update use.name (attach use.layers)
  else
    match ws.effect? use.name with
    | none => r
    | some effect =>
      ((r.add use.name effect).reference use.name).1.update use.name (attach use.layers)

theorem effects_light (ws : Workspace) (c : Compilation) (use : EffectUse) :
    (c.light ws use.name use.layers).effects = useEffect ws c.effects use := by
  unfold light useEffect Workspace.effect?
  split
  · rfl
  · cases Lighting.load ws.keyboard ws.files ws.dataRoot use.name <;> rfl

theorem log_light (ws : Workspace) (c : Compilation) (use : EffectUse) :
    (c.light ws use.name use.layers).log.filterMap LogRecord.loaded? =
      c.log.filterMap LogRecord.loaded? ++
        if c.effects.defines use.name = true then [] else (ws.effect? use.name).toList := by
  unfold light Workspace.effect?
  split
  · simp
  · cases Lighting.load ws.keyboard ws.files ws.dataRoot use.name <;>
      simp [record, LogRecord.loaded?, Except.toOption]

section UseEffect

variable (ws : Workspace) (r : Registry Lighting.Effect) (use : EffectUse)

theorem get?_useEffect (name : Text) :
    (useEffect ws r use).items.get? name =
      if name = use.name then
        ((r.items.get? name).or (ws.effect? name)).map (attach use.layers)
      else r.items.get? name := by
  unfold useEffect Registry.defines OrderedMap.contains
  cases hthere : r.items.get? use.name with
  | some effect =>
    simp only [Option.isSome_some, if_true, Registry.update, OrderedMap.get?_modify]
    split
    · next hname => simp [hname, hthere]
    · rfl
  | none =>
    cases hload : ws.effect? use.name with
    | none =>
      simp only [Option.isSome_none, Bool.false_eq_true, if_false]
      split
      · next hname => simp [hname, hthere, hload]
      · rfl
    | some effect =>
      simp only [Option.isSome_none, Bool.false_eq_true, if_false, Registry.update,
        OrderedMap.get?_modify, Registry.items_reference, Registry.add, OrderedMap.get?_insert]
      split
      · next hname => simp [hname, hthere, hload]
      · rfl

theorem keys_useEffect :
    (useEffect ws r use).items.keys =
      if r.defines use.name = false ∧ (ws.effect? use.name).isSome = true then
        r.items.keys ++ [use.name]
      else r.items.keys := by
  unfold useEffect
  cases hthere : r.defines use.name with
  | true => simp [Registry.update, OrderedMap.keys_modify]
  | false =>
    have hnew : use.name ∉ r.items.keys := by
      rw [OrderedMap.mem_keys_iff]
      exact Bool.eq_false_iff.mp hthere
    cases hload : ws.effect? use.name with
    | none => simp
    | some effect =>
      simp [Registry.update, OrderedMap.keys_modify, Registry.add, OrderedMap.keys_insert, hnew]

/-- A registry without a limit gives an id to what is loaded, and to nothing else. -/
theorem referenced_useEffect (hlimit : r.limit = none) (hknown : use.name ∈ r.referenced →
      r.defines use.name = true) :
    (useEffect ws r use).limit = none ∧
      (useEffect ws r use).referenced =
        if r.defines use.name = false ∧ (ws.effect? use.name).isSome = true then
          r.referenced ++ [use.name]
        else r.referenced := by
  unfold useEffect
  cases hthere : r.defines use.name with
  | true => simp [Registry.update, hlimit]
  | false =>
    have hnew : use.name ∉ r.referenced := by
      intro hin
      rw [hknown hin] at hthere
      cases hthere
    cases hload : ws.effect? use.name with
    | none => simp [hlimit]
    | some effect =>
      have hdefined : (r.add use.name effect).defines use.name = true := by
        simp [Registry.defines_add]
      have hfull : (r.add use.name effect).isFull = false := by
        simp [Registry.isFull, Registry.add, hlimit]
      have hreference := Registry.reference_fst (r.add use.name effect) use.name
      rw [if_pos ⟨hdefined, hnew, hfull⟩] at hreference
      simp only [Registry.update, hreference]
      simp [Registry.add, hlimit]

end UseEffect

end Compilation

theorem attachedTo_concat (uses : List EffectUse) (use : EffectUse) (name : Text) :
    attachedTo (uses ++ [use]) name =
      attachedTo uses name ++ if use.name = name then use.layers else [] := by
  unfold attachedTo
  rw [List.filter_append, List.flatMap_append]
  by_cases hname : use.name = name <;> simp [hname]

theorem attachedTo_of_unused {uses : List EffectUse} {name : Text}
    (h : ¬∃ use ∈ uses, use.name = name) : attachedTo uses name = [] := by
  have hnone : uses.filter (·.name = name) = [] := by
    rw [List.filter_eq_nil_iff]
    intro use huse hname
    exact h ⟨use, huse, by simpa using hname⟩
  rw [attachedTo, hnone]
  rfl

/-- One use more either is of the name or changes nothing. -/
theorem lit_concat (ws : Workspace) (uses : List EffectUse) (use : EffectUse) (name : Text) :
    lit ws (uses ++ [use]) name =
      if name = use.name then
        ((lit ws uses name).or (ws.effect? name)).map (Compilation.attach use.layers)
      else lit ws uses name := by
  have hmem : (∃ u ∈ uses ++ [use], u.name = name) ↔
      (∃ u ∈ uses, u.name = name) ∨ name = use.name := by
    rw [eq_comm (a := name)]
    simp only [List.mem_append, List.mem_singleton, or_and_right, exists_or, exists_eq_left]
  unfold lit
  simp only [hmem, attachedTo_concat]
  by_cases hname : name = use.name
  · subst hname
    rw [if_pos (Or.inr rfl), if_pos rfl, if_pos rfl]
    split
    · cases ws.effect? use.name with
      | none => rfl
      | some effect => simp [Compilation.attach_attach]
    · next hnew => simp [attachedTo_of_unused hnew]
  · have hother : ¬use.name = name := fun h => hname h.symm
    simp only [hname, hother, or_false, if_false, List.append_nil]

theorem litNames_concat (ws : Workspace) (uses : List EffectUse) (use : EffectUse) :
    litNames ws (uses ++ [use]) =
      if use.name ∉ litNames ws uses ∧ (ws.effect? use.name).isSome = true then
        litNames ws uses ++ [use.name]
      else litNames ws uses := by
  unfold litNames
  rw [List.map_append, List.map_singleton, List.filter_append]
  cases hload : (ws.effect? use.name).isSome with
  | false => simp [hload]
  | true =>
    have hlast : ([use.name].filter fun name => (ws.effect? name).isSome) = [use.name] := by
      simp [hload]
    rw [hlast, eraseDups_concat]
    simp only [List.mem_eraseDups]
    split
    · next hin => simp [hin]
    · next hnew => simp [hnew]

/-- The registry of effects that uses make: what can be loaded stands in the order of first use,
has its place for an id, and is attached to the layers of all its uses, whether or not the effects
were told their ids. -/
structure Registry.LitBy (r : Registry Lighting.Effect) (ws : Workspace) (uses : List EffectUse) :
    Prop where
  limit : r.limit = none
  keys : r.items.keys = litNames ws uses
  referenced : r.referenced = litNames ws uses
  items : ∀ name, (r.items.get? name).map Lighting.Effect.unnumbered = lit ws uses name

namespace Registry.LitBy

variable {r : Registry Lighting.Effect} {ws : Workspace} {uses : List EffectUse}

theorem defines_iff (h : r.LitBy ws uses) (name : Text) :
    r.defines name = true ↔ name ∈ litNames ws uses := by
  rw [← h.keys, OrderedMap.mem_keys_iff]
  rfl

theorem start (ws : Workspace) : ({} : Registry Lighting.Effect).LitBy ws [] :=
  ⟨rfl, rfl, rfl, fun _ => rfl⟩

theorem use (h : r.LitBy ws uses) (use : EffectUse) :
    (Compilation.useEffect ws r use).LitBy ws (uses ++ [use]) := by
  have hknown : use.name ∈ r.referenced → r.defines use.name = true := by
    rw [h.referenced, h.defines_iff]
    exact id
  have hnew : r.defines use.name = false ↔ use.name ∉ litNames ws uses := by
    rw [← h.defines_iff, Bool.not_eq_true]
  obtain ⟨hlimit, hreferenced⟩ := Compilation.referenced_useEffect ws r use h.limit hknown
  refine ⟨hlimit, ?_, ?_, ?_⟩
  · rw [Compilation.keys_useEffect, litNames_concat, h.keys]
    simp only [hnew]
  · rw [hreferenced, litNames_concat, h.referenced]
    simp only [hnew]
  · intro name
    rw [Compilation.get?_useEffect, lit_concat, ← h.items]
    split
    · rw [Option.map_map, ← ws.unnumbered_effect? name, ← Option.map_or, Option.map_map,
        ws.unnumbered_effect? name]
      rfl
    · rfl

end Registry.LitBy

end KeyProfile

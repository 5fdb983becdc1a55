import KeyProfile.Proofs.DarkLayers
import KeyProfile.Proofs.EffectUses

/-!
What a pass may change. A block acts in a pass only if the pass is for groups of its kind, and then
on the things of that kind alone: key tables and references, macros, or effects. New items come
last, those that are there keep their place and their id (`OrderedMap.Extends`), and lighting that
is off stays off. One header and one line keep to this (`ChangesWithin.enter`,
`ChangesWithin.fillLine`), so a pass does, from whatever state (`pass_keeps_outside`). What a
profile shows are the items of the registries themselves: a later pass can change them, though it
shows no others (`pass_revises_shown`).
-/

namespace KeyProfile

namespace OrderedMap

variable {κ α : Type} [DecidableEq κ] {bare : α → α} {id : α → Option Int}

/-- New items come at the end and have no id. Those that are there stay the same as far as `bare`
shows them, and keep their ids. -/
structure Extends (bare : α → α) (id : α → Option Int) (m m' : OrderedMap κ α) : Prop where
  entries : (m.mapValues fun _ => bare).entries <+: (m'.mapValues fun _ => bare).entries
  ids : ∀ k, (m'.get? k).bind id = (m.get? k).bind id

namespace Extends

theorem refl (m : OrderedMap κ α) : m.Extends bare id m :=
  ⟨List.prefix_refl _, fun _ => rfl⟩

theorem trans {m n l : OrderedMap κ α} (h : m.Extends bare id n) (h' : n.Extends bare id l) :
    m.Extends bare id l :=
  ⟨h.entries.trans h'.entries, fun k => (h'.ids k).trans (h.ids k)⟩

theorem modify (m : OrderedMap κ α) (k : κ) {f : α → α} (hbare : ∀ a, bare (f a) = bare a)
    (hid : ∀ a, id (f a) = id a) : m.Extends bare id (m.modify k f) where
  entries := by
    have hsame : ((m.modify k f).mapValues fun _ => bare).entries =
        (m.mapValues fun _ => bare).entries := by
      simp only [OrderedMap.modify, mapValues, List.map_map]
      apply List.map_congr_left
      intro entry _
      by_cases hk : entry.1 = k <;> simp [hk, hbare]
    rw [hsame]
  ids := by
    intro j
    rw [get?_modify]
    split
    · rw [Option.bind_map]
      exact congrArg _ (funext hid)
    · rfl

theorem insert {m : OrderedMap κ α} {k : κ} (hnew : m.get? k = none) {a : α} (ha : id a = none) :
    m.Extends bare id (m.insert k a) where
  entries := by
    have hfresh : k ∉ m.keys := by
      rw [mem_keys_iff, contains, hnew]
      simp
    simp only [mapValues, entries_insert_of_notMem m hfresh, List.map_append]
    exact List.prefix_append ..
  ids := by
    intro j
    rw [get?_insert]
    split
    · next hj => rw [hj, hnew, Option.bind_some, ha, Option.bind_none]
    · rfl

theorem insertNew (m : OrderedMap κ α) (k : κ) {a : α} (ha : id a = none) :
    m.Extends bare id (m.insertNew k a) := by
  unfold OrderedMap.insertNew contains
  cases hk : m.get? k with
  | some b => exact refl m
  | none => exact insert hk ha

theorem size_le {m m' : OrderedMap κ α} (h : m.Extends bare id m') : m.size ≤ m'.size := by
  simpa [mapValues, size] using h.entries.length_le

/-- As many items as there were at first look the same. -/
theorem take_eq {m m' : OrderedMap κ α} (h : m.Extends bare id m') {n : Nat} (hn : n ≤ m.size) :
    ((m'.take n).mapValues fun _ => bare) = (m.take n).mapValues fun _ => bare := by
  obtain ⟨more, hmore⟩ := h.entries
  have hlength : n ≤ (m.mapValues fun _ => bare).entries.length := by
    simpa [mapValues, size] using hn
  have htake : ((m'.mapValues fun _ => bare).entries).take n =
      ((m.mapValues fun _ => bare).entries).take n := by
    rw [← hmore, List.take_append_of_le_length hlength]
  apply OrderedMap.ext
  simpa [mapValues, take, List.map_take] using htake

end Extends

end OrderedMap

/-- A macro without what headers and lines of its groups say. -/
def Macro.bare (m : Macro) : Macro := { m with settings := {}, actions := [] }

/-- An effect without the layers that headers attach it to. -/
def Lighting.Effect.bare (e : Effect) : Effect := { e with layers := ∅ }

/-- The topics of a pass for groups of some kinds. -/
def Topic.AllowedIn (groups : List GroupKind) : Topic → Prop
  | .nothing => True
  | .keys _ => .layer ∈ groups
  | .actions .. => .macros ∈ groups
  | .lighting .. => .lighting ∈ groups

theorem Topic.allowedIn_within (topic : Topic) (groups : List GroupKind) :
    (topic.within groups).AllowedIn groups := by
  cases topic with
  | nothing => trivial
  | keys tables => by_cases h : GroupKind.layer ∈ groups <;> simp [within, h, AllowedIn]
  | actions name settings => by_cases h : GroupKind.macros ∈ groups <;> simp [within, h, AllowedIn]
  | lighting name layers => by_cases h : GroupKind.lighting ∈ groups <;> simp [within, h, AllowedIn]

namespace Registry

variable {α : Type}

/-- Names that were referred to stay, in their places. -/
theorem referenced_prefix_reference (r : Registry α) (name : Text) :
    r.referenced <+: (r.reference name).1.referenced := by
  rw [referenced_reference]
  split
  · exact List.prefix_append ..
  · exact List.prefix_refl _

theorem referenced_prefix_refer (r : Registry α) (names : List Text) :
    r.referenced <+: (r.refer names).referenced := by
  apply refer_preserves (P := fun s => r.referenced <+: s.referenced) names
  · intro s name h
    exact h.trans (s.referenced_prefix_reference name)
  · exact List.prefix_refl _

end Registry

namespace Compilation

theorem extends_defineMacro (r : Registry Macro) (name : Text) (settings : List Text) :
    r.items.Extends Macro.bare Macro.id (defineMacro r name settings).items := by
  have hnew : r.items.Extends Macro.bare Macro.id (r.items.insertNew name { name }) :=
    .insertNew r.items name rfl
  have hset (m : Macro) :
      ({ m with settings := .ofArguments settings } : Macro).bare = m.bare := rfl
  exact hnew.trans (.modify _ name hset fun _ => rfl)

theorem extends_light (ws : Workspace) (c : Compilation) (name : Text) (layers : List Text) :
    c.effects.items.Extends Lighting.Effect.bare Lighting.Effect.id
      (c.light ws name layers).effects.items := by
  unfold light
  split
  · exact .modify _ name (fun _ => rfl) fun _ => rfl
  · next hnew =>
    have hnone : c.effects.items.get? name = none := by
      simpa [Registry.defines, OrderedMap.contains] using hnew
    split
    · exact .refl _
    · next effect hload =>
      have hid := (Lighting.blank_load hload).2
      simp only [Registry.update, Registry.items_reference, Registry.add]
      exact (OrderedMap.Extends.insert hnone hid).trans
        (.modify _ name (fun _ => rfl) fun _ => rfl)

theorem referenced_prefix_light (ws : Workspace) (c : Compilation) (name : Text)
    (layers : List Text) :
    c.effects.referenced <+: (c.light ws name layers).effects.referenced := by
  unfold light
  split
  · exact List.prefix_refl _
  · split
    · exact List.prefix_refl _
    · next effect _ => exact (c.effects.add name effect).referenced_prefix_reference name

theorem published_light (ws : Workspace) (c : Compilation) (name : Text) (layers : List Text) :
    (c.light ws name layers).publishedMacros = c.publishedMacros ∧
      (c.light ws name layers).publishedEffects = c.publishedEffects := by
  unfold light
  split
  · exact ⟨rfl, rfl⟩
  · split <;> exact ⟨rfl, rfl⟩

/-- One compilation comes from another by changes to things of some kinds. -/
structure ChangesWithin (groups : List GroupKind) (c c' : Compilation) : Prop where
  tables : .layer ∉ groups → c'.tables = c.tables
  referenced : .layer ∉ groups → c'.macros.referenced = c.macros.referenced
  macros : .macros ∉ groups → c'.macros.items = c.macros.items
  effects : .lighting ∉ groups → c'.effects = c.effects
  macroItems : c.macros.items.Extends Macro.bare Macro.id c'.macros.items
  effectItems : c.effects.items.Extends Lighting.Effect.bare Lighting.Effect.id c'.effects.items
  macroOrder : c.macros.referenced <+: c'.macros.referenced
  effectOrder : c.effects.referenced <+: c'.effects.referenced
  published : c'.publishedMacros = c.publishedMacros ∧ c'.publishedEffects = c.publishedEffects

namespace ChangesWithin

variable {groups : List GroupKind}

theorem refl (groups : List GroupKind) (c : Compilation) : c.ChangesWithin groups c :=
  ⟨fun _ => rfl, fun _ => rfl, fun _ => rfl, fun _ => rfl, .refl _, .refl _, List.prefix_refl _,
    List.prefix_refl _, rfl, rfl⟩

theorem trans {c d e : Compilation} (h : c.ChangesWithin groups d) (h' : d.ChangesWithin groups e) :
    c.ChangesWithin groups e where
  tables hlayer := (h'.tables hlayer).trans (h.tables hlayer)
  referenced hlayer := (h'.referenced hlayer).trans (h.referenced hlayer)
  macros hmacros := (h'.macros hmacros).trans (h.macros hmacros)
  effects hlighting := (h'.effects hlighting).trans (h.effects hlighting)
  macroItems := h.macroItems.trans h'.macroItems
  effectItems := h.effectItems.trans h'.effectItems
  macroOrder := h.macroOrder.trans h'.macroOrder
  effectOrder := h.effectOrder.trans h'.effectOrder
  published := ⟨h'.published.1.trans h.published.1, h'.published.2.trans h.published.2⟩

theorem enter {topic : Topic} (h : topic.AllowedIn groups) (ws : Workspace) (c : Compilation) :
    c.ChangesWithin groups (c.enter ws topic) := by
  cases topic with
  | nothing => exact refl groups c
  | keys tables =>
    have hlayer : .layer ∈ groups := h
    exact { refl groups c with tables := fun hnot => absurd hlayer hnot }
  | actions name settings =>
    have hmacros : .macros ∈ groups := h
    exact { refl groups c with
      macros := fun hnot => absurd hmacros hnot
      macroItems := extends_defineMacro c.macros name settings }
  | lighting name layers =>
    have hlighting : .lighting ∈ groups := h
    have hmacros : (c.light ws name layers).macros = c.macros := macros_light ws c name layers
    exact {
      tables := fun _ => tables_light ws c name layers
      referenced := fun _ => congrArg Registry.referenced hmacros
      macros := fun _ => congrArg Registry.items hmacros
      effects := fun hnot => absurd hlighting hnot
      macroItems := hmacros ▸ .refl _
      effectItems := extends_light ws c name layers
      macroOrder := hmacros ▸ List.prefix_refl _
      effectOrder := referenced_prefix_light ws c name layers
      published := published_light ws c name layers }

theorem fillLine {topic : Topic} (h : topic.AllowedIn groups) (c : Compilation) (line : Text) :
    c.ChangesWithin groups (c.fillLine topic line) := by
  cases topic with
  | nothing => exact refl groups c
  | lighting name layers => exact refl groups c
  | keys tables =>
    have hlayer : .layer ∈ groups := h
    simp only [Compilation.fillLine, bindLine]
    cases Binding.ofLine? line with
    | none => exact refl groups c
    | some b =>
      have hitems : (c.macros.refer b.calls).items = c.macros.items := Registry.items_refer ..
      exact { refl groups c with
        tables := fun hnot => absurd hlayer hnot
        referenced := fun hnot => absurd hlayer hnot
        macros := fun _ => hitems
        macroItems := hitems ▸ .refl _
        macroOrder := c.macros.referenced_prefix_refer b.calls }
  | actions name settings =>
    have hmacros : .macros ∈ groups := h
    change c.ChangesWithin groups (c.actLine name line)
    unfold actLine
    split
    · split
      · exact { refl groups c with }
      · exact { refl groups c with
          macros := fun hnot => absurd hmacros hnot
          macroItems := .modify _ name (fun _ => rfl) fun _ => rfl }
    · exact refl groups c

/-- Where the cursor is and which layers are dark is another matter. -/
theorem framed {c c' : Compilation} (h : c.ChangesWithin groups c') (cursor : Option Cursor)
    (lightsOff : LightsOff) : c.ChangesWithin groups (c'.framed cursor lightsOff) :=
  { h with }

theorem foldl_fillLine {topic : Topic} (h : topic.AllowedIn groups) (c : Compilation)
    (lines : List Text) :
    c.ChangesWithin groups (lines.foldl (fun c line => c.fillLine topic line) c) := by
  induction lines generalizing c with
  | nil => exact refl groups c
  | cons line lines ih => exact (fillLine h c line).trans (ih _)

theorem build (ws : Workspace) (c : Compilation) (b : Block) :
    c.ChangesWithin groups (c.build ws groups b) :=
  (enter (b.topic.allowedIn_within groups) ws c).trans
    (foldl_fillLine (b.topic.allowedIn_within groups) _ b.content)

theorem foldl_build (ws : Workspace) (c : Compilation) (blocks : List Block) :
    c.ChangesWithin groups (blocks.foldl (Compilation.build ws groups) c) := by
  induction blocks generalizing c with
  | nil => exact refl groups c
  | cons b blocks ih => exact (build ws c b).trans (ih _)

end ChangesWithin

/-- A compilation between requests: its registries are sound, and it shows no more than they
hold. -/
structure Consistent (c : Compilation) : Prop extends Sound c where
  shownMacros : c.publishedMacros ≤ c.macros.items.size
  shownEffects : c.publishedEffects ≤ c.effects.items.size

theorem ChangesWithin.shown {groups : List GroupKind} {c c' : Compilation}
    (h : c.ChangesWithin groups c')
    (hshown : c.publishedMacros ≤ c.macros.items.size ∧
      c.publishedEffects ≤ c.effects.items.size) :
    c'.publishedMacros ≤ c'.macros.items.size ∧ c'.publishedEffects ≤ c'.effects.items.size := by
  rw [h.published.1, h.published.2]
  exact ⟨hshown.1.trans h.macroItems.size_le, hshown.2.trans h.effectItems.size_le⟩

theorem kept_shown (ws : Workspace) :
    Kept ws fun c => c.publishedMacros ≤ c.macros.items.size ∧
      c.publishedEffects ≤ c.effects.items.size := by
  have hallowed (topic : Topic) : topic.AllowedIn [.layer, .macros, .lighting] := by
    cases topic <;> simp [Topic.AllowedIn]
  refine ⟨⟨le_rfl, le_rfl⟩, fun _ _ _ => id, fun _ _ => id, ?_, ?_, ?_, ?_⟩
  · intro c topic _
    exact (ChangesWithin.enter (hallowed topic) ws c).shown
  · intro c topic line _
    exact (ChangesWithin.fillLine (hallowed topic) c line).shown
  · intro c name _ hshown
    simpa only [Registry.items_reference] using hshown
  · intro c _ _
    simp [published, OrderedMap.mapValues, OrderedMap.size]

/-- Compilations are consistent whatever they were asked for. -/
theorem runAll_consistent (ws : Workspace) (requests : List Request) :
    ∃ c, Request.runAll ws requests = .ok c ∧ c.Consistent := by
  obtain ⟨c, hrun, hsound, hmacros, heffects⟩ := (kept_shown ws).runAll requests
  exact ⟨c, hrun, ⟨hsound, hmacros, heffects⟩⟩

/-- What a pass for groups of some kinds leaves as it was. -/
structure KeepsOutside (groups : List GroupKind) (c c' : Compilation) : Prop where
  tables : .layer ∉ groups → c'.profile.tables = c.profile.tables
  referenced : .layer ∉ groups → c'.macros.referenced = c.macros.referenced
  macros : .macros ∉ groups → c'.macros.items = c.macros.items ∧
    c'.profile.macros = c.profile.macros
  effects : .lighting ∉ groups → c'.effects = c.effects ∧ c'.profile.effects = c.profile.effects
  /-- Items keep their ids, and new ones have none. -/
  itemIds : ∀ name,
    (c'.macros.get? name).bind Macro.id = (c.macros.get? name).bind Macro.id ∧
      (c'.effects.get? name).bind Lighting.Effect.id = (c.effects.get? name).bind Lighting.Effect.id
  /-- Names keep the ids that they were given. -/
  nameIds : c.macros.referenced <+: c'.macros.referenced ∧
    c.effects.referenced <+: c'.effects.referenced
  /-- The profile shows the same macros, though the actions and settings may be others. -/
  shownMacros : (c'.profile.macros.mapValues fun _ => Macro.bare) =
    c.profile.macros.mapValues fun _ => Macro.bare
  /-- It shows the same effects, though they may be attached to other layers. -/
  shownEffects : (c'.profile.effects.mapValues fun _ => Lighting.Effect.bare) =
    c.profile.effects.mapValues fun _ => Lighting.Effect.bare
  /-- What it shows are items of the registries. -/
  shownItems : c'.profile.macros.entries <+: c'.macros.items.entries ∧
    c'.profile.effects.entries <+: c'.effects.items.entries
  everywhere : c.lightsOff.everywhere = true → c'.lightsOff.everywhere = true
  layers : ∀ layer, c.lightsOff.layers.contains layer = true →
    c'.lightsOff.layers.contains layer = true

/-- Lighting that is off stays off. -/
theorem foldl_turnOff_keeps (off : LightsOff) (arguments : List (Option (List Text))) :
    (off.everywhere = true → (arguments.foldl LightsOff.turnOff off).everywhere = true) ∧
      ∀ layer, off.layers.contains layer = true →
        (arguments.foldl LightsOff.turnOff off).layers.contains layer = true := by
  induction arguments generalizing off with
  | nil => exact ⟨id, fun _ => id⟩
  | cons first rest ih =>
    obtain ⟨heverywhere, hlayers⟩ := ih (off.turnOff first)
    cases first with
    | none => exact ⟨fun _ => heverywhere rfl, hlayers⟩
    | some texts =>
      refine ⟨heverywhere, fun layer hlayer => hlayers layer ?_⟩
      simp only [LightsOff.turnOff, LayerSet.contains_foldl_insert, hlayer, Bool.or_true]

theorem ChangesWithin.keepsOutside {groups : List GroupKind} {c c' : Compilation}
    (h : c.ChangesWithin groups c') (hc : c.Consistent) (cursor : Option Cursor)
    (arguments : List (Option (List Text))) :
    c.KeepsOutside groups
      (c'.framed cursor (arguments.foldl LightsOff.turnOff c.lightsOff)) where
  tables := h.tables
  referenced := h.referenced
  macros := by
    intro hmacros
    refine ⟨h.macros hmacros, ?_⟩
    change c'.macros.items.take c'.publishedMacros = c.macros.items.take c.publishedMacros
    rw [h.macros hmacros, h.published.1]
  effects := by
    intro hlighting
    refine ⟨h.effects hlighting, ?_⟩
    change c'.effects.items.take c'.publishedEffects = c.effects.items.take c.publishedEffects
    rw [h.effects hlighting, h.published.2]
  itemIds name := ⟨h.macroItems.ids name, h.effectItems.ids name⟩
  nameIds := ⟨h.macroOrder, h.effectOrder⟩
  shownMacros := by
    change ((c'.macros.items.take c'.publishedMacros).mapValues fun _ => Macro.bare) = _
    rw [h.published.1]
    exact h.macroItems.take_eq hc.shownMacros
  shownEffects := by
    change ((c'.effects.items.take c'.publishedEffects).mapValues fun _ =>
      Lighting.Effect.bare) = _
    rw [h.published.2]
    exact h.effectItems.take_eq hc.shownEffects
  shownItems := ⟨List.take_prefix .., List.take_prefix ..⟩
  everywhere := (foldl_turnOff_keeps c.lightsOff arguments).1
  layers := (foldl_turnOff_keeps c.lightsOff arguments).2

end Compilation

/-- A pass touches only what its groups allow. Whatever a compilation was asked for, it is
consistent; and from any consistent compilation, a pass for groups of any kinds over any lines
succeeds and leaves alone what belongs to other groups: key tables and references to macros, macros
with their settings and actions, effects. No id changes, the profile shows the macros and effects
that it showed, and lighting that is off stays off. -/
theorem pass_keeps_outside (ws : Workspace) :
    (∀ requests, ∃ c, Request.runAll ws requests = .ok c ∧ c.Consistent) ∧
      ∀ c : Compilation, c.Consistent → ∀ groups lines,
        ∃ c', c.compilePass ws groups lines = .ok c' ∧ c.KeepsOutside groups c' := by
  refine ⟨Compilation.runAll_consistent ws, ?_⟩
  intro c hc groups lines
  obtain ⟨cursor, hpass⟩ := Compilation.compilePass_eq hc.toSound ws groups (Outline.ofLines lines)
  rw [Outline.lines_ofLines] at hpass
  have hblocks : c.ChangesWithin groups
      ((Outline.ofLines lines).blocks.foldl (Compilation.build ws groups) c) :=
    .foldl_build ws c _
  exact ⟨_, hpass, hblocks.keepsOutside hc (some cursor) (Outline.ofLines lines).darkArguments⟩

/-- A pass for key tables over a text that was compiled: it binds a key of the second table and
passes over the new header and the further line of the macro, which keeps its actions and its id.
What is dark gets more. -/
theorem pass_keeps_outside_layer :
    ∃ c c', Request.runAll {} [.compile (["[Macro(M,7)]", "press: A", "[Base]", "B: Macro(M)",
        "[NoLighting(Layer1)]"].map String.toList)] = .ok c ∧ c.Consistent ∧
      c.compilePass {} [.layer] (["[Macro(M,5)]", "down: C", "[FnBase]", "A: B",
        "[NoLighting]"].map String.toList) = .ok c' ∧
      c'.profile.macros = c.profile.macros ∧
      (c'.macros.get? "M".toList).bind Macro.id = (c.macros.get? "M".toList).bind Macro.id ∧
      (c'.profile.tables.get? ⟨.base, true⟩).isSome = true ∧
      c'.lightsOff.layers.contains .layer1 = true := by
  obtain ⟨hrequests, hpass⟩ := pass_keeps_outside {}
  obtain ⟨c, hrun, hc⟩ := hrequests [.compile (["[Macro(M,7)]", "press: A", "[Base]",
    "B: Macro(M)", "[NoLighting(Layer1)]"].map String.toList)]
  obtain ⟨c', hread, hkept⟩ := hpass c hc [.layer] (["[Macro(M,5)]", "down: C", "[FnBase]", "A: B",
    "[NoLighting]"].map String.toList)
  have hdark : (Request.runAll {} [.compile (["[Macro(M,7)]", "press: A", "[Base]", "B: Macro(M)",
      "[NoLighting(Layer1)]"].map String.toList)]).toOption.map
        (·.lightsOff.layers.contains .layer1) = some true := by
    decide +kernel
  have htable : ((Request.runAll {} [.compile (["[Macro(M,7)]", "press: A", "[Base]",
      "B: Macro(M)", "[NoLighting(Layer1)]"].map String.toList)]).toOption.bind fun c =>
        (c.compilePass {} [.layer] (["[Macro(M,5)]", "down: C", "[FnBase]", "A: B",
          "[NoLighting]"].map String.toList)).toOption).map
            (fun c => (c.profile.tables.get? ⟨.base, true⟩).isSome) = some true := by
    decide +kernel
  rw [hrun] at hdark
  simp only [hrun, Except.toOption, Option.bind_some, hread, Option.map_some,
    Option.some_inj] at htable
  refine ⟨c, c', hrun, hc, hread, (hkept.macros (by decide)).2, (hkept.itemIds _).1, htable, ?_⟩
  exact hkept.layers .layer1 (Option.some_inj.mp hdark)

/-- What is shown can change in a later pass: a header gives another delay to a macro that was
shown. -/
theorem pass_revises_shown :
    ¬∀ (ws : Workspace) (requests : List Request) (groups : List GroupKind) (lines : List Text)
        (c c' : Compilation), Request.runAll ws requests = .ok c →
      c.compilePass ws groups lines = .ok c' → c'.profile.macros = c.profile.macros := by
  intro hall
  obtain ⟨c, hrun, hc⟩ := Compilation.runAll_consistent {} [.compile ["[Macro(M)]".toList]]
  obtain ⟨cursor, hpass⟩ := Compilation.compilePass_eq hc.toSound {} [.macros]
    (Outline.ofLines ["[Macro(M,5)]".toList])
  rw [Outline.lines_ofLines] at hpass
  have hsame := hall {} _ _ _ c _ hrun hpass
  have hbefore : (Request.runAll {} [.compile ["[Macro(M)]".toList]]).toOption.map
      (fun c => c.profile.macros.values.map (·.settings.defaultDelay)) = some [0] := by
    decide +kernel
  have hafter : ((Request.runAll {} [.compile ["[Macro(M)]".toList]]).toOption.bind fun c =>
      (c.compilePass {} [.macros] ["[Macro(M,5)]".toList]).toOption).map
        (fun c => c.profile.macros.values.map (·.settings.defaultDelay)) = some [5] := by
    decide +kernel
  simp only [hrun, Except.toOption, Option.map_some, Option.some_inj] at hbefore
  simp only [hrun, hpass, Except.toOption, Option.bind_some, Option.map_some,
    Option.some_inj] at hafter
  rw [hsame, hbefore] at hafter
  exact absurd hafter (by decide)

end KeyProfile

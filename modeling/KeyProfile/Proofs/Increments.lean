import KeyProfile.Proofs.Independence
import KeyProfile.Proofs.LightingMeaning

/-!
Text in instalments. A compilation can go on with more text that starts with a header. What the
registries hold then depends on all blocks so far and not on how they came in (`Built`). It is the
keys bound so far that can make a difference: they were bound before the macros of the later text
were known. If none of them calls such a macro, keys come out as in the whole text (`keys_congr`),
and so does the profile (`Built.profile_congr`).
-/

namespace KeyProfile

/-- Maps that agree after a change of their values still do so after another. -/
theorem OrderedMap.mapValues_congr {κ α β γ : Type} [DecidableEq κ] {m n : OrderedMap κ α}
    (f : α → β) (g : κ → β → γ) (hkeys : m.keys = n.keys)
    (hget : ∀ k, (m.get? k).map f = (n.get? k).map f) :
    (m.mapValues fun k a => g k (f a)) = n.mapValues fun k a => g k (f a) := by
  apply ext_keys
  · rw [keys_mapValues, keys_mapValues, hkeys]
  · intro k
    have hsame := congrArg (Option.map (g k)) (hget k)
    rw [Option.map_map, Option.map_map] at hsame
    rw [get?_mapValues, get?_mapValues]
    exact hsame

/-- The macro before it has an id. -/
def Macro.unnumbered (m : Macro) : Macro := { m with id := none }

namespace Registry

theorem idOf?_congr {α β : Type} {r : Registry α} {s : Registry β}
    (h : r.referenced = s.referenced) : r.idOf? = s.idOf? := by
  funext name
  rw [idOf?, idOf?, h]

/-- Registries that gave ids to the same names give them the same values. -/
theorem macroValue?_congr {α β : Type} {r : Registry α} {s : Registry β}
    (h : r.referenced = s.referenced) : r.macroValue? = s.macroValue? := by
  funext name
  rw [macroValue?, macroValue?, idOf?_congr h]

/-- The registry of macros that blocks make, whether or not the macros were told their ids. -/
structure MergedBy (r : Registry Macro) (blocks : List Block) : Prop where
  keys : r.items.keys = (definedMacros blocks).eraseDups
  items : ∀ name, (r.items.get? name).map Macro.unnumbered = merged blocks name

namespace MergedBy

variable {r : Registry Macro} {blocks : List Block}

theorem defines_iff (h : r.MergedBy blocks) (name : Text) :
    r.defines name = true ↔ name ∈ definedMacros blocks := by
  rw [defines, ← OrderedMap.mem_keys_iff, h.keys, List.mem_eraseDups]

theorem congr {s : Registry Macro} (h : r.MergedBy blocks) (hitems : s.items = r.items) :
    s.MergedBy blocks :=
  ⟨hitems ▸ h.keys, hitems ▸ h.items⟩

end MergedBy

end Registry

namespace Compilation

/-- One block more in a first pass. -/
theorem mergedBy_build {c : Compilation} {blocks : List Block} (h : c.macros.MergedBy blocks)
    (ws : Workspace) (b : Block) :
    (c.build ws firstPass b).macros.MergedBy (blocks ++ [b]) where
  keys := by
    have hdefined : definedMacros (blocks ++ [b]) =
        definedMacros blocks ++ b.macroName?.toList := by
      unfold definedMacros
      rw [List.filterMap_append]
      cases hname : b.macroName? <;> simp [hname]
    rw [keys_build_firstPass, h.keys, hdefined]
    cases b.macroName? with
    | none => rw [Option.toList_none, List.append_nil]
    | some name =>
      rw [Option.toList_some, eraseDups_concat]
      simp only [List.mem_eraseDups]
  items := by
    intro name
    rw [get?_build_firstPass, merged_concat, ← h.items]
    split
    · cases c.macros.items.get? name <;> rfl
    · rfl

/-- What blocks come to in a compilation that read them for macros and effects, keys apart. -/
structure Built (c : Compilation) (ws : Workspace) (blocks : List Block) : Prop where
  sound : c.Sound
  macros : c.macros.MergedBy blocks
  effects : c.Lit ws blocks

namespace Built

variable {c d : Compilation} {ws : Workspace} {blocks : List Block}

theorem start (ws : Workspace) : Built {} ws [] :=
  ⟨sound_start, ⟨rfl, fun _ => rfl⟩, .start ws⟩

theorem foldl_firstPass (h : c.Built ws blocks) (more : List Block) :
    (more.foldl (build ws Compilation.firstPass) c).Built ws (blocks ++ more) where
  sound := h.sound.foldl_build ws _ more
  macros := by
    induction more using List.reverseRecOn with
    | nil => simpa using h.macros
    | append_singleton more b ih =>
      rw [List.foldl_append, ← List.append_assoc]
      exact mergedBy_build ih ws b
  effects := h.effects.foldl_firstPass more

theorem foldl_secondPass (h : c.Built ws blocks) (others : List Block) :
    (others.foldl (build ws Compilation.secondPass) c).Built ws blocks where
  sound := h.sound.foldl_build ws _ others
  macros := h.macros.congr (items_foldl_secondPass ws c others)
  effects := h.effects.foldl_secondPass others

theorem framed (h : c.Built ws blocks) (cursor : Option Cursor) (lightsOff : LightsOff) :
    (c.framed cursor lightsOff).Built ws blocks :=
  ⟨h.sound.framed cursor lightsOff, h.macros, h.effects.framed cursor lightsOff⟩

theorem published (h : c.Built ws blocks) : (c.published.record c.report).Built ws blocks where
  sound := h.sound.published.record _
  macros := by
    constructor
    · exact (OrderedMap.keys_mapValues ..).trans h.macros.keys
    · intro name
      change ((c.macros.items.mapValues _).get? name).map _ = _
      rw [OrderedMap.get?_mapValues, Option.map_map]
      exact h.macros.items name
  effects := h.effects.published

/-- What was built of the same blocks shows the same profile, if the keys are bound and numbered
alike. -/
theorem profile_congr (hc : c.Built ws blocks) (hd : d.Built ws blocks)
    (htables : c.tables = d.tables) (hreferenced : c.macros.referenced = d.macros.referenced)
    (hdark : c.lightsOff = d.lightsOff) : c.published.profile = d.published.profile := by
  have hmacros : c.published.profile.macros = d.published.profile.macros := by
    have hkeys := hc.macros.keys.trans hd.macros.keys.symm
    have hitems := fun name => (hc.macros.items name).trans (hd.macros.items name).symm
    rw [macros_published, macros_published, ← Registry.idOf?_congr hreferenced]
    exact OrderedMap.mapValues_congr Macro.unnumbered
      (fun name m => { m with id := (c.macros.idOf? name).map Int.ofNat }) hkeys hitems
  have heffects : c.published.profile.effects = d.published.profile.effects := by
    have hlit := hc.effects.effects
    have hlit' := hd.effects.effects
    have hkeys := hlit.keys.trans hlit'.keys.symm
    have hitems := fun name => (hlit.items name).trans (hlit'.items name).symm
    have hused := hlit.referenced.trans hlit'.referenced.symm
    rw [effects_published, effects_published, ← Registry.idOf?_congr hused]
    exact OrderedMap.mapValues_congr Lighting.Effect.unnumbered
      (fun name e => { e with id := (c.effects.idOf? name).map Int.ofNat }) hkeys hitems
  calc
    c.published.profile =
        ⟨c.tables, c.published.profile.macros, c.published.profile.effects, c.lightsOff⟩ := rfl
    _ = ⟨d.tables, d.published.profile.macros, d.published.profile.effects, d.lightsOff⟩ := by
      rw [htables, hmacros, heffects, hdark]
    _ = d.published.profile := rfl

end Built

/-- What a second pass does to the keys depends on the tables, on the names that were referred to,
and on which of the macros it calls are defined. -/
theorem secondPass_congr {c d : Compilation} (hc : c.Sound) (hd : d.Sound)
    (htables : c.tables = d.tables) (hreferenced : c.macros.referenced = d.macros.referenced)
    {blocks : List Block}
    (hdefines : ∀ name ∈ calledMacros blocks, c.macros.defines name = d.macros.defines name)
    (ws : Workspace) :
    (blocks.foldl (build ws secondPass) c).tables =
        (blocks.foldl (build ws secondPass) d).tables ∧
      (blocks.foldl (build ws secondPass) c).macros.referenced =
        (blocks.foldl (build ws secondPass) d).macros.referenced := by
  have hlimit : c.macros.limit = d.macros.limit := hc.macros.limit.trans hd.macros.limit.symm
  have hreferred : (blocks.foldl (build ws secondPass) c).macros.referenced =
      (blocks.foldl (build ws secondPass) d).macros.referenced := by
    rw [macros_foldl_secondPass, macros_foldl_secondPass]
    exact Registry.referenced_refer_congr hreferenced hlimit hdefines
  refine ⟨?_, hreferred⟩
  apply KeyTables.ext_get?
  intro ref
  rw [tables_foldl_secondPass, tables_foldl_secondPass, htables,
    Registry.macroValue?_congr hreferred]

/-- Keys come out alike whether they are read once both texts defined their macros, or those of the
first before the second is known, as long as they call none that only the second defines. -/
theorem keys_congr {ws : Workspace} {blocks more : List Block}
    (hcalls : ∀ name ∈ calledMacros blocks, name ∈ definedMacros more → name ∈ definedMacros blocks)
    {c : Compilation} (hbuilt : c.Built ws blocks)
    (htables : c.tables = (twoPasses ws blocks).tables)
    (hreferenced : c.macros.referenced = (twoPasses ws blocks).macros.referenced) :
    (more.foldl (build ws secondPass) (more.foldl (build ws firstPass) c)).tables =
        (twoPasses ws (blocks ++ more)).tables ∧
      (more.foldl (build ws secondPass) (more.foldl (build ws firstPass) c)).macros.referenced =
        (twoPasses ws (blocks ++ more)).macros.referenced := by
  have hfirst : Built (blocks.foldl (build ws firstPass) {}) ws blocks :=
    (Built.start ws).foldl_firstPass blocks
  have hboth := hfirst.foldl_firstPass more
  -- the keys of the first text, with its own macros and with all of them
  obtain ⟨hkeep, hkeep'⟩ :=
    foldl_firstPass_keeps ws (blocks.foldl (build ws firstPass) {}) more
  have hdefines : ∀ name ∈ calledMacros blocks,
      (more.foldl (build ws firstPass) (blocks.foldl (build ws firstPass) {})).macros.defines name =
        (blocks.foldl (build ws firstPass) {}).macros.defines name := by
    intro name hname
    rw [Bool.eq_iff_iff, hboth.macros.defines_iff, hfirst.macros.defines_iff, definedMacros,
      List.filterMap_append, List.mem_append]
    exact ⟨fun h => h.elim id (hcalls name hname), Or.inl⟩
  obtain ⟨hearly, hearly'⟩ := secondPass_congr hboth.sound hfirst.sound hkeep hkeep' hdefines ws
  -- the keys of the second text, after those of the first
  obtain ⟨hlate, hlate'⟩ := foldl_firstPass_keeps ws c more
  have hmiddle := hbuilt.foldl_firstPass more
  have hread := hboth.foldl_secondPass blocks
  have hsame : ∀ name ∈ calledMacros more,
      (more.foldl (build ws firstPass) c).macros.defines name =
        (blocks.foldl (build ws secondPass) (more.foldl (build ws firstPass)
          (blocks.foldl (build ws firstPass) {}))).macros.defines name := by
    intro name _
    rw [Bool.eq_iff_iff, hmiddle.macros.defines_iff, hread.macros.defines_iff]
  have hend := secondPass_congr hmiddle.sound hread.sound
    ((hlate.trans htables).trans hearly.symm) ((hlate'.trans hreferenced).trans hearly'.symm)
    hsame ws
  unfold twoPasses
  rw [List.foldl_append, List.foldl_append]
  exact hend

end Compilation

/-- Turning lighting off twice for each of two texts. -/
theorem LightsOff.foldl_turnOff_twice (off : LightsOff)
    (arguments more : List (Option (List Text))) :
    more.foldl turnOff (more.foldl turnOff
        (arguments.foldl turnOff (arguments.foldl turnOff off))) =
      (arguments ++ more).foldl turnOff ((arguments ++ more).foldl turnOff off) := by
  have hperm : (arguments ++ (arguments ++ (more ++ more))).Perm
      (arguments ++ (more ++ (arguments ++ more))) := by
    apply List.Perm.append_left
    rw [← List.append_assoc, ← List.append_assoc]
    exact List.perm_append_comm.append_right more
  have hturned := foldl_turnOff_perm off hperm
  simpa only [List.foldl_append] using hturned

/-- Text may be compiled in instalments. If the second starts with a header, or is empty, and no key
of the first calls a macro that only the second defines, then compiling the one and the other shows
the profile that compiling all at once shows, for every keyboard and whatever effect files there
are. -/
theorem compile_increments (ws : Workspace) (first second : List Text)
    (hcut : ∀ line ∈ second.head?, isHeader line = true)
    (hcalls : ∀ name ∈ calledMacros (Outline.ofLines first).blocks,
      name ∈ definedMacros (Outline.ofLines second).blocks →
        name ∈ definedMacros (Outline.ofLines first).blocks) :
    ∃ c c' d, compile ws first = .ok c ∧ Compilation.compile ws second c = .ok c' ∧
      compile ws (first ++ second) = .ok d ∧ c'.profile = d.profile := by
  set o := Outline.ofLines first with ho
  set o' := Outline.ofLines second with ho'
  have hwhole : Outline.ofLines (first ++ second) = { o with blocks := o.blocks ++ o'.blocks } :=
    Outline.ofLines_append_header hcut
  -- all at once
  obtain ⟨d, cursor, hall, hd⟩ := compile_eq ws (Outline.ofLines (first ++ second))
  rw [Outline.lines_ofLines] at hall
  -- the first text
  obtain ⟨c, cursor', hfirst, hc⟩ := compile_eq ws o
  rw [ho, Outline.lines_ofLines] at hfirst
  have hbuilt : (c.published.record c.report).Built ws o.blocks := by
    rw [hc]
    exact ((((Compilation.Built.start ws).foldl_firstPass o.blocks).foldl_secondPass
      o.blocks).framed _ _).published
  -- the second
  obtain ⟨c', cursor'', hsecond, hc'⟩ := hbuilt.sound.compile_eq ws o'
  rw [ho', Outline.lines_ofLines] at hsecond
  have htables : (c.published.record c.report).tables =
      (Compilation.twoPasses ws o.blocks).tables := by
    rw [hc]
    rfl
  have hreferenced : (c.published.record c.report).macros.referenced =
      (Compilation.twoPasses ws o.blocks).macros.referenced := by
    rw [hc]
    rfl
  obtain ⟨hkeys, hnumbers⟩ := Compilation.keys_congr hcalls hbuilt htables hreferenced
  have hdark : c.lightsOff =
      o.darkArguments.foldl LightsOff.turnOff (o.darkArguments.foldl LightsOff.turnOff {}) := by
    rw [hc]
    rfl
  refine ⟨_, _, _, hfirst, hsecond, hall, ?_⟩
  change c'.published.profile = d.published.profile
  have hbuilt' : c'.Built ws (o.blocks ++ o'.blocks) := by
    rw [hc']
    exact ((hbuilt.foldl_firstPass o'.blocks).foldl_secondPass o'.blocks).framed _ _
  have hbuilt'' : d.Built ws (o.blocks ++ o'.blocks) := by
    rw [hd, hwhole]
    exact (((Compilation.Built.start ws).foldl_firstPass _).foldl_secondPass _).framed _ _
  apply hbuilt'.profile_congr hbuilt''
  · rw [hc', hd, hwhole]
    exact hkeys
  · rw [hc', hd, hwhole]
    exact hnumbers
  · have hturned := LightsOff.foldl_turnOff_twice {} o.darkArguments o'.darkArguments
    rw [hc', hd, hwhole]
    change o'.darkArguments.foldl LightsOff.turnOff
      (o'.darkArguments.foldl LightsOff.turnOff c.lightsOff) = _
    rw [hdark, hturned, Compilation.framed, Outline.darkArguments, Outline.darkArguments,
      ← List.flatMap_append]
    rfl

/-- The second text changes a macro that keys of the first call, and adds another. -/
theorem compile_increments_paste :
    ∃ c c' d,
      compile {} (["[Base]", "F2: Macro(Copy)", "[Macro(Copy)]", "press: LCtrl+C"].map
        String.toList) = .ok c ∧
      Compilation.compile {} (["[Macro(Copy,20)]", "up: V", "[Macro(Paste)]", "[NoLighting(Base)]",
        "[FnBase]", "F2: Macro(Paste)"].map String.toList) c = .ok c' ∧
      compile {} (["[Base]", "F2: Macro(Copy)", "[Macro(Copy)]", "press: LCtrl+C",
        "[Macro(Copy,20)]", "up: V", "[Macro(Paste)]", "[NoLighting(Base)]", "[FnBase]",
        "F2: Macro(Paste)"].map String.toList) = .ok d ∧
      c'.profile = d.profile := by
  have hcut : ∀ line ∈ (["[Macro(Copy,20)]", "up: V", "[Macro(Paste)]", "[NoLighting(Base)]",
      "[FnBase]", "F2: Macro(Paste)"].map String.toList).head?, isHeader line = true := by
    decide +kernel
  exact compile_increments {}
    (["[Base]", "F2: Macro(Copy)", "[Macro(Copy)]", "press: LCtrl+C"].map String.toList)
    (["[Macro(Copy,20)]", "up: V", "[Macro(Paste)]", "[NoLighting(Base)]", "[FnBase]",
      "F2: Macro(Paste)"].map String.toList) hcut (by decide +kernel)

end KeyProfile

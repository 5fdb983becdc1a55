import KeyProfile.Proofs.EffectUses

/-!
Lighting effects of a compiled text. The first pass makes of the headers what their uses of effects
come to, and loads nothing twice (`Lit.build_firstPass`); the second pass leaves effects alone. A
finalization numbers the effects by their places (`getElem?_effects`). A header
whose effect cannot be loaded, whenever it is read, changes nothing but the cursor and the log
(`head_unlit`).
-/

namespace KeyProfile

/-- What was loaded so far, in order. -/
def Compilation.loads (c : Compilation) : List Lighting.Effect := c.log.filterMap LogRecord.loaded?

/-- A complaint about a call tells of nothing loaded. -/
theorem Registry.loaded?_complaint {α : Type} (r : Registry α) (key : Int) (name : Text) :
    (r.complaint? key name).bind LogRecord.loaded? = none := by
  unfold complaint?
  split
  · rfl
  · split <;> rfl

theorem effectUses_concat (blocks : List Block) (b : Block) :
    effectUses (blocks ++ [b]) = effectUses blocks ++ (effectUseOf? b.header).toList := by
  unfold effectUses
  rw [List.filterMap_append]
  cases huse : effectUseOf? b.header <;> simp [huse]

namespace Compilation

/-- Lines of a body load nothing. -/
theorem effects_fillLine (c : Compilation) (topic : Topic) (line : Text) :
    (c.fillLine topic line).effects = c.effects ∧ (c.fillLine topic line).loads = c.loads := by
  cases topic with
  | nothing => exact ⟨rfl, rfl⟩
  | lighting name layers => exact ⟨rfl, rfl⟩
  | keys tables =>
    simp only [fillLine, bindLine]
    cases Binding.ofLine? line with
    | none => exact ⟨rfl, rfl⟩
    | some b =>
      refine ⟨rfl, ?_⟩
      simp [loads, bindIn, List.filterMap_filterMap, Registry.loaded?_complaint]
  | actions name settings =>
    simp only [fillLine, actLine]
    split
    · split
      · exact ⟨rfl, by simp [loads, record, LogRecord.loaded?]⟩
      · exact ⟨rfl, rfl⟩
    · exact ⟨rfl, rfl⟩

theorem effects_foldl_fillLine (c : Compilation) (topic : Topic) (lines : List Text) :
    (lines.foldl (fun c line => c.fillLine topic line) c).effects = c.effects ∧
      (lines.foldl (fun c line => c.fillLine topic line) c).loads = c.loads := by
  induction lines generalizing c with
  | nil => exact ⟨rfl, rfl⟩
  | cons line lines ih =>
    obtain ⟨heffects, hloads⟩ := effects_fillLine c topic line
    obtain ⟨heffects', hloads'⟩ := ih (c.fillLine topic line)
    exact ⟨heffects'.trans heffects, hloads'.trans hloads⟩

/-- A block whose header uses no effect in a pass leaves all effects alone. -/
theorem effects_build {groups : List GroupKind} {b : Block}
    (hunlit : ∀ name layers, b.topic.within groups ≠ .lighting name layers) (ws : Workspace)
    (c : Compilation) :
    (c.build ws groups b).effects = c.effects ∧ (c.build ws groups b).loads = c.loads := by
  obtain ⟨heffects, hloads⟩ := effects_foldl_fillLine (c.enter ws (b.topic.within groups))
    (b.topic.within groups) b.content
  refine ⟨heffects.trans ?_, hloads.trans ?_⟩
  · cases htopic : b.topic.within groups with
    | lighting name layers => exact absurd htopic (hunlit name layers)
    | _ => rfl
  · cases htopic : b.topic.within groups with
    | lighting name layers => exact absurd htopic (hunlit name layers)
    | _ => rfl

/-- The effects are what the headers of blocks make of them, each loaded once. -/
structure Lit (c : Compilation) (ws : Workspace) (blocks : List Block) : Prop where
  effects : c.effects.LitBy ws (effectUses blocks)
  loads : c.loads = (litNames ws (effectUses blocks)).filterMap ws.effect?

namespace Lit

variable {c : Compilation} {ws : Workspace} {blocks : List Block}

theorem start (ws : Workspace) : Lit {} ws [] := ⟨.start ws, rfl⟩

/-- One block more in a first pass. -/
theorem build_firstPass (h : c.Lit ws blocks) (b : Block) :
    (c.build ws Compilation.firstPass b).Lit ws (blocks ++ [b]) := by
  cases huse : effectUseOf? b.header with
  | none =>
    have hunlit : ∀ name layers, b.topic.within Compilation.firstPass ≠ .lighting name layers := by
      intro name layers hwithin
      have htopic : b.topic = .lighting name layers := by
        cases htopic : b.topic <;> simp_all [Topic.within, Compilation.firstPass]
      have hsome := (effectUseOf?_eq_some_iff b.header ⟨name, layers⟩).mpr htopic
      rw [huse] at hsome
      cases hsome
    obtain ⟨heffects, hloads⟩ := effects_build hunlit ws c
    have huses : effectUses (blocks ++ [b]) = effectUses blocks := by
      rw [effectUses_concat, huse, Option.toList_none, List.append_nil]
    constructor
    · rw [heffects, huses]
      exact h.effects
    · rw [hloads, huses]
      exact h.loads
  | some use =>
    have htopic : b.topic = .lighting use.name use.layers := (effectUseOf?_eq_some_iff ..).mp huse
    have huses : effectUses (blocks ++ [b]) = effectUses blocks ++ [use] := by
      rw [effectUses_concat, huse, Option.toList_some]
    rw [build_lighting htopic]
    constructor
    · rw [effects_light, huses]
      exact h.effects.use use
    · refine (log_light ws c use).trans ?_
      rw [← Compilation.loads, h.loads, huses, litNames_concat]
      simp only [h.effects.defines_iff]
      cases heffect : ws.effect? use.name with
      | none => simp
      | some effect =>
        by_cases hin : use.name ∈ litNames ws (effectUses blocks) <;> simp [hin, heffect]

theorem foldl_firstPass (h : c.Lit ws blocks) (more : List Block) :
    (more.foldl (build ws Compilation.firstPass) c).Lit ws (blocks ++ more) := by
  induction more using List.reverseRecOn with
  | nil => simpa using h
  | append_singleton more b ih =>
    rw [List.foldl_append, ← List.append_assoc]
    exact ih.build_firstPass b

theorem foldl_secondPass (h : c.Lit ws blocks) (others : List Block) :
    (others.foldl (build ws Compilation.secondPass) c).Lit ws blocks := by
  induction others generalizing c with
  | nil => exact h
  | cons b others ih =>
    have hunlit : ∀ name layers, b.topic.within Compilation.secondPass ≠ .lighting name layers := by
      intro name layers
      cases b.topic <;> simp [Topic.within, Compilation.secondPass]
    obtain ⟨heffects, hloads⟩ := effects_build hunlit ws c
    exact ih ⟨heffects ▸ h.effects, hloads ▸ h.loads⟩

end Lit

theorem lit_twoPasses (ws : Workspace) (blocks : List Block) :
    (twoPasses ws blocks).Lit ws blocks :=
  ((Lit.start ws).foldl_firstPass blocks).foldl_secondPass blocks

/-- A finalization shows all effects there are, each with the id that its name has. -/
theorem effects_published (c : Compilation) :
    c.published.profile.effects = c.effects.items.mapValues fun name e =>
      { e with id := (c.effects.idOf? name).map Int.ofNat } := by
  unfold profile OrderedMap.take
  ext1
  exact List.take_of_length_le (Nat.le_of_eq (List.length_map ..))

/-- A finalization reports of nothing loaded. -/
theorem loads_report (c : Compilation) : (c.published.record c.report).loads = c.loads := by
  have hnone : c.report.filterMap LogRecord.loaded? = [] := by
    unfold report
    split <;> rfl
  unfold loads record
  rw [List.filterMap_append, hnone, List.append_nil]
  rfl

end Compilation

theorem Compilation.contains_attach (layers : List Text) (effect : Lighting.Effect)
    (layer : Layer) :
    (attach layers effect).layers.contains layer = true ↔
      (∃ text ∈ layers, Layer.ofText? text = some layer) ∨ effect.layers.contains layer = true := by
  unfold attach
  rw [LayerSet.contains_foldl_insert, Bool.or_eq_true, decide_eq_true_iff, List.mem_filterMap]

theorem mem_attachedTo_iff (uses : List EffectUse) (name text : Text) :
    text ∈ attachedTo uses name ↔ ∃ use ∈ uses, use.name = name ∧ text ∈ use.layers := by
  simp [attachedTo, and_assoc]

namespace Compilation

theorem Lit.framed {c : Compilation} {ws : Workspace} {blocks : List Block} (h : c.Lit ws blocks)
    (cursor : Option Cursor) (lightsOff : LightsOff) : (c.framed cursor lightsOff).Lit ws blocks :=
  ⟨h.effects, h.loads⟩

/-- A finalization tells the effects their ids and nothing else. -/
theorem Lit.published {c : Compilation} {ws : Workspace} {blocks : List Block}
    (h : c.Lit ws blocks) : (c.published.record c.report).Lit ws blocks where
  effects := by
    refine ⟨h.effects.limit, ?_, h.effects.referenced, ?_⟩
    · exact (OrderedMap.keys_mapValues ..).trans h.effects.keys
    · intro name
      change ((c.effects.items.mapValues _).get? name).map _ = _
      rw [OrderedMap.get?_mapValues, Option.map_map]
      exact h.effects.items name
  loads := (loads_report c).trans h.loads

/-- The effect at a place: what was loaded, attached to the layers of all uses, the place its id. -/
theorem getElem?_effects {ws : Workspace} {c : Compilation} {uses : List EffectUse}
    (hlit : c.effects.LitBy ws uses) {i : Nat} {name : Text} {effect : Lighting.Effect}
    (hat : c.published.profile.effects.entries[i]? = some (name, effect)) :
    ∃ loaded, ws.effect? name = some loaded ∧
      effect = { attach (attachedTo uses name) loaded with id := some (i : Int) } := by
  rw [effects_published] at hat
  simp only [OrderedMap.mapValues, List.getElem?_map] at hat
  obtain ⟨⟨name, item⟩, hentry, hpair⟩ := Option.map_eq_some_iff.mp hat
  cases hpair
  have hplace : c.effects.referenced[i]? = some name := by
    rw [hlit.referenced, ← hlit.keys, OrderedMap.keys, List.getElem?_map, hentry]
    rfl
  have hnodup : c.effects.referenced.Nodup := by
    rw [hlit.referenced, ← hlit.keys]
    exact c.effects.items.nodup_keys
  have hid : c.effects.idOf? name = some i := by
    obtain ⟨hlt, rfl⟩ := List.getElem?_eq_some_iff.mp hplace
    exact (Registry.idOf?_eq_some_iff ..).mpr ⟨List.getElem_mem hlt, hnodup.idxOf_getElem i hlt⟩
  have hget := (c.effects.items.mem_entries_iff name item).mp (List.mem_of_getElem? hentry)
  have hitem := hlit.items name
  rw [hget, Option.map_some, lit] at hitem
  split at hitem
  · obtain ⟨loaded, hloaded, hsame⟩ := Option.map_eq_some_iff.mp hitem.symm
    refine ⟨loaded, hloaded, ?_⟩
    rw [hsame, hid]
    rfl
  · cases hitem

/-- Whoever is earlier has the smaller id. -/
theorem pairwise_effects {ws : Workspace} {c : Compilation} {uses : List EffectUse}
    (hlit : c.effects.LitBy ws uses) :
    c.published.profile.effects.values.Pairwise fun e e' =>
      ∃ id id', e.id = some id ∧ e'.id = some id' ∧ id < id' := by
  have hid : ∀ (i : Nat) effect, c.published.profile.effects.values[i]? = some effect →
      effect.id = some (i : Int) := by
    intro i effect hat
    rw [OrderedMap.values, List.getElem?_map] at hat
    obtain ⟨⟨name, effect⟩, hentry, rfl⟩ := Option.map_eq_some_iff.mp hat
    obtain ⟨loaded, -, heffect⟩ := getElem?_effects hlit hentry
    exact congrArg Lighting.Effect.id heffect
  rw [List.pairwise_iff_getElem]
  intro i j hi hj hlt
  refine ⟨i, j, hid i _ (List.getElem?_eq_getElem hi), hid j _ (List.getElem?_eq_getElem hj), ?_⟩
  omega

/-- No effect is there that cannot be loaded. -/
theorem kept_loadable (ws : Workspace) :
    Kept ws fun c => ∀ name, c.effects.defines name = true → (ws.effect? name).isSome = true where
  start := by
    intro name hdefined
    cases hdefined
  framed := fun c cursor lightsOff h => h
  record := fun c records h => h
  enter := by
    intro c topic _ h name hdefined
    cases topic with
    | nothing => exact h name hdefined
    | keys tables => exact h name hdefined
    | actions opened settings => exact h name hdefined
    | lighting opened layers =>
      change (c.light ws opened layers).effects.defines name = true at hdefined
      rw [effects_light ws c ⟨opened, layers⟩, Registry.defines, OrderedMap.contains,
        get?_useEffect] at hdefined
      split at hdefined
      · cases hitem : c.effects.items.get? name with
        | some item => exact h name (by simp [Registry.defines, OrderedMap.contains, hitem])
        | none => simpa [hitem] using hdefined
      · exact h name hdefined
  fillLine := by
    intro c topic line _ h
    rwa [(effects_fillLine c topic line).1]
  reference := fun c name _ h => h
  published := by
    intro c _ h name hdefined
    apply h
    rw [Registry.defines, OrderedMap.contains] at hdefined ⊢
    rwa [published, OrderedMap.get?_mapValues, Option.isSome_map] at hdefined

/-- A header whose effect cannot be loaded leaves the profile and the registries as they are. -/
theorem head_unlit {ws : Workspace} {c : Compilation} {header : Text} {use : EffectUse}
    (huse : effectUseOf? header = some use) (hnew : c.effects.defines use.name = false)
    {failure : Lighting.LoadFailure}
    (hload : Lighting.load ws.keyboard ws.files ws.dataRoot use.name = .error failure)
    (groups : List GroupKind) :
    (c.head ws groups header).profile = c.profile ∧
      (c.head ws groups header).macros = c.macros ∧
      (c.head ws groups header).effects = c.effects := by
  have htopic := (effectUseOf?_eq_some_iff ..).mp huse
  have hdark : darkArgumentsOf header = [] := by
    obtain ⟨-, kind, hkind, hline⟩ := (topicOf_eq_lighting_iff ..).mp htopic
    simp [darkArgumentsOf, hline, GroupHeader.darkArguments, hkind]
  have hlight : c.light ws use.name use.layers = c.record [.effectFailed use.name failure] := by
    simp [light, hnew, hload]
  unfold head
  rw [htopic, hdark, Topic.within]
  split
  · rw [enter, hlight]
    exact ⟨rfl, rfl, rfl⟩
  · exact ⟨rfl, rfl, rfl⟩

end Compilation

/-- The effects of a compiled text. -/
theorem compile_lights (ws : Workspace) (lines : List Text) :
    ∃ c, compile ws lines = .ok c ∧
      c.profile.effects =
        (Compilation.twoPasses ws (Outline.ofLines lines).blocks).published.profile.effects ∧
      c.loads = (Compilation.twoPasses ws (Outline.ofLines lines).blocks).loads := by
  obtain ⟨c, cursor, hcompile, hc⟩ := compile_eq ws (Outline.ofLines lines)
  rw [Outline.lines_ofLines] at hcompile
  refine ⟨_, hcompile, ?_, ?_⟩
  · rw [hc]
    rfl
  · rw [Compilation.loads_report, hc]
    rfl

/-- Lighting effects mean what the text says. The effects of a profile are the distinct names used
whose files can be loaded, in the order of first use. Each has its place for an id, belongs to the
layers that any of the headers of its name lists, and is otherwise as it was loaded, which happened
once. The effects of a layer are listed in increasing order of ids. A header whose effect cannot be
loaded may come after whatever a compilation was asked for, so also between any two lines of a pass:
it leaves the profile and both registries as they are. -/
theorem lighting_meaning (ws : Workspace) (lines : List Text) :
    ∃ c, compile ws lines = .ok c ∧
      c.profile.effects.keys = litNames ws (effectUses (Outline.ofLines lines).blocks) ∧
      (∀ (i : Nat) name effect, c.profile.effects.entries[i]? = some (name, effect) →
        ∃ loaded, Lighting.load ws.keyboard ws.files ws.dataRoot name = .ok loaded ∧
          effect = { loaded with id := some (i : Int), layers := effect.layers } ∧
          ∀ layer, effect.layers.contains layer = true ↔
            ∃ use ∈ effectUses (Outline.ofLines lines).blocks, use.name = name ∧
              ∃ text ∈ use.layers, Layer.ofText? text = some layer) ∧
      c.log.filterMap LogRecord.loaded? = c.profile.effects.keys.filterMap ws.effect? ∧
      (∀ layer,
        (∀ effect, effect ∈ c.profile.effectsOf layer ↔
          effect ∈ c.profile.effects.values ∧ effect.layers.contains layer = true) ∧
        (c.profile.effectsOf layer).Pairwise fun e e' =>
          ∃ id id', e.id = some id ∧ e'.id = some id' ∧ id < id') ∧
      ∀ (earlier : List Request) (groups : List GroupKind) header use failure,
        isHeader header = true → effectUseOf? header = some use →
        Lighting.load ws.keyboard ws.files ws.dataRoot use.name = .error failure →
        ∃ before next, Request.runAll ws earlier = .ok before ∧
          Compilation.compileLine ws groups before header = .ok next ∧
          next.profile = before.profile ∧ next.macros = before.macros ∧
          next.effects = before.effects := by
  obtain ⟨c, hcompile, heffects, hloads⟩ := compile_lights ws lines
  obtain ⟨hlit, honce⟩ := Compilation.lit_twoPasses ws (Outline.ofLines lines).blocks
  have hkeys : c.profile.effects.keys =
      litNames ws (effectUses (Outline.ofLines lines).blocks) := by
    rw [heffects, Compilation.effects_published, OrderedMap.keys_mapValues, hlit.keys]
  refine ⟨c, hcompile, hkeys, ?_, ?_, ?_, ?_⟩
  · intro i name effect hat
    rw [heffects] at hat
    obtain ⟨loaded, hsome, rfl⟩ := Compilation.getElem?_effects hlit hat
    have hload := Workspace.load_of_effect? hsome
    refine ⟨loaded, hload, rfl, ?_⟩
    intro layer
    have hnone : loaded.layers.contains layer = false := by
      rw [(Lighting.blank_load hload).1]
      exact PerLayer.get_const false layer
    rw [Compilation.contains_attach, hnone]
    simp only [mem_attachedTo_iff, Bool.false_eq_true, or_false]
    constructor
    · rintro ⟨text, ⟨use, huse, hname, htext⟩, hlayer⟩
      exact ⟨use, huse, hname, text, htext, hlayer⟩
    · rintro ⟨use, huse, hname, text, htext, hlayer⟩
      exact ⟨text, ⟨use, huse, hname, htext⟩, hlayer⟩
  · rw [hkeys, ← honce, ← hloads]
    rfl
  · intro layer
    refine ⟨fun effect => List.mem_filter, ?_⟩
    rw [Profile.effectsOf, heffects]
    exact (Compilation.pairwise_effects hlit).filter _
  · intro earlier groups header use failure hheader huse hload
    obtain ⟨before, hearlier, -, hloadable⟩ := (Compilation.kept_loadable ws).runAll earlier
    have hnew : before.effects.defines use.name = false := by
      cases hdefined : before.effects.defines use.name with
      | false => rfl
      | true =>
        have hsome := hloadable use.name hdefined
        simp [Workspace.effect?, hload, Except.toOption] at hsome
    exact ⟨before, _, hearlier, Compilation.compileLine_header ws groups before hheader,
      Compilation.head_unlit huse hnew hload groups⟩

/-- One file is there and another is missing: the header in lower case names the first again, and
the missing one leaves no trace after the text either. -/
theorem lighting_meaning_wave :
    ∃ (ws : Workspace) (c before next : Compilation),
      ws.files.read "lighting/Wave.le".toList = .octets [0x7B, 0x7D] ∧
      compile ws (["[Lighting(Gone,Base)]", "[Lighting(Wave,Base)]",
        "[lighting( Wave, Layer1, Top )]"].map String.toList) = .ok c ∧
      c.profile.effects.keys = ["Wave".toList] ∧
      Request.runAll ws [.compile (["[Lighting(Wave,Base)]"].map String.toList)] = .ok before ∧
      Compilation.compileLine ws Compilation.firstPass before "[Lighting(Gone)]".toList = .ok next ∧
      next.effects = before.effects := by
  set ws : Workspace :=
    { files := { read := fun path =>
        if path = "lighting/Wave.le".toList then .octets [0x7B, 0x7D] else .absent } } with hws
  obtain ⟨c, hcompile, hkeys, -, -, -, hfails⟩ := lighting_meaning ws
    (["[Lighting(Gone,Base)]", "[Lighting(Wave,Base)]",
      "[lighting( Wave, Layer1, Top )]"].map String.toList)
  have hnames : litNames ws (effectUses (Outline.ofLines (["[Lighting(Gone,Base)]",
      "[Lighting(Wave,Base)]", "[lighting( Wave, Layer1, Top )]"].map String.toList)).blocks) =
      ["Wave".toList] := by decide +kernel
  have hload : Lighting.load ws.keyboard ws.files ws.dataRoot "Gone".toList =
      .error (.notFound "lighting/Gone.le".toList) := by rfl
  obtain ⟨before, next, hbefore, hnext, -, -, hsame⟩ := hfails
    [.compile (["[Lighting(Wave,Base)]"].map String.toList)] Compilation.firstPass
    "[Lighting(Gone)]".toList ⟨"Gone".toList, []⟩ _ (by decide +kernel) (by rfl) hload
  exact ⟨ws, c, before, next, rfl, hcompile, hkeys.trans hnames, hbefore, hnext, hsame⟩

end KeyProfile

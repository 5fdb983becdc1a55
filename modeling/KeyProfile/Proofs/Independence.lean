import KeyProfile.Proofs.TableMeaning

/-!
The parts of a text do not interfere. Key tables, the ids of macros and the number of macros that a
layer uses depend on the blocks that list tables, and on which of the macros called there are
defined. Macros, their ids apart, depend on the blocks that open macros. Keyboards, effect files and
all other blocks may differ as they like.
-/

namespace KeyProfile

/-- The blocks of a text that list a key table. -/
def keyBlocks (lines : List Text) : List Block :=
  (Outline.ofLines lines).blocks.filter Block.opensTable

/-- The blocks of a text that open a macro. -/
def macroBlocks (lines : List Text) : List Block :=
  (Outline.ofLines lines).blocks.filter fun b => b.macroName?.isSome

/-- The names of the macros that keys call, in the order of the calls. -/
def calledMacros (blocks : List Block) : List Text := (allBindings blocks).flatMap Binding.calls

/-- The names of the macros that headers define, in the order of the headers. -/
def definedMacros (blocks : List Block) : List Text := blocks.filterMap Block.macroName?

namespace OrderedMap

variable {κ α β γ : Type}

/-- A map is its keys in order and what is found under each. -/
theorem ext_keys [DecidableEq κ] {m n : OrderedMap κ α} (hkeys : m.keys = n.keys)
    (hget : ∀ k, m.get? k = n.get? k) : m = n := by
  have hlength : m.entries.length = n.entries.length := by
    simpa [keys] using congrArg List.length hkeys
  apply OrderedMap.ext
  apply List.ext_getElem hlength
  intro i hm hn
  have hkey : m.entries[i].1 = n.entries[i].1 := by
    have hat := congrArg (·[i]?) hkeys
    simpa [keys, hm, hn] using hat
  have hfound := (m.mem_entries_iff m.entries[i].1 m.entries[i].2).mp (List.getElem_mem hm)
  have hfound' := (n.mem_entries_iff n.entries[i].1 n.entries[i].2).mp (List.getElem_mem hn)
  rw [hget, hkey, hfound', Option.some_inj] at hfound
  exact Prod.ext hkey hfound.symm

theorem mapValues_mapValues (f : κ → α → β) (g : κ → β → γ) (m : OrderedMap κ α) :
    (m.mapValues f).mapValues g = m.mapValues fun k a => g k (f k a) := by
  apply OrderedMap.ext
  simp [mapValues]

end OrderedMap

theorem KeyTables.ext_get? {tables others : KeyTables}
    (h : ∀ ref, tables.get? ref = others.get? ref) : tables = others := by
  have hplain : tables.plain = others.plain :=
    PerLayer.ext_get fun layer => h ⟨layer, false⟩
  have hfn : tables.fn = others.fn :=
    PerLayer.ext_get fun layer => h ⟨layer, true⟩
  cases tables
  cases others
  cases hplain
  cases hfn
  rfl

/-- Only blocks that list tables bind keys in one. -/
theorem bindingsIn_filter (blocks : List Block) (ref : TableRef) :
    bindingsIn (blocks.filter Block.opensTable) ref = bindingsIn blocks ref := by
  unfold bindingsIn
  rw [List.filter_filter]
  congr 1
  apply List.filter_congr
  intro b _
  cases hopens : b.opensTable with
  | true => simp
  | false => simp [Block.tables_of_not_opensTable hopens]

theorem tables_filter (blocks : List Block) :
    (blocks.filter Block.opensTable).flatMap Block.tables = blocks.flatMap Block.tables := by
  induction blocks with
  | nil => rfl
  | cons b blocks ih =>
    cases hopens : b.opensTable with
    | true => rw [List.filter_cons_of_pos hopens, List.flatMap_cons, List.flatMap_cons, ih]
    | false =>
      rw [List.filter_cons_of_neg (by simp [hopens]), List.flatMap_cons, ih,
        Block.tables_of_not_opensTable hopens, List.nil_append]

section KeyBlocks

variable {blocks others : List Block}
  (htables : blocks.filter Block.opensTable = others.filter Block.opensTable)
  (hdefined : ∀ name ∈ calledMacros blocks,
    name ∈ definedMacros blocks ↔ name ∈ definedMacros others)

include htables hdefined

/-- The ranking of macros needs to know of a macro that is called only whether it is defined. -/
theorem ranking_congr : ranking blocks = ranking others := by
  have hcalls : calledMacros blocks = calledMacros others := by
    unfold calledMacros allBindings
    rw [htables]
  change ((calledMacros blocks).filter (definedMacros blocks).contains).eraseDups =
    ((calledMacros others).filter (definedMacros others).contains).eraseDups
  rw [← hcalls]
  congr 1
  apply List.filter_congr
  intro name hname
  rw [Bool.eq_iff_iff, List.contains_iff_mem, List.contains_iff_mem]
  exact hdefined name hname

theorem tables_twoPasses_congr (ws ws' : Workspace) :
    (Compilation.twoPasses ws blocks).tables = (Compilation.twoPasses ws' others).tables := by
  have hword : macroWord? blocks = macroWord? others := by
    unfold macroWord?
    rw [ranking_congr htables hdefined]
  apply KeyTables.ext_get?
  intro ref
  rw [Compilation.tables_twoPasses, Compilation.tables_twoPasses, hword, ← tables_filter blocks,
    ← bindingsIn_filter blocks, htables, tables_filter, bindingsIn_filter]

theorem idOf?_twoPasses_congr (ws ws' : Workspace) (name : Text) :
    (Compilation.twoPasses ws blocks).macros.idOf? name =
      (Compilation.twoPasses ws' others).macros.idOf? name := by
  unfold Registry.idOf?
  rw [Compilation.referenced_twoPasses, Compilation.referenced_twoPasses,
    ranking_congr htables hdefined]

end KeyBlocks

section MacroBlocks

variable {blocks others : List Block}

theorem definedMacros_filter (blocks : List Block) :
    definedMacros (blocks.filter fun b => b.macroName?.isSome) = definedMacros blocks := by
  unfold definedMacros
  rw [List.filterMap_filter]
  congr 1
  funext b
  cases b.macroName? <;> rfl

theorem merged_filter (blocks : List Block) (name : Text) :
    merged (blocks.filter fun b => b.macroName?.isSome) name = merged blocks name := by
  have hown : (blocks.filter fun b => b.macroName?.isSome).filter
        (fun b => b.macroName? == some name) =
      blocks.filter fun b => b.macroName? == some name := by
    rw [List.filter_filter]
    apply List.filter_congr
    intro b _
    cases b.macroName? <;> simp
  unfold merged
  rw [hown]

/-- The macros of two texts with the same blocks for them are the same. -/
theorem items_twoPasses_congr
    (hmacros : (blocks.filter fun b => b.macroName?.isSome) =
      others.filter fun b => b.macroName?.isSome) (ws ws' : Workspace) :
    (Compilation.twoPasses ws blocks).macros.items =
      (Compilation.twoPasses ws' others).macros.items := by
  obtain ⟨hkeys, hget⟩ := Compilation.macros_firstPass ws blocks
  obtain ⟨hkeys', hget'⟩ := Compilation.macros_firstPass ws' others
  rw [Compilation.items_twoPasses, Compilation.items_twoPasses]
  apply OrderedMap.ext_keys
  · rw [hkeys, hkeys']
    change (definedMacros blocks).eraseDups = (definedMacros others).eraseDups
    rw [← definedMacros_filter blocks, hmacros, definedMacros_filter]
  · intro name
    rw [hget, hget', ← merged_filter blocks, hmacros, merged_filter]

end MacroBlocks

/-- The parts of a text do not interfere. Compile two texts, for any keyboards and with any effect
files. If the blocks that list key tables are the same, and the macros called there are defined in
both texts or in neither, then all key tables are the same, a macro defined in both has the same id
in both, and every layer uses the same number of macros. If the blocks that open macros are the
same, then so are the macros in everything but their ids. -/
theorem parts_independent (ws ws' : Workspace) (lines lines' : List Text) :
    ∃ c c', compile ws lines = .ok c ∧ compile ws' lines' = .ok c' ∧
      (keyBlocks lines = keyBlocks lines' →
        (∀ name ∈ calledMacros (keyBlocks lines),
          name ∈ definedMacros (Outline.ofLines lines).blocks ↔
            name ∈ definedMacros (Outline.ofLines lines').blocks) →
        c.profile.tables = c'.profile.tables ∧
        (∀ name m m', c.profile.macros.get? name = some m →
          c'.profile.macros.get? name = some m' → m.id = m'.id) ∧
        ∀ layer, c.profile.macroCount layer = c'.profile.macroCount layer) ∧
      (macroBlocks lines = macroBlocks lines' →
        c.profile.macros.mapValues (fun _ m => { m with id := none }) =
          c'.profile.macros.mapValues fun _ m => { m with id := none }) := by
  obtain ⟨c, hcompile, htables, hmacros⟩ := compile_shows ws lines
  obtain ⟨c', hcompile', htables', hmacros'⟩ := compile_shows ws' lines'
  refine ⟨c, c', hcompile, hcompile', ?_, ?_⟩
  · intro hsame hdefined
    have hcalled : calledMacros (keyBlocks lines) =
        calledMacros (Outline.ofLines lines).blocks := by
      unfold calledMacros allBindings keyBlocks
      rw [List.filter_filter]
      simp
    rw [hcalled] at hdefined
    have hequal : c.profile.tables = c'.profile.tables := by
      rw [htables, htables']
      exact tables_twoPasses_congr hsame hdefined ws ws'
    refine ⟨hequal, ?_, ?_⟩
    · intro name m m' hm hm'
      rw [hmacros, Compilation.macros_published, OrderedMap.get?_mapValues] at hm
      rw [hmacros', Compilation.macros_published, OrderedMap.get?_mapValues] at hm'
      obtain ⟨before, -, rfl⟩ := Option.map_eq_some_iff.mp hm
      obtain ⟨before', -, rfl⟩ := Option.map_eq_some_iff.mp hm'
      exact congrArg (Option.map Int.ofNat) (idOf?_twoPasses_congr hsame hdefined ws ws' name)
    · intro layer
      unfold Profile.macroCount Profile.macroIds
      rw [hequal]
  · intro hsame
    rw [hmacros, hmacros', Compilation.macros_published, Compilation.macros_published,
      OrderedMap.mapValues_mapValues, OrderedMap.mapValues_mapValues,
      items_twoPasses_congr hsame ws ws']

/-- Another body for the macro that has an id, one that nobody calls, another keyboard and no
lighting: the tables stay. Another place for the header of a macro, with more layers: the macro
stays. -/
theorem parts_independent_copy :
    (∃ c c',
      compile {} (["[Base]", "F2: Macro(Copy)", "F3: Macro(Paste)", "[Macro(Copy)]",
        "press: LCtrl+C"].map String.toList) = .ok c ∧
      compile { keyboard := .ofKeys 0 [(0x02002900, some 7)] } (["[Macro(Copy,20)]", "down: A",
        "[NoLighting]", "[Base]", "F2: Macro(Copy)", "F3: Macro(Paste)",
        "[Macro(Cut)]"].map String.toList) = .ok c' ∧
      c.profile.tables = c'.profile.tables) ∧
    ∃ c c',
      compile {} (["[Base]", "F2: Macro(Copy)", "F3: Macro(Paste)", "[Macro(Copy)]",
        "press: LCtrl+C"].map String.toList) = .ok c ∧
      compile { dataRoot := "data".toList } (["[Macro(Copy)]", "press: LCtrl+C", "[Layer1]",
        "F9: Macro(Copy)"].map String.toList) = .ok c' ∧
      c.profile.macros.mapValues (fun _ m => { m with id := none }) =
        c'.profile.macros.mapValues fun _ m => { m with id := none } := by
  constructor
  · obtain ⟨c, c', hcompile, hcompile', htables, -⟩ := parts_independent {}
      { keyboard := .ofKeys 0 [(0x02002900, some 7)] }
      (["[Base]", "F2: Macro(Copy)", "F3: Macro(Paste)", "[Macro(Copy)]",
        "press: LCtrl+C"].map String.toList)
      (["[Macro(Copy,20)]", "down: A", "[NoLighting]", "[Base]", "F2: Macro(Copy)",
        "F3: Macro(Paste)", "[Macro(Cut)]"].map String.toList)
    exact ⟨c, c', hcompile, hcompile', (htables (by decide +kernel) (by decide +kernel)).1⟩
  · obtain ⟨c, c', hcompile, hcompile', -, hmacros⟩ := parts_independent {}
      { dataRoot := "data".toList }
      (["[Base]", "F2: Macro(Copy)", "F3: Macro(Paste)", "[Macro(Copy)]",
        "press: LCtrl+C"].map String.toList)
      (["[Macro(Copy)]", "press: LCtrl+C", "[Layer1]", "F9: Macro(Copy)"].map String.toList)
    exact ⟨c, c', hcompile, hcompile', hmacros (by decide +kernel)⟩

end KeyProfile

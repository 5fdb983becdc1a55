import KeyProfile.Proofs.HeaderText
import KeyProfile.Proofs.Increments
import KeyProfile.Proofs.WireFormat

/-!
Key tables written down. A table is written as the header of its name and a line for every entry,
both words by their names. Each line binds its key to its word and calls no macro
(`Binding.ofLine?_written`), so two passes over the text make the tables and nothing else
(`twoPasses_written`).
-/

namespace KeyProfile

open DriverValue

/-- The line that binds a key, both words by their names. -/
def writtenLine (key v : Int) : Text :=
  SymbolTable.standard.nameOf key ++ ": ".toList ++ SymbolTable.standard.nameOf v

/-- The lines that bind the keys of a table, in its order. -/
def KeyTable.written (t : KeyTable) : List Text := t.entries.map fun e => writtenLine e.1 e.2

/-- Tables written down one after another, under the names given. -/
def writtenTables (nameOf : TableRef → Text) (assignment : OrderedMap TableRef KeyTable) :
    List Text :=
  assignment.entries.flatMap fun e => headerOf (nameOf e.1) :: e.2.written

section WrittenLine

variable {key v : Int} (hkey : IsWord key) (hv : IsWord v)

include hkey hv

theorem strip_writtenLine : (writtenLine key v).strip = writtenLine key v :=
  (spells_nameOf hkey).plain.strip_append _ (spells_nameOf hv).plain

/-- A written line starts with a letter or digit. -/
theorem writtenLine_plain : isHeader (writtenLine key v) = false ∧
    isComment (writtenLine key v) = false := by
  have hplain := (spells_nameOf hkey).plain
  obtain ⟨first, rest, hname⟩ := List.exists_cons_of_ne_nil hplain.nonempty
  have hhead : (writtenLine key v).head? = some first := by
    rw [writtenLine, hname]
    rfl
  have hfirst : first.isAlphanum = true := hplain.alphanum first (by simp [hname])
  rw [isHeader, isComment, strip_writtenLine hkey hv, hhead]
  constructor
  · apply beq_eq_false_iff_ne.mpr
    rintro ⟨⟩
    cases hfirst
  · apply beq_eq_false_iff_ne.mpr
    rintro ⟨⟩
    cases hfirst

/-- A written line binds the key to the word, and calls no macro. -/
theorem Binding.ofLine?_written (hne : key ≠ 0) :
    ∃ b, Binding.ofLine? (writtenLine key v) = some b ∧ b.key = key ∧ b.calls = [] ∧
      ∀ valueOf, b.value valueOf = v := by
  have hdestination := spells_nameOf hv
  refine ⟨⟨key, [' ' :: SymbolTable.standard.nameOf v], hne⟩, ?_, rfl, ?_, ?_⟩
  · exact (spells_nameOf hkey).ofLine?_line hne (hdestination.plain.notMem (by decide))
      (hdestination.plain.notMem (by decide))
  · exact hdestination.calledNames_blank
  · exact hdestination.evaluate_blank hv

end WrittenLine

/-- The block binds what a table holds in the table of that name, and nothing else. -/
structure Block.Writes (b : Block) (ref : TableRef) (t : KeyTable) : Prop where
  topic : b.topic = .keys [ref]
  lit : b.darkArguments = []
  bindings : ∀ valueOf, b.bindings.map (fun x => (x.key, x.value valueOf)) = t.entries
  calls : ∀ x ∈ b.bindings, x.calls = []

/-- Lines written for entries bind the entries. -/
theorem bindings_written {entries : List (Int × Int)}
    (h : ∀ e ∈ entries, (IsWord e.1 ∧ e.1 ≠ 0) ∧ IsWord e.2) :
    (∀ valueOf, ((entries.map fun e => writtenLine e.1 e.2).filterMap Binding.ofLine?).map
        (fun x => (x.key, x.value valueOf)) = entries) ∧
      ∀ x ∈ (entries.map fun e => writtenLine e.1 e.2).filterMap Binding.ofLine?, x.calls = [] := by
  induction entries with
  | nil => exact ⟨fun _ => rfl, List.forall_mem_nil _⟩
  | cons e entries ih =>
    obtain ⟨⟨⟨hkey, hne⟩, hv⟩, hrest⟩ := List.forall_mem_cons.mp h
    obtain ⟨b, hread, hown, hcalls, hvalue⟩ := Binding.ofLine?_written hkey hv hne
    obtain ⟨hbindings, hnone⟩ := ih hrest
    rw [List.map_cons, List.filterMap_cons_some hread]
    refine ⟨?_, List.forall_mem_cons.mpr ⟨hcalls, hnone⟩⟩
    intro valueOf
    rw [List.map_cons, hbindings, hown, hvalue]

theorem KeyTable.FitsWire.words {t : KeyTable} (h : t.FitsWire) :
    ∀ e ∈ t.entries, (IsWord e.1 ∧ e.1 ≠ 0) ∧ IsWord e.2 := by
  intro e he
  obtain ⟨hkey, hv⟩ := h e.1 e.2 ((t.mem_entries_iff e.1 e.2).mp he)
  unfold IsWord
  omega

/-- The block of a table that was written down. -/
theorem Block.writes_of {b : Block} {name : Text} {ref : TableRef} {t : KeyTable}
    (hname : Directive.ofName name = .table ref) (hfits : t.FitsWire)
    (hheader : b.header = headerOf name) (hbody : b.body = t.written) : b.Writes ref t := by
  have hline : GroupHeader.ofLine? b.header.strip = some ⟨[name], none⟩ := by
    rw [hheader, strip_headerOf]
    exact GroupHeader.ofLine?_headerOf hname
  have hcontent : b.content = t.written := by
    have hread : t.written.filter (!isComment ·) = t.written := by
      rw [List.filter_eq_self]
      intro line hline
      obtain ⟨e, he, rfl⟩ := List.mem_map.mp hline
      obtain ⟨⟨hkey, -⟩, hv⟩ := hfits.words e he
      rw [(writtenLine_plain hkey hv).2]
      rfl
    have hstrip : t.written.map Text.strip = t.written.map id := by
      apply List.map_congr_left
      intro line hline
      obtain ⟨e, he, rfl⟩ := List.mem_map.mp hline
      obtain ⟨⟨hkey, -⟩, hv⟩ := hfits.words e he
      exact strip_writtenLine hkey hv
    rw [Block.content, hbody, hread, hstrip, List.map_id]
  obtain ⟨hbindings, hcalls⟩ := bindings_written hfits.words
  refine ⟨?_, ?_, ?_, ?_⟩
  · simp [Block.topic, topicOf, hline, GroupHeader.topic, GroupHeader.tables, hname,
      Directive.table?, List.eraseDups_cons]
  · simp [Block.darkArguments, darkArgumentsOf, hline, GroupHeader.darkArguments, hname]
  · rw [Block.bindings, hcontent]
    exact hbindings
  · rw [Block.bindings, hcontent]
    exact hcalls

theorem KeyTable.not_isHeader_written {t : KeyTable} (h : t.FitsWire) :
    ∀ line ∈ t.written, isHeader line = false := by
  intro line hline
  obtain ⟨e, he, rfl⟩ := List.mem_map.mp hline
  obtain ⟨⟨hkey, -⟩, hv⟩ := h.words e he
  exact (writtenLine_plain hkey hv).1

/-- Tables that were written down make a block each. -/
theorem Outline.writes_ofLines {nameOf : TableRef → Text}
    (hnames : ∀ ref, Directive.ofName (nameOf ref) = .table ref)
    {entries : List (TableRef × KeyTable)} (hfits : ∀ e ∈ entries, e.2.FitsWire) :
    let o := ofLines (entries.flatMap fun e => headerOf (nameOf e.1) :: e.2.written)
    o.front = [] ∧ List.Forall₂ (fun (b : Block) e => b.Writes e.1 e.2) o.blocks entries := by
  induction entries with
  | nil => exact ⟨rfl, .nil⟩
  | cons e entries ih =>
    obtain ⟨hfirst, hrest⟩ := List.forall_mem_cons.mp hfits
    obtain ⟨hfront, hblocks⟩ := ih hrest
    rw [List.flatMap_cons, List.cons_append, ofLines_section (isHeader_headerOf _)
      (KeyTable.not_isHeader_written hfirst) hfront]
    exact ⟨rfl, .cons (Block.writes_of (hnames e.1) hfirst rfl rfl) hblocks⟩

section Written

variable {blocks : List Block} {entries : List (TableRef × KeyTable)}
  (h : List.Forall₂ (fun (b : Block) e => b.Writes e.1 e.2) blocks entries)

include h

theorem exists_written {b : Block} (hb : b ∈ blocks) : ∃ e ∈ entries, b.Writes e.1 e.2 := by
  induction h with
  | nil => cases hb
  | @cons first e _ _ hfirst _ ih =>
    rcases List.mem_cons.mp hb with rfl | hin
    · exact ⟨e, List.mem_cons_self, hfirst⟩
    · obtain ⟨e', he', hwrites⟩ := ih hin
      exact ⟨e', List.mem_cons_of_mem _ he', hwrites⟩

theorem tables_written : blocks.flatMap Block.tables = entries.map Prod.fst := by
  induction h with
  | nil => rfl
  | @cons b e _ _ hfirst _ ih =>
    have htables : b.tables = [e.1] := by rw [Block.tables, hfirst.topic]; rfl
    rw [List.flatMap_cons, htables, ih]
    rfl

/-- The bindings of a table are those of its own block. -/
theorem bindingsIn_written (hnodup : (entries.map Prod.fst).Nodup) {ref : TableRef} {t : KeyTable}
    (hin : (ref, t) ∈ entries) (valueOf : Text → Option Int) :
    (bindingsIn blocks ref).map (fun x => (x.key, x.value valueOf)) = t.entries := by
  induction h with
  | nil => cases hin
  | @cons b e blocks entries hfirst hblocks ih =>
    have htables : b.tables = [e.1] := by rw [Block.tables, hfirst.topic]; rfl
    rw [List.map_cons, List.nodup_cons] at hnodup
    rcases List.mem_cons.mp hin with rfl | hrest
    · have hnone : bindingsIn blocks ref = [] := by
        apply bindingsIn_of_notMem
        rw [tables_written hblocks]
        exact hnodup.1
      have hown : bindingsIn (b :: blocks) ref = b.bindings ++ bindingsIn blocks ref := by
        simp [bindingsIn, htables]
      rw [hown, hnone, List.append_nil]
      exact hfirst.bindings valueOf
    · have hne : ref ≠ e.1 := by
        rintro rfl
        exact hnodup.1 (List.mem_map.mpr ⟨(e.1, t), hrest, rfl⟩)
      have hother : bindingsIn (b :: blocks) ref = bindingsIn blocks ref := by
        simp [bindingsIn, htables, hne]
      rw [hother]
      exact ih hnodup.2 hrest

end Written

namespace Compilation

theorem log_foldl_bindIn {bindings : List Binding} (h : ∀ x ∈ bindings, x.calls = [])
    (tables : List TableRef) (c : Compilation) :
    (bindings.foldl (bindIn tables) c).log = c.log := by
  induction bindings generalizing c with
  | nil => rfl
  | cons x bindings ih =>
    obtain ⟨hfirst, hrest⟩ := List.forall_mem_cons.mp h
    rw [List.foldl_cons, ih hrest]
    simp [bindIn, hfirst]

/-- Keys that call no macro leave nothing to tell. -/
theorem log_foldl_secondPass {blocks : List Block}
    (h : ∀ b ∈ blocks, ∀ x ∈ b.bindings, x.calls = []) (ws : Workspace) (c : Compilation) :
    (blocks.foldl (build ws secondPass) c).log = c.log := by
  induction blocks generalizing c with
  | nil => rfl
  | cons b blocks ih =>
    obtain ⟨hfirst, hrest⟩ := List.forall_mem_cons.mp h
    rw [List.foldl_cons, ih hrest]
    cases hopens : b.opensTable with
    | false => rw [build_of_nothing (within_secondPass hopens)]
    | true =>
      rw [build_keys (Block.topic_of_opensTable hopens), log_foldl_bindIn hfirst]

/-- Blocks that open neither a macro nor an effect leave a first pass as it started. -/
theorem foldl_firstPass_of_tables {blocks : List Block} (h : ∀ b ∈ blocks, b.opensStore = false)
    (ws : Workspace) (c : Compilation) : blocks.foldl (build ws firstPass) c = c := by
  have hnone : blocks.filter Block.opensStore = [] := by
    rw [List.filter_eq_nil_iff]
    intro b hb
    simp [h b hb]
  rw [foldl_build_eq_filter (fun _ => within_firstPass), hnone]
  rfl

/-- What two passes make of blocks that write tables: the tables, and nothing else. -/
theorem twoPasses_written (ws : Workspace) {blocks : List Block}
    {assignment : OrderedMap TableRef KeyTable}
    (h : List.Forall₂ (fun (b : Block) e => b.Writes e.1 e.2) blocks assignment.entries) :
    (∀ ref, (twoPasses ws blocks).tables.get? ref = assignment.get? ref) ∧
      (twoPasses ws blocks).macros.items = ∅ ∧ (twoPasses ws blocks).effects.items = ∅ ∧
      (twoPasses ws blocks).log = [] := by
  have hstores : ∀ b ∈ blocks, b.opensStore = false := by
    intro b hb
    obtain ⟨e, -, hwrites⟩ := exists_written h hb
    rw [Block.opensStore, hwrites.topic]
  have hquiet : ∀ b ∈ blocks, ∀ x ∈ b.bindings, x.calls = [] := by
    intro b hb
    obtain ⟨e, -, hwrites⟩ := exists_written h hb
    exact hwrites.calls
  have hfirst := foldl_firstPass_of_tables hstores ws {}
  refine ⟨?_, ?_, ?_, ?_⟩
  · intro ref
    rw [tables_twoPasses, tables_written h]
    split
    · next hin =>
      obtain ⟨⟨ref, t⟩, hentry, rfl⟩ := List.mem_map.mp hin
      have hbindings := bindingsIn_written h assignment.nodup_keys hentry (macroWord? blocks)
      have hnodup : ((bindingsIn blocks ref).map Binding.key).Nodup := by
        have hkeys := congrArg (List.map Prod.fst) hbindings
        rw [List.map_map] at hkeys
        exact hkeys ▸ t.nodup_keys
      rw [(assignment.mem_entries_iff ref t).mp hentry]
      congr 1
      apply OrderedMap.ext
      rw [KeyTable.entries_bindAll _ hnodup, hbindings]
    · next hout =>
      cases hget : assignment.get? ref with
      | none => rfl
      | some t =>
        exact absurd (List.mem_map_of_mem ((assignment.mem_entries_iff ref t).mpr hget)) hout
  · rw [items_twoPasses, hfirst]
  · have heffects := ((Lit.start ws).foldl_secondPass blocks).effects.keys
    rw [twoPasses, hfirst]
    exact OrderedMap.ext (List.map_eq_nil_iff.mp heffects)
  · rw [twoPasses, hfirst, log_foldl_secondPass hquiet]

end Compilation

/-- Key tables can be written down and compile back. Take any finite tables of keys and words, for
any of the layers with and without Fn, in any order, and write each as the header of its name, in
any case, and a line for every entry, both words by their names. Compiling gives exactly these
tables, entries in their order, and no macro, effect or layer without lighting. Nothing is worth a
warning. -/
theorem written_tables_compile (ws : Workspace) (nameOf : TableRef → Text)
    (hnames : ∀ ref, Directive.ofName (nameOf ref) = .table ref)
    (assignment : OrderedMap TableRef KeyTable)
    (hfits : ∀ ref t, assignment.get? ref = some t → t.FitsWire) :
    ∃ c, compile ws (writtenTables nameOf assignment) = .ok c ∧
      (∀ ref, c.profile.tables.get? ref = assignment.get? ref) ∧
      c.profile.macros = ∅ ∧ c.profile.effects = ∅ ∧ c.profile.lightsOff = {} ∧
      ∀ record ∈ c.log, record.level.severity < LogLevel.warning.severity := by
  have hentries : ∀ e ∈ assignment.entries, e.2.FitsWire := by
    intro e he
    exact hfits e.1 e.2 ((assignment.mem_entries_iff e.1 e.2).mp he)
  obtain ⟨hfront, hwrites⟩ := Outline.writes_ofLines hnames hentries
  obtain ⟨c, cursor, hcompile, hc⟩ :=
    compile_eq ws (Outline.ofLines (writtenTables nameOf assignment))
  rw [Outline.lines_ofLines] at hcompile
  change List.Forall₂ _ (Outline.ofLines (writtenTables nameOf assignment)).blocks _ at hwrites
  set blocks := (Outline.ofLines (writtenTables nameOf assignment)).blocks with hblocks
  obtain ⟨htables, hmacros, heffects, hlog⟩ := Compilation.twoPasses_written ws hwrites
  have hmacros : c.macros.items = ∅ := by
    rw [hc]
    exact hmacros
  have heffects : c.effects.items = ∅ := by
    rw [hc]
    exact heffects
  have hdark : c.lightsOff = {} := by
    have hnone : (Outline.ofLines (writtenTables nameOf assignment)).darkArguments = [] := by
      rw [Outline.darkArguments, List.flatMap_eq_nil_iff]
      intro b hb
      obtain ⟨e, -, hwrites⟩ := exists_written hwrites hb
      exact hwrites.lit
    rw [hc, hnone]
    rfl
  refine ⟨_, hcompile, ?_, ?_, ?_, hdark, ?_⟩
  · rw [hc]
    exact htables
  · change c.published.profile.macros = ∅
    rw [Compilation.macros_published, hmacros]
    rfl
  · change c.published.profile.effects = ∅
    rw [Compilation.effects_published, heffects]
    rfl
  · have hreport : (c.published.record c.report).log = [.compiled c.published.profile] := by
      have hsilent : c.log = [] := by
        rw [hc]
        exact hlog
      have hfew : c.report = [.compiled c.published.profile] := by
        rw [Compilation.report, heffects]
        rfl
      rw [Compilation.record, hfew]
      change c.log ++ _ = _
      rw [hsilent]
      rfl
    have hlevel : LogLevel.info.severity < LogLevel.warning.severity := by decide
    intro record hrecord
    rw [hreport, List.mem_singleton] at hrecord
    rw [hrecord]
    exact hlevel

/-- A modifier, a mouse button, a stored macro, the word of a key that does nothing, and a table
without entries, under names in upper case. -/
theorem written_tables_compile_upper :
    ∃ c, compile {} (["[FNLAYER3]", "A: LCtrl", "MouseLClick: 0x0A010000", "0x00000001: 0xFFFFFFFF",
        "[BASE]"].map String.toList) = .ok c ∧
      (c.profile.tables.get? ⟨.layer3, true⟩).map (·.entries) =
        some [(0x02000400, 0x02010000), (0x01010001, 0x0A010000), (1, 0xFFFFFFFF)] ∧
      (c.profile.tables.get? ⟨.base, false⟩).map (·.entries) = some [] := by
  obtain ⟨names, hupper⟩ : ∃ names : TableRef → Text, names = fun ref =>
      (if ref.fn then "FN".toList else []) ++ ref.layer.name.map Char.toUpper := ⟨_, rfl⟩
  obtain ⟨assignment, hassignment⟩ : ∃ m : OrderedMap TableRef KeyTable, m =
      ⟨[(⟨.layer3, true⟩,
          ⟨[(0x02000400, 0x02010000), (0x01010001, 0x0A010000), (1, 0xFFFFFFFF)], by decide⟩),
        (⟨.base, false⟩, ∅)], by decide⟩ := ⟨_, rfl⟩
  have hnames : ∀ ref, Directive.ofName (names ref) = .table ref := by
    rintro ⟨layer, fn⟩
    subst hupper
    cases layer <;> cases fn <;> decide
  have hwords : ∀ e ∈ assignment.entries, ∀ b ∈ e.2.entries,
      (1 ≤ b.1 ∧ b.1 ≤ 0xFFFFFFFF) ∧ (0 ≤ b.2 ∧ b.2 ≤ 0xFFFFFFFF) := by
    subst hassignment
    decide
  have hfits : ∀ ref t, assignment.get? ref = some t → t.FitsWire := by
    intro ref t hget key v hbound
    exact hwords (ref, t) ((assignment.mem_entries_iff ref t).mpr hget) (key, v)
      ((t.mem_entries_iff key v).mpr hbound)
  have hlines : writtenTables names assignment = ["[FNLAYER3]", "A: LCtrl",
      "MouseLClick: 0x0A010000", "0x00000001: 0xFFFFFFFF", "[BASE]"].map String.toList := by
    subst hupper hassignment
    decide +kernel
  obtain ⟨c, hcompile, htables, -⟩ := written_tables_compile {} names hnames assignment hfits
  rw [hlines] at hcompile
  refine ⟨c, hcompile, ?_, ?_⟩
  · rw [htables, hassignment]
    rfl
  · rw [htables, hassignment]
    rfl

end KeyProfile

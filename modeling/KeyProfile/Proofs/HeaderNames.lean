import KeyProfile.Proofs.HeaderText
import KeyProfile.Proofs.Increments

/-!
Headers that list several names. Such a header means what a block for each of the names would mean,
with that name alone in its header and the same lines below it. The lines are then read once for
each name instead of once for all: macros keep the ids of their first calls, and keys that are bound
again to what they are bound to stay as they are.
-/

namespace KeyProfile

/-! Lists that repeat. -/

section Repeats

variable {α β : Type}

theorem eraseDups_append_congr [BEq α] [LawfulBEq α] {front front' : List α}
    (h : front.eraseDups = front'.eraseDups) (back : List α) :
    (front ++ back).eraseDups = (front' ++ back).eraseDups := by
  have hmem : back.removeAll front = back.removeAll front' := by
    unfold List.removeAll
    apply List.filter_congr
    intro a _
    have hsame : a ∈ front ↔ a ∈ front' := by
      rw [← List.mem_eraseDups, h, List.mem_eraseDups]
    rw [List.elem_eq_contains, List.elem_eq_contains, Bool.not_inj_iff, Bool.eq_iff_iff,
      List.contains_iff_mem, List.contains_iff_mem]
    exact hsame
  rw [List.eraseDups_append, List.eraseDups_append, h, hmem]

/-- What is there already adds nothing. -/
theorem eraseDups_append_of_subset [BEq α] [LawfulBEq α] {front more : List α}
    (h : ∀ a ∈ more, a ∈ front) : (front ++ more).eraseDups = front.eraseDups := by
  have hnone : more.removeAll front = [] := by
    unfold List.removeAll
    rw [List.filter_eq_nil_iff]
    intro a ha
    simpa using h a ha
  rw [List.eraseDups_append, hnone, List.eraseDups_nil, List.append_nil]

/-- Items that come several times in a row come once. -/
theorem eraseDups_copies [BEq α] [LawfulBEq α] {copies : List β} (h : copies ≠ [])
    (front items back : List α) :
    (front ++ (copies.flatMap fun _ => items) ++ back).eraseDups =
      (front ++ items ++ back).eraseDups := by
  obtain ⟨first, rest, rfl⟩ := List.exists_cons_of_ne_nil h
  apply eraseDups_append_congr
  rw [List.flatMap_cons, ← List.append_assoc]
  apply eraseDups_append_of_subset
  intro a ha
  obtain ⟨-, -, hin⟩ := List.mem_flatMap.mp ha
  exact List.mem_append_right _ hin

theorem find?_reverse_copies {copies : List β} (h : copies ≠ []) (p : α → Bool) (items : List α) :
    (copies.flatMap fun _ => items).reverse.find? p = items.reverse.find? p := by
  induction copies with
  | nil => exact absurd rfl h
  | cons first rest ih =>
    rw [List.flatMap_cons, List.reverse_append, List.find?_append]
    cases rest with
    | nil => rfl
    | cons second others => rw [ih (by simp), Option.or_self]

end Repeats

/-- Binding keys again to what they are bound to changes nothing. -/
theorem KeyTable.bindAll_copies {β : Type} {copies : List β} (h : copies ≠ [])
    (valueOf : Text → Option Int) (front items back : List Binding) :
    bindAll valueOf ∅ (front ++ (copies.flatMap fun _ => items) ++ back) =
      bindAll valueOf ∅ (front ++ items ++ back) := by
  apply OrderedMap.ext_keys
  · rw [keys_bindAll, keys_bindAll]
    simp only [List.map_append, List.map_flatMap]
    exact eraseDups_copies h ..
  · intro key
    rw [get?_bindAll, get?_bindAll]
    simp only [List.reverse_append, List.find?_append, find?_reverse_copies h]

/-! One block for each name. -/

/-- The block with one name for its header. -/
def Block.under (b : Block) (name : Text) : Block where
  header := headerOf name
  body := b.body
  isHeader_header := isHeader_headerOf name
  not_isHeader_body := b.not_isHeader_body

/-- The header lists names and calls nothing. None of the names has anything in it that a header is
cut at. -/
structure Block.Lists (b : Block) (names : List Text) : Prop where
  line : GroupHeader.ofLine? b.header.strip = some ⟨names, none⟩
  names : ∀ name ∈ names, name.strip = name ∧ ',' ∉ name ∧ '(' ∉ name ∧ ']' ∉ name

namespace Block

/-- A header that calls nothing is about the tables it lists. -/
theorem topic_of_line {b : Block} {names : List Text}
    (hline : GroupHeader.ofLine? b.header.strip = some ⟨names, none⟩) :
    b.topic = Topic.ofTables
      (names.filterMap fun name => (Directive.ofName name).table?).eraseDups := by
  rw [topic, topicOf, hline]
  exact Compilation.topic_of_no_subject rfl

theorem line_under {b : Block} {names : List Text} (h : b.Lists names) {name : Text}
    (hname : name ∈ names) (hne : name ≠ []) :
    GroupHeader.ofLine? (b.under name).header.strip = some ⟨[name], none⟩ := by
  obtain ⟨hstrip, hcomma, hopen, hend⟩ := h.names name hname
  rw [under, strip_headerOf]
  exact GroupHeader.ofLine?_headerOf_name hne hstrip hcomma hopen hend

/-- A block under one name is about the table that the name stands for, if it stands for one. -/
theorem topic_under {b : Block} {names : List Text} (h : b.Lists names) {name : Text}
    (hname : name ∈ names) :
    (b.under name).topic = Topic.ofTables (Directive.ofName name).table?.toList := by
  by_cases hne : name = []
  · subst hne
    rfl
  · rw [topic_of_line (line_under h hname hne)]
    cases htable : (Directive.ofName name).table? <;> simp [htable, List.eraseDups_cons]

theorem darkArguments_under {b : Block} {names : List Text} (h : b.Lists names) {name : Text}
    (hname : name ∈ names) :
    (b.under name).darkArguments =
      if Directive.ofName name = .noLighting then [none] else [] := by
  by_cases hne : name = []
  · subst hne
    rfl
  · rw [darkArguments, darkArgumentsOf, line_under h hname hne]
    by_cases hdark : Directive.ofName name = .noLighting <;>
      simp [GroupHeader.darkArguments, hdark]

end Block

theorem allBindings_append (blocks more : List Block) :
    allBindings (blocks ++ more) = allBindings blocks ++ allBindings more := by
  rw [allBindings, List.filter_append, List.flatMap_append]
  rfl

theorem bindingsIn_append (blocks more : List Block) (ref : TableRef) :
    bindingsIn (blocks ++ more) ref = bindingsIn blocks ref ++ bindingsIn more ref := by
  rw [bindingsIn, List.filter_append, List.flatMap_append]
  rfl

theorem Block.opensTable_ofTables {b : Block} {refs : List TableRef}
    (h : b.topic = Topic.ofTables refs) : b.opensTable = !refs.isEmpty := by
  unfold opensTable
  rw [h]
  cases refs <;> rfl

theorem Block.tables_ofTables {b : Block} {refs : List TableRef}
    (h : b.topic = Topic.ofTables refs) : b.tables = refs := by
  rw [tables, h]
  cases refs <;> rfl

section Spread

variable {b : Block} {names : List Text} (h : b.Lists names)

include h

theorem mem_tables_lists (ref : TableRef) :
    ref ∈ b.tables ↔ names.filter (fun name => Directive.ofName name = .table ref) ≠ [] := by
  rw [Block.mem_tables_iff, Block.lists, h.line]
  simp

/-- The lines are read once for each name that stands for a table. -/
theorem allBindings_under :
    allBindings (names.map b.under) =
      (names.filter fun name => (Directive.ofName name).table?.isSome).flatMap
        fun _ => b.bindings := by
  have hopens : (names.map b.under).filter Block.opensTable =
      (names.filter fun name => (Directive.ofName name).table?.isSome).map b.under := by
    rw [List.filter_map]
    congr 1
    apply List.filter_congr
    intro name hname
    rw [Function.comp_apply, Block.opensTable_ofTables (Block.topic_under h hname)]
    cases (Directive.ofName name).table? <;> rfl
  rw [allBindings, hopens, List.flatMap_map]
  rfl

theorem allBindings_lists :
    allBindings [b] =
      if names.filter (fun name => (Directive.ofName name).table?.isSome) = [] then []
      else b.bindings := by
  have hopens := Block.opensTable_ofTables (Block.topic_of_line h.line)
  have hnames : (names.filterMap fun name => (Directive.ofName name).table?).eraseDups = [] ↔
      names.filter (fun name => (Directive.ofName name).table?.isSome) = [] := by
    simp only [List.eq_nil_iff_forall_not_mem, List.mem_eraseDups, List.mem_filterMap,
      List.mem_filter, Option.isSome_iff_exists]
    grind
  by_cases hnone : names.filter (fun name => (Directive.ofName name).table?.isSome) = []
  · rw [hnames.mpr hnone] at hopens
    rw [if_pos hnone, allBindings, List.filter_cons_of_neg (by simp [hopens])]
    rfl
  · have hsome : b.opensTable = true := by
      rw [hopens, Bool.not_eq_true', List.isEmpty_eq_false_iff]
      exact fun hempty => hnone (hnames.mp hempty)
    rw [if_neg hnone, allBindings, List.filter_cons_of_pos hsome]
    exact List.append_nil _

theorem bindingsIn_under (ref : TableRef) :
    bindingsIn (names.map b.under) ref =
      (names.filter fun name => Directive.ofName name = .table ref).flatMap fun _ => b.bindings := by
  have hlists : (names.map b.under).filter (ref ∈ ·.tables) =
      (names.filter fun name => Directive.ofName name = .table ref).map b.under := by
    rw [List.filter_map]
    congr 1
    apply List.filter_congr
    intro name hname
    rw [Function.comp_apply, Block.tables_ofTables (Block.topic_under h hname)]
    cases Directive.ofName name <;> simp [Directive.table?, eq_comm]
  rw [bindingsIn, hlists, List.flatMap_map]
  rfl

theorem bindingsIn_lists (ref : TableRef) :
    bindingsIn [b] ref =
      if names.filter (fun name => Directive.ofName name = .table ref) = [] then []
      else b.bindings := by
  have hin := mem_tables_lists h ref
  by_cases hnone : names.filter (fun name => Directive.ofName name = .table ref) = []
  · simp [bindingsIn, hin, hnone]
  · simp [bindingsIn, hin, hnone]

theorem topic_of_mem_spread {other : Block} (hother : other = b ∨ other ∈ names.map b.under) :
    ∃ refs, other.topic = Topic.ofTables refs := by
  rcases hother with rfl | hin
  · exact ⟨_, Block.topic_of_line h.line⟩
  · obtain ⟨name, hname, rfl⟩ := List.mem_map.mp hin
    exact ⟨_, Block.topic_under h hname⟩

/-- No macro is opened and no effect used, under all the names or under each. -/
theorem filter_opensStore_spread (before after : List Block) :
    (before ++ names.map b.under ++ after).filter Block.opensStore =
      (before ++ [b] ++ after).filter Block.opensStore := by
  have hnone : ∀ other, other = b ∨ other ∈ names.map b.under → other.opensStore = false := by
    intro other hother
    obtain ⟨refs, htopic⟩ := topic_of_mem_spread h hother
    unfold Block.opensStore
    rw [htopic]
    cases refs <;> rfl
  have hspread : (names.map b.under).filter Block.opensStore = [] := by
    rw [List.filter_eq_nil_iff]
    intro other hother
    simp [hnone other (.inr hother)]
  simp [List.filter_append, hspread, hnone b (.inl rfl)]

theorem definedMacros_spread (before after : List Block) :
    definedMacros (before ++ names.map b.under ++ after) =
      definedMacros (before ++ [b] ++ after) := by
  have hnone : ∀ other, other = b ∨ other ∈ names.map b.under → other.macroName? = none := by
    intro other hother
    obtain ⟨refs, htopic⟩ := topic_of_mem_spread h hother
    cases hname : other.macroName? with
    | none => rfl
    | some name =>
      obtain ⟨arguments, hactions⟩ := Block.topic_of_macroName? hname
      rw [htopic] at hactions
      cases refs <;> cases hactions
  have hspread : (names.map b.under).filterMap Block.macroName? = [] := by
    rw [List.filterMap_eq_nil_iff]
    exact fun other hother => hnone other (.inr hother)
  simp [definedMacros, List.filterMap_append, hspread, hnone b (.inl rfl)]

/-- Calls that are repeated give no macro another rank. -/
theorem ranking_spread (before after : List Block) :
    ranking (before ++ names.map b.under ++ after) = ranking (before ++ [b] ++ after) := by
  have hdefined := definedMacros_spread h before after
  unfold definedMacros at hdefined
  unfold ranking
  rw [hdefined]
  simp only [allBindings_append, allBindings_under h, allBindings_lists h]
  by_cases hnone : names.filter (fun name => (Directive.ofName name).table?.isSome) = []
  · simp only [hnone, if_true, List.flatMap_nil]
  · simp only [if_neg hnone, List.flatMap_append, List.flatMap_assoc, List.filter_append,
      List.filter_flatMap]
    exact eraseDups_copies hnone ..

theorem macroWord?_spread (before after : List Block) :
    macroWord? (before ++ names.map b.under ++ after) = macroWord? (before ++ [b] ++ after) := by
  unfold macroWord?
  rw [ranking_spread h]

theorem mem_tables_under (ref : TableRef) :
    ref ∈ (names.map b.under).flatMap Block.tables ↔ ref ∈ b.tables := by
  have hown (name : Text) (hname : name ∈ names) :
      (b.under name).tables = (Directive.ofName name).table?.toList :=
    Block.tables_ofTables (Block.topic_under h hname)
  have hdirective (d : Directive) : ref ∈ d.table?.toList ↔ d = .table ref := by
    cases d <;> simp [Directive.table?, eq_comm]
  rw [Block.mem_tables_iff, Block.lists, h.line, List.flatMap_map, List.flatMap_congr hown]
  simp [hdirective]

theorem tables_spread (ws : Workspace) (before after : List Block) :
    (Compilation.twoPasses ws (before ++ names.map b.under ++ after)).tables =
      (Compilation.twoPasses ws (before ++ [b] ++ after)).tables := by
  apply KeyTables.ext_get?
  intro ref
  have hlisted : ref ∈ (before ++ names.map b.under ++ after).flatMap Block.tables ↔
      ref ∈ (before ++ [b] ++ after).flatMap Block.tables := by
    simp only [List.flatMap_append, List.mem_append, mem_tables_under h, List.flatMap_singleton]
  rw [Compilation.tables_twoPasses, Compilation.tables_twoPasses, macroWord?_spread h]
  simp only [hlisted, bindingsIn_append, bindingsIn_under h, bindingsIn_lists h]
  by_cases hnone : names.filter (fun name => Directive.ofName name = .table ref) = []
  · simp only [hnone, if_true, List.flatMap_nil]
  · simp only [if_neg hnone, KeyTable.bindAll_copies hnone]

theorem darkArguments_spread :
    (names.map b.under).flatMap Block.darkArguments = b.darkArguments := by
  have hown : b.darkArguments =
      (names.filter fun name => Directive.ofName name == .noLighting).map fun _ => none := by
    rw [Block.darkArguments, darkArgumentsOf, h.line]
    rfl
  have hunder (name : Text) (hname : name ∈ names) : (b.under name).darkArguments =
      if Directive.ofName name = .noLighting then [none] else [] :=
    Block.darkArguments_under h hname
  rw [hown, List.flatMap_map, List.flatMap_congr hunder]
  clear h hown hunder
  induction names with
  | nil => rfl
  | cons name names ih =>
    by_cases hdark : Directive.ofName name = .noLighting <;> simp [hdark, ih]

end Spread

/-- Blocks under one name each leave the macros, the keys and the ids that the block under all of
the names leaves. -/
theorem profile_spread (ws : Workspace) {b : Block} {names : List Text} (h : b.Lists names)
    (before after : List Block) (cursor cursor' : Option Cursor) (lightsOff : LightsOff) :
    ((Compilation.twoPasses ws (before ++ names.map b.under ++ after)).framed cursor
        lightsOff).published.profile =
      ((Compilation.twoPasses ws (before ++ [b] ++ after)).framed cursor'
        lightsOff).published.profile := by
  set blocks := before ++ [b] ++ after with hblocks
  set spread := before ++ names.map b.under ++ after with hspread
  -- a first pass reads neither the block nor those it is spread over
  have hfirst : spread.foldl (Compilation.build ws Compilation.firstPass) {} =
      blocks.foldl (Compilation.build ws Compilation.firstPass) {} := by
    rw [Compilation.foldl_build_eq_filter (fun _ => Compilation.within_firstPass) ws spread,
      Compilation.foldl_build_eq_filter (fun _ => Compilation.within_firstPass) ws blocks,
      hspread, filter_opensStore_spread h]
  have hstart := (Compilation.Built.start ws).foldl_firstPass blocks
  rw [List.nil_append] at hstart
  have hbuilt : (Compilation.twoPasses ws blocks).Built ws blocks := hstart.foldl_secondPass blocks
  have hbuilt' : (Compilation.twoPasses ws spread).Built ws blocks := by
    rw [Compilation.twoPasses, hfirst]
    exact hstart.foldl_secondPass spread
  apply (hbuilt'.framed cursor lightsOff).profile_congr (hbuilt.framed cursor' lightsOff)
  · exact tables_spread h ws before after
  · change (Compilation.twoPasses ws spread).macros.referenced =
      (Compilation.twoPasses ws blocks).macros.referenced
    rw [Compilation.referenced_twoPasses, Compilation.referenced_twoPasses, hspread,
      ranking_spread h]
  · rfl

/-- Blocks between lines and lines that start with a header. -/
theorem Outline.lines_between (before : List Text) (blocks : List Block) {after : List Text}
    (h : ∀ line ∈ after.head?, isHeader line = true) :
    { ofLines before with
        blocks := (ofLines before).blocks ++ blocks ++ (ofLines after).blocks }.lines =
      before ++ blocks.flatMap Block.lines ++ after := by
  have hbefore : (ofLines before).front ++ (ofLines before).blocks.flatMap Block.lines = before :=
    lines_ofLines before
  have hafter : (ofLines after).blocks.flatMap Block.lines = after := by
    have hlines := lines_ofLines after
    rwa [Outline.lines, front_ofLines h, List.nil_append] at hlines
  unfold Outline.lines
  rw [List.flatMap_append, List.flatMap_append, hafter, ← List.append_assoc, ← List.append_assoc,
    hbefore]

/-- A header that lists several names is one block for each of them. Take a block whose header has
no parenthesis between its brackets and lists names, some of them perhaps again, unknown, empty or
for lighting that is off. In its place put a header with one name and the lines of the block, for
each of the names in turn. For every keyboard and whatever effect files there are the profile stays
the same in everything, also where the ids for macros run out between the lines. -/
theorem header_names_apart (ws : Workspace) (before after : List Text) (b : Block)
    (header : GroupHeader) (hline : GroupHeader.ofLine? b.header.strip = some header)
    (hplain : '(' ∉ b.header.strip.takeWhile (· != ']'))
    (hafter : ∀ line ∈ after.head?, isHeader line = true) :
    ∃ c c', compile ws (before ++ b.lines ++ after) = .ok c ∧
      compile ws
        (before ++ (header.names.flatMap fun name => headerOf name :: b.body) ++ after) = .ok c' ∧
      c.profile = c'.profile := by
  obtain ⟨names, arguments⟩ := header
  obtain ⟨rfl, hnames⟩ := GroupHeader.names_of_plain hline hplain
  have h : b.Lists names := ⟨hline, hnames⟩
  obtain ⟨c, cursor, hcompile, hc⟩ := compile_eq ws { Outline.ofLines before with
    blocks := (Outline.ofLines before).blocks ++ [b] ++ (Outline.ofLines after).blocks }
  obtain ⟨c', cursor', hcompile', hc'⟩ := compile_eq ws { Outline.ofLines before with
    blocks := (Outline.ofLines before).blocks ++ names.map b.under ++
      (Outline.ofLines after).blocks }
  rw [Outline.lines_between before _ hafter] at hcompile hcompile'
  rw [List.flatMap_singleton] at hcompile
  rw [List.flatMap_map] at hcompile'
  refine ⟨_, _, hcompile, hcompile', ?_⟩
  change c.published.profile = c'.published.profile
  simp only [Outline.darkArguments, List.flatMap_append, darkArguments_spread h] at hc'
  simp only [Outline.darkArguments, List.flatMap_append, List.flatMap_singleton] at hc
  rw [hc, hc']
  exact (profile_spread ws h ..).symm

/-- Two tables of which one is listed twice, a name of none, an empty one and lighting that is off,
above a key that is bound twice. -/
theorem header_names_apart_twice :
    ∃ c c', compile {} (["[Macro(X)]", "[ Layer1,Base,What, ,base,NoLighting ]", "F2: Macro(X)",
        "F2: A+Macro(Y)", "[Macro(Y)]"].map String.toList) = .ok c ∧
      compile {} (["[Macro(X)]", "[Layer1]", "F2: Macro(X)", "F2: A+Macro(Y)", "[Base]",
        "F2: Macro(X)", "F2: A+Macro(Y)", "[What]", "F2: Macro(X)", "F2: A+Macro(Y)", "[]",
        "F2: Macro(X)", "F2: A+Macro(Y)", "[base]", "F2: Macro(X)", "F2: A+Macro(Y)",
        "[NoLighting]", "F2: Macro(X)", "F2: A+Macro(Y)",
        "[Macro(Y)]"].map String.toList) = .ok c' ∧
      c.profile = c'.profile :=
  header_names_apart {} ["[Macro(X)]".toList] ["[Macro(Y)]".toList]
    ⟨"[ Layer1,Base,What, ,base,NoLighting ]".toList,
      ["F2: Macro(X)", "F2: A+Macro(Y)"].map String.toList, by decide, by decide⟩
    ⟨["Layer1", "Base", "What", "", "base", "NoLighting"].map String.toList, none⟩ (by decide)
    (by decide) (by decide)

end KeyProfile

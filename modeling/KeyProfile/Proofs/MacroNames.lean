import KeyProfile.Proofs.MacroHeaders
import KeyProfile.Proofs.TableMeaning

/-!
Names of macros. A header takes whatever stands between its parentheses, commas apart, while a line
of key bindings is cut at colons and plus signs before its calls are looked at. So a name with a
colon or a plus sign can be defined but never called (`idOf?_of_separator`), and any other name means
the same macro on both sides (`macro_names_agree`).
-/

namespace KeyProfile

/-- The token that calls a macro. -/
def callOf (name : Text) : Text := "Macro".toList ++ '(' :: (name ++ [')'])

/-- The line that binds Escape to a call of a macro. -/
def escapeTo (name : Text) : Text := "Esc".toList ++ ": ".toList ++ callOf name

theorem headerOf_callOf (name : Text) : headerOf (callOf name) = macroHeader name [] := by
  simp [macroHeader, callOf]

/-! Calls. -/

theorem Text.startsWith_lower_macro (rest : Text) :
    startsWith (lower ("Macro".toList ++ rest)) "macro".toList = true := by
  rfl

namespace Destination

/-- A call has between its parentheses only what the token has. -/
theorem mem_of_mem_calledName? {token name : Text} (h : calledName? token = some name) {c : Char}
    (hc : c ∈ name) : c ∈ token := by
  unfold calledName? at h
  cases hpart : Part.ofToken token with
  | literal value => simp [hpart] at h
  | symbol value => simp [hpart] at h
  | call called =>
    have hcall := call?_of_part hpart
    simp only [hpart] at h
    rw [h, eq_comm, Option.map_eq_some_iff] at hcall
    obtain ⟨⟨front, inner⟩, hparts, rfl⟩ := hcall
    obtain ⟨back, htoken, -⟩ := Text.call?_eq_some_iff.mp hparts
    apply Text.mem_of_mem_strip
    rw [htoken]
    have hinner := Text.mem_of_mem_strip hc
    simp [hinner]

/-- A call of a name without closing parentheses and blank ends calls that name. -/
theorem ofToken_callOf {name : Text} (hstrip : name.strip = name) (hclose : ')' ∉ name) :
    Part.ofToken (callOf name) = .call (some name) := by
  have hown : (callOf name).strip = callOf name := by
    have hlast : callOf name = ("Macro(".toList ++ name) ++ [')'] := by simp [callOf]
    rw [hlast]
    apply Text.strip_concat
    · rintro c ⟨⟩
      decide
    · decide
  have hcall : (callOf name).call? = some ("Macro".toList, name) :=
    Text.call?_eq_some_iff.mpr ⟨[], rfl, by decide, by decide, by decide, hclose⟩
  have hliteral : KeyToken.hexBody? (callOf name) = none := by
    rw [KeyToken.hexBody?, hown]
    rfl
  unfold Part.ofToken
  simp only [hown, hliteral, hcall]
  rw [callOf, Text.startsWith_lower_macro, Option.map_some, hstrip]
  rfl

theorem calledNames_callOf {name : Text} (hstrip : name.strip = name) (hclose : ')' ∉ name) :
    calledNames [' ' :: callOf name] = [name] := by
  simp [calledNames, calledName?, ofToken_blank, ofToken_callOf hstrip hclose]

/-- As the only token, a blank in front of it, it makes the word of the macro. -/
theorem evaluate_callOf {name : Text} (hstrip : name.strip = name) (hclose : ')' ∉ name)
    {valueOf : Text → Option Int} {value : Int} (h : valueOf name = some value) :
    evaluate valueOf [' ' :: callOf name] = value := by
  rw [evaluate, List.foldl_cons, List.foldl_nil, combine, ofToken_blank,
    ofToken_callOf hstrip hclose]
  simp [h]

end Destination

/-- Lines are cut at colons and plus signs before their calls are looked at. -/
theorem Binding.notMem_of_calls {line : Text} {b : Binding} (hb : Binding.ofLine? line = some b)
    {name : Text} (hname : name ∈ b.calls) : ':' ∉ name ∧ '+' ∉ name := by
  obtain ⟨token, htoken, hcalled⟩ := List.mem_filterMap.mp hname
  unfold Binding.ofLine? at hb
  split at hb
  · next sources destinations rest hfields =>
    split at hb
    · cases hb
    · cases hb
      have hfield : destinations ∈ Text.fields ':' line := by simp [hfields]
      obtain ⟨-, hcolon, -⟩ := Text.mem_fields hfield
      obtain ⟨-, hplus, hsub⟩ := Text.mem_fields htoken
      exact ⟨fun hin => hcolon (hsub _ (Destination.mem_of_mem_calledName? hcalled hin)),
        fun hin => hplus (Destination.mem_of_mem_calledName? hcalled hin)⟩
  · cases hb

/-- A macro with a colon or a plus sign in its name has no id, whatever calls there are. -/
theorem idOf?_of_separator (ws : Workspace) (blocks : List Block) {name : Text}
    (h : '+' ∈ name ∨ ':' ∈ name) : (Compilation.twoPasses ws blocks).macros.idOf? name = none := by
  have hout : name ∉ (Compilation.twoPasses ws blocks).macros.referenced := by
    rw [Compilation.referenced_twoPasses]
    intro hin
    have hranked := List.mem_of_mem_take hin
    simp only [ranking, List.mem_eraseDups, List.mem_filter] at hranked
    obtain ⟨b, hb, hcalled⟩ := List.mem_flatMap.mp hranked.1
    obtain ⟨block, -, hbinding⟩ := List.mem_flatMap.mp hb
    obtain ⟨line, -, hline⟩ := List.mem_filterMap.mp hbinding
    obtain ⟨hcolon, hplus⟩ := Binding.notMem_of_calls hline hcalled
    exact h.elim hplus hcolon
  exact if_neg hout

/-! The file that defines a macro and calls it. -/

theorem strip_escapeTo (name : Text) : (escapeTo name).strip = escapeTo name := by
  have hlast : escapeTo name = ("Esc: Macro(".toList ++ name) ++ [')'] := by
    simp [escapeTo, callOf]
  rw [hlast]
  apply Text.strip_concat
  · rintro c ⟨⟩
    decide
  · decide

theorem not_isHeader_nil : ∀ line ∈ ([] : List Text), isHeader line = false :=
  List.forall_mem_nil _

/-- The block that defines the macro. -/
def defineBlock (name : Text) : Block where
  header := headerOf (callOf name)
  body := []
  isHeader_header := isHeader_headerOf (callOf name)
  not_isHeader_body := not_isHeader_nil

/-- The block that binds Escape to it. -/
def escapeBlock (name : Text) : Block where
  header := "[Base]".toList
  body := [escapeTo name]
  isHeader_header := by decide
  not_isHeader_body := by
    intro line hline
    obtain rfl := List.mem_singleton.mp hline
    rw [isHeader, strip_escapeTo]
    rfl

theorem content_escapeBlock (name : Text) : (escapeBlock name).content = [escapeTo name] := by
  have hcomment : isComment (escapeTo name) = false := by
    rw [isComment, strip_escapeTo]
    rfl
  simp [Block.content, escapeBlock, hcomment, strip_escapeTo]

theorem tables_escapeBlock (name : Text) : (escapeBlock name).tables = [⟨.base, false⟩] := by
  change (topicOf "[Base]".toList).tables = _
  decide

theorem macroName?_escapeBlock (name : Text) : (escapeBlock name).macroName? = none := rfl

theorem opensTable_escapeBlock (name : Text) : (escapeBlock name).opensTable = true := rfl

/-- Escape, as files spell it. -/
theorem spells_escape : Spells "Esc".toList 0x02002900 := by
  have hname : SymbolTable.standard.nameOf 0x02002900 = "Esc".toList := by decide +kernel
  have hword : DriverValue.IsWord 0x02002900 := ⟨by decide, by decide⟩
  exact hname ▸ spells_nameOf hword

section

variable {name : Text} (hname : name ≠ []) (hstrip : name.strip = name)
  (hfree : ∀ c ∈ [',', ')', ']'], c ∉ name)

include hname hstrip hfree

theorem topic_defineBlock : (defineBlock name).topic = .actions name [] := by
  have hblank : name.strip ≠ [] := by rwa [hstrip]
  change topicOf (headerOf (callOf name)) = _
  rw [headerOf_callOf, topicOf_macroHeader hblank (List.forall_mem_singleton.mpr hfree), hstrip]
  rfl

theorem macroName?_defineBlock : (defineBlock name).macroName? = some name := by
  rw [Block.macroName?, Block.macro?_of_topic (topic_defineBlock hname hstrip hfree)]
  rfl

theorem opensTable_defineBlock : (defineBlock name).opensTable = false := by
  rw [Block.opensTable, topic_defineBlock hname hstrip hfree]

/-- After whatever lines, the header defines the macro of that name and no other. -/
theorem compile_defineBlock (ws : Workspace) (lines : List Text) :
    ∃ c c', compile ws lines = .ok c ∧ compile ws (lines ++ [headerOf (callOf name)]) = .ok c' ∧
      c'.profile.macros.keys =
        (if name ∈ c.profile.macros.keys then c.profile.macros.keys
          else c.profile.macros.keys ++ [name]) ∧
      (c'.profile.macros.get? name).map Macro.name = some name := by
  obtain ⟨c, hcompile, -, hmacros⟩ := compile_shows ws lines
  obtain ⟨c', hcompile', -, hmacros'⟩ := compile_shows ws (lines ++ [headerOf (callOf name)])
  have hblocks : (Outline.ofLines (lines ++ [headerOf (callOf name)])).blocks =
      (Outline.ofLines lines).blocks ++ [defineBlock name] :=
    Outline.blocks_header lines (isHeader_headerOf _) []
  rw [hblocks] at hmacros'
  obtain ⟨hkeys, -⟩ := Compilation.macros_shown ws (Outline.ofLines lines).blocks
  obtain ⟨hkeys', hget⟩ :=
    Compilation.macros_shown ws ((Outline.ofLines lines).blocks ++ [defineBlock name])
  have hown := macroName?_defineBlock hname hstrip hfree
  refine ⟨c, c', hcompile, hcompile', ?_, ?_⟩
  · have hnames : ((Outline.ofLines lines).blocks ++ [defineBlock name]).filterMap
        Block.macroName? = (Outline.ofLines lines).blocks.filterMap Block.macroName? ++ [name] := by
      rw [List.filterMap_append]
      simp [hown]
    rw [hmacros', hmacros, hkeys', hkeys, hnames, eraseDups_concat]
    simp only [List.mem_eraseDups]
  · have hsettings := settings_merged (Outline.ofLines lines).blocks hown (List.forall_mem_nil _)
    obtain ⟨m, hm, -⟩ := Option.map_eq_some_iff.mp hsettings
    have hnamed := name_of_merged hm
    rw [hmacros', hget, hm, ← hnamed]
    rfl

/-- In the file that defines the macro and calls it, the macro has the id that the second pass gives
it, and the table holds what the line below its header binds. -/
theorem compile_calling (ws : Workspace) :
    ∃ c m, compile ws [headerOf (callOf name), "[Base]".toList, escapeTo name] = .ok c ∧
      c.profile.macros.get? name = some m ∧
      m.id = ((Compilation.twoPasses ws [defineBlock name, escapeBlock name]).macros.idOf?
        name).map Int.ofNat ∧
      c.profile.tables.get? ⟨.base, false⟩ =
        some (KeyTable.bindAll (macroWord? [defineBlock name, escapeBlock name]) ∅
          (escapeBlock name).bindings) := by
  set blocks := [defineBlock name, escapeBlock name] with hblocks
  have hnone : (defineBlock name).tables = [] :=
    Block.tables_of_not_opensTable (opensTable_defineBlock hname hstrip hfree)
  have hlisted : ⟨.base, false⟩ ∈ blocks.flatMap Block.tables := by
    simp [hblocks, tables_escapeBlock]
  have hbindings : bindingsIn blocks ⟨.base, false⟩ = (escapeBlock name).bindings := by
    simp [bindingsIn, hblocks, hnone, tables_escapeBlock]
  have hsettings : (merged blocks name).map Macro.settings = some (defineBlock name).settings := by
    apply settings_merged [] (macroName?_defineBlock hname hstrip hfree)
    simp [macroName?_escapeBlock]
  obtain ⟨m, hm, -⟩ := Option.map_eq_some_iff.mp hsettings
  obtain ⟨c, hcompile, htables, hmacros⟩ :=
    compile_shows ws (Outline.lines ⟨[], blocks, List.forall_mem_nil _⟩)
  rw [Outline.ofLines_lines] at htables hmacros
  obtain ⟨-, hget⟩ := Compilation.macros_shown ws blocks
  have hshown : c.profile.macros.get? name =
      some { m with id := ((Compilation.twoPasses ws blocks).macros.idOf? name).map Int.ofNat } := by
    rw [hmacros, hget, hm]
    rfl
  refine ⟨c, _, hcompile, hshown, rfl, ?_⟩
  rw [htables, Compilation.tables_twoPasses, if_pos hlisted, hbindings]

end

section

variable {name : Text} (hstrip : name.strip = name) (hclose : ')' ∉ name)
  (hcolon : ':' ∉ name) (hplus : '+' ∉ name)

include hcolon hplus

theorem bindings_escapeBlock :
    (escapeBlock name).bindings = [⟨0x02002900, [' ' :: callOf name], by decide⟩] := by
  have hline : Binding.ofLine? (escapeTo name) =
      some ⟨0x02002900, [' ' :: callOf name], by decide⟩ :=
    spells_escape.ofLine?_line (by decide) (by simpa [callOf] using hcolon)
      (by simpa [callOf] using hplus)
  rw [Block.bindings, content_escapeBlock, List.filterMap_cons_some hline]
  rfl

include hstrip hclose

theorem ranking_calling (hown : (defineBlock name).macroName? = some name)
    (hopens : (defineBlock name).opensTable = false) :
    ranking [defineBlock name, escapeBlock name] = [name] := by
  have hbindings : allBindings [defineBlock name, escapeBlock name] =
      (escapeBlock name).bindings := by
    rw [allBindings, List.filter_cons_of_neg (by simp [hopens]),
      List.filter_cons_of_pos (opensTable_escapeBlock name), List.filter_nil,
      List.flatMap_singleton]
  have hcalls : (escapeBlock name).bindings.flatMap Binding.calls = [name] := by
    rw [bindings_escapeBlock hcolon hplus, List.flatMap_singleton]
    exact Destination.calledNames_callOf hstrip hclose
  rw [ranking, hbindings, hcalls]
  simp [hown, macroName?_escapeBlock, List.eraseDups_cons]

end

/-- Headers and lines of key bindings agree on the names of macros, except for those that a line is
cut in. Take a name that is not empty, has no blanks around it and none of the characters that end
an argument or a header. Its header defines the macro of exactly that name, whatever lines come
first. In a file that defines it and binds Escape to a call of it, it has the first id and Escape
runs it, or it has none if there is a colon or a plus sign in the name. -/
theorem macro_names_agree (ws : Workspace) {name : Text} (hname : name ≠ [])
    (hstrip : name.strip = name) (hfree : ∀ c ∈ [',', ')', ']'], c ∉ name) :
    (∀ lines : List Text, ∃ c c', compile ws lines = .ok c ∧
      compile ws (lines ++ [headerOf (callOf name)]) = .ok c' ∧
      c'.profile.macros.keys =
        (if name ∈ c.profile.macros.keys then c.profile.macros.keys
          else c.profile.macros.keys ++ [name]) ∧
      (c'.profile.macros.get? name).map Macro.name = some name) ∧
    ∃ c m table, compile ws [headerOf (callOf name), "[Base]".toList, escapeTo name] = .ok c ∧
      c.profile.macros.get? name = some m ∧
      c.profile.tables.get? ⟨.base, false⟩ = some table ∧
      ('+' ∉ name ∧ ':' ∉ name → m.id = some 0 ∧
        ∃ escape value, KeyToken.driverValue? "Esc".toList = some escape ∧
          DriverValue.ofMacroId 0 = .ok value ∧ table.get? escape = some value) ∧
      ('+' ∈ name ∨ ':' ∈ name → m.id = none) := by
  refine ⟨compile_defineBlock hname hstrip hfree ws, ?_⟩
  obtain ⟨c, m, hcompile, hm, hid, htable⟩ := compile_calling hname hstrip hfree ws
  refine ⟨c, m, _, hcompile, hm, htable, ?_, ?_⟩
  · rintro ⟨hplus, hcolon⟩
    have hranking := ranking_calling hstrip (hfree ')' (by simp)) hcolon hplus
      (macroName?_defineBlock hname hstrip hfree) (opensTable_defineBlock hname hstrip hfree)
    have hfirst : (Compilation.twoPasses ws [defineBlock name, escapeBlock name]).macros.idOf?
        name = some 0 := by
      rw [Registry.idOf?, Compilation.referenced_twoPasses, hranking]
      simp
    have hword : macroWord? [defineBlock name, escapeBlock name] name =
        some DriverValue.macroTag := by
      rw [macroWord?, hranking, if_pos (by simp), List.idxOf_cons_self]
      rfl
    have hvalue := Destination.evaluate_callOf hstrip (hfree ')' (by simp)) hword
    refine ⟨?_, 0x02002900, DriverValue.macroTag, spells_escape.source, rfl, ?_⟩
    · rw [hid, hfirst]
      rfl
    · rw [KeyTable.get?_bindAll, bindings_escapeBlock hcolon hplus]
      exact congrArg some hvalue
  · intro hseparated
    rw [hid, idOf?_of_separator ws _ hseparated]
    rfl

/-- A name that looks like a call, a literal, a header and a comment is like any other; a colon
makes a name that cannot be called. -/
theorem macro_names_agree_odd :
    (∃ c m table, compile {} (["[Macro(macro( 0x[#1)]", "[Base]",
        "Esc: Macro(macro( 0x[#1)"].map String.toList) = .ok c ∧
      c.profile.macros.get? "macro( 0x[#1".toList = some m ∧ m.id = some 0 ∧
      c.profile.tables.get? ⟨.base, false⟩ = some table) ∧
    ∃ c m, compile {} (["[Macro(a:b)]", "[Base]", "Esc: Macro(a:b)"].map String.toList) = .ok c ∧
      c.profile.macros.get? "a:b".toList = some m ∧ m.id = none := by
  obtain ⟨-, c, m, table, hcompile, hm, htable, hcalled, -⟩ :=
    @macro_names_agree {} "macro( 0x[#1".toList (by decide) (by decide) (by simp)
  obtain ⟨hid, -⟩ := hcalled (by decide)
  obtain ⟨-, c', m', -, hcompile', hm', -, -, hcut⟩ :=
    @macro_names_agree {} "a:b".toList (by decide) (by decide) (by simp)
  exact ⟨⟨c, m, table, hcompile, hm, hid, htable⟩, c', m', hcompile', hm', hcut (by decide)⟩

end KeyProfile

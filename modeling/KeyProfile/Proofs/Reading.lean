import KeyProfile.Compilation.Pass
import KeyProfile.Proofs.Outline

/-!
What one line does. On a sound compilation no line of a body fails (`layerLine_eq`, `macroLine_eq`)
and no header does (`openGroup_eq`). What lines do to the tables, the registries and the log depends
neither on the layers that are dark nor on more of the cursor than the topic of the block, so both
can be kept apart from it (`framed`).
-/

namespace KeyProfile

namespace KeyTables

theorem get?_ensure (tables : KeyTables) (ref other : TableRef) :
    (tables.ensure ref).get? other =
      if other = ref then some ((tables.get? ref).getD ∅) else tables.get? other := by
  unfold ensure
  split
  · next table htable =>
    split
    · next heq => rw [heq, htable, Option.getD_some]
    · rfl
  · next hnone => rw [get?_set, hnone, Option.getD_none]

theorem ensure_of_isSome {tables : KeyTables} {ref : TableRef}
    (h : (tables.get? ref).isSome = true) : tables.ensure ref = tables := by
  unfold ensure
  split
  · rfl
  · next hnone =>
    rw [hnone] at h
    cases h

theorem get?_foldl_ensure (tables : KeyTables) (refs : List TableRef) (other : TableRef) :
    (refs.foldl ensure tables).get? other =
      if other ∈ refs then some ((tables.get? other).getD ∅) else tables.get? other := by
  induction refs generalizing tables with
  | nil => simp
  | cons ref refs ih =>
    rw [List.foldl_cons, ih, get?_ensure]
    by_cases heq : other = ref
    · subst heq
      by_cases hm : other ∈ refs <;> simp [hm]
    · simp [heq]

end KeyTables

/-- Off on the layers that arguments name, or everywhere if there are no arguments at all. -/
def LightsOff.turnOff (off : LightsOff) : Option (List Text) → LightsOff
  | none => { off with everywhere := true }
  | some layers =>
    { off with layers := (layers.filterMap Layer.ofText?).foldl LayerSet.insert off.layers }

namespace Topic

/-- What is left of a topic in a pass that takes groups of some kinds only. -/
def within (groups : List GroupKind) : Topic → Topic
  | .nothing => .nothing
  | .keys tables => if .layer ∈ groups then .keys tables else .nothing
  | .actions name settings => if .macros ∈ groups then .actions name settings else .nothing
  | .lighting name layers => if .lighting ∈ groups then .lighting name layers else .nothing

/-- Key tables, if there are any. -/
def ofTables : List TableRef → Topic
  | [] => .nothing
  | ref :: refs => .keys (ref :: refs)

/-- The cursor while lines on a topic are read, given the macro opened last. -/
def cursor (last : Option Text) : Topic → Cursor
  | .nothing => { openMacro := last }
  | .keys tables => { group := .layer, tables, openMacro := last }
  | .actions name _ => { group := .macros, openMacro := some name }
  | .lighting .. => { group := .lighting, openMacro := last }

end Topic

namespace Compilation

/-- The compilation with its cursor elsewhere and other layers dark. -/
def framed (c : Compilation) (cursor : Option Cursor) (lightsOff : LightsOff) : Compilation :=
  { c with cursor, lightsOff }

/-- The registries are sound, a word has room for every id of a macro, and macros are kept under
their own names. -/
structure Sound (c : Compilation) : Prop where
  macros : c.macros.Roomy
  named : ∀ name m, c.macros.items.get? name = some m → m.name = name
  effects : c.effects.Sound

theorem sound_start : ({} : Compilation).Sound where
  macros := ⟨Registry.sound_empty _, rfl⟩
  named := by simp [OrderedMap.get?_empty]
  effects := Registry.sound_empty _

theorem Sound.framed {c : Compilation} (h : c.Sound) (cursor : Option Cursor)
    (lightsOff : LightsOff) : (c.framed cursor lightsOff).Sound :=
  ⟨h.macros, h.named, h.effects⟩

theorem turnOff_eq (c : Compilation) (arguments : Option (List Text)) :
    c.turnOff arguments = c.framed c.cursor (c.lightsOff.turnOff arguments) := by
  cases arguments <;> rfl

/-! Lines of a body. -/

/-- A binding made in all tables that are open. -/
def bindIn (tables : List TableRef) (c : Compilation) (b : Binding) : Compilation :=
  let macros := c.macros.refer b.calls
  { c with
    macros
    tables := tables.foldl (fun t ref => t.bind ref b.key (b.value macros.macroValue?)) c.tables
    log := c.log ++ b.calls.filterMap (macros.complaint? b.key) }

/-- A line of key bindings, for the tables that are open. -/
def bindLine (tables : List TableRef) (c : Compilation) (line : Text) : Compilation :=
  match Binding.ofLine? line with
  | none => c
  | some b => c.bindIn tables b

/-- A line of actions, for the macro that is open. -/
def actLine (name : Text) (c : Compilation) (line : Text) : Compilation :=
  match Text.fields ':' line with
  | word :: keys :: rest =>
    match MacroLine.states? word with
    | none => c.record [.unknownAction word.strip name]
    | some states => { c with macros := c.macros.update name (extend states keys rest.head?) }
  | _ => c

/-- A line of a body on a topic. -/
def fillLine (c : Compilation) : Topic → Text → Compilation
  | .keys tables => c.bindLine tables
  | .actions name _ => c.actLine name
  | _ => fun _ => c

/-- Lines of key bindings can be read once some group was opened. -/
theorem layerLine_eq {c : Compilation} (h : c.Sound) {cursor : Cursor}
    (hcursor : c.cursor = some cursor) (line : Text) :
    c.layerLine line = .ok (c.bindLine cursor.tables line) := by
  unfold layerLine readBinding bindLine Binding.ofLine?
  cases hfields : Text.fields ':' line with
  | nil => rfl
  | cons sources others =>
    cases others with
    | nil => rfl
    | cons destinations rest =>
      dsimp only
      by_cases hkey : sourceOf (Text.fields '+' sources) = 0
      · rw [if_pos hkey, dif_pos hkey]
        rfl
      · rw [if_neg hkey, dif_neg hkey, destination, Destination.ofTokens_eq h.macros]
        simp only [ok_bind, pure, Except.pure, bindKey, bindIn, hcursor]
        rfl

/-- Lines of actions can be read once some macro was opened. -/
theorem macroLine_eq {c : Compilation} {name : Text} (hname : c.openName? = some name)
    (line : Text) : c.macroLine line = .ok (c.actLine name line) := by
  unfold macroLine actLine
  cases hfields : Text.fields ':' line with
  | nil => rfl
  | cons word others =>
    cases others with
    | nil => rfl
    | cons keys rest =>
      simp only [hname]
      cases MacroLine.states? word <;> rfl

theorem fillLine_framed (c : Compilation) (topic : Topic) (line : Text) (cursor : Option Cursor)
    (lightsOff : LightsOff) :
    (c.framed cursor lightsOff).fillLine topic line =
      (c.fillLine topic line).framed cursor lightsOff := by
  cases topic with
  | nothing => rfl
  | lighting name layers => rfl
  | keys tables =>
    simp only [fillLine, bindLine]
    cases Binding.ofLine? line <;> rfl
  | actions name settings =>
    simp only [fillLine, actLine]
    split
    · split <;> rfl
    · rfl

/-- Changing macros does not move them as long as their names stay. -/
theorem named_modify {items : OrderedMap Text Macro}
    (h : ∀ name m, items.get? name = some m → m.name = name) (name : Text) {f : Macro → Macro}
    (hf : ∀ m, (f m).name = m.name) :
    ∀ other m, (items.modify name f).get? other = some m → m.name = other := by
  intro other m hm
  rw [OrderedMap.get?_modify] at hm
  split at hm
  · obtain ⟨before, hbefore, rfl⟩ := Option.map_eq_some_iff.mp hm
    exact (hf before).trans (h other before hbefore)
  · exact h other m hm

theorem Sound.fillLine {c : Compilation} (h : c.Sound) (topic : Topic) (line : Text) :
    (c.fillLine topic line).Sound := by
  cases topic with
  | nothing => exact h
  | lighting name layers => exact h
  | keys tables =>
    simp only [Compilation.fillLine, bindLine]
    cases Binding.ofLine? line with
    | none => exact h
    | some b =>
      refine ⟨h.macros.refer b.calls, ?_, h.effects⟩
      simpa only [bindIn, Registry.items_refer] using h.named
  | actions name settings =>
    simp only [Compilation.fillLine, actLine]
    split
    · split
      · exact ⟨h.macros, h.named, h.effects⟩
      · refine ⟨⟨h.macros.update name _, h.macros.limit⟩, ?_, h.effects⟩
        exact named_modify h.named name fun _ => rfl
    · exact h

/-! Headers. -/

/-- The registry with a macro defined, new or not, whose settings are those of the arguments. -/
def defineMacro (r : Registry Macro) (name : Text) (settings : List Text) : Registry Macro :=
  { r with
    items := (r.items.insertNew name { name }).modify name fun m =>
      { m with settings := MacroSettings.ofArguments settings } }

/-- An effect loaded, unless it is there already, and attached to layers. -/
def light (ws : Workspace) (c : Compilation) (name : Text) (layers : List Text) : Compilation :=
  if c.effects.defines name then { c with effects := c.effects.update name (attach layers) }
  else
    match Lighting.load ws.keyboard ws.files ws.dataRoot name with
    | .error failure => c.record [.effectFailed name failure]
    | .ok effect =>
      { c.record [.effectLoaded effect] with
        effects := ((c.effects.add name effect).reference name).1.update name (attach layers) }

/-- What the header of a group on a topic does, lighting that is off apart. -/
def enter (ws : Workspace) (c : Compilation) : Topic → Compilation
  | .nothing => c
  | .keys tables => { c with tables := tables.foldl KeyTables.ensure c.tables }
  | .actions name settings => { c with macros := defineMacro c.macros name settings }
  | .lighting name layers => c.light ws name layers

theorem enter_framed (ws : Workspace) (c : Compilation) (topic : Topic) (cursor : Option Cursor)
    (lightsOff : LightsOff) :
    (c.framed cursor lightsOff).enter ws topic = (c.enter ws topic).framed cursor lightsOff := by
  cases topic with
  | nothing => rfl
  | keys tables => rfl
  | actions name settings => rfl
  | lighting name layers =>
    change (c.framed cursor lightsOff).light ws name layers =
      (c.light ws name layers).framed cursor lightsOff
    unfold light
    change (if c.effects.defines name then _ else _) = _
    split
    · rfl
    · split <;> rfl

theorem Sound.enter {c : Compilation} (h : c.Sound) (ws : Workspace) (topic : Topic) :
    (c.enter ws topic).Sound := by
  cases topic with
  | nothing => exact h
  | keys tables => exact ⟨h.macros, h.named, h.effects⟩
  | actions name settings =>
    refine ⟨⟨h.macros.with_items ?_, h.macros.limit⟩, named_modify ?_ name fun _ => rfl, h.effects⟩
    · intro other hdef
      have hdef : (c.macros.items.get? other).isSome = true := hdef
      simp only [OrderedMap.contains, OrderedMap.get?_modify, OrderedMap.get?_insertNew]
      by_cases heq : other = name <;> simp [heq, hdef]
    · intro other m hm
      rw [OrderedMap.get?_insertNew] at hm
      by_cases heq : other = name
      · subst heq
        rw [if_pos rfl, Option.some_inj] at hm
        cases hbefore : c.macros.items.get? other with
        | none => simp [← hm, hbefore]
        | some before =>
          rw [hbefore, Option.getD_some] at hm
          exact hm ▸ h.named other before hbefore
      · rw [if_neg heq] at hm
        exact h.named other m hm
  | lighting name layers =>
    change (c.light ws name layers).Sound
    unfold light
    split
    · exact ⟨h.macros, h.named, h.effects.update name _⟩
    · split
      · exact ⟨h.macros, h.named, h.effects⟩
      · exact ⟨h.macros, h.named,
          ((h.effects.add name _).reference name).update name _⟩

/-- The state that a header line leaves: its group, if the pass takes it, is what the lines below
belong to. -/
def head (ws : Workspace) (groups : List GroupKind) (c : Compilation) (line : Text) : Compilation :=
  (c.enter ws ((topicOf line).within groups)).framed
    (some (((topicOf line).within groups).cursor c.openName?))
    ((darkArgumentsOf line).foldl LightsOff.turnOff c.lightsOff)

/-- Tables opened one after another, the lines below belonging to all of them. -/
theorem foldl_openTable {c : Compilation} {last : Option Text}
    (hcursor : c.cursor = some { openMacro := last }) (refs : List TableRef) :
    refs.foldl openTable c =
      { c with
        tables := refs.eraseDups.foldl KeyTables.ensure c.tables
        cursor := some ((Topic.ofTables refs.eraseDups).cursor last) } := by
  induction refs using List.reverseRecOn with
  | nil => simp [Topic.ofTables, Topic.cursor, ← hcursor]
  | append_singleton refs ref ih =>
    rw [List.foldl_append, ih, List.foldl_cons, List.foldl_nil, eraseDups_concat]
    by_cases hm : ref ∈ refs
    · have hm' : ref ∈ refs.eraseDups := List.mem_eraseDups.mpr hm
      have hthere : ((refs.eraseDups.foldl KeyTables.ensure c.tables).get? ref).isSome = true := by
        simp [KeyTables.get?_foldl_ensure, hm']
      rw [if_pos hm]
      cases hrefs : refs.eraseDups with
      | nil => simp [hrefs] at hm'
      | cons first others =>
        rw [hrefs] at hm' hthere
        simp only [openTable, moveCursor, KeyTables.ensure_of_isSome hthere, Topic.ofTables,
          Topic.cursor, Option.getD_some, hm', if_true]
    · have hm' : ref ∉ refs.eraseDups := fun h => hm (List.mem_eraseDups.mp h)
      rw [if_neg hm, List.foldl_append]
      cases hrefs : refs.eraseDups with
      | nil => simp [openTable, moveCursor, Topic.ofTables, Topic.cursor]
      | cons first others =>
        rw [hrefs] at hm'
        simp only [openTable, moveCursor, Topic.ofTables, Topic.cursor, Option.getD_some, hm',
          if_false, List.foldl_cons, List.foldl_nil, List.cons_append]

/-- Opening tables has nothing to do with lighting that is off. -/
theorem foldl_openTable_framed (c : Compilation) (lightsOff : LightsOff) (refs : List TableRef) :
    refs.foldl openTable (c.framed c.cursor lightsOff) =
      { refs.foldl openTable c with lightsOff } :=
  List.foldl_hom (fun c : Compilation => { c with lightsOff }) fun _ _ => rfl

/-- The names of a header without arguments open tables and turn lighting off everywhere. -/
theorem foldlM_apply (ws : Workspace) (groups : List GroupKind) {header : GroupHeader}
    (harguments : header.arguments = none) (names : List Text) (c : Compilation) :
    names.foldlM (apply ws groups header) c =
      .ok { (if .layer ∈ groups then
              (names.filterMap fun name => (Directive.ofName name).table?).foldl openTable c
            else c) with
        lightsOff := ((names.filter fun name => Directive.ofName name == .noLighting).map
          fun _ => header.arguments).foldl LightsOff.turnOff c.lightsOff } := by
  have hsubject : header.subject? = none := by simp [GroupHeader.subject?, harguments]
  induction names generalizing c with
  | nil => cases hlayer : decide (GroupKind.layer ∈ groups) <;> simp [pure, Except.pure]
  | cons name names ih =>
    rw [List.foldlM_cons, apply]
    cases hname : Directive.ofName name with
    | table ref =>
      simp only [ok_bind, ih]
      by_cases hlayer : GroupKind.layer ∈ groups <;>
        simp [hlayer, hname, Directive.table?, openTable, moveCursor]
    | noLighting =>
      simp only [ok_bind, ih, turnOff_eq]
      by_cases hlayer : GroupKind.layer ∈ groups
      · simp only [hlayer, if_true, foldl_openTable_framed]
        simp [hname, Directive.table?, framed]
      · simp [hlayer, hname, framed]
    | defineMacro =>
      simp only [hsubject, Option.isSome_none, Bool.false_eq_true, and_false, if_false, ok_bind, ih]
      simp [hname, Directive.table?]
    | useLighting =>
      simp only [hsubject, Option.isSome_none, Bool.false_eq_true, and_false, if_false, ok_bind, ih]
      simp [hname, Directive.table?]
    | unknown =>
      simp only [ok_bind, ih]
      simp [hname, Directive.table?]

/-- Moving the cursor out of the open group keeps the macro opened last. -/
theorem moveCursor_outside (c : Compilation) :
    c.moveCursor (fun cursor => { cursor with group := .outside, tables := [] }) =
      c.framed (some { openMacro := c.openName? }) c.lightsOff := by
  unfold moveCursor framed openName?
  cases c.cursor <;> rfl

theorem light_eq (ws : Workspace) (c : Compilation) (name : Text) (layers : List Text) :
    c.useLighting ws (name :: layers) =
      .ok ((c.light ws name layers).framed
        (some { c.cursor.getD {} with group := .lighting }) c.lightsOff) := by
  unfold useLighting light
  dsimp only [moveCursor]
  by_cases hdef : c.effects.defines name = true
  · rw [if_pos hdef, if_pos hdef]
    rfl
  · rw [if_neg hdef, if_neg hdef]
    cases Lighting.load ws.keyboard ws.files ws.dataRoot name <;> rfl

/-- A header that calls nothing with a subject opens nothing but tables. -/
theorem topic_of_no_subject {header : GroupHeader} (hsubject : header.subject? = none) :
    header.topic = Topic.ofTables header.tables := by
  unfold GroupHeader.topic
  cases header.tables with
  | nil => simp [hsubject, Topic.ofTables]
  | cons ref refs => rfl

/-- A header that has one name only. -/
theorem apply_single (ws : Workspace) (groups : List GroupKind) {header : GroupHeader} {name : Text}
    (hnames : header.names = [name]) {c : Compilation} {last : Option Text}
    (hcursor : c.cursor = some { openMacro := last }) :
    apply ws groups header c name =
      .ok ((c.enter ws (header.topic.within groups)).framed
        (some ((header.topic.within groups).cursor last))
        (header.darkArguments.foldl LightsOff.turnOff c.lightsOff)) := by
  have hdark : header.darkArguments =
      if Directive.ofName name = .noLighting then [header.arguments] else [] := by
    unfold GroupHeader.darkArguments
    by_cases h : Directive.ofName name = .noLighting <;> simp [hnames, h]
  have htables : header.tables = (Directive.ofName name).table?.toList := by
    unfold GroupHeader.tables
    cases h : (Directive.ofName name).table? <;> simp [hnames, h, List.eraseDups_cons]
  have hstay : c.framed (some { openMacro := last }) c.lightsOff = c := by
    rw [← hcursor]
    rfl
  unfold apply
  rw [hdark]
  cases hname : Directive.ofName name with
  | table ref =>
    have htopic : header.topic = .keys [ref] := by
      simp [GroupHeader.topic, htables, hname, Directive.table?]
    by_cases hlayer : GroupKind.layer ∈ groups
    · simp [hlayer, htopic, Topic.within, Topic.cursor, enter, openTable, moveCursor, hcursor,
        framed]
    · simp [hlayer, htopic, Topic.within, Topic.cursor, enter, hstay]
  | noLighting =>
    have htopic : header.topic = .nothing := by
      unfold GroupHeader.topic
      cases header.subject? <;> simp [htables, hnames, hname, Directive.table?]
    simp [htopic, Topic.within, Topic.cursor, enter, turnOff_eq, hcursor]
  | defineMacro =>
    cases hsubject : header.subject? with
    | none =>
      have htopic : header.topic = .nothing := by
        rw [topic_of_no_subject hsubject, htables, hname]
        rfl
      simp [htopic, Topic.within, Topic.cursor, enter, hstay]
    | some subject =>
      obtain ⟨rest, harguments⟩ := GroupHeader.subject?_eq_some hsubject
      have htopic : header.topic = .actions subject rest := by
        rw [GroupHeader.topic_of_subject hnames hsubject harguments, hname]
        rfl
      by_cases hmacros : GroupKind.macros ∈ groups
      · simp [hmacros, htopic, Topic.within, Topic.cursor, enter, openMacro, moveCursor, hcursor,
          framed, harguments, defineMacro]
      · simp [hmacros, htopic, Topic.within, Topic.cursor, enter, hstay]
  | useLighting =>
    cases hsubject : header.subject? with
    | none =>
      have htopic : header.topic = .nothing := by
        rw [topic_of_no_subject hsubject, htables, hname]
        rfl
      simp [htopic, Topic.within, Topic.cursor, enter, hstay]
    | some subject =>
      obtain ⟨rest, harguments⟩ := GroupHeader.subject?_eq_some hsubject
      have htopic : header.topic = .lighting subject rest := by
        rw [GroupHeader.topic_of_subject hnames hsubject harguments, hname]
        rfl
      by_cases hlighting : GroupKind.lighting ∈ groups
      · simp [hlighting, htopic, Topic.within, Topic.cursor, enter, light_eq, hcursor, harguments]
      · simp [hlighting, htopic, Topic.within, Topic.cursor, enter, hstay]
  | unknown =>
    have htopic : header.topic = .nothing := by
      unfold GroupHeader.topic
      cases header.subject? <;> simp [htables, hnames, hname, Directive.table?]
    simp [htopic, Topic.within, Topic.cursor, enter, hstay]

theorem within_ofTables (groups : List GroupKind) (refs : List TableRef) :
    (Topic.ofTables refs).within groups =
      if .layer ∈ groups then Topic.ofTables refs else .nothing := by
  cases refs with
  | nil => simp [Topic.ofTables, Topic.within]
  | cons ref refs => rfl

theorem enter_ofTables (ws : Workspace) (c : Compilation) (refs : List TableRef) :
    c.enter ws (Topic.ofTables refs) =
      { c with tables := refs.foldl KeyTables.ensure c.tables } := by
  cases refs <;> rfl

/-- Opening a group never fails, and says all that the lines below need to know. -/
theorem openGroup_eq (ws : Workspace) (groups : List GroupKind) (c : Compilation) (line : Text) :
    c.openGroup ws groups line.strip = .ok (c.head ws groups line) := by
  unfold openGroup head topicOf darkArgumentsOf
  rw [moveCursor_outside]
  cases hline : GroupHeader.ofLine? line.strip with
  | none => rfl
  | some header =>
    rcases GroupHeader.names_of_arguments hline with harguments | ⟨name, hnames⟩
    · have hsubject : header.subject? = none := by simp [GroupHeader.subject?, harguments]
      have htopic := topic_of_no_subject hsubject
      simp only [foldlM_apply ws groups harguments, htopic, within_ofTables]
      rw [foldl_openTable rfl]
      by_cases hlayer : GroupKind.layer ∈ groups
      · simp only [hlayer, if_true, enter_ofTables]
        rfl
      · simp only [hlayer, if_false]
        rfl
    · simp only [hnames, List.foldlM_cons, List.foldlM_nil]
      rw [apply_single ws groups hnames rfl, ok_bind, enter_framed]
      rfl

end Compilation

end KeyProfile

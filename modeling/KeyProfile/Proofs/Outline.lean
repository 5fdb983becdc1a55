import KeyProfile.GroupHeader
import KeyProfile.Profile
import KeyProfile.Proofs.Destination

/-!
The outline of profile text: the lines before the first header, and one block for every header with
the lines up to the next. What a block is about, which layers it turns dark and which keys it binds
depend on its own lines only. Lines and outlines are the same thing (`lines_ofLines`,
`ofLines_lines`).
-/

namespace KeyProfile

/-- A line that opens a group, however malformed what follows the bracket is. -/
def isHeader (line : Text) : Bool := line.strip.head? == some '['

/-- A line that nobody reads. -/
def isComment (line : Text) : Bool := line.strip.head? == some '#'

/-- What a block is about. -/
inductive Topic where
  | nothing
  /-- Keys of the tables listed. -/
  | keys (tables : List TableRef)
  /-- The actions of a macro, and the settings that its header gives it. -/
  | actions (name : Text) (settings : List Text)
  /-- An effect, and the layers that its header attaches it to. -/
  | lighting (name : Text) (layers : List Text)

def Topic.tables : Topic → List TableRef
  | .keys tables => tables
  | _ => []

/-- The key table that a directive asks for. -/
def Directive.table? : Directive → Option TableRef
  | .table ref => some ref
  | _ => none

/-- Where one word alone asks for something, the names that ask for it are that word in any case. -/
theorem Directive.ofName_eq_iff {d : Directive} {word : Text}
    (honly : names.filter (fun entry => entry.2 == d) = [(word, d)]) (hsome : d ≠ .unknown)
    (name : Text) : ofName name = d ↔ name.lower = word := by
  have hnodup : (names.map Prod.fst).Nodup := by decide
  calc
    ofName name = d
    _ ↔ names.lookup name.lower = some d := by
      cases hlookup : names.lookup name.lower with
      | none => simpa [ofName, hlookup] using hsome.symm
      | some directive => simp [ofName, hlookup]
    _ ↔ (name.lower, d) ∈ names.filter (fun entry => entry.2 == d) := by
      rw [lookup_eq_some_iff_mem hnodup, List.mem_filter]
      simp
    _ ↔ name.lower = word := by
      rw [honly, List.mem_singleton, Prod.mk.injEq]
      simp

namespace GroupHeader

/-- The tables that a header lists, each once. -/
def tables (h : GroupHeader) : List TableRef :=
  (h.names.filterMap fun name => (Directive.ofName name).table?).eraseDups

/-- What a header opens. Only a name with arguments can open a macro or an effect, and then it is
the only name. -/
def topic (h : GroupHeader) : Topic :=
  match h.tables with
  | ref :: refs => .keys (ref :: refs)
  | [] =>
    match h.subject?, h.names with
    | some subject, [name] =>
      match Directive.ofName name with
      | .defineMacro => .actions subject (h.arguments.getD []).tail
      | .useLighting => .lighting subject (h.arguments.getD []).tail
      | _ => .nothing
    | _, _ => .nothing

theorem tables_topic (h : GroupHeader) : h.topic.tables = h.tables := by
  unfold topic
  cases h.tables with
  | cons ref refs => rfl
  | nil =>
    dsimp only
    split
    · split <;> rfl
    · rfl

theorem mem_tables_iff (h : GroupHeader) (ref : TableRef) :
    ref ∈ h.tables ↔ ∃ name ∈ h.names, Directive.ofName name = .table ref := by
  have htable (d : Directive) : d.table? = some ref ↔ d = .table ref := by
    cases d <;> simp [Directive.table?]
  unfold tables
  rw [List.mem_eraseDups, List.mem_filterMap]
  simp only [htable]

/-- The arguments of a header once for each of its names that turns lighting off. -/
def darkArguments (h : GroupHeader) : List (Option (List Text)) :=
  (h.names.filter fun name => Directive.ofName name == .noLighting).map fun _ => h.arguments

/-- A header with arguments has one name. -/
theorem names_of_arguments {line : Text} {h : GroupHeader} (hline : ofLine? line = some h) :
    h.arguments = none ∨ ∃ name, h.names = [name] := by
  unfold ofLine? at hline
  cases hcut : line.cutAt? ']' with
  | none => simp [hcut] at hline
  | some parts =>
    obtain ⟨front, back⟩ := parts
    simp only [hcut, Option.bind_eq_bind, Option.bind_some] at hline
    split at hline
    · cases hline
    · cases hline
    · split at hline
      · cases hline
        exact .inr ⟨_, rfl⟩
      · cases hline
        exact .inl rfl

theorem subject?_eq_some {h : GroupHeader} {subject : Text} (hs : h.subject? = some subject) :
    ∃ rest, h.arguments = some (subject :: rest) := by
  unfold subject? at hs
  split at hs
  · next first rest harguments =>
    split at hs
    · cases hs
    · cases hs
      exact ⟨rest, harguments⟩
  · cases hs

end GroupHeader

/-- What a header line opens; a malformed one opens nothing. -/
def topicOf (line : Text) : Topic :=
  match GroupHeader.ofLine? line.strip with
  | some h => h.topic
  | none => .nothing

/-- What a name opens when it is called with a subject and further arguments. -/
def Directive.opened (d : Directive) (subject : Text) (arguments : List Text) : Topic :=
  match d with
  | .defineMacro => .actions subject arguments
  | .useLighting => .lighting subject arguments
  | .table ref => .keys [ref]
  | _ => .nothing

theorem GroupHeader.topic_of_subject {h : GroupHeader} {name subject : Text} {rest : List Text}
    (hnames : h.names = [name]) (hsubject : h.subject? = some subject)
    (harguments : h.arguments = some (subject :: rest)) :
    h.topic = (Directive.ofName name).opened subject rest := by
  cases hname : Directive.ofName name <;>
    simp [topic, tables, hnames, hname, hsubject, harguments, Directive.table?, Directive.opened,
      List.eraseDups_cons]

/-- A header that calls a name with a subject opens what the name stands for. -/
theorem topicOf_of_call {line subject kind : Text} {arguments : List Text}
    (hsubject : subject ≠ [])
    (hline : GroupHeader.ofLine? line.strip = some ⟨[kind], some (subject :: arguments)⟩) :
    topicOf line = (Directive.ofName kind).opened subject arguments := by
  unfold topicOf
  rw [hline]
  exact GroupHeader.topic_of_subject rfl (by simpa [GroupHeader.subject?] using hsubject) rfl

/-- Only a header that calls a name with a subject opens more than tables. -/
theorem call_of_topicOf {line : Text} (htables : (topicOf line).tables = [])
    (hsome : topicOf line ≠ .nothing) :
    ∃ subject kind arguments, subject ≠ [] ∧
      GroupHeader.ofLine? line.strip = some ⟨[kind], some (subject :: arguments)⟩ := by
  unfold topicOf at htables hsome
  cases hline : GroupHeader.ofLine? line.strip with
  | none => simp [hline] at hsome
  | some header =>
    simp only [hline, GroupHeader.tables_topic] at htables
    simp only [hline, GroupHeader.topic, htables] at hsome
    cases hsubject : header.subject? with
    | none => simp [hsubject] at hsome
    | some subject =>
      obtain ⟨rest, harguments⟩ := GroupHeader.subject?_eq_some hsubject
      rcases GroupHeader.names_of_arguments hline with hnone | ⟨kind, hnames⟩
      · rw [harguments] at hnone
        cases hnone
      · refine ⟨subject, kind, rest, ?_, ?_⟩
        · rintro rfl
          simp [GroupHeader.subject?, harguments] at hsubject
        · rw [← hnames, ← harguments]

/-- What is opened tells which name was called with what, unless it is tables or nothing. -/
theorem Directive.opened_inj {d d' : Directive} {subject subject' : Text}
    {arguments arguments' : List Text} (htables : (d.opened subject arguments).tables = [])
    (hsome : d.opened subject arguments ≠ .nothing)
    (h : d'.opened subject' arguments' = d.opened subject arguments) :
    d' = d ∧ subject' = subject ∧ arguments' = arguments := by
  cases d <;> cases d' <;> simp_all [Directive.opened, Topic.tables]

theorem topicOf_eq_opened_iff (line name : Text) (arguments : List Text) {d : Directive}
    (htables : (d.opened name arguments).tables = []) (hsome : d.opened name arguments ≠ .nothing) :
    topicOf line = d.opened name arguments ↔
      name ≠ [] ∧ ∃ kind, Directive.ofName kind = d ∧
        GroupHeader.ofLine? line.strip = some ⟨[kind], some (name :: arguments)⟩ := by
  constructor
  · intro htopic
    obtain ⟨subject, kind, others, hsubject, hline⟩ :=
      call_of_topicOf (htopic ▸ htables) (htopic ▸ hsome)
    have hopened := (topicOf_of_call hsubject hline).symm.trans htopic
    obtain ⟨hkind, rfl, rfl⟩ := Directive.opened_inj htables hsome hopened
    exact ⟨hsubject, kind, hkind, hline⟩
  · rintro ⟨hname, kind, rfl, hline⟩
    exact topicOf_of_call hname hline

/-- The header of a macro calls the name that macros go by, in any case, and its first argument is
not blank. -/
theorem topicOf_eq_actions_iff (line name : Text) (settings : List Text) :
    topicOf line = .actions name settings ↔
      name ≠ [] ∧ ∃ kind, Directive.ofName kind = .defineMacro ∧
        GroupHeader.ofLine? line.strip = some ⟨[kind], some (name :: settings)⟩ :=
  topicOf_eq_opened_iff line name settings (d := .defineMacro) rfl nofun

/-- The header of an effect calls the name that lighting goes by, likewise. -/
theorem topicOf_eq_lighting_iff (line name : Text) (layers : List Text) :
    topicOf line = .lighting name layers ↔
      name ≠ [] ∧ ∃ kind, Directive.ofName kind = .useLighting ∧
        GroupHeader.ofLine? line.strip = some ⟨[kind], some (name :: layers)⟩ :=
  topicOf_eq_opened_iff line name layers (d := .useLighting) rfl nofun

/-- The arguments of what a header line says about lighting that is off. -/
def darkArgumentsOf (line : Text) : List (Option (List Text)) :=
  match GroupHeader.ofLine? line.strip with
  | some h => h.darkArguments
  | none => []

/-- What a line binds: a key and the tokens of its destination. -/
structure Binding where
  key : Int
  tokens : List Text
  key_ne_zero : key ≠ 0

namespace Binding

/-- The binding of a line. There is none without two fields, or if the source cannot be resolved. -/
def ofLine? (line : Text) : Option Binding :=
  match Text.fields ':' line with
  | sources :: destinations :: _ =>
    if h : sourceOf (Text.fields '+' sources) = 0 then none
    else some ⟨sourceOf (Text.fields '+' sources), Text.fields '+' destinations, h⟩
  | _ => none

/-- The macros that the destination calls. -/
def calls (b : Binding) : List Text := Destination.calledNames b.tokens

/-- The destination when the macros have the values given. -/
def value (b : Binding) (valueOf : Text → Option Int) : Int :=
  Destination.evaluate valueOf b.tokens

end Binding

/-- A header line with the lines up to the next one. -/
structure Block where
  header : Text
  body : List Text
  isHeader_header : isHeader header = true
  not_isHeader_body : ∀ line ∈ body, isHeader line = false
deriving DecidableEq

namespace Block

def lines (b : Block) : List Text := b.header :: b.body

def topic (b : Block) : Topic := topicOf b.header

def darkArguments (b : Block) : List (Option (List Text)) := darkArgumentsOf b.header

/-- The lines of the body that are read, without the blanks around them. -/
def content (b : Block) : List Text := (b.body.filter (!isComment ·)).map Text.strip

/-- The tables that the block binds keys in. -/
def tables (b : Block) : List TableRef := b.topic.tables

/-- The header names a table, in any case. -/
def lists (b : Block) (ref : TableRef) : Prop :=
  ∃ h, GroupHeader.ofLine? b.header.strip = some h ∧
    ∃ name ∈ h.names, Directive.ofName name = .table ref

theorem mem_tables_iff (b : Block) (ref : TableRef) : ref ∈ b.tables ↔ b.lists ref := by
  unfold tables topic topicOf lists
  cases hline : GroupHeader.ofLine? b.header.strip with
  | none => simp [Topic.tables]
  | some h =>
    simp only [GroupHeader.tables_topic, GroupHeader.mem_tables_iff, Option.some_inj,
      exists_eq_left']

theorem nodup_tables (b : Block) : b.tables.Nodup := by
  unfold tables topic topicOf
  cases GroupHeader.ofLine? b.header.strip with
  | none => exact List.nodup_nil
  | some h =>
    simp only [GroupHeader.tables_topic]
    exact nodup_eraseDups _

/-- What the lines of the block bind, whatever the block is about. -/
def bindings (b : Block) : List Binding := b.content.filterMap Binding.ofLine?

/-- The header lists a key table. -/
def opensTable (b : Block) : Bool :=
  match b.topic with
  | .keys _ => true
  | _ => false

theorem topic_of_opensTable {b : Block} (h : b.opensTable = true) : b.topic = .keys b.tables := by
  unfold opensTable at h
  unfold tables
  cases htopic : b.topic <;> simp [htopic] at h
  rfl

theorem tables_of_not_opensTable {b : Block} (h : b.opensTable = false) : b.tables = [] := by
  unfold opensTable at h
  unfold tables
  cases htopic : b.topic <;> simp [htopic] at h <;> rfl

/-- The header opens a macro or uses a lighting effect. -/
def opensStore (b : Block) : Bool :=
  match b.topic with
  | .actions .. => true
  | .lighting .. => true
  | _ => false

end Block

/-- Profile text, cut at its headers. -/
structure Outline where
  front : List Text
  blocks : List Block
  not_isHeader_front : ∀ line ∈ front, isHeader line = false

namespace Outline

/-- The lines again. -/
def lines (o : Outline) : List Text := o.front ++ o.blocks.flatMap Block.lines

def ofLines : List Text → Outline
  | [] => ⟨[], [], by simp⟩
  | line :: rest =>
    let o := ofLines rest
    if h : isHeader line = true then
      ⟨[], ⟨line, o.front, h, o.not_isHeader_front⟩ :: o.blocks, by simp⟩
    else
      ⟨line :: o.front, o.blocks, by simpa [h] using o.not_isHeader_front⟩

theorem lines_ofLines (lines : List Text) : (ofLines lines).lines = lines := by
  induction lines with
  | nil => rfl
  | cons line rest ih =>
    unfold Outline.lines at ih
    unfold ofLines Outline.lines
    dsimp only
    split
    · simpa [Block.lines] using ih
    · simpa using ih

private theorem ofLines_append {front : List Text} (h : ∀ line ∈ front, isHeader line = false)
    (rest : List Text) :
    (ofLines (front ++ rest)).front = front ++ (ofLines rest).front ∧
      (ofLines (front ++ rest)).blocks = (ofLines rest).blocks := by
  induction front with
  | nil => simp
  | cons line front ih =>
    obtain ⟨hfront, hblocks⟩ := ih fun l hl => h l (by simp [hl])
    rw [List.cons_append, ofLines]
    simp [h line (by simp), hfront, hblocks]

/-- A header and the lines up to the next make a block. -/
theorem ofLines_section {header : Text} {body rest : List Text} (hheader : isHeader header = true)
    (hbody : ∀ line ∈ body, isHeader line = false) (hrest : (ofLines rest).front = []) :
    ofLines (header :: (body ++ rest)) =
      ⟨[], ⟨header, body, hheader, hbody⟩ :: (ofLines rest).blocks, by simp⟩ := by
  obtain ⟨hfront, hblocks⟩ := ofLines_append hbody rest
  rw [hrest, List.append_nil] at hfront
  rw [ofLines]
  simp [hheader, hfront, hblocks]

theorem ofLines_lines (o : Outline) : ofLines o.lines = o := by
  obtain ⟨front, blocks, hfront⟩ := o
  obtain ⟨hf, hb⟩ := ofLines_append hfront (blocks.flatMap Block.lines)
  have hrest : (ofLines (blocks.flatMap Block.lines)).front = [] ∧
      (ofLines (blocks.flatMap Block.lines)).blocks = blocks := by
    clear hf hb
    induction blocks with
    | nil => exact ⟨rfl, rfl⟩
    | cons b blocks ih =>
      rw [List.flatMap_cons, Block.lines, List.cons_append,
        ofLines_section b.isHeader_header b.not_isHeader_body ih.1, ih.2]
      exact ⟨rfl, rfl⟩
  unfold lines
  rw [hrest.1, List.append_nil] at hf
  rw [hrest.2] at hb
  cases hcut : ofLines (front ++ blocks.flatMap Block.lines)
  rw [hcut] at hf hb
  subst hf hb
  rfl

/-- Nothing stands in front of a header that comes first. -/
theorem front_ofLines {lines : List Text} (h : ∀ line ∈ lines.head?, isHeader line = true) :
    (ofLines lines).front = [] := by
  cases lines with
  | nil => rfl
  | cons line rest =>
    have hheader : isHeader line = true := h line rfl
    simp [ofLines, hheader]

/-- Lines that start with a header add their own blocks. -/
theorem ofLines_append_header {lines more : List Text}
    (h : ∀ line ∈ more.head?, isHeader line = true) :
    ofLines (lines ++ more) =
      { ofLines lines with blocks := (ofLines lines).blocks ++ (ofLines more).blocks } := by
  have hfront := front_ofLines h
  have hlines : lines ++ more =
      { ofLines lines with blocks := (ofLines lines).blocks ++ (ofLines more).blocks }.lines := by
    conv_lhs => rw [← lines_ofLines lines, ← lines_ofLines more]
    simp [Outline.lines, hfront]
  rw [hlines, ofLines_lines]

/-- A header makes a block with the lines up to the next one, whatever stands before it. -/
theorem blocks_header (before : List Text) {header : Text} (h : isHeader header = true)
    (after : List Text) :
    (ofLines (before ++ header :: after)).blocks =
      (ofLines before).blocks ++
        ⟨header, (ofLines after).front, h, (ofLines after).not_isHeader_front⟩ ::
          (ofLines after).blocks := by
  have hhead : ∀ line ∈ (header :: after).head?, isHeader line = true := by
    rintro line ⟨⟩
    exact h
  rw [ofLines_append_header hhead]
  simp [ofLines, h]

end Outline

end KeyProfile

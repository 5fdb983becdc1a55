import KeyProfile.Proofs.Reading

/-!
Passes, block by block. A pass over sound registries never fails and comes to reading the blocks of
the outline one after another (`compilePass_eq`); a finalization never fails either (`finalize_eq`).
Compiling is therefore a plain fold over the blocks, once for each pass (`Sound.compile_eq`), also
from scratch (`compile_eq`).
-/

namespace KeyProfile

namespace Outline

/-- The arguments of all that the headers say about lighting that is off. -/
def darkArguments (o : Outline) : List (Option (List Text)) := o.blocks.flatMap Block.darkArguments

end Outline

namespace Compilation

/-- What a block does in a pass that takes groups of some kinds, lighting that is off apart. -/
def build (ws : Workspace) (groups : List GroupKind) (c : Compilation) (b : Block) : Compilation :=
  b.content.foldl (fun c line => c.fillLine (b.topic.within groups) line)
    (c.enter ws (b.topic.within groups))

theorem build_framed (ws : Workspace) (groups : List GroupKind) (c : Compilation) (b : Block)
    (cursor : Option Cursor) (lightsOff : LightsOff) :
    (c.framed cursor lightsOff).build ws groups b =
      (c.build ws groups b).framed cursor lightsOff := by
  unfold build
  rw [enter_framed]
  apply List.foldl_hom (fun c : Compilation => c.framed cursor lightsOff)
  intro c line
  exact fillLine_framed c _ line cursor lightsOff

theorem Sound.foldl_fillLine {c : Compilation} (h : c.Sound) (topic : Topic) (lines : List Text) :
    (lines.foldl (fun c line => c.fillLine topic line) c).Sound := by
  induction lines generalizing c with
  | nil => exact h
  | cons line lines ih => exact ih (h.fillLine topic line)

theorem Sound.build {c : Compilation} (h : c.Sound) (ws : Workspace) (groups : List GroupKind)
    (b : Block) : (c.build ws groups b).Sound :=
  (h.enter ws _).foldl_fillLine _ _

theorem Sound.foldl_build {c : Compilation} (h : c.Sound) (ws : Workspace)
    (groups : List GroupKind) (blocks : List Block) :
    (blocks.foldl (Compilation.build ws groups) c).Sound := by
  induction blocks generalizing c with
  | nil => exact h
  | cons b blocks ih => exact ih (h.build ws groups b)

/-- A block that is about nothing in a pass does nothing in it. -/
theorem build_of_nothing {groups : List GroupKind} {b : Block}
    (hnothing : b.topic.within groups = .nothing) (ws : Workspace) (c : Compilation) :
    c.build ws groups b = c := by
  unfold build
  rw [hnothing]
  exact List.foldl_fixed _

/-- Blocks that are about nothing in a pass may be left out of it. -/
theorem foldl_build_eq_filter {groups : List GroupKind} {counts : Block → Bool}
    (hnothing : ∀ b, counts b = false → b.topic.within groups = .nothing) (ws : Workspace)
    (blocks : List Block) (c : Compilation) :
    blocks.foldl (build ws groups) c = (blocks.filter counts).foldl (build ws groups) c := by
  induction blocks generalizing c with
  | nil => rfl
  | cons b blocks ih =>
    cases hb : counts b with
    | true => rw [List.filter_cons_of_pos hb, List.foldl_cons, List.foldl_cons, ih]
    | false =>
      rw [List.filter_cons_of_neg (by simp [hb]), List.foldl_cons,
        build_of_nothing (hnothing b hb), ih]

theorem within_firstPass {b : Block} (h : b.opensStore = false) :
    b.topic.within firstPass = .nothing := by
  unfold Block.opensStore at h
  cases htopic : b.topic with
  | nothing => rfl
  | keys tables => rfl
  | actions name settings => simp [htopic] at h
  | lighting name layers => simp [htopic] at h

theorem within_secondPass {b : Block} (h : b.opensTable = false) :
    b.topic.within secondPass = .nothing := by
  unfold Block.opensTable at h
  cases htopic : b.topic with
  | nothing => rfl
  | keys tables => simp [htopic] at h
  | actions name settings => rfl
  | lighting name layers => rfl

theorem foldl_bindLine (tables : List TableRef) (c : Compilation) (lines : List Text) :
    lines.foldl (bindLine tables) c =
      (lines.filterMap Binding.ofLine?).foldl (bindIn tables) c := by
  rw [List.foldl_filterMap]
  congr 1
  funext c line
  unfold bindLine
  cases Binding.ofLine? line <;> rfl

theorem macros_foldl_bindIn (tables : List TableRef) (c : Compilation) (bindings : List Binding) :
    (bindings.foldl (bindIn tables) c).macros =
      c.macros.refer (bindings.flatMap Binding.calls) := by
  induction bindings generalizing c with
  | nil => rfl
  | cons b bindings ih => rw [List.foldl_cons, ih, List.flatMap_cons, Registry.refer_append]; rfl

/-- A block that lists tables, in a pass for key bindings. -/
theorem build_keys {b : Block} {tables : List TableRef} (htopic : b.topic = .keys tables)
    (ws : Workspace) (c : Compilation) :
    c.build ws secondPass b =
      b.bindings.foldl (bindIn tables)
        { c with tables := tables.foldl KeyTables.ensure c.tables } := by
  unfold build Block.bindings
  rw [htopic, ← foldl_bindLine]
  rfl

/-- A line that is no header is passed over or read on the topic of its group. -/
theorem compileLine_body {c : Compilation} (h : c.Sound) (ws : Workspace) (groups : List GroupKind)
    {topic : Topic} {last : Option Text} (hcursor : c.cursor = some (topic.cursor last))
    {line : Text} (hbody : isHeader line = false) :
    compileLine ws groups c line =
      .ok (if isComment line = true then c else c.fillLine topic line.strip) := by
  unfold isHeader at hbody
  unfold compileLine isComment
  have hhead : ¬line.strip.head? = some '[' := by simpa using hbody
  by_cases hcomment : line.strip.head? = some '#'
  · simp [hcomment]
  · have hgroup : c.group = (topic.cursor last).group := by simp [group, hcursor]
    simp only [hcomment, hhead, if_false, hgroup, beq_iff_eq]
    cases topic with
    | nothing => rfl
    | lighting name layers => rfl
    | keys tables => exact layerLine_eq h hcursor line.strip
    | actions name settings =>
      exact macroLine_eq (by simp [openName?, hcursor, Topic.cursor]) line.strip

theorem compileLine_header (ws : Workspace) (groups : List GroupKind) (c : Compilation)
    {line : Text} (hheader : isHeader line = true) :
    compileLine ws groups c line = .ok (c.head ws groups line) := by
  have hhead : line.strip.head? = some '[' := by simpa [isHeader] using hheader
  unfold compileLine
  simp only [hhead, openGroup_eq]
  rfl

theorem cursor_fillLine (c : Compilation) (topic : Topic) (line : Text) :
    (c.fillLine topic line).cursor = c.cursor := by
  have h := congrArg Compilation.cursor (fillLine_framed c topic line c.cursor c.lightsOff)
  exact h

/-- The lines of a body, the cursor staying where the header put it. -/
theorem foldlM_body {c : Compilation} (h : c.Sound) (ws : Workspace) (groups : List GroupKind)
    {topic : Topic} {last : Option Text} (hcursor : c.cursor = some (topic.cursor last))
    {lines : List Text} (hbody : ∀ line ∈ lines, isHeader line = false) :
    lines.foldlM (compileLine ws groups) c =
      .ok (((lines.filter (!isComment ·)).map Text.strip).foldl
        (fun c line => c.fillLine topic line) c) := by
  induction lines generalizing c with
  | nil => rfl
  | cons line lines ih =>
    have hrest : ∀ line ∈ lines, isHeader line = false := by
      intro other hother
      exact hbody other (by simp [hother])
    rw [List.foldlM_cons, compileLine_body h ws groups hcursor (hbody line (by simp)), ok_bind]
    cases hcomment : isComment line with
    | true =>
      simp only [if_true]
      rw [ih h hcursor hrest]
      simp [hcomment]
    | false =>
      simp only [Bool.false_eq_true, if_false]
      rw [ih (h.fillLine topic line.strip) ((cursor_fillLine ..).trans hcursor) hrest]
      simp [hcomment]

/-- One block, wherever the cursor is. -/
theorem foldlM_block {c : Compilation} (h : c.Sound) (ws : Workspace) (groups : List GroupKind)
    (b : Block) (cursor : Option Cursor) (lightsOff : LightsOff) :
    ∃ next, b.lines.foldlM (compileLine ws groups) (c.framed cursor lightsOff) =
      .ok ((c.build ws groups b).framed (some next)
        (b.darkArguments.foldl LightsOff.turnOff lightsOff)) := by
  refine ⟨(b.topic.within groups).cursor (cursor.bind Cursor.openMacro), ?_⟩
  have hhead : (c.framed cursor lightsOff).head ws groups b.header =
      (c.enter ws (b.topic.within groups)).framed
        (some ((b.topic.within groups).cursor (cursor.bind Cursor.openMacro)))
        (b.darkArguments.foldl LightsOff.turnOff lightsOff) := by
    unfold head
    rw [enter_framed]
    rfl
  rw [Block.lines, List.foldlM_cons, compileLine_header ws groups _ b.isHeader_header, ok_bind,
    hhead, foldlM_body ((h.enter ws _).framed _ _) ws groups rfl b.not_isHeader_body]
  congr 1
  apply List.foldl_hom (fun c : Compilation => c.framed _ _)
  intro c line
  exact fillLine_framed c _ line _ _

theorem foldlM_blocks {c : Compilation} (h : c.Sound) (ws : Workspace) (groups : List GroupKind)
    (blocks : List Block) (cursor : Cursor) (lightsOff : LightsOff) :
    ∃ next, (blocks.flatMap Block.lines).foldlM (compileLine ws groups)
        (c.framed (some cursor) lightsOff) =
      .ok ((blocks.foldl (build ws groups) c).framed (some next)
        ((blocks.flatMap Block.darkArguments).foldl LightsOff.turnOff lightsOff)) := by
  induction blocks generalizing c cursor lightsOff with
  | nil => exact ⟨cursor, rfl⟩
  | cons b blocks ih =>
    obtain ⟨middle, hfirst⟩ := foldlM_block h ws groups b (some cursor) lightsOff
    obtain ⟨next, hrest⟩ := ih (h.build ws groups b) middle
      (b.darkArguments.foldl LightsOff.turnOff lightsOff)
    refine ⟨next, ?_⟩
    rw [List.flatMap_cons, List.foldlM_append, hfirst, ok_bind, hrest, List.flatMap_cons,
      List.foldl_append, List.foldl_cons]

/-- A pass never fails, and comes to reading the blocks one after another. -/
theorem compilePass_eq {c : Compilation} (h : c.Sound) (ws : Workspace) (groups : List GroupKind)
    (o : Outline) :
    ∃ cursor, c.compilePass ws groups o.lines =
      .ok ((o.blocks.foldl (build ws groups) c).framed (some cursor)
        (o.darkArguments.foldl LightsOff.turnOff c.lightsOff)) := by
  have hfront : o.front.foldlM (compileLine ws groups) { c with cursor := some {} } =
      .ok { c with cursor := some {} } := by
    have hstart : Sound { c with cursor := some {} } := h.framed (some {}) c.lightsOff
    have hcursor : some {} = some (Topic.cursor none .nothing) := rfl
    rw [foldlM_body hstart ws groups hcursor o.not_isHeader_front]
    exact congrArg Except.ok (List.foldl_fixed _)
  obtain ⟨cursor, hblocks⟩ := foldlM_blocks h ws groups o.blocks {} c.lightsOff
  refine ⟨cursor, ?_⟩
  rw [compilePass, Outline.lines, List.foldlM_append, hfront, ok_bind]
  exact hblocks

/-! Finalizations. -/

/-- The compilation with every id handed out and everything defined published. -/
def published (c : Compilation) : Compilation :=
  { c with
    macros := { c.macros with
      items := c.macros.items.mapValues fun name m =>
        { m with id := (c.macros.idOf? name).map Int.ofNat } }
    effects := { c.effects with
      items := c.effects.items.mapValues fun name e =>
        { e with id := (c.effects.idOf? name).map Int.ofNat } }
    publishedMacros := c.macros.items.size
    publishedEffects := c.effects.items.size }

/-- What a finalization reports. -/
def report (c : Compilation) : List LogRecord :=
  (if c.effects.items.size > LogRecord.maxEffects then
    [.effectOverflow c.effects.items.size] else []) ++ [.compiled c.published.profile]

theorem Sound.record {c : Compilation} (h : c.Sound) (records : List LogRecord) :
    (c.record records).Sound :=
  ⟨h.macros, h.named, h.effects⟩

theorem Sound.published {c : Compilation} (h : c.Sound) : c.published.Sound where
  macros := by
    refine ⟨h.macros.with_items fun name hdef => ?_, h.macros.limit⟩
    rw [OrderedMap.contains, OrderedMap.get?_mapValues, Option.isSome_map]
    exact hdef
  named := by
    intro name m hm
    have hm : (c.macros.items.mapValues fun name m =>
      { m with id := (c.macros.idOf? name).map Int.ofNat }).get? name = some m := hm
    rw [OrderedMap.get?_mapValues] at hm
    obtain ⟨before, hbefore, rfl⟩ := Option.map_eq_some_iff.mp hm
    exact h.named name before hbefore
  effects := h.effects.with_items fun name hdef => by
    rw [OrderedMap.contains, OrderedMap.get?_mapValues, Option.isSome_map]
    exact hdef

/-- A finalization shows all macros there are, each with the id that its name has. -/
theorem macros_published (c : Compilation) :
    c.published.profile.macros = c.macros.items.mapValues fun name m =>
      { m with id := (c.macros.idOf? name).map Int.ofNat } := by
  unfold profile OrderedMap.take
  ext1
  exact List.take_of_length_le (Nat.le_of_eq (List.length_map ..))

/-- A finalization never fails. -/
theorem finalize_eq {c : Compilation} (h : c.Sound) :
    c.finalize = .ok (c.published.record c.report) := by
  unfold finalize
  rw [h.macros.stamp, ok_bind, h.effects.stamp, ok_bind]
  have hsize {α β : Type} (f : Text → α → β) (m : OrderedMap Text α) :
      (m.mapValues f).size = m.size := List.length_map ..
  simp only [hsize]
  rfl

/-- What the two passes make of blocks, from nothing and with lighting on. -/
def twoPasses (ws : Workspace) (blocks : List Block) : Compilation :=
  blocks.foldl (build ws secondPass) (blocks.foldl (build ws firstPass) {})

theorem sound_twoPasses (ws : Workspace) (blocks : List Block) : (twoPasses ws blocks).Sound :=
  (sound_start.foldl_build ws firstPass blocks).foldl_build ws secondPass blocks

/-- Compiling never fails on a sound compilation. The blocks are read twice, and so is what they say
about lighting that is off. -/
theorem Sound.compile_eq {c : Compilation} (h : c.Sound) (ws : Workspace) (o : Outline) :
    ∃ c' cursor, Compilation.compile ws o.lines c = .ok (c'.published.record c'.report) ∧
      c' = (o.blocks.foldl (Compilation.build ws secondPass)
          (o.blocks.foldl (Compilation.build ws firstPass) c)).framed (some cursor)
        (o.darkArguments.foldl LightsOff.turnOff
          (o.darkArguments.foldl LightsOff.turnOff c.lightsOff)) := by
  obtain ⟨middle, hfirst⟩ := compilePass_eq h ws firstPass o
  have hread := h.foldl_build ws firstPass o.blocks
  have hmiddle := hread.framed (some middle) (o.darkArguments.foldl LightsOff.turnOff c.lightsOff)
  obtain ⟨cursor, hsecond⟩ := compilePass_eq hmiddle ws secondPass o
  rw [List.foldl_hom (fun c : Compilation => c.framed _ _) fun c b =>
    build_framed ws secondPass c b _ _] at hsecond
  refine ⟨_, cursor, ?_, rfl⟩
  have hfinal := finalize_eq ((hread.foldl_build ws secondPass o.blocks).framed (some cursor)
    (o.darkArguments.foldl LightsOff.turnOff
      (o.darkArguments.foldl LightsOff.turnOff c.lightsOff)))
  unfold Compilation.compile
  rw [hfirst, ok_bind, hsecond, ok_bind]
  exact hfinal

end Compilation

/-- Compiling from scratch, lighting being on at first. -/
theorem compile_eq (ws : Workspace) (o : Outline) :
    ∃ c cursor, compile ws o.lines = .ok (c.published.record c.report) ∧
      c = (Compilation.twoPasses ws o.blocks).framed (some cursor)
        (o.darkArguments.foldl LightsOff.turnOff (o.darkArguments.foldl LightsOff.turnOff {})) :=
  Compilation.sound_start.compile_eq ws o

/-- The tables and macros of a profile are those that the two passes leave, the ids told. -/
theorem compile_shows (ws : Workspace) (lines : List Text) :
    ∃ c, compile ws lines = .ok c ∧
      c.profile.tables = (Compilation.twoPasses ws (Outline.ofLines lines).blocks).tables ∧
      c.profile.macros =
        (Compilation.twoPasses ws (Outline.ofLines lines).blocks).published.profile.macros := by
  obtain ⟨c, cursor, hcompile, hc⟩ := compile_eq ws (Outline.ofLines lines)
  rw [Outline.lines_ofLines] at hcompile
  refine ⟨_, hcompile, ?_, ?_⟩
  · rw [hc]
    rfl
  · rw [hc]
    rfl

end KeyProfile

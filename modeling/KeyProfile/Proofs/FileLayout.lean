import KeyProfile.Proofs.BlankFields
import KeyProfile.Proofs.HeaderEntries
import KeyProfile.Proofs.MacroHeaders
import KeyProfile.Proofs.NoFaults
import Mathlib.Logic.Relation

/-!
The layout of profile text. A line is read by its words: of key bindings the tokens of each field
(`readBinding_words`), of actions the action word, the tokens of the second field and the third
field (`macroLine_words`). Blanks around separators leave these words as they are
(`Spaced.saysSame`), so a line with more blanks does what it did, and a comment or a blank line does
nothing. Texts that differ in layout alone are therefore compiled alike. Main statement:
`layout_is_not_read`.
-/

namespace KeyProfile

open Text

/-! What is read of a line. -/

/-- The words of each field of a line. -/
def keyWords (line : Text) : List (List Text) := (parts ':' line).map (words '+')

/-- The action word of a line, the words of its keys, and its third field. -/
def actionWords (line : Text) : Option (Text × List Text × Option Text) :=
  match parts ':' line with
  | word :: keys :: rest => some (word, words '+' keys, rest.head?)
  | _ => none

theorem keyWords_eq (line : Text) : keyWords line = (fields ':' line).map (words '+') := by
  have hplus : isBlank '+' = false := by decide
  rw [keyWords, parts, List.map_map]
  apply List.map_congr_left
  intro field _
  exact words_strip hplus field

namespace SymbolTable

theorem find?_strip (table : SymbolTable) (t : Text) : table.find? (strip t) = table.find? t := by
  rw [find?, strip_strip, find?]

/-- No symbol goes without a name. -/
theorem find?_nil : standard.find? [] = none := by decide +kernel

theorem value?_nil : standard.value? [] = none := by
  rw [value?, find?_nil, Option.map_none]

end SymbolTable

theorem KeyToken.driverValue?_strip (t : Text) : driverValue? (strip t) = driverValue? t := by
  unfold driverValue? hexBody?
  rw [strip_strip]

theorem KeyToken.driverValue?_nil : driverValue? [] = none := SymbolTable.value?_nil

theorem sourceOf_words (t : Text) : sourceOf (words '+' t) = sourceOf (fields '+' t) := by
  have hlast (tokens : List Text) : sourceOf tokens =
      (tokens.filterMap KeyToken.driverValue?).foldl (fun _ value => value) 0 := by
    rw [List.foldl_filterMap]
    unfold sourceOf
    congr 1
  rw [hlast, hlast, filterMap_words KeyToken.driverValue?_strip KeyToken.driverValue?_nil]

theorem Destination.ofTokens_words {α : Type} (r : Registry α) (key : Int) (t : Text) :
    ofTokens r key (words '+' t) = ofTokens r key (fields '+' t) := by
  apply foldlM_words
  · intro d token
    unfold add
    rw [strip_strip]
  · intro d
    have hempty : strip [] = [] := rfl
    unfold add
    simp only [hempty, SymbolTable.value?_nil]
    rfl

theorem MacroLine.actions_words (states : List KeyState) (t : Text) :
    actions states (words '+' t) = actions states (fields '+' t) := by
  unfold actions
  congr 1
  funext state
  apply filterMap_words
  · intro token
    rw [action?, SymbolTable.find?_strip, action?]
  · rw [action?, SymbolTable.find?_nil]
    rfl

namespace Compilation

theorem readBinding_words (c : Compilation) (line : Text) :
    c.readBinding line =
      match keyWords line with
      | sources :: destinations :: _ =>
        if sourceOf sources = 0 then .ok (none, c)
        else do
          let (value, c) ← c.destination (sourceOf sources) destinations
          pure (some (sourceOf sources, value), c)
      | _ => .ok (none, c) := by
  rw [keyWords_eq]
  unfold readBinding destination
  match fields ':' line with
  | [] => rfl
  | [_] => rfl
  | sources :: destinations :: _ =>
    simp only [List.map_cons, sourceOf_words, Destination.ofTokens_words]

theorem macroLine_words (c : Compilation) (line : Text) :
    c.macroLine line =
      match actionWords line with
      | some (word, keys, delay) =>
        match c.openName? with
        | none => .error (.noOpenMacro word)
        | some name =>
          match MacroLine.states? word with
          | none => .ok (c.record [.unknownAction word name])
          | some states => .ok { c with macros := c.macros.update name fun m => { m with
              actions := m.actions ++
                MacroLine.waitAfter (MacroLine.delayOf m.settings.defaultDelay delay)
                  (MacroLine.actions states keys) } }
      | none => .ok c := by
  have hplus : isBlank '+' = false := by decide
  have hdelay (defaultDelay : Int) (field : Option Text) :
      MacroLine.delayOf defaultDelay (field.map strip) = MacroLine.delayOf defaultDelay field := by
    cases field with
    | none => rfl
    | some t =>
      unfold MacroLine.delayOf
      rw [Option.map_some, Option.bind_some, KeyToken.decimalWithin?_strip]
      rfl
  unfold macroLine actionWords parts
  match fields ':' line with
  | [] => rfl
  | [_] => rfl
  | word :: keys :: rest =>
    simp only [List.map_cons, words_strip hplus, MacroLine.actions_words, List.head?_map, hdelay,
      MacroLine.states?, strip_strip]
    rfl

end Compilation

/-- A call is read as its name and what stands between the parentheses. -/
theorem GroupHeader.ofLine?_headerOf_entries {kind inner tail : Text} (hkind : strip kind ≠ [])
    (hopen : '(' ∉ kind) (hclose : ')' ∉ kind ++ inner) (hend : ']' ∉ kind ++ inner ++ tail) :
    ofLine? (headerOf (kind ++ '(' :: (inner ++ ')' :: tail))) =
      some ⟨[strip (kind.dropWhile isBlank)], some (entries inner)⟩ := by
  simp only [List.mem_append, not_or] at hclose hend
  have hbody : ']' ∉ kind ++ '(' :: (inner ++ ')' :: tail) := by simp [hend]
  have hfree {c : Char} (hc : c ∉ kind) : c ∉ kind.dropWhile isBlank := fun hin =>
    hc ((List.dropWhile_sublist isBlank).subset hin)
  have hne : kind.dropWhile isBlank ≠ [] := by
    intro hempty
    apply hkind
    rw [strip, hempty]
    rfl
  have hstrip : strip (kind ++ '(' :: (inner ++ ')' :: tail)) =
      kind.dropWhile isBlank ++ '(' :: (inner ++ ')' :: tail.rdropWhile isBlank) := by
    have hsplit (front back : Text) :
        front ++ '(' :: (inner ++ ')' :: back) = (front ++ '(' :: inner) ++ ')' :: back := by
      simp
    rw [hsplit, strip_append_cons (by decide), dropWhile_append_cons (by decide), hsplit]
  have hcall : (strip (kind ++ '(' :: (inner ++ ')' :: tail))).call? =
      some (kind.dropWhile isBlank, inner) :=
    call?_eq_some_iff.mpr ⟨_, hstrip, hne, hfree hopen, hfree hclose.1, hclose.2⟩
  rw [ofLine?_headerOf_body (by simp) hbody, hcall]

/-! Lines that say the same. -/

/-- What the lines below some others are about: the last header says it. -/
def topicBelow (before : List Text) : Topic :=
  match (before.filter isHeader).getLast? with
  | some header => topicOf header
  | none => .nothing

/-- A plus between two texts that make a line is between tokens, or where nothing is read. On a line
of actions only the second field has tokens; the action word and the delay are read as they stand,
unless the line is a single field. -/
def Topic.JoinsTokens (front back : Text) : Topic → Prop
  | .actions .. =>
    (fields ':' (strip (front ++ ['+']))).length ∉ [1, 3] ∨
      (fields ':' (strip (front ++ '+' :: back))).length = 1
  | _ => True

/-- A line, and the same line with more blanks, in a group on a topic: at an end, around a colon or
between tokens on a line that is no header, or around a comma in the list of a header. The fields at
the colon and the entries at the comma are not empty. -/
inductive Spaced (topic : Topic) : Text → Text → Prop
  | ends (left line right : Text) (hleft : left.Blank) (hright : right.Blank) :
      Spaced topic line (left ++ line ++ right)
  | colon (front left right back : Text) (hleft : left.Blank) (hright : right.Blank)
      (hbody : isHeader (front ++ ':' :: back) = false)
      (hfront : front.EndsField ':') (hback : back.StartsField ':') :
      Spaced topic (front ++ ':' :: back) (spaced front left ':' right back)
  | plus (front left right back : Text) (hleft : left.Blank) (hright : right.Blank)
      (hbody : isHeader (front ++ '+' :: back) = false)
      (htokens : topic.JoinsTokens front back) :
      Spaced topic (front ++ '+' :: back) (spaced front left '+' right back)
  | names (front left right back rest : Text) (hleft : left.Blank) (hright : right.Blank)
      (hend : ']' ∉ front ++ back) (hlist : (strip (front ++ ',' :: back)).call? = none)
      (hfront : front.EndsField ',') (hback : back.StartsField ',') :
      Spaced topic (headerOf (front ++ ',' :: back) ++ rest)
        (headerOf (spaced front left ',' right back) ++ rest)
  | arguments (kind front left right back tail rest : Text) (hleft : left.Blank)
      (hright : right.Blank) (hkind : strip kind ≠ []) (hopen : '(' ∉ kind)
      (hclose : ')' ∉ kind ++ front ++ back) (hend : ']' ∉ kind ++ front ++ back ++ tail)
      (hfront : front.EndsField ',') (hback : back.StartsField ',') :
      Spaced topic (headerOf (kind ++ '(' :: (front ++ ',' :: back ++ ')' :: tail)) ++ rest)
        (headerOf (kind ++ '(' :: (spaced front left ',' right back ++ ')' :: tail)) ++ rest)

/-- Two lines begin with the same mark and say the same in a group on a topic. -/
structure SaysSame (topic : Topic) (line line' : Text) : Prop where
  mark : (strip line').head? = (strip line).head?
  header : isHeader line = true →
    GroupHeader.ofLine? (strip line') = GroupHeader.ofLine? (strip line)
  keys : isHeader line = false → keyWords (strip line') = keyWords (strip line)
  actions : isHeader line = false → ∀ name settings, topic = .actions name settings →
    actionWords (strip line') = actionWords (strip line)

namespace SaysSame

variable {topic : Topic} {left right : Text}

theorem ofStrip {line line' : Text} (h : strip line' = strip line) : SaysSame topic line line' :=
  ⟨by rw [h], fun _ => by rw [h], fun _ => by rw [h], fun _ _ _ _ => by rw [h]⟩

/-- Lines that are no headers say the same if their words do. -/
theorem ofBody {line line' : Text} (hbody : isHeader line = false)
    (hmark : (strip line').head? = (strip line).head?)
    (hkeys : keyWords (strip line') = keyWords (strip line))
    (hactions : ∀ name settings, topic = .actions name settings →
      actionWords (strip line') = actionWords (strip line)) : SaysSame topic line line' := by
  refine ⟨hmark, fun hheader => ?_, fun _ => hkeys, fun _ => hactions⟩
  rw [hbody] at hheader
  cases hheader

theorem colon (hleft : left.Blank) (hright : right.Blank) {front back : Text}
    (hbody : isHeader (front ++ ':' :: back) = false) (hfront : front.EndsField ':')
    (hback : back.StartsField ':') :
    SaysSame topic (front ++ ':' :: back) (spaced front left ':' right back) := by
  have hshown : isBlank ':' = false := by decide
  have hparts := parts_strip_spaced hshown hleft hright hfront hback
  apply ofBody hbody (head?_strip_spaced hleft hright hshown front back)
  · rw [keyWords, hparts, keyWords]
  · intro name settings _
    rw [actionWords, hparts, actionWords]

theorem plus (hleft : left.Blank) (hright : right.Blank) {front back : Text}
    (hbody : isHeader (front ++ '+' :: back) = false)
    (htokens : topic.JoinsTokens front back) :
    SaysSame topic (front ++ '+' :: back) (spaced front left '+' right back) := by
  have hshown : isBlank '+' = false := by decide
  have hcolon : isBlank ':' = false := by decide
  obtain ⟨before, after, hbefore, hafter, -, -, hstrip⟩ :=
    exists_strip_spaced hleft hright hshown front back
  obtain ⟨others, more, start, rest, hlast, hfields⟩ :=
    exists_field_around (show '+' ≠ ':' by decide) (front.dropWhile isBlank)
      (back.rdropWhile isBlank)
  have hold : fields ':' (strip (front ++ '+' :: back)) =
      others ++ (start ++ '+' :: rest) :: more := by
    have hnone := hfields [] [] List.not_mem_nil List.not_mem_nil
    simp only [spaced, List.append_nil, List.nil_append] at hnone
    rw [strip_append_cons hshown, hnone]
  have hnew : fields ':' (strip (spaced front left '+' right back)) =
      others ++ spaced start before '+' after rest :: more := by
    rw [hstrip, hfields before after (hbefore.notMem hcolon) (hafter.notMem hcolon)]
  have hwords := words_spaced hshown hbefore hafter start rest
  apply ofBody hbody (head?_strip_spaced hleft hright hshown front back)
  · simp only [keyWords_eq, hold, hnew, List.map_append, List.map_cons, hwords]
  · rintro name settings rfl
    have hplace : (others.length ≠ 0 ∧ others.length ≠ 2) ∨ others.length + more.length = 0 := by
      have hnone : fields ':' (strip (front ++ ['+'])) = others ++ [start ++ ['+']] := by
        rw [strip_append_cons hshown, List.rdropWhile_nil, hlast]
      have hcounts := htokens
      unfold Topic.JoinsTokens at hcounts
      simp only [hnone, hold, List.length_append, List.length_cons, List.length_nil, List.mem_cons,
        List.not_mem_nil, or_false, not_or] at hcounts
      omega
    unfold actionWords parts
    rw [hold, hnew]
    -- how many fields stand in front of the plus says what it is between
    rcases others with _ | ⟨word, _ | ⟨second, _ | ⟨third, front⟩⟩⟩
    · obtain rfl : more = [] := List.length_eq_zero_iff.mp (by simpa using hplace)
      rfl
    · simp only [List.singleton_append, List.map_cons, words_strip hshown, hwords]
    · rw [List.length_cons, List.length_singleton] at hplace
      omega
    · rfl

theorem headers {body body' : Text} (hend : ']' ∉ body) (hend' : ']' ∉ body')
    (h : GroupHeader.ofLine? (headerOf body') = GroupHeader.ofLine? (headerOf body))
    (rest : Text) : SaysSame topic (headerOf body ++ rest) (headerOf body' ++ rest) := by
  have hstrip (body : Text) :
      strip (headerOf body ++ rest) = headerOf body ++ rest.rdropWhile isBlank := by
    have hsplit (rest : Text) : headerOf body ++ rest = ('[' :: body) ++ ']' :: rest := by
      simp [headerOf]
    rw [hsplit, hsplit, strip_append_cons (by decide)]
    rfl
  have hheader : isHeader (headerOf body ++ rest) = true := by
    rw [isHeader, hstrip]
    rfl
  have hnotBody : ¬isHeader (headerOf body ++ rest) = false := by simp [hheader]
  refine ⟨?_, fun _ => ?_, fun hbody => absurd hbody hnotBody, fun hbody => absurd hbody hnotBody⟩
  · rw [hstrip, hstrip]
    rfl
  · rw [hstrip, hstrip, GroupHeader.ofLine?_headerOf_append hend',
      GroupHeader.ofLine?_headerOf_append hend, h]

theorem names (hleft : left.Blank) (hright : right.Blank) {front back : Text}
    (hend : ']' ∉ front ++ back) (hlist : (strip (front ++ ',' :: back)).call? = none)
    (hfront : front.EndsField ',') (hback : back.StartsField ',') (rest : Text) :
    SaysSame topic (headerOf (front ++ ',' :: back) ++ rest)
      (headerOf (spaced front left ',' right back) ++ rest) := by
  have hcomma : isBlank ',' = false := by decide
  have hclosing : isBlank ']' = false := by decide
  rw [List.mem_append, not_or] at hend
  have hold : ']' ∉ front ++ ',' :: back := by simp [hend]
  have hnew : ']' ∉ spaced front left ',' right back := by
    simp [spaced, hend, hleft.notMem hclosing, hright.notMem hclosing]
  have hlist' : (strip (spaced front left ',' right back)).call? = none := by
    rw [← Option.not_isSome_iff_eq_none, isSome_call?_spaced hleft hright hcomma, hlist]
    decide
  apply headers hold hnew
  rw [GroupHeader.ofLine?_headerOf_body (by simp) hold,
    GroupHeader.ofLine?_headerOf_body (by simp [spaced]) hnew, hlist, hlist']
  simp only [GroupHeader.entries]
  change some (GroupHeader.mk (parts ',' _) none) = some (GroupHeader.mk (parts ',' _) none)
  rw [parts_strip_spaced hcomma hleft hright hfront hback]

theorem arguments (hleft : left.Blank) (hright : right.Blank) {kind front back tail : Text}
    (hkind : strip kind ≠ []) (hopen : '(' ∉ kind) (hclose : ')' ∉ kind ++ front ++ back)
    (hend : ']' ∉ kind ++ front ++ back ++ tail) (hfront : front.EndsField ',')
    (hback : back.StartsField ',') (rest : Text) :
    SaysSame topic (headerOf (kind ++ '(' :: (front ++ ',' :: back ++ ')' :: tail)) ++ rest)
      (headerOf (kind ++ '(' :: (spaced front left ',' right back ++ ')' :: tail)) ++ rest) := by
  have hcomma : isBlank ',' = false := by decide
  have hshut : isBlank ')' = false := by decide
  have hclosing : isBlank ']' = false := by decide
  simp only [List.mem_append, not_or] at hclose hend
  have hentries : GroupHeader.entries (spaced front left ',' right back) =
      GroupHeader.entries (front ++ ',' :: back) :=
    parts_spaced hcomma hleft hright hfront hback
  apply headers
  · simp [hend]
  · simp [spaced, hend, hleft.notMem hclosing, hright.notMem hclosing]
  · rw [GroupHeader.ofLine?_headerOf_entries hkind hopen
        (by simp [spaced, hclose, hleft.notMem hshut, hright.notMem hshut])
        (by simp [spaced, hend, hleft.notMem hclosing, hright.notMem hclosing]), hentries,
      GroupHeader.ofLine?_headerOf_entries hkind hopen (by simp [hclose]) (by simp [hend])]

end SaysSame

theorem Spaced.saysSame {topic : Topic} {line line' : Text} (h : Spaced topic line line') :
    SaysSame topic line line' := by
  cases h with
  | ends left line right hleft hright => exact .ofStrip (strip_padded hleft hright line)
  | colon front left right back hleft hright hbody hfront hback =>
    exact .colon hleft hright hbody hfront hback
  | plus front left right back hleft hright hbody htokens => exact .plus hleft hright hbody htokens
  | names front left right back rest hleft hright hend hlist hfront hback =>
    exact .names hleft hright hend hlist hfront hback rest
  | arguments kind front left right back tail rest hleft hright hkind hopen hclose hend hfront
      hback =>
    exact .arguments hleft hright hkind hopen hclose hend hfront hback rest

/-! Texts that are read alike. -/

/-- A text, and the same text with one line more that nobody reads, or with more blanks in one of
its lines. -/
inductive Loosened : List Text → List Text → Prop
  | line (before after : List Text) {line : Text} (h : isComment line = true ∨ strip line = []) :
      Loosened (before ++ after) (before ++ line :: after)
  | blanks (before after : List Text) {line line' : Text}
      (h : Spaced (topicBelow before) line line') :
      Loosened (before ++ line :: after) (before ++ line' :: after)

namespace Compilation

/-- Comments and blank lines do nothing, whatever group is open. -/
theorem compileLine_unread (ws : Workspace) (groups : List GroupKind) (c : Compilation)
    {line : Text} (h : isComment line = true ∨ strip line = []) :
    compileLine ws groups c line = .ok c := by
  unfold compileLine
  rcases h with hcomment | hblank
  · have hhead : (strip line).head? = some '#' := by simpa [isComment] using hcomment
    simp only [hhead, if_true]
  · rw [hblank]
    cases c.group <;> rfl

theorem compileLine_saysSame {topic : Topic} {line line' : Text} (h : SaysSame topic line line')
    (ws : Workspace) (groups : List GroupKind) {c : Compilation} {last : Option Text}
    (hcursor : c.cursor = some ((topic.within groups).cursor last)) :
    compileLine ws groups c line' = compileLine ws groups c line := by
  unfold compileLine
  dsimp only
  rw [h.mark]
  by_cases hheader : isHeader line = true
  · have hhead : (strip line).head? = some '[' := by simpa [isHeader] using hheader
    simp only [hhead, Option.some_inj, if_true]
    unfold openGroup
    rw [h.header hheader]
  · have hbody : isHeader line = false := by simpa using hheader
    have hhead : ¬(strip line).head? = some '[' := by simpa [isHeader] using hheader
    have hkeys (c : Compilation) : c.layerLine (strip line') = c.layerLine (strip line) := by
      unfold layerLine
      rw [readBinding_words, readBinding_words, h.keys hbody]
    have hactions (hgroup : c.group = .macros) :
        c.macroLine (strip line') = c.macroLine (strip line) := by
      obtain ⟨name, settings, htopic⟩ : ∃ name settings, topic = .actions name settings := by
        simp only [group, hcursor] at hgroup
        cases topic with
        | actions name settings => exact ⟨name, settings, rfl⟩
        | nothing => cases hgroup
        | keys tables => by_cases hin : GroupKind.layer ∈ groups <;>
            simp [Topic.within, hin, Topic.cursor] at hgroup
        | lighting name layers => by_cases hin : GroupKind.lighting ∈ groups <;>
            simp [Topic.within, hin, Topic.cursor] at hgroup
      rw [macroLine_words, macroLine_words, h.actions hbody name settings htopic]
    cases hgroup : c.group with
    | layer => simp only [hhead, if_false, hkeys]
    | macros => simp only [hhead, if_false, hactions hgroup]
    | outside => simp only [hhead, if_false]
    | lighting => simp only [hhead, if_false]

/-- After some lines of a pass the cursor is on the topic of the lines below. -/
theorem foldlM_topicBelow {c : Compilation} (h : c.Sound) (ws : Workspace)
    (groups : List GroupKind) (before : List Text) :
    ∃ c' last, before.foldlM (compileLine ws groups) { c with cursor := some {} } = .ok c' ∧
      c'.Sound ∧ c'.cursor = some (((topicBelow before).within groups).cursor last) := by
  induction before using List.reverseRecOn with
  | nil => exact ⟨_, none, rfl, h.framed (some {}) c.lightsOff, rfl⟩
  | append_singleton before line ih =>
    obtain ⟨middle, last, hbefore, hsound, hcursor⟩ := ih
    rw [List.foldlM_append, hbefore, ok_bind, List.foldlM_cons]
    cases hheader : isHeader line with
    | true =>
      rw [compileLine_header ws groups middle hheader]
      refine ⟨_, middle.openName?, rfl, (hsound.enter ws _).framed _ _, ?_⟩
      simp [topicBelow, hheader, head, framed]
    | false =>
      rw [compileLine_body hsound ws groups hcursor hheader]
      have hsame : topicBelow (before ++ [line]) = topicBelow before := by
        simp [topicBelow, hheader]
      refine ⟨_, last, rfl, ?_⟩
      rw [hsame]
      split
      · exact ⟨hsound, hcursor⟩
      · exact ⟨hsound.fillLine _ _, (cursor_fillLine ..).trans hcursor⟩

theorem compilePass_loosened {c : Compilation} (h : c.Sound) (ws : Workspace)
    (groups : List GroupKind) {lines lines' : List Text} (hloose : Loosened lines lines') :
    c.compilePass ws groups lines' = c.compilePass ws groups lines := by
  unfold compilePass
  cases hloose with
  | line before after hunread =>
    obtain ⟨middle, last, hbefore, -, -⟩ := foldlM_topicBelow h ws groups before
    rw [List.foldlM_append, List.foldlM_append, hbefore, ok_bind, ok_bind, List.foldlM_cons,
      compileLine_unread ws groups middle hunread, ok_bind]
  | blanks before after hspaced =>
    obtain ⟨middle, last, hbefore, -, hcursor⟩ := foldlM_topicBelow h ws groups before
    rw [List.foldlM_append, List.foldlM_append, hbefore, ok_bind, ok_bind, List.foldlM_cons,
      List.foldlM_cons, compileLine_saysSame hspaced.saysSame ws groups hcursor]

theorem compilePass_relaid {c : Compilation} (h : c.Sound) (ws : Workspace)
    (groups : List GroupKind) {lines lines' : List Text}
    (hlaid : Relation.EqvGen Loosened lines lines') :
    c.compilePass ws groups lines' = c.compilePass ws groups lines := by
  induction hlaid with
  | rel _ _ hloose => exact compilePass_loosened h ws groups hloose
  | refl _ => rfl
  | symm _ _ _ ih => exact ih.symm
  | trans _ _ _ _ _ ih ih' => exact ih'.trans ih

end Compilation

/-- The layout of a text is not read. Take texts that come from each other by adding or deleting,
any number of times and anywhere, blank lines, comments, blanks at the ends of lines, blanks around
colons and between tokens in bodies, and blanks around the commas of lists in headers, empty fields
and entries apart. They are compiled alike, for every keyboard and whatever the effect files are: to
the same profile, with the same log. -/
theorem layout_is_not_read (ws : Workspace) {lines lines' : List Text}
    (h : Relation.EqvGen Loosened lines lines') :
    ∃ c c', compile ws lines = .ok c ∧ compile ws lines' = .ok c' ∧
      c'.profile = c.profile ∧ c'.log = c.log := by
  obtain ⟨first, hfirst, hguarded⟩ :=
    Compilation.guarded_start.compilePass ws Compilation.firstPass lines
  obtain ⟨second, hsecond, hguarded'⟩ := hguarded.compilePass ws Compilation.secondPass lines
  obtain ⟨final, hfinal, -⟩ := hguarded'.finalize
  refine ⟨final, final, ?_, ?_, rfl, rfl⟩
  · rw [compile, Compilation.compile, hfirst, ok_bind, hsecond, ok_bind, hfinal]
  · rw [compile, Compilation.compile, Compilation.compilePass_relaid Compilation.sound_start ws _ h,
      hfirst, ok_bind, Compilation.compilePass_relaid hguarded.toSound ws _ h, hsecond, ok_bind,
      hfinal]

/-- A blank line goes and a comment comes. There are more blanks at the ends of a line, in an
argument list, between the tokens of a macro's line, in a list of names, and around a colon; one is
from another script. -/
theorem layout_is_not_read_copy :
    let dense := ["", "[Macro(Copy,20)]", "press:LCtrl+C:5", "[Base,FnLayer1]",
      "LAlt+F2:Macro(Copy)"].map String.toList
    let loose := ["\t[Macro(Copy , 20)] ", "press:LCtrl + C:5", "[Base ,FnLayer1]",
      "LAlt+F2\u3000: Macro(Copy)", " # done"].map String.toList
    Relation.EqvGen Loosened dense loose ∧
      ∃ c c', compile {} dense = .ok c ∧ compile {} loose = .ok c' ∧
        c'.profile = c.profile ∧ c'.log = c.log := by
  intro dense loose
  have harguments : Spaced .nothing "[Macro(Copy,20)]".toList "[Macro(Copy , 20)]".toList :=
    .arguments "Macro".toList "Copy".toList [' '] [' '] "20".toList [] [] (by decide) (by decide)
      (by decide) (by decide) (by decide) (by decide) ⟨'y', rfl, by decide⟩ ⟨'2', rfl, by decide⟩
  have hends : Spaced .nothing "[Macro(Copy , 20)]".toList "\t[Macro(Copy , 20)] ".toList :=
    .ends ['\t'] "[Macro(Copy , 20)]".toList [' '] (by decide) (by decide)
  have hplus : Spaced (.actions "Copy".toList ["20".toList]) "press:LCtrl+C:5".toList
      "press:LCtrl + C:5".toList :=
    .plus "press:LCtrl".toList [' '] [' '] "C:5".toList (by decide) (by decide) (by decide)
      (.inl (by decide))
  have hnames (topic : Topic) : Spaced topic "[Base,FnLayer1]".toList "[Base ,FnLayer1]".toList :=
    .names "Base".toList [' '] [] "FnLayer1".toList [] (by decide) (by decide) (by decide)
      (by decide) ⟨'e', rfl, by decide⟩ ⟨'F', rfl, by decide⟩
  have hcolon (topic : Topic) : Spaced topic "LAlt+F2:Macro(Copy)".toList
      "LAlt+F2\u3000: Macro(Copy)".toList :=
    .colon "LAlt+F2".toList ['\u3000'] [' '] "Macro(Copy)".toList (by decide) (by decide)
      (by decide) ⟨'2', rfl, by decide⟩ ⟨'M', rfl, by decide⟩
  have hlaid : Relation.EqvGen Loosened dense loose := by
    refine .trans _ _ _ (.symm _ _ (.rel _ _ (.line [] _ (.inr rfl)))) ?_
    refine .trans _ _ _ (.rel _ _ (.blanks [] _ harguments)) ?_
    refine .trans _ _ _ (.rel _ _ (.blanks [] _ hends)) ?_
    refine .trans _ _ _ (.rel _ _ (.blanks ["\t[Macro(Copy , 20)] ".toList] _ hplus)) ?_
    refine .trans _ _ _ (.rel _ _ (.blanks ["\t[Macro(Copy , 20)] ".toList,
      "press:LCtrl + C:5".toList] _ (hnames _))) ?_
    refine .trans _ _ _ (.rel _ _ (.blanks ["\t[Macro(Copy , 20)] ".toList,
      "press:LCtrl + C:5".toList, "[Base ,FnLayer1]".toList] _ (hcolon _))) ?_
    exact .rel _ _ (.line ["\t[Macro(Copy , 20)] ".toList, "press:LCtrl + C:5".toList,
      "[Base ,FnLayer1]".toList, "LAlt+F2\u3000: Macro(Copy)".toList] [] (.inl (by decide)))
  exact ⟨hlaid, layout_is_not_read {} hlaid⟩

end KeyProfile

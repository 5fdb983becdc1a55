import KeyProfile.Proofs.MacroHeaders
import KeyProfile.Proofs.MacroLines

/-!
What the macros of a text mean, said over the text alone. A header of a macro has a name and the
texts of its settings, and below it stand lines (`MacroPart`). A line moves the switches that its
tokens name into the states of its action word, and waits after the last of these moves
(`MacroLine.stated`). Parts of one name make one macro: it has the settings of the last part and
plays the lines of all of them. Main statement: `macros_merge_by_name`.
-/

namespace KeyProfile

namespace MacroAction

/-- The action that makes a move and then waits. -/
def ofMove (delay : Int) (move : KeyState × Switch) : MacroAction where
  state := move.1
  kind := move.2.kind
  code := move.2.code
  modifiers := move.2.modifiers
  delay := delay

theorem ofMove_move (a : MacroAction) : ofMove a.delay a.move = a := rfl

/-- Actions that do not wait are their moves. -/
theorem map_ofMove_move {actions : List MacroAction} (h : ∀ a ∈ actions, a.delay = 0) :
    (actions.map move).map (ofMove 0) = actions := by
  rw [List.map_map]
  refine (List.map_congr_left fun a ha => ?_).trans (List.map_id actions)
  rw [Function.comp_apply, ← h a ha, ofMove_move]
  rfl

end MacroAction

namespace MacroLine

/-- The moves of a line: in each state of its first field the switches that the tokens of its second
field name, in their order. -/
def moves (line : Text) : List (KeyState × Switch) :=
  match Text.fields ':' line with
  | word :: keys :: _ => (statesOf word).flatMap fun state =>
    ((Text.fields '+' keys).filterMap switch?).map fun s => (state, s)
  | _ => []

/-- How long a line waits: its third field, or the default if that is no delay. -/
def wait (defaultDelay : Int) (line : Text) : Int :=
  match Text.fields ':' line with
  | _ :: _ :: delay :: _ => (KeyToken.decimalWithin? 0 0xFFFF delay).getD defaultDelay
  | _ => defaultDelay

/-- The actions that a line states: all its moves, the last of them with the wait. -/
def stated (defaultDelay : Int) (line : Text) : List MacroAction :=
  (moves line).dropLast.map (MacroAction.ofMove 0) ++
    (moves line).getLast?.toList.map (MacroAction.ofMove (wait defaultDelay line))

theorem waitAfter_map_ofMove (delay : Int) (moves : List (KeyState × Switch)) :
    waitAfter delay (moves.map (MacroAction.ofMove 0)) =
      moves.dropLast.map (MacroAction.ofMove 0) ++
        moves.getLast?.toList.map (MacroAction.ofMove delay) := by
  rcases List.eq_nil_or_concat moves with rfl | ⟨front, last, rfl⟩
  · rfl
  · rw [List.concat_eq_append, List.map_append, List.map_singleton, waitAfter_concat,
      List.dropLast_concat, List.getLast?_concat]
    rfl

/-- A line expands to what it states. -/
theorem expandLine_eq_stated (defaultDelay : Int) (line : Text) :
    expandLine defaultDelay line = stated defaultDelay line := by
  unfold expandLine stated
  cases hfields : Text.fields ':' line with
  | nil => simp [moves, hfields]
  | cons word others =>
    cases others with
    | nil => simp [moves, hfields]
    | cons keys rest =>
      have hmoves : moves line = (statesOf word).flatMap fun state =>
          ((Text.fields '+' keys).filterMap switch?).map fun s => (state, s) := by
        simp only [moves, hfields]
      have hwait : wait defaultDelay line = delayOf defaultDelay rest.head? := by
        unfold wait delayOf
        rw [hfields]
        cases rest <;> rfl
      cases hstates : states? word with
      | none => simp [hmoves, hstates, states?_eq_none_iff.mp hstates]
      | some states =>
        rw [statesOf_of_states? hstates, ← map_move_actions] at hmoves
        dsimp only
        rw [hstates, hmoves, hwait, ← waitAfter_map_ofMove,
          MacroAction.map_ofMove_move delay_actions]
        rfl

end MacroLine

/-- A header of a macro with the lines below it. -/
structure MacroPart where
  name : Text
  /-- The texts of the settings. -/
  arguments : List Text
  lines : List Text

namespace MacroPart

/-- The header of the block calls the word for macros, in any case, and the first argument is not
blank. -/
def ofBlock? (b : Block) : Option MacroPart :=
  match GroupHeader.ofLine? b.header.strip with
  | some ⟨[kind], some (name :: arguments)⟩ =>
    if kind.lower = "macro".toList ∧ name ≠ [] then some ⟨name, arguments, b.content⟩ else none
  | _ => none

/-- The settings that the header gives alone, those it leaves out being the default. -/
def settings (p : MacroPart) : MacroSettings := MacroSettings.placedIn p.arguments

/-- What the lines state, the delay of this header being the default. -/
def actions (p : MacroPart) : List MacroAction :=
  p.lines.flatMap (MacroLine.stated p.settings.defaultDelay)

/-- The macro that parts of one name make together, if there are any. -/
def merge? (name : Text) (parts : List MacroPart) : Option Macro :=
  parts.getLast?.map fun last =>
    { name, settings := last.settings, actions := parts.flatMap actions }

theorem macro?_eq (b : Block) :
    b.macro? = (ofBlock? b).map fun p => (p.name, p.settings) := by
  have hkind (name : Text) : Directive.ofName name = .defineMacro ↔ name.lower = "macro".toList :=
    Directive.ofName_eq_iff (by decide) (by decide) name
  unfold Block.macro? ofBlock?
  match GroupHeader.ofLine? b.header.strip with
  | some ⟨[kind], some (name :: arguments)⟩ =>
    simp only [hkind, MacroSettings.ofArguments_eq]
    split <;> rfl
  | none => rfl
  | some ⟨[], _⟩ => rfl
  | some ⟨[_], none⟩ => rfl
  | some ⟨[_], some []⟩ => rfl
  | some ⟨_ :: _ :: _, _⟩ => rfl

theorem macroName?_eq (b : Block) : b.macroName? = (ofBlock? b).map name := by
  rw [Block.macroName?, macro?_eq, Option.map_map]
  rfl

variable {b : Block} {p : MacroPart}

theorem settings_eq (h : ofBlock? b = some p) : b.settings = p.settings := by
  rw [Block.settings, macro?_eq, h]
  rfl

theorem lines_of_ofBlock? (h : ofBlock? b = some p) : p.lines = b.content := by
  unfold ofBlock? at h
  split at h
  · split at h <;> cases h
    rfl
  · cases h

theorem expansion_eq (h : ofBlock? b = some p) : b.expansion = p.actions := by
  rw [Block.expansion, settings_eq h, actions, lines_of_ofBlock? h]
  congr 1
  funext line
  exact MacroLine.expandLine_eq_stated _ line

/-- One part more gives the settings and adds its actions. -/
theorem merge?_concat (wanted : Text) (parts : List MacroPart) (p : MacroPart) :
    merge? wanted (parts ++ [p]) =
      some
        { (merge? wanted parts).getD { name := wanted } with
          settings := p.settings
          actions := ((merge? wanted parts).getD { name := wanted }).actions ++ p.actions } := by
  unfold merge?
  rw [List.getLast?_concat, List.flatMap_append, List.flatMap_singleton]
  cases hlast : parts.getLast? with
  | none =>
    have hempty : parts = [] := List.getLast?_eq_none_iff.mp hlast
    rw [hempty]
    rfl
  | some last => rfl

/-- Merging the blocks of a name is merging its parts. -/
theorem merged_eq (blocks : List Block) (wanted : Text) :
    merged blocks wanted =
      merge? wanted ((blocks.filterMap ofBlock?).filter fun p => p.name == wanted) := by
  induction blocks using List.reverseRecOn with
  | nil => rfl
  | append_singleton blocks b ih =>
    rw [merged_concat, ih, macroName?_eq, List.filterMap_append, List.filter_append]
    cases hpart : ofBlock? b with
    | none => simp [hpart]
    | some p =>
      have hnew : [b].filterMap ofBlock? = [p] := by simp [hpart]
      rw [hnew, settings_eq hpart, expansion_eq hpart]
      by_cases hname : p.name = wanted
      · have hown : [p].filter (fun p => p.name == wanted) = [p] := by simp [hname]
        rw [hown, merge?_concat, Option.map_some, hname, if_pos rfl]
      · simp [hname]

end MacroPart

/-- Macros merge by name. The macros of a profile are the distinct names that headers of macros
give, in the order in which they first do. Each has the settings that its last header gives alone,
and the actions that all lines of all its blocks state, in the order of the text, a line without a
delay having that of the header above it. Other blocks in between take no part, whatever they
are. -/
theorem macros_merge_by_name (ws : Workspace) (lines : List Text) :
    ∃ c, compile ws lines = .ok c ∧
      let parts := (Outline.ofLines lines).blocks.filterMap MacroPart.ofBlock?
      c.profile.macros.keys = (parts.map MacroPart.name).eraseDups ∧
      ∀ name, (c.profile.macros.get? name).map (fun m => { m with id := none }) =
        MacroPart.merge? name (parts.filter fun p => p.name == name) := by
  obtain ⟨c, hcompile, -, hmacros⟩ := compile_shows ws lines
  obtain ⟨hkeys, hget⟩ := Compilation.macros_shown ws (Outline.ofLines lines).blocks
  refine ⟨c, hcompile, ?_, ?_⟩
  · have hname : Block.macroName? = fun b => (MacroPart.ofBlock? b).map MacroPart.name :=
      funext MacroPart.macroName?_eq
    rw [hmacros, hkeys, List.map_filterMap, hname]
  · intro name
    rw [hmacros, hget, Option.map_map, MacroPart.merged_eq]
    -- a merged macro has no id to begin with
    unfold MacroPart.merge?
    rw [Option.map_map]
    rfl

end KeyProfile

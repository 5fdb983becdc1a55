import KeyProfile.Proofs.NoFaults
import KeyProfile.Proofs.PressLines

/-!
What one line does to the macro it belongs to. While a group of actions is being read there is a
macro that its lines go to (`Guarded.exists_open`). A line adds the actions of its tokens, state by
state, at the end of that macro; all of them are over at once but the last, which waits
(`waitAfter_concat`). Whatever the line is, nothing else of the compilation changes. Main statement:
`macro_line_appends`.
-/

namespace KeyProfile

namespace MacroLine

/-- An action by itself does not wait. -/
theorem delay_action? {state : KeyState} {token : Text} {a : MacroAction}
    (h : action? state token = some a) : a.delay = 0 := by
  obtain ⟨s, -, rfl⟩ := Option.map_eq_some_iff.mp h
  split <;> rfl

theorem delay_actions {states : List KeyState} {tokens : List Text} :
    ∀ a ∈ actions states tokens, a.delay = 0 := by
  intro a ha
  obtain ⟨state, -, hstate⟩ := List.mem_flatMap.mp ha
  obtain ⟨token, -, htoken⟩ := List.mem_filterMap.mp hstate
  exact delay_action? htoken

/-- Of several actions only the last waits. -/
theorem waitAfter_concat (delay : Int) (front : List MacroAction) (last : MacroAction) :
    waitAfter delay (front ++ [last]) = front ++ [{ last with delay }] := by
  induction front with
  | nil => rfl
  | cons first front ih =>
    cases front with
    | nil => rfl
    | cons second front => exact congrArg (List.cons first) ih

/-- The states that keys go through after an action word, in any case; other words move nothing. -/
def statesOf (word : Text) : List KeyState :=
  if word.strip.lower = "press".toList then [.down, .up]
  else if word.strip.lower = "down".toList then [.down]
  else if word.strip.lower = "up".toList then [.up]
  else []

theorem states?_eq (word : Text) :
    states? word = if statesOf word = [] then none else some (statesOf word) := by
  unfold statesOf states?
  generalize word.strip.lower = action
  by_cases hpress : action = "press".toList
  · subst hpress
    rfl
  by_cases hdown : action = "down".toList
  · subst hdown
    rfl
  by_cases hup : action = "up".toList
  · subst hup
    rfl
  rw [if_neg hpress, if_neg hdown, if_neg hup, if_pos rfl]
  exact List.lookup_eq_none_iff.mpr (by simpa using ⟨hpress, hdown, hup⟩)

theorem states?_eq_none_iff {word : Text} : states? word = none ↔ statesOf word = [] := by
  rw [states?_eq]
  split <;> simp_all

theorem statesOf_of_states? {word : Text} {states : List KeyState}
    (h : states? word = some states) : statesOf word = states := by
  rw [states?_eq] at h
  split at h
  · cases h
  · exact Option.some_inj.mp h

theorem states?_of_ne_nil {word : Text} (h : statesOf word ≠ []) :
    states? word = some (statesOf word) := by
  rw [states?_eq, if_neg h]

/-- A line with an action word does something as soon as one of its tokens is a name. -/
theorem actions_ne_nil {states : List KeyState} (hstates : states ≠ []) {tokens : List Text}
    {token : Text} (htoken : token ∈ tokens)
    (hnamed : (SymbolTable.standard.find? token).isSome = true) : actions states tokens ≠ [] := by
  obtain ⟨state, hstate⟩ := List.exists_mem_of_ne_nil states hstates
  obtain ⟨s, hs⟩ := Option.isSome_iff_exists.mp hnamed
  have haction : action? state token = some _ := congrArg (Option.map _) hs
  exact List.ne_nil_of_mem
    (List.mem_flatMap.mpr ⟨state, hstate, List.mem_filterMap.mpr ⟨token, htoken, haction⟩⟩)

theorem actions_eq_nil (states : List KeyState) {tokens : List Text}
    (hnone : ∀ token ∈ tokens, SymbolTable.standard.find? token = none) :
    actions states tokens = [] := by
  refine List.flatMap_eq_nil_iff.mpr fun state _ => List.filterMap_eq_nil_iff.mpr ?_
  intro token htoken
  rw [action?, hnone token htoken]
  rfl

end MacroLine

namespace Compilation

/-- Lines go to a macro, which is there. -/
structure Open (c : Compilation) (m : Macro) : Prop where
  group : c.group = .macros
  name : c.openName? = some m.name
  item : c.macros.get? m.name = some m

/-- While lines of actions are read, there is a macro that they go to. -/
theorem Guarded.exists_open {c : Compilation} (h : c.Guarded) (hgroup : c.group = .macros) :
    ∃ m, c.Open m := by
  obtain ⟨name, hname, hdefined⟩ := h.faultFree.actions hgroup
  obtain ⟨m, hm⟩ := Option.isSome_iff_exists.mp hdefined
  have hown : m.name = name := h.named name m hm
  exact ⟨m, hgroup, hown ▸ hname, hown ▸ hm⟩

/-- What a line makes of a compilation in which a macro is open. -/
structure LineDone (c : Compilation) (m : Macro) (line : Text) (after : Compilation) : Prop where
  /-- A line with fewer than two fields is passed over. -/
  short : (Text.fields ':' line).length < 2 → after = c
  /-- A line with an unknown action word leaves a warning, and only that. -/
  unknown : ∀ word keys rest, Text.fields ':' line = word :: keys :: rest →
    MacroLine.statesOf word = [] → after = c.record [.unknownAction word.strip m.name]
  /-- A line none of whose tokens is a name changes no macro. -/
  unnamed : ∀ word keys rest, Text.fields ':' line = word :: keys :: rest →
    (∀ token ∈ Text.fields '+' keys, SymbolTable.standard.find? token = none) →
    after.macros = c.macros
  /-- Any other line adds the actions of its tokens, in each state of its action word. The last one
  waits as the third field says, or as long as the macro does by default. -/
  named : ∀ word keys rest, Text.fields ':' line = word :: keys :: rest →
    MacroLine.statesOf word ≠ [] →
    (∃ token ∈ Text.fields '+' keys, (SymbolTable.standard.find? token).isSome = true) →
    ∃ front last,
      after.macros.get? m.name = some { m with actions := m.actions ++ (front ++ [last]) } ∧
      (front ++ [last]).map MacroAction.move =
        ((MacroLine.statesOf word).flatMap fun state =>
          ((Text.fields '+' keys).filterMap MacroLine.switch?).map fun s => (state, s)) ∧
      (∀ a ∈ front, a.delay = 0) ∧
      last.delay = (rest.head?.bind (KeyToken.decimalWithin? 0 0xFFFF)).getD
        m.settings.defaultDelay
  /-- The other macros stay as they are. -/
  others : ∀ other, other ≠ m.name → after.macros.get? other = c.macros.get? other
  /-- There is nothing to say about an action word that is known. -/
  silent : (∀ word keys rest, Text.fields ':' line = word :: keys :: rest →
    MacroLine.statesOf word ≠ []) → after.log = c.log
  /-- Nothing but the actions of the open macro and the log can have changed. -/
  rest : after.macros.items.keys = c.macros.items.keys ∧
    after = { c with macros := { c.macros with items := after.macros.items }, log := after.log }

/-- The line of a word that is known, with what it adds. -/
theorem actLine_of_states {c : Compilation} {word keys : Text} {rest : List Text}
    {states : List KeyState} {line : Text} (hfields : Text.fields ':' line = word :: keys :: rest)
    (hstates : MacroLine.states? word = some states) (name : Text) :
    c.actLine name line =
      { c with macros := c.macros.update name (extend states keys rest.head?) } := by
  rw [actLine, hfields]
  dsimp only
  rw [hstates]

theorem actLine_of_unknown {c : Compilation} {word keys : Text} {rest : List Text} {line : Text}
    (hfields : Text.fields ':' line = word :: keys :: rest)
    (hunknown : MacroLine.states? word = none) (name : Text) :
    c.actLine name line = c.record [.unknownAction word.strip name] := by
  rw [actLine, hfields]
  dsimp only
  rw [hunknown]

theorem actLine_of_short {c : Compilation} {line : Text}
    (hshort : (Text.fields ':' line).length < 2) (name : Text) : c.actLine name line = c := by
  rw [actLine]
  split
  · next hfields =>
    simp only [hfields, List.length_cons] at hshort
    omega
  · rfl

/-- Adding no actions leaves a macro alone. -/
theorem update_extend_of_unnamed (r : Registry Macro) (name : Text) (states : List KeyState)
    {keys : Text} (hnone : ∀ token ∈ Text.fields '+' keys, SymbolTable.standard.find? token = none)
    (delay : Option Text) : r.update name (extend states keys delay) = r := by
  have hsame : extend states keys delay = id := by
    funext m
    rw [extend, MacroLine.expand, MacroLine.actions_eq_nil states hnone, MacroLine.waitAfter,
      List.append_nil]
    rfl
  have hitems : r.items.modify name id = r.items := by
    ext1
    simp [OrderedMap.modify, OrderedMap.mapValues]
  rw [Registry.update, hsame, hitems]

/-- The actions that a line adds, the last of them apart. -/
theorem expand_named {states : List KeyState} (hstates : states ≠ []) {keys : Text}
    (hnamed : ∃ token ∈ Text.fields '+' keys, (SymbolTable.standard.find? token).isSome = true)
    (defaultDelay : Int) (delay : Option Text) :
    ∃ front last, MacroLine.expand defaultDelay states keys delay = front ++ [last] ∧
      (front ++ [last]).map MacroAction.move = (states.flatMap fun state =>
        ((Text.fields '+' keys).filterMap MacroLine.switch?).map fun s => (state, s)) ∧
      (∀ a ∈ front, a.delay = 0) ∧
      last.delay = MacroLine.delayOf defaultDelay delay := by
  obtain ⟨token, htoken, hname⟩ := hnamed
  obtain ⟨front, last, hconcat⟩ := List.eq_nil_or_concat _ |>.resolve_left
    (MacroLine.actions_ne_nil hstates htoken hname)
  have hexpand : MacroLine.expand defaultDelay states keys delay =
      front ++ [{ last with delay := MacroLine.delayOf defaultDelay delay }] := by
    rw [MacroLine.expand, hconcat, List.concat_eq_append, MacroLine.waitAfter_concat]
  refine ⟨front, _, hexpand, ?_, ?_, rfl⟩
  · rw [← hexpand, MacroLine.expand, MacroLine.move_waitAfter, MacroLine.map_move_actions]
  · intro a ha
    have hmem : a ∈ MacroLine.actions states (Text.fields '+' keys) := by
      rw [hconcat]
      simp [ha]
    exact MacroLine.delay_actions a hmem

/-- Whenever lines go to a macro, any line can be read. -/
theorem Open.macroLine_done {c : Compilation} {m : Macro} (h : c.Open m) (line : Text) :
    ∃ after, c.macroLine line = .ok after ∧ c.LineDone m line after := by
  refine ⟨_, macroLine_eq h.name line, ?_, ?_, ?_, ?_, ?_, ?_, ?_⟩
  · intro hshort
    exact actLine_of_short hshort m.name
  · intro word keys rest hfields hunknown
    exact actLine_of_unknown hfields (MacroLine.states?_eq_none_iff.mpr hunknown) m.name
  · intro word keys rest hfields hnone
    cases hstates : MacroLine.states? word with
    | none =>
      rw [actLine_of_unknown hfields hstates]
      rfl
    | some states =>
      rw [actLine_of_states hfields hstates]
      exact update_extend_of_unnamed c.macros m.name states hnone rest.head?
  · intro word keys rest hfields hstates hnamed
    obtain ⟨front, last, hexpand, hmoves, hfront, hlast⟩ :=
      expand_named hstates hnamed m.settings.defaultDelay rest.head?
    refine ⟨front, last, ?_, hmoves, hfront, hlast⟩
    have hitem : c.macros.items.get? m.name = some m := h.item
    rw [actLine_of_states hfields (MacroLine.states?_of_ne_nil hstates), Registry.get?,
      Registry.update, OrderedMap.get?_modify, if_pos rfl, hitem, ← hexpand]
    rfl
  · intro other hother
    exact (get?_actLine c m.name line other).trans (if_neg hother)
  · intro hknown
    unfold actLine
    split
    · next word keys rest hfields =>
      rw [MacroLine.states?_of_ne_nil (hknown word keys rest hfields)]
    · rfl
  · refine ⟨keys_actLine c m.name line, ?_⟩
    unfold actLine
    split
    · split <;> rfl
    · rfl

end Compilation

/-- A line of actions adds just what it says. Whenever lines go to a macro, any line can be read,
and they do while a group of actions is being read, whatever was asked for before. If the line has
fewer than two fields, an unknown action word, or no token that is a name, no macro changes.
Otherwise the actions of its tokens are added to the open macro, once for each state of its action
word; what was there stays, and of the new actions only the last one waits. No other macro, no
setting and nothing else of the compilation changes; an unknown word leaves a warning. -/
theorem macro_line_appends (c : Compilation) (line : Text) :
    (∀ m, c.Open m → ∃ after, c.macroLine line = .ok after ∧ c.LineDone m line after) ∧
    ∀ (ws : Workspace) (requests : List Request), Request.runAll ws requests = .ok c →
      c.group = .macros →
        ∃ m after, c.Open m ∧ c.macroLine line = .ok after ∧ c.LineDone m line after := by
  refine ⟨fun m h => h.macroLine_done line, ?_⟩
  intro ws requests hrun hgroup
  obtain ⟨reached, hreached, hguarded⟩ := Request.runAll_guarded ws requests
  cases hreached.symm.trans hrun
  obtain ⟨m, hopen⟩ := hguarded.exists_open hgroup
  obtain ⟨after, hafter, hdone⟩ := hopen.macroLine_done line
  exact ⟨m, after, hopen, hafter, hdone⟩

/-- A modifier and a key pressed together, with a token between them that is no name and an empty
field before the delay, in a macro that already has an action. -/
theorem macro_line_appends_chord :
    ∃ c m after, Compilation.compilePass {} Compilation.firstPass
        (["[Macro(Drag,20)]", "down: B"].map String.toList) {} = .ok c ∧
      c.Open m ∧ c.macroLine "press: LCtrl+Nope+A::70".toList = .ok after ∧
      ∃ front last,
        after.macros.get? "Drag".toList =
          some { m with actions := { state := .down, code := 5, delay := 20 } ::
            (front ++ [last]) } ∧
        (front ++ [last]).map MacroAction.move =
          [(.down, ⟨.key, 0, 1⟩), (.down, ⟨.key, 4, 0⟩), (.up, ⟨.key, 0, 1⟩),
            (.up, ⟨.key, 4, 0⟩)] ∧
        (∀ a ∈ front, a.delay = 0) ∧ last.delay = 70 := by
  have hpass : (Compilation.compilePass {} Compilation.firstPass
      (["[Macro(Drag,20)]", "down: B"].map String.toList) {}).toOption.map
        (fun c => (c.group, c.openName?, c.macros.get? "Drag".toList)) =
      some (.macros, some "Drag".toList,
        some ⟨"Drag".toList, none, { defaultDelay := 20 },
          [{ state := .down, code := 5, delay := 20 }]⟩) := by
    decide +kernel
  cases hc : Compilation.compilePass {} Compilation.firstPass
      (["[Macro(Drag,20)]", "down: B"].map String.toList) {} with
  | error fault => rw [hc] at hpass; cases hpass
  | ok c =>
    rw [hc] at hpass
    obtain ⟨hgroup, hrest⟩ := Prod.mk.inj (Option.some_inj.mp hpass)
    obtain ⟨hname, hitem⟩ := Prod.mk.inj hrest
    have hopen : c.Open ⟨"Drag".toList, none, { defaultDelay := 20 },
        [{ state := .down, code := 5, delay := 20 }]⟩ := ⟨hgroup, hname, hitem⟩
    obtain ⟨after, hafter, hdone⟩ :=
      (macro_line_appends c "press: LCtrl+Nope+A::70".toList).1 _ hopen
    obtain ⟨front, last, hget, hmoves, hfront, hlast⟩ := hdone.named "press".toList
      " LCtrl+Nope+A".toList ["70".toList] (by decide) (by decide)
      ⟨"A".toList, by decide, by decide +kernel⟩
    refine ⟨c, _, after, rfl, hopen, hafter, front, last, hget, ?_, hfront, ?_⟩
    · rw [hmoves]
      decide +kernel
    · rw [hlast]
      decide

end KeyProfile

import KeyProfile.Proofs.MacroMerging

/-!
Press lines hold nothing. An action moves a switch, which is a key, a modifier or a mouse button,
down or up. A press line moves the switches of its tokens down and then the same ones up, so nothing
goes up that is not down, and after the line everything is as it was (`balanced_press`). Lines one
after another do not interfere, so a macro made of press lines is balanced as a whole.
-/

namespace KeyProfile

/-- A key, a modifier or a mouse button, by the fields that actions name it with. -/
structure Switch where
  kind : ActionKind
  code : Int
  modifiers : Int
deriving DecidableEq

/-- A symbol that has modifier bits is a modifier, another one that has a button is that button, and
all others are keys. -/
def Switch.ofSymbol (symbol : Symbol) : Switch :=
  match symbol.modifier, symbol.button with
  | some bits, _ => ⟨.key, 0, bits⟩
  | none, some button => ⟨.mouse, button.bit, 0⟩
  | none, none => ⟨.key, DriverValue.usage symbol.value, 0⟩

namespace MacroAction

def switch (a : MacroAction) : Switch := ⟨a.kind, a.code, a.modifiers⟩

/-- What the action does, waiting apart. -/
def move (a : MacroAction) : KeyState × Switch := (a.state, a.switch)

end MacroAction

/-- How many of the actions move a switch into a state. -/
def moves (state : KeyState) (s : Switch) (actions : List MacroAction) : Nat :=
  (actions.map MacroAction.move).count (state, s)

/-- How often a switch went down without coming up. -/
def held (s : Switch) (actions : List MacroAction) : Int :=
  moves .down s actions - moves .up s actions

/-- No switch ever goes up more often than it went down, and in the end each went up as often. -/
structure Balanced (actions : List MacroAction) : Prop where
  never_ahead : ∀ s front, front <+: actions → moves .up s front ≤ moves .down s front
  released : ∀ s, moves .up s actions = moves .down s actions

theorem moves_append (state : KeyState) (s : Switch) (actions more : List MacroAction) :
    moves state s (actions ++ more) = moves state s actions + moves state s more := by
  rw [moves, List.map_append, List.count_append]
  rfl

theorem held_append (s : Switch) (actions more : List MacroAction) :
    held s (actions ++ more) = held s actions + held s more := by
  unfold held
  rw [moves_append, moves_append]
  omega

namespace Balanced

theorem nil : Balanced [] where
  never_ahead := by
    intro s front hfront
    rw [List.prefix_nil.mp hfront]
    exact Nat.le_refl _
  released := fun _ => rfl

theorem append {actions more : List MacroAction} (h : Balanced actions) (h' : Balanced more) :
    Balanced (actions ++ more) where
  never_ahead := by
    intro s front hfront
    rw [List.prefix_iff_eq_take.mp hfront, List.take_append, moves_append, moves_append]
    exact Nat.add_le_add (h.never_ahead s _ (List.take_prefix ..))
      (h'.never_ahead s _ (List.take_prefix ..))
  released := by
    intro s
    rw [moves_append, moves_append, h.released s, h'.released s]

theorem flatMap {α : Type} {items : List α} {f : α → List MacroAction}
    (h : ∀ a ∈ items, Balanced (f a)) : Balanced (items.flatMap f) := by
  induction items with
  | nil => exact nil
  | cons a items ih =>
    obtain ⟨hfirst, hrest⟩ := List.forall_mem_cons.mp h
    rw [List.flatMap_cons]
    exact hfirst.append (ih hrest)

/-- How long actions wait does not matter. -/
theorem congr {actions others : List MacroAction} (h : Balanced actions)
    (hmoves : others.map MacroAction.move = actions.map MacroAction.move) : Balanced others where
  never_ahead := by
    intro s front hfront
    have hcut : front.map MacroAction.move =
        (actions.take front.length).map MacroAction.move := by
      rw [List.map_take, ← hmoves, ← List.map_take, ← List.prefix_iff_eq_take.mp hfront]
    have hsame : ∀ state, moves state s front = moves state s (actions.take front.length) := by
      intro state
      rw [moves, hcut, moves]
    rw [hsame, hsame]
    exact h.never_ahead s _ (List.take_prefix ..)
  released := by
    intro s
    have hreleased := h.released s
    unfold moves at hreleased ⊢
    rw [hmoves, hreleased]

theorem held_eq_zero {actions : List MacroAction} (h : Balanced actions) (s : Switch) :
    held s actions = 0 := by
  rw [held, h.released s, Int.sub_self]

end Balanced

namespace MacroLine

/-- The action word of a line that has keys. -/
def word? (line : Text) : Option Text :=
  match Text.fields ':' line with
  | word :: _ :: _ => some word
  | _ => none

theorem word?_of_fields {line word keys : Text} {rest : List Text}
    (h : Text.fields ':' line = word :: keys :: rest) : word? line = some word := by
  simp [word?, h]

/-- The word says press, in any case. -/
def isPress (word : Text) : Bool := word.strip.lower == "press".toList

/-- The switch that a token names. -/
def switch? (token : Text) : Option Switch :=
  (SymbolTable.standard.find? token).map Switch.ofSymbol

theorem move_action? (state : KeyState) (token : Text) :
    (action? state token).map MacroAction.move = (switch? token).map fun s => (state, s) := by
  unfold switch? action?
  rw [Option.map_map, Option.map_map]
  congr 1
  funext symbol
  obtain ⟨-, -, -, modifier, button⟩ := symbol
  cases modifier <;> cases button <;> rfl

/-- The tokens name the same switches whatever state they are to be moved into. -/
theorem map_move_filterMap_action? (state : KeyState) (tokens : List Text) :
    (tokens.filterMap (action? state)).map MacroAction.move =
      (tokens.filterMap switch?).map fun s => (state, s) := by
  rw [List.map_filterMap, List.map_filterMap]
  congr 1
  funext token
  exact move_action? state token

/-- In each state the switches that the tokens name are moved, in their order. -/
theorem map_move_actions (states : List KeyState) (tokens : List Text) :
    (actions states tokens).map MacroAction.move =
      states.flatMap fun state => (tokens.filterMap switch?).map fun s => (state, s) := by
  rw [actions, List.map_flatMap]
  congr 1
  funext state
  exact map_move_filterMap_action? state tokens

theorem moves_filterMap_action? (state other : KeyState) (s : Switch) (tokens : List Text) :
    moves other s (tokens.filterMap (action? state)) =
      if other = state then (tokens.filterMap switch?).count s else 0 := by
  rw [moves, map_move_filterMap_action?]
  split
  · next hstate =>
    subst hstate
    exact List.count_map_of_injective _ _ (Prod.mk_right_injective other) s
  · next hstate =>
    rw [List.count_eq_zero]
    intro hin
    obtain ⟨switch, -, hmove⟩ := List.mem_map.mp hin
    exact hstate (congrArg Prod.fst hmove).symm

theorem move_waitAfter (delay : Int) (actions : List MacroAction) :
    (waitAfter delay actions).map MacroAction.move = actions.map MacroAction.move := by
  fun_induction waitAfter delay actions with
  | case1 => rfl
  | case2 last => rfl
  | case3 first rest _ ih => rw [List.map_cons, List.map_cons, ih]

/-- Down with all tokens, then up with all of them. A token that names nothing does nothing, and one
that comes twice goes down twice before it goes up twice. -/
theorem balanced_press (tokens : List Text) : Balanced (actions [.down, .up] tokens) := by
  have hactions : actions [.down, .up] tokens =
      tokens.filterMap (action? .down) ++ tokens.filterMap (action? .up) := by
    simp [actions]
  rw [hactions]
  constructor
  · intro s front hfront
    have hups (n : Nat) : moves .up s ((tokens.filterMap (action? .up)).take n) ≤
        (tokens.filterMap switch?).count s := calc
      moves .up s ((tokens.filterMap (action? .up)).take n) ≤
          moves .up s (tokens.filterMap (action? .up)) :=
        ((List.take_sublist ..).map MacroAction.move).count_le _
      _ = _ := by rw [moves_filterMap_action?, if_pos rfl]
    have hdowns (n : Nat) : moves .up s ((tokens.filterMap (action? .down)).take n) ≤ 0 := calc
      moves .up s ((tokens.filterMap (action? .down)).take n) ≤
          moves .up s (tokens.filterMap (action? .down)) :=
        ((List.take_sublist ..).map MacroAction.move).count_le _
      _ = 0 := by rw [moves_filterMap_action?, if_neg (by decide)]
    rw [List.prefix_iff_eq_take.mp hfront, List.take_append, moves_append, moves_append]
    -- either nothing went up yet, or everything went down
    rcases Nat.le_total front.length (tokens.filterMap (action? .down)).length with hle | hle
    · rw [Nat.sub_eq_zero_of_le hle, List.take_zero]
      exact Nat.add_le_add ((hdowns _).trans (Nat.zero_le _)) (Nat.le_refl 0)
    · rw [List.take_of_length_le hle, moves_filterMap_action?, moves_filterMap_action?,
        if_neg (by decide), if_pos rfl, Nat.zero_add]
      exact (hups _).trans (Nat.le_add_right ..)
  · intro s
    simp [moves_append, moves_filterMap_action?]

theorem states?_of_isPress {word : Text} (h : isPress word = true) :
    states? word = some [.down, .up] := by
  have hword : word.strip.lower = "press".toList := beq_iff_eq.mp h
  rw [states?, hword]
  rfl

theorem balanced_expand_press (defaultDelay : Int) (keys : Text) (delay : Option Text) :
    Balanced (expand defaultDelay [.down, .up] keys delay) :=
  (balanced_press _).congr (move_waitAfter _ _)

/-- A line whose action word, if it is one, says press. -/
theorem balanced_expandLine {line : Text}
    (h : ∀ word ∈ word? line, (states? word).isSome = true → isPress word = true)
    (defaultDelay : Int) : Balanced (expandLine defaultDelay line) := by
  unfold expandLine
  split
  · next word keys rest hfields =>
    have hword : word ∈ word? line := word?_of_fields hfields
    split
    · next states hstates =>
      have hpress := h word hword (by rw [hstates]; rfl)
      rw [states?_of_isPress hpress] at hstates
      cases hstates
      exact balanced_expand_press ..
    · exact .nil
  · exact .nil

end MacroLine

/-- Wherever a press line is read, it succeeds and leaves every switch of every macro as held as it
was. -/
theorem Compilation.held_macroLine {c : Compilation} {name line word : Text}
    (hname : c.openName? = some name) (hword : MacroLine.word? line = some word)
    (hpress : MacroLine.isPress word = true) :
    ∃ c', c.macroLine line = .ok c' ∧ ∀ other,
      (c'.macros.get? other).map (fun m s => held s m.actions) =
        (c.macros.get? other).map fun m s => held s m.actions := by
  refine ⟨_, macroLine_eq hname line, ?_⟩
  intro other
  change ((c.actLine name line).macros.items.get? other).map _ = _
  rw [get?_actLine]
  split
  · rw [Option.map_map]
    congr 1
    funext m s
    have honly : ∀ other ∈ MacroLine.word? line, (MacroLine.states? other).isSome = true →
        MacroLine.isPress other = true := by
      intro other hother _
      rw [hword, Option.mem_some_iff] at hother
      exact hother ▸ hpress
    have hline := MacroLine.balanced_expandLine honly m.settings.defaultDelay
    simp only [Function.comp_apply, held_append, hline.held_eq_zero, Int.add_zero]
  · rfl

/-- The macros of a compiled text play what its blocks say. -/
theorem Compilation.actions_twoPasses {ws : Workspace} {blocks : List Block} {m : Macro}
    (hm : m ∈ (twoPasses ws blocks).published.profile.macros.values) :
    ∃ name, m.actions =
      (blocks.filter fun b => b.macroName? == some name).flatMap Block.expansion := by
  obtain ⟨name, hget⟩ := (OrderedMap.mem_values_iff _ _).mp hm
  rw [macros_published, OrderedMap.get?_mapValues, items_twoPasses,
    (macros_firstPass ws blocks).2] at hget
  obtain ⟨before, hbefore, rfl⟩ := Option.map_eq_some_iff.mp hget
  obtain ⟨last, -, rfl⟩ := Option.map_eq_some_iff.mp hbefore
  exact ⟨name, rfl⟩

/-- Press lines hold nothing. If press is the only action word that lines of macros use, unknown
words apart, then in every macro of the compiled text no switch goes up before it went down, and in
the end nothing is held. Among lines of all kinds, wherever one is read, a press line leaves every
switch of every macro as held as it was. -/
theorem press_lines_release (ws : Workspace) (lines : List Text) :
    ∃ c, compile ws lines = .ok c ∧
      ((∀ b ∈ (Outline.ofLines lines).blocks, b.macroName?.isSome = true →
          ∀ line ∈ b.content, ∀ word ∈ MacroLine.word? line,
            (MacroLine.states? word).isSome = true → MacroLine.isPress word = true) →
        ∀ m ∈ c.profile.macros.values, Balanced m.actions) ∧
      ∀ (before : Compilation) name line word, before.openName? = some name →
        MacroLine.word? line = some word → MacroLine.isPress word = true →
          ∃ after, before.macroLine line = .ok after ∧ ∀ other,
            (after.macros.get? other).map (fun m s => held s m.actions) =
              (before.macros.get? other).map fun m s => held s m.actions := by
  obtain ⟨c, hcompile, -, hmacros⟩ := compile_shows ws lines
  refine ⟨c, hcompile, ?_, fun before name line word => Compilation.held_macroLine⟩
  intro hpress m hm
  rw [hmacros] at hm
  obtain ⟨name, hactions⟩ := Compilation.actions_twoPasses hm
  rw [hactions]
  apply Balanced.flatMap
  intro b hb
  obtain ⟨hblock, hname⟩ := List.mem_filter.mp hb
  have hopens : b.macroName?.isSome = true := by rw [beq_iff_eq.mp hname]; rfl
  apply Balanced.flatMap
  intro line hline
  exact MacroLine.balanced_expandLine (hpress b hblock hopens line hline) _

/-- A key that is pressed twice by one line, with a modifier and a button, in a macro of two blocks
that also has an unknown word. In another macro a press line comes while its key is held. -/
theorem press_lines_release_twice :
    ∃ c m before after,
      compile {} (["[Macro(Copy,20)]", "press: A+A+Nope", "hold: B", "[macro(Copy)]",
        "PRESS : LCtrl+MouseLClick:5"].map String.toList) = .ok c ∧
      c.profile.macros.values = [m] ∧ m.actions.length = 8 ∧ Balanced m.actions ∧
      Compilation.compilePass {} Compilation.firstPass
        (["[Macro(Drag)]", "down: A"].map String.toList) {} = .ok before ∧
      before.macroLine "press: A".toList = .ok after ∧
      (after.macros.get? "Drag".toList).map (fun m => held ⟨.key, 4, 0⟩ m.actions) = some 1 := by
  obtain ⟨c, hcompile, hbalanced, hheld⟩ := press_lines_release {}
    (["[Macro(Copy,20)]", "press: A+A+Nope", "hold: B", "[macro(Copy)]",
      "PRESS : LCtrl+MouseLClick:5"].map String.toList)
  have hlengths : (compile {} (["[Macro(Copy,20)]", "press: A+A+Nope", "hold: B", "[macro(Copy)]",
      "PRESS : LCtrl+MouseLClick:5"].map String.toList)).toOption.map
        (fun c => c.profile.macros.values.map (·.actions.length)) = some [8] := by
    decide +kernel
  rw [hcompile] at hlengths
  obtain ⟨m, hvalues, hlength⟩ := List.map_eq_singleton_iff.mp (Option.some_inj.mp hlengths)
  have hm : m ∈ c.profile.macros.values := by rw [hvalues]; exact List.mem_singleton_self m
  have hbefore : (Compilation.compilePass {} Compilation.firstPass
      (["[Macro(Drag)]", "down: A"].map String.toList) {}).toOption.map
        (fun c => (c.openName?, (c.macros.get? "Drag".toList).map
          fun m => held ⟨.key, 4, 0⟩ m.actions)) = some (some "Drag".toList, some 1) := by
    decide +kernel
  obtain ⟨cursor, hpass⟩ := Compilation.compilePass_eq Compilation.sound_start {}
    Compilation.firstPass (Outline.ofLines (["[Macro(Drag)]", "down: A"].map String.toList))
  rw [Outline.lines_ofLines] at hpass
  rw [hpass] at hbefore
  obtain ⟨hname, hdown⟩ := Prod.mk.inj (Option.some_inj.mp hbefore)
  obtain ⟨after, hafter, hsame⟩ := hheld _ _ "press: A".toList "press".toList hname
    (by decide) (by decide)
  refine ⟨c, m, _, after, hcompile, hvalues, hlength, hbalanced (by decide +kernel) m hm, hpass,
    hafter, ?_⟩
  have hheld := congrArg (Option.map fun h => h ⟨.key, 4, 0⟩) (hsame "Drag".toList)
  rw [Option.map_map, Option.map_map] at hheld
  exact hheld.trans hdown

end KeyProfile

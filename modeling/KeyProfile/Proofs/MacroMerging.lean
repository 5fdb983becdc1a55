import KeyProfile.Proofs.Passes

/-!
Macros merge by name. All blocks of a macro together make one macro: it stands where its first
header stands, has the settings of the last one, and plays the lines of all of them (`merged`). No
other block adds to it or takes from it (`macros_firstPass`), and the second pass adds nothing
(`items_twoPasses`).
-/

namespace KeyProfile

/-- The actions that a line stands for. A line without keys or without an action word stands for
none. -/
def MacroLine.expandLine (defaultDelay : Int) (line : Text) : List MacroAction :=
  match Text.fields ':' line with
  | word :: keys :: rest =>
    match states? word with
    | some states => expand defaultDelay states keys rest.head?
    | none => []
  | _ => []

namespace Block

/-- The macro that the header opens: its first argument, unless that is blank, and the settings that
the other arguments give. -/
def macro? (b : Block) : Option (Text × MacroSettings) :=
  match GroupHeader.ofLine? b.header.strip with
  | some ⟨[kind], some (name :: arguments)⟩ =>
    if Directive.ofName kind = .defineMacro ∧ name ≠ [] then
      some (name, MacroSettings.ofArguments arguments)
    else none
  | _ => none

def macroName? (b : Block) : Option Text := b.macro?.map Prod.fst

def settings (b : Block) : MacroSettings := (b.macro?.map Prod.snd).getD {}

theorem macro?_of_topic {b : Block} {name : Text} {arguments : List Text}
    (htopic : b.topic = .actions name arguments) :
    b.macro? = some (name, MacroSettings.ofArguments arguments) := by
  obtain ⟨hname, kind, hkind, hline⟩ := (topicOf_eq_actions_iff b.header name arguments).mp htopic
  unfold macro?
  rw [hline]
  exact if_pos ⟨hkind, hname⟩

theorem topic_of_macroName? {b : Block} {name : Text} (h : b.macroName? = some name) :
    ∃ arguments, b.topic = .actions name arguments := by
  obtain ⟨opened, hopened, rfl⟩ := Option.map_eq_some_iff.mp h
  unfold macro? at hopened
  split at hopened
  · next kind name arguments hline =>
    split at hopened
    · next hopens =>
      cases hopened
      exact ⟨arguments, (topicOf_eq_actions_iff ..).mpr ⟨hopens.2, kind, hopens.1, hline⟩⟩
    · cases hopened
  · cases hopened

/-- The actions that the lines of the block stand for, by the settings of its own header. -/
def expansion (b : Block) : List MacroAction :=
  b.content.flatMap (MacroLine.expandLine b.settings.defaultDelay)

end Block

/-- The macro that the blocks of a name make together, if there are any. -/
def merged (blocks : List Block) (name : Text) : Option Macro :=
  let own := blocks.filter fun b => b.macroName? == some name
  own.getLast?.map fun last =>
    { name, settings := last.settings, actions := own.flatMap Block.expansion }

theorem name_of_merged {blocks : List Block} {name : Text} {m : Macro}
    (h : merged blocks name = some m) : m.name = name := by
  obtain ⟨last, -, rfl⟩ := Option.map_eq_some_iff.mp h
  rfl

/-- The last block of a name gives the settings. -/
theorem settings_merged (before : List Block) {b : Block} {after : List Block} {name : Text}
    (hb : b.macroName? = some name) (hafter : ∀ other ∈ after, other.macroName? ≠ some name) :
    (merged (before ++ b :: after) name).map Macro.settings = some b.settings := by
  have hnone : after.filter (fun b => b.macroName? == some name) = [] :=
    List.filter_eq_nil_iff.mpr (by simpa using hafter)
  have hown : (before ++ b :: after).filter (fun b => b.macroName? == some name) =
      before.filter (fun b => b.macroName? == some name) ++ [b] := by
    rw [List.filter_append, List.filter_cons_of_pos (by simpa using hb), hnone]
  unfold merged
  simp only [hown, List.getLast?_concat]
  rfl

/-- One block more either belongs to the macro or changes nothing. -/
theorem merged_concat (blocks : List Block) (b : Block) (name : Text) :
    merged (blocks ++ [b]) name =
      if b.macroName? = some name then
        some
          { (merged blocks name).getD { name } with
            settings := b.settings
            actions := ((merged blocks name).getD { name }).actions ++ b.expansion }
      else merged blocks name := by
  unfold merged
  by_cases hb : b.macroName? = some name
  · have hlast : ([b].filter fun b => b.macroName? == some name) = [b] := by simp [hb]
    rw [if_pos hb, List.filter_append, hlast]
    dsimp only
    rw [List.getLast?_append, List.flatMap_append]
    generalize (blocks.filter fun b => b.macroName? == some name) = own
    cases hown : own.getLast? with
    | none =>
      have hempty : own = [] := List.getLast?_eq_none_iff.mp hown
      simp [hempty]
    | some last => simp
  · have hlast : ([b].filter fun b => b.macroName? == some name) = [] := by simp [hb]
    rw [if_neg hb, List.filter_append, hlast, List.append_nil]

namespace Compilation

theorem get?_actLine (c : Compilation) (name line other : Text) :
    (c.actLine name line).macros.items.get? other =
      if other = name then
        (c.macros.items.get? other).map fun m =>
          { m with actions := m.actions ++ MacroLine.expandLine m.settings.defaultDelay line }
      else c.macros.items.get? other := by
  have hsame : (if other = name then (c.macros.items.get? other).map fun m =>
        { m with actions := m.actions ++ [] } else c.macros.items.get? other) =
      c.macros.items.get? other := by
    simp
  unfold actLine MacroLine.expandLine
  cases hfields : Text.fields ':' line with
  | nil => exact hsame.symm
  | cons word others =>
    cases others with
    | nil => exact hsame.symm
    | cons keys rest =>
      dsimp only
      cases MacroLine.states? word with
      | none => exact hsame.symm
      | some states => exact OrderedMap.get?_modify ..

theorem keys_actLine (c : Compilation) (name line : Text) :
    (c.actLine name line).macros.items.keys = c.macros.items.keys := by
  unfold actLine
  split
  · split
    · rfl
    · exact OrderedMap.keys_modify ..
  · rfl

/-- The lines of a macro extend it and nothing else. -/
theorem get?_foldl_actLine (c : Compilation) (name other : Text) (lines : List Text) :
    (lines.foldl (actLine name) c).macros.items.get? other =
      if other = name then
        (c.macros.items.get? other).map fun m =>
          { m with
            actions := m.actions ++
              lines.flatMap (MacroLine.expandLine m.settings.defaultDelay) }
      else c.macros.items.get? other := by
  induction lines generalizing c with
  | nil => simp
  | cons line lines ih =>
    rw [List.foldl_cons, ih, get?_actLine]
    by_cases hother : other = name
    · simp only [if_pos hother, Option.map_map]
      congr 1
      funext m
      simp [List.append_assoc]
    · simp only [if_neg hother]

theorem keys_foldl_actLine (c : Compilation) (name : Text) (lines : List Text) :
    (lines.foldl (actLine name) c).macros.items.keys = c.macros.items.keys := by
  induction lines generalizing c with
  | nil => rfl
  | cons line lines ih => rw [List.foldl_cons, ih, keys_actLine]

theorem build_actions {b : Block} {name : Text} {arguments : List Text}
    (htopic : b.topic = .actions name arguments) (ws : Workspace) (c : Compilation) :
    c.build ws firstPass b =
      b.content.foldl (actLine name)
        { c with macros := defineMacro c.macros name arguments } := by
  unfold build
  rw [htopic]
  rfl

theorem build_lighting {b : Block} {name : Text} {layers : List Text}
    (htopic : b.topic = .lighting name layers) (ws : Workspace) (c : Compilation) :
    c.build ws firstPass b = c.light ws name layers := by
  unfold build
  rw [htopic]
  exact List.foldl_fixed _

theorem tables_light (ws : Workspace) (c : Compilation) (name : Text) (layers : List Text) :
    (c.light ws name layers).tables = c.tables := by
  unfold light
  split
  · rfl
  · split <;> rfl

theorem macros_light (ws : Workspace) (c : Compilation) (name : Text) (layers : List Text) :
    (c.light ws name layers).macros = c.macros := by
  unfold light
  split
  · rfl
  · split <;> rfl

/-- In the first pass no other block touches the macros. -/
theorem macros_build_firstPass {b : Block} (hb : b.macroName? = none) (ws : Workspace)
    (c : Compilation) : (c.build ws firstPass b).macros = c.macros := by
  cases htopic : b.topic with
  | nothing => rw [build_of_nothing (by rw [htopic]; rfl)]
  | keys tables => rw [build_of_nothing (by rw [htopic]; rfl)]
  | actions name arguments => simp [Block.macroName?, Block.macro?_of_topic htopic] at hb
  | lighting name layers =>
    rw [build_lighting htopic, macros_light]

theorem get?_build_firstPass (ws : Workspace) (c : Compilation) (b : Block) (name : Text) :
    (c.build ws firstPass b).macros.items.get? name =
      if b.macroName? = some name then
        some
          { (c.macros.items.get? name).getD { name } with
            settings := b.settings
            actions := ((c.macros.items.get? name).getD { name }).actions ++ b.expansion }
      else c.macros.items.get? name := by
  cases hname : b.macroName? with
  | none => simp [macros_build_firstPass hname]
  | some opened =>
    obtain ⟨arguments, htopic⟩ := Block.topic_of_macroName? hname
    have hsettings : b.settings = MacroSettings.ofArguments arguments := by
      simp [Block.settings, Block.macro?_of_topic htopic]
    rw [build_actions htopic, get?_foldl_actLine]
    simp only [defineMacro, OrderedMap.get?_modify, OrderedMap.get?_insertNew, Option.some_inj]
    by_cases heq : name = opened
    · subst heq
      simp [Block.expansion, hsettings]
    · have hne : opened ≠ name := fun h => heq h.symm
      simp [heq, hne]

theorem keys_build_firstPass (ws : Workspace) (c : Compilation) (b : Block) :
    (c.build ws firstPass b).macros.items.keys =
      match b.macroName? with
      | none => c.macros.items.keys
      | some name =>
        if name ∈ c.macros.items.keys then c.macros.items.keys
        else c.macros.items.keys ++ [name] := by
  cases hname : b.macroName? with
  | none => rw [macros_build_firstPass hname]
  | some name =>
    obtain ⟨arguments, htopic⟩ := Block.topic_of_macroName? hname
    rw [build_actions htopic, keys_foldl_actLine]
    simp only [defineMacro, OrderedMap.keys_modify, OrderedMap.keys_insertNew]
    -- the two sides differ in how membership is decided
    by_cases hin : name ∈ c.macros.items.keys
    · simp only [hin, if_true]
    · simp only [hin, if_false]

/-- The second pass refers to macros but leaves them as they are. -/
theorem items_build_secondPass (ws : Workspace) (c : Compilation) (b : Block) :
    (c.build ws secondPass b).macros.items = c.macros.items := by
  cases htopic : b.topic with
  | nothing => rw [build_of_nothing (by rw [htopic]; rfl)]
  | actions name arguments => rw [build_of_nothing (by rw [htopic]; rfl)]
  | lighting name layers => rw [build_of_nothing (by rw [htopic]; rfl)]
  | keys tables =>
    rw [build_keys htopic, macros_foldl_bindIn]
    exact Registry.items_refer ..

/-- The first pass merges the blocks of every name. -/
theorem macros_firstPass (ws : Workspace) (blocks : List Block) :
    (blocks.foldl (build ws firstPass) {}).macros.items.keys =
        (blocks.filterMap Block.macroName?).eraseDups ∧
      ∀ name, (blocks.foldl (build ws firstPass) {}).macros.items.get? name =
        merged blocks name := by
  induction blocks using List.reverseRecOn with
  | nil => exact ⟨rfl, fun _ => rfl⟩
  | append_singleton blocks b ih =>
    obtain ⟨hkeys, hget⟩ := ih
    rw [List.foldl_append, List.foldl_cons, List.foldl_nil]
    constructor
    · rw [keys_build_firstPass, hkeys, List.filterMap_append]
      cases hname : b.macroName? with
      | none => simp [hname]
      | some name =>
        have hlast : [b].filterMap Block.macroName? = [name] := by simp [hname]
        rw [hlast, eraseDups_concat]
        simp only [List.mem_eraseDups]
    · intro name
      rw [get?_build_firstPass, hget, merged_concat]

theorem items_foldl_secondPass (ws : Workspace) (c : Compilation) (blocks : List Block) :
    (blocks.foldl (build ws secondPass) c).macros.items = c.macros.items := by
  induction blocks generalizing c with
  | nil => rfl
  | cons b blocks ih => rw [List.foldl_cons, ih, items_build_secondPass]

theorem items_twoPasses (ws : Workspace) (blocks : List Block) :
    (twoPasses ws blocks).macros.items =
      (blocks.foldl (build ws firstPass) {}).macros.items :=
  items_foldl_secondPass ws _ blocks

/-- The macros shown are the merged ones, with the ids of the names that were referred to. -/
theorem macros_shown (ws : Workspace) (blocks : List Block) :
    (twoPasses ws blocks).published.profile.macros.keys =
        (blocks.filterMap Block.macroName?).eraseDups ∧
      ∀ name, (twoPasses ws blocks).published.profile.macros.get? name =
        (merged blocks name).map fun m =>
          { m with id := ((twoPasses ws blocks).macros.idOf? name).map Int.ofNat } := by
  obtain ⟨hkeys, hget⟩ := macros_firstPass ws blocks
  constructor
  · rw [macros_published, OrderedMap.keys_mapValues, items_twoPasses, hkeys]
  · intro name
    rw [macros_published, OrderedMap.get?_mapValues, items_twoPasses, hget]

end Compilation

end KeyProfile

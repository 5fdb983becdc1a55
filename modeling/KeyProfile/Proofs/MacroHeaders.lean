import KeyProfile.Proofs.HeaderText
import KeyProfile.Proofs.MacroMerging
import Mathlib.Data.List.GetD

/-!
Macro headers as they are written: a name and the texts of four settings. Each text is read on its
own (`placed`), but not always in its own place: an empty one is dropped, and what follows moves up
(`macro_header_arguments`). Only where nothing follows an empty text does every text set what its
place says; a blank text holds its place.
-/

namespace KeyProfile

/-- The header of a macro with texts for its settings. -/
def macroHeader (name : Text) (arguments : List Text) : Text :=
  headerOf ("Macro".toList ++ '(' :: ([','].intercalate (name :: arguments) ++ [')']))

theorem isHeader_macroHeader (name : Text) (arguments : List Text) :
    isHeader (macroHeader name arguments) = true :=
  isHeader_headerOf _

theorem KeyToken.decimalWithin?_strip (least greatest : Int) (t : Text) :
    decimalWithin? least greatest t.strip = decimalWithin? least greatest t := by
  unfold decimalWithin? Text.decimal?
  rw [Text.strip_strip]

/-- Without empty texts in front of others, the texts that are not empty stand where they stood. -/
theorem getD_filter_isEmpty {texts : List Text} (h : texts.Pairwise fun a b => a = [] → b = [])
    (i : Nat) : (texts.filter (!·.isEmpty)).getD i [] = texts.getD i [] := by
  induction texts generalizing i with
  | nil => rfl
  | cons first rest ih =>
    obtain ⟨hfirst, hrest⟩ := List.pairwise_cons.mp h
    by_cases hempty : first = []
    · have hall : ∀ t ∈ first :: rest, t = [] := by
        simp only [List.mem_cons, forall_eq_or_imp]
        exact ⟨hempty, fun t ht => hfirst t ht hempty⟩
      have hnone : (first :: rest).filter (!·.isEmpty) = [] := by
        simpa using hall
      rw [hnone, List.getD_nil, List.getD_eq_getElem?_getD]
      cases hget : (first :: rest)[i]? with
      | none => rfl
      | some t => exact (hall t (List.mem_of_getElem? hget)).symm
    · have hkept : (first :: rest).filter (!·.isEmpty) = first :: rest.filter (!·.isEmpty) := by
        simp [hempty]
      rw [hkept]
      cases i with
      | zero => rfl
      | succ i => exact ih hrest i

namespace MacroSettings

/-- The settings that four texts stand for, each on its own: a delay of up to 65535, a kind of
repetition by name or number, one to 255 repetitions, and whether the last action waits. What cannot
be read is the default. -/
def placed (delay kind count trailing : Text) : MacroSettings where
  defaultDelay := (KeyToken.decimalWithin? 0 maxDelay delay).getD 0
  repeatKind := (Enumerated.ofText? true kind).getD .times
  repeatCount := (KeyToken.decimalWithin? 1 maxCount count).getD 1
  trailingDelay := trailing.strip.lower == "true".toList

/-- The first four of some texts, missing ones being empty. -/
def placedIn (texts : List Text) : MacroSettings :=
  placed (texts.getD 0 []) (texts.getD 1 []) (texts.getD 2 []) (texts.getD 3 [])

/-- Zero repetitions count as one, and so does what cannot be read. -/
theorem repeatCount_eq (t : Text) :
    (let count := (KeyToken.decimalWithin? 0 maxCount t).getD 0
      if count = 0 then 1 else count) = (KeyToken.decimalWithin? 1 maxCount t).getD 1 := by
  unfold KeyToken.decimalWithin?
  cases t.decimal? with
  | none => rfl
  | some n =>
    simp only [Option.bind_eq_bind, Option.bind_some]
    by_cases hzero : n = 0
    · subst hzero
      rfl
    · have hleast : (0 ≤ n ∧ n ≤ maxCount) ↔ 1 ≤ n ∧ n ≤ maxCount := by omega
      simp only [hleast]
      split
      · simp [hzero]
      · rfl

theorem trailingDelay_eq (t : Text) :
    (Text.truth? t).getD false = (t.strip.lower == "true".toList) := by
  unfold Text.truth?
  by_cases htrue : t.strip.lower = "true".toList
  · simp only [htrue, if_true, Option.getD_some, beq_self_eq_true]
  · simp only [htrue, if_false, beq_eq_false_iff_ne.mpr htrue]
    split <;> rfl

/-- A missing argument is read as an empty one would be. -/
theorem ofArguments_eq (arguments : List Text) : ofArguments arguments = placedIn arguments := by
  unfold ofArguments placedIn placed
  simp only [← repeatCount_eq, ← trailingDelay_eq, List.getD_eq_getElem?_getD]
  congr 1
  · cases arguments[0]? <;> rfl
  · cases arguments[1]? <;> rfl
  · cases arguments[2]? <;> rfl
  · cases arguments[3]? <;> rfl

theorem placed_strip (delay kind count trailing : Text) :
    placed delay.strip kind.strip count.strip trailing.strip = placed delay kind count trailing := by
  unfold placed
  simp only [KeyToken.decimalWithin?_strip, Enumerated.ofText?_strip, Text.strip_strip]

/-- Blanks around an argument do not count. -/
theorem ofArguments_map_strip (arguments : List Text) :
    ofArguments (arguments.map Text.strip) = placedIn arguments := by
  have hget (i : Nat) : (arguments.map Text.strip).getD i [] = Text.strip (arguments.getD i []) :=
    List.getD_map arguments [] Text.strip
  rw [ofArguments_eq, placedIn]
  simp only [hget, placed_strip]
  rfl

end MacroSettings

section

variable {name : Text} {arguments : List Text}

/-- What is in the header: the name, then the arguments that are not empty. -/
theorem GroupHeader.ofLine?_macroHeader (hname : name.strip ≠ [])
    (hfree : ∀ t ∈ name :: arguments, ∀ c ∈ [',', ')', ']'], c ∉ t) :
    ofLine? (macroHeader name arguments) =
      some ⟨["Macro".toList],
        some (name.strip :: (arguments.filter (!·.isEmpty)).map Text.strip)⟩ := by
  have hentries : entries ([','].intercalate (name :: arguments)) =
      name.strip :: (arguments.filter (!·.isEmpty)).map Text.strip := by
    have hne : name ≠ [] := by
      rintro rfl
      exact hname rfl
    rw [entries, Text.fields_join fun t ht => hfree t ht ',' (by simp)]
    simp [hne]
  have hinner : ∀ c ∈ [')', ']'], c ∉ [','].intercalate (name :: arguments) := by
    intro c hc hin
    rcases Text.mem_join hin with rfl | ⟨t, ht, hmem⟩
    · simp at hc
    · exact hfree t ht c (List.mem_cons_of_mem _ hc) hmem
  have hhead : ∀ c ∈ "Macro".toList.head?, Text.isBlank c = false := by
    rintro c ⟨⟩
    decide
  rw [macroHeader, ofLine?_headerOf_call hhead (by decide) (by simp) hinner, hentries]
  rfl

theorem topicOf_macroHeader (hname : name.strip ≠ [])
    (hfree : ∀ t ∈ name :: arguments, ∀ c ∈ [',', ')', ']'], c ∉ t) :
    topicOf (macroHeader name arguments) =
      .actions name.strip ((arguments.filter (!·.isEmpty)).map Text.strip) := by
  refine (topicOf_eq_actions_iff ..).mpr ⟨hname, "Macro".toList, by decide, ?_⟩
  rw [macroHeader, strip_headerOf]
  exact GroupHeader.ofLine?_macroHeader hname hfree

/-- Wherever the header is read, its macro is open below it and has the settings of the arguments
that are not empty. -/
theorem compileLine_macroHeader (ws : Workspace) {groups : List GroupKind}
    (hgroups : .macros ∈ groups) (c : Compilation) (hname : name.strip ≠ [])
    (hfree : ∀ t ∈ name :: arguments, ∀ c ∈ [',', ')', ']'], c ∉ t) :
    ∃ c', Compilation.compileLine ws groups c (macroHeader name arguments) = .ok c' ∧
      c'.openName? = some name.strip ∧
      (c'.macros.items.get? name.strip).map Macro.settings =
        some (MacroSettings.placedIn (arguments.filter (!·.isEmpty))) := by
  have htopic := topicOf_macroHeader hname hfree
  have hwithin : (topicOf (macroHeader name arguments)).within groups =
      topicOf (macroHeader name arguments) := by
    rw [htopic]
    exact if_pos hgroups
  refine ⟨_, Compilation.compileLine_header ws groups c (isHeader_macroHeader ..), ?_, ?_⟩
  · unfold Compilation.head
    rw [hwithin, htopic]
    rfl
  · unfold Compilation.head
    rw [hwithin, htopic]
    change (OrderedMap.get? (OrderedMap.modify _ _ _) _).map Macro.settings = _
    rw [OrderedMap.get?_modify, if_pos rfl, OrderedMap.get?_insertNew, if_pos rfl,
      MacroSettings.ofArguments_map_strip]
    rfl

/-- In a file the last header of a macro gives it the settings. -/
theorem compile_last_macroHeader (ws : Workspace) (before : List Text) {after : List Text}
    (hname : name.strip ≠ []) (hfree : ∀ t ∈ name :: arguments, ∀ c ∈ [',', ')', ']'], c ∉ t)
    (hafter : ∀ b ∈ (Outline.ofLines after).blocks, b.macroName? ≠ some name.strip) :
    ∃ c, compile ws (before ++ macroHeader name arguments :: after) = .ok c ∧
      (c.profile.macros.get? name.strip).map Macro.settings =
        some (MacroSettings.placedIn (arguments.filter (!·.isEmpty))) := by
  obtain ⟨c, hcompile, -, hmacros⟩ :=
    compile_shows ws (before ++ macroHeader name arguments :: after)
  refine ⟨c, hcompile, ?_⟩
  obtain ⟨-, hget⟩ := Compilation.macros_shown ws
    (Outline.ofLines (before ++ macroHeader name arguments :: after)).blocks
  rw [hmacros, hget, Option.map_map]
  change (merged _ _).map Macro.settings = _
  have hblocks := Outline.blocks_header before (isHeader_macroHeader name arguments) after
  set b : Block := ⟨macroHeader name arguments, (Outline.ofLines after).front,
    isHeader_macroHeader name arguments, (Outline.ofLines after).not_isHeader_front⟩ with hb
  have hmacro : b.macro? = some (name.strip,
      MacroSettings.ofArguments ((arguments.filter (!·.isEmpty)).map Text.strip)) :=
    Block.macro?_of_topic (topicOf_macroHeader hname hfree)
  rw [hblocks, settings_merged _ (by rw [Block.macroName?, hmacro]; rfl) hafter, Block.settings,
    hmacro, ← MacroSettings.ofArguments_map_strip]
  rfl

end

/-- What the four arguments of a macro's header set. The empty ones are dropped first, and those
left set the delay, the kind of repetition, the number of repetitions and the trailing delay in this
order. Each argument sets what its own place says if all behind an empty one are empty too; a blank
one is not empty. This holds wherever the header is read, and in a file for the last header of the
macro. -/
theorem macro_header_arguments (ws : Workspace) {name delay kind count trailing : Text}
    (hname : name.strip ≠ [])
    (hfree : ∀ t ∈ [name, delay, kind, count, trailing], ∀ c ∈ [',', ')', ']'], c ∉ t) :
    ∃ settings : MacroSettings,
      settings =
        MacroSettings.placedIn ([delay, kind, count, trailing].filter (!·.isEmpty)) ∧
      ([delay, kind, count, trailing].Pairwise (fun a b => a = [] → b = []) →
        settings = MacroSettings.placed delay kind count trailing) ∧
      (∀ (groups : List GroupKind) (c : Compilation), .macros ∈ groups →
        ∃ c', Compilation.compileLine ws groups c
            (macroHeader name [delay, kind, count, trailing]) = .ok c' ∧
          c'.openName? = some name.strip ∧
          (c'.macros.items.get? name.strip).map Macro.settings = some settings) ∧
      ∀ before after : List Text,
        (∀ b ∈ (Outline.ofLines after).blocks, b.macroName? ≠ some name.strip) →
        ∃ c, compile ws (before ++ macroHeader name [delay, kind, count, trailing] :: after) =
            .ok c ∧
          (c.profile.macros.get? name.strip).map Macro.settings = some settings := by
  refine ⟨_, rfl, ?_, ?_, ?_⟩
  · intro hplaces
    simp only [MacroSettings.placedIn, getD_filter_isEmpty hplaces]
    rfl
  · intro groups c hgroups
    exact compileLine_macroHeader ws hgroups c hname hfree
  · intro before after hafter
    exact compile_last_macroHeader ws before hname hfree hafter

/-- A blank argument keeps its place. -/
theorem macro_header_arguments_blank :
    ∃ c, compile {} (["[Macro( M , ,ReleaseKeyToStop, 3,TRUE)]", "press: A"].map String.toList) =
        .ok c ∧
      (c.profile.macros.get? "M".toList).map Macro.settings =
        some ⟨0, .untilReleased, 3, true⟩ := by
  obtain ⟨settings, -, hplaced, -, hfile⟩ := @macro_header_arguments {} " M ".toList " ".toList
    "ReleaseKeyToStop".toList " 3".toList "TRUE".toList (by decide) (by simp)
  have hsettings : settings = ⟨0, .untilReleased, 3, true⟩ :=
    (hplaced (by decide)).trans (by decide +kernel)
  obtain ⟨c, hcompile, hc⟩ := hfile [] ["press: A".toList] (by decide)
  exact ⟨c, hcompile, hc.trans (congrArg some hsettings)⟩

/-- An empty argument does not keep its place: each of the others sets what the place in front of
its own says. -/
theorem empty_argument_shifts :
    ¬∀ (name delay kind count trailing : Text), name.strip ≠ [] →
      (∀ t ∈ [name, delay, kind, count, trailing], ∀ c ∈ [',', ')', ']'], c ∉ t) →
      ∃ c, compile {} [macroHeader name [delay, kind, count, trailing]] = .ok c ∧
        (c.profile.macros.get? name.strip).map Macro.settings =
          some (MacroSettings.placed delay kind count trailing) := by
  intro hall
  obtain ⟨c, hcompile, hplaced⟩ := hall "M".toList [] "2".toList "3".toList "true".toList
    (by decide) (by simp)
  have hshifted : (compile {} ["[Macro(M,,2,3,true)]".toList]).toOption.bind (fun c =>
      (c.profile.macros.get? "M".toList).map Macro.settings) =
        some ⟨2, .untilPressed, 1, false⟩ := by
    decide +kernel
  have hheader : macroHeader "M".toList [[], "2".toList, "3".toList, "true".toList] =
      "[Macro(M,,2,3,true)]".toList := by decide
  have hdelay : (MacroSettings.placed [] "2".toList "3".toList "true".toList).defaultDelay = 0 := by
    decide +kernel
  rw [← hheader, hcompile] at hshifted
  have hequal := Option.some_inj.mp (hshifted.symm.trans hplaced)
  rw [← hequal] at hdelay
  exact absurd hdelay (by decide)

end KeyProfile

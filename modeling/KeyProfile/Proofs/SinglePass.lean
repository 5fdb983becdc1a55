import KeyProfile.Proofs.Increments

/-!
One pass instead of two. A pass for groups of all kinds does to a block what the two passes do to it
one after the other (`build_everyGroup`), so reading a text once is reading it in instalments of one
block each. By what is known of instalments, keys come out as in two passes if every macro is
defined above the keys that call it, or nowhere (`DefinedBeforeCalled`).
-/

namespace KeyProfile

namespace LightsOff

theorem turnOff_again (off : LightsOff) (arguments : Option (List Text)) :
    (off.turnOff arguments).turnOff arguments = off.turnOff arguments := by
  cases arguments with
  | none => rfl
  | some layers =>
    have hlayers : ∀ layer,
        ((layers.filterMap Layer.ofText?).foldl LayerSet.insert
          ((layers.filterMap Layer.ofText?).foldl LayerSet.insert off.layers)).get layer =
        ((layers.filterMap Layer.ofText?).foldl LayerSet.insert off.layers).get layer := by
      intro layer
      change LayerSet.contains _ layer = LayerSet.contains _ layer
      simp only [LayerSet.contains_foldl_insert, ← Bool.or_assoc, Bool.or_self]
    unfold turnOff
    dsimp only
    rw [PerLayer.ext_get hlayers]

/-- Headers that turn lighting off do so once, however often they are read. -/
theorem foldl_turnOff_again (off : LightsOff) (arguments : List (Option (List Text))) :
    arguments.foldl turnOff (arguments.foldl turnOff off) = arguments.foldl turnOff off := by
  induction arguments generalizing off with
  | nil => rfl
  | cons first rest ih =>
    have hperm : ((first :: rest) ++ (first :: rest)).Perm
        ([first, first] ++ (rest ++ rest)) := by
      simp
    have hturned := foldl_turnOff_perm off hperm
    rw [List.foldl_append, List.foldl_append, List.foldl_append] at hturned
    rw [hturned, List.foldl_cons, List.foldl_cons, List.foldl_nil, turnOff_again, ih,
      List.foldl_cons]

end LightsOff

theorem mem_calledMacros_iff (blocks : List Block) (name : Text) :
    name ∈ calledMacros blocks ↔ ∃ b ∈ blocks, name ∈ calledMacros [b] := by
  constructor
  · intro hname
    obtain ⟨binding, hbinding, hcall⟩ := List.mem_flatMap.mp hname
    obtain ⟨b, hb, hin⟩ := List.mem_flatMap.mp hbinding
    obtain ⟨hblock, hopens⟩ := List.mem_filter.mp hb
    refine ⟨b, hblock, List.mem_flatMap.mpr ⟨binding, ?_, hcall⟩⟩
    simpa [allBindings, hopens] using hin
  · rintro ⟨b, hblock, hname⟩
    obtain ⟨binding, hbinding, hcall⟩ := List.mem_flatMap.mp hname
    obtain ⟨own, hown, hin⟩ := List.mem_flatMap.mp hbinding
    obtain ⟨hsame, hopens⟩ := List.mem_filter.mp hown
    rw [List.mem_singleton.mp hsame] at hin hopens
    exact List.mem_flatMap.mpr ⟨binding,
      List.mem_flatMap.mpr ⟨b, List.mem_filter.mpr ⟨hblock, hopens⟩, hin⟩, hcall⟩

/-- Macros that the keys of a block call are defined by headers above it, if they are at all. -/
def DefinedBeforeCalled (blocks : List Block) : Prop :=
  ∀ (i : Nat) (hi : i < blocks.length), ∀ name ∈ calledMacros [blocks[i]],
    name ∈ definedMacros blocks → name ∈ definedMacros (blocks.take i)

instance (blocks : List Block) : Decidable (DefinedBeforeCalled blocks) :=
  inferInstanceAs (Decidable (∀ (i : Nat) (_ : i < blocks.length), ∀ name ∈ _, _ → _))

namespace DefinedBeforeCalled

variable {blocks : List Block} {b : Block}

/-- What a block calls that is not the last is defined above it, wherever else it is defined. -/
theorem above (h : DefinedBeforeCalled (blocks ++ [b])) {i : Nat} (hi : i < blocks.length)
    {name : Text} (hcall : name ∈ calledMacros [blocks[i]])
    (hdefined : name ∈ definedMacros blocks ∨ name ∈ definedMacros [b]) :
    name ∈ definedMacros (blocks.take i) := by
  have hi' : i < (blocks ++ [b]).length := by
    rw [List.length_append]
    omega
  have hblock : (blocks ++ [b])[i] = blocks[i] := List.getElem_append_left hi
  have hmore : name ∈ definedMacros (blocks ++ [b]) := by
    rw [definedMacros, List.filterMap_append]
    exact List.mem_append.mpr hdefined
  have habove := h i hi' name (hblock ▸ hcall) hmore
  rwa [List.take_append_of_le_length (Nat.le_of_lt hi)] at habove

/-- What comes later cannot spoil what came before. -/
theorem front (h : DefinedBeforeCalled (blocks ++ [b])) : DefinedBeforeCalled blocks :=
  fun _ hi _ hcall hdefined => h.above hi hcall (.inl hdefined)

/-- The last block defines no macro that was called before it was known. -/
theorem last (h : DefinedBeforeCalled (blocks ++ [b])) :
    ∀ name ∈ calledMacros blocks, name ∈ definedMacros [b] → name ∈ definedMacros blocks := by
  intro name hname hdefined
  obtain ⟨own, hown, hcall⟩ := (mem_calledMacros_iff ..).mp hname
  obtain ⟨i, hi, rfl⟩ := List.getElem_of_mem hown
  have habove := h.above hi hcall (.inr hdefined)
  exact ((List.take_sublist i blocks).filterMap _).subset habove

end DefinedBeforeCalled

namespace Compilation

/-- Groups of all kinds. -/
def everyGroup : List GroupKind := firstPass ++ secondPass

theorem build_congr {groups others : List GroupKind} {b : Block}
    (h : b.topic.within groups = b.topic.within others) (ws : Workspace) (c : Compilation) :
    c.build ws groups b = c.build ws others b := by
  unfold build
  rw [h]

/-- A block is of interest to one of the two passes only, and gets from a pass for all groups what
that one gives it. -/
theorem build_everyGroup (ws : Workspace) (c : Compilation) (b : Block) :
    c.build ws everyGroup b = (c.build ws firstPass b).build ws secondPass b := by
  cases hopens : b.opensTable with
  | true =>
    have htopic := Block.topic_of_opensTable hopens
    have hfirst : b.topic.within firstPass = .nothing := by rw [htopic]; rfl
    have hsecond : b.topic.within everyGroup = b.topic.within secondPass := by rw [htopic]; rfl
    rw [build_of_nothing hfirst, build_congr hsecond]
  | false =>
    have hfirst : b.topic.within everyGroup = b.topic.within firstPass := by
      unfold Block.opensTable at hopens
      cases htopic : b.topic with
      | keys tables => simp [htopic] at hopens
      | nothing => rfl
      | actions name settings => rfl
      | lighting name layers => rfl
    rw [build_of_nothing (within_secondPass hopens), build_congr hfirst]

/-- A single pass leaves the macros and effects that two passes leave, and keys that are bound and
macros that are numbered alike. -/
theorem foldl_everyGroup (ws : Workspace) {blocks : List Block} (h : DefinedBeforeCalled blocks) :
    (blocks.foldl (build ws everyGroup) {}).Built ws blocks ∧
      (blocks.foldl (build ws everyGroup) {}).tables = (twoPasses ws blocks).tables ∧
      (blocks.foldl (build ws everyGroup) {}).macros.referenced =
        (twoPasses ws blocks).macros.referenced := by
  induction blocks using List.reverseRecOn with
  | nil => exact ⟨.start ws, rfl, rfl⟩
  | append_singleton blocks b ih =>
    obtain ⟨hbuilt, htables, hreferenced⟩ := ih h.front
    rw [List.foldl_append, List.foldl_cons, List.foldl_nil, build_everyGroup]
    exact ⟨(hbuilt.foldl_firstPass [b]).foldl_secondPass [b],
      keys_congr h.last hbuilt htables hreferenced⟩

end Compilation

/-- One pass for groups of all kinds and a finalization show the profile that compiling shows, for
every keyboard and whatever effect files there are, if each macro that a key calls is defined by a
header above the key, or by none. -/
theorem single_pass_suffices (ws : Workspace) (lines : List Text)
    (hcalls : DefinedBeforeCalled (Outline.ofLines lines).blocks) :
    ∃ c once d, compile ws lines = .ok c ∧
      Compilation.compilePass ws Compilation.everyGroup lines {} = .ok once ∧
      once.finalize = .ok d ∧ d.profile = c.profile := by
  set o := Outline.ofLines lines with ho
  obtain ⟨c, cursor, hcompile, hc⟩ := compile_eq ws o
  obtain ⟨cursor', hpass⟩ :=
    Compilation.compilePass_eq Compilation.sound_start ws Compilation.everyGroup o
  rw [ho, Outline.lines_ofLines] at hcompile hpass
  obtain ⟨hbuilt, htables, hreferenced⟩ := Compilation.foldl_everyGroup ws hcalls
  refine ⟨_, _, _, hcompile, hpass, Compilation.finalize_eq (hbuilt.framed _ _).sound, ?_⟩
  have hbuilt' : c.Built ws o.blocks := by
    rw [hc]
    exact (((Compilation.Built.start ws).foldl_firstPass _).foldl_secondPass _).framed _ _
  apply (hbuilt.framed _ _).profile_congr hbuilt'
  · rw [hc]
    exact htables
  · rw [hc]
    exact hreferenced
  · rw [hc]
    exact (LightsOff.foldl_turnOff_again {} _).symm

/-- A macro is called between its two headers, after keys of a table that is opened again below, and
another that is called is defined nowhere. -/
theorem single_pass_suffices_between :
    ∃ c once d,
      compile {} (["[Macro(Copy)]", "press: LCtrl+C", "[Base]", "F2: Macro(Copy)+Macro(Cut)",
        "[NoLighting]", "[macro(Copy,20)]", "up: V", "[Base,FnBase]", "F3: Macro(Copy)"].map
          String.toList) = .ok c ∧
      Compilation.compilePass {} Compilation.everyGroup (["[Macro(Copy)]", "press: LCtrl+C",
        "[Base]", "F2: Macro(Copy)+Macro(Cut)", "[NoLighting]", "[macro(Copy,20)]", "up: V",
        "[Base,FnBase]", "F3: Macro(Copy)"].map String.toList) {} = .ok once ∧
      once.finalize = .ok d ∧ d.profile = c.profile :=
  single_pass_suffices {} _ (by decide +kernel)

end KeyProfile

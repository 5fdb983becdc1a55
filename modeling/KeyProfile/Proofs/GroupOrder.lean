import KeyProfile.Proofs.Passes

/-!
Blocks may change places. A pass reads the blocks of its own kinds only, so it is the order of the
blocks that list key tables, and the order of those that open a macro or use an effect, that matters
(`twoPasses_congr`). What blocks say about lighting that is off can be said in any order
(`LightsOff.foldl_turnOff_perm`).
-/

namespace KeyProfile

theorem LayerSet.contains_foldl_insert (s : LayerSet) (layers : List Layer) (layer : Layer) :
    (layers.foldl LayerSet.insert s).contains layer =
      (decide (layer ∈ layers) || s.contains layer) := by
  induction layers generalizing s with
  | nil => simp
  | cons first rest ih =>
    rw [List.foldl_cons, ih, LayerSet.contains_insert]
    rw [show (layer == first) = decide (layer = first) from rfl]
    by_cases hfirst : layer = first <;> simp [hfirst]

namespace LightsOff

/-- Turning lighting off here and there comes to the same as there and here. -/
theorem turnOff_comm (off : LightsOff) (first second : Option (List Text)) :
    (off.turnOff first).turnOff second = (off.turnOff second).turnOff first := by
  cases first with
  | none => cases second <;> rfl
  | some layers =>
    cases second with
    | none => rfl
    | some others =>
      have hlayers : ∀ layer,
          (((others.filterMap Layer.ofText?).foldl LayerSet.insert
            ((layers.filterMap Layer.ofText?).foldl LayerSet.insert off.layers)).get layer) =
          (((layers.filterMap Layer.ofText?).foldl LayerSet.insert
            ((others.filterMap Layer.ofText?).foldl LayerSet.insert off.layers)).get layer) := by
        intro layer
        change LayerSet.contains _ layer = LayerSet.contains _ layer
        simp only [LayerSet.contains_foldl_insert]
        exact Bool.or_left_comm ..
      unfold turnOff
      dsimp only
      rw [PerLayer.ext_get hlayers]

theorem foldl_turnOff_perm (off : LightsOff) {arguments others : List (Option (List Text))}
    (h : arguments.Perm others) : arguments.foldl turnOff off = others.foldl turnOff off := by
  apply h.foldl_eq'
  intro first _ second _ off
  exact turnOff_comm off first second

end LightsOff

namespace Compilation

/-- Two passes see the order of the blocks that list tables, and of those that open a macro or an
effect. -/
theorem twoPasses_congr (ws : Workspace) {blocks others : List Block}
    (htables : blocks.filter Block.opensTable = others.filter Block.opensTable)
    (hstores : blocks.filter Block.opensStore = others.filter Block.opensStore) :
    twoPasses ws blocks = twoPasses ws others := by
  have hfirst : blocks.foldl (build ws firstPass) {} = others.foldl (build ws firstPass) {} := by
    rw [foldl_build_eq_filter (fun _ => within_firstPass) ws blocks, hstores,
      ← foldl_build_eq_filter (fun _ => within_firstPass) ws others]
  calc
    twoPasses ws blocks =
        (blocks.filter Block.opensTable).foldl (build ws secondPass)
          (blocks.foldl (build ws firstPass) {}) :=
      foldl_build_eq_filter (fun _ => within_secondPass) ws blocks _
    _ = (others.filter Block.opensTable).foldl (build ws secondPass)
          (others.foldl (build ws firstPass) {}) := by rw [htables, hfirst]
    _ = twoPasses ws others :=
      (foldl_build_eq_filter (fun _ => within_secondPass) ws others _).symm

end Compilation

/-- The blocks of a text may be put in another order, as long as those that list a key table keep
theirs and those that open a macro or an effect keep theirs. Compiling succeeds with the same
profile and the same log, for every keyboard and whatever effect files there are. Malformed headers,
unknown names and lighting that is off may go anywhere. -/
theorem compile_block_order (ws : Workspace) (lines : List Text) (blocks : List Block)
    (hperm : (Outline.ofLines lines).blocks.Perm blocks)
    (htables : (Outline.ofLines lines).blocks.filter Block.opensTable =
      blocks.filter Block.opensTable)
    (hstores : (Outline.ofLines lines).blocks.filter Block.opensStore =
      blocks.filter Block.opensStore) :
    ∃ c c', compile ws lines = .ok c ∧
      compile ws { Outline.ofLines lines with blocks }.lines = .ok c' ∧
      c.profile = c'.profile ∧ c.log = c'.log := by
  set o := Outline.ofLines lines with ho
  obtain ⟨c, cursor, hcompile, hc⟩ := compile_eq ws o
  obtain ⟨c', cursor', hcompile', hc'⟩ := compile_eq ws { o with blocks }
  have hdark : o.darkArguments.Perm { o with blocks }.darkArguments :=
    hperm.flatMap_right Block.darkArguments
  rw [← Compilation.twoPasses_congr ws htables hstores] at hc'
  rw [← LightsOff.foldl_turnOff_perm {} hdark, ← LightsOff.foldl_turnOff_perm _ hdark] at hc'
  rw [ho, Outline.lines_ofLines] at hcompile
  -- what is left of a difference is where the cursor ended, which nobody can see
  refine ⟨_, _, hcompile, hcompile', ?_, ?_⟩
  · rw [hc, hc']
    rfl
  · rw [hc, hc']
    rfl

/-- A macro may be defined below the keys that call it, and lighting turned off anywhere. -/
theorem compile_block_order_macro_last :
    ∃ c c', compile {} (["[Macro(Copy)]", "press: LCtrl+C", "[NoLighting]", "[Base]",
        "F2: Macro(Copy)"].map String.toList) = .ok c ∧
      compile {} (["[Base]", "F2: Macro(Copy)", "[NoLighting]", "[Macro(Copy)]",
        "press: LCtrl+C"].map String.toList) = .ok c' ∧
      c.profile = c'.profile ∧ c.log = c'.log := by
  have hlines : { Outline.ofLines (["[Macro(Copy)]", "press: LCtrl+C", "[NoLighting]", "[Base]",
        "F2: Macro(Copy)"].map String.toList) with
      blocks := (Outline.ofLines (["[Macro(Copy)]", "press: LCtrl+C", "[NoLighting]", "[Base]",
        "F2: Macro(Copy)"].map String.toList)).blocks.reverse }.lines =
      ["[Base]", "F2: Macro(Copy)", "[NoLighting]", "[Macro(Copy)]",
        "press: LCtrl+C"].map String.toList := by decide +kernel
  rw [← hlines]
  exact compile_block_order {} _ _ (List.reverse_perm _).symm (by decide +kernel)
    (by decide +kernel)

end KeyProfile

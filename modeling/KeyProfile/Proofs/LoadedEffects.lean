import KeyProfile.Lighting.File
import Mathlib.Tactic

/-!
What a loaded effect is like, whatever its file holds. The frames are read one after another with a
running total (`addFrame`); after any number of them there is one frame for each object, of at least
one step, and the total is the sum of the counts (`foldl_addFrame`). Every color is a word of its
four channels (`Color.pack_bounds`), also that of a configuration whose color is missing or bad.
Main statement: `loaded_effect_well_formed`.
-/

namespace KeyProfile

theorem KeySet.isEmpty_eq_false_iff (s : KeySet) : s.isEmpty = false ↔ ∃ n, n ∈ s := by
  rw [isEmpty, List.isEmpty_eq_false_iff_exists_mem]
  rfl

theorem OrderedMap.ofList_concat {κ α : Type} [DecidableEq κ] (entries : List (κ × α))
    (last : κ × α) : ofList (entries ++ [last]) = (ofList entries).insert last.1 last.2 :=
  List.foldl_concat ..

theorem OrderedMap.mem_values_ofList {κ α : Type} [DecidableEq κ] {entries : List (κ × α)} {a : α}
    (h : a ∈ (ofList entries).values) : ∃ k, (k, a) ∈ entries := by
  induction entries using List.reverseRecOn with
  | nil => cases h
  | append_singleton entries last ih =>
    obtain ⟨k, hk⟩ := (mem_values_iff _ a).mp h
    rw [ofList_concat, get?_insert] at hk
    split at hk
    · obtain rfl := Option.some_inj.mp hk
      exact ⟨last.1, by simp⟩
    · obtain ⟨k, hold⟩ := ih ((mem_values_iff _ a).mpr ⟨k, hk⟩)
      exact ⟨k, List.mem_append_left _ hold⟩

namespace Color

theorem pack_bounds (c : Color) : 0 ≤ c.pack ∧ c.pack ≤ 0xFFFFFFFF := by
  rw [pack]
  omega

theorem parse?_bounds {t : Text} {word : Int} (h : parse? t = some word) :
    0 ≤ word ∧ word ≤ 0xFFFFFFFF := by
  obtain ⟨c, -, rfl⟩ := Option.map_eq_some_iff.mp h
  exact c.pack_bounds

theorem parseVisible?_bounds {t : Text} {word : Int} (h : parseVisible? t = some word) :
    0 ≤ word ∧ word ≤ 0xFFFFFFFF := by
  obtain ⟨c, -, rfl⟩ := Option.map_eq_some_iff.mp h
  exact c.opaqueUnlessBlack.pack_bounds

end Color

namespace Lighting

open Json (Members)

/-- The file of the named effect holds an object. -/
structure Holds (files : Files) (dataRoot name : Text) (object : Members) : Prop where
  named : name.isEmpty = false
  read : ∃ content, files.read (effectPath dataRoot name) = .octets content ∧
    document? files.maxDepth content = some (.obj object)

theorem Holds.load_eq {files : Files} {dataRoot name : Text} {object : Members}
    (h : Holds files dataRoot name object) (keyboard : Keyboard) :
    load keyboard files dataRoot name = .ok (effectOf keyboard name object) := by
  obtain ⟨content, hfile, hread⟩ := h.read
  exact load_eq_ok_iff.mpr ⟨h.named, content, object, hfile, hread, rfl⟩

theorem mem_resolvable (keyboard : Keyboard) (keys : List Json) (location : Int) :
    location ∈ resolvable keyboard keys ↔
      ∃ key ∈ keys, KeyToken.location? keyboard key = some location := by
  rw [resolvable, KeySet.mem_ofList, List.mem_filterMap]

/-- What a frame has from its object: a count that is at least one, and the keys that can be
resolved. -/
structure Frame.ReadFrom (keyboard : Keyboard) (object : Members) (frame : Frame) : Prop where
  count : frame.count = max 1 (((Json.member? object "Count").bind Json.int?).getD 1)
  keys : ∀ location, location ∈ frame.keys ↔
    ∃ key ∈ frameKeys object, KeyToken.location? keyboard key = some location

theorem Frame.ReadFrom.one_le {keyboard : Keyboard} {object : Members} {frame : Frame}
    (h : frame.ReadFrom keyboard object) : 1 ≤ frame.count := by
  rw [h.count]
  exact le_max_left ..

theorem readFrom_frameOf (keyboard : Keyboard) (object : Members) :
    (frameOf keyboard object).ReadFrom keyboard object where
  count := by
    rw [frameOf]
    cases (Json.member? object "Count").bind Json.int? with
    | none => rfl
    | some n =>
      dsimp only [Option.getD_some]
      split <;> omega
  keys := mem_resolvable keyboard (frameKeys object)

/-- Reading objects adds a frame for each, and their counts to the total. -/
theorem foldl_addFrame (keyboard : Keyboard) (objects : List Members) (read : List Frame × Int) :
    objects.foldl (addFrame keyboard) read =
      (read.1 ++ objects.map (frameOf keyboard),
        read.2 + ((objects.map (frameOf keyboard)).map Frame.count).sum) := by
  induction objects generalizing read with
  | nil => simp
  | cons object rest ih =>
    rw [List.foldl_cons, ih]
    simp [addFrame, add_assoc]

/-- A run of frames takes at least as many steps as there are frames. -/
theorem length_le_sum {frames : List Frame} (h : ∀ f ∈ frames, 1 ≤ f.count) :
    (frames.length : Int) ≤ (frames.map Frame.count).sum := by
  induction frames with
  | nil => simp
  | cons f rest ih =>
    have hfirst : 1 ≤ f.count := h f (by simp)
    have hrest := ih fun g hg => h g (by simp [hg])
    rw [List.map_cons, List.sum_cons, List.length_cons]
    push_cast
    omega

/-- A configuration lists a key that can be resolved. -/
def hasKey (keyboard : Keyboard) (object : Members) : Bool :=
  (configKeys object).any fun key => (KeyToken.location? keyboard key).isSome

theorem exists_mem_keys_iff (keyboard : Keyboard) (object : Members) :
    (∃ location, location ∈ (paramOf keyboard object).keys) ↔ hasKey keyboard object = true := by
  have hkeys (location : Int) : location ∈ (paramOf keyboard object).keys ↔
      ∃ key ∈ configKeys object, KeyToken.location? keyboard key = some location :=
    mem_resolvable keyboard (configKeys object) location
  simp only [hkeys, hasKey, List.any_eq_true, Option.isSome_iff_exists]
  constructor
  · rintro ⟨location, key, hkey, hlocation⟩
    exact ⟨key, hkey, location, hlocation⟩
  · rintro ⟨key, hkey, location, hlocation⟩
    exact ⟨location, key, hkey, hlocation⟩

/-- The configurations that stay are those that list a key. -/
theorem filter_paramOf (keyboard : Keyboard) (objects : List Members) :
    (objects.map (paramOf keyboard)).filter (!·.keys.isEmpty) =
      (objects.filter (hasKey keyboard)).map (paramOf keyboard) := by
  rw [List.filter_map]
  congr 1
  apply List.filter_congr
  intro object _
  rw [Bool.eq_iff_iff, ← exists_mem_keys_iff, ← KeySet.isEmpty_eq_false_iff]
  simp

theorem configColor_bounds (object : Members) :
    0 ≤ configColor object ∧ configColor object ≤ 0xFFFFFFFF := by
  rw [configColor]
  split
  · next text _ =>
    split
    · next color hparse => exact Color.parse?_bounds hparse
    · split <;> decide
  · decide

theorem staticColors_bounds {keyboard : Keyboard} {object : Members} {color : Int}
    (h : color ∈ (staticColors keyboard object).values) : 0 ≤ color ∧ color ≤ 0xFFFFFFFF := by
  rw [staticColors] at h
  split at h
  · obtain ⟨location, hentry⟩ := OrderedMap.mem_values_ofList h
    obtain ⟨entry, -, hcolored⟩ := List.mem_filterMap.mp hentry
    simp only [coloredKey?, Option.bind_eq_bind, Option.bind_eq_some_iff] at hcolored
    obtain ⟨_, -, parsed, ⟨text, -, hparse⟩, hpair⟩ := hcolored
    cases hpair
    exact Color.parseVisible?_bounds hparse
  · cases h

/-- What an effect has from the object in its file. -/
structure Effect.ReadFrom (keyboard : Keyboard) (object : Members) (e : Effect) : Prop where
  /-- An effect is dynamic unless its type says otherwise. -/
  kind : e.kind = (typeOf? EffectKind object).getD .dynamic
  static : e.kind = .static → e.frames = [] ∧ e.params = [] ∧ e.totalFrames = 0
  uncolored : e.kind = .dynamic → e.colors = ∅
  /-- There is one frame for each object among the frames of the file. -/
  frames : e.kind = .dynamic →
    List.Forall₂ (Frame.ReadFrom keyboard) (objectsIn (Json.member? object "Frames")) e.frames
  one_le : ∀ f ∈ e.frames, 1 ≤ f.count
  total : e.totalFrames = (e.frames.map Frame.count).sum
  length_le : (e.frames.length : Int) ≤ e.totalFrames
  /-- The configurations are those of the file that list a key. -/
  params : e.kind = .dynamic → e.params =
    ((objectsIn (Json.member? object "LEConfigs")).filter (hasKey keyboard)).map (paramOf keyboard)
  keyed : ∀ p ∈ e.params, ∃ location, location ∈ p.keys
  colors : ∀ color ∈ e.colors.values, 0 ≤ color ∧ color ≤ 0xFFFFFFFF
  paramColors : ∀ p ∈ e.params, 0 ≤ p.color ∧ p.color ≤ 0xFFFFFFFF

theorem effectOf_of_static {object : Members}
    (h : (typeOf? EffectKind object).getD .dynamic = .static) (keyboard : Keyboard) (name : Text) :
    effectOf keyboard name object = { name, body := .static (staticColors keyboard object) } := by
  rw [effectOf, h]

theorem effectOf_of_dynamic {object : Members}
    (h : (typeOf? EffectKind object).getD .dynamic = .dynamic) (keyboard : Keyboard)
    (name : Text) :
    effectOf keyboard name object =
      let frames := (objectsIn (Json.member? object "Frames")).map (frameOf keyboard)
      let configs := (objectsIn (Json.member? object "LEConfigs")).filter (hasKey keyboard)
      { name, body := .dynamic frames (frames.map Frame.count).sum
                (configs.map (paramOf keyboard)) } := by
  rw [effectOf, h]
  dsimp only
  rw [foldl_addFrame, filter_paramOf, List.nil_append, Int.zero_add]

theorem readFrom_effectOf (keyboard : Keyboard) (name : Text) (object : Members) :
    (effectOf keyboard name object).ReadFrom keyboard object := by
  cases hkind : (typeOf? EffectKind object).getD .dynamic with
  | static =>
    rw [effectOf_of_static hkind]
    exact {
      kind := hkind.symm
      static := fun _ => ⟨rfl, rfl, rfl⟩
      uncolored := nofun
      frames := nofun
      one_le := nofun
      total := rfl
      length_le := le_refl 0
      params := nofun
      keyed := nofun
      colors := fun _ => staticColors_bounds
      paramColors := nofun }
  | dynamic =>
    rw [effectOf_of_dynamic hkind]
    have hframes : List.Forall₂ (Frame.ReadFrom keyboard)
        (objectsIn (Json.member? object "Frames"))
        ((objectsIn (Json.member? object "Frames")).map (frameOf keyboard)) := by
      rw [List.forall₂_map_right_iff, List.forall₂_same]
      intro object _
      exact readFrom_frameOf keyboard object
    have hcount : ∀ f ∈ (objectsIn (Json.member? object "Frames")).map (frameOf keyboard),
        1 ≤ f.count := by
      intro f hf
      obtain ⟨object, -, rfl⟩ := List.mem_map.mp hf
      exact (readFrom_frameOf keyboard object).one_le
    exact {
      kind := hkind.symm
      static := nofun
      uncolored := fun _ => rfl
      frames := fun _ => hframes
      one_le := hcount
      total := rfl
      length_le := length_le_sum hcount
      params := fun _ => rfl
      keyed := by
        intro p hp
        obtain ⟨object, hobject, rfl⟩ := List.mem_map.mp hp
        exact (exists_mem_keys_iff keyboard object).mpr (List.mem_filter.mp hobject).2
      colors := nofun
      paramColors := by
        intro p hp
        obtain ⟨object, -, rfl⟩ := List.mem_map.mp hp
        exact configColor_bounds object }

end Lighting

/-- Every loaded effect is well formed, whatever the files hold: it is what the object in the file
of its name describes, with nothing in it that could not be made sense of. -/
theorem loaded_effect_well_formed {keyboard : Keyboard} {files : Files} {dataRoot name : Text}
    {effect : Lighting.Effect} (h : Lighting.load keyboard files dataRoot name = .ok effect) :
    ∃ content object, files.read (Lighting.effectPath dataRoot name) = .octets content ∧
      Lighting.document? files.maxDepth content = some (.obj object) ∧
      effect.ReadFrom keyboard object := by
  obtain ⟨-, content, object, hfile, hread, rfl⟩ := Lighting.load_eq_ok_iff.mp h
  exact ⟨content, object, hfile, hread, Lighting.readFrom_effectOf keyboard name object⟩

/-- A file with two frames around an item that is none, the count of one being negative, and with
two configurations, one of which lists no keys. -/
theorem loaded_effect_well_formed_wave :
    ∃ files effect object,
      files.read "lighting/Wave.le".toList = .octets (Text.toUtf8
        ("\x7b\"Frames\":[\x7b\"Count\":3\x7d,7,\x7b\"Count\":-4\x7d],".toList ++
          "\"LEConfigs\":[\x7b\x7d,\x7b\"Keys\":[12],\"Color\":\"#00FF0000\"\x7d]\x7d".toList)) ∧
      Lighting.load {} files [] "Wave".toList = .ok effect ∧ effect.ReadFrom {} object ∧
      effect.frames.map Lighting.Frame.count = [3, 1] ∧ effect.totalFrames = 4 ∧
      effect.params.map Lighting.Param.color = [0xFF] := by
  set files : Files := { read := fun _ => .octets (Text.toUtf8
    ("\x7b\"Frames\":[\x7b\"Count\":3\x7d,7,\x7b\"Count\":-4\x7d],".toList ++
      "\"LEConfigs\":[\x7b\x7d,\x7b\"Keys\":[12],\"Color\":\"#00FF0000\"\x7d]\x7d".toList)) }
  have hparts : (Lighting.load {} files [] "Wave".toList).toOption.map (fun e =>
      (e.frames.map Lighting.Frame.count, e.totalFrames, e.params.map Lighting.Param.color)) =
      some ([3, 1], 4, [0xFF]) := by
    decide +kernel
  cases hload : Lighting.load {} files [] "Wave".toList with
  | error failure => rw [hload] at hparts; cases hparts
  | ok effect =>
    obtain ⟨-, object, -, -, hobject⟩ := loaded_effect_well_formed hload
    rw [hload] at hparts
    obtain ⟨hframes, hparts⟩ := Prod.mk.inj (Option.some_inj.mp hparts)
    obtain ⟨htotal, hcolors⟩ := Prod.mk.inj hparts
    exact ⟨files, effect, object, rfl, hload, hobject, hframes, htotal, hcolors⟩

end KeyProfile

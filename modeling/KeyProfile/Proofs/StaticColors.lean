import KeyProfile.Proofs.LoadedEffects

/-!
The colors of a static effect. The members of its data are taken in order; one colors a location if
its name is a key there and its value the text of a color, and the others are passed over. Of
several that color the same location, under whatever names, the last one counts
(`get?_staticColors`). A color without alpha is black (`Color.eq_zero_of_transparent`), so no other
colored key is invisible. Main statement: `static_colors_last_wins`.
-/

namespace KeyProfile

/-- A color that is to be visible and has no alpha is black. -/
theorem Color.eq_zero_of_transparent {t : Text} {word : Int} (h : parseVisible? t = some word)
    (halpha : (unpack word).alpha = 0) : word = 0 := by
  obtain ⟨c, hread, rfl⟩ := Option.map_eq_some_iff.mp h
  have hchannels : 0 ≤ c.alpha ∧ c.alpha < 0x100 := by
    simp only [ofText?, Option.bind_eq_some_iff, Option.map_eq_some_iff] at hread
    obtain ⟨body, -, n, -, rfl⟩ := hread
    simp only [ofFileOrder]
    omega
  rw [unpack_pack] at halpha
  dsimp only at halpha
  unfold opaqueUnlessBlack at halpha ⊢
  split at halpha
  · cases halpha
  · next hshown =>
    rw [if_neg hshown]
    have hblack : c.red = 0 ∧ c.green = 0 ∧ c.blue = 0 := by
      by_contra hcolored
      exact hshown ⟨by omega, hcolored⟩
    have htransparent : c.alpha = 0 := by omega
    rw [pack, hblack.1, hblack.2.1, hblack.2.2, htransparent]
    rfl

namespace Lighting

open Json (Members)

/-- The members of an object's data; there are none in anything but an object. -/
def dataMembers (object : Members) : Members :=
  match Json.member? object "Data" with
  | some (.obj members) => members
  | _ => []

/-- A member colors a location: its name is a key there, and its value the text of the color. -/
structure Colors (keyboard : Keyboard) (entry : Text × Json) (location color : Int) : Prop where
  key : KeyToken.location? keyboard (.str entry.1) = some location
  text : ∃ t, entry.2 = .str t ∧ Color.parseVisible? t = some color

/-- Of the members that color a location, the last one gives it this color. -/
def LastColors (keyboard : Keyboard) (members : Members) (location color : Int) : Prop :=
  ∃ before entry after, members = before ++ entry :: after ∧
    Colors keyboard entry location color ∧
    ∀ later ∈ after, ∀ other, ¬Colors keyboard later location other

section

variable {keyboard : Keyboard}

theorem coloredKey?_eq_some_iff {entry : Text × Json} {location color : Int} :
    coloredKey? keyboard entry = some (location, color) ↔ Colors keyboard entry location color := by
  simp only [coloredKey?, Option.bind_eq_bind, Option.bind_eq_some_iff, Option.some_inj]
  constructor
  · rintro ⟨_, hkey, _, ⟨t, hvalue, hcolor⟩, hpair⟩
    cases hpair
    refine ⟨hkey, t, ?_, hcolor⟩
    cases hjson : entry.2 <;> rw [hjson] at hvalue <;> cases hvalue
    rfl
  · rintro ⟨hkey, t, hvalue, hcolor⟩
    exact ⟨location, hkey, color, ⟨t, by rw [hvalue]; rfl, hcolor⟩, rfl⟩

theorem coloredKey?_eq_none_iff {entry : Text × Json} :
    coloredKey? keyboard entry = none ↔
      ∀ location color, ¬Colors keyboard entry location color := by
  simp only [Option.eq_none_iff_forall_ne_some, Prod.forall, ne_eq, coloredKey?_eq_some_iff]

theorem not_lastColors_nil {location color : Int} : ¬LastColors keyboard [] location color := by
  rintro ⟨before, entry, after, hsplit, -⟩
  cases before <;> cases hsplit

/-- The last member decides if it colors the location, and those before it otherwise. -/
theorem lastColors_concat {members : Members} {entry : Text × Json} {location color : Int} :
    LastColors keyboard (members ++ [entry]) location color ↔
      Colors keyboard entry location color ∨
        (∀ other, ¬Colors keyboard entry location other) ∧
          LastColors keyboard members location color := by
  constructor
  · rintro ⟨before, own, after, hsplit, hcolors, hlast⟩
    rcases List.eq_nil_or_concat after with rfl | ⟨after, last, rfl⟩
    · obtain ⟨-, rfl⟩ := List.append_singleton_inj.mp hsplit
      exact .inl hcolors
    · rw [List.concat_eq_append, ← List.cons_append, ← List.append_assoc] at hsplit
      obtain ⟨rfl, rfl⟩ := List.append_singleton_inj.mp hsplit
      refine .inr ⟨hlast entry (by simp), before, own, after, rfl, hcolors, ?_⟩
      intro later hlater
      exact hlast later (by simp [hlater])
  · rintro (hcolors | ⟨hnone, before, own, after, rfl, hcolors, hlast⟩)
    · exact ⟨members, entry, [], rfl, hcolors, nofun⟩
    · refine ⟨before, own, after ++ [entry], by simp, hcolors, ?_⟩
      intro later hlater
      rcases List.mem_append.mp hlater with hin | hend
      · exact hlast later hin
      · exact List.mem_singleton.mp hend ▸ hnone

theorem get?_ofList_colored (members : Members) (location color : Int) :
    (OrderedMap.ofList (members.filterMap (coloredKey? keyboard))).get? location = some color ↔
      LastColors keyboard members location color := by
  induction members using List.reverseRecOn with
  | nil => exact iff_of_false nofun not_lastColors_nil
  | append_singleton members entry ih =>
    rw [lastColors_concat, ← ih, List.filterMap_append]
    cases hentry : coloredKey? keyboard entry with
    | none =>
      have hnone := coloredKey?_eq_none_iff.mp hentry
      simp [hentry, hnone]
    | some colored =>
      obtain ⟨own, shown⟩ := colored
      have hcolors (location color : Int) :
          Colors keyboard entry location color ↔ own = location ∧ shown = color := by
        rw [← coloredKey?_eq_some_iff, hentry, Option.some_inj, Prod.mk.injEq]
      have hsingle : [entry].filterMap (coloredKey? keyboard) = [(own, shown)] := by simp [hentry]
      rw [hsingle, OrderedMap.ofList_concat, OrderedMap.get?_insert]
      simp only [hcolors, not_and]
      by_cases hlocation : location = own
      · simp [hlocation]
      · have hother : ¬own = location := fun h => hlocation h.symm
        simp [hlocation, hother]

end

theorem staticColors_eq (keyboard : Keyboard) (object : Members) :
    staticColors keyboard object =
      OrderedMap.ofList ((dataMembers object).filterMap (coloredKey? keyboard)) := by
  unfold staticColors dataMembers
  cases Json.member? object "Data" with
  | none => rfl
  | some data => cases data <;> rfl

theorem get?_staticColors (keyboard : Keyboard) (object : Members) (location color : Int) :
    (staticColors keyboard object).get? location = some color ↔
      LastColors keyboard (dataMembers object) location color := by
  rw [staticColors_eq]
  exact get?_ofList_colored ..

/-- A member that colors nothing may as well be missing. -/
theorem staticColors_skip {keyboard : Keyboard} {object other before after : Members}
    {entry : Text × Json} (hobject : dataMembers object = before ++ entry :: after)
    (hnone : ∀ location color, ¬Colors keyboard entry location color)
    (hother : dataMembers other = before ++ after) :
    staticColors keyboard other = staticColors keyboard object := by
  rw [staticColors_eq, staticColors_eq, hobject, hother, List.filterMap_append,
    List.filterMap_append, List.filterMap_cons_none (coloredKey?_eq_none_iff.mpr hnone)]

/-- What the colors of an effect have from the object in its file. -/
structure Effect.Colored (keyboard : Keyboard) (object : Members) (e : Effect) : Prop where
  /-- A location has the color that the last member gives it, -/
  last : ∀ location color, e.colors.get? location = some color ↔
    LastColors keyboard (dataMembers object) location color
  /-- and a member that gives none changes nothing. -/
  skip : ∀ before entry after, dataMembers object = before ++ entry :: after →
    (∀ location color, ¬Colors keyboard entry location color) →
    ∀ other, dataMembers other = before ++ after → staticColors keyboard other = e.colors
  visible : ∀ location color, e.colors.get? location = some color →
    (Color.unpack color).alpha = 0 → color = 0
  uncolored : (∀ members, Json.member? object "Data" ≠ some (.obj members)) → e.colors = ∅

theorem colored_of_static {object : Members} (h : typeOf? EffectKind object = some .static)
    (keyboard : Keyboard) (name : Text) :
    (effectOf keyboard name object).Colored keyboard object := by
  rw [effectOf_of_static (by rw [h]; rfl)]
  refine ⟨get?_staticColors keyboard object, ?_, ?_, ?_⟩
  · intro before entry after hobject hnone other hother
    exact staticColors_skip hobject hnone hother
  · intro location color hcolor halpha
    obtain ⟨before, entry, after, -, ⟨-, t, -, hparse⟩, -⟩ :=
      (get?_staticColors keyboard object location color).mp hcolor
    exact Color.eq_zero_of_transparent hparse halpha
  · intro hmissing
    change staticColors keyboard object = ∅
    unfold staticColors
    split
    · next members hdata => exact absurd hdata (hmissing members)
    · rfl

end Lighting

/-- A static effect loads whatever its data are. Of all members that color a location the last one
counts, the others being as good as missing, and a color without alpha is black. -/
theorem static_colors_last_wins {files : Files} {dataRoot name : Text} {object : Json.Members}
    (hfile : Lighting.Holds files dataRoot name object)
    (hstatic : Lighting.typeOf? Lighting.EffectKind object = some .static) (keyboard : Keyboard) :
    ∃ e, Lighting.load keyboard files dataRoot name = .ok e ∧ e.kind = .static ∧
      e.Colored keyboard object := by
  refine ⟨_, hfile.load_eq keyboard, ?_, Lighting.colored_of_static hstatic keyboard name⟩
  rw [Lighting.effectOf_of_static (by rw [hstatic]; rfl)]
  rfl

/-- The key A colored twice, under its name and by its value, with a bad color behind that and a
name that is none; black is the only color that stays without alpha. -/
theorem static_colors_last_wins_twice :
    let keyboard := Keyboard.ofKeys 0 [(0x02000400, some 1)]
    ∃ files object e, Lighting.Holds files [] "Glow".toList object ∧
      files.read "lighting/Glow.le".toList = .octets (Text.toUtf8
        ("\x7b\"Type\":\"static\",\"Data\":\x7b\"a\":\"#FF0000\",".toList ++
          "\"0x02000400\":\"#FF00\",\"A\":\"#GG\",\"Nope\":\"#1\",\"2\":\"0x0\"\x7d\x7d".toList)) ∧
      Lighting.typeOf? Lighting.EffectKind object = some .static ∧
      Lighting.load keyboard files [] "Glow".toList = .ok e ∧
      e.colors.get? 1 = some 0xFF00FF00 ∧ e.colors.get? 2 = some 0 := by
  intro keyboard
  set files : Files := { read := fun _ => .octets (Text.toUtf8
    ("\x7b\"Type\":\"static\",\"Data\":\x7b\"a\":\"#FF0000\",".toList ++
      "\"0x02000400\":\"#FF00\",\"A\":\"#GG\",\"Nope\":\"#1\",\"2\":\"0x0\"\x7d\x7d".toList)) }
  set object : Json.Members := [("Type".toList, .str "static".toList),
    ("Data".toList, .obj [("a".toList, .str "#FF0000".toList),
      ("0x02000400".toList, .str "#FF00".toList), ("A".toList, .str "#GG".toList),
      ("Nope".toList, .str "#1".toList), ("2".toList, .str "0x0".toList)])]
  have hfile : Lighting.Holds files [] "Glow".toList object := ⟨rfl, _, rfl, rfl⟩
  have hstatic : Lighting.typeOf? Lighting.EffectKind object = some .static := by decide +kernel
  obtain ⟨e, hload, -, hcolored⟩ := static_colors_last_wins hfile hstatic keyboard
  have hcolors (location color : Int)
      (h : (Lighting.staticColors keyboard object).get? location = some color) :
      e.colors.get? location = some color :=
    (hcolored.last location color).mpr ((Lighting.get?_staticColors ..).mp h)
  exact ⟨files, object, e, hfile, rfl, hstatic, hload, hcolors 1 _ (by decide +kernel),
    hcolors 2 _ (by decide +kernel)⟩

end KeyProfile

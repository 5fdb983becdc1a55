import KeyProfile.Color
import KeyProfile.Proofs.HexSpellings
import KeyProfile.Proofs.WordReadings

/-!
Colors as words and as texts. A word and its four channels give each other back as far as there is
room, eight bits a channel. A text may start with either mark, and however its digits are spelled,
it is the color that they stand for (`parse?_of_respells`). The reading for keys that must stay
visible reads the same texts and makes a color opaque that has no alpha, unless it is black
(`parseVisible?_of_parse?`). Main statement: `colors_survive`.
-/

namespace KeyProfile

namespace Color

/-- The word of a color is the union of its channels, eight bits of each in their place. -/
theorem pack_eq_union (c : Color) :
    c.pack = bitUnion (bitUnion (bitUnion (Int.land c.red 0xFF) (Int.land c.green 0xFF * 2 ^ 8))
      (Int.land c.blue 0xFF * 2 ^ 16)) (Int.land c.alpha 0xFF * 2 ^ 24) := by
  have hbyte (n : Int) : Int.land n 0xFF = n % 0x100 := (DriverValue.fields_eq_bits n).2.2.2.symm
  simp only [hbyte]
  rw [bitUnion_shifted 8 (by omega) (by omega), bitUnion_shifted 16 (by omega) (by omega),
    bitUnion_shifted 24 (by omega) (by omega)]
  rfl

/-- The channels of a word are eight bits each of the word after a shift. -/
theorem unpack_eq_bits (word : Int) :
    unpack word = ⟨Int.land word 0xFF, Int.land (word >>> (8 : Nat)) 0xFF,
      Int.land (word >>> (16 : Nat)) 0xFF, Int.land (word >>> (24 : Nat)) 0xFF⟩ := by
  obtain ⟨hkind, hdata1, husage, hdata2⟩ := DriverValue.fields_eq_bits word
  rw [← hkind, ← hdata1, ← husage, ← hdata2]
  rfl

/-- A word without alpha whose color is not black. -/
def Invisible (word : Int) : Prop :=
  (unpack word).alpha = 0 ∧
    ¬((unpack word).red = 0 ∧ (unpack word).green = 0 ∧ (unpack word).blue = 0)

/-- A color whose channels are bytes is read back from its word. -/
theorem unpack_pack_ofFileOrder (n : Int) : unpack (ofFileOrder n).pack = ofFileOrder n := by
  rw [unpack_pack]
  simp only [ofFileOrder, Int.emod_emod_of_dvd _ (dvd_refl _)]

theorem exists_of_parse? {t : Text} {word : Int} (h : parse? t = some word) :
    ∃ n, ofText? t = some (ofFileOrder n) ∧ word = (ofFileOrder n).pack := by
  obtain ⟨c, hread, rfl⟩ := Option.map_eq_some_iff.mp h
  obtain ⟨body, -, hbody⟩ := Option.bind_eq_some_iff.mp hread
  obtain ⟨n, -, rfl⟩ := Option.map_eq_some_iff.mp hbody
  exact ⟨n, hread, rfl⟩

theorem parseVisible?_of_parse? {t : Text} {word : Int} (h : parse? t = some word) :
    ∃ shown, parseVisible? t = some shown ∧
      (Invisible word → shown = { unpack word with alpha := 0xFF }.pack) ∧
      (¬Invisible word → shown = word) := by
  obtain ⟨n, hread, rfl⟩ := exists_of_parse? h
  refine ⟨(ofFileOrder n).opaqueUnlessBlack.pack, ?_, ?_, ?_⟩
  · rw [parseVisible?, hread, Option.map_some]
  · rintro ⟨halpha, hcolored⟩
    rw [unpack_pack_ofFileOrder] at halpha hcolored ⊢
    rw [opaqueUnlessBlack, if_pos ⟨halpha, hcolored⟩]
  · intro hshown
    rw [Invisible, unpack_pack_ofFileOrder] at hshown
    rw [opaqueUnlessBlack, if_neg hshown]

theorem parseVisible?_eq_none_of_parse? {t : Text} (h : parse? t = none) :
    parseVisible? t = none := by
  rw [parseVisible?, Option.map_eq_none_iff.mp h, Option.map_none]

/-- The eight digits of a color in a file: alpha, red, green and blue, two for each. -/
def fileDigits (alpha red green blue : Fin 256) : Text :=
  [alpha, red, green, blue].flatMap fun channel => Text.padded 2 (Text.hexUpper channel.val)

theorem mapM_hexDigit?_padded (n : Fin 256) :
    (Text.padded 2 (Text.hexUpper n.val)).mapM Text.hexDigit? = some [n.val / 16, n.val % 16] := by
  revert n
  decide +kernel

/-- The digits of a color make a number with alpha on top. -/
theorem mapM_hexDigit?_fileDigits (alpha red green blue : Fin 256) :
    ∃ ds, (fileDigits alpha red green blue).mapM Text.hexDigit? = some ds ∧
      Text.positional 16 ds =
        alpha.val * 0x1000000 + red.val * 0x10000 + green.val * 0x100 + blue.val := by
  refine ⟨[alpha.val / 16, alpha.val % 16] ++ ([red.val / 16, red.val % 16] ++
    ([green.val / 16, green.val % 16] ++ ([blue.val / 16, blue.val % 16] ++ []))), ?_, ?_⟩
  · simp only [fileDigits, List.flatMap_cons, List.flatMap_nil, List.mapM_append,
      mapM_hexDigit?_padded]
    rfl
  · simp only [Text.positional, List.cons_append, List.nil_append, List.foldl_cons, List.foldl_nil]
    omega

theorem parse?_of_respells {alpha red green blue : Fin 256} {t : Text}
    (h : t.Respells (fileDigits alpha red green blue)) :
    parse? ('#' :: t) = some (pack ⟨red.val, green.val, blue.val, alpha.val⟩) := by
  obtain ⟨ds, hds, hvalue⟩ := mapM_hexDigit?_fileDigits alpha red green blue
  have hread := Text.hex?_of_respells h hds
  set n := Text.positional 16 ds
  have hroom : n ≤ 0xFFFFFFFF := by omega
  have hword : KeyToken.hexWord? t = some (n : Int) := by
    rw [KeyToken.hexWord?, hread]
    exact if_pos hroom
  have hchannels : ofFileOrder n = ⟨red.val, green.val, blue.val, alpha.val⟩ := by
    simp only [ofFileOrder, Color.mk.injEq]
    omega
  have hbody : body? ('#' :: t) = some t := rfl
  rw [parse?, ofText?, hbody, Option.bind_some, hword, Option.map_some, Option.map_some, hchannels]

end Color

open Color

/-- Colors survive packing and parsing. Channels come back from a word by their lowest eight bits,
and a word from its channels by its lowest 32. Both marks in front of a text say the same. A text
is a color for a key that must stay visible if and only if it is one at all, and the same color
unless that has no alpha and is not black; then it is made opaque. And four bytes come back from
their digits, in any case and with zeros in front added or dropped. -/
theorem colors_survive :
    (∀ c : Color, unpack c.pack =
      ⟨c.red % 2 ^ 8, c.green % 2 ^ 8, c.blue % 2 ^ 8, c.alpha % 2 ^ 8⟩) ∧
    (∀ word, (unpack word).pack = word % 2 ^ 32) ∧
    (∀ s, parse? ("0x".toList ++ s) = parse? ('#' :: s) ∧
      parseVisible? ("0x".toList ++ s) = parseVisible? ('#' :: s)) ∧
    (∀ t, parse? t = none ∧ parseVisible? t = none ∨
      ∃ word shown, parse? t = some word ∧ parseVisible? t = some shown ∧
        (Invisible word → shown = { unpack word with alpha := 0xFF }.pack) ∧
        (¬Invisible word → shown = word)) ∧
    ∀ (alpha red green blue : Fin 256) (t : Text),
      t.Respells (fileDigits alpha red green blue) →
      parse? ('#' :: t) = some (pack ⟨red.val, green.val, blue.val, alpha.val⟩) := by
  refine ⟨unpack_pack, pack_unpack, fun s => ⟨rfl, rfl⟩, ?_, ?_⟩
  · intro t
    cases hparse : parse? t with
    | none => exact .inl ⟨rfl, parseVisible?_eq_none_of_parse? hparse⟩
    | some word =>
      obtain ⟨shown, hshown, hfixed, hkept⟩ := parseVisible?_of_parse? hparse
      exact .inr ⟨word, shown, rfl, hshown, hfixed, hkept⟩
  · intro alpha red green blue t
    exact parse?_of_respells

/-- Digits of both cases, with a zero dropped in front and with two added, and a blue without alpha
that must stay visible. -/
theorem colors_survive_blue :
    parse? "#aB12cD".toList = some 0x00CD12AB ∧ parse? "#008aB12cDf".toList = some 0x8ADF2CB1 ∧
      parse? "0xff".toList = some 0x00FF0000 ∧ parseVisible? "0xff".toList = some 0xFFFF0000 := by
  obtain ⟨-, -, hmarks, hvisible, hbytes⟩ := colors_survive
  have hdropped := hbytes 0 0xAB 0x12 0xCD "aB12cD".toList ⟨by decide, 2, .inr (by decide)⟩
  have hadded := hbytes 0x8A 0xB1 0x2C 0xDF "008aB12cDf".toList ⟨by decide, 2, .inl (by decide)⟩
  have hblue := hbytes 0 0 0 0xFF "ff".toList ⟨by decide, 6, .inr (by decide)⟩
  rw [← (hmarks _).1] at hblue
  refine ⟨hdropped, hadded, hblue, ?_⟩
  rcases hvisible "0xff".toList with ⟨hnone, -⟩ | ⟨word, shown, hword, hshown, hfixed, -⟩
  · exact absurd (hblue.symm.trans hnone) (by simp)
  · obtain rfl := Option.some_inj.mp (hblue.symm.trans hword)
    rw [hshown, hfixed ⟨by decide, by decide⟩]
    decide

end KeyProfile

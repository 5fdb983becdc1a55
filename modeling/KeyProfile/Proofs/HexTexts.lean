import KeyProfile.Proofs.BlankFields
import KeyProfile.Proofs.HexSpellings
import KeyProfile.Proofs.Numerals

/-!
Which texts are hexadecimal numbers, and which number each of them is. A text is read if there is
nothing in it but digits between blanks, as many as one likes, and it is the number that the places
of the digits give (`hex?_eq_some_iff`). Behind the mark of a literal the same texts are read,
blanks in front of the digits included (`KeyToken.literal_mark`). Main statement: `hex_texts_exact`.
-/

namespace KeyProfile

namespace Text

/-- A hexadecimal digit as it may be written. -/
structure HexDigit where
  value : Fin 16
  upper : Bool := false
deriving DecidableEq, Repr

def HexDigit.char (d : HexDigit) : Char :=
  if d.upper then hexChar d.value else Nat.digitChar d.value

theorem hexDigit?_char (d : HexDigit) : hexDigit? d.char = some d.value.val := by
  have hall : ∀ (value : Fin 16) (upper : Bool),
      hexDigit? (HexDigit.char ⟨value, upper⟩) = some value.val := by
    decide
  exact hall d.value d.upper

theorem exists_of_hexDigit? {c : Char} {n : Nat} (h : hexDigit? c = some n) :
    ∃ d : HexDigit, d.char = c ∧ d.value.val = n := by
  have hrange := range_of_alphanum (isAlphanum_of_hexDigit? h)
  have hcodes : 48 ≤ c.toNat ∧ c.toNat < 48 + 75 := by omega
  have hall : ∀ n ∈ hexDigit? c, ∃ (value : Fin 16) (upper : Bool),
      HexDigit.char ⟨value, upper⟩ = c ∧ value.val = n :=
    of_codes c hcodes (by decide +kernel)
  obtain ⟨value, upper, hspelled⟩ := hall n h
  exact ⟨⟨value, upper⟩, hspelled⟩

theorem exists_of_mapM_hexDigit? {t : Text} {ns : List Nat} (h : t.mapM hexDigit? = some ns) :
    ∃ digits : List HexDigit, t = digits.map HexDigit.char ∧ ns = digits.map (·.value.val) := by
  induction t generalizing ns with
  | nil =>
    cases h
    exact ⟨[], rfl, rfl⟩
  | cons c rest ih =>
    simp only [List.mapM_cons, Option.bind_eq_bind, Option.bind_eq_some_iff] at h
    obtain ⟨n, hn, others, hothers, hcons⟩ := h
    obtain ⟨d, rfl, rfl⟩ := exists_of_hexDigit? hn
    obtain ⟨digits, rfl, rfl⟩ := ih hothers
    cases hcons
    exact ⟨d :: digits, rfl, rfl⟩

/-- Between its blanks the text has digits, one or more of them and nothing else, and the number is
the one that their places give. -/
def SpellsHex (t : Text) (n : Nat) : Prop :=
  ∃ digits : List HexDigit, digits ≠ [] ∧ t.strip = digits.map HexDigit.char ∧
    Nat.ofDigits 16 (digits.map (·.value.val)).reverse = n

theorem hex?_eq_some_iff {t : Text} {n : Nat} : t.hex? = some n ↔ t.SpellsHex n := by
  unfold hex? SpellsHex
  rw [Option.map_eq_some_iff]
  constructor
  · rintro ⟨ns, hread, rfl⟩
    unfold digits? at hread
    split at hread
    · cases hread
    · next hne =>
      obtain ⟨digits, hdigits, rfl⟩ := exists_of_mapM_hexDigit? hread
      refine ⟨digits, ?_, hdigits, (positional_eq_ofDigits 16 _).symm⟩
      rintro rfl
      exact hne (by rw [hdigits]; rfl)
  · rintro ⟨digits, hne, hdigits, rfl⟩
    refine ⟨digits.map (·.value.val), ?_, positional_eq_ofDigits 16 _⟩
    rw [hdigits, digits?_map hne fun d _ => hexDigit?_char d]

end Text

open Text

namespace KeyToken

theorem hexWord?_eq_some_iff {t : Text} {v : Int} :
    hexWord? t = some v ↔ ∃ n : Nat, t.SpellsHex n ∧ n ≤ 0xFFFFFFFF ∧ v = n := by
  simp only [hexWord?, Option.bind_eq_bind, Option.bind_eq_some_iff, hex?_eq_some_iff]
  constructor
  · rintro ⟨n, hspells, hread⟩
    split at hread
    · next hroom =>
      cases hread
      exact ⟨n, hspells, hroom, rfl⟩
    · cases hread
  · rintro ⟨n, hspells, hroom, rfl⟩
    exact ⟨n, hspells, if_pos hroom⟩

theorem hexWord?_congr {t t' : Text} (h : t.strip = t'.strip) : hexWord? t = hexWord? t' := by
  unfold hexWord? hex?
  rw [h]

/-- Behind the mark there is the text itself but for blanks, even if that is all blank. -/
theorem exists_hexBody?_mark (t : Text) :
    ∃ body, hexBody? ("0x".toList ++ t) = some body ∧ body.strip = t.strip := by
  have hstrip : strip ("0x".toList ++ t) = '0' :: 'x' :: t.rdropWhile isBlank :=
    strip_append_cons (by decide : isBlank 'x' = false) ['0'] t
  have hend : Blank (t.rtakeWhile isBlank) := fun c hc => List.mem_rtakeWhile_imp hc
  refine ⟨t.rdropWhile isBlank, ?_, ?_⟩
  · rw [hexBody?, hstrip]
    rfl
  · calc
      strip (t.rdropWhile isBlank) = strip (t.rdropWhile isBlank ++ t.rtakeWhile isBlank) :=
        (strip_append_blank hend _).symm
      _ = t.strip := by rw [List.rdropWhile_append_rtakeWhile]

/-- A literal is what is behind its mark. -/
theorem literal_mark (t : Text) : hexLiteral? ("0x".toList ++ t) = hexWord? t ∧
    driverValue? ("0x".toList ++ t) = hexWord? t := by
  obtain ⟨body, hbody, hstrip⟩ := exists_hexBody?_mark t
  constructor
  · rw [hexLiteral?, hbody, Option.bind_some, hexWord?_congr hstrip]
  · rw [driverValue?, hbody]
    exact hexWord?_congr hstrip

end KeyToken

/-- A text is read as a word if and only if it spells a number of up to 32 bits in hexadecimal
digits, in either case and with any zeros in front, and then it is that number. So each such word is
what all its spellings stand for behind the mark of a literal, and what its name stands for. -/
theorem hex_texts_exact :
    (∀ (t : Text) (v : Int), KeyToken.hexWord? t = some v ↔
      ∃ n : Nat, t.SpellsHex n ∧ n ≤ 0xFFFFFFFF ∧ v = n) ∧
    (∀ t : Text, (∀ n ≤ 0xFFFFFFFF, ¬t.SpellsHex n) → KeyToken.hexWord? t = none) ∧
    ∀ n ≤ 0xFFFFFFFF,
      (∀ digits : Text, digits.SpellsHex n →
        KeyToken.hexLiteral? ("0x".toList ++ digits) = some (n : Int) ∧
        KeyToken.driverValue? ("0x".toList ++ digits) = some (n : Int)) ∧
      KeyToken.driverValue? (SymbolTable.standard.nameOf n) = some (n : Int) := by
  refine ⟨fun t v => KeyToken.hexWord?_eq_some_iff, ?_, fun n hroom => ⟨?_, ?_⟩⟩
  · intro t hnone
    rw [Option.eq_none_iff_forall_ne_some]
    intro v hread
    obtain ⟨n, hspells, hroom, -⟩ := KeyToken.hexWord?_eq_some_iff.mp hread
    exact hnone n hroom hspells
  · intro digits hspells
    obtain ⟨hliteral, hvalue⟩ := KeyToken.literal_mark digits
    rw [hliteral, hvalue]
    have hread := KeyToken.hexWord?_eq_some_iff.mpr ⟨n, hspells, hroom, rfl⟩
    exact ⟨hread, hread⟩
  · have hword : DriverValue.IsWord n := by
      unfold DriverValue.IsWord
      omega
    exact (spells_nameOf hword).source

/-- More zeros than a word has digits, digits of both cases and blanks around them; a number with
one digit too many; and Esc by its name. -/
theorem hex_texts_exact_zeros :
    KeyToken.hexLiteral? "0x 0000000002002aBf\u3000".toList = some 0x02002ABF ∧
      KeyToken.hexWord? "100000000".toList = none ∧
      KeyToken.driverValue? (SymbolTable.standard.nameOf 0x02002900) = some 0x02002900 := by
  obtain ⟨-, hnone, hwords⟩ := hex_texts_exact
  have hzeros : Text.SpellsHex " 0000000002002aBf\u3000".toList 0x02002ABF :=
    ⟨List.replicate 9 ⟨0, false⟩ ++ [⟨2, false⟩, ⟨0, false⟩, ⟨0, false⟩, ⟨2, false⟩, ⟨10, false⟩,
      ⟨11, true⟩, ⟨15, false⟩], by decide, by decide, by decide⟩
  have hgreat : ∀ n ≤ 0xFFFFFFFF, ¬Text.SpellsHex "100000000".toList n := by
    intro n hroom hspells
    have hvalue : Text.hex? "100000000".toList = some 0x100000000 := by decide
    obtain rfl : 0x100000000 = n :=
      Option.some_inj.mp (hvalue.symm.trans (Text.hex?_eq_some_iff.mpr hspells))
    exact absurd hroom (by decide)
  exact ⟨((hwords 0x02002ABF (by decide)).1 _ hzeros).1, hnone _ hgreat,
    (hwords 0x02002900 (by decide)).2⟩

end KeyProfile

import KeyProfile.Proofs.WordUnion
import Mathlib.Data.Int.Bitwise
import Mathlib.Data.Int.ModEq

/-!
What a number says as a driver value. Only its lowest 32 bits count, so numbers that agree in these
read alike (`ReadsAlike.of_modEq`). The fields are masks of the shifted number, negative numbers
having infinitely many bits set on the left (`fields_eq_bits`), and a word that runs a macro is the
union of the tag and the id (`ofMacroId_eq_union`). Main statement: `macro_words_exact`.
-/

namespace KeyProfile

/-! Fields as bits. -/

/-- A mask of `n` ones in front of `k` zeros takes `n` bits of a number, also of a negative one, and
leaves them in their place. -/
theorem land_mask (v : Int) (n k : Nat) :
    Int.land v ((2 ^ n - 1) * 2 ^ k : Nat) = v / 2 ^ k % 2 ^ n * 2 ^ k := by
  cases v with
  | ofNat m =>
    have hbits : m &&& (2 ^ n - 1) * 2 ^ k = m / 2 ^ k % 2 ^ n * 2 ^ k := by
      apply Nat.eq_of_testBit_eq
      intro i
      simp only [Nat.testBit_and, Nat.testBit_mul_two_pow, Nat.testBit_two_pow_sub_one,
        Nat.testBit_mod_two_pow, Nat.testBit_div_two_pow]
      by_cases hi : k ≤ i
      · rw [Nat.sub_add_cancel hi, Bool.and_comm, Bool.and_assoc]
      · simp [hi]
    have hland : Int.land (Int.ofNat m) ((2 ^ n - 1) * 2 ^ k : Nat) =
        ((m &&& (2 ^ n - 1) * 2 ^ k : Nat) : Int) := rfl
    rw [hland, hbits]
    push_cast
    rfl
  | negSucc m =>
    -- the bits of a negative number are those that its amount, less one, has not
    have hsmall : m / 2 ^ k % 2 ^ n < 2 ^ n := Nat.mod_lt _ (Nat.two_pow_pos n)
    have hbits : Nat.ldiff ((2 ^ n - 1) * 2 ^ k) m = (2 ^ n - (m / 2 ^ k % 2 ^ n + 1)) * 2 ^ k := by
      apply Nat.eq_of_testBit_eq
      intro i
      simp only [Nat.testBit_ldiff, Nat.testBit_mul_two_pow, Nat.testBit_two_pow_sub_one,
        Nat.testBit_two_pow_sub_succ hsmall, Nat.testBit_mod_two_pow, Nat.testBit_div_two_pow]
      by_cases hi : k ≤ i
      · rw [Nat.sub_add_cancel hi]
        cases decide (i - k < n) <;> simp [hi]
      · simp [hi]
    have hland : Int.land (Int.negSucc m) ((2 ^ n - 1) * 2 ^ k : Nat) =
        ((Nat.ldiff ((2 ^ n - 1) * 2 ^ k) m : Nat) : Int) := rfl
    have hshift : Int.negSucc m / 2 ^ k = Int.negSucc (m / 2 ^ k) := by
      rw [Int.negSucc_ediv _ (by positivity)]
      rfl
    rw [hland, hbits, hshift, Int.negSucc_emod _ (by positivity), Nat.cast_mul, Nat.cast_sub hsmall]
    push_cast
    ring

/-- The lowest eight bits of a number after a shift. -/
theorem land_shiftRight (v : Int) (k : Nat) : Int.land (v >>> k) 0xFF = v / 2 ^ k % 2 ^ 8 := by
  have hmask := land_mask (v >>> k) 8 0
  rw [Int.shiftRight_eq_div_pow] at hmask ⊢
  simpa using hmask

namespace DriverValue

/-- Each field is the lowest eight bits of the number after a shift. -/
theorem fields_eq_bits (v : Int) :
    kindByte v = Int.land (v >>> (24 : Nat)) 0xFF ∧ data1 v = Int.land (v >>> (16 : Nat)) 0xFF ∧
      usage v = Int.land (v >>> (8 : Nat)) 0xFF ∧ data2 v = Int.land v 0xFF := by
  have hlow : data2 v = Int.land v 0xFF := by
    have hmask := land_shiftRight v 0
    rw [Int.shiftRight_zero] at hmask
    rw [hmask, data2, pow_zero, Int.ediv_one]
    rfl
  exact ⟨(land_shiftRight v 24).symm, (land_shiftRight v 16).symm, (land_shiftRight v 8).symm, hlow⟩

/-- A word runs a macro if all but its lowest eight bits are those of the tag. -/
theorem runsMacro_iff_bits (v limit : Int) :
    runsMacro v limit = true ↔ Int.land v 0xFFFFFF00 = macroTag ∧ Int.land v 0xFF < limit := by
  have htop : Int.land v 0xFFFFFF00 = v / 2 ^ 8 % 2 ^ 24 * 2 ^ 8 := land_mask v 24 8
  rw [htop, ← (fields_eq_bits v).2.2.2]
  unfold runsMacro macroId?
  split
  · next hcall =>
    simp only [Option.isSome_some, true_iff]
    refine ⟨?_, hcall.2⟩
    have := hcall.1
    simp only [word, macroTag] at *
    omega
  · next hother =>
    simp only [Option.isSome_none, Bool.false_eq_true, false_iff]
    rintro ⟨htag, hlimit⟩
    refine hother ⟨?_, hlimit⟩
    simp only [word, macroTag] at *
    omega

/-- The word that runs a macro has the bits of the tag and of the id. -/
theorem ofMacroId_eq_union {id : Int} (h : 0 ≤ id ∧ id < macroIds) :
    ofMacroId id = .ok (bitUnion macroTag id) := by
  have htag : macroTag = 0x0A0100 * 2 ^ 8 := rfl
  rw [ofMacroId, if_pos h, htag, bitUnion_comm, bitUnion_shifted 8 h (by decide), Int.add_comm]

/-! Numbers that read alike. -/

/-- Two numbers say the same. -/
structure ReadsAlike (a b : Int) : Prop where
  kind : kind a = kind b
  modifiers : modifiers a = modifiers b
  data1 : data1 a = data1 b
  usage : usage a = usage b
  data2 : data2 a = data2 b
  macroId? : ∀ limit, macroId? a limit = macroId? b limit
  runsMacro : ∀ limit, runsMacro a limit = runsMacro b limit

theorem word_eq_word_iff {a b : Int} : word a = word b ↔ a ≡ b [ZMOD 2 ^ 32] := Iff.rfl

theorem eq_of_word_eq {α : Type} (read : Int → α) (hread : ∀ v, read (word v) = read v) {a b : Int}
    (h : word a = word b) : read a = read b := by
  rw [← hread a, h, hread]

/-- Nothing but the lowest 32 bits is read. -/
theorem ReadsAlike.of_modEq {a b : Int} (h : a ≡ b [ZMOD 2 ^ 32]) : ReadsAlike a b where
  kind := eq_of_word_eq _ kind_word h
  modifiers := eq_of_word_eq _ modifiers_word h
  data1 := eq_of_word_eq _ data1_word h
  usage := eq_of_word_eq _ usage_word h
  data2 := eq_of_word_eq _ data2_word h
  macroId? limit := eq_of_word_eq (DriverValue.macroId? · limit) (macroId?_word · limit) h
  runsMacro limit := eq_of_word_eq (DriverValue.runsMacro · limit) (runsMacro_word · limit) h

/-! Words that run macros. -/

/-- The id is read from all numbers that agree with the word made of it in the lowest 32 bits. -/
theorem macroId?_eq_some_iff_ofMacroId {v i limit : Int} :
    macroId? v limit = some i ↔ i < limit ∧ ∃ w, ofMacroId i = .ok w ∧ v ≡ w [ZMOD 2 ^ 32] := by
  rw [macroId?_eq_some_iff]
  constructor
  · rintro ⟨hrange, hlimit, hword⟩
    refine ⟨hlimit, _, ofMacroId_eq_ok_iff.mpr ⟨hrange, rfl⟩, ?_⟩
    rw [← word_eq_word_iff, hword, word_of_isWord (IsCall.isWord ⟨i, hrange, rfl⟩)]
  · rintro ⟨hlimit, w, hmade, hword⟩
    obtain ⟨hrange, rfl⟩ := ofMacroId_eq_ok_iff.mp hmade
    rw [← word_eq_word_iff, word_of_isWord (IsCall.isWord ⟨i, hrange, rfl⟩)] at hword
    exact ⟨hrange, hlimit, hword⟩

end DriverValue

open DriverValue

/-- The words that run macros, read and made. The id of a macro is read from a number if and only
if it is below the limit and the number agrees with the word made of the id in its lowest 32 bits.
An id has a word if it fits into a byte. And all that is read from a number depends on its lowest
32 bits alone. -/
theorem macro_words_exact :
    (∀ v i limit, macroId? v limit = some i ↔
      (0 ≤ i ∧ i ≤ 255) ∧ i < limit ∧ ∃ w, ofMacroId i = .ok w ∧ v ≡ w [ZMOD 2 ^ 32]) ∧
    (∀ i, (∃ fault, ofMacroId i = .error fault) ↔ ¬(0 ≤ i ∧ i ≤ 255)) ∧
    ∀ a b, a ≡ b [ZMOD 2 ^ 32] → ReadsAlike a b := by
  have hbyte (i : Int) : (0 ≤ i ∧ i ≤ 255) ↔ 0 ≤ i ∧ i < macroIds := by
    simp only [macroIds]
    omega
  refine ⟨?_, ?_, fun a b => ReadsAlike.of_modEq⟩
  · intro v i limit
    rw [macroId?_eq_some_iff_ofMacroId, hbyte]
    constructor
    · rintro ⟨hlimit, w, hmade, hword⟩
      exact ⟨(ofMacroId_eq_ok_iff.mp hmade).1, hlimit, w, hmade, hword⟩
    · rintro ⟨-, hlimit, hread⟩
      exact ⟨hlimit, hread⟩
  · intro i
    simp only [ofMacroId_eq_error_iff, hbyte, exists_and_left, exists_eq', and_true]

/-- A negative number that runs the macro 40, if there are that many. -/
theorem macro_words_exact_negative :
    ofMacroId 40 = .ok 0x0A010028 ∧ -0xF5FEFFD8 ≡ 0x0A010028 [ZMOD 2 ^ 32] ∧
      macroId? (-0xF5FEFFD8) 41 = some 40 ∧ macroId? (-0xF5FEFFD8) 40 = none ∧
      (∃ fault, ofMacroId 256 = .error fault) ∧ ReadsAlike (-0xF5FEFFD8) 0x0A010028 := by
  obtain ⟨hread, hfault, halike⟩ := macro_words_exact
  have hmade : ofMacroId 40 = .ok 0x0A010028 := rfl
  have hword : -0xF5FEFFD8 ≡ 0x0A010028 [ZMOD 2 ^ 32] := rfl
  exact ⟨hmade, hword, (hread _ 40 41).mpr ⟨by decide, by decide, _, hmade, hword⟩, rfl,
    (hfault 256).mpr (by decide), halike _ _ hword⟩

end KeyProfile

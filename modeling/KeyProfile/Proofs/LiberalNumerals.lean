import KeyProfile.Proofs.LetterCase
import KeyProfile.Proofs.Numerals

/-!
Liberal numerals. Each digit may be of any script, and a single underscore may stand between two of
them; these texts are read as the numbers that they stand for, and no others
(`integer?_eq_some_iff`). No character of a numeral has a case (`LiberalNumeral.caseless`).
-/

namespace KeyProfile

namespace Text

/-- A decimal digit of some script. -/
structure ScriptDigit where
  start : Nat
  value : Fin 10
  mem_digitZeros : start ∈ digitZeros := by decide

namespace ScriptDigit

def char (d : ScriptDigit) : Char := Char.ofNat (d.start + d.value)

variable (d : ScriptDigit)

theorem toNat_char : d.char.toNat = d.start + d.value := by
  have hall : ∀ start ∈ digitZeros,
      start + 10 ≤ 0xD800 ∨ 0xDFFF < start ∧ start + 10 ≤ 0x110000 := by
    decide
  have hroom := hall d.start d.mem_digitZeros
  have hvalid : (d.start + d.value).isValidChar := by
    unfold Nat.isValidChar
    omega
  rw [char, Char.toNat_ofNat, if_pos hvalid]

/-- The digits of ASCII come first, and all others far behind its letters. -/
theorem toNat_char_bounds :
    48 ≤ d.char.toNat ∧ d.char.toNat < 48 + 10 ∨ 0x660 ≤ d.char.toNat := by
  have hall : ∀ start ∈ digitZeros, start = 48 ∨ 0x660 ≤ start := by decide
  rw [d.toNat_char]
  rcases hall d.start d.mem_digitZeros with hstart | hstart <;> omega

theorem char_ne {c : Char} (h : ¬(48 ≤ c.toNat ∧ c.toNat < 48 + 10 ∨ 0x660 ≤ c.toNat)) :
    d.char ≠ c := by
  rintro rfl
  exact h d.toNat_char_bounds

/-- The digits of two scripts do not meet, so each is found in its own. -/
theorem scriptDigit?_char : scriptDigit? d.char = some d.value.val := by
  have hapart : ∀ start ∈ digitZeros, ∀ other ∈ digitZeros,
      start = other ∨ start + 10 ≤ other ∨ other + 10 ≤ start := by
    decide +kernel
  have hown : (scriptDigit? d.char).isSome = true := by
    refine List.findSome?_isSome_iff.mpr ⟨d.start, d.mem_digitZeros, ?_⟩
    rw [if_pos (by rw [d.toNat_char]; omega)]
    rfl
  obtain ⟨n, hread⟩ := Option.isSome_iff_exists.mp hown
  obtain ⟨other, hother, hfound⟩ := List.exists_of_findSome?_eq_some hread
  rw [hread]
  split at hfound
  · next hrange =>
    cases hfound
    rw [d.toNat_char] at hrange ⊢
    have hsame := hapart d.start d.mem_digitZeros other hother
    congr 1
    omega
  · cases hfound

theorem isAlpha_char : d.char.isAlpha = false := by
  rcases d.toNat_char_bounds with hascii | hbeyond
  · exact of_codes d.char hascii (by decide)
  · rw [Bool.eq_false_iff]
    intro hletter
    have hplain : d.char.isAlphanum = true := by rw [Char.isAlphanum, hletter, Bool.true_or]
    have hrange := range_of_alphanum hplain
    omega

theorem lowerChar_char : lowerChar d.char = d.char := by
  have hapart : ∀ start ∈ digitZeros, ∀ run ∈ caseRuns,
      run.last < start ∨ start + 10 ≤ run.first := by
    decide +kernel
  have hnone : caseRuns.findSome? (·.lower? d.char.toNat) = none := by
    rw [List.findSome?_eq_none_iff]
    intro run hrun
    have hbeside := hapart d.start d.mem_digitZeros run hrun
    refine if_neg ?_
    rw [d.toNat_char]
    omega
  unfold lowerChar
  split
  · exact toLower_of_not_isAlpha d.isAlpha_char
  · rw [hnone]

theorem caseless_char : Caseless d.char where
  same := d.lowerChar_char
  sigma := d.char_ne (by decide)
  dotted := d.char_ne (by decide)
  letter := d.isAlpha_char

end ScriptDigit
theorem exists_of_scriptDigit? {c : Char} {n : Nat} (h : scriptDigit? c = some n) :
    ∃ d : ScriptDigit, d.char = c ∧ d.value.val = n := by
  obtain ⟨start, hstart, hread⟩ := List.exists_of_findSome?_eq_some h
  split at hread
  · next hrange =>
    cases hread
    refine ⟨⟨start, ⟨c.toNat - start, by omega⟩, hstart⟩, ?_, rfl⟩
    rw [ScriptDigit.char, Nat.add_sub_cancel' hrange.1, Char.ofNat_toNat]
  · cases hread

/-- Digits behind others, each with an underscore in front of it or without. -/
def writtenMore (more : List (Bool × ScriptDigit)) : Text :=
  more.flatMap fun (grouped, d) => if grouped then ['_', d.char] else [d.char]

theorem moreDigits?_cons {c : Char} (hmark : c ≠ '_') {rest : Text} {n : Nat} {ns : List Nat}
    (hn : scriptDigit? c = some n) (hns : moreDigits? rest = some ns) :
    moreDigits? (c :: rest) = some (n :: ns) := by
  rw [moreDigits?, hn, hns]
  · rfl
  · rintro c' rest' rfl
    exact absurd rfl hmark

theorem moreDigits?_writtenMore (more : List (Bool × ScriptDigit)) :
    moreDigits? (writtenMore more) = some (more.map (·.2.value.val)) := by
  induction more with
  | nil => rfl
  | cons entry more ih =>
    obtain ⟨grouped, d⟩ := entry
    cases grouped with
    | false => exact moreDigits?_cons (d.char_ne (by decide)) d.scriptDigit?_char ih
    | true =>
      change moreDigits? ('_' :: d.char :: writtenMore more) = _
      rw [moreDigits?, d.scriptDigit?_char, ih]
      rfl

theorem exists_of_moreDigits? {t : Text} {ns : List Nat} (h : moreDigits? t = some ns) :
    ∃ more, t = writtenMore more ∧ ns = more.map (·.2.value.val) := by
  fun_induction moreDigits? t generalizing ns with
  | case1 =>
    cases h
    exact ⟨[], rfl, rfl⟩
  | case2 c rest ih =>
    simp only [Option.bind_eq_bind, Option.bind_eq_some_iff] at h
    obtain ⟨n, hn, others, hothers, hcons⟩ := h
    obtain ⟨d, rfl, rfl⟩ := exists_of_scriptDigit? hn
    obtain ⟨more, rfl, rfl⟩ := ih hothers
    cases hcons
    exact ⟨(true, d) :: more, rfl, rfl⟩
  | case3 c rest hc ih =>
    simp only [Option.bind_eq_bind, Option.bind_eq_some_iff] at h
    obtain ⟨n, hn, others, hothers, hcons⟩ := h
    obtain ⟨d, rfl, rfl⟩ := exists_of_scriptDigit? hn
    obtain ⟨more, rfl, rfl⟩ := ih hothers
    cases hcons
    exact ⟨(false, d) :: more, rfl, rfl⟩

end Text

open Text

/-- A liberal numeral as it may be written, without blanks around it. -/
structure LiberalNumeral where
  sign : Sign := .none
  first : ScriptDigit
  /-- The digits behind the first one, and whether an underscore is in front of them. -/
  more : List (Bool × ScriptDigit) := []

namespace LiberalNumeral

variable (n : LiberalNumeral)

def written : Text := n.sign.written ++ n.first.char :: writtenMore n.more

def digits : List Nat := n.first.value.val :: n.more.map (·.2.value.val)

/-- The number that the numeral stands for. -/
def value : Int := n.sign.of (Nat.ofDigits 10 n.digits.reverse)

theorem caseless {c : Char} (h : c ∈ n.written) : Caseless c := by
  have hmark : ['+', '-', '_'].all (Caseless ·) = true := by decide
  have hmark (c : Char) (hc : c ∈ ['+', '-', '_']) : Caseless c :=
    of_decide_eq_true (List.all_eq_true.mp hmark c hc)
  have hmore : ∀ c ∈ writtenMore n.more, Caseless c := by
    intro c hc
    obtain ⟨⟨grouped, d⟩, -, hentry⟩ := List.mem_flatMap.mp hc
    cases grouped with
    | false =>
      obtain rfl : c = d.char := List.mem_singleton.mp hentry
      exact d.caseless_char
    | true =>
      obtain rfl | hdigit := List.mem_cons.mp hentry
      · exact hmark '_' (by decide)
      · obtain rfl : c = d.char := List.mem_singleton.mp hdigit
        exact d.caseless_char
  rcases List.mem_append.mp h with hin | hin
  · exact hmark c (List.mem_append_left ['_'] (n.sign.written_subset hin))
  · rcases List.mem_cons.mp hin with rfl | hin
    · exact n.first.caseless_char
    · exact hmore c hin

end LiberalNumeral

namespace Text

/-- Between its blanks the text is a liberal numeral of the number, and not too long to be read. -/
def StandsFor (t : Text) (n : Int) : Prop :=
  ∃ numeral : LiberalNumeral, t.strip = numeral.written ∧
    numeral.digits.length ≤ maxDigits ∧ numeral.value = n

theorem integer?_eq_some_iff {t : Text} {n : Int} : t.integer? = some n ↔ t.StandsFor n := by
  constructor
  · intro hread
    obtain ⟨sign, body, hbody, hsigned⟩ := exists_sign groupedDigits? t.strip
    rw [integer?, hsigned, Option.bind_eq_some_iff] at hread
    obtain ⟨ds, hds, hnumber⟩ := hread
    cases body with
    | nil => cases hds
    | cons c rest =>
      simp only [groupedDigits?, Option.bind_eq_bind, Option.bind_eq_some_iff] at hds
      obtain ⟨d, hd, others, hothers, hcons⟩ := hds
      obtain ⟨first, rfl, rfl⟩ := exists_of_scriptDigit? hd
      obtain ⟨more, rfl, rfl⟩ := exists_of_moreDigits? hothers
      cases hcons
      obtain ⟨hlength, hvalue⟩ := numberOf?_eq_some_iff.mp hnumber
      rw [positional_eq_ofDigits] at hvalue
      exact ⟨⟨sign, first, more⟩, hbody, hlength, hvalue⟩
  · rintro ⟨numeral, hwritten, hlength, rfl⟩
    have hfirst : ∀ c ∈ (numeral.first.char :: writtenMore numeral.more).head?,
        c ≠ '-' ∧ c ≠ '+' := by
      rintro c ⟨⟩
      exact ⟨numeral.first.char_ne (by decide), numeral.first.char_ne (by decide)⟩
    have hdigits : groupedDigits? (numeral.first.char :: writtenMore numeral.more) =
        some numeral.digits := by
      rw [groupedDigits?, numeral.first.scriptDigit?_char, moreDigits?_writtenMore]
      rfl
    rw [integer?, hwritten, LiberalNumeral.written, signed?_written _ _ hfirst, hdigits,
      Option.bind_some, numberOf?_eq_some_iff, positional_eq_ofDigits]
    exact ⟨hlength, rfl⟩

theorem standsFor_strip {t : Text} {n : Int} : t.strip.StandsFor n ↔ t.StandsFor n := by
  unfold StandsFor
  rw [strip_strip]

/-- No numeral has a letter in it, so small letters make no numeral. -/
theorem standsFor_map_toLower {t : Text} {n : Int} :
    StandsFor (t.map Char.toLower) n ↔ t.StandsFor n := by
  refine exists_congr fun numeral => and_congr_left fun _ => ?_
  rw [strip_map_toLower]
  exact map_toLower_eq_iff fun c hc => (numeral.caseless hc).letter

theorem lower_of_standsFor {t : Text} {n : Int} (h : t.StandsFor n) :
    t.strip.lower = t.strip ∧ ∀ c ∈ t.strip, c.isAlpha = false := by
  obtain ⟨numeral, hwritten, -⟩ := h
  rw [hwritten]
  exact ⟨lower_of_caseless fun c hc => numeral.caseless hc,
    fun c hc => (numeral.caseless hc).letter⟩

end Text

end KeyProfile

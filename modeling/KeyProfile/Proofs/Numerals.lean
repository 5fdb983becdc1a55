import KeyProfile.Proofs.BlankEnds
import KeyProfile.Proofs.KeyReadings

/-!
Decimal numerals as locations. A numeral may have blanks around it, a sign, and zeros in front of
its other digits; it is read as the number that it stands for unless it has too many digits
(`Numeral.decimal?_written`). It has no letter in it, so it is neither a literal nor a name in any
case (`Numeral.hexBody?_written`, `Numeral.findAnyCase?_written`): a numeral that is no location is
nothing. Main statement: `numerals_are_locations`.
-/

namespace KeyProfile

namespace Text

/-- The characters of numerals. -/
def numeralChars : Text := "+-0123456789".toList

theorem numeralChar_spec {c : Char} (h : c ∈ numeralChars) :
    isBlank c = false ∧ c.isAlpha = false ∧ c.toNat < 0x80 ∧ c.toLower = c := by
  have hall : numeralChars.all (fun c =>
      isBlank c = false ∧ c.isAlpha = false ∧ c.toNat < 0x80 ∧ c.toLower = c) = true := by
    decide
  exact of_decide_eq_true (List.all_eq_true.mp hall c h)

/-- A digit as it is written. -/
def decimalChar (d : Fin 10) : Char := Nat.digitChar d

theorem decimalChar_spec (d : Fin 10) :
    digit? (decimalChar d) = some d.val ∧ decimalChar d ∈ numeralChars ∧ decimalChar d ≠ '-' ∧
      decimalChar d ≠ '+' := by
  revert d
  decide

theorem digits?_map_decimalChar {ds : List (Fin 10)} (hne : ds ≠ []) :
    digits? digit? (ds.map decimalChar) = some (ds.map Fin.val) :=
  digits?_map hne fun d _ => (decimalChar_spec d).1

/-- Digits stand for the number that their places give them. -/
theorem positional_eq_ofDigits (base : Nat) (digits : List Nat) :
    positional base digits = Nat.ofDigits base digits.reverse := by
  induction digits using List.reverseRecOn with
  | nil => rfl
  | append_singleton digits d ih =>
    rw [positional_append, ih, List.reverse_append, List.reverse_singleton, List.singleton_append,
      Nat.ofDigits_cons]
    ring

end Text

/-- Every name has a letter in it, also in lower case. -/
theorem Symbol.exists_letter_of_mem_names {s : Symbol} (hs : s ∈ Symbol.standard) {name : Text}
    (hname : name ∈ s.names) : ∃ c ∈ name.lower, c.isAlpha = true := by
  have hall : ∀ s ∈ Symbol.standard, ∀ name ∈ s.names,
      (name.map Char.toLower).any Char.isAlpha := by
    decide +kernel
  rw [(plain_of_mem_names hs hname).1.lower_eq]
  exact List.any_eq_true.mp (hall s hs name hname)

/-- What stands in front of the digits of a numeral. -/
inductive Sign where
  | none
  | plus
  | minus
deriving DecidableEq, Repr

namespace Sign

def written : Sign → Text
  | .none => []
  | .plus => ['+']
  | .minus => ['-']

theorem written_subset (sign : Sign) : sign.written ⊆ ['+', '-'] := by
  cases sign <;> decide

/-- The number with the sign. -/
def of : Sign → Nat → Int
  | .minus, n => -n
  | _, n => n

end Sign

namespace Text

/-- The number of digits behind a sign, if they are not too many. -/
def numberOf? (sign : Sign) (ds : List Nat) : Option Int :=
  if ds.length > maxDigits then none else some (sign.of (positional 10 ds))

theorem numberOf?_eq_some_iff {sign : Sign} {ds : List Nat} {n : Int} :
    numberOf? sign ds = some n ↔ ds.length ≤ maxDigits ∧ sign.of (positional 10 ds) = n := by
  unfold numberOf?
  split
  · next hmany => simp [Nat.not_le.mpr hmany]
  · next hfew => simp [Nat.not_lt.mp hfew]

variable (digitsOf? : Text → Option (List Nat))

/-- A text is read with the sign that it starts with, if any. -/
theorem exists_sign (t : Text) : ∃ (sign : Sign) (body : Text), t = sign.written ++ body ∧
    signed? digitsOf? t = (digitsOf? body).bind (numberOf? sign) := by
  unfold signed?
  split
  next negative body hsign =>
    split at hsign
    · cases hsign
      exact ⟨.minus, body, rfl, rfl⟩
    · cases hsign
      exact ⟨.plus, body, rfl, rfl⟩
    · cases hsign
      exact ⟨.none, t, rfl, rfl⟩

/-- The sign is told from digits that do not start with one themselves. -/
theorem signed?_written (sign : Sign) {body : Text} (h : ∀ c ∈ body.head?, c ≠ '-' ∧ c ≠ '+') :
    signed? digitsOf? (sign.written ++ body) = (digitsOf? body).bind (numberOf? sign) := by
  cases sign with
  | plus => rfl
  | minus => rfl
  | none =>
    obtain ⟨sign, rest, hbody, hread⟩ := exists_sign digitsOf? body
    cases sign with
    | none =>
      cases hbody
      exact hread
    | plus => exact absurd rfl (h '+' (by rw [hbody]; rfl)).2
    | minus => exact absurd rfl (h '-' (by rw [hbody]; rfl)).1

end Text

/-- A plain decimal numeral as it may be written. Any number of the first digits may be zeros. -/
structure Numeral where
  before : Text := []
  sign : Sign := .none
  digits : List (Fin 10)
  after : Text := []
  blank_before : before.Blank := by decide
  blank_after : after.Blank := by decide
  nonempty : digits ≠ []

namespace Numeral

variable (n : Numeral)

/-- The numeral without the blanks around it. -/
def core : Text := n.sign.written ++ n.digits.map Text.decimalChar

def written : Text := n.before ++ n.core ++ n.after

/-- The number that the numeral stands for. -/
def value : Int := n.sign.of (Nat.ofDigits 10 (n.digits.map Fin.val).reverse)

theorem mem_numeralChars {c : Char} (h : c ∈ n.core) : c ∈ Text.numeralChars := by
  rcases List.mem_append.mp h with hsign | hdigit
  · have hin : ['+', '-'] ⊆ Text.numeralChars := by decide
    exact hin (n.sign.written_subset hsign)
  · obtain ⟨d, -, rfl⟩ := List.mem_map.mp hdigit
    exact (Text.decimalChar_spec d).2.1

theorem strip_core : n.core.strip = n.core := by
  apply Text.strip_eq_self
  · intro c hc
    exact (Text.numeralChar_spec (n.mem_numeralChars (List.mem_of_mem_head? hc))).1
  · intro c hc
    exact (Text.numeralChar_spec (n.mem_numeralChars (List.mem_of_getLast? hc))).1

theorem strip_written : n.written.strip = n.core := by
  rw [written, Text.strip_padded n.blank_before n.blank_after, n.strip_core]

/-- The sign is told from the digits. -/
theorem signed?_core (digitsOf? : Text → Option (List Nat)) :
    Text.signed? digitsOf? n.core =
      (digitsOf? (n.digits.map Text.decimalChar)).bind (Text.numberOf? n.sign) := by
  apply Text.signed?_written
  intro c hc
  obtain ⟨d, -, rfl⟩ := List.mem_map.mp (List.mem_of_mem_head? hc)
  obtain ⟨-, -, hminus, hplus⟩ := Text.decimalChar_spec d
  exact ⟨hminus, hplus⟩

/-- A numeral is read as its number, unless it has too many digits. -/
theorem decimal?_written :
    n.written.decimal? = if n.digits.length > Text.maxDigits then none else some n.value := by
  rw [Text.decimal?, n.strip_written, n.signed?_core, Text.digits?_map_decimalChar n.nonempty,
    Option.bind_some, Text.numberOf?, List.length_map, Text.positional_eq_ofDigits]
  rfl

/-- A numeral has no letter in it, so it is no literal. -/
theorem hexBody?_written : KeyToken.hexBody? n.written = none := by
  rw [KeyToken.hexBody?, n.strip_written]
  split
  · next body hcore =>
    have hletter : 'x' ∈ n.core := by simp [hcore]
    have hfree : 'x' ∉ Text.numeralChars := by decide
    exact absurd (n.mem_numeralChars hletter) hfree
  · rfl

theorem lower_core : n.core.lower = n.core := by
  have hascii : ∀ c ∈ n.core, c.toNat < 0x80 := fun c hc =>
    (Text.numeralChar_spec (n.mem_numeralChars hc)).2.2.1
  have hsame : ∀ c ∈ n.core, c.toLower = id c := fun c hc =>
    (Text.numeralChar_spec (n.mem_numeralChars hc)).2.2.2
  rw [Text.lower_ascii _ hascii, List.map_congr_left hsame, List.map_id]

/-- A numeral is no name in any case. -/
theorem findAnyCase?_written : SymbolTable.standard.findAnyCase? n.written = none := by
  unfold SymbolTable.findAnyCase?
  rw [Option.map_eq_none_iff, List.find?_eq_none]
  intro claim hclaim
  obtain ⟨hs, hname⟩ := SymbolTable.mem_standard_of_mem_claims hclaim
  obtain ⟨c, hhead, hletter⟩ := Symbol.exists_letter_of_mem_names hs hname
  intro heq
  have heq : claim.1.lower = n.core := by simpa [n.strip_written, n.lower_core] using heq
  have hc : c ∈ n.core := heq ▸ hhead
  rw [(Text.numeralChar_spec (n.mem_numeralChars hc)).2.1] at hletter
  cases hletter

/-- What a lighting file makes of a numeral is its number, if that is in range. -/
theorem location?_written (keyboard : Keyboard) :
    KeyToken.location? keyboard (.str n.written) =
      KeyToken.decimalWithin? (-0x80000000) 0x7FFFFFFF n.written := by
  have hname : SymbolTable.standard.valueAnyCase? n.written.strip = none := by
    have hnone := n.findAnyCase?_written
    unfold SymbolTable.findAnyCase? at hnone
    unfold SymbolTable.valueAnyCase? SymbolTable.findAnyCase?
    rw [Text.strip_strip, hnone]
    rfl
  change KeyToken.locationOfText? keyboard n.written = _
  rw [KeyToken.locationOfText?, n.hexBody?_written, hname]
  dsimp only
  cases KeyToken.decimalWithin? (-0x80000000) 0x7FFFFFFF n.written <;> rfl

end Numeral

/-- An integer is a location already, and so is the number of a numeral, however many zeros and
blanks it is written with, if it fits into 32 bits with a sign. A numeral of another number, or of
too many digits, is no key: it is no literal and no name, so neither the symbols nor the keyboard
have a say. -/
theorem numerals_are_locations (keyboard : Keyboard) :
    (∀ n : Int, KeyToken.location? keyboard (.int n) = some n) ∧
    ∀ numeral : Numeral,
      (numeral.digits.length ≤ Text.maxDigits →
        KeyToken.location? keyboard (.str numeral.written) =
          if -2 ^ 31 ≤ numeral.value ∧ numeral.value < 2 ^ 31 then some numeral.value
          else none) ∧
      (Text.maxDigits < numeral.digits.length →
        KeyToken.location? keyboard (.str numeral.written) = none) ∧
      KeyToken.hexBody? numeral.written = none ∧
      SymbolTable.standard.findAnyCase? numeral.written = none := by
  refine ⟨fun n => rfl, fun numeral => ⟨?_, ?_, numeral.hexBody?_written,
    numeral.findAnyCase?_written⟩⟩
  · intro hlength
    have hfits : ¬numeral.digits.length > Text.maxDigits := Nat.not_lt.mpr hlength
    have hrange : (-0x80000000 ≤ numeral.value ∧ numeral.value ≤ 0x7FFFFFFF) ↔
        -2 ^ 31 ≤ numeral.value ∧ numeral.value < 2 ^ 31 := by
      omega
    rw [numeral.location?_written, KeyToken.decimalWithin?, numeral.decimal?_written, if_neg hfits]
    exact if_congr hrange rfl rfl
  · intro hlength
    rw [numeral.location?_written, KeyToken.decimalWithin?, numeral.decimal?_written,
      if_pos hlength]
    rfl

/-- A negative number with zeros in front and blanks of another script, the least number that is
too great, and zero with more digits than can be read. -/
theorem numerals_are_locations_bounds (keyboard : Keyboard) :
    KeyToken.location? keyboard (.str "\u3000-00042 ".toList) = some (-42) ∧
      KeyToken.location? keyboard (.str "+2147483648".toList) = none ∧
      KeyToken.location? keyboard (.str (List.replicate 4301 '0')) = none := by
  obtain ⟨-, hnumerals⟩ := numerals_are_locations keyboard
  let small : Numeral := { before := "\u3000".toList, sign := .minus, digits := [0, 0, 0, 4, 2]
                           after := " ".toList, nonempty := by simp }
  let great : Numeral := { sign := .plus, digits := [2, 1, 4, 7, 4, 8, 3, 6, 4, 8]
                           nonempty := by simp }
  have hfull : List.replicate 4301 (0 : Fin 10) ≠ [] := by
    rw [Ne, List.replicate_eq_nil_iff]
    decide
  let long : Numeral := { digits := List.replicate 4301 0, nonempty := hfull }
  have hlength : Text.maxDigits < long.digits.length := by
    rw [List.length_replicate]
    decide
  have hzeros : long.written = List.replicate 4301 '0' := by
    rw [Numeral.written, Numeral.core, List.map_replicate]
    exact List.append_nil _
  have hvalue : great.value = 2147483648 := by decide +kernel
  have hgreat := (hnumerals great).1 (by decide)
  rw [hvalue, if_neg (by decide)] at hgreat
  exact ⟨(hnumerals small).1 (by decide), hgreat, hzeros ▸ (hnumerals long).2.1 hlength⟩

end KeyProfile

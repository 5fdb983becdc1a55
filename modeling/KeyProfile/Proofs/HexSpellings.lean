import KeyProfile.Proofs.Spelling

/-!
The spellings of a hexadecimal number. Neither the case of a digit nor a zero in front of others
says anything: all respellings of the digits of a number are read as the number
(`hex?_of_respells`).
-/

namespace KeyProfile.Text

/-- A text has the digits of another, in either case, with zeros added in front or dropped there as
long as a digit is left. -/
def Respells (t digits : Text) : Prop :=
  t ≠ [] ∧ ∃ k, t.map Char.toUpper = List.replicate k '0' ++ digits ∨
    digits = List.replicate k '0' ++ t.map Char.toUpper

theorem hexDigit?_toUpper (c : Char) : hexDigit? c.toUpper = hexDigit? c := by
  by_cases hlower : 'a'.val ≤ c.val ∧ c.val ≤ 'z'.val
  · rw [UInt32.le_iff_toNat_le, UInt32.le_iff_toNat_le] at hlower
    have hrange : 97 ≤ c.toNat ∧ c.toNat < 97 + 26 := ⟨hlower.1, Nat.lt_succ_of_le hlower.2⟩
    exact of_codes c hrange (by decide)
  · have hsame : c.toUpper = c := dif_neg hlower
    rw [hsame]

theorem isAlphanum_of_hexDigit? {c : Char} {d : Nat} (h : hexDigit? c = some d) :
    c.isAlphanum = true := by
  have hspan {least greatest : Char} (hc : least ≤ c ∧ c ≤ greatest) :
      least.toNat ≤ c.toNat ∧ c.toNat ≤ greatest.toNat :=
    ⟨UInt32.le_iff_toNat_le.mp hc.1, UInt32.le_iff_toNat_le.mp hc.2⟩
  have hrange : (48 ≤ c.toNat ∧ c.toNat ≤ 57) ∨ (97 ≤ c.toNat ∧ c.toNat ≤ 102) ∨
      (65 ≤ c.toNat ∧ c.toNat ≤ 70) := by
    unfold hexDigit? at h
    split at h
    · next hdigit => exact .inl (hspan hdigit)
    · split at h
      · next hlower => exact .inr (.inl (hspan hlower))
      · split at h
        · next hupper => exact .inr (.inr (hspan hupper))
        · cases h
  rw [isAlphanum_iff]
  omega

/-- The digits of a text are those of its upper case. -/
theorem mapM_hexDigit?_toUpper (t : Text) :
    (t.map Char.toUpper).mapM hexDigit? = t.mapM hexDigit? := by
  have hsame : hexDigit? ∘ Char.toUpper = hexDigit? := funext hexDigit?_toUpper
  rw [List.mapM_map, hsame]

theorem mapM_hexDigit?_zeros (k : Nat) (t : Text) :
    (List.replicate k '0' ++ t).mapM hexDigit? =
      (t.mapM hexDigit?).map (List.replicate k 0 ++ ·) := by
  induction k with
  | zero => simp
  | succ k ih =>
    have hzero : hexDigit? '0' = some 0 := by decide
    rw [List.replicate_succ, List.cons_append, List.mapM_cons, ih, hzero]
    cases t.mapM hexDigit? <;> rfl

theorem plain_of_mapM_hexDigit? {t : Text} {ds : List Nat} (hne : t ≠ [])
    (h : t.mapM hexDigit? = some ds) : t.Plain := by
  refine ⟨hne, ?_⟩
  clear hne
  induction t generalizing ds with
  | nil => exact List.forall_mem_nil _
  | cons c t ih =>
    simp only [List.mapM_cons, Option.bind_eq_bind, Option.bind_eq_some_iff] at h
    obtain ⟨d, hd, rest, hrest, -⟩ := h
    exact List.forall_mem_cons.mpr ⟨isAlphanum_of_hexDigit? hd, ih hrest⟩

/-- However the digits of a number are spelled, the number is read. -/
theorem hex?_of_respells {t digits : Text} {ds : List Nat} (h : t.Respells digits)
    (hdigits : digits.mapM hexDigit? = some ds) : t.hex? = some (positional 16 ds) := by
  obtain ⟨hne, k, hzeros⟩ := h
  obtain ⟨own, hown, hvalue⟩ :
      ∃ own, t.mapM hexDigit? = some own ∧ positional 16 own = positional 16 ds := by
    rw [← mapM_hexDigit?_toUpper]
    rcases hzeros with hadded | hdropped
    · refine ⟨List.replicate k 0 ++ ds, ?_, positional_zeros 16 k ds⟩
      rw [hadded, mapM_hexDigit?_zeros, hdigits]
      rfl
    · rw [hdropped, mapM_hexDigit?_zeros] at hdigits
      obtain ⟨own, hown, rfl⟩ := Option.map_eq_some_iff.mp hdigits
      exact ⟨own, hown, (positional_zeros 16 k own).symm⟩
  have hplain := plain_of_mapM_hexDigit? hne hown
  rw [hex?, hplain.strip_self, digits?, if_neg (by simpa using hne), hown, Option.map_some, hvalue]

end KeyProfile.Text

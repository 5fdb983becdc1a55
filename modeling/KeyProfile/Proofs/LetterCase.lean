import KeyProfile.Proofs.Spelling
import Mathlib

/-!
The letters of ASCII in either case. A property that is the same for each capital and its lower case
cannot tell the two apart in any text (`apply_toLower`). So it makes no difference to the lower case
of a text if its letters of ASCII are made small before (`lower_map_toLower`), and what has no case
is its own lower case (`lower_of_caseless`).
-/

namespace KeyProfile.Text

/-- What is the same for each capital and its lower case does not see the case of a letter. -/
theorem apply_toLower {β : Type} (f : Char → β)
    (h : ∀ n ∈ List.range' 65 26, f (Char.ofNat n).toLower = f (Char.ofNat n)) (c : Char) :
    f c.toLower = f c := by
  by_cases hupper : 'A'.val ≤ c.val ∧ c.val ≤ 'Z'.val
  · rw [UInt32.le_iff_toNat_le, UInt32.le_iff_toNat_le] at hupper
    have hrange : 65 ≤ c.toNat ∧ c.toNat < 65 + 26 := ⟨hupper.1, Nat.lt_succ_of_le hupper.2⟩
    exact of_codes c hrange h
  · have hsame : c.toLower = c := dif_neg hupper
    rw [hsame]

theorem strip_map_toLower (t : Text) : strip (t.map Char.toLower) = (strip t).map Char.toLower := by
  have hblank : isBlank ∘ Char.toLower = isBlank := funext (apply_toLower isBlank (by decide))
  rw [strip, List.dropWhile_map, hblank, ← List.map_reverse, List.dropWhile_map, hblank,
    ← List.map_reverse]
  rfl

theorem meetsCase_map_toLower (t : Text) : meetsCase (t.map Char.toLower) = meetsCase t := by
  have hignorable : inSpans caseIgnorableSpans ∘ Char.toLower = inSpans caseIgnorableSpans :=
    funext (apply_toLower (inSpans caseIgnorableSpans) (by decide +kernel))
  rw [meetsCase, List.dropWhile_map, hignorable, meetsCase]
  cases t.dropWhile (inSpans caseIgnorableSpans) with
  | nil => rfl
  | cons c rest => exact apply_toLower (inSpans casedSpans) (by decide +kernel) c

theorem lowerAfter_map_toLower (before t : Text) :
    lowerAfter (before.map Char.toLower) (t.map Char.toLower) = lowerAfter before t := by
  induction t generalizing before with
  | nil => rfl
  | cons c rest ih =>
    have hsigma : c.toLower = 'Σ' ↔ c = 'Σ' :=
      decide_eq_decide.mp (apply_toLower (fun c => decide (c = 'Σ')) (by decide) c)
    have hdotted : c.toLower = 'İ' ↔ c = 'İ' :=
      decide_eq_decide.mp (apply_toLower (fun c => decide (c = 'İ')) (by decide) c)
    have hsame : lowerChar c.toLower = lowerChar c := apply_toLower lowerChar (by decide) c
    have hrest := ih (c :: before)
    rw [List.map_cons] at hrest
    simp only [List.map_cons, lowerAfter, hsigma, hdotted, hsame, hrest, meetsCase_map_toLower]

theorem lower_map_toLower (t : Text) : lower (t.map Char.toLower) = lower t :=
  lowerAfter_map_toLower [] t

/-- A character that is its own lower case and no letter of ASCII. -/
structure Caseless (c : Char) : Prop where
  same : lowerChar c = c
  sigma : c ≠ 'Σ'
  dotted : c ≠ 'İ'
  letter : c.isAlpha = false

instance (c : Char) : Decidable (Caseless c) :=
  decidable_of_iff (lowerChar c = c ∧ c ≠ 'Σ' ∧ c ≠ 'İ' ∧ c.isAlpha = false)
    ⟨fun ⟨same, sigma, dotted, letter⟩ => ⟨same, sigma, dotted, letter⟩,
      fun h => ⟨h.same, h.sigma, h.dotted, h.letter⟩⟩

theorem lowerAfter_of_caseless {t : Text} (h : ∀ c ∈ t, Caseless c) (before : Text) :
    lowerAfter before t = t := by
  induction t generalizing before with
  | nil => rfl
  | cons c rest ih =>
    obtain ⟨hc, hrest⟩ := List.forall_mem_cons.mp h
    rw [lowerAfter, if_neg hc.sigma, if_neg hc.dotted, hc.same, ih hrest]

theorem lower_of_caseless {t : Text} (h : ∀ c ∈ t, Caseless c) : lower t = t :=
  lowerAfter_of_caseless h []

theorem toLower_of_not_isAlpha {c : Char} (h : c.isAlpha = false) : c.toLower = c := by
  apply Char.toLower_eq_of_not_isUpper
  intro hupper
  rw [Char.isAlpha, hupper] at h
  cases h

theorem map_toLower_of_no_letter {t : Text} (h : ∀ c ∈ t, c.isAlpha = false) :
    t.map Char.toLower = t := by
  have hsame : ∀ c ∈ t, c.toLower = id c := fun c hc => toLower_of_not_isAlpha (h c hc)
  rw [List.map_congr_left hsame, List.map_id]

/-- Making letters small gives a text without letters only if there were none. -/
theorem map_toLower_eq_iff {t t' : Text} (h : ∀ c ∈ t', c.isAlpha = false) :
    t.map Char.toLower = t' ↔ t = t' := by
  constructor
  · rintro rfl
    refine (map_toLower_of_no_letter fun c hc => ?_).symm
    rw [← Char.isAlpha_toLower_eq_isAlpha]
    exact h c.toLower (List.mem_map_of_mem hc)
  · rintro rfl
    exact map_toLower_of_no_letter h

end KeyProfile.Text

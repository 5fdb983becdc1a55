import KeyProfile.Text.Basic
import KeyProfile.Text.CaseTable

/-!
The lower case of a text. Most characters are mapped one by one; a capital I with a dot becomes two
characters, and a capital sigma that ends a word has a lower case of its own.
-/

namespace KeyProfile.Text

def lowerChar (c : Char) : Char :=
  if c.toNat < 0x80 then c.toLower
  else match caseRuns.findSome? (·.lower? c.toNat) with
    | some code => Char.ofNat code
    | none => c

/-- The nearest character that interrupts a word, if there is one, carries case. -/
def meetsCase (t : Text) : Bool :=
  match t.dropWhile (inSpans caseIgnorableSpans) with
  | [] => false
  | c :: _ => inSpans casedSpans c

/-- The lower case of a text that follows other text, given from its end backwards. -/
def lowerAfter : Text → Text → Text
  | _, [] => []
  | before, c :: rest =>
    if c = 'Σ' then
      (if meetsCase before && !meetsCase rest then 'ς' else 'σ') :: lowerAfter (c :: before) rest
    else if c = 'İ' then 'i' :: '\u0307' :: lowerAfter (c :: before) rest
    else lowerChar c :: lowerAfter (c :: before) rest

def lower (t : Text) : Text := lowerAfter [] t

theorem lowerAfter_ascii (before t : Text) (h : ∀ c ∈ t, c.toNat < 0x80) :
    lowerAfter before t = t.map Char.toLower := by
  induction t generalizing before with
  | nil => rfl
  | cons c rest ih =>
    have hc : c.toNat < 0x80 := h c (by simp)
    have hrest : ∀ d ∈ rest, d.toNat < 0x80 := fun d hd => h d (by simp [hd])
    have sigma : c ≠ 'Σ' := by rintro rfl; exact absurd hc (by decide)
    have dotted : c ≠ 'İ' := by rintro rfl; exact absurd hc (by decide)
    simp [lowerAfter, sigma, dotted, lowerChar, hc, ih _ hrest]

/-- On ASCII text the lower case is taken letter by letter. -/
theorem lower_ascii (t : Text) (h : ∀ c ∈ t, c.toNat < 0x80) : lower t = t.map Char.toLower :=
  lowerAfter_ascii [] t h

end KeyProfile.Text

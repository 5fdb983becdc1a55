import KeyProfile.DriverValue.Decoded
import KeyProfile.Proofs.WordReadings

/-!
Decoded values and what can be asked of a number directly. Of the categories exactly one fits a
number (`Category.Fits.unique`), and a decoded value has this one and the answers to all the other
questions (`reads_classify`). So two numbers are decoded alike if and only if they agree in their
lowest 32 bits and run the same macro, if any. Main statement: `classify_agrees`.
-/

namespace KeyProfile.DriverValue

/-- What makes a number one of a category, in terms of its fields. Whatever does not have a category
of its own counts as a key. -/
def Category.Fits (v limit : Int) : Category → Prop
  | .unused => v ≡ DriverValue.unused [ZMOD 2 ^ 32]
  | .macroCall => macroId? v limit ≠ none
  | .mouse => kind v = .mouse
  | .modifier => kind v = .key ∧ usage v = 0 ∧ data1 v ≠ 0
  | .key => ¬v ≡ DriverValue.unused [ZMOD 2 ^ 32] ∧ macroId? v limit = none ∧ kind v ≠ .mouse ∧
      ¬(kind v = .key ∧ usage v = 0 ∧ data1 v ≠ 0)

/-- The code that a number has in a category: the button or the usage. -/
def Category.codeOf (v : Int) : Category → Int
  | .mouse => data2 v
  | .key => usage v
  | .unused | .macroCall | .modifier => 0

/-- A decoded value says of a number what the fields of the number say. -/
structure Decoded.Reads (d : Decoded) (v limit : Int) : Prop where
  raw : d.raw = v % 2 ^ 32
  modifiers : d.modifiers = DriverValue.modifiers v
  macroId : d.macroId = macroId? v limit
  category : ∀ c, d.category = c ↔ c.Fits v limit
  code : d.code = d.category.codeOf v

section

variable {v limit : Int}

/-- The value of a key that does nothing is of no kind. -/
theorem kind_of_unused (h : v ≡ unused [ZMOD 2 ^ 32]) : kind v = .unassigned := by
  rw [(ReadsAlike.of_modEq h).kind]
  rfl

theorem kind_of_macroId? (h : macroId? v limit ≠ none) : kind v = .macroCall := by
  obtain ⟨id, hid⟩ := Option.ne_none_iff_exists'.mp h
  obtain ⟨hrange, -, hword⟩ := macroId?_eq_some_iff.mp hid
  rw [← kind_word, hword]
  exact IsCall.kind_eq ⟨id, hrange, rfl⟩

/-- The kind of the numbers of a category, if they are of one kind. -/
def Category.kind? : Category → Option Kind
  | .unused => some .unassigned
  | .macroCall => some .macroCall
  | .mouse => some .mouse
  | .modifier => some .key
  | .key => none

theorem Category.Fits.kind_eq {c : Category} (h : c.Fits v limit) {k : Kind}
    (hk : c.kind? = some k) : kind v = k := by
  cases c with
  | unused =>
    cases hk
    exact kind_of_unused h
  | macroCall =>
    cases hk
    exact kind_of_macroId? h
  | mouse =>
    cases hk
    exact h
  | modifier =>
    cases hk
    exact h.1
  | key => cases hk

/-- A number that counts as a key fits no other category. -/
theorem Category.Fits.eq_key {c : Category} (h : c.Fits v limit) (hkey : key.Fits v limit) :
    c = .key := by
  obtain ⟨hused, hstored, hbutton, hmodifier⟩ := hkey
  cases c with
  | unused => exact absurd h hused
  | macroCall => exact absurd hstored h
  | mouse => exact absurd h hbutton
  | modifier => exact absurd h hmodifier
  | key => rfl

/-- No number fits two categories: all but keys differ in their kinds. -/
theorem Category.Fits.unique {c c' : Category} (h : c.Fits v limit) (h' : c'.Fits v limit) :
    c = c' := by
  cases hc : c.kind? with
  | none =>
    cases c <;> cases hc
    exact (h'.eq_key h).symm
  | some k =>
    cases hc' : c'.kind? with
    | none =>
      cases c' <;> cases hc'
      exact h.eq_key h'
    | some k' =>
      obtain rfl : k = k' := (h.kind_eq hc).symm.trans (h'.kind_eq hc')
      cases c <;> cases hc <;> cases c' <;> cases hc' <;> rfl

/-- To read a number is to have a category that fits and the answers to the other questions. -/
theorem Decoded.Reads.of_fits {d : Decoded} (hraw : d.raw = word v)
    (hmodifiers : d.modifiers = DriverValue.modifiers v) (hcalled : d.macroId = macroId? v limit)
    (hfits : d.category.Fits v limit) (hcode : d.code = d.category.codeOf v) : d.Reads v limit where
  raw := hraw
  modifiers := hmodifiers
  macroId := hcalled
  category _ := ⟨fun hc => hc ▸ hfits, hfits.unique⟩
  code := hcode

end

theorem reads_classify (v limit : Int) : (classify v limit).Reads v limit := by
  simp only [classify, macroId?_word, kind_word, usage_word, data1_word, data2_word]
  split
  · next hunused =>
    have hkind := kind_of_unused hunused
    have hcalled : macroId? v limit = none := by
      by_contra hcall
      rw [kind_of_macroId? hcall] at hkind
      cases hkind
    exact .of_fits rfl (by simp [modifiers, hkind]) hcalled.symm hunused rfl
  · next hused =>
    cases hcalled : macroId? v limit with
    | some id =>
      have hcall : macroId? v limit ≠ none := by simp [hcalled]
      have hkind := kind_of_macroId? hcall
      exact .of_fits rfl (by simp [modifiers, hkind]) hcalled.symm hcall rfl
    | none =>
      cases hkind : kind v with
      | mouse => exact .of_fits rfl (by simp [modifiers, hkind]) hcalled.symm hkind rfl
      | key =>
        have hmodifiers : data1 v = modifiers v := by simp [modifiers, hkind]
        dsimp only
        split
        · next hbits => exact .of_fits rfl hmodifiers hcalled.symm ⟨hkind, hbits⟩ rfl
        · next hbits =>
          have hfits : Category.key.Fits v limit := ⟨hused, hcalled, by simp [hkind], by tauto⟩
          exact .of_fits rfl hmodifiers hcalled.symm hfits rfl
      | macroCall | unassigned =>
        have hfits : Category.key.Fits v limit := ⟨hused, hcalled, by simp [hkind], by simp [hkind]⟩
        exact .of_fits rfl (by simp [modifiers, hkind]) hcalled.symm hfits rfl

/-- Nothing else is known of a number than its lowest 32 bits and the macro that it runs. -/
theorem Decoded.Reads.eq {d d' : Decoded} {a b la lb : Int} (h : d.Reads a la) (h' : d'.Reads b lb)
    (hword : a ≡ b [ZMOD 2 ^ 32]) (hcalled : macroId? a la = macroId? b lb) : d = d' := by
  have halike := ReadsAlike.of_modEq hword
  have hfits (c : Category) : c.Fits a la ↔ c.Fits b lb := by
    have hunused : a ≡ unused [ZMOD 2 ^ 32] ↔ b ≡ unused [ZMOD 2 ^ 32] :=
      ⟨hword.symm.trans, hword.trans⟩
    cases c <;>
      simp only [Category.Fits, hunused, hcalled, halike.kind, halike.usage, halike.data1]
  have hcategory : d.category = d'.category :=
    (h.category _).mpr ((hfits _).mpr ((h'.category _).mp rfl))
  have hcode : d.code = d'.code := by
    rw [h.code, h'.code, hcategory]
    cases d'.category <;> simp only [Category.codeOf, halike.data2, halike.usage]
  have hraw : d.raw = d'.raw := by
    rw [h.raw, h'.raw]
    exact hword
  have hmodifiers : d.modifiers = d'.modifiers := by
    rw [h.modifiers, h'.modifiers, halike.modifiers]
  have hid : d.macroId = d'.macroId := by rw [h.macroId, h'.macroId, hcalled]
  cases d
  cases d'
  simp only at hcategory hraw hmodifiers hcode hid
  rw [hcategory, hraw, hmodifiers, hcode, hid]

end DriverValue

open DriverValue

/-- A decoded value agrees with every question that can be asked of the number itself, and has the
category that fits. So two decoded values are equal if and only if their numbers agree in the lowest
32 bits and in the macro that they run below their limits. -/
theorem classify_agrees :
    (∀ v limit, (classify v limit).Reads v limit) ∧
    ∀ a la b lb, classify a la = classify b lb ↔
      a ≡ b [ZMOD 2 ^ 32] ∧ macroId? a la = macroId? b lb := by
  refine ⟨reads_classify, ?_⟩
  intro a la b lb
  have ha := reads_classify a la
  have hb := reads_classify b lb
  constructor
  · intro hequal
    rw [hequal] at ha
    exact ⟨ha.raw.symm.trans hb.raw, ha.macroId.symm.trans hb.macroId⟩
  · rintro ⟨hword, hcalled⟩
    exact ha.eq hb hword hcalled

/-- A macro beyond the limit counts as a key without modifiers. -/
example : classify 0x0A0100C8 100 = { category := .key, raw := 0x0A0100C8 } := by decide

end KeyProfile

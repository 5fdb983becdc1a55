import KeyProfile.GroupHeader
import KeyProfile.Lighting.Effect
import KeyProfile.Proofs.LiberalNumerals

/-!
What texts say of closed choices. The members of each choice are told apart by their spellings in
lower case and by their numbers, and no spelling is a numeral (`Enumerated.Distinct`). So the two
ways of reading a text, by name and by number, never contradict each other, and a text is read as a
member if and only if it means one (`Enumerated.Means`). Main statement: `choice_texts_exact`.
-/

namespace KeyProfile

/-- The choices that files spell. -/
inductive Choice where
  | layer
  | repeatKind
  | keyState
  | actionKind
  | effectKind
  | colorKind
  | groupKind
  | mouseButton
deriving DecidableEq, Repr

/-- What there is to choose from. -/
abbrev Choice.Member : Choice → Type
  | .layer => Layer
  | .repeatKind => RepeatKind
  | .keyState => KeyState
  | .actionKind => ActionKind
  | .effectKind => Lighting.EffectKind
  | .colorKind => Lighting.ColorKind
  | .groupKind => GroupKind
  | .mouseButton => MouseButton

instance : (choice : Choice) → Enumerated choice.Member
  | .layer => inferInstanceAs (Enumerated Layer)
  | .repeatKind => inferInstanceAs (Enumerated RepeatKind)
  | .keyState => inferInstanceAs (Enumerated KeyState)
  | .actionKind => inferInstanceAs (Enumerated ActionKind)
  | .effectKind => inferInstanceAs (Enumerated Lighting.EffectKind)
  | .colorKind => inferInstanceAs (Enumerated Lighting.ColorKind)
  | .groupKind => inferInstanceAs (Enumerated GroupKind)
  | .mouseButton => inferInstanceAs (Enumerated MouseButton)

namespace Enumerated

/-- Members that are told apart: by their numbers, and by spellings that differ in more than case
and are no numerals, having a letter in them. -/
class Distinct (α : Type) [Enumerated α] : Prop where
  mem_members : ∀ m : α, m ∈ members
  /-- A member may also do without a number. -/
  number_inj : ∀ m ∈ members (α := α), ∀ m' ∈ members (α := α),
    number m = number m' → number m = none ∨ m = m'
  nodup_lower : ((spellings (α := α)).map (·.1.lower)).Nodup
  exists_letter : ∀ s ∈ spellings (α := α), s.1.lower.any Char.isAlpha = true

instance (choice : Choice) : Distinct choice.Member where
  mem_members := by cases choice <;> rintro ⟨⟩ <;> decide
  number_inj := by cases choice <;> decide
  nodup_lower := by cases choice <;> decide
  exists_letter := by cases choice <;> decide

variable {α : Type} [Enumerated α]

/-- The text names the member: in lower case and without the blanks around it, it is the name of the
member or another spelling of it in lower case. -/
def Names (t : Text) (m : α) : Prop :=
  t.strip.lower = (name m).lower ∨ ∃ other, (other, m) ∈ aliases ∧ t.strip.lower = other.lower

/-- The text names the member, or it is no name at all but stands for the number of the member. -/
def Means (t : Text) (m : α) : Prop :=
  Names t m ∨ (∀ m' : α, ¬Names t m') ∧ ∃ n, t.StandsFor n ∧ number m = some n

/-- What is found as a name is spelled like the text but for case. -/
theorem exists_spelling {ignoreCase : Bool} {t : Text} {m : α} (h : ofName? ignoreCase t = some m) :
    ∃ s ∈ spellings (α := α), s.1.lower = t.lower ∧ s.2 = m := by
  unfold ofName? at h
  split at h
  · obtain ⟨before, after, hentries, -⟩ := List.lookup_eq_some_iff.mp h
    have hentry : (t.lower, m) ∈ (spellings (α := α)).map fun s => (s.1.lower, s.2) := by
      simp [hentries]
    obtain ⟨s, hs, heq⟩ := List.mem_map.mp hentry
    obtain ⟨hlower, hmember⟩ := Prod.mk.inj heq
    exact ⟨s, hs, hlower, hmember⟩
  · obtain ⟨before, after, hentries, -⟩ := List.lookup_eq_some_iff.mp h
    exact ⟨(t, m), by simp [hentries], rfl, rfl⟩

section Distinct

variable [Distinct α]

/-- No spelling hides another one, since they differ in lower case. -/
theorem ofName?_of_mem {s : Text × α} (hs : s ∈ spellings) {t : Text} (h : s.1.lower = t.lower) :
    ofName? true t = some s.2 := by
  have hnodup : (((spellings (α := α)).map fun s => (s.1.lower, s.2)).map Prod.fst).Nodup := by
    rw [List.map_map]
    exact Distinct.nodup_lower
  rw [ofName?, if_pos rfl, lookup_eq_some_iff_mem hnodup, ← h]
  exact List.mem_map_of_mem hs

theorem ofName?_eq_some_iff {t : Text} {m : α} : ofName? true t.strip = some m ↔ Names t m := by
  constructor
  · intro h
    obtain ⟨s, hs, hlower, rfl⟩ := exists_spelling h
    rcases List.mem_append.mp hs with hname | hother
    · obtain ⟨m, -, rfl⟩ := List.mem_map.mp hname
      exact .inl hlower.symm
    · exact .inr ⟨s.1, hother, hlower.symm⟩
  · rintro (hname | ⟨other, hother, hlower⟩)
    · have hs : (name m, m) ∈ spellings (α := α) :=
        List.mem_append_left _ (List.mem_map_of_mem (Distinct.mem_members m))
      exact ofName?_of_mem hs hname.symm
    · exact ofName?_of_mem (List.mem_append_right _ hother) hlower.symm

theorem ofNumber?_eq_some_iff {n : Int} {m : α} : ofNumber? n = some m ↔ number m = some n := by
  constructor
  · intro h
    simpa using List.find?_some h
  · intro h
    have hsome : (ofNumber? n : Option α).isSome = true :=
      List.find?_isSome.mpr ⟨m, Distinct.mem_members m, by simp [h]⟩
    obtain ⟨m', hfind⟩ := Option.isSome_iff_exists.mp hsome
    have hnumber : number m' = some n := by simpa using List.find?_some hfind
    rcases Distinct.number_inj m' (Distinct.mem_members m') m (Distinct.mem_members m)
      (hnumber.trans h.symm) with hnone | rfl
    · rw [hnone] at hnumber
      cases hnumber
    · exact hfind

/-- A numeral is no name, in whatever case. -/
theorem ofName?_of_standsFor {t : Text} {n : Int} (h : t.StandsFor n) (ignoreCase : Bool) :
    (ofName? ignoreCase t.strip : Option α) = none := by
  rw [Option.eq_none_iff_forall_ne_some]
  intro m hname
  -- the spelling that is found would have its letter from the numeral
  obtain ⟨s, hs, hlower, -⟩ := exists_spelling hname
  obtain ⟨hsame, hletters⟩ := Text.lower_of_standsFor h
  obtain ⟨c, hc, hletter⟩ := List.any_eq_true.mp (Distinct.exists_letter s hs)
  rw [hlower, hsame] at hc
  rw [hletters c hc] at hletter
  cases hletter

theorem ofText?_of_standsFor {t : Text} {n : Int} (h : t.StandsFor n) (ignoreCase : Bool) :
    (ofText? ignoreCase t : Option α) = ofNumber? n := by
  have hread : t.strip.integer? = some n :=
    Text.integer?_eq_some_iff.mpr (Text.standsFor_strip.mpr h)
  rw [ofText?, ofName?_of_standsFor h, Option.none_or, hread, Option.bind_some]

theorem ofText?_eq_some_iff {t : Text} {m : α} : ofText? true t = some m ↔ Means t m := by
  have hnone : (ofName? true t.strip : Option α) = none ↔ ∀ m' : α, ¬Names t m' := by
    simp only [Option.eq_none_iff_forall_ne_some, ne_eq, ofName?_eq_some_iff]
  simp only [ofText?, Means, Option.or_eq_some_iff, ofName?_eq_some_iff, hnone,
    Option.bind_eq_some_iff, Text.integer?_eq_some_iff, Text.standsFor_strip,
    ofNumber?_eq_some_iff]

/-- The case of the letters of ASCII says nothing. -/
theorem ofText?_map_toLower (t : Text) :
    (ofText? true (t.map Char.toLower) : Option α) = ofText? true t := by
  apply Option.ext
  intro m
  simp only [ofText?_eq_some_iff, Means, Names, Text.strip_map_toLower, Text.lower_map_toLower,
    Text.standsFor_map_toLower]

/-- What is found with regard to case is found without. -/
theorem ofText?_of_exact {t : Text} {m : α} (h : ofText? false t = some m) :
    ofText? true t = some m := by
  unfold ofText? at h
  rcases Option.or_eq_some_iff.mp h with hname | ⟨-, hnumber⟩
  · obtain ⟨s, hs, hlower, rfl⟩ := exists_spelling hname
    rw [ofText?, ofName?_of_mem hs hlower, Option.some_or]
  · obtain ⟨n, hread, hmember⟩ := Option.bind_eq_some_iff.mp hnumber
    have hstands := Text.standsFor_strip.mp (Text.integer?_eq_some_iff.mp hread)
    rw [ofText?_of_standsFor hstands, hmember]

end Distinct

end Enumerated

open Enumerated

/-- A text is a member of a choice if and only if it means one: by name in any case, or else by
number; otherwise the default stands. So neither blanks around a text nor the case of its letters
say anything, and numerals of one number are the same member. What is found with regard to case is
also found without. -/
theorem choice_texts_exact (choice : Choice) :
    (∀ (t : Text) (m : choice.Member), ofText? true t = some m ↔ Means t m) ∧
    (∀ (t : Text) (default : Option choice.Member),
      (∀ m, Means t m → (ofText? true t).or default = some m) ∧
      ((∀ m : choice.Member, ¬Means t m) → (ofText? true t).or default = default)) ∧
    (∀ t left right : Text, left.Blank → right.Blank →
      (ofText? true (left ++ t ++ right) : Option choice.Member) = ofText? true t) ∧
    (∀ t t' : Text, t.map Char.toLower = t'.map Char.toLower →
      (ofText? true t : Option choice.Member) = ofText? true t') ∧
    (∀ (t t' : Text) (n : Int), t.StandsFor n → t'.StandsFor n →
      (ofText? true t : Option choice.Member) = ofText? true t') ∧
    ∀ (t : Text) (m : choice.Member), ofText? false t = some m → ofText? true t = some m := by
  refine ⟨fun t m => ofText?_eq_some_iff, fun t default => ⟨?_, ?_⟩, ?_, ?_, ?_, ?_⟩
  · intro m hmeans
    rw [ofText?_eq_some_iff.mpr hmeans, Option.some_or]
  · intro hnone
    have hread : (ofText? true t : Option choice.Member) = none := by
      rw [Option.eq_none_iff_forall_ne_some]
      exact fun m hread => hnone m (ofText?_eq_some_iff.mp hread)
    rw [hread, Option.none_or]
  · intro t left right hleft hright
    rw [← ofText?_strip, Text.strip_padded hleft hright, ofText?_strip]
  · intro t t' hsame
    rw [← ofText?_map_toLower, hsame, ofText?_map_toLower]
  · intro t t' n h h'
    rw [ofText?_of_standsFor h, ofText?_of_standsFor h']
  · exact fun t m => ofText?_of_exact

/-- A further spelling in capitals behind a blank; a number with a sign and an underscore in digits
of another script; a number that no member has; and a name with regard to case. -/
theorem choice_texts_exact_rainbow :
    (ofText? true "\u3000RAINbow".toList : Option Lighting.ColorKind) = some .rgb ∧
      (ofText? true "+\u0660_\u0662".toList : Option Layer) = some .layer1 ∧
      (ofText? true "5".toList).or (some RepeatKind.times) = some .times ∧
      (ofText? true "MACRO".toList : Option GroupKind) = some .macros := by
  obtain ⟨hcolor, -, hblank, hcase, -, -⟩ := choice_texts_exact .colorKind
  obtain ⟨hlayer, -, -, -, hsame, -⟩ := choice_texts_exact .layer
  obtain ⟨hkind, hdefault, -⟩ := choice_texts_exact .repeatKind
  obtain ⟨-, -, -, -, -, hexact⟩ := choice_texts_exact .groupKind
  have hrainbow : Means "rainbow".toList Lighting.ColorKind.rgb :=
    .inl (.inr ⟨"rainbow".toList, by decide, rfl⟩)
  have htwo : Text.StandsFor "2".toList 2 :=
    ⟨⟨.none, ⟨0x30, 2, by decide⟩, []⟩, by decide, by decide, by decide⟩
  have hscript : Text.StandsFor "+\u0660_\u0662".toList 2 :=
    ⟨⟨.plus, ⟨0x660, 0, by decide⟩, [(true, ⟨0x660, 2, by decide⟩)]⟩, by decide, by decide,
      by decide⟩
  have hmeans : Means "2".toList Layer.layer1 := by
    refine .inr ⟨?_, 2, htwo, rfl⟩
    rintro m (hname | ⟨other, hother, -⟩)
    · cases m <;> exact absurd hname (by decide)
    · cases hother
  have hnone : ∀ m : RepeatKind, ¬Means "5".toList m := by
    intro m hmeans
    cases m <;> exact absurd ((hkind _ _).mpr hmeans) (by decide)
  refine ⟨?_, ?_, (hdefault _ _).2 hnone, hexact _ _ (by decide)⟩
  · calc
      ofText? true "\u3000RAINbow".toList = ofText? true "RAINbow".toList :=
        hblank "RAINbow".toList ['\u3000'] [] (by decide) (by decide)
      _ = ofText? true "rainbow".toList := hcase _ _ (by decide)
      _ = some .rgb := (hcolor _ _).mpr hrainbow
  · rw [hsame _ _ 2 hscript htwo]
    exact (hlayer _ _).mpr hmeans

end KeyProfile

import KeyProfile.Proofs.BlankEnds
import Mathlib.Data.List.DropRight

/-!
Blanks around a separator. They are at the end of one field and at the start of the next, so the
parts of a text stay as they are if both fields are there without them (`parts_spaced`). Where blank
fields count for nothing, only the words do, and these stay in any case (`words_spaced`). Blanks
around another character are in the field that it stands in (`exists_field_around`), and blanks
around a comma do not make a call of a text that is none (`isSome_call?_spaced`).
-/

namespace KeyProfile.Text

/-- A text with blanks, or anything else, around one of its characters. -/
def spaced (front left : Text) (c : Char) (right back : Text) : Text :=
  front ++ left ++ c :: (right ++ back)

/-- Something that is not empty comes before a separator behind the text. -/
def EndsField (sep : Char) (t : Text) : Prop := ∃ c, t.getLast? = some c ∧ c ≠ sep

/-- Something that is not empty comes behind a separator in front of the text. -/
def StartsField (sep : Char) (t : Text) : Prop := ∃ c, t.head? = some c ∧ c ≠ sep

/-! Blanks that are left when a text is stripped. -/

theorem dropWhile_append_cons {sep : Char} (hsep : isBlank sep = false) (front back : Text) :
    (front ++ sep :: back).dropWhile isBlank = front.dropWhile isBlank ++ sep :: back := by
  have hstop : (sep :: back).dropWhile isBlank = sep :: back := by simp [hsep]
  rw [List.dropWhile_append, hstop]
  split
  · next hempty => rw [List.isEmpty_iff.mp hempty, List.nil_append]
  · rfl

/-- A character that is no blank keeps the two ends of a text apart. -/
theorem strip_append_cons {sep : Char} (hsep : isBlank sep = false) (front back : Text) :
    strip (front ++ sep :: back) = front.dropWhile isBlank ++ sep :: back.rdropWhile isBlank := by
  have hreverse : (front.dropWhile isBlank ++ sep :: back).reverse =
      back.reverse ++ sep :: (front.dropWhile isBlank).reverse := by
    simp
  rw [strip, dropWhile_append_cons hsep, hreverse, dropWhile_append_cons hsep]
  simp [List.rdropWhile]

theorem exists_dropWhile_append {left : Text} (hleft : left.Blank) (front : Text) :
    ∃ kept : Text, kept.Blank ∧ (front.dropWhile isBlank = [] → kept = []) ∧
      (front ++ left).dropWhile isBlank = front.dropWhile isBlank ++ kept := by
  rw [List.dropWhile_append]
  split
  · next hempty =>
    refine ⟨[], .nil, fun _ => rfl, ?_⟩
    rw [List.isEmpty_iff.mp hempty, List.dropWhile_eq_nil_iff.mpr hleft, List.append_nil]
  · next hfull =>
    refine ⟨left, hleft, fun hempty => ?_, rfl⟩
    rw [hempty] at hfull
    exact absurd rfl hfull

theorem exists_rdropWhile_append {right : Text} (hright : right.Blank) (back : Text) :
    ∃ kept : Text, kept.Blank ∧ (back.rdropWhile isBlank = [] → kept = []) ∧
      (right ++ back).rdropWhile isBlank = kept ++ back.rdropWhile isBlank := by
  have hreverse : Blank right.reverse := fun c hc => hright c (List.mem_reverse.mp hc)
  obtain ⟨kept, hblank, hempty, hdrop⟩ := exists_dropWhile_append hreverse back.reverse
  refine ⟨kept.reverse, fun c hc => hblank c (List.mem_reverse.mp hc), ?_, ?_⟩
  · intro hnil
    rw [hempty (List.reverse_eq_nil_iff.mp hnil), List.reverse_nil]
  · rw [List.rdropWhile, List.reverse_append, hdrop, List.reverse_append]
    rfl

/-- Of the blanks around a character, those stay when the text is stripped that have more than
blanks beyond them. -/
theorem exists_strip_spaced {left right : Text} (hleft : left.Blank) (hright : right.Blank)
    {c : Char} (hc : isBlank c = false) (front back : Text) :
    ∃ before after : Text, before.Blank ∧ after.Blank ∧
      (front.dropWhile isBlank = [] → before = []) ∧ (back.rdropWhile isBlank = [] → after = []) ∧
      strip (spaced front left c right back) =
        spaced (front.dropWhile isBlank) before c after (back.rdropWhile isBlank) := by
  obtain ⟨before, hbefore, hfront, hdrop⟩ := exists_dropWhile_append hleft front
  obtain ⟨after, hafter, hback, hrdrop⟩ := exists_rdropWhile_append hright back
  refine ⟨before, after, hbefore, hafter, hfront, hback, ?_⟩
  rw [spaced, strip_append_cons hc, hdrop, hrdrop]
  rfl

theorem head?_strip_spaced {left right : Text} (hleft : left.Blank) (hright : right.Blank)
    {c : Char} (hc : isBlank c = false) (front back : Text) :
    (strip (spaced front left c right back)).head? = (strip (front ++ c :: back)).head? := by
  obtain ⟨before, after, -, -, hfront, -, hstrip⟩ :=
    exists_strip_spaced hleft hright hc front back
  rw [hstrip, strip_append_cons hc, spaced]
  cases hdrop : front.dropWhile isBlank with
  | nil => simp [hfront hdrop]
  | cons first rest => simp

/-! The fields at the ends of a text. -/

/-- What is put behind a text goes into its last field, which is not empty if the text ends with
one. -/
theorem exists_last_field (sep : Char) (t : Text) :
    ∃ (others : List Text) (field : Text), sep ∉ field ∧ (t.EndsField sep → field ≠ []) ∧
      ∀ rest, fields sep (t ++ rest) = others ++ fields sep (field ++ rest) := by
  by_cases hin : sep ∈ t
  · obtain ⟨front, field, rfl, hfield⟩ := exists_last_of_mem hin
    refine ⟨fields sep front, field, hfield, ?_, fun rest => ?_⟩
    · rintro ⟨last, hlast, hne⟩ rfl
      rw [List.getLast?_concat, Option.some_inj] at hlast
      exact hne hlast.symm
    · rw [List.append_assoc, List.cons_append, fields_append_cons]
  · refine ⟨[], t, hin, ?_, fun rest => rfl⟩
    rintro ⟨last, hlast, -⟩ rfl
    cases hlast

/-- What is put in front of a text goes into its first field. -/
theorem exists_first_field (sep : Char) (t : Text) :
    ∃ (field : Text) (others : List Text), sep ∉ field ∧ (t.StartsField sep → field ≠ []) ∧
      ∀ rest, fields sep (rest ++ t) = fields sep (rest ++ field) ++ others := by
  by_cases hin : sep ∈ t
  · obtain ⟨field, back, rfl, hfield⟩ := List.eq_append_cons_of_mem hin
    refine ⟨field, fields sep back, hfield, ?_, fun rest => ?_⟩
    · rintro ⟨first, hfirst, hne⟩ rfl
      rw [List.nil_append, List.head?_cons, Option.some_inj] at hfirst
      exact hne hfirst.symm
    · rw [← List.append_assoc, fields_append_cons]
  · refine ⟨t, [], hin, ?_, fun rest => (List.append_nil _).symm⟩
    rintro ⟨first, hfirst, -⟩ rfl
    cases hfirst

/-- The field in which a character stands takes up what is put around the character; the others
stay. The character is in the last field of the text up to it. -/
theorem exists_field_around {sep c : Char} (hc : c ≠ sep) (front back : Text) :
    ∃ (others more : List Text) (start rest : Text),
      fields sep (front ++ [c]) = others ++ [start ++ [c]] ∧
      ∀ left right, sep ∉ left → sep ∉ right →
        fields sep (spaced front left c right back) =
          others ++ spaced start left c right rest :: more := by
  obtain ⟨others, start, hstart, -, hfront⟩ := exists_last_field sep front
  obtain ⟨rest, more, hrest, -, hback⟩ := exists_first_field sep back
  have hne : sep ≠ c := hc.symm
  refine ⟨others, more, start, rest, ?_, ?_⟩
  · rw [hfront, fields_of_notMem (by simp) (by simp [hstart, hne])]
  · intro left right hleft hright
    have hsplit : spaced front left c right back = front ++ (left ++ c :: right ++ back) := by
      simp [spaced]
    have hfield : start ++ (left ++ c :: right) ++ rest = spaced start left c right rest := by
      simp [spaced]
    have hown : sep ∉ spaced start left c right rest := by
      simp [spaced, hstart, hleft, hright, hrest, hne]
    rw [hsplit, hfront, ← List.append_assoc, hback, hfield,
      fields_of_notMem (by simp [spaced]) hown, List.singleton_append]

/-! Parts, where blank fields count. -/

section Parts

variable {sep : Char} (hsep : isBlank sep = false)

include hsep

theorem parts_append_blank_of_endsField {t right : Text} (hright : right.Blank)
    (h : t.EndsField sep) : parts sep (t ++ right) = parts sep t := by
  obtain ⟨others, field, hfree, hfull, hfields⟩ := exists_last_field sep t
  have hsplit (rest : Text) :
      parts sep (t ++ rest) = others.map strip ++ parts sep (field ++ rest) := by
    rw [parts, hfields, List.map_append]
    rfl
  have hwhole : sep ∉ field ++ right := by simp [hfree, hright.notMem hsep]
  have hend := hsplit []
  rw [List.append_nil, List.append_nil] at hend
  rw [hsplit, hend, parts_of_notMem (by simp [hfull h]) hwhole, parts_of_notMem (hfull h) hfree,
    strip_append_blank hright]

theorem parts_blank_append_of_startsField {left t : Text} (hleft : left.Blank)
    (h : t.StartsField sep) : parts sep (left ++ t) = parts sep t := by
  obtain ⟨field, others, hfree, hfull, hfields⟩ := exists_first_field sep t
  have hsplit (rest : Text) :
      parts sep (rest ++ t) = parts sep (rest ++ field) ++ others.map strip := by
    rw [parts, hfields, List.map_append]
    rfl
  have hwhole : sep ∉ left ++ field := by simp [hfree, hleft.notMem hsep]
  have hstart := hsplit []
  rw [List.nil_append, List.nil_append] at hstart
  rw [hsplit, hstart, parts_of_notMem (by simp [hfull h]) hwhole, parts_of_notMem (hfull h) hfree,
    strip_blank_append hleft]

/-- Blanks around a separator between fields that are not empty. -/
theorem parts_spaced {front left right back : Text} (hleft : left.Blank) (hright : right.Blank)
    (hfront : front.EndsField sep) (hback : back.StartsField sep) :
    parts sep (spaced front left sep right back) = parts sep (front ++ sep :: back) := by
  rw [spaced, parts_append_cons, parts_append_cons,
    parts_append_blank_of_endsField hsep hleft hfront,
    parts_blank_append_of_startsField hsep hright hback]

/-- The same, the blanks at the ends of the text being dropped first. -/
theorem parts_strip_spaced {front left right back : Text} (hleft : left.Blank)
    (hright : right.Blank) (hfront : front.EndsField sep) (hback : back.StartsField sep) :
    parts sep (strip (spaced front left sep right back)) =
      parts sep (strip (front ++ sep :: back)) := by
  obtain ⟨before, after, hbefore, hafter, hnoFront, hnoBack, hstrip⟩ :=
    exists_strip_spaced hleft hright hsep front back
  have hends : parts sep (front.dropWhile isBlank ++ before) =
      parts sep (front.dropWhile isBlank) := by
    by_cases hempty : front.dropWhile isBlank = []
    · rw [hnoFront hempty, List.append_nil]
    · obtain ⟨last, hlast, hne⟩ := hfront
      obtain ⟨dropped, hdropped⟩ := List.dropWhile_suffix isBlank (l := front)
      rw [← hdropped, List.getLast?_append_of_ne_nil _ hempty] at hlast
      exact parts_append_blank_of_endsField hsep hbefore ⟨last, hlast, hne⟩
  have hstarts : parts sep (after ++ back.rdropWhile isBlank) =
      parts sep (back.rdropWhile isBlank) := by
    by_cases hempty : back.rdropWhile isBlank = []
    · rw [hnoBack hempty, List.nil_append]
    · obtain ⟨first, hfirst, hne⟩ := hback
      obtain ⟨dropped, hdropped⟩ := List.rdropWhile_prefix isBlank back
      rw [← hdropped, List.head?_append_of_ne_nil _ hempty] at hfirst
      exact parts_blank_append_of_startsField hsep hafter ⟨first, hfirst, hne⟩
  rw [hstrip, strip_append_cons hsep, spaced, parts_append_cons, parts_append_cons, hends, hstarts]

end Parts

/-! Words, where blank fields do not count. -/

/-- The parts of a text that are not blank. -/
def words (sep : Char) (t : Text) : List Text := (parts sep t).filter (!·.isEmpty)

section Words

variable {sep : Char}

theorem words_append_cons (front back : Text) :
    words sep (front ++ sep :: back) = words sep front ++ words sep back := by
  rw [words, parts_append_cons, List.filter_append]
  rfl

theorem words_of_notMem {t : Text} (h : sep ∉ t) :
    words sep t = [strip t].filter (!·.isEmpty) := by
  by_cases hempty : t = []
  · subst hempty
    rfl
  · rw [words, parts_of_notMem hempty h]

/-- Steps that pass over blank texts, and do not look at blanks around others, can be made along the
words just as well as along the fields. -/
theorem foldlM_words {m : Type → Type} [Monad m] [LawfulMonad m] {β : Type} {step : β → Text → m β}
    (hstrip : ∀ b t, step b (strip t) = step b t) (hblank : ∀ b, step b [] = pure b) (b : β)
    (t : Text) : (words sep t).foldlM step b = (fields sep t).foldlM step b := by
  unfold words parts
  induction fields sep t generalizing b with
  | nil => rfl
  | cons field rest ih =>
    rw [List.map_cons, List.foldlM_cons]
    cases hempty : field.strip.isEmpty with
    | true =>
      have hskip : step b field = pure b := by
        rw [← hstrip, List.isEmpty_iff.mp hempty, hblank]
      rw [List.filter_cons_of_neg (by simp [hempty]), hskip, pure_bind, ih]
    | false =>
      rw [List.filter_cons_of_pos (by simp [hempty]), List.foldlM_cons, hstrip]
      congr 1
      exact funext fun b => ih b

theorem filterMap_words {β : Type} {f : Text → Option β} (hstrip : ∀ t, f (strip t) = f t)
    (hblank : f [] = none) (t : Text) : (words sep t).filterMap f = (fields sep t).filterMap f := by
  unfold words parts
  rw [List.filterMap_filter, List.filterMap_map]
  congr 1
  funext field
  cases hempty : field.strip.isEmpty with
  | true =>
    have hnone : f field = none := by rw [← hstrip, List.isEmpty_iff.mp hempty, hblank]
    simp only [Function.comp_apply, hempty, hnone, Bool.not_true, Bool.false_eq_true, if_false]
  | false => simp only [Function.comp_apply, hempty, hstrip, Bool.not_false, if_true]

variable (hsep : isBlank sep = false)

include hsep

theorem words_append_blank {right : Text} (hright : right.Blank) (t : Text) :
    words sep (t ++ right) = words sep t := by
  obtain ⟨others, field, hfree, -, hfields⟩ := exists_last_field sep t
  have hsplit (rest : Text) : words sep (t ++ rest) =
      (others.map strip).filter (!·.isEmpty) ++ words sep (field ++ rest) := by
    rw [words, parts, hfields, List.map_append, List.filter_append]
    rfl
  have hwhole : sep ∉ field ++ right := by simp [hfree, hright.notMem hsep]
  have hend := hsplit []
  rw [List.append_nil, List.append_nil] at hend
  rw [hsplit, hend, words_of_notMem hwhole, words_of_notMem hfree, strip_append_blank hright]

theorem words_blank_append {left : Text} (hleft : left.Blank) (t : Text) :
    words sep (left ++ t) = words sep t := by
  obtain ⟨field, others, hfree, -, hfields⟩ := exists_first_field sep t
  have hsplit (rest : Text) : words sep (rest ++ t) =
      words sep (rest ++ field) ++ (others.map strip).filter (!·.isEmpty) := by
    rw [words, parts, hfields, List.map_append, List.filter_append]
    rfl
  have hwhole : sep ∉ left ++ field := by simp [hfree, hleft.notMem hsep]
  have hstart := hsplit []
  rw [List.nil_append, List.nil_append] at hstart
  rw [hsplit, hstart, words_of_notMem hwhole, words_of_notMem hfree, strip_blank_append hleft]

theorem words_strip (t : Text) : words sep (strip t) = words sep t := by
  obtain ⟨left, right, hleft, hright, hsplit⟩ := exists_strip t
  calc
    words sep (strip t) = words sep (left ++ strip t ++ right) := by
      rw [words_append_blank hsep hright, words_blank_append hsep hleft]
    _ = words sep t := by rw [← hsplit]

theorem words_spaced {left right : Text} (hleft : left.Blank) (hright : right.Blank)
    (front back : Text) :
    words sep (spaced front left sep right back) = words sep (front ++ sep :: back) := by
  rw [spaced, words_append_cons, words_append_cons, words_append_blank hsep hleft,
    words_blank_append hsep hright]

end Words

/-! Calls. -/

def isParenthesis (c : Char) : Bool := c == '(' || c == ')'

theorem Blank.find?_isParenthesis {t : Text} (h : t.Blank) : t.find? isParenthesis = none := by
  rw [List.find?_eq_none]
  intro c hc hparenthesis
  rcases Bool.or_eq_true _ _ ▸ hparenthesis with hopen | hclose
  · exact h.notMem (by decide) (beq_iff_eq.mp hopen ▸ hc)
  · exact h.notMem (by decide) (beq_iff_eq.mp hclose ▸ hc)

/-- A text calls something if the first parenthesis opens, something is before it, and another one
closes. -/
theorem isSome_call?_iff (t : Text) :
    t.call?.isSome = true ↔
      t.head? ≠ some '(' ∧ t.find? isParenthesis = some '(' ∧ ')' ∈ t := by
  constructor
  · intro hsome
    obtain ⟨⟨name, inner⟩, hcall⟩ := Option.isSome_iff_exists.mp hsome
    obtain ⟨tail, rfl, hne, hopen, hclose, -⟩ := call?_eq_some_iff.mp hcall
    refine ⟨?_, ?_, by simp⟩
    · rw [List.head?_append_of_ne_nil _ hne]
      intro hhead
      exact hopen (List.mem_of_mem_head? hhead)
    · rw [List.find?_append, List.find?_eq_none.mpr]
      · rfl
      · intro c hc hparenthesis
        rcases Bool.or_eq_true _ _ ▸ hparenthesis with hfirst | hsecond
        · exact hopen (beq_iff_eq.mp hfirst ▸ hc)
        · exact hclose (beq_iff_eq.mp hsecond ▸ hc)
  · rintro ⟨hhead, hfind, hmem⟩
    obtain ⟨-, name, rest, rfl, hname⟩ := List.find?_eq_some_iff_append.mp hfind
    have hfree : '(' ∉ name ∧ ')' ∉ name := by
      refine ⟨fun hin => ?_, fun hin => ?_⟩
      · exact absurd (hname _ hin) (by decide)
      · exact absurd (hname _ hin) (by decide)
    have hrest : ')' ∈ rest := by simpa [hfree.2] using hmem
    obtain ⟨inner, tail, rfl, hinner⟩ := List.eq_append_cons_of_mem hrest
    have hne : name ≠ [] := by
      rintro rfl
      exact hhead rfl
    exact Option.isSome_iff_exists.mpr ⟨(name, inner),
      call?_eq_some_iff.mpr ⟨tail, rfl, hne, hfree.1, hfree.2, hinner⟩⟩

/-- Blanks around another character neither make a call nor unmake one. -/
theorem isSome_call?_spaced {left right : Text} (hleft : left.Blank) (hright : right.Blank)
    {c : Char} (hc : isBlank c = false) (front back : Text) :
    (strip (spaced front left c right back)).call?.isSome =
      (strip (front ++ c :: back)).call?.isSome := by
  have hhead := head?_strip_spaced hleft hright hc front back
  obtain ⟨before, after, hbefore, hafter, -, -, hstrip⟩ :=
    exists_strip_spaced hleft hright hc front back
  have hclose {t : Text} (ht : t.Blank) : ')' ∉ t := ht.notMem (by decide)
  rw [Bool.eq_iff_iff, isSome_call?_iff, isSome_call?_iff, hhead, hstrip, strip_append_cons hc,
    spaced]
  simp only [List.find?_append, List.find?_cons, hbefore.find?_isParenthesis,
    hafter.find?_isParenthesis, List.mem_append,
    List.mem_cons, hclose hbefore, hclose hafter, Option.or_none, Option.none_or, or_false,
    false_or]

end KeyProfile.Text

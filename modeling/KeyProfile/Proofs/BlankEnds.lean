import KeyProfile.Proofs.TextCuts

/-!
Blanks at the ends of a text. Stripping takes away blanks and nothing else (`exists_strip`), so
what is added at the ends does not show (`strip_padded`). The parts of a text are its fields, each
of them stripped. Blanks at the ends of the text are in the first and in the last field, so it makes
no difference to the parts if the text is stripped before, as long as no field is blank
(`parts_strip`).
-/

namespace KeyProfile.Text

/-- Blanks, or nothing at all. -/
def Blank (t : Text) : Prop := ∀ c ∈ t, isBlank c = true

instance (t : Text) : Decidable t.Blank := List.decidableBAll (isBlank · = true) t

theorem Blank.nil : Blank [] := nofun

theorem Blank.notMem {t : Text} (h : t.Blank) {c : Char} (hc : isBlank c = false) : c ∉ t := by
  intro hin
  rw [h c hin] at hc
  cases hc

theorem strip_blank_append {left : Text} (h : left.Blank) (t : Text) :
    strip (left ++ t) = strip t := by
  unfold strip
  rw [List.dropWhile_append_of_pos h]

theorem strip_append_blank {right : Text} (h : right.Blank) (t : Text) :
    strip (t ++ right) = strip t := by
  have hreverse : ∀ c ∈ right.reverse, isBlank c = true := fun c hc => h c (List.mem_reverse.mp hc)
  unfold strip
  rw [List.dropWhile_append]
  split
  · next hempty =>
    -- then the text is blank throughout
    rw [List.isEmpty_iff.mp hempty, List.dropWhile_eq_nil_iff.mpr h]
  · rw [List.reverse_append, List.dropWhile_append_of_pos hreverse]

theorem strip_padded {left right : Text} (hleft : left.Blank) (hright : right.Blank) (t : Text) :
    strip (left ++ t ++ right) = strip t := by
  rw [strip_append_blank hright, strip_blank_append hleft]

/-- A text is what is left of it between blanks. -/
theorem exists_strip (t : Text) :
    ∃ left right : Text, left.Blank ∧ right.Blank ∧ t = left ++ strip t ++ right := by
  have htail : t.dropWhile isBlank =
      strip t ++ ((t.dropWhile isBlank).reverse.takeWhile isBlank).reverse := by
    rw [strip, ← List.reverse_append, List.takeWhile_append_dropWhile, List.reverse_reverse]
  refine ⟨t.takeWhile isBlank, ((t.dropWhile isBlank).reverse.takeWhile isBlank).reverse,
    ?_, ?_, ?_⟩
  · exact fun c hc => List.mem_takeWhile_imp hc
  · exact fun c hc => List.mem_takeWhile_imp (List.mem_reverse.mp hc)
  · rw [List.append_assoc, ← htail, List.takeWhile_append_dropWhile]

/-- A text that stripping leaves as it is does not start with a blank. -/
theorem not_isBlank_of_strip {t : Text} (h : strip t = t) : ∀ c ∈ t.head?, isBlank c = false := by
  intro c hc
  obtain ⟨rest, rfl⟩ := List.head?_eq_some_iff.mp (Option.mem_def.mp hc)
  by_contra hblank
  have hfirst : Blank [c] := by simpa [Blank] using hblank
  have hdropped : strip (c :: rest) = strip rest := strip_blank_append hfirst rest
  obtain ⟨left, right, -, -, hsplit⟩ := exists_strip rest
  have hlength := congrArg List.length hsplit
  rw [← hdropped, h] at hlength
  simp only [List.length_append, List.length_cons] at hlength
  omega

/-- The last of a kind of character splits a text, too. -/
theorem exists_last_of_mem {c : Char} {t : Text} (h : c ∈ t) :
    ∃ front back, t = front ++ c :: back ∧ c ∉ back := by
  obtain ⟨back, front, hsplit, hback⟩ := List.eq_append_cons_of_mem (List.mem_reverse.mpr h)
  refine ⟨front.reverse, back.reverse, ?_, by simpa using hback⟩
  rw [← List.reverse_reverse t, hsplit]
  simp

/-! Fields between separators. -/

/-- The fields of a text, each without the blanks at its ends. -/
def parts (sep : Char) (t : Text) : List Text := (fields sep t).map strip

section Parts

variable {sep : Char}

theorem parts_append_cons (front back : Text) :
    parts sep (front ++ sep :: back) = parts sep front ++ parts sep back := by
  rw [parts, fields_append_cons, List.map_append]
  rfl

theorem parts_of_notMem {t : Text} (hne : t ≠ []) (h : sep ∉ t) : parts sep t = [strip t] := by
  rw [parts, fields_of_notMem hne h]
  rfl

variable (hsep : isBlank sep = false)

include hsep

/-- Without a separator there is one field, if any. -/
theorem parts_padded_of_notMem {left t right : Text} (hleft : left.Blank) (hright : right.Blank)
    (ht : sep ∉ t) (h : [] ∉ parts sep (left ++ t ++ right)) :
    parts sep (left ++ t ++ right) = parts sep t := by
  by_cases hempty : left ++ t ++ right = []
  · have hnil : t = [] := by simp_all
    rw [hempty, hnil]
  · have hwhole : sep ∉ left ++ t ++ right := by
      simp [hleft.notMem hsep, hright.notMem hsep, ht]
    rw [parts_of_notMem hempty hwhole, strip_padded hleft hright] at h ⊢
    have hne : t ≠ [] := by
      rintro rfl
      exact h List.mem_cons_self
    rw [parts_of_notMem hne ht]

theorem parts_blank_append {left t : Text} (hleft : left.Blank)
    (h : [] ∉ parts sep (left ++ t)) : parts sep (left ++ t) = parts sep t := by
  by_cases hin : sep ∈ t
  · obtain ⟨front, back, rfl, hfront⟩ := List.eq_append_cons_of_mem hin
    have hsplit : parts sep (left ++ (front ++ sep :: back)) =
        parts sep (left ++ front ++ []) ++ parts sep back := by
      rw [List.append_nil, ← List.append_assoc, parts_append_cons]
    rw [hsplit] at h ⊢
    rw [parts_padded_of_notMem hsep hleft .nil hfront (fun hmem => h (List.mem_append_left _ hmem)),
      parts_append_cons]
  · have hpadded := parts_padded_of_notMem hsep hleft .nil hin
    rw [List.append_nil] at hpadded
    exact hpadded h

theorem parts_append_blank {t right : Text} (hright : right.Blank)
    (h : [] ∉ parts sep (t ++ right)) : parts sep (t ++ right) = parts sep t := by
  by_cases hin : sep ∈ t
  · obtain ⟨front, back, rfl, hback⟩ := exists_last_of_mem hin
    have hsplit : parts sep (front ++ sep :: back ++ right) =
        parts sep front ++ parts sep ([] ++ back ++ right) := by
      rw [List.append_assoc, List.cons_append, parts_append_cons, List.nil_append]
    rw [hsplit] at h ⊢
    rw [parts_padded_of_notMem hsep .nil hright hback
      (fun hmem => h (List.mem_append_right _ hmem)), parts_append_cons]
  · exact parts_padded_of_notMem hsep .nil hright hin h

/-- If no field is blank, stripping a text before it is cut makes no difference. -/
theorem parts_strip {t : Text} (h : [] ∉ parts sep t) : parts sep t.strip = parts sep t := by
  obtain ⟨left, right, hleft, hright, hsplit⟩ := exists_strip t
  rw [hsplit] at h
  have hlast := parts_append_blank hsep hright h
  rw [hlast] at h
  calc
    parts sep t.strip = parts sep (left ++ t.strip) := (parts_blank_append hsep hleft h).symm
    _ = parts sep (left ++ t.strip ++ right) := hlast.symm
    _ = parts sep t := by rw [← hsplit]

end Parts

end KeyProfile.Text

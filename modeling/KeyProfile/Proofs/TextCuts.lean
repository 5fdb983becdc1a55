import KeyProfile.Text.Basic
import Mathlib.Data.List.TakeWhile

/-!
What cutting a text gives. The first of a kind of character splits a text in one way only
(`cutAt?_eq_some_iff`, `call?_eq_some_iff`), a field has no separator in it (`mem_fields`), and
pieces without separators come back from the text that they were joined into (`fields_join`).
Stripping and cutting into fields add no characters.
-/

namespace KeyProfile.Text

theorem cutAt?_append {c : Char} {front : Text} (h : c ∉ front) (back : Text) :
    cutAt? c (front ++ c :: back) = some (front, back) := by
  have hfront : ∀ d ∈ front, (d != c) = true := by
    intro d hd
    have hne : d ≠ c := fun e => h (e ▸ hd)
    simpa using hne
  unfold cutAt?
  rw [List.dropWhile_append_of_pos hfront, List.takeWhile_append_of_pos hfront]
  simp

theorem cutAt?_eq_some_iff {c : Char} {t front back : Text} :
    t.cutAt? c = some (front, back) ↔ t = front ++ c :: back ∧ c ∉ front := by
  constructor
  · intro hcut
    unfold cutAt? at hcut
    cases hdrop : t.dropWhile (· != c) with
    | nil => simp [hdrop] at hcut
    | cons d rest =>
      simp only [hdrop, Option.some_inj, Prod.mk.injEq] at hcut
      obtain ⟨rfl, rfl⟩ := hcut
      obtain rfl : d = c := by
        have hfirst := List.head?_dropWhile_not (· != c) t
        simpa [hdrop] using hfirst
      refine ⟨?_, ?_⟩
      · rw [← hdrop, List.takeWhile_append_dropWhile]
      · intro hc
        simpa using List.mem_takeWhile_imp hc
  · rintro ⟨rfl, hfront⟩
    exact cutAt?_append hfront back

/-- Something, an opening parenthesis, and the first closing one behind it. -/
theorem call?_eq_some_iff {t front inner : Text} :
    t.call? = some (front, inner) ↔
      ∃ back, t = front ++ '(' :: (inner ++ ')' :: back) ∧ front ≠ [] ∧ '(' ∉ front ∧
        ')' ∉ front ∧ ')' ∉ inner := by
  unfold call?
  simp only [Option.bind_eq_bind, Option.bind_eq_some_iff, Prod.exists, cutAt?_eq_some_iff]
  constructor
  · rintro ⟨head, tail, ⟨rfl, hopen⟩, middle, back, ⟨rfl, hclose⟩, hcall⟩
    split at hcall
    · cases hcall
    · next hfront =>
      cases hcall
      simp only [Bool.or_eq_true, List.isEmpty_iff, List.contains_iff_mem, not_or] at hfront
      exact ⟨back, rfl, hfront.1, hopen, hfront.2, hclose⟩
  · rintro ⟨back, rfl, hne, hopen, hfront, hclose⟩
    exact ⟨front, _, ⟨rfl, hopen⟩, inner, back, ⟨rfl, hclose⟩, by simp [hne, hfront]⟩

theorem call?_of_notMem {t : Text} (h : '(' ∉ t ∨ ')' ∉ t) : t.call? = none := by
  rw [Option.eq_none_iff_forall_ne_some]
  rintro ⟨front, inner⟩ hcall
  obtain ⟨back, rfl, -⟩ := call?_eq_some_iff.mp hcall
  simp at h

/-- A text that starts with no blank and ends with none, the last character being known. -/
theorem strip_concat {front : Text} {last : Char}
    (hhead : ∀ c ∈ (front ++ [last]).head?, isBlank c = false) (hlast : isBlank last = false) :
    strip (front ++ [last]) = front ++ [last] := by
  apply strip_eq_self hhead
  intro c hc
  rw [List.getLast?_concat] at hc
  cases hc
  exact hlast

theorem mem_of_mem_strip {t : Text} {c : Char} (h : c ∈ strip t) : c ∈ t := by
  unfold strip at h
  have hlast := (List.dropWhile_sublist isBlank).subset (List.mem_reverse.mp h)
  exact (List.dropWhile_sublist isBlank).subset (List.mem_reverse.mp hlast)

/-- No piece has the separator in it, and all that is in a piece was there before. -/
theorem mem_splitFrom {sep : Char} {t piece : Text} (h : piece ∈ splitFrom [sep] 0 t) :
    sep ∉ piece ∧ ∀ c ∈ piece, c ∈ t := by
  induction t generalizing piece with
  | nil =>
    obtain rfl : piece = [] := by simpa [splitFrom] using h
    simp
  | cons first rest ih =>
    by_cases hsep : sep = first
    · subst hsep
      simp only [splitFrom, List.isPrefixOf, beq_self_eq_true, Bool.and_self, if_true,
        List.length_singleton, Nat.sub_self, List.mem_cons] at h
      rcases h with rfl | hrest
      · simp
      · obtain ⟨hfree, hsub⟩ := ih hrest
        exact ⟨hfree, fun c hc => List.mem_cons_of_mem _ (hsub c hc)⟩
    · cases hs : splitFrom [sep] 0 rest with
      | nil => exact absurd hs (splitFrom_ne_nil [sep] 0 rest)
      | cons head tail =>
        simp only [splitFrom, List.isPrefixOf, beq_iff_eq, hsep, Bool.and_true, if_false, hs,
          List.mem_cons] at h
        rcases h with rfl | htail
        · obtain ⟨hfree, hsub⟩ := ih (hs ▸ List.mem_cons_self)
          refine ⟨?_, ?_⟩
          · simp [hsep, hfree]
          · intro c hc
            rcases List.mem_cons.mp hc with rfl | hin
            · exact List.mem_cons_self
            · exact List.mem_cons_of_mem _ (hsub c hin)
        · obtain ⟨hfree, hsub⟩ := ih (hs ▸ List.mem_cons_of_mem _ htail)
          exact ⟨hfree, fun c hc => List.mem_cons_of_mem _ (hsub c hc)⟩

theorem mem_fields {sep : Char} {t piece : Text} (h : piece ∈ fields sep t) :
    piece ≠ [] ∧ sep ∉ piece ∧ ∀ c ∈ piece, c ∈ t := by
  obtain ⟨hin, hfull⟩ := List.mem_filter.mp h
  exact ⟨by simpa using hfull, mem_splitFrom hin⟩

/-- Pieces that are joined with separators come back, except for the empty ones. -/
theorem fields_join {sep : Char} {pieces : List Text} (h : ∀ piece ∈ pieces, sep ∉ piece) :
    fields sep ([sep].intercalate pieces) = pieces.filter (!·.isEmpty) := by
  induction pieces with
  | nil => simp [fields, split, splitFrom]
  | cons piece pieces ih =>
    obtain ⟨hfirst, hrest⟩ := List.forall_mem_cons.mp h
    have hown : fields sep piece = [piece].filter (!·.isEmpty) := by
      rw [fields, split, splitFrom_of_notMem hfirst]
    cases pieces with
    | nil => simpa using hown
    | cons second others =>
      rw [List.intercalate_cons_cons, List.append_assoc, List.singleton_append, fields_append_cons,
        ih hrest, hown, ← List.filter_append, List.singleton_append]

/-- What is in joined pieces is the separator or comes from a piece. -/
theorem mem_join {sep c : Char} {pieces : List Text} (h : c ∈ [sep].intercalate pieces) :
    c = sep ∨ ∃ piece ∈ pieces, c ∈ piece := by
  induction pieces with
  | nil => simp at h
  | cons piece pieces ih =>
    cases pieces with
    | nil => exact .inr ⟨piece, by simp, by simpa using h⟩
    | cons second others =>
      simp only [List.intercalate_cons_cons, List.mem_append, List.mem_singleton] at h
      rcases h with (hown | hsep) | hrest
      · exact .inr ⟨piece, by simp, hown⟩
      · exact .inl hsep
      · rcases ih hrest with hsep | ⟨other, hother, hin⟩
        · exact .inl hsep
        · exact .inr ⟨other, List.mem_cons_of_mem _ hother, hin⟩

end KeyProfile.Text

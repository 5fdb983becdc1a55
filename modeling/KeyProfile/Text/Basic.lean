/-!
Text as a list of characters, and the ways in which the library cuts it: at a character, at every
occurrence of a separator, and by its blank ends. Splitting keeps everything but the separators,
so the pieces joined again give the text back, and the fields of a text are those before any of its
separators together with those after it.
-/

namespace KeyProfile

abbrev Text := List Char

namespace Text

/-- Membership in a table of code point spans, ends included. -/
def inSpans (spans : List (Nat × Nat)) (c : Char) : Bool :=
  spans.any fun span => span.1 ≤ c.toNat && c.toNat ≤ span.2

/-- The white space of Unicode together with the four information separators of ASCII. -/
def blankSpans : List (Nat × Nat) :=
  [(0x9, 0xD), (0x1C, 0x20), (0x85, 0x85), (0xA0, 0xA0), (0x1680, 0x1680), (0x2000, 0x200A),
   (0x2028, 0x2029), (0x202F, 0x202F), (0x205F, 0x205F), (0x3000, 0x3000)]

def isBlank (c : Char) : Bool := inSpans blankSpans c

/-- The text without the blanks at either end. -/
def strip (t : Text) : Text :=
  ((t.dropWhile isBlank).reverse.dropWhile isBlank).reverse

def startsWith (t head : Text) : Bool := head.isPrefixOf t

/-- The text before the first `c` and the text after it, if `c` occurs. -/
def cutAt? (c : Char) (t : Text) : Option (Text × Text) :=
  match t.dropWhile (· != c) with
  | [] => none
  | _ :: rest => some (t.takeWhile (· != c), rest)

/-- The text before and the text between the first opening parenthesis and the first closing one,
if both occur in this order and something stands before them. -/
def call? (t : Text) : Option (Text × Text) := do
  let (head, tail) ← t.cutAt? '('
  let (inner, _) ← Text.cutAt? ')' tail
  if head.isEmpty || head.contains ')' then none else some (head, inner)

/-- The pieces between the occurrences of a non-empty separator, found from left to right. The
number says how many characters of the last one found are still to be passed over. -/
def splitFrom (sep : Text) : Nat → Text → List Text
  | _, [] => [[]]
  | skip + 1, _ :: rest => splitFrom sep skip rest
  | 0, c :: rest =>
    if sep.isPrefixOf (c :: rest) then [] :: splitFrom sep (sep.length - 1) rest
    else
      match splitFrom sep 0 rest with
      | [] => [[c]]
      | piece :: pieces => (c :: piece) :: pieces

def split (sep t : Text) : List Text := splitFrom sep 0 t

/-- The non-empty pieces of a text between the occurrences of one character. -/
def fields (sep : Char) (t : Text) : List Text :=
  (split [sep] t).filter (!·.isEmpty)

theorem splitFrom_ne_nil (sep : Text) (skip : Nat) (t : Text) : splitFrom sep skip t ≠ [] := by
  fun_induction splitFrom sep skip t <;> simp_all

theorem splitFrom_of_notMem {sep : Char} {t : Text} (h : sep ∉ t) :
    splitFrom [sep] 0 t = [t] := by
  induction t with
  | nil => rfl
  | cons c rest ih =>
    have ⟨hc, hrest⟩ : sep ≠ c ∧ sep ∉ rest := by simpa using h
    simp [splitFrom, List.isPrefixOf, hc, ih hrest]

theorem splitFrom_append_cons (sep : Char) (front back : Text) :
    splitFrom [sep] 0 (front ++ sep :: back) =
      splitFrom [sep] 0 front ++ splitFrom [sep] 0 back := by
  induction front with
  | nil => simp [splitFrom, List.isPrefixOf]
  | cons c rest ih =>
    by_cases hc : sep = c
    · subst hc
      simp [splitFrom, List.isPrefixOf, ih]
    · cases hs : splitFrom [sep] 0 rest with
      | nil => exact absurd hs (splitFrom_ne_nil [sep] 0 rest)
      | cons piece pieces => simp [splitFrom, List.isPrefixOf, hc, ih, hs]

/-- A text with a separator in it has the fields before and the fields after it. -/
theorem fields_append_cons (sep : Char) (front back : Text) :
    fields sep (front ++ sep :: back) = fields sep front ++ fields sep back := by
  simp [fields, split, splitFrom_append_cons]

/-- A non-empty text without a separator is one field. -/
theorem fields_of_notMem {sep : Char} {t : Text} (hne : t ≠ []) (h : sep ∉ t) :
    fields sep t = [t] := by
  simp [fields, split, splitFrom_of_notMem h, hne]

/-- A text between blank-free ends is its own strip. -/
theorem strip_eq_self {t : Text} (head : ∀ c ∈ t.head?, isBlank c = false)
    (last : ∀ c ∈ t.getLast?, isBlank c = false) : strip t = t := by
  have first : t.dropWhile isBlank = t := by
    cases t with
    | nil => rfl
    | cons c rest => simp [List.dropWhile, head c (by simp)]
  have final : t.reverse.dropWhile isBlank = t.reverse := by
    cases h : t.reverse with
    | nil => rfl
    | cons c rest =>
      have : t.getLast? = some c := by rw [← List.head?_reverse, h]; rfl
      simp [List.dropWhile, last c (by simp [this])]
  rw [strip, first, final, List.reverse_reverse]

/-- Stripping twice does no more than stripping once. -/
theorem strip_strip (t : Text) : strip (strip t) = strip t := by
  have hfirst : ∀ c ∈ (t.dropWhile isBlank).head?, isBlank c = false := by
    intro c hc
    have h := List.head?_dropWhile_not isBlank t
    rw [hc] at h
    exact h
  have hlast : ∀ c ∈ (strip t).getLast?, isBlank c = false := by
    intro c hc
    have h := List.head?_dropWhile_not isBlank (t.dropWhile isBlank).reverse
    rw [strip, List.getLast?_reverse] at hc
    rw [hc] at h
    exact h
  apply strip_eq_self ?_ hlast
  intro c hc
  -- a text without its blank end begins as before
  obtain ⟨rest, hrest⟩ : strip t <+: t.dropWhile isBlank := by
    rw [← List.reverse_suffix, strip, List.reverse_reverse]
    exact List.dropWhile_suffix isBlank
  apply hfirst
  rw [← hrest, List.head?_append, Option.mem_def.mp hc]
  rfl

end Text

end KeyProfile

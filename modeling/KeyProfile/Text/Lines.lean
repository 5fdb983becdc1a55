import KeyProfile.Text.Basic

/-!
Lines. A file may end its lines with LF, CR or CR LF; `unifyLineEnds` makes LF of all three. Text is
then cut into lines at LF and at the other characters that Unicode calls line or paragraph ends,
information separators among them. A line end closes a line, so the text after the last one is a
line only if there is any.
-/

namespace KeyProfile.Text

/-- The text with every CR LF and every CR made a LF. -/
def unifyLineEnds : Text → Text
  | [] => []
  | '\r' :: '\n' :: rest => '\n' :: unifyLineEnds rest
  | c :: rest => (if c = '\r' then '\n' else c) :: unifyLineEnds rest

def lineEndSpans : List (Nat × Nat) :=
  [(0xA, 0xD), (0x1C, 0x1E), (0x85, 0x85), (0x2028, 0x2029)]

def isLineEnd (c : Char) : Bool := inSpans lineEndSpans c

/-- The lines of a text; CR LF counts as one end. -/
def lines : Text → List Text
  | [] => []
  | '\r' :: '\n' :: rest => [] :: lines rest
  | c :: rest =>
    if isLineEnd c then [] :: lines rest
    else
      match lines rest with
      | [] => [[c]]
      | line :: others => (c :: line) :: others

end KeyProfile.Text

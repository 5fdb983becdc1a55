import KeyProfile.Proofs.BlankEnds
import KeyProfile.Proofs.HeaderText
import Mathlib.Data.List.ReduceOption

/-!
Headers with blanks. An entry may stand between blanks, entries of a list of names may be left
empty, and a line may go on behind its header. None of this shows in what is read
(`headers_read_back`): the blanks at the ends of a header belong to its first and last entry
(`Text.parts_strip`), and what is behind the closing bracket is not read
(`ofLine?_headerOf_append`).
-/

namespace KeyProfile.GroupHeader

/-- A text as it is written in a header: it has blanks around it, but not at its own ends, and none
of some characters in it. -/
structure Entry (marks : List Char) where
  before : Text
  text : Text
  after : Text
  blank_before : before.Blank
  blank_after : after.Blank
  nonempty : text ≠ []
  stripped : text.strip = text
  free : ∀ c ∈ marks, c ∉ text

namespace Entry

variable {marks : List Char}

def written (e : Entry marks) : Text := e.before ++ e.text ++ e.after

/-- An entry, or nothing where it is left empty. -/
def writtenOrEmpty : Option (Entry marks) → Text
  | some e => e.written
  | none => []

section

variable (e : Entry marks)

theorem strip_written : e.written.strip = e.text := by
  rw [written, Text.strip_padded e.blank_before e.blank_after, e.stripped]

theorem notMem_written {c : Char} (hc : c ∈ marks) (hshown : Text.isBlank c = false) :
    c ∉ e.written := by
  have hbefore := e.blank_before.notMem hshown
  have hafter := e.blank_after.notMem hshown
  simp [written, hbefore, hafter, e.free c hc]

/-- An entry without the blanks in front of it. -/
def unindented : Text := e.text ++ e.after

theorem strip_unindented : e.unindented.strip = e.text := by
  rw [unindented, Text.strip_append_blank e.blank_after, e.stripped]

theorem unindented_ne_nil : e.unindented ≠ [] := by simp [unindented, e.nonempty]

theorem head?_unindented : ∀ c ∈ e.unindented.head?, Text.isBlank c = false := by
  intro c hc
  rw [unindented, List.head?_append_of_ne_nil _ e.nonempty] at hc
  exact Text.not_isBlank_of_strip e.stripped c hc

/-- What is written behind an entry keeps the blanks between. -/
theorem strip_written_append (tail : Text) {last : Char} (hlast : Text.isBlank last = false) :
    (e.written ++ (tail ++ [last])).strip = e.unindented ++ (tail ++ [last]) := by
  have hfront : e.written ++ (tail ++ [last]) =
      e.before ++ ((e.unindented ++ tail) ++ [last]) := by
    simp [written, unindented]
  rw [hfront, Text.strip_blank_append e.blank_before, Text.strip_concat _ hlast, List.append_assoc]
  intro c hc
  rw [List.append_assoc, List.head?_append_of_ne_nil _ e.unindented_ne_nil] at hc
  exact e.head?_unindented c hc

end

/-- Entries in a row. -/
def list (entries : List (Option (Entry marks))) : Text :=
  [','].intercalate (entries.map writtenOrEmpty)

theorem notMem_list (entries : List (Option (Entry marks))) {c : Char} (hc : c ∈ marks)
    (hshown : Text.isBlank c = false) (hcomma : c ≠ ',') : c ∉ list entries := by
  intro hin
  rcases Text.mem_join hin with hsep | ⟨piece, hpiece, hmem⟩
  · exact hcomma hsep
  · obtain ⟨entry, -, rfl⟩ := List.mem_map.mp hpiece
    cases entry with
    | none => cases hmem
    | some e => exact e.notMem_written hc hshown hmem

/-- The entries that are not left empty are read. -/
theorem parts_list (hcomma : ',' ∈ marks) (entries : List (Option (Entry marks))) :
    Text.parts ',' (list entries) = entries.reduceOption.map text := by
  have hshown : Text.isBlank ',' = false := by decide
  have hfree : ∀ piece ∈ entries.map writtenOrEmpty, ',' ∉ piece := by
    intro piece hpiece
    obtain ⟨entry, -, rfl⟩ := List.mem_map.mp hpiece
    cases entry with
    | none => exact List.not_mem_nil
    | some e => exact e.notMem_written hcomma hshown
  rw [Text.parts, list, Text.fields_join hfree]
  clear hfree
  induction entries with
  | nil => rfl
  | cons entry entries ih =>
    cases entry with
    | none => simpa [writtenOrEmpty] using ih
    | some e =>
      have hne : e.written ≠ [] := by simp [written, e.nonempty]
      simpa [writtenOrEmpty, hne, e.strip_written] using ih

end Entry

/-- Nothing behind the closing bracket is read. -/
theorem ofLine?_headerOf_append {body : Text} (hend : ']' ∉ body) (rest : Text) :
    ofLine? (headerOf body ++ rest) = ofLine? (headerOf body) := by
  have hfront : ']' ∉ '[' :: body := by simpa using hend
  have hline : headerOf body ++ rest = '[' :: body ++ ']' :: rest := by simp [headerOf]
  unfold ofLine?
  rw [hline, headerOf, Text.cutAt?_append hfront, Text.cutAt?_append hfront]
  rfl

/-- Blanks inside the brackets are not read. -/
theorem ofLine?_headerOf_strip {body : Text} (hne : body.strip ≠ []) (hend : ']' ∉ body) :
    ofLine? (headerOf body) = ofLine? (headerOf body.strip) := by
  have hfull : body ≠ [] := by
    rintro rfl
    exact hne rfl
  have hstripped : ']' ∉ body.strip := fun hin => hend (Text.mem_of_mem_strip hin)
  rw [ofLine?_headerOf_body hfull hend, ofLine?_headerOf_body hne hstripped, Text.strip_strip]

/-- The marks of a header are no blanks. -/
theorem not_isBlank_of_mark {c : Char} (hc : c ∈ [',', '(', ')', ']']) :
    Text.isBlank c = false := by
  simp only [List.mem_cons, List.not_mem_nil, or_false] at hc
  rcases hc with rfl | rfl | rfl | rfl <;> decide

/-- A call between brackets. -/
def called (kind : Entry ['(', ')', ']']) (arguments : List (Entry [',', ')', ']'])) : Text :=
  headerOf (kind.written ++ '(' :: (Entry.list (arguments.map some) ++ [')']))

/-- Names between brackets, with empty entries among them. -/
def listed (entries : List (Option (Entry [',', '(', ')', ']']))) : Text :=
  headerOf (Entry.list entries)

theorem ofLine?_called (kind : Entry ['(', ')', ']']) (arguments : List (Entry [',', ')', ']']))
    (rest : Text) :
    ofLine? (called kind arguments ++ rest) =
      some ⟨[kind.text], some (arguments.map Entry.text)⟩ := by
  set inner := Entry.list (arguments.map some) with hinner
  have hinnerFree : ∀ c ∈ [')', ']'], c ∉ inner := by
    intro c hc
    have hmark : c ∈ [',', ')', ']'] := List.mem_cons_of_mem _ hc
    have hcomma : c ≠ ',' := by
      rintro rfl
      simp at hc
    refine Entry.notMem_list _ hmark (not_isBlank_of_mark ?_) hcomma
    exact List.mem_cons_of_mem _ (List.mem_cons_of_mem _ hc)
  have hkindFree : ∀ c ∈ ['(', ')', ']'], c ∉ kind.written := fun c hc =>
    kind.notMem_written hc (not_isBlank_of_mark (List.mem_cons_of_mem _ hc))
  have hnameFree : ∀ c ∈ ['(', ')', ']'], c ∉ kind.unindented := by
    intro c hc hin
    apply hkindFree c hc
    rw [Entry.written, List.append_assoc]
    exact List.mem_append_right _ hin
  have hend : ']' ∉ kind.written ++ '(' :: (inner ++ [')']) := by
    simp [hkindFree ']' (by decide), hinnerFree ']' (by decide)]
  have hstrip : (kind.written ++ '(' :: (inner ++ [')'])).strip =
      kind.unindented ++ '(' :: (inner ++ [')']) :=
    kind.strip_written_append ('(' :: inner) (by decide)
  have hentries : entries inner = arguments.map Entry.text := by
    have hfull : (arguments.map some).reduceOption = arguments := by
      rw [List.reduceOption, List.filterMap_map]
      exact List.filterMap_some
    have hparts := Entry.parts_list (by decide) (arguments.map some)
    rwa [hfull] at hparts
  rw [called, ofLine?_headerOf_append hend, ofLine?_headerOf_strip (by simp [hstrip]) hend, hstrip,
    ofLine?_headerOf_call kind.head?_unindented kind.unindented_ne_nil hnameFree hinnerFree,
    kind.strip_unindented, hentries]

theorem ofLine?_listed {entries : List (Option (Entry [',', '(', ')', ']']))}
    (hne : entries.reduceOption ≠ []) (rest : Text) :
    ofLine? (listed entries ++ rest) = some ⟨entries.reduceOption.map Entry.text, none⟩ := by
  set body := Entry.list entries with hbody
  have hparts : Text.parts ',' body = entries.reduceOption.map Entry.text :=
    Entry.parts_list (by decide) entries
  have hfull : body ≠ [] := by
    intro hempty
    rw [hempty] at hparts
    exact hne (List.map_eq_nil_iff.mp hparts.symm)
  have hend : ']' ∉ body := Entry.notMem_list _ (by decide) (by decide) (by decide)
  have hopen : '(' ∉ body.strip := fun hin =>
    Entry.notMem_list _ (by decide) (by decide) (by decide) (Text.mem_of_mem_strip hin)
  have hshown : [] ∉ Text.parts ',' body := by
    rw [hparts, List.mem_map]
    rintro ⟨e, -, hempty⟩
    exact e.nonempty hempty
  have hentries : GroupHeader.entries body.strip = entries.reduceOption.map Entry.text :=
    (Text.parts_strip (by decide) hshown).trans hparts
  rw [listed, ← hbody, ofLine?_headerOf_append hend, ofLine?_headerOf_body hfull hend,
    Text.call?_of_notMem (.inl hopen), hentries]

end GroupHeader

open GroupHeader

/-- Headers are read back as they were written, whatever blanks are around their entries and
whatever is behind the closing bracket. A call gives its name and its arguments, if any; names in a
row, where some entries may be empty, give these names. -/
theorem headers_read_back :
    (∀ (kind : Entry ['(', ')', ']']) (arguments : List (Entry [',', ')', ']'])) (rest : Text),
      ofLine? (called kind arguments ++ rest) =
        some ⟨[kind.text], some (arguments.map Entry.text)⟩) ∧
    ∀ (names : List (Entry [',', '(', ')', ']'])) (entries : List (Option (Entry _))) (rest : Text),
      names ≠ [] → entries.reduceOption = names →
      ofLine? (listed entries ++ rest) = some ⟨names.map Entry.text, none⟩ := by
  refine ⟨ofLine?_called, ?_⟩
  rintro names entries rest hne rfl
  exact ofLine?_listed hne rest

/-- Brackets and parentheses inside arguments, a name with a blank in it, and blanks of other
scripts. -/
theorem headers_read_back_blanks :
    ofLine? "[\tMacro ( a(1 ,\u3000[20)] # ]".toList =
        some ⟨["Macro".toList], some ["a(1".toList, "[20".toList]⟩ ∧
      ofLine? "[,\u00A0Base ,,Fn Layer2,])".toList =
        some ⟨["Base".toList, "Fn Layer2".toList], none⟩ := by
  obtain ⟨hcalled, hlisted⟩ := headers_read_back
  have hcall := hcalled
    ⟨"\t".toList, "Macro".toList, " ".toList, by decide, by decide, by decide, by decide, by simp⟩
    [⟨" ".toList, "a(1".toList, " ".toList, by decide, by decide, by decide, by decide, by simp⟩,
      ⟨"\u3000".toList, "[20".toList, [], by decide, by decide, by decide, by decide, by simp⟩]
    " # ]".toList
  let base : Entry [',', '(', ')', ']'] := ⟨"\u00A0".toList, "Base".toList, " ".toList,
    by decide, by decide, by decide, by decide, by simp⟩
  let layer : Entry [',', '(', ')', ']'] := ⟨[], "Fn Layer2".toList, [],
    by decide, by decide, by decide, by decide, by simp⟩
  have hnames := hlisted [base, layer] [none, some base, none, some layer, none] ")".toList
    (by simp) rfl
  exact ⟨hcall, hnames⟩

end KeyProfile

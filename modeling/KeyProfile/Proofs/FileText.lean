import KeyProfile.Text.Lines
import KeyProfile.Text.Utf8
import Mathlib.Data.UInt
import Mathlib.Tactic.SplitIfs

/-!
The text of a file. Octets that encode a text are read as that text (`ofUtf8Lenient_of_encodes`),
whether or not a byte order mark stands before them. How its lines end does not matter: making all
ends alike keeps the lines (`lines_unifyLineEnds`), and exchanging some for others keeps those that
are not empty (`Exchanged.fullLines_eq`).
-/

namespace KeyProfile.Text

/-! Octets. -/

/-- The first octet of a sequence begins it. -/
theorem utf8UnitsFrom_lead {lead least greatest : UInt8} {missing : Nat}
    (h : continuation? lead = some (least, greatest, missing)) (rest : Octets) :
    utf8UnitsFrom .between (lead :: rest) =
      utf8UnitsFrom (.within least greatest missing (leadBits lead missing)) rest := by
  have hlead : ¬lead < 0x80 := by
    intro hascii
    have hnone : lead < 0xC2 := UInt8.lt_trans hascii (by decide)
    rw [continuation?, if_pos hnone] at h
    cases h
  simp [utf8UnitsFrom, utf8Step, utf8Begin, hlead, h]

/-- An octet in the middle of a sequence. -/
theorem utf8UnitsFrom_middle {least greatest octet : UInt8}
    (h : least ≤ octet ∧ octet ≤ greatest) (missing code : Nat) (rest : Octets) :
    utf8UnitsFrom (.within least greatest (missing + 2) code) (octet :: rest) =
      utf8UnitsFrom (.within 0x80 0xBF (missing + 1) (code * 64 + (octet.toNat - 0x80))) rest := by
  simp [utf8UnitsFrom, utf8Step, h]

/-- The last octet of a sequence completes it. -/
theorem utf8UnitsFrom_last {least greatest octet : UInt8}
    (h : least ≤ octet ∧ octet ≤ greatest) (code : Nat) (rest : Octets) :
    utf8UnitsFrom (.within least greatest 1 code) (octet :: rest) =
      some (Char.ofNat (code * 64 + (octet.toNat - 0x80))) :: utf8UnitsFrom .between rest := by
  simp [utf8UnitsFrom, utf8Step, h]

/-- Which octets may come second, and how many come after the first. -/
theorem continuation?_spec (lead second : Nat) (hlead : 0xC2 ≤ lead ∧ lead ≤ 0xF4)
    (hsecond : 0x80 ≤ second ∧ second ≤ 0xBF)
    (hshort : (lead = 0xE0 → 0xA0 ≤ second) ∧ (lead = 0xF0 → 0x90 ≤ second))
    (hscalar : (lead = 0xED → second ≤ 0x9F) ∧ (lead = 0xF4 → second ≤ 0x8F)) :
    ∃ least greatest : UInt8,
      continuation? (.ofNat lead) =
          some (least, greatest, if lead < 0xE0 then 1 else if lead < 0xF0 then 2 else 3) ∧
        least ≤ .ofNat second ∧ .ofNat second ≤ greatest := by
  unfold continuation?
  simp only [UInt8.lt_iff_toNat_lt, UInt8.le_iff_toNat_le, ← UInt8.toNat_inj, UInt8.toNat_ofNat',
    UInt8.reduceToNat]
  -- a row of the table either does not apply to the first octet, or has the second in its range
  split_ifs
  all_goals first
    | omega
    | exact ⟨_, _, rfl, by simp; omega⟩

/-- An octet with six bits of a code point may follow others. -/
theorem tail_bounds (v : Nat) :
    (0x80 : UInt8) ≤ .ofNat (v % 64 + 128) ∧ .ofNat (v % 64 + 128) ≤ (0xBF : UInt8) := by
  simp only [UInt8.le_iff_toNat_le, UInt8.toNat_ofNat', UInt8.reduceToNat]
  omega

theorem tail_bits (v : Nat) : (UInt8.ofNat (v % 64 + 128)).toNat - 0x80 = v % 64 := by
  rw [UInt8.toNat_ofNat']
  omega

/-! Code points of each length. -/

theorem utf8UnitsFrom_one {v : Nat} (h : v ≤ 0x7F) (rest : Octets) :
    utf8UnitsFrom .between (.ofNat v :: rest) =
      some (Char.ofNat v) :: utf8UnitsFrom .between rest := by
  have hbits : (UInt8.ofNat v).toNat = v := by
    rw [UInt8.toNat_ofNat']
    omega
  have hascii : UInt8.ofNat v < 0x80 := by
    rw [UInt8.lt_iff_toNat_lt, hbits]
    exact Nat.lt_succ_of_le h
  simp only [utf8UnitsFrom, utf8Step, utf8Begin, if_pos hascii, hbits]
  rfl

theorem utf8UnitsFrom_two {v : Nat} (hleast : 0x80 ≤ v) (hgreatest : v ≤ 0x7FF) (rest : Octets) :
    utf8UnitsFrom .between (.ofNat (v / 64 % 32 + 192) :: .ofNat (v % 64 + 128) :: rest) =
      some (Char.ofNat v) :: utf8UnitsFrom .between rest := by
  obtain ⟨least, greatest, hlead, hsecond⟩ :=
    continuation?_spec (v / 64 % 32 + 192) (v % 64 + 128)
      (by omega) (by omega) (by omega) (by omega)
  rw [if_pos (by omega)] at hlead
  have hbits : leadBits (.ofNat (v / 64 % 32 + 192)) 1 = v / 64 := by
    have hfirst (lead : UInt8) : leadBits lead 1 = lead.toNat - 0xC0 := rfl
    rw [hfirst, UInt8.toNat_ofNat']
    omega
  rw [utf8UnitsFrom_lead hlead, utf8UnitsFrom_last hsecond, hbits, tail_bits v, Nat.div_add_mod']

theorem utf8UnitsFrom_three {v : Nat} (hleast : 0x800 ≤ v) (hgreatest : v ≤ 0xFFFF)
    (hscalar : v < 0xD800 ∨ 0xDFFF < v) (rest : Octets) :
    utf8UnitsFrom .between (.ofNat (v / 4096 % 16 + 224) :: .ofNat (v / 64 % 64 + 128) ::
        .ofNat (v % 64 + 128) :: rest) =
      some (Char.ofNat v) :: utf8UnitsFrom .between rest := by
  obtain ⟨least, greatest, hlead, hsecond⟩ :=
    continuation?_spec (v / 4096 % 16 + 224) (v / 64 % 64 + 128)
      (by omega) (by omega) (by omega) (by omega)
  rw [if_neg (by omega), if_pos (by omega)] at hlead
  have hbits : leadBits (.ofNat (v / 4096 % 16 + 224)) 2 = v / 4096 := by
    have hfirst (lead : UInt8) : leadBits lead 2 = lead.toNat - 0xE0 := rfl
    rw [hfirst, UInt8.toNat_ofNat']
    omega
  have hcode : (v / 4096 * 64 + v / 64 % 64) * 64 + v % 64 = v := by omega
  rw [utf8UnitsFrom_lead hlead, utf8UnitsFrom_middle hsecond, utf8UnitsFrom_last (tail_bounds v),
    hbits, tail_bits v, tail_bits (v / 64), hcode]

theorem utf8UnitsFrom_four {v : Nat} (hleast : 0x10000 ≤ v) (hgreatest : v < 0x110000)
    (rest : Octets) :
    utf8UnitsFrom .between (.ofNat (v / 262144 % 8 + 240) :: .ofNat (v / 4096 % 64 + 128) ::
        .ofNat (v / 64 % 64 + 128) :: .ofNat (v % 64 + 128) :: rest) =
      some (Char.ofNat v) :: utf8UnitsFrom .between rest := by
  obtain ⟨least, greatest, hlead, hsecond⟩ :=
    continuation?_spec (v / 262144 % 8 + 240) (v / 4096 % 64 + 128)
      (by omega) (by omega) (by omega) (by omega)
  rw [if_neg (by omega), if_neg (by omega)] at hlead
  have hbits : leadBits (.ofNat (v / 262144 % 8 + 240)) 3 = v / 262144 := by
    have hfirst (lead : UInt8) : leadBits lead 3 = lead.toNat - 0xF0 := rfl
    rw [hfirst, UInt8.toNat_ofNat']
    omega
  have hcode : ((v / 262144 * 64 + v / 4096 % 64) * 64 + v / 64 % 64) * 64 + v % 64 = v := by omega
  rw [utf8UnitsFrom_lead hlead, utf8UnitsFrom_middle hsecond,
    utf8UnitsFrom_middle (tail_bounds (v / 64)), utf8UnitsFrom_last (tail_bounds v), hbits,
    tail_bits v, tail_bits (v / 64), tail_bits (v / 4096), hcode]

/-- The octets of a character are read as that character, whatever follows. -/
theorem utf8UnitsFrom_encode (c : Char) (rest : Octets) :
    utf8UnitsFrom .between (String.utf8EncodeChar c ++ rest) =
      some c :: utf8UnitsFrom .between rest := by
  have hvalid : c.val.toNat < 0xD800 ∨ (0xDFFF < c.val.toNat ∧ c.val.toNat < 0x110000) := c.valid
  rw [← congrArg some (Char.ofNat_toNat c)]
  unfold String.utf8EncodeChar
  change utf8UnitsFrom .between ((if c.val.toNat ≤ 127 then _ else _) ++ rest) = _
  split_ifs with hone htwo hthree
  · exact utf8UnitsFrom_one hone rest
  · exact utf8UnitsFrom_two (v := c.val.toNat) (by omega) htwo rest
  · exact utf8UnitsFrom_three (v := c.val.toNat) (by omega) hthree (by omega) rest
  · exact utf8UnitsFrom_four (v := c.val.toNat) (by omega) (by omega) rest

/-- The octets of a text are read as that text. -/
theorem utf8Units_toUtf8 (t : Text) : utf8Units (toUtf8 t) = t.map some := by
  unfold utf8Units toUtf8
  induction t with
  | nil => rfl
  | cons c rest ih => rw [List.flatMap_cons, utf8UnitsFrom_encode, ih, List.map_cons]

/-- What a file may contain that holds a text: the octets of the text after a byte order mark, or
those alone unless the text's own beginning would be taken for the mark. -/
inductive Encodes (t : Text) : Octets → Prop
  | marked : Encodes t (byteOrderMark ++ toUtf8 t)
  | plain (h : t.head? ≠ some '\uFEFF') : Encodes t (toUtf8 t)

theorem dropByteOrderMark_marked (octets : Octets) :
    dropByteOrderMark (byteOrderMark ++ octets) = octets := by
  cases octets <;> simp [dropByteOrderMark, byteOrderMark]

/-- The octets of a text do not end within the mark, for they would then be ill formed. -/
theorem toUtf8_of_prefix_mark {t : Text} (h : toUtf8 t <+: byteOrderMark) :
    t = [] ∨ t.head? = some '\uFEFF' := by
  have hparts : toUtf8 t ∈ [[], [0xEF], [0xEF, 0xBB], byteOrderMark] := (List.mem_inits ..).mpr h
  have hunits := utf8Units_toUtf8 t
  simp only [List.mem_cons, List.not_mem_nil, or_false] at hparts
  rcases hparts with hnone | hone | htwo | hwhole
  · left
    rw [hnone] at hunits
    exact List.map_eq_nil_iff.mp hunits.symm
  · rw [hone] at hunits
    cases t <;> cases hunits
  · rw [htwo] at hunits
    cases t <;> cases hunits
  · right
    rw [hwhole] at hunits
    cases t with
    | nil => cases hunits
    | cons c others => exact congrArg some (Option.some_inj.mp (List.head_eq_of_cons_eq hunits)).symm

/-- Octets that begin with the mark are read as a text that begins with it. -/
theorem head?_of_part_of_mark {t : Text} (h : byteOrderMark <+: toUtf8 t) :
    t.head? = some '\uFEFF' := by
  obtain ⟨rest, hrest⟩ := h
  have hunits := utf8UnitsFrom_encode '\uFEFF' rest
  have hmarked : toUtf8 t = String.utf8EncodeChar '\uFEFF' ++ rest := hrest.symm
  rw [← hmarked] at hunits
  have hread : t.map some = some '\uFEFF' :: utf8UnitsFrom .between rest :=
    (utf8Units_toUtf8 t).symm.trans hunits
  cases t with
  | nil => simp at hread
  | cons c others => simpa using List.head_eq_of_cons_eq hread

theorem dropByteOrderMark_plain {t : Text} (h : t.head? ≠ some '\uFEFF') :
    dropByteOrderMark (toUtf8 t) = toUtf8 t := by
  unfold dropByteOrderMark
  split
  · next hwithin =>
    rcases toUtf8_of_prefix_mark (List.isPrefixOf_iff_prefix.mp hwithin) with rfl | hmarked
    · rfl
    · exact absurd hmarked h
  · exact if_neg fun hmark => h (head?_of_part_of_mark (List.isPrefixOf_iff_prefix.mp hmark))

theorem ofUtf8Lenient_of_encodes {t : Text} {octets : Octets} (h : Encodes t octets) :
    ofUtf8Lenient octets = t := by
  have hdrop : dropByteOrderMark octets = toUtf8 t := by
    cases h with
    | marked => exact dropByteOrderMark_marked _
    | plain hplain => exact dropByteOrderMark_plain hplain
  rw [ofUtf8Lenient, hdrop, utf8Units_toUtf8, List.map_map]
  exact List.map_id t

/-! Lines. -/

theorem lines_of_end {c : Char} {rest : Text} (hend : isLineEnd c = true)
    (halone : ∀ others, c = '\r' → rest = '\n' :: others → False) :
    lines (c :: rest) = [] :: lines rest := by
  rw [lines, if_pos hend]
  exact halone

theorem lines_of_not_end {c : Char} (hc : isLineEnd c = false) (rest : Text) :
    lines (c :: rest) = (c :: (lines rest).headD []) :: (lines rest).tail := by
  have hcr : ∀ others, c = '\r' → rest = '\n' :: others → False := by
    rintro others rfl -
    exact absurd hc (by decide)
  rw [lines, if_neg (by simp [hc])]
  · cases lines rest <;> rfl
  · exact hcr

/-- Making all line ends alike keeps the lines. -/
theorem lines_unifyLineEnds (t : Text) : t.unifyLineEnds.lines = t.lines := by
  fun_induction unifyLineEnds t with
  | case1 => rfl
  | case2 rest ih =>
    rw [lines_of_end (by decide) (by simp), ih, lines]
  | case3 c rest halone ih =>
    cases hend : isLineEnd c with
    | false =>
      have hcr : c ≠ '\r' := by
        rintro rfl
        exact absurd hend (by decide)
      rw [if_neg hcr, lines_of_not_end hend, lines_of_not_end hend, ih]
    | true =>
      rw [lines_of_end hend halone, ← ih]
      split
      · exact lines_of_end (by decide) (by simp)
      · next hcr => exact lines_of_end hend fun others hc => absurd hc hcr

/-- The lines that are not empty. -/
def fullLines (t : Text) : List Text := t.lines.filter (!·.isEmpty)

/-- Every character that ends a line made a LF. -/
def endAsLf (c : Char) : Char := if isLineEnd c then '\n' else c

theorem split_sep (sep : Char) (t : Text) : split [sep] (sep :: t) = [] :: split [sep] t := by
  simp [split, splitFrom, List.isPrefixOf]

theorem split_cons {sep c : Char} (h : sep ≠ c) (t : Text) :
    split [sep] (c :: t) = (c :: (split [sep] t).headD []) :: (split [sep] t).tail := by
  unfold split
  cases hrest : splitFrom [sep] 0 t with
  | nil => exact absurd hrest (splitFrom_ne_nil [sep] 0 t)
  | cons piece pieces => simp [splitFrom, List.isPrefixOf, h, hrest]

/-- Pieces of which the first are the same, and the others as far as they are not empty. -/
def SameFull (pieces others : List Text) : Prop :=
  pieces.headD [] = others.headD [] ∧
    pieces.tail.filter (!·.isEmpty) = others.tail.filter (!·.isEmpty)

theorem SameFull.filter_eq {pieces others : List Text} (h : SameFull pieces others) :
    pieces.filter (!·.isEmpty) = others.filter (!·.isEmpty) := by
  have hwhole (l : List Text) :
      (l.headD [] :: l.tail).filter (!·.isEmpty) = l.filter (!·.isEmpty) := by
    cases l <;> rfl
  rw [← hwhole pieces, ← hwhole others, List.filter_cons, List.filter_cons, h.1, h.2]

/-- Lines and the pieces between line ends differ in empty ones only: a piece may be empty at the
end, and one always is between the CR and the LF of one line end. -/
theorem sameFull_lines (t : Text) : SameFull t.lines (split ['\n'] (t.map endAsLf)) := by
  fun_induction lines t with
  | case1 => exact ⟨rfl, rfl⟩
  | case2 rest ih =>
    have hends : ('\r' :: '\n' :: rest).map endAsLf = '\n' :: '\n' :: rest.map endAsLf := rfl
    rw [hends, split_sep, split_sep]
    exact ⟨rfl, ih.filter_eq⟩
  | case3 c rest halone hend ih =>
    rw [List.map_cons, endAsLf, if_pos hend, split_sep]
    exact ⟨rfl, ih.filter_eq⟩
  | case4 c rest halone hend hlines ih | case5 c rest halone hend line others hlines ih =>
    have hlf : '\n' ≠ c := by
      rintro rfl
      exact hend (by decide)
    rw [hlines] at ih
    rw [List.map_cons, endAsLf, if_neg hend, split_cons hlf]
    exact ⟨congrArg (c :: ·) ih.1, ih.2⟩

/-- The lines that are not empty are the fields between line ends. -/
theorem fullLines_eq_fields (t : Text) : t.fullLines = fields '\n' (t.map endAsLf) :=
  (sameFull_lines t).filter_eq

/-- How a line may end in a file. -/
inductive LineEnd where
  | lf
  | crlf
  | cr

def LineEnd.text : LineEnd → Text
  | .lf => ['\n']
  | .crlf => ['\r', '\n']
  | .cr => ['\r']

/-- Texts that differ only in how some of their lines end. -/
inductive Exchanged : Text → Text → Prop
  | refl (t : Text) : Exchanged t t
  | line (front : Text) (old new : LineEnd) {rest rest' : Text} (h : Exchanged rest rest') :
    Exchanged (front ++ old.text ++ rest) (front ++ new.text ++ rest')

/-- The lines that are not empty before and after a line end. -/
theorem fullLines_line (front : Text) (ending : LineEnd) (rest : Text) :
    fullLines (front ++ ending.text ++ rest) = fullLines front ++ fullLines rest := by
  simp only [fullLines_eq_fields, List.map_append, List.append_assoc]
  cases ending with
  | lf => exact fields_append_cons ..
  | cr => exact fields_append_cons ..
  | crlf =>
    refine (fields_append_cons ..).trans ?_
    exact congrArg _ (fields_append_cons '\n' [] _)

theorem Exchanged.fullLines_eq {t t' : Text} (h : Exchanged t t') : t.fullLines = t'.fullLines := by
  induction h with
  | refl t => rfl
  | line front old new h ih => rw [fullLines_line, fullLines_line, ih]

end KeyProfile.Text

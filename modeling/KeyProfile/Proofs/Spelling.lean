import KeyProfile.Proofs.DestinationForms
import KeyProfile.Proofs.Outline
import Mathlib.Data.List.TakeWhile

/-!
How words are spelled. The name of a word is that of a symbol or eight hexadecimal digits; it is
made of letters and digits, and stands for the word wherever it is read (`spells_nameOf`).
-/

namespace KeyProfile

open DriverValue

namespace Text

/-- One or more ASCII letters and digits, and nothing else. -/
structure Plain (t : Text) : Prop where
  nonempty : t ≠ []
  alphanum : ∀ c ∈ t, c.isAlphanum = true

/-- What holds at each code point of a range holds of the characters there. -/
@[elab_as_elim] theorem of_codes {motive : Char → Prop} (c : Char) {first count : Nat}
    (hc : first ≤ c.toNat ∧ c.toNat < first + count)
    (h : ∀ n ∈ List.range' first count, motive (Char.ofNat n)) : motive c := by
  have hin : c.toNat ∈ List.range' first count := List.mem_range'_1.mpr hc
  simpa only [Char.ofNat_toNat] using h c.toNat hin

theorem isAlphanum_iff {c : Char} :
    c.isAlphanum = true ↔ ((65 ≤ c.toNat ∧ c.toNat ≤ 90) ∨ (97 ≤ c.toNat ∧ c.toNat ≤ 122)) ∨
      (48 ≤ c.toNat ∧ c.toNat ≤ 57) := by
  unfold Char.isAlphanum Char.isAlpha Char.isUpper Char.isLower Char.isDigit
  simp only [Bool.or_eq_true, Bool.and_eq_true, decide_eq_true_eq, UInt32.le_iff_toNat_le,
    ge_iff_le]
  exact Iff.rfl

theorem range_of_alphanum {c : Char} (h : c.isAlphanum = true) :
    48 ≤ c.toNat ∧ c.toNat ≤ 122 := by
  rw [isAlphanum_iff] at h
  omega

/-- No letter or digit is blank. -/
theorem isBlank_of_alphanum {c : Char} (h : c.isAlphanum = true) : isBlank c = false := by
  have hrange := range_of_alphanum h
  rw [isBlank, inSpans, List.any_eq_false]
  intro span hspan
  have hapart : ∀ span ∈ blankSpans, span.2 < 48 ∨ 122 < span.1 := by decide
  have := hapart span hspan
  simp only [Bool.and_eq_true, decide_eq_true_eq]
  omega

namespace Plain

variable {t : Text}

theorem notMem (h : t.Plain) {c : Char} (hc : c.isAlphanum = false) : c ∉ t := by
  intro hin
  rw [h.alphanum c hin] at hc
  cases hc

theorem not_isBlank (h : t.Plain) {c : Char} (hc : c ∈ t) : isBlank c = false :=
  isBlank_of_alphanum (h.alphanum c hc)

theorem lower_eq (h : t.Plain) : lower t = t.map Char.toLower := by
  apply lower_ascii
  intro c hc
  have hrange := range_of_alphanum (h.alphanum c hc)
  omega

/-- There is nothing to strip around letters and digits, whatever is between them. -/
theorem strip_append (h : t.Plain) (middle : Text) {t' : Text} (h' : t'.Plain) :
    strip (t ++ middle ++ t') = t ++ middle ++ t' := by
  apply strip_eq_self
  · intro c hc
    rw [List.append_assoc, List.head?_append_of_ne_nil _ h.nonempty] at hc
    exact h.not_isBlank (List.mem_of_mem_head? hc)
  · intro c hc
    rw [List.getLast?_append_of_ne_nil _ h'.nonempty] at hc
    exact h'.not_isBlank (List.mem_of_getLast? hc)

theorem strip_self (h : t.Plain) : strip t = t := by
  apply strip_eq_self
  · intro c hc
    exact h.not_isBlank (List.mem_of_mem_head? hc)
  · intro c hc
    exact h.not_isBlank (List.mem_of_getLast? hc)

end Plain

/-- A blank in front does not matter. -/
theorem strip_cons_of_blank {c : Char} (h : isBlank c = true) (t : Text) :
    strip (c :: t) = strip t := by
  unfold strip
  rw [List.dropWhile_cons_of_pos h]

end Text

/-! Hexadecimal digits. -/

namespace Text

/-- A digit as it is written, letters in upper case. -/
def hexChar (d : Nat) : Char := (Nat.digitChar d).toUpper

theorem hexChar_spec {d : Nat} (h : d < 16) :
    hexDigit? (hexChar d) = some d ∧ (hexChar d).isAlphanum = true := by
  have hall : ∀ d : Fin 16, hexDigit? (hexChar d) = some d.val ∧ (hexChar d).isAlphanum = true := by
    decide
  exact hall ⟨d, h⟩

/-- The digits of a number are below the base, and stand for the number. -/
theorem exists_digits (n : Nat) :
    ∃ ds : List Nat, hexUpper n = ds.map hexChar ∧ ds ≠ [] ∧ (∀ d ∈ ds, d < 16) ∧
      positional 16 ds = n := by
  induction n using Nat.strong_induction_on with
  | _ n ih =>
    rcases Nat.lt_or_ge n 16 with hlt | hge
    · refine ⟨[n], ?_, by simp, by simpa using hlt, by simp [positional]⟩
      rw [hexUpper, Nat.toDigits_of_lt_base hlt]
      rfl
    · obtain ⟨ds, hds, -, hsmall, hvalue⟩ := ih (n / 16) (by omega)
      refine ⟨ds ++ [n % 16], ?_, by simp, ?_, ?_⟩
      · rw [hexUpper, Nat.toDigits_of_base_le (by decide) hge, List.map_append, ← hexUpper, hds,
          List.map_append]
        rfl
      · intro d hd
        rcases List.mem_append.mp hd with hin | hlast
        · exact hsmall d hin
        · have hlast : d = n % 16 := by simpa using hlast
          omega
      · rw [positional_append, hvalue]
        omega

theorem positional_zeros (base k : Nat) (ds : List Nat) :
    positional base (List.replicate k 0 ++ ds) = positional base ds := by
  induction k with
  | zero => rfl
  | succ k ih =>
    rw [List.replicate_succ, List.cons_append, ← ih]
    simp [positional]

/-- Characters that stand for digits are read as the digits. -/
theorem digits?_map {δ : Type} {digitOf? : Char → Option Nat} {char : δ → Char} {value : δ → Nat}
    {ds : List δ} (hne : ds ≠ []) (h : ∀ d ∈ ds, digitOf? (char d) = some (value d)) :
    digits? digitOf? (ds.map char) = some (ds.map value) := by
  have hall : (ds.map char).mapM digitOf? = some (ds.map value) := by
    clear hne
    induction ds with
    | nil => rfl
    | cons d ds ih =>
      obtain ⟨hfirst, hrest⟩ := List.forall_mem_cons.mp h
      rw [List.map_cons, List.mapM_cons, hfirst, ih hrest]
      rfl
  rw [digits?, if_neg (by simpa using hne), hall]

theorem digits?_map_hexChar {ds : List Nat} (hne : ds ≠ []) (h : ∀ d ∈ ds, d < 16) :
    digits? hexDigit? (ds.map hexChar) = some ds := by
  rw [digits?_map hne fun d hd => (hexChar_spec (h d hd)).1, List.map_id']

end Text

/-- A word in hexadecimal is read back. -/
theorem DriverValue.hexWord_spec {v : Int} (hv : IsWord v) :
    ∃ body : Text, Text.hexWord 8 v = '0' :: 'x' :: body ∧ body.Plain ∧
      KeyToken.hexWord? body = some v := by
  obtain ⟨n, rfl⟩ := Int.eq_ofNat_of_zero_le hv.1
  obtain ⟨ds, hds, hne, hsmall, hvalue⟩ := Text.exists_digits n
  set zeros := List.replicate (8 - (Text.hexUpper n).length) 0 with hzeros
  have hbody : Text.padded 8 (Text.hexUpper n) = (zeros ++ ds).map Text.hexChar := by
    rw [Text.padded, hzeros, List.map_append, List.map_replicate, hds]
    rfl
  have hdigits : ∀ d ∈ zeros ++ ds, d < 16 := by
    intro d hd
    rcases List.mem_append.mp hd with hzero | hin
    · rw [List.eq_of_mem_replicate hzero]
      decide
    · exact hsmall d hin
  have hnonempty : zeros ++ ds ≠ [] := by simp [hne]
  have hplain : Text.Plain ((zeros ++ ds).map Text.hexChar) := by
    refine ⟨by simpa using hnonempty, ?_⟩
    intro c hc
    obtain ⟨d, hd, rfl⟩ := List.mem_map.mp hc
    exact (Text.hexChar_spec (hdigits d hd)).2
  refine ⟨(zeros ++ ds).map Text.hexChar, ?_, hplain, ?_⟩
  · rw [← hbody]
    rfl
  · have hrange : n ≤ 0xFFFFFFFF := by
      have := hv.2
      omega
    rw [KeyToken.hexWord?, Text.hex?, hplain.strip_self,
      Text.digits?_map_hexChar hnonempty hdigits, Option.map_some, hzeros, Text.positional_zeros,
      hvalue]
    exact if_pos hrange

/-! Names of words. -/

/-- A text that stands for a word, as the token of a source and as that of a destination. -/
structure Spells (t : Text) (v : Int) : Prop where
  plain : t.Plain
  source : KeyToken.driverValue? t = some v
  destination : Destination.Part.ofToken t = .literal (some v) ∨
    Destination.Part.ofToken t = .symbol (some v)

theorem SymbolTable.names_standard :
    standard.claims.map Prod.fst = (Symbol.standard.flatMap Symbol.names).reverse := by
  simp [standard, claimsOf, List.map_flatMap, Function.comp_def]

/-- All names of all symbols differ, so each leads to its own. -/
theorem SymbolTable.find?_name {s : Symbol} (hs : s ∈ Symbol.standard) (hname : s.name.Plain) :
    standard.find? s.name = some s := by
  have hnodup : (standard.claims.map Prod.fst).Nodup := by
    rw [names_standard]
    exact List.nodup_reverse.mpr nodup_standard_names
  have hclaim : (s.name, s) ∈ standard.claims := by
    simp only [standard, claimsOf, List.mem_reverse, List.mem_flatMap, List.mem_map]
    exact ⟨s, hs, s.name, List.mem_cons_self, rfl⟩
  rw [find?, hname.strip_self]
  exact lookup_of_nodup hnodup hclaim

/-- Symbols go by letters and digits, and no name begins like a literal or like a call. -/
theorem Symbol.plain_of_mem_names {s : Symbol} (hs : s ∈ Symbol.standard) {name : Text}
    (hname : name ∈ s.names) :
    name.Plain ∧ KeyToken.hexBody? name = none ∧
      Text.startsWith name.lower "macro".toList = false := by
  have hshape : ∀ s ∈ Symbol.standard, ∀ name ∈ s.names, name ≠ [] ∧
      name.all Char.isAlphanum = true ∧ name.head? ≠ some '0' ∧
      Text.startsWith (name.map Char.toLower) "macro".toList = false := by
    decide +kernel
  obtain ⟨hnonempty, halphanum, hfirst, hcall⟩ := hshape s hs name hname
  have hplain : Text.Plain name := ⟨hnonempty, List.all_eq_true.mp halphanum⟩
  refine ⟨hplain, ?_, by rw [hplain.lower_eq, hcall]⟩
  rw [KeyToken.hexBody?, hplain.strip_self]
  split
  · next body => simp at hfirst
  · rfl

theorem Symbol.spells_name {s : Symbol} (hs : s ∈ Symbol.standard) : Spells s.name s.value := by
  obtain ⟨hname, hliteral, hcall⟩ := Symbol.plain_of_mem_names hs List.mem_cons_self
  have hvalue : SymbolTable.standard.value? s.name = some s.value := by
    rw [SymbolTable.value?, SymbolTable.find?_name hs hname, Option.map_some]
  refine ⟨hname, ?_, .inr ?_⟩
  · rw [KeyToken.driverValue?, hliteral, hname.strip_self]
    exact hvalue
  · simp only [Destination.Part.ofToken, hname.strip_self, hliteral, hcall, hvalue]
    rfl

theorem spells_hexWord {v : Int} (hv : IsWord v) : Spells (Text.hexWord 8 v) v := by
  obtain ⟨body, hword, hbody, hvalue⟩ := hexWord_spec hv
  have hplain : Text.Plain (Text.hexWord 8 v) := by
    rw [hword]
    refine ⟨by simp, ?_⟩
    intro c hc
    simp only [List.mem_cons] at hc
    rcases hc with rfl | rfl | hin
    · decide
    · decide
    · exact hbody.alphanum c hin
  have hread : KeyToken.hexBody? (Text.hexWord 8 v) = some body := by
    rw [KeyToken.hexBody?, hplain.strip_self, hword]
    rfl
  refine ⟨hplain, ?_, .inl ?_⟩
  · rw [KeyToken.driverValue?, hread]
    exact hvalue
  · simp [Destination.Part.ofToken, hplain.strip_self, KeyToken.hexLiteral?, hread, hvalue]

/-- The name of a word stands for the word. -/
theorem spells_nameOf {v : Int} (hv : IsWord v) : Spells (SymbolTable.standard.nameOf v) v := by
  unfold SymbolTable.nameOf
  cases hfind : SymbolTable.standard.symbols.find? (·.value = v) with
  | none => exact spells_hexWord hv
  | some s =>
    have hvalue : s.value = v := by simpa using List.find?_some hfind
    have hspells := Symbol.spells_name (List.mem_of_find?_eq_some hfind)
    rwa [hvalue] at hspells

/-- A blank in front of a token does not matter. -/
theorem Destination.ofToken_blank (t : Text) : Part.ofToken (' ' :: t) = Part.ofToken t := by
  have hblank : Text.isBlank ' ' = true := by decide
  unfold Part.ofToken
  rw [Text.strip_cons_of_blank hblank]

namespace Spells

variable {t : Text} {v : Int}

/-- As the only token, a blank in front of it, it makes the word whatever macros there are. -/
theorem evaluate_blank (h : Spells t v) (hv : IsWord v) (valueOf : Text → Option Int) :
    Destination.evaluate valueOf [' ' :: t] = v := by
  rw [Destination.evaluate, List.foldl_cons, List.foldl_nil, Destination.combine,
    Destination.ofToken_blank]
  rcases h.destination with hliteral | hsymbol
  · rw [hliteral]
    rfl
  · rw [hsymbol]
    dsimp only
    split
    · exact bitUnion_zero_left hv.1
    · rfl

/-- A line with the word in front of the colon and one token behind it binds the word to the
token. -/
theorem ofLine?_line (h : Spells t v) (hne : v ≠ 0) {token : Text} (hcolon : ':' ∉ token)
    (hplus : '+' ∉ token) :
    Binding.ofLine? (t ++ ": ".toList ++ token) = some ⟨v, [' ' :: token], hne⟩ := by
  have hcolonBlank : ':' ∉ ' ' :: token := by simpa using hcolon
  have hplusBlank : '+' ∉ ' ' :: token := by simpa using hplus
  have hfields : Text.fields ':' (t ++ ": ".toList ++ token) = [t, ' ' :: token] := by
    have hline : t ++ ": ".toList ++ token = t ++ ':' :: ' ' :: token := List.append_assoc ..
    rw [hline, Text.fields_append_cons,
      Text.fields_of_notMem h.plain.nonempty (h.plain.notMem (by decide)),
      Text.fields_of_notMem (by simp) hcolonBlank]
    rfl
  have hkeys : sourceOf (Text.fields '+' t) = v := by
    rw [Text.fields_of_notMem h.plain.nonempty (h.plain.notMem (by decide)), sourceOf,
      List.foldl_cons, List.foldl_nil, h.source]
    rfl
  have htokens : Text.fields '+' (' ' :: token) = [' ' :: token] :=
    Text.fields_of_notMem (by simp) hplusBlank
  simp only [Binding.ofLine?, hfields, hkeys, htokens]
  exact dif_neg hne

theorem calledNames_blank (h : Spells t v) : Destination.calledNames [' ' :: t] = [] := by
  rcases h.destination with hliteral | hsymbol
  · simp [Destination.calledNames, Destination.calledName?, Destination.ofToken_blank, hliteral]
  · simp [Destination.calledNames, Destination.calledName?, Destination.ofToken_blank, hsymbol]

end Spells

/-! Names of groups. -/

namespace Text

/-- What lower case does not change is still there in it. -/
theorem mem_lowerAfter {c : Char} (hsame : lowerChar c = c) (hsigma : c ≠ 'Σ') (hdotted : c ≠ 'İ')
    {t : Text} (h : c ∈ t) (before : Text) : c ∈ lowerAfter before t := by
  induction t generalizing before with
  | nil => cases h
  | cons first rest ih =>
    unfold lowerAfter
    rcases List.mem_cons.mp h with rfl | hin
    · rw [if_neg hsigma, if_neg hdotted, hsame]
      exact List.mem_cons_self
    · have hrest := ih hin (first :: before)
      split
      · exact List.mem_cons_of_mem _ hrest
      · split
        · exact List.mem_cons_of_mem _ (List.mem_cons_of_mem _ hrest)
        · exact List.mem_cons_of_mem _ hrest

/-- Blanks have no case. -/
theorem lowerChar_of_blank {c : Char} (h : isBlank c = true) :
    lowerChar c = c ∧ c ≠ 'Σ' ∧ c ≠ 'İ' := by
  have hall : ∀ span ∈ blankSpans, ∀ k ∈ List.range' span.1 (span.2 + 1 - span.1),
      lowerChar (Char.ofNat k) = Char.ofNat k ∧ Char.ofNat k ≠ 'Σ' ∧ Char.ofNat k ≠ 'İ' := by
    decide +kernel
  obtain ⟨span, hspan, hrange⟩ := List.any_eq_true.mp h
  simp only [Bool.and_eq_true, decide_eq_true_eq] at hrange
  have hin : span.1 ≤ c.toNat ∧ c.toNat < span.1 + (span.2 + 1 - span.1) := by omega
  exact of_codes c hin (hall span hspan)

end Text

namespace Directive

/-- A name of a table is not empty. -/
theorem ne_nil_of_ofName {name : Text} {ref : TableRef} (h : ofName name = .table ref) :
    name ≠ [] := by
  rintro rfl
  cases h

/-- A name of a table has nothing in it that separates names or ends a header. -/
theorem notMem_of_ofName {name : Text} {ref : TableRef} (h : ofName name = .table ref) {c : Char}
    (hsame : Text.lowerChar c = c ∧ c ≠ 'Σ' ∧ c ≠ 'İ') (hc : c.isAlphanum = false) : c ∉ name := by
  intro hin
  have hlower : c ∈ name.lower := Text.mem_lowerAfter hsame.1 hsame.2.1 hsame.2.2 hin []
  have hnames : ∀ entry ∈ names, entry.1.all Char.isAlphanum = true := by decide
  unfold ofName at h
  cases hlookup : names.lookup name.lower with
  | none =>
    rw [hlookup] at h
    cases h
  | some directive =>
    obtain ⟨before, after, hentries, -⟩ := List.lookup_eq_some_iff.mp hlookup
    have hall := hnames (name.lower, directive) (by simp [hentries])
    have halphanum := List.all_eq_true.mp hall c hlower
    rw [hc] at halphanum
    cases halphanum

theorem not_isBlank_of_ofName {name : Text} {ref : TableRef} (h : ofName name = .table ref)
    {c : Char} (hc : c ∈ name) : Text.isBlank c = false := by
  cases hblank : Text.isBlank c with
  | false => rfl
  | true =>
    have hother : c.isAlphanum = false := by
      cases halphanum : c.isAlphanum with
      | false => rfl
      | true =>
        rw [Text.isBlank_of_alphanum halphanum] at hblank
        cases hblank
    exact absurd hc (notMem_of_ofName h (Text.lowerChar_of_blank hblank) hother)

end Directive

end KeyProfile

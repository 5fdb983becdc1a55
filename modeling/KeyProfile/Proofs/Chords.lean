import KeyProfile.Compilation.Basic
import KeyProfile.DriverValue.Decoded
import KeyProfile.Proofs.DestinationForms
import KeyProfile.Proofs.Spelling

/-!
Modifiers combined with a key. As long as nothing but keys can be resolved among the tokens of a
destination, no macro is reached and nothing is replaced: the destination is the union of the words
of the symbols named (`destination_chord`). A union does not care for order or repetition, and the
fields of a word stay apart in it, so the modifiers and the code of the one key among the symbols
can be read off it (`classify_chordOf`). Main statement: `modifiers_combine`.
-/

namespace KeyProfile

open DriverValue

/-! What symbols say together. -/

namespace Symbol

/-- The modifiers among symbols. -/
def modifiersOf (symbols : List Symbol) : Int :=
  (symbols.filterMap Symbol.modifier).foldl bitUnion 0

/-- The usage code of the first symbol that is no modifier, if there is one. -/
def codeOf (symbols : List Symbol) : Int :=
  ((symbols.find? fun s => s.modifier.isNone).map fun s => usage s.value).getD 0

/-- Modifiers alone are a modifier; anything else is a key. -/
def categoryOf (symbols : List Symbol) : Category :=
  if symbols ≠ [] ∧ ∀ s ∈ symbols, s.modifier.isSome = true then .modifier else .key

/-- Keys, at most one of which is no modifier. They may be repeated. -/
structure IsChord (symbols : List Symbol) : Prop where
  keys : ∀ s ∈ symbols, kind s.value = .key
  single : ∀ s ∈ symbols, ∀ other ∈ symbols, s.modifier = none → other.modifier = none → s = other

/-- The word that symbols make together. -/
def chordOf (symbols : List Symbol) : Int := withKeys 0 (symbols.map Symbol.value)

/-- A key is a modifier, with its bits as first data, or has a usage code. -/
theorem fields_of_mem_standard {s : Symbol} (hs : s ∈ Symbol.standard)
    (hkey : kind s.value = .key) :
    data1 s.value = s.modifier.getD 0 ∧ s.modifier ≠ some 0 ∧
      (usage s.value = 0 ↔ s.modifier.isSome = true) := by
  have hall : ∀ s ∈ Symbol.standard, kind s.value = .key →
      data1 s.value = s.modifier.getD 0 ∧ s.modifier ≠ some 0 ∧
        (usage s.value = 0 ↔ s.modifier.isSome = true) := by
    decide +kernel
  exact hall s hs hkey

section Chords

variable {symbols : List Symbol} (hstandard : ∀ s ∈ symbols, s ∈ Symbol.standard)
  (hchord : IsChord symbols)

include hstandard hchord

theorem isKey_of_chord : ∀ key ∈ symbols.map Symbol.value, IsKey key := by
  intro key hkey
  obtain ⟨s, hs, rfl⟩ := List.mem_map.mp hkey
  rcases isKey_or_isButton_of_mem_standard (hstandard s hs) with hkey | hbutton
  · exact hkey
  · have hkind := hchord.keys s hs
    rw [hbutton.kind_eq] at hkind
    cases hkind

theorem modifier_of_chord {bits : Int} (hbits : bits ∈ symbols.filterMap Symbol.modifier) :
    bits ≠ 0 ∧ ∃ s ∈ symbols, data1 s.value = bits := by
  obtain ⟨s, hs, hmodifier⟩ := List.mem_filterMap.mp hbits
  obtain ⟨hdata, hne, -⟩ := fields_of_mem_standard (hstandard s hs) (hchord.keys s hs)
  rw [hmodifier] at hdata hne
  exact ⟨fun hzero => hne (congrArg some hzero), s, hs, hdata⟩

/-- The modifiers of a chord are those of its symbols. -/
theorem data1_chordOf : data1 (chordOf symbols) = modifiersOf symbols := by
  rw [chordOf, data1_withKeys isWord_zero (isKey_of_chord hstandard hchord), modifiersOf]
  apply foldl_bitUnion_congr
  · intro v hv
    obtain ⟨w, -, rfl⟩ := List.mem_map.mp hv
    exact data1_nonneg w
  · intro v hv
    obtain ⟨-, s, -, rfl⟩ := modifier_of_chord hstandard hchord hv
    exact data1_nonneg s.value
  · intro v hne
    constructor
    · intro hv
      simp only [List.mem_map, exists_exists_and_eq_and] at hv
      obtain ⟨s, hs, rfl⟩ := hv
      have hdata := (fields_of_mem_standard (hstandard s hs) (hchord.keys s hs)).1
      cases hmodifier : s.modifier with
      | none =>
        rw [hmodifier] at hdata
        exact absurd hdata hne
      | some bits =>
        rw [hmodifier] at hdata
        exact List.mem_filterMap.mpr ⟨s, hs, hmodifier.trans (congrArg some hdata.symm)⟩
    · intro hv
      obtain ⟨-, s, hs, rfl⟩ := modifier_of_chord hstandard hchord hv
      exact List.mem_map_of_mem (List.mem_map_of_mem hs)

/-- The usage code of a chord is that of its one key. -/
theorem usage_chordOf : usage (chordOf symbols) = codeOf symbols := by
  have hall : ∀ v ∈ (symbols.map Symbol.value).map usage, 0 ≤ v := by
    intro v hv
    obtain ⟨w, -, rfl⟩ := List.mem_map.mp hv
    exact usage_nonneg w
  have hzero : ∀ s ∈ symbols, s.modifier.isSome = true → usage s.value = 0 := by
    intro s hs
    exact (fields_of_mem_standard (hstandard s hs) (hchord.keys s hs)).2.2.mpr
  have hmem (v : Int) : v ∈ (symbols.map Symbol.value).map usage ↔
      ∃ s ∈ symbols, usage s.value = v := by
    simp
  rw [chordOf, usage_withKeys isWord_zero (isKey_of_chord hstandard hchord), codeOf]
  cases hfind : symbols.find? fun s => s.modifier.isNone with
  | none =>
    have hnone : ∀ s ∈ symbols, s.modifier.isSome = true := by
      simpa [Option.isSome_iff_ne_none] using hfind
    refine foldl_bitUnion_congr hall (List.forall_mem_nil _) ?_
    intro v hne
    simp only [hmem, List.not_mem_nil, iff_false, not_exists, not_and]
    intro s hs hv
    exact hne (hv.symm.trans (hzero s hs (hnone s hs)))
  | some key =>
    have hkey : key ∈ symbols := List.mem_of_find?_eq_some hfind
    have hown : key.modifier = none := by simpa using List.find?_some hfind
    have hsingle : [usage key.value].foldl bitUnion 0 = usage key.value :=
      bitUnion_zero_left (usage_nonneg _)
    rw [Option.map_some, Option.getD_some, ← hsingle]
    apply foldl_bitUnion_congr hall (by simpa using usage_nonneg key.value)
    intro v hne
    rw [hmem, List.mem_singleton]
    constructor
    · rintro ⟨s, hs, rfl⟩
      cases hmodifier : s.modifier with
      | none => rw [hchord.single s hs key hkey hmodifier hown]
      | some bits => exact absurd (hzero s hs (by rw [hmodifier]; rfl)) hne
    · rintro rfl
      exact ⟨key, hkey, rfl⟩

/-- A key that is no modifier has a code other than zero. -/
theorem codeOf_eq_zero_iff :
    codeOf symbols = 0 ↔ ∀ s ∈ symbols, s.modifier.isSome = true := by
  unfold codeOf
  cases hfind : symbols.find? fun s => s.modifier.isNone with
  | none => simpa [Option.isSome_iff_ne_none] using hfind
  | some key =>
    have hkey : key ∈ symbols := List.mem_of_find?_eq_some hfind
    have hown : key.modifier = none := by simpa using List.find?_some hfind
    have hiff := (fields_of_mem_standard (hstandard key hkey) (hchord.keys key hkey)).2.2
    rw [hown] at hiff
    constructor
    · intro hzero
      exact absurd (hiff.mp hzero) (by decide)
    · intro hall
      have hmodifier := hall key hkey
      rw [hown] at hmodifier
      cases hmodifier

/-- Of modifiers alone, at least one is there. -/
theorem modifiersOf_ne_zero (hne : symbols ≠ [])
    (hmodifiers : ∀ s ∈ symbols, s.modifier.isSome = true) : modifiersOf symbols ≠ 0 := by
  obtain ⟨s, hs⟩ := List.exists_mem_of_ne_nil symbols hne
  obtain ⟨bits, hbits⟩ := Option.isSome_iff_exists.mp (hmodifiers s hs)
  have hmem : bits ∈ symbols.filterMap Symbol.modifier := List.mem_filterMap.mpr ⟨s, hs, hbits⟩
  refine foldl_bitUnion_ne_zero ?_ hmem (modifier_of_chord hstandard hchord hmem).1
  intro v hv
  obtain ⟨-, s, -, rfl⟩ := modifier_of_chord hstandard hchord hv
  exact data1_nonneg s.value

/-- A chord taken apart gives the modifiers and the key that it was made of. -/
theorem classify_chordOf (limit : Int) :
    classify (chordOf symbols) limit =
      { category := categoryOf symbols, raw := chordOf symbols
        modifiers := modifiersOf symbols, code := codeOf symbols } := by
  by_cases hne : symbols = []
  · subst hne
    rfl
  · have hkey : IsKey (chordOf symbols) :=
      isKey_withKeys_zero (by simpa using hne) (isKey_of_chord hstandard hchord)
    have hword : word (chordOf symbols) = chordOf symbols := by
      have := hkey.1
      simp only [IsWord, word] at *
      omega
    have hused : chordOf symbols ≠ unused := by
      intro h
      have hkind := hkey.2.1
      rw [h] at hkind
      exact absurd hkind (by decide)
    have hcall : macroId? (chordOf symbols) limit = none := by
      have hkind := hkey.2.1
      unfold macroId?
      rw [if_neg]
      simp only [word, kindByte, macroTag] at *
      omega
    have hcode := codeOf_eq_zero_iff hstandard hchord
    unfold classify
    simp only [hword, hused, hcall, hkey.kind_eq, if_false, usage_chordOf hstandard hchord,
      data1_chordOf hstandard hchord]
    by_cases hall : ∀ s ∈ symbols, s.modifier.isSome = true
    · have hsome := modifiersOf_ne_zero hstandard hchord hne hall
      rw [if_pos ⟨hcode.mpr hall, hsome⟩, categoryOf, if_pos ⟨hne, hall⟩, hcode.mpr hall]
    · rw [if_neg fun h => hall (hcode.mp h.1), categoryOf, if_neg fun h => hall h.2]

end Chords

/-- A chord depends on which symbols are in it, not on their order or on how often they are. -/
theorem chordOf_congr {symbols others : List Symbol}
    (hstandard : ∀ s ∈ symbols, s ∈ Symbol.standard) (hsame : ∀ s, s ∈ symbols ↔ s ∈ others) :
    chordOf symbols = chordOf others := by
  have hnonneg : ∀ v ∈ symbols.map Symbol.value, 0 ≤ v := by
    intro v hv
    obtain ⟨s, hs, rfl⟩ := List.mem_map.mp hv
    rcases isKey_or_isButton_of_mem_standard (hstandard s hs) with hkey | hbutton
    · exact hkey.1.1
    · exact hbutton.1.1
  have hmem : ∀ v, v ∈ symbols.map Symbol.value ↔ v ∈ others.map Symbol.value := by
    simp [hsame]
  exact foldl_bitUnion_congr hnonneg (fun v hv => hnonneg v ((hmem v).mpr hv)) fun v _ => hmem v

end Symbol

/-! Tokens that name keys. -/

namespace Registry

variable {α : Type}

/-- The word that a reference to a name is answered with. -/
def answer? (r : Registry α) (name : Text) : Option Int :=
  (r.reference name).2.map fun id : Nat => macroTag + id

/-- A reference without an answer leaves no trace. -/
theorem reference_of_unanswered {r : Registry α} {name : Text} (h : r.answer? name = none) :
    r.reference name = (r, none) := by
  rw [answer?, Option.map_eq_none_iff, reference_snd_eq_none_iff] at h
  rcases h with hd | ⟨hid, hfull⟩
  · rw [reference, hd]
    rfl
  · rw [reference, hid, hfull]
    exact ite_self _

theorem resolve_unanswered {r : Registry α} {token : Text}
    (h : (token.call?.map fun parts => parts.2.strip).bind r.answer? = none) (key : Int) :
    ∃ log, r.resolve key token = .ok { registry := r, log } := by
  unfold resolve
  cases hcall : token.call? with
  | none => exact ⟨[], rfl⟩
  | some parts =>
    obtain ⟨front, inner⟩ := parts
    rw [hcall] at h
    dsimp only
    cases hdefines : r.defines inner.strip with
    | false => exact ⟨_, rfl⟩
    | true =>
      rw [reference_of_unanswered h]
      exact ⟨_, rfl⟩

end Registry

namespace Destination

/-- The symbols that tokens name. -/
def namedSymbols (tokens : List Text) : List Symbol :=
  tokens.filterMap SymbolTable.standard.find?

/-- Exact names begin neither like a literal nor like a call, so a token that has one is read as the
symbol. -/
theorem ofToken_of_find? {token : Text} {s : Symbol}
    (hfind : SymbolTable.standard.find? token = some s) :
    Part.ofToken token = .symbol (some s.value) := by
  obtain ⟨hs, hname⟩ := SymbolTable.mem_standard_of_find? hfind
  obtain ⟨hplain, hliteral, hcall⟩ := Symbol.plain_of_mem_names hs hname
  have hvalue : SymbolTable.standard.value? token.strip = some s.value := by
    rw [SymbolTable.value?, SymbolTable.find?, Text.strip_strip]
    exact congrArg (Option.map Symbol.value) hfind
  simp only [Part.ofToken, hliteral, hcall, hvalue]
  rfl

variable {α : Type}

/-- The token stands for something: a literal, a macro that a reference reaches, or a symbol. -/
def resolves (r : Registry α) (token : Text) : Bool := (ownValue? r.answer? token).isSome

theorem resolves_of_find? (r : Registry α) {token : Text} {s : Symbol}
    (hfind : SymbolTable.standard.find? token = some s) : resolves r token = true := by
  rw [resolves, ownValue?, ofToken_of_find? hfind]
  rfl

/-- A token that stands for nothing changes nothing but the log. -/
theorem add_unresolved {d : Destination α} {token : Text} (h : resolves d.registry token = false)
    (key : Int) : ∃ log, add key d token = .ok { d with log } := by
  rw [resolves, Option.isSome_eq_false_iff, Option.isNone_iff_eq_none, ownValue?] at h
  rw [add_part]
  cases hpart : Part.ofToken token with
  | literal literal =>
    rw [hpart] at h
    subst h
    exact ⟨d.log, rfl⟩
  | symbol symbol =>
    rw [hpart] at h
    subst h
    exact ⟨d.log, rfl⟩
  | call name =>
    rw [hpart, call?_of_part hpart] at h
    obtain ⟨log, hresolve⟩ := Registry.resolve_unanswered h key
    exact ⟨d.log ++ log, by simp only [hresolve, ok_bind, Option.getD_none]⟩

/-- The name of a key adds the key. -/
theorem add_key {d : Destination α} {token : Text} {s : Symbol}
    (hfind : SymbolTable.standard.find? token = some s) (hkey : kind s.value = .key) (key : Int) :
    add key d token = .ok { d with value := bitUnion d.value s.value } := by
  rw [add_part, ofToken_of_find? hfind]
  exact if_pos hkey

/-- If all tokens that stand for something name keys, the destination is the union of these,
whatever the other tokens are. -/
theorem foldlM_add_keys {tokens : List Text} {d : Destination α}
    (hnamed : ∀ token ∈ tokens, resolves d.registry token = true →
      (SymbolTable.standard.find? token).isSome = true)
    (hkeys : ∀ s ∈ namedSymbols tokens, kind s.value = .key) (key : Int) :
    ∃ log, tokens.foldlM (add key) d = .ok
      { d with value := withKeys d.value ((namedSymbols tokens).map Symbol.value), log } := by
  induction tokens generalizing d with
  | nil => exact ⟨d.log, rfl⟩
  | cons token tokens ih =>
    obtain ⟨hfirst, hrest⟩ := List.forall_mem_cons.mp hnamed
    unfold namedSymbols at hkeys ⊢
    cases hfind : SymbolTable.standard.find? token with
    | none =>
      have hnothing : resolves d.registry token = false := by
        rw [hfind] at hfirst
        simpa using hfirst
      obtain ⟨log, hadd⟩ := add_unresolved hnothing key
      rw [List.filterMap_cons_none hfind] at hkeys ⊢
      rw [List.foldlM_cons, hadd, ok_bind]
      exact ih (d := { d with log }) hrest hkeys
    | some s =>
      rw [List.filterMap_cons_some hfind] at hkeys ⊢
      obtain ⟨hown, hkeys⟩ := List.forall_mem_cons.mp hkeys
      rw [List.foldlM_cons, add_key hfind hown, ok_bind, List.map_cons, withKeys_cons]
      exact ih (d := { d with value := bitUnion d.value s.value }) hrest hkeys

theorem mem_standard_of_mem_namedSymbols {tokens : List Text} :
    ∀ s ∈ namedSymbols tokens, s ∈ Symbol.standard := by
  intro s hs
  obtain ⟨token, -, hfind⟩ := List.mem_filterMap.mp hs
  exact (SymbolTable.mem_standard_of_find? hfind).1

/-- Lists with the same tokens that stand for something name the same symbols. -/
theorem mem_namedSymbols_congr {r : Registry α} {tokens others : List Text}
    (hsame : ∀ token, resolves r token = true → (token ∈ others ↔ token ∈ tokens)) (s : Symbol) :
    s ∈ namedSymbols others ↔ s ∈ namedSymbols tokens := by
  simp only [namedSymbols, List.mem_filterMap]
  constructor
  · rintro ⟨token, htoken, hfind⟩
    exact ⟨token, (hsame token (resolves_of_find? r hfind)).mp htoken, hfind⟩
  · rintro ⟨token, htoken, hfind⟩
    exact ⟨token, (hsame token (resolves_of_find? r hfind)).mpr htoken, hfind⟩

/-- The destination of keys is the chord of the symbols named. -/
theorem destination_chord {c : Compilation} {tokens : List Text}
    (hnamed : ∀ token ∈ tokens, resolves c.macros token = true →
      (SymbolTable.standard.find? token).isSome = true)
    (hkeys : ∀ s ∈ namedSymbols tokens, kind s.value = .key) (key : Int) :
    ∃ log, c.destination key tokens = .ok (Symbol.chordOf (namedSymbols tokens), c.record log) := by
  obtain ⟨log, hrun⟩ := foldlM_add_keys (d := { registry := c.macros }) hnamed hkeys key
  refine ⟨log, ?_⟩
  rw [Compilation.destination, ofTokens, hrun]
  rfl

end Destination

/-- Modifiers combine independently of order. In any compilation, let every token that stands for
something be the name of a key, and let at most one of the symbols named be no modifier; literals
may be malformed and references fail. Then the destination can be made, and any other tokens make
the same one as long as the ones that stand for something are the same: in whatever order, as often
as one likes, and with or without tokens that stand for nothing. Taken apart it has the modifiers
named, together, and the code of the one key; it counts as a modifier exactly if modifiers were
named and nothing else, and is zero if no token stands for anything. -/
theorem modifiers_combine (c : Compilation) (key : Int) {tokens : List Text}
    (hnamed : ∀ token ∈ tokens, Destination.resolves c.macros token = true →
      (SymbolTable.standard.find? token).isSome = true)
    (hchord : Symbol.IsChord (Destination.namedSymbols tokens)) :
    ∃ v log, c.destination key tokens = .ok (v, c.record log) ∧
      (∀ others otherKey,
        (∀ token, Destination.resolves c.macros token = true → (token ∈ others ↔ token ∈ tokens)) →
        ∃ log, c.destination otherKey others = .ok (v, c.record log)) ∧
      (∀ limit, classify v limit =
        { category := Symbol.categoryOf (Destination.namedSymbols tokens)
          raw := v
          modifiers := Symbol.modifiersOf (Destination.namedSymbols tokens)
          code := Symbol.codeOf (Destination.namedSymbols tokens) }) ∧
      ((∀ token ∈ tokens, Destination.resolves c.macros token = false) → v = 0) := by
  obtain ⟨log, hmade⟩ := Destination.destination_chord hnamed hchord.keys key
  refine ⟨_, log, hmade, ?_, ?_, ?_⟩
  · intro others otherKey hsame
    have hmem := Destination.mem_namedSymbols_congr hsame
    have hothers : ∀ token ∈ others, Destination.resolves c.macros token = true →
        (SymbolTable.standard.find? token).isSome = true := by
      intro token htoken hresolves
      exact hnamed token ((hsame token hresolves).mp htoken) hresolves
    obtain ⟨log, hagain⟩ := Destination.destination_chord hothers
      (fun s hs => hchord.keys s ((hmem s).mp hs)) otherKey
    exact ⟨log, Symbol.chordOf_congr Destination.mem_standard_of_mem_namedSymbols hmem ▸ hagain⟩
  · exact Symbol.classify_chordOf Destination.mem_standard_of_mem_namedSymbols hchord
  · intro hnothing
    have hnone : Destination.namedSymbols tokens = [] := by
      apply List.filterMap_eq_nil_iff.mpr
      intro token htoken
      cases hfind : SymbolTable.standard.find? token with
      | none => rfl
      | some s =>
        have hresolves := Destination.resolves_of_find? c.macros hfind
        rw [hnothing token htoken] at hresolves
        cases hresolves
    rw [hnone]
    rfl

/-- Control and shift with a key that goes by two names, among a malformed literal and a macro that
is not defined. -/
theorem modifiers_combine_return :
    ∃ v log log', Compilation.destination {} 0x02003A00 (["LCtrl", " Return ", "0xZZ", "Enter",
        "Macro(Gone)", "LShift", "LCtrl"].map String.toList) = .ok (v, Compilation.record {} log) ∧
      Compilation.destination {} 0x02003B00 (["Enter", "LShift", " Return ", "LCtrl", "LShift"].map
        String.toList) = .ok (v, Compilation.record {} log') ∧
      classify v macroIds = { category := .key, raw := v, modifiers := 0x03, code := 0x28 } := by
  have hsymbols : Destination.namedSymbols (["LCtrl", " Return ", "0xZZ", "Enter", "Macro(Gone)",
      "LShift", "LCtrl"].map String.toList) =
      [.ofModifier .lCtrl, .key "Enter" 0x28 ["Return"], .key "Enter" 0x28 ["Return"],
        .ofModifier .lShift, .ofModifier .lCtrl] := by
    decide +kernel
  have hchord : Symbol.IsChord (Destination.namedSymbols (["LCtrl", " Return ", "0xZZ", "Enter",
      "Macro(Gone)", "LShift", "LCtrl"].map String.toList)) := by
    rw [hsymbols]
    exact ⟨by decide, by decide⟩
  obtain ⟨v, log, hmade, hothers, hclassify, -⟩ :=
    modifiers_combine {} 0x02003A00 (by decide +kernel) hchord
  have hthere : ∀ token ∈ ["LCtrl", " Return ", "0xZZ", "Enter", "Macro(Gone)", "LShift",
      "LCtrl"].map String.toList,
      Destination.resolves ({} : Compilation).macros token = true →
        token ∈ ["Enter", "LShift", " Return ", "LCtrl", "LShift"].map String.toList := by
    decide +kernel
  have hback : ∀ token ∈ ["Enter", "LShift", " Return ", "LCtrl", "LShift"].map String.toList,
      token ∈ ["LCtrl", " Return ", "0xZZ", "Enter", "Macro(Gone)", "LShift", "LCtrl"].map
        String.toList := by
    decide
  obtain ⟨log', hagain⟩ := hothers _ 0x02003B00 fun token hresolves =>
    ⟨hback token, fun htoken => hthere token htoken hresolves⟩
  refine ⟨v, log, log', hmade, hagain, ?_⟩
  rw [hclassify, hsymbols]
  rfl

end KeyProfile

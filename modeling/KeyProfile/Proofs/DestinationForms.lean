import KeyProfile.Proofs.Destination
import KeyProfile.Proofs.WordUnion

/-!
What kind of word a destination is. The values of its tokens are joined in order: a key is added to
what is there, anything else replaces it. So the last mouse button or macro counts, with the keys
after it added (`foldl_join_replacing`), and without any the keys make a key. A destination calls a
macro only if one of its tokens does (`call_of_evaluate`). It is a word that its tokens mention
exactly if no key after the last button or macro changes that word (`destination_wellFormed_iff`).
-/

namespace KeyProfile

open DriverValue

/-- The value of a macro is the call of it. -/
theorem Registry.Roomy.isCall_of_macroValue? {α : Type} {r : Registry α} (h : r.Roomy) {name : Text}
    {v : Int} (hv : r.macroValue? name = some v) : IsCall v := by
  unfold macroValue? at hv
  cases hid : r.idOf? name with
  | none =>
    rw [hid] at hv
    cases hv
  | some id =>
    rw [hid] at hv
    obtain ⟨hrange, -⟩ := ofMacroId_eq_ok_iff.mp (h.ofMacroId hid)
    exact ⟨id, hrange, (Option.some_inj.mp hv).symm⟩

namespace Destination

/-- The token is a literal, well-formed or not. -/
def isLiteral (token : Text) : Bool := token.strip.startsWith "0x".toList

theorem hexBody?_isSome (token : Text) :
    (KeyToken.hexBody? token.strip).isSome = isLiteral token := by
  unfold KeyToken.hexBody? isLiteral Text.startsWith
  rw [Text.strip_strip]
  match token.strip with
  | [] => rfl
  | [_] => simp [List.isPrefixOf]
  | first :: second :: body =>
    by_cases hfirst : first = '0'
    · by_cases hsecond : second = 'x'
      · simp [hfirst, hsecond, List.isPrefixOf]
      · simp [hfirst, hsecond, List.isPrefixOf, Ne.symm hsecond]
    · simp [hfirst, List.isPrefixOf, Ne.symm hfirst]

theorem ofToken_ne_literal {token : Text} (hplain : isLiteral token = false)
    (literal : Option Int) : Part.ofToken token ≠ .literal literal := by
  intro hpart
  unfold Part.ofToken at hpart
  simp only [hexBody?_isSome, hplain, Bool.false_eq_true, if_false] at hpart
  split at hpart <;> cases hpart

theorem value?_of_part {token : Text} {symbol : Option Int}
    (hpart : Part.ofToken token = .symbol symbol) :
    symbol = SymbolTable.standard.value? token.strip := by
  unfold Part.ofToken at hpart
  dsimp only at hpart
  split at hpart
  · cases hpart
  · split at hpart
    · cases hpart
    · cases hpart
      rfl

theorem literal_of_part {token : Text} {literal : Option Int}
    (hpart : Part.ofToken token = .literal literal) :
    literal = KeyToken.hexLiteral? token.strip := by
  unfold Part.ofToken at hpart
  dsimp only at hpart
  split at hpart
  · cases hpart
    rfl
  · split at hpart <;> cases hpart

/-- The value that a token has on its own when the macros have the values given. -/
def ownValue? (valueOf : Text → Option Int) (token : Text) : Option Int :=
  match Part.ofToken token with
  | .literal literal => literal
  | .call name => name.bind valueOf
  | .symbol symbol => symbol

/-- The values that tokens have on their own. -/
def ownValues (valueOf : Text → Option Int) (tokens : List Text) : List Int :=
  tokens.filterMap (ownValue? valueOf)

/-- One value more. Keys are added to what is there; anything else replaces it. -/
def join (value own : Int) : Int := if kind own = .key then bitUnion value own else own

section Values

variable {valueOf : Text → Option Int} (hcalls : ∀ name v, valueOf name = some v → IsCall v)

include hcalls

theorem combine_eq_join {token : Text} (hplain : isLiteral token = false) (value : Int) :
    combine valueOf value token = ((ownValue? valueOf token).map (join value)).getD value := by
  unfold combine ownValue?
  cases hpart : Part.ofToken token with
  | literal literal => exact absurd hpart (ofToken_ne_literal hplain literal)
  | symbol symbol =>
    cases symbol with
    | none => rfl
    | some symbol => rfl
  | call name =>
    dsimp only
    cases hv : name.bind valueOf with
    | none => rfl
    | some v =>
      obtain ⟨called, -, hcalled⟩ := Option.bind_eq_some_iff.mp hv
      have hkind := (hcalls called v hcalled).kind_eq
      simp [join, hkind]

/-- A destination without literals comes to the values of its tokens joined in order. -/
theorem evaluate_eq_foldl_join {tokens : List Text}
    (hplain : ∀ token ∈ tokens, isLiteral token = false) :
    evaluate valueOf tokens = (ownValues valueOf tokens).foldl join 0 := by
  unfold evaluate ownValues
  generalize (0 : Int) = value
  induction tokens generalizing value with
  | nil => rfl
  | cons token tokens ih =>
    obtain ⟨hfirst, hrest⟩ := List.forall_mem_cons.mp hplain
    rw [List.foldl_cons, combine_eq_join hcalls hfirst, ih hrest]
    cases hown : ownValue? valueOf token with
    | none => rw [List.filterMap_cons_none hown]; rfl
    | some own => rw [List.filterMap_cons_some hown]; rfl

/-- What a token stands for is a key, a mouse button, or the call of a macro that it names. -/
theorem ownValue?_forms {token : Text} (hplain : isLiteral token = false) {own : Int}
    (hown : ownValue? valueOf token = some own) :
    IsKey own ∨ IsButton own ∨
      IsCall own ∧ ∃ name ∈ calledName? token, valueOf name = some own := by
  unfold ownValue? at hown
  cases hpart : Part.ofToken token with
  | literal literal => exact absurd hpart (ofToken_ne_literal hplain literal)
  | symbol symbol =>
    rw [hpart] at hown
    have hnamed := (value?_of_part hpart).symm.trans hown
    rcases SymbolTable.isKey_or_isButton_of_value? hnamed with hkey | hbutton
    · exact .inl hkey
    · exact .inr (.inl hbutton)
  | call name =>
    rw [hpart] at hown
    obtain ⟨called, rfl, hcalled⟩ := Option.bind_eq_some_iff.mp hown
    have hname : called ∈ calledName? token := by simp [calledName?, hpart]
    exact .inr (.inr ⟨hcalls called own hcalled, called, hname, hcalled⟩)

end Values

/-! Joining values. -/

theorem foldl_join_keys {keys : List Int} (hkeys : ∀ key ∈ keys, kind key = .key) (value : Int) :
    keys.foldl join value = withKeys value keys := by
  induction keys generalizing value with
  | nil => rfl
  | cons key keys ih =>
    obtain ⟨hfirst, hrest⟩ := List.forall_mem_cons.mp hkeys
    have hjoin : join value key = bitUnion value key := if_pos hfirst
    rw [List.foldl_cons, hjoin, ih hrest, withKeys_cons]

/-- The last value that is no key replaces all before it, and has the keys after it added. -/
theorem foldl_join_replacing (front : List Int) {last : Int} (hlast : kind last ≠ .key)
    {keys : List Int} (hkeys : ∀ key ∈ keys, kind key = .key) (value : Int) :
    (front ++ last :: keys).foldl join value = withKeys last keys := by
  have hjoin : join (front.foldl join value) last = last := if_neg hlast
  rw [List.foldl_append, List.foldl_cons, hjoin, foldl_join_keys hkeys]

/-- Values are keys only, or there is a last one among them that is no key. -/
theorem keys_or_replacing (values : List Int) :
    (∀ v ∈ values, kind v = .key) ∨
      ∃ front last keys, values = front ++ last :: keys ∧ kind last ≠ .key ∧
        ∀ key ∈ keys, kind key = .key := by
  induction values with
  | nil => exact .inl (by simp)
  | cons v values ih =>
    rcases ih with hkeys | ⟨front, last, keys, rfl, hlast, hkeys⟩
    · by_cases hv : kind v = .key
      · exact .inl (List.forall_mem_cons.mpr ⟨hv, hkeys⟩)
      · exact .inr ⟨[], v, values, rfl, hv, hkeys⟩
    · exact .inr ⟨v :: front, last, keys, rfl, hlast, hkeys⟩

/-- A key, a mouse button or the call of a macro. -/
def IsProper (v : Int) : Prop := IsKey v ∨ IsButton v ∨ IsCall v

theorem IsProper.isWord {v : Int} (h : IsProper v) : IsWord v := by
  rcases h with hkey | hbutton | hcall
  · exact hkey.1
  · exact hbutton.1
  · exact hcall.isWord

theorem IsProper.isKey {v : Int} (h : IsProper v) (hkind : kind v = .key) : IsKey v := by
  rcases h with hkey | hbutton | hcall
  · exact hkey
  · rw [hbutton.kind_eq] at hkind
    cases hkind
  · rw [hcall.kind_eq] at hkind
    cases hkind

theorem isWord_foldl_join {values : List Int} (hproper : ∀ v ∈ values, IsProper v) {value : Int}
    (hvalue : IsWord value) : IsWord (values.foldl join value) := by
  induction values generalizing value with
  | nil => exact hvalue
  | cons v values ih =>
    obtain ⟨hfirst, hrest⟩ := List.forall_mem_cons.mp hproper
    apply ih hrest
    unfold join
    split
    · exact hvalue.bitUnion hfirst.isWord
    · exact hfirst.isWord

/-- A macro is called by joined values only if the call itself is one of them, and nothing was added
to it. -/
theorem call_of_macroId? {values : List Int} (hproper : ∀ v ∈ values, IsProper v) {id : Int}
    (hid : macroId? (values.foldl join 0) macroIds = some id) :
    macroTag + id ∈ values ∧ values.foldl join 0 = macroTag + id := by
  have hcall : kind (values.foldl join 0) = .macroCall :=
    (isCall_of_macroId? (isWord_foldl_join hproper isWord_zero) hid).kind_eq
  rcases keys_or_replacing values with hkeys | ⟨front, last, keys, rfl, hlast, hkeys⟩
  · have hall : ∀ v ∈ values, IsKey v := by
      intro v hv
      exact (hproper v hv).isKey (hkeys v hv)
    rw [foldl_join_keys hkeys] at hcall
    exact absurd hcall (kind_withKeys_zero_ne_call hall)
  · have hall : ∀ key ∈ keys, IsKey key := by
      intro key hkey
      exact (hproper key (by simp [hkey])).isKey (hkeys key hkey)
    rw [foldl_join_replacing front hlast hkeys] at hid hcall ⊢
    rcases hproper last (by simp) with hkey | hbutton | hown
    · exact absurd hkey.kind_eq hlast
    · exact absurd hcall (kind_withKeys_button_ne_call hbutton hall)
    · obtain ⟨hsame, hword⟩ := macroId?_withKeys_call hown hall hid
      rw [hsame, ← hword]
      exact ⟨by simp, rfl⟩

/-- A word that the values joined into it mention: it has the kind of one of them. The call of a
macro has the id of a call among them, a mouse button is one of them, and a key has no usage code or
that of a key among them. -/
structure WellFormed (values : List Int) (v : Int) : Prop where
  assigned : kind v ≠ .unassigned
  kind : ∃ own ∈ values, DriverValue.kind own = DriverValue.kind v
  call : DriverValue.kind v = .macroCall → ∃ own ∈ values, DriverValue.kind own = .macroCall ∧
    ∃ id, macroId? own macroIds = some id ∧ macroId? v macroIds = some id
  button : DriverValue.kind v = .mouse → v ∈ values
  key : DriverValue.kind v = .key → usage v = 0 ∨
    ∃ own ∈ values, DriverValue.kind own = .key ∧ usage own = usage v

/-- No key after the last button or macro changes it, and keys without any are together one of
them, or modifiers alone. -/
structure Orderly (values : List Int) : Prop where
  replacing : ∀ front last keys, values = front ++ last :: keys → kind last ≠ .key →
    (∀ key ∈ keys, kind key = .key) → ∀ key ∈ keys, bitUnion last key = last
  keys : (∀ v ∈ values, kind v = .key) →
    (values.map usage).foldl bitUnion 0 = 0 ∨
      (values.map usage).foldl bitUnion 0 ∈ values.map usage

/-- Keys alone make a well-formed word exactly if their usage codes come to one of theirs, or none
has any. -/
theorem wellFormed_keys_iff {values : List Int} (hne : values ≠ [])
    (hkeys : ∀ v ∈ values, IsKey v) :
    WellFormed values (withKeys 0 values) ↔
      (values.map usage).foldl bitUnion 0 = 0 ∨
        (values.map usage).foldl bitUnion 0 ∈ values.map usage := by
  have hkind := (isKey_withKeys_zero hne hkeys).kind_eq
  have husage : usage (withKeys 0 values) = (values.map usage).foldl bitUnion 0 :=
    usage_withKeys isWord_zero hkeys
  rw [← husage]
  constructor
  · intro h
    rcases h.key hkind with hnone | ⟨own, hown, -, hsame⟩
    · exact .inl hnone
    · exact .inr (hsame ▸ List.mem_map_of_mem hown)
  · intro h
    obtain ⟨own, hown⟩ := List.exists_mem_of_ne_nil values hne
    refine ⟨by simp [hkind], ⟨own, hown, (hkeys own hown).kind_eq.trans hkind.symm⟩, ?_, ?_, ?_⟩
    · intro hcall
      rw [hkind] at hcall
      cases hcall
    · intro hbutton
      rw [hkind] at hbutton
      cases hbutton
    · intro _
      rcases h with hnone | hmem
      · exact .inl hnone
      · obtain ⟨own, hown, hsame⟩ := List.mem_map.mp hmem
        exact .inr ⟨own, hown, (hkeys own hown).kind_eq, hsame⟩

/-- A button or a call is a well-formed word, being one of the values. -/
theorem wellFormed_of_mem {values : List Int} {v : Int} (hv : IsProper v) (hnot : kind v ≠ .key)
    (hmem : v ∈ values) : WellFormed values v := by
  refine ⟨?_, ⟨v, hmem, rfl⟩, ?_, fun _ => hmem, fun hkey => absurd hkey hnot⟩
  · rcases hv with hkey | hbutton | hcall
    · simp [hkey.kind_eq]
    · simp [hbutton.kind_eq]
    · simp [hcall.kind_eq]
  · intro hkind
    rcases hv with hkey | hbutton | hcall
    · exact absurd hkey.kind_eq hnot
    · rw [hbutton.kind_eq] at hkind
      cases hkind
    · obtain ⟨id, hid, -⟩ := hcall.macroId?_eq
      exact ⟨v, hmem, hkind, id, hid, hid⟩

/-- Keys after a button or a call leave a well-formed word exactly if they change nothing. -/
theorem wellFormed_replacing_iff {front keys : List Int} {last : Int} (hlast : IsProper last)
    (hnot : kind last ≠ .key) (hkeys : ∀ key ∈ keys, IsKey key) :
    WellFormed (front ++ last :: keys) (withKeys last keys) ↔
      ∀ key ∈ keys, bitUnion last key = last := by
  rw [← withKeys_eq_self_iff hlast.isWord hkeys]
  constructor
  · intro h
    rcases hlast with hkey | hbutton | hcall
    · exact absurd hkey.kind_eq hnot
    · -- a key after a button would have left a word of no kind
      rcases List.eq_nil_or_concat keys with rfl | ⟨first, key, rfl⟩
      · rfl
      · exact absurd (kind_withKeys_button hbutton (by simp) hkeys) h.assigned
    · obtain ⟨-, -, -, id, -, hid⟩ := h.call (kind_withKeys_call hcall hkeys)
      exact (macroId?_withKeys_call hcall hkeys hid).1
  · intro hsame
    rw [hsame]
    exact wellFormed_of_mem hlast hnot (by simp)

/-- Joined values make a well-formed word exactly if they are orderly. -/
theorem wellFormed_iff {values : List Int} (hproper : ∀ v ∈ values, IsProper v)
    (hne : values ≠ []) : WellFormed values (values.foldl join 0) ↔ Orderly values := by
  have hreplacing : ∀ front last keys, values = front ++ last :: keys → kind last ≠ .key →
      (∀ key ∈ keys, kind key = .key) →
      (WellFormed values (values.foldl join 0) ↔ ∀ key ∈ keys, bitUnion last key = last) := by
    rintro front last keys rfl hnot hkeys
    have hall : ∀ key ∈ keys, IsKey key := by
      intro key hkey
      exact (hproper key (by simp [hkey])).isKey (hkeys key hkey)
    rw [foldl_join_replacing front hnot hkeys]
    exact wellFormed_replacing_iff (hproper last (by simp)) hnot hall
  have hjoined : (∀ v ∈ values, kind v = .key) →
      (WellFormed values (values.foldl join 0) ↔ (values.map usage).foldl bitUnion 0 = 0 ∨
        (values.map usage).foldl bitUnion 0 ∈ values.map usage) := by
    intro hkeys
    rw [foldl_join_keys hkeys]
    exact wellFormed_keys_iff hne fun v hv => (hproper v hv).isKey (hkeys v hv)
  constructor
  · intro h
    refine ⟨?_, fun hkeys => (hjoined hkeys).mp h⟩
    intro front last keys hsplit hnot hkeys
    exact (hreplacing front last keys hsplit hnot hkeys).mp h
  · intro h
    rcases keys_or_replacing values with hkeys | ⟨front, last, keys, hsplit, hnot, hkeys⟩
    · exact (hjoined hkeys).mpr (h.keys hkeys)
    · exact (hreplacing front last keys hsplit hnot hkeys).mpr
        (h.replacing front last keys hsplit hnot hkeys)

/-- What tokens have on their own is proper. -/
theorem isProper_ownValues {valueOf : Text → Option Int}
    (hcalls : ∀ name v, valueOf name = some v → IsCall v) {tokens : List Text}
    (hplain : ∀ token ∈ tokens, isLiteral token = false) :
    ∀ v ∈ ownValues valueOf tokens, IsProper v := by
  intro v hv
  obtain ⟨token, htoken, hown⟩ := List.mem_filterMap.mp hv
  rcases ownValue?_forms hcalls (hplain token htoken) hown with hkey | hbutton | ⟨hcall, -⟩
  · exact .inl hkey
  · exact .inr (.inl hbutton)
  · exact .inr (.inr hcall)

/-- A destination without literals runs a macro only if one of its tokens calls that macro by name.
No keys, buttons and other calls come to it together. -/
theorem call_of_evaluate {valueOf : Text → Option Int}
    (hcalls : ∀ name v, valueOf name = some v → IsCall v) {tokens : List Text}
    (hplain : ∀ token ∈ tokens, isLiteral token = false) {id : Int}
    (hid : macroId? (evaluate valueOf tokens) macroIds = some id) :
    evaluate valueOf tokens = macroTag + id ∧
      ∃ name ∈ calledNames tokens, valueOf name = some (macroTag + id) := by
  have hproper := isProper_ownValues hcalls hplain
  rw [evaluate_eq_foldl_join hcalls hplain] at hid ⊢
  obtain ⟨hmem, hword⟩ := call_of_macroId? hproper hid
  have hcall : kind (macroTag + id) = .macroCall := by
    rw [← hword]
    exact (isCall_of_macroId? (isWord_foldl_join hproper isWord_zero) hid).kind_eq
  obtain ⟨token, htoken, hown⟩ := List.mem_filterMap.mp hmem
  rcases ownValue?_forms hcalls (hplain token htoken) hown with
    hkey | hbutton | ⟨-, name, hname, hvalue⟩
  · rw [hkey.kind_eq] at hcall
    cases hcall
  · rw [hbutton.kind_eq] at hcall
    cases hcall
  · exact ⟨hword, name, List.mem_filterMap.mpr ⟨token, htoken, hname⟩, hvalue⟩

/-- When a destination is a word that its tokens mention. Each token has a value: it is a symbol, or
it calls a macro that gets an id. The destination is then well-formed exactly if no key after the
last button or call changes that one, and keys alone have the usage code of one of them or none. -/
theorem destination_wellFormed_iff {r : Registry Macro} (h : r.Roomy) (key : Int)
    {tokens : List Text} (hne : tokens ≠ [])
    (htokens : ∀ token ∈ tokens, isLiteral token = false ∧
      (ownValue? (r.refer (calledNames tokens)).macroValue? token).isSome = true) :
    ∃ d, ofTokens r key tokens = .ok d ∧
      (WellFormed (ownValues d.registry.macroValue? tokens) d.value ↔
        Orderly (ownValues d.registry.macroValue? tokens)) := by
  refine ⟨_, ofTokens_eq h key tokens, ?_⟩
  have hcalls : ∀ name v, (r.refer (calledNames tokens)).macroValue? name = some v → IsCall v := by
    intro name v hv
    exact (h.refer _).isCall_of_macroValue? hv
  have hplain : ∀ token ∈ tokens, isLiteral token = false := by
    intro token htoken
    exact (htokens token htoken).1
  have hsome : ownValues (r.refer (calledNames tokens)).macroValue? tokens ≠ [] := by
    obtain ⟨token, htoken⟩ := List.exists_mem_of_ne_nil tokens hne
    obtain ⟨own, hown⟩ := Option.isSome_iff_exists.mp (htokens token htoken).2
    exact List.ne_nil_of_mem (List.mem_filterMap.mpr ⟨token, htoken, hown⟩)
  change WellFormed _ (evaluate _ tokens) ↔ _
  rw [evaluate_eq_foldl_join hcalls hplain]
  exact wellFormed_iff (isProper_ownValues hcalls hplain) hsome

/-- A modifier before the call of a macro goes away, and the call is left. -/
theorem destination_wellFormed_copy :
    let r := ({ limit := some macroIds } : Registry Macro).add "Copy".toList
      { name := "Copy".toList }
    ∃ d, ofTokens r 0x02003A00 ["LCtrl".toList, "Macro(Copy)".toList] = .ok d ∧
      WellFormed [0x02010000, macroTag] d.value := by
  intro r
  have hroomy : r.Roomy := ⟨(Registry.sound_empty _).add _ _, rfl⟩
  have htokens : ∀ token ∈ ["LCtrl".toList, "Macro(Copy)".toList], isLiteral token = false ∧
      (ownValue? (r.refer (calledNames ["LCtrl".toList, "Macro(Copy)".toList])).macroValue?
        token).isSome = true := by
    decide +kernel
  have hvalues : ownValues
      (r.refer (calledNames ["LCtrl".toList, "Macro(Copy)".toList])).macroValue?
      ["LCtrl".toList, "Macro(Copy)".toList] = [0x02010000, macroTag] := by
    decide +kernel
  obtain ⟨d, hd, hiff⟩ := destination_wellFormed_iff hroomy 0x02003A00 (by simp) htokens
  have hregistry : d.registry =
      r.refer (calledNames ["LCtrl".toList, "Macro(Copy)".toList]) := by
    rw [ofTokens_eq hroomy] at hd
    cases hd
    rfl
  rw [hregistry, hvalues] at hiff
  refine ⟨d, hd, hiff.mpr ⟨?_, ?_⟩⟩
  · intro front last keys hsplit hnot _
    match front with
    | [] =>
      cases hsplit
      exact absurd (by decide) hnot
    | [_] =>
      cases hsplit
      simp
    | _ :: _ :: _ => simp at hsplit
  · intro hkeys
    exact absurd (hkeys macroTag (by simp)) (by decide)

/-- Not every destination is well-formed: a modifier after a button makes a word of no kind. -/
theorem button_then_modifier :
    ¬∀ (r : Registry Macro), r.Roomy → ∀ (key : Int) (tokens : List Text), tokens ≠ [] →
      (∀ token ∈ tokens, isLiteral token = false ∧
        (ownValue? (r.refer (calledNames tokens)).macroValue? token).isSome = true) →
      ∃ d, ofTokens r key tokens = .ok d ∧
        WellFormed (ownValues d.registry.macroValue? tokens) d.value := by
  intro hall
  obtain ⟨d, hd, hformed⟩ := hall { limit := some macroIds } ⟨Registry.sound_empty _, rfl⟩
    0x02003A00 ["MouseRClick".toList, "LCtrl".toList] (by simp) (by decide +kernel)
  have hvalue : (ofTokens ({ limit := some macroIds } : Registry Macro) 0x02003A00
      ["MouseRClick".toList, "LCtrl".toList]).toOption.map (·.value) = some 0x03010002 := by
    decide +kernel
  rw [hd] at hvalue
  have hword : d.value = 0x03010002 := Option.some_inj.mp hvalue
  apply hformed.assigned
  rw [hword]
  decide

end Destination

end KeyProfile

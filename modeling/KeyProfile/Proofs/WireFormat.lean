import KeyProfile.Proofs.BoundMacros
import KeyProfile.Proofs.KeptFacts

/-!
Everything in a profile fits the fields in which it is sent to a keyboard: keys and destinations are
words, delays have 16 bits, counts and ids 8, and an action is on one button, one modifier or one
key. Numbers in a text have no bound, so every statement that writes one has to keep it
(`Compilation.fitsWire_kept`).
-/

namespace KeyProfile

open DriverValue

/-- What an action is on. -/
inductive MacroAction.Target where
  | button (b : MouseButton)
  | modifier (m : Modifier)
  | key (usage : Int)

namespace MacroAction

/-- The fields of the action say this target and nothing else. -/
def On (a : MacroAction) : Target → Prop
  | .button b => a.kind = .mouse ∧ a.code = b.bit ∧ a.modifiers = 0
  | .modifier m => a.kind = .key ∧ a.code = 0 ∧ a.modifiers = m.bit
  | .key usage => a.kind = .key ∧ a.code = usage ∧ (1 ≤ usage ∧ usage ≤ 0xFF) ∧ a.modifiers = 0

structure FitsWire (a : MacroAction) : Prop where
  delay : 0 ≤ a.delay ∧ a.delay ≤ 0xFFFF
  target : ∃! target, a.On target

end MacroAction

/-- The settings of a macro have a delay of 16 bits and a count from 1 to 255. -/
structure MacroSettings.FitsWire (s : MacroSettings) : Prop where
  defaultDelay : 0 ≤ s.defaultDelay ∧ s.defaultDelay ≤ 0xFFFF
  repeatCount : 1 ≤ s.repeatCount ∧ s.repeatCount ≤ 0xFF

structure Macro.FitsWire (m : Macro) : Prop where
  settings : m.settings.FitsWire
  id : ∀ id, m.id = some id → 0 ≤ id ∧ id ≤ 0xFF
  actions : ∀ a ∈ m.actions, a.FitsWire

/-- Keys and destinations are words, and zero is no key. -/
def KeyTable.FitsWire (t : KeyTable) : Prop :=
  ∀ key v, t.get? key = some v → (1 ≤ key ∧ key ≤ 0xFFFFFFFF) ∧ (0 ≤ v ∧ v ≤ 0xFFFFFFFF)

structure Profile.FitsWire (p : Profile) : Prop where
  tables : ∀ ref table, p.tables.get? ref = some table → table.FitsWire
  macros : ∀ m ∈ p.macros.values, m.FitsWire

/-! Numbers read from text. -/

namespace KeyToken

theorem decimalWithin?_bounds {least greatest n : Int} {t : Text}
    (h : decimalWithin? least greatest t = some n) : least ≤ n ∧ n ≤ greatest := by
  obtain ⟨m, -, hm⟩ := Option.bind_eq_some_iff.mp h
  split at hm
  · next hrange =>
    cases hm
    exact hrange
  · cases hm

theorem hexWord?_isWord {t : Text} {v : Int} (h : hexWord? t = some v) : IsWord v := by
  obtain ⟨n, -, hn⟩ := Option.bind_eq_some_iff.mp h
  split at hn
  · next hrange =>
    cases hn
    unfold IsWord
    omega
  · cases hn

theorem hexLiteral?_isWord {t : Text} {v : Int} (h : hexLiteral? t = some v) : IsWord v := by
  obtain ⟨body, -, hbody⟩ := Option.bind_eq_some_iff.mp h
  exact hexWord?_isWord hbody

theorem value?_isWord {name : Text} {v : Int} (h : SymbolTable.standard.value? name = some v) :
    IsWord v := by
  rcases SymbolTable.isKey_or_isButton_of_value? h with hkey | hbutton
  · exact hkey.1
  · exact hbutton.1

theorem driverValue?_isWord {t : Text} {v : Int} (h : driverValue? t = some v) : IsWord v := by
  unfold driverValue? at h
  split at h
  · exact hexWord?_isWord h
  · exact value?_isWord h

end KeyToken

theorem isWord_sourceOf (tokens : List Text) : IsWord (sourceOf tokens) := by
  unfold sourceOf
  induction tokens using List.reverseRecOn with
  | nil => exact isWord_zero
  | append_singleton tokens token ih =>
    rw [List.foldl_append, List.foldl_cons, List.foldl_nil]
    cases hv : KeyToken.driverValue? token with
    | none => exact ih
    | some v => exact KeyToken.driverValue?_isWord hv

/-- The key of a binding is a word other than zero. -/
theorem Binding.isWord_key {line : Text} {b : Binding} (h : Binding.ofLine? line = some b) :
    IsWord b.key := by
  unfold Binding.ofLine? at h
  split at h
  · split at h
    · cases h
    · cases h
      exact isWord_sourceOf _
  · cases h

namespace Destination

variable {valueOf : Text → Option Int} (hcalls : ∀ name v, valueOf name = some v → IsCall v)

include hcalls

theorem isWord_combine {value : Int} (hvalue : IsWord value) (token : Text) :
    IsWord (combine valueOf value token) := by
  unfold combine
  cases hpart : Part.ofToken token with
  | literal literal =>
    cases literal with
    | none => exact hvalue
    | some v => exact KeyToken.hexLiteral?_isWord (literal_of_part hpart).symm
  | call name =>
    dsimp only
    cases hv : name.bind valueOf with
    | none => exact hvalue
    | some v =>
      obtain ⟨called, -, hcalled⟩ := Option.bind_eq_some_iff.mp hv
      exact (hcalls called v hcalled).isWord
  | symbol symbol =>
    cases symbol with
    | none => exact hvalue
    | some v =>
      have hv := KeyToken.value?_isWord (value?_of_part hpart).symm
      dsimp only
      split
      · exact hvalue.bitUnion hv
      · exact hv

/-- Whatever the tokens are, literals among them, what they come to is a word. -/
theorem isWord_evaluate (tokens : List Text) : IsWord (evaluate valueOf tokens) := by
  unfold evaluate
  induction tokens using List.reverseRecOn with
  | nil => exact isWord_zero
  | append_singleton tokens token ih =>
    rw [List.foldl_append, List.foldl_cons, List.foldl_nil]
    exact isWord_combine hcalls ih token

end Destination

/-! Actions and settings. -/

theorem MouseButton.bit_inj {b c : MouseButton} : b.bit = c.bit → b = c := by
  cases b <;> cases c <;> decide

theorem Modifier.bit_inj {m n : Modifier} : m.bit = n.bit → m = n := by
  cases m <;> cases n <;> decide

theorem Modifier.bit_ne_zero (m : Modifier) : m.bit ≠ 0 := by
  cases m <;> decide

namespace MacroAction

/-- An action is on one thing only. -/
theorem On.unique {a : MacroAction} {target other : Target} (h : a.On target) (h' : a.On other) :
    target = other := by
  cases target with
  | button b =>
    obtain ⟨hkind, hcode, -⟩ := h
    cases other with
    | button c => rw [MouseButton.bit_inj (hcode.symm.trans h'.2.1)]
    | modifier m => exact absurd (hkind.symm.trans h'.1) (by decide)
    | key usage => exact absurd (hkind.symm.trans h'.1) (by decide)
  | modifier m =>
    obtain ⟨hkind, hcode, hmodifiers⟩ := h
    cases other with
    | button c => exact absurd (hkind.symm.trans h'.1) (by decide)
    | modifier n => rw [Modifier.bit_inj (hmodifiers.symm.trans h'.2.2)]
    | key usage => exact absurd (hmodifiers.symm.trans h'.2.2.2) m.bit_ne_zero
  | key usage =>
    obtain ⟨hkind, hcode, -, hmodifiers⟩ := h
    cases other with
    | button c => exact absurd (hkind.symm.trans h'.1) (by decide)
    | modifier m => exact absurd (h'.2.2.symm.trans hmodifiers) m.bit_ne_zero
    | key other => rw [hcode.symm.trans h'.2.1]

theorem On.fitsWire {a : MacroAction} (target : Target) (h : a.On target)
    (hdelay : 0 ≤ a.delay ∧ a.delay ≤ 0xFFFF) : a.FitsWire where
  delay := hdelay
  target := ⟨target, h, fun _ h' => h'.unique h⟩

/-- Waiting longer or shorter does not change what an action is on. -/
theorem FitsWire.withDelay {a : MacroAction} (h : a.FitsWire) {delay : Int}
    (hdelay : 0 ≤ delay ∧ delay ≤ 0xFFFF) : FitsWire { a with delay } := by
  obtain ⟨target, hon, -⟩ := h.target
  have hstill : On { a with delay } target := by
    cases target <;> exact hon
  exact hstill.fitsWire target hdelay

end MacroAction

/-- The fields that a symbol gives to actions: one modifier, one button, or a usage code. -/
structure Symbol.Playable (s : Symbol) : Prop where
  modifier : ∀ bits ∈ s.modifier, ∃ m ∈ Modifier.all, bits = m.bit
  key : s.modifier = none → s.button = none → 1 ≤ usage s.value ∧ usage s.value ≤ 0xFF

theorem Symbol.playable_of_mem_standard {s : Symbol} (hs : s ∈ Symbol.standard) : s.Playable := by
  have hmodifier : ∀ s ∈ Symbol.standard, ∀ bits ∈ s.modifier,
      ∃ m ∈ Modifier.all, bits = m.bit := by
    decide +kernel
  have hkey : ∀ s ∈ Symbol.standard, s.modifier = none → s.button = none →
      1 ≤ usage s.value ∧ usage s.value ≤ 0xFF := by
    decide +kernel
  exact ⟨hmodifier s hs, hkey s hs⟩

namespace MacroLine

/-- Before a line waits, its actions have no delay, and each is on one thing. -/
theorem fitsWire_action? {state : KeyState} {token : Text} {a : MacroAction}
    (h : action? state token = some a) : a.FitsWire := by
  obtain ⟨s, hfind, rfl⟩ := Option.map_eq_some_iff.mp h
  have hs := Symbol.playable_of_mem_standard (SymbolTable.mem_standard_of_find? hfind).1
  have hzero : (0 : Int) ≤ 0 ∧ (0 : Int) ≤ 0xFFFF := by decide
  cases hmodifier : s.modifier with
  | some bits =>
    obtain ⟨m, -, rfl⟩ := hs.modifier bits hmodifier
    exact MacroAction.On.fitsWire (.modifier m) ⟨rfl, rfl, rfl⟩ hzero
  | none =>
    cases hbutton : s.button with
    | some b => exact MacroAction.On.fitsWire (.button b) ⟨rfl, rfl, rfl⟩ hzero
    | none =>
      have hkey := hs.key hmodifier hbutton
      exact MacroAction.On.fitsWire (.key (usage s.value)) ⟨rfl, rfl, hkey, rfl⟩ hzero

theorem fitsWire_actions {states : List KeyState} {tokens : List Text} :
    ∀ a ∈ actions states tokens, a.FitsWire := by
  intro a ha
  obtain ⟨state, -, hstate⟩ := List.mem_flatMap.mp ha
  obtain ⟨token, -, htoken⟩ := List.mem_filterMap.mp hstate
  exact fitsWire_action? htoken

theorem fitsWire_waitAfter {delay : Int} (hdelay : 0 ≤ delay ∧ delay ≤ 0xFFFF)
    {as : List MacroAction} (h : ∀ a ∈ as, a.FitsWire) : ∀ a ∈ waitAfter delay as, a.FitsWire := by
  induction as with
  | nil => exact h
  | cons first rest ih =>
    obtain ⟨hfirst, hrest⟩ := List.forall_mem_cons.mp h
    cases rest with
    | nil => exact List.forall_mem_singleton.mpr (hfirst.withDelay hdelay)
    | cons second rest => exact List.forall_mem_cons.mpr ⟨hfirst, ih hrest⟩

theorem delayOf_bounds {defaultDelay : Int} (h : 0 ≤ defaultDelay ∧ defaultDelay ≤ 0xFFFF)
    (field : Option Text) :
    0 ≤ delayOf defaultDelay field ∧ delayOf defaultDelay field ≤ 0xFFFF := by
  unfold delayOf
  cases hread : field.bind (KeyToken.decimalWithin? 0 MacroSettings.maxDelay) with
  | none => exact h
  | some delay =>
    obtain ⟨text, -, hdelay⟩ := Option.bind_eq_some_iff.mp hread
    exact KeyToken.decimalWithin?_bounds hdelay

theorem fitsWire_expandLine {defaultDelay : Int} (h : 0 ≤ defaultDelay ∧ defaultDelay ≤ 0xFFFF)
    (line : Text) : ∀ a ∈ expandLine defaultDelay line, a.FitsWire := by
  unfold expandLine
  split
  · split
    · exact fitsWire_waitAfter (delayOf_bounds h _) fitsWire_actions
    · exact List.forall_mem_nil _
  · exact List.forall_mem_nil _

end MacroLine

namespace MacroSettings

/-- Whatever the arguments of a header are, the settings fit. -/
theorem fitsWire_ofArguments (arguments : List Text) : (ofArguments arguments).FitsWire where
  defaultDelay := by
    unfold ofArguments
    dsimp only
    split
    · next t _ =>
      cases hread : KeyToken.decimalWithin? 0 maxDelay t with
      | none => decide
      | some delay => exact KeyToken.decimalWithin?_bounds hread
    · decide
  repeatCount := by
    unfold ofArguments
    dsimp only
    split
    · next t _ =>
      cases hread : KeyToken.decimalWithin? 0 maxCount t with
      | none => decide
      | some count =>
        have hrange := KeyToken.decimalWithin?_bounds hread
        simp only [Option.getD_some]
        split <;> simp only [maxCount] at * <;> omega
    · decide

end MacroSettings

/-! What a compilation keeps. -/

namespace KeyTable

theorem FitsWire.empty : FitsWire ∅ := by
  intro key v h
  rw [OrderedMap.get?_empty] at h
  cases h

theorem FitsWire.bind {t : KeyTable} (h : t.FitsWire) {key v : Int} (hkey : IsWord key)
    (hv : IsWord v) : (t.bind key v).FitsWire := by
  unfold KeyTable.bind
  split
  · exact h
  · next hne =>
    intro other value hget
    rw [OrderedMap.get?_insert] at hget
    split at hget
    · next hsame =>
      cases hget
      unfold IsWord at hkey hv
      omega
    · exact h other value hget

end KeyTable

/-- All tables fit. -/
def KeyTables.FitsWire (tables : KeyTables) : Prop :=
  ∀ ref table, tables.get? ref = some table → table.FitsWire

namespace KeyTables

theorem FitsWire.getD {tables : KeyTables} (h : tables.FitsWire) (ref : TableRef) :
    KeyTable.FitsWire ((tables.get? ref).getD ∅) := by
  cases htable : tables.get? ref with
  | none => exact KeyTable.FitsWire.empty
  | some table => exact h ref table htable

theorem FitsWire.foldl_ensure {tables : KeyTables} (h : tables.FitsWire) (refs : List TableRef) :
    (refs.foldl ensure tables).FitsWire := by
  intro ref table hget
  rw [get?_foldl_ensure] at hget
  split at hget
  · cases hget
    exact h.getD ref
  · exact h ref table hget

theorem FitsWire.foldl_bind {tables : KeyTables} (h : tables.FitsWire) (refs : List TableRef)
    {key v : Int} (hkey : IsWord key) (hv : IsWord v) :
    (refs.foldl (fun t ref => t.bind ref key v) tables).FitsWire := by
  induction refs generalizing tables with
  | nil => exact h
  | cons first refs ih =>
    apply ih
    intro ref table hget
    rw [get?_bind] at hget
    split at hget
    · cases hget
      exact (h.getD first).bind hkey hv
    · exact h ref table hget

end KeyTables

namespace Compilation

/-- The tables fit, and so do the macros that are defined. -/
structure FitsWire (c : Compilation) : Prop where
  tables : c.tables.FitsWire
  macros : ∀ name m, c.macros.items.get? name = some m → m.FitsWire

theorem FitsWire.bindLine {c : Compilation} (h : c.FitsWire) (hsound : c.Sound)
    (tables : List TableRef) (line : Text) : (c.bindLine tables line).FitsWire := by
  unfold Compilation.bindLine
  cases hread : Binding.ofLine? line with
  | none => exact h
  | some b =>
    have hcalls : ∀ name v, (c.macros.refer b.calls).macroValue? name = some v → IsCall v := by
      intro name v hv
      exact (hsound.macros.refer b.calls).isCall_of_macroValue? hv
    refine ⟨?_, ?_⟩
    · apply h.tables.foldl_bind
      · exact Binding.isWord_key hread
      · exact Destination.isWord_evaluate hcalls b.tokens
    · simpa only [bindIn, Registry.items_refer] using h.macros

theorem FitsWire.actLine {c : Compilation} (h : c.FitsWire) (opened line : Text) :
    (c.actLine opened line).FitsWire := by
  have htables : (c.actLine opened line).tables = c.tables :=
    (foldl_actLine_frame c opened [line]).1
  refine ⟨htables ▸ h.tables, ?_⟩
  intro name m hm
  rw [get?_actLine] at hm
  split at hm
  · obtain ⟨before, hbefore, rfl⟩ := Option.map_eq_some_iff.mp hm
    have hfits := h.macros name before hbefore
    refine ⟨hfits.settings, hfits.id, ?_⟩
    intro a ha
    rcases List.mem_append.mp ha with hold | hnew
    · exact hfits.actions a hold
    · exact MacroLine.fitsWire_expandLine hfits.settings.defaultDelay line a hnew
  · exact h.macros name m hm

theorem FitsWire.defineMacro {c : Compilation} (h : c.FitsWire) (opened : Text)
    (arguments : List Text) :
    FitsWire { c with macros := defineMacro c.macros opened arguments } := by
  refine ⟨h.tables, ?_⟩
  intro name m hm
  simp only [Compilation.defineMacro, OrderedMap.get?_modify, OrderedMap.get?_insertNew] at hm
  split at hm
  · next hname =>
    subst hname
    cases hm
    have hsettings := MacroSettings.fitsWire_ofArguments arguments
    cases hbefore : c.macros.items.get? name with
    | none =>
      refine ⟨hsettings, ?_, List.forall_mem_nil _⟩
      intro id hid
      cases hid
    | some before =>
      have hfits := h.macros name before hbefore
      exact ⟨hsettings, hfits.id, hfits.actions⟩
  · exact h.macros name m hm

theorem FitsWire.enter {c : Compilation} (h : c.FitsWire) (ws : Workspace) (topic : Topic) :
    (c.enter ws topic).FitsWire := by
  cases topic with
  | nothing => exact h
  | keys tables => exact ⟨h.tables.foldl_ensure tables, h.macros⟩
  | actions name arguments => exact h.defineMacro name arguments
  | lighting name layers =>
    change (c.light ws name layers).FitsWire
    refine ⟨?_, ?_⟩
    · rw [tables_light]
      exact h.tables
    · rw [macros_light]
      exact h.macros

theorem FitsWire.fillLine {c : Compilation} (h : c.FitsWire) (hsound : c.Sound) (topic : Topic)
    (line : Text) : (c.fillLine topic line).FitsWire := by
  cases topic with
  | nothing => exact h
  | keys tables => exact h.bindLine hsound tables line
  | actions name arguments => exact h.actLine name line
  | lighting name layers => exact h

/-- The ids that a finalization hands out have eight bits. -/
theorem FitsWire.published {c : Compilation} (h : c.FitsWire) (hsound : c.Sound) :
    c.published.FitsWire := by
  refine ⟨h.tables, ?_⟩
  intro name m hm
  have hm : (c.macros.items.mapValues fun name m =>
    { m with id := (c.macros.idOf? name).map Int.ofNat }).get? name = some m := hm
  rw [OrderedMap.get?_mapValues] at hm
  obtain ⟨before, hbefore, rfl⟩ := Option.map_eq_some_iff.mp hm
  have hfits := h.macros name before hbefore
  refine ⟨hfits.settings, ?_, hfits.actions⟩
  intro id hid
  obtain ⟨place, hplace, rfl⟩ := Option.map_eq_some_iff.mp hid
  obtain ⟨hin, rfl⟩ := (Registry.idOf?_eq_some_iff ..).mp hplace
  have hlt := List.idxOf_lt_length_iff.mpr hin
  have hroom := hsound.length_referenced
  simp only [Int.ofNat_eq_natCast]
  omega

/-- Nothing that a text says makes a compilation hold what does not fit. -/
theorem fitsWire_kept (ws : Workspace) : Kept ws FitsWire where
  start := by
    refine ⟨?_, ?_⟩
    · intro ref table hget
      rw [KeyTables.get?_start] at hget
      cases hget
    · intro name m hm
      rw [OrderedMap.get?_empty] at hm
      cases hm
  framed := fun _ _ _ h => ⟨h.tables, h.macros⟩
  record := fun _ _ h => ⟨h.tables, h.macros⟩
  enter := fun _ topic _ h => h.enter ws topic
  fillLine := fun _ topic line hsound h => h.fillLine hsound topic line
  reference := by
    intro c name _ h
    refine ⟨h.tables, ?_⟩
    simpa only [Registry.items_reference] using h.macros
  published := fun _ hsound h => h.published hsound

/-- What is shown of a compilation that fits does so too. -/
theorem FitsWire.profile {c : Compilation} (h : c.FitsWire) : c.profile.FitsWire where
  tables := h.tables
  macros := by
    intro m hm
    have hall : m ∈ c.macros.items.values := by
      unfold Compilation.profile OrderedMap.take OrderedMap.values at hm
      rw [List.map_take] at hm
      exact List.mem_of_mem_take hm
    obtain ⟨name, hget⟩ := (OrderedMap.mem_values_iff _ _).mp hall
    exact h.macros name m hget

end Compilation

/-- Everything in a compiled profile fits the wire format, for every keyboard, whatever the lines
and the effect files are, and whatever the compilation was asked for before. Keys are words other
than zero and their destinations are words. Macros have a delay of 16 bits, a count from 1 to 255
and no id or one of 8 bits. Each of their actions has a delay of 16 bits and is on one mouse button,
one modifier or one key, and on nothing else. -/
theorem compiled_profile_fits (ws : Workspace) (earlier : List Request) (lines : List Text) :
    ∃ before c, Request.runAll ws earlier = .ok before ∧
      Compilation.compile ws lines before = .ok c ∧ c.profile.FitsWire := by
  have hkept := Compilation.fitsWire_kept ws
  obtain ⟨before, hrun, hsound, hbefore⟩ := hkept.runAll earlier
  obtain ⟨c, hcompile, -, hfits⟩ := hkept.compile hsound hbefore lines
  exact ⟨before, c, hrun, hcompile, hfits.profile⟩

end KeyProfile

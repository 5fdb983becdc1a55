import KeyProfile.OrderedMap
import KeyProfile.Symbol.Table
import Mathlib.Tactic

/-!
What a table of symbols keeps over a history of registrations, some of them in vain. A registration
grants a symbol its names up to the first that is taken or repeated (`register_outcome`), and adds
the symbol to those that name values only if there is none. So an exact name belongs to the attempt
that was granted it, a value is named by the first attempt that succeeded with it, and in any case
the last attempt wins. Main statement: `names_never_rebound`.
-/

namespace KeyProfile.SymbolTable

/-- The symbol that a value is named by. -/
def entryOf? (table : SymbolTable) (value : Int) : Option Symbol :=
  table.symbols.find? (·.value = value)

theorem nameOf_eq (table : SymbolTable) (value : Int) :
    table.nameOf value = ((table.entryOf? value).map Symbol.name).getD (Text.hexWord 8 value) := by
  rw [nameOf, entryOf?]
  cases table.symbols.find? (·.value = value) <;> rfl

/-! One registration. -/

/-- Names that can all be claimed, one after another. -/
structure Free (table : SymbolTable) (names : List Text) : Prop where
  distinct : names.Nodup
  untaken : ∀ name ∈ names, table.isTaken name = false

/-- The first of some names that cannot be claimed, and those before it. -/
structure ClashesAt (table : SymbolTable) (names before : List Text) (clash : Text) : Prop where
  split : ∃ after, names = before ++ clash :: after
  free : table.Free before
  taken : table.isTaken clash = true ∨ clash ∈ before

theorem free_or_clashes (table : SymbolTable) (names : List Text) :
    table.Free names ∨ ∃ before clash, table.ClashesAt names before clash := by
  induction names using List.reverseRecOn with
  | nil => exact .inl ⟨.nil, nofun⟩
  | append_singleton names name ih =>
    rcases ih with hfree | ⟨before, clash, ⟨after, rfl⟩, hfree, htaken⟩
    · by_cases hname : table.isTaken name = true ∨ name ∈ names
      · exact .inr ⟨names, name, ⟨[], rfl⟩, hfree, hname⟩
      · rw [not_or, Bool.not_eq_true] at hname
        refine .inl ⟨?_, ?_⟩
        · exact List.nodup_append.mpr ⟨hfree.distinct, by simp, by
            rintro other hother _ hlast rfl
            exact hname.2 (List.mem_singleton.mp hlast ▸ hother)⟩
        · intro other hother
          rcases List.mem_append.mp hother with hin | hlast
          · exact hfree.untaken other hin
          · exact List.mem_singleton.mp hlast ▸ hname.1
    · exact .inr ⟨before, clash, ⟨after ++ [name], by simp⟩, hfree, htaken⟩

theorem ClashesAt.not_free {table : SymbolTable} {names before : List Text} {clash : Text}
    (h : table.ClashesAt names before clash) : ¬table.Free names := by
  obtain ⟨⟨after, rfl⟩, -, htaken⟩ := h
  intro hfree
  rcases htaken with htaken | hrepeated
  · rw [hfree.untaken clash (by simp)] at htaken
    cases htaken
  · exact (List.nodup_append.mp hfree.distinct).2.2 clash hrepeated clash (by simp) rfl

/-- Claims with some names of a symbol added, the latest in front. -/
def granted (s : Symbol) (names : List Text) (claims : List (Text × Symbol)) :
    List (Text × Symbol) :=
  (names.map fun name => (name, s)).reverse ++ claims

/-- A look-up by any property of names finds the symbol if one of the added names has it. -/
theorem find?_granted (s : Symbol) (names : List Text) (claims : List (Text × Symbol))
    (p : Text → Bool) :
    ((granted s names claims).find? fun c => p c.1).map Prod.snd =
      if names.any p then some s else (claims.find? fun c => p c.1).map Prod.snd := by
  induction names generalizing claims with
  | nil => rfl
  | cons name rest ih =>
    have hfirst : granted s (name :: rest) claims = granted s rest ((name, s) :: claims) := by
      simp [granted]
    rw [hfirst, ih, List.find?_cons, List.any_cons]
    cases rest.any p <;> cases p name <;> rfl

theorem lookup_eq_find? (claims : List (Text × Symbol)) (name : Text) :
    claims.lookup name = (claims.find? fun c => c.1 == name).map Prod.snd := by
  induction claims with
  | nil => rfl
  | cons claim rest ih =>
    rw [List.lookup_cons, List.find?_cons, ih, Bool.beq_comm]
    cases claim.1 == name <;> rfl

theorem lookup_granted (s : Symbol) (names : List Text) (claims : List (Text × Symbol))
    (name : Text) :
    (granted s names claims).lookup name =
      if name ∈ names then some s else claims.lookup name := by
  rw [lookup_eq_find?, find?_granted s names claims (· == name), ← lookup_eq_find?]
  simp

theorem claim_append (table : SymbolTable) (s : Symbol) (front back : List Text) :
    table.claim s (front ++ back) =
      match table.claim s front with
      | (after, none) => after.claim s back
      | (after, some clash) => (after, some clash) := by
  induction front generalizing table with
  | nil => rfl
  | cons name rest ih =>
    rw [List.cons_append, claim, claim]
    split
    · rfl
    · exact ih _

theorem claim_of_clash {table : SymbolTable} {names before : List Text} {clash : Text}
    (h : table.ClashesAt names before clash) (s : Symbol) :
    table.claim s names = ({ table with claims := granted s before table.claims }, some clash) := by
  obtain ⟨⟨after, rfl⟩, hfree, htaken⟩ := h
  have hclash : isTaken { table with claims := granted s before table.claims } clash = true := by
    rw [isTaken, lookup_granted]
    split
    · rfl
    · next hnew => exact htaken.resolve_right hnew
  rw [claim_append, claim_of_free table s hfree.distinct hfree.untaken]
  exact if_pos hclash

/-- Everything that a registration can do, given the names that it grants. -/
structure Outcome (table : SymbolTable) (s : Symbol) (names : List Text) : Prop where
  free : table.Free names
  claims : (table.register s).1.claims = granted s names table.claims
  /-- All names are granted, and the symbol is one of those that name values, -/
  ends : (table.register s).2 = .ok s ∧ names = s.names ∧
      (table.register s).1.symbols = table.symbols ++ [s] ∨
    -- or only those before a clash, and it is not
    ∃ clash, (table.register s).2 = .error (.nameTaken clash) ∧
      table.ClashesAt s.names names clash ∧ (table.register s).1.symbols = table.symbols

theorem register_outcome (table : SymbolTable) (s : Symbol) : ∃ names, table.Outcome s names := by
  rcases table.free_or_clashes s.names with hfree | ⟨before, clash, hclash⟩
  · have hclaim := claim_of_free table s hfree.distinct hfree.untaken
    refine ⟨s.names, hfree, ?_, .inl ⟨?_, rfl, ?_⟩⟩ <;> rw [register, hclaim]
    rfl
  · have hclaim := claim_of_clash hclash s
    refine ⟨before, hclash.free, ?_, .inr ⟨clash, ?_, hclash, ?_⟩⟩ <;> rw [register, hclaim]

/-- A registration is accepted if it does not fail. -/
def accepts (table : SymbolTable) (s : Symbol) : Bool := (table.register s).2.isOk

/-- A name is granted by a registration that finds it free and leaves it taken. -/
def grants (table : SymbolTable) (s : Symbol) (name : Text) : Bool :=
  !table.isTaken name && (table.register s).1.isTaken name

namespace Outcome

variable {table : SymbolTable} {s : Symbol} {names : List Text}

theorem mem_names (h : table.Outcome s names) {name : Text} (hin : name ∈ names) :
    name ∈ s.names := by
  rcases h.ends with ⟨-, rfl, -⟩ | ⟨clash, -, ⟨⟨after, hsplit⟩, -, -⟩, -⟩
  · exact hin
  · simp [hsplit, hin]

theorem lookup_eq (h : table.Outcome s names) (name : Text) :
    (table.register s).1.claims.lookup name =
      if name ∈ names then some s else table.claims.lookup name := by
  rw [h.claims, lookup_granted]

theorem isTaken_iff (h : table.Outcome s names) (name : Text) :
    (table.register s).1.isTaken name = true ↔ name ∈ names ∨ table.isTaken name = true := by
  rw [isTaken, h.lookup_eq]
  split
  · next hin => simp [hin]
  · next hnew => simp [hnew, isTaken]

theorem find?_eq (h : table.Outcome s names) (name : Text) :
    (table.register s).1.find? name =
      if name.strip ∈ names then some s else table.find? name :=
  h.lookup_eq name.strip

theorem findAnyCase?_eq (h : table.Outcome s names) (name : Text) :
    (table.register s).1.findAnyCase? name =
      if name.strip.lower ∈ names.map Text.lower then some s else table.findAnyCase? name := by
  simp only [findAnyCase?]
  rw [h.claims, find?_granted s names table.claims (·.lower = name.strip.lower)]
  simp

theorem grants_iff (h : table.Outcome s names) (name : Text) :
    table.grants s name = true ↔ name ∈ names := by
  rw [grants, Bool.and_eq_true, Bool.not_eq_true', h.isTaken_iff]
  constructor
  · rintro ⟨hfree, hin | htaken⟩
    · exact hin
    · rw [hfree] at htaken
      cases htaken
  · intro hin
    exact ⟨h.free.untaken name hin, .inl hin⟩

theorem accepts_iff (h : table.Outcome s names) : table.accepts s = true ↔ table.Free s.names := by
  rw [accepts]
  rcases h.ends with ⟨hok, rfl, -⟩ | ⟨clash, herror, hclash, -⟩
  · rw [hok]
    exact ⟨fun _ => h.free, fun _ => rfl⟩
  · rw [herror]
    exact ⟨nofun, fun hfree => absurd hfree hclash.not_free⟩

theorem entryOf?_eq (h : table.Outcome s names) (value : Int) :
    (table.register s).1.entryOf? value =
      (table.entryOf? value).or (if table.accepts s ∧ s.value = value then some s else none) := by
  rw [entryOf?, accepts]
  rcases h.ends with ⟨hok, -, hsymbols⟩ | ⟨clash, herror, -, hsymbols⟩
  · rw [hsymbols, List.find?_append, hok, entryOf?]
    by_cases hvalue : s.value = value <;> simp [hvalue, Except.isOk, Except.toBool]
  · rw [hsymbols, herror]
    simp [entryOf?, Except.isOk, Except.toBool]

theorem find?_of_some (h : table.Outcome s names) {name : Text} {e : Symbol}
    (hfind : table.find? name = some e) : (table.register s).1.find? name = some e := by
  rw [h.find?_eq, if_neg, hfind]
  intro hin
  have hfree := h.free.untaken _ hin
  rw [find?] at hfind
  rw [isTaken, hfind] at hfree
  cases hfree

theorem entryOf?_of_some (h : table.Outcome s names) {value : Int} {e : Symbol}
    (hentry : table.entryOf? value = some e) : (table.register s).1.entryOf? value = some e := by
  rw [h.entryOf?_eq, hentry, Option.some_or]

end Outcome

/-! A history of registrations. -/

/-- Registrations that are tried in order, each with the table that it meets. -/
def met (table : SymbolTable) : List Symbol → List (SymbolTable × Symbol)
  | [] => []
  | s :: rest => (table, s) :: met (table.register s).1 rest

theorem registerAll_concat (table : SymbolTable) (attempts : List Symbol) (s : Symbol) :
    table.registerAll (attempts ++ [s]) = ((table.registerAll attempts).register s).1 :=
  List.foldl_concat ..

theorem met_concat (table : SymbolTable) (attempts : List Symbol) (s : Symbol) :
    table.met (attempts ++ [s]) = table.met attempts ++ [(table.registerAll attempts, s)] := by
  induction attempts generalizing table with
  | nil => rfl
  | cons first rest ih =>
    rw [List.cons_append, met, ih, met]
    rfl

/-- What holds of a table and is kept by every registration holds after all of them. -/
theorem registerAll_keeps {P : SymbolTable → Prop}
    (step : ∀ table s, P table → P (table.register s).1) {table : SymbolTable} (h : P table)
    (attempts : List Symbol) : P (table.registerAll attempts) := by
  induction attempts using List.reverseRecOn with
  | nil => exact h
  | append_singleton attempts s ih =>
    rw [registerAll_concat]
    exact step _ s ih

/-- The symbols that name values are found under all of their names. -/
def Reachable (table : SymbolTable) : Prop :=
  ∀ s ∈ table.symbols, ∀ name ∈ s.names, table.claims.lookup name = some s

theorem reachable_registerAll (attempts : List Symbol) : Reachable (registerAll {} attempts) := by
  refine registerAll_keeps ?_ nofun attempts
  intro table s hreach
  obtain ⟨names, h⟩ := table.register_outcome s
  intro e he name hname
  have hold : e ∈ table.symbols → (table.register s).1.claims.lookup name = some e := by
    intro hin
    have hfound := hreach e hin name hname
    rw [h.lookup_eq, if_neg, hfound]
    intro hgranted
    have hfree := h.free.untaken name hgranted
    rw [isTaken, hfound] at hfree
    cases hfree
  rcases h.ends with ⟨-, rfl, hsymbols⟩ | ⟨clash, -, -, hsymbols⟩
  · rw [hsymbols, List.mem_append, List.mem_singleton] at he
    rcases he with hin | rfl
    · exact hold hin
    · rw [h.lookup_eq, if_pos hname]
  · exact hold (hsymbols ▸ he)

/-- An exact name belongs to the attempt that it was granted to. -/
theorem find?_registerAll (attempts : List Symbol) (name : Text) :
    (registerAll {} attempts).find? name =
      ((met {} attempts).find? fun a => a.1.grants a.2 name.strip).map Prod.snd := by
  induction attempts using List.reverseRecOn with
  | nil => rfl
  | append_singleton attempts s ih =>
    obtain ⟨names, h⟩ := (registerAll {} attempts).register_outcome s
    rw [registerAll_concat, met_concat, List.find?_append, Option.map_or, ← ih, h.find?_eq,
      List.find?_singleton]
    have hgrants := h.grants_iff name.strip
    by_cases hin : name.strip ∈ names
    · have hnone : (registerAll {} attempts).find? name = none := by
        have hfree := h.free.untaken _ hin
        rwa [isTaken, Option.isSome_eq_false_iff, Option.isNone_iff_eq_none] at hfree
      rw [if_pos hin, hnone, if_pos (hgrants.mpr hin)]
      rfl
    · rw [if_neg hin, if_neg fun hgranted => hin (hgrants.mp hgranted)]
      simp

/-- A value is named by the first attempt that succeeded with it. -/
theorem entryOf?_registerAll (attempts : List Symbol) (value : Int) :
    (registerAll {} attempts).entryOf? value =
      ((met {} attempts).find? fun a => a.1.accepts a.2 ∧ a.2.value = value).map Prod.snd := by
  induction attempts using List.reverseRecOn with
  | nil => rfl
  | append_singleton attempts s ih =>
    obtain ⟨names, h⟩ := (registerAll {} attempts).register_outcome s
    rw [registerAll_concat, met_concat, List.find?_append, Option.map_or, ← ih, h.entryOf?_eq,
      List.find?_singleton]
    by_cases hentry : (registerAll {} attempts).accepts s ∧ s.value = value <;> simp [hentry]

/-- In any case a name belongs to the last attempt that was granted one that reads the same. -/
theorem findAnyCase?_registerAll (attempts : List Symbol) (name : Text) :
    (registerAll {} attempts).findAnyCase? name =
      ((met {} attempts).reverse.find? fun a =>
        a.2.names.any fun own => a.1.grants a.2 own ∧ own.lower = name.strip.lower).map
          Prod.snd := by
  induction attempts using List.reverseRecOn with
  | nil => rfl
  | append_singleton attempts s ih =>
    obtain ⟨names, h⟩ := (registerAll {} attempts).register_outcome s
    rw [registerAll_concat, met_concat, List.reverse_concat, List.find?_cons, h.findAnyCase?_eq,
      ih]
    have hany : (s.names.any fun own =>
        (registerAll {} attempts).grants s own ∧ own.lower = name.strip.lower) = true ↔
        name.strip.lower ∈ names.map Text.lower := by
      simp only [List.any_eq_true, List.mem_map, decide_eq_true_eq, h.grants_iff]
      constructor
      · rintro ⟨own, -, hin, hlower⟩
        exact ⟨own, hin, hlower⟩
      · rintro ⟨own, hin, hlower⟩
        exact ⟨own, h.mem_names hin, hin, hlower⟩
    by_cases hin : name.strip.lower ∈ names.map Text.lower
    · rw [if_pos hin, hany.mpr hin]
      rfl
    · rw [if_neg hin, Bool.eq_false_iff.mpr fun h => hin (hany.mp h)]

/-! What can be said of a table and of every registration from there. -/

/-- The look-ups after a registration: it gives the symbol these names, and no others. -/
structure Added (table : SymbolTable) (s : Symbol) (names : List Text) : Prop where
  isTaken : ∀ name, (table.register s).1.isTaken name = true ↔
    name ∈ names ∨ table.isTaken name = true
  exact : ∀ name, (table.register s).1.find? name =
    if name.strip ∈ names then some s else table.find? name
  anyCase : ∀ name, (table.register s).1.findAnyCase? name =
    if name.strip.lower ∈ names.map Text.lower then some s else table.findAnyCase? name

theorem Outcome.added {table : SymbolTable} {s : Symbol} {names : List Text}
    (h : table.Outcome s names) : table.Added s names :=
  ⟨h.isTaken_iff, h.find?_eq, h.findAnyCase?_eq⟩

/-- What one more registration does. -/
structure Settles (table : SymbolTable) (s : Symbol) : Prop where
  fails_iff : (∃ fault, (table.register s).2 = .error fault) ↔
    ¬s.names.Nodup ∨ ∃ name ∈ s.names, table.isTaken name = true
  /-- One that fails adds the names before the clash and changes no value's name. -/
  failed : ∀ fault, (table.register s).2 = .error fault →
    ∃ before clash, fault = .nameTaken clash ∧ table.ClashesAt s.names before clash ∧
      table.Added s before ∧ ∀ value, (table.register s).1.nameOf value = table.nameOf value
  /-- One that does not adds all names, and names a value that had no name. -/
  done : ∀ e, (table.register s).2 = .ok e → e = s ∧ table.Added s s.names ∧
    ∀ value, (table.register s).1.entryOf? value =
      (table.entryOf? value).or (if s.value = value then some s else none)

theorem settles (table : SymbolTable) (s : Symbol) : table.Settles s := by
  obtain ⟨names, h⟩ := table.register_outcome s
  have hfree : table.Free s.names ↔
      ¬(¬s.names.Nodup ∨ ∃ name ∈ s.names, table.isTaken name = true) := by
    simp only [not_or, not_not, not_exists, not_and, Bool.not_eq_true]
    exact ⟨fun hfree => ⟨hfree.distinct, hfree.untaken⟩, fun h => ⟨h.1, h.2⟩⟩
  rcases h.ends with ⟨hok, rfl, -⟩ | ⟨clash, herror, hclash, hsymbols⟩
  · refine ⟨?_, ?_, ?_⟩
    · rw [hok, ← not_iff_not, ← hfree]
      exact ⟨fun _ => h.free, fun _ => nofun⟩
    · rw [hok]
      nofun
    · intro e he
      rw [hok] at he
      cases he
      refine ⟨rfl, h.added, ?_⟩
      intro value
      rw [h.entryOf?_eq, h.accepts_iff.mpr h.free]
      simp
  · refine ⟨?_, ?_, ?_⟩
    · rw [← not_iff_not, ← hfree]
      exact ⟨fun hnone => absurd ⟨_, herror⟩ hnone, fun hfree => absurd hfree hclash.not_free⟩
    · intro fault hfault
      rw [herror] at hfault
      cases hfault
      refine ⟨names, clash, rfl, hclash, h.added, ?_⟩
      intro value
      rw [nameOf, nameOf, hsymbols]
    · rw [herror]
      nofun

/-- A table agrees with the registrations that were tried. -/
structure Faithful (attempts : List Symbol) (table : SymbolTable) : Prop where
  /-- An exact name leads to the symbol of the attempt that was granted it, now and ever after. -/
  exact : ∀ name, table.find? name =
    ((met {} attempts).find? fun a => a.1.grants a.2 name.strip).map Prod.snd
  kept : ∀ name e, table.find? name = some e → ∀ more, (table.registerAll more).find? name = some e
  /-- In any case the last attempt counts that was granted a name which reads the same. -/
  anyCase : ∀ name, table.findAnyCase? name =
    ((met {} attempts).reverse.find? fun a =>
      a.2.names.any fun own => a.1.grants a.2 own ∧ own.lower = name.strip.lower).map Prod.snd
  /-- A value has its name from the first attempt that succeeded with it, now and ever after. -/
  entry : ∀ value, table.entryOf? value =
    ((met {} attempts).find? fun a => a.1.accepts a.2 ∧ a.2.value = value).map Prod.snd
  named : ∀ value e, table.entryOf? value = some e → table.nameOf value = e.name ∧
    ∀ more, (table.registerAll more).entryOf? value = some e ∧
      (table.registerAll more).nameOf value = e.name
  /-- It is found under that name, unless there are blanks around it. -/
  found : ∀ value e, table.entryOf? value = some e → e.name.strip = e.name →
    table.find? e.name = some e
  next : ∀ s, table.Settles s

/-- Names are never rebound, whatever symbols are registered and however many of them in vain. -/
theorem names_never_rebound (attempts : List Symbol) :
    Faithful attempts (registerAll {} attempts) where
  exact := find?_registerAll attempts
  kept := by
    intro name e hfind
    refine registerAll_keeps (P := (·.find? name = some e)) ?_ hfind
    intro table s hfind
    obtain ⟨names, h⟩ := table.register_outcome s
    exact h.find?_of_some hfind
  anyCase := findAnyCase?_registerAll attempts
  entry := entryOf?_registerAll attempts
  named := by
    intro value e hentry
    have hlater : ∀ more, ((registerAll {} attempts).registerAll more).entryOf? value = some e := by
      refine registerAll_keeps (P := (·.entryOf? value = some e)) ?_ hentry
      intro table s hentry
      obtain ⟨names, h⟩ := table.register_outcome s
      exact h.entryOf?_of_some hentry
    refine ⟨by rw [nameOf_eq, hentry]; rfl, fun more => ⟨hlater more, ?_⟩⟩
    rw [nameOf_eq, hlater more]
    rfl
  found := by
    intro value e hentry hblanks
    have hin : e ∈ (registerAll {} attempts).symbols := List.mem_of_find?_eq_some hentry
    rw [find?, hblanks]
    exact reachable_registerAll attempts e hin e.name List.mem_cons_self
  next := settles _

/-- The second of three registrations fails at its third name, so it has two names and its value has
none; the third one names the value, and keeps doing so when a fourth comes with the same. -/
theorem names_never_rebound_half :
    let first : Symbol := { name := "A".toList, value := 4 }
    let second : Symbol :=
      { name := "B".toList, value := 5, otherNames := ["a".toList, "A".toList, "C".toList] }
    let third : Symbol := { name := "C".toList, value := 5 }
    let fourth : Symbol := { name := "c".toList, value := 5 }
    let table := registerAll {} [first, second, third]
    table.find? " A".toList = some first ∧ table.findAnyCase? "A".toList = some second ∧
      table.entryOf? 5 = some third ∧ table.find? "C".toList = some third ∧
      (table.registerAll [fourth]).findAnyCase? "C".toList = some fourth ∧
      (table.registerAll [fourth]).nameOf 5 = "C".toList := by
  intro first second third fourth table
  have hfaithful : Faithful [first, second, third] table := names_never_rebound _
  have hentry : table.entryOf? 5 = some third := by decide
  exact ⟨by decide, by decide, hentry, hfaithful.found 5 third hentry (by decide), by decide,
    ((hfaithful.named 5 third hentry).2 [fourth]).2⟩

end KeyProfile.SymbolTable

import KeyProfile.Proofs.MacroIds
import KeyProfile.Proofs.TableMeaning
import KeyProfile.Proofs.DestinationForms

/-!
Macros that keys are bound to. A profile is closed if every call in its tables is answered: the
word is the one made of its id, and exactly one macro has that id. The macros of a layer are then
the same whether they are counted or listed (`Closed.length_macrosOf`), and they are those that keys
of the layer are bound to (`Closed.mem_macrosOf_iff`). Texts without literals compile to closed
profiles (`Compilation.closed_twoPasses`).
-/

namespace KeyProfile

open DriverValue

/-- The id is read back from the word made of it. -/
theorem DriverValue.macroId?_of_ofMacroId {id v : Int} (h : ofMacroId id = .ok v) :
    macroId? v macroIds = some id := by
  obtain ⟨hrange, rfl⟩ := ofMacroId_eq_ok_iff.mp h
  rw [macroId?_macroTag_add hrange, if_pos hrange.2]

theorem Registry.idOf?_of_macroValue? {α : Type} {r : Registry α} {name : Text} {id : Int}
    (h : r.macroValue? name = some (macroTag + id)) :
    ∃ place, r.idOf? name = some place ∧ (place : Int) = id := by
  unfold macroValue? at h
  cases hplace : r.idOf? name with
  | none =>
    rw [hplace] at h
    cases h
  | some place =>
    rw [hplace] at h
    have hword : macroTag + (place : Int) = macroTag + id := Option.some_inj.mp h
    exact ⟨place, rfl, by omega⟩

namespace Profile

/-- A table of the layer, with or without Fn, binds some key to the word. -/
def Binds (p : Profile) (layer : Layer) (v : Int) : Prop :=
  ∃ fn table key, p.tables.get? ⟨layer, fn⟩ = some table ∧ table.get? key = some v

theorem mem_idsIn_iff (table : Option KeyTable) (id : Int) :
    id ∈ idsIn table ↔ ∃ own key v, table = some own ∧ own.get? key = some v ∧
      macroId? v DriverValue.macroIds = some id := by
  cases table with
  | none => simp [idsIn]
  | some own =>
    simp only [idsIn, List.mem_filterMap, OrderedMap.mem_values_iff, Option.some_inj]
    constructor
    · rintro ⟨v, ⟨key, hget⟩, hid⟩
      exact ⟨own, key, v, rfl, hget, hid⟩
    · rintro ⟨_, key, v, rfl, hget, hid⟩
      exact ⟨v, ⟨key, hget⟩, hid⟩

theorem mem_macroIds_iff (p : Profile) (layer : Layer) (id : Int) :
    id ∈ (p.macroIds layer).toList ↔
      ∃ v, p.Binds layer v ∧ macroId? v DriverValue.macroIds = some id := by
  change id ∈ p.macroIds layer ↔ _
  unfold macroIds
  rw [KeySet.mem_ofList, List.mem_append, mem_idsIn_iff, mem_idsIn_iff]
  constructor
  · rintro (⟨own, key, v, htable, hget, hid⟩ | ⟨own, key, v, htable, hget, hid⟩)
    · exact ⟨v, ⟨false, own, key, htable, hget⟩, hid⟩
    · exact ⟨v, ⟨true, own, key, htable, hget⟩, hid⟩
  · rintro ⟨v, ⟨fn, own, key, htable, hget⟩, hid⟩
    cases fn with
    | false => exact .inl ⟨own, key, v, htable, hget, hid⟩
    | true => exact .inr ⟨own, key, v, htable, hget, hid⟩

/-- Every call that a key is bound to is the word of one macro. -/
structure Closed (p : Profile) : Prop where
  word : ∀ layer v, p.Binds layer v → ∀ id, macroId? v DriverValue.macroIds = some id →
    ofMacroId id = .ok v
  found : ∀ layer v, p.Binds layer v → ∀ id, macroId? v DriverValue.macroIds = some id →
    ∃ m ∈ p.macros.values, m.id = some id
  apart : ∀ m ∈ p.macros.values, ∀ m' ∈ p.macros.values, ∀ id, m.id = some id →
    m'.id = some id → m = m'
  named : ∀ name m, p.macros.get? name = some m → m.name = name

namespace Closed

variable {p : Profile}

/-- Being closed is a matter of the tables and the macros. -/
theorem congr {q : Profile} (h : p.Closed) (htables : q.tables = p.tables)
    (hmacros : q.macros = p.macros) : q.Closed := by
  obtain ⟨tables, macros, effects, lightsOff⟩ := q
  subst htables hmacros
  exact ⟨h.word, h.found, h.apart, h.named⟩

/-- One macro has the id that a bound word calls, and it has one name. -/
theorem existsUnique_name (h : p.Closed) {layer : Layer} {v : Int} (hv : p.Binds layer v) {id : Int}
    (hid : macroId? v DriverValue.macroIds = some id) :
    ∃! name, ∃ m, p.macros.get? name = some m ∧ m.id = some id := by
  obtain ⟨m, hm, hown⟩ := h.found layer v hv id hid
  obtain ⟨name, hget⟩ := (OrderedMap.mem_values_iff _ _).mp hm
  refine ⟨name, ⟨m, hget, hown⟩, ?_⟩
  rintro other ⟨m', hget', hown'⟩
  have hm' : m' ∈ p.macros.values := (OrderedMap.mem_values_iff _ _).mpr ⟨other, hget'⟩
  have hsame := h.apart m' hm' m hm id hown' hown
  rw [← h.named other m' hget', hsame, h.named name m hget]

theorem macroWithId?_eq (h : p.Closed) {m : Macro} (hm : m ∈ p.macros.values) {id : Int}
    (hid : m.id = some id) : p.macroWithId? (some id) = some m := by
  apply Profile.macroWithId?_eq hm hid
  intro m' hm' hid'
  exact h.apart m' hm' m hm id hid' hid

/-- The macros listed for a layer are the bound ids, each with its macro. -/
theorem ids_macrosOf (h : p.Closed) (layer : Layer) :
    (p.macrosOf layer).map Macro.id = (p.macroIds layer).toList.map some := by
  have hfound : ∀ id ∈ (p.macroIds layer).toList,
      ∃ m, p.macroWithId? (some id) = some m ∧ m.id = some id := by
    intro id hin
    obtain ⟨v, hv, hid⟩ := (p.mem_macroIds_iff layer id).mp hin
    obtain ⟨m, hm, hown⟩ := h.found layer v hv id hid
    exact ⟨m, h.macroWithId?_eq hm hown, hown⟩
  unfold macrosOf
  generalize (p.macroIds layer).toList = ids at hfound
  induction ids with
  | nil => rfl
  | cons id ids ih =>
    obtain ⟨⟨m, hm, hown⟩, hrest⟩ := List.forall_mem_cons.mp hfound
    simp only [List.filterMap_cons, hm]
    rw [List.map_cons, List.map_cons, hown, ih hrest]

/-- As many macros are listed as are counted. -/
theorem length_macrosOf (h : p.Closed) (layer : Layer) :
    (p.macrosOf layer).length = p.macroCount layer := by
  have hlength := congrArg List.length (h.ids_macrosOf layer)
  rwa [List.length_map, List.length_map] at hlength

/-- A macro is listed if and only if some key is bound to its word. -/
theorem mem_macrosOf_iff (h : p.Closed) (layer : Layer) (m : Macro) :
    m ∈ p.macrosOf layer ↔
      m ∈ p.macros.values ∧ ∃ id v, m.id = some id ∧ ofMacroId id = .ok v ∧ p.Binds layer v := by
  unfold macrosOf
  rw [List.mem_filterMap]
  constructor
  · rintro ⟨id, hin, hfind⟩
    obtain ⟨v, hv, hid⟩ := (p.mem_macroIds_iff layer id).mp hin
    have hown : m.id = some id := by simpa using List.find?_some hfind
    exact ⟨List.mem_of_find?_eq_some hfind, id, v, hown, h.word layer v hv id hid, hv⟩
  · rintro ⟨hm, id, v, hown, hword, hv⟩
    have hin := (p.mem_macroIds_iff layer id).mpr ⟨v, hv, macroId?_of_ofMacroId hword⟩
    exact ⟨id, hin, h.macroWithId?_eq hm hown⟩

end Closed

end Profile

/-- A word that tables bind is the destination of a line. -/
theorem Compilation.exists_binding (ws : Workspace) (blocks : List Block) {layer : Layer} {v : Int}
    (hv : (twoPasses ws blocks).published.profile.Binds layer v) :
    ∃ b ∈ allBindings blocks, b.value (macroWord? blocks) = v := by
  obtain ⟨fn, table, key, htable, hget⟩ := hv
  have htable : (twoPasses ws blocks).tables.get? ⟨layer, fn⟩ = some table := htable
  rw [tables_twoPasses] at htable
  split at htable
  · cases htable
    rw [KeyTable.get?_bindAll] at hget
    obtain ⟨b, hfind, hvalue⟩ := Option.map_eq_some_iff.mp hget
    have hb := List.mem_reverse.mp (List.mem_of_find?_eq_some hfind)
    exact ⟨b, mem_allBindings hb, hvalue⟩
  · cases htable

/-- The profile of blocks whose lines have no literals for destinations is closed. -/
theorem Compilation.closed_twoPasses (ws : Workspace) {blocks : List Block}
    (hplain : ∀ b ∈ allBindings blocks, ∀ token ∈ b.tokens, Destination.isLiteral token = false) :
    (twoPasses ws blocks).published.profile.Closed := by
  have hsound := sound_twoPasses ws blocks
  have hcalls : ∀ name v, macroWord? blocks name = some v → IsCall v := by
    intro name v hword
    rw [← macroValue?_twoPasses ws] at hword
    exact hsound.macros.isCall_of_macroValue? hword
  have hcalled : ∀ layer v, (twoPasses ws blocks).published.profile.Binds layer v →
      ∀ id, macroId? v macroIds = some id →
        v = macroTag + id ∧ ∃ name place,
          (twoPasses ws blocks).macros.idOf? name = some place ∧ (place : Int) = id := by
    intro layer v hv id hid
    obtain ⟨b, hb, rfl⟩ := exists_binding ws blocks hv
    obtain ⟨hword, name, -, hvalue⟩ := Destination.call_of_evaluate hcalls (hplain b hb) hid
    rw [← macroValue?_twoPasses ws] at hvalue
    exact ⟨hword, name, Registry.idOf?_of_macroValue? hvalue⟩
  refine ⟨?_, ?_, ?_, ?_⟩
  · intro layer v hv id hid
    obtain ⟨rfl, name, place, hplace, rfl⟩ := hcalled layer v hv id hid
    exact hsound.macros.ofMacroId hplace
  · intro layer v hv id hid
    obtain ⟨-, name, place, hplace, rfl⟩ := hcalled layer v hv id hid
    obtain ⟨hm, rfl⟩ := (Registry.idOf?_eq_some_iff ..).mp hplace
    obtain ⟨m, hget, -, hown⟩ := hsound.exists_published hm
    exact ⟨m, (OrderedMap.mem_values_iff _ _).mpr ⟨name, hget⟩, hown⟩
  · intro m hm m' hm' id hid hid'
    exact hsound.published_inj hm hm' hid hid'
  · intro name m hget
    rw [macros_published] at hget
    exact hsound.published.named name m hget

/-- No binding dangles. In the profile of a text that has no literals for destinations, a call that
some key of a layer is bound to is the call of exactly one macro. So as many macros are listed for
the layer as are counted, they are listed in increasing order of their ids, and they are the ones
whose words are bound there, with or without Fn. -/
theorem no_binding_dangles (ws : Workspace) (lines : List Text)
    (hplain : ∀ b ∈ allBindings (Outline.ofLines lines).blocks, ∀ token ∈ b.tokens,
      Destination.isLiteral token = false) :
    ∃ c, compile ws lines = .ok c ∧
      (∀ layer v, c.profile.Binds layer v → ∀ id, macroId? v macroIds = some id →
        ∃! name, ∃ m, c.profile.macros.get? name = some m ∧ m.id = some id) ∧
      ∀ layer,
        c.profile.macroCount layer = (c.profile.macrosOf layer).length ∧
        (∃ ids : List Int, (c.profile.macrosOf layer).map Macro.id = ids.map some ∧
          ids.Pairwise (· < ·)) ∧
        ∀ m, m ∈ c.profile.macrosOf layer ↔
          m ∈ c.profile.macros.values ∧
            ∃ id v, m.id = some id ∧ ofMacroId id = .ok v ∧ c.profile.Binds layer v := by
  obtain ⟨c, hcompile, htables, hmacros⟩ := compile_shows ws lines
  have hclosed : c.profile.Closed := by
    apply (Compilation.closed_twoPasses ws hplain).congr
    · exact htables
    · exact hmacros
  refine ⟨c, hcompile, ?_, ?_⟩
  · intro layer v hv id hid
    exact hclosed.existsUnique_name hv hid
  · intro layer
    refine ⟨(hclosed.length_macrosOf layer).symm, ?_, hclosed.mem_macrosOf_iff layer⟩
    exact ⟨_, hclosed.ids_macrosOf layer, (c.profile.macroIds layer).increasing⟩

/-- A modifier in front of a call changes nothing: the macro bound with Fn is the only one with the
id in the word. -/
theorem no_binding_dangles_fn :
    ∃ c, compile {} (["[Macro(X)]", "[Macro(Y)]", "[Base]", "A: Macro(Y)", "[FnBase]",
        "A: LCtrl+Macro(X)"].map String.toList) = .ok c ∧
      c.profile.Binds .base (macroTag + 1) ∧
      ∃! name, ∃ m, c.profile.macros.get? name = some m ∧ m.id = some 1 := by
  obtain ⟨c, hcompile, hbound, -⟩ := no_binding_dangles {}
    (["[Macro(X)]", "[Macro(Y)]", "[Base]", "A: Macro(Y)", "[FnBase]",
      "A: LCtrl+Macro(X)"].map String.toList) (by decide +kernel)
  have hword : (compile {} (["[Macro(X)]", "[Macro(Y)]", "[Base]", "A: Macro(Y)", "[FnBase]",
      "A: LCtrl+Macro(X)"].map String.toList)).toOption.map (fun c =>
        (c.profile.tables.get? ⟨.base, true⟩).map (·.entries)) =
      some (some [(0x02000400, macroTag + 1)]) := by
    decide +kernel
  rw [hcompile] at hword
  obtain ⟨table, htable, hentries⟩ := Option.map_eq_some_iff.mp (Option.some_inj.mp hword)
  have hget : table.get? 0x02000400 = some (macroTag + 1) := by
    rw [OrderedMap.get?, hentries]
    rfl
  have hbinds : c.profile.Binds .base (macroTag + 1) := ⟨true, table, _, htable, hget⟩
  exact ⟨c, hcompile, hbinds, hbound .base _ hbinds 1 rfl⟩

end KeyProfile

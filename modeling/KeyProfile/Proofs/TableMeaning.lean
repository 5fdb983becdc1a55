import KeyProfile.Proofs.MacroMerging

/-!
What key tables mean. A table can be read off the text without running anything: it is there if a
header lists it, its keys are those that the lines below such headers bind, and a key has the
destination of the last of these lines. The word that runs a macro is made of the place of the
macro's name among the names defined anywhere, in the order in which lines of key bindings first
call them (`macroValue?_twoPasses`).
-/

namespace KeyProfile

/-- All that blocks bind, in whatever tables. -/
def allBindings (blocks : List Block) : List Binding :=
  (blocks.filter Block.opensTable).flatMap Block.bindings

/-- What blocks bind in one table. -/
def bindingsIn (blocks : List Block) (ref : TableRef) : List Binding :=
  (blocks.filter (ref ∈ ·.tables)).flatMap Block.bindings

/-- A block that lists a table binds keys. -/
theorem bindingsIn_of_notMem {blocks : List Block} {ref : TableRef}
    (h : ref ∉ blocks.flatMap Block.tables) : bindingsIn blocks ref = [] := by
  have hnone : blocks.filter (ref ∈ ·.tables) = [] := by
    rw [List.filter_eq_nil_iff]
    intro b hb hlists
    exact h (List.mem_flatMap.mpr ⟨b, hb, by simpa using hlists⟩)
  rw [bindingsIn, hnone]
  rfl

theorem mem_allBindings {blocks : List Block} {ref : TableRef} {b : Binding}
    (h : b ∈ bindingsIn blocks ref) : b ∈ allBindings blocks := by
  obtain ⟨own, hown, hin⟩ := List.mem_flatMap.mp h
  obtain ⟨hblock, hlists⟩ := List.mem_filter.mp hown
  have hopens : own.opensTable = true := by
    by_contra hnot
    have hnone := Block.tables_of_not_opensTable (by simpa using hnot)
    simp [hnone] at hlists
  exact List.mem_flatMap.mpr ⟨own, List.mem_filter.mpr ⟨hblock, hopens⟩, hin⟩

/-- The names of defined macros in the order in which they are first called. -/
def ranking (blocks : List Block) : List Text :=
  (((allBindings blocks).flatMap Binding.calls).filter
    (blocks.filterMap Block.macroName?).contains).eraseDups

/-- The word that a call of a macro is worth, unless the macro is not defined or comes too late. -/
def macroWord? (blocks : List Block) (name : Text) : Option Int :=
  if (ranking blocks).contains name ∧ (ranking blocks).idxOf name < 256 then
    some (bitUnion DriverValue.macroTag ((ranking blocks).idxOf name))
  else none

/-! Binding many keys. -/

/-- A table with more keys bound, the macros having the values given. -/
def KeyTable.bindAll (valueOf : Text → Option Int) (table : KeyTable) (bindings : List Binding) :
    KeyTable :=
  bindings.foldl (fun t b => t.bind b.key (b.value valueOf)) table

namespace KeyTable

theorem bindAll_append (valueOf : Text → Option Int) (table : KeyTable)
    (bindings more : List Binding) :
    bindAll valueOf table (bindings ++ more) =
      bindAll valueOf (bindAll valueOf table bindings) more :=
  List.foldl_append

theorem bindAll_concat (valueOf : Text → Option Int) (table : KeyTable) (bindings : List Binding)
    (b : Binding) :
    bindAll valueOf table (bindings ++ [b]) =
      (bindAll valueOf table bindings).insert b.key (b.value valueOf) := by
  have hbind (t : KeyTable) (value : Int) : t.bind b.key value = t.insert b.key value :=
    if_neg b.key_ne_zero
  rw [bindAll_append]
  exact hbind ..

theorem keys_bindAll (valueOf : Text → Option Int) (bindings : List Binding) :
    (bindAll valueOf ∅ bindings).keys = (bindings.map Binding.key).eraseDups := by
  induction bindings using List.reverseRecOn with
  | nil => rfl
  | append_singleton bindings b ih =>
    rw [bindAll_concat, OrderedMap.keys_insert, ih, List.map_append, List.map_singleton,
      eraseDups_concat]
    simp only [List.mem_eraseDups]

/-- Keys that differ are bound in the order in which they come. -/
theorem entries_bindAll (valueOf : Text → Option Int) {bindings : List Binding}
    (h : (bindings.map Binding.key).Nodup) :
    (bindAll valueOf ∅ bindings).entries = bindings.map fun b => (b.key, b.value valueOf) := by
  induction bindings using List.reverseRecOn with
  | nil => rfl
  | append_singleton bindings b ih =>
    rw [List.map_append, List.map_singleton] at h
    obtain ⟨hnodup, -, hapart⟩ := List.nodup_append.mp h
    have hnew : b.key ∉ (bindAll valueOf ∅ bindings).keys := by
      intro hin
      rw [OrderedMap.keys, ih hnodup, List.map_map] at hin
      exact hapart b.key hin b.key (by simp) rfl
    rw [bindAll_concat, OrderedMap.entries_insert_of_notMem _ hnew, ih hnodup, List.map_append]
    rfl

/-- The last binding of a key is the one that counts. -/
theorem get?_bindAll (valueOf : Text → Option Int) (bindings : List Binding) (key : Int) :
    (bindAll valueOf ∅ bindings).get? key =
      (bindings.reverse.find? (·.key == key)).map (·.value valueOf) := by
  induction bindings using List.reverseRecOn with
  | nil => rfl
  | append_singleton bindings b ih =>
    rw [bindAll_concat, OrderedMap.get?_insert, ih, List.reverse_append, List.reverse_singleton,
      List.singleton_append, List.find?_cons]
    by_cases hkey : key = b.key
    · simp [hkey]
    · have hne : (b.key == key) = false := beq_eq_false_iff_ne.mpr fun h => hkey h.symm
      simp [hkey, hne]

/-- Calls made later do not change what was bound. -/
theorem bindAll_refer {α : Type} {r : Registry α} {bindings : List Binding}
    (h : ∀ b ∈ bindings, ∀ name ∈ b.calls, r.Settled name) (names : List Text) (table : KeyTable) :
    bindAll (r.refer names).macroValue? table bindings =
      bindAll r.macroValue? table bindings := by
  induction bindings generalizing table with
  | nil => rfl
  | cons b bindings ih =>
    have hfirst : b.value (r.refer names).macroValue? = b.value r.macroValue? :=
      Destination.evaluate_refer (h b (by simp)) names
    unfold bindAll at ih ⊢
    rw [List.foldl_cons, List.foldl_cons, hfirst]
    apply ih
    intro other hother
    exact h other (by simp [hother])

end KeyTable

theorem KeyTables.get?_start (ref : TableRef) : ({} : KeyTables).get? ref = none := by
  unfold KeyTables.get?
  split <;> exact PerLayer.get_const _ _

theorem KeyTables.get?_foldl_bind {refs : List TableRef} (hrefs : refs.Nodup) (tables : KeyTables)
    (key value : Int) (other : TableRef) :
    (refs.foldl (fun t ref => t.bind ref key value) tables).get? other =
      if other ∈ refs then some (((tables.get? other).getD ∅).bind key value)
      else tables.get? other := by
  induction refs generalizing tables with
  | nil => simp
  | cons ref refs ih =>
    obtain ⟨hnew, hrest⟩ := List.nodup_cons.mp hrefs
    rw [List.foldl_cons, ih hrest, KeyTables.get?_bind]
    by_cases heq : other = ref
    · subst heq
      simp [hnew]
    · simp [heq]

namespace Compilation

theorem tables_bindIn {tables : List TableRef} (htables : tables.Nodup) (c : Compilation)
    (b : Binding) (ref : TableRef) :
    (c.bindIn tables b).tables.get? ref =
      if ref ∈ tables then
        some (((c.tables.get? ref).getD ∅).bind b.key
          (b.value (c.macros.refer b.calls).macroValue?))
      else c.tables.get? ref :=
  KeyTables.get?_foldl_bind htables ..

/-- Every table that is open gets all the bindings, each with the destination that it has once all
of them were read. -/
theorem tables_foldl_bindIn {tables : List TableRef} (htables : tables.Nodup) {c : Compilation}
    (hthere : ∀ ref ∈ tables, (c.tables.get? ref).isSome = true) (bindings : List Binding)
    (ref : TableRef) :
    (bindings.foldl (bindIn tables) c).tables.get? ref =
      if ref ∈ tables then
        some (((c.tables.get? ref).getD ∅).bindAll
          (c.macros.refer (bindings.flatMap Binding.calls)).macroValue? bindings)
      else c.tables.get? ref := by
  induction bindings using List.reverseRecOn with
  | nil =>
    by_cases hm : ref ∈ tables
    · obtain ⟨table, htable⟩ := Option.isSome_iff_exists.mp (hthere ref hm)
      simp [hm, htable, KeyTable.bindAll]
    · simp [hm]
  | append_singleton bindings b ih =>
    have hsettled : ∀ other ∈ bindings, ∀ name ∈ other.calls,
        (c.macros.refer (bindings.flatMap Binding.calls)).Settled name := by
      intro other hother name hname
      exact Registry.settled_refer _ (List.mem_flatMap.mpr ⟨other, hother, hname⟩)
    have hcalls : c.macros.refer ((bindings ++ [b]).flatMap Binding.calls) =
        (c.macros.refer (bindings.flatMap Binding.calls)).refer b.calls := by
      rw [List.flatMap_append, List.flatMap_singleton, Registry.refer_append]
    rw [List.foldl_append, List.foldl_cons, List.foldl_nil, hcalls, tables_bindIn htables,
      macros_foldl_bindIn, ih]
    by_cases hm : ref ∈ tables
    · simp only [hm, if_true, Option.getD_some]
      rw [KeyTable.bindAll_append, KeyTable.bindAll_refer hsettled]
      rfl
    · simp only [hm, if_false]

theorem macros_build_secondPass (ws : Workspace) (c : Compilation) (b : Block) :
    (c.build ws secondPass b).macros =
      c.macros.refer ((allBindings [b]).flatMap Binding.calls) := by
  cases hopens : b.opensTable with
  | false =>
    have hnone : allBindings [b] = [] := by simp [allBindings, hopens]
    rw [build_of_nothing (within_secondPass hopens), hnone]
    rfl
  | true =>
    have hall : allBindings [b] = b.bindings := by simp [allBindings, hopens]
    rw [build_keys (Block.topic_of_opensTable hopens), macros_foldl_bindIn, hall]

theorem tables_build_secondPass (ws : Workspace) (c : Compilation) (b : Block) (ref : TableRef) :
    (c.build ws secondPass b).tables.get? ref =
      if ref ∈ b.tables then
        some (((c.tables.get? ref).getD ∅).bindAll
          (c.build ws secondPass b).macros.macroValue? b.bindings)
      else c.tables.get? ref := by
  cases hopens : b.opensTable with
  | false =>
    have hnot : ref ∉ b.tables := by simp [Block.tables_of_not_opensTable hopens]
    rw [build_of_nothing (within_secondPass hopens), if_neg hnot]
  | true =>
    have hensured : ∀ other, (b.tables.foldl KeyTables.ensure c.tables).get? other =
        if other ∈ b.tables then some ((c.tables.get? other).getD ∅) else c.tables.get? other :=
      KeyTables.get?_foldl_ensure c.tables b.tables
    have hthere : ∀ other ∈ b.tables,
        ((b.tables.foldl KeyTables.ensure c.tables).get? other).isSome = true := by
      intro other hm
      simp only [hensured, hm, if_true, Option.isSome_some]
    rw [build_keys (Block.topic_of_opensTable hopens), tables_foldl_bindIn b.nodup_tables hthere,
      macros_foldl_bindIn]
    by_cases hm : ref ∈ b.tables
    · simp only [hensured, hm, if_true, Option.getD_some]
    · simp only [hensured, hm, if_false]

theorem macros_foldl_secondPass (ws : Workspace) (c : Compilation) (blocks : List Block) :
    (blocks.foldl (build ws secondPass) c).macros =
      c.macros.refer ((allBindings blocks).flatMap Binding.calls) := by
  induction blocks generalizing c with
  | nil => rfl
  | cons b blocks ih =>
    have hall : allBindings (b :: blocks) = allBindings [b] ++ allBindings blocks := by
      unfold allBindings
      rw [← List.flatMap_append, ← List.filter_append]
      rfl
    rw [List.foldl_cons, ih, macros_build_secondPass, hall, List.flatMap_append,
      Registry.refer_append]

/-- A table holds what the blocks that list it bind, with the destinations of the pass's end. -/
theorem tables_foldl_secondPass (ws : Workspace) (c : Compilation) (blocks : List Block)
    (ref : TableRef) :
    (blocks.foldl (build ws secondPass) c).tables.get? ref =
      if ref ∈ blocks.flatMap Block.tables then
        some (((c.tables.get? ref).getD ∅).bindAll
          (blocks.foldl (build ws secondPass) c).macros.macroValue? (bindingsIn blocks ref))
      else c.tables.get? ref := by
  induction blocks using List.reverseRecOn with
  | nil => simp
  | append_singleton blocks b ih =>
    -- what was bound before had its destinations settled by the calls up to there
    have hsettled : ∀ binding ∈ bindingsIn blocks ref, ∀ name ∈ binding.calls,
        (blocks.foldl (build ws secondPass) c).macros.Settled name := by
      intro binding hbinding name hname
      rw [macros_foldl_secondPass]
      exact Registry.settled_refer _
        (List.mem_flatMap.mpr ⟨binding, mem_allBindings hbinding, hname⟩)
    have hkeep := KeyTable.bindAll_refer hsettled ((allBindings [b]).flatMap Binding.calls)
    rw [List.foldl_append, List.foldl_cons, List.foldl_nil, tables_build_secondPass,
      macros_build_secondPass, ih]
    have hlisted : ref ∈ (blocks ++ [b]).flatMap Block.tables ↔
        ref ∈ blocks.flatMap Block.tables ∨ ref ∈ b.tables := by
      simp [List.flatMap_append]
    by_cases hb : ref ∈ b.tables
    · have hbindings : bindingsIn (blocks ++ [b]) ref = bindingsIn blocks ref ++ b.bindings := by
        simp [bindingsIn, List.filter_append, hb]
      rw [if_pos hb, if_pos (hlisted.mpr (.inr hb)), hbindings, KeyTable.bindAll_append, hkeep]
      by_cases hbefore : ref ∈ blocks.flatMap Block.tables
      · rw [if_pos hbefore, Option.getD_some]
      · rw [if_neg hbefore, bindingsIn_of_notMem hbefore]
        rfl
    · have hbindings : bindingsIn (blocks ++ [b]) ref = bindingsIn blocks ref := by
        simp [bindingsIn, List.filter_append, hb]
      rw [if_neg hb, hbindings, hkeep]
      by_cases hbefore : ref ∈ blocks.flatMap Block.tables
      · rw [if_pos hbefore, if_pos (hlisted.mpr (.inl hbefore))]
      · rw [if_neg hbefore, if_neg fun h => (hlisted.mp h).elim hbefore hb]

theorem foldl_actLine_frame (c : Compilation) (name : Text) (lines : List Text) :
    (lines.foldl (actLine name) c).tables = c.tables ∧
      (lines.foldl (actLine name) c).macros.referenced = c.macros.referenced := by
  have hline (c : Compilation) (line : Text) : (c.actLine name line).tables = c.tables ∧
      (c.actLine name line).macros.referenced = c.macros.referenced := by
    unfold actLine
    split
    · split <;> exact ⟨rfl, rfl⟩
    · exact ⟨rfl, rfl⟩
  induction lines generalizing c with
  | nil => exact ⟨rfl, rfl⟩
  | cons line lines ih =>
    obtain ⟨htables, hreferenced⟩ := hline c line
    obtain ⟨htables', hreferenced'⟩ := ih (c.actLine name line)
    exact ⟨htables'.trans htables, hreferenced'.trans hreferenced⟩

/-- The first pass binds no keys and refers to no macros. -/
theorem build_firstPass_frame (ws : Workspace) (c : Compilation) (b : Block) :
    (c.build ws firstPass b).tables = c.tables ∧
      (c.build ws firstPass b).macros.referenced = c.macros.referenced := by
  cases htopic : b.topic with
  | nothing =>
    rw [build_of_nothing (by rw [htopic]; rfl)]
    exact ⟨rfl, rfl⟩
  | keys tables =>
    rw [build_of_nothing (by rw [htopic]; rfl)]
    exact ⟨rfl, rfl⟩
  | actions name arguments =>
    rw [build_actions htopic]
    exact foldl_actLine_frame ..
  | lighting name layers =>
    rw [build_lighting htopic, macros_light]
    exact ⟨tables_light .., rfl⟩

theorem foldl_firstPass_keeps (ws : Workspace) (c : Compilation) (blocks : List Block) :
    (blocks.foldl (build ws firstPass) c).tables = c.tables ∧
      (blocks.foldl (build ws firstPass) c).macros.referenced = c.macros.referenced := by
  induction blocks generalizing c with
  | nil => exact ⟨rfl, rfl⟩
  | cons b blocks ih =>
    obtain ⟨htables, hreferenced⟩ := build_firstPass_frame ws c b
    obtain ⟨htables', hreferenced'⟩ := ih (c.build ws firstPass b)
    exact ⟨htables'.trans htables, hreferenced'.trans hreferenced⟩

theorem foldl_firstPass_frame (ws : Workspace) (blocks : List Block) :
    (blocks.foldl (build ws firstPass) {}).tables = {} ∧
      (blocks.foldl (build ws firstPass) {}).macros.referenced = [] :=
  foldl_firstPass_keeps ws {} blocks

/-- The names with an id are the first of the ranking. -/
theorem referenced_twoPasses (ws : Workspace) (blocks : List Block) :
    (twoPasses ws blocks).macros.referenced = (ranking blocks).take 256 := by
  have hsound := sound_start.foldl_build ws firstPass blocks
  have hdefines : (blocks.foldl (build ws firstPass) {}).macros.defines =
      (blocks.filterMap Block.macroName?).contains := by
    funext name
    rw [Bool.eq_iff_iff, Registry.defines, ← OrderedMap.mem_keys_iff,
      (macros_firstPass ws blocks).1, List.mem_eraseDups, List.contains_iff_mem]
  unfold twoPasses ranking
  rw [macros_foldl_secondPass, Registry.referenced_refer hsound.macros.toSound hsound.macros.limit,
    (foldl_firstPass_frame ws blocks).2, hdefines, List.nil_append]

theorem bitUnion_macroTag {id : Nat} (h : id < 256) :
    bitUnion DriverValue.macroTag id = DriverValue.macroTag + id := by
  have hunion : 2 ^ 8 * 0x0A0100 + id = 2 ^ 8 * 0x0A0100 ||| id := Nat.two_pow_add_eq_or_of_lt h _
  change Int.ofNat (2 ^ 8 * 0x0A0100 ||| id) = _
  rw [← hunion]
  simp only [DriverValue.macroTag, Int.ofNat_eq_natCast]
  omega

theorem macroValue?_twoPasses (ws : Workspace) (blocks : List Block) :
    (twoPasses ws blocks).macros.macroValue? = macroWord? blocks := by
  funext name
  unfold Registry.macroValue? Registry.idOf? macroWord?
  rw [referenced_twoPasses]
  by_cases hm : name ∈ ranking blocks
  · by_cases hlt : (ranking blocks).idxOf name < 256
    · have hin := (List.mem_take_iff_idxOf_lt hm).mpr hlt
      rw [if_pos hin, if_pos ⟨List.contains_iff_mem.mpr hm, hlt⟩, bitUnion_macroTag hlt,
        (List.take_prefix 256 (ranking blocks)).idxOf_eq_of_mem hin]
      rfl
    · have hout : name ∉ (ranking blocks).take 256 := by
        intro hin
        exact hlt ((List.mem_take_iff_idxOf_lt hm).mp hin)
      rw [if_neg hout, if_neg fun h => hlt h.2]
      rfl
  · have hout : name ∉ (ranking blocks).take 256 := by
      intro hin
      exact hm (List.mem_of_mem_take hin)
    rw [if_neg hout, if_neg fun h => hm (List.contains_iff_mem.mp h.1)]
    rfl

/-- A table holds all that is bound in it, calls being worth what the ranking makes of them. -/
theorem tables_twoPasses (ws : Workspace) (blocks : List Block) (ref : TableRef) :
    (twoPasses ws blocks).tables.get? ref =
      if ref ∈ blocks.flatMap Block.tables then
        some (KeyTable.bindAll (macroWord? blocks) ∅ (bindingsIn blocks ref))
      else none := by
  have hpass := tables_foldl_secondPass ws (blocks.foldl (build ws firstPass) {}) blocks ref
  rw [(foldl_firstPass_frame ws blocks).1, KeyTables.get?_start, Option.getD_none] at hpass
  rw [← macroValue?_twoPasses ws]
  exact hpass

end Compilation

end KeyProfile

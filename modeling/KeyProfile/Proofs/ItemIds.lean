import KeyProfile.Proofs.Registry
import KeyProfile.Registry.Stamped

/-!
The ids of items that are added, asked for, referred to and finalized in any order. A finalization
can always be made, and every item then carries the id of its name (`finalize_spec`); it leaves the
ids of items outside the registry alone (`unstored`), so one more changes nothing. A session keeps
what the references of the past returned, and every call agrees with that (`Session.Kept.call`), so
any sequence of calls does. Main statement: `ids_handed_out`.
-/

namespace KeyProfile

/-- Setting a key does not change the entries of the keys that differ from it. -/
theorem filter_insertEntry {κ α : Type} [DecidableEq κ] {p : κ → Bool} {k : κ} (hk : p k = false)
    (a : α) (entries : List (κ × α)) :
    (insertEntry k a entries).filter (fun e => p e.1) = entries.filter fun e => p e.1 := by
  induction entries with
  | nil => simp [insertEntry, hk]
  | cons entry rest ih =>
    by_cases hkey : entry.1 = k
    · simp [insertEntry, hkey, hk]
    · rw [insertEntry, if_neg hkey, List.filter_cons, List.filter_cons, ih]

theorem OrderedMap.entries_foldl_erase {κ α : Type} [DecidableEq κ] (m : OrderedMap κ α)
    (ks : List κ) : (ks.foldl OrderedMap.erase m).entries = m.entries.filter (·.1 ∉ ks) := by
  induction ks generalizing m with
  | nil => simp
  | cons k ks ih =>
    rw [List.foldl_cons, ih, OrderedMap.erase, List.filter_filter]
    congr 1
    funext entry
    simp [Bool.and_comm]

namespace StampedRegistry

variable {ι : Type} [DecidableEq ι]

/-- No item is stored under two names. -/
def OneName (r : StampedRegistry ι) : Prop := r.registry.items.values.Nodup

omit [DecidableEq ι] in
theorem OneName.eq_of_get? {r : StampedRegistry ι} (h : r.OneName) {name other : Text} {item : ι}
    (hname : r.registry.get? name = some item) (hother : r.registry.get? other = some item) :
    name = other := by
  have hentry := (OrderedMap.mem_entries_iff _ name item).mpr hname
  have hentry' := (OrderedMap.mem_entries_iff _ other item).mpr hother
  exact congrArg Prod.fst (List.inj_on_of_nodup_map h hentry hentry' rfl)

theorem names_entries (r : StampedRegistry ι) :
    r.entries.map Prod.fst = r.registry.items.keys := by
  simp [entries, OrderedMap.keys]

/-- The ids of items that are not in the registry. -/
def unstored (r : StampedRegistry ι) (ids : OrderedMap ι Nat) : List (ι × Nat) :=
  ids.entries.filter (·.1 ∉ r.registry.items.values)

theorem entries_cleared (r : StampedRegistry ι) : r.cleared.entries = r.unstored r.ids :=
  OrderedMap.entries_foldl_erase _ _

omit [DecidableEq ι] in
theorem mem_values {r : StampedRegistry ι} {name : Text} {item : ι}
    (h : r.registry.get? name = some item) : item ∈ r.registry.items.values :=
  (OrderedMap.mem_values_iff _ item).mpr ⟨name, h⟩

theorem get?_cleared {r : StampedRegistry ι} {item : ι} (h : item ∈ r.registry.items.values) :
    r.cleared.get? item = none := by
  rw [Option.eq_none_iff_forall_ne_some]
  intro id hid
  have hm := (OrderedMap.mem_entries_iff _ item id).mpr hid
  rw [entries_cleared, unstored, List.mem_filter] at hm
  exact absurd h (by simpa using hm.2)

/-- Giving an item of the registry an id leaves those outside alone. -/
theorem unstored_insert {r : StampedRegistry ι} {item : ι} (h : item ∈ r.registry.items.values)
    (ids : OrderedMap ι Nat) (id : Nat) : r.unstored (ids.insert item id) = r.unstored ids :=
  filter_insertEntry (p := fun i => decide (i ∉ r.registry.items.values)) (by simpa using h) id _

/-- Ids can be given to the items of any defined names. If an item has but one name, it is then the
one of its name, or the one it had if its name is not among them. -/
theorem assign_all {r : StampedRegistry ι} {entries : List (Text × Nat)}
    (hdefined : ∀ entry ∈ entries, r.registry.defines entry.1 = true) (ids : OrderedMap ι Nat) :
    ∃ after, entries.foldlM r.assign ids = .ok after ∧ r.unstored after = r.unstored ids ∧
      (r.OneName → (entries.map Prod.fst).Nodup → ∀ name item, r.registry.get? name = some item →
        after.get? item = (entries.lookup name).or (ids.get? item)) := by
  induction entries generalizing ids with
  | nil =>
    refine ⟨ids, rfl, rfl, ?_⟩
    intro _ _ name item _
    rw [List.lookup_nil, Option.none_or]
  | cons entry rest ih =>
    obtain ⟨first, id⟩ := entry
    obtain ⟨stored, hstored⟩ := Option.isSome_iff_exists.mp (hdefined (first, id) (by simp))
    have hstored : r.registry.get? first = some stored := hstored
    have hassign : r.assign ids (first, id) = .ok (ids.insert stored id) := by
      rw [assign, hstored]
    obtain ⟨after, hrest, hunstored, hids⟩ :=
      ih (fun entry hm => hdefined entry (by simp [hm])) (ids.insert stored id)
    refine ⟨after, ?_, hunstored.trans (unstored_insert (mem_values hstored) ids id), ?_⟩
    · rw [List.foldlM_cons, hassign, ok_bind, hrest]
    · intro hone hnodup name item hitem
      rw [List.map_cons, List.nodup_cons] at hnodup
      rw [hids hone hnodup.2 name item hitem, OrderedMap.get?_insert, List.lookup_cons]
      by_cases hname : name = first
      · -- the other names are different, so none of them has the item
        subst hname
        have hsame : item = stored := Option.some_inj.mp (hitem.symm.trans hstored)
        have hlast : rest.lookup name = none := by
          rw [List.lookup_eq_none_iff]
          intro entry hm
          rw [bne_iff_ne]
          rintro rfl
          exact hnodup.1 (List.mem_map.mpr ⟨entry, hm, rfl⟩)
        rw [hlast, if_pos hsame, beq_self_eq_true]
        rfl
      · have hother : item ≠ stored := by
          rintro rfl
          exact hname (hone.eq_of_get? hitem hstored)
        rw [if_neg hother, beq_false_of_ne hname]

/-- What a finalization makes of a sound registry. -/
theorem finalize_spec {r : StampedRegistry ι} (h : r.registry.Sound) :
    ∃ after, r.finalize = .ok after ∧ after.registry = r.registry ∧ after.finalize = .ok after ∧
      (r.OneName → ∀ name item, r.registry.get? name = some item →
        after.ids.get? item = r.registry.idOf? name) := by
  have hdefined : ∀ entry ∈ r.registry.referenced.zipIdx, r.registry.defines entry.1 = true := by
    intro entry hm
    exact h.defined entry.1 (List.fst_mem_of_mem_zipIdx hm)
  obtain ⟨ids, hassign, hunstored, hids⟩ := assign_all hdefined r.cleared
  refine ⟨{ r with ids }, ?_, rfl, ?_, ?_⟩
  · rw [finalize, hassign]
    rfl
  · have hcleared : cleared { r with ids } = r.cleared := by
      apply OrderedMap.ext
      calc
        (cleared { r with ids }).entries = r.unstored ids := entries_cleared { r with ids }
        _ = r.unstored r.cleared := hunstored
        _ = r.cleared.entries := by
          unfold unstored
          rw [entries_cleared, unstored, List.filter_filter]
          simp
    have hagain : r.registry.referenced.zipIdx.foldlM (assign { r with ids })
        (cleared { r with ids }) = .ok ids := by
      rw [hcleared]
      exact hassign
    rw [finalize, hagain]
    rfl
  · intro hone name item hitem
    have hnodup : (r.registry.referenced.zipIdx.map Prod.fst).Nodup := by
      simpa using h.nodup
    rw [hids hone hnodup name item hitem, get?_cleared (mem_values hitem), Option.or_none,
      Registry.lookup_referenced]

end StampedRegistry

/-- What a registry of items can be asked. -/
inductive RegistryCall (ι : Type) where
  | add (name : Text) (item : ι)
  | get (name : Text)
  | contains (name : Text)
  | reference (name : Text)
  | finalize

/-- A registry with what it was asked. -/
structure Session (ι : Type) where
  items : StampedRegistry ι
  /-- The names that were added. -/
  added : List Text := []
  /-- The names that were referred to, with the ids that were returned. -/
  answers : List (Text × Option Nat) := []

namespace Session

variable {ι : Type} [DecidableEq ι]

/-- The session after one more call. -/
def call (s : Session ι) : RegistryCall ι → Except Fault (Session ι)
  | .add name item => .ok { s with items := s.items.add name item, added := s.added ++ [name] }
  | .get _ => .ok s
  | .contains _ => .ok s
  | .reference name =>
    let (items, id) := s.items.reference name
    .ok { s with items, answers := s.answers ++ [(name, id)] }
  | .finalize => do pure { s with items := ← s.items.finalize }

/-- The names that were given an id, as often as they were. -/
def named (s : Session ι) : List Text := (s.answers.filter (·.2.isSome)).map Prod.fst

/-- The registry agrees with what it was asked. -/
structure Kept (limit : Option Int) (s : Session ι) : Prop where
  sound : s.items.registry.Sound
  limited : s.items.registry.limit = limit
  /-- Items are in the order in which their names were first added. -/
  ordered : s.items.registry.items.keys = s.added.eraseDups
  /-- Ids were given in the order in which they were first returned. -/
  referenced : s.items.registry.referenced = s.named.eraseDups
  /-- The ids that names have are those that were returned. -/
  answered : ∀ name id, (name, some id) ∈ s.answers ↔ s.items.registry.idOf? name = some id
  /-- An id that was returned once is returned ever after. -/
  repeated : s.answers.Pairwise fun earlier later =>
    earlier.1 = later.1 → earlier.2.isSome = true → later.2 = earlier.2

namespace Kept

variable {limit : Option Int} {s : Session ι}

omit [DecidableEq ι] in
theorem start (limit : Option Int) (ids : OrderedMap ι Nat) :
    Kept limit { items := { registry := { limit }, ids } } where
  sound := Registry.sound_empty limit
  limited := rfl
  ordered := rfl
  referenced := rfl
  answered := by simp [Registry.idOf?]
  repeated := .nil

omit [DecidableEq ι] in
theorem add (h : s.Kept limit) (name : Text) (item : ι) :
    Kept limit { s with items := s.items.add name item, added := s.added ++ [name] } where
  sound := h.sound.add name item
  limited := h.limited
  ordered := by
    change (s.items.registry.items.insert name item).keys = _
    rw [OrderedMap.keys_insert, h.ordered, eraseDups_concat]
    simp only [List.mem_eraseDups]
  referenced := h.referenced
  answered := h.answered
  repeated := h.repeated

omit [DecidableEq ι] in
theorem reference (h : s.Kept limit) (name : Text) :
    Kept limit { s with
      items := (s.items.reference name).1
      answers := s.answers ++ [(name, (s.items.reference name).2)] } where
  sound := h.sound.reference name
  limited := (s.items.registry.limit_reference name).trans h.limited
  ordered := by
    change (s.items.registry.reference name).1.items.keys = _
    rw [Registry.items_reference]
    exact h.ordered
  referenced := by
    change (s.items.registry.reference name).1.referenced =
      (((s.answers ++ [(name, (s.items.registry.reference name).2)]).filter
        (·.2.isSome)).map Prod.fst).eraseDups
    rw [Registry.referenced_reference, h.referenced, List.filter_append, List.map_append]
    cases hid : (s.items.registry.reference name).2 with
    | none => simp [named]
    | some id =>
      simp only [List.mem_eraseDups, Option.isSome_some, true_and, List.filter_cons_of_pos,
        List.filter_nil, List.map_cons, List.map_nil]
      rw [eraseDups_concat, ite_not]
      rfl
  answered := by
    intro other id
    have hsnd : (s.items.reference name).2 = (s.items.registry.reference name).1.idOf? name :=
      h.sound.reference_snd name
    rw [List.mem_append, List.mem_singleton, Prod.mk.injEq, hsnd, h.answered]
    change _ ↔ (s.items.registry.reference name).1.idOf? other = some id
    by_cases hname : other = name
    · subst hname
      constructor
      · rintro (hold | ⟨-, hnew⟩)
        · exact Registry.idOf?_reference_of_some hold other
        · exact hnew.symm
      · intro hnew
        exact .inr ⟨rfl, hnew.symm⟩
    · rw [Registry.idOf?_reference_of_ne _ hname]
      simp [hname]
  repeated := by
    refine List.pairwise_append.mpr ⟨h.repeated, List.pairwise_singleton .., ?_⟩
    rintro ⟨earlier, answer⟩ hearlier later hlater hname hsome
    obtain ⟨id, rfl⟩ := Option.isSome_iff_exists.mp hsome
    cases List.mem_singleton.mp hlater
    cases hname
    have hsnd : (s.items.reference name).2 = (s.items.registry.reference name).1.idOf? name :=
      h.sound.reference_snd name
    exact hsnd.trans (Registry.idOf?_reference_of_some ((h.answered _ _).mp hearlier) _)

theorem finalize (h : s.Kept limit) :
    ∃ after, s.call .finalize = .ok after ∧ after.Kept limit := by
  obtain ⟨after, hfinalize, hregistry, -⟩ := StampedRegistry.finalize_spec h.sound
  refine ⟨{ s with items := after }, ?_, ?_⟩
  · rw [Session.call, hfinalize]
    rfl
  · constructor
    · exact hregistry ▸ h.sound
    · exact hregistry ▸ h.limited
    · exact hregistry ▸ h.ordered
    · exact hregistry ▸ h.referenced
    · exact hregistry ▸ h.answered
    · exact h.repeated

/-- Every call keeps the registry in agreement with what it was asked. -/
theorem call (h : s.Kept limit) (c : RegistryCall ι) :
    ∃ after, s.call c = .ok after ∧ after.Kept limit := by
  cases c with
  | add name item => exact ⟨_, rfl, h.add name item⟩
  | get name => exact ⟨s, rfl, h⟩
  | contains name => exact ⟨s, rfl, h⟩
  | reference name => exact ⟨_, rfl, h.reference name⟩
  | finalize => exact h.finalize

omit [DecidableEq ι] in
theorem defines_iff (h : s.Kept limit) (name : Text) :
    s.items.registry.defines name = true ↔ name ∈ s.added := by
  rw [← List.mem_eraseDups, ← h.ordered, OrderedMap.mem_keys_iff]
  rfl

end Kept

/-- What can be said of a registry with a limit and of what it was asked. -/
structure Faithful (limit : Option Int) (s : Session ι) : Prop where
  /-- The names that have an id differ, were added, and are no more than the limit allows. -/
  distinct : s.items.registry.referenced.Nodup
  defined : ∀ name ∈ s.items.registry.referenced, name ∈ s.added
  within : ∀ l, limit = some l → (s.items.registry.referenced.length : Int) ≤ max l 0
  /-- A reference that returned an id returned it ever after, -/
  repeated : s.answers.Pairwise fun earlier later =>
    earlier.1 = later.1 → earlier.2.isSome = true → later.2 = earlier.2
  /-- and would again. -/
  known : ∀ name id, (name, some id) ∈ s.answers → (s.items.reference name).2 = some id
  /-- A reference returns no id just for a name that was not added, and for one without an id when
  as many as the limit allows have one. -/
  unanswered : ∀ name, (s.items.reference name).2 = none ↔
    name ∉ s.added ∨ (∀ id, (name, some id) ∉ s.answers) ∧
      ∃ l, limit = some l ∧ l ≤ s.items.registry.referenced.length
  /-- Items are in the order in which their names were first added. -/
  ordered : s.items.entries.map Prod.fst = s.added.eraseDups
  /-- A finalization can be made, and then every item has the id that was returned for its name; one
  more changes nothing. -/
  finalized : ∃ after, s.items.finalize = .ok after ∧ after.finalize = .ok after ∧
    after.entries.map Prod.fst = s.added.eraseDups ∧
    (s.items.OneName → ∀ name item id, (name, item, id) ∈ after.entries →
      ∀ i, id = some i ↔ (name, some i) ∈ s.answers)

theorem Kept.faithful {limit : Option Int} {s : Session ι} (h : s.Kept limit) :
    s.Faithful limit where
  distinct := h.sound.nodup
  defined := by
    intro name hname
    exact (h.defines_iff name).mp (h.sound.defined name hname)
  within := by
    intro l hl
    exact h.sound.within l (h.limited.trans hl)
  repeated := h.repeated
  known := by
    intro name id hanswer
    have hid := (h.answered name id).mp hanswer
    exact (h.sound.reference_snd name).trans (Registry.idOf?_reference_of_some hid name)
  unanswered := by
    intro name
    have hnew : (∀ id, (name, some id) ∉ s.answers) ↔ s.items.registry.idOf? name = none := by
      simp only [h.answered, Option.eq_none_iff_forall_ne_some, ne_eq]
    rw [hnew, ← h.defines_iff, Bool.not_eq_true, ← h.limited, ← Registry.isFull_iff]
    exact s.items.registry.reference_snd_eq_none_iff name
  ordered := s.items.names_entries.trans h.ordered
  finalized := by
    obtain ⟨after, hfinalize, hregistry, hagain, hids⟩ := StampedRegistry.finalize_spec h.sound
    refine ⟨after, hfinalize, hagain, ?_, ?_⟩
    · rw [after.names_entries, hregistry, h.ordered]
    · intro hone name item id hentry i
      obtain ⟨⟨_, _⟩, hstored, hsame⟩ := List.mem_map.mp hentry
      cases hsame
      rw [hregistry] at hstored
      rw [hids hone name item ((OrderedMap.mem_entries_iff _ name item).mp hstored), h.answered]

end Session

/-- A registry hands out ids faithfully, whatever it is asked, and whatever ids the items had. -/
theorem ids_handed_out {ι : Type} [DecidableEq ι] (limit : Option Int) (ids : OrderedMap ι Nat)
    (calls : List (RegistryCall ι)) :
    ∃ s, calls.foldlM Session.call { items := { registry := { limit }, ids } } = .ok s ∧
      s.Faithful limit := by
  obtain ⟨s, hcalls, hkept⟩ := foldlM_keeps (I := Session.Kept limit)
    (fun _ c hs => hs.call c) (Session.Kept.start limit ids) calls
  exact ⟨s, hcalls, hkept.faithful⟩

/-- Two ids for three names, one of which is referred to before it is added, and whose item is
replaced after a finalization. -/
theorem ids_handed_out_replaced :
    ∃ s : Session Nat, [.reference "A".toList, .add "A".toList 1, .reference "A".toList, .finalize,
        .add "B".toList 2, .reference "B".toList, .add "A".toList 3, .add "C".toList 4,
        .reference "C".toList, .reference "A".toList].foldlM Session.call
          { items := { registry := { limit := some 2 }, ids := ∅ } } = .ok s ∧
      s.answers = [("A".toList, none), ("A".toList, some 0), ("B".toList, some 1),
        ("C".toList, none), ("A".toList, some 0)] ∧
      s.items.OneName ∧
      ∃ after, s.items.finalize = .ok after ∧ ∀ name item id, (name, item, id) ∈ after.entries →
        ∀ i, id = some i ↔ (name, some i) ∈ s.answers := by
  obtain ⟨s, hcalls, hfaithful⟩ := ids_handed_out (some 2) (∅ : OrderedMap Nat Nat)
    [.reference "A".toList, .add "A".toList 1, .reference "A".toList, .finalize,
      .add "B".toList 2, .reference "B".toList, .add "A".toList 3, .add "C".toList 4,
      .reference "C".toList, .reference "A".toList]
  have hseen : (Except.ok s : Except Fault (Session Nat)).toOption.map
      (fun s => (s.answers, s.items.registry.items.values)) =
      some ([("A".toList, none), ("A".toList, some 0), ("B".toList, some 1), ("C".toList, none),
        ("A".toList, some 0)], [3, 2, 4]) := by
    rw [← hcalls]
    decide
  obtain ⟨hanswers, hvalues⟩ := Prod.mk.inj (Option.some_inj.mp hseen)
  have hone : s.items.OneName := by
    change s.items.registry.items.values.Nodup
    rw [hvalues]
    decide
  obtain ⟨after, hfinalize, -, -, hids⟩ := hfaithful.finalized
  exact ⟨s, hcalls, hanswers, hone, after, hfinalize, hids hone⟩

end KeyProfile

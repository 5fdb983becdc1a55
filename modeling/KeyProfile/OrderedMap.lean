/-!
Finite maps that remember the order in which their keys were first set. Setting a key again keeps
its place. Main statements: what a look-up sees after a write (`get?_insert`), and what a write does
to the order of the keys (`keys_insert`).
-/

namespace KeyProfile

/-- The entry list after setting `k`: changed in place if `k` is there, at the end otherwise. -/
def insertEntry [DecidableEq κ] (k : κ) (a : α) : List (κ × α) → List (κ × α)
  | [] => [(k, a)]
  | entry :: rest =>
    if entry.1 = k then (k, a) :: rest else entry :: insertEntry k a rest

theorem keys_insertEntry [DecidableEq κ] (k : κ) (a : α) (entries : List (κ × α)) :
    (insertEntry k a entries).map Prod.fst =
      if k ∈ entries.map Prod.fst then entries.map Prod.fst else entries.map Prod.fst ++ [k] := by
  induction entries with
  | nil => simp [insertEntry]
  | cons entry rest ih =>
    by_cases h : entry.1 = k
    · simp [insertEntry, h]
    · have hne : ¬k = entry.1 := fun e => h e.symm
      by_cases hk : k ∈ rest.map Prod.fst
      · rw [if_pos hk] at ih
        rw [List.map_cons, if_pos (List.mem_cons_of_mem _ hk)]
        simp [insertEntry, h, ih]
      · rw [if_neg hk] at ih
        rw [if_neg (by simpa [hne] using hk)]
        simp [insertEntry, h, ih]

theorem insertEntry_of_notMem [DecidableEq κ] {k : κ} {entries : List (κ × α)}
    (h : k ∉ entries.map Prod.fst) (a : α) : insertEntry k a entries = entries ++ [(k, a)] := by
  induction entries with
  | nil => rfl
  | cons entry rest ih =>
    rw [List.map_cons, List.mem_cons, not_or] at h
    have hne : ¬entry.1 = k := fun e => h.1 e.symm
    rw [insertEntry, if_neg hne, ih h.2, List.cons_append]

theorem nodup_insertEntry [DecidableEq κ] (k : κ) (a : α) {entries : List (κ × α)}
    (h : (entries.map Prod.fst).Nodup) : ((insertEntry k a entries).map Prod.fst).Nodup := by
  rw [keys_insertEntry]
  split
  · exact h
  · next hk =>
    refine List.nodup_append.mpr ⟨h, by simp, ?_⟩
    intro x hx y hy e
    simp only [List.mem_singleton] at hy
    exact hk (by rw [← hy, ← e]; exact hx)

theorem lookup_cons_ite [DecidableEq κ] (j key : κ) (value : α) (rest : List (κ × α)) :
    ((key, value) :: rest).lookup j = if j = key then some value else rest.lookup j := by
  by_cases h : j = key
  · simp [h]
  · have hb : (j == key) = false := by simpa using h
    simp [List.lookup_cons, hb, h]

theorem lookup_insertEntry [DecidableEq κ] (k j : κ) (a : α) (entries : List (κ × α)) :
    (insertEntry k a entries).lookup j = if j = k then some a else entries.lookup j := by
  induction entries with
  | nil => exact lookup_cons_ite j k a []
  | cons entry rest ih =>
    obtain ⟨key, value⟩ := entry
    by_cases h : key = k
    · subst h
      by_cases hj : j = key <;> simp [insertEntry, lookup_cons_ite, hj]
    · by_cases hj : j = key
      · subst hj
        simp [insertEntry, h]
      · simp [insertEntry, h, lookup_cons_ite, hj, ih]

theorem lookup_of_nodup [BEq κ] [LawfulBEq κ] {entries : List (κ × α)}
    (h : (entries.map Prod.fst).Nodup) {k : κ} {a : α} (hm : (k, a) ∈ entries) :
    entries.lookup k = some a := by
  rw [List.lookup_eq_some_iff]
  obtain ⟨before, after, hentries⟩ := List.append_of_mem hm
  refine ⟨before, after, hentries, ?_⟩
  intro entry hentry
  rw [hentries, List.map_append, List.map_cons, List.nodup_append] at h
  have hne := h.2.2 entry.1 (List.mem_map_of_mem hentry) k (by simp)
  simpa using fun e => hne e.symm

theorem lookup_eq_some_iff_mem [BEq κ] [LawfulBEq κ] {entries : List (κ × α)}
    (h : (entries.map Prod.fst).Nodup) (k : κ) (a : α) :
    entries.lookup k = some a ↔ (k, a) ∈ entries := by
  constructor
  · intro hlookup
    obtain ⟨before, after, rfl, -⟩ := List.lookup_eq_some_iff.mp hlookup
    simp
  · exact lookup_of_nodup h

/-- A map with a list of entries in the order in which their keys were first set. -/
@[ext] structure OrderedMap (κ α : Type) where
  entries : List (κ × α)
  nodup_keys : (entries.map Prod.fst).Nodup

namespace OrderedMap

variable {κ α β : Type}

def empty : OrderedMap κ α := ⟨[], by simp⟩

instance : EmptyCollection (OrderedMap κ α) := ⟨empty⟩

instance : Inhabited (OrderedMap κ α) := ⟨empty⟩

instance [DecidableEq κ] [DecidableEq α] : DecidableEq (OrderedMap κ α) := fun m n =>
  if h : m.entries = n.entries then .isTrue (OrderedMap.ext h)
  else .isFalse fun e => h (by rw [e])

def keys (m : OrderedMap κ α) : List κ := m.entries.map Prod.fst

def values (m : OrderedMap κ α) : List α := m.entries.map Prod.snd

def size (m : OrderedMap κ α) : Nat := m.entries.length

/-- The first entries, as many as are asked for. -/
def take (n : Nat) (m : OrderedMap κ α) : OrderedMap κ α where
  entries := m.entries.take n
  nodup_keys := by
    rw [List.map_take]
    exact List.Nodup.sublist (List.take_sublist ..) m.nodup_keys

/-- The map with every value replaced. -/
def mapValues (f : κ → α → β) (m : OrderedMap κ α) : OrderedMap κ β where
  entries := m.entries.map fun e => (e.1, f e.1 e.2)
  nodup_keys := by
    have : (Prod.fst ∘ fun e : κ × α => (e.1, f e.1 e.2)) = Prod.fst := rfl
    rw [List.map_map, this]
    exact m.nodup_keys

variable [DecidableEq κ]

def get? (m : OrderedMap κ α) (k : κ) : Option α := m.entries.lookup k

def contains (m : OrderedMap κ α) (k : κ) : Bool := (m.get? k).isSome

def insert (m : OrderedMap κ α) (k : κ) (a : α) : OrderedMap κ α :=
  ⟨insertEntry k a m.entries, nodup_insertEntry k a m.nodup_keys⟩

/-- The map with the key set, unless it is set already. -/
def insertNew (m : OrderedMap κ α) (k : κ) (a : α) : OrderedMap κ α :=
  if m.contains k then m else m.insert k a

def erase (m : OrderedMap κ α) (k : κ) : OrderedMap κ α where
  entries := m.entries.filter (·.1 ≠ k)
  nodup_keys := List.Nodup.sublist (List.Sublist.map _ List.filter_sublist) m.nodup_keys

/-- The map with one value replaced; nothing happens if the key is not set. -/
def modify (m : OrderedMap κ α) (k : κ) (f : α → α) : OrderedMap κ α :=
  m.mapValues fun key a => if key = k then f a else a

def ofList (entries : List (κ × α)) : OrderedMap κ α :=
  entries.foldl (fun m e => m.insert e.1 e.2) ∅

theorem get?_empty (k : κ) : (∅ : OrderedMap κ α).get? k = none := rfl

theorem get?_insert (m : OrderedMap κ α) (k j : κ) (a : α) :
    (m.insert k a).get? j = if j = k then some a else m.get? j :=
  lookup_insertEntry k j a m.entries

theorem keys_insert (m : OrderedMap κ α) (k : κ) (a : α) :
    (m.insert k a).keys = if k ∈ m.keys then m.keys else m.keys ++ [k] :=
  keys_insertEntry k a m.entries

theorem entries_insert_of_notMem (m : OrderedMap κ α) {k : κ} (h : k ∉ m.keys) (a : α) :
    (m.insert k a).entries = m.entries ++ [(k, a)] :=
  insertEntry_of_notMem h a

theorem mem_keys_iff (m : OrderedMap κ α) (k : κ) : k ∈ m.keys ↔ m.contains k = true := by
  simp [keys, contains, get?]

/-- The keys being distinct, look-ups find all entries. -/
theorem mem_entries_iff (m : OrderedMap κ α) (k : κ) (a : α) :
    (k, a) ∈ m.entries ↔ m.get? k = some a :=
  (lookup_eq_some_iff_mem m.nodup_keys k a).symm

theorem mem_values_iff (m : OrderedMap κ α) (a : α) : a ∈ m.values ↔ ∃ k, m.get? k = some a := by
  simp [values, ← mem_entries_iff]

theorem get?_mapValues (f : κ → α → β) (m : OrderedMap κ α) (k : κ) :
    (m.mapValues f).get? k = (m.get? k).map (f k) := by
  simp only [get?, mapValues]
  induction m.entries with
  | nil => rfl
  | cons entry rest ih =>
    obtain ⟨key, value⟩ := entry
    rw [List.map_cons, lookup_cons_ite, lookup_cons_ite, ih]
    by_cases h : k = key
    · subst h; simp
    · simp [h]

omit [DecidableEq κ] in
theorem keys_mapValues (f : κ → α → β) (m : OrderedMap κ α) : (m.mapValues f).keys = m.keys := by
  simp [keys, mapValues]

theorem get?_insertNew (m : OrderedMap κ α) (k j : κ) (a : α) :
    (m.insertNew k a).get? j = if j = k then some ((m.get? k).getD a) else m.get? j := by
  unfold insertNew contains
  cases hk : m.get? k with
  | none => simp [get?_insert]
  | some b => by_cases h : j = k <;> simp [h, hk]

theorem keys_insertNew (m : OrderedMap κ α) (k : κ) (a : α) :
    (m.insertNew k a).keys = if k ∈ m.keys then m.keys else m.keys ++ [k] := by
  unfold insertNew
  by_cases h : m.contains k = true
  · rw [if_pos h, if_pos ((m.mem_keys_iff k).mpr h)]
  · rw [if_neg h, keys_insert]

theorem get?_modify (m : OrderedMap κ α) (k j : κ) (f : α → α) :
    (m.modify k f).get? j = if j = k then (m.get? j).map f else m.get? j := by
  rw [modify, get?_mapValues]
  by_cases h : j = k <;> simp [h]

theorem keys_modify (m : OrderedMap κ α) (k : κ) (f : α → α) : (m.modify k f).keys = m.keys :=
  keys_mapValues ..

end OrderedMap

end KeyProfile

import KeyProfile.Registry.Basic
import Mathlib.Tactic

/-!
Ids in the order of first reference. A registry is sound if the names referred to are defined,
differ, and are no more than its limit allows. A sound registry stays sound, keeps every id it gave,
and can be stamped. Main statement: after any references the names with an id are the defined ones
among them in the order of their first reference, cut off at the limit (`referenced_refer`).
-/

namespace KeyProfile

theorem ok_bind {ε α β : Type} (a : α) (f : α → Except ε β) : (Except.ok a >>= f) = f a := rfl

/-- If every step succeeds and keeps what it needs, so do all of them. -/
theorem foldlM_keeps {σ α ε : Type} {step : σ → α → Except ε σ} {I : σ → Prop}
    (hstep : ∀ s a, I s → ∃ s', step s a = .ok s' ∧ I s') {s : σ} (h : I s) (items : List α) :
    ∃ s', items.foldlM step s = .ok s' ∧ I s' := by
  induction items generalizing s with
  | nil => exact ⟨s, rfl, h⟩
  | cons a rest ih =>
    obtain ⟨middle, hfirst, hmiddle⟩ := hstep s a h
    obtain ⟨s', hrest, hs'⟩ := ih hmiddle
    exact ⟨s', by rw [List.foldlM_cons, hfirst, ok_bind, hrest], hs'⟩

section FirstOccurrences

variable {α : Type} [BEq α] [LawfulBEq α]

/-- One item more is a first occurrence unless it was there before. -/
theorem eraseDups_concat (items : List α) (item : α) :
    (items ++ [item]).eraseDups =
      if item ∈ items then items.eraseDups else items.eraseDups ++ [item] := by
  rw [List.eraseDups_append]
  by_cases h : item ∈ items <;> simp [List.removeAll, h, List.eraseDups_cons]

theorem eraseDups_of_nodup {items : List α} (h : items.Nodup) : items.eraseDups = items := by
  induction items using List.reverseRecOn with
  | nil => rfl
  | append_singleton items item ih =>
    obtain ⟨hitems, -, hapart⟩ := List.nodup_append.mp h
    have hnew : item ∉ items := by
      intro hm
      exact hapart item hm item (by simp) rfl
    rw [eraseDups_concat, if_neg hnew, ih hitems]

theorem nodup_eraseDups (items : List α) : items.eraseDups.Nodup := by
  induction items using List.reverseRecOn with
  | nil => simp
  | append_singleton items item ih =>
    rw [eraseDups_concat]
    split
    · exact ih
    · next hnew =>
      refine List.nodup_append.mpr ⟨ih, by simp, ?_⟩
      intro x hx y hy hxy
      have hy : y = item := by simpa using hy
      subst hxy hy
      exact hnew (List.mem_eraseDups.mp hx)

end FirstOccurrences

namespace Registry

variable {α : Type}

theorem idOf?_eq_some_iff (r : Registry α) (name : Text) (id : Nat) :
    r.idOf? name = some id ↔ name ∈ r.referenced ∧ r.referenced.idxOf name = id := by
  unfold idOf?
  by_cases hm : name ∈ r.referenced <;> simp [hm]

/-- The names referred to differ, are defined, and are no more than the limit allows. -/
structure Sound (r : Registry α) : Prop where
  nodup : r.referenced.Nodup
  defined : ∀ name ∈ r.referenced, r.defines name = true
  within : ∀ limit, r.limit = some limit → (r.referenced.length : Int) ≤ max limit 0

theorem sound_empty (limit : Option Int) : ({ limit } : Registry α).Sound where
  nodup := List.nodup_nil
  defined := by simp
  within := by simp

/-- Changing the items keeps a registry sound as long as no name is lost. -/
theorem Sound.with_items {r : Registry α} (h : r.Sound) {items : OrderedMap Text α}
    (hgrow : ∀ name, r.defines name = true → items.contains name = true) :
    Sound { r with items } where
  nodup := h.nodup
  defined := by
    intro name hm
    exact hgrow name (h.defined name hm)
  within := h.within

theorem defines_update (r : Registry α) (name other : Text) (f : α → α) :
    (r.update name f).defines other = r.defines other := by
  simp only [defines, update, OrderedMap.contains, OrderedMap.get?_modify]
  by_cases h : other = name <;> simp [h]

theorem Sound.update {r : Registry α} (h : r.Sound) (name : Text) (f : α → α) :
    (r.update name f).Sound := by
  apply h.with_items
  intro other hdef
  exact (r.defines_update name other f).trans hdef

theorem defines_add (r : Registry α) (name other : Text) (item : α) :
    (r.add name item).defines other = (decide (other = name) || r.defines other) := by
  simp only [defines, add, OrderedMap.contains, OrderedMap.get?_insert]
  by_cases h : other = name <;> simp [h]

theorem Sound.add {r : Registry α} (h : r.Sound) (name : Text) (item : α) :
    (r.add name item).Sound := by
  apply h.with_items
  intro other hdef
  have hadd := r.defines_add name other item
  rw [hdef, Bool.or_true] at hadd
  exact hadd

/-- A reference either changes nothing or puts a new name at the end. -/
theorem reference_fst (r : Registry α) (name : Text) :
    (r.reference name).1 =
      if r.defines name = true ∧ name ∉ r.referenced ∧ r.isFull = false then
        { r with referenced := r.referenced ++ [name] }
      else r := by
  unfold reference idOf?
  by_cases hd : r.defines name = true
  · by_cases hm : name ∈ r.referenced
    · simp [hd, hm]
    · cases hf : r.isFull <;> simp [hd, hm]
  · simp [hd]

@[simp] theorem items_reference (r : Registry α) (name : Text) :
    (r.reference name).1.items = r.items := by
  rw [reference_fst]
  split <;> rfl

@[simp] theorem limit_reference (r : Registry α) (name : Text) :
    (r.reference name).1.limit = r.limit := by
  rw [reference_fst]
  split <;> rfl

@[simp] theorem defines_reference (r : Registry α) (name other : Text) :
    (r.reference name).1.defines other = r.defines other := by
  simp [defines]

theorem Sound.reference {r : Registry α} (h : r.Sound) (name : Text) :
    (r.reference name).1.Sound := by
  rw [reference_fst]
  split
  · next hnew =>
    obtain ⟨hdef, hfresh, hfull⟩ := hnew
    refine ⟨?_, ?_, ?_⟩
    · refine List.nodup_append.mpr ⟨h.nodup, by simp, ?_⟩
      intro x hx y hy hxy
      have hy : y = name := by simpa using hy
      exact hfresh (hy ▸ hxy ▸ hx)
    · intro other hm
      rcases List.mem_append.mp hm with hm | hm
      · exact h.defined other hm
      · exact (List.mem_singleton.mp hm) ▸ hdef
    · intro limit hlimit
      have hlimit : r.limit = some limit := hlimit
      have hroom : ¬limit ≤ r.referenced.length := by simpa [isFull, hlimit] using hfull
      simp only [List.length_append, List.length_singleton]
      omega
  · exact h

/-- The id that a reference gives is the one that the name has from then on. -/
theorem Sound.reference_snd {r : Registry α} (h : r.Sound) (name : Text) :
    (r.reference name).2 = (r.reference name).1.idOf? name := by
  unfold Registry.reference
  by_cases hd : r.defines name = true
  · by_cases hm : name ∈ r.referenced
    · simp [hd, idOf?, hm]
    · cases hf : r.isFull <;> simp [hd, idOf?, hm, List.idxOf_append]
  · have hm : name ∉ r.referenced := by
      intro hm
      exact hd (h.defined name hm)
    simp [hd, idOf?, hm]

theorem isFull_iff (r : Registry α) :
    r.isFull = true ↔ ∃ limit, r.limit = some limit ∧ limit ≤ r.referenced.length := by
  unfold isFull
  cases r.limit <;> simp

/-- A reference goes without an id just to a name that is not defined, or a new one for which there
is no room. -/
theorem reference_snd_eq_none_iff (r : Registry α) (name : Text) :
    (r.reference name).2 = none ↔
      r.defines name = false ∨ (r.idOf? name = none ∧ r.isFull = true) := by
  unfold reference
  by_cases hd : r.defines name = true
  · cases hid : r.idOf? name with
    | some id => simp [hd]
    | none => cases hf : r.isFull <;> simp [hd]
  · simp [hd]

/-- A name becomes one of those referred to as soon as a reference to it returns an id. -/
theorem referenced_reference (r : Registry α) (name : Text) :
    (r.reference name).1.referenced =
      if (r.reference name).2.isSome = true ∧ name ∉ r.referenced then r.referenced ++ [name]
      else r.referenced := by
  unfold reference idOf?
  by_cases hd : r.defines name = true
  · by_cases hm : name ∈ r.referenced
    · simp [hd, hm]
    · cases hf : r.isFull <;> simp [hd, hm]
  · simp [hd]

/-- A reference gives no other name an id. -/
theorem idOf?_reference_of_ne (r : Registry α) {name other : Text} (hne : other ≠ name) :
    (r.reference name).1.idOf? other = r.idOf? other := by
  rw [reference_fst]
  split
  · by_cases hm : other ∈ r.referenced <;> simp [idOf?, hm, hne, List.idxOf_append]
  · rfl

/-- Further references do not change what a name has for an id: it has one, can never have one, or
there is none left. -/
def Settled (r : Registry α) (name : Text) : Prop :=
  name ∈ r.referenced ∨ r.defines name = false ∨ r.isFull = true

theorem settled_reference (r : Registry α) (name : Text) : (r.reference name).1.Settled name := by
  unfold Settled
  rw [defines_reference, reference_fst]
  by_cases hd : r.defines name = true
  · by_cases hm : name ∈ r.referenced
    · simp [hm]
    · cases hf : r.isFull <;> simp [hd, hm, hf]
  · exact .inr (.inl (by simpa using hd))

theorem Settled.reference {r : Registry α} {name : Text} (h : r.Settled name) (other : Text) :
    (r.reference other).1.Settled name := by
  unfold Settled
  rw [defines_reference, reference_fst]
  split
  · next hnew =>
    rcases h with hm | hd | hf
    · exact .inl (List.mem_append_left _ hm)
    · exact .inr (.inl hd)
    · rw [hnew.2.2] at hf
      cases hf
  · exact h

theorem Settled.idOf?_reference {r : Registry α} {name : Text} (h : r.Settled name)
    (other : Text) : (r.reference other).1.idOf? name = r.idOf? name := by
  rw [reference_fst]
  split
  · next hnew =>
    obtain ⟨hdef, -, hfull⟩ := hnew
    by_cases hm : name ∈ r.referenced
    · simp [idOf?, hm, List.idxOf_append]
    · have hne : name ≠ other := by
        rintro rfl
        rcases h with hm' | hd | hf
        · exact hm hm'
        · rw [hdef] at hd
          cases hd
        · rw [hfull] at hf
          cases hf
      simp [idOf?, hm, hne]
  · rfl

theorem idOf?_reference_of_some {r : Registry α} {name : Text} {id : Nat}
    (h : r.idOf? name = some id) (other : Text) : (r.reference other).1.idOf? name = some id := by
  have hsettled : r.Settled name := .inl ((idOf?_eq_some_iff r name id).mp h).1
  exact (hsettled.idOf?_reference other).trans h

/-- The registry after references to names, one after another. -/
def refer (r : Registry α) (names : List Text) : Registry α :=
  names.foldl (fun r name => (r.reference name).1) r

@[simp] theorem refer_nil (r : Registry α) : r.refer [] = r := rfl

theorem refer_cons (r : Registry α) (name : Text) (names : List Text) :
    r.refer (name :: names) = (r.reference name).1.refer names := rfl

theorem refer_append (r : Registry α) (names more : List Text) :
    r.refer (names ++ more) = (r.refer names).refer more :=
  List.foldl_append

/-- What every reference preserves, all of them preserve. -/
theorem refer_preserves {P : Registry α → Prop} {r : Registry α} (names : List Text)
    (hstep : ∀ r name, P r → P (r.reference name).1) (h : P r) : P (r.refer names) := by
  induction names generalizing r with
  | nil => exact h
  | cons name names ih => exact ih (hstep r name h)

@[simp] theorem items_refer (r : Registry α) (names : List Text) :
    (r.refer names).items = r.items := by
  apply refer_preserves (P := fun s => s.items = r.items) names
  · intro s name h
    exact (items_reference s name).trans h
  · rfl

@[simp] theorem limit_refer (r : Registry α) (names : List Text) :
    (r.refer names).limit = r.limit := by
  apply refer_preserves (P := fun s => s.limit = r.limit) names
  · intro s name h
    exact (limit_reference s name).trans h
  · rfl

@[simp] theorem defines_refer (r : Registry α) (names : List Text) (name : Text) :
    (r.refer names).defines name = r.defines name := by
  simp [defines]

theorem Sound.refer {r : Registry α} (h : r.Sound) (names : List Text) : (r.refer names).Sound :=
  refer_preserves names (fun _ name hr => hr.reference name) h

theorem Settled.refer {r : Registry α} {name : Text} (h : r.Settled name) (names : List Text) :
    (r.refer names).Settled name ∧ (r.refer names).idOf? name = r.idOf? name := by
  apply refer_preserves (P := fun s => s.Settled name ∧ s.idOf? name = r.idOf? name) names
  · rintro s other ⟨hsettled, hid⟩
    exact ⟨hsettled.reference other, (hsettled.idOf?_reference other).trans hid⟩
  · exact ⟨h, rfl⟩

theorem settled_refer (r : Registry α) {names : List Text} {name : Text} (h : name ∈ names) :
    (r.refer names).Settled name := by
  obtain ⟨before, after, rfl⟩ := List.append_of_mem h
  rw [refer_append, refer_cons]
  exact ((settled_reference _ name).refer after).1

/-- The names with an id are the defined ones in the order of first reference, up to the limit. -/
theorem referenced_refer {r : Registry α} (h : r.Sound) {limit : Nat}
    (hlimit : r.limit = some (limit : Int)) (names : List Text) :
    (r.refer names).referenced =
      (r.referenced ++ names.filter r.defines).eraseDups.take limit := by
  have hlength : r.referenced.length ≤ limit := by
    have := h.within _ hlimit
    omega
  induction names using List.reverseRecOn with
  | nil => simp [eraseDups_of_nodup h.nodup, List.take_of_length_le hlength]
  | append_singleton names name ih =>
    have hfull : (r.refer names).isFull = decide (limit ≤ (r.refer names).referenced.length) := by
      simp [isFull, hlimit]
    rw [refer_append, refer_cons, refer_nil, reference_fst, hfull, defines_refer,
      List.filter_append]
    set known := r.referenced ++ names.filter r.defines with hknown
    by_cases hd : r.defines name = true
    · rw [List.filter_cons_of_pos hd, List.filter_nil, ← List.append_assoc, ← hknown,
        eraseDups_concat]
      by_cases hm : name ∈ known
      · -- the name has an id already, or came when there was none left
        have hmem := List.mem_eraseDups.mpr hm
        rw [if_pos hm, if_neg, ih]
        rintro ⟨-, hnot, hroom⟩
        rw [ih] at hnot hroom
        have hshort : known.eraseDups.length ≤ limit := by
          simp only [List.length_take, decide_eq_false_iff_not] at hroom
          omega
        rw [List.take_of_length_le hshort] at hnot
        exact hnot hmem
      · rw [if_neg hm]
        have hnot : name ∉ (r.refer names).referenced := by
          rw [ih]
          intro hin
          exact hm (List.mem_eraseDups.mp (List.mem_of_mem_take hin))
        by_cases hroom : known.eraseDups.length < limit
        · have hall : (r.refer names).referenced = known.eraseDups := by
            rw [ih, List.take_of_length_le (by omega)]
          rw [if_pos ⟨hd, hnot, by simp [hall, hroom]⟩]
          simp only [hall]
          rw [List.take_of_length_le (by simp; omega)]
        · have hcut : (r.refer names).referenced.length = limit := by
            rw [ih, List.length_take]
            omega
          rw [if_neg (by simp [hcut]), ih, List.take_append_of_le_length (by omega)]
    · rw [if_neg (by simp [hd]), ih, List.filter_cons_of_neg (by simpa using hd)]
      simp [hknown]

/-- Whom references give an id depends on whom they gave one before, on the limit, and on which of
the names are defined. -/
theorem referenced_refer_congr {r s : Registry α} (hreferenced : r.referenced = s.referenced)
    (hlimit : r.limit = s.limit) {names : List Text}
    (hdefines : ∀ name ∈ names, r.defines name = s.defines name) :
    (r.refer names).referenced = (s.refer names).referenced := by
  induction names generalizing r s with
  | nil => exact hreferenced
  | cons name names ih =>
    have hfull : r.isFull = s.isFull := by rw [isFull, isFull, hlimit, hreferenced]
    rw [refer_cons, refer_cons]
    apply ih
    · rw [reference_fst, reference_fst, hreferenced, hfull, hdefines name (by simp)]
      split
      · rfl
      · exact hreferenced
    · rw [limit_reference, limit_reference, hlimit]
    · intro other hother
      rw [defines_reference, defines_reference]
      exact hdefines other (by simp [hother])

private theorem lookup_zipIdx (names : List Text) (name : Text) (start : Nat) :
    (names.zipIdx start).lookup name =
      if name ∈ names then some (start + names.idxOf name) else none := by
  induction names generalizing start with
  | nil => rfl
  | cons first rest ih =>
    rw [List.zipIdx_cons, List.lookup_cons, ih]
    by_cases h : name = first
    · subst h
      simp
    · have hne : (name == first) = false := beq_eq_false_iff_ne.mpr h
      have hen : (first == name) = false := beq_eq_false_iff_ne.mpr fun e => h e.symm
      by_cases hm : name ∈ rest
      · simp only [hne, hm, if_true, List.mem_cons, or_true, List.idxOf_cons, hen, cond_false]
        congr 1
        omega
      · simp [hne, h, hm]

theorem Sound.numbered {r : Registry α} (h : r.Sound) :
    r.numbered = .ok r.referenced.zipIdx := by
  unfold Registry.numbered
  have hall : ∀ entry ∈ r.referenced.zipIdx, r.defines entry.1 = true := by
    intro entry hm
    exact h.defined entry.1 (List.fst_mem_of_mem_zipIdx hm)
  generalize r.referenced.zipIdx = entries at hall
  induction entries with
  | nil => rfl
  | cons entry rest ih =>
    obtain ⟨name, id⟩ := entry
    have hfirst : r.defines name = true := hall (name, id) (by simp)
    rw [List.mapM_cons, ih fun e he => hall e (by simp [he])]
    simp only [hfirst]
    rfl

/-- Numbering the names referred to finds the ids that they have. -/
theorem lookup_referenced (r : Registry α) (name : Text) :
    r.referenced.zipIdx.lookup name = r.idOf? name := by
  simp [lookup_zipIdx, idOf?]

/-- A sound registry can be stamped, and every item is told the id that its name has. -/
theorem Sound.stamp {r : Registry α} (h : r.Sound) (setId : Option Nat → α → α) :
    r.stamp setId =
      .ok { r with items := r.items.mapValues fun name item => setId (r.idOf? name) item } := by
  calc
    r.stamp setId = .ok { r with
        items := r.items.mapValues fun name item =>
          setId (r.referenced.zipIdx.lookup name) item } := by
      unfold Registry.stamp
      rw [h.numbered]
      rfl
    _ = _ := by simp only [lookup_referenced]

end Registry

end KeyProfile

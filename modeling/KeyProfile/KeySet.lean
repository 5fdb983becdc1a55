/-!
Finite sets of integers, kept as strictly increasing lists. The list is determined by its members
(`ext_mem`), so two sets with the same members are equal.
-/

namespace KeyProfile

/-- A strictly increasing list with one more member. -/
def insertIncreasing (n : Int) : List Int → List Int
  | [] => [n]
  | m :: rest =>
    if n < m then n :: m :: rest
    else if n = m then m :: rest
    else m :: insertIncreasing n rest

theorem mem_insertIncreasing (n m : Int) (ns : List Int) :
    m ∈ insertIncreasing n ns ↔ m = n ∨ m ∈ ns := by
  induction ns with
  | nil => simp [insertIncreasing]
  | cons k rest ih =>
    simp only [insertIncreasing]
    split
    · simp
    · split
      · next h => subst h; simp
      · simp [ih, or_left_comm]

theorem pairwise_insertIncreasing (n : Int) {ns : List Int} (h : ns.Pairwise (· < ·)) :
    (insertIncreasing n ns).Pairwise (· < ·) := by
  induction ns with
  | nil => simp [insertIncreasing]
  | cons k rest ih =>
    have ⟨hk, hrest⟩ := List.pairwise_cons.mp h
    simp only [insertIncreasing]
    split
    · next hn =>
      refine List.pairwise_cons.mpr ⟨?_, h⟩
      intro m hm
      rcases List.mem_cons.mp hm with rfl | hm
      · exact hn
      · have := hk m hm
        omega
    · split
      · exact h
      · refine List.pairwise_cons.mpr ⟨?_, ih hrest⟩
        intro m hm
        rcases (mem_insertIncreasing n m rest).mp hm with rfl | hm
        · omega
        · exact hk m hm

structure KeySet where
  toList : List Int
  increasing : toList.Pairwise (· < ·)
deriving DecidableEq

namespace KeySet

def empty : KeySet := ⟨[], .nil⟩

instance : EmptyCollection KeySet := ⟨empty⟩

instance : Inhabited KeySet := ⟨empty⟩

instance : Membership Int KeySet := ⟨fun s n => n ∈ s.toList⟩

def insert (s : KeySet) (n : Int) : KeySet :=
  ⟨insertIncreasing n s.toList, pairwise_insertIncreasing n s.increasing⟩

def ofList (ns : List Int) : KeySet := ns.foldl insert ∅

def isEmpty (s : KeySet) : Bool := s.toList.isEmpty

theorem mem_insert (s : KeySet) (n m : Int) : m ∈ s.insert n ↔ m = n ∨ m ∈ s :=
  mem_insertIncreasing n m s.toList

theorem mem_ofList (ns : List Int) (n : Int) : n ∈ ofList ns ↔ n ∈ ns := by
  suffices ∀ s : KeySet, n ∈ ns.foldl insert s ↔ n ∈ s ∨ n ∈ ns by
    have h := this ∅
    have none : ¬n ∈ (∅ : KeySet) := fun h => nomatch h
    simpa [ofList, none] using h
  induction ns with
  | nil => intro s; simp
  | cons m rest ih =>
    intro s
    rw [List.foldl_cons, ih, mem_insert, List.mem_cons]
    constructor
    · rintro ((h | h) | h)
      · exact .inr (.inl h)
      · exact .inl h
      · exact .inr (.inr h)
    · rintro (h | h | h)
      · exact .inl (.inr h)
      · exact .inl (.inl h)
      · exact .inr h

/-- A set is determined by its members. -/
theorem ext_mem {s t : KeySet} (h : ∀ n, n ∈ s ↔ n ∈ t) : s = t := by
  suffices s.toList = t.toList by
    cases s; cases t; simp_all
  have distinct {u : KeySet} : u.toList.Nodup :=
    u.increasing.imp fun lt e => by omega
  have same : s.toList.Perm t.toList :=
    (List.perm_ext_iff_of_nodup distinct distinct).mpr h
  exact same.eq_of_pairwise (fun a b _ _ hab hba => by omega) s.increasing t.increasing

end KeySet

end KeyProfile

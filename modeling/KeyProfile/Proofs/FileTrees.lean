import KeyProfile.FileTree
import KeyProfile.Proofs.TextCuts
import Mathlib.Data.List.Induction

/-!
What stays in a file tree. Directories and files are only ever added (`Keeps`), so names that lead
somewhere go on leading there (`Keeps.follow`), and they lead where they say
(`place_of_follow`). Making directories leaves every file as it is, also if it fails in the end
(`grows_makeDirectories`); if it succeeds, the names of the path lead to a directory
(`leads_makeDirectories`).
-/

namespace KeyProfile

namespace Path

/-- The last name goes one step further. -/
theorem place_concat (start : Place) (names : List Text) (name : Text) :
    place start (names ++ [name]) =
      if isHere name then place start names
      else if isAbove name then (place start names).dropLast
      else place start names ++ [name] := by
  unfold place
  rw [List.foldl_append]
  rfl

/-- Names that stay where they are do not count. -/
theorem place_filter (start : Place) (names : List Text) :
    place start (names.filter (!isHere ·)) = place start names := by
  induction names using List.reverseRecOn with
  | nil => rfl
  | append_singleton names name ih =>
    rw [List.filter_append, place_concat]
    cases hhere : isHere name with
    | true =>
      have hnone : [name].filter (!isHere ·) = [] := by simp [hhere]
      rw [hnone, List.append_nil, ih]
      rfl
    | false =>
      have hkept : [name].filter (!isHere ·) = [name] := by simp [hhere]
      rw [hkept, place_concat, ih, hhere]

theorem isHere_of_mem_steps {path name : Text} (h : name ∈ steps path) : isHere name = false := by
  simpa using (List.mem_filter.mp h).2

section

variable {name : Text}

end

end Path

namespace FileTree

variable {α : Type}

/-- The content of the file at a place. -/
def file? (tree : FileTree α) (place : Place) : Option α :=
  match tree.nodeAt? place with
  | some (.file content) => some content
  | _ => none

/-- Whatever is somewhere is a directory or a file. -/
theorem isSome_nodeAt?_iff (tree : FileTree α) (place : Place) :
    (tree.nodeAt? place).isSome = true ↔
      tree.isDirectory place = true ∨ (tree.file? place).isSome = true := by
  unfold isDirectory file?
  cases tree.nodeAt? place with
  | none => simp
  | some node => cases node <;> simp

/-! Following names. -/

theorem enter_eq_ok_iff (tree : FileTree α) (place : Place) (name : Text) (next : Place) :
    tree.enter place name = .ok next ↔
      tree.isDirectory place = true ∧
        if Path.isHere name then next = place
        else if Path.isAbove name then next = place.dropLast
        else isTooLong name = false ∧ (tree.nodeAt? (place ++ [name])).isSome = true ∧
          next = place ++ [name] := by
  unfold enter
  cases tree.isDirectory place with
  | false => simp
  | true =>
    simp only [Bool.not_true, Bool.false_eq_true, if_false, true_and]
    split
    · rw [Except.ok.injEq, eq_comm]
    · split
      · rw [Except.ok.injEq, eq_comm]
      · cases isTooLong name with
        | true => simp
        | false => cases (tree.nodeAt? (place ++ [name])).isSome <;> simp [eq_comm]

theorem follow_concat (tree : FileTree α) (start : Place) (names : List Text) (name : Text) :
    tree.follow start (names ++ [name]) =
      tree.follow start names >>= fun place => tree.enter place name := by
  unfold follow
  rw [List.foldlM_append]
  congr 1
  funext place
  exact bind_pure (tree.enter place name)

theorem follow_concat_eq_ok_iff (tree : FileTree α) (start : Place) (names : List Text)
    (name : Text) (place : Place) :
    tree.follow start (names ++ [name]) = .ok place ↔
      ∃ before, tree.follow start names = .ok before ∧ tree.enter before name = .ok place := by
  rw [follow_concat]
  cases tree.follow start names with
  | error problem => simp [bind, Except.bind]
  | ok before => simp [bind, Except.bind]

/-- Names that lead somewhere lead where they say. -/
theorem place_of_follow {tree : FileTree α} {start place : Place} {names : List Text}
    (h : tree.follow start names = .ok place) : place = Path.place start names := by
  induction names using List.reverseRecOn generalizing place with
  | nil => cases h; rfl
  | append_singleton names name ih =>
    obtain ⟨before, hbefore, henter⟩ := (follow_concat_eq_ok_iff ..).mp h
    obtain ⟨-, hnext⟩ := (enter_eq_ok_iff ..).mp henter
    rw [Path.place_concat, ← ih hbefore]
    split at hnext
    · next hhere => rw [if_pos hhere, hnext]
    · next hhere =>
      rw [if_neg hhere]
      split at hnext
      · next habove => rw [if_pos habove, hnext]
      · next habove => rw [if_neg habove, hnext.2.2]

/-- The names lead from a place to a directory. -/
def Leads (tree : FileTree α) (start : Place) (names : List Text) : Prop :=
  tree.follow start names = .ok (Path.place start names) ∧
    tree.isDirectory (Path.place start names) = true

theorem leads_of_follow {tree : FileTree α} {start place : Place} {names : List Text}
    (h : tree.follow start names = .ok place) (hdirectory : tree.isDirectory place = true) :
    tree.Leads start names := by
  obtain rfl := place_of_follow h
  exact ⟨h, hdirectory⟩

/-- Names that stay where they are may be put in. -/
theorem leads_of_filter {tree : FileTree α} {start : Place} {names : List Text}
    (h : tree.Leads start (names.filter (!Path.isHere ·))) : tree.Leads start names := by
  obtain ⟨hfollow, hdirectory⟩ := h
  rw [Path.place_filter] at hfollow hdirectory
  refine ⟨?_, hdirectory⟩
  -- a name that stays needs a directory to stay in: every step but the last is into one anyway, and
  -- the last is by assumption
  generalize Path.place start names = place at hfollow hdirectory
  induction names using List.reverseRecOn generalizing place with
  | nil => exact hfollow
  | append_singleton names name ih =>
    rw [List.filter_append] at hfollow
    cases hhere : Path.isHere name with
    | true =>
      have hnone : [name].filter (!Path.isHere ·) = [] := by simp [hhere]
      rw [hnone, List.append_nil] at hfollow
      refine (follow_concat_eq_ok_iff ..).mpr ⟨place, ih place hfollow hdirectory, ?_⟩
      exact (enter_eq_ok_iff ..).mpr ⟨hdirectory, by rw [if_pos hhere]⟩
    | false =>
      have hkept : [name].filter (!Path.isHere ·) = [name] := by simp [hhere]
      rw [hkept] at hfollow
      obtain ⟨before, hbefore, henter⟩ := (follow_concat_eq_ok_iff ..).mp hfollow
      have hinside := ((enter_eq_ok_iff ..).mp henter).1
      exact (follow_concat_eq_ok_iff ..).mpr ⟨before, ih before hbefore hinside, henter⟩

/-! Trees that grow. -/

/-- What was there is there, directories as directories and files as files. -/
structure Keeps (before after : FileTree α) : Prop where
  home : after.home = before.home
  directories : ∀ place, before.isDirectory place = true → after.isDirectory place = true
  files : ∀ place, (before.file? place).isSome = true → (after.file? place).isSome = true

namespace Keeps

variable {before middle after : FileTree α}

theorem refl (tree : FileTree α) : Keeps tree tree := ⟨rfl, fun _ h => h, fun _ h => h⟩

theorem trans (h : Keeps before middle) (hmore : Keeps middle after) : Keeps before after where
  home := hmore.home.trans h.home
  directories place hplace := hmore.directories place (h.directories place hplace)
  files place hplace := hmore.files place (h.files place hplace)

theorem enter (h : Keeps before after) {place next : Place} {name : Text}
    (henter : before.enter place name = .ok next) : after.enter place name = .ok next := by
  obtain ⟨hdirectory, hnext⟩ := (enter_eq_ok_iff ..).mp henter
  refine (enter_eq_ok_iff ..).mpr ⟨h.directories place hdirectory, ?_⟩
  split at hnext
  · next hhere => rwa [if_pos hhere]
  · next hhere =>
    rw [if_neg hhere]
    split at hnext
    · next habove => rwa [if_pos habove]
    · next habove =>
      rw [if_neg habove]
      refine ⟨hnext.1, (isSome_nodeAt?_iff ..).mpr ?_, hnext.2.2⟩
      exact ((isSome_nodeAt?_iff ..).mp hnext.2.1).imp (h.directories _) (h.files _)

/-- Names go on leading where they led. -/
theorem follow (h : Keeps before after) {start place : Place} {names : List Text}
    (hfollow : before.follow start names = .ok place) : after.follow start names = .ok place := by
  induction names using List.reverseRecOn generalizing place with
  | nil => exact hfollow
  | append_singleton names name ih =>
    obtain ⟨middle, hmiddle, henter⟩ := (follow_concat_eq_ok_iff ..).mp hfollow
    exact (follow_concat_eq_ok_iff ..).mpr ⟨middle, ih hmiddle, h.enter henter⟩

theorem leads (h : Keeps before after) {start : Place} {names : List Text}
    (hleads : before.Leads start names) : after.Leads start names :=
  ⟨h.follow hleads.1, h.directories _ hleads.2⟩

theorem start (h : Keeps before after) (root : Text) : after.start root = before.start root := by
  unfold FileTree.start
  rw [h.home]

end Keeps

/-! Making directories. -/

theorem file?_put (tree : FileTree α) {place : Place} (hne : place ≠ []) (node : FileNode α)
    (other : Place) :
    (tree.put place node).file? other =
      if other = place then (match node with | .file content => some content | .directory => none)
      else tree.file? other := by
  unfold file?
  rw [nodeAt?_put tree hne]
  by_cases hother : other = place
  · rw [if_pos hother, if_pos hother]
    cases node <;> rfl
  · rw [if_neg hother, if_neg hother]

theorem isDirectory_put (tree : FileTree α) {place : Place} (hne : place ≠ []) (node : FileNode α)
    (other : Place) :
    (tree.put place node).isDirectory other =
      if other = place then (match node with | .file _ => false | .directory => true)
      else tree.isDirectory other := by
  unfold isDirectory
  rw [nodeAt?_put tree hne]
  by_cases hother : other = place
  · rw [if_pos hother, if_pos hother]
    cases node <;> rfl
  · rw [if_neg hother, if_neg hother]

/-- Something new in a free place takes nothing away. -/
theorem keeps_put {tree : FileTree α} {place : Place} (hne : place ≠ [])
    (hfree : tree.nodeAt? place = none) (node : FileNode α) : Keeps tree (tree.put place node) where
  home := rfl
  directories other hother := by
    have hapart : other ≠ place := by
      rintro rfl
      simp [isDirectory, hfree] at hother
    rwa [isDirectory_put tree hne, if_neg hapart]
  files other hother := by
    have hapart : other ≠ place := by
      rintro rfl
      simp [file?, hfree] at hother
    rwa [file?_put tree hne, if_neg hapart]

/-- What making one directory does: it goes into a free place of the directory that the other names
lead to. -/
theorem makeDirectory_spec {tree made : FileTree α} {root : Text} {names : List Text}
    (h : tree.makeDirectory root names = .ok made) :
    ∃ front last parent, names = front ++ [last] ∧
      tree.follow (tree.start root) front = .ok parent ∧
      tree.isDirectory parent = true ∧ Path.isAbove last = false ∧ isTooLong last = false ∧
      tree.nodeAt? (parent ++ [last]) = none ∧ made = tree.put (parent ++ [last]) .directory := by
  unfold makeDirectory at h
  split at h
  · cases h
  · next last hlast =>
    obtain ⟨front, rfl⟩ := List.getLast?_eq_some_iff.mp hlast
    rw [List.dropLast_concat] at h
    split at h
    · cases h
    · cases hparent : tree.follow (tree.start root) front with
      | error problem =>
        rw [hparent] at h
        cases h
      | ok parent =>
        rw [hparent] at h
        change (if _ then _ else _ : Except PathProblem (FileTree α)) = .ok made at h
        split at h
        · cases h
        · next hinside =>
          split at h
          · cases h
          · next habove =>
            split at h
            · cases h
            · next hshort =>
              split at h
              · cases h
              · next hfree =>
                cases h
                exact ⟨front, last, parent, rfl, hparent, by simpa using hinside,
                  by simpa using habove, by simpa using hshort, by simpa using hfree, rfl⟩

/-- More directories, and the files that there were. -/
structure Grows (before after : FileTree α) : Prop where
  home : after.home = before.home
  directories : ∀ place, before.isDirectory place = true → after.isDirectory place = true
  contents : ∀ place, after.file? place = before.file? place

namespace Grows

variable {before middle after : FileTree α}

theorem refl (tree : FileTree α) : Grows tree tree := ⟨rfl, fun _ h => h, fun _ => rfl⟩

theorem trans (h : Grows before middle) (hmore : Grows middle after) : Grows before after where
  home := hmore.home.trans h.home
  directories place hplace := hmore.directories place (h.directories place hplace)
  contents place := (hmore.contents place).trans (h.contents place)

theorem keeps (h : Grows before after) : Keeps before after where
  home := h.home
  directories := h.directories
  files place hplace := by rwa [h.contents]

end Grows

theorem grows_makeDirectory {tree made : FileTree α} {root : Text} {names : List Text}
    (h : tree.makeDirectory root names = .ok made) : Grows tree made := by
  obtain ⟨front, last, parent, -, -, -, -, -, hfree, rfl⟩ := makeDirectory_spec h
  have hne : parent ++ [last] ≠ [] := by simp
  have hkeeps := keeps_put hne hfree .directory
  refine ⟨hkeeps.home, hkeeps.directories, ?_⟩
  intro place
  rw [file?_put tree hne]
  split
  · next heq => simp [heq, file?, hfree]
  · rfl

theorem grows_makeFrom (tree : FileTree α) (root : Text) (names : List Text) :
    Grows tree (tree.makeFrom root names).1 := by
  induction names with
  | nil => exact .refl tree
  | cons last parents ih =>
    unfold makeFrom
    dsimp only
    split
    · next made hmade => exact grows_makeDirectory hmade
    · split
      · next heq => rwa [heq] at ih
      · next heq =>
        rw [heq] at ih
        split
        · next hmade => exact ih.trans (grows_makeDirectory hmade)
        · exact ih
    · exact .refl tree

/-- The directory that was made is where the names lead. -/
theorem leads_makeDirectory {tree made : FileTree α} {root : Text} {names : List Text}
    (hhere : ∀ name ∈ names, Path.isHere name = false)
    (h : tree.makeDirectory root names = .ok made) : made.Leads (tree.start root) names := by
  have hkeeps := (grows_makeDirectory h).keeps
  obtain ⟨front, last, parent, rfl, hparent, hinside, habove, hshort, -, rfl⟩ :=
    makeDirectory_spec h
  have hmade : (tree.put (parent ++ [last]) .directory).isDirectory (parent ++ [last]) = true := by
    rw [isDirectory_put tree (by simp), if_pos rfl]
  refine leads_of_follow ((follow_concat_eq_ok_iff ..).mpr ⟨parent, hkeeps.follow hparent, ?_⟩)
    hmade
  refine (enter_eq_ok_iff ..).mpr ⟨hkeeps.directories _ hinside, ?_⟩
  rw [if_neg (by simp [hhere last]), if_neg (by simp [habove])]
  exact ⟨hshort, (isSome_nodeAt?_iff ..).mpr (.inl hmade), rfl⟩

/-- What could not be made is no fault only if the names lead to a directory. -/
theorem leads_of_unlessThere {tree : FileTree α} {root : Text} {names : List Text}
    {problem : PathProblem} (h : tree.unlessThere root names problem = .ok ()) :
    tree.Leads (tree.start root) names := by
  unfold unlessThere at h
  split at h
  · cases h
  · next place _ hfollow =>
    split at h
    · next hdirectory => exact leads_of_follow hfollow hdirectory
    · cases h
  · cases h

theorem leads_makeFrom (tree : FileTree α) (root : Text) {names : List Text}
    (hhere : ∀ name ∈ names, Path.isHere name = false)
    (h : (tree.makeFrom root names).2 = .ok ()) :
    (tree.makeFrom root names).1.Leads (tree.start root) names.reverse := by
  cases names with
  | nil =>
    change tree.unlessThere root [] .taken = .ok () at h
    exact leads_of_unlessThere h
  | cons last parents =>
    have hnames : ∀ name ∈ (last :: parents).reverse, Path.isHere name = false := by
      intro name hname
      exact hhere name (List.mem_reverse.mp hname)
    have hgrows := grows_makeFrom tree root parents
    unfold makeFrom at h ⊢
    dsimp only at h ⊢
    split at h
    · next made hmade => exact leads_makeDirectory hnames hmade
    · split at h
      · cases h
      · next middle heq =>
        rw [heq] at hgrows
        rw [← hgrows.keeps.start root]
        split at h
        · next hmade => exact leads_makeDirectory hnames hmade
        · exact leads_of_unlessThere h
    · exact leads_of_unlessThere h

theorem grows_makeDirectories (tree : FileTree α) (path : Text) :
    Grows tree (tree.makeDirectories path).1 := by
  unfold makeDirectories
  split
  · exact .refl tree
  · exact grows_makeFrom tree _ _

/-- If the directories can be made, the names on the path lead to the last of them. -/
theorem leads_makeDirectories {tree : FileTree α} {path : Text} {place : Place}
    (h : (tree.makeDirectories path).2 = .ok place) :
    '\x00' ∉ path ∧ place = Path.place (tree.start (Path.root path)) (Path.names path) ∧
      (tree.makeDirectories path).1.Leads (tree.start (Path.root path)) (Path.names path) := by
  unfold makeDirectories at h ⊢
  split at h
  · cases h
  · next hnul =>
    have hhere : ∀ name ∈ (Path.steps path).reverse, Path.isHere name = false := by
      intro name hname
      exact Path.isHere_of_mem_steps (List.mem_reverse.mp hname)
    cases hmade : (tree.makeFrom (Path.root path) (Path.steps path).reverse).2 with
    | error fault =>
      simp only [hmade] at h
      cases h
    | ok done =>
      simp only [hmade] at h
      cases h
      refine ⟨by simpa using hnul, Path.place_filter .., leads_of_filter ?_⟩
      have hleads := leads_makeFrom tree (Path.root path) hhere hmade
      rw [List.reverse_reverse] at hleads
      rw [if_neg hnul]
      exact hleads

/-! Files. -/

/-- An opened file is there, and what is in it was there or is the content given. -/
theorem openFile_spec {tree after : FileTree α} {place : Place} (hne : place ≠ []) {path : Text}
    {content : α} (h : tree.openFile place path content = .ok after) :
    Keeps tree after ∧ ∀ other, after.file? other =
      if other = place then some ((tree.file? place).getD content) else tree.file? other := by
  unfold openFile at h
  split at h
  · cases h
  split at h
  · cases h
  split at h
  · next hfree =>
    cases h
    refine ⟨keeps_put hne hfree _, ?_⟩
    intro other
    have hnone : tree.file? place = none := by simp [file?, hfree]
    rw [file?_put tree hne, hnone]
    rfl
  · next there hthere =>
    cases h
    refine ⟨.refl tree, ?_⟩
    intro other
    have hsome : tree.file? place = some there := by simp [file?, hthere]
    split
    · next heq => rw [heq, hsome, Option.getD_some]
    · rfl
  · cases h

theorem nodeAt?_update (tree : FileTree α) (place : Place) (f : α → α) (other : Place) :
    (tree.update place f).nodeAt? other =
      if other = place then
        (tree.nodeAt? other).map fun
          | .file content => .file (f content)
          | .directory => .directory
      else tree.nodeAt? other := by
  unfold nodeAt? update
  cases other with
  | nil =>
    change some FileNode.directory = if [] = place then some FileNode.directory else _
    by_cases hroot : [] = place
    · rw [if_pos hroot]
    · rw [if_neg hroot]
      rfl
  | cons name names => exact OrderedMap.get?_modify ..

theorem file?_update (tree : FileTree α) (place : Place) (f : α → α) (other : Place) :
    (tree.update place f).file? other =
      if other = place then (tree.file? other).map f else tree.file? other := by
  unfold file?
  rw [nodeAt?_update]
  by_cases hother : other = place
  · rw [if_pos hother, if_pos hother]
    cases tree.nodeAt? other with
    | none => rfl
    | some node => cases node <;> rfl
  · rw [if_neg hother, if_neg hother]

theorem isDirectory_update (tree : FileTree α) (place : Place) (f : α → α) (other : Place) :
    (tree.update place f).isDirectory other = tree.isDirectory other := by
  unfold isDirectory
  rw [nodeAt?_update]
  by_cases hother : other = place
  · rw [if_pos hother]
    cases tree.nodeAt? other with
    | none => rfl
    | some node => cases node <;> rfl
  · rw [if_neg hother]

theorem keeps_update (tree : FileTree α) (place : Place) (f : α → α) :
    Keeps tree (tree.update place f) where
  home := rfl
  directories other hother := by rwa [isDirectory_update]
  files other hother := by
    rw [file?_update]
    split
    · rwa [Option.isSome_map]
    · exact hother

/-! Reading. -/

end FileTree

end KeyProfile

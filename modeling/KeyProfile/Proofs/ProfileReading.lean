import KeyProfile.ProfileFile
import KeyProfile.Proofs.FileText
import KeyProfile.Proofs.LogMeaning

/-!
Profiles read from files. What was logged before a compilation only stands in front of its log
(`compile_logged`), empty lines are passed over (`compile_full`), and effects are all that a
compilation looks up in files (`compile_congr`). So a file that can be read gives the profile that the
lines of its text give, however the lines end. Main statement: `profile_reading`.
-/

namespace KeyProfile

/-- The same effects can be loaded, whatever other files there are. -/
def Workspace.SameEffects (ws ws' : Workspace) : Prop :=
  ∀ name, Lighting.load ws.keyboard ws.files ws.dataRoot name =
    Lighting.load ws'.keyboard ws'.files ws'.dataRoot name

namespace Compilation

/-! Logs. -/

/-- The compilation with more records in front of its log. -/
def logged (c : Compilation) (before : List LogRecord) : Compilation :=
  { c with log := before ++ c.log }

theorem fillLine_logged (c : Compilation) (topic : Topic) (line : Text)
    (before : List LogRecord) :
    (c.logged before).fillLine topic line = (c.fillLine topic line).logged before := by
  cases topic with
  | nothing => rfl
  | lighting name layers => rfl
  | keys tables =>
    simp only [fillLine, bindLine]
    cases Binding.ofLine? line with
    | none => rfl
    | some b => simp [bindIn, logged]
  | actions name settings =>
    simp only [fillLine, actLine]
    split
    · split
      · simp [record, logged]
      · rfl
    · rfl

theorem enter_logged (ws : Workspace) (c : Compilation) (topic : Topic)
    (before : List LogRecord) :
    (c.logged before).enter ws topic = (c.enter ws topic).logged before := by
  cases topic with
  | nothing => rfl
  | keys tables => rfl
  | actions name settings => rfl
  | lighting name layers =>
    change (c.logged before).light ws name layers = (c.light ws name layers).logged before
    unfold light
    change (if c.effects.defines name then _ else _) = _
    split
    · rfl
    · split <;> simp [record, logged]

theorem foldl_build_logged (ws : Workspace) (groups : List GroupKind) (blocks : List Block)
    (c : Compilation) (before : List LogRecord) :
    blocks.foldl (build ws groups) (c.logged before) =
      (blocks.foldl (build ws groups) c).logged before := by
  apply List.foldl_hom (fun c : Compilation => c.logged before)
  intro c b
  unfold build
  rw [enter_logged]
  apply List.foldl_hom (fun c : Compilation => c.logged before)
  intro c line
  exact fillLine_logged c _ line before

/-- A compilation goes on in the same way whatever was logged before. -/
theorem compile_logged (ws : Workspace) (lines : List Text) (before : List LogRecord) :
    ∃ c d, Compilation.compile ws lines { log := before } = .ok c ∧
      KeyProfile.compile ws lines = .ok d ∧
      c.profile = d.profile ∧ c.log = before ++ d.log := by
  have hsound : Sound { log := before } :=
    ⟨sound_start.macros, sound_start.named, sound_start.effects⟩
  obtain ⟨c, cursor, hcompile, hc⟩ := hsound.compile_eq ws (Outline.ofLines lines)
  obtain ⟨d, cursor', hfresh, hd⟩ := compile_eq ws (Outline.ofLines lines)
  rw [Outline.lines_ofLines] at hcompile hfresh
  have hstart : ({ log := before } : Compilation) = logged {} before := by
    simp [logged]
  rw [hstart, foldl_build_logged, foldl_build_logged] at hc
  refine ⟨_, _, hcompile, hfresh, ?_, ?_⟩
  · rw [hc, hd]
    rfl
  · rw [hc, hd]
    exact List.append_assoc ..

/-! Empty lines. -/

theorem compileLine_empty (ws : Workspace) (groups : List GroupKind) (c : Compilation) :
    compileLine ws groups c [] = .ok c := by
  have hstrip : Text.strip [] = [] := rfl
  simp only [compileLine, hstrip, List.head?_nil, reduceCtorEq, if_false]
  cases c.group <;> rfl

theorem compilePass_full (ws : Workspace) (groups : List GroupKind) (lines : List Text)
    (c : Compilation) :
    c.compilePass ws groups (lines.filter (!·.isEmpty)) = c.compilePass ws groups lines := by
  unfold compilePass
  rw [List.foldlM_filter]
  congr 1
  funext c line
  cases line with
  | nil => exact (compileLine_empty ws groups c).symm
  | cons first rest => rfl

/-- Lines without any characters may be left out. -/
theorem compile_full (ws : Workspace) (lines : List Text) :
    KeyProfile.compile ws (lines.filter (!·.isEmpty)) = KeyProfile.compile ws lines := by
  unfold KeyProfile.compile Compilation.compile
  simp only [compilePass_full]

/-! Files of effects. -/

variable {ws ws' : Workspace}

theorem useLighting_congr (h : ws.SameEffects ws') (c : Compilation) (arguments : List Text) :
    c.useLighting ws arguments = c.useLighting ws' arguments := by
  cases arguments with
  | nil => rfl
  | cons name layers =>
    unfold useLighting
    simp only [h name]

theorem compileLine_congr (h : ws.SameEffects ws') (groups : List GroupKind) (c : Compilation)
    (line : Text) : compileLine ws groups c line = compileLine ws' groups c line := by
  unfold compileLine openGroup apply
  simp only [useLighting_congr h]

theorem compile_congr (h : ws.SameEffects ws') (lines : List Text) :
    KeyProfile.compile ws lines = KeyProfile.compile ws' lines := by
  have hpass (groups : List GroupKind) (c : Compilation) :
      c.compilePass ws groups lines = c.compilePass ws' groups lines := by
    unfold compilePass
    congr 1
    funext c line
    exact compileLine_congr h groups c line
  unfold KeyProfile.compile Compilation.compile
  simp only [hpass]

end Compilation

namespace ProfileFile

/-- The log with the levels of its records. -/
def Loaded.entries (loaded : Loaded) : List (LogLevel × LogRecord) :=
  loaded.log.map LogRecord.entry

/-- A file that can be read is compiled like its lines, after a record that says so. -/
theorem load_octets {ws : Workspace} {path : Text} {octets : Text.Octets}
    (h : ws.files.read path = .octets octets) :
    ∃ loaded d, load ws path = .ok loaded ∧ compile ws (linesOf octets) = .ok d ∧
      loaded.profile = some d.profile ∧
      loaded.entries = (.info, .loading path ws.dataRoot) :: d.entries := by
  obtain ⟨c, d, hcompile, hfresh, hprofile, hlog⟩ :=
    Compilation.compile_logged ws (linesOf octets) [.loading path ws.dataRoot]
  refine ⟨⟨some c.profile, c.log⟩, d, ?_, hfresh, congrArg some hprofile, ?_⟩
  · rw [load, h]
    dsimp only
    rw [hcompile, ok_bind]
    rfl
  · rw [Loaded.entries, hlog]
    rfl

theorem linesOf_of_encodes {t : Text} {octets : Text.Octets} (h : t.Encodes octets) :
    linesOf octets = t.lines := by
  rw [linesOf, Text.ofUtf8Lenient_of_encodes h, Text.lines_unifyLineEnds]

/-- Loading never fails, and it comes to nothing only without a file that can be read. -/
theorem load_cases (ws : Workspace) (path : Text) :
    ∃ loaded, load ws path = .ok loaded ∧
      (loaded.profile = none ↔
        ws.files.read path = .absent ∨ ∃ reason, ws.files.read path = .denied reason) ∧
      (ws.files.read path = .absent → loaded.entries = []) ∧
      ∀ reason, ws.files.read path = .denied reason →
        loaded.entries = [(.error, .loadDenied path reason)] := by
  cases hfile : ws.files.read path with
  | absent => exact ⟨{}, by rw [load, hfile], by simp, fun _ => rfl, nofun⟩
  | denied reason =>
    refine ⟨{ log := [.loadDenied path reason] }, by rw [load, hfile], by simp, nofun, ?_⟩
    rintro reason ⟨⟩
    rfl
  | octets octets =>
    obtain ⟨loaded, d, hload, -, hprofile, -⟩ := load_octets hfile
    exact ⟨loaded, hload, by simp [hprofile], nofun, nofun⟩

end ProfileFile

/-- Reading a profile from a file is the same as compiling the lines of its text: the profile is the
same, and so is the log after one record more. It is the same as well if other line ends are used, or
if a byte order mark is put before a text that does not begin with one, the effects being the same.
Any file that can be read gives a profile, whatever octets it contains. There is none only if there
is no file, or if the system does not let it be read; that is the one thing that is logged then. -/
theorem profile_reading (ws : Workspace) (path : Text) :
    (∀ t octets, Text.Encodes t octets → ws.files.read path = .octets octets →
      ∃ loaded d, ProfileFile.load ws path = .ok loaded ∧ compile ws t.lines = .ok d ∧
        loaded.profile = some d.profile ∧
        loaded.entries = (.info, .loading path ws.dataRoot) :: d.entries) ∧
    (∀ t t' octets octets' ws' path', Text.Exchanged t t' → ws.SameEffects ws' →
      Text.Encodes t octets → Text.Encodes t' octets' →
      ws.files.read path = .octets octets → ws'.files.read path' = .octets octets' →
      ∃ loaded loaded', ProfileFile.load ws path = .ok loaded ∧
        ProfileFile.load ws' path' = .ok loaded' ∧ loaded.profile = loaded'.profile) ∧
    (∀ octets, ws.files.read path = .octets octets →
      ∃ loaded profile, ProfileFile.load ws path = .ok loaded ∧ loaded.profile = some profile) ∧
    ∃ loaded, ProfileFile.load ws path = .ok loaded ∧
      (loaded.profile = none ↔
        ws.files.read path = .absent ∨ ∃ reason, ws.files.read path = .denied reason) ∧
      (ws.files.read path = .absent → loaded.entries = []) ∧
      ∀ reason, ws.files.read path = .denied reason →
        loaded.entries = [(.error, .loadDenied path reason)] := by
  refine ⟨?_, ?_, ?_, ProfileFile.load_cases ws path⟩
  · intro t octets hencodes hfile
    rw [← ProfileFile.linesOf_of_encodes hencodes]
    exact ProfileFile.load_octets hfile
  · intro t t' octets octets' ws' path' hends heffects hencodes hencodes' hfile hfile'
    obtain ⟨loaded, d, hload, hcompile, hprofile, -⟩ := ProfileFile.load_octets hfile
    obtain ⟨loaded', d', hload', hcompile', hprofile', -⟩ := ProfileFile.load_octets hfile'
    have hsame : compile ws t.lines = compile ws' t'.lines := by
      calc compile ws t.lines = compile ws t.fullLines := (Compilation.compile_full ws _).symm
        _ = compile ws t'.fullLines := by rw [hends.fullLines_eq]
        _ = compile ws t'.lines := Compilation.compile_full ws _
        _ = compile ws' t'.lines := Compilation.compile_congr heffects _
    rw [ProfileFile.linesOf_of_encodes hencodes] at hcompile
    rw [ProfileFile.linesOf_of_encodes hencodes', ← hsame, hcompile] at hcompile'
    cases hcompile'
    exact ⟨loaded, loaded', hload, hload', hprofile.trans hprofile'.symm⟩
  · intro octets hfile
    obtain ⟨loaded, d, hload, -, hprofile, -⟩ := ProfileFile.load_octets hfile
    exact ⟨loaded, d.profile, hload, hprofile⟩

/-- A marked file with CR LF and one with a single CR, in which a key is bound and an effect is
missing. A third file is denied, and beside them there is none. -/
theorem profile_reading_ends :
    ∃ (ws : Workspace) (marked plain denied other : ProfileFile.Loaded) (d : Compilation),
      ProfileFile.load ws "marked".toList = .ok marked ∧
      ProfileFile.load ws "plain".toList = .ok plain ∧
      ProfileFile.load ws "denied".toList = .ok denied ∧
      ProfileFile.load ws "other".toList = .ok other ∧
      compile ws (["[Lighting(Gone)]", "[Base]", "Esc: A"].map String.toList) = .ok d ∧
      marked.profile = some d.profile ∧ plain.profile = some d.profile ∧
      denied.entries = [(.error, .loadDenied "denied".toList "no".toList)] ∧
      other.profile = none := by
  set ws : Workspace :=
    { files := { read := fun path =>
        if path = "marked".toList then .octets (Text.byteOrderMark ++
          Text.toUtf8 "[Lighting(Gone)]\r\n[Base]\r\nEsc: A\r\n".toList)
        else if path = "plain".toList then
          .octets (Text.toUtf8 "[Lighting(Gone)]\n[Base]\rEsc: A\n".toList)
        else if path = "denied".toList then .denied "no".toList
        else .absent } } with hws
  obtain ⟨hlines, hends, -, -⟩ := profile_reading ws "marked".toList
  obtain ⟨marked, d, hmarked, hcompile, hprofile, -⟩ := hlines
    "[Lighting(Gone)]\r\n[Base]\r\nEsc: A\r\n".toList _ .marked rfl
  have hexchanged : Text.Exchanged "[Lighting(Gone)]\r\n[Base]\r\nEsc: A\r\n".toList
      "[Lighting(Gone)]\n[Base]\rEsc: A\n".toList :=
    .line "[Lighting(Gone)]".toList .crlf .lf
      (.line "[Base]".toList .crlf .cr (.line "Esc: A".toList .crlf .lf (.refl [])))
  obtain ⟨again, plain, hagain, hplain, hsame⟩ := hends _ _ _ _ ws "plain".toList hexchanged
    (fun _ => rfl) .marked (.plain (by decide)) rfl rfl
  obtain ⟨-, -, -, denied, hdenied, -, -, herror⟩ := profile_reading ws "denied".toList
  obtain ⟨-, -, -, other, hother, hnone, -⟩ := profile_reading ws "other".toList
  rw [hmarked] at hagain
  cases hagain
  exact ⟨ws, marked, plain, denied, other, d, hmarked, hplain, hdenied, hother, hcompile, hprofile,
    hsame.symm.trans hprofile, herror _ rfl, hnone.mpr (.inl rfl)⟩

/-- A file that is there but denied gives no profile. And a second byte order mark is no mark: with
it the first line is no header any more, so no table is there. -/
theorem profile_reading_exceptions :
    (∃ (ws : Workspace) (loaded : ProfileFile.Loaded),
      ws.files.read "keys.txt".toList = .denied "[Errno 13] Permission denied".toList ∧
      ProfileFile.load ws "keys.txt".toList = .ok loaded ∧ loaded.profile = none ∧
      loaded.entries =
        [(.error, .loadDenied "keys.txt".toList "[Errno 13] Permission denied".toList)]) ∧
    ∃ (ws : Workspace) (octets : Text.Octets),
      octets = Text.byteOrderMark ++ Text.toUtf8 "[Base]\nEsc: A".toList ∧
      ws.files.read "once.txt".toList = .octets octets ∧
      ws.files.read "twice.txt".toList = .octets (Text.byteOrderMark ++ octets) ∧
      (ProfileFile.load ws "once.txt".toList).toOption.bind ProfileFile.Loaded.profile ≠
        (ProfileFile.load ws "twice.txt".toList).toOption.bind ProfileFile.Loaded.profile := by
  constructor
  · exact ⟨{ files := { read := fun _ => .denied "[Errno 13] Permission denied".toList } }, _, rfl,
      rfl, rfl, rfl⟩
  · set octets := Text.byteOrderMark ++ Text.toUtf8 "[Base]\nEsc: A".toList
    set ws : Workspace :=
      { files :=
        { read := fun path => .octets
            (if path = "once.txt".toList then octets else Text.byteOrderMark ++ octets) } }
    refine ⟨ws, octets, rfl, rfl, rfl, ?_⟩
    apply ne_of_apply_ne (Option.map fun p : Profile => (p.tables.get? ⟨.base, false⟩).isSome)
    decide +kernel

end KeyProfile

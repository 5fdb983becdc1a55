import KeyProfile.Proofs.MacroIds
import KeyProfile.Proofs.MacroMerging

/-!
Compiling never fails. Each way to fail is shut out by a fact that every line, header and
finalization keeps, whatever the text is: the names referred to are defined and have ids that fit
into a word, and while lines of actions are read there is a macro that they go to (`Guarded`). One
line keeps these facts (`Guarded.compileLine`), so a pass does, and so does any sequence of
requests.
-/

namespace KeyProfile

namespace Compilation

/-- No line of a body changes which macros are defined. -/
theorem defines_fillLine (c : Compilation) (topic : Topic) (line name : Text) :
    (c.fillLine topic line).macros.defines name = c.macros.defines name := by
  cases topic with
  | nothing => rfl
  | lighting effect layers => rfl
  | keys tables =>
    simp only [fillLine, bindLine]
    cases Binding.ofLine? line with
    | none => rfl
    | some b => exact Registry.defines_refer ..
  | actions opened settings =>
    simp only [fillLine, actLine]
    split
    · split
      · rfl
      · exact Registry.defines_update ..
    · rfl

theorem defines_defineMacro (r : Registry Macro) (opened : Text) (settings : List Text)
    (name : Text) :
    (defineMacro r opened settings).defines name = (decide (name = opened) || r.defines name) := by
  simp only [Registry.defines, defineMacro, OrderedMap.contains, OrderedMap.get?_modify,
    OrderedMap.get?_insertNew]
  by_cases h : name = opened <;> simp [h]

/-- Headers define macros and remove none. -/
theorem defines_enter (ws : Workspace) {c : Compilation} {name : Text}
    (h : c.macros.defines name = true) (topic : Topic) :
    (c.enter ws topic).macros.defines name = true := by
  cases topic with
  | nothing => exact h
  | keys tables => exact h
  | actions opened settings =>
    change (defineMacro c.macros opened settings).defines name = true
    rw [defines_defineMacro, h, Bool.or_true]
  | lighting effect layers =>
    change (c.light ws effect layers).macros.defines name = true
    rw [macros_light]
    exact h

/-- What shuts out every fault: sound registries, a cursor that stands where some topic put it, and
a macro behind the name of the one opened last. -/
structure Guarded (c : Compilation) : Prop extends Sound c where
  placed : ∀ cursor, c.cursor = some cursor → ∃ topic last, cursor = Topic.cursor last topic
  opened : ∀ name, c.openName? = some name → c.macros.defines name = true

theorem guarded_start : ({} : Compilation).Guarded where
  toSound := sound_start
  placed := by
    intro cursor hcursor
    cases hcursor
  opened := by
    intro name hname
    cases hname

namespace Guarded

variable {c : Compilation}

/-- A pass starts outside any group. -/
theorem start (h : c.Guarded) : Guarded { c with cursor := some {} } where
  toSound := h.framed (some {}) c.lightsOff
  placed := by
    intro cursor hcursor
    cases hcursor
    exact ⟨.nothing, none, rfl⟩
  opened := by
    intro name hname
    cases hname

theorem head (h : c.Guarded) (ws : Workspace) (groups : List GroupKind) (line : Text) :
    (c.head ws groups line).Guarded where
  toSound := (h.enter ws _).framed _ _
  placed := by
    intro cursor hcursor
    exact ⟨_, _, (Option.some_inj.mp hcursor).symm⟩
  opened := by
    intro name hname
    change ((topicOf line).within groups |>.cursor c.openName?).openMacro = some name at hname
    change (c.enter ws ((topicOf line).within groups)).macros.defines name = true
    cases htopic : (topicOf line).within groups with
    | actions macroName settings =>
      rw [htopic] at hname
      cases hname
      change (defineMacro c.macros name settings).defines name = true
      simp [defines_defineMacro]
    | nothing =>
      rw [htopic] at hname
      exact defines_enter ws (h.opened name hname) _
    | keys tables =>
      rw [htopic] at hname
      exact defines_enter ws (h.opened name hname) _
    | lighting effect layers =>
      rw [htopic] at hname
      exact defines_enter ws (h.opened name hname) _

theorem fillLine (h : c.Guarded) (topic : Topic) (line : Text) :
    (c.fillLine topic line).Guarded where
  toSound := h.toSound.fillLine topic line
  placed := by
    rw [cursor_fillLine]
    exact h.placed
  opened := by
    intro name hname
    rw [openName?, cursor_fillLine] at hname
    rw [defines_fillLine]
    exact h.opened name hname

/-- No line fails, once a pass has started. -/
theorem compileLine (h : c.Guarded) (hcursor : c.cursor.isSome = true) (ws : Workspace)
    (groups : List GroupKind) (line : Text) :
    ∃ c', Compilation.compileLine ws groups c line = .ok c' ∧ c'.Guarded ∧
      c'.cursor.isSome = true := by
  cases hheader : isHeader line with
  | true => exact ⟨_, compileLine_header ws groups c hheader, h.head ws groups line, rfl⟩
  | false =>
    obtain ⟨cursor, hsome⟩ := Option.isSome_iff_exists.mp hcursor
    obtain ⟨topic, last, rfl⟩ := h.placed cursor hsome
    refine ⟨_, compileLine_body h.toSound ws groups hsome hheader, ?_⟩
    split
    · exact ⟨h, hcursor⟩
    · exact ⟨h.fillLine topic line.strip, by rw [cursor_fillLine, hcursor]⟩

theorem compilePass (h : c.Guarded) (ws : Workspace) (groups : List GroupKind)
    (lines : List Text) : ∃ c', c.compilePass ws groups lines = .ok c' ∧ c'.Guarded := by
  have hline : ∀ (c : Compilation) line, c.Guarded ∧ c.cursor.isSome = true →
      ∃ c', Compilation.compileLine ws groups c line = .ok c' ∧
        c'.Guarded ∧ c'.cursor.isSome = true := by
    rintro c line ⟨hc, hcursor⟩
    exact hc.compileLine hcursor ws groups line
  obtain ⟨c', hpass, hkept, -⟩ := foldlM_keeps hline ⟨h.start, rfl⟩ lines
  exact ⟨c', hpass, hkept⟩

theorem finalize (h : c.Guarded) : ∃ c', c.finalize = .ok c' ∧ c'.Guarded := by
  refine ⟨_, finalize_eq h.toSound, h.toSound.published.record _, h.placed, ?_⟩
  intro name hname
  have hdefined := h.opened name hname
  change ((c.macros.items.mapValues _).get? name).isSome = true
  rw [OrderedMap.get?_mapValues, Option.isSome_map]
  exact hdefined

end Guarded

end Compilation

namespace Request

/-- Nothing that a compilation can be asked for fails. -/
theorem run_guarded (ws : Workspace) {c : Compilation} (h : c.Guarded) (request : Request) :
    ∃ c', run ws c request = .ok c' ∧ c'.Guarded := by
  cases request with
  | compile lines =>
    obtain ⟨first, hfirst, hguarded⟩ := h.compilePass ws Compilation.firstPass lines
    obtain ⟨second, hsecond, hguarded⟩ := hguarded.compilePass ws Compilation.secondPass lines
    obtain ⟨final, hfinal, hguarded⟩ := hguarded.finalize
    refine ⟨final, ?_, hguarded⟩
    rw [run, Compilation.compile, hfirst, ok_bind, hsecond, ok_bind, hfinal]
  | pass groups lines => exact h.compilePass ws groups lines
  | finalize => exact h.finalize
  | resolve key token =>
    obtain ⟨reference, hresolve, hroomy, hitems, -⟩ := h.macros.resolve_history key token
    refine ⟨{ c with macros := reference.registry, log := c.log ++ reference.log }, ?_, ?_⟩
    · rw [run, Compilation.reference, hresolve]
      rfl
    · refine ⟨⟨hroomy, ?_, h.effects⟩, h.placed, ?_⟩
      · simpa only [hitems] using h.named
      · intro name hname
        simpa only [Registry.defines, hitems] using h.opened name hname

theorem runAll_guarded (ws : Workspace) (requests : List Request) :
    ∃ c, runAll ws requests = .ok c ∧ c.Guarded :=
  foldlM_keeps (fun _ request hc => run_guarded ws hc request) Compilation.guarded_start requests

end Request

/-- The facts that shut out the faults of a compilation, one for each. -/
structure Compilation.FaultFree (c : Compilation) : Prop where
  /-- A macro that was referred to has an id, and a word has room for it. -/
  words : ∀ name ∈ c.macros.referenced,
    ∃ id word, c.macros.idOf? name = some id ∧ DriverValue.ofMacroId id = .ok word
  /-- What was referred to is defined, so that ids can be handed out. -/
  names : (∀ name ∈ c.macros.referenced, c.macros.defines name = true) ∧
    ∀ name ∈ c.effects.referenced, c.effects.defines name = true
  /-- Lines of actions have a macro to go to. -/
  actions : c.group = .macros → ∃ name, c.openName? = some name ∧ c.macros.defines name = true

theorem Compilation.Guarded.faultFree {c : Compilation} (h : c.Guarded) : c.FaultFree where
  words := by
    intro name hm
    have hid : c.macros.idOf? name = some (c.macros.referenced.idxOf name) := if_pos hm
    exact ⟨_, _, hid, h.macros.ofMacroId hid⟩
  names := ⟨h.macros.defined, h.effects.defined⟩
  actions := by
    intro hgroup
    unfold group at hgroup
    cases hcursor : c.cursor with
    | none =>
      rw [hcursor] at hgroup
      cases hgroup
    | some cursor =>
      obtain ⟨topic, last, rfl⟩ := h.placed cursor hcursor
      rw [hcursor] at hgroup
      cases topic with
      | actions name settings =>
        have hname : c.openName? = some name := by simp [openName?, hcursor, Topic.cursor]
        exact ⟨name, hname, h.opened name hname⟩
      | nothing => cases hgroup
      | keys tables => cases hgroup
      | lighting effect layers => cases hgroup

/-- Compiling never fails. A new compilation may be asked to compile lines, to read them in a pass
for groups of any kinds, to finalize or to look up a macro, as often as one likes and in any order:
every request succeeds, for every keyboard, whatever the lines and the effect files are. Afterwards,
and so between any two lines of a pass, the ids that were given out fit into words, nothing
undefined is referred to, and lines of actions have a macro. -/
theorem requests_never_fail (ws : Workspace) (requests : List Request) :
    ∃ c, Request.runAll ws requests = .ok c ∧ c.FaultFree := by
  obtain ⟨c, hrun, hguarded⟩ := Request.runAll_guarded ws requests
  exact ⟨c, hrun, hguarded.faultFree⟩

end KeyProfile

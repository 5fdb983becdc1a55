import KeyProfile.Proofs.Passes

/-!
References to macros, one by one. The calls of a run are those that its steps make in the states
they are in (`along`). Names get ids in one way only: a call is answered with the id that its name
has, with the next id if it has none, or not at all (`History`). Every pass is such a history
(`compilePass_history`).
-/

namespace KeyProfile

/-- A reference to the macro of a name, and the word that it was answered with. -/
structure MacroCall where
  name : Text
  value : Option Int
deriving DecidableEq

namespace MacroCall

/-- The names of the calls that were answered, in the order of their first answers. -/
def order (calls : List MacroCall) : List Text :=
  ((calls.filter fun call => call.value.isSome).map name).eraseDups

end MacroCall

/-- What can be observed along steps, up to the first that fails. -/
def along {σ α β ε : Type} (step : σ → α → Except ε σ) (observe : σ → α → List β) :
    σ → List α → List β
  | _, [] => []
  | s, a :: rest =>
    observe s a ++
      match step s a with
      | .ok s => along step observe s rest
      | .error _ => []

/-- Calls that lead from the names that have an id to those that have one afterwards. -/
inductive History : List Text → List MacroCall → List Text → Prop
  | nil (names : List Text) : History names [] names
  | known {names final : List Text} {name : Text} {calls : List MacroCall} (hm : name ∈ names)
      (h : History names calls final) :
      History names (⟨name, some (DriverValue.macroTag + names.idxOf name)⟩ :: calls) final
  | first {names final : List Text} {name : Text} {calls : List MacroCall} (hm : name ∉ names)
      (h : History (names ++ [name]) calls final) :
      History names (⟨name, some (DriverValue.macroTag + names.length)⟩ :: calls) final
  | unanswered {names final : List Text} {name : Text} {calls : List MacroCall} (hm : name ∉ names)
      (h : History names calls final) : History names (⟨name, none⟩ :: calls) final

namespace History

variable {names middle final : List Text} {calls more : List MacroCall}

theorem append (h : History names calls middle) (hmore : History middle more final) :
    History names (calls ++ more) final := by
  induction h with
  | nil => exact hmore
  | known hm _ ih => exact .known hm (ih hmore)
  | first hm _ ih => exact .first hm (ih hmore)
  | unanswered hm _ ih => exact .unanswered hm (ih hmore)

/-- A history can be cut anywhere. -/
theorem cut (h : History names (calls ++ more) final) :
    ∃ middle, History names calls middle ∧ History middle more final := by
  induction calls generalizing names with
  | nil => exact ⟨names, .nil names, h⟩
  | cons call calls ih =>
    cases h with
    | known hm h =>
      obtain ⟨middle, hcalls, hmore⟩ := ih h
      exact ⟨middle, .known hm hcalls, hmore⟩
    | first hm h =>
      obtain ⟨middle, hcalls, hmore⟩ := ih h
      exact ⟨middle, .first hm hcalls, hmore⟩
    | unanswered hm h =>
      obtain ⟨middle, hcalls, hmore⟩ := ih h
      exact ⟨middle, .unanswered hm hcalls, hmore⟩

/-- No name loses its id. -/
theorem keeps (h : History names calls final) {name : Text} (hm : name ∈ names) :
    name ∈ final ∧ final.idxOf name = names.idxOf name := by
  induction h with
  | nil => exact ⟨hm, rfl⟩
  | known _ _ ih => exact ih hm
  | unanswered _ _ ih => exact ih hm
  | first _ _ ih =>
    obtain ⟨hfinal, hidx⟩ := ih (List.mem_append_left _ hm)
    exact ⟨hfinal, by rw [hidx, List.idxOf_append, if_pos hm]⟩

/-- An answer is the id that the name has in the end. -/
theorem answer (h : History names calls final) {call : MacroCall} (hcall : call ∈ calls) {v : Int}
    (hv : call.value = some v) :
    call.name ∈ final ∧ v = DriverValue.macroTag + final.idxOf call.name := by
  induction h with
  | nil => cases hcall
  | known hm hrest ih =>
    rcases List.mem_cons.mp hcall with rfl | hcall
    · obtain ⟨hfinal, hidx⟩ := hrest.keeps hm
      exact ⟨hfinal, by rw [hidx, ← Option.some_inj.mp hv]⟩
    · exact ih hcall
  | @first names _ name _ hm hrest ih =>
    rcases List.mem_cons.mp hcall with rfl | hcall
    · have hlast : name ∈ names ++ [name] := by simp
      obtain ⟨hfinal, hidx⟩ := hrest.keeps hlast
      refine ⟨hfinal, ?_⟩
      rw [hidx, List.idxOf_append, if_neg hm, ← Option.some_inj.mp hv]
      simp
    · exact ih hcall
  | unanswered hm hrest ih =>
    rcases List.mem_cons.mp hcall with rfl | hcall
    · cases hv
    · exact ih hcall

/-- Calls to a name that has an id are answered with it. -/
theorem answer_of_mem (h : History names calls final) {call : MacroCall} (hcall : call ∈ calls)
    (hm : call.name ∈ names) :
    call.value = some (DriverValue.macroTag + names.idxOf call.name) := by
  induction h with
  | nil => cases hcall
  | known _ _ ih =>
    rcases List.mem_cons.mp hcall with rfl | hcall
    · rfl
    · exact ih hcall hm
  | first hnew _ ih =>
    rcases List.mem_cons.mp hcall with rfl | hcall
    · exact absurd hm hnew
    · rw [ih hcall (List.mem_append_left _ hm), List.idxOf_append, if_pos hm]
  | unanswered hnew _ ih =>
    rcases List.mem_cons.mp hcall with rfl | hcall
    · exact absurd hm hnew
    · exact ih hcall hm

private theorem final_eq_eraseDups (h : History names calls final) (hnodup : names.Nodup) :
    final =
      (names ++ (calls.filter fun call => call.value.isSome).map MacroCall.name).eraseDups := by
  induction h with
  | nil => simp [eraseDups_of_nodup hnodup]
  | @known names _ name calls hm _ ih =>
    rw [ih hnodup, List.filter_cons_of_pos rfl, List.map_cons, List.eraseDups_append,
      List.eraseDups_append]
    simp [List.removeAll, hm]
  | @first names _ name calls hm _ ih =>
    have hnodup' : (names ++ [name]).Nodup :=
      List.nodup_append.mpr ⟨hnodup, by simp, by
        intro x hx y hy hxy
        have hy : y = name := by simpa using hy
        exact hm (hy ▸ hxy ▸ hx)⟩
    rw [ih hnodup', List.filter_cons_of_pos rfl, List.map_cons]
    simp
  | unanswered _ _ ih => rw [ih hnodup, List.filter_cons_of_neg (by simp)]

/-- From nothing, the names that have an id are those that were answered. -/
theorem final_eq_order (h : History [] calls final) : final = MacroCall.order calls :=
  h.final_eq_eraseDups List.nodup_nil

/-- If every step is a history, so are all of them together. -/
theorem along {σ α ε : Type} {step : σ → α → Except ε σ} {observe : σ → α → List MacroCall}
    (ids : σ → List Text) {I : σ → Prop}
    (hstep : ∀ s a, I s → ∃ s', step s a = .ok s' ∧ I s' ∧ History (ids s) (observe s a) (ids s'))
    {s : σ} (h : I s) (items : List α) :
    ∃ s', items.foldlM step s = .ok s' ∧ I s' ∧
      History (ids s) (along step observe s items) (ids s') := by
  induction items generalizing s with
  | nil => exact ⟨s, rfl, h, .nil _⟩
  | cons a rest ih =>
    obtain ⟨middle, hfirst, hmiddle, hhistory⟩ := hstep s a h
    obtain ⟨s', hrest, hs', hhistory'⟩ := ih hmiddle
    refine ⟨s', ?_, hs', ?_⟩
    · rw [List.foldlM_cons, hfirst, ok_bind, hrest]
    · rw [KeyProfile.along, hfirst]
      exact hhistory.append hhistory'

end History

variable {α : Type}

/-- The call of a token in parentheses; without parentheses no macro is asked for. -/
def Registry.call (r : Registry α) (key : Int) (token : Text) : List MacroCall :=
  match token.call?, r.resolve key token with
  | some (_, inner), .ok reference => [⟨inner.strip, reference.value⟩]
  | _, _ => []

theorem History.reference (r : Registry α) (name : Text) :
    History r.referenced [⟨name, (r.reference name).1.macroValue? name⟩]
      (r.reference name).1.referenced := by
  rw [Registry.reference_fst]
  split
  · next hnew =>
    obtain ⟨-, hm, -⟩ := hnew
    have hvalue : Registry.macroValue? { r with referenced := r.referenced ++ [name] } name =
        some (DriverValue.macroTag + r.referenced.length) := by
      simp [Registry.macroValue?, Registry.idOf?, List.idxOf_append, hm]
    rw [hvalue]
    exact .first hm (.nil _)
  · by_cases hm : name ∈ r.referenced
    · have hvalue : r.macroValue? name =
          some (DriverValue.macroTag + r.referenced.idxOf name) := by
        simp [Registry.macroValue?, Registry.idOf?, hm]
      rw [hvalue]
      exact .known hm (.nil _)
    · have hvalue : r.macroValue? name = none := by
        simp [Registry.macroValue?, Registry.idOf?, hm]
      rw [hvalue]
      exact .unanswered hm (.nil _)

theorem Registry.Roomy.resolve_history {r : Registry α} (h : r.Roomy) (key : Int) (token : Text) :
    ∃ reference, r.resolve key token = .ok reference ∧ reference.registry.Roomy ∧
      reference.registry.items = r.items ∧
      History r.referenced (r.call key token) reference.registry.referenced := by
  unfold Registry.call
  cases hcall : token.call? with
  | none => exact ⟨_, r.resolve_no_call key hcall, h, rfl, .nil _⟩
  | some parts =>
    obtain ⟨front, inner⟩ := parts
    have hresolve := h.resolve_call key hcall
    refine ⟨_, hresolve, h.reference _, items_reference .., ?_⟩
    rw [hresolve]
    exact .reference r inner.strip

namespace Destination

/-- The call that one more token makes. -/
def tokenCall (key : Int) (d : Destination α) (token : Text) : List MacroCall :=
  let token := token.strip
  if (KeyToken.hexBody? token).isSome then []
  else if token.lower.startsWith "macro".toList then d.registry.call key token
  else []

/-- The calls of the tokens of a destination. -/
def calls (r : Registry α) (key : Int) (tokens : List Text) : List MacroCall :=
  along (add key) (tokenCall key) { registry := r } tokens

theorem add_history {d : Destination α} (h : d.registry.Roomy) (key : Int) (token : Text) :
    ∃ d', add key d token = .ok d' ∧ d'.registry.Roomy ∧
      History d.registry.referenced (tokenCall key d token) d'.registry.referenced := by
  unfold add tokenCall
  dsimp only
  split
  · exact ⟨_, rfl, h, .nil _⟩
  · split
    · obtain ⟨reference, hresolve, hroomy, -, hhistory⟩ := h.resolve_history key token.strip
      rw [hresolve]
      exact ⟨_, rfl, hroomy, hhistory⟩
    · split
      · exact ⟨_, rfl, h, .nil _⟩
      · split
        · exact ⟨_, rfl, h, .nil _⟩
        · exact ⟨_, rfl, h, .nil _⟩

theorem calls_history {r : Registry α} (h : r.Roomy) (key : Int) (tokens : List Text) :
    ∃ d, ofTokens r key tokens = .ok d ∧ d.registry.Roomy ∧
      History r.referenced (calls r key tokens) d.registry.referenced :=
  History.along (fun d : Destination α => d.registry.referenced)
    (fun _ token hd => add_history hd key token) (s := { registry := r }) h tokens

end Destination

namespace Compilation

/-- The calls of a line, if it is one of key bindings. -/
def lineCalls (c : Compilation) (line : Text) : List MacroCall :=
  let line := line.strip
  if line.head? = some '#' then []
  else if line.head? = some '[' then []
  else match c.group, Text.fields ':' line with
    | .layer, sources :: destinations :: _ =>
      let key := sourceOf (Text.fields '+' sources)
      if key = 0 then [] else Destination.calls c.macros key (Text.fields '+' destinations)
    | _, _ => []

/-- The calls of a pass. -/
def passCalls (ws : Workspace) (groups : List GroupKind) (lines : List Text) (c : Compilation) :
    List MacroCall :=
  along (compileLine ws groups) lineCalls { c with cursor := some {} } lines

@[simp] theorem referenced_enter (ws : Workspace) (c : Compilation) (topic : Topic) :
    (c.enter ws topic).macros.referenced = c.macros.referenced := by
  cases topic with
  | nothing => rfl
  | keys tables => rfl
  | actions name settings => rfl
  | lighting name layers =>
    change (c.light ws name layers).macros.referenced = _
    unfold light
    split
    · rfl
    · split <;> rfl

theorem bindLine_history {c : Compilation} (h : c.Sound) {topic : Topic} {last : Option Text}
    {tables : List TableRef} (htopic : topic = .keys tables)
    (hcursor : c.cursor = some (topic.cursor last)) {line : Text}
    (hhead : ¬line.strip.head? = some '[') (hcomment : ¬line.strip.head? = some '#') :
    History c.macros.referenced (c.lineCalls line)
      (c.bindLine tables line.strip).macros.referenced := by
  have hgroup : c.group = .layer := by simp [group, hcursor, htopic, Topic.cursor]
  unfold lineCalls bindLine Binding.ofLine?
  simp only [hcomment, hhead, if_false, hgroup]
  cases hfields : Text.fields ':' line.strip with
  | nil => exact .nil _
  | cons sources others =>
    cases others with
    | nil => exact .nil _
    | cons destinations rest =>
      dsimp only
      by_cases hkey : sourceOf (Text.fields '+' sources) = 0
      · rw [if_pos hkey, dif_pos hkey]
        exact .nil _
      · rw [if_neg hkey, dif_neg hkey]
        obtain ⟨d, hd, -, hhistory⟩ := Destination.calls_history h.macros
          (sourceOf (Text.fields '+' sources)) (Text.fields '+' destinations)
        rw [Destination.ofTokens_eq h.macros] at hd
        cases hd
        exact hhistory

/-- A state between two lines of a pass: some group was left or is open. -/
structure Reading (c : Compilation) : Prop extends Sound c where
  cursor : ∃ topic last, c.cursor = some (Topic.cursor last topic)

theorem compileLine_history (ws : Workspace) (groups : List GroupKind) {c : Compilation}
    (h : c.Reading) (line : Text) :
    ∃ c', compileLine ws groups c line = .ok c' ∧ c'.Reading ∧
      History c.macros.referenced (c.lineCalls line) c'.macros.referenced := by
  obtain ⟨topic, last, hcursor⟩ := h.cursor
  cases hheader : isHeader line with
  | true =>
    have hhead : line.strip.head? = some '[' := by simpa [isHeader] using hheader
    refine ⟨_, compileLine_header ws groups c hheader,
      ⟨(h.toSound.enter ws _).framed _ _, _, _, rfl⟩, ?_⟩
    have hcalls : c.lineCalls line = [] := by simp [lineCalls, hhead]
    have hsame : (c.head ws groups line).macros.referenced = c.macros.referenced :=
      referenced_enter ws c _
    rw [hcalls, hsame]
    exact .nil _
  | false =>
    have hhead : ¬line.strip.head? = some '[' := by simpa [isHeader] using hheader
    refine ⟨_, compileLine_body h.toSound ws groups hcursor hheader, ?_⟩
    cases hcomment : isComment line with
    | true =>
      have hcalls : c.lineCalls line = [] := by
        have hskip : line.strip.head? = some '#' := by simpa [isComment] using hcomment
        simp [lineCalls, hskip]
      rw [if_pos rfl, hcalls]
      exact ⟨h, .nil _⟩
    | false =>
      have hread : ¬line.strip.head? = some '#' := by simpa [isComment] using hcomment
      rw [if_neg (by simp)]
      refine ⟨⟨h.toSound.fillLine _ _, topic, last, (cursor_fillLine ..).trans hcursor⟩, ?_⟩
      -- only lines of key bindings call macros
      have hother (hgroup : c.group ≠ .layer) : c.lineCalls line = [] := by
        unfold lineCalls
        simp only [hread, hhead, if_false]
        split
        · next hlayer _ => exact absurd hlayer hgroup
        · rfl
      have hgroup : c.group = (topic.cursor last).group := by simp [group, hcursor]
      cases htopic : topic with
      | keys tables => exact bindLine_history h.toSound htopic hcursor hhead hread
      | nothing =>
        rw [hother (by simp [hgroup, htopic, Topic.cursor])]
        exact .nil _
      | lighting name layers =>
        rw [hother (by simp [hgroup, htopic, Topic.cursor])]
        exact .nil _
      | actions name settings =>
        rw [hother (by simp [hgroup, htopic, Topic.cursor])]
        have hsame : (c.fillLine (.actions name settings) line.strip).macros.referenced =
            c.macros.referenced := by
          simp only [fillLine, actLine]
          split
          · split <;> rfl
          · rfl
        rw [hsame]
        exact .nil _

theorem compilePass_history {c : Compilation} (h : c.Sound) (ws : Workspace)
    (groups : List GroupKind) (lines : List Text) :
    ∃ c', c.compilePass ws groups lines = .ok c' ∧ c'.Sound ∧
      History c.macros.referenced (c.passCalls ws groups lines) c'.macros.referenced := by
  have hstart : Reading { c with cursor := some {} } :=
    ⟨h.framed (some {}) c.lightsOff, .nothing, none, rfl⟩
  obtain ⟨c', hpass, hreading, hhistory⟩ :=
    History.along (fun c : Compilation => c.macros.referenced)
      (fun c line hc => compileLine_history ws groups hc line) hstart lines
  exact ⟨c', hpass, hreading.toSound, hhistory⟩

end Compilation

end KeyProfile

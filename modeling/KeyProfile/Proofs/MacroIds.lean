import KeyProfile.Proofs.MacroCalls

/-!
Promised ids are kept. A compilation may be asked for anything in any order: to compile lines, to
read them in one pass, to finalize, to look up one macro. The words that calls were answered with
hold the ids which later finalizations write into the macros (`Sound.keepsIds`).
-/

namespace KeyProfile

/-- What a compilation can be asked for. -/
inductive Request where
  | compile (lines : List Text)
  | pass (groups : List GroupKind) (lines : List Text)
  | finalize
  | resolve (key : Int) (token : Text)

namespace Request

def run (ws : Workspace) (c : Compilation) : Request → Except Fault Compilation
  | .compile lines => Compilation.compile ws lines c
  | .pass groups lines => c.compilePass ws groups lines
  | .finalize => c.finalize
  | .resolve key token => do
    let (_, c) ← c.reference key token
    pure c

/-- All requests, one after another, to a new compilation. -/
def runAll (ws : Workspace) (requests : List Request) : Except Fault Compilation :=
  requests.foldlM (run ws) {}

/-- The calls of macros that a request makes. -/
def calls (ws : Workspace) (c : Compilation) : Request → List MacroCall
  | .compile lines =>
    c.passCalls ws Compilation.firstPass lines ++
      match c.compilePass ws Compilation.firstPass lines with
      | .ok c => c.passCalls ws Compilation.secondPass lines
      | .error _ => []
  | .pass groups lines => c.passCalls ws groups lines
  | .finalize => []
  | .resolve key token => c.macros.call key token

def allCalls (ws : Workspace) (requests : List Request) : List MacroCall :=
  along (run ws) (calls ws) {} requests

/-- Requests that end with a finalization. -/
def finalizes : Request → Bool
  | .compile _ => true
  | .finalize => true
  | _ => false

theorem compile_history (ws : Workspace) {c : Compilation} (h : c.Sound) (lines : List Text) :
    ∃ before : Compilation, before.Sound ∧
      run ws c (.compile lines) = .ok (before.published.record before.report) ∧
      History c.macros.referenced (calls ws c (.compile lines)) before.macros.referenced := by
  obtain ⟨middle, hfirst, hmiddle, hcalls⟩ :=
    Compilation.compilePass_history h ws Compilation.firstPass lines
  obtain ⟨before, hsecond, hbefore, hcalls'⟩ :=
    Compilation.compilePass_history hmiddle ws Compilation.secondPass lines
  refine ⟨before, hbefore, ?_, ?_⟩
  · rw [run, Compilation.compile, hfirst, ok_bind, hsecond, ok_bind,
      Compilation.finalize_eq hbefore]
  · rw [calls, hfirst]
    exact hcalls.append hcalls'

theorem run_history (ws : Workspace) {c : Compilation} (h : c.Sound) (request : Request) :
    ∃ c', run ws c request = .ok c' ∧ c'.Sound ∧
      History c.macros.referenced (calls ws c request) c'.macros.referenced := by
  cases request with
  | compile lines =>
    obtain ⟨before, hbefore, hrun, hcalls⟩ := compile_history ws h lines
    exact ⟨_, hrun, hbefore.published.record _, hcalls⟩
  | pass groups lines => exact Compilation.compilePass_history h ws groups lines
  | finalize =>
    exact ⟨_, Compilation.finalize_eq h, h.published.record _, .nil _⟩
  | resolve key token =>
    obtain ⟨reference, hresolve, hroomy, hitems, hcalls⟩ := h.macros.resolve_history key token
    refine ⟨{ c with macros := reference.registry, log := c.log ++ reference.log }, ?_, ?_, hcalls⟩
    · rw [run, Compilation.reference, hresolve]
      rfl
    · exact ⟨hroomy, by simpa only [hitems] using h.named, h.effects⟩

theorem run_of_finalizes (ws : Workspace) {c : Compilation} (h : c.Sound) {request : Request}
    (hfinal : request.finalizes = true) :
    ∃ before : Compilation, before.Sound ∧
      run ws c request = .ok (before.published.record before.report) := by
  cases request with
  | compile lines =>
    obtain ⟨before, hbefore, hrun, -⟩ := compile_history ws h lines
    exact ⟨before, hbefore, hrun⟩
  | pass groups lines => cases hfinal
  | finalize => exact ⟨c, h, Compilation.finalize_eq h⟩
  | resolve key token => cases hfinal

/-- Nothing that a compilation can be asked for fails, in any order. -/
theorem runAll_history (ws : Workspace) (requests : List Request) :
    ∃ c, runAll ws requests = .ok c ∧ c.Sound ∧
      History [] (allCalls ws requests) c.macros.referenced :=
  History.along (fun c : Compilation => c.macros.referenced)
    (fun _ request hc => run_history ws hc request) Compilation.sound_start requests

end Request

/-- A macro is found by its id if no other macro has it. -/
theorem Profile.macroWithId?_eq {p : Profile} {m : Macro} (hm : m ∈ p.macros.values) {id : Int}
    (hid : m.id = some id) (honly : ∀ m' ∈ p.macros.values, m'.id = some id → m' = m) :
    p.macroWithId? (some id) = some m := by
  unfold macroWithId?
  cases hfind : p.macros.values.find? fun m => m.id == some id with
  | none =>
    have hnot := List.find?_eq_none.mp hfind m hm
    simp [hid] at hnot
  | some found =>
    have hfound : found.id = some id := by simpa using List.find?_some hfind
    rw [honly found (List.mem_of_find?_eq_some hfind) hfound]

namespace Compilation

variable {c : Compilation}

theorem Sound.of_mem_published (h : c.Sound) {m : Macro}
    (hm : m ∈ c.published.profile.macros.values) :
    c.published.profile.macros.get? m.name = some m ∧
      m.id = (c.macros.idOf? m.name).map Int.ofNat := by
  obtain ⟨name, hget⟩ := (OrderedMap.mem_values_iff _ _).mp hm
  have hname : m.name = name := h.published.named name m (by
    rw [macros_published] at hget
    exact hget)
  refine ⟨hname ▸ hget, ?_⟩
  rw [macros_published, OrderedMap.get?_mapValues] at hget
  obtain ⟨before, -, rfl⟩ := Option.map_eq_some_iff.mp hget
  exact congrArg (fun name => (c.macros.idOf? name).map Int.ofNat) hname.symm

/-- The macro of a name that has an id is told so. -/
theorem Sound.exists_published (h : c.Sound) {name : Text} (hm : name ∈ c.macros.referenced) :
    ∃ m, c.published.profile.macros.get? name = some m ∧ m.name = name ∧
      m.id = some (c.macros.referenced.idxOf name : Int) := by
  obtain ⟨before, hbefore⟩ := Option.isSome_iff_exists.mp (h.macros.defined name hm)
  refine ⟨{ before with id := some (c.macros.referenced.idxOf name) }, ?_,
    h.named name before hbefore, rfl⟩
  rw [macros_published, OrderedMap.get?_mapValues, hbefore]
  simp [Registry.idOf?, hm]

/-- Macros that have the same id are the same. -/
theorem Sound.published_inj (h : c.Sound) {m m' : Macro}
    (hm : m ∈ c.published.profile.macros.values) (hm' : m' ∈ c.published.profile.macros.values)
    {id : Int} (hid : m.id = some id) (hid' : m'.id = some id) : m = m' := by
  obtain ⟨hget, hown⟩ := h.of_mem_published hm
  obtain ⟨hget', hown'⟩ := h.of_mem_published hm'
  have hin : m.name ∈ c.macros.referenced := by
    by_contra hout
    rw [hown, Registry.idOf?, if_neg hout] at hid
    cases hid
  have hin' : m'.name ∈ c.macros.referenced := by
    by_contra hout
    rw [hown', Registry.idOf?, if_neg hout] at hid'
    cases hid'
  have hsame : c.macros.referenced.idxOf m.name = c.macros.referenced.idxOf m'.name := by
    have hboth := hid.trans hid'.symm
    rw [hown, hown', Registry.idOf?, Registry.idOf?, if_pos hin, if_pos hin'] at hboth
    simpa using hboth
  have hname := (List.idxOf_inj hin).mp hsame
  rw [hname, hget'] at hget
  exact (Option.some_inj.mp hget).symm

theorem Sound.macroWithId?_published (h : c.Sound) {m : Macro}
    (hm : m ∈ c.published.profile.macros.values) {id : Int} (hid : m.id = some id) :
    c.published.profile.macroWithId? (some id) = some m := by
  apply Profile.macroWithId?_eq hm hid
  intro m' hm' hid'
  exact h.published_inj hm' hm hid' hid

end Compilation

/-- The ids in a profile are the ones that calls were answered with, and no others. -/
structure Profile.KeepsIds (p : Profile) (calls : List MacroCall) : Prop where
  /-- The word that a call was answered with leads to the macro of the name that was called. -/
  found : ∀ call ∈ calls, ∀ v, call.value = some v →
    ∃ m, p.macroWithId? (DriverValue.macroId? v DriverValue.macroIds) = some m ∧
      p.macros.get? call.name = some m ∧ m.name = call.name ∧
      m.id = some ((MacroCall.order calls).idxOf call.name : Int)
  apart : ∀ m ∈ p.macros.values, ∀ m' ∈ p.macros.values, m.name ≠ m'.name →
    ∀ id, m.id = some id → m'.id ≠ some id
  /-- The ids in use are the first ones. -/
  ids : ∀ id, (∃ m ∈ p.macros.values, m.id = some id) ↔
    0 ≤ id ∧ id < (MacroCall.order calls).length
  unused : ∀ m ∈ p.macros.values, m.name ∉ MacroCall.order calls → m.id = none

theorem Compilation.Sound.length_referenced {c : Compilation} (h : c.Sound) :
    c.macros.referenced.length ≤ 256 := by
  have hwithin := h.macros.within _ h.macros.limit
  simp only [DriverValue.macroIds] at hwithin
  omega

theorem Compilation.Sound.keepsIds {c : Compilation} (h : c.Sound) {calls : List MacroCall}
    (hcalls : History [] calls c.macros.referenced) : c.published.profile.KeepsIds calls := by
  have horder := hcalls.final_eq_order
  have hlength := h.length_referenced
  refine ⟨?_, ?_, ?_, ?_⟩
  · intro call hcall v hv
    obtain ⟨hin, hvalue⟩ := hcalls.answer hcall hv
    obtain ⟨m, hget, hname, hid⟩ := h.exists_published hin
    have hm : m ∈ c.published.profile.macros.values :=
      (OrderedMap.mem_values_iff _ _).mpr ⟨call.name, hget⟩
    have hidx := List.idxOf_lt_length_iff.mpr hin
    have hread : DriverValue.macroId? v DriverValue.macroIds =
        some (c.macros.referenced.idxOf call.name : Int) := by
      have hrange : (c.macros.referenced.idxOf call.name : Int) < DriverValue.macroIds := by
        simp only [DriverValue.macroIds]
        omega
      rw [hvalue, DriverValue.macroId?_macroTag_add ⟨by omega, hrange⟩, if_pos hrange]
    refine ⟨m, ?_, hget, hname, horder ▸ hid⟩
    rw [hread]
    exact h.macroWithId?_published hm hid
  · intro m hm m' hm' hne id hid hid'
    exact hne (congrArg Macro.name (h.published_inj hm hm' hid hid'))
  · intro id
    rw [← horder]
    constructor
    · rintro ⟨m, hm, hid⟩
      rw [(h.of_mem_published hm).2] at hid
      obtain ⟨place, hplace, rfl⟩ := Option.map_eq_some_iff.mp hid
      obtain ⟨hin, rfl⟩ := (Registry.idOf?_eq_some_iff ..).mp hplace
      have hidx := List.idxOf_lt_length_iff.mpr hin
      simp only [Int.ofNat_eq_natCast]
      omega
    · rintro ⟨hnonneg, hlt⟩
      obtain ⟨place, rfl⟩ := Int.eq_ofNat_of_zero_le hnonneg
      have hplace : place < c.macros.referenced.length := by omega
      obtain ⟨m, hget, -, hid⟩ := h.exists_published (List.getElem_mem hplace)
      rw [h.macros.nodup.idxOf_getElem place hplace] at hid
      exact ⟨m, (OrderedMap.mem_values_iff _ _).mpr ⟨_, hget⟩, hid⟩
  · intro m hm hout
    rw [← horder] at hout
    rw [(h.of_mem_published hm).2, Registry.idOf?, if_neg hout]
    rfl

/-- Ids are kept. Whatever a new compilation is asked for succeeds, and no more than 256 names get
an id. Each answer to a call is the word made of the place of its name in the order of first
answers, and later calls of the name get the same answer. Right after a finalization the profile
keeps these ids: looking up an answer finds the macro that was called, ids are numbered without
gaps, no two macros share one, and macros whose name was never answered have none. -/
theorem macro_ids_kept (ws : Workspace) (requests : List Request) :
    ∃ c, Request.runAll ws requests = .ok c ∧
      (MacroCall.order (Request.allCalls ws requests)).length ≤ 256 ∧
      (∀ before call after, Request.allCalls ws requests = before ++ call :: after →
        ∀ v, call.value = some v →
          DriverValue.ofMacroId
            ((MacroCall.order (Request.allCalls ws requests)).idxOf call.name) = .ok v ∧
          ∀ later ∈ after, later.name = call.name → later.value = some v) ∧
      (∀ last ∈ requests.getLast?, last.finalizes = true →
        c.profile.KeepsIds (Request.allCalls ws requests)) := by
  obtain ⟨c, hrun, hsound, hhistory⟩ := Request.runAll_history ws requests
  have horder := hhistory.final_eq_order
  have hlength := hsound.length_referenced
  refine ⟨c, hrun, horder ▸ hlength, ?_, ?_⟩
  · intro before call after hcut v hv
    have hcall : call ∈ Request.allCalls ws requests := by simp [hcut]
    obtain ⟨hin, hvalue⟩ := hhistory.answer hcall hv
    have hidx := List.idxOf_lt_length_iff.mpr hin
    refine ⟨?_, ?_⟩
    · rw [← horder, hvalue, DriverValue.ofMacroId, if_pos]
      simp only [DriverValue.macroIds]
      omega
    · intro later hlater hname
      rw [hcut, List.append_cons] at hhistory
      obtain ⟨middle, hearly, hlate⟩ := hhistory.cut
      have hlast : call ∈ before ++ [call] := by simp
      obtain ⟨hmiddle, hfixed⟩ := hearly.answer hlast hv
      rw [hlate.answer_of_mem hlater (hname ▸ hmiddle), hname, hfixed]
  · intro last hlast hfinal
    obtain ⟨earlier, rfl⟩ := List.getLast?_eq_some_iff.mp hlast
    obtain ⟨middle, hearlier, hmiddle, -⟩ := Request.runAll_history ws earlier
    obtain ⟨before, hbefore, hpublished⟩ := Request.run_of_finalizes ws hmiddle hfinal
    have hsplit : Request.runAll ws (earlier ++ [last]) = Request.run ws middle last := by
      unfold Request.runAll at hearlier ⊢
      rw [List.foldlM_append, hearlier, ok_bind, List.foldlM_cons, hpublished]
      rfl
    rw [hsplit, hpublished] at hrun
    cases hrun
    exact hbefore.keepsIds hhistory

/-- Compiling twice gives the macro the id that the first reference promised. -/
theorem macro_ids_kept_copy :
    ∃ c, Request.runAll {}
        (List.replicate 2 (.compile (["[Base]", "F2: Macro(Copy)", "F3: Macro(Paste)",
          "[Macro(Copy)]", "press: LCtrl+C"].map String.toList))) = .ok c ∧
      c.profile.KeepsIds
        [⟨"Copy".toList, some 0x0A010000⟩, ⟨"Paste".toList, none⟩,
          ⟨"Copy".toList, some 0x0A010000⟩, ⟨"Paste".toList, none⟩] := by
  have hcalls : Request.allCalls {}
      (List.replicate 2 (.compile (["[Base]", "F2: Macro(Copy)", "F3: Macro(Paste)",
        "[Macro(Copy)]", "press: LCtrl+C"].map String.toList))) =
      [⟨"Copy".toList, some 0x0A010000⟩, ⟨"Paste".toList, none⟩,
        ⟨"Copy".toList, some 0x0A010000⟩, ⟨"Paste".toList, none⟩] := by
    decide +kernel
  obtain ⟨c, hrun, -, -, hkeeps⟩ := macro_ids_kept {}
    (List.replicate 2 (.compile (["[Base]", "F2: Macro(Copy)", "F3: Macro(Paste)",
      "[Macro(Copy)]", "press: LCtrl+C"].map String.toList)))
  exact ⟨c, hrun, hcalls ▸ hkeeps _ rfl rfl⟩

end KeyProfile

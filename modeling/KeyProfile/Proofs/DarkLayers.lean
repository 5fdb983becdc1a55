import KeyProfile.Proofs.GroupOrder
import KeyProfile.Proofs.NoFaults

/-!
Layers without lighting. Turning lighting off only ever adds layers (`LightsOff.covers_turnOff`),
and a pass for groups of any kinds does it for every header that says so. After any requests a layer
is therefore dark exactly if some line that was read darkens it, and what a line darkens can be told
from the line alone (`darkens`). Main statement: `dark_layers`.
-/

namespace KeyProfile

namespace LightsOff

/-- Lighting is off on a layer. -/
def covers (off : LightsOff) (layer : Layer) : Bool :=
  off.everywhere || off.layers.contains layer

/-- Arguments are about a layer if one of them names it, and about every layer if there are none at
all. An empty list is about no layer. -/
def about (layer : Layer) : Option (List Text) → Prop
  | none => True
  | some texts => ∃ t ∈ texts, Layer.ofText? t = some layer

instance (layer : Layer) : DecidablePred (about layer)
  | none => isTrue trivial
  | some texts => inferInstanceAs (Decidable (∃ t ∈ texts, Layer.ofText? t = some layer))

theorem covers_turnOff (off : LightsOff) (arguments : Option (List Text)) (layer : Layer) :
    (off.turnOff arguments).covers layer = true ↔
      off.covers layer = true ∨ about layer arguments := by
  cases arguments with
  | none => simp [turnOff, covers, about]
  | some texts =>
    simp only [turnOff, covers, about, LayerSet.contains_foldl_insert, Bool.or_eq_true,
      decide_eq_true_eq, List.mem_filterMap]
    rw [or_assoc, or_comm (b := off.layers.contains layer = true)]

theorem covers_foldl_turnOff (off : LightsOff) (arguments : List (Option (List Text)))
    (layer : Layer) :
    (arguments.foldl turnOff off).covers layer = true ↔
      off.covers layer = true ∨ ∃ texts ∈ arguments, about layer texts := by
  induction arguments generalizing off with
  | nil => simp
  | cons first rest ih =>
    rw [List.foldl_cons, ih, covers_turnOff]
    simp only [List.mem_cons, exists_eq_or_imp, or_assoc]

end LightsOff

/-- One name asks for lighting to be off, in any case. -/
theorem Directive.ofName_eq_noLighting_iff (name : Text) :
    ofName name = .noLighting ↔ name.lower = "nolighting".toList :=
  ofName_eq_iff (by decide) (by decide) name

/-- A line darkens a layer if it is a header that has among its names the one for lighting that is
off, and its arguments are about the layer. -/
def darkens (line : Text) (layer : Layer) : Prop :=
  isHeader line = true ∧ ∃ h, GroupHeader.ofLine? line.strip = some h ∧
    (∃ name ∈ h.names, name.lower = "nolighting".toList) ∧ LightsOff.about layer h.arguments

theorem darkens_iff (line : Text) (layer : Layer) :
    darkens line layer ↔
      isHeader line = true ∧ ∃ texts ∈ darkArgumentsOf line, LightsOff.about layer texts := by
  unfold darkens darkArgumentsOf
  cases GroupHeader.ofLine? line.strip with
  | none => simp
  | some h =>
    simp only [Option.some_inj, exists_eq_left', GroupHeader.darkArguments, List.mem_map,
      List.mem_filter, beq_iff_eq, Directive.ofName_eq_noLighting_iff]
    constructor
    · rintro ⟨hheader, ⟨name, hname⟩, habout⟩
      exact ⟨hheader, h.arguments, ⟨name, hname, rfl⟩, habout⟩
    · rintro ⟨hheader, _, ⟨name, hname, rfl⟩, habout⟩
      exact ⟨hheader, ⟨name, hname⟩, habout⟩

instance (line : Text) (layer : Layer) : Decidable (darkens line layer) :=
  decidable_of_iff' _ (darkens_iff line layer)

namespace Outline

/-- The headers of blocks are the headers among the lines. -/
theorem exists_header_iff (o : Outline) (P : Text → Prop) :
    (∃ b ∈ o.blocks, P b.header) ↔ ∃ line ∈ o.lines, isHeader line = true ∧ P line := by
  constructor
  · rintro ⟨b, hb, hheader⟩
    refine ⟨b.header, ?_, b.isHeader_header, hheader⟩
    exact List.mem_append_right _ (List.mem_flatMap.mpr ⟨b, hb, List.mem_cons_self⟩)
  · rintro ⟨line, hline, hheader, hP⟩
    rcases List.mem_append.mp hline with hfront | hblock
    · rw [o.not_isHeader_front line hfront] at hheader
      cases hheader
    · obtain ⟨b, hb, hin⟩ := List.mem_flatMap.mp hblock
      rcases List.mem_cons.mp hin with rfl | hbody
      · exact ⟨b, hb, hP⟩
      · rw [b.not_isHeader_body line hbody] at hheader
        cases hheader

/-- All that text says about lighting that is off. -/
theorem covers_darkArguments (o : Outline) (off : LightsOff) (layer : Layer) :
    (o.darkArguments.foldl LightsOff.turnOff off).covers layer = true ↔
      off.covers layer = true ∨ ∃ line ∈ o.lines, darkens line layer := by
  have hblocks : (∃ texts ∈ o.darkArguments, LightsOff.about layer texts) ↔
      ∃ b ∈ o.blocks, ∃ texts ∈ darkArgumentsOf b.header, LightsOff.about layer texts := by
    constructor
    · rintro ⟨texts, htexts, habout⟩
      obtain ⟨b, hb, hin⟩ := List.mem_flatMap.mp htexts
      exact ⟨b, hb, texts, hin, habout⟩
    · rintro ⟨b, hb, texts, hin, habout⟩
      exact ⟨texts, List.mem_flatMap.mpr ⟨b, hb, hin⟩, habout⟩
  have hlines := o.exists_header_iff fun line =>
    ∃ texts ∈ darkArgumentsOf line, LightsOff.about layer texts
  rw [LightsOff.covers_foldl_turnOff, hblocks, hlines]
  simp only [darkens_iff]

end Outline

/-- A pass darkens what its lines darken, whatever groups it is for. -/
theorem Compilation.Guarded.covers_compilePass {c : Compilation} (h : c.Guarded) (ws : Workspace)
    (groups : List GroupKind) (lines : List Text) :
    ∃ c', c.compilePass ws groups lines = .ok c' ∧ c'.Guarded ∧ ∀ layer,
      c'.lightsOff.covers layer = true ↔
        c.lightsOff.covers layer = true ∨ ∃ line ∈ lines, darkens line layer := by
  obtain ⟨c', hpass, hguarded⟩ := h.compilePass ws groups lines
  obtain ⟨cursor, hbuilt⟩ := compilePass_eq h.toSound ws groups (Outline.ofLines lines)
  rw [Outline.lines_ofLines, hpass, Except.ok.injEq] at hbuilt
  refine ⟨c', hpass, hguarded, ?_⟩
  intro layer
  rw [hbuilt]
  have hdark := (Outline.ofLines lines).covers_darkArguments c.lightsOff layer
  rwa [Outline.lines_ofLines] at hdark

/-- Handing out ids darkens nothing. -/
theorem Compilation.Guarded.lightsOff_finalize {c : Compilation} (h : c.Guarded) :
    ∃ c', c.finalize = .ok c' ∧ c'.Guarded ∧ c'.lightsOff = c.lightsOff := by
  obtain ⟨c', hfinal, hguarded⟩ := h.finalize
  refine ⟨c', hfinal, hguarded, ?_⟩
  rw [finalize_eq h.toSound, Except.ok.injEq] at hfinal
  rw [← hfinal]
  rfl

namespace Request

/-- The lines that a request reads. -/
def lines : Request → List Text
  | .compile lines => lines
  | .pass _ lines => lines
  | .finalize => []
  | .resolve .. => []

theorem covers_run (ws : Workspace) {c : Compilation} (h : c.Guarded) (request : Request) :
    ∃ c', run ws c request = .ok c' ∧ c'.Guarded ∧ ∀ layer,
      c'.lightsOff.covers layer = true ↔
        c.lightsOff.covers layer = true ∨ ∃ line ∈ request.lines, darkens line layer := by
  cases request with
  | pass groups lines => exact h.covers_compilePass ws groups lines
  | compile lines =>
    obtain ⟨first, hfirst, hguarded, hcovers⟩ := h.covers_compilePass ws Compilation.firstPass lines
    obtain ⟨second, hsecond, hguarded, hagain⟩ :=
      hguarded.covers_compilePass ws Compilation.secondPass lines
    obtain ⟨final, hfinal, hguarded, hsame⟩ := hguarded.lightsOff_finalize
    refine ⟨final, ?_, hguarded, ?_⟩
    · rw [run, Compilation.compile, hfirst, ok_bind, hsecond, ok_bind, hfinal]
    · intro layer
      rw [hsame, hagain, hcovers, or_assoc, or_self]
      rfl
  | finalize =>
    obtain ⟨c', hfinal, hguarded, hsame⟩ := h.lightsOff_finalize
    exact ⟨c', hfinal, hguarded, by simp [hsame, lines]⟩
  | resolve key token =>
    obtain ⟨c', hrun, hguarded⟩ := run_guarded ws h (.resolve key token)
    have hsame : c'.lightsOff = c.lightsOff := by
      rw [run, Compilation.reference] at hrun
      cases hresolve : c.macros.resolve key token with
      | error fault =>
        rw [hresolve] at hrun
        cases hrun
      | ok reference =>
        rw [hresolve] at hrun
        cases hrun
        rfl
    exact ⟨c', hrun, hguarded, by simp [hsame, lines]⟩

theorem covers_foldlM_run (ws : Workspace) {c : Compilation} (h : c.Guarded)
    (requests : List Request) :
    ∃ c', requests.foldlM (run ws) c = .ok c' ∧ ∀ layer,
      c'.lightsOff.covers layer = true ↔ c.lightsOff.covers layer = true ∨
        ∃ request ∈ requests, ∃ line ∈ request.lines, darkens line layer := by
  induction requests generalizing c with
  | nil => exact ⟨c, rfl, by simp⟩
  | cons request requests ih =>
    obtain ⟨middle, hrun, hguarded, hcovers⟩ := covers_run ws h request
    obtain ⟨c', hrest, hcovers'⟩ := ih hguarded
    refine ⟨c', ?_, ?_⟩
    · rw [List.foldlM_cons, hrun, ok_bind, hrest]
    · intro layer
      rw [hcovers', hcovers, or_assoc]
      simp only [List.mem_cons, exists_eq_or_imp]

end Request

/-- Lighting is off where the headers say so. On a compiled profile a layer is dark exactly if some
line of the text darkens it, for every keyboard and whatever effect files there are. After any
requests to a new compilation it is dark exactly if some line that one of them read does so: neither
other lines nor the groups, the order and the number of the passes have a say. A header whose
arguments are none that name a layer, be it that there are none between the parentheses, darkens
nothing. -/
theorem dark_layers (ws : Workspace) :
    (∀ lines, ∃ c, compile ws lines = .ok c ∧ ∀ layer,
      c.profile.isDark layer = true ↔ ∃ line ∈ lines, darkens line layer) ∧
    (∀ requests, ∃ c, Request.runAll ws requests = .ok c ∧ ∀ layer,
      c.profile.isDark layer = true ↔
        ∃ request ∈ requests, ∃ line ∈ request.lines, darkens line layer) ∧
    ∀ line h texts, GroupHeader.ofLine? (Text.strip line) = some h → h.arguments = some texts →
      (∀ t ∈ texts, Layer.ofText? t = none) → ∀ layer, ¬darkens line layer := by
  have hrequests (requests : List Request) : ∃ c, Request.runAll ws requests = .ok c ∧
      ∀ layer, c.profile.isDark layer = true ↔
        ∃ request ∈ requests, ∃ line ∈ request.lines, darkens line layer := by
    obtain ⟨c, hrun, hcovers⟩ := Request.covers_foldlM_run ws Compilation.guarded_start requests
    refine ⟨c, hrun, ?_⟩
    intro layer
    have hstart : ({} : LightsOff).covers layer = false := by
      cases layer <;> rfl
    exact (hcovers layer).trans (by simp [hstart])
  refine ⟨?_, hrequests, ?_⟩
  · intro lines
    have honly : Request.runAll ws [.compile lines] = compile ws lines := by
      simp [Request.runAll, Request.run, compile]
    obtain ⟨c, hrun, hdark⟩ := hrequests [.compile lines]
    refine ⟨c, honly ▸ hrun, ?_⟩
    intro layer
    rw [hdark]
    simp [Request.lines]
  · rintro line h texts hline harguments hnone layer ⟨-, header, hheader, -, habout⟩
    obtain rfl : h = header := Option.some_inj.mp (hline.symm.trans hheader)
    rw [harguments] at habout
    obtain ⟨t, ht, hlayer⟩ := habout
    rw [hnone t ht] at hlayer
    cases hlayer

/-- A comment, an empty list, a list with a number and an unknown name, and a table and lighting
that is off in one header. -/
theorem dark_layers_listed :
    (∃ c, compile {} (["#[NoLighting]", "[NoLighting()]", "[nolighting( 2 ,Nope)]"].map
        String.toList) = .ok c ∧ c.profile.isDark .layer1 = true ∧ c.profile.isDark .base = false) ∧
      (∃ c, compile {} ["[Base, NoLighting ]".toList] = .ok c ∧ c.profile.isDark .layer3 = true) ∧
      ∀ layer, ¬darkens "[NoLighting(Nope,)]".toList layer := by
  obtain ⟨hcompile, -, hnothing⟩ := dark_layers {}
  refine ⟨?_, ?_, ?_⟩
  · obtain ⟨c, hc, hdark⟩ := hcompile (["#[NoLighting]", "[NoLighting()]",
      "[nolighting( 2 ,Nope)]"].map String.toList)
    have hbase : ¬c.profile.isDark .base = true := by
      rw [hdark]
      decide +kernel
    exact ⟨c, hc, (hdark .layer1).mpr (by decide +kernel), Bool.eq_false_iff.mpr hbase⟩
  · obtain ⟨c, hc, hdark⟩ := hcompile ["[Base, NoLighting ]".toList]
    exact ⟨c, hc, (hdark .layer3).mpr (by decide +kernel)⟩
  · exact hnothing _ ⟨["NoLighting".toList], some ["Nope".toList]⟩ ["Nope".toList] (by decide) rfl
      (by decide +kernel)

end KeyProfile

import KeyProfile.Proofs.NoFaults

/-!
Facts that compilations keep. If headers, lines of a body, references and finalizations keep a fact
that looks neither at the cursor nor at dark layers and the log, then it holds after every block and
every pass, and whatever a new compilation was asked for (`Kept.runAll`).
-/

namespace KeyProfile

namespace Compilation

/-- A fact that holds at the start, and that nothing takes away from a sound compilation. -/
structure Kept (ws : Workspace) (P : Compilation → Prop) : Prop where
  start : P {}
  framed : ∀ c cursor lightsOff, P c → P (c.framed cursor lightsOff)
  record : ∀ c records, P c → P (c.record records)
  enter : ∀ c topic, c.Sound → P c → P (c.enter ws topic)
  fillLine : ∀ c topic line, c.Sound → P c → P (c.fillLine topic line)
  reference : ∀ c name, c.Sound → P c → P { c with macros := (c.macros.reference name).1 }
  published : ∀ c, c.Sound → P c → P c.published

namespace Kept

variable {ws : Workspace} {P : Compilation → Prop} {c : Compilation}

theorem foldl_fillLine (h : Kept ws P) (hsound : c.Sound) (hc : P c) (topic : Topic)
    (lines : List Text) : P (lines.foldl (fun c line => c.fillLine topic line) c) := by
  induction lines generalizing c with
  | nil => exact hc
  | cons line lines ih =>
    apply ih
    · exact hsound.fillLine topic line
    · exact h.fillLine c topic line hsound hc

theorem build (h : Kept ws P) (hsound : c.Sound) (hc : P c) (groups : List GroupKind) (b : Block) :
    P (c.build ws groups b) := by
  apply h.foldl_fillLine
  · exact hsound.enter ws _
  · exact h.enter c _ hsound hc

theorem foldl_build (h : Kept ws P) (hsound : c.Sound) (hc : P c) (groups : List GroupKind)
    (blocks : List Block) : P (blocks.foldl (Compilation.build ws groups) c) := by
  induction blocks generalizing c with
  | nil => exact hc
  | cons b blocks ih =>
    apply ih
    · exact hsound.build ws groups b
    · exact h.build hsound hc groups b

theorem compilePass (h : Kept ws P) (hsound : c.Sound) (hc : P c) (groups : List GroupKind)
    (lines : List Text) : ∃ c', c.compilePass ws groups lines = .ok c' ∧ c'.Sound ∧ P c' := by
  obtain ⟨cursor, hpass⟩ := compilePass_eq hsound ws groups (Outline.ofLines lines)
  rw [Outline.lines_ofLines] at hpass
  refine ⟨_, hpass, ?_, ?_⟩
  · exact (hsound.foldl_build ws groups _).framed _ _
  · exact h.framed _ _ _ (h.foldl_build hsound hc groups _)

theorem finalize (h : Kept ws P) (hsound : c.Sound) (hc : P c) :
    ∃ c', c.finalize = .ok c' ∧ c'.Sound ∧ P c' := by
  refine ⟨_, finalize_eq hsound, ?_, ?_⟩
  · exact hsound.published.record _
  · exact h.record _ _ (h.published c hsound hc)

theorem compile (h : Kept ws P) (hsound : c.Sound) (hc : P c) (lines : List Text) :
    ∃ c', Compilation.compile ws lines c = .ok c' ∧ c'.Sound ∧ P c' := by
  obtain ⟨first, hfirst, hsound, hkept⟩ := h.compilePass hsound hc firstPass lines
  obtain ⟨second, hsecond, hsound, hkept⟩ := h.compilePass hsound hkept secondPass lines
  obtain ⟨final, hfinal, hsound, hkept⟩ := h.finalize hsound hkept
  refine ⟨final, ?_, hsound, hkept⟩
  rw [Compilation.compile, hfirst, ok_bind, hsecond, ok_bind, hfinal]

/-- No request takes the fact away. -/
theorem run (h : Kept ws P) (hsound : c.Sound) (hc : P c) (request : Request) :
    ∃ c', Request.run ws c request = .ok c' ∧ c'.Sound ∧ P c' := by
  cases request with
  | compile lines => exact h.compile hsound hc lines
  | pass groups lines => exact h.compilePass hsound hc groups lines
  | finalize => exact h.finalize hsound hc
  | resolve key token =>
    cases hcall : token.call? with
    | none =>
      refine ⟨c.record [], ?_, hsound.record [], h.record c [] hc⟩
      rw [Request.run, Compilation.reference, Registry.resolve_no_call _ _ hcall]
      rfl
    | some parts =>
      obtain ⟨front, inner⟩ := parts
      have hafter : Sound { c with macros := (c.macros.reference inner.strip).1 } := by
        refine ⟨hsound.macros.reference inner.strip, ?_, hsound.effects⟩
        simpa only [Registry.items_reference] using hsound.named
      have hrun : Request.run ws c (.resolve key token) =
          .ok (Compilation.record { c with macros := (c.macros.reference inner.strip).1 }
            ((c.macros.reference inner.strip).1.complaint? key inner.strip).toList) := by
        rw [Request.run, Compilation.reference, hsound.macros.resolve_call key hcall]
        rfl
      exact ⟨_, hrun, hafter.record _, h.record _ _ (h.reference c inner.strip hsound hc)⟩

/-- The fact holds whatever a new compilation was asked for. -/
theorem runAll (h : Kept ws P) (requests : List Request) :
    ∃ c, Request.runAll ws requests = .ok c ∧ c.Sound ∧ P c := by
  apply foldlM_keeps (I := fun c => c.Sound ∧ P c)
  · rintro c request ⟨hsound, hc⟩
    exact h.run hsound hc request
  · exact ⟨sound_start, h.start⟩

end Kept

end Compilation

end KeyProfile

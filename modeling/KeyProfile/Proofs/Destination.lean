import KeyProfile.Compilation.Binding
import KeyProfile.Proofs.Registry

/-!
What the tokens of a destination come to. The references to macros that they make can be told from
the tokens alone, and so can the value once every macro has a value of its own. Main statement: a
destination can always be made, and it is the one that its tokens come to in the registry after all
of their references (`ofTokens_eq`). References made later do not change it (`evaluate_refer`).
-/

namespace KeyProfile

namespace Registry

variable {α : Type}

/-- The word that runs the macro of a name, if the name has an id. -/
def macroValue? (r : Registry α) (name : Text) : Option Int :=
  (r.idOf? name).map fun id => DriverValue.macroTag + id

/-- What there is to say about a reference of a key to a name that got no id. -/
def complaint? (r : Registry α) (key : Int) (name : Text) : Option LogRecord :=
  if r.defines name = false then some (.macroMissing name key)
  else if r.idOf? name = none then some (.macroUnnumbered name key)
  else none

theorem Settled.macroValue?_refer {r : Registry α} {name : Text} (h : r.Settled name)
    (names : List Text) : (r.refer names).macroValue? name = r.macroValue? name := by
  rw [macroValue?, (h.refer names).2, macroValue?]

theorem Settled.complaint?_refer {r : Registry α} {name : Text} (h : r.Settled name)
    (names : List Text) (key : Int) :
    (r.refer names).complaint? key name = r.complaint? key name := by
  rw [complaint?, (h.refer names).2, defines_refer, complaint?]

/-- A sound registry with room for as many names as a word has room for ids. -/
structure Roomy (r : Registry α) : Prop extends Sound r where
  limit : r.limit = some DriverValue.macroIds

theorem Roomy.reference {r : Registry α} (h : r.Roomy) (name : Text) : (r.reference name).1.Roomy :=
  ⟨h.toSound.reference name, (limit_reference ..).trans h.limit⟩

theorem Roomy.refer {r : Registry α} (h : r.Roomy) (names : List Text) : (r.refer names).Roomy :=
  ⟨h.toSound.refer names, (limit_refer ..).trans h.limit⟩

/-- Every id fits into a word. -/
theorem Roomy.ofMacroId {r : Registry α} (h : r.Roomy) {name : Text} {id : Nat}
    (hid : r.idOf? name = some id) :
    DriverValue.ofMacroId id = .ok (DriverValue.macroTag + id) := by
  have hbound : id < r.referenced.length := by
    obtain ⟨hm, rfl⟩ := (idOf?_eq_some_iff ..).mp hid
    exact List.idxOf_lt_length_iff.mpr hm
  have hlength := h.within _ h.limit
  refine DriverValue.ofMacroId_eq_ok_iff.mpr ⟨?_, rfl⟩
  simp only [DriverValue.macroIds] at *
  omega

theorem resolve_no_call (r : Registry α) (key : Int) {token : Text} (h : token.call? = none) :
    r.resolve key token = .ok { registry := r } := by
  simp [resolve, h]

/-- A token that calls a macro refers to its name. Its value is what the name has from then on. -/
theorem Roomy.resolve_call {r : Registry α} (h : r.Roomy) (key : Int) {token front inner : Text}
    (hcall : token.call? = some (front, inner)) :
    r.resolve key token = .ok
      { registry := (r.reference inner.strip).1
        value := (r.reference inner.strip).1.macroValue? inner.strip
        log := ((r.reference inner.strip).1.complaint? key inner.strip).toList } := by
  have hsnd := h.toSound.reference_snd inner.strip
  unfold resolve
  simp only [hcall]
  cases hd : r.defines inner.strip with
  | false =>
    have hsame : (r.reference inner.strip).1 = r := by
      rw [reference_fst, if_neg (by simp [hd])]
    have hnone : r.idOf? inner.strip = none := by
      have hm : inner.strip ∉ r.referenced := by
        intro hm
        rw [h.defined _ hm] at hd
        cases hd
      simp [idOf?, hm]
    simp [hsame, macroValue?, complaint?, hd, hnone]
  | true =>
    cases hid : (r.reference inner.strip).1.idOf? inner.strip with
    | none =>
      rw [hid] at hsnd
      have hpair : r.reference inner.strip = ((r.reference inner.strip).1, none) :=
        Prod.ext rfl hsnd
      rw [hpair]
      simp [macroValue?, complaint?, hd, hid]
    | some id =>
      rw [hid] at hsnd
      have hpair : r.reference inner.strip = ((r.reference inner.strip).1, some id) :=
        Prod.ext rfl hsnd
      have hvalue := (h.reference inner.strip).ofMacroId hid
      rw [hpair]
      simp only [Bool.not_true, Bool.false_eq_true, if_false, hvalue, ok_bind]
      simp [macroValue?, complaint?, hd, hid]
      rfl

end Registry

namespace Destination

/-- What a token asks for. A literal may be malformed, a call may have no name, and a symbol may be
unknown. -/
inductive Part where
  | literal (value : Option Int)
  | call (name : Option Text)
  | symbol (value : Option Int)

def Part.ofToken (token : Text) : Part :=
  let token := token.strip
  if (KeyToken.hexBody? token).isSome then .literal (KeyToken.hexLiteral? token)
  else if token.lower.startsWith "macro".toList then
    .call (token.call?.map fun parts => parts.2.strip)
  else .symbol (SymbolTable.standard.value? token)

/-- The name of the macro that a token calls. -/
def calledName? (token : Text) : Option Text :=
  match Part.ofToken token with
  | .call name => name
  | _ => none

def calledNames (tokens : List Text) : List Text := tokens.filterMap calledName?

/-- One token more when the macros have the values given. Keys and modifiers are added to what is
there; anything else that makes sense replaces it. -/
def combine (valueOf : Text → Option Int) (value : Int) (token : Text) : Int :=
  match Part.ofToken token with
  | .literal literal => literal.getD value
  | .call name => (name.bind valueOf).getD value
  | .symbol none => value
  | .symbol (some symbol) =>
    if DriverValue.kind symbol = .key then bitUnion value symbol else symbol

/-- What tokens come to when the macros have the values given. -/
def evaluate (valueOf : Text → Option Int) (tokens : List Text) : Int :=
  tokens.foldl (combine valueOf) 0

theorem combine_congr {f g : Text → Option Int} {token : Text}
    (h : ∀ name ∈ calledName? token, f name = g name) (value : Int) :
    combine f value token = combine g value token := by
  unfold calledName? at h
  unfold combine
  cases hpart : Part.ofToken token with
  | literal literal => rfl
  | symbol symbol => cases symbol <;> rfl
  | call name =>
    rw [hpart] at h
    cases name with
    | none => rfl
    | some name => simp [h name rfl]

theorem foldl_combine_congr {f g : Text → Option Int} {tokens : List Text}
    (h : ∀ name ∈ calledNames tokens, f name = g name) (value : Int) :
    tokens.foldl (combine f) value = tokens.foldl (combine g) value := by
  induction tokens generalizing value with
  | nil => rfl
  | cons token rest ih =>
    have htoken : ∀ name ∈ calledName? token, f name = g name := by
      intro name hm
      exact h name (List.mem_filterMap.mpr ⟨token, by simp, hm⟩)
    have hrest : ∀ name ∈ calledNames rest, f name = g name := by
      intro name hm
      obtain ⟨other, hother, hname⟩ := List.mem_filterMap.mp hm
      exact h name (List.mem_filterMap.mpr ⟨other, by simp [hother], hname⟩)
    rw [List.foldl_cons, List.foldl_cons, combine_congr htoken, ih hrest]

/-- Only the macros that the tokens call matter for what they come to. -/
theorem evaluate_congr {f g : Text → Option Int} {tokens : List Text}
    (h : ∀ name ∈ calledNames tokens, f name = g name) : evaluate f tokens = evaluate g tokens :=
  foldl_combine_congr h 0

variable {α : Type}

theorem evaluate_refer {r : Registry α} {tokens : List Text}
    (h : ∀ name ∈ calledNames tokens, r.Settled name) (names : List Text) :
    evaluate (r.refer names).macroValue? tokens = evaluate r.macroValue? tokens := by
  apply evaluate_congr
  intro name hm
  exact (h name hm).macroValue?_refer names

/-- One token more, by what it asks for. -/
theorem add_part (d : Destination α) (key : Int) (token : Text) :
    add key d token =
      match Part.ofToken token with
      | .literal literal => .ok { d with value := literal.getD d.value }
      | .call _ => do
        let reference ← d.registry.resolve key token.strip
        .ok
          { registry := reference.registry
            value := reference.value.getD d.value
            log := d.log ++ reference.log }
      | .symbol none => .ok d
      | .symbol (some symbol) =>
        if DriverValue.kind symbol = .key then .ok { d with value := bitUnion d.value symbol }
        else .ok { d with value := symbol } := by
  unfold add Part.ofToken
  dsimp only
  by_cases hhex : (KeyToken.hexBody? token.strip).isSome = true
  · rw [if_pos hhex, if_pos hhex]
    rfl
  · rw [if_neg hhex, if_neg hhex]
    by_cases hcall : token.strip.lower.startsWith "macro".toList = true
    · rw [if_pos hcall, if_pos hcall]
      rfl
    · rw [if_neg hcall, if_neg hcall]
      cases SymbolTable.standard.value? token.strip <;> rfl

theorem call?_of_part {token : Text} {name : Option Text} (h : Part.ofToken token = .call name) :
    name = token.strip.call?.map fun parts => parts.2.strip := by
  unfold Part.ofToken at h
  dsimp only at h
  split at h
  · cases h
  · split at h
    · cases h
      rfl
    · cases h

theorem add_eq {d : Destination α} (h : d.registry.Roomy) (key : Int) (token : Text) :
    add key d token = .ok
      { registry := d.registry.refer (calledName? token).toList
        value := combine (d.registry.refer (calledName? token).toList).macroValue? d.value token
        log := d.log ++ (calledName? token).toList.filterMap
          ((d.registry.refer (calledName? token).toList).complaint? key) } := by
  rw [add_part]
  unfold calledName? combine
  cases hpart : Part.ofToken token with
  | literal literal => simp
  | symbol symbol =>
    cases symbol with
    | none => simp
    | some symbol => by_cases hkey : DriverValue.kind symbol = .key <;> simp [hkey]
  | call name =>
    have hname := call?_of_part hpart
    cases hcall : token.strip.call? with
    | none =>
      rw [hcall] at hname
      subst hname
      simp [Registry.resolve_no_call _ _ hcall, ok_bind]
    | some parts =>
      obtain ⟨front, inner⟩ := parts
      rw [hcall] at hname
      subst hname
      simp only [h.resolve_call key hcall, ok_bind]
      cases hcomplaint :
          (d.registry.reference inner.strip).1.complaint? key inner.strip <;>
        simp [Registry.refer_cons, hcomplaint]

theorem foldlM_add_eq {d : Destination α} (h : d.registry.Roomy) (key : Int)
    (tokens : List Text) :
    tokens.foldlM (add key) d = .ok
      { registry := d.registry.refer (calledNames tokens)
        value := tokens.foldl (combine (d.registry.refer (calledNames tokens)).macroValue?) d.value
        log := d.log ++ (calledNames tokens).filterMap
          ((d.registry.refer (calledNames tokens)).complaint? key) } := by
  induction tokens generalizing d with
  | nil => simp [calledNames, pure, Except.pure]
  | cons token rest ih =>
    have hnames : calledNames (token :: rest) = (calledName? token).toList ++ calledNames rest := by
      unfold calledNames
      cases hcall : calledName? token <;> simp [hcall]
    set r := d.registry.refer (calledName? token).toList with hr
    have hroomy : r.Roomy := h.refer _
    -- later references leave alone what the first token's own reference settled
    have hsettled : ∀ name ∈ (calledName? token).toList, r.Settled name := by
      intro name hm
      exact Registry.settled_refer d.registry hm
    have hvalue (value : Int) :
        combine (r.refer (calledNames rest)).macroValue? value token =
          combine r.macroValue? value token := by
      apply combine_congr
      intro name hm
      exact (hsettled name (by simpa using hm)).macroValue?_refer (calledNames rest)
    have hlog : (calledName? token).toList.filterMap ((r.refer (calledNames rest)).complaint? key) =
        (calledName? token).toList.filterMap (r.complaint? key) := by
      apply List.filterMap_congr
      intro name hm
      exact (hsettled name hm).complaint?_refer (calledNames rest) key
    rw [List.foldlM_cons, add_eq h, ok_bind, ← hr, ih hroomy, hnames,
      Registry.refer_append, ← hr, List.foldl_cons, hvalue, List.filterMap_append, hlog,
      List.append_assoc]

/-- Making a destination never fails, and nothing in it depends on how the references of its tokens
are spread over the tokens. -/
theorem ofTokens_eq {r : Registry α} (h : r.Roomy) (key : Int) (tokens : List Text) :
    ofTokens r key tokens = .ok
      { registry := r.refer (calledNames tokens)
        value := evaluate (r.refer (calledNames tokens)).macroValue? tokens
        log := (calledNames tokens).filterMap
          ((r.refer (calledNames tokens)).complaint? key) } := by
  unfold ofTokens evaluate
  rw [foldlM_add_eq (d := { registry := r }) h]
  simp

end Destination

end KeyProfile

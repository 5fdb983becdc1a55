import KeyProfile.Proofs.Spelling
import KeyProfile.Proofs.TextCuts

/-!
Headers as they are written. What stands between the brackets is read back: a plain name as itself
(`ofLine?_headerOf_name`), a call as its name and the entries between the parentheses
(`ofLine?_headerOf_call`). The other way round, the names of a header that calls nothing can each be
written as a header of their own (`names_of_plain`).
-/

namespace KeyProfile

/-- The header that a name makes. -/
def headerOf (name : Text) : Text := '[' :: name ++ [']']

/-- Whatever the name is, its header has no blanks around it. -/
theorem strip_headerOf (name : Text) : (headerOf name).strip = headerOf name := by
  apply Text.strip_concat
  · rintro c ⟨⟩
    decide
  · decide

theorem isHeader_headerOf (name : Text) : isHeader (headerOf name) = true := by
  rw [isHeader, strip_headerOf]
  rfl

namespace GroupHeader

/-- What stands between the brackets is a call or a list of names. -/
theorem ofLine?_headerOf_body {body : Text} (hne : body ≠ []) (hend : ']' ∉ body) :
    ofLine? (headerOf body) =
      match body.strip.call? with
      | some (name, inner) => some ⟨[name.strip], some (entries inner)⟩
      | none => some ⟨entries body.strip, none⟩ := by
  have hfront : ']' ∉ '[' :: body := by simpa using hend
  obtain ⟨first, rest, rfl⟩ := List.exists_cons_of_ne_nil hne
  unfold ofLine?
  rw [headerOf, Text.cutAt?_append hfront]
  rfl

/-- A name with nothing in it that a header is cut at makes a header that lists it alone. -/
theorem ofLine?_headerOf_name {name : Text} (hne : name ≠ []) (hstrip : name.strip = name)
    (hcomma : ',' ∉ name) (hopen : '(' ∉ name) (hend : ']' ∉ name) :
    ofLine? (headerOf name) = some ⟨[name], none⟩ := by
  have hentries : entries name = [name] := by
    rw [entries, Text.fields_of_notMem hne hcomma, List.map_singleton, hstrip]
  rw [ofLine?_headerOf_body hne hend, hstrip, Text.call?_of_notMem (.inl hopen), hentries]

/-- A name called with what stands in parentheses makes a header with these arguments. -/
theorem ofLine?_headerOf_call {kind inner : Text} (hhead : ∀ c ∈ kind.head?, Text.isBlank c = false)
    (hne : kind ≠ []) (hkind : ∀ c ∈ ['(', ')', ']'], c ∉ kind)
    (hinner : ∀ c ∈ [')', ']'], c ∉ inner) :
    ofLine? (headerOf (kind ++ '(' :: (inner ++ [')']))) =
      some ⟨[kind.strip], some (entries inner)⟩ := by
  set body := kind ++ '(' :: (inner ++ [')']) with hbody
  have hstrip : body.strip = body := by
    have hlast : body = (kind ++ '(' :: inner) ++ [')'] := by simp [hbody]
    rw [hlast]
    apply Text.strip_concat
    · intro c hc
      rw [← hlast, hbody, List.head?_append_of_ne_nil _ hne] at hc
      exact hhead c hc
    · decide
  have hcall : body.call? = some (kind, inner) :=
    Text.call?_eq_some_iff.mpr ⟨[], rfl, hne, hkind _ (by simp), hkind _ (by simp),
      hinner _ (by simp)⟩
  have hend : ']' ∉ body := by
    have hkindEnd := hkind ']' (by simp)
    have hinnerEnd := hinner ']' (by simp)
    simp [hbody, hkindEnd, hinnerEnd]
  rw [ofLine?_headerOf_body (by simp [hbody]) hend, hstrip, hcall]

/-- The header of a name of a table lists that name alone. -/
theorem ofLine?_headerOf {name : Text} {ref : TableRef} (h : Directive.ofName name = .table ref) :
    ofLine? (headerOf name) = some ⟨[name], none⟩ := by
  have hstrip : name.strip = name := by
    apply Text.strip_eq_self
    · intro c hc
      exact Directive.not_isBlank_of_ofName h (List.mem_of_mem_head? hc)
    · intro c hc
      exact Directive.not_isBlank_of_ofName h (List.mem_of_getLast? hc)
  have hfree : ∀ c, Text.lowerChar c = c ∧ c ≠ 'Σ' ∧ c ≠ 'İ' → c.isAlphanum = false → c ∉ name :=
    fun c => Directive.notMem_of_ofName h
  exact ofLine?_headerOf_name (Directive.ne_nil_of_ofName h) hstrip
    (hfree ',' (by decide) (by decide)) (hfree '(' (by decide) (by decide))
    (hfree ']' (by decide) (by decide))

theorem mem_entries {t name : Text} (h : name ∈ entries t) :
    name.strip = name ∧ ',' ∉ name ∧ ∀ c ∈ name, c ∈ t := by
  obtain ⟨piece, hpiece, rfl⟩ := List.mem_map.mp h
  obtain ⟨-, hcomma, hsub⟩ := Text.mem_fields hpiece
  refine ⟨Text.strip_strip piece, ?_, ?_⟩
  · intro hin
    exact hcomma (Text.mem_of_mem_strip hin)
  · intro c hc
    exact hsub c (Text.mem_of_mem_strip hc)

/-- Without an opening parenthesis between its brackets a header calls nothing, and each of its
names has nothing in it that a header is cut at. -/
theorem names_of_plain {line : Text} {header : GroupHeader} (hline : ofLine? line = some header)
    (hplain : '(' ∉ line.takeWhile (· != ']')) :
    header.arguments = none ∧
      ∀ name ∈ header.names, name.strip = name ∧ ',' ∉ name ∧ '(' ∉ name ∧ ']' ∉ name := by
  unfold ofLine? at hline
  cases hcut : line.cutAt? ']' with
  | none => simp [hcut] at hline
  | some parts =>
    obtain ⟨front, back⟩ := parts
    obtain ⟨rfl, hend⟩ := Text.cutAt?_eq_some_iff.mp hcut
    have hfront : (front ++ ']' :: back).takeWhile (· != ']') = front := by
      rw [List.takeWhile_append_of_pos]
      · simp
      · intro c hc
        have hne : c ≠ ']' := fun e => hend (e ▸ hc)
        simpa using hne
    rw [hfront] at hplain
    simp only [hcut, Option.bind_eq_bind, Option.bind_some] at hline
    split at hline
    · cases hline
    · cases hline
    · next first body hbody =>
      have hopen : '(' ∉ Text.strip body := fun hin =>
        hplain (List.mem_cons_of_mem _ (Text.mem_of_mem_strip hin))
      rw [Text.call?_of_notMem (.inl hopen)] at hline
      cases hline
      refine ⟨rfl, ?_⟩
      intro name hname
      obtain ⟨hstrip, hcomma, hsub⟩ := mem_entries hname
      refine ⟨hstrip, hcomma, fun hin => hopen (hsub _ hin), ?_⟩
      intro hin
      exact hend (List.mem_cons_of_mem _ (Text.mem_of_mem_strip (hsub _ hin)))

end GroupHeader

end KeyProfile

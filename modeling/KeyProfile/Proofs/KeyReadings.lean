import KeyProfile.Proofs.Spelling

/-!
The two readings of a key token, by profiles and by lighting files, agree wherever the first one
finds a value. A literal is one for both. A name that a profile may use is no numeral
(`Symbol.decimal?_of_mem_names`), and no other name is the same in lower case, so a lighting file
finds the same symbol under it (`SymbolTable.valueAnyCase?_of_value?`). Main statement:
`key_readings_agree`.
-/

namespace KeyProfile

namespace SymbolTable

/-- If claimed names differ in more than case, what is found exactly is also found in any case. -/
theorem findAnyCase?_of_find? {table : SymbolTable}
    (distinct : (table.claims.map (·.1.lower)).Nodup) {name : Text} {s : Symbol}
    (h : table.find? name = some s) : table.findAnyCase? name = some s := by
  obtain ⟨before, after, hclaims, -⟩ := List.lookup_eq_some_iff.mp h
  have hclaim : (name.strip, s) ∈ table.claims := by simp [hclaims]
  have hsome : (table.claims.find? (·.1.lower = name.strip.lower)).isSome = true :=
    List.find?_isSome.mpr ⟨_, hclaim, by simp⟩
  obtain ⟨claim, hfind⟩ := Option.isSome_iff_exists.mp hsome
  have hlower : claim.1.lower = name.strip.lower := by simpa using List.find?_some hfind
  have hsame : claim = (name.strip, s) :=
    List.inj_on_of_nodup_map distinct (List.mem_of_find?_eq_some hfind) hclaim hlower
  simp only [findAnyCase?]
  rw [hfind, hsame]
  rfl

theorem valueAnyCase?_of_value? {name : Text} {v : Int} (h : standard.value? name = some v) :
    standard.valueAnyCase? name = some v := by
  obtain ⟨s, hfind, rfl⟩ := Option.map_eq_some_iff.mp h
  have hlower : standard.claims.map (·.1.lower) =
      ((Symbol.standard.flatMap Symbol.names).map Text.lower).reverse := by
    rw [← List.map_reverse, ← names_standard, List.map_map]
    rfl
  have hdistinct : (standard.claims.map (·.1.lower)).Nodup := by
    rw [hlower]
    exact List.nodup_reverse.mpr nodup_standard_lower_names
  rw [valueAnyCase?, findAnyCase?_of_find? hdistinct hfind]
  rfl

end SymbolTable

/-- No name is a numeral. -/
theorem Symbol.decimal?_of_mem_names {s : Symbol} (hs : s ∈ Symbol.standard) {name : Text}
    (hname : name ∈ s.names) : Text.decimal? name = none := by
  have hall : ∀ s ∈ Symbol.standard, ∀ name ∈ s.names, Text.decimal? name = none := by
    decide +kernel
  exact hall s hs name hname

namespace KeyToken

theorem decimalWithin?_of_find? {t : Text} {s : Symbol}
    (h : SymbolTable.standard.find? t = some s) (least greatest : Int) :
    decimalWithin? least greatest t = none := by
  obtain ⟨hs, hname⟩ := SymbolTable.mem_standard_of_find? h
  have hnone := Symbol.decimal?_of_mem_names hs hname
  rw [Text.decimal?, Text.strip_strip] at hnone
  rw [decimalWithin?, Text.decimal?, hnone]
  rfl

/-- A literal that is one for a profile is one for a lighting file, and the other way round. -/
theorem locationOfText?_of_hexBody? {t body : Text} (h : hexBody? t = some body)
    (keyboard : Keyboard) :
    locationOfText? keyboard t = (driverValue? t).bind keyboard.locationOf? := by
  rw [locationOfText?, driverValue?, h]

theorem locationOfText?_of_value? {t : Text} {v : Int} (hliteral : hexBody? t = none)
    (h : SymbolTable.standard.value? t.strip = some v) (keyboard : Keyboard) :
    locationOfText? keyboard t = keyboard.locationOf? v := by
  obtain ⟨s, hfind, -⟩ := Option.map_eq_some_iff.mp h
  have hnumeral : decimalWithin? (-0x80000000) 0x7FFFFFFF t = none := by
    refine decimalWithin?_of_find? (s := s) ?_ _ _
    rwa [SymbolTable.find?, Text.strip_strip] at hfind
  rw [locationOfText?, hliteral]
  dsimp only
  rw [hnumeral]
  dsimp only
  rw [SymbolTable.valueAnyCase?_of_value? h]
  rfl

theorem exists_hexBody? {t : Text} (h : t.strip.startsWith "0x".toList = true) :
    ∃ body, hexBody? t = some body := by
  obtain ⟨body, hbody⟩ := List.isPrefixOf_iff_prefix.mp h
  exact ⟨body, by rw [hexBody?, ← hbody]; rfl⟩

end KeyToken

/-- Wherever a profile finds the value of a token, a lighting file finds the location of the key
with that value, if the keyboard has one; and what begins like a literal but is none is no key for
either, whatever comes behind the mark. -/
theorem key_readings_agree (keyboard : Keyboard) (t : Text) :
    (∀ v, KeyToken.driverValue? t = some v →
      KeyToken.location? keyboard (.str t) = keyboard.locationOf? v) ∧
    (t.strip.startsWith "0x".toList = true → KeyToken.driverValue? t = none →
      KeyToken.location? keyboard (.str t) = none) := by
  have hlocation : KeyToken.location? keyboard (.str t) = KeyToken.locationOfText? keyboard t := rfl
  rw [hlocation]
  constructor
  · intro v hv
    cases hbody : KeyToken.hexBody? t with
    | some body =>
      rw [KeyToken.locationOfText?_of_hexBody? hbody, hv]
      rfl
    | none =>
      rw [KeyToken.driverValue?, hbody] at hv
      exact KeyToken.locationOfText?_of_value? hbody hv keyboard
  · intro hmark hnone
    obtain ⟨body, hbody⟩ := KeyToken.exists_hexBody? hmark
    rw [KeyToken.locationOfText?_of_hexBody? hbody, hnone]
    rfl

/-- Enter under its other name, a blank in front, and a bad literal with the name of a key behind
the mark. -/
theorem key_readings_agree_return :
    let keyboard := Keyboard.ofKeys 0 [(0x02002800, some 17), (0x02002900, some 18)]
    KeyToken.driverValue? " Return".toList = some 0x02002800 ∧
      KeyToken.location? keyboard (.str " Return".toList) = some 17 ∧
      KeyToken.driverValue? "0xEsc".toList = none ∧
      KeyToken.location? keyboard (.str "0xEsc".toList) = none := by
  intro keyboard
  have hname : KeyToken.driverValue? " Return".toList = some 0x02002800 := by decide +kernel
  have hliteral : KeyToken.driverValue? "0xEsc".toList = none := by decide +kernel
  exact ⟨hname, (key_readings_agree keyboard _).1 _ hname, hliteral,
    (key_readings_agree keyboard _).2 (by decide +kernel) hliteral⟩

end KeyProfile

import KeyProfile.Symbol.Standard
import Mathlib.Tactic

/-!
Driver values put together. A union does not care for order or repetition (`foldl_bitUnion_congr`).
The union of two words is the union of each of their fields (`kindByte_bitUnion` and the like). Keys
added to keys make a key (`isKey_withKeys`). Keys added to a mouse button make a word of no kind
(`kind_withKeys_button`). Keys added to the call of a macro leave the kind, but no other call can
come out (`macroId?_withKeys_call`).
-/

namespace KeyProfile

theorem bitUnion_natCast (a b : Nat) : bitUnion (a : Int) (b : Int) = ((a ||| b : Nat) : Int) := rfl

/-- Bits are united within each field. -/
theorem or_div_mod (a b k : Nat) :
    (a ||| b) / 2 ^ k % 2 ^ 8 = a / 2 ^ k % 2 ^ 8 ||| b / 2 ^ k % 2 ^ 8 := by
  apply Nat.eq_of_testBit_eq
  intro i
  simp only [Nat.testBit_mod_two_pow, Nat.testBit_div_two_pow, Nat.testBit_or]
  cases decide (i < 8) <;> simp

theorem bitUnion_div_mod {a b : Int} (ha : 0 ≤ a) (hb : 0 ≤ b) (k : Nat) :
    bitUnion a b / 2 ^ k % 2 ^ 8 = bitUnion (a / 2 ^ k % 2 ^ 8) (b / 2 ^ k % 2 ^ 8) := by
  obtain ⟨m, rfl⟩ := Int.eq_ofNat_of_zero_le ha
  obtain ⟨n, rfl⟩ := Int.eq_ofNat_of_zero_le hb
  rw [bitUnion_natCast]
  have hfields := or_div_mod m n k
  have hm : (m : Int) / 2 ^ k % 2 ^ 8 = ((m / 2 ^ k % 2 ^ 8 : Nat) : Int) := by push_cast; rfl
  have hn : (n : Int) / 2 ^ k % 2 ^ 8 = ((n / 2 ^ k % 2 ^ 8 : Nat) : Int) := by push_cast; rfl
  rw [hm, hn, bitUnion_natCast, ← hfields]
  push_cast
  rfl

theorem bitUnion_zero_left {a : Int} (ha : 0 ≤ a) : bitUnion 0 a = a := by
  obtain ⟨n, rfl⟩ := Int.eq_ofNat_of_zero_le ha
  exact congrArg Int.ofNat (Nat.zero_or n)

theorem bitUnion_zero_right {a : Int} (ha : 0 ≤ a) : bitUnion a 0 = a := by
  obtain ⟨n, rfl⟩ := Int.eq_ofNat_of_zero_le ha
  exact congrArg Int.ofNat (Nat.or_zero n)

theorem bitUnion_comm (a b : Int) : bitUnion a b = bitUnion b a := by
  cases a with
  | ofNat m =>
    cases b with
    | ofNat n => exact congrArg Int.ofNat (Nat.or_comm m n)
    | negSucc n => rfl
  | negSucc m =>
    cases b with
    | ofNat n => rfl
    | negSucc n => exact congrArg Int.negSucc (Nat.and_comm m n)

/-- The union of numbers that have no bits in common is their sum. -/
theorem bitUnion_shifted {low high : Int} (k : Nat) (hlow : 0 ≤ low ∧ low < 2 ^ k)
    (hhigh : 0 ≤ high) : bitUnion low (high * 2 ^ k) = low + high * 2 ^ k := by
  obtain ⟨m, rfl⟩ := Int.eq_ofNat_of_zero_le hlow.1
  obtain ⟨n, rfl⟩ := Int.eq_ofNat_of_zero_le hhigh
  have hroom : m < 2 ^ k := by exact_mod_cast hlow.2
  have hunion := (Nat.shiftLeft_add_eq_or_of_lt hroom n).symm
  rw [Nat.shiftLeft_eq, Nat.or_comm, Nat.add_comm] at hunion
  have hshift : (n : Int) * 2 ^ k = ((n * 2 ^ k : Nat) : Int) := by push_cast; rfl
  rw [hshift, bitUnion_natCast, hunion]
  push_cast
  rfl

private theorem foldl_bitUnion_natCast (ns : List Nat) (n : Nat) :
    (ns.map Nat.cast).foldl bitUnion (n : Int) = ((ns.foldl (· ||| ·) n : Nat) : Int) := by
  induction ns generalizing n with
  | nil => rfl
  | cons m ns ih => rw [List.map_cons, List.foldl_cons, bitUnion_natCast, ih, List.foldl_cons]

private theorem testBit_foldl_or (ns : List Nat) (n i : Nat) :
    (ns.foldl (· ||| ·) n).testBit i = (n.testBit i || ns.any (·.testBit i)) := by
  induction ns generalizing n with
  | nil => simp
  | cons m ns ih => rw [List.foldl_cons, ih, Nat.testBit_or, List.any_cons, Bool.or_assoc]

/-- A union depends on what is in it, not on order and repetition, and zeros do not matter. -/
theorem foldl_bitUnion_congr {vs ws : List Int} (hvs : ∀ v ∈ vs, 0 ≤ v) (hws : ∀ w ∈ ws, 0 ≤ w)
    (hsame : ∀ v, v ≠ 0 → (v ∈ vs ↔ v ∈ ws)) : vs.foldl bitUnion 0 = ws.foldl bitUnion 0 := by
  lift vs to List Nat using hvs
  lift ws to List Nat using hws
  have hmem : ∀ n : Nat, n ≠ 0 → (n ∈ vs ↔ n ∈ ws) := by
    intro n hn
    simpa using hsame n (by exact_mod_cast hn)
  have hbits : vs.foldl (· ||| ·) 0 = ws.foldl (· ||| ·) 0 := by
    apply Nat.eq_of_testBit_eq
    intro i
    rw [testBit_foldl_or, testBit_foldl_or, Nat.zero_testBit, Bool.false_or, Bool.false_or,
      Bool.eq_iff_iff, List.any_eq_true, List.any_eq_true]
    -- a number that has a bit is not zero
    have hne : ∀ n : Nat, n.testBit i = true → n ≠ 0 := by
      rintro n hbit rfl
      simp at hbit
    constructor
    · rintro ⟨n, hn, hbit⟩
      exact ⟨n, (hmem n (hne n hbit)).mp hn, hbit⟩
    · rintro ⟨n, hn, hbit⟩
      exact ⟨n, (hmem n (hne n hbit)).mpr hn, hbit⟩
  have hzero : (0 : Int) = ((0 : Nat) : Int) := rfl
  rw [hzero, foldl_bitUnion_natCast, foldl_bitUnion_natCast, hbits]

/-- A union that has a number in it is not zero unless the number is. -/
theorem foldl_bitUnion_ne_zero {vs : List Int} (hvs : ∀ v ∈ vs, 0 ≤ v) {v : Int} (hv : v ∈ vs)
    (hne : v ≠ 0) : vs.foldl bitUnion 0 ≠ 0 := by
  intro hzero
  have hagain : (vs ++ [v]).foldl bitUnion 0 = vs.foldl bitUnion 0 := by
    apply foldl_bitUnion_congr
    · intro w hw
      rcases List.mem_append.mp hw with hin | hlast
      · exact hvs w hin
      · exact List.mem_singleton.mp hlast ▸ hvs v hv
    · exact hvs
    · intro w _
      simp only [List.mem_append, List.mem_singleton, or_iff_left_iff_imp]
      rintro rfl
      exact hv
  rw [List.foldl_append, List.foldl_cons, List.foldl_nil, hzero,
    bitUnion_zero_left (hvs v hv)] at hagain
  exact hne hagain

namespace DriverValue

theorem data1_nonneg (v : Int) : 0 ≤ data1 v := by
  rw [data1]
  omega

theorem usage_nonneg (v : Int) : 0 ≤ usage v := by
  rw [usage]
  omega

/-- A number of 32 bits. -/
def IsWord (v : Int) : Prop := 0 ≤ v ∧ v < 0x100000000

theorem isWord_zero : IsWord 0 := ⟨le_refl 0, by decide⟩

theorem IsWord.bitUnion {a b : Int} (ha : IsWord a) (hb : IsWord b) : IsWord (bitUnion a b) := by
  obtain ⟨m, rfl⟩ := Int.eq_ofNat_of_zero_le ha.1
  obtain ⟨n, rfl⟩ := Int.eq_ofNat_of_zero_le hb.1
  have hm : m < 2 ^ 32 := by
    have := ha.2
    omega
  have hn : n < 2 ^ 32 := by
    have := hb.2
    omega
  have hunion := Nat.or_lt_two_pow hm hn
  rw [bitUnion_natCast]
  exact ⟨by omega, by omega⟩

variable {a b : Int}

theorem kindByte_bitUnion (ha : IsWord a) (hb : IsWord b) :
    kindByte (bitUnion a b) = bitUnion (kindByte a) (kindByte b) :=
  bitUnion_div_mod ha.1 hb.1 24

theorem data1_bitUnion (ha : IsWord a) (hb : IsWord b) :
    data1 (bitUnion a b) = bitUnion (data1 a) (data1 b) :=
  bitUnion_div_mod ha.1 hb.1 16

theorem usage_bitUnion (ha : IsWord a) (hb : IsWord b) :
    usage (bitUnion a b) = bitUnion (usage a) (usage b) :=
  bitUnion_div_mod ha.1 hb.1 8

theorem data2_bitUnion (ha : IsWord a) (hb : IsWord b) :
    data2 (bitUnion a b) = bitUnion (data2 a) (data2 b) := by
  have h := bitUnion_div_mod ha.1 hb.1 0
  simpa [data2] using h

theorem le_bitUnion_left (ha : IsWord a) (hb : IsWord b) : a ≤ bitUnion a b := by
  obtain ⟨m, rfl⟩ := Int.eq_ofNat_of_zero_le ha.1
  obtain ⟨n, rfl⟩ := Int.eq_ofNat_of_zero_le hb.1
  rw [bitUnion_natCast]
  exact_mod_cast Nat.left_le_or

/-- A key or a set of modifiers. -/
def IsKey (v : Int) : Prop := IsWord v ∧ kindByte v = 0x02 ∧ data2 v = 0

/-- A mouse button. -/
def IsButton (v : Int) : Prop := IsWord v ∧ kindByte v = 0x01

/-- The call of a macro. -/
def IsCall (v : Int) : Prop := ∃ id, (0 ≤ id ∧ id < macroIds) ∧ v = macroTag + id

instance (v : Int) : Decidable (IsKey v) := inferInstanceAs (Decidable ((_ ∧ _) ∧ _ ∧ _))

instance (v : Int) : Decidable (IsButton v) := inferInstanceAs (Decidable ((_ ∧ _) ∧ _))

theorem IsCall.isWord {v : Int} (h : IsCall v) : IsWord v := by
  obtain ⟨id, hid, rfl⟩ := h
  simp only [macroIds, macroTag, IsWord] at *
  omega

theorem IsCall.kindByte_eq {v : Int} (h : IsCall v) : kindByte v = 0x0A := by
  obtain ⟨id, hid, rfl⟩ := h
  simp only [macroIds, macroTag, kindByte] at *
  omega

theorem IsKey.kind_eq {v : Int} (h : IsKey v) : kind v = .key := by
  simp [kind, h.2.1]

theorem IsButton.kind_eq {v : Int} (h : IsButton v) : kind v = .mouse := by
  simp [kind, h.2]

theorem IsCall.kind_eq {v : Int} (h : IsCall v) : kind v = .macroCall := by
  simp [kind, h.kindByte_eq]

theorem word_of_isWord {v : Int} (h : IsWord v) : word v = v := Int.emod_eq_of_lt h.1 h.2

/-- A number that runs a macro is made of the id alone, as far as it is a word. -/
theorem macroId?_eq_some_iff {v i limit : Int} :
    macroId? v limit = some i ↔
      (0 ≤ i ∧ i < macroIds) ∧ i < limit ∧ word v = macroTag + i := by
  unfold macroId?
  constructor
  · intro hread
    split at hread
    · next hcall =>
      cases hread
      simp only [word, data2, macroTag, macroIds] at *
      omega
    · cases hread
  · rintro ⟨hrange, hlimit, hword⟩
    have hlow : data2 v = i := by
      simp only [word, data2, macroTag, macroIds] at *
      omega
    have htop : word v / 0x100 = macroTag / 0x100 := by
      simp only [word, macroTag, macroIds] at *
      omega
    rw [if_pos ⟨htop, hlow ▸ hlimit⟩, hlow]

/-- A word that calls a macro is made of its id alone. -/
theorem eq_of_macroId? {v id : Int} (hv : IsWord v) (h : macroId? v macroIds = some id) :
    (0 ≤ id ∧ id < macroIds) ∧ v = macroTag + id := by
  obtain ⟨hrange, -, hword⟩ := macroId?_eq_some_iff.mp h
  rw [word_of_isWord hv] at hword
  exact ⟨hrange, hword⟩

theorem isCall_of_macroId? {v id : Int} (hv : IsWord v) (h : macroId? v macroIds = some id) :
    IsCall v :=
  ⟨id, eq_of_macroId? hv h⟩

theorem IsCall.macroId?_eq {v : Int} (h : IsCall v) :
    ∃ id, macroId? v macroIds = some id ∧ v = macroTag + id := by
  obtain ⟨id, hid, rfl⟩ := h
  refine ⟨id, ?_, rfl⟩
  rw [macroId?_macroTag_add hid, if_pos hid.2]

/-- Keys added to a word, one after another. -/
def withKeys (v : Int) (keys : List Int) : Int := keys.foldl bitUnion v

section WithKeys

variable {v : Int} {keys : List Int}

theorem withKeys_cons (v key : Int) (keys : List Int) :
    withKeys v (key :: keys) = withKeys (bitUnion v key) keys := rfl

/-- What adding one key keeps, adding keys keeps. -/
theorem withKeys_keeps {P : Int → Prop} (hstep : ∀ v key, P v → IsKey key → P (bitUnion v key))
    (hv : P v) (hkeys : ∀ key ∈ keys, IsKey key) : P (withKeys v keys) := by
  induction keys generalizing v with
  | nil => exact hv
  | cons key keys ih =>
    obtain ⟨hfirst, hrest⟩ := List.forall_mem_cons.mp hkeys
    exact ih (hstep v key hv hfirst) hrest

theorem isWord_withKeys (hv : IsWord v) (hkeys : ∀ key ∈ keys, IsKey key) :
    IsWord (withKeys v keys) :=
  withKeys_keeps (fun _ _ hword hkey => hword.bitUnion hkey.1) hv hkeys

/-- Keys leave the second data alone. -/
theorem data2_withKeys (hv : IsWord v) (hkeys : ∀ key ∈ keys, IsKey key) :
    data2 (withKeys v keys) = data2 v := by
  have hstep : ∀ w key, (IsWord w ∧ data2 w = data2 v) → IsKey key →
      IsWord (bitUnion w key) ∧ data2 (bitUnion w key) = data2 v := by
    rintro w key ⟨hw, hsame⟩ hkey
    refine ⟨hw.bitUnion hkey.1, ?_⟩
    have hnonneg : 0 ≤ data2 w := by
      simp only [data2]
      omega
    rw [data2_bitUnion hw hkey.1, hkey.2.2, bitUnion_zero_right hnonneg, hsame]
  exact (withKeys_keeps hstep ⟨hv, rfl⟩ hkeys).2

/-- A kind that has the bit of keys in it stays. -/
theorem kindByte_withKeys (hv : IsWord v) (hbit : bitUnion (kindByte v) 0x02 = kindByte v)
    (hkeys : ∀ key ∈ keys, IsKey key) : kindByte (withKeys v keys) = kindByte v := by
  have hstep : ∀ w key, (IsWord w ∧ kindByte w = kindByte v) → IsKey key →
      IsWord (bitUnion w key) ∧ kindByte (bitUnion w key) = kindByte v := by
    rintro w key ⟨hw, hsame⟩ hkey
    refine ⟨hw.bitUnion hkey.1, ?_⟩
    rw [kindByte_bitUnion hw hkey.1, hkey.2.1, hsame, hbit]
  exact (withKeys_keeps hstep ⟨hv, rfl⟩ hkeys).2

theorem isKey_withKeys (hv : IsKey v) (hkeys : ∀ key ∈ keys, IsKey key) :
    IsKey (withKeys v keys) := by
  have hbit : bitUnion (kindByte v) 0x02 = kindByte v := by
    rw [hv.2.1]
    rfl
  refine ⟨isWord_withKeys hv.1 hkeys, ?_, ?_⟩
  · rw [kindByte_withKeys hv.1 hbit hkeys, hv.2.1]
  · rw [data2_withKeys hv.1 hkeys, hv.2.2]

/-- Keys alone make a key. -/
theorem isKey_withKeys_zero (hne : keys ≠ []) (hkeys : ∀ key ∈ keys, IsKey key) :
    IsKey (withKeys 0 keys) := by
  obtain ⟨key, rest, rfl⟩ := List.exists_cons_of_ne_nil hne
  obtain ⟨hfirst, hrest⟩ := List.forall_mem_cons.mp hkeys
  rw [withKeys_cons, bitUnion_zero_left hfirst.1.1]
  exact isKey_withKeys hfirst hrest

/-- A mouse button with a key added is of no kind. -/
theorem kind_withKeys_button (hv : IsButton v) (hne : keys ≠ [])
    (hkeys : ∀ key ∈ keys, IsKey key) : kind (withKeys v keys) = .unassigned := by
  obtain ⟨key, rest, rfl⟩ := List.exists_cons_of_ne_nil hne
  obtain ⟨hfirst, hrest⟩ := List.forall_mem_cons.mp hkeys
  have hmixed : kindByte (bitUnion v key) = 0x03 := by
    rw [kindByte_bitUnion hv.1 hfirst.1, hv.2, hfirst.2.1]
    rfl
  have hbit : bitUnion (kindByte (bitUnion v key)) 0x02 = kindByte (bitUnion v key) := by
    rw [hmixed]
    rfl
  have hall : kindByte (withKeys v (key :: rest)) = 0x03 := by
    rw [withKeys_cons, kindByte_withKeys (hv.1.bitUnion hfirst.1) hbit hrest, hmixed]
  simp [kind, hall]

/-- Keys call no macro. -/
theorem kind_withKeys_zero_ne_call (hkeys : ∀ key ∈ keys, IsKey key) :
    kind (withKeys 0 keys) ≠ .macroCall := by
  cases keys with
  | nil => decide
  | cons key rest =>
    rw [(isKey_withKeys_zero (List.cons_ne_nil key rest) hkeys).kind_eq]
    decide

/-- A mouse button calls no macro, whatever is added to it. -/
theorem kind_withKeys_button_ne_call (hv : IsButton v) (hkeys : ∀ key ∈ keys, IsKey key) :
    kind (withKeys v keys) ≠ .macroCall := by
  cases keys with
  | nil =>
    change kind v ≠ .macroCall
    rw [hv.kind_eq]
    decide
  | cons key rest =>
    rw [kind_withKeys_button hv (List.cons_ne_nil key rest) hkeys]
    decide

/-- The call of a macro with keys added keeps its kind. -/
theorem kind_withKeys_call (hv : IsCall v) (hkeys : ∀ key ∈ keys, IsKey key) :
    kind (withKeys v keys) = .macroCall := by
  have hbit : bitUnion (kindByte v) 0x02 = kindByte v := by
    rw [hv.kindByte_eq]
    rfl
  simp [kind, kindByte_withKeys hv.isWord hbit hkeys, hv.kindByte_eq]

/-- Keys added to the call of a macro make no other call. -/
theorem macroId?_withKeys_call (hv : IsCall v) (hkeys : ∀ key ∈ keys, IsKey key) {id : Int}
    (hid : macroId? (withKeys v keys) macroIds = some id) :
    withKeys v keys = v ∧ v = macroTag + id := by
  obtain ⟨hrange, hword⟩ := eq_of_macroId? (isWord_withKeys hv.isWord hkeys) hid
  have hlow := data2_withKeys hv.isWord hkeys
  obtain ⟨own, hown, rfl⟩ := hv
  have hsame : id = own := by
    rw [hword] at hlow
    simp only [data2, macroTag, macroIds] at *
    omega
  subst hsame
  exact ⟨hword, rfl⟩

theorem le_withKeys (hv : IsWord v) (hkeys : ∀ key ∈ keys, IsKey key) : v ≤ withKeys v keys := by
  have hstep : ∀ w key, (IsWord w ∧ v ≤ w) → IsKey key →
      IsWord (bitUnion w key) ∧ v ≤ bitUnion w key := by
    rintro w key ⟨hw, hle⟩ hkey
    exact ⟨hw.bitUnion hkey.1, le_trans hle (le_bitUnion_left hw hkey.1)⟩
  exact (withKeys_keeps hstep ⟨hv, le_refl v⟩ hkeys).2

/-- Keys change nothing together if and only if none of them does. -/
theorem withKeys_eq_self_iff (hv : IsWord v) (hkeys : ∀ key ∈ keys, IsKey key) :
    withKeys v keys = v ↔ ∀ key ∈ keys, bitUnion v key = v := by
  induction keys with
  | nil => simp [withKeys]
  | cons key keys ih =>
    obtain ⟨hfirst, hrest⟩ := List.forall_mem_cons.mp hkeys
    rw [withKeys_cons, List.forall_mem_cons]
    constructor
    · intro hsame
      -- the words only grow, so the first of them is the last
      have hgrow := le_withKeys (hv.bitUnion hfirst.1) hrest
      have hstart := le_bitUnion_left hv hfirst.1
      have hkey : bitUnion v key = v := by omega
      rw [hkey] at hsame
      exact ⟨hkey, (ih hrest).mp hsame⟩
    · rintro ⟨hkey, hothers⟩
      rw [hkey]
      exact (ih hrest).mpr hothers

/-- A field of keys is the union of theirs. -/
theorem field_withKeys {field : Int → Int}
    (hfield : ∀ a b, IsWord a → IsWord b →
      field (bitUnion a b) = bitUnion (field a) (field b))
    (hv : IsWord v) (hkeys : ∀ key ∈ keys, IsKey key) :
    field (withKeys v keys) = (keys.map field).foldl bitUnion (field v) := by
  induction keys generalizing v with
  | nil => rfl
  | cons key keys ih =>
    obtain ⟨hfirst, hrest⟩ := List.forall_mem_cons.mp hkeys
    rw [withKeys_cons, ih (hv.bitUnion hfirst.1) hrest, hfield v key hv hfirst.1, List.map_cons,
      List.foldl_cons]

theorem data1_withKeys (hv : IsWord v) (hkeys : ∀ key ∈ keys, IsKey key) :
    data1 (withKeys v keys) = (keys.map data1).foldl bitUnion (data1 v) :=
  field_withKeys (fun _ _ => data1_bitUnion) hv hkeys

theorem usage_withKeys (hv : IsWord v) (hkeys : ∀ key ∈ keys, IsKey key) :
    usage (withKeys v keys) = (keys.map usage).foldl bitUnion (usage v) :=
  field_withKeys (fun _ _ => usage_bitUnion) hv hkeys

end WithKeys

end DriverValue

/-- Every standard symbol is a key or a mouse button. -/
theorem isKey_or_isButton_of_mem_standard {s : Symbol} (hs : s ∈ Symbol.standard) :
    DriverValue.IsKey s.value ∨ DriverValue.IsButton s.value := by
  have hall : ∀ s ∈ Symbol.standard, DriverValue.IsKey s.value ∨ DriverValue.IsButton s.value := by
    decide +kernel
  exact hall s hs

theorem SymbolTable.mem_standard_of_mem_claims {claim : Text × Symbol}
    (h : claim ∈ standard.claims) : claim.2 ∈ Symbol.standard ∧ claim.1 ∈ claim.2.names := by
  simp only [standard, claimsOf, List.mem_reverse, List.mem_flatMap, List.mem_map] at h
  obtain ⟨own, hown, called, hcalled, rfl⟩ := h
  exact ⟨hown, hcalled⟩

/-- A symbol that is found by a name is one of the standard symbols, and the name is one of its. -/
theorem SymbolTable.mem_standard_of_find? {name : Text} {s : Symbol}
    (hfind : SymbolTable.standard.find? name = some s) :
    s ∈ Symbol.standard ∧ name.strip ∈ s.names := by
  obtain ⟨before, after, hclaims, -⟩ := List.lookup_eq_some_iff.mp hfind
  have hclaim : (name.strip, s) ∈ SymbolTable.standard.claims := by simp [hclaims]
  exact mem_standard_of_mem_claims hclaim

/-- What a name of the standard symbols stands for. -/
theorem SymbolTable.isKey_or_isButton_of_value? {name : Text} {v : Int}
    (hv : SymbolTable.standard.value? name = some v) :
    DriverValue.IsKey v ∨ DriverValue.IsButton v := by
  obtain ⟨s, hfind, rfl⟩ := Option.map_eq_some_iff.mp hv
  exact isKey_or_isButton_of_mem_standard (mem_standard_of_find? hfind).1

end KeyProfile

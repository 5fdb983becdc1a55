import KeyProfile.Proofs.LoadedEffects

/-!
What a dynamic effect does not depend on. Two documents are alike if one comes from the other by
changes that do not matter, each allowed at certain places of a document (`Alike`). Of a value only
so much is read as its place asks for (`Agree`), and of a value at no place in particular only what
kind of container it is (`outline`). A change keeps what is read where it is made, and through the
objects and arrays around it what is read of the document (`Alike.agree`). Main statement:
`alike_effects_equal`.
-/

namespace KeyProfile

namespace Lighting

open Json (Members)

/-- Where a value stands in the document of an effect. -/
inductive Place where
  | effect
  | frames
  | frame
  | frameKeys
  | configs
  | config
  | configKeys
  /-- Anywhere else. -/
  | detail

namespace Place

/-- Where the members of an object stand. -/
def member : Place → Text → Place
  | .effect, name =>
    if name = "Frames".toList then .frames
    else if name = "LEConfigs".toList then .configs
    else .detail
  | .frame, name => if name = "Data".toList then .frameKeys else .detail
  | .config, name => if name = "Keys".toList then .configKeys else .detail
  | _, _ => .detail

/-- Where the items of an array stand. -/
def item : Place → Place
  | .frames => .frame
  | .configs => .config
  | _ => .detail

/-- An array at this place lists keys. -/
def ListsKeys (place : Place) : Prop := place = .frameKeys ∨ place = .configKeys

/-- Of an array at this place only the objects count. -/
def ListsObjects (place : Place) : Prop := place = .frames ∨ place = .configs

end Place

/-- Values that differ only by changes that do not matter where they stand. What may be put in may
also be left out. -/
inductive Alike (keyboard : Keyboard) : Place → Json → Json → Prop
  | refl (place : Place) (v : Json) : Alike keyboard place v v
  | symm {place : Place} {v w : Json} : Alike keyboard place v w → Alike keyboard place w v
  | trans {place : Place} {u v w : Json} :
    Alike keyboard place u v → Alike keyboard place v w → Alike keyboard place u w
  /-- The members of an object come in another order. -/
  | reorder (place : Place) {members others : Members} :
    (members.map Prod.fst).Nodup → members.Perm others →
    Alike keyboard place (.obj members) (.obj others)
  /-- The change is in a member, -/
  | member (place : Place) (before : Members) (name : Text) {v w : Json} (after : Members) :
    Alike keyboard (place.member name) v w →
    Alike keyboard place (.obj (before ++ (name, v) :: after)) (.obj (before ++ (name, w) :: after))
  /-- or in an item. -/
  | item (place : Place) (before : List Json) {v w : Json} (after : List Json) :
    Alike keyboard place.item v w →
    Alike keyboard place (.arr (before ++ v :: after)) (.arr (before ++ w :: after))
  /-- Keys are listed in another order, -/
  | permute {place : Place} {keys others : List Json} : place.ListsKeys → keys.Perm others →
    Alike keyboard place (.arr keys) (.arr others)
  /-- or one of them once more, -/
  | repeated {place : Place} (before : List Json) (key : Json) (after : List Json) :
    place.ListsKeys → key ∈ before ++ after →
    Alike keyboard place (.arr (before ++ after)) (.arr (before ++ key :: after))
  /-- or what cannot be resolved. -/
  | stray {place : Place} (before : List Json) (key : Json) (after : List Json) :
    place.ListsKeys → KeyToken.location? keyboard key = none →
    Alike keyboard place (.arr (before ++ after)) (.arr (before ++ key :: after))
  /-- Among frames or configurations is something that is no object, -/
  | noObject {place : Place} (before : List Json) (v : Json) (after : List Json) :
    place.ListsObjects → (∀ members, v ≠ .obj members) →
    Alike keyboard place (.arr (before ++ after)) (.arr (before ++ v :: after))
  /-- or a configuration that lists no key. -/
  | keyless (before : List Json) (config : Members) (after : List Json) :
    hasKey keyboard config = false →
    Alike keyboard .configs (.arr (before ++ after)) (.arr (before ++ .obj config :: after))
  /-- The keys of a frame are the names of members, whatever these hold. -/
  | names (members : Members) :
    Alike keyboard .frameKeys (.obj members) (.arr (members.map fun entry => .str entry.1))

/-! What is read of a value where it stands. -/

/-- A value without what it contains. -/
def outline : Json → Json
  | .arr _ => .arr []
  | .obj _ => .obj []
  | v => v

/-- The keys that the data of a frame list. -/
def dataKeys : Json → List Json
  | .obj members => members.map fun entry => .str entry.1
  | .arr items => items
  | _ => []

def itemsOf : Json → List Json
  | .arr items => items
  | _ => []

def membersOf : Json → Members
  | .obj members => members
  | _ => []

/-- What an item describes, if it is an object. -/
def ofObject {α : Type} (f : Members → Option α) : Json → Option α
  | .obj members => f members
  | _ => none

def frame? (keyboard : Keyboard) : Json → Option Frame :=
  ofObject fun object => some (frameOf keyboard object)

/-- The configuration that an item describes, if it lists a key. -/
def param? (keyboard : Keyboard) : Json → Option Param :=
  ofObject fun object => if hasKey keyboard object then some (paramOf keyboard object) else none

def framesIn (keyboard : Keyboard) (v : Json) : List Frame :=
  (itemsOf v).filterMap (frame? keyboard)

def paramsIn (keyboard : Keyboard) (v : Json) : List Param :=
  (itemsOf v).filterMap (param? keyboard)

/-- The type, the frames and the configurations that an object describes. -/
def partsOf (keyboard : Keyboard) (object : Members) :
    Option EffectKind × List Frame × List Param :=
  (typeOf? EffectKind object,
    ((Json.member? object "Frames").map (framesIn keyboard)).getD [],
    ((Json.member? object "LEConfigs").map (paramsIn keyboard)).getD [])

/-- Values that cannot be told apart by what is read where they stand. -/
def Agree (keyboard : Keyboard) : Place → Json → Json → Prop
  | .effect, v, w => partsOf keyboard (membersOf v) = partsOf keyboard (membersOf w)
  | .frames, v, w => framesIn keyboard v = framesIn keyboard w
  | .frame, v, w => frame? keyboard v = frame? keyboard w
  | .frameKeys, v, w => resolvable keyboard (dataKeys v) = resolvable keyboard (dataKeys w)
  | .configs, v, w => paramsIn keyboard v = paramsIn keyboard w
  | .config, v, w => param? keyboard v = param? keyboard w
  | .configKeys, v, w => resolvable keyboard (itemsOf v) = resolvable keyboard (itemsOf w)
  | .detail, v, w => outline v = outline w

/-! Details. -/

/-- A reader of scalars reads the same from values of one outline. -/
theorem read_congr {α : Type} {f : Json → α} (hf : ∀ v, f (outline v) = f v) {v w : Json}
    (h : outline v = outline w) : f v = f w := by
  rw [← hf v, h, hf w]

theorem location?_outline (keyboard : Keyboard) (v : Json) :
    KeyToken.location? keyboard (outline v) = KeyToken.location? keyboard v := by
  cases v <;> rfl

theorem int?_outline (v : Json) : Json.int? (outline v) = Json.int? v := by
  cases v <;> rfl

theorem ofJson?_outline (α : Type) [Enumerated α] (v : Json) :
    Enumerated.ofJson? (α := α) true (outline v) = Enumerated.ofJson? true v := by
  cases v <;> rfl

section

variable {keyboard : Keyboard} {place : Place}

namespace Agree

theorem refl (v : Json) : Agree keyboard place v v := by
  cases place <;> exact Eq.refl _

theorem symm {v w : Json} (h : Agree keyboard place v w) : Agree keyboard place w v := by
  cases place <;> exact Eq.symm h

theorem trans {u v w : Json} (h : Agree keyboard place u v) (h' : Agree keyboard place v w) :
    Agree keyboard place u w := by
  cases place <;> exact Eq.trans h h'

end Agree

/-! Keys. -/

theorem resolvable_congr {keys others : List Json}
    (h : ∀ location, (∃ key ∈ keys, KeyToken.location? keyboard key = some location) ↔
      ∃ key ∈ others, KeyToken.location? keyboard key = some location) :
    resolvable keyboard keys = resolvable keyboard others := by
  apply KeySet.ext_mem
  intro location
  rw [mem_resolvable, mem_resolvable, h]

theorem resolvable_congr_mem {keys others : List Json} (h : ∀ key, key ∈ keys ↔ key ∈ others) :
    resolvable keyboard keys = resolvable keyboard others :=
  resolvable_congr fun location => by simp only [h]

theorem resolvable_frameKeys (object : Members) :
    resolvable keyboard (frameKeys object) =
      ((Json.member? object "Data").map fun v => resolvable keyboard (dataKeys v)).getD ∅ := by
  unfold frameKeys
  cases Json.member? object "Data" with
  | none => rfl
  | some data => cases data <;> rfl

theorem resolvable_configKeys (object : Members) :
    resolvable keyboard (configKeys object) =
      ((Json.member? object "Keys").map fun v => resolvable keyboard (itemsOf v)).getD ∅ := by
  unfold configKeys
  cases Json.member? object "Keys" with
  | none => rfl
  | some keys => cases keys <;> rfl

/-! Objects. -/

theorem map_eq_of_rel {α : Type} {r : Json → Json → Prop} {x y : Option Json}
    (h : Option.Rel r x y) {f : Json → α} (hf : ∀ v w, r v w → f v = f w) : x.map f = y.map f := by
  cases h with
  | none => rfl
  | some h => exact congrArg some (hf _ _ h)

theorem bind_eq_of_rel {α : Type} {x y : Option Json} (h : Option.Rel (Agree keyboard .detail) x y)
    {f : Json → Option α} (hf : ∀ v, f (outline v) = f v) : x.bind f = y.bind f := by
  cases h with
  | none => rfl
  | some h => exact read_congr hf h

/-- The members of two objects agree, in whatever order they come. -/
structure AgreeIn (keyboard : Keyboard) (place : Place) (members others : Members) : Prop where
  names : (members.map Prod.fst).Perm (others.map Prod.fst)
  lookup : ∀ name, Option.Rel (Agree keyboard (place.member name)) (members.lookup name)
    (others.lookup name)

namespace AgreeIn

variable {members others : Members}

theorem of_perm (distinct : (members.map Prod.fst).Nodup) (h : members.Perm others) :
    AgreeIn keyboard place members others where
  names := h.map Prod.fst
  lookup := by
    intro name
    have hothers : (others.map Prod.fst).Nodup := (h.map Prod.fst).nodup distinct
    have hsame : members.lookup name = others.lookup name := by
      apply Option.ext
      intro v
      rw [lookup_eq_some_iff_mem distinct, lookup_eq_some_iff_mem hothers, h.mem_iff]
    rw [hsame]
    cases others.lookup name with
    | none => exact .none
    | some v => exact .some (.refl v)

theorem at_member (before after : Members) {name : Text} {v w : Json}
    (h : Agree keyboard (place.member name) v w) :
    AgreeIn keyboard place (before ++ (name, v) :: after) (before ++ (name, w) :: after) where
  names := by simp
  lookup := by
    intro other
    rw [List.lookup_append, List.lookup_append, List.lookup_cons, List.lookup_cons]
    cases before.lookup other with
    | some u => exact .some (.refl u)
    | none =>
      dsimp only [Option.none_or]
      by_cases hname : other = name
      · subst hname
        rw [beq_self_eq_true]
        exact .some h
      · rw [beq_false_of_ne hname]
        cases after.lookup other with
        | none => exact .none
        | some u => exact .some (.refl u)

theorem frameOf_eq (h : AgreeIn keyboard .frame members others) :
    frameOf keyboard members = frameOf keyboard others := by
  have hcount : (Json.member? members "Count").bind Json.int? =
      (Json.member? others "Count").bind Json.int? :=
    bind_eq_of_rel (h.lookup "Count".toList) int?_outline
  have hkeys : (Json.member? members "Data").map (fun v => resolvable keyboard (dataKeys v)) =
      (Json.member? others "Data").map (fun v => resolvable keyboard (dataKeys v)) :=
    map_eq_of_rel (h.lookup "Data".toList) fun _ _ h => h
  rw [frameOf, frameOf, hcount, resolvable_frameKeys, resolvable_frameKeys, hkeys]

theorem configColor_eq (h : AgreeIn keyboard .config members others) :
    configColor members = configColor others := by
  have hcolor : Option.Rel (Agree keyboard .detail) (Json.member? members "Color")
      (Json.member? others "Color") := h.lookup "Color".toList
  unfold configColor
  generalize Json.member? members "Color" = x at hcolor
  generalize Json.member? others "Color" = y at hcolor
  cases hcolor with
  | none => rfl
  | some h =>
    change outline _ = outline _ at h
    next v w => cases v <;> cases w <;> cases h <;> rfl

theorem firstInt?_eq (h : AgreeIn keyboard .config members others) (name other : String)
    (hname : Place.config.member name.toList = .detail)
    (hother : Place.config.member other.toList = .detail) :
    firstInt? members name other = firstInt? others name other := by
  have hfirst := bind_eq_of_rel (hname ▸ h.lookup name.toList) int?_outline
  have hsecond := bind_eq_of_rel (hother ▸ h.lookup other.toList) int?_outline
  unfold firstInt? Json.member?
  rw [hfirst, hsecond]

theorem paramOf_eq (h : AgreeIn keyboard .config members others) :
    paramOf keyboard members = paramOf keyboard others := by
  have hkind : typeOf? ColorKind members = typeOf? ColorKind others :=
    bind_eq_of_rel (h.lookup "Type".toList) (ofJson?_outline ColorKind)
  have hkeys : (Json.member? members "Keys").map (fun v => resolvable keyboard (itemsOf v)) =
      (Json.member? others "Keys").map (fun v => resolvable keyboard (itemsOf v)) :=
    map_eq_of_rel (h.lookup "Keys".toList) fun _ _ h => h
  have hcount := h.firstInt?_eq "Count" "Val1" rfl rfl
  have hstay := h.firstInt?_eq "StayCount" "Val2" rfl rfl
  have hraw : Option.Rel (Agree keyboard .detail) (Json.member? members "UseRawValues")
      (Json.member? others "UseRawValues") := h.lookup "UseRawValues".toList
  unfold paramOf
  rw [h.configColor_eq, hkind, resolvable_configKeys, resolvable_configKeys, hkeys, hcount, hstay]
  generalize Json.member? members "UseRawValues" = x at hraw
  generalize Json.member? others "UseRawValues" = y at hraw
  cases hraw with
  | none => rfl
  | some h =>
    change outline _ = outline _ at h
    next v w => cases v <;> cases w <;> cases h <;> rfl

theorem partsOf_eq (h : AgreeIn keyboard .effect members others) :
    partsOf keyboard members = partsOf keyboard others := by
  have hkind : typeOf? EffectKind members = typeOf? EffectKind others :=
    bind_eq_of_rel (h.lookup "Type".toList) (ofJson?_outline EffectKind)
  have hframes : (Json.member? members "Frames").map (framesIn keyboard) =
      (Json.member? others "Frames").map (framesIn keyboard) :=
    map_eq_of_rel (h.lookup "Frames".toList) fun _ _ h => h
  have hconfigs : (Json.member? members "LEConfigs").map (paramsIn keyboard) =
      (Json.member? others "LEConfigs").map (paramsIn keyboard) :=
    map_eq_of_rel (h.lookup "LEConfigs".toList) fun _ _ h => h
  rw [partsOf, partsOf, hkind, hframes, hconfigs]

end AgreeIn

/-- A configuration lists a key if the parameter that it describes has one. -/
theorem hasKey_eq (object : Members) :
    hasKey keyboard object = !(paramOf keyboard object).keys.isEmpty := by
  rw [Bool.eq_iff_iff, ← exists_mem_keys_iff, Bool.not_eq_true', KeySet.isEmpty_eq_false_iff]

theorem agree_obj {members others : Members} (h : AgreeIn keyboard place members others) :
    Agree keyboard place (.obj members) (.obj others) := by
  cases place with
  | effect => exact h.partsOf_eq
  | frame => exact congrArg some h.frameOf_eq
  | config =>
    change (if hasKey keyboard members then _ else _) = if hasKey keyboard others then _ else _
    rw [hasKey_eq, hasKey_eq, h.paramOf_eq]
  | frameKeys =>
    apply resolvable_congr_mem
    intro key
    have hmem (members : Members) : key ∈ dataKeys (.obj members) ↔
        ∃ name ∈ members.map Prod.fst, .str name = key := by
      simp [dataKeys]
    simp only [hmem, h.names.mem_iff]
  | frames | configs | configKeys | detail => exact Eq.refl _

/-! Arrays. -/

theorem agree_item {before after : List Json} {v w : Json} (h : Agree keyboard place.item v w) :
    Agree keyboard place (.arr (before ++ v :: after)) (.arr (before ++ w :: after)) := by
  have hkeys (h : outline v = outline w) :
      resolvable keyboard (before ++ v :: after) = resolvable keyboard (before ++ w :: after) := by
    have hlocation := read_congr (location?_outline keyboard) h
    rw [resolvable, resolvable, List.filterMap_append, List.filterMap_append, List.filterMap_cons,
      List.filterMap_cons, hlocation]
  cases place with
  | frames =>
    have hframe : frame? keyboard v = frame? keyboard w := h
    simp only [Agree, framesIn, itemsOf, List.filterMap_append, List.filterMap_cons, hframe]
  | configs =>
    have hparam : param? keyboard v = param? keyboard w := h
    simp only [Agree, paramsIn, itemsOf, List.filterMap_append, List.filterMap_cons, hparam]
  | frameKeys => exact hkeys h
  | configKeys => exact hkeys h
  | effect | frame | config | detail => exact Eq.refl _

theorem agree_keys (hplace : place.ListsKeys) {keys others : List Json}
    (h : ∀ location, (∃ key ∈ keys, KeyToken.location? keyboard key = some location) ↔
      ∃ key ∈ others, KeyToken.location? keyboard key = some location) :
    Agree keyboard place (.arr keys) (.arr others) := by
  rcases hplace with rfl | rfl
  · exact resolvable_congr h
  · exact resolvable_congr h

theorem ofObject_of_noObject {α : Type} {v : Json} (hv : ∀ members, v ≠ .obj members)
    (f : Members → Option α) : ofObject f v = none := by
  cases v with
  | obj members => exact absurd rfl (hv members)
  | _ => rfl

/-- An item that describes nothing leaves no trace. -/
theorem agree_skip (hplace : place.ListsObjects) (before after : List Json) {v : Json}
    (hframe : place = .frames → frame? keyboard v = none)
    (hparam : place = .configs → param? keyboard v = none) :
    Agree keyboard place (.arr (before ++ after)) (.arr (before ++ v :: after)) := by
  rcases hplace with rfl | rfl
  · simp only [Agree, framesIn, itemsOf, List.filterMap_append,
      List.filterMap_cons_none (hframe rfl)]
  · simp only [Agree, paramsIn, itemsOf, List.filterMap_append,
      List.filterMap_cons_none (hparam rfl)]

/-- Values that are alike cannot be told apart by what is read where they stand. -/
theorem Alike.agree {v w : Json} (h : Alike keyboard place v w) : Agree keyboard place v w := by
  induction h with
  | refl place v => exact .refl v
  | symm _ ih => exact ih.symm
  | trans _ _ ih ih' => exact ih.trans ih'
  | reorder place distinct hperm => exact agree_obj (.of_perm distinct hperm)
  | member place before name after _ ih => exact agree_obj (.at_member before after ih)
  | item place before after _ ih => exact agree_item ih
  | permute hplace hperm =>
    apply agree_keys hplace
    intro location
    simp only [hperm.mem_iff]
  | repeated before key after hplace hin =>
    apply agree_keys hplace
    intro location
    have hmem (other : Json) : other ∈ before ++ key :: after ↔ other ∈ before ++ after := by
      rw [List.perm_middle.mem_iff, List.mem_cons]
      exact ⟨fun h => h.elim (· ▸ hin) id, .inr⟩
    simp only [hmem]
  | stray before key after hplace hnone =>
    apply agree_keys hplace
    intro location
    simp only [List.perm_middle.mem_iff, List.mem_cons, exists_eq_or_imp, hnone, reduceCtorEq,
      false_or]
  | noObject before v after hplace hv =>
    exact agree_skip hplace before after (fun _ => ofObject_of_noObject hv _)
      fun _ => ofObject_of_noObject hv _
  | keyless before config after hkey =>
    have hparam : param? keyboard (.obj config) = none := by
      rw [param?, ofObject, hkey]
      rfl
    exact agree_skip (.inr rfl) before after nofun fun _ => hparam
  | names members => exact Eq.refl _

/-! Effects. -/

theorem filterMap_objectsIn {α : Type} (f : Members → Option α) (x : Option Json) :
    (objectsIn x).filterMap f = (x.map fun v => (itemsOf v).filterMap (ofObject f)).getD [] := by
  cases x with
  | none => rfl
  | some v =>
    cases v with
    | arr items =>
      simp only [objectsIn, List.filterMap_filterMap, Option.map_some, Option.getD_some, itemsOf]
      congr 1
      funext item
      cases item <;> rfl
    | _ => rfl

theorem map_frameOf_objectsIn (x : Option Json) :
    (objectsIn x).map (frameOf keyboard) = (x.map (framesIn keyboard)).getD [] := by
  rw [← List.filterMap_eq_map]
  exact filterMap_objectsIn _ x

theorem map_paramOf_objectsIn (x : Option Json) :
    ((objectsIn x).filter (hasKey keyboard)).map (paramOf keyboard) =
      (x.map (paramsIn keyboard)).getD [] := by
  have hparams : ((objectsIn x).filter (hasKey keyboard)).map (paramOf keyboard) =
      (objectsIn x).filterMap fun object =>
        if hasKey keyboard object then some (paramOf keyboard object) else none := by
    rw [← List.filterMap_eq_filter, List.map_filterMap]
    congr 1
    funext object
    cases h : hasKey keyboard object <;> simp [h]
  rw [hparams]
  exact filterMap_objectsIn _ x

/-- All of a dynamic effect is read off the parts of its object. -/
theorem effectOf_eq_parts {object : Members} (h : typeOf? EffectKind object ≠ some .static)
    (name : Text) :
    effectOf keyboard name object =
      let parts := partsOf keyboard object
      { name, body := .dynamic parts.2.1 (parts.2.1.map Frame.count).sum parts.2.2 } := by
  have hdynamic : (typeOf? EffectKind object).getD .dynamic = .dynamic := by
    cases hkind : typeOf? EffectKind object with
    | none => rfl
    | some kind =>
      cases kind with
      | static => exact absurd hkind h
      | dynamic => rfl
  rw [effectOf_of_dynamic hdynamic]
  dsimp only
  rw [map_frameOf_objectsIn, map_paramOf_objectsIn]
  rfl

end

end Lighting

/-- Objects that are alike describe the same effect, if it is dynamic: a file of each loads, and
what is played does not differ. -/
theorem alike_effects_equal {keyboard : Keyboard} {object other : Json.Members}
    (h : Lighting.Alike keyboard .effect (.obj object) (.obj other))
    (hdynamic : Lighting.typeOf? Lighting.EffectKind object ≠ some .static)
    {files files' : Files} {dataRoot dataRoot' name name' : Text}
    (hfile : Lighting.Holds files dataRoot name object)
    (hfile' : Lighting.Holds files' dataRoot' name' other) :
    ∃ frames total params,
      Lighting.load keyboard files dataRoot name =
        .ok { name, body := .dynamic frames total params } ∧
      Lighting.load keyboard files' dataRoot' name' =
        .ok { name := name', body := .dynamic frames total params } := by
  have hparts : Lighting.partsOf keyboard object = Lighting.partsOf keyboard other := h.agree
  have hdynamic' : Lighting.typeOf? Lighting.EffectKind other ≠ some .static := by
    have hkind : Lighting.typeOf? Lighting.EffectKind object =
        Lighting.typeOf? Lighting.EffectKind other := congrArg Prod.fst hparts
    rwa [← hkind]
  have hload := hfile.load_eq keyboard
  have hload' := hfile'.load_eq keyboard
  rw [Lighting.effectOf_eq_parts hdynamic] at hload
  rw [Lighting.effectOf_eq_parts hdynamic', ← hparts] at hload'
  exact ⟨_, _, _, hload, hload'⟩

/-- Two files with one frame of two keys and one configuration that lists a key. The second has the
members in another order, the keys of the frame as a list, one key of the configuration twice, and
three items without any effect. -/
theorem alike_effects_equal_mixed :
    ∃ files files' : Files, ∃ frames total params,
      files.read "lighting/Wave.le".toList = .octets (Text.toUtf8
        ("\x7b\"Frames\":[\x7b\"Count\":2,\"Data\":\x7b\"5\":\"red\",\"7\":0\x7d\x7d],".toList ++
          "\"LEConfigs\":[\x7b\"Keys\":[5]\x7d]\x7d".toList)) ∧
      files'.read "lighting/Tide.le".toList = .octets (Text.toUtf8
        ("\x7b\"LEConfigs\":[\x7b\"Keys\":[\"?\"]\x7d,\x7b\"Keys\":[5,null,5]\x7d],".toList ++
          "\"Frames\":[\x7b\"Data\":[\"7\",\"5\"],\"Count\":2\x7d,\"x\"]\x7d".toList)) ∧
      Lighting.load {} files [] "Wave".toList =
        .ok { name := "Wave".toList, body := .dynamic frames total params } ∧
      Lighting.load {} files' [] "Tide".toList =
        .ok { name := "Tide".toList, body := .dynamic frames total params } := by
  set files : Files := { read := fun _ => .octets (Text.toUtf8
    ("\x7b\"Frames\":[\x7b\"Count\":2,\"Data\":\x7b\"5\":\"red\",\"7\":0\x7d\x7d],".toList ++
      "\"LEConfigs\":[\x7b\"Keys\":[5]\x7d]\x7d".toList)) }
  set files' : Files := { read := fun _ => .octets (Text.toUtf8
    ("\x7b\"LEConfigs\":[\x7b\"Keys\":[\"?\"]\x7d,\x7b\"Keys\":[5,null,5]\x7d],".toList ++
      "\"Frames\":[\x7b\"Data\":[\"7\",\"5\"],\"Count\":2\x7d,\"x\"]\x7d".toList)) }
  have hframe : Lighting.Alike {} .frame
      (.obj [("Count".toList, .int 2),
        ("Data".toList, .obj [("5".toList, .str "red".toList), ("7".toList, .int 0)])])
      (.obj [("Data".toList, .arr [.str "7".toList, .str "5".toList]), ("Count".toList, .int 2)]) :=
    .trans (.member .frame [("Count".toList, .int 2)] "Data".toList []
        (.trans (.names _) (.permute (.inl rfl) (.swap ..))))
      (.reorder .frame (by decide) (.swap ..))
  have hframes := (Lighting.Alike.item .frames [] [] hframe).trans
    (.noObject [_] (.str "x".toList) [] (.inl rfl) nofun)
  have hconfig : Lighting.Alike {} .config (.obj [("Keys".toList, .arr [.int 5])])
      (.obj [("Keys".toList, .arr [.int 5, .null, .int 5])]) :=
    .member .config [] "Keys".toList []
      (.trans (.repeated [.int 5] (.int 5) [] (.inr rfl) (by simp))
        (.stray [.int 5] .null [.int 5] (.inr rfl) rfl))
  have hconfigs := (Lighting.Alike.item .configs [] [] hconfig).trans
    (.keyless [] [("Keys".toList, .arr [.str "?".toList])] [_] (by decide +kernel))
  have halike := ((Lighting.Alike.member .effect [] "Frames".toList [_] hframes).trans
    (.member .effect [_] "LEConfigs".toList [] hconfigs)).trans
      (.reorder .effect (by decide) (.swap ..))
  obtain ⟨frames, total, params, hload, hload'⟩ := alike_effects_equal halike (by decide +kernel)
    (show Lighting.Holds files [] "Wave".toList _ from ⟨rfl, _, rfl, rfl⟩)
    (show Lighting.Holds files' [] "Tide".toList _ from ⟨rfl, _, rfl, rfl⟩)
  exact ⟨files, files', frames, total, params, rfl, rfl, hload, hload'⟩

end KeyProfile

import JsonSelection.Proofs.Naming
import JsonSelection.Proofs.Outcome
import JsonSelection.Proofs.Schema.Registry
import JsonSelection.Schema.InputType

/-!
# How types are formed

Types are found by walking down a value, or down the properties that a request body declares.
Either walk gives a type at a place, which has a name, and adds the object types that it needs to
a registry. This module says once what such a walk leaves behind, and proves it of both.

What is left behind is described without the walk. A type is formed at a place
(`TypeRef.FormedAt`): it is a scalar or raw JSON, a list of a type that is formed at the place of
the elements, or an object type with a name made from the place. A registered type is formed under
its name (`NamedType.Formed`): its fields stand for keys, in order, and the type of each is formed
at the place of the field. The two walks differ in what may vary here, which is a `Walk`: whether
the types are input types, what is known of the keys of an object, and of the sizes of pages.

## What this module delivers

- `FieldName.assign` and `Field.MadeFor`: the names of fields that are made for keys in order.
- `Below`: the places that a walk comes to from a place.
- `Registry.Adds`: types are added to a registry at its end, under free names that are below a
  place, and each of them is formed.
- `Walk.Finds` and `Walk.Makes`: what a walk does at a place, and at the fields of an object type.
  There is one lemma for each step, such as `Walk.Finds.list` and `Walk.Makes.cons`.
- `Inference.inferType_finds`: inference is such a walk. The keys and pages are those of values of
  a kind that is closed under going down (`Inference.Hereditary`).
- `InputType.ofProperty_finds` and `InputType.ofProperties_finds`: so is the reading of declared
  properties.

Whatever else holds of the types of a schema follows from these descriptions, without going through
the walks again. The order in which types are added is not described here, and neither are the
remarks on fields.
-/

set_option autoImplicit false

namespace JsonSelection

/-! ## Fields for keys -/

namespace Field

/-- Fields that are made for some keys, in order: each reads its own key, under
the name assigned to it. -/
structure MadeFor (used keys : List String) (fields : List Field) : Prop where
  readers : fields.map Field.reader = keys.map Reader.member
  names : fields.map Field.name = FieldName.assign used keys

theorem madeFor_nil (used : List String) : MadeFor used [] [] :=
  ⟨rfl, rfl⟩

theorem MadeFor.cons {used keys : List String} {key : String} {field : Field}
    {others : List Field} (hname : field.name = FieldName.fresh used (FieldName.sanitize key))
    (hreader : field.reader = .member key) (h : MadeFor (used ++ [field.name]) keys others) :
    MadeFor used (key :: keys) (field :: others) := by
  refine ⟨?_, ?_⟩
  · rw [List.map_cons, List.map_cons, hreader, h.readers]
  · rw [List.map_cons, FieldName.assign, h.names, hname]

theorem MadeFor.name_mem {used keys : List String} {fields : List Field} {field : Field}
    (h : MadeFor used keys fields) (hfield : field ∈ fields) :
    field.name ∈ FieldName.assign used keys :=
  h.names ▸ List.mem_map_of_mem hfield

theorem MadeFor.exists_key {used keys : List String} {fields : List Field} {field : Field}
    (h : MadeFor used keys fields) (hfield : field ∈ fields) :
    ∃ key ∈ keys, field.reader = .member key := by
  have hreader : field.reader ∈ keys.map Reader.member := h.readers ▸ List.mem_map_of_mem hfield
  obtain ⟨key, hkey, heq⟩ := List.mem_map.mp hreader
  exact ⟨key, hkey, heq.symm⟩

end Field

/-! ## Places

A place is the name that a walk is told for an object type there. The name may be taken already;
an input type then gets a fresh one. -/

/-- The places that a walk comes to from a place. Each is named after the one it
was come to from. -/
inductive Below (place : String) : String → Prop where
  | here : Below place place
  | fresh {name : String} (used : List String) :
      Below place name → Below place (FieldName.fresh used name)
  | item {name : String} : Below place name → Below place (name ++ "_Item")
  | field {owner name : String} :
      Below place owner → Token.IsName name → Below place (owner ++ "_" ++ name)

namespace Below

variable {first second third place name : String}

theorem trans (h : Below first second) (h' : Below second third) : Below first third := by
  induction h' with
  | here => exact h
  | fresh used _ ih => exact .fresh used ih
  | item _ ih => exact .item ih
  | field _ hname ih => exact .field ih hname

/-- Below a place that can be printed every place can be printed. -/
theorem isName (h : Below place name) (hplace : Token.IsName place) : Token.IsName name := by
  induction h with
  | here => exact hplace
  | fresh used _ ih => exact FieldName.fresh_isName used ih
  | item _ ih => exact ih.item
  | field _ hname ih => exact ih.join hname

/-- Only the place itself may have no underscore. -/
theorem eq_or_underscored (h : Below place name) : name = place ∨ Underscored name := by
  induction h with
  | here => exact Or.inl rfl
  | @fresh name used _ ih =>
      rcases FieldName.fresh_eq_or_underscored used name with heq | hunderscored
      · rwa [heq]
      · exact Or.inr hunderscored
  | item _ _ => exact Or.inr (underscored_item _)
  | field _ _ _ => exact Or.inr (underscored_join _ _)

theorem underscored (h : Below place name) (hplace : Underscored place) : Underscored name := by
  rcases h.eq_or_underscored with rfl | hunderscored
  · exact hplace
  · exact hunderscored

/-- No place has a shorter name than a place that it is below. -/
theorem length_le (h : Below place name) : place.length ≤ name.length := by
  induction h with
  | here => exact Nat.le_refl _
  | @fresh name used _ ih => exact Nat.le_trans ih (FieldName.length_le_fresh used name)
  | item _ ih =>
      rw [String.length_append]
      exact Nat.le_add_right_of_le ih
  | field _ _ ih =>
      rw [String.length_append, String.length_append, Nat.add_assoc]
      exact Nat.le_add_right_of_le ih

end Below

/-! ## What a walk leaves behind -/

namespace TypeRef

/-- Every object type inside has a name with some property. A type has one
object type inside at most, behind lists and a non-null wrapper. -/
def Inside (names : String → Prop) (type : TypeRef) : Prop :=
  ∀ name, type.namedInside? = some name → names name

theorem inside_of_none {type : TypeRef} (h : type.namedInside? = none) (names : String → Prop) :
    type.Inside names := by
  intro name hname
  rw [h] at hname
  cases hname

theorem Inside.imp {names more : String → Prop} (himp : ∀ name, names name → more name)
    {type : TypeRef} (h : type.Inside names) : type.Inside more :=
  fun name hname => himp name (h name hname)

end TypeRef

/-- What varies between the walks: whether the object types are input types, and
what is known of the keys that the fields of an object type stand for and of the
page sizes of lists. -/
structure Walk where
  isInput : Bool
  keys : List String → Prop
  pages : Option Int → Prop

namespace Walk

/-- The name of the object type at a place is the place itself. Only an input
type is given a fresh name made from it. -/
def Titled (walk : Walk) (place name : String) : Prop :=
  name = place ∨ walk.isInput = true ∧ ∃ used, name = FieldName.fresh used place

/-- The arguments of a field: those of its page, and none for a field of an
input type. -/
def arguments (walk : Walk) (type : TypeRef) : List Argument :=
  if walk.isInput then [] else Field.pageArguments type

/-- The names that types can lead to after a walk: those of the types that were
added, and for an output type also those of the types that there were before. -/
def Scope (walk : Walk) (types added : Registry) (name : String) : Prop :=
  name ∈ Entries.keys added ∨ walk.isInput = false ∧ name ∈ Entries.keys types

theorem Titled.below {walk : Walk} {place name : String} (h : walk.Titled place name) :
    Below place name := by
  rcases h with rfl | ⟨-, used, rfl⟩
  · exact .here
  · exact .fresh used .here

variable {walk : Walk} {types added more : Registry} {name : String}

theorem scope_append_left (h : walk.Scope types added name) :
    walk.Scope types (added ++ more) name := by
  rw [Scope, Entries.keys_append]
  exact h.imp_left (List.mem_append_left _)

theorem scope_append_right (h : walk.Scope (types ++ added) more name) :
    walk.Scope types (added ++ more) name := by
  rw [Scope, Entries.keys_append] at h ⊢
  rcases h with hmore | ⟨houtput, hmem⟩
  · exact Or.inl (List.mem_append_right _ hmore)
  · rcases List.mem_append.mp hmem with hold | hadded
    · exact Or.inr ⟨houtput, hold⟩
    · exact Or.inl (List.mem_append_left _ hadded)

/-- A name that is reserved before a walk is the name of an added type after it. -/
theorem scope_settle {place : String} {reserved type : NamedType}
    (h : walk.Scope (types ++ [(place, reserved)]) added name) :
    walk.Scope types ((place, type) :: added) name := by
  rcases scope_append_right h with hmem | hold
  · exact Or.inl hmem
  · exact Or.inr hold

end Walk

/-- A type that is formed at a place, and leads to object types of some names. -/
inductive TypeRef.FormedAt (walk : Walk) (names : String → Prop) : String →
    TypeRef → Prop where
  | scalar (place : String) (type : Scalar) : FormedAt walk names place (.scalar type)
  | json (place : String) : FormedAt walk names place .json
  | list {place : String} {item : TypeRef} {page : Option Int} : walk.pages page →
      FormedAt walk names (place ++ "_Item") item → FormedAt walk names place (.list item page)
  | named {place name : String} : walk.Titled place name → names name →
      FormedAt walk names place (.named name)
  | nonNull {place : String} {type : TypeRef} : walk.isInput = true →
      FormedAt walk names place type → FormedAt walk names place (.nonNull type)

/-- A field of a type that is formed at the place of the field. The place is
named after the owner and the field. -/
structure Field.FormedIn (walk : Walk) (names : String → Prop) (owner : String) (field : Field) :
    Prop where
  type : field.type.FormedAt walk names (owner ++ "_" ++ field.name)
  arguments : field.arguments = walk.arguments field.type

/-- An object type that is formed under its name. Its fields stand for keys, in
order; only an output type may have the field of an empty object instead. -/
structure NamedType.Formed (walk : Walk) (names : String → Prop) (owner : String)
    (type : NamedType) : Prop where
  own : type.name = owner
  kind : type.isInput = walk.isInput
  made : (∃ keys, walk.keys keys ∧ Field.MadeFor [] keys type.fields) ∨
    walk.isInput = false ∧ type.fields = [Inference.emptyField]
  fields : ∀ field ∈ type.fields, field.FormedIn walk names owner

variable {walk : Walk} {names more : String → Prop} {place : String}

/-- A type that is formed at a place leads to object types that are named below
the place. -/
theorem TypeRef.FormedAt.inside {type : TypeRef} (h : type.FormedAt walk names place) :
    type.Inside fun name => names name ∧ Below place name := by
  induction h with
  | scalar place type => exact inside_of_none rfl _
  | json place => exact inside_of_none rfl _
  | list _ _ ih => exact ih.imp fun name hname => ⟨hname.1, Below.trans (.item .here) hname.2⟩
  | named htitled hname =>
      intro other hother
      rw [← Option.some.inj hother]
      exact ⟨hname, htitled.below⟩
  | nonNull _ _ ih => exact ih

theorem TypeRef.FormedAt.imp {type : TypeRef} (h : type.FormedAt walk names place)
    (hmore : ∀ name, names name → more name) : type.FormedAt walk more place := by
  induction h with
  | scalar place type => exact .scalar place type
  | json place => exact .json place
  | list hpage _ ih => exact .list hpage ih
  | named htitled hname => exact .named htitled (hmore _ hname)
  | nonNull hinput _ ih => exact .nonNull hinput ih

theorem Field.FormedIn.imp {field : Field} (h : field.FormedIn walk names place)
    (hmore : ∀ name, names name → more name) : field.FormedIn walk more place :=
  ⟨h.type.imp hmore, h.arguments⟩

theorem NamedType.Formed.imp {type : NamedType} (h : type.Formed walk names place)
    (hmore : ∀ name, names name → more name) : type.Formed walk more place :=
  ⟨h.own, h.kind, h.made, fun field hfield => (h.fields field hfield).imp hmore⟩

/-! ## Types that are added -/

namespace Registry

/-- Types are added at the end of a registry, under free names that are below a
place. Each of them is formed, and leads to object types of some names. -/
structure Adds (walk : Walk) (names : String → Prop) (place : String)
    (types added types' : Registry) : Prop where
  appended : types' = types ++ added
  free : ∀ entry ∈ added, entry.1 ∉ Entries.keys types
  below : ∀ entry ∈ added, Below place entry.1
  formed : ∀ entry ∈ added, entry.2.Formed walk names entry.1

variable {outer : String} {types added types' : Registry}

theorem adds_nil (walk : Walk) (names : String → Prop) (place : String) (types : Registry) :
    Adds walk names place types [] types :=
  ⟨(List.append_nil types).symm, by simp, by simp, by simp⟩

/-- What is added below a place is added below any place that is further up. -/
theorem Adds.imp (h : Adds walk names place types added types') (hplace : Below outer place)
    (hmore : ∀ name, names name → more name) : Adds walk more outer types added types' :=
  ⟨h.appended, h.free, fun entry hentry => hplace.trans (h.below entry hentry),
    fun entry hentry => (h.formed entry hentry).imp hmore⟩

/-- Types may be added one after the other. -/
theorem Adds.trans {first second third first' second' : Registry}
    (h : Adds walk names place first first' second)
    (h' : Adds walk names place second second' third) :
    Adds walk names place first (first' ++ second') third := by
  refine ⟨by rw [h'.appended, h.appended, List.append_assoc], ?_, ?_, ?_⟩
  · intro entry hentry hused
    rcases List.mem_append.mp hentry with hentry | hentry
    · exact h.free entry hentry hused
    · apply h'.free entry hentry
      rw [h.appended, Entries.keys_append]
      exact List.mem_append_left _ hused
  · intro entry hentry
    exact (List.mem_append.mp hentry).elim (h.below entry) (h'.below entry)
  · intro entry hentry
    exact (List.mem_append.mp hentry).elim (h.formed entry) (h'.formed entry)

/-- A type whose name was reserved stays where its name was reserved. -/
theorem Adds.settle {name : String} {reserved type : NamedType}
    (h : Adds walk names place (Entries.put types name reserved) added types')
    (hfree : name ∉ Entries.keys types) (hplace : Below place name)
    (htype : type.Formed walk names name) :
    Adds walk names place types ((name, type) :: added) (Entries.put types' name type) := by
  have happended := h.appended
  rw [Entries.put_of_not_mem reserved hfree, List.append_assoc, List.singleton_append]
    at happended
  -- the reserved name stands first, and the types below it follow
  refine ⟨by rw [happended, Entries.put_append_cons hfree], ?_, ?_, ?_⟩
  · intro entry hentry hused
    rcases List.mem_cons.mp hentry with rfl | hentry
    · exact hfree hused
    · apply h.free entry hentry
      rw [Entries.put_of_not_mem reserved hfree, Entries.keys_append]
      exact List.mem_append_left _ hused
  · intro entry hentry
    rcases List.mem_cons.mp hentry with rfl | hentry
    · exact hplace
    · exact h.below entry hentry
  · intro entry hentry
    rcases List.mem_cons.mp hentry with rfl | hentry
    · exact htype
    · exact h.formed entry hentry

/-- Types that are added at the end leave the others as they are. -/
theorem Adds.extends (h : Adds walk names place types added types') : types.Extends types' := by
  intro name type hfind
  rw [h.appended, Entries.find?_append, hfind]
  rfl

end Registry

/-! ## The steps of a walk -/

namespace Walk

variable {types types' : Registry} {type : TypeRef} {given : List Field} {used keys : List String}

/-- A walk that comes to a place finds a type there, and adds the types that it
needs. -/
def Finds (walk : Walk) (place : String) (types : Registry) (type : TypeRef)
    (types' : Registry) : Prop :=
  ∃ added, types.Adds walk (walk.Scope types added) place added types' ∧
    type.FormedAt walk (walk.Scope types added) place

/-- A walk over the fields of an object type makes them for some keys, and adds
the types that they need. -/
def Makes (walk : Walk) (owner : String) (used keys : List String) (types : Registry)
    (given : List Field) (types' : Registry) : Prop :=
  ∃ added, types.Adds walk (walk.Scope types added) owner added types' ∧
    Field.MadeFor used keys given ∧
    ∀ field ∈ given, field.FormedIn walk (walk.Scope types added) owner

/-- A type that leads to no object type needs none. -/
theorem finds_of_leaf (types : Registry) (h : type.FormedAt walk (fun _ => False) place) :
    walk.Finds place types type types :=
  ⟨[], Registry.adds_nil walk _ place types, h.imp fun _ => False.elim⟩

/-- A list needs the types of its elements. -/
theorem Finds.list {item : TypeRef} {page : Option Int}
    (h : walk.Finds (place ++ "_Item") types item types') (hpage : walk.pages page) :
    walk.Finds place types (.list item page) types' := by
  obtain ⟨added, hadds, hformed⟩ := h
  exact ⟨added, hadds.imp (.item .here) fun _ => id, .list hpage hformed⟩

theorem Finds.requireIf (h : walk.Finds place types type types') (hinput : walk.isInput = true)
    (required : Bool) : walk.Finds place types (InputType.requireIf required type) types' := by
  obtain ⟨added, hadds, hformed⟩ := h
  refine ⟨added, hadds, ?_⟩
  unfold InputType.requireIf
  split
  · exact .nonNull hinput hformed
  · exact hformed

/-- An output type whose name is registered stands for the type that has the name. -/
theorem finds_known (houtput : walk.isInput = false) (h : types.has place = true) :
    walk.Finds place types (.named place) types :=
  ⟨[], Registry.adds_nil walk _ place types,
    .named (Or.inl rfl) (Or.inr ⟨houtput, (Entries.has_iff_mem_keys types place).mp h⟩)⟩

/-- An empty object needs a type with a field of its own. -/
theorem finds_empty (houtput : walk.isInput = false) (h : place ∉ Entries.keys types) :
    walk.Finds place types (.named place)
      (Entries.put types place ⟨place, [Inference.emptyField], false⟩) := by
  -- one type is added, and its only field is that of an empty object
  refine ⟨[(place, ⟨place, [Inference.emptyField], false⟩)],
    ⟨Entries.put_of_not_mem _ h, ?_, ?_, ?_⟩, .named (Or.inl rfl) (Or.inl List.mem_cons_self)⟩
  · intro entry hentry
    rwa [List.mem_singleton.mp hentry]
  · intro entry hentry
    rw [List.mem_singleton.mp hentry]
    exact .here
  · intro entry hentry
    rw [List.mem_singleton.mp hentry]
    refine ⟨rfl, houtput.symm, Or.inr ⟨houtput, rfl⟩, ?_⟩
    intro field hfield
    rw [List.mem_singleton.mp hfield]
    refine ⟨.scalar _ _, ?_⟩
    rw [arguments, houtput]
    rfl

theorem makes_nil (walk : Walk) (owner : String) (used : List String) (types : Registry) :
    walk.Makes owner used [] types [] types :=
  ⟨[], Registry.adds_nil walk _ owner types, Field.madeFor_nil used, by simp⟩

/-- One field after the other: each needs the types of its own place. -/
theorem Makes.cons {owner key : String} {field : Field} {others : List Field}
    {types₁ : Registry}
    (hname : field.name = FieldName.fresh used (FieldName.sanitize key))
    (hreader : field.reader = .member key)
    (harguments : field.arguments = walk.arguments field.type)
    (htype : walk.Finds (owner ++ "_" ++ field.name) types field.type types₁)
    (hothers : walk.Makes owner (used ++ [field.name]) keys types₁ others types') :
    walk.Makes owner used (key :: keys) types (field :: others) types' := by
  obtain ⟨added, hadds, hformed⟩ := htype
  obtain ⟨more, hmore, hmade, hfields⟩ := hothers
  have hplace : Below owner (owner ++ "_" ++ field.name) := by
    rw [hname]
    exact .field .here (FieldName.fresh_isName used (FieldName.sanitize_isName key))
  -- the first field leads to what it added, and the others lead to that and to what they added
  have hleft : ∀ name, walk.Scope types added name → walk.Scope types (added ++ more) name :=
    fun name => scope_append_left
  have hright : ∀ name, walk.Scope types₁ more name →
      walk.Scope types (added ++ more) name := by
    rw [hadds.appended]
    exact fun name => scope_append_right
  refine ⟨added ++ more, (hadds.imp hplace hleft).trans (hmore.imp .here hright),
    .cons hname hreader hmade, ?_⟩
  intro other hother
  rcases List.mem_cons.mp hother with rfl | hother
  · exact ⟨hformed.imp hleft, harguments⟩
  · exact (hfields other hother).imp hright

/-- The type of an object: its name is reserved while the types of its fields
are found. -/
theorem Makes.settle {name : String} (htitled : walk.Titled place name)
    (hfree : name ∉ Entries.keys types) (hkeys : walk.keys keys)
    (h : walk.Makes name [] keys (Entries.put types name ⟨name, [], walk.isInput⟩)
      given types') :
    walk.Finds place types (.named name)
      (Entries.put types' name ⟨name, given, walk.isInput⟩) := by
  obtain ⟨added, hadds, hmade, hfields⟩ := h
  have hsettle : ∀ other, walk.Scope (Entries.put types name ⟨name, [], walk.isInput⟩) added
    other →
      walk.Scope types ((name, ⟨name, given, walk.isInput⟩) :: added) other := by
    rw [Entries.put_of_not_mem _ hfree]
    exact fun other => scope_settle
  refine ⟨_, (hadds.imp htitled.below hsettle).settle hfree htitled.below ?_,
    .named htitled (Or.inl List.mem_cons_self)⟩
  exact ⟨rfl, rfl, Or.inl ⟨keys, hkeys, hmade⟩,
    fun field hfield => (hfields field hfield).imp hsettle⟩

end Walk

/-! ## Inference -/

/-- The walk of inference over values of some kind: fields stand for the keys of
an object, and the page of a list is sized by its elements. -/
def Walk.overValues (limits : Limits) (values : Json → Prop) : Walk where
  isInput := false
  keys keys := ∃ entries, entries ≠ [] ∧ values (.obj entries) ∧ keys = Entries.keys entries
  pages page := ∃ levels items n, values (.arr items) ∧
    Cost.pageSize limits levels items = .ok n ∧ page = some n

namespace Inference

variable {limits : Limits} {values : Json → Prop} {types types' : Registry}

/-- A kind of values that a walk does not leave: it goes on with the values of
entries, and with what stands for the elements of a list. -/
structure Hereditary (limits : Limits) (values : Json → Prop) : Prop where
  members : ∀ {entries}, values (.obj entries) → ∀ entry ∈ entries, values entry.2
  items : ∀ {items}, values (.arr items) → ∀ levels,
    values (representative limits levels items).1

/-- All values are of such a kind. -/
theorem hereditary_all (limits : Limits) : Hereditary limits fun _ => True :=
  ⟨fun _ _ _ => trivial, fun _ _ => trivial⟩

/-- An inference that finds types by such a walk. -/
def Finding (limits : Limits) (values : Json → Prop) (child : Child) : Prop :=
  ∀ ⦃value place conflicts types type types'⦄, values value →
    child value place conflicts types = .ok (type, types') →
    (Walk.overValues limits values).Finds place types type types'

theorem fields_makes {child : Child} (hchild : Finding limits values child) {owner : String}
    {conflicts used : List String} {entries : Entries Json} {given : List Field}
    (hvalues : ∀ entry ∈ entries, values entry.2)
    (h : fields child owner conflicts used entries types = .ok (given, types')) :
    (Walk.overValues limits values).Makes owner used (Entries.keys entries) types given types' := by
  induction entries generalizing used types given with
  | nil =>
      obtain ⟨rfl, rfl⟩ := Prod.mk.inj (Except.ok.inj h)
      exact Walk.makes_nil _ owner used types
  | cons entry rest ih =>
      obtain ⟨key, value⟩ := entry
      have hrest : ∀ entry ∈ rest, values entry.2 :=
        fun entry hentry => hvalues entry (List.mem_cons_of_mem _ hentry)
      simp only [fields] at h
      split at h
      -- a key in conflict is a leaf, which adds no type
      · obtain ⟨⟨others, types₁⟩, hothers, h⟩ := Outcome.bind_eq_ok_iff.mp h
        obtain ⟨rfl, rfl⟩ := Prod.mk.inj (Except.ok.inj h)
        exact .cons rfl rfl rfl (Walk.finds_of_leaf types (.json _)) (ih hrest hothers)
      · obtain ⟨⟨type, types₁⟩, htype, h⟩ := Outcome.bind_eq_ok_iff.mp h
        obtain ⟨⟨others, types₂⟩, hothers, h⟩ := Outcome.bind_eq_ok_iff.mp h
        obtain ⟨rfl, rfl⟩ := Prod.mk.inj (Except.ok.inj h)
        have hvalue := hvalues (key, value) List.mem_cons_self
        exact .cons rfl rfl rfl (hchild hvalue htype) (ih hrest hothers)

theorem objectType_finds {child : Child} (hchild : Finding limits values child)
    (hvalues : Hereditary limits values) {entries : Entries Json}
    (hentries : values (.obj entries)) {place : String} {conflicts : List String} {type : TypeRef}
    (h : objectType child entries place conflicts types = .ok (type, types')) :
    (Walk.overValues limits values).Finds place types type types' := by
  simp only [objectType] at h
  split at h
  · next hknown =>
      obtain ⟨rfl, rfl⟩ := Prod.mk.inj (Except.ok.inj h)
      exact Walk.finds_known rfl hknown
  · next hnew =>
      -- the name is free, so the types are added behind what is there
      have hfree : place ∉ Entries.keys types :=
        (Entries.has_eq_false_iff types place).mp (Bool.eq_false_iff.mpr hnew)
      split at h
      · obtain ⟨rfl, rfl⟩ := Prod.mk.inj (Except.ok.inj h)
        exact Walk.finds_empty rfl hfree
      · next hfilled =>
          obtain ⟨⟨given, types₁⟩, hgiven, h⟩ := Outcome.bind_eq_ok_iff.mp h
          obtain ⟨rfl, rfl⟩ := Prod.mk.inj (Except.ok.inj h)
          have hmakes := fields_makes hchild (hvalues.members hentries) hgiven
          exact hmakes.settle (Or.inl rfl) hfree ⟨entries, hfilled, hentries, rfl⟩

theorem listType_finds {levels : Nat} {child : Child} (hchild : Finding limits values child)
    (hvalues : Hereditary limits values) {items : List Json} (hitems : values (.arr items))
    {place : String} {type : TypeRef}
    (h : listType limits levels child items place types = .ok (type, types')) :
    (Walk.overValues limits values).Finds place types type types' := by
  simp only [listType] at h
  split at h
  · obtain ⟨rfl, rfl⟩ := Prod.mk.inj (Except.ok.inj h)
    exact Walk.finds_of_leaf types (.list ⟨levels, [], _, hitems, rfl, rfl⟩ (.json _))
  · split at h
    · obtain ⟨rfl, rfl⟩ := Prod.mk.inj (Except.ok.inj h)
      exact Walk.finds_of_leaf types (.json place)
    · obtain ⟨⟨item, types₁⟩, hitem, h⟩ := Outcome.bind_eq_ok_iff.mp h
      obtain ⟨page, hpage, h⟩ := Outcome.bind_eq_ok_iff.mp h
      obtain ⟨rfl, rfl⟩ := Prod.mk.inj (Except.ok.inj h)
      exact (hchild (hvalues.items hitems levels) hitem).list
        ⟨levels, items, page, hitems, hpage, rfl⟩

/-- The type of a list is a list, or raw JSON. -/
theorem eq_json_or_list {levels : Nat} {child : Child} {items : List Json} {place : String}
    {type : TypeRef} (h : listType limits levels child items place types = .ok (type, types')) :
    type = .json ∨ ∃ item page, type = .list item page := by
  simp only [listType] at h
  split at h
  · obtain ⟨rfl, -⟩ := Prod.mk.inj (Except.ok.inj h)
    exact Or.inr ⟨_, _, rfl⟩
  · split at h
    · obtain ⟨rfl, -⟩ := Prod.mk.inj (Except.ok.inj h)
      exact Or.inl rfl
    · obtain ⟨⟨item, types₁⟩, -, h⟩ := Outcome.bind_eq_ok_iff.mp h
      obtain ⟨page, -, h⟩ := Outcome.bind_eq_ok_iff.mp h
      obtain ⟨rfl, -⟩ := Prod.mk.inj (Except.ok.inj h)
      exact Or.inr ⟨_, _, rfl⟩

/-- Inference is a walk over the values of any kind that it does not leave. -/
theorem inferType_finds (hvalues : Hereditary limits values) (levels : Nat) :
    Finding limits values (inferType limits levels) := by
  induction levels with
  | zero =>
      intro value place conflicts types type types' _ h
      -- at the bound only `null` still has a type of its own
      cases value with
      | null =>
          obtain ⟨rfl, rfl⟩ := Prod.mk.inj (Except.ok.inj h)
          exact Walk.finds_of_leaf types (.scalar place _)
      | _ =>
          obtain ⟨rfl, rfl⟩ := Prod.mk.inj (Except.ok.inj h)
          exact Walk.finds_of_leaf types (.json place)
  | succ levels ih =>
      intro value place conflicts types type types' hvalue h
      cases value with
      | arr items => exact listType_finds ih hvalues hvalue h
      | obj entries => exact objectType_finds ih hvalues hvalue h
      | _ =>
          obtain ⟨rfl, rfl⟩ := Prod.mk.inj (Except.ok.inj h)
          exact Walk.finds_of_leaf types (.scalar place _)

/-- The fields of an object type are made for the keys of the object. -/
theorem fields_madeFor {levels : Nat} {owner : String} {conflicts used : List String}
    {entries : Entries Json} {given : List Field}
    (h : fields (inferType limits levels) owner conflicts used entries types =
      .ok (given, types')) : Field.MadeFor used (Entries.keys entries) given := by
  obtain ⟨_, -, hmade, -⟩ :=
    fields_makes (inferType_finds (hereditary_all limits) levels) (fun _ _ => trivial) h
  exact hmade

end Inference

/-! ## Request bodies -/

/-- The walk over declared properties, with what is known of the names of the
properties. -/
def Walk.overProperties (keys : List String → Prop) : Walk where
  isInput := true
  keys := keys
  pages page := page = none

namespace InputType

/-- The fields of some properties: the first one has the type of its property,
and the others follow in the registry that this type leaves. -/
theorem fields_cons_eq_ok {typeName key : String} {used : List String} {property : Property}
    {rest : List (String × Property)} {levels : Nat} {types types' : Registry} {given : List Field}
    (h : fields typeName used ((key, property) :: rest) levels types = .ok (given, types')) :
    ∃ type types₁ description others,
      ofProperty property levels
          (typeName ++ "_" ++ FieldName.fresh used (FieldName.sanitize key)) types =
        .ok (type, types₁) ∧
      fields typeName (used ++ [FieldName.fresh used (FieldName.sanitize key)]) rest
        levels types₁ =
        .ok (others, types') ∧
      given = { name := FieldName.fresh used (FieldName.sanitize key)
                reader := .member key
                type := requireIf property.remarks.required type
                description := description } :: others := by
  rw [fields] at h
  split at h
  · cases h
  · next type types₁ htype =>
      split at h
      · cases h
      · next description _ =>
          split at h
          · cases h
          · next others types₂ hothers =>
              obtain ⟨rfl, rfl⟩ := Prod.mk.inj (Except.ok.inj h)
              exact ⟨type, types₁, description, others, htype, hothers, rfl⟩

variable {keys : List String → Prop} {types types' : Registry} {type : TypeRef}

/-- A property whose type leads to no object type. -/
theorem finds_leaf {result : TypeRef}
    (h : (Except.ok (type, types) : Except BodyError Inference.Typed) = .ok (result, types'))
    (hleaf : type.FormedAt (Walk.overProperties keys) (fun _ => False) place) :
    (Walk.overProperties keys).Finds place types result types' := by
  obtain ⟨rfl, rfl⟩ := Prod.mk.inj (Except.ok.inj h)
  exact Walk.finds_of_leaf types hleaf

mutual

/-- The input type of a property is found by a walk. -/
theorem ofProperty_finds (keys : List String → Prop)
    (hkeys : ∀ names, names ≠ [] → keys names) :
    ∀ (property : Property) (levels : Nat) {place : String} {types types' : Registry}
      {type : TypeRef}, ofProperty property levels place types = .ok (type, types') →
      (Walk.overProperties keys).Finds place types type types'
  | .malformed _, levels, _, _, _, _, h => by
      cases levels <;> cases h
  | .scalar _ _, levels, _, _, _, _, h => by
      rw [ofProperty] at h
      exact finds_leaf h (.scalar _ _)
  | .other _, 0, _, _, _, _, h => finds_leaf h (.json _)
  | .other _, _ + 1, _, _, _, _, h => finds_leaf h (.scalar _ _)
  | .array _ _, 0, _, _, _, _, h => finds_leaf h (.json _)
  | .array _ none, _ + 1, _, _, _, _, h => finds_leaf h (.list rfl (.json _))
  | .array _ (some item), levels + 1, place, types, types', type, h => by
      rw [ofProperty] at h
      split at h
      · next inner types₁ hinner =>
          obtain ⟨rfl, rfl⟩ := Prod.mk.inj (Except.ok.inj h)
          exact (ofProperty_finds keys hkeys item (levels + 1) hinner).list rfl
      · cases h
  | .object _ _, 0, _, _, _, _, h => finds_leaf h (.json _)
  | .object _ [], _ + 1, _, _, _, _, h => finds_leaf h (.json _)
  | .object _ (property :: rest), levels + 1, place, types, types', type, h => by
      rw [ofProperty] at h
      split at h
      · next given types₁ hgiven =>
          obtain ⟨rfl, rfl⟩ := Prod.mk.inj (Except.ok.inj h)
          have hmakes := fields_makes keys hkeys (property :: rest) levels hgiven
          -- the fields are found with the fresh name reserved, so it is still free of what they add
          exact hmakes.settle (Or.inr ⟨rfl, _, rfl⟩) (FieldName.fresh_not_mem _ place)
            (hkeys _ (List.cons_ne_nil _ _))
      · cases h

/-- The fields of an input type are made by a walk. -/
theorem fields_makes (keys : List String → Prop)
    (hkeys : ∀ names, names ≠ [] → keys names) :
    ∀ (properties : List (String × Property)) (levels : Nat) {owner : String}
    {used : List String}
      {types types' : Registry} {given : List Field},
      fields owner used properties levels types = .ok (given, types') →
      (Walk.overProperties keys).Makes owner used (properties.map Prod.fst) types given types'
  | [], _, owner, used, types, _, _, h => by
      rw [fields] at h
      obtain ⟨rfl, rfl⟩ := Prod.mk.inj (Except.ok.inj h)
      exact Walk.makes_nil _ owner used types
  | (_, property) :: rest, levels, _, _, _, _, _, h => by
      obtain ⟨type, types₁, description, others, htype, hothers, rfl⟩ := fields_cons_eq_ok h
      have hfinds := (ofProperty_finds keys hkeys property levels htype).requireIf rfl
        property.remarks.required
      exact .cons rfl rfl rfl hfinds (fields_makes keys hkeys rest levels hothers)

end

/-- The input type of all properties is found by a walk, too, whatever is known
of their names. -/
theorem ofProperties_finds {properties : List (String × Property)} {levels : Nat}
    {place name : String} (keys : List String → Prop)
    (hkeys : ∀ names, names ≠ [] → keys names) (hnames : keys (properties.map Prod.fst))
    (h : ofProperties properties levels place types = .ok (name, types')) :
    (Walk.overProperties keys).Finds place types (.named name) types' := by
  simp only [ofProperties] at h
  split at h
  · next given types₁ hgiven =>
      obtain ⟨rfl, rfl⟩ := Prod.mk.inj (Except.ok.inj h)
      have hmakes := fields_makes keys hkeys properties levels hgiven
      exact hmakes.settle (Or.inr ⟨rfl, _, rfl⟩) (FieldName.fresh_not_mem _ place) hnames
  · cases h

/-- The fields of an input type are made for the declared properties. -/
theorem fields_madeFor {properties : List (String × Property)} {levels : Nat} {owner : String}
    {used : List String} {given : List Field}
    (h : fields owner used properties levels types = .ok (given, types')) :
    Field.MadeFor used (properties.map Prod.fst) given := by
  obtain ⟨_, -, hmade, -⟩ :=
    fields_makes (fun _ => True) (fun _ _ => trivial) properties levels h
  exact hmade

end InputType

end JsonSelection

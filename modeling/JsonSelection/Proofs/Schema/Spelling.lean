import JsonSelection.Proofs.Schema.Mirroring
import JsonSelection.Proofs.Schema.Serving

/-!
# How fields are spelled

Every field of a schema has a name that a query can hold. The name of a key is
never reserved, but a numbered variant of it can be: the variants of a single
underscore begin with two. Only a key of one character that is neither a letter
nor a digit gives a single underscore, so a reserved name is shown for the
second such key of an object and for those after it, and for no other field.

## What this module delivers

- `FieldName.isReserved_fresh_iff`: when a key is shown under a reserved name.
- `NamedType.Spelled`: a type whose fields are spelled by these rules.
- `NamedType.spelled_of_madeFor`: fields that are made for some keys make such a
  type.
- `Schema.spelled_of_build`: all types of a schema that is built are spelled so.
- `Schema.spelled_of_keys`: so are all types that inference and the reading of a
  request body register.
-/

set_option autoImplicit false

namespace JsonSelection

/-! ### Reserved names

The steps of sanitizing are followed one by one: each gives a single underscore
exactly if it was given one, and the first does for a symbol. -/

namespace FieldName

/-- Two underscores at the start of a name reserve it. A schema may use such
names only for what it says about itself. -/
def IsReserved (name : String) : Prop :=
  ['_', '_'] <+: name.toList

instance (name : String) : Decidable (IsReserved name) :=
  inferInstanceAs (Decidable (['_', '_'] <+: name.toList))

/-- A key of a single character that is neither a letter nor a digit. The
underscore itself is such a key. -/
def IsSymbol (key : String) : Prop :=
  key.toList.length = 1 ∧ ∀ c ∈ key.toList, c.isAlphanum = false

instance (key : String) : Decidable (IsSymbol key) :=
  inferInstanceAs (Decidable (_ ∧ _))

theorem guardDigit_eq_underscore_iff (cs : List Char) : guardDigit cs = ['_'] ↔ cs = ['_'] := by
  cases cs with
  | nil => simp [guardDigit]
  | cons c rest =>
      simp only [guardDigit]
      split
      · next hdigit =>
          constructor
          · intro h
            cases (List.cons.inj h).2
          · intro h
            obtain ⟨rfl, -⟩ := List.cons.inj h
            cases hdigit
      · exact Iff.rfl

theorem unreserve_eq_underscore_iff (cs : List Char) : unreserve cs = ['_'] ↔ cs = ['_'] := by
  unfold unreserve
  split
  · next rest =>
      constructor
      · intro h
        cases (List.cons.inj h).1
      · intro h
        cases (List.cons.inj h).2
  · exact Iff.rfl

theorem sanitizeChars_eq_underscore_iff (cs : List Char) :
    sanitizeChars cs = ['_'] ↔ cs.map (fun c => if isAllowed c then c else '_') = ['_'] := by
  have hguarded := (unreserve_eq_underscore_iff
    (guardDigit (cs.map fun c => if isAllowed c then c else '_'))).trans
      (guardDigit_eq_underscore_iff _)
  unfold sanitizeChars
  split
  · next hempty =>
      rw [← hguarded, hempty]
      decide
  · exact hguarded

theorem replaced_eq_underscore_iff (c : Char) :
    (if isAllowed c then c else '_') = '_' ↔ c.isAlphanum = false := by
  unfold isAllowed
  constructor
  · intro h
    split at h
    · rw [h]
      rfl
    · next hother =>
        rw [Bool.or_eq_true, not_or] at hother
        exact Bool.eq_false_iff.mpr hother.1
  · intro h
    rw [h, Bool.false_or]
    split
    · next heq => exact eq_of_beq heq
    · rfl

/-- Only a single character gives a single underscore. -/
theorem sanitize_eq_underscore_iff {key : String} : sanitize key = "_" ↔ IsSymbol key := by
  -- names are compared as lists of characters
  have hchars : sanitize key = "_" ↔ sanitizeChars key.toList = ['_'] := by
    rw [sanitize, ← String.toList_inj, String.toList_ofList]
    rfl
  rw [hchars, sanitizeChars_eq_underscore_iff, List.map_eq_singleton_iff, IsSymbol,
    List.length_eq_one_iff]
  constructor
  · rintro ⟨c, hlist, hc⟩
    rw [hlist]
    refine ⟨⟨c, rfl⟩, ?_⟩
    intro d hd
    rw [List.mem_singleton.mp hd]
    exact (replaced_eq_underscore_iff c).mp hc
  · rintro ⟨⟨c, hlist⟩, hc⟩
    refine ⟨c, hlist, (replaced_eq_underscore_iff c).mpr (hc c ?_)⟩
    rw [hlist]
    exact List.mem_singleton_self c

/-- A numbered variant is longer than an underscore. -/
theorem variant_ne_underscore {name : String} (h : Token.IsName name) (k : Nat) :
    variant name k ≠ "_" := by
  obtain ⟨c, rest, hlist, -, -⟩ := h
  intro heq
  have hlength := congrArg (fun text => text.toList.length) heq
  have hone : "_".toList.length = 1 := rfl
  simp only [toList_variant, hlist, List.length_append, List.length_cons, hone] at hlength
  omega

/-- A numbered variant of an unreserved name is reserved exactly if that name is
an underscore. -/
theorem isReserved_variant_iff {name : String} (hname : Token.IsName name)
    (hfree : ¬ IsReserved name) (k : Nat) : IsReserved (variant name k) ↔ name = "_" := by
  obtain ⟨c, rest, hlist, -, -⟩ := hname
  rw [IsReserved, toList_variant, hlist]
  cases rest with
  | nil =>
      have hunderscore : name = "_" ↔ c = '_' := by
        rw [← String.toList_inj, hlist]
        constructor
        · exact fun h => (List.cons.inj h).1
        · rintro rfl
          rfl
      rw [hunderscore]
      constructor
      · rintro ⟨more, heq⟩
        exact (List.cons.inj heq).1.symm
      · rintro rfl
        exact ⟨_, rfl⟩
  | cons d rest =>
      constructor
      · -- two characters of a longer name are also the first two of its variant
        rintro ⟨more, heq⟩
        obtain ⟨rfl, htail⟩ := List.cons.inj heq
        obtain ⟨rfl, -⟩ := List.cons.inj htail
        exact absurd ⟨rest, hlist.symm⟩ hfree
      · rintro rfl
        cases (List.cons.inj hlist).2

theorem fresh_of_not_mem {used : List String} {name : String} (h : name ∉ used) :
    fresh used name = name := by
  rw [fresh, if_neg]
  rwa [List.contains_iff_mem]

/-- A key is shown as an underscore if it is a symbol and that name is free. -/
theorem fresh_eq_underscore_iff (used : List String) (key : String) :
    fresh used (sanitize key) = "_" ↔ "_" ∉ used ∧ IsSymbol key := by
  rw [← sanitize_eq_underscore_iff]
  constructor
  · intro h
    refine ⟨h ▸ fresh_not_mem used (sanitize key), ?_⟩
    rcases fresh_eq used (sanitize key) with heq | ⟨k, heq⟩
    · rw [← heq, h]
    · exact absurd (heq.symm.trans h) (variant_ne_underscore (sanitize_isName key) k)
  · rintro ⟨hfree, heq⟩
    rw [heq]
    exact fresh_of_not_mem hfree

/-- A key is shown under a reserved name if it is a symbol and the underscore is
in use. -/
theorem isReserved_fresh_iff (used : List String) (key : String) :
    IsReserved (fresh used (sanitize key)) ↔ IsSymbol key ∧ "_" ∈ used := by
  have hfree : ¬ IsReserved (sanitize key) := sanitize_not_reserved key
  rw [← sanitize_eq_underscore_iff]
  rcases fresh_eq used (sanitize key) with heq | ⟨k, heq⟩
  · rw [heq]
    constructor
    · exact fun h => absurd h hfree
    · rintro ⟨hunderscore, hused⟩
      rw [← hunderscore, ← heq] at hused
      exact absurd hused (fresh_not_mem used _)
  · rw [heq, isReserved_variant_iff (sanitize_isName key) hfree]
    constructor
    · intro hunderscore
      refine ⟨hunderscore, Classical.byContradiction fun hunused => ?_⟩
      -- a free name would not have been numbered
      rw [hunderscore, fresh_of_not_mem hunused] at heq
      exact variant_ne_self "_" k heq.symm
    · exact And.left

theorem assign_append (used first second : List String) :
    assign used (first ++ second) = assign used first ++
      assign (used ++ assign used first) second := by
  induction first generalizing used with
  | nil => simp [assign]
  | cons key rest ih => simp only [List.cons_append, assign, ih, List.append_assoc, List.nil_append]

theorem length_assign (used keys : List String) : (assign used keys).length = keys.length := by
  induction keys generalizing used with
  | nil => rfl
  | cons key rest ih => rw [assign, List.length_cons, List.length_cons, ih]

/-- The underscore is assigned to the first symbol among the keys. -/
theorem underscore_mem_assign_iff (used keys : List String) :
    "_" ∈ assign used keys ↔ "_" ∉ used ∧ ∃ key ∈ keys, IsSymbol key := by
  induction keys generalizing used with
  | nil => simp [assign]
  | cons key rest ih =>
      have hfirst := fresh_eq_underscore_iff used key
      -- either this key is the first symbol, or a later one is and this key is none
      simp only [assign, List.mem_cons, ih, List.mem_append, List.not_mem_nil, or_false,
        eq_comm (a := "_"), hfirst, exists_eq_or_imp]
      tauto

end FieldName

/-! ### Types that are spelled by the rules

The names that are in use for a field are those of the fields before it, so what
is said of a field depends on the keys that these read. -/

namespace Field

/-- A field that reads a key of a single symbol. -/
def ReadsSymbol (field : Field) : Prop :=
  ∃ key, field.reader = .member key ∧ FieldName.IsSymbol key

theorem readsSymbol_iff {field : Field} {key : String} (h : field.reader = .member key) :
    field.ReadsSymbol ↔ FieldName.IsSymbol key := by
  constructor
  · rintro ⟨other, hother, hsymbol⟩
    obtain rfl := Reader.member.inj (h.symm.trans hother)
    exact hsymbol
  · exact fun hsymbol => ⟨key, h, hsymbol⟩

end Field

namespace NamedType

/-- The keys that the fields of a type read, in order. -/
def keys (type : NamedType) : List String :=
  type.fields.filterMap fun field => field.reader.key?

/-- A type whose fields are spelled by the rules. Their names are names, apart
from each other, and a name is reserved exactly when its field reads a symbol
after another field that reads one. -/
structure Spelled (type : NamedType) : Prop where
  names : ∀ field ∈ type.fields, Token.IsName field.name
  distinct : type.fieldNames.Nodup
  reserved : ∀ before field after, type.fields = before ++ field :: after →
    (FieldName.IsReserved field.name ↔ field.ReadsSymbol ∧ ∃ other ∈ before,
      other.ReadsSymbol)

theorem keys_of_readers {type : NamedType} {keys : List String}
    (h : type.fields.map Field.reader = keys.map Reader.member) : type.keys = keys := by
  have hread : type.keys = (type.fields.map Field.reader).filterMap Reader.key? := by
    rw [List.filterMap_map]
    rfl
  rw [hread, h, List.filterMap_map]
  exact List.filterMap_some

/-- Fields that are made for some keys make a type that is spelled by the rules. -/
theorem spelled_of_madeFor {type : NamedType} {keys : List String}
    (h : Field.MadeFor [] keys type.fields) : type.Spelled := by
  obtain ⟨hdistinct, hnames⟩ := FieldName.assign_spec [] keys
  refine ⟨?_, ?_, ?_⟩
  · intro field hfield
    apply (hnames field.name _).1
    rw [← h.names]
    exact List.mem_map_of_mem hfield
  · rw [fieldNames, h.names]
    exact hdistinct
  · intro before field after heq
    obtain ⟨hreaders, hassigned⟩ := h
    rw [heq] at hreaders hassigned
    -- the keys before the field are those that the fields before it read
    rw [List.map_append, eq_comm, List.map_eq_append_iff] at hreaders
    obtain ⟨first, rest, rfl, hfirst, hrest⟩ := hreaders
    obtain ⟨key, last, rfl, hkey, -⟩ := List.map_eq_cons_iff.mp hrest
    have hlength : (before.map Field.name).length = (FieldName.assign [] first).length := by
      have hcount := congrArg List.length hfirst
      rw [List.length_map, List.length_map] at hcount
      rw [FieldName.length_assign, List.length_map, hcount]
    rw [List.map_append, FieldName.assign_append] at hassigned
    obtain ⟨-, htail⟩ := List.append_inj hassigned hlength
    have hname := (List.cons.inj htail).1
    have hbefore : (∃ other ∈ before, other.ReadsSymbol) ↔ ∃ key ∈ first,
        FieldName.IsSymbol key := by
      constructor
      · rintro ⟨other, hother, symbol, hreader, hsymbol⟩
        have hmem : Reader.member symbol ∈ first.map Reader.member := by
          rw [hfirst, ← hreader]
          exact List.mem_map_of_mem hother
        obtain ⟨_, hmem, heq⟩ := List.mem_map.mp hmem
        exact ⟨symbol, Reader.member.inj heq ▸ hmem, hsymbol⟩
      · rintro ⟨symbol, hmem, hsymbol⟩
        have hmem : Reader.member symbol ∈ before.map Field.reader := by
          rw [← hfirst]
          exact List.mem_map_of_mem hmem
        obtain ⟨other, hother, hreader⟩ := List.mem_map.mp hmem
        exact ⟨other, hother, symbol, hreader, hsymbol⟩
    rw [hname, FieldName.isReserved_fresh_iff, List.nil_append, FieldName.underscore_mem_assign_iff,
      hbefore, Field.readsSymbol_iff hkey.symm]
    simp

/-- Fields that read no key of their own are spelled by the rules if their names
are not reserved. -/
theorem spelled_of_keyless {type : NamedType} (hdistinct : type.fieldNames.Nodup)
    (h : ∀ field ∈ type.fields, field.reader.key? = none ∧ Token.IsName field.name ∧
      ¬ FieldName.IsReserved field.name) : type.Spelled := by
  refine ⟨fun field hfield => (h field hfield).2.1, hdistinct, ?_⟩
  intro before field after heq
  have hmem : field ∈ type.fields := by
    rw [heq]
    exact List.mem_append_right _ List.mem_cons_self
  obtain ⟨hkeyless, -, hfree⟩ := h field hmem
  constructor
  · exact fun hreserved => absurd hreserved hfree
  · rintro ⟨⟨key, hreader, -⟩, -⟩
    rw [hreader] at hkeyless
    cases hkeyless

end NamedType

namespace Registry

/-- A registry whose types are spelled by the rules. -/
def Spelled (types : Registry) : Prop :=
  ∀ entry ∈ types, entry.2.Spelled

theorem spelled_nil : Spelled [] := by
  intro entry hentry
  cases hentry

theorem Spelled.put {types : Registry} (h : types.Spelled) {type : NamedType} (htype : type.Spelled)
    (name : String) : Spelled (Entries.put types name type) := by
  intro entry hentry
  rcases Entries.mem_put hentry with hentry | rfl
  · exact h entry hentry
  · exact htype

theorem spelled_empty (name : String) (isInput : Bool) :
    NamedType.Spelled ⟨name, [], isInput⟩ :=
  NamedType.spelled_of_madeFor (Field.madeFor_nil [])

theorem Spelled.typeNamed {types : Registry} (h : types.Spelled) (name : String) :
    (types.typeNamed name).Spelled := by
  rw [Registry.typeNamed]
  cases hfind : Entries.find? types name with
  | none => exact spelled_empty name false
  | some type => exact h _ (Entries.mem_of_find? hfind)

end Registry

/-! ### Types that are formed by a walk

The fields of such a type are made for keys, or there is only the one of an
empty object. -/

theorem NamedType.spelled_placeholder {type : NamedType}
    (h : type.fields = [Inference.emptyField]) : type.Spelled := by
  refine spelled_of_keyless ?_ ?_
  · rw [fieldNames, h]
    exact List.pairwise_singleton _ _
  · intro field hfield
    rw [h, List.mem_singleton] at hfield
    rw [hfield]
    exact ⟨rfl, Inference.selectable_emptyField.name, by decide⟩

theorem NamedType.Formed.spelled {walk : Walk} {names : String → Prop} {owner : String}
    {type : NamedType} (h : type.Formed walk names owner) : type.Spelled := by
  rcases h.made with ⟨keys, -, hmade⟩ | ⟨-, hempty⟩
  · exact spelled_of_madeFor hmade
  · exact spelled_placeholder hempty

/-- Whatever a walk adds is spelled by the rules. -/
theorem Registry.Adds.spelled {walk : Walk} {names : String → Prop} {place : String}
    {types added types' : Registry} (h : types.Adds walk names place added types')
    (htypes : types.Spelled) : types'.Spelled := by
  intro entry hentry
  rw [h.appended] at hentry
  rcases List.mem_append.mp hentry with hold | hadded
  · exact htypes entry hold
  · exact (h.formed entry hadded).spelled

namespace Inference

variable {limits : Limits} {levels : Nat} {typeName : String} {conflicts : List String}
  {types types' : Registry} {type : TypeRef}

theorem inferType_spells {value : Json}
    (h : inferType limits levels value typeName conflicts types = .ok (type, types'))
    (htypes : types.Spelled) : types'.Spelled := by
  obtain ⟨added, hadds, -⟩ := inferType_finds (hereditary_all limits) levels trivial h
  exact hadds.spelled htypes

/-- A new object type reads the keys of the object in order, and is spelled by
the rules. -/
theorem objectType_spelled {entries : Entries Json} (hnew : types.has typeName = false)
    (h : objectType (inferType limits levels) entries typeName conflicts types =
      .ok (type, types')) :
    ∃ made, Entries.find? types' typeName = some made ∧ made.keys = Entries.keys entries ∧
      made.Spelled := by
  simp only [objectType, hnew, Bool.false_eq_true, if_false] at h
  split at h
  · obtain ⟨-, rfl⟩ := Prod.mk.inj (Except.ok.inj h)
    exact ⟨_, Entries.find?_put_self _ _ _, rfl, NamedType.spelled_placeholder rfl⟩
  · obtain ⟨⟨given, types₁⟩, hgiven, h⟩ := Outcome.bind_eq_ok_iff.mp h
    obtain ⟨-, rfl⟩ := Prod.mk.inj (Except.ok.inj h)
    have hmade := fields_madeFor hgiven
    exact ⟨_, Entries.find?_put_self _ _ _, NamedType.keys_of_readers hmade.readers,
      NamedType.spelled_of_madeFor hmade⟩

end Inference

namespace InputType

/-- The input type of some properties reads their keys in order, and all that is
registered with it is spelled by the rules. -/
theorem ofProperties_spelled {properties : List (String × Property)} {levels : Nat}
    {typeName name : String} {types types' : Registry}
    (h : ofProperties properties levels typeName types = .ok (name, types')) :
    (∃ made, Entries.find? types' name = some made ∧ made.keys = properties.map Prod.fst ∧
      made.Spelled) ∧ (types.Spelled → types'.Spelled) := by
  obtain ⟨added, hadds, -⟩ :=
    ofProperties_finds (fun _ => True) (fun _ _ => trivial) trivial h
  refine ⟨?_, hadds.spelled⟩
  simp only [ofProperties] at h
  split at h
  · next given types₁ hgiven =>
      obtain ⟨rfl, rfl⟩ := Prod.mk.inj (Except.ok.inj h)
      have hmade := fields_madeFor hgiven
      exact ⟨_, Entries.find?_put_self _ _ _, NamedType.keys_of_readers hmade.readers,
        NamedType.spelled_of_madeFor hmade⟩
  · cases h

end InputType

/-! ### Schemas that are built

The roots have fields with fixed names beside those that they take over from a
type. -/

namespace Schema

variable {limits : Limits} {data : Json} {method path baseName : String} {body : Option Json}
  {schema : Schema}

theorem itemsType_spells {items : List Json} {type : TypeRef} {types : Registry}
    (h : itemsType limits items baseName = .ok (type, types)) : types.Spelled := by
  simp only [itemsType] at h
  split at h
  · obtain ⟨page, -, heq⟩ := Outcome.map_eq_ok_iff.mp h
    obtain ⟨-, rfl⟩ := Prod.mk.inj heq
    exact Registry.spelled_nil
  · exact Inference.inferType_spells h Registry.spelled_nil

theorem spelled_value {field : Field} (hname : field.name = "value")
    (hkeyless : field.reader.key? = none) :
    (queryType [field]).Spelled := by
  refine NamedType.spelled_of_keyless (List.pairwise_singleton _ _) ?_
  intro other hother
  rw [List.mem_singleton.mp hother, hname]
  exact ⟨hkeyless, (selectable_rawField fun _ => True).name, by decide⟩

theorem spelled_page (type : TypeRef) : (queryType [itemsField type, countField]).Spelled := by
  refine NamedType.spelled_of_keyless (show ["items", "_count"].Nodup by decide) ?_
  intro field hfield
  rcases List.mem_pair.mp hfield with rfl | rfl
  · exact ⟨rfl, show Token.IsName "items" from ⟨'i', "tems".toList, rfl, rfl,
      List.all_eq_true.mp rfl⟩,
      show ¬ FieldName.IsReserved "items" by decide⟩
  · exact ⟨rfl, (selectable_countField []).name, by decide⟩

theorem queryRoot_spelled {query : NamedType} {types : Registry}
    (h : queryRoot limits data baseName = .ok (query, types)) : query.Spelled ∧
    types.Spelled := by
  cases data with
  | arr items =>
      obtain ⟨⟨type, types'⟩, htype, heq⟩ := Outcome.map_eq_ok_iff.mp h
      obtain ⟨rfl, rfl⟩ := Prod.mk.inj heq
      exact ⟨spelled_page type, itemsType_spells htype⟩
  | obj entries =>
      obtain ⟨⟨type, types'⟩, htype, heq⟩ := Outcome.map_eq_ok_iff.mp h
      have htypes := Inference.inferType_spells htype Registry.spelled_nil
      simp only at heq
      split at heq
      · next name =>
          obtain ⟨rfl, rfl⟩ := Prod.mk.inj heq
          -- the root takes over the fields of the type that was made for the object
          obtain ⟨hnames, hdistinct, hreserved⟩ := htypes.typeNamed name
          exact ⟨⟨hnames, hdistinct, hreserved⟩, htypes⟩
      · obtain ⟨rfl, rfl⟩ := Prod.mk.inj heq
        exact ⟨spelled_value rfl rfl, htypes⟩
  | _ =>
      obtain ⟨rfl, rfl⟩ := Prod.mk.inj (Except.ok.inj h)
      exact ⟨spelled_value rfl rfl, Registry.spelled_nil⟩

/-- The name of a mutation field begins with a letter. -/
theorem mutationName_free (hwrite : isWrite method = true) :
    ¬ FieldName.IsReserved (mutationField method baseName []).name := by
  rintro ⟨more, heq⟩
  have hhead := congrArg List.head? heq
  have hlower : method.toLower.toList = method.toList.map Char.toLower := String.toList_map
  have hmethod : method ∈ writeMethods := by
    simpa [isWrite] using hwrite
  simp only [writeMethods, List.mem_cons, List.not_mem_nil, or_false] at hmethod
  simp only [mutationField, String.toList_append, hlower] at hhead
  -- no writing method begins with an underscore
  rcases hmethod with rfl | rfl | rfl | rfl <;> cases hhead

theorem spelled_mutation (hwrite : isWrite method = true) (hname : Token.IsName baseName)
    (arguments : List Argument) :
    NamedType.Spelled ⟨"Mutation", [mutationField method baseName arguments], false⟩ := by
  refine NamedType.spelled_of_keyless (List.pairwise_singleton _ _) ?_
  intro field hfield
  rw [List.mem_singleton.mp hfield]
  exact ⟨rfl, (isName_toLower hwrite).join hname, mutationName_free hwrite⟩

/-- All types of a schema that is built are spelled by the rules. -/
theorem spelled_of_build (h : build limits data method path body = .ok schema) :
    schema.types.Spelled ∧ schema.query.Spelled ∧
      ∀ root, schema.mutation = some root → root.Spelled := by
  obtain ⟨types, hroot, hcompleted⟩ := completed_of_build h
  obtain ⟨hquery, htypes⟩ := queryRoot_spelled hroot
  have hresponse := htypes.put hquery "Query"
  -- a mutation root is spelled by its own rule, and its input type by that of
  -- fields
  cases hcompleted with
  | reading _ hnone hregistry =>
      refine ⟨hregistry ▸ hresponse, hquery, ?_⟩
      intro root hsome
      rw [hnone] at hsome
      cases hsome
  | writing hwrite _ hmutation hsome hregistry =>
      obtain ⟨properties, arguments, -, htakes, rfl⟩ := mutationRoot_takes hmutation
      have hspelled := spelled_mutation hwrite
        (TypeName.derive_isName (Text.upper method) path) arguments
      refine ⟨?_, hquery, ?_⟩
      · rw [hregistry]
        apply Registry.Spelled.put _ hspelled
        cases htakes with
        | nothing => exact hresponse
        | input _ hinput => exact (InputType.ofProperties_spelled hinput).2 hresponse
      · intro root hroot
        obtain rfl := Option.some.inj (hsome.symm.trans hroot)
        exact hspelled

/-- The type that is made for the keys of an object, or for the keys of declared
properties, reads these keys in order and is spelled by the rules, and so is
every type that is registered on the way, and every type of a schema that is
built: a name is reserved for the keys of a single symbol after the first of
them, and for no other key. -/
theorem spelled_of_keys (limits : Limits) (types : Registry) (typeName : String) :
    (∀ (levels : Nat) (entries : Entries Json) (conflicts : List String) (types' : Registry)
      (type : TypeRef), types.has typeName = false →
      Inference.objectType (Inference.inferType limits levels) entries typeName conflicts types =
        .ok (type, types') →
      (∃ made, Entries.find? types' typeName = some made ∧ made.keys = Entries.keys entries ∧
        made.Spelled) ∧ (types.Spelled → types'.Spelled)) ∧
    (∀ (properties : List (String × Property)) (levels : Nat) (name : String)
      (types' : Registry),
      InputType.ofProperties properties levels typeName types = .ok (name, types') →
      (∃ made, Entries.find? types' name = some made ∧ made.keys = properties.map Prod.fst ∧
        made.Spelled) ∧ (types.Spelled → types'.Spelled)) ∧
    ∀ (data : Json) (method path : String) (body : Option Json) (schema : Schema),
      build limits data method path body = .ok schema →
      schema.types.Spelled ∧ schema.query.Spelled ∧
        ∀ root, schema.mutation = some root → root.Spelled := by
  refine ⟨?_, ?_, ?_⟩
  · intro levels entries conflicts types' type hnew h
    have hinfer : Inference.inferType limits (levels + 1) (.obj entries) typeName conflicts types =
        .ok (type, types') := h
    exact ⟨Inference.objectType_spelled hnew h, Inference.inferType_spells hinfer⟩
  · intro properties levels name types' h
    exact InputType.ofProperties_spelled h
  · intro data method path body schema h
    exact spelled_of_build h

/-- An object of two symbols, a number and a letter. -/
def symbolsObject : Entries Json :=
  [("-", .int 1), ("1", .int 2), (".", .int 3), ("a", .int 4)]

/-- The declaration of a body with the same keys. -/
def symbolsBody : Json :=
  .obj
    [("properties", .obj (symbolsObject.map fun entry =>
      (entry.1, .obj [("type", .str "integer")])))]

/-- The type of the object: the second of its symbols is shown under a reserved
name. -/
def symbolsType : NamedType :=
  ⟨"T", [("_", "-"), ("_1", "1"), ("__2", "."), ("a", "a")].map fun (name, key) =>
    Inference.typedField name key (.scalar .int), false⟩

theorem spelled_of_keys_symbols :
    (Entries.has ([] : Registry) "T" = false ∧
      Inference.objectType (Inference.inferType {} 3) symbolsObject "T" [] [] =
        .ok (.named "T", [("T", symbolsType)]) ∧
      symbolsType.keys = Entries.keys symbolsObject ∧ symbolsType.Spelled) ∧
    (∃ name types', InputType.ofProperties
        (symbolsObject.map fun entry => (entry.1, .scalar ⟨false, .absent⟩ .int)) 3 "T" [] =
          .ok (name, types') ∧
      ∃ made, Entries.find? types' name = some made ∧ made.keys = ["-", "1", ".", "a"] ∧
        made.Spelled) ∧
    ∃ schema, build {} (.obj symbolsObject) "POST" "/users" (some symbolsBody) = .ok schema ∧
      schema.query.Spelled := by
  have hmade : Inference.objectType (Inference.inferType {} 3) symbolsObject "T" [] [] =
      .ok (.named "T", [("T", symbolsType)]) := by decide +kernel
  obtain ⟨hobject, hproperties, hbuild⟩ := spelled_of_keys {} [] "T"
  refine ⟨?_, ?_, ?_⟩
  · obtain ⟨⟨made, hfound, hkeys, hspelled⟩, -⟩ := hobject _ _ _ _ _ rfl hmade
    obtain rfl := Option.some.inj hfound
    exact ⟨rfl, hmade, hkeys, hspelled⟩
  -- the keys give the same names when they are those of a declared body
  · have hread : (InputType.ofProperties
        (symbolsObject.map fun entry => (entry.1, .scalar ⟨false, .absent⟩ .int)) 3
          "T" []).isOk =
          true := by decide +kernel
    obtain ⟨⟨name, types'⟩, hread⟩ := Outcome.exists_of_isOk hread
    exact ⟨name, types', hread, (hproperties _ _ _ _ hread).1⟩
  · have hbuilt : (build {} (.obj symbolsObject) "POST" "/users" (some symbolsBody)).isOk =
        true := by
      decide +kernel
    obtain ⟨schema, hschema⟩ := Outcome.exists_of_isOk hbuilt
    exact ⟨schema, hschema, (hbuild _ _ _ _ _ hschema).2.1⟩

end Schema

end JsonSelection

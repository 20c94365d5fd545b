import JsonSelection.Proofs.Schema.Building

/-!
# Declared bodies that can be read

Building a schema can only fail at the declared body of a write method. This
module says at which declarations, in terms of the JSON value that was declared.

A declaration cannot be read when it is not an object, when its properties are
given by something else than an object, or when one of them has a flawed
descriptor: the type is an array or an object, or a description is affirmed
without being a text. Nested properties and elements count as long as a level is
left for them. Anything else is read leniently.

## What this module delivers

- `Property.Flawed`: the descriptors for which no input type can be made.
- `InputType.follows`: the input types of a descriptor are made exactly when it
  is not flawed.
- `Body.Unreadable`: the declarations that cannot be read.
- `Schema.builds_iff`: a schema is built exactly when no body has to be read or
  it can be read, and otherwise the error is that of the body.
-/

set_option autoImplicit false

namespace JsonSelection

namespace Property

/-- A value that cannot name a type. A number or a constant names none either,
but is passed over. -/
def Compound : Json → Prop
  | .arr _ => True
  | .obj _ => True
  | _ => False

/-- A descriptor with a description that is affirmed but no text. An empty or
false one counts as none. -/
def Misdescribed (descriptor : Json) : Prop :=
  ∃ entries value, descriptor = .obj entries ∧
    Entries.find? entries "description" = some value ∧
    isAffirmed value = true ∧ ∀ words, value ≠ .str words

/-- A descriptor for which no input type can be made with some levels left. The
fault may lie in a descriptor inside, if a level is left for it. -/
inductive Flawed : Nat → Json → Prop where
  /-- The type itself is no name. -/
  | type {levels : Nat} {entries : List (String × Json)} {value : Json} :
      Entries.find? entries "type" = some value → Compound value → Flawed levels (.obj entries)
  /-- The elements of a list stand on the level of the list. -/
  | element {levels : Nat} {entries : List (String × Json)} {item : Json} :
      Entries.find? entries "type" = some (.str "array") →
      Entries.find? entries "items" = some item → namesType item = true →
      Flawed (levels + 1) item → Flawed (levels + 1) (.obj entries)
  /-- Nested properties stand one level below. -/
  | nested {levels : Nat} {entries members : List (String × Json)} {member : String × Json} :
      Entries.find? entries "type" = some (.str "object") →
      Entries.find? entries "properties" = some (.obj members) → member ∈ members →
      Flawed levels member.2 → Flawed (levels + 1) (.obj entries)
  | described {levels : Nat} {entries members : List (String × Json)} {member : String × Json} :
      Entries.find? entries "type" = some (.str "object") →
      Entries.find? entries "properties" = some (.obj members) → member ∈ members →
      Misdescribed member.2 → Flawed (levels + 1) (.obj entries)

/-- Some descriptors none of which is flawed or misdescribed. -/
def Sound (levels : Nat) (members : List (String × Json)) : Prop :=
  ∀ member ∈ members, ¬ Flawed levels member.2 ∧ ¬ Misdescribed member.2

/-! ### What descriptors say

Descriptors are read as JSON values first, into a `Property`, and input types
are made from what was read. Here the two steps are taken together. -/

theorem nestedIn_eq (entries : List (String × Json)) :
    nestedIn entries = ((Entries.find? entries "properties").map ofMembers).getD [] := by
  induction entries with
  | nil => rfl
  | cons entry rest ih =>
      obtain ⟨key, value⟩ := entry
      rw [nestedIn, Entries.find?, ih]
      split <;> rfl

theorem itemsIn_eq (entries : List (String × Json)) :
    itemsIn entries = (Entries.find? entries "items").bind fun value =>
      if namesType value then some (ofJson value) else none := by
  induction entries with
  | nil => rfl
  | cons entry rest ih =>
      obtain ⟨key, value⟩ := entry
      rw [itemsIn, Entries.find?, ih]
      split <;> rfl

theorem remarks_ofJson (entries : List (String × Json)) :
    (ofJson (.obj entries)).remarks = remarksIn entries := by
  rw [ofJson]
  split
  · rfl
  · rfl
  · split
    · rfl
    · split
      · rfl
      · split <;> rfl
  · rfl

/-- A description is malformed when it is affirmed without being a text. -/
theorem description_malformed_iff (descriptor : Json) :
    (ofJson descriptor).remarks.description = .malformed ↔ Misdescribed descriptor := by
  cases descriptor with
  | obj entries =>
      rw [remarks_ofJson, remarksIn, descriptionIn]
      constructor
      · intro h
        cases hfind : Entries.find? entries "description" with
        | none =>
            rw [hfind] at h
            cases h
        | some value =>
            simp only [hfind] at h
            split at h
            · next haffirmed =>
                -- a text would be the description itself
                refine ⟨entries, value, rfl, hfind, haffirmed, ?_⟩
                rintro words rfl
                cases h
            · cases h
      · rintro ⟨_, value, ⟨⟩, hfind, haffirmed, hwords⟩
        simp only [hfind, haffirmed, if_true]
  | _ =>
      constructor
      · intro h
        cases h
      · rintro ⟨entries, value, heq, -⟩
        cases heq

end Property

namespace InputType

open Property

/-- A description only fails to be given when it is malformed. -/
theorem isOk_describe_iff (description : Description) (name key : String) :
    (describe description name key).isOk = true ↔ description ≠ .malformed := by
  cases description with
  | malformed => simp [describe, Except.isOk, Except.toBool]
  | absent => simp [describe, Except.isOk, Except.toBool]
  | text words => simp [describe, Except.isOk, Except.toBool]

/-- The input types of a descriptor at some level are made exactly when it is
not flawed. -/
def Follows (levels : Nat) (descriptor : Json) : Prop :=
  ∀ typeName types, (ofProperty (ofJson descriptor) levels typeName types).isOk = true ↔
    ¬ Flawed levels descriptor

/-- Input fields are made exactly for descriptors that are sound. -/
theorem isOk_fields_iff {levels : Nat} {members : List (String × Json)}
    (hmembers : ∀ member ∈ members, Follows levels member.2) (typeName : String)
    (used : List String) (types : Registry) :
    (fields typeName used (ofEntries members) levels types).isOk = true ↔
    Sound levels members := by
  induction members generalizing used types with
  | nil =>
      rw [ofEntries, fields]
      exact iff_of_true rfl (List.forall_mem_nil _)
  | cons member rest ih =>
      obtain ⟨key, value⟩ := member
      have hvalue := hmembers _ List.mem_cons_self
      have hrest := ih fun member hmember => hmembers member (List.mem_cons_of_mem _ hmember)
      rw [ofEntries, fields, Sound, List.forall_mem_cons]
      cases hproperty : ofProperty (ofJson value) levels
          (typeName ++ "_" ++ FieldName.fresh used (FieldName.sanitize key)) types with
      | error error =>
          -- the descriptor is flawed
          refine ⟨fun hok => absurd hok Bool.false_ne_true, fun hsound => ?_⟩
          have hok := (hvalue (typeName ++ "_" ++ FieldName.fresh used (FieldName.sanitize key))
            types).mpr hsound.1.1
          rw [hproperty] at hok
          cases hok
      | ok typed =>
          obtain ⟨type, types₁⟩ := typed
          have hflawed : ¬ Flawed levels value := by
            apply (hvalue (typeName ++ "_" ++ FieldName.fresh used (FieldName.sanitize key))
              types).mp
            rw [hproperty]
            rfl
          have hdescribe := isOk_describe_iff (ofJson value).remarks.description
            (FieldName.fresh used (FieldName.sanitize key)) key
          rw [Ne, description_malformed_iff] at hdescribe
          cases hdescription : describe (ofJson value).remarks.description
              (FieldName.fresh used (FieldName.sanitize key)) key with
          | error error =>
              rw [hdescription] at hdescribe
              exact iff_of_false Bool.false_ne_true fun hsound =>
                Bool.false_ne_true (hdescribe.mpr hsound.1.2)
          | ok description =>
              rw [hdescription] at hdescribe
              dsimp only
              have hothers := hrest (used ++ [FieldName.fresh used (FieldName.sanitize key)])
                types₁
              cases hfields :
                fields typeName (used ++ [FieldName.fresh used (FieldName.sanitize key)])
                  (ofEntries rest) levels types₁ with
              | error error =>
                  rw [hfields] at hothers
                  refine ⟨fun hok => absurd hok Bool.false_ne_true, fun hsound => ?_⟩
                  have hok := hothers.mpr hsound.2
                  cases hok
              | ok given =>
                  rw [hfields] at hothers
                  obtain ⟨others, types₂⟩ := given
                  exact ⟨fun _ => ⟨⟨hflawed, hdescribe.mp rfl⟩, hothers.mp rfl⟩,
                    fun _ => rfl⟩

/-- A descriptor whose type is neither a list of names nor a nested object is
not flawed, unless the type is compound. -/
theorem not_flawed_of_type {levels : Nat} {entries : List (String × Json)}
    (h : ∀ value, Entries.find? entries "type" = some value →
      ¬ Compound value ∧ value ≠ .str "array" ∧ value ≠ .str "object") :
    ¬ Flawed levels (.obj entries) := by
  intro hflawed
  cases hflawed with
  | type htype hcompound => exact (h _ htype).1 hcompound
  | element htype _ _ _ => exact (h _ htype).2.1 rfl
  | nested htype _ _ _ => exact (h _ htype).2.2 rfl
  | described htype _ _ _ => exact (h _ htype).2.2 rfl

/-- With no level left only the type of a descriptor itself is looked at. -/
theorem not_flawed_zero {entries : List (String × Json)} {name : String}
    (h : Entries.find? entries "type" = some (.str name)) : ¬ Flawed 0 (.obj entries) := by
  intro hflawed
  cases hflawed with
  | type htype hcompound =>
      rw [h] at htype
      obtain rfl := Option.some.inj htype
      exact hcompound

/-- A list is as good as the descriptor of its elements. -/
theorem not_flawed_array_iff {levels : Nat} {entries : List (String × Json)}
    (h : Entries.find? entries "type" = some (.str "array")) :
    ¬ Flawed (levels + 1) (.obj entries) ↔ ∀ item,
    Entries.find? entries "items" = some item →
      namesType item = true → ¬ Flawed (levels + 1) item := by
  constructor
  · intro hsound item hitem hnames hflawed
    exact hsound (.element h hitem hnames hflawed)
  · intro hitems hflawed
    -- the type is known, so only elements can be at fault
    cases hflawed with
    | type htype hcompound =>
        rw [h] at htype
        obtain rfl := Option.some.inj htype
        exact hcompound.elim
    | element _ hitem hnames hflawed => exact hitems _ hitem hnames hflawed
    | nested htype _ _ _ =>
        rw [h] at htype
        exact absurd (Json.str.inj (Option.some.inj htype)) (by decide)
    | described htype _ _ _ =>
        rw [h] at htype
        exact absurd (Json.str.inj (Option.some.inj htype)) (by decide)

/-- A nested object is as good as the descriptors of its properties. -/
theorem not_flawed_object_iff {levels : Nat} {entries : List (String × Json)}
    (h : Entries.find? entries "type" = some (.str "object")) :
    ¬ Flawed (levels + 1) (.obj entries) ↔ ∀ members,
      Entries.find? entries "properties" = some (.obj members) → Sound levels members := by
  constructor
  · intro hsound members hmembers member hmember
    constructor
    · exact fun hflawed => hsound (.nested h hmembers hmember hflawed)
    · exact fun hdescribed => hsound (.described h hmembers hmember hdescribed)
  · intro hnested hflawed
    -- the type is known, so only nested properties can be at fault
    cases hflawed with
    | type htype hcompound =>
        rw [h] at htype
        obtain rfl := Option.some.inj htype
        exact hcompound.elim
    | element htype _ _ _ =>
        rw [h] at htype
        exact absurd (Json.str.inj (Option.some.inj htype)) (by decide)
    | nested _ hmembers hmember hflawed => exact (hnested _ hmembers _ hmember).1 hflawed
    | described _ hmembers hmember hdescribed => exact (hnested _ hmembers _ hmember).2 hdescribed

theorem isOk_array (remarks : Remarks) (item : Property) (levels : Nat) (typeName : String)
    (types : Registry) :
    (ofProperty (.array remarks (some item)) (levels + 1) typeName types).isOk =
      (ofProperty item (levels + 1) (typeName ++ "_Item") types).isOk := by
  rw [ofProperty]
  cases ofProperty item (levels + 1) (typeName ++ "_Item") types <;> rfl

/-- The list type of a descriptor is made when the type of its elements is. -/
theorem follows_array {levels : Nat} {entries : List (String × Json)}
    (h : Entries.find? entries "type" = some (.str "array"))
    (hitem : ∀ item, Entries.find? entries "items" = some item → Follows levels item) :
    Follows levels (.obj entries) := by
  intro typeName types
  have hread : ofJson (.obj entries) = .array (remarksIn entries) (itemsIn entries) := by
    rw [ofJson, h]
    rfl
  rw [hread, itemsIn_eq]
  cases levels with
  | zero => exact ⟨fun _ => not_flawed_zero h, fun _ => rfl⟩
  | succ levels =>
      rw [not_flawed_array_iff h]
      cases hfind : Entries.find? entries "items" with
      | none =>
          refine ⟨?_, fun _ => rfl⟩
          intro _ item hnone
          cases hnone
      | some item =>
          rw [Option.bind_some]
          cases hnames : namesType item with
          | false =>
              -- elements without a type are raw JSON
              refine ⟨?_, fun _ => rfl⟩
              rintro _ _ ⟨⟩ htrue
              rw [hnames] at htrue
              cases htrue
          | true =>
              rw [if_pos rfl, isOk_array, hitem item hfind]
              constructor
              · rintro hsound _ ⟨⟩ -
                exact hsound
              · intro hitems
                exact hitems item rfl hnames

theorem isOk_object (remarks : Remarks) (property : String × Property)
    (rest : List (String × Property)) (levels : Nat) (typeName : String) (types : Registry) :
    (ofProperty (.object remarks (property :: rest)) (levels + 1) typeName types).isOk =
      (ofProperties (property :: rest) levels typeName types).isOk := by
  simp only [ofProperty, ofProperties]
  split <;> rfl

/-- An input type is made exactly for descriptors that are sound. -/
theorem isOk_ofProperties_iff {levels : Nat} {members : List (String × Json)}
    (hmembers : ∀ member ∈ members, Follows levels member.2) (typeName : String)
    (types : Registry) :
    (ofProperties (ofEntries members) levels typeName types).isOk = true ↔
    Sound levels members := by
  rw [← isOk_fields_iff hmembers (FieldName.fresh types.keys typeName) []
    (Entries.put types (FieldName.fresh types.keys typeName)
      ⟨FieldName.fresh types.keys typeName, [], true⟩)]
  simp only [ofProperties]
  split
  · next hfields => rw [hfields]; exact Iff.rfl
  · next hfields => rw [hfields]; exact Iff.rfl

/-- The input type of a descriptor is made when those of its properties are. -/
theorem follows_object {levels : Nat} {entries : List (String × Json)}
    (h : Entries.find? entries "type" = some (.str "object"))
    (hmembers : ∀ members, Entries.find? entries "properties" = some (.obj members) →
      ∀ member ∈ members, ∀ levels, Follows levels member.2) : Follows levels
        (.obj entries) := by
  intro typeName types
  have hread : ofJson (.obj entries) = .object (remarksIn entries) (nestedIn entries) := by
    rw [ofJson, h]
    rfl
  rw [hread, nestedIn_eq]
  cases levels with
  | zero => exact ⟨fun _ => not_flawed_zero h, fun _ => rfl⟩
  | succ levels =>
      rw [not_flawed_object_iff h]
      -- without properties there is no member that could be flawed
      cases hfind : Entries.find? entries "properties" with
      | none =>
          refine ⟨?_, fun _ => rfl⟩
          intro _ members hnone
          cases hnone
      | some value =>
          cases value with
          | obj members =>
              have hsound := isOk_ofProperties_iff
                (fun member hmember => hmembers members hfind member hmember levels) typeName types
              have hiff : (∀ others, some (Json.obj members) = some (.obj others) →
                  Sound levels others) ↔ Sound levels members := by
                constructor
                · exact fun hall => hall members rfl
                · rintro hmembers _ ⟨⟩
                  exact hmembers
              rw [hiff, ← hsound]
              cases members with
              | nil => exact ⟨fun _ => rfl, fun _ => rfl⟩
              | cons member rest =>
                  rw [Option.map_some, Option.getD_some, ofMembers, ofEntries, isOk_object]
          | _ =>
              refine ⟨?_, fun _ => rfl⟩
              intro _ members hother
              cases hother

/-- A descriptor that names a scalar, and one that names no type, is read as it is. -/
theorem follows_other {levels : Nat} {entries : List (String × Json)}
    (h : ∀ value, Entries.find? entries "type" = some value →
      ¬ Compound value ∧ value ≠ .str "array" ∧ value ≠ .str "object") :
    Follows levels (.obj entries) := by
  intro typeName types
  refine ⟨fun _ => not_flawed_of_type h, fun _ => ?_⟩
  rw [ofJson]
  -- whatever is no name of a nested type is read without looking further
  split
  · next htype => exact ((h _ htype).1 trivial).elim
  · next htype => exact ((h _ htype).1 trivial).elim
  · next name htype =>
      obtain ⟨-, harray, hobject⟩ := h _ htype
      split
      · rw [ofProperty]
        rfl
      · rw [if_neg fun heq => hobject (congrArg Json.str heq),
          if_neg fun heq => harray (congrArg Json.str heq)]
        cases levels <;> rfl
  · cases levels <;> rfl

theorem follows_compound {levels : Nat} {entries : List (String × Json)} {value : Json}
    (h : Entries.find? entries "type" = some value) (hcompound : Compound value) :
    Follows levels (.obj entries) := by
  intro typeName types
  have hread : ofJson (.obj entries) = .malformed (remarksIn entries) := by
    rw [ofJson, h]
    cases value with
    | arr items => rfl
    | obj members => rfl
    | _ => exact hcompound.elim
  rw [hread]
  refine ⟨fun hok => ?_, fun hsound => absurd (.type h hcompound) hsound⟩
  cases levels <;> cases hok

theorem sizeOf_find? {entries : List (String × Json)} {key : String} {value : Json}
    (h : Entries.find? entries key = some value) : sizeOf value < sizeOf (Json.obj entries) := by
  have hmem := List.sizeOf_lt_of_mem (Entries.mem_of_find? h)
  simp only [Prod.mk.sizeOf_spec] at hmem
  simp only [Json.obj.sizeOf_spec]
  omega

theorem sizeOf_member {entries members : List (String × Json)} {key : String}
    {member : String × Json} (h : Entries.find? entries key = some (.obj members))
    (hmember : member ∈ members) :
    sizeOf member.2 < sizeOf (Json.obj entries) := by
  obtain ⟨name, value⟩ := member
  have hmembers := sizeOf_find? h
  have hvalue := List.sizeOf_lt_of_mem hmember
  simp only [Prod.mk.sizeOf_spec] at hvalue
  simp only [Json.obj.sizeOf_spec] at hmembers ⊢
  omega

/-- The input type of a descriptor is made exactly when it is not flawed. -/
theorem follows (descriptor : Json) (levels : Nat) : Follows levels descriptor := by
  -- elements keep the level, so the induction is on the size of the descriptor
  induction hsize : sizeOf descriptor using Nat.strongRecOn generalizing descriptor levels with
  | ind size ih =>
      subst hsize
      cases descriptor with
      | obj entries =>
          cases htype : Entries.find? entries "type" with
          | none => exact follows_other (by simp [htype])
          | some value =>
              by_cases hcompound : Compound value
              · exact follows_compound htype hcompound
              by_cases harray : value = .str "array"
              · rw [harray] at htype
                apply follows_array htype
                intro item hitem
                exact ih (sizeOf item) (sizeOf_find? hitem) item levels rfl
              by_cases hobject : value = .str "object"
              · rw [hobject] at htype
                apply follows_object htype
                intro members hmembers member hmember levels'
                exact ih (sizeOf member.2) (sizeOf_member hmembers hmember) member.2 levels' rfl
              · apply follows_other
                intro other hother
                rw [htype] at hother
                obtain rfl := Option.some.inj hother
                exact ⟨hcompound, harray, hobject⟩
      | _ =>
          intro typeName types
          refine ⟨fun _ hflawed => (nomatch hflawed), fun _ => ?_⟩
          cases levels <;> rfl

end InputType

namespace Body

open Property

/-- A declaration whose properties cannot be read. The first fault is the one
that is reported, but any of them is enough. -/
inductive Unreadable (limits : Limits) : Json → Prop where
  | kind {declaration : Json} : declaration.kind ≠ .object → Unreadable limits declaration
  | properties {entries : List (String × Json)} {value : Json} :
      Entries.find? entries "properties" = some value → value.kind ≠ .object →
      isAffirmed value = true → Unreadable limits (.obj entries)
  | member {entries members : List (String × Json)} :
      Entries.find? entries "properties" = some (.obj members) →
      ¬ Sound (limits.inputLevelsFrom 1) members → Unreadable limits (.obj entries)

/-- The body that a JSON value declares: `null` stands for no body. -/
def given? : Json → Option Json
  | .null => none
  | value => some value

end Body

namespace Schema

open Property

variable {limits : Limits}

theorem isOk_mutationRoot_of_properties (limits : Limits) (method baseName : String)
    {declaration : Json} {properties : List (String × Property)} (types : Registry)
    (h : Body.properties declaration = .ok properties) :
    (mutationRoot limits method baseName declaration types).isOk = true ↔ properties = [] ∨
      (InputType.ofProperties properties (limits.inputLevelsFrom 1)
        (baseName ++ "_Input") types).isOk =
        true := by
  rw [mutationRoot, h, Outcome.ok_bind]
  cases properties with
  | nil => exact ⟨fun _ => Or.inl rfl, fun _ => rfl⟩
  | cons property rest =>
      cases InputType.ofProperties (property :: rest) (limits.inputLevelsFrom 1)
          (baseName ++ "_Input") types with
      | error error =>
          exact ⟨fun hok => (nomatch hok), fun hok => hok.elim (nomatch ·) (nomatch ·)⟩
      | ok input => exact ⟨fun _ => Or.inr rfl, fun _ => rfl⟩

theorem isOk_mutationRoot_of_error (limits : Limits) (method baseName : String) {declaration : Json}
    {error : BodyError} (types : Registry) (h : Body.properties declaration = .error error) :
    (mutationRoot limits method baseName declaration types).isOk = false := by
  rw [mutationRoot, h]
  rfl

/-- A declaration that lists its properties by an object can be read when these
are sound. -/
theorem unreadable_members_iff {entries members : List (String × Json)}
    (h : Entries.find? entries "properties" = some (.obj members)) :
    Body.Unreadable limits (.obj entries) ↔ ¬ Sound (limits.inputLevelsFrom 1) members := by
  constructor
  · intro hunreadable
    cases hunreadable with
    | kind hkind => exact absurd rfl hkind
    | properties hother hkind _ =>
        rw [h] at hother
        obtain rfl := Option.some.inj hother
        exact absurd rfl hkind
    | member hother hunsound =>
        rw [h] at hother
        obtain rfl := Json.obj.inj (Option.some.inj hother)
        exact hunsound
  · exact fun hunsound => .member h hunsound

/-- Any other declaration that is an object can be read unless its properties
are affirmed. -/
theorem unreadable_other_iff {entries : List (String × Json)}
    (h : ∀ members, Entries.find? entries "properties" ≠ some (.obj members)) :
    Body.Unreadable limits (.obj entries) ↔
      (Entries.find? entries "properties").any isAffirmed = true := by
  constructor
  · intro hunreadable
    cases hunreadable with
    | kind hkind => exact absurd rfl hkind
    | properties hfind _ haffirmed =>
        rw [hfind]
        exact haffirmed
    -- there is no object in which a member could be found
    | member hfind _ => exact absurd hfind (h _)
  · intro haffirmed
    cases hfind : Entries.find? entries "properties" with
    | none =>
        rw [hfind] at haffirmed
        cases haffirmed
    | some value =>
        rw [hfind] at haffirmed
        refine .properties hfind ?_ haffirmed
        intro hkind
        cases value with
        | obj members => exact h members hfind
        | _ => cases hkind

theorem properties_other {entries : List (String × Json)}
    (h : ∀ members, Entries.find? entries "properties" ≠ some (.obj members)) :
    Body.properties (.obj entries) =
      if (Entries.find? entries "properties").any isAffirmed then .error .propertiesNotAnObject
      else .ok [] := by
  rw [Body.properties]
  cases hfind : Entries.find? entries "properties" with
  | none => rfl
  | some value =>
      cases value with
      | obj members => exact absurd hfind (h members)
      | _ => rfl

/-- The mutation root of a declaration is made exactly when the declaration can
be read. -/
theorem isOk_mutationRoot_iff (limits : Limits) (method baseName : String) (declaration : Json)
    (types : Registry) :
    (mutationRoot limits method baseName declaration types).isOk = true ↔
      ¬ Body.Unreadable limits declaration := by
  cases hkind : declaration with
  | obj entries =>
      by_cases hobject : ∃ members, Entries.find? entries "properties" = some (.obj members)
      · obtain ⟨members, hmembers⟩ := hobject
        have hread : Body.properties (.obj entries) = .ok (ofEntries members) := by
          rw [Body.properties, hmembers]
        have hfollows : ∀ member ∈ members,
            InputType.Follows (limits.inputLevelsFrom 1) member.2 :=
          fun member _ => InputType.follows member.2 _
        rw [unreadable_members_iff hmembers, isOk_mutationRoot_of_properties limits method
          baseName types
          hread, InputType.isOk_ofProperties_iff hfollows, Classical.not_not]
        constructor
        -- no input type is made without members, and then none is unsound
        · rintro (hnone | hsound)
          · cases members with
            | nil => exact fun _ hmember => (nomatch hmember)
            | cons member rest => cases hnone
          · exact hsound
        · exact Or.inr
      · have hother : ∀ members, Entries.find? entries "properties" ≠ some (.obj members) :=
          fun members hmembers => hobject ⟨members, hmembers⟩
        have hread := properties_other hother
        rw [unreadable_other_iff hother]
        -- properties that are not an object count only if they are affirmed
        cases haffirmed : (Entries.find? entries "properties").any isAffirmed with
        | true =>
            rw [haffirmed, if_pos rfl] at hread
            rw [isOk_mutationRoot_of_error limits method baseName types hread]
            simp
        | false =>
            rw [haffirmed, if_neg Bool.false_ne_true] at hread
            simp [isOk_mutationRoot_of_properties limits method baseName types hread]
  | _ =>
      have hunreadable : ∀ {value : Json}, value.kind ≠ .object →
          Body.Unreadable limits value := .kind
      rw [isOk_mutationRoot_of_error limits method baseName types rfl]
      exact ⟨fun hok => (nomatch hok), fun hread =>
        absurd (hunreadable (by simp [Json.kind])) hread⟩

/-- Without a mutation a schema is always built. -/
theorem build_of_reading (hunit : limits.charsPerUnit ≠ 0) (data : Json) (method path : String)
    {body : Option Json} (h : isWrite (Text.upper method) = true → body = none) :
    ∃ schema, build limits data method path body = .ok schema := by
  simp only [build, queryRoot_eq_shared hunit, Outcome.mapError_ok, Outcome.ok_bind]
  split
  · next declaration =>
      split
      · next hwrite => cases h hwrite
      · exact ⟨_, rfl⟩
  · exact ⟨_, rfl⟩

/-- With a mutation a schema is built when its mutation root is. -/
theorem build_of_writing {data : Json} {method path : String} {query : NamedType} {types : Registry}
    (hquery : queryRoot limits data (TypeName.derive (Text.upper method) path) = .ok (query, types))
    (hwrite : isWrite (Text.upper method) = true) (declaration : Json) :
    build limits data method path (some declaration) =
      ((mutationRoot limits (Text.upper method)
        (TypeName.derive (Text.upper method) path) declaration
        (Entries.put types "Query" query)).mapError BuildError.body).map fun root =>
          ⟨Entries.put root.2 "Mutation" root.1, query, some root.1,
            TypeName.derive (Text.upper method) path, Text.upper method, path⟩ := by
  simp only [build, hquery, Outcome.mapError_ok, Outcome.ok_bind, if_pos hwrite]
  cases mutationRoot limits (Text.upper method)
    (TypeName.derive (Text.upper method) path) declaration
    (Entries.put types "Query" query) <;> rfl

/-- A schema is built from every response and every operation, except for a
declared body of a write method that cannot be read; then the error is that of
the body. -/
theorem builds_iff (hunit : limits.charsPerUnit ≠ 0) (data : Json) (method path : String)
    (value : Json) :
    ((∃ schema, build limits data method path (Body.given? value) = .ok schema) ↔
      (isWrite (Text.upper method) = true → value = .null ∨
        ¬ Body.Unreadable limits value)) ∧
      ∀ error, build limits data method path (Body.given? value) = .error error →
        ∃ reason, error = .body reason := by
  by_cases hreading : isWrite (Text.upper method) = true → value = .null
  · -- nothing is declared, or the declaration is not looked at
    have hnone : isWrite (Text.upper method) = true → Body.given? value = none := by
      intro hwrite
      rw [hreading hwrite]
      rfl
    obtain ⟨schema, hschema⟩ := build_of_reading hunit data method path hnone
    refine ⟨⟨fun _ hwrite => Or.inl (hreading hwrite), fun _ => ⟨schema, hschema⟩⟩, ?_⟩
    intro error herror
    rw [hschema] at herror
    cases herror
  · obtain ⟨hwrite, hnull⟩ := Classical.not_imp.mp hreading
    have hgiven : Body.given? value = some value := by
      cases value with
      | null => exact absurd rfl hnull
      | _ => rfl
    obtain ⟨query, types, hquery⟩ : ∃ query types,
        queryRoot limits data (TypeName.derive (Text.upper method) path) = .ok (query, types) :=
      ⟨_, _, queryRoot_eq_shared hunit data _⟩
    have hroot := isOk_mutationRoot_iff limits (Text.upper method)
      (TypeName.derive (Text.upper method) path) value (Entries.put types "Query" query)
    rw [hgiven, build_of_writing hquery hwrite value]
    cases hmutation : mutationRoot limits (Text.upper method)
        (TypeName.derive (Text.upper method) path) value (Entries.put types "Query" query) with
    | error reason =>
        rw [hmutation] at hroot
        refine ⟨⟨?_, ?_⟩, ?_⟩
        · rintro ⟨schema, hschema⟩
          cases hschema
        · intro hread
          have hok := hroot.mpr ((hread hwrite).resolve_left hnull)
          cases hok
        · intro error herror
          exact ⟨reason, (Except.error.inj herror).symm⟩
    | ok root =>
        rw [hmutation] at hroot
        refine ⟨⟨fun _ _ => Or.inr (hroot.mp rfl), fun _ => ⟨_, rfl⟩⟩, ?_⟩
        intro error herror
        cases herror

/-- A nullable type, written as a list of names, cannot be read; without it the
body can. -/
theorem builds_iff_nullable :
    (¬ ∃ schema, build {} (.obj [("id", .int 1)]) "POST" "/users"
      (Body.given? (.obj [("properties",
        .obj [("name", .obj [("type", .arr [.str "string", .str "null"])])])])) = .ok schema) ∧
      ∃ schema, build {} (.obj [("id", .int 1)]) "POST" "/users"
        (Body.given? (.obj [("properties", .obj [("name", .obj [])])])) = .ok schema := by
  have hunit : ({} : Limits).charsPerUnit ≠ 0 := by decide
  have hwrite : isWrite (Text.upper "POST") = true := by decide +kernel
  constructor
  · rw [(builds_iff hunit _ _ _ _).1]
    intro hread
    rcases hread hwrite with hnull | hreadable
    · cases hnull
    -- the type of the member is a list, which is no name
    · apply hreadable
      refine .member rfl fun hsound => ?_
      exact (hsound _ List.mem_cons_self).1 (.type rfl trivial)
  · rw [(builds_iff hunit _ _ _ _).1]
    intro _
    right
    rw [unreadable_members_iff rfl, Classical.not_not]
    intro member hmember
    rw [List.mem_singleton.mp hmember]
    refine ⟨InputType.not_flawed_of_type (fun value htype => (nomatch htype)), ?_⟩
    rintro ⟨entries, value, ⟨⟩, hfind, -⟩
    cases hfind

end Schema

end JsonSelection

import JsonSelection.Proofs.Entries
import JsonSelection.Proofs.Outcome
import JsonSelection.Query.Argument
import Mathlib.Data.List.Forall2

/-!
# Literals that fit a type

A literal is accepted for the type of an argument exactly if it fits the type,
whatever path it is checked under.

## What this module delivers

- `Argument.Fits`: the literals that fit a type. `null` fits every type that
  does not exclude it, a single value stands for a list of one, and an object
  literal names fields of the type only and gives those that exclude `null`.
- `Argument.isOk_coerce_iff`: these are the literals that are accepted.
- `Argument.coerce_object_eq_ok`: an accepted object literal becomes an object
  that its given fields write, in the order of the type.

Which error a literal is refused with is not said; it depends on the path and on
the order in which the fields are checked.
-/

set_option autoImplicit false

namespace JsonSelection

namespace Argument

/-- The literals that fit a type. `null` fits every type that does not exclude
it, and a single value stands for the list of it alone. The object literals of a
type name fields of the type only, have all those that exclude `null`, and give
each field a literal that fits it. -/
inductive Fits (schema : Schema) : TypeRef → Json → Prop where
  | null {type : TypeRef} : isRequired type = false → Fits schema type .null
  | nonNull {inner : TypeRef} {literal : Json} : literal.isNull = false →
      Fits schema inner literal →
      Fits schema (.nonNull inner) literal
  | json {literal : Json} : Fits schema .json literal
  | scalar {type : Scalar} {literal : Json} : fits type literal = true →
      Fits schema (.scalar type) literal
  | list {item : TypeRef} {page : Option Int} {items : List Json} :
      (∀ element ∈ items, Fits schema item element) →
      Fits schema (.list item page) (.arr items)
  | single {item : TypeRef} {page : Option Int} {literal : Json} : literal.isNull = false →
      literal.items? = none → Fits schema item literal → Fits schema (.list item page) literal
  | object {name : String} {entries : Entries Json} :
      (∀ key ∈ Entries.keys entries, key ∈ (schema.typeNamed name).fieldNames) →
      (∀ field ∈ (schema.typeNamed name).fields, isRequired field.type = true →
        Entries.has entries field.name = true) →
      (∀ field ∈ (schema.typeNamed name).fields, ∀ literal,
        Entries.find? entries field.name = some literal → Fits schema field.type literal) →
      Fits schema (.named name) (.obj entries)

variable {schema : Schema} {path : ResponsePath}

/-! ### What fits each kind of type -/

theorem fits_nonNull_iff {inner : TypeRef} {literal : Json} :
    Fits schema (.nonNull inner) literal ↔ literal.isNull = false ∧
    Fits schema inner literal := by
  constructor
  · intro h
    cases h with
    | null hrequired => cases hrequired
    | nonNull hliteral hinner => exact ⟨hliteral, hinner⟩
  · rintro ⟨hliteral, hinner⟩
    exact .nonNull hliteral hinner

theorem fits_scalar_iff {type : Scalar} {literal : Json} (hliteral : literal.isNull = false) :
    Fits schema (.scalar type) literal ↔ fits type literal = true := by
  constructor
  · intro h
    cases h with
    | null _ => cases hliteral
    | scalar hfits => exact hfits
  · exact .scalar

theorem fits_list_iff {item : TypeRef} {page : Option Int} {items : List Json} :
    Fits schema (.list item page) (.arr items) ↔ ∀ element ∈ items,
    Fits schema item element := by
  constructor
  · intro h
    cases h with
    | list helements => exact helements
    | single _ hitems _ => cases hitems
  · exact .list

theorem fits_single_iff {item : TypeRef} {page : Option Int} {literal : Json}
    (hliteral : literal.isNull = false) (hitems : literal.items? = none) :
    Fits schema (.list item page) literal ↔ Fits schema item literal := by
  constructor
  · intro h
    cases h with
    | null _ => cases hliteral
    | list _ => cases hitems
    | single _ _ hitem => exact hitem
  · exact .single hliteral hitems

theorem not_fits_named {name : String} {literal : Json} (hliteral : literal.isNull = false)
    (hentries : literal.entries? = none) : ¬ Fits schema (.named name) literal := by
  intro h
  cases h with
  | null _ => cases hliteral
  | object _ _ _ => cases hentries

/-! ### Checking a literal -/

/-- A literal that is not `null` is checked against a type as its elements and
its entries are checked. -/
theorem isOk_coerceWith_iff {literal : Json} (hliteral : literal.isNull = false)
    {elements? : Option (TypeRef → Except QueryError (List Json))}
    {object : String → Except QueryError Json}
    (hsingle : elements? = none → literal.items? = none)
    (helements : ∀ elements, elements? = some elements → ∃ items, literal = .arr items ∧
      ∀ item, (elements item).isOk = true ↔ ∀ element ∈ items, Fits schema item element)
    (hobject : ∀ name, (object name).isOk = true ↔ Fits schema (.named name) literal)
    (type : TypeRef) :
    (coerceWith literal path elements? object type).isOk = true ↔ Fits schema type literal := by
  -- the literal is the same at each type inside, so the induction is on the type alone
  induction type with
  | scalar type =>
      rw [coerceWith, hliteral, fits_scalar_iff hliteral]
      cases hfits : fits type literal with
      | true => exact ⟨fun _ => rfl, fun _ => rfl⟩
      | false => exact iff_of_false (Outcome.not_isOk_error _) Bool.false_ne_true
  | json => exact ⟨fun _ => .json, fun _ => rfl⟩
  | nonNull inner ih =>
      rw [coerceWith, hliteral, fits_nonNull_iff, ← ih]
      exact ⟨fun h => ⟨hliteral, h⟩, And.right⟩
  | named name =>
      rw [coerceWith, hliteral]
      exact hobject name
  | list item page ih =>
      cases elements? with
      | none =>
          rw [fits_single_iff hliteral (hsingle rfl), ← ih]
          simp only [coerceWith, hliteral, Bool.false_eq_true, if_false, Outcome.isOk_map]
      | some elements =>
          obtain ⟨items, rfl, hitems⟩ := helements elements rfl
          rw [fits_list_iff, ← hitems item]
          simp only [coerceWith, hliteral, Bool.false_eq_true, if_false, Outcome.isOk_map]

/-- `null` is accepted by every type that does not exclude it. -/
theorem isOk_coerce_null_iff (type : TypeRef) :
    (coerce schema .null path type).isOk = true ↔ Fits schema type .null := by
  cases type with
  | nonNull inner =>
      constructor
      · intro h
        cases h
      · intro h
        cases h with
        | null hrequired => cases hrequired
        | nonNull hliteral _ => cases hliteral
  | _ => exact ⟨fun _ => .null rfl, fun _ => rfl⟩

/-- A literal without elements and entries is accepted by no object type. -/
theorem isOk_coerce_plain_iff {literal : Json} (hliteral : literal.isNull = false)
    (hitems : literal.items? = none) (hentries : literal.entries? = none) (type : TypeRef) :
    (coerce schema literal path type).isOk = true ↔ Fits schema type literal := by
  have hcoerce : coerce schema literal path type = coerceWith literal path none
      (fun name => .error (.notAnObject path (schema.typeNamed name).name)) type := by
    cases literal with
    | arr items => cases hitems
    | obj entries => cases hentries
    | _ => rfl
  rw [hcoerce]
  apply isOk_coerceWith_iff hliteral
  · exact fun _ => hitems
  · intro elements heq
    cases heq
  · intro name
    exact iff_of_false (Outcome.not_isOk_error _) (not_fits_named hliteral hentries)

/-! ### Checking the entries of an object

The entries are checked in the order of the fields and not in that of the
literal. So each field looks its literal up, and a field without one must not be
required. -/

/-- The check of the literal that an object literal gives for a name. -/
def entryCheck (schema : Schema) (entries : Entries Json) (name : String) (path : ResponsePath)
    (type : TypeRef) : Option (Except QueryError Json) :=
  (Entries.find? entries name).map fun literal => coerce schema literal path type

theorem coerceEntry?_eq (entries : List (String × Json)) (name : String) (path : ResponsePath)
    (type : TypeRef) :
    coerceEntry? schema entries name path type = entryCheck schema entries name path type := by
  induction entries with
  | nil => rfl
  | cons entry rest ih =>
      obtain ⟨key, literal⟩ := entry
      rw [entryCheck, coerceEntry?, Entries.find?]
      split
      · rfl
      · exact ih

/-- An object literal is checked entry by entry. -/
theorem coerce_obj (entries : List (String × Json)) (type : TypeRef) :
    coerce schema (.obj entries) path type =
      coerceWith (.obj entries) path none
        (fun name => coerceObject (schema.typeNamed name) path (Entries.keys entries)
          (entryCheck schema entries)) type := by
  have hcheck : (fun name here fieldType => coerceEntry? schema entries name here fieldType) =
      entryCheck schema entries := by
    funext name here fieldType
    exact coerceEntry?_eq entries name here fieldType
  rw [coerce, hcheck]

/-- The entry of a field is accepted: a literal that is given is, and one that
is missing is not required. -/
def Accepted (schema : Schema) (entries : Entries Json) (path : ResponsePath)
    (field : Field) : Prop :=
  (isRequired field.type = true → Entries.has entries field.name = true) ∧
    ∀ literal, Entries.find? entries field.name = some literal →
      (coerce schema literal (path ++ [field.name]) field.type).isOk = true

theorem accepted_of_missing {entries : Entries Json} {field : Field}
    (hnone : Entries.find? entries field.name = none) :
    Accepted schema entries path field ↔ isRequired field.type = false := by
  rw [Accepted, Entries.has, hnone]
  cases isRequired field.type with
  | true =>
      exact ⟨fun h => absurd (h.1 rfl) Bool.false_ne_true,
        fun h => absurd h.symm Bool.false_ne_true⟩
  | false =>
      refine iff_of_true ⟨fun h => absurd h Bool.false_ne_true, ?_⟩ rfl
      intro literal h
      cases h

theorem accepted_of_found {entries : Entries Json} {field : Field} {literal : Json}
    (hfind : Entries.find? entries field.name = some literal) :
    Accepted schema entries path field ↔
      (coerce schema literal (path ++ [field.name]) field.type).isOk = true := by
  rw [Accepted, Entries.has, hfind]
  constructor
  · exact fun h => h.2 literal rfl
  · intro h
    refine ⟨fun _ => rfl, ?_⟩
    intro other hother
    rw [← Option.some.inj hother]
    exact h

theorem isOk_coerceFields_iff (type : NamedType) (entries : Entries Json) (fields : List Field)
    (done : Entries Json) :
    (coerceFields type path (entryCheck schema entries) fields done).isOk = true ↔
      ∀ field ∈ fields, Accepted schema entries path field := by
  induction fields generalizing done with
  | nil => exact iff_of_true rfl (List.forall_mem_nil _)
  | cons field rest ih =>
      rw [List.forall_mem_cons, coerceFields]
      cases hfind : Entries.find? entries field.name with
      | none =>
          rw [accepted_of_missing hfind, entryCheck, hfind, Option.map_none]
          -- a field that is not given must not be required
          cases isRequired field.type with
          | true =>
              exact iff_of_false (Outcome.not_isOk_error _) fun h => Bool.false_ne_true h.1.symm
          | false => exact (ih done).trans ⟨fun h => ⟨rfl, h⟩, And.right⟩
      | some literal =>
          rw [accepted_of_found hfind, entryCheck, hfind, Option.map_some]
          cases coerce schema literal (path ++ [field.name]) field.type with
          | error error =>
              exact iff_of_false (Outcome.not_isOk_error _) fun h =>
                Outcome.not_isOk_error error h.1
          | ok value => exact (ih _).trans ⟨fun h => ⟨rfl, h⟩, And.right⟩

/-- An object literal is accepted if it names fields of the type only, and the
entry of each field is. -/
theorem isOk_coerceObject_iff (type : NamedType) (entries : Entries Json) :
    (coerceObject type path (Entries.keys entries) (entryCheck schema entries)).isOk = true ↔
      (∀ key ∈ Entries.keys entries, key ∈ type.fieldNames) ∧
        ∀ field ∈ type.fields, Accepted schema entries path field := by
  have hknown : ∀ key, (type.field? key).isNone = false ↔ key ∈ type.fieldNames := by
    intro key
    simp [NamedType.field?, NamedType.fieldNames]
  rw [coerceObject]
  split
  · next key hunknown =>
      have hkey := List.find?_some hunknown
      constructor
      · intro h
        cases h
      · rintro ⟨hnames, -⟩
        -- the first key that is not known is the one that is refused
        have hmem := (hknown key).mpr (hnames key (List.mem_of_find?_eq_some hunknown))
        rw [hmem] at hkey
        cases hkey
  · next hall =>
      rw [Outcome.isOk_map, isOk_coerceFields_iff]
      refine ⟨fun h => ⟨?_, h⟩, And.right⟩
      intro key hkey
      exact (hknown key).mp (Bool.eq_false_iff.mpr (List.find?_eq_none.mp hall key hkey))

/-- What is accepted for a literal of an object is what fits the types of its
fields. -/
theorem fits_object_iff {name : String} {entries : Entries Json}
    (hentries : ∀ entry ∈ entries, ∀ here type,
      (coerce schema entry.2 here type).isOk = true ↔ Fits schema type entry.2) :
    Fits schema (.named name) (.obj entries) ↔
      (∀ key ∈ Entries.keys entries, key ∈ (schema.typeNamed name).fieldNames) ∧
        ∀ field ∈ (schema.typeNamed name).fields, Accepted schema entries path field := by
  constructor
  · intro h
    cases h with
    | object hnames hrequired hvalues =>
        refine ⟨hnames, fun field hfield => ⟨hrequired field hfield, ?_⟩⟩
        intro literal hfind
        exact (hentries _ (Entries.mem_of_find? hfind) _ _).mpr (hvalues field hfield literal hfind)
  · rintro ⟨hnames, haccepted⟩
    refine .object hnames (fun field hfield => (haccepted field hfield).1) ?_
    intro field hfield literal hfind
    exact (hentries _ (Entries.mem_of_find? hfind) _
      _).mp ((haccepted field hfield).2 literal hfind)

/-! ### Acceptance

The three statements are proved together along the literal, as the three
functions that check it call each other. -/

mutual

/-- A literal is accepted for a type exactly if it fits the type. -/
theorem isOk_coerce_iff (schema : Schema) :
    ∀ (literal : Json) (path : ResponsePath) (type : TypeRef),
    (coerce schema literal path type).isOk = true ↔ Fits schema type literal
  -- the recursion is on the literal, as in the check itself; a list or an object is
  -- offered to its elements or entries by the cases below
  | .null, _, type => isOk_coerce_null_iff type
  | .arr items, path, type => by
      have hliteral : (Json.arr items).isNull = false := rfl
      rw [coerce]
      apply isOk_coerceWith_iff hliteral
      · intro heq
        cases heq
      · intro elements heq
        obtain rfl := Option.some.inj heq
        exact ⟨items, rfl, fun item => isOk_coerceItems_iff schema items path item⟩
      · intro name
        exact iff_of_false (Outcome.not_isOk_error _) (not_fits_named hliteral rfl)
  | .obj entries, path, type => by
      have hliteral : (Json.obj entries).isNull = false := rfl
      rw [coerce_obj]
      apply isOk_coerceWith_iff hliteral
      · exact fun _ => rfl
      · intro elements heq
        cases heq
      · intro name
        rw [isOk_coerceObject_iff, fits_object_iff (isOk_coerceEntries_iff schema entries)]
  | .bool _, _, type => isOk_coerce_plain_iff rfl rfl rfl type
  | .int _, _, type => isOk_coerce_plain_iff rfl rfl rfl type
  | .float _, _, type => isOk_coerce_plain_iff rfl rfl rfl type
  | .str _, _, type => isOk_coerce_plain_iff rfl rfl rfl type

theorem isOk_coerceItems_iff (schema : Schema) : ∀ (items : List Json) (path : ResponsePath)
    (item : TypeRef), (coerceItems schema items path item).isOk = true ↔
      ∀ element ∈ items, Fits schema item element
  | [], _, _ => iff_of_true rfl (List.forall_mem_nil _)
  | element :: rest, path, item => by
      rw [coerceItems, List.forall_mem_cons, ← isOk_coerce_iff schema element path item,
        ← isOk_coerceItems_iff schema rest path item]
      cases coerce schema element path item with
      | error error =>
          exact iff_of_false (Outcome.not_isOk_error _) fun h => Outcome.not_isOk_error error h.1
      | ok value =>
          rw [Outcome.isOk_map]
          exact ⟨fun h => ⟨rfl, h⟩, And.right⟩

theorem isOk_coerceEntries_iff (schema : Schema) : ∀ (entries : List (String × Json)),
    ∀ entry ∈ entries, ∀ path type,
      (coerce schema entry.2 path type).isOk = true ↔ Fits schema type entry.2
  | [], _, hentry, _, _ => absurd hentry List.not_mem_nil
  | (_, literal) :: rest, entry, hentry, path, type => by
      rcases List.mem_cons.mp hentry with rfl | hentry
      · exact isOk_coerce_iff schema literal path type
      · exact isOk_coerceEntries_iff schema rest entry hentry path type

end

/-! ### What an accepted object holds -/

/-- The fields that an object literal gives, in the order of the type. The order
of the literal itself does not matter. -/
def givenFields (type : NamedType) (entries : Entries Json) : List Field :=
  type.fields.filter fun field => Entries.has entries field.name

/-- The checked literal of a field, under some key. Which key that is differs
between what is checked and what a body should hold. -/
def Checked (schema : Schema) (entries : Entries Json) (path : ResponsePath)
    (keyOf : Field → String) (field : Field) (entry : String × Json) : Prop :=
  entry.1 = keyOf field ∧ ∃ literal, Entries.find? entries field.name = some literal ∧
    coerce schema literal (path ++ [field.name]) field.type = .ok entry.2

/-- Accepted fields write their checked literals one after the other. -/
theorem coerceFields_eq_ok {type : NamedType} {entries : Entries Json} {fields : List Field}
    {done result : Entries Json}
    (h : coerceFields type path (entryCheck schema entries) fields done = .ok result) :
    ∃ written, List.Forall₂ (Checked schema entries path entryKey)
        (fields.filter fun field => Entries.has entries field.name) written ∧
      result = Entries.putAll done written := by
  induction fields generalizing done with
  | nil =>
      obtain rfl := Except.ok.inj h
      exact ⟨[], .nil, rfl⟩
  | cons field rest ih =>
      rw [coerceFields, entryCheck] at h
      cases hfind : Entries.find? entries field.name with
      | none =>
          -- a field that is not given writes nothing, and it must not be required
          have hmissing : ¬ Entries.has entries field.name = true := by
            rw [Entries.has, hfind]
            exact Bool.false_ne_true
          rw [List.filter_cons, if_neg hmissing]
          rw [hfind, Option.map_none] at h
          dsimp only at h
          split at h
          · cases h
          · exact ih h
      | some literal =>
          have hgiven : Entries.has entries field.name = true := by
            rw [Entries.has, hfind]
            rfl
          rw [List.filter_cons, if_pos hgiven]
          rw [hfind, Option.map_some] at h
          cases hvalue : coerce schema literal (path ++ [field.name]) field.type with
          | error error =>
              rw [hvalue] at h
              cases h
          | ok value =>
              rw [hvalue] at h
              obtain ⟨written, hwritten, rfl⟩ := ih h
              exact ⟨(entryKey field, value) :: written,
                .cons ⟨rfl, literal, hfind, hvalue⟩ hwritten, rfl⟩

/-- An accepted object literal becomes an object that its given fields write. -/
theorem coerce_object_eq_ok {name : String} {entries : Entries Json} {value : Json}
    (h : coerce schema (.obj entries) path (.named name) = .ok value) :
    ∃ written, List.Forall₂ (Checked schema entries path entryKey)
        (givenFields (schema.typeNamed name) entries) written ∧
        value = .obj (Entries.ofList written) := by
  have hobject : coerce schema (.obj entries) path (.named name) =
      coerceObject (schema.typeNamed name) path (Entries.keys entries)
        (entryCheck schema entries) :=
    coerce_obj entries (.named name)
  rw [hobject, coerceObject] at h
  split at h
  · cases h
  · obtain ⟨result, hresult, rfl⟩ := Outcome.map_eq_ok_iff.mp h
    obtain ⟨written, hwritten, rfl⟩ := coerceFields_eq_ok hresult
    exact ⟨written, hwritten, rfl⟩

end Argument

end JsonSelection

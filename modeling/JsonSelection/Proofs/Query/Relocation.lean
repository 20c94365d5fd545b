import JsonSelection.Proofs.Outcome.Related
import JsonSelection.Proofs.Query.Fitting
import JsonSelection.Proofs.Query.Visiting

/-!
# Runs under a longer path

A path tells only where a selection shows. Under one more key a run has the same
result, and where it has none, the same error, whose path starts with that key.

- `QueryError.Under`: an error and what it becomes under one more key. The names
  that could have been given instead are the same.
- `Argument.coerce_under`, `Argument.resolve_under`: literals and arguments are
  checked alike under one more key.
- `Execution.runOne_under`, `Execution.runAll_under`: so are selections run.

Each statement goes by the recursion of its definition, and each is about a pair
of outcomes (`Outcome.Related`), so results and errors are dealt with at once.
The key is put in front of the whole path; runs under any path follow by
repetition.
-/

set_option autoImplicit false

namespace JsonSelection

open Outcome (Related)

namespace QueryError

/-- The error at the same place under one more key. Errors of the text arise at
no place and stay as they are. -/
def under (key : String) : QueryError → QueryError
  | nullArgument path type => nullArgument (key :: path) type
  | notAnObject path typeName => notAnObject (key :: path) typeName
  | unknownInput path name type => unknownInput (key :: path) name type
  | missingInput path name typeName => missingInput (key :: path) name typeName
  | wrongScalar path type literal => wrongScalar (key :: path) type literal
  | unknownArgument path name owner field => unknownArgument (key :: path) name owner field
  | negativePage path name => negativePage (key :: path) name
  | selectionOfJson path type => selectionOfJson (key :: path) type
  | selectionOfScalar path type => selectionOfScalar (key :: path) type
  | missingSelection path type name inner => missingSelection (key :: path) type name inner
  | unknownField path name type => unknownField (key :: path) name type
  | error => error

/-- An error that arises at some place, and what it becomes under one more key.
It is the same error, its path has the key in front, and the names that could
have been given instead are the same. -/
structure Under (key : String) (error moved : QueryError) : Prop where
  same : moved = error.under key
  path : moved.path = key :: error.path
  available : moved.available = error.available

end QueryError

namespace Argument

variable {schema : Schema} {path : ResponsePath} {key : String}

/-- The results of a check and of the same check under one more key. -/
abbrev Moved {α : Type} (key : String) : Except QueryError α → Except QueryError α → Prop :=
  Related (QueryError.Under key) Eq

theorem Moved.map {α β : Type} {x x' : Except QueryError α}
    (h : Moved key x x') (f : α → β) :
    Moved key (x.map f) (x'.map f) :=
  Related.map h fun _ _ heq => congrArg f heq

/-! ### Literals -/

theorem coerceWith_under (literal : Json)
    {elements? elements?' : Option (TypeRef → Except QueryError (List Json))}
    (helements : Option.Rel (fun elements elements' => ∀ item,
      Moved key (elements item) (elements' item))
      elements? elements?')
    {object object' : String → Except QueryError Json}
    (hobject : ∀ name, Moved key (object name) (object' name)) (type : TypeRef) :
    Moved key (coerceWith literal path elements? object type)
      (coerceWith literal (key :: path) elements?' object' type) := by
  induction type with
  | scalar type =>
      rw [coerceWith, coerceWith]
      split
      · exact .ok rfl
      · split
        · exact .ok rfl
        · exact .error ⟨rfl, rfl, rfl⟩
  | json => exact .ok rfl
  | nonNull inner ih =>
      rw [coerceWith, coerceWith]
      split
      · exact .error ⟨rfl, rfl, rfl⟩
      · exact ih
  | named name =>
      rw [coerceWith, coerceWith]
      split
      · exact .ok rfl
      · exact hobject name
  | list item page ih =>
      cases helements with
      | none =>
          -- a literal that is no list stands for the list of it alone
          simp only [coerceWith]
          split
          · exact .ok rfl
          · exact Moved.map ih _
      | some h =>
          simp only [coerceWith]
          split
          · exact .ok rfl
          · exact Moved.map (h item) _

theorem coerceFields_under (type : NamedType)
    {check? : String → ResponsePath → TypeRef → Option (Except QueryError Json)}
    (hcheck : ∀ name here fieldType,
      Option.Rel (Moved key) (check? name here fieldType) (check? name (key :: here) fieldType))
    (fields : List Field) (done : Entries Json) :
    Moved key (coerceFields type path check? fields done)
      (coerceFields type (key :: path) check? fields done) := by
  induction fields generalizing done with
  | nil => exact .ok rfl
  | cons field rest ih =>
      have hfield := hcheck field.name (path ++ [field.name]) field.type
      rw [coerceFields, coerceFields, List.cons_append]
      -- the entry of the field is missing, accepted or refused, whatever the path
      generalize check? field.name (path ++ [field.name]) field.type = found at hfield ⊢
      generalize check? field.name (key :: (path ++ [field.name])) field.type = found' at hfield ⊢
      cases hfield with
      | none =>
          dsimp only
          split
          · exact .error ⟨rfl, rfl, rfl⟩
          · exact ih done
      | some h =>
          cases h with
          | ok heq =>
              subst heq
              exact ih _
          | error he => exact .error he

theorem coerceObject_under (type : NamedType) (keys : List String)
    {check? : String → ResponsePath → TypeRef → Option (Except QueryError Json)}
    (hcheck : ∀ name here fieldType,
      Option.Rel (Moved key) (check? name here fieldType) (check? name (key :: here) fieldType)) :
    Moved key (coerceObject type path keys check?)
      (coerceObject type (key :: path) keys check?) := by
  rw [coerceObject, coerceObject]
  split
  · exact .error ⟨rfl, rfl, rfl⟩
  · exact Moved.map (coerceFields_under type hcheck type.fields []) Json.obj

mutual

/-- A literal is checked alike under one more key. -/
theorem coerce_under (schema : Schema) (key : String) :
    ∀ (literal : Json) (path : ResponsePath) (type : TypeRef),
      Moved key (coerce schema literal path type) (coerce schema literal (key :: path) type)
  -- the recursion is on the literal, as in the check
  | .arr items, path, type => by
      rw [coerce, coerce]
      apply coerceWith_under
      · exact .some fun item => coerceItems_under schema key items path item
      · exact fun _ => .error ⟨rfl, rfl, rfl⟩
  | .obj entries, path, type => by
      rw [coerce_obj, coerce_obj]
      apply coerceWith_under (.obj entries) .none
      intro name
      apply coerceObject_under
      intro field here fieldType
      rw [← coerceEntry?_eq, ← coerceEntry?_eq]
      exact coerceEntry?_under schema key entries field here fieldType
  | .null, _, type => coerceWith_under .null .none (fun _ => .error ⟨rfl, rfl, rfl⟩) type
  | .bool b, _, type => coerceWith_under (.bool b) .none (fun _ => .error ⟨rfl, rfl, rfl⟩) type
  | .int n, _, type => coerceWith_under (.int n) .none (fun _ => .error ⟨rfl, rfl, rfl⟩) type
  | .float x, _, type =>
      coerceWith_under (.float x) .none (fun _ => .error ⟨rfl, rfl, rfl⟩) type
  | .str text, _, type =>
      coerceWith_under (.str text) .none (fun _ => .error ⟨rfl, rfl, rfl⟩) type

theorem coerceItems_under (schema : Schema) (key : String) :
    ∀ (items : List Json) (path : ResponsePath) (type : TypeRef),
      Moved key (coerceItems schema items path type) (coerceItems schema items (key :: path) type)
  | [], _, _ => .ok rfl
  | item :: rest, path, type => by
      have hitem := coerce_under schema key item path type
      rw [coerceItems, coerceItems]
      generalize coerce schema item path type = found at hitem ⊢
      generalize coerce schema item (key :: path) type = found' at hitem ⊢
      cases hitem with
      | ok heq =>
          subst heq
          exact Moved.map (coerceItems_under schema key rest path type) _
      | error he => exact .error he

theorem coerceEntry?_under (schema : Schema) (key : String) :
    ∀ (entries : List (String × Json)) (name : String) (path : ResponsePath) (type : TypeRef),
      Option.Rel (Moved key) ( coerceEntry? schema entries name path type)
        ( coerceEntry? schema entries name (key :: path) type)
  | [], _, _, _ => .none
  | (other, literal) :: rest, name, path, type => by
      rw [ coerceEntry?, coerceEntry?]
      split
      · exact .some (coerce_under schema key literal path type)
      · exact coerceEntry?_under schema key rest name path type

end

/-! ### Arguments -/

theorem given_under (schema : Schema) (owner : NamedType) (field : Field) (key : String)
    (path : ResponsePath) (arguments : Entries Json) :
    Moved key (given schema owner field path arguments)
      (given schema owner field (key :: path) arguments) := by
  apply Related.foldlM _ rfl
  rintro values _ rfl entry -
  cases field.argument? entry.1 with
  | none => exact .error ⟨rfl, rfl, rfl⟩
  | some argument =>
      exact Moved.map (coerce_under schema key entry.2 (path ++ [entry.1]) argument.type) _

theorem resolve_under (schema : Schema) (owner : NamedType) (field : Field) (key : String)
    (path : ResponsePath) (arguments : Entries Json) :
    Moved key (resolve schema owner field path arguments)
      (resolve schema owner field (key :: path) arguments) := by
  apply Related.bind_eq (given_under schema owner field key path arguments)
  intro values
  dsimp only
  split
  · exact .error ⟨rfl, rfl, rfl⟩
  · exact .ok rfl

end Argument

/-- Why there is no result, and why there is none under one more key. The two
errors are of one kind, and all names that they tell are the same. -/
inductive ExecutionError.Under (key : String) : ExecutionError → ExecutionError → Prop where
  | query {error moved : QueryError} : error.Under key moved →
      ExecutionError.Under key (.query error) (.query moved)
  | noLength : ExecutionError.Under key .noLength .noLength

namespace Execution

variable {schema : Schema} {key : String}

/-- The outcomes of a run and of the same run under one more key. -/
abbrev Moved {α : Type} (key : String) : Outcome α → Outcome α → Prop :=
  Related (ExecutionError.Under key) Eq

theorem ofQuery_under {α : Type} {x x' : Except QueryError α} (h : Argument.Moved key x x') :
    Moved key (ofQuery x) (ofQuery x') :=
  Related.mapError h fun _ _ => .query

theorem checkSelection_under (schema : Schema) (type : TypeRef) (name : String)
    (children : List Selection) (key : String) (path : ResponsePath) :
    Argument.Moved key (checkSelection schema type name children path)
      (checkSelection schema type name children (key :: path)) := by
  rw [checkSelection, checkSelection]
  -- each kind of type accepts the braces or has one error of its own
  cases type.innermost with
  | named inner =>
      dsimp only
      split
      · exact .error ⟨rfl, rfl, rfl⟩
      · exact .ok rfl
  | _ =>
      dsimp only
      split
      · exact .ok rfl
      · exact .error ⟨rfl, rfl, rfl⟩

/-- Reading asks for a length in vain, or it has a result. -/
theorem read_error {reader : Reader} {source : Json} {error : ExecutionError}
    (h : reader.read source = .error error) : error = .noLength := by
  cases reader with
  | length =>
      simp only [Reader.read] at h
      split at h
      · cases h
      · exact (Except.error.inj h).symm
  | _ => cases h

theorem read_under (key : String) (reader : Reader) (source : Json) :
    Moved key (reader.read source) (reader.read source) := by
  cases hread : reader.read source with
  | ok value => exact .ok rfl
  | error error =>
      rw [read_error hread]
      exact .error .noLength

/-- What is shown for a value goes along with what is shown for the object types
in it. -/
theorem complete_related {errors : ExecutionError → ExecutionError → Prop}
    {values : Json → Json → Prop} (hrefl : ∀ value, values value value)
    (harr : ∀ items items', List.Forall₂ values items items' →
      values (.arr items) (.arr items'))
    {object object' : String → Json → Outcome Json}
    (hobject : ∀ name element, Related errors values (object name element) (object' name element))
    (type : TypeRef) (value : Json) (page : Option PageWindow) :
    Related errors values (complete object type value page) (complete object' type value page) := by
  induction type generalizing value page with
  | scalar type => exact .ok (hrefl _)
  | json => exact .ok (hrefl _)
  | nonNull inner ih => exact ih value page
  | named name =>
      by_cases hvalue : value = .null
      · subst hvalue
        exact .ok (hrefl _)
      · rw [complete_named name hvalue, complete_named name hvalue]
        exact hobject name value
  | list item size ih =>
      by_cases hvalue : value = .null
      · subst hvalue
        exact .ok (hrefl _)
      · rw [complete_list item size hvalue, complete_list item size hvalue]
        exact Related.map (Related.mapM (List.forall₂_same.mpr fun element _ => ih element none))
          harr

/-- A selection is run alike under one more key, if the selections below it are. -/
theorem runOne_under {schema : Schema} {key : String} (selection : Selection)
    (hbelow : ∀ (owner : NamedType) (source : Json) (path : ResponsePath) (done : Entries Json),
      Moved key (runAll schema selection.children owner source path done)
        (runAll schema selection.children owner source (key :: path) done))
    (owner : NamedType) (source : Json) (path : ResponsePath) :
    Moved key (runOne schema selection owner source path)
      (runOne schema selection owner source (key :: path)) := by
  obtain ⟨name, aliasName, arguments, children⟩ := selection
  rw [runOne, runOne]
  -- each step of a selection moves its own errors, in the order of the run
  split
  · exact .ok rfl
  · cases owner.field? name with
    | none => exact .error (.query ⟨rfl, rfl, rfl⟩)
    | some field =>
        dsimp only
        apply Related.bind_eq (ofQuery_under (checkSelection_under schema field.type name
          children key path))
        rintro -
        apply Related.bind_eq (ofQuery_under (Argument.resolve_under schema owner field key
          path arguments))
        intro values
        apply Related.bind_eq (read_under key field.reader source)
        intro value
        apply complete_related (fun _ => rfl)
        · intro items items' hitems
          rw [List.forall₂_eq_eq_eq] at hitems
          rw [hitems]
        · intro inner element
          exact Related.map (hbelow (schema.typeNamed inner) element path []) fun _ _ =>
            congrArg Json.obj

/-- Selections are run alike under one more key. -/
theorem runAll_under (schema : Schema) (key : String) (selections : List Selection)
    (owner : NamedType) (source : Json) (path : ResponsePath) (done : Entries Json) :
    Moved key (runAll schema selections owner source path done)
      (runAll schema selections owner source (key :: path) done) := by
  induction selections using Selection.induct generalizing owner source path done with
  | nil => exact .ok rfl
  | cons selection rest ihBelow ihRest =>
      have hone := runOne_under selection ihBelow owner source (path ++ [selection.responseKey])
      rw [runAll, runAll, List.cons_append]
      generalize runOne schema selection owner source (path ++ [selection.responseKey]) =
        found at hone ⊢
      generalize runOne schema selection owner source (key :: (path ++ [selection.responseKey])) =
        found' at hone ⊢
      cases hone with
      | ok heq =>
          subst heq
          exact ihRest owner source path _
      | error he => exact .error he

end Execution

end JsonSelection

import JsonSelection.Query.Argument
import JsonSelection.Query.Parser
import JsonSelection.Slice

/-!
# Running queries

A query is run against a value by way of a schema. Each selected field is
checked against its type before it is read, but what is selected below it is
checked only for the elements that it shows. Lists are cut to a page, scalars
are coerced to their type where nothing is lost.

## What this module delivers

- `Scalar.serialize`: a value as a scalar type shows it.
- `Reader.read`: the value that a field gets from its source. The one way to
  fail is the length of a value that has none (`ExecutionError.noLength`).
- `Execution.complete`: the value of a field in the result, along its type.
- `Execution.runOne` and `Execution.runAll`: one selection, and selections in
  order.
- `Execution.run`: a query text on a value.

The recursion is on the selections. `Execution.complete` takes what is done with
an object as an argument, so its recursion on the type stays apart from that on
the query.
-/

set_option autoImplicit false

namespace JsonSelection

/-! ## Failures, pages and scalars -/

/-- Why a query has no result. A length that cannot be told is the only reason
that is not an error of the query. -/
inductive ExecutionError where
  | query (error : QueryError)
  /-- The length of a value without elements is asked for. -/
  | noLength

/-- The part of a list that a field shows; without a limit it reaches to the end. -/
structure PageWindow where
  limit : Option Int
  offset : Int
deriving DecidableEq, Repr

namespace Scalar

/-- A value as a scalar type shows it. Values that are no scalars, and those
that the type has no form for, stay as they are. -/
def serialize : Scalar → Json → Json
  | .string, .bool b => .str (Json.plainText (.bool b))
  | .string, .int n => .str (Json.plainText (.int n))
  | .string, .float x => .str (Json.plainText (.float x))
  | .int, .bool b => .int (if b then 1 else 0)
  | .int, .float x =>
      -- a float with a fraction stays as it is
      match (Binary64.ofFloat x).toInt? with
      | some n => .int n
      | none => .float x
  | .boolean, .int n => .bool (n != 0)
  | .boolean, .float x => .bool !(Binary64.ofFloat x).isZero
  | _, value => value

end Scalar

namespace Reader

/-- The length of a value with elements, entries or characters. Numbers and
constants have none. -/
def lengthOf? : Json → Option Nat
  | .arr items => some items.length
  | .obj entries => some entries.length
  | .str characters => some characters.length
  | _ => none

/-- The value that a field gets from its source. A key that the source does not
have gives `null`, and so does every key of a source that is no object. -/
def read (reader : Reader) (source : Json) : Except ExecutionError Json :=
  match reader with
  | member key => .ok ((source.member? key).getD .null)
  | nothing => .ok .null
  | whole => .ok source
  | length =>
      match lengthOf? source with
      | some n => .ok (.int n)
      | none => .error .noLength
  | text => .ok (.str source.plainText)

end Reader

namespace Execution

/-- A result, or why there is none. -/
abbrev Outcome (α : Type) := Except ExecutionError α

/-- The type name that a query can ask of every object. It is answered before
the fields of the type are looked at. -/
def typeNameField : String := "__typename"

/-- An error of the query as the outcome of running it. -/
def ofQuery {α : Type} (result : Except QueryError α) : Outcome α :=
  result.mapError ExecutionError.query

/-! ## The value of a field -/

/-- Checks that exactly the fields with an object type inside have a selection
of their own. -/
def checkSelection (schema : Schema) (type : TypeRef) (name : String) (children : List Selection)
    (path : ResponsePath) : Except QueryError Unit :=
  match type.innermost with
  | .json => if children.isEmpty then .ok () else .error (.selectionOfJson path type)
  | .named inner =>
      if children.isEmpty then .error (.missingSelection path type name (schema.typeNamed inner))
      else .ok ()
  | _ => if children.isEmpty then .ok () else .error (.selectionOfScalar path type)

/-- The page of a list field that its arguments select. Without a limit among
them the page size of the type holds; a field that is no list has no page. -/
def pageOf (type : TypeRef) (values : Entries Json) : Option PageWindow :=
  match type with
  | .list _ page =>
      let limit :=
        match Entries.find? values "limit" with
        | some (.int n) => some n
        -- a limit that is given as `null` is no limit
        | some _ => none
        | none => page
      let offset :=
        match Entries.find? values "offset" with
        | some (.int n) => n
        | _ => 0
      some ⟨limit, offset⟩
  | _ => none

/-- The elements of a page. Without a limit it reaches to the end of the list. -/
def cut (items : List Json) (page : PageWindow) : List Json :=
  match page.limit with
  | some limit => Slice.between items page.offset (page.offset + limit)
  | none => Slice.between items page.offset items.length

/-- The value of a field in the result. `object` gives the value of an object
type; a value that is not an array stands for a list of one element, and an
inner list shows the page of its type. -/
def complete (object : String → Json → Outcome Json) :
    TypeRef → Json → Option PageWindow → Outcome Json
  | .nonNull inner, value, page => complete object inner value page
  | .json, value, _ => .ok value
  | .list item size, value, page =>
      match value with
      | .null => .ok .null
      | value =>
          let items := value.items?.getD [value]
          -- the elements get no page, so lists among them show the page of their type
          (cut items (page.getD ⟨size, 0⟩)).mapM (fun element =>
            complete object item element none)
            |>.map Json.arr
  | .named name, value, _ =>
      match value with
      | .null => .ok .null
      | value => object name value
  | .scalar type, value, _ => .ok (type.serialize value)

mutual

/-- Runs one selection on a source of a type; `path` leads to its response key.
The type name is answered at once. Any other field is checked first, then its
arguments are resolved, and only after that is its source read. -/
def runOne (schema : Schema) : Selection → NamedType → Json → ResponsePath → Outcome Json
  | ⟨name, _, arguments, children⟩, type, source, path =>
      if name = typeNameField then .ok (.str type.name)
      else
        match type.field? name with
        | none => .error (.query (.unknownField path name type))
        | some field => do
            -- the braces are checked before the arguments, and both before the
            -- value is read
            ofQuery (checkSelection schema field.type name children path)
            let values ← ofQuery (Argument.resolve schema type field path arguments)
            let value ← field.reader.read source
            complete
              (fun inner element =>
                (runAll schema children (schema.typeNamed inner) element path []).map Json.obj)
              field.type value (pageOf field.type values)

/-- Runs selections in order on a source of a type; of those with one response
key the last one counts. -/
def runAll (schema : Schema) :
    List Selection → NamedType → Json → ResponsePath → Entries Json →
    Outcome (Entries Json)
  | [], _, _, _, done => .ok done
  | selection :: rest, type, source, path, done =>
      let key := selection.responseKey
      match runOne schema selection type source (path ++ [key]) with
      | .error e => .error e
      | .ok value => runAll schema rest type source path (Entries.put done key value)

end

/-! ## Operations and texts -/

/-- The root type of an operation. A mutation has one only if the schema has a
mutation root. -/
def rootOf (schema : Schema) : OperationKind → Except QueryError NamedType
  | .query => .ok schema.query
  | .mutation =>
      match schema.mutation with
      | some root => .ok root
      | none => .error (.noMutation schema.query.fieldNames)

/-- Runs an operation on a value. Its name has no effect, and a mutation changes
nothing: it shows fields of the same value. -/
def runOperation (schema : Schema) (data : Json) (operation : Operation) :
    Outcome (Entries Json) := do
  let root ← ofQuery (rootOf schema operation.kind)
  runAll schema operation.selections root data [] []

/-- Runs a query text on a value: the text is parsed, and the operation is run.
An error of the text comes before any other. -/
def run (schema : Schema) (data : Json) (text : String) : Outcome (Entries Json) := do
  let operation ← ofQuery (Query.parse text)
  runOperation schema data operation

end Execution

end JsonSelection

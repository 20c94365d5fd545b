import JsonSelection.CommandLine.Options
import JsonSelection.DotPath
import JsonSelection.Json.Parser
import JsonSelection.Page
import JsonSelection.Query.Execution
import JsonSelection.Report
import JsonSelection.Schema.Summary

/-!
# Tools

The programs of the command line as pure functions: from the words, the standard
input and the files at hand to an exit code and an output.

## What this module delivers

- `Tool`: the seven programs with their options (`Tool.options`).
- `Sources`: what a program may read; a file is a text or is missing.
- `Tool.run`: the ending of a program, or the reason why it breaks off
  (`ToolError`).
- `Tool.filesNamed` and `Tool.readsInput`: what has to be read before a program
  can be run as a function.

An error of a query is an answer: it is printed with exit code one. A reason to
break off is no answer, and nothing is printed for it here. Output goes through
`render`, so all programs write JSON in the same two ways.
-/

set_option autoImplicit false

namespace JsonSelection

namespace CommandLine

/-! ## Programs and their options -/

/-- The programs. -/
inductive Tool where
  | query
  | schema
  | cost
  | fingerprint
  | merge
  | filter
  | probe
deriving DecidableEq, Repr

/-- What a program can read: the standard input and the files. A name that no
file has is answered by nothing. -/
structure Sources where
  input : String
  file? : String → Option String

/-- Why a program breaks off without an answer: its data is not JSON, a file is
missing, no schema can be built, or a query asks for the length of a value that
has none. -/
inductive ToolError where
  | badJson
  | missingFile (name : String)
  | build (error : BuildError)
  | noLength

/-- How a program ends: with an exit code and with what it has printed. -/
structure Ending where
  exit : Nat
  output : String

namespace Tool

/-- The name of a program. -/
def name : Tool → String
  | query => "query"
  | schema => "schema"
  | cost => "cost"
  | fingerprint => "fingerprint"
  | merge => "merge"
  | filter => "filter"
  | probe => "probe"

/-- All programs. -/
def all : List Tool :=
  [query, schema, cost, fingerprint, merge, filter, probe]

/-- The program of a given name, which is written exactly as in `Tool.name`. -/
def ofName? (text : String) : Option Tool :=
  all.find? fun tool => tool.name == text

/-- The options of a program beside those that all have. -/
def ownOptions : Tool → List OptionSpec
  | query =>
      [⟨"--query", .text, true⟩, ⟨"--method", .text, false⟩, ⟨"--path", .text, false⟩,
        ⟨"--body-shape", .text, false⟩, ⟨"--limit", .integer, false⟩,
        ⟨"--offset", .integer, false⟩, ⟨"--json-filter", .text, false⟩,
        ⟨"--max-tokens", .integer, false⟩, ⟨"--item-budget", .integer, false⟩]
  | schema =>
      [⟨"--method", .text, false⟩, ⟨"--path", .text, false⟩,
        ⟨"--body-shape", .text, false⟩,
        ⟨"--max-depth", .integer, false⟩, ⟨"--sample-size", .integer, false⟩,
        ⟨"--json", .flag, false⟩]
  | cost => [⟨"--item-budget", .integer, false⟩]
  | fingerprint => []
  | merge => [⟨"--sample-size", .integer, false⟩]
  | filter => [⟨"--path", .text, true⟩]
  | probe =>
      [⟨"--method", .text, false⟩, ⟨"--path", .text, false⟩,
        ⟨"--body-shape", .text, false⟩,
        ⟨"--body", .text, false⟩, ⟨"--query-param", .text, false⟩]

/-- The options of a program: help in front, then its own, and at the end how it
writes. The order decides nothing, since every name stands for one option. -/
def options (tool : Tool) : List OptionSpec :=
  [⟨"-h", .help, false⟩, ⟨"--help", .help, false⟩] ++ tool.ownOptions ++
    [⟨"--compact", .flag, false⟩, ⟨"--verbose", .flag, false⟩]

end Tool

/-! ## What is read -/

/-- The JSON value of a text. -/
def decode (text : String) : Except ToolError Json :=
  match Json.parse? text with
  | some value => .ok value
  | none => .error .badJson

/-- The JSON value of a file. -/
def readFile (sources : Sources) (name : String) : Except ToolError Json :=
  match sources.file? name with
  | some text => decode text
  | none => .error (.missingFile name)

/-- Whether a name stands for the standard input. So does the empty name, which
an option or an operand can be given as well. -/
def isInput (name : String) : Bool :=
  name.isEmpty || name == "-"

/-- The JSON value of a file or of the standard input. -/
def read (sources : Sources) (name : String) : Except ToolError Json :=
  if isInput name then decode sources.input else readFile sources name

/-- The name of the file or input that a program works on. -/
def operandOf (arguments : Arguments) : String :=
  arguments.operand.getD "-"

/-- The declared request body, if one is given. A declaration of `null` is none,
and the standard input is not read for it. -/
def readDeclared (sources : Sources) (arguments : Arguments) : Except ToolError (Option Json) :=
  match arguments.value? "--body-shape" with
  | none => .ok none
  | some name =>
      if name.isEmpty then .ok none
      else (readFile sources name).map fun value => if value.isNull then none else some value

/-- The body that was sent, if one is given. The standard input can be read once
only; after that it is empty. -/
def readSent (sources : Sources) (arguments : Arguments) : Except ToolError (Option Json) :=
  match arguments.value? "--body" with
  | none => .ok none
  | some name =>
      if name.isEmpty then .ok none
      else
        let left := if isInput (operandOf arguments) then { sources with input := "" } else sources
        (read left name).map fun value => if value.isNull then none else some value

/-! ## What is written -/

/-- A value as output: on one line or indented, as the arguments say, with a line
break behind it. -/
def render (arguments : Arguments) (value : Json) : String :=
  (if arguments.has "--compact" then value.compact else value.indented) ++ "\n"

/-- An ending with a value as output. -/
def finish (arguments : Arguments) (value : Json) : Ending :=
  ⟨0, render arguments value⟩

/-- An error of a query as output: its words, where in the result it arose, and
the names that could have been given instead. -/
def errorJson (error : QueryError) : Json :=
  .obj [("error", .str error.message), ("path", Json.texts error.path),
    ("available", Json.texts error.available)]

/-- The entry that tells which part of an array was queried. Its offset is the
one that was asked for, also where that is negative. -/
def pageEntry (page : Page.Window) (limit offset : Option Int) : Json :=
  let total : Int := (page.total.getD 0 : Nat)
  let shown : Int := ((page.data.items?.getD []).length : Nat)
  let start := offset.getD 0
  .obj [("total", .int total), ("offset", .int start),
    ("limit", .int (limit.getD Page.defaultLength)), ("hasMore", .bool (start + shown < total))]

/-- The window of the data that is queried; without limit and offset it is all
of it. -/
def windowOf (data : Json) (limit offset : Option Int) : Page.Window :=
  if limit.isSome || offset.isSome then Page.take data limit offset else ⟨data, false, none⟩

/-- A query result with the entry on the window, if elements were left out. A
field of the result under the same key gives way to it. -/
def withPage (result : Entries Json) (page : Page.Window) (limit offset : Option Int) :
    Entries Json :=
  if page.truncated then Entries.put result "_meta" (pageEntry page limit offset) else result

/-! ## The programs

Each program reads its data first and its declared body after that, so a missing
file is told before anything is computed. -/

/-- Runs a query. The schema is that of all data, and the query is run on the
window of it; the result is filtered by a dot path and cut to the budget after
that. -/
def runQuery (sources : Sources) (arguments : Arguments) : Except ToolError Ending := do
  let data ← read sources (operandOf arguments)
  let declared ← readDeclared sources arguments
  let base : Limits := {}
  let limits := { base with itemBudget :=
    (arguments.integer? "--item-budget").getD base.itemBudget }
  let cache : SchemaCache := { limits := limits }
  let method := arguments.valueOr "--method" "GET"
  let path := arguments.valueOr "--path" "/"
  let (lookup, _) ← (cache.get data method path declared none).mapError ToolError.build
  let limit := arguments.integer? "--limit"
  let offset := arguments.integer? "--offset"
  let page := windowOf data limit offset
  match Execution.run lookup.schema page.data (arguments.valueOr "--query" "") with
  | .error (.query error) =>
      -- a literal that cannot be converted breaks the program off, as unreadable data does
      if error.isConversion then .error .badJson
      else return ⟨1, render arguments (errorJson error)⟩
  | .error .noLength => .error .noLength
  | .ok result =>
      let whole := Json.obj (withPage result page limit offset)
      let result := DotPath.filter (arguments.valueOr "--json-filter" "") whole
      let budget := (arguments.integer? "--max-tokens").getD Budget.default
      let (status, fitted) := Budget.fit result budget
      return finish arguments
        (.obj [("_status", .str status.message), ("_shapeHash", .str lookup.shapeHash),
          ("data", fitted)])

/-- Shows the schema of a response, as a definition text or as a summary in
JSON. Only the bounds on depth and samples can be changed. -/
def runSchema (sources : Sources) (arguments : Arguments) : Except ToolError Ending := do
  let data ← read sources (operandOf arguments)
  let declared ← readDeclared sources arguments
  let base : Limits := {}
  let limits :=
    { base with
      maxDepth := (arguments.integer? "--max-depth").getD base.maxDepth
      sampleSize := (arguments.integer? "--sample-size").getD base.sampleSize }
  let schema ← (Schema.build limits data (arguments.valueOr "--method" "GET")
    (arguments.valueOr "--path" "/") declared).mapError ToolError.build
  if arguments.has "--json" then return finish arguments schema.summary
  else return ⟨0, schema.definition⟩

/-- An error of a cost as the reason to break off. -/
def ofCost {α : Type} (result : Except CostError α) : Except ToolError α :=
  result.mapError fun error => .build (.cost error)

/-- Shows the cost of every field, and for an array the page size that its
elements would get. -/
def runCost (sources : Sources) (arguments : Arguments) : Except ToolError Ending := do
  let data ← read sources (operandOf arguments)
  let base : Limits := {}
  let limits := { base with itemBudget :=
    (arguments.integer? "--item-budget").getD base.itemBudget }
  let node ← ofCost (CostNode.ofJson limits (limits.levelsFrom 0) data)
  let costs := [("costs", node.toJson)]
  match data with
  | .arr items =>
      let page ← ofCost (Cost.pageSize limits (limits.levelsFrom 1) items)
      return finish arguments (.obj (costs ++ [("default_limit", .int page)]))
  | _ => return finish arguments (.obj costs)

/-- Shows the shape of a value as a text and as a hash of this text, under the
limits that hold unless others are given. -/
def runFingerprint (sources : Sources) (arguments : Arguments) : Except ToolError Ending := do
  let data ← read sources (operandOf arguments)
  return finish arguments
    (.obj [("fingerprint", .str (Shape.fingerprint {} 0 data)),
      ("shape_hash", .str (Shape.hash {} data))])

/-- Shows the merged samples of an array; any other value is taken as its only
element. -/
def runMerge (sources : Sources) (arguments : Arguments) : Except ToolError Ending := do
  let data ← read sources (operandOf arguments)
  let base : Limits := {}
  let limits := { base with sampleSize :=
    (arguments.integer? "--sample-size").getD base.sampleSize }
  -- a value that is no array is merged as the only one
  let items := data.items?.getD [data]
  let result : Json × List String :=
    match Sample.mergeItems limits (limits.levelsFrom 0) items with
    | none => (.null, [])
    | some merged => (.obj merged.representative, merged.conflicts.mergeSort)
  return finish arguments
    (.obj [("representative", result.1), ("conflicts", Json.texts result.2)])

/-- Shows what a dot path leads to. A path that leads nowhere gives `null`. -/
def runFilter (sources : Sources) (arguments : Arguments) : Except ToolError Ending := do
  let data ← read sources (operandOf arguments)
  return finish arguments (DotPath.filter (arguments.valueOr "--path" "") data)

/-- Shows the discovery report of a response. The report is made on a new cache,
since no other report can follow in the same run. -/
def runProbe (sources : Sources) (arguments : Arguments) : Except ToolError Ending := do
  let data ← read sources (operandOf arguments)
  let declared ← readDeclared sources arguments
  let sent ← readSent sources arguments
  let request : Report.Request :=
    { data := data
      method := arguments.valueOr "--method" "GET"
      path := arguments.valueOr "--path" "/"
      declared := declared
      sent := sent
      parameters := arguments.values "--query-param" }
  let report ← (Report.build ⟨some {}, {}⟩ request).1.mapError ToolError.build
  return finish arguments report

/-- Runs a program on valid arguments. -/
def Tool.runWith (tool : Tool) (sources : Sources) (arguments : Arguments) :
    Except ToolError Ending :=
  match tool with
  | query => runQuery sources arguments
  | schema => runSchema sources arguments
  | cost => runCost sources arguments
  | fingerprint => runFingerprint sources arguments
  | merge => runMerge sources arguments
  | filter => runFilter sources arguments
  | probe => runProbe sources arguments

/-- Runs a program on the words of a command line. Words that ask for nothing
valid end it with code two. -/
def Tool.run (tool : Tool) (argv : List String) (sources : Sources) : Except ToolError Ending :=
  match readRequest tool.options argv with
  | .help => .ok ⟨0, ""⟩
  | .invalid => .ok ⟨2, ""⟩
  | .run arguments => tool.runWith sources arguments

/-! ## What a command line names -/

/-- The files that a command line names: that of the data and those of the
bodies. A line that does not ask for a run names none. -/
def Tool.filesNamed (tool : Tool) (argv : List String) : List String :=
  match readRequest tool.options argv with
  | .run arguments =>
      (operandOf arguments :: arguments.values "--body-shape" ++ arguments.values "--body").filter
        fun name => !isInput name
  | _ => []

/-- Whether a command line works on the standard input. -/
def Tool.readsInput (tool : Tool) (argv : List String) : Bool :=
  match readRequest tool.options argv with
  | .run arguments => (operandOf arguments :: arguments.values "--body").any isInput
  | _ => false

/-- The words for a reason to break off. -/
def ToolError.message : ToolError → String
  | badJson => "the input is not valid JSON"
  | missingFile name => "cannot read the file " ++ name
  | build (.cost .emptyUnit) => "costs cannot be measured in units of no characters"
  | build (.body .notAnObject) => "the body declaration is not an object"
  | build (.body .propertiesNotAnObject) => "the declared properties are not an object"
  | build (.body .malformedType) => "the type of a declared property is not a name"
  | build (.body .malformedDescription) => "the description of a declared property is not a text"
  | noLength => "the value has no length"

end CommandLine

end JsonSelection

import JsonSelection.Budget
import JsonSelection.Cache
import JsonSelection.Cost.Tree
import JsonSelection.Paging.Hint
import JsonSelection.Schema.Definition
import JsonSelection.Schema.Suggestion

/-!
# Discovery reports

A report gathers what is needed to write a first query: the schema, suggested
queries, costs, raw JSON fields and paging hints.

## What this module delivers

- `Report.Request`: what a report is about.
- `Report.Caches`: the cache at hand and the shared one. A report that is given
  no cache, or one that keeps nothing, works on the shared one.
- `Report.write`: the report on a schema that has been looked up.
- `Report.build`: a report together with the caches after it.

The schema comes from a cache, under the hash of the body that was sent if there
is one (`Report.bodyHash?`), and under the shape hash of the data otherwise. A
schema that was built stays cached even if the costs cannot be given.
-/

set_option autoImplicit false

namespace JsonSelection

namespace Report

/-! ## Requests and caches -/

/-- What a report is about: a response, the operation it came from, the declared
shape of the request body, the body that was sent, and the parameters that the
operation accepts. -/
structure Request where
  data : Json
  method : String := "GET"
  path : String := "/"
  declared : Option Json := none
  sent : Option Json := none
  parameters : List String := []

/-- The cache at hand, if any, and the shared cache. -/
structure Caches where
  own : Option SchemaCache
  shared : SchemaCache

namespace Caches

/-- Whether a report works on the cache at hand. An empty cache counts as none,
and then the shared cache is used. -/
def usesOwn (caches : Caches) : Bool :=
  caches.own.any fun cache => !cache.isEmpty

/-- The cache that a report works on. -/
def active (caches : Caches) : SchemaCache :=
  if caches.usesOwn then caches.own.getD caches.shared else caches.shared

/-- Puts a cache in the place of the one that a report works on. -/
def replaceActive (caches : Caches) (cache : SchemaCache) : Caches :=
  if caches.usesOwn then { caches with own := some cache } else { caches with shared := cache }

end Caches

/-! ## The parts of a report -/

/-- The advice on raw JSON fields. -/
def opaqueHint : String :=
  "These fields contain heterogeneous or deeply nested data that cannot be queried " ++
    "with field selection. Query them as-is and parse the returned JSON directly."

/-- What all fields of a response cost, in words. For an array the cost of an
element is told, and how many elements the usual budget pays for. -/
def budgetExamples (data : Json) (costs : CostNode) : List String :=
  match data, costs.perItem? with
  | .arr (_ :: _), some perItem =>
      let fit := ((Amount.whole Budget.default).divide (.whole perItem)).floor
      ["All fields: ~" ++ toString perItem ++ " tokens/item, ~" ++ toString fit ++
        " items fit in default budget (" ++ toString Budget.default ++ ")"]
  | .arr _, _ => ["All fields: ~" ++ toString costs.total ++ " tokens total"]
  | .obj _, _ => ["All fields: ~" ++ toString costs.total ++ " tokens total"]
  | _, _ => []

/-- The hash of the body that was sent, for a method that writes. It is a shape
hash, although what it stands for is no response. -/
def bodyHash? (limits : Limits) (request : Request) : Option String :=
  if Schema.isWrite (Text.upper request.method) then request.sent.map (Shape.hash limits) else none

/-- An entry for a list that is left out when the list is empty. -/
def listEntry (key : String) (items : List Json) : List (String × Json) :=
  if items.isEmpty then [] else [(key, .arr items)]

/-- The closing entries: how the response is to be queried. An array cannot be
queried by the names of its elements alone, so the hint shows the form. -/
def closing (data : Json) : List (String × Json) :=
  match data with
  | .arr items =>
      [("totalItems", .int items.length),
        ("hint", .str "Array response: query it as '\x7b items \x7b ... \x7d _count \x7d'.")]
  | _ => [("hint", .str "Select fields by the names in the schema above.")]

/-- The report on a request whose schema has been looked up and whose costs are
known. -/
def write (request : Request) (lookup : CacheLookup) (bodyHash : Option String) (costs : CostNode) :
    Json :=
  let schema := lookup.schema
  let opaqueFields := schema.opaquePaths
  .obj <|
    [("schema", .str schema.definition), ("shapeHash", .str lookup.shapeHash),
      ("fromCache", .bool lookup.fromCache), ("topLevelType", .str request.data.typeLabel)] ++
    ((bodyHash.filter fun hash => !hash.isEmpty).toList.map fun hash => ("bodyHash", .str hash)) ++
    listEntry "paginationParams" ((request.parameters.filter Hint.parameterNames.contains).map .str)
      ++
    listEntry "suggestedQueries" ((Suggestion.all schema).map Suggestion.toJson) ++
    [("fieldTokenCosts", costs.toJson)] ++
    listEntry "budgetExamples" ((budgetExamples request.data costs).map .str) ++
    (if opaqueFields.isEmpty then []
      else [("jsonFields", Json.texts opaqueFields), ("jsonFieldsHint", .str opaqueHint)]) ++
    ((Hint.detect request.data request.parameters).toList.map fun hint =>
      ("_pagination", .obj hint)) ++
    closing request.data

/-- Makes a report and gives the caches after it. The schema stays cached even
if the costs cannot be given. -/
def build (caches : Caches) (request : Request) : Except BuildError Json × Caches :=
  let cache := caches.active
  let bodyHash := bodyHash? cache.limits request
  match cache.get request.data request.method request.path request.declared bodyHash with
  | .error e => (.error e, caches)
  | .ok (lookup, cache) =>
      -- the lookup counts from here on, also if the costs fail
      let caches := caches.replaceActive cache
      match CostNode.ofJson cache.limits (cache.limits.levelsFrom 0) request.data with
      | .error e => (.error (.cost e), caches)
      | .ok costs => (.ok (write request lookup bodyHash costs), caches)

end Report

end JsonSelection

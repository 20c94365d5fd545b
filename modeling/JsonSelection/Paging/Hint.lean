import JsonSelection.Json.Printer
import JsonSelection.Paging.Address

/-!
# Paging hints

A response often tells how to get its next page: by a cursor, a page token, a
link or a flag, each under one of several customary keys. `Hint.detect` looks
the keys up in a fixed order, and for each kind of telling the first usable
value counts.

## What this module delivers

- `Hint.sources`: the places that are looked up, with the parameters that
  customarily take the value found there.
- `Hint.usable?`: what counts as a value. A flag must be a truth value, anything
  else a text that is not empty.
- `Hint.look`: one lookup, which adds to what has been found so far.
- `Hint.detect`: the hint of a response, if it has any.

Of several candidates the first parameter that the operation accepts is taken,
and the first candidate if it accepts none. A link gives those of its parameters
that select a page. The check of its host is passed on to `Address.parameters`.
-/

set_option autoImplicit false

namespace JsonSelection

namespace Hint

/-! ## Places that tell of a next page -/

/-- The ways to tell of a next page: two kinds of tokens, an address, and a flag
that only says whether there is one. -/
inductive Target where
  | cursor
  | pageToken
  | nextUrl
  | hasMore
deriving DecidableEq, Repr

namespace Target

/-- The key under which a hint holds a value. -/
def key : Target → String
  | cursor => "cursor"
  | pageToken => "nextPageToken"
  | nextUrl => "nextUrl"
  | hasMore => "hasMore"

end Target

/-- A place where responses tell of a next page, and the parameters that take
its value. -/
structure Source where
  path : List String
  target : Target
  candidates : List String
deriving DecidableEq, Repr

/-- The customary places, in the order in which they are tried. -/
def sources : List Source :=
  [⟨["meta", "page", "after"], .cursor, ["page[cursor]", "page[after]", "cursor", "after"]⟩,
    ⟨["meta", "page", "cursor"], .cursor, ["page[cursor]", "cursor"]⟩,
    ⟨["paging", "cursors", "after"], .cursor, ["after", "cursor"]⟩,
    ⟨["pagination", "next_cursor"], .cursor, ["cursor", "next_cursor"]⟩,
    ⟨["next_cursor"], .cursor, ["cursor", "next_cursor"]⟩,
    ⟨["cursor"], .cursor, ["cursor"]⟩,
    ⟨["nextPageToken"], .pageToken, ["pageToken", "page_token"]⟩,
    ⟨["next_page_token"], .pageToken, ["page_token", "pageToken"]⟩,
    ⟨["links", "next"], .nextUrl, []⟩,
    ⟨["_links", "next", "href"], .nextUrl, []⟩,
    ⟨["has_more"], .hasMore, []⟩,
    ⟨["hasMore"], .hasMore, []⟩]

/-- The parameters that customarily select a page. -/
def parameterNames : List String :=
  ["page", "cursor", "after", "before", "limit", "offset", "per_page", "page_size", "pageSize",
    "page_token", "pageToken", "next_page_token", "page[cursor]", "page[after]", "page[before]",
    "page[size]", "page[number]", "page[offset]", "page[limit]", "starting_after",
    "ending_before", "start_cursor", "next_cursor"]

/-! ## Looking the places up -/

/-- The value at the end of a path of keys. A key that is missing on the way, or
a value that is no object, ends the path. -/
def valueAt? (value : Json) : List String → Option Json
  | [] => some value
  | key :: rest => (value.member? key).bind fun child => valueAt? child rest

/-- The first candidate among the accepted parameters; the first of all
candidates if none is. -/
def parameterName (candidates accepted : List String) : Option String :=
  match candidates.find? accepted.contains with
  | some name => some name
  | none => candidates.head?

/-- The value as it can be used at a source: a truth value for the flag, a text
that is not empty otherwise. -/
def usable? (target : Target) (value : Json) : Option Json :=
  match target, value with
  | .hasMore, .bool b => some (.bool b)
  | .hasMore, _ => none
  | _, .str text => if text.isEmpty then none else some (.str text)
  | _, _ => none

/-- The usable value at a source, if there is one. A value that cannot be used
counts as none, and a later source of the same kind may still have one. -/
def valueOf? (data : Json) (source : Source) : Option Json :=
  (valueAt? data source.path).bind (usable? source.target)

/-- What has been found so far: the values, a remark on each, and the parameters
of the next request. -/
structure Findings where
  values : Entries Json := []
  remarks : List String := []
  parameters : Entries String := []

/-- The remark on a value, which names the place where it was found. For a flag
it also tells the value. -/
def remark (source : Source) (value : Json) : String :=
  let label := "'" ++ ".".intercalate source.path ++ "'"
  match source.target with
  | .hasMore => label ++ " = " ++ value.compact
  | .nextUrl => label ++ " contains the full URL for the next page"
  | _ => "Use " ++ label ++ " value as cursor parameter for the next page"

/-- The parameters of the next request that a value gives: one for a token,
those of an address, and none for a flag. -/
def parametersOf (check : Address.HostCheck) (accepted : List String) (source : Source)
    (value : Json) :
    List (String × String) :=
  match source.target with
  | .hasMore => []
  | .nextUrl => Address.parameters (value.text?.getD "") check
  | _ =>
      (parameterName source.candidates accepted).toList.map fun name =>
        (name, value.text?.getD "")

/-- Takes in the value at one source, unless one of its kind has been found.
Parameters are taken in as well, and replace those of the same name. -/
def look (check : Address.HostCheck) (data : Json) (accepted : List String) (found : Findings)
    (source : Source) : Findings :=
  -- the first source of a kind wins, and later ones are not even read
  if found.values.has source.target.key then found
  else
    match valueOf? data source with
    | none => found
    | some value =>
        { values := Entries.put found.values source.target.key value
          remarks := found.remarks ++ [remark source value]
          parameters :=
            Entries.putAll found.parameters (parametersOf check accepted source value) }

/-- The advice of a hint: the parameters of the next request, or all remarks if
none are known. -/
def advice (found : Findings) : List (String × Json) :=
  if found.parameters.isEmpty then
    [("_hint", .str ("Pagination detected: " ++ "; ".intercalate found.remarks ++ "."))]
  else
    [("nextParams", .obj (found.parameters.map fun entry => (entry.1, .str entry.2))),
      ("_hint", .str ("Pagination detected. To fetch the next page, repeat the request with the " ++
        "same method and path, adding these parameters: " ++
        Json.asciiEntries found.parameters))]

/-- The hint that a response object gives, if it gives any. `accepted` lists the
parameters that the operation accepts, and `check` is how the host of a link is
checked. -/
def detect (data : Json) (accepted : List String) (check : Address.HostCheck := .alone) :
    Option (Entries Json) :=
  match data with
  | .obj _ =>
      let found := sources.foldl (look check data accepted) {}
      if found.remarks.isEmpty then none else some (found.values ++ advice found)
  | _ => none

end Hint

end JsonSelection

import JsonSelection.Proofs.Query.Refusal
import JsonSelection.Proofs.Query.Relocation
import JsonSelection.Proofs.Query.Running

/-!
# Mutations read like queries

The field of a mutation root gives the query root for the whole response, so a
mutation shows under its field what its selections show as a query, and it is
refused where they are, with the same error under that field.

## What this module delivers

- `Execution.Reads`: what a mutation of one field comes to, by what its
  selections come to as a query.
- `Execution.mutation_reads`: every mutation of a schema that is built for data
  other than `null` reads like a query, as an operation, and as a text where
  both texts are parsed.
- `Execution.mutation_refused_deep`: as texts the two differ in one more thing.
  The mutation has one more pair of braces, and the parser goes only so deep.

The arguments of the mutation field are checked and then unused. A mutation
whose arguments are refused reads nothing, so the statement is over those that
are accepted.
-/

set_option autoImplicit false

namespace JsonSelection

namespace Execution

/-- What a mutation of one field comes to, by what its selections come to as
a query: their result under the key of the field, or their error under that
key. -/
inductive Reads (key : String) : Outcome (Entries Json) → Outcome (Entries Json) → Prop where
  | result (entries : Entries Json) : Reads key (.ok entries) (.ok [(key, .obj entries)])
  | refusal {error moved : QueryError} : error.Under key moved →
      Reads key (.error (.query error)) (.error (.query moved))

variable {schema : Schema} {root : NamedType} {field : Field}

/-- The field of a mutation root is accepted with the arguments that it takes
and some selections. -/
theorem accepts_mutation (hfields : root.fields = [field]) (hmutation : MutationField field)
    {selections : List Selection} (hnonempty : selections ≠ []) {arguments values : Entries Json}
    (harguments : Argument.resolve schema root field [field.name] arguments = .ok values) :
    Site.Accepts schema ⟨root, [field.name], ⟨field.name, none, arguments, selections⟩⟩
      field values where
  ordinary := hmutation.ordinary
  known := by simp [NamedType.field?, hfields]
  braces := by
    have hnode : field.type.namedInside? = some "Query" := by
      rw [hmutation.type]
      rfl
    exact checkSelection_node schema hnode field.name hnonempty [field.name]
  arguments := harguments

/-- The field of a mutation root shows what its selections show of the query
root, under its own path. -/
theorem runOne_mutation (hfields : root.fields = [field]) (hmutation : MutationField field)
    (hregistered : schema.typeNamed "Query" = schema.query) {selections : List Selection}
    (hnonempty : selections ≠ []) {arguments values : Entries Json}
    (harguments : Argument.resolve schema root field [field.name] arguments = .ok values)
    {data : Json} (hdata : data ≠ .null) :
    runOne schema ⟨field.name, none, arguments, selections⟩ root data [field.name] =
      (runAll schema selections schema.query data [field.name] []).map Json.obj := by
  have haccepts := accepts_mutation hfields hmutation hnonempty harguments
  have hread : field.reader.read data = .ok data := by
    rw [hmutation.whole]
    rfl
  have hone := runOne_of_accepts haccepts hread
  rw [hmutation.type, complete_named "Query" hdata, objectAt, hregistered] at hone
  exact hone

/-- The result of a mutation of one field. -/
theorem runOperation_mutation (hroot : schema.mutation = some root) (data : Json)
    (name : Option String) (selection : Selection) :
    runOperation schema data ⟨.mutation, name, [selection]⟩ =
      (runOne schema selection root data [selection.responseKey]).map fun value =>
        [(selection.responseKey, value)] := by
  simp only [runOperation, rootOf, hroot, ofQuery, Outcome.mapError_ok, Outcome.ok_bind, runAll,
    List.nil_append]
  cases runOne schema selection root data [selection.responseKey] with
  | error error => rfl
  | ok value => rfl

/-- An outcome and the same outcome under one more key, shown under that key. -/
theorem Moved.reads {key : String} {query moved : Outcome (Entries Json)}
    (h : Moved key query moved) (hquery : ∀ error, query = .error error → ∃ fault,
      error = .query fault) :
    Reads key query ((moved.map Json.obj).map fun value => [(key, value)]) := by
  cases h with
  | @ok entries _ heq =>
      subst heq
      exact .result entries
  | error hunder =>
      obtain ⟨fault, rfl⟩ := hquery _ rfl
      cases hunder with
      | query hunder => exact .refusal hunder

/-- A mutation reads like a query. -/
theorem mutation_reads {limits : Limits} {data : Json} (hdata : data ≠ .null)
    {method path : String} (hwrite : Schema.isWrite (Text.upper method) = true) {body : Json}
    (hbuild : Schema.build limits data method path (some body) = .ok schema) :
    ∃ root field, schema.mutation = some root ∧ root.fields = [field] ∧
      field.name = (Text.upper method).toLower ++ "_" ++
        TypeName.derive (Text.upper method) path ∧
      ∀ selections arguments values, selections ≠ [] →
        Argument.resolve schema root field [field.name] arguments = .ok values →
        (∀ name name', Reads field.name (runOperation schema data ⟨.query, name, selections⟩)
          (runOperation schema data
            ⟨.mutation, name', [⟨field.name, none, arguments, selections⟩]⟩)) ∧
        ∀ text text' name name', Query.parse text = .ok ⟨.query, name, selections⟩ →
          Query.parse text' = .ok ⟨.mutation, name',
            [⟨field.name, none, arguments, selections⟩]⟩ →
            Reads field.name (run schema data text) (run schema data text') := by
  obtain ⟨names, hoffers⟩ := Schema.offers_any hbuild
  obtain ⟨root, hroot⟩ := Option.isSome_iff_exists.mp
    ((Schema.mutation_isSome_iff hbuild).mpr ⟨hwrite, rfl⟩)
  obtain ⟨field, hfields, hmutation⟩ := hoffers.mutation root hroot
  refine ⟨root, field, hroot, hfields, ?_, ?_⟩
  · obtain ⟨-, -, -, -, -, arguments, -, -, -, rfl, -⟩ :=
      Schema.mutationOf_of_build hbuild hroot
    obtain ⟨rfl, -⟩ := List.cons.inj hfields
    rfl
  · intro selections arguments values hnonempty harguments
    have hone := runOne_mutation hfields hmutation hoffers.registered hnonempty harguments hdata
    have hmoved := runAll_under schema field.name selections schema.query data [] []
    have hreads : ∀ name name', Reads field.name
      (runOperation schema data ⟨.query, name, selections⟩)
        (runOperation schema data
          ⟨.mutation, name', [⟨field.name, none, arguments, selections⟩]⟩) := by
      intro name name'
      rw [runOperation_mutation hroot]
      change Reads field.name _ ((runOne schema _ root data [field.name]).map _)
      rw [hone]
      apply hmoved.reads
      -- the root and all that it leads to can be read, so an error is one of the query
      intro error herror
      exact (runAll_error (closed_of_offers hoffers) selections (.query rfl) herror).1
    refine ⟨hreads, ?_⟩
    intro text text' name name' hparse hparse'
    simp only [run, hparse, hparse', ofQuery, Outcome.mapError_ok, Outcome.ok_bind]
    exact hreads name name'

/-- The schema for the creation of a user with a declared name. -/
def creation : Except BuildError Schema :=
  Schema.build {} (.obj [("id", .int 7)]) "post" "/users"
    (some (.obj [("properties", .obj [("name", .obj [("type", .str "string")])])]))

/-- A creation with an argument, and one as a text. -/
theorem mutation_reads_creation : ∃ schema root field values, creation = .ok schema ∧
    schema.mutation = some root ∧ root.fields = [field] ∧ field.name = "post_POST_users" ∧
    Argument.resolve schema root field [field.name]
    [("input", .obj [("name", .str "a")])] = .ok values ∧
    Reads field.name (runOperation schema (.obj [("id", .int 7)])
      ⟨.query, none, [⟨"id", none, [], []⟩]⟩)
        (runOperation schema (.obj [("id", .int 7)]) ⟨.mutation, none,
        [⟨field.name, none, [("input", .obj [("name", .str "a")])],
          [⟨"id", none, [], []⟩]⟩]⟩) ∧
    Reads field.name (run schema (.obj [("id", .int 7)]) "\x7b id \x7d")
      (run schema (.obj [("id", .int 7)]) "mutation \x7b post_POST_users \x7b id \x7d \x7d") := by
  have hshown : (match creation with
      | .ok schema =>
          schema.mutation.all fun root => root.fields.all fun field =>
            (Argument.resolve schema root field [field.name]
              [("input", .obj [("name", .str "a")])]).isOk &&
              (Argument.resolve schema root field [field.name] []).isOk
      | .error _ => false) = true := by
    decide +kernel
  cases hbuild : creation with
  | error error =>
      rw [hbuild] at hshown
      cases hshown
  | ok schema =>
      obtain ⟨root, field, hroot, hfields, hderived, hreads⟩ :=
        mutation_reads (by simp) (by decide) hbuild
      have hname : field.name = "post_POST_users" := by
        rw [hderived]
        decide +kernel
      simp only [hbuild, hroot, hfields, Option.all_some, List.all_cons, List.all_nil,
        Bool.and_true,
        Bool.and_eq_true] at hshown
      obtain ⟨values, hvalues⟩ := Outcome.exists_of_isOk hshown.1
      obtain ⟨defaults, hdefaults⟩ := Outcome.exists_of_isOk hshown.2
      -- the two texts are written selections
      have hset : Query.Written [⟨"id", none, [], []⟩] ["id"] 0 :=
        .leaf ⟨'i', ['d'], rfl, rfl, List.all_eq_true.mp rfl⟩ .nil
      have hfield : Token.IsName field.name := by
        rw [hname]
        exact ⟨'p', "ost_POST_users".toList, rfl, rfl, List.all_eq_true.mp rfl⟩
      have hquery : Query.parse "\x7b id \x7d" =
          .ok ⟨.query, none, [⟨"id", none, [], []⟩]⟩ := by
        have htext : " ".intercalate ("\x7b" :: (["id"] ++ ["\x7d"])) = "\x7b id \x7d" := by
          decide +kernel
        rw [← htext]
        exact Query.parse_written hset (List.cons_ne_nil _ _) (by decide)
      have hmutation : Query.parse "mutation \x7b post_POST_users \x7b id \x7d \x7d" =
          .ok ⟨.mutation, none, [⟨field.name, none, [], [⟨"id", none, [], []⟩]⟩]⟩ := by
        have htext : " ".intercalate ("mutation" :: "\x7b" ::
            ((field.name :: "\x7b" :: (["id"] ++ ["\x7d"])) ++ ["\x7d"])) =
              "mutation \x7b post_POST_users \x7b id \x7d \x7d" := by
          rw [hname]
          decide +kernel
        rw [← htext]
        exact Query.parse_writtenMutation (.node hfield hset (List.cons_ne_nil _ _) .nil)
          (List.cons_ne_nil _ _) (by decide)
      have hgiven := hreads [⟨"id", none, [], []⟩] _ values (List.cons_ne_nil _ _) hvalues
      have hplain := hreads [⟨"id", none, [], []⟩] _ defaults (List.cons_ne_nil _ _) hdefaults
      exact ⟨schema, root, field, values, rfl, hroot, hfields, hname, hvalues, hgiven.1 none none,
        hplain.2 _ _ none none hquery hmutation⟩

/-- A field of one name in a field of that name, as many pairs of braces deep as
told. -/
def nested : Nat → Selection
  | 0 => ⟨"a", none, [], []⟩
  | levels + 1 => ⟨"a", none, [], [nested levels]⟩

/-- The words of a field in fields. -/
def nestedWords : Nat → List String
  | 0 => ["a"]
  | levels + 1 => "a" :: "\x7b" :: (nestedWords levels ++ ["\x7d"])

theorem written_nested (levels : Nat) : Query.Written [nested levels]
    (nestedWords levels) levels := by
  have hname : Token.IsName "a" := ⟨'a', [], rfl, rfl, List.all_eq_true.mp rfl⟩
  induction levels with
  | zero => exact .leaf hname .nil
  | succ levels ih =>
      have hnode := Query.Written.node hname ih (List.cons_ne_nil _ _) .nil
      rwa [Nat.max_zero] at hnode

/-- A query that is as deep as the parser goes, and the mutation of a field with
its selections. -/
def deepQuery : String :=
  " ".intercalate ("\x7b" :: (nestedWords 63 ++ ["\x7d"]))

/-- The mutation of a field with the selections of that query. -/
def deepMutation (field : String) : String :=
  " ".intercalate ("mutation" :: "\x7b" :: field :: "\x7b" ::
    ((nestedWords 63 ++ ["\x7d"]) ++ ["\x7d"]))

/-- The braces of fields in fields are opened one after the other, and then closed. -/
theorem nestedWords_eq (levels : Nat) : "\x7b" :: (nestedWords levels ++ ["\x7d"]) =
    Query.openings (List.replicate levels "a") ++
      "\x7b" :: "a" :: List.replicate (levels + 1) "\x7d" := by
  induction levels with
  | zero => rfl
  | succ levels ih =>
      rw [List.replicate_succ' (n := levels + 1), List.replicate_succ (n := levels)]
      simp only [nestedWords, List.cons_append, ih]
      simp [Query.openings]

theorem parse_deepMutation {field : String} (hfield : Token.IsName field) :
    Query.parse (deepMutation field) = .error .tooDeep := by
  have hnames : ∀ name ∈ field :: List.replicate 63 "a", Token.IsName name := by
    intro name hname
    rcases List.mem_cons.mp hname with rfl | hname
    · exact hfield
    · obtain rfl := List.eq_of_mem_replicate hname
      exact ⟨'a', [], rfl, rfl, List.all_eq_true.mp rfl⟩
  have hwords : ∀ word ∈ "a" :: List.replicate 64 "\x7d", Token.IsWord word := by
    intro word hword
    rcases List.mem_cons.mp hword with rfl | hword
    · exact Or.inr (Or.inr (hnames "a" (by simp)))
    · exact Or.inr (Or.inl (List.eq_of_mem_replicate hword))
  -- the words are one field, the sets below it and the braces that close them
  have htext : deepMutation field = " ".intercalate ("mutation" ::
      ((Query.openings (field :: List.replicate 63 "a") ++ "\x7b" :: "a" ::
        List.replicate 64 "\x7d") ++
        ["\x7d"])) := by
    rw [deepMutation, ← List.cons_append, nestedWords_eq]
    rfl
  rw [htext]
  exact Query.parse_mutation_tooDeep hnames (by simp [Query.nesting]) hwords

/-- The schema that answers a creation without a body of its own. -/
def answered : Except BuildError Schema :=
  Schema.build {} (.obj [("id", .int 1)]) "POST" "/u" (some (.obj []))

/-- The mutation of a query that is as deep as the parser goes is refused for
its depth, at no place, and not for what is wrong with the query. -/
theorem mutation_refused_deep : ∃ schema root field error moved, answered = .ok schema ∧
    schema.mutation = some root ∧ root.fields = [field] ∧
    Argument.resolve schema root field [field.name] [] = .ok [] ∧
    run schema (.obj [("id", .int 1)]) deepQuery = .error (.query error) ∧ error.path = ["a"] ∧
    run schema (.obj [("id", .int 1)]) (deepMutation field.name) = .error (.query moved) ∧
    moved.path = [] := by
  -- all that has to be evaluated is one statement, so the schema is built once
  have hshown : (match answered with
      | .ok schema =>
          (match runOperation schema (.obj [("id", .int 1)]) ⟨.query, none, [nested 63]⟩ with
            | .error (.query error) => error.path == ["a"]
            | _ => false) &&
          schema.mutation.any fun root => root.fields.any fun field =>
            field.arguments.isEmpty && field.name == "post_POST_u"
      | .error _ => false) = true := by
    decide +kernel
  cases hbuild : answered with
  | error error =>
      rw [hbuild] at hshown
      cases hshown
  | ok schema =>
      obtain ⟨names, hoffers⟩ := Schema.offers_any hbuild
      obtain ⟨root, hroot⟩ := Option.isSome_iff_exists.mp
        ((Schema.mutation_isSome_iff hbuild).mpr ⟨by decide, rfl⟩)
      obtain ⟨field, hfields, -⟩ := hoffers.mutation root hroot
      simp only [hbuild, hroot, hfields, Option.any_some, List.any_cons, List.any_nil,
        Bool.or_false,
        Bool.and_eq_true, beq_iff_eq] at hshown
      obtain ⟨hrefused, harguments, hname⟩ := hshown
      have hfield : Token.IsName field.name := by
        rw [hname]
        exact ⟨'p', "ost_POST_u".toList, rfl, rfl, List.all_eq_true.mp rfl⟩
      have hquery : Query.parse deepQuery = .ok ⟨.query, none, [nested 63]⟩ :=
        Query.parse_written (written_nested 63) (List.cons_ne_nil _ _) (by decide)
      match hrun : runOperation schema (.obj [("id", .int 1)]) ⟨.query, none, [nested 63]⟩,
        hrefused with
      | .error (.query error), hpath =>
          refine ⟨schema, root, field, error, .tooDeep, rfl, hroot, hfields, ?_, ?_,
            beq_iff_eq.mp hpath, ?_,
            rfl⟩
          · simp only [Argument.resolve, List.isEmpty_iff.mp harguments]
            rfl
          · simp only [run, hquery, ofQuery, Outcome.mapError_ok, Outcome.ok_bind, hrun]
          · simp only [run, parse_deepMutation hfield]
            rfl

end Execution

end JsonSelection

import JsonSelection.Proofs.Sample.Conflicts
import JsonSelection.Proofs.Schema.Ascending
import JsonSelection.Proofs.Schema.Bodies
import Mathlib.Data.List.Basic

/-!
# Paths to raw JSON

A path from a type descends through object types and lists of them and ends in a
field of raw JSON. The list of raw JSON fields holds the dotted paths from the
query root, each once and in depth-first order.

## What this module delivers

- `Schema.LeadsToJson`: the paths, as lists of fields.
- `Schema.Before`: their depth-first order.
- `Schema.mem_jsonPaths_iff`, `Schema.pairwise_jsonPaths`: a walk with enough
  fuel finds these paths in this order.
- `Schema.opaqueBelow_eq`: the walk of the library, with its guard, finds the
  same.
- `Schema.opaquePaths_of_build`: the list of a schema that is built.

The walk does not enter a type inside itself, and its fuel is the number of
types. Neither cuts a path off, because every step goes to a type of higher rank
(`Proofs/Schema/Ascending`).
-/

set_option autoImplicit false

namespace JsonSelection

namespace Schema

/-- A path of fields from a type through object types to a field of raw JSON.
Lists on the way do not count as steps. -/
inductive LeadsToJson (schema : Schema) : NamedType → List Field → Prop where
  | here {type : NamedType} {field : Field} : field ∈ type.fields →
      field.type.innermost = .json →
      LeadsToJson schema type [field]
  | inside {type : NamedType} {field : Field} {name : String} {path : List Field} :
      field ∈ type.fields → field.type.innermost = .named name →
      LeadsToJson schema (schema.typeNamed name) path → LeadsToJson schema type (field :: path)

/-- Depth-first order of paths from a type: by their first fields, and behind
one field in the same way. -/
inductive Before (schema : Schema) : NamedType → List Field → List Field → Prop where
  | earlier {type : NamedType} {field other : Field} {path rest : List Field} :
      [field, other].Sublist type.fields → Before schema type (field :: path) (other :: rest)
  | deeper {type : NamedType} {field : Field} {name : String} {path rest : List Field} :
      field ∈ type.fields → field.type.innermost = .named name →
      Before schema (schema.typeNamed name) path rest → Before schema type (field :: path)
        (field :: rest)

/-- The names of the fields of a path with points between them. -/
def dotted (path : List Field) : String :=
  ".".intercalate (path.map Field.name)

/-- The paths that begin with a field, for the paths from the type behind it. -/
def pathsFrom (schema : Schema) (paths : NamedType → List (List Field)) (field : Field) :
    List (List Field) :=
  match field.type.innermost with
  | .json => [[field]]
  | .named name => (paths (schema.typeNamed name)).map (field :: ·)
  | _ => []

/-- The paths from a type up to some length, in depth-first order. There is no
guard against a type inside itself. -/
def jsonPaths (schema : Schema) : Nat → NamedType → List (List Field)
  | 0, _ => []
  | fuel + 1, type => type.fields.flatMap (schema.pathsFrom (jsonPaths schema fuel))

variable {schema : Schema}

/-! ### The paths of a walk

The walk of the library keeps names and a text for the path. The one that is
compared with it here keeps the fields, and no guard. -/

theorem mem_pathsFrom_iff {paths : NamedType → List (List Field)} {field : Field}
    {path : List Field} :
    path ∈ schema.pathsFrom paths field ↔
      (field.type.innermost = .json ∧ path = [field]) ∨
        ∃ name rest, field.type.innermost = .named name ∧
          rest ∈ paths (schema.typeNamed name) ∧ path = field :: rest := by
  -- the three cases are raw JSON, an object type and a leaf
  rw [pathsFrom]
  split
  · next hjson => simp [hjson]
  · next name hnamed =>
      rw [hnamed, List.mem_map]
      constructor
      · rintro ⟨rest, hrest, rfl⟩
        exact Or.inr ⟨name, rest, rfl, hrest, rfl⟩
      · rintro (⟨hjson, -⟩ | ⟨other, rest, heq, hrest, rfl⟩)
        · cases hjson
        · obtain rfl := TypeRef.named.inj heq
          exact ⟨rest, hrest, rfl⟩
  · next hjson hnamed =>
      constructor
      · intro hmem
        cases hmem
      · rintro (⟨heq, -⟩ | ⟨name, rest, heq, -, -⟩)
        · exact absurd heq hjson
        · exact absurd heq (hnamed name)

theorem eq_cons_of_mem_pathsFrom {paths : NamedType → List (List Field)} {field : Field}
    {path : List Field} (h : path ∈ schema.pathsFrom paths field) : ∃ behind,
    path = field :: behind := by
  rcases mem_pathsFrom_iff.mp h with ⟨-, rfl⟩ | ⟨name, behind, -, -, rfl⟩
  · exact ⟨[], rfl⟩
  · exact ⟨behind, rfl⟩

/-- The walk finds the paths up to its fuel. -/
theorem mem_jsonPaths_iff {fuel : Nat} {type : NamedType} {path : List Field} :
    path ∈ schema.jsonPaths fuel type ↔ schema.LeadsToJson type path ∧
    path.length ≤ fuel := by
  induction fuel generalizing type path with
  | zero =>
      constructor
      · intro hmem
        cases hmem
      · rintro ⟨hleads, hlength⟩
        cases hleads <;> simp at hlength
  | succ fuel ih =>
      rw [jsonPaths, List.mem_flatMap]
      constructor
      · rintro ⟨field, hfield, hmem⟩
        -- a path ends at its first field or goes on in the type of that field
        rcases mem_pathsFrom_iff.mp hmem with ⟨hjson, rfl⟩ |
          ⟨name, rest, hnamed, hrest, rfl⟩
        · exact ⟨.here hfield hjson, by simp⟩
        · obtain ⟨hleads, hlength⟩ := ih.mp hrest
          exact ⟨.inside hfield hnamed hleads, Nat.succ_le_succ hlength⟩
      · rintro ⟨hleads, hlength⟩
        cases hleads with
        | here hfield hjson =>
            exact ⟨_, hfield, mem_pathsFrom_iff.mpr (Or.inl ⟨hjson, rfl⟩)⟩
        | @inside _ field name rest hfield hnamed hrest =>
            have hfound := ih.mpr ⟨hrest, Nat.le_of_succ_le_succ hlength⟩
            exact ⟨field, hfield, mem_pathsFrom_iff.mpr
              (Or.inr ⟨name, rest, hnamed, hfound, rfl⟩)⟩

/-- The walk finds the paths in depth-first order. -/
theorem pairwise_jsonPaths (schema : Schema) (fuel : Nat) (type : NamedType) :
    (schema.jsonPaths fuel type).Pairwise (schema.Before type) := by
  induction fuel generalizing type with
  | zero => exact List.Pairwise.nil
  | succ fuel ih =>
      rw [jsonPaths, List.pairwise_flatMap]
      constructor
      · -- below one field
        intro field hfield
        rw [pathsFrom]
        split
        · exact List.pairwise_singleton _ _
        · next name hnamed =>
            rw [List.pairwise_map]
            exact (ih (schema.typeNamed name)).imp fun hbefore => .deeper hfield hnamed hbefore
        · exact List.Pairwise.nil
      · -- below two fields, of which one comes first
        rw [List.pairwise_iff_forall_sublist]
        intro field other hsublist path hpath rest hrest
        obtain ⟨behind, rfl⟩ := eq_cons_of_mem_pathsFrom hpath
        obtain ⟨behind', rfl⟩ := eq_cons_of_mem_pathsFrom hrest
        exact .earlier hsublist

/-! ### The guard of the walk

The types that were entered are of lower rank than the one that the walk is at,
and so the guard never finds the next one among them. -/

/-- A path written behind another one. Points stand between names, and none in
front. -/
def extendAll (path : String) (fields : List Field) : String :=
  fields.foldl (fun path field => extend path field.name) path

theorem namedInside?_of_innermost {type : TypeRef} {name : String}
    (h : type.innermost = .named name) :
    type.namedInside? = some name := by
  rw [TypeRef.namedInside?, h]

theorem refers_of_innermost {name other : String} {field : Field}
    (hfield : field ∈ (schema.typeNamed name).fields) (h : field.type.innermost = .named other) :
    schema.Refers name other :=
  reference_iff.mpr ⟨field, hfield, Or.inl (namedInside?_of_innermost h)⟩

/-- Where references go to higher ranks only, no type is met inside itself, and
the walk goes through all paths. -/
theorem opaqueBelow_eq (hrank : ∀ name other, schema.Refers name other → rank name < rank other)
    (fuel : Nat) (path : String) {entered : List String} {type : NamedType}
    (hentered : ∀ field ∈ type.fields, ∀ name, field.type.innermost = .named name →
      ∀ other ∈ entered, rank other < rank name) :
    schema.opaqueBelow fuel path entered type.fields =
      (schema.jsonPaths fuel type).map (extendAll path) := by
  induction fuel generalizing path entered type with
  | zero => rfl
  | succ fuel ih =>
      rw [opaqueBelow, jsonPaths, List.map_flatMap]
      apply List.flatMap_congr
      intro field hfield
      rw [pathsFrom]
      cases hinner : field.type.innermost with
      | json => rfl
      | named name =>
          have hlower := hentered field hfield name hinner
          have hnew : entered.contains name = false := by
            rw [← Bool.not_eq_true, List.contains_iff_mem]
            intro hmem
            exact Nat.lt_irrefl _ (hlower name hmem)
          -- behind this name come names of higher rank, so none of those entered before
          have hbehind : ∀ field ∈ (schema.typeNamed name).fields, ∀ inner,
              field.type.innermost = .named inner →
              ∀ other ∈ name :: entered, rank other < rank inner := by
            intro next hnext inner hnamed other hother
            have hup := hrank name inner (refers_of_innermost hnext hnamed)
            rcases List.mem_cons.mp hother with rfl | hother
            · exact hup
            · exact Nat.lt_trans (hlower other hother) hup
          simp only [hnew, Bool.false_eq_true, if_false, ih _ hbehind, List.map_map]
          rfl
      | _ => rfl

/-- A name behind which there is a path is registered. -/
theorem mem_keys_of_leadsToJson {name : String} {path : List Field}
    (h : schema.LeadsToJson (schema.typeNamed name) path) : name ∈ Entries.keys schema.types := by
  rw [← Entries.has_iff_mem_keys, Entries.has]
  cases hfind : Entries.find? schema.types name with
  | some type => rfl
  | none =>
      -- a name that is not registered stands for a type without fields
      have hnone : (schema.typeNamed name).fields = [] := by
        rw [typeNamed, Registry.typeNamed, hfind]
        rfl
      cases h with
      | here hfield _ =>
          rw [hnone] at hfield
          cases hfield
      | inside hfield _ _ =>
          rw [hnone] at hfield
          cases hfield

/-- A path leads through names of rising ranks, each of them registered. -/
theorem names_of_leadsToJson (hrank : ∀ name other, schema.Refers name other →
    rank name < rank other) {type : NamedType} {path : List Field}
      (h : schema.LeadsToJson type path) {least : Nat}
    (hleast : ∀ field ∈ type.fields, ∀ name, field.type.innermost = .named name →
      least < rank name) :
    ∃ names : List String, path.length = names.length + 1 ∧
      names ⊆ Entries.keys schema.types ∧
      names.Pairwise (fun name other => rank name < rank other) ∧ ∀ name ∈ names,
      least < rank name := by
  induction h generalizing least with
  | here _ _ =>
      exact ⟨[], rfl, List.nil_subset _, List.Pairwise.nil, fun _ hname => nomatch hname⟩
  | @inside type field name path hfield hnamed hpath ih =>
      have hhigher := hleast field hfield name hnamed
      obtain ⟨names, hlength, hregistered, hrising, hnames⟩ :=
        ih fun next hnext inner hinner => hrank name inner (refers_of_innermost hnext hinner)
      refine ⟨name :: names, by simp [hlength],
        List.cons_subset.mpr ⟨mem_keys_of_leadsToJson hpath, hregistered⟩,
        List.pairwise_cons.mpr ⟨hnames, hrising⟩, ?_⟩
      intro other hother
      rcases List.mem_cons.mp hother with rfl | hother
      · exact hhigher
      · exact Nat.lt_trans hhigher (hnames other hother)

/-- No path is longer than there are registered types. -/
theorem length_le_of_leadsToJson
    (hrank : ∀ name other, schema.Refers name other → rank name < rank other)
    {type : NamedType} {path : List Field} (h : schema.LeadsToJson type path)
    (htype : ∀ field ∈ type.fields, ∀ name, field.type.innermost = .named name →
      0 < rank name) :
    path.length ≤ schema.types.length + 1 := by
  obtain ⟨names, hlength, hregistered, hrising, -⟩ := names_of_leadsToJson hrank h htype
  have hdistinct : names.Nodup := hrising.imp fun hlt heq => Nat.ne_of_lt hlt (congrArg rank heq)
  have hle := hdistinct.length_le_of_subset hregistered
  rw [Entries.keys, List.length_map] at hle
  omega

/-! ### Dotted paths -/

theorem extend_of_ne {path : String} (h : path ≠ "") (name : String) :
    extend path name = path ++ "." ++ name := by
  rw [extend, String.isEmpty_eq_false_iff.mpr h]
  rfl

theorem intercalate_append (path name : String) (rest : List String) :
    ".".intercalate ((path ++ "." ++ name) :: rest) =
      path ++ "." ++ ".".intercalate (name :: rest) := by
  cases rest with
  | nil => rw [String.intercalate_singleton, String.intercalate_singleton]
  | cons next others =>
      rw [String.intercalate_cons_cons, String.intercalate_cons_cons]
      simp only [String.append_assoc]

theorem extendAll_of_ne {path : String} (h : path ≠ "") (fields : List Field) :
    extendAll path fields = ".".intercalate (path :: fields.map Field.name) := by
  induction fields generalizing path with
  | nil => exact String.intercalate_singleton.symm
  | cons field rest ih =>
      have hne : path ++ "." ++ field.name ≠ "" := by
        intro hempty
        have hlength := congrArg String.length hempty
        have hpoint : ".".length = 1 := rfl
        rw [String.length_append, String.length_append, hpoint, String.length_empty] at hlength
        omega
      have hstep : extendAll path (field :: rest) = extendAll (extend path field.name) rest := rfl
      rw [hstep, extend_of_ne h, ih hne, intercalate_append, List.map_cons,
        String.intercalate_cons_cons]

/-- From the root on a path is written as its names with points between them. -/
theorem extendAll_eq_dotted {field : Field} (h : field.name ≠ "") (rest : List Field) :
    extendAll "" (field :: rest) = dotted (field :: rest) :=
  extendAll_of_ne h rest

/-! ### Paths with the same names

Distinct paths could have one dotted path if names had points, or if two fields
of a type had one name. Neither occurs in a schema that is built. -/

/-- A type whose fields can be told apart by their names, and lead to such types
again. -/
structure Walkable (names : String → Prop) (type : NamedType) : Prop where
  legible : type.Legible
  inside : ∀ field ∈ type.fields, field.type.Inside names

section Names

variable {names : String → Prop} (hnames : ∀ name, names name →
  Walkable names (schema.typeNamed name))

include hnames

theorem isName_of_leadsToJson {type : NamedType} {path : List Field} (htype : Walkable names type)
    (h : schema.LeadsToJson type path) : ∀ field ∈ path, Token.IsName field.name := by
  induction h with
  | here hfield _ =>
      intro field hmem
      rw [List.mem_singleton.mp hmem]
      exact htype.legible.names _ (List.mem_map_of_mem hfield)
  | inside hfield hnamed _ ih =>
      intro field hmem
      rcases List.mem_cons.mp hmem with rfl | hmem
      · exact htype.legible.names _ (List.mem_map_of_mem hfield)
      · have hinner := htype.inside _ hfield _ (namedInside?_of_innermost hnamed)
        exact ih (hnames _ hinner) field hmem

/-- Of two paths in order the names differ somewhere. -/
theorem names_ne_of_before {type : NamedType} {path other : List Field}
    (htype : Walkable names type) (h : schema.Before type path other) :
    path.map Field.name ≠ other.map Field.name := by
  induction h with
  | earlier hsublist =>
      intro heq
      have hdistinct := htype.legible.distinct.sublist (hsublist.map Field.name)
      rw [List.map_cons, List.map_cons, (List.cons.inj heq).1] at hdistinct
      exact (List.nodup_cons.mp hdistinct).1 List.mem_cons_self
  | deeper hfield hnamed _ ih =>
      intro heq
      have hinner := htype.inside _ hfield _ (namedInside?_of_innermost hnamed)
      exact ih (hnames _ hinner) (List.cons.inj heq).2

/-- Of two paths in order the dotted paths differ, since no name has a point. -/
theorem dotted_ne_of_before {type : NamedType} {path other : List Field}
    (htype : Walkable names type) (hpath : schema.LeadsToJson type path)
    (hother : schema.LeadsToJson type other) (h : schema.Before type path other) :
    dotted path ≠ dotted other := by
  have hpointless : ∀ {path : List Field}, schema.LeadsToJson type path →
      path.map Field.name ≠ [] ∧ ∀ name ∈ path.map Field.name, '.' ∉ name.toList := by
    intro path hleads
    refine ⟨?_, ?_⟩
    · cases hleads <;> exact List.cons_ne_nil _ _
    · intro name hmem hpoint
      obtain ⟨field, hfield, rfl⟩ := List.mem_map.mp hmem
      have hchar := (isName_of_leadsToJson hnames htype hleads field hfield).chars '.' hpoint
      revert hchar
      decide
  intro heq
  obtain ⟨hne, hkeys⟩ := hpointless hpath
  obtain ⟨hne', hkeys'⟩ := hpointless hother
  exact names_ne_of_before hnames htype h (Sample.dotted_injective hne hne' hkeys hkeys' heq)

end Names

/-! ### Built schemas -/

variable {limits : Limits} {data : Json} {method path : String} {body : Option Json}

/-- The query root of a schema is registered under its own name. -/
theorem query_of_build (h : build limits data method path body = .ok schema) :
    schema.query.name = "Query" ∧ schema.typeNamed "Query" = schema.query := by
  obtain ⟨names, hdeclares⟩ := declares_of_build h
  obtain ⟨outputs, hoffers⟩ := offers_of_build (anyPage limits) h
  have hown := hdeclares.own "Query"
  rw [hoffers.registered] at hown
  exact ⟨hown, hoffers.registered⟩

/-- Every type that the query root leads to has distinct names for its fields. -/
theorem walkable_of_build (h : build limits data method path body = .ok schema) :
    ∃ names, Walkable names schema.query ∧
      ∀ name, names name → Walkable names (schema.typeNamed name) := by
  obtain ⟨names, hdeclares⟩ := declares_of_build h
  obtain ⟨hown, hregistered⟩ := query_of_build h
  have hled : ∀ name, names false name → Walkable (names false) (schema.typeNamed name) := by
    intro name hname
    have hled := hdeclares.led false name hname
    exact ⟨hled.declared.legible, hled.fields⟩
  refine ⟨names false, ?_, hled⟩
  rw [← hregistered]
  apply hled
  apply hdeclares.roots
  rw [roots, hown]
  exact List.mem_cons_self

/-- From the query root on all names are of higher rank. -/
theorem rank_query_lt (h : build limits data method path body = .ok schema) :
    ∀ field ∈ schema.query.fields, ∀ name, field.type.innermost = .named name →
      rank "Query" < rank name := by
  intro field hfield name hnamed
  rw [← (query_of_build h).2] at hfield
  exact rank_lt_of_refers h (refers_of_innermost hfield hnamed)

/-- The paths of the list are those of the walk. -/
theorem opaquePaths_eq (h : build limits data method path body = .ok schema) :
    schema.opaquePaths = (schema.jsonPaths (schema.types.length + 1) schema.query).map dotted := by
  obtain ⟨names, hquery, hnames⟩ := walkable_of_build h
  -- the walk goes down in rank, so no type on the way is entered twice
  have hentered : ∀ field ∈ schema.query.fields, ∀ name,
    field.type.innermost = .named name →
      ∀ other ∈ [schema.query.name], rank other < rank name := by
    intro field hfield name hnamed other hother
    rw [List.mem_singleton.mp hother, (query_of_build h).1]
    exact rank_query_lt h field hfield name hnamed
  rw [opaquePaths, opaqueBelow_eq (fun _ _ => rank_lt_of_refers h) _ "" hentered]
  apply List.map_congr_left
  intro fields hfields
  have hleads := (mem_jsonPaths_iff.mp hfields).1
  have hvalid := isName_of_leadsToJson hnames hquery hleads
  cases fields with
  | nil => cases hleads
  | cons field rest =>
      apply extendAll_eq_dotted
      intro hempty
      obtain ⟨first, others, hlist, -⟩ := hvalid field List.mem_cons_self
      rw [hempty] at hlist
      cases hlist

/-- A schema is built for every response. The list of its raw JSON fields holds
the dotted paths that lead from the query root to raw JSON, in depth-first order
and each once, and no type leads to itself. -/
theorem opaquePaths_of_build (limits : Limits) (data : Json) (method path : String)
    (body : Option Json) :
    (body = none → limits.charsPerUnit ≠ 0 →
        ∃ schema, build limits data method path body = .ok schema) ∧
      ∀ schema, build limits data method path body = .ok schema →
        (∃ paths : List (List Field), schema.opaquePaths = paths.map dotted ∧
          paths.Pairwise (schema.Before schema.query) ∧
          ∀ fields, fields ∈ paths ↔ schema.LeadsToJson schema.query fields) ∧
        schema.opaquePaths.Nodup ∧
        ∀ name, ¬ Relation.TransGen schema.Refers name name := by
  refine ⟨?_, ?_⟩
  · rintro rfl hunit
    exact build_of_reading hunit data method path fun _ => rfl
  · intro schema h
    obtain ⟨names, hquery, hnames⟩ := walkable_of_build h
    have hpaths := opaquePaths_eq h
    have hordered := pairwise_jsonPaths schema (schema.types.length + 1) schema.query
    refine ⟨⟨_, hpaths, hordered, ?_⟩, ?_, irreflexive_refers h⟩
    · intro fields
      rw [mem_jsonPaths_iff]
      constructor
      · exact And.left
      · intro hleads
        -- types lead to types of a lower rank only, so no path is longer than the
        -- fuel
        refine ⟨hleads, length_le_of_leadsToJson (fun _ _ => rank_lt_of_refers h) hleads ?_⟩
        intro field hfield name hnamed
        exact Nat.lt_of_le_of_lt (Nat.zero_le _) (rank_query_lt h field hfield name hnamed)
    · rw [hpaths]
      apply List.pairwise_map.mpr
      apply hordered.imp_of_mem
      intro first second hfirst hsecond hbefore
      exact dotted_ne_of_before hnames hquery (mem_jsonPaths_iff.mp hfirst).1
        (mem_jsonPaths_iff.mp hsecond).1 hbefore

/-- The mixed list inside a list of objects is raw JSON, and a path leads to it. -/
theorem opaquePaths_of_build_mixed : ∃ schema,
    build {} (.obj [("rows", .arr [.obj [("tags", .arr [.int 1, .str "a"])]])]) "GET" "/" none =
        .ok schema ∧
      ∃ fields, schema.LeadsToJson schema.query fields ∧ dotted fields = "rows.tags" := by
  obtain ⟨hbuilt, hpaths⟩ := opaquePaths_of_build {}
    (.obj [("rows", .arr [.obj [("tags", .arr [.int 1, .str "a"])]])]) "GET" "/" none
  obtain ⟨schema, hschema⟩ := hbuilt rfl (by decide)
  -- the list is evaluated, and the path is told by what it holds
  have hlisted : (match build {} (.obj [("rows", .arr [.obj [("tags", .arr [.int 1, .str "a"])]])])
        "GET" "/" none with
      | .ok schema => schema.opaquePaths
      | .error _ => []) = ["rows.tags"] := by
    decide +kernel
  obtain ⟨⟨paths, heq, -, hmem⟩, -, -⟩ := hpaths schema hschema
  simp only [hschema, heq] at hlisted
  have hlast : "rows.tags" ∈ paths.map dotted := by
    rw [hlisted]
    exact List.mem_cons_self
  obtain ⟨fields, hfields, hdotted⟩ := List.mem_map.mp hlast
  exact ⟨schema, hschema, fields, (hmem fields).mp hfields, hdotted⟩

end Schema

end JsonSelection

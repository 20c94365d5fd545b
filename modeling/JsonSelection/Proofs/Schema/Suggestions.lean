import JsonSelection.Proofs.Query.Running
import JsonSelection.Schema.Suggestion

/-!
# Suggested queries run

The texts of suggestions are made of words, and what they write fits the schema,
so they run on every value that the schema serves. The one exception is the
suggestion of elements beside their count on a response object with keys of
these names, when the count holds objects.

## What this module delivers

- `Suggestion.Writes`: words that write selections, all of which fit a type.
- `Suggestion.writes_selection`: the selection of a type to some depth is such a
  text.
- `Suggestion.runs_of_writes`: a text that writes a set of the root runs.
- `Suggestion.runs_ofCount_iff`: when the suggestion beside a count runs.
- `Suggestion.runs_iff`: a suggestion that is complete runs on the value that
  its schema was built from, unless it is that one and the count holds objects.

The suggestion of a mutation leaves a place for its input, so it is complete
only without one.
-/

set_option autoImplicit false

namespace JsonSelection

namespace TypeRef

theorem innermost_nullable (type : TypeRef) : type.nullable.innermost = type.innermost := by
  cases type <;> rfl

theorem innermost_element? {type element : TypeRef} (h : type.element? = some element) :
    element.innermost = type.innermost := by
  unfold element? at h
  split at h
  · next item page heq =>
      obtain rfl := Option.some.inj h
      rw [innermost_nullable item, ← innermost_nullable type, heq]
      rfl
  · cases h

theorem namedInside?_of_isLeaf {type : TypeRef} (h : type.isLeaf = true) :
    type.namedInside? = none := by
  rw [namedInside?, ← innermost_nullable]
  unfold isLeaf at h
  split at h
  · next heq => rw [heq]; rfl
  · next heq => rw [heq]; rfl
  · cases h

end TypeRef

namespace Query

theorem Written.append {first second : List Selection} {words more : List String}
    {height below : Nat} (h : Written first words height) (h' : Written second more below) :
    Written (first ++ second) (words ++ more) (max height below) := by
  induction h with
  | nil =>
      rw [Nat.zero_max]
      exact h'
  | leaf hname _ ih => exact .leaf hname ih
  | node hname hchildren hnonempty _ _ ih =>
      rw [Nat.max_assoc, List.cons_append, List.cons_append, List.cons_append, List.append_assoc,
        List.cons_append]
      exact .node hname hchildren hnonempty ih

end Query

namespace Execution

theorem Admits.append {schema : Schema} {type : NamedType} {first second : List Selection}
    (h : Admits schema type first) (h' : Admits schema type second) :
    Admits schema type (first ++ second) := by
  induction h with
  | nil => exact h'
  | leaf hfield hleaf _ ih => exact .leaf hfield hleaf (ih h')
  | node hfield hnode hnonempty hchildren _ _ ih =>
      exact .node hfield hnode hnonempty hchildren (ih h')

end Execution

namespace Suggestion

open Query Execution

/-- Words that write at least one selection, all of which fit a type. The bound
is on the height of the selections. -/
def Writes (schema : Schema) (type : NamedType) (bound : Nat) (words : List String) : Prop :=
  ∃ selections height, Written selections words height ∧ height ≤ bound ∧
    selections ≠ [] ∧
    Admits schema type selections

theorem Writes.words_ne_nil {schema : Schema} {type : NamedType} {bound : Nat} {words : List String}
    (h : Writes schema type bound words) : words ≠ [] := by
  obtain ⟨selections, height, hwritten, -, hnonempty, -⟩ := h
  rintro rfl
  cases hwritten
  exact hnonempty rfl

theorem Writes.append {schema : Schema} {type : NamedType} {bound : Nat} {words more : List String}
    (h : Writes schema type bound words) (h' : Writes schema type bound more) :
    Writes schema type bound (words ++ more) := by
  obtain ⟨first, height, hfirst, hheight, hnonempty, hadmits⟩ := h
  obtain ⟨second, below, hsecond, hbelow, -, hadmits'⟩ := h'
  exact ⟨first ++ second, max height below, hfirst.append hsecond,
    Nat.max_le.mpr ⟨hheight, hbelow⟩,
    List.append_ne_nil_of_left_ne_nil hnonempty second, hadmits.append hadmits'⟩

theorem Writes.weaken {schema : Schema} {type : NamedType} {bound more : Nat} {words : List String}
    (h : Writes schema type bound words) (hle : bound ≤ more) :
    Writes schema type more words := by
  obtain ⟨selections, height, hwritten, hheight, hrest⟩ := h
  exact ⟨selections, height, hwritten, Nat.le_trans hheight hle, hrest⟩

/-- A field without an object type inside is written by its name. -/
theorem writes_leaf {schema : Schema} {sources : Json → Prop} {type : NamedType}
    (htype : type.Selectable sources) {field : Field} (hfield : field ∈ type.fields)
    (hleaf : field.type.namedInside? = none) (bound : Nat) :
    Writes schema type bound [field.name] :=
  ⟨_, 0, .leaf (htype.fields field hfield).name .nil, Nat.zero_le bound, List.cons_ne_nil _ _,
    .leaf (NamedType.field?_of_mem htype hfield) hleaf .nil⟩

/-- A field with an object type inside is written with a set for that type. -/
theorem writes_node {schema : Schema} {sources : Json → Prop} {type : NamedType}
    (htype : type.Selectable sources) {field : Field} (hfield : field ∈ type.fields)
    {inner : String} (hnode : field.type.namedInside? = some inner) {bound : Nat}
    {words : List String} (hwords : Writes schema (schema.typeNamed inner) bound words) :
    Writes schema type (bound + 1) (field.name :: "\x7b" :: (words ++ ["\x7d"])) := by
  obtain ⟨children, height, hwritten, hheight, hnonempty, hadmits⟩ := hwords
  refine ⟨_, max (height + 1) 0, .node (htype.fields field hfield).name hwritten hnonempty .nil,
    ?_,
    List.cons_ne_nil _ _, .node (NamedType.field?_of_mem htype hfield) hnode
      hnonempty hadmits .nil⟩
  omega

/-- Texts that write selections of one type, joined by blanks, write all of them. -/
theorem writes_join {schema : Schema} {type : NamedType} {bound : Nat} {parts : List String}
    (hnonempty : parts ≠ [])
    (h : ∀ part ∈ parts, ∃ words, part = " ".intercalate words ∧
      Writes schema type bound words) :
    ∃ words, " ".intercalate parts = " ".intercalate words ∧
      Writes schema type bound words := by
  induction parts with
  | nil => exact absurd rfl hnonempty
  | cons part rest ih =>
      obtain ⟨words, hpart, hwords⟩ := h part List.mem_cons_self
      by_cases hrest : rest = []
      · subst hrest
        exact ⟨words, by rw [String.intercalate_singleton, hpart], hwords⟩
      · obtain ⟨more, hjoin, hmore⟩ :=
          ih hrest fun other hother => h other (List.mem_cons_of_mem _ hother)
        refine ⟨words ++ more, ?_, hwords.append hmore⟩
        rw [String.intercalate_cons_of_ne_nil hrest, hjoin, hpart,
          String.intercalate_append_of_ne_nil hwords.words_ne_nil hmore.words_ne_nil]

/-- Words between braces. -/
theorem braced_eq {parts words : List String} (h : " ".intercalate parts = " ".intercalate words)
    (hwords : words ≠ []) : braced parts = " ".intercalate ("\x7b" :: (words ++ ["\x7d"])) := by
  rw [braced, h, String.intercalate_cons_of_ne_nil (by simp),
    String.intercalate_append_of_ne_nil hwords (List.cons_ne_nil _ _), String.intercalate_singleton]
  exact String.toList_inj.mp (by simp)

/-- Texts that write selections of one type, between braces, write a set. -/
theorem writes_braced {schema : Schema} {type : NamedType} {bound : Nat} {parts : List String}
    (hnonempty : parts ≠ [])
    (h : ∀ part ∈ parts, ∃ words, part = " ".intercalate words ∧
      Writes schema type bound words) :
    ∃ words, braced parts = " ".intercalate ("\x7b" :: (words ++ ["\x7d"])) ∧
      Writes schema type bound words := by
  obtain ⟨words, hjoin, hwords⟩ := writes_join hnonempty h
  exact ⟨words, braced_eq hjoin hwords.words_ne_nil, hwords⟩

theorem mem_leafNames {type : NamedType} {name : String} (h : name ∈ leafNames type) :
    ∃ field ∈ type.fields, field.name = name ∧ field.type.namedInside? = none := by
  obtain ⟨field, hfield, rfl⟩ := List.mem_map.mp h
  obtain ⟨hmem, hleaf⟩ := List.mem_filter.mp hfield
  exact ⟨field, hmem, rfl, TypeRef.namedInside?_of_isLeaf hleaf⟩

/-- The first plain fields of a type, between braces. -/
theorem writes_leafNames {schema : Schema} {sources : Json → Prop} {type : NamedType}
    (htype : type.Selectable sources) {count : Nat}
    (hnonempty : ((leafNames type).take count).isEmpty = false) (bound : Nat) :
    ∃ words, braced ((leafNames type).take count) = " ".intercalate
      ("\x7b" :: (words ++ ["\x7d"])) ∧
      Writes schema type bound words := by
  refine writes_braced (by simpa using hnonempty) ?_
  intro name hname
  obtain ⟨field, hfield, rfl, hleaf⟩ := mem_leafNames (List.mem_of_mem_take hname)
  exact ⟨[field.name], String.intercalate_singleton.symm, writes_leaf htype hfield hleaf bound⟩

/-- A query text that writes a set of the root runs on what the schema serves. -/
theorem runs_of_writes {schema : Schema} {data : Json} (hserves : schema.Serves data) {bound : Nat}
    {words : List String} (hwords : Writes schema schema.query bound words)
    (hbound : bound < nesting) :
    ∃ result, run schema data (" ".intercalate ("\x7b" :: (words ++ ["\x7d"]))) = .ok result := by
  obtain ⟨selections, height, hwritten, hheight, hnonempty, hadmits⟩ := hwords
  have hparse := parse_written hwritten hnonempty (Nat.lt_of_le_of_lt hheight hbound)
  obtain ⟨result, hresult⟩ := hserves.runs hadmits
  refine ⟨result, ?_⟩
  simp only [run, hparse, ofQuery, Outcome.mapError_ok, Outcome.ok_bind]
  exact hresult

theorem namedInside?_target (type : TypeRef) : (target type).namedInside? = type.namedInside? := by
  have hinnermost : (target type).innermost = type.innermost := by
    rw [target, ← TypeRef.innermost_nullable type]
    cases helement : type.nullable.element? with
    | none => rfl
    | some element => exact TypeRef.innermost_element? helement
  rw [TypeRef.namedInside?, TypeRef.namedInside?, hinnermost]

/-- Nested selections are sets that fit their types and are lower than a bound. -/
def WritesNested (schema : Schema) (bound : Nat) (nested : String → Option String) : Prop :=
  ∀ name text, Underscored name → nested name = some text →
    ∃ words, text = " ".intercalate ("\x7b" :: (words ++ ["\x7d"])) ∧
      ∃ below, below < bound ∧ Writes schema (schema.typeNamed name) below words

/-- What is shown of a field fits the type of the field when the nested
selections do. -/
theorem writes_part {schema : Schema} {sources : Json → Prop} {type : NamedType}
    (htype : type.Selectable sources) {bound : Nat} {nested : String → Option String}
    (hnested : WritesNested schema bound nested) {field : Field} (hfield : field ∈ type.fields)
    {text : String} (h : part nested field = some text) :
    ∃ words, text = " ".intercalate words ∧ Writes schema type bound words := by
  simp only [part] at h
  -- a leaf is written by its name, and a field with an object by its nested
  -- selection
  split at h
  · next hleaf =>
      obtain rfl := Option.some.inj h
      have hnone := TypeRef.namedInside?_of_isLeaf hleaf
      rw [namedInside?_target] at hnone
      exact ⟨[field.name], String.intercalate_singleton.symm,
        writes_leaf htype hfield hnone bound⟩
  · split at h
    · next inner htarget =>
        obtain ⟨selected, hselected, rfl⟩ := Option.map_eq_some_iff.mp h
        have hinner : field.type.namedInside? = some inner := by
          rw [← namedInside?_target, htarget]
          rfl
        have hunderscored := (htype.fields field hfield).inside inner hinner
        obtain ⟨words, rfl, below, hbelow, hwords⟩ :=
          hnested inner selected hunderscored hselected
        refine ⟨field.name :: "\x7b" :: (words ++ ["\x7d"]), ?_, ?_⟩
        · rw [String.intercalate_cons_of_ne_nil (List.cons_ne_nil _ _)]
        · exact (writes_node htype hfield hinner hwords).weaken hbelow
    · cases h

theorem writes_selectionWith {schema : Schema} {sources : Json → Prop} {type : NamedType}
    (htype : type.Selectable sources) {bound : Nat} {nested : String → Option String}
    (hnested : WritesNested schema bound nested) {text : String}
    (h : selectionWith nested type = some text) :
    ∃ words, text = " ".intercalate ("\x7b" :: (words ++ ["\x7d"])) ∧
      Writes schema type bound words := by
  simp only [selectionWith] at h
  split at h
  · cases h
  · next hnonempty =>
      obtain rfl := Option.some.inj h
      refine writes_braced (by simpa using hnonempty) ?_
      intro shown hshown
      obtain ⟨field, hfield, hpart⟩ := List.mem_filterMap.mp (List.mem_of_mem_take hshown)
      exact writes_part htype hnested hfield hpart

/-- The selection of a type to some depth is a set that fits the type. -/
theorem writes_selection {schema : Schema}
    (hinside : ∀ name, Underscored name → (schema.typeNamed name).Selectable fun _ => True)
    (levels : Nat) {sources : Json → Prop} {type : NamedType} (htype : type.Selectable sources)
    {text : String} (h : selection schema levels type = some text) :
    ∃ words, text = " ".intercalate ("\x7b" :: (words ++ ["\x7d"])) ∧
      Writes schema type levels words := by
  induction levels generalizing sources type text with
  | zero =>
      have hnested : WritesNested schema 0 fun _ => none := by
        intro name text _ hnone
        cases hnone
      exact writes_selectionWith htype hnested h
  | succ levels ih =>
      have hnested : WritesNested schema (levels + 1) fun name =>
          selection schema levels (schema.typeNamed name) := by
        intro name text hname hselected
        obtain ⟨words, heq, hwords⟩ := ih (hinside name hname) hselected
        exact ⟨words, heq, levels, Nat.lt_succ_self levels, hwords⟩
      exact writes_selectionWith htype hnested h

theorem elementType?_eq_some {schema : Schema} {field : Field} {element : NamedType}
    (h : elementType? schema field = some element) :
    ∃ inner, field.type.namedInside? = some inner ∧ element = schema.typeNamed inner := by
  unfold elementType? at h
  split at h
  · next inner helement =>
      obtain rfl := Option.some.inj h
      refine ⟨inner, ?_, rfl⟩
      rw [TypeRef.namedInside?, ← TypeRef.innermost_element? helement]
      rfl
  · cases h

/-! ### The suggestions one by one

Each suggestion is an operation that is put together from fields of the root.
For each the words are given, and with them the selections that they write. -/

section Serves

variable {schema : Schema} {data : Json}

theorem runs_ofScalars (hserves : schema.Serves data) {suggestion : Suggestion}
    (h : suggestion ∈ ofScalars schema) : ∃ result, run schema data suggestion.query =
      .ok result := by
  simp only [ofScalars] at h
  split at h
  · cases h
  · next hnonempty =>
      obtain rfl := List.mem_singleton.mp h
      have hempty := Bool.eq_false_iff.mpr hnonempty
      obtain ⟨words, htext, hwords⟩ := writes_leafNames hserves.query hempty 0
      rw [htext]
      exact runs_of_writes hserves hwords (by decide)

theorem runs_ofAll (hserves : schema.Serves data) {suggestion : Suggestion}
    (h : ofAll schema = some suggestion) : ∃ result, run schema data suggestion.query =
      .ok result := by
  obtain ⟨text, hselection, rfl⟩ := Option.map_eq_some_iff.mp h
  obtain ⟨words, rfl, hwords⟩ := writes_selection hserves.inside fullDepth
    hserves.query hselection
  exact runs_of_writes hserves hwords (by decide)

/-- A list field of the root is written with the plain fields of its elements. -/
theorem writes_elements (hserves : schema.Serves data) {field : Field}
    (hfield : field ∈ schema.query.fields) {element : NamedType}
    (helement : elementType? schema field = some element) {count : Nat}
    (hnonempty : ((leafNames element).take count).isEmpty = false) :
    ∃ words, field.name ++ " " ++ braced ((leafNames element).take count) =
      " ".intercalate words ∧ Writes schema schema.query 1 words := by
  obtain ⟨inner, hinner, rfl⟩ := elementType?_eq_some helement
  have hunderscored := (hserves.query.fields field hfield).inside inner hinner
  obtain ⟨words, htext, hwords⟩ :=
    writes_leafNames (hserves.inside inner hunderscored) hnonempty 0
  refine ⟨field.name :: "\x7b" :: (words ++ ["\x7d"]), ?_,
    writes_node hserves.query hfield hinner hwords⟩
  rw [htext, String.intercalate_cons_of_ne_nil (List.cons_ne_nil _ _)]

theorem runs_ofList (hserves : schema.Serves data) {field : Field}
    (hfield : field ∈ schema.query.fields) {suggestion : Suggestion}
    (h : ofList schema field = some suggestion) :
    ∃ result, run schema data suggestion.query = .ok result := by
  obtain ⟨element, helement, h⟩ := Option.bind_eq_some_iff.mp h
  simp only at h
  split at h
  · cases h
  · next hnonempty =>
      obtain rfl := Option.some.inj h
      obtain ⟨words, htext, hwords⟩ :=
        writes_elements hserves hfield helement (Bool.eq_false_iff.mpr hnonempty)
      have hjoin : " ".intercalate [field.name ++ " " ++ braced ((leafNames element).take
          fieldsPerLevel)] = " ".intercalate words := String.intercalate_singleton.trans htext
      rw [braced_eq hjoin hwords.words_ne_nil]
      exact runs_of_writes hserves hwords (by decide)

/-- Words between two others. -/
theorem intercalate_between (first : String) {words : List String} (h : words ≠ [])
    (last : String) :
    first ++ " " ++ " ".intercalate words ++ (" " ++ last) =
      " ".intercalate (first :: (words ++ [last])) := by
  rw [String.intercalate_cons_of_ne_nil (List.append_ne_nil_of_left_ne_nil h _),
    String.intercalate_append_of_ne_nil h (List.cons_ne_nil _ _), String.intercalate_singleton]
  simp only [String.append_assoc]

/-- The query of the suggestion beside a count, as it is parsed. -/
theorem parse_ofCount (hserves : schema.Serves data) {suggestion : Suggestion}
    (h : ofCount schema = some suggestion) :
    ∃ items children inner, items ∈ schema.query.fields ∧ items.name = "items" ∧
      items.type.namedInside? = some inner ∧ children ≠ [] ∧
      Admits schema (schema.typeNamed inner) children ∧
      parse suggestion.query =
        .ok ⟨.query, none, [⟨"items", none, [], children⟩,
          ⟨"_count", none, [], []⟩]⟩ := by
  obtain ⟨items, hitems, h⟩ := Option.bind_eq_some_iff.mp h
  obtain ⟨count, hcount, h⟩ := Option.bind_eq_some_iff.mp h
  obtain ⟨element, helement, h⟩ := Option.bind_eq_some_iff.mp h
  simp only at h
  split at h
  · cases h
  · next hnonempty =>
      obtain rfl := Option.some.inj h
      obtain ⟨hmem, hname⟩ := name_of_field? hitems
      obtain ⟨inner, hinner, rfl⟩ := elementType?_eq_some helement
      have hunderscored := (hserves.query.fields items hmem).inside inner hinner
      obtain ⟨words, htext, children, height, hwritten, hheight, hchildren, hadmits⟩ :=
        writes_leafNames (hserves.inside inner hunderscored) (Bool.eq_false_iff.mpr hnonempty) 0
      refine ⟨items, children, inner, hmem, hname, hinner, hchildren, hadmits, ?_⟩
      have hcountName := (name_of_field? hcount).2
      have hitemsWord := (hserves.query.fields items hmem).name
      have hcountWord := (hserves.query.fields count (name_of_field? hcount).1).name
      rw [hname] at hitemsWord
      rw [hcountName] at hcountWord
      -- the text is put together from pieces, and as a whole it writes these
      -- selections
      have hall : Written [⟨"items", none, [], children⟩, ⟨"_count", none, [], []⟩]
          ("items" :: ("\x7b" :: (words ++ ["\x7d"]) ++ ["_count"])) (max (height + 1) 0) := by
        rw [List.cons_append, List.append_assoc]
        exact .node hitemsWord hwritten hchildren (.leaf hcountWord .nil)
      have hjoin : " ".intercalate
          ["items " ++ braced ((leafNames (schema.typeNamed inner)).take fieldsPerItem) ++
            " _count"] =
          " ".intercalate ("items" :: ("\x7b" :: (words ++ ["\x7d"]) ++ ["_count"])) := by
        rw [String.intercalate_singleton, htext]
        exact intercalate_between "items" (List.cons_ne_nil "\x7b" (words ++ ["\x7d"])) "_count"
      have hparse := parse_written hall (List.cons_ne_nil _ _) (by
        have hnesting : nesting = 64 := rfl
        omega)
      rw [← braced_eq hjoin (List.cons_ne_nil _ _)] at hparse
      exact hparse

theorem count_of_ofCount {suggestion : Suggestion} (h : ofCount schema = some suggestion) :
    ∃ count, schema.query.field? "_count" = some count := by
  obtain ⟨_, -, h⟩ := Option.bind_eq_some_iff.mp h
  obtain ⟨count, hcount, -⟩ := Option.bind_eq_some_iff.mp h
  exact ⟨count, hcount⟩

/-- The suggestion beside a count runs when the count needs no selection of its
own, and only then. -/
theorem runs_ofCount_iff (hserves : schema.Serves data) {suggestion : Suggestion}
    (h : ofCount schema = some suggestion) :
    (∃ result, run schema data suggestion.query = .ok result) ↔
      ∃ count, schema.query.field? "_count" = some count ∧ count.type.namedInside? = none := by
  obtain ⟨items, children, inner, hmem, hname, hinner, hnonempty, hadmits, hparse⟩ :=
    parse_ofCount hserves h
  have hitems : schema.query.field? "items" = some items :=
    hname ▸ NamedType.field?_of_mem hserves.query hmem
  obtain ⟨count, hcount⟩ := count_of_ofCount h
  simp only [run, hparse, ofQuery, Outcome.mapError_ok, Outcome.ok_bind]
  constructor
  · rintro ⟨result, hresult⟩
    refine ⟨count, hcount, ?_⟩
    cases hcountInner : count.type.namedInside? with
    | none => rfl
    | some other =>
        exfalso
        have hordinary := (hserves.query.fields count (name_of_field? hcount).1).ordinary
        -- the selection of the count has no braces, so an object type inside is
        -- refused
        obtain ⟨value, hvalue⟩ := runOne_of_runAll hresult
          ⟨"_count", none, [], []⟩ (by simp)
        obtain ⟨error, herror⟩ := runOne_missing hcount hordinary hcountInner data
          ([] ++ ["_count"])
        rw [show Selection.responseKey ⟨"_count", none, [], []⟩ = "_count" from rfl,
          herror] at hvalue
        cases hvalue
  · rintro ⟨count', hcount', hleaf⟩
    exact hserves.runs (.node hitems hinner hnonempty hadmits (.leaf hcount' hleaf .nil))

/-- A suggested mutation without input runs. -/
theorem runs_ofMutation (hserves : schema.Serves data) {root : NamedType}
    (hroot : schema.mutation = some root) {field : Field} (hfield : field ∈ root.fields)
    (harguments : field.arguments = []) {suggestion : Suggestion}
    (h : ofMutation schema field = some suggestion) :
    ∃ result, run schema data suggestion.query = .ok result := by
  obtain ⟨only, hfields, hmutation⟩ := hserves.mutation root hroot
  have honly := hfield
  rw [hfields] at honly
  obtain rfl := List.mem_singleton.mp honly
  have hnullable : field.type.nullable = .named "Query" := by
    rw [hmutation.type]
    rfl
  simp only [ofMutation, hnullable, harguments, List.isEmpty_nil, if_true] at h
  obtain ⟨text, hselection, rfl⟩ := Option.map_eq_some_iff.mp h
  rw [hserves.registered] at hselection
  obtain ⟨words, rfl, selections, height, hwritten, hheight, hnonempty, hadmits⟩ :=
    writes_selection hserves.inside 1 hserves.query hselection
  have hall : Written [⟨field.name, none, [], selections⟩]
      (field.name :: "\x7b" :: (words ++ "\x7d" :: [])) (max (height + 1) 0) :=
    .node hmutation.name hwritten hnonempty .nil
  have hnesting : max (height + 1) 0 < nesting := by
    have hvalue : nesting = 64 := rfl
    omega
  have hparse := parse_writtenMutation hall (List.cons_ne_nil _ _) hnesting
  -- the query of the suggestion in the words that the parser is known to read
  have htext : "mutation " ++ braced [field.name ++ "" ++ " " ++
      " ".intercalate ("\x7b" :: (words ++ ["\x7d"]))] =
      " ".intercalate ("mutation" :: "\x7b" ::
        (field.name :: "\x7b" :: (words ++ "\x7d" :: []) ++ ["\x7d"])) := by
    have hjoin : " ".intercalate [field.name ++ "" ++ " " ++
        " ".intercalate ("\x7b" :: (words ++ ["\x7d"]))] =
        " ".intercalate (field.name :: "\x7b" :: (words ++ "\x7d" :: [])) := by
      rw [String.intercalate_singleton, String.append_empty,
        String.intercalate_cons_of_ne_nil (List.cons_ne_nil _ _)]
    rw [braced_eq hjoin (List.cons_ne_nil _ _),
      String.intercalate_cons_of_ne_nil (List.cons_ne_nil _ _)]
    exact String.toList_inj.mp (by simp)
  obtain ⟨result, hresult⟩ := hserves.runs_mutation hroot hfield hadmits hnonempty
  refine ⟨result, ?_⟩
  rw [htext]
  simp only [run, hparse, ofQuery, Outcome.mapError_ok, Outcome.ok_bind]
  exact hresult

end Serves

/-- A suggested mutation with an input that is left to be filled in. Its text is
no query as it stands. -/
def LeavesInput (schema : Schema) (suggestion : Suggestion) : Prop :=
  ∃ root field, schema.mutation = some root ∧ field ∈ root.fields ∧
    field.arguments ≠ [] ∧
    ofMutation schema field = some suggestion

/-- The suggestion of elements beside a count that has objects inside. A count
of that kind needs selections of its own, which the text does not have. -/
def CountsObjects (schema : Schema) (suggestion : Suggestion) : Prop :=
  ofCount schema = some suggestion ∧
    ∃ count inner, schema.query.field? "_count" = some count ∧
    count.type.namedInside? = some inner

/-- A suggestion that is complete runs on the value that its schema was built
from, if and only if it is not the one of elements beside a count that has
objects inside. -/
theorem runs_iff {limits : Limits} (hmin : 0 ≤ limits.minListLimit)
    (hmax : 0 ≤ limits.maxListLimit) {data : Json} {method path : String} {body : Option Json}
    {schema : Schema} (hbuild : Schema.build limits data method path body = .ok schema)
    {suggestion : Suggestion} (hmem : suggestion ∈ all schema)
    (hcomplete : ¬ LeavesInput schema suggestion) :
    (∃ result, run schema data suggestion.query = .ok result) ↔
    ¬ CountsObjects schema suggestion := by
  have hserves := Schema.serves_of_build hmin hmax hbuild
  constructor
  · rintro hruns ⟨hcount, count, inner, hfield, hinner⟩
    obtain ⟨count', hfield', hleaf⟩ := (runs_ofCount_iff hserves hcount).mp hruns
    rw [hfield] at hfield'
    obtain rfl := Option.some.inj hfield'
    rw [hinner] at hleaf
    cases hleaf
  · intro hleaf
    simp only [all, List.mem_append, List.mem_filterMap, Option.mem_toList] at hmem
    -- one case for each kind of suggestion; only the count can fail
    rcases hmem with (((hscalars | ⟨field, hfield, hlist⟩) | hcount) | hall) |
      ⟨field, hfield, hmutation⟩
    · exact runs_ofScalars hserves hscalars
    · exact runs_ofList hserves hfield hlist
    · obtain ⟨count, hfield⟩ := count_of_ofCount hcount
      refine (runs_ofCount_iff hserves hcount).mpr ⟨count, hfield, ?_⟩
      cases hinner : count.type.namedInside? with
      | none => rfl
      | some inner => exact absurd ⟨hcount, count, inner, hfield, hinner⟩ hleaf
    · exact runs_ofAll hserves hall
    · cases hroot : schema.mutation with
      | none =>
          rw [hroot] at hfield
          cases hfield
      | some root =>
          rw [hroot] at hfield
          by_cases harguments : field.arguments = []
          · exact runs_ofMutation hserves hroot hfield harguments hmutation
          · exact absurd ⟨root, field, hroot, hfield, harguments, hmutation⟩ hcomplete

/-- The schema of an object with one entry. -/
def singleSchema : Schema where
  types :=
    [("GET", ⟨"GET", [Inference.typedField "id" "id" (.scalar .int)], false⟩),
      ("Query", ⟨"Query", [Inference.typedField "id" "id" (.scalar .int)], false⟩)]
  query := ⟨"Query", [Inference.typedField "id" "id" (.scalar .int)], false⟩
  mutation := none
  baseName := "GET"
  method := "GET"
  path := "/"

theorem runs_iff_single :
    Schema.build {} (.obj [("id", .int 1)]) "GET" "/" none =
        .ok singleSchema ∧
      ∀ suggestion ∈ all singleSchema, ∃ result,
        run singleSchema (.obj [("id", .int 1)]) suggestion.query = .ok result := by
  have hbuild : Schema.build {} (.obj [("id", .int 1)])
      "GET" "/" none = .ok singleSchema := rfl
  refine ⟨hbuild, ?_⟩
  intro suggestion hmem
  refine (runs_iff (by decide) (by decide) hbuild hmem ?_).mpr ?_
  · rintro ⟨root, field, hroot, -⟩
    cases hroot
  · rintro ⟨hcount, -⟩
    cases hcount

/-- Elements beside a count that has objects inside: the second suggestion does
not run. -/
example :
    (match Schema.build {} (.obj [("items", .arr [.obj [("id", .int 1)]]),
        ("_count", .obj [("x", .int 1)])]) "GET" "/" none with
      | .ok schema => (all schema).map fun suggestion =>
          (run schema (.obj [("items", .arr [.obj [("id", .int 1)]]),
            ("_count", .obj [("x", .int 1)])])
            suggestion.query).isOk
      | .error _ => []) = [true, false, true] := by
  decide +kernel

end Suggestion

end JsonSelection

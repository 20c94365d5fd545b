import JsonSelection.Proofs.Query.Conformance
import JsonSelection.Proofs.Query.Defaults
import JsonSelection.Proofs.Query.Relevance

/-!
# Consecutive pages

What a list field shows on a page is what its elements show one by one, and how
an element is shown does not depend on the page. So a page of `a + b` elements
is a page of `a` elements followed by the next `b`.

## What this module delivers

- `Execution.runOne_page`: a page of a list is what its elements show
  (`Execution.showElement`).
- `Execution.runOne_divides`: the pages of one list field partition its list.
- `Selection.Divides`: queries that differ in the page of one list field only,
  wherever in the query it is selected.
- `Execution.Joined`: results that differ in the elements of its lists only.
- `Schema.pages_partition`: both, for every schema that is built and every
  value.

The keys that lead to the list field may lead through other lists; then each
element on the way has a list of its own, and all of them are partitioned. A
later selection with the same response key would hide the field, so
`Selection.Divides` excludes it.
-/

set_option autoImplicit false

namespace JsonSelection

/-- A field that takes no page arguments, or a list field that takes those of
its page. -/
inductive Field.Pageable (field : Field) : Prop where
  | unpaged : (∀ name ∈ ["limit", "offset"], field.argument? name = none) → Pageable field
  | paged {item : TypeRef} {size : Int} : field.type = .list item (some size) →
      field.arguments = Field.pageArguments field.type → Pageable field

namespace Argument

/-- Arguments that ask for a page: its limit and its offset, in one order or the
other. -/
def AsksFor (limit offset : Int) (arguments : List (String × Json)) : Prop :=
  arguments = [("limit", .int limit), ("offset", .int offset)] ∨
    arguments = [("offset", .int offset), ("limit", .int limit)]

variable {limit offset : Int} {arguments : List (String × Json)}

theorem AsksFor.chosen_limit (h : AsksFor limit offset arguments) (default : Int) :
    chosen arguments "limit" default = limit := by
  rcases h with rfl | rfl
  · rfl
  · rfl

theorem AsksFor.chosen_offset (h : AsksFor limit offset arguments) (default : Int) :
    chosen arguments "offset" default = offset := by
  rcases h with rfl | rfl
  · rfl
  · rfl

section Field

variable (schema : Schema) (owner : NamedType) {field : Field} (path : ResponsePath)

/-- The limit and the offset of a list field are accepted as they are given. -/
theorem given_of_asksFor (h : AsksFor limit offset arguments) {argument argument' : Argument}
    (hlimit : field.argument? "limit" = some argument) (hlimitType : argument.type = .scalar .int)
    (hoffset : field.argument? "offset" = some argument')
    (hoffsetType : argument'.type = .scalar .int) :
    given schema owner field path arguments = .ok arguments := by
  rcases h with rfl | rfl
  · simp only [given, List.foldlM_cons, hlimit, hlimitType, hoffset, hoffsetType]
    rfl
  · simp only [given, List.foldlM_cons, hlimit, hlimitType, hoffset, hoffsetType]
    rfl

/-- A list field shows the page that it is asked for. -/
theorem resolve_of_asksFor {item : TypeRef} {size : Int}
    (htype : field.type = .list item (some size))
    (harguments : field.arguments = Field.pageArguments field.type) (hlimit : 0 ≤ limit)
    (hoffset : 0 ≤ offset) (h : AsksFor limit offset arguments) :
    (resolve schema owner field path arguments).map (Execution.pageOf field.type) =
      .ok (some ⟨some limit, offset⟩) := by
  have hlimitArgument : field.argument? "limit" = some ⟨"limit", .scalar .int, some size⟩ := by
    rw [Field.argument?, harguments, htype]
    rfl
  have hoffsetArgument : field.argument? "offset" = some ⟨"offset", .scalar .int, some 0⟩ := by
    rw [Field.argument?, harguments, htype]
    rfl
  have hgiven : given schema owner field path arguments = .ok arguments :=
    given_of_asksFor schema owner path h hlimitArgument rfl hoffsetArgument rfl
  have hlimitValue := find?_chosen hlimitArgument rfl rfl hgiven
  have hoffsetValue := find?_chosen hoffsetArgument rfl rfl hgiven
  rw [h.chosen_limit] at hlimitValue
  rw [h.chosen_offset] at hoffsetValue
  -- only the limit and the offset can be refused for their sign
  have hnegative : negative? (field.arguments.foldl withDefault arguments) = none := by
    rw [negative?, List.find?_eq_none]
    intro name hname
    simp only [List.mem_cons, List.not_mem_nil, or_false] at hname
    rcases hname with rfl | rfl
    · rw [hlimitValue]
      simpa [isNegative] using hlimit
    · rw [hoffsetValue]
      simpa [isNegative] using hoffset
  rw [resolve, hgiven, Outcome.ok_bind, htype]
  simp only [hnegative, pure, Except.pure, Outcome.map_ok, Execution.pageOf,
    hlimitValue, hoffsetValue]

/-- A field without page arguments refuses them. -/
theorem resolve_unpaged (hnone : ∀ name ∈ ["limit", "offset"], field.argument? name = none)
    (h : AsksFor limit offset arguments) :
    ∃ error, resolve schema owner field path arguments = .error error := by
  have hlimit := hnone "limit" (by simp)
  have hoffset := hnone "offset" (by simp)
  rcases h with rfl | rfl
  · exact ⟨.unknownArgument path "limit" owner field, by
      simp only [resolve, given, List.foldlM_cons, hlimit]
      rfl⟩
  · exact ⟨.unknownArgument path "offset" owner field, by
      simp only [resolve, given, List.foldlM_cons, hoffset]
      rfl⟩

end Field

end Argument

namespace Selection

/-- Selections that differ in the page of one list field, which the keys lead
to: the first ones ask for `a + b` elements from the place `o` on, the second
ones for the first `a` of these, the third ones for the other `b`. No later
selection beside the field, or beside those around it, has the same response
key. -/
inductive Divides (a b o : Int) :
    List String → List Selection → List Selection → List Selection → Prop where
  | here {before after : List Selection} {name : String} {aliasName : Option String}
      {whole first second : List (String × Json)} {children : List Selection} :
      name ≠ Execution.typeNameField → Argument.AsksFor (a + b) o whole →
      Argument.AsksFor a o first →
      Argument.AsksFor b (o + a) second →
      (∀ other ∈ after, other.responseKey ≠ aliasName.getD name) →
      Divides a b o [aliasName.getD name]
        (before ++ ⟨name, aliasName, whole, children⟩ :: after)
        (before ++ ⟨name, aliasName, first, children⟩ :: after)
        (before ++ ⟨name, aliasName, second, children⟩ :: after)
  | inside {before after : List Selection} {name : String} {aliasName : Option String}
      {arguments : List (String × Json)} {keys : List String}
      {whole first second : List Selection} :
      name ≠ Execution.typeNameField → Divides a b o keys whole first second →
      (∀ other ∈ after, other.responseKey ≠ aliasName.getD name) →
      Divides a b o (aliasName.getD name :: keys)
        (before ++ ⟨name, aliasName, arguments, whole⟩ :: after)
        (before ++ ⟨name, aliasName, arguments, first⟩ :: after)
        (before ++ ⟨name, aliasName, arguments, second⟩ :: after)

theorem Divides.exists_key {a b o : Int} {keys : List String} {whole first second : List Selection}
    (h : Divides a b o keys whole first second) : ∃ key rest, keys = key :: rest := by
  cases h with
  | here => exact ⟨_, _, rfl⟩
  | inside => exact ⟨_, _, rfl⟩

theorem Divides.isEmpty {a b o : Int} {keys : List String} {whole first second : List Selection}
    (h : Divides a b o keys whole first second) :
    whole.isEmpty = false ∧ first.isEmpty = false ∧ second.isEmpty = false := by
  cases h with
  | here => simp
  | inside => simp

end Selection

namespace Execution

/-- What three queries show at one place: one on a whole page, the others on its
two parts. -/
structure Parts where
  whole : Json
  first : Json
  second : Json

/-- Results that differ in one list only, which the keys lead to: the first one
has the elements of the second one followed by those of the third one. On the
way through a list this holds of each of its elements, and where there is no
list, all three have `null`. -/
inductive Joined : List String → Parts → Prop where
  | missing {keys : List String} : Joined keys ⟨.null, .null, .null⟩
  | page {first second : List Json} :
      Joined [] ⟨.arr (first ++ second), .arr first, .arr second⟩
  | elements {key : String} {keys : List String} {shown : List Parts} :
      (∀ parts ∈ shown, Joined (key :: keys) parts) →
      Joined (key :: keys)
        ⟨.arr (shown.map Parts.whole), .arr (shown.map Parts.first),
          .arr (shown.map Parts.second)⟩
  | entry {key : String} {keys : List String} {entries : Entries Json} {parts : Parts} :
      Entries.find? entries key = some parts.whole → Joined keys parts →
      Joined (key :: keys) ⟨.obj entries, .obj (Entries.put entries key parts.first),
        .obj (Entries.put entries key parts.second)⟩

/-! ### One page

A window of `a + b` elements is cut in two where its first part ends. That both
parts have results follows from the whole having one, element by element. -/

/-- A window is a first part of it followed by the window after that part. -/
theorem window_add (items : List Json) {a b o : Int} (ha : 0 ≤ a) (hb : 0 ≤ b) (ho : 0 ≤ o) :
    window items (a + b) o = window items a o ++ window items b (o + a) := by
  have hlimit : (a + b).toNat = a.toNat + b.toNat := by omega
  have hoffset : (o + a).toNat = o.toNat + a.toNat := by omega
  simp only [window, hlimit, hoffset, List.take_add, List.drop_drop]

/-- The elements that a window shows are those of its two parts. -/
theorem mapM_window_add {show₁ : Json → Outcome Json} {items shown : List Json}
    {a b o : Int} (ha : 0 ≤ a) (hb : 0 ≤ b) (ho : 0 ≤ o)
    (h : (window items (a + b) o).mapM show₁ = .ok shown) :
    ∃ firsts seconds, (window items a o).mapM show₁ = .ok firsts ∧
      (window items b (o + a)).mapM show₁ = .ok seconds ∧ shown = firsts ++ seconds := by
  rw [window_add items ha hb ho] at h
  exact Outcome.mapM_append_ok h

/-- What is shown of an element of a list, for the selections below its field.
The element is not told on which page it is shown. -/
def showElement (schema : Schema) (children : List Selection) (path : ResponsePath) (item : TypeRef)
    (element : Json) : Outcome Json :=
  complete
    (fun inner value => (runAll schema children (schema.typeNamed inner) value path
      []).map Json.obj)
    item element none

variable {schema : Schema}

section Field

variable {owner : NamedType} {field : Field} {name : String} {aliasName : Option String}
  {children : List Selection} {source : Json} {path : ResponsePath} {item : TypeRef} {size : Int}

/-- A list field that is asked for a page shows its value on that page. -/
theorem runOne_of_asksFor (hordinary : name ≠ typeNameField)
    (hfield : owner.field? name = some field) (htype : field.type = .list item (some size))
    (harguments : field.arguments = Field.pageArguments field.type)
    (hcheck : checkSelection schema field.type name children path = .ok ())
    {limit offset : Int} (hlimit : 0 ≤ limit) (hoffset : 0 ≤ offset)
    {arguments : List (String × Json)} (hasks : Argument.AsksFor limit offset arguments) :
    runOne schema ⟨name, aliasName, arguments, children⟩ owner source path =
      field.reader.read source >>= fun raw =>
        complete (objectAt schema ⟨owner, path, ⟨name, aliasName, arguments, children⟩⟩)
          (.list item (some size)) raw (some (toWindow (limit, offset))) := by
  have hpage :=
    Argument.resolve_of_asksFor schema owner path htype harguments hlimit hoffset hasks
  rw [runOne_of_field hordinary hfield, hcheck, hpage, htype]
  rfl

/-- The page of a list is what its elements show, one by one. -/
theorem runOne_page (hordinary : name ≠ typeNameField) (hfield : owner.field? name = some field)
    (htype : field.type = .list item (some size))
    (harguments : field.arguments = Field.pageArguments field.type)
    (hcheck : checkSelection schema field.type name children path = .ok ()) {raw : Json}
    (hraw : field.reader.read source = .ok raw) (hvalue : raw ≠ .null) {limit offset : Int}
    (hlimit : 0 ≤ limit) (hoffset : 0 ≤ offset) {arguments : List (String × Json)}
    (hasks : Argument.AsksFor limit offset arguments) :
    runOne schema ⟨name, aliasName, arguments, children⟩ owner source path =
      ((window raw.elements limit offset).mapM (showElement schema children path item)).map
        Json.arr := by
  have hcut : cut raw.elements (toWindow (limit, offset)) = window raw.elements limit offset :=
    cut_toWindow raw.elements hlimit hoffset
  rw [runOne_of_asksFor hordinary hfield htype harguments hcheck hlimit hoffset hasks, hraw,
    Outcome.ok_bind, complete_list item (some size) hvalue, Option.getD_some,
    ← Json.elements, hcut]
  rfl

/-- A field that has a result when it is asked for a page is a list field, and
its braces are right. -/
theorem listed_of_runOne (hordinary : name ≠ typeNameField)
    (hfield : owner.field? name = some field) (hpageable : field.Pageable) {limit offset : Int}
    {arguments : List (String × Json)} (hasks : Argument.AsksFor limit offset arguments)
    {shown : Json} (h : runOne schema ⟨name, aliasName, arguments, children⟩ owner source
      path = .ok shown) :
    checkSelection schema field.type name children path = .ok () ∧
      ∃ item size, field.type = .list item (some size) ∧
        field.arguments = Field.pageArguments field.type := by
  obtain ⟨found, values, haccepts⟩ := accepts_of_runOne hordinary h
  obtain rfl : field = found := Option.some.inj (hfield.symm.trans haccepts.known)
  refine ⟨haccepts.braces, ?_⟩
  cases hpageable with
  | paged htype harguments => exact ⟨_, _, htype, harguments⟩
  | unpaged hnone =>
      -- a field that takes no page arguments has no result when it is given some
      obtain ⟨error, herror⟩ := Argument.resolve_unpaged schema owner path hnone hasks
      have hresolve : Argument.resolve schema owner field path arguments = .ok values :=
        haccepts.arguments
      rw [hresolve] at herror
      cases herror

/-- A page of `a + b` elements is made up of the page of `a` elements and that
of the next `b`. Where the list is missing, all three are `null`. -/
theorem runOne_divides (hordinary : name ≠ typeNameField)
    (howner : ∀ field ∈ owner.fields, field.Pageable) {a b o : Int} (ha : 0 ≤ a)
    (hb : 0 ≤ b) (ho : 0 ≤ o) {whole first second : List (String × Json)}
    (hwhole : Argument.AsksFor (a + b) o whole) (hfirst : Argument.AsksFor a o first)
    (hsecond : Argument.AsksFor b (o + a) second) {shown : Json}
    (h : runOne schema ⟨name, aliasName, whole, children⟩ owner source path = .ok shown) :
    ∃ parts : Parts, parts.whole = shown ∧ Joined [] parts ∧
      runOne schema ⟨name, aliasName, first, children⟩ owner source path = .ok parts.first ∧
      runOne schema ⟨name, aliasName, second, children⟩ owner source path =
        .ok parts.second := by
  obtain ⟨field, values, haccepts⟩ := accepts_of_runOne hordinary h
  have hfield : owner.field? name = some field := haccepts.known
  obtain ⟨hcheck, item, size, htype, harguments⟩ := listed_of_runOne hordinary hfield
    (howner field (List.mem_of_find?_eq_some hfield)) hwhole h
  have hab : 0 ≤ a + b := by omega
  have hoa : 0 ≤ o + a := by omega
  obtain ⟨raw, hraw, hshown⟩ := Outcome.bind_eq_ok_iff.mp
    ((runOne_of_asksFor hordinary hfield htype harguments hcheck hab ho hwhole).symm.trans h)
  -- a missing list is `null` on every page, before any element is looked at
  by_cases hvalue : raw = .null
  · subst hvalue
    obtain rfl := Except.ok.inj hshown
    refine ⟨⟨.null, .null, .null⟩, rfl, .missing, ?_, ?_⟩
    · rw [runOne_of_asksFor hordinary hfield htype harguments hcheck ha ho hfirst, hraw]
      rfl
    · rw [runOne_of_asksFor hordinary hfield htype harguments hcheck hb hoa hsecond, hraw]
      rfl
  · rw [runOne_page hordinary hfield htype harguments hcheck hraw hvalue hab ho hwhole] at h
    obtain ⟨elements, helements, rfl⟩ := Outcome.map_eq_ok_iff.mp h
    obtain ⟨firsts, seconds, hfirsts, hseconds, rfl⟩ := mapM_window_add ha hb ho helements
    refine ⟨⟨.arr (firsts ++ seconds), .arr firsts, .arr seconds⟩, rfl, .page, ?_, ?_⟩
    · rw [runOne_page hordinary hfield htype harguments hcheck hraw hvalue ha ho hfirst, hfirsts]
      rfl
    · rw [runOne_page hordinary hfield htype harguments hcheck hraw hvalue hb hoa
        hsecond, hseconds]
      rfl

end Field

/-! ### Whole queries

The induction is on the keys that lead to the list field: what stands beside it
is the same in all three runs, and what encloses it is shown in parts as it is. -/

/-- When each element of a list that has a result has two more, so has the list. -/
theorem mapM_parts {whole first second : Json → Outcome Json} {related : Parts → Prop}
    (h : ∀ item shown, whole item = .ok shown → ∃ parts : Parts, parts.whole = shown ∧
      related parts ∧
      first item = .ok parts.first ∧ second item = .ok parts.second)
    {items shown : List Json} (hshown : items.mapM whole = .ok shown) :
    ∃ parts : List Parts, parts.map Parts.whole = shown ∧ (∀ part ∈ parts, related part) ∧
      items.mapM first = .ok (parts.map Parts.first) ∧
      items.mapM second = .ok (parts.map Parts.second) := by
  induction items generalizing shown with
  | nil =>
      obtain rfl := Except.ok.inj hshown
      exact ⟨[], rfl, by simp, rfl, rfl⟩
  | cons item rest ih =>
      rw [List.mapM_cons] at hshown
      obtain ⟨value, hvalue, hshown⟩ := Outcome.bind_eq_ok_iff.mp hshown
      obtain ⟨values, hvalues, hshown⟩ := Outcome.bind_eq_ok_iff.mp hshown
      obtain rfl := Except.ok.inj hshown
      obtain ⟨part, rfl, hpart, hfirst, hsecond⟩ := h item value hvalue
      obtain ⟨parts, rfl, hparts, hfirsts, hseconds⟩ := ih hvalues
      refine ⟨part :: parts, rfl, ?_, ?_, ?_⟩
      · intro other hother
        rcases List.mem_cons.mp hother with rfl | hother
        · exact hpart
        · exact hparts other hother
      · rw [List.mapM_cons, hfirst, hfirsts]
        rfl
      · rw [List.mapM_cons, hsecond, hseconds]
        rfl

/-- A value with an object type inside is shown in parts when the objects of
that type are. -/
theorem complete_joined {whole first second : String → Json → Outcome Json} {key : String}
    {keys : List String}
    (hobject : ∀ name value shown, whole name value = .ok shown → ∃ parts : Parts,
      parts.whole = shown ∧ Joined (key :: keys) parts ∧ first name value = .ok parts.first ∧
        second name value = .ok parts.second)
    {type : TypeRef} {inner : String} (htype : type.namedInside? = some inner) {value shown : Json}
    {page : Option PageWindow} (h : complete whole type value page = .ok shown) :
    ∃ parts : Parts, parts.whole = shown ∧ Joined (key :: keys) parts ∧
      complete first type value page = .ok parts.first ∧
      complete second type value page = .ok parts.second := by
  induction type generalizing value shown page with
  | scalar type => cases htype
  | json => cases htype
  | nonNull type ih => exact ih htype h
  | named name =>
      by_cases hvalue : value = .null
      · subst hvalue
        obtain rfl := Except.ok.inj h
        exact ⟨⟨.null, .null, .null⟩, rfl, .missing, rfl, rfl⟩
      · rw [complete_named name hvalue] at h
        rw [complete_named name hvalue, complete_named name hvalue]
        exact hobject name value shown h
  -- this list is not the one that is divided, so its page is the same in all three
  | list item size ih =>
      by_cases hvalue : value = .null
      · subst hvalue
        obtain rfl := Except.ok.inj h
        exact ⟨⟨.null, .null, .null⟩, rfl, .missing, rfl, rfl⟩
      · rw [complete_list item size hvalue] at h
        obtain ⟨elements, helements, rfl⟩ := Outcome.map_eq_ok_iff.mp h
        obtain ⟨parts, rfl, hparts, hfirst, hsecond⟩ :=
          mapM_parts (fun element shown hshown => ih htype hshown) helements
        refine ⟨⟨.arr (parts.map Parts.whole), .arr (parts.map Parts.first),
          .arr (parts.map Parts.second)⟩, rfl, .elements hparts, ?_, ?_⟩
        · rw [complete_list item size hvalue, hfirst]
          rfl
        · rw [complete_list item size hvalue, hsecond]
          rfl

/-- Only types with an object type inside take selections. -/
theorem namedInside?_of_checkSelection {type : TypeRef} {name : String} {children : List Selection}
    {path : ResponsePath} (hchildren : children.isEmpty = false)
    (h : checkSelection schema type name children path = .ok ()) :
    ∃ inner, type.namedInside? = some inner := by
  rw [checkSelection, hchildren] at h
  split at h
  · cases h
  · next inner hinner => exact ⟨inner, by rw [TypeRef.namedInside?, hinner]⟩
  · cases h

/-- Selections run one after the other. -/
theorem runAll_append (before after : List Selection) (owner : NamedType) (source : Json)
    (path : ResponsePath) (done : Entries Json) :
    runAll schema (before ++ after) owner source path done =
      runAll schema before owner source path done >>= fun next =>
        runAll schema after owner source path next := by
  induction before generalizing done with
  | nil => rfl
  | cons selection rest ih =>
      rw [List.cons_append, runAll, runAll]
      split
      · rfl
      · exact ih _

/-- What stands under a key that is not selected any more stays, and may as well
be another value. -/
theorem runAll_put {selections : List Selection} {key : String}
    (hkey : ∀ selection ∈ selections, selection.responseKey ≠ key) {owner : NamedType}
    {source : Json} {path : ResponsePath} {done entries : Entries Json} {old : Json}
    (hold : Entries.find? done key = some old)
    (h : runAll schema selections owner source path done = .ok entries) :
    Entries.find? entries key = some old ∧ ∀ value,
      runAll schema selections owner source path (Entries.put done key value) =
        .ok (Entries.put entries key value) := by
  induction selections generalizing done with
  | nil =>
      obtain rfl := Except.ok.inj h
      exact ⟨hold, fun value => rfl⟩
  | cons selection rest ih =>
      have hne := hkey selection List.mem_cons_self
      rw [runAll] at h
      split at h
      · cases h
      · next shown hshown =>
          have hnext : Entries.find? (Entries.put done selection.responseKey shown) key =
              some old := by
            rw [Entries.find?_put_of_ne done shown (Ne.symm hne), hold]
          obtain ⟨hfind, hput⟩ :=
            ih (fun other hother => hkey other (List.mem_cons_of_mem _ hother)) hnext h
          refine ⟨hfind, ?_⟩
          intro value
          rw [runAll, hshown, ← hput value]
          -- the two keys are different, so the order of the writes does not matter
          simp only [Entries.put_put_of_ne hne hold]

/-- Selections of which one is shown in parts are shown in parts. -/
theorem runAll_joined {before after : List Selection} {whole first second : Selection}
    {key : String} (hwhole : whole.responseKey = key) (hfirst : first.responseKey = key)
    (hsecond : second.responseKey = key) (hafter : ∀ other ∈ after, other.responseKey ≠ key)
    {owner : NamedType} {source : Json} {path : ResponsePath} {keys : List String}
    (hone : ∀ shown, runOne schema whole owner source (path ++ [key]) = .ok shown →
      ∃ parts : Parts, parts.whole = shown ∧ Joined keys parts ∧
        runOne schema first owner source (path ++ [key]) = .ok parts.first ∧
        runOne schema second owner source (path ++ [key]) = .ok parts.second)
    {done entries : Entries Json}
    (h : runAll schema (before ++ whole :: after) owner source path done = .ok entries) :
    ∃ firsts seconds, Joined (key :: keys) ⟨.obj entries, .obj firsts, .obj seconds⟩ ∧
      runAll schema (before ++ first :: after) owner source path done = .ok firsts ∧
      runAll schema (before ++ second :: after) owner source path done = .ok seconds := by
  rw [runAll_append] at h
  obtain ⟨next, hbefore, h⟩ := Outcome.bind_eq_ok_iff.mp h
  rw [runAll] at h
  simp only [hwhole] at h
  split at h
  · cases h
  · next shown hshown =>
      obtain ⟨parts, rfl, hjoined, hfirstShown, hsecondShown⟩ := hone shown hshown
      -- what comes behind writes to other keys, so the entry is only replaced
      obtain ⟨hfind, hput⟩ := runAll_put hafter (Entries.find?_put_self next key parts.whole) h
      refine ⟨_, _, .entry hfind hjoined, ?_, ?_⟩
      · rw [runAll_append, hbefore, Outcome.ok_bind, runAll]
        simp only [hfirst, hfirstShown]
        rw [← Entries.put_put_self next key parts.whole parts.first]
        exact hput parts.first
      · rw [runAll_append, hbefore, Outcome.ok_bind, runAll]
        simp only [hsecond, hsecondShown]
        rw [← Entries.put_put_self next key parts.whole parts.second]
        exact hput parts.second

/-- A selected field is shown in parts when the selections below it are. -/
theorem runOne_joined {owner : NamedType} {name key : String} {aliasName : Option String}
    {arguments : List (String × Json)} {keys : List String} {whole first second : List Selection}
    (hordinary : name ≠ typeNameField) (hwhole : whole.isEmpty = false)
    (hfirst : first.isEmpty = false) (hsecond : second.isEmpty = false) {path : ResponsePath}
    (hbelow : ∀ inner element entries,
      runAll schema whole (schema.typeNamed inner) element path [] = .ok entries →
        ∃ firsts seconds, Joined (key :: keys) ⟨.obj entries, .obj firsts, .obj seconds⟩ ∧
          runAll schema first (schema.typeNamed inner) element path [] = .ok firsts ∧
          runAll schema second (schema.typeNamed inner) element path [] = .ok seconds)
    {source shown : Json}
    (h : runOne schema ⟨name, aliasName, arguments, whole⟩ owner source path = .ok shown) :
    ∃ parts : Parts, parts.whole = shown ∧ Joined (key :: keys) parts ∧
      runOne schema ⟨name, aliasName, arguments, first⟩ owner source path = .ok parts.first ∧
      runOne schema ⟨name, aliasName, arguments, second⟩ owner source path =
        .ok parts.second := by
  obtain ⟨field, values, haccepts⟩ := accepts_of_runOne hordinary h
  have hfield : owner.field? name = some field := haccepts.known
  have hcheck : checkSelection schema field.type name whole path = .ok () := haccepts.braces
  obtain ⟨inner, hinner⟩ := namedInside?_of_checkSelection hwhole hcheck
  -- the field is checked and read alike in all three queries
  have hcheckFirst := checkSelection_congr schema field.type name (hfirst.trans hwhole.symm) path
  have hcheckSecond := checkSelection_congr schema field.type name (hsecond.trans hwhole.symm) path
  rw [runOne_of_field hordinary hfield] at h ⊢
  rw [runOne_of_field hordinary hfield]
  simp only [hcheckFirst, hcheckSecond, hcheck, ofQuery, Outcome.mapError_ok,
    Outcome.ok_bind] at h ⊢
  obtain ⟨page, hpage, h⟩ := Outcome.bind_eq_ok_iff.mp h
  obtain ⟨raw, hraw, h⟩ := Outcome.bind_eq_ok_iff.mp h
  rw [hpage, hraw]
  refine complete_joined ?_ hinner h
  intro inner element object hobject
  obtain ⟨entries, hentries, rfl⟩ := Outcome.map_eq_ok_iff.mp hobject
  obtain ⟨firsts, seconds, hjoined, hfirsts, hseconds⟩ := hbelow inner element entries hentries
  exact ⟨⟨.obj entries, .obj firsts, .obj seconds⟩, rfl, hjoined,
    by rw [objectAt, hfirsts]; rfl, by rw [objectAt, hseconds]; rfl⟩

/-- Selections that differ in the page of one list field are shown in parts. -/
theorem runAll_divides (hinside : ∀ name, ∀ field ∈ (schema.typeNamed name).fields,
    field.Pageable) {a b o : Int} (ha : 0 ≤ a) (hb : 0 ≤ b) (ho : 0 ≤ o) {keys : List String}
    {whole first second : List Selection}
    (hdivides : Selection.Divides a b o keys whole first second) {owner : NamedType}
    (howner : ∀ field ∈ owner.fields, field.Pageable) {source : Json} {path : ResponsePath}
    {done entries : Entries Json} (h : runAll schema whole owner source path done = .ok entries) :
    ∃ firsts seconds, Joined keys ⟨.obj entries, .obj firsts, .obj seconds⟩ ∧
      runAll schema first owner source path done = .ok firsts ∧
      runAll schema second owner source path done = .ok seconds := by
  induction hdivides generalizing owner source path done entries with
  | @here _ _ name aliasName _ _ _ _ hordinary hwhole hfirst hsecond hafter =>
      have hkey : ∀ arguments children,
        Selection.responseKey ⟨name, aliasName, arguments, children⟩ =
          aliasName.getD name := fun _ _ => rfl
      refine runAll_joined (hkey _ _) (hkey _ _) (hkey _ _) hafter ?_ h
      intro shown hshown
      exact runOne_divides hordinary howner ha hb ho hwhole hfirst hsecond hshown
  | @inside _ _ name aliasName _ _ _ _ _ hordinary hdivides hafter ih =>
      have hkey : ∀ arguments children,
        Selection.responseKey ⟨name, aliasName, arguments, children⟩ =
          aliasName.getD name := fun _ _ => rfl
      -- the list is further down, so the field itself is shown in parts
      obtain ⟨key, rest, rfl⟩ := hdivides.exists_key
      obtain ⟨hwhole, hfirst, hsecond⟩ := hdivides.isEmpty
      refine runAll_joined (hkey _ _) (hkey _ _) (hkey _ _) hafter ?_ h
      intro shown hshown
      refine runOne_joined hordinary hwhole hfirst hsecond ?_ hshown
      intro inner element below hbelow
      exact ih (hinside inner) hbelow

end Execution

/-! ### Built schemas -/

namespace Schema

variable {limits : Limits} {data : Json} {method path : String} {body : Option Json}
  {schema : Schema}

theorem pageable_of_output {names : String → Prop} {pages : Int → Prop}
    {sources : Json → Prop} {field : Field} (h : field.Output names pages sources) :
    field.Pageable := by
  obtain ⟨htype, harguments, -⟩ := h
  cases hshape : field.type with
  | list item size =>
      rw [hshape] at htype
      cases htype with
      | list _ _ => exact .paged hshape harguments
  | _ =>
      refine .unpaged ?_
      intro name _
      rw [Field.argument?, harguments, hshape]
      rfl

theorem pageable_of_mutation {field : Field} (h : MutationField field) : field.Pageable := by
  refine .unpaged ?_
  intro name hname
  cases hargument : field.argument? name with
  | none => rfl
  | some argument =>
      have hinput := h.input argument (List.mem_of_find?_eq_some hargument)
      have hsame : argument.name = name := by
        simpa using List.find?_some hargument
      rw [← hsame, hinput] at hname
      exact absurd hname (by decide)

/-- A field of a schema takes a limit and an offset exactly when it is an output
field that shows a list. -/
theorem pageable_of_built {field : Field} (h : field.Built) : field.Pageable := by
  cases h with
  | output houtput => exact pageable_of_output houtput
  | input hnone =>
      refine .unpaged ?_
      intro name _
      rw [Field.argument?, hnone]
      rfl
  | mutation hmutation => exact pageable_of_mutation hmutation

/-- The types whose fields a query can select: the roots of operations and the
types that fields lead to. -/
def Owns (schema : Schema) (owner : NamedType) : Prop :=
  (∃ kind, Execution.rootOf schema kind = .ok owner) ∨ ∃ name, owner = schema.typeNamed name

theorem pageable_of_owns (h : build limits data method path body = .ok schema) {owner : NamedType}
    (howns : schema.Owns owner) : ∀ field ∈ owner.fields, field.Pageable := by
  intro field hfield
  refine pageable_of_built ?_
  rcases howns with ⟨kind, hroot⟩ | ⟨name, rfl⟩
  · exact built_of_rootOf h hroot field hfield
  · exact built_of_build h name field hfield

open Execution in
/-- Pages partition a list. When a list field of any type of a schema that is
built has a result for the limit `a + b` and the offset `o`, it has results for
the limit `a` at `o` and the limit `b` at `o + a`, and the first result is the
second followed by the third. Every page shows its elements one by one and by
the same function of the element alone, so lists inside the elements have the
pages that they have without it. The same holds of whole queries on any value,
however deep in them the list field is selected: the results differ in the
elements of that list only. -/
theorem pages_partition (h : build limits data method path body = .ok schema)
    {a b o : Int} (ha : 0 ≤ a) (hb : 0 ≤ b) (ho : 0 ≤ o) :
    (∀ owner field item size name aliasName children source at_ raw, schema.Owns owner →
      name ≠ typeNameField → owner.field? name = some field → field.type = .list item size →
      field.reader.read source = .ok raw → raw ≠ .null →
      ∀ arguments shown, Argument.AsksFor (a + b) o arguments →
        runOne schema ⟨name, aliasName, arguments, children⟩ owner source at_ = .ok shown →
        (∃ firsts seconds, shown = .arr (firsts ++ seconds) ∧
          (∀ first, Argument.AsksFor a o first →
            runOne schema ⟨name, aliasName, first, children⟩ owner source at_ =
              .ok (.arr firsts)) ∧
          ∀ second, Argument.AsksFor b (o + a) second →
            runOne schema ⟨name, aliasName, second, children⟩ owner source at_ =
              .ok (.arr seconds)) ∧
        ∀ limit offset page, 0 ≤ limit → 0 ≤ offset →
          Argument.AsksFor limit offset page →
          runOne schema ⟨name, aliasName, page, children⟩ owner source at_ =
            ((window raw.elements limit offset).mapM (showElement schema children at_ item)).map
              Json.arr) ∧
    ∀ text text₁ text₂ root keys whole first second, Starts schema text whole root →
      Starts schema text₁ first root → Starts schema text₂ second root →
      Selection.Divides a b o keys whole first second →
      ∀ source result, run schema source text = .ok result →
        ∃ firsts seconds, run schema source text₁ = .ok firsts ∧
        run schema source text₂ = .ok seconds ∧
          Joined keys ⟨.obj result, .obj firsts, .obj seconds⟩ := by
  refine ⟨?_, ?_⟩
  · intro owner field item size name aliasName children source at_ raw howns hordinary
      hfield htype hraw
      hvalue arguments shown hwhole hshown
    have hpageable := pageable_of_owns h howns field (List.mem_of_find?_eq_some hfield)
    obtain ⟨hcheck, item', size', htype', harguments⟩ :=
      listed_of_runOne hordinary hfield hpageable hwhole hshown
    -- both are the type of the field, so the items and the size are the same
    obtain ⟨rfl, rfl⟩ := TypeRef.list.inj (htype.symm.trans htype')
    have hpages : ∀ limit offset page, 0 ≤ limit → 0 ≤ offset →
      Argument.AsksFor limit offset page →
        runOne schema ⟨name, aliasName, page, children⟩ owner source at_ =
          ((window raw.elements limit offset).mapM (showElement schema children at_ item)).map
            Json.arr :=
      fun limit offset page hlimit hoffset hasks =>
        runOne_page hordinary hfield htype harguments hcheck hraw hvalue hlimit hoffset hasks
    refine ⟨?_, hpages⟩
    rw [hpages (a + b) o arguments (by omega) ho hwhole] at hshown
    obtain ⟨elements, helements, rfl⟩ := Outcome.map_eq_ok_iff.mp hshown
    obtain ⟨firsts, seconds, hfirsts, hseconds, rfl⟩ := mapM_window_add ha hb ho helements
    refine ⟨firsts, seconds, rfl, ?_, ?_⟩
    · intro first hasks
      rw [hpages a o first ha ho hasks, hfirsts]
      rfl
    · intro second hasks
      rw [hpages b (o + a) second hb (by omega) hasks, hseconds]
      rfl
  · intro text text₁ text₂ root keys whole first second hstarts hstarts₁ hstarts₂
      hdivides source result
      hrun
    have hroot : ∀ field ∈ root.fields, field.Pageable := by
      obtain ⟨operation, -, hroot, -⟩ := hstarts
      exact pageable_of_owns h (.inl ⟨_, hroot⟩)
    rw [run_of_starts hstarts] at hrun
    have hinside : ∀ name, ∀ field ∈ (schema.typeNamed name).fields, field.Pageable :=
      fun name => pageable_of_owns h (.inr ⟨name, rfl⟩)
    obtain ⟨firsts, seconds, hjoined, hfirsts, hseconds⟩ :=
      runAll_divides hinside ha hb ho hdivides hroot hrun
    refine ⟨firsts, seconds, ?_, ?_, hjoined⟩
    · rw [run_of_starts hstarts₁, hfirsts]
    · rw [run_of_starts hstarts₂, hseconds]

/-- Rows with a list in each of them. -/
def taggedRows : Json :=
  .arr [.obj [("tags", .arr [.str "a", .str "b"])], .obj [("tags", .arr [.str "c"])],
    .obj [("tags", .arr [])]]

/-- The selections that ask for the tags of some rows. -/
def tagSelections (limit offset : Int) : List Selection :=
  [⟨"items", none, [("limit", .int limit), ("offset", .int offset)],
    [⟨"tags", none, [], []⟩]⟩]

theorem divides_tagSelections (a b o : Int) : Selection.Divides a b o ["items"]
    (tagSelections (a + b) o) (tagSelections a o) (tagSelections b (o + a)) := by
  have hordinary : "items" ≠ Execution.typeNameField := by decide
  have hafter : ∀ other ∈ ([] : List Selection), other.responseKey ≠ "items" := by simp
  exact @Selection.Divides.here a b o [] [] "items" none _ _ _ _ hordinary (.inl rfl) (.inl rfl)
    (.inl rfl) hafter

/-- The page of rows whose tags a text asks for, if it does nothing else. -/
def tagPage? (text : String) : Option (Int × Int) :=
  match Query.parse text with
  | .ok ⟨.query, none, [⟨"items", none, [("limit", .int limit), ("offset", .int offset)],
      [⟨"tags", none, [], []⟩]⟩]⟩ => some (limit, offset)
  | _ => none

theorem starts_of_tagPage? {text : String} {limit offset : Int}
    (h : tagPage? text = some (limit, offset)) (schema : Schema) :
    Execution.Starts schema text (tagSelections limit offset) schema.query := by
  unfold tagPage? at h
  split at h
  · next hparse =>
      obtain ⟨rfl, rfl⟩ := Prod.mk.inj (Option.some.inj h)
      exact ⟨_, hparse, rfl, rfl⟩
  · cases h

/-- Two rows and one more are three rows. -/
theorem pages_partition_rows : ∃ schema result firsts seconds,
    build {} taggedRows "GET" "/" none = .ok schema ∧
      Execution.run schema taggedRows "\x7b items(limit: 3, offset: 0) \x7b tags \x7d \x7d" =
        .ok result ∧
      Execution.run schema taggedRows "\x7b items(limit: 2, offset: 0) \x7b tags \x7d \x7d" =
        .ok firsts ∧
      Execution.run schema taggedRows "\x7b items(limit: 1, offset: 2) \x7b tags \x7d \x7d" =
        .ok seconds ∧
      Execution.Joined ["items"] ⟨.obj result, .obj firsts, .obj seconds⟩ := by
  have hruns : (match build {} taggedRows "GET" "/" none with
      | .ok schema => (Execution.run schema taggedRows
          "\x7b items(limit: 3, offset: 0) \x7b tags \x7d \x7d").isOk
      | .error _ => false) = true := by
    decide +kernel
  -- each text is parsed by itself, apart from the schema
  have hwhole : tagPage? "\x7b items(limit: 3, offset: 0) \x7b tags \x7d \x7d" =
      some (2 + 1, 0) := by
    decide +kernel
  have hfirst : tagPage? "\x7b items(limit: 2, offset: 0) \x7b tags \x7d \x7d" = some (2, 0) := by
    decide +kernel
  have hsecond : tagPage? "\x7b items(limit: 1, offset: 2) \x7b tags \x7d \x7d" =
      some (1, 0 + 2) := by
    decide +kernel
  split at hruns
  · next schema hbuild =>
      obtain ⟨result, hresult⟩ := Outcome.exists_of_isOk hruns
      have hnonneg : (0 : Int) ≤ 2 ∧ (0 : Int) ≤ 1 := by decide
      obtain ⟨-, hqueries⟩ := pages_partition hbuild hnonneg.1 hnonneg.2 (Int.le_refl 0)
      obtain ⟨firsts, seconds, hfirsts, hseconds, hjoined⟩ := hqueries _ _ _ _ _ _ _ _
        (starts_of_tagPage? hwhole schema) (starts_of_tagPage? hfirst schema)
        (starts_of_tagPage? hsecond schema) (divides_tagSelections 2 1 0) taggedRows result hresult
      exact ⟨schema, result, firsts, seconds, hbuild, hresult, hfirsts, hseconds, hjoined⟩
  · cases hruns

end Schema

end JsonSelection

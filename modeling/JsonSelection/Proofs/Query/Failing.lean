import JsonSelection.Proofs.Query.Rearrangement
import JsonSelection.Proofs.Query.Refusal

/-!
# What a run fails for

A run stops at its first error, so the order of the selections decides which of
several errors it is.

## What this module delivers

- `Execution.FailsAt`: the value at which a page has no result. Elements keep
  their order, so of those that a selection shows only the first without a
  result counts.
- `Execution.Blames`: what a selection can fail for on a source, in some order
  of the selections below it. It is read off the run and does not mention
  orders.
- `Execution.blames_of_error`: the error of a run in some order is one of these.
- `Execution.Blames.exists_error`: each of these is the error in some order.
- `Execution.order_irrelevant_iff`: an operation is refused in all orders or in
  none, unless it can fail both for a fault and for a length that there is none
  of.

Orders are those of selections with different response keys. With one key for
two selections the later one answers, and the order shows in results as well.
-/

set_option autoImplicit false

namespace JsonSelection

open Outcome (Related)
open Selection (Rearranged RearrangedSet KeysApart)
open Sample (ReorderedEntries)

namespace Site

variable {schema : Schema} {site : Site} {children : List Selection}

/-- A site with other selections below it. -/
def withChildren (site : Site) (children : List Selection) : Site :=
  { site with selection := { site.selection with children := children } }

/-- What is checked of a selection is whether it has any below it, not which. -/
theorem Accepts.withChildren {field : Field} {values : Entries Json}
    (h : site.Accepts schema field values)
    (hempty : children.isEmpty = site.selection.children.isEmpty) :
    (site.withChildren children).Accepts schema field values where
  ordinary := h.ordinary
  known := h.known
  braces := (Execution.checkSelection_congr schema field.type site.selection.name hempty
    site.path).trans
    h.braces
  arguments := h.arguments

theorem Faulty.withChildren (h : site.Faulty schema)
    (hempty : children.isEmpty = site.selection.children.isEmpty) :
    (site.withChildren children).Faulty schema := by
  cases h with
  | unknownField hordinary hfield => exact .unknownField hordinary hfield
  | braces hordinary hfield hbraces =>
      exact .braces hordinary hfield
        ((Execution.checkSelection_congr schema _ site.selection.name hempty
        site.path).trans hbraces)
  | arguments hordinary hfield harguments => exact .arguments hordinary hfield harguments

end Site

namespace Execution

variable {schema : Schema}

/-! ### The first element without a result -/

/-- The value with an object type for which a value has no result: it stands in
the first element of a page that has none. -/
inductive FailsAt (object : String → Json → Outcome Json) :
    TypeRef → Json → Option PageWindow → String → Json → Prop where
  | named {name : String} {value : Json} {page : Option PageWindow} :
      value ≠ .null → FailsAt object (.named name) value page name value
  | nonNull {inner : TypeRef} {value element : Json} {page : Option PageWindow} {name : String} :
      FailsAt object inner value page name element →
      FailsAt object (.nonNull inner) value page name element
  | list {item : TypeRef} {size : Option Int} {value shown element : Json}
      {page : Option PageWindow} {name : String} {before after : List Json} :
      value ≠ .null → cut (value.items?.getD [value]) (page.getD ⟨size, 0⟩) =
        before ++ shown :: after →
      (∀ other ∈ before, (complete object item other none).isOk = true) →
      FailsAt object item shown none name element →
        FailsAt object (.list item size) value page name element

variable {object object' : String → Json → Outcome Json} {type : TypeRef} {value element : Json}
  {page : Option PageWindow} {name : String}

theorem FailsAt.elements (h : FailsAt object type value page name element) :
    Elements type value page name element := by
  induction h with
  | named hvalue => exact .named hvalue
  | nonNull _ ih => exact .nonNull ih
  | list hvalue hcut _ _ ih =>
      refine .list hvalue ?_ ih
      rw [hcut]
      exact List.mem_append_right _ List.mem_cons_self

/-- A value without a result has the error of the value that it fails at. -/
theorem exists_failsAt {error : ExecutionError}
    (h : complete object type value page = .error error) :
    ∃ name element, FailsAt object type value page name element ∧
    object name element = .error error := by
  induction type generalizing value page with
  | scalar type => cases h
  | json => cases h
  | nonNull inner ih =>
      obtain ⟨name, element, hfails, herror⟩ := ih h
      exact ⟨name, element, .nonNull hfails, herror⟩
  | named name =>
      by_cases hvalue : value = .null
      · subst hvalue
        cases h
      · rw [complete_named name hvalue] at h
        exact ⟨name, value, .named hvalue, h⟩
  | list item size ih =>
      by_cases hvalue : value = .null
      · subst hvalue
        cases h
      · rw [complete_list item size hvalue] at h
        -- the elements of a page are shown in order, so the first one without a
        -- result has the error
        obtain ⟨before, shown, after, hcut, hbefore, hshown⟩ :=
          Outcome.mapM_first_error (Outcome.map_error h)
        obtain ⟨name, element, hfails, herror⟩ := ih hshown
        exact ⟨name, element, .list hvalue hcut hbefore hfails, herror⟩

theorem complete_of_failsAt {error : ExecutionError}
    (h : FailsAt object type value page name element)
    (herror : object name element = .error error) :
    complete object type value page = .error error := by
  induction h with
  | named hvalue =>
      rw [complete_named _ hvalue]
      exact herror
  | nonNull _ ih => exact ih herror
  | list hvalue hcut hbefore _ ih =>
      rw [complete_list _ _ hvalue, hcut, Outcome.mapM_of_first_error hbefore (ih herror)]
      rfl

/-- Whether a value has a result depends only on which object types have results. -/
theorem isOk_complete_congr
    (hobject : ∀ name element, (object name element).isOk = (object' name element).isOk)
    (type : TypeRef) (value : Json) (page : Option PageWindow) :
    (complete object type value page).isOk = (complete object' type value page).isOk := by
  have hagree : AgreeUpTo (fun _ _ => True) (complete object type value page)
      (complete object' type value page) := by
    apply complete_related (fun _ => trivial) (fun _ _ _ => trivial)
    intro name element
    exact Related.of_isOk_eq (hobject name element)
  exact hagree.isOk_eq

theorem FailsAt.congr
    (hobject : ∀ name element, (object name element).isOk = (object' name element).isOk)
    (h : FailsAt object type value page name element) :
    FailsAt object' type value page name element := by
  induction h with
  | named hvalue => exact .named hvalue
  | nonNull _ ih => exact .nonNull ih
  | list hvalue hcut hbefore _ ih =>
      refine .list hvalue hcut ?_ ih
      intro other hother
      rw [← isOk_complete_congr hobject]
      exact hbefore other hother

/-! ### Blame

A failure is carried up from a selection to what encloses it, and an order that
shows it puts every blamed selection first in its set. -/

/-- Why a run has no result: for a fault of the query, or for a length that
there is none of. -/
inductive Failure where
  | fault
  | noLength

/-- The errors of a failure. Any error of the query is a fault; which one it is
depends on the order of the selections. -/
inductive Failure.Names : Failure → ExecutionError → Prop where
  | fault (error : QueryError) : Names .fault (.query error)
  | noLength : Names .noLength .noLength

theorem Failure.exists_names (error : ExecutionError) : ∃ failure,
    Failure.Names failure error := by
  cases error with
  | query error => exact ⟨.fault, .fault error⟩
  | noLength => exact ⟨.noLength, .noLength⟩

/-- What a selection can fail for on a source, in some order of the selections
below it: it is faulty itself, it asks for a length that there is none of, or a
selection below it fails where what it shows does. -/
inductive Blames (schema : Schema) : Failure → Site → Json → Prop where
  | fault {site : Site} {source : Json} : site.Faulty schema → Blames schema .fault site source
  | noLength {site : Site} {source : Json} {field : Field} {values : Entries Json} :
      site.Accepts schema field values → field.reader.read source = .error .noLength →
      Blames schema .noLength site source
  | inside {failure : Failure} {site : Site} {source value element : Json} {field : Field}
      {values : Entries Json} {name : String} {selection : Selection} :
      site.Accepts schema field values → field.reader.read source = .ok value →
      FailsAt (objectAt schema site) field.type value (pageOf field.type values) name element →
      selection ∈ site.selection.children →
      Blames schema failure
        ⟨schema.typeNamed name, site.path ++ [selection.responseKey], selection⟩ element →
      Blames schema failure site source

theorem exists_of_runAll {selections : List Selection} {owner : NamedType} {source : Json}
    {path : ResponsePath} {done : Entries Json} {error : ExecutionError}
    (h : runAll schema selections owner source path done = .error error) :
    ∃ selection ∈ selections,
      runOne schema selection owner source (path ++ [selection.responseKey]) = .error error := by
  rw [runAll_eq_putAll] at h
  obtain ⟨selection, hmem, herror⟩ := Outcome.mapM_error (Outcome.map_error h)
  exact ⟨selection, hmem, Outcome.map_error herror⟩

/-- Whether a site shows an object type does not depend on the order of the
selections below it. -/
theorem isOk_objectAt {site : Site} {children : List Selection}
    (hapart : KeysApart site.selection.children)
    (h : RearrangedSet site.selection.children children) (name : String) (element : Json) :
    (objectAt schema site name element).isOk =
      (objectAt schema (site.withChildren children) name element).isOk := by
  rw [objectAt, objectAt, Outcome.isOk_map, Outcome.isOk_map]
  exact (runAll_rearranged schema hapart h _ element site.path).isOk_eq

/-- The error of a run in some order is one that the run can fail for. -/
theorem blames_of_error (schema : Schema) (selections : List Selection) :
    ∀ selection ∈ selections, KeysApart selection.children → ∀ selection',
      Rearranged selection selection' → ∀ owner source path error,
        runOne schema selection' owner source path = .error error →
        ∃ failure, Failure.Names failure error ∧
          Blames schema failure ⟨owner, path, selection⟩ source := by
  -- the checks of a selection do not see the order below it, and its elements fail
  -- alike in every order
  induction selections using Selection.induct with
  | nil => simp
  | cons first rest ihBelow ihRest =>
      intro selection hmem hapart selection' hrearranged owner source path error herror
      rcases List.mem_cons.mp hmem with rfl | hrest
      · cases hrearranged with
        | @mk _ middle children hforall hperm =>
            have hset : RearrangedSet selection.children children := ⟨middle, hforall, hperm⟩
            let site : Site := ⟨owner, path, selection⟩
            have hordinary : selection.name ≠ typeNameField := by
              intro hname
              have hshown : runOne schema (site.withChildren children).selection owner source path =
                  .ok (.str owner.name) :=
                runOne_typeName (show (site.withChildren children).selection.name = _ from hname)
                  owner
                  source path
              cases hshown.symm.trans herror
            rcases Site.accepts_or_faulty schema
              (show site.selection.name ≠ typeNameField from hordinary)
              with ⟨field, values, haccepts⟩ | hfaulty
            · have haccepts' := haccepts.withChildren hset.isEmpty
              have hone := (runOne_eq_bind haccepts' source).symm.trans herror
              cases hread : field.reader.read source with
              | error failure =>
                  rw [hread] at hone
                  obtain rfl := Except.error.inj hone
                  obtain rfl := read_error hread
                  exact ⟨.noLength, .noLength, .noLength haccepts hread⟩
              | ok value =>
                  rw [hread, Outcome.ok_bind] at hone
                  obtain ⟨name, element, hfails, hobject⟩ := exists_failsAt hone
                  obtain ⟨below', hbelow', hbelow⟩ :=
                    exists_of_runAll (Outcome.map_error hobject)
                  obtain ⟨below, hmem, hrearranged⟩ := hset.exists_of_mem hbelow'
                  obtain ⟨failure, hnames, hblames⟩ :=
                    ihBelow below hmem (hapart.inside hmem) below' hrearranged _ _ _ _ hbelow
                  rw [hrearranged.responseKey] at hblames
                  exact ⟨failure, hnames, .inside haccepts hread (hfails.congr fun name element =>
                    (isOk_objectAt hapart hset name element).symm) hmem hblames⟩
            · obtain ⟨fault, hfault⟩ := runOne_of_faulty (hfaulty.withChildren hset.isEmpty)
                source
              obtain rfl : ExecutionError.query fault = error :=
                Except.error.inj (hfault.symm.trans herror)
              exact ⟨.fault, .fault fault, .fault hfaulty⟩
      · exact ihRest selection hrest hapart selection' hrearranged owner source path error herror

/-- A selection without a result can be put first in its set, in another order
of the selections below it. -/
theorem exists_runAll_error {selections : List Selection} {selection selection' : Selection}
    (hmem : selection ∈ selections) (h : Rearranged selection selection') {owner : NamedType}
    {source : Json} {path : ResponsePath} {error : ExecutionError}
    (herror : runOne schema selection' owner source (path ++ [selection.responseKey]) =
      .error error) :
    ∃ selections', RearrangedSet selections selections' ∧
      ∀ done, runAll schema selections' owner source path done = .error error := by
  obtain ⟨before, after, rfl⟩ := List.append_of_mem hmem
  refine ⟨selection' :: (before ++ after),
    ⟨before ++ selection' :: after, ?_, List.perm_middle⟩, ?_⟩
  · have hbefore := List.forall₂_same.mpr (Selection.rearranged_refl before)
    have hafter := List.forall₂_same.mpr (Selection.rearranged_refl after)
    exact List.rel_append hbefore (.cons h hafter)
  · intro done
    rw [runAll, h.responseKey, herror]

/-- Whatever a selection can fail for, it fails for in some order of the
selections below it. -/
theorem Blames.exists_error {failure : Failure} {site : Site} {source : Json}
    (h : Blames schema failure site source) (hapart : KeysApart site.selection.children) :
    ∃ selection', Rearranged site.selection selection' ∧ ∃ error,
    Failure.Names failure error ∧
      runOne schema selection' site.owner source site.path = .error error := by
  have hrefl : ∀ site : Site, Rearranged site.selection site.selection := fun site =>
    Selection.rearranged_refl [site.selection] _ List.mem_cons_self
  -- the order is built from the inside out, with the blamed selection first in its set
  induction h with
  | fault hfaulty =>
      obtain ⟨error, herror⟩ := runOne_of_faulty hfaulty _
      exact ⟨_, hrefl _, _, .fault error, herror⟩
  | noLength haccepts hread =>
      refine ⟨_, hrefl _, _, .noLength, ?_⟩
      rw [runOne_eq_bind haccepts, hread]
      rfl
  | @inside failure site source value element field values name selection haccepts hread
      hfails hmem _ ih =>
      obtain ⟨selection', hrearranged, error, hnames, herror⟩ := ih (hapart.inside hmem)
      obtain ⟨children, hset, hbelow⟩ := exists_runAll_error hmem hrearranged herror
      -- in that order of the selections below, the value fails where it did, now with this error
      have hobject : objectAt schema (site.withChildren children) name element = .error error := by
        rw [objectAt]
        exact congrArg (Except.map Json.obj) (hbelow [])
      have hcomplete := complete_of_failsAt (hfails.congr (isOk_objectAt hapart hset)) hobject
      refine ⟨_, Selection.rearranged_of_children hset, error, hnames, ?_⟩
      exact (runOne_of_accepts (haccepts.withChildren hset.isEmpty) hread).trans hcomplete

/-- What the run of a selection set can fail for, in some order of its
selections: that is whatever one of them fails for. -/
def BlamesSet (schema : Schema) (failure : Failure) (selections : List Selection)
    (owner : NamedType) (source : Json) (path : ResponsePath) : Prop :=
  ∃ selection ∈ selections,
    Blames schema failure ⟨owner, path ++ [selection.responseKey], selection⟩ source

/-- What a run can fail for is what it fails for in some order. -/
theorem blamesSet_iff {selections : List Selection} (hapart : KeysApart selections)
    {failure : Failure} {owner : NamedType} {source : Json} {path : ResponsePath} :
    BlamesSet schema failure selections owner source path ↔
      ∃ selections', RearrangedSet selections selections' ∧ ∃ error,
      Failure.Names failure error ∧
        runAll schema selections' owner source path [] = .error error := by
  constructor
  · rintro ⟨selection, hmem, hblames⟩
    obtain ⟨selection', hrearranged, error, hnames, herror⟩ :=
      hblames.exists_error (hapart.inside hmem)
    obtain ⟨selections', hset, hrun⟩ := exists_runAll_error hmem hrearranged herror
    exact ⟨selections', hset, error, hnames, hrun []⟩
  · rintro ⟨selections', hset, error, hnames, hrun⟩
    obtain ⟨selection', hmem', hone⟩ := exists_of_runAll hrun
    obtain ⟨selection, hmem, hrearranged⟩ := hset.exists_of_mem hmem'
    rw [hrearranged.responseKey] at hone
    obtain ⟨other, hother, hblames⟩ := blames_of_error schema selections selection hmem
      (hapart.inside hmem) selection' hrearranged _ _ _ _ hone
    -- an error names one failure only
    obtain rfl : other = failure := by
      cases hother <;> cases hnames <;> rfl
    exact ⟨selection, hmem, hblames⟩

/-- On objects whose fields can be read, no selection asks for a length in vain. -/
theorem not_blames_noLength {serves : NamedType → Json → Prop} (hclosed : Closed schema serves)
    {failure : Failure} {site : Site} {source : Json} (h : Blames schema failure site source)
    (hserves : serves site.owner source) : failure ≠ .noLength := by
  induction h with
  | fault _ => exact Failure.noConfusion
  | noLength haccepts hread =>
      obtain ⟨value, hvalue, -⟩ := hclosed _ _ hserves _
        (List.mem_of_find?_eq_some haccepts.known)
      rw [hread] at hvalue
      cases hvalue
  | inside haccepts hread hfails _ _ ih =>
      obtain ⟨value, hvalue, hnext⟩ :=
        hclosed _ _ hserves _ (List.mem_of_find?_eq_some haccepts.known)
      obtain rfl := Except.ok.inj (hread.symm.trans hvalue)
      exact ih (hnext _ _ _ hfails.elements)

/-! ### Orders of an operation -/

/-- An outcome that is an error of the query. The length of a value that has
none is another kind of error. -/
def Refused {α : Type} (outcome : Outcome α) : Prop :=
  ∃ error, outcome = .error (.query error)

instance {α : Type} : (outcome : Outcome α) → Decidable (Refused outcome)
  | .error (.query error) => isTrue ⟨error, rfl⟩
  | .error .noLength => isFalse fun ⟨_, h⟩ => nomatch h
  | .ok _ => isFalse fun ⟨_, h⟩ => nomatch h

theorem refused_iff_names {α : Type} {outcome : Outcome α} :
    Refused outcome ↔ ∃ error, Failure.Names .fault error ∧ outcome = .error error := by
  constructor
  · rintro ⟨error, rfl⟩
    exact ⟨_, .fault error, rfl⟩
  · rintro ⟨_, hnames, rfl⟩
    cases hnames with
    | fault error => exact ⟨error, rfl⟩

/-- If a run cannot fail for both reasons, it is refused in an order in which it
fails and can fail for a fault. -/
theorem refused_rearranged_iff {selections selections' : List Selection}
    (hapart : KeysApart selections) {owner : NamedType} {source : Json} {path : ResponsePath}
    (hone : ¬ (BlamesSet schema .fault selections owner source path ∧
      BlamesSet schema .noLength selections owner source path))
    (hset : RearrangedSet selections selections') :
    Refused (runAll schema selections' owner source path []) ↔
      BlamesSet schema .fault selections owner source path ∧
        ∃ error, runAll schema selections' owner source path [] = .error error := by
  constructor
  · intro hrefused
    obtain ⟨error, hnames, hrun⟩ := refused_iff_names.mp hrefused
    exact ⟨(blamesSet_iff hapart).mpr ⟨selections', hset, error, hnames, hrun⟩, error, hrun⟩
  · rintro ⟨hfault, error, hrun⟩
    obtain ⟨failure, hnames⟩ := Failure.exists_names error
    cases hnames with
    | fault error => exact ⟨error, hrun⟩
    | noLength =>
        have hlength := (blamesSet_iff hapart).mpr ⟨selections', hset, _, .noLength, hrun⟩
        exact absurd ⟨hfault, hlength⟩ hone

/-- A run is refused in all orders or in none exactly if it cannot fail for both
reasons. -/
theorem refused_alike_iff {selections : List Selection} (hapart : KeysApart selections)
    {owner : NamedType} {source : Json} {path : ResponsePath} :
    (∀ selections', RearrangedSet selections selections' →
      (Refused (runAll schema selections owner source path []) ↔
        Refused (runAll schema selections' owner source path []))) ↔
      ¬ (BlamesSet schema .fault selections owner source path ∧
        BlamesSet schema .noLength selections owner source path) := by
  constructor
  · rintro hsame ⟨hfault, hlength⟩
    -- one order fails for the fault, another one for the length
    obtain ⟨first, hfirst, error, hnames, hrun⟩ := (blamesSet_iff hapart).mp hfault
    obtain ⟨second, hsecond, error', hnames', hrun'⟩ := (blamesSet_iff hapart).mp hlength
    have hrefused := (hsame first hfirst).mpr (refused_iff_names.mpr ⟨error, hnames, hrun⟩)
    obtain ⟨fault, hother⟩ := (hsame second hsecond).mp hrefused
    cases hnames'
    cases hrun'.symm.trans hother
  · intro hone selections' hset
    have hself : RearrangedSet selections selections :=
      ⟨selections, List.forall₂_same.mpr (Selection.rearranged_refl selections), .refl _⟩
    have hagree := runAll_rearranged schema hapart hset owner source path
    rw [refused_rearranged_iff hapart hone hself, refused_rearranged_iff hapart hone hset,
      hagree.exists_error_iff]

/-! ### Operations -/

/-- What an operation can fail for, in some order of its selections. -/
def BlamesRun (schema : Schema) (failure : Failure) (data : Json) (operation : Operation) : Prop :=
  ∃ root, rootOf schema operation.kind = .ok root ∧
    BlamesSet schema failure operation.selections root data []

theorem runOperation_eq {operation : Operation} {root : NamedType}
    (hroot : rootOf schema operation.kind = .ok root) (data : Json) (selections : List Selection) :
    runOperation schema data { operation with selections := selections } =
      runAll schema selections root data [] [] := by
  simp only [runOperation, hroot, ofQuery, Outcome.mapError_ok, Outcome.ok_bind]

/-- An operation without a root of its kind is refused whatever it selects. -/
theorem runOperation_rootless {operation : Operation} {error : QueryError}
    (hroot : rootOf schema operation.kind = .error error) (data : Json)
    (selections : List Selection) :
    runOperation schema data { operation with selections := selections } =
      .error (.query error) := by
  simp only [runOperation, hroot]
  rfl

theorem blamesRun_iff {operation : Operation} {root : NamedType} {failure : Failure} {data : Json}
    (hroot : rootOf schema operation.kind = .ok root) :
    BlamesRun schema failure data operation ↔
      BlamesSet schema failure operation.selections root data [] := by
  constructor
  · rintro ⟨other, hother, hset⟩
    obtain rfl := Except.ok.inj (hroot.symm.trans hother)
    exact hset
  · exact fun hset => ⟨root, hroot, hset⟩

/-- On values of the kind that the schema is built for nothing asks for a length
in vain. -/
theorem not_blamesRun_noLength {limits : Limits} {response : Json} {method path : String}
    {body : Option Json} (hbuild : Schema.build limits response method path body = .ok schema)
    {data : Json} (hkind : data.kind = response.kind) (operation : Operation) :
    ¬ BlamesRun schema .noLength data operation := by
  rintro ⟨root, hroot, selection, -, hblames⟩
  obtain ⟨names, hoffers⟩ := Schema.offers_any hbuild
  exact not_blames_noLength (closed_of_offers hoffers) hblames (served_rootOf hroot hkind) rfl

/-- The order of selections is irrelevant to whether there is a result and what
it is, up to the order of keys. It is irrelevant to whether the operation is
refused exactly if the run cannot fail both for a fault and for a length that
there is none of, which it never does on values of the kind that the schema is
built for. -/
theorem order_irrelevant_iff (schema : Schema) (data : Json) {operation : Operation}
    (hapart : KeysApart operation.selections) :
    (∀ selections', RearrangedSet operation.selections selections' →
      AgreeUpTo ReorderedEntries (runOperation schema data operation)
        (runOperation schema data { operation with selections := selections' })) ∧
    ((∀ selections', RearrangedSet operation.selections selections' →
      (Refused (runOperation schema data operation) ↔
        Refused (runOperation schema data { operation with selections := selections' }))) ↔
      ¬ (BlamesRun schema .fault data operation ∧ BlamesRun schema .noLength data operation)) ∧
    ∀ limits response method path body, Schema.build limits response method path
      body = .ok schema →
      data.kind = response.kind → ¬ BlamesRun schema .noLength data operation := by
  -- without a root every order is refused alike
  cases hroot : rootOf schema operation.kind with
  | error error =>
      have hrefused := runOperation_rootless hroot data
      have hself : runOperation schema data operation = .error (.query error) :=
        hrefused operation.selections
      refine ⟨?_, ?_, fun _ _ _ _ _ hbuild hkind => not_blamesRun_noLength hbuild
        hkind operation⟩
      · intro selections' _
        rw [hself, hrefused]
        exact .error trivial
      · apply iff_of_true
        · intro selections' _
          rw [hself, hrefused]
        · rintro ⟨⟨root, hother, -⟩, -⟩
          cases hroot.symm.trans hother
  | ok root =>
      have hrun := runOperation_eq hroot data
      have hself : runOperation schema data operation =
          runAll schema operation.selections root data [] [] := hrun operation.selections
      refine ⟨?_, ?_, fun _ _ _ _ _ hbuild hkind => not_blamesRun_noLength hbuild
        hkind operation⟩
      · intro selections' hset
        rw [hself, hrun]
        exact runAll_rearranged schema hapart hset root data []
      · simp only [hself, hrun, blamesRun_iff hroot]
        exact refused_alike_iff hapart

/-- The query of an array for its count and for a field that there is none of. -/
def countFirst : Operation :=
  ⟨.query, none, [⟨"_count", none, [], []⟩, ⟨"nope", none, [], []⟩]⟩

theorem keysApart_countFirst : KeysApart countFirst.selections := by
  have hnone : KeysApart [] := .mk List.nodup_nil (by simp)
  refine .mk (by decide) ?_
  simp [countFirst, hnone]

/-- The same query in the other order. -/
def countLast : Operation :=
  { countFirst with selections := countFirst.selections.reverse }

/-- On a number the count has no result, so one order is refused and the other
is not. -/
theorem order_irrelevant_iff_count : ∃ schema, Schema.build {}
    (.arr [.int 1]) "GET" "/" none = .ok schema ∧
    ¬ Refused (runOperation schema (.int 5) countFirst) ∧
    Refused (runOperation schema (.int 5) countLast) ∧
    AgreeUpTo ReorderedEntries (runOperation schema (.int 5) countFirst)
      (runOperation schema (.int 5) countLast) ∧
    BlamesRun schema .fault (.int 5) countFirst ∧
      BlamesRun schema .noLength (.int 5) countFirst := by
  have hshown : (match Schema.build {} (.arr [.int 1]) "GET" "/" none with
      | .ok schema => decide (¬ Refused (runOperation schema (.int 5) countFirst) ∧
          Refused (runOperation schema (.int 5) countLast))
      | .error _ => false) = true := by
    decide +kernel
  split at hshown
  · next schema hbuild =>
      obtain ⟨hfirst, hlast⟩ := of_decide_eq_true hshown
      have hset : RearrangedSet countFirst.selections countFirst.selections.reverse :=
        ⟨_, List.forall₂_same.mpr (Selection.rearranged_refl _), (List.reverse_perm _).symm⟩
      obtain ⟨hagree, hiff, -⟩ := order_irrelevant_iff schema (.int 5) keysApart_countFirst
      -- if only one failure were possible, both orders would be refused
      have hboth : BlamesRun schema .fault (.int 5) countFirst ∧
          BlamesRun schema .noLength (.int 5) countFirst := by
        by_contra hone
        exact hfirst ((hiff.mpr hone _ hset).mpr hlast)
      exact ⟨schema, hbuild, hfirst, hlast, hagree _ hset, hboth⟩
  · cases hshown

end Execution

end JsonSelection

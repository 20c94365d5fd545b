import JsonSelection.Proofs.Outcome
import JsonSelection.Schema.Build

/-!
# The roots of a schema

A schema that is built has the root of its response. It has a mutation root
exactly when its method writes and a body is declared, and then a single field
that takes the declared properties as its input.

## What this module delivers

- `Schema.Takes`: what a mutation takes for some properties, and the registry
  that it needs.
- `Schema.MutationOf`: the mutation root of a declared body.
- `Schema.completed_of_build`: how the types of a response are completed to a
  schema.
- `Schema.mutation_isSome_iff`: when there is a mutation root.
- `Schema.mutationOf_of_build`: what it is then.
-/

set_option autoImplicit false

namespace JsonSelection

namespace Schema

/-- The field of a mutation root. -/
def mutationField (method baseName : String) (arguments : List Argument) : Field where
  name := method.toLower ++ "_" ++ baseName
  reader := .whole
  type := .named "Query"
  arguments := arguments

/-- What a mutation takes for some declared properties, and the registry that it
needs: nothing if there are none, and otherwise one input, whose type is added
to the registry. -/
inductive Takes (limits : Limits) (baseName : String) (types : Registry) :
    List (String × Property) → List Argument → Registry → Prop where
  | nothing : Takes limits baseName types [] [] types
  | input {properties : List (String × Property)} {name : String} {types' : Registry} :
      properties ≠ [] →
      InputType.ofProperties properties (limits.inputLevelsFrom 1) (baseName ++ "_Input") types =
        .ok (name, types') →
      Takes limits baseName types properties [⟨"input", .named name, none⟩] types'

/-- A mutation root of a declared body in a schema: its field is named after the
operation, gives the root type and takes the declared properties. The types that
it needs are added to those of the response. -/
def MutationOf (limits : Limits) (method baseName : String) (declaration : Json) (types : Registry)
    (schema : Schema) (root : NamedType) : Prop :=
  ∃ properties arguments types', Body.properties declaration = .ok properties ∧
    Takes limits baseName types properties arguments types' ∧
    root = ⟨"Mutation", [mutationField method baseName arguments], false⟩ ∧
    schema.types = Entries.put types' "Mutation" root

variable {limits : Limits} {data : Json} {method path baseName : String} {schema : Schema}

/-- A mutation root has one field, which takes the properties that the body
declares. -/
theorem mutationRoot_takes {declaration : Json} {types types' : Registry} {root : NamedType}
    (h : mutationRoot limits method baseName declaration types = .ok (root, types')) :
    ∃ properties arguments, Body.properties declaration = .ok properties ∧
      Takes limits baseName types properties arguments types' ∧
      root = ⟨"Mutation", [mutationField method baseName arguments], false⟩ := by
  obtain ⟨properties, hproperties, h⟩ := Outcome.bind_eq_ok_iff.mp h
  simp only at h
  split at h
  · next hnone =>
      obtain rfl := List.isEmpty_iff.mp hnone
      obtain ⟨rfl, rfl⟩ := Prod.mk.inj (Except.ok.inj h)
      exact ⟨[], [], hproperties, .nothing, rfl⟩
  · next hsome =>
      obtain ⟨⟨name, types₁⟩, hinput, h⟩ := Outcome.bind_eq_ok_iff.mp h
      obtain ⟨rfl, rfl⟩ := Prod.mk.inj (Except.ok.inj h)
      have hfilled : properties ≠ [] := by
        rintro rfl
        exact hsome rfl
      exact ⟨properties, _, hproperties, .input hfilled hinput, rfl⟩

/-- How the types of a response are completed to a schema: as they are, or with
the mutation root of a declared body. -/
inductive Completed (limits : Limits) (method baseName : String) (body : Option Json)
    (types : Registry) (schema : Schema) : Prop where
  | reading : ¬ (isWrite method = true ∧ body.isSome = true) → schema.mutation = none →
      schema.types = types → Completed limits method baseName body types schema
  | writing {declaration : Json} {root : NamedType} {types' : Registry} :
      isWrite method = true → body = some declaration →
      mutationRoot limits method baseName declaration types = .ok (root, types') →
      schema.mutation = some root → schema.types = Entries.put types' "Mutation" root →
      Completed limits method baseName body types schema

variable {body : Option Json}

/-- A schema has the root of its response and the types behind it, and is
completed by the declared body. -/
theorem completed_of_build (h : build limits data method path body = .ok schema) :
    ∃ types, queryRoot limits data (TypeName.derive (Text.upper method) path) =
        .ok (schema.query, types) ∧
      Completed limits (Text.upper method) (TypeName.derive (Text.upper method) path) body
        (Entries.put types "Query" schema.query) schema := by
  obtain ⟨⟨query, types⟩, hroot, h⟩ := Outcome.bind_eq_ok_iff.mp h
  have hroot := Outcome.mapError_eq_ok_iff.mp hroot
  simp only at h
  -- a declaration is looked at for the methods that write
  split at h
  · next declaration =>
      split at h
      · next hwrite =>
          obtain ⟨⟨mutation, types'⟩, hmutation, h⟩ := Outcome.bind_eq_ok_iff.mp h
          have hmutation := Outcome.mapError_eq_ok_iff.mp hmutation
          obtain rfl := Except.ok.inj h
          exact ⟨types, hroot, .writing hwrite rfl hmutation rfl rfl⟩
      · next hread =>
          obtain rfl := Except.ok.inj h
          exact ⟨types, hroot, .reading (fun hwrite => hread hwrite.1) rfl rfl⟩
  · obtain rfl := Except.ok.inj h
    exact ⟨types, hroot, .reading (fun hwrite => nomatch hwrite.2) rfl rfl⟩

/-- A schema has a mutation root exactly when a write method declares a body. -/
theorem mutation_isSome_iff (h : build limits data method path body = .ok schema) :
    schema.mutation.isSome = true ↔ isWrite (Text.upper method) = true ∧
    body.isSome = true := by
  obtain ⟨types, -, hcompleted⟩ := completed_of_build h
  cases hcompleted with
  | reading hread hnone _ =>
      rw [hnone]
      exact ⟨fun hsome => (nomatch hsome), fun hwrite => absurd hwrite hread⟩
  | writing hwrite hbody _ hsome _ =>
      rw [hsome, hbody]
      exact ⟨fun _ => ⟨hwrite, rfl⟩, fun _ => rfl⟩

/-- A mutation root is that of the declared body. -/
theorem mutationOf_of_build (h : build limits data method path body = .ok schema) {root : NamedType}
    (hroot : schema.mutation = some root) :
    ∃ declaration types, body = some declaration ∧
      queryRoot limits data (TypeName.derive (Text.upper method) path) =
        .ok (schema.query, types) ∧
      MutationOf limits (Text.upper method) (TypeName.derive (Text.upper method) path) declaration
        (Entries.put types "Query" schema.query) schema root := by
  obtain ⟨types, hquery, hcompleted⟩ := completed_of_build h
  cases hcompleted with
  | reading _ hnone _ =>
      rw [hnone] at hroot
      cases hroot
  | writing _ hbody hmutation hsome htypes =>
      obtain rfl := Option.some.inj (hsome.symm.trans hroot)
      obtain ⟨properties, arguments, hproperties, htakes, heq⟩ := mutationRoot_takes hmutation
      exact ⟨_, types, hbody, hquery, properties, arguments, _, hproperties,
        htakes, heq, htypes⟩

end Schema

end JsonSelection

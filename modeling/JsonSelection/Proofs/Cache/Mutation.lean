import JsonSelection.Proofs.Cache.History
import JsonSelection.Proofs.Schema.Roots

/-!
# Mutations of cached schemas

The key of a cached schema holds no request body. A cached schema has the
mutation root of the call that it was built for, which is the first call of its
key since the last clearing for which a schema could be built
(`SchemaCache.mutation_of_builder`). A later call of that key gets that root
whatever body it declares itself.

The two runs at the end show both sides of this on one operation: a schema that
was built with a body serves a call without one (`mutation_of_createUser`), and
one that was built without a body serves a call that declares one
(`mutation_missing_for_createUser`). As long as all calls of a key declare the
same body, neither happens (`body_builderOf`).
-/

set_option autoImplicit false

namespace JsonSelection

namespace SchemaCache

variable {limits : Limits} {past : List Action} {call : Call} {lookup : CacheLookup}

/-- As long as all calls of a key declare the same body, the builder of a call
declares its body. -/
theorem body_builderOf
    (h : ∀ earlier ∈ sinceClear past, earlier.key limits = call.key limits →
      earlier.body = call.body) :
    (builderOf limits past call).body = call.body := by
  rcases builderOf_mem limits past call with heq | hmem
  · rw [heq]
  · exact h _ hmem (key_builderOf limits past call)

/-- A builder has the method, in upper case, and the path of the call. -/
theorem operation_builderOf (limits : Limits) (past : List Action) (call : Call) :
    Text.upper (builderOf limits past call).method = Text.upper call.method ∧
      (builderOf limits past call).path = call.path := by
  have hkey := key_builderOf limits past call
  exact ⟨congrArg CacheKey.method hkey, congrArg CacheKey.path hkey⟩

/-- The mutation root of the schema that a call gets is that of its builder,
which is the call itself if the answer is new. -/
theorem mutation_of_builder (h : (run limits past).answer call = .ok lookup) :
    (builderOf limits past call).build limits = .ok lookup.schema ∧
      (∀ other, BuiltFor limits (past ++ [.get call]) lookup.serial other ↔
        other = builderOf limits past call) ∧
      (lookup.fromCache = false → builderOf limits past call = call) ∧
      ((∀ earlier ∈ sinceClear past, earlier.key limits = call.key limits →
        earlier.body = call.body) → (builderOf limits past call).body = call.body) ∧
      (lookup.schema.mutation.isSome = true ↔ Schema.isWrite (Text.upper call.method) = true ∧
        (builderOf limits past call).body.isSome = true) ∧
      ∀ root, lookup.schema.mutation = some root → ∃ declaration types,
        (builderOf limits past call).body = some declaration ∧
        Schema.queryRoot limits (builderOf limits past call).data
            (TypeName.derive (Text.upper call.method) call.path) =
              .ok (lookup.schema.query, types) ∧
        Schema.MutationOf limits (Text.upper call.method)
          (TypeName.derive (Text.upper call.method) call.path) declaration
          (Entries.put types "Query" lookup.schema.query) lookup.schema root := by
  have hbuild := build_builderOf h
  obtain ⟨hmethod, hpath⟩ := operation_builderOf limits past call
  refine ⟨hbuild, builtFor_iff h, builderOf_of_new h, body_builderOf, ?_, ?_⟩
  · rw [← hmethod]
    exact Schema.mutation_isSome_iff hbuild
  · intro root hroot
    rw [← hmethod, ← hpath]
    exact Schema.mutationOf_of_build hbuild hroot

/-- The creation of a user with a declared body, if any. -/
def createUser (body : Option Json) : Call where
  data := .obj [("id", .int 1)]
  method := "post"
  path := "/users"
  body := body

/-- The declaration of a body with a name. -/
def userBody : Json :=
  .obj [("properties", .obj [("name", .obj [("type", .str "string")])])]

theorem builderOf_createUser (body body' : Option Json)
    (h : ((createUser body).build {}).isOk = true) :
    builderOf {} [.get (createUser body)] (createUser body') = createUser body :=
  builderOf_single rfl h

/-- The schema that is built with a body serves a call without one. -/
theorem mutation_of_createUser : ∃ lookup,
    (run {} [.get (createUser (some userBody))]).answer (createUser none) = .ok lookup ∧
      lookup.schema.mutation.isSome = true := by
  have hfirst : ((createUser (some userBody)).build {}).isOk = true := by decide +kernel
  have hsecond : ((createUser none).build {}).isOk = true := by decide +kernel
  obtain ⟨lookup, hlookup⟩ := answered_of_isOk [.get (createUser (some userBody))] hsecond
  obtain ⟨-, -, -, -, hmutation, -⟩ := mutation_of_builder hlookup
  rw [builderOf_createUser (some userBody) none hfirst] at hmutation
  exact ⟨lookup, hlookup, hmutation.mpr ⟨by decide +kernel, rfl⟩⟩

/-- The schema that is built without a body serves a call with one, which gets
no mutation root. -/
theorem mutation_missing_for_createUser : ∃ lookup,
    (run {} [.get (createUser none)]).answer (createUser (some userBody)) = .ok lookup ∧
      ¬ (lookup.schema.mutation.isSome = true ↔
        Schema.isWrite (Text.upper (createUser (some userBody)).method) = true ∧
          (createUser (some userBody)).body.isSome = true) := by
  have hfirst : ((createUser none).build {}).isOk = true := by decide +kernel
  have hsecond : ((createUser (some userBody)).build {}).isOk = true := by decide +kernel
  obtain ⟨lookup, hlookup⟩ := answered_of_isOk [.get (createUser none)] hsecond
  have hbuild := build_builderOf hlookup
  rw [builderOf_createUser none (some userBody) hfirst] at hbuild
  have hmutation := Schema.mutation_isSome_iff hbuild
  refine ⟨lookup, hlookup, ?_⟩
  intro hown
  -- the call that the schema was built for declares no body
  have hnone := (hmutation.mp (hown.mpr ⟨by decide +kernel, rfl⟩)).2
  cases hnone

end SchemaCache

end JsonSelection

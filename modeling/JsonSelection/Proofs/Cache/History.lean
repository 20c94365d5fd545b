import JsonSelection.Cache
import JsonSelection.Proofs.Outcome
import Mathlib.Data.List.Induction

/-!
# Histories of a cache

A cache is asked by calls and emptied by clearing. What it answers depends on
its history alone.

## What this module delivers

- `SchemaCache.Action`, `SchemaCache.run`: histories, and the cache after one.
- `SchemaCache.firstOf`: the first call of a key since the last clearing for
  which a schema could be built.
- `SchemaCache.BuiltFor`: a number was given to a call in the course of a
  history, and to no other call (`BuiltFor.unique`).
- `SchemaCache.Records`: what is kept under a key agrees with the history. One
  action keeps the agreement (`records_get`), so every run has it
  (`records_run`).
- `SchemaCache.schema_answer`: a call gets the schema of that first call of its
  key, and its own if there is none.
- `SchemaCache.builtFor_iff`: the number of a schema tells which call it was
  built for.

Calls that fail are part of a history. They leave the cache as it was, so they
count as no first call; clearing forgets the schemas but not the numbers.
-/

set_option autoImplicit false

namespace JsonSelection

namespace SchemaCache

/-- A call to a cache. Beside the operation it has the response, a declared
body, and a hash that takes the place of the shape hash if it is given. -/
structure Call where
  data : Json
  method : String
  path : String
  body : Option Json := none
  override : Option String := none

/-- What is done to a cache: it is asked, or it is emptied. Nothing else changes
a cache. -/
inductive Action where
  | get (call : Call)
  | clear

/-- The key that a call looks up under some limits. -/
def Call.key (limits : Limits) (call : Call) : CacheKey :=
  keyOf { limits := limits } call.data call.method call.path call.override

/-- The schema of a call itself. -/
def Call.build (limits : Limits) (call : Call) : Except BuildError Schema :=
  Schema.build limits call.data call.method call.path call.body

/-- Asks a cache. The call is taken apart here only, so that everything else can
speak of calls as a whole. -/
def ask (cache : SchemaCache) (call : Call) : Except BuildError (CacheLookup × SchemaCache) :=
  cache.get call.data call.method call.path call.body call.override

/-- The answer to a call. -/
def answer (cache : SchemaCache) (call : Call) : Except BuildError CacheLookup :=
  (cache.ask call).map Prod.fst

/-- The cache after an action. A call that fails leaves it as it was. -/
def after (cache : SchemaCache) : Action → SchemaCache
  | .get call =>
      match cache.ask call with
      | .ok (_, next) => next
      | .error _ => cache
  | .clear => cache.clear

/-- The cache after a history that starts with nothing kept. The history is in
the order of its actions, the first one foremost. -/
def run (limits : Limits) (past : List Action) : SchemaCache :=
  past.foldl after { limits := limits }

/-- The calls of a history since the last clearing, oldest first. -/
def sinceClear (past : List Action) : List Call :=
  past.foldl (fun calls action =>
    match action with
    | .get call => calls ++ [call]
    | .clear => []) []

/-- The first call of a key for which a schema can be built. Calls that come to
nothing leave no schema, so they are passed over. -/
def firstOf (limits : Limits) (key : CacheKey) (calls : List Call) : Option Call :=
  calls.find? fun call => call.key limits == key && (call.build limits).isOk

/-- The call whose schema answers a call after a history. If nothing is kept for
the key, the call is answered by a schema of its own. -/
def builderOf (limits : Limits) (past : List Action) (call : Call) : Call :=
  (firstOf limits (call.key limits) (sinceClear past)).getD call

/-- A cache with one more schema. This is how a call that finds nothing leaves it. -/
def keep (cache : SchemaCache) (key : CacheKey) (schema : Schema) : SchemaCache :=
  { cache with
    entries := cache.entries ++ [⟨key, schema, cache.built⟩]
    built := cache.built + 1 }

/-! ### One step

What a single action does to the entries and to the count of builds. Everything
about runs is derived from these. -/

theorem ask_of_found {cache : SchemaCache} {call : Call} {entry : CacheEntry}
    (h : cache.find? (call.key cache.limits) = some entry) :
    cache.ask call =
      .ok (⟨entry.schema, entry.serial, Shape.hash cache.limits call.data, true⟩, cache) := by
  have hkey : cache.keyOf call.data call.method call.path call.override = call.key cache.limits :=
    rfl
  rw [ask, get]
  simp only [hkey, h]

theorem ask_of_missing {cache : SchemaCache} {call : Call}
    (h : cache.find? (call.key cache.limits) = none) :
    cache.ask call = (call.build cache.limits).map fun schema =>
      (⟨schema, cache.built, Shape.hash cache.limits call.data, false⟩,
        cache.keep (call.key cache.limits) schema) := by
  have hkey : cache.keyOf call.data call.method call.path call.override = call.key cache.limits :=
    rfl
  rw [ask, get]
  simp only [hkey, h]
  rfl

/-- What an action does: a call that is answered from the cache and one that
fails change nothing, any other call adds its own schema. -/
theorem after_get (cache : SchemaCache) (call : Call) :
    (cache.after (.get call) = cache ∧
        (cache.find? (call.key cache.limits) = none → ∃ error,
          call.build cache.limits = .error error)) ∨
      ∃ schema, cache.find? (call.key cache.limits) = none ∧
        call.build cache.limits = .ok schema ∧
        cache.after (.get call) = cache.keep (call.key cache.limits) schema := by
  cases hfind : cache.find? (call.key cache.limits) with
  | some entry =>
      left
      rw [after, ask_of_found hfind]
      exact ⟨rfl, fun hnone => by cases hnone⟩
  | none =>
      rw [after, ask_of_missing hfind]
      cases hbuild : call.build cache.limits with
      | error error => exact Or.inl ⟨rfl, fun _ => ⟨error, rfl⟩⟩
      | ok schema => exact Or.inr ⟨schema, rfl, rfl, rfl⟩

theorem limits_after (cache : SchemaCache) (action : Action) :
    (cache.after action).limits = cache.limits := by
  cases action with
  | clear => rfl
  | get call =>
      rcases after_get cache call with ⟨hsame, -⟩ | ⟨schema, -, -, hkeep⟩
      · rw [hsame]
      · rw [hkeep]
        rfl

/-- The builds of a cache are counted on. -/
theorem built_le_after (cache : SchemaCache) (action : Action) :
    cache.built ≤ (cache.after action).built := by
  cases action with
  | clear => exact Nat.le_refl _
  | get call =>
      rcases after_get cache call with ⟨hsame, -⟩ | ⟨schema, -, -, hkeep⟩
      · exact Nat.le_of_eq (congrArg built hsame.symm)
      · rw [hkeep]
        exact Nat.le_succ _

/-- A new schema is found under its key, unless another one is there. -/
theorem find?_keep (cache : SchemaCache) (key : CacheKey) (schema : Schema) (other : CacheKey) :
    (cache.keep key schema).find? other =
      (cache.find? other).or (if key = other then some ⟨key, schema, cache.built⟩
        else none) := by
  rw [find?, keep, List.find?_append, find?]
  by_cases hkey : key = other
  · simp [hkey]
  · simp [hkey]

/-- A call that is answered with a schema of its own has the next number, and
the number after it is the next one then. -/
theorem built_of_answer {cache : SchemaCache} {call : Call} {lookup : CacheLookup}
    (h : cache.answer call = .ok lookup) (hnew : lookup.fromCache = false) :
    lookup.serial = cache.built ∧ (cache.after (.get call)).built = cache.built + 1 := by
  obtain ⟨⟨first, next⟩, hask, rfl⟩ := Outcome.map_eq_ok_iff.mp h
  cases hfind : cache.find? (call.key cache.limits) with
  | some entry =>
      rw [ask_of_found hfind] at hask
      obtain ⟨rfl, -⟩ := Prod.mk.inj (Except.ok.inj hask)
      cases hnew
  | none =>
      have hafter : cache.after (.get call) = next := by
        rw [after, hask]
      rw [ask_of_missing hfind] at hask
      obtain ⟨schema, -, heq⟩ := Outcome.map_eq_ok_iff.mp hask
      obtain ⟨rfl, rfl⟩ := Prod.mk.inj heq
      exact ⟨rfl, congrArg built hafter⟩

/-! ### Runs

A history grows at its end, so the inductions add the last action. The agreement
is stated for one key at a time: a call of another key does not touch it. -/

section Runs

variable (limits : Limits)

theorem run_append (past more : List Action) :
    run limits (past ++ more) = more.foldl after (run limits past) :=
  List.foldl_append

theorem run_concat (past : List Action) (action : Action) :
    run limits (past ++ [action]) = (run limits past).after action :=
  run_append limits past [action]

theorem limits_run (past : List Action) : (run limits past).limits = limits := by
  induction past using List.reverseRecOn with
  | nil => rfl
  | append_singleton past action ih => rw [run_concat, limits_after, ih]

theorem built_le_run_append (past more : List Action) :
    (run limits past).built ≤ (run limits (past ++ more)).built := by
  induction more using List.reverseRecOn with
  | nil => exact Nat.le_of_eq (by rw [List.append_nil])
  | append_singleton more action ih =>
      rw [← List.append_assoc, run_concat]
      exact Nat.le_trans ih (built_le_after _ action)

end Runs

theorem sinceClear_get (past : List Action) (call : Call) :
    sinceClear (past ++ [.get call]) = sinceClear past ++ [call] := by
  rw [sinceClear, List.foldl_append]
  rfl

theorem sinceClear_clear (past : List Action) : sinceClear (past ++ [.clear]) = [] := by
  rw [sinceClear, List.foldl_append]
  rfl

variable {limits : Limits} {key : CacheKey} {past : List Action} {call : Call}

theorem firstOf_concat (calls : List Call) : firstOf limits key (calls ++ [call]) =
    (firstOf limits key calls).or
      (if call.key limits = key ∧ (call.build limits).isOk = true then some call else none) := by
  rw [firstOf, List.find?_append, firstOf]
  congr 1
  by_cases hcall : call.key limits = key ∧ (call.build limits).isOk = true
  · rw [if_pos hcall]
    simp [hcall.1, hcall.2]
  · rw [if_neg hcall]
    simpa using hcall

/-- A call was answered with a new schema of some number in the course of a
history. -/
def BuiltFor (limits : Limits) (history : List Action) (serial : Nat) (call : Call) : Prop :=
  ∃ before rest lookup, history = before ++ .get call :: rest ∧
    (run limits before).answer call = .ok lookup ∧ lookup.fromCache = false ∧
    lookup.serial = serial

theorem BuiltFor.append {serial : Nat} (h : BuiltFor limits past serial call) (more : List Action) :
    BuiltFor limits (past ++ more) serial call := by
  obtain ⟨before, rest, lookup, rfl, hlookup⟩ := h
  exact ⟨before, rest ++ more, lookup, by simp, hlookup⟩

/-- Of two new answers in a history the later one has another number. -/
theorem serial_ne_of_later {before more : List Action} {first second : Call}
    {lookup found : CacheLookup} (h : (run limits before).answer first = .ok lookup)
    (hnew : lookup.fromCache = false)
    (h' : (run limits (before ++ .get first :: more)).answer second = .ok found)
    (hnew' : found.fromCache = false) : lookup.serial ≠ found.serial := by
  obtain ⟨hserial, hnext⟩ := built_of_answer h hnew
  obtain ⟨hserial', -⟩ := built_of_answer h' hnew'
  have hle := built_le_run_append limits (before ++ [.get first]) more
  rw [run_concat, hnext, List.append_assoc, List.singleton_append] at hle
  omega

/-- A number is given to one call only. -/
theorem BuiltFor.unique {history : List Action} {serial : Nat} {other : Call}
    (h : BuiltFor limits history serial call) (h' : BuiltFor limits history serial other) :
    call = other := by
  obtain ⟨before, rest, lookup, hsplit, hlookup, hnew, hserial⟩ := h
  obtain ⟨before', rest', lookup', hsplit', hlookup', hnew', hserial'⟩ := h'
  rw [hsplit] at hsplit'
  -- the two places are one, or one of them comes later
  rcases List.append_eq_append_iff.mp hsplit' with ⟨gap, rfl, hgap⟩ | ⟨gap, rfl, hgap⟩
  · cases gap with
    | nil => exact Action.get.inj (List.cons.inj hgap).1
    | cons action gap =>
        obtain ⟨rfl, -⟩ := List.cons.inj hgap
        exact absurd (hserial.trans hserial'.symm) (serial_ne_of_later hlookup hnew hlookup' hnew')
  · cases gap with
    | nil => exact (Action.get.inj (List.cons.inj hgap).1).symm
    | cons action gap =>
        obtain ⟨rfl, -⟩ := List.cons.inj hgap
        exact absurd (hserial'.trans hserial.symm) (serial_ne_of_later hlookup' hnew' hlookup hnew)

/-- What is kept under a key agrees with the history: nothing as long as no call
of the key could be built, and afterwards the schema that was built for the
first one. -/
inductive Records (limits : Limits) (past : List Action) : Option CacheEntry →
    Option Call → Prop where
  | none : Records limits past none none
  | some {entry : CacheEntry} {call : Call} : call.build limits = .ok entry.schema →
      BuiltFor limits past entry.serial call → Records limits past (some entry) (some call)

theorem Records.append {kept? : Option CacheEntry} {call? : Option Call}
    (h : Records limits past kept? call?) (more : List Action) :
    Records limits (past ++ more) kept? call? := by
  cases h with
  | none => exact .none
  | some hbuild hbuilt => exact .some hbuild (hbuilt.append more)

theorem Records.or {kept? more? : Option CacheEntry} {call? other? : Option Call}
    (h : Records limits past kept? call?) (h' : Records limits past more? other?) :
    Records limits past (kept?.or more?) (call?.or other?) := by
  cases h with
  | none => rw [Option.none_or, Option.none_or]; exact h'
  | some hbuild hbuilt => exact .some hbuild hbuilt

/-- What a call adds to the records of a key: itself, if it has the key and is
the first one of it that can be built. -/
theorem records_get (call : Call) {key : CacheKey}
    (h : Records limits past ((run limits past).find? key) (firstOf limits key (sinceClear past))) :
    Records limits (past ++ [.get call]) ((run limits (past ++ [.get call])).find? key)
      (firstOf limits key (sinceClear (past ++ [.get call]))) := by
  rw [run_concat, sinceClear_get, firstOf_concat]
  have hmore := h.append [.get call]
  rcases after_get (run limits past) call with ⟨hsame, hfails⟩ |
    ⟨schema, hnone, hbuild, hkeep⟩
  · rw [hsame]
    rw [limits_run] at hfails
    revert hmore
    generalize hfind : (run limits past).find? key = kept?
    generalize firstOf limits key (sinceClear past) = call?
    intro hmore
    cases hmore with
    | some hbuild hbuilt => exact .some hbuild hbuilt
    | none =>
        -- a call of this key would have been kept if it could be built
        have hnot : ¬ (call.key limits = key ∧ (call.build limits).isOk = true) := by
          rintro ⟨rfl, hok⟩
          obtain ⟨error, herror⟩ := hfails hfind
          rw [herror] at hok
          cases hok
        rw [if_neg hnot]
        exact .none
  · rw [limits_run] at hnone hbuild hkeep
    rw [hkeep, find?_keep]
    refine hmore.or ?_
    by_cases hkey : call.key limits = key
    · rw [if_pos hkey, if_pos ⟨hkey, by rw [hbuild]; rfl⟩]
      refine .some hbuild ⟨past, [], ⟨schema, _, Shape.hash limits call.data, false⟩,
        rfl, ?_, rfl, rfl⟩
      rw [answer, ask_of_missing (by rw [limits_run]; exact hnone), limits_run, hbuild]
      rfl
    · rw [if_neg hkey, if_neg fun h => hkey h.1]
      exact .none

/-- A cache agrees with its history under every key. -/
theorem records_run (limits : Limits) (past : List Action) (key : CacheKey) :
    Records limits past ((run limits past).find? key) (firstOf limits key (sinceClear past)) := by
  induction past using List.reverseRecOn generalizing key with
  | nil => exact .none
  | append_singleton past action ih =>
      cases action with
      | get call => exact records_get call (ih key)
      | clear =>
          rw [run_concat, sinceClear_clear]
          exact .none

/-! ### Answers

What a call is answered after a history, by the agreement of cache and history. -/

/-- A call is answered with what is kept of the first call of its key, or with a
schema of its own. -/
theorem answer_run (limits : Limits) (past : List Action) (call : Call) :
    (∃ first schema serial, firstOf limits (call.key limits) (sinceClear past) = some first ∧
        first.build limits = .ok schema ∧ BuiltFor limits past serial first ∧
        (run limits past).answer call = .ok ⟨schema, serial, Shape.hash limits call.data, true⟩)
          ∨
      (firstOf limits (call.key limits) (sinceClear past) = none ∧
        (run limits past).answer call = (call.build limits).map fun schema =>
          ⟨schema, (run limits past).built, Shape.hash limits call.data, false⟩) := by
  have hrecords := records_run limits past (call.key limits)
  revert hrecords
  generalize hfind : (run limits past).find? (call.key limits) = kept?
  generalize firstOf limits (call.key limits) (sinceClear past) = call?
  intro hrecords
  -- either both the cache and the history have something for the key, or neither has
  cases hrecords with
  | @some entry first hbuild hbuilt =>
      refine Or.inl ⟨first, entry.schema, entry.serial, rfl, hbuild, hbuilt, ?_⟩
      rw [answer, ask_of_found (by rw [limits_run]; exact hfind), limits_run]
      rfl
  | none =>
      refine Or.inr ⟨rfl, ?_⟩
      rw [answer, ask_of_missing (by rw [limits_run]; exact hfind), limits_run]
      cases call.build limits <;> rfl

/-- A call gets the schema of its builder, and fails when that cannot be built. -/
theorem schema_answer (limits : Limits) (past : List Action) (call : Call) :
    ((run limits past).answer call).map CacheLookup.schema =
      (builderOf limits past call).build limits := by
  rcases answer_run limits past call with ⟨first, schema, serial, hfirst, hbuild, -, hanswer⟩ |
    ⟨hfirst, hanswer⟩
  · rw [hanswer, builderOf, hfirst, Option.getD_some, hbuild]
    rfl
  · rw [hanswer, builderOf, hfirst, Option.getD_none]
    cases call.build limits <;> rfl

/-- A call that can be built is answered after any history. -/
theorem answered_of_isOk (past : List Action) (h : (call.build limits).isOk = true) :
    ∃ lookup, (run limits past).answer call = .ok lookup := by
  rcases answer_run limits past call with ⟨first, schema, serial, -, -, -, hanswer⟩ |
    ⟨-, hanswer⟩
  · exact ⟨_, hanswer⟩
  · obtain ⟨schema, hbuild⟩ := Outcome.exists_of_isOk h
    rw [hbuild] at hanswer
    exact ⟨_, hanswer⟩

/-- After a single call the builder of its key is that call, if it can be built. -/
theorem builderOf_single {first : Call} (hkey : first.key limits = call.key limits)
    (h : (first.build limits).isOk = true) : builderOf limits [.get first] call = first := by
  have hcalls : sinceClear [.get first] = [] ++ [first] := rfl
  rw [builderOf, hcalls, firstOf_concat, if_pos ⟨hkey, h⟩]
  rfl

variable {lookup : CacheLookup}

/-- A call is answered from the cache when some call of its key came before it
and could be built. -/
theorem fromCache_iff (h : (run limits past).answer call = .ok lookup) :
    lookup.fromCache = true ↔
      (firstOf limits (call.key limits) (sinceClear past)).isSome = true := by
  rcases answer_run limits past call with ⟨first, schema, serial, hfirst, -, -, hanswer⟩ |
    ⟨hfirst, hanswer⟩
  · rw [hanswer] at h
    obtain rfl := Except.ok.inj h
    simp [hfirst]
  · rw [hanswer] at h
    obtain ⟨schema, -, rfl⟩ := Outcome.map_eq_ok_iff.mp h
    simp [hfirst]

/-- A call whose answer is new is its own builder. -/
theorem builderOf_of_new (h : (run limits past).answer call = .ok lookup)
    (hnew : lookup.fromCache = false) : builderOf limits past call = call := by
  have hnone : firstOf limits (call.key limits) (sinceClear past) = none := by
    rw [← Option.not_isSome_iff_eq_none, ← fromCache_iff h, hnew]
    exact Bool.false_ne_true
  rw [builderOf, hnone, Option.getD_none]

/-- A builder is the call itself or one of those since the last clearing. -/
theorem builderOf_mem (limits : Limits) (past : List Action) (call : Call) :
    builderOf limits past call = call ∨ builderOf limits past call ∈ sinceClear past := by
  rw [builderOf]
  cases hfirst : firstOf limits (call.key limits) (sinceClear past) with
  | none => exact Or.inl rfl
  | some first => exact Or.inr (List.mem_of_find?_eq_some hfirst)

/-- What a call is answered with is the schema of its builder. -/
theorem build_builderOf (h : (run limits past).answer call = .ok lookup) :
    (builderOf limits past call).build limits = .ok lookup.schema := by
  rw [← schema_answer, h]
  rfl

/-- A builder looks up what the call looks up. -/
theorem key_builderOf (limits : Limits) (past : List Action) (call : Call) :
    (builderOf limits past call).key limits = call.key limits := by
  rw [builderOf]
  cases hfirst : firstOf limits (call.key limits) (sinceClear past) with
  | none => rfl
  | some first =>
      have hfound := List.find?_some hfirst
      rw [Bool.and_eq_true, beq_iff_eq] at hfound
      exact hfound.1

/-- The schema that a call gets was built for its builder and for no other call. -/
theorem builtFor_iff (h : (run limits past).answer call = .ok lookup) (builder : Call) :
    BuiltFor limits (past ++ [.get call]) lookup.serial builder ↔
      builder = builderOf limits past call := by
  have hown : BuiltFor limits (past ++ [.get call]) lookup.serial (builderOf limits past call) := by
    -- a kept schema was built by an earlier call; a new one is built by this call
    rcases answer_run limits past call with ⟨first, schema, serial, hfirst, -,
      hbuilt, hanswer⟩ |
      ⟨hfirst, hanswer⟩
    · rw [hanswer] at h
      obtain rfl := Except.ok.inj h
      rw [builderOf, hfirst, Option.getD_some]
      exact hbuilt.append _
    · rw [builderOf, hfirst, Option.getD_none]
      have hnew : lookup.fromCache = false := by
        rw [hanswer] at h
        obtain ⟨schema, -, rfl⟩ := Outcome.map_eq_ok_iff.mp h
        rfl
      exact ⟨past, [], lookup, rfl, h, hnew, rfl⟩
  exact ⟨fun hbuilt => hbuilt.unique hown, fun heq => heq ▸ hown⟩

end SchemaCache

end JsonSelection

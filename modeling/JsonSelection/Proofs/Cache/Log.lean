import JsonSelection.Proofs.Cache.History

/-!
# The log of a cache

A cache whose answers are written down. The log holds each call that was
answered since the last clearing together with its answer; a call that fails is
not in it. The log decides everything that can be seen of the cache.

## What this module delivers

- `SchemaCache.Logged`: a cache with its log. Writing answers down does not
  change the cache (`Logged.cache_run`).
- `SchemaCache.Kept`: what is kept under a key is what the first answer of the
  key was given, and that answer was new (`kept_run`).
- `SchemaCache.keys_run`: each key of the log is kept once, in the order in
  which the keys first came.
- `SchemaCache.follows_log`: which calls are answered from the cache, with what,
  and how many schemas are kept.

A log is what a caller can see, while the histories of `Proofs/Cache/History`
hold what was asked; the statements here need no look inside the cache.
-/

set_option autoImplicit false

namespace JsonSelection

namespace SchemaCache

/-- A call with what it was answered. The answer tells which schema was given,
by the number of its build. -/
structure Answered where
  call : Call
  lookup : CacheLookup

/-- The key that was looked up. -/
def Answered.key (limits : Limits) (answered : Answered) : CacheKey :=
  answered.call.key limits

/-- A cache with the answers it has given since it was last emptied, oldest
first. The log is no part of the cache, and no answer depends on it. -/
structure Logged where
  cache : SchemaCache
  log : List Answered := []

/-- The cache and its log after an action. An answered call is added at the end
of the log, and emptying the cache empties the log as well. -/
def Logged.after (logged : Logged) : Action → Logged
  | .get call =>
      match logged.cache.ask call with
      | .ok (lookup, next) => ⟨next, logged.log ++ [⟨call, lookup⟩]⟩
      | .error _ => logged
  | .clear => ⟨logged.cache.clear, []⟩

/-- A cache with its log after a history that starts with nothing kept. -/
def Logged.run (limits : Limits) (past : List Action) : Logged :=
  past.foldl Logged.after { cache := { limits := limits } }

/-- The answers that a history has given since the last clearing. -/
def log (limits : Limits) (past : List Action) : List Answered :=
  (Logged.run limits past).log

/-- The first answer to a call of a key. If the log keeps to the rules, all
answers to calls of the key are its schema. -/
def firstAnswer (limits : Limits) (key : CacheKey) (log : List Answered) : Option Answered :=
  log.find? fun answered => answered.key limits == key

variable {limits : Limits} {past : List Action} {call : Call} {lookup : CacheLookup}
  {key : CacheKey}

/-! ### One step of the log -/

theorem Logged.run_concat (limits : Limits) (past : List Action) (action : Action) :
    Logged.run limits (past ++ [action]) = (Logged.run limits past).after action := by
  rw [Logged.run, List.foldl_append]
  rfl

/-- Writing answers down does not change the cache. -/
theorem Logged.cache_after (logged : Logged) (action : Action) :
    (logged.after action).cache = logged.cache.after action := by
  cases action with
  | clear => rfl
  | get call =>
      rw [Logged.after, SchemaCache.after]
      cases logged.cache.ask call with
      | error error => rfl
      | ok result => rfl

theorem Logged.cache_run (limits : Limits) (past : List Action) :
    (Logged.run limits past).cache = SchemaCache.run limits past := by
  induction past using List.reverseRecOn with
  | nil => rfl
  | append_singleton past action ih =>
      rw [Logged.run_concat, Logged.cache_after, ih, SchemaCache.run_concat]

theorem log_clear (limits : Limits) (past : List Action) : log limits (past ++ [.clear]) = [] := by
  rw [log, Logged.run_concat]
  rfl

/-- A call that is answered is written down. -/
theorem log_get_ok (h : (run limits past).answer call = .ok lookup) :
    log limits (past ++ [.get call]) = log limits past ++ [⟨call, lookup⟩] := by
  obtain ⟨⟨found, next⟩, hask, rfl⟩ := Outcome.map_eq_ok_iff.mp h
  rw [log, Logged.run_concat, Logged.after, Logged.cache_run, hask]
  rfl

/-- A call that fails is not written down. -/
theorem log_get_error {error : BuildError} (h : (run limits past).answer call = .error error) :
    log limits (past ++ [.get call]) = log limits past := by
  have hask : (run limits past).ask call = .error error := Outcome.map_error h
  rw [log, Logged.run_concat, Logged.after, Logged.cache_run, hask]
  rfl

/-- A call that fails leaves the cache as it was. -/
theorem run_get_error {error : BuildError} (h : (run limits past).answer call = .error error) :
    run limits (past ++ [.get call]) = run limits past := by
  have hask : (run limits past).ask call = .error error := Outcome.map_error h
  rw [run_concat, after, hask]

/-- What a call adds to the cache: nothing if something is kept under its key,
else its own schema. -/
theorem run_get_ok (h : (run limits past).answer call = .ok lookup) :
    (∃ entry, (run limits past).find? (call.key limits) = some entry ∧
        lookup = ⟨entry.schema, entry.serial, Shape.hash limits call.data, true⟩ ∧
        run limits (past ++ [.get call]) = run limits past) ∨
      ((run limits past).find? (call.key limits) = none ∧
        call.build limits = .ok lookup.schema ∧
        lookup = ⟨lookup.schema, (run limits past).built,
          Shape.hash limits call.data, false⟩ ∧
        run limits (past ++ [.get call]) = (run limits past).keep (call.key limits)
          lookup.schema) := by
  obtain ⟨⟨found, next⟩, hask, rfl⟩ := Outcome.map_eq_ok_iff.mp h
  have hnext : run limits (past ++ [.get call]) = next := by
    rw [run_concat, after, hask]
  have hlimits := limits_run limits past
  cases hfind : (run limits past).find? (call.key limits) with
  | some entry =>
      rw [ask_of_found (by rw [hlimits]; exact hfind), hlimits] at hask
      obtain ⟨rfl, rfl⟩ := Prod.mk.inj (Except.ok.inj hask)
      exact Or.inl ⟨entry, rfl, rfl, hnext⟩
  | none =>
      rw [ask_of_missing (by rw [hlimits]; exact hfind), hlimits] at hask
      obtain ⟨schema, hbuild, heq⟩ := Outcome.map_eq_ok_iff.mp hask
      obtain ⟨rfl, rfl⟩ := Prod.mk.inj heq
      exact Or.inr ⟨rfl, hbuild, rfl, hnext⟩

/-! ### The log and what is kept

The agreement of cache and log is kept by every action, as that of cache and
history is, and by the same two cases: something is kept under the key of a
call, or it adds its own schema. -/

/-- An answer is the first of its key when there is none before it. -/
theorem firstAnswer_concat (answers : List Answered) (call : Call) (lookup : CacheLookup) :
    firstAnswer limits key (answers ++ [⟨call, lookup⟩]) = (firstAnswer limits key answers).or
      (if call.key limits = key then some ⟨call, lookup⟩ else none) := by
  rw [firstAnswer, List.find?_append, firstAnswer]
  congr 1
  by_cases hkey : call.key limits = key
  · simp [Answered.key, hkey]
  · simp [Answered.key, hkey]

theorem isSome_firstAnswer_iff {answers : List Answered} :
    (firstAnswer limits key answers).isSome = true ↔
      ∃ answered ∈ answers, answered.key limits = key := by
  rw [firstAnswer, List.find?_isSome]
  simp only [beq_iff_eq]

/-- What is kept under a key agrees with the log: the entry is the schema that
the first answer of the key was given, and this answer was new. -/
inductive Kept (limits : Limits) (past : List Action) : Option CacheEntry →
    Option Answered → Prop where
  | none : Kept limits past none none
  | some {entry : CacheEntry} {first : Answered} : first.lookup.schema = entry.schema →
      first.lookup.serial = entry.serial → first.lookup.fromCache = false →
      first.call.build limits = .ok entry.schema →
      BuiltFor limits past entry.serial first.call →
      Kept limits past (some entry) (some first)

theorem Kept.append {kept? : Option CacheEntry} {first? : Option Answered}
    (h : Kept limits past kept? first?) (more : List Action) :
    Kept limits (past ++ more) kept? first? := by
  cases h with
  | none => exact .none
  | some hschema hserial hnew hbuild hbuilt =>
      exact .some hschema hserial hnew hbuild (hbuilt.append more)

theorem Kept.or {kept? more? : Option CacheEntry} {first? next? : Option Answered}
    (h : Kept limits past kept? first?) (h' : Kept limits past more? next?) :
    Kept limits past (kept?.or more?) (first?.or next?) := by
  cases h with
  | none =>
      rw [Option.none_or, Option.none_or]
      exact h'
  | some hschema hserial hnew hbuild hbuilt => exact .some hschema hserial hnew hbuild hbuilt

theorem Kept.isSome_eq {kept? : Option CacheEntry} {first? : Option Answered}
    (h : Kept limits past kept? first?) : first?.isSome = kept?.isSome := by
  cases h with
  | none => rfl
  | some => rfl

/-- A call keeps the agreement under every key. -/
theorem kept_get (call : Call) {key : CacheKey}
    (h : ∀ key, Kept limits past ((run limits past).find? key)
      (firstAnswer limits key (log limits past))) :
    Kept limits (past ++ [.get call]) ((run limits (past ++ [.get call])).find? key)
      (firstAnswer limits key (log limits (past ++ [.get call]))) := by
  have hmore := (h key).append [.get call]
  cases hanswer : (run limits past).answer call with
  | error error =>
      rw [run_get_error hanswer, log_get_error hanswer]
      exact hmore
  | ok lookup =>
      rw [log_get_ok hanswer, firstAnswer_concat]
      rcases run_get_ok hanswer with ⟨entry, hfind, -, hrun⟩ |
        ⟨hfind, hbuild, hlookup, hrun⟩
      · rw [hrun]
        by_cases hkey : call.key limits = key
        · -- the log has an answer of this key already, so the new one is not the first
          have hsome := (h (call.key limits)).isSome_eq
          rw [hfind, hkey] at hsome
          obtain ⟨first, hfirst⟩ := Option.isSome_iff_exists.mp hsome
          rw [hfirst] at hmore ⊢
          exact hmore
        · rw [if_neg hkey, Option.or_none]
          exact hmore
      · rw [hrun, find?_keep]
        refine hmore.or ?_
        by_cases hkey : call.key limits = key
        · rw [if_pos hkey, if_pos hkey]
          have hnew : lookup.fromCache = false := by rw [hlookup]
          have hserial : lookup.serial = (run limits past).built := by rw [hlookup]
          exact .some rfl hserial hnew hbuild ⟨past, [], lookup, rfl, hanswer, hnew, hserial⟩
        · rw [if_neg hkey, if_neg hkey]
          exact .none

/-- A cache agrees with its log under every key. -/
theorem kept_run (limits : Limits) (past : List Action) (key : CacheKey) :
    Kept limits past ((run limits past).find? key) (firstAnswer limits key (log limits past)) := by
  induction past using List.reverseRecOn generalizing key with
  | nil => exact .none
  | append_singleton past action ih =>
      cases action with
      | get call => exact kept_get call ih
      | clear =>
          rw [run_concat, log_clear]
          exact .none

/-- A key that has a schema is one of those in the cache. -/
theorem mem_keys_iff {cache : SchemaCache} :
    key ∈ cache.entries.map CacheEntry.key ↔ (cache.find? key).isSome = true := by
  rw [find?, List.find?_isSome, List.mem_map]
  simp only [beq_iff_eq]

/-- One more item counts when it is not there already. -/
theorem eraseDups_concat {α : Type} [DecidableEq α] (items : List α) (item : α) :
    (items ++ [item]).eraseDups =
      if item ∈ items then items.eraseDups else items.eraseDups ++ [item] := by
  rw [List.eraseDups_append, List.removeAll]
  by_cases hmem : item ∈ items
  · have hnone : [item].filter (fun other => !items.elem other) = [] := by simp [hmem]
    rw [hnone, if_pos hmem, List.eraseDups_nil, List.append_nil]
  · have hone : [item].filter (fun other => !items.elem other) = [item] := by simp [hmem]
    rw [hone, if_neg hmem]
    rfl

/-- Each key of the log is kept once, in the order in which they first came. -/
theorem keys_run (limits : Limits) (past : List Action) :
    (run limits past).entries.map CacheEntry.key =
      ((log limits past).map (Answered.key limits)).eraseDups := by
  induction past using List.reverseRecOn with
  | nil => rfl
  | append_singleton past action ih =>
      cases action with
      | clear =>
          rw [run_concat, log_clear]
          rfl
      | get call =>
          cases hanswer : (run limits past).answer call with
          | error error =>
              rw [run_get_error hanswer, log_get_error hanswer]
              exact ih
          | ok lookup =>
              -- a key is in the log when something is kept under it
              have hmem := @mem_keys_iff (call.key limits) (run limits past)
              rw [ih, List.mem_eraseDups] at hmem
              have hkeys :
                (log limits past ++ [Answered.mk call lookup]).map (Answered.key limits) =
                  (log limits past).map (Answered.key limits) ++ [call.key limits] :=
                List.map_append
              rw [log_get_ok hanswer, hkeys, eraseDups_concat, ← ih]
              rcases run_get_ok hanswer with ⟨entry, hfind, -, hrun⟩ | ⟨hfind, -, -, hrun⟩
              · rw [hfind] at hmem
                rw [hrun, if_pos (hmem.mpr rfl)]
              · rw [hfind] at hmem
                rw [hrun, if_neg fun h => Bool.false_ne_true (hmem.mp h), keep, List.map_append]
                rfl

/-! ### What the log decides -/

/-- How a call that comes after a history is answered, said by the log of that
history alone. No field mentions what is kept in the cache. -/
structure Follows (limits : Limits) (past : List Action) (log : List Answered)
    (call : Call) : Prop where
  /-- A hash that the caller gives takes the place of the shape hash, also when
  it is empty. -/
  key : call.key limits = ⟨Text.upper call.method, call.path,
    match call.override with
    | some hash => hash
    | none => Shape.hash limits call.data⟩
  /-- One schema is kept for each key. -/
  size : (run limits past).size = (log.map (Answered.key limits)).eraseDups.length
  /-- The hash of an answer is the one of the data of its own call, and an
  answer comes from the cache when there is one to the same key before it. -/
  answered : ∀ lookup, (run limits past).answer call = .ok lookup →
    lookup.shapeHash = Shape.hash limits call.data ∧
      (lookup.fromCache = true ↔ ∃ earlier ∈ log, earlier.key limits = call.key limits)
  /-- What is served again is the schema of the first answer to the key. It was
  built for the call of that answer and for no other. -/
  again : ∀ first, firstAnswer limits (call.key limits) log = some first →
    (run limits past).answer call =
        .ok ⟨first.lookup.schema, first.lookup.serial, Shape.hash limits call.data, true⟩ ∧
      first.lookup.fromCache = false ∧ first.call.build limits = .ok first.lookup.schema ∧
      ∀ other, BuiltFor limits past first.lookup.serial other ↔ other = first.call
  /-- The first call of a key is answered with its own schema, whose number is
  new, or fails. -/
  own : firstAnswer limits (call.key limits) log = none →
    ∃ serial, (∀ other, ¬ BuiltFor limits past serial other) ∧
      (run limits past).answer call = (call.build limits).map fun schema =>
        ⟨schema, serial, Shape.hash limits call.data, false⟩
  /-- A call that fails leaves the cache as it was. -/
  failed : ∀ error, (run limits past).answer call = .error error →
    run limits (past ++ [.get call]) = run limits past

/-- The next number of a cache has not been given to any call. -/
theorem not_builtFor_built (limits : Limits) (past : List Action) (other : Call) :
    ¬ BuiltFor limits past (run limits past).built other := by
  rintro ⟨before, rest, lookup, rfl, hanswer, hnew, hserial⟩
  obtain ⟨hgiven, hnext⟩ := built_of_answer hanswer hnew
  have hle := built_le_run_append limits (before ++ [.get other]) rest
  rw [run_concat, hnext, List.append_assoc, List.singleton_append] at hle
  omega

theorem answer_of_kept {first : Answered}
    (h : firstAnswer limits (call.key limits) (log limits past) = some first) :
    (run limits past).answer call =
        .ok ⟨first.lookup.schema, first.lookup.serial, Shape.hash limits call.data, true⟩ ∧
      first.lookup.fromCache = false ∧ first.call.build limits = .ok first.lookup.schema ∧
      BuiltFor limits past first.lookup.serial first.call := by
  have hkept := kept_run limits past (call.key limits)
  revert hkept
  rw [h]
  generalize hfind : (run limits past).find? (call.key limits) = kept?
  intro hkept
  cases hkept with
  | @some entry _ hschema hserial hnew hbuild hbuilt =>
      rw [hschema, hserial]
      refine ⟨?_, hnew, hbuild, hbuilt⟩
      rw [answer, ask_of_found (by rw [limits_run]; exact hfind), limits_run]
      rfl

theorem answer_of_not_kept (h : firstAnswer limits (call.key limits) (log limits past) = none) :
    (run limits past).answer call = (call.build limits).map fun schema =>
      ⟨schema, (run limits past).built, Shape.hash limits call.data, false⟩ := by
  have hsome := (kept_run limits past (call.key limits)).isSome_eq
  rw [h] at hsome
  have hfind : (run limits past).find? (call.key limits) = none := by
    apply Option.not_isSome_iff_eq_none.mp
    rw [← hsome]
    exact Bool.false_ne_true
  rw [answer, ask_of_missing (by rw [limits_run]; exact hfind), limits_run]
  cases call.build limits with
  | error error => rfl
  | ok schema => rfl

/-- After every history the log decides how a call is answered and how many
schemas are kept. -/
theorem follows_log (limits : Limits) (past : List Action) (call : Call) :
    Follows limits past (log limits past) call where
  key := by
    rw [Call.key, keyOf]
    cases call.override with
    | none => rfl
    | some hash => rfl
  size := by rw [← keys_run, List.length_map, size]
  answered := by
    intro lookup hanswer
    rw [← isSome_firstAnswer_iff]
    -- the log has an entry for the key exactly if the cache keeps a schema under it
    cases hfirst : firstAnswer limits (call.key limits) (log limits past) with
    | some first =>
        rw [(answer_of_kept hfirst).1] at hanswer
        obtain rfl := Except.ok.inj hanswer
        exact ⟨rfl, iff_of_true rfl rfl⟩
    | none =>
        rw [answer_of_not_kept hfirst] at hanswer
        obtain ⟨schema, -, rfl⟩ := Outcome.map_eq_ok_iff.mp hanswer
        exact ⟨rfl, iff_of_false Bool.false_ne_true Bool.false_ne_true⟩
  again := by
    intro first hfirst
    obtain ⟨hanswer, hnew, hbuild, hbuilt⟩ := answer_of_kept hfirst
    refine ⟨hanswer, hnew, hbuild, ?_⟩
    intro other
    constructor
    · intro hother
      exact hother.unique hbuilt
    · rintro rfl
      exact hbuilt
  own := fun hfirst =>
    ⟨(run limits past).built, not_builtFor_built limits past, answer_of_not_kept hfirst⟩
  failed := fun _ herror => run_get_error herror

end SchemaCache

end JsonSelection

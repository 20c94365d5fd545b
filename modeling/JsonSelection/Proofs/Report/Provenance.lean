import JsonSelection.Proofs.Cache.History
import JsonSelection.Report

/-!
# Where the schema of a report comes from

A report asks its cache with one call, so the reports that are made one after
another are a run of that cache. For a write method that sends a body the call
is looked up by the shape of that body, and the shape of the response does not
enter its key.

## What this module delivers

- `Report.Request.call`: the call that a report makes.
- `Report.active_afterAll`: reports run their cache through their calls.
- `Report.SharesShape`: two calls have responses of one shape.
- `Report.describes_iff`: the schema of a report is one of a response of its own
  shape exactly when the first call of its key had such a response.

Reports that look up the shape of their response always get such a schema as
long as nothing else is kept for their operation. That is a statement about
hashes, so it asks that no two of the shapes in question have one hash.
Everything else is about the histories of `Proofs/Cache/History`.
-/

set_option autoImplicit false

namespace JsonSelection

namespace SchemaCache

/-- What is kept is not lost by a call. -/
theorem isEmpty_after_get {cache : SchemaCache} (h : cache.isEmpty = false) (call : Call) :
    (cache.after (.get call)).isEmpty = false := by
  rcases after_get cache call with ⟨hsame, -⟩ | ⟨schema, -, -, hkeep⟩
  · rw [hsame]
    exact h
  · rw [hkeep, isEmpty, keep]
    simp

/-- The cache of an answer is the cache after the call. -/
theorem after_of_ask {cache next : SchemaCache} {call : Call} {lookup : CacheLookup}
    (h : cache.ask call = .ok (lookup, next)) : cache.after (.get call) = next := by
  rw [after, h]

end SchemaCache

namespace Report

open SchemaCache

/-- The call that a report makes. The hash of a body that was sent takes the
place of the shape hash in it. -/
def Request.call (limits : Limits) (request : Request) : Call where
  data := request.data
  method := request.method
  path := request.path
  body := request.declared
  override := bodyHash? limits request

/-- The calls that reports make. -/
def gets (limits : Limits) (requests : List Request) : List Action :=
  requests.map fun request => .get (request.call limits)

/-- The caches after reports that are made one after another. -/
def afterAll (caches : Caches) (requests : List Request) : Caches :=
  requests.foldl (fun caches request => (build caches request).2) caches

variable {limits : Limits} {caches : Caches} {request : Request} {report : Json}

/-! ### The cache of a report -/

/-- A cache that takes the place of the active one is active, unless it lost
what was kept. -/
theorem active_replaceActive {cache : SchemaCache}
    (h : caches.usesOwn = true → cache.isEmpty = false) :
    (caches.replaceActive cache).active = cache := by
  cases hown : caches.usesOwn with
  | true =>
      have hnext : (caches.replaceActive cache).usesOwn = true := by
        rw [Caches.replaceActive, if_pos hown, Caches.usesOwn]
        simp [h hown]
      rw [Caches.active, if_pos hnext, Caches.replaceActive, if_pos hown]
      rfl
  | false =>
      have hnext : caches.replaceActive cache = { caches with shared := cache } := by
        rw [Caches.replaceActive, hown]
        rfl
      have hshared : Caches.usesOwn { caches with shared := cache } = false := hown
      rw [hnext, Caches.active, hshared]
      rfl

/-- A cache that is at hand and keeps something keeps something afterwards. -/
theorem isEmpty_after_of_usesOwn (h : caches.usesOwn = true) (call : Call) :
    (caches.active.after (.get call)).isEmpty = false := by
  apply isEmpty_after_get
  rw [Caches.active, if_pos h]
  rw [Caches.usesOwn] at h
  cases hown : caches.own with
  | none =>
      rw [hown] at h
      cases h
  | some cache =>
      rw [hown] at h
      simpa using h

/-- A report leaves its cache as its call does. -/
theorem active_build (caches : Caches) (request : Request) :
    (build caches request).2.active =
      caches.active.after (.get (request.call caches.active.limits)) := by
  have hask : caches.active.ask (request.call caches.active.limits) =
      caches.active.get request.data request.method request.path request.declared
        (bodyHash? caches.active.limits request) := rfl
  have hkept : caches.usesOwn = true →
      (caches.active.after (.get (request.call caches.active.limits))).isEmpty = false :=
    fun hown => isEmpty_after_of_usesOwn hown _
  rw [build]
  split
  · next herror =>
      rw [after, hask, herror]
  · next lookup cache hlookup =>
      have hafter := after_of_ask (hask.trans hlookup)
      -- a cache of the report's own is put back as its own, and the shared one as
      -- shared
      have hactive : (caches.replaceActive cache).active = cache := by
        apply active_replaceActive
        intro hown
        rw [← hafter]
        exact hkept hown
      rw [hafter]
      split
      · exact hactive
      · exact hactive

theorem afterAll_concat (caches : Caches) (earlier : List Request) (request : Request) :
    afterAll caches (earlier ++ [request]) = (build (afterAll caches earlier) request).2 := by
  rw [afterAll, List.foldl_append]
  rfl

theorem gets_concat (limits : Limits) (earlier : List Request) (request : Request) :
    gets limits (earlier ++ [request]) = gets limits earlier ++ [.get (request.call limits)] :=
  List.map_append

/-- Reports run their cache through their calls. -/
theorem active_afterAll {past : List Action} (h : caches.active = run limits past)
    (requests : List Request) :
    (afterAll caches requests).active = run limits (past ++ gets limits requests) := by
  induction requests using List.reverseRecOn with
  | nil =>
      rw [gets, List.map_nil, List.append_nil]
      exact h
  | append_singleton earlier request ih =>
      rw [afterAll_concat, active_build, ih, limits_run, gets_concat,
        ← List.append_assoc, run_concat]

/-- A report is written from the answer to its call and from the costs of its
response. -/
theorem build_eq_ok_iff : (build caches request).1 = .ok report ↔ ∃ lookup costs,
    caches.active.answer (request.call caches.active.limits) = .ok lookup ∧
      CostNode.ofJson caches.active.limits (caches.active.limits.levelsFrom 0) request.data =
        .ok costs ∧
      report = write request lookup (bodyHash? caches.active.limits request) costs := by
  have hask : caches.active.ask (request.call caches.active.limits) =
      caches.active.get request.data request.method request.path request.declared
        (bodyHash? caches.active.limits request) := rfl
  rw [build, answer, hask]
  split
  · next herror =>
      rw [herror]
      constructor
      · intro h
        cases h
      · rintro ⟨lookup, costs, h, -⟩
        cases h
  · next lookup cache hlookup =>
      -- the costs are computed under the limits of the cache after the call
      have hlimits : cache.limits = caches.active.limits := by
        rw [← after_of_ask (hask.trans hlookup)]
        exact limits_after _ _
      rw [hlookup, hlimits]
      split
      · next herror =>
          rw [herror]
          constructor
          · intro h
            cases h
          · rintro ⟨other, costs, -, h, -⟩
            cases h
      · next costs hcosts =>
          rw [hcosts]
          constructor
          · intro h
            exact ⟨lookup, costs, rfl, rfl, (Except.ok.inj h).symm⟩
          · rintro ⟨other, others, hother, hcosts', rfl⟩
            obtain rfl := Except.ok.inj hother
            obtain rfl := Except.ok.inj hcosts'
            rfl

/-! ### The response behind a schema -/

/-- Two calls are of one operation. The methods may be written in different cases. -/
def SameOperation (call other : Call) : Prop :=
  Text.upper call.method = Text.upper other.method ∧ call.path = other.path

/-- Two calls have responses of one shape. Hashes have no part in it. -/
def SharesShape (limits : Limits) (call other : Call) : Prop :=
  Shape.fingerprint limits 0 call.data = Shape.fingerprint limits 0 other.data

/-- The calls whose schema a report may be given: those of the past since the
last clearing and those of the reports before it. -/
def callsBefore (limits : Limits) (past : List Action) (earlier : List Request) : List Call :=
  sinceClear past ++ earlier.map (Request.call limits)

theorem sinceClear_gets (limits : Limits) (past : List Action) (earlier : List Request) :
    sinceClear (past ++ gets limits earlier) = callsBefore limits past earlier := by
  induction earlier using List.reverseRecOn with
  | nil => simp [gets, callsBefore]
  | append_singleton earlier request ih =>
      rw [gets_concat, ← List.append_assoc, sinceClear_get, ih, callsBefore, callsBefore,
        List.map_append, List.append_assoc]
      rfl

/-- Whether the body that was sent is looked up. -/
theorem override_eq_none_iff : (request.call limits).override = none ↔
    (Schema.isWrite (Text.upper request.method) = true → request.sent = none) := by
  rw [Request.call, bodyHash?]
  split
  · next hwrite => simp [hwrite]
  · next hread => simp [hread]

/-- Without a body that was sent the key of a call has the hash of its response. -/
theorem hash_key_of_override {call : Call} (h : call.override = none) :
    (call.key limits).hash = Shape.hash limits call.data := by
  rw [Call.key, keyOf, h]
  rfl

theorem sameOperation_of_key {call other : Call} (h : call.key limits = other.key limits) :
    SameOperation call other :=
  ⟨congrArg CacheKey.method h, congrArg CacheKey.path h⟩

/-- As long as only hashes of responses are looked up for an operation and none
of them collide, calls of one key have responses of one shape. -/
theorem sharesShape_of_key {call other : Call} (h : call.key limits = other.key limits)
    (hcall : call.override = none) (hother : other.override = none)
    (hdistinct : Shape.hash limits call.data = Shape.hash limits other.data →
      SharesShape limits call other) : SharesShape limits call other := by
  apply hdistinct
  rw [← hash_key_of_override hcall, ← hash_key_of_override hother, h]

variable {past : List Action} {earlier : List Request}

/-- The schema of a report was built for the first call of its key, or for its
own one. It is the schema of a response of the shape of its own exactly when the
response of that first call has this shape. That is so whenever no body that was
sent has been looked up for the operation. -/
theorem describes_iff (hstart : caches.active = run limits past)
    (h : (build (afterAll caches earlier) request).1 = .ok report) :
    ∃ lookup costs builder, report = write request lookup (bodyHash? limits request) costs ∧
      (∀ call, BuiltFor limits (past ++ gets limits (earlier ++ [request])) lookup.serial call ↔
        call = builder) ∧
      builder.build limits = .ok lookup.schema ∧
      (SharesShape limits builder (request.call limits) ↔ ∀ first,
        firstOf limits ((request.call limits).key limits) (callsBefore limits past earlier) =
          some first → SharesShape limits first (request.call limits)) ∧
      ((∀ other ∈ callsBefore limits past earlier,
          Shape.hash limits other.data = Shape.hash limits request.data →
            SharesShape limits other (request.call limits)) →
        (∀ other ∈ sinceClear past, SameOperation other (request.call limits) →
          other.override = none) →
        (∀ other ∈ earlier ++ [request], SameOperation (other.call limits)
          (request.call limits) →
          Schema.isWrite (Text.upper other.method) = true → other.sent = none) →
        SharesShape limits builder (request.call limits)) := by
  have hactive := active_afterAll hstart earlier
  obtain ⟨lookup, costs, hanswer, -, hreport⟩ := build_eq_ok_iff.mp h
  rw [hactive, limits_run] at hanswer hreport
  have hcalls := sinceClear_gets limits past earlier
  refine ⟨lookup, costs, builderOf limits (past ++ gets limits earlier) (request.call limits),
    hreport,
    ?_, ?_, ?_, ?_⟩
  · rw [gets_concat, ← List.append_assoc]
    exact builtFor_iff hanswer
  · exact build_builderOf hanswer
  · rw [builderOf, hcalls]
    cases firstOf limits ((request.call limits).key limits) (callsBefore limits past earlier) with
    | none =>
        -- the report is given the schema of its own response
        refine ⟨?_, fun _ => rfl⟩
        intro _ first hnone
        cases hnone
    | some first =>
        constructor
        · rintro hshares _ ⟨⟩
          exact hshares
        · intro hfirst
          exact hfirst first rfl
  · intro hdistinct hpast hreports
    have hkey := key_builderOf limits (past ++ gets limits earlier) (request.call limits)
    have hown : (request.call limits).override = none :=
      override_eq_none_iff.mpr (hreports request
        (List.mem_append_right _ List.mem_cons_self) ⟨rfl, rfl⟩)
    -- the builder looked up a hash of its response too, and the same one
    rcases builderOf_mem limits (past ++ gets limits earlier) (request.call limits) with heq | hmem
    · rw [heq]
      rfl
    · rw [hcalls] at hmem
      refine sharesShape_of_key hkey ?_ hown (hdistinct _ hmem)
      have hoperation := sameOperation_of_key hkey
      rcases List.mem_append.mp hmem with hmem | hmem
      · exact hpast _ hmem hoperation
      · obtain ⟨other, hother, heq⟩ := List.mem_map.mp hmem
        rw [← heq] at hoperation ⊢
        exact override_eq_none_iff.mpr (hreports other (List.mem_append_left _ hother) hoperation)

/-- The response to the creation of a user, whose body was sent. -/
def creation (data : Json) : Request where
  data := data
  method := "POST"
  path := "/users"
  sent := some (.obj [("name", .str "ann")])

theorem key_creation (data : Json) : ((creation data).call {}).key {} =
    ⟨Text.upper "POST", "/users", Shape.hash {} (.obj [("name", .str "ann")])⟩ := by
  have hwrite : Schema.isWrite (Text.upper "POST") = true := by decide +kernel
  have hoverride : ((creation data).call {}).override =
      some (Shape.hash {} (.obj [("name", .str "ann")])) := by
    rw [Request.call, bodyHash?, creation, if_pos hwrite]
    rfl
  rw [Call.key, keyOf, hoverride]
  rfl

/-- A report on a refused creation is given the schema of the response to the
creation before it. -/
theorem describes_iff_creation : ∃ report lookup costs builder,
    (build (afterAll ⟨none, {}⟩ [creation (.obj [("id", .int 1)])])
        (creation (.obj [("error", .str "taken")]))).1 = .ok report ∧
      report = write (creation (.obj [("error", .str "taken")])) lookup
        (bodyHash? {} (creation (.obj [("error", .str "taken")]))) costs ∧
      builder.build {} = .ok lookup.schema ∧
      ¬ SharesShape {} builder ((creation (.obj [("error", .str "taken")])).call {}) := by
  let first := creation (.obj [("id", .int 1)])
  let second := creation (.obj [("error", .str "taken")])
  have hstart : Caches.active ⟨none, {}⟩ = run {} [] := rfl
  have hbuild : ((second.call {}).build {}).isOk = true := by decide +kernel
  have hcosts : (CostNode.ofJson {} (Limits.levelsFrom {} 0) second.data).isOk = true := by
    decide +kernel
  obtain ⟨lookup, hanswer⟩ := answered_of_isOk ([] ++ gets {} [first]) hbuild
  obtain ⟨costs, hcosts⟩ := Outcome.exists_of_isOk hcosts
  have hreport : (build (afterAll ⟨none, {}⟩ [first]) second).1 =
      .ok (write second lookup (bodyHash? {} second) costs) := by
    apply build_eq_ok_iff.mpr
    rw [active_afterAll hstart, limits_run]
    exact ⟨lookup, costs, hanswer, hcosts, rfl⟩
  obtain ⟨lookup, costs, builder, hwrite, -, hschema, hdescribes, -⟩ :=
    describes_iff hstart hreport
  refine ⟨_, lookup, costs, builder, hreport, hwrite, hschema, ?_⟩
  rw [hdescribes]
  intro hfirst
  -- both calls have the key of the body that was sent, and the first one could be built
  have hfound : firstOf {} ((second.call {}).key {}) (callsBefore {} [] [first]) =
      some (first.call {}) := by
    have hcalls : callsBefore {} [] [first] = [] ++ [first.call {}] := rfl
    have hkey : (first.call {}).key {} = (second.call {}).key {} := by
      rw [key_creation, key_creation]
    rw [hcalls, firstOf_concat, if_pos ⟨hkey, by decide +kernel⟩]
    rfl
  have hshape : Shape.fingerprint {} 0 first.data = Shape.fingerprint {} 0 second.data :=
    hfirst _ hfound
  revert hshape
  decide +kernel

end Report

end JsonSelection

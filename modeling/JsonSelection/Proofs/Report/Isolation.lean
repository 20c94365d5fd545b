import JsonSelection.Proofs.Report.Provenance

/-!
# Reports on a cache of their own

A report on a given cache asks that cache, under its limits, and changes nothing
else. A report that has a cache at hand and a shared one is the report on the
first of them as long as something is kept there. While nothing is kept it is
the report on the shared cache, and the cache at hand is never filled.

## What this module delivers

- `Report.reportOn`: the report that is made on a given cache.
- `Report.build_eq`: whatever the caches, a report is made on the active one.
- `Report.isolated_of_kept`, `Report.build_of_empty`: which one is active.
- `Report.reportOn_again`: a report that was given can be given again, and then
  its schema comes from the cache.
- `Report.isolated_iff`: reports are isolated by a cache exactly when something
  is kept in it.

The run at the end begins with an empty cache at hand, as a caller who wants a
cache of its own would.
-/

set_option autoImplicit false

namespace JsonSelection

namespace SchemaCache

/-- What a call was answered with is kept under its key. -/
theorem found_of_ask {cache next : SchemaCache} {call : Call} {lookup : CacheLookup}
    (h : cache.ask call = .ok (lookup, next)) :
    ∃ entry, next.find? (call.key cache.limits) = some entry := by
  cases hfind : cache.find? (call.key cache.limits) with
  | some entry =>
      rw [ask_of_found hfind] at h
      obtain ⟨-, rfl⟩ := Prod.mk.inj (Except.ok.inj h)
      exact ⟨entry, hfind⟩
  | none =>
      rw [ask_of_missing hfind] at h
      obtain ⟨schema, -, heq⟩ := Outcome.map_eq_ok_iff.mp h
      obtain ⟨-, rfl⟩ := Prod.mk.inj heq
      rw [find?_keep, hfind, if_pos rfl]
      exact ⟨_, rfl⟩

end SchemaCache

namespace Report

open SchemaCache

/-- The report that is made on a given cache, and that cache afterwards. No
other cache has a part in it. -/
def reportOn (cache : SchemaCache) (request : Request) : Except BuildError Json × SchemaCache :=
  (do
    let lookup ← cache.answer (request.call cache.limits)
    let costs ← (CostNode.ofJson cache.limits (cache.limits.levelsFrom 0)
      request.data).mapError .cost
    return write request lookup (bodyHash? cache.limits request) costs,
    cache.after (.get (request.call cache.limits)))

/-- A given cache after reports that are made on it one after another. -/
def runOn (cache : SchemaCache) (requests : List Request) : SchemaCache :=
  requests.foldl (fun cache request => (reportOn cache request).2) cache

/-- With the cache at hand a report is made on that cache, and the shared cache
stays as it is. -/
def Isolated (cache shared : SchemaCache) (request : Request) : Prop :=
  build ⟨some cache, shared⟩ request =
    ((reportOn cache request).1, ⟨some (reportOn cache request).2, shared⟩)

variable {cache shared : SchemaCache} {caches : Caches} {request : Request} {report : Json}

/-! ### One report -/

theorem Caches.replaceActive_active (caches : Caches) :
    caches.replaceActive caches.active = caches := by
  obtain ⟨own, shared⟩ := caches
  cases hown : Caches.usesOwn ⟨own, shared⟩ with
  | false => rw [replaceActive, active, hown]; rfl
  | true =>
      rw [replaceActive, active, hown, if_pos rfl]
      cases own with
      | none => cases hown
      | some cache => rfl

/-- Whatever the caches, a report is made on the active one of them. -/
theorem build_eq (caches : Caches) (request : Request) :
    build caches request = ((reportOn caches.active request).1,
      caches.replaceActive (reportOn caches.active request).2) := by
  have hask : caches.active.ask (request.call caches.active.limits) =
      caches.active.get request.data request.method request.path request.declared
        (bodyHash? caches.active.limits request) := rfl
  rw [build, reportOn, answer, after, hask]
  split
  · next error herror =>
      rw [herror]
      exact Prod.ext rfl (Caches.replaceActive_active caches).symm
  · next lookup next hlookup =>
      -- the costs are computed under the limits of the cache after the call
      have hlimits : next.limits = caches.active.limits := by
        rw [← after_of_ask (hask.trans hlookup)]
        exact limits_after _ _
      rw [hlookup, hlimits]
      split
      · next error herror => rw [herror]; rfl
      · next costs hcosts => rw [hcosts]; rfl

theorem usesOwn_some (cache shared : SchemaCache) :
    Caches.usesOwn ⟨some cache, shared⟩ = !cache.isEmpty := rfl

/-- A cache that keeps something is the one that a report is made on. -/
theorem isolated_of_kept (h : cache.isEmpty = false) (shared : SchemaCache) (request : Request) :
    Isolated cache shared request := by
  have hown : Caches.usesOwn ⟨some cache, shared⟩ = true := by rw [usesOwn_some, h]; rfl
  rw [Isolated, build_eq, Caches.active, if_pos hown, Caches.replaceActive, if_pos hown]
  rfl

/-- A cache that keeps nothing is passed over. -/
theorem build_of_empty (h : cache.isEmpty = true) (shared : SchemaCache) (request : Request) :
    build ⟨some cache, shared⟩ request =
      ((reportOn shared request).1, ⟨some cache, (reportOn shared request).2⟩) := by
  have hshared : Caches.usesOwn ⟨some cache, shared⟩ = false := by rw [usesOwn_some, h]; rfl
  rw [build_eq, Caches.active, hshared, Caches.replaceActive, hshared]
  rfl

theorem isEmpty_reportOn (h : cache.isEmpty = false) (request : Request) :
    (reportOn cache request).2.isEmpty = false :=
  isEmpty_after_get h _

/-! ### Reports one after another

Whether a cache keeps something does not change while reports are made: one that
keeps something loses nothing, and one that keeps nothing is never written to. -/

theorem runOn_concat (cache : SchemaCache) (earlier : List Request) (request : Request) :
    runOn cache (earlier ++ [request]) = (reportOn (runOn cache earlier) request).2 := by
  rw [runOn, List.foldl_append]
  rfl

theorem isEmpty_runOn (h : cache.isEmpty = false) (requests : List Request) :
    (runOn cache requests).isEmpty = false := by
  induction requests using List.reverseRecOn with
  | nil => exact h
  | append_singleton earlier request ih =>
      rw [runOn_concat]
      exact isEmpty_reportOn ih request

/-- Reports with a cache that keeps something run on that cache alone. -/
theorem afterAll_of_kept (h : cache.isEmpty = false) (shared : SchemaCache)
    (requests : List Request) :
    afterAll ⟨some cache, shared⟩ requests = ⟨some (runOn cache requests), shared⟩ := by
  induction requests using List.reverseRecOn with
  | nil => rfl
  | append_singleton earlier request ih =>
      have hisolated := isolated_of_kept (isEmpty_runOn h earlier) shared request
      rw [afterAll_concat, ih, hisolated, runOn_concat]

/-- Reports with a cache that keeps nothing run on the shared one, and nothing
is ever kept. -/
theorem afterAll_of_empty (h : cache.isEmpty = true) (shared : SchemaCache)
    (requests : List Request) :
    afterAll ⟨some cache, shared⟩ requests = ⟨some cache, runOn shared requests⟩ := by
  induction requests using List.reverseRecOn with
  | nil => rfl
  | append_singleton earlier request ih =>
      rw [afterAll_concat, ih, build_of_empty h, runOn_concat]

/-! ### The same report again -/

theorem fromCache_write (request : Request) (lookup : CacheLookup) (bodyHash : Option String)
    (costs : CostNode) : (write request lookup bodyHash costs).member? "fromCache" =
      some (.bool lookup.fromCache) := by
  rfl

/-- A report that was given can be given again, and then its schema comes from
the cache. -/
theorem reportOn_again (h : (reportOn cache request).1 = .ok report) :
    ∃ again, (reportOn (reportOn cache request).2 request).1 = .ok again ∧
      again.member? "fromCache" = some (.bool true) := by
  obtain ⟨lookup, hanswer, h⟩ := Outcome.bind_eq_ok_iff.mp h
  obtain ⟨costs, hcosts, -⟩ := Outcome.bind_eq_ok_iff.mp h
  obtain ⟨⟨found, next⟩, hask, rfl⟩ := Outcome.map_eq_ok_iff.mp hanswer
  have hnext : (reportOn cache request).2 = next := after_of_ask hask
  have hlimits : next.limits = cache.limits := by
    rw [← hnext]
    exact limits_after _ _
  obtain ⟨entry, hentry⟩ := found_of_ask hask
  -- the costs are those of the first report, as the limits are
  have hagain : next.ask (request.call next.limits) =
      .ok (⟨entry.schema, entry.serial, Shape.hash next.limits (request.call next.limits).data,
        true⟩,
        next) :=
    ask_of_found (by rw [hlimits]; exact hentry)
  rw [hnext, reportOn, answer, hagain, hlimits, hcosts]
  exact ⟨_, rfl, fromCache_write _ _ _ _⟩

/-- The report on a response of one value. -/
def sample : Request where
  data := .obj [("id", .int 1)]

/-- A report with an empty shared cache at hand fills that cache. -/
theorem size_reportOn_sample : (reportOn {} sample).2.size = 1 := by
  decide +kernel

/-- Reports are isolated by a cache that is given for them exactly when
something is kept in it, and then the same report made again is served from that
cache. An empty cache is never used nor filled: all reports made with it ask and
change the shared one, under the limits of that one. -/
theorem isolated_iff (cache : SchemaCache) :
    ((∀ shared request, Isolated cache shared request) ↔ cache.isEmpty = false) ∧
    (cache.isEmpty = false → ∀ shared requests request,
      build (afterAll ⟨some cache, shared⟩ requests) request =
          ((reportOn (runOn cache requests) request).1,
            ⟨some (reportOn (runOn cache requests) request).2, shared⟩) ∧
        ∀ report, (build (afterAll ⟨some cache, shared⟩ requests) request).1 = .ok report →
          ∀ shared', ∃ again,
            (build ⟨(build (afterAll ⟨some cache, shared⟩ requests) request).2.own, shared'⟩
              request).1 = .ok again ∧
            again.member? "fromCache" = some (.bool true)) ∧
    (cache.isEmpty = true → ∀ shared requests request,
      build (afterAll ⟨some cache, shared⟩ requests) request =
        ((reportOn (runOn shared requests) request).1,
          ⟨some cache, (reportOn (runOn shared requests) request).2⟩)) := by
  refine ⟨⟨?_, isolated_of_kept⟩, ?_, ?_⟩
  · intro hisolated
    by_contra hempty
    have hshared := build_of_empty (eq_true_of_ne_false hempty) {} sample
    rw [hisolated] at hshared
    -- the shared cache is filled, so it does not stay as it is
    have hsize := congrArg (fun result => result.2.shared.size) hshared
    rw [size_reportOn_sample] at hsize
    cases hsize
  · intro hkept shared requests request
    have hrun := isEmpty_runOn hkept requests
    have hbuild := isolated_of_kept hrun shared request
    rw [afterAll_of_kept hkept, hbuild]
    refine ⟨rfl, ?_⟩
    intro report hreport shared'
    have hagain := isolated_of_kept (isEmpty_reportOn hrun request) shared' request
    rw [hagain]
    exact reportOn_again hreport
  · intro hempty shared requests request
    rw [afterAll_of_empty hempty]
    exact build_of_empty hempty _ _

/-- With a new cache at hand the report on a response fills the shared cache,
and made again after the shared cache has been cleared it is not served from any
cache. -/
theorem isolated_iff_fresh : ({} : SchemaCache).isEmpty = true ∧ ¬ Isolated {} {} sample ∧
    (build ⟨some {}, {}⟩ sample).2.shared.size = 1 ∧
    ∃ report, (build ⟨(build ⟨some {}, {}⟩ sample).2.own, {}⟩ sample).1 = .ok report ∧
      report.member? "fromCache" = some (.bool false) := by
  have hbuild : build ⟨some {}, {}⟩ sample =
      ((reportOn {} sample).1, ⟨some {}, (reportOn {} sample).2⟩) :=
    (isolated_iff {}).2.2 rfl {} [] sample
  have hsize : (build ⟨some {}, {}⟩ sample).2.shared.size = 1 := by
    rw [hbuild]
    exact size_reportOn_sample
  refine ⟨rfl, ?_, hsize, ?_⟩
  · intro hisolated
    rw [hisolated] at hsize
    cases hsize
  · rw [hbuild, hbuild]
    -- neither the schema nor the costs are looked at, only that there are some
    have hschema : ((sample.call {}).build {}).isOk = true := by decide +kernel
    have hcosts : (CostNode.ofJson {} (Limits.levelsFrom {} 0) sample.data).isOk = true := by
      decide +kernel
    obtain ⟨schema, hschema⟩ := Outcome.exists_of_isOk hschema
    obtain ⟨costs, hcosts⟩ := Outcome.exists_of_isOk hcosts
    have hask := @ask_of_missing {} (sample.call {}) rfl
    rw [hschema] at hask
    rw [reportOn, answer, hask, hcosts]
    exact ⟨_, rfl, fromCache_write _ _ _ _⟩

end Report

end JsonSelection

import JsonSelection.Proofs.Paging.Address
import JsonSelection.Proofs.Paging.Gathering

/-!
# What a hint tells

A hint holds the first usable value of each kind, and the parameters of the next
request that follow from these values: the cursor and the page token under the
names that the operation accepts, and over them the parameters of the link.

## What this module delivers

- `Hint.Chosen`: the parameter that takes a value, among the candidates of its
  source.
- `Hint.Linked`: the parameters that the link to the next page carries, in the
  sense of the grammar of addresses (`Address.Carries`).
- `Hint.Named`: the parameters that take the cursor or the page token.
- `Hint.Requested`: the two together, the link first.
- `Hint.detect_tells`: a response object gives a hint exactly if some source has
  a usable value, and the hint tells the first values and the requested
  parameters. Nothing but the values at the paths of the sources matters for it.

All statements are over both ways to check the host of a link
(`Address.HostCheck`). The remarks of a hint are described only as far as they
tell whether there are any.
-/

set_option autoImplicit false

namespace JsonSelection

namespace Hint

variable {check : Address.HostCheck} {data : Json} {accepted : List String} {seen : List Source}
  {picks : List (Source × Json)} {found : Findings}

/-! ### The parameters of the next request

Parameters are gathered from several values and written over each other. No two
values other than a link give the same name (`parametersOf_apart`), which is a
property of the table of sources, so the order of writing shows at the link
only. -/

/-- The parameter that takes a value: the first candidate that is accepted, and
the first of all where none is. -/
inductive Chosen (candidates accepted : List String) : String → Prop where
  | accepted {before after : List String} {name : String} : candidates = before ++ name :: after →
      name ∈ accepted → (∀ other ∈ before, other ∉ accepted) →
      Chosen candidates accepted name
  | fallback {name : String} {rest : List String} : candidates = name :: rest →
      (∀ candidate ∈ candidates, candidate ∉ accepted) → Chosen candidates accepted name

/-- A parameter that the link to the next page carries. The link is the value of
the first source of its kind that gives one. -/
def Linked (check : Address.HostCheck) (data : Json) (name text : String) : Prop :=
  ∃ source url, source.target = .nextUrl ∧ First sources data source (.str url) ∧
    Address.Carries check url name text

/-- A parameter that takes the cursor or the page token. Its name is the first
candidate that the operation accepts, or the first of all. -/
def Named (data : Json) (accepted : List String) (name text : String) : Prop :=
  ∃ source, (source.target = .cursor ∨ source.target = .pageToken) ∧
    First sources data source (.str text) ∧ Chosen source.candidates accepted name

/-- A parameter of the next request: one of the link, or one that takes the
cursor or the page token where the link has no parameter of that name. This is
what it means that the link is overlaid on the others. -/
def Requested (check : Address.HostCheck) (data : Json) (accepted : List String)
    (name text : String) : Prop :=
  Linked check data name text ∨
    (∀ other, ¬ Linked check data name other) ∧ Named data accepted name text

theorem Chosen.of_parameterName {candidates accepted : List String} {name : String}
    (h : parameterName candidates accepted = some name) : Chosen candidates accepted name := by
  cases hfind : candidates.find? accepted.contains with
  | some other =>
      rw [parameterName, hfind] at h
      obtain rfl := Option.some.inj h
      obtain ⟨haccepted, before, after, hsplit, hbefore⟩ :=
        List.find?_eq_some_iff_append.mp hfind
      exact .accepted hsplit (by simpa using haccepted) (by simpa using hbefore)
  | none =>
      rw [parameterName, hfind] at h
      obtain ⟨rest, rfl⟩ := List.head?_eq_some_iff.mp h
      exact .fallback rfl (by simpa using List.find?_eq_none.mp hfind)

theorem Chosen.parameterName_eq {candidates accepted : List String} {name : String}
    (h : Chosen candidates accepted name) : parameterName candidates accepted = some name := by
  cases h with
  | accepted hsplit haccepted hbefore =>
      have hfind : candidates.find? accepted.contains = some name :=
        List.find?_eq_some_iff_append.mpr
          ⟨by simpa using haccepted, _, _, hsplit, by simpa using hbefore⟩
      rw [parameterName, hfind]
  | fallback hsplit hall =>
      have hfind : candidates.find? accepted.contains = none :=
        List.find?_eq_none.mpr (by simpa using hall)
      rw [parameterName, hfind, hsplit]
      rfl

theorem parameterName_eq_some_iff (candidates accepted : List String) (name : String) :
    parameterName candidates accepted = some name ↔ Chosen candidates accepted name :=
  ⟨.of_parameterName, fun h => h.parameterName_eq⟩

/-- Whether a value is sent back under one of the candidate names. -/
def Target.isNamed : Target → Bool
  | cursor => true
  | pageToken => true
  | nextUrl => false
  | hasMore => false

theorem Target.isNamed_iff (target : Target) :
    target.isNamed = true ↔ target = .cursor ∨ target = .pageToken := by
  cases target <;> decide

theorem Target.not_isNamed_iff (target : Target) :
    target.isNamed = false ↔ target = .nextUrl ∨ target = .hasMore := by
  cases target <;> decide

/-- The table lists the cursors and the page tokens before the links and the flags. -/
theorem sources_eq : sources = sources.filter (fun source => source.target.isNamed) ++
    sources.filter (fun source => !source.target.isNamed) := by
  decide

/-- No name is a candidate for two kinds of values. -/
theorem candidates_apart : ∀ source ∈ sources, ∀ other ∈ sources,
    source.target ≠ other.target →
    ∀ name ∈ source.candidates, name ∉ other.candidates := by
  decide

theorem usable_text {target : Target} {value : Json} (h : Usable target value)
    (htarget : target ≠ .hasMore) :
    ∃ text, value = .str text := by
  cases h with
  | flag => exact absurd rfl htarget
  | text _ _ => exact ⟨_, rfl⟩

theorem distinct_addressParameters (check : Address.HostCheck) (url : String) :
    Entries.Distinct (Address.parameters url check) := by
  unfold Address.parameters
  split
  · exact List.nodup_nil
  · exact Entries.distinct_ofList _

/-- What a cursor or a page token adds to the next request. -/
theorem mem_parametersOf_named {source : Source} {text : String} (h : source.target.isNamed = true)
    (entry : String × String) :
    entry ∈ parametersOf check accepted source (.str text) ↔
      Chosen source.candidates accepted entry.1 ∧ entry.2 = text := by
  have hparameters : parametersOf check accepted source (.str text) =
      (parameterName source.candidates accepted).toList.map fun name => (name, text) := by
    unfold parametersOf
    rcases (Target.isNamed_iff _).mp h with htarget | htarget
    · rw [htarget]
      rfl
    · rw [htarget]
      rfl
  rw [hparameters, List.mem_map, ← parameterName_eq_some_iff]
  constructor
  · rintro ⟨name, hname, rfl⟩
    exact ⟨Option.mem_toList.mp hname, rfl⟩
  · rintro ⟨hname, rfl⟩
    exact ⟨entry.1, Option.mem_toList.mpr hname, rfl⟩

theorem parametersOf_link {source : Source} (h : source.target = .nextUrl) (url : String) :
    parametersOf check accepted source (.str url) = Address.parameters url check := by
  unfold parametersOf
  rw [h]
  rfl

theorem parametersOf_flag {source : Source} (h : source.target = .hasMore) (value : Json) :
    parametersOf check accepted source value = [] := by
  unfold parametersOf
  rw [h]

theorem mem_candidates_of_chosen {candidates : List String} {name : String}
    (h : Chosen candidates accepted name) : name ∈ candidates := by
  cases h with
  | accepted hsplit _ _ =>
      rw [hsplit]
      exact List.mem_append_right _ List.mem_cons_self
  | fallback hsplit _ =>
      rw [hsplit]
      exact List.mem_cons_self

/-- One value gives no name twice. -/
theorem distinct_parametersOf (check : Address.HostCheck) (accepted : List String) (source : Source)
    (value : Json) :
    Entries.Distinct (parametersOf check accepted source value) := by
  have hnamed : ∀ text : String, Entries.Distinct
    ((parameterName source.candidates accepted).toList.map
      fun name => (name, text)) := by
    intro text
    cases parameterName source.candidates accepted with
    | none => exact List.nodup_nil
    | some name => exact List.nodup_singleton name
  unfold parametersOf
  split
  · exact List.nodup_nil
  · exact distinct_addressParameters check _
  · exact hnamed _

/-- Values of two kinds give different names, unless a link is one of them. -/
theorem parametersOf_apart {source other : Source} {value second : Json}
    (hgives : Gives data source value) (hgives' : Gives data other second)
    (hmem : source ∈ sources) (hmem' : other ∈ sources) (hne : source.target ≠ other.target)
    (hnamed : source.target.isNamed = other.target.isNamed) :
    List.Disjoint (Entries.keys (parametersOf check accepted source value))
      (Entries.keys (parametersOf check accepted other second)) := by
  intro name hname hname'
  cases hkind : source.target.isNamed with
  | true =>
      have hkind' : other.target.isNamed = true := hnamed ▸ hkind
      obtain ⟨text, rfl⟩ := usable_text hgives.2 (by rintro heq; rw [heq] at hkind; cases hkind)
      obtain ⟨text', rfl⟩ := usable_text hgives'.2
        (by rintro heq; rw [heq] at hkind'; cases hkind')
      obtain ⟨entry, hentry, rfl⟩ := List.mem_map.mp hname
      obtain ⟨entry', hentry', heq⟩ := List.mem_map.mp hname'
      have hchosen := ((mem_parametersOf_named hkind entry).mp hentry).1
      have hchosen' := ((mem_parametersOf_named hkind' entry').mp hentry').1
      rw [heq] at hchosen'
      exact candidates_apart source hmem other hmem' hne entry.1 (mem_candidates_of_chosen hchosen)
        (mem_candidates_of_chosen hchosen')
  | false =>
      -- one of the two is a flag, which gives no names
      have hkind' : other.target.isNamed = false := hnamed ▸ hkind
      rcases (Target.not_isNamed_iff _).mp hkind with htarget | htarget
      · rcases (Target.not_isNamed_iff _).mp hkind' with htarget' | htarget'
        · exact hne (htarget.trans htarget'.symm)
        · rw [parametersOf_flag htarget'] at hname'
          exact List.not_mem_nil hname'
      · rw [parametersOf_flag htarget] at hname
        exact List.not_mem_nil hname

/-- First values that are all sent back by name, or all not, give each name once. -/
theorem distinct_parametersFrom (check : Address.HostCheck) (accepted : List String)
    (hapart : (picks.map fun pick => pick.1.target).Nodup)
    (hfirst : ∀ pick ∈ picks, First sources data pick.1 pick.2) {named : Bool}
    (hnamed : ∀ pick ∈ picks, pick.1.target.isNamed = named) :
    Entries.Distinct (parametersFrom check accepted picks) := by
  rw [Entries.Distinct, Entries.keys, parametersFrom, List.map_flatMap, List.nodup_flatMap]
  refine ⟨fun pick _ => distinct_parametersOf check accepted pick.1 pick.2, ?_⟩
  refine (List.pairwise_map.mp hapart).imp_of_mem fun hpick hother hne => ?_
  exact parametersOf_apart (hfirst _ hpick).1 (hfirst _ hother).1 (hfirst _ hpick).mem (hfirst _
    hother).mem hne
    ((hnamed _ hpick).trans (hnamed _ hother).symm)

/-! ### Hints

The table lists what is sent back by name before links and flags. So what has
been gathered splits into two parts, and the second one is written over the
first. -/

/-- What a hint holds: for each kind the first usable value, and the parameters
of the next request if there are any. -/
structure Tells (check : Address.HostCheck) (data : Json) (accepted : List String)
    (hint : Entries Json) : Prop where
  value : ∀ target value, hint.find? target.key = some value ↔
    ∃ source, source.target = target ∧ First sources data source value
  parameters : ∃ parameters : Entries String, Entries.Distinct parameters ∧
    (∀ name text, parameters.find? name = some text ↔
      Requested check data accepted name text) ∧
    hint.find? "nextParams" =
      if parameters = [] then none
      else some (.obj (parameters.map fun entry => (entry.1, .str entry.2)))

/-- Everything that the table finds, the values that are sent back by name
before the others. -/
theorem exists_gathered (check : Address.HostCheck) (data : Json) (accepted : List String) :
    ∃ named others, (∀ pick ∈ named, pick.1.target.isNamed = true) ∧
      (∀ pick ∈ others, pick.1.target.isNamed = false) ∧
      Gathered check data accepted sources (named ++ others)
      (sources.foldl (look check data accepted) {}) := by
  obtain ⟨named, hnamed, hfirst⟩ := (gathered_nil check data accepted).run
    (sources.filter fun source => source.target.isNamed)
  obtain ⟨others, hothers, hrest⟩ :=
    hfirst.run (sources.filter fun source => !source.target.isNamed)
  rw [← List.foldl_append, List.nil_append, List.nil_append, ← sources_eq] at hrest
  refine ⟨named, others, fun pick hpick => ?_, fun pick hpick => ?_, hrest⟩
  · exact (List.mem_filter.mp (hnamed pick hpick)).2
  · have hnot := (List.mem_filter.mp (hothers pick hpick)).2
    rwa [Bool.not_eq_true'] at hnot

variable {named others : List (Source × Json)}

/-- Where each name is given once, a parameter is one that some value gives. -/
theorem find?_parametersFrom (hdistinct : Entries.Distinct (parametersFrom check accepted picks))
    (name text : String) :
    Entries.find? (parametersFrom check accepted picks) name = some text ↔
      ∃ pick ∈ picks, (name, text) ∈ parametersOf check accepted pick.1 pick.2 := by
  rw [← List.mem_flatMap]
  exact ⟨Entries.mem_of_find?, Entries.find?_of_mem hdistinct⟩

/-- The values that are not sent back by name give the parameters of the link. -/
theorem find?_others (h : Gathered check data accepted sources (named ++ others) found)
    (hnamed : ∀ pick ∈ named, pick.1.target.isNamed = true)
    (hothers : ∀ pick ∈ others, pick.1.target.isNamed = false)
    (hdistinct : Entries.Distinct (parametersFrom check accepted others)) (name text : String) :
    Entries.find? (parametersFrom check accepted others) name = some text ↔
    Linked check data name text := by
  rw [find?_parametersFrom hdistinct]
  constructor
  · rintro ⟨pick, hpick, hentry⟩
    have hfirst := (h.mem_picks pick).mp (List.mem_append_right named hpick)
    rcases (Target.not_isNamed_iff _).mp (hothers pick hpick) with htarget | htarget
    · obtain ⟨url, hurl⟩ := usable_text hfirst.1.2 (by rw [htarget]; decide)
      rw [hurl] at hfirst hentry
      rw [parametersOf_link htarget] at hentry
      exact ⟨pick.1, url, htarget, hfirst, Address.find?_parameters_iff.mp
        (Entries.find?_of_mem (distinct_addressParameters check url) hentry)⟩
    · rw [parametersOf_flag htarget] at hentry
      cases hentry
  · rintro ⟨source, url, htarget, hfirst, hcarries⟩
    have hpick : (source, Json.str url) ∈ others := by
      -- a link is not among the values that go back by name
      refine (List.mem_append.mp ((h.mem_picks _).mpr hfirst)).resolve_left fun hpick => ?_
      have hkind := hnamed _ hpick
      rw [htarget] at hkind
      cases hkind
    refine ⟨_, hpick, ?_⟩
    rw [parametersOf_link htarget]
    exact Entries.mem_of_find? (Address.find?_parameters_iff.mpr hcarries)

/-- The values that are sent back by name give the parameters that take them. -/
theorem find?_named (h : Gathered check data accepted sources (named ++ others) found)
    (hnamed : ∀ pick ∈ named, pick.1.target.isNamed = true)
    (hothers : ∀ pick ∈ others, pick.1.target.isNamed = false)
    (hdistinct : Entries.Distinct (parametersFrom check accepted named)) (name text : String) :
    Entries.find? (parametersFrom check accepted named) name = some text ↔
    Named data accepted name text := by
  rw [find?_parametersFrom hdistinct]
  constructor
  · rintro ⟨pick, hpick, hentry⟩
    have hfirst := (h.mem_picks pick).mp (List.mem_append_left others hpick)
    have htarget := (Target.isNamed_iff _).mp (hnamed pick hpick)
    obtain ⟨value, hvalue⟩ := usable_text hfirst.1.2
      (by rcases htarget with h | h <;> rw [h] <;> decide)
    rw [hvalue] at hfirst hentry
    obtain ⟨hchosen, rfl⟩ := (mem_parametersOf_named (hnamed pick hpick) (name, text)).mp hentry
    exact ⟨pick.1, htarget, hfirst, hchosen⟩
  · rintro ⟨source, htarget, hfirst, hchosen⟩
    have hkind := (Target.isNamed_iff _).mpr htarget
    have hpick : (source, Json.str text) ∈ named := by
      refine (List.mem_append.mp ((h.mem_picks _).mpr hfirst)).resolve_right fun hpick => ?_
      rw [hothers _ hpick] at hkind
      cases hkind
    exact ⟨_, hpick, (mem_parametersOf_named hkind _).mpr ⟨hchosen, rfl⟩⟩

/-- The parameters that have been gathered are those of the next request. -/
theorem Gathered.find?_parameters (h : Gathered check data accepted sources (named ++ others) found)
    (hnamed : ∀ pick ∈ named, pick.1.target.isNamed = true)
    (hothers : ∀ pick ∈ others, pick.1.target.isNamed = false) (name text : String) :
    found.parameters.find? name = some text ↔ Requested check data accepted name text := by
  have happend := h.apart
  rw [List.map_append, List.nodup_append] at happend
  have hfirst : ∀ pick ∈ named ++ others, First sources data pick.1 pick.2 := fun pick hpick =>
    (h.mem_picks pick).mp hpick
  have hdistinct := distinct_parametersFrom check accepted happend.1
    (fun pick hpick => hfirst pick (List.mem_append_left others hpick)) hnamed
  have hdistinct' := distinct_parametersFrom check accepted happend.2.1
    (fun pick hpick => hfirst pick (List.mem_append_right named hpick)) hothers
  -- the parameters of the link are written over the others
  have hsplit : found.parameters =
      Entries.putAll (parametersFrom check accepted named)
        (parametersFrom check accepted others) := by
    rw [h.parameters, parametersFrom, List.flatMap_append, Entries.ofList, Entries.putAll,
      List.foldl_append]
    exact congrArg (Entries.putAll · _) (Entries.ofList_of_distinct hdistinct)
  have hreverse : Entries.find? (parametersFrom check accepted others).reverse name =
      Entries.find? (parametersFrom check accepted others) name := by
    rw [← Entries.find?_ofList, Entries.ofList_of_distinct hdistinct']
  have hlinked := find?_others h hnamed hothers hdistinct' name
  rw [hsplit, Entries.find?_putAll, hreverse, Option.or_eq_some_iff, hlinked,
    find?_named h hnamed hothers hdistinct, Requested, Option.eq_none_iff_forall_ne_some]
  exact or_congr_right (and_congr_left' (forall_congr' fun other => not_congr (hlinked other)))

theorem find?_advice_key (found : Findings) (target : Target) :
    Entries.find? (advice found) target.key = none := by
  unfold advice
  split
  · cases target <;> rfl
  · cases target <;> rfl

theorem Target.key_ne_nextParams (target : Target) : target.key ≠ "nextParams" := by
  cases target <;> decide

/-- What has been gathered under the key of a kind is the first value of this kind. -/
theorem Gathered.find?_values (h : Gathered check data accepted seen picks found) (target : Target)
    (value : Json) :
    found.values.find? target.key = some value ↔
      ∃ source, source.target = target ∧ First seen data source value := by
  -- one value is kept for each kind, and kinds have keys of their own
  have hdistinct : Entries.Distinct found.values := by
    rw [Entries.Distinct, h.values, Entries.keys_map]
    have hkeys := h.apart.map fun first second => Target.key_injective
    rwa [List.map_map] at hkeys
  constructor
  · intro hfind
    have hentry := Entries.mem_of_find? hfind
    rw [h.values] at hentry
    obtain ⟨pick, hpick, heq⟩ := List.mem_map.mp hentry
    obtain ⟨hkey, rfl⟩ := Prod.mk.inj heq
    exact ⟨pick.1, Target.key_injective hkey, (h.mem_picks pick).mp hpick⟩
  · rintro ⟨source, rfl, hfirst⟩
    have hentry : (source.target.key, value) ∈ found.values := by
      rw [h.values]
      exact List.mem_map.mpr ⟨(source, value), (h.mem_picks _).mpr hfirst, rfl⟩
    exact Entries.find?_of_mem hdistinct hentry

theorem Gathered.values_find?_nextParams (h : Gathered check data accepted seen picks found) :
    found.values.find? "nextParams" = none := by
  rw [← Option.not_isSome_iff_eq_none, ← Entries.has, Entries.has_iff_mem_keys, h.values,
    Entries.keys_map,
    List.mem_map]
  rintro ⟨pick, -, hkey⟩
  exact Target.key_ne_nextParams _ hkey

theorem find?_advice_nextParams (found : Findings) :
    Entries.find? (advice found) "nextParams" =
      if found.parameters = [] then none
      else some (.obj (found.parameters.map fun entry => (entry.1, .str entry.2))) := by
  unfold advice
  cases found.parameters with
  | nil => rfl
  | cons entry rest => rfl

/-- A remark has been made if some source gives a value. -/
theorem Gathered.remarks_isEmpty (h : Gathered check data accepted seen picks found) :
    found.remarks.isEmpty = false ↔ ∃ source ∈ seen, ∃ value, Gives data source value := by
  have htold : (∃ source ∈ seen, ∃ value, Gives data source value) ↔ ∃ pick,
      pick ∈ picks := by
    constructor
    · rintro ⟨source, hmem, value, hgives⟩
      obtain ⟨first, value, -, hfirst⟩ :=
        (told_iff_exists_first source.target).mp ⟨source, hmem, rfl, value, hgives⟩
      exact ⟨(first, value), (h.mem_picks _).mpr hfirst⟩
    · rintro ⟨pick, hpick⟩
      have hfirst := (h.mem_picks pick).mp hpick
      exact ⟨pick.1, hfirst.mem, pick.2, hfirst.1⟩
  rw [htold, h.remarks, List.isEmpty_eq_false_iff_exists_mem]
  simp only [List.mem_map]
  exact ⟨fun ⟨_, pick, hpick, _⟩ => ⟨pick, hpick⟩, fun ⟨pick, hpick⟩ =>
    ⟨_, pick, hpick, rfl⟩⟩

/-- The values at the table's paths are all that a hint depends on. -/
theorem detect_congr {entries others : Entries Json} (check : Address.HostCheck)
    (accepted : List String)
    (h : ∀ source ∈ sources, valueAt? (.obj others) source.path = valueAt? (.obj entries)
      source.path) :
    detect (.obj others) accepted check = detect (.obj entries) accepted check := by
  have hfold : sources.foldl (look check (.obj others) accepted) {} =
      sources.foldl (look check (.obj entries) accepted) {} := by
    refine List.foldl_ext _ _ _ fun found source hsource => ?_
    rw [look, look, valueOf?, valueOf?, h source hsource]
  simp only [detect, hfold]

/-- A response object gives a hint exactly if some source has a usable value.
The hint tells the first usable value of each kind, whatever stands before it,
and the parameters that these values ask for: the cursor and the page token
under the names that the operation accepts, and over them the parameters of the
link. Nothing else in the response matters. -/
theorem detect_tells (check : Address.HostCheck) (entries : Entries Json) (accepted : List String) :
    ((detect (.obj entries) accepted check).isSome = true ↔
        ∃ source ∈ sources, ∃ value, Gives (.obj entries) source value) ∧
      (∀ hint, detect (.obj entries) accepted check = some hint →
        Tells check (.obj entries) accepted hint) ∧
      ∀ others : Entries Json,
        (∀ source ∈ sources, valueAt? (.obj others) source.path = valueAt? (.obj entries)
          source.path) →
          detect (.obj others) accepted check = detect (.obj entries) accepted check := by
  obtain ⟨named, rest, hnamed, hrest, hgathered⟩ :=
    exists_gathered check (.obj entries) accepted
  refine ⟨?_, fun hint hhint => ?_, fun others h => detect_congr check accepted h⟩
  · rw [← hgathered.remarks_isEmpty]
    simp only [detect]
    split
    · next h => simp [h]
    · next h => simpa using h
  · simp only [detect] at hhint
    split at hhint
    · cases hhint
    · obtain rfl := Option.some.inj hhint
      refine ⟨fun target value => ?_, _, ?_, hgathered.find?_parameters hnamed hrest, ?_⟩
      -- the advice is written under other keys than the values
      · rw [Entries.find?_append, find?_advice_key, Option.or_none]
        exact hgathered.find?_values target value
      · rw [hgathered.parameters]
        exact Entries.distinct_ofList _
      · rw [Entries.find?_append, hgathered.values_find?_nextParams, Option.none_or]
        exact find?_advice_nextParams _

/-- A response that tells of its next page in many places, some of them with
values that are of no use. -/
def crowded : Entries Json :=
  [("meta", .obj [("page", .obj [("after", .int 7), ("cursor", .str "c1")])]),
    ("cursor", .str "c0"),
    ("next_page_token", .str "t"), ("links", .obj [("next", .str "")]),
    ("_links", .obj [("next", .obj [("href", .str "/users?cursor=z&page=2")])]),
    ("has_more", .str "yes"),
    ("hasMore", .bool false)]

theorem detect_tells_crowded :
    ∃ hint, detect (.obj crowded) ["cursor", "limit"] = some hint ∧
      Tells .alone (.obj crowded) ["cursor", "limit"] hint ∧
      detect (.obj (crowded ++ [("page", .int 3)])) ["cursor", "limit"] = some hint := by
  obtain ⟨hsome, htells, hsame⟩ := detect_tells .alone crowded ["cursor", "limit"]
  have hgives : Gives (.obj crowded) ⟨["hasMore"], .hasMore, []⟩ (.bool false) :=
    ⟨rfl, .flag false⟩
  obtain ⟨hint, hhint⟩ := Option.isSome_iff_exists.mp (hsome.mpr ⟨_, by decide, _, hgives⟩)
  refine ⟨hint, hhint, htells hint hhint, (hsame _ ?_).trans hhint⟩
  simp only [sources, List.forall_mem_cons]
  exact ⟨rfl, rfl, rfl, rfl, rfl, rfl, rfl, rfl, rfl, rfl, rfl, rfl,
    fun _ h => absurd h List.not_mem_nil⟩

end Hint

end JsonSelection

import JsonSelection.Paging.Hint
import JsonSelection.Proofs.Entries
import Mathlib.Data.List.Induction
import Mathlib.Data.List.Nodup

/-!
# What the sources of a hint give

A response may tell of its next page in several places at once. Of the sources
for one kind of telling the first one with a usable value counts, whatever the
sources before it hold.

## What this module delivers

- `Hint.Usable`, `Hint.Gives`: the values that tell something, and the source
  that gives one.
- `Hint.First`: a source gives a value, and none that is listed before it gives
  one of the same kind.
- `Hint.Gathered`: what has been found in the sources up to a place.
- `Hint.Gathered.look`: looking at one more source keeps this, with the value of
  the source or without it.
- `Hint.Gathered.run`: so does looking at several.

The values of different kinds do not touch each other: a kind is known by the
key under which its value is written down (`Target.key_injective`).
-/

set_option autoImplicit false

namespace JsonSelection

namespace Hint

/-! ### Values at sources -/

/-- A value that tells something: a truth value for the flag, and otherwise a
text that is not empty. -/
inductive Usable : Target → Json → Prop where
  | flag (more : Bool) : Usable .hasMore (.bool more)
  | text {target : Target} {text : String} : target ≠ .hasMore → text ≠ "" →
      Usable target (.str text)

/-- A source gives a value: its path leads there, and the value is usable.
Whether the value counts depends on the sources before. -/
def Gives (data : Json) (source : Source) (value : Json) : Prop :=
  valueAt? data source.path = some value ∧ Usable source.target value

theorem usable?_eq_some_iff (target : Target) (value found : Json) :
    usable? target value = some found ↔ found = value ∧ Usable target value := by
  constructor
  · intro h
    unfold usable? at h
    split at h
    · next more => exact ⟨(Option.some.inj h).symm, .flag more⟩
    · cases h
    · next htarget =>
        split at h
        · cases h
        · next hempty =>
            refine ⟨(Option.some.inj h).symm, .text htarget ?_⟩
            rintro rfl
            exact hempty rfl
    · cases h
  · rintro ⟨rfl, h⟩
    cases h with
    | flag more => rfl
    | @text _ text htarget htext =>
        have hempty : ¬ text.isEmpty = true := fun h => htext (String.isEmpty_iff.mp h)
        -- a text that is not empty is taken for every kind except the flag
        cases target with
        | hasMore => exact absurd rfl htarget
        | cursor => exact if_neg hempty
        | pageToken => exact if_neg hempty
        | nextUrl => exact if_neg hempty

theorem valueOf?_eq_some_iff (data : Json) (source : Source) (value : Json) :
    valueOf? data source = some value ↔ Gives data source value := by
  rw [valueOf?, Option.bind_eq_some_iff, Gives]
  constructor
  · rintro ⟨found, hfound, husable⟩
    obtain ⟨rfl, h⟩ := (usable?_eq_some_iff _ _ _).mp husable
    exact ⟨hfound, h⟩
  · rintro ⟨hfound, h⟩
    exact ⟨value, hfound, (usable?_eq_some_iff _ _ _).mpr ⟨rfl, h⟩⟩

theorem Gives.unique {data : Json} {source : Source} {value other : Json}
    (h : Gives data source value) (h' : Gives data source other) : value = other :=
  Option.some.inj (h.1.symm.trans h'.1)

/-! ### The first source of a kind

A first value stays first when more sources are listed behind it, and a new
source brings one only if its kind has not been told of. -/

/-- Some source before gives a value for the target. Then no later source counts
for it. -/
def Told (data : Json) (seen : List Source) (target : Target) : Prop :=
  ∃ source ∈ seen, source.target = target ∧ ∃ value, Gives data source value

/-- A source gives a value, and none that is listed before it gives one for the
same target. -/
def First (seen : List Source) (data : Json) (source : Source) (value : Json) : Prop :=
  Gives data source value ∧ ∃ before after, seen = before ++ source :: after ∧
    ¬ Told data before source.target

variable {data : Json} {seen : List Source} {source : Source} {value : Json}

theorem First.mem (h : First seen data source value) : source ∈ seen := by
  obtain ⟨-, before, after, rfl, -⟩ := h
  exact List.mem_append_right before List.mem_cons_self

theorem First.append (h : First seen data source value) (more : List Source) :
    First (seen ++ more) data source value := by
  obtain ⟨hgives, before, after, rfl, hnone⟩ := h
  exact ⟨hgives, before, after ++ more, by rw [List.append_assoc, List.cons_append], hnone⟩

/-- With one more source at the end, the first ones are those there were before,
and the new one if it gives the first value for its target. -/
theorem first_append_singleton_iff (added : Source) :
    First (seen ++ [added]) data source value ↔
      First seen data source value ∨
        source = added ∧ Gives data added value ∧ ¬ Told data seen added.target := by
  constructor
  · rintro ⟨hgives, before, after, hsplit, hnone⟩
    rcases List.eq_nil_or_concat after with rfl | ⟨others, last, rfl⟩
    · obtain ⟨rfl, heq⟩ := List.append_inj' hsplit rfl
      obtain rfl := List.singleton_inj.mp heq
      exact Or.inr ⟨rfl, hgives, hnone⟩
    · rw [List.concat_eq_append, ← List.cons_append, ← List.append_assoc] at hsplit
      obtain ⟨rfl, -⟩ := List.append_inj' hsplit rfl
      exact Or.inl ⟨hgives, before, others, rfl, hnone⟩
  · rintro (h | ⟨rfl, hgives, hnone⟩)
    · exact h.append [added]
    · exact ⟨hgives, seen, [], rfl, hnone⟩

/-- Where some source gives a value, there is a first one for its target. -/
theorem told_iff_exists_first (target : Target) :
    Told data seen target ↔ ∃ source value, source.target = target ∧
    First seen data source value := by
  constructor
  · intro h
    -- the induction is from the end, as a source is first if none before it gives
    induction seen using List.reverseRecOn with
    | nil =>
        obtain ⟨source, hmem, -⟩ := h
        cases hmem
    | append_singleton seen added ih =>
        by_cases hseen : Told data seen target
        · obtain ⟨source, value, htarget, hfirst⟩ := ih hseen
          exact ⟨source, value, htarget, hfirst.append [added]⟩
        · obtain ⟨source, hmem, rfl, value, hgives⟩ := h
          rcases List.mem_append.mp hmem with hmem | hmem
          · exact absurd ⟨source, hmem, rfl, value, hgives⟩ hseen
          · obtain rfl := List.mem_singleton.mp hmem
            exact ⟨source, value, rfl, (first_append_singleton_iff source).mpr
              (Or.inr ⟨rfl, hgives, hseen⟩)⟩
  · rintro ⟨source, value, rfl, hfirst⟩
    exact ⟨source, hfirst.mem, rfl, value, hfirst.1⟩

/-! ### What has been gathered

One structure says what is known after some sources. A source either adds
nothing (`Gathered.skip`) or its value with its remark and its parameters
(`Gathered.take`). -/

theorem Target.key_injective {first second : Target} (h : first.key = second.key) :
    first = second := by
  cases first <;> cases second <;> first | rfl | exact absurd h (by decide)

/-- The parameters that the given values give, in order. -/
def parametersFrom (check : Address.HostCheck) (accepted : List String)
    (picks : List (Source × Json)) :
    Entries String :=
  picks.flatMap fun pick => parametersOf check accepted pick.1 pick.2

/-- What is found in the sources up to a place: the first values of their kinds,
in order, each with its remark and its parameters. -/
structure Gathered (check : Address.HostCheck) (data : Json) (accepted : List String)
    (seen : List Source) (picks : List (Source × Json)) (found : Findings) : Prop where
  mem_picks : ∀ pick, pick ∈ picks ↔ First seen data pick.1 pick.2
  apart : (picks.map fun pick => pick.1.target).Nodup
  values : found.values = picks.map fun pick => (pick.1.target.key, pick.2)
  remarks : found.remarks = picks.map fun pick => remark pick.1 pick.2
  parameters : found.parameters = Entries.ofList (parametersFrom check accepted picks)

variable {check : Address.HostCheck} {accepted : List String} {picks : List (Source × Json)}
  {found : Findings}

theorem gathered_nil (check : Address.HostCheck) (data : Json) (accepted : List String) :
    Gathered check data accepted [] [] {} where
  mem_picks pick := by
    refine iff_of_false List.not_mem_nil fun h => ?_
    cases h.mem
  apart := List.nodup_nil
  values := rfl
  remarks := rfl
  parameters := rfl

/-- A value of a kind has been written down if some source has given one. -/
theorem Gathered.has_iff (h : Gathered check data accepted seen picks found) (target : Target) :
    found.values.has target.key = true ↔ Told data seen target := by
  rw [Entries.has_iff_mem_keys, h.values, Entries.keys_map, List.mem_map, told_iff_exists_first]
  constructor
  · rintro ⟨pick, hpick, hkey⟩
    exact ⟨pick.1, pick.2, Target.key_injective hkey, (h.mem_picks pick).mp hpick⟩
  · rintro ⟨source, value, rfl, hfirst⟩
    exact ⟨(source, value), (h.mem_picks _).mpr hfirst, rfl⟩

/-- A source that adds nothing leaves the first ones as they are. -/
theorem Gathered.skip (h : Gathered check data accepted seen picks found) {added : Source}
    (hskip : ∀ value, Gives data added value → Told data seen added.target) :
    Gathered check data accepted (seen ++ [added]) picks found where
  mem_picks pick := by
    rw [h.mem_picks, first_append_singleton_iff]
    exact ⟨Or.inl, fun hor => hor.resolve_right fun ⟨_, hgives, hnone⟩ =>
      hnone (hskip _ hgives)⟩
  apart := h.apart
  values := h.values
  remarks := h.remarks
  parameters := h.parameters

/-- The first value of its kind is written down behind the others. -/
theorem Gathered.take (h : Gathered check data accepted seen picks found) {added : Source}
    {value : Json} (hgives : Gives data added value) (hnone : ¬ Told data seen added.target) :
    Gathered check data accepted (seen ++ [added]) (picks ++ [(added, value)])
      { values := Entries.put found.values added.target.key value
        remarks := found.remarks ++ [remark added value]
        parameters := Entries.putAll found.parameters (parametersOf check accepted added value) }
          where
  -- the new value is last, so it is the first of its kind only if no earlier one is
  mem_picks pick := by
    rw [List.mem_append, List.mem_singleton, h.mem_picks, first_append_singleton_iff]
    constructor
    · rintro (hfirst | rfl)
      · exact Or.inl hfirst
      · exact Or.inr ⟨rfl, hgives, hnone⟩
    · rintro (hfirst | ⟨hsource, hvalue, -⟩)
      · exact Or.inl hfirst
      · exact Or.inr (Prod.ext hsource (hvalue.unique hgives))
  apart := by
    rw [List.map_append, List.nodup_append]
    refine ⟨h.apart, List.nodup_singleton _, ?_⟩
    rintro target htarget other hother rfl
    obtain ⟨pick, hpick, rfl⟩ := List.mem_map.mp htarget
    rw [List.map_singleton, List.mem_singleton] at hother
    rw [← hother] at hnone
    exact hnone ((told_iff_exists_first _).mpr ⟨pick.1, pick.2, rfl,
      (h.mem_picks pick).mp hpick⟩)
  values := by
    have hnew : added.target.key ∉ Entries.keys found.values := by
      rwa [← Entries.has_iff_mem_keys, h.has_iff]
    rw [Entries.put_of_not_mem value hnew, h.values, List.map_append, List.map_singleton]
  remarks := by rw [h.remarks, List.map_append, List.map_singleton]
  parameters := by
    rw [h.parameters, parametersFrom, parametersFrom, List.flatMap_append, List.flatMap_singleton,
      Entries.ofList, Entries.ofList, Entries.putAll, Entries.putAll, Entries.putAll,
      List.foldl_append]

/-- Looking at one more source keeps what has been gathered. -/
theorem Gathered.look (h : Gathered check data accepted seen picks found) (added : Source) :
    ∃ new, (∀ pick ∈ new, pick.1 = added) ∧
      Gathered check data accepted (seen ++ [added]) (picks ++ new)
      (look check data accepted found added) := by
  -- a source is passed over if its kind is told already or it gives nothing
  by_cases htold : Told data seen added.target
  · refine ⟨[], fun _ hpick => absurd hpick List.not_mem_nil, ?_⟩
    rw [List.append_nil, Hint.look, if_pos ((h.has_iff _).mpr htold)]
    exact h.skip fun _ _ => htold
  · rw [Hint.look, if_neg (mt (h.has_iff _).mp htold)]
    cases hvalue : valueOf? data added with
    | none =>
        refine ⟨[], fun _ hpick => absurd hpick List.not_mem_nil, ?_⟩
        rw [List.append_nil]
        refine h.skip fun value hgives => ?_
        rw [(valueOf?_eq_some_iff _ _ _).mpr hgives] at hvalue
        cases hvalue
    | some value =>
        refine ⟨[(added, value)], fun pick hpick => ?_, ?_⟩
        · rw [List.mem_singleton.mp hpick]
        · exact h.take ((valueOf?_eq_some_iff _ _ _).mp hvalue) htold

/-- Looking at several sources keeps what has been gathered. -/
theorem Gathered.run (h : Gathered check data accepted seen picks found) (more : List Source) :
    ∃ new, (∀ pick ∈ new, pick.1 ∈ more) ∧
      Gathered check data accepted (seen ++ more) (picks ++ new)
      (more.foldl (Hint.look check data accepted) found) := by
  induction more generalizing seen picks found with
  | nil =>
      refine ⟨[], fun _ hpick => absurd hpick List.not_mem_nil, ?_⟩
      rw [List.append_nil, List.append_nil]
      exact h
  | cons added rest ih =>
      obtain ⟨first, hfirst, hlook⟩ := h.look added
      obtain ⟨new, hnew, hrest⟩ := ih hlook
      refine ⟨first ++ new, fun pick hpick => ?_, ?_⟩
      · rcases List.mem_append.mp hpick with hpick | hpick
        · rw [hfirst pick hpick]
          exact List.mem_cons_self
        · exact List.mem_cons_of_mem added (hnew pick hpick)
      · rw [List.append_assoc, List.append_assoc, List.singleton_append] at hrest
        exact hrest

end Hint

end JsonSelection

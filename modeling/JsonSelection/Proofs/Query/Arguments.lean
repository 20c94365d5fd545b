import JsonSelection.Proofs.Outcome
import JsonSelection.Query.Execution

/-!
# The values of arguments

An argument of a selected field has the checked literal that the selection
gives, or else its default.

## What this module delivers

- `Argument.GivenFor`: what the arguments of a selection give for a name.
- `Argument.given_cases`: the checked literals, the last one of each name.
- `Argument.find?_defaults`: the defaults fill in what is missing or `null`.
- `Argument.chosen`: the integer that a selection gives for an argument, or else
  a default.
- `Argument.pageOf_resolve`: the page of a list field is the one that its
  arguments choose, and an accepted page starts and ends at no negative place.

The page arguments are integers whenever they are compared with zero, since
their type takes nothing else and each of them has a default
(`Argument.Counts`).
-/

set_option autoImplicit false

namespace JsonSelection

namespace Argument

/-! ### Literals of selections -/

/-- What the arguments of a selection give for a name: nothing, or a literal
that was checked against the type of the argument. -/
def GivenFor (schema : Schema) (field : Field) (path : ResponsePath)
    (literals values : Entries Json) (name : String) : Prop :=
  (Entries.find? literals name = none ∧ Entries.find? values name = none) ∨
    ∃ literal argument value, Entries.find? literals name = some literal ∧
      field.argument? name = some argument ∧
      coerce schema literal (path ++ [name]) argument.type = .ok value ∧
      Entries.find? values name = some value

theorem givenFor_put {schema : Schema} {field : Field} {path : ResponsePath}
    {literals values : Entries Json} {name : String} {literal value : Json} {argument : Argument}
    (hargument : field.argument? name = some argument)
    (hvalue : coerce schema literal (path ++ [name]) argument.type = .ok value)
    (h : ∀ other, GivenFor schema field path literals values other) (other : String) :
    GivenFor schema field path (Entries.put literals name literal) (Entries.put values name value)
      other := by
  by_cases heq : other = name
  · subst heq
    exact Or.inr ⟨literal, argument, value,
      Entries.find?_put_self literals other literal, hargument,
      hvalue, Entries.find?_put_self values other value⟩
  · unfold GivenFor
    rw [Entries.find?_put_of_ne literals literal heq, Entries.find?_put_of_ne values value heq]
    exact h other

/-- Steps that check one literal each give values for all of them. -/
theorem givenFor_foldlM {schema : Schema} {field : Field} {path : ResponsePath}
    {step : Entries Json → String × Json → Except QueryError (Entries Json)}
    (hstep : ∀ {start entry next}, step start entry = .ok next → ∃ argument value,
      field.argument? entry.1 = some argument ∧
        coerce schema entry.2 (path ++ [entry.1]) argument.type = .ok value ∧
        next = Entries.put start entry.1 value)
    {arguments literals start values : Entries Json}
    (hstart : ∀ other, GivenFor schema field path literals start other)
    (h : arguments.foldlM step start = .ok values) (name : String) :
    GivenFor schema field path (Entries.putAll literals arguments) values name := by
  -- the literals so far and the values so far grow together
  induction arguments generalizing literals start with
  | nil =>
      obtain rfl := Except.ok.inj h
      exact hstart name
  | cons entry rest ih =>
      rw [List.foldlM_cons] at h
      obtain ⟨next, hnext, h⟩ := Outcome.bind_eq_ok_iff.mp h
      obtain ⟨argument, value, hargument, hvalue, rfl⟩ := hstep hnext
      exact ih (givenFor_put hargument hvalue hstart) h

/-- The values that a selection gives are its checked literals; of several for
one name the last one counts. -/
theorem given_cases {schema : Schema} {owner : NamedType} {field : Field} {path : ResponsePath}
    {arguments values : Entries Json} (h : given schema owner field path arguments = .ok values)
    (name : String) : GivenFor schema field path (Entries.ofList arguments) values name := by
  refine givenFor_foldlM ?_ (fun _ => Or.inl ⟨rfl, rfl⟩) h name
  intro start entry next hnext
  split at hnext
  · cases hnext
  · next argument hargument =>
      obtain ⟨value, hvalue, rfl⟩ := Outcome.map_eq_ok_iff.mp hnext
      exact ⟨argument, value, hargument, hvalue, rfl⟩

/-- An integer argument has an integer or `null`. -/
theorem coerce_int {schema : Schema} {literal value : Json} {path : ResponsePath}
    (h : coerce schema literal path (.scalar .int) = .ok value) :
    value = literal ∧ (value = .null ∨ ∃ n, value = .int n) := by
  cases literal with
  | null =>
      obtain rfl := Except.ok.inj h
      exact ⟨rfl, Or.inl rfl⟩
  | int n =>
      obtain rfl := Except.ok.inj h
      exact ⟨rfl, Or.inr ⟨n, rfl⟩⟩
  | _ => cases h

/-! ### Defaults

A default is looked up among the arguments of the field, so the filling in can
be told by a lookup as well, without the order of the arguments. -/

/-- The default that some arguments have for a name. Of several with the name
the first one that has a default counts. -/
def defaultFor? (arguments : List Argument) (name : String) : Option Int :=
  arguments.findSome? fun argument => if argument.name = name then argument.default else none

theorem defaultFor?_cons (argument : Argument) (rest : List Argument) (name : String) :
    defaultFor? (argument :: rest) name =
      if argument.name = name then argument.default.or (defaultFor? rest name)
      else defaultFor? rest name := by
  rw [defaultFor?, List.findSome?_cons]
  by_cases hname : argument.name = name
  · rw [if_pos hname, if_pos hname]
    cases argument.default <;> rfl
  · rw [if_neg hname, if_neg hname]
    rfl

theorem find?_withDefault (values : Entries Json) (argument : Argument) (name : String) :
    Entries.find? (withDefault values argument) name =
      if (Entries.find? values name).all Json.isNull && argument.name = name then
        (argument.default.map Json.int).or (Entries.find? values name)
      else Entries.find? values name := by
  cases hdefault : argument.default with
  | none => simp [withDefault, hdefault]
  | some default =>
      simp only [withDefault, hdefault]
      by_cases hname : argument.name = name
      · subst hname
        by_cases hnull : (Entries.find? values argument.name).all Json.isNull
        · simp [hnull, Entries.find?_put_self]
        · simp [hnull]
      · -- another name keeps what it has
        have hother := Entries.find?_put_of_ne values (.int default) (Ne.symm hname)
        split
        · simp [hother, hname]
        · simp [hname]

/-- The defaults fill in the values that are missing or `null`. -/
theorem find?_defaults (arguments : List Argument) (values : Entries Json) (name : String) :
    Entries.find? (arguments.foldl withDefault values) name =
      if (Entries.find? values name).all Json.isNull then
        ((defaultFor? arguments name).map Json.int).or (Entries.find? values name)
      else Entries.find? values name := by
  induction arguments generalizing values with
  | nil => simp [defaultFor?]
  | cons argument rest ih =>
      rw [List.foldl_cons, ih, find?_withDefault, defaultFor?_cons]
      by_cases hnull : (Entries.find? values name).all Json.isNull
      · by_cases hname : argument.name = name
        · cases hdefault : argument.default with
          | none => simp [hnull, hname]
          | some default => simp [hnull, hname, Json.isNull]
        · simp [hnull, hname]
      · simp [hnull]

/-- Each argument of a page is an integer and has a default. Only such arguments
select a page, so this is asked of a field before its page is spoken of. -/
def Counts (field : Field) : Prop :=
  ∀ name ∈ ["limit", "offset"], ∀ argument, field.argument? name = some argument →
    argument.type = .scalar .int ∧ ∃ n, argument.default = some n

theorem defaultFor?_of_argument? {field : Field} {name : String} {argument : Argument}
    (h : field.argument? name = some argument) {n : Int} (hdefault : argument.default = some n) :
    defaultFor? field.arguments name = some n := by
  unfold Field.argument? at h
  unfold defaultFor?
  generalize field.arguments = arguments at h
  induction arguments with
  | nil => cases h
  | cons first rest ih =>
      rw [List.find?_cons] at h
      rw [List.findSome?_cons]
      by_cases hname : first.name = name
      · rw [if_pos hname]
        simp only [hname, beq_self_eq_true] at h
        obtain rfl := Option.some.inj h
        rw [hdefault]
      · rw [if_neg hname]
        simp only [beq_eq_false_iff_ne.mpr hname] at h
        exact ih h

theorem defaultFor?_of_not_argument? {field : Field} {name : String}
    (h : field.argument? name = none) : defaultFor? field.arguments name = none := by
  rw [defaultFor?, List.findSome?_eq_none_iff]
  intro argument hargument
  have hne := List.find?_eq_none.mp h argument hargument
  rw [if_neg (by simpa using hne)]

/-- The integer that a selection gives for an argument, or else a default;
`null` stands for none. -/
def chosen (arguments : List (String × Json)) (name : String) (default : Int) : Int :=
  match Entries.find? (Entries.ofList arguments) name with
  | some (.int n) => n
  | _ => default

/-- An integer argument with a default has the integer that is chosen for it. -/
theorem find?_chosen {schema : Schema} {owner : NamedType} {field : Field} {path : ResponsePath}
    {arguments values : Entries Json} {name : String} {argument : Argument} {default : Int}
    (hargument : field.argument? name = some argument) (htype : argument.type = .scalar .int)
    (hdefault : argument.default = some default)
    (h : given schema owner field path arguments = .ok values) :
    Entries.find? (field.arguments.foldl withDefault values) name =
      some (.int (chosen arguments name default)) := by
  rw [find?_defaults, defaultFor?_of_argument? hargument hdefault, chosen]
  rcases given_cases h name with
    ⟨hliteral, hnone⟩ | ⟨literal, argument', value, hliteral, hargument', hcoerce, hvalue⟩
  · rw [hliteral, hnone]
    rfl
  · rw [hargument] at hargument'
    obtain rfl := Option.some.inj hargument'
    rw [htype] at hcoerce
    obtain ⟨rfl, hkind⟩ := coerce_int hcoerce
    rw [hliteral, hvalue]
    rcases hkind with rfl | ⟨n, rfl⟩
    · rfl
    · rfl

/-- The page arguments are integers when they are compared with zero. -/
theorem int_of_given {schema : Schema} {owner : NamedType} {field : Field} {path : ResponsePath}
    {arguments values : Entries Json} (hcounts : Counts field)
    (h : given schema owner field path arguments = .ok values) {name : String}
    (hname : name ∈ ["limit", "offset"]) {value : Json}
    (hvalue : Entries.find? (field.arguments.foldl withDefault values) name = some value) :
    ∃ n, value = .int n := by
  cases hargument : field.argument? name with
  | some argument =>
      obtain ⟨htype, default, hdefault⟩ := hcounts name hname argument hargument
      rw [find?_chosen hargument htype hdefault h] at hvalue
      exact ⟨_, (Option.some.inj hvalue).symm⟩
  | none =>
      -- without such an argument there is neither a literal nor a default
      rcases given_cases h name with ⟨-, hnone⟩ | ⟨_, argument, _, -, hfound, -, -⟩
      · rw [find?_defaults, hnone, defaultFor?_of_not_argument? hargument] at hvalue
        cases hvalue
      · rw [hargument] at hfound
        cases hfound

/-- Accepted arguments are what the selection gives with the defaults filled in,
and no page argument among them is negative. -/
theorem resolve_cases {schema : Schema} {owner : NamedType} {field : Field} {path : ResponsePath}
    {arguments values : Entries Json} (h : resolve schema owner field path arguments = .ok values) :
    ∃ literals, given schema owner field path arguments = .ok literals ∧
      values = field.arguments.foldl withDefault literals ∧
      ∀ name ∈ ["limit", "offset"], ∀ n,
      Entries.find? values name = some (.int n) → 0 ≤ n := by
  obtain ⟨literals, hgiven, h⟩ := Outcome.bind_eq_ok_iff.mp h
  simp only at h
  split at h
  · cases h
  · next hnegative =>
      obtain rfl := Except.ok.inj h
      refine ⟨literals, hgiven, rfl, ?_⟩
      intro name hname n hvalue
      have hnot := List.find?_eq_none.mp hnegative name hname
      rw [hvalue] at hnot
      simp only [Option.any_some, isNegative, decide_eq_true_eq] at hnot
      omega

/-- The page of a list field is the one that the arguments choose, and it has no
negative end. -/
theorem pageOf_resolve {schema : Schema} {owner : NamedType} {field : Field} {path : ResponsePath}
    {arguments values : Entries Json} {item : TypeRef} {page : Int}
    (htype : field.type = .list item (some page))
    (harguments : field.arguments = Field.pageArguments field.type)
    (h : resolve schema owner field path arguments = .ok values) :
    Execution.pageOf field.type values =
        some ⟨some (chosen arguments "limit" page), chosen arguments "offset" 0⟩ ∧
      0 ≤ chosen arguments "limit" page ∧ 0 ≤ chosen arguments "offset" 0 := by
  obtain ⟨literals, hgiven, rfl, hnonneg⟩ := resolve_cases h
  rw [htype] at harguments
  have hlimit : field.argument? "limit" = some ⟨"limit", .scalar .int, some page⟩ := by
    rw [Field.argument?, harguments]
    rfl
  have hoffset : field.argument? "offset" = some ⟨"offset", .scalar .int, some 0⟩ := by
    rw [Field.argument?, harguments]
    rfl
  have hlimitValue := find?_chosen hlimit rfl rfl hgiven
  have hoffsetValue := find?_chosen hoffset rfl rfl hgiven
  refine ⟨?_, hnonneg "limit" (by simp) _ hlimitValue,
    hnonneg "offset" (by simp) _ hoffsetValue⟩
  rw [htype, Execution.pageOf, hlimitValue, hoffsetValue]

/-- Fields whose arguments are those of their page count in integers. -/
theorem counts_of_output {field : Field} {item : TypeRef} {page : Int}
    (htype : field.type = .list item (some page))
    (harguments : field.arguments = Field.pageArguments field.type) : Counts field := by
  intro name hname argument hargument
  rw [Field.argument?, harguments, htype] at hargument
  have hmem := List.mem_of_find?_eq_some hargument
  simp only [Field.pageArguments, List.mem_cons, List.not_mem_nil, or_false] at hmem
  rcases hmem with rfl | rfl
  · exact ⟨rfl, page, rfl⟩
  · exact ⟨rfl, 0, rfl⟩

end Argument

end JsonSelection

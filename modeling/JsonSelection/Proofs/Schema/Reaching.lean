import JsonSelection.Proofs.Schema.Selectable
import JsonSelection.Schema.Reach

/-!
# The walk over the types of a schema

The walk of `Schema.reachable` keeps the names that are pending and the types
that were met. It meets exactly the types that the roots lead to, each once.

## What this module delivers

- `Schema.Reaches`: the names that the roots of a schema lead to.
- `Schema.Walk`: the invariant of the walk.
- `Schema.walk_discover`: with enough fuel the walk ends with nothing pending.
- `Schema.mem_reachable_iff`: the walk meets exactly the types that the roots
  lead to.

The fuel is the number of references in the registry, and of roots. It is enough
because a name is only added to the pending ones with the type that refers to
it, and every type is met once.
-/

set_option autoImplicit false

namespace JsonSelection

namespace Schema

/-- The names that the roots of a schema lead to. A name that is led to need not
be registered for this. -/
inductive Reaches (schema : Schema) : String → Prop where
  | root {name : String} : name ∈ schema.roots → Reaches schema name
  | reference {name other : String} :
      Reaches schema name → other ∈ (schema.typeNamed name).references → Reaches schema other

/-- Every type has the name under which it is found. -/
def SelfNamed (schema : Schema) : Prop :=
  ∀ name, (schema.typeNamed name).name = name

/-- The number of references of the types that are not met yet. It bounds how
many names can still become pending. -/
def unmet (types : Registry) (met : List String) : Nat :=
  ((types.filter fun entry => !met.contains entry.1).flatMap fun entry => entry.2.references).length

theorem unmet_cons (name : String) (type : NamedType) (rest : Registry) (met : List String) :
    unmet ((name, type) :: rest) met =
      (if met.contains name then 0 else type.references.length) + unmet rest met := by
  unfold unmet
  cases hmet : met.contains name with
  | false =>
      rw [List.filter_cons_of_pos (by rw [hmet]; rfl), List.flatMap_cons, List.length_append]
      rfl
  | true =>
      rw [List.filter_cons_of_neg (by rw [hmet]; exact Bool.false_ne_true),
        if_pos rfl, Nat.zero_add]

/-- With a new type the references of that type are met. -/
theorem unmet_append {name : String} {met : List String} (h : met.contains name = false)
    (types : Registry) :
    unmet types (met ++ [name]) + (types.typeNamed name).references.length ≤ unmet types met := by
  induction types with
  | nil => exact Nat.le_refl 0
  | cons entry rest ih =>
      obtain ⟨other, type⟩ := entry
      rw [unmet_cons, unmet_cons]
      -- the type that is found is the first of its name, and later ones only help
      by_cases heq : other = name
      · have htype : Registry.typeNamed ((other, type) :: rest) name = type := by
          simp [Registry.typeNamed, Entries.find?, heq]
        have hmet : (met ++ [name]).contains other = true := by
          simp [heq]
        rw [htype, hmet, heq, h]
        simp only [if_true, Bool.false_eq_true, if_false]
        omega
      · have htype : Registry.typeNamed ((other, type) :: rest) name =
            Registry.typeNamed rest name := by
          simp [Registry.typeNamed, Entries.find?, heq]
        have hmet : (met ++ [name]).contains other = met.contains other := by
          simp [heq]
        rw [htype, hmet]
        omega

variable {schema : Schema}

/-- Whatever the walk meets, the roots lead to. -/
theorem reaches_of_discover (hself : schema.SelfNamed) (fuel : Nat) {pending : List String}
    {found : List NamedType} (hpending : ∀ name ∈ pending, schema.Reaches name)
    (hfound : ∀ type ∈ found, schema.Reaches type.name) :
    ∀ type ∈ schema.discover fuel pending found, schema.Reaches type.name := by
  induction fuel generalizing pending found with
  | zero => exact hfound
  | succ fuel ih =>
      cases pending with
      | nil => exact hfound
      | cons name rest =>
          have hname := hpending name List.mem_cons_self
          have hrest : ∀ other ∈ rest, schema.Reaches other :=
            fun other hother => hpending other (List.mem_cons_of_mem _ hother)
          -- a name that is met is passed over; any other is visited with its
          -- references
          rw [discover]
          split
          · exact ih hrest hfound
          · refine ih ?_ ?_
            · intro other hother
              rcases List.mem_append.mp hother with hother | hother
              · exact hrest other hother
              · exact .reference hname (List.mem_filter.mp hother).1
            · intro type htype
              rcases List.mem_append.mp htype with htype | htype
              · exact hfound type htype
              · rw [List.mem_singleton.mp htype, hself]
                exact hname

/-- The state of a walk: the types met are those of the schema, and what they
refer to is met or pending. -/
structure Walk (schema : Schema) (pending : List String) (found : List NamedType) : Prop where
  own : ∀ type ∈ found, type = schema.typeNamed type.name
  followed : ∀ type ∈ found, ∀ name ∈ type.references,
    name ∈ found.map NamedType.name ∨ name ∈ pending

theorem Walk.skip {name : String} {rest : List String} {found : List NamedType}
    (h : schema.Walk (name :: rest) found) (hmet : name ∈ found.map NamedType.name) :
    schema.Walk rest found := by
  refine ⟨h.own, ?_⟩
  intro type htype other hother
  rcases h.followed type htype other hother with hfound | hpending
  · exact Or.inl hfound
  · rcases List.mem_cons.mp hpending with rfl | hpending
    · exact Or.inl hmet
    · exact Or.inr hpending

theorem Walk.visit (hself : schema.SelfNamed) {name : String} {rest : List String}
    {found : List NamedType} (h : schema.Walk (name :: rest) found) :
    schema.Walk
      (rest ++ (schema.typeNamed name).references.filter fun other =>
        !((found ++ [schema.typeNamed name]).map NamedType.name).contains other)
      (found ++ [schema.typeNamed name]) := by
  have hnames : ∀ other, other ∈ (found ++ [schema.typeNamed name]).map NamedType.name ↔
      other ∈ found.map NamedType.name ∨ other = name := by
    intro other
    rw [List.map_append, List.mem_append, List.map_singleton, List.mem_singleton, hself]
  refine ⟨?_, ?_⟩
  · intro type htype
    rcases List.mem_append.mp htype with htype | htype
    · exact h.own type htype
    · rw [List.mem_singleton.mp htype, hself]
  · intro type htype other hother
    -- a reference is met, or it is added behind what is pending
    by_cases hmet : other ∈ (found ++ [schema.typeNamed name]).map NamedType.name
    · exact Or.inl hmet
    · right
      rw [List.mem_append, List.mem_filter]
      rcases List.mem_append.mp htype with htype | htype
      · rcases h.followed type htype other hother with hfound | hpending
        · exact absurd ((hnames other).mpr (Or.inl hfound)) hmet
        · rcases List.mem_cons.mp hpending with rfl | hpending
          · exact absurd ((hnames other).mpr (Or.inr rfl)) hmet
          · exact Or.inl hpending
      · rw [List.mem_singleton.mp htype] at hother
        exact Or.inr ⟨hother, by simpa using hmet⟩

/-- A visit names at most the references of one more type, so it pays for what it
makes pending. -/
theorem length_visit_le (hself : schema.SelfNamed) {name : String} {found : List NamedType}
    (hnew : name ∉ found.map NamedType.name) (rest : List String) :
    (rest ++ (schema.typeNamed name).references.filter fun other =>
        !((found ++ [schema.typeNamed name]).map NamedType.name).contains other).length +
      unmet schema.types ((found ++ [schema.typeNamed name]).map NamedType.name) ≤
        rest.length + unmet schema.types (found.map NamedType.name) := by
  have hmet : (found.map NamedType.name).contains name = false := by
    rw [Bool.eq_false_iff, ne_eq, List.contains_iff_mem]
    exact hnew
  have hunmet := unmet_append hmet schema.types
  have hfresh := List.length_filter_le
    (fun other => !((found ++ [schema.typeNamed name]).map NamedType.name).contains other)
    (schema.typeNamed name).references
  have hnames : (found ++ [schema.typeNamed name]).map NamedType.name =
      found.map NamedType.name ++ [name] := by
    rw [List.map_append, List.map_singleton, hself]
  have hreferences : (schema.typeNamed name).references.length =
      (schema.types.typeNamed name).references.length := rfl
  rw [hnames] at hfresh ⊢
  rw [List.length_append]
  omega

/-- With enough fuel the walk ends with nothing pending, and it keeps what it
has met. -/
theorem walk_discover (hself : schema.SelfNamed) (fuel : Nat) {pending : List String}
    {found : List NamedType} (hwalk : schema.Walk pending found)
    (hfuel : pending.length + unmet schema.types (found.map NamedType.name) < fuel) :
    schema.Walk [] (schema.discover fuel pending found) ∧
      ∀ name, name ∈ pending ∨ name ∈ found.map NamedType.name →
        name ∈ (schema.discover fuel pending found).map NamedType.name := by
  induction fuel generalizing pending found with
  | zero => exact absurd hfuel (Nat.not_lt_zero _)
  | succ fuel ih =>
      cases pending with
      | nil =>
          exact ⟨hwalk, fun name hname => hname.elim (fun h => absurd h List.not_mem_nil) id⟩
      | cons first rest =>
          -- each step takes one name off, and a visit pays for the names that it
          -- adds
          rw [List.length_cons] at hfuel
          rw [discover]
          split
          · next hmet =>
              have hmet : first ∈ found.map NamedType.name := by simpa using hmet
              obtain ⟨hdone, hkept⟩ := ih (hwalk.skip hmet) (by omega)
              refine ⟨hdone, fun name hname => hkept name ?_⟩
              rw [List.mem_cons] at hname
              rcases hname with (rfl | hname) | hname
              · exact Or.inr hmet
              · exact Or.inl hname
              · exact Or.inr hname
          · next hmet =>
              have hmet : first ∉ found.map NamedType.name := by simpa using hmet
              have hlength := length_visit_le hself hmet rest
              obtain ⟨hdone, hkept⟩ := ih (hwalk.visit hself) (by omega)
              refine ⟨hdone, fun name hname => hkept name ?_⟩
              rw [List.map_append, List.mem_append, List.mem_append, List.map_singleton, hself,
                List.mem_singleton]
              rw [List.mem_cons] at hname
              rcases hname with (rfl | hname) | hname
              · exact Or.inr (Or.inr rfl)
              · exact Or.inl (Or.inl hname)
              · exact Or.inr (Or.inl hname)

/-- The walk of a schema ends with nothing pending, and meets the roots. -/
theorem walk_reachable (hself : schema.SelfNamed) : schema.Walk [] schema.reachable ∧
    ∀ name ∈ schema.roots, name ∈ schema.reachable.map NamedType.name := by
  have hstart : schema.Walk schema.roots [] := ⟨by simp, by simp⟩
  have hfuel : schema.roots.length + unmet schema.types (([] : List NamedType).map NamedType.name) <
      schema.walkLength := by
    have hall : (schema.types.filter fun entry =>
      !(([] : List NamedType).map NamedType.name).contains
        entry.1) = schema.types := List.filter_eq_self.mpr fun _ _ => rfl
    rw [unmet, hall, walkLength]
    exact Nat.lt_succ_self _
  obtain ⟨hwalk, hkept⟩ := walk_discover hself schema.walkLength hstart hfuel
  exact ⟨hwalk, fun name hname => hkept name (Or.inl hname)⟩

/-- The walk meets exactly the types that the roots lead to. -/
theorem mem_reachable_iff (hself : schema.SelfNamed) (name : String) :
    name ∈ schema.reachable.map NamedType.name ↔ schema.Reaches name := by
  obtain ⟨hwalk, hroots⟩ := walk_reachable hself
  constructor
  · intro hname
    obtain ⟨type, htype, rfl⟩ := List.mem_map.mp hname
    exact reaches_of_discover hself _ (fun root hroot => .root hroot) (by simp) type htype
  · intro hreaches
    induction hreaches with
    | root hroot => exact hroots _ hroot
    | @reference name other _ hother ih =>
        obtain ⟨type, htype, rfl⟩ := List.mem_map.mp ih
        rw [← hwalk.own type htype] at hother
        exact (hwalk.followed type htype other hother).elim id fun h => absurd h List.not_mem_nil

/-- No name is met twice. -/
theorem nodup_discover (hself : schema.SelfNamed) (fuel : Nat) {pending : List String}
    {found : List NamedType} (h : (found.map NamedType.name).Nodup) :
    ((schema.discover fuel pending found).map NamedType.name).Nodup := by
  induction fuel generalizing pending found with
  | zero => exact h
  | succ fuel ih =>
      cases pending with
      | nil => exact h
      | cons name rest =>
          rw [discover]
          split
          · exact ih h
          -- only names that are not met are added
          · next hnew =>
              apply ih
              rw [List.map_append, List.map_singleton, hself]
              have hname : name ∉ found.map NamedType.name := by simpa using hnew
              rw [List.nodup_append]
              refine ⟨h, List.pairwise_singleton _ _, ?_⟩
              rintro other hother _ hsingle rfl
              exact hname (List.mem_singleton.mp hsingle ▸ hother)

end Schema

end JsonSelection

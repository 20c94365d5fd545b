import JsonSelection.Proofs.Entries
import JsonSelection.Schema.Type

/-!
# Registries that grow

A registry extends another one when it has all types of the other one as they
are (`Registry.Extends`). Registering a type under a free name extends a
registry, and no name is ever taken back.

While the fields of an object are walked its name is reserved by a type that is
put aside afterwards. From before the walk to after it a registry is extended
all the same (`Registry.extends_settle`).
-/

set_option autoImplicit false

namespace JsonSelection

namespace Registry

/-- Whatever is registered stays registered as it is. Other types may be
registered beside it, in any order. -/
def Extends (types types' : Registry) : Prop :=
  ∀ name type, Entries.find? types name = some type → Entries.find? types' name = some type

theorem Extends.refl (types : Registry) : Extends types types :=
  fun _ _ h => h

theorem Extends.trans {first second third : Registry} (h : Extends first second)
    (h' : Extends second third) : Extends first third :=
  fun name type hfind => h' name type (h name type hfind)

theorem Extends.has {types types' : Registry} (h : Extends types types') {name : String}
    (hname : types.has name = true) : types'.has name = true := by
  obtain ⟨type, htype⟩ := Option.isSome_iff_exists.mp hname
  rw [Entries.has, h name type htype]
  rfl

theorem has_put_self (types : Registry) (name : String) (type : NamedType) :
    (Entries.put types name type).has name = true := by
  rw [Entries.has, Entries.find?_put_self]
  rfl

theorem has_put (types : Registry) (name : String) (type : NamedType) {other : String}
    (h : types.has other = true) : (Entries.put types name type).has other = true := by
  by_cases heq : other = name
  · rw [heq]
    exact has_put_self types name type
  · rw [Entries.has, Entries.find?_put_of_ne types type heq]
    exact h

theorem extends_put {types : Registry} {name : String} (h : types.has name = false)
    (type : NamedType) : Extends types (Entries.put types name type) := by
  intro other found hfind
  have hne : other ≠ name := by
    rintro rfl
    rw [Entries.has, hfind] at h
    cases h
  rw [Entries.find?_put_of_ne types type hne]
  exact hfind

/-- A type whose name was reserved takes the place of what reserved it. -/
theorem extends_settle {types types' : Registry} {name : String} (h : types.has name = false)
    {reserved : NamedType} (hextends : Extends (Entries.put types name reserved) types')
    (type : NamedType) : Extends types (Entries.put types' name type) := by
  intro other found hfind
  have hne : other ≠ name := by
    rintro rfl
    rw [Entries.has, hfind] at h
    cases h
  rw [Entries.find?_put_of_ne types' type hne]
  exact hextends other found (extends_put h reserved other found hfind)

end Registry

end JsonSelection

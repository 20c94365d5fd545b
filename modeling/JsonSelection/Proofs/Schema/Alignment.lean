import JsonSelection.Proofs.Schema.Covering
import JsonSelection.Proofs.Shape.Agreement

/-!
# What a shape leaves open

Two values of one shape can be typed differently. The shape does not tell which
keys conflict, how keys with one sanitized name share the variants of that name,
what an array holds that begins with `null`, and at the depth cap whether an
array is mixed.

## What this module delivers

- `Outline.Aligned`: two values agree on all of this.
- `Outline.alike_of_aligned`: values of one shape that are aligned have alike
  outlines.
- `Outline.aligned_of_held`: only these do, as far as registries can show it.

The second direction speaks of registries instead of outlines, because that is
where the types of a response are seen. Of an outline with two types of one name
a registry shows only the first. The types may have one level more than the
shape, which `extra` stands for.
-/

set_option autoImplicit false

namespace JsonSelection

namespace Outline

open Inference

/-- Two values agree on what their shape leaves open: the mixed arrays, the
names of the fields, the keys that conflict, the types of the elements of arrays
that begin with `null`, and the types of whatever lies past the last level of
the shape, where types may have `extra` levels more. -/
def Aligned (limits : Limits) (extra : Nat) :
    Nat → String → List String → List String → Json → Json → Prop
  | 0, typeName, conflicts, conflicts', value, other =>
      Alike (ofJson limits extra value typeName conflicts)
        (ofJson limits extra other typeName conflicts')
  | levels + 1, typeName, conflicts, conflicts', value, other =>
      match value, other with
      | .arr items, .arr items' =>
          let item := representative limits (extra + levels) items
          let item' := representative limits (extra + levels) items'
          Sample.isMixed limits items = Sample.isMixed limits items' ∧
            (Sample.isMixed limits items = false →
              if (Shape.representative limits levels items).isNull then
                Alike (ofJson limits (extra + levels) item.1 (typeName ++ "_Item") item.2)
                  (ofJson limits (extra + levels) item'.1 (typeName ++ "_Item") item'.2)
              else Aligned limits extra levels (typeName ++ "_Item") item.2 item'.2 item.1 item'.1)
      | .obj entries, .obj entries' =>
          ∀ key value name value' name', (key, value, name) ∈ named [] entries →
            (key, value', name') ∈ named [] entries' →
              name = name' ∧ (key ∈ conflicts ↔ key ∈ conflicts') ∧
                (key ∉ conflicts → Aligned limits extra levels (typeName ++ "_" ++ name)
                  (conflictsBelow conflicts key) (conflictsBelow conflicts' key) value value')
      | _, _ => True

/-! ### Objects and lists that are alike

One level at a time: an object is alike to another one if its entries fit and
the types below them are alike, and a list if its elements are. -/

/-- With distinct keys, an entry has one value and one name. -/
theorem named_unique {used : List String} {entries : Entries Json}
    (hdistinct : Entries.Distinct entries) {key name name' : String} {value value' : Json}
    (h : (key, value, name) ∈ named used entries)
    (h' : (key, value', name') ∈ named used entries) :
    value = value' ∧ name = name' := by
  induction entries generalizing used with
  | nil => cases h
  | cons entry rest ih =>
      rw [Entries.Distinct, Entries.keys, List.map_cons, List.nodup_cons] at hdistinct
      -- the key is not among the rest, under any value and any name
      have hnew : ∀ value name, (entry.1, value, name) ∉
          named (used ++ [FieldName.fresh used (FieldName.sanitize entry.1)]) rest := by
        intro value name hmem
        have hrest : (entry.1, value) ∈ rest := mem_of_named hmem
        exact hdistinct.1 (List.mem_map.mpr ⟨_, hrest, rfl⟩)
      rcases List.mem_cons.mp h with heq | hrest
      · obtain ⟨rfl, rfl, rfl⟩ := heq
        rcases List.mem_cons.mp h' with heq' | hrest'
        · obtain ⟨-, rfl, rfl⟩ := heq'
          exact ⟨rfl, rfl⟩
        · exact absurd hrest' (hnew _ _)
      · rcases List.mem_cons.mp h' with heq' | hrest'
        · obtain ⟨rfl, rfl, rfl⟩ := heq'
          exact absurd hrest (hnew _ _)
        · exact ih hdistinct.2 hrest hrest'

/-- The types of an object have all their fields in those of another one when
its entries fit and this holds of the types below them. -/
theorem objectType_covers {child : Child} {typeName : String} {conflicts conflicts' : List String}
    {entries entries' : Entries Json} (hempty : entries = [] ↔ entries' = [])
    (hfits : Fits child child typeName conflicts conflicts' entries entries')
    (hbelow : ∀ key value name value', (key, value, name) ∈ named [] entries →
      (key, value', name) ∈ named [] entries' → key ∉ conflicts →
        (child value (typeName ++ "_" ++ name) (conflictsBelow conflicts key)).1.unpaged =
            (child value' (typeName ++ "_" ++ name) (conflictsBelow conflicts' key)).1.unpaged →
          Covers (child value (typeName ++ "_" ++ name) (conflictsBelow conflicts key)).2
            (child value' (typeName ++ "_" ++ name) (conflictsBelow conflicts' key)).2) :
    Covers (objectType child entries typeName conflicts).2
      (objectType child entries' typeName conflicts').2 := by
  rw [objectType_eq_cons, objectType_eq_cons]
  intro entry hentry
  rcases List.mem_cons.mp hentry with rfl | hrest
  · exact ⟨_, List.mem_cons_self, rfl, within_iff_fits.mpr ⟨hempty, hfits⟩⟩
  · obtain ⟨key, value, name, hnamed, hkey, htype⟩ := mem_types_iff.mp hrest
    obtain ⟨value', hnamed', hiff, hsame⟩ := hfits key value name hnamed
    obtain ⟨other, hother, hname, hwithin⟩ :=
      hbelow key value name value' hnamed hnamed' hkey (hsame hkey) entry htype
    have hkey' : key ∉ conflicts' := fun hmem => hkey (hiff.mpr hmem)
    exact ⟨other, List.mem_cons_of_mem _
      (mem_types_iff.mpr ⟨key, value', name, hnamed', hkey', hother⟩),
      hname, hwithin⟩

/-- An object whose keys are all keys of an empty object is empty. -/
theorem nil_of_keys {entries entries' : Entries Json}
    (h : ∀ key value', (key, value') ∈ entries' → ∃ value, (key, value) ∈ entries)
    (hempty : entries = []) : entries' = [] := by
  rw [List.eq_nil_iff_forall_not_mem]
  intro entry hentry
  obtain ⟨value, hmem⟩ := h entry.1 entry.2 hentry
  rw [hempty] at hmem
  cases hmem

/-- Objects with the same keys are alike when entries of one key have one name,
conflict together, and are alike if they do not conflict. -/
theorem objectType_alike {child : Child} {typeName : String} {conflicts conflicts' : List String}
    {entries entries' : Entries Json}
    (hkeys : ∀ key value, (key, value) ∈ entries → ∃ value', (key, value') ∈ entries')
    (hkeys' : ∀ key value', (key, value') ∈ entries' → ∃ value, (key, value) ∈ entries)
    (hpair : ∀ key value name value' name', (key, value, name) ∈ named [] entries →
      (key, value', name') ∈ named [] entries' →
        name = name' ∧ (key ∈ conflicts ↔ key ∈ conflicts') ∧
          (key ∉ conflicts →
            Alike (child value (typeName ++ "_" ++ name) (conflictsBelow conflicts key))
              (child value' (typeName ++ "_" ++ name) (conflictsBelow conflicts' key)))) :
    Alike (objectType child entries typeName conflicts)
      (objectType child entries' typeName conflicts') := by
  have hempty : entries = [] ↔ entries' = [] := ⟨nil_of_keys hkeys', nil_of_keys hkeys⟩
  -- both objects have an entry for each key, so they fit in both directions
  have hfits : Fits child child typeName conflicts conflicts' entries entries' := by
    intro key value name hnamed
    obtain ⟨value', hmem⟩ := hkeys key value (mem_of_named hnamed)
    obtain ⟨name', hnamed'⟩ := exists_named [] hmem
    obtain ⟨rfl, hiff, halike⟩ := hpair key value name value' name' hnamed hnamed'
    exact ⟨value', hnamed', hiff, fun hkey => (halike hkey).type⟩
  have hfitted : Fits child child typeName conflicts' conflicts entries' entries := by
    intro key value' name' hnamed'
    obtain ⟨value, hmem⟩ := hkeys' key value' (mem_of_named hnamed')
    obtain ⟨name, hnamed⟩ := exists_named [] hmem
    obtain ⟨rfl, hiff, halike⟩ := hpair key value name value' name' hnamed hnamed'
    exact ⟨value, hnamed, hiff.symm, fun hkey' =>
      (halike fun hkey => hkey' (hiff.mp hkey)).type.symm⟩
  refine ⟨?_, objectType_covers hempty hfits ?_, objectType_covers hempty.symm hfitted ?_⟩
  · rw [objectType_eq_cons, objectType_eq_cons]
  · intro key value name value' hnamed hnamed' hkey _
    exact ((hpair key value name value' name hnamed hnamed').2.2 hkey).covers
  · intro key value' name value hnamed' hnamed hkey' _
    obtain ⟨-, hiff, halike⟩ := hpair key value name value' name hnamed hnamed'
    exact (halike fun hkey => hkey' (hiff.mp hkey)).covered

/-- Lists are alike when both are mixed or have alike elements. -/
theorem listType_alike {limits : Limits} {levels : Nat} {child : Child} {items items' : List Json}
    {typeName : String} (hempty : items = [] ↔ items' = [])
    (hmixed : Sample.isMixed limits items = Sample.isMixed limits items')
    (hitem : Sample.isMixed limits items = false →
      Alike
        (child (representative limits levels items).1 (typeName ++ "_Item")
          (representative limits levels items).2)
        (child (representative limits levels items').1 (typeName ++ "_Item")
          (representative limits levels items').2)) :
    Alike (listType limits levels child items typeName)
      (listType limits levels child items' typeName) := by
  by_cases hne : items = []
  · rw [hne, hempty.mp hne]
    exact alike_refl _
  · have hne' : items' ≠ [] := fun heq => hne (hempty.mpr heq)
    cases hkind : Sample.isMixed limits items with
    | true =>
        rw [listType_of_mixed hkind, listType_of_mixed (hmixed ▸ hkind)]
        exact alike_of_nil rfl
    | false =>
        have hchild := hitem hkind
        rw [listType_of_uniform hne hkind, listType_of_uniform hne' (hmixed ▸ hkind)]
        exact ⟨congrArg (TypeRef.list · none) hchild.type, hchild.covers, hchild.covered⟩

/-! ### Aligned values have alike outlines

By induction on the levels. Where a level ends for the shape, alignment asks for
alike outlines outright. -/

/-- A value whose shape is that of a scalar has no object types. -/
theorem ofJson_of_scalar? {limits : Limits} {levels : Nat} {value : Json} {type : Scalar}
    (h : (Shape.ofJson limits (levels + 1) value).scalar? = some type) (count : Nat)
    (typeName : String) (conflicts : List String) :
    ofJson limits (count + 1) value typeName conflicts = (.scalar type, []) := by
  rw [Shape.scalar?_ofJson] at h
  cases value with
  | arr items => cases h
  | obj entries => cases h
  | _ =>
      rw [← Option.some.inj h]
      rfl

/-- Aligned values of one shape have alike outlines. -/
theorem alike_of_aligned {limits : Limits} {extra levels : Nat} {value other : Json}
    (hformed : value.WellFormed) (hformed' : other.WellFormed)
    (hshape : Shape.ofJson limits levels value = Shape.ofJson limits levels other)
    {typeName : String} {conflicts conflicts' : List String}
    (haligned : Aligned limits extra levels typeName conflicts conflicts' value other) :
    Alike (ofJson limits (extra + levels) value typeName conflicts)
      (ofJson limits (extra + levels) other typeName conflicts') := by
  induction levels generalizing value other typeName conflicts conflicts' with
  | zero => exact haligned
  | succ levels ih =>
      cases value with
      | arr items =>
          obtain ⟨items', rfl, hempty⟩ := Shape.items_of_shape hshape
          obtain ⟨hmixed, hitems⟩ := haligned
          refine listType_alike hempty hmixed fun hnot => ?_
          specialize hitems hnot
          split at hitems
          · exact hitems
          · next hnull =>
              have hitem := representative_of_shape hshape hnot (hmixed ▸ hnot) hnull extra
              exact ih (representative_wellFormed limits _ hformed)
                (representative_wellFormed limits _ hformed') hitem hitems
      | obj entries =>
          obtain ⟨entries', rfl, hentries⟩ := Shape.entries_of_shape hshape
          -- the shapes agree on the keys in both directions
          obtain ⟨_, heq, hentries'⟩ := Shape.entries_of_shape hshape.symm
          obtain rfl := Json.obj.inj heq
          refine objectType_alike (fun key value hmem =>
            (hentries key value hmem).imp fun _ => And.left)
            (fun key value hmem => (hentries' key value hmem).imp fun _ => And.left) ?_
          intro key value name value' name' hnamed hnamed'
          obtain ⟨rfl, hiff, hbelow⟩ := haligned key value name value' name' hnamed hnamed'
          refine ⟨rfl, hiff, fun hkey => ?_⟩
          have hmem := mem_of_named hnamed
          have hmem' := mem_of_named hnamed'
          exact ih (hformed.value hmem) (hformed'.value hmem')
            (Shape.value_of_shape hformed'.1 hentries hmem hmem') (hbelow hkey)
      | _ =>
          have hother := (congrArg Shape.scalar? hshape).symm.trans (Shape.scalar?_ofJson _)
          rw [← Nat.add_assoc, ofJson_of_scalar? hother]
          exact alike_of_nil rfl

/-! ### Only aligned values have alike outlines

By induction on the levels again. What the fields of a type show in a registry
is enough to tell the names and the conflicts of its entries, and the types of
the elements of a list that begins with `null`. -/

theorem ofJson_zero (limits : Limits) (value : Json) (typeName : String) (conflicts : List String) :
    ofJson limits 0 value typeName conflicts =
      (if value.isNull then .scalar .string else .json, []) := by
  cases value <;> rfl

/-- A type that names no object type needs none. -/
theorem types_eq_nil {limits : Limits} {levels : Nat} {value : Json} {typeName : String}
    {conflicts : List String}
    (h : (ofJson limits levels value typeName conflicts).1.namedInside? = none) :
    (ofJson limits levels value typeName conflicts).2 = [] := by
  induction levels generalizing value typeName conflicts with
  | zero => rw [ofJson_zero]
  | succ levels ih =>
      cases value with
      | arr items =>
          simp only [ofJson, listType] at h ⊢
          split at h
          · rfl
          · split at h
            -- a mixed list is raw JSON; any other has the types of its elements
            · next hmixed => rw [if_pos hmixed]
            · next hmixed =>
                rw [if_neg hmixed]
                exact ih h
      | obj entries =>
          rw [ofJson, objectType_eq_cons] at h
          cases h
      | _ => rfl

/-- Two lists of one type are mixed together. -/
theorem isMixed_eq_of_type {limits : Limits} {levels : Nat} {child : Child}
    {items items' : List Json} {typeName : String} (hempty : items = [] ↔ items' = [])
    (h : (listType limits levels child items typeName).1.unpaged =
      (listType limits levels child items' typeName).1.unpaged) :
    Sample.isMixed limits items = Sample.isMixed limits items' := by
  by_cases hne : items = []
  · rw [hne, hempty.mp hne]
  · have hne' : items' ≠ [] := fun heq => hne (hempty.mpr heq)
    -- a mixed list is raw JSON and no list
    cases hkind : Sample.isMixed limits items with
    | true =>
        cases hkind' : Sample.isMixed limits items' with
        | true => rfl
        | false =>
            rw [listType_of_mixed hkind, listType_of_uniform hne' hkind'] at h
            cases h
    | false =>
        cases hkind' : Sample.isMixed limits items' with
        | true =>
            rw [listType_of_uniform hne hkind, listType_of_mixed hkind'] at h
            cases h
        | false => rfl

/-- A list without object types, or a list of the elements of some outline. -/
theorem item_of_list {limits : Limits} {levels : Nat} {value : Json} {typeName : String}
    {conflicts : List String} {item : TypeRef}
    (h : (ofJson limits (levels + 1) value typeName conflicts).1.unpaged = .list item none) :
    item = .json ∨ ∃ inner inside page, ofJson limits (levels + 1) value typeName conflicts =
        (.list (ofJson limits levels inner (typeName ++ "_Item") inside).1 page,
          (ofJson limits levels inner (typeName ++ "_Item") inside).2) ∧
      (ofJson limits levels inner (typeName ++ "_Item") inside).1.unpaged = item := by
  cases value with
  | arr items =>
      cases items with
      | nil => exact Or.inl (TypeRef.list.inj h).1.symm
      | cons first rest =>
          simp only [ofJson, listType] at h ⊢
          split at h
          · cases h
          · next hmixed =>
              -- the list is one of elements, and these have an outline of their own
              rw [if_neg hmixed]
              exact Or.inr ⟨_, _, _, rfl, (TypeRef.list.inj h).1⟩
  | obj entries =>
      rw [ofJson, objectType_eq_cons] at h
      cases h
  | _ => cases h

section Held

variable {types types' : Registry}

/-- Entries of objects fit when the type that one registry holds for them is
within the type that another one holds. -/
theorem fits_of_held {child child' : Child} {entries entries' : Entries Json} {typeName : String}
    {conflicts conflicts' : List String}
    (hwithin : (types.typeNamed typeName).Within (types'.typeNamed typeName))
    (hheld : Held types (objectType child entries typeName conflicts).2)
    (hheld' : Held types' (objectType child' entries' typeName conflicts').2) :
    (entries = [] ↔ entries' = []) ∧
      Fits child child' typeName conflicts conflicts' entries entries' := by
  rw [NamedType.Within, hheld.ownFields, hheld'.ownFields] at hwithin
  exact within_iff_fits.mp hwithin

/-- Where all types of one registry are within those of another one, outlines of
one type that the two registries hold cover each other. -/
theorem covers_of_held
    (hwithin : ∀ name, (types.typeNamed name).Within (types'.typeNamed name)) {limits : Limits}
    {levels : Nat} {value other : Json} {typeName : String} {conflicts conflicts' : List String}
    (hheld : Held types (ofJson limits levels value typeName conflicts).2)
    (hheld' : Held types' (ofJson limits levels other typeName conflicts').2)
    (htype : (ofJson limits levels value typeName conflicts).1.unpaged =
      (ofJson limits levels other typeName conflicts').1.unpaged) :
    Covers (ofJson limits levels value typeName conflicts).2
      (ofJson limits levels other typeName conflicts').2 := by
  induction levels generalizing value other typeName conflicts conflicts' with
  | zero =>
      rw [ofJson_zero]
      exact covers_nil _
  | succ levels ih =>
      cases value with
      | arr items =>
          cases items with
          | nil => exact covers_nil _
          | cons item rest =>
              simp only [ofJson, listType] at hheld htype ⊢
              split
              · exact covers_nil _
              · next hmixed =>
                  rw [if_neg hmixed] at hheld htype
                  rcases item_of_list htype.symm with hjson |
                    ⟨inner, inside, page, hother, hinner⟩
                  · -- a list of raw JSON, like the empty list, has no object types
                    have hnone :
                      (ofJson limits levels (representative limits levels (item :: rest)).1
                        (typeName ++ "_Item")
                        (representative limits levels (item :: rest)).2).1.namedInside? = none := by
                      rw [← TypeRef.namedInside?_unpaged, hjson]
                      rfl
                    simp only [types_eq_nil hnone]
                    exact covers_nil _
                  · rw [hother] at hheld' ⊢
                    exact ih hheld hheld' hinner.symm
      | obj entries =>
          rw [ofJson] at hheld htype ⊢
          have hnamed : (ofJson limits (levels + 1) other typeName conflicts').1.unpaged =
              .named typeName := by
            rw [← htype, objectType_eq_cons]
            rfl
          obtain ⟨entries', rfl⟩ := object_of_named hnamed
          rw [ofJson] at hheld' ⊢
          obtain ⟨hempty, hfits⟩ := fits_of_held (hwithin typeName) hheld hheld'
          refine objectType_covers hempty hfits ?_
          intro key value name value' hentry hentry' hkey hsame
          obtain ⟨-, -, hiff, -⟩ := hfits key value name hentry
          have hkey' : key ∉ conflicts' := fun hmem => hkey (hiff.mpr hmem)
          exact ih (hheld.entry hentry hkey) (hheld'.entry hentry' hkey') hsame
      | _ => exact covers_nil _

/-- Values of one shape are aligned when two registries that are within each
other hold their outlines, which are of one type. -/
theorem aligned_of_held
    (hwithin : ∀ name, (types.typeNamed name).Within (types'.typeNamed name))
    (hwithin' : ∀ name, (types'.typeNamed name).Within (types.typeNamed name)) {limits : Limits}
    {extra levels : Nat} {value other : Json} (hformed : value.WellFormed)
    (hformed' : other.WellFormed)
    (hshape : Shape.ofJson limits levels value = Shape.ofJson limits levels other)
    {typeName : String} {conflicts conflicts' : List String}
    (hheld : Held types (ofJson limits (extra + levels) value typeName conflicts).2)
    (hheld' : Held types' (ofJson limits (extra + levels) other typeName conflicts').2)
    (htype : (ofJson limits (extra + levels) value typeName conflicts).1.unpaged =
      (ofJson limits (extra + levels) other typeName conflicts').1.unpaged) :
    Aligned limits extra levels typeName conflicts conflicts' value other := by
  induction levels generalizing value other typeName conflicts conflicts' with
  | zero =>
      exact ⟨htype, covers_of_held hwithin hheld hheld' htype,
        covers_of_held hwithin' hheld' hheld htype.symm⟩
  | succ levels ih =>
      rw [← Nat.add_assoc] at hheld hheld' htype
      cases value with
      | arr items =>
          obtain ⟨items', rfl, hempty⟩ := Shape.items_of_shape hshape
          simp only [ofJson] at hheld hheld' htype
          have hmixed := isMixed_eq_of_type hempty htype
          refine ⟨hmixed, fun hkind => ?_⟩
          -- nothing stands for the items of an empty array, so there is nothing
          -- below
          by_cases hne : items = []
          · rw [hne, hempty.mp hne, if_pos (Shape.isNull_representative_nil limits levels)]
            exact alike_refl _
          · have hne' : items' ≠ [] := fun heq => hne (hempty.mpr heq)
            have hkind' := hmixed.symm.trans hkind
            rw [listType_of_uniform hne hkind] at hheld htype
            rw [listType_of_uniform hne' hkind'] at hheld' htype
            have hinner := (TypeRef.list.inj htype).1
            split
            · exact ⟨hinner, covers_of_held hwithin hheld hheld' hinner,
                covers_of_held hwithin' hheld' hheld hinner.symm⟩
            · next hnull =>
                have hitem := representative_of_shape hshape hkind hkind' hnull extra
                exact ih (representative_wellFormed limits _ hformed)
                  (representative_wellFormed limits _ hformed') hitem hheld hheld' hinner
      | obj entries =>
          obtain ⟨entries', rfl, hentries⟩ := Shape.entries_of_shape hshape
          rw [ofJson] at hheld hheld'
          obtain ⟨-, hfits⟩ := fits_of_held (hwithin typeName) hheld hheld'
          intro key value name value' name' hentry hentry'
          obtain ⟨found, hfound, hiff, hsame⟩ := hfits key value name hentry
          obtain ⟨rfl, rfl⟩ := named_unique hformed'.1 hfound hentry'
          refine ⟨rfl, hiff, fun hkey => ?_⟩
          have hkey' : key ∉ conflicts' := fun hmem => hkey (hiff.mpr hmem)
          have hmem := mem_of_named hentry
          have hmem' := mem_of_named hentry'
          exact ih (hformed.value hmem) (hformed'.value hmem')
            (Shape.value_of_shape hformed'.1 hentries hmem hmem') (hheld.entry hentry hkey)
            (hheld'.entry hentry' hkey') (hsame hkey)
      | _ => trivial

end Held

end Outline

end JsonSelection


import JsonSelection.Proofs.Sample.Reordering
import JsonSelection.Proofs.Shape
import JsonSelection.Proofs.Shape.Text

/-!
# Canonical fingerprints

The keys of an object stand in its shape in ascending order, each once, so a
shape has lost the order in which they were written.

## What this module delivers

- `Shape.Canonical`: the keys in a shape ascend, at any depth.
- `Shape.canonical_ofJson`: the shape of a value is canonical.
- `Shape.fingerprint_of_reordered`: values that are equal up to the order of
  keys have one fingerprint, from every depth and for all limits.
- `Shape.fingerprint_tells_shape`: values of one fingerprint have one shape.

So two values have one fingerprint exactly if they have one shape, and what is
to be said of fingerprints can be said of shapes. That a text tells the shape
does not rest on canonical shapes; it is shown for all shapes in
`Proofs/Shape/Text`.
-/

set_option autoImplicit false

namespace JsonSelection

open Json (Reordered)

namespace Shape

variable {limits : Limits} {levels : Nat}

/-! ### The order of keys

By induction on the levels of the shape. A merge goes along with the order of
keys, so this reaches through arrays of objects. -/

/-- What stands for the elements of arrays that are equal up to the order of keys. -/
theorem representative_reordered {items items' : List Json}
    (h : List.Forall₂ Reordered items items') :
    Reordered (representative limits levels items) (representative limits levels items') := by
  have hobjects := Sample.congruent_reordered.objects (Sample.before_related h limits.sampleSize)
  rw [representative, representative, Sample.mergeItems, Sample.mergeItems, Sample.ofItems,
    Sample.ofItems]
  generalize (Slice.before items limits.sampleSize).filterMap Json.entries? = objects at hobjects
  generalize (Slice.before items' limits.sampleSize).filterMap Json.entries? = objects' at hobjects
  cases hobjects with
  | nil => exact Sample.headD_related h (.same .null)
  | cons hfirst hrest =>
      apply Sample.congruent_reordered.object.mpr
      exact Sample.merge_reordered limits.majorityThreshold levels (.cons hfirst hrest)

theorem isMixed_reordered {items items' : List Json} (h : List.Forall₂ Reordered items items') :
    Sample.isMixed limits items = Sample.isMixed limits items' := by
  have hkind : ∀ {value value'}, Reordered value value' → value.kind = value'.kind :=
    Sample.congruent_reordered.kind
  have hlooked := Sample.present_related hkind (Sample.before_related h limits.sampleSize)
  have hkinds := Sample.kindsSeen_congr (Sample.map_kind_related hkind hlooked)
  rw [Sample.isMixed, Sample.isMixed, Sample.ofItems, Sample.ofItems, hkinds]

/-- Values that are equal up to the order of keys have one shape. -/
theorem ofJson_reordered {value value' : Json} (hformed : value.WellFormed)
    (hformed' : value'.WellFormed) (h : Reordered value value') :
    ofJson limits levels value = ofJson limits levels value' := by
  induction levels generalizing value value' with
  | zero =>
      have hkind : value.kind = value'.kind := Sample.congruent_reordered.kind h
      cases value <;> cases value' <;> first | rfl | cases hkind
  | succ levels ih =>
      cases h with
      | same => rfl
      | @array items items' hitems =>
          have hrepresentative := ih (representative_wellFormed limits levels hformed)
            (representative_wellFormed limits levels hformed') (representative_reordered hitems)
          have hmixed : Sample.isMixed limits items = Sample.isMixed limits items' :=
            isMixed_reordered hitems
          cases hitems with
          | nil => rfl
          | cons _ _ => simp only [ofJson, hmixed, hrepresentative]
      | @object entries entries' hkeys hvalues =>
          rw [ofJson_obj hformed.1, ofJson_obj hformed'.1, sortedKeys_perm hkeys]
          congr 1
          apply List.map_congr_left
          intro key hkey
          -- each key is found on both sides, with values of one shape
          have hfound := Sample.ReorderedEntries.find? ⟨hkeys, hvalues⟩ key
          generalize hvalue : entries.find? key = found at hfound ⊢
          generalize hvalue' : entries'.find? key = found' at hfound ⊢
          cases hfound with
          | none => rfl
          | some hreordered =>
              have hshape := ih (hformed.value (Entries.mem_of_find? hvalue))
                (hformed'.value (Entries.mem_of_find? hvalue')) hreordered
              exact Prod.ext rfl hshape

/-- Values that are equal up to the order of keys have one fingerprint, from
every depth and for all limits. -/
theorem fingerprint_of_reordered (limits : Limits) (depth : Int) {value value' : Json}
    (hformed : value.WellFormed) (hformed' : value'.WellFormed) (h : Reordered value value') :
    fingerprint limits depth value = fingerprint limits depth value' :=
  congrArg text (ofJson_reordered hformed hformed' h)

/-- An object inside a row. -/
def owner : Entries Json :=
  [("id", .int 1), ("name", .str "x")]

/-- Rows with an object, under the key that is written first or last. -/
def rows (ownerFirst : Bool) : Json :=
  .arr [.obj (if ownerFirst then [("owner", .obj owner), ("tag", .null)]
    else [("tag", .null), ("owner", .obj owner.reverse)]),
      .obj [("owner", .obj [("id", .float 1)])]]

theorem rows_wellFormed (ownerFirst : Bool) : (rows ownerFirst).WellFormed := by
  cases ownerFirst <;> simp [rows, owner, Json.WellFormed, Json.EntriesWellFormed,
    Json.ListWellFormed,
    Entries.Distinct, Entries.keys]

theorem fingerprint_of_reordered_rows :
    Reordered (rows true) (rows false) ∧ fingerprint {} 0 (rows true) = fingerprint {} 0
      (rows false) := by
  have howner : Reordered (.obj owner) (.obj owner.reverse) :=
    Sample.reordered_of_perm (by simp [owner, Entries.Distinct, Entries.keys])
      (List.reverse_perm owner).symm
  have hrow : Reordered (.obj [("owner", .obj owner), ("tag", .null)])
      (.obj [("tag", .null), ("owner", .obj owner.reverse)]) := by
    refine .object (List.Perm.swap _ _ _) ?_
    intro key value value' hvalue hvalue'
    rcases List.mem_cons.mp (Entries.mem_of_find? hvalue) with heq | hmem
    · obtain ⟨rfl, rfl⟩ := Prod.mk.inj heq
      obtain rfl := Option.some.inj hvalue'
      exact howner
    · obtain ⟨rfl, rfl⟩ := Prod.mk.inj (List.mem_singleton.mp hmem)
      obtain rfl := Option.some.inj hvalue'
      exact .same .null
  -- the rows keep their order; only the keys inside are exchanged
  have hrows : Reordered (rows true) (rows false) := .array (.cons hrow (.cons (.same _) .nil))
  exact ⟨hrows, fingerprint_of_reordered {} 0 (rows_wellFormed true)
    (rows_wellFormed false) hrows⟩

/-! ### Canonical shapes

Sorting alone leaves equal keys side by side. That they are strictly ascending
needs keys that are distinct, which a merged object has, too. -/

mutual

/-- The keys of every object in a shape ascend, so no key occurs twice in one
object. -/
def Canonical : Shape → Prop
  | list item => item.Canonical
  | object fields => (fields.map Prod.fst).Pairwise (· < ·) ∧ FieldsCanonical fields
  | _ => True

/-- The shape of every field is canonical. -/
def FieldsCanonical : List (String × Shape) → Prop
  | [] => True
  | (_, shape) :: rest => shape.Canonical ∧ FieldsCanonical rest

end

theorem fieldsCanonical_iff (fields : List (String × Shape)) :
    FieldsCanonical fields ↔ ∀ field ∈ fields, field.2.Canonical := by
  induction fields with
  | nil => simp [FieldsCanonical]
  | cons field rest ih =>
      obtain ⟨key, shape⟩ := field
      simp [FieldsCanonical, ih]

/-- Distinct keys ascend when they are sorted. -/
theorem pairwise_lt_sortedKeys {keys : List String} (h : keys.Nodup) :
    (keys.mergeSort fun key other => decide (key ≤ other)).Pairwise (· < ·) := by
  have hnodup : (keys.mergeSort fun key other => decide (key ≤ other)).Nodup :=
    (List.mergeSort_perm keys _).nodup_iff.mpr h
  apply ((pairwise_sortedKeys keys).and hnodup).imp
  rintro key other ⟨hle, hne⟩
  exact Std.lt_of_le_of_ne hle hne

/-- The shape of a value is canonical. -/
theorem canonical_ofJson {value : Json} (h : value.WellFormed) :
    (ofJson limits levels value).Canonical := by
  induction levels generalizing value with
  | zero => cases value <;> trivial
  | succ levels ih =>
      cases value with
      | float x =>
          simp only [ofJson]
          split <;> trivial
      | arr items =>
          have hitem := ih (representative_wellFormed limits levels h)
          cases items with
          | nil => trivial
          | cons item rest =>
              simp only [ofJson]
              split
              · trivial
              · exact hitem
      | obj entries =>
          rw [ofJson_obj h.1]
          refine ⟨?_, ?_⟩
          -- the keys are sorted and distinct, so they rise
          · rw [List.map_map]
            have hkeys := pairwise_lt_sortedKeys h.1
            rwa [← List.map_id (List.mergeSort _ _)] at hkeys
          · rw [fieldsCanonical_iff]
            intro field hfield
            obtain ⟨key, -, rfl⟩ := List.mem_map.mp hfield
            apply ih
            cases hvalue : Entries.find? entries key with
            | none => trivial
            | some value => exact h.value (Entries.mem_of_find? hvalue)
      | _ => trivial

/-- The text of a shape tells the shape, whatever its keys are, and the shape of
a value is canonical. So values have one fingerprint exactly if they have one
shape. -/
theorem fingerprint_tells_shape :
    (∀ shape other : Shape, shape.text = other.text ↔ shape = other) ∧
      (∀ (limits : Limits) (depth : Int) (value : Json), value.WellFormed →
        (ofJson limits (limits.levelsFrom depth) value).Canonical) ∧
      ∀ (limits limits' : Limits) (depth depth' : Int) (value value' : Json),
        fingerprint limits depth value = fingerprint limits' depth' value' ↔
          ofJson limits (limits.levelsFrom depth) value =
            ofJson limits' (limits'.levelsFrom depth') value' := by
  have htells : ∀ shape other : Shape, shape.text = other.text ↔ shape = other :=
    fun shape other => ⟨text_injective, congrArg text⟩
  refine ⟨htells, ?_, ?_⟩
  · intro limits depth value h
    exact canonical_ofJson h
  · intro limits limits' depth depth' value value'
    exact htells _ _

/-- An object with one key, which is written like the text between the keys of
another object. -/
def mimic : Entries Json :=
  [("a\":s,\"b", .int 1)]

theorem fingerprint_tells_shape_mimic : (ofJson {} 8 (.obj mimic)).Canonical ∧
    fingerprint {} 0 (.obj mimic) ≠ fingerprint {} 0 (.obj [("a", .str "x"), ("b", .int 1)]) := by
  obtain ⟨-, hcanonical, htells⟩ := fingerprint_tells_shape
  refine ⟨hcanonical {} 0 (.obj mimic) ?_, ?_⟩
  · simp [mimic, Json.WellFormed, Json.EntriesWellFormed, Entries.Distinct, Entries.keys]
  · intro h
    -- the shapes have one field and two fields
    have hfields := congrArg List.length (Shape.object.inj ((htells _ _ _ _ _ _).mp h))
    simp [sortedEntries, mimic] at hfields

end Shape

end JsonSelection

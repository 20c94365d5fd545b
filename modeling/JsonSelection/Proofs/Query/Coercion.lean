import JsonSelection.Proofs.Number.Quantity
import JsonSelection.Query.Execution

/-!
# What coercion loses

Two values are the same scalar if they stand for the same number or, where they
stand for none, are equal (`Json.SameScalar`), so the form in which a number
comes does not count. A scalar type keeps different values of one kind apart,
with one exception: as booleans, all numbers but zero are shown alike
(`Scalar.serialize_same_iff`).

The statement is over all scalar types and all values of one kind, containers
and `null` included, and it is exact: it says when two values are shown as the
same. The numbers include the infinities and the value that is no number; what
their texts tell is the subject of `Proofs/Number/Quantity`.
-/

set_option autoImplicit false

namespace JsonSelection

namespace Json

/-- Two values are the same scalar: numbers are compared by what they stand for,
in either form, and other values as they are. -/
def SameScalar (u v : Json) : Prop :=
  u.quantity? = v.quantity? ∧ (u.quantity? = none → u = v)

/-- A number value that does not stand for zero; the infinities and the float
that is no number are such, too. -/
def IsNonzero (v : Json) : Prop :=
  ∃ q, v.quantity? = some q ∧ q ≠ .exact 0

variable {u v : Json} {q q' : Quantity}

theorem sameScalar_iff_quantity (hu : u.quantity? = some q) (hv : v.quantity? = some q') :
    SameScalar u v ↔ q = q' := by
  rw [SameScalar, hu, hv, Option.some.injEq, and_iff_left_iff_imp]
  exact fun _ hnone => nomatch hnone

theorem sameScalar_iff_eq (hu : u.quantity? = none) : SameScalar u v ↔ u = v := by
  constructor
  · exact fun h => h.2 hu
  · rintro rfl
    exact ⟨rfl, fun _ => rfl⟩

theorem isNonzero_iff (h : v.quantity? = some q) : v.IsNonzero ↔ q ≠ .exact 0 := by
  rw [IsNonzero, h]
  constructor
  · rintro ⟨_, heq, hne⟩
    rwa [Option.some.inj heq]
  · exact fun hne => ⟨q, rfl, hne⟩

theorem exists_quantity_iff (v : Json) : (∃ q, v.quantity? = some q) ↔ v.kind = .number := by
  cases v with
  | int n => exact iff_of_true ⟨_, rfl⟩ rfl
  | float x => exact iff_of_true ⟨_, rfl⟩ rfl
  | _ => exact iff_of_false (fun ⟨_, h⟩ => nomatch h) (fun h => nomatch h)

theorem kind_of_isNonzero (h : v.IsNonzero) : v.kind = .number := by
  obtain ⟨q, hq, -⟩ := h
  exact (exists_quantity_iff v).mp ⟨q, hq⟩

theorem exists_bool (h : v.kind = .boolean) : ∃ b, v = bool b := by
  cases v with
  | bool b => exact ⟨b, rfl⟩
  | _ => cases h

end Json

namespace Scalar

open Json

variable {u v : Json} {q : Quantity}

/-! ### Numbers

A number is shown as its plain text, as an integer if it is whole, as itself, or
as a truth value. The first three tell the number. -/

theorem serialize_string_of_number (h : u.quantity? = some q) :
    string.serialize u = .str u.plainText := by
  cases u with
  | int n => rfl
  | float x => rfl
  | _ => cases h

/-- An integer field shows a whole number in another form, but the same number. -/
theorem quantity?_serialize_int (h : u.quantity? = some q) :
    (int.serialize u).quantity? = some q := by
  cases u with
  | int n => exact h
  | float x =>
      rw [serialize]
      cases hwhole : (Binary64.ofFloat x).toInt? with
      | none => exact h
      | some n =>
          obtain rfl := Option.some.inj h
          exact congrArg some ((Binary64.toInt?_eq_some_iff _ n).mp hwhole).symm
  | _ => cases h

/-- A boolean field tells of a number only whether it is zero. -/
theorem serialize_boolean_of_number (h : u.quantity? = some q) :
    boolean.serialize u = .bool !decide (q = .exact 0) := by
  cases u with
  | int n =>
      obtain rfl := Option.some.inj h
      have hzero : (n == 0) = decide (Quantity.exact (n : Rat) = .exact 0) := by
        rw [Bool.eq_iff_iff, beq_iff_eq, decide_eq_true_iff, Quantity.exact.injEq, Int.cast_eq_zero]
      rw [serialize, bne, hzero]
  | float x =>
      obtain rfl := Option.some.inj h
      have hzero : (Binary64.ofFloat x).isZero =
          decide ((Binary64.ofFloat x).quantity = .exact 0) := by
        rw [Bool.eq_iff_iff, Binary64.isZero_iff, decide_eq_true_iff]
      rw [serialize, hzero]
  | _ => cases h

theorem sameScalar_serialize_number (type : Scalar) (hu : u.kind = .number)
    (hv : v.kind = .number) :
    SameScalar (type.serialize u) (type.serialize v) ↔
      SameScalar u v ∨ (type = boolean ∧ u.IsNonzero ∧ v.IsNonzero) := by
  obtain ⟨q, hq⟩ := (exists_quantity_iff u).mpr hu
  obtain ⟨q', hq'⟩ := (exists_quantity_iff v).mpr hv
  rw [sameScalar_iff_quantity hq hq', isNonzero_iff hq, isNonzero_iff hq']
  cases type with
  | string =>
      rw [serialize_string_of_number hq, serialize_string_of_number hq', sameScalar_iff_eq rfl,
        Json.str.injEq, plainText_eq_iff hq hq']
      simp
  | int =>
      rw [sameScalar_iff_quantity (quantity?_serialize_int hq) (quantity?_serialize_int hq')]
      simp
  | float =>
      have hself : ∀ w, float.serialize w = w := fun w => by cases w <;> rfl
      rw [hself, hself, sameScalar_iff_quantity hq hq']
      simp
  -- two numbers become the same truth value if both are zero or both are not
  | boolean =>
      rw [serialize_boolean_of_number hq, serialize_boolean_of_number hq', sameScalar_iff_eq rfl,
        Json.bool.injEq, Bool.not_inj_iff, decide_eq_decide]
      by_cases hzero : q = .exact 0
      · simp [hzero, eq_comm]
      · by_cases hzero' : q' = .exact 0
        · simp [hzero, hzero']
        · simp [hzero, hzero']

/-! ### Other values -/

theorem sameScalar_serialize_bool (type : Scalar) (a b : Bool) :
    SameScalar (type.serialize (.bool a)) (type.serialize (.bool b)) ↔ SameScalar (.bool a)
    (.bool b) := by
  have hself : SameScalar (.bool a) (.bool b) ↔ a = b := by
    rw [sameScalar_iff_eq rfl, Json.bool.injEq]
  rw [hself]
  cases type with
  | string =>
      have htext : ∀ a b : Bool, (Json.bool a).plainText = (Json.bool b).plainText ↔ a = b := by
        intro a b
        cases a <;> cases b <;> simp [plainText, compact, scalarText]
      exact (sameScalar_iff_eq rfl).trans ((Iff.of_eq (Json.str.injEq _ _)).trans (htext a b))
  | int =>
      refine (sameScalar_iff_quantity rfl rfl).trans ?_
      cases a <;> cases b <;> simp
  | float => exact hself
  | boolean => exact hself

/-- Texts and values that are no scalars are handed through. -/
theorem serialize_eq_self (type : Scalar) (hnumber : u.kind ≠ .number)
    (hboolean : u.kind ≠ .boolean) :
    type.serialize u = u := by
  cases u with
  | int n => exact absurd rfl hnumber
  | float x => exact absurd rfl hnumber
  | bool b => exact absurd rfl hboolean
  | _ => cases type <;> rfl

/-- A scalar type shows two values of one kind as the same only if they are the
same, save that a boolean field shows all numbers other than zero alike. -/
theorem serialize_same_iff (type : Scalar) (h : u.kind = v.kind) :
    SameScalar (type.serialize u) (type.serialize v) ↔
      SameScalar u v ∨ (type = boolean ∧ u.IsNonzero ∧ v.IsNonzero) := by
  -- of the values of one kind only numbers and booleans are changed, so the others are
  -- compared as they are
  by_cases hnumber : u.kind = .number
  · exact sameScalar_serialize_number type hnumber (h ▸ hnumber)
  · have hnone : ¬ (type = boolean ∧ u.IsNonzero ∧ v.IsNonzero) := fun hzero =>
      hnumber (kind_of_isNonzero hzero.2.1)
    rw [or_iff_left hnone]
    by_cases hboolean : u.kind = .boolean
    · obtain ⟨a, rfl⟩ := exists_bool hboolean
      obtain ⟨b, rfl⟩ := exists_bool (h ▸ hboolean)
      exact sameScalar_serialize_bool type a b
    · rw [serialize_eq_self type hnumber hboolean, serialize_eq_self type (h ▸ hnumber)
        (h ▸ hboolean)]

/-- A boolean field shows the different numbers 1 and 2 alike. -/
theorem serialize_same_iff_one_two :
    (Json.int 1).kind = (Json.int 2).kind ∧ ¬ SameScalar (.int 1) (.int 2) ∧
      SameScalar (boolean.serialize (.int 1)) (boolean.serialize (.int 2)) := by
  refine ⟨rfl, ?_, (serialize_same_iff boolean rfl).mpr (Or.inr ⟨rfl, ?_, ?_⟩)⟩
  · rw [sameScalar_iff_quantity rfl rfl]
    decide
  · exact (isNonzero_iff rfl).mpr (by decide)
  · exact (isNonzero_iff rfl).mpr (by decide)

end Scalar

end JsonSelection
